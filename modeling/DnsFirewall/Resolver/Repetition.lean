import DnsFirewall.Resolver.Negative

/-!
# Resolving a question again

The cache check at the head of `resolve_internal` returns 0 for every entry
that parses, and does not look at the response code in it.  A call that stores
a reply ends with 0 or with -3, so the second call for the same question
agrees with the first one unless that one has stored a negative reply.
-/

namespace DnsFirewall

open CString

/-- The second outcome has the code of the first and the given message. -/
def Outcome.RepeatedBy (outcome : Outcome) (message : DnsMessage)
    (second : Outcome) : Prop :=
  second.code = outcome.code ∧ second.message = some message

/-- A call that may have stored the reply ends with 0 exactly if the question
is forwarded or the reply has an answer record. -/
theorem code_of_mayStore
    {cfg : ResolverConfig} {outcome : Outcome} {question : DnsQuestion}
    {raw : Bytes} {message : DnsMessage}
    (stored : outcome.MayStore cfg question raw)
    (parsed : dnsParseMessage raw = .ok message) :
    some 0 = outcome.code ↔
      Forwards cfg question.qname ∨ message.answers ≠ [] := by
  obtain ⟨resp, alsoParsed, allowed⟩ := stored
  rw [parsed] at alsoParsed
  cases alsoParsed
  cases outcome with
  | answer a =>
      constructor
      · intro _
        exact allowed
      · intro _
        rfl
  | nxDomain a =>
      obtain ⟨iterates, noAnswers, _⟩ := allowed
      constructor
      · intro same
        cases same
      · intro other
        rcases other with forwards | hasAnswer
        · exact absurd forwards iterates
        · exact absurd noAnswers hasAnswer
  | failed => exact allowed.elim
  | tooDeep => exact allowed.elim
  | hung => exact allowed.elim

/-- The first call has stored the reply for the question, and the second one
finds the cache as it was left, before the entry expires: it repeats code and
reply exactly if the question is forwarded or the reply has an answer record.
-/
theorem resolveInternal_repeats_iff
    (env env' : Env) (cfg : ResolverConfig) (levels levels' : Nat)
    (question : DnsQuestion) (nsList nsList' : List NsRecord)
    {w w' after : World} {outcome : Outcome} {new : List Event}
    {raw : Bytes} {pass : Nat} {entry : CacheEntry}
    (first :
      resolveInternal env cfg levels question nsList w = (outcome, after))
    (logged : after.log = new ++ w.log)
    (stored : .believed .stored question raw ∈ new)
    (held : after.cache.Holds (questionKey question) pass entry)
    (isReply : entry.data = raw)
    (undisturbed : w'.cache = after.cache)
    (unexpired : env'.time w'.ticks ≤ entry.expiry) :
    ∃ message, dnsParseMessage raw = .ok message ∧
      (outcome.RepeatedBy message
          (resolveInternal env' cfg (levels' + 1) question nsList' w').1 ↔
        Forwards cfg question.qname ∨ message.answers ≠ []) := by
  have adds := adds_resolveInternal env cfg levels question nsList w
  rw [first] at adds
  obtain ⟨added, alsoLogged, allowed⟩ := adds.log
  rw [logged] at alsoLogged
  rw [List.append_cancel_right alsoLogged] at stored
  obtain ⟨message, parsed, _⟩ := allowed question raw stored
  have hit :
      (lookupQuestion w'.cache question (env'.time w'.ticks)).1 =
        some raw := by
    rw [undisturbed, lookupQuestion_of_holds held unexpired, isReply]
  refine ⟨message, parsed, ?_⟩
  rw [resolveInternal_of_hit env' cfg levels' nsList' hit parsed,
    ← code_of_mayStore (allowed question raw stored) parsed]
  exact and_iff_left rfl

/-- The question asked again. -/
def resolvedTwice (packet : Bytes) : Outcome × World :=
  resolveInternal (envAnswering packet) configIterative 17 questionA
    configIterative.rootHints (resolvedOnce packet).2

/-- The reply with one address. -/
theorem resolveInternal_repeats_stray :
    ∃ message, dnsParseMessage strayPacket = .ok message ∧
      ((resolvedOnce strayPacket).1.RepeatedBy message
          (resolvedTwice strayPacket).1 ↔
        Forwards configIterative questionA.qname ∨
          message.answers ≠ []) := by
  have hit :
      (lookupQuestion (resolvedOnce strayPacket).2.cache questionA 0).1 =
        some strayPacket := by
    decide +kernel
  have stored :
      .believed .stored questionA strayPacket ∈
        (resolvedOnce strayPacket).2.log := by
    decide +kernel
  obtain ⟨pass, entry, held, unexpired, isReply⟩ := exists_holds_of_hit hit
  exact
    resolveInternal_repeats_iff (envAnswering strayPacket)
      (envAnswering strayPacket) configIterative 17 16 questionA
      configIterative.rootHints configIterative.rootHints
      (Prod.mk.eta (p := resolvedOnce strayPacket)).symm
      (List.append_nil _).symm stored held isReply rfl unexpired

/-! ## A negative reply -/

/-- Every reply that a call has stored would be returned with the same code by
the next call for the question. -/
def RepeatsAlike : Prop :=
  ∀ (env env' : Env) (cfg : ResolverConfig) (levels levels' : Nat)
    (question : DnsQuestion) (nsList nsList' : List NsRecord)
    (w w' after : World) (outcome : Outcome) (new : List Event)
    (raw : Bytes) (pass : Nat) (entry : CacheEntry)
    (message : DnsMessage),
    resolveInternal env cfg levels question nsList w = (outcome, after) →
      after.log = new ++ w.log →
        .believed .stored question raw ∈ new →
          after.cache.Holds (questionKey question) pass entry →
            entry.data = raw →
              w'.cache = after.cache →
                env'.time w'.ticks ≤ entry.expiry →
                  dnsParseMessage raw = .ok message →
                    outcome.RepeatedBy message
                      (resolveInternal env' cfg (levels' + 1) question
                        nsList' w').1

/-- The first call returns -3, the second 0. -/
theorem not_repeatsAlike : ¬ RepeatsAlike := by
  intro alike
  have hit :
      (lookupQuestion (resolvedOnce emptyNxDomain).2.cache questionA 0).1 =
        some emptyNxDomain := by
    decide +kernel
  have stored :
      .believed .stored questionA emptyNxDomain ∈
        (resolvedOnce emptyNxDomain).2.log := by
    decide +kernel
  have negative : (resolvedOnce emptyNxDomain).1.code = some (-3) := by
    decide +kernel
  have positive : (resolvedTwice emptyNxDomain).1.code = some 0 := by
    decide +kernel
  obtain ⟨message, parsed⟩ :
      ∃ message, dnsParseMessage emptyNxDomain = .ok message :=
    ⟨_, rfl⟩
  obtain ⟨pass, entry, held, unexpired, isReply⟩ := exists_holds_of_hit hit
  have repeated :
      (resolvedOnce emptyNxDomain).1.RepeatedBy message
        (resolvedTwice emptyNxDomain).1 :=
    alike (envAnswering emptyNxDomain) (envAnswering emptyNxDomain)
      configIterative 17 16 questionA configIterative.rootHints
      configIterative.rootHints worldStart
      (resolvedOnce emptyNxDomain).2 (resolvedOnce emptyNxDomain).2
      (resolvedOnce emptyNxDomain).1 (resolvedOnce emptyNxDomain).2.log
      emptyNxDomain pass entry message rfl (List.append_nil _).symm stored
      held isReply rfl unexpired parsed
  have sameCode := repeated.1
  rw [negative, positive] at sameCode
  exact absurd sameCode (by decide)

end DnsFirewall
