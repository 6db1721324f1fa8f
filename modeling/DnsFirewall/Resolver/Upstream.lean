import DnsFirewall.Resolver.Trust

/-!
# Which names the resolver asks for

The resolver sends queries for the name it was called with, and for names that
it has read out of a CNAME record of a reply.
-/

namespace DnsFirewall

open CString

/-- Some reply in the log has the name as the target of its alias. -/
def AliasSeen (log : List Event) (name : Bytes) : Prop :=
  ∃ x raw resp first more,
    .exchange x ∈ log ∧ usableReply x.reply = some (raw, resp) ∧
      resp.answers = first :: more ∧ aliasTarget raw first = some name

/-- Every packet sent is that of a question for the given name, or for an
alias seen before it. -/
def NamesExplained (name : Bytes) : List Event → Prop
  | [] => True
  | .exchange x :: earlier =>
      (∃ question, x.query = queryPacket x.id question ∧
          (question.qname = name ∨ AliasSeen earlier question.qname)) ∧
        NamesExplained name earlier
  | .believed _ _ _ :: earlier => NamesExplained name earlier

theorem AliasSeen.mono
    {log later : List Event} {name : Bytes}
    (seen : AliasSeen log name) (grown : log <:+ later) :
    AliasSeen later name := by
  obtain ⟨x, raw, resp, first, more, member, usable, answers, target⟩ :=
    seen
  exact ⟨x, raw, resp, first, more, grown.subset member, usable, answers,
    target⟩

theorem Asked.aliasSeen
    {question : DnsQuestion} {w asked : World} {reply : Option Bytes}
    {raw cname : Bytes} {resp : DnsMessage} {first : DnsRr}
    {more : List DnsRr}
    (ask : Asked question w reply asked)
    (usable : usableReply reply = some (raw, resp))
    (answers : resp.answers = first :: more)
    (target : aliasTarget raw first = some cname) :
    AliasSeen asked.log cname := by
  obtain ⟨isReply, _, _⟩ := usableReply_eq_some usable
  rcases ask.log with ⟨noReply, _⟩ | ⟨server, id, logged⟩
  · rw [isReply] at noReply
    cases noReply
  · refine ⟨exchangeOf server question id reply, raw, resp, first, more,
      ?_, usable, answers, target⟩
    rw [logged]
    exact List.mem_cons_self

theorem Asked.namesExplained
    {name : Bytes} {question : DnsQuestion} {w asked : World}
    {reply : Option Bytes}
    (ask : Asked question w reply asked)
    (known : question.qname = name ∨ AliasSeen w.log question.qname)
    (explained : NamesExplained name w.log) :
    NamesExplained name asked.log := by
  rcases ask.log with ⟨_, logged⟩ | ⟨server, id, logged⟩
  · rw [logged]
    exact explained
  · rw [logged]
    have packet := query_exchangeOf server question id reply
    exact ⟨⟨question, packet, known⟩, explained⟩

theorem Resolves.namesExplained
    {env : Env} {cfg : ResolverConfig} {stage : Stage}
    {question : DnsQuestion} {nsList : List NsRecord} {w after : World}
    {outcome : Outcome} {name : Bytes}
    (run : Resolves env cfg stage question nsList w outcome after)
    (known : question.qname = name ∨ AliasSeen w.log question.qname)
    (explained : NamesExplained name w.log) :
    NamesExplained name after.log := by
  have still :
      ∀ {question : DnsQuestion} {w later : World},
        (question.qname = name ∨ AliasSeen w.log question.qname) →
          w.log <:+ later.log →
            question.qname = name ∨
              AliasSeen later.log question.qname := by
    intro question w later known grown
    rcases known with isName | seen
    · exact Or.inl isName
    · exact Or.inr (seen.mono grown)
  induction run with
  | tooDeep => exact explained
  | cached hit =>
      rw [checkCache_log hit]
      exact explained
  | notAsked miss _ _ log =>
      rw [log, checkCache_log miss]
      exact explained
  | forwarded miss ask =>
      rw [← checkCache_log miss] at known explained
      have asked := ask.namesExplained known explained
      rw [acceptForwarded]
      split
      · exact asked
      · exact asked
  | iterated miss _ inductionHypothesis =>
      rw [← checkCache_log miss] at known explained
      exact inductionHypothesis known explained
  | exhausted => exact explained
  | passedOver ask _ inductionHypothesis =>
      exact inductionHypothesis (still known ask.log_suffix)
        (ask.namesExplained known explained)
  | aliased ask usable answers target _ inductionHypothesis =>
      -- the alias is asked for because the reply just received shows it
      have seen := ask.aliasSeen usable answers target
      exact inductionHypothesis
        (Or.inr (seen.mono (List.suffix_cons _ _)))
        (ask.namesExplained known explained)
  | answered ask _ _ => exact ask.namesExplained known explained
  | referred ask _ _ _ inductionHypothesis =>
      exact inductionHypothesis
        (still known (ask.note_suffix _))
        (ask.namesExplained known explained)
  | referredInVain ask _ call _ _ below rest =>
      have between :=
        below (still known (ask.note_suffix _))
          (ask.namesExplained known explained)
      exact rest
        (still known ((ask.note_suffix _).trans call.log_suffix)) between
  | nameError ask _ _ => exact ask.namesExplained known explained

end DnsFirewall
