import DnsFirewall.Policy.Blacklist
import DnsFirewall.Policy.Flux
import DnsFirewall.Policy.Score

/-!
# The policy checks

`policy_check_preresolve` and `policy_check_post_resolve`.  Both checks of the
query read its first question; where there is none the result is `none`, since
the C function then reads outside its question array.  `memory` is the buffer
that the RDATA pointers of the response point into, and `clock` gives the
successive readings of the clock.
-/

namespace DnsFirewall

open CString

/-- The configuration of the policy engine. -/
structure PolicyCtx (F : Type) where
  /-- The lines that `blacklist_load_file` adds. -/
  blacklistLines : List Bytes
  scores : ScoreModel F
  fluxIpMax : Int

variable {F : Type}

def PolicyCtx.blacklist (ctx : PolicyCtx F) : Blacklist :=
  blacklistLoad ctx.blacklistLines

/-- `policy_check_preresolve` returns `POLICY_ACTION_BLOCK`. -/
def policyCheckPreresolve (ctx : PolicyCtx F) (domain : Bytes) : Bool :=
  aboveThreshold ctx.scores (domainBuffer domain)

def dnsTypeTxt : UInt16 := 16

/-- The record makes the loop of `tunnelling_score` return one. -/
def tunnellingRecord (arith : Arithmetic F) (memory : Bytes)
    (rr : DnsRr) : Bool :=
  if rr.type = dnsTypeTxt ∧ 0 < rr.rdlength then
    if 200 < rr.rdlength then
      true
    else
      let rdata := rr.rdataBytes memory
      let entropy :=
        entropyOf arith
          ((List.range 256).map fun j => rdata.count j.toUInt8)
          rr.rdlength.toNat
      arith.less (arith.decimal 6 0) entropy
  else
    false

def tunnellingScore (ctx : PolicyCtx F) (query response : DnsMessage)
    (memory : Bytes) : Option Bool :=
  match query.questions.head? with
  | none => none
  | some question =>
      let qname := content question.qname
      if 40 < qname.length ∧
          ctx.scores.arith.aboveDouble (dgaScoreDomain ctx.scores qname)
            6 1 = true then
        some true
      else
        some
          (response.answers.any
            (tunnellingRecord ctx.scores.arith memory))

/-- The address that `policy_check_post_resolve` reports for a record, if it
reports one. -/
def fluxAddress (memory : Bytes) (rr : DnsRr) : Option Bytes :=
  if (rr.type = dnsTypeA ∨ rr.type = dnsTypeAaaa) ∧ 0 < rr.rdlength then
    if rr.type = dnsTypeA ∧ rr.rdlength = 4 then
      some (rr.rdataBytes memory)
    else if rr.type = dnsTypeAaaa ∧ rr.rdlength = 16 then
      none
    else
      some [0, 0, 0, 0]
  else
    none

/-- The answer loop of `policy_check_post_resolve`: whether a record was
detected, and the flux table. -/
def fluxAnswers (fluxIpMax : Int) (memory : Bytes) (clock : Nat → Int) :
    Nat → List DnsRr → List FluxEntry → Bool × List FluxEntry
  | _, [], table => (false, table)
  | i, rr :: rest, table =>
      match fluxAddress memory rr with
      | none => fluxAnswers fluxIpMax memory clock (i + 1) rest table
      | some addr =>
          match fluxDetect fluxIpMax table rr.name addr (clock i) with
          | (true, table) => (true, table)
          | (false, table) =>
              fluxAnswers fluxIpMax memory clock (i + 1) rest table

/-- `policy_check_post_resolve`: whether it sets the action to
`POLICY_ACTION_BLOCK`, and the flux table it leaves. -/
def policyCheckPostResolve (ctx : PolicyCtx F)
    (query response : DnsMessage) (memory : Bytes) (clock : Nat → Int)
    (table : List FluxEntry) : Option (Bool × List FluxEntry) :=
  match query.questions.head? with
  | none => none
  | some question =>
      if aboveThreshold ctx.scores question.qname = true then
        some (true, table)
      else
        match fluxAnswers ctx.fluxIpMax memory clock 0 response.answers
          table with
        | (true, table) => some (true, table)
        | (false, table) =>
            match tunnellingScore ctx query response memory with
            | none => none
            | some suspected => some (suspected, table)

theorem exists_policyCheckPostResolve
    (ctx : PolicyCtx F) {query : DnsMessage} {question : DnsQuestion}
    (asked : query.questions.head? = some question)
    (response : DnsMessage) (memory : Bytes) (clock : Nat → Int)
    (table : List FluxEntry) :
    ∃ action after,
      policyCheckPostResolve ctx query response memory clock table =
        some (action, after) := by
  have scored :
      ∃ suspected,
        tunnellingScore ctx query response memory = some suspected := by
    rw [tunnellingScore]
    simp only [asked]
    split
    · exact ⟨true, rfl⟩
    · exact ⟨_, rfl⟩
  obtain ⟨suspected, score⟩ := scored
  rw [policyCheckPostResolve]
  simp only [asked, score]
  split
  · exact ⟨true, table, rfl⟩
  · split
    · exact ⟨true, _, rfl⟩
    · exact ⟨suspected, _, rfl⟩

end DnsFirewall
