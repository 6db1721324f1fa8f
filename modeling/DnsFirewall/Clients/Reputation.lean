import DnsFirewall.Foundations.ChainedTable
import DnsFirewall.Foundations.CString

/-!
# Reputation

The table of `reputation.c` that counts the blocked queries for each domain.
Allocation is taken to succeed.
-/

namespace DnsFirewall

open CString

def repHashSize : Nat := 256

/-- `rep_entry_t` without its chain pointer. -/
structure RepEntry where
  domain : Bytes
  score : Int
  lastUpdate : Int
deriving DecidableEq, Repr

/-- `rep_ctx_t`. -/
structure Reputation where
  buckets : Fin repHashSize → List RepEntry
  lastDecay : Int

def repInit (now : Int) : Reputation :=
  ⟨fun _ => [], now⟩

namespace Reputation

def hashDomain (d : Bytes) : Fin repHashSize :=
  Fin.ofNat 256 (djb2 d).toNat

def entryOf (ctx : Reputation) (domain : Bytes) : Option RepEntry :=
  ChainedTable.find RepEntry.domain hashDomain ctx.buckets domain

end Reputation

/-- The entry of the domain after a block: the one that was found with its
score raised, or a new one. -/
def countBlock (found : Option RepEntry) (domain : Bytes) (now : Int) :
    RepEntry :=
  match found with
  | some e => { e with score := e.score + 1, lastUpdate := now }
  | none => ⟨domain, 1, now⟩

def repRecordBlock (ctx : Reputation) (domain : Bytes) (now : Int) :
    Reputation :=
  let domain := content domain
  { ctx with
    buckets :=
      ChainedTable.put RepEntry.domain Reputation.hashDomain ctx.buckets
        (countBlock (ctx.entryOf domain) domain now) }

def decayInterval : Int := 60

/-- What the loop of `rep_decay` makes of an entry; `none` is its removal. -/
def decayEntry (now : Int) (e : RepEntry) : Option RepEntry :=
  if decayInterval ≤ now - e.lastUpdate then
    if e.score - 1 ≤ 0 then none
    else some { e with score := e.score - 1, lastUpdate := now }
  else
    some e

def repDecay (ctx : Reputation) (now : Int) : Reputation :=
  if now - ctx.lastDecay < decayInterval then
    ctx
  else
    { buckets := fun i => (ctx.buckets i).filterMap (decayEntry now)
      lastDecay := now }

/-- The entries in the order in which the exports visit them. -/
def Reputation.entries (ctx : Reputation) : List RepEntry :=
  ChainedTable.entries ctx.buckets

/-- The score of a domain, zero when it has no entry. -/
def Reputation.scoreOf (ctx : Reputation) (domain : Bytes) : Int :=
  match ctx.entryOf domain with
  | some e => e.score
  | none => 0

theorem countBlock_domain (ctx : Reputation) (domain : Bytes) (now : Int) :
    (countBlock (ctx.entryOf domain) domain now).domain = domain := by
  cases found : ctx.entryOf domain with
  | some e =>
      have isDomain : e.domain = domain :=
        ChainedTable.keyOf_of_findChain found
      exact isDomain
  | none => rfl

theorem entryOf_repRecordBlock_self
    (ctx : Reputation) (blocked : Bytes) (now : Int) :
    (repRecordBlock ctx blocked now).entryOf (content blocked) =
      some
        (countBlock (ctx.entryOf (content blocked)) (content blocked)
          now) := by
  have found :=
    ChainedTable.find_put_self RepEntry.domain Reputation.hashDomain
      ctx.buckets
      (countBlock (ctx.entryOf (content blocked)) (content blocked) now)
  rw [countBlock_domain] at found
  exact found

theorem entryOf_repRecordBlock_other
    (ctx : Reputation) {blocked domain : Bytes} (now : Int)
    (different : content blocked ≠ domain) :
    (repRecordBlock ctx blocked now).entryOf domain =
      ctx.entryOf domain := by
  have elsewhere :
      (countBlock (ctx.entryOf (content blocked)) (content blocked)
        now).domain ≠ domain := by
    rw [countBlock_domain]
    exact different
  exact
    ChainedTable.find_put_other RepEntry.domain Reputation.hashDomain
      ctx.buckets elsewhere

/-- A recorded block counts for its domain and for no other. -/
theorem scoreOf_repRecordBlock
    (ctx : Reputation) (blocked domain : Bytes) (now : Int) :
    (repRecordBlock ctx blocked now).scoreOf domain =
      ctx.scoreOf domain + if content blocked = domain then 1 else 0 := by
  unfold Reputation.scoreOf
  by_cases same : content blocked = domain
  · subst same
    rw [entryOf_repRecordBlock_self, if_pos rfl]
    cases ctx.entryOf (content blocked) with
    | some e => rfl
    | none => rfl
  · rw [entryOf_repRecordBlock_other ctx now same, if_neg same,
      Int.add_zero]

/-! ## Every reachable table -/

/-- A tracker that keeps each domain once, in its own chain, with a positive
score. -/
structure Reputation.Sound (ctx : Reputation) : Prop where
  placed :
    ChainedTable.Placed RepEntry.domain Reputation.hashDomain ctx.buckets
  positive : ∀ i e, e ∈ ctx.buckets i → 0 < e.score

theorem sound_repInit (now : Int) : (repInit now).Sound := by
  refine ⟨⟨?_, ?_⟩, ?_⟩
  · intro slot entry member
    cases member
  · intro slot
    exact List.nodup_nil
  · intro i e member
    cases member

theorem Reputation.Sound.repRecordBlock
    {ctx : Reputation} (sound : ctx.Sound) (domain : Bytes) (now : Int) :
    (repRecordBlock ctx domain now).Sound := by
  refine ⟨sound.placed.put _, ?_⟩
  intro i e member
  unfold DnsFirewall.repRecordBlock ChainedTable.put at member
  simp only at member
  by_cases here :
      i =
        Reputation.hashDomain
          (countBlock (ctx.entryOf (content domain)) (content domain)
            now).domain
  · rw [here, Function.update_self] at member
    rcases ChainedTable.mem_putChain member with same | old
    · rw [same]
      cases found : ctx.entryOf (content domain) with
      | none => exact Int.one_pos
      | some e =>
          have inChain : e ∈ ctx.buckets (Reputation.hashDomain _) :=
            List.mem_of_find?_eq_some found
          have counted := sound.positive _ e inChain
          simp only [countBlock]
          omega
    · exact sound.positive _ e old
  · rw [Function.update_of_ne here] at member
    exact sound.positive i e member

theorem decayEntry_domain
    {now : Int} {e after : RepEntry} (decayed : decayEntry now e = some after) :
    after.domain = e.domain := by
  unfold decayEntry at decayed
  split at decayed
  · split at decayed
    · cases decayed
    · cases decayed
      rfl
  · cases decayed
    rfl

theorem Reputation.Sound.repDecay
    {ctx : Reputation} (sound : ctx.Sound) (now : Int) :
    (repDecay ctx now).Sound := by
  rw [DnsFirewall.repDecay]
  split
  · exact sound
  · refine
      ⟨sound.placed.filterMap _ fun _ _ decayed => decayEntry_domain decayed,
        ?_⟩
    intro i e member
    obtain ⟨old, inChain, decayed⟩ := List.mem_filterMap.mp member
    have counted := sound.positive i old inChain
    unfold decayEntry at decayed
    split at decayed
    · split at decayed
      · cases decayed
      · cases decayed
        simp only
        omega
    · cases decayed
      exact counted

end DnsFirewall
