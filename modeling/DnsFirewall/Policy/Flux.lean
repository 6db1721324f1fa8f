import DnsFirewall.Wire.Types

/-!
# The fast-flux tracker

The list of domains of `policy.c` with the addresses reported for each of them
in the last ten minutes.  Domains are compared with case.  Allocation is taken
to succeed.
-/

namespace DnsFirewall

open CString

def fluxWindowSec : Int := 600

/-- An element of `ips` with its element of `timestamps`. -/
structure FluxIp where
  sinAddr : Bytes
  timestamp : Int
deriving DecidableEq, Repr

/-- `flux_entry_t` without its list pointer. -/
structure FluxEntry where
  domain : Bytes
  ips : List FluxIp
deriving DecidableEq, Repr

/-- The first loop of `flux_add_ip`. -/
def fluxKeep (ips : List FluxIp) (now : Int) : List FluxIp :=
  ips.filter fun ip => now - ip.timestamp < fluxWindowSec

/-- The second loop of `flux_add_ip` and the append behind it. -/
def fluxTouch (sinAddr : Bytes) (now : Int) : List FluxIp → List FluxIp
  | [] => [⟨sinAddr, now⟩]
  | ip :: rest =>
      if ip.sinAddr = sinAddr then { ip with timestamp := now } :: rest
      else ip :: fluxTouch sinAddr now rest

def fluxAddIp (e : FluxEntry) (sinAddr : Bytes) (now : Int) : FluxEntry :=
  { e with ips := fluxTouch sinAddr now (fluxKeep e.ips now) }

/-- The entry that `flux_find` returns after the change, and the table with
it. -/
def fluxUpdate (domain sinAddr : Bytes) (now : Int) :
    List FluxEntry → Option (FluxEntry × List FluxEntry)
  | [] => none
  | e :: rest =>
      if e.domain = domain then
        let e := fluxAddIp e sinAddr now
        some (e, e :: rest)
      else
        match fluxUpdate domain sinAddr now rest with
        | none => none
        | some (found, rest) => some (found, e :: rest)

/-- `flux_detect`: whether it returns one, and the table it leaves. -/
def fluxDetect (fluxIpMax : Int) (table : List FluxEntry)
    (domain sinAddr : Bytes) (now : Int) : Bool × List FluxEntry :=
  let domain := content domain
  let (e, table) :=
    match fluxUpdate domain sinAddr now table with
    | some (e, table) => (e, table)
    | none =>
        let e := fluxAddIp ⟨domain, []⟩ sinAddr now
        (e, e :: table)
  (decide (fluxIpMax < e.ips.length), table)

/-- The loop of `flux_cleanup`. -/
def fluxCleanup (now : Int) : List FluxEntry → List FluxEntry
  | [] => []
  | curr :: rest =>
      let ips := fluxKeep curr.ips now
      if ips.length = 0 then fluxCleanup now rest
      else { curr with ips := ips } :: fluxCleanup now rest

/-- The table with the field of `policy_ctx_t` that says when it was last
cleaned. -/
structure FluxState where
  table : List FluxEntry
  lastHousekeeping : Int

/-- `flux_cleanup` reads the clock again. -/
def policyHousekeeping (state : FluxState) (now cleanupTime : Int) :
    FluxState :=
  if 60 < now - state.lastHousekeeping then
    ⟨fluxCleanup cleanupTime state.table, now⟩
  else
    state

/-- What a report leaves of an address is its latest timestamp. -/
theorem mem_fluxTouch_iff
    {sinAddr : Bytes} {now : Int} {ips : List FluxIp} {ip : FluxIp}
    (distinct : (ips.map FluxIp.sinAddr).Nodup) :
    ip ∈ fluxTouch sinAddr now ips ↔
      ip = ⟨sinAddr, now⟩ ∨ ip ∈ ips ∧ ip.sinAddr ≠ sinAddr := by
  induction ips with
  | nil => simp [fluxTouch]
  | cons head tail inductionHypothesis =>
      rw [List.map_cons, List.nodup_cons] at distinct
      rw [fluxTouch]
      by_cases here : head.sinAddr = sinAddr
      · subst here
        have elsewhere :
            ∀ other, other ∈ tail → other.sinAddr ≠ head.sinAddr := by
          intro other member same
          exact distinct.1 (List.mem_map.mpr ⟨other, member, same⟩)
        simp only [if_pos, List.mem_cons]
        constructor
        · intro given
          rcases given with rfl | member
          · exact Or.inl rfl
          · exact Or.inr ⟨Or.inr member, elsewhere ip member⟩
        · intro given
          rcases given with rfl | ⟨rfl | member, different⟩
          · exact Or.inl rfl
          · exact absurd rfl different
          · exact Or.inr member
      · rw [if_neg here, List.mem_cons, inductionHypothesis distinct.2,
          List.mem_cons]
        constructor
        · intro given
          rcases given with rfl | rfl | ⟨member, different⟩
          · exact Or.inr ⟨Or.inl rfl, here⟩
          · exact Or.inl rfl
          · exact Or.inr ⟨Or.inr member, different⟩
        · intro given
          rcases given with rfl | ⟨rfl | member, different⟩
          · exact Or.inr (Or.inl rfl)
          · exact Or.inl rfl
          · exact Or.inr (Or.inr ⟨member, different⟩)

end DnsFirewall
