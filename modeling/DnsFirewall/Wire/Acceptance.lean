import DnsFirewall.Wire.LegalName

/-!
# Which names the decoder accepts

`loops++ > 20` is meant to stop compression loops, but it counts every pass,
and a pass takes one label.  So the number of labels decides alone whether an
uncompressed name is accepted; its octets and its room in the output never do.
-/

namespace DnsFirewall

open CString Cursor

/-- The loop runs out of passes on as many labels, whatever the output has
room for. -/
theorem readNameLoop_crowded
    (outLen : Nat) (labels : List Bytes) (loops : Nat)
    (before after out : Bytes) (jumped : Option Nat)
    (wire : ∀ label, label ∈ labels → WireLabel label)
    (crowded : loops ≤ labels.length) :
    readNameLoop (before ++ (encodeName labels ++ after)) outLen loops
        before.length out jumped =
      .error .reject := by
  induction labels generalizing loops before out with
  | nil =>
      obtain rfl : loops = 0 := Nat.le_zero.mp crowded
      rfl
  | cons label labels inductionHypothesis =>
      cases loops with
      | zero => rfl
      | succ loops =>
          rw [encodeName_cons, List.cons_append, List.append_assoc,
            readNameLoop_label (wire label List.mem_cons_self)]
          by_cases full : outLen ≤ out.length + label.length + 1
          · rw [if_pos full]
          · rw [if_neg full]
            apply inductionHypothesis
            · intro other member
              exact wire other (List.mem_cons_of_mem label member)
            · exact Nat.le_of_succ_le_succ crowded

/-- The loop fails on a text that the output has no room for. -/
theorem readNameLoop_full
    (outLen : Nat) (labels : List Bytes) (loops : Nat)
    (before after out : Bytes) (jumped : Option Nat)
    (wire : ∀ label, label ∈ labels → WireLabel label)
    (room : out.length < outLen)
    (full : outLen ≤ out.length + (nameText labels).length) :
    readNameLoop (before ++ (encodeName labels ++ after)) outLen loops
        before.length out jumped =
      .error .reject := by
  induction labels generalizing loops before out with
  | nil =>
      rw [nameText, List.length_nil] at full
      omega
  | cons label labels inductionHypothesis =>
      rw [nameText, List.length_append, List.length_cons] at full
      cases loops with
      | zero => rfl
      | succ loops =>
          rw [encodeName_cons, List.cons_append, List.append_assoc,
            readNameLoop_label (wire label List.mem_cons_self)]
          by_cases here : outLen ≤ out.length + label.length + 1
          · rw [if_pos here]
          · rw [if_neg here]
            have longer :
                (out ++ (label ++ [46])).length =
                  out.length + label.length + 1 := by
              simp only [List.length_append, List.length_singleton]
              omega
            apply inductionHypothesis
            · intro other member
              exact wire other (List.mem_cons_of_mem label member)
            · rw [longer]
              omega
            · rw [longer]
              omega

/-- A name of at most 20 labels is read to its root byte. -/
theorem readName_of_few
    (name : WireName) (few : name.labels.length ≤ 20)
    (before after : Bytes) :
    ∃ text,
      readName (before ++ (encodeName name.labels ++ after))
          dnsMaxNameLen before.length =
        .ok (text, before.length + (encodeName name.labels).length) := by
  have fits := name.fits
  cases spelled : name.labels with
  | nil =>
      refine ⟨[46], ?_⟩
      rw [readName, readNamePasses]
      simp only [encodeName, labelBytes, List.nil_append,
        List.singleton_append, List.length_singleton]
      rw [readNameLoop, nameStep_root]
      rfl
  | cons label labels =>
      have room :
          0 < (nameText (label :: labels)).length := by
        simp only [nameText, List.length_append, List.length_cons]
        omega
      rw [spelled] at fits few
      have wire :
          ∀ other, other ∈ label :: labels → WireLabel other := by
        intro other member
        exact name.wire other (by rw [spelled]; exact member)
      have read :=
        readNameLoop_encoded dnsMaxNameLen (label :: labels)
          readNamePasses before after [] wire
          (by unfold readNamePasses; omega)
          (by simp only [List.length_nil, dnsMaxNameLen]; omega)
          (by simpa using room)
      exact ⟨_, read⟩

/-- The decoder accepts an uncompressed name exactly when it has at most 20
labels. -/
theorem readName_accepts_iff
    (name : WireName) (before after : Bytes) :
    (∃ text next,
        readName (before ++ (encodeName name.labels ++ after))
            dnsMaxNameLen before.length =
          .ok (text, next)) ↔
      name.labels.length ≤ 20 := by
  constructor
  · intro accepted
    by_contra crowded
    have refused :
        readName (before ++ (encodeName name.labels ++ after))
            dnsMaxNameLen before.length =
          .error .reject :=
      readNameLoop_crowded dnsMaxNameLen name.labels readNamePasses before
        after [] none name.wire (by unfold readNamePasses; omega)
    obtain ⟨text, next, read⟩ := accepted
    rw [refused] at read
    cases read
  · intro few
    obtain ⟨text, read⟩ := readName_of_few name few before after
    exact ⟨text, _, read⟩

/-- The name of the reverse lookup of the IPv6 address `::`. -/
def reverseName : WireName where
  labels := List.replicate 32 [48] ++ [[105, 112, 54], [97, 114, 112, 97]]
  sizes := by
    intro label member
    simp only [List.mem_append, List.mem_replicate, List.mem_cons,
      List.not_mem_nil, or_false] at member
    rcases member with ⟨-, rfl⟩ | rfl | rfl
    · exact ⟨by decide, by decide⟩
    · exact ⟨by decide, by decide⟩
    · exact ⟨by decide, by decide⟩
  fits := by decide

theorem reverseName_refused :
    ¬ ∀ (name : WireName) (before after : Bytes),
      ∃ text next,
        readName (before ++ (encodeName name.labels ++ after))
            dnsMaxNameLen before.length =
          .ok (text, next) := by
  intro accepts
  obtain ⟨text, next, read⟩ := accepts reverseName [] []
  have refused :
      readName ([] ++ (encodeName reverseName.labels ++ []))
          dnsMaxNameLen 0 =
        .error .reject := by
    rfl
  rw [List.length_nil, refused] at read
  cases read

end DnsFirewall
