import DnsFirewall.Dnssec.Model
import DnsFirewall.Wire.LegalName

/-!
# Canonical names

A signature covers names in lower case.  The validator rebuilds such a name
from its text, where a dot ends a label and a NUL ends the name, so it finds
the labels again that have neither.
-/

namespace DnsFirewall

open CString

/-- The labels of a name in lower case. -/
def lowerLabels (labels : List Bytes) : List Bytes :=
  labels.map fun label => label.map toLower

/-! ## Lower case -/

theorem plainLabels_lower (labels : List Bytes) :
    PlainLabels (lowerLabels labels) ↔ PlainLabels labels := by
  constructor
  · intro plain label member character inLabel
    have lowered :=
      plain (label.map toLower) (List.mem_map_of_mem member)
        (toLower character) (List.mem_map_of_mem inLabel)
    rw [Ne, Ne, toLower_eq_iff (by decide), toLower_eq_iff (by decide)]
      at lowered
    exact lowered
  · intro plain label member character inLabel
    obtain ⟨original, inLabels, rfl⟩ := List.mem_map.mp member
    obtain ⟨letter, inOriginal, rfl⟩ := List.mem_map.mp inLabel
    rw [Ne, Ne, toLower_eq_iff (by decide), toLower_eq_iff (by decide)]
    exact plain original inLabels letter inOriginal

theorem nameText_lower (labels : List Bytes) :
    nameText (lowerLabels labels) = (nameText labels).map toLower := by
  induction labels with
  | nil => rfl
  | cons label labels inductionHypothesis =>
      have tail :
          lowerLabels (label :: labels) =
            label.map toLower :: lowerLabels labels :=
        rfl
      rw [tail, nameText, nameText, inductionHypothesis, List.map_append,
        List.map_cons]
      rfl

namespace WireName

/-- The text the reader gives for the name. -/
def text (name : WireName) : Bytes :=
  if name.labels = [] then [46] else nameText name.labels

def encode (name : WireName) : Bytes :=
  encodeName name.labels

/-- The name in canonical form. -/
def lower (name : WireName) : WireName where
  labels := lowerLabels name.labels
  sizes := by
    intro label member
    obtain ⟨original, inLabels, rfl⟩ := List.mem_map.mp member
    rw [List.length_map]
    exact name.sizes original inLabels
  fits := by
    rw [nameText_lower, List.length_map]
    exact name.fits

theorem lower_encode (name : WireName) :
    name.lower.encode = encodeName (lowerLabels name.labels) :=
  rfl

theorem lower_encode_length (name : WireName) :
    name.lower.encode.length = name.encode.length := by
  rw [lower_encode, encode, encodeName_length, encodeName_length,
    nameText_lower, List.length_map]

theorem encode_length_le (name : WireName) : name.encode.length ≤ 255 := by
  rw [encode, encodeName_length]
  exact Nat.succ_le_succ name.fits

theorem text_length_le (name : WireName) :
    name.text.length ≤ name.encode.length := by
  rw [encode, encodeName_length, text]
  split
  · rw [List.length_singleton]
    omega
  · omega

theorem text_noNul {name : WireName} (plain : PlainLabels name.labels) :
    ∀ character, character ∈ name.text → character ≠ 0 := by
  rw [text]
  split
  · intro character member
    rw [List.mem_singleton.mp member]
    decide
  · apply nameText_noNul
    intro label member
    obtain ⟨nonempty, short⟩ := name.sizes label member
    exact
      ⟨nonempty, short,
        fun character inLabel => (plain label member character inLabel).1,
        fun character inLabel => (plain label member character inLabel).2⟩

end WireName

/-! ## An encoding has one list of labels -/

/-- The length byte of every label tells it apart from the root. -/
def SizedLabels (labels : List Bytes) : Prop :=
  ∀ label, label ∈ labels → 0 < label.length ∧ label.length < 256

theorem SizedLabels.tail
    {label : Bytes} {labels : List Bytes}
    (sized : SizedLabels (label :: labels)) :
    SizedLabels labels :=
  fun other member => sized other (List.mem_cons_of_mem label member)

theorem SizedLabels.head_toNat
    {label : Bytes} {labels : List Bytes}
    (sized : SizedLabels (label :: labels)) :
    label.length.toUInt8.toNat = label.length := by
  have bound := (sized label List.mem_cons_self).2
  simp [Nat.mod_eq_of_lt bound]

theorem WireName.sized (name : WireName) : SizedLabels name.labels := by
  intro label member
  obtain ⟨nonempty, short⟩ := name.sizes label member
  exact ⟨nonempty, Nat.lt_of_le_of_lt short (by decide)⟩

theorem encodeName_cons_ne_nil
    {label : Bytes} {labels : List Bytes}
    (sized : SizedLabels (label :: labels)) :
    encodeName (label :: labels) ≠ encodeName [] := by
  intro same
  have nonempty := (sized label List.mem_cons_self).1
  have lengthByte := sized.head_toNat
  rw [encodeName_cons] at same
  have root : label.length.toUInt8 = 0 := (List.cons.inj same).1
  rw [root] at lengthByte
  have zero : (0 : UInt8).toNat = 0 := rfl
  omega

theorem encodeName_injective
    {left right : List Bytes}
    (leftSized : SizedLabels left) (rightSized : SizedLabels right)
    (same : encodeName left = encodeName right) :
    left = right := by
  induction left generalizing right with
  | nil =>
      cases right with
      | nil => rfl
      | cons other others =>
          exact absurd same.symm (encodeName_cons_ne_nil rightSized)
  | cons label labels inductionHypothesis =>
      cases right with
      | nil => exact absurd same (encodeName_cons_ne_nil leftSized)
      | cons other others =>
          rw [encodeName_cons, encodeName_cons] at same
          obtain ⟨sameByte, behind⟩ := List.cons.inj same
          have sameLength : label.length = other.length := by
            have asNat := congrArg UInt8.toNat sameByte
            rwa [leftSized.head_toNat, rightSized.head_toNat] at asNat
          obtain ⟨sameLabel, sameRest⟩ := List.append_inj behind sameLength
          have sameTail :=
            inductionHypothesis leftSized.tail rightSized.tail sameRest
          rw [sameLabel, sameTail]

/-! ## The validator's own encoding -/

/-- The labels that the loop finds in a text. -/
structure PiecesOf (name : Bytes) (pieces : List Bytes) : Prop where
  plain : PlainLabels pieces
  nonempty : ∀ piece, piece ∈ pieces → 0 < piece.length
  inside : ∀ piece, piece ∈ pieces → piece.length ≤ name.length
  short : (labelBytes pieces).length ≤ 2 * name.length

theorem PiecesOf.none (name : Bytes) : PiecesOf name [] := by
  refine ⟨?_, ?_, ?_, Nat.zero_le _⟩
  all_goals
    intro piece member
    cases member

theorem PiecesOf.longer
    {name rest : Bytes} {pieces : List Bytes} (found : PiecesOf rest pieces)
    (shorter : rest.length ≤ name.length) :
    PiecesOf name pieces := by
  refine ⟨found.plain, found.nonempty, ?_, ?_⟩
  · intro piece member
    exact Nat.le_trans (found.inside piece member) shorter
  · have short := found.short
    omega

theorem PiecesOf.cons
    {name label rest : Bytes} {pieces : List Bytes}
    (found : PiecesOf rest pieces) (nonempty : 0 < label.length)
    (plain : ∀ character, character ∈ label →
      character ≠ 46 ∧ character ≠ 0)
    (consumed : label.length + rest.length ≤ name.length) :
    PiecesOf name (label :: pieces) := by
  refine ⟨?_, ?_, ?_, ?_⟩
  · intro piece member
    rcases List.mem_cons.mp member with rfl | member
    · exact plain
    · exact found.plain piece member
  · intro piece member
    rcases List.mem_cons.mp member with rfl | member
    · exact nonempty
    · exact found.nonempty piece member
  · intro piece member
    rcases List.mem_cons.mp member with rfl | member
    · omega
    · have bound := found.inside piece member
      omega
  · have short := found.short
    rw [labelBytes, List.length_cons, List.length_append]
    omega

section Label

variable {name label rest : Bytes}
variable (labelIs : name.takeWhile (· ≠ 46) = label)

include labelIs

/-- A label has no dot, and no NUL where the text has none. -/
theorem label_plain
    (noNul : ∀ character, character ∈ name → character ≠ 0) :
    ∀ character, character ∈ label → character ≠ 46 ∧ character ≠ 0 := by
  intro character member
  rw [← labelIs] at member
  have notDot := List.mem_takeWhile_imp member
  have inName := (List.takeWhile_prefix _).subset member
  exact ⟨of_decide_eq_true notDot, noNul character inName⟩

/-- The text behind a label and its dot. -/
theorem rest_of_label
    (restIs :
      (if (name.drop label.length).head? = some 46 then
          (name.drop label.length).tail
        else
          name.drop label.length) = rest) :
    rest ⊆ name ∧ label.length + rest.length ≤ name.length := by
  have atMost : label.length ≤ name.length := by
    rw [← labelIs]
    exact (List.takeWhile_prefix _).length_le
  have suffix : rest <:+ name.drop label.length := by
    rw [← restIs]
    split
    · exact List.tail_suffix _
    · exact List.suffix_refl _
  have bound := suffix.length_le
  rw [List.length_drop] at bound
  refine ⟨?_, by omega⟩
  intro character member
  exact List.mem_of_mem_drop (suffix.subset member)

end Label

/-- Whatever the text, the loop writes labels that are plain. -/
theorem nameToWireLabels_pieces
    (fuel : Nat) (name : Bytes)
    (noNul : ∀ character, character ∈ name → character ≠ 0) :
    ∃ pieces, PiecesOf name pieces ∧
      nameToWireLabels fuel name = labelBytes (lowerLabels pieces) := by
  induction fuel generalizing name with
  | zero => exact ⟨[], PiecesOf.none name, rfl⟩
  | succ fuel inductionHypothesis =>
      rw [nameToWireLabels]
      by_cases done : name = []
      · rw [if_pos done]
        exact ⟨[], PiecesOf.none name, rfl⟩
      rw [if_neg done]
      generalize labelIs : name.takeWhile (· ≠ 46) = label
      by_cases empty : label = []
      · -- an empty label: the dot is skipped
        have tailNoNul :
            ∀ character, character ∈ name.tail → character ≠ 0 :=
          fun character member =>
            noNul character (List.mem_of_mem_tail member)
        obtain ⟨pieces, found, written⟩ :=
          inductionHypothesis name.tail tailNoNul
        have shorter : name.tail.length ≤ name.length := by
          rw [List.length_tail]
          omega
        refine ⟨pieces, found.longer shorter, ?_⟩
        simp only [if_pos empty]
        exact written
      · simp only [if_neg empty]
        generalize restIs :
          (if (name.drop label.length).head? = some 46 then
              (name.drop label.length).tail
            else
              name.drop label.length) = rest
        obtain ⟨inName, consumed⟩ := rest_of_label labelIs restIs
        obtain ⟨pieces, found, written⟩ :=
          inductionHypothesis rest fun character member =>
            noNul character (inName member)
        refine
          ⟨label :: pieces,
            found.cons (List.length_pos_iff.mpr empty)
              (label_plain labelIs noNul) consumed,
            ?_⟩
        rw [written]
        simp only [lowerLabels, List.map_cons, labelBytes, List.length_map]

theorem nameToWire_pieces (name : Bytes) :
    ∃ pieces, PiecesOf name pieces ∧
      nameToWire name = encodeName (lowerLabels pieces) := by
  obtain ⟨pieces, found, written⟩ :=
    nameToWireLabels_pieces (content name).length (content name)
      fun _ => ne_zero_of_mem_content
  refine ⟨pieces, found.longer (content_length_le name), ?_⟩
  rw [nameToWire, encodeName]
  exact congrArg (· ++ [0]) written

theorem labelBytes_lower_length (labels : List Bytes) :
    (labelBytes (lowerLabels labels)).length = (labelBytes labels).length := by
  induction labels with
  | nil => rfl
  | cons label labels inductionHypothesis =>
      simp only [lowerLabels] at inductionHypothesis
      simp only [lowerLabels, List.map_cons, labelBytes, List.length_cons,
        List.length_append, List.length_map, inductionHypothesis]

theorem nameToWire_length_le (name : Bytes) :
    (nameToWire name).length ≤ 2 * name.length + 1 := by
  obtain ⟨pieces, found, written⟩ := nameToWire_pieces name
  have short := found.short
  rw [written, encodeName, List.length_append, labelBytes_lower_length,
    List.length_singleton]
  omega

/-- One pass of the loop on a text that starts with a plain label. -/
theorem nameToWireLabels_cons
    {label : Bytes} (nonempty : 0 < label.length)
    (noDot : ∀ character, character ∈ label → character ≠ 46)
    (fuel : Nat) (rest : Bytes) :
    nameToWireLabels (fuel + 1) (label ++ 46 :: rest) =
      label.length.toUInt8 ::
        (label.map toLower ++ nameToWireLabels fuel rest) := by
  have started : label ++ 46 :: rest ≠ [] := by simp
  have behind : (label ++ 46 :: rest).drop label.length = 46 :: rest :=
    List.drop_left' rfl
  rw [nameToWireLabels, if_neg started]
  simp only [takeWhile_label noDot, behind, List.head?_cons, List.tail_cons,
    if_true]
  rw [if_neg (List.length_pos_iff.mp nonempty)]

theorem nameToWireLabels_nameText
    (labels : List Bytes) (fuel : Nat) (plain : PlainLabels labels)
    (sized : SizedLabels labels) (enough : (nameText labels).length ≤ fuel) :
    nameToWireLabels fuel (nameText labels) =
      labelBytes (lowerLabels labels) := by
  induction labels generalizing fuel with
  | nil =>
      cases fuel with
      | zero => rfl
      | succ fuel => rfl
  | cons label labels inductionHypothesis =>
      have nonempty := (sized label List.mem_cons_self).1
      rw [nameText, List.length_append, List.length_cons] at enough
      obtain ⟨fuel, rfl⟩ : ∃ left, fuel = left + 1 :=
        ⟨fuel - 1, by omega⟩
      have tail :=
        inductionHypothesis fuel
          (fun other member => plain other (List.mem_cons_of_mem _ member))
          sized.tail (by omega)
      rw [nameText,
        nameToWireLabels_cons nonempty
          (fun character member =>
            (plain label List.mem_cons_self character member).1),
        tail]
      simp only [lowerLabels, List.map_cons, labelBytes, List.length_map]

/-- The validator rebuilds the canonical form of a plain name. -/
theorem nameToWire_plain
    {name : WireName} (plain : PlainLabels name.labels) :
    nameToWire name.text = name.lower.encode := by
  rw [nameToWire, content_eq_self (name.text_noNul plain), WireName.text]
  by_cases root : name.labels = []
  · rw [if_pos root, WireName.lower_encode, root]
    rfl
  · rw [if_neg root]
    exact
      congrArg (· ++ [0])
        (nameToWireLabels_nameText name.labels _ plain name.sized
          (Nat.le_refl _))

/-- Only a plain name is rebuilt from any text of at most 255 characters. -/
theorem plain_of_nameToWire
    {text : Bytes} {name : WireName} (short : text.length ≤ 255)
    (rebuilt : nameToWire text = name.lower.encode) :
    PlainLabels name.labels := by
  obtain ⟨pieces, found, written⟩ := nameToWire_pieces text
  have piecesSized : SizedLabels (lowerLabels pieces) := by
    intro piece member
    obtain ⟨original, inPieces, rfl⟩ := List.mem_map.mp member
    have nonempty := found.nonempty original inPieces
    have inside := found.inside original inPieces
    rw [List.length_map]
    omega
  have sameLabels : lowerLabels pieces = lowerLabels name.labels :=
    encodeName_injective piecesSized name.lower.sized
      (written.symm.trans rebuilt)
  rw [← plainLabels_lower, ← sameLabels, plainLabels_lower]
  exact found.plain

end DnsFirewall
