import Wsarb.Library.ByteSlices

/-!
Owns how a client's unparsable request is cut before it is logged: walking back from byte 200 to
the nearest character boundary. A slice inside a character panics; `none` stands for the panic.
-/

namespace Wsarb

open Wsarb.Library

/-- How many bytes of a request are logged. -/
def truncateMax : Nat := 200

/-- `is_char_boundary`: the text ends at the byte, or a character starts there. -/
def isCharBoundary (text : String) (n : Nat) : Bool := String.Pos.Raw.isValid text ⟨n⟩

/-- The loop: one byte back at a time until a character boundary, or the start. -/
def walkBack (text : String) : Nat → Nat
  | 0 => 0
  | stop + 1 => if !isCharBoundary text (stop + 1) then walkBack text stop else stop + 1

/-- A text of at most so many bytes as it is, and a longer one cut and marked with an ellipsis. -/
def truncate (text : String) : Option String :=
  if text.utf8ByteSize ≤ truncateMax then some text
  else
    (takeBytes text.toList (walkBack text truncateMax)).map fun front =>
      String.ofList front ++ "…"

theorem isCharBoundary_iff {text : String} {n : Nat} :
    isCharBoundary text n = true ↔ Boundary text.toList n := by
  rw [isCharBoundary, String.Pos.Raw.isValid_eq_true_iff, String.Pos.Raw.isValid_iff_exists_append]
  constructor
  · rintro ⟨front, back, rfl, size⟩
    refine ⟨front.toList, back.toList, String.toList_append, ?_⟩
    rw [← utf8ByteSize_eq_width]
    exact (congrArg String.Pos.Raw.byteIdx size).symm
  · rintro ⟨front, back, split, size⟩
    refine ⟨String.ofList front, String.ofList back, ?_, ?_⟩
    · rw [← String.ofList_append, ← split, String.ofList_toList]
    · apply String.Pos.Raw.ext
      show n = (String.ofList front).utf8ByteSize
      rw [utf8ByteSize_eq_width, String.toList_ofList, size]

/-- The loop stops at a boundary, and at the last one on its way. -/
theorem walkBack_greatest (text : String) (n : Nat) :
    Boundary text.toList (walkBack text n) ∧ walkBack text n ≤ n ∧
      ∀ m ≤ n, Boundary text.toList m → m ≤ walkBack text n := by
  induction n with
  | zero => exact ⟨⟨[], text.toList, rfl, rfl⟩, Nat.le_refl 0, fun m below _ => below⟩
  | succ n inductionHypothesis =>
      obtain ⟨lands, within, greatest⟩ := inductionHypothesis
      cases here : isCharBoundary text (n + 1) with
      | true =>
          have stays : walkBack text (n + 1) = n + 1 := by simp [walkBack, here]
          rw [stays]
          exact ⟨isCharBoundary_iff.mp here, Nat.le_refl _, fun m below _ => below⟩
      | false =>
          have steps : walkBack text (n + 1) = walkBack text n := by simp [walkBack, here]
          rw [steps]
          refine ⟨lands, Nat.le_succ_of_le within, fun m below boundary => ?_⟩
          rcases Nat.lt_or_eq_of_le below with less | rfl
          · exact greatest m (Nat.le_of_lt_succ less) boundary
          · rw [← isCharBoundary_iff, here] at boundary
            cases boundary

/-- Of two prefixes the narrower one is a prefix of the other. -/
theorem prefix_of_width_le {first second chars : List Char} (one : first <+: chars)
    (other : second <+: chars) (narrower : width first ≤ width second) : first <+: second := by
  rcases List.prefix_or_prefix_of_prefix one other with shorter | ⟨more, rfl⟩
  · exact shorter
  · rw [width_append] at narrower
    cases more with
    | nil => simp
    | cons c rest =>
        have wide := c.utf8Size_pos
        rw [width_cons] at narrower
        omega

/-- Cutting never panics. A text of at most 200 bytes is shown as it is; of a longer one, the
longest prefix of whole characters that takes at most 200 bytes, and an ellipsis. -/
theorem truncate_longest (text : String) :
    ∃ shown, truncate text = some shown ∧
      (text.utf8ByteSize ≤ truncateMax → shown = text) ∧
      (truncateMax < text.utf8ByteSize →
        ∃ front, front <+: text.toList ∧ width front ≤ truncateMax ∧
          (∀ other, other <+: text.toList → width other ≤ truncateMax → other <+: front) ∧
          shown = String.ofList front ++ "…") := by
  by_cases short : text.utf8ByteSize ≤ truncateMax
  · refine ⟨text, if_pos short, fun _ => rfl, fun long => ?_⟩
    exact absurd short (Nat.not_le.mpr long)
  · obtain ⟨⟨front, back, split, size⟩, within, greatest⟩ := walkBack_greatest text truncateMax
    have sliced : takeBytes text.toList (walkBack text truncateMax) = some front := by
      rw [split, ← size, takeBytes_append]
    refine ⟨String.ofList front ++ "…", ?_, fun fits => absurd fits short, fun _ => ?_⟩
    · rw [truncate, if_neg short, sliced, Option.map_some]
    · refine ⟨front, ⟨back, split.symm⟩, size ▸ within, fun other starts fits => ?_, rfl⟩
      obtain ⟨rest, whole⟩ := starts
      have below := greatest (width other) fits ⟨other, rest, whole.symm, rfl⟩
      exact prefix_of_width_le ⟨rest, whole⟩ ⟨back, split.symm⟩ (size ▸ below)

end Wsarb
