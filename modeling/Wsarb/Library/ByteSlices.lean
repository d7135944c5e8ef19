import Mathlib.Algebra.Ring.Nat
import Mathlib.Data.List.Basic

/-!
Owns slicing a text at byte positions: the width of some characters in UTF-8, the slices up to
and from a byte, which exist exactly at character boundaries, and that a change of characters
which keeps their widths keeps the boundaries.
-/

namespace Wsarb.Library

def width (chars : List Char) : Nat := (chars.map Char.utf8Size).sum

/-- The first `n` bytes, if they are whole characters. -/
def takeBytes : List Char → Nat → Option (List Char)
  | _, 0 => some []
  | [], _ + 1 => none
  | c :: rest, n + 1 =>
      if c.utf8Size ≤ n + 1 then (takeBytes rest (n + 1 - c.utf8Size)).map (c :: ·) else none

/-- Everything from byte `n` on, if a character starts or the text ends there. -/
def dropBytes : List Char → Nat → Option (List Char)
  | chars, 0 => some chars
  | [], _ + 1 => none
  | c :: rest, n + 1 =>
      if c.utf8Size ≤ n + 1 then dropBytes rest (n + 1 - c.utf8Size) else none

/-- Byte `n` is within the text and between two characters. -/
def Boundary (chars : List Char) (n : Nat) : Prop :=
  ∃ front back, chars = front ++ back ∧ width front = n

@[simp] theorem width_nil : width [] = 0 := rfl

@[simp] theorem width_cons (c : Char) (rest : List Char) :
    width (c :: rest) = c.utf8Size + width rest := by
  rw [width, List.map_cons, List.sum_cons]
  rfl

@[simp] theorem width_append (front back : List Char) :
    width (front ++ back) = width front + width back := by
  rw [width, List.map_append, List.sum_append]
  rfl

/-- A string's length in bytes is the width of its characters. -/
theorem utf8ByteSize_eq_width (text : String) : text.utf8ByteSize = width text.toList := by
  have ofList : ∀ chars, (String.ofList chars).utf8ByteSize = width chars := by
    intro chars
    induction chars with
    | nil => rfl
    | cons c rest inductionHypothesis =>
        rw [String.ofList_cons, String.utf8ByteSize_append, String.utf8ByteSize_singleton,
          inductionHypothesis, width_cons]
  rw [← ofList, String.ofList_toList]

/-- A character in front takes its width off the position of every slice behind it. -/
theorem takeBytes_cons (c : Char) (rest : List Char) (n : Nat) :
    takeBytes (c :: rest) (c.utf8Size + n) = (takeBytes rest n).map (c :: ·) := by
  obtain ⟨pred, size⟩ := Nat.exists_eq_succ_of_ne_zero (Nat.pos_iff_ne_zero.mp c.utf8Size_pos)
  have shape : c.utf8Size + n = pred + n + 1 := by omega
  rw [shape, takeBytes, if_pos (by omega), ← shape, Nat.add_sub_cancel_left]

theorem dropBytes_cons (c : Char) (rest : List Char) (n : Nat) :
    dropBytes (c :: rest) (c.utf8Size + n) = dropBytes rest n := by
  obtain ⟨pred, size⟩ := Nat.exists_eq_succ_of_ne_zero (Nat.pos_iff_ne_zero.mp c.utf8Size_pos)
  have shape : c.utf8Size + n = pred + n + 1 := by omega
  rw [shape, dropBytes, if_pos (by omega), ← shape, Nat.add_sub_cancel_left]

theorem takeBytes_append (front back : List Char) :
    takeBytes (front ++ back) (width front) = some front := by
  induction front with
  | nil => cases back <;> rfl
  | cons c rest inductionHypothesis =>
      rw [List.cons_append, width_cons, takeBytes_cons, inductionHypothesis, Option.map_some]

theorem dropBytes_append (front back : List Char) :
    dropBytes (front ++ back) (width front) = some back := by
  induction front with
  | nil => cases back <;> rfl
  | cons c rest inductionHypothesis =>
      rw [List.cons_append, width_cons, dropBytes_cons, inductionHypothesis]

/-- A slice up to a byte is the characters in front of it. -/
theorem takeBytes_eq_some {chars front : List Char} {n : Nat}
    (slice : takeBytes chars n = some front) :
    ∃ back, chars = front ++ back ∧ width front = n := by
  induction chars, n using takeBytes.induct generalizing front with
  | case1 chars =>
      obtain rfl : [] = front := by cases chars <;> exact Option.some.inj slice
      exact ⟨chars, rfl, rfl⟩
  | case2 n => cases slice
  | case3 c rest n fits inductionHypothesis =>
      rw [takeBytes, if_pos fits] at slice
      obtain ⟨front, shorter, rfl⟩ := Option.map_eq_some_iff.mp slice
      obtain ⟨back, rfl, size⟩ := inductionHypothesis shorter
      refine ⟨back, rfl, ?_⟩
      rw [width_cons, size]
      omega
  | case4 c rest n wide =>
      rw [takeBytes, if_neg wide] at slice
      cases slice

/-- A slice from a byte is the characters behind it. -/
theorem dropBytes_eq_some {chars back : List Char} {n : Nat}
    (slice : dropBytes chars n = some back) :
    ∃ front, chars = front ++ back ∧ width front = n := by
  induction chars, n using dropBytes.induct with
  | case1 chars =>
      obtain rfl : chars = back := by cases chars <;> exact Option.some.inj slice
      exact ⟨[], rfl, rfl⟩
  | case2 n => cases slice
  | case3 c rest n fits inductionHypothesis =>
      rw [dropBytes, if_pos fits] at slice
      obtain ⟨front, rfl, size⟩ := inductionHypothesis slice
      refine ⟨c :: front, rfl, ?_⟩
      rw [width_cons, size]
      omega
  | case4 c rest n wide =>
      rw [dropBytes, if_neg wide] at slice
      cases slice

theorem takeBytes_isSome_iff {chars : List Char} {n : Nat} :
    (takeBytes chars n).isSome ↔ Boundary chars n := by
  constructor
  · intro sliced
    obtain ⟨front, slice⟩ := Option.isSome_iff_exists.mp sliced
    obtain ⟨back, split, size⟩ := takeBytes_eq_some slice
    exact ⟨front, back, split, size⟩
  · rintro ⟨front, back, rfl, rfl⟩
    rw [takeBytes_append]
    rfl

theorem dropBytes_isSome_iff {chars : List Char} {n : Nat} :
    (dropBytes chars n).isSome ↔ Boundary chars n := by
  constructor
  · intro sliced
    obtain ⟨back, slice⟩ := Option.isSome_iff_exists.mp sliced
    obtain ⟨front, split, size⟩ := dropBytes_eq_some slice
    exact ⟨front, back, split, size⟩
  · rintro ⟨front, back, rfl, rfl⟩
    rw [dropBytes_append]
    rfl

/-- Counted from the end, a boundary has whole characters behind it. -/
theorem boundary_sub_iff {chars : List Char} {n : Nat} (within : n ≤ width chars) :
    Boundary chars (width chars - n) ↔ ∃ front back, chars = front ++ back ∧ width back = n := by
  constructor
  · rintro ⟨front, back, rfl, size⟩
    rw [width_append] at size within
    exact ⟨front, back, rfl, by omega⟩
  · rintro ⟨front, back, rfl, rfl⟩
    exact ⟨front, back, rfl, by rw [width_append, Nat.add_sub_cancel]⟩

section Widths

variable {f : Char → Char} (keeps : ∀ c, (f c).utf8Size = c.utf8Size)
include keeps

theorem width_map (chars : List Char) : width (chars.map f) = width chars := by
  induction chars with
  | nil => rfl
  | cons c rest inductionHypothesis =>
      rw [List.map_cons, width_cons, width_cons, keeps, inductionHypothesis]

/-- A change of characters that keeps their widths keeps the boundaries. -/
theorem boundary_map {chars : List Char} {n : Nat} :
    Boundary (chars.map f) n ↔ Boundary chars n := by
  constructor
  · rintro ⟨front, back, split, size⟩
    obtain ⟨first, second, rfl, rfl, rfl⟩ := List.map_eq_append_iff.mp split
    exact ⟨first, second, rfl, by rw [← size, width_map keeps]⟩
  · rintro ⟨front, back, rfl, size⟩
    exact ⟨front.map f, back.map f, List.map_append, by rw [width_map keeps, size]⟩

end Widths

end Wsarb.Library
