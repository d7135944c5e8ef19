import Wsarb.Library.ByteSlices
import Wsarb.State.SubKey

/-!
Owns the label a key is shown and logged under, and exactly when it can be computed. An address
longer than ten bytes is cut at byte 6 and four bytes before its end, and a cut inside a
character panics; `none` stands for the panic.
-/

namespace Wsarb

open Wsarb.Library

namespace SubKey

/-- What a label shows of an address: all of a short one, both ends of a long one. -/
def shortUser (user : String) : Option String :=
  if 10 < user.utf8ByteSize then do
    let front ← takeBytes user.toList 6
    let back ← dropBytes user.toList (user.utf8ByteSize - 4)
    some (String.ofList front ++ "…" ++ String.ofList back)
  else some user

/-- A parameter of an aggregated book, if the key has it. -/
def parameter (name : String) : Option Nat → String
  | none => ""
  | some value => name ++ toString value

/-- Compact one-line label for the stats page and the log. -/
def label (key : SubKey) : Option String :=
  match key with
  | trades coin | l4Book coin | bbo coin | bookDiffs coin => some (key.channel ++ ":" ++ coin)
  | orderUpdates user => (shortUser user).map ("orderUpdates:" ++ ·)
  | l2Book coin nSigFigs nLevels mantissa | l2Diff coin nSigFigs nLevels mantissa =>
      some (key.channel ++ ":" ++ coin ++ parameter "/sf" (nSigFigs.map UInt32.toNat) ++
        parameter "/n" (nLevels.map UInt64.toNat) ++ parameter "/m" (mantissa.map UInt64.toNat))

/-- An address of more than ten bytes has whole characters in its first six bytes and in its
last four. -/
def Cuttable : SubKey → Prop
  | orderUpdates user =>
      10 < width user.toList →
        (∃ front rest, user.toList = front ++ rest ∧ width front = 6) ∧
          ∃ rest back, user.toList = rest ++ back ∧ width back = 4
  | _ => True

/-- The cuts of an address are at character boundaries exactly when its label exists. -/
theorem shortUser_isSome_iff (user : String) :
    (shortUser user).isSome ↔ (orderUpdates user).Cuttable := by
  rw [shortUser, utf8ByteSize_eq_width]
  by_cases long : 10 < width user.toList
  · have cuts : (∃ rest back, user.toList = rest ++ back ∧ width back = 4) ↔
        (dropBytes user.toList (width user.toList - 4)).isSome := by
      rw [dropBytes_isSome_iff, boundary_sub_iff (by omega)]
    have opens : (∃ front rest, user.toList = front ++ rest ∧ width front = 6) ↔
        (takeBytes user.toList 6).isSome := takeBytes_isSome_iff.symm
    simp only [Cuttable, long, if_true, forall_const, opens, cuts]
    cases takeBytes user.toList 6 <;>
      cases dropBytes user.toList (width user.toList - 4) <;> simp
  · simp [Cuttable, long]

theorem utf8Size_toLower (c : Char) : c.toLower.utf8Size = c.utf8Size := by
  by_cases upper : c.val ≥ 'A'.val ∧ c.val ≤ 'Z'.val
  · have before : c.utf8Size = 1 := Char.utf8Size_eq_one_iff.mpr (by grind)
    have after : c.toLower.utf8Size = 1 := by
      rw [Char.utf8Size_eq_one_iff, Char.toLower.eq_def, dif_pos upper]
      grind [UInt32.toNat_add]
    rw [before, after]
  · rw [Char.toLower.eq_def, dif_neg upper]

/-- Lower case moves no boundary, so a key and its normal form are cut alike. -/
theorem cuttable_normalized (key : SubKey) : key.normalized.Cuttable ↔ key.Cuttable := by
  cases key with
  | orderUpdates user =>
      have lowered : (toAsciiLowercase user).toList = user.toList.map Char.toLower :=
        String.toList_map
      have wide := width_map utf8Size_toLower user.toList
      have opens : (∃ front rest, user.toList.map Char.toLower = front ++ rest ∧
          width front = 6) ↔ ∃ front rest, user.toList = front ++ rest ∧ width front = 6 :=
        boundary_map utf8Size_toLower
      have closes (long : 4 ≤ width user.toList) :
          (∃ rest back, user.toList.map Char.toLower = rest ++ back ∧ width back = 4) ↔
            ∃ rest back, user.toList = rest ++ back ∧ width back = 4 := by
        rw [← boundary_sub_iff long, ← boundary_sub_iff (by rw [wide]; exact long), wide]
        exact boundary_map utf8Size_toLower
      simp only [normalized, Cuttable, lowered, wide, opens]
      exact imp_congr_right fun long => and_congr_right fun _ => closes (by omega)
  | _ => exact Iff.rfl

/-- A label exists exactly when the address in the key, if there is one, can be cut. -/
theorem label_isSome_iff (key : SubKey) : key.label.isSome ↔ key.Cuttable := by
  cases key with
  | orderUpdates user => rw [← shortUser_isSome_iff, label, Option.isSome_map]
  | _ => exact iff_of_true rfl trivial

/-- A key's label and its normal form's exist exactly when the address in the key, if there is
one, can be cut. -/
theorem label_returns_iff (key : SubKey) :
    key.label.isSome ∧ key.normalized.label.isSome ↔ key.Cuttable := by
  rw [label_isSome_iff, label_isSome_iff, cuttable_normalized, and_self]

/-- Eleven bytes, the seventh of them in the middle of a character. -/
theorem not_label_returns :
    ¬ ∀ key : SubKey, key.label.isSome ∧ key.normalized.label.isSome := by
  intro always
  have sliced := (always (.orderUpdates (String.ofList ['a', 'é', 'é', 'é', 'é', 'é']))).1
  rw [label, shortUser, utf8ByteSize_eq_width, String.toList_ofList] at sliced
  exact absurd sliced (by decide)

end SubKey

end Wsarb
