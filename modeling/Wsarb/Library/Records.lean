import Wsarb.Library.Json

/-!
Owns how a record stands in the members of an object and is read from them: a field is found by
its name, wherever it stands, and must not stand twice; members nobody asks for are passed over.
A text must be there. A number that may be left out is not written when there is none, and is
read as none when it is absent or null. A record may also be given as the array of its fields.
Owns the camel case names are put into on the way.

Does not own: which fields a record has.
-/

namespace Wsarb.Library

/-! ### Names -/

namespace CamelCase

/-- The name of a variant: its first letter in lower case. -/
def variant (ident : String) : String :=
  match ident.toList with
  | [] => ""
  | first :: rest => String.ofList (first.toLower :: rest)

/-- The words of a name run together, each with a capital. -/
def pascal (capitalize : Bool) : List Char → List Char
  | [] => []
  | c :: rest =>
      if c = '_' then pascal true rest
      else (if capitalize then c.toUpper else c) :: pascal false rest

/-- The name of a field: the same, but for the first letter. -/
def field (ident : String) : String := variant (String.ofList (pascal true ident.toList))

end CamelCase

namespace Json

abbrev Members := List (String × Json)

variable {members other : Members} {name : String}

/-! ### What stands under a name -/

/-- The values that stand under a name. -/
def standing (members : Members) (name : String) : List Json :=
  (members.filter (·.1 = name)).map (·.2)

/-- The value of a field, if there is one; nothing at all if it stands twice. -/
def field? (members : Members) (name : String) : Option (Option Json) :=
  match standing members name with
  | [] => some none
  | [value] => some (some value)
  | _ => none

/-- A text that must be there. -/
def text? (members : Members) (name : String) : Option String :=
  match field? members name with
  | some (some (.str value)) => some value
  | _ => none

def bounded? (bound : Nat) (value : Numeral) : Option Nat :=
  value.natural?.filter (· < bound)

/-- A natural number below a bound that may be left out. -/
def natural? (bound : Nat) (members : Members) (name : String) : Option (Option Nat) :=
  match field? members name with
  | some none | some (some .null) => some none
  | some (some (.num value)) => (bounded? bound value).map some
  | _ => none

def number? (bound : Nat) (members : Members) (name : String) : Option Nat :=
  match field? members name with
  | some (some (.num value)) => bounded? bound value
  | _ => none

/-- A list that is empty when it is absent. -/
def list? {α : Type} (read : Json → Option α) (members : Members) (name : String) :
    Option (List α) :=
  match field? members name with
  | some none => some []
  | some (some (.arr items)) => items.mapM read
  | _ => none

/-- A record given as an object, or as an array of its first fields in order. -/
def record? (names : List String) : Json → Option Members
  | .obj members => some members
  | .arr items => if items.length ≤ names.length then some (names.zip items) else none
  | _ => none

/-- An object of one member: the name of a variant, and its content. -/
def variant? : Json → Option (String × Json)
  | .obj [(name, content)] => some (name, content)
  | _ => none

/-- A number that may be left out, as it is written. -/
def optional (name : String) (value : Option Nat) : Members :=
  (value.map fun n => (name, .num (Numeral.ofNat n))).toList

/-- A number that may be left out stands under its name: written with digits alone if there is
one, absent or null if there is none. -/
def Stands (members : Members) (name : String) : Option Nat → Prop
  | none => standing members name = [] ∨ standing members name = [.null]
  | some n => ∃ value, standing members name = [.num value] ∧ value.natural? = some n

theorem field?_eq_some_iff {value : Option Json} :
    field? members name = some value ↔ standing members name = value.toList := by
  unfold field?
  split
  · next stands => cases value <;> simp [stands]
  · next one stands => cases value <;> simp [stands]
  · next empty single =>
      cases value with
      | none => simpa using empty
      | some value => simpa using single value

theorem text?_eq_some_iff {value : String} :
    text? members name = some value ↔ standing members name = [.str value] := by
  unfold text?
  split
  · next found read =>
      have stands := field?_eq_some_iff.mp read
      rw [stands]
      simp
  · next other =>
      constructor
      · exact fun found => by cases found
      · intro stands
        exact absurd (field?_eq_some_iff.mpr stands) (other value)

theorem bounded?_eq_some_iff {bound n : Nat} {value : Numeral} :
    bounded? bound value = some n ↔ value.natural? = some n ∧ n < bound := by
  simp [bounded?, Option.filter_eq_some_iff]

theorem natural?_eq_some_iff {bound : Nat} {value : Option Nat} :
    natural? bound members name = some value ↔
      Stands members name value ∧ ∀ n, value = some n → n < bound := by
  unfold natural?
  split
  · next read =>
      have stands := field?_eq_some_iff.mp read
      cases value <;> simp [Stands, stands]
  · next read =>
      have stands := field?_eq_some_iff.mp read
      cases value <;> simp [Stands, stands]
  · next numeral read =>
      have stands := field?_eq_some_iff.mp read
      cases value <;> simp [Stands, stands, bounded?_eq_some_iff]
  · next absent null numeral =>
      constructor
      · exact fun found => by cases found
      · rintro ⟨stands, -⟩
        cases value with
        | none =>
            rcases stands with nothing | empty
            · exact absurd (field?_eq_some_iff.mpr nothing) absent
            · exact absurd (field?_eq_some_iff.mpr empty) null
        | some n =>
            obtain ⟨value, stands, -⟩ := stands
            exact absurd (field?_eq_some_iff.mpr stands) (numeral value)

/-- Where a name stands at most once the order of the members does not matter. -/
theorem standing_perm (same : members.Perm other) {value : Option Json}
    (stands : standing members name = value.toList) : standing other name = value.toList := by
  have perm : (standing members name).Perm (standing other name) := (same.filter _).map _
  rw [stands] at perm
  cases value with
  | none => exact List.nil_perm.mp perm
  | some value => exact (List.singleton_perm.mp perm).symm

/-- So it does not for a number that may be left out. -/
theorem Stands.perm (same : members.Perm other) {value : Option Nat}
    (stands : Stands members name value) : Stands other name value := by
  cases value with
  | none =>
      have kept (value : Option Json) :
          standing members name = value.toList → standing other name = value.toList :=
        standing_perm same
      exact stands.imp (kept none) (kept (some .null))
  | some n =>
      obtain ⟨value, one, spelled⟩ := stands
      replace one : standing members name = (some (.num value)).toList := one
      exact ⟨value, standing_perm same one, spelled⟩

/-! ### What is written stands -/

@[simp] theorem standing_nil : standing [] name = [] := rfl

theorem standing_cons (first : String) (value : Json) :
    standing ((first, value) :: members) name =
      if first = name then value :: standing members name else standing members name := by
  by_cases same : first = name <;> simp [standing, same]

theorem standing_append :
    standing (members ++ other) name = standing members name ++ standing other name := by
  rw [standing, List.filter_append, List.map_append]
  rfl

theorem standing_optional (first : String) (value : Option Nat) :
    standing (optional first value) name =
      if first = name then (value.map fun n => Json.num (Numeral.ofNat n)).toList else [] := by
  cases value with
  | none => simp [optional]
  | some n => simp [optional, standing_cons]

/-- A number written under its name and nowhere else stands there. -/
theorem stands_of_written {value : Option Nat}
    (written : standing members name =
      (value.map fun n => Json.num (Numeral.ofNat n)).toList) : Stands members name value := by
  cases value with
  | none => exact Or.inl written
  | some n => exact ⟨Numeral.ofNat n, written, Numeral.natural?_ofNat n⟩

theorem depthMembers_append :
    depthMembers (members ++ other) = max (depthMembers members) (depthMembers other) := by
  induction members with
  | nil => exact (Nat.zero_max _).symm
  | cons member rest inductionHypothesis =>
      obtain ⟨name, value⟩ := member
      show max value.depth (depthMembers (rest ++ other)) = _
      rw [inductionHypothesis, ← Nat.max_assoc]
      rfl

@[simp] theorem depthMembers_optional (value : Option Nat) :
    depthMembers (optional name value) = 0 := by
  cases value <;> rfl

end Json

end Wsarb.Library
