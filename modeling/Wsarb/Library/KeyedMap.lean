import Mathlib.Data.List.AList

/-!
Owns the operations on a keyed table that `AList` lacks: rewriting every value in place, and
changing every value into one of another type, with their laws.
-/

namespace Wsarb.Library

universe u v

abbrev KeyedMap (κ : Type u) (ν : Type v) := AList fun _ : κ => ν

namespace KeyedMap

variable {κ : Type u} {ν : Type v}

def rewrite (f : κ → ν → ν) (entry : Sigma fun _ : κ => ν) : Sigma fun _ : κ => ν :=
  ⟨entry.1, f entry.1 entry.2⟩

def mapValues (f : κ → ν → ν) (table : KeyedMap κ ν) : KeyedMap κ ν where
  entries := table.entries.map (rewrite f)
  nodupKeys := by
    have same : (table.entries.map (rewrite f)).keys = table.entries.keys := by
      simp [List.keys, rewrite, Function.comp_def]
    rw [List.NodupKeys, same]
    exact table.nodupKeys

theorem lookup_mapValues [DecidableEq κ] (f : κ → ν → ν) (table : KeyedMap κ ν) (key : κ) :
    (mapValues f table).lookup key = (table.lookup key).map (f key) := by
  have onList : ∀ entries : List (Sigma fun _ : κ => ν),
      (entries.map (rewrite f)).dlookup key = (entries.dlookup key).map (f key) := by
    intro entries
    induction entries with
    | nil => rfl
    | cons entry rest inductionHypothesis =>
        by_cases same : key = entry.1
        · obtain ⟨other, value⟩ := entry
          subst same
          simp [rewrite]
        · rw [List.map_cons, List.dlookup_cons_ne _ (rewrite f entry) same,
            List.dlookup_cons_ne _ entry same, inductionHypothesis]
  exact onList table.entries

def change {μ : Type v} (g : ν → μ) (entry : Sigma fun _ : κ => ν) : Sigma fun _ : κ => μ :=
  ⟨entry.1, g entry.2⟩

/-- The table with each value changed, its keys and their order kept. -/
def mapTo {μ : Type v} (g : ν → μ) (table : KeyedMap κ ν) : KeyedMap κ μ where
  entries := table.entries.map (change g)
  nodupKeys := by
    have same : (table.entries.map (change g)).keys = table.entries.keys := by
      simp [List.keys, change, Function.comp_def]
    rw [List.NodupKeys, same]
    exact table.nodupKeys

/-- Rewriting the values in place and changing them commute. -/
theorem mapTo_mapValues {μ : Type v} {g : ν → μ} {table : KeyedMap κ ν}
    {inside : κ → ν → ν} {outside : κ → μ → μ}
    (commutes : ∀ key value, g (inside key value) = outside key (g value)) :
    mapTo g (mapValues inside table) = mapValues outside (mapTo g table) := by
  apply AList.ext
  simp [mapTo, mapValues, change, rewrite, Function.comp_def, commutes]

section MapTo

variable [DecidableEq κ] {μ : Type v} {g : ν → μ} {table : KeyedMap κ ν}

theorem lookup_mapTo (key : κ) : (mapTo g table).lookup key = (table.lookup key).map g := by
  have onList : ∀ entries : List (Sigma fun _ : κ => ν),
      (entries.map (change g)).dlookup key = (entries.dlookup key).map g := by
    intro entries
    induction entries with
    | nil => rfl
    | cons entry rest inductionHypothesis =>
        obtain ⟨other, value⟩ := entry
        by_cases same : key = other
        · subst same
          simp [change]
        · rw [List.map_cons, List.dlookup_cons_ne _ (change g _) same,
            List.dlookup_cons_ne _ _ same, inductionHypothesis]
  exact onList table.entries

theorem kerase_map (key : κ) (entries : List (Sigma fun _ : κ => ν)) :
    (entries.map (change g)).kerase key = (entries.kerase key).map (change g) := by
  induction entries with
  | nil => rfl
  | cons entry rest inductionHypothesis =>
      obtain ⟨other, value⟩ := entry
      by_cases same : key = other
      · subst same
        simp [change]
      · have apart : key ≠ (change g ⟨other, value⟩).1 := same
        rw [List.map_cons, List.kerase_cons_ne apart, List.kerase_cons_ne same,
          inductionHypothesis, List.map_cons]

theorem mapTo_erase (key : κ) : mapTo g (table.erase key) = (mapTo g table).erase key :=
  AList.ext (kerase_map key table.entries).symm

theorem mapTo_insert (key : κ) (value : ν) :
    mapTo g (table.insert key value) = (mapTo g table).insert key (g value) := by
  apply AList.ext
  have erased := kerase_map (g := g) key table.entries
  rw [AList.entries_insert]
  exact congrArg (⟨key, g value⟩ :: ·) erased.symm

end MapTo

end KeyedMap

end Wsarb.Library
