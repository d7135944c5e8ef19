import Wsarb.Library.KeyedMap

/-!
Owns tables that keep the order in which their keys came, as the dictionaries of scripting
languages do, and patches between two of them: the values to set and the keys to drop. The patch
between two tables turns whatever looks like the first into what looks like the second, and names
no key it need not.
-/

namespace Wsarb.Library

universe u v

namespace KeyedMap

variable {κ : Type u} {ν : Type v} [DecidableEq κ]

/-- Set a key: in place if the table has it, else at the end. -/
def set (table : KeyedMap κ ν) (key : κ) (value : ν) : KeyedMap κ ν :=
  if present : key ∈ table then
    mapValues (fun other old => if other = key then value else old) table
  else
    { entries := table.entries ++ [⟨key, value⟩]
      nodupKeys := by
        rw [List.NodupKeys, List.keys, List.map_append, List.nodup_append]
        refine ⟨table.nodupKeys, List.nodup_singleton _, ?_⟩
        rintro other listed _ member rfl
        obtain rfl := List.mem_singleton.mp member
        exact present listed }

theorem lookup_set (table : KeyedMap κ ν) (key : κ) (value : ν) (other : κ) :
    (table.set key value).lookup other =
      if other = key then some value else table.lookup other := by
  unfold set
  split
  · next present =>
      rw [lookup_mapValues]
      obtain ⟨old, found⟩ := Option.isSome_iff_exists.mp (AList.lookup_isSome.mpr present)
      by_cases same : other = key
      · subst same
        simp [found]
      · simp [same]
  · next absent =>
      rw [AList.lookup, List.dlookup_append]
      by_cases same : other = key
      · subst same
        have missing : table.entries.dlookup other = none := AList.lookup_eq_none.mpr absent
        rw [missing, if_pos rfl, Option.none_or, List.dlookup_cons_eq]
      · rw [if_neg same, List.dlookup_cons_ne _ _ same, List.dlookup_nil, Option.or_none]
        rfl

/-- The table of some pairs, the last value of a key winning. -/
def ofPairs (pairs : List (κ × ν)) : KeyedMap κ ν :=
  pairs.foldl (fun table pair => table.set pair.1 pair.2) ∅

/-- Its pairs, in the order the keys came. -/
def pairs (table : KeyedMap κ ν) : List (κ × ν) := table.entries.map fun entry => (entry.1, entry.2)

theorem mem_pairs {table : KeyedMap κ ν} {key : κ} {value : ν} :
    (key, value) ∈ table.pairs ↔ table.lookup key = some value := by
  rw [pairs, List.mem_map, ← Option.mem_def, AList.mem_lookup_iff]
  constructor
  · rintro ⟨⟨other, old⟩, listed, same⟩
    obtain ⟨rfl, rfl⟩ := Prod.mk.inj same
    exact listed
  · exact fun listed => ⟨_, listed, rfl⟩

/-- Setting some pairs in turn leaves at each key the last value given for it. -/
theorem lookup_foldl_set (pairs : List (κ × ν)) (table : KeyedMap κ ν) (key : κ) :
    (pairs.foldl (fun table pair => table.set pair.1 pair.2) table).lookup key =
      ((pairs.findRev? (·.1 = key)).map (·.2)).or (table.lookup key) := by
  induction pairs generalizing table with
  | nil => rfl
  | cons pair rest inductionHypothesis =>
      rw [List.foldl_cons, inductionHypothesis, lookup_set, List.findRev?]
      cases rest.findRev? (·.1 = key) with
      | some later => rfl
      | none =>
          by_cases same : key = pair.1
          · rw [if_pos same, if_pos (decide_eq_true same.symm)]
            rfl
          · rw [if_neg same, if_neg (by simpa using Ne.symm same)]

theorem lookup_ofPairs (pairs : List (κ × ν)) (key : κ) :
    (ofPairs pairs).lookup key = (pairs.findRev? (·.1 = key)).map (·.2) := by
  rw [ofPairs, lookup_foldl_set, AList.lookup_empty, Option.or_none]

/-- Dropping some keys in turn. -/
theorem lookup_foldl_erase (keys : List κ) (table : KeyedMap κ ν) (key : κ) :
    (keys.foldl (fun table key => table.erase key) table).lookup key =
      if key ∈ keys then none else table.lookup key := by
  induction keys generalizing table with
  | nil => rfl
  | cons first rest inductionHypothesis =>
      rw [List.foldl_cons, inductionHypothesis]
      by_cases same : key = first
      · subst same
        rw [if_pos List.mem_cons_self, AList.lookup_erase, ite_self]
      · simp only [List.mem_cons, same, false_or, AList.lookup_erase_ne same]

/-- Two tables hold the same value at every key. -/
def Alike (first second : KeyedMap κ ν) : Prop := ∀ key, first.lookup key = second.lookup key

end KeyedMap

/-- Pairs to set and keys to drop. -/
structure Patch (κ : Type u) (ν : Type v) where
  upd : List (κ × ν)
  del : List κ

namespace Patch

open KeyedMap

variable {κ : Type u} {ν : Type v} [DecidableEq κ]

def apply (patch : Patch κ ν) (table : KeyedMap κ ν) : KeyedMap κ ν :=
  patch.del.foldl (fun table key => table.erase key)
    (patch.upd.foldl (fun table pair => table.set pair.1 pair.2) table)

variable [DecidableEq ν]

/-- What is new or different in the second table, and what of the first is gone from it. -/
def between (old new : KeyedMap κ ν) : Patch κ ν where
  upd := new.pairs.filter fun pair => old.lookup pair.1 ≠ some pair.2
  del := old.keys.filter (· ∉ new)

variable {old new : KeyedMap κ ν} {key : κ} {value : ν}

theorem mem_upd_between : (key, value) ∈ (between old new).upd ↔
    new.lookup key = some value ∧ old.lookup key ≠ some value := by
  simp [between, mem_pairs]

theorem mem_del_between : key ∈ (between old new).del ↔ key ∈ old ∧ key ∉ new := by
  simp [between, AList.mem_keys]

/-- A patch between two tables sets no key that it drops. -/
theorem between_disjoint (sets : (key, value) ∈ (between old new).upd) :
    key ∉ (between old new).del := by
  intro drops
  apply (mem_del_between.mp drops).2
  rw [← AList.lookup_isSome, (mem_upd_between.mp sets).1]
  rfl

/-- What a patch between two tables sets a key to. -/
theorem findRev_upd_between (old new : KeyedMap κ ν) (key : κ) :
    ((between old new).upd.findRev? (·.1 = key)).map (·.2) =
      if old.lookup key = new.lookup key then none else new.lookup key := by
  rw [List.findRev?_eq_find?_reverse]
  cases sets : (between old new).upd.reverse.find? (·.1 = key) with
  | some pair =>
      obtain ⟨other, value⟩ := pair
      obtain rfl : other = key := by simpa using List.find?_some sets
      obtain ⟨now, before⟩ := mem_upd_between.mp
        (List.mem_reverse.mp (List.mem_of_find?_eq_some sets))
      rw [now, if_neg before, Option.map_some]
  | none =>
      have silent : ∀ value, (key, value) ∉ (between old new).upd := fun value listed =>
        absurd (List.find?_eq_none.mp sets _ (List.mem_reverse.mpr listed)) (by simp)
      rw [Option.map_none]
      split
      · rfl
      · next differs =>
          cases now : new.lookup key with
          | none => rfl
          | some value =>
              rw [now] at differs
              exact absurd (mem_upd_between.mpr ⟨now, differs⟩) (silent value)

/-- The patch between two tables turns what is like the first into what is like the second. -/
theorem apply_between {table : KeyedMap κ ν} (alike : Alike table old) :
    Alike ((between old new).apply table) new := by
  intro key
  rw [apply, lookup_foldl_erase, lookup_foldl_set, findRev_upd_between, alike key]
  split
  · next drops =>
      exact (AList.lookup_eq_none.mpr (mem_del_between.mp drops).2).symm
  · next stays =>
      split
      · next same => rw [Option.none_or, same]
      · next differs =>
          cases now : new.lookup key with
          | some value => rw [Option.some_or]
          | none =>
              rw [now] at differs
              have there : key ∈ old :=
                AList.lookup_isSome.mp (Option.isSome_iff_ne_none.mpr differs)
              exact absurd (mem_del_between.mpr ⟨there, AList.lookup_eq_none.mp now⟩) stays

end Patch

end Wsarb.Library
