import Wsarb.Library.Patches
import Wsarb.Library.Run

/-!
Owns the price-keyed increment between two sides of a book, as the measuring tool builds it, and
its application, as the checking tool and the book page do it: applied in turn, the increments of
a row of sides rebuild every one of them.

Prices, sizes and counts are whatever the frames carry; they are only ever compared. The tools'
dictionaries keep the order in which their keys came, and a repeated price overwrites in place.

Does not own: the frames the increments travel in.
-/

namespace Wsarb

open Wsarb.Library

structure Level (Px Sz Count : Type) where
  px : Px
  sz : Sz
  n : Count

/-- One side of a book by price. -/
abbrev Side (Px Sz Count : Type) := KeyedMap Px (Sz × Count)

/-- The increment of one side as it travels: either list may be missing. -/
structure SideDiff (Px Sz Count : Type) where
  upd : Option (List (Px × Sz × Count))
  del : Option (List Px)

variable {Px Sz Count : Type} [DecidableEq Px]

/-- The dictionary of one side: `by_px` of the one tool, and what `book_from_levels` of the other
makes of each side. -/
def byPx (side : List (Level Px Sz Count)) : Side Px Sz Count :=
  KeyedMap.ofPairs (side.map fun lv => (lv.px, lv.sz, lv.n))

/-- Set what the increment sets, then drop what it drops. -/
def applySide (side : Side Px Sz Count) (diff : SideDiff Px Sz Count) : Side Px Sz Count :=
  let side := (diff.upd.getD []).foldl
    (fun side level => side.set level.1 (level.2.1, level.2.2)) side
  (diff.del.getD []).foldl (fun side px => side.erase px) side

namespace Panel

/-- The side of a book the page starts from. -/
def side (levels : List (Level Px Sz Count)) : Side Px Sz Count :=
  levels.foldl (fun m l => m.set l.px (l.sz, l.n)) ∅

/-- The page's own copy of the two loops. -/
def apply (side : Side Px Sz Count) (d : SideDiff Px Sz Count) : Side Px Sz Count :=
  let side := (d.upd.getD []).foldl
    (fun side level => side.set level.1 (level.2.1, level.2.2)) side
  (d.del.getD []).foldl (fun side px => side.erase px) side

end Panel

section Diff

variable [DecidableEq Sz] [DecidableEq Count]

/-- The price-keyed diff of one side: levels to set, prices to drop. -/
def diffSide (old new : List (Level Px Sz Count)) : List (Px × Sz × Count) × List Px :=
  let o := byPx old
  let n := byPx new
  let upd := n.pairs.filter fun level => o.lookup level.1 ≠ some (level.2.1, level.2.2)
  let gone := o.keys.filter fun px => px ∉ n
  (upd, gone)

/-- What the measuring tool sends of it. -/
def frameSide (diff : List (Px × Sz × Count) × List Px) : SideDiff Px Sz Count where
  upd := some diff.1
  del := some diff.2

/-- A side that is being followed: the side last diffed against, and the book rebuilt so far. -/
structure Following (Px Sz Count : Type) [DecidableEq Px] where
  prev : List (Level Px Sz Count)
  book : Side Px Sz Count

/-- The next side comes: it is diffed against the last one, and the diff is applied. -/
def follow (applies : Side Px Sz Count → SideDiff Px Sz Count → Side Px Sz Count)
    (now : Following Px Sz Count) (next : List (Level Px Sz Count)) : Following Px Sz Count where
  prev := next
  book := applies now.book (frameSide (diffSide now.prev next))

end Diff

/-! ### Building a side -/

/-- At each price stands the last level that names it. -/
theorem lookup_byPx (side : List (Level Px Sz Count)) (px : Px) :
    (byPx side).lookup px = (side.reverse.find? (·.px = px)).map fun lv => (lv.sz, lv.n) := by
  rw [byPx, KeyedMap.lookup_ofPairs, List.findRev?_eq_find?_reverse, ← List.map_reverse,
    List.find?_map, Option.map_map]
  rfl

theorem panelSide_eq_byPx (levels : List (Level Px Sz Count)) :
    Panel.side levels = byPx levels := by
  rw [byPx, KeyedMap.ofPairs, List.foldl_map]
  rfl

/-- The two tools apply a diff alike. -/
theorem panelApply_eq_applySide :
    (Panel.apply : Side Px Sz Count → SideDiff Px Sz Count → Side Px Sz Count) = applySide := rfl

variable [DecidableEq Sz] [DecidableEq Count]

/-- The diff of two sides is the patch between their dictionaries. -/
theorem applySide_diffSide (book : Side Px Sz Count) (old new : List (Level Px Sz Count)) :
    applySide book (frameSide (diffSide old new)) =
      (Patch.between (byPx old) (byPx new)).apply book := rfl

/-- The book rebuilt so far is the one of the last side. -/
def KeepsUp (now : Following Px Sz Count) : Prop := KeyedMap.Alike now.book (byPx now.prev)

theorem KeepsUp.follow {now : Following Px Sz Count} (keepsUp : KeepsUp now)
    (next : List (Level Px Sz Count)) : KeepsUp (follow applySide now next) := by
  show KeyedMap.Alike (applySide now.book (frameSide (diffSide now.prev next))) (byPx next)
  rw [applySide_diffSide]
  exact Patch.apply_between keepsUp

theorem keepsUp_run (first : List (Level Px Sz Count)) (sides : List (List (Level Px Sz Count))) :
    KeepsUp (run (follow applySide) ⟨first, byPx first⟩ sides) :=
  Reachable.invariant ⟨sides, rfl⟩ (fun _ => rfl) fun _ next keepsUp => keepsUp.follow next

/-- Whatever sides follow each other, applying their diffs in turn yields after each the map of
that side, with either tool. A diff sets what is new or has changed and drops what is gone, and
nothing else, so that no price stands in both its lists. -/
theorem diffs_rebuild_sides (first : List (Level Px Sz Count))
    (sides : List (List (Level Px Sz Count))) (last : List (Level Px Sz Count)) :
    (∀ px, (run (follow applySide) ⟨first, byPx first⟩ (sides ++ [last])).book.lookup px =
        (byPx last).lookup px) ∧
      (∀ px, (run (follow Panel.apply) ⟨first, Panel.side first⟩ (sides ++ [last])).book.lookup px =
        (Panel.side last).lookup px) ∧
      ∀ old new : List (Level Px Sz Count),
        (∀ px sz n, (px, sz, n) ∈ (diffSide old new).1 ↔
          (byPx new).lookup px = some (sz, n) ∧ (byPx old).lookup px ≠ some (sz, n)) ∧
        (∀ px, px ∈ (diffSide old new).2 ↔ px ∈ byPx old ∧ px ∉ byPx new) ∧
        ∀ px sz n, (px, sz, n) ∈ (diffSide old new).1 → px ∉ (diffSide old new).2 := by
  have keepsUp := keepsUp_run first (sides ++ [last])
  have reaches : (run (follow applySide) ⟨first, byPx first⟩ (sides ++ [last])).prev = last := by
    rw [run_append]
    rfl
  rw [KeepsUp, reaches] at keepsUp
  refine ⟨keepsUp, ?_, fun old new => ⟨?_, ?_, ?_⟩⟩
  · rw [panelSide_eq_byPx, panelSide_eq_byPx, panelApply_eq_applySide]
    exact keepsUp
  · exact fun px sz n => Patch.mem_upd_between
  · exact fun px => Patch.mem_del_between
  · exact fun px sz n => Patch.between_disjoint

end Wsarb
