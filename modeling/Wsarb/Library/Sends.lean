import Wsarb.Library.Mailbox

/-!
Owns a row of sends into a bounded channel while its reader is at work, and what became of
each item: let in, or lost. A sender that stops at its first loss leaves no hole in its row;
several rows one after the other leave none exactly if nothing is let in after a loss.

Does not own: what the items are, or when the reader acts.
-/

namespace Wsarb.Library

universe u

variable {α : Type u}

namespace Mailbox

inductive Pull
  | receive
  | close
  deriving DecidableEq

def pull (box : Mailbox α) : Pull → Mailbox α
  | .receive => box.receive
  | .close => box.close

def pulled (box : Mailbox α) (pulls : List Pull) : Mailbox α :=
  pulls.foldl pull box

/-- Send several items in turn, the reader acting before each, up to the first that finds
no room. -/
def offerAmid (box : Mailbox α) : List α → List (List Pull) → Mailbox α
  | [], _ => box
  | item :: rest, pulls =>
      let box := box.pulled (pulls.headD [])
      if 0 < box.room then (box.push item).offerAmid rest pulls.tail else box

/-- What becomes of the items of such a row. -/
def fates (box : Mailbox α) : List α → List (List Pull) → List (α × Bool)
  | [], _ => []
  | item :: rest, pulls =>
      let box := box.pulled (pulls.headD [])
      if 0 < box.room then (item, true) :: (box.push item).fates rest pulls.tail
      else (item :: rest).map fun lost => (lost, false)

end Mailbox

/-! ### Rows with their fates -/

def entered (row : List (α × Bool)) : List α := (row.filter (·.2)).map (·.1)

/-- Some item of the row was lost. -/
def Lossy (row : List (α × Bool)) : Prop := ∃ item ∈ row, item.2 = false

/-- No item of the row was let in after a loss. -/
def Unholed (row : List (α × Bool)) : Prop :=
  row.Pairwise fun earlier later => later.2 = true → earlier.2 = true

instance (row : List (α × Bool)) : Decidable (Lossy row) :=
  inferInstanceAs (Decidable (∃ item ∈ row, item.2 = false))

instance (row : List (α × Bool)) : Decidable (Unholed row) :=
  inferInstanceAs (Decidable (List.Pairwise _ row))

theorem entered_append (row more : List (α × Bool)) :
    entered (row ++ more) = entered row ++ entered more := by
  rw [entered, List.filter_append, List.map_append]
  rfl

theorem entered_of_lost (items : List α) : entered (items.map fun lost => (lost, false)) = [] := by
  induction items with
  | nil => rfl
  | cons item rest inductionHypothesis => exact inductionHypothesis

theorem entered_of_kept (items : List α) :
    entered (items.map fun kept => (kept, true)) = items := by
  induction items with
  | nil => rfl
  | cons item rest inductionHypothesis => exact congrArg (item :: ·) inductionHypothesis

theorem mem_of_mem_entered {row : List (α × Bool)} {item : α} (member : item ∈ entered row) :
    item ∈ row.map (·.1) := by
  obtain ⟨kept, listed, same⟩ := List.mem_map.mp member
  exact List.mem_map.mpr ⟨kept, (List.mem_filter.mp listed).1, same⟩

theorem unholed_of_lost (items : List α) : Unholed (items.map fun lost => (lost, false)) := by
  rw [Unholed, List.pairwise_map]
  exact List.pairwise_of_forall fun _ _ holds => absurd holds Bool.false_ne_true

/-- One more row leaves no hole exactly if it has none and, after a loss, lets nothing in. -/
theorem unholed_append {row more : List (α × Bool)} :
    Unholed (row ++ more) ↔
      Unholed row ∧ Unholed more ∧ (Lossy row → entered more = []) := by
  have nothing : entered more = [] ↔ ∀ later ∈ more, later.2 = false := by
    rw [entered, List.map_eq_nil_iff, List.filter_eq_nil_iff]
    simp only [Bool.not_eq_true]
  rw [Unholed, List.pairwise_append, nothing]
  apply and_congr_right'
  apply and_congr_right'
  constructor
  · intro ordered lossy later follows
    obtain ⟨item, member, lost⟩ := lossy
    by_contra enters
    have kept := ordered item member later follows (by simpa using enters)
    rw [lost] at kept
    cases kept
  · intro silent earlier member later follows enters
    by_contra lost
    have gone := silent ⟨earlier, member, by simpa using lost⟩ later follows
    rw [enters] at gone
    cases gone

/-- Without a hole what was let in is a prefix of the row. -/
theorem Unholed.entered_prefix {row : List (α × Bool)} (unholed : Unholed row) :
    entered row <+: row.map (·.1) := by
  induction row with
  | nil => exact List.nil_prefix
  | cons item rest inductionHypothesis =>
      obtain ⟨first, later⟩ := List.pairwise_cons.mp unholed
      cases kept : item.2 with
      | true =>
          rw [entered, List.filter_cons_of_pos (by exact kept), List.map_cons, List.map_cons]
          exact List.cons_prefix_cons.mpr ⟨rfl, inductionHypothesis later⟩
      | false =>
          have nothing : entered (item :: rest) = [] := by
            rw [entered, List.map_eq_nil_iff, List.filter_eq_nil_iff]
            intro other member enters
            rcases List.mem_cons.mp member with rfl | follows
            · rw [kept] at enters
              cases enters
            · rw [first other follows enters] at kept
              cases kept
          rw [nothing]
          exact List.nil_prefix

namespace Mailbox

/-! ### What a row of sends leaves behind -/

@[simp] theorem accepted_pulled (box : Mailbox α) (pulls : List Pull) :
    (box.pulled pulls).accepted = box.accepted := by
  induction pulls generalizing box with
  | nil => rfl
  | cons pull rest inductionHypothesis =>
      rw [pulled, List.foldl_cons, ← pulled, inductionHypothesis]
      cases pull with
      | receive => exact box.accepted_receive
      | close => rfl

theorem map_fates (box : Mailbox α) (items : List α) (pulls : List (List Pull)) :
    (box.fates items pulls).map (·.1) = items := by
  induction items generalizing box pulls with
  | nil => rfl
  | cons item rest inductionHypothesis =>
      unfold fates
      dsimp only
      split
      · rw [List.map_cons, inductionHypothesis]
      · rw [List.map_map]
        exact List.map_id _

/-- The channel has let in what the fates say. -/
theorem accepted_offerAmid (box : Mailbox α) (items : List α) (pulls : List (List Pull)) :
    (box.offerAmid items pulls).accepted =
      box.accepted ++ entered (box.fates items pulls) := by
  induction items generalizing box pulls with
  | nil => exact (List.append_nil _).symm
  | cons item rest inductionHypothesis =>
      unfold offerAmid fates
      dsimp only
      split
      · next fits =>
          rw [inductionHypothesis, push_of_room item fits, accepted_pulled, List.append_assoc]
          rfl
      · rw [accepted_pulled, entered_of_lost, List.append_nil]

/-- A sender that stops at its first loss leaves no hole. -/
theorem unholed_fates (box : Mailbox α) (items : List α) (pulls : List (List Pull)) :
    Unholed (box.fates items pulls) := by
  induction items generalizing box pulls with
  | nil => exact List.Pairwise.nil
  | cons item rest inductionHypothesis =>
      unfold fates
      dsimp only
      split
      · exact List.pairwise_cons.mpr ⟨fun _ _ _ => rfl, inductionHypothesis _ _⟩
      · exact unholed_of_lost (item :: rest)

/-- After a loss the channel is full. -/
theorem full_of_lossy {box : Mailbox α} {items : List α} {pulls : List (List Pull)}
    (lossy : Lossy (box.fates items pulls)) : (box.offerAmid items pulls).room = 0 := by
  induction items generalizing box pulls with
  | nil =>
      obtain ⟨item, member, -⟩ := lossy
      cases member
  | cons item rest inductionHypothesis =>
      unfold fates at lossy
      unfold offerAmid
      dsimp only at lossy ⊢
      split
      · next fits =>
          rw [if_pos fits] at lossy
          obtain ⟨lost, member, gone⟩ := lossy
          rcases List.mem_cons.mp member with rfl | follows
          · cases gone
          · exact inductionHypothesis ⟨lost, follows, gone⟩
      · next full => exact Nat.eq_zero_of_not_pos full

/-- A reader that takes nothing makes no room. -/
theorem full_pulled {box : Mailbox α} (full : box.room = 0) {pulls : List Pull}
    (idle : .receive ∉ pulls) : (box.pulled pulls).room = 0 := by
  induction pulls generalizing box with
  | nil => exact full
  | cons pull rest inductionHypothesis =>
      have later : .receive ∉ rest := fun member => idle (List.mem_cons_of_mem pull member)
      cases pull with
      | receive => exact absurd List.mem_cons_self idle
      | close =>
          have closed : box.close.room = 0 := rfl
          exact inductionHypothesis closed later

theorem full_offerAmid {box : Mailbox α} (full : box.room = 0) (items : List α)
    {pulls : List (List Pull)} (idle : ∀ each ∈ pulls, .receive ∉ each) :
    (box.offerAmid items pulls).room = 0 := by
  cases items with
  | nil => exact full
  | cons item rest =>
      have still : (box.pulled (pulls.headD [])).room = 0 := by
        cases pulls with
        | nil => exact full
        | cons first later => exact full_pulled full (idle first List.mem_cons_self)
      unfold offerAmid
      dsimp only
      rw [if_neg (Nat.not_lt.mpr (Nat.le_of_eq still))]
      exact still

end Mailbox

end Wsarb.Library
