import Mathlib.Data.List.Basic

/-!
Owns a bounded first-in first-out channel kept together with its whole history:
every item it ever let in, and how many of them the reading end has taken. An
item that finds no room, or a reader that is gone, is lost.

Does not own: who sends, who reads, or what a sender does about a loss.
-/

namespace Wsarb.Library

universe u

/-- A bounded channel. `accepted` is everything it ever let in, oldest first, and
`taken` counts the items the reader has received, so what is in flight is the rest. -/
structure Mailbox (α : Type u) where
  capacity : Nat
  accepted : List α
  taken : Nat
  closed : Bool
  taken_le : taken ≤ accepted.length
  inFlight_le : accepted.length ≤ taken + capacity

namespace Mailbox

variable {α : Type u}

def new (capacity : Nat) : Mailbox α where
  capacity := capacity
  accepted := []
  taken := 0
  closed := false
  taken_le := Nat.le_refl 0
  inFlight_le := Nat.zero_le _

/-- How many more items fit before the reader takes one. -/
def room (box : Mailbox α) : Nat :=
  if box.closed then 0 else box.taken + box.capacity - box.accepted.length

/-- Send one item without waiting; with no room it is lost. -/
def push (box : Mailbox α) (item : α) : Mailbox α :=
  if fits : 0 < box.room then
    { box with
      accepted := box.accepted ++ [item]
      taken_le := by
        have := box.taken_le
        simp only [List.length_append]
        omega
      inFlight_le := by
        have below : 0 < box.taken + box.capacity - box.accepted.length := by
          unfold room at fits
          split at fits <;> omega
        simp only [List.length_append, List.length_singleton]
        omega }
  else box

/-- Send several items in turn, without waiting. -/
def offer (box : Mailbox α) (items : List α) : Mailbox α :=
  items.foldl push box

/-- The reader takes the oldest item in flight, if there is one. -/
def receive (box : Mailbox α) : Mailbox α :=
  if waiting : box.taken < box.accepted.length then
    { box with
      taken := box.taken + 1
      taken_le := waiting
      inFlight_le := by have := box.inFlight_le; omega }
  else box

/-- The reader is gone: nothing is let in any more. -/
def close (box : Mailbox α) : Mailbox α :=
  { box with closed := true }

/-! ### One send -/

theorem push_of_room {box : Mailbox α} (item : α) (fits : 0 < box.room) :
    (box.push item).accepted = box.accepted ++ [item] := by
  rw [push, dif_pos fits]

theorem push_of_full {box : Mailbox α} (item : α) (full : box.room = 0) :
    box.push item = box := by
  rw [push, dif_neg (by omega)]

theorem accepted_push (box : Mailbox α) (item : α) :
    (box.push item).accepted = box.accepted ++ [item].take box.room := by
  by_cases fits : 0 < box.room
  · have short : [item].length ≤ box.room := fits
    rw [push_of_room item fits, List.take_of_length_le short]
  · have full : box.room = 0 := by omega
    rw [push_of_full item full, full, List.take_zero, List.append_nil]

theorem room_push (box : Mailbox α) (item : α) : (box.push item).room = box.room - 1 := by
  by_cases fits : 0 < box.room
  · rw [push, dif_pos fits]
    simp only [room, List.length_append, List.length_singleton]
    split <;> omega
  · rw [push_of_full item (by omega)]
    omega

/-! ### Several sends -/

@[simp] theorem offer_nil (box : Mailbox α) : box.offer [] = box := rfl

theorem offer_cons (box : Mailbox α) (item : α) (rest : List α) :
    box.offer (item :: rest) = (box.push item).offer rest := rfl

/-- What a row of sends adds is the part of it that fits. -/
theorem accepted_offer (box : Mailbox α) (items : List α) :
    (box.offer items).accepted = box.accepted ++ items.take box.room := by
  induction items generalizing box with
  | nil => simp
  | cons item rest inductionHypothesis =>
      rw [offer_cons, inductionHypothesis, accepted_push, room_push, List.append_assoc]
      rcases box.room with _ | room <;> simp

theorem offer_of_full {box : Mailbox α} (items : List α) (full : box.room = 0) :
    box.offer items = box := by
  induction items with
  | nil => rfl
  | cons item rest inductionHypothesis =>
      rw [offer_cons, push_of_full item full, inductionHypothesis]

theorem closed_push (box : Mailbox α) (item : α) : (box.push item).closed = box.closed := by
  unfold push
  split <;> rfl

theorem capacity_push (box : Mailbox α) (item : α) : (box.push item).capacity = box.capacity := by
  unfold push
  split <;> rfl

theorem taken_push (box : Mailbox α) (item : α) : (box.push item).taken = box.taken := by
  unfold push
  split <;> rfl

theorem closed_offer (box : Mailbox α) (items : List α) :
    (box.offer items).closed = box.closed := by
  induction items generalizing box with
  | nil => rfl
  | cons item rest inductionHypothesis =>
      rw [offer_cons, inductionHypothesis, closed_push]

theorem capacity_offer (box : Mailbox α) (items : List α) :
    (box.offer items).capacity = box.capacity := by
  induction items generalizing box with
  | nil => rfl
  | cons item rest inductionHypothesis =>
      rw [offer_cons, inductionHypothesis, capacity_push]

/-- A channel that has room is open and holds something. -/
theorem open_of_room {box : Mailbox α} (fits : 0 < box.room) :
    box.closed = false ∧ 0 < box.capacity := by
  have taken := box.taken_le
  unfold room at fits
  cases closed : box.closed with
  | true => simp [closed] at fits
  | false =>
      rw [closed, if_neg Bool.false_ne_true] at fits
      exact ⟨rfl, by omega⟩

/-! ### The reading end -/

/-- An open channel has room again once its reader has taken an item. -/
theorem room_receive {box : Mailbox α} (opened : box.closed = false) (holds : 0 < box.capacity) :
    0 < box.receive.room := by
  have within := box.inFlight_le
  unfold receive room
  split
  · simp only [opened, Bool.false_eq_true, if_false]
    omega
  · simp only [opened, Bool.false_eq_true, if_false]
    omega

@[simp] theorem accepted_receive (box : Mailbox α) : box.receive.accepted = box.accepted := by
  unfold receive
  split <;> rfl

@[simp] theorem accepted_close (box : Mailbox α) : box.close.accepted = box.accepted := rfl

@[simp] theorem closed_receive (box : Mailbox α) : box.receive.closed = box.closed := by
  unfold receive
  split <;> rfl

end Mailbox

end Wsarb.Library
