import Wsarb.Concurrent.Floor

/-!
Owns the order in which forwarded frames enter the queues when the calls of several
sources interleave. A decision that finds no earlier call of its key still owing a frame
to one of its own clients keeps every queue in the order of the decisions; any other
decision can be overtaken, or overtake.
-/

namespace Wsarb

open Wsarb.Library

namespace Floor

/-- What has entered a client's queue since the state `st` the floor opened in. -/
def entered (fl : Floor) (st : AppState Stamped) (client : Nat) : List Stamped :=
  (fl.st.log client).drop (st.log client).length

/-- Every queue shows the decisions in the order they were made in. -/
structure ShowsDecisionOrder (fl : Floor) (st : AppState Stamped) : Prop where
  /-- A frame in a queue is the decision its ticket says. -/
  placed : ∀ client, ∀ frame ∈ fl.entered st client, fl.decided[frame.ticket]? = some frame.message
  ascending : ∀ client key, ((fl.entered st client).filter (·.message.key = key)).Pairwise
    fun earlier later => earlier.ticket ≤ later.ticket

/-- Nobody else's call on the key still owes a frame to a client the new frame goes to. -/
def Alone (fl : Floor) : Move → Prop
  | .decide _ message =>
      ∀ e, fl.st.getEntry message.key = some e →
        e.Accepts message.key message.source message.seq →
        ∀ source call, source ≠ message.source → fl.calls source = some call →
          call.frame.message.key = message.key → ∀ client ∈ e.subscribers, client ∉ call.owed
  | _ => True

variable {fl : Floor} {st : AppState Stamped}

/-! ### What the order amounts to -/

/-- Heights go backwards in a queue only if the decisions' heights did. -/
theorem ShowsDecisionOrder.heights (shows : fl.ShowsDecisionOrder st) (key : SubKey)
    (decided : (fl.decided.filter (·.key = key)).Pairwise
      fun earlier later => earlier.seq.stamp ≤ later.seq.stamp) (client : Nat) :
    ((fl.entered st client).filter (·.message.key = key)).Pairwise
      fun earlier later => earlier.message.seq.stamp ≤ later.message.seq.stamp := by
  rw [List.pairwise_filter, List.pairwise_iff_getElem] at decided
  apply (shows.ascending client key).imp_of_mem
  intro earlier later earlierIn laterIn ordered
  obtain ⟨earlierIn, earlierOf⟩ := List.mem_filter.mp earlierIn
  obtain ⟨laterIn, laterOf⟩ := List.mem_filter.mp laterIn
  obtain ⟨inRange, same⟩ := List.getElem?_eq_some_iff.mp (shows.placed client earlier earlierIn)
  obtain ⟨inRange', same'⟩ := List.getElem?_eq_some_iff.mp (shows.placed client later laterIn)
  rcases Nat.eq_or_lt_of_le ordered with equal | before
  · simp only [equal] at same
    rw [← same, ← same']
  · have := decided earlier.ticket later.ticket inRange inRange' before
    rw [same, same'] at this
    exact this earlierOf laterOf

/-- Two subscribers never see two decisions in opposite orders. -/
theorem ShowsDecisionOrder.agree (shows : fl.ShowsDecisionOrder st) (key : SubKey)
    {one other : Nat} {first second : Stamped} (different : first.ticket ≠ second.ticket)
    (sees : [first, second].Sublist ((fl.entered st one).filter (·.message.key = key))) :
    ¬ [second, first].Sublist ((fl.entered st other).filter (·.message.key = key)) := by
  intro sees'
  have forth : first.ticket ≤ second.ticket := by
    simpa using (shows.ascending one key).sublist sees
  have back : second.ticket ≤ first.ticket := by
    simpa using (shows.ascending other key).sublist sees'
  exact different (Nat.le_antisymm forth back)

/-! ### The invariant -/

/-- The queues are in order, and every frame still owed goes behind what its client has of
the key. -/
structure Orderly (st : AppState Stamped) (fl : Floor) : Prop where
  shows : fl.ShowsDecisionOrder st
  placed : ∀ source call, fl.calls source = some call →
    fl.decided[call.frame.ticket]? = some call.frame.message
  behind : ∀ source call, fl.calls source = some call → ∀ client ∈ call.owed,
    ∀ frame ∈ fl.entered st client, frame.message.key = call.frame.message.key →
      frame.ticket ≤ call.frame.ticket
  alone : ∀ source other call call', fl.calls source = some call → fl.calls other = some call' →
    call.frame.message.key = call'.frame.message.key → ∀ client ∈ call.owed,
      client ∈ call'.owed → source = other

theorem orderly_start (st : AppState Stamped) : Orderly st (start st) := by
  have nothing : ∀ client, (start st).entered st client = [] := fun _ => List.drop_length
  refine ⟨⟨?_, ?_⟩, ?_, ?_, ?_⟩
  · intro client frame member
    rw [nothing] at member
    exact absurd member List.not_mem_nil
  · intro client key
    rw [nothing]
    exact List.Pairwise.nil
  · exact fun _ _ under => nomatch under
  · exact fun _ _ under => nomatch under
  · exact fun _ _ _ _ under => nomatch under

/-- A turn adds at most the frame owed to the client whose turn it is. -/
theorem entered_send (st : AppState Stamped) (source client : Nat) :
    (fl.send source).entered st client = fl.entered st client ∨
      ∃ frame rest, fl.calls source = some { frame := frame, owed := client :: rest } ∧
        (fl.send source).entered st client = fl.entered st client ++ [frame] := by
  have turn := fl.tx_send source client
  unfold entered AppState.log
  rw [turn]
  split
  · next frame who rest under =>
      split
      · next same =>
          subst same
          rw [Mailbox.accepted_push, List.drop_append]
          have bit : ∀ {more : List Stamped}, more.Sublist [frame] → more = [] ∨ more = [frame] :=
            List.sublist_singleton.mp
          rcases bit ((List.drop_sublist _ _).trans (List.take_sublist _ _)) with none | one
          · left
            rw [none, List.append_nil]
          · right
            exact ⟨frame, rest, under, by rw [one]⟩
      · exact Or.inl rfl
  · exact Or.inl rfl

theorem Orderly.send (orderly : Orderly st fl) (source : Nat) : Orderly st (fl.send source) := by
  refine ⟨⟨?_, ?_⟩, ?_, ?_, ?_⟩
  · intro client frame member
    rw [decided_send]
    rcases fl.entered_send st source client with same | ⟨queued, rest, under, grown⟩
    · exact orderly.shows.placed client frame (same ▸ member)
    · rw [grown] at member
      rcases List.mem_append.mp member with old | new
      · exact orderly.shows.placed client frame old
      · rw [List.mem_singleton.mp new]
        exact orderly.placed source _ under
  · intro client key
    rcases fl.entered_send st source client with same | ⟨queued, rest, under, grown⟩
    · rw [same]
      exact orderly.shows.ascending client key
    · rw [grown, List.filter_append, List.pairwise_append]
      refine ⟨orderly.shows.ascending client key, ?_, ?_⟩
      · exact (List.pairwise_singleton _ queued).sublist List.filter_sublist
      · intro earlier earlierIn later laterIn
        obtain ⟨earlierIn, earlierOf⟩ := List.mem_filter.mp earlierIn
        obtain ⟨laterIn, laterOf⟩ := List.mem_filter.mp laterIn
        obtain rfl := List.mem_singleton.mp laterIn
        exact orderly.behind source _ under client List.mem_cons_self earlier earlierIn
          ((of_decide_eq_true earlierOf).trans (of_decide_eq_true laterOf).symm)
  · intro other call under
    obtain ⟨before, calling, same, -⟩ := fl.calls_send under
    rw [decided_send, ← same]
    exact orderly.placed other before calling
  · intro other call under client owes frame member sameKey
    obtain ⟨before, calling, same, fewer⟩ := fl.calls_send under
    rw [← same] at sameKey ⊢
    rcases fl.entered_send st source client with unchanged | ⟨queued, rest, sending, grown⟩
    · exact orderly.behind other before calling client (fewer owes) frame (unchanged ▸ member)
        sameKey
    · rw [grown] at member
      rcases List.mem_append.mp member with old | new
      · exact orderly.behind other before calling client (fewer owes) frame old sameKey
      · obtain rfl := List.mem_singleton.mp new
        -- The call that is sending is the only one of its key that owes this client.
        obtain rfl := orderly.alone source other _ _ sending calling sameKey client
          List.mem_cons_self (fewer owes)
        rw [sending, Option.some.injEq] at calling
        rw [← calling]
  · intro one other call call' under under' sameKey client owes owes'
    obtain ⟨before, calling, same, fewer⟩ := fl.calls_send under
    obtain ⟨before', calling', same', fewer'⟩ := fl.calls_send under'
    rw [← same, ← same'] at sameKey
    exact orderly.alone one other before before' calling calling' sameKey client (fewer owes)
      (fewer' owes')

theorem Orderly.decide (orderly : Orderly st fl) {now : Nat} {message : Message}
    (lone : fl.Alone (.decide now message)) : Orderly st (fl.decide now message) := by
  obtain ⟨quiet, cases⟩ := fl.decide_cases now message
  have same : ∀ client, (fl.decide now message).entered st client = fl.entered st client := by
    intro client
    rw [entered, quiet, entered]
  rcases cases with ⟨calls, decided⟩ | ⟨owed, ready, goesTo, decided, calls⟩
  · refine ⟨⟨?_, ?_⟩, ?_, ?_, ?_⟩
    · simpa only [same, decided] using orderly.shows.placed
    · simpa only [same] using orderly.shows.ascending
    · simpa only [calls, decided] using orderly.placed
    · simpa only [calls, same] using orderly.behind
    · simpa only [calls] using orderly.alone
  · have grows : ∀ {ticket : Nat} {item : Message}, fl.decided[ticket]? = some item →
        (fl.decide now message).decided[ticket]? = some item := by
      intro ticket item at_
      obtain ⟨inRange, -⟩ := List.getElem?_eq_some_iff.mp at_
      rw [decided, List.getElem?_append_left inRange, at_]
    have split : ∀ {other : Nat} {call : Call}, (fl.decide now message).calls other = some call →
        other = message.source ∧ call = { frame := fl.stamp message, owed := owed } ∨
          other ≠ message.source ∧ fl.calls other = some call := by
      intro other call under
      rw [calls, Function.update_apply] at under
      split at under
      · next same => exact Or.inl ⟨same, (Option.some.inj under).symm⟩
      · next differs => exact Or.inr ⟨differs, under⟩
    -- By the condition no earlier call of the key owes a client of the new one.
    have apart : ∀ {other : Nat} {call : Call}, other ≠ message.source →
        fl.calls other = some call → call.frame.message.key = message.key →
        ∀ client ∈ owed, client ∉ call.owed := by
      intro other call differs under sameKey client goes
      obtain ⟨e, found, accepts, member⟩ := goesTo client goes
      exact lone e found accepts other call differs under sameKey client member
    refine ⟨⟨?_, ?_⟩, ?_, ?_, ?_⟩
    · intro client frame member
      rw [same] at member
      exact grows (orderly.shows.placed client frame member)
    · simpa only [same] using orderly.shows.ascending
    · intro other call under
      rcases split under with ⟨-, rfl⟩ | ⟨-, under⟩
      · rw [decided]
        exact List.getElem?_concat_length ..
      · exact grows (orderly.placed other call under)
    · intro other call under client owes frame member sameKey
      rw [same] at member
      rcases split under with ⟨-, rfl⟩ | ⟨-, under⟩
      · obtain ⟨inRange, -⟩ :=
          List.getElem?_eq_some_iff.mp (orderly.shows.placed client frame member)
        exact Nat.le_of_lt inRange
      · exact orderly.behind other call under client owes frame member sameKey
    · intro one other call call' under under' sameKey client owes owes'
      rcases split under with ⟨rfl, rfl⟩ | ⟨differs, under⟩ <;>
        rcases split under' with ⟨rfl, rfl⟩ | ⟨differs', under'⟩
      · rfl
      · exact absurd owes' (apart differs' under' sameKey.symm client owes)
      · exact absurd owes (apart differs under sameKey client owes')
      · exact orderly.alone one other call call' under under' sameKey client owes owes'

theorem Orderly.idle (orderly : Orderly st fl) (op : Idle) : Orderly st (fl.step (.idle op)) := by
  have same : ∀ client, (fl.step (.idle op)).entered st client = fl.entered st client := by
    intro client
    exact congrArg (List.drop _) (fl.st.log_idle op client)
  refine ⟨⟨?_, ?_⟩, orderly.placed, ?_, orderly.alone⟩
  · intro client frame member
    rw [same] at member
    exact orderly.shows.placed client frame member
  · simpa only [same] using orderly.shows.ascending
  · intro source call under client owes frame member
    rw [same] at member
    exact orderly.behind source call under client owes frame member

theorem Orderly.step (orderly : Orderly st fl) (move : Move) (lone : fl.Alone move) :
    Orderly st (fl.step move) := by
  cases move with
  | decide now message => exact orderly.decide lone
  | send source => exact orderly.send source
  | idle op => exact orderly.idle op

/-- In every run whose decisions are alone on their key's clients, the queues show the
order of the decisions throughout. -/
theorem showsDecisionOrder_of_alone (st : AppState Stamped) (moves : List Move)
    (alone : Throughout step Alone (start st) moves) :
    (run step (start st) moves).ShowsDecisionOrder st :=
  (run_keeps (fun _ move orderly => orderly.step move) moves (orderly_start st) alone).shows

/-! ### Decisions that are not alone -/

/-- A decision that finds an earlier call of its key still owing one of its clients can
overtake it. -/
theorem overtakes_of_not_alone {fl : Floor} {now : Nat} {message : Message} {other client : Nat}
    {earlier : Call} (different : other ≠ message.source) (ready : fl.calls message.source = none)
    (under : fl.calls other = some earlier) (owes : client ∈ earlier.owed)
    {e : SubEntry Stamped} (found : fl.st.getEntry message.key = some e)
    (accepts : e.Accepts message.key message.source message.seq)
    (attached : client ∈ e.subscribers) (room : 1 < (fl.st.heap client).tx.room) :
    ∃ sends, (∀ move ∈ sends, ∃ source, move = Move.send source) ∧
      (run step (fl.decide now message) sends).st.log client =
        fl.st.log client ++ [fl.stamp message, earlier.frame] := by
  obtain ⟨opened, tx⟩ := decide_of_accepts now found accepts ready
  obtain ⟨first, pushed⟩ := (fl.decide now message).pushes_to message.source client
    (fl.stamp message) e.subscribers attached (by rw [opened, Function.update_self])
  have still : (run step (fl.decide now message)
      (List.replicate first (.send message.source))).calls other = some earlier := by
    rw [calls_run_of_others, opened, Function.update_of_ne different, under]
    intro move member
    rw [List.eq_of_mem_replicate member]
    exact fun same => different (Option.some.inj same).symm
  obtain ⟨second, pushed'⟩ := pushes_to _ other client earlier.frame earlier.owed owes still
  rw [tx] at pushed
  have spare : 0 < ((fl.st.heap client).tx.push (fl.stamp message)).room := by
    rw [Mailbox.room_push]
    omega
  refine ⟨List.replicate first (.send message.source) ++ List.replicate second (.send other),
    ?_, ?_⟩
  · intro move member
    rcases List.mem_append.mp member with own | others
    · exact ⟨_, List.eq_of_mem_replicate own⟩
    · exact ⟨_, List.eq_of_mem_replicate others⟩
  · rw [run_append, AppState.log, pushed', pushed, Mailbox.push_of_room _ spare,
      Mailbox.push_of_room _ (by omega), List.append_assoc]
    rfl

/-! ### Runs -/

/-- A client attached to a book two sources carry, at height 10. -/
def opening : List Move :=
  [.idle (.subscribe 1 1 (.l4Book "BTC")),
    .decide 2 (.l4Snapshot 0 "BTC" 10 "book 10"), .send 0, .send 0]

/-- The second source decides once the first one's call is done. -/
theorem showsDecisionOrder_of_alone_in_turn :
    (run step (start (AppState.new [{ id := 0 }, { id := 1 }])) (opening ++
      [.decide 3 (.l4Block 1 "BTC" 11 "block 11"), .send 1])).ShowsDecisionOrder
      (AppState.new [{ id := 0 }, { id := 1 }]) := by
  have quiet : ∀ source, (run step (start (AppState.new [{ id := 0 }, { id := 1 }]))
      opening).calls source = none := by
    intro source
    by_cases first : source = 0
    · subst first
      rfl
    · rw [calls_run_of_others _ opening]
      · rfl
      · have differs : (0 : Nat) ≠ source := fun same => first same.symm
        simp [opening, Move.caller, Message.l4Snapshot, differs]
  refine showsDecisionOrder_of_alone _ _ ⟨trivial, ?_, trivial, trivial, ?_, trivial, trivial⟩
  · intro e found accepts source call differs under
    cases under
  · intro e found accepts source call differs under
    exact absurd ((quiet source).symm.trans under) (Option.some_ne_none call).symm

/-- Two sources decide one after the other and send in the opposite order. -/
theorem later_decision_sent_first :
    ¬ ∀ (st : AppState Stamped) (moves : List Move) (client : Nat),
      Throughout step (fun fl _ => 0 < (fl.st.heap client).tx.room) (start st) moves →
      ∀ key, (((run step (start st) moves).entered st client).filter
        (·.message.key = key)).Pairwise fun earlier later => earlier.ticket ≤ later.ticket := by
  intro always
  have ordered := always (AppState.new [{ id := 0 }, { id := 1 }]) (opening ++
    [.decide 3 (.l4Block 0 "BTC" 11 "block 11"),
      .decide 4 (.l4Block 1 "BTC" 12 "block 12"), .send 1, .send 0]) 1
    (by decide) (.l4Book "BTC")
  exact absurd ordered (by decide)

end Floor

end Wsarb
