import Wsarb.State.Marks
import Wsarb.State.Writer
import Wsarb.Stream.Parking

/-!
Owns what enters an attached client's queue of its key when the queue is bounded and the
client's writer drains it meanwhile. The frame that finds the queue full is lost and the
hang-up raised, but the client stays attached until the hang-up takes effect: as soon as its
writer has made room, the next frame of the key enters behind the hole. The stream has no hole
exactly if, once a frame is lost, the queue is full again whenever one more goes out.

Does not own: how soon a hang-up takes effect.
-/

namespace Wsarb

open Wsarb.Library AppState

/-- The frames a client is to be sent by the operation that attaches it. -/
def AppState.backlogBy (st : Live) (client : Nat) : Op → List Message
  | .deliverSnapshot who fetched => st.offered client (.deliverSnapshot who fetched)
  | _ => []

/-- The frames of the key a run of moves forwards. -/
def AppState.forwardedAmid (key : SubKey) : Live → List Move → List Message
  | _, [] => []
  | st, move :: rest => st.forwardedBy key move.op ++ forwardedAmid key (st.perform move) rest

/-- The stream of a key to a client since it was attached: the frames it should have been sent,
and whether each entered its queue. -/
structure Tap where
  st : Live
  due : List (Message × Bool)

namespace Tap

/-- The stream right after the move that attached the client. -/
def opened (st : Live) (client : Nat) (move : Move) : Tap where
  st := st.perform move
  due := (st.heap client).tx.fates (st.backlogBy client move.op) move.pulls

/-- What a move forwards, with its fate: it enters the queue if there is room. -/
def forwards (key : SubKey) (client : Nat) (st : Live) (op : Op) : List (Message × Bool) :=
  (st.forwardedBy key op).map fun message => (message, decide (0 < (st.heap client).tx.room))

def step (key : SubKey) (client : Nat) (tap : Tap) (move : Move) : Tap where
  st := tap.st.perform move
  due := tap.due ++ forwards key client tap.st move.op

/-- If a frame was lost already, a frame that goes out finds the queue full. -/
def Full (key : SubKey) (client : Nat) (tap : Tap) (move : Move) : Prop :=
  Lossy tap.due → tap.st.forwardedBy key move.op ≠ [] → (tap.st.heap client).tx.room = 0

instance (key : SubKey) (client : Nat) (tap : Tap) (move : Move) :
    Decidable (Full key client tap move) :=
  inferInstanceAs (Decidable (_ → _ → _))

end Tap

variable {st : Live} {key : SubKey} {client : Nat} {move : Move}

/-! ### The books of a move -/

theorem AppState.attached_perform (st : Live) (move : Move) :
    (st.perform move).attached key client = (st.step move.op).attached key client := by
  rw [attached, attached, getEntry_of_books (st.books_perform move)]

theorem AppState.Settled.perform (settled : st.Settled client) (handed : st.Handed move.op) :
    (st.perform move).Settled client where
  seated := (settled.step handed).seated.of_books (st.books_perform move)
  tagged := (settled.step handed).tagged.of_books (st.books_perform move)
  old := by
    rw [nextClientId_of_books (st.books_perform move)]
    exact (settled.step handed).old

/-- A client that a move attaches was under way before it. -/
theorem AppState.settled_of_attaches (seated : st.Seated) (tagged : HeldTagged st)
    (handed : st.Handed move.op) (off : st.attached key client = false)
    (on : (st.perform move).attached key client = true) : st.Settled client := by
  rw [st.attached_perform] at on
  refine ⟨seated, tagged, ?_⟩
  obtain ⟨e, found, member⟩ := attached_iff.mp on
  have old := (seated_step seated move.op handed).old_of_stands found (Or.inl member)
  rw [nextClientId_step] at old
  cases op : move.op with
  | registerClient ip =>
      have same : (st.step (.registerClient ip)).attached key client =
          st.attached key client := rfl
      rw [op, same, off] at on
      cases on
  | _ =>
      rw [op] at old
      exact old

/-! ### What a move queues -/

/-- A snapshot delivered with the writer at work queues what the fates say. -/
theorem AppState.log_deliver (st : Live) (who : Nat) (fetched : Fetched)
    (pulls : List (List Mailbox.Pull)) :
    (st.perform ⟨.deliverSnapshot who fetched, pulls⟩).log client =
      st.log client ++ entered ((st.heap client).tx.fates
        (st.offered client (.deliverSnapshot who fetched)) pulls) := by
  show ((st.deliverSnapshotAmid _ who _ _ _ pulls).heap client).tx.accepted = _
  rw [tx_deliverSnapshotAmid, offered]
  split
  · next same =>
      subst same
      exact Mailbox.accepted_offerAmid _ _ _
  · exact (List.append_nil _).symm

/-- A move that carries neither a frame nor a snapshot queues nothing. -/
theorem AppState.Settled.logOf_of_silent (settled : st.Settled client)
    (silent : move.op.carries = none) :
    (st.perform move).logOf client key = st.logOf client key := by
  have nothing : st.offered client move.op = [] := by
    cases op : move.op with
    | onUpdate now message =>
        rw [op] at silent
        cases silent
    | deliverSnapshot who fetched =>
        rw [op] at silent
        cases silent
    | _ => rfl
  have plain : st.perform move = st.step move.op := by
    apply perform_of_other
    intro who fetched same
    rw [same] at silent
    cases silent
  rw [plain, settled.logOf_step, queued, nothing, List.take_nil, List.filter_nil, List.append_nil]

/-- An attached client is queued the frame that goes out, if there is room. -/
theorem AppState.Settled.logOf_onUpdate (settled : st.Settled client)
    (attached : st.attached key client = true) (now : Nat) (message : Message) :
    (st.step (.onUpdate now message)).logOf client key =
      st.logOf client key ++ entered (Tap.forwards key client st (.onUpdate now message)) := by
  by_cases room : 0 < (st.heap client).tx.room
  · have once : (st.offered client (.onUpdate now message)).length ≤ 1 := by
      rw [offered, List.length_replicate]
      apply List.nodup_iff_count_le_one.mp
      rw [recipients, SubEntry.update_recipients]
      split
      · exact (List.nodup_append.mp (settled.seated.used now message.key)).1
      · exact List.nodup_nil
    have roomy : Roomy client st (.onUpdate now message) := once.trans room
    rw [settled.attached_step attached roomy]
    simp only [Tap.forwards, room, decide_true, entered_of_kept]
  · have full : (st.heap client).tx.room = 0 := Nat.eq_zero_of_not_pos room
    rw [settled.logOf_step, queued, full, List.take_zero, List.filter_nil, Tap.forwards]
    simp only [room, decide_false, entered_of_lost]

/-- An attached client is queued of its key what goes out, as far as there is room. -/
theorem AppState.Settled.logOf_perform (settled : st.Settled client)
    (attached : st.attached key client = true) (move : Move) :
    (st.perform move).logOf client key =
      st.logOf client key ++ entered (Tap.forwards key client st move.op) := by
  obtain ⟨op, pulls⟩ := move
  cases op with
  | onUpdate now message => exact settled.logOf_onUpdate attached now message
  | deliverSnapshot who fetched =>
      rw [logOf, st.log_deliver, List.filter_append]
      apply congrArg (st.logOf client key ++ ·)
      apply List.filter_eq_nil_iff.mpr
      intro item enters own
      have offer := mem_of_mem_entered enters
      rw [Mailbox.map_fates] at offer
      exact settled.key_ne_of_offered attached offer (by simpa using own)
  | _ => exact (settled.logOf_of_silent rfl).trans (List.append_nil _).symm

/-- The move that attaches a client queues it its backlog, as far as there is room. -/
theorem AppState.Settled.logOf_opened (settled : st.Settled client)
    (off : st.attached key client = false) (on : (st.perform move).attached key client = true) :
    (st.perform move).logOf client key =
      st.logOf client key ++ entered (Tap.opened st client move).due := by
  obtain ⟨op, pulls⟩ := move
  rw [st.attached_perform] at on
  obtain ⟨e, found, member⟩ := attached_iff.mp on
  have absent : ∀ {before : SubEntry Message}, st.getEntry key = some before →
      client ∉ before.subscribers := by
    intro before entry listed
    rw [attached_iff.mpr ⟨before, entry, listed⟩] at off
    cases off
  cases op with
  | onUpdate now message =>
      cases becomes found with
      | kept entry apart => exact absurd member (absent entry)
      | left entry leaves stays => rcases leaves with other | other <;> cases other
      | heard routed =>
          rw [SubEntry.update_subscribers] at member
          cases entry : st.getEntry key with
          | none =>
              rw [entryOr_of_none entry] at member
              cases member
          | some before =>
              rw [entryOr_of_some entry] at member
              exact absurd member (absent entry)
  | deliverSnapshot who fetched =>
      cases becomes found with
      | kept entry apart => exact absurd member (absent entry)
      | left entry leaves stays => rcases leaves with other | other <;> cases other
      | rebuilt entry routed =>
          rw [logOf, st.log_deliver, List.filter_append]
          apply congrArg (st.logOf client key ++ ·)
          apply List.filter_eq_self.mpr
          intro item enters
          have offer := mem_of_mem_entered enters
          rw [Mailbox.map_fates] at offer
          exact decide_eq_true ((settled.key_of_offered offer).trans routed)
  | _ => exact (settled.logOf_of_silent rfl).trans (List.append_nil _).symm

/-! ### Holes -/

namespace Tap

/-- A move leaves no hole exactly if there was none and it meets the condition. -/
theorem unholed_step (tap : Tap) (move : Move) :
    Unholed (tap.step key client move).due ↔ Unholed tap.due ∧ Full key client tap move := by
  have nothing : entered (forwards key client tap.st move.op) = [] ↔
      (tap.st.forwardedBy key move.op ≠ [] → (tap.st.heap client).tx.room = 0) := by
    by_cases room : 0 < (tap.st.heap client).tx.room
    · have kept : ¬ (tap.st.heap client).tx.room = 0 := Nat.ne_of_gt room
      simp only [forwards, room, decide_true, entered_of_kept, kept, imp_false, not_not]
    · have full : (tap.st.heap client).tx.room = 0 := Nat.eq_zero_of_not_pos room
      simp only [forwards, full, Nat.lt_irrefl, decide_false, entered_of_lost, implies_true]
  have single : Unholed (forwards key client tap.st move.op) := by
    have atMost : tap.st.forwardedBy key move.op = [] ∨
        ∃ message, tap.st.forwardedBy key move.op = [message] := by
      cases move.op with
      | onUpdate now message =>
          rw [forwardedBy]
          split
          · exact Or.inr ⟨message, rfl⟩
          · exact Or.inl rfl
      | _ => exact Or.inl rfl
    rcases atMost with none | ⟨message, one⟩
    · rw [forwards, none]
      exact List.Pairwise.nil
    · rw [forwards, one]
      exact List.pairwise_singleton _ _
  show Unholed (tap.due ++ forwards key client tap.st move.op) ↔ _
  rw [unholed_append, nothing]
  exact and_congr_right' (and_iff_right single)

theorem unholed_run (tap : Tap) (moves : List Move) :
    Unholed (run (Tap.step key client) tap moves).due ↔
      Unholed tap.due ∧ Throughout (Tap.step key client) (Full key client) tap moves := by
  induction moves generalizing tap with
  | nil => exact (and_iff_left trivial).symm
  | cons move rest inductionHypothesis =>
      rw [run_cons, inductionHypothesis, throughout_cons, unholed_step, and_assoc]

theorem st_run (tap : Tap) (moves : List Move) :
    (run (Tap.step key client) tap moves).st = run perform tap.st moves := by
  induction moves generalizing tap with
  | nil => rfl
  | cons move rest inductionHypothesis => exact inductionHypothesis (tap.step key client move)

theorem map_due_run (tap : Tap) (moves : List Move) :
    (run (Tap.step key client) tap moves).due.map (·.1) =
      tap.due.map (·.1) ++ forwardedAmid key tap.st moves := by
  induction moves generalizing tap with
  | nil => exact (List.append_nil _).symm
  | cons move rest inductionHypothesis =>
      have own : (forwards key client tap.st move.op).map (·.1) =
          tap.st.forwardedBy key move.op := by
        rw [forwards, List.map_map]
        exact List.map_id _
      rw [run_cons, inductionHypothesis]
      show (tap.due ++ forwards key client tap.st move.op).map (·.1) ++ _ = _
      rw [List.map_append, own, List.append_assoc]
      rfl

/-- What enters an attached client's queue of its key over a run is what the stream says. -/
theorem logOf_run (tap : Tap) (settled : tap.st.Settled client) (moves : List Move)
    (handed : Throughout perform (fun st move => st.Handed move.op) tap.st moves)
    (attached : Always perform (fun st => st.attached key client = true) tap.st moves)
    {old : List Message} (log : tap.st.logOf client key = old ++ entered tap.due) :
    (run perform tap.st moves).logOf client key =
      old ++ entered (run (Tap.step key client) tap moves).due := by
  induction moves generalizing tap with
  | nil => exact log
  | cons move rest inductionHypothesis =>
      apply inductionHypothesis (tap.step key client move) (settled.perform handed.1) handed.2
        attached.2
      show (tap.st.perform move).logOf client key =
        old ++ entered (tap.due ++ forwards key client tap.st move.op)
      rw [settled.logOf_perform attached.first, log, entered_append, List.append_assoc]

/-! ### A writer that stops -/

/-- After a loss the client's writer takes no more frames. -/
def Stopped (client : Nat) (tap : Tap) (move : Move) : Prop :=
  Lossy tap.due → move.op ≠ .receive client ∧ ∀ each ∈ move.pulls, .receive ∉ each

/-- A full queue nobody takes from stays full. -/
theorem full_perform {move : Move} (old : ¬ st.Registers client move.op)
    (full : (st.heap client).tx.room = 0) (other : move.op ≠ .receive client)
    (idle : ∀ each ∈ move.pulls, .receive ∉ each) :
    ((st.perform move).heap client).tx.room = 0 := by
  obtain ⟨op, pulls⟩ := move
  cases op with
  | registerClient ip =>
      have differs : client ≠ st.nextClientId := fun same => old ⟨⟨ip, rfl⟩, same⟩
      show (Function.update st.heap st.nextClientId (Client.new ip) client).tx.room = 0
      rwa [Function.update_of_ne differs]
  | subscribe now who key =>
      show (((st.subscribe now who key).1).heap client).tx.room = 0
      rwa [tx_subscribe]
  | pin now key =>
      show ((st.pin now key).heap client).tx.room = 0
      rwa [heap_pin]
  | unsubscribe who key =>
      show (((st.unsubscribe who key).1).heap client).tx.room = 0
      rwa [tx_unsubscribe]
  | onUpdate now message =>
      show ((st.onUpdate ..).heap client).tx.room = 0
      rwa [tx_onUpdate, Mailbox.offer_of_full _ full]
  | deliverSnapshot who fetched =>
      show ((st.deliverSnapshotAmid ..).heap client).tx.room = 0
      rw [tx_deliverSnapshotAmid]
      split
      · next same => exact Mailbox.full_offerAmid (same ▸ full) _ idle
      · exact full
  | failPending key who =>
      show ((st.failPending key who).heap client).tx.room = 0
      rwa [tx_failPending]
  | resyncAfterSourceLoss source => exact full
  | cleanupClient who =>
      show ((st.cleanupClient who).heap client).tx.room = 0
      rwa [tx_cleanupClient]
  | receive who =>
      have differs : client ≠ who := fun same => other (congrArg Op.receive same.symm)
      show ((st.modifyClient who fun c => { c with tx := c.tx.receive }).heap client).tx.room = 0
      rwa [heap_modifyClient, if_neg differs]
  | close who =>
      show ((st.modifyClient who fun c => { c with tx := c.tx.close }).heap client).tx.room = 0
      rw [heap_modifyClient]
      split
      · rfl
      · exact full

/-- A frame that is lost leaves the queue full. -/
theorem full_of_lost {op : Op} {pulls : List (List Mailbox.Pull)}
    (lossy : Lossy (forwards key client st op)) :
    ((st.perform ⟨op, pulls⟩).heap client).tx.room = 0 := by
  obtain ⟨lost, member, gone⟩ := lossy
  obtain ⟨message, forwarded, rfl⟩ := List.mem_map.mp member
  have full : (st.heap client).tx.room = 0 := by simpa using gone
  cases op with
  | onUpdate now message =>
      show ((st.onUpdate ..).heap client).tx.room = 0
      rw [tx_onUpdate, Mailbox.offer_of_full _ full, full]
  | _ => cases forwarded

/-- A backlog that does not fit leaves the queue full. -/
theorem full_of_opened (lossy : Lossy (opened st client move).due) :
    ((opened st client move).st.heap client).tx.room = 0 := by
  obtain ⟨op, pulls⟩ := move
  cases op with
  | deliverSnapshot who fetched =>
      by_cases same : client = who
      · subst same
        replace lossy : Lossy ((st.heap client).tx.fates
            (st.offered client (.deliverSnapshot client fetched)) pulls) := lossy
        rw [offered, if_pos rfl] at lossy
        show ((st.deliverSnapshotAmid ..).heap client).tx.room = 0
        rw [tx_deliverSnapshotAmid, if_pos rfl]
        exact Mailbox.full_of_lossy lossy
      · obtain ⟨item, member, -⟩ := lossy
        replace member : item ∈ (st.heap client).tx.fates
            (st.offered client (.deliverSnapshot who fetched)) pulls := member
        rw [offered, if_neg same] at member
        cases member
  | _ =>
      obtain ⟨item, member, -⟩ := lossy
      cases member

/-- If the writer takes nothing after a loss, the queue stays full and the stream has no hole. -/
theorem full_of_stopped (tap : Tap) (settled : tap.st.Settled client) (moves : List Move)
    (handed : Throughout perform (fun st move => st.Handed move.op) tap.st moves)
    (lost : Lossy tap.due → (tap.st.heap client).tx.room = 0)
    (stopped : Throughout (Tap.step key client) (Stopped client) tap moves) :
    Throughout (Tap.step key client) (Full key client) tap moves := by
  induction moves generalizing tap with
  | nil => trivial
  | cons move rest inductionHypothesis =>
      refine ⟨fun lossy _ => lost lossy, ?_⟩
      apply inductionHypothesis _ (settled.perform handed.1) handed.2 _ stopped.2
      intro lossy
      obtain ⟨item, member, gone⟩ := lossy
      rcases List.mem_append.mp member with before | now
      · have already : Lossy tap.due := ⟨item, before, gone⟩
        obtain ⟨other, idle⟩ := stopped.1 already
        exact full_perform (settled.not_registers move.op) (lost already) other idle
      · exact full_of_lost ⟨item, now, gone⟩

end Tap

/-! ### Whole runs -/

/-- The books of every run are in order. -/
theorem AppState.seated_run (sources : List Source) (moves : List Move)
    (handed : Throughout perform (fun st move => st.Handed move.op) (AppState.new sources) moves) :
    (run perform (AppState.new sources) moves).Seated ∧
      HeldTagged (run perform (AppState.new sources) moves) := by
  have keeps : ∀ (st : Live) (move : Move), st.Seated ∧ HeldTagged st → st.Handed move.op →
      (st.perform move).Seated ∧ HeldTagged (st.perform move) := by
    intro st move books handed
    exact ⟨(seated_step books.1 move.op handed).of_books (st.books_perform move),
      (heldTagged_step books.2 move.op).of_books (st.books_perform move)⟩
  exact run_keeps keeps moves ⟨seated_new sources, heldTagged_new sources⟩ handed

/-- From any run, a move that attaches a client to a key, and moves throughout which it stays
attached, its writer at work anywhere. What enters its queue of the key is what the stream says of
the frames it should have been sent: its backlog, then the frames forwarded. It is a prefix of
them, nothing entering after a loss, if and only if, once a frame is lost, the queue is full again
whenever one more goes out; it is, for instance, if the writer takes nothing after a loss. -/
theorem unholed_iff_full (key : SubKey) (sources : List Source) (before after : List Move)
    (attaching : Move) (client : Nat)
    (handed : Throughout perform (fun st move => st.Handed move.op) (AppState.new sources)
      (before ++ attaching :: after))
    (off : (run perform (AppState.new sources) before).attached key client = false)
    (on : Always perform (fun st => st.attached key client = true)
      ((run perform (AppState.new sources) before).perform attaching) after) :
    let st := run perform (AppState.new sources) before
    let opened := Tap.opened st client attaching
    let tap := run (Tap.step key client) opened after
    tap.due.map (·.1) =
        st.backlogBy client attaching.op ++ forwardedAmid key (st.perform attaching) after ∧
      (run perform (st.perform attaching) after).logOf client key =
        st.logOf client key ++ entered tap.due ∧
      (Unholed tap.due → entered tap.due <+: tap.due.map (·.1)) ∧
      (Unholed tap.due ↔ Throughout (Tap.step key client) (Tap.Full key client) opened after) ∧
      (Throughout (Tap.step key client) (Tap.Stopped client) opened after → Unholed tap.due) := by
  intro st opened tap
  obtain ⟨handedBefore, handedFirst, handedAfter⟩ := (throughout_append _ _ _ _ _).mp handed
  obtain ⟨seated, tagged⟩ := seated_run sources before handedBefore
  have settled := settled_of_attaches seated tagged handedFirst off on.first
  have whole : Unholed opened.due := Mailbox.unholed_fates _ _ _
  have unholed : Unholed tap.due ↔
      Throughout (Tap.step key client) (Tap.Full key client) opened after := by
    rw [Tap.unholed_run]
    exact and_iff_right whole
  refine ⟨?_, ?_, Unholed.entered_prefix, unholed, fun stopped => unholed.mpr ?_⟩
  · rw [Tap.map_due_run]
    apply congrArg (· ++ _)
    exact Mailbox.map_fates _ _ _
  · exact Tap.logOf_run opened (settled.perform handedFirst) after handedAfter on
      (settled.logOf_opened off on.first)
  · exact Tap.full_of_stopped opened (settled.perform handedFirst) after handedAfter
      Tap.full_of_opened stopped

/-- Client 2 is parked at height 10 behind client 1, and block 11 is held for it. -/
def waitsAtTen : List Move :=
  [{ op := .registerClient "a" }, { op := .registerClient "b" },
    { op := .subscribe 1 1 (.l4Book "BTC") },
    { op := .onUpdate 2 (.l4Snapshot 0 "BTC" 10 "book 10") },
    { op := .subscribe 3 2 (.l4Book "BTC") },
    { op := .onUpdate 4 (.l4Block 0 "BTC" 11 "block 11") }]

/-- Once it is released, its writer gives up after block 12, and two more blocks go out. -/
def givesUp : List Move :=
  [{ op := .onUpdate 5 (.l4Block 0 "BTC" 12 "block 12") }, { op := .close 2 },
    { op := .onUpdate 6 (.l4Block 0 "BTC" 13 "block 13") },
    { op := .onUpdate 7 (.l4Block 0 "BTC" 14 "block 14") }]

/-- Its writer at work while it is released, and the two blocks lost with nothing behind them. -/
theorem unholed_iff_full_gives_up :
    let released : Move :=
      { op := .deliverSnapshot 2 ⟨1, .l4Book "BTC", 10, "book 10", rfl⟩
        pulls := [[], [.receive]] }
    let tap := run (Tap.step (.l4Book "BTC") 2)
      (Tap.opened (run perform (AppState.new [{ id := 0 }, { id := 1 }]) waitsAtTen) 2 released)
      givesUp
    tap.due.map (·.2) = [true, true, true, false, false] ∧ Unholed tap.due :=
  ⟨by decide, (unholed_iff_full (.l4Book "BTC") [{ id := 0 }, { id := 1 }] waitsAtTen givesUp
    _ 2 (by decide) (by decide) (by decide)).2.2.2.1.mpr (by decide)⟩

/-! ### A hole -/

/-- Block `n` of the stream, from source 0. -/
def frame (n : Nat) : Message := .l4Block 0 "BTC" n "x"

def block (n : Nat) : Move := { op := .onUpdate n (frame n) }

/-- Client 1 is attached to the stream, which stands at block `n`; its writer has taken nothing of
the `n` frames sent so far. -/
structure Filling (n : Nat) (st : Live) : Prop where
  entry : ∃ e, st.getEntry (.l4Book "BTC") = some e ∧ e.last = n ∧ e.writtenOff 0 = false ∧
    e.subscribers = [1]
  opened : (st.heap 1).tx.closed = false
  holds : (st.heap 1).tx.capacity = clientQueue
  untaken : (st.heap 1).tx.taken = 0
  filled : (st.heap 1).tx.accepted.length = min n clientQueue

namespace Filling

variable {n : Nat}

theorem room (filling : Filling n st) : (st.heap 1).tx.room = clientQueue - min n clientQueue := by
  rw [Mailbox.room, filling.opened, filling.holds, filling.untaken, filling.filled, Nat.zero_add]
  rfl

theorem forwards (filling : Filling n st) :
    st.forwardedBy (.l4Book "BTC") (block (n + 1)).op = [frame (n + 1)] := by
  obtain ⟨e, found, last, inPlay, -⟩ := filling.entry
  apply forwardedBy_onUpdate_iff.mpr
  refine ⟨rfl, ?_⟩
  rw [entryOr_of_some found]
  exact ⟨inPlay, Or.inl (last ▸ Nat.lt_succ_self n)⟩

/-- The next block is sent too, and enters the queue if there is room. -/
theorem next (filling : Filling n st) : Filling (n + 1) (st.perform (block (n + 1))) := by
  have room := filling.room
  have filled := filling.filled
  obtain ⟨e, found, last, inPlay, alone⟩ := filling.entry
  have used : st.entryOr (n + 1) (frame (n + 1)).key = e := entryOr_of_some found _
  have accepts : e.Accepts (frame (n + 1)).key (frame (n + 1)).source (frame (n + 1)).seq :=
    ⟨inPlay, Or.inl (last ▸ Nat.lt_succ_self n)⟩
  have tx : ((st.perform (block (n + 1))).heap 1).tx = (st.heap 1).tx.push (frame (n + 1)) := by
    show ((st.onUpdate (n + 1) (frame (n + 1)).source (frame (n + 1)).key (frame (n + 1)).seq
      (frame (n + 1))).heap 1).tx = _
    rw [tx_onUpdate, recipients, used, SubEntry.update_recipients, if_pos accepts, alone]
    rfl
  have entry : (st.perform (block (n + 1))).getEntry (frame (n + 1)).key = some (e.update
      (frame (n + 1)).key (n + 1) (frame (n + 1)).source (frame (n + 1)).seq
      (frame (n + 1))).1 := by
    show (st.onUpdate (n + 1) (frame (n + 1)).source (frame (n + 1)).key (frame (n + 1)).seq
      (frame (n + 1))).getEntry _ = _
    rw [getEntry_onUpdate, if_pos rfl, used]
  refine ⟨⟨_, entry, ?_, ?_, ?_⟩, ?_, ?_, ?_, ?_⟩
  · rw [SubEntry.update_last, if_pos accepts]
    rfl
  · rw [SubEntry.writtenOff_update, inPlay, Bool.false_and]
  · rw [SubEntry.update_subscribers, alone]
  · rw [tx, Mailbox.closed_push, filling.opened]
  · rw [tx, Mailbox.capacity_push, filling.holds]
  · rw [tx, Mailbox.taken_push, filling.untaken]
  · rw [tx, Mailbox.accepted_push, List.length_append, List.length_take, List.length_singleton,
      room, filled]
    omega

theorem run_blocks (filling : Filling n st) (count : Nat) :
    Filling (n + count) (run perform st ((List.range' (n + 1) count).map block)) := by
  induction count generalizing n st with
  | zero => exact filling
  | succ count inductionHypothesis =>
      have further := inductionHypothesis filling.next
      rw [Nat.add_right_comm] at further
      exact further

end Filling

/-- Client 1 subscribes as the first on the stream of one source. -/
def listening : Live :=
  run perform (AppState.new [{ id := 0 }]) [{ op := .registerClient "a" }]

/-- The moves after that: a snapshot, `count` more frames, one more, then the writer takes one
frame, and the next goes out. -/
def flood (count : Nat) : List Move :=
  { op := .onUpdate 1 (.l4Snapshot 0 "BTC" 1 "book") } ::
    ((List.range' 2 count).map block ++
      [block (1 + count + 1), { op := .receive 1 }, block (1 + count + 2)])

/-- The snapshot is the first of the frames the queue fills up with. -/
theorem filling_opened :
    Filling 1 ((listening.perform { op := .subscribe 0 1 (.l4Book "BTC") }).perform
      { op := .onUpdate 1 (.l4Snapshot 0 "BTC" 1 "book") }) where
  entry := ⟨_, rfl, by decide, by decide, by decide⟩
  opened := by decide
  holds := by decide
  untaken := by decide
  filled := by decide

/-- A queue that is full by then lets the last frame in behind the one it lost. -/
theorem flood_holed (count : Nat) (full : clientQueue ≤ 1 + count) :
    ¬ Unholed (run (Tap.step (.l4Book "BTC") 1)
      (Tap.opened listening 1 { op := .subscribe 0 1 (.l4Book "BTC") }) (flood count)).due := by
  intro unholed
  obtain ⟨-, -, meets⟩ := (Tap.unholed_run _ _).mp unholed
  obtain ⟨-, -, -, last, -⟩ := (throughout_append _ _ _ _ _).mp meets
  generalize stands : run (Tap.step (.l4Book "BTC") 1) _ ((List.range' 2 count).map block) = tap
    at last
  have filling : Filling (1 + count) tap.st := by
    rw [← stands, Tap.st_run]
    exact filling_opened.run_blocks count
  have next := filling.next
  have room : (tap.st.heap 1).tx.room = 0 := by
    rw [filling.room]
    omega
  have lossy : Lossy (((tap.step (.l4Book "BTC") 1 (block (1 + count + 1))).step (.l4Book "BTC") 1
      { op := .receive 1 }).due) := by
    refine ⟨(frame (1 + count + 1), false), ?_, rfl⟩
    apply List.mem_append_left
    apply List.mem_append_right
    rw [Tap.forwards, filling.forwards, room]
    exact List.mem_singleton.mpr rfl
  have goesOut := next.forwards
  have again : 0 < (((tap.st.perform (block (1 + count + 1))).perform
      { op := .receive 1 }).heap 1).tx.room := by
    show 0 < ((AppState.modifyClient _ 1 fun c => { c with tx := c.tx.receive }).heap 1).tx.room
    rw [heap_modifyClient, if_pos rfl]
    exact Mailbox.room_receive next.opened (next.holds ▸ by decide)
  apply Nat.ne_of_gt again
  apply last lossy
  intro silent
  replace silent : (tap.st.perform (block (1 + count + 1))).forwardedBy (.l4Book "BTC")
      (block (1 + count + 2)).op = [] := silent
  rw [goesOut] at silent
  cases silent

/-- Nothing in the flood but frames and one read. -/
theorem op_of_flood {count : Nat} {move : Move} (member : move ∈ flood count) :
    (∃ now message, move.op = .onUpdate now message) ∨ move.op = .receive 1 := by
  rcases List.mem_cons.mp member with rfl | later
  · exact Or.inl ⟨_, _, rfl⟩
  · rcases List.mem_append.mp later with blocks | last
    · obtain ⟨n, -, rfl⟩ := List.mem_map.mp blocks
      exact Or.inl ⟨_, _, rfl⟩
    · simp only [List.mem_cons, List.not_mem_nil, or_false] at last
      rcases last with rfl | rfl | rfl
      · exact Or.inl ⟨_, _, rfl⟩
      · exact Or.inr rfl
      · exact Or.inl ⟨_, _, rfl⟩

/-- A client attached from the start is sent as many frames as its queue holds and one more, which
is lost; its writer takes one frame off, and the frame after the lost one enters. -/
theorem not_unholed :
    ¬ ∀ (key : SubKey) (sources : List Source) (before after : List Move) (attaching : Move)
        (client : Nat), key.isIncremental = true →
      Throughout perform (fun st move => st.Handed move.op) (AppState.new sources)
          (before ++ attaching :: after) →
        (run perform (AppState.new sources) before).attached key client = false →
        Always perform (fun st => st.attached key client = true)
            ((run perform (AppState.new sources) before).perform attaching) after →
          Unholed (run (Tap.step key client)
            (Tap.opened (run perform (AppState.new sources) before) client attaching)
            after).due := by
  intro always
  refine flood_holed clientQueue (Nat.le_add_left _ _) (always (.l4Book "BTC") [{ id := 0 }]
    [{ op := .registerClient "a" }] (flood clientQueue) { op := .subscribe 0 1 (.l4Book "BTC") } 1
    rfl ?_ (by decide) ?_)
  · refine ⟨trivial, by decide, ?_⟩
    apply throughout_of_forall
    intro move member st
    rcases op_of_flood member with ⟨now, message, op⟩ | op
    · rw [op]
      trivial
    · rw [op]
      trivial
  · have stands : ∀ (st : Live) (move : Move), st.attached (.l4Book "BTC") 1 = true →
        (∃ now message, move.op = .onUpdate now message) ∨ move.op = .receive 1 →
          (st.perform move).attached (.l4Book "BTC") 1 = true := by
      intro st move attached plain
      obtain ⟨e, found, member⟩ := attached_iff.mp attached
      have remains : Remains (.l4Book "BTC") 1 e move.op := by
        rcases plain with ⟨now, message, op⟩ | op
        · rw [op]
          trivial
        · rw [op]
          trivial
      rw [st.attached_perform, attached_iff]
      exact stays found member remains
    exact always_of_keeps stands (flood clientQueue) (by decide)
      (throughout_of_forall _ fun move member _ => op_of_flood member)

end Wsarb
