import Wsarb.State.Marks
import Wsarb.State.Waiting

/-!
Owns how long a source that was lost while leading an incremental key stays out: its mark lives
as long as the entry does, until a snapshot of its own, and keeps its blocks out, while a sticky
frame of its own is let in whenever nobody leads. Owns that nobody else is kept out by the mark.

Does not own: sources that share a bit.
-/

namespace Wsarb

open Wsarb.Library AppState

/-- The data an operation brings in, or the loss it reports, is of one of the first `n`
sources. -/
def Op.Within (n : Nat) : Op → Prop
  | .onUpdate _ message => message.source < n
  | .deliverSnapshot _ fetched => fetched.source < n
  | .resyncAfterSourceLoss source => source < n
  | _ => True

/-- The operation brings in a snapshot of the source on the key. -/
def Op.Pardons (key : SubKey) (source : Nat) : Op → Prop
  | .onUpdate _ message =>
      message.key = key ∧ message.source = source ∧ message.seq.isSnapshot = true
  | _ => False

/-- The operation brings in anything else of the source on the key: on an incremental key, an
increment. -/
def Op.Increments (key : SubKey) (source : Nat) : Op → Prop
  | .onUpdate _ message =>
      message.key = key ∧ message.source = source ∧ message.seq.isSnapshot = false
  | _ => False

def SubEntry.pardoned (e : SubEntry Message) (source : Nat) : SubEntry Message :=
  { e with needsSnapshot := e.needsSnapshot &&& ~~~ sourceBit source }

/-- Every other source is treated as it would be if this one were in play: its frames go out all
the same, and leave the same entry, the marks apart. -/
def SubEntry.Spares (n : Nat) (key : SubKey) (source : Nat) (e : SubEntry Message) : Prop :=
  ∀ other < n, other ≠ source → ∀ (now : Nat) (seq : Seq) (message : Message),
    (e.Accepts key other seq ↔ (e.pardoned source).Accepts key other seq) ∧
      (e.update key now other seq message).1.unmarked =
        ((e.pardoned source).update key now other seq message).1.unmarked

namespace AppState

def Marked (st : Live) (key : SubKey) (source : Nat) : Prop :=
  ∃ e, st.getEntry key = some e ∧ e.writtenOff source = true

def Leads (st : Live) (key : SubKey) (source : Nat) : Prop :=
  (st.getEntry key).bind (·.leader) = some source

instance (st : Live) (key : SubKey) (source : Nat) : Decidable (st.Leads key source) :=
  inferInstanceAs (Decidable (_ = _))

def NobodyMarked (key : SubKey) (st : Live) : Prop :=
  ∀ e, st.getEntry key = some e → ∀ id, e.writtenOff id = false

/-- The operation leaves the key its entry: a client that leaves is not the last on it. -/
def KeepsEntry (key : SubKey) (st : Live) : Op → Prop
  | .unsubscribe client left =>
      left = key ∧ key ∈ st.subscriptions client →
        (st.getEntry key).all (fun e => !abandoned (without e client)) = true
  | .cleanupClient client =>
      key ∈ st.subscriptions client →
        (st.getEntry key).all (fun e => !abandoned (without e client)) = true
  | _ => True

/-- A sticky frame of the source on the key comes in only while another source leads it, or
behind what the source itself has led it to. -/
def ShutOut (key : SubKey) (source : Nat) (st : Live) : Op → Prop
  | .onUpdate _ message =>
      message.key = key → message.source = source → message.seq = .sticky message.seq.stamp →
        ∃ e leader, st.getEntry key = some e ∧ e.blockLeader = some leader ∧
          (leader = source → message.seq.stamp < e.last)
  | _ => True

/-- An increment of the source on the key goes out to nobody and leaves the entry as it was: its
height, its leader and what it holds for the parked. -/
def Ignores (key : SubKey) (source : Nat) (st : Live) (op : Op) : Prop :=
  op.Increments key source →
    st.forwardedBy key op = [] ∧ (∀ client, st.queued client op = []) ∧
      (st.step op).getEntry key = st.getEntry key

end AppState

variable {n : Nat} {st : Live} {key : SubKey} {source : Nat} {op : Op}

/-! ### The mark -/

theorem isSome_detached {client : Nat} {old : Option (SubEntry Message)}
    (there : old.isSome = true)
    (others : old.all (fun e => !abandoned (without e client)) = true) :
    (detached client old).isSome = true := by
  cases old with
  | none => cases there
  | some e =>
      have stays : leave e client = (without e client, false) := by
        rw [leave, if_neg]
        simpa using others
      simp [detached, stays]

/-- An operation that leaves the key its entry leaves it there. -/
theorem isSome_step (there : (st.getEntry key).isSome = true) (keeps : st.KeepsEntry key op) :
    ((st.step op).getEntry key).isSome = true := by
  rw [getEntry_step]
  cases op with
  | unsubscribe client left =>
      rw [entryAfter]
      split
      · next leaves => exact isSome_detached there (keeps leaves)
      · exact there
  | cleanupClient client =>
      rw [entryAfter]
      split
      · next leaves => exact isSome_detached there (keeps leaves)
      · exact there
  | deliverSnapshot client fetched =>
      rw [entryAfter]
      split
      · rwa [Option.isSome_map]
      · exact there
  | failPending failed client =>
      rw [entryAfter]
      split
      · rwa [Option.isSome_map]
      · exact there
  | resyncAfterSourceLoss source => rwa [entryAfter, Option.isSome_map]
  | subscribe now client subscribed =>
      rw [entryAfter]
      split
      · rfl
      · exact there
  | pin now pinned =>
      rw [entryAfter]
      split
      · rfl
      · exact there
  | onUpdate now message =>
      rw [entryAfter]
      split
      · rfl
      · exact there
  | registerClient ip => exact there
  | receive client => exact there
  | close client => exact there

/-- The mark stays on the entry until a snapshot of the source itself. -/
theorem AppState.Marked.step (marked : st.Marked key source) (known : source < n) (few : n < 64)
    (within : op.Within n) (waits : ¬ op.Pardons key source) (keeps : st.KeepsEntry key op) :
    (st.step op).Marked key source := by
  obtain ⟨e, before, off⟩ := marked
  obtain ⟨after, found⟩ :=
    Option.isSome_iff_exists.mp (isSome_step (before ▸ rfl) keeps)
  have used (now : Nat) : st.entryOr now key = e := entryOr_of_some before now
  have same {other : SubEntry Message} (there : st.getEntry key = some other) : other = e :=
    Option.some.inj (there.symm.trans before)
  refine ⟨after, found, ?_⟩
  cases becomes found with
  | kept there apart => rwa [same there]
  | subscribed absent =>
      rwa [used, SubEntry.writtenOff_congr e source (attach_counters e key _).2.2]
  | pinned => rwa [used]
  | left there leaves stays =>
      rw [same there]
      exact off
  | @heard now message routed =>
      rw [used, SubEntry.writtenOff_update, off, Bool.true_and, Bool.not_eq_true',
        Bool.and_eq_false_iff]
      by_cases own : message.source = source
      · left
        rw [← Bool.not_eq_true]
        exact fun snapshot => waits ⟨routed, own, snapshot⟩
      · right
        have other : message.source < n := within
        rw [decide_eq_false_iff_not, Nat.mod_eq_of_lt (Nat.lt_trans known few),
          Nat.mod_eq_of_lt (Nat.lt_trans other few)]
        exact fun shared => own shared.symm
  | rebuilt there routed =>
      rwa [same there,
        SubEntry.writtenOff_congr e source (rebuild_arbitration _ _ _ _ _ _).2.2.2.1]
  | gaveUp there =>
      rw [same there]
      exact off
  | lost there =>
      rw [same there, SubEntry.writtenOff_loseSource, off, Bool.true_or]

/-- The loss of the leader of an incremental key marks it there. -/
theorem marked_of_lost (leads : st.Leads key source) (incremental : key.isIncremental = true) :
    (st.step (.resyncAfterSourceLoss source)).Marked key source := by
  obtain ⟨e, before, leader⟩ := Option.bind_eq_some_iff.mp leads
  refine ⟨(e.loseSource source key).1, ?_, ?_⟩
  · rw [getEntry_step, entryAfter, before, Option.map_some]
  · have leader : e.blockLeader = some source := leader
    rw [SubEntry.writtenOff_loseSource]
    simp [leader, incremental]

/-! ### What the mark keeps out -/

/-- On an incremental key a frame is a snapshot, a block or a sticky one. -/
theorem seq_of_incremental (incremental : key.isIncremental = true) {message : Message}
    (routed : message.key = key) (increment : message.seq.isSnapshot = false) :
    message.seq = .block message.seq.stamp ∨ message.seq = .sticky message.seq.stamp := by
  have admitted := message.admitted
  rw [routed] at admitted
  cases key <;> cases seq : message.seq <;>
    simp_all [SubKey.isIncremental, SubKey.admits, Seq.isSnapshot, Seq.stamp]

/-- A frame the entry refuses and is not changed by is ignored. -/
theorem ignored_of_refuses {now : Nat} {message : Message} {e : SubEntry Message}
    (found : st.getEntry key = some e) (routed : message.key = key)
    (refuses : ¬ e.Accepts key message.source message.seq)
    (kept : (e.update key now message.source message.seq message).1 = e) :
    st.Ignores key source (.onUpdate now message) := by
  subst routed
  intro _
  refine ⟨if_neg fun both => refuses ?_, queued_onUpdate_of_refuses found refuses, ?_⟩
  · rw [← entryOr_of_some found now]
    exact both.2
  · rw [getEntry_step, entryAfter, if_pos rfl, entryOr_of_some found, kept, found]

/-- A sticky frame the entry refuses leaves it as it was. -/
theorem update_of_refused_sticky {e : SubEntry Message} {src v now : Nat} {message : Message}
    (refuses : ¬ e.Accepts key src (.sticky v)) :
    (e.update key now src (.sticky v) message).1 = e := by
  rw [SubEntry.update_entry, if_neg refuses]
  simp only [SubEntry.Accepts, not_or, not_and, Nat.not_le] at refuses
  obtain ⟨led, behind⟩ := refuses
  obtain ⟨leader, leads⟩ := Option.ne_none_iff_exists'.mp led
  rw [SubEntry.arbitrate, SubEntry.arbitrateSticky, leads]
  by_cases own : leader = src
  · have older : ¬ e.last ≤ v := Nat.not_le.mpr (behind (by rw [leads, own]))
    simp only [own, if_true, older, if_false]
  · simp only [own, if_false]

/-- While the source is written off, its increment is ignored exactly when it is not a sticky
frame let in for want of a leader. -/
theorem ignores_iff_shutOut (marked : st.Marked key source)
    (incremental : key.isIncremental = true) :
    st.Ignores key source op ↔ st.ShutOut key source op := by
  obtain ⟨e, found, off⟩ := marked
  cases op with
  | onUpdate now message =>
      constructor
      · intro ignores routed own sticky
        have silent := (ignores ⟨routed, own, by rw [sticky]; rfl⟩).1
        have refuses : ¬ e.Accepts key source message.seq := by
          intro accepts
          have goesOut : st.forwardedBy key (.onUpdate now message) = [message] := by
            rw [forwardedBy_onUpdate_iff, entryOr_of_some found, own]
            exact ⟨routed, accepts⟩
          exact List.cons_ne_nil _ _ (goesOut.symm.trans silent)
        rw [sticky] at refuses
        simp only [SubEntry.Accepts, not_or, not_and, Nat.not_le] at refuses
        obtain ⟨leader, leads⟩ := Option.ne_none_iff_exists'.mp refuses.1
        exact ⟨e, leader, found, leads, fun same => refuses.2 (same ▸ leads)⟩
      · intro shut increments
        obtain ⟨routed, own, increment⟩ := increments
        have untouched : (e.update key now message.source message.seq message).1 = e ∧
            ¬ e.Accepts key message.source message.seq := by
          rw [own]
          rcases seq_of_incremental incremental routed increment with block | sticky
          · rw [block]
            exact update_of_barred e key now source _ message off
          · obtain ⟨led, leader, found', leads, behind⟩ := shut routed own sticky
            obtain rfl := Option.some.inj (found'.symm.trans found)
            have refuses : ¬ led.Accepts key source (.sticky message.seq.stamp) := by
              simp only [SubEntry.Accepts, leads, not_or, not_and, Nat.not_le]
              exact ⟨Option.some_ne_none leader, fun same => behind (Option.some.inj same)⟩
            rw [sticky]
            exact ⟨update_of_refused_sticky refuses, refuses⟩
        exact ignored_of_refuses found routed untouched.2 untouched.1 ⟨routed, own, increment⟩
  | _ => exact iff_of_true (fun increments => absurd increments not_false) trivial

/-! ### Nobody else -/

/-- The mark of one source keeps out no other. -/
theorem spares (e : SubEntry Message) (few : n < 64) (known : source < n) :
    e.Spares n key source := by
  intro other listed apart now seq message
  have mark : e.writtenOff other = (e.pardoned source).writtenOff other := by
    have cleared := SubEntry.writtenOff_pardoned e source other
    have separate : other % 64 ≠ source % 64 := by
      rwa [Nat.mod_eq_of_lt (Nat.lt_trans listed few), Nat.mod_eq_of_lt (Nat.lt_trans known few)]
    rw [SubEntry.pardoned, cleared, decide_eq_true separate, Bool.and_true]
  have rest : e.unmarked = (e.pardoned source).unmarked := rfl
  exact update_alike rest mark key now seq message

/-- On a key that is not incremental no operation writes anybody off. -/
theorem AppState.NobodyMarked.step (clear : st.NobodyMarked key)
    (whole : key.isIncremental = false) : (st.step op).NobodyMarked key := by
  intro e found id
  have used (now : Nat) : (st.entryOr now key).writtenOff id = false :=
    entryOr_of (fun now => SubEntry.writtenOff_new id now) (fun e there => clear e there id) now
  cases becomes found with
  | kept before apart => exact clear e before id
  | subscribed absent =>
      rw [SubEntry.writtenOff_congr _ id (attach_counters _ key _).2.2]
      exact used _
  | pinned => exact used _
  | left before leaves stays =>
      have old := clear _ before id
      exact old
  | heard routed => rw [SubEntry.writtenOff_update, used, Bool.false_and]
  | rebuilt before routed =>
      rw [SubEntry.writtenOff_congr _ id (rebuild_arbitration _ _ _ _ _ _).2.2.2.1]
      exact clear _ before id
  | gaveUp before =>
      have old := clear _ before id
      exact old
  | lost before =>
      rw [SubEntry.writtenOff_loseSource, clear _ before id, whole, Bool.and_false,
        Bool.false_and, Bool.or_false]

/-- On a key that is not incremental nobody is ever written off. -/
theorem AppState.Reached.nobodyMarked (reached : Reached st) (whole : key.isIncremental = false) :
    st.NobodyMarked key := by
  obtain ⟨sources, reachable⟩ := reached
  have start : (AppState.new sources : Live).NobodyMarked key :=
    fun e found => absurd found (Option.some_ne_none e).symm
  have keeps (st : Live) (op : Op) (clear : st.NobodyMarked key) : (st.step op).NobodyMarked key :=
    clear.step whole
  exact reachable.invariant start keeps

/-! ### Runs -/

/-- While the mark stays, the increments ignored are those of the steps that shut them out. -/
theorem throughout_ignores_iff (few : n < 64) (known : source < n)
    (incremental : key.isIncremental = true) {ops : List Op} (marked : st.Marked key source)
    (waits : ∀ op ∈ ops, op.Within n ∧ ¬ op.Pardons key source)
    (keeps : Throughout step (KeepsEntry key) st ops) :
    Throughout step (Ignores key source) st ops ↔ Throughout step (ShutOut key source) st ops := by
  induction ops generalizing st with
  | nil => exact Iff.rfl
  | cons op rest inductionHypothesis =>
      obtain ⟨within, unpardoned⟩ := waits op List.mem_cons_self
      have next := marked.step known few within unpardoned keeps.1
      have later : ∀ op ∈ rest, op.Within n ∧ ¬ op.Pardons key source :=
        fun op member => waits op (List.mem_cons_of_mem _ member)
      rw [throughout_cons, throughout_cons, ignores_iff_shutOut marked incremental,
        inductionHypothesis next later keeps.2]

/-- With fewer than 64 sources, whatever went before and whatever comes after: from the loss of the
leader of an incremental key on, as long as it does not snapshot on the key and the key keeps its
entry, its increments are all ignored if and only if none of them is a sticky frame that finds
nobody else leading. The mark keeps out no other source, and none is ever set on any other key. -/
theorem written_off_iff_shut_out (few : n < 64) (reached : Reached st) (known : source < n) :
    (key.isIncremental = true → st.Leads key source →
      ∀ ops, (∀ op ∈ ops, op.Within n ∧ ¬ op.Pardons key source) →
        Throughout step (KeepsEntry key) (st.step (.resyncAfterSourceLoss source)) ops →
          (Throughout step (Ignores key source) (st.step (.resyncAfterSourceLoss source)) ops ↔
            Throughout step (ShutOut key source) (st.step (.resyncAfterSourceLoss source)) ops)) ∧
      (∀ e : SubEntry Message, e.Spares n key source) ∧
        (key.isIncremental = false → st.NobodyMarked key) := by
  refine ⟨?_, fun e => spares e few known, reached.nobodyMarked⟩
  intro incremental leads ops waits keeps
  exact throughout_ignores_iff few known incremental (marked_of_lost leads incremental) waits keeps

/-- Two sources and one client on the plain `l2Diff` stream, which source 0 leads. -/
def ledByZero : Live :=
  run step (AppState.new [{ id := 0 }, { id := 1 }])
    [.registerClient "a", .subscribe 0 1 (.l2Diff "BTC" none none none),
      .onUpdate 1 (.l2Increment 0 "BTC" 5 "a5")]

theorem reached_ledByZero : Reached ledByZero := ⟨_, _, rfl⟩

/-- Source 0 is lost and comes back after source 1 took the stream over: it stays out. -/
theorem written_off_iff_shut_out_taken_over :
    Throughout step (Ignores (.l2Diff "BTC" none none none) 0)
      (ledByZero.step (.resyncAfterSourceLoss 0))
      [.onUpdate 2 (.l2Increment 1 "BTC" 3 "b3"), .onUpdate 3 (.l2Increment 0 "BTC" 9 "a9")] := by
  have within : ∀ op ∈ [Op.onUpdate 2 (.l2Increment 1 "BTC" 3 "b3"),
      .onUpdate 3 (.l2Increment 0 "BTC" 9 "a9")],
      op.Within 2 ∧ ¬ op.Pardons (.l2Diff "BTC" none none none) 0 := by
    simp [Op.Within, Op.Pardons, Message.l2Increment, Seq.isSnapshot]
  have known : 0 < 2 := by decide
  apply ((written_off_iff_shut_out (by decide) reached_ledByZero known).1 rfl (by decide) _ within
    ⟨trivial, trivial, trivial⟩).mpr
  refine ⟨fun _ other => absurd other (by decide), fun _ _ _ => ?_, trivial⟩
  exact ⟨_, 1, rfl, rfl, fun same => absurd same (by decide)⟩

/-- Source 0 is lost and comes back before anybody took the stream over: its increment, computed
on a book nobody holds, is held for the parked client and takes the lead again. -/
theorem not_written_off :
    ¬ ∀ (n : Nat) (st : Live) (key : SubKey) (source : Nat), n < 64 → Reached st → source < n →
      key.isIncremental = true → st.Leads key source →
        ∀ ops, (∀ op ∈ ops, op.Within n ∧ ¬ op.Pardons key source) →
          Throughout step (Ignores key source) (st.step (.resyncAfterSourceLoss source)) ops := by
  intro always
  have known : ∀ op ∈ [Op.onUpdate 2 (.l2Increment 0 "BTC" 9 "a9")],
      op.Within 2 ∧ ¬ op.Pardons (.l2Diff "BTC" none none none) 0 := by
    simp [Op.Within, Op.Pardons, Message.l2Increment, Seq.isSnapshot]
  have ignores := always 2 ledByZero (.l2Diff "BTC" none none none) 0 (by decide)
    reached_ledByZero (by decide) rfl (by decide) _ known
  have silent := (ignores.1 ⟨rfl, rfl, rfl⟩).1
  exact absurd silent (by decide)

end Wsarb
