import Mathlib.Data.List.MinMax
import Wsarb.Stream.Attached
import Wsarb.Stream.Chronicle

/-!
Owns the frames of one key that go out between two restarts of the key: the creation of its
entry, and the loss of its leader where that frees the leadership. Within a stretch the stamps
never fall, and the entry's height is the highest of them.

A leaderless entry of a single-sourced key is at height zero: that is why the first frame to
take the leadership may set the height without looking at it.
-/

namespace Wsarb

open Wsarb.Library AppState

/-- The shared state with the frames of one key forwarded since it last restarted. -/
structure Stretch where
  st : Live
  forwarded : List Message

/-- The highest stamp of some messages, zero if there are none. -/
def highest (messages : List Message) : Nat :=
  (messages.map fun message => message.seq.stamp).foldr max 0

theorem highest_append (first second : List Message) :
    highest (first ++ second) = max (highest first) (highest second) := by
  induction first with
  | nil => exact (Nat.zero_max _).symm
  | cons message rest inductionHypothesis =>
      simp only [highest, List.cons_append, List.map_cons, List.foldr_cons] at inductionHypothesis ⊢
      rw [inductionHypothesis, Nat.max_assoc]

theorem le_highest {messages : List Message} {message : Message} (member : message ∈ messages) :
    message.seq.stamp ≤ highest messages :=
  List.le_max_of_le (List.mem_map_of_mem member) (Nat.le_refl _)

namespace AppState

def creates (st : Live) (key : SubKey) (op : Op) : Bool :=
  (st.getEntry key).isNone && ((st.step op).getEntry key).isSome

/-- The operation is the loss of the key's leader, and frees the leadership. -/
def frees (st : Live) (key : SubKey) (op : Op) : Bool :=
  st.losesLeader key op && (key.singleSourced || key.isIncremental)

end AppState

namespace Stretch

def start (sources : List Source) : Stretch := ⟨AppState.new sources, []⟩

/-- What is left of the stretch when an operation comes. -/
def kept (key : SubKey) (stretch : Stretch) (op : Op) : List Message :=
  if stretch.st.creates key op || stretch.st.frees key op then [] else stretch.forwarded

def step (key : SubKey) (stretch : Stretch) (op : Op) : Stretch where
  st := stretch.st.step op
  forwarded := stretch.kept key op ++ stretch.st.forwardedBy key op

variable {key : SubKey} {stretch : Stretch} {e : SubEntry Message}

/-! ### What follows an entry -/

/-- The property of the frames forwarded, the height and the leader. -/
abbrev Standing := List Message → Nat → Option Nat → Prop

/-- It holds of the stretch as it is. -/
def Holds (key : SubKey) (P : Standing) (stretch : Stretch) : Prop :=
  ∀ e, stretch.st.getEntry key = some e → P stretch.forwarded e.last e.blockLeader

/-- It holds where nothing is forwarded and nobody leads, and the frames of the key keep it. -/
structure Tracks (key : SubKey) (P : Standing) : Prop where
  blank : P [] 0 none
  heard : ∀ {forwarded : List Message} {e : SubEntry Message} (now : Nat) {message : Message},
    message.key = key → P forwarded e.last e.blockLeader →
    P (forwarded ++ if e.Accepts key message.source message.seq then [message] else [])
      (e.update key now message.source message.seq message).1.last
      (e.update key now message.source message.seq message).1.blockLeader

/-- The operation, if it delivers a snapshot of the key, may set the leader. -/
def Bears (key : SubKey) (P : Standing) : Op → Prop
  | .deliverSnapshot _ fetched =>
      fetched.key = key → ∀ forwarded last leader, P forwarded last leader →
        P forwarded last (some fetched.source)
  | _ => True

section Tracking

variable {P : Standing}

/-- The entry an operation starts from, made if need be, has the property with what is kept. -/
theorem Tracks.used (tracks : Tracks key P) (holds : Holds key P stretch) {op : Op}
    (stays : stretch.st.frees key op = false)
    (made : ((stretch.st.step op).getEntry key).isSome = true) (now : Nat) :
    P (stretch.kept key op) (stretch.st.entryOr now key).last
      (stretch.st.entryOr now key).blockLeader := by
  cases found : stretch.st.getEntry key with
  | none =>
      have creates : stretch.st.creates key op = true := by simp [creates, found, made]
      rw [entryOr_of_none found, kept, creates, Bool.true_or, if_pos rfl]
      exact tracks.blank
  | some e =>
      have creates : stretch.st.creates key op = false := by simp [creates, found]
      rw [entryOr_of_some found, kept, creates, stays, Bool.false_or]
      exact holds e found

/-- A loss that does not free the leadership leaves the entry as it was. -/
theorem loseSource_of_not_frees {source : Nat}
    (stays : stretch.st.frees key (.resyncAfterSourceLoss source) = false)
    (found : stretch.st.getEntry key = some e) : (e.loseSource source key).1 = e := by
  by_cases leads : e.blockLeader = some source
  · simp only [frees, losesLeader, found, Option.any_some, leads, decide_true, Bool.true_and,
      Bool.or_eq_false_iff] at stays
    simp [SubEntry.loseSource, stays.1, stays.2]
  · rw [loseSource_of_other e key source leads]

/-- A loss that frees the leadership takes the height back to zero. -/
theorem blank_of_frees {op : Op} (frees : stretch.st.frees key op = true)
    (found : (stretch.st.step op).getEntry key = some e) :
    stretch.st.forwardedBy key op = [] ∧ e.last = 0 ∧ e.blockLeader = none := by
  have loses : stretch.st.losesLeader key op = true := (Bool.and_eq_true_iff.mp frees).1
  have rebuilds := (Bool.and_eq_true_iff.mp frees).2
  cases op with
  | resyncAfterSourceLoss source =>
      rw [getEntry_step, entryAfter] at found
      obtain ⟨before, entry, rfl⟩ := Option.map_eq_some_iff.mp found
      rw [losesLeader, entry, Option.any_some, decide_eq_true_eq] at loses
      refine ⟨rfl, ?_⟩
      cases incremental : key.isIncremental with
      | true =>
          rw [loseSource_of_leads before key source loses incremental]
          exact ⟨rfl, rfl⟩
      | false =>
          rw [incremental, Bool.or_false] at rebuilds
          rw [loseSource_of_leads_whole before key source loses incremental rebuilds]
          exact ⟨rfl, rfl⟩
  | _ => cases loses

/-- Every operation keeps such a property, if the snapshots delivered do. -/
theorem Tracks.step (tracks : Tracks key P) (holds : Holds key P stretch) {op : Op}
    (bears : Bears key P op) : Holds key P (step key stretch op) := by
  intro e found
  replace found : (stretch.st.step op).getEntry key = some e := found
  show P (stretch.kept key op ++ stretch.st.forwardedBy key op) e.last e.blockLeader
  cases frees : stretch.st.frees key op with
  | true =>
      obtain ⟨silent, last, leader⟩ := blank_of_frees frees found
      rw [kept, frees, Bool.or_true, if_pos rfl, silent, last, leader]
      exact tracks.blank
  | false =>
      have used := tracks.used holds frees (by rw [found]; rfl)
      have silently : stretch.st.forwardedBy key op = [] →
          P (stretch.kept key op) e.last e.blockLeader →
          P (stretch.kept key op ++ stretch.st.forwardedBy key op) e.last e.blockLeader := by
        intro silent level
        rwa [silent, List.append_nil]
      have usedOf : ∀ before, stretch.st.getEntry key = some before →
          P (stretch.kept key op) before.last before.blockLeader := by
        intro before entry
        have level := used 0
        rwa [entryOr_of_some entry] at level
      cases becomes found with
      | kept before apart =>
          exact silently (forwardedBy_of_apart apart) (usedOf e before)
      | @subscribed now client absent =>
          refine silently rfl ?_
          rw [attach_last, attach_blockLeader]
          exact used now
      | @pinned now => exact silently rfl (used now)
      | @left _ _ before entry leaves stays =>
          refine silently ?_ (usedOf before entry)
          rcases leaves with rfl | rfl <;> rfl
      | @heard now message routed =>
          have after := tracks.heard now routed (used now)
          simpa only [forwardedBy, routed, true_and] using after
      | @rebuilt client fetched before entry routed =>
          refine silently rfl ?_
          have level := usedOf before entry
          rw [rebuild_blockLeader, (rebuild_arbitration before key client fetched.source
            fetched.height fetched.message).1]
          split
          · exact bears routed _ _ _ level
          · exact level
      | @gaveUp _ before entry => exact silently rfl (usedOf before entry)
      | @lost source before entry =>
          refine silently rfl ?_
          rw [loseSource_of_not_frees frees entry]
          exact usedOf before entry

end Tracking

/-! ### The stamps of a stretch -/

/-- The entry stands at the highest stamp forwarded. -/
structure Level (key : SubKey) (forwarded : List Message) (last : Nat) (leader : Option Nat) :
    Prop where
  height : last = highest forwarded
  leaderless : key.singleSourced = true → leader = none → last = 0

/-- A frame is let through at the entry's height or above it, on `trades` above it. -/
theorem Level.accepts {forwarded : List Message}
    (level : Level key forwarded e.last e.blockLeader) {message : Message}
    (routed : message.key = key) (accepts : e.Accepts key message.source message.seq) :
    e.last ≤ message.seq.stamp ∧
      ((∃ coin, key = .trades coin) → e.last < message.seq.stamp) := by
  have admitted := message.admitted
  rw [routed] at admitted
  cases seq : message.seq with
  | point v =>
      rw [seq] at accepts
      exact ⟨Nat.le_of_lt accepts, fun _ => accepts⟩
  | lead v =>
      rw [seq] at accepts admitted
      refine ⟨?_, ?_⟩
      · rcases accepts with newer | ⟨same, -⟩
        · exact Nat.le_of_lt newer
        · exact Nat.le_of_eq same.symm
      · rintro ⟨coin, rfl⟩
        cases admitted
  | sticky v =>
      rw [seq] at accepts admitted
      refine ⟨?_, ?_⟩
      · rcases accepts with free | ⟨-, above⟩
        · have single : key.singleSourced = true := by
            cases key <;> first | rfl | cases admitted
          rw [level.leaderless single free]
          exact Nat.zero_le _
        · exact above
      · rintro ⟨coin, rfl⟩
        cases admitted
  | snapshot h =>
      rw [seq] at accepts
      exact ⟨Nat.le_of_lt accepts.2, fun _ => accepts.2⟩
  | block h =>
      rw [seq] at accepts admitted
      refine ⟨?_, ?_⟩
      · rcases accepts.2 with newer | ⟨same, -⟩
        · exact Nat.le_of_lt newer
        · exact Nat.le_of_eq same.symm
      · rintro ⟨coin, rfl⟩
        cases admitted

/-- A frame of the key moves the entry with the stretch. -/
theorem tracks_level (key : SubKey) : Tracks key (Level key) where
  blank := ⟨rfl, fun _ _ => rfl⟩
  heard := by
    intro forwarded e now message routed level
    have last := e.update_last key now message.source message.seq message
    by_cases accepts : e.Accepts key message.source message.seq
    · have above := (level.accepts routed accepts).1
      rw [if_pos accepts] at last ⊢
      refine ⟨?_, fun single free => ?_⟩
      · have own : highest [message] = message.seq.stamp := Nat.max_zero _
        rw [last, highest_append, ← level.height, own, Nat.max_eq_right above]
      · rw [SubEntry.update_blockLeader _ _ _ _ _ _ (seq_ne_point single routed),
          if_pos accepts] at free
        cases free
    · rw [if_neg accepts] at last ⊢
      rw [List.append_nil, last]
      refine ⟨level.height, fun single free => ?_⟩
      apply level.leaderless single
      rwa [SubEntry.update_blockLeader _ _ _ _ _ _ (seq_ne_point single routed),
        if_neg accepts] at free

/-- A delivered snapshot leaves the height, and the key with a leader if it had one. -/
theorem bears_level (op : Op) : Bears key (Level key) op := by
  cases op with
  | deliverSnapshot client fetched =>
      exact fun _ _ _ _ level => ⟨level.height, fun _ free => nomatch free⟩
  | _ => trivial

/-- Two frames forwarded one after the other: the stamps do not fall, and rise on `trades`. -/
def InOrder (key : SubKey) (first second : Message) : Prop :=
  first.seq.stamp ≤ second.seq.stamp ∧
    ((∃ coin, key = .trades coin) → first.seq.stamp < second.seq.stamp)

/-- What a stretch keeps. -/
structure Rising (key : SubKey) (stretch : Stretch) : Prop where
  ordered : stretch.forwarded.Pairwise (InOrder key)
  level : Holds key (Level key) stretch

theorem rising_start (sources : List Source) : Rising key (start sources) where
  ordered := List.Pairwise.nil
  level := fun _ found => nomatch found

theorem ordered_kept (rising : Rising key stretch) (op : Op) :
    (stretch.kept key op).Pairwise (InOrder key) := by
  unfold kept
  split
  · exact List.Pairwise.nil
  · exact rising.ordered

/-- Every operation keeps the stretch rising. -/
theorem Rising.step (rising : Rising key stretch) (op : Op) : Rising key (step key stretch op) where
  level := (tracks_level key).step rising.level (bears_level op)
  ordered := by
    show (stretch.kept key op ++ stretch.st.forwardedBy key op).Pairwise (InOrder key)
    have before := ordered_kept rising op
    cases op with
    | onUpdate now message =>
        rw [forwardedBy]
        split
        · next goesOut =>
            obtain ⟨routed, accepts⟩ := goesOut
            have made : ((stretch.st.step (.onUpdate now message)).getEntry key).isSome = true := by
              rw [getEntry_step, entryAfter, if_pos routed, Option.isSome_some]
            have level := (tracks_level key).used rising.level rfl made now
            have above := level.accepts routed accepts
            rw [List.pairwise_append]
            refine ⟨before, List.pairwise_singleton _ _, fun first member second last => ?_⟩
            obtain rfl := List.mem_singleton.mp last
            have below := level.height ▸ le_highest member
            exact ⟨below.trans above.1, fun trades => below.trans_lt (above.2 trades)⟩
        · rwa [List.append_nil]
    | _ => simpa [forwardedBy] using before

/-- Whatever the operations, in every stretch of every key the forwarded stamps do not fall, and
rise on `trades`; the entry's height is the highest of them; and only the restart of a stretch
lowers it. -/
theorem rising_run (key : SubKey) (sources : List Source) (ops : List Op) :
    (run (step key) (start sources) ops).forwarded.Pairwise (InOrder key) ∧
      (∀ e, (run (step key) (start sources) ops).st.getEntry key = some e →
        e.last = highest (run (step key) (start sources) ops).forwarded) ∧
      ∀ op before after,
        (run (step key) (start sources) ops).st.getEntry key = some before →
        ((run (step key) (start sources) ops).st.step op).getEntry key = some after →
        (run (step key) (start sources) ops).st.frees key op = false →
        before.last ≤ after.last := by
  have rising : Rising key (run (step key) (start sources) ops) :=
    Reachable.invariant ⟨ops, rfl⟩ (rising_start sources) fun _ op rising => rising.step op
  refine ⟨rising.ordered, fun e found => (rising.level e found).height, ?_⟩
  intro op before after found found' stays
  have creates : (run (step key) (start sources) ops).st.creates key op = false := by
    simp [creates, found]
  rw [(rising.level before found).height, ((rising.step op).level after found').height]
  show _ ≤ highest (kept key _ op ++ _)
  rw [kept, creates, stays, Bool.or_false, if_neg Bool.false_ne_true, highest_append]
  exact Nat.le_max_left _ _

end Stretch

end Wsarb
