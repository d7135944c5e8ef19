import Wsarb.Stream.Stretch

/-!
Owns single-sourced keys: in the frames forwarded between two losses of the leader there is
one source, the one whose frame went out first, and which of a source's frames go out is
read off those that already have.

Does not own: a snapshot delivered to a parked client, which names another leader.
-/

namespace Wsarb

open Wsarb.Library AppState

/-- The operation delivers a snapshot of the key. -/
def Op.Hands (key : SubKey) : Op → Prop
  | .deliverSnapshot _ fetched => fetched.key = key
  | _ => False

theorem highest_le_iff {messages : List Message} {bound : Nat} :
    highest messages ≤ bound ↔ ∀ message ∈ messages, message.seq.stamp ≤ bound := by
  induction messages with
  | nil => simp [highest]
  | cons message rest inductionHypothesis =>
      rw [List.forall_mem_cons, ← inductionHypothesis]
      exact Nat.max_le

theorem highest_lt_iff {messages : List Message} {bound : Nat} (positive : 0 < bound) :
    highest messages < bound ↔ ∀ message ∈ messages, message.seq.stamp < bound := by
  induction messages with
  | nil => simpa [highest] using positive
  | cons message rest inductionHypothesis =>
      rw [List.forall_mem_cons, ← inductionHypothesis]
      exact Nat.max_lt

namespace Stretch

variable {key : SubKey} {stretch : Stretch} {e : SubEntry Message} {forwarded : List Message}

/-- The leader is the source of the frame forwarded first, and of every other. -/
structure Led (key : SubKey) (forwarded : List Message) (last : Nat) (leader : Option Nat) :
    Prop extends Level key forwarded last leader where
  first : leader = forwarded.head?.map (·.source)
  alone : ∀ message ∈ forwarded, leader = some message.source

/-- The frame comes from the source of those forwarded and is not behind them; a snapshot is
ahead of them. -/
def Follows (forwarded : List Message) (message : Message) : Prop :=
  ∀ other ∈ forwarded, other.source = message.source ∧ other.seq.stamp ≤ message.seq.stamp ∧
    (message.seq.isSnapshot = true → other.seq.stamp < message.seq.stamp)

variable (single : key.singleSourced = true)

include single in
/-- Which frame goes out is read off those forwarded. -/
theorem Led.accepts_iff (led : Led key forwarded e.last e.blockLeader) {message : Message}
    (routed : message.key = key) (positive : 0 < message.seq.stamp) :
    e.Accepts key message.source message.seq ↔ Follows forwarded message := by
  have leading : (e.blockLeader = none ∨ e.blockLeader = some message.source) ↔
      ∀ other ∈ forwarded, other.source = message.source := by
    constructor
    · intro ours other member
      have leads := led.alone other member
      rcases ours with free | own
      · rw [free] at leads
        cases leads
      · exact Option.some.inj (leads.symm.trans own)
    · intro same
      rw [led.first]
      cases forwarded with
      | nil => exact Or.inl rfl
      | cons other rest => exact Or.inr (congrArg some (same other List.mem_cons_self))
  have height := led.height
  rcases seq_cases single routed with snapshot | ⟨v, sticky⟩
  · obtain ⟨h, seq⟩ : ∃ h, message.seq = .snapshot h := by
      cases seq : message.seq <;> simp_all [Seq.isSnapshot]
    have above : e.last < h ↔ ∀ other ∈ forwarded, other.seq.stamp < h := by
      rw [height]
      apply highest_lt_iff
      rwa [seq] at positive
    simp only [Follows, seq, SubEntry.Accepts, single, forall_const, leading, above,
      Seq.stamp, Seq.isSnapshot]
    constructor
    · intro both other member
      have below := both.2 other member
      exact ⟨both.1 other member, Nat.le_of_lt below, below⟩
    · intro follows
      exact ⟨fun other member => (follows other member).1,
        fun other member => (follows other member).2.2⟩
  · have above : e.last ≤ v ↔ ∀ other ∈ forwarded, other.seq.stamp ≤ v := by
      rw [height]
      exact highest_le_iff
    have free : e.blockLeader = none → e.last ≤ v := by
      intro free
      rw [led.leaderless single free]
      exact Nat.zero_le v
    have accepts : e.Accepts key message.source message.seq ↔
        (e.blockLeader = none ∨ e.blockLeader = some message.source) ∧ e.last ≤ v := by
      rw [sticky, SubEntry.Accepts]
      tauto
    rw [accepts, leading, above]
    simp only [Follows, sticky, Seq.stamp, Seq.isSnapshot, Bool.false_eq_true, false_implies,
      and_true]
    exact forall₂_and.symm

include single in
/-- A frame of the key keeps whoever leads in the lead. -/
theorem tracks_led : Tracks key (Led key) where
  blank := ⟨(tracks_level key).blank, rfl, fun _ member => nomatch member⟩
  heard := by
    intro forwarded e now message routed led
    refine ⟨(tracks_level key).heard now routed led.toLevel, ?_, ?_⟩
    all_goals
      rw [SubEntry.update_blockLeader _ _ _ _ _ _ (seq_ne_point single routed)]
    · split
      · next accepts =>
          cases ahead : forwarded with
          | nil => rfl
          | cons other rest =>
              have leads := led.alone other (ahead ▸ List.mem_cons_self)
              have own := leads_of_accepts single routed accepts leads
              exact congrArg some own.symm
      · rw [List.append_nil]
        exact led.first
    · split
      · next accepts =>
          intro other member
          rcases List.mem_append.mp member with old | new
          · have own := leads_of_accepts single routed accepts (led.alone other old)
            rw [own]
          · rw [List.mem_singleton.mp new]
      · rw [List.append_nil]
        exact led.alone

/-- Operations other than a delivered snapshot have no say in who leads. -/
theorem bears_of_not_hands {P : Standing} {op : Op} (other : ¬ op.Hands key) :
    Bears key P op := by
  cases op with
  | deliverSnapshot client fetched => exact fun same => absurd same other
  | _ => trivial

/-- What a stretch without a delivered snapshot keeps. -/
structure Ruled (key : SubKey) (stretch : Stretch) : Prop where
  led : Holds key (Led key) stretch
  alone : ∀ first ∈ stretch.forwarded, ∀ second ∈ stretch.forwarded,
    first.source = second.source

theorem ruled_start (sources : List Source) : Ruled key (start sources) where
  led := fun _ found => nomatch found
  alone := fun _ member => nomatch member

include single in
theorem Ruled.step (ruled : Ruled key stretch) {op : Op} (other : ¬ op.Hands key) :
    Ruled key (step key stretch op) := by
  have led := (tracks_led single).step ruled.led (bears_of_not_hands other)
  refine ⟨led, ?_⟩
  cases goesOut : stretch.st.forwardedBy key op with
  | nil =>
      -- What is left of the stretch was forwarded before.
      have shape : (Stretch.step key stretch op).forwarded = stretch.kept key op := by
        show stretch.kept key op ++ stretch.st.forwardedBy key op = _
        rw [goesOut, List.append_nil]
      rw [shape, kept]
      split
      · exact fun _ member => absurd member List.not_mem_nil
      · exact ruled.alone
  | cons message rest =>
      obtain ⟨e, found⟩ : ∃ e, (stretch.st.step op).getEntry key = some e := by
        cases op with
        | onUpdate now heard =>
            have routed : heard.key = key := by
              by_contra apart
              rw [forwardedBy, if_neg fun both => apart both.1] at goesOut
              cases goesOut
            rw [getEntry_step, entryAfter, if_pos routed]
            exact ⟨_, rfl⟩
        | _ => cases goesOut
      intro first member second member'
      have own := (led e found).alone first member
      exact Option.some.inj (own.symm.trans ((led e found).alone second member'))

include single in
theorem ruled_run (sources : List Source) (ops : List Op) (apart : ∀ op ∈ ops, ¬ op.Hands key) :
    Ruled key (run (step key) (start sources) ops) :=
  run_keeps (fun _ _ ruled other => ruled.step single other) ops (ruled_start sources)
    (throughout_of_forall _ fun op member _ => apart op member)

/-- Between two losses of the leader of a single-sourced key, with no snapshot delivered on
it: every frame that went out is of one source, and the leader is the source whose frame went
out first; a frame goes out exactly when it comes from that source and is not behind what has
gone out, a snapshot when it is ahead; and the loss of any other source changes nothing. -/
theorem one_leader_run (single : key.singleSourced = true) (sources : List Source)
    (ops : List Op) (apart : ∀ op ∈ ops, ¬ op.Hands key) :
    let stretch := run (step key) (start sources) ops
    (∀ first ∈ stretch.forwarded, ∀ second ∈ stretch.forwarded,
        first.source = second.source) ∧
      (∀ e, stretch.st.getEntry key = some e →
        e.blockLeader = stretch.forwarded.head?.map (·.source)) ∧
      (∀ now message, message.key = key → 0 < message.seq.stamp →
        (stretch.st.forwardedBy key (.onUpdate now message) = [message] ↔
          Follows (stretch.kept key (.onUpdate now message)) message)) ∧
      ∀ source, stretch.st.losesLeader key (.resyncAfterSourceLoss source) = false →
        (step key stretch (.resyncAfterSourceLoss source)).st.getEntry key =
            stretch.st.getEntry key ∧
          (step key stretch (.resyncAfterSourceLoss source)).forwarded = stretch.forwarded := by
  intro stretch
  have ruled : Ruled key stretch := ruled_run single sources ops apart
  refine ⟨ruled.alone, fun e found => (ruled.led e found).first, ?_, ?_⟩
  · intro now message routed positive
    have made : ((stretch.st.step (.onUpdate now message)).getEntry key).isSome = true := by
      rw [getEntry_step, entryAfter, if_pos routed, Option.isSome_some]
    have used := (tracks_led single).used ruled.led rfl made now
    rw [← used.accepts_iff single routed positive, forwardedBy_onUpdate_iff]
    exact and_iff_right routed
  · intro source other
    have stays : stretch.st.frees key (.resyncAfterSourceLoss source) = false := by
      rw [frees, other, Bool.false_and]
    constructor
    · show (stretch.st.step (.resyncAfterSourceLoss source)).getEntry key = _
      rw [getEntry_step, entryAfter]
      cases found : stretch.st.getEntry key with
      | none => rfl
      | some e => rw [Option.map_some, loseSource_of_not_frees stays found]
    · have created : stretch.st.creates key (.resyncAfterSourceLoss source) = false := by
        rw [creates, getEntry_step, entryAfter]
        cases stretch.st.getEntry key <;> rfl
      show stretch.kept key _ ++ [] = _
      rw [List.append_nil, kept, created, stays, Bool.or_false, if_neg Bool.false_ne_true]

/-- Source 0 leads at 10; source 1 is ahead of it and refused, source 0 goes on. -/
theorem one_leader_run_ahead :
    let stretch := run (step (.l2Book "BTC" none none none)) (start [{ id := 0 }, { id := 1 }])
      [.onUpdate 1 ⟨0, .l2Book "BTC" none none none, .sticky 10, "10-a", rfl⟩,
        .onUpdate 2 ⟨1, .l2Book "BTC" none none none, .sticky 11, "11-b", rfl⟩]
    ∀ now message, message.key = .l2Book "BTC" none none none → 0 < message.seq.stamp →
      (stretch.st.forwardedBy (.l2Book "BTC" none none none) (.onUpdate now message) = [message] ↔
        Follows (stretch.kept (.l2Book "BTC" none none none) (.onUpdate now message)) message) :=
  (one_leader_run rfl [{ id := 0 }, { id := 1 }]
    [.onUpdate 1 ⟨0, .l2Book "BTC" none none none, .sticky 10, "10-a", rfl⟩,
      .onUpdate 2 ⟨1, .l2Book "BTC" none none none, .sticky 11, "11-b", rfl⟩]
    (by simp [Op.Hands])).2.2.1

end Stretch

end Wsarb
