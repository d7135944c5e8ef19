import Wsarb.Stream.Leadership
import Wsarb.Stream.Parking

/-!
Owns `bbo`, where whoever opens a stamp carries it to its end: which frames go out, said of
everything heard so far rather than of the entry's two fields.

The rule looks at what was heard, the code at the newest stamp and its leader. The invariant
between them is that the leader is the source of the first frame heard with the newest stamp.
-/

namespace Wsarb

open Wsarb.Library AppState

namespace Op

/-- The frames of a key an operation brings in, forwarded or not. -/
def hears (key : SubKey) : Op → List Message
  | .onUpdate _ message => if message.key = key then [message] else []
  | _ => []

/-- The operation takes no client off any key. -/
def Stays : Op → Prop
  | .unsubscribe .. | .cleanupClient _ => False
  | _ => True

end Op

/-- A `bbo` frame. -/
def Message.bboFrame (source : Nat) (coin : String) (time : Nat) (text : String) : Message :=
  ⟨source, .bbo coin, .lead time, text, rfl⟩

def heardOver (key : SubKey) (ops : List Op) : List Message := ops.flatMap (·.hears key)

namespace AppState

/-- Nothing has been heard on the key yet. -/
def Unheard (st : Live) (key : SubKey) : Prop := ∀ e, st.getEntry key = some e → e.last = 0

end AppState

/-- The frame that opened the stamp `v`. -/
def opener (heard : List Message) (v : Nat) : Option Message := heard.find? (·.seq.stamp = v)

/-- A frame goes out by the declarative rule: nothing newer was heard before it, and its own
source opened its stamp. -/
def IsDue (heard : List Message) (message : Message) : Prop :=
  (∀ earlier ∈ heard, earlier.seq.stamp ≤ message.seq.stamp) ∧
    (opener (heard ++ [message]) message.seq.stamp).map (·.source) = some message.source

instance (heard : List Message) (message : Message) : Decidable (IsDue heard message) :=
  inferInstanceAs (Decidable (_ ∧ _))

/-- The frames with stamp `v` that came from the source that opened it, up to the first newer
frame. -/
def carried (heard : List Message) (v : Nat) : List Message :=
  match opener heard v with
  | none => []
  | some first =>
      (heard.takeWhile (·.seq.stamp ≤ v)).filter
        fun message => message.seq.stamp = v ∧ message.source = first.source

/-- The entry's newest stamp and leader, read off what was heard. -/
structure Tells (heard : List Message) (e : SubEntry Message) : Prop where
  newest : e.last = highest heard
  leader : heard ≠ [] → ∃ first, opener heard e.last = some first ∧
    e.blockLeader = some first.source

variable {coin : String} {e : SubEntry Message} {heard : List Message} {message : Message}

/-! ### Who opened a stamp -/

theorem opener_append (first second : List Message) (v : Nat) :
    opener (first ++ second) v = (opener first v).or (opener second v) :=
  List.find?_append

theorem opener_eq_none {v : Nat} (newer : highest heard < v) : opener heard v = none := by
  rw [opener, List.find?_eq_none]
  intro other member same
  have below := le_highest member
  rw [decide_eq_true_eq] at same
  omega

theorem opener_self : opener [message] message.seq.stamp = some message := by
  simp [opener]

/-! ### The entry against what was heard -/

/-- On `bbo` every frame is a lead. -/
theorem seq_eq_lead (routed : message.key = .bbo coin) : message.seq = .lead message.seq.stamp := by
  have admitted := message.admitted
  rw [routed] at admitted
  cases seq : message.seq <;> simp_all [SubKey.admits, Seq.stamp]

/-- The code lets a frame through exactly when the rule does. -/
theorem Tells.accepts_iff (tells : Tells heard e) (routed : message.key = .bbo coin)
    (positive : 0 < message.seq.stamp) :
    e.Accepts (.bbo coin) message.source message.seq ↔ IsDue heard message := by
  rw [seq_eq_lead routed]
  show e.last < message.seq.stamp ∨ message.seq.stamp = e.last ∧ _ ↔ _
  have height := tells.newest
  rw [IsDue, ← highest_le_iff, opener_append]
  rcases Nat.lt_trichotomy e.last message.seq.stamp with newer | same | older
  · rw [opener_eq_none (by omega), Option.none_or, opener_self]
    exact iff_of_true (Or.inl newer) ⟨by omega, rfl⟩
  · have filled : heard ≠ [] := by
      rintro rfl
      rw [height] at same
      exact absurd same.symm (Nat.pos_iff_ne_zero.mp positive)
    obtain ⟨first, opened, leads⟩ := tells.leader filled
    rw [← same, opened, leads, Option.some_or]
    simp [height]
  · exact iff_of_false (by omega) fun both => absurd both.1 (by omega)

/-- Only the newest stamp and the leader tell. -/
theorem Tells.congr {other : SubEntry Message} (tells : Tells heard e)
    (last : other.last = e.last) (leader : other.blockLeader = e.blockLeader) :
    Tells heard other where
  newest := last.trans tells.newest
  leader := by
    rw [last, leader]
    exact tells.leader

/-- A frame moves the entry with what was heard. -/
theorem Tells.next (tells : Tells heard e) (routed : message.key = .bbo coin)
    (positive : 0 < message.seq.stamp) (now : Nat) :
    Tells (heard ++ [message])
      (e.update (.bbo coin) now message.source message.seq message).1 := by
  have lead := seq_eq_lead routed
  have ordered : ∀ v, message.seq ≠ .point v := by
    intro v same
    rw [same] at lead
    cases lead
  have newest := tells.newest
  have own : highest [message] = message.seq.stamp := Nat.max_zero _
  have last := e.update_last (.bbo coin) now message.source message.seq message
  have leader := e.update_blockLeader (.bbo coin) now message.source message.seq message ordered
  have accepts : e.Accepts (.bbo coin) message.source message.seq ↔
      e.last < message.seq.stamp ∨
        message.seq.stamp = e.last ∧ e.blockLeader = some message.source := by
    rw [lead]
    rfl
  by_cases newer : e.last < message.seq.stamp
  · -- The frame opens its stamp.
    rw [if_pos (accepts.mpr (Or.inl newer))] at last leader
    refine ⟨?_, fun _ => ⟨message, ?_, leader⟩⟩
    · rw [last, highest_append, own]
      omega
    · rw [last, opener_append, opener_eq_none (by omega), Option.none_or, opener_self]
  · -- Whether it goes out or not, the newest stamp and its leader stay.
    have stamp : (if e.Accepts (.bbo coin) message.source message.seq then message.seq.stamp
        else e.last) = e.last := by
      split
      · next goesOut => exact ((accepts.mp goesOut).resolve_left newer).1
      · rfl
    have source : (if e.Accepts (.bbo coin) message.source message.seq then some message.source
        else e.blockLeader) = e.blockLeader := by
      split
      · next goesOut => exact ((accepts.mp goesOut).resolve_left newer).2.symm
      · rfl
    rw [stamp] at last
    rw [source] at leader
    have filled : heard ≠ [] := by
      rintro rfl
      rw [newest] at newer
      exact newer positive
    obtain ⟨first, opened, leads⟩ := tells.leader filled
    refine ⟨?_, fun _ => ⟨first, ?_, leader.trans leads⟩⟩
    · rw [last, highest_append, own]
      omega
    · rw [last, opener_append, opened, Option.some_or]

/-! ### Along a run -/

variable {st : Live}

theorem tells_of_unheard (unheard : st.Unheard (.bbo coin)) (now : Nat) :
    Tells [] (st.entryOr now (.bbo coin)) where
  newest := entryOr_of (fun _ => rfl) unheard now
  leader := fun filled => absurd rfl filled

/-- An operation that brings in no frame of the key leaves its newest stamp and leader. -/
theorem entryOr_step_of_silent (st : Live) {op : Op} (stays : op.Stays)
    (silent : op.hears (.bbo coin) = []) (now : Nat) :
    ∃ before, ((st.step op).entryOr now (.bbo coin)).last =
        (st.entryOr before (.bbo coin)).last ∧
      ((st.step op).entryOr now (.bbo coin)).blockLeader =
        (st.entryOr before (.bbo coin)).blockLeader := by
  have same (kept : (st.step op).getEntry (.bbo coin) = st.getEntry (.bbo coin)) :
      (st.step op).entryOr now (.bbo coin) = st.entryOr now (.bbo coin) := by
    rw [entryOr, kept, entryOr]
  cases op with
  | registerClient ip => exact ⟨now, rfl, rfl⟩
  | subscribe time client key =>
      have after := st.getEntry_step (.subscribe time client key) (.bbo coin)
      rw [entryAfter] at after
      split at after
      · refine ⟨time, ?_⟩
        rw [entryOr_of_some after, attach_last, attach_blockLeader]
        exact ⟨rfl, rfl⟩
      · rw [same after]
        exact ⟨now, rfl, rfl⟩
  | pin time key =>
      have after := st.getEntry_step (.pin time key) (.bbo coin)
      rw [entryAfter] at after
      split at after
      · refine ⟨time, ?_⟩
        rw [entryOr_of_some after]
        exact ⟨rfl, rfl⟩
      · rw [same after]
        exact ⟨now, rfl, rfl⟩
  | unsubscribe client key => exact absurd stays not_false
  | cleanupClient client => exact absurd stays not_false
  | onUpdate time message =>
      have other : message.key ≠ .bbo coin := by
        intro own
        rw [Op.hears, if_pos own] at silent
        cases silent
      have after := st.getEntry_step (.onUpdate time message) (.bbo coin)
      rw [entryAfter, if_neg other] at after
      rw [same after]
      exact ⟨now, rfl, rfl⟩
  | deliverSnapshot client fetched =>
      have other : fetched.key ≠ .bbo coin := by
        intro own
        have incremental := fetched.incremental
        rw [own] at incremental
        cases incremental
      have after := st.getEntry_step (.deliverSnapshot client fetched) (.bbo coin)
      rw [entryAfter, if_neg other] at after
      rw [same after]
      exact ⟨now, rfl, rfl⟩
  | failPending key client =>
      have after := st.getEntry_step (.failPending key client) (.bbo coin)
      rw [entryAfter] at after
      refine ⟨now, ?_⟩
      split at after
      · rw [entryOr, after, entryOr]
        cases st.getEntry (.bbo coin) <;> exact ⟨rfl, rfl⟩
      · rw [same after]
        exact ⟨rfl, rfl⟩
  | resyncAfterSourceLoss source =>
      -- The dead source keeps the lead of the stamp it opened.
      have untouched : ∀ e : SubEntry Message, (e.loseSource source (.bbo coin)).1 = e :=
        fun e => congrArg Prod.fst (loseSource_of_raced e _ _ rfl rfl)
      have after := st.getEntry_step (.resyncAfterSourceLoss source) (.bbo coin)
      simp only [entryAfter, untouched, Option.map_id'] at after
      rw [same after]
      exact ⟨now, rfl, rfl⟩
  | receive client => exact ⟨now, rfl, rfl⟩
  | close client => exact ⟨now, rfl, rfl⟩

/-- Every operation keeps the entry telling what was heard. -/
theorem tells_step {op : Op} (tells : ∀ now, Tells heard (st.entryOr now (.bbo coin)))
    (stays : op.Stays) (positive : ∀ message ∈ op.hears (.bbo coin), 0 < message.seq.stamp)
    (now : Nat) :
    Tells (heard ++ op.hears (.bbo coin)) ((st.step op).entryOr now (.bbo coin)) := by
  by_cases silent : op.hears (.bbo coin) = []
  · obtain ⟨before, last, leader⟩ := entryOr_step_of_silent st stays silent now
    rw [silent, List.append_nil]
    exact (tells before).congr last leader
  · cases op with
    | onUpdate time message =>
        have routed : message.key = .bbo coin := by
          by_contra other
          exact silent (if_neg other)
        have hears : (Op.onUpdate time message).hears (.bbo coin) = [message] := if_pos routed
        rw [hears] at positive ⊢
        have after := st.getEntry_step (.onUpdate time message) (.bbo coin)
        rw [entryAfter, if_pos routed] at after
        rw [entryOr_of_some after]
        exact (tells time).next routed (positive message List.mem_cons_self) time
    | _ => exact absurd rfl silent

/-- An operation brings in one frame of a key at most. -/
theorem hears_cases (key : SubKey) (op : Op) :
    op.hears key = [] ∨ ∃ message, op.hears key = [message] := by
  cases op with
  | onUpdate now message =>
      rw [Op.hears]
      split
      · exact Or.inr ⟨message, rfl⟩
      · exact Or.inl rfl
  | _ => exact Or.inl rfl

theorem heardOver_append (key : SubKey) (first second : List Op) :
    heardOver key (first ++ second) = heardOver key first ++ heardOver key second :=
  List.flatMap_append

/-- After any run the entry tells what the run brought in. -/
theorem tells_run (unheard : st.Unheard (.bbo coin)) (ops : List Op)
    (stays : ∀ op ∈ ops, op.Stays)
    (positive : ∀ message ∈ heardOver (.bbo coin) ops, 0 < message.seq.stamp) (now : Nat) :
    Tells (heardOver (.bbo coin) ops) ((run step st ops).entryOr now (.bbo coin)) := by
  induction ops using List.reverseRecOn generalizing now with
  | nil => exact tells_of_unheard unheard now
  | append_singleton earlier op inductionHypothesis =>
      rw [heardOver_append] at positive ⊢
      rw [run_append]
      have before := inductionHypothesis
        (fun op member => stays op (List.mem_append_left _ member))
        (fun message member => positive message (List.mem_append_left _ member))
      have hears : heardOver (.bbo coin) [op] = op.hears (.bbo coin) := List.flatMap_singleton ..
      rw [hears] at positive ⊢
      exact tells_step before (stays op (by simp))
        (fun message member => positive message (List.mem_append_right _ member)) now

/-! ### What goes out -/

/-- A frame goes out exactly when the rule lets it. -/
theorem goesOut_iff (unheard : st.Unheard (.bbo coin)) {earlier : List Op}
    (stays : ∀ op ∈ earlier, op.Stays)
    (positive : ∀ message ∈ heardOver (.bbo coin) earlier, 0 < message.seq.stamp)
    (routed : message.key = .bbo coin) (own : 0 < message.seq.stamp) (now : Nat) :
    (run step st earlier).forwardedBy (.bbo coin) (.onUpdate now message) = [message] ↔
      IsDue (heardOver (.bbo coin) earlier) message := by
  rw [forwardedBy_onUpdate_iff, and_iff_right routed]
  exact (tells_run unheard earlier stays positive now).accepts_iff routed own

/-- The start of a list that passes a test grows at its end only while everything passes. -/
theorem takeWhile_snoc {α : Type} (p : α → Bool) (items : List α) (item : α) :
    (items ++ [item]).takeWhile p =
      items.takeWhile p ++ if (∀ other ∈ items, p other) ∧ p item then [item] else [] := by
  induction items with
  | nil => by_cases passes : p item <;> simp [passes]
  | cons first rest inductionHypothesis =>
      by_cases passes : p first = true
      · simp [passes, inductionHypothesis]
      · simp [passes]

/-- What a stamp's opener carries grows by the frames the rule lets out. -/
theorem carried_snoc (heard : List Message) (message : Message) (v : Nat) :
    carried (heard ++ [message]) v =
      carried heard v ++
        if message.seq.stamp = v ∧ IsDue heard message then [message] else [] := by
  have grown := takeWhile_snoc (fun other : Message => other.seq.stamp ≤ v) heard message
  simp only [decide_eq_true_eq] at grown
  by_cases own : message.seq.stamp = v
  · subst own
    have opens := opener_append heard [message] message.seq.stamp
    rw [opener_self] at opens
    by_cases newest : ∀ other ∈ heard, other.seq.stamp ≤ message.seq.stamp
    · rw [if_pos ⟨newest, Nat.le_refl _⟩] at grown
      cases opened : opener heard message.seq.stamp with
      | some first =>
          rw [opened, Option.some_or] at opens
          by_cases same : first.source = message.source
          · rw [if_pos ⟨rfl, newest, by rw [opens, Option.map_some, same]⟩, carried, carried, opens,
              opened, grown]
            simp [same]
          · rw [if_neg fun both => same (by simpa [opens] using both.2.2), carried, carried, opens,
              opened, grown]
            simp [Ne.symm same]
      | none =>
          -- Nobody opened the stamp before, so nothing heard bears it.
          rw [opened, Option.none_or] at opens
          have unborn : ∀ other ∈ heard, other.seq.stamp ≠ message.seq.stamp := by
            intro other member same
            exact absurd (decide_eq_true same) (List.find?_eq_none.mp opened other member)
          have nothing : (heard.takeWhile (·.seq.stamp ≤ message.seq.stamp)).filter (fun other =>
              other.seq.stamp = message.seq.stamp ∧ other.source = message.source) = [] := by
            rw [List.filter_eq_nil_iff]
            intro other member same
            exact unborn other ((List.takeWhile_sublist _).mem member) (of_decide_eq_true same).1
          rw [if_pos ⟨rfl, newest, by rw [opens, Option.map_some]⟩, carried, carried, opens, opened,
            grown]
          dsimp only
          rw [List.filter_append, nothing]
          simp
    · rw [if_neg fun both => newest both.1, List.append_nil] at grown
      rw [if_neg fun both => newest both.2.1, List.append_nil, carried, carried, opens, grown]
      cases opened : opener heard message.seq.stamp with
      | some first => rfl
      | none =>
          rw [Option.none_or]
          dsimp only
          rw [List.filter_eq_nil_iff]
          intro other member same
          have bears := List.find?_eq_none.mp opened other ((List.takeWhile_sublist _).mem member)
          exact bears (decide_eq_true (of_decide_eq_true same).1)
  · have other : opener [message] v = none := by simp [opener, own]
    rw [if_neg fun both => own both.1, List.append_nil, carried, carried, opener_append, other,
      Option.or_none, grown]
    cases opener heard v with
    | none => rfl
    | some first =>
        dsimp only
        rw [List.filter_append]
        split
        · simp [own]
        · simp

theorem forwardedOver_snoc (key : SubKey) (st : Live) (earlier : List Op) (op : Op) :
    forwardedOver key st (earlier ++ [op]) =
      forwardedOver key st earlier ++ (run step st earlier).forwardedBy key op := by
  induction earlier generalizing st with
  | nil => exact List.append_nil _
  | cons first rest inductionHypothesis =>
      rw [List.cons_append, forwardedOver, inductionHypothesis, forwardedOver, run_cons,
        List.append_assoc]

section Outcome

variable (unheard : st.Unheard (.bbo coin))
include unheard

/-- Of the frames an operation brings in, those the rule lets out go out. -/
theorem forwardedBy_run {earlier : List Op} {op : Op} (stays : ∀ op ∈ earlier, op.Stays)
    (positive : ∀ message ∈ heardOver (.bbo coin) (earlier ++ [op]), 0 < message.seq.stamp) :
    (run step st earlier).forwardedBy (.bbo coin) op =
      (op.hears (.bbo coin)).filter fun message =>
        IsDue (heardOver (.bbo coin) earlier) message := by
  rw [heardOver_append] at positive
  cases op with
  | onUpdate now message =>
      by_cases routed : message.key = .bbo coin
      · have hears : (Op.onUpdate now message).hears (.bbo coin) = [message] := if_pos routed
        have own : 0 < message.seq.stamp := by
          apply positive
          simp [heardOver, hears]
        have tells := tells_run unheard earlier stays
          (fun other member => positive other (List.mem_append_left _ member)) now
        have accepts := tells.accepts_iff routed own
        rw [hears, forwardedBy, List.filter_singleton, Bool.cond_decide]
        simp only [routed, true_and, accepts]
      · rw [forwardedBy, if_neg fun both => routed both.1, Op.hears, if_neg routed,
          List.filter_nil]
  | _ => rfl

/-- What goes out, stamp by stamp, in the order in which it was heard. -/
theorem forwardedOver_carried {ops : List Op} (stays : ∀ op ∈ ops, op.Stays)
    (positive : ∀ message ∈ heardOver (.bbo coin) ops, 0 < message.seq.stamp) :
    (∀ message ∈ forwardedOver (.bbo coin) st ops, message ∈ heardOver (.bbo coin) ops) ∧
      (forwardedOver (.bbo coin) st ops).Pairwise (·.seq.stamp ≤ ·.seq.stamp) ∧
      ∀ v, (forwardedOver (.bbo coin) st ops).filter (·.seq.stamp = v) =
        carried (heardOver (.bbo coin) ops) v := by
  induction ops using List.reverseRecOn with
  | nil =>
      refine ⟨fun _ member => member, List.Pairwise.nil, fun v => ?_⟩
      rfl
  | append_singleton earlier op inductionHypothesis =>
      have goesOut := forwardedBy_run unheard
        (fun op member => stays op (List.mem_append_left _ member)) positive
      rw [forwardedOver_snoc, goesOut]
      rw [heardOver_append] at positive ⊢
      obtain ⟨among, ordered, exactly⟩ := inductionHypothesis
        (fun op member => stays op (List.mem_append_left _ member))
        (fun message member => positive message (List.mem_append_left _ member))
      have hears : heardOver (.bbo coin) [op] = op.hears (.bbo coin) := List.flatMap_singleton ..
      rw [hears]
      refine ⟨?_, ?_, fun v => ?_⟩
      · intro message member
        rcases List.mem_append.mp member with old | fresh
        · exact List.mem_append_left _ (among message old)
        · exact List.mem_append_right _ (List.mem_of_mem_filter fresh)
      · rw [List.pairwise_append]
        refine ⟨ordered, ?_, fun first member second fresh => ?_⟩
        · rcases hears_cases (.bbo coin) op with silent | ⟨message, brings⟩
          · rw [silent]
            exact List.Pairwise.nil
          · rw [brings]
            exact List.Pairwise.filter _ (List.pairwise_singleton _ _)
        · exact (of_decide_eq_true (List.mem_filter.mp fresh).2).1 first (among first member)
      · rw [List.filter_append, exactly]
        rcases hears_cases (.bbo coin) op with silent | ⟨message, brings⟩
        · rw [silent, List.filter_nil, List.filter_nil, List.append_nil, List.append_nil]
        · rw [brings, carried_snoc, List.filter_filter, List.filter_singleton,
            ← Bool.decide_and, Bool.cond_decide]

end Outcome

/-- Lead mode, exactly. A frame goes out if and only if nothing newer was heard before it and the
first frame heard with its stamp came from its own source. Hence the stamps that go out never
fall, and of each stamp there goes out, in order, what its opener's source sent of it before
anything newer was heard, and nothing else. -/
theorem lead_mode_exactly (unheard : st.Unheard (.bbo coin)) (ops : List Op)
    (stays : ∀ op ∈ ops, op.Stays)
    (positive : ∀ message ∈ heardOver (.bbo coin) ops, 0 < message.seq.stamp) :
    (∀ earlier now message later, ops = earlier ++ .onUpdate now message :: later →
      message.key = .bbo coin →
      ((run step st earlier).forwardedBy (.bbo coin) (.onUpdate now message) = [message] ↔
        (∀ other ∈ heardOver (.bbo coin) earlier, other.seq.stamp ≤ message.seq.stamp) ∧
          (opener (heardOver (.bbo coin) earlier ++ [message]) message.seq.stamp).map
            (·.source) = some message.source)) ∧
      (forwardedOver (.bbo coin) st ops).Pairwise (·.seq.stamp ≤ ·.seq.stamp) ∧
      ∀ v, (forwardedOver (.bbo coin) st ops).filter (·.seq.stamp = v) =
        carried (heardOver (.bbo coin) ops) v := by
  refine ⟨?_, (forwardedOver_carried unheard stays positive).2⟩
  rintro earlier now message later rfl routed
  rw [heardOver_append] at positive
  have own : message ∈ heardOver (.bbo coin) (.onUpdate now message :: later) := by
    simp [heardOver, Op.hears, routed]
  exact goesOut_iff unheard (fun op member => stays op (List.mem_append_left _ member))
    (fun other member => positive other (List.mem_append_left _ member)) routed
    (positive message (List.mem_append_right _ own)) now

theorem unheard_new (sources : List Source) (key : SubKey) :
    Unheard (AppState.new sources) key := by
  intro e found
  cases found

/-- Source 0 opens stamp 5, is lost while holding it and comes back to it; source 1 is heard in
between and after it. -/
def interleaved : List Op :=
  [.onUpdate 0 (.bboFrame 0 "BTC" 5 "a1"), .onUpdate 1 (.bboFrame 1 "BTC" 5 "b1"),
    .resyncAfterSourceLoss 0, .onUpdate 2 (.bboFrame 0 "BTC" 5 "a2"),
    .onUpdate 3 (.bboFrame 1 "BTC" 6 "b2"), .onUpdate 4 (.bboFrame 0 "BTC" 5 "a3")]

/-- The stamp of a lost source stays its own. -/
theorem lead_mode_exactly_interleaved :
    (forwardedOver (.bbo "BTC") (AppState.new []) interleaved).filter (·.seq.stamp = 5) =
      [.bboFrame 0 "BTC" 5 "a1", .bboFrame 0 "BTC" 5 "a2"] :=
  ((lead_mode_exactly (unheard_new [] (.bbo "BTC")) interleaved (by simp [interleaved, Op.Stays])
    (by decide)).2.2 5).trans (by decide)

end Wsarb
