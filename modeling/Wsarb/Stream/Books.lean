import Wsarb.State.Transitions

/-!
Owns what a client's queue says about the book it holds on a key: the source of the last
snapshot queued to it, and whether every increment queued after a snapshot came from the
same source as that snapshot.

Does not own: what the shared state does; these are facts about lists of messages.
-/

namespace Wsarb

/-- The source of the last snapshot queued on a key. -/
def base (key : SubKey) (log : List Message) : Option Nat :=
  log.foldl
    (fun base message =>
      if message.key = key ∧ message.seq.isSnapshot = true then some message.source else base)
    none

/-- Every increment queued after a snapshot came from that snapshot's source. -/
def NoSplice (key : SubKey) (log : List Message) : Prop :=
  ∀ before item, before ++ [item] <+: log → item.key = key → item.seq.isIncrement = true →
    ∀ source, base key before = some source → item.source = source

/-- The book a queue leaves its reader with, if any, is the one of `source`. -/
def Follows (key : SubKey) (log : List Message) (source : Nat) : Prop :=
  base key log = none ∨ base key log = some source

section Append

variable {key : SubKey} {log items : List Message} {item : Message} {source : Nat}

theorem base_append_singleton :
    base key (log ++ [item]) =
      if item.key = key ∧ item.seq.isSnapshot = true then some item.source
      else base key log := by
  rw [base, List.foldl_append]
  rfl

theorem noSplice_nil : NoSplice key [] := by
  intro before item isPrefix
  simp at isPrefix

theorem noSplice_append_singleton (holds : NoSplice key log)
    (fits : item.key = key → item.seq.isIncrement = true →
      ∀ source, base key log = some source → item.source = source) :
    NoSplice key (log ++ [item]) := by
  intro before last isPrefix
  rcases List.prefix_concat_iff.mp isPrefix with whole | shorter
  · obtain ⟨rfl, same⟩ := List.append_inj' whole rfl
    obtain rfl := List.singleton_inj.mp same
    exact fits
  · exact holds before last shorter

/-- Messages of other keys change nothing. -/
theorem append_of_other (other : ∀ item ∈ items, item.key ≠ key) :
    base key (log ++ items) = base key log ∧ (NoSplice key log → NoSplice key (log ++ items)) := by
  induction items generalizing log with
  | nil => simp
  | cons first rest inductionHypothesis =>
      obtain ⟨firstOther, restOther⟩ := List.forall_mem_cons.mp other
      have unchanged : base key (log ++ [first]) = base key log := by
        rw [base_append_singleton, if_neg fun both => firstOther both.1]
      rw [List.append_cons]
      obtain ⟨same, keeps⟩ := @inductionHypothesis (log ++ [first]) restOther
      refine ⟨same.trans unchanged, fun holds => keeps ?_⟩
      exact noSplice_append_singleton holds fun routed => absurd routed firstOther

/-- Messages from the source a book follows keep it one source's book. -/
theorem append_of_follows (own : ∀ item ∈ items, item.key = key → item.source = source)
    (follows : Follows key log source) :
    Follows key (log ++ items) source ∧ (NoSplice key log → NoSplice key (log ++ items)) := by
  induction items generalizing log with
  | nil => simpa using follows
  | cons first rest inductionHypothesis =>
      obtain ⟨firstOwn, restOwn⟩ := List.forall_mem_cons.mp own
      have still : Follows key (log ++ [first]) source := by
        unfold Follows
        rw [base_append_singleton]
        split_ifs with snapshot
        · exact Or.inr (congrArg some (firstOwn snapshot.1))
        · exact follows
      rw [List.append_cons]
      obtain ⟨after, keeps⟩ := inductionHypothesis restOwn still
      refine ⟨after, fun holds => keeps (noSplice_append_singleton holds ?_)⟩
      intro routed _ other follow
      have followed : some other = some source := by
        rcases follows with none | same
        · exact absurd (none.symm.trans follow) (Option.some_ne_none other).symm
        · exact follow.symm.trans same
      exact (firstOwn routed).trans (Option.some.inj followed).symm

/-- A snapshot and messages from its own source start one source's book. -/
theorem append_of_snapshot (routed : item.key = key) (snapshot : item.seq.isSnapshot = true)
    (own : ∀ later ∈ items, later.key = key → later.source = item.source) :
    Follows key (log ++ item :: items) item.source ∧
      (NoSplice key log → NoSplice key (log ++ item :: items)) := by
  have starts : Follows key (log ++ [item]) item.source := by
    right
    rw [base_append_singleton, if_pos ⟨routed, snapshot⟩]
  have notIncrement : ¬ item.seq.isIncrement = true := by
    cases seq : item.seq <;> simp_all [Seq.isIncrement, Seq.isSnapshot]
  rw [List.append_cons]
  obtain ⟨after, keeps⟩ := append_of_follows own starts
  exact ⟨after, fun holds => keeps (noSplice_append_singleton holds
    fun _ increment => absurd increment notIncrement)⟩

end Append

end Wsarb
