import Mathlib.Data.List.Basic

/-!
Owns runs of a deterministic machine: the state after a list of inputs, a condition
holding at every step of a run, and the induction that carries an invariant along the
runs whose steps all meet the condition.
-/

namespace Wsarb.Library

universe u v

variable {σ : Type u} {ι : Type v} (step : σ → ι → σ)

/-- The state after a list of inputs. -/
def run (start : σ) (inputs : List ι) : σ := inputs.foldl step start

/-- Every step of the run meets the condition, taken on the state before it. -/
def Throughout (cond : σ → ι → Prop) : σ → List ι → Prop
  | _, [] => True
  | start, input :: rest => cond start input ∧ Throughout cond (step start input) rest

instance decidableThroughout (cond : σ → ι → Prop)
    [∀ state input, Decidable (cond state input)] :
    ∀ start inputs, Decidable (Throughout step cond start inputs)
  | _, [] => isTrue trivial
  | start, input :: rest =>
      have := decidableThroughout cond (step start input) rest
      inferInstanceAs (Decidable (_ ∧ _))

/-- Every state of the run, the first and the last among them, has the property. -/
def Always (good : σ → Prop) : σ → List ι → Prop
  | start, [] => good start
  | start, input :: rest => good start ∧ Always good (step start input) rest

instance decidableAlways (good : σ → Prop) [∀ state, Decidable (good state)] :
    ∀ start inputs, Decidable (Always step good start inputs)
  | start, [] => inferInstanceAs (Decidable (good start))
  | start, input :: rest =>
      have := decidableAlways good (step start input) rest
      inferInstanceAs (Decidable (_ ∧ _))

/-- The states a run from `start` can end in. -/
def Reachable (start state : σ) : Prop := ∃ inputs, run step start inputs = state

@[simp] theorem run_nil (start : σ) : run step start [] = start := rfl

@[simp] theorem run_cons (start : σ) (input : ι) (rest : List ι) :
    run step start (input :: rest) = run step (step start input) rest := rfl

theorem run_append (start : σ) (first second : List ι) :
    run step start (first ++ second) = run step (run step start first) second :=
  List.foldl_append

@[simp] theorem throughout_nil (cond : σ → ι → Prop) (start : σ) :
    Throughout step cond start [] := trivial

@[simp] theorem throughout_cons (cond : σ → ι → Prop) (start : σ) (input : ι) (rest : List ι) :
    Throughout step cond start (input :: rest) ↔
      cond start input ∧ Throughout step cond (step start input) rest := Iff.rfl

theorem throughout_append (cond : σ → ι → Prop) (start : σ) (first second : List ι) :
    Throughout step cond start (first ++ second) ↔
      Throughout step cond start first ∧
        Throughout step cond (run step start first) second := by
  induction first generalizing start with
  | nil => simp
  | cons input rest inductionHypothesis =>
      simp only [List.cons_append, throughout_cons, run_cons, inductionHypothesis, and_assoc]

variable {step}

theorem Throughout.and {cond other : σ → ι → Prop} {start : σ} {inputs : List ι}
    (first : Throughout step cond start inputs) (second : Throughout step other start inputs) :
    Throughout step (fun state input => cond state input ∧ other state input) start inputs := by
  induction inputs generalizing start with
  | nil => trivial
  | cons input rest inductionHypothesis =>
      exact ⟨⟨first.1, second.1⟩, inductionHypothesis first.2 second.2⟩

theorem Always.first {good : σ → Prop} {start : σ} {inputs : List ι}
    (always : Always step good start inputs) : good start := by
  cases inputs with
  | nil => exact always
  | cons input rest => exact always.1

theorem Always.last {good : σ → Prop} {start : σ} {inputs : List ι}
    (always : Always step good start inputs) : good (run step start inputs) := by
  induction inputs generalizing start with
  | nil => exact always
  | cons input rest inductionHypothesis => exact inductionHypothesis always.2

/-- A condition every input meets whatever the state is met throughout. -/
theorem throughout_of_forall {cond : σ → ι → Prop} (start : σ) {inputs : List ι}
    (holds : ∀ input ∈ inputs, ∀ state, cond state input) :
    Throughout step cond start inputs := by
  induction inputs generalizing start with
  | nil => trivial
  | cons input rest inductionHypothesis =>
      obtain ⟨first, later⟩ := List.forall_mem_cons.mp holds
      exact ⟨first start, inductionHypothesis (step start input) later⟩

/-- An invariant that every step meeting the condition keeps holds at the end of every
run whose steps all meet it. -/
theorem run_keeps {cond : σ → ι → Prop} {Inv : σ → Prop}
    (keeps : ∀ state input, Inv state → cond state input → Inv (step state input))
    {start : σ} (inputs : List ι) (holds : Inv start)
    (meets : Throughout step cond start inputs) : Inv (run step start inputs) := by
  induction inputs generalizing start with
  | nil => exact holds
  | cons input rest inductionHypothesis =>
      exact inductionHypothesis (keeps start input holds meets.1) meets.2

/-- A property that every step meeting the condition keeps holds all along the runs whose steps
all meet it. -/
theorem always_of_keeps {cond : σ → ι → Prop} {good : σ → Prop}
    (keeps : ∀ state input, good state → cond state input → good (step state input))
    {start : σ} (inputs : List ι) (holds : good start)
    (meets : Throughout step cond start inputs) : Always step good start inputs := by
  induction inputs generalizing start with
  | nil => exact holds
  | cons input rest inductionHypothesis =>
      exact ⟨holds, inductionHypothesis (keeps start input holds meets.1) meets.2⟩

/-- Where an invariant makes every step that meets a condition have a property, every step
of such a run has it. -/
theorem throughout_of_invariant {cond good : σ → ι → Prop} {Inv : σ → Prop}
    (keeps : ∀ state input, Inv state → cond state input → Inv (step state input))
    (sound : ∀ state input, Inv state → cond state input → good state input)
    {start : σ} (inputs : List ι) (holds : Inv start)
    (meets : Throughout step cond start inputs) : Throughout step good start inputs := by
  induction inputs generalizing start with
  | nil => trivial
  | cons input rest inductionHypothesis =>
      exact ⟨sound start input holds meets.1,
        inductionHypothesis (keeps start input holds meets.1) meets.2⟩

/-- Where an invariant implies a property, is kept by the steps that meet a condition, and
the property breaks at once by any other step, the runs that have the property at every
point are exactly those whose steps all meet the condition. -/
theorem throughout_iff_prefixes {cond : σ → ι → Prop} {Inv Good : σ → Prop}
    (good : ∀ state, Inv state → Good state)
    (keeps : ∀ state input, Inv state → cond state input → Inv (step state input))
    (breaks : ∀ state input, Inv state → Good (step state input) → cond state input)
    {start : σ} (inputs : List ι) (holds : Inv start) :
    (∀ part, part <+: inputs → Good (run step start part)) ↔
      Throughout step cond start inputs := by
  induction inputs generalizing start with
  | nil =>
      constructor
      · exact fun _ => trivial
      · rintro - part isPrefix
        rw [List.prefix_nil.mp isPrefix]
        exact good start holds
  | cons input rest inductionHypothesis =>
      constructor
      · intro always
        have meets : cond start input :=
          breaks start input holds (always [input] (List.prefix_append [input] rest))
        refine ⟨meets, (inductionHypothesis (keeps start input holds meets)).mp ?_⟩
        intro part isPrefix
        exact always (input :: part) (List.cons_prefix_cons.mpr ⟨rfl, isPrefix⟩)
      · rintro ⟨meets, later⟩ part isPrefix
        rcases part with _ | ⟨first, part⟩
        · exact good start holds
        · obtain ⟨rfl, shorter⟩ := List.cons_prefix_cons.mp isPrefix
          exact (inductionHypothesis (keeps start first holds meets)).mpr later part shorter

/-- An invariant that every step keeps holds in every reachable state. -/
theorem Reachable.invariant {Inv : σ → Prop} {start state : σ}
    (reachable : Reachable step start state) (holds : Inv start)
    (keeps : ∀ state input, Inv state → Inv (step state input)) : Inv state := by
  obtain ⟨inputs, rfl⟩ := reachable
  induction inputs generalizing start with
  | nil => exact holds
  | cons input rest inductionHypothesis => exact inductionHypothesis (keeps start input holds)

theorem Reachable.next {start state : σ} (reachable : Reachable step start state) (input : ι) :
    Reachable step start (step state input) := by
  obtain ⟨inputs, rfl⟩ := reachable
  exact ⟨inputs ++ [input], by rw [run_append]; rfl⟩

section Projection

universe w

variable {τ : Type w} {step' : τ → ι → τ} (proj : σ → τ)
  (commutes : ∀ state input, proj (step state input) = step' (proj state) input)
include commutes

/-- What a machine that keeps record of another leaves of it. -/
theorem run_proj (start : σ) (inputs : List ι) :
    proj (run step start inputs) = run step' (proj start) inputs := by
  induction inputs generalizing start with
  | nil => rfl
  | cons input rest inductionHypothesis => rw [run_cons, inductionHypothesis, commutes, run_cons]

theorem throughout_proj {cond : τ → ι → Prop} (start : σ) (inputs : List ι) :
    Throughout step (fun state input => cond (proj state) input) start inputs ↔
      Throughout step' cond (proj start) inputs := by
  induction inputs generalizing start with
  | nil => exact Iff.rfl
  | cons input rest inductionHypothesis =>
      rw [throughout_cons, throughout_cons, inductionHypothesis, commutes]

end Projection

end Wsarb.Library
