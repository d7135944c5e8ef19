import Wsarb.Library.Run

/-!
Owns what the steps of a run add up to: something weighed at each step, and the balance of a stock
with what comes in and what goes out.

Does not own: what is weighed.
-/

namespace Wsarb.Library

universe u v

variable {σ : Type u} {ι : Type v} (step : σ → ι → σ)

def total (weigh : σ → ι → Nat) : σ → List ι → Nat
  | _, [] => 0
  | start, input :: rest => weigh start input + total weigh (step start input) rest

variable {step}

/-- Where every step keeps the balance, the run does. -/
theorem stock_balance {stock : σ → Nat} {inflow outflow : σ → ι → Nat}
    (balanced : ∀ state input,
      stock (step state input) + outflow state input = stock state + inflow state input)
    (start : σ) (inputs : List ι) :
    stock (run step start inputs) + total step outflow start inputs =
      stock start + total step inflow start inputs := by
  induction inputs generalizing start with
  | nil => rfl
  | cons input rest inductionHypothesis =>
      have now := balanced start input
      have later := inductionHypothesis (step start input)
      simp only [run_cons, total]
      omega

/-- Where no step weighs more than it takes from a stock and gets from outside, neither does the
run. -/
theorem total_le_supply (stock : σ → Nat) {weigh inflow : σ → ι → Nat}
    (covered : ∀ state input,
      weigh state input + stock (step state input) ≤ stock state + inflow state input)
    (start : σ) (inputs : List ι) :
    total step weigh start inputs ≤ stock start + total step inflow start inputs := by
  induction inputs generalizing start with
  | nil => exact Nat.zero_le _
  | cons input rest inductionHypothesis =>
      have now := covered start input
      have later := inductionHypothesis (step start input)
      simp only [total]
      omega

/-- Where every step that meets a condition from a state with an invariant weighs no more than it
adds to a stock, so does a run of such steps. -/
theorem total_le_stock {Inv : σ → Prop} {cond : σ → ι → Prop} {stock : σ → Nat}
    {weigh : σ → ι → Nat}
    (keeps : ∀ state input, Inv state → cond state input → Inv (step state input))
    (covered : ∀ state input, Inv state → cond state input →
      stock state + weigh state input ≤ stock (step state input))
    {start : σ} (inputs : List ι) (holds : Inv start) (meets : Throughout step cond start inputs) :
    stock start + total step weigh start inputs ≤ stock (run step start inputs) := by
  induction inputs generalizing start with
  | nil => exact Nat.le_refl _
  | cons input rest inductionHypothesis =>
      have now := covered start input holds meets.1
      have later := inductionHypothesis (keeps start input holds meets.1) meets.2
      simp only [run_cons, total]
      omega

end Wsarb.Library
