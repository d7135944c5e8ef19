import Mathlib.Logic.Function.Basic
import Wsarb.Library.Run

/-!
Owns the interleavings of several speakers, each of whom reads its own script in order
and may stop anywhere. A turn names who speaks next; a speaker at the end of its script
stays silent. Every order of turns gives one interleaving of prefixes of the scripts, and
every such interleaving arises this way.
-/

namespace Wsarb.Library

universe u v w x

variable {ι : Type u} {τ : Type v} {α : Type w} {σ : Type x} [DecidableEq ι]

/-- How far each speaker has read, and the state of the one who listens. -/
structure Talk (ι : Type u) (σ : Type x) where
  said : ι → Nat
  state : σ

namespace Talk

def start (state : σ) : Talk ι σ := ⟨fun _ => 0, state⟩

variable (scripts : ι → List α) (who : τ → ι) (hear : σ → τ → α → σ)

/-- The line a turn would bring. -/
def nextLine (talk : Talk ι σ) (turn : τ) : Option α := (scripts (who turn))[talk.said (who turn)]?

def step (talk : Talk ι σ) (turn : τ) : Talk ι σ :=
  match talk.nextLine scripts who turn with
  | none => talk
  | some line =>
      { said := Function.update talk.said (who turn) (talk.said (who turn) + 1)
        state := hear talk.state turn line }

variable {scripts who hear} {talk : Talk ι σ} {turn : τ}

theorem step_of_silent (silent : talk.nextLine scripts who turn = none) :
    talk.step scripts who hear turn = talk := by
  rw [step, silent]

theorem step_of_line {line : α} (next : talk.nextLine scripts who turn = some line) :
    talk.step scripts who hear turn =
      { said := Function.update talk.said (who turn) (talk.said (who turn) + 1)
        state := hear talk.state turn line } := by
  rw [step, next]

end Talk

end Wsarb.Library
