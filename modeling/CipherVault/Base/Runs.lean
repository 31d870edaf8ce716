import Mathlib.Logic.Basic

/-!
# Base.Runs

A run is the fold of the step function over its events; `Along` puts a condition on every event, in
the state that the event meets.
-/

namespace CipherVault.Runs

variable {σ ε : Type} {step : σ → ε → σ} {holds holds' : σ → ε → Prop} {I : σ → Prop}

/-- The condition holds at every step of the run. -/
def Along (step : σ → ε → σ) (holds : σ → ε → Prop) (s : σ) : List ε → Prop
  | [] => True
  | event :: events => holds s event ∧ Along step holds (step s event) events

instance instDecidableAlong [∀ s event, Decidable (holds s event)] :
    ∀ (s : σ) (events : List ε), Decidable (Along step holds s events)
  | _, [] => .isTrue trivial
  | s, event :: events =>
    have : Decidable (Along step holds (step s event) events) := instDecidableAlong _ events
    inferInstanceAs (Decidable (holds s event ∧ Along step holds (step s event) events))

variable {s : σ} {events : List ε}

theorem along_of_forall (h : ∀ s event, holds s event) : Along step holds s events := by
  induction events generalizing s with
  | nil => trivial
  | cons event events ih => exact ⟨h s event, ih⟩

theorem Along.drop {before after : List ε} (h : Along step holds s (before ++ after)) :
    Along step holds (before.foldl step s) after := by
  induction before generalizing s with
  | nil => exact h
  | cons event before ih => exact ih h.2

theorem Along.and (h : Along step holds s events) (h' : Along step holds' s events) :
    Along step (fun s event => holds s event ∧ holds' s event) s events := by
  induction events generalizing s with
  | nil => trivial
  | cons event events ih => exact ⟨⟨h.1, h'.1⟩, ih h.2 h'.2⟩

theorem Along.keeps (hstep : ∀ s event, holds s event → I s → I (step s event))
    (hall : Along step holds s events)
    (hs : I s) : I (events.foldl step s) := by
  induction events generalizing s with
  | nil => exact hs
  | cons event events ih => exact ih hall.2 (hstep s event hall.1 hs)

theorem Along.imp (hstep : ∀ s event, holds s event → I s → I (step s event) ∧ holds' s event)
    (hall : Along step holds s events) (hs : I s) : Along step holds' s events := by
  induction events generalizing s with
  | nil => trivial
  | cons event events ih =>
    obtain ⟨hinv, hev⟩ := hstep s event hall.1 hs
    exact ⟨hev, ih hall.2 hinv⟩

end CipherVault.Runs
