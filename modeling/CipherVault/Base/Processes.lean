import CipherVault.Base.Runs
import Mathlib.Logic.Function.Basic

/-!
# Base.Processes

Processes that share a store. A call is worked off one atomic access at a time; in between any other
process can have its own, and a process can crash. What a process still has to do is its state.
-/

namespace CipherVault.Processes

open Function

/-- What the processes run, over a store `δ`, states `π` of a process and calls `ρ`. -/
structure Program (δ π ρ : Type) where
  idle : π
  isIdle : π → Bool
  begin : ρ → π
  advance : δ → π → δ × π

/-- Processes over one store. -/
structure System (δ π : Type) where
  store : δ
  processes : Nat → π

/-- A process gets a request, goes on by a step, or dies. -/
inductive Event (ρ : Type) where
  | call (p : Nat) (request : ρ)
  | proceed (p : Nat)
  | crash (p : Nat)

variable {δ π ρ : Type} (P : Program δ π ρ) (s : System δ π)

namespace System

def new (store : δ) : System δ π := ⟨store, fun _ => P.idle⟩

def set (p : Nat) (process : π) : System δ π :=
  { s with processes := update s.processes p process }

@[simp] theorem set_self (p : Nat) (process : π) : (s.set p process).processes p = process :=
  update_self ..

theorem set_of_ne {q p : Nat} (h : q ≠ p) (s : System δ π) (process : π) :
    (s.set p process).processes q = s.processes q :=
  update_of_ne h ..

end System

def step : Event ρ → System δ π
  | .call p request => if P.isIdle (s.processes p) then s.set p (P.begin request) else s
  | .proceed p =>
    { s.set p (P.advance s.store (s.processes p)).2 with
      store := (P.advance s.store (s.processes p)).1 }
  | .crash p => s.set p P.idle

def run (events : List (Event ρ)) : System δ π := events.foldl (step P) s

theorem run_append (before after : List (Event ρ)) :
    run P s (before ++ after) = run P (run P s before) after := List.foldl_append

theorem step_store (event : Event ρ) : (step P s event).store = s.store ∨ ∃ p, event = .proceed p ∧
      (step P s event).store = (P.advance s.store (s.processes p)).1 := by
  cases event with
  | call p request =>
    rw [step]
    split
    · exact .inl rfl
    · exact .inl rfl
  | proceed p => exact .inr ⟨p, rfl, rfl⟩
  | crash p => exact .inl rfl

end CipherVault.Processes
