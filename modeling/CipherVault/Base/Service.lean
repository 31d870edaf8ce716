import CipherVault.Base.Faulty

/-!
# Base.Service

A process that answers calls and keeps its state in files. A file is replaced as a whole: the write
can fail, or be the last thing that the process does, before or after the replacement. A process
that dies is started again.
-/

namespace CipherVault

namespace Faulty

variable {σ ε : Type}

def replace (write : σ → σ) (error : ε) : Faulty Bool σ ε Unit :=
  step (fun s => .ok ((), write s)) (fun replaced s => if replaced then write s else s) error

theorem keeps_replace {I : σ → Prop} {write : σ → σ} {error : ε} (h : ∀ s, I s → I (write s)) :
    Keeps I (replace write error) := by
  refine ensures_step ?_ (fun _ hs => hs) ?_
  · intro s a s' hs heq
    cases heq
    exact h s hs
  · intro s replaced hs
    cases replaced with
    | false => exact hs
    | true => exact h s hs

section

variable {μ α β : Type} {memory : σ → μ} {m : μ} {B D F G : μ → Prop} {x : Faulty Bool σ ε α}
  {f : α → Faulty Bool σ ε β} {g : σ → σ}

/-- From the memory `m` the program comes to one in `D`, or returns an error with one in `F`. -/
def Moves (memory : σ → μ) (m : μ) (x : Faulty Bool σ ε α) (D F : μ → Prop) : Prop :=
  Ends (fun s => memory s = m) x (fun _ s => D (memory s)) (fun s => F (memory s)) fun _ => True

theorem Moves.mono {D' F' : μ → Prop} (hx : Moves memory m x D F) (hD : ∀ m, D m → D' m)
    (hF : ∀ m, F m → F' m) :
    Moves memory m x D' F' :=
  Ends.mono hx (fun _ h => h) (fun _ s => hD (memory s)) (fun s => hF (memory s)) fun _ h => h

theorem Moves.bind (hx : Moves memory m x B F) (hf : ∀ a m', B m' → Moves memory m' (f a) D F) :
    Moves memory m (x >>= f) D F := Ends.bind hx fun a faults s hs => hf a _ hs faults s rfl

theorem Moves.rescue {handle : ε → Faulty Bool σ ε α} (hx : Moves memory m x D G)
    (hhandle : ∀ e m', G m' → Moves memory m' (handle e) D F) : Moves memory m (x.rescue handle) D F :=
  Ends.rescue hx fun e faults s hs => hhandle e _ hs faults s rfl

theorem moves_fail {e : ε} (h : F m) : Moves memory m (fail e : Faulty Bool σ ε α) D F :=
  ends_fail fun _ hs => hs ▸ h

theorem moves_pure {a : α} (h : D m) : Moves memory m (pure a : Faulty Bool σ ε α) D F :=
  ends_pure fun _ hs => hs ▸ h

theorem moves_look {get : σ → α} {P : α → Prop} (hget : ∀ s, memory s = m → P (get s))
    (hf : ∀ a, P a → Moves memory m (f a) D F) : Moves memory m (look get >>= f) D F :=
  fun faults s hs => hf (get s) (hget s hs) faults s hs

theorem moves_update {f : Unit → Faulty Bool σ ε β}
    (hf : ∀ s, memory s = m → Moves memory (memory (g s)) (f ()) D F) : Moves memory m (update g >>= f) D F :=
  fun faults s hs => hf s hs faults (g s) rfl

/-- A write whose failure is answered by an undo. -/
theorem moves_saved {x : Faulty Bool σ ε Unit} {message : ε → ε}
    (hx : Keeps (fun s => memory s = m) x) (hD : D m)
    (hg : ∀ s, memory s = m → F (memory (g s))) :
    Moves memory m (x.rescue fun error => do update g; fail (message error)) D F :=
  Ends.rescue ((hx.ends fun _ _ => trivial).mono (fun _ h => h) (fun _ _ h => h ▸ hD) (fun _ h => h)
    fun _ h => h)
    fun _ => moves_update fun s hs => moves_fail (hg s hs)

end

end Faulty

/-- What the calls do at a time, and what is in memory after a start. -/
structure Service (κ σ ε ι : Type) where
  perform : Nat → ι → Faulty κ σ ε Unit
  start : Nat → σ → σ

namespace Service

variable {κ σ ε ι : Type}

/-- The process starts anew, or answers a call. -/
inductive Event (κ ι : Type) where
  | start (now : Nat)
  | call (now : Nat) (call : ι) (faults : List (Fault κ))

def step (service : Service κ σ ε ι) (s : σ) : Event κ ι → σ
  | .start now => service.start now s
  | .call now call faults =>
    match service.perform now call faults s with
    | (.done _, _, s') => s'
    | (.failed _, _, s') => s'
    | (.crashed, _, s') => service.start now s'

def run (service : Service κ σ ε ι) (s : σ) (events : List (Event κ ι)) : σ := events.foldl service.step s

/-- The request of a call is one of the allowed. -/
def Event.Satisfies (allowed : ι → Prop) : Event κ ι → Prop
  | .start _ => True
  | .call _ request _ => allowed request

section

variable {service : Service κ σ ε ι} {I : σ → Prop} {allowed : ι → Prop}

theorem step_keeps {s : σ} {event : Event κ ι} (hstart : ∀ now s, I s → I (service.start now s))
    (hcall : ∀ now call, allowed call → Faulty.Keeps I (service.perform now call))
    (hevent : event.Satisfies allowed) (hs : I s) : I (service.step s event) := by
  cases event with
  | start now => exact hstart now s hs
  | call now call faults =>
    have hend := hcall now call hevent faults s hs
    rw [step]
    generalize service.perform now call faults s = result at hend
    match result with
    | (.done _, _, s') => exact hend
    | (.failed _, _, s') => exact hend
    | (.crashed, _, s') => exact hstart now s' hend

theorem run_keeps {events : List (Event κ ι)} {s : σ} (hstart : ∀ now s, I s → I (service.start now s))
    (hcall : ∀ now call, allowed call → Faulty.Keeps I (service.perform now call))
    (hall : ∀ event ∈ events, event.Satisfies allowed) (hs : I s) : I (service.run s events) := by
  induction events generalizing s with
  | nil => exact hs
  | cons event events ih =>
    refine ih (fun e he => hall e (List.mem_cons_of_mem _ he)) ?_
    exact step_keeps hstart hcall (hall event List.mem_cons_self) hs

end

end Service
end CipherVault
