import Mathlib.Logic.Basic

/-!
# Base.Faulty

Programs over a state whose every step can fail or be the last one before the process dies. What
befalls the steps is a list that the program consumes; behind its end all steps succeed. `Ensures`
says what holds after a program, and wherever it stops.
-/

namespace CipherVault

/-- What befalls one step. The cut says how far an interrupted step has come. -/
inductive Fault (κ : Type) where
  | none
  | fail (cut : κ)
  | crash (cut : κ)

/-- A result, an error, or the death of the process. -/
inductive Ending (ε α : Type) where
  | done (a : α)
  | failed (e : ε)
  | crashed
deriving DecidableEq

def Faulty (κ σ ε α : Type) : Type := List (Fault κ) → σ → Ending ε α × List (Fault κ) × σ

namespace Faulty

variable {κ σ ε α β : Type}

instance : Monad (Faulty κ σ ε) where
  pure a faults s := (.done a, faults, s)
  bind x f faults s :=
    match x faults s with
    | (.done a, rest, s') => f a rest s'
    | (.failed e, rest, s') => (.failed e, rest, s')
    | (.crashed, rest, s') => (.crashed, rest, s')

def fail (e : ε) : Faulty κ σ ε α := fun faults s => (.failed e, faults, s)

def look (f : σ → α) : Faulty κ σ ε α := fun faults s => (.done (f s), faults, s)

def update (f : σ → σ) : Faulty κ σ ε Unit := fun faults s => (.done (), faults, f s)

def check (condition : Bool) (e : ε) : Faulty κ σ ε Unit := if condition then pure () else fail e

def lift (x : Except ε α) : Faulty κ σ ε α :=
  match x with
  | .ok a => pure a
  | .error e => fail e

def settle (act : σ → Except ε (α × σ)) : Faulty κ σ ε α := fun faults s =>
  match act s with
  | .ok (a, s') => (.done a, faults, s')
  | .error e => (.failed e, faults, s)

def step (act : σ → Except ε (α × σ)) (cutOff : κ → σ → σ) (error : ε) : Faulty κ σ ε α
  | .fail cut :: rest, s => (.failed error, rest, cutOff cut s)
  | .crash cut :: rest, s => (.crashed, rest, cutOff cut s)
  | .none :: rest, s => settle act rest s
  | [], s => settle act [] s

def attempt (x : Faulty κ σ ε α) : Faulty κ σ ε (Except ε α) := fun faults s =>
  match x faults s with
  | (.done a, rest, s') => (.done (.ok a), rest, s')
  | (.failed e, rest, s') => (.done (.error e), rest, s')
  | (.crashed, rest, s') => (.crashed, rest, s')

def mapError (f : ε → ε) (x : Faulty κ σ ε α) : Faulty κ σ ε α := fun faults s =>
  match x faults s with
  | (.failed e, rest, s') => (.failed (f e), rest, s')
  | other => other

def rescue (x : Faulty κ σ ε α) (handle : ε → Faulty κ σ ε α) : Faulty κ σ ε α := fun faults s =>
  match x faults s with
  | (.failed e, rest, s') => handle e rest s'
  | other => other

/-- What an ending says of the state that it leaves. -/
def Ending.Meets (done : α → σ → Prop) (failed crashed : σ → Prop) : Ending ε α × List (Fault κ) × σ → Prop
  | (.done a, _, s) => done a s
  | (.failed _, _, s) => failed s
  | (.crashed, _, s) => crashed s

/-- A rule with one postcondition for each way to end. -/
def Ends (before : σ → Prop) (x : Faulty κ σ ε α) (done : α → σ → Prop) (failed crashed : σ → Prop) : Prop :=
  ∀ faults s, before s → Ending.Meets done failed crashed (x faults s)

variable {before before' : σ → Prop} {x : Faulty κ σ ε α} {f : α → Faulty κ σ ε β} {done done' : α → σ → Prop}
  {done₂ : β → σ → Prop}

variable {handle : ε → Faulty κ σ ε α} {cutOff : κ → σ → σ} {e : ε} {a : α}

variable {condition : Bool}

section

variable {failed failed' crashed crashed' : σ → Prop}

theorem Ending.meets_mono {result : Ending ε α × List (Fault κ) × σ}
    (h : Ending.Meets done failed crashed result)
    (hdone : ∀ a s, done a s → done' a s) (hfailed : ∀ s, failed s → failed' s)
    (hcrashed : ∀ s, crashed s → crashed' s) : Ending.Meets done' failed' crashed' result := by
  match result with
  | (.done a, _, s') => exact hdone a s' h
  | (.failed e, _, s') => exact hfailed s' h
  | (.crashed, _, s') => exact hcrashed s' h

theorem Ends.mono (h : Ends before x done failed crashed) (hbefore : ∀ s, before' s → before s)
    (hdone : ∀ a s, done a s → done' a s) (hfailed : ∀ s, failed s → failed' s)
    (hcrashed : ∀ s, crashed s → crashed' s) : Ends before' x done' failed' crashed' :=
  fun faults s hs => Ending.meets_mono (h faults s (hbefore s hs)) hdone hfailed hcrashed

theorem ends_of_fact (fact : Prop) (hfact : ∀ s, before s → fact)
    (h : fact → Ends before x done failed crashed) :
    Ends before x done failed crashed := fun faults s hs => h (hfact s hs) faults s hs

theorem Ends.pre {B : σ → Prop} (h : Ends B x done failed crashed) (hbefore : ∀ s, before s → B s) :
    Ends before x done failed crashed := fun faults s hs => h faults s (hbefore s hs)

theorem Ends.and (h : Ends before x done failed crashed) (h' : Ends before' x done' failed' crashed') :
    Ends (fun s => before s ∧ before' s) x (fun a s => done a s ∧ done' a s) (fun s => failed s ∧ failed' s)
      (fun s => crashed s ∧ crashed' s) := by
  intro faults s hs
  have hx := h faults s hs.1
  have hx' := h' faults s hs.2
  generalize x faults s = result at hx hx'
  match result with
  | (.done _, _, _) | (.failed _, _, _) | (.crashed, _, _) => exact ⟨hx, hx'⟩

theorem ends_trivial : Ends before x (fun _ _ => True) (fun _ => True) (fun _ => True) := by
  intro faults s _
  match x faults s with
  | (.done _, _, _) | (.failed _, _, _) | (.crashed, _, _) => trivial

theorem ends_pure (h : ∀ s, before s → done a s) :
    Ends before (pure a : Faulty κ σ ε α) done failed crashed := fun _ s hs => h s hs

theorem ends_fail (h : ∀ s, before s → failed s) :
    Ends before (fail e : Faulty κ σ ε α) done failed crashed := fun _ s hs => h s hs

theorem ends_look_self {g : σ → α} : Ends before (look g : Faulty κ σ ε α) (fun _ => before) failed crashed :=
  fun _ _ hs => hs

theorem ends_look_eq {g : σ → α} :
    Ends before (look g : Faulty κ σ ε α) (fun a s => before s ∧ g s = a) failed crashed :=
  fun _ _ hs => ⟨hs, rfl⟩

theorem ends_update {g : σ → σ} {A : σ → Prop} (h : ∀ s, before s → A (g s)) :
    Ends before (update g : Faulty κ σ ε Unit) (fun _ => A) failed crashed := fun _ s hs => h s hs

theorem ends_check {D : Unit → σ → Prop}
    (hdone : ∀ s, before s → condition = true → D () s) (hfailed : ∀ s, before s → failed s) :
    Ends before (check condition e : Faulty κ σ ε Unit) D failed crashed := by
  unfold check
  split
  · rename_i h
    exact ends_pure fun s hs => hdone s hs h
  · exact ends_fail hfailed

theorem ends_lift {y : Except ε α} (hdone : ∀ s a, before s → y = .ok a → done a s)
    (hfailed : ∀ s, before s → failed s) : Ends before (lift y : Faulty κ σ ε α) done failed crashed := by
  cases y with
  | ok a => exact ends_pure fun s hs => hdone s a hs rfl
  | error e => exact ends_fail hfailed

theorem Ends.bind {D : α → σ → Prop} (hx : Ends before x D failed crashed)
    (hf : ∀ a, Ends (D a) (f a) done₂ failed crashed) : Ends before (x >>= f) done₂ failed crashed := by
  intro faults s hs
  have h := hx faults s hs
  show Ending.Meets done₂ failed crashed (match x faults s with
    | (.done a, rest, s') => f a rest s'
    | (.failed e, rest, s') => (.failed e, rest, s')
    | (.crashed, rest, s') => (.crashed, rest, s'))
  generalize x faults s = result at h
  match result with
  | (.done a, rest, s') => exact hf a rest s' h
  | (.failed e, rest, s') => exact h
  | (.crashed, rest, s') => exact h

theorem ends_step {error : ε} {act : σ → Except ε (α × σ)}
    (hact : ∀ s a s', before s → act s = .ok (a, s') → done a s')
    (herror : ∀ s e, before s → act s = .error e → failed s)
    (hfail : ∀ s cut, before s → failed (cutOff cut s))
    (hcrash : ∀ s cut, before s → crashed (cutOff cut s)) :
    Ends before (step act cutOff error : Faulty κ σ ε α) done failed crashed := by
  intro faults s hs
  have hsettle : ∀ rest, Ending.Meets done failed crashed ((settle act : Faulty κ σ ε α) rest s) := by
    intro rest
    rw [settle]
    match hres : act s with
    | .ok (a, s') => exact hact s a s' hs hres
    | .error e => exact herror s e hs hres
  match faults with
  | .fail cut :: rest => exact hfail s cut hs
  | .crash cut :: rest => exact hcrash s cut hs
  | .none :: rest => exact hsettle rest
  | [] => exact hsettle []

theorem Ends.attempt (hx : Ends before x done failed crashed) :
    Ends before x.attempt (fun r s => match r with | .ok a => done a s | .error _ => failed s)
      failed crashed := by
  intro faults s hs
  have h := hx faults s hs
  rw [Faulty.attempt]
  generalize x faults s = result at h
  match result with
  | (.done _, _, _) | (.failed _, _, _) | (.crashed, _, _) => exact h

theorem Ends.mapError (hx : Ends before x done failed crashed) (g : ε → ε) :
    Ends before (x.mapError g) done failed crashed := by
  intro faults s hs
  have h := hx faults s hs
  rw [Faulty.mapError]
  generalize x faults s = result at h
  match result with
  | (.done _, _, _) | (.failed _, _, _) | (.crashed, _, _) => exact h

theorem Ends.rescue (hx : Ends before x done failed' crashed)
    (hhandle : ∀ e, Ends failed' (handle e) done failed crashed) :
    Ends before (x.rescue handle) done failed crashed := by
  intro faults s hs
  have h := hx faults s hs
  rw [Faulty.rescue]
  generalize x faults s = result at h
  match result with
  | (.done a, rest, s') => exact h
  | (.failed e, rest, s') => exact hhandle e rest s' h
  | (.crashed, rest, s') => exact h

end

/-! ## Whatever befalls a program -/

/-- One condition where the program ends, one where it fails or dies. -/
def Ending.Leaves (done : α → σ → Prop) (stopped : σ → Prop) : Ending ε α × List (Fault κ) × σ → Prop
  | (.done a, _, s) => done a s
  | (.failed _, _, s) => stopped s
  | (.crashed, _, s) => stopped s

theorem Ending.eq_of_done {result : Ending ε α × List (Fault κ) × σ} (h : result.1 = .done a) :
    result = (.done a, result.2.1, result.2.2) := by
  rw [← h]

theorem Ending.Leaves.state {holds : σ → Prop} {result : Ending ε α × List (Fault κ) × σ}
    (h : Ending.Leaves (fun _ => holds) holds result) : holds result.2.2 := by
  match result with
  | (.done _, _, _) | (.failed _, _, _) | (.crashed, _, _) => exact h

/-- A rule that does not tell a failure from a death. -/
def Ensures (before : σ → Prop) (x : Faulty κ σ ε α) (done : α → σ → Prop) (stopped : σ → Prop) : Prop :=
  ∀ faults s, before s → Ending.Leaves done stopped (x faults s)

theorem ensures_iff {stopped : σ → Prop} : Ensures before x done stopped ↔
    Ends before x done stopped stopped := by
  have hsa : ∀ result : Ending ε α × List (Fault κ) × σ,
      Ending.Leaves done stopped result ↔ Ending.Meets done stopped stopped result := by
    intro result
    match result with
    | (.done _, _, _) | (.failed _, _, _) | (.crashed, _, _) => exact Iff.rfl
  constructor
  · exact fun h faults s hs => (hsa _).mp (h faults s hs)
  · exact fun h faults s hs => (hsa _).mpr (h faults s hs)

section

variable {stopped stopped' : σ → Prop}

theorem Ensures.pre {B : σ → Prop} (h : Ensures B x done stopped) (hbefore : ∀ s, before s → B s) :
    Ensures before x done stopped := fun faults s hs => h faults s (hbefore s hs)

theorem Ensures.mono (h : Ensures before x done stopped) (hbefore : ∀ s, before' s → before s)
    (hdone : ∀ a s, done a s → done' a s) (hstopped : ∀ s, stopped s → stopped' s) :
    Ensures before' x done' stopped' :=
  ensures_iff.mpr ((ensures_iff.mp h).mono hbefore hdone hstopped hstopped)

/-- A fact that the start implies can be used throughout. -/
theorem ensures_of_fact (fact : Prop) (hfact : ∀ s, before s → fact)
    (h : fact → Ensures before x done stopped) :
    Ensures before x done stopped := fun faults s hs => h (hfact s hs) faults s hs

/-- What is shown from every single state holds from all of them. -/
theorem ensures_of_state (h : ∀ s₀, before s₀ → Ensures (· = s₀) x done stopped) :
    Ensures before x done stopped :=
  fun faults s hs => h s hs faults s rfl

theorem ensures_keep {fact : Prop} : Ensures (fun _ => fact) x (fun _ _ => fact) (fun _ => True) := by
  intro faults s hfact
  match x faults s with
  | (.done _, _, _) => exact hfact
  | (.failed _, _, _) => trivial
  | (.crashed, _, _) => trivial

theorem ensures_pure (h : ∀ s, before s → done a s) :
    Ensures before (pure a : Faulty κ σ ε α) done stopped := fun _ s hs => h s hs

theorem ensures_fail (h : ∀ s, before s → stopped s) :
    Ensures before (fail e : Faulty κ σ ε α) done stopped := fun _ s hs => h s hs

theorem Ensures.bind (hx : Ensures before x done stopped) (hf : ∀ a, Ensures (done a) (f a) done₂ stopped) :
    Ensures before (x >>= f) done₂ stopped :=
  ensures_iff.mpr ((ensures_iff.mp hx).bind fun a => ensures_iff.mp (hf a))

theorem ensures_step {error : ε} {act : σ → Except ε (α × σ)}
    (hact : ∀ s a s', before s → act s = .ok (a, s') → done a s') (hstay : ∀ s, before s → stopped s)
    (hcut : ∀ s cut, before s → stopped (cutOff cut s)) :
    Ensures before (step act cutOff error : Faulty κ σ ε α) done stopped :=
  ensures_iff.mpr (ends_step hact (fun s _ hs _ => hstay s hs) hcut hcut)

section

variable (hx : Ensures before x done stopped)
include hx

theorem Ensures.attempt :
    Ensures before x.attempt (fun r s => match r with | .ok a => done a s | .error _ => stopped s) stopped :=
  ensures_iff.mpr (ensures_iff.mp hx).attempt

theorem Ensures.mapError (g : ε → ε) : Ensures before (x.mapError g) done stopped :=
  ensures_iff.mpr ((ensures_iff.mp hx).mapError g)

theorem Ensures.rescue (hhandle : ∀ e, Ensures stopped (handle e) done stopped) :
    Ensures before (x.rescue handle) done stopped :=
  ensures_iff.mpr ((ensures_iff.mp hx).rescue fun e => ensures_iff.mp (hhandle e))

end

end

/-- An invariant, however the program ends. -/
def Keeps (inv : σ → Prop) (x : Faulty κ σ ε α) : Prop := Ensures inv x (fun _ => inv) inv

section

variable {inv : σ → Prop}

theorem Keeps.ends {crashed : σ → Prop} (h : Keeps inv x) (hcrashed : ∀ s, inv s → crashed s) :
    Ends inv x (fun _ => inv) inv crashed :=
  (ensures_iff.mp h).mono (fun _ hs => hs) (fun _ _ hs => hs) (fun _ hs => hs) hcrashed

theorem Keeps.bind (hx : Keeps inv x) (hf : ∀ a, Keeps inv (f a)) : Keeps inv (x >>= f) := Ensures.bind hx hf

theorem keeps_pure : Keeps inv (pure a : Faulty κ σ ε α) := ensures_pure fun _ hs => hs

theorem keeps_fail : Keeps inv (fail e : Faulty κ σ ε α) := ensures_fail fun _ hs => hs

theorem keeps_look {g : σ → α} : Keeps inv (look g : Faulty κ σ ε α) := ensures_iff.mpr ends_look_self

theorem keeps_update {g : σ → σ} (h : ∀ s, inv s → inv (g s)) : Keeps inv (update g : Faulty κ σ ε Unit) :=
  ensures_iff.mpr (ends_update h)

theorem keeps_check : Keeps inv (check condition e : Faulty κ σ ε Unit) :=
  ensures_iff.mpr (ends_check (fun _ hs _ => hs) fun _ hs => hs)

theorem keeps_lift {y : Except ε α} : Keeps inv (lift y : Faulty κ σ ε α) :=
  ensures_iff.mpr (ends_lift (fun _ _ hs _ => hs) fun _ hs => hs)

theorem keeps_check_bind {g : Unit → Faulty κ σ ε β} (h : condition = true → Keeps inv (g ())) :
    Keeps inv (check condition e >>= g) := by
  cases condition with
  | true => exact h rfl
  | false => exact fun _ _ hs => hs

theorem keeps_lift_bind {y : Except ε α} (h : ∀ a, y = .ok a → Keeps inv (f a)) :
    Keeps inv (lift y >>= f) := by
  cases y with
  | ok a => exact h a rfl
  | error e => exact fun _ _ hs => hs

theorem Keeps.rescue (hx : Keeps inv x) (hhandle : ∀ e, Keeps inv (handle e)) :
    Keeps inv (x.rescue handle) := Ensures.rescue hx hhandle

end

/-! ## Where no step fails -/

def isFail : Fault κ → Bool
  | .fail _ => true
  | _ => false

/-- No step fails; one can be the last before the process dies. -/
def Calm (faults : List (Fault κ)) : Prop := ∀ fault ∈ faults, isFail fault = false

instance {faults : List (Fault κ)} : Decidable (Calm faults) :=
  inferInstanceAs (Decidable (∀ fault ∈ faults, _))

/-- Where no step fails, the program comes to its end, or the process dies. -/
def Steady (before : σ → Prop) (x : Faulty κ σ ε α) (done : α → σ → Prop) (crashed : σ → Prop) : Prop :=
  ∀ faults s, Calm faults → before s →
    Ending.Meets done (fun _ => False) crashed (x faults s) ∧ Calm (x faults s).2.1

section

variable {crashed crashed' failed' : σ → Prop}

theorem Steady.mono (h : Steady before x done crashed) (hbefore : ∀ s, before' s → before s)
    (hdone : ∀ a s, done a s → done' a s) (hcrashed : ∀ s, crashed s → crashed' s) :
    Steady before' x done' crashed' :=
  fun faults s hcalm hs => (h faults s hcalm (hbefore s hs)).imp_left fun hx =>
    Ending.meets_mono hx hdone (fun _ h => h) hcrashed

theorem Steady.and (h : Steady before x done crashed) (h' : Ends before' x done' failed' crashed') :
    Steady (fun s => before s ∧ before' s) x (fun a s => done a s ∧ done' a s) fun s => crashed s ∧
    crashed' s := by
  intro faults s hcalm hs
  have hx := h faults s hcalm hs.1
  have hx' := h' faults s hs.2
  generalize x faults s = result at hx hx'
  match result with
  | (.done _, _, _) => exact ⟨⟨hx.1, hx'⟩, hx.2⟩
  | (.failed _, _, _) => exact hx.1.elim
  | (.crashed, _, _) => exact ⟨⟨hx.1, hx'⟩, hx.2⟩

theorem Steady.bind {D : α → σ → Prop} (hx : Steady before x D crashed)
    (hf : ∀ a, Steady (D a) (f a) done₂ crashed) :
    Steady before (x >>= f) done₂ crashed := by
  intro faults s hcalm hs
  have h := hx faults s hcalm hs
  show Ending.Meets done₂ (fun _ => False) crashed (match x faults s with
    | (.done a, rest, s') => f a rest s'
    | (.failed e, rest, s') => (.failed e, rest, s')
    | (.crashed, rest, s') => (.crashed, rest, s')) ∧ Calm (match x faults s with
    | (.done a, rest, s') => f a rest s'
    | (.failed e, rest, s') => (.failed e, rest, s')
    | (.crashed, rest, s') => (.crashed, rest, s')).2.1
  generalize x faults s = result at h
  match result with
  | (.done a, rest, s') => exact hf a rest s' h.2 h.1
  | (.failed _, _, _) => exact h.1.elim
  | (.crashed, _, _) => exact h

theorem Steady.rescue (hx : Steady before x done crashed) : Steady before (x.rescue handle) done crashed := by
  intro faults s hcalm hs
  have h := hx faults s hcalm hs
  rw [Faulty.rescue]
  generalize x faults s = result at h
  match result with
  | (.done _, _, _) => exact h
  | (.failed _, _, _) => exact h.1.elim
  | (.crashed, _, _) => exact h

theorem steady_pure (h : ∀ s, before s → done a s) : Steady before (pure a : Faulty κ σ ε α) done crashed :=
  fun _ s hcalm hs => ⟨h s hs, hcalm⟩

theorem steady_look {g : σ → α} :
    Steady before (look g : Faulty κ σ ε α) (fun a s => before s ∧ g s = a) crashed :=
  fun _ _ hcalm hs => ⟨⟨hs, rfl⟩, hcalm⟩

theorem steady_update {g : σ → σ} {A : σ → Prop} (h : ∀ s, before s → A (g s)) :
    Steady before (update g : Faulty κ σ ε Unit) (fun _ => A) crashed := fun _ s hcalm hs => ⟨h s hs, hcalm⟩

theorem steady_check {error : ε} (h : ∀ s, before s → condition = true) :
    Steady before (check condition error : Faulty κ σ ε Unit) (fun _ => before) crashed := by
  intro faults s hcalm hs
  rw [check, if_pos (h s hs)]
  exact ⟨hs, hcalm⟩

theorem steady_step {act : σ → Except ε (α × σ)} {error : ε}
    (hact : ∀ s, before s → ∃ a s', act s = .ok (a, s') ∧ done a s')
    (hcrash : ∀ s cut, before s → crashed (cutOff cut s)) :
    Steady before (step act cutOff error) done crashed := by
  intro faults s hcalm hs
  have hsettle : ∀ rest : List (Fault κ), Calm rest →
    Ending.Meets done (fun _ => False) crashed (settle act rest s) ∧
      Calm (settle act rest s).2.1 := by
    intro rest hrest
    obtain ⟨a, s', hok, hdone⟩ := hact s hs
    rw [settle, hok]
    exact ⟨hdone, hrest⟩
  match faults with
  | .fail cut :: rest => exact absurd (hcalm _ List.mem_cons_self) nofun
  | .crash cut :: rest => exact ⟨hcrash s cut hs, fun fault hf => hcalm fault (List.mem_cons_of_mem _ hf)⟩
  | .none :: rest => exact hsettle rest fun fault hf => hcalm fault (List.mem_cons_of_mem _ hf)
  | [] => exact hsettle [] hcalm

end

section

variable {faults rest : List (Fault κ)} {s s' : σ}

theorem bind_eq (x : Faulty κ σ ε α) (f : α → Faulty κ σ ε β) (faults : List (Fault κ)) (s : σ) :
    (x >>= f) faults s = match x faults s with
      | (.done a, rest, s') => f a rest s'
      | (.failed e, rest, s') => (.failed e, rest, s')
      | (.crashed, rest, s') => (.crashed, rest, s') := rfl

theorem bind_of_done (h : x faults s = (.done a, rest, s')) : (x >>= f) faults s = f a rest s' := by
  rw [bind_eq, h]

theorem bind_of_failed (h : x faults s = (.failed e, rest, s')) :
    (x >>= f) faults s = (.failed e, rest, s') := by
  rw [bind_eq, h]

theorem bind_of_crashed (h : x faults s = (.crashed, rest, s')) :
    (x >>= f) faults s = (.crashed, rest, s') := by
  rw [bind_eq, h]

theorem state_bind_pure (x : Faulty κ σ ε α) (g : α → β) (faults : List (Fault κ)) (s : σ) :
    ((x >>= fun a => pure (g a)) faults s).2.2 = (x faults s).2.2 := by
  match h : x faults s with
  | (.done a, rest, s') => rw [bind_of_done h]; rfl
  | (.failed e, rest, s') => rw [bind_of_failed h]
  | (.crashed, rest, s') => rw [bind_of_crashed h]

theorem attempt_of_done (h : x faults s = (.done a, rest, s')) :
    x.attempt faults s = (.done (.ok a), rest, s') := by
  rw [attempt, h]

theorem attempt_of_failed (h : x faults s = (.failed e, rest, s')) :
    x.attempt faults s = (.done (.error e), rest, s') := by
  rw [attempt, h]

theorem attempt_of_crashed (h : x faults s = (.crashed, rest, s')) :
    x.attempt faults s = (.crashed, rest, s') := by
  rw [attempt, h]

theorem step_nil_of_ok {error : ε} {act : σ → Except ε (α × σ)}
    (h : act s = .ok (a, s')) : step act cutOff error [] s = (.done a, [], s') := by
  rw [step, settle, h]

end

end Faulty
end CipherVault
