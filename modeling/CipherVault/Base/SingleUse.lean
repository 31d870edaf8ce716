import CipherVault.Base.Processes
import Mathlib.Data.List.Nodup

/-!
# Base.SingleUse

Items to be used once, by processes that share a store. A process reads and decides, writes in a
later access, and acts in one more. `used_once`: where every write finds its item as usable as the
read did, no item is used twice.
-/

namespace CipherVault.SingleUse

open List Prod

open Processes

variable {σ κ ν : Type}

/-- A use of an item, as a process holds it after its read. -/
structure Use (Closed : σ → κ → Prop) (ν : Type) where
  key : κ
  verdict : ν
  ready : σ → Bool
  (write act : σ → σ)
  closes : ∀ s, ready s = true → ¬Closed s key ∧ Closed (write s) key
  write_keeps : ∀ s k, Closed s k → Closed (write s) k
  act_keeps : ∀ s k, Closed s k → Closed (act s) k

/-- A use, or a single access that leaves closed items closed. -/
inductive Request (Closed : σ → κ → Prop) (ν : Type) where
  | use (read : σ → Option (Use Closed ν))
  | other (f : σ → σ) (keeps : ∀ s k, Closed s k → Closed (f s) k)

/-- Read, decide, write, act: the steps of a use. -/
inductive Handler (Closed : σ → κ → Prop) (ν : Type) where
  | idle
  | begun (request : Request Closed ν)
  | decided (use : Use Closed ν)
  | written (use : Use Closed ν)

/-- The shared state, and what was written and acted on so far, the latest first. -/
structure Store (σ κ ν : Type) where
  state : σ
  (written acted : List (κ × ν))

variable {Closed : σ → κ → Prop}

def advance (store : Store σ κ ν) : Handler Closed ν → Store σ κ ν × Handler Closed ν
  | .idle => (store, .idle)
  | .begun (.use read) => (store, ((read store.state).map .decided).getD .idle)
  | .begun (.other f _) => ({ store with state := f store.state }, .idle)
  | .decided use =>
    ({ store with state := use.write store.state,
                  written := (use.key, use.verdict) :: store.written }, .written use)
  | .written use =>
    ({ store with state := use.act store.state, acted := (use.key, use.verdict) :: store.acted },
      .idle)

def program (Closed : σ → κ → Prop) (ν : Type) :
    Program (Store σ κ ν) (Handler Closed ν) (Request Closed ν) where
  idle := .idle
  isIdle
    | .idle => true
    | _ => false
  begin := .begun
  advance := advance

abbrev Sys (Closed : σ → κ → Prop) (ν : Type) := System (Store σ κ ν) (Handler Closed ν)

def start (Closed : σ → κ → Prop) (ν : Type) (state : σ) : Sys Closed ν :=
  System.new (program Closed ν) ⟨state, [], []⟩

/-- What a process decided on still holds when it writes. -/
def StillReady (s : Sys Closed ν) : Event (Request Closed ν) → Prop
  | .proceed p =>
    match s.processes p with
    | .decided use => use.ready s.store.state = true
    | _ => True
  | _ => True

instance (s : Sys Closed ν) (event : Event (Request Closed ν)) : Decidable (StillReady s event) := by
  unfold StillReady
  split
  · split <;> infer_instance
  · infer_instance

/-- What is written is closed, and acted on once. -/
structure Inv (s : Sys Closed ν) : Prop where
  closed : ∀ e ∈ s.store.written, Closed s.store.state e.1
  written : (s.store.written.map fst).Nodup
  acted : (s.store.acted.map fst).Nodup
  subset : ∀ e ∈ s.store.acted, e ∈ s.store.written
  /-- What a process has yet to act on was written, and has not been acted on. -/
  held : ∀ p use, s.processes p = .written use →
    (use.key, use.verdict) ∈ s.store.written ∧ use.key ∉ s.store.acted.map fst
  alone : ∀ p q use use', s.processes p = .written use → s.processes q = .written use' →
    use.key = use'.key → p = q

variable {s : Sys Closed ν} {p : Nat} {use : Use Closed ν}

theorem Inv.set {handler : Handler Closed ν} (hs : Inv s) (p : Nat)
    (hhandler : ∀ use, handler ≠ .written use) : Inv (s.set p handler) := by
  have hold : ∀ q use, (s.set p handler).processes q = .written use → s.processes q = .written use := by
    intro q use hq
    by_cases heq : q = p
    · subst heq
      rw [System.set_self] at hq
      exact absurd hq (hhandler use)
    · rwa [System.set_of_ne heq] at hq
  exact ⟨hs.closed, hs.written, hs.acted, hs.subset, fun q use hq => hs.held q use (hold q use hq),
    fun q q' use use' hq hq' => hs.alone q q' use use' (hold q use hq) (hold q' use' hq')⟩

theorem Inv.state (hs : Inv s) {f : σ → σ} (hf : ∀ t k, Closed t k → Closed (f t) k) :
    Inv { s with store := { s.store with state := f s.store.state } } :=
  ⟨fun e he => hf _ _ (hs.closed e he), hs.written, hs.acted, hs.subset, hs.held, hs.alone⟩

theorem inv_write (hs : Inv s) (hready : use.ready s.store.state = true) :
    Inv { s.set p (.written use) with
      store := { s.store with
        state := use.write s.store.state, written := (use.key, use.verdict) :: s.store.written } } := by
  obtain ⟨ho, hclosed⟩ := use.closes _ hready
  have hnew : use.key ∉ s.store.written.map fst := by
    intro hmem
    obtain ⟨e, he, hkey⟩ := mem_map.mp hmem
    exact ho (hkey ▸ hs.closed e he)
  have hunheld : ∀ q use', s.processes q = .written use' → use'.key ≠ use.key := by
    intro q use' hq hkey
    exact hnew (hkey ▸ mem_map_of_mem (hs.held q use' hq).1)
  refine ⟨?_, nodup_cons.mpr ⟨hnew, hs.written⟩, hs.acted,
    fun e he => mem_cons_of_mem _ (hs.subset e he), ?_, ?_⟩
  · intro e he
    rcases mem_cons.mp he with rfl | he
    · exact hclosed
    · exact use.write_keeps _ _ (hs.closed e he)
  · intro q use' hq
    by_cases heq : q = p
    · subst heq
      cases (System.set_self s q (.written use)).symm.trans hq
      refine ⟨mem_cons_self, ?_⟩
      intro hmem
      obtain ⟨e, he, hkey⟩ := mem_map.mp hmem
      exact hnew (hkey ▸ mem_map_of_mem (hs.subset e he))
    · have hq' := (System.set_of_ne heq s (.written use)).symm.trans hq
      exact ⟨mem_cons_of_mem _ (hs.held q use' hq').1, (hs.held q use' hq').2⟩
  · have hcases : ∀ q use', (s.set p (.written use)).processes q = .written use' →
        (q = p ∧ use'.key = use.key) ∨ (s.processes q = .written use' ∧ use'.key ≠ use.key) := by
      intro q use' hq
      by_cases heq : q = p
      · subst heq
        cases (System.set_self s q (.written use)).symm.trans hq
        exact .inl ⟨rfl, rfl⟩
      · have hq' := (System.set_of_ne heq s (.written use)).symm.trans hq
        exact .inr ⟨hq', hunheld q use' hq'⟩
    intro q r use' use'' hq hr hkey
    rcases hcases q use' hq with ⟨rfl, hqkey⟩ | ⟨hq, hqkey⟩ <;> rcases hcases r use'' hr with
      ⟨rfl, hrkey⟩ | ⟨hr, hrkey⟩
    · rfl
    · exact absurd (hkey.symm.trans hqkey) hrkey
    · exact absurd (hkey.trans hrkey) hqkey
    · exact hs.alone q r use' use'' hq hr hkey

theorem inv_act (hs : Inv s) (hp : s.processes p = .written use) :
    Inv { s.set p .idle with
      store := { s.store with state := use.act s.store.state,
                              acted := (use.key, use.verdict) :: s.store.acted } } := by
  obtain ⟨hwri, hfr⟩ := hs.held p use hp
  have hold : ∀ q use', (s.set p .idle).processes q = .written use' → q ≠ p ∧
    s.processes q = .written use' := by
    intro q use' hq
    by_cases heq : q = p
    · subst heq
      cases (System.set_self s q .idle).symm.trans hq
    · exact ⟨heq, (System.set_of_ne heq s .idle).symm.trans hq⟩
  refine ⟨fun e he => use.act_keeps _ _ (hs.closed e he), hs.written,
    nodup_cons.mpr ⟨hfr, hs.acted⟩, ?_, ?_, ?_⟩
  · intro e he
    rcases mem_cons.mp he with rfl | he
    · exact hwri
    · exact hs.subset e he
  · intro q use' hq
    obtain ⟨hne, hq⟩ := hold q use' hq
    refine ⟨(hs.held q use' hq).1, ?_⟩
    intro hmem
    rcases mem_cons.mp hmem with hkey | hmem
    · exact hne (hs.alone q p use' use hq hp hkey)
    · exact (hs.held q use' hq).2 hmem
  · intro q r use' use'' hq hr
    exact hs.alone q r use' use'' (hold q use' hq).2 (hold r use'' hr).2

theorem inv_step {event : Event (Request Closed ν)} (hready : StillReady s event) (hs : Inv s) :
    Inv (step (program Closed ν) s event) := by
  cases event with
  | call p request =>
    simp only [step]
    split
    · exact hs.set p (fun _ h => by cases h)
    · exact hs
  | crash p => exact hs.set p (fun _ h => by cases h)
  | proceed p =>
    simp only [StillReady] at hready
    simp only [step, program]
    cases hp : s.processes p with
    | idle => exact hs.set p (fun _ h => by cases h)
    | begun request =>
      cases request with
      | use read =>
        simp only [advance]
        cases read s.store.state with
        | none | some => exact hs.set p (fun _ h => by cases h)
      | other f keeps => exact (hs.set p (fun _ h => by cases h)).state keeps
    | decided use =>
      rw [hp] at hready
      exact inv_write hs hready
    | written use => exact inv_act hs hp

theorem used_once {events : List (Event (Request Closed ν))} (state : σ)
    (hready : Runs.Along (step (program Closed ν)) StillReady (start Closed ν state) events) :
    Inv (run (program Closed ν) (start Closed ν state) events) := by
  refine hready.keeps (fun _ _ hready hs => inv_step hready hs) ?_
  exact ⟨nofun, nodup_nil, nodup_nil, nofun, nofun, nofun⟩

theorem Inv.verdict_unique {k : κ} {v v' : ν} (hs : Inv s) (h : (k, v) ∈ s.store.written)
    (h' : (k, v') ∈ s.store.written) : v = v' :=
  congrArg snd (inj_on_of_nodup_map hs.written h h' rfl)

end CipherVault.SingleUse
