import Mathlib.Algebra.Order.BigOperators.Group.List
import Mathlib.Algebra.Order.Ring.Nat
import Mathlib.Data.Finset.Insert
import Mathlib.Data.List.AList

/-!
# Base.Walk

Depth-first traversal of a finite graph with a stack. A node is pushed once to be entered and once,
with the exit flag, to be left; meeting an entered node that is not left is a cycle. `loop_spec`:
the invariant `Inv` holds at the end, a reported cycle is one, and fuel `potential` is enough.
-/

namespace Walk

open List Prod Or

inductive Mark where
  | active
  | done
deriving DecidableEq

inductive Failure where
  | cycle
  | outOfFuel
deriving DecidableEq

/-- The marks so far, and the nodes known to be below another. -/
structure State (α : Type) [DecidableEq α] where
  states : AList fun _ : α => Mark
  nonmaximal : Finset α

variable {α : Type} [DecidableEq α] (graph : AList fun _ : α => List α)

def parentsOf (node : α) : List α := (graph.lookup node).getD []

def enter (node : α) (pending : List (α × Bool)) (s : State α) : List (α × Bool) × State α :=
  ((parentsOf graph node).foldl (fun pending parent => (parent, false) :: pending)
      ((node, true) :: pending),
    { states := s.states.insert node .active
      nonmaximal := (parentsOf graph node).foldl (fun set parent => insert parent set) s.nonmaximal })

def loop (graph : AList fun _ : α => List α) :
    Nat → List (α × Bool) → State α → Except Failure (State α)
  | _, [], s => .ok s
  | 0, _ :: _, _ => .error .outOfFuel
  | fuel + 1, (node, true) :: pending, s =>
    loop graph fuel pending { s with states := s.states.insert node .done }
  | fuel + 1, (node, false) :: pending, s =>
    match s.states.lookup node with
    | some .active => .error .cycle
    | some .done => loop graph fuel pending s
    | none => loop graph fuel (enter graph node pending s).1 (enter graph node pending s).2

def turns : Nat :=
  2 + 2 * (graph.entries.map fun e => e.2.length).sum

def walkAll (graph : AList fun _ : α => List α) : List α → State α → Except Failure (State α)
  | [], s => .ok s
  | root :: roots, s =>
    match loop graph (turns graph) [(root, false)] s with
    | .error e => .error e
    | .ok s' => walkAll graph roots s'

def start : State α := { states := ∅, nonmaximal := ∅ }

def Parent (n p : α) : Prop := p ∈ parentsOf graph n

/-- Reachable from a root by parents. -/
def Reached (roots : Set α) (n : α) : Prop :=
  ∃ r ∈ roots, Relation.ReflTransGen (Parent graph) r n

/-- A node that is reached is its own ancestor. -/
def HasCycle (roots : Set α) : Prop :=
  ∃ n, Reached graph roots n ∧ Relation.TransGen (Parent graph) n n

/-- A proper ancestor of a root. -/
def Below (roots : Set α) (p : α) : Prop :=
  ∃ r ∈ roots, Relation.TransGen (Parent graph) r p

variable {graph : AList fun _ : α => List α} {roots : Set α} {n : α} {s : State α}

theorem below_iff {p : α} : Below graph roots p ↔ ∃ n, Reached graph roots n ∧ Parent graph n p := by
  constructor
  · intro ⟨r, hr, hrp⟩
    obtain ⟨n, hrn, hnp⟩ := Relation.TransGen.tail'_iff.mp hrp
    exact ⟨n, ⟨r, hr, hrn⟩, hnp⟩
  · intro ⟨n, ⟨r, hr, hrn⟩, hnp⟩
    exact ⟨r, hr, Relation.TransGen.tail' hrn hnp⟩

theorem Reached.parent {p : α} (hn : Reached graph roots n) (hp : Parent graph n p) :
    Reached graph roots p := by
  obtain ⟨r, hr, hrn⟩ := hn
  exact ⟨r, hr, hrn.tail hp⟩

theorem Reached.mono {roots' : Set α} (hn : Reached graph roots n) (h : roots ⊆ roots') :
    Reached graph roots' n := by
  obtain ⟨r, hr, hrn⟩ := hn
  exact ⟨r, h hr, hrn⟩

theorem acc_not_transGen (h : Acc (fun p n => Parent graph n p) n) :
    ¬ Relation.TransGen (Parent graph) n n := by
  induction h with
  | intro n _ ih =>
    intro hn
    obtain ⟨p, hnp, hpn⟩ := Relation.TransGen.head'_iff.mp hn
    exact ih p hnp (Relation.TransGen.tail' hpn hnp)

/-! ## The invariant of the stack -/

/-- Every parent of a node whose exit is on the stack is `done` or stands above that exit; `above`
are the nodes already met. -/
def ParentsAbove (graph : AList fun _ : α => List α) (done : α → Prop) : List α → List (α × Bool) → Prop
  | _, [] => True
  | above, (n, exiting) :: rest =>
    (exiting = true → ∀ p, Parent graph n p → done p ∨ p ∈ above) ∧ ParentsAbove graph done (n :: above) rest

theorem ParentsAbove.mono {done done' : α → Prop} (hdone : ∀ p, done p → done' p)
    (pending : List (α × Bool)) :
    ∀ above above' : List α, (∀ p ∈ above, done' p ∨ p ∈ above') → ParentsAbove graph done above pending →
    ParentsAbove graph done' above' pending := by
  induction pending with
  | nil => intro above above' _ _; trivial
  | cons e rest ih =>
    obtain ⟨n, exiting⟩ := e
    intro above above' habove h
    refine ⟨?_, ih (n :: above) (n :: above') ?_ h.2⟩
    · intro hexit p hp
      rcases h.1 hexit p hp with hd | ha
      · exact inl (hdone p hd)
      · exact habove p ha
    · intro p hp
      rcases mem_cons.mp hp with rfl | hp
      · exact inr mem_cons_self
      · exact (habove p hp).imp_right (mem_cons_of_mem n)

theorem ParentsAbove.push {pending : List (α × Bool)} {done : α → Prop} (ps : List α) : ∀ above : List α,
    ParentsAbove graph done (ps.reverse ++ above) pending →
    ParentsAbove graph done above (ps.map (fun p => (p, false)) ++ pending) := by
  induction ps with
  | nil => intro above h; exact h
  | cons p ps ih =>
    intro above h
    refine ⟨fun hexit => absurd hexit (by decide), ih (p :: above) ?_⟩
    simpa using h

/-- What the marks say about the graph. -/
structure Inv (graph : AList fun _ : α => List α) (roots : Set α) (pending : List (α × Bool))
    (s : State α) : Prop where
  closed : ∀ n p, s.states.lookup n = some .done → Parent graph n p → s.states.lookup p = some .done
  acc : ∀ n, s.states.lookup n = some .done → Acc (fun p n => Parent graph n p) n
  active : ∀ n, s.states.lookup n = some .active ↔ (n, true) ∈ pending
  exits : (pending.filter snd).Nodup
  chain : pending.Pairwise fun e m => m.2 = true → Relation.TransGen (Parent graph) m.1 e.1
  above : ParentsAbove graph (fun p => s.states.lookup p = some .done) [] pending
  reached : ∀ e ∈ pending, Reached graph roots e.1
  marked : ∀ n, (s.states.lookup n).isSome → Reached graph roots n
  nonmaximal : ∀ p, p ∈ s.nonmaximal ↔ ∃ n, (s.states.lookup n).isSome ∧ Parent graph n p

theorem lookup_insert_if {β : Type} (m : AList fun _ : α => β) (n x : α) (v : β) :
    (m.insert n v).lookup x = if x = n then some v else m.lookup x := by
  by_cases h : x = n
  · rw [if_pos h, h, AList.lookup_insert]
  · rw [if_neg h, AList.lookup_insert_ne h]

theorem mem_foldl_insert (ps : List α) : ∀ (set : Finset α) (p : α),
    p ∈ ps.foldl (fun set parent => insert parent set) set ↔ p ∈ ps ∨ p ∈ set := by
  induction ps with
  | nil => intro set p; simp
  | cons q ps ih =>
    intro set p
    rw [foldl_cons, ih, Finset.mem_insert, mem_cons]
    tauto

section

variable {graph : AList fun _ : α => List α} {roots : Set α} {n : α} {pending : List (α × Bool)} {s : State α}

theorem Inv.exit (h : Inv graph roots ((n, true) :: pending) s) :
    Inv graph roots pending { s with states := s.states.insert n .done } := by
  have hact : s.states.lookup n = some .active := (h.active n).mpr mem_cons_self
  have hpar : ∀ p, Parent graph n p → s.states.lookup p = some .done := by
    intro p hp
    rcases h.above.1 rfl p hp with hd | ha
    · exact hd
    · cases ha
  have hnd := h.exits
  rw [filter_cons_of_pos rfl, nodup_cons] at hnd
  have hs : ∀ x, ((s.states.insert n .done).lookup x).isSome ↔ (s.states.lookup x).isSome := by
    intro x
    rw [lookup_insert_if]
    split
    · rename_i hx; rw [hx, hact]; simp
    · rfl
  have hdo : ∀ x, s.states.lookup x = some .done → (s.states.insert n .done).lookup x = some .done := by
    intro x hx
    rw [lookup_insert_if]
    split
    · rfl
    · exact hx
  constructor
  case closed =>
    intro x p hx hp
    rw [lookup_insert_if] at hx
    split at hx
    · rename_i hxn; exact hdo p (hpar p (hxn ▸ hp))
    · exact hdo p (h.closed x p hx hp)
  case acc =>
    intro x hx
    rw [lookup_insert_if] at hx
    split at hx
    · rename_i hxn
      rw [hxn]
      exact Acc.intro n fun p hp => h.acc p (hpar p hp)
    · exact h.acc x hx
  case active =>
    intro x
    rw [lookup_insert_if]
    split
    · rename_i hxn
      refine ⟨fun hx => absurd hx (by decide), fun hx => absurd ?_ hnd.1⟩
      exact mem_filter.mpr ⟨hxn ▸ hx, rfl⟩
    · rename_i hxn
      rw [h.active x, mem_cons]
      exact ⟨fun hx => hx.resolve_left fun he => hxn (congrArg fst he), inr⟩
  case exits => exact hnd.2
  case chain => exact (pairwise_cons.mp h.chain).2
  case above =>
    refine ParentsAbove.mono hdo pending [n] [] ?_ h.above.2
    intro p hp
    rw [mem_singleton.mp hp, lookup_insert_if, if_pos rfl]
    exact inl rfl
  case reached => exact fun e he => h.reached e (mem_cons_of_mem _ he)
  case marked => exact fun x hx => h.marked x ((hs x).mp hx)
  case nonmaximal => intro p; simp only [hs]; exact h.nonmaximal p

theorem Inv.skip (h : Inv graph roots ((n, false) :: pending) s) (hn : s.states.lookup n = some .done) :
    Inv graph roots pending s := by
  constructor
  case closed => exact h.closed
  case acc => exact h.acc
  case active =>
    intro x
    rw [h.active x, mem_cons]
    exact ⟨fun hx => hx.resolve_left nofun, inr⟩
  case exits => exact h.exits
  case chain => exact (pairwise_cons.mp h.chain).2
  case above =>
    refine ParentsAbove.mono (fun _ hp => hp) pending [n] [] ?_ h.above.2
    intro p hp
    rw [mem_singleton.mp hp]
    exact inl hn
  case reached => exact fun e he => h.reached e (mem_cons_of_mem _ he)
  case marked => exact h.marked
  case nonmaximal => exact h.nonmaximal

theorem Inv.cycle (h : Inv graph roots ((n, false) :: pending) s) (hn : s.states.lookup n = some .active) :
    HasCycle graph roots := by
  have hmem : (n, true) ∈ pending := by
    rcases mem_cons.mp ((h.active n).mp hn) with he | he
    · cases he
    · exact he
  exact ⟨n, h.reached _ mem_cons_self, (pairwise_cons.mp h.chain).1 _ hmem rfl⟩

theorem enter_pending (graph : AList fun _ : α => List α) (n : α) (pending : List (α × Bool)) (s : State α) :
    (enter graph n pending s).1 = (parentsOf graph n).reverse.map (fun p => (p, false)) ++
      (n, true) :: pending := by
  rw [enter, map_reverse]
  exact foldl_flip_cons_eq_append

theorem Inv.enter (h : Inv graph roots ((n, false) :: pending) s) (hn : s.states.lookup n = none) :
    Inv graph roots (enter graph n pending s).1 (enter graph n pending s).2 := by
  have hl : ∀ x, (Walk.enter graph n pending s).2.states.lookup x =
      if x = n then some .active else s.states.lookup x := fun x => lookup_insert_if _ n x _
  have hrea : Reached graph roots n := h.reached _ mem_cons_self
  have hexit : (n, true) ∉ pending := by
    intro hmem
    have := (h.active n).mpr (mem_cons_of_mem _ hmem)
    rw [hn] at this
    cases this
  have hd : ∀ x, s.states.lookup x = some .done ↔
      (Walk.enter graph n pending s).2.states.lookup x = some .done := by
    intro x
    rw [hl]
    split
    · rename_i hx; rw [hx, hn]; decide
    · rfl
  have hpushed : ∀ e ∈ (parentsOf graph n).reverse.map (fun p => (p, false)), e.2 = false ∧
    Parent graph n e.1 := by
    intro e he
    obtain ⟨p, hp, rfl⟩ := mem_map.mp he
    exact ⟨rfl, mem_reverse.mp hp⟩
  have hchain := pairwise_cons.mp h.chain
  rw [enter_pending]
  constructor
  case closed =>
    intro x p hx hp
    exact (hd p).mp (h.closed x p ((hd x).mpr hx) hp)
  case acc => exact fun x hx => h.acc x ((hd x).mpr hx)
  case active =>
    intro x
    rw [hl, mem_append, mem_cons]
    split
    · rename_i hx
      exact ⟨fun _ => inr (inl (by rw [hx])), fun _ => rfl⟩
    · rename_i hx
      rw [h.active x, mem_cons]
      constructor
      · rintro (he | he)
        · cases he
        · exact inr (inr he)
      · rintro (he | he | he)
        · cases (hpushed _ he).1
        · exact absurd (congrArg fst he) hx
        · exact inr he
  case exits =>
    rw [filter_append, filter_eq_nil_iff.mpr (fun e he => by simp [(hpushed e he).1]), nil_append,
      filter_cons_of_pos rfl, nodup_cons]
    exact ⟨fun hmem => hexit (mem_filter.mp hmem).1, h.exits⟩
  case chain =>
    rw [pairwise_append, pairwise_cons]
    refine ⟨?_, ⟨hchain.1, hchain.2⟩, ?_⟩
    · rw [pairwise_map]
      exact pairwise_of_forall nofun
    · intro e he m hm hexiting
      have hs := (hpushed e he).2
      rcases mem_cons.mp hm with rfl | hm
      · exact Relation.TransGen.single hs
      · exact (hchain.1 m hm hexiting).tail hs
  case above =>
    refine ParentsAbove.push _ _ ⟨fun _ p hp => inr (by simpa [Parent] using hp), ?_⟩
    refine ParentsAbove.mono (fun p hp => (hd p).mp hp) pending [n] _ ?_ h.above.2
    intro p hp
    rw [mem_singleton.mp hp]
    exact inr mem_cons_self
  case reached =>
    intro e he
    rcases mem_append.mp he with he | he
    · exact hrea.parent (hpushed e he).2
    · rcases mem_cons.mp he with rfl | he
      · exact hrea
      · exact h.reached e (mem_cons_of_mem _ he)
  case marked =>
    intro x hx
    rw [hl] at hx
    split at hx
    · rename_i hxn; exact hxn ▸ hrea
    · exact h.marked x hx
  case nonmaximal =>
    intro p
    have hset := mem_foldl_insert (parentsOf graph n) s.nonmaximal p
    refine hset.trans ?_
    rw [h.nonmaximal p]
    constructor
    · rintro (hp | ⟨x, hx, hp⟩)
      · exact ⟨n, by rw [hl, if_pos rfl]; rfl, hp⟩
      · refine ⟨x, ?_, hp⟩
        rw [hl]
        split
        · rfl
        · exact hx
    · rintro ⟨x, hx, hp⟩
      rw [hl] at hx
      split at hx
      · rename_i hxn; exact inl (hxn ▸ hp)
      · exact inr ⟨x, hx, hp⟩

def potential (graph : AList fun _ : α => List α) (pending : List (α × Bool)) (s : State α) : Nat :=
  (pending.map fun e => if e.2 then 1 else 2).sum +
    2 * (graph.entries.map fun e => if (s.states.lookup e.1).isSome then 0 else e.2.length).sum

theorem sum_map_add_le {k : Nat} {β : Type} {f f' : β → Nat} {b : β} (hle : ∀ e, f' e ≤ f e)
    (hb : f' b + k ≤ f b) (l : List β) : b ∈ l → (l.map f').sum + k ≤ (l.map f).sum := by
  induction l with
  | nil => intro h; cases h
  | cons c l ih =>
    intro h
    have hr : (l.map f').sum ≤ (l.map f).sum := sum_le_sum fun e _ => hle e
    have hc := hle c
    simp only [map_cons, sum_cons]
    rcases mem_cons.mp h with rfl | h
    · omega
    · have := ih h
      omega

theorem potential_enter (graph : AList fun _ : α => List α) (pending : List (α × Bool))
    (hn : s.states.lookup n = none) :
    potential graph (enter graph n pending s).1 (enter graph n pending s).2 <
      potential graph ((n, false) :: pending) s := by
  have hl : ∀ x, (enter graph n pending s).2.states.lookup x =
      if x = n then some .active else s.states.lookup x := fun x => lookup_insert_if _ n x _
  have hle : ∀ e : Sigma fun _ : α => List α,
      (if ((enter graph n pending s).2.states.lookup e.1).isSome then 0 else e.2.length) ≤
        if (s.states.lookup e.1).isSome then 0 else e.2.length := by
    intro e
    rw [hl]
    by_cases he : e.1 = n
    · simp [he]
    · simp [he]
  have hsum : (graph.entries.map fun e =>
        if ((enter graph n pending s).2.states.lookup e.1).isSome then 0 else e.2.length).sum +
          (parentsOf graph n).length ≤
      (graph.entries.map fun e => if (s.states.lookup e.1).isSome then 0 else e.2.length).sum := by
    cases hg : graph.lookup n with
    | none =>
      rw [parentsOf, hg]
      exact sum_le_sum fun e _ => hle e
    | some ps =>
      refine sum_map_add_le (b := ⟨n, ps⟩) hle ?_ _ (AList.mem_lookup_iff.mp hg)
      rw [hl, parentsOf, hg, hn]
      simp
  have hpushed : (((parentsOf graph n).reverse.map fun p => (p, false)).map
      fun e : α × Bool => if e.2 then 1 else 2).sum = 2 * (parentsOf graph n).length := by
    simp [Function.comp_def, Nat.mul_comm]
  rw [potential, potential, enter_pending]
  simp only [map_append, map_cons, sum_append, sum_cons, hpushed, if_true, Bool.false_eq_true, if_false]
  omega

theorem potential_exit (graph : AList fun _ : α => List α) (n : α) (pending : List (α × Bool)) (s : State α) :
    potential graph pending { s with states := s.states.insert n .done } <
    potential graph ((n, true) :: pending) s := by
  have hsum : (graph.entries.map fun e =>
        if ((s.states.insert n .done).lookup e.1).isSome then 0 else e.2.length).sum ≤
      (graph.entries.map fun e => if (s.states.lookup e.1).isSome then 0 else e.2.length).sum := by
    refine sum_le_sum fun e _ => ?_
    rw [lookup_insert_if]
    by_cases he : e.1 = n
    · simp [he]
    · simp [he]
  rw [potential, potential]
  simp only [map_cons, sum_cons, if_true]
  omega

theorem potential_skip (graph : AList fun _ : α => List α) (n : α) (pending : List (α × Bool)) (s : State α) :
    potential graph pending s < potential graph ((n, false) :: pending) s := by
  rw [potential, potential]
  simp only [map_cons, sum_cons, Bool.false_eq_true, if_false]
  omega

theorem potential_root_le (graph : AList fun _ : α => List α) (r : α) (s : State α) :
    potential graph [(r, false)] s ≤ turns graph := by
  have hsum : (graph.entries.map fun e => if (s.states.lookup e.1).isSome then 0 else e.2.length).sum ≤
      (graph.entries.map fun e => e.2.length).sum := by
    refine sum_le_sum fun e _ => ?_
    split
    · exact Nat.zero_le _
    · exact Nat.le_refl _
  rw [potential, turns]
  simp only [map_cons, map_nil, sum_cons, sum_nil, Bool.false_eq_true, if_false]
  omega

end

/-! ## The loop and the traversal -/

/-- What the walk has to return from its present state. -/
def Meets (graph : AList fun _ : α => List α) (roots : Set α) (pending : List (α × Bool)) (s : State α) :
    Except Failure (State α) → Prop
  | .ok s' => Inv graph roots [] s' ∧
      ∀ x, (s.states.lookup x).isSome ∨ x ∈ pending.map fst → s'.states.lookup x = some .done
  | .error .cycle => HasCycle graph roots
  | .error .outOfFuel => False

theorem Inv.done_of_isSome {x : α} (h : Inv graph roots [] s) (hx : (s.states.lookup x).isSome) :
    s.states.lookup x = some .done := by
  cases hm : s.states.lookup x with
  | none => rw [hm] at hx; cases hx
  | some m =>
    cases m with
    | active => cases (h.active x).mp hm
    | done => rfl

theorem Meets.weaken {pending' : List (α × Bool)} {s' : State α} {r : Except Failure (State α)}
    {pending : List (α × Bool)}
    (h : Meets graph roots pending' s' r) (hsub : ∀ x, (s.states.lookup x).isSome ∨ x ∈ pending.map fst →
      (s'.states.lookup x).isSome ∨ x ∈ pending'.map fst) : Meets graph roots pending s r := by
  cases r with
  | error e => cases e <;> exact h
  | ok s'' => exact ⟨h.1, fun x hx => h.2 x (hsub x hx)⟩

theorem loop_spec (fuel : Nat) : ∀ (pending : List (α × Bool)) (s : State α), Inv graph roots pending s →
      potential graph pending s ≤ fuel → Meets graph roots pending s (loop graph fuel pending s) := by
  induction fuel with
  | zero =>
    intro pending s h hf
    cases pending with
    | nil =>
      exact ⟨h, fun x hx => h.done_of_isSome (hx.resolve_right (by simp))⟩
    | cons e pending =>
      obtain ⟨n, exiting⟩ := e
      cases exiting with
      | true => exact absurd (Nat.lt_of_lt_of_le (potential_exit graph n pending s) hf) (Nat.not_lt_zero _)
      | false => exact absurd (Nat.lt_of_lt_of_le (potential_skip graph n pending s) hf) (Nat.not_lt_zero _)
  | succ fuel ih =>
    intro pending s h hf
    cases pending with
    | nil =>
      exact ⟨h, fun x hx => h.done_of_isSome (hx.resolve_right (by simp))⟩
    | cons e pending =>
      obtain ⟨n, exiting⟩ := e
      cases exiting with
      | true =>
        have hlt := potential_exit graph n pending s
        refine (ih pending _ h.exit (by omega)).weaken ?_
        intro x hx
        rw [map_cons, mem_cons] at hx
        rw [lookup_insert_if]
        by_cases hxn : x = n
        · left; rw [if_pos hxn]; rfl
        · rw [if_neg hxn]; tauto
      | false =>
        rw [loop]
        cases hn : s.states.lookup n with
        | none =>
          have hlt := potential_enter graph pending hn
          refine (ih _ _ (h.enter hn) (by omega)).weaken ?_
          intro x hx
          rw [enter_pending]
          simp only [map_append, map_cons, mem_append, mem_cons]
          rcases hx with hx | hx | hx
          · left
            refine (congrArg Option.isSome (lookup_insert_if s.states n x Mark.active)).trans ?_
            split
            · rfl
            · exact hx
          · tauto
          · tauto
        | some m =>
          cases m with
          | active => exact h.cycle hn
          | done =>
            have hlt := potential_skip graph n pending s
            refine (ih pending s (h.skip hn) (by omega)).weaken ?_
            intro x hx
            rw [map_cons, mem_cons] at hx
            rcases hx with hx | rfl | hx
            · exact inl hx
            · left; rw [hn]; rfl
            · exact inr hx

theorem inv_start (graph : AList fun _ : α => List α) (roots : Set α) : Inv graph roots [] start := by
  have hno : ∀ x, (start : State α).states.lookup x = none := fun x => AList.lookup_empty x
  constructor
  case closed => intro n p hn; rw [hno] at hn; cases hn
  case acc => intro n hn; rw [hno] at hn; cases hn
  case active => intro n; rw [hno]; simp
  case exits => exact nodup_nil
  case chain => exact List.Pairwise.nil
  case above => trivial
  case reached => intro e he; cases he
  case marked => intro n hn; rw [hno] at hn; cases hn
  case nonmaximal => intro p; simp [start]

theorem Inv.root {r : α} (h : Inv graph roots [] s) (hr : r ∈ roots) : Inv graph roots [(r, false)] s := by
  constructor
  case closed => exact h.closed
  case acc => exact h.acc
  case active => intro n; rw [h.active n]; simp
  case exits => exact nodup_nil
  case chain => exact pairwise_singleton _ _
  case above => exact ⟨nofun, trivial⟩
  case reached =>
    intro e he
    rw [mem_singleton.mp he]
    exact ⟨r, hr, Relation.ReflTransGen.refl⟩
  case marked => exact h.marked
  case nonmaximal => exact h.nonmaximal

theorem walkAll_spec (rs : List α) : ∀ s : State α, (∀ r ∈ rs, r ∈ roots) → Inv graph roots [] s →
      Meets graph roots (rs.map fun r => (r, false)) s (walkAll graph rs s) := by
  induction rs with
  | nil =>
    intro s _ h
    exact ⟨h, fun x hx => h.done_of_isSome (hx.resolve_right (by simp))⟩
  | cons r rs ih =>
    intro s hrs h
    have hloop := loop_spec (turns graph) [(r, false)] s (h.root (hrs r mem_cons_self))
      (potential_root_le graph r s)
    rw [walkAll]
    cases hr : loop graph (turns graph) [(r, false)] s with
    | error e =>
      rw [hr] at hloop
      cases e <;> exact hloop
    | ok s' =>
      rw [hr] at hloop
      refine (ih s' (fun r' hr' => hrs r' (mem_cons_of_mem _ hr')) hloop.1).weaken ?_
      intro x hx
      rw [map_cons, map_cons, mem_cons] at hx
      rcases hx with hx | rfl | hx
      · left; rw [hloop.2 x (inl hx)]; rfl
      · left; rw [hloop.2 x (inr mem_cons_self)]; rfl
      · exact inr hx

/-- The traversal ends with the proper ancestors of the roots when no cycle is reachable, and fails
with `cycle` when one is. -/
theorem walkAll_start (graph : AList fun _ : α => List α) (rs : List α) :
    (∃ s, walkAll graph rs start = .ok s ∧ ¬ HasCycle graph {r | r ∈ rs} ∧
        ∀ p, p ∈ s.nonmaximal ↔ Below graph {r | r ∈ rs} p) ∨
      (walkAll graph rs start = .error .cycle ∧ HasCycle graph {r | r ∈ rs}) := by
  have h := walkAll_spec rs start (fun r hr => hr) (inv_start graph _)
  cases hw : walkAll graph rs start with
  | error e =>
    rw [hw] at h
    cases e with
    | cycle => exact inr ⟨rfl, h⟩
    | outOfFuel => exact h.elim
  | ok s =>
    rw [hw] at h
    obtain ⟨hinv, hd⟩ := h
    have hrea : ∀ n, Reached graph {r | r ∈ rs} n → s.states.lookup n = some .done := by
      intro n ⟨r, hr, hrn⟩
      induction hrn with
      | refl => exact hd r (inr (by simpa using hr))
      | tail _ hp ih => exact hinv.closed _ _ ih hp
    refine inl ⟨s, rfl, ?_, ?_⟩
    · intro ⟨n, hn, hc⟩
      exact acc_not_transGen (hinv.acc n (hrea n hn)) hc
    · intro p
      rw [hinv.nonmaximal p, below_iff]
      constructor
      · intro ⟨n, hn, hp⟩
        exact ⟨n, hinv.marked n hn, hp⟩
      · intro ⟨n, hn, hp⟩
        exact ⟨n, by rw [hrea n hn]; rfl, hp⟩

end Walk
