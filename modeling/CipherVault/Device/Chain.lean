import CipherVault.Device.Capture

/-!
# Device.Chain

The heads that a device signs while processes of both programs run on one store.
-/

namespace CipherVault.Device

open Crypto Format Snapshot Store List Option Nat LocalStore Phase

variable (signed : List HeadRecord)

/-- One signed head names the snapshot of the other as a parent. -/
def HeadParent (a b : HeadRecord) : Prop :=
  a ∈ signed ∧ b ∈ signed ∧ a.snapshotId ∈ b.parentSnapshotIds

/-- No two heads with one counter. -/
def NoEquivocation : Prop :=
  ∀ a ∈ signed, ∀ b ∈ signed, a.deviceCounter = b.deviceCounter → a = b

/-- Of any two heads the later one descends from the earlier. -/
def SingleChain : Prop := signed.Pairwise (Relation.TransGen (HeadParent signed))

def Phase.inWindow : Phase → Bool
  | .start | .stored _ _ | .ended _ => false
  | _ => true

/-- The process is between the reading of the head and its setting. -/
def Machine.Busy (m : Machine) (pid : Nat) : Prop :=
  ∃ job phase, m.procs pid = some (job, phase) ∧ phase.inWindow = true

/-- The process has signed the head and not yet set it. -/
def Machine.Holds (m : Machine) (pid : Nat) (head : HeadRecord) : Prop :=
  ∃ job output, m.procs pid = some (job, .signed output head)

/-- A capture reads the device state only while no other one is between that call and the storing of
its head, and a signed head is stored. -/
def Exclusive (E : Externals) (m : Machine) : Action → Prop
  | .step pid =>
    ((∃ job, m.procs pid = some (job, .start)) → ∀ other, ¬ m.Busy other) ∧
      ∀ head, m.Holds pid head → (E.encode (.head head)).length ≤ maxRecordSize
  | .crash pid => ∀ head, ¬ m.Holds pid head
  | _ => True

/-- At every action, no other process is busy. -/
def ExclusiveRun (E : Externals) : List Action → Machine → Prop
  | [], _ => True
  | a :: rest, m => Exclusive E m a ∧ ∀ m', act E m a = some m' → ExclusiveRun E rest m'

/-- The last signed head is among the parents. -/
def Extends (parents : List Bytes) : Prop :=
  ∀ head, signed.getLast? = some head → head.snapshotId ∈ parents

/-- What a process has read is still what the store holds. -/
def Phase.Fits (counter : Nat) (signed : List HeadRecord) : Phase → Prop
  | .start | .stored _ _ | .ended _ => True
  | .deviceState r | .epochKey r | .tracked r | .authorityRead r => r.counter = counter
  | .headRead r | .ready r => r.counter = counter ∧ Extends signed r.parentIds
  | .captured r output | .saved r output =>
    r.counter = counter ∧ Extends signed output.record.parentSnapshotIds
  | .counted r output | .prepared r output _ =>
    r.counter + 1 = counter ∧ Extends signed output.record.parentSnapshotIds ∧
      ∀ head ∈ signed, head.deviceCounter ≤ r.counter
  | .signed _ head => signed.getLast? = some head

variable {phase : Phase} {m m' : Machine} {E : Externals} {signed : List HeadRecord}

theorem Phase.fits_of_not_inWindow (h : phase.inWindow = false) (counter : Nat) (signed : List HeadRecord) :
    phase.Fits counter signed := by
  cases phase <;> trivial

def Phase.increment : Phase → Nat
  | .saved _ _ => 1
  | _ => 0

def Phase.held : Phase → Option HeadRecord
  | .signed _ head => some head
  | _ => none

variable {head : HeadRecord}

section

variable {E : Externals} {job : Job} {s s' : LocalStore} {phase phase' : Phase}

theorem finish_frame (job : Job) (s : LocalStore) (output : SnapshotOutput) :
    (finish job s output).1.deviceCounter = s.deviceCounter ∧ (finish job s output).1.heads = s.heads := by
  unfold finish
  split <;> exact ⟨rfl, rfl⟩

theorem call_frame (h : Call E job s phase s' phase') :
    s'.deviceCounter = s.deviceCounter + phase.increment ∧ (phase.held = none → s'.heads = s.heads) := by
  cases h with
  | saved r output s' hsave =>
    obtain ⟨_, _, _, rfl⟩ := saveSnapshot_frame hsave
    exact ⟨rfl, fun _ => rfl⟩
  | prepared r output s' set hpre =>
    obtain ⟨_, rfl⟩ := prepareRecoverySet_frame hpre
    exact ⟨rfl, fun _ => rfl⟩
  | stored output head s' hset =>
    rw [setHead_eq_ok hset]
    exact ⟨rfl, nofun⟩
  | ended output head => exact ⟨(finish_frame job s output).1, fun _ => (finish_frame job s output).2⟩
  | _ => exact ⟨rfl, fun _ => rfl⟩

theorem signHead_eq_ok {r : Reads} {output : SnapshotOutput} {set : RecoverySet}
    (h : signHead E s r output set = .ok head) :
    head.parentSnapshotIds = output.record.parentSnapshotIds ∧ head.deviceCounter = r.counter + 1 := by
  simp only [signHead, bind_eq_ok, mapError_eq_ok] at h
  obtain ⟨_, _, _, _, hsign⟩ := h
  obtain ⟨_, _, rfl⟩ := HeadRecord.sign_eq_ok hsign
  exact ⟨rfl, rfl⟩

variable {signed : List HeadRecord}

theorem extends_parentsOf
    (htip : ∀ head, signed.getLast? = some head → s.getActiveHead = some head) :
    Extends signed (parentsOf s) := by
  intro head hla
  rw [parentsOf, htip head hla]
  exact mem_singleton_self _

theorem call_fits (h : Call E job s phase s' phase') (hfits : phase.Fits s.deviceCounter signed)
    (hbound : ∀ head ∈ signed, head.deviceCounter ≤ s.deviceCounter)
    (htip : phase.inWindow = true → phase.held = none → ∀ head, signed.getLast? = some head →
      s.getActiveHead = some head) : phase'.Fits s'.deviceCounter (signed ++ phase'.justSigned) := by
  cases h with
  | signed r output set head hsign =>
    rw [justSigned, Phase.Fits, getLast?_append]
    rfl
  | headRead r | watchReady r =>
    simp only [justSigned, append_nil]
    exact ⟨hfits, extends_parentsOf (htip rfl rfl)⟩
  | captured r output hcreate =>
    obtain ⟨_, _, hrec⟩ := SnapshotRecord.sign_eq_ok (createSnapshot_record hcreate)
    simp only [justSigned, append_nil, Phase.Fits]
    rw [hrec]
    exact hfits
  | counted r output =>
    obtain ⟨hcou, hextends⟩ := hfits
    simp only [justSigned, append_nil]
    refine ⟨congrArg (· + 1) hcou, hextends, fun head hh => ?_⟩
    rw [hcou]
    exact hbound head hh
  | saved r output s' hsave =>
    obtain ⟨_, _, _, rfl⟩ := saveSnapshot_frame hsave
    simp only [justSigned, append_nil]
    exact hfits
  | prepared r output s' set hpre =>
    obtain ⟨_, rfl⟩ := prepareRecoverySet_frame hpre
    simp only [justSigned, append_nil]
    exact hfits
  | deviceState => rfl
  | stored | ended => trivial
  | _ =>
    simp only [justSigned, append_nil]
    exact hfits

theorem call_links (h : Call E job s phase s' phase') (hfits : phase.Fits s.deviceCounter signed)
    (hsigned : head ∈ phase'.justSigned) :
    Extends signed head.parentSnapshotIds ∧ head.deviceCounter = s'.deviceCounter ∧
      ∀ older ∈ signed, older.deviceCounter < head.deviceCounter := by
  cases h with
  | signed r output set head' hsign =>
    rw [justSigned, mem_singleton] at hsigned
    subst hsigned
    obtain ⟨hpar, hcou⟩ := signHead_eq_ok hsign
    obtain ⟨hreads, hextends, holder⟩ := hfits
    rw [hpar, hcou]
    exact ⟨hextends, hreads, fun older ho => lt_succ_of_le (holder older ho)⟩
  | _ => cases hsigned

end

/-- The next signed head names the one before it as its parent and has a greater counter. -/
def Links (a b : HeadRecord) : Prop := a.snapshotId ∈ b.parentSnapshotIds ∧ a.deviceCounter < b.deviceCounter

/-- The signed heads are one chain, and at most one process extends it. -/
structure Inv (m : Machine) : Prop where
  chain : m.signed.IsChain Links
  bound : ∀ head ∈ m.signed, head.deviceCounter ≤ m.store.deviceCounter
  alone : ∀ p q, m.Busy p → m.Busy q → p = q
  /-- The last signed head is the active one, once it is stored. -/
  tip : (∀ pid head, ¬ m.Holds pid head) → ∀ head, m.signed.getLast? = some head →
    m.store.getActiveHead = some head
  fits : ∀ pid job phase, m.procs pid = some (job, phase) → phase.Fits m.store.deviceCounter m.signed

theorem inv_boot (s : LocalStore) : Inv (boot s) where
  chain := IsChain.nil
  bound := nofun
  alone := nofun
  tip := nofun
  fits := nofun

variable {q : Nat} {a : Action} {actions : List Action}

section

variable {m : Machine} {pid : Nat} {job : Job} {phase : Phase}

theorem procs_setProc_self : (m.setProc pid job phase).procs pid = some (job, phase) :=
  Function.update_self pid _ m.procs

theorem procs_setProc_of_ne (h : q ≠ pid) : (m.setProc pid job phase).procs q = m.procs q :=
  Function.update_of_ne h _ m.procs

theorem busy_setProc (h : (m.setProc pid job phase).Busy q) : q = pid ∧ phase.inWindow = true ∨
    q ≠ pid ∧ m.Busy q := by
  obtain ⟨job', phase', hp, hwindow⟩ := h
  by_cases hq : q = pid
  · subst hq
    rw [procs_setProc_self] at hp
    cases hp
    exact .inl ⟨rfl, hwindow⟩
  · rw [procs_setProc_of_ne hq] at hp
    exact .inr ⟨hq, job', phase', hp, hwindow⟩

theorem holds_setProc_of_ne (hq : q ≠ pid) (h : m.Holds q head) : (m.setProc pid job phase).Holds q head := by
  obtain ⟨job', output, hp⟩ := h
  exact ⟨job', output, by rw [procs_setProc_of_ne hq]; exact hp⟩

end

theorem inv_setProc {pid : Nat} {job : Job} (hinv : Inv m) (hwindow : phase.inWindow = false)
    (hholds : ∀ head, ¬ m.Holds pid head) : Inv (m.setProc pid job phase) where
  chain := hinv.chain
  bound := hinv.bound
  alone := by
    intro p q hp hq
    rcases busy_setProc hp with ⟨_, h⟩ | ⟨_, hp'⟩
    · rw [hwindow] at h; cases h
    · rcases busy_setProc hq with ⟨_, h⟩ | ⟨_, hq'⟩
      · rw [hwindow] at h; cases h
      · exact hinv.alone p q hp' hq'
  tip := by
    intro hn
    refine hinv.tip fun q head hq => ?_
    by_cases hne : q = pid
    · subst hne; exact hholds head hq
    · exact hn q head (holds_setProc_of_ne hne hq)
  fits := by
    intro q job' phase' hpr
    by_cases hne : q = pid
    · subst hne
      rw [procs_setProc_self] at hpr
      cases hpr
      exact fits_of_not_inWindow hwindow _ _
    · rw [procs_setProc_of_ne hne] at hpr
      exact hinv.fits q job' phase' hpr

theorem inv_store {s : LocalStore} (hinv : Inv m) (hcounter : s.deviceCounter = m.store.deviceCounter)
    (hheads : s.heads = m.store.heads) : Inv { m with store := s } where
  chain := hinv.chain
  bound := fun head h => by rw [hcounter]; exact hinv.bound head h
  alone := hinv.alone
  tip := fun hn head h => by
    rw [getActiveHead, hheads]
    exact hinv.tip hn head h
  fits := fun pid job phase h => by rw [hcounter]; exact hinv.fits pid job phase h

theorem retryItem_frame (E : Externals) (s : LocalStore) (item : PendingUpload)
    (upload : Except String Unit) :
    (retryItem E s item upload).deviceCounter = s.deviceCounter ∧
    (retryItem E s item upload).heads = s.heads := by
  unfold retryItem
  split
  · exact ⟨rfl, rfl⟩
  · split <;> exact ⟨rfl, rfl⟩

section

variable {E : Externals} {m : Machine} {pid : Nat} {job : Job} {phase phase' : Phase} {s' : LocalStore}

theorem chain_append_justSigned (hinv : Inv m) (hproc : m.procs pid = some (job, phase))
    (hcall : Call E job m.store phase s' phase') : (m.signed ++ phase'.justSigned).IsChain Links := by
  rw [isChain_append]
  refine ⟨hinv.chain, ?_, ?_⟩
  · cases phase' <;> first | exact IsChain.nil | exact List.IsChain.singleton _
  · intro last hla next hn
    obtain ⟨hextends, _, holder⟩ := call_links hcall (hinv.fits pid job phase hproc) (mem_of_mem_head? hn)
    exact ⟨hextends last hla, holder last (mem_of_getLast? hla)⟩

theorem bound_append_justSigned (hinv : Inv m) (hproc : m.procs pid = some (job, phase))
    (hcall : Call E job m.store phase s' phase') :
    ∀ head ∈ m.signed ++ phase'.justSigned, head.deviceCounter ≤ s'.deviceCounter := by
  intro head hh
  rcases mem_append.mp hh with hold | hnew
  · rw [(call_frame hcall).1]
    exact le_add_right_of_le (hinv.bound head hold)
  · exact le_of_eq (call_links hcall (hinv.fits pid job phase hproc) hnew).2.1

/-- While one process is in its window, the calls of the others change nothing that it has read. -/
theorem fits_of_other {job' : Job} {other : Phase} (hinv : Inv m) (hproc : m.procs pid = some (job, phase))
    (hcall : Call E job m.store phase s' phase') (hstart : phase = .start → ∀ other, ¬ m.Busy other)
    (hq : q ≠ pid) (hother : m.procs q = some (job', other)) :
    other.Fits s'.deviceCounter (m.signed ++ phase'.justSigned) := by
  cases hwindow : other.inWindow with
  | false => exact fits_of_not_inWindow hwindow _ _
  | true =>
    have hbusy : m.Busy q := ⟨job', other, hother, hwindow⟩
    have hidle : phase.inWindow = false := by
      by_contra hne
      exact hq (hinv.alone q pid hbusy ⟨job, phase, hproc, Bool.eq_true_of_not_eq_false hne⟩)
    cases hcall with
    | deviceState => exact absurd hbusy (hstart rfl q)
    | ended output head =>
      rw [(finish_frame job m.store output).1]
      simp only [justSigned, append_nil]
      exact hinv.fits q job' other hother
    | _ => cases hidle

theorem held_of_holds (hproc : m.procs pid = some (job, phase)) (h : m.Holds pid head) :
    phase.held = some head := by
  obtain ⟨_, output, hsig⟩ := h
  rw [hproc] at hsig
  cases hsig
  rfl

theorem tip_of_window (hinv : Inv m) (hproc : m.procs pid = some (job, phase))
    (hwindow : phase.inWindow = true)
    (hheld : phase.held = none) : ∀ head, m.signed.getLast? = some head →
      m.store.getActiveHead = some head := by
  refine hinv.tip fun q head hq => ?_
  obtain ⟨job', output, hsig⟩ := hq
  have hqp : q = pid := hinv.alone q pid ⟨job', _, hsig, rfl⟩ ⟨job, phase, hproc, hwindow⟩
  subst hqp
  rw [held_of_holds hproc ⟨job', output, hsig⟩] at hheld
  cases hheld

theorem tip_of_call (hinv : Inv m) (hproc : m.procs pid = some (job, phase))
    (hcall : Call E job m.store phase s' phase')
    (hnone : ∀ q head, ¬ ({ m with store := s', signed := m.signed ++ phase'.justSigned }.setProc
      pid job phase').Holds
      q head) :
    ∀ head, (m.signed ++ phase'.justSigned).getLast? = some head → s'.getActiveHead = some head := by
  cases hheld : phase.held with
  | some held =>
    cases hcall with
    | stored output head s' hset =>
      intro last hla
      simp only [justSigned, append_nil] at hla
      have hf := hinv.fits pid job _ hproc
      rw [Phase.Fits, hla] at hf
      cases hf
      exact getActiveHead_setHead hset
    | _ => cases hheld
  | none =>
    have hold : ∀ q head, ¬ m.Holds q head := by
      intro q head hq
      by_cases hne : q = pid
      · subst hne
        rw [held_of_holds hproc hq] at hheld
        cases hheld
      · exact hnone q head (holds_setProc_of_ne hne hq)
    have hjust : phase'.justSigned = [] := by
      cases hcall with
      | signed r output set head hsign => exact absurd ⟨job, output, procs_setProc_self⟩ (hnone pid head)
      | _ => rfl
    rw [hjust, append_nil, getActiveHead, (call_frame hcall).2 hheld]
    exact hinv.tip hold

theorem inv_call (hinv : Inv m) (hproc : m.procs pid = some (job, phase))
    (hcall : Call E job m.store phase s' phase') (hstart : phase = .start → ∀ other, ¬ m.Busy other) :
    Inv ({ m with store := s', signed := m.signed ++ phase'.justSigned }.setProc pid job phase') where
  chain := chain_append_justSigned hinv hproc hcall
  bound := bound_append_justSigned hinv hproc hcall
  alone := by
    -- A process is in its window after a call only if it was before, or has just read the device state.
    have hb : phase'.inWindow = true → ∀ q, m.Busy q → q = pid := by
      intro hwindow q hq
      cases hphase : phase.inWindow with
      | true => exact hinv.alone q pid hq ⟨job, phase, hproc, hphase⟩
      | false =>
        cases hcall with
        | deviceState => exact absurd hq (hstart rfl q)
        | ended output head => cases hwindow
        | _ => cases hphase
    intro p q hp hq
    rcases busy_setProc hp with ⟨rfl, hwp⟩ | ⟨hnp, hp'⟩
    · rcases busy_setProc hq with ⟨rfl, _⟩ | ⟨_, hq'⟩
      · rfl
      · exact (hb hwp q hq').symm
    · rcases busy_setProc hq with ⟨rfl, hwq⟩ | ⟨_, hq'⟩
      · exact hb hwq p hp'
      · exact hinv.alone p q hp' hq'
  tip := tip_of_call hinv hproc hcall
  fits := by
    intro q job' other ho
    by_cases hq : q = pid
    · subst hq
      rw [procs_setProc_self] at ho
      cases ho
      exact call_fits hcall (hinv.fits q job phase hproc) hinv.bound (tip_of_window hinv hproc)
    · rw [procs_setProc_of_ne hq] at ho
      exact fits_of_other hinv hproc hcall hstart hq ho

end

theorem setHead_isOk (s : LocalStore) (h : (E.encode (.head head)).length ≤ maxRecordSize) :
    ∃ s', s.setHead E head = .ok s' := by
  have hcbor : toCanonicalCbor E (.head head) = .ok (E.encode (.head head)) := if_neg (not_lt.mpr h)
  simp only [setHead, hcbor, Except.mapError]
  exact ⟨_, rfl⟩

theorem inv_act (hinv : Inv m) (hexclusive : Exclusive E m a) (hact : act E m a = some m') : Inv m' := by
  cases a with
  | launch pid job =>
    simp only [act] at hact
    cases hp : m.procs pid with
    | some p => simp [hp] at hact
    | none =>
      simp only [hp, some.injEq] at hact
      subst hact
      refine inv_setProc hinv rfl fun head ⟨_, _, h⟩ => ?_
      rw [hp] at h
      cases h
  | crash pid =>
    simp only [act] at hact
    cases hp : m.procs pid with
    | none => simp [hp] at hact
    | some p =>
      simp only [hp, some.injEq] at hact
      subst hact
      exact inv_setProc hinv rfl hexclusive
  | retry item upload =>
    simp only [act, ite_none_right_eq_some, some.injEq] at hact
    obtain ⟨_, rfl⟩ := hact
    obtain ⟨hcou, hheads⟩ := retryItem_frame E m.store item upload
    exact inv_store hinv hcou hheads
  | step pid =>
    obtain ⟨hst, hencode⟩ := hexclusive
    simp only [act] at hact
    split at hact
    · cases hact
    · cases hact
    · rename_i job phase _ hp
      split at hact
      · rename_i e hadv
        cases hact
        refine inv_setProc hinv rfl fun head hholds => ?_
        -- A held head is stored: the only call of that phase does not fail.
        obtain ⟨job', output, hsig⟩ := hholds
        obtain ⟨s', hset⟩ := setHead_isOk m.store (hencode head ⟨job', output, hsig⟩)
        rw [hp] at hsig
        cases hsig
        simp only [advance, hset] at hadv
        cases hadv
      · rename_i s' phase' hadv
        cases hact
        refine inv_call hinv hp (call_of_advance hadv) fun hphase => ?_
        subst hphase
        exact hst ⟨job, hp⟩

theorem inv_run (hinv : Inv m) (hexclusive : ExclusiveRun E actions m)
    (hrun : run E actions m = some m') : Inv m' := by
  induction actions generalizing m with
  | nil =>
    cases hrun
    exact hinv
  | cons a rest ih =>
    rw [run] at hrun
    cases hact : act E m a with
    | none => simp [hact] at hrun
    | some next =>
      simp only [hact] at hrun
      exact ih (inv_act hinv hexclusive.1 hact) (hexclusive.2 next hact) hrun

theorem singleChain_of_isChain (h : signed.IsChain Links) : SingleChain signed := by
  refine isChain_iff_pairwise.mp (IsChain.imp_of_mem_imp ?_ h)
  intro a b ha hb hlinks
  exact .single ⟨ha, hb, hlinks.1⟩

theorem noEquivocation_of_isChain (h : signed.IsChain Links) : NoEquivocation signed := by
  have hchain : (signed.map HeadRecord.deviceCounter).IsChain (· < ·) :=
    (isChain_map _).mpr (h.imp fun _ _ hlinks => hlinks.2)
  have hnd : (signed.map HeadRecord.deviceCounter).Nodup :=
    (isChain_iff_pairwise.mp hchain).imp fun hlt => ne_of_lt hlt
  intro a ha b hb heq
  exact inj_on_of_nodup_map hnd ha hb heq

/-- **One chain.** Along every run of pushes, watcher captures, crashes and retries with exclusive
steps, the device does not equivocate and what it signed is a single chain. -/
theorem exclusive_run_chain (E : Externals) (store : LocalStore) (actions : List Action) (m : Machine)
    (hexclusive : ExclusiveRun E actions (boot store)) (hrun : run E actions (boot store) = some m) :
    NoEquivocation m.signed ∧ SingleChain m.signed :=
  have hinv := inv_run (inv_boot store) hexclusive hrun
  ⟨noEquivocation_of_isChain hinv.chain, singleChain_of_isChain hinv.chain⟩

/-- Once no process holds a head that is still to be stored, the last signed head is the active one.
-/
theorem exclusive_run_active (E : Externals) (store : LocalStore) (actions : List Action) (m : Machine)
    (hexclusive : ExclusiveRun E actions (boot store)) (hrun : run E actions (boot store) = some m) :
    (∀ head ∈ m.signed, head.deviceCounter ≤ m.store.deviceCounter) ∧
      ((∀ pid head, ¬ m.Holds pid head) → ∀ head, m.signed.getLast? = some head →
        m.store.getActiveHead = some head) :=
  have hinv := inv_run (inv_boot store) hexclusive hrun
  ⟨hinv.bound, hinv.tip⟩

section

def noneBusy (m : Machine) (pids : List Nat) : Bool :=
  pids.all fun pid => match m.procs pid with
    | some (_, phase) => !phase.inWindow
    | none => true

def exclusiveCheck (E : Externals) (pids : List Nat) (m : Machine) : Action → Bool
  | .launch pid _ => pid ∈ pids
  | .step pid =>
    match m.procs pid with
    | some (_, .start) => noneBusy m pids
    | some (_, .signed _ head) => (E.encode (.head head)).length ≤ maxRecordSize
    | _ => true
  | .crash pid =>
    match m.procs pid with
    | some (_, .signed _ _) => false
    | _ => true
  | .retry _ _ => true

def exclusiveRunCheck (E : Externals) (pids : List Nat) : List Action → Machine → Bool
  | [], _ => true
  | a :: rest, m =>
    exclusiveCheck E pids m a &&
      match act E m a with
      | none => true
      | some m' => exclusiveRunCheck E pids rest m'

variable {m : Machine} {pids : List Nat} {E : Externals}

section

variable (hpids : ∀ q ∉ pids, m.procs q = none)
include hpids

theorem not_busy_of_noneBusy (h : noneBusy m pids = true) (q : Nat) : ¬ m.Busy q := by
  intro ⟨job, phase, hp, hwindow⟩
  by_cases hq : q ∈ pids
  · have hq' := all_eq_true.mp h q hq
    simp [hp, hwindow] at hq'
  · rw [hpids q hq] at hp
    cases hp

theorem exclusive_of_check (h : exclusiveCheck E pids m a = true) : Exclusive E m a := by
  cases a with
  | launch | retry => trivial
  | step pid =>
    refine ⟨fun ⟨job, hp⟩ => ?_, fun head ⟨job, output, hp⟩ => ?_⟩
    · simp only [exclusiveCheck, hp] at h
      exact not_busy_of_noneBusy hpids h
    · simp only [exclusiveCheck, hp, decide_eq_true_eq] at h
      exact h
  | crash pid =>
    intro head ⟨job, output, hp⟩
    simp only [exclusiveCheck, hp] at h
    cases h

theorem procs_setProc_outside {pid : Nat} (hpid : pid ∈ pids) (job : Job) (phase : Phase) :
    ∀ q ∉ pids, (m.setProc pid job phase).procs q = none := by
  intro q hq
  have hne : q ≠ pid := fun heq => hq (heq ▸ hpid)
  rw [procs_setProc_of_ne hne]
  exact hpids q hq

theorem procs_act_outside (h : exclusiveCheck E pids m a = true) (hact : act E m a = some m') :
    ∀ q ∉ pids, m'.procs q = none := by
  have hmem : ∀ pid p, m.procs pid = some p → pid ∈ pids := by
    intro pid p hp
    by_contra hnot
    rw [hpids pid hnot] at hp
    cases hp
  simp only [act] at hact
  split at hact
  · split at hact
    · cases hact
      exact procs_setProc_outside hpids (of_decide_eq_true h) _ _
    · cases hact
  · split at hact
    · cases hact
    · cases hact
    · rename_i hp
      split at hact
      · cases hact
        exact procs_setProc_outside hpids (hmem _ _ hp) _ _
      · cases hact
        exact procs_setProc_outside (m := { m with store := _, signed := _ }) hpids (hmem _ _ hp) _ _
  · split at hact
    · cases hact
    · rename_i hp
      cases hact
      exact procs_setProc_outside hpids (hmem _ _ hp) _ _
  · rw [ite_none_right_eq_some] at hact
    obtain ⟨_, hact⟩ := hact
    cases hact
    exact hpids

theorem exclusiveRun_of_check (h : exclusiveRunCheck E pids actions m = true) : ExclusiveRun E actions m := by
  induction actions generalizing m with
  | nil => trivial
  | cons a rest ih =>
    rw [exclusiveRunCheck, Bool.and_eq_true] at h
    refine ⟨exclusive_of_check hpids h.1, fun m' hact => ?_⟩
    have hr := h.2
    simp only [hact] at hr
    exact ih (procs_act_outside hpids h.1 hact) hr

end

end

/-! ## Two captures on the reference externals -/

def launches : List Action :=
  [.launch 0 (demoJob .push emptyTree 1), .launch 1 (demoJob .watch emptyTree 2)]

def oneAfterTheOther : List Action := launches ++ replicate 12 (.step 0) ++ replicate 12 (.step 1)

def interleaved : List Action :=
  launches ++ [.step 0, .step 1] ++ replicate 11 (.step 0) ++ replicate 11 (.step 1)

def countersOf (m : Machine) : List Nat := m.signed.map HeadRecord.deviceCounter

def sameCounterTwice (m : Machine) : Bool :=
  match m.signed with
  | [a, b] => a.deviceCounter == b.deviceCounter && a != b
  | _ => false

set_option maxRecDepth 100000 in
/-- Both runs in one evaluation: each one would run the captures anew. -/
theorem twoCaptures_evaluated : exclusiveRunCheck reference [0, 1] oneAfterTheOther (boot demoStore) = true ∧
    (run reference oneAfterTheOther (boot demoStore)).map countersOf = some [1, 2] ∧
    (run reference interleaved (boot demoStore)).any sameCounterTwice = true := by
  decide +kernel

theorem exclusive_run_chain_two_captures :
    ∃ m, run reference oneAfterTheOther (boot demoStore) = some m ∧ countersOf m = [1, 2] ∧
      NoEquivocation m.signed ∧ SingleChain m.signed := by
  obtain ⟨hexclusive, hcou, -⟩ := twoCaptures_evaluated
  obtain ⟨m, hrun, hm⟩ := map_eq_some_iff.mp hcou
  exact ⟨m, hrun, hm, exclusive_run_chain reference demoStore oneAfterTheOther m
    (exclusiveRun_of_check (fun _ _ => rfl) hexclusive) hrun⟩

theorem exclusive_run_active_two_captures : ∃ m, run reference oneAfterTheOther (boot demoStore) = some m ∧
    ∀ head ∈ m.signed, head.deviceCounter ≤ m.store.deviceCounter := by
  obtain ⟨hexclusive, hcou, -⟩ := twoCaptures_evaluated
  obtain ⟨m, hrun, -⟩ := map_eq_some_iff.mp hcou
  exact ⟨m, hrun, (exclusive_run_active reference demoStore oneAfterTheOther m
    (exclusiveRun_of_check (fun _ _ => rfl) hexclusive) hrun).1⟩

/-- A push and a watcher capture that read the device state before either stores its head sign two
heads of one counter. -/
theorem interleaved_captures_equivocate :
    ∃ m, run reference interleaved (boot demoStore) = some m ∧ ¬ NoEquivocation m.signed := by
  obtain ⟨-, -, htwice⟩ := twoCaptures_evaluated
  obtain ⟨m, hrun, hm⟩ := (Option.any_eq_true _ _).mp htwice
  refine ⟨m, hrun, fun hno => ?_⟩
  unfold sameCounterTwice at hm
  split at hm
  · rename_i a b hsig
    simp only [Bool.and_eq_true, beq_iff_eq, bne_iff_ne] at hm
    refine hm.2 (hno a ?_ b ?_ hm.1)
    · rw [hsig]; exact mem_cons_self
    · rw [hsig]; exact mem_cons_of_mem _ mem_cons_self
  · cases hm

end CipherVault.Device
