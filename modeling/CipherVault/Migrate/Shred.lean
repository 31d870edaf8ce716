import CipherVault.Base.Runs
import CipherVault.Migrate.Ledger

/-!
# Migrate.Shred

Shredding a vault once it is migrated. A plan starts a run and submits what it has found in batches;
between two requests it can be cut off, and other commands can come. `shred` asks that every entry
of every live run is disabled, that some live run is of the vault, and some of its head.
-/

namespace CipherVault.Migrate

open Crypto Network List Option File

def submitBatch : Nat := 1000

/-- A plan in its run: what it found, and what it has not submitted yet. -/
structure Plan where
  (vault snapshot : Bytes)
  defaultEnv : Text
  (proposals remaining : List SubmitEntry)

structure State where
  ledger : Ledger
  plans : Dict Text Plan

/-- The requests of commands. `other` are those of `apply`, `verify`, `resolve`, `abort` and of an
earlier `shred`, with any arguments. -/
inductive Event where
  | plan (scope : Scope) (envs : Text → Option Text) (migrationId : Text) (vault snapshot : Bytes)
      (defaultEnv : Text)
  | submit (scope : Scope) (migrationId : Text)
  | other (scope : Scope) (call : Call) (h : call.ofPlan = false)

section

variable (sha256 : Bytes → Bytes) (files : Bytes → Bytes → List File)

def ledgerKey (migrationId path : Text) (line : Nat) : Text :=
  Hex.encode (sha256 (utf8 ("mig-ledger-v1|".toList ++ migrationId ++ '|' :: path ++
    '|' :: Nat.toDigits 10 line)))

/-- What a plan submits for a value; an environment that is not known goes as it was guessed. -/
def proposal (migrationId : Text) (envs : Text → Option Text) (c : Classified) : SubmitEntry where
  sourcePath := c.path
  sourceLine := c.line
  name := c.name
  secretType := match c.secretType with
    | .file => "file".toList
    | .keyValue => "key_value".toList
  targetEnvironmentId := (envs c.envGuess).getD c.envGuess
  targetBindingId := none
  targetServiceId := none
  sourceDigest := sha256 c.value
  idempotencyKey := ledgerKey sha256 migrationId c.path c.line

def sourceFiles (vault snapshot : Bytes) : List File :=
  sortBy (fun f : File => textKey f.path) (files vault snapshot)

/-- `cmd_plan` up to the start of its run. -/
def startPlan (s : State) (scope : Scope) (envs : Text → Option Text) (migrationId : Text)
    (vault snapshot : Bytes)
    (defaultEnv : Text) : State :=
  match classifyFiles (sourceFiles files vault snapshot) defaultEnv with
  | .error _ => s
  | .ok (classified, _) =>
    match startRun scope s.ledger migrationId (Hex.encode vault) (Hex.encode snapshot) with
    | .error _ => s
    | .ok ledger =>
      let proposals := classified.map (proposal sha256 migrationId envs)
      { ledger := ledger
        plans := s.plans.insert migrationId ⟨vault, snapshot, defaultEnv, proposals, proposals⟩ }

/-- `cmd_plan` submits its next batch; a plan whose batch is refused ends. -/
def submitNext (s : State) (scope : Scope) (migrationId : Text) : State :=
  match s.plans.lookup migrationId with
  | none => s
  | some plan =>
    match submitEntries scope s.ledger migrationId (plan.remaining.take submitBatch) with
    | .error _ => { s with plans := s.plans.erase migrationId }
    | .ok ledger =>
      { ledger := ledger
        plans := s.plans.insert migrationId { plan with remaining := plan.remaining.drop submitBatch } }

def step (s : State) : Event → State
  | .plan scope envs migrationId vault snapshot defaultEnv =>
    startPlan sha256 files s scope envs migrationId vault snapshot defaultEnv
  | .submit scope migrationId => submitNext s scope migrationId
  | .other scope call _ => { s with ledger := (handle scope s.ledger call).1 }

def after (events : List Event) : State := events.foldl (step sha256 files) ⟨∅, ∅⟩

end

def Run.allDisabled (run : Run) : Bool := run.entries.entries.all fun e => e.2.state == .legacyDisabled

def flipRun (scope : Scope) (ledger : Ledger) (id : Text) (run : Run) : Outcome :=
  if [.verifying, .complete].contains run.state then disableLegacy scope ledger id none else (ledger, .ok ())

def shredRun (scope : Scope) (ledger : Ledger) (id : Text) : Ledger × Option Text :=
  match ledger.lookup id with
  | none => (ledger, none)
  | some run =>
    match flipRun scope ledger id run with
    | (ledger, .error _) => (ledger, none)
    | (ledger, .ok _) =>
      (ledger, (ledger.lookup id).bind fun run => if run.allDisabled then some run.sourceSnapshotHex
        else none)

/-- The loop over the live runs: the ledger after it, and the snapshots of the runs if it gets to
the end. -/
def shredRuns (scope : Scope) : List Text → Ledger → List Text → Ledger × Option (List Text)
  | [], ledger, snapshots => (ledger, some snapshots)
  | id :: rest, ledger, snapshots =>
    match shredRun scope ledger id with
    | (ledger, none) => (ledger, none)
    | (ledger, some snapshot) => shredRuns scope rest ledger (snapshot :: snapshots)

/-- Disables the legacy of every live run; whether the shredding may start. -/
def cmdShred (scope : Scope) (ledger : Ledger) (vault : Bytes) (head : Option Bytes) : Ledger × Bool :=
  let live := ledger.entries.filter fun e => e.2.state != .aborted
  if !scope.authorized || live.isEmpty then (ledger, false)
  else
    let checked := shredRuns scope (live.map Sigma.fst) ledger []
    (checked.1, (live.map fun e => e.2.sourceVaultId).contains (Hex.encode vault) &&
      checked.2.any fun snapshots => head.any fun head => snapshots.contains (Hex.encode head))

variable {key : Key} {vault : Bytes}

section

variable {sha256 : Bytes → Bytes} {files : Bytes → Bytes → List File}

/-- The rows of a run have the digests of the proposals for their places. -/
def Agrees (proposals : List SubmitEntry) (run : Run) : Prop :=
  ∀ e ∈ proposals, ∀ row, run.entries.lookup e.key = some row → row.sourceDigest = e.sourceDigest

/-- A run has what its plan has submitted, with the digests of the plan. -/
structure Tracks (plan : Plan) (run : Run) : Prop where
  vault : run.sourceVaultId = Hex.encode plan.vault
  snapshot : run.sourceSnapshotHex = Hex.encode plan.snapshot
  digests : Agrees plan.proposals run
  submitted : ∀ e ∈ plan.proposals, e ∈ plan.remaining ∨ (run.entries.lookup e.key).isSome = true

/-- One key, one digest of its source. -/
def OneDigest (proposals : List SubmitEntry) : Prop :=
  ∀ e ∈ proposals, ∀ e' ∈ proposals, e.key = e'.key → e.sourceDigest = e'.sourceDigest

/-- What a plan submits is what is found in its snapshot. -/
structure Proposes (sha256 : Bytes → Bytes) (files : Bytes → Bytes → List File) (id : Text)
    (plan : Plan) : Prop where
  found : ∃ envs classified dropped, classifyFiles (sourceFiles files plan.vault plan.snapshot)
    plan.defaultEnv =
    .ok (classified, dropped) ∧ plan.proposals = classified.map (proposal sha256 id envs)
  unique : OneDigest plan.proposals
  subset : plan.remaining ⊆ plan.proposals

/-- Every plan proposes what its files give, and its run follows it. -/
def Inv (sha256 : Bytes → Bytes) (files : Bytes → Bytes → List File) (s : State) : Prop :=
  ∀ id plan, s.plans.lookup id = some plan → Proposes sha256 files id plan ∧
    ∃ run, s.ledger.lookup id = some run ∧ Tracks plan run

variable {run run' : Run} {proposals : List SubmitEntry} {e : SubmitEntry} {s : State}

theorem Tracks.of_sameSource {plan : Plan} (h : Tracks plan run) (hsame : run.SameSource run') :
    Tracks plan run' := by
  refine ⟨hsame.vault.trans h.vault, hsame.snapshot.trans h.snapshot, ?_, ?_⟩
  · intro e he row' hrow'
    have hdig := hsame.digests e.key
    rw [hrow', map_some] at hdig
    obtain ⟨row, hrow, hrow'⟩ := map_eq_some_iff.mp hdig.symm
    rw [← hrow', h.digests e he row hrow]
  · intro e he
    refine (h.submitted e he).imp_right fun hs => ?_
    rw [← isSome_map (f := Entry.sourceDigest), hsame.digests e.key, isSome_map, hs]

theorem Agrees.record (h : Agrees proposals run) (hunique : OneDigest proposals) (he : e ∈ proposals)
    (hrecorded : Recorded run e run') : Agrees proposals run' := by
  obtain ⟨row, hrow, hdig⟩ := hrecorded.row
  intro e' he' row' hrow'
  by_cases hkey : e'.key = e.key
  · rw [hkey, hrow] at hrow'
    cases hrow'
    rcases hdig with hdig | hold
    · rw [hdig, hunique e he e' he' hkey.symm]
    · exact h e' he' row (hkey ▸ hold)
  · rw [hrecorded.others _ hkey] at hrow'
    exact h e' he' row' hrow'

theorem Recorded.isSome (h : Recorded run e run')
    (hkey : key = e.key ∨ (run.entries.lookup key).isSome = true) :
    (run'.entries.lookup key).isSome = true := by
  by_cases hs : key = e.key
  · obtain ⟨row, hrow, -⟩ := h.row
    rw [hs, hrow]
    rfl
  · rw [h.others key hs]
    exact hkey.resolve_left hs

theorem of_batch {batch : List SubmitEntry} {scope : Scope} (hunique : OneDigest proposals)
    (hbatch : batch ⊆ proposals)
    (hfold : batch.foldlM (upsertAndValidate scope) run = .ok run') (h : Agrees proposals run) :
    run'.sourceVaultId = run.sourceVaultId ∧ run'.sourceSnapshotHex = run.sourceSnapshotHex ∧
    Agrees proposals run' ∧
      (∀ key, (run.entries.lookup key).isSome = true → (run'.entries.lookup key).isSome = true) ∧
      ∀ e ∈ batch, (run'.entries.lookup e.key).isSome = true := by
  induction batch generalizing run with
  | nil =>
    cases hfold
    exact ⟨rfl, rfl, h, fun _ hkey => hkey, nofun⟩
  | cons e rest ih =>
    rw [foldlM_cons, bind_eq_ok] at hfold
    obtain ⟨middle, hmiddle, hfold⟩ := hfold
    have hrec := recorded_of_upsert hmiddle
    obtain ⟨hv, hsna, hagrees, hk, hall⟩ := ih (fun x hx => hbatch (mem_cons_of_mem e hx)) hfold
      (h.record hunique (hbatch mem_cons_self) hrec)
    refine ⟨hv.trans hrec.vault, hsna.trans hrec.snapshot, hagrees, ?_, ?_⟩
    · intro key hkey
      exact hk key (hrec.isSome (.inr hkey))
    · intro x hx
      rcases mem_cons.mp hx with rfl | hx
      · exact hk x.key (hrec.isSome (.inl rfl))
      · exact hall x hx

theorem inv_of_keeps {ledger : Ledger} (h : Inv sha256 files s) (hkeeps : Keeps s.ledger ledger) :
    Inv sha256 files { s with ledger := ledger } := by
  intro id plan hp
  obtain ⟨hpro, run, hrun, htracks⟩ := h id plan hp
  obtain ⟨run', hrun', hs⟩ := hkeeps id run hrun
  exact ⟨hpro, run', hrun', htracks.of_sameSource hs⟩

theorem oneDigest_proposals {snapshot : Bytes} {defaultEnv : Text} {classified : List Classified}
    {dropped : List Dropped} (hpaths : ∀ vault snapshot, ((files vault snapshot).map path).Nodup)
    (h : classifyFiles (sourceFiles files vault snapshot) defaultEnv = .ok (classified, dropped)) (id : Text)
    (envs : Text → Option Text) : OneDigest (classified.map (proposal sha256 id envs)) := by
  have hnd : ((sourceFiles files vault snapshot).map path).Nodup :=
    ((sortBy_perm _ _).map path).nodup_iff.mpr (hpaths vault snapshot)
  intro e he e' he' hkey
  obtain ⟨c, hc, rfl⟩ := mem_map.mp he
  obtain ⟨c', hc', rfl⟩ := mem_map.mp he'
  obtain ⟨hpath, hline⟩ := Prod.mk.inj hkey
  exact congrArg sha256 (value_of_place hnd h hc hc' hpath hline)

theorem inv_startPlan (hpaths : ∀ vault snapshot, ((files vault snapshot).map path).Nodup)
    (h : Inv sha256 files s)
    (scope : Scope) (envs : Text → Option Text) (id : Text) (vault snapshot : Bytes) (defaultEnv : Text) :
    Inv sha256 files (startPlan sha256 files s scope envs id vault snapshot defaultEnv) := by
  unfold startPlan
  split
  · exact h
  · next classified dropped hcla =>
    split
    · exact h
    · next ledger hst =>
      obtain ⟨hnew, rfl⟩ := of_startRun hst
      intro id' plan hp
      rcases lookup_insert_cases hp with ⟨rfl, rfl⟩ | ⟨hid, hp⟩
      · refine ⟨⟨⟨envs, classified, dropped, hcla, rfl⟩, oneDigest_proposals hpaths hcla id' envs,
          fun _ he => he⟩,
          _, lookup_insert _, ?_⟩
        refine ⟨trim_of_decode (Hex.decode_encode vault),
          trim_of_decode (Hex.decode_encode snapshot), ?_, fun e he => .inl he⟩
        nofun
      · obtain ⟨hpro, run, hrun, htracks⟩ := h id' plan hp
        exact ⟨hpro, run, by rw [lookup_insert_ne hid, hrun], htracks⟩

theorem inv_submitNext (h : Inv sha256 files s) (scope : Scope) (id : Text) :
    Inv sha256 files (submitNext s scope id) := by
  unfold submitNext
  split
  · exact h
  · next plan hp =>
    split
    · intro id' plan' hp'
      exact h id' plan' (lookup_of_lookup_erase hp').2
    · next ledger hsubmit =>
      obtain ⟨run, run', sorted, hrun, hperm, hfold, rfl⟩ := of_submitEntries hsubmit
      intro id' plan' hp'
      rcases lookup_insert_cases hp' with ⟨rfl, rfl⟩ | ⟨hid, hp'⟩
      · obtain ⟨hpro, run₀, hrun₀, htracks⟩ := h id' plan hp
        cases hrun.symm.trans hrun₀
        have hbatch : sorted ⊆ plan.proposals := fun e he =>
          hpro.subset (mem_of_mem_take (hperm.symm.subset he))
        obtain ⟨hv, hsna, hagrees, hk, hall⟩ := of_batch hpro.unique hbatch hfold htracks.digests
        refine ⟨⟨hpro.found, hpro.unique, fun e he => hpro.subset (mem_of_mem_drop he)⟩, run',
          lookup_insert _, hv.trans htracks.vault, hsna.trans htracks.snapshot, hagrees, ?_⟩
        intro e he
        rcases htracks.submitted e he with hrem | hs
        · rw [← take_append_drop submitBatch plan.remaining, mem_append] at hrem
          exact hrem.symm.imp_right fun htake => hall e (hperm.subset htake)
        · exact .inr (hk e.key hs)
      · obtain ⟨hpro, run₀, hrun₀, htracks⟩ := h id' plan' hp'
        exact ⟨hpro, run₀, by rw [lookup_insert_ne hid, hrun₀], htracks⟩

theorem inv_step (hpaths : ∀ vault snapshot, ((files vault snapshot).map path).Nodup) (h : Inv sha256 files s)
    (event : Event) : Inv sha256 files (step sha256 files s event) := by
  cases event with
  | plan scope envs id vault snapshot defaultEnv =>
    exact inv_startPlan hpaths h scope envs id vault snapshot defaultEnv
  | submit scope id => exact inv_submitNext h scope id
  | other scope call hcall => exact inv_of_keeps h (keeps_handle scope s.ledger hcall)

theorem inv_after (hpaths : ∀ vault snapshot, ((files vault snapshot).map path).Nodup) (events : List Event) :
    Inv sha256 files (after sha256 files events) := by
  refine List.foldlRecOn events (step sha256 files) nofun ?_
  intro s hs event _
  exact inv_step hpaths hs event

end

/-- The sources of the run are disabled, all of them. -/
def Disabled (ledger : Ledger) (id : Text) : Prop :=
  ∃ run, ledger.lookup id = some run ∧ run.allDisabled = true

variable {run : Run} {scope : Scope} {ledger : Ledger} {id : Text}

theorem state_of_allDisabled {row : Entry} (h : run.allDisabled = true)
    (hrow : run.entries.lookup key = some row) : row.state = .legacyDisabled := by
  have hall := all_eq_true.mp h ⟨key, row⟩ (lookup_eq_some_iff.mp hrow)
  simpa using hall

theorem verifiedKeys_of_allDisabled (h : run.allDisabled = true) : verifiedKeys run = [] := by
  rw [verifiedKeys, map_eq_nil_iff, filter_eq_nil_iff]
  intro e he
  have hdis := all_eq_true.mp h e he
  simp only [beq_iff_eq] at hdis ⊢
  rw [hdis]
  decide

theorem disabled_disableLegacy (h : Disabled ledger id) (id' : Text) :
    Disabled (disableLegacy scope ledger id' none).1 id := by
  obtain ⟨run, hrun, hdis⟩ := h
  unfold disableLegacy
  split
  · exact ⟨run, hrun, hdis⟩
  · next run' hrun' =>
    have hrun' := lookup_of_requireRun hrun'
    by_cases hid : id = id'
    · subst hid
      cases hrun.symm.trans hrun'
      rw [getD_none, verifiedKeys_of_allDisabled hdis]
      refine ⟨_, lookup_insert _, ?_⟩
      unfold maybeComplete
      split <;> exact hdis
    · split
      all_goals exact ⟨run, by rw [lookup_insert_ne hid, hrun], hdis⟩

theorem disabled_flipRun (scope : Scope) (h : Disabled ledger id) (id' : Text) (run : Run) :
    Disabled (flipRun scope ledger id' run).1 id := by
  unfold flipRun
  split
  · exact disabled_disableLegacy h id'
  · exact h

theorem keeps_flipRun (scope : Scope) (ledger : Ledger) (id : Text) (run : Run) :
    Keeps ledger (flipRun scope ledger id run).1 := by
  unfold flipRun
  split
  · exact keeps_disableLegacy scope ledger id none
  · exact keeps_refl ledger

theorem of_shredRun (scope : Scope) (ledger : Ledger) (id : Text) :
    (∀ id', Disabled ledger id' → Disabled (shredRun scope ledger id).1 id') ∧
      Keeps ledger (shredRun scope ledger id).1 ∧
      ((shredRun scope ledger id).2.isSome = true → Disabled (shredRun scope ledger id).1 id) := by
  unfold shredRun
  split
  · exact ⟨fun _ h => h, keeps_refl ledger, nofun⟩
  · next run hrun =>
    have hdis := fun id' (h : Disabled ledger id') => disabled_flipRun scope h id run
    have hk := keeps_flipRun scope ledger id run
    split
    · next hflip =>
      rw [hflip] at hdis hk
      exact ⟨hdis, hk, nofun⟩
    · next ledger' hflip =>
      rw [hflip] at hdis hk
      refine ⟨hdis, hk, ?_⟩
      intro hs
      obtain ⟨snapshot, hsna⟩ := isSome_iff_exists.mp hs
      obtain ⟨run', hrun', hall⟩ := bind_eq_some_iff.mp hsna
      split at hall
      · exact ⟨run', hrun', ‹_›⟩
      · cases hall

theorem of_shredRuns (scope : Scope) (ids : List Text) (ledger : Ledger) (snapshots : List Text) :
    (∀ id, Disabled ledger id → Disabled (shredRuns scope ids ledger snapshots).1 id) ∧
      Keeps ledger (shredRuns scope ids ledger snapshots).1 ∧
      ((shredRuns scope ids ledger snapshots).2.isSome = true →
        ∀ id ∈ ids, Disabled (shredRuns scope ids ledger snapshots).1 id) := by
  induction ids generalizing ledger snapshots with
  | nil => exact ⟨fun _ h => h, keeps_refl ledger, nofun⟩
  | cons id rest ih =>
    obtain ⟨hdis, hk, hche⟩ := of_shredRun scope ledger id
    unfold shredRuns
    split
    · next hres =>
      rw [hres] at hdis hk
      exact ⟨hdis, hk, nofun⟩
    · next ledger' snapshot hres =>
      rw [hres] at hdis hk hche
      obtain ⟨hdis', hk', hall⟩ := ih ledger' (snapshot :: snapshots)
      refine ⟨fun id' h => hdis' id' (hdis id' h), hk.trans hk', ?_⟩
      intro hs id' hid'
      rcases mem_cons.mp hid' with rfl | hid'
      · exact hdis' id' (hche rfl)
      · exact hall hs id' hid'

theorem of_cmdShred {head : Option Bytes} (h : (cmdShred scope ledger vault head).2 = true) :
    Keeps ledger (cmdShred scope ledger vault head).1 ∧
      ∀ id run, ledger.lookup id = some run → run.state ≠ .aborted →
      Disabled (cmdShred scope ledger vault head).1 id := by
  unfold cmdShred at h ⊢
  dsimp only at h ⊢
  split at h
  · cases h
  · next hl =>
    rw [if_neg hl]
    obtain ⟨-, hk, hall⟩ := of_shredRuns scope
      ((ledger.entries.filter fun e => e.2.state != .aborted).map Sigma.fst) ledger []
    obtain ⟨snapshots, hsna, -⟩ := (Option.any_eq_true _ _).mp (Bool.and_eq_true_iff.mp h).2
    refine ⟨hk, ?_⟩
    intro id run hrun hstate
    refine hall (by rw [hsna]; rfl) id (mem_map.mpr ⟨⟨id, run⟩, mem_filter.mpr ⟨?_, ?_⟩, rfl⟩)
    · exact lookup_eq_some_iff.mp hrun
    · simpa using hstate

/-- If the vault is overwritten, every value found in its head has a disabled entry with its digest,
in a run of the vault and the head. -/
def NothingLost (sha256 : Bytes → Bytes) (files : Bytes → Bytes → List File) (ledger : Ledger) (scope : Scope)
    (vault head : Bytes) (defaultEnv : Text) : Prop :=
  (cmdShred scope ledger vault (some head)).2 = true →
    ∀ classified dropped, classifyFiles (files vault head) defaultEnv = .ok (classified, dropped) →
      ∀ c ∈ classified,
      ∃ id run row, (cmdShred scope ledger vault (some head)).1.lookup id = some run ∧
        run.sourceVaultId = Hex.encode vault ∧
        run.sourceSnapshotHex = Hex.encode head ∧ run.entries.lookup (c.path, c.line) = some row ∧
        row.state = .legacyDisabled ∧ row.sourceDigest = sha256 c.value

/-- A live run of the vault and the head has all that its plan has found there. -/
def Planned (s : State) (vault head : Bytes) (defaultEnv : Text) : Prop :=
  ∃ id plan run, s.plans.lookup id = some plan ∧ plan.vault = vault ∧ plan.snapshot = head ∧
    plan.defaultEnv = defaultEnv ∧
    plan.remaining = [] ∧ s.ledger.lookup id = some run ∧ run.state ≠ .aborted

/-- After a plan that has come to its end, shredding loses nothing. -/
theorem shred_after_plan (sha256 : Bytes → Bytes) (files : Bytes → Bytes → List File)
    (hpaths : ∀ vault snapshot, ((files vault snapshot).map path).Nodup) (events : List Event) (scope : Scope)
    (vault head : Bytes) (defaultEnv : Text)
    (hplanned : Planned (after sha256 files events) vault head defaultEnv) :
    NothingLost sha256 files (after sha256 files events).ledger scope vault head defaultEnv := by
  obtain ⟨id, plan, run, hp, rfl, rfl, rfl, hd, hrun, hl⟩ := hplanned
  obtain ⟨⟨⟨envs, found, foundDropped, hf, hpro⟩, -, -⟩, run₀, hrun₀, htracks⟩ :=
    inv_after hpaths events id plan hp
  cases hrun.symm.trans hrun₀
  intro hshred classified dropped hcla c hc
  obtain ⟨hk, hdis⟩ := of_cmdShred hshred
  obtain ⟨run', hrun', hall⟩ := hdis id run hrun hl
  obtain ⟨run'', hrun'', hs⟩ := hk id run hrun
  cases hrun'.symm.trans hrun''
  have htra' := htracks.of_sameSource hs
  -- The plan reads the files by path; what it finds does not depend on their order.
  obtain ⟨found', dropped', hf', hmem⟩ := classified_perm (sortBy_perm (fun f => textKey f.path) _).symm hcla
  cases hf.symm.trans hf'
  have he : proposal sha256 id envs c ∈ plan.proposals := by
    rw [hpro]
    exact mem_map_of_mem ((hmem c).mp hc)
  have hso := (htra'.submitted _ he).resolve_left (by rw [hd]; exact not_mem_nil)
  obtain ⟨row, hrow⟩ := isSome_iff_exists.mp hso
  exact ⟨id, run', row, hrun', htra'.vault, htra'.snapshot, hrow, state_of_allDisabled hall hrow,
    htra'.digests _ he row hrow⟩

section

def openScope : Scope where
  authorized := true
  validName _ := true
  environment _ := true
  binding _ := true
  service _ := true
  taken _ _ := false
  anchored _ _ := true
  deletes _ := true

def digestOf (bytes : Bytes) : Bytes := (bytes ++ replicate 32 0).take 32

def oneSecret (_ _ : Bytes) : List File := [⟨".env".toList, utf8 "K=1".toList⟩]

def idOf (b : Byte) : Bytes := replicate 32 b

def started : Event := .plan openScope (fun _ => none) "m".toList (idOf 1) (idOf 2) "development".toList

/-- A plan that was cut off after its first request has a run without entries: the vault is
overwritten. -/
theorem shred_after_start :
    ¬NothingLost digestOf oneSecret (after digestOf oneSecret [started]).ledger openScope (idOf 1) (idOf 2)
      "development".toList := by
  intro h
  have hemp : ((cmdShred openScope (after digestOf oneSecret [started]).ledger (idOf 1)
    (some (idOf 2))).1.entries.all
      fun e => e.2.entries.entries.isEmpty) = true := by decide +kernel
  have hf : classifyFiles (oneSecret (idOf 1) (idOf 2)) "development".toList =
      .ok ([⟨".env".toList, 1, ['K'], utf8 ['1'], "development".toList, true, .keyValue⟩], []) := by
        decide +kernel
  obtain ⟨id, run, row, hrun, -, -, hrow, -⟩ := h (by decide +kernel) _ _ hf _ (mem_singleton_self _)
  have hn := all_eq_true.mp hemp _ (lookup_eq_some_iff.mp hrun)
  have hrow := lookup_eq_some_iff.mp hrow
  rw [isEmpty_iff.mp hn] at hrow
  cases hrow

def finished : List Event :=
  [started, .submit openScope "m".toList,
    .other openScope (.migrated "m".toList (".env".toList, 1) "s".toList (digestOf (utf8 ['1']))) rfl,
    .other openScope (.verify "m".toList) rfl]

theorem shred_after_plan_verified :
    (cmdShred openScope (after digestOf oneSecret finished).ledger (idOf 1) (some (idOf 2))).2 = true ∧
      NothingLost digestOf oneSecret (after digestOf oneSecret finished).ledger openScope (idOf 1) (idOf 2)
        "development".toList := by
  refine ⟨by decide +kernel, shred_after_plan digestOf oneSecret (fun _ _ => nodup_singleton _)
    finished _ _ _ _ ?_⟩
  have hp : ((after digestOf oneSecret finished).plans.lookup "m".toList).any
    (fun plan => plan.vault == idOf 1 &&
      plan.snapshot == idOf 2 && plan.defaultEnv == "development".toList &&
        plan.remaining.isEmpty) = true := by decide +kernel
  have hrun : ((after digestOf oneSecret finished).ledger.lookup "m".toList).any
    (fun run => run.state != .aborted) = true := by
    decide +kernel
  obtain ⟨plan, hp, hfields⟩ := (Option.any_eq_true _ _).mp hp
  obtain ⟨run, hrun, hl⟩ := (Option.any_eq_true _ _).mp hrun
  simp only [Bool.and_eq_true, beq_iff_eq, List.isEmpty_iff] at hfields
  obtain ⟨⟨⟨hv, hsna⟩, henv⟩, hrem⟩ := hfields
  exact ⟨_, plan, run, hp, hv, hsna, henv, hrem, hrun, by simpa using hl⟩

end

end CipherVault.Migrate
