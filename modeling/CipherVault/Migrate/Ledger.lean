import CipherVault.Migrate.Classify

/-!
# Migrate.Ledger

The server's ledger of a project's migrations: runs, their entries, and the calls that change them.
The key of a row is the path and line of the source. What the other tables say to a call comes with
it (`Scope`).
-/

namespace CipherVault.Migrate

open Crypto Network

/-- The states of one value on its way. -/
inductive EntryState where
  | discovered
  | classified
  | mapped
  | validated
  | migrated
  | verified
  | legacyDisabled
  | quarantined
deriving DecidableEq

/-- The states of a migration. -/
inductive RunState where
  | planning
  | applying
  | verifying
  | complete
  | aborted
deriving DecidableEq

def RunState.name : RunState → String
  | .planning => "planning"
  | .applying => "applying"
  | .verifying => "verifying"
  | .complete => "complete"
  | .aborted => "aborted"

def EntryState.name : EntryState → String
  | .discovered => "DISCOVERED"
  | .classified => "CLASSIFIED"
  | .mapped => "MAPPED"
  | .validated => "VALIDATED"
  | .migrated => "MIGRATED"
  | .verified => "VERIFIED"
  | .legacyDisabled => "LEGACY_PATH_DISABLED"
  | .quarantined => "QUARANTINED"

abbrev Key := Text × Nat

structure Entry where
  (name secretType : Text)
  (targetEnvironmentId targetBindingId targetServiceId : Option Text)
  state : EntryState
  sourceDigest : Bytes
  targetDigest : Option Bytes
  secretId : Option Text
  idempotencyKey : Text
deriving DecidableEq

structure Run where
  (sourceVaultId sourceSnapshotHex : Text)
  state : RunState
  entries : Dict Key Entry

abbrev Ledger := Dict Text Run

inductive MigrationError where
  | notFound
  | denied
  | invalid (message : String)
  | secrets
  | db

/-- What the other tables say to a call: whether it is authorised, which names and targets are good,
which names are taken, which secrets live, and whether one can be deleted. -/
structure Scope where
  authorized : Bool
  (validName environment binding service : Text → Bool)
  (taken anchored : Text → Text → Bool)
  deletes : Text → Bool

structure SubmitEntry where
  sourcePath : Text
  sourceLine : Nat
  (name secretType targetEnvironmentId : Text)
  (targetBindingId targetServiceId : Option Text)
  sourceDigest : Bytes
  idempotencyKey : Text

def SubmitEntry.key (e : SubmitEntry) : Key := (e.sourcePath, e.sourceLine)

def Run.set (run : Run) (key : Key) (row : Entry) : Run := { run with entries := run.entries.insert key row }

section

variable (scope : Scope)

def requireRun (ledger : Ledger) (migrationId : Text) (states : List RunState) (refusal : String → String) :
    Except MigrationError Run :=
  if !scope.authorized then .error .denied
  else match ledger.lookup migrationId with
    | none => .error .notFound
    | some run =>
      if states.contains run.state then .ok run else .error (.invalid (refusal run.state.name))

def startRun (ledger : Ledger) (migrationId sourceVaultId sourceSnapshotHex : Text) :
    Except MigrationError Ledger :=
  if !scope.authorized then .error .denied
  else if trim sourceVaultId = [] ∨ 128 < (utf8 sourceVaultId).length then
    .error (.invalid "source_vault_id must be 1-128 characters")
  else if !((Hex.decode (trim sourceSnapshotHex)).any fun bytes => bytes.length == 32) then
    .error (.invalid "source_snapshot_hex must be 64 hex characters")
  else if (ledger.lookup migrationId).isSome then .error .db
  else .ok (ledger.insert migrationId ⟨trim sourceVaultId, trim sourceSnapshotHex, .planning, ∅⟩)

/-! ### Submissions -/

def hasRival (run : Run) (key : Key) (environment name : Text) : Bool :=
  run.entries.entries.any fun e => e.1 != key && e.2.targetEnvironmentId == some environment &&
    e.2.name == name &&
    [.mapped, .validated, .migrated, .verified, .legacyDisabled].contains e.2.state

/-- `validate_mapped`: the targets exist, and the name is free in the run and in the environment. -/
def validateMapped (run : Run) (key : Key) (row : Entry) (environment : Text) : Entry :=
  if !scope.environment environment || row.targetBindingId.any (fun b => !scope.binding b) ||
      row.targetServiceId.any (fun s => !scope.service s) || hasRival run key environment row.name ||
      scope.taken environment row.name then { row with state := .quarantined }
  else { row with state := .validated }

def upserted (existing : Option Entry) (e : SubmitEntry) : Entry :=
  match existing with
  | none =>
    ⟨e.name, e.secretType, none, none, none, .discovered, e.sourceDigest, none, none,
      e.idempotencyKey⟩
  | some row => { row with name := e.name, secretType := e.secretType, sourceDigest := e.sourceDigest }

def advanceEntry (run : Run) (row : Entry) (e : SubmitEntry) : Entry :=
  if !scope.validName e.name then { row with state := .quarantined }
  else
    validateMapped scope run e.key { row with
      targetEnvironmentId := some e.targetEnvironmentId
      targetBindingId := e.targetBindingId
      targetServiceId := e.targetServiceId
      state := .mapped } e.targetEnvironmentId

def checkEntry (e : SubmitEntry) : Except MigrationError Unit :=
  if trim e.sourcePath = [] ∨ 1024 < (utf8 e.sourcePath).length then
    .error (.invalid "source_path must be 1-1024 characters")
  else if e.sourceLine < 1 then .error (.invalid "source_line must be >= 1")
  else if e.sourceDigest.length ≠ 32 then .error (.invalid "source_digest must be 32 bytes")
  else if trim e.idempotencyKey = [] ∨ 128 < (utf8 e.idempotencyKey).length then
    .error (.invalid "idempotency_key must be 1-128 characters")
  else if trim e.secretType = [] ∨ 64 < (utf8 e.secretType).length then
    .error (.invalid "secret_type must be 1-64 characters")
  else .ok ()

def Entry.isTerminal (row : Entry) : Bool := [.migrated, .verified, .legacyDisabled].contains row.state

/-- Checks an entry and takes it over into the run. -/
def upsertAndValidate (run : Run) (e : SubmitEntry) : Except MigrationError Run := do
  checkEntry e
  match run.entries.lookup e.key with
  | none =>
    -- The table allows an idempotency key once in a run.
    if run.entries.entries.any fun other => other.2.idempotencyKey == e.idempotencyKey then .error .db
    else .ok (run.set e.key (advanceEntry scope run (upserted none e) e))
  | some row =>
    if row.idempotencyKey ≠ e.idempotencyKey then
      .error (.invalid s!"idempotency key mismatch for {String.ofList e.sourcePath}:{e.sourceLine}")
    else if row.isTerminal then .ok run
    else .ok (run.set e.key (advanceEntry scope run (upserted (some row) e) e))

def submitEntries (ledger : Ledger) (migrationId : Text) (entries : List SubmitEntry) :
    Except MigrationError Ledger := do
  let run ← requireRun scope ledger migrationId [.planning, .applying, .verifying]
    (fun state => "run is " ++ state ++ " (submissions need planning/applying/verifying)")
  if 5000 < entries.length then .error (.invalid "at most 5000 entries per submission")
  else
    let run ← (sortBy (fun e : SubmitEntry => toLex (textKey e.sourcePath, e.sourceLine)) entries).foldlM
      (upsertAndValidate scope) run
    return ledger.insert migrationId run

/-! ### From validated to disabled -/

def getEntry (run : Run) (key : Key) : Except MigrationError Entry :=
  match run.entries.lookup key with
  | none => .error .notFound
  | some row => .ok row

def markMigrated (ledger : Ledger) (migrationId : Text) (key : Key) (secretId : Text) (targetDigest : Bytes) :
    Except MigrationError Ledger := do
  let run ← requireRun scope ledger migrationId [.planning, .applying, .verifying]
    (fun state => "run is " ++ state ++ " (migration needs planning/applying/verifying)")
  let row ← getEntry run key
  if row.state = .migrated ∧ row.secretId = some secretId then .ok ledger
  else if row.state ≠ .validated then
    .error (.invalid ("entry is " ++ row.state.name ++ " (needs VALIDATED)"))
  else if targetDigest.length ≠ 32 then .error (.invalid "target_digest must be 32 bytes")
  else if !scope.anchored secretId (row.targetEnvironmentId.getD []) then
    .error (.invalid "secret_id is not a live secret in the entry's target scope")
  else
    let run := run.set key { row with state := .migrated, secretId := some secretId,
                                      targetDigest := some targetDigest }
    .ok (ledger.insert migrationId { run with state := .applying })

def resolveEntry (ledger : Ledger) (migrationId : Text) (key : Key) (name targetEnvironmentId : Option Text) :
    Except MigrationError Ledger := do
  let run ← requireRun scope ledger migrationId [.planning, .applying, .verifying]
    (fun state => "run is " ++ state ++ " (resolve needs planning/applying/verifying)")
  let row ← getEntry run key
  if row.state ≠ .quarantined then
    .error (.invalid ("entry is " ++ row.state.name ++ " (resolve needs QUARANTINED)"))
  else
    let name := name.getD row.name
    match targetEnvironmentId.or row.targetEnvironmentId with
    | none => .error (.invalid "resolve needs a target environment")
    | some environment =>
      if !scope.validName name then .error (.invalid ("invalid secret name '" ++ String.ofList name ++ "'"))
      else
        let row := { row with name := name, targetEnvironmentId := some environment, state := .mapped }
        .ok (ledger.insert migrationId (run.set key (validateMapped scope run key row environment)))

def maybeComplete (run : Run) : Run :=
  if run.entries.entries.all (fun e => [.verified, .legacyDisabled].contains e.2.state) &&
    run.state != .aborted then
    { run with state := .complete }
  else run

def verifyEntry (_ : Key) (row : Entry) : Entry :=
  if row.state = .migrated then
    if row.targetDigest = some row.sourceDigest then { row with state := .verified }
      else { row with state := .quarantined }
  else row

/-- Compares the target with the source, entry by entry. -/
def verifyRun (ledger : Ledger) (migrationId : Text) : Except MigrationError Ledger := do
  let run ← requireRun scope ledger migrationId [.applying, .verifying]
    (fun state => "run is " ++ state ++ " (verify needs applying/verifying)")
  return ledger.insert migrationId
    (maybeComplete { run with entries := run.entries.map verifyEntry, state := .verifying })

/-- The rows are changed one after the other; those before a row that is not verified stay changed.
-/
def disableEach (run : Run) : List Key → Run × Except MigrationError Unit
  | [] => (run, .ok ())
  | key :: rest =>
    match run.entries.lookup key with
    | none => (run, .error .notFound)
    | some row =>
      if row.state = .verified then disableEach (run.set key { row with state := .legacyDisabled }) rest
      else (run, .error (.invalid s!"entry {String.ofList key.1}:{key.2} is not VERIFIED"))

def verifiedKeys (run : Run) : List Key :=
  (run.entries.entries.filter fun e => e.2.state == .verified).map Sigma.fst

abbrev Outcome := Ledger × Except MigrationError Unit

def disableLegacy (ledger : Ledger) (migrationId : Text) (keys : Option (List Key)) : Outcome :=
  match requireRun scope ledger migrationId [.verifying, .complete]
      (fun state => "run is " ++ state ++ " (disable-legacy needs verifying/complete)") with
  | .error e => (ledger, .error e)
  | .ok run =>
    match disableEach run (keys.getD (verifiedKeys run)) with
    | (run, .error e) => (ledger.insert migrationId run, .error e)
    | (run, .ok _) => (ledger.insert migrationId (maybeComplete run), .ok ())

/-- Rows go back to validated one after the other, until a secret cannot be deleted. -/
def rollBackEach (run : Run) : List Key → Run × Except MigrationError Unit
  | [] => (run, .ok ())
  | key :: rest =>
    match run.entries.lookup key with
    | none => rollBackEach run rest
    | some row =>
      if row.secretId.any fun id => !scope.deletes id then (run, .error .secrets)
      else rollBackEach (run.set key
        { row with state := .validated, secretId := none, targetDigest := none }) rest

def abortRun (ledger : Ledger) (migrationId : Text) : Outcome :=
  match requireRun scope ledger migrationId [.planning, .applying, .verifying] ("run is already " ++ ·) with
  | .error e => (ledger, .error e)
  | .ok run =>
    let doomed := (run.entries.entries.filter fun e => [.migrated, .verified].contains
      e.2.state).map Sigma.fst
    match rollBackEach scope run doomed with
    | (run, .error e) => (ledger.insert migrationId run, .error e)
    | (run, .ok _) => (ledger.insert migrationId { run with state := .aborted }, .ok ())

def settle (ledger : Ledger) : Except MigrationError Ledger → Outcome
  | .ok ledger => (ledger, .ok ())
  | .error e => (ledger, .error e)

inductive Call where
  | start (migrationId sourceVaultId sourceSnapshotHex : Text)
  | submit (migrationId : Text) (entries : List SubmitEntry)
  | migrated (migrationId : Text) (key : Key) (secretId : Text) (targetDigest : Bytes)
  | resolve (migrationId : Text) (key : Key) (name targetEnvironmentId : Option Text)
  | verify (migrationId : Text)
  | disable (migrationId : Text) (keys : Option (List Key))
  | abort (migrationId : Text)

def handle (ledger : Ledger) : Call → Outcome
  | .start migrationId vaultId snapshotHex =>
    settle ledger (startRun scope ledger migrationId vaultId snapshotHex)
  | .submit migrationId entries => settle ledger (submitEntries scope ledger migrationId entries)
  | .migrated migrationId key secretId digest =>
    settle ledger (markMigrated scope ledger migrationId key secretId digest)
  | .resolve migrationId key name environment =>
    settle ledger (resolveEntry scope ledger migrationId key name environment)
  | .verify migrationId => settle ledger (verifyRun scope ledger migrationId)
  | .disable migrationId keys => disableLegacy scope ledger migrationId keys
  | .abort migrationId => abortRun scope ledger migrationId

end

/-- The run is of the same vault and snapshot, and has the same rows with the same source digests.
-/
structure Run.SameSource (run run' : Run) : Prop where
  vault : run'.sourceVaultId = run.sourceVaultId
  snapshot : run'.sourceSnapshotHex = run.sourceSnapshotHex
  digests : ∀ key, (run'.entries.lookup key).map Entry.sourceDigest =
    (run.entries.lookup key).map Entry.sourceDigest

variable {run' : Run} {row : Entry} {e : SubmitEntry}

namespace Run.SameSource

theorem refl (run : Run) : run.SameSource run := ⟨rfl, rfl, fun _ => rfl⟩

theorem trans {a b c : Run} (h : a.SameSource b) (h' : b.SameSource c) : a.SameSource c :=
  ⟨h'.vault.trans h.vault, h'.snapshot.trans h.snapshot, fun key => (h'.digests key).trans (h.digests key)⟩

theorem withState {run : Run} (h : run.SameSource run') (state : RunState) :
    run.SameSource { run' with state := state } := ⟨h.vault, h.snapshot, h.digests⟩

theorem set {key : Key} {row' : Entry} {run : Run} (hrow : run.entries.lookup key = some row)
    (hdigest : row'.sourceDigest = row.sourceDigest) : run.SameSource (run.set key row') := by
  refine ⟨rfl, rfl, ?_⟩
  intro key'
  by_cases hkey : key' = key
  · subst hkey
    simp [Run.set, hrow, hdigest]
  · simp [Run.set, lookup_insert_ne hkey]

theorem mapRows {run : Run} {f : Key → Entry → Entry}
    (hf : ∀ key row, (f key row).sourceDigest = row.sourceDigest) :
    run.SameSource { run with entries := run.entries.map f } := by
  refine ⟨rfl, rfl, ?_⟩
  intro key
  simp only [lookup_map, Option.map_map]
  cases run.entries.lookup key with
  | none => rfl
  | some row => simp [hf]

theorem complete {run : Run} (h : run.SameSource run') : run.SameSource (maybeComplete run') := by
  unfold maybeComplete
  split
  · exact h.withState .complete
  · exact h

end Run.SameSource

theorem digest_validateMapped (scope : Scope) (run : Run) (key : Key) (row : Entry) (environment : Text) :
    (validateMapped scope run key row environment).sourceDigest = row.sourceDigest := by
  unfold validateMapped
  split <;> rfl

theorem sameSource_disableEach (run : Run) (keys : List Key) : run.SameSource (disableEach run keys).1 := by
  induction keys generalizing run with
  | nil => exact .refl run
  | cons key rest ih =>
    unfold disableEach
    split
    · exact .refl run
    · next row hrow =>
      split
      · refine .trans (Run.SameSource.set hrow ?_) (ih _)
        rfl
      · exact .refl run

theorem sameSource_rollBackEach (scope : Scope) (run : Run) (keys : List Key) :
    run.SameSource (rollBackEach scope run keys).1 := by
  induction keys generalizing run with
  | nil => exact .refl run
  | cons key rest ih =>
    unfold rollBackEach
    split
    · exact ih run
    · next row hrow =>
      split
      · exact .refl run
      · refine .trans (Run.SameSource.set hrow ?_) (ih _)
        rfl

/-- Runs stay, with the source that they were made for. -/
def Keeps (ledger ledger' : Ledger) : Prop :=
  ∀ id run, ledger.lookup id = some run → ∃ run', ledger'.lookup id = some run' ∧ run.SameSource run'

theorem keeps_refl (ledger : Ledger) : Keeps ledger ledger := fun _ run h => ⟨run, h, .refl run⟩

theorem Keeps.trans {a b c : Ledger} (h : Keeps a b) (h' : Keeps b c) : Keeps a c := by
  intro id run hrun
  obtain ⟨middle, hmiddle, hs⟩ := h id run hrun
  obtain ⟨run', hrun', hs'⟩ := h' id middle hmiddle
  exact ⟨run', hrun', hs.trans hs'⟩

variable {ledger ledger' : Ledger} {id : Text} {run : Run} {scope : Scope} {key : Key}

theorem keeps_insert (hrun : ledger.lookup id = some run) (h : run.SameSource run') :
    Keeps ledger (ledger.insert id run') := by
  intro id' other ho
  by_cases hid : id' = id
  · subst hid
    cases hrun.symm.trans ho
    exact ⟨run', lookup_insert _, h⟩
  · exact ⟨other, by rw [lookup_insert_ne hid, ho], .refl other⟩

theorem lookup_of_requireRun {states : List RunState} {refusal : String → String}
    (h : requireRun scope ledger id states refusal = .ok run) : ledger.lookup id = some run := by
  unfold requireRun at h
  split at h
  · cases h
  · split at h
    · cases h
    · next hl =>
      split at h <;> cases h
      exact hl

theorem lookup_of_getEntry (h : getEntry run key = .ok row) : run.entries.lookup key = some row := by
  unfold getEntry at h
  split at h <;> cases h
  assumption

theorem keeps_settle {x : Except MigrationError Ledger}
    (h : ∀ ledger', x = .ok ledger' → Keeps ledger ledger') : Keeps ledger (settle ledger x).1 := by
  cases x with
  | error e => exact keeps_refl ledger
  | ok ledger' => exact h ledger' rfl

theorem of_startRun {vault snapshot : Text} (h : startRun scope ledger id vault snapshot = .ok ledger') :
    ledger.lookup id = none ∧ ledger' = ledger.insert id ⟨trim vault, trim snapshot, .planning, ∅⟩ := by
  unfold startRun at h
  simp only [ite_error_eq_ok, Except.ok.injEq] at h
  obtain ⟨-, -, -, hnew, rfl⟩ := h
  exact ⟨by simpa using hnew, rfl⟩

theorem keeps_markMigrated {digest : Bytes} {secretId : Text}
    (h : markMigrated scope ledger id key secretId digest = .ok ledger') : Keeps ledger ledger' := by
  simp only [markMigrated, bind_eq_ok] at h
  obtain ⟨run, hrun, row, hrow, h⟩ := h
  split at h
  · cases h
    exact keeps_refl ledger
  · simp only [ite_error_eq_ok, Except.ok.injEq] at h
    obtain ⟨-, -, -, rfl⟩ := h
    refine keeps_insert (lookup_of_requireRun hrun) (.withState (.set (lookup_of_getEntry hrow) ?_) .applying)
    rfl

theorem keeps_resolveEntry {name environment : Option Text}
    (h : resolveEntry scope ledger id key name environment = .ok ledger') : Keeps ledger ledger' := by
  simp only [resolveEntry, bind_eq_ok, ite_error_eq_ok] at h
  obtain ⟨run, hrun, row, hrow, -, h⟩ := h
  split at h
  · cases h
  · simp only [ite_error_eq_ok, Except.ok.injEq] at h
    obtain ⟨-, rfl⟩ := h
    exact keeps_insert (lookup_of_requireRun hrun)
      (.set (lookup_of_getEntry hrow) (digest_validateMapped scope run key _ _))

theorem keeps_verifyRun (h : verifyRun scope ledger id = .ok ledger') : Keeps ledger ledger' := by
  simp only [verifyRun, bind_eq_ok, pure_eq_ok] at h
  obtain ⟨run, hrun, rfl⟩ := h
  refine keeps_insert (lookup_of_requireRun hrun)
    (.complete ((Run.SameSource.mapRows ?_).withState .verifying))
  intro key row
  unfold verifyEntry
  split
  · split <;> rfl
  · rfl

theorem keeps_disableLegacy (scope : Scope) (ledger : Ledger) (id : Text) (keys : Option (List Key)) :
    Keeps ledger (disableLegacy scope ledger id keys).1 := by
  unfold disableLegacy
  split
  · exact keeps_refl ledger
  · next run hrun =>
    have hs := sameSource_disableEach run (keys.getD (verifiedKeys run))
    split
    · next hres =>
      rw [hres] at hs
      exact keeps_insert (lookup_of_requireRun hrun) hs
    · next hres =>
      rw [hres] at hs
      exact keeps_insert (lookup_of_requireRun hrun) hs.complete

theorem keeps_abortRun (scope : Scope) (ledger : Ledger) (id : Text) :
    Keeps ledger (abortRun scope ledger id).1 := by
  unfold abortRun
  split
  · exact keeps_refl ledger
  · next run hrun =>
    have hs := sameSource_rollBackEach scope run
      ((run.entries.entries.filter fun e => [.migrated, .verified].contains e.2.state).map Sigma.fst)
    dsimp only
    split
    · next hres =>
      rw [hres] at hs
      exact keeps_insert (lookup_of_requireRun hrun) hs
    · next hres =>
      rw [hres] at hs
      exact keeps_insert (lookup_of_requireRun hrun) (hs.withState .aborted)

/-- The calls of a plan; the other calls are those of `apply`, `verify`, `resolve`, `abort` and
`shred`. -/
def Call.ofPlan : Call → Bool
  | .start _ _ _ => true
  | .submit _ _ => true
  | _ => false

theorem keeps_handle {call : Call} (scope : Scope) (ledger : Ledger) (h : call.ofPlan = false) :
    Keeps ledger (handle scope ledger call).1 := by
  cases call with
  | start | submit => cases h
  | migrated id key secretId digest => exact keeps_settle fun _ => keeps_markMigrated
  | resolve id key name environment => exact keeps_settle fun _ => keeps_resolveEntry
  | verify id => exact keeps_settle fun _ => keeps_verifyRun
  | disable id keys => exact keeps_disableLegacy scope ledger id keys
  | abort id => exact keeps_abortRun scope ledger id

/-- A row is there for the entry, and other rows stay. A row that is there already keeps its digest
or takes that of the entry. -/
structure Recorded (run : Run) (e : SubmitEntry) (run' : Run) : Prop where
  vault : run'.sourceVaultId = run.sourceVaultId
  snapshot : run'.sourceSnapshotHex = run.sourceSnapshotHex
  others : ∀ key, key ≠ e.key → run'.entries.lookup key = run.entries.lookup key
  row : ∃ row, run'.entries.lookup e.key = some row ∧
    (row.sourceDigest = e.sourceDigest ∨ run.entries.lookup e.key = some row)

theorem digest_advanceEntry (scope : Scope) (run : Run) (row : Entry) (e : SubmitEntry) :
    (advanceEntry scope run row e).sourceDigest = row.sourceDigest := by
  unfold advanceEntry
  split
  · rfl
  · exact digest_validateMapped scope run e.key _ _

theorem recorded_set (h : row.sourceDigest = e.sourceDigest) : Recorded run e (run.set e.key row) :=
  ⟨rfl, rfl, fun _ hkey => lookup_insert_ne hkey, row, lookup_insert _, .inl h⟩

theorem recorded_of_upsert (h : upsertAndValidate scope run e = .ok run') : Recorded run e run' := by
  simp only [upsertAndValidate, bind_eq_ok] at h
  obtain ⟨-, -, h⟩ := h
  split at h
  · rw [ite_error_eq_ok] at h
    cases h.2
    exact recorded_set (digest_advanceEntry scope run _ e)
  · next row hrow =>
    rw [ite_error_eq_ok] at h
    split at h
    · cases h.2
      exact ⟨rfl, rfl, fun _ _ => rfl, row, hrow, .inr hrow⟩
    · cases h.2
      exact recorded_set (digest_advanceEntry scope run _ e)

theorem of_submitEntries {entries : List SubmitEntry}
    (h : submitEntries scope ledger id entries = .ok ledger') :
    ∃ run run' sorted, ledger.lookup id = some run ∧ entries.Perm sorted ∧
      sorted.foldlM (upsertAndValidate scope) run = .ok run' ∧ ledger' = ledger.insert id run' := by
  simp only [submitEntries, bind_eq_ok, ite_error_eq_ok, pure_eq_ok] at h
  obtain ⟨run, hrun, -, run', hfold, rfl⟩ := h
  exact ⟨run, run', _, lookup_of_requireRun hrun, (sortBy_perm _ entries).symm, hfold, rfl⟩

end CipherVault.Migrate
