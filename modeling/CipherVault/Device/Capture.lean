import CipherVault.Format.Lawful
import CipherVault.Store.Db

/-!
# Device.Capture

The two programs that capture a snapshot: `cmd_push` (`apps/cli/src/commands/push.rs`) and
`capture_and_sync` (`apps/agent/src/watcher.rs`), call by call on the store, up to the replication.
A process is a job and a phase, and `advance` its next call or computation. A `Machine` runs
processes on one store in any interleaving, with processes that are killed and with
`retry_pending_uploads`.
-/

namespace CipherVault.Device

open Crypto Format Snapshot Store Prod

/-- The two programs that capture. -/
inductive Program where
  | push
  | watch
deriving DecidableEq

/-- How the upload of a capture ends. -/
inductive Replication where
  /-- `push --local`, or a watcher without operators. -/
  | skipped
  | verified
  | failed (error : String)
deriving DecidableEq

/-- What a process is given: its flags, its environment and what it draws at random. -/
structure Job where
  program : Program
  touch : Bool
  /-- What `resolve_hardware_token` returns: the signing key of the token. -/
  token : Except String Bytes
  settings : Settings
  tree : Tree
  entropy : Entropy
  ephemeralSk : Bytes
  replication : Replication

structure Reads where
  (counter epoch : Nat)
  epochKey : Bytes
  tracked : List (Text × Bytes)
  parentIds : List Bytes
  signer : Bytes
  generation : Nat

/-- Where a capture is: after which of its store calls. -/
inductive Phase where
  | start
  | deviceState (r : Reads)
  | epochKey (r : Reads)
  | tracked (r : Reads)
  /-- The push has read the active head; the authority is next. -/
  | headRead (r : Reads)
  /-- The watcher has read its authority; the active head is next. -/
  | authorityRead (r : Reads)
  | ready (r : Reads)
  | captured (r : Reads) (output : SnapshotOutput)
  | saved (r : Reads) (output : SnapshotOutput)
  | counted (r : Reads) (output : SnapshotOutput)
  | prepared (r : Reads) (output : SnapshotOutput) (set : RecoverySet)
  | signed (output : SnapshotOutput) (head : HeadRecord)
  | stored (output : SnapshotOutput) (head : HeadRecord)
  | ended (result : Except String Unit)

def parentsOf (s : LocalStore) : List Bytes :=
  match s.getActiveHead with
  | some head => [head.snapshotId]
  | none => []

variable (E : Externals)

/-- The signing key of a push: the token where it is asked for or no certificate names the device
key. -/
def pushSigner (job : Job) (s : LocalStore) : Except String Bytes :=
  let hardwareBound :=
    !s.certificates.any fun c => c.deviceSigningPk == E.ed25519Public s.metadata.deviceSk
  if job.touch || hardwareBound then job.token else .ok s.metadata.deviceSk

def pushAuthority (job : Job) (s : LocalStore) : Except String (Bytes × Nat) := do
  let signer ← pushSigner E job s
  match s.latestGeneration E (E.ed25519Public signer) with
  | none => .error "No trusted signing authority; local snapshot state was not advanced"
  | some generation =>
    let _ ← s.validateCaptureAuthorityForKey E (E.ed25519Public signer) generation
    return (signer, generation)

def watchAuthority (s : LocalStore) : Except String (Bytes × Nat) := do
  let cert ← s.latestCaptureAuthorityForKey E (E.ed25519Public s.metadata.deviceSk)
  return (s.metadata.deviceSk, cert.authorityGeneration)

def headOf (s : LocalStore) (r : Reads) (output : SnapshotOutput)
    (recordCid closureDigest : Bytes) : HeadRecord :=
  { version := protocolVersion
    vaultId := s.metadata.vaultId
    snapshotId := recordCid
    parentSnapshotIds := output.record.parentSnapshotIds
    closureDigest := closureDigest
    deviceId := s.metadata.deviceId
    deviceCounter := r.counter + 1
    signature := [] }

def signHead (s : LocalStore) (r : Reads) (output : SnapshotOutput) (set : RecoverySet) :
    Except String HeadRecord := do
  let recordCid ← (output.record.computeRecordCid E).mapError FormatError.message
  let closureDigest ← (set.closure.computeBaseClosureDigest E).mapError FormatError.message
  ((headOf s r output recordCid closureDigest).sign E r.signer).mapError FormatError.message

/-- What is left of a process once its head is stored and its replication is over. -/
def finish (job : Job) (s : LocalStore) (output : SnapshotOutput) : LocalStore × Except String Unit :=
  match job.program, job.replication with
  | .push, .failed error => (s, .error error)
  | .push, _ => (s, .ok ())
  | .watch, .failed error => (s.recordUploadFailure output.record.snapshotId error, .error error)
  | .watch, _ => (s.markUploadCompleted output.record.snapshotId, .ok ())

/-- The next store call of a capture. -/
def advance (job : Job) (s : LocalStore) : Phase → Except String (LocalStore × Phase)
  | .start =>
    let (counter, epoch) := s.getDeviceState
    .ok (s, .deviceState
      { counter := counter, epoch := epoch, epochKey := [], tracked := [], parentIds := [], signer := [],
        generation := 0 })
  | .deviceState r => do
    let epochKey ← s.getEpochKey r.epoch
    return (s, .epochKey { r with epochKey := epochKey })
  | .epochKey r =>
    if job.program = .push ∧ s.listTrackedFiles = [] then
      .error "No files are tracked. Track files using 'ciphervault track <path>' before pushing."
    else .ok (s, .tracked { r with tracked := s.listTrackedFiles })
  | .tracked r =>
    match job.program with
    | .push => .ok (s, .headRead { r with parentIds := parentsOf s })
    | .watch => do
      let (signer, generation) ← watchAuthority E s
      return (s, .authorityRead { r with signer := signer, generation := generation })
  | .headRead r => do
    let (signer, generation) ← pushAuthority E job s
    return (s, .ready { r with signer := signer, generation := generation })
  | .authorityRead r => .ok (s, .ready { r with parentIds := parentsOf s })
  | .ready r => do
    let output ← (createSnapshot E job.settings job.tree r.tracked s.metadata.vaultId r.epoch r.epochKey
      r.parentIds s.metadata.deviceId (r.counter + 1) r.generation r.signer job.entropy).mapError
      SnapshotError.message
    return (s, .captured r output)
  | .captured r output => do
    let s' ← s.saveSnapshot E output.record output.encryptedManifest output.chunks
    return (s', .saved r output)
  | .saved r output => .ok (s.incrementDeviceCounter, .counted r output)
  | .counted r output => do
    let (s', set) ← s.prepareRecoverySet E output.record (E.ed25519Public r.signer) r.signer job.ephemeralSk
    return (s', .prepared r output set)
  | .prepared r output set => do
    let head ← signHead E s r output set
    return (s, .signed output head)
  | .signed output head => do
    let s' ← s.setHead E head
    return (s', .stored output head)
  | .stored output _ =>
    let (s', result) := finish job s output
    .ok (s', .ended result)
  | .ended _ => .error "ended"

/-- The store calls of a capture, one by one, each with what it reads and writes. -/
inductive Call (E : Externals) (job : Job) (s : LocalStore) : Phase → LocalStore → Phase → Prop
  | deviceState : Call E job s .start s (.deviceState
      { counter := s.deviceCounter, epoch := s.currentEpoch, epochKey := [], tracked := [], parentIds := [],
        signer := [], generation := 0 })
  | epochKey (r : Reads) (epochKey : Bytes) (h : s.getEpochKey r.epoch = .ok epochKey) :
    Call E job s (.deviceState r) s (.epochKey { r with epochKey := epochKey })
  | tracked (r : Reads) : Call E job s (.epochKey r) s (.tracked { r with tracked := s.listTrackedFiles })
  | headRead (r : Reads) (hprogram : job.program = .push) :
    Call E job s (.tracked r) s (.headRead { r with parentIds := parentsOf s })
  | authorityRead (r : Reads) (signer : Bytes) (generation : Nat) (hprogram : job.program = .watch)
    (h : watchAuthority E s = .ok (signer, generation)) :
    Call E job s (.tracked r) s (.authorityRead { r with signer := signer, generation := generation })
  | pushReady (r : Reads) (signer : Bytes) (generation : Nat) (h : pushAuthority E job s =
      .ok (signer, generation)) :
    Call E job s (.headRead r) s (.ready { r with signer := signer, generation := generation })
  | watchReady (r : Reads) : Call E job s (.authorityRead r) s (.ready { r with parentIds := parentsOf s })
  | captured (r : Reads) (output : SnapshotOutput)
    (h : createSnapshot E job.settings job.tree r.tracked s.metadata.vaultId r.epoch r.epochKey r.parentIds
      s.metadata.deviceId (r.counter + 1) r.generation r.signer job.entropy = .ok output) :
    Call E job s (.ready r) s (.captured r output)
  | saved (r : Reads) (output : SnapshotOutput) (s' : LocalStore)
    (h : s.saveSnapshot E output.record output.encryptedManifest output.chunks = .ok s') :
    Call E job s (.captured r output) s' (.saved r output)
  | counted (r : Reads) (output : SnapshotOutput) :
    Call E job s (.saved r output) s.incrementDeviceCounter (.counted r output)
  | prepared (r : Reads) (output : SnapshotOutput) (s' : LocalStore) (set : RecoverySet)
    (h : s.prepareRecoverySet E output.record (E.ed25519Public r.signer) r.signer job.ephemeralSk =
      .ok (s', set)) :
    Call E job s (.counted r output) s' (.prepared r output set)
  | signed (r : Reads) (output : SnapshotOutput) (set : RecoverySet) (head : HeadRecord)
    (h : signHead E s r output set = .ok head) : Call E job s (.prepared r output set) s (.signed output head)
  | stored (output : SnapshotOutput) (head : HeadRecord) (s' : LocalStore) (h : s.setHead E head = .ok s') :
    Call E job s (.signed output head) s' (.stored output head)
  | ended (output : SnapshotOutput) (head : HeadRecord) :
    Call E job s (.stored output head) (finish job s output).1 (.ended (finish job s output).2)

theorem call_of_advance {E : Externals} {job : Job} {s s' : LocalStore} {phase phase' : Phase}
    (h : advance E job s phase = .ok (s', phase')) : Call E job s phase s' phase' := by
  cases phase with
  | start => cases h; exact .deviceState
  | deviceState r =>
    simp only [advance, bind_eq_ok, pure_eq_ok, mk.injEq] at h
    obtain ⟨key, hkey, rfl, rfl⟩ := h
    exact .epochKey r key hkey
  | epochKey r =>
    simp only [advance, ite_error_eq_ok, Except.ok.injEq, mk.injEq] at h
    obtain ⟨_, rfl, rfl⟩ := h
    exact .tracked r
  | tracked r =>
    cases hpro : job.program with
    | push =>
      simp only [advance, hpro, Except.ok.injEq, mk.injEq] at h
      obtain ⟨rfl, rfl⟩ := h
      exact .headRead r hpro
    | watch =>
      simp only [advance, hpro, bind_eq_ok, pure_eq_ok, mk.injEq] at h
      obtain ⟨⟨signer, generation⟩, haut, rfl, rfl⟩ := h
      exact .authorityRead r signer generation hpro haut
  | headRead r =>
    simp only [advance, bind_eq_ok, pure_eq_ok, mk.injEq] at h
    obtain ⟨⟨signer, generation⟩, haut, rfl, rfl⟩ := h
    exact .pushReady r signer generation haut
  | authorityRead r => cases h; exact .watchReady r
  | ready r =>
    simp only [advance, bind_eq_ok, mapError_eq_ok, pure_eq_ok, mk.injEq] at h
    obtain ⟨output, hcreate, rfl, rfl⟩ := h
    exact .captured r output hcreate
  | captured r output =>
    simp only [advance, bind_eq_ok, pure_eq_ok, mk.injEq] at h
    obtain ⟨t, hsave, rfl, rfl⟩ := h
    exact .saved r output t hsave
  | saved r output => cases h; exact .counted r output
  | counted r output =>
    simp only [advance, bind_eq_ok, pure_eq_ok, mk.injEq] at h
    obtain ⟨⟨t, set⟩, hpre, rfl, rfl⟩ := h
    exact .prepared r output t set hpre
  | prepared r output set =>
    simp only [advance, bind_eq_ok, pure_eq_ok, mk.injEq] at h
    obtain ⟨head, hsign, rfl, rfl⟩ := h
    exact .signed r output set head hsign
  | signed output head =>
    simp only [advance, bind_eq_ok, pure_eq_ok, mk.injEq] at h
    obtain ⟨t, hset, rfl, rfl⟩ := h
    exact .stored output head t hset
  | stored output head => cases h; exact .ended output head
  | ended result => cases h

/-! ## Uploads that are tried again -/

/-- What `retry_pending_uploads` checks before it uploads a pending snapshot again: the retained
record, inventory and head. -/
def retainedUpload (s : LocalStore) (item : PendingUpload) :
    Except String (RecoverySet × List (Bytes × Bytes) × HeadRecord) := do
  let (record, _) ← s.getSnapshot item.snapshotId
  let cid ← (record.computeRecordCid E).mapError FormatError.message
  if cid ≠ item.recordCid then .error "Pending upload does not match its snapshot record"
  else
    let set ← s.getRecoverySet item.recordCid
    let objects ← s.recoveryObjects E set
    match s.getHeadForSnapshot item.recordCid with
    | none => .error "Pending snapshot has no retained signed head"
    | some head =>
      let closureDigest ← (set.closure.computeBaseClosureDigest E).mapError FormatError.message
      if head.snapshotId ≠ item.recordCid ∨ head.parentSnapshotIds ≠ record.parentSnapshotIds ∨
          head.closureDigest ≠ closureDigest then
        .error "Pending snapshot's retained head has inconsistent bindings"
      else return (set, objects, head)

def retryItem (s : LocalStore) (item : PendingUpload) (upload : Except String Unit) : LocalStore :=
  match retainedUpload E s item with
  | .error error => s.recordUploadFailure item.snapshotId error
  | .ok _ =>
    match upload with
    | .ok _ => s.markUploadCompleted item.snapshotId
    | .error error => s.recordUploadFailure item.snapshotId error

/-- One store and the processes that capture into it. -/
structure Machine where
  store : LocalStore
  procs : Nat → Option (Job × Phase)
  /-- The heads that were signed so far, in the order in which they were. -/
  signed : List HeadRecord

inductive Action where
  | launch (pid : Nat) (job : Job)
  | step (pid : Nat)
  | crash (pid : Nat)
  | retry (item : PendingUpload) (upload : Except String Unit)

def Phase.justSigned : Phase → List HeadRecord
  | .signed _ head => [head]
  | _ => []

def Machine.setProc (m : Machine) (pid : Nat) (job : Job) (phase : Phase) : Machine :=
  { m with procs := Function.update m.procs pid (some (job, phase)) }

def act (m : Machine) : Action → Option Machine
  | .launch pid job =>
    match m.procs pid with
    | none => some (m.setProc pid job .start)
    | some _ => none
  | .step pid =>
    match m.procs pid with
    | none => none
    | some (_, .ended _) => none
    | some (job, phase) =>
      match advance E job m.store phase with
      | .error e => some (m.setProc pid job (.ended (.error e)))
      | .ok (s', phase') =>
        some ({ m with store := s', signed := m.signed ++ phase'.justSigned }.setProc pid job phase')
  | .crash pid =>
    match m.procs pid with
    | none => none
    | some (job, _) => some (m.setProc pid job (.ended (.error "killed")))
  | .retry item upload =>
    if item ∈ m.store.listPendingUploads then
      some { m with store := retryItem E m.store item upload } else none

def run (E : Externals) : List Action → Machine → Option Machine
  | [], m => some m
  | a :: rest, m =>
    match act E m a with
    | none => none
    | some m' => run E rest m'

def boot (s : LocalStore) : Machine := { store := s, procs := fun _ => none, signed := [] }

/-! ## A vault on the reference externals -/

section

def demoVault : Bytes := List.replicate 32 1#8

def demoDevice : Bytes := List.replicate 32 2#8

theorem demoVault_length : demoVault.length = 32 := rfl

theorem demoDevice_length : demoDevice.length = 32 := rfl

def demoRootSk : Bytes := [9#8]

def demoDeviceSk : Bytes := [7#8]

def demoRecoverySk : Bytes := [5#8]

def demoCertificate : DeviceCertificate :=
  let unsigned : DeviceCertificate :=
    { version := protocolVersion
      vaultId := demoVault
      certificateId := [3#8]
      deviceSigningPk := reference.ed25519Public demoDeviceSk
      permissions := 1
      authorityGeneration := 1
      issuedAtUtc := 0
      signature := [] }
  { unsigned with
    signature := signWithDomain reference demoRootSk (ascii "device_certificate")
      (reference.encode unsigned.unsigned) }

def demoGenesis : GenesisRecord :=
  let unsigned : GenesisRecord :=
    { version := protocolVersion
      vaultId := demoVault
      recoverySigningPk := reference.ed25519Public demoRootSk
      recoveryEncryptionPk := reference.x25519Public demoRecoverySk
      policyDigest := []
      createdAtUtc := 0
      creationNonce := []
      signature := [] }
  { unsigned with
    signature := signWithDomain reference demoRootSk (ascii "genesis_record")
      (reference.encode unsigned.unsigned) }

/-- A certified device that has captured nothing; its epoch key is `6` and it tracks the file `a`.
-/
def demoStore : LocalStore :=
  { metadata :=
      { vaultId := demoVault
        vault_length := demoVault_length
        deviceId := demoDevice
        device_length := demoDevice_length
        deviceSk := demoDeviceSk
        recoverySigningPk := reference.ed25519Public demoRootSk
        recoveryEncryptionPk := reference.x25519Public demoRecoverySk
        recoveryLocator := List.replicate 32 4#8
        genesis := demoGenesis }
    deviceCounter := 0
    currentEpoch := 0
    epochKeys := [(0, List.replicate 32 6#8)]
    trackedFiles := [(['a'], List.replicate 32 8#8)]
    certificates := [demoCertificate]
    snapshots := []
    chunks := []
    heads := []
    recoverySets := []
    pendingUploads := [] }

def demoJob (program : Program) (tree : Tree) (n : Nat) : Job :=
  { program := program
    touch := false
    token := .error "no token"
    settings := { writeVersion := .legacyV1, config := defaultConfig }
    tree := tree
    entropy := { snapshotId := leBytes 32 n, manifestNonce := List.replicate 24 0#8, timestamp := n }
    ephemeralSk := leBytes 32 (n + 1)
    replication := .skipped }

def emptyTree : Tree := { node := fun _ => none }

def fileTree (bytes : Bytes) : Tree :=
  { node := fun place => if place = [.normal ['a']] then some (.file bytes) else none }

end

end CipherVault.Device
