import CipherVault.Base.Result
import CipherVault.Base.Table
import CipherVault.Format.Lawful

/-!
# Network.Operator

A storage operator as the pipelines of `crates/storage/src/pool.rs` see it: its objects, and for one
locator the recovery log that `append_authorized_recovery_record` guards, as the list of its
complete frames.
-/

namespace CipherVault.Network

open Crypto Format List

structure Limits where
  (recordSize recordsPerLocator logBytes : Nat)

def defaultLimits : Limits :=
  { recordSize := 64 * 1024, recordsPerLocator := 10000, logBytes := 64 * 1024 * 1024 }

structure Operator where
  objects : List (Bytes × Bytes)
  log : List Bytes

def emptyOperator : Operator := { objects := [], log := [] }

structure Authority where
  registered : Option Bytes
  devices : List Bytes

variable (E : Externals)

def registers (bytes : Bytes) : Option Bytes :=
  match fromCanonicalCbor E.decodeGenesis bytes with
  | .error _ => none
  | .ok genesis =>
    if (genesis.verify E).isOk ∧ genesis.recoverySigningPk.length = 32 then
      some genesis.recoverySigningPk else none

def certifiedKey (recoveryPk : Option Bytes) (bytes : Bytes) : Option Bytes :=
  match fromCanonicalCbor E.decodeCertificate bytes, recoveryPk with
  | .ok cert, some pk =>
    if (cert.verify E pk).isOk ∧ cert.deviceSigningPk.length = 32 then some cert.deviceSigningPk
    else none
  | _, _ => none

variable (a : Authority)

/-- What one record adds to the authority. -/
def scanRecord (bytes : Bytes) : Authority :=
  let registered := (registers E bytes).or a.registered
  { registered := registered
    devices :=
      match certifiedKey E registered bytes with
      | some pk => if pk ∈ a.devices then a.devices else a.devices ++ [pk]
      | none => a.devices }

def scanLog (log : List Bytes) : Authority :=
  log.foldl (scanRecord E) { registered := none, devices := [] }

def Authority.signs (verify : Bytes → Except FormatError Unit) : Bool :=
  a.devices.any (fun pk => (verify pk).isOk) || a.registered.any fun pk => (verify pk).isOk

/-! ## Records that may be appended -/

def genesisAuthorized (bytes : Bytes) : Bool :=
  match fromCanonicalCbor E.decodeGenesis bytes with
  | .error _ => false
  | .ok genesis =>
    genesis.version == protocolVersion && (genesis.verify E).isOk && genesis.recoverySigningPk.length == 32 &&
      a.registered.all (· == genesis.recoverySigningPk)

def certificateAuthorized (bytes : Bytes) : Bool :=
  match fromCanonicalCbor E.decodeCertificate bytes with
  | .error _ => false
  | .ok cert =>
    cert.version == protocolVersion && cert.deviceSigningPk.length == 32 &&
      a.registered.any fun pk => (cert.verify E pk).isOk

def headAuthorized (bytes : Bytes) : Bool :=
  match fromCanonicalCbor E.decodeHead bytes with
  | .error _ => false
  | .ok head => head.version == protocolVersion && head.snapshotId.length == 32 && a.signs (head.verify E)

def envelopeAuthorized (bytes : Bytes) : Bool :=
  match fromCanonicalCbor E.decodeEnvelope bytes with
  | .error _ => false
  | .ok envelope =>
    envelope.version == protocolVersion && envelope.recipientFingerprint.length == 32 &&
      a.signs (envelope.verify E)

def snapshotAuthorized (bytes : Bytes) : Bool :=
  match fromCanonicalCbor E.decodeSnapshot bytes with
  | .error _ => false
  | .ok snapshot => snapshot.version == protocolVersion && a.signs (snapshot.verify E)

def isAuthorized (bytes : Bytes) : Bool :=
  genesisAuthorized E a bytes || certificateAuthorized E a bytes || headAuthorized E a bytes ||
    envelopeAuthorized E a bytes || snapshotAuthorized E a bytes

/-- Once a recovery key is registered the caller must be it, a certified device, or the device that
the record certifies. -/
def callerTrusted (bytes : Bytes) : Option Bytes → Bool
  | none => true
  | some caller =>
    match a.registered with
    | none => true
    | some pk => caller == pk || a.devices.contains caller || certifiedKey E (some pk) bytes == some caller

/-- Appends a record that the log so far authorises. -/
def appendAuthorizedRecoveryRecord (limits : Limits) (log : List Bytes) (bytes : Bytes)
    (caller : Option Bytes) : Except String (List Bytes) :=
  if bytes.length > limits.recordSize then
    .error s!"Record exceeds maximum size limit of {limits.recordSize} bytes"
  else if log.length ≥ limits.recordsPerLocator ∨
      (log.map fun r => 4 + r.length).sum + (4 + bytes.length) > limits.logBytes then
    .error "Locator recovery log capacity exceeded"
  else
    let authority := scanLog E log
    if !isAuthorized E authority bytes then
      .error ("Record failed cryptographic authorization against registered vault recovery key or " ++
        "authorized device certificate")
    else if !callerTrusted E authority bytes caller then
      .error "Caller session key is not authorized for this vault locator"
    else .ok (log ++ [bytes])

/-! ## What a log shows of its authority -/

section

variable {E : Externals} {log : List Bytes}

/-- The authority comes from records of the log. -/
structure ScannedFrom (E : Externals) (log : List Bytes) (a : Authority) : Prop where
  registered : ∀ pk, a.registered = some pk → ∃ r ∈ log, registers E r = some pk
  devices : ∀ pk ∈ a.devices, ∃ r ∈ log, ∃ root, certifiedKey E root r = some pk

variable {bytes pk : Bytes} {limits : Limits} {log' : List Bytes} {caller : Option Bytes}

theorem ScannedFrom.scanRecord {a : Authority} (h : ScannedFrom E log a) (hmem : bytes ∈ log) :
    ScannedFrom E log (scanRecord E a bytes) where
  registered pk hpk := by
    rcases Option.or_eq_some_iff.mp hpk with hnew | ⟨_, hold⟩
    · exact ⟨bytes, hmem, hnew⟩
    · exact h.registered pk hold
  devices pk hpk := by
    simp only [Network.scanRecord] at hpk
    split at hpk
    · rename_i key hkey
      split at hpk
      · exact h.devices pk hpk
      · rcases mem_append.mp hpk with hold | hnew
        · exact h.devices pk hold
        · rw [mem_singleton.mp hnew]
          exact ⟨bytes, hmem, _, hkey⟩
    · exact h.devices pk hpk

theorem scannedFrom_scanLog (E : Externals) (log : List Bytes) : ScannedFrom E log (scanLog E log) := by
  have hfold : ∀ (records : List Bytes), records ⊆ log → ∀ a, ScannedFrom E log a →
      ScannedFrom E log (records.foldl (scanRecord E) a) := by
    intro records
    induction records with
    | nil => exact fun _ a ha => ha
    | cons r rest ih =>
      intro hsub a ha
      obtain ⟨hr, hre⟩ := List.cons_subset.mp hsub
      exact ih hre _ (ha.scanRecord hr)
  refine hfold log (List.Subset.refl log) _ ⟨fun pk hpk => ?_, fun pk hpk => ?_⟩
  · cases hpk
  · cases hpk

theorem registers_eq_some (h : registers E bytes = some pk) :
    ∃ genesis, E.decodeGenesis bytes = some genesis ∧ genesis.recoverySigningPk = pk := by
  rw [registers] at h
  split at h
  · cases h
  · rename_i genesis hdec
    split at h
    · cases h
      exact ⟨genesis, fromCanonicalCbor_eq_ok hdec, rfl⟩
    · cases h

theorem certifiedKey_eq_some {root : Option Bytes} (h : certifiedKey E root bytes = some pk) :
    ∃ cert, E.decodeCertificate bytes = some cert := by
  unfold certifiedKey at h
  split at h
  · rename_i cert _ hdec
    exact ⟨cert, fromCanonicalCbor_eq_ok hdec⟩
  · cases h

theorem appended_head {head : HeadRecord} (hE : Lawful E)
    (h : appendAuthorizedRecoveryRecord E limits log (E.encode (.head head)) caller = .ok log') :
    (scanLog E log).signs (head.verify E) = true := by
  simp only [appendAuthorizedRecoveryRecord, ite_error_eq_ok] at h
  obtain ⟨_, _, haut, _⟩ := h
  -- A head does not decode as one of the other records.
  obtain ⟨_, hgen⟩ := fromCanonicalCbor_error (hE.decodeGenesis (.head head))
  obtain ⟨_, hcer⟩ := fromCanonicalCbor_error (hE.decodeCertificate (.head head))
  obtain ⟨_, henv⟩ := fromCanonicalCbor_error (hE.decodeEnvelope (.head head))
  obtain ⟨_, hsna⟩ := fromCanonicalCbor_error (hE.decodeSnapshot (.head head))
  simp only [isAuthorized, genesisAuthorized, hgen, certificateAuthorized, hcer, envelopeAuthorized,
    henv, snapshotAuthorized, hsna, Bool.false_or, Bool.or_false, Bool.not_eq_true', Bool.not_eq_false,
    headAuthorized] at haut
  split at haut
  · cases haut
  · rename_i decoded hdec
    have hs := fromCanonicalCbor_eq_ok hdec
    rw [hE.decodeHead] at hs
    cases hs
    exact (Bool.and_eq_true_iff.mp haut).2

theorem append_eq_ok (h : appendAuthorizedRecoveryRecord E limits log bytes caller = .ok log') :
    log' = log ++ [bytes] := by
  simp only [appendAuthorizedRecoveryRecord, ite_error_eq_ok] at h
  obtain ⟨_, _, _, _, h⟩ := h
  cases h
  rfl

end

structure Upload where
  objects : List (Bytes × Bytes)
  records : List Bytes
  head : Bytes

def putObject (objects : List (Bytes × Bytes)) (object : Bytes × Bytes) : List (Bytes × Bytes) :=
  if E.sha256 object.2 = object.1 then Table.insertNew Prod.fst object objects else objects

/-- A record that the operator refuses is skipped. `admits` is what its vouchers and quotas let
through. -/
def appendOrSkip (limits : Limits) (caller : Option Bytes) (admits : Bytes → Bool)
    (log : List Bytes) (bytes : Bytes) : List Bytes :=
  if admits bytes then
    match appendAuthorizedRecoveryRecord E limits log bytes caller with
    | .ok log' => log'
    | .error _ => log
  else log

/-- `replicate_to_single_operator` when it gets as far as its first `sent` messages: the objects,
then the records, then the head. Whatever ends the pipeline early ends it after some number of
messages. -/
def replicateToSingleOperator (limits : Limits) (caller : Option Bytes) (admits : Bytes → Bool)
    (upload : Upload) (sent : Nat) (op : Operator) : Operator :=
  { objects := (upload.objects.take sent).foldl (putObject E) op.objects
    log := ((upload.records ++ [upload.head]).take (sent - upload.objects.length)).foldl
      (appendOrSkip E limits caller admits) op.log }

/-! ## Reading from several operators -/

/-- `query_recovery_records`: the records of the operators that answer, each once. -/
def queryRecoveryRecords (logs : List (List Bytes)) : List Bytes :=
  logs.flatten.foldl (fun all record => if record ∈ all then all else all ++ [record]) []

variable {r : Bytes}

theorem mem_queryRecoveryRecords_foldl (records : List Bytes) : ∀ (all : List Bytes) {r : Bytes},
    r ∈ records.foldl (fun all record => if record ∈ all then all else all ++ [record]) all ↔
    r ∈ all ∨ r ∈ records := by
  induction records with
  | nil => intro all r; simp
  | cons record records ih =>
    intro all r
    rw [foldl_cons, ih, mem_cons]
    split
    · rename_i hmem
      constructor
      · rintro (h | h)
        · exact .inl h
        · exact .inr (.inr h)
      · rintro (h | rfl | h)
        · exact .inl h
        · exact .inl hmem
        · exact .inr h
    · rw [mem_append, mem_singleton, or_assoc]

theorem mem_queryRecoveryRecords {logs : List (List Bytes)} : r ∈ queryRecoveryRecords logs ↔
    ∃ log ∈ logs, r ∈ log := by
  rw [queryRecoveryRecords, mem_queryRecoveryRecords_foldl, List.mem_flatten]
  simp

end CipherVault.Network
