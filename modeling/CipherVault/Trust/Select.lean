import CipherVault.Base.Walk
import CipherVault.Format.Records

/-!
# Trust.Select

`crates/recovery/src/trust.rs`: `select_head`, `verify_snapshot` and `select_envelope`. Hash maps
are association lists; the traversal is the one of `CipherVault.Base.Walk`.
-/

namespace CipherVault.Trust

open Crypto Format

abbrev Authenticated := HeadRecord × DeviceCertificate

variable (E : Externals)

def trusted (vault rootPk : Bytes) (c : DeviceCertificate) : Bool :=
  c.version == protocolVersion && c.vaultId == vault && c.deviceSigningPk.length == 32 &&
    c.permissions &&& 1 != 0 && (c.verify E rootPk).isOk

def trustedCertificates (records : List Bytes) (vault rootPk : Bytes) : List DeviceCertificate :=
  (records.filterMap fun r => (fromCanonicalCbor E.decodeCertificate r).toOption).filter
    (trusted E vault rootPk)

def sortCertificates (certs : List DeviceCertificate) : List DeviceCertificate :=
  certs.insertionSort fun a b => b.authorityGeneration ≤ a.authorityGeneration

def wellFormed (vault : Bytes) (head : HeadRecord) : Bool :=
  head.version == protocolVersion && head.vaultId == vault && head.snapshotId.length == 32 &&
    head.parentSnapshotIds.all fun parent => parent.length == 32

def authenticate (certs : List DeviceCertificate) (head : HeadRecord) : Option DeviceCertificate :=
  certs.find? fun cert => head.deviceId.length == 32 && (head.verify E cert.deviceSigningPk).isOk

/-- A record that is a head of the vault, with its certificate of the highest generation. -/
def authenticateRecord (vault : Bytes) (certs : List DeviceCertificate) (bytes : Bytes) :
    Option Authenticated :=
  match fromCanonicalCbor E.decodeHead bytes with
  | .error _ => none
  | .ok head =>
    if wellFormed vault head then (authenticate E certs head).map fun cert => (head, cert) else none

abbrev CounterKey := Nat × Bytes × Bytes × Nat

def counterKey (p : Authenticated) : CounterKey :=
  (p.2.authorityGeneration, p.2.deviceSigningPk, p.1.deviceId, p.1.deviceCounter)

/-- The bindings, counters and parents of the heads so far. -/
structure Index where
  bindings : AList fun _ : Bytes => HeadRecord
  counters : AList fun _ : CounterKey => Bytes
  graph : AList fun _ : Bytes => List Bytes

/-- Two snapshots under one counter, or two heads of one snapshot, conflict. -/
def indexHead (p : Authenticated) (index : Index) : Except String Index :=
  if (index.bindings.lookup p.1.snapshotId).any (· != p.1) then
    .error "Conflicting authenticated head bindings for the same snapshot"
  else if (index.counters.lookup (counterKey p)).any (· != p.1.snapshotId) then
    .error "Conflicting certified device counters; explicit fork resolution required"
  else if (index.graph.lookup p.1.snapshotId).any (· != p.1.parentSnapshotIds) then
    .error "Conflicting authenticated ancestry for the same snapshot"
  else .ok
    { bindings := index.bindings.insert p.1.snapshotId p.1
      counters := index.counters.insert (counterKey p) p.1.snapshotId
      graph := index.graph.insert p.1.snapshotId p.1.parentSnapshotIds }

def indexHeads : List Authenticated → Index → Except String Index
  | [], index => .ok index
  | p :: heads, index =>
    match indexHead p index with
    | .error e => .error e
    | .ok index' => indexHeads heads index'

def emptyIndex : Index := { bindings := ∅, counters := ∅, graph := ∅ }

variable (heads : List Authenticated)

def maxGeneration : Nat :=
  (heads.map fun p => p.2.authorityGeneration).foldl max 0

def candidatesOf : List Authenticated :=
  heads.filter fun p => p.2.authorityGeneration == maxGeneration heads

def walkFailure : Walk.Failure → String
  | .cycle => "Cycle in authenticated recovery ancestry"
  | .outOfFuel => "traversal out of fuel"

/-- Keeps one head for each snapshot that no other head is built on. -/
def insertMaximal (nonmaximal : Finset Bytes) (candidates : List Authenticated) :
    AList fun _ : Bytes => Authenticated :=
  candidates.foldl (fun maximal p =>
    if p.1.snapshotId ∈ nonmaximal then maximal else maximal.insert p.1.snapshotId p) ∅

def selectAuthenticated : Except String Authenticated :=
  match indexHeads heads emptyIndex with
  | .error e => .error e
  | .ok index =>
    match Walk.walkAll index.graph ((candidatesOf heads).map fun p => p.1.snapshotId) Walk.start with
    | .error e => .error (walkFailure e)
    | .ok walked =>
      match (insertMaximal walked.nonmaximal (candidatesOf heads)).entries with
      | [entry] => .ok entry.2
      | _ => .error "Conflicting certified DAG heads; explicit fork resolution required"

/-- The one maximal head of the highest generation, or an error. -/
def selectHead (records : List Bytes) (vault rootPk : Bytes) :
    Except String (HeadRecord × DeviceCertificate) :=
  let certs := sortCertificates (trustedCertificates E records vault rootPk)
  if certs.isEmpty then
    .error "No trusted device certificates found; refusing self-authorized recovery"
  else
    let heads := records.filterMap (authenticateRecord E vault certs)
    if heads.isEmpty then .error "No cryptographically authenticated HeadRecords found"
    else selectAuthenticated heads

def verifySnapshot (record : SnapshotRecord) (head : HeadRecord) (cert : DeviceCertificate) :
    Except String Unit :=
  if cert.deviceSigningPk.length ≠ 32 then .error "could not convert slice to array"
  else match record.verify E cert.deviceSigningPk with
    | .error e => .error e.message
    | .ok _ =>
      if record.version = protocolVersion ∧ record.vaultId = head.vaultId ∧ record.deviceId = head.deviceId ∧
          record.deviceCounter = head.deviceCounter ∧ record.parentSnapshotIds = head.parentSnapshotIds ∧
          record.authorityGeneration = cert.authorityGeneration then
        match record.computeRecordCid E with
        | .error e => .error e.message
        | .ok cid =>
          if cid = head.snapshotId then .ok () else .error "Snapshot authority or head binding mismatch"
      else .error "Snapshot authority or head binding mismatch"

end CipherVault.Trust
