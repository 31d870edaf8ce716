import CipherVault.Base.Tally
import CipherVault.Network.Replication
import CipherVault.Store.Db
import CipherVault.Trust.Rearrange

/-!
# Recovery.Maintenance

The unattended audit of a vault, from `services/maintenance/src/engine.rs` and `scheduler.rs`: which
operators hold every object of the closure and every discovery record, and whether they are enough.
Operators may answer as they like, and tasks may end in any order or panic: `Round` holds what
happens during one audit, `Course` during one job.
-/

namespace CipherVault.Recovery.Maintenance

open Crypto Format Store Trust Tally List Option Prod
open Network (utf8)
open Network.Replication (OperatorInfo LeaseReceipt ProofOfStorageReceipt computePosProof chunks)

def ensure (condition : Bool) (message : String) : Except String Unit :=
  if condition then .ok () else .error message

theorem ensure_eq_ok {condition : Bool} {message : String} {u : Unit} :
    ensure condition message = .ok u ↔ condition = true := by
  cases condition with
  | true | false => simp [ensure]

def rank (text : Text) : List Nat := (utf8 text).map BitVec.toNat

structure OperatorClient where
  endpoint : Text
  pinnedKey : Option Bytes

/-- What an operator answers during one audit, with the nonces that the client draws and the clock
at the checks of the identity. -/
structure Answers where
  /-- To `fetch_info` of the audit of the closure. -/
  infoOfClosure : Option OperatorInfo
  nowOfClosure : Nat
  nonce : Bytes → Bytes
  challengeObjectPos : Bytes → Option ProofOfStorageReceipt
  fetchObjectBytes : Bytes → Option Bytes
  getRecoveryRecords : Option (List Bytes)
  /-- To `fetch_info` after the recovery records. -/
  infoOfDiscovery : Option OperatorInfo
  nowOfDiscovery : Nat

variable (E : Externals)

namespace OperatorClient

/-- `trim_end_matches('/')` on the endpoint. -/
def newPinned (endpoint : Text) (signingKey : Bytes) : OperatorClient :=
  { endpoint := (endpoint.reverse.dropWhile (· == '/')).reverse, pinnedKey := some signingKey }

def getInfo (client : OperatorClient) (fetchInfo : Option OperatorInfo) (now : Nat) : Option OperatorInfo :=
  match fetchInfo with
  | none => none
  | some info =>
    if !info.verifyIdentitySignature E || info.identityExpiresAtUtc ≤ now then none
    else match client.pinnedKey with
      | none => some info
      | some key => if Network.eqIgnoreAsciiCase info.operatorSigningPkHex (Hex.encode key) then
          some info else none

def identityKey (client : OperatorClient) (fetchInfo : Option OperatorInfo) (now : Nat) : Option Bytes :=
  (client.getInfo E fetchInfo now).bind fun info =>
    (Hex.decode info.operatorSigningPkHex).filter fun key => key.length == 32

end OperatorClient

variable (answers : Answers)

def Answers.getObject (cid : Bytes) : Option Bytes :=
  match answers.fetchObjectBytes cid with
  | none => none
  | some bytes => if E.sha256 bytes ≠ cid then none else some bytes

/-- What one round of requests to the operators gives. -/
structure Round where
  /-- By endpoint. -/
  answers : Text → Answers
  keyTasks : Joins OperatorClient
  probeTasks : Joins (Bytes × Option Bytes)
  discoveryTasks : Joins OperatorClient
  now : Int

/-- The clients have different endpoints. -/
structure MaintenanceEngine where
  clients : List OperatorClient
  distinct : (clients.map OperatorClient.endpoint).Nodup

namespace MaintenanceEngine

def endpoints (engine : MaintenanceEngine) : List Text := engine.clients.map OperatorClient.endpoint

def fromClients (clients : List OperatorClient) : MaintenanceEngine where
  clients := sortDedupBy (fun client => rank client.endpoint) clients
  distinct := by
    have hranks := nodup_sortDedupBy (fun client : OperatorClient => rank client.endpoint) clients
    rw [show (fun client : OperatorClient => rank client.endpoint) = rank ∘ OperatorClient.endpoint from rfl,
      ← List.map_map] at hranks
    exact hranks.of_map _

def authenticateAll (engine : MaintenanceEngine) (authenticate : Text → Option Text)
    (tasks : Joins OperatorClient) :
    Dict Text Text :=
  gather (fun client => (authenticate client.endpoint).map fun token => (client.endpoint, token))
    (tasks.joined engine.clients) ∅

end MaintenanceEngine

structure ObjectReplicaStatus where
  cid : Bytes
  (presentOn missingOn : List Text)

structure AuditReport where
  closureDigest : Bytes
  (totalObjects healthyCount degradedCount lostCount : Nat)
  operatorCounts : Dict Text Nat
  degradedObjects : List ObjectReplicaStatus

/-- The ids of 32 bytes in the closure. The id of the snapshot is not one: no object has it as its
address. -/
def objectIds (closure : RecoveryClosure) : List Bytes :=
  ([closure.snapshotRecordCid, closure.manifestCid] ++ closure.envelopeIds ++ closure.chunkCids).filter
    fun cid => cid.length == 32

def allCids (closure : RecoveryClosure) : List Bytes := LocalStore.sortDedup (objectIds closure)

def proven (pk : Option Bytes) (cid : Bytes) (data : Option Bytes) : Bool :=
  match data, pk with
  | some data, some pk =>
    match answers.challengeObjectPos cid with
    | none => false
    | some receipt =>
      receipt.verify E pk (computePosProof E cid (answers.nonce cid) data) && receipt.cidHex ==
        Hex.encode cid &&
        receipt.nonceHex == Hex.encode (answers.nonce cid) && receipt.sizeBytes == data.length
  | _, _ => false

def verified (pk : Option Bytes) (cid : Bytes) (data : Option Bytes) : Bool :=
  proven E answers pk cid data || (answers.getObject E cid).any fun bytes => E.sha256 bytes == cid

section

variable (E : Externals) (engine : MaintenanceEngine) (round : Round) (sessions : Dict Text Text)

def operatorPks : Dict Text Bytes :=
  gather (fun client =>
      (client.identityKey E (round.answers client.endpoint).infoOfClosure
        (round.answers client.endpoint).nowOfClosure).map
        fun pk => (client.endpoint, pk))
    (round.keyTasks.joined engine.clients) ∅

def has (cid : Bytes) (data : Option Bytes) (client : OperatorClient) : Bool :=
  (sessions.lookup client.endpoint).isSome &&
    verified E (round.answers client.endpoint) ((operatorPks E engine round).lookup client.endpoint) cid data

def probe (input : Bytes × Option Bytes) : List Text × List Text :=
  ((engine.clients.filter fun client => has E engine round sessions input.1 input.2 client).map
    OperatorClient.endpoint,
    (engine.clients.filter fun client => !has E engine round sessions input.1 input.2 client).map
      OperatorClient.endpoint)

def probeResults (inputs : List (Bytes × Option Bytes)) : Dict Bytes (List Text × List Text) :=
  (chunks 8 inputs.length inputs).foldl (fun results batch =>
    gather (fun input => some (input.1, probe E engine round sessions input))
      (round.probeTasks.joined batch) results) ∅

end

structure Totals where
  (healthyCount degradedCount lostCount : Nat)
  operatorCounts : Dict Text Nat
  degradedObjects : List ObjectReplicaStatus

/-- An object of which the task has panicked is missing everywhere. The loop takes the entries out
of the map; it meets every address once. -/
def replicas (engine : MaintenanceEngine) (results : Dict Bytes (List Text × List Text)) (cid : Bytes) :
    List Text × List Text :=
  (results.lookup cid).getD ([], engine.endpoints)

def Totals.add (engine : MaintenanceEngine) (results : Dict Bytes (List Text × List Text))
    (totals : Totals) (cid : Bytes) :
    Totals :=
  let (presentOn, missingOn) := replicas engine results cid
  let counts := bumpAll totals.operatorCounts presentOn
  let status : ObjectReplicaStatus := { cid := cid, presentOn := presentOn, missingOn := missingOn }
  if !presentOn.isEmpty && presentOn.length == engine.clients.length then
    { totals with operatorCounts := counts, healthyCount := totals.healthyCount + 1 }
  else if !presentOn.isEmpty then
    { totals with
      operatorCounts := counts
      degradedCount := totals.degradedCount + 1
      degradedObjects := totals.degradedObjects ++ [status] }
  else
    { totals with
      operatorCounts := counts
      lostCount := totals.lostCount + 1
      degradedObjects := totals.degradedObjects ++ [status] }

def Totals.zero (engine : MaintenanceEngine) : Totals where
  healthyCount := 0
  degradedCount := 0
  lostCount := 0
  operatorCounts := gather (fun endpoint => some (endpoint, 0)) engine.endpoints ∅
  degradedObjects := []

def auditClosureWithCache (engine : MaintenanceEngine) (round : Round) (closure : RecoveryClosure)
    (sessions : Dict Text Text) (localObjects : Option (Dict Bytes Bytes)) : Except String AuditReport := do
  let closureDigest ← (closure.computeBaseClosureDigest E).mapError FormatError.message
  ensure (!(allCids closure).isEmpty) "Empty recovery inventory"
  let inputs := (allCids closure).map fun cid => (cid, localObjects.bind fun cache => cache.lookup cid)
  let results := probeResults E engine round sessions inputs
  let totals := (allCids closure).foldl (Totals.add engine results) (Totals.zero engine)
  return { closureDigest := closureDigest
           totalObjects := (allCids closure).length
           healthyCount := totals.healthyCount
           degradedCount := totals.degradedCount
           lostCount := totals.lostCount
           operatorCounts := totals.operatorCounts
           degradedObjects := totals.degradedObjects }

structure RecoveryAudit where
  objects : AuditReport
  (recoverableOperators discoveryMissing : List Text)
  requiredReplicas : Nat
  healthy : Bool
  checkedAtUtc : Int

def discovers (set : RecoverySet) (head : Bytes) : Bool :=
  match answers.getRecoveryRecords with
  | none => false
  | some discovered => discovered.contains head && set.records.all discovered.contains

def discovery (round : Round) (set : RecoverySet) (head : Bytes) (client : OperatorClient) :
    Bool × Option Bytes :=
  let answers := round.answers client.endpoint
  if discovers answers set head then
    (true, client.identityKey E answers.infoOfDiscovery answers.nowOfDiscovery)
  else (false, none)

def outcomes (engine : MaintenanceEngine) (round : Round) (set : RecoverySet) (head : Bytes) :
    Dict Text (Bool × Option Bytes) :=
  gather (fun client => some (client.endpoint, discovery E round set head client))
    (round.discoveryTasks.joined engine.clients) ∅

def outcomeOf (outcomes : Dict Text (Bool × Option Bytes)) (endpoint : Text) : Bool × Option Bytes :=
  (outcomes.lookup endpoint).getD (false, none)

def candidate (objects : AuditReport) (outcomes : Dict Text (Bool × Option Bytes)) (endpoint : Text) :
    Option (Bytes × Text) :=
  if (outcomeOf outcomes endpoint).1 && objects.operatorCounts.lookup endpoint ==
    some objects.totalObjects then
    (outcomeOf outcomes endpoint).2.map fun key => (key, endpoint)
  else none

def recoverable (engine : MaintenanceEngine) (objects : AuditReport)
    (outcomes : Dict Text (Bool × Option Bytes)) :
    List (Bytes × Text) :=
  (engine.endpoints.map (candidate objects outcomes)).foldl Quorum.note []

def auditRecoverySetWithCache (engine : MaintenanceEngine) (round : Round) (set : RecoverySet) (head : Bytes)
    (sessions : Dict Text Text) (localObjects : Option (Dict Bytes Bytes)) : Except String RecoveryAudit := do
  let objects ← auditClosureWithCache E engine round set.closure sessions localObjects
  let found := outcomes E engine round set head
  let recoverableOperators := sortDedupBy rank ((recoverable engine objects found).map snd)
  return { objects := objects
           recoverableOperators := recoverableOperators
           discoveryMissing := engine.endpoints.filter fun endpoint => !(outcomeOf found endpoint).1
           requiredReplicas := 3
           healthy := 3 ≤ recoverableOperators.length && objects.lostCount == 0
           checkedAtUtc := round.now }

/-- Asks the operators for every object of a recovery set. -/
def auditRecoverySet (engine : MaintenanceEngine) (round : Round) (set : RecoverySet) (head : Bytes)
    (sessions : Dict Text Text) : Except String RecoveryAudit :=
  auditRecoverySetWithCache E engine round set head sessions none

structure MaintenanceInventory where
  set : RecoverySet
  (head vaultId recoverySigningPk : Bytes)
  operatorKeys : Dict Text Bytes
  requiredReplicas : Nat
  leases : List LeaseReceipt
  (accountId deviceIdHex : Option Text)

namespace MaintenanceInventory

def validate (inventory : MaintenanceInventory) : Except String Unit := do
  ensure (0 < inventory.requiredReplicas && inventory.requiredReplicas ≤ 32) "Invalid replica target"
  ensure (Dict.size inventory.operatorKeys ≤ 32) "Too many operators in inventory"
  ensure (inventory.accountId.isSome == inventory.deviceIdHex.isSome) "Incomplete account/device binding"
  let (head, _) ← selectHead E (inventory.set.records ++ [inventory.head]) inventory.vaultId
    inventory.recoverySigningPk
  let supplied ← (fromCanonicalCbor E.decodeHead inventory.head).mapError FormatError.message
  ensure (head == supplied) "Inventory head is not the authenticated maximal head"
  let closure := inventory.set.closure
  let closureDigest ← (closure.computeBaseClosureDigest E).mapError FormatError.message
  ensure (head.closureDigest == closureDigest && head.snapshotId == closure.snapshotRecordCid)
    "Inventory does not match signed head"
  ensure (closure.snapshotId.length == 32 && closure.manifestCid.length == 32 &&
    closure.chunkCids.length ≤ 10000 &&
      (closure.chunkCids ++ closure.envelopeIds).all fun cid => cid.length == 32)
    "Invalid closure object identifiers"

def engine (inventory : MaintenanceInventory) (iteration : Quorum.Schedule ((_ : Text) × Bytes)) :
    MaintenanceEngine :=
  .fromClients ((iteration.order inventory.operatorKeys.entries).map fun entry => .newPinned entry.1 entry.2)

end MaintenanceInventory

/-- What happens during a job. -/
structure Course where
  iteration : Quorum.Schedule ((_ : Text) × Bytes)
  authenticate : Text → Option Text
  authenticateTasks : Joins OperatorClient
  first : Round
  /-- `repair_closure` and `record_repair`. -/
  repair : Except String Unit
  second : Round
  now : Nat
  renewLeases : List LeaseReceipt → List LeaseReceipt
  (storeInventory recordAudit : Except String Unit)

section

variable (E : Externals) (inventory : MaintenanceInventory) (signingKey : Option Bytes) (course : Course)

def writeSessions : Dict Text Text :=
  match signingKey with
  | some _ => (inventory.engine course.iteration).authenticateAll course.authenticate course.authenticateTasks
  | none => ∅

/-- An operator without a session is asked anonymously. -/
def readSessions : Dict Text Text :=
  (inventory.engine course.iteration).endpoints.foldl (fun sessions endpoint =>
      if (sessions.lookup endpoint).isSome then sessions
        else sessions.insert endpoint "recovery_anonymous".toList)
    (writeSessions inventory signingKey course)

def auditIn (round : Round) : Except String RecoveryAudit :=
  auditRecoverySet E (inventory.engine course.iteration) round inventory.set inventory.head
    (readSessions inventory signingKey course)

def repairs (report : RecoveryAudit) : Bool :=
  signingKey.isSome && (!report.objects.degradedObjects.isEmpty || !report.discoveryMissing.isEmpty) &&
    !(writeSessions inventory signingKey course).entries.isEmpty

/-- Audits, uploads what is missing, and audits again. -/
def auditAndRepair : Except String RecoveryAudit := do
  inventory.validate E
  let report ← auditIn E inventory signingKey course course.first
  if repairs inventory signingKey course report then
    course.repair
    auditIn E inventory signingKey course course.second
  else return report

def replaceLease (renewed : LeaseReceipt) : List LeaseReceipt → List LeaseReceipt
  | [] => []
  | lease :: rest =>
    if lease.leaseId == renewed.leaseId && lease.operatorId == renewed.operatorId then renewed :: rest
    else lease :: replaceLease renewed rest

def due : List LeaseReceipt :=
  inventory.leases.filter fun lease => lease.expiresAtUtc < min (course.now + 14 * 86400) (2 ^ 64 - 1)

def renewDue : MaintenanceInventory × Except String Unit :=
  if signingKey.isNone || (due inventory course).isEmpty then (inventory, .ok ())
  else
    ({ inventory with
       leases := (course.renewLeases (due inventory course)).foldl
         (fun leases renewed => replaceLease renewed leases)
         inventory.leases },
      course.storeInventory)

def distinctKeys (report : RecoveryAudit) : List Bytes :=
  (report.recoverableOperators.filterMap fun endpoint => inventory.operatorKeys.lookup endpoint).dedup

def verdict (report : RecoveryAudit) : RecoveryAudit :=
  { report with
    requiredReplicas := inventory.requiredReplicas
    healthy := inventory.requiredReplicas ≤ (distinctKeys inventory report).length &&
      report.objects.lostCount == 0 }

def runInventoryJob : Except String RecoveryAudit × MaintenanceInventory :=
  match auditAndRepair E inventory signingKey course with
  | .error e => (.error e, inventory)
  | .ok report =>
    let renewal := renewDue inventory signingKey course
    match renewal.2, course.recordAudit with
    | .error e, _ => (.error e, renewal.1)
    | .ok _, .error e => (.error e, renewal.1)
    | .ok _, .ok _ => (.ok (verdict renewal.1 report), renewal.1)

end

/-! ## What an operator has shown -/

/-- The operator answers with the bytes of the address. -/
def Returned (round : Round) (endpoint : Text) (cid : Bytes) : Prop :=
  ∃ bytes, (round.answers endpoint).fetchObjectBytes cid = some bytes ∧ E.sha256 bytes = cid

/-- The operator has returned every object of the closure, and served the head and every record of
the set. -/
structure Recoverable (E : Externals) (set : RecoverySet) (head : Bytes) (round : Round)
    (operator : OperatorClient) :
    Prop where
  objects : ∀ cid ∈ objectIds set.closure, Returned E round operator.endpoint cid
  records : ∃ discovered, (round.answers operator.endpoint).getRecoveryRecords = some discovered ∧
    head ∈ discovered ∧
    ∀ record ∈ set.records, record ∈ discovered

variable {E : Externals} {cid : Bytes} {endpoint : Text}

variable {pk : Option Bytes}

section

variable {client : OperatorClient} {key : Bytes} {fetchInfo : Option OperatorInfo} {now : Nat} {round : Round}

theorem getInfo_pinned {info : OperatorInfo} (hpinned : client.pinnedKey = some key)
    (h : client.getInfo E fetchInfo now = some info) :
    Network.eqIgnoreAsciiCase info.operatorSigningPkHex (Hex.encode key) = true := by
  cases fetchInfo with
  | none => cases h
  | some fetched =>
    simp only [OperatorClient.getInfo, hpinned] at h
    split at h
    · cases h
    · split at h
      · rename_i hs
        cases h
        exact hs
      · cases h

theorem identityKey_pinned {pinned : Bytes} (hpinned : client.pinnedKey = some pinned)
    (h : client.identityKey E fetchInfo now = some key) : key = pinned := by
  obtain ⟨info, hinfo, hkey⟩ := bind_eq_some_iff.mp h
  have hdec := (filter_eq_some_iff.mp hkey).1
  have hs := getInfo_pinned hpinned hinfo
  rw [Network.eqIgnoreAsciiCase, beq_iff_eq, ← Hex.encode_of_decode hdec,
    ← Hex.encode_of_decode (Hex.decode_encode pinned)] at hs
  exact Hex.encode_inj hs

theorem returned_of_getObject {bytes : Bytes} (h : (round.answers endpoint).getObject E cid = some bytes) :
    Returned E round endpoint cid := by
  rw [Answers.getObject] at h
  split at h
  · cases h
  · rename_i fetched hfet
    split at h
    · cases h
    · rename_i hdig
      exact ⟨fetched, hfet, not_not.mp hdig⟩

theorem returned_of_verified (h : verified E (round.answers endpoint) pk cid none = true) :
    Returned E round endpoint cid := by
  rw [verified, show proven E (round.answers endpoint) pk cid none = false from rfl, Bool.false_or] at h
  cases hobject : (round.answers endpoint).getObject E cid with
  | none =>
    rw [hobject] at h
    cases h
  | some bytes => exact returned_of_getObject hobject

end

section

variable {engine : MaintenanceEngine} {round : Round} {sessions : Dict Text Text}

variable {closure : RecoveryClosure} {report : AuditReport}

theorem returned_of_mem_probe (h : endpoint ∈ (probe E engine round sessions (cid, none)).1) :
    Returned E round endpoint cid := by
  obtain ⟨client, hclient, rfl⟩ := mem_map.mp h
  have hhas := (mem_filter.mp hclient).2
  exact returned_of_verified (Bool.and_eq_true_iff.mp hhas).2

theorem exists_of_lookup_probeResults {inputs : List (Bytes × Option Bytes)}
    {result : List Text × List Text}
    (h : (probeResults E engine round sessions inputs).lookup cid = some result) :
    ∃ input ∈ inputs, input.1 = cid ∧ probe E engine round sessions input = result := by
  rw [probeResults, foldl_gather] at h
  rcases exists_of_lookup_gather h with ⟨input, hinput, hout⟩ | hemp
  · obtain ⟨batch, hbatch, hjoined⟩ := mem_flatMap.mp hinput
    cases hout
    refine ⟨input, ?_, rfl, rfl⟩
    rw [← Network.Replication.flatten_chunks (show 0 < 8 by omega) (le_refl inputs.length)]
    exact mem_flatten.mpr ⟨batch, hbatch, Joins.mem_of_mem_joined hjoined⟩
  · rw [AList.lookup_empty] at hemp
    cases hemp

def downloads (E : Externals) (engine : MaintenanceEngine) (round : Round)
    (sessions : Dict Text Text) (cids : List Bytes) :
    Dict Bytes (List Text × List Text) :=
  probeResults E engine round sessions (cids.map fun cid => (cid, none))

theorem replicas_downloads (cids : List Bytes) (cid : Bytes) :
    (replicas engine (downloads E engine round sessions cids) cid).1.Nodup ∧
      ∀ endpoint ∈ (replicas engine (downloads E engine round sessions cids) cid).1, Returned E
        round endpoint cid := by
  rw [replicas]
  cases hl : (downloads E engine round sessions cids).lookup cid with
  | none => exact ⟨nodup_nil, nofun⟩
  | some result =>
    obtain ⟨input, hinput, rfl, rfl⟩ := exists_of_lookup_probeResults hl
    obtain ⟨cid, _, rfl⟩ := mem_map.mp hinput
    exact ⟨engine.distinct.sublist (filter_sublist.map _), fun _ => returned_of_mem_probe⟩

theorem Totals.add_operatorCounts (results : Dict Bytes (List Text × List Text)) (totals : Totals)
    (cid : Bytes) :
    (totals.add engine results cid).operatorCounts =
      bumpAll totals.operatorCounts (replicas engine results cid).1 := by
  rw [Totals.add]
  dsimp only
  split
  · rfl
  · split <;> rfl

theorem foldl_operatorCounts (results : Dict Bytes (List Text × List Text)) (cids : List Bytes)
    (totals : Totals) :
    (cids.foldl (Totals.add engine results) totals).operatorCounts =
      bumpAll totals.operatorCounts (cids.flatMap fun cid => (replicas engine results cid).1) := by
  rw [← foldl_bumpAll]
  exact (foldl_hom Totals.operatorCounts fun totals cid =>
    (Totals.add_operatorCounts results totals cid).symm).symm

theorem countOf_zero (endpoint : Text) : countOf (Totals.zero engine).operatorCounts endpoint = 0 := by
  rw [countOf]
  cases hl : (Totals.zero engine).operatorCounts.lookup endpoint with
  | none => rfl
  | some count =>
    rcases exists_of_lookup_gather hl with ⟨_, _, hout⟩ | hemp
    · cases hout
      rfl
    · cases hemp

theorem auditClosureWithCache_ok
    (h : auditClosureWithCache E engine round closure sessions none = .ok report) :
    report.totalObjects = (allCids closure).length ∧ report.operatorCounts = ((allCids closure).foldl
        (Totals.add engine (downloads E engine round sessions (allCids closure)))
        (Totals.zero engine)).operatorCounts := by
  simp only [auditClosureWithCache, bind_eq_ok, pure_eq_ok] at h
  obtain ⟨_, _, _, _, rfl⟩ := h
  exact ⟨rfl, rfl⟩

theorem returned_of_counted (h : auditClosureWithCache E engine round closure sessions none = .ok report)
    (hcount : report.operatorCounts.lookup endpoint = some report.totalObjects)
    (hcid : cid ∈ objectIds closure) :
    Returned E round endpoint cid := by
  obtain ⟨ht, hcounts⟩ := auditClosureWithCache_ok h
  have hfull : countOf report.operatorCounts endpoint = (allCids closure).length := by
    rw [countOf, hcount, getD_some, ht]
  rw [hcounts, foldl_operatorCounts, countOf_bumpAll, countOf_zero, Nat.zero_add] at hfull
  have hpre := mem_of_count_eq (fun cid _ => (replicas_downloads (allCids closure) cid).1) hfull
  exact (replicas_downloads (allCids closure) cid).2 endpoint (hpre cid (LocalStore.mem_sortDedup.mpr hcid))

end

section

theorem records_of_discovers {answers : Answers} {set : RecoverySet} {head : Bytes}
    (h : discovers answers set head = true) :
    ∃ discovered, answers.getRecoveryRecords = some discovered ∧ head ∈ discovered ∧
      ∀ record ∈ set.records, record ∈ discovered := by
  rw [discovers] at h
  split at h
  · cases h
  · rename_i discovered hrec
    rw [Bool.and_eq_true, contains_iff_mem, List.all_eq_true] at h
    exact ⟨discovered, hrec, h.1, fun record hrecord => contains_iff_mem.mp (h.2 record hrecord)⟩

section

variable {engine : MaintenanceEngine} {round : Round} {set : RecoverySet} {head : Bytes}

theorem exists_of_outcomeOf (h : outcomeOf (outcomes E engine round set head) endpoint = (true, pk)) :
    ∃ client ∈ engine.clients, client.endpoint = endpoint ∧
    discovers (round.answers endpoint) set head = true ∧
      client.identityKey E (round.answers endpoint).infoOfDiscovery
        (round.answers endpoint).nowOfDiscovery = pk := by
  rw [outcomeOf] at h
  cases hl : (outcomes E engine round set head).lookup endpoint with
  | none =>
    rw [hl] at h
    cases h
  | some outcome =>
    rw [hl, getD_some] at h
    subst h
    rcases exists_of_lookup_gather hl with ⟨client, hclient, hout⟩ | hemp
    · obtain ⟨rfl, hdis⟩ := mk.inj (some.inj hout)
      rw [discovery] at hdis
      split at hdis
      · rename_i hdisc
        exact ⟨client, Joins.mem_of_mem_joined hclient, rfl, hdisc, (mk.inj hdis).2⟩
      · cases hdis
    · cases hemp

theorem recoverable_of_audit {key : Bytes} {sessions : Dict Text Text} {objects : AuditReport}
    (hpinned : ∀ client ∈ engine.clients, client.pinnedKey.isSome = true)
    (haudit : auditClosureWithCache E engine round set.closure sessions none = .ok objects)
    (h : (key, endpoint) ∈ recoverable engine objects (outcomes E engine round set head)) :
    { endpoint := endpoint, pinnedKey := some key : OperatorClient } ∈ engine.clients ∧
      Recoverable E set head round { endpoint := endpoint, pinnedKey := some key } := by
  rcases Quorum.mem_foldl_note h with hn | hcan
  · cases hn
  obtain ⟨endpoint', _, hend⟩ := mem_map.mp hcan
  rw [candidate] at hend
  split at hend
  · rename_i hcou
    rw [Bool.and_eq_true, beq_iff_eq] at hcou
    obtain ⟨key', hkey, he⟩ := map_eq_some_iff.mp hend
    cases he
    obtain ⟨client, hclient, rfl, hdis, hidentity⟩ := exists_of_outcomeOf (Prod.ext hcou.1 hkey)
    obtain ⟨pinned, hpin⟩ := isSome_iff_exists.mp (hpinned client hclient)
    cases identityKey_pinned hpin hidentity
    refine ⟨?_, fun cid hcid => returned_of_counted haudit hcou.2 hcid, records_of_discovers hdis⟩
    rw [← hpin]
    exact hclient
  · cases hend

end

/-- The client of an operator in the inventory, with its key. -/
def Pinned (inventory : MaintenanceInventory) (client : OperatorClient) : Prop :=
  ∃ endpoint key, inventory.operatorKeys.lookup endpoint = some key ∧ client = .newPinned endpoint key

theorem pinned_of_mem_engine {client : OperatorClient} {inventory : MaintenanceInventory}
    {iteration : Quorum.Schedule ((_ : Text) × Bytes)}
    (h : client ∈ (inventory.engine iteration).clients) : Pinned inventory client := by
  obtain ⟨entry, he, rfl⟩ := mem_map.mp (mem_of_mem_sortDedupBy _ h)
  exact ⟨entry.1, entry.2, lookup_eq_some_iff.mpr ((iteration.perm _).mem_iff.mp he), rfl⟩

theorem length_distinctKeys_le (inventory : MaintenanceInventory) (report : RecoveryAudit) :
    (distinctKeys inventory report).length ≤ report.recoverableOperators.length :=
  (dedup_sublist _).length_le.trans (length_filterMap_le _ _)

/-- The rounds of a maintenance run. -/
inductive Makes (E : Externals) (inventory : MaintenanceInventory) (signingKey : Option Bytes)
    (course : Course) : Round → Prop
  | first : Makes E inventory signingKey course course.first
  | second {report : RecoveryAudit} (haudit : auditIn E inventory signingKey course course.first = .ok report)
      (hrepairs : repairs inventory signingKey course report = true) : Makes E inventory signingKey
        course course.second

/-- The closure of the inventory is the one that the authenticated head has signed. -/
def Signed (E : Externals) (inventory : MaintenanceInventory) : Prop :=
  ∃ head cert, selectHead E (inventory.set.records ++ [inventory.head]) inventory.vaultId
    inventory.recoverySigningPk =
      .ok (head, cert) ∧
    fromCanonicalCbor E.decodeHead inventory.head = .ok head ∧
    inventory.set.closure.computeBaseClosureDigest E = .ok head.closureDigest

variable {inventory : MaintenanceInventory} {signingKey : Option Bytes} {course : Course}

theorem signed_of_validate (h : inventory.validate E = .ok ()) : Signed E inventory := by
  simp only [MaintenanceInventory.validate, bind_eq_ok, mapError_eq_ok, ensure_eq_ok, beq_iff_eq,
    Bool.and_eq_true] at h
  obtain ⟨_, _, _, _, _, _, ⟨head, cert⟩, hselect, supplied, hsup, _, rfl, digest, hdig, _, ⟨rfl, _⟩, _⟩ := h
  exact ⟨head, cert, hselect, hsup, hdig⟩

theorem auditAndRepair_ok {report : RecoveryAudit}
    (h : auditAndRepair E inventory signingKey course = .ok report) :
    Signed E inventory ∧ ∃ round, Makes E inventory signingKey course round ∧
      auditIn E inventory signingKey course round = .ok report := by
  simp only [auditAndRepair, bind_eq_ok] at h
  obtain ⟨_, hv, first, hf, h⟩ := h
  refine ⟨signed_of_validate hv, ?_⟩
  split at h
  · rename_i hrep
    obtain ⟨_, _, hsecond⟩ := bind_eq_ok.mp h
    exact ⟨course.second, .second hf hrep, hsecond⟩
  · cases h
    exact ⟨course.first, .first, hf⟩

theorem verdict_renewDue (report : RecoveryAudit) :
    verdict (renewDue inventory signingKey course).1 report = verdict inventory report := by
  rw [renewDue]
  split <;> rfl

theorem runInventoryJob_ok {report : RecoveryAudit}
    (h : (runInventoryJob E inventory signingKey course).1 = .ok report) :
    ∃ audited, auditAndRepair E inventory signingKey course = .ok audited ∧
      report = verdict inventory audited := by
  rw [runInventoryJob] at h
  split at h
  · cases h
  · rename_i audited haud
    refine ⟨audited, haud, ?_⟩
    dsimp only at h
    split at h
    · cases h
    · cases h
    · cases h
      exact verdict_renewDue audited

end

/-- Whatever the operators answer and in whatever order: when a job reports the vault healthy, in
one of its audits the required number of operators with different pinned keys have returned every
object of the signed closure, the head and every record. -/
theorem healthy_is_recoverable (E : Externals) (inventory : MaintenanceInventory) (signingKey : Option Bytes)
    (course : Course) (report : RecoveryAudit)
    (hrun : (runInventoryJob E inventory signingKey course).1 = .ok report)
    (hhealthy : report.healthy = true) :
    Signed E inventory ∧ ∃ round, Makes E inventory signingKey course round ∧
    ∃ operators : List OperatorClient,
      inventory.requiredReplicas ≤ operators.length ∧ (operators.map OperatorClient.pinnedKey).Nodup ∧
        ∀ operator ∈ operators, Pinned inventory operator ∧
        Recoverable E inventory.set inventory.head round operator := by
  obtain ⟨audited, haud, rfl⟩ := runInventoryJob_ok hrun
  obtain ⟨hsig, round, hmakes, haudit⟩ := auditAndRepair_ok haud
  refine ⟨hsig, round, hmakes, ?_⟩
  obtain ⟨objects, hobj, haudit⟩ := bind_eq_ok.mp haudit
  cases haudit
  -- the pairs of key and endpoint that the audit has counted are the clients
  let counted := recoverable (inventory.engine course.iteration) objects
    (outcomes E (inventory.engine course.iteration) round inventory.set inventory.head)
  refine ⟨counted.map fun found => { endpoint := found.2, pinnedKey := some found.1 }, ?_, ?_, ?_⟩
  · have henough := of_decide_eq_true (Bool.and_eq_true_iff.mp hhealthy).1
    have hlisted := length_sortDedupBy_le rank (counted.map snd)
    rw [length_map] at hlisted ⊢
    exact (henough.trans (length_distinctKeys_le inventory _)).trans hlisted
  · have hdis : Quorum.Distinct counted :=
      Quorum.distinct_foldl_note (show Quorum.Distinct [] from nodup_nil) _
    have hkeys := List.Nodup.map (f := some) (fun _ _ => some.inj) hdis
    rw [List.map_map] at hkeys ⊢
    exact hkeys
  · intro operator hope
    obtain ⟨⟨key, endpoint⟩, hf, rfl⟩ := mem_map.mp hope
    have hpinned : ∀ client ∈ (inventory.engine course.iteration).clients, client.pinnedKey.isSome =
      true := by
      intro client hclient
      obtain ⟨_, _, _, rfl⟩ := pinned_of_mem_engine hclient
      rfl
    obtain ⟨hclient, hrec⟩ := recoverable_of_audit hpinned hobj hf
    exact ⟨pinned_of_mem_engine hclient, hrec⟩

namespace Repaired

def closure : RecoveryClosure :=
  { snapshotId := replicate 32 9#8
    snapshotRecordCid := Reference.mix 32 [10#8]
    manifestCid := Reference.mix 32 [11#8]
    envelopeIds := []
    chunkCids := [Reference.mix 32 [12#8]]
    totalBytes := 1 }

def externals : Externals :=
  { neutralExternals with
    sha256 := Reference.mix 32
    ed25519Verify := fun _ _ _ => true
    decodeHead := fun bytes =>
      if bytes = [3#8] then
        some { demoHead with snapshotId := closure.snapshotRecordCid, closureDigest := Reference.mix 32 [] }
      else none }

def keyOf (endpoint : Text) : Bytes := replicate 32 (if endpoint = ['a'] then 1#8 else 2#8)

def inventory : MaintenanceInventory :=
  { set := { closure := closure, locator := replicate 32 4#8, records := [[1#8]] }
    head := [3#8]
    vaultId := demoVault
    recoverySigningPk := demoRoot
    operatorKeys := (AList.insert ['a'] (keyOf ['a']) ∅).insert ['b'] (keyOf ['b'])
    requiredReplicas := 2
    leases := []
    accountId := none
    deviceIdHex := none }

def info (endpoint : Text) : OperatorInfo :=
  { operatorId := endpoint
    operatorSigningPkHex := Hex.encode (keyOf endpoint)
    supportedVersion := 1
    retentionTerms := []
    identitySignatureHex := Hex.encode (replicate 64 0#8)
    identityExpiresAtUtc := 10 }

def holding (objects : List Bytes) (endpoint : Text) : Answers :=
  { infoOfClosure := some (info endpoint)
    nowOfClosure := 0
    nonce := fun _ => []
    challengeObjectPos := fun _ => none
    fetchObjectBytes := fun cid => objects.find? fun bytes => Reference.mix 32 bytes = cid
    getRecoveryRecords := some [[1#8], [3#8]]
    infoOfDiscovery := some (info endpoint)
    nowOfDiscovery := 0 }

def inOrder (α : Type) : Joins α := { order := id, perm := List.Perm.refl, panics := fun _ => false }

def round (answers : Text → Answers) : Round :=
  { answers := answers, keyTasks := inOrder _, probeTasks := inOrder _, discoveryTasks := inOrder _,
    now := 0 }

def course : Course :=
  { iteration := { order := reverse, perm := reverse_perm }
    authenticate := fun _ => some ['t']
    authenticateTasks := inOrder _
    first := round fun endpoint =>
      if endpoint = ['a'] then holding [[10#8], [11#8], [12#8]] endpoint
        else holding [[10#8], [12#8]] endpoint
    repair := .ok ()
    second := round (holding [[10#8], [11#8], [12#8]])
    now := 0
    renewLeases := fun _ => []
    storeInventory := .ok ()
    recordAudit := .ok () }

set_option maxRecDepth 100000 in
theorem healthy_after_repair :
    ((auditIn externals inventory (some []) course course.first).toOption.any fun report =>
        !(verdict inventory report).healthy) = true ∧
      ∃ round, Makes externals inventory (some []) course round ∧ ∃ operators : List OperatorClient,
        2 ≤ operators.length ∧ (operators.map OperatorClient.pinnedKey).Nodup ∧
          ∀ operator ∈ operators, Pinned inventory operator ∧
            Recoverable externals inventory.set inventory.head round operator := by
  have hc : ((runInventoryJob externals inventory (some []) course).1.toOption.any fun report =>
    report.healthy) = true := by
    decide +kernel
  obtain ⟨report, hrun, hhea⟩ := exists_of_any hc
  exact ⟨by decide +kernel, (healthy_is_recoverable externals inventory (some []) course report hrun hhea).2⟩

end Repaired

end CipherVault.Recovery.Maintenance
