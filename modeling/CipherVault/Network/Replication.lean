import CipherVault.Base.Quorum
import CipherVault.Network.Invites
import Mathlib.Data.List.Lex

/-!
# Network.Replication

The replication of a snapshot to a pool, from `crates/storage/src/pool.rs`: one pipeline for each
operator that authenticates (upload, lease, readback, recovery log), all at the same time, and a
loop that takes the outcomes as they come. `Client` holds what an operator answers to its pipeline.
The pipelines share nothing, so that the schedule only says in which order they are done.
-/

namespace CipherVault.Network.Replication

open Crypto Format Quorum List Prod

def jsonChar (c : Char) : Bytes :=
  match c.toNat with
  | 0x08 => ascii "\\b"
  | 0x09 => ascii "\\t"
  | 0x0a => ascii "\\n"
  | 0x0c => ascii "\\f"
  | 0x0d => ascii "\\r"
  | 0x22 => [0x5c#8, 0x22#8]
  | 0x5c => [0x5c#8, 0x5c#8]
  | n => if n < 0x20 then ascii "\\u00" ++ utf8 (Hex.encode [BitVec.ofNat 8 n]) else utf8 [c]

def jsonText (text : Text) : Bytes := [0x22#8] ++ text.flatMap jsonChar ++ [0x22#8]

def jsonNumber (n : Nat) : Bytes := utf8 (Nat.toDigits 10 n)

def jsonTuple (fields : List Bytes) : Bytes := ascii "[" ++ intercalate (ascii ",") fields ++ ascii "]"

structure OperatorInfo where
  (operatorId operatorSigningPkHex : Text)
  supportedVersion : Nat
  (retentionTerms identitySignatureHex : Text)
  identityExpiresAtUtc : Nat

def identityContext : Bytes := ascii "operator_identity"

def OperatorInfo.identitySigningBytes (info : OperatorInfo) : Bytes :=
  jsonTuple [jsonText info.operatorId, jsonText info.operatorSigningPkHex, jsonNumber info.supportedVersion,
    jsonText info.retentionTerms, jsonNumber info.identityExpiresAtUtc]

variable (E : Externals)

def verifiesHex (pk context message : Bytes) (signatureHex : Text) : Bool :=
  match Hex.decode signatureHex with
  | none => false
  | some signature => signature.length == 64 && (verifyWithDomain E pk context message signature).isOk

def OperatorInfo.verifyIdentitySignature (info : OperatorInfo) : Bool :=
  match Hex.decode info.operatorSigningPkHex with
  | none => false
  | some pk => pk.length == 32 && verifiesHex E pk identityContext info.identitySigningBytes
      info.identitySignatureHex

structure LeaseReceipt where
  (leaseId operatorId closureDigestHex : Text)
  (termDays bytes issuedAtUtc expiresAtUtc : Nat)
  signatureHex : Text

def leaseContext : Bytes := ascii "operator_lease"

def LeaseReceipt.signingBytes (receipt : LeaseReceipt) : Bytes :=
  jsonTuple [jsonText receipt.leaseId, jsonText receipt.operatorId, jsonText receipt.closureDigestHex,
    jsonNumber receipt.termDays, jsonNumber receipt.bytes, jsonNumber receipt.issuedAtUtc,
      jsonNumber receipt.expiresAtUtc]

def LeaseReceipt.verify (receipt : LeaseReceipt) (operatorPk : Bytes) : Bool :=
  verifiesHex E operatorPk leaseContext receipt.signingBytes receipt.signatureHex

structure ProofOfStorageReceipt where
  (operatorId cidHex nonceHex proofHex signatureHex : Text)
  sizeBytes : Nat

def posContext : Bytes := ascii "operator_pos"

def ProofOfStorageReceipt.signingBytes (receipt : ProofOfStorageReceipt) : Bytes :=
  utf8 receipt.operatorId ++ ascii ":" ++ utf8 receipt.cidHex ++ ascii ":" ++
    utf8 receipt.nonceHex ++ ascii ":" ++
    utf8 receipt.proofHex ++ ascii ":" ++ leBytes 8 receipt.sizeBytes

/-- `ProofOfStorageReceipt::verify` succeeds. Only letters of ASCII have hex digits as their lower
case. -/
def ProofOfStorageReceipt.verify (receipt : ProofOfStorageReceipt)
    (operatorPk expectedProof : Bytes) : Bool :=
  Hex.lower receipt.proofHex == Hex.lower (Hex.encode expectedProof) &&
    verifiesHex E operatorPk posContext receipt.signingBytes receipt.signatureHex

def computePosProof (cid nonce data : Bytes) : Bytes :=
  E.sha256 (ascii "CIPHERVAULT-POS-V1" ++ cid ++ nonce ++ data)

/-- How the operator takes a record: a rejection is an answer of the server. -/
inductive Append
  | accepted
  | rejected
  | failed
deriving DecidableEq

/-- What an operator answers to the calls of its pipeline, by the position of the object or record,
with the nonces of the client and the clock when the identity is checked. -/
structure Client where
  endpoint : Text
  pinError : Bool
  pinnedKey : Option Bytes
  (requestChallenge redeemSession : Option Text)
  uploadNonce : Nat → Bytes
  uploadChallenge : Nat → Option ProofOfStorageReceipt
  putObject : Nat → Bool
  commitLease : Option LeaseReceipt
  fetchInfo : Option OperatorInfo
  now : Nat
  readbackNonce : Nat → Bytes
  readbackChallenge : Nat → Option ProofOfStorageReceipt
  fetchObjectBytes : Nat → Option Bytes
  appendRecoveryRecord : Nat → Append
  appendHead : Append
  getRecoveryRecords : Option (List Bytes)

variable (client : Client)

namespace Client

def authenticate : Option Text :=
  match client.requestChallenge with
  | none => none
  | some nonceHex => match Hex.decode nonceHex with
    | none => none
    | some _ => client.redeemSession

def getInfo : Option OperatorInfo :=
  if client.pinError then none
  else match client.fetchInfo with
    | none => none
    | some info =>
      if !info.verifyIdentitySignature E || info.identityExpiresAtUtc ≤ client.now then none
      else match client.pinnedKey with
        | none => some info
        | some key => if eqIgnoreAsciiCase info.operatorSigningPkHex (Hex.encode key) then some info else none

def getObject (position : Nat) (cid : Bytes) : Option Bytes :=
  match client.fetchObjectBytes position with
  | none => none
  | some bytes => if E.sha256 bytes ≠ cid then none else some bytes

end Client

structure Request where
  objects : List (Bytes × Bytes)
  closureDigest : Bytes
  (totalBytes termDays : Nat)
  headRecordBytes : Bytes
  recoveryRecords : List Bytes
  objectConcurrency : Nat

variable {α : Type}

def chunks (size : Nat) : Nat → List α → List (List α)
  | 0, _ => []
  | _ + 1, [] => []
  | fuel + 1, items => items.take size :: chunks size fuel (items.drop size)

def everyChunk (concurrency : Nat) (check : α → Bool) (items : List α) : Bool :=
  (chunks (max concurrency 1) items.length items).all fun chunk => chunk.all check

def uploaded (object : (Bytes × Bytes) × Nat) : Bool :=
  let expectedProof := computePosProof E object.1.1 (client.uploadNonce object.2) object.1.2
  let alreadyPresent := match client.uploadChallenge object.2 with
    | some proof => proof.proofHex == Hex.encode expectedProof
    | none => false
  alreadyPresent || client.putObject object.2

def verified (pk : Bytes) (object : (Bytes × Bytes) × Nat) : Bool :=
  let expectedProof := computePosProof E object.1.1 (client.readbackNonce object.2) object.1.2
  match client.readbackChallenge object.2 with
  | some receipt => receipt.verify E pk expectedProof
  | none => match client.getObject E object.2 object.1.1 with
    | some bytes => E.sha256 bytes == object.1.1
    | none => false

def publish (records : List Bytes) : Bool :=
  (range records.length).all fun position => client.appendRecoveryRecord position ≠ .failed

variable (request : Request)

def replicateToSingleOperator (client : Client) : Option (Bytes × LeaseReceipt) :=
  if !everyChunk request.objectConcurrency (uploaded E client) request.objects.zipIdx then none
  else match client.commitLease with
    | none => none
    | some receipt => match client.getInfo E with
      | none => none
      | some info => match Hex.decode info.operatorSigningPkHex with
        | none => none
        | some pk =>
          if pk.length ≠ 32 then none
          else if !receipt.verify E pk || receipt.operatorId ≠ info.operatorId ||
              receipt.closureDigestHex ≠ Hex.encode request.closureDigest || receipt.bytes ≠
                request.totalBytes ||
              receipt.termDays ≠ request.termDays then none
          else if !everyChunk request.objectConcurrency (verified E client pk)
            request.objects.zipIdx then none
          else if !publish client request.recoveryRecords then none
          else if client.appendHead ≠ .accepted then none
          else match client.getRecoveryRecords with
            | none => none
            | some discovered =>
              if !discovered.contains request.headRecordBytes || !request.recoveryRecords.all
                discovered.contains then none
              else some (pk, receipt)

inductive PoolError
  | quorumDeficit (required successful : Nat)

variable (clients : List Client)

def authenticateAll : List (Client × Text) :=
  clients.filterMap fun client => client.authenticate.map fun token => (client, token)

def attempt (session : Client × Text) : Option (Bytes × Text × LeaseReceipt) :=
  (replicateToSingleOperator E request session.1).map fun result => (result.1, session.1.endpoint, result.2)

def sortByOperatorId (receipts : List (Text × LeaseReceipt)) : List (Text × LeaseReceipt) :=
  receipts.insertionSort fun a b => (utf8 a.2.operatorId).map BitVec.toNat ≤
    (utf8 b.2.operatorId).map BitVec.toNat

/-- Uploads to the operators and keeps their receipts, while enough can still come. -/
def replicateAndVerifyInner (schedule : Schedule (Client × Text))
    (required : Nat) : Except PoolError (List (Text × LeaseReceipt)) :=
  let sessions := authenticateAll clients
  if sessions.length < required then .error (.quorumDeficit required sessions.length)
  else
    let outcomes := (schedule.order sessions).map (attempt E request)
    let receipts := sortByOperatorId ((collect required outcomes []).map snd)
    if receipts.length < required then .error (.quorumDeficit required receipts.length) else .ok receipts

def replicateAndVerify (schedule : Schedule (Client × Text)) (required : Nat) :
    Except PoolError (List LeaseReceipt) :=
  (replicateAndVerifyInner E request clients schedule required).map fun receipts => receipts.map snd

/-! ## Concurrency within a pipeline -/

theorem flatten_chunks {size : Nat} (hsize : 0 < size) {fuel : Nat} {items : List α}
    (h : items.length ≤ fuel) :
    (chunks size fuel items).flatten = items := by
  induction fuel generalizing items with
  | zero => rw [length_eq_zero_iff.mp (Nat.le_zero.mp h), chunks, flatten_nil]
  | succ fuel ih =>
    cases items with
    | nil => rfl
    | cons item rest =>
      rw [chunks]
      · have hdrop : ((item :: rest).drop size).length ≤ fuel := by
          rw [length_drop]
          omega
        rw [flatten_cons, ih hdrop, take_append_drop]
      · exact cons_ne_nil _ _

def verifiedKeys : Finset Bytes :=
  keys ((authenticateAll clients).filterMap (attempt E request))

theorem length_sortByOperatorId (receipts : List (Text × LeaseReceipt)) :
    (sortByOperatorId receipts).length = receipts.length :=
  length_insertionSort _ _

section

variable (E : Externals) (request : Request) (clients : List Client)
  (schedule : Schedule (Client × Text)) (required : Nat)

def collected : List (Bytes × Text × LeaseReceipt) :=
  collect required ((schedule.order (authenticateAll clients)).map (attempt E request)) []

theorem collected_counted :
    Counted required (verifiedKeys E request clients) (collected E request clients schedule required) := by
  have hcou := collect_counted required ((schedule.order (authenticateAll clients)).map (attempt E request))
    (show Distinct ([] : List (Bytes × Text × LeaseReceipt)) from nodup_nil)
  rw [schedule.keys_outcomes] at hcou
  exact hcou

theorem card_verifiedKeys_le : (verifiedKeys E request clients).card ≤ (authenticateAll clients).length :=
  (card_keys_le _).trans (length_filterMap_le _ _)

theorem replicateAndVerifyInner_cases :
    ((verifiedKeys E request clients).card < required ∧ ∃ successful < required,
      replicateAndVerifyInner E request clients schedule required =
        .error (.quorumDeficit required successful)) ∨
    (required ≤ (verifiedKeys E request clients).card ∧
      replicateAndVerifyInner E request clients schedule required =
        .ok (sortByOperatorId ((collected E request clients schedule required).map snd))) := by
  have hcou := collected_counted E request clients schedule required
  unfold replicateAndVerifyInner
  dsimp only
  split
  · rename_i hses
    exact .inl ⟨(card_verifiedKeys_le E request clients).trans_lt hses, _, hses, rfl⟩
  · rw [length_sortByOperatorId, length_map]
    split
    · rename_i hfew
      exact .inl ⟨hcou.few hfew, _, hfew, rfl⟩
    · rename_i henough
      exact .inr ⟨hcou.length_iff.mp (Nat.le_of_not_lt henough), rfl⟩

/-- In every order of the pipelines, the replication succeeds exactly when those that would succeed
have the required number of keys, with the receipts of one for each key; the error is otherwise a
deficit. -/
theorem quorum_whatever_the_schedule :
    ((replicateAndVerify E request clients schedule required).isOk = true ↔
      required ≤ (verifiedKeys E request clients).card) ∧
    (∀ receipts, replicateAndVerify E request clients schedule required = .ok receipts →
      ∃ results : List (Bytes × Text × LeaseReceipt), Distinct results ∧
        keys results = verifiedKeys E request clients ∧
        (∀ result ∈ results, ∃ session ∈ authenticateAll clients, attempt E request session = some result) ∧
        receipts.Perm (results.map fun result => result.2.2)) ∧
    (∀ error, replicateAndVerify E request clients schedule required = .error error →
      ∃ successful < required, error = .quorumDeficit required successful) := by
  have hcou := collected_counted E request clients schedule required
  rw [replicateAndVerify]
  rcases replicateAndVerifyInner_cases E request clients schedule required with
    ⟨hfew, successful, hlt, heq⟩ | ⟨henough, heq⟩
  · rw [heq]
    refine ⟨⟨fun h => ?_, fun h => absurd h (Nat.not_le.mpr hfew)⟩, fun receipts h => ?_, fun error h => ?_⟩
    · cases h
    · cases h
    · injection h with herror
      exact ⟨successful, hlt, herror.symm⟩
  · rw [heq]
    refine ⟨⟨fun _ => henough, fun _ => rfl⟩, fun receipts h => ?_, fun error h => ?_⟩
    case refine_2 => cases h
    injection h with hrec
    subst hrec
    refine ⟨collected E request clients schedule required, hcou.distinct,
      hcou.enough (hcou.length_iff.mpr henough), fun result hmem => ?_, ?_⟩
    · rcases mem_collect hmem with hnil | hmem
      · cases hnil
      · obtain ⟨session, hses, hatt⟩ := mem_map.mp hmem
        exact ⟨session, (schedule.perm _).mem_iff.mp hses, hatt⟩
    · have hsrt := (perm_insertionSort _ _ : (sortByOperatorId
        ((collected E request clients schedule required).map snd)).Perm _).map snd
      rw [List.map_map] at hsrt
      exact hsrt

end

end CipherVault.Network.Replication
