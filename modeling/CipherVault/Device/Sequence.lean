import CipherVault.Device.Capture

/-!
# Device.Sequence

A capture that no other process interrupts, as one function (`drive_start`), and what it leaves in
the store.
-/

namespace CipherVault.Device

open Crypto Format Snapshot Store LocalStore

variable (E : Externals) (job : Job) (s : LocalStore)

def authorityOf : Except String (Bytes × Nat) :=
  match job.program with
  | .push => pushAuthority E job s
  | .watch => watchAuthority E s

def readsOf : Except String Reads := do
  let epochKey ← s.getEpochKey s.currentEpoch
  if job.program = .push ∧ s.listTrackedFiles = [] then
    .error "No files are tracked. Track files using 'ciphervault track <path>' before pushing."
  else
    let (signer, generation) ← authorityOf E job s
    return {
      counter := s.deviceCounter
      epoch := s.currentEpoch
      epochKey := epochKey
      tracked := s.listTrackedFiles
      parentIds := parentsOf s
      signer := signer
      generation := generation }

structure Captured where
  output : SnapshotOutput
  set : RecoverySet
  head : HeadRecord

def captureFrom (r : Reads) : Except String (LocalStore × Captured) := do
  let output ← (createSnapshot E job.settings job.tree r.tracked s.metadata.vaultId r.epoch
    r.epochKey r.parentIds
    s.metadata.deviceId (r.counter + 1) r.generation r.signer job.entropy).mapError SnapshotError.message
  let saved ← s.saveSnapshot E output.record output.encryptedManifest output.chunks
  let (prepared, set) ← saved.incrementDeviceCounter.prepareRecoverySet E output.record
    (E.ed25519Public r.signer) r.signer job.ephemeralSk
  let head ← signHead E prepared r output set
  let stored ← prepared.setHead E head
  return (stored, { output := output, set := set, head := head })

/-- A whole capture, without another process between its calls. -/
def capture : Except String (LocalStore × Captured) :=
  readsOf E job s >>= captureFrom E job s

def drive (E : Externals) (job : Job) : Nat → LocalStore × Phase → Except String (LocalStore × Phase)
  | 0, p => .ok p
  | n + 1, (s, phase) => advance E job s phase >>= drive E job n

theorem drive_reads (n : Nat) :
    drive E job (n + 5) (s, .start) = readsOf E job s >>= fun r => drive E job n (s, .ready r) := by
  show (s.getEpochKey s.currentEpoch >>= fun key => _) >>= _ = _
  rw [readsOf]
  cases s.getEpochKey s.currentEpoch with
  | error e => rfl
  | ok key =>
    show advance E job s (.epochKey _) >>= _ = (if _ then _ else _) >>= _
    rw [advance]
    by_cases hemp : job.program = .push ∧ s.listTrackedFiles = []
    · rw [if_pos hemp, if_pos hemp]
      rfl
    · rw [if_neg hemp, if_neg hemp, authorityOf]
      show advance E job s (.tracked _) >>= _ = _
      rw [advance]
      cases job.program with
      | push =>
        show advance E job s (.headRead _) >>= _ = _
        rw [advance]
        cases pushAuthority E job s with
        | error | ok => rfl
      | watch =>
        cases watchAuthority E s with
        | error | ok => rfl

theorem drive_captures (r : Reads) : drive E job 6 (s, .ready r) =
      (captureFrom E job s r).map fun p => (p.1, .stored p.2.output p.2.head) := by
  rw [drive, advance, captureFrom]
  cases (createSnapshot E job.settings job.tree r.tracked s.metadata.vaultId r.epoch r.epochKey r.parentIds
    s.metadata.deviceId (r.counter + 1) r.generation r.signer job.entropy).mapError SnapshotError.message with
  | error e => rfl
  | ok output =>
    simp only [ok_bind, pure_bind]
    rw [drive, advance]
    cases s.saveSnapshot E output.record output.encryptedManifest output.chunks with
    | error e => rfl
    | ok saved =>
      simp only [ok_bind, pure_bind]
      rw [drive, advance, ok_bind, drive, advance]
      cases saved.incrementDeviceCounter.prepareRecoverySet E output.record
        (E.ed25519Public r.signer) r.signer
          job.ephemeralSk with
      | error e => rfl
      | ok p =>
        obtain ⟨prepared, set⟩ := p
        simp only [ok_bind, pure_bind]
        rw [drive, advance]
        cases signHead E prepared r output set with
        | error e => rfl
        | ok head =>
          simp only [ok_bind, pure_bind]
          rw [drive, advance]
          cases prepared.setHead E head with
          | error | ok => rfl

theorem drive_start : drive E job 11 (s, .start) =
      (capture E job s).map fun p => (p.1, .stored p.2.output p.2.head) := by
  rw [drive_reads, capture]
  cases readsOf E job s with
  | error e => rfl
  | ok r => exact drive_captures E job s r

/-- What a successful capture leaves in the store, and what its head says. -/
structure Leaves (E : Externals) (signer : Bytes) (generation : Nat) (s s' : LocalStore)
    (c : Captured) : Prop where
  recordCounter : c.output.record.deviceCounter = s.deviceCounter + 1
  version : c.head.version = protocolVersion
  vault : c.head.vaultId = s.metadata.vaultId
  device : c.head.deviceId = s.metadata.deviceId
  counter : c.head.deviceCounter = s.deviceCounter + 1
  parents : c.head.parentSnapshotIds = parentsOf s
  address : c.head.snapshotId = E.sha256 (E.encode (.snapshot c.output.record))
  fits : (E.encode c.head.unsigned).length ≤ maxRecordSize ∧ (E.encode (.head c.head)).length ≤ maxRecordSize
  signature : c.head.signature = signWithDomain E signer (ascii "head_record") (E.encode c.head.unsigned)
  metadata : s'.metadata = s.metadata
  certificates : s'.certificates = s.certificates
  deviceCounter : s'.deviceCounter = s.deviceCounter + 1
  active : s'.getActiveHead = some c.head
  heads : ∀ row ∈ s'.heads, (∃ old ∈ s.heads, row.head = old.head) ∨ row.head = c.head
  sets : ∀ row ∈ s'.recoverySets, row ∈ s.recoverySets ∨
    ∃ cert, s.validateCaptureAuthorityForKey E (E.ed25519Public signer) generation = .ok cert ∧
      Bootstraps E s.metadata.genesis cert row.2

variable {E : Externals} {job : Job} {s s' : LocalStore} {r : Reads} {head : HeadRecord}

theorem readsOf_eq_ok (h : readsOf E job s = .ok r) :
    authorityOf E job s = .ok (r.signer, r.generation) ∧ r.counter = s.deviceCounter ∧
    r.parentIds = parentsOf s := by
  simp only [readsOf, bind_eq_ok, ite_error_eq_ok, pure_eq_ok] at h
  obtain ⟨_, _, _, ⟨signer, generation⟩, haut, rfl⟩ := h
  exact ⟨haut, rfl, rfl⟩

theorem signHead_eq {output : SnapshotOutput} {set : RecoverySet} (h : signHead E s r output set = .ok head) :
    head.snapshotId = E.sha256 (E.encode (.snapshot output.record)) ∧
      ∃ closureDigest, head = { headOf s r output head.snapshotId closureDigest with
        signature := signWithDomain E r.signer (ascii "head_record") (E.encode head.unsigned) } ∧
      (E.encode head.unsigned).length ≤ maxRecordSize := by
  simp only [signHead, bind_eq_ok, mapError_eq_ok] at h
  obtain ⟨cid, hcid, closureDigest, _, hsign⟩ := h
  rw [SnapshotRecord.computeRecordCid, map_eq_ok] at hcid
  obtain ⟨bytes, hb, rfl⟩ := hcid
  obtain ⟨rfl, _⟩ := toCanonicalCbor_eq_ok hb
  obtain ⟨unsigned, huns, rfl⟩ := HeadRecord.sign_eq_ok hsign
  obtain ⟨rfl, hf⟩ := toCanonicalCbor_eq_ok huns
  exact ⟨rfl, closureDigest, rfl, hf⟩

theorem setHead_heads (h : s.setHead E head = .ok s') :
    ∀ row ∈ s'.heads, (∃ old ∈ s.heads, row.head = old.head) ∨ row.head = head := by
  rw [setHead_eq_ok h]
  intro row hrow
  rcases Table.mem_upsert.mp hrow with ⟨hold, _⟩ | rfl
  · obtain ⟨old, hmem, rfl⟩ := List.mem_map.mp hold
    exact .inl ⟨old, hmem, rfl⟩
  · exact .inr rfl

theorem capture_leaves {c : Captured} (h : capture E job s = .ok (s', c)) :
    ∃ signer generation, authorityOf E job s = .ok (signer, generation) ∧
    Leaves E signer generation s s' c := by
  rw [capture, bind_eq_ok] at h
  obtain ⟨r, hreads, h⟩ := h
  obtain ⟨haut, hcou, hpar⟩ := readsOf_eq_ok hreads
  simp only [captureFrom, bind_eq_ok, mapError_eq_ok, pure_eq_ok, Prod.mk.injEq] at h
  obtain ⟨output, hcreate, saved, hsave, ⟨prepared, set⟩, hpre, head, hsign, stored, hset, rfl, rfl⟩ := h
  obtain ⟨bytes, _, hrec⟩ := SnapshotRecord.sign_eq_ok (createSnapshot_record hcreate)
  have hsets := prepareRecoverySet_bootstraps hpre
  obtain ⟨snapshots, chunks, pending, rfl⟩ := saveSnapshot_frame hsave
  obtain ⟨sets, rfl⟩ := prepareRecoverySet_frame hpre
  obtain ⟨hadd, digest, hh, hf⟩ := signHead_eq hsign
  have hst := setHead_eq_ok hset
  have hhea : (E.encode (.head head)).length ≤ maxRecordSize := by
    simp only [setHead, bind_eq_ok, mapError_eq_ok] at hset
    obtain ⟨encoded, henc, _⟩ := hset
    obtain ⟨rfl, hle⟩ := toCanonicalCbor_eq_ok henc
    exact hle
  have hsetH := setHead_heads hset
  have hact := getActiveHead_setHead hset
  rw [hst] at hsetH hact ⊢
  exact ⟨r.signer, r.generation, haut,
    { recordCounter := by rw [hrec, ← hcou]; rfl
      version := congrArg HeadRecord.version hh
      vault := congrArg HeadRecord.vaultId hh
      device := congrArg HeadRecord.deviceId hh
      counter := (congrArg HeadRecord.deviceCounter hh).trans (congrArg (· + 1) hcou)
      parents := by
        rw [← hpar, congrArg HeadRecord.parentSnapshotIds hh, headOf, hrec]
        rfl
      address := hadd
      fits := ⟨hf, hhea⟩
      signature := congrArg HeadRecord.signature hh
      metadata := rfl
      certificates := rfl
      deviceCounter := rfl
      active := hact
      heads := hsetH
      sets := by
        have hgen : output.record.authorityGeneration = r.generation := by rw [hrec]; rfl
        rw [hgen] at hsets
        exact hsets }⟩

/-! ## What a capture that ends early leaves -/

section

variable {E : Externals} {job : Job} {s t t' : LocalStore} {phase phase' : Phase}

/-- The same vault and certificates. -/
structure SameVault (s t : LocalStore) : Prop where
  metadata : t.metadata = s.metadata
  certificates : t.certificates = s.certificates

section

variable (h : SameVault s t)
include h

theorem certifies_congr : certifies E t = certifies E s := by
  funext publicKey c
  rw [certifies, certifies, h.metadata]

theorem latestGeneration_congr (publicKey : Bytes) :
    t.latestGeneration E publicKey = s.latestGeneration E publicKey := by
  rw [latestGeneration, latestGeneration, certifies_congr h, h.certificates]

theorem validateCaptureAuthorityForKey_congr (publicKey : Bytes) (generation : Nat) :
    t.validateCaptureAuthorityForKey E publicKey generation = s.validateCaptureAuthorityForKey E
      publicKey generation := by
  simp only [validateCaptureAuthorityForKey, certifies_congr h, h.certificates]

theorem latestCaptureAuthorityForKey_congr (publicKey : Bytes) :
    t.latestCaptureAuthorityForKey E publicKey = s.latestCaptureAuthorityForKey E publicKey := by
  simp only [latestCaptureAuthorityForKey, latestGeneration_congr h, validateCaptureAuthorityForKey_congr h]

theorem authorityOf_congr : authorityOf E job t = authorityOf E job s := by
  simp only [authorityOf, pushAuthority, pushSigner, watchAuthority, latestGeneration_congr h,
    validateCaptureAuthorityForKey_congr h, latestCaptureAuthorityForKey_congr h, h.metadata, h.certificates]

end

theorem latest_of_authorityOf {signer : Bytes} {generation : Nat}
    (h : authorityOf E job s = .ok (signer, generation)) :
    s.latestCaptureAuthorityForKey E (E.ed25519Public signer) =
      s.validateCaptureAuthorityForKey E (E.ed25519Public signer) generation := by
  rw [authorityOf] at h
  split at h
  · rw [pushAuthority, bind_eq_ok] at h
    obtain ⟨key, _, h⟩ := h
    split at h
    · cases h
    · rename_i latest hlatest
      simp only [bind_eq_ok, pure_eq_ok, Prod.mk.injEq] at h
      obtain ⟨_, _, rfl, rfl⟩ := h
      rw [latestCaptureAuthorityForKey, hlatest]
  · simp only [watchAuthority, bind_eq_ok, pure_eq_ok, Prod.mk.injEq] at h
    obtain ⟨cert, hc, rfl, rfl⟩ := h
    obtain ⟨_, hv⟩ := latestCaptureAuthorityForKey_eq_ok hc
    rw [hc, hv]

def Phase.hasStored : Phase → Bool
  | .stored _ _ | .ended _ => true
  | _ => false

/-- What a process in this phase has read of the store. -/
def Phase.Knows (E : Externals) (job : Job) (s : LocalStore) : Phase → Prop
  | .headRead _ => job.program = .push
  | .authorityRead r | .ready r => authorityOf E job s = .ok (r.signer, r.generation)
  | .captured r output | .saved r output | .counted r output =>
    authorityOf E job s = .ok (r.signer, r.generation) ∧ output.record.authorityGeneration = r.generation
  | _ => True

/-- What a capture may have done before it stores its head. -/
structure Early (E : Externals) (job : Job) (s t : LocalStore) : Prop extends SameVault s t where
  heads : t.heads = s.heads
  counter : s.deviceCounter ≤ t.deviceCounter
  sets : ∀ row ∈ t.recoverySets, row ∈ s.recoverySets ∨
    ∃ signer generation cert, authorityOf E job s = .ok (signer, generation) ∧
      s.validateCaptureAuthorityForKey E (E.ed25519Public signer) generation = .ok cert ∧
      Bootstraps E s.metadata.genesis cert row.2

theorem early_refl (E : Externals) (job : Job) (s : LocalStore) : Early E job s s where
  metadata := rfl
  certificates := rfl
  heads := rfl
  counter := Nat.le_refl _
  sets _ hrow := .inl hrow

theorem Early.call (h : Early E job s t) (hknows : phase.Knows E job s) (hcall : Call E job t phase t' phase')
    (hphase : phase'.hasStored = false) : Early E job s t' ∧ phase'.Knows E job s := by
  cases hcall with
  | deviceState | epochKey | tracked => exact ⟨h, trivial⟩
  | headRead r hpro => exact ⟨h, hpro⟩
  | authorityRead r signer generation hpro haut =>
    refine ⟨h, ?_⟩
    show authorityOf E job s = _
    rw [← authorityOf_congr h.toSameVault, authorityOf, hpro]
    exact haut
  | pushReady r signer generation haut =>
    refine ⟨h, ?_⟩
    have hpro : job.program = .push := hknows
    show authorityOf E job s = _
    rw [← authorityOf_congr h.toSameVault, authorityOf, hpro]
    exact haut
  | watchReady r => exact ⟨h, hknows⟩
  | captured r output hcreate =>
    obtain ⟨_, _, hrec⟩ := SnapshotRecord.sign_eq_ok (createSnapshot_record hcreate)
    exact ⟨h, hknows, by rw [hrec]; rfl⟩
  | saved r output t' hsave =>
    obtain ⟨_, _, _, rfl⟩ := saveSnapshot_frame hsave
    exact ⟨{ h with }, hknows⟩
  | counted r output => exact ⟨{ h with counter := Nat.le_succ_of_le h.counter }, hknows⟩
  | prepared r output t' set hpre =>
    have hsets := prepareRecoverySet_bootstraps hpre
    obtain ⟨haut, hgen⟩ := hknows
    rw [hgen, h.metadata] at hsets
    obtain ⟨_, rfl⟩ := prepareRecoverySet_frame hpre
    refine ⟨{ h with sets := fun row hrow => ?_ }, trivial⟩
    rcases hsets row hrow with hold | ⟨cert, hc, hboot⟩
    · exact h.sets row hold
    · rw [validateCaptureAuthorityForKey_congr h.toSameVault] at hc
      exact .inr ⟨r.signer, r.generation, cert, haut, hc, hboot⟩
  | signed => exact ⟨h, trivial⟩
  | stored | ended => cases hphase

theorem hasStored_of_call (hcall : Call E job t phase t' phase') (hphase : phase'.hasStored = false) :
    phase.hasStored = false := by
  cases hcall with
  | ended => cases hphase
  | _ => rfl

variable {n : Nat}

theorem drive_hasStored (hdrive : drive E job n (t, phase) = .ok (t', phase'))
    (hphase : phase'.hasStored = false) : phase.hasStored = false := by
  induction n generalizing t phase with
  | zero => cases hdrive; exact hphase
  | succ n ih =>
    obtain ⟨⟨u, next⟩, hcall, hr⟩ := bind_eq_ok.mp hdrive
    exact hasStored_of_call (call_of_advance hcall) (ih hr)

theorem Early.drive (h : Early E job s t) (hknows : phase.Knows E job s)
    (hdrive : drive E job n (t, phase) = .ok (t', phase')) (hphase : phase'.hasStored = false) :
    Early E job s t' := by
  induction n generalizing t phase with
  | zero => cases hdrive; exact h
  | succ n ih =>
    obtain ⟨⟨u, next⟩, hcall, hr⟩ := bind_eq_ok.mp hdrive
    obtain ⟨hearly, hn⟩ := h.call hknows (call_of_advance hcall) (drive_hasStored hr hphase)
    exact ih hearly hn hr

end

end CipherVault.Device
