import CipherVault.Device.Sequence
import CipherVault.Network.Operator
import CipherVault.Trust.Line

/-!
# Network.Federation

One certified device and its operators: captures one after the other, and the publication of any of
them to any operator, at any time and any number of times, each cut off after any number of
messages.
-/

namespace CipherVault.Network

open Crypto Format Snapshot Store Device Trust List Nat Function LocalStore

/-- A device and its operators. -/
structure Federation where
  store : LocalStore
  operators : Nat → Operator
  captures : List Device.Captured

inductive Action where
  | capture (job : Job)
  /-- A capture that fails or is killed before its head is stored. -/
  | abandon (job : Job) (calls : Nat)
  | track (path : Text) (fileId : Bytes)
  /-- A replication of a stored snapshot to an operator: of the push itself, of the watcher, or a
  retry. -/
  | publish (recordCid : Bytes) (operator : Nat) (admits : Bytes → Bool) (sent : Nat)
  | settle (snapshotId : Bytes) (result : Except String Unit)

/-- What a replication sends of a snapshot: the retained inventory, its objects and the retained
head. -/
def storedUpload (E : Externals) (s : LocalStore) (recordCid : Bytes) : Except String Upload := do
  let set ← s.getRecoverySet recordCid
  let objects ← s.recoveryObjects E set
  match s.getHeadForSnapshot recordCid with
  | none => .error "Pending snapshot has no retained signed head"
  | some head =>
    let bytes ← (toCanonicalCbor E (.head head)).mapError FormatError.message
    return { objects := objects, records := set.records, head := bytes }

def sessionKey (E : Externals) (s : LocalStore) : Bytes := E.ed25519Public s.metadata.deviceSk

def act (E : Externals) (limits : Limits) (signer : Bytes) (f : Federation) : Action → Option Federation
  | .capture job =>
    match authorityOf E job f.store with
    | .error _ => none
    | .ok (key, _) =>
      if key ≠ signer then none
      else match capture E job f.store with
        | .error _ => none
        | .ok (store, captured) => some { f with store := store, captures := f.captures ++ [captured] }
  | .abandon job calls =>
    match authorityOf E job f.store with
    | .error _ => none
    | .ok (key, _) =>
      if key ≠ signer then none
      else match drive E job calls (f.store, .start) with
        | .error _ => none
        | .ok (store, phase) => if phase.hasStored then none else some { f with store := store }
  | .track path fileId => some { f with store := f.store.trackFile path fileId }
  | .publish recordCid operator admits sent =>
    match storedUpload E f.store recordCid with
    | .error _ => none
    | .ok upload =>
      some { f with
        operators := update f.operators operator
          (replicateToSingleOperator E limits (some (sessionKey E f.store)) admits upload sent
            (f.operators operator)) }
  | .settle snapshotId (.ok _) => some { f with store := f.store.markUploadCompleted snapshotId }
  | .settle snapshotId (.error error) => some { f with store := f.store.recordUploadFailure snapshotId error }

def run (E : Externals) (limits : Limits) (signer : Bytes) : List Action → Federation → Option Federation
  | [], f => some f
  | a :: rest, f =>
    match act E limits signer f a with
    | none => none
    | some f' => run E limits signer rest f'

def boot (s : LocalStore) : Federation := { store := s, operators := fun _ => emptyOperator, captures := [] }

/-- No capture was made yet. -/
structure Fresh (s : LocalStore) : Prop where
  heads : s.heads = []
  sets : s.recoverySets = []

def Federation.heads (f : Federation) : List HeadRecord := f.captures.map Device.Captured.head

def Federation.recordsAt (f : Federation) (survivors : List Nat) : List Bytes :=
  queryRecoveryRecords (survivors.map fun o => (f.operators o).log)

/-- A surviving operator has the head. -/
def Federation.Held (E : Externals) (f : Federation) (survivors : List Nat) (head : HeadRecord) : Prop :=
  E.encode (.head head) ∈ f.recordsAt survivors

section

variable {E : Externals} {genesis : GenesisRecord} {cert : DeviceCertificate} {heads heads' : List HeadRecord}
  {log : List Bytes} {r : Bytes}

/-- The records that the device has made. -/
inductive Known (E : Externals) (genesis : GenesisRecord) (cert : DeviceCertificate)
    (heads : List HeadRecord) :
    Bytes → Prop
  | genesis : Known E genesis cert heads (E.encode (.genesis genesis))
  | certificate : Known E genesis cert heads (E.encode (.certificate cert))
  | envelope (envelope : EpochEnvelope) : Known E genesis cert heads (E.encode (.envelope envelope))
  | head (head : HeadRecord) (hmem : head ∈ heads) : Known E genesis cert heads (E.encode (.head head))

theorem Known.decodeGenesis {g : GenesisRecord} (hE : Lawful E) (h : Known E genesis cert heads r)
    (hdecode : E.decodeGenesis r = some g) : g = genesis := by
  cases h with
  | genesis => rw [hE.decodeGenesis] at hdecode; cases hdecode; rfl
  | certificate | envelope | head => rw [hE.decodeGenesis] at hdecode; cases hdecode

theorem Known.decodeCertificate {c : DeviceCertificate} (hE : Lawful E) (h : Known E genesis cert heads r)
    (hdecode : E.decodeCertificate r = some c) : c = cert ∧ r = E.encode (.certificate cert) := by
  cases h with
  | certificate => rw [hE.decodeCertificate] at hdecode; cases hdecode; exact ⟨rfl, rfl⟩
  | genesis | envelope | head => rw [hE.decodeCertificate] at hdecode; cases hdecode

theorem Known.decodeHead (hE : Lawful E) (h : Known E genesis cert heads r) {head : HeadRecord}
    (hdecode : E.decodeHead r = some head) : head ∈ heads ∧ r = E.encode (.head head) := by
  cases h with
  | head known hmem => rw [hE.decodeHead] at hdecode; cases hdecode; exact ⟨hmem, rfl⟩
  | genesis | certificate | envelope => rw [hE.decodeHead] at hdecode; cases hdecode

theorem Known.mono (h : Known E genesis cert heads r) (hsub : heads ⊆ heads') :
    Known E genesis cert heads' r := by
  cases h with
  | genesis => exact .genesis
  | certificate => exact .certificate
  | envelope e => exact .envelope e
  | head known hmem => exact .head known (hsub hmem)

/-- A log of records of the device in which every head has the certificate, or the key of the
genesis, to vouch for it. -/
structure LogOk (E : Externals) (genesis : GenesisRecord) (cert : DeviceCertificate) (heads : List HeadRecord)
    (log : List Bytes) : Prop where
  known : ∀ r ∈ log, Known E genesis cert heads r
  fits : ∀ r ∈ log, r.length ≤ maxRecordSize
  vouched : ∀ head, E.encode (.head head) ∈ log → E.encode (.certificate cert) ∈ log ∨
    (head.verify E genesis.recoverySigningPk).isOk = true

theorem logOk_nil : LogOk E genesis cert heads [] where
  known r hr := by cases hr
  fits r hr := by cases hr
  vouched head hh := by cases hh

theorem LogOk.mono (h : LogOk E genesis cert heads log) (hsub : heads ⊆ heads') :
    LogOk E genesis cert heads' log where
  known r hr := (h.known r hr).mono hsub
  fits := h.fits
  vouched := h.vouched

theorem LogOk.signs (hE : Lawful E) (h : LogOk E genesis cert heads log)
    {verify : Bytes → Except FormatError Unit}
    (hsigns : (scanLog E log).signs verify = true) :
    E.encode (.certificate cert) ∈ log ∨ (verify genesis.recoverySigningPk).isOk = true := by
  have hscan := scannedFrom_scanLog E log
  rw [Authority.signs, Bool.or_eq_true, any_eq_true, Option.any_eq_true] at hsigns
  rcases hsigns with ⟨pk, hpk, _⟩ | ⟨pk, hpk, hok⟩
  · obtain ⟨r, hr, root, hkey⟩ := hscan.devices pk hpk
    obtain ⟨c, hdec⟩ := certifiedKey_eq_some hkey
    obtain ⟨_, rfl⟩ := (h.known r hr).decodeCertificate hE hdec
    exact .inl hr
  · obtain ⟨r, hr, hreg⟩ := hscan.registered pk hpk
    obtain ⟨g, hdec, rfl⟩ := registers_eq_some hreg
    rw [(h.known r hr).decodeGenesis hE hdec] at hok
    exact .inr hok

variable {caller : Option Bytes}

theorem LogOk.append {limits : Limits} {log' : List Bytes} (hE : Lawful E)
    (h : LogOk E genesis cert heads log) (hr : Known E genesis cert heads r)
    (hfits : r.length ≤ maxRecordSize)
    (happend : appendAuthorizedRecoveryRecord E limits log r caller = .ok log') :
    LogOk E genesis cert heads log' := by
  have hlog := append_eq_ok happend
  refine ⟨fun x hx => ?_, fun x hx => ?_, fun head hh => ?_⟩
  · rw [hlog, mem_append, mem_singleton] at hx
    rcases hx with hold | rfl
    · exact h.known x hold
    · exact hr
  · rw [hlog, mem_append, mem_singleton] at hx
    rcases hx with hold | rfl
    · exact h.fits x hold
    · exact hfits
  · have hvou : E.encode (.certificate cert) ∈ log ∨
      (head.verify E genesis.recoverySigningPk).isOk = true := by
      rw [hlog, mem_append, mem_singleton] at hh
      rcases hh with hold | rfl
      · exact h.vouched head hold
      · exact h.signs hE (appended_head hE happend)
    rcases hvou with hc | hroot
    · rw [hlog]
      exact .inl (mem_append_left _ hc)
    · exact .inr hroot

theorem LogOk.appendAll {limits : Limits} (hE : Lawful E) {admits : Bytes → Bool}
    {records : List Bytes} (hrecords : ∀ r ∈ records, Known E genesis cert heads r ∧ r.length ≤ maxRecordSize)
    (h : LogOk E genesis cert heads log) :
    LogOk E genesis cert heads (records.foldl (appendOrSkip E limits caller admits) log) := by
  induction records generalizing log with
  | nil => exact h
  | cons r rest ih =>
    refine ih (fun x hx => hrecords x (mem_cons_of_mem r hx)) ?_
    rw [appendOrSkip]
    split
    · split
      · rename_i log' happend
        obtain ⟨hr, hf⟩ := hrecords r mem_cons_self
        exact h.append hE hr hf happend
      · exact h
    · exact h

end

section

variable {E : Externals} {limits : Limits} {signer : Bytes} {s : LocalStore} {cert : DeviceCertificate}
  {f f' : Federation}

/-- A capture whose head `select_head` takes under the certificate of the signing key. -/
structure Signed (E : Externals) (signer : Bytes) (metadata : VaultMetadata) (c : Device.Captured) :
    Prop where
  recordCounter : c.output.record.deviceCounter = c.head.deviceCounter
  version : c.head.version = protocolVersion
  vault : c.head.vaultId = metadata.vaultId
  device : c.head.deviceId = metadata.deviceId
  address : c.head.snapshotId = E.sha256 (E.encode (.snapshot c.output.record))
  fits : (E.encode c.head.unsigned).length ≤ maxRecordSize ∧ (E.encode (.head c.head)).length ≤ maxRecordSize
  signature : c.head.signature = signWithDomain E signer (ascii "head_record") (E.encode c.head.unsigned)

/-- What holds of the device and its operators after every action. -/
structure Inv (E : Externals) (signer : Bytes) (s : LocalStore) (cert : DeviceCertificate)
    (f : Federation) : Prop where
  vault : SameVault s f.store
  signed : ∀ c ∈ f.captures, Signed E signer s.metadata c
  linked : Linked f.heads
  active : f.store.getActiveHead = f.heads.getLast?
  increasing : (f.heads.map HeadRecord.deviceCounter).Pairwise (· < ·)
  bound : ∀ h ∈ f.heads, h.deviceCounter ≤ f.store.deviceCounter
  retained : ∀ row ∈ f.store.heads, row.head ∈ f.heads
  sets : ∀ row ∈ f.store.recoverySets, Bootstraps E s.metadata.genesis cert row.2
  logs : ∀ o, LogOk E s.metadata.genesis cert f.heads (f.operators o).log

theorem inv_boot (hfresh : Fresh s) : Inv E signer s cert (boot s) where
  vault := ⟨rfl, rfl⟩
  signed c hc := by cases hc
  linked := linked_nil
  active := by
    show s.getActiveHead = none
    rw [getActiveHead, hfresh.heads]
    rfl
  increasing := .nil
  bound h hh := by cases hh
  retained row hrow := by
    rw [boot, hfresh.heads] at hrow
    cases hrow
  sets row hrow := by
    rw [boot, hfresh.sets] at hrow
    cases hrow
  logs _ := logOk_nil

theorem parentsOf_eq (s : LocalStore) : parentsOf s = (s.getActiveHead.map HeadRecord.snapshotId).toList := by
  rw [parentsOf]
  cases s.getActiveHead with
  | none => rfl
  | some head => rfl

variable {job : Job} {generation : Nat} {survivors : List Nat} {head : HeadRecord}

variable {c : DeviceCertificate} {store : LocalStore} {recordCid : Bytes} {upload : Upload}

section

variable (h : Inv E signer s cert f)
include h

theorem Inv.bootstraps (hcert : s.latestCaptureAuthorityForKey E (E.ed25519Public signer) = .ok cert)
    (hauthority : authorityOf E job f.store = .ok (signer, generation))
    (hvalid : f.store.validateCaptureAuthorityForKey E (E.ed25519Public signer) generation =
      .ok c) : c = cert := by
  rw [← latest_of_authorityOf hauthority, latestCaptureAuthorityForKey_congr h.vault, hcert] at hvalid
  cases hvalid
  rfl

theorem Inv.capture (hcert : s.latestCaptureAuthorityForKey E (E.ed25519Public signer) = .ok cert)
    {c : Device.Captured}
    (hauthority : authorityOf E job f.store = .ok (signer, generation))
    (hleaves : Leaves E signer generation f.store store c) :
    Inv E signer s cert { f with store := store, captures := f.captures ++ [c] } := by
  have hheads : Federation.heads { f with store := store, captures := f.captures ++ [c] } =
    f.heads ++ [c.head] := by
    rw [Federation.heads, map_append]
    rfl
  refine {
    vault := ⟨hleaves.metadata.trans h.vault.metadata, hleaves.certificates.trans h.vault.certificates⟩
    signed := fun x hx => ?_
    linked := ?_
    active := ?_
    increasing := ?_
    bound := fun x hx => ?_
    retained := fun row hrow => ?_
    sets := fun row hrow => ?_
    logs := fun o => ?_ }
  · rcases mem_append.mp hx with hold | hnew
    · exact h.signed x hold
    · rw [mem_singleton.mp hnew]
      exact {
        recordCounter := hleaves.recordCounter.trans hleaves.counter.symm
        version := hleaves.version
        vault := by rw [hleaves.vault, h.vault.metadata]
        device := by rw [hleaves.device, h.vault.metadata]
        address := hleaves.address
        fits := hleaves.fits
        signature := hleaves.signature }
  · rw [hheads]
    exact h.linked.append (by rw [hleaves.parents, parentsOf_eq, h.active])
  · rw [hheads, getLast?_concat]
    exact hleaves.active
  · rw [hheads, map_append, pairwise_append]
    refine ⟨h.increasing, pairwise_singleton _ _, fun a ha b hb => ?_⟩
    obtain ⟨x, hx, rfl⟩ := mem_map.mp ha
    rw [map_singleton, mem_singleton] at hb
    rw [hb, hleaves.counter]
    exact lt_succ_of_le (h.bound x hx)
  · rw [hheads, mem_append, mem_singleton] at hx
    rw [hleaves.deviceCounter]
    rcases hx with hold | rfl
    · exact le_succ_of_le (h.bound x hold)
    · exact le_of_eq hleaves.counter
  · rw [hheads, mem_append, mem_singleton]
    rcases hleaves.heads row hrow with ⟨old, hold, heq⟩ | heq
    · rw [heq]
      exact .inl (h.retained old hold)
    · exact .inr heq
  · rcases hleaves.sets row hrow with hold | ⟨c', hv, hboot⟩
    · exact h.sets row hold
    · rw [h.bootstraps hcert hauthority hv, h.vault.metadata] at hboot
      exact hboot
  · rw [hheads]
    exact (h.logs o).mono (subset_append_left _ _)

theorem Inv.early (hcert : s.latestCaptureAuthorityForKey E (E.ed25519Public signer) = .ok cert)
    (hauthority : authorityOf E job f.store = .ok (signer, generation)) (hearly : Early E job f.store store) :
    Inv E signer s cert { f with store := store } :=
  { h with
    vault := ⟨hearly.metadata.trans h.vault.metadata, hearly.certificates.trans h.vault.certificates⟩
    active := by
      show store.getActiveHead = f.heads.getLast?
      rw [← h.active, getActiveHead, getActiveHead, hearly.heads]
    bound := fun x hx => le_trans (h.bound x hx) hearly.counter
    retained := fun row hrow => h.retained row (hearly.heads ▸ hrow)
    sets := fun row hrow => by
      rcases hearly.sets row hrow with hold | ⟨key, gen, c', hkey, hv, hboot⟩
      · exact h.sets row hold
      · rw [hauthority] at hkey
        cases hkey
        rw [h.bootstraps hcert hauthority hv, h.vault.metadata] at hboot
        exact hboot }

theorem Inv.known (hupload : storedUpload E f.store recordCid = .ok upload) :
    ∀ r ∈ upload.records ++ [upload.head], Known E s.metadata.genesis cert f.heads r ∧
    r.length ≤ maxRecordSize := by
  simp only [storedUpload, bind_eq_ok] at hupload
  obtain ⟨set, hset, _, _, hupload⟩ := hupload
  split at hupload
  · cases hupload
  · rename_i head hh
    simp only [bind_eq_ok, mapError_eq_ok, pure_eq_ok] at hupload
    obtain ⟨bytes, hb, rfl⟩ := hupload
    have hmem : head ∈ f.heads := by
      obtain ⟨row, hrow, rfl⟩ := Option.map_eq_some_iff.mp hh
      exact h.retained row (Table.mem_of_find hrow)
    have hboot : Bootstraps E s.metadata.genesis cert set := by
      rw [getRecoverySet] at hset
      split at hset
      · rename_i row hrow
        cases hset
        exact h.sets row (Table.mem_of_find hrow)
      · cases hset
    obtain ⟨⟨envelope, hrec⟩, hf⟩ := hboot
    obtain ⟨rfl, hhea⟩ := toCanonicalCbor_eq_ok hb
    intro r hr
    rcases mem_append.mp hr with hrecord | hla
    · refine ⟨?_, hf r hrecord⟩
      rw [hrec] at hrecord
      simp only [mem_cons, not_mem_nil, or_false] at hrecord
      rcases hrecord with rfl | rfl | rfl
      · exact .genesis
      · exact .certificate
      · exact .envelope envelope
    · rw [mem_singleton.mp hla]
      exact ⟨.head head hmem, hhea⟩

end

theorem Inv.publish (hE : Lawful E) (h : Inv E signer s cert f)
    (hupload : storedUpload E f.store recordCid = .ok upload) (operator : Nat) (caller : Option Bytes)
    (admits : Bytes → Bool) (sent : Nat) :
    Inv E signer s cert { f with
      operators := update f.operators operator
        (replicateToSingleOperator E limits caller admits upload sent (f.operators operator)) } :=
  { h with
    logs := fun o => by
      by_cases ho : o = operator
      · subst ho
        show LogOk E _ cert f.heads (update f.operators o _ o).log
        rw [update_self]
        exact (h.logs o).appendAll hE fun r hr => h.known hupload r (mem_of_mem_take hr)
      · show LogOk E _ cert f.heads (update f.operators operator _ o).log
        rw [update_of_ne ho]
        exact h.logs o }

theorem Inv.act {a : Action} (hE : Lawful E)
    (hcert : s.latestCaptureAuthorityForKey E (E.ed25519Public signer) = .ok cert)
    (h : Inv E signer s cert f) (hact : act E limits signer f a = some f') : Inv E signer s cert f' := by
  cases a with
  | capture job =>
    simp only [Network.act] at hact
    split at hact
    · cases hact
    · rename_i key generation haut
      split at hact
      · cases hact
      · rename_i hkey
        rw [ne_eq, not_not] at hkey
        subst hkey
        split at hact
        · cases hact
        · rename_i store c hcap
          cases hact
          obtain ⟨key', generation', haut', hleaves⟩ := capture_leaves hcap
          rw [haut] at haut'
          cases haut'
          exact h.capture hcert haut hleaves
  | abandon job calls =>
    simp only [Network.act] at hact
    split at hact
    · cases hact
    · rename_i key generation haut
      split at hact
      · cases hact
      · rename_i hkey
        rw [ne_eq, not_not] at hkey
        subst hkey
        split at hact
        · cases hact
        · rename_i store phase hdrive
          split at hact
          · cases hact
          · rename_i hphase
            cases hact
            have hknows : Phase.start.Knows E job f.store := trivial
            rw [Bool.not_eq_true] at hphase
            exact h.early hcert haut ((early_refl E job f.store).drive hknows hdrive hphase)
  | track path fileId =>
    cases hact
    exact { h with vault := ⟨h.vault.metadata, h.vault.certificates⟩ }
  | publish recordCid operator admits sent =>
    simp only [Network.act] at hact
    split at hact
    · cases hact
    · rename_i upload hupload
      cases hact
      exact h.publish hE hupload operator _ admits sent
  | settle snapshotId result =>
    cases result with
    | ok _ =>
      cases hact
      exact { h with vault := ⟨h.vault.metadata, h.vault.certificates⟩ }
    | error error =>
      cases hact
      exact { h with vault := ⟨h.vault.metadata, h.vault.certificates⟩ }

variable {actions : List Action}

theorem Inv.run (hE : Lawful E) (hcert : s.latestCaptureAuthorityForKey E (E.ed25519Public signer) = .ok cert)
    (h : Inv E signer s cert f) (hrun : run E limits signer actions f = some f') :
    Inv E signer s cert f' := by
  induction actions generalizing f with
  | nil =>
    cases hrun
    exact h
  | cons a rest ih =>
    rw [Network.run] at hrun
    split at hrun
    · cases hrun
    · rename_i next hact
      exact ih (h.act hE hcert hact) hrun

/-! ## Recovery from some of the operators -/

/-- SHA-256 tells the snapshot records of the run apart. -/
def Federation.NoCollision (E : Externals) (f : Federation) : Prop :=
  ∀ a ∈ f.captures, ∀ b ∈ f.captures, E.sha256 (E.encode (.snapshot a.output.record)) =
    E.sha256 (E.encode (.snapshot b.output.record)) → a.output.record = b.output.record

theorem Inv.line (h : Inv E signer s cert f) (hdigest : f.NoCollision E) : Line f.heads where
  toLinked := h.linked
  counters := h.increasing.imp ne_of_lt
  ids := by
    have hcou : (f.heads.map HeadRecord.deviceCounter).Nodup := h.increasing.imp ne_of_lt
    rw [Federation.heads, List.map_map] at hcou ⊢
    refine (nodup_map_iff_inj_on (List.Nodup.of_map _ hcou)).mpr fun a ha b hb heq => ?_
    refine inj_on_of_nodup_map hcou ha hb ?_
    have hrec : a.output.record = b.output.record := by
      refine hdigest a ha b hb ?_
      rw [← (h.signed a ha).address, ← (h.signed b hb).address]
      exact heq
    show a.head.deviceCounter = b.head.deviceCounter
    rw [← (h.signed a ha).recordCounter, ← (h.signed b hb).recordCounter, hrec]

theorem Inv.mem_recordsAt {r : Bytes} (h : Inv E signer s cert f) (hr : r ∈ f.recordsAt survivors) :
    Known E s.metadata.genesis cert f.heads r ∧ r.length ≤ maxRecordSize := by
  obtain ⟨log, hlog, hr⟩ := mem_queryRecoveryRecords.mp hr
  obtain ⟨o, _, rfl⟩ := mem_map.mp hlog
  exact ⟨(h.logs o).known r hr, (h.logs o).fits r hr⟩

theorem Inv.certificate_mem (h : Inv E signer s cert f) (hheld : f.Held E survivors head)
    (hforeign : (head.verify E s.metadata.genesis.recoverySigningPk).isOk = false) :
    E.encode (.certificate cert) ∈ f.recordsAt survivors := by
  obtain ⟨log, hlog, hh⟩ := mem_queryRecoveryRecords.mp hheld
  refine mem_queryRecoveryRecords.mpr ⟨log, hlog, ?_⟩
  obtain ⟨o, _, rfl⟩ := mem_map.mp hlog
  rcases (h.logs o).vouched head hh with hc | hroot
  · exact hc
  · rw [hforeign] at hroot
    cases hroot

theorem trusted_of_latest (hE : Lawful E)
    (hcert : s.latestCaptureAuthorityForKey E (E.ed25519Public signer) = .ok cert) :
    cert.deviceSigningPk = E.ed25519Public signer ∧
      trusted E s.metadata.vaultId s.metadata.recoverySigningPk cert = true := by
  obtain ⟨hver, _, hcer⟩ :=
    validateCaptureAuthorityForKey_eq_ok (latestCaptureAuthorityForKey_eq_ok hcert).2
  simp only [certifies, Bool.and_eq_true, beq_iff_eq] at hcer
  obtain ⟨⟨⟨hv, hkey⟩, hper⟩, hverify⟩ := hcer
  refine ⟨hkey, ?_⟩
  simp only [trusted, Bool.and_eq_true, beq_iff_eq]
  exact ⟨⟨⟨⟨hver, hv⟩, by rw [hkey]; exact hE.public_length signer⟩, hper⟩, hverify⟩

theorem Inv.certified_iff (hE : Lawful E)
    (hcert : s.latestCaptureAuthorityForKey E (E.ed25519Public signer) = .ok cert)
    (h : Inv E signer s cert f) :
    Certified E (f.recordsAt survivors) s.metadata.vaultId s.metadata.recoverySigningPk c ↔
      E.encode (.certificate cert) ∈ f.recordsAt survivors ∧ c = cert := by
  constructor
  · intro ⟨r, hr, hdec, _⟩
    obtain ⟨rfl, rfl⟩ := (h.mem_recordsAt hr).1.decodeCertificate hE (fromCanonicalCbor_eq_ok hdec)
    exact ⟨hr, rfl⟩
  · rintro ⟨hr, rfl⟩
    exact ⟨_, hr, fromCanonicalCbor_ok (h.mem_recordsAt hr).2 (hE.decodeCertificate _),
      (trusted_of_latest hE hcert).2⟩

theorem Inv.wellFormed (hE : Lawful E) (h : Inv E signer s cert f) (hhead : head ∈ f.heads) :
    Trust.wellFormed s.metadata.vaultId head = true := by
  have hids : ∀ x ∈ f.heads, x.snapshotId.length = 32 := by
    intro x hx
    obtain ⟨c, hc, rfl⟩ := mem_map.mp hx
    rw [(h.signed c hc).address]
    exact hE.digest_length _
  have hpar : ∀ parent ∈ head.parentSnapshotIds, parent.length = 32 := by
    intro parent hp
    obtain ⟨i, hi⟩ := mem_iff_getElem?.mp hhead
    cases i with
    | zero =>
      rw [h.linked.first head hi] at hp
      cases hp
    | succ i =>
      have hlt : i < f.heads.length := lt_of_succ_lt (List.getElem?_eq_some_iff.mp hi).1
      rw [h.linked.next i _ _ (getElem?_eq_getElem hlt) hi, mem_singleton] at hp
      rw [hp]
      exact hids _ (getElem_mem hlt)
  have hid := hids head hhead
  obtain ⟨c, hc, rfl⟩ := mem_map.mp hhead
  simp only [Trust.wellFormed, Bool.and_eq_true, beq_iff_eq, all_eq_true]
  exact ⟨⟨⟨(h.signed c hc).version, (h.signed c hc).vault⟩, hid⟩, hpar⟩

theorem Inv.verifiesUnder (hE : Lawful E)
    (hcert : s.latestCaptureAuthorityForKey E (E.ed25519Public signer) = .ok cert)
    (h : Inv E signer s cert f) (hhead : head ∈ f.heads) : VerifiesUnder E head cert := by
  obtain ⟨c, hc, rfl⟩ := mem_map.mp hhead
  have hsig := h.signed c hc
  rw [VerifiesUnder, Bool.and_eq_true, beq_iff_eq, hsig.device, (trusted_of_latest hE hcert).1,
    HeadRecord.verify, hE.verifyRecord_signed hsig.fits.1 hsig.signature]
  exact ⟨s.metadata.device_length, rfl⟩

/-- `select_head` authenticates the heads that are held, all under the certificate of the device. -/
theorem Inv.shows (hE : Lawful E)
    (hcert : s.latestCaptureAuthorityForKey E (E.ed25519Public signer) = .ok cert) (h : Inv E signer s cert f)
    (hforeign : ∀ head ∈ f.heads, (head.verify E s.metadata.genesis.recoverySigningPk).isOk = false)
    (survivors : List Nat) : Shows f.heads (f.Held E survivors) cert
      (authenticatedHeads E (f.recordsAt survivors) s.metadata.vaultId s.metadata.recoverySigningPk) := by
  intro p
  rw [mem_authenticatedHeads]
  constructor
  · intro ⟨⟨r, hr, hdec⟩, _, hpair⟩
    obtain ⟨hmem, rfl⟩ := (h.mem_recordsAt hr).1.decodeHead hE (fromCanonicalCbor_eq_ok hdec)
    exact ⟨hmem, hr, ((h.certified_iff hE hcert).mp (authenticate_eq_some hpair).1).2⟩
  · rintro ⟨hmem, hheld, hpair⟩
    refine ⟨⟨_, hheld, fromCanonicalCbor_ok (h.mem_recordsAt hheld).2 (hE.decodeHead _)⟩,
      h.wellFormed hE hmem, ?_⟩
    have hcer := (h.certified_iff hE hcert).mpr ⟨h.certificate_mem hheld (hforeign _ hmem), rfl⟩
    obtain ⟨c, hc⟩ := authenticate_isSome_iff.mpr ⟨cert, hcer, h.verifiesUnder hE hcert hmem⟩
    rw [hc, hpair, ((h.certified_iff hE hcert).mp (authenticate_eq_some hc).1).2]

/-- For every run of captures by one certified device and of publications, and every set of
surviving operators that hold a head: recovery selects the latest head that they hold exactly when
they hold every head between two of theirs. -/
theorem selectHead_latest_iff (hE : Lawful E) (hfresh : Fresh s)
    (hcert : s.latestCaptureAuthorityForKey E (E.ed25519Public signer) = .ok cert)
    (hrun : run E limits signer actions (boot s) = some f) (hdigest : f.NoCollision E)
    (hforeign : ∀ head ∈ f.heads, (head.verify E s.metadata.genesis.recoverySigningPk).isOk = false)
    {survivors : List Nat} {head : HeadRecord} (hlatest : Latest f.heads (f.Held E survivors) head) :
    (selectHead E (f.recordsAt survivors) s.metadata.vaultId s.metadata.recoverySigningPk).map
      Prod.fst = .ok head ↔
      Consecutive f.heads (f.Held E survivors) := by
  have hinv : Inv E signer s cert f := (inv_boot hfresh).run hE hcert hrun
  have hshows := hinv.shows hE hcert hforeign survivors
  rw [← (hinv.line hdigest).selects_latest_iff hshows hlatest, map_eq_ok]
  constructor
  · rintro ⟨p, hp, rfl⟩
    have hmem := (selectHead_ok_iff.mp hp).2.2.1.1.1
    rw [hp, ← ((hshows p).mp hmem).2.2]
  · intro hp
    exact ⟨(head, cert), hp, rfl⟩

end

section

instance (E : Externals) (f : Federation) (survivors : List Nat) (head : HeadRecord) :
    Decidable (f.Held E survivors head) :=
  decidable_of_iff ((f.recordsAt survivors).contains (E.encode (.head head)) = true) contains_iff_mem

instance (E : Externals) (f : Federation) : Decidable (f.NoCollision E) := by
  unfold Federation.NoCollision
  infer_instance

def demoRun (actions : List Action) : Option Federation :=
  run reference defaultLimits demoDeviceSk actions (boot demoStore)

def demoCapture (n : Nat) : Action := .capture (demoJob .push emptyTree n)

def demoCid (n : Nat) : Bytes :=
  match demoRun ((range n).map fun i => demoCapture (i + 1)) with
  | none => []
  | some f => (f.heads.getLast?.map HeadRecord.snapshotId).getD []

def demoPublish (n operator : Nat) : Action := .publish (demoCid n) operator (fun _ => true) 10

def demoOperator (tree : Tree) : Operator :=
  match demoRun [.capture (demoJob .push tree 1)] with
  | none => emptyOperator
  | some f =>
    let recordCid := (f.heads.getLast?.map HeadRecord.snapshotId).getD []
    match act reference defaultLimits demoDeviceSk f (.publish recordCid 0 (fun _ => true) 10) with
    | none => emptyOperator
    | some f' => f'.operators 0

def heldFlags (f : Federation) (survivors : List Nat) : List Bool :=
  f.heads.map fun head => decide (f.Held reference survivors head)

def suffixActions : List Action :=
  [demoCapture 1, demoCapture 2, demoPublish 2 0, demoCapture 3, demoPublish 3 1]

def gapActions : List Action :=
  [demoCapture 1, demoPublish 1 0, demoCapture 2, demoCapture 3, demoPublish 3 0]

set_option maxRecDepth 100000 in
theorem demoRuns_evaluated : (demoRun suffixActions).any (fun f => heldFlags f [0, 1] = [false, true, true] ∧
      f.NoCollision reference ∧ ∀ head ∈ f.heads,
        (head.verify reference demoStore.metadata.genesis.recoverySigningPk).isOk = false) = true ∧
    (demoRun gapActions).any (fun f => heldFlags f [0] = [true, false, true] ∧
      selectHead reference (f.recordsAt [0]) demoStore.metadata.vaultId demoStore.metadata.recoverySigningPk =
        .error "Conflicting certified DAG heads; explicit fork resolution required") = true := by
  decide +kernel

set_option maxRecDepth 100000 in
theorem selectHead_latest_iff_suffix :
    ∃ f head, run reference defaultLimits demoDeviceSk suffixActions (boot demoStore) = some f ∧
      Latest f.heads (f.Held reference [0, 1]) head ∧
      (selectHead reference (f.recordsAt [0, 1]) demoStore.metadata.vaultId
        demoStore.metadata.recoverySigningPk).map Prod.fst = .ok head := by
  obtain ⟨f, hrun, hf⟩ := (Option.any_eq_true _ _).mp demoRuns_evaluated.1
  obtain ⟨hflags, hdig, hfor⟩ := of_decide_eq_true hf
  simp only [heldFlags, map_eq_cons_iff, map_eq_nil_iff, decide_eq_true_eq, decide_eq_false_iff_not]
    at hflags
  obtain ⟨a, _, hheads, ha, b, _, rfl, hb, c, _, rfl, hc, rfl⟩ := hflags
  have hlatest : Latest f.heads (f.Held reference [0, 1]) c := by
    rw [hheads]
    exact latest_concat [a, b] hc
  have hce : demoStore.latestCaptureAuthorityForKey reference (reference.ed25519Public demoDeviceSk) =
      .ok demoCertificate := by
    rfl
  refine ⟨f, c, hrun, hlatest, (selectHead_latest_iff reference_lawful ⟨rfl, rfl⟩ hce hrun hdig hfor
    hlatest).mpr ?_⟩
  rw [hheads]
  show Consecutive ([a] ++ [b, c]) _
  refine consecutive_append (fun h hh => ?_) fun h hh => ?_
  · rw [mem_singleton.mp hh]
    exact ha
  · simp only [mem_cons, not_mem_nil, or_false] at hh
    rcases hh with rfl | rfl
    · exact hb
    · exact hc

theorem gap_blocks_recovery :
    ∃ f head, run reference defaultLimits demoDeviceSk gapActions (boot demoStore) = some f ∧
      Latest f.heads (f.Held reference [0]) head ∧
      selectHead reference (f.recordsAt [0]) demoStore.metadata.vaultId demoStore.metadata.recoverySigningPk =
        .error "Conflicting certified DAG heads; explicit fork resolution required" := by
  obtain ⟨f, hrun, hf⟩ := (Option.any_eq_true _ _).mp demoRuns_evaluated.2
  obtain ⟨hflags, hselect⟩ := of_decide_eq_true hf
  simp only [heldFlags, map_eq_cons_iff, map_eq_nil_iff, decide_eq_true_eq, decide_eq_false_iff_not]
    at hflags
  obtain ⟨a, _, hheads, _, b, _, rfl, _, c, _, rfl, hc, rfl⟩ := hflags
  refine ⟨f, c, hrun, ?_, hselect⟩
  rw [hheads]
  exact latest_concat [a, b] hc

end

end CipherVault.Network
