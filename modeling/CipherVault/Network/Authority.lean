import CipherVault.Network.Operator
import CipherVault.Trust.Rearrange

/-!
# Network.Authority

The chain of authority in the recovery log of a locator, over every run of
`append_authorized_recovery_record`: one recovery key, certificates that it signed, and records
signed by it or by a device of an earlier certificate. Scan and check try all kinds of records on
the same bytes; the chain is kept as long as no record verifies as a genesis and as another kind.
-/

namespace CipherVault.Network

open Crypto Format List Option Prod

/-- A valid genesis record that names the key. -/
structure IsGenesis (E : Externals) (key bytes : Bytes) (genesis : GenesisRecord) : Prop where
  decodes : fromCanonicalCbor E.decodeGenesis bytes = .ok genesis
  version : genesis.version = protocolVersion
  verifies : (genesis.verify E).isOk = true
  names : genesis.recoverySigningPk = key

/-- A certificate that the key signed. -/
structure IsCertificate (E : Externals) (key bytes : Bytes) (cert : DeviceCertificate) : Prop where
  decodes : fromCanonicalCbor E.decodeCertificate bytes = .ok cert
  version : cert.version = protocolVersion
  verifies : (cert.verify E key).isOk = true

/-- A head, envelope or snapshot record that the key signed. -/
inductive SignedBy (E : Externals) (pk bytes : Bytes) : Prop where
  | head (head : HeadRecord) (decodes : fromCanonicalCbor E.decodeHead bytes = .ok head)
      (version : head.version = protocolVersion) (verifies : (head.verify E pk).isOk = true)
  | envelope (envelope : EpochEnvelope) (decodes : fromCanonicalCbor E.decodeEnvelope bytes = .ok envelope)
      (version : envelope.version = protocolVersion) (verifies : (envelope.verify E pk).isOk = true)
  | snapshot (snapshot : SnapshotRecord) (decodes : fromCanonicalCbor E.decodeSnapshot bytes = .ok snapshot)
      (version : snapshot.version = protocolVersion) (verifies : (snapshot.verify E pk).isOk = true)

/-- What may stand after the records `earlier` in a log whose recovery key is `key`. -/
inductive AuthorisedAfter (E : Externals) (key : Bytes) (earlier : List Bytes) (bytes : Bytes) : Prop where
  | genesis (genesis : GenesisRecord) (h : IsGenesis E key bytes genesis)
  | certificate (cert : DeviceCertificate) (h : IsCertificate E key bytes cert)
  | root (h : SignedBy E key bytes)
  | device (pk certificate : Bytes) (hmem : certificate ∈ earlier)
      (hcertified : certifiedKey E (some key) certificate = some pk) (h : SignedBy E pk bytes)

/-- Every record of the log was authorised by those before it. -/
structure AuthorityChain (E : Externals) (key : Bytes) (log : List Bytes) : Prop where
  genesis : ∀ record ∈ log, ∀ pk, registers E record = some pk → pk = key
  authorised : ∀ earlier record, earlier ++ [record] <+: log → AuthorisedAfter E key earlier record

theorem authorityChain_nil (E : Externals) (key : Bytes) : AuthorityChain E key [] where
  genesis record hmem := by cases hmem
  authorised earlier record hle := by
    have hnil := prefix_nil.mp hle
    simp at hnil

variable {E : Externals} {key bytes : Bytes} {log log' : List Bytes} {limits : Limits} {caller : Option Bytes}

theorem AuthorityChain.append (h : AuthorityChain E key log)
    (hgenesis : ∀ pk, registers E bytes = some pk → pk = key)
    (hnew : AuthorisedAfter E key log bytes) : AuthorityChain E key (log ++ [bytes]) where
  genesis record hmem := by
    rcases mem_append.mp hmem with hold | hla
    · exact h.genesis record hold
    · rw [mem_singleton.mp hla]
      exact hgenesis
  authorised earlier record hle := by
    rcases prefix_concat_iff.mp hle with heq | hsho
    · obtain ⟨rfl, hrec⟩ := append_inj' heq rfl
      cases hrec
      exact hnew
    · exact h.authorised earlier record hsho

/-! ## Records that are accepted as more than one kind -/

/-- Branches two to five of the check of a new record. -/
def otherwiseAuthorized (E : Externals) (a : Authority) (bytes : Bytes) : Bool :=
  certificateAuthorized E a bytes || headAuthorized E a bytes || envelopeAuthorized E a bytes ||
    snapshotAuthorized E a bytes

/-- What verifies as a genesis does not verify as another kind, under whatever keys. -/
def SingleKind (E : Externals) (bytes : Bytes) : Prop :=
  ∀ pk, registers E bytes = some pk → ∀ a, otherwiseAuthorized E a bytes = false

theorem isAuthorized_eq_true {a : Authority} (h : isAuthorized E a bytes = true) :
    genesisAuthorized E a bytes = true ∨ otherwiseAuthorized E a bytes = true := by
  simp only [isAuthorized, Bool.or_eq_true] at h
  simp only [otherwiseAuthorized, Bool.or_eq_true]
  tauto

theorem singleKind_encode (hE : Lawful E) (record : Record) : SingleKind E (E.encode record) := by
  intro pk hpk a
  obtain ⟨genesis, hdec, _⟩ := registers_eq_some hpk
  rw [hE.decodeGenesis] at hdec
  cases record with
  | genesis r =>
    obtain ⟨_, hcer⟩ := fromCanonicalCbor_error (hE.decodeCertificate (.genesis r))
    obtain ⟨_, hh⟩ := fromCanonicalCbor_error (hE.decodeHead (.genesis r))
    obtain ⟨_, henv⟩ := fromCanonicalCbor_error (hE.decodeEnvelope (.genesis r))
    obtain ⟨_, hsna⟩ := fromCanonicalCbor_error (hE.decodeSnapshot (.genesis r))
    simp only [otherwiseAuthorized, certificateAuthorized, hcer, headAuthorized, hh, envelopeAuthorized,
      henv, snapshotAuthorized, hsna, Bool.or_false]
  | _ => cases hdec

/-! ## What each branch has checked -/

section

variable {E : Externals} {a : Authority} {bytes : Bytes}

theorem genesisAuthorized_eq_true (h : genesisAuthorized E a bytes = true) :
    ∃ key genesis, IsGenesis E key bytes genesis ∧ registers E bytes = some key ∧
      ∀ pk, a.registered = some pk → pk = key := by
  unfold genesisAuthorized at h
  split at h
  · cases h
  · rename_i genesis hdec
    simp only [Bool.and_eq_true, beq_iff_eq] at h
    obtain ⟨⟨⟨hver, hverify⟩, hlen⟩, hs⟩ := h
    refine ⟨genesis.recoverySigningPk, genesis, ⟨hdec, hver, hverify, rfl⟩, ?_, fun pk hpk => ?_⟩
    · simp only [registers, hdec]
      rw [if_pos ⟨hverify, hlen⟩]
    · rw [hpk] at hs
      exact beq_iff_eq.mp hs

theorem certificateAuthorized_eq_true (h : certificateAuthorized E a bytes = true) :
    ∃ key cert, a.registered = some key ∧ IsCertificate E key bytes cert := by
  unfold certificateAuthorized at h
  split at h
  · cases h
  · rename_i cert hdec
    simp only [Bool.and_eq_true, beq_iff_eq, Option.any_eq_true] at h
    obtain ⟨⟨hver, _⟩, key, hkey, hverify⟩ := h
    exact ⟨key, cert, hkey, hdec, hver, hverify⟩

theorem signs_eq_true {verify : Bytes → Except FormatError Unit} (h : a.signs verify = true) :
    ∃ pk, (pk ∈ a.devices ∨ a.registered = some pk) ∧ (verify pk).isOk = true := by
  simp only [Authority.signs, Bool.or_eq_true, List.any_eq_true, Option.any_eq_true] at h
  rcases h with ⟨pk, hmem, hver⟩ | ⟨pk, hpk, hver⟩
  · exact ⟨pk, .inl hmem, hver⟩
  · exact ⟨pk, .inr hpk, hver⟩

theorem headAuthorized_eq_true (h : headAuthorized E a bytes = true) :
    ∃ pk, (pk ∈ a.devices ∨ a.registered = some pk) ∧ SignedBy E pk bytes := by
  unfold headAuthorized at h
  split at h
  · cases h
  · rename_i head hdec
    simp only [Bool.and_eq_true, beq_iff_eq] at h
    obtain ⟨⟨hver, _⟩, hsig⟩ := h
    obtain ⟨pk, hpk, hverify⟩ := signs_eq_true hsig
    exact ⟨pk, hpk, .head head hdec hver hverify⟩

theorem envelopeAuthorized_eq_true (h : envelopeAuthorized E a bytes = true) :
    ∃ pk, (pk ∈ a.devices ∨ a.registered = some pk) ∧ SignedBy E pk bytes := by
  unfold envelopeAuthorized at h
  split at h
  · cases h
  · rename_i envelope hdec
    simp only [Bool.and_eq_true, beq_iff_eq] at h
    obtain ⟨⟨hver, _⟩, hsig⟩ := h
    obtain ⟨pk, hpk, hverify⟩ := signs_eq_true hsig
    exact ⟨pk, hpk, .envelope envelope hdec hver hverify⟩

theorem snapshotAuthorized_eq_true (h : snapshotAuthorized E a bytes = true) :
    ∃ pk, (pk ∈ a.devices ∨ a.registered = some pk) ∧ SignedBy E pk bytes := by
  unfold snapshotAuthorized at h
  split at h
  · cases h
  · rename_i snapshot hdec
    simp only [Bool.and_eq_true, beq_iff_eq] at h
    obtain ⟨hver, hsig⟩ := h
    obtain ⟨pk, hpk, hverify⟩ := signs_eq_true hsig
    exact ⟨pk, hpk, .snapshot snapshot hdec hver hverify⟩

theorem otherwiseAuthorized_eq_true (h : otherwiseAuthorized E a bytes = true) :
    (∃ key cert, a.registered = some key ∧ IsCertificate E key bytes cert) ∨
      ∃ pk, (pk ∈ a.devices ∨ a.registered = some pk) ∧ SignedBy E pk bytes := by
  simp only [otherwiseAuthorized, Bool.or_eq_true] at h
  rcases h with ((hcer | hh) | henv) | hsna
  · exact .inl (certificateAuthorized_eq_true hcer)
  · exact .inr (headAuthorized_eq_true hh)
  · exact .inr (envelopeAuthorized_eq_true henv)
  · exact .inr (snapshotAuthorized_eq_true hsna)

end

def serve (E : Externals) (limits : Limits) (log : List Bytes) (request : Bytes × Option Bytes) :
    List Bytes :=
  match appendAuthorizedRecoveryRecord E limits log request.1 request.2 with
  | .ok log' => log'
  | .error _ => log

def serveAll (E : Externals) (limits : Limits) (requests : List (Bytes × Option Bytes)) (log : List Bytes) :
    List Bytes :=
  requests.foldl (serve E limits) log

theorem append_authorized (h : appendAuthorizedRecoveryRecord E limits log bytes caller = .ok log') :
    isAuthorized E (scanLog E log) bytes = true := by
  simp only [appendAuthorizedRecoveryRecord, ite_error_eq_ok] at h
  obtain ⟨_, _, haut, _⟩ := h
  simpa using haut

/-- The log has a chain under `key`, and the scan finds what the chain says. -/
structure Chained (E : Externals) (log : List Bytes) (key : Bytes) : Prop where
  registered : (scanLog E log).registered = some key
  devices : ∀ pk ∈ (scanLog E log).devices, ∃ certificate ∈ log, certifiedKey E (some key)
    certificate = some pk
  chain : AuthorityChain E key log

theorem scanLog_append (E : Externals) (log : List Bytes) (bytes : Bytes) :
    scanLog E (log ++ [bytes]) = scanRecord E (scanLog E log) bytes := by
  rw [scanLog, foldl_append]
  rfl

theorem mem_devices_scanRecord {a : Authority} {pk : Bytes} (h : pk ∈ (scanRecord E a bytes).devices) :
    pk ∈ a.devices ∨ certifiedKey E (scanRecord E a bytes).registered bytes = some pk := by
  simp only [scanRecord] at h ⊢
  split at h
  · rename_i key hkey
    split at h
    · exact .inl h
    · rcases mem_append.mp h with hold | hnew
      · exact .inl hold
      · rw [mem_singleton.mp hnew]
        exact .inr hkey
  · exact .inl h

theorem Chained.append
    (hdevices : ∀ pk ∈ (scanLog E log).devices, ∃ certificate ∈ log, certifiedKey E (some key)
      certificate = some pk)
    (hchain : AuthorityChain E key log)
    (hregistered : (registers E bytes).or (scanLog E log).registered = some key)
    (hgenesis : ∀ pk, registers E bytes = some pk → pk = key) (hnew : AuthorisedAfter E key log bytes) :
    Chained E (log ++ [bytes]) key where
  registered := by
    rw [scanLog_append]
    exact hregistered
  devices pk hpk := by
    rw [scanLog_append] at hpk
    rcases mem_devices_scanRecord hpk with hold | hcer
    · obtain ⟨certificate, hmem, hcer⟩ := hdevices pk hold
      exact ⟨certificate, mem_append_left _ hmem, hcer⟩
    · have hkey : (scanRecord E (scanLog E log) bytes).registered = some key := hregistered
      rw [hkey] at hcer
      exact ⟨bytes, mem_append_right _ (mem_singleton_self bytes), hcer⟩
  chain := hchain.append hgenesis hnew

theorem chained_first (h : appendAuthorizedRecoveryRecord E limits [] bytes caller = .ok log') :
    ∃ key, Chained E log' key := by
  rw [append_eq_ok h]
  rcases isAuthorized_eq_true (append_authorized h) with hgen | ho
  · obtain ⟨key, genesis, hgen, hreg, _⟩ := genesisAuthorized_eq_true hgen
    refine ⟨key, Chained.append nofun (authorityChain_nil E key) ?_ ?_ (.genesis genesis hgen)⟩
    · rw [hreg]
      rfl
    · intro pk hpk
      rw [hreg] at hpk
      exact (some.inj hpk).symm
  · rcases otherwiseAuthorized_eq_true ho with ⟨key, _, hkey, _⟩ | ⟨pk, hpk, _⟩
    · cases hkey
    · rcases hpk with hpk | hpk
      · cases hpk
      · cases hpk

theorem Chained.step (hc : Chained E log key) (hkind : SingleKind E bytes)
    (h : appendAuthorizedRecoveryRecord E limits log bytes caller = .ok log') : Chained E log' key := by
  rw [append_eq_ok h]
  rcases isAuthorized_eq_true (append_authorized h) with hgen | ho
  · obtain ⟨named, genesis, hgen, hreg, hs⟩ := genesisAuthorized_eq_true hgen
    have hnamed : key = named := hs key hc.registered
    subst hnamed
    refine Chained.append hc.devices hc.chain ?_ ?_ (.genesis genesis hgen)
    · rw [hreg]
      rfl
    · intro pk hpk
      rw [hreg] at hpk
      exact (some.inj hpk).symm
  · -- A record of another kind registers no key.
    have hn : registers E bytes = none := by
      cases hreg : registers E bytes with
      | none => rfl
      | some pk =>
        rw [hkind pk hreg] at ho
        cases ho
    refine Chained.append hc.devices hc.chain ?_ ?_ ?_
    · rw [hn]
      exact hc.registered
    · intro pk hpk
      rw [hn] at hpk
      cases hpk
    · rcases otherwiseAuthorized_eq_true ho with ⟨root, cert, hroot, hce⟩ | ⟨pk, hpk, hsig⟩
      · rw [hc.registered] at hroot
        cases hroot
        exact .certificate cert hce
      · rcases hpk with hdev | hroot
        · obtain ⟨certificate, hmem, hcer⟩ := hc.devices pk hdev
          exact .device pk certificate hmem hcer hsig
        · rw [hc.registered] at hroot
          cases hroot
          exact .root hsig

variable {request : Bytes × Option Bytes}

theorem mem_serve {record : Bytes} (h : record ∈ log) : record ∈ serve E limits log request := by
  unfold serve
  split
  · rename_i log' happend
    rw [append_eq_ok happend]
    exact mem_append_left _ h
  · exact h

theorem serve_chained
    (hkind : ∀ record ∈ serve E limits log request, SingleKind E record)
    (hlog : log = [] ∨ ∃ key, Chained E log key) :
    serve E limits log request = [] ∨ ∃ key, Chained E (serve E limits log request) key := by
  unfold serve at hkind ⊢
  split
  · rename_i log' h
    rcases hlog with rfl | ⟨key, hc⟩
    · exact .inr (chained_first h)
    · refine .inr ⟨key, hc.step (hkind request.1 ?_) h⟩
      rw [h, append_eq_ok h]
      exact mem_append_right _ (mem_singleton_self request.1)
  · exact hlog

theorem serveAll_append (E : Externals) (limits : Limits) (requests : List (Bytes × Option Bytes))
    (request : Bytes × Option Bytes) (log : List Bytes) :
    serveAll E limits (requests ++ [request]) log = serve E limits (serveAll E limits requests log) request :=
  foldl_append

theorem serveAll_chained {requests : List (Bytes × Option Bytes)}
    (hkind : ∀ record ∈ serveAll E limits requests [], SingleKind E record) :
    serveAll E limits requests [] = [] ∨ ∃ key, Chained E (serveAll E limits requests []) key := by
  induction requests using reverseRecOn with
  | nil => exact .inl rfl
  | append_singleton requests request ih =>
    rw [serveAll_append] at hkind ⊢
    exact serve_chained hkind (ih fun record hmem => hkind record (mem_serve hmem))

/-- Every log that appends leave behind has one recovery key, and each of its records is authorised
by it and by what precedes. -/
theorem serveAll_authorityChain (E : Externals) (limits : Limits) (requests : List (Bytes × Option Bytes))
    (hkind : ∀ record ∈ serveAll E limits requests [], SingleKind E record) :
    ∃ key, AuthorityChain E key (serveAll E limits requests []) := by
  rcases serveAll_chained hkind with hemp | ⟨key, hc⟩
  · rw [hemp]
    exact ⟨[], authorityChain_nil E []⟩
  · exact ⟨key, hc.chain⟩

namespace TwoKeys

def rootSk : Bytes := [1#8]

def rootPk : Bytes := reference.ed25519Public rootSk

def genesis : GenesisRecord :=
  let unsigned : GenesisRecord :=
    { version := 1, vaultId := [], recoverySigningPk := rootPk, recoveryEncryptionPk := [], policyDigest := []
      createdAtUtc := 0, creationNonce := [], signature := [] }
  { unsigned with
    signature := signWithDomain reference rootSk (ascii "genesis_record")
      (reference.encode unsigned.unsigned) }

def certificate (pk : Bytes) : DeviceCertificate :=
  let unsigned : DeviceCertificate :=
    { version := 1, vaultId := [], certificateId := [], deviceSigningPk := pk, permissions := 1
      authorityGeneration := 1, issuedAtUtc := 0, signature := [] }
  { unsigned with
    signature := signWithDomain reference rootSk (ascii "device_certificate")
      (reference.encode unsigned.unsigned) }

def head (signature : Bytes) : HeadRecord :=
  { version := 1, vaultId := [], snapshotId := replicate 32 0#8, parentSnapshotIds := [], closureDigest := []
    deviceId := [], deviceCounter := 1, signature := signature }

def secondGenesis : GenesisRecord :=
  { genesis with recoverySigningPk := Trust.neutralKeySigned, signature := Trust.neutralSignature }

/-- A CBOR map with the fields of a genesis and of a head, of which each decoder skips those that it
does not know. -/
def genesisAndHead : Codec (GenesisRecord × HeadRecord) := Reference.genesis.pair Reference.head

/-- The reference primitives with decoders that skip unknown fields, and with signatures as
`ed25519-dalek` checks them under the two encodings of the neutral point. -/
def lenient : Externals :=
  { reference with
    decodeGenesis := fun bytes =>
      (reference.decodeGenesis bytes).or ((Codec.tagged 8 genesisAndHead bytes).map fst)
    decodeHead := fun bytes => (reference.decodeHead bytes).or ((Codec.tagged 8 genesisAndHead bytes).map snd)
    ed25519Verify := fun pk message signature =>
      reference.ed25519Verify pk message signature ||
        ((pk == Trust.neutralKey || pk == Trust.neutralKeySigned) && signature == Trust.neutralSignature) }

theorem tagged_genesisAndHead (record : Record) :
    Codec.tagged 8 genesisAndHead (lenient.encode record) = none := by
  cases record <;> simp [lenient, reference, Reference.encode, Codec.tagged_put]

theorem lenient_lawful : Lawful lenient where
  decodeGenesis record := by
    show (reference.decodeGenesis (reference.encode record)).or _ = _
    rw [tagged_genesisAndHead, reference_lawful.decodeGenesis, map_none, or_none]
  decodeCertificate := reference_lawful.decodeCertificate
  decodeEnvelope := reference_lawful.decodeEnvelope
  decodeChunk := reference_lawful.decodeChunk
  decodeManifest := reference_lawful.decodeManifest
  decodeSnapshot := reference_lawful.decodeSnapshot
  decodeHead record := by
    show (reference.decodeHead (reference.encode record)).or _ = _
    rw [tagged_genesisAndHead, reference_lawful.decodeHead, map_none, or_none]
  verify_sign sk message := by
    show (reference.ed25519Verify (reference.ed25519Public sk) message
      (reference.ed25519Sign sk message) || _) = true
    rw [reference_lawful.verify_sign, Bool.true_or]
  sign_length := reference_lawful.sign_length
  public_length := reference_lawful.public_length
  digest_length := reference_lawful.digest_length

/-- The owner certifies a device that shows the neutral point as its key; the device then sends a
head that is a genesis too. -/
def requests : List (Bytes × Option Bytes) :=
  [(lenient.encode (.genesis genesis), some rootPk),
    (lenient.encode (.certificate (certificate Trust.neutralKey)), some rootPk),
    (Codec.nat.put 8 ++ genesisAndHead.put (secondGenesis, head Trust.neutralSignature),
      some Trust.neutralKey)]

theorem serveAll_requests : serveAll lenient defaultLimits requests [] = requests.map fst ∧
    requests.map (fun request => registers lenient request.1) =
      [some rootPk, none, some Trust.neutralKeySigned] := by
  decide +kernel

/-- A device with a key of small order puts a second recovery key into the log. -/
theorem small_order_device_replaces_key :
    Lawful lenient ∧ ¬ ∃ key, AuthorityChain lenient key (serveAll lenient defaultLimits requests []) := by
  refine ⟨lenient_lawful, ?_⟩
  rintro ⟨key, hchain⟩
  obtain ⟨hlog, hkeys⟩ := serveAll_requests
  rw [hlog] at hchain
  simp only [requests, map_cons, map_nil, cons.injEq, and_true] at hkeys hchain
  have hf := hchain.genesis _ mem_cons_self rootPk hkeys.1
  have hsecond := hchain.genesis _ (mem_cons_of_mem _ (mem_cons_of_mem _ mem_cons_self))
    Trust.neutralKeySigned hkeys.2.2
  have hs : rootPk = Trust.neutralKeySigned := hf.trans hsecond.symm
  revert hs
  decide +kernel

def honestRequests : List (Bytes × Option Bytes) :=
  let deviceSk : Bytes := [2#8]
  let devicePk := reference.ed25519Public deviceSk
  let signature := signWithDomain reference deviceSk (ascii "head_record")
    (reference.encode (head []).unsigned)
  [(.genesis genesis, none), (.certificate (certificate devicePk), some devicePk),
    (.head (head signature), some devicePk)].map fun request : Record × Option Bytes =>
      (reference.encode request.1, request.2)

theorem honest_requests_authorityChain :
    serveAll reference defaultLimits honestRequests [] = honestRequests.map fst ∧
      ∃ key, AuthorityChain reference key (serveAll reference defaultLimits honestRequests []) := by
  have hlog : serveAll reference defaultLimits honestRequests [] = honestRequests.map fst := by decide +kernel
  refine ⟨hlog, serveAll_authorityChain reference defaultLimits honestRequests ?_⟩
  rw [hlog]
  intro record hmem
  obtain ⟨request, hreq, rfl⟩ := mem_map.mp hmem
  obtain ⟨sent, _, rfl⟩ := mem_map.mp hreq
  exact singleKind_encode reference_lawful sent.1

end TwoKeys

end CipherVault.Network
