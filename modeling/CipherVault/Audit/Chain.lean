import CipherVault.Audit.Redact
import CipherVault.Base.Frames
import CipherVault.Base.Links
import CipherVault.Base.Processes
import CipherVault.Network.Invites

/-!
# Audit.Chain

The audit log: `audit_secret_event` of `services/account/src/secrets.rs`, and the digest and
verification of `audit_chain.rs`. The table is the list of its rows by row id.
-/

namespace CipherVault.Audit

open Crypto Links Network Processes List Option Nat

def chainDomain : Bytes := ascii "ciphervault-audit-chain-v2"

def genesisHash : Bytes := replicate 32 0#8

structure ChainFields where
  prev : Bytes
  (eventType tenantId : Text)
  (projectId environmentId secretId : Option Text)
  secretVersion : Option (BitVec 64)
  (principalId requestId source result reason : Text)
  now : BitVec 64

def pushField (bytes : Bytes) : Bytes := Frames.beBytes 8 bytes.length ++ bytes

def pushOpt : Option Bytes → Bytes
  | some bytes => 1#8 :: pushField bytes
  | none => [0#8]

def pushVersion : Option (BitVec 64) → Bytes
  | some version => 1#8 :: Frames.beBytes 8 version.toNat
  | none => [0#8]

def preimage (fields : ChainFields) : Bytes :=
  chainDomain ++ (pushField fields.prev ++
    (pushField (utf8 fields.eventType) ++ (pushField (utf8 fields.tenantId) ++
    (pushOpt (fields.projectId.map utf8) ++ (pushOpt (fields.environmentId.map utf8) ++
    (pushOpt (fields.secretId.map utf8) ++
      (pushVersion fields.secretVersion ++ (pushField (utf8 fields.principalId) ++
    (pushField (utf8 fields.requestId) ++
      (pushField (utf8 fields.source) ++ (pushField (utf8 fields.result) ++
    (pushField (utf8 fields.reason) ++ Frames.beBytes 8 fields.now.toNat))))))))))))

/-- The primitives, and how `serde_json` writes and reads an object for one of its members. -/
structure Externals extends Primitives where
  /-- The text of an object with one member, a string, under a name. -/
  writeMember : Text → Text → Text
  /-- The member under a name of an object that a text stands for, if it is a string. -/
  readMember : Text → Text → Option Text
  readMember_writeMember : ∀ name value, readMember name (writeMember name value) = some value

variable (P : Externals)

def chainDigest (fields : ChainFields) : Bytes := P.sha256 (preimage fields)

def actorRecord (principalId : Text) : Text := P.writeMember "principal_id".toList principalId

def principalFromActor (actorJson : Text) : Option Text :=
  P.readMember "principal_id".toList actorJson

structure AuditRow where
  (eventId eventType tenantId : Text)
  (projectId environmentId secretId : Option Text)
  secretVersion : Option (BitVec 64)
  (actorJson requestId source result reason : Text)
  (prevHash eventHash : Bytes)
  createdAtUtc : BitVec 64

def AuditRow.fields (row : AuditRow) (prev : Bytes) (principalId : Text) : ChainFields where
  prev := prev
  eventType := row.eventType
  tenantId := row.tenantId
  projectId := row.projectId
  environmentId := row.environmentId
  secretId := row.secretId
  secretVersion := row.secretVersion
  principalId := principalId
  requestId := row.requestId
  source := row.source
  result := row.result
  reason := row.reason
  now := row.createdAtUtc

def rowLinkageOk (row : AuditRow) (running : Bytes) : Bool :=
  row.prevHash == running &&
    (principalFromActor P row.actorJson).map
      (fun principal => chainDigest P (row.fields running principal)) ==
      some row.eventHash

def check : Check AuditRow Bytes where
  ok := rowLinkageOk P
  hash := AuditRow.eventHash

variable (table : List AuditRow)

def tenantRows (tenantId : Text) : List AuditRow :=
  (table.filter (·.tenantId == tenantId)).insertionSort fun a b => a.createdAtUtc.toInt ≤ b.createdAtUtc.toInt

structure ChainReport where
  eventCount : Nat
  valid : Bool
  firstBadEventId : Option Text
  headHash : Bytes

/-- Recomputes the hashes of a tenant's rows and compares the links. -/
def verifyChain (tenantId : Text) : ChainReport :=
  let scanned := scan (check P) genesisHash (tenantRows table tenantId)
  { eventCount := (table.filter (·.tenantId == tenantId)).length
    valid := scanned.2.isNone
    firstBadEventId := scanned.2.map (·.eventId)
    headHash := scanned.1 }

structure SecretAuditEvent where
  (eventType tenantId : Text)
  (projectId environmentId secretId : Option Text)
  secretVersion : Option (BitVec 64)
  (principalId requestId source result reason : Text)

inductive SqlError where
  | toSqlConversion
  | checkConstraint
  | uniqueConstraint

/-- `SELECT event_hash .. ORDER BY created_at_utc DESC, rowid DESC LIMIT 1`, or the genesis hash. -/
def selectHead (tenantId : Text) : Bytes :=
  head (check P) genesisHash (tenantRows table tenantId)

def auditRow (event : SecretAuditEvent) (eventId : Text) (now : Nat) (prev : Bytes) : AuditRow :=
  let row : AuditRow :=
    { eventId := eventId
      eventType := event.eventType
      tenantId := event.tenantId
      projectId := event.projectId
      environmentId := event.environmentId
      secretId := event.secretId
      secretVersion := event.secretVersion
      actorJson := actorRecord P event.principalId
      requestId := event.requestId
      source := event.source
      result := event.result
      reason := redactText event.reason
      prevHash := prev
      eventHash := []
      createdAtUtc := BitVec.ofNat 64 now }
  { row with eventHash := chainDigest P (row.fields prev event.principalId) }

def results : List Text := ["success", "denied", "error"].map String.toList

def i64Max : Nat := 2 ^ 63 - 1

/-- The `INSERT`, with its constraints. -/
def insertEvent (row : AuditRow) (now : Nat) : Except SqlError (List AuditRow) :=
  if i64Max < now then .error .toSqlConversion
  else if !results.contains row.result then .error .checkConstraint
  else if table.any (·.eventId == row.eventId) then .error .uniqueConstraint
  else .ok (table ++ [row])

structure Request where
  event : SecretAuditEvent
  eventId : Text
  now : Nat
  within : Bool

/-- Where an append is between its statements. -/
inductive Process where
  | done (result : Except SqlError Unit)
  | reading (request : Request)
  /-- Before the `INSERT`, with the head that was read. -/
  | inserting (request : Request) (prev : Bytes)

def Process.isDone : Process → Bool
  | .done _ => true
  | _ => false

def appendAfter (request : Request) (prev : Bytes) : List AuditRow × Process :=
  match insertEvent table (auditRow P request.event request.eventId request.now prev) request.now with
  | .ok table' => (table', .done (.ok ()))
  | .error e => (table, .done (.error e))

/-- One access of `audit_secret_event` to the database. -/
def auditSecretEvent : Process → List AuditRow × Process
  | .done result => (table, .done result)
  | .reading request =>
    if request.within then appendAfter P table request (selectHead P table request.event.tenantId)
    else (table, .inserting request (selectHead P table request.event.tenantId))
  | .inserting request prev => appendAfter P table request prev

def program : Program (List AuditRow) Process Request where
  idle := .done (.ok ())
  isIdle := Process.isDone
  begin := .reading
  advance := auditSecretEvent P

variable {x y : Bytes} {P : Externals} {row : AuditRow} {table : List AuditRow} {tenantId : Text} {now : Nat}

theorem beBytes8_append_inj {m n : Nat} (hm : m < 2 ^ 64) (hn : n < 2 ^ 64)
    (h : Frames.beBytes 8 m ++ x = Frames.beBytes 8 n ++ y) : m = n ∧ x = y := by
  obtain ⟨hb, hr⟩ := append_inj h (by rw [Frames.length_beBytes, Frames.length_beBytes])
  have hpow : 256 ^ 8 = 2 ^ 64 := rfl
  have hv := congrArg Frames.beValue hb
  rw [Frames.beValue_beBytes, Frames.beValue_beBytes, hpow, mod_eq_of_lt hm, mod_eq_of_lt hn] at hv
  exact ⟨hv, hr⟩

theorem pushField_inj {a b : Bytes} (ha : a.length < 2 ^ 64) (hb : b.length < 2 ^ 64)
    (h : pushField a ++ x = pushField b ++ y) : a = b ∧ x = y := by
  obtain ⟨hlen, hr⟩ := beBytes8_append_inj ha hb h
  exact append_inj hr hlen

theorem pushText_inj {a b : Text} (ha : (utf8 a).length < 2 ^ 64) (hb : (utf8 b).length < 2 ^ 64)
    (h : pushField (utf8 a) ++ x = pushField (utf8 b) ++ y) : a = b ∧ x = y := by
  obtain ⟨htext, hr⟩ := pushField_inj ha hb h
  exact ⟨utf8_inj htext, hr⟩

theorem pushOpt_inj {a b : Option Text} (ha : ∀ text ∈ a, (utf8 text).length < 2 ^ 64)
    (hb : ∀ text ∈ b, (utf8 text).length < 2 ^ 64)
    (h : pushOpt (a.map utf8) ++ x = pushOpt (b.map utf8) ++ y) :
    a = b ∧ x = y := by
  cases a with
  | none =>
    cases b with
    | none => exact ⟨rfl, (cons.inj h).2⟩
    | some b => exact absurd (cons.inj h).1 (by decide)
  | some a =>
    cases b with
    | none => exact absurd (cons.inj h).1 (by decide)
    | some b =>
      obtain ⟨rfl, hr⟩ := pushText_inj (ha a rfl) (hb b rfl) (cons.inj h).2
      exact ⟨rfl, hr⟩

theorem pushVersion_inj {a b : Option (BitVec 64)} (h : pushVersion a ++ x = pushVersion b ++ y) :
    a = b ∧ x = y := by
  cases a with
  | none =>
    cases b with
    | none => exact ⟨rfl, (cons.inj h).2⟩
    | some b => exact absurd (cons.inj h).1 (by decide)
  | some a =>
    cases b with
    | none => exact absurd (cons.inj h).1 (by decide)
    | some b =>
      obtain ⟨hv, hr⟩ := beBytes8_append_inj a.isLt b.isLt (cons.inj h).2
      exact ⟨congrArg some (BitVec.eq_of_toNat_eq hv), hr⟩

/-- The lengths fit into their 64-bit prefixes. -/
structure ChainFields.Fits (fields : ChainFields) : Prop where
  prev : fields.prev.length < 2 ^ 64
  texts : ∀ text ∈ [fields.eventType, fields.tenantId, fields.principalId, fields.requestId, fields.source,
    fields.result, fields.reason], (utf8 text).length < 2 ^ 64
  scopes : ∀ scope ∈ [fields.projectId, fields.environmentId, fields.secretId], ∀ text ∈ scope,
    (utf8 text).length < 2 ^ 64

theorem preimage_inj {f g : ChainFields} (hf : f.Fits) (hg : g.Fits) (h : preimage f = preimage g) :
    f = g := by
  obtain ⟨hprev, h⟩ := pushField_inj hf.prev hg.prev (append_cancel_left h)
  obtain ⟨heve, h⟩ := pushText_inj (hf.texts _ (by simp)) (hg.texts _ (by simp)) h
  obtain ⟨htenant, h⟩ := pushText_inj (hf.texts _ (by simp)) (hg.texts _ (by simp)) h
  obtain ⟨hpro, h⟩ := pushOpt_inj (hf.scopes _ (by simp)) (hg.scopes _ (by simp)) h
  obtain ⟨henv, h⟩ := pushOpt_inj (hf.scopes _ (by simp)) (hg.scopes _ (by simp)) h
  obtain ⟨hsecret, h⟩ := pushOpt_inj (hf.scopes _ (by simp)) (hg.scopes _ (by simp)) h
  obtain ⟨hver, h⟩ := pushVersion_inj h
  obtain ⟨hpri, h⟩ := pushText_inj (hf.texts _ (by simp)) (hg.texts _ (by simp)) h
  obtain ⟨hreq, h⟩ := pushText_inj (hf.texts _ (by simp)) (hg.texts _ (by simp)) h
  obtain ⟨hsource, h⟩ := pushText_inj (hf.texts _ (by simp)) (hg.texts _ (by simp)) h
  obtain ⟨hres, h⟩ := pushText_inj (hf.texts _ (by simp)) (hg.texts _ (by simp)) h
  obtain ⟨hreason, h⟩ := pushText_inj (hf.texts _ (by simp)) (hg.texts _ (by simp)) h
  obtain ⟨hnow, -⟩ := beBytes8_append_inj f.now.isLt g.now.isLt (congrArg (· ++ []) h)
  cases f
  cases g
  simp_all [BitVec.toNat_inj]

variable (P) in
/-- The columns of a row are texts and byte strings of the machine, and so is the principal in its
actor record. -/
def AuditRow.Fits (row : AuditRow) : Prop :=
  ∀ principal, principalFromActor P row.actorJson = some principal →
    (row.fields row.prevHash principal).Fits

variable (P) in
/-- Two rows agree on all columns but the event id, and on the principal of their actor records. -/
structure AuditRow.Agrees (row row' : AuditRow) : Prop where
  principal : principalFromActor P row.actorJson = principalFromActor P row'.actorJson
  columns : row = { row' with eventId := row.eventId, actorJson := row.actorJson }

variable {running : Bytes} {table' : List AuditRow}

theorem rowLinkageOk_iff : rowLinkageOk P row running = true ↔ row.prevHash = running ∧
      ∃ principal, principalFromActor P row.actorJson = some principal ∧
        row.eventHash = chainDigest P (row.fields row.prevHash principal) := by
  rw [rowLinkageOk, Bool.and_eq_true, beq_iff_eq, beq_iff_eq, map_eq_some_iff]
  constructor
  · rintro ⟨rfl, principal, hpri, hhash⟩
    exact ⟨rfl, principal, hpri, hhash.symm⟩
  · rintro ⟨rfl, principal, hpri, hhash⟩
    exact ⟨rfl, principal, hpri, hhash.symm⟩

theorem agrees_of_eventHash_eq {row' : AuditRow} {running' : Bytes}
    (hP : Function.Injective P.sha256)
    (hfits : row.Fits P) (hfits' : row'.Fits P) (h : rowLinkageOk P row running = true)
    (h' : rowLinkageOk P row' running' = true) (hhash : row.eventHash = row'.eventHash) :
    row.Agrees P row' ∧ running = running' := by
  obtain ⟨rfl, principal, hpri, hdig⟩ := rowLinkageOk_iff.mp h
  obtain ⟨rfl, principal', hpri', hdig'⟩ := rowLinkageOk_iff.mp h'
  have hfields : row.fields row.prevHash principal = row'.fields row'.prevHash principal' := by
    refine preimage_inj (hfits _ hpri) (hfits' _ hpri') (hP ?_)
    exact hdig.symm.trans (hhash.trans hdig')
  simp only [AuditRow.fields, ChainFields.mk.injEq] at hfields
  obtain ⟨hprev, heve, htenant, hpro, henv, hsecret, hver, hprin, hreq, hsource, hres,
    hreason, hnow⟩ := hfields
  refine ⟨⟨by rw [hpri, hpri', hprin], ?_⟩, hprev⟩
  cases row
  cases row'
  subst hprev heve htenant hpro henv hsecret hver hreq hsource hres hreason hnow hhash
  rfl

theorem mem_of_mem_tenantRows (h : row ∈ tenantRows table tenantId) : row ∈ table :=
  mem_of_mem_filter ((perm_insertionSort _ _).mem_iff.mp h)

theorem linked_of_valid (h : (verifyChain P table tenantId).valid = true) :
    Linked (check P) genesisHash (tenantRows table tenantId) :=
  linked_of_scan (isNone_iff_eq_none.mp h)

theorem verifyChain_of_linked (h : Linked (check P) genesisHash (tenantRows table tenantId)) :
    verifyChain P table tenantId =
      { eventCount := (tenantRows table tenantId).length, valid := true, firstBadEventId := none,
        headHash := selectHead P table tenantId } := by
  rw [verifyChain, h.scan_eq, tenantRows, length_insertionSort]
  rfl

@[simp] theorem principalFromActor_actorRecord (principal : Text) :
    principalFromActor P (actorRecord P principal) = some principal :=
  P.readMember_writeMember _ _

variable (P) in
/-- A stored table on which the chain of the tenant verifies with the same count and the same head.
The event id is the primary key. -/
structure SameReport (tenantId : Text) (table table' : List AuditRow) : Prop where
  fits : ∀ row ∈ table', row.Fits P
  unique : (table'.map AuditRow.eventId).Nodup
  valid : (verifyChain P table' tenantId).valid = true
  eventCount : (verifyChain P table' tenantId).eventCount = (verifyChain P table tenantId).eventCount
  headHash : (verifyChain P table' tenantId).headHash = (verifyChain P table tenantId).headHash

theorem SameReport.agrees (hP : Function.Injective P.sha256)
    (hfits : ∀ row ∈ table, row.Fits P) (hvalid : (verifyChain P table tenantId).valid = true)
    (h : SameReport P tenantId table table') :
    Forall₂ (AuditRow.Agrees P) (tenantRows table tenantId) (tenantRows table' tenantId) := by
  have hlinked := linked_of_valid hvalid
  have hlinked' := linked_of_valid h.valid
  have hcount := h.eventCount
  have hhead := h.headHash
  rw [verifyChain_of_linked hlinked, verifyChain_of_linked hlinked'] at hcount hhead
  refine (hlinked.forall₂ (fun row hrow row' hrow' _ _ hok hok' hhash => ?_) hlinked' hcount.symm
    hhead.symm).1
  exact agrees_of_eventHash_eq hP (hfits row (mem_of_mem_tenantRows hrow))
    (h.fits row' (mem_of_mem_tenantRows hrow')) hok hok' hhash

/-- The row under another event id, if it has this one. -/
def AuditRow.rename (eventId fresh : Text) (row : AuditRow) : AuditRow :=
  { row with eventId := if row.eventId = eventId then fresh else row.eventId }

theorem tenantRows_rename (eventId fresh : Text) (table : List AuditRow) :
    tenantRows (table.map (AuditRow.rename eventId fresh)) tenantId =
      (tenantRows table tenantId).map (AuditRow.rename eventId fresh) := by
  have hfilter : (table.map (AuditRow.rename eventId fresh)).filter (·.tenantId == tenantId) =
      (table.filter (·.tenantId == tenantId)).map (AuditRow.rename eventId fresh) := by
    rw [List.filter_map]
    rfl
  rw [tenantRows, hfilter, tenantRows]
  refine (map_insertionSort (fun a b : AuditRow => a.createdAtUtc.toInt ≤ b.createdAtUtc.toInt)
    (fun a b : AuditRow => a.createdAtUtc.toInt ≤ b.createdAtUtc.toInt) _ _ ?_).symm
  intro a _ b _
  exact Iff.rfl

/-- No check looks at the event id. -/
theorem sameReport_rename (eventId : Text) {fresh : Text} (hfits : ∀ row ∈ table, row.Fits P)
    (hunique : (table.map AuditRow.eventId).Nodup) (hfresh : fresh ∉ table.map AuditRow.eventId)
    (hvalid : (verifyChain P table tenantId).valid = true) :
    SameReport P tenantId table (table.map (AuditRow.rename eventId fresh)) := by
  have hlinked := linked_of_valid hvalid
  obtain ⟨hrenamed, hhead⟩ := hlinked.map (f := AuditRow.rename eventId fresh) (fun _ _ => rfl)
    (fun _ => rfl)
  rw [← tenantRows_rename] at hrenamed hhead
  have hreport := verifyChain_of_linked hrenamed
  have hbefore := verifyChain_of_linked hlinked
  refine ⟨fun row hrow => ?_, ?_, by rw [hreport], ?_, ?_⟩
  · obtain ⟨row, hmem, rfl⟩ := mem_map.mp hrow
    exact hfits row hmem
  · rw [List.map_map]
    have hids : AuditRow.eventId ∘ AuditRow.rename eventId fresh =
        (fun id => if id = eventId then fresh else id) ∘ AuditRow.eventId := rfl
    rw [hids, ← List.map_map]
    refine hunique.map_on fun x hx y hy heq => ?_
    split at heq
    · split at heq
      · rename_i hxe hye
        exact hxe.trans hye.symm
      · exact absurd (heq ▸ hy) hfresh
    · split at heq
      · exact absurd (heq ▸ hx) hfresh
      · exact heq
  · rw [hreport, hbefore, tenantRows_rename, length_map]
  · rw [hreport, hbefore]
    exact hhead

/-- A stored chain that verifies with the same count and the same head agrees on what the digest
covers. The chain is determined by the two only when the tenant has no event: any event id can be
replaced. -/
theorem rows_agree (P : Externals) (hP : Function.Injective P.sha256) (tenantId : Text)
    (table : List AuditRow) (hfits : ∀ row ∈ table, row.Fits P)
    (hunique : (table.map AuditRow.eventId).Nodup)
    (hvalid : (verifyChain P table tenantId).valid = true) :
    (∀ table', SameReport P tenantId table table' →
      Forall₂ (AuditRow.Agrees P) (tenantRows table tenantId) (tenantRows table' tenantId)) ∧
      ((∀ table', SameReport P tenantId table table' →
        tenantRows table' tenantId = tenantRows table tenantId) ↔ tenantRows table tenantId = []) := by
  refine ⟨fun table' h => h.agrees hP hfits hvalid, fun hdetermined => ?_, fun hnone table' h => ?_⟩
  · refine eq_nil_iff_forall_not_mem.mpr fun row hrow => ?_
    obtain ⟨fresh, hfresh⟩ := Infinite.exists_notMem_finset (table.map AuditRow.eventId).toFinset
    rw [List.mem_toFinset] at hfresh
    have hsame := hdetermined _ (sameReport_rename row.eventId hfits hunique hfresh hvalid)
    rw [tenantRows_rename] at hsame
    -- the renamed row would have to stand in the chain as it was
    have hrenamed : row.rename row.eventId fresh ∈ tenantRows table tenantId :=
      hsame ▸ mem_map_of_mem hrow
    refine hfresh (mem_map.mpr ⟨_, mem_of_mem_tenantRows hrenamed, ?_⟩)
    exact if_pos rfl
  · have hagrees := h.agrees hP hfits hvalid
    rw [hnone] at hagrees ⊢
    exact forall₂_nil_left_iff.mp hagrees

namespace Forged

def readQuoted : Text → Text
  | '"' :: c :: rest => c :: readQuoted rest
  | _ => []

theorem readQuoted_flatMap (value : Text) : readQuoted (value.flatMap fun c => ['"', c]) = value := by
  induction value with
  | nil => rfl
  | cons c value ih => rw [flatMap_cons, cons_append, cons_append, nil_append, readQuoted, ih]

/-- A member is its name and its value with a mark before each character; what follows is another
member. -/
def plain : Externals where
  toPrimitives := { Format.reference.toPrimitives with sha256 := id }
  writeMember name value := name ++ value.flatMap fun c => ['"', c]
  readMember name text := some (readQuoted (text.drop name.length))
  readMember_writeMember name value := by rw [drop_left, readQuoted_flatMap]

def read : SecretAuditEvent where
  eventType := "secret.read".toList
  tenantId := "t1".toList
  projectId := some "p1".toList
  environmentId := none
  secretId := some "s1".toList
  secretVersion := some 1#64
  principalId := "alice".toList
  requestId := "r1".toList
  source := "api".toList
  result := "success".toList
  reason := []

def stored : AuditRow := auditRow plain read "e1".toList 100 genesisHash

/-- The row under another id, with an actor record that says more. -/
def forged : AuditRow :=
  { stored with
    eventId := "e2".toList
    actorJson := stored.actorJson ++ ",shift".toList }

theorem forged_row_verifies :
    Function.Injective plain.sha256 ∧ (verifyChain plain [stored] "t1".toList).valid = true ∧
      (verifyChain plain [forged] "t1".toList).valid = true ∧
      (verifyChain plain [forged] "t1".toList).eventCount =
        (verifyChain plain [stored] "t1".toList).eventCount ∧
      (verifyChain plain [forged] "t1".toList).headHash = (verifyChain plain [stored] "t1".toList).headHash ∧
      forged.eventId ≠ stored.eventId ∧ forged.actorJson ≠ stored.actorJson :=
  ⟨Function.injective_id, by decide +kernel, by decide +kernel, by decide +kernel,
    by decide +kernel, by decide +kernel, by decide +kernel⟩

theorem fits_stored : stored.Fits plain := by
  intro principal h
  have hpri : principalFromActor plain stored.actorJson = some "alice".toList :=
    principalFromActor_actorRecord _
  obtain rfl := some.inj (hpri.symm.trans h)
  exact ⟨by decide +kernel, by decide +kernel, by decide +kernel⟩

/-- The chain of one event is not determined, that of a tenant without events is. -/
theorem one_event_not_determined :
    ¬ (∀ table', SameReport plain "t1".toList [stored] table' →
        tenantRows table' "t1".toList = tenantRows [stored] "t1".toList) ∧
      ∀ table', SameReport plain "t2".toList [stored] table' →
        tenantRows table' "t2".toList = tenantRows [stored] "t2".toList := by
  have hunique : ([stored].map AuditRow.eventId).Nodup := by decide +kernel
  have hone := rows_agree plain Function.injective_id "t1".toList [stored] (by simpa using fits_stored)
    hunique (by decide +kernel)
  have hnone := rows_agree plain Function.injective_id "t2".toList [stored] (by simpa using fits_stored)
    hunique (by decide +kernel)
  exact ⟨fun h => absurd (hone.2.mp h) (by decide +kernel), hnone.2.mpr (by decide +kernel)⟩

end Forged

theorem rowLinkageOk_auditRow (P : Externals) (event : SecretAuditEvent) (eventId : Text)
    (now : Nat) (prev : Bytes) :
    rowLinkageOk P (auditRow P event eventId now prev) prev = true :=
  rowLinkageOk_iff.mpr ⟨rfl, event.principalId, principalFromActor_actorRecord _, rfl⟩

theorem insertEvent_cases (h : insertEvent table row now = .ok table') : table' = table ++ [row] ∧
    now ≤ i64Max := by
  rw [insertEvent] at h
  split at h
  · cases h
  next hnow =>
  split at h
  · cases h
  split at h
  · cases h
  · cases h
    exact ⟨rfl, not_lt.mp hnow⟩

/-- No row of the tenant is later than the clock. -/
def NotBefore (table : List AuditRow) (tenantId : Text) (now : Nat) : Prop :=
  ∀ row ∈ table, row.tenantId = tenantId → row.createdAtUtc.toInt ≤ now

instance (table : List AuditRow) (tenantId : Text) (now : Nat) : Decidable (NotBefore table tenantId now) :=
  inferInstanceAs (Decidable (∀ row ∈ table, row.tenantId = tenantId → row.createdAtUtc.toInt ≤ now))

theorem toInt_ofNat (h : now ≤ i64Max) : (BitVec.ofNat 64 now).toInt = now := by
  have hlt : now < 2 ^ 63 := by
    unfold i64Max at h
    omega
  have hnat : (BitVec.ofNat 64 now).toNat = now := by
    exact mod_eq_of_lt (by omega)
  rw [BitVec.toInt_eq_toNat_of_lt (by rw [hnat]; omega), hnat]

theorem tenantRows_concat_of_ne (h : row.tenantId ≠ tenantId) :
    tenantRows (table ++ [row]) tenantId = tenantRows table tenantId := by
  have hfilter : (table ++ [row]).filter (·.tenantId == tenantId) =
    table.filter (·.tenantId == tenantId) := by
    simp [h]
  rw [tenantRows, hfilter, tenantRows]

theorem tenantRows_concat
    (h : ∀ earlier ∈ table, earlier.tenantId = row.tenantId →
      earlier.createdAtUtc.toInt ≤ row.createdAtUtc.toInt) :
    tenantRows (table ++ [row]) row.tenantId = tenantRows table row.tenantId ++ [row] := by
  have hfilter : (table ++ [row]).filter (·.tenantId == row.tenantId) =
      table.filter (·.tenantId == row.tenantId) ++ [row] := by
    simp
  rw [tenantRows, hfilter, insertionSort_concat, tenantRows]
  intro earlier hearlier
  obtain ⟨hmem, htenant⟩ := mem_filter.mp hearlier
  exact h earlier hmem (beq_iff_eq.mp htenant)

/-- The chain of every tenant verifies. -/
def AllLinked (P : Externals) (table : List AuditRow) : Prop :=
  ∀ tenantId, Linked (check P) genesisHash (tenantRows table tenantId)

theorem AllLinked.insertEvent {event : SecretAuditEvent} {eventId : Text} (h : AllLinked P table)
    (hclock : NotBefore table event.tenantId now)
    (hinsert : Audit.insertEvent table
      (auditRow P event eventId now (selectHead P table event.tenantId)) now = .ok table') :
    AllLinked P table' := by
  obtain ⟨rfl, hnow⟩ := insertEvent_cases hinsert
  set row := auditRow P event eventId now (selectHead P table event.tenantId)
  intro tenantId
  by_cases htenant : event.tenantId = tenantId
  · subst htenant
    have hla : tenantRows (table ++ [row]) row.tenantId = tenantRows table row.tenantId ++ [row] := by
      refine tenantRows_concat fun earlier hmem hs => ?_
      exact (toInt_ofNat hnow).symm ▸ hclock earlier hmem hs
    refine hla ▸ linked_append.mpr ⟨h _, ?_, trivial⟩
    exact rowLinkageOk_auditRow P event eventId now _
  · rw [tenantRows_concat_of_ne htenant]
    exact h tenantId

theorem AllLinked.appendAfter {request : Request} {prev : Bytes} (h : AllLinked P table)
    (hprev : prev = selectHead P table request.event.tenantId)
    (hclock : NotBefore table request.event.tenantId request.now) :
    AllLinked P (appendAfter P table request prev).1 := by
  subst hprev
  unfold Audit.appendAfter
  split
  · next table' hins => exact h.insertEvent hclock hins
  · exact h

/-- What a process is about to store comes before any other event of the tenant since the head was
read, and is not dated before it. -/
def Process.InOrder (P : Externals) (table : List AuditRow) : Process → Prop
  | .done _ => True
  | .reading request => request.within = true → NotBefore table request.event.tenantId request.now
  | .inserting request prev =>
    prev = selectHead P table request.event.tenantId ∧ NotBefore table request.event.tenantId request.now

instance (P : Externals) (table : List AuditRow) : ∀ process : Process, Decidable (process.InOrder P table)
  | .done _ => .isTrue trivial
  | .reading request =>
    inferInstanceAs (Decidable (request.within = true → NotBefore table request.event.tenantId request.now))
  | .inserting request prev =>
    inferInstanceAs (Decidable (prev = selectHead P table request.event.tenantId ∧
      NotBefore table request.event.tenantId request.now))

/-- A process that goes on writes what fits the chain as it is now. -/
def InOrder (P : Externals) (s : System (List AuditRow) Process) : Event Request → Prop
  | .proceed p => (s.processes p).InOrder P s.store
  | _ => True

instance (P : Externals) : ∀ s event, Decidable (InOrder P s event)
  | s, .proceed p => inferInstanceAs (Decidable ((s.processes p).InOrder P s.store))
  | _, .call _ _ => .isTrue trivial
  | _, .crash _ => .isTrue trivial

theorem AllLinked.step {s : System (List AuditRow) Process} (h : AllLinked P s.store) {event : Event Request}
    (hevent : InOrder P s event) : AllLinked P (step (program P) s event).store := by
  rcases step_store (program P) s event with hs | ⟨p, rfl, hst⟩
  · rw [hs]
    exact h
  replace hevent : (s.processes p).InOrder P s.store := hevent
  show AllLinked P (auditSecretEvent P s.store (s.processes p)).1
  cases hp : s.processes p with
  | done result => exact h
  | reading request =>
    rw [hp] at hevent
    rw [auditSecretEvent]
    split
    · next hw => exact h.appendAfter rfl (hevent hw)
    · exact h
  | inserting request prev =>
    rw [hp] at hevent
    exact h.appendAfter hevent.1 hevent.2

/-- Over every run of appends in order, every tenant's chain verifies. -/
theorem chains_verify (P : Externals) (table : List AuditRow)
    (htable : ∀ tenantId, (verifyChain P table tenantId).valid = true) (events : List (Event Request))
    (hevents : Runs.Along (step (program P)) (InOrder P) (.new (program P) table) events) (tenantId : Text) :
    (verifyChain P (run (program P) (.new (program P) table) events).store tenantId).valid = true := by
  have hst : AllLinked P (System.new (program P) table).store :=
    fun tenantId => linked_of_valid (htable tenantId)
  have hend : AllLinked P (run (program P) (.new (program P) table) events).store :=
    hevents.keeps (fun _ _ hev h => AllLinked.step h hev) hst
  rw [verifyChain_of_linked (hend tenantId)]

namespace Interleaved

def request (eventId : String) (now : Nat) (within : Bool) : Request :=
  ⟨Forged.read, eventId.toList, now, within⟩

def after (events : List (Event Request)) : List AuditRow :=
  (run (program Forged.plain) (.new (program Forged.plain) []) events).store

/-- Two processes append after one head; and the clock goes back between two appends, each of them
in a transaction. -/
theorem broken_chains :
    (verifyChain Forged.plain [] "t1".toList).valid = true ∧
      (verifyChain Forged.plain
        (after [.call 0 (request "e1" 100 false), .call 1 (request "e2" 100 false), .proceed 0,
        .proceed 1, .proceed 0, .proceed 1]) "t1".toList).valid = false ∧
      (verifyChain Forged.plain
        (after [.call 0 (request "e1" 200 true), .proceed 0, .call 0 (request "e2" 100 true),
        .proceed 0]) "t1".toList).valid = false := by
  refine ⟨rfl, by decide +kernel, by decide +kernel⟩

def turns : List (Event Request) :=
  [.call 0 (request "e1" 100 false), .call 1 (request "e2" 100 true), .proceed 0, .proceed 0, .proceed 1,
    .call 0 (request "e3" 150 false), .proceed 0, .proceed 0]

theorem chain_of_three : (after turns).length = 3 ∧
    (verifyChain Forged.plain (after turns) "t1".toList).valid = true :=
  ⟨by decide +kernel, chains_verify Forged.plain [] (fun _ => rfl) turns (by decide +kernel) "t1".toList⟩

end Interleaved

end CipherVault.Audit
