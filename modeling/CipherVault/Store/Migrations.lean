import CipherVault.Base.Runs
import CipherVault.Base.Schema
import CipherVault.Crypto.Basic

/-!
# Store.Migrations

`open`, `init_tables` and `run_migrations` of `crates/local-store/src/db.rs`: how a database of an
older version is brought to version 5. No statement is in a transaction with another one.
-/

namespace CipherVault.Store.Migrations

open Crypto Schema Nat Function List

inductive TableName where
  | vaultMetadata
  | trackedFiles
  | epochKeys
  | snapshots
  | localChunks
  | heads
  | checkpointEvidence
  | deviceCertificates
  | recoverySets
  | pendingUploads
  | activityLog
  | leaseReceipts
  | scopedContext
  | scopedSecretCache
  | scopedBindingCache
deriving DecidableEq

inductive IndexName where
  | checkpointHead
  | activityCreated
  | leaseExpires
  | scopedSecretCacheProject
deriving DecidableEq

inductive Value where
  | null
  | integer (n : Int)
  | text (t : Text)
  | blob (b : Bytes)

abbrev Db := Database TableName IndexName String Value

abbrev Sql := Statement TableName IndexName String Value

abbrev SqlError := Failure TableName String

def columnsOf : TableName → List String
  | .vaultMetadata =>
    ["id", "vault_id", "current_epoch", "device_id", "device_counter", "authority_generation",
      "device_signing_key",
      "recovery_signing_pk", "recovery_encryption_pk", "recovery_locator", "genesis_cbor"]
  | .trackedFiles => ["relative_path", "file_id"]
  | .epochKeys => ["epoch", "epoch_key_bytes"]
  | .snapshots =>
    ["snapshot_id", "parent_snapshot_ids", "encrypted_manifest_cid", "encrypted_manifest",
      "record_cbor", "state",
      "created_at_utc"]
  | .localChunks => ["chunk_cid", "chunk_cbor"]
  | .heads => ["snapshot_id", "head_cbor", "is_active"]
  | .checkpointEvidence =>
    ["commitment", "salt", "head_record_cid", "chain_id", "contract_address", "tx_hash",
      "block_number", "timestamp_utc"]
  | .deviceCertificates => ["certificate_id", "cert_cbor"]
  | .recoverySets => ["head_cid", "set_cbor"]
  | .pendingUploads => ["snapshot_id", "record_cid", "attempts", "last_error", "created_at_utc"]
  | .activityLog => ["id", "event_type", "summary", "details_json", "created_at_utc"]
  | .leaseReceipts =>
    ["lease_id", "operator_endpoint", "closure_digest_hex", "term_days", "bytes", "issued_at_utc",
      "expires_at_utc",
      "signature_hex", "recorded_at_utc"]
  | .scopedContext => ["id", "tenant_id", "workspace_id", "project_id", "environment_id", "updated_at_utc"]
  | .scopedSecretCache =>
    ["secret_id", "tenant_id", "project_id", "environment_id", "repository_binding_id", "service_id", "name",
      "secret_type", "current_version", "status", "updated_at_utc"]
  | .scopedBindingCache =>
    ["binding_id", "project_id", "provider", "external_repo_id", "repo_full_name", "repo_url", "status",
      "updated_at_utc"]

def create (name : TableName) : Sql := .createTable name (columnsOf name)

def createLeaseExpires : Sql := .createIndex .leaseExpires .leaseReceipts ["expires_at_utc"]

def createScopedSecretCacheProject : Sql :=
  .createIndex .scopedSecretCacheProject .scopedSecretCache ["project_id", "environment_id"]

/-- `ALTER TABLE epoch_keys ADD COLUMN created_at_utc INTEGER NOT NULL DEFAULT 0`. -/
def addCreatedAt : Sql := .addColumn .epochKeys "created_at_utc" (.integer 0)

def initStatements : List Sql :=
  [create .vaultMetadata, create .trackedFiles, create .epochKeys, create .snapshots,
    create .localChunks, create .heads,
    create .checkpointEvidence, .createIndex .checkpointHead .checkpointEvidence ["head_record_cid"],
    create .deviceCertificates, create .recoverySets, create .pendingUploads, create .activityLog,
    .createIndex .activityCreated .activityLog ["created_at_utc"], create .leaseReceipts, createLeaseExpires,
    create .scopedContext, create .scopedSecretCache, createScopedSecretCacheProject,
      create .scopedBindingCache]

variable (db : Db)

def initTables : Except SqlError Db := db.execAll initStatements

def toVersion2 : List Sql := [create .pendingUploads, .setVersion 2]

def toVersion3 : List Sql := [addCreatedAt, .setVersion 3]

def toVersion4 : List Sql := [create .leaseReceipts, createLeaseExpires, .setVersion 4]

def toVersion5 : List Sql :=
  [create .scopedContext, create .scopedSecretCache, createScopedSecretCacheProject,
    create .scopedBindingCache,
    .setVersion 5]

def migrateBelow (bound : Nat) (batch : List Sql) (version : Nat) (db : Db) : Except SqlError Db :=
  if version < bound then db.execAll batch else .ok db

/-- Every version above that of the file, statement by statement. -/
def runMigrations : Except SqlError Db := do
  let version := db.version
  let db ← migrateBelow 2 toVersion2 version db
  let db ← migrateBelow 3 toVersion3 version db
  let db ← migrateBelow 4 toVersion4 version db
  migrateBelow 5 toVersion5 version db

def openStore : Except SqlError Db := do
  let db ← initTables db
  runMigrations db

variable (version : Nat)

def migrations : List Sql :=
  (if version < 2 then toVersion2 else []) ++ (if version < 3 then toVersion3 else []) ++
    (if version < 4 then toVersion4 else []) ++ (if version < 5 then toVersion5 else [])

theorem migrateBelow_eq (bound : Nat) (batch : List Sql) (version : Nat) (db : Db) :
    migrateBelow bound batch version db = db.execAll (if version < bound then batch else []) := by
  unfold migrateBelow
  split
  · rfl
  · rfl

theorem runMigrations_eq : runMigrations db = db.execAll (migrations db.version) := by
  rw [migrations, Database.execAll_append, Database.execAll_append, Database.execAll_append]
  simp only [runMigrations, migrateBelow_eq, bind_assoc]

def opening : List Sql := initStatements ++ migrations version

def newestVersion : Nat := 5

def columnsAt (name : TableName) : List String :=
  match name with
  | .epochKeys => if version < 3 then columnsOf .epochKeys else columnsOf .epochKeys ++ ["created_at_utc"]
  | name => columnsOf name

/-- A database of a version that this code knows, with any rows. -/
structure Content : Prop where
  conforms : db.Conforms columnsAt
  known : db.version ≤ newestVersion

theorem columnsAt_of_iff {m n : Nat} (h : m < 3 ↔ n < 3) (name : TableName) :
    columnsAt m name = columnsAt n name := by
  cases name with
  | epochKeys => simp only [columnsAt, h]
  | _ => rfl

theorem create_columns (name : TableName) : columnsOf name = columnsAt 0 name := by
  cases name with
  | _ => rfl

section

variable {known : List TableName} {v v' : Nat} {l : List Sql}

variable {name : TableName}

theorem script_create (h : Script columnsAt (name :: known) v l v') :
    Script columnsAt known v (create name :: l) v' :=
  .createTable (create_columns name) h

theorem script_toVersion5 (hv : 3 ≤ v) (hv' : v ≤ 5) : Script columnsAt known v toVersion5 5 :=
  script_create (script_create (.createIndex mem_cons_self (by simp [columnsAt, columnsOf])
    (script_create (.setVersion hv' (columnsAt_of_iff (by omega)) .nil))))

theorem script_toVersion4 (hv : 3 ≤ v) (hv' : v ≤ 4) (h : Script columnsAt (.leaseReceipts :: known) 4 l v') :
    Script columnsAt known v (toVersion4 ++ l) v' :=
  script_create (.createIndex mem_cons_self (by simp [columnsAt, columnsOf])
    (.setVersion hv' (columnsAt_of_iff (by omega)) h))

theorem script_toVersion3 (hknown : .epochKeys ∈ known) (hv : v ≤ 2) (h : Script columnsAt known 3 l v') :
    Script columnsAt known v (toVersion3 ++ l) v' := by
  have hcol : columnsAt v .epochKeys = columnsOf .epochKeys := if_pos (lt_succ_of_le hv)
  refine .addColumn hknown (by omega) ?_ ?_ ?_ h
  · rw [hcol]
    decide
  · rw [hcol]
    rfl
  · intro name hne
    cases name with
    | epochKeys => exact absurd rfl hne
    | _ => rfl

theorem script_toVersion2 (hv : v ≤ 1) (h : Script columnsAt (.pendingUploads :: known) 2 l v') :
    Script columnsAt known v (toVersion2 ++ l) v' :=
  script_create (.setVersion (by omega) (columnsAt_of_iff (by omega)) h)

theorem script_migrations (hknown : .epochKeys ∈ known) (hv : v ≤ newestVersion) :
    Script columnsAt known v (migrations v) newestVersion := by
  have hlist : v = 5 ∨ v = 4 ∨ v = 3 ∨ v = 2 ∨ v ≤ 1 := by
    unfold newestVersion at hv
    omega
  have h5 (known n) (hn : 3 ≤ n) (hn' : n ≤ 5) : Script columnsAt known n toVersion5
    newestVersion := script_toVersion5 hn hn'
  have h3 (known) (hknown : .epochKeys ∈ known) : Script columnsAt known 2
    (toVersion3 ++ (toVersion4 ++ toVersion5))
      newestVersion :=
    script_toVersion3 hknown (by decide)
      (script_toVersion4 (by decide) (by decide) (h5 _ 4 (by decide) (by decide)))
  rcases hlist with rfl | rfl | rfl | rfl | hle
  · exact .nil
  · exact h5 known 4 (by decide) (by decide)
  · exact script_toVersion4 (by decide) (by decide) (h5 _ 4 (by decide) (by decide))
  · exact h3 known hknown
  · have hmig : migrations v = toVersion2 ++ (toVersion3 ++ (toVersion4 ++ toVersion5)) := by
      rw [migrations, if_pos (by omega), if_pos (by omega), if_pos (by omega), if_pos (by omega)]
      simp only [append_assoc]
    rw [hmig]
    exact script_toVersion2 hle (h3 _ (mem_cons_of_mem _ hknown))

theorem script_initStatements {cols : Nat → TableName → List String}
    (hcreate : ∀ name, columnsOf name = cols 0 name)
    (hcols : ∀ name, name ≠ .epochKeys → cols v name = columnsOf name)
    (h : ∀ known, .epochKeys ∈ known → Script cols known v l v') :
    Script cols [] v (initStatements ++ l) v' := by
  have hi (name : TableName) (hn : name ≠ .epochKeys) (columns : List String)
    (hsub : columns ⊆ columnsOf name) :
      columns ⊆ cols v name := by
    rw [hcols name hn]
    exact hsub
  refine .createTable (hcreate _)
    (.createTable (hcreate _) (.createTable (hcreate _) (.createTable (hcreate _) ?_)))
  refine .createTable (hcreate _) (.createTable (hcreate _) (.createTable (hcreate _) ?_))
  refine .createIndex mem_cons_self (hi .checkpointEvidence (by decide) _ (by decide)) ?_
  refine .createTable (hcreate _)
    (.createTable (hcreate _) (.createTable (hcreate _) (.createTable (hcreate _) ?_)))
  refine .createIndex mem_cons_self (hi .activityLog (by decide) _ (by decide)) ?_
  refine .createTable (hcreate _)
    (.createIndex mem_cons_self (hi .leaseReceipts (by decide) _ (by decide)) ?_)
  refine .createTable (hcreate _) (.createTable (hcreate _) ?_)
  refine .createIndex mem_cons_self (hi .scopedSecretCache (by decide) _ (by decide)) ?_
  exact .createTable (hcreate _) (h _ (by decide))

theorem columnsAt_of_ne (h : name ≠ .epochKeys) : columnsAt v name = columnsOf name := by
  cases name with
  | epochKeys => exact absurd rfl h
  | _ => rfl

theorem script_opening (hv : v ≤ newestVersion) : Script columnsAt [] v (opening v) newestVersion :=
  script_initStatements create_columns (fun _ => columnsAt_of_ne) fun _ hknown => script_migrations hknown hv

end

/-- The database that a process leaves which is killed after the first statements of `open`. -/
def killed (k : Nat) : Db := db.after ((opening db.version).take k)

/-- It is not killed right after the new column. -/
def Spared (k : Nat) : Prop := endsAltering ((opening db.version).take k) = false

instance : DecidableRel Spared :=
  fun db k => inferInstanceAs (Decidable (endsAltering ((opening db.version).take k) = false))

variable {k : Nat}

section

variable {db : Db}

theorem Content.present : db.Present [] := nofun

theorem openStore_eq (h : Content db) : openStore db = db.execAll (opening db.version) := by
  have hscript : Script columnsAt [] db.version (initStatements ++ []) db.version :=
    script_initStatements create_columns (fun _ => columnsAt_of_ne) fun _ _ => .nil
  rw [append_nil] at hscript
  obtain ⟨db', hinit, hver, -, -⟩ := hscript.runs h.conforms rfl Content.present
  rw [opening, Database.execAll_append, hinit, openStore, initTables, hinit]
  show runMigrations db' = db'.execAll (migrations db.version)
  rw [runMigrations_eq, hver]

theorem Content.opens (h : Content db) :
    ∃ db', openStore db = .ok db' ∧ db'.version = newestVersion ∧ Content db' ∧ db.Extends db' := by
  obtain ⟨db', hrun, hver, hcon, hextends⟩ := (script_opening h.known).runs h.conforms rfl Content.present
  exact ⟨db', (openStore_eq h).trans hrun, hver, ⟨hcon, le_of_eq hver⟩, hextends⟩

theorem Content.killed (h : Content db) (hk : Spared db k) : Content (killed db k) ∧
    db.Extends (killed db k) := by
  obtain ⟨v, hv, hscript⟩ := (script_opening h.known).take k hk
  obtain ⟨db', hrun, hver, hcon, hextends⟩ := hscript.runs h.conforms rfl Content.present
  rw [Migrations.killed, Database.after_eq hrun]
  exact ⟨⟨hcon, hver ▸ hv⟩, hextends⟩

/-- However often the opening process is killed, the next one opens the database and finds all rows.
-/
theorem opens_after_kills (h : Content db) (kills : List Nat) (hkills : Runs.Along killed Spared db kills) :
    ∃ db', openStore (kills.foldl killed db) = .ok db' ∧ db'.version = newestVersion ∧ db.Extends db' := by
  have hend : Content (kills.foldl killed db) ∧ db.Extends (kills.foldl killed db) := by
    refine hkills.keeps (I := fun cut => Content cut ∧ db.Extends cut) ?_ ⟨h, .refl db⟩
    intro cut k hk hcut
    obtain ⟨hcon, hextends⟩ := hcut.1.killed hk
    exact ⟨hcon, hcut.2.trans hextends⟩
  obtain ⟨db', ho, hver, -, hextends⟩ := hend.1.opens
  exact ⟨db', ho, hver, hend.2.trans hextends⟩

end

def killedMigrating (k : Nat) : Db := killed db (initStatements.length + k)

/-! ## Killed after the new column -/

section

variable {db : Db}

/-- The schema of a database that has the new column, but not its version. -/
def unrecorded (name : TableName) : List String :=
  if version = 0 then columnsOf name else columnsAt 3 name

/-- What `run_migrations` does before the new column. -/
def beforeColumn : List Sql := if version < 2 then toVersion2 else []

theorem take_of_endsAltering {v : Nat} (hv : v ≤ newestVersion)
    (hk : endsAltering ((migrations v).take k) = true) :
    v ≤ 2 ∧ (migrations v).take k = beforeColumn v ++ [addCreatedAt] := by
  have hshort : ∀ v ≤ 5, ∀ k < 13, endsAltering ((migrations v).take k) = true → v ≤ 1 ∧ k = 3 ∨
    v = 2 ∧ k = 1 := by decide
  have hlong : ∀ v ≤ 5, (migrations v).length < 13 ∧ endsAltering (migrations v) = false := by decide
  by_cases hlt : k < 13
  · rcases hshort v hv k hlt hk with ⟨hle, rfl⟩ | ⟨rfl, rfl⟩
    · refine ⟨le_succ_of_le hle, ?_⟩
      rw [migrations, beforeColumn, if_pos (by omega), if_pos (by omega)]
      rfl
    · exact ⟨le_refl _, rfl⟩
  · obtain ⟨hlen, hends⟩ := hlong v hv
    rw [List.take_of_length_le (by omega), hends] at hk
    cases hk

theorem script_beforeColumn {v : Nat} (hv : v ≤ 2) :
    Script columnsAt [] v (initStatements ++ beforeColumn v) 2 := by
  refine script_initStatements create_columns (fun _ => columnsAt_of_ne) fun known _ => ?_
  by_cases hlt : v < 2
  · have h : Script columnsAt known v (toVersion2 ++ []) 2 := script_toVersion2 (le_of_lt_succ hlt) .nil
    rw [beforeColumn, if_pos hlt]
    exact h
  · obtain rfl : v = 2 := by omega
    exact .nil

theorem killed_after_column (h : Content db) (hk : endsAltering ((migrations db.version).take k) = true) :
    (killedMigrating db k).version = 2 ∧ (killedMigrating db k).Conforms unrecorded ∧
      ∃ t, (killedMigrating db k).tables .epochKeys = some t ∧ "created_at_utc" ∈ t.columns := by
  obtain ⟨hv, htake⟩ := take_of_endsAltering h.known hk
  obtain ⟨before, hb, hver, hcon, -⟩ := (script_beforeColumn hv).runs h.conforms rfl Content.present
  -- the column is added, since the script as a whole runs
  obtain ⟨t, ht, hcut⟩ : ∃ t, before.tables .epochKeys = some t ∧ killedMigrating db k =
      { before with
        tables := update before.tables .epochKeys
          (some (t.addColumn "created_at_utc" (.integer 0))) } := by
    obtain ⟨last, hla, -, -, -⟩ := (script_opening h.known).runs h.conforms rfl Content.present
    rw [opening, ← take_append_drop k (migrations db.version), htake, append_assoc, ← append_assoc,
      Database.execAll_append, hb] at hla
    have hr : before.execAll (addCreatedAt :: (migrations db.version).drop k) = .ok last := hla
    rw [Database.execAll] at hr
    cases hexec : before.exec addCreatedAt with
    | error failure =>
      rw [hexec] at hr
      cases hr
    | ok cut =>
      obtain ⟨t, ht, rfl⟩ := exec_addColumn_cases hexec
      refine ⟨t, ht, Database.after_eq ?_⟩
      rw [opening, List.take_length_add_append, htake, ← append_assoc, Database.execAll_append, hb]
      show before.execAll [addCreatedAt] = _
      rw [Database.execAll, hexec]
      rfl
  have h3 : Database.Conforms columnsAt { before with
      tables := update before.tables .epochKeys (some (t.addColumn "created_at_utc" (.integer 0))),
        version := 3 } := by
    refine hcon.addColumn ht ?_ ?_
    · rw [hver]
      rfl
    · intro name hne
      rw [columnsAt_of_ne hne, columnsAt_of_ne hne]
  rw [hcut]
  refine ⟨hver, ⟨fun name t ht => ?_, fun name hne => ?_⟩, t.addColumn "created_at_utc" (.integer 0),
    update_self TableName.epochKeys _ before.tables, mem_append_right _ mem_cons_self⟩
  · rw [h3.columns name t ht, hver]
    rfl
  · refine h3.altered name ?_
    rw [← create_columns]
    rw [hver] at hne
    exact hne

theorem refused_after_column (h : Content db) (hk : endsAltering ((migrations db.version).take k) = true) :
    ∃ cut, initTables (killedMigrating db k) = .ok cut ∧
      runMigrations cut = .error (.duplicateColumn "created_at_utc") := by
  obtain ⟨hver, hcon, t, ht, hcolumn⟩ := killed_after_column h hk
  have hscript : Script unrecorded [] 2 (initStatements ++ []) 2 :=
    script_initStatements (fun _ => rfl) (fun _ => columnsAt_of_ne) fun _ _ => .nil
  rw [append_nil] at hscript
  obtain ⟨cut, hinit, hver', -, hextends⟩ := hscript.runs hcon hver Content.present
  obtain ⟨t', ht', extra, hcol, -⟩ := hextends .epochKeys t ht
  have htwice : cut.exec addCreatedAt = .error (.duplicateColumn "created_at_utc") := by
    refine exec_addColumn_twice ht' ?_
    rw [hcol]
    exact mem_append_left _ hcolumn
  refine ⟨cut, hinit, ?_⟩
  rw [runMigrations_eq, hver']
  show cut.execAll (addCreatedAt :: _) = _
  rw [Database.execAll, htwice]

/-- Killed after the new column, a database cannot be opened again, whatever its rows. -/
theorem stuck_after_column (h : Content db) (hk : endsAltering ((migrations db.version).take k) = true) :
    openStore (killedMigrating db k) = .error (.duplicateColumn "created_at_utc") := by
  obtain ⟨cut, hinit, hrefused⟩ := refused_after_column h hk
  rw [openStore, hinit]
  exact hrefused

/-- Whatever the version and the rows of a database, killed after a statement of `run_migrations` it
is opened again, in the newest version and with all rows, if and only if the statement was not the
new column. -/
theorem migrations_restartable (h : Content db) (k : Nat) :
    (∃ db', openStore (killedMigrating db k) = .ok db' ∧ db'.version = newestVersion ∧ db.Extends db') ↔
      endsAltering ((migrations db.version).take k) = false := by
  constructor
  · rintro ⟨db', hopen, -⟩
    refine Bool.eq_false_iff.mpr fun hk => ?_
    obtain ⟨cut, hinit, hrefused⟩ := refused_after_column h hk
    rw [openStore, hinit] at hopen
    cases hrefused.symm.trans hopen
  · intro hk
    have hspared : Spared db (initStatements.length + k) := by
      rw [Spared, opening, List.take_length_add_append]
      exact endsAltering_append rfl hk
    exact opens_after_kills h [initStatements.length + k] ⟨hspared, trivial⟩

end

namespace Upgrade

def older : Db where
  tables := fun name =>
    match name with
    | .epochKeys =>
      some ⟨columnsOf .epochKeys, [[.integer 1, .blob [7#8]]], by
        intro row hrow
        rw [mem_singleton.mp hrow]
        rfl⟩
    | _ => none
  indexes := []
  version := 2

theorem content_older : Content older := by
  refine ⟨⟨fun name t ht => ?_, fun name hne => ?_⟩, by decide⟩
  · cases name with
    | epochKeys => cases ht; rfl
    | _ => cases ht
  · refine absurd ?_ hne
    cases name with
    | _ => rfl

/-- The first statement of the migration is the new column. -/
theorem killed_after_alter :
    Content older ∧ (migrations older.version).head? = some addCreatedAt ∧
      openStore (killedMigrating older 1) = .error (.duplicateColumn "created_at_utc") :=
  ⟨content_older, rfl, rfl⟩

theorem killed_after_version :
    ∃ db', openStore (killedMigrating older 2) = .ok db' ∧ db'.version = newestVersion ∧ older.Extends db' :=
  (migrations_restartable content_older 2).mpr (by decide)

theorem older_stuck : openStore (killedMigrating older 1) = .error (.duplicateColumn "created_at_utc") :=
  stuck_after_column content_older (by decide)

end Upgrade

end CipherVault.Store.Migrations
