import Mathlib.Data.List.Basic

/-!
# Base.Schema

Databases with a schema version, and scripts that bring one to a later version. Every statement is
atomic and durable on its own, so that a process can be killed between any two. In a `Script` a
column is added right before its version is recorded; cut after any other statement it is such a
script still (`Script.take`).
-/

namespace CipherVault.Schema

open List Function

variable {τ ι κ ν : Type}

structure Table (κ ν : Type) where
  columns : List κ
  rows : List (List ν)
  fits : ∀ row ∈ rows, row.length = columns.length

namespace Table

def empty (columns : List κ) : Table κ ν := ⟨columns, [], fun _ h => absurd h not_mem_nil⟩

def addColumn (t : Table κ ν) (column : κ) (value : ν) : Table κ ν where
  columns := t.columns ++ [column]
  rows := t.rows.map (· ++ [value])
  fits := by
    intro row hrow
    obtain ⟨old, hold, rfl⟩ := mem_map.mp hrow
    rw [length_append, length_append, t.fits old hold]
    rfl

end Table

structure Database (τ ι κ ν : Type) where
  tables : τ → Option (Table κ ν)
  indexes : List ι
  version : Nat

/-- Tables and indexes are created if they do not exist. -/
inductive Statement (τ ι κ ν : Type) where
  | createTable (name : τ) (columns : List κ)
  | createIndex (name : ι) (table : τ) (columns : List κ)
  | addColumn (table : τ) (column : κ) (value : ν)
  | setVersion (version : Nat)

inductive Failure (τ κ : Type) where
  | noSuchTable (table : τ)
  | noSuchColumn (column : κ)
  | duplicateColumn (column : κ)
deriving DecidableEq

section

variable [DecidableEq τ] [DecidableEq ι] [DecidableEq κ]

namespace Database

def exec (db : Database τ ι κ ν) : Statement τ ι κ ν → Except (Failure τ κ) (Database τ ι κ ν)
  | .createTable name columns =>
    match db.tables name with
    | some _ => .ok db
    | none => .ok { db with tables := update db.tables name (some (.empty columns)) }
  | .createIndex name table columns =>
    if db.indexes.contains name then .ok db
    else match db.tables table with
      | none => .error (.noSuchTable table)
      | some t =>
        match columns.find? fun column => !t.columns.contains column with
        | some column => .error (.noSuchColumn column)
        | none => .ok { db with indexes := name :: db.indexes }
  | .addColumn table column value =>
    match db.tables table with
    | none => .error (.noSuchTable table)
    | some t =>
      if t.columns.contains column then .error (.duplicateColumn column)
      else .ok { db with tables := update db.tables table (some (t.addColumn column value)) }
  | .setVersion version => .ok { db with version := version }

/-- The statements are not in a transaction: what was done before a failure stays. -/
def execAll (db : Database τ ι κ ν) : List (Statement τ ι κ ν) → Except (Failure τ κ) (Database τ ι κ ν)
  | [] => .ok db
  | statement :: statements =>
    match db.exec statement with
    | .error failure => .error failure
    | .ok db => db.execAll statements

def after (db : Database τ ι κ ν) : List (Statement τ ι κ ν) → Database τ ι κ ν
  | [] => db
  | statement :: statements =>
    match db.exec statement with
    | .error _ => db
    | .ok db => db.after statements

theorem after_eq {l : List (Statement τ ι κ ν)} {db db' : Database τ ι κ ν}
    (h : db.execAll l = .ok db') : db.after l = db' := by
  induction l generalizing db with
  | nil => exact Except.ok.inj h
  | cons statement l ih =>
    rw [execAll] at h
    rw [after]
    cases hexec : db.exec statement with
    | error failure =>
      rw [hexec] at h
      cases h
    | ok next =>
      rw [hexec] at h
      exact ih h

theorem execAll_append (db : Database τ ι κ ν) (l l' : List (Statement τ ι κ ν)) :
    db.execAll (l ++ l') = db.execAll l >>= fun db => db.execAll l' := by
  induction l generalizing db with
  | nil => rfl
  | cons statement l ih =>
    rw [cons_append, execAll, execAll]
    cases db.exec statement with
    | error failure => rfl
    | ok db => exact ih db

end Database

end

/-- The same rows, with columns added on the right. -/
def Table.Extends (t t' : Table κ ν) : Prop :=
  ∃ extra : List (κ × ν), t'.columns = t.columns ++ extra.map Prod.fst ∧
    t'.rows = t.rows.map (· ++ extra.map Prod.snd)

theorem Table.Extends.refl (t : Table κ ν) : t.Extends t := ⟨[], by simp⟩

theorem Table.Extends.trans {t t' t'' : Table κ ν} (h : t.Extends t') (h' : t'.Extends t'') :
    t.Extends t'' := by
  obtain ⟨extra, hcol, hrows⟩ := h
  obtain ⟨extra', hcol', hrows'⟩ := h'
  refine ⟨extra ++ extra', ?_, ?_⟩
  · rw [hcol', hcol, append_assoc, map_append]
  · rw [hrows', hrows, map_map, map_append]
    exact map_congr_left fun row _ => append_assoc _ _ _

theorem Table.extends_addColumn (t : Table κ ν) (column : κ) (value : ν) :
    t.Extends (t.addColumn column value) :=
  ⟨[(column, value)], rfl, rfl⟩

/-- No table was dropped, and every table extends the old one. -/
def Database.Extends (db db' : Database τ ι κ ν) : Prop :=
  ∀ name t, db.tables name = some t → ∃ t', db'.tables name = some t' ∧ t.Extends t'

namespace Database

theorem Extends.refl (db : Database τ ι κ ν) : db.Extends db := fun _ t h => ⟨t, h, .refl t⟩

theorem Extends.trans {db db' db'' : Database τ ι κ ν} (h : db.Extends db') (h' : db'.Extends db'') :
    db.Extends db'' := by
  intro name t ht
  obtain ⟨t', ht', hextends⟩ := h name t ht
  obtain ⟨t'', ht'', hextends'⟩ := h' name t' ht'
  exact ⟨t'', ht'', hextends.trans hextends'⟩

/-- The known tables exist. -/
def Present (known : List τ) (db : Database τ ι κ ν) : Prop := ∀ name ∈ known, ∃ t, db.tables name = some t

theorem Present.mono {known : List τ} {db db' : Database τ ι κ ν} (h : db.Present known)
    (hextends : db.Extends db') :
    db'.Present known := by
  intro name hn
  obtain ⟨t, ht⟩ := h name hn
  obtain ⟨t', ht', _⟩ := hextends name t ht
  exact ⟨t', ht'⟩

end Database

/-- The columns of the tables that exist are those of the version, and a table whose columns are not
those it is created with exists. -/
structure Database.Conforms (columnsAt : Nat → τ → List κ) (db : Database τ ι κ ν) : Prop where
  columns : ∀ name t, db.tables name = some t → t.columns = columnsAt db.version name
  altered : ∀ name, columnsAt db.version name ≠ columnsAt 0 name → ∃ t, db.tables name = some t

/-- A script from a version to another, for databases that have the known tables. -/
inductive Script (columnsAt : Nat → τ → List κ) : List τ → Nat → List (Statement τ ι κ ν) → Nat → Prop
  | nil {known v} : Script columnsAt known v [] v
  | createTable {known v name columns l v'} (hcolumns : columns = columnsAt 0 name)
      (hrest : Script columnsAt (name :: known) v l v') :
      Script columnsAt known v (.createTable name columns :: l) v'
  | createIndex {known v name table columns l v'} (htable : table ∈ known)
      (hcolumns : columns ⊆ columnsAt v table)
      (hrest : Script columnsAt known v l v') :
      Script columnsAt known v (.createIndex name table columns :: l) v'
  | setVersion {known v n l v'} (hle : v ≤ n) (hsame : ∀ name, columnsAt n name = columnsAt v name)
      (hrest : Script columnsAt known n l v') : Script columnsAt known v (.setVersion n :: l) v'
  | addColumn {known v table column value n l v'} (htable : table ∈ known) (hle : v ≤ n)
      (hnew : column ∉ columnsAt v table) (hcolumns : columnsAt n table = columnsAt v table ++ [column])
      (hsame : ∀ name, name ≠ table → columnsAt n name = columnsAt v name)
      (hrest : Script columnsAt known n l v') :
      Script columnsAt known v (.addColumn table column value :: .setVersion n :: l) v'

variable {columnsAt : Nat → τ → List κ}

section

variable {known : List τ} {v v' : Nat} {l : List (Statement τ ι κ ν)}

theorem Script.le (h : Script columnsAt known v l v') : v ≤ v' := by
  induction h with
  | nil => exact Nat.le_refl _
  | createTable _ _ ih => exact ih
  | createIndex _ _ _ ih => exact ih
  | setVersion hle _ _ ih => exact Nat.le_trans hle ih
  | addColumn _ hle _ _ _ _ ih => exact Nat.le_trans hle ih

def Statement.altersTable : Statement τ ι κ ν → Bool
  | .addColumn _ _ _ => true
  | _ => false

def endsAltering (l : List (Statement τ ι κ ν)) : Bool :=
  match l.getLast? with
  | some statement => statement.altersTable
  | none => false

theorem endsAltering_cons {statement : Statement τ ι κ ν}
    (h : endsAltering (statement :: l) = false) : endsAltering l = false := by
  cases l with
  | nil => rfl
  | cons next l => rwa [endsAltering, List.getLast?_cons_cons] at h

theorem endsAltering_append {l' : List (Statement τ ι κ ν)} (h : endsAltering l = false)
    (h' : endsAltering l' = false) :
    endsAltering (l ++ l') = false := by
  rw [endsAltering, List.getLast?_append]
  cases hla : l'.getLast? with
  | none => exact h
  | some statement =>
    rw [endsAltering, hla] at h'
    exact h'

theorem Script.take (h : Script columnsAt known v l v') (k : Nat) (hcut : endsAltering (l.take k) = false) :
    ∃ v'', v'' ≤ v' ∧ Script columnsAt known v (l.take k) v'' := by
  induction h generalizing k with
  | nil => exact ⟨_, Nat.le_refl _, by rw [take_nil]; exact .nil⟩
  | @createTable known v name columns l v' hcol hr ih =>
    cases k with
    | zero => exact ⟨v, hr.le, .nil⟩
    | succ k =>
      obtain ⟨v'', hle, hscript⟩ := ih k (endsAltering_cons hcut)
      exact ⟨v'', hle, .createTable hcol hscript⟩
  | @createIndex known v name table columns l v' htable hcol hr ih =>
    cases k with
    | zero => exact ⟨v, hr.le, .nil⟩
    | succ k =>
      obtain ⟨v'', hle, hscript⟩ := ih k (endsAltering_cons hcut)
      exact ⟨v'', hle, .createIndex htable hcol hscript⟩
  | @setVersion known v n l v' hle hs hr ih =>
    cases k with
    | zero => exact ⟨v, Nat.le_trans hle hr.le, .nil⟩
    | succ k =>
      obtain ⟨v'', hle', hscript⟩ := ih k (endsAltering_cons hcut)
      exact ⟨v'', hle', .setVersion hle hs hscript⟩
  | @addColumn known v table column value n l v' htable hle hnew hcol hs hr ih =>
    match k with
    | 0 => exact ⟨v, Nat.le_trans hle hr.le, .nil⟩
    | 1 => cases hcut
    | k + 2 =>
      obtain ⟨v'', hle', hscript⟩ := ih k (endsAltering_cons (endsAltering_cons hcut))
      exact ⟨v'', hle', .addColumn htable hle hnew hcol hs hscript⟩

end

variable {db : Database τ ι κ ν}

variable {n : Nat}

section

theorem Database.Conforms.withIndexes (h : db.Conforms columnsAt) (indexes : List ι) :
    Conforms columnsAt { db with indexes := indexes } := ⟨h.columns, h.altered⟩

theorem Database.Conforms.setVersion (h : db.Conforms columnsAt)
    (hsame : ∀ name, columnsAt n name = columnsAt db.version name) :
    Conforms columnsAt { db with version := n } := by
  constructor
  · intro name t ht
    exact (h.columns name t ht).trans (hsame name).symm
  · intro name hne
    refine h.altered name ?_
    rw [← hsame name]
    exact hne

end

section

variable [DecidableEq τ] {table : τ} {column : κ} {value : ν} {t : Table κ ν}

theorem extends_update (ht : db.tables table = some t) (n : Nat) : db.Extends
      { db with tables := update db.tables table (some (t.addColumn column value)), version := n } := by
  intro name old hold
  by_cases heq : name = table
  · subst heq
    rw [ht] at hold
    cases hold
    exact ⟨_, update_self .., t.extends_addColumn column value⟩
  · exact ⟨old, (update_of_ne heq _ _).trans hold, .refl old⟩

theorem Database.Conforms.addColumn (h : db.Conforms columnsAt) (ht : db.tables table = some t)
    (hcolumns : columnsAt n table = columnsAt db.version table ++ [column])
    (hsame : ∀ name, name ≠ table → columnsAt n name = columnsAt db.version name) : Conforms columnsAt
      { db with tables := update db.tables table (some (t.addColumn column value)), version := n } := by
  constructor
  · intro name t' ht'
    by_cases heq : name = table
    · subst heq
      have hnew := (update_self name (some (t.addColumn column value)) db.tables).symm.trans ht'
      cases hnew
      show t.columns ++ [column] = columnsAt n name
      rw [h.columns name t ht, hcolumns]
    · rw [hsame name heq]
      exact h.columns name t' ((update_of_ne heq _ _).symm.trans ht')
  · intro name hne
    by_cases heq : name = table
    · subst heq
      exact ⟨_, update_self ..⟩
    · obtain ⟨t', ht'⟩ := h.altered name (by rw [← hsame name heq]; exact hne)
      exact ⟨t', (update_of_ne heq _ _).trans ht'⟩

variable [DecidableEq ι] [DecidableEq κ]

open Database

theorem exec_createTable {columns : List κ} {name : τ} (hcolumns : columns = columnsAt 0 name)
    (h : db.Conforms columnsAt) :
    ∃ db', db.exec (.createTable name columns) = .ok db' ∧ db'.version = db.version ∧ db'.Conforms columnsAt ∧
      db.Extends db' ∧ ∃ t, db'.tables name = some t := by
  cases ht : db.tables name with
  | some t =>
    refine ⟨db, ?_, rfl, h, .refl db, t, ht⟩
    rw [exec, ht]
  | none =>
    -- the table is not one that was altered, so its columns are those of the version
    have hver : columnsAt db.version name = columnsAt 0 name := by
      by_contra hne
      obtain ⟨t, ht'⟩ := h.altered name hne
      rw [ht] at ht'
      cases ht'
    refine ⟨{ db with tables := update db.tables name (some (.empty columns)) }, by rw [exec, ht],
      rfl, ?_, ?_,
      _, update_self ..⟩
    · constructor
      · intro other t ho
        by_cases heq : other = name
        · subst heq
          have hnew := (update_self other (some (Table.empty columns)) db.tables).symm.trans ho
          cases hnew
          exact hcolumns.trans hver.symm
        · exact h.columns other t ((update_of_ne heq _ _).symm.trans ho)
      · intro other hne
        have heq : other ≠ name := by
          rintro rfl
          exact hne hver
        obtain ⟨t, hold⟩ := h.altered other hne
        exact ⟨t, (update_of_ne heq _ _).trans hold⟩
    · intro other t hold
      have heq : other ≠ name := by
        rintro rfl
        rw [ht] at hold
        cases hold
      exact ⟨t, (update_of_ne heq _ _).trans hold, .refl t⟩

theorem exec_createIndex {columns : List κ} {name : ι} (ht : db.tables table = some t)
    (hcolumns : columns ⊆ t.columns) :
    ∃ indexes, db.exec (.createIndex name table columns) = .ok { db with indexes := indexes } := by
  rw [exec]
  split
  · exact ⟨db.indexes, rfl⟩
  · have hf : columns.find? (fun column => !t.columns.contains column) = none := by
      rw [List.find?_eq_none]
      intro column hcolumn
      simpa using hcolumns hcolumn
    rw [ht]
    dsimp only
    rw [hf]
    exact ⟨_, rfl⟩

theorem exec_addColumn (ht : db.tables table = some t) (hnew : column ∉ t.columns) :
    db.exec (.addColumn table column value) =
      .ok { db with tables := update db.tables table (some (t.addColumn column value)) } := by
  have hcon : ¬ t.columns.contains column = true := by
    rw [contains_iff_mem]
    exact hnew
  rw [exec, ht]
  exact if_neg hcon

theorem exec_addColumn_twice (ht : db.tables table = some t) (hold : column ∈ t.columns) :
    db.exec (.addColumn table column value) = .error (.duplicateColumn column) := by
  rw [exec, ht]
  exact if_pos (contains_iff_mem.mpr hold)

theorem exec_addColumn_cases {db' : Database τ ι κ ν}
    (h : db.exec (.addColumn table column value) = .ok db') : ∃ t, db.tables table = some t ∧
      db' = { db with tables := update db.tables table (some (t.addColumn column value)) } := by
  cases ht : db.tables table with
  | none =>
    rw [exec, ht] at h
    cases h
  | some t =>
    by_cases hold : column ∈ t.columns
    · rw [exec_addColumn_twice ht hold] at h
      cases h
    · rw [exec_addColumn ht hold] at h
      exact ⟨t, rfl, (Except.ok.inj h).symm⟩

/-- A script runs to its end, keeps all rows, and the database conforms to the version that it is
then in. -/
theorem Script.runs {known : List τ} {l : List (Statement τ ι κ ν)} {v v' : Nat}
    (h : Script columnsAt known v l v')
    (hconforms : db.Conforms columnsAt) (hversion : db.version = v) (hpresent : db.Present known) :
    ∃ db', db.execAll l = .ok db' ∧ db'.version = v' ∧ db'.Conforms columnsAt ∧ db.Extends db' := by
  induction h generalizing db with
  | nil => exact ⟨db, rfl, hversion, hconforms, .refl db⟩
  | @createTable known v name columns l v' hcol _ ih =>
    obtain ⟨db', hexec, hver', hcon', hextends, htable⟩ := exec_createTable hcol hconforms
    have hpre' : db'.Present (name :: known) := by
      intro other ho
      rcases mem_cons.mp ho with rfl | ho
      · exact htable
      · exact hpresent.mono hextends other ho
    obtain ⟨db'', hrun, hv, hc, he⟩ := ih hcon' (hver'.trans hversion) hpre'
    refine ⟨db'', ?_, hv, hc, hextends.trans he⟩
    rw [execAll, hexec]
    exact hrun
  | @createIndex known v name table columns l v' htable hcol _ ih =>
    obtain ⟨t, ht⟩ := hpresent table htable
    have hsubset : columns ⊆ t.columns := by
      rw [hconforms.columns _ t ht, hversion]
      exact hcol
    obtain ⟨indexes, hexec⟩ := exec_createIndex ht hsubset
    obtain ⟨db'', hrun, hv, hc, he⟩ := ih (hconforms.withIndexes indexes) hversion hpresent
    refine ⟨db'', ?_, hv, hc, he⟩
    rw [execAll, hexec]
    exact hrun
  | setVersion _ hs _ ih =>
    subst hversion
    exact ih (hconforms.setVersion hs) rfl hpresent
  | addColumn htable _ hnew hcol hs _ ih =>
    subst hversion
    obtain ⟨t, ht⟩ := hpresent _ htable
    rw [← hconforms.columns _ t ht] at hnew
    obtain ⟨db'', hrun, hv, hc, he⟩ :=
      ih (hconforms.addColumn ht hcol hs) rfl (hpresent.mono (extends_update ht _))
    refine ⟨db'', ?_, hv, hc, (extends_update ht _).trans he⟩
    rw [execAll, exec_addColumn ht hnew]
    exact hrun

end

end CipherVault.Schema
