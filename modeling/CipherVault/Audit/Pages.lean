import CipherVault.Audit.Chain

/-!
# Audit.Pages

The paged export of `services/account/src/audit_chain.rs` on one state of the table. A row id is a
place in the table; how a row is rendered is left open.
-/

namespace CipherVault.Audit

open Crypto Links List Option

def auditExportMaxLimit : Nat := 50000

/-- The event id is the primary key. -/
structure Events where
  rows : List AuditRow
  unique : (rows.map AuditRow.eventId).Nodup

structure AuditExportPage where
  eventCount : Nat
  headHash : Bytes
  nextCursor : Option Text
  jsonl : Text
  valid : Bool
  firstBadEventId : Option Text

section

variable (P : Externals) (auditRowJson : AuditRow → Text) (events : Events) (tenantId : Text)

def jsonl (rows : List AuditRow) : Text := rows.flatMap fun row => auditRowJson row ++ ['\n']

def exportAuditLog : Text := jsonl auditRowJson (tenantRows events.rows tenantId)

def Events.rowid (row : AuditRow) : Nat := (events.rows.map AuditRow.eventId).idxOf row.eventId

/-- The order of `created_at_utc, rowid`. -/
def Events.Before (a b : AuditRow) : Prop :=
  a.createdAtUtc.toInt < b.createdAtUtc.toInt ∨ a.createdAtUtc.toInt = b.createdAtUtc.toInt ∧
    events.rowid a < events.rowid b

instance (a b : AuditRow) : Decidable (events.Before a b) := inferInstanceAs (Decidable (_ ∨ _))

/-- The hash to start from, and the rows to come; none for a cursor that is not known. -/
def resume : Option Text → Option (Bytes × List AuditRow)
  | none => some (genesisHash, tenantRows events.rows tenantId)
  | some eventId =>
    (events.rows.find? fun row => row.tenantId == tenantId && row.eventId == eventId).map
      fun cursor =>
      (cursor.eventHash, (tenantRows events.rows tenantId).filter (events.Before cursor))

def verifyAndExportAuditPage (after : Option Text) (limit : Nat) : Option AuditExportPage :=
  let limit := max 1 (min limit auditExportMaxLimit)
  (resume events tenantId after).map fun (seed, later) =>
    let rows := later.take (limit + 1)
    match scan (check P) seed (rows.take limit) with
    | (running, some row) => ⟨0, running, none, [], false, some row.eventId⟩
    | (running, none) =>
      { eventCount := (rows.take limit).length
        headHash := running
        nextCursor := if limit < rows.length then (rows.take limit).getLast?.map AuditRow.eventId else none
        jsonl := jsonl auditRowJson (rows.take limit)
        valid := true
        firstBadEventId := none }

/-- A client that follows the cursors: the pages it gets, if they end before the fuel does. -/
def walk (limit : Nat) : Nat → Option Text → Option (List AuditExportPage)
  | 0, _ => none
  | fuel + 1, after => (verifyAndExportAuditPage P auditRowJson events tenantId after limit).bind fun page =>
      match page.nextCursor with
      | none => some [page]
      | some cursor => (walk limit fuel (some cursor)).map (page :: ·)

end

variable {P : Externals} {auditRowJson : AuditRow → Text} {events : Events} {tenantId : Text}

theorem orderedInsert_before {row : AuditRow} {rows : List AuditRow} (h : rows.Pairwise events.Before)
    (hrow : ∀ b ∈ rows, events.rowid row < events.rowid b) :
    (rows.orderedInsert (fun a b => a.createdAtUtc.toInt ≤ b.createdAtUtc.toInt) row).Pairwise
      events.Before := by
  induction rows with
  | nil => exact pairwise_singleton _ _
  | cons b rows ih =>
    obtain ⟨hb, hrows⟩ := pairwise_cons.mp h
    rw [forall_mem_cons] at hrow
    rw [orderedInsert_cons]
    split
    · refine pairwise_cons.mpr ⟨forall_mem_cons.mpr ⟨?_, fun c hc => ?_⟩, h⟩
      · unfold Events.Before
        omega
      · have hbc := hb c hc
        unfold Events.Before at hbc ⊢
        omega
    · refine pairwise_cons.mpr ⟨fun c hc => ?_, ih hrows hrow.2⟩
      rcases mem_cons.mp ((perm_orderedInsert _ _ _).mem_iff.mp hc) with rfl | hc
      · unfold Events.Before
        omega
      · exact hb c hc

/-- The sort by time keeps the order of the row ids. -/
theorem tenantRows_before (events : Events) (tenantId : Text) :
    (tenantRows events.rows tenantId).Pairwise events.Before := by
  have hids : events.rows.Pairwise fun a b => events.rowid a < events.rowid b := by
    have hid : ∀ (k : Nat) (hk : k < events.rows.length), events.rowid events.rows[k] = k := by
      intro k hk
      have := events.unique.idxOf_getElem k (by simpa using hk)
      rwa [getElem_map] at this
    rw [pairwise_iff_getElem]
    intro i j hi hj hij
    rwa [hid, hid]
  have hfil := hids.sublist (filter_sublist (p := (·.tenantId == tenantId)))
  rw [tenantRows]
  generalize events.rows.filter (·.tenantId == tenantId) = rows at hfil
  induction rows with
  | nil => exact .nil
  | cons row rows ih =>
    obtain ⟨hrow, hrows⟩ := pairwise_cons.mp hfil
    exact orderedInsert_before (ih hrows) fun b hb => hrow b ((perm_insertionSort _ _).mem_iff.mp hb)

variable {front rest : List AuditRow}

theorem resume_cursor {cursor : AuditRow} (h : tenantRows events.rows tenantId = front ++ cursor :: rest) :
    resume events tenantId (some cursor.eventId) = some (cursor.eventHash, rest) := by
  have hmem : cursor ∈ tenantRows events.rows tenantId := by simp [h]
  have hfi : (events.rows.find? fun row => row.tenantId == tenantId &&
    row.eventId == cursor.eventId) = some cursor := by
    obtain ⟨hcursor, htenant⟩ := mem_filter.mp ((perm_insertionSort _ _).mem_iff.mp hmem)
    cases hf : events.rows.find? fun row => row.tenantId == tenantId && row.eventId == cursor.eventId with
    | none => simpa [htenant] using find?_eq_none.mp hf cursor hcursor
    | some found =>
      have hid := find?_some hf
      simp only [Bool.and_eq_true, beq_iff_eq] at hid
      rw [inj_on_of_nodup_map events.unique (mem_of_find?_eq_some hf) hcursor hid.2]
  have hasymm : ∀ a b, events.Before a b → ¬ events.Before b a := by
    unfold Events.Before
    omega
  obtain ⟨-, hcursor, hfront⟩ := pairwise_append.mp (h ▸ tenantRows_before events tenantId)
  rw [resume, hfi, map_some, h, filter_append, filter_eq_nil_iff.mpr, filter_cons_of_neg,
    filter_eq_self.mpr, nil_append]
  · simpa using (pairwise_cons.mp hcursor).1
  · simpa using fun h => hasymm _ _ h h
  · simpa using fun a ha => hasymm _ _ (hfront a ha cursor mem_cons_self)

theorem walk_spec {seed : Bytes} (limit fuel : Nat) {after : Option Text}
    (hrows : tenantRows events.rows tenantId = front ++ rest)
    (hresume : resume events tenantId after = some (seed, rest))
    (hfuel : rest.length < fuel) : ∃ pages, walk P auditRowJson events tenantId limit fuel after =
      some pages ∧
      ((∀ page ∈ pages, page.valid = true) ↔ Linked (check P) seed rest) ∧
      (Linked (check P) seed rest → pages.flatMap (·.jsonl) = jsonl auditRowJson rest) := by
  induction fuel generalizing after seed front rest with
  | zero => omega
  | succ fuel ih =>
    rw [walk, verifyAndExportAuditPage, hresume]
    have hlimit : 0 < max 1 (min limit auditExportMaxLimit) := by omega
    generalize max 1 (min limit auditExportMaxLimit) = n at hlimit
    dsimp only [map_some, bind_some]
    rw [take_take, min_eq_left (Nat.le_succ n)]
    have hparts : Linked (check P) seed rest ↔
        Linked (check P) seed (rest.take n) ∧
          Linked (check P) (Links.head (check P) seed (rest.take n)) (rest.drop n) := by
      rw [← linked_append, take_append_drop]
    rcases hscan : scan (check P) seed (rest.take n) with ⟨running, _ | bad⟩
    · have hlinked := linked_of_scan (congrArg Prod.snd hscan)
      dsimp only
      rw [length_take]
      by_cases hmore : n < rest.length
      · obtain ⟨page, last, hpage⟩ := (eq_nil_or_concat (rest.take n)).resolve_left
          (ne_nil_of_length_pos (by rw [length_take]; omega))
        rw [concat_eq_append] at hpage
        have hsp : tenantRows events.rows tenantId = (front ++ page) ++ last :: rest.drop n := by
          rw [hrows, append_assoc, append_cons, ← hpage, take_append_drop]
        obtain ⟨pages, hpages, hv, hjsonl⟩ :=
          ih (hsp.trans (append_cons _ _ _)) (resume_cursor hsp) (by rw [length_drop]; omega)
        rw [hpage, Links.head, foldl_concat, ← hpage, and_iff_right hlinked] at hparts
        rw [if_pos (by omega), hpage, getLast?_concat, map_some]
        dsimp only
        rw [hpages]
        refine ⟨_, rfl, by simpa using hv.trans hparts.symm, fun h => ?_⟩
        rw [flatMap_cons, hjsonl (hparts.mp h), jsonl, jsonl, ← flatMap_append, ← hpage,
          take_append_drop, jsonl]
      · rw [if_neg (by omega), take_of_length_le (not_lt.mp hmore)] at *
        exact ⟨_, rfl, by simp [hlinked], fun _ => flatMap_singleton _ _⟩
    · have hbad : ¬ Linked (check P) seed rest := fun h => by simp [(hparts.mp h).1.scan_eq] at hscan
      exact ⟨_, rfl, by simp [hbad], fun h => absurd h hbad⟩

/-- The pages end, they are all accepted exactly when the chain is valid, and then together they are
the whole export. -/
theorem paged_export_eq (P : Externals) (auditRowJson : AuditRow → Text) (events : Events)
    (tenantId : Text) (limit : Nat) :
    ∃ pages, walk P auditRowJson events tenantId limit
      ((tenantRows events.rows tenantId).length + 1) none = some pages ∧
      ((∀ page ∈ pages, page.valid = true) ↔ (verifyChain P events.rows tenantId).valid = true) ∧
      ((verifyChain P events.rows tenantId).valid = true →
        pages.flatMap (·.jsonl) = exportAuditLog auditRowJson events tenantId) := by
  have hv : (verifyChain P events.rows tenantId).valid = true ↔
      Linked (check P) genesisHash (tenantRows events.rows tenantId) :=
    ⟨linked_of_valid, fun h => by rw [verifyChain_of_linked h]⟩
  rw [hv]
  exact walk_spec limit _ (nil_append _).symm rfl (Nat.lt_succ_self _)

end CipherVault.Audit
