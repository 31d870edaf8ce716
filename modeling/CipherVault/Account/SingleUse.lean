import CipherVault.Account.Grants
import CipherVault.Base.SingleUse

/-!
# Account.SingleUse

What can be used once: recovery codes (`services/account/src/recovery.rs`), invite codes and admin
requests (`grants.rs`), with several processes on one database. A handler reads a row, writes it in
a later statement, and gives the session or role after that. Only calls that may go on are events
here. The writes do not ask for the state that was read; `single_use` says when that makes no
difference.
-/

namespace CipherVault.Account.SingleUse

open Crypto CipherVault.SingleUse

structure Db where
  tables : Grants.Tables
  /-- By account and hash: when the code was used. -/
  recoveryCodes : Dict (Text × Text) (Option Nat)
  /-- The sessions of redeemed codes: token hash, account, and expiry. -/
  sessions : List (Text × Text × Nat)

/-- What can be used once. -/
inductive Item where
  | code (accountId codeHashHex : Text)
  | invite (inviteId : Text)
  | request (requestId : Text)
deriving DecidableEq

/-- What its use gave. -/
inductive Verdict where
  | session
  | admitted (principalId : Text)
  | revoked
  | approved (by' : Text)
  | rejected (by' : Text)
  | expired
deriving DecidableEq

def isClosed (db : Db) : Item → Bool
  | .code accountId codeHashHex => ((db.recoveryCodes.lookup (accountId, codeHashHex)).any Option.isSome)
  | .invite inviteId => (db.tables.projectInvites.lookup inviteId).any (·.state ≠ .pending)
  | .request requestId => (db.tables.grantRequests.lookup requestId).any (·.state ≠ .pending)

/-- The item is used up. -/
def Closed (db : Db) (item : Item) : Prop := isClosed db item = true

def recoverySessionTtlSeconds : Nat := 900

/-- `UPDATE recovery_codes SET used_at_utc = … WHERE … AND used_at_utc IS NULL`. -/
def markUsed (db : Db) (accountId codeHashHex : Text) (now : Nat) : Db :=
  match db.recoveryCodes.lookup (accountId, codeHashHex) with
  | some none => { db with recoveryCodes := db.recoveryCodes.insert (accountId, codeHashHex) (some now) }
  | _ => db

def setInvite (db : Db) (inviteId : Text) (state : Grants.InviteState) (acceptedBy : Option Text) : Db :=
  { db with tables := Grants.setInvite db.tables inviteId state acceptedBy }

def setRequest (db : Db) (requestId : Text) (state : Grants.RequestState) (approvedBy : Option Text) : Db :=
  { db with tables := Grants.setRequest db.tables requestId state approvedBy }

def grantRole (db : Db) (projectId principalId : Text) (role : ProjectRole) (grantedBy : Text)
    (now : Nat) : Db :=
  { db with tables := (Grants.grantRole db.tables projectId principalId role grantedBy now).2 }

/-! ### What they leave closed -/

variable {db : Db} {item : Item}

theorem closed_markUsed (h : Closed db item) (accountId codeHashHex : Text) (now : Nat) :
    Closed (markUsed db accountId codeHashHex now) item := by
  unfold markUsed
  split
  · cases item with
    | code a c =>
      simp only [Closed, isClosed] at h ⊢
      by_cases hkey : (a, c) = (accountId, codeHashHex)
      · rw [hkey, lookup_insert]
        rfl
      · rwa [lookup_insert_ne hkey]
    | invite | request => exact h
  · exact h

theorem closed_setInvite {state : Grants.InviteState} (h : Closed db item) (inviteId : Text)
    (hstate : state ≠ .pending)
    (acceptedBy : Option Text) : Closed (setInvite db inviteId state acceptedBy) item := by
  unfold setInvite Grants.setInvite
  split
  · exact h
  · cases item with
    | code => exact h
    | invite id =>
      simp only [Closed, isClosed] at h ⊢
      by_cases hkey : id = inviteId
      · rw [hkey, lookup_insert]
        simp [hstate]
      · rwa [lookup_insert_ne hkey]
    | request => exact h

theorem closed_setRequest {state : Grants.RequestState} (h : Closed db item) (requestId : Text)
    (hstate : state ≠ .pending) (approvedBy : Option Text) :
    Closed (setRequest db requestId state approvedBy) item := by
  unfold setRequest Grants.setRequest
  split
  · exact h
  · cases item with
    | code | invite => exact h
    | request id =>
      simp only [Closed, isClosed] at h ⊢
      by_cases hkey : id = requestId
      · rw [hkey, lookup_insert]
        simp [hstate]
      · rwa [lookup_insert_ne hkey]

theorem closed_grantRole (h : Closed db item) (projectId principalId : Text) (role : ProjectRole)
    (grantedBy : Text)
    (now : Nat) : Closed (grantRole db projectId principalId role grantedBy now) item := by
  unfold grantRole Grants.grantRole
  split
  · exact h
  · cases item <;> exact h

def redeem (accountId codeHashHex tokenHashHex : Text) (now : Nat) : Use Closed Verdict where
  key := .code accountId codeHashHex
  verdict := .session
  ready db := db.recoveryCodes.lookup (accountId, codeHashHex) = some none
  write db := markUsed db accountId codeHashHex now
  act db := { db with sessions := (tokenHashHex, accountId, now + recoverySessionTtlSeconds) :: db.sessions }
  closes db hready := by
    simp only [decide_eq_true_eq] at hready
    simp [Closed, isClosed, markUsed, hready]
  write_keeps db item h := closed_markUsed h accountId codeHashHex now
  act_keeps db item h := by cases item <;> exact h

def closeInvite (inviteId : Text) (verdict : Verdict) (state : Grants.InviteState) (hstate : state ≠ .pending)
    (acceptedBy : Option Text) (act : Db → Db) (hact : ∀ db item, Closed db item → Closed (act db) item) :
    Use Closed Verdict where
  key := .invite inviteId
  verdict := verdict
  ready db := (db.tables.projectInvites.lookup inviteId).any (·.state = .pending)
  write db := setInvite db inviteId state acceptedBy
  act := act
  closes db hready := by
    obtain ⟨row, hrow, hpending⟩ := (Option.any_eq_true _ _).mp hready
    simp_all [Closed, isClosed, setInvite, Grants.setInvite]
  write_keeps db item h := closed_setInvite h inviteId hstate acceptedBy
  act_keeps := hact

def closeRequest (requestId : Text) (verdict : Verdict) (state : Grants.RequestState)
    (hstate : state ≠ .pending)
    (approvedBy : Option Text) (act : Db → Db) (hact : ∀ db item, Closed db item → Closed (act db) item) :
    Use Closed Verdict where
  key := .request requestId
  verdict := verdict
  ready db := (db.tables.grantRequests.lookup requestId).any (·.state = .pending)
  write db := setRequest db requestId state approvedBy
  act := act
  closes db hready := by
    obtain ⟨row, hrow, hpending⟩ := (Option.any_eq_true _ _).mp hready
    simp_all [Closed, isClosed, setRequest, Grants.setRequest]
  write_keeps db item h := closed_setRequest h requestId hstate approvedBy
  act_keeps := hact

def readRedeem (accountId codeHashHex tokenHashHex : Text) (now : Nat) (db : Db) :
    Option (Use Closed Verdict) :=
  if db.recoveryCodes.lookup (accountId, codeHashHex) = some none then
    some (redeem accountId codeHashHex tokenHashHex now)
  else none

def readAccept (principalId codeHashHex : Text) (now : Nat) (db : Db) : Option (Use Closed Verdict) :=
  match db.tables.projectInvites.entries.find? fun e => e.2.codeHashHex = codeHashHex with
  | none => none
  | some ⟨inviteId, view⟩ =>
    if view.state ≠ .pending then none
    else if now > view.expiresAtUtc then
      some (closeInvite inviteId .expired .expired (by decide) none id fun _ _ h => h)
    else
      some (closeInvite inviteId (.admitted principalId) .accepted (by decide) (some principalId)
        (fun db => grantRole db view.projectId principalId view.role view.invitedBy now)
        fun _ _ h => closed_grantRole h _ _ _ _ _)

def readRevokeInvite (projectId inviteId : Text) (db : Db) : Option (Use Closed Verdict) :=
  if (db.tables.projectInvites.lookup inviteId).any fun row => row.projectId = projectId ∧
    row.state = .pending then
    some (closeInvite inviteId .revoked .revoked (by decide) none id fun _ _ h => h)
  else none

def readDecide (decider projectId requestId : Text) (approve : Bool) (now : Nat) (db : Db) :
    Option (Use Closed Verdict) :=
  match db.tables.grantRequests.lookup requestId with
  | none => none
  | some view =>
    if view.projectId ≠ projectId ∨ view.state ≠ .pending then none
    else if now > view.expiresAtUtc then
      some (closeRequest requestId .expired .expired (by decide) none id fun _ _ h => h)
    else if decider = view.requestedBy then none
    else if approve then
      some (closeRequest requestId (.approved decider) .approved (by decide) (some decider)
        (fun db => grantRole db projectId view.principalId .admin decider now) fun _ _ h =>
          closed_grantRole h _ _ _ _ _)
    else some (closeRequest requestId (.rejected decider) .rejected (by decide) (some decider) id
      fun _ _ h => h)

def insertNew {κ α : Type} [DecidableEq κ] (k : κ) (row : α) (m : Dict κ α) : Dict κ α :=
  if (m.lookup k).isSome then m else m.insert k row

theorem any_insertNew {κ α : Type} [DecidableEq κ] {m : Dict κ α} {k k' : κ} {row : α} {p : α → Bool}
    (h : (m.lookup k').any p = true) : ((insertNew k row m).lookup k').any p = true := by
  unfold insertNew
  split
  · exact h
  next hn =>
  rw [lookup_insert_ne]
  · exact h
  · rintro rfl
    obtain ⟨row', hrow', -⟩ := (Option.any_eq_true _ _).mp h
    exact hn (hrow' ▸ rfl)

inductive Call where
  | redeem (accountId codeHashHex tokenHashHex : Text) (now : Nat)
  | accept (principalId codeHashHex : Text) (now : Nat)
  | revokeInvite (projectId inviteId : Text)
  | decide (decider projectId requestId : Text) (approve : Bool) (now : Nat)
  /-- `mfa_recovery_reset` uses a code up, in a transaction. -/
  | recoveryReset (accountId codeHashHex : Text) (now : Nat)
  | issueCode (accountId codeHashHex : Text)
  | dropCodes (accountId : Text)
  | insertInvite (inviteId : Text) (row : Grants.Invite)
  | insertRequest (requestId : Text) (row : Grants.GrantRequest)
  /-- The lazy expiry of the two lists. -/
  | expireInvites (projectId : Text) (now : Nat)
  | expireRequests (projectId : Text) (now : Nat)

def Call.request : Call → Request Closed Verdict
  | .redeem accountId codeHashHex tokenHashHex now => .use (readRedeem accountId codeHashHex tokenHashHex now)
  | .accept principalId codeHashHex now => .use (readAccept principalId codeHashHex now)
  | .revokeInvite projectId inviteId => .use (readRevokeInvite projectId inviteId)
  | .decide decider projectId requestId approve now =>
    .use (readDecide decider projectId requestId approve now)
  | .recoveryReset accountId codeHashHex now =>
    .other (fun db => markUsed db accountId codeHashHex now) fun _ _ h => closed_markUsed h _ _ _
  | .issueCode accountId codeHashHex =>
    .other (fun db => { db with
      recoveryCodes := insertNew (accountId, codeHashHex) none db.recoveryCodes })
        fun _ item h => by
      cases item with
      | code => exact any_insertNew h
      | _ => exact h
  | .dropCodes accountId =>
    .other (fun db => { db with
      recoveryCodes := Dict.retain (fun k used => k.1 ≠ accountId ∨ used.isSome) db.recoveryCodes })
      fun _ item h => by
        cases item with
        | code a c =>
          simp only [Closed, isClosed, Option.any_eq_true] at h ⊢
          obtain ⟨used, hused, hsome⟩ := h
          exact ⟨used, lookup_retain_eq_some.mpr ⟨hused, by simp [hsome]⟩, hsome⟩
        | _ => exact h
  | .insertInvite inviteId row =>
    .other (fun db => { db with
      tables := { db.tables with
        projectInvites := insertNew inviteId row db.tables.projectInvites } })
      fun _ item h => by
        cases item with
        | invite => exact any_insertNew h
        | _ => exact h
  | .insertRequest requestId row =>
    .other (fun db => { db with
      tables := { db.tables with
        grantRequests := insertNew requestId row db.tables.grantRequests } })
      fun _ item h => by
        cases item with
        | request => exact any_insertNew h
        | _ => exact h
  | .expireInvites projectId now =>
    .other (fun db => { db with
      tables := { db.tables with
        projectInvites := Dict.map (fun _ row =>
          if row.projectId = projectId ∧ row.state = .pending ∧ row.expiresAtUtc ≤ now then
            { row with state := .expired }
          else row) db.tables.projectInvites } })
      fun _ item h => by
        cases item with
        | invite =>
          simp only [Closed, isClosed, Option.any_eq_true, lookup_map, Option.map_eq_some_iff] at h ⊢
          obtain ⟨row, hrow, hstate⟩ := h
          refine ⟨_, ⟨row, hrow, rfl⟩, ?_⟩
          split <;> simp_all
        | _ => exact h
  | .expireRequests projectId now =>
    .other (fun db => { db with
      tables := { db.tables with
        grantRequests := Dict.map (fun _ row =>
          if row.projectId = projectId ∧ row.state = .pending ∧ row.expiresAtUtc ≤ now then
            { row with state := .expired }
          else row) db.tables.grantRequests } })
      fun _ item h => by
        cases item with
        | request =>
          simp only [Closed, isClosed, Option.any_eq_true, lookup_map, Option.map_eq_some_iff] at h ⊢
          obtain ⟨row, hrow, hstate⟩ := h
          refine ⟨_, ⟨row, hrow, rfl⟩, ?_⟩
          split <;> simp_all
        | _ => exact h

inductive Event where
  | call (p : Nat) (call : Call)
  | proceed (p : Nat)
  | crash (p : Nat)

def Event.lift : Event → Processes.Event (Request Closed Verdict)
  | .call p handler => .call p handler.request
  | .proceed p => .proceed p
  | .crash p => .crash p

def after (db : Db) (events : List Event) : Sys Closed Verdict :=
  Processes.run (program Closed Verdict) (start Closed Verdict db) (events.map Event.lift)

/-- Every write finds its row in the state that its handler has read. -/
def RowsStay (db : Db) (events : List Event) : Prop :=
  Runs.Along (Processes.step (program Closed Verdict)) StillReady (start Closed Verdict db)
    (events.map Event.lift)

instance (db : Db) (events : List Event) : Decidable (RowsStay db events) := Runs.instDecidableAlong _ _

/-- Each code gives one session, each invite admits one principal and none beside a revocation, each
request has one decision and a rejected one grants nothing. -/
structure UsedOnce (store : Store Db Item Verdict) : Prop where
  sessions : ∀ accountId codeHashHex, store.acted.count (.code accountId codeHashHex, .session) ≤ 1
  admitted : ∀ inviteId p q, (.invite inviteId, .admitted p) ∈ store.acted →
    (.invite inviteId, .admitted q) ∈ store.acted →
    p = q
  revoked : ∀ inviteId p, (.invite inviteId, .revoked) ∈ store.written →
    (.invite inviteId, .admitted p) ∉ store.acted
  decided : ∀ requestId, (store.written.filter (·.1 = .request requestId)).length ≤ 1
  rejected : ∀ requestId p q, (.request requestId, .rejected p) ∈ store.written →
    (.request requestId, .approved q) ∉ store.acted

theorem usedOnce_of_inv {s : Sys Closed Verdict} (hs : Inv s) : UsedOnce s.store where
  sessions accountId codeHashHex := List.nodup_iff_count_le_one.mp (List.Nodup.of_map Prod.fst hs.acted) _
  admitted inviteId p q hp hq := by
    cases hs.verdict_unique (hs.subset _ hp) (hs.subset _ hq)
    rfl
  revoked inviteId p hrev hp := by cases hs.verdict_unique hrev (hs.subset _ hp)
  decided requestId := by
    have hnd := (List.filter_sublist (l := s.store.written)
      (p := fun e => e.1 = .request requestId)).map Prod.fst
    have hall : ∀ k ∈ (s.store.written.filter (·.1 = .request requestId)).map Prod.fst, k =
      .request requestId := by
      simp
    have hle := List.nodup_iff_count_le_one.mp (hs.written.sublist hnd) (.request requestId)
    rw [List.count_eq_length.mpr fun k hk => (hall k hk).symm, List.length_map] at hle
    exact hle
  rejected requestId p q hrej hq := by cases hs.verdict_unique hrej (hs.subset _ hq)

/-- Where rows stay as they were read, single-use things are used once. -/
theorem single_use (db : Db) (events : List Event) (hstay : RowsStay db events) :
    UsedOnce (after db events).store :=
  usedOnce_of_inv (used_once db hstay)

section

def ready : Db where
  tables :=
    { policy := Grants.twoAdmins
      grantRequests := (∅ : Dict Text Grants.GrantRequest).insert "gr_1".toList
        ⟨"t".toList, "p".toList, "carol".toList, "alice".toList, none, .pending, 0, 100⟩
      projectInvites := (∅ : Dict Text Grants.Invite).insert "inv_1".toList
        ⟨"t".toList, "p".toList, .developer, by decide, "alice".toList, "h".toList, .pending, 0, 100, none⟩ }
  recoveryCodes := (∅ : Dict (Text × Text) (Option Nat)).insert ("a".toList, "c".toList) none
  sessions := []

def race (first second : Call) : List Event :=
  [.call 1 first, .call 2 second, .proceed 1, .proceed 2, .proceed 1, .proceed 1, .proceed 2, .proceed 2]

def inTurn (first second : Call) : List Event :=
  [.call 1 first, .proceed 1, .proceed 1, .proceed 1, .call 2 second, .proceed 2, .proceed 2, .proceed 2]

def redeemTwice : Call × Call :=
  (.redeem "a".toList "c".toList "s1".toList 10, .redeem "a".toList "c".toList "s2".toList 10)

/-- One code gives two sessions, a revoked invite admits a principal, and a rejected request makes
an admin. -/
theorem raced_items_used_twice :
    ¬UsedOnce (after ready (race redeemTwice.1 redeemTwice.2)).store ∧
    ¬UsedOnce (after ready (race (.revokeInvite "p".toList "inv_1".toList)
      (.accept "dave".toList "h".toList 10))).store ∧
    ¬UsedOnce (after ready (race (.decide "bob".toList "p".toList "gr_1".toList false 10)
      (.decide "bob".toList "p".toList "gr_1".toList true 10))).store := by
  refine ⟨fun h => ?_, fun h => ?_, fun h => ?_⟩
  · have hc := h.sessions "a".toList "c".toList
    revert hc
    decide +kernel
  · exact h.revoked "inv_1".toList "dave".toList (by decide +kernel) (by decide +kernel)
  · exact h.rejected "gr_1".toList "bob".toList "bob".toList (by decide +kernel) (by decide +kernel)

theorem single_use_in_turn : UsedOnce (after ready (inTurn redeemTwice.1 redeemTwice.2)).store :=
  single_use ready _ (by decide +kernel)

end

end CipherVault.Account.SingleUse
