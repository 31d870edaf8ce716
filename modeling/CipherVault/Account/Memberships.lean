import CipherVault.Account.Guards
import CipherVault.Base.Dict
import CipherVault.Base.Runs

/-!
# Account.Memberships

`services/account/src/memberships.rs`: invitations into an account, their acceptance, and
revocation. What the other tables say of the caller comes with each request. An invitation stays
acceptable until it expires.
-/

namespace CipherVault.Account.Memberships

open Crypto Network Nat List

structure Invitation where
  (invitationId accountId inviteeAccountId : Text)
  role : VaultRole
  tokenHashHex : Text
  (createdAtUtc expiresAtUtc : Nat)
  (acceptedAtUtc revokedAtUtc : Option Nat)
deriving DecidableEq

inductive MembershipStatus where
  | active
  | revoked
deriving DecidableEq

structure Membership where
  role : VaultRole
  status : MembershipStatus
  invitedAtUtc : Nat
  (acceptedAtUtc revokedAtUtc : Option Nat)

structure Tables where
  accounts : List Text
  invitations : List Invitation
  memberships : Dict (Text × Text) Membership

structure Caller where
  session : Except Refusal SessionView
  policyRequired : Text → Bool

variable (tables : Tables)

def activeMembershipRole (accountId memberAccountId : Text) : Option VaultRole :=
  if accountId = memberAccountId then some .owner
  else
    match tables.memberships.lookup (accountId, memberAccountId) with
    | some row =>
      if row.status = .active ∧ row.acceptedAtUtc.isSome ∧ row.revokedAtUtc = none then some row.role
      else none
    | none => none

def accountRoleFor (caller : Caller) (accountId : Text) (minimumRole : VaultRole) :
    Except Refusal (SessionView × VaultRole) := do
  let session ← caller.session
  let session := { session with mfaRequired := session.mfaRequired || caller.policyRequired accountId }
  match activeMembershipRole tables accountId session.accountId with
  | none =>
    .error
      { status := 403, code := "ACCOUNT_MEMBERSHIP_REQUIRED",
        message := "Session is not an active member of this account" }
  | some role =>
    if role.rank < minimumRole.rank then
      .error
        { status := 403, code := "ACCOUNT_ROLE_REQUIRED",
          message := s!"This action requires the {minimumRole.name} role" }
    else .ok (session, role)

def requireRecentAccountRole (caller : Caller) (accountId : Text) (minimumRole : VaultRole) (now : Nat) :
    Except Refusal (SessionView × VaultRole) := do
  let (session, role) ← accountRoleFor tables caller accountId minimumRole
  requireRecentStrongSession session now
  .ok (session, role)

/-- What happened, for the record. -/
inductive Act where
  | invited (invitation : Invitation) (inviter : Text) (actorRole : VaultRole)
  | accepted (invitation : Invitation)
  | revoked (accountId memberAccountId : Text)
deriving DecidableEq

def invitationLifetime (expiresInSeconds : Option Nat) : Nat :=
  max (5 * 60) (min (30 * 24 * 60 * 60) (expiresInSeconds.getD (7 * 24 * 60 * 60)))

variable (hashToken : Text → Text)

def postInvitation (tables : Tables) (caller : Caller) (accountId invitee role : Text)
    (expiresInSeconds : Option Nat)
    (invitationId token : Text) (now : Nat) : Except Refusal (Tables × Act) := do
  let accountId ← normalizeAccountId accountId
  let (session, actorRole) ← requireRecentAccountRole tables caller accountId .admin now
  let invitee ← normalizeAccountId invitee
  if invitee = accountId then
    .error { status := 400, code := "INVALID_INVITEE", message := "An account cannot invite itself" }
  else do
    let role ← normalizeVaultRole role
    if role = .owner ∨ (role = .admin ∧ actorRole ≠ .owner) then
      .error
        { status := 403, code := "ROLE_GRANT_NOT_ALLOWED"
          message := "Only an owner can grant admin access, and owner access cannot be delegated" }
    else if !tables.accounts.contains invitee then
      .error { status := 404, code := "INVITEE_NOT_FOUND", message := "Invitee account does not exist" }
    else
      let invitation : Invitation :=
        { invitationId := invitationId, accountId := accountId, inviteeAccountId := invitee, role := role
          tokenHashHex := hashToken token, createdAtUtc := now,
          expiresAtUtc := now + invitationLifetime expiresInSeconds
          acceptedAtUtc := none, revokedAtUtc := none }
      -- the id is a primary key and the hash of the token is unique
      if tables.invitations.any fun i => i.invitationId = invitationId ∨ i.tokenHashHex = hashToken token then
        .error databaseFailure
      else
        .ok ({ tables with invitations := tables.invitations ++ [invitation] },
          .invited invitation session.accountId actorRole)

def enter (invitation : Invitation) (now : Nat) : Tables :=
  { tables with
    invitations := tables.invitations.map fun i =>
      if i.invitationId = invitation.invitationId then { i with acceptedAtUtc := some now } else i
    memberships := tables.memberships.insert (invitation.accountId, invitation.inviteeAccountId)
      { role := invitation.role, status := .active
        invitedAtUtc :=
          ((tables.memberships.lookup (invitation.accountId, invitation.inviteeAccountId)).map
            Membership.invitedAtUtc).getD
            invitation.createdAtUtc
        acceptedAtUtc := some now, revokedAtUtc := none } }

/-- The invitee enters with the role of the invitation. -/
def postInvitationAccept (tables : Tables) (caller : Caller) (token : Text) (now : Nat) :
    Except Refusal (Tables × Act) := do
  let token := trim token
  if (utf8 token).length < 16 then
    .error { status := 400, code := "INVALID_INVITATION_TOKEN", message := "Invitation token is invalid" }
  else do
    let session ← caller.session
    match tables.invitations.find? fun i => i.tokenHashHex = hashToken token ∧
      i.inviteeAccountId = session.accountId with
    | none =>
      .error
        { status := 404, code := "INVITATION_NOT_FOUND"
          message := "Invitation is unknown or not addressed to this account" }
    | some invitation =>
      if invitation.expiresAtUtc ≤ now ∨ invitation.acceptedAtUtc.isSome ∨ invitation.revokedAtUtc.isSome then
        .error
          { status := 409, code := "INVITATION_EXPIRED",
            message := "Invitation is expired, accepted, or revoked" }
      else do
        requireRecentStrongSession
          { session with
            mfaRequired := session.mfaRequired || caller.policyRequired invitation.accountId } now
        .ok (enter tables invitation now, .accepted invitation)

def endMembership (now : Nat) (row : Membership) : Membership :=
  { row with status := .revoked, revokedAtUtc := some now }

def postMembershipRevoke (caller : Caller) (accountId memberAccountId : Text) (now : Nat) :
    Except Refusal (Tables × Act) := do
  let accountId ← normalizeAccountId accountId
  let memberAccountId ← normalizeAccountId memberAccountId
  let (session, actorRole) ← requireRecentAccountRole tables caller accountId .admin now
  if session.accountId = memberAccountId then
    .error { status := 403, code := "SELF_MEMBERSHIP_REVOKE",
             message := "A session cannot revoke its own membership" }
  else
    match (tables.memberships.lookup (accountId, memberAccountId)).filter
        fun row => row.status = .active ∧ row.revokedAtUtc = none with
    | none => .error { status := 404, code := "MEMBERSHIP_NOT_FOUND", message := "Membership is not active" }
    | some row =>
      if actorRole ≠ .owner ∧ row.role.rank ≥ actorRole.rank then
        .error
          { status := 403, code := "ROLE_HIERARCHY",
            message := "An admin can revoke only lower-privilege memberships" }
      else
        .ok ({ tables with
               memberships := tables.memberships.insert (accountId, memberAccountId)
                 (endMembership now row) },
          .revoked accountId memberAccountId)

inductive Request where
  | invite (accountId invitee role : Text) (expiresInSeconds : Option Nat) (invitationId token : Text)
  | accept (token : Text)
  | revoke (accountId memberAccountId : Text)

structure Event where
  elapsed : Nat
  caller : Caller
  request : Request

def handle (tables : Tables) (caller : Caller) (now : Nat) : Request → Except Refusal (Tables × Act)
  | .invite accountId invitee role expiresInSeconds invitationId token =>
    postInvitation hashToken tables caller accountId invitee role expiresInSeconds invitationId token now
  | .accept token => postInvitationAccept hashToken tables caller token now
  | .revoke accountId memberAccountId => postMembershipRevoke tables caller accountId memberAccountId now

/-- `acts` are the latest first. -/
structure State where
  tables : Tables
  clock : Nat
  acts : List Act

def step (s : State) (event : Event) : State :=
  match handle hashToken s.tables event.caller (s.clock + event.elapsed) event.request with
  | .ok (tables, act) => { tables := tables, clock := s.clock + event.elapsed, acts := act :: s.acts }
  | .error _ => { s with clock := s.clock + event.elapsed }

def run (s : State) (events : List Event) : State := events.foldl (step hashToken) s

def init (accounts : List Text) : State :=
  { tables := { accounts := accounts, invitations := [], memberships := ∅ }, clock := 0, acts := [] }

/-- Who invites may hand out roles below their own, and has to be an admin at least. -/
def VaultRole.MayGrant (actorRole role : VaultRole) : Prop :=
  VaultRole.admin.rank ≤ actorRole.rank ∧ role.rank < actorRole.rank

/-- Everything that one request can do. -/
inductive Effect (tables : Tables) (now : Nat) : Tables → Act → Prop where
  | invited (invitation : Invitation) (inviter : Text) (actorRole : VaultRole)
      (hopen : invitation.acceptedAtUtc = none) (hother : invitation.accountId ≠ invitation.inviteeAccountId)
      (hrole : activeMembershipRole tables invitation.accountId inviter = some actorRole)
      (hgrant : VaultRole.MayGrant actorRole invitation.role) :
      Effect tables now { tables with invitations := tables.invitations ++ [invitation] }
        (.invited invitation inviter actorRole)
  | accepted (invitation : Invitation) (hmem : invitation ∈ tables.invitations)
      (hopen : invitation.acceptedAtUtc = none)
      (hlive : now < invitation.expiresAtUtc) :
      Effect tables now (enter tables invitation now) (.accepted invitation)
  | revoked (accountId memberAccountId : Text) (row : Membership)
      (hrow : tables.memberships.lookup (accountId, memberAccountId) = some row) :
      Effect tables now
        { tables with
          memberships :=
            tables.memberships.insert (accountId, memberAccountId) (endMembership now row) }
        (.revoked accountId memberAccountId)

variable {tables tables' : Tables} {caller : Caller} {accountId a m : Text} {now : Nat}
  {role : VaultRole} {act : Act}
  {s : State} {event : Event}

theorem role_of_requireRecentAccountRole {minimumRole : VaultRole} {session : SessionView}
    (h : requireRecentAccountRole tables caller accountId minimumRole now = .ok (session, role)) :
    activeMembershipRole tables accountId session.accountId = some role ∧ minimumRole.rank ≤ role.rank := by
  obtain ⟨⟨session', role'⟩, hfor, h⟩ := bind_eq_ok.mp h
  obtain ⟨_, -, h⟩ := bind_eq_ok.mp h
  cases h
  obtain ⟨_, -, hfor⟩ := bind_eq_ok.mp hfor
  dsimp only at hfor
  split at hfor
  · cases hfor
  next hr =>
  split at hfor
  · cases hfor
  next hrank =>
  cases hfor
  exact ⟨hr, Nat.le_of_not_lt hrank⟩

theorem mayGrant_of_allowed {actorRole : VaultRole} (hactor : VaultRole.admin.rank ≤ actorRole.rank)
    (h : ¬(role = .owner ∨ (role = .admin ∧ actorRole ≠ .owner))) : VaultRole.MayGrant actorRole role := by
  refine ⟨hactor, ?_⟩
  revert hactor h
  cases actorRole <;> cases role <;> simp [VaultRole.rank]

variable {hashToken}

variable {token : Text} {acts : List Act}

theorem effect_of_postInvitation {expiresInSeconds : Option Nat} {invitationId : Text} {invitee role : Text}
    (h : postInvitation hashToken tables caller accountId invitee role expiresInSeconds invitationId
      token now =
      .ok (tables', act)) : Effect tables now tables' act := by
  obtain ⟨accountId, -, h⟩ := bind_eq_ok.mp h
  obtain ⟨⟨session, actorRole⟩, hactor, h⟩ := bind_eq_ok.mp h
  obtain ⟨hr, hrank⟩ := role_of_requireRecentAccountRole hactor
  obtain ⟨invitee, -, h⟩ := bind_eq_ok.mp h
  obtain ⟨hself, h⟩ := ite_error_eq_ok.mp h
  obtain ⟨role, -, h⟩ := bind_eq_ok.mp h
  obtain ⟨hall, h⟩ := ite_error_eq_ok.mp h
  obtain ⟨-, h⟩ := ite_error_eq_ok.mp h
  obtain ⟨-, h⟩ := ite_error_eq_ok.mp h
  cases h
  exact .invited _ session.accountId actorRole rfl (Ne.symm hself) hr (mayGrant_of_allowed hrank hall)

theorem effect_of_postInvitationAccept
    (h : postInvitationAccept hashToken tables caller token now = .ok (tables', act)) :
    Effect tables now tables' act := by
  obtain ⟨-, h⟩ := ite_error_eq_ok.mp h
  obtain ⟨session, -, h⟩ := bind_eq_ok.mp h
  split at h
  · cases h
  next invitation hf =>
  obtain ⟨ho, h⟩ := ite_error_eq_ok.mp h
  obtain ⟨_, -, h⟩ := bind_eq_ok.mp h
  cases h
  rw [not_or, not_or, not_le] at ho
  exact .accepted invitation (mem_of_find?_eq_some hf) (by simpa using ho.2.1) ho.1

theorem effect_of_postMembershipRevoke {memberAccountId : Text}
    (h : postMembershipRevoke tables caller accountId memberAccountId now = .ok (tables', act)) :
    Effect tables now tables' act := by
  obtain ⟨accountId, -, h⟩ := bind_eq_ok.mp h
  obtain ⟨memberAccountId, -, h⟩ := bind_eq_ok.mp h
  obtain ⟨⟨session, actorRole⟩, -, h⟩ := bind_eq_ok.mp h
  obtain ⟨-, h⟩ := ite_error_eq_ok.mp h
  split at h
  · cases h
  next row hrow =>
  obtain ⟨-, h⟩ := ite_error_eq_ok.mp h
  cases h
  exact .revoked accountId memberAccountId row (Option.filter_eq_some_iff.mp hrow).1

theorem effect_of_handle {request : Request}
    (h : handle hashToken tables caller now request = .ok (tables', act)) :
    Effect tables now tables' act := by
  cases request with
  | invite => exact effect_of_postInvitation h
  | accept => exact effect_of_postInvitationAccept h
  | revoke => exact effect_of_postMembershipRevoke h

theorem keeps_of_effect {P : State → Prop} (hclock : ∀ clock, s.clock ≤ clock → P { s with clock := clock })
    (heffect : ∀ tables act, handle hashToken s.tables event.caller (s.clock + event.elapsed)
      event.request = .ok (tables, act) →
      Effect s.tables (s.clock + event.elapsed) tables act →
      P { tables := tables, clock := s.clock + event.elapsed, acts := act :: s.acts }) :
    P (step hashToken s event) := by
  unfold step
  split
  next tables act h => exact heffect tables act h (effect_of_handle h)
  · exact hclock _ (le_add_right _ _)

/-! ## Roles come from invitations -/

/-- The invitation and its acceptance are on record, and the inviter could grant the role. -/
def Admitted (acts : List Act) (accountId memberAccountId : Text) (role : VaultRole) : Prop :=
  ∃ invitation inviter actorRole, .accepted invitation ∈ acts ∧ .invited invitation inviter actorRole ∈ acts ∧
    invitation.accountId = accountId ∧ invitation.inviteeAccountId = memberAccountId ∧
      invitation.role = role ∧
    VaultRole.MayGrant actorRole role

theorem Admitted.cons (h : Admitted acts a m role) (act : Act) : Admitted (act :: acts) a m role := by
  obtain ⟨i, inviter, actorRole, hacc, hinv, hr⟩ := h
  exact ⟨i, inviter, actorRole, mem_cons_of_mem _ hacc, mem_cons_of_mem _ hinv, hr⟩

/-- The tables agree with the record of what happened. -/
structure Recorded (s : State) : Prop where
  /-- An open invitation is as it was made, by someone who could. -/
  invitations : ∀ i ∈ s.tables.invitations, i.acceptedAtUtc = none → i.accountId ≠ i.inviteeAccountId ∧
    ∃ inviter actorRole, .invited i inviter actorRole ∈ s.acts ∧ VaultRole.MayGrant actorRole i.role
  memberships : ∀ a m row, s.tables.memberships.lookup (a, m) = some row →
    a ≠ m ∧ Admitted s.acts a m row.role

theorem mem_of_mem_enter {invitation i : Invitation} (h : i ∈ (enter tables invitation now).invitations)
    (hopen : i.acceptedAtUtc = none) : i ∈ tables.invitations := by
  obtain ⟨j, hj, heq⟩ := mem_map.mp h
  split at heq
  · subst heq
    cases hopen
  · exact heq ▸ hj

theorem recorded_step (hs : Recorded s) : Recorded (step hashToken s event) := by
  refine keeps_of_effect (fun _ _ => ⟨hs.invitations, hs.memberships⟩) ?_
  intro tables act _ heff
  have hinv : ∀ i ∈ s.tables.invitations, i.acceptedAtUtc = none → i.accountId ≠ i.inviteeAccountId ∧
      ∃ inviter actorRole, .invited i inviter actorRole ∈ act :: s.acts ∧
        VaultRole.MayGrant actorRole i.role := by
    intro i hi ho
    obtain ⟨hne, x, r, hmem, hr⟩ := hs.invitations i hi ho
    exact ⟨hne, x, r, mem_cons_of_mem _ hmem, hr⟩
  have hrows : ∀ a m row, s.tables.memberships.lookup (a, m) = some row →
    a ≠ m ∧ Admitted (act :: s.acts) a m row.role := by
    intro a m row hrow
    exact ⟨(hs.memberships a m row hrow).1, (hs.memberships a m row hrow).2.cons _⟩
  cases heff with
  | invited i inviter actorRole ho hot hro hgrant =>
    refine ⟨?_, hrows⟩
    intro j hj hjopen
    rcases mem_append.mp hj with hj | hj
    · exact hinv j hj hjopen
    · cases mem_singleton.mp hj
      exact ⟨hot, inviter, actorRole, mem_cons_self, hgrant⟩
  | accepted i hmem ho hl =>
    refine ⟨fun j hj hjopen => hinv j (mem_of_mem_enter hj hjopen) hjopen, ?_⟩
    intro a m row hrow
    rcases lookup_insert_cases hrow with ⟨hkey, rfl⟩ | ⟨_, hrow⟩
    · cases hkey
      obtain ⟨hne, inviter, actorRole, hinvi, hgrant⟩ := hinv i hmem ho
      exact ⟨hne, i, inviter, actorRole, mem_cons_self, hinvi, rfl, rfl, rfl, hgrant⟩
    · exact hrows a m row hrow
  | revoked a' m' row' hrow' =>
    refine ⟨hinv, ?_⟩
    intro a m row hrow
    rcases lookup_insert_cases hrow with ⟨hkey, rfl⟩ | ⟨_, hrow⟩
    · cases hkey
      exact hrows a' m' row' hrow'
    · exact hrows a m row hrow

/-- What a revocation finds: no other invitation of the member that can still be accepted. -/
def NoneOutstanding (hashToken : Text → Text) (s : State) (event : Event) : Prop :=
  match handle hashToken s.tables event.caller (s.clock + event.elapsed) event.request with
  | .ok (_, .revoked a m) => ∀ i ∈ s.tables.invitations, i.accountId = a → i.inviteeAccountId = m →
      i.acceptedAtUtc = none → i.expiresAtUtc ≤ s.clock + event.elapsed
  | _ => True

instance (hashToken : Text → Text) (s : State) (event : Event) :
    Decidable (NoneOutstanding hashToken s event) := by
  unfold NoneOutstanding
  split <;> infer_instance

/-- Since these acts, an invitation was made and accepted. -/
def Readmitted (acts : List Act) (accountId memberAccountId : Text) : Prop :=
  ∃ invitation inviter actorRole, .accepted invitation ∈ acts ∧ .invited invitation inviter actorRole ∈ acts ∧
    invitation.accountId = accountId ∧ invitation.inviteeAccountId = memberAccountId

/-- A member whose membership was revoked has a role only from an invitation made and accepted
since. -/
def RemovalFinal (s : State) : Prop :=
  ∀ a m after before, s.acts = after ++ .revoked a m :: before →
    (activeMembershipRole s.tables a m).isSome → Readmitted after a m

/-- Every role stems from an accepted invitation of someone who could grant it. -/
def RolesGranted (s : State) : Prop :=
  ∀ a m role, a ≠ m → activeMembershipRole s.tables a m = some role → Admitted s.acts a m role

/-- Who invites holds, at that moment, the role that the record names. -/
def InviterHolds (hashToken : Text → Text) (s : State) (event : Event) : Prop :=
  ∀ tables i inviter actorRole, handle hashToken s.tables event.caller (s.clock + event.elapsed)
    event.request =
    .ok (tables, .invited i inviter actorRole) →
      activeMembershipRole s.tables i.accountId inviter = some actorRole

/-- What is open of the invitations since a revocation, and what has been accepted of them. -/
structure Since (s : State) (a m : Text) (after : List Act) : Prop where
  openSince : ∀ i ∈ s.tables.invitations, i.accountId = a → i.inviteeAccountId = m → i.acceptedAtUtc = none →
    s.clock < i.expiresAtUtc → ∃ inviter actorRole, .invited i inviter actorRole ∈ after
  active : (activeMembershipRole s.tables a m).isSome → Readmitted after a m

/-- For every revocation, what has to have come after it. -/
def SinceRevoked (s : State) : Prop :=
  ∀ a m after before, s.acts = after ++ .revoked a m :: before → Since s a m after

theorem Readmitted.cons (h : Readmitted acts a m) (act : Act) : Readmitted (act :: acts) a m := by
  obtain ⟨i, inviter, actorRole, hacc, hinv, hr⟩ := h
  exact ⟨i, inviter, actorRole, mem_cons_of_mem _ hacc, mem_cons_of_mem _ hinv, hr⟩

theorem activeMembershipRole_congr
    (h : tables'.memberships.lookup (a, m) = tables.memberships.lookup (a, m)) :
    activeMembershipRole tables' a m = activeMembershipRole tables a m := by
  simp only [activeMembershipRole, h]

theorem since_effect {after : List Act} (hnow : s.clock ≤ now)
    (heffect : Effect s.tables now tables act) (hne : a ≠ m)
    (h : Since s a m after) : Since { tables := tables, clock := now, acts := act :: s.acts } a m
      (act :: after) := by
  have hold : ∀ i ∈ s.tables.invitations, i.accountId = a → i.inviteeAccountId = m → i.acceptedAtUtc = none →
      now < i.expiresAtUtc → ∃ inviter actorRole, .invited i inviter actorRole ∈ act :: after := by
    intro i hi ha hm ho hl
    obtain ⟨x, r, hmem⟩ := h.openSince i hi ha hm ho (by omega)
    exact ⟨x, r, mem_cons_of_mem _ hmem⟩
  cases heffect with
  | invited i inviter actorRole ho hot hr hgrant =>
    constructor
    · intro j hj ha hm hjopen hl
      rcases mem_append.mp hj with hj | hj
      · exact hold j hj ha hm hjopen hl
      · cases mem_singleton.mp hj
        exact ⟨inviter, actorRole, mem_cons_self⟩
    · intro hr
      exact (h.active hr).cons _
  | accepted i hmem ho hl =>
    constructor
    · intro j hj ha hm hjopen hjlive
      exact hold j (mem_of_mem_enter hj hjopen) ha hm hjopen hjlive
    · intro hr
      by_cases hkey : (a, m) = (i.accountId, i.inviteeAccountId)
      · cases hkey
        obtain ⟨x, r, hinv⟩ := hold i hmem rfl rfl ho hl
        exact ⟨i, x, r, mem_cons_self, hinv, rfl, rfl⟩
      · refine (h.active ?_).cons _
        rwa [activeMembershipRole_congr (lookup_insert_ne hkey)] at hr
  | revoked a' m' row hrow =>
    constructor
    · exact hold
    · intro hr
      by_cases hkey : (a, m) = (a', m')
      · cases hkey
        simp [activeMembershipRole, hne, endMembership] at hr
      · refine (h.active ?_).cons _
        rwa [activeMembershipRole_congr (lookup_insert_ne hkey)] at hr

theorem sinceRevoked_step (hrecorded : Recorded s) (hmembers : ∀ a m, .revoked a m ∈ s.acts → a ≠ m)
    (hclear : NoneOutstanding hashToken s event) (hs : SinceRevoked s) :
    SinceRevoked (step hashToken s event) := by
  refine keeps_of_effect ?_ ?_
  · intro clock hclock a m after before hacts
    have h := hs a m after before hacts
    exact ⟨fun i hi ha hm ho hl => h.openSince i hi ha hm ho (lt_of_le_of_lt hclock hl), h.active⟩
  · intro tables act hhandle heff a m after before hacts
    cases after with
    | cons first after =>
      obtain ⟨rfl, hacts'⟩ := List.cons.inj hacts
      have hne : a ≠ m := hmembers a m (hacts' ▸ by simp)
      exact since_effect (le_add_right _ _) heff hne (hs a m after before hacts')
    | nil =>
      -- the revocation itself: nothing outstanding is left, and the row is no longer active
      obtain ⟨rfl, -⟩ := List.cons.inj hacts
      simp only [NoneOutstanding, hhandle] at hclear
      cases heff with
      | revoked _ _ row hrow =>
        have hne : a ≠ m := (hrecorded.memberships a m row hrow).1
        constructor
        · intro i hi ha hm ho hl
          exact absurd (hclear i hi ha hm ho) (Nat.not_le_of_lt hl)
        · intro hr
          simp [activeMembershipRole, hne, endMembership] at hr

structure Inv (s : State) : Prop where
  recorded : Recorded s
  members : ∀ a m, .revoked a m ∈ s.acts → a ≠ m
  since : SinceRevoked s

theorem inv_step (hclear : NoneOutstanding hashToken s event) (hs : Inv s) :
    Inv (step hashToken s event) := by
  refine ⟨recorded_step hs.recorded, ?_, sinceRevoked_step hs.recorded hs.members hclear hs.since⟩
  refine keeps_of_effect (P := fun s => ∀ a m, .revoked a m ∈ s.acts → a ≠ m) (fun _ _ => hs.members) ?_
  intro tables act _ heff a m hmem
  rcases mem_cons.mp hmem with heq | hmem
  · subst heq
    cases heff with
    | revoked _ _ row hrow => exact (hs.recorded.memberships a m row hrow).1
  · exact hs.members a m hmem

theorem inv_init (accounts : List Text) : Inv (init accounts) := by
  refine ⟨⟨?_, ?_⟩, ?_, ?_⟩
  · nofun
  · intro a m row hrow
    simp [init] at hrow
  · nofun
  · intro a m after before hacts
    simp [init] at hacts

theorem rolesGranted_of_recorded (hs : Recorded s) : RolesGranted s := by
  intro a m role hne hr
  simp only [activeMembershipRole, if_neg hne] at hr
  split at hr
  next row hrow =>
    split at hr
    · cases hr
      exact (hs.memberships a m row hrow).2
    · cases hr
  · cases hr

theorem recorded_run (hashToken : Text → Text) (accounts : List Text) (events : List Event) :
    Recorded (run hashToken (init accounts) events) :=
  Runs.Along.keeps (fun _ _ _ hs => recorded_step hs) (Runs.along_of_forall fun _ _ => trivial)
    (inv_init accounts).recorded

/-- Where no invitation of a member is outstanding when the membership is revoked, removal is final.
In every run, the roles stem from accepted invitations, and who invites holds the role that the
record names. -/
theorem membership_after_revocation (hashToken : Text → Text) (accounts : List Text) (events : List Event) :
    (Runs.Along (step hashToken) (NoneOutstanding hashToken) (init accounts) events →
      RemovalFinal (run hashToken (init accounts) events)) ∧
      RolesGranted (run hashToken (init accounts) events) ∧
      Runs.Along (step hashToken) (InviterHolds hashToken) (init accounts) events := by
  refine ⟨fun hclear => ?_, rolesGranted_of_recorded (recorded_run hashToken accounts events), ?_⟩
  · have hinv : Inv (run hashToken (init accounts) events) :=
      hclear.keeps (fun _ _ hclear hs => inv_step hclear hs) (inv_init accounts)
    intro a m after before hacts hr
    exact (hinv.since a m after before hacts).active hr
  · refine Runs.along_of_forall fun s event => ?_
    intro tables i inviter actorRole hhandle
    cases effect_of_handle hhandle with
    | invited _ _ _ _ _ hr _ => exact hr

section

def account (last : Char) : Text := "cvacct_0123456789abcdef0123456789abcde".toList ++ [last]

def strong (accountId : Text) (issuedAtUtc : Nat) : Caller :=
  { session := .ok
      { accountId := accountId, deviceIdHex := none, authMethod := .device, issuedAtUtc := issuedAtUtc
        expiresAtUtc := issuedAtUtc + 1800, mfaRequired := false,
        mfaVerifiedAtUtc := none, mfaProofId := none }
    policyRequired := fun _ => false }

def byOwner (request : Request) : Event :=
  { elapsed := 1, caller := strong (account '0') 0, request := request }

def byMember (request : Request) : Event :=
  { elapsed := 1, caller := strong (account '1') 0, request := request }

def invitation (id : String) : Request :=
  .invite (account '0') (account '1') "editor".toList none id.toList id.toList

def removal : List Event :=
  [byOwner (invitation "cvinv_000000000001"), byOwner (invitation "cvinv_000000000002"),
   byMember (.accept "cvinv_000000000001".toList), byOwner (.revoke (account '0') (account '1'))]

def second : Invitation :=
  { invitationId := "cvinv_000000000002".toList, accountId := account '0',
    inviteeAccountId := account '1', role := .editor
    tokenHashHex := "cvinv_000000000002".toList, createdAtUtc := 2,
    expiresAtUtc := 604802, acceptedAtUtc := none
    revokedAtUtc := none }

/-- The second invitation, made before the revocation, brings the member back after it. -/
theorem older_invitation_readmits :
    ¬RemovalFinal (run id (init [account '0', account '1'])
      (removal ++ [byMember (.accept "cvinv_000000000002".toList)])) := by
  intro hfinal
  obtain ⟨i, inviter, actorRole, -, hinv, -⟩ :=
    hfinal (account '0') (account '1') [.accepted second]
      ((run id (init [account '0', account '1']) removal).acts.drop 1)
      (by decide +kernel) (by decide +kernel)
  cases mem_singleton.mp hinv

theorem membership_after_revocation_new_invitation :
    RemovalFinal (run id (init [account '0', account '1'])
      [byOwner (invitation "cvinv_000000000001"), byMember (.accept "cvinv_000000000001".toList),
        byOwner (.revoke (account '0') (account '1')), byOwner (invitation "cvinv_000000000002"),
        byMember (.accept "cvinv_000000000002".toList)]) :=
  (membership_after_revocation id _ _).1 (by decide +kernel)

end

end CipherVault.Account.Memberships
