import CipherVault.Account.Policy
import CipherVault.Network.Invites

/-!
# Account.Grants

Who becomes a member of a project: `services/account/src/grants.rs` (admin requests, their
decisions, invites) and the member routes of `secret_routes.rs`. A handler holds the connection of
its process and is one step.
-/

namespace CipherVault.Account.Grants

open Crypto Network

inductive GrantError where
  | denied
  | notFound
  | invalid (detail : String)
  | selfApproval
  | expired
  | db

inductive RequestState where
  | pending
  | approved
  | rejected
  | expired
deriving DecidableEq

def RequestState.name : RequestState → String
  | .pending => "pending"
  | .approved => "approved"
  | .rejected => "rejected"
  | .expired => "expired"

structure GrantRequest where
  (tenantId projectId principalId requestedBy : Text)
  approvedBy : Option Text
  state : RequestState
  (createdAtUtc expiresAtUtc : Nat)

inductive InviteState where
  | pending
  | accepted
  | revoked
  | expired
deriving DecidableEq

def InviteState.name : InviteState → String
  | .pending => "pending"
  | .accepted => "accepted"
  | .revoked => "revoked"
  | .expired => "expired"

structure Invite where
  (tenantId projectId : Text)
  role : ProjectRole
  notAdmin : role ≠ .admin
  (invitedBy codeHashHex : Text)
  state : InviteState
  (createdAtUtc expiresAtUtc : Nat)
  acceptedBy : Option Text

structure Tables where
  policy : PolicyTables
  grantRequests : Dict Text GrantRequest
  projectInvites : Dict Text Invite

def grantRequestTtlSeconds : Nat := 24 * 3600

def inviteTtlSeconds : Nat := 72 * 3600

abbrev Outcome := Except GrantError Unit × Tables

def memberTarget (tenantId projectId : Text) : AuthTarget :=
  { tenantId := tenantId, projectId := projectId, environmentId := none,
    repositoryBindingId := none, serviceId := none }

variable (t : Tables) (claims : ScopeClaims) (attrs : RequestAttributes) (projectId : Text)

def manageMembers : Except GrantError Text :=
  match t.policy.projects.lookup projectId with
  | none => .error .notFound
  | some project =>
    match t.policy.authorize claims .manageMembers (memberTarget project.tenantId projectId) attrs with
    | .error _ => .error .denied
    | .ok _ => .ok project.tenantId

def grantRole (projectId principalId : Text) (role : ProjectRole) (grantedBy : Text) (now : Nat) : Outcome :=
  match t.policy.grantProjectRole projectId principalId role grantedBy now with
  | none => (.error .db, t)
  | some policy => (.ok (), { t with policy := policy })

/-! ## Requests for the admin role -/

/-- `UPDATE grant_requests SET state = …, approved_by = … WHERE request_id = …`. -/
def setRequest (requestId : Text) (state : RequestState) (approvedBy : Option Text) : Tables :=
  match t.grantRequests.lookup requestId with
  | none => t
  | some row =>
    { t with
      grantRequests := t.grantRequests.insert requestId
        { row with state := state, approvedBy := approvedBy.or row.approvedBy } }

def requestAdminGrant (projectId principalId : Text) (newId : Text) (now : Nat) : Outcome :=
  match manageMembers t claims attrs projectId with
  | .error e => (.error e, t)
  | .ok tenant =>
    let principal := trim principalId
    if principal = [] then (.error (.invalid "principal_id must not be empty"), t)
    else if t.grantRequests.entries.any fun e =>
        e.2.projectId = projectId ∧ e.2.principalId = principal ∧ e.2.state = .pending ∧
          now < e.2.expiresAtUtc then
      (.ok (), t)
    else if (t.grantRequests.lookup newId).isSome then (.error .db, t)
    else
      (.ok (), { t with
          grantRequests := t.grantRequests.insert newId
            { tenantId := tenant, projectId := projectId, principalId := principal,
              requestedBy := claims.principalId
              approvedBy := none, state := .pending, createdAtUtc := now,
              expiresAtUtc := now + grantRequestTtlSeconds } })

def readRequest (projectId requestId : Text) : Except GrantError GrantRequest :=
  match manageMembers t claims attrs projectId with
  | .error e => .error e
  | .ok _ =>
    match t.grantRequests.lookup requestId with
    | none => .error .notFound
    | some row => if row.projectId = projectId then .ok row else .error .notFound

/-- Another administrator approves or rejects. -/
def decideGrantRequest (projectId requestId : Text) (approve : Bool) (now : Nat) : Outcome :=
  match readRequest t claims attrs projectId requestId with
  | .error e => (.error e, t)
  | .ok view =>
    if view.state = .pending ∧ now > view.expiresAtUtc then
      (.error .expired, setRequest t requestId .expired none)
    else if view.state ≠ .pending then (.error (.invalid s!"request is already {view.state.name}"), t)
    else if claims.principalId = view.requestedBy then (.error .selfApproval, t)
    else if approve then
      grantRole (setRequest t requestId .approved (some claims.principalId)) projectId view.principalId .admin
        claims.principalId now
    else (.ok (), setRequest t requestId .rejected (some claims.principalId))

def listGrantRequests (now : Nat) : Outcome :=
  match manageMembers t claims attrs projectId with
  | .error e => (.error e, t)
  | .ok _ =>
    (.ok (), { t with
        grantRequests := Dict.map (fun _ row =>
          if row.projectId = projectId ∧ row.state = .pending ∧ row.expiresAtUtc ≤ now then
            { row with state := .expired }
          else row) t.grantRequests })

/-- `UPDATE project_invites SET state = …, accepted_by = … WHERE invite_id = …`. -/
def setInvite (inviteId : Text) (state : InviteState) (acceptedBy : Option Text) : Tables :=
  match t.projectInvites.lookup inviteId with
  | none => t
  | some row =>
    { t with
      projectInvites := t.projectInvites.insert inviteId
        { row with state := state, acceptedBy := acceptedBy.or row.acceptedBy } }

def createInvite (role : ProjectRole) (newId codeHashHex : Text) (now : Nat) : Outcome :=
  if hadmin : role = .admin then
    (.error (.invalid "invites cannot carry the admin role; grant it via dual-admin request"), t)
  else
    match manageMembers t claims attrs projectId with
    | .error e => (.error e, t)
    | .ok tenant =>
      if (t.projectInvites.lookup newId).isSome ∨
        t.projectInvites.entries.any (fun e => e.2.codeHashHex = codeHashHex) then
        (.error .db, t)
      else
        (.ok (), { t with
            projectInvites := t.projectInvites.insert newId
              { tenantId := tenant, projectId := projectId, role := role, notAdmin := hadmin
                invitedBy := claims.principalId, codeHashHex := codeHashHex,
                state := .pending, createdAtUtc := now
                expiresAtUtc := now + inviteTtlSeconds, acceptedBy := none } })

def acceptInvite (principalId codeHashHex : Text) (now : Nat) : Outcome :=
  match t.projectInvites.entries.find? fun e => e.2.codeHashHex = codeHashHex with
  | none => (.error .notFound, t)
  | some ⟨inviteId, view⟩ =>
    if view.state = .pending ∧ now > view.expiresAtUtc then
      (.error .expired, setInvite t inviteId .expired none)
    else if view.state ≠ .pending then (.error .notFound, t)
    else grantRole (setInvite t inviteId .accepted (some principalId)) view.projectId principalId
      view.role view.invitedBy now

def revokeInvite (projectId inviteId : Text) : Outcome :=
  match manageMembers t claims attrs projectId with
  | .error e => (.error e, t)
  | .ok _ =>
    match (t.projectInvites.lookup inviteId).filter fun row => row.projectId = projectId with
    | none => (.error .notFound, t)
    | some view =>
      if view.state ≠ .pending then (.error (.invalid s!"invite is already {view.state.name}"), t)
      else (.ok (), setInvite t inviteId .revoked none)

def listInvites (now : Nat) : Outcome :=
  match manageMembers t claims attrs projectId with
  | .error e => (.error e, t)
  | .ok _ =>
    (.ok (), { t with
        projectInvites := Dict.map (fun _ row =>
          if row.projectId = projectId ∧ row.state = .pending ∧ row.expiresAtUtc ≤ now then
            { row with state := .expired }
          else row) t.projectInvites })

def postProjectMember (projectId principalId role : Text) (newId : Text) (now : Nat) : Outcome :=
  match ProjectRole.parse role with
  | none => (.error (.invalid "role must be admin, developer, operator, or auditor"), t)
  | some role =>
    if trim principalId = [] ∨ (utf8 principalId).length > 256 then
      (.error (.invalid "principal_id must be 1–256 characters"), t)
    else if role = .admin then requestAdminGrant t claims attrs projectId (trim principalId) newId now
    else
      match manageMembers t claims attrs projectId with
      | .error e => (.error e, t)
      | .ok _ => grantRole t projectId (trim principalId) role claims.principalId now

def deleteProjectMember (projectId principalId : Text) (now : Nat) : Outcome :=
  match manageMembers t claims attrs projectId with
  | .error e => (.error e, t)
  | .ok _ => (.ok (), { t with policy := t.policy.revokeProjectRole projectId principalId now })

inductive Request where
  | member (claims : ScopeClaims) (attrs : RequestAttributes) (projectId principalId role newId : Text)
  | removeMember (claims : ScopeClaims) (attrs : RequestAttributes) (projectId principalId : Text)
  | decide (claims : ScopeClaims) (attrs : RequestAttributes) (projectId requestId : Text) (approve : Bool)
  | listRequests (claims : ScopeClaims) (attrs : RequestAttributes) (projectId : Text)
  | invite (claims : ScopeClaims) (attrs : RequestAttributes) (projectId : Text) (role : ProjectRole)
      (newId codeHashHex : Text)
  | accept (principalId codeHashHex : Text)
  | revokeInvite (claims : ScopeClaims) (attrs : RequestAttributes) (projectId inviteId : Text)
  | listInvites (claims : ScopeClaims) (attrs : RequestAttributes) (projectId : Text)

def handle (now : Nat) : Request → Outcome
  | .member claims attrs projectId principalId role newId =>
    postProjectMember t claims attrs projectId principalId role newId now
  | .removeMember claims attrs projectId principalId =>
    deleteProjectMember t claims attrs projectId principalId now
  | .decide claims attrs projectId requestId approve =>
    decideGrantRequest t claims attrs projectId (trim requestId) approve now
  | .listRequests claims attrs projectId => listGrantRequests t claims attrs projectId now
  | .invite claims attrs projectId role newId codeHashHex =>
    createInvite t claims attrs projectId role newId codeHashHex now
  | .accept principalId codeHashHex => acceptInvite t principalId codeHashHex now
  | .revokeInvite claims attrs projectId inviteId => revokeInvite t claims attrs projectId (trim inviteId)
  | .listInvites claims attrs projectId => listInvites t claims attrs projectId now

/-- Time passes, then a request comes. -/
structure Event where
  elapsed : Nat
  originActive : ScopeClaims → Bool → Bool
  request : Request

structure State where
  tables : Tables
  clock : Nat

def State.meets (s : State) (event : Event) : Tables :=
  { s.tables with policy := { s.tables.policy with originActive := event.originActive } }

def step (s : State) (event : Event) : State :=
  { tables := (handle (s.meets event) (s.clock + event.elapsed) event.request).2,
    clock := s.clock + event.elapsed }

variable (policy : PolicyTables)

def init : State :=
  { tables := { policy := policy, grantRequests := ∅, projectInvites := ∅ }, clock := 0 }

variable (events : List Event)

def run : State := events.foldl step (init policy)

theorem run_append (event : Event) : run policy (events ++ [event]) = step (run policy events) event := by
  rw [run, List.foldl_append]
  rfl

/-- Who may decide about the members of a project. -/
def MayManage (projectId principalId : Text) : Prop :=
  ∃ role, policy.projectRoleOf projectId principalId = some role ∧ roleAllows role .manageMembers = true

/-- Only the state of a request and its approver may differ. -/
def SameRequest (row row' : GrantRequest) : Prop :=
  row.projectId = row'.projectId ∧ row.principalId = row'.principalId ∧ row.requestedBy = row'.requestedBy

/-- Every request that is there was there before. -/
def Settles (before after : Dict Text GrantRequest) : Prop :=
  ∀ id row, after.lookup id = some row → ∃ row', before.lookup id = some row' ∧ SameRequest row row'

/-- Everything that one request can do to roles and requests. -/
inductive Effect (t : Tables) (now : Nat) : Request → Tables → Prop where
  | settled (request : Request) (grantRequests : Dict Text GrantRequest) (projectInvites : Dict Text Invite)
      (h : Settles t.grantRequests grantRequests) :
      Effect t now request { t with grantRequests := grantRequests, projectInvites := projectInvites }
  | opened (claims : ScopeClaims) (attrs : RequestAttributes)
      (projectId principalId role newId : Text) (row : GrantRequest)
      (hright : MayManage t.policy projectId claims.principalId) (hproject : row.projectId = projectId)
      (hprincipal : row.principalId = trim principalId) (hby : row.requestedBy = claims.principalId) :
      Effect t now (.member claims attrs projectId principalId role newId)
        { t with grantRequests := t.grantRequests.insert newId row }
  | granted (request : Request) (projectId principalId grantedBy : Text) (role : ProjectRole)
      (policy : PolicyTables)
      (projectInvites : Dict Text Invite) (hrole : role ≠ .admin)
      (hpolicy : t.policy.grantProjectRole projectId principalId role grantedBy now = some policy) :
      Effect t now request { t with policy := policy, projectInvites := projectInvites }
  | removed (request : Request) (projectId principalId : Text) :
      Effect t now request { t with policy := t.policy.revokeProjectRole projectId principalId now }
  | approved (claims : ScopeClaims) (attrs : RequestAttributes) (projectId requestId : Text)
      (row : GrantRequest)
      (policy : PolicyTables) (grantRequests : Dict Text GrantRequest)
      (hright : MayManage t.policy projectId claims.principalId)
      (hrow : t.grantRequests.lookup (trim requestId) = some row) (hproject : row.projectId = projectId)
      (hpending : row.state = .pending) (hlive : now ≤ row.expiresAtUtc)
        (hother : claims.principalId ≠ row.requestedBy)
      (hpolicy : t.policy.grantProjectRole projectId row.principalId .admin claims.principalId now =
        some policy)
      (h : Settles t.grantRequests grantRequests) :
      Effect t now (.decide claims attrs projectId requestId true)
        { t with policy := policy, grantRequests := grantRequests }

theorem settles_refl (requests : Dict Text GrantRequest) : Settles requests requests :=
  fun _ row h => ⟨row, h, rfl, rfl, rfl⟩

theorem settles_setRequest (requestId : Text) (state : RequestState) (approvedBy : Option Text) :
    Settles t.grantRequests (setRequest t requestId state approvedBy).grantRequests := by
  unfold setRequest
  split
  · exact settles_refl _
  next row hrow =>
  intro id row' hrow'
  rcases lookup_insert_cases hrow' with ⟨rfl, rfl⟩ | ⟨_, hrow'⟩
  · exact ⟨row, hrow, rfl, rfl, rfl⟩
  · exact ⟨row', hrow', rfl, rfl, rfl⟩

theorem setRequest_eq (requestId : Text) (state : RequestState) (approvedBy : Option Text) :
    setRequest t requestId state approvedBy =
      { t with grantRequests := (setRequest t requestId state approvedBy).grantRequests } := by
  unfold setRequest
  split <;> rfl

theorem setInvite_eq (inviteId : Text) (state : InviteState) (acceptedBy : Option Text) :
    setInvite t inviteId state acceptedBy =
      { t with projectInvites := (setInvite t inviteId state acceptedBy).projectInvites } := by
  unfold setInvite
  split <;> rfl

variable {t : Tables} {now : Nat}

theorem mayManage_of_manageMembers {claims : ScopeClaims} {attrs : RequestAttributes}
    {projectId tenant : Text}
    (h : manageMembers t claims attrs projectId = .ok tenant) :
    MayManage t.policy projectId claims.principalId := by
  unfold manageMembers at h
  split at h
  · cases h
  · split at h
    · cases h
    next role haut =>
      obtain ⟨-, -, hr, hallows⟩ := PolicyTables.authorize_ok haut
      exact ⟨role, hr, hallows⟩

variable {request : Request} {row : GrantRequest}

theorem Effect.unchanged : Effect t now request t :=
  .settled request t.grantRequests t.projectInvites (settles_refl _)

theorem Effect.invites (projectInvites : Dict Text Invite) :
    Effect t now request { t with projectInvites := projectInvites } :=
  .settled request t.grantRequests projectInvites (settles_refl _)

theorem effect_member (claims : ScopeClaims) (attrs : RequestAttributes)
    (projectId principalId role newId : Text) :
    Effect t now (.member claims attrs projectId principalId role newId)
      (postProjectMember t claims attrs projectId principalId role newId now).2 := by
  unfold postProjectMember
  split
  · exact .unchanged
  next parsed _ =>
  split
  · exact .unchanged
  · split
    · unfold requestAdminGrant
      split
      · exact .unchanged
      next tenant htenant =>
      dsimp only
      split
      · exact .unchanged
      · split
        · exact .unchanged
        · split
          · exact .unchanged
          · refine .opened _ _ _ _ _ _ _ (mayManage_of_manageMembers htenant) rfl ?_ rfl
            exact trim_trim principalId
    next hadmin =>
      split
      · exact .unchanged
      · unfold grantRole
        split
        · exact .unchanged
        next policy hpol => exact .granted _ _ _ _ _ policy _ hadmin hpol

theorem effect_decide (claims : ScopeClaims) (attrs : RequestAttributes)
    (projectId requestId : Text) (approve : Bool) :
    Effect t now (.decide claims attrs projectId requestId approve)
      (decideGrantRequest t claims attrs projectId (trim requestId) approve now).2 := by
  have hset : ∀ state by', Effect t now (.decide claims attrs projectId requestId approve)
      (setRequest t (trim requestId) state by') := by
    intro state by'
    rw [setRequest_eq]
    exact .settled _ _ _ (settles_setRequest t _ _ _)
  unfold decideGrantRequest
  split
  · exact .unchanged
  next view hv =>
  split
  · exact hset _ _
  next hl =>
  split
  · exact .unchanged
  next hpen =>
  rw [not_not] at hpen
  split
  · exact .unchanged
  next ho =>
  split
  next happ =>
    subst happ
    unfold readRequest at hv
    split at hv
    · cases hv
    next tenant htenant =>
    split at hv
    · cases hv
    next row hrow =>
    split at hv
    next hpro =>
      cases hv
      unfold grantRole
      split
      · exact hset _ _
      next policy hpol =>
        rw [setRequest_eq] at hpol ⊢
        exact .approved claims attrs projectId requestId _ policy _
          (mayManage_of_manageMembers htenant) hrow hpro
          hpen (Nat.le_of_not_lt fun hlt => hl ⟨hpen, hlt⟩) ho hpol (settles_setRequest t _ _ _)
    · cases hv
  · exact hset _ _

theorem effect_accept (principalId codeHashHex : Text) :
    Effect t now (.accept principalId codeHashHex) (acceptInvite t principalId codeHashHex now).2 := by
  unfold acceptInvite
  split
  · exact .unchanged
  next inviteId view _ =>
  split
  · rw [setInvite_eq]
    exact .invites _
  · split
    · exact .unchanged
    · unfold grantRole
      split
      · rw [setInvite_eq]
        exact .invites _
      next policy hpol =>
        rw [setInvite_eq] at hpol ⊢
        exact .granted _ _ _ _ _ policy _ view.notAdmin hpol

theorem effect_of_handle (t : Tables) (now : Nat) (request : Request) :
    Effect t now request (handle t now request).2 := by
  cases request with
  | member claims attrs projectId principalId role newId => exact effect_member ..
  | removeMember claims attrs projectId principalId =>
    simp only [handle, deleteProjectMember]
    split
    · exact .unchanged
    · exact .removed _ _ _
  | decide claims attrs projectId requestId approve => exact effect_decide ..
  | listRequests claims attrs projectId =>
    simp only [handle, listGrantRequests]
    split
    · exact .unchanged
    · refine .settled _ _ _ ?_
      intro id row hrow
      rw [lookup_map, Option.map_eq_some_iff] at hrow
      obtain ⟨row', hrow', rfl⟩ := hrow
      refine ⟨row', hrow', ?_⟩
      split <;> exact ⟨rfl, rfl, rfl⟩
  | invite claims attrs projectId role newId codeHashHex =>
    simp only [handle, createInvite]
    split
    · exact .unchanged
    · split
      · exact .unchanged
      · split
        · exact .unchanged
        · exact .invites _
  | accept principalId codeHashHex => exact effect_accept ..
  | revokeInvite claims attrs projectId inviteId =>
    simp only [handle, revokeInvite]
    split
    · exact .unchanged
    · split
      · exact .unchanged
      · split
        · exact .unchanged
        · rw [setInvite_eq]
          exact .invites _
  | listInvites claims attrs projectId =>
    simp only [handle, listInvites]
    split
    · exact .unchanged
    · exact .invites _

/-- Somewhere in the history a caller with the right to do so has opened the request. -/
def Opened (row : GrantRequest) : Prop :=
  ∃ earlier opening later claims attrs principalId role newId, events = earlier ++ opening :: later ∧
    opening.request = .member claims attrs row.projectId principalId role newId ∧
      trim principalId = row.principalId ∧
    claims.principalId = row.requestedBy ∧
      MayManage (run policy earlier).tables.policy row.projectId row.requestedBy

theorem Opened.append {row' : GrantRequest} {policy : PolicyTables} {events : List Event}
    (h : Opened policy events row')
    (hsame : SameRequest row row') (event : Event) : Opened policy (events ++ [event]) row := by
  obtain ⟨earlier, opening, later, claims, attrs, principalId, role, newId, rfl, hope, hpri, hby, hright⟩ := h
  obtain ⟨hp, hx, hr⟩ := hsame
  refine ⟨earlier, opening, later ++ [event], claims, attrs, principalId, role, newId, by simp, ?_,
    ?_, ?_, ?_⟩
  · rw [hp, hope]
  · rw [hx, hpri]
  · rw [hr, hby]
  · rwa [hp, hr]

theorem opened_of_lookup {id : Text}
    (h : (run policy events).tables.grantRequests.lookup id = some row) : Opened policy events row := by
  -- on the last event: a row is as old as the table before it, or opened by it
  induction events using List.reverseRecOn generalizing id row with
  | nil => simp [run, init] at h
  | append_singleton events event ih =>
    rw [run_append] at h
    have heff := effect_of_handle ((run policy events).meets event)
      ((run policy events).clock + event.elapsed) event.request
    simp only [step] at h
    generalize (handle _ _ event.request).2 = after at h heff
    have hset : ∀ requests, Settles (run policy events).tables.grantRequests requests →
      requests.lookup id = some row →
        Opened policy (events ++ [event]) row := by
      intro requests hset hrow
      obtain ⟨row', hrow', hsa⟩ := hset id row hrow
      exact (ih hrow').append hsa event
    generalize hrequest : event.request = request at heff
    cases heff with
    | settled _ grantRequests _ hs => exact hset grantRequests hs h
    | opened claims attrs projectId principalId role newId opened hright hpro hpri hby =>
      rcases lookup_insert_cases h with ⟨rfl, rfl⟩ | ⟨_, h⟩
      · refine ⟨events, event, [], claims, attrs, principalId, role, id, rfl, ?_, hpri.symm, hby.symm, ?_⟩
        · rw [hrequest, hpro]
        · rw [hpro, hby]
          exact hright
      · exact hset _ (settles_refl _) h
    | granted _ _ _ _ _ _ _ _ _ => exact hset _ (settles_refl _) h
    | removed _ _ _ => exact hset _ (settles_refl _) h
    | approved _ _ _ _ _ _ grantRequests _ _ _ _ _ _ _ hs => exact hset grantRequests hs h

/-- Whoever becomes an admin does so by the approval of a pending, unexpired request, opened and
approved by different principals who each had the right to manage members. -/
theorem admin_by_four_eyes (before : List Event) (event : Event) (projectId principalId : Text)
    (hbefore : (run policy before).tables.policy.projectRoleOf projectId principalId ≠ some .admin)
    (hafter : (run policy (before ++ [event])).tables.policy.projectRoleOf projectId principalId =
      some .admin) :
    ∃ claims attrs requestId row, event.request = .decide claims attrs projectId requestId true ∧
      (run policy before).tables.grantRequests.lookup (trim requestId) = some row ∧
      row.projectId = projectId ∧
      row.principalId = principalId ∧ row.state = .pending ∧
      (run policy before).clock + event.elapsed ≤ row.expiresAtUtc ∧
      claims.principalId ≠ row.requestedBy ∧
      MayManage (run policy before).tables.policy projectId claims.principalId ∧
      Opened policy before row := by
  rw [run_append] at hafter
  have heff := effect_of_handle ((run policy before).meets event)
    ((run policy before).clock + event.elapsed) event.request
  simp only [step] at hafter
  generalize (handle _ _ event.request).2 = after at hafter heff
  generalize hrequest : event.request = request at heff
  cases heff with
  | settled => exact absurd hafter hbefore
  | opened => exact absurd hafter hbefore
  | granted _ p x by' role granted _ hr hpol =>
    rw [PolicyTables.projectRoleOf_grant hpol] at hafter
    split at hafter
    · exact absurd (Option.some.inj hafter) hr
    · exact absurd hafter hbefore
  | removed _ p x => exact absurd (PolicyTables.projectRoleOf_of_revoke hafter) hbefore
  | approved claims attrs p requestId row granted _ hright hrow hpro hpen hl ho hpol _ =>
    rw [PolicyTables.projectRoleOf_grant hpol] at hafter
    split at hafter
    next hkey =>
      obtain ⟨rfl, rfl⟩ := Prod.mk.inj hkey
      exact ⟨claims, attrs, requestId, row, rfl, hrow, hpro, rfl, hpen, hl, ho, hright,
        opened_of_lookup policy before hrow⟩
    · exact absurd hafter hbefore

section

def twoAdmins : PolicyTables where
  originActive := fun _ _ => true
  projects := (∅ : Dict Text ProjectRow).insert "p".toList ⟨"t".toList⟩
  environments := ∅
  repositoryBindings := ∅
  services := ∅
  projectMembers := ((∅ : Dict (Text × Text) MemberRow).insert ("p".toList, "alice".toList)
    ⟨.admin, [], 0, none⟩).insert
    ("p".toList, "bob".toList) ⟨.admin, [], 0, none⟩

def claimsOf (principalId : String) : ScopeClaims :=
  { tenantId := "t".toList, projectId := "p".toList, environmentId := none,
    repositoryBindingId := none, serviceId := none
    originSessionHash := none, mfaProofId := none, principalId := principalId.toList }

def human : RequestAttributes :=
  { branch := none, elevated := false, trustedBranch := false, humanSession := true,
    recentStrongAuth := true }

def at' (request : Request) : Event := { elapsed := 1, originActive := fun _ _ => true, request := request }

def asked : Event := at' (.member (claimsOf "alice") human "p".toList "carol".toList "admin".toList
    "gr_1".toList)

theorem admin_by_four_eyes_approved :
    ∃ row, row.requestedBy ≠ "bob".toList ∧ Opened twoAdmins [asked] row := by
  obtain ⟨claims, _, _, row, hreq, -, -, -, -, -, ho, -, hopened⟩ :=
    admin_by_four_eyes twoAdmins [asked]
      (at' (.decide (claimsOf "bob") human "p".toList "gr_1".toList true)) "p".toList
      "carol".toList (by decide +kernel) (by decide +kernel)
  cases hreq
  exact ⟨row, ho.symm, hopened⟩

end

end CipherVault.Account.Grants
