import CipherVault.Base.Dict
import CipherVault.Base.Result
import CipherVault.Crypto.Basic

/-!
# Account.Policy

`services/account/src/policy.rs`: the roles of a project, the tables that decide what a caller may
do, and `authorize`. `scope_origin_active` depends on the tables of the accounts; here it is one
more table, that answers for the claims.
-/

namespace CipherVault.Account

open Crypto

inductive ProjectRole where
  | admin
  | developer
  | operator
  | auditor
deriving DecidableEq

def ProjectRole.parse (role : Text) : Option ProjectRole :=
  if role = "admin".toList then some .admin
  else if role = "developer".toList then some .developer
  else if role = "operator".toList then some .operator
  else if role = "auditor".toList then some .auditor
  else none

inductive ScopedAction where
  | readMetadata
  | readValue
  | createSecret
  | updateMetadata
  | rotateSecret
  | moveSecret
  | rebindSecret
  | deleteSecret
  | manageMembers
  | manageBindings
  | managePolicies
  | manageMigrations
  | viewAudit
deriving DecidableEq

structure AuthTarget where
  (tenantId projectId : Text)
  (environmentId repositoryBindingId serviceId : Option Text)

structure RequestAttributes where
  branch : Option Text
  (elevated trustedBranch humanSession recentStrongAuth : Bool)

/-- What a token says about its holder; the fields that the modelled functions read. -/
structure ScopeClaims where
  (tenantId projectId : Text)
  (environmentId repositoryBindingId serviceId originSessionHash mfaProofId : Option Text)
  principalId : Text
deriving DecidableEq

inductive PolicyDenial where
  | scopeMismatch
  | environmentMismatch
  | bindingMismatch
  | serviceMismatch
  | noGrant
  | roleInsufficient
  | productionGate
  | unknownEnvironment
  | authenticationStrength

/-- The permission table: operators may rotate but not create, auditors see no values. -/
def roleAllows (role : ProjectRole) : ScopedAction → Bool
  | .readMetadata => true
  | .readValue => role == .admin || role == .developer || role == .operator
  | .createSecret | .updateMetadata => role == .admin || role == .developer
  | .rotateSecret => role == .admin || role == .developer || role == .operator
  | .viewAudit => role == .admin || role == .auditor
  | .moveSecret | .rebindSecret | .deleteSecret | .manageMembers | .manageBindings | .managePolicies
  | .manageMigrations => role == .admin

structure ProjectRow where
  tenantId : Text

structure EnvironmentRow where
  (tenantId projectId : Text)
  tier : Int
  deletedAtUtc : Option Nat

inductive BindingStatus where
  | active
  | suspended
  | revoked
deriving DecidableEq

structure BindingRow where
  (tenantId projectId : Text)
  status : BindingStatus

structure ServiceRow where
  (tenantId projectId : Text)

structure MemberRow where
  role : ProjectRole
  grantedBy : Text
  grantedAtUtc : Nat
  revokedAtUtc : Option Nat

structure PolicyTables where
  /-- `scope_origin_active`; the flag asks for a session of a device or a passkey. -/
  originActive : ScopeClaims → Bool → Bool
  projects : Dict Text ProjectRow
  environments : Dict Text EnvironmentRow
  repositoryBindings : Dict Text BindingRow
  services : Dict Text ServiceRow
  projectMembers : Dict (Text × Text) MemberRow

namespace PolicyTables

variable (tables : PolicyTables)

def projectRoleOf (projectId principalId : Text) : Option ProjectRole :=
  match tables.projectMembers.lookup (projectId, principalId) with
  | some row => if row.revokedAtUtc.isNone then some row.role else none
  | none => none

/-- A role is granted, or granted anew; the database refuses it for a project that does not exist.
-/
def grantProjectRole (projectId principalId : Text) (role : ProjectRole) (grantedBy : Text)
    (nowUtc : Nat) : Option PolicyTables :=
  match tables.projects.lookup projectId with
  | none => none
  | some _ =>
    some
      { tables with
        projectMembers := tables.projectMembers.insert (projectId, principalId)
          { role := role, grantedBy := grantedBy, grantedAtUtc := nowUtc, revokedAtUtc := none } }

def revokeProjectRole (projectId principalId : Text) (nowUtc : Nat) : PolicyTables :=
  match tables.projectMembers.lookup (projectId, principalId) with
  | none => tables
  | some row =>
    if row.revokedAtUtc.isNone then
      { tables with
        projectMembers := tables.projectMembers.insert (projectId, principalId)
          { row with revokedAtUtc := some nowUtc } }
    else tables

def environmentTier (target : AuthTarget) (environmentId : Text) : Option Int :=
  match tables.environments.lookup environmentId with
  | some row =>
    if row.projectId = target.projectId ∧ row.tenantId = target.tenantId then some row.tier else none
  | none => none

def productionGate (attrs : RequestAttributes) : Bool :=
  (attrs.trustedBranch && attrs.branch == some "main".toList) || attrs.elevated

/-- Origin, scope, bindings, strength, role and tier, in this order. -/
def authorize (claims : ScopeClaims) (action : ScopedAction) (target : AuthTarget)
    (attrs : RequestAttributes) : Except PolicyDenial ProjectRole :=
  if !tables.originActive claims (!attrs.humanSession) then .error .authenticationStrength
  else if claims.tenantId ≠ target.tenantId ∨ claims.projectId ≠ target.projectId then .error .scopeMismatch
  else if attrs.humanSession = false ∧ claims.environmentId ≠ target.environmentId then
    .error .environmentMismatch
  else if attrs.humanSession = false ∧ claims.repositoryBindingId ≠ target.repositoryBindingId then
    .error .bindingMismatch
  else if attrs.humanSession = false ∧ claims.serviceId ≠ target.serviceId then .error .serviceMismatch
  else if attrs.humanSession = true ∧ action ≠ .readMetadata ∧ attrs.recentStrongAuth = false then
    .error .authenticationStrength
  else
    match tables.projectRoleOf target.projectId claims.principalId with
    | none => .error .noGrant
    | some role =>
      if !roleAllows role action then .error .roleInsufficient
      else
        match target.environmentId with
        | none => .ok role
        | some environmentId =>
          match tables.environmentTier target environmentId with
          | none => .error .unknownEnvironment
          | some tier => if 2 ≤ tier ∧ !productionGate attrs then .error .productionGate else .ok role

/-! ## What an authorisation says -/

variable {tables : PolicyTables} {role : ProjectRole} {projectId principalId : Text} {nowUtc : Nat}

theorem authorize_ok {claims : ScopeClaims} {action : ScopedAction} {target : AuthTarget}
    {attrs : RequestAttributes} (h : tables.authorize claims action target attrs = .ok role) :
    claims.tenantId = target.tenantId ∧ claims.projectId = target.projectId ∧
      tables.projectRoleOf target.projectId claims.principalId = some role ∧
      roleAllows role action = true := by
  unfold authorize at h
  simp only [ite_error_eq_ok] at h
  obtain ⟨-, hscope, -, -, -, -, h⟩ := h
  rw [not_or, not_not, not_not] at hscope
  split at h
  · cases h
  next role' hr =>
  rw [ite_error_eq_ok] at h
  obtain ⟨hallows, h⟩ := h
  rw [Bool.not_eq_true', Bool.not_eq_false] at hallows
  suffices hsame : role' = role from hsame ▸ ⟨hscope.1, hscope.2, hr, hallows⟩
  split at h
  · cases h
    rfl
  · split at h
    · cases h
    · rw [ite_error_eq_ok] at h
      cases h.2
      rfl

theorem projectRoleOf_grant {grantedBy : Text} {granted : PolicyTables}
    (h : tables.grantProjectRole projectId principalId role grantedBy nowUtc = some granted) (p x : Text) :
    granted.projectRoleOf p x = if (p, x) = (projectId, principalId) then some role
      else tables.projectRoleOf p x := by
  unfold grantProjectRole at h
  split at h
  · cases h
  · cases h
    unfold projectRoleOf
    by_cases hkey : (p, x) = (projectId, principalId)
    · rw [if_pos hkey, hkey, lookup_insert]
      rfl
    · rw [if_neg hkey, lookup_insert_ne hkey]

theorem projectRoleOf_of_revoke {p x : Text}
    (h : (tables.revokeProjectRole projectId principalId nowUtc).projectRoleOf p x = some role) :
    tables.projectRoleOf p x = some role := by
  unfold revokeProjectRole at h
  split at h
  · exact h
  · split at h
    · unfold projectRoleOf at h ⊢
      by_cases hkey : (p, x) = (projectId, principalId)
      · rw [hkey, lookup_insert] at h
        cases h
      · rwa [lookup_insert_ne hkey] at h
    · exact h

end PolicyTables
end CipherVault.Account
