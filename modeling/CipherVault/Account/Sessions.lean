import CipherVault.Account.Guards
import CipherVault.Base.Dict
import CipherVault.Base.Runs

/-!
# Account.Sessions

Sessions of the account service and what is derived from them: logins, handoffs, scope tokens,
step-ups. A request holds the connection. A token stands for its hash, a ciphertext for its
fingerprint. A request draws at most one random value, and these do not repeat. Signatures, codes
and challenges are checked before. Expired rows can be pruned at any time.
-/

namespace CipherVault.Account.Sessions

open Crypto Network

structure Session where
  accountId : Text
  (deviceIdHex credentialIdHex : Option Text)
  kind : AuthMethod
  (issuedAtUtc expiresAtUtc : Nat)
  revoked : Bool
deriving DecidableEq

structure Handoff where
  accountId : Text
  deviceIdHex : Option Text
  authMethod : AuthMethod
  expiresAtUtc : Nat
  used : Bool
  origin : Text

structure Device where
  publicKeyHex : Text
  revoked : Bool

structure Passkey where
  deviceIdHex : Option Text
  revoked : Bool

structure TotpCredential where
  ciphertext : Text
  (enabled revoked : Bool)
deriving DecidableEq

structure StepUp where
  proofId : Text
  verifiedAtUtc : Nat
  fingerprint : Text

structure ScopeClaims where
  (jti accountId : Text)
  (originSession mfaProofId : Option Text)
  (issuedAtUtc expiresAtUtc : Nat)
deriving DecidableEq

/-- The tables that sessions and what is derived from them depend on. -/
structure Tables where
  sessions : Dict Text Session
  handoffs : Dict Text Handoff
  devices : Dict (Text × Text) Device
  passkeys : Dict (Text × Text) Passkey
  totp : Dict Text TotpCredential
  policy : Dict Text Bool
  stepUps : Dict Text StepUp
  denylist : Dict Text Nat
  /-- The tokens that were signed; no other token verifies. -/
  minted : List ScopeClaims

def sessionTtlSeconds : Nat := 30 * 60

def recoveryTtlSeconds : Nat := 900

def handoffTtlSeconds : Nat := 120

variable (t : Tables) (accountId : Text)

def deviceActive (deviceIdHex : Option Text) : Bool :=
  deviceIdHex.all fun d => (t.devices.lookup (accountId, d)).any fun row => !row.revoked

def passkeyActive (credentialIdHex : Option Text) : Bool :=
  credentialIdHex.all fun c => (t.passkeys.lookup (accountId, c)).any fun row => !row.revoked

/-- The condition that every query of the sessions table has. -/
def Session.isLive (now : Nat) (row : Session) : Bool :=
  !row.revoked && decide (now < row.expiresAtUtc) && deviceActive t row.accountId row.deviceIdHex &&
    passkeyActive t row.accountId row.credentialIdHex

def policyRequired : Bool := (t.policy.lookup accountId).getD false

def enabledTotp : Option TotpCredential :=
  (t.totp.lookup accountId).filter fun row => row.enabled && !row.revoked

def isPrimary (kind : AuthMethod) : Bool := kind == .device || kind == .webauthn

def currentStepUp (token accountId : Text) (kind : AuthMethod) (now : Nat) : Option StepUp :=
  (t.stepUps.lookup token).filter fun proof => isPrimary kind && freshStepUp proof.verifiedAtUtc now &&
    (enabledTotp t accountId).any fun credential => credential.ciphertext == proof.fingerprint

def viewOf (token : Text) (row : Session) (now : Nat) : SessionView :=
  let proof := currentStepUp t token row.accountId row.kind now
  { accountId := row.accountId, deviceIdHex := row.deviceIdHex, authMethod := row.kind,
    issuedAtUtc := row.issuedAtUtc
    expiresAtUtc := row.expiresAtUtc, mfaRequired := policyRequired t row.accountId
    mfaVerifiedAtUtc := proof.map StepUp.verifiedAtUtc, mfaProofId := proof.map StepUp.proofId }

def authenticatedSession (token : Text) (now : Nat) : Option SessionView :=
  ((t.sessions.lookup token).filter (Session.isLive t now)).map fun row => viewOf t token row now

def requireRecentAccountSession (token accountId : Text) (now : Nat) : Option SessionView :=
  (authenticatedSession t token now).filter fun view =>
    view.accountId == accountId && (requireRecentStrongSession view now).isOk

def scopeMfaActive (claims : ScopeClaims) (now : Nat) : Bool :=
  if !policyRequired t claims.accountId && claims.mfaProofId.isNone then true
  else claims.originSession.any fun origin => (t.sessions.lookup origin).any fun row =>
    row.accountId == claims.accountId && !row.revoked && decide (now < row.expiresAtUtc) &&
      (requireRecentPrimarySession (viewOf t origin row now) now).isOk &&
      (currentStepUp t origin row.accountId row.kind now).any fun proof =>
        claims.mfaProofId == some proof.proofId

/-- `scope_origin_active`, with strong sessions required. -/
def scopeOriginActive (claims : ScopeClaims) (now : Nat) : Bool :=
  scopeMfaActive t claims now && claims.originSession.all fun origin =>
    (t.sessions.lookup origin).any fun row =>
    row.accountId == claims.accountId && row.isLive t now && isPrimary row.kind

def scopeTokenSkewSeconds : Nat := 60

/-- What happened, for the record. -/
inductive Act where
  | login (token : Text) (row : Session)
  | handed (token origin : Text)
  | deviceEnded (accountId deviceIdHex : Text)
  | passkeyRevoked (accountId credentialIdHex : Text)
  | sessionEnded (token : Text)
  | minted (claims : ScopeClaims)
  | tokenRevoked (jti : Text)
  | steppedUp (token : Text) (verifiedAtUtc : Nat) (ciphertext : Text)
  | other
deriving DecidableEq

/-- `UPDATE sessions SET revoked_at_utc = … WHERE …`. -/
def revokeWhere (p : Text → Session → Bool) : Tables :=
  { t with
    sessions := t.sessions.map fun token row =>
      if p token row then { row with revoked := true } else row }

/-- How an account logs in. -/
inductive Via where
  | accountKey (deviceIdHex : Option Text)
  | passkey (credentialIdHex : Text)
  | totp
  | recovery

def loginRow (now : Nat) : Via → Option Session
  | .accountKey device =>
    if deviceActive t accountId device then
      some ⟨accountId, device, none, .device, now, now + sessionTtlSeconds, false⟩ else none
  | .passkey credential =>
    match t.passkeys.lookup (accountId, credential) with
    | none => none
    | some row =>
      if row.revoked || !deviceActive t accountId row.deviceIdHex then none
      else some ⟨accountId, row.deviceIdHex, some credential, .webauthn, now, now + sessionTtlSeconds, false⟩
  | .totp =>
    if (enabledTotp t accountId).isSome then
      some ⟨accountId, none, none, .totp, now, now + sessionTtlSeconds, false⟩ else none
  | .recovery => some ⟨accountId, none, none, .recovery, now, now + recoveryTtlSeconds, false⟩

def ofDevice (accountId deviceIdHex : Text) (_ : Text) (row : Session) : Bool :=
  row.accountId == accountId && row.deviceIdHex == some deviceIdHex

def ofPasskey (accountId credentialIdHex : Text) (_ : Text) (row : Session) : Bool :=
  row.accountId == accountId && row.credentialIdHex == some credentialIdHex

inductive EnrollmentProof where
  | account (token : Option Text)
  | recovery (token : Text)

def enrollmentAllowed (now : Nat) : EnrollmentProof → Bool
  | .account token => !policyRequired t accountId || token.any fun token =>
    (requireRecentAccountSession t token accountId now).isSome
  | .recovery token => (authenticatedSession t token now).any fun view =>
    view.accountId == accountId && view.authMethod == .recovery

def enrollDevice (accountId deviceIdHex publicKeyHex : Text) : Tables × Act :=
  let row := t.devices.lookup (accountId, deviceIdHex)
  let devices := t.devices.insert (accountId, deviceIdHex) ⟨publicKeyHex, false⟩
  if row.any fun row => row.publicKeyHex != publicKeyHex then
    ({ revokeWhere t (ofDevice accountId deviceIdHex) with devices := devices },
      .deviceEnded accountId deviceIdHex)
  else ({ t with devices := devices }, .other)

def postDeviceEnrollment (proof : EnrollmentProof) (accountId deviceIdHex publicKeyHex : Text) (now : Nat) :
    Option (Tables × Act) :=
  if enrollmentAllowed t accountId now proof then
    some (enrollDevice t accountId deviceIdHex publicKeyHex) else none

def revokeDevice (token accountId deviceIdHex : Text) (now : Nat) : Option (Tables × Act) :=
  match requireRecentAccountSession t token accountId now, t.devices.lookup (accountId, deviceIdHex) with
  | some _, some row =>
    if row.revoked then none
    else some ({ revokeWhere t (ofDevice accountId deviceIdHex) with
      devices := t.devices.insert (accountId, deviceIdHex) { row with revoked := true } },
        .deviceEnded accountId deviceIdHex)
  | _, _ => none

def registerPasskey (token accountId credentialIdHex : Text) (now : Nat) : Option (Tables × Act) :=
  match requireRecentAccountSession t token accountId now with
  | none => none
  | some view =>
    if view.deviceIdHex.isNone || t.passkeys.entries.any fun e => e.1.2 == credentialIdHex then none
    else some ({ t with
      passkeys := t.passkeys.insert (accountId, credentialIdHex) ⟨view.deviceIdHex, false⟩ }, .other)

def revokePasskey (token accountId credentialIdHex : Text) (now : Nat) : Option (Tables × Act) :=
  match requireRecentAccountSession t token accountId now, t.passkeys.lookup (accountId, credentialIdHex) with
  | some _, some row =>
    if row.revoked then none
    else some ({ revokeWhere t (ofPasskey accountId credentialIdHex) with
      passkeys := t.passkeys.insert (accountId, credentialIdHex) { row with revoked := true } },
      .passkeyRevoked accountId credentialIdHex)
  | _, _ => none

def postSessionRevoke (token : Text) (now : Nat) : Option (Tables × Act) :=
  (authenticatedSession t token now).map fun _ => (revokeWhere t fun token' _ => token' == token,
    .sessionEnded token)

variable (view : SessionView)

def issueHandoff (token code : Text) (now : Nat) : Tables × Act :=
  let row : Handoff := ⟨view.accountId, view.deviceIdHex, view.authMethod, now + handoffTtlSeconds,
    false, token⟩
  ({ t with handoffs := t.handoffs.insert code row }, .other)

def postSessionHandoff (token code : Text) (now : Nat) : Option (Tables × Act) :=
  (authenticatedSession t token now).map fun view => issueHandoff t view token code now

def postSessionHandoffConsume (code token : Text) (now : Nat) : Option (Tables × Act) :=
  match t.handoffs.lookup code with
  | none => none
  | some handoff =>
    match (t.sessions.lookup handoff.origin).filter (Session.isLive t now) with
    | none => none
    | some row =>
      if handoff.expiresAtUtc ≤ now || handoff.used then none
      else
        let row := { row with accountId := handoff.accountId, deviceIdHex := handoff.deviceIdHex,
                              kind := handoff.authMethod }
        some ({ t with
          handoffs := t.handoffs.insert code { handoff with used := true }
          sessions := t.sessions.insert token row }, .handed token handoff.origin)

def scopeExpiry (ttlSeconds : Option Nat) (now : Nat) : Nat :=
  let expires := now + min (max 60 (min (ttlSeconds.getD 900) 900)) (view.expiresAtUtc - now)
  if view.mfaRequired then
    min expires (min (view.issuedAtUtc + stepUpMaxAgeSeconds)
      (view.mfaVerifiedAtUtc.getD 0 + stepUpMaxAgeSeconds))
  else expires

/-- `post_scope_token` after the session was read. -/
def mintScopeToken (token jti : Text) (ttlSeconds : Option Nat) (now : Nat) : Option (Tables × Act) :=
  let claims : ScopeClaims := ⟨jti, view.accountId, some token, view.mfaProofId, now,
    scopeExpiry view ttlSeconds now⟩
  if !(requireRecentStrongSession view now).isOk || !scopeOriginActive t claims now ||
    decide (claims.expiresAtUtc ≤ now) then none
  else some ({ t with minted := claims :: t.minted }, .minted claims)

def postScopeToken (token jti : Text) (ttlSeconds : Option Nat) (now : Nat) : Option (Tables × Act) :=
  (authenticatedSession t token now).bind fun view => mintScopeToken t view token jti ttlSeconds now

def denyScopeToken (jti : Text) (now : Nat) : Option (Tables × Act) :=
  if !(requireRecentStrongSession view now).isOk then none
  else some ({ t with denylist := t.denylist.insert jti (now + 3600) }, .tokenRevoked jti)

def deleteScopeToken (token jti : Text) (now : Nat) : Option (Tables × Act) :=
  (authenticatedSession t token now).bind fun view => denyScopeToken t view jti now

/-! ### The second factor -/

def postTotpEnrollment (token accountId ciphertext : Text) (now : Nat) : Option (Tables × Act) :=
  match requireRecentAccountSession t token accountId now, enabledTotp t accountId with
  | some _, none => some ({ t with totp := t.totp.insert accountId ⟨ciphertext, false, false⟩ }, .other)
  | _, _ => none

def postTotpEnrollmentVerify (token accountId : Text) (now : Nat) : Option (Tables × Act) :=
  match requireRecentAccountSession t token accountId now, t.totp.lookup accountId with
  | some _, some row =>
    if row.enabled || row.revoked then none
    else some ({ t with totp := t.totp.insert accountId { row with enabled := true } }, .other)
  | _, _ => none

def postTotpRevoke (token accountId : Text) (now : Nat) : Option (Tables × Act) :=
  match requireRecentAccountSession t token accountId now, t.totp.lookup accountId with
  | some _, some row =>
    if policyRequired t accountId || row.revoked then none
    else some ({ t with
      totp := t.totp.insert accountId { row with enabled := false, revoked := true } }, .other)
  | _, _ => none

/-- `post_step_up`, with a code of the enabled credential. -/
def postStepUp (token proofId : Text) (now : Nat) : Option (Tables × Act) :=
  match authenticatedSession t token now with
  | none => none
  | some view =>
    match enabledTotp t view.accountId with
    | none => none
    | some credential =>
      if !(requireRecentPrimarySession view now).isOk then none
      else some ({ t with stepUps := t.stepUps.insert token ⟨proofId, now, credential.ciphertext⟩ },
        .steppedUp token now credential.ciphertext)

def useHandoffs : Dict Text Handoff :=
  t.handoffs.map fun _ row => if row.accountId == accountId then { row with used := true } else row

/-- `patch_policy`; whether unused recovery codes are left is an input. -/
def patchPolicy (token accountId : Text) (required recoverable : Bool) (now : Nat) : Option (Tables × Act) :=
  match authenticatedSession t token now with
  | none => none
  | some view =>
    if view.accountId != accountId || !(requireRecentPrimarySession view now).isOk ||
      view.mfaProofId.isNone ||
        required && !recoverable then none
    else some ({ revokeWhere t (fun token' row => row.accountId == accountId && token' != token) with
      policy := t.policy.insert accountId required
      handoffs := useHandoffs t accountId }, .other)

/-- `post_recovery_reset`, with an unused recovery code. -/
def postRecoveryReset (token accountId : Text) (now : Nat) : Option (Tables × Act) :=
  match authenticatedSession t token now with
  | none => none
  | some view =>
    if view.accountId != accountId || !(requireRecentPrimarySession view now).isOk then none
    else some ({ revokeWhere t (fun _ row => row.accountId == accountId) with
      policy := t.policy.map fun account required => required && account != accountId
      totp := t.totp.map fun account row => if account == accountId then
        { row with enabled := false, revoked := true } else row
      handoffs := useHandoffs t accountId }, .other)

inductive Request where
  | login (accountId : Text) (via : Via)
  | enroll (proof : EnrollmentProof) (accountId deviceIdHex publicKeyHex : Text)
  | revokeDevice (token accountId deviceIdHex : Text)
  | registerPasskey (token accountId credentialIdHex : Text)
  | revokePasskey (token accountId credentialIdHex : Text)
  | logout (token : Text)
  | handoff (token : Text)
  | consume (code : Text)
  | mint (token : Text) (ttlSeconds : Option Nat)
  | revokeToken (token jti : Text)
  | enrollTotp (token accountId : Text)
  | confirmTotp (token accountId : Text)
  | revokeTotp (token accountId : Text)
  | stepUp (token : Text)
  | policy (token accountId : Text) (required recoverable : Bool)
  | reset (token accountId : Text)
  | pruneExpired
  | pruneDenylist

def handle (random : Text) (now : Nat) : Request → Option (Tables × Act)
  | .login account via => (loginRow t account now via).map fun row =>
      ({ t with sessions := t.sessions.insert random row }, .login random row)
  | .enroll proof account device key => postDeviceEnrollment t proof account device key now
  | .revokeDevice token account device => revokeDevice t token account device now
  | .registerPasskey token account credential => registerPasskey t token account credential now
  | .revokePasskey token account credential => revokePasskey t token account credential now
  | .logout token => postSessionRevoke t token now
  | .handoff token => postSessionHandoff t token random now
  | .consume code => postSessionHandoffConsume t code random now
  | .mint token ttl => postScopeToken t token random ttl now
  | .revokeToken token jti => deleteScopeToken t token jti now
  | .enrollTotp token account => postTotpEnrollment t token account random now
  | .confirmTotp token account => postTotpEnrollmentVerify t token account now
  | .revokeTotp token account => postTotpRevoke t token account now
  | .stepUp token => postStepUp t token random now
  | .policy token account required recoverable => patchPolicy t token account required recoverable now
  | .reset token account => postRecoveryReset t token account now
  | .pruneExpired =>
    some ({ t with
      sessions := t.sessions.retain fun _ row =>
        decide (now < row.expiresAtUtc) && !row.revoked }, .other)
  | .pruneDenylist =>
    some ({ t with denylist := t.denylist.retain fun _ expires => decide (now < expires) }, .other)

/-- Time passes, a random value is drawn, and a request comes. -/
structure Event where
  elapsed : Nat
  random : Text
  request : Request

/-- `issued` are the random values so far, `acts` what happened, the latest first. -/
structure State where
  tables : Tables
  clock : Nat
  issued : List Text
  acts : List Act

/-- One critical section; a random value that was drawn before is not drawn again. -/
def perform (s : State) (elapsed : Nat) (random : Text)
    (work : Tables → Text → Nat → Option (Tables × Act)) : State :=
  let now := s.clock + elapsed
  if s.issued.contains random then { s with clock := now }
  else match work s.tables random now with
    | none => { s with clock := now, issued := random :: s.issued }
    | some (tables, act) => ⟨tables, now, random :: s.issued, act :: s.acts⟩

def step (s : State) (event : Event) : State :=
  perform s event.elapsed event.random fun t random now => handle t random now event.request

def init : State := ⟨⟨∅, ∅, ∅, ∅, ∅, ∅, ∅, ∅, []⟩, 0, [], []⟩

def run (events : List Event) : State := events.foldl step init

end CipherVault.Account.Sessions
