import CipherVault.Network.Invites

/-!
# Account.Guards

`services/account/src/guards.rs`: account roles, account ids, and what a session must be for a
sensitive request.
-/

namespace CipherVault.Account

open Crypto Network

structure Refusal where
  status : Nat
  (code message : String)
deriving DecidableEq

def invalidRequest (message : String) : Refusal :=
  { status := 400, code := "INVALID_REQUEST", message := message }

def databaseFailure : Refusal :=
  { status := 500, code := "ACCOUNT_DATABASE_ERROR", message := "Account service database failure" }

inductive VaultRole where
  | owner
  | admin
  | editor
  | viewer
  | recovery
deriving DecidableEq

def normalizeVaultRole (value : Text) : Except Refusal VaultRole :=
  let role := Hex.lower (trim value)
  if role = "owner".toList then .ok .owner
  else if role = "admin".toList then .ok .admin
  else if role = "editor".toList then .ok .editor
  else if role = "viewer".toList then .ok .viewer
  else if role = "recovery".toList then .ok .recovery
  else .error (invalidRequest "role must be one of owner, admin, editor, viewer, or recovery")

def VaultRole.rank : VaultRole → Nat
  | .owner => 4
  | .admin => 3
  | .editor => 2
  | .viewer => 1
  | .recovery => 0

def VaultRole.name : VaultRole → String
  | .owner => "owner"
  | .admin => "admin"
  | .editor => "editor"
  | .viewer => "viewer"
  | .recovery => "recovery"

def normalizeAccountId (value : Text) : Except Refusal Text :=
  let value := Hex.lower (trim value)
  if (utf8 value).length ≠ 39 ∨ ¬ "cvacct_".toList <+: value ∨
    (Hex.decode (value.drop 7)).map List.length ≠ some 16 then
    .error (invalidRequest "account_id must use cvacct_<32 hex characters>")
  else .ok value

inductive AuthMethod where
  | device
  | webauthn
  | totp
  | recovery
deriving DecidableEq

structure SessionView where
  accountId : Text
  deviceIdHex : Option Text
  authMethod : AuthMethod
  (issuedAtUtc expiresAtUtc : Nat)
  mfaRequired : Bool
  mfaVerifiedAtUtc : Option Nat
  mfaProofId : Option Text

def stepUpMaxAgeSeconds : Nat := 5 * 60

def requireStrongSession (session : SessionView) : Except Refusal Unit :=
  if session.authMethod = .recovery then
    .error
      { status := 403, code := "RECOVERY_STEP_UP_REQUIRED"
        message := "Recovery sessions must enroll a device before account changes" }
  else .ok ()

def requireRecentPrimarySession (session : SessionView) (now : Nat) : Except Refusal Unit := do
  requireStrongSession session
  if ¬(session.authMethod = .device ∨ session.authMethod = .webauthn) ∨ session.issuedAtUtc > now ∨
      now - session.issuedAtUtc > stepUpMaxAgeSeconds then
    .error
      { status := 403, code := "AUTHENTICATION_STEP_UP_REQUIRED"
        message := "Authenticate with a signing key or passkey within the last five minutes" }
  else .ok ()

def freshStepUp (verified now : Nat) : Bool := verified ≤ now && now - verified < stepUpMaxAgeSeconds

def requireRecentStrongSession (session : SessionView) (now : Nat) : Except Refusal Unit := do
  requireRecentPrimarySession session now
  if session.mfaRequired && !session.mfaVerifiedAtUtc.any (freshStepUp · now) then
    .error
      { status := 403, code := "MFA_STEP_UP_REQUIRED"
        message := "Verify your authenticator code for this session before this action" }
  else .ok ()

end CipherVault.Account
