import CipherVault.Base.Dict
import CipherVault.Base.Service
import CipherVault.Network.Invites

/-!
# Network.Sessions

The enrolled identities, challenges and sessions of an operator, from
`services/operator/src/state.rs`, each with a file; a session is kept in four maps by its token.
What is drawn at random, and the choice among equally old entries, are arguments of a call.
-/

namespace CipherVault.Network.Sessions

open Crypto Format Dict

abbrev Permissions := BitVec 32

def permissionRead : Permissions := 1
def permissionWrite : Permissions := 2
def permissionFleetAdmin : Permissions := 0x10000
def permissionVaultDefault : Permissions := permissionRead ||| permissionWrite

def defaulted (permissions : Permissions) : Permissions :=
  if permissions = BitVec.allOnes 32 then permissionVaultDefault else permissions

structure EnrolledIdentity where
  (vaultIdHex publicKeyHex : Text)
  permissions : Permissions
  enrolledAtUtc : Nat
  revokedAtUtc : Option Nat
  (accountId deviceIdHex : Option Text)
deriving DecidableEq

def isHexOf (len : Nat) (text : Text) : Bool := (Hex.decode text).any fun bytes => bytes.length == len

def normalize (text : Text) : Text := Hex.lower (trim text)

def validAccountId (value : Text) : Bool :=
  let value := trim value
  (utf8 value).length == 39 && eqIgnoreAsciiCase (value.take 7) "cvacct_".toList && isHexOf 16 (value.drop 7)

def validDeviceId (value : Text) : Bool := isHexOf 32 (trim value)

def normalizeField (field : Option Text) : Option Text := ((field.map trim).filter (· ≠ [])).map Hex.lower

def normalizeIdentityBinding (accountId deviceIdHex : Option Text) :
    Except String (Option Text × Option Text) :=
  let accountId := normalizeField accountId
  let deviceIdHex := normalizeField deviceIdHex
  if !accountId.all validAccountId then .error "account_id must use the cvacct_<32 hex characters> format"
  else if !deviceIdHex.all validDeviceId then .error "device_id_hex must be 32-byte hex"
  else if accountId.isNone != deviceIdHex.isNone then
    .error "account_id and device_id_hex must be supplied together"
  else .ok (accountId, deviceIdHex)

structure ChallengeRecord where
  nonceHex : Text
  expiresAtUtc : Nat
  (vaultIdHex publicKeyHex : Text)
  (accountId deviceIdHex : Option Text)

structure PersistedSession where
  token : Text
  expiresAtUtc : Nat
  (publicKeyHex vaultIdHex : Text)
  (accountId deviceIdHex : Option Text)

structure PersistedChallenge where
  challengeId : Text
  record : ChallengeRecord

/-- The maps of the operator's session service. -/
structure Memory where
  identities : List EnrolledIdentity
  challenges : Dict Text ChallengeRecord
  sessions : Dict Text Nat
  sessionKeys : Dict Text Bytes
  sessionVaults : Dict Text Text
  sessionBindings : Dict Text (Option Text × Option Text)

structure Files where
  identities : List EnrolledIdentity
  challenges : List PersistedChallenge
  sessions : List PersistedSession

structure Creation where
  (token vaultIdHex publicKeyHex : Text)
  (accountId deviceIdHex : Option Text)
deriving DecidableEq

/-- The sessions that were created so far are on record for the statements; no call reads them. -/
structure State where
  memory : Memory
  disk : Files
  created : List Creation

def Memory.empty : Memory :=
  { identities := [], challenges := ∅, sessions := ∅, sessionKeys := ∅, sessionVaults := ∅,
    sessionBindings := ∅ }

def State.new : State := { memory := .empty,
                           disk := { identities := [], challenges := [], sessions := [] },
                             created := [] }

def onMemory (f : Memory → Memory) (s : State) : State := { s with memory := f s.memory }

structure Config where
  requireEnrollment : Bool
  ioError : String

abbrev Action (α : Type) := Faulty Bool State String α

open Faulty (fail look update check replace)

variable (config : Config)

def persistEnrolledIdentities : Action Unit :=
  replace (fun s => { s with disk := { s.disk with identities := s.memory.identities } }) config.ioError

variable (memory : Memory)

def persistedSessions : List PersistedSession :=
  memory.sessions.entries.filterMap fun e =>
    match memory.sessionKeys.lookup e.1, memory.sessionVaults.lookup e.1 with
    | some key, some vault =>
      let binding := memory.sessionBindings.lookup e.1
      some { token := e.1, expiresAtUtc := e.2, publicKeyHex := Hex.encode key, vaultIdHex := vault
             accountId := binding.bind Prod.fst, deviceIdHex := binding.bind Prod.snd }
    | _, _ => none

def persistSessions : Action Unit :=
  replace (fun s => { s with disk := { s.disk with sessions := persistedSessions s.memory } }) config.ioError

def persistedChallenges : List PersistedChallenge :=
  memory.challenges.entries.map fun e => ⟨e.1, e.2⟩

def persistChallenges : Action Unit :=
  replace (fun s => { s with disk := { s.disk with challenges := persistedChallenges s.memory } })
    config.ioError

def loadEnrolledIdentities (records : List EnrolledIdentity) : List EnrolledIdentity :=
  (records.map fun record => { record with permissions := defaulted record.permissions }).filter fun record =>
    isHexOf 32 record.vaultIdHex && isHexOf 32 record.publicKeyHex && record.vaultIdHex == Hex.lower
      record.vaultIdHex &&
      record.publicKeyHex == Hex.lower record.publicKeyHex && record.accountId.all validAccountId &&
      record.deviceIdHex.all validDeviceId && record.accountId.isSome == record.deviceIdHex.isSome

def insertSession (token : Text) (expiresAtUtc : Nat) (key : Bytes) (vault : Text)
    (binding : Option Text × Option Text) (memory : Memory) : Memory :=
  { memory with
    sessions := memory.sessions.insert token expiresAtUtc
    sessionKeys := memory.sessionKeys.insert token key
    sessionVaults := memory.sessionVaults.insert token vault
    sessionBindings := memory.sessionBindings.insert token binding }

variable (now : Nat)

def loadSession (memory : Memory) (record : PersistedSession) : Memory :=
  if record.expiresAtUtc ≤ now ∨ record.token = [] then memory
  else match Hex.decode record.publicKeyHex with
    | none => memory
    | some key =>
      if key.length ≠ 32 ∨ !isHexOf 32 record.vaultIdHex then memory
      else match normalizeIdentityBinding record.accountId record.deviceIdHex with
        | .error _ => memory
        | .ok binding => insertSession record.token record.expiresAtUtc key record.vaultIdHex binding memory

def loadChallenge (memory : Memory) (stored : PersistedChallenge) : Memory :=
  if stored.record.expiresAtUtc ≤ now ∨ stored.challengeId = [] then memory
  else if !isHexOf 32 stored.record.nonceHex || !isHexOf 32 stored.record.vaultIdHex ||
      !isHexOf 32 stored.record.publicKeyHex then memory
  else { memory with challenges := memory.challenges.insert stored.challengeId stored.record }

/-- `load_enrolled_identities`, `load_sessions` and `load_challenges` at the start of a process. -/
def load (s : State) : State :=
  let identified : Memory := { Memory.empty with identities := loadEnrolledIdentities s.disk.identities }
  { s with
    memory := s.disk.challenges.foldl (loadChallenge now)
      (s.disk.sessions.foldl (loadSession now) identified) }

def admitsField (bound presented : Option Text) : Bool := bound.all fun value => presented == some value

def isIdentityEnrolledWithBinding (vaultIdHex publicKeyHex : Text)
    (accountId deviceIdHex : Option Text) : Bool :=
  match normalizeIdentityBinding accountId deviceIdHex with
  | .error _ => false
  | .ok (accountId, deviceIdHex) =>
    memory.identities.any fun identity => identity.revokedAtUtc.isNone && identity.vaultIdHex ==
      normalize vaultIdHex &&
      identity.publicKeyHex == normalize publicKeyHex && admitsField identity.accountId accountId &&
      admitsField identity.deviceIdHex deviceIdHex

def EnrolledIdentity.isOf (vaultIdHex publicKeyHex : Text) (identity : EnrolledIdentity) : Bool :=
  identity.vaultIdHex == vaultIdHex && identity.publicKeyHex == publicKeyHex

def updateFirst {α : Type} (p : α → Bool) (f : α → α) : List α → List α
  | [] => []
  | a :: rest => if p a then f a :: rest else a :: updateFirst p f rest

def enrolled (vaultIdHex publicKeyHex : Text) (permissions : Permissions)
    (accountId deviceIdHex : Option Text)
    (identities : List EnrolledIdentity) : List EnrolledIdentity :=
  if identities.any (EnrolledIdentity.isOf vaultIdHex publicKeyHex) then
    updateFirst (EnrolledIdentity.isOf vaultIdHex publicKeyHex) (fun existing =>
      if accountId.isSome then
        { existing with permissions := permissions, revokedAtUtc := none, accountId := accountId,
                        deviceIdHex := deviceIdHex }
      else { existing with permissions := permissions, revokedAtUtc := none }) identities
  else identities ++ [{ vaultIdHex := vaultIdHex, publicKeyHex := publicKeyHex, permissions := permissions
                        enrolledAtUtc := now, revokedAtUtc := none,
                        accountId := accountId, deviceIdHex := deviceIdHex }]

def enrollIdentityWithBinding (vaultIdHex publicKeyHex : Text) (permissions : Permissions)
    (accountId deviceIdHex : Option Text) : Action Unit := do
  let vaultIdHex := normalize vaultIdHex
  let publicKeyHex := normalize publicKeyHex
  check (isHexOf 32 vaultIdHex) "vault_id_hex must be 32-byte hex"
  check (isHexOf 32 publicKeyHex) "public_key_hex must be 32-byte hex"
  let (accountId, deviceIdHex) ← Faulty.lift (normalizeIdentityBinding accountId deviceIdHex)
  update (onMemory fun memory =>
    { memory with
      identities := enrolled now vaultIdHex publicKeyHex (defaulted permissions) accountId
        deviceIdHex memory.identities })
  persistEnrolledIdentities config

def revoked (vaultIdHex publicKeyHex : Text) (identities : List EnrolledIdentity) : List EnrolledIdentity :=
  identities.map fun identity =>
    if identity.isOf vaultIdHex publicKeyHex ∧ identity.revokedAtUtc.isNone then
      { identity with revokedAtUtc := some now }
    else identity

def closeSessions (tokens : List Text) (memory : Memory) : Memory :=
  { memory with
    sessions := retain (fun token _ => !tokens.contains token) memory.sessions
    sessionKeys := retain (fun token _ => !tokens.contains token) memory.sessionKeys
    sessionVaults := retain (fun token _ => !tokens.contains token) memory.sessionVaults }

def revokeIdentity (vaultIdHex publicKeyHex : Text) : Action Bool := do
  let vaultIdHex := normalize vaultIdHex
  let publicKeyHex := normalize publicKeyHex
  let before ← look State.memory
  if before.identities.any fun identity => identity.isOf vaultIdHex publicKeyHex &&
    identity.revokedAtUtc.isNone then do
    update (onMemory fun memory =>
      { memory with identities := revoked now vaultIdHex publicKeyHex memory.identities })
    (persistEnrolledIdentities config).rescue fun error => do
      -- the marks of this call are taken back
      update (onMemory fun memory => { memory with identities := before.identities })
      fail ("Unable to persist identity revocation: " ++ error)
    let tokens := (before.sessionKeys.entries.filter fun e => Hex.encode e.2 == publicKeyHex).map Sigma.fst
    if tokens = [] then return true
    else do
      update (onMemory (closeSessions tokens))
      (persistSessions config).rescue fun error => do
        update (onMemory fun memory =>
          { memory with
            sessions := before.sessions, sessionKeys := before.sessionKeys,
            sessionVaults := before.sessionVaults })
        fail ("Unable to persist session revocation: " ++ error)
      return true
  else return false

def maxActiveChallenges : Nat := 5000

def maxActiveSessions : Nat := 5000

def issueChallengeWithBinding (vaultIdHex publicKeyHex : Text)
    (accountId deviceIdHex : Option Text) (idBytes nonceBytes : Bytes) (tie : Nat) :
    Action (Text × Text × Nat) := do
  check (isHexOf 32 vaultIdHex) "vault_id_hex must be 32-byte hex"
  check (isHexOf 32 publicKeyHex) "public_key_hex must be 32-byte hex"
  let (accountId, deviceIdHex) ← Faulty.lift (normalizeIdentityBinding accountId deviceIdHex)
  let vaultIdHex := Hex.lower vaultIdHex
  let publicKeyHex := Hex.lower publicKeyHex
  let memory ← look State.memory
  check (!config.requireEnrollment || isIdentityEnrolledWithBinding memory vaultIdHex publicKeyHex
    accountId deviceIdHex)
    "device identity is not enrolled for this vault"
  let challengeId := Hex.encode idBytes
  let record : ChallengeRecord :=
    { nonceHex := Hex.encode nonceBytes, expiresAtUtc := now + 300, vaultIdHex := vaultIdHex,
      publicKeyHex := publicKeyHex
      accountId := accountId, deviceIdHex := deviceIdHex }
  update (onMemory fun memory =>
    let current := retain (fun _ record => now < record.expiresAtUtc) memory.challenges
    let room := if size current ≥ maxActiveChallenges then
        dropOldest ChallengeRecord.expiresAtUtc tie current
      else current
    { memory with challenges := room.insert challengeId record })
  (persistChallenges config).rescue fun error => do
    update (onMemory fun memory => { memory with challenges := memory.challenges.erase challengeId })
    fail ("Unable to persist challenges: " ++ error)
  return (challengeId, record.nonceHex, record.expiresAtUtc)

def challengeContext : Bytes := ascii "operator_challenge"

/-- The checks on a signed challenge. -/
def authenticate (E : Externals) (config : Config) (now : Nat) (memory : Memory) (challenge : ChallengeRecord)
    (publicKeyHex signatureHex : Text) : Option Bytes :=
  if now > challenge.expiresAtUtc then none
  else if !eqIgnoreAsciiCase challenge.publicKeyHex publicKeyHex then none
  else if config.requireEnrollment && !isIdentityEnrolledWithBinding memory challenge.vaultIdHex
    challenge.publicKeyHex
      challenge.accountId challenge.deviceIdHex then none
  else match Hex.decode publicKeyHex, Hex.decode signatureHex, Hex.decode challenge.nonceHex with
    | some key, some signature, some nonce =>
      if key.length = 32 ∧ signature.length = 64 ∧
        (verifyWithDomain E key challengeContext nonce signature).isOk then
        some key
      else none
    | _, _, _ => none

def eraseSession (token : Text) (memory : Memory) : Memory :=
  { memory with
    sessions := memory.sessions.erase token, sessionKeys := memory.sessionKeys.erase token
    sessionVaults := memory.sessionVaults.erase token, sessionBindings := memory.sessionBindings.erase token }

def evictExpired (memory : Memory) : Memory :=
  let sessions := retain (fun _ expiresAtUtc => now < expiresAtUtc) memory.sessions
  { memory with
    sessions := sessions
    sessionKeys := retain (fun token _ => (sessions.lookup token).isSome) memory.sessionKeys
    sessionVaults := retain (fun token _ => (sessions.lookup token).isSome) memory.sessionVaults
    sessionBindings := retain (fun token _ => (sessions.lookup token).isSome) memory.sessionBindings }

def evictOldest (tie : Nat) (memory : Memory) : Memory :=
  if size memory.sessions ≥ maxActiveSessions then
    match oldest id tie memory.sessions with
    | some token => eraseSession token memory
    | none => memory
  else memory

/-- Makes room, then opens a session. -/
def openSession (challenge : ChallengeRecord) (key : Bytes) (token : Text) (tie : Nat) (s : State) : State :=
  { s with
    memory := insertSession token (now + 3600) key challenge.vaultIdHex
      (challenge.accountId, challenge.deviceIdHex)
      (evictOldest tie (evictExpired now s.memory))
    created := s.created ++ [⟨token, challenge.vaultIdHex, challenge.publicKeyHex, challenge.accountId,
      challenge.deviceIdHex⟩] }

def verifyAndCreateSession (E : Externals) (config : Config) (now : Nat)
    (challengeId publicKeyHex signatureHex : Text)
    (tokenBytes : Bytes) (tie : Nat) : Action (Option Text) := do
  let found ← look fun s => s.memory.challenges.lookup challengeId
  match found with
  | none => return none
  | some challenge => do
    update (onMemory fun memory => { memory with challenges := memory.challenges.erase challengeId })
    (persistChallenges config).mapError fun error => "Unable to persist challenge removal: " ++ error
    let memory ← look State.memory
    match authenticate E config now memory challenge publicKeyHex signatureHex with
    | none => return none
    | some key => do
      let token := Hex.encode tokenBytes
      update (openSession now challenge key token tie)
      (persistSessions config).rescue fun error => do
        update (onMemory (eraseSession token))
        fail ("Unable to persist session: " ++ error)
      return some token

def revokeSession (token : Text) : Action Bool := do
  let before ← look State.memory
  update (onMemory (eraseSession token))
  if (before.sessions.lookup token).isSome then do
    (persistSessions config).rescue fun error => do
      update (onMemory fun memory =>
        { memory with
          sessions := before.sessions, sessionKeys := before.sessionKeys,
          sessionVaults := before.sessionVaults
          sessionBindings := before.sessionBindings })
      fail ("Unable to persist session revocation: " ++ error)
    return true
  else return false

def validateWriteSession (memory : Memory) (now : Nat) (token : Text) : Bool :=
  token ≠ [] && token ≠ "recovery_anonymous".toList &&
    (memory.sessions.lookup token).any fun expiresAtUtc => now ≤ expiresAtUtc

/-- The token stands for a live session of this vault. -/
def validateSessionForVault (memory : Memory) (now : Nat) (token vaultIdHex : Text) : Bool :=
  validateWriteSession memory now token &&
    match memory.sessionVaults.lookup token with
    | none => false
    | some scope =>
      eqIgnoreAsciiCase scope vaultIdHex &&
        if config.requireEnrollment then
          match memory.sessionKeys.lookup token with
          | none => false
          | some key =>
            let binding := (memory.sessionBindings.lookup token).getD (none, none)
            isIdentityEnrolledWithBinding memory scope (Hex.encode key) binding.1 binding.2
        else true

def holdsPermission (token vaultIdHex : Text) (permission : Permissions) : Bool :=
  match memory.sessionKeys.lookup token with
  | none => false
  | some key =>
    match memory.identities.find? fun identity =>
        eqIgnoreAsciiCase identity.vaultIdHex vaultIdHex && identity.publicKeyHex == Hex.encode key with
    | some identity => identity.revokedAtUtc.isNone && identity.permissions &&& permission == permission
    | none => !config.requireEnrollment && permission ≠ permissionFleetAdmin

/-- The two parts of the check lock the enrolments one after the other: `first` is the memory that
the first part reads, `second` that of the second. -/
def sessionHasPermission (first second : Memory) (now : Nat) (token vaultIdHex : Text)
    (permission : Permissions) : Bool :=
  validateSessionForVault config first now token vaultIdHex && holdsPermission config second token
    vaultIdHex permission

inductive Call where
  | enrollIdentity (vaultIdHex publicKeyHex : Text) (permissions : Permissions)
      (accountId deviceIdHex : Option Text)
  | revokeIdentity (vaultIdHex publicKeyHex : Text)
  | issueChallenge (vaultIdHex publicKeyHex : Text) (accountId deviceIdHex : Option Text)
      (idBytes nonceBytes : Bytes)
      (tie : Nat)
  | verifyAndCreateSession (challengeId publicKeyHex signatureHex : Text) (tokenBytes : Bytes) (tie : Nat)
  | revokeSession (token : Text)

def discard {α : Type} (x : Action α) : Action Unit := do
  let _ ← x
  return ()

def service (E : Externals) (config : Config) : Service Bool State String Call where
  perform now
    | .enrollIdentity vault key permissions account device =>
      enrollIdentityWithBinding config now vault key permissions account device
    | .revokeIdentity vault key => discard (revokeIdentity config now vault key)
    | .issueChallenge vault key account device idBytes nonceBytes tie =>
      discard (issueChallengeWithBinding config now vault key account device idBytes nonceBytes tie)
    | .verifyAndCreateSession challengeId key signature tokenBytes tie =>
      discard (verifyAndCreateSession E config now challengeId key signature tokenBytes tie)
    | .revokeSession token => discard (revokeSession config token)
  start := load

abbrev Event := Service.Event Bool Call

def run (E : Externals) (config : Config) (events : List Event) : State := (service E config).run .new events

end CipherVault.Network.Sessions
