import CipherVault.Account.Sessions

/-!
# Account.Lineage

Derived authority ends with its root. Every session descends from a login by handoffs and keeps its
device, passkey and expiry. What ends one of these marks the rows that it ends; a row without a mark
has been spared since its login.
-/

namespace CipherVault.Account.Sessions

open Crypto Option List

/-- The act does not end this session. -/
def Act.Spares (token : Text) (row : Session) : Act → Prop
  | .deviceEnded account device => ¬(row.accountId = account ∧ row.deviceIdHex = some device)
  | .passkeyRevoked account credential => ¬(row.accountId = account ∧ row.credentialIdHex = some credential)
  | .sessionEnded ended => token ≠ ended
  | _ => True

def Act.opened : Act → Option Text
  | .login token _ => some token
  | .handed token _ => some token
  | _ => none

def Act.isPlain : Act → Bool
  | .minted _ => false
  | .tokenRevoked _ => false
  | act => act.opened.isNone

/-- Everything that one request can do to sessions, handoffs and scope tokens. -/
inductive Effect (t : Tables) (random : Text) (now : Nat) : Tables → Act → Prop where
  | login (row : Session) (hrow : row.revoked = false) :
      Effect t random now { t with sessions := t.sessions.insert random row } (.login random row)
  | handed (code : Text) (handoff : Handoff) (row : Session) (hcode : t.handoffs.lookup code = some handoff)
      (hrow : t.sessions.lookup handoff.origin = some row) (hlive : row.revoked = false) :
      Effect t random now { t with
        handoffs := t.handoffs.insert code { handoff with used := true }
        sessions := t.sessions.insert random
          { row with accountId := handoff.accountId, deviceIdHex := handoff.deviceIdHex,
                     kind := handoff.authMethod } }
        (.handed random handoff.origin)
  | ended (p : Text → Session → Bool) (t' : Tables) (act : Act) (hact : act.isPlain = true)
      (hp : ∀ token row, p token row = false → act.Spares token row)
      (hended : ∀ token, act = .sessionEnded token → (t.sessions.lookup token).isSome = true)
      (hsessions : t'.sessions = (revokeWhere t p).sessions)
      (hhandoffs : t'.handoffs = t.handoffs ∨ ∃ account, t'.handoffs = useHandoffs t account)
      (hminted : t'.minted = t.minted) (hdenylist : t'.denylist = t.denylist) : Effect t random now t' act
  | handoff (token : Text) (row : Session) (handoff : Handoff) (hrow : t.sessions.lookup token = some row)
      (haccount : handoff.accountId = row.accountId) (hdevice : handoff.deviceIdHex = row.deviceIdHex)
      (horigin : handoff.origin = token) :
      Effect t random now { t with handoffs := t.handoffs.insert random handoff } .other
  | minted (claims : ScopeClaims) (horigin : claims.originSession.isSome = true)
      (hexpires : claims.expiresAtUtc ≤ now + 900) :
      Effect t random now { t with minted := claims :: t.minted } (.minted claims)
  | denied (jti : Text) : Effect t random now
      { t with denylist := t.denylist.insert jti (now + 3600) } (.tokenRevoked jti)
  | pruned (p : Text → Session → Bool) : Effect t random now { t with sessions := t.sessions.retain p } .other
  | prunedDenylist : Effect t random now
      { t with denylist := t.denylist.retain fun _ expires => decide (now < expires) } .other
  | other (t' : Tables) (act : Act) (hact : act.isPlain = true) (hspares : ∀ token row, act.Spares token row)
      (hsessions : t'.sessions = t.sessions) (hhandoffs : t'.handoffs = t.handoffs)
        (hminted : t'.minted = t.minted)
      (hdenylist : t'.denylist = t.denylist) : Effect t random now t' act

variable {t : Tables} {token : Text} {now : Nat} {row : Session} {acts : List Act} {s : State}

theorem of_authenticatedSession {view : SessionView} (h : authenticatedSession t token now = some view) :
    ∃ row, t.sessions.lookup token = some row ∧ row.isLive t now = true ∧ view = viewOf t token row now := by
  obtain ⟨row, hrow, rfl⟩ := map_eq_some_iff.mp h
  obtain ⟨hrow, hl⟩ := filter_eq_some_iff.mp hrow
  exact ⟨row, hrow, hl, rfl⟩

theorem of_isLive (h : row.isLive t now = true) : row.revoked = false ∧ now < row.expiresAtUtc := by
  simp only [Session.isLive, Bool.and_eq_true, Bool.not_eq_true', decide_eq_true_eq] at h
  exact h.1.1

theorem revoked_of_loginRow {account : Text} {via : Via}
    (h : loginRow t account now via = some row) : row.revoked = false := by
  unfold loginRow at h
  split at h
  · split at h <;> cases h
    rfl
  · split at h
    · cases h
    · split at h <;> cases h
      rfl
  · split at h <;> cases h
    rfl
  · cases h
    rfl

theorem scopeExpiry_le (view : SessionView) (ttl : Option Nat) (now : Nat) :
    scopeExpiry view ttl now ≤ now + 900 := by
  unfold scopeExpiry
  dsimp only
  split <;> omega

theorem effect_of_enrollDevice (t : Tables) (random : Text) (now : Nat) (account device key : Text) :
    Effect t random now (enrollDevice t account device key).1 (enrollDevice t account device key).2 := by
  unfold enrollDevice
  dsimp only
  split
  · refine .ended (ofDevice account device) _ _ rfl ?_ nofun rfl (.inl rfl) rfl rfl
    simp [ofDevice, Act.Spares]
  · exact .other _ _ rfl (fun _ _ => trivial) rfl rfl rfl rfl

/-! ## What a request that succeeds leaves -/

section

variable {account random : Text} {after : Tables × Act}

theorem revokeDevice_eq_some {device : Text} (h : revokeDevice t token account device now = some after) :
    ∃ row, after = ({ revokeWhere t (ofDevice account device) with
      devices := t.devices.insert (account, device) row }, .deviceEnded account device) := by
  unfold revokeDevice at h
  split at h
  · split at h <;> cases h
    exact ⟨_, rfl⟩
  · cases h

theorem registerPasskey_eq_some {credential : Text}
    (h : registerPasskey t token account credential now = some after) :
    ∃ row, after = ({ t with passkeys := t.passkeys.insert (account, credential) row }, .other) := by
  unfold registerPasskey at h
  split at h
  · cases h
  · split at h <;> cases h
    exact ⟨_, rfl⟩

theorem revokePasskey_eq_some {credential : Text}
    (h : revokePasskey t token account credential now = some after) :
    ∃ row, after = ({ revokeWhere t (ofPasskey account credential) with
      passkeys := t.passkeys.insert (account, credential) row }, .passkeyRevoked account credential) := by
  unfold revokePasskey at h
  split at h
  · split at h <;> cases h
    exact ⟨_, rfl⟩
  · cases h

theorem postSessionHandoffConsume_eq_some {code : Text}
    (h : postSessionHandoffConsume t code random now = some after) :
    ∃ handoff row, t.handoffs.lookup code = some handoff ∧
      t.sessions.lookup handoff.origin = some row ∧ row.revoked = false ∧
      after = ({ t with
        handoffs := t.handoffs.insert code { handoff with used := true }
        sessions := t.sessions.insert random
          { row with accountId := handoff.accountId, deviceIdHex := handoff.deviceIdHex,
                     kind := handoff.authMethod } }, .handed random handoff.origin) := by
  unfold postSessionHandoffConsume at h
  split at h
  · cases h
  next handoff hcode =>
  split at h
  · cases h
  next row hrow =>
  obtain ⟨hrow, hl⟩ := filter_eq_some_iff.mp hrow
  split at h <;> cases h
  exact ⟨handoff, row, hcode, hrow, (of_isLive hl).1, rfl⟩

theorem mintScopeToken_eq_some {view : SessionView} {ttl : Option Nat}
    (h : mintScopeToken t view token random ttl now = some after) :
    ∃ claims : ScopeClaims, claims.originSession = some token ∧ claims.expiresAtUtc ≤ now + 900 ∧
      after = ({ t with minted := claims :: t.minted }, .minted claims) := by
  simp only [mintScopeToken] at h
  split at h <;> cases h
  exact ⟨_, rfl, scopeExpiry_le view ttl now, rfl⟩

theorem denyScopeToken_eq_some {view : SessionView} {jti : Text}
    (h : denyScopeToken t view jti now = some after) :
    after = ({ t with denylist := t.denylist.insert jti (now + 3600) }, .tokenRevoked jti) := by
  unfold denyScopeToken at h
  split at h <;> cases h
  rfl

theorem postTotpEnrollment_eq_some (h : postTotpEnrollment t token account random now = some after) :
    enabledTotp t account = none ∧
      after = ({ t with totp := t.totp.insert account ⟨random, false, false⟩ }, .other) := by
  unfold postTotpEnrollment at h
  split at h <;> cases h
  next hnone => exact ⟨hnone, rfl⟩

theorem postTotpEnrollmentVerify_eq_some (h : postTotpEnrollmentVerify t token account now = some after) :
    ∃ row : TotpCredential, (row.enabled && !row.revoked) = true ∧
      after = ({ t with totp := t.totp.insert account row }, .other) := by
  unfold postTotpEnrollmentVerify at h
  split at h
  · split at h <;> cases h
    next hrow =>
    simp only [Bool.or_eq_true, not_or, Bool.not_eq_true] at hrow
    exact ⟨_, by simp [hrow.2], rfl⟩
  · cases h

theorem postTotpRevoke_eq_some (h : postTotpRevoke t token account now = some after) :
    policyRequired t account = false ∧
      ∃ row, after = ({ t with totp := t.totp.insert account row }, .other) := by
  unfold postTotpRevoke at h
  split at h
  · split at h <;> cases h
    next hrow =>
    simp only [Bool.or_eq_true, not_or, Bool.not_eq_true] at hrow
    exact ⟨hrow.1, _, rfl⟩
  · cases h

theorem postStepUp_eq_some (h : postStepUp t token random now = some after) :
    ∃ proof : StepUp, after = ({ t with stepUps := t.stepUps.insert token proof },
      .steppedUp token proof.verifiedAtUtc proof.fingerprint) := by
  unfold postStepUp at h
  split at h
  · cases h
  split at h
  · cases h
  split at h <;> cases h
  exact ⟨⟨random, now, _⟩, rfl⟩

theorem patchPolicy_eq_some {required recoverable : Bool}
    (h : patchPolicy t token account required recoverable now = some after) :
    (∃ view, authenticatedSession t token now = some view ∧ view.accountId = account ∧
      view.mfaProofId.isSome = true) ∧
      after = ({ revokeWhere t (fun token' row => row.accountId == account && token' != token) with
        policy := t.policy.insert account required
        handoffs := useHandoffs t account }, .other) := by
  unfold patchPolicy at h
  split at h
  · cases h
  next view hview =>
  split at h <;> cases h
  next hguard =>
  simp only [Bool.or_eq_true, not_or, Bool.not_eq_true, bne_eq_false_iff_eq] at hguard
  exact ⟨⟨view, hview, hguard.1.1.1, isNone_eq_false_iff.mp hguard.1.2⟩, rfl⟩

theorem postRecoveryReset_eq_some (h : postRecoveryReset t token account now = some after) :
    after = ({ revokeWhere t (fun _ row => row.accountId == account) with
      policy := t.policy.map fun account' required => required && account' != account
      totp := t.totp.map fun account' row => if account' == account then
        { row with enabled := false, revoked := true } else row
      handoffs := useHandoffs t account }, .other) := by
  unfold postRecoveryReset at h
  split at h
  · cases h
  split at h <;> cases h
  rfl

end

/-- A request that leaves the sessions, handoffs and scope tokens alone. -/
theorem Effect.unrelated {random : Text} {t' : Tables} (hsessions : t'.sessions = t.sessions)
    (hhandoffs : t'.handoffs = t.handoffs) (hminted : t'.minted = t.minted)
    (hdenylist : t'.denylist = t.denylist) : Effect t random now t' .other :=
  .other _ _ rfl (fun _ _ => trivial) hsessions hhandoffs hminted hdenylist

theorem effect_of_handle {random : Text} {request : Request} {t' : Tables} {act : Act}
    (h : handle t random now request = some (t', act)) : Effect t random now t' act := by
  cases request with
  | login account via =>
    obtain ⟨row, hrow, h⟩ := map_eq_some_iff.mp h
    cases h
    exact .login row (revoked_of_loginRow hrow)
  | enroll proof account device key =>
    simp only [handle, postDeviceEnrollment] at h
    split at h
    · have heff := effect_of_enrollDevice t random now account device key
      rw [some.inj h] at heff
      exact heff
    · cases h
  | revokeDevice token account device =>
    obtain ⟨row, h⟩ := revokeDevice_eq_some h
    cases h
    refine .ended (ofDevice account device) _ _ rfl ?_ nofun rfl (.inl rfl) rfl rfl
    simp [ofDevice, Act.Spares]
  | registerPasskey token account credential =>
    obtain ⟨row, h⟩ := registerPasskey_eq_some h
    cases h
    exact .unrelated rfl rfl rfl rfl
  | revokePasskey token account credential =>
    obtain ⟨row, h⟩ := revokePasskey_eq_some h
    cases h
    refine .ended (ofPasskey account credential) _ _ rfl ?_ nofun rfl (.inl rfl) rfl rfl
    simp [ofPasskey, Act.Spares]
  | logout token =>
    obtain ⟨view, hv, h⟩ := map_eq_some_iff.mp h
    obtain ⟨row, hrow, -⟩ := of_authenticatedSession hv
    cases h
    refine .ended (fun token' _ => token' == token) _ _ rfl ?_ ?_ rfl (.inl rfl) rfl rfl
    · intro token' row hp
      simpa [Act.Spares] using hp
    · rintro _ ⟨rfl⟩
      rw [hrow]
      rfl
  | handoff token =>
    obtain ⟨view, hv, h⟩ := map_eq_some_iff.mp h
    obtain ⟨row, hrow, -, rfl⟩ := of_authenticatedSession hv
    cases h
    exact .handoff token row _ hrow rfl rfl rfl
  | consume code =>
    obtain ⟨handoff, row, hcode, hrow, hlive, h⟩ := postSessionHandoffConsume_eq_some h
    cases h
    exact .handed code handoff row hcode hrow hlive
  | mint token ttl =>
    obtain ⟨view, -, h⟩ := bind_eq_some_iff.mp h
    obtain ⟨claims, horigin, hexpires, h⟩ := mintScopeToken_eq_some h
    cases h
    exact .minted claims (isSome_of_eq_some horigin) hexpires
  | revokeToken token jti =>
    obtain ⟨view, -, h⟩ := bind_eq_some_iff.mp h
    cases denyScopeToken_eq_some h
    exact .denied jti
  | enrollTotp token account =>
    cases (postTotpEnrollment_eq_some h).2
    exact .unrelated rfl rfl rfl rfl
  | confirmTotp token account =>
    obtain ⟨row, -, h⟩ := postTotpEnrollmentVerify_eq_some h
    cases h
    exact .unrelated rfl rfl rfl rfl
  | revokeTotp token account =>
    obtain ⟨-, row, h⟩ := postTotpRevoke_eq_some h
    cases h
    exact .unrelated rfl rfl rfl rfl
  | stepUp token =>
    obtain ⟨proof, h⟩ := postStepUp_eq_some h
    cases h
    exact .other _ _ rfl (fun _ _ => trivial) rfl rfl rfl rfl
  | policy token account required recoverable =>
    cases (patchPolicy_eq_some h).2
    exact .ended (fun token' row => row.accountId == account && token' != token) _ _ rfl
      (fun _ _ _ => trivial) nofun rfl (.inr ⟨account, rfl⟩) rfl rfl
  | reset token account =>
    cases postRecoveryReset_eq_some h
    exact .ended (fun _ row => row.accountId == account) _ _ rfl (fun _ _ _ => trivial)
      nofun rfl (.inr ⟨account, rfl⟩) rfl rfl
  | pruneExpired =>
    cases h
    exact .pruned _
  | pruneDenylist =>
    cases h
    exact .prunedDenylist

/-- A row that was there before, of the same account and device; if it is not revoked, it is
unchanged and the act spares it. -/
def Survives (t : Tables) (act : Act) (token : Text) (row' : Session) : Prop :=
  ∃ row, t.sessions.lookup token = some row ∧ row'.accountId = row.accountId ∧
    row'.deviceIdHex = row.deviceIdHex ∧
    (row'.revoked = false → row' = row ∧ act.Spares token row)

variable {code root : Text}

section

variable {t t' : Tables} {random : Text} {now : Nat} {act : Act} {token : Text} {row' : Session}
  {claims : ScopeClaims}

theorem survives_insert (hne : token ≠ random) (hspares : ∀ row, act.Spares token row)
    (h : (t.sessions.insert random row).lookup token = some row') : Survives t act token row' := by
  rw [lookup_insert_ne hne] at h
  exact ⟨row', h, rfl, rfl, fun _ => ⟨rfl, hspares row'⟩⟩

section

variable (h : Effect t random now t' act)
include h

theorem rows_of_effect (hrow : t'.sessions.lookup token = some row') :
    Survives t act token row' ∨ token = random ∧ (act = .login random row' ∨
      ∃ code handoff row, t.handoffs.lookup code = some handoff ∧
        t.sessions.lookup handoff.origin = some row ∧
        row.revoked = false ∧ act = .handed random handoff.origin ∧ row' = { row with
          accountId := handoff.accountId, deviceIdHex := handoff.deviceIdHex,
          kind := handoff.authMethod }) := by
  have hs : ∀ {act : Act}, (∀ token row, act.Spares token row) →
    t.sessions.lookup token = some row' → Survives t act token row' :=
    fun hspares hrow => ⟨row', hrow, rfl, rfl, fun _ => ⟨rfl, hspares token row'⟩⟩
  cases h with
  | login row _ =>
    by_cases hne : token = random
    · subst hne
      rw [lookup_insert, some.injEq] at hrow
      exact .inr ⟨rfl, .inl (by rw [hrow])⟩
    · exact .inl (survives_insert hne (fun _ => trivial) hrow)
  | handed code handoff row hcode hor hl =>
    by_cases hne : token = random
    · subst hne
      rw [lookup_insert, some.injEq] at hrow
      exact .inr ⟨rfl, .inr ⟨code, handoff, row, hcode, hor, hl, rfl, hrow.symm⟩⟩
    · exact .inl (survives_insert hne (fun _ => trivial) hrow)
  | ended p _ _ _ hp _ hses =>
    rw [hses, revokeWhere, lookup_map] at hrow
    obtain ⟨row, hold, rfl⟩ := map_eq_some_iff.mp hrow
    refine .inl ⟨row, hold, ?_⟩
    cases hm : p token row with
    | true => exact ⟨rfl, rfl, nofun⟩
    | false => exact ⟨rfl, rfl, fun _ => ⟨rfl, hp token row hm⟩⟩
  | pruned p => exact .inl (hs (fun _ _ => trivial) (lookup_retain_eq_some.mp hrow).1)
  | other _ _ _ hspares hses => exact .inl (hs hspares (hses ▸ hrow))
  | handoff | minted | denied | prunedDenylist => exact .inl (hs (fun _ _ => trivial) hrow)

theorem handoffs_of_effect {handoff' : Handoff} (hcode : t'.handoffs.lookup code = some handoff') :
    (∃ code handoff, t.handoffs.lookup code = some handoff ∧ handoff'.accountId = handoff.accountId ∧
      handoff'.deviceIdHex = handoff.deviceIdHex ∧ handoff'.origin = handoff.origin) ∨
      ∃ row, t.sessions.lookup handoff'.origin = some row ∧ handoff'.accountId = row.accountId ∧
        handoff'.deviceIdHex = row.deviceIdHex := by
  cases h with
  | handed code' handoff _ hold _ _ =>
    rcases lookup_insert_cases hcode with ⟨-, rfl⟩ | hcode
    · exact .inl ⟨code', handoff, hold, rfl, rfl, rfl⟩
    · exact .inl ⟨code, handoff', hcode.2, rfl, rfl, rfl⟩
  | handoff token row handoff hrow hacc hdev hor =>
    rcases lookup_insert_cases hcode with ⟨-, rfl⟩ | hcode
    · exact .inr ⟨row, hor ▸ hrow, hacc, hdev⟩
    · exact .inl ⟨code, handoff', hcode.2, rfl, rfl, rfl⟩
  | ended _ _ _ _ _ _ _ hhan =>
    rcases hhan with hhan | ⟨account, hhan⟩
    · exact .inl ⟨code, handoff', hhan ▸ hcode, rfl, rfl, rfl⟩
    · rw [hhan, useHandoffs, lookup_map] at hcode
      obtain ⟨handoff, hold, rfl⟩ := map_eq_some_iff.mp hcode
      refine .inl ⟨code, handoff, hold, ?_⟩
      split <;> exact ⟨rfl, rfl, rfl⟩
  | other _ _ _ _ _ hhan => exact .inl ⟨code, handoff', hhan ▸ hcode, rfl, rfl, rfl⟩
  | login | minted | denied | pruned | prunedDenylist => exact .inl ⟨code, handoff', hcode, rfl, rfl, rfl⟩

theorem minted_of_effect (hclaims : claims ∈ t'.minted) :
    claims ∈ t.minted ∨ act = .minted claims ∧ claims.originSession.isSome = true := by
  cases h with
  | minted claims' hor _ =>
    rcases mem_cons.mp hclaims with rfl | hclaims
    · exact .inr ⟨rfl, hor⟩
    · exact .inl hclaims
  | ended _ _ _ _ _ _ _ _ hminted => exact .inl (hminted ▸ hclaims)
  | other _ _ _ _ _ _ hminted => exact .inl (hminted ▸ hclaims)
  | login | handed | handoff | denied | pruned | prunedDenylist => exact .inl hclaims

theorem denylist_of_effect : (∀ jti expires, t.denylist.lookup jti = some expires →
      expires ≤ now ∨ ∃ expires', t'.denylist.lookup jti = some expires' ∧
      (expires' = expires ∨ expires' = now + 3600)) ∧
      ∀ jti, act = .tokenRevoked jti → t'.denylist.lookup jti = some (now + 3600) := by
  cases h with
  | denied jti' =>
    refine ⟨?_, ?_⟩
    · intro jti expires hjti
      by_cases hs : jti = jti'
      · exact .inr ⟨_, by rw [hs]; exact lookup_insert _, .inr rfl⟩
      · exact .inr ⟨_, by rw [lookup_insert_ne hs, hjti], .inl rfl⟩
    · rintro jti ⟨rfl⟩
      exact lookup_insert _
  | prunedDenylist =>
    refine ⟨?_, nofun⟩
    intro jti expires hjti
    by_cases hl : now < expires
    · exact .inr ⟨_, lookup_retain_eq_some.mpr ⟨hjti, by simpa using hl⟩, .inl rfl⟩
    · exact .inl (Nat.le_of_not_lt hl)
  | ended _ _ _ hact _ _ _ _ _ hden =>
    refine ⟨fun jti expires hjti => .inr ⟨expires, hden ▸ hjti, .inl rfl⟩, ?_⟩
    rintro jti rfl
    cases hact
  | other _ _ hact _ _ _ _ hden =>
    refine ⟨fun jti expires hjti => .inr ⟨expires, hden ▸ hjti, .inl rfl⟩, ?_⟩
    rintro jti rfl
    cases hact
  | login | handed | handoff | minted | pruned =>
    exact ⟨fun jti expires hjti => .inr ⟨expires, hjti, .inl rfl⟩, nofun⟩

theorem opened_of_effect (htoken : act.opened = some token) : token = random := by
  cases h with
  | login | handed => exact (some.inj htoken).symm
  | ended _ _ _ hact =>
    cases act with
    | login | handed => cases hact
    | _ => cases htoken
  | other _ _ hact =>
    cases act with
    | login | handed => cases hact
    | _ => cases htoken
  | handoff | minted | denied | pruned | prunedDenylist => cases htoken

end

theorem expires_of_effect (h : Effect t random now t' (.minted claims)) :
    claims.expiresAtUtc ≤ now + 900 := by
  cases h with
  | minted _ _ hexpires => exact hexpires
  | ended _ _ _ hact => cases hact
  | other _ _ hact => cases hact

theorem ended_of_effect (h : Effect t random now t' (.sessionEnded token)) :
    (t.sessions.lookup token).isSome = true := by
  cases h with
  | ended _ _ _ _ _ hended => exact hended token rfl
  | other _ _ _ hspares => exact absurd rfl (hspares token ⟨[], none, none, .device, 0, 0, false⟩)

end

/-- By handoffs. -/
inductive Descends (acts : List Act) : Text → Text → Prop where
  | root (token : Text) : Descends acts token token
  | handed {token origin root : Text} (h : .handed token origin ∈ acts)
      (horigin : Descends acts origin root) :
      Descends acts token root

theorem Descends.cons (h : Descends acts token root) (act : Act) : Descends (act :: acts) token root := by
  induction h with
  | root token => exact .root token
  | handed h _ ih => exact .handed (mem_cons_of_mem act h) ih

/-- No two acts open the same session. -/
def OpenedOnce (acts : List Act) : Prop := acts.Pairwise fun a b => ∀ token, a.opened = some token →
    b.opened ≠ some token

/-- The session has a login with its account, device, passkey and expiry, and was spared since. -/
def Roots (acts : List Act) (token : Text) (row : Session) : Prop :=
  ∃ after root login before, acts = after ++ .login root login :: before ∧ Descends acts token root ∧
    login.accountId = row.accountId ∧ login.deviceIdHex = row.deviceIdHex ∧
      login.credentialIdHex = row.credentialIdHex ∧
    login.expiresAtUtc = row.expiresAtUtc ∧ ∀ act ∈ after, act.Spares token row

theorem Roots.cons {act : Act} (h : Roots acts token row) (hact : act.Spares token row) :
    Roots (act :: acts) token row := by
  obtain ⟨after, root, login, before, rfl, hdes, hacc, hdev, hcre, hexpires, hspares⟩ := h
  refine ⟨act :: after, root, login, before, rfl, hdes.cons act, hacc, hdev, hcre, hexpires, ?_⟩
  intro act' hact'
  rcases mem_cons.mp hact' with rfl | hact'
  · exact hact
  · exact hspares act' hact'

/-- Every row has its root in the record of what happened. -/
structure Inv (s : State) : Prop where
  keys : ∀ token row, s.tables.sessions.lookup token = some row → token ∈ s.issued
  opened : ∀ act ∈ s.acts, ∀ token, act.opened = some token → token ∈ s.issued
  once : OpenedOnce s.acts
  ended : ∀ token, .sessionEnded token ∈ s.acts → token ∈ s.issued
  handoffs : ∀ code handoff, s.tables.handoffs.lookup code = some handoff → handoff.origin ∈ s.issued ∧
    ∀ row, s.tables.sessions.lookup handoff.origin = some row →
      handoff.accountId = row.accountId ∧ handoff.deviceIdHex = row.deviceIdHex
  rooted : ∀ token row, s.tables.sessions.lookup token = some row → row.revoked = false →
    Roots s.acts token row
  minted : ∀ claims ∈ s.tables.minted, .minted claims ∈ s.acts ∧ claims.originSession.isSome = true
  lives : ∀ claims, .minted claims ∈ s.acts → claims.expiresAtUtc ≤ s.clock + 900
  denied : ∀ after claims before, s.acts = after ++ .minted claims :: before →
    .tokenRevoked claims.jti ∈ after →
    claims.expiresAtUtc ≤ s.clock ∨ ∃ expires, s.tables.denylist.lookup claims.jti = some expires ∧
      claims.expiresAtUtc ≤ expires

theorem inv_init : Inv init := by
  refine ⟨nofun, nofun, .nil, nofun, nofun, nofun, nofun, nofun, ?_⟩
  intro after claims before h
  simp [init] at h

section

variable {s : State} {tables : Tables} {act : Act} {random : Text} {now : Nat}

theorem keys_of_effect (hs : Inv s) (heffect : Effect s.tables random now tables act)
    (hrow : tables.sessions.lookup token = some row) : token ∈ random :: s.issued := by
  rcases rows_of_effect heffect hrow with ⟨row, hold, -⟩ | ⟨rfl, -⟩
  · exact mem_cons_of_mem _ (hs.keys token row hold)
  · exact mem_cons_self

theorem rooted_of_effect (hs : Inv s) (hfresh : random ∉ s.issued)
    (heffect : Effect s.tables random now tables act)
    (hrow : tables.sessions.lookup token = some row) (hlive : row.revoked = false) :
    Roots (act :: s.acts) token row := by
  rcases rows_of_effect heffect hrow with ⟨row, hold, -, -, hspared⟩ | ⟨rfl, rfl | hhanded⟩
  · obtain ⟨rfl, hspares⟩ := hspared hlive
    exact (hs.rooted token _ hold hlive).cons hspares
  · exact ⟨[], token, row, s.acts, rfl, .root token, rfl, rfl, rfl, rfl, nofun⟩
  · obtain ⟨code, handoff, source, hcode, hsource, hsou, rfl, rfl⟩ := hhanded
    obtain ⟨hacc, hdev⟩ := (hs.handoffs code handoff hcode).2 source hsource
    obtain ⟨after, root, login, before, hacts, hdes, hlog, hlogi, hcre, hexpires, hspares⟩ :=
      hs.rooted handoff.origin source hsource hsou
    refine ⟨.handed token handoff.origin :: after, root, login, before, by rw [hacts]; rfl,
      .handed mem_cons_self (hdes.cons _), hlog.trans hacc.symm, hlogi.trans hdev.symm,
      hcre, hexpires, ?_⟩
    intro act hact
    rcases mem_cons.mp hact with rfl | hact
    · trivial
    -- What spared the origin spares the new session, which has its device and passkey and a token of its own.
    · have hor := hspares act hact
      cases act with
      | deviceEnded account device => simpa only [Act.Spares, hacc, hdev] using hor
      | passkeyRevoked account credential => simpa only [Act.Spares, hacc] using hor
      | sessionEnded ended =>
        rintro rfl
        exact hfresh (hs.ended _ (hacts ▸ mem_append_left _ hact))
      | _ => trivial

theorem handoffs_of_step {handoff : Handoff} (hs : Inv s) (hfresh : random ∉ s.issued)
    (heffect : Effect s.tables random now tables act)
    (hcode : tables.handoffs.lookup code = some handoff) :
    handoff.origin ∈ random :: s.issued ∧ ∀ row, tables.sessions.lookup handoff.origin = some row →
      handoff.accountId = row.accountId ∧ handoff.deviceIdHex = row.deviceIdHex := by
  have hold : handoff.origin ∈ s.issued ∧ ∀ row, s.tables.sessions.lookup handoff.origin = some row →
      handoff.accountId = row.accountId ∧ handoff.deviceIdHex = row.deviceIdHex := by
    rcases handoffs_of_effect heffect hcode with ⟨code', handoff', hcode', hacc, hdev, hor⟩ | ⟨row,
      hrow, hacc, hdev⟩
    · rw [hacc, hdev, hor]
      exact hs.handoffs code' handoff' hcode'
    · refine ⟨hs.keys _ row hrow, ?_⟩
      intro row' hrow'
      cases hrow.symm.trans hrow'
      exact ⟨hacc, hdev⟩
  refine ⟨mem_cons_of_mem _ hold.1, ?_⟩
  intro row hrow
  rcases rows_of_effect heffect hrow with ⟨row', hrow', hacc, hdev, -⟩ | ⟨hrandom, -⟩
  · rw [hacc, hdev]
    exact hold.2 row' hrow'
  · exact absurd (hrandom ▸ hold.1) hfresh

theorem denied_of_effect {after before : List Act} {claims : ScopeClaims} (hs : Inv s)
    (hclock : s.clock ≤ now) (heffect : Effect s.tables random now tables act)
    (hacts : act :: s.acts = after ++ .minted claims :: before)
    (hrevoked : .tokenRevoked claims.jti ∈ after) :
    claims.expiresAtUtc ≤ now ∨ ∃ expires, tables.denylist.lookup claims.jti = some expires ∧
    claims.expiresAtUtc ≤ expires := by
  obtain ⟨hk, hdenied⟩ := denylist_of_effect heffect
  cases after with
  | nil => cases hrevoked
  | cons act' after =>
    obtain ⟨rfl, hr⟩ := List.cons.inj hacts
    have hlives := hs.lives claims (hr ▸ mem_append_right _ mem_cons_self)
    rcases mem_cons.mp hrevoked with hrevoked | hrevoked
    · exact .inr ⟨_, hdenied claims.jti hrevoked.symm, by omega⟩
    · rcases hs.denied after claims before hr hrevoked with hexpired | ⟨expires, hl, hle⟩
      · exact .inl (hexpired.trans hclock)
      · rcases hk claims.jti expires hl with hpast | ⟨expires', hloo', rfl | rfl⟩
        · exact .inl (hle.trans hpast)
        · exact .inr ⟨_, hloo', hle⟩
        · exact .inr ⟨_, hloo', by omega⟩

end

theorem inv_later {clock : Nat} {issued : List Text} (hs : Inv s) (hclock : s.clock ≤ clock)
    (hissued : s.issued ⊆ issued) : Inv { s with clock := clock, issued := issued } where
  keys token row h := hissued (hs.keys token row h)
  opened act h token hopened := hissued (hs.opened act h token hopened)
  once := hs.once
  ended token h := hissued (hs.ended token h)
  handoffs code handoff h := ⟨hissued (hs.handoffs code handoff h).1, (hs.handoffs code handoff h).2⟩
  rooted := hs.rooted
  minted := hs.minted
  lives claims h := (hs.lives claims h).trans (Nat.add_le_add_right hclock 900)
  denied after claims before hacts hrevoked :=
    (hs.denied after claims before hacts hrevoked).imp_left (·.trans hclock)

theorem inv_step (event : Event) (hs : Inv s) : Inv (step s event) := by
  have hclock : s.clock ≤ s.clock + event.elapsed := Nat.le_add_right _ _
  unfold step perform
  dsimp only
  split
  · exact inv_later hs hclock fun _ h => h
  · next hfr =>
    have hfr : event.random ∉ s.issued := by simpa using hfr
    split
    · exact inv_later hs hclock fun _ h => mem_cons_of_mem _ h
    · next tables act hhandle =>
      have heff := effect_of_handle hhandle
      refine ⟨fun _ _ h => keys_of_effect hs heff h, ?_, pairwise_cons.mpr ⟨?_, hs.once⟩, ?_,
        fun _ _ h => handoffs_of_step hs hfr heff h,
        fun _ _ h hl => rooted_of_effect hs hfr heff h hl, ?_, ?_,
        fun _ _ _ hacts hrev => denied_of_effect hs hclock heff hacts hrev⟩
      · intro act' h token hopened
        rcases mem_cons.mp h with rfl | h
        · exact opened_of_effect heff hopened ▸ mem_cons_self
        · exact mem_cons_of_mem _ (hs.opened act' h token hopened)
      · intro act' h token hopened hope'
        cases opened_of_effect heff hopened
        exact hfr (hs.opened act' h _ hope')
      · intro token h
        rcases mem_cons.mp h with rfl | h
        · obtain ⟨row, hrow⟩ := isSome_iff_exists.mp (ended_of_effect heff)
          exact mem_cons_of_mem _ (hs.keys token row hrow)
        · exact mem_cons_of_mem _ (hs.ended token h)
      · intro claims h
        rcases minted_of_effect heff h with h | ⟨rfl, hor⟩
        · exact ⟨mem_cons_of_mem _ (hs.minted claims h).1, (hs.minted claims h).2⟩
        · exact ⟨mem_cons_self, hor⟩
      · intro claims h
        rcases mem_cons.mp h with rfl | h
        · exact expires_of_effect heff
        · have hlives := hs.lives claims h
          dsimp only
          omega

theorem inv_run (events : List Event) : Inv (run events) := by
  refine List.foldlRecOn events step inv_init ?_
  intro s hs event _
  exact inv_step event hs

/-- A handoff is for the account and the device of its session; scope tokens live for 900 seconds at
most. -/
theorem derived_credentials (events : List Event) :
    (∀ code handoff, (run events).tables.handoffs.lookup code = some handoff → ∀ row,
      (run events).tables.sessions.lookup handoff.origin = some row →
        handoff.accountId = row.accountId ∧ handoff.deviceIdHex = row.deviceIdHex) ∧
      ∀ claims, .minted claims ∈ (run events).acts → claims.expiresAtUtc ≤ (run events).clock + 900 :=
  ⟨fun code handoff h => ((inv_run events).handoffs code handoff h).2, (inv_run events).lives⟩

end CipherVault.Account.Sessions
