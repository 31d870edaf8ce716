import CipherVault.Account.Lineage

/-!
# Account.StepUp

The second factor. Some handlers read the session and let the connection go before they go on, so
that a run is made of critical sections: requests, readings of a session, and the rest of a request
that has its reading.
-/

namespace CipherVault.Account.Sessions

open Crypto Option List

/-- What `authenticated_session` returned; `tables` are those that it read, for the record. -/
structure Reading where
  token : Text
  view : SessionView
  tables : Tables

/-- What is left of a request after its reading. -/
inductive Rest where
  | handoff
  | mint (ttlSeconds : Option Nat)
  | revokeToken (jti : Text)

def Reading.resume (reading : Reading) (rest : Rest) (t : Tables) (random : Text) (now : Nat) :
    Option (Tables × Act) :=
  match rest with
  | .handoff => some (issueHandoff t reading.view reading.token random now)
  | .mint ttl => mintScopeToken t reading.view reading.token random ttl now
  | .revokeToken jti => denyScopeToken t reading.view jti now

inductive Move where
  | request (event : Event)
  | read (elapsed : Nat) (token : Text)
  | resume (elapsed : Nat) (random : Text) (index : Nat) (rest : Rest)

structure System where
  state : State
  readings : List Reading

def System.read (s : System) (token : Text) : System :=
  match authenticatedSession s.state.tables token s.state.clock with
  | none => s
  | some view => { s with readings := s.readings ++ [⟨token, view, s.state.tables⟩] }

def System.move (s : System) : Move → System
  | .request event => { s with state := step s.state event }
  | .read elapsed token =>
    System.read { s with state := { s.state with clock := s.state.clock + elapsed } } token
  | .resume elapsed random index rest =>
    match s.readings[index]? with
    | none => s
    | some reading => { s with state := perform s.state elapsed random (reading.resume rest) }

def System.run (moves : List Move) : System := moves.foldl System.move ⟨init, []⟩

def requireRecentAccountRole (t : Tables) (token accountId : Text) (now : Nat) : Option SessionView :=
  (authenticatedSession t token now).filter fun view =>
    (requireRecentStrongSession
      { view with mfaRequired := view.mfaRequired || policyRequired t accountId } now).isOk

/-- A device or passkey session, issued at most five minutes ago, that passed a step-up less than
five minutes ago with the credential that is enabled now. -/
def SteppedUp (s : State) (token accountId : Text) (kind : AuthMethod) (issuedAtUtc : Nat) : Prop :=
  isPrimary kind = true ∧ issuedAtUtc ≤ s.clock ∧ s.clock - issuedAtUtc ≤ stepUpMaxAgeSeconds ∧
    ∃ verified credential, enabledTotp s.tables accountId = some credential ∧
      .steppedUp token verified credential.ciphertext ∈ s.acts ∧ freshStepUp verified s.clock = true

/-- Policy and credential of the account are still what they were when the session was read. -/
def Reading.Current (reading : Reading) (s : State) : Prop :=
  policyRequired s.tables reading.view.accountId = policyRequired reading.tables reading.view.accountId ∧
    enabledTotp s.tables reading.view.accountId = enabledTotp reading.tables reading.view.accountId

variable {view : SessionView} {now : Nat} {t t' : Tables} {token account : Text} {act : Act} {s : System}

theorem of_requireRecentPrimarySession (h : (requireRecentPrimarySession view now).isOk = true) :
    isPrimary view.authMethod = true ∧ view.issuedAtUtc ≤ now ∧
    now - view.issuedAtUtc ≤ stepUpMaxAgeSeconds := by
  unfold requireRecentPrimarySession requireStrongSession at h
  split at h
  · cases h
  · dsimp only [bind, Except.bind] at h
    split at h
    · cases h
    · next hpri =>
      obtain ⟨hkind, hissued⟩ := not_or.mp hpri
      have hkind := not_not.mp hkind
      exact ⟨by simpa [isPrimary] using hkind, by omega, by omega⟩

theorem of_requireRecentStrongSession (h : (requireRecentStrongSession view now).isOk = true) :
    (requireRecentPrimarySession view now).isOk = true ∧
      (view.mfaRequired = true → ∃ verified, view.mfaVerifiedAtUtc = some verified ∧
        freshStepUp verified now = true) := by
  unfold requireRecentStrongSession at h
  cases hpri : requireRecentPrimarySession view now with
  | error e =>
    rw [hpri] at h
    cases h
  | ok u =>
    rw [hpri] at h
    split at h
    · cases h
    · next hfr =>
      refine ⟨rfl, ?_⟩
      intro hreq
      rw [hreq, Bool.true_and, Bool.not_eq_true, Bool.not_eq_false'] at hfr
      exact (Option.any_eq_true _ _).mp hfr

theorem of_currentStepUp {kind : AuthMethod} {proof : StepUp}
    (h : currentStepUp t token account kind now = some proof) :
    t.stepUps.lookup token = some proof ∧ freshStepUp proof.verifiedAtUtc now = true ∧
      ∃ credential, enabledTotp t account = some credential ∧ credential.ciphertext = proof.fingerprint := by
  obtain ⟨hproof, h⟩ := Option.filter_eq_some_iff.mp h
  simp only [Bool.and_eq_true] at h
  obtain ⟨credential, hcre, heq⟩ := (Option.any_eq_true _ _).mp h.2
  exact ⟨hproof, h.1.2, credential, hcre, eq_of_beq heq⟩

/-! ## What a critical section does to the second factor -/

/-- Everything that a critical section can do to policy, credentials and step-ups. -/
inductive Factor (t : Tables) : Tables → Act → Prop where
  | same (t' : Tables) (act : Act) (hpolicy : t'.policy = t.policy) (htotp : t'.totp = t.totp)
      (hstepUps : t'.stepUps = t.stepUps) : Factor t t' act
  | credential (account : Text) (row : TotpCredential)
      (hrow : (row.enabled && !row.revoked) = true ∨ enabledTotp t account = none ∨
        policyRequired t account = false) :
      Factor t { t with totp := t.totp.insert account row } .other
  | steppedUp (token : Text) (proof : StepUp) :
      Factor t { t with stepUps := t.stepUps.insert token proof }
        (.steppedUp token proof.verifiedAtUtc proof.fingerprint)
  | policy (t' : Tables) (account : Text) (required : Bool) (henabled : (enabledTotp t account).isSome = true)
      (hpolicy : t'.policy = t.policy.insert account required) (htotp : t'.totp = t.totp)
        (hstepUps : t'.stepUps = t.stepUps) :
      Factor t t' .other
  | reset (t' : Tables) (account : Text)
      (hpolicy : t'.policy = t.policy.map fun account' required => required && account' != account)
      (htotp : ∀ account', account' ≠ account → t'.totp.lookup account' = t.totp.lookup account')
      (hstepUps : t'.stepUps = t.stepUps) : Factor t t' .other

theorem factor_of_enrollDevice (t : Tables) (account device key : Text) :
    Factor t (enrollDevice t account device key).1 (enrollDevice t account device key).2 := by
  unfold enrollDevice
  dsimp only
  split
  · exact .same _ _ rfl rfl rfl
  · exact .same _ _ rfl rfl rfl

variable {jti random : Text} {required : Bool}

theorem factor_of_mintScopeToken {ttl : Option Nat}
    (h : mintScopeToken t view token jti ttl now = some (t', act)) : Factor t t' act := by
  obtain ⟨claims, -, -, h⟩ := mintScopeToken_eq_some h
  cases h
  exact .same _ _ rfl rfl rfl

theorem factor_of_denyScopeToken (h : denyScopeToken t view jti now = some (t', act)) : Factor t t' act := by
  cases denyScopeToken_eq_some h
  exact .same _ _ rfl rfl rfl

theorem factor_of_patchPolicy {recoverable : Bool}
    (h : patchPolicy t token account required recoverable now = some (t', act)) : Factor t t' act := by
  obtain ⟨⟨view, hview, hacc, hproof⟩, h⟩ := patchPolicy_eq_some h
  cases h
  obtain ⟨row, -, -, rfl⟩ := of_authenticatedSession hview
  -- The caller has a current step-up, so the credential is enabled.
  obtain ⟨proof, hproof⟩ := isSome_iff_exists.mp (isSome_map.symm.trans hproof)
  obtain ⟨-, -, credential, hcre, -⟩ := of_currentStepUp hproof
  refine .policy _ account required ?_ rfl rfl rfl
  rw [← hacc]
  exact isSome_of_eq_some hcre

theorem factor_of_postRecoveryReset (h : postRecoveryReset t token account now = some (t', act)) :
    Factor t t' act := by
  cases postRecoveryReset_eq_some h
  refine .reset _ account rfl ?_ rfl
  intro account' hne
  simp [lookup_map, hne]

theorem factor_of_handle {request : Request} (h : handle t random now request = some (t', act)) :
    Factor t t' act := by
  cases request with
  | login account via =>
    obtain ⟨row, -, h⟩ := map_eq_some_iff.mp h
    cases h
    exact .same _ _ rfl rfl rfl
  | enroll proof account device key =>
    simp only [handle, postDeviceEnrollment] at h
    split at h
    · have hfactor := factor_of_enrollDevice t account device key
      rw [some.inj h] at hfactor
      exact hfactor
    · cases h
  | revokeDevice token account device =>
    obtain ⟨row, h⟩ := revokeDevice_eq_some h
    cases h
    exact .same _ _ rfl rfl rfl
  | registerPasskey token account credential =>
    obtain ⟨row, h⟩ := registerPasskey_eq_some h
    cases h
    exact .same _ _ rfl rfl rfl
  | revokePasskey token account credential =>
    obtain ⟨row, h⟩ := revokePasskey_eq_some h
    cases h
    exact .same _ _ rfl rfl rfl
  | logout token | handoff token =>
    obtain ⟨view, -, h⟩ := map_eq_some_iff.mp h
    cases h
    exact .same _ _ rfl rfl rfl
  | consume code =>
    obtain ⟨handoff, row, -, -, -, h⟩ := postSessionHandoffConsume_eq_some h
    cases h
    exact .same _ _ rfl rfl rfl
  | mint token ttl =>
    obtain ⟨view, -, h⟩ := bind_eq_some_iff.mp h
    exact factor_of_mintScopeToken h
  | revokeToken token jti =>
    obtain ⟨view, -, h⟩ := bind_eq_some_iff.mp h
    exact factor_of_denyScopeToken h
  | enrollTotp token account =>
    obtain ⟨hnone, h⟩ := postTotpEnrollment_eq_some h
    cases h
    exact .credential account _ (.inr (.inl hnone))
  | confirmTotp token account =>
    obtain ⟨row, hrow, h⟩ := postTotpEnrollmentVerify_eq_some h
    cases h
    exact .credential account _ (.inl hrow)
  | revokeTotp token account =>
    obtain ⟨hpolicy, row, h⟩ := postTotpRevoke_eq_some h
    cases h
    exact .credential account _ (.inr (.inr hpolicy))
  | stepUp token =>
    obtain ⟨proof, h⟩ := postStepUp_eq_some h
    cases h
    exact .steppedUp token proof
  | policy token account required recoverable => exact factor_of_patchPolicy h
  | reset token account => exact factor_of_postRecoveryReset h
  | pruneExpired | pruneDenylist =>
    cases h
    exact .same _ _ rfl rfl rfl

theorem factor_of_resume {rest : Rest} {reading : Reading}
    (h : reading.resume rest t random now = some (t', act)) : Factor t t' act := by
  cases rest with
  | handoff =>
    cases h
    exact .same _ _ rfl rfl rfl
  | mint ttl => exact factor_of_mintScopeToken h
  | revokeToken jti => exact factor_of_denyScopeToken h

/-- Every step-up that is stored took place. -/
def Proved (t : Tables) (acts : List Act) : Prop :=
  ∀ token proof, t.stepUps.lookup token = some proof →
    .steppedUp token proof.verifiedAtUtc proof.fingerprint ∈ acts

/-- Where the policy requires a second factor, one is enabled. -/
def Covered (t : Tables) : Prop :=
  ∀ account, policyRequired t account = true → (enabledTotp t account).isSome = true

section

variable {t t' : Tables} {act : Act}

theorem proved_of_factor {acts : List Act} (ht : Proved t acts) (hfactor : Factor t t' act) :
    Proved t' (act :: acts) := by
  intro token proof hl
  cases hfactor with
  | same t' act hpol htotp hste => exact mem_cons_of_mem _ (ht token proof (hste ▸ hl))
  | credential account row hrow => exact mem_cons_of_mem _ (ht token proof hl)
  | steppedUp token' proof' =>
    rcases lookup_insert_cases hl with ⟨rfl, rfl⟩ | ⟨-, hl⟩
    · exact mem_cons_self
    · exact mem_cons_of_mem _ (ht token proof hl)
  | policy t' account required hena hpol htotp hste => exact mem_cons_of_mem _ (ht token proof (hste ▸ hl))
  | reset t' account hpol htotp hste => exact mem_cons_of_mem _ (ht token proof (hste ▸ hl))

theorem covered_of_factor (ht : Covered t) (hfactor : Factor t t' act) : Covered t' := by
  intro account hreq
  cases hfactor with
  | same t' act hpol htotp hste =>
    unfold policyRequired at hreq
    unfold enabledTotp
    rw [hpol] at hreq
    rw [htotp]
    exact ht account hreq
  | credential account' row hrow =>
    have hold := ht account hreq
    by_cases heq : account = account'
    · subst heq
      rcases hrow with hrow | hn | hfree
      · simp [enabledTotp, hrow]
      · rw [hn] at hold
        cases hold
      · exact absurd hreq (Bool.eq_false_iff.mp hfree)
    · simpa [enabledTotp, lookup_insert_ne heq] using hold
  | steppedUp token proof => exact ht account hreq
  | policy t' account' required hena hpol htotp hste =>
    unfold enabledTotp
    rw [htotp]
    by_cases heq : account = account'
    · subst heq
      exact hena
    · refine ht account ?_
      simpa [policyRequired, hpol, lookup_insert_ne heq] using hreq
  | reset t' account' hpol htotp hste =>
    unfold policyRequired at hreq
    rw [hpol, lookup_map] at hreq
    cases hl : t.policy.lookup account with
    | none =>
      rw [hl] at hreq
      cases hreq
    | some required =>
      simp only [hl, map_some, getD_some, Bool.and_eq_true, bne_iff_ne] at hreq
      unfold enabledTotp
      rw [htotp account hreq.2]
      refine ht account ?_
      rw [policyRequired, hl]
      exact hreq.1

end

/-- The invariant of the second factor, with the readings that are still out. -/
structure Factors (s : System) : Prop where
  covered : Covered s.state.tables
  proved : Proved s.state.tables s.state.acts
  readings : ∀ reading ∈ s.readings, Proved reading.tables s.state.acts ∧
    ∃ now, authenticatedSession reading.tables reading.token now = some reading.view

theorem factors_perform (hs : Factors s) (elapsed : Nat) (random : Text)
    {work : Tables → Text → Nat → Option (Tables × Act)}
    (hwork : ∀ now t' act, work s.state.tables random now = some (t', act) → Factor s.state.tables t' act) :
    Factors { s with state := perform s.state elapsed random work } := by
  unfold perform
  dsimp only
  split
  · exact ⟨hs.covered, hs.proved, hs.readings⟩
  · split
    · exact ⟨hs.covered, hs.proved, hs.readings⟩
    · next t' act hd =>
      have hfactor := hwork _ _ _ hd
      refine ⟨covered_of_factor hs.covered hfactor, proved_of_factor hs.proved hfactor, ?_⟩
      intro reading hrea
      obtain ⟨hproved, hr⟩ := hs.readings reading hrea
      exact ⟨fun token proof h => mem_cons_of_mem _ (hproved token proof h), hr⟩

theorem factors_read (hs : Factors s) (token : Text) : Factors (s.read token) := by
  unfold System.read
  split
  · exact hs
  · next view hv =>
    refine ⟨hs.covered, hs.proved, ?_⟩
    intro reading hrea
    rcases mem_append.mp hrea with hrea | hrea
    · exact hs.readings reading hrea
    · cases mem_singleton.mp hrea
      exact ⟨hs.proved, _, hv⟩

theorem factors_move (hs : Factors s) (move : Move) : Factors (s.move move) := by
  cases move with
  | request event => exact factors_perform hs _ _ fun _ _ _ h => factor_of_handle h
  | read elapsed token =>
    have hla : Factors { s with state := { s.state with clock := s.state.clock + elapsed } } :=
      ⟨hs.covered, hs.proved, hs.readings⟩
    exact factors_read hla token
  | resume elapsed random index rest =>
    unfold System.move
    dsimp only
    split
    · exact hs
    · exact factors_perform hs _ _ fun _ _ _ h => factor_of_resume h

theorem factors_run (moves : List Move) : Factors (System.run moves) := by
  refine List.foldlRecOn moves System.move ⟨nofun, nofun, nofun⟩ ?_
  intro s hs move _
  exact factors_move hs move

theorem steppedUp_of_guard {s : State} (reading : Reading) (hproved : Proved reading.tables s.acts)
    (hread : authenticatedSession reading.tables reading.token now = some reading.view)
    (hcredential : enabledTotp s.tables reading.view.accountId =
      enabledTotp reading.tables reading.view.accountId)
    (hrequired : required = true)
    (hguard : (requireRecentStrongSession { reading.view with mfaRequired := required }
      s.clock).isOk = true) :
    SteppedUp s reading.token reading.view.accountId reading.view.authMethod reading.view.issuedAtUtc := by
  obtain ⟨hpri, hmfa⟩ := of_requireRecentStrongSession hguard
  obtain ⟨hkind, hissued, hrecent⟩ := of_requireRecentPrimarySession hpri
  obtain ⟨verified, hver, hfr⟩ := hmfa hrequired
  obtain ⟨row, -, -, hv⟩ := of_authenticatedSession hread
  rw [hv] at hver hcredential
  obtain ⟨proof, hproof, rfl⟩ := map_eq_some_iff.mp hver
  obtain ⟨hl, -, credential, hena, hcip⟩ := of_currentStepUp hproof
  refine ⟨hkind, hissued, hrecent, proof.verifiedAtUtc, credential, ?_, ?_, hfr⟩
  · rw [hv]
    exact hcredential.trans hena
  · rw [hcip]
    exact hproved _ _ hl

theorem steppedUp_of_scope {claims : ScopeClaims} {s : State} (hproved : Proved s.tables s.acts)
    (hrequired : policyRequired s.tables claims.accountId = true)
    (hscope : scopeMfaActive s.tables claims s.clock = true) :
    ∃ token row, claims.originSession = some token ∧ s.tables.sessions.lookup token = some row ∧
      SteppedUp s token claims.accountId row.kind row.issuedAtUtc := by
  simp only [scopeMfaActive, hrequired, Bool.not_true, Bool.false_and, Bool.false_eq_true, if_false] at hscope
  obtain ⟨token, htoken, hscope⟩ := (Option.any_eq_true _ _).mp hscope
  obtain ⟨row, hrow, hscope⟩ := (Option.any_eq_true _ _).mp hscope
  simp only [Bool.and_eq_true] at hscope
  obtain ⟨⟨⟨⟨hacc, -⟩, -⟩, hpri⟩, hproof⟩ := hscope
  obtain ⟨proof, hproof, -⟩ := (Option.any_eq_true _ _).mp hproof
  obtain ⟨hl, hfr, credential, hena, hcip⟩ := of_currentStepUp hproof
  obtain ⟨hkind, hissued, hrecent⟩ := of_requireRecentPrimarySession hpri
  refine ⟨token, row, htoken, hrow, hkind, hissued, hrecent, proof.verifiedAtUtc, credential, ?_, ?_, hfr⟩
  · rw [← eq_of_beq hacc]
    exact hena
  · rw [hcip]
    exact hproved _ _ hl

/-- Over every interleaving: an account whose policy requires MFA has an enabled credential; and
where the policy of the account requires it, no scope token, no guard on the tables and no guard on
a current reading passes without a step-up. -/
theorem second_factor (moves : List Move) (s : System) (hs : s = System.run moves) (account : Text)
    (hrequired : policyRequired s.state.tables account = true) :
    (enabledTotp s.state.tables account).isSome = true ∧
      (∀ claims, claims.accountId = account → scopeMfaActive s.state.tables claims s.state.clock = true →
        ∃ token row, claims.originSession = some token ∧ s.state.tables.sessions.lookup token = some row ∧
          SteppedUp s.state token account row.kind row.issuedAtUtc) ∧
      (∀ token view, requireRecentAccountSession s.state.tables token account s.state.clock = some view ∨
          requireRecentAccountRole s.state.tables token account s.state.clock = some view →
        SteppedUp s.state token view.accountId view.authMethod view.issuedAtUtc) ∧
      ∀ reading ∈ s.readings, reading.view.accountId = account → reading.Current s.state →
        (requireRecentStrongSession reading.view s.state.clock).isOk = true →
        SteppedUp s.state reading.token account reading.view.authMethod reading.view.issuedAtUtc := by
  have hfac : Factors s := hs ▸ factors_run moves
  refine ⟨hfac.covered account hrequired, ?_, ?_, ?_⟩
  · rintro claims rfl hscope
    exact steppedUp_of_scope hfac.proved hrequired hscope
  · rintro token view (hg | hg)
    · obtain ⟨hv, hg⟩ := filter_eq_some_iff.mp hg
      simp only [Bool.and_eq_true] at hg
      obtain ⟨row, -, -, hrow⟩ := of_authenticatedSession hv
      have hmfa : view.mfaRequired = true := by
        rw [← hrequired, ← eq_of_beq hg.1, hrow]
        rfl
      exact steppedUp_of_guard ⟨token, view, s.state.tables⟩ hfac.proved hv rfl hmfa hg.2
    · obtain ⟨hv, hg⟩ := filter_eq_some_iff.mp hg
      exact steppedUp_of_guard ⟨token, view, s.state.tables⟩ hfac.proved hv rfl
        (by rw [hrequired, Bool.or_true]) hg
  · rintro reading hrea rfl hcur hg
    obtain ⟨hproved, now, hr⟩ := hfac.readings reading hrea
    obtain ⟨row, -, -, hrow⟩ := of_authenticatedSession hr
    have hmfa : reading.view.mfaRequired = true := by
      rw [← hrequired, hcur.1, hrow]
      rfl
    exact steppedUp_of_guard reading hproved hr hcur.2 hmfa hg

def twoSessions : List Move :=
  let account := "a".toList
  [.request ⟨0, "s1".toList, .login account (.accountKey none)⟩,
    .request ⟨1, "s2".toList, .login account (.accountKey none)⟩,
    .request ⟨1, "c".toList, .enrollTotp "s2".toList account⟩,
      .request ⟨1, "r1".toList, .confirmTotp "s2".toList account⟩,
    .request ⟨1, "p".toList, .stepUp "s2".toList⟩]

def requirePolicy : Move := .request ⟨1, "r2".toList, .policy "s2".toList "a".toList true true⟩

def readAfterPolicy : List Move := twoSessions ++ [requirePolicy, .read 1 "s2".toList]

def readBeforePolicy : List Move :=
  twoSessions ++ [.read 1 "s1".toList, requirePolicy, .resume 1 "r3".toList 0 (.revokeToken "j".toList)]

theorem read_after_policy : (System.run readAfterPolicy).readings ≠ [] := by decide +kernel

theorem second_factor_after_policy :
    ∃ reading ∈ (System.run readAfterPolicy).readings,
      (requireRecentStrongSession reading.view (System.run readAfterPolicy).state.clock).isOk = true ∧
      SteppedUp (System.run readAfterPolicy).state reading.token "a".toList reading.view.authMethod
        reading.view.issuedAtUtc := by
  refine ⟨(System.run readAfterPolicy).readings.head read_after_policy,
    head_mem read_after_policy, by decide +kernel, ?_⟩
  exact (second_factor readAfterPolicy _ rfl "a".toList (by decide +kernel)).2.2.2 _
    (head_mem read_after_policy)
    (by decide +kernel) ⟨by decide +kernel, by decide +kernel⟩ (by decide +kernel)

theorem read_before_policy : (System.run readBeforePolicy).readings ≠ [] := by decide +kernel

theorem guard_on_overtaken_reading :
    ∃ reading ∈ (System.run readBeforePolicy).readings, reading.view.accountId = "a".toList ∧
      policyRequired (System.run readBeforePolicy).state.tables "a".toList = true ∧
      (requireRecentStrongSession reading.view (System.run readBeforePolicy).state.clock).isOk = true ∧
      ((System.run readBeforePolicy).state.tables.denylist.lookup "j".toList).isSome = true ∧
      ¬ SteppedUp (System.run readBeforePolicy).state reading.token "a".toList
        reading.view.authMethod reading.view.issuedAtUtc := by
  refine ⟨(System.run readBeforePolicy).readings.head read_before_policy, head_mem read_before_policy,
    by decide +kernel, by decide +kernel, by decide +kernel, by decide +kernel, ?_⟩
  rintro ⟨-, -, -, verified, credential, -, hact, -⟩
  have hn : ((System.run readBeforePolicy).state.acts.all fun
      | .steppedUp token _ _ =>
        token != ((System.run readBeforePolicy).readings.head read_before_policy).token
      | _ => true) = true := by decide +kernel
  have ho := all_eq_true.mp hn _ hact
  simp at ho

end CipherVault.Account.Sessions
