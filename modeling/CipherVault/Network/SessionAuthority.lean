import CipherVault.Network.Sessions

/-!
# Network.SessionAuthority

What a session is good for. Every session is that of an identity it was created for (`Backed`), and
every identity has one record (`Unique`), so that a check finds the record. A check reads the
records twice; `Between` is an enrolment between the two.
-/

namespace CipherVault.Network.Sessions

open Crypto Format Option Prod List

theorem isWhiteSpace_toLower (c : Char) : Snapshot.isWhiteSpace c.toLower = Snapshot.isWhiteSpace c := by
  have h := Hex.toNat_toLower c
  unfold Snapshot.isWhiteSpace
  by_cases hupper : 65 ≤ c.toNat ∧ c.toNat ≤ 90
  · rw [if_pos hupper] at h
    rw [h, Bool.eq_iff_iff]
    simp only [Bool.or_eq_true, Bool.and_eq_true, decide_eq_true_eq, beq_iff_eq]
    omega
  · rw [if_neg hupper] at h
    rw [h]

theorem trim_lower (text : Text) : trim (Hex.lower text) = Hex.lower (trim text) := by
  have hdrop : ∀ l : Text, (Hex.lower l).dropWhile Snapshot.isWhiteSpace =
    Hex.lower (l.dropWhile Snapshot.isWhiteSpace) := by
    intro l
    rw [Hex.lower, Hex.lower, List.dropWhile_map]
    congr 2
    funext c
    exact isWhiteSpace_toLower c
  have hrev : ∀ l : Text, (Hex.lower l).reverse = Hex.lower l.reverse := fun l => (List.map_reverse).symm
  rw [trim, trim, hdrop, hrev, hdrop, hrev]

theorem normalize_lower {len : Nat} {text : Text} (h : isHexOf len text = true) :
    normalize (Hex.lower text) = Hex.lower text := by
  obtain ⟨bytes, hdec, _⟩ := (Option.any_eq_true _ _).mp h
  rw [normalize, trim_lower, trim_of_decode hdec, Hex.lower_lower]

theorem lower_normalize (text : Text) : Hex.lower (normalize text) = normalize text := Hex.lower_lower _

theorem normalizeField_idem (field : Option Text) :
    normalizeField (normalizeField field) = normalizeField field := by
  cases field with
  | none => rfl
  | some text =>
    unfold normalizeField
    by_cases hnil : trim text = []
    · rw [map_some, hnil]
      rfl
    · have hlower : Hex.lower (trim text) ≠ [] := fun h => hnil (map_eq_nil_iff.mp h)
      simp only [map_some, filter_some, ne_eq, hnil, not_false_eq_true, decide_true, if_true, trim_lower,
        trim_trim, hlower, Hex.lower_lower]

variable {α : Type} {permissions : Permissions} {record : PersistedSession}

theorem normalizeIdentityBinding_idem {account device account' device' : Option Text}
    (h : normalizeIdentityBinding account device = .ok (account', device')) :
    normalizeIdentityBinding account' device' = .ok (account', device') := by
  simp only [normalizeIdentityBinding, ite_error_eq_ok, Except.ok.injEq, mk.injEq] at h ⊢
  obtain ⟨hacc, hdev, htog, rfl, rfl⟩ := h
  rw [normalizeField_idem, normalizeField_idem]
  exact ⟨hacc, hdev, htog, rfl, rfl⟩

/-- Spelt as the code normalises it. -/
structure Normal (vaultIdHex publicKeyHex : Text) (accountId deviceIdHex : Option Text) : Prop where
  vault : normalize vaultIdHex = vaultIdHex
  key : normalize publicKeyHex = publicKeyHex
  binding : normalizeIdentityBinding accountId deviceIdHex = .ok (accountId, deviceIdHex)

def ChallengeRecord.Normal (record : ChallengeRecord) : Prop :=
  Sessions.Normal record.vaultIdHex record.publicKeyHex record.accountId record.deviceIdHex

def EnrolledIdentity.key (identity : EnrolledIdentity) : Text × Text :=
  (identity.vaultIdHex, identity.publicKeyHex)

/-- One record for a vault and a key, with the vault in lower case. -/
structure Unique (identities : List EnrolledIdentity) : Prop where
  once : (identities.map EnrolledIdentity.key).Nodup
  lower : ∀ key ∈ identities.map EnrolledIdentity.key, Hex.lower key.1 = key.1

/-- Every session in memory was created. -/
def Backed (created : List Creation) (memory : Memory) : Prop :=
  ∀ token expiresAtUtc key vault, memory.sessions.lookup token = some expiresAtUtc →
    memory.sessionKeys.lookup token = some key → memory.sessionVaults.lookup token = some vault →
    ⟨token, vault, Hex.encode key, ((memory.sessionBindings.lookup token).getD (none, none)).1,
      ((memory.sessionBindings.lookup token).getD (none, none)).2⟩ ∈ created

structure MemorySound (created : List Creation) (memory : Memory) : Prop where
  identities : Unique memory.identities
  challenges : ∀ challengeId record, memory.challenges.lookup challengeId = some record → record.Normal
  sessions : Backed created memory

/-- Sessions were created, and identities are unique, in memory and on disk. -/
structure Sound (s : State) : Prop where
  created : ∀ c ∈ s.created, Normal c.vaultIdHex c.publicKeyHex c.accountId c.deviceIdHex
  memory : MemorySound s.created s.memory
  identities : Unique s.disk.identities
  challenges : ∀ stored ∈ s.disk.challenges, stored.record.Normal
  sessions : ∀ record ∈ s.disk.sessions,
    ⟨record.token, record.vaultIdHex, record.publicKeyHex, record.accountId, record.deviceIdHex⟩ ∈ s.created

section

variable {identities : List EnrolledIdentity}

section

variable (h : Unique identities)
include h

theorem Unique.congr {identities' : List EnrolledIdentity}
    (hkeys : identities'.map EnrolledIdentity.key = identities.map EnrolledIdentity.key) :
    Unique identities' :=
  ⟨hkeys ▸ h.once, hkeys ▸ h.lower⟩

theorem Unique.filter (p : EnrolledIdentity → Bool) : Unique (identities.filter p) :=
  ⟨h.once.sublist (filter_sublist.map _), fun key hkey => h.lower key ((filter_sublist.map _).subset hkey)⟩

theorem unique_loadEnrolledIdentities : Unique (loadEnrolledIdentities identities) := by
  refine Unique.filter (h.congr ?_) _
  rw [List.map_map]
  rfl

theorem unique_revoked {now : Nat} {vault key : Text} : Unique (revoked now vault key identities) := by
  refine h.congr ?_
  rw [revoked, List.map_map]
  refine map_congr_left fun identity _ => ?_
  rw [Function.comp_apply]
  split
  · rfl
  · rfl

end

theorem map_updateFirst {β : Type} {p : α → Bool} {f : α → α} {g : α → β} (hg : ∀ a, g (f a) = g a)
    (l : List α) :
    (updateFirst p f l).map g = l.map g := by
  induction l with
  | nil => rfl
  | cons a rest ih =>
    rw [updateFirst]
    split
    · rw [map_cons, map_cons, hg]
    · rw [map_cons, map_cons, ih]

theorem unique_enrolled {now : Nat} {vault key : Text} {account device : Option Text}
    (h : Unique identities) (hvault : Hex.lower vault = vault) :
    Unique (enrolled now vault key permissions account device identities) := by
  unfold enrolled
  split
  · refine h.congr (map_updateFirst (fun existing => ?_) identities)
    split
    · rfl
    · rfl
  · rename_i hnew
    refine ⟨?_, fun added hadded => ?_⟩
    · rw [map_append, map_singleton]
      refine nodup_append.mpr ⟨h.once, nodup_singleton _, ?_⟩
      rintro _ hold _ hla rfl
      obtain ⟨existing, hexisting, hkey⟩ := mem_map.mp hold
      rw [mem_singleton.mp hla] at hkey
      refine hnew (any_eq_true.mpr ⟨existing, hexisting, ?_⟩)
      rw [EnrolledIdentity.isOf, Bool.and_eq_true, beq_iff_eq, beq_iff_eq]
      exact ⟨congrArg fst hkey, congrArg snd hkey⟩
    · rw [map_append, map_singleton] at hadded
      rcases mem_append.mp hadded with hold | hla
      · exact h.lower added hold
      · rw [mem_singleton.mp hla]
        exact hvault

end

/-- Sessions may go, and do not change. -/
def Shrinks (memory' memory : Memory) : Prop :=
  ∀ token expiresAtUtc, memory'.sessions.lookup token = some expiresAtUtc →
    memory.sessions.lookup token = some expiresAtUtc ∧
      memory'.sessionKeys.lookup token = memory.sessionKeys.lookup token ∧
      memory'.sessionVaults.lookup token = memory.sessionVaults.lookup token ∧
      memory'.sessionBindings.lookup token = memory.sessionBindings.lookup token

variable {created : List Creation} {memory : Memory} {now : Nat} {token : Text}

section

variable {memory' : Memory}

theorem Backed.shrink (h : Backed created memory) (hshrinks : Shrinks memory' memory) :
    Backed created memory' := by
  intro token expiresAtUtc key vault hses hkey hv
  obtain ⟨hses', hkeys, hvaults, hbin⟩ := hshrinks token expiresAtUtc hses
  rw [hbin]
  exact h token expiresAtUtc key vault hses' (hkeys ▸ hkey) (hvaults ▸ hv)

theorem Backed.mono {created' : List Creation} (h : Backed created memory)
    (hsub : ∀ c ∈ created, c ∈ created') : Backed created' memory :=
  fun token expiresAtUtc key vault hses hkey hv =>
    hsub _ (h token expiresAtUtc key vault hses hkey hv)

theorem shrinks_eraseSession (token : Text) (memory : Memory) :
    Shrinks (eraseSession token memory) memory := by
  intro other expiresAtUtc hses
  obtain ⟨hne, hold⟩ := lookup_of_lookup_erase hses
  exact ⟨hold, lookup_erase_ne hne, lookup_erase_ne hne, lookup_erase_ne hne⟩

theorem lookup_retain_of_true {p : Text → Bool} {m : Dict Text α} (h : p token = true) :
    (Dict.retain (fun token _ => p token) m).lookup token = m.lookup token := by
  rw [lookup_retain]
  cases m.lookup token with
  | none => rfl
  | some value => rw [filter_some, if_pos h]

theorem shrinks_closeSessions (tokens : List Text) (memory : Memory) :
    Shrinks (closeSessions tokens memory) memory := by
  intro token expiresAtUtc hses
  obtain ⟨hold, hk⟩ := lookup_retain_eq_some.mp hses
  have hk' : (fun token => !tokens.contains token) token = true := hk
  exact ⟨hold, lookup_retain_of_true hk', lookup_retain_of_true hk', rfl⟩

theorem shrinks_evictExpired (now : Nat) (memory : Memory) : Shrinks (evictExpired now memory) memory := by
  intro token expiresAtUtc hses
  have hk : (fun token => ((Dict.retain (fun _ expiresAtUtc => now < expiresAtUtc) memory.sessions).lookup
      token).isSome) token = true := isSome_iff_exists.mpr ⟨expiresAtUtc, hses⟩
  exact ⟨(lookup_retain_eq_some.mp hses).1, lookup_retain_of_true hk, lookup_retain_of_true hk,
    lookup_retain_of_true hk⟩

theorem Backed.evictOldest (h : Backed created memory) (tie : Nat) :
    Backed created (evictOldest tie memory) := by
  unfold Sessions.evictOldest
  split
  · split
    · exact h.shrink (shrinks_eraseSession _ memory)
    · exact h
  · exact h

theorem Backed.insertSession {expiresAtUtc : Nat} {key : Bytes} {vault : Text}
    {binding : Option Text × Option Text}
    (h : Backed created memory) (hnew : ⟨token, vault, Hex.encode key, binding.1, binding.2⟩ ∈ created) :
    Backed created (insertSession token expiresAtUtc key vault binding memory) := by
  intro other expiresAtUtc' key' vault' hses hkey hv
  simp only [Sessions.insertSession] at hses hkey hv ⊢
  by_cases heq : other = token
  · subst heq
    rw [lookup_insert] at hkey hv ⊢
    rw [← some.inj hkey, ← some.inj hv]
    exact hnew
  · rw [lookup_insert_ne heq] at hses hkey hv ⊢
    exact h other expiresAtUtc' key' vault' hses hkey hv

theorem mem_persistedSessions (h : Backed created memory) (hrecord : record ∈ persistedSessions memory) :
    ⟨record.token, record.vaultIdHex, record.publicKeyHex, record.accountId, record.deviceIdHex⟩ ∈
      created := by
  obtain ⟨e, he, hs⟩ := mem_filterMap.mp hrecord
  have hses : memory.sessions.lookup e.1 = some e.2 := lookup_eq_some_iff.mpr he
  split at hs
  · rename_i key vault hkey hv
    have hmem := h e.1 e.2 key vault hses hkey hv
    cases hs
    cases hbin : memory.sessionBindings.lookup e.1 with
    | none | some => rw [hbin] at hmem; exact hmem
  · cases hs

end

section

theorem MemorySound.loadSession (h : MemorySound created memory)
    (hnormal : ∀ c ∈ created, Normal c.vaultIdHex c.publicKeyHex c.accountId c.deviceIdHex)
    (hrecord : ⟨record.token, record.vaultIdHex, record.publicKeyHex, record.accountId,
      record.deviceIdHex⟩ ∈ created) :
    MemorySound created (loadSession now memory record) := by
  have hbin : normalizeIdentityBinding record.accountId record.deviceIdHex = _ := (hnormal _ hrecord).binding
  have hkey : normalize record.publicKeyHex = record.publicKeyHex := (hnormal _ hrecord).key
  unfold Sessions.loadSession
  split
  · exact h
  · split
    · exact h
    · rename_i key hdec
      split
      · exact h
      · rw [hbin]
        refine ⟨h.identities, h.challenges, h.sessions.insertSession ?_⟩
        have hencode : Hex.encode key = record.publicKeyHex := by
          rw [Hex.encode_of_decode hdec, ← hkey, lower_normalize]
        rw [hencode]
        exact hrecord

theorem MemorySound.loadChallenge {stored : PersistedChallenge} (h : MemorySound created memory)
    (hstored : stored.record.Normal) : MemorySound created (loadChallenge now memory stored) := by
  unfold Sessions.loadChallenge
  split
  · exact h
  · split
    · exact h
    · exact ⟨h.identities, fun challengeId record hrec =>
        forall_lookup_insert (h.challenges challengeId) (fun _ => hstored) record hrec, h.sessions⟩

theorem sound_load {s : State} (h : Sound s) (now : Nat) : Sound (load now s) := by
  have hemp : MemorySound s.created
      { Memory.empty with identities := loadEnrolledIdentities s.disk.identities } := by
    refine ⟨unique_loadEnrolledIdentities h.identities, fun _ _ hrec => ?_, fun _ _ _ _ hses => ?_⟩
    · cases hrec
    · cases hses
  have hsess : ∀ records : List PersistedSession, (∀ record ∈ records,
      ⟨record.token, record.vaultIdHex, record.publicKeyHex, record.accountId, record.deviceIdHex⟩ ∈
        s.created) →
      ∀ memory, MemorySound s.created memory →
        MemorySound s.created (records.foldl (loadSession now) memory) := by
    intro records
    induction records with
    | nil => exact fun _ _ hmemory => hmemory
    | cons record records ih =>
      intro hall memory hmemory
      exact ih (fun r hr => hall r (mem_cons_of_mem _ hr)) _
        (hmemory.loadSession h.created (hall record mem_cons_self))
  have hcha : ∀ records : List PersistedChallenge, (∀ stored ∈ records, stored.record.Normal) →
      ∀ memory, MemorySound s.created memory →
        MemorySound s.created (records.foldl (loadChallenge now) memory) := by
    intro records
    induction records with
    | nil => exact fun _ _ hmemory => hmemory
    | cons stored records ih =>
      intro hall memory hmemory
      exact ih (fun r hr => hall r (mem_cons_of_mem _ hr)) _
        (hmemory.loadChallenge (hall stored mem_cons_self))
  exact ⟨h.created, hcha _ h.challenges _ (hsess _ h.sessions _ hemp), h.identities, h.challenges, h.sessions⟩

end

section

open Faulty

variable {E : Externals} {config : Config} {s : State}

theorem Sound.onMemory {f : Memory → Memory} (h : Sound s) (hf : MemorySound s.created (f s.memory)) :
    Sound (onMemory f s) := ⟨h.created, hf, h.identities, h.challenges, h.sessions⟩

theorem Sound.identitiesWritten (h : Sound s) :
    Sound { s with disk := { s.disk with identities := s.memory.identities } } :=
  ⟨h.created, h.memory, h.memory.identities, h.challenges, h.sessions⟩

theorem Sound.sessionsWritten (h : Sound s) :
    Sound { s with disk := { s.disk with sessions := persistedSessions s.memory } } :=
  ⟨h.created, h.memory, h.identities, h.challenges,
    fun _ hrec => mem_persistedSessions h.memory.sessions hrec⟩

theorem keeps_persistEnrolledIdentities : Keeps Sound (persistEnrolledIdentities config) :=
  keeps_replace fun _ h => h.identitiesWritten

theorem keeps_persistSessions : Keeps Sound (persistSessions config) :=
  keeps_replace fun _ h => h.sessionsWritten

theorem keeps_persistChallenges : Keeps Sound (persistChallenges config) := by
  refine keeps_replace fun s h => ⟨h.created, h.memory, h.identities, fun stored hst => ?_, h.sessions⟩
  obtain ⟨e, he, rfl⟩ := mem_map.mp hst
  exact h.memory.challenges e.1 e.2 (lookup_eq_some_iff.mpr he)

theorem keeps_discard {x : Action α} (h : Keeps Sound x) : Keeps Sound (discard x) :=
  h.bind fun _ => keeps_pure

variable {vault key : Text} {tie : Nat}

theorem keeps_enrollIdentityWithBinding {account device : Option Text} :
    Keeps Sound (enrollIdentityWithBinding config now vault key permissions account device) := by
  refine keeps_check.bind fun _ => keeps_check.bind fun _ => keeps_lift.bind fun binding => ?_
  refine (keeps_update fun s h => h.onMemory ?_).bind fun _ => keeps_persistEnrolledIdentities
  exact ⟨unique_enrolled h.memory.identities (lower_normalize vault), h.memory.challenges, h.memory.sessions⟩

/-- Also if the memory is put back. -/
structure Undoable (before : Memory) (s : State) : Prop where
  sound : Sound s
  undo : MemorySound s.created before
  bindings : s.memory.sessionBindings = before.sessionBindings

theorem keeps_revokeIdentity : Keeps Sound (revokeIdentity config now vault key) := by
  refine ensures_iff.mpr (ends_look_eq.bind fun before => ?_)
  split
  · refine Ends.mono (ensures_iff.mp (?_ : Keeps (Undoable before) _)) ?_ (fun _ _ h => h.sound)
      (fun _ h => h.sound)
      fun _ h => h.sound
    · refine Keeps.bind ?_ fun _ => Keeps.bind (Keeps.rescue ?_ fun error => Keeps.bind ?_ fun _ =>
        keeps_fail) fun _ => ?_
      · exact keeps_update fun s h => ⟨h.sound.onMemory ⟨unique_revoked h.sound.memory.identities,
          h.sound.memory.challenges, h.sound.memory.sessions⟩, h.undo, h.bindings⟩
      · exact keeps_replace fun s h => ⟨h.sound.identitiesWritten, h.undo, h.bindings⟩
      · exact keeps_update fun s h => ⟨h.sound.onMemory ⟨h.undo.identities, h.sound.memory.challenges,
          h.sound.memory.sessions⟩, h.undo, h.bindings⟩
      dsimp only
      split
      · exact keeps_pure
      refine Keeps.bind ?_ fun _ => Keeps.bind (Keeps.rescue ?_ fun error => Keeps.bind ?_ fun _ =>
        keeps_fail) fun _ =>
        keeps_pure
      · exact keeps_update fun s h => ⟨h.sound.onMemory ⟨h.sound.memory.identities, h.sound.memory.challenges,
          h.sound.memory.sessions.shrink (shrinks_closeSessions _ _)⟩, h.undo, h.bindings⟩
      · exact keeps_replace fun s h => ⟨h.sound.sessionsWritten, h.undo, h.bindings⟩
      · refine keeps_update fun s h =>
          ⟨h.sound.onMemory ⟨h.sound.memory.identities, h.sound.memory.challenges, ?_⟩,
          h.undo, h.bindings⟩
        -- the bindings were not closed with their sessions
        intro token expiresAtUtc key vault hses hkey hv
        rw [h.bindings]
        exact h.undo.sessions token expiresAtUtc key vault hses hkey hv
    · rintro s ⟨h, rfl⟩
      exact ⟨h, h.memory, rfl⟩
  · exact ends_pure fun _ h => h.1

theorem keeps_issueChallengeWithBinding {account device : Option Text} {idBytes nonceBytes : Bytes} :
    Keeps Sound (issueChallengeWithBinding config now vault key account device idBytes nonceBytes tie) := by
  refine keeps_check_bind fun hv => keeps_check_bind fun hkey => keeps_lift_bind fun binding hbin => ?_
  refine keeps_look.bind fun memory => keeps_check.bind fun _ => ?_
  refine Keeps.bind ?_ fun _ => Keeps.bind (keeps_persistChallenges.rescue fun error => Keeps.bind ?_ fun _ =>
    keeps_fail) fun _ => keeps_pure
  · refine keeps_update fun s h => h.onMemory ⟨h.memory.identities, fun challengeId record hrec =>
      ?_, h.memory.sessions⟩
    refine forall_lookup_insert (fun old hold => h.memory.challenges challengeId old ?_)
      (fun _ => ⟨normalize_lower hv, normalize_lower hkey, normalizeIdentityBinding_idem hbin⟩) record hrec
    split at hold
    · exact (lookup_retain_eq_some.mp (Dict.lookup_of_lookup_dropOldest hold)).1
    · exact (lookup_retain_eq_some.mp hold).1
  · exact keeps_update fun s h => h.onMemory ⟨h.memory.identities, fun challengeId record hrec =>
      h.memory.challenges challengeId record (lookup_of_lookup_erase hrec).2, h.memory.sessions⟩

variable {challenge : ChallengeRecord} {publicKeyHex signatureHex : Text}

theorem encode_of_authenticate {key : Bytes}
    (h : authenticate E config now memory challenge publicKeyHex signatureHex = some key)
    (hnormal : challenge.Normal) :
    Hex.encode key = challenge.publicKeyHex := by
  unfold authenticate at h
  split at h
  · cases h
  · split at h
    · cases h
    · rename_i hs
      split at h
      · cases h
      · split at h
        · rename_i key' signature nonce hdec _ _
          split at h
          · cases h
            have hlower : Hex.lower challenge.publicKeyHex = Hex.lower publicKeyHex := by
              rw [Bool.not_eq_true, Bool.not_eq_false'] at hs
              exact beq_iff_eq.mp hs
            rw [Hex.encode_of_decode hdec, ← hlower, ← hnormal.key, lower_normalize]
          · cases h
        · cases h

theorem sound_openSession {key : Bytes} (h : Sound s) (hnormal : challenge.Normal)
    (hkey : Hex.encode key = challenge.publicKeyHex) : Sound (openSession now challenge key token tie s) := by
  have hsub : ∀ c ∈ s.created, c ∈ (openSession now challenge key token tie s).created :=
    fun c hc => mem_append_left _ hc
  refine ⟨fun c hc => ?_, ?_, h.identities, h.challenges, fun record hrec => hsub _ (h.sessions record hrec)⟩
  · rcases mem_append.mp hc with hold | hnew
    · exact h.created c hold
    · rw [mem_singleton.mp hnew]
      exact hnormal
  · have hbacked : Backed (openSession now challenge key token tie s).created
      (evictOldest tie (evictExpired now s.memory)) :=
      ((h.memory.sessions.shrink (shrinks_evictExpired now s.memory)).evictOldest tie).mono hsub
    have hos : (evictOldest tie (evictExpired now s.memory)).identities = s.memory.identities ∧
        (evictOldest tie (evictExpired now s.memory)).challenges = s.memory.challenges := by
      unfold evictOldest
      split
      · split
        · exact ⟨rfl, rfl⟩
        · exact ⟨rfl, rfl⟩
      · exact ⟨rfl, rfl⟩
    refine ⟨hos.1 ▸ h.memory.identities, hos.2 ▸ h.memory.challenges, hbacked.insertSession ?_⟩
    rw [hkey]
    exact mem_append_right _ mem_cons_self

theorem keeps_eraseSession : Keeps Sound (update (onMemory (eraseSession token)) : Action Unit) :=
  keeps_update fun _ h => h.onMemory ⟨h.memory.identities, h.memory.challenges,
    h.memory.sessions.shrink (shrinks_eraseSession token _)⟩

theorem keeps_verifyAndCreateSession {challengeId : Text} {tokenBytes : Bytes} :
    Keeps Sound (verifyAndCreateSession E config now challengeId publicKeyHex signatureHex
      tokenBytes tie) := by
  refine ensures_iff.mpr (ends_look_eq.bind fun found => ?_)
  cases found with
  | none => exact ends_pure fun _ h => h.1
  | some challenge =>
    refine ends_of_fact challenge.Normal
      (fun s h => h.1.memory.challenges challengeId challenge h.2) fun hnormal => ?_
    refine Ends.pre (B := Sound) (ensures_iff.mp ?_) fun _ h => h.1
    refine Keeps.bind ?_ fun _ => Keeps.bind (Ensures.mapError keeps_persistChallenges _) fun _ =>
      keeps_look.bind fun memory => ?_
    · exact keeps_update fun s h => h.onMemory ⟨h.memory.identities, fun id record hrec =>
        h.memory.challenges id record (lookup_of_lookup_erase hrec).2, h.memory.sessions⟩
    cases hkey : authenticate E config now memory challenge publicKeyHex signatureHex with
    | none => exact keeps_pure
    | some key =>
      refine (keeps_update fun s h => sound_openSession h hnormal
        (encode_of_authenticate hkey hnormal)).bind fun _ => ?_
      exact (keeps_persistSessions.rescue fun error => keeps_eraseSession.bind fun _ =>
        keeps_fail).bind fun _ => keeps_pure

theorem keeps_revokeSession : Keeps Sound (revokeSession config token) := by
  refine ensures_iff.mpr (ends_look_eq.bind fun before => ?_)
  -- the memory of before stays sound, as nothing is created
  have hk : ∀ {α : Type} {x : Action α}, Keeps (fun s => Sound s ∧ MemorySound s.created before) x →
      Ends (fun s => Sound s ∧ s.memory = before) x (fun _ => Sound) Sound Sound := by
    intro α x hx
    refine (ensures_iff.mp hx).mono ?_ (fun _ _ h => h.1) (fun _ h => h.1) fun _ h => h.1
    rintro s ⟨h, rfl⟩
    exact ⟨h, h.memory⟩
  refine hk (Keeps.bind ?_ fun _ => ?_)
  · exact keeps_update fun s h => ⟨h.1.onMemory ⟨h.1.memory.identities, h.1.memory.challenges,
      h.1.memory.sessions.shrink (shrinks_eraseSession token _)⟩, h.2⟩
  split
  · refine Keeps.bind (Keeps.rescue ?_ fun error => Keeps.bind ?_ fun _ => keeps_fail) fun _ => keeps_pure
    · exact keeps_replace fun s h => ⟨h.1.sessionsWritten, h.2⟩
    · exact keeps_update fun s h =>
        ⟨h.1.onMemory ⟨h.1.memory.identities, h.1.memory.challenges, h.2.sessions⟩, h.2⟩
  · exact keeps_pure

end

/-! ## The authority of a session -/

/-- An enrolled identity has the permission for the session. -/
def Authorised (identities : List EnrolledIdentity) (c : Creation) (permission : Permissions) : Prop :=
  ∃ identity ∈ identities, identity.key = (c.vaultIdHex, c.publicKeyHex) ∧
    admitsField identity.accountId c.accountId = true ∧
      admitsField identity.deviceIdHex c.deviceIdHex = true ∧
    identity.revokedAtUtc = none ∧ identity.permissions &&& permission = permission

instance {identities : List EnrolledIdentity} {c : Creation} {permission : Permissions} :
    Decidable (Authorised identities c permission) := by
  unfold Authorised
  infer_instance

theorem sound_run (E : Externals) (config : Config) (events : List Event) : Sound (run E config events) := by
  have hall : ∀ event ∈ events, event.Satisfies fun _ => True := by
    intro event _
    cases event with
    | start | call => trivial
  refine Service.run_keeps (I := Sound) (fun now s h => sound_load h now) ?_ hall ?_
  · intro now call _
    cases call with
    | enrollIdentity vault key permissions account device => exact keeps_enrollIdentityWithBinding
    | revokeIdentity vault key => exact keeps_discard keeps_revokeIdentity
    | issueChallenge vault key account device idBytes nonceBytes tie =>
      exact keeps_discard keeps_issueChallengeWithBinding
    | verifyAndCreateSession challengeId key signature tokenBytes tie =>
      exact keeps_discard keeps_verifyAndCreateSession
    | revokeSession token => exact keeps_discard keeps_revokeSession
  · exact ⟨nofun, ⟨⟨nodup_nil, nofun⟩, nofun, nofun⟩, ⟨nodup_nil, nofun⟩, nofun, nofun⟩

/-- The files have one identity for a vault and a key, and only sessions that a verified challenge
has opened. -/
theorem files_sound (E : Externals) (config : Config) (events : List Event) :
    Unique (run E config events).disk.identities ∧ ∀ record ∈ (run E config events).disk.sessions,
      ⟨record.token, record.vaultIdHex, record.publicKeyHex, record.accountId, record.deviceIdHex⟩ ∈
        (run E config events).created ∧ normalize record.vaultIdHex = record.vaultIdHex := by
  have h := sound_run E config events
  exact ⟨h.identities, fun record hr => ⟨h.sessions record hr, (h.created _ (h.sessions record hr)).vault⟩⟩

theorem validateSessionForVault_spec {s : State} {config : Config} {vaultIdHex : Text}
    (hrequired : config.requireEnrollment = true) (h : Sound s)
    (hvalid : validateSessionForVault config s.memory now token vaultIdHex = true) :
    ∃ c ∈ s.created, c.token = token ∧ Hex.lower vaultIdHex = c.vaultIdHex ∧
      (s.memory.sessionKeys.lookup token).map Hex.encode = some c.publicKeyHex ∧
      ∃ identity ∈ s.memory.identities, identity.key = (c.vaultIdHex, c.publicKeyHex) ∧
        admitsField identity.accountId c.accountId = true ∧
        admitsField identity.deviceIdHex c.deviceIdHex = true := by
  simp only [validateSessionForVault, validateWriteSession, Bool.and_eq_true] at hvalid
  obtain ⟨⟨_, hses⟩, hvalid⟩ := hvalid
  obtain ⟨expiresAtUtc, hses, _⟩ := (Option.any_eq_true _ _).mp hses
  cases hv : s.memory.sessionVaults.lookup token with
  | none => rw [hv] at hvalid; cases hvalid
  | some scope =>
    simp only [hv, hrequired, if_true, Bool.and_eq_true] at hvalid
    obtain ⟨hscope, hvalid⟩ := hvalid
    cases hkey : s.memory.sessionKeys.lookup token with
    | none => rw [hkey] at hvalid; cases hvalid
    | some key =>
      have hcre := h.memory.sessions token expiresAtUtc key scope hses hkey hv
      have hnormal := h.created _ hcre
      simp only [hkey, isIdentityEnrolledWithBinding, hnormal.binding, hnormal.vault, hnormal.key] at hvalid
      obtain ⟨identity, hidentity, hm⟩ := any_eq_true.mp hvalid
      simp only [Bool.and_eq_true, beq_iff_eq] at hm
      obtain ⟨⟨⟨⟨_, hidV⟩, hidKey⟩, hacc⟩, hdev⟩ := hm
      refine ⟨_, hcre, rfl, ?_, rfl, identity, hidentity, Prod.ext hidV hidKey, hacc, hdev⟩
      have hnor : normalize scope = scope := hnormal.vault
      have hlower : Hex.lower scope = scope := hnor ▸ lower_normalize scope
      exact (beq_iff_eq.mp hscope).symm.trans hlower

/-- With enrolment required, in every run, a session has a permission for a vault only if the
identity it was created for is enrolled for that vault, is not revoked and has the permission.
Between the two reads of the check there can be other calls, which leave the enrolments as they are
and open no other session under the token. -/
theorem authority_follows_enrolment (E : Externals) (config : Config)
    (hrequired : config.requireEnrollment = true)
    (events between : List Event) (now : Nat) (token vaultIdHex : Text) (permission : Permissions)
    (henrolled : (run E config (events ++ between)).memory.identities =
      (run E config events).memory.identities)
    (hsession : ∀ key, (run E config (events ++ between)).memory.sessionKeys.lookup token = some key →
      (run E config events).memory.sessionKeys.lookup token = some key)
    (h : sessionHasPermission config (run E config events).memory
      (run E config (events ++ between)).memory now token
      vaultIdHex permission = true) :
    ∃ c ∈ (run E config events).created, c.token = token ∧ Hex.lower vaultIdHex = c.vaultIdHex ∧
      Authorised (run E config events).memory.identities c permission := by
  have hsound := sound_run E config events
  obtain ⟨hval, hholds⟩ := (Bool.and_eq_true _ _).mp h
  obtain ⟨c, hcre, htoken, hv, hkey, identity, hidentity, hid, hacc, hdev⟩ :=
    validateSessionForVault_spec hrequired hsound hval
  refine ⟨c, hcre, htoken, hv, identity, hidentity, hid, hacc, hdev, ?_⟩
  rw [holdsPermission, henrolled] at hholds
  split at hholds
  · cases hholds
  rename_i key hl
  have hencode : Hex.encode key = c.publicKeyHex := by
    rw [hsession key hl] at hkey
    exact Option.some.inj hkey
  simp only [hrequired, Bool.not_true, Bool.false_and] at hholds
  split at hholds
  · rename_i found hf
    -- the record that is found is that of the identity
    have hs : found = identity := by
      refine inj_on_of_nodup_map hsound.memory.identities.once (mem_of_find?_eq_some hf) hidentity ?_
      have hm := find?_some hf
      rw [Bool.and_eq_true, beq_iff_eq] at hm
      have hlower := hsound.memory.identities.lower _ (mem_map_of_mem (mem_of_find?_eq_some hf))
      rw [hid]
      refine Prod.ext ?_ (hm.2.trans hencode)
      exact hlower.symm.trans ((beq_iff_eq.mp hm.1).trans hv)
    rw [Bool.and_eq_true, isNone_iff_eq_none, beq_iff_eq, hs] at hholds
    exact hholds
  · cases hholds

namespace Between

def config : Config := { requireEnrollment := true, ioError := "disk full" }

def vault : Text := Hex.encode (replicate 32 7#8)

def key : Text := Hex.encode (reference.ed25519Public [1#8])

def account (n : Byte) : Option Text := some ("cvacct_".toList ++ Hex.encode (replicate 16 n))

def device (n : Byte) : Option Text := some (Hex.encode (replicate 32 n))

def enroll (permissions : Permissions) (n : Byte) : Event :=
  .call 1000 (.enrollIdentity vault key permissions (account n) (device n)) []

def login : List Event :=
  [.call 1000 (.issueChallenge vault key (account 1) (device 1) [5#8] (replicate 32 6#8) 0) [],
    .call 1000 (.verifyAndCreateSession (Hex.encode [5#8]) key
      (Hex.encode (signWithDomain reference [1#8] challengeContext (replicate 32 6#8))) [9#8] 0) []]

def session : Creation := ⟨Hex.encode [9#8], vault, key, account 1, device 1⟩

def opened : List Event := enroll permissionRead 1 :: login

def replaced : List Event := opened ++ [enroll permissionVaultDefault 2]

/-- A session for a device that may read. During a check the key is enrolled for another device that
may write: the session is validated against the first record, the permission is that of the second.
The identity of the session never has it. -/
theorem permission_of_another_device :
    (run reference config opened).created = [session] ∧ (run reference config replaced).created = [session] ∧
      validateSessionForVault config (run reference config opened).memory 1001 session.token vault = true ∧
      holdsPermission config (run reference config replaced).memory session.token vault
        permissionWrite = true ∧
      ¬ Authorised (run reference config opened).memory.identities session permissionWrite ∧
      ¬ Authorised (run reference config replaced).memory.identities session permissionWrite := by
  decide +kernel

/-- Another challenge for the key. -/
def asked : List Event := [.call 1000
    (.issueChallenge vault key (account 1) (device 1) [6#8] (replicate 32 6#8) 0) []]

theorem session_may_read :
    (run reference config (opened ++ asked)).memory.identities =
      (run reference config opened).memory.identities ∧
      (run reference config (opened ++ asked)).memory.sessionKeys.lookup session.token =
        (run reference config opened).memory.sessionKeys.lookup session.token ∧
      sessionHasPermission config (run reference config opened).memory
        (run reference config (opened ++ asked)).memory 1001
        session.token vault permissionRead = true := by
  decide +kernel

theorem opened_authorised :
    sessionHasPermission config (run reference config opened).memory
      (run reference config (opened ++ asked)).memory 1001
        session.token vault permissionRead = true ∧
      ∃ c ∈ (run reference config opened).created, c.token = session.token ∧ Hex.lower vault = c.vaultIdHex ∧
        Authorised (run reference config opened).memory.identities c permissionRead :=
  ⟨session_may_read.2.2, authority_follows_enrolment reference config rfl opened asked 1001
    session.token vault
    permissionRead session_may_read.1 (fun _ h => session_may_read.2.1 ▸ h) session_may_read.2.2⟩

end Between

end CipherVault.Network.Sessions
