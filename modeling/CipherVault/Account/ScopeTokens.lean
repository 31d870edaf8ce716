import CipherVault.Account.Dpop
import CipherVault.Account.Sessions

/-!
# Account.ScopeTokens

The life of a scope token: `post_scope_token` of `services/account/src/secret_routes.rs`, which
announces it, and `scope_tokens.rs`, which mints and verifies it. Refusals are `none`; what tables,
quota and configuration say comes with a request (`Answers`).
-/

namespace CipherVault.Account.ScopeTokens

open Crypto Network Dpop List Option

def b64Char (n : Nat) : Char :=
  if n < 26 then .ofNat (n + 65)
  else if n < 52 then .ofNat (n + 71)
  else if n < 62 then .ofNat (n - 4)
  else if n = 62 then '-'
  else '_'

def sextets : Bytes → List Nat
  | a :: b :: c :: rest =>
    let bits := a.toNat * 2 ^ 16 + b.toNat * 2 ^ 8 + c.toNat
    bits / 2 ^ 18 :: bits / 2 ^ 12 % 64 :: bits / 2 ^ 6 % 64 :: bits % 64 :: sextets rest
  | [a, b] =>
    let bits := (a.toNat * 2 ^ 8 + b.toNat) * 4
    [bits / 2 ^ 12, bits / 2 ^ 6 % 64, bits % 64]
  | [a] => [a.toNat / 4, a.toNat * 16 % 64]
  | [] => []

/-- `URL_SAFE_NO_PAD`. -/
def b64Encode (bytes : Bytes) : Text := (sextets bytes).map b64Char

structure ScopeClaims where
  (tenantId projectId : Text)
  (environmentId repositoryBindingId serviceId branch cnf originSessionHash mfaProofId : Option Text)
  elevatedUntilUtc : Option Nat
  principalId : Text
  (issuedAtUtc expiresAtUtc : Nat)
  jti : Text
deriving DecidableEq

def ScopeClaims.validShape (claims : ScopeClaims) : Bool :=
  [claims.tenantId, claims.projectId, claims.principalId, claims.jti].all (trim · ≠ []) &&
    claims.issuedAtUtc < claims.expiresAtUtc

/-- HMAC-SHA-256 of a key and a message, and the JSON of the claims. -/
structure Externals where
  hmacSha256 : Bytes → Bytes → Bytes
  toVec : ScopeClaims → Bytes
  fromSlice : Bytes → Option ScopeClaims
  fromSlice_toVec : ∀ claims, fromSlice (toVec claims) = some claims

def scopeTokenPrefix : Text := "cvst1".toList

def scopeTokenMaxPayloadBytes : Nat := 4096

def scopeTokenSkewSeconds : Nat := 60

section

variable (E : Externals)

def macInput (payloadB64 : Text) : Bytes :=
  ascii "cv-scope-token-v1" ++ utf8 scopeTokenPrefix ++ ascii "." ++ utf8 payloadB64

def mintScopeToken (key : Bytes) (claims : ScopeClaims) : Option Text :=
  let payloadB64 := b64Encode (E.toVec claims)
  if claims.validShape then
    some (['.'].intercalate [scopeTokenPrefix, payloadB64,
      b64Encode (E.hmacSha256 key (macInput payloadB64))])
  else none

/-- The signature, then the claims. -/
def verifyScopeToken (key : Bytes) (token : Text) (now : Nat) : Option ScopeClaims :=
  match (trim token).splitOn '.' with
  | [version, payloadB64, macB64] =>
    if version ≠ scopeTokenPrefix ∨ b64Decode macB64 ≠ some (E.hmacSha256 key (macInput payloadB64)) then none
    else (b64Decode payloadB64).bind fun payload =>
      if scopeTokenMaxPayloadBytes < payload.length then none
      else (E.fromSlice payload).filter fun claims =>
        claims.validShape && now < claims.expiresAtUtc && claims.issuedAtUtc ≤ now + scopeTokenSkewSeconds
  | _ => none

structure MintTokenBody where
  projectId : Text
  (environmentId repositoryBindingId serviceId branch : Option Text)
  elevated : Bool
  ttlSeconds : Option Nat
  bindPubkeyEd25519Hex : Option Text

structure Answers where
  tenantId : Option Text
  (hasRole quotaLeft scopeExists originActive : Bool)
  bindingKey : Text → Option Text
  tier : Nat
  bindingActive : Bool
  key : Option Bytes
  audited : Bool

structure Reply where
  token : Text
  expiresIn : Nat
  claims : ScopeClaims

variable (answers : Answers) (view : SessionView) (sessionHash : Text) (body : MintTokenBody)
  (jti : Text) (asked now : Nat)

def ttl : Nat := min (max 60 (min (body.ttlSeconds.getD 900) 900)) (view.expiresAtUtc - now)

def claimsOf (tenantId : Text) : ScopeClaims :=
  let expires := Sessions.scopeExpiry view body.ttlSeconds now
  { tenantId := tenantId, projectId := body.projectId, environmentId := body.environmentId
    repositoryBindingId := body.repositoryBindingId, serviceId := body.serviceId, branch := none
    cnf := body.bindPubkeyEd25519Hex.bind answers.bindingKey, originSessionHash := some sessionHash
    mfaProofId := view.mfaProofId
    elevatedUntilUtc := if body.elevated then
      some (min (view.issuedAtUtc + stepUpMaxAgeSeconds) expires) else none
    principalId := "account:".toList ++ view.accountId, issuedAtUtc := now,
    expiresAtUtc := expires, jti := jti }

def accepts (claims : ScopeClaims) : Bool :=
  (requireRecentStrongSession view asked).isOk && body.branch.isNone && answers.hasRole &&
    answers.quotaLeft &&
    answers.scopeExists && answers.originActive && claims.elevatedUntilUtc.all (now < ·) &&
    body.bindPubkeyEd25519Hex.isSome == claims.cnf.isSome &&
    (body.environmentId.isNone || answers.tier < 2 || claims.elevatedUntilUtc.isSome) &&
    (body.repositoryBindingId.isNone || answers.bindingActive) && answers.audited

def postScopeToken : Option Reply :=
  answers.tenantId.bind fun tenantId =>
    let claims := claimsOf answers view sessionHash body jti now tenantId
    if accepts answers view body asked now claims then
      answers.key.bind fun key => (mintScopeToken E key claims).map fun token =>
        ⟨token, ttl view body now, claims⟩
    else none

variable {E} {answers view sessionHash body jti asked now} {claims : ScopeClaims} {token : Text}
  {key : Bytes} {reply : Reply}

theorem b64Value_b64Char : ∀ n < 64, b64Value (b64Char n) = some n := by decide

theorem b64Char_spec (n : Nat) : b64Char n ≠ '.' ∧ Snapshot.isWhiteSpace (b64Char n) = false := by
  by_cases hn : n < 64
  · revert n
    decide
  · rw [b64Char, if_neg, if_neg, if_neg, if_neg]
    · decide
    all_goals omega

theorem b64Decode_b64Encode (bytes : Bytes) : b64Decode (b64Encode bytes) = some bytes := by
  have hdec : decodeNoPad (b64Encode bytes) = some bytes := by
    unfold b64Encode
    induction bytes using sextets.induct with
    | case1 a b c rest ih =>
      have := a.isLt; have := b.isLt; have := c.isLt
      simp only [sextets, map_cons, decodeNoPad, ih]
      rw [b64Value_b64Char _ (by omega), b64Value_b64Char _ (by omega),
        b64Value_b64Char _ (by omega), b64Value_b64Char _ (by omega)]
      simp [← BitVec.toNat_inj]
      omega
    | case2 a b =>
      have := a.isLt; have := b.isLt
      simp only [sextets, map_cons, map_nil, decodeNoPad]
      rw [b64Value_b64Char _ (by omega), b64Value_b64Char _ (by omega), b64Value_b64Char _ (by omega)]
      simp [← BitVec.toNat_inj]
      omega
    | case3 a =>
      have := a.isLt
      simp only [sextets, map_cons, map_nil, decodeNoPad]
      rw [b64Value_b64Char _ (by omega), b64Value_b64Char _ (by omega)]
      simp [← BitVec.toNat_inj]
      omega
    | case4 => rfl
  rw [b64Decode, hdec, some_or]

theorem splitOn_token (payload tag : Bytes) :
    (trim (['.'].intercalate [scopeTokenPrefix, b64Encode payload, b64Encode tag])).splitOn '.' =
      [scopeTokenPrefix, b64Encode payload, b64Encode tag] := by
  have hall : scopeTokenPrefix.all (fun c => c != '.' && !Snapshot.isWhiteSpace c) = true := by decide
  have hpre : ∀ c ∈ scopeTokenPrefix, c ≠ '.' ∧ Snapshot.isWhiteSpace c = false := by
    simpa using List.all_eq_true.mp hall
  have hb64 : ∀ bytes, ∀ c ∈ b64Encode bytes, c ≠ '.' ∧ Snapshot.isWhiteSpace c = false := by
    intro bytes c hc
    obtain ⟨n, -, rfl⟩ := mem_map.mp hc
    exact b64Char_spec n
  rw [trim_eq_self, splitOn_intercalate _ _ (cons_ne_nil _ _)]
  · simpa using ⟨fun h => (hpre _ h).1 rfl, fun h => (hb64 _ _ h).1 rfl, fun h => (hb64 _ _ h).1 rfl⟩
  · intro c hc
    simp only [intercalate, intersperse, flatten_cons, flatten_nil, mem_append, mem_singleton,
      append_nil] at hc
    rcases hc with hc | rfl | hc | rfl | hc
    · exact (hpre c hc).2
    · decide
    · exact (hb64 _ c hc).2
    · decide
    · exact (hb64 _ c hc).2

theorem verify_mint (h : mintScopeToken E key claims = some token) (now : Nat) :
    claims.issuedAtUtc < claims.expiresAtUtc ∧ (verifyScopeToken E key token now = some claims ↔
      (E.toVec claims).length ≤ scopeTokenMaxPayloadBytes ∧ now < claims.expiresAtUtc ∧
        claims.issuedAtUtc ≤ now + scopeTokenSkewSeconds) := by
  rw [mintScopeToken] at h
  split at h
  · next hv =>
    cases h
    rw [verifyScopeToken, splitOn_token]
    refine ⟨by simp_all [ScopeClaims.validShape], ?_⟩
    simp [b64Decode_b64Encode, E.fromSlice_toVec, hv]
  · cases h

/-- A token works as long as is announced exactly when no second factor ends it earlier and its
claims are not too long. -/
theorem minted_token_lives_iff (E : Externals) (answers : Answers) (view : SessionView) (sessionHash : Text)
    (body : MintTokenBody) (jti : Text) (asked now : Nat) (key : Bytes)
    (hkey : answers.key = some key) (reply : Reply)
    (h : postScopeToken E answers view sessionHash body jti asked now = some reply) :
    (∀ t, now ≤ t → t < now + reply.expiresIn → verifyScopeToken E key reply.token t = some reply.claims) ↔
      (view.mfaRequired = true → now + ttl view body now ≤
        min view.issuedAtUtc (view.mfaVerifiedAtUtc.getD 0) + stepUpMaxAgeSeconds) ∧
      ∀ tenantId, answers.tenantId = some tenantId →
        (E.toVec (claimsOf answers view sessionHash body jti now tenantId)).length ≤
          scopeTokenMaxPayloadBytes := by
  obtain ⟨tenantId, htenant, h⟩ := bind_eq_some_iff.mp h
  dsimp only at h
  split at h
  · rw [hkey, bind_some] at h
    obtain ⟨token, hmint, rfl⟩ := map_eq_some_iff.mp h
    set claims := claimsOf answers view sessionHash body jti now tenantId
    have hends : claims.expiresAtUtc ≤ now + ttl view body now ∧
      (now + ttl view body now ≤ claims.expiresAtUtc ↔
        (view.mfaRequired = true → now + ttl view body now ≤
          min view.issuedAtUtc (view.mfaVerifiedAtUtc.getD 0) + stepUpMaxAgeSeconds)) := by
      show Sessions.scopeExpiry view body.ttlSeconds now ≤ _ ∧
        (_ ≤ Sessions.scopeExpiry view body.ttlSeconds now ↔ _)
      unfold Sessions.scopeExpiry ttl
      dsimp only
      split
      · next hmfa =>
        rw [forall_prop_of_true hmfa]
        omega
      · next hmfa => simp [hmfa]
    have hissued : claims.issuedAtUtc = now := rfl
    have honly : (∀ id, answers.tenantId = some id →
        (E.toVec (claimsOf answers view sessionHash body jti now id)).length ≤ scopeTokenMaxPayloadBytes) ↔
        (E.toVec claims).length ≤ scopeTokenMaxPayloadBytes :=
      ⟨fun hall => hall tenantId htenant, fun hs id hid => Option.some.inj (htenant.symm.trans hid) ▸ hs⟩
    dsimp only
    rw [← hends.2, honly]
    constructor
    · intro hlives
      obtain ⟨hlasts, -⟩ := verify_mint hmint now
      have hla := (verify_mint hmint _).2.mp (hlives (now + ttl view body now - 1) (by omega) (by omega))
      exact ⟨by omega, hla.1⟩
    · rintro ⟨hlong, hs⟩ t hfrom huntil
      exact (verify_mint hmint t).2.mpr ⟨hs, by omega, by omega⟩
  · cases h

end

namespace Announced

def codec : Codec ScopeClaims :=
  (((Codec.char.list.list.via toList head? fun o => by cases o <;> rfl).list).pair Codec.nat.list).via
    (fun c => ([some c.tenantId, some c.projectId, c.environmentId, c.repositoryBindingId,
      c.serviceId, c.branch, c.cnf,
      c.originSessionHash, c.mfaProofId, some c.principalId, some c.jti],
      c.issuedAtUtc :: c.expiresAtUtc :: c.elevatedUntilUtc.toList))
    (fun (texts, times) =>
      let text i := (texts[i]?).getD none
      ⟨(text 0).getD [], (text 1).getD [], text 2, text 3, text 4, text 5, text 6, text 7, text 8, times[2]?,
        (text 9).getD [], times[0]?.getD 0, times[1]?.getD 0, (text 10).getD []⟩)
    fun ⟨_, _, _, _, _, _, _, _, _, elevated, _, _, _, _⟩ => by cases elevated <;> rfl

def plain : Externals where
  hmacSha256 key message := key ++ message
  toVec := codec.put
  fromSlice := codec.decode
  fromSlice_toVec := codec.decode_put

def answers : Answers := ⟨some "t".toList, true, true, true, true, some, 1, true, some [7#8], true⟩

def view (mfaRequired : Bool) : SessionView :=
  ⟨"a".toList, none, .device, 1000, 2800, mfaRequired, some 1000, none⟩

def reply (mfaRequired : Bool) : Option Reply :=
  postScopeToken plain answers (view mfaRequired) "s".toList ⟨"p".toList, none, none, none, none,
    false, none, none⟩ "j".toList
    1000 1000

/-- Of an account with a second factor, the token is refused after five of the fifteen minutes that
are announced. -/
theorem refused_after_five_minutes : ∃ r, reply true = some r ∧ r.expiresIn = 900 ∧
    verifyScopeToken plain [7#8] r.token 1299 = some r.claims ∧
    verifyScopeToken plain [7#8] r.token 1300 = none := by
  exact ⟨_, rfl, by decide +kernel, by decide +kernel, by decide +kernel⟩

theorem works_fifteen_minutes : ∃ r, reply false = some r ∧ r.expiresIn = 900 ∧
    ∀ t, 1000 ≤ t → t < 1900 → verifyScopeToken plain [7#8] r.token t = some r.claims := by
  obtain ⟨r, hr⟩ : ∃ r, reply false = some r := ⟨_, rfl⟩
  have hlen : r.expiresIn = 900 ∧ (plain.toVec r.claims).length ≤ scopeTokenMaxPayloadBytes := by
    cases hr
    decide +kernel
  refine ⟨r, hr, hlen.1, fun t hfrom huntil => ?_⟩
  refine (minted_token_lives_iff plain answers (view false) _ _ _ 1000 1000 [7#8] rfl r hr).mpr
    ⟨nofun, ?_⟩ t hfrom
    (hlen.1 ▸ huntil)
  rintro tenantId htenant
  cases htenant
  cases hr
  exact hlen.2

end Announced

end CipherVault.Account.ScopeTokens
