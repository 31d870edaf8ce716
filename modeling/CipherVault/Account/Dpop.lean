import CipherVault.Base.Dict
import CipherVault.Base.Frames
import CipherVault.Base.Runs
import CipherVault.Network.Invites

/-!
# Account.Dpop

`services/account/src/dpop.rs`: proofs of possession for scope tokens bound to a key. The signature
covers the decoded timestamp and nonce, the replay table the text of the header; one pair has many
texts.
-/

namespace CipherVault.Account.Dpop

open Crypto Format Network Nat Dict List

def b64Value (c : Char) : Option Nat :=
  if 65 ≤ c.toNat ∧ c.toNat ≤ 90 then some (c.toNat - 65)
  else if 97 ≤ c.toNat ∧ c.toNat ≤ 122 then some (c.toNat - 71)
  else if 48 ≤ c.toNat ∧ c.toNat ≤ 57 then some (c.toNat + 4)
  else if c = '-' then some 62
  else if c = '_' then some 63
  else none

/-- `URL_SAFE_NO_PAD`: no padding, and the bits that the last character has too many are zero. -/
def decodeNoPad : Text → Option Bytes
  | a :: b :: c :: d :: rest => do
    let bits := (← b64Value a) * 2 ^ 18 + (← b64Value b) * 2 ^ 12 + (← b64Value c) * 2 ^ 6 + (← b64Value d)
    some (.ofNat 8 (bits / 2 ^ 16) :: .ofNat 8 (bits / 2 ^ 8) :: .ofNat 8 bits :: (← decodeNoPad rest))
  | [a, b, c] => do
    let bits := (← b64Value a) * 2 ^ 12 + (← b64Value b) * 2 ^ 6 + (← b64Value c)
    if bits % 4 = 0 then some [.ofNat 8 (bits / 2 ^ 10), .ofNat 8 (bits / 2 ^ 2)] else none
  | [a, b] => do
    let bits := (← b64Value a) * 2 ^ 6 + (← b64Value b)
    if bits % 16 = 0 then some [.ofNat 8 (bits / 2 ^ 4)] else none
  | [_] => none
  | [] => some []

/-- `URL_SAFE`: padded to a multiple of four characters. -/
def decodePadded (text : Text) : Option Bytes :=
  let body := trimEndMatches text
  if text.length % 4 = 0 ∧ text.length - body.length ≤ 2 then decodeNoPad body else none
where
  trimEndMatches (text : Text) : Text := (text.reverse.dropWhile (· = '=')).reverse

def b64Decode (text : Text) : Option Bytes := (decodeNoPad text).or (decodePadded text)

def parseU64 (text : Text) : Option Nat :=
  let digits := match text with
    | '+' :: rest => rest
    | _ => text
  if digits = [] ∨ digits.any (fun c => c.toNat < 48 ∨ 57 < c.toNat) then none
  else
    let n := digits.foldl (fun n c => 10 * n + (c.toNat - 48)) 0
    if n < 2 ^ 64 then some n else none

structure ScopeClaims where
  (jti tenantId : Text)
  cnf : Option Text
deriving DecidableEq

inductive DpopError where
  | missing
  | invalid
  | expired
  | replay

def dpopWindowSeconds : Nat := 60

def dpopRetentionSeconds : Nat := 300

def dpopContext : Bytes := ascii "dpop-v1"

def dpopMessage (timestampSecs : Nat) (nonce : Bytes) (jti tenantId : Text) : Bytes :=
  Frames.beBytes 8 timestampSecs ++ nonce ++ utf8 jti ++ utf8 tenantId

structure Proof where
  signature : Bytes
  timestamp : Nat
  nonce : Bytes

/-- The header taken apart and its fields decoded; the window is checked before the other two
fields. -/
def parseProof (raw : Text) (now : Nat) : Except DpopError Proof :=
  match (trim raw).splitOn '.' with
  | [sigB64, tsRaw, nonceB64] =>
    match parseU64 tsRaw with
    | none => .error .invalid
    | some timestamp =>
      if max now timestamp - min now timestamp > dpopWindowSeconds then .error .expired
      else
        match b64Decode sigB64, b64Decode nonceB64 with
        | some signature, some nonce =>
          if signature.length ≠ 64 ∨ nonce = [] ∨ nonce.length > 64 then .error .invalid
          else .ok { signature := signature, timestamp := timestamp, nonce := nonce }
        | _, _ => .error .invalid
  | _ => .error .invalid

abbrev DpopProofs := Dict Text Nat

variable (E : Externals)

def proofHash (raw : Text) : Text := Hex.encode (E.sha256 (utf8 (trim raw)))

/-- The checks of `verify_dpop` for a token that is bound to the key, up to the replay table. -/
def checkProof (claims : ScopeClaims) (cnf raw : Text) (now : Nat) : Except DpopError Proof := do
  if trim raw = [] then .error .missing
  else do
    let proof ← parseProof raw now
    match Hex.decode cnf with
    | none => .error .invalid
    | some key =>
      if key.length ≠ 32 then .error .invalid
      else do
        (verifyWithDomain E key dpopContext
          (dpopMessage proof.timestamp proof.nonce claims.jti claims.tenantId)
          proof.signature).mapError fun _ => .invalid
        .ok proof

/-- The proof that is used up, none for a token that is not bound; the header is empty where there
is none. -/
def verifyDpop (proofs : DpopProofs) (claims : ScopeClaims) (raw : Text) (now : Nat) :
    Except DpopError (Option Proof) × DpopProofs :=
  match claims.cnf with
  | none => (.ok none, proofs)
  | some cnf =>
    match checkProof E claims cnf raw now with
    | .error e => (.error e, proofs)
    | .ok proof =>
      let kept := retain (fun _ expires => now < expires) proofs
      match kept.lookup (proofHash E raw) with
      | some _ => (.error .replay, kept)
      | none => (.ok (some proof), kept.insert (proofHash E raw) (proof.timestamp + dpopRetentionSeconds))

structure Request where
  elapsed : Nat
  claims : ScopeClaims
  raw : Text

/-- A proof that was accepted: the token, the signed pair, and the text that it came in. -/
structure Use where
  claims : ScopeClaims
  timestamp : Nat
  nonce : Bytes
  text : Text

structure State where
  proofs : DpopProofs
  clock : Nat
  used : List Use

def step (s : State) (request : Request) : State :=
  let now := s.clock + request.elapsed
  match verifyDpop E s.proofs request.claims request.raw now with
  | (.ok (some proof), proofs) =>
    { proofs := proofs, clock := now
      used := ⟨request.claims, proof.timestamp, proof.nonce, trim request.raw⟩ :: s.used }
  | (_, proofs) => { s with proofs := proofs, clock := now }

def init : State := { proofs := ∅, clock := 0, used := [] }

def run (requests : List Request) : State := requests.foldl (step E) init

/-- No proof was used twice. -/
def UsedOnce (s : State) : Prop := (s.used.map fun u => (u.claims, u.timestamp, u.nonce)).Nodup

instance (s : State) : Decidable (UsedOnce s) := inferInstanceAs (Decidable (List.Nodup _))

/-- A pair that was accepted for the token comes again only in the same text. -/
def SameText (s : State) (request : Request) : Prop :=
  ∀ u ∈ s.used, u.claims = request.claims →
    (∀ proof, parseProof request.raw (s.clock + request.elapsed) = .ok proof →
      proof.timestamp = u.timestamp → proof.nonce = u.nonce → trim request.raw = u.text)

instance (s : State) (request : Request) : Decidable (SameText s request) := by
  unfold SameText
  cases parseProof request.raw (s.clock + request.elapsed) with
  | error e => exact .isTrue (fun _ _ _ _ h => by cases h)
  | ok proof =>
    refine decidable_of_iff (∀ u ∈ s.used, u.claims = request.claims → proof.timestamp = u.timestamp →
      proof.nonce = u.nonce → trim request.raw = u.text) ?_
    simp

variable {E : Externals} {raw : Text} {now : Nat} {proof : Proof} {s : State}

theorem parseProof_of_checkProof {claims : ScopeClaims} {cnf : Text}
    (h : checkProof E claims cnf raw now = .ok proof) :
    parseProof raw now = .ok proof := by
  obtain ⟨-, h⟩ := ite_error_eq_ok.mp h
  obtain ⟨proof', hparse, h⟩ := bind_eq_ok.mp h
  split at h
  · cases h
  · obtain ⟨-, h⟩ := ite_error_eq_ok.mp h
    obtain ⟨_, -, h⟩ := bind_eq_ok.mp h
    cases h
    exact hparse

theorem window_of_parseProof (h : parseProof raw now = .ok proof) :
    now ≤ proof.timestamp + dpopWindowSeconds := by
  unfold parseProof at h
  split at h
  · split at h
    · cases h
    · obtain ⟨hwindow, h⟩ := ite_error_eq_ok.mp h
      split at h
      · obtain ⟨-, h⟩ := ite_error_eq_ok.mp h
        cases h
        dsimp only
        omega
      · cases h
  · cases h

theorem verifyDpop_cases (E : Externals) (proofs : DpopProofs) (claims : ScopeClaims) (raw : Text)
    (now : Nat) :
    (∃ proof, verifyDpop E proofs claims raw now = (.ok (some proof),
        (retain (fun _ expires => now < expires) proofs).insert (proofHash E raw)
          (proof.timestamp + dpopRetentionSeconds)) ∧ parseProof raw now = .ok proof ∧
      (retain (fun _ expires => now < expires) proofs).lookup (proofHash E raw) = none) ∨
    ∃ outcome, outcome.toOption.join = none ∧ (verifyDpop E proofs claims raw now = (outcome, proofs) ∨
        verifyDpop E proofs claims raw now = (outcome, retain (fun _ expires => now < expires) proofs)) := by
  unfold verifyDpop
  cases claims.cnf with
  | none => exact .inr ⟨.ok none, rfl, .inl rfl⟩
  | some cnf =>
    dsimp only
    cases hc : checkProof E claims cnf raw now with
    | error e => exact .inr ⟨.error e, rfl, .inl rfl⟩
    | ok proof =>
      cases hl : (retain (fun _ expires => now < expires) proofs).lookup (proofHash E raw) with
      | some _ => exact .inr ⟨.error .replay, rfl, .inr rfl⟩
      | none => exact .inl ⟨proof, rfl, parseProof_of_checkProof hc, rfl⟩

/-- The hash of a proof that was used stays in the table for as long as the retention says. -/
structure Inv (E : Externals) (s : State) : Prop where
  kept : ∀ u ∈ s.used, s.clock < u.timestamp + dpopRetentionSeconds →
    ∃ expires, s.proofs.lookup (Hex.encode (E.sha256 (utf8 u.text))) = some expires ∧
      u.timestamp + dpopRetentionSeconds ≤ expires
  once : UsedOnce s

theorem kept_retain (hs : Inv E s) (hnow : s.clock ≤ now) :
    ∀ u ∈ s.used, now < u.timestamp + dpopRetentionSeconds →
      ∃ expires, (retain (fun _ expires => now < expires) s.proofs).lookup
        (Hex.encode (E.sha256 (utf8 u.text))) =
        some expires ∧ u.timestamp + dpopRetentionSeconds ≤ expires := by
  intro u hu hli
  obtain ⟨expires, hl, hle⟩ := hs.kept u hu (by omega)
  refine ⟨expires, lookup_retain_eq_some.mpr ⟨hl, ?_⟩, hle⟩
  exact decide_eq_true (by omega)

theorem inv_step {request : Request} (hsame : SameText s request) (hs : Inv E s) :
    Inv E (step E s request) := by
  have hk := kept_retain hs (le_add_right s.clock request.elapsed)
  unfold step
  rcases verifyDpop_cases E s.proofs request.claims request.raw (s.clock + request.elapsed) with
    ⟨proof, hver, hparse, hfr⟩ | ⟨outcome, hn, hver | hver⟩
  · simp only [hver]
    constructor
    · intro u hu hli
      rcases mem_cons.mp hu with rfl | hu
      · exact ⟨_, lookup_insert _, le_refl _⟩
      · obtain ⟨expires, hl, hle⟩ := hk u hu hli
        refine ⟨expires, ?_, hle⟩
        -- an entry that is kept is not the one that was free
        rw [lookup_insert_ne ?_]
        · exact hl
        · intro heq
          rw [heq, hfr] at hl
          cases hl
    · refine List.nodup_cons.mpr ⟨?_, hs.once⟩
      intro hmem
      obtain ⟨u, hu, heq⟩ := mem_map.mp hmem
      obtain ⟨hclaims, htim, hno⟩ : u.claims = request.claims ∧ u.timestamp = proof.timestamp ∧
          u.nonce = proof.nonce := by
        simpa using heq
      -- the earlier use is still in the window, and so in the table, under this very text
      have hwindow : s.clock + request.elapsed ≤ proof.timestamp + 60 := window_of_parseProof hparse
      have htext := hsame u hu hclaims proof hparse htim.symm hno.symm
      obtain ⟨expires, hl, -⟩ := hk u hu (by simp only [htim, dpopRetentionSeconds]; omega)
      rw [← htext] at hl
      cases hfr.symm.trans hl
  all_goals
    have hst : ∀ proof, outcome ≠ .ok (some proof) := by
      rintro proof rfl
      cases hn
    simp only [hver]
  · exact ⟨fun u hu hli => hs.kept u hu (lt_of_le_of_lt (le_add_right _ _) hli), hs.once⟩
  · exact ⟨hk, hs.once⟩

theorem inv_init (E : Externals) : Inv E init := by
  constructor
  · nofun
  · exact nodup_nil

/-- Over every run in which an accepted pair comes again only in its text, it is accepted once. -/
theorem proofs_used_once (E : Externals) (requests : List Request)
    (hsame : Runs.Along (step E) SameText init requests) :
    UsedOnce (run E requests) :=
  (hsame.keeps (fun _ _ hsame hs => inv_step hsame hs) (inv_init E)).once

/-- The reference primitives, with one signature that every key accepts. -/
def oneSignature : Externals :=
  { reference with ed25519Verify := fun _ _ signature => signature == replicate 64 0 }

def bound : ScopeClaims :=
  { jti := "t1".toList, tenantId := "acme".toList, cnf := some (replicate 64 '0') }

def proofText (timestamp : String) : Text := replicate 86 'A' ++ '.' :: timestamp.toList ++ ".AAAA".toList

/-- The timestamp with a leading zero is another text for the same pair: both requests are accepted.
-/
theorem respelled_proof_accepted_twice :
    ¬UsedOnce (run oneSignature [⟨100, bound, proofText "100"⟩, ⟨0, bound, proofText "0100"⟩]) := by
  decide +kernel

theorem proofs_used_once_same_text :
    UsedOnce (run oneSignature [⟨100, bound, proofText "100"⟩, ⟨1, bound, proofText "100"⟩,
      ⟨0, bound, proofText "101"⟩]) :=
  proofs_used_once oneSignature _ (by decide +kernel)

end CipherVault.Account.Dpop
