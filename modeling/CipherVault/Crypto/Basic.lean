import Mathlib.Data.BitVec

/-!
# Crypto.Basic

Bytes, the errors of `crates/crypto` that a modelled function returns, and the primitives from
outside the repository.
-/

namespace CipherVault

open Nat

namespace Crypto

abbrev Byte := BitVec 8

abbrev Bytes := List Byte

/-- A string of the source that the code looks into: a path, or a setting. -/
abbrev Text := List Char

def ascii (s : String) : Bytes := s.toList.map fun c => BitVec.ofNat 8 c.toNat

def leBytes : Nat → Nat → Bytes
  | 0, _ => []
  | width + 1, n => BitVec.ofNat 8 n :: leBytes width (n / 256)

def hexDigit (n : Nat) : Char := if n < 10 then Char.ofNat (48 + n) else Char.ofNat (87 + n)

def hex (bytes : Bytes) : String :=
  String.ofList (bytes.flatMap fun b => [hexDigit (b.toNat / 16), hexDigit (b.toNat % 16)])

inductive CryptoError where
  | authTagVerificationFailed
  | signatureVerificationFailed
  | sealedBoxPayloadTooShort (minLen : Nat)
  | nonContributoryKeyAgreement
  | thresholdError (message : String)
deriving DecidableEq, Repr

def CryptoError.message : CryptoError → String
  | .authTagVerificationFailed => "Authentication tag verification failed: ciphertext or AAD tampered"
  | .signatureVerificationFailed => "Cryptographic signature verification failed"
  | .sealedBoxPayloadTooShort minLen => s!"Sealed box payload too short: minimum length {minLen}"
  | .nonContributoryKeyAgreement =>
    "Sealed box key agreement rejected a non-contributory X25519 public key"
  | .thresholdError message => "Threshold secret sharing error: " ++ message

/-- The functions of `sha2`, `blake2`, `hkdf`, `chacha20poly1305`, `ed25519-dalek` and
`x25519-dalek` that the repository calls. -/
structure Primitives where
  (sha256 blake2b512 : Bytes → Bytes)
  /-- Salt, input key, info and output length. -/
  hkdfSha256 : Bytes → Bytes → Bytes → Nat → Bytes
  /-- Key, nonce, plaintext and associated data. -/
  xchachaEncrypt : Bytes → Bytes → Bytes → Bytes → Bytes
  /-- Key, nonce, ciphertext with tag and associated data. -/
  xchachaDecrypt : Bytes → Bytes → Bytes → Bytes → Option Bytes
  /-- The verifying key of a signing key. -/
  ed25519Public : Bytes → Bytes
  ed25519Sign : Bytes → Bytes → Bytes
  /-- Key, message and signature; false also when the key is no point of the curve. -/
  ed25519Verify : Bytes → Bytes → Bytes → Bool
  x25519Public : Bytes → Bytes
  /-- Secret and public key; none when the exchange is not contributory. -/
  x25519 : Bytes → Bytes → Option Bytes

theorem length_leBytes (width : Nat) : ∀ n, (leBytes width n).length = width := by
  induction width with
  | zero => intro n; rfl
  | succ width ih => intro n; rw [leBytes, List.length_cons, ih]

theorem leBytes_inj (width : Nat) : ∀ m n : Nat, leBytes width m = leBytes width n →
    m % 256 ^ width = n % 256 ^ width := by
  induction width with
  | zero => intro m n _; rw [pow_zero, mod_one, mod_one]
  | succ width ih =>
    intro m n h
    rw [leBytes, leBytes, List.cons.injEq] at h
    have hlow : m % 256 = n % 256 := by
      have h' := congrArg BitVec.toNat h.1
      simpa using h'
    have hhigh := ih (m / 256) (n / 256) h.2
    rw [pow_succ', mod_mul, mod_mul, hlow, hhigh]

end Crypto
end CipherVault
