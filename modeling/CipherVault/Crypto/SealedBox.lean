import CipherVault.Crypto.Kdf

/-!
# Crypto.SealedBox

`crates/crypto/src/sealed_box.rs`. The ephemeral secret that `seal_box` draws is an argument.
-/

namespace CipherVault.Crypto

def deriveBoxSealKeyAndNonce (P : Primitives) (ephemeralPk recipientPk sharedSecret : Bytes) :
    Bytes × Bytes :=
  let hash := P.blake2b512 (ascii "CipherVault-BoxSeal-v1" ++ ephemeralPk ++ recipientPk ++ sharedSecret)
  (hash.take 32, (hash.drop 32).take 24)

/-- An ephemeral key agreement, then an authenticated encryption. -/
def sealBox (P : Primitives) (ephemeralSk recipientPk plaintext : Bytes) : Except CryptoError Bytes :=
  match P.x25519 ephemeralSk recipientPk with
  | none => .error .nonContributoryKeyAgreement
  | some sharedSecret =>
    let (key, nonce) := deriveBoxSealKeyAndNonce P (P.x25519Public ephemeralSk) recipientPk sharedSecret
    .ok (P.x25519Public ephemeralSk ++ P.xchachaEncrypt key nonce plaintext (ascii "CipherVault-SealedBox"))

end CipherVault.Crypto
