import CipherVault.Crypto.Basic

/-!
# Crypto.Kdf

The key derivations of `crates/crypto/src/kdf.rs` and `chunk_v2.rs`, and the encryption of `aead.rs`
with its nonce.
-/

namespace CipherVault.Crypto

variable (P : Primitives)

def deriveSubkey (masterKey : Bytes) (subkeyId : Nat) (ctx : Bytes) : Bytes :=
  (P.blake2b512 (ascii "CipherVault-KDF-v1" ++ ctx ++ leBytes 8 subkeyId ++ masterKey)).take 32

def deriveManifestKey (epochKey : Bytes) (epoch : Nat) : Bytes :=
  deriveSubkey P epochKey epoch (ascii "CV_MANIF")

def deriveFileVersionKey (masterKey : Bytes) (epoch : Nat) (plaintextSha256 : Bytes) : Bytes :=
  (P.blake2b512 (ascii "CipherVault-KDF-v1" ++ ascii "CV_FVERS" ++ leBytes 8 epoch ++ masterKey ++
    plaintextSha256)).take 32

def deriveChunkNonce (fileVersionKey : Bytes) (chunkIndex : Nat) (chunkDigest : Bytes) : Bytes :=
  (P.blake2b512 (ascii "CipherVault-KDF-v1" ++ ascii "CV_CNONC" ++ leBytes 4 chunkIndex ++ fileVersionKey ++
    chunkDigest)).take 24

def deriveFileVersionId (vaultId : Bytes) (epoch : Nat) (plaintextSha256 : Bytes) : Bytes :=
  (P.blake2b512 (ascii "CipherVault-FileVersionID-v1" ++ vaultId ++ leBytes 8 epoch ++
    plaintextSha256)).take 32

def expand (length : Nat) (secret domain vault : Bytes) (epoch : Nat) (binding : Bytes) : Bytes :=
  P.hkdfSha256 (ascii "CipherVault-ChunkWire-v2/HKDF-SHA256") secret
    (leBytes 2 domain.length ++ domain ++ vault ++ leBytes 8 epoch ++ binding) length

def deriveV2ChunkDomainKey (epochKey vault : Bytes) (epoch : Nat) : Bytes :=
  expand P 32 epochKey (ascii "chunk-domain-key") vault epoch (List.replicate 32 0#8)

def deriveV2FileVersionId (domainKey vault : Bytes) (epoch : Nat) (digest : Bytes) : Bytes :=
  expand P 32 domainKey (ascii "opaque-file-id") vault epoch digest

def deriveV2ChunkId (domainKey vault : Bytes) (epoch : Nat) (digest : Bytes) : Bytes :=
  expand P 32 domainKey (ascii "opaque-chunk-id") vault epoch digest

def deriveV2ChunkKeyNonce (domainKey vault : Bytes) (epoch : Nat) (opaqueId : Bytes) : Bytes × Bytes :=
  (expand P 32 domainKey (ascii "chunk-aead-key") vault epoch opaqueId,
    expand P 24 domainKey (ascii "chunk-aead-nonce") vault epoch opaqueId)

def encryptChunkWithNonce (key nonce plaintext aad : Bytes) : Bytes :=
  nonce ++ P.xchachaEncrypt key nonce plaintext aad

def decryptChunk (key payload aad : Bytes) : Except CryptoError Bytes :=
  if payload.length < 24 + 16 then .error .authTagVerificationFailed
  else match P.xchachaDecrypt key (payload.take 24) (payload.drop 24) aad with
    | none => .error .authTagVerificationFailed
    | some plaintext => .ok plaintext

end CipherVault.Crypto
