import CipherVault.Crypto.Kdf
import CipherVault.Format.Records
import CipherVault.Snapshot.FastCdc

/-!
# Snapshot.Chunker

`crates/snapshot/src/chunker.rs`: the two ways a file is cut into chunks and encrypted. A `ChunkUse`
is what the key and the nonce of a chunk are derived from, its plaintext and its header; wire
objects are uses with the payload filled in.
-/

namespace CipherVault.Snapshot

open Crypto Format List

inductive SnapshotError where
  | ioError (message : String)
  | concurrentModification (path : Text)
  | unsafePath (message : String)
  | fileTooLarge (path : Text) (size : Nat)
  | integrityMismatch (path : Text) (expected actual : String)
  | missingChunk (path : Text) (chunkCid : Bytes)
  | cryptoError (e : CryptoError)
  | formatError (e : FormatError)
  | invalidInput (message : String)
deriving DecidableEq

def SnapshotError.message : SnapshotError → String
  | .ioError message => "I/O error: " ++ message
  | .concurrentModification path => "File modified during capture: " ++ String.ofList path
  | .unsafePath message => "Path traversal or unsafe path rejected: " ++ message
  | .fileTooLarge path size =>
    "File exceeds MVP size limit (256 MiB): " ++ String.ofList path ++ s!" ({size} bytes)"
  | .integrityMismatch path expected actual =>
    "Plaintext SHA-256 mismatch for " ++ String.ofList path ++ ": expected " ++ expected ++
      ", actual " ++ actual
  | .missingChunk path chunkCid => "Missing chunk " ++ hex chunkCid ++ " for file " ++ String.ofList path
  | .cryptoError e => "Crypto error: " ++ e.message
  | .formatError e => "Format error: " ++ e.message
  | .invalidInput message => "Invalid input: " ++ message

def SnapshotError.inner : SnapshotError → String
  | .cryptoError e => e.message
  | .formatError e => e.message
  | e => e.message

inductive ChunkWriteVersion where
  | legacyV1
  | v2
deriving DecidableEq

def minPaddingSize : Nat := 4096

def maxFileSize : Nat := 256 * 1024 * 1024

def computeAad (c : ChunkWireObject) : Bytes :=
  leBytes 4 c.version ++ c.vaultId ++ c.fileVersionId ++ leBytes 4 c.chunkIndex ++ leBytes 4 c.totalChunks ++
    leBytes 4 c.declaredPaddedLength ++ leBytes 8 c.keyEpoch

inductive KeyInput where
  | v1 (epochKey : Bytes) (epoch : Nat) (plaintextSha256 : Bytes)
  | v2 (domainKey vault : Bytes) (epoch : Nat) (opaqueId : Bytes)
deriving DecidableEq

inductive NonceInput where
  | v1 (fileVersionKey : Bytes) (chunkIndex : Nat) (chunkDigest : Bytes)
  | v2 (domainKey vault : Bytes) (epoch : Nat) (opaqueId : Bytes)
deriving DecidableEq

variable (P : Primitives)

def KeyInput.derive : KeyInput → Bytes
  | .v1 epochKey epoch plaintextSha256 => deriveFileVersionKey P epochKey epoch plaintextSha256
  | .v2 domainKey vault epoch opaqueId => (deriveV2ChunkKeyNonce P domainKey vault epoch opaqueId).1

def NonceInput.derive : NonceInput → Bytes
  | .v1 fileVersionKey chunkIndex chunkDigest => deriveChunkNonce P fileVersionKey chunkIndex chunkDigest
  | .v2 domainKey vault epoch opaqueId => (deriveV2ChunkKeyNonce P domainKey vault epoch opaqueId).2

structure ChunkUse where
  keyInput : KeyInput
  nonceInput : NonceInput
  raw : Bytes
  header : ChunkWireObject

def ChunkUse.key (u : ChunkUse) : Bytes := u.keyInput.derive P

def ChunkUse.nonce (u : ChunkUse) : Bytes := u.nonceInput.derive P

def ChunkUse.aad (u : ChunkUse) : Bytes := computeAad u.header

def ChunkUse.encrypt (u : ChunkUse) : ChunkWireObject :=
  { u.header with payload := encryptChunkWithNonce P (u.key P) (u.nonce P) u.raw u.aad }

structure ChunkedFile where
  (fileVersionId fileVersionKey : Bytes)
  (rawLength paddedLength : Nat)
  plaintextSha256 : Bytes
  chunks : List ChunkWireObject

def pad (plaintext : Bytes) : Bytes :=
  if plaintext.length < minPaddingSize then
    plaintext ++ replicate (minPaddingSize - plaintext.length) 0#8
  else plaintext

variable {f : Bytes}

theorem length_pad_le (h : f.length ≤ maxFileSize) : (pad f).length ≤ maxFileSize := by
  rw [pad]
  split
  · rename_i hlt
    rw [length_append, length_replicate]
    simp only [minPaddingSize, maxFileSize] at hlt ⊢
    omega
  · exact h

theorem length_pad_lt (h : (pad f).length ≤ maxFileSize) : (pad f).length < 2 ^ 32 := by
  simp only [maxFileSize] at h
  omega

theorem take_pad (f : Bytes) : (pad f).take f.length = f := by
  rw [pad]
  split
  · exact take_left
  · exact List.take_length

theorem length_le_pad (f : Bytes) : f.length ≤ (pad f).length := by
  rw [pad]
  split
  · rw [length_append]
    exact Nat.le_add_right _ _
  · exact Nat.le_refl _

def useV1 (vaultId : Bytes) (keyEpoch : Nat) (epochKey plaintext : Bytes) (total : Nat)
    (p : Bytes × Nat) : ChunkUse :=
  { keyInput := .v1 epochKey keyEpoch (P.sha256 plaintext)
    nonceInput := .v1 (deriveFileVersionKey P epochKey keyEpoch (P.sha256 plaintext)) (p.2 % 2 ^ 32)
      (P.sha256 p.1)
    raw := p.1
    header :=
      { version := protocolVersion
        vaultId := vaultId
        fileVersionId := deriveFileVersionId P vaultId keyEpoch (P.sha256 plaintext)
        chunkIndex := p.2 % 2 ^ 32
        totalChunks := total % 2 ^ 32
        declaredPaddedLength := p.1.length % 2 ^ 32
        keyEpoch := keyEpoch
        payload := [] } }

variable (config : FastCdcConfig)

def usesV1 (vaultId : Bytes) (keyEpoch : Nat) (epochKey plaintext : Bytes) : List ChunkUse :=
  (fastcdcChunk (pad plaintext) config).zipIdx.map
    (useV1 P vaultId keyEpoch epochKey plaintext (fastcdcChunk (pad plaintext) config).length)

def chunkAndEncryptFile (vaultId : Bytes) (keyEpoch : Nat)
    (epochKey plaintext : Bytes) : Except SnapshotError ChunkedFile :=
  if plaintext.length > maxFileSize then .error (.fileTooLarge "in-memory".toList plaintext.length)
  else .ok
    { fileVersionId := deriveFileVersionId P vaultId keyEpoch (P.sha256 plaintext)
      fileVersionKey := deriveFileVersionKey P epochKey keyEpoch (P.sha256 plaintext)
      rawLength := plaintext.length
      paddedLength := (pad plaintext).length
      plaintextSha256 := P.sha256 plaintext
      chunks := (usesV1 P config vaultId keyEpoch epochKey plaintext).map (ChunkUse.encrypt P) }

def useV2 (vaultId : Bytes) (keyEpoch : Nat) (domainKey raw : Bytes) : ChunkUse :=
  let opaqueId := deriveV2ChunkId P domainKey vaultId keyEpoch (P.sha256 raw)
  { keyInput := .v2 domainKey vaultId keyEpoch opaqueId
    nonceInput := .v2 domainKey vaultId keyEpoch opaqueId
    raw := raw
    header :=
      { version := chunkWireVersionV2
        vaultId := vaultId
        fileVersionId := opaqueId
        chunkIndex := 0
        totalChunks := 1
        declaredPaddedLength := raw.length % 2 ^ 32
        keyEpoch := keyEpoch
        payload := [] } }

def usesV2 (vaultId : Bytes) (keyEpoch : Nat) (epochKey plaintext : Bytes) : List ChunkUse :=
  (fastcdcChunk (pad plaintext) config).map
    (useV2 P vaultId keyEpoch (deriveV2ChunkDomainKey P epochKey vaultId keyEpoch))

def chunkAndEncryptFileV2 (vaultId : Bytes) (keyEpoch : Nat)
    (epochKey plaintext : Bytes) : Except SnapshotError ChunkedFile :=
  if plaintext.length > maxFileSize then .error (.fileTooLarge "in-memory".toList plaintext.length)
  else .ok
    { fileVersionId := deriveV2FileVersionId P (deriveV2ChunkDomainKey P epochKey vaultId keyEpoch) vaultId
        keyEpoch (P.sha256 plaintext)
      fileVersionKey := deriveV2ChunkDomainKey P epochKey vaultId keyEpoch
      rawLength := plaintext.length
      paddedLength := (pad plaintext).length
      plaintextSha256 := P.sha256 plaintext
      chunks := (usesV2 P config vaultId keyEpoch epochKey plaintext).map (ChunkUse.encrypt P) }

end CipherVault.Snapshot
