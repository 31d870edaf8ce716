import CipherVault.Format.Lawful
import CipherVault.Snapshot.Engine

/-!
# Snapshot.RoundTrip

What `createSnapshot` writes, `decryptSnapshot` reads: by chunk, by file and for the snapshot as a
whole.
-/

namespace CipherVault.Snapshot

open Crypto Format List Nat

/-- The encryption is undone by the decryption, and outputs have the length that was asked for. -/
structure Faithful (P : Primitives) : Prop where
  decrypt_encrypt : ∀ key nonce plaintext aad,
    P.xchachaDecrypt key nonce (P.xchachaEncrypt key nonce plaintext aad) aad = some plaintext
  encrypt_length : ∀ key nonce plaintext aad, (P.xchachaEncrypt key nonce plaintext aad).length =
    plaintext.length + 16
  blake_length : ∀ input, (P.blake2b512 input).length = 64
  hkdf_length : ∀ salt secret info length, (P.hkdfSha256 salt secret info length).length = length

variable {nonce : Bytes}

section

variable {P : Primitives}

theorem Faithful.decryptChunk (hP : Faithful P) (key plaintext aad : Bytes) (hnonce : nonce.length = 24) :
    decryptChunk P key (encryptChunkWithNonce P key nonce plaintext aad) aad = .ok plaintext := by
  have hlen : (nonce ++ P.xchachaEncrypt key nonce plaintext aad).length = 24 + (plaintext.length + 16) := by
    rw [length_append, hnonce, hP.encrypt_length]
  rw [Crypto.decryptChunk, encryptChunkWithNonce, if_neg (by omega)]
  rw [← hnonce, take_left, drop_left, hP.decrypt_encrypt]

theorem Faithful.length_take {n : Nat} (hP : Faithful P) (input : Bytes) (h : n ≤ 64) :
    ((P.blake2b512 input).take n).length = n := by
  rw [List.length_take, hP.blake_length]
  omega

end

variable {E : Externals} {settings : Settings} {vaultId : Bytes} {epoch : Nat} {ctx : DecryptContext}

section

variable {epochKey contents : Bytes} {chunked : ChunkedFile} {entry : ManifestFileEntry}

/-- The reader has the keys and the chunks. -/
structure Readable (E : Externals) (vaultId epochKey : Bytes) (epoch : Nat) (chunks : List ChunkWireObject)
    (ctx : DecryptContext) : Prop where
  vault : ctx.vaultId = vaultId
  keyEpoch : ctx.epoch = epoch
  domain : ctx.domainKey = deriveV2ChunkDomainKey E.toPrimitives epochKey vaultId epoch
  found : ∀ chunk ∈ chunks, ∀ cid, chunk.computeCid E = .ok cid → ctx.index.lookup cid = some chunk

/-- What a file is cut into, and that each piece is read back from its chunk. -/
structure Cuts (E : Externals) (vaultId epochKey contents : Bytes) (epoch : Nat) (chunked : ChunkedFile)
    (version : Nat) (uses : List ChunkUse) : Prop where
  chunks : chunked.chunks = uses.map (ChunkUse.encrypt E.toPrimitives)
  whole : (uses.map ChunkUse.raw).flatten = pad contents
  header : ∀ u ∈ uses, u.header.version = version ∧ u.header.vaultId = vaultId ∧ u.header.keyEpoch = epoch ∧
    u.header.fileVersionId.length = 32 ∧ u.raw.length = u.header.declaredPaddedLength
  opens : ∀ ctx entry, ctx.vaultId = vaultId → ctx.epoch = epoch →
    ctx.domainKey = deriveV2ChunkDomainKey E.toPrimitives epochKey vaultId epoch →
    entry.fileVersionId = chunked.fileVersionId → entry.fileVersionKey = chunked.fileVersionKey →
    entry.chunkCids.length = uses.length → ∀ (i : Nat) u, uses[i]? = some u →
      decryptWire E ctx entry i (u.encrypt E.toPrimitives) = .ok u.raw

/-- What the chunker says of the contents that it cut. -/
structure Describes (E : Externals) (vaultId epochKey contents : Bytes) (epoch : Nat) (chunked : ChunkedFile)
    (version : Nat) : Prop where
  size : contents.length ≤ maxFileSize
  rawLength : chunked.rawLength = contents.length
  paddedLength : chunked.paddedLength = (pad contents).length
  digest : chunked.plaintextSha256 = E.sha256 contents
  keyLength : chunked.fileVersionKey.length = 32
  versionId : version = chunkWireVersionV2 → chunked.fileVersionId = deriveV2FileVersionId E.toPrimitives
    (deriveV2ChunkDomainKey E.toPrimitives epochKey vaultId epoch) vaultId epoch (E.sha256 contents)

theorem length_piece_le {piece : Bytes} {pieces : List Bytes} (h : piece ∈ pieces) :
    piece.length ≤ pieces.flatten.length := (sublist_flatten_of_mem h).length_le

variable {u : ChunkUse} {i version : Nat} {config : FastCdcConfig} {chunk : ChunkWireObject}

section

variable (hP : Faithful E.toPrimitives)
include hP

theorem decryptLegacy_encrypt (hkey : u.key E.toPrimitives = entry.fileVersionKey)
    (hnonce : (u.nonce E.toPrimitives).length = 24) (hid : u.header.fileVersionId = entry.fileVersionId)
    (hindex : u.header.chunkIndex = i) (htotal : u.header.totalChunks = entry.chunkCids.length) :
    decryptLegacy E entry i (u.encrypt E.toPrimitives) = .ok u.raw := by
  rw [decryptLegacy, if_neg, mapError_eq_ok, ← hkey]
  · exact hP.decryptChunk _ _ _ hnonce
  · rintro (hne | hne | hne)
    · exact hne hid
    · exact hne hindex
    · exact hne htotal

theorem decryptV2_encrypt (hindex : u.header.chunkIndex = 0) (htotal : u.header.totalChunks = 1)
    (hdomain : entry.fileVersionKey = ctx.domainKey)
    (hderive : deriveV2ChunkKeyNonce E.toPrimitives ctx.domainKey ctx.vaultId ctx.epoch
      u.header.fileVersionId = (u.key E.toPrimitives, u.nonce E.toPrimitives))
    (hid : deriveV2ChunkId E.toPrimitives ctx.domainKey ctx.vaultId ctx.epoch (E.sha256 u.raw) =
      u.header.fileVersionId)
    (hnonce : (u.nonce E.toPrimitives).length = 24) :
    decryptV2 E ctx entry (u.encrypt E.toPrimitives) = .ok u.raw := by
  have hhd : ¬ ((u.encrypt E.toPrimitives).chunkIndex ≠ 0 ∨ (u.encrypt E.toPrimitives).totalChunks ≠ 1 ∨
      entry.fileVersionKey ≠ ctx.domainKey) := by
    rintro (hne | hne | hne)
    · exact hne hindex
    · exact hne htotal
    · exact hne hdomain
  have hpay : ¬ ((u.encrypt E.toPrimitives).payload.length < 24 ∨
      (u.encrypt E.toPrimitives).payload.take 24 ≠ u.nonce E.toPrimitives) := by
    rintro (hlt | hne)
    · rw [ChunkUse.encrypt, encryptChunkWithNonce, length_append] at hlt
      omega
    · rw [ChunkUse.encrypt, encryptChunkWithNonce, ← hnonce] at hne
      exact hne take_left
  have hplain : decryptChunk E.toPrimitives (u.key E.toPrimitives) (u.encrypt E.toPrimitives).payload
      (computeAad (u.encrypt E.toPrimitives)) = .ok u.raw := hP.decryptChunk _ _ _ hnonce
  have hder' : deriveV2ChunkKeyNonce E.toPrimitives ctx.domainKey ctx.vaultId ctx.epoch
      (u.encrypt E.toPrimitives).fileVersionId = (u.key E.toPrimitives, u.nonce E.toPrimitives) := hderive
  rw [decryptV2, if_neg hhd, hder']
  simp only
  rw [if_neg hpay, hplain]
  exact if_neg (not_not.mpr hid)

theorem chunkAndEncryptFile_cuts (hmax : 0 < config.maxSize)
    (h : chunkAndEncryptFile E.toPrimitives config vaultId epoch epochKey contents = .ok chunked) :
    Describes E vaultId epochKey contents epoch chunked protocolVersion ∧
      Cuts E vaultId epochKey contents epoch chunked protocolVersion
        (usesV1 E.toPrimitives config vaultId epoch epochKey contents) := by
  rw [chunkAndEncryptFile, ite_error_eq_ok] at h
  obtain ⟨hs, h⟩ := h
  cases h
  have hs := not_lt.mp hs
  have hpad := length_pad_lt (length_pad_le hs)
  have hwhole := flatten_fastcdcChunk hmax (pad contents)
  have hc : (fastcdcChunk (pad contents) config).length < 2 ^ 32 :=
    lt_of_le_of_lt (length_fastcdcChunk_le _ _) hpad
  refine ⟨⟨hs, rfl, rfl, rfl, hP.length_take _ (by decide), fun h => absurd h (by decide)⟩, rfl, ?_, ?_, ?_⟩
  · rw [usesV1, List.map_map]
    have hraw : (ChunkUse.raw ∘ useV1 E.toPrimitives vaultId epoch epochKey contents
        (fastcdcChunk (pad contents) config).length) = Prod.fst := rfl
    rw [hraw, zipIdx_map_fst, hwhole]
  · intro u hu
    obtain ⟨⟨raw, i⟩, hp, rfl⟩ := mem_map.mp hu
    have hraw : raw.length ≤ (pad contents).length := hwhole ▸ length_piece_le (fst_mem_of_mem_zipIdx hp)
    refine ⟨rfl, rfl, rfl, hP.length_take _ (by decide), ?_⟩
    exact (mod_eq_of_lt (lt_of_le_of_lt hraw hpad)).symm
  · intro ctx entry hva hep _ hid hkey hlen i u hu
    rw [usesV1, getElem?_map, getElem?_zipIdx] at hu
    obtain ⟨p, hp, rfl⟩ := Option.map_eq_some_iff.mp hu
    obtain ⟨raw, hraw, rfl⟩ := Option.map_eq_some_iff.mp hp
    have hi : i < 2 ^ 32 := lt_trans (List.getElem?_eq_some_iff.mp hraw).1 hc
    rw [usesV1, length_map, length_zipIdx] at hlen
    have hlegacy : ∀ chunk : ChunkWireObject, chunk.version = protocolVersion →
        decryptWire E ctx entry i chunk = decryptLegacy E entry i chunk :=
          fun chunk hv => by rw [decryptWire, if_pos hv]
    refine decryptLegacy_encrypt hP hkey.symm (hP.length_take _ (by decide)) hid.symm ?_ ?_
    · exact (mod_eq_of_lt (by omega)).trans (zero_add i)
    · exact (mod_eq_of_lt hc).trans hlen.symm

theorem chunkAndEncryptFileV2_cuts (hmax : 0 < config.maxSize)
    (h : chunkAndEncryptFileV2 E.toPrimitives config vaultId epoch epochKey contents = .ok chunked) :
    Describes E vaultId epochKey contents epoch chunked chunkWireVersionV2 ∧
      Cuts E vaultId epochKey contents epoch chunked chunkWireVersionV2
        (usesV2 E.toPrimitives config vaultId epoch epochKey contents) := by
  rw [chunkAndEncryptFileV2, ite_error_eq_ok] at h
  obtain ⟨hs, h⟩ := h
  cases h
  have hs := not_lt.mp hs
  have hpad := length_pad_lt (length_pad_le hs)
  have hwhole := flatten_fastcdcChunk hmax (pad contents)
  refine ⟨⟨hs, rfl, rfl, rfl, hP.hkdf_length _ _ _ _, fun _ => rfl⟩, rfl, ?_, ?_, ?_⟩
  · rw [usesV2, List.map_map]
    have hraw : (ChunkUse.raw ∘ useV2 E.toPrimitives vaultId epoch
        (deriveV2ChunkDomainKey E.toPrimitives epochKey vaultId epoch)) = id := rfl
    rw [hraw, map_id, hwhole]
  · intro u hu
    obtain ⟨raw, hp, rfl⟩ := mem_map.mp hu
    have hraw : raw.length ≤ (pad contents).length := hwhole ▸ length_piece_le hp
    refine ⟨rfl, rfl, rfl, hP.hkdf_length _ _ _ _, ?_⟩
    exact (mod_eq_of_lt (lt_of_le_of_lt hraw hpad)).symm
  · intro ctx entry hva hep hdomain _ hkey _ i u hu
    rw [usesV2, getElem?_map] at hu
    obtain ⟨raw, _, rfl⟩ := Option.map_eq_some_iff.mp hu
    have hcur : ∀ chunk : ChunkWireObject, chunk.version = chunkWireVersionV2 →
        decryptWire E ctx entry i chunk = decryptV2 E ctx entry chunk := fun chunk hv => by
      rw [decryptWire, hv, if_neg (by decide), if_pos rfl]
    refine decryptV2_encrypt hP rfl rfl (hkey.trans hdomain.symm) ?_ ?_ (hP.hkdf_length _ _ _ _)
    · rw [hdomain, hva, hep]
      rfl
    · rw [hdomain, hva, hep]
      rfl

theorem chunkFile_cuts (hmax : 0 < settings.config.maxSize)
    (h : chunkFile E settings vaultId epoch epochKey contents = .ok chunked) :
    ∃ version uses, Describes E vaultId epochKey contents epoch chunked version ∧
      Cuts E vaultId epochKey contents epoch chunked version uses := by
  rw [chunkFile] at h
  split at h
  · exact ⟨_, _, chunkAndEncryptFile_cuts hP hmax h⟩
  · exact ⟨_, _, chunkAndEncryptFileV2_cuts hP hmax h⟩

end

/-- One chunk that is found and opens to its piece. -/
structure Piece (E : Externals) (ctx : DecryptContext) (entry : ManifestFileEntry) (version position : Nat)
    (cid : Bytes) (raw : Bytes) (chunk : ChunkWireObject) : Prop where
  found : findChunk ctx entry cid = .ok chunk
  version_eq : chunk.version = version
  opens : decryptWire E ctx entry position chunk = .ok raw
  length : raw.length = chunk.declaredPaddedLength

variable {cid : Bytes} {cids : List Bytes} {path : Text}

theorem Piece.assemble {raw : Bytes} {acc : Assembly}
    (h : Piece E ctx entry version acc.position cid raw chunk)
    (hversion : ∀ v, acc.wireVersion = some v → v = version)
    (hroom : acc.padded.length + raw.length ≤ entry.paddedLength) : assembleChunk E ctx entry acc cid =
      .ok { position := acc.position + 1, padded := acc.padded ++ raw, wireVersion := some version } := by
  have hmixed : acc.wireVersion.any (· != chunk.version) = false := by
    rw [h.version_eq]
    cases hwire : acc.wireVersion with
    | none => rfl
    | some v => simp [hversion v hwire]
  have hlen : ¬ (raw.length ≠ chunk.declaredPaddedLength ∨
    acc.padded.length + raw.length > entry.paddedLength) := by
    rintro (hne | hgt)
    · exact hne h.length
    · omega
  rw [assembleChunk, h.found]
  simp only [ok_bind]
  rw [hmixed, if_neg Bool.false_ne_true, h.opens]
  simp only [ok_bind]
  rw [if_neg hlen, h.version_eq]
  rfl

theorem foldlM_assembleChunk :
    ∀ {raws : List Bytes} {acc : Assembly}, (∀ (i : Nat) cid, cids[i]? = some cid →
      ∃ raw chunk, raws[i]? = some raw ∧
        Piece E ctx entry version (acc.position + i) cid raw chunk) →
      cids.length = raws.length → (∀ v, acc.wireVersion = some v → v = version) →
      acc.padded.length + raws.flatten.length ≤ entry.paddedLength →
      ∃ acc', cids.foldlM (assembleChunk E ctx entry) acc = .ok acc' ∧
        acc'.padded = acc.padded ++ raws.flatten ∧
        ∀ v, acc'.wireVersion = some v → v = version := by
  induction cids with
  | nil =>
    intro raws acc _ hlen hver _
    rw [eq_nil_of_length_eq_zero hlen.symm]
    exact ⟨acc, rfl, (append_nil _).symm, hver⟩
  | cons cid cids ih =>
    intro raws acc hpieces hlen hver hroom
    obtain ⟨raw, chunk, hraw, hpiece⟩ := hpieces 0 cid rfl
    cases raws with
    | nil => cases hraw
    | cons _ rest =>
      cases hraw
      rw [flatten_cons, length_append] at hroom
      have hs := hpiece.assemble hver (by omega)
      have hre : ∀ (i : Nat) c, cids[i]? = some c → ∃ r w, rest[i]? = some r ∧
          Piece E ctx entry version (acc.position + 1 + i) c r w := by
        intro i c hc
        obtain ⟨r, w, hr, hw⟩ := hpieces (i + 1) c hc
        have hpos : acc.position + (i + 1) = acc.position + 1 + i := by omega
        exact ⟨r, w, hr, hpos ▸ hw⟩
      obtain ⟨acc', hfold, hpadded, hla⟩ := @ih rest ⟨acc.position + 1, acc.padded ++ raw, some version⟩ hre
        (succ.inj hlen) (fun v hv => (Option.some.inj hv).symm) (by rw [length_append]; omega)
      refine ⟨acc', ?_, ?_, hla⟩
      · rw [foldlM_cons, hs]
        exact hfold
      · rw [hpadded, flatten_cons, append_assoc]

theorem portable_portable (path : Text) : portable (portable path) = portable path := by
  rw [portable, portable, List.map_map]
  refine map_congr_left fun c _ => ?_
  by_cases hc : c = '\\' <;> simp [hc]

theorem checkComponent_eq_ok {c : Component} (h : checkComponent path c = .ok ()) (other : Text) :
    checkComponent other c = .ok () := by
  cases c with
  | normal name =>
    simp only [checkComponent, ite_error_eq_ok] at h ⊢
    exact h
  | rootDir | curDir | parentDir => cases h

theorem checkComponents_eq_ok {cs : List Component} (h : checkComponents path cs = .ok ()) (other : Text) :
    checkComponents other cs = .ok () := by
  induction cs with
  | nil => rfl
  | cons c cs ih =>
    rw [checkComponents] at h ⊢
    split at h
    · cases h
    · rename_i hc
      rw [checkComponent_eq_ok hc other]
      exact ih h

theorem validateSafeRelativePath_portable (h : validateSafeRelativePath path = .ok ()) :
    validateSafeRelativePath (portable path) = .ok () := by
  rw [validateSafeRelativePath, ite_error_eq_ok] at h ⊢
  obtain ⟨hne, h⟩ := h
  refine ⟨fun hnil => hne (map_eq_nil_iff.mp hnil), ?_⟩
  split at h
  · cases h
  · rename_i hlegal
    have hlegal' : (portable path).find? isIllegal = none := by
      rw [find?_eq_none] at hlegal ⊢
      intro c hc
      obtain ⟨d, hd, rfl⟩ := mem_map.mp hc
      split
      · decide
      · exact hlegal d hd
    rw [hlegal', portable_portable]
    exact checkComponents_eq_ok h _

theorem computeCid_eq_ok (h : chunk.computeCid E = .ok cid) : cid = E.sha256 (E.encode (.chunk chunk)) := by
  rw [ChunkWireObject.computeCid, map_eq_ok] at h
  obtain ⟨bytes, hb, rfl⟩ := h
  rw [(toCanonicalCbor_eq_ok hb).1]

variable {version : Nat} {uses : List ChunkUse}

theorem Cuts.piece (h : Cuts E vaultId epochKey contents epoch chunked version uses) (hE : Lawful E)
    (hcids : chunkCidsOf E chunked.chunks = .ok cids)
    (hctx : Readable E vaultId epochKey epoch chunked.chunks ctx)
    (hid : entry.fileVersionId = chunked.fileVersionId) (hkey : entry.fileVersionKey = chunked.fileVersionKey)
    (hcount : entry.chunkCids.length = uses.length) (hcid : cids[i]? = some cid) :
    ∃ raw chunk, (uses.map ChunkUse.raw)[i]? = some raw ∧ Piece E ctx entry version i cid raw chunk := by
  rw [chunkCidsOf, mapError_eq_ok] at hcids
  obtain ⟨chunk, hc, hcom⟩ := Result.getElem?_of_mapM hcids hcid
  have hf := hctx.found chunk (mem_of_getElem? hc) cid hcom
  rw [h.chunks, getElem?_map] at hc
  obtain ⟨u, hu, rfl⟩ := Option.map_eq_some_iff.mp hc
  obtain ⟨hver, hv, hep, hlen, hdec⟩ := h.header u (mem_of_getElem? hu)
  refine ⟨u.raw, u.encrypt E.toPrimitives, ?_, ?_, hver, ?_, hdec⟩
  · rw [getElem?_map, hu]
    rfl
  · have hcidL : cid.length = 32 := by
      rw [computeCid_eq_ok hcom]
      exact hE.digest_length _
    rw [findChunk, if_neg (not_not.mpr hcidL), hf]
    refine if_neg ?_
    rintro (hne | hne | hne)
    · exact hne (hv.trans hctx.vault.symm)
    · exact hne (hep.trans hctx.keyEpoch.symm)
    · exact hne hlen
  · exact h.opens ctx entry hctx.vault hctx.keyEpoch hctx.domain hid hkey hcount i u hu

theorem Describes.checkEntry (h : Describes E vaultId epochKey contents epoch chunked version)
    (fileId : Bytes)
    (hpath : validateSafeRelativePath path = .ok ()) (cids : List Bytes) :
    checkEntry (entryOf fileId path chunked cids) = .ok () := by
  have hpad := length_pad_le h.size
  have hs : ¬ (chunked.paddedLength > maxRestoreFileSize ∨ chunked.rawLength > maxRestoreFileSize) := by
    rw [h.paddedLength, h.rawLength]
    have hcon := h.size
    simp only [maxFileSize, maxRestoreFileSize] at hpad hcon ⊢
    omega
  have hraw : ¬ chunked.rawLength > chunked.paddedLength := by
    rw [h.paddedLength, h.rawLength]
    exact not_lt.mpr (length_le_pad contents)
  simp only [Snapshot.checkEntry, bind_eq_ok, ite_error_eq_ok, pure_eq_ok]
  exact ⟨(), validateSafeRelativePath_portable hpath, not_not.mpr h.keyLength, hs, hraw, trivial⟩

theorem decryptFile_entryOf (hE : Lawful E)
    (hdescribes : Describes E vaultId epochKey contents epoch chunked version)
    (hcuts : Cuts E vaultId epochKey contents epoch chunked version uses) (fileId : Bytes)
    (hpath : validateSafeRelativePath path = .ok ()) (hcids : chunkCidsOf E chunked.chunks = .ok cids)
    (hctx : Readable E vaultId epochKey epoch chunked.chunks ctx) :
    decryptFile E ctx (entryOf fileId path chunked cids) = .ok ⟨portable path, contents⟩ := by
  have hc : cids.length = uses.length := by
    rw [chunkCidsOf, mapError_eq_ok, mapM_eq_ok] at hcids
    rw [← hcids.length_eq, hcuts.chunks, length_map]
  have hass : ∃ acc, cids.foldlM (assembleChunk E ctx (entryOf fileId path chunked cids))
      { position := 0, padded := [], wireVersion := none } = .ok acc ∧
      acc.padded = [] ++ (uses.map ChunkUse.raw).flatten ∧ ∀ v, acc.wireVersion = some v → v = version := by
    refine foldlM_assembleChunk (fun i cid hcid => ?_) (by rw [length_map, hc])
      (fun _ h => (Option.some_ne_none _ h.symm).elim) ?_
    · rw [zero_add]
      exact hcuts.piece hE hcids hctx rfl rfl hc hcid
    · rw [hcuts.whole]
      exact le_of_eq ((zero_add _).trans hdescribes.paddedLength.symm)
  obtain ⟨assembly, hfold, hpadded, hver⟩ := hass
  rw [nil_append, hcuts.whole] at hpadded
  have hplain : (pad contents).take chunked.rawLength = contents := by rw [hdescribes.rawLength, take_pad]
  simp only [decryptFile, bind_eq_ok]
  refine ⟨(), hdescribes.checkEntry fileId hpath cids, assembly, hfold, ?_⟩
  simp only [finishFile, entryOf, hpadded, hplain, ite_error_eq_ok]
  refine ⟨not_not.mpr hdescribes.paddedLength.symm, not_not.mpr hdescribes.digest.symm, ?_, trivial⟩
  rintro ⟨hwire, hne⟩
  rw [hctx.domain, hctx.vault, hctx.keyEpoch] at hne
  exact hne (hdescribes.versionId (hver _ hwire).symm).symm

end

variable {t : Tree}

section

variable {epochKey : Bytes}

def capturedFiles (t : Tree) (tracked : List (Text × Bytes)) : List DecryptedFile :=
  tracked.filterMap fun (path, _) => (t.content (locate path)).map fun bytes => ⟨portable path, bytes⟩

variable {acc acc' : Captured} {chunks chunks' : List ChunkWireObject}

theorem captureFile_eq_ok {tracked : Text × Bytes} (hE : Lawful E) (hP : Faithful E.toPrimitives)
    (hmax : 0 < settings.config.maxSize)
    (h : captureFile E settings t vaultId epoch epochKey acc tracked = .ok acc') :
    ∃ entry chunks, acc'.entries = acc.entries ++ [entry] ∧ acc'.chunks = acc.chunks ++ chunks ∧
      (∀ chunk ∈ chunks, ∃ cid, chunk.computeCid E = .ok cid) ∧
      ∀ ctx, Readable E vaultId epochKey epoch chunks ctx →
        ([entry].filter fun e => !e.isDeleted).mapM (decryptFile E ctx) =
          .ok (capturedFiles t [tracked]) := by
  obtain ⟨path, fileId⟩ := tracked
  simp only [captureFile, bind_eq_ok] at h
  obtain ⟨⟨⟩, hpath, ⟨⟩, _, h⟩ := h
  split at h
  · simp only [bind_eq_ok, pure_eq_ok] at h
    obtain ⟨contents, hr, chunked, hchu, cids, hc, rfl⟩ := h
    obtain ⟨version, uses, hdes, hcuts⟩ := chunkFile_cuts hP hmax hchu
    refine ⟨_, _, rfl, rfl, fun chunk hch => ?_, fun ctx hctx => ?_⟩
    · rw [chunkCidsOf, mapError_eq_ok] at hc
      obtain ⟨cid, _, hcid⟩ := exists_of_mapM hc hch
      exact ⟨cid, hcid⟩
    have hcon : t.content (locate path) = some contents := by
      rw [readTracked] at hr
      split at hr
      · cases hr
      · rename_i bytes ho
        rw [ite_error_eq_ok] at hr
        cases hr.2
        exact openRegularFile_eq_ok.mp ho
    have hf := decryptFile_entryOf hE hdes hcuts fileId hpath hc hctx
    have hl : ([entryOf fileId path chunked cids].filter fun e => !e.isDeleted) =
        [entryOf fileId path chunked cids] := rfl
    rw [hl, mapM_eq_ok]
    simp only [capturedFiles, filterMap_cons, hcon, Option.map_some, filterMap_nil]
    exact .cons hf .nil
  · rename_i hexists
    rw [pure_eq_ok] at h
    subst h
    refine ⟨tombstone fileId path, [], rfl, (append_nil _).symm, fun _ h => (not_mem_nil h).elim,
      fun ctx _ => ?_⟩
    have hn : capturedFiles t [(path, fileId)] = [] := by
      simp only [capturedFiles, filterMap_cons, content_of_not_pathExists hexists, Option.map_none,
        filterMap_nil]
    rw [hn]
    rfl

theorem Readable.append_left (h : Readable E vaultId epochKey epoch (chunks ++ chunks') ctx) :
    Readable E vaultId epochKey epoch chunks ctx :=
  { h with found := fun chunk hc => h.found chunk (mem_append_left _ hc) }

theorem Readable.append_right (h : Readable E vaultId epochKey epoch (chunks ++ chunks') ctx) :
    Readable E vaultId epochKey epoch chunks' ctx :=
  { h with found := fun chunk hc => h.found chunk (mem_append_right _ hc) }

theorem foldlM_captureFile {tracked : List (Text × Bytes)} (hE : Lawful E)
    (hP : Faithful E.toPrimitives) (hmax : 0 < settings.config.maxSize)
    (h : tracked.foldlM (captureFile E settings t vaultId epoch epochKey) acc = .ok acc') :
    ∃ entries chunks, acc'.entries = acc.entries ++ entries ∧ acc'.chunks = acc.chunks ++ chunks ∧
      (∀ chunk ∈ chunks, ∃ cid, chunk.computeCid E = .ok cid) ∧
      ∀ ctx, Readable E vaultId epochKey epoch chunks ctx →
        (entries.filter fun e => !e.isDeleted).mapM (decryptFile E ctx) = .ok (capturedFiles t tracked) := by
  induction tracked generalizing acc with
  | nil =>
    rw [foldlM_nil, pure_eq_ok] at h
    subst h
    exact ⟨[], [], (append_nil _).symm, (append_nil _).symm, fun _ h => (not_mem_nil h).elim, fun _ _ => rfl⟩
  | cons file tracked ih =>
    obtain ⟨next, hn, hr⟩ := bind_eq_ok.mp h
    obtain ⟨entry, chunks, hent, hchunks, hc, hrd⟩ := captureFile_eq_ok hE hP hmax hn
    obtain ⟨entries, chunks', hent', hchu', hc', hr'⟩ := ih hr
    refine ⟨entry :: entries, chunks ++ chunks', ?_, ?_, forall_mem_append.mpr ⟨hc, hc'⟩, fun ctx hctx => ?_⟩
    · rw [hent', hent, append_assoc]
      rfl
    · rw [hchu', hchunks, append_assoc]
    · have hf := mapM_eq_ok.mp (hrd ctx hctx.append_left)
      have hos := mapM_eq_ok.mp (hr' ctx hctx.append_right)
      have hfs : capturedFiles t [file] ++ capturedFiles t tracked = capturedFiles t (file :: tracked) := by
        rw [capturedFiles, capturedFiles, ← filterMap_append]
        rfl
      have hent : ((entry :: entries).filter fun e => !e.isDeleted) =
          ([entry].filter fun e => !e.isDeleted) ++ entries.filter fun e => !e.isDeleted := by
        rw [← filter_append]
        rfl
      rw [mapM_eq_ok, ← hfs, hent]
      exact rel_append hf hos

end

section

variable {epochKey : Bytes}

theorem lookup_indexChunks {chunks : List ChunkWireObject} {index : List (Bytes × ChunkWireObject)}
    {chunk : ChunkWireObject} {cid : Bytes} (hE : Lawful E) (h : indexChunks E chunks = .ok index)
    (hcollision : ∀ a ∈ chunks, ∀ b ∈ chunks, E.sha256 (E.encode (.chunk a)) =
      E.sha256 (E.encode (.chunk b)) →
      E.encode (.chunk a) = E.encode (.chunk b)) (hchunk :
      chunk ∈ chunks) (hcid : chunk.computeCid E = .ok cid) :
    index.lookup cid = some chunk := by
  obtain ⟨found, hf⟩ := Table.lookup_isSome ((mem_indexChunks h).mpr ⟨hchunk, hcid⟩)
  obtain ⟨hmem, hcid'⟩ := (mem_indexChunks h).mp (Table.mem_of_lookup hf)
  have hs : E.encode (.chunk found) = E.encode (.chunk chunk) :=
    hcollision found hmem chunk hchunk ((computeCid_eq_ok hcid').symm.trans (computeCid_eq_ok hcid))
  have hdec := congrArg E.decodeChunk hs
  rw [hE.decodeChunk, hE.decodeChunk] at hdec
  cases hdec
  exact hf

theorem openManifest_createSnapshot {manifest : SnapshotManifest} {manifestBytes : Bytes}
    (hE : Lawful E) (hP : Faithful E.toPrimitives) (hnonce : nonce.length = 24)
    (hbytes : toCanonicalCbor E (.manifest manifest) = .ok manifestBytes) :
    openManifest E vaultId epoch epochKey (encryptChunkWithNonce E.toPrimitives
      (deriveManifestKey E.toPrimitives epochKey epoch) nonce manifestBytes (manifestAad vaultId epoch)) =
      .ok manifest := by
  obtain ⟨rfl, hf⟩ := toCanonicalCbor_eq_ok hbytes
  rw [openManifest, hP.decryptChunk _ _ _ hnonce]
  simp only [Except.mapError, ok_bind]
  rw [fromCanonicalCbor_ok hf (hE.decodeManifest _)]

theorem indexChunks_ok {chunks : List ChunkWireObject}
    (h : ∀ chunk ∈ chunks, ∃ cid, chunk.computeCid E = .ok cid) :
    ∃ index, indexChunks E chunks = .ok index := by
  obtain ⟨cids, hc⟩ := exists_mapM_eq_ok h
  refine ⟨(cids.zip chunks).reverse, ?_⟩
  rw [indexChunks, chunkCidsOf, hc]
  rfl

variable (hE : Lawful E) (hP : Faithful E.toPrimitives)
  {version : ChunkWriteVersion} {profile : Option Text} {tracked : List (Text × Bytes)}
    {parentIds : List Bytes}
  {deviceId signer : Bytes} {counter generation : Nat} {entropy : Entropy} {output : SnapshotOutput}
  (hnonce : entropy.manifestNonce.length = 24)
  (hcreate : createSnapshot E ⟨version, configFromEnv profile⟩ t tracked vaultId epoch epochKey
    parentIds deviceId
    counter generation signer entropy = .ok output)
include hE hP hnonce hcreate

theorem decryptSnapshot_of_index : (∀ chunk ∈ output.chunks, ∃ cid, chunk.computeCid E = .ok cid) ∧
    ∀ chunks index, indexChunks E chunks = .ok index →
      (∀ chunk ∈ output.chunks, ∀ cid, chunk.computeCid E = .ok cid → index.lookup cid = some chunk) →
      decryptSnapshot E vaultId epochKey epoch output.encryptedManifest chunks =
        .ok (capturedFiles t tracked) := by
  simp only [createSnapshot, bind_eq_ok, mapError_eq_ok, pure_eq_ok] at hcreate
  obtain ⟨captured, hcap, manifestBytes, hb, record, _, recordCid, _, rfl⟩ := hcreate
  obtain ⟨entries, produced, hent, hpro, hc, hr⟩ :=
    foldlM_captureFile hE hP (configFromEnv_maxSize_pos profile) hcap
  subst hpro
  refine ⟨hc, fun chunks index hi hf => ?_⟩
  simp only [decryptSnapshot, bind_eq_ok, ite_error_eq_ok]
  refine ⟨_, openManifest_createSnapshot hE hP hnonce hb, ?_, _, hi, ?_⟩
  · rintro (hne | hne | hne)
    · exact hne rfl
    · exact hne rfl
    · exact hne rfl
  · rw [SnapshotManifest.live, hent]
    exact hr _ ⟨rfl, rfl, rfl, hf⟩

/-- What a snapshot was made of is read back from it, with any chunks that contain those of the
snapshot. -/
theorem decryptSnapshot_createSnapshot {chunks : List ChunkWireObject}
    (hall : ∀ chunk ∈ output.chunks, chunk ∈ chunks)
    (hfits : ∀ chunk ∈ chunks, (E.encode (.chunk chunk)).length ≤ maxRecordSize)
    (hcollision : ∀ a ∈ chunks, ∀ b ∈ chunks, E.sha256 (E.encode (.chunk a)) =
      E.sha256 (E.encode (.chunk b)) →
      E.encode (.chunk a) = E.encode (.chunk b)) :
    decryptSnapshot E vaultId epochKey epoch output.encryptedManifest chunks =
      .ok (capturedFiles t tracked) := by
  have hci : ∀ chunk ∈ chunks, ∃ cid, chunk.computeCid E = .ok cid := by
    intro chunk hc
    refine ⟨E.sha256 (E.encode (.chunk chunk)), ?_⟩
    rw [ChunkWireObject.computeCid, toCanonicalCbor, if_neg (not_lt.mpr (hfits chunk hc))]
    rfl
  obtain ⟨index, hi⟩ := indexChunks_ok hci
  refine (decryptSnapshot_of_index hE hP hnonce hcreate).2 chunks index hi fun chunk hc cid hcid => ?_
  exact lookup_indexChunks hE hi hcollision (hall chunk hc) hcid

end

/-! ## A snapshot on the demonstration primitives -/

theorem reference_faithful : Faithful reference.toPrimitives where
  decrypt_encrypt key nonce plaintext aad := by
    have htag : (Reference.tag key nonce plaintext aad).length = 16 := length_leBytes _ _
    simp only [reference, length_append, htag, Nat.add_sub_cancel, take_left, drop_left, if_true]
  encrypt_length key nonce plaintext aad := by
    simp only [reference, length_append, Reference.tag, Reference.mix, length_leBytes]
  blake_length input := length_leBytes _ _
  hkdf_length salt secret info length := length_leBytes _ _

namespace Demo

def backslash : Text := ['a', '\\', 'b']

def backslashTree : Tree where
  node p :=
    if p = locate backslash then some (.file [1#8]) else if p = locate ['c'] then
      some (.file [2#8, 3#8]) else none

def trackedPaths : List (Text × Bytes) := [(backslash, replicate 32 1#8), (['c'], replicate 32 2#8)]

def readBack : List DecryptedFile := [⟨['a', '/', 'b'], [1#8]⟩, ⟨['c'], [2#8, 3#8]⟩]

def vault : Bytes := replicate 32 1#8

def epochKey : Bytes := replicate 32 2#8

def snapshot : Except SnapshotError SnapshotOutput :=
  createSnapshot reference ⟨.legacyV1, configFromEnv none⟩ backslashTree trackedPaths vault 0
    epochKey [] vault 0 0 epochKey
    ⟨vault, replicate 24 3#8, 0⟩

def oversized : ChunkWireObject :=
  { version := 1, vaultId := [], fileVersionId := [], chunkIndex := 0, totalChunks := 1,
    declaredPaddedLength := 0,
    keyEpoch := 0, payload := replicate maxRecordSize 0#8 }

end Demo

/-- No two different chunks have one digest. -/
def chunksApart (output : SnapshotOutput) : Bool :=
  output.chunks.all fun a => output.chunks.all fun b =>
    decide (reference.sha256 (reference.encode (.chunk a)) = reference.sha256 (reference.encode (.chunk b)) →
      reference.encode (.chunk a) = reference.encode (.chunk b))

theorem of_chunksApart {output : SnapshotOutput} (h : chunksApart output = true) :
    ∀ a ∈ output.chunks, ∀ b ∈ output.chunks,
      reference.sha256 (reference.encode (.chunk a)) = reference.sha256 (reference.encode (.chunk b)) →
      reference.encode (.chunk a) = reference.encode (.chunk b) :=
  fun a ha b hb => of_decide_eq_true (all_eq_true.mp (all_eq_true.mp h a ha) b hb)

set_option maxRecDepth 100000 in
theorem demo_snapshot : ∃ output, Demo.snapshot = .ok output ∧
    (decide (output.chunks.length = 2) && chunksApart output &&
      output.chunks.all (fun chunk => decide ((reference.encode (.chunk chunk)).length ≤ maxRecordSize)) &&
      decide (decryptSnapshot reference Demo.vault Demo.epochKey 0 output.encryptedManifest output.chunks =
        .ok Demo.readBack)) = true := by
  apply exists_of_any
  decide +kernel

theorem payload_lt_encode (chunk : ChunkWireObject) :
    chunk.payload.length < (reference.encode (.chunk chunk)).length := by
  simp only [reference, Reference.encode, Reference.chunk, Codec.via, Codec.pair, Reference.bytes,
    Codec.bytes,
    length_append]
  have htag : (Codec.nat.put 3).length = 1 := by decide
  omega

/-- A path with a backslash comes back with a slash, and an unrelated object that is too large to
have an address keeps a snapshot from being read. -/
theorem backslash_and_oversized :
    ∃ output, Demo.snapshot = .ok output ∧
      decryptSnapshot reference Demo.vault Demo.epochKey 0 output.encryptedManifest output.chunks =
        .ok Demo.readBack ∧
      ∀ files, decryptSnapshot reference Demo.vault Demo.epochKey 0 output.encryptedManifest
        (output.chunks ++ [Demo.oversized]) ≠ .ok files := by
  obtain ⟨output, houtput, hfacts⟩ := demo_snapshot
  rw [Bool.and_eq_true] at hfacts
  refine ⟨output, houtput, of_decide_eq_true hfacts.2, fun files hfs => ?_⟩
  simp only [decryptSnapshot, bind_eq_ok, ite_error_eq_ok] at hfs
  obtain ⟨_, _, _, index, hi, _⟩ := hfs
  obtain ⟨cid, hcid⟩ := indexChunks_computeCid hi Demo.oversized (mem_append_right _ mem_cons_self)
  rw [ChunkWireObject.computeCid, map_eq_ok] at hcid
  obtain ⟨bytes, hb, _⟩ := hcid
  obtain ⟨rfl, hf⟩ := toCanonicalCbor_eq_ok hb
  have hpay := payload_lt_encode Demo.oversized
  rw [Demo.oversized, length_replicate] at hpay
  exact absurd hf (not_le.mpr hpay)

theorem demo_snapshot_round_trip :
    ∃ output, Demo.snapshot = .ok output ∧
      decryptSnapshot reference Demo.vault Demo.epochKey 0 output.encryptedManifest
        (output.chunks ++ output.chunks) =
        .ok (capturedFiles Demo.backslashTree Demo.trackedPaths) := by
  obtain ⟨output, houtput, hfacts⟩ := demo_snapshot
  simp only [Bool.and_eq_true] at hfacts
  obtain ⟨⟨⟨-, hapart⟩, hfits⟩, -⟩ := hfacts
  have hmem : ∀ chunk ∈ output.chunks ++ output.chunks, chunk ∈ output.chunks := by simp
  exact ⟨output, houtput, decryptSnapshot_createSnapshot reference_lawful reference_faithful
    length_replicate houtput
    (fun chunk hc => mem_append_left _ hc)
      (fun chunk hc => of_decide_eq_true (all_eq_true.mp hfits chunk (hmem chunk hc)))
    fun a ha b hb => of_chunksApart hapart a (hmem a ha) b (hmem b hb)⟩

end CipherVault.Snapshot
