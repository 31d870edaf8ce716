import CipherVault.Snapshot.RoundTrip

/-!
# Snapshot.Integrity

What `decrypt_snapshot` returns when a store supplies whatever chunks it likes. The associated data
of a chunk is its header without separators; only the two identifiers vary in length, and that of
the second is checked (`computeAad_inj`).
-/

namespace CipherVault.Snapshot

open Crypto Format List Demo Except

/-- The numbers of a header are of the widths of the wire format. -/
structure Sized (c : ChunkWireObject) : Prop where
  version : c.version < 2 ^ 32
  chunkIndex : c.chunkIndex < 2 ^ 32
  totalChunks : c.totalChunks < 2 ^ 32
  declaredPaddedLength : c.declaredPaddedLength < 2 ^ 32
  keyEpoch : c.keyEpoch < 2 ^ 64

theorem leBytes_append_inj {m width n : Nat} {rest rest' : Bytes} (hm : m < 256 ^ width)
    (hn : n < 256 ^ width)
    (h : leBytes width m ++ rest = leBytes width n ++ rest') : m = n ∧ rest = rest' := by
  obtain ⟨hb, hr⟩ := append_inj h (by rw [length_leBytes, length_leBytes])
  have hmod := leBytes_inj width m n hb
  rw [Nat.mod_eq_of_lt hm, Nat.mod_eq_of_lt hn] at hmod
  exact ⟨hmod, hr⟩

theorem computeAad_inj {c d : ChunkWireObject} (hc : Sized c) (hd : Sized d)
    (hcid : c.fileVersionId.length = 32)
    (hdid : d.fileVersionId.length = 32) (h : computeAad c = computeAad d) :
    d = { c with payload := d.payload } := by
  have hv : c.vaultId.length = d.vaultId.length := by
    have hlen := congrArg length h
    simp only [computeAad, length_append, length_leBytes] at hlen
    omega
  simp only [computeAad, append_assoc] at h
  obtain ⟨hver, h⟩ := leBytes_append_inj hc.version hd.version h
  obtain ⟨hvau, h⟩ := append_inj h hv
  obtain ⟨hf, h⟩ := append_inj h (hcid.trans hdid.symm)
  obtain ⟨hi, h⟩ := leBytes_append_inj hc.chunkIndex hd.chunkIndex h
  obtain ⟨ht, h⟩ := leBytes_append_inj hc.totalChunks hd.totalChunks h
  obtain ⟨hpadded, h⟩ := leBytes_append_inj hc.declaredPaddedLength hd.declaredPaddedLength h
  rw [← append_nil (leBytes 8 c.keyEpoch), ← append_nil (leBytes 8 d.keyEpoch)] at h
  obtain ⟨hep, -⟩ := leBytes_append_inj hc.keyEpoch hd.keyEpoch h
  cases c
  cases d
  simp_all

/-- A vault and the chunks that a store supplies. None is forged: what can be opened was sealed by a
holder of the key, under a header with the same associated data. -/
structure Reading where
  E : Externals
  (vaultId epochKey : Bytes)
  epoch : Nat
  chunks : List ChunkWireObject
  Sealed : Bytes → ChunkWireObject → Bytes → Prop
  sized : ∀ chunk ∈ chunks, Sized chunk
  unforged : ∀ chunk ∈ chunks, ∀ key raw, decryptChunk E.toPrimitives key chunk.payload
    (computeAad chunk) = .ok raw →
    ∃ header, Sealed key header raw ∧ Sized header ∧ header.fileVersionId.length = 32 ∧
      computeAad header = computeAad chunk

variable (r : Reading) (entry : ManifestFileEntry)

namespace Reading

def domainKey : Bytes := deriveV2ChunkDomainKey r.E.toPrimitives r.epochKey r.vaultId r.epoch

/-- A header that belongs to the vault, and in version 1 to the file version and the position, in
version 2 to the content. -/
structure Bound (wireVersion position : Nat) (key raw : Bytes) (header : ChunkWireObject) : Prop where
  vault : header.vaultId = r.vaultId
  keyEpoch : header.keyEpoch = r.epoch
  version : header.version = wireVersion
  length : raw.length = header.declaredPaddedLength
  place : wireVersion = protocolVersion ∧ key = entry.fileVersionKey ∧
    header.fileVersionId = entry.fileVersionId ∧
      header.chunkIndex = position ∧ header.totalChunks = entry.chunkCids.length ∨
    wireVersion = chunkWireVersionV2 ∧ entry.fileVersionKey = r.domainKey ∧
      key = (deriveV2ChunkKeyNonce r.E.toPrimitives r.domainKey r.vaultId r.epoch header.fileVersionId).1 ∧
      header.fileVersionId = deriveV2ChunkId r.E.toPrimitives r.domainKey r.vaultId r.epoch (r.E.sha256 raw) ∧
      header.chunkIndex = 0 ∧ header.totalChunks = 1

/-- A piece of a file: the content of the supplied chunk at an address, which was sealed under the
chunk's header. -/
structure Piece (wireVersion position : Nat) (cid raw : Bytes)
    (key : Bytes) (header chunk : ChunkWireObject) : Prop where
  mem : chunk ∈ r.chunks
  address : chunk.computeCid r.E = .ok cid
  opens : decryptChunk r.E.toPrimitives key chunk.payload (computeAad chunk) = .ok raw
  sealed : r.Sealed key header raw
  same : chunk = { header with payload := chunk.payload }
  bound : r.Bound entry wireVersion position key raw header

/-- The addresses and the plain pieces belong together, one by one. -/
def Pieces (wireVersion position : Nat) (cids raws : List Bytes) : Prop :=
  Forall₂ (fun cid p => ∃ key header chunk, r.Piece entry wireVersion p.2 cid p.1 key header chunk) cids
    (raws.zipIdx position)

end Reading

/-- The file is the one that the manifest entry describes. -/
structure Described (E : Externals) (entry : ManifestFileEntry) (file : DecryptedFile) : Prop where
  path : file.relativePath = entry.relativePath
  length : file.plaintext.length = entry.rawLength
  digest : E.sha256 file.plaintext = entry.plaintextSha256

/-- A file as its entry describes it, put together from pieces of one version. -/
structure Reading.Intact (file : DecryptedFile) : Prop where
  described : Described r.E entry file
  pieces : ∃ wireVersion raws, r.Pieces entry wireVersion 0 entry.chunkCids raws ∧
    file.plaintext = raws.flatten.take entry.rawLength

section

variable {r : Reading} {ctx : DecryptContext} {entry : ManifestFileEntry} {chunk : ChunkWireObject}
  {position : Nat}
  {cid raw : Bytes}

structure Reading.Serves (r : Reading) (ctx : DecryptContext) : Prop where
  vault : ctx.vaultId = r.vaultId
  keyEpoch : ctx.epoch = r.epoch
  domain : ctx.domainKey = r.domainKey
  index : ∀ cid chunk, (cid, chunk) ∈ ctx.index → chunk ∈ r.chunks ∧ chunk.computeCid r.E = .ok cid

theorem findChunk_eq_ok (hctx : r.Serves ctx) (h : findChunk ctx entry cid = .ok chunk) :
    (chunk ∈ r.chunks ∧ chunk.computeCid r.E = .ok cid) ∧ chunk.vaultId = r.vaultId ∧
    chunk.keyEpoch = r.epoch ∧
      chunk.fileVersionId.length = 32 := by
  rw [findChunk, ite_error_eq_ok] at h
  obtain ⟨-, h⟩ := h
  cases hl : ctx.index.lookup cid with
  | none => simp [hl] at h
  | some found =>
    simp only [hl, ite_error_eq_ok, ok.injEq, not_or, not_not] at h
    obtain ⟨⟨hv, hep, hlen⟩, rfl⟩ := h
    exact ⟨hctx.index cid found (Table.mem_of_lookup hl), hv.trans hctx.vault, hep.trans hctx.keyEpoch, hlen⟩

theorem decryptWire_eq_ok (hctx : r.Serves ctx) (hvault : chunk.vaultId = r.vaultId)
    (hepoch : chunk.keyEpoch = r.epoch)
    (hlength : raw.length = chunk.declaredPaddedLength)
    (h : decryptWire r.E ctx entry position chunk = .ok raw) :
    ∃ key, decryptChunk r.E.toPrimitives key chunk.payload (computeAad chunk) = .ok raw ∧
      r.Bound entry chunk.version position key raw chunk := by
  rw [decryptWire] at h
  split at h
  · rename_i hver
    simp only [decryptLegacy, ite_error_eq_ok, mapError_eq_ok, not_or, not_not] at h
    obtain ⟨⟨hf, hi, ht⟩, hraw⟩ := h
    exact ⟨_, hraw, hvault, hepoch, rfl, hlength, .inl ⟨hver, rfl, hf, hi, ht⟩⟩
  · split at h
    · rename_i hver
      simp only [decryptV2, ite_error_eq_ok, bind_eq_ok, mapError_eq_ok, pure_eq_ok, not_or,
        not_not, hctx.domain, hctx.vault, hctx.keyEpoch] at h
      obtain ⟨⟨hi, ht, hkey⟩, -, plaintext, hraw, hid, rfl⟩ := h
      exact ⟨_, hraw, hvault, hepoch, rfl, hlength, .inr ⟨hver, hkey, rfl, hid.symm, hi, ht⟩⟩
    · cases h

variable {acc acc' : Assembly} {E : Externals} {file : DecryptedFile}

theorem assembleChunk_eq_ok (hctx : r.Serves ctx) (h : assembleChunk r.E ctx entry acc cid = .ok acc') :
    ∃ wireVersion raw, (∀ v, acc.wireVersion = some v → v = wireVersion) ∧
      acc' = ⟨acc.position + 1, acc.padded ++ raw, some wireVersion⟩ ∧
      ∃ key header chunk, r.Piece entry wireVersion acc.position cid raw key header chunk := by
  simp only [assembleChunk, bind_eq_ok, ite_error_eq_ok, pure_eq_ok, not_or, not_not] at h
  obtain ⟨chunk, hf, hver, raw, hraw, ⟨hlen, -⟩, rfl⟩ := h
  obtain ⟨⟨hmem, hcid⟩, hva, hep, hid⟩ := findChunk_eq_ok hctx hf
  obtain ⟨key, hopens, hb⟩ := decryptWire_eq_ok hctx hva hep hlen hraw
  obtain ⟨header, hsealed, hhd, hhea, haad⟩ := r.unforged chunk hmem key raw hopens
  have hs : chunk = { header with payload := chunk.payload } :=
    computeAad_inj hhd (r.sized chunk hmem) hhea hid haad
  have hh : r.Bound entry chunk.version acc.position key raw header := by
    rw [hs] at hb
    rw [hs]
    exact ⟨hb.vault, hb.keyEpoch, hb.version, hb.length, hb.place⟩
  refine ⟨chunk.version, raw, ?_, rfl, key, header, chunk, hmem, hcid, hopens, hsealed, hs, hh⟩
  intro v hv
  simpa [hv] using hver

theorem foldlM_assembleChunk_eq_ok {cids : List Bytes} (hctx : r.Serves ctx)
    (h : cids.foldlM (assembleChunk r.E ctx entry) acc = .ok acc') :
    ∃ wireVersion raws, (∀ v, acc.wireVersion = some v → v = wireVersion) ∧
      acc'.padded = acc.padded ++ raws.flatten ∧ r.Pieces entry wireVersion acc.position cids raws := by
  induction cids generalizing acc with
  | nil =>
    rw [foldlM_nil, pure_eq_ok] at h
    subst h
    refine ⟨acc.wireVersion.getD 0, [], ?_, by simp, .nil⟩
    intro v hv
    simp [hv]
  | cons cid cids ih =>
    rw [foldlM_cons, bind_eq_ok] at h
    obtain ⟨next, hn, hr⟩ := h
    obtain ⟨wireVersion, raw, hver, rfl, hpiece⟩ := assembleChunk_eq_ok hctx hn
    obtain ⟨wireVersion', raws, hs, hpadded, hpieces⟩ := ih hr
    obtain rfl : wireVersion = wireVersion' := hs wireVersion rfl
    refine ⟨wireVersion, raw :: raws, hver, ?_, .cons hpiece hpieces⟩
    rw [hpadded, flatten_cons, append_assoc]

theorem decryptFile_eq_ok (h : decryptFile E ctx entry = .ok file) :
    Described E entry file ∧ ∃ assembly, file.plaintext = assembly.padded.take entry.rawLength ∧
      entry.chunkCids.foldlM (assembleChunk E ctx entry)
      { position := 0, padded := [], wireVersion := none } =
        .ok assembly := by
  simp only [decryptFile, checkEntry, finishFile, bind_eq_ok, ite_error_eq_ok, ok.injEq, not_not, not_lt] at h
  obtain ⟨-, ⟨-, -, -, -, hraw, -⟩, assembly, hfold, hpadded, hdig, -, rfl⟩ := h
  refine ⟨⟨rfl, ?_, hdig⟩, assembly, rfl, hfold⟩
  rw [length_take]
  omega

theorem decryptFile_intact (hctx : r.Serves ctx) (h : decryptFile r.E ctx entry = .ok file) :
    r.Intact entry file := by
  obtain ⟨hdes, assembly, hpla, hfold⟩ := decryptFile_eq_ok h
  obtain ⟨wireVersion, raws, -, hfla, hpieces⟩ := foldlM_assembleChunk_eq_ok hctx hfold
  refine ⟨hdes, wireVersion, raws, hpieces, ?_⟩
  rw [hpla, hfla]
  rfl

theorem eq_of_described {entries : List ManifestFileEntry} {files files' : List DecryptedFile}
    (h : Forall₂ (Described E) entries files) (h' : Forall₂ (Described E) entries files')
    (hfree : ∀ file ∈ files, ∀ file' ∈ files', E.sha256 file.plaintext = E.sha256 file'.plaintext →
      file.plaintext = file'.plaintext) : files' = files := by
  induction h generalizing files' with
  | nil =>
    cases h'
    rfl
  | @cons entry file entries files hfi _ ih =>
    obtain ⟨file', files', hfi', hr, rfl⟩ := forall₂_cons_left_iff.mp h'
    have hpla : file.plaintext = file'.plaintext :=
      hfree file mem_cons_self file' mem_cons_self (hfi.digest.trans hfi'.digest.symm)
    have hs : file' = file := by
      cases file
      cases file'
      simp only [DecryptedFile.mk.injEq]
      exact ⟨hfi'.path.trans hfi.path.symm, hpla.symm⟩
    rw [hs, ih hr fun f hf f' hf' => hfree f (mem_cons_of_mem _ hf) f' (mem_cons_of_mem _ hf')]

end

/-- What is decrypted from the chunks of a store is what the manifest describes. Every file is put
together from chunks of one version, each at its address and sealed for this vault and its place. No
other chunks give other files, unless two plaintexts collide. -/
theorem restore_integrity (encryptedManifest : Bytes) (files : List DecryptedFile)
    (h : decryptSnapshot r.E r.vaultId r.epochKey r.epoch encryptedManifest r.chunks = .ok files) :
    ∃ manifest, openManifest r.E r.vaultId r.epoch r.epochKey encryptedManifest = .ok manifest ∧
      Forall₂ r.Intact manifest.live files ∧
      ∀ chunks' files', decryptSnapshot r.E r.vaultId r.epochKey r.epoch encryptedManifest chunks' =
        .ok files' →
        (∀ file ∈ files, ∀ file' ∈ files', r.E.sha256 file.plaintext = r.E.sha256 file'.plaintext →
          file.plaintext = file'.plaintext) → files' = files := by
  simp only [decryptSnapshot, bind_eq_ok, ite_error_eq_ok, mapM_eq_ok] at h ⊢
  obtain ⟨manifest, hman, -, index, hi, hfs⟩ := h
  have hctx : r.Serves ⟨r.vaultId, r.epoch, r.domainKey, index⟩ :=
    ⟨rfl, rfl, rfl, fun _ _ => (mem_indexChunks hi).mp⟩
  refine ⟨manifest, hman, hfs.imp fun _ _ hf => decryptFile_intact hctx hf, ?_⟩
  rintro chunks' files' ⟨manifest', hman', -, _, -, hfs'⟩ hfree
  obtain rfl : manifest = manifest' := ok.inj (hman.symm.trans hman')
  exact eq_of_described (hfs.imp fun _ _ hf => (decryptFile_eq_ok hf).1)
    (hfs'.imp fun _ _ hf => (decryptFile_eq_ok hf).1) hfree

set_option maxRecDepth 100000 in
theorem demo_headers : ∃ output, snapshot = .ok output ∧ (output.chunks.all fun c =>
    decide (c.version < 2 ^ 32 ∧ c.chunkIndex < 2 ^ 32 ∧ c.totalChunks < 2 ^ 32 ∧
      c.declaredPaddedLength < 2 ^ 32 ∧
      c.keyEpoch < 2 ^ 64 ∧ c.fileVersionId.length = 32)) = true := by
  apply exists_of_any
  decide +kernel

theorem restore_integrity_demo :
    ∃ output, ∃ r : Reading, snapshot = .ok output ∧ r.E = reference ∧ r.chunks = output.chunks ∧ ∃ manifest,
      openManifest reference vault 0 epochKey output.encryptedManifest = .ok manifest ∧
        Forall₂ r.Intact manifest.live Demo.readBack := by
  obtain ⟨output, houtput, hfacts⟩ := demo_snapshot
  obtain ⟨output', hout', hhea⟩ := demo_headers
  obtain rfl : output = output' := ok.inj (houtput.symm.trans hout')
  rw [Bool.and_eq_true] at hfacts
  have hsized : ∀ chunk ∈ output.chunks, Sized chunk ∧ chunk.fileVersionId.length = 32 := by
    intro chunk hc
    obtain ⟨h₁, h₂, h₃, h₄, h₅, hid⟩ := of_decide_eq_true (all_eq_true.mp hhea chunk hc)
    exact ⟨⟨h₁, h₂, h₃, h₄, h₅⟩, hid⟩
  let r : Reading :=
    { E := reference, vaultId := vault, epochKey := epochKey, epoch := 0, chunks := output.chunks
      Sealed := fun key header raw => decryptChunk reference.toPrimitives key header.payload
        (computeAad header) = .ok raw
      sized := fun chunk hc => (hsized chunk hc).1
      unforged := fun chunk hc _ _ hraw => ⟨chunk, hraw, (hsized chunk hc).1, (hsized chunk hc).2, rfl⟩ }
  obtain ⟨manifest, hman, hintact, -⟩ :=
    restore_integrity r output.encryptedManifest _ (of_decide_eq_true hfacts.2)
  exact ⟨output, r, houtput, rfl, rfl, manifest, hman, hintact⟩

end CipherVault.Snapshot
