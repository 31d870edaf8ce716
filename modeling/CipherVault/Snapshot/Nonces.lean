import CipherVault.Snapshot.Chunker

/-!
# Snapshot.Nonces

Which chunk encryptions share a key and a nonce, over captures in any vaults and epochs, write
versions and profiles. Version 2 has one plaintext and one associated data under a key and a nonce.
Version 1 has not: its associated data covers the number of chunks, which the key and the nonce do
not depend on.
-/

namespace CipherVault.Snapshot

open Crypto Format List Nat

/-- A capture that was accepted: what `create_snapshot` reads for the chunks of the files. -/
structure Capture where
  vaultId : Bytes
  vault_length : vaultId.length = 32
  epoch : Nat
  epochKey : Bytes
  writeVersion : ChunkWriteVersion
  profile : Option Text
  files : List Bytes
  sizes : ∀ f ∈ files, f.length ≤ maxFileSize

variable (P : Primitives)

namespace Capture

def chunksOf (c : Capture) (file : Bytes) : List Bytes := fastcdcChunk (pad file) (configFromEnv c.profile)

def usesOf (c : Capture) (file : Bytes) : List ChunkUse :=
  match c.writeVersion with
  | .legacyV1 => usesV1 P (configFromEnv c.profile) c.vaultId c.epoch c.epochKey file
  | .v2 => usesV2 P (configFromEnv c.profile) c.vaultId c.epoch c.epochKey file

end Capture

variable (captures : List Capture)

def runUses : List ChunkUse :=
  captures.flatMap fun c => c.files.flatMap (c.usesOf P)

def runContents : Set Bytes :=
  {b | ∃ c ∈ captures, ∃ f ∈ c.files, b = f ∨ b ∈ c.chunksOf f}

/-- The derivations and the digest do not collide on what the run puts into them. -/
structure CollisionFree : Prop where
  digest : Set.InjOn P.sha256 (runContents captures)
  key : Set.InjOn (KeyInput.derive P) {k | ∃ u ∈ runUses P captures, u.keyInput = k}
  nonce : Set.InjOn (NonceInput.derive P) {n | ∃ u ∈ runUses P captures, u.nonceInput = n}
  chunkId : Set.InjOn (fun q : Bytes × Bytes × Nat × Bytes => deriveV2ChunkId P q.1 q.2.1 q.2.2.1 q.2.2.2)
    {q | ∃ c ∈ captures, c.writeVersion = .v2 ∧ ∃ f ∈ c.files, ∃ raw ∈ c.chunksOf f,
      q = (deriveV2ChunkDomainKey P c.epochKey c.vaultId c.epoch, c.vaultId, c.epoch, P.sha256 raw)}

/-- Encryptions of one key and nonce have one plaintext and one associated data. -/
def NonceRespecting (uses : List ChunkUse) : Prop :=
  ∀ u ∈ uses, ∀ w ∈ uses, u.key P = w.key P → u.nonce P = w.nonce P → u.raw = w.raw ∧ u.aad = w.aad

/-- Version 1 captures of one file under one epoch key that share a chunk at some position are in
one vault and have the same number of chunks. -/
def OneChunking : Prop :=
  ∀ c ∈ captures, ∀ d ∈ captures, c.writeVersion = .legacyV1 → d.writeVersion = .legacyV1 →
    c.epochKey = d.epochKey → c.epoch = d.epoch → ∀ f ∈ c.files, f ∈ d.files →
      ∀ (i : Nat) (raw : Bytes), (c.chunksOf f)[i]? = some raw → (d.chunksOf f)[i]? = some raw →
        c.vaultId = d.vaultId ∧ (c.chunksOf f).length = (d.chunksOf f).length

section

variable {P : Primitives} {captures : List Capture} {u : ChunkUse} {c : Capture} {f : Bytes}

theorem mem_runUses : u ∈ runUses P captures ↔ ∃ c ∈ captures, ∃ f ∈ c.files, u ∈ c.usesOf P f := by
  simp only [runUses, mem_flatMap]

theorem mem_usesV1 (hv : c.writeVersion = .legacyV1) :
    u ∈ c.usesOf P f ↔ ∃ (i : Nat) (raw : Bytes), (c.chunksOf f)[i]? = some raw ∧
      u = useV1 P c.vaultId c.epoch c.epochKey f (c.chunksOf f).length (raw, i) := by
  simp only [Capture.usesOf, hv, usesV1, mem_map]
  constructor
  · intro ⟨⟨raw, i⟩, hmem, hu⟩
    exact ⟨i, raw, mem_zipIdx_iff_getElem?.mp hmem, hu.symm⟩
  · intro ⟨i, raw, hget, hu⟩
    exact ⟨(raw, i), mem_zipIdx_iff_getElem?.mpr hget, hu.symm⟩

theorem mem_usesV2 (hv : c.writeVersion = .v2) : u ∈ c.usesOf P f ↔ ∃ raw ∈ c.chunksOf f,
      u = useV2 P c.vaultId c.epoch (deriveV2ChunkDomainKey P c.epochKey c.vaultId c.epoch) raw := by
  simp only [Capture.usesOf, hv, usesV2, mem_map]
  constructor
  · intro ⟨raw, hmem, hu⟩; exact ⟨raw, hmem, hu.symm⟩
  · intro ⟨raw, hmem, hu⟩; exact ⟨raw, hmem, hu.symm⟩

theorem length_chunksOf_lt (hf : f ∈ c.files) : (c.chunksOf f).length < 2 ^ 32 :=
  lt_of_le_of_lt (length_fastcdcChunk_le _ _) (length_pad_lt (length_pad_le (c.sizes f hf)))

theorem mem_runContents_file (hc : c ∈ captures) (hf : f ∈ c.files) :
    f ∈ runContents captures := ⟨c, hc, f, hf, .inl rfl⟩

theorem mem_runContents_chunk {raw : Bytes} (hc : c ∈ captures) (hf : f ∈ c.files)
    (hraw : raw ∈ c.chunksOf f) :
    raw ∈ runContents captures := ⟨c, hc, f, hf, .inr hraw⟩

end

variable {P : Primitives} {f : Bytes} {captures : List Capture}

variable {v g raw other : Bytes} {m : Nat} {p : Bytes × Nat} {c d : Capture} {u w : ChunkUse}

theorem aad_useV1_inj {epoch : Nat} {key : Bytes} {n : Nat} {w : Bytes} (hv : v.length = 32)
    (hw : w.length = 32)
    (h : (useV1 P v epoch key f m p).aad = (useV1 P w epoch key f n p).aad) :
    v = w ∧ m % 2 ^ 32 = n % 2 ^ 32 := by
  simp only [ChunkUse.aad, computeAad, useV1, append_assoc] at h
  have h := append_cancel_left h
  obtain ⟨hva, h⟩ := append_inj h (hv.trans hw.symm)
  -- With one vault the file version ids agree, so that the counts stand at one place.
  subst hva
  have h := append_cancel_left (append_cancel_left h)
  obtain ⟨hc, -⟩ := append_inj h (by rw [length_leBytes, length_leBytes])
  have hmod := leBytes_inj 4 _ _ hc
  refine ⟨rfl, ?_⟩
  simpa using hmod

theorem useV1_collide (hfree : CollisionFree P captures) (hc : c ∈ captures) (hd : d ∈ captures)
    (hcv : c.writeVersion = .legacyV1) (hdv : d.writeVersion = .legacyV1) (hf : f ∈ c.files)
    (hg : g ∈ d.files)
    {i j : Nat} (hi : (c.chunksOf f)[i]? = some raw) (hj : (d.chunksOf g)[j]? = some other)
    (hkey : (useV1 P c.vaultId c.epoch c.epochKey f (c.chunksOf f).length (raw, i)).key P =
      (useV1 P d.vaultId d.epoch d.epochKey g (d.chunksOf g).length (other, j)).key P)
    (hnonce : (useV1 P c.vaultId c.epoch c.epochKey f (c.chunksOf f).length (raw, i)).nonce P =
      (useV1 P d.vaultId d.epoch d.epochKey g (d.chunksOf g).length (other, j)).nonce P) :
    c.epochKey = d.epochKey ∧ c.epoch = d.epoch ∧ f = g ∧ i = j ∧ raw = other := by
  have hu := mem_runUses.mpr ⟨c, hc, f, hf, (mem_usesV1 (P := P) hcv).mpr ⟨i, raw, hi, rfl⟩⟩
  have hw := mem_runUses.mpr ⟨d, hd, g, hg, (mem_usesV1 (P := P) hdv).mpr ⟨j, other, hj, rfl⟩⟩
  have hk := hfree.key ⟨_, hu, rfl⟩ ⟨_, hw, rfl⟩ hkey
  have hn := hfree.nonce ⟨_, hu, rfl⟩ ⟨_, hw, rfl⟩ hnonce
  simp only [useV1, KeyInput.v1.injEq] at hk
  simp only [useV1, NonceInput.v1.injEq] at hn
  obtain ⟨hepo, hep, hfi⟩ := hk
  obtain ⟨-, hidx, hch⟩ := hn
  have hilt : i < 2 ^ 32 :=
    lt_trans (List.getElem?_eq_some_iff.mp hi).1 (length_chunksOf_lt hf)
  have hjlt : j < 2 ^ 32 :=
    lt_trans (List.getElem?_eq_some_iff.mp hj).1 (length_chunksOf_lt hg)
  refine ⟨hepo, hep, ?_, ?_, ?_⟩
  · exact hfree.digest (mem_runContents_file hc hf) (mem_runContents_file hd hg) hfi
  · rwa [mod_eq_of_lt hilt, mod_eq_of_lt hjlt] at hidx
  · exact hfree.digest (mem_runContents_chunk hc hf (mem_of_getElem? hi))
      (mem_runContents_chunk hd hg (mem_of_getElem? hj)) hch

theorem useV2_collide (hfree : CollisionFree P captures) (hc : c ∈ captures) (hd : d ∈ captures)
    (hcv : c.writeVersion = .v2) (hdv : d.writeVersion = .v2) (hf : f ∈ c.files) (hg : g ∈ d.files)
    (hi : raw ∈ c.chunksOf f) (hj : other ∈ d.chunksOf g)
    (hu : u = useV2 P c.vaultId c.epoch (deriveV2ChunkDomainKey P c.epochKey c.vaultId c.epoch) raw)
    (hw : w = useV2 P d.vaultId d.epoch (deriveV2ChunkDomainKey P d.epochKey d.vaultId d.epoch) other)
    (hkey : u.key P = w.key P) : u = w := by
  have hmemu := mem_runUses.mpr ⟨c, hc, f, hf, (mem_usesV2 (P := P) hcv).mpr ⟨raw, hi, hu⟩⟩
  have hmemw := mem_runUses.mpr ⟨d, hd, g, hg, (mem_usesV2 (P := P) hdv).mpr ⟨other, hj, hw⟩⟩
  have hk := hfree.key ⟨u, hmemu, rfl⟩ ⟨w, hmemw, rfl⟩ hkey
  subst hu hw
  simp only [useV2, KeyInput.v2.injEq] at hk
  obtain ⟨hdomain, hv, hep, hid⟩ := hk
  have hq := hfree.chunkId ⟨c, hc, hcv, f, hf, raw, hi, rfl⟩ ⟨d, hd, hdv, g, hg, other, hj, rfl⟩ hid
  simp only [Prod.mk.injEq] at hq
  have hraw := hfree.digest (mem_runContents_chunk hc hf hi) (mem_runContents_chunk hd hg hj) hq.2.2.2
  rw [hdomain, hv, hep, hraw]

theorem key_useV1_ne_useV2 {k l : Nat} (hfree : CollisionFree P captures) (hu : u ∈ runUses P captures)
    (hw : w ∈ runUses P captures) {x e r s : Bytes} (h1 : u = useV1 P v k e f m p)
    (h2 : w = useV2 P x l r s) : u.key P ≠ w.key P := by
  intro hkey
  have hk := hfree.key ⟨u, hu, rfl⟩ ⟨w, hw, rfl⟩ hkey
  subst h1 h2
  simp only [useV1, useV2, reduceCtorEq] at hk

/-- **Nonce reuse.** When derivations do not collide, encryptions of one key and nonce agree on
plaintext and associated data exactly when version 1 captures of one file are cut into one number of
chunks. -/
theorem nonceRespecting_iff (P : Primitives) (captures : List Capture) (hfree : CollisionFree P captures) :
    NonceRespecting P (runUses P captures) ↔ OneChunking captures := by
  constructor
  · intro hresp c hc d hd hcv hdv hkey hep f hf hg i raw hi hj
    have hu := mem_runUses.mpr ⟨c, hc, f, hf, (mem_usesV1 (P := P) hcv).mpr ⟨i, raw, hi, rfl⟩⟩
    have hw := mem_runUses.mpr ⟨d, hd, f, hg, (mem_usesV1 (P := P) hdv).mpr ⟨i, raw, hj, rfl⟩⟩
    rw [← hkey, ← hep] at hw
    obtain ⟨hv, hcnt⟩ := aad_useV1_inj c.vault_length d.vault_length (hresp _ hu _ hw rfl rfl).2
    rw [mod_eq_of_lt (length_chunksOf_lt hf), mod_eq_of_lt (length_chunksOf_lt hg)] at hcnt
    exact ⟨hv, hcnt⟩
  · intro hone u hu w hw hkey hn
    obtain ⟨c, hc, f, hf, huse⟩ := mem_runUses.mp hu
    obtain ⟨d, hd, g, hg, hwse⟩ := mem_runUses.mp hw
    cases hcv : c.writeVersion with
    | legacyV1 =>
      obtain ⟨i, raw, hi, rfl⟩ := (mem_usesV1 hcv).mp huse
      cases hdv : d.writeVersion with
      | legacyV1 =>
        obtain ⟨j, other, hj, rfl⟩ := (mem_usesV1 hdv).mp hwse
        obtain ⟨hepo, hep, rfl, rfl, rfl⟩ :=
          useV1_collide hfree hc hd hcv hdv hf hg hi hj hkey hn
        obtain ⟨hv, hcnt⟩ := hone c hc d hd hcv hdv hepo hep f hf hg i raw hi hj
        rw [hv, hcnt, hep, hepo]
        exact ⟨rfl, rfl⟩
      | v2 =>
        obtain ⟨other, -, h2⟩ := (mem_usesV2 hdv).mp hwse
        exact absurd hkey (key_useV1_ne_useV2 hfree hu hw rfl h2)
    | v2 =>
      obtain ⟨raw, hi, h2⟩ := (mem_usesV2 hcv).mp huse
      cases hdv : d.writeVersion with
      | legacyV1 =>
        obtain ⟨j, other, -, rfl⟩ := (mem_usesV1 hdv).mp hwse
        exact absurd hkey.symm (key_useV1_ne_useV2 hfree hw hu rfl h2)
      | v2 =>
        obtain ⟨other, hj, h3⟩ := (mem_usesV2 hdv).mp hwse
        rw [useV2_collide hfree hc hd hcv hdv hf hg hi hj h2 h3 hkey]
        exact ⟨rfl, rfl⟩

/-!
## Runs on the demonstration primitives

A digest is the length of its input and a derivation reads its input from the end, so that contents
of distinct lengths do not collide.
-/

def lengthPrimitives : Primitives :=
  { sha256 := fun x => replicate 28 0#8 ++ leBytes 4 x.length
    blake2b512 := reverse
    hkdfSha256 := fun _ _ info length => info.reverse.take length
    xchachaEncrypt := fun _ _ plaintext _ => plaintext
    xchachaDecrypt := fun _ _ ciphertext _ => some ciphertext
    ed25519Public := id
    ed25519Sign := fun _ _ => []
    ed25519Verify := fun _ _ _ => true
    x25519Public := id
    x25519 := fun _ point => some point }

def demoCapture (version : ChunkWriteVersion) (profile : Option Text) (file : Bytes)
    (h : file.length ≤ maxFileSize) : Capture :=
  { vaultId := replicate 32 1#8
    vault_length := length_replicate
    epoch := 0
    epochKey := replicate 32 5#8
    writeVersion := version
    profile := profile
    files := [file]
    sizes := fun _ hf => mem_singleton.mp hf ▸ h }

theorem collisionFree_of_all (contents : List Bytes)
    (hcontents : ∀ c ∈ captures, ∀ f ∈ c.files, f ∈ contents ∧ ∀ raw ∈ c.chunksOf f, raw ∈ contents)
    (hdigest : ∀ a ∈ contents, ∀ b ∈ contents, P.sha256 a = P.sha256 b → a = b)
    (huses : ∀ u ∈ runUses P captures, ∀ w ∈ runUses P captures,
      (u.key P = w.key P → u.keyInput = w.keyInput) ∧ (u.nonce P = w.nonce P → u.nonceInput = w.nonceInput))
    (hid : ∀ c ∈ captures, ∀ d ∈ captures, c.writeVersion = .v2 → d.writeVersion = .v2 →
      ∀ f ∈ c.files, ∀ g ∈ d.files, ∀ raw ∈ c.chunksOf f, ∀ other ∈ d.chunksOf g,
      c.epochKey = d.epochKey ∧ c.vaultId = d.vaultId ∧ c.epoch = d.epoch ∧ raw = other) :
    CollisionFree P captures where
  digest := by
    have hsub : ∀ b ∈ runContents captures, b ∈ contents := by
      rintro b ⟨c, hc, f, hf, rfl | hraw⟩
      · exact (hcontents c hc _ hf).1
      · exact (hcontents c hc f hf).2 b hraw
    intro a ha b hb h
    exact hdigest a (hsub a ha) b (hsub b hb) h
  key := by
    rintro k ⟨u, hu, rfl⟩ l ⟨w, hw, rfl⟩ h
    exact (huses u hu w hw).1 h
  nonce := by
    rintro k ⟨u, hu, rfl⟩ l ⟨w, hw, rfl⟩ h
    exact (huses u hu w hw).2 h
  chunkId := by
    rintro q ⟨c, hc, hcv, f, hf, raw, hraw, rfl⟩ r ⟨d, hd, hdv, g, hg, other, ho, rfl⟩ _
    obtain ⟨hkey, hv, hep, heq⟩ := hid c hc d hd hcv hdv f hf g hg raw hraw other ho
    rw [hkey, hv, hep, heq]

def bothVersions : List Capture :=
  [demoCapture .legacyV1 none [7#8] (by decide), demoCapture .v2 none [7#8] (by decide)]

set_option maxRecDepth 100000 in
theorem collisionFree_bothVersions : CollisionFree lengthPrimitives bothVersions :=
  collisionFree_of_all [[7#8], pad [7#8]] (by decide +kernel) (by decide +kernel)
    (by decide +kernel) (by decide +kernel)

theorem nonceRespecting_iff_bothVersions :
    CollisionFree lengthPrimitives bothVersions ∧
      (NonceRespecting lengthPrimitives (runUses lengthPrimitives bothVersions) ↔ OneChunking bothVersions) :=
  ⟨collisionFree_bothVersions, nonceRespecting_iff lengthPrimitives bothVersions collisionFree_bothVersions⟩

def twoCuts : Bytes :=
  replicate 4096 0#8 ++ cutWindow ++ (replicate 2048 0#8 ++ cutWindow ++ [0#8])
where
  cutWindow : Bytes := [0, 2, 0, 0, 0, 0, 0, 2, 0, 0, 2, 0, 2, 0, 0]

def twoProfiles : List Capture :=
  [demoCapture .legacyV1 (some ['s', 'm', 'a', 'l', 'l']) twoCuts (by decide +kernel),
    demoCapture .legacyV1 none twoCuts (by decide +kernel)]

set_option maxRecDepth 100000 in
theorem chunks_small : fastcdcChunk (pad twoCuts) (configFromEnv (some ['s', 'm', 'a', 'l', 'l'])) =
    [twoCuts.take 4111, (twoCuts.drop 4111).take 2063, twoCuts.drop 6174] := by decide +kernel

set_option maxRecDepth 100000 in
theorem chunks_default : fastcdcChunk (pad twoCuts) (configFromEnv none) =
    [twoCuts.take 4111, twoCuts.drop 4111] := by decide +kernel

def twoCutsUse (total : Nat) : Bytes × Nat → ChunkUse :=
  useV1 lengthPrimitives (replicate 32 1#8) 0 (replicate 32 5#8) twoCuts total

theorem runUses_twoProfiles : runUses lengthPrimitives twoProfiles =
    [(twoCuts.take 4111, 0), ((twoCuts.drop 4111).take 2063, 1), (twoCuts.drop 6174, 2)].map (twoCutsUse 3) ++
      [(twoCuts.take 4111, 0), (twoCuts.drop 4111, 1)].map (twoCutsUse 2) := by
  simp only [runUses, twoProfiles, demoCapture, Capture.usesOf, usesV1, flatMap_cons, flatMap_nil,
    chunks_small, chunks_default, append_nil]
  rfl

set_option maxRecDepth 100000 in
theorem collisionFree_twoProfiles : CollisionFree lengthPrimitives twoProfiles := by
  refine collisionFree_of_all
    [twoCuts, twoCuts.take 4111, (twoCuts.drop 4111).take 2063, twoCuts.drop 6174, twoCuts.drop 4111] ?_
    (by decide +kernel) ?_ ?_
  · simp [twoProfiles, demoCapture, Capture.chunksOf, chunks_small, chunks_default]
  · rw [runUses_twoProfiles]
    decide +kernel
  · simp [twoProfiles, demoCapture]

/-- One file under the small and then under the default profile, in one vault and epoch: its first
chunk is encrypted twice with one key and nonce under two associated data. -/
theorem profiles_reuse_nonce : CollisionFree lengthPrimitives twoProfiles ∧
    ¬ NonceRespecting lengthPrimitives (runUses lengthPrimitives twoProfiles) := by
  refine ⟨collisionFree_twoProfiles, fun hresp => ?_⟩
  rw [runUses_twoProfiles] at hresp
  have haad := (hresp (twoCutsUse 3 (twoCuts.take 4111, 0)) (by simp) (twoCutsUse 2 (twoCuts.take 4111, 0))
    (by simp) rfl rfl).2
  revert haad
  decide +kernel

end CipherVault.Snapshot
