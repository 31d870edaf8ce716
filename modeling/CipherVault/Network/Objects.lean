import CipherVault.Base.Dict
import CipherVault.Network.Invites

/-!
# Network.Objects

The object store of an operator, from `services/operator/src/state.rs`. An object is a file under
the id as the caller spells it, capital letters told apart. The content is compared with what the
name decodes to.
-/

namespace CipherVault.Network.Objects

open Crypto Format

abbrev Files := Dict Text Bytes

structure Config where
  vouchersRequired : Bool
  maxObjectSize : Nat
  hexError : Text → String
  ioError : String

/-- How a write ends: it fails before or after the new file is in its place. -/
inductive Write where
  | done
  | failed (replaced : Bool)

section

variable (E : Externals) (config : Config) (cid : Text) (bytes : Bytes) (write : Write) (files : Files)

def checkObject : Except String Unit :=
  if config.maxObjectSize < bytes.length then
    .error s!"Object exceeds maximum size limit of {config.maxObjectSize} bytes"
  else if (utf8 cid).length ≠ 64 then .error "Invalid CID length (must be 64 hex characters)"
  else match Hex.decode cid with
    | none => .error (config.hexError cid)
    | some expected =>
      if expected.length ≠ 32 then .error "Invalid CID digest length"
      else if E.sha256 bytes ≠ expected then .error "Digest mismatch"
      else .ok ()

/-- Checks the address and writes an object that is not there yet. -/
def putObjectInner : Except String Bool × Files :=
  match checkObject E config cid bytes with
  | .error e => (.error e, files)
  | .ok _ =>
    if files.lookup cid = some bytes then (.ok false, files)
    else match write with
      | .done => (.ok true, files.insert cid bytes)
      | .failed replaced => (.error config.ioError, if replaced then files.insert cid bytes else files)

def putObject : Except String Unit × Files :=
  if config.vouchersRequired then (.error "write voucher required", files)
  else
    let (outcome, files) := putObjectInner E config cid bytes write files
    (outcome.map fun _ => (), files)

def getObject : Option Bytes :=
  if (utf8 cid).length ≠ 64 ∨ (Hex.decode cid).isNone then none else files.lookup cid

end

structure Put where
  cid : Text
  bytes : Bytes
  write : Write

/-- The files, and the objects that were accepted. -/
structure State where
  files : Files
  accepted : List (Text × Bytes)

def step (E : Externals) (config : Config) (s : State) (put : Put) : State :=
  let (outcome, files) := putObject E config put.cid put.bytes put.write s.files
  { files := files, accepted := if outcome.isOk then (put.cid, put.bytes) :: s.accepted else s.accepted }

def run (E : Externals) (config : Config) (puts : List Put) : State := puts.foldl (step E config) ⟨∅, []⟩

section

variable {E : Externals} {config : Config} {cid : Text} {bytes : Bytes} {write : Write}
  {files : Files} {puts : List Put}

/-- The name of a file and its content. -/
def Names (E : Externals) (cid : Text) (bytes : Bytes) : Prop :=
  (utf8 cid).length = 64 ∧ Hex.decode cid = some (E.sha256 bytes)

theorem names_of_checkObject (h : checkObject E config cid bytes = .ok ()) : Names E cid bytes := by
  simp only [checkObject, ite_error_eq_ok] at h
  obtain ⟨-, hlen, h⟩ := h
  split at h
  · cases h
  · next hdec =>
    simp only [ite_error_eq_ok] at h
    exact ⟨not_not.mp hlen, by rw [hdec, not_not.mp h.2.1]⟩

theorem putObjectInner_cases : (∃ e, putObjectInner E config cid bytes write files = (.error e, files)) ∨
    Names E cid bytes ∧ ∀ cid', (putObjectInner E config cid bytes write files).2.lookup cid' =
      if cid' = cid then some bytes else files.lookup cid' := by
  have hins : ∀ cid', (files.insert cid bytes).lookup cid' = if cid' = cid then some bytes
    else files.lookup cid' := by
    intro cid'
    split
    · next heq => rw [heq, lookup_insert]
    · next hne => rw [lookup_insert_ne hne]
  unfold putObjectInner
  split
  · exact .inl ⟨_, rfl⟩
  · next hc =>
    refine or_iff_not_imp_left.mpr fun hst => ⟨names_of_checkObject hc, ?_⟩
    split
    · next hthere =>
      intro cid'
      split
      · next heq => rw [heq, hthere]
      · rfl
    · next hnew =>
      rw [if_neg hnew] at hst
      cases write with
      | done => exact hins
      | failed replaced =>
        cases replaced with
        | false => exact (hst ⟨_, rfl⟩).elim
        | true => exact hins

theorem putObject_cases (files : Files) :
    (∃ e, putObject E config cid bytes write files = (.error e, files)) ∨
    Names E cid bytes ∧ ∀ cid', (putObject E config cid bytes write files).2.lookup cid' =
      if cid' = cid then some bytes else files.lookup cid' := by
  unfold putObject
  split
  · exact .inl ⟨_, rfl⟩
  · rcases putObjectInner_cases with ⟨e, h⟩ | h
    · exact .inl ⟨e, by rw [h]; rfl⟩
    · exact .inr h

/-- Among the objects put, the digest tells them apart. -/
def NoCollision (E : Externals) (puts : List Put) : Prop :=
  ∀ a ∈ puts, ∀ b ∈ puts, E.sha256 a.bytes = E.sha256 b.bytes → a.bytes = b.bytes

/-- Every file stands under its address, and accepted ones stay. -/
structure Inv (E : Externals) (puts : List Put) (s : State) : Prop where
  named : ∀ cid bytes, s.files.lookup cid = some bytes → Names E cid bytes ∧
    ∃ put ∈ puts, put.cid = cid ∧ put.bytes = bytes
  kept : NoCollision E puts → ∀ object ∈ s.accepted, s.files.lookup object.1 = some object.2

theorem inv_step {s : State} {put : Put} (hs : Inv E puts s) (hput : put ∈ puts) :
    Inv E puts (step E config s put) := by
  rcases putObject_cases s.files with ⟨e, h⟩ | ⟨hnames, hl⟩
  · rw [step, h]
    exact hs
  · refine ⟨fun cid bytes h => ?_, fun hcol object hobject => ?_⟩
    · rw [step, hl] at h
      split at h
      · next heq =>
        cases h
        exact ⟨heq ▸ hnames, put, hput, heq.symm, rfl⟩
      · exact hs.named cid bytes h
    · have hold : object = (put.cid, put.bytes) ∨ object ∈ s.accepted := by
        simp only [step] at hobject
        split at hobject
        · exact List.mem_cons.mp hobject
        · exact .inr hobject
      rw [step, hl]
      rcases hold with rfl | hold
      · rw [if_pos rfl]
      · have hthere := hs.kept hcol object hold
        split
        · next heq =>
          -- What was stored under the name has the digest that the name decodes to.
          obtain ⟨hold, other, ho, -, hb⟩ := hs.named _ _ hthere
          have hdig := (heq ▸ hold.2).symm.trans hnames.2
          rw [← hb] at hdig ⊢
          exact congrArg some (hcol put hput other ho (Option.some.inj hdig).symm)
        · exact hthere

theorem inv_run (E : Externals) (config : Config) (puts : List Put) : Inv E puts (run E config puts) := by
  refine List.foldlRecOn puts (step E config) ⟨nofun, nofun⟩ ?_
  intro s hs put hput
  exact inv_step hs hput

theorem eq_of_decode {cid' : Text} (hcid : Hex.lower cid = cid) (hcid' : Hex.lower cid' = cid')
    (h : Hex.decode cid' = Hex.decode cid) (hsome : Hex.decode cid = some bytes) : cid' = cid := by
  rw [← hcid, ← hcid', ← Hex.encode_of_decode hsome, ← Hex.encode_of_decode (h.trans hsome)]

/-- A file always hashes to what its name decodes to. With ids in lower case and objects that do not
collide, an accepted object is returned, and is there once. -/
theorem content_addressed (E : Externals) (config : Config) (puts : List Put) (s : State)
    (hs : s = run E config puts) :
    (∀ cid bytes, s.files.lookup cid = some bytes → Hex.decode cid = some (E.sha256 bytes)) ∧
      (NoCollision E puts → (∀ put ∈ puts, Hex.lower put.cid = put.cid) →
        (∀ object ∈ s.accepted, ∀ cid, Hex.lower cid = cid → Hex.decode cid = Hex.decode object.1 →
          getObject cid s.files = some object.2) ∧
        ∀ cid cid' bytes bytes', s.files.lookup cid = some bytes → s.files.lookup cid' = some bytes' →
          Hex.decode cid = Hex.decode cid' → cid = cid') := by
  have hinv : Inv E puts s := hs ▸ inv_run E config puts
  refine ⟨fun cid bytes h => (hinv.named cid bytes h).1.2, ?_⟩
  intro hcol hlower
  have hspe : ∀ cid bytes, s.files.lookup cid = some bytes → Hex.lower cid = cid := by
    intro cid bytes h
    obtain ⟨-, put, hput, rfl, -⟩ := hinv.named cid bytes h
    exact hlower put hput
  refine ⟨?_, ?_⟩
  · intro object hobject cid hcid hdec
    have hl := hinv.kept hcol object hobject
    have hnames := (hinv.named _ _ hl).1
    rw [eq_of_decode (hspe _ _ hl) hcid hdec hnames.2, getObject]
    simp [hnames.1, hnames.2, hl]
  · intro cid cid' bytes bytes' hl hloo' hdec
    exact eq_of_decode (hspe _ _ hloo') (hspe _ _ hl) hdec (hinv.named _ _ hloo').1.2

end

namespace Capitals

def config : Config := { vouchersRequired := false, maxObjectSize := 100, hexError := fun _ => "",
                         ioError := "" }

def cid : Text := Hex.encode (reference.sha256 [9#8])

/-- Stored in lower case, an object is not found in capital letters; stored in both spellings, it is
there twice. -/
theorem found_by_spelling : let s := run reference config [⟨cid, [9#8], .done⟩]
    let twice := run reference config [⟨cid, [9#8], .done⟩, ⟨cid.map Char.toUpper, [9#8], .done⟩]
    s.accepted = [(cid, [9#8])] ∧ Hex.decode (cid.map Char.toUpper) = Hex.decode cid ∧
      getObject (cid.map Char.toUpper) s.files = none ∧ Dict.size twice.files = 2 := by
  decide +kernel

theorem retried_object_found : getObject cid
    (run reference config [⟨cid, [9#8], .failed false⟩, ⟨cid, [9#8], .done⟩]).files = some [9#8] := by
  have hlower : Hex.lower cid = cid := by decide +kernel
  refine ((content_addressed reference config _ _ rfl).2 ?_ ?_).1 (cid, [9#8]) (by decide +kernel)
    cid hlower rfl
  · simp [NoCollision]
  · simpa using hlower

end Capitals

end CipherVault.Network.Objects
