import CipherVault.Base.Frames
import CipherVault.Crypto.Basic

/-!
# Crypto.Piv

Command APDUs and dynamic-authentication responses of `crates/crypto/src/piv.rs`. A command is read
back with the grammar of ISO 7816-4 (`Iso7816.parse`), which has one byte or two for both lengths.
`to_bytes` always has one for the expected length, and the search for a response takes a length to
be one byte: both are right for short messages only.
-/

namespace CipherVault.Crypto.Piv

open List

open Frames (beBytes beValue beValue_beBytes)

namespace Iso7816

structure Command where
  (header data : Bytes)
  expected : Option Nat

def expected (field : Bytes) : Nat := if beValue field = 0 then 256 ^ field.length else beValue field

def parseData (width length : Nat) (rest : Bytes) : Option (Bytes × Option Nat) :=
  if length = 0 then none
  else if rest.length = length then some (rest, none)
  else if rest.length = length + width then some (rest.take length, some (expected (rest.drop length)))
  else none

def parseBody : Bytes → Option (Bytes × Option Nat)
  | [] => some ([], none)
  | [le] => some ([], some (expected [le]))
  | lc :: high :: rest =>
    if lc ≠ 0 then parseData 1 lc.toNat (high :: rest)
    else match rest with
      | [] => none
      | [low] => some ([], some (expected [high, low]))
      | low :: rest => parseData 2 (beValue [high, low]) rest

def parse (bytes : Bytes) : Option Command :=
  if bytes.length < 4 then none
  else (parseBody (bytes.drop 4)).map fun body => ⟨bytes.take 4, body.1, body.2⟩

theorem parseData_append {width : Nat} {data le : Bytes} (hdata : data ≠ [])
    (hle : le = [] ∨ le.length = width) :
    parseData width data.length (data ++ le) = some (data, if le = [] then none else some (expected le)) := by
  rw [parseData, if_neg (fun h => hdata (length_eq_zero_iff.mp h))]
  by_cases hnil : le = []
  · simp [hnil]
  · have hpos := length_pos_iff.mpr hnil
    have hwidth := hle.resolve_left hnil
    rw [length_append, if_neg (by omega), if_pos (by omega), take_left, drop_left, if_neg hnil]

theorem parseBody_short {lc : Byte} {rest : Bytes} (hlc : lc ≠ 0) (hrest : rest ≠ []) :
    parseBody (lc :: rest) = parseData 1 lc.toNat rest := by
  cases rest with
  | nil => exact absurd rfl hrest
  | cons high rest => exact if_pos hlc

theorem parseBody_extended {high low : Byte} {rest : Bytes} (hrest : rest ≠ []) :
    parseBody (0#8 :: high :: low :: rest) = parseData 2 (beValue [high, low]) rest := by
  cases rest with
  | nil => exact absurd rfl hrest
  | cons first rest => rfl

end Iso7816

def encodeBerTlv (tag : Byte) (value : Bytes) : Bytes :=
  tag ::
    ((if value.length < 0x80 then beBytes 1 value.length
      else if value.length ≤ 0xFF then 0x81#8 :: beBytes 1 value.length
      else 0x82#8 :: beBytes 2 value.length) ++ value)

structure CommandApdu where
  (cla ins p1 p2 : Byte)
  data : Bytes
  le : Option Byte

namespace CommandApdu

def header (apdu : CommandApdu) : Bytes := [apdu.cla, apdu.ins, apdu.p1, apdu.p2]

/-- What stands behind the header. -/
def body (apdu : CommandApdu) : Bytes :=
  (if apdu.data = [] then []
    else if apdu.data.length ≤ 255 then beBytes 1 apdu.data.length ++ apdu.data
    else 0x00#8 :: (beBytes 2 apdu.data.length ++ apdu.data)) ++ apdu.le.toList

def toBytes (apdu : CommandApdu) : Bytes := apdu.header ++ apdu.body

def generalAuthenticateSign (algId slot : Byte) (challenge : Bytes) : CommandApdu :=
  let inner := [0x82#8, 0x00#8] ++ encodeBerTlv 0x81#8 challenge
  { cla := 0x00#8, ins := 0x87#8, p1 := algId, p2 := slot, data := encodeBerTlv 0x7C#8 inner,
    le := some 0x00#8 }

theorem parseBody_body (apdu : CommandApdu) (hlength : apdu.data.length ≤ 65535)
    (hform : apdu.data.length ≤ 255 ∨ apdu.le = none) :
    Iso7816.parseBody apdu.body =
      some (apdu.data, apdu.le.map fun le => Iso7816.expected [le]) := by
  obtain ⟨cla, ins, p1, p2, data, le⟩ := apdu
  dsimp only [body] at hlength hform ⊢
  have hle : (if le.toList = [] then none else some (Iso7816.expected le.toList)) =
      le.map fun le => Iso7816.expected [le] := by
    cases le <;> simp
  by_cases hd : data = []
  · subst hd
    cases le <;> rfl
  have hpos := length_pos_iff.mpr hd
  have hr : data ++ le.toList ≠ [] := by simp [hd]
  rw [if_neg hd]
  by_cases hshort : data.length ≤ 255
  · have hlc : (BitVec.ofNat 8 data.length).toNat = data.length := by
      rw [BitVec.toNat_ofNat, Nat.mod_eq_of_lt (by omega)]
    have hne : BitVec.ofNat 8 data.length ≠ 0 := fun h => by
      rw [h] at hlc
      exact absurd hlc (Nat.ne_of_lt hpos)
    rw [if_pos hshort]
    refine (Iso7816.parseBody_short hne hr).trans ?_
    rw [hlc, Iso7816.parseData_append hd (by cases le <;> simp), hle]
  · have hn := hform.resolve_left hshort
    have hlc : beValue (beBytes 2 data.length) = data.length := by
      rw [beValue_beBytes, Nat.mod_eq_of_lt (by omega)]
    rw [if_neg hshort]
    refine (Iso7816.parseBody_extended hr).trans ?_
    rw [show [_, _] = beBytes 2 data.length from rfl, hlc,
      Iso7816.parseData_append hd (by simp [hn]), hle]

/-- In the extended form one byte for the expected length fits no case of the grammar. -/
theorem parseBody_extended_le (apdu : CommandApdu) (hlength : apdu.data.length ≤ 65535)
    (hlong : 255 < apdu.data.length) (hle : apdu.le ≠ none) :
    Iso7816.parseBody apdu.body = none := by
  obtain ⟨cla, ins, p1, p2, data, le⟩ := apdu
  dsimp only [body] at hlength hlong hle ⊢
  obtain ⟨le, rfl⟩ := Option.ne_none_iff_exists'.mp hle
  have hd : data ≠ [] := fun h => by simp [h] at hlong
  have hlc : beValue (beBytes 2 data.length) = data.length := by
    rw [beValue_beBytes, Nat.mod_eq_of_lt (by omega)]
  rw [if_neg hd, if_neg (by omega)]
  refine (Iso7816.parseBody_extended (by simp)).trans ?_
  rw [show [_, _] = beBytes 2 data.length from rfl, hlc, Iso7816.parseData, if_neg (by omega),
    if_neg (by simp), if_neg (by simp)]

/-- Exactly the commands whose data fit the short form, or that expect no data, are read back. -/
theorem parse_toBytes (apdu : CommandApdu) (hlength : apdu.data.length ≤ 65535) :
    Iso7816.parse apdu.toBytes =
        some ⟨apdu.header, apdu.data, apdu.le.map fun le => Iso7816.expected [le]⟩ ↔
      apdu.data.length ≤ 255 ∨ apdu.le = none := by
  have hparse : Iso7816.parse apdu.toBytes =
      (Iso7816.parseBody apdu.body).map fun body => ⟨apdu.header, body.1, body.2⟩ := rfl
  rw [hparse]
  constructor
  · intro h
    by_contra hform
    rw [not_or, Nat.not_le] at hform
    rw [parseBody_extended_le apdu hlength hform.1 hform.2] at h
    cases h
  · intro hform
    rw [parseBody_body apdu hlength hform]
    rfl

theorem short_command_parses :
    Iso7816.parse (generalAuthenticateSign 0x22#8 0x9C#8 [1#8, 2#8]).toBytes =
      some ⟨[0x00#8, 0x87#8, 0x22#8, 0x9C#8], [0x7C#8, 6#8, 0x82#8, 0#8, 0x81#8, 2#8, 1#8, 2#8], some 256⟩ :=
  (parse_toBytes (generalAuthenticateSign 0x22#8 0x9C#8 [1#8, 2#8]) (by decide)).mpr
    (.inl (by decide))

/-- The command that signs a message of 248 bytes has 256 bytes of data, and one byte for the
expected length. -/
theorem long_command_malformed :
    (generalAuthenticateSign 0x22#8 0x9C#8 (replicate 248 0#8)).data.length = 256 ∧
      Iso7816.parse (generalAuthenticateSign 0x22#8 0x9C#8 (replicate 248 0#8)).toBytes = none := by
  decide +kernel

end CommandApdu

structure ResponseApdu where
  data : Bytes
  (sw1 sw2 : Byte)

namespace ResponseApdu

variable (response : ResponseApdu)

def isSuccess : Bool := response.sw1 == 0x90#8 && response.sw2 == 0x00#8

def errorDescription : String :=
  match response.sw1.toNat, response.sw2.toNat with
  | 0x90, 0x00 => "Success"
  | 0x69, 0x82 => "Security status not satisfied (PIN required or locked)"
  | 0x69, 0x85 => "Conditions of use not satisfied (User touch presence timeout or cancelled)"
  | 0x6A, 0x80 => "Incorrect data parameters"
  | 0x6A, 0x82 => "PIV Applet or Object not found"
  | 0x6A, 0x88 => "Referenced key slot not provisioned"
  | _, _ => "APDU Status Error 0x" ++ (hex [response.sw1, response.sw2]).toUpper

def findItem (tag : Byte) : Nat → Bytes → Option Bytes
  | fuel + 1, itemTag :: itemLen :: rest =>
    if itemLen.toNat > rest.length then none
    else if itemTag = tag then some (rest.take itemLen.toNat)
    else findItem tag fuel (rest.drop itemLen.toNat)
  | _, _ => none

/-- An error is the message of an `HsmError`. -/
def extractDynamicAuthResponse (tag : Byte) : Except String Bytes :=
  let d := response.data
  if !response.isSuccess then .error response.errorDescription
  else if d.length < 4 ∨ d.head? ≠ some 0x7C#8 then .ok d
  else .ok ((findItem tag d.length (d.drop 2)).getD d)

def wrapped (tag : Byte) (value : Bytes) : ResponseApdu :=
  { data := encodeBerTlv 0x7C#8 (encodeBerTlv tag value), sw1 := 0x90#8, sw2 := 0x00#8 }

theorem findItem_cons (tag itemTag itemLen : Byte) (fuel : Nat) (rest : Bytes) :
    findItem tag (fuel + 1) (itemTag :: itemLen :: rest) =
      if itemLen.toNat > rest.length then none
      else if itemTag = tag then some (rest.take itemLen.toNat)
      else findItem tag fuel (rest.drop itemLen.toNat) := rfl

variable {tag : Byte} {value : Bytes}

/-- What is found is shorter than the items, and its length was one byte. -/
theorem findItem_length {fuel : Nat} {items : Bytes}
    (h : findItem tag fuel items = some value) :
    value.length + 2 ≤ items.length ∧ value.length < 256 := by
  induction fuel generalizing items with
  | zero => cases h
  | succ fuel ih =>
    match items with
    | [] => cases h
    | [_] => cases h
    | itemTag :: itemLen :: rest =>
      rw [findItem_cons] at h
      have hbyte := itemLen.isLt
      split at h
      · cases h
      split at h
      · cases h
        simp only [List.length_take, length_cons]
        omega
      · have := ih h
        simp only [length_drop, length_cons] at this ⊢
        omega

theorem encodeBerTlv_short (tag : Byte) (h : value.length < 128) :
    encodeBerTlv tag value = tag :: BitVec.ofNat 8 value.length :: value := by
  rw [encodeBerTlv, if_pos h]
  rfl

theorem encodeBerTlv_long (tag : Byte) (h : 128 ≤ value.length)
    (hle : value.length ≤ 255) :
    encodeBerTlv tag value = tag :: 0x81#8 :: BitVec.ofNat 8 value.length :: value := by
  rw [encodeBerTlv, if_neg (by omega), if_pos hle]
  rfl

theorem encodeBerTlv_longer (tag : Byte) (h : 256 ≤ value.length) :
    encodeBerTlv tag value = tag :: 0x82#8 :: BitVec.ofNat 8 (value.length / 256) ::
      BitVec.ofNat 8 value.length :: value := by
  rw [encodeBerTlv, if_neg (by omega), if_neg (by omega)]
  rfl

theorem length_lt_encodeBerTlv (tag : Byte) (value : Bytes) :
    value.length < (encodeBerTlv tag value).length := by
  rw [encodeBerTlv, length_cons, length_append]
  omega

theorem extract_wrapped_short (tag : Byte) (h : value.length ≤ 125) :
    (wrapped tag value).extractDynamicAuthResponse tag = .ok value := by
  have hd : (wrapped tag value).data =
      0x7C#8 :: BitVec.ofNat 8 (value.length + 2) :: tag :: BitVec.ofNat 8 value.length :: value := by
    rw [wrapped, encodeBerTlv_short tag (by omega), encodeBerTlv_short _ (by simp; omega)]
    rfl
  have hlen : (BitVec.ofNat 8 value.length).toNat = value.length := by
    rw [BitVec.toNat_ofNat, Nat.mod_eq_of_lt (by omega)]
  have hsuc : (wrapped tag value).isSuccess = true := rfl
  simp [extractDynamicAuthResponse, hsuc, hd, findItem, hlen]

/-- A value of 253, 254 or 255 bytes behind as many bytes less 253 that are skipped. -/
theorem findItem_inside_ne (htag : tag = 0x82#8 ∨ tag = 0x85#8)
    (hlow : 253 ≤ value.length) (hhigh : value.length < 256) (fuel : Nat) :
    findItem tag fuel ((tag :: 0x81#8 :: BitVec.ofNat 8 value.length :: value).drop
      (value.length - 253)) ≠ some value := by
  intro h
  cases fuel with
  | zero => cases h
  | succ fuel =>
  obtain hlen | hlen | hlen : value.length = 253 ∨ value.length = 254 ∨ value.length = 255 := by omega
  · -- 129 bytes from the length byte on
    rw [hlen, Nat.sub_self, List.drop_zero, findItem_cons, if_neg (by simp [hlen]), if_pos rfl] at h
    have := congrArg List.length (Option.some.inj h)
    rw [List.length_take, length_cons, hlen] at this
    exact absurd this (by decide)
  · rw [hlen] at h
    change findItem tag (fuel + 1) (0x81#8 :: 254#8 :: value) = _ at h
    have hne : 0x81#8 ≠ tag := by
      rintro rfl
      exact absurd htag (by decide)
    rw [findItem_cons, if_neg (by simp [hlen]), if_neg hne] at h
    have := (findItem_length h).1
    rw [length_drop, hlen] at this
    exact absurd this (by decide)
  · rw [hlen] at h
    have := (findItem_length h).1
    rw [length_drop, length_cons, length_cons, length_cons, hlen] at this
    omega

theorem toNat_of_tag (htag : tag = 0x82#8 ∨ tag = 0x85#8) : tag.toNat = 130 ∨ tag.toNat = 133 := by
  rcases htag with rfl | rfl
  · exact .inl rfl
  · exact .inr rfl

/-- The tag is taken for a length, and too little is left behind it. -/
theorem findItem_long_ne (htag : tag = 0x82#8 ∨ tag = 0x85#8) (hlong : 128 ≤ value.length)
    (houter : value.length + 3 ≤ 255) (fuel : Nat) :
    findItem tag (fuel + 1) ((wrapped tag value).data.drop 2) ≠ some value := by
  intro h
  have htagNat := toNat_of_tag htag
  have hd : (wrapped tag value).data.drop 2 = BitVec.ofNat 8 (value.length + 3) :: tag ::
      0x81#8 :: BitVec.ofNat 8 value.length :: value := by
    rw [wrapped, encodeBerTlv_long tag (by omega) (by omega), encodeBerTlv_long _
      (by simp; omega) (by simp only [length_cons]; omega)]
    rfl
  rw [hd, findItem_cons] at h
  split at h
  · cases h
  rename_i hfits
  rw [length_cons, length_cons] at hfits
  have hne : BitVec.ofNat 8 (value.length + 3) ≠ tag := fun heq => by
    have := congrArg BitVec.toNat heq
    rw [BitVec.toNat_ofNat, Nat.mod_eq_of_lt (by omega)] at this
    omega
  rw [if_neg hne] at h
  have := (findItem_length h).1
  rw [length_drop, length_cons, length_cons] at this
  omega

/-- The search reads the bytes of a longer length as an item, and finds something else or nothing.
-/
theorem findItem_ne (htag : tag = 0x82#8 ∨ tag = 0x85#8)
    (hlong : 126 ≤ value.length) (fuel : Nat) :
    findItem tag fuel ((wrapped tag value).data.drop 2) ≠ some value := by
  intro h
  obtain ⟨-, hbyte⟩ := findItem_length h
  cases fuel with
  | zero => cases h
  | succ fuel =>
  have htagNat := toNat_of_tag htag
  by_cases hshort : value.length < 128
  · -- the tag is taken for a length, and is more than what is left
    have hd : (wrapped tag value).data.drop 2 = BitVec.ofNat 8 (value.length + 2) :: tag ::
        BitVec.ofNat 8 value.length :: value := by
      rw [wrapped, encodeBerTlv_short tag hshort, encodeBerTlv_long _ (by simp; omega)
        (by simp; omega)]
      rfl
    rw [hd, findItem_cons, if_pos (by rw [length_cons]; omega)] at h
    cases h
  · by_cases houter : value.length + 3 ≤ 255
    · exact findItem_long_ne htag (by omega) houter _ h
    · have hd : (wrapped tag value).data.drop 2 = BitVec.ofNat 8 ((value.length + 3) / 256) ::
          BitVec.ofNat 8 (value.length + 3) :: tag :: 0x81#8 :: BitVec.ofNat 8 value.length ::
          value := by
        rw [wrapped, encodeBerTlv_long tag (by omega) (by omega), encodeBerTlv_longer _
          (by simp; omega)]
        rfl
      have hone : (value.length + 3) / 256 = 1 := by omega
      have hfew : (BitVec.ofNat 8 (value.length + 3)).toNat = value.length - 253 := by
        rw [BitVec.toNat_ofNat]
        omega
      have hne : BitVec.ofNat 8 1 ≠ tag := by
        rintro rfl
        exact absurd htag (by decide)
      rw [hd, hone, findItem_cons, hfew, if_neg (by simp; omega), if_neg hne] at h
      -- the search goes on at the tag, behind it or behind its first length byte
      exact findItem_inside_ne htag (by omega) hbyte fuel h

/-- Under the tags of the two responses exactly the values of at most 125 bytes, for which both
lengths are single bytes, are found in their template. -/
theorem extract_wrapped (tag : Byte) (htag : tag = 0x82#8 ∨ tag = 0x85#8) (value : Bytes)
    (hlength : value.length ≤ 65535) :
    (wrapped tag value).extractDynamicAuthResponse tag = .ok value ↔ value.length ≤ 125 := by
  refine ⟨fun h => ?_, extract_wrapped_short tag⟩
  by_contra hlong
  have hsuc : (wrapped tag value).isSuccess = true := rfl
  have hmore : value.length < (wrapped tag value).data.length :=
    (length_lt_encodeBerTlv tag value).trans (length_lt_encodeBerTlv _ _)
  rw [extractDynamicAuthResponse, hsuc, if_neg (by decide)] at h
  split at h
  · rw [Except.ok.inj h] at hmore
    exact lt_irrefl _ hmore
  · cases hfound : findItem tag (wrapped tag value).data.length ((wrapped tag value).data.drop 2) with
    | none =>
      rw [hfound, Option.getD_none] at h
      rw [Except.ok.inj h] at hmore
      exact lt_irrefl _ hmore
    | some found =>
      rw [hfound, Option.getD_some] at h
      rw [Except.ok.inj h] at hfound
      exact findItem_ne htag (by omega) _ hfound

theorem signature_extracted :
    (wrapped 0x82#8 (replicate 64 7#8)).extractDynamicAuthResponse 0x82#8 = .ok (replicate 64 7#8) :=
  (extract_wrapped 0x82#8 (.inl rfl) (replicate 64 7#8) (by decide)).mpr (by decide)

/-- Of a value of 126 bytes the whole template is returned: five bytes more. -/
theorem long_value_not_extracted :
    (wrapped 0x82#8 (replicate 126 7#8)).extractDynamicAuthResponse 0x82#8 =
        .ok (wrapped 0x82#8 (replicate 126 7#8)).data ∧
      (wrapped 0x82#8 (replicate 126 7#8)).data.length = 131 := by
  decide +kernel

end ResponseApdu
end CipherVault.Crypto.Piv
