/-
# Hexadecimal texts

The text form of byte strings with two hexadecimal digits for each byte.  A package
that provides it is a `Codec`: decoding undoes encoding, and a text is twice as long
as the bytes it stands for.  `Codec.lowercase` writes small letters and reads both
kinds; it goes over the bytes of the text in UTF-8, so that a character of several bytes
counts as several.
-/
import OmniTransaction.Rust

open ByteOrder Rust

namespace Hex

/-- Why a text is no hexadecimal text.  The character is a byte of the text. -/
inductive FromHexError where
  | invalidHexCharacter (c : Char) (index : ℕ)
  | oddLength
  | invalidStringLength
  deriving DecidableEq, Repr

/-- `Debug` of a character that is a byte.  What is escaped behind the first 256 characters is
left out. -/
def debugChar (c : Char) : String :=
  let n := c.toNat
  if n = 0 then "'\\0'"
  else if n = 9 then "'\\t'"
  else if n = 10 then "'\\n'"
  else if n = 13 then "'\\r'"
  else if n = 0x27 then "'\\''"
  else if n = 0x5C then "'\\\\'"
  -- the characters that are not printed: controls, the hard space and the soft hyphen
  else if n < 0x20 ∨ 0x7F ≤ n ∧ n ≤ 0xA0 ∨ n = 0xAD then
    "'\\u\x7b" ++ String.ofList (Nat.toDigits 16 n) ++ "\x7d'"
  else "'" ++ String.singleton c ++ "'"

/-- `Debug`. -/
def FromHexError.debug : FromHexError → String
  | invalidHexCharacter c index =>
      "InvalidHexCharacter \x7b c: " ++ debugChar c ++ s!", index: {index} \x7d"
  | oddLength => "OddLength"
  | invalidStringLength => "InvalidStringLength"

/-- A package for hexadecimal texts. -/
structure Codec where
  encode : Bytes → String
  decode : String → Outcome FromHexError Bytes
  /-- The text of an error. -/
  describe : FromHexError → String
  decode_encode : ∀ b, decode (encode b) = .ok b
  length_encode : ∀ b, (encode b).length = 2 * b.length

namespace Codec

variable (hex : Codec)

/-- The panic of `expect` at a text that is not decoded. -/
def expectMessage (msg text : String) : String :=
  match hex.decode text with
  | .err e => msg ++ ": " ++ e.debug
  | _ => msg

theorem expectMessage_of_err {text : String} {e : FromHexError} (h : hex.decode text = .err e)
    (msg : String) : hex.expectMessage msg text = msg ++ ": " ++ e.debug := by
  rw [expectMessage, h]

/-- The empty text stands for no bytes. -/
theorem decode_empty : hex.decode "" = .ok [] := by
  have hempty : hex.encode [] = "" := by
    rw [← String.length_eq_zero_iff, hex.length_encode]
    rfl
  rw [← hempty, hex.decode_encode]

end Codec

/-! ## Small letters -/

/-- The value of a digit. -/
def digitValue (c : Char) : Option ℕ :=
  if '0' ≤ c ∧ c ≤ '9' then some (c.toNat - '0'.toNat)
  else if 'a' ≤ c ∧ c ≤ 'f' then some (c.toNat - 'a'.toNat + 10)
  else if 'A' ≤ c ∧ c ≤ 'F' then some (c.toNat - 'A'.toNat + 10)
  else none

/-- The bytes of a text, each as a character. -/
def byteChars (s : String) : List Char :=
  s.toList.flatMap fun c => (String.utf8EncodeChar c).map fun b => Char.ofNat b.toNat

/-- Two digits for each byte. -/
def encodeDigits (b : Bytes) : List Char :=
  b.flatMap fun x => [Nat.digitChar (x.toNat / 16), Nat.digitChar (x.toNat % 16)]

/-- The bytes of pairs of digits, the first of them at `index`. -/
def decodeDigits : ℕ → List Char → Outcome FromHexError Bytes
  | _, [] => .ok []
  | _, [_] => .err .oddLength
  | index, c :: d :: cs =>
    match digitValue c, digitValue d with
    | some high, some low => do
      let b ← decodeDigits (index + 2) cs
      return UInt8.ofNat (high * 16 + low) :: b
    | none, _ => .err (.invalidHexCharacter c index)
    | _, none => .err (.invalidHexCharacter d (index + 1))

/-- A character of one byte is that byte. -/
theorem map_utf8EncodeChar {c : Char} (hc : c.toNat < 128) :
    (String.utf8EncodeChar c).map (fun b => Char.ofNat b.toNat) = [c] := by
  have hbyte : (UInt8.ofNat c.toNat).toNat = c.toNat := UInt8.toNat_ofNat_of_lt' (by
    show c.toNat < 256
    omega)
  have hencode : String.utf8EncodeChar c = [UInt8.ofNat c.toNat] :=
    if_pos (show c.val.toNat ≤ 0x7f from Nat.le_of_lt_succ hc)
  rw [hencode, List.map_singleton, hbyte, Char.ofNat_toNat]

/-- The last byte of any other character is none of a character of one byte. -/
theorem exists_mem_utf8EncodeChar {c : Char} (hc : 128 ≤ c.toNat) :
    ∃ b ∈ String.utf8EncodeChar c, 128 ≤ b.toNat := by
  have hlast : 128 ≤ (UInt8.ofNat (c.val.toNat % 64 + 128)).toNat := by
    rw [UInt8.toNat_ofNat_of_lt' (by show _ < 256; omega)]
    omega
  have hval : ¬ c.val.toNat ≤ 0x7f := Nat.not_le.mpr hc
  refine ⟨UInt8.ofNat (c.val.toNat % 64 + 128), ?_, hlast⟩
  unfold String.utf8EncodeChar
  dsimp only
  rw [if_neg hval]
  split_ifs <;> simp

/-- A text of characters of one byte each. -/
theorem byteChars_eq_toList {s : String} (hs : ∀ c ∈ s.toList, c.toNat < 128) :
    byteChars s = s.toList := by
  have hmap : s.toList.flatMap (fun c => (String.utf8EncodeChar c).map fun b => Char.ofNat b.toNat)
      = s.toList.flatMap fun c => [c] :=
    List.flatMap_congr fun c hc => map_utf8EncodeChar (hs c hc)
  rw [byteChars, hmap, List.flatMap_singleton']

/-- A text of ASCII bytes has ASCII characters. -/
theorem lt_of_byteChars {s : String} (hs : ∀ c ∈ byteChars s, c.toNat < 128) :
    ∀ c ∈ s.toList, c.toNat < 128 := by
  intro c hc
  by_contra hlarge
  obtain ⟨b, hb, hle⟩ := exists_mem_utf8EncodeChar (Nat.le_of_not_lt hlarge)
  have hmem : Char.ofNat b.toNat ∈ byteChars s :=
    List.mem_flatMap.mpr ⟨c, hc, List.mem_map_of_mem hb⟩
  have hvalid : b.toNat.isValidChar := Or.inl (b.toNat_lt.trans (by norm_num))
  have hnat : (Char.ofNat b.toNat).toNat = b.toNat := by
    rw [Char.ofNat, dif_pos hvalid]
    rfl
  have hlt := hs _ hmem
  omega

/-- A digit that is written is read back. -/
theorem digitValue_digitChar {n : ℕ} (hn : n < 16) : digitValue (Nat.digitChar n) = some n := by
  have hall : ∀ n ∈ List.range 16, digitValue (Nat.digitChar n) = some n := by decide
  exact hall n (List.mem_range.mpr hn)

/-- A digit is a character of one byte. -/
theorem toNat_lt_of_digitValue {c : Char} (h : (digitValue c).isSome) : c.toNat < 128 := by
  have hle : ∀ d : Char, c ≤ d → c.toNat ≤ d.toNat := fun d hd => hd
  unfold digitValue at h
  split_ifs at h with h₁ h₂ h₃
  · exact (hle _ h₁.2).trans_lt (by decide)
  · exact (hle _ h₂.2).trans_lt (by decide)
  · exact (hle _ h₃.2).trans_lt (by decide)
  · cases h

/-- The digits of bytes are decoded to these bytes. -/
theorem decodeDigits_encodeDigits (index : ℕ) (b : Bytes) :
    decodeDigits index (encodeDigits b) = .ok b := by
  induction b generalizing index with
  | nil => rfl
  | cons x b ih =>
    have hx := x.toNat_lt
    have hhigh := digitValue_digitChar (n := x.toNat / 16) (by omega)
    have hlow := digitValue_digitChar (n := x.toNat % 16) (by omega)
    have hvalue : x.toNat / 16 * 16 + x.toNat % 16 = x.toNat := by omega
    have hrest := ih (index + 2)
    show decodeDigits index (_ :: _ :: encodeDigits b) = _
    simp only [decodeDigits, hhigh, hlow, hrest, hvalue, UInt8.ofNat_toNat]
    rfl

/-- What is written are digits. -/
theorem isSome_digitValue_of_mem {b : Bytes} {c : Char} (hc : c ∈ encodeDigits b) :
    (digitValue c).isSome := by
  obtain ⟨x, -, hc⟩ := List.mem_flatMap.mp hc
  have hx := x.toNat_lt
  rcases List.mem_pair.mp hc with rfl | rfl
  · rw [digitValue_digitChar (by omega)]
    rfl
  · rw [digitValue_digitChar (by omega)]
    rfl

theorem length_encodeDigits (b : Bytes) : (encodeDigits b).length = 2 * b.length := by
  induction b with
  | nil => rfl
  | cons x b ih =>
    rw [encodeDigits, List.flatMap_cons, List.length_append, ← encodeDigits, ih, List.length_cons]
    simp only [List.length_cons, List.length_nil]
    omega

/-- Small letters are written, and both kinds are read. -/
def Codec.lowercase : Codec where
  encode b := String.ofList (encodeDigits b)
  decode s := if (byteChars s).length % 2 = 0 then decodeDigits 0 (byteChars s)
    else .err .oddLength
  describe
    | .invalidHexCharacter c index =>
        "Invalid character " ++ debugChar c ++ s!" at position {index}"
    | .oddLength => "Odd number of digits"
    | .invalidStringLength => "Invalid string length"
  decode_encode b := by
    have hchars : byteChars (String.ofList (encodeDigits b)) = encodeDigits b := by
      rw [byteChars_eq_toList, String.toList_ofList]
      rw [String.toList_ofList]
      exact fun c hc => toNat_lt_of_digitValue (isSome_digitValue_of_mem hc)
    have heven : (encodeDigits b).length % 2 = 0 := by
      rw [length_encodeDigits]
      omega
    rw [hchars, if_pos heven, decodeDigits_encodeDigits]
  length_encode b := by
    rw [String.length_ofList, length_encodeDigits]

/-! ## What is read -/

/-- A digit of either kind is written as a small letter. -/
theorem digitValue_spec {c : Char} {v : ℕ} (h : digitValue c = some v) :
    v < 16 ∧ Nat.digitChar v = c.toLower := by
  have hall : ∀ n ∈ List.range 128, ∀ v ∈ digitValue (Char.ofNat n),
      v < 16 ∧ Nat.digitChar v = (Char.ofNat n).toLower := by decide +kernel
  have hc := toNat_lt_of_digitValue (c := c) (by rw [h]; rfl)
  have hv := hall c.toNat (List.mem_range.mpr hc) v
  rw [Char.ofNat_toNat] at hv
  exact hv h

/-- Bytes are decoded from as many pairs of digits, which are written again in small
letters. -/
theorem decodeDigits_spec {index : ℕ} {cs : List Char} {b : Bytes}
    (h : decodeDigits index cs = .ok b) :
    (∀ c ∈ cs, (digitValue c).isSome) ∧ cs.length = 2 * b.length ∧
      encodeDigits b = cs.map Char.toLower := by
  induction index, cs using decodeDigits.induct generalizing b with
  | case1 index =>
    obtain rfl := Outcome.ok.inj h
    exact ⟨List.forall_mem_nil _, rfl, rfl⟩
  | case2 index c => cases h
  | case3 index c d cs high low hlow hhigh ih =>
    rw [decodeDigits, hhigh, hlow] at h
    obtain ⟨b', hb', h⟩ := Outcome.bind_eq_ok_iff.mp h
    obtain rfl := Outcome.ok.inj h
    obtain ⟨hdigits, hlen, hencode⟩ := ih hb'
    obtain ⟨hlt, hc⟩ := digitValue_spec hhigh
    obtain ⟨hlt', hd⟩ := digitValue_spec hlow
    have hx : (UInt8.ofNat (high * 16 + low)).toNat = high * 16 + low :=
      UInt8.toNat_ofNat_of_lt' (show high * 16 + low < 256 by omega)
    have hdiv : (high * 16 + low) / 16 = high := by omega
    have hmod : (high * 16 + low) % 16 = low := by omega
    refine ⟨?_, ?_, ?_⟩
    · rw [List.forall_mem_cons, List.forall_mem_cons, hhigh, hlow]
      exact ⟨rfl, rfl, hdigits⟩
    · rw [List.length_cons, List.length_cons, List.length_cons, hlen]
      omega
    · rw [encodeDigits, List.flatMap_cons, ← encodeDigits, hencode, hx, hdiv, hmod, hc, hd]
      rfl
  | case4 index c d cs hc => simp [decodeDigits, hc] at h
  | case5 index c d cs hd =>
    rcases hc : digitValue c with _ | v <;> simp [decodeDigits, hc, hd] at h

/-- Digits in pairs are decoded. -/
theorem exists_decodeDigits {index : ℕ} {cs : List Char}
    (hdigits : ∀ c ∈ cs, (digitValue c).isSome) (heven : cs.length % 2 = 0) :
    ∃ b, decodeDigits index cs = .ok b := by
  induction index, cs using decodeDigits.induct with
  | case1 index => exact ⟨[], rfl⟩
  | case2 index c => cases heven
  | case3 index c d cs high low hlow hhigh ih =>
    rw [List.length_cons, List.length_cons] at heven
    obtain ⟨b, hb⟩ := ih (fun c hc => hdigits c (by simp [hc])) (by omega)
    exact ⟨UInt8.ofNat (high * 16 + low) :: b, by rw [decodeDigits, hhigh, hlow, hb]; rfl⟩
  | case4 index c d cs hc =>
    have hdigit := hdigits c (by simp)
    rw [hc] at hdigit
    cases hdigit
  | case5 index c d cs hd =>
    have hdigit := hdigits d (by simp)
    rw [hd] at hdigit
    cases hdigit

/-- A character that is no digit is an error. -/
theorem decodeDigits_ne_panic {index : ℕ} {cs : List Char} (msg : String) :
    decodeDigits index cs ≠ .panic msg := by
  induction index, cs using decodeDigits.induct with
  | case1 index => exact Outcome.ok_ne_panic _ _
  | case2 index c => exact Outcome.err_ne_panic _ _
  | case3 index c d cs high low hlow hhigh ih =>
    rw [decodeDigits, hhigh, hlow]
    exact Outcome.bind_ne_panic ih fun b _ => Outcome.ok_ne_panic _ _
  | case4 index c d cs hc => simp [decodeDigits, hc]
  | case5 index c d cs hd =>
    rcases hc : digitValue c with _ | v <;> simp [decodeDigits, hc, hd]

/-- A text of digits of either kind. -/
def IsHexText (s : String) : Prop := ∀ c ∈ s.toList, (digitValue c).isSome

/-- The bytes of such a text are its characters. -/
theorem IsHexText.byteChars_eq {s : String} (hs : IsHexText s) : byteChars s = s.toList :=
  byteChars_eq_toList fun c hc => toNat_lt_of_digitValue (hs c hc)

namespace Codec

/-- An even number of digits is decoded. -/
theorem exists_decode_lowercase {s : String} (hs : IsHexText s) (heven : s.length % 2 = 0) :
    ∃ b, lowercase.decode s = .ok b := by
  rw [← String.length_toList] at heven
  obtain ⟨b, hb⟩ : ∃ b, decodeDigits 0 s.toList = .ok b := exists_decodeDigits hs heven
  refine ⟨b, ?_⟩
  show (if (byteChars s).length % 2 = 0 then decodeDigits 0 (byteChars s) else _) = _
  rw [hs.byteChars_eq, if_pos heven, hb]

/-- What is decoded are digits, two for a byte, in either case. -/
theorem decode_lowercase_spec {s : String} {b : Bytes} (h : lowercase.decode s = .ok b) :
    IsHexText s ∧ s.length = 2 * b.length ∧ lowercase.encode b = s.toLower := by
  change (if (byteChars s).length % 2 = 0 then decodeDigits 0 (byteChars s) else _) = _ at h
  split_ifs at h with heven
  -- only digits are decoded, and a digit is one byte
  have hchars : byteChars s = s.toList := byteChars_eq_toList (lt_of_byteChars fun c hc =>
    toNat_lt_of_digitValue ((decodeDigits_spec h).1 c hc))
  rw [hchars] at h
  obtain ⟨hs, hlen, hencode⟩ := decodeDigits_spec h
  refine ⟨hs, by rwa [String.length_toList] at hlen, String.toList_injective ?_⟩
  show (String.ofList (encodeDigits b)).toList = _
  rw [String.toList_ofList, hencode]
  exact String.toList_map.symm

/-- The package as it is documented: small letters are written, pairs of digits of either
kind are read, and a text is read or is an error. -/
structure Standard (hex : Codec) : Prop where
  encode_eq : ∀ b, hex.encode b = lowercase.encode b
  decode_eq_ok_iff : ∀ s b, hex.decode s = .ok b ↔ lowercase.decode s = .ok b
  decode_ne_panic : ∀ s msg, hex.decode s ≠ .panic msg

/-- The executable codec behaves as the package is documented. -/
theorem standard_lowercase : lowercase.Standard where
  encode_eq _ := rfl
  decode_eq_ok_iff _ _ := Iff.rfl
  decode_ne_panic s msg := by
    show (if (byteChars s).length % 2 = 0 then decodeDigits 0 (byteChars s) else _) ≠ _
    split_ifs
    · exact decodeDigits_ne_panic msg
    · exact Outcome.err_ne_panic _ _

/-- The digits of a text are twice as many as the bytes. -/
theorem Standard.length_eq {hex : Codec} (hhex : hex.Standard) {text : String} {b : Bytes}
    (h : hex.decode text = .ok b) : text.length = 2 * b.length :=
  (decode_lowercase_spec ((hhex.decode_eq_ok_iff _ _).mp h)).2.1

end Codec

/-- Pairs of digits. -/
def isHexPairs (text : String) : Bool :=
  text.toList.all (fun c => (digitValue c).isSome) && text.length % 2 == 0

theorem isHexPairs_iff {text : String} :
    isHexPairs text = true ↔ IsHexText text ∧ text.length % 2 = 0 := by
  simp [isHexPairs, IsHexText]

/-- A text is decoded when it consists of pairs of digits. -/
theorem Codec.Standard.isOk_decode {hex : Codec} (hhex : hex.Standard) (text : String) :
    (hex.decode text).isOk = isHexPairs text := by
  rw [Bool.eq_iff_iff, Outcome.isOk_iff, isHexPairs_iff]
  constructor
  · rintro ⟨b, hb⟩
    obtain ⟨hdigits, hlen, -⟩ :=
      Codec.decode_lowercase_spec ((hhex.decode_eq_ok_iff text b).mp hb)
    exact ⟨hdigits, by omega⟩
  · rintro ⟨hdigits, heven⟩
    obtain ⟨b, hb⟩ := Codec.exists_decode_lowercase hdigits heven
    exact ⟨b, (hhex.decode_eq_ok_iff text b).mpr hb⟩

end Hex
