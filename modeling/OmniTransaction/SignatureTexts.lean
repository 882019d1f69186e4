/-
# Signatures as texts

The texts of a signature that a signer returns, as `serialize_ecdsa_signature_from_str` of
`src/bitcoin/utils.rs` reads them.  It looks at the two texts one after the other, wants a
first byte and 64 bytes more, and does not see where the first text ends behind its first
byte; what it writes is determined by the digits of these 64 bytes
(`serializeEcdsaSignatureFromStr_eq_iff`).
-/
import OmniTransaction.BitcoinSignature
import OmniTransaction.Hex
import OmniTransaction.Requires

open ByteOrder Rust Requirements

namespace Bitcoin

variable {ε : Type}

/-- The message of `unwrap` for a text that is not decoded. -/
def unwrapHexMessage (hex : Hex.Codec) (text : String) : String :=
  hex.expectMessage "called `Result::unwrap()` on an `Err` value" text

/-- `hex::decode(..).unwrap()`. -/
def unwrapHex (hex : Hex.Codec) (text : String) : Outcome ε Bytes :=
  (hex.decode text).unwrap Hex.FromHexError.debug

/-- `b[1..]`. -/
def sliceFromOne : Bytes → Outcome ε Bytes
  | [] => .panic "range start index 1 out of range for slice of length 0"
  | _ :: b => .ok b

/-- `serialize_ecdsa_signature_from_str`. -/
def serializeEcdsaSignatureFromStr (hex : Hex.Codec) (bigR s : String) : Outcome ε Bytes := do
  let bigRBytes ← unwrapHex hex bigR
  let sBytes ← unwrapHex hex s
  -- the signature bytes without the compression byte
  let xBytes ← sliceFromOne bigRBytes
  serializeEcdsaSignature (xBytes ++ sBytes) 0x01

/-- What is asked of the texts, in the order in which it is looked at: pairs of digits, a
first byte, and 64 bytes more. -/
def signatureChecks (hex : Hex.Codec) (bigR s : String) : List (String × Bool) :=
  [(unwrapHexMessage hex bigR, Hex.isHexPairs bigR),
    (unwrapHexMessage hex s, Hex.isHexPairs s),
    ("range start index 1 out of range for slice of length 0", bigR != ""),
    (assertEqMessage ((bigR.length + s.length) / 2 - 1) 64
      "Signature must be 64 bytes long (32 bytes for R and 32 bytes for S)",
      bigR.length + s.length == 130)]

/-- The digits of the 64 bytes, in small letters. -/
def signatureDigits (bigR s : String) : List Char :=
  (bigR.toList.drop 2 ++ s.toList).map Char.toLower

section Texts

variable {hex : Hex.Codec} {bigR s text : String} {b bytes : Bytes}

/-- The digits are decoded as by the executable codec. -/
theorem unwrapHex_eq_ok_iff (hhex : hex.Standard) :
    (unwrapHex hex text : Outcome ε Bytes) = .ok b ↔ Hex.Codec.lowercase.decode text = .ok b := by
  rw [← hhex.decode_eq_ok_iff, unwrapHex, Outcome.unwrap, Outcome.expect_eq_ok_iff]

/-- Digits are required, and then what is required of the bytes. -/
theorem requires_unwrapHex {β : Type} {f : Bytes → Outcome ε β} {rest : List (String × Bool)}
    {P : Bytes → β → Prop} (hhex : hex.Standard) (text : String)
    (h : ∀ b, (unwrapHex hex text : Outcome ε Bytes) = .ok b → Requires (f b) rest (P b)) :
    Requires (unwrapHex hex text >>= f) ((unwrapHexMessage hex text, Hex.isHexPairs text) :: rest)
      fun c => ∃ b, (unwrapHex hex text : Outcome ε Bytes) = .ok b ∧ P b c := by
  rw [← hhex.isOk_decode]
  refine (Requires.expect (hhex.decode_ne_panic text)
    (fun e he => hex.expectMessage_of_err he _)
    (fun b hb => h b (Outcome.expect_eq_ok_iff.mpr hb))).congr fun c => ?_
  simp only [unwrapHex, Outcome.unwrap, Outcome.expect_eq_ok_iff]

/-- The first byte is cut off. -/
theorem sliceFromOne_eq_ok_iff {p : Bytes} :
    (sliceFromOne p : Outcome ε Bytes) = .ok b ↔ p ≠ [] ∧ b = p.tail := by
  cases p <;> simp [sliceFromOne, eq_comm]

theorem encodeDigits_injective : Function.Injective Hex.encodeDigits := by
  intro b b' h
  have hdecode := Hex.decodeDigits_encodeDigits 0 b
  rw [h, Hex.decodeDigits_encodeDigits] at hdecode
  exact (Outcome.ok.inj hdecode).symm

/-- The digits of what is decoded are the text in lower case. -/
theorem encodeDigits_of_decode (h : Hex.Codec.lowercase.decode text = .ok b) :
    Hex.encodeDigits b = text.toList.map Char.toLower := by
  obtain ⟨-, -, hencode⟩ := Hex.Codec.decode_lowercase_spec h
  have hlist := congrArg String.toList hencode
  change (String.ofList (Hex.encodeDigits b)).toList = _ at hlist
  rw [String.toList_ofList] at hlist
  exact hlist.trans String.toList_map

/-- The 64 bytes as two integers of 32 bytes. -/
theorem exists_halves (h : b.length = 64) :
    ∃ x y : FixedBytes 32, b = x.toList ++ y.toList := by
  refine ⟨⟨b.take 32, ?_⟩, ⟨b.drop 32, ?_⟩, (List.take_append_drop 32 b).symm⟩
  · rw [List.length_take]
    omega
  · rw [List.length_drop]
    omega

/-- A signature of another length is refused. -/
theorem requires_serializeEcdsaSignature (b : Bytes) (sighashType : UInt8) :
    Requires (serializeEcdsaSignature b sighashType : Outcome ε Bytes)
      [(assertEqMessage b.length 64
        "Signature must be 64 bytes long (32 bytes for R and 32 bytes for S)", b.length == 64)]
      fun bytes => ∃ x y : FixedBytes 32, b = x.toList ++ y.toList ∧
        (serializeEcdsaSignature (x.toList ++ y.toList) sighashType : Outcome ε Bytes) =
          .ok bytes := by
  have hok : ∀ x y : FixedBytes 32, ∃ bytes,
      (serializeEcdsaSignature (x.toList ++ y.toList) sighashType : Outcome ε Bytes) = .ok bytes :=
    fun x y => ⟨_, serializeEcdsaSignature_eq x y sighashType⟩
  refine (requires_one ?_).congr fun bytes => ?_
  · by_cases h : b.length = 64
    · obtain ⟨x, y, rfl⟩ := exists_halves h
      exact .inl ⟨hok x y, beq_iff_eq.mpr h⟩
    · refine .inr ⟨?_, beq_eq_false_iff_ne.mpr h⟩
      rw [serializeEcdsaSignature, encodeSignatureAsDer, if_pos h]
      rfl
  · constructor
    · intro hbytes
      have hlen : b.length = 64 := by
        by_contra h
        rw [serializeEcdsaSignature, encodeSignatureAsDer, if_pos h] at hbytes
        cases hbytes
      obtain ⟨x, y, rfl⟩ := exists_halves hlen
      exact ⟨x, y, rfl, hbytes⟩
    · rintro ⟨x, y, rfl, hbytes⟩
      exact hbytes

/-- The zero in front depends on the first byte, so that it can be taken off again. -/
theorem asn1Contents_injective {x x' : FixedBytes 32}
    (h : asn1Contents x.toList = asn1Contents x'.toList) : x = x' := by
  have hlen := x.toList_length
  have hlen' := x'.toList_length
  apply List.Vector.toList_injective
  rcases hx : x.toList with _ | ⟨a, b⟩
  · rw [hx] at hlen
    cases hlen
  · rcases hx' : x'.toList with _ | ⟨a', b'⟩
    · rw [hx'] at hlen'
      cases hlen'
    · rw [hx] at h hlen
      rw [hx'] at h hlen'
      have hsize := congrArg List.length h
      rw [asn1Contents, asn1Contents] at h hsize
      -- a zero byte in front shows in the length
      split_ifs at h hsize
      · exact (List.cons.inj h).2
      · simp only [List.length_cons] at hlen hlen' hsize
        omega
      · simp only [List.length_cons] at hlen hlen' hsize
        omega
      · exact h

/-- What is written determines the two integers. -/
theorem serializeEcdsaSignature_injective {x y x' y' : FixedBytes 32} {sighashType : UInt8}
    (h : (serializeEcdsaSignature (x.toList ++ y.toList) sighashType : Outcome ε Bytes) =
      serializeEcdsaSignature (x'.toList ++ y'.toList) sighashType) : x = x' ∧ y = y' := by
  have hlen : ∀ b : FixedBytes 32, (asn1Contents b.toList).length < 256 := fun b =>
    (length_asn1Contents_le b.toList).trans_lt (by rw [b.toList_length]; norm_num)
  rw [serializeEcdsaSignature_eq, serializeEcdsaSignature_eq, Outcome.ok.injEq] at h
  simp only [List.cons_append, List.append_assoc, List.cons.injEq, true_and] at h
  obtain ⟨hx, h⟩ := tagged_append_inj (hlen x) (hlen x') h.2
  obtain ⟨hy, -⟩ := tagged_append_inj (hlen y) (hlen y') h
  exact ⟨asn1Contents_injective hx, asn1Contents_injective hy⟩

/-- The texts are refused by the first check that fails. -/
theorem requires_serializeEcdsaSignatureFromStr (hhex : hex.Standard) (bigR s : String) :
    Requires (serializeEcdsaSignatureFromStr hex bigR s : Outcome ε Bytes)
      (signatureChecks hex bigR s) fun bytes =>
        ∃ p, (unwrapHex hex bigR : Outcome ε Bytes) = .ok p ∧
        ∃ sBytes, (unwrapHex hex s : Outcome ε Bytes) = .ok sBytes ∧
        ∃ xBytes, (sliceFromOne p : Outcome ε Bytes) = .ok xBytes ∧
        ∃ x y : FixedBytes 32, xBytes ++ sBytes = x.toList ++ y.toList ∧
          (serializeEcdsaSignature (x.toList ++ y.toList) 0x01 : Outcome ε Bytes) =
            .ok bytes := by
  refine requires_unwrapHex hhex bigR fun p hp => requires_unwrapHex hhex s fun sBytes hs => ?_
  obtain ⟨-, hbigRlen, -⟩ := Hex.Codec.decode_lowercase_spec ((unwrapHex_eq_ok_iff hhex).mp hp)
  obtain ⟨-, hslen, -⟩ := Hex.Codec.decode_lowercase_spec ((unwrapHex_eq_ok_iff hhex).mp hs)
  have hempty : bigR = "" ↔ p = [] := by
    rw [← String.length_eq_zero_iff, ← List.length_eq_zero_iff]
    omega
  refine Requires.first ?_ fun xBytes hx => ?_
  · rcases p with _ | ⟨a, p⟩
    · exact .inr ⟨rfl, by simp [hempty]⟩
    · exact .inl ⟨⟨p, rfl⟩, by simp [hempty]⟩
  · obtain ⟨hne, rfl⟩ := sliceFromOne_eq_ok_iff.mp hx
    have hpos := List.length_pos_of_ne_nil hne
    have hlen : (p.tail ++ sBytes).length = (bigR.length + s.length) / 2 - 1 := by
      rw [List.length_append, List.length_tail]
      omega
    have hcheck : (bigR.length + s.length == 130) = ((p.tail ++ sBytes).length == 64) := by
      rw [hlen, Bool.eq_iff_iff, beq_iff_eq, beq_iff_eq]
      omega
    rw [hcheck, ← hlen]
    exact requires_serializeEcdsaSignature (p.tail ++ sBytes) 0x01

/-- The digits behind the first byte are those of the 64 bytes. -/
theorem exists_of_eq_ok (hhex : hex.Standard)
    (h : (serializeEcdsaSignatureFromStr hex bigR s : Outcome ε Bytes) = .ok bytes) :
    ∃ x y : FixedBytes 32, Hex.encodeDigits (x.toList ++ y.toList) = signatureDigits bigR s ∧
      (serializeEcdsaSignature (x.toList ++ y.toList) 0x01 : Outcome ε Bytes) = .ok bytes := by
  obtain ⟨p, hp, sBytes, hs, xBytes, hx, x, y, hxy, hbytes⟩ :=
    ((requires_serializeEcdsaSignatureFromStr hhex bigR s).ok_iff bytes).mp h
  have hbigR := encodeDigits_of_decode ((unwrapHex_eq_ok_iff hhex).mp hp)
  have hdigits := encodeDigits_of_decode ((unwrapHex_eq_ok_iff hhex).mp hs)
  obtain ⟨hne, rfl⟩ := sliceFromOne_eq_ok_iff.mp hx
  refine ⟨x, y, ?_, hbytes⟩
  rw [← hxy, signatureDigits, List.map_append, List.map_drop, ← hbigR, ← hdigits]
  rcases p with _ | ⟨a, p⟩
  · exact absurd rfl hne
  · exact List.flatMap_append

end Texts

/-- The texts are refused with the message of the first check that fails, and accepted when
none does, wherever the first text ends behind its first byte.  The result is that of the 64
bytes behind the first one; two pairs of texts give one result exactly when the same digits
stand there, up to the case of the letters. -/
theorem serializeEcdsaSignatureFromStr_eq_iff {hex : Hex.Codec} (hhex : hex.Standard) :
    (∀ bigR s msg, (serializeEcdsaSignatureFromStr hex bigR s : Outcome Empty Bytes)
      = .panic msg ↔ firstMissing (signatureChecks hex bigR s) = some msg) ∧
    (∀ bigR s, firstMissing (signatureChecks hex bigR s) = none → ∃ x y : FixedBytes 32,
      Hex.encodeDigits (x.toList ++ y.toList) = signatureDigits bigR s ∧
        (serializeEcdsaSignatureFromStr hex bigR s : Outcome Empty Bytes) =
          serializeEcdsaSignature (x.toList ++ y.toList) 0x01) ∧
    ∀ bigR s bigR' s', firstMissing (signatureChecks hex bigR s) = none →
      firstMissing (signatureChecks hex bigR' s') = none →
      ((serializeEcdsaSignatureFromStr hex bigR s : Outcome Empty Bytes) =
          serializeEcdsaSignatureFromStr hex bigR' s' ↔
        signatureDigits bigR s = signatureDigits bigR' s') := by
  have hok : ∀ bigR s, firstMissing (signatureChecks hex bigR s) = none →
      ∃ x y : FixedBytes 32, Hex.encodeDigits (x.toList ++ y.toList) = signatureDigits bigR s ∧
        (serializeEcdsaSignatureFromStr hex bigR s : Outcome Empty Bytes) =
          serializeEcdsaSignature (x.toList ++ y.toList) 0x01 := by
    intro bigR s hchecks
    obtain ⟨bytes, h⟩ :=
      (requires_serializeEcdsaSignatureFromStr (ε := Empty) hhex bigR s).exists_ok hchecks
    obtain ⟨x, y, hdigits, hbytes⟩ := exists_of_eq_ok hhex h
    exact ⟨x, y, hdigits, h.trans hbytes.symm⟩
  refine ⟨fun bigR s => (requires_serializeEcdsaSignatureFromStr hhex bigR s).panic_iff, hok,
    fun bigR s bigR' s' h h' => ?_⟩
  obtain ⟨x, y, hdigits, heq⟩ := hok bigR s h
  obtain ⟨x', y', hdigits', heq'⟩ := hok bigR' s' h'
  rw [heq, heq', ← hdigits, ← hdigits', encodeDigits_injective.eq_iff]
  constructor
  · intro hbytes
    obtain ⟨rfl, rfl⟩ := serializeEcdsaSignature_injective hbytes
    rfl
  · intro hbytes
    rw [hbytes]

/-- The halves of a signature in capital letters and, cut elsewhere, in small ones. -/
def sampleBigR : String := "03B96BFA3DA6BB4BB74EEEE9C20970725C5782F07724CD1BEFBD265C5AD5C63948"

def sampleS : String := "49283B618968DEFB0E660EA703D193BC1D213F5DD811A2D13307FCA01E20C5C0"

/-- Lower case gives the same signature. -/
theorem serializeEcdsaSignatureFromStr_sample :
    (serializeEcdsaSignatureFromStr .lowercase sampleBigR sampleS : Outcome Empty Bytes) =
        serializeEcdsaSignatureFromStr .lowercase
          "02b96bfa3da6bb4bb74eeee9c20970725c5782f07724cd1befbd265c5ad5c6394849"
          "283b618968defb0e660ea703d193bc1d213f5dd811a2d13307fca01e20c5c0" ∧
      (serializeEcdsaSignatureFromStr .lowercase "" sampleS : Outcome Empty Bytes) =
        .panic "range start index 1 out of range for slice of length 0" := by
  obtain ⟨hpanic, -, heq⟩ := serializeEcdsaSignatureFromStr_eq_iff Hex.Codec.standard_lowercase
  exact ⟨(heq _ _ _ _ (by decide) (by decide)).mpr (by decide), (hpanic _ _ _).mpr (by decide)⟩

end Bitcoin
