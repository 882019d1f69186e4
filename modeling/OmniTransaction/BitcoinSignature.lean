/-
# ECDSA signatures in scripts

`serialize_ecdsa_signature` of `src/bitcoin/utils.rs` writes a 64-byte signature in
DER with the sighash type behind it.  Leading zero bytes of the two integers are
kept, so the result is a strict signature exactly when both integers need their 32
bytes (`serializeEcdsaSignature_strict_iff`).  `build_script_sig` puts a byte in front of
the signature and of the key, which pushes them as long as they are short
(`pushes_buildScriptSig_iff`).
-/
import OmniTransaction.Der
import OmniTransaction.Rust
import OmniTransaction.ScriptPush

open ByteOrder Rust

namespace Bitcoin

variable {ε : Type}

/-- `encode_asn1_integer`. -/
def encodeAsn1Integer : Bytes → Outcome ε Bytes
  | [] => .panic "index out of bounds: the len is 0 but the index is 0"
  | x :: bytes =>
      -- if the most significant bit is set, prepend a 0x00 byte
      let integer := if x &&& 0x80 != 0 then 0x00 :: x :: bytes else x :: bytes
      .ok (0x02 :: UInt8.ofNat integer.length :: integer)

/-- `encode_signature_as_der`. -/
def encodeSignatureAsDer (signatureBytes : Bytes) : Outcome ε Bytes :=
  if signatureBytes.length ≠ 64 then
    .panic (assertEqMessage signatureBytes.length 64
      "Signature must be 64 bytes long (32 bytes for R and 32 bytes for S)")
  else do
    let rDer ← encodeAsn1Integer (signatureBytes.take 32)
    let sDer ← encodeAsn1Integer (signatureBytes.drop 32)
    let totalLen := rDer.length + sDer.length
    return 0x30 :: UInt8.ofNat totalLen :: (rDer ++ sDer)

/-- `serialize_ecdsa_signature`. -/
def serializeEcdsaSignature (signatureBytes : Bytes) (sighashType : UInt8) :
    Outcome ε Bytes := do
  let derSignature ← encodeSignatureAsDer signatureBytes
  return derSignature ++ [sighashType]

/-- The contents that `encode_asn1_integer` writes. -/
def asn1Contents : Bytes → Bytes
  | [] => []
  | x :: bytes => if Der.topBit x then 0x00 :: x :: bytes else x :: bytes

theorem ofBeBytes_asn1Contents (b : Bytes) : ofBeBytes (asn1Contents b) = ofBeBytes b := by
  cases b with
  | nil => rfl
  | cons x b =>
      rw [asn1Contents]
      split_ifs
      · rw [ofBeBytes_cons, UInt8.toNat_zero, Nat.zero_mul, Nat.zero_add]
      · rfl

theorem length_asn1Contents_le (b : Bytes) : (asn1Contents b).length ≤ b.length + 1 := by
  cases b with
  | nil => exact Nat.zero_le _
  | cons x b =>
      rw [asn1Contents]
      split_ifs
      · exact le_rfl
      · exact Nat.le_succ _

/-- The contents are strict when the integer needs its 32 bytes, up to the top bit. -/
theorem strict_asn1Contents_iff (b : FixedBytes 32) :
    Der.Strict (asn1Contents b.toList) = true ↔ 2 ^ 247 ≤ ofBeBytes b.toList := by
  obtain ⟨x, y, bytes, hb⟩ : ∃ x y bytes, b.toList = x :: y :: bytes := by
    match h : b.toList with
    | [] => exact absurd (h ▸ b.toList_length) (by simp)
    | [_] => exact absurd (h ▸ b.toList_length) (by simp)
    | x :: y :: bytes => exact ⟨x, y, bytes, rfl⟩
  have hlen : bytes.length = 30 := by
    have h := b.toList_length
    rw [hb] at h
    simpa using h
  have hval : ofBeBytes (x :: y :: bytes)
      = x.toNat * 256 ^ 31 + (y.toNat * 256 ^ 30 + ofBeBytes bytes) := by
    rw [ofBeBytes_cons, ofBeBytes_cons, List.length_cons, hlen]
  have hrest : ofBeBytes bytes < 256 ^ 30 := hlen ▸ ofBeBytes_lt bytes
  have hy := y.toNat_lt
  rw [hb, hval, asn1Contents]
  by_cases htop : Der.topBit x = true
  · -- the zero byte in front is needed
    have hx := (Der.topBit_iff x).mp htop
    rw [if_pos htop]
    simp only [Der.Strict, htop, Der.topBit_zero]
    constructor
    · intro _
      omega
    · exact fun _ => rfl
  · have hx : ¬ 128 ≤ x.toNat := fun h => htop ((Der.topBit_iff x).mpr h)
    rw [if_neg htop]
    by_cases hx0 : x = 0
    · -- the first byte is redundant unless the next one has its top bit set
      subst hx0
      have hy' := Der.topBit_iff y
      simp only [Der.Strict, Der.topBit_zero, bne_self_eq_false, Bool.not_false, Bool.true_and,
        Bool.false_or, hy', UInt8.toNat_zero]
      omega
    · have hpos : x.toNat ≠ 0 := fun h => hx0 (UInt8.toNat_inj.mp h)
      have hne : (x != 0) = true := by simpa using hx0
      simp only [Der.Strict, htop, hne, Bool.not_false, Bool.true_and, Bool.true_or]
      constructor
      · intro _
        omega
      · exact fun _ => trivial

/-- An integer behind its tag and its length. -/
def tagged (c : Bytes) : Bytes := 0x02 :: UInt8.ofNat c.length :: c

theorem encodeAsn1Integer_eq (b : FixedBytes 32) :
    (encodeAsn1Integer b.toList : Outcome ε Bytes) = .ok (tagged (asn1Contents b.toList)) := by
  match h : b.toList with
  | [] => exact absurd (h ▸ b.toList_length) (by simp)
  | x :: bytes => rfl

/-- What is written for a signature. -/
theorem serializeEcdsaSignature_eq (r s : FixedBytes 32) (sighashType : UInt8) :
    (serializeEcdsaSignature (r.toList ++ s.toList) sighashType : Outcome ε Bytes) =
      .ok (0x30 :: UInt8.ofNat ((tagged (asn1Contents r.toList)).length
        + (tagged (asn1Contents s.toList)).length) ::
          (tagged (asn1Contents r.toList) ++ tagged (asn1Contents s.toList)) ++ [sighashType]) := by
  have hr : r.toList.length = 32 := r.toList_length
  have hs : s.toList.length = 32 := s.toList_length
  have hlen : ¬ (r.toList ++ s.toList).length ≠ 64 := by
    rw [List.length_append, hr, hs]
    exact fun h => h rfl
  rw [serializeEcdsaSignature, encodeSignatureAsDer, if_neg hlen, List.take_left' hr,
    List.drop_left' hr, encodeAsn1Integer_eq, encodeAsn1Integer_eq]
  rfl

/-- The contents fix what stands behind the tag. -/
theorem tagged_append_inj {c d s t : Bytes} (hc : c.length < 256) (hd : d.length < 256)
    (h : tagged c ++ s = tagged d ++ t) : c = d ∧ s = t := by
  simp only [tagged, List.cons_append, List.cons.injEq, true_and] at h
  obtain ⟨hlen, h⟩ := h
  have hbyte := congrArg UInt8.toNat hlen
  rw [UInt8.toNat_ofNat_of_lt' hc, UInt8.toNat_ofNat_of_lt' hd] at hbyte
  exact List.append_inj h hbyte

/-- The contents are those of the integer when it needs its 32 bytes. -/
theorem asn1Contents_eq_contents_iff (b : FixedBytes 32) :
    asn1Contents b.toList = Der.contents (ofBeBytes b.toList) ↔ 2 ^ 247 ≤ ofBeBytes b.toList := by
  rw [← strict_asn1Contents_iff, Der.strict_iff, ofBeBytes_asn1Contents]

/-- The result is the strict signature of the two integers exactly when both need their
32 bytes, and exactly then a strict parser returns them. -/
theorem serializeEcdsaSignature_strict_iff (r s : FixedBytes 32) (sighashType : UInt8) :
    ∃ bytes, (serializeEcdsaSignature (r.toList ++ s.toList) sighashType : Outcome Empty Bytes)
        = .ok bytes ∧
      (bytes = Der.signature (ofBeBytes r.toList) (ofBeBytes s.toList) ++ [sighashType] ↔
        2 ^ 247 ≤ ofBeBytes r.toList ∧ 2 ^ 247 ≤ ofBeBytes s.toList) ∧
      (Der.parseSignature bytes = some (ofBeBytes r.toList, ofBeBytes s.toList, sighashType) ↔
        2 ^ 247 ≤ ofBeBytes r.toList ∧ 2 ^ 247 ≤ ofBeBytes s.toList) := by
  let c := asn1Contents r.toList
  let d := asn1Contents s.toList
  have hlen : ∀ b : FixedBytes 32, (asn1Contents b.toList).length ≤ 33 := fun b =>
    (length_asn1Contents_le b.toList).trans (by rw [b.toList_length])
  have hcontents : ∀ b : FixedBytes 32, (Der.contents (ofBeBytes b.toList)).length ≤ 33 := by
    intro b
    have hlt := ofBeBytes_lt b.toList
    rw [b.toList_length] at hlt
    have hminimal := length_minimalBe_le_iff.mpr hlt
    exact (Der.length_contents_le _).trans (by omega)
  have hstrict : (0x30 :: UInt8.ofNat ((tagged c).length + (tagged d).length) ::
        (tagged c ++ tagged d) ++ [sighashType]
        = Der.signature (ofBeBytes r.toList) (ofBeBytes s.toList) ++ [sighashType]) ↔
      2 ^ 247 ≤ ofBeBytes r.toList ∧ 2 ^ 247 ≤ ofBeBytes s.toList := by
    rw [← asn1Contents_eq_contents_iff, ← asn1Contents_eq_contents_iff]
    constructor
    · intro h
      simp only [Der.signature, List.cons_append, List.cons.injEq, true_and,
        List.append_assoc] at h
      obtain ⟨hr, h⟩ := tagged_append_inj ((hlen r).trans_lt (by norm_num))
        ((hcontents r).trans_lt (by norm_num)) h.2
      obtain ⟨hs, -⟩ := tagged_append_inj ((hlen s).trans_lt (by norm_num))
        ((hcontents s).trans_lt (by norm_num)) h
      exact ⟨hr, hs⟩
    · rintro ⟨hr, hs⟩
      simp only [c, d, hr, hs, ← List.length_append]
      rfl
  refine ⟨_, serializeEcdsaSignature_eq r s sighashType, hstrict, ?_⟩
  rw [Der.parseSignature_eq_some_iff, ← hstrict]
  apply and_iff_left
  have hr := hlen r
  have hs := hlen s
  simp only [tagged, List.length_cons, List.length_append, List.length_nil]
  omega

/-- A signature whose first integer starts with two small bytes. -/
def shortSignature : FixedBytes 32 × FixedBytes 32 :=
  (⟨0x00 :: List.replicate 31 0x11, by decide⟩, ⟨List.replicate 32 0x11, by decide⟩)

/-- The leading zero byte stays, which a strict parser rejects. -/
theorem parseSignature_shortSignature :
    ofBeBytes shortSignature.1.toList ≠ 0 ∧ ofBeBytes shortSignature.2.toList ≠ 0 ∧
    ∃ bytes, (serializeEcdsaSignature (shortSignature.1.toList ++ shortSignature.2.toList) 0x01
        : Outcome Empty Bytes) = .ok bytes ∧
      bytes ≠ Der.signature (ofBeBytes shortSignature.1.toList)
        (ofBeBytes shortSignature.2.toList) ++ [0x01] ∧
      Der.parseSignature bytes = none := by
  refine ⟨by decide, by decide, _, rfl, ?_, by decide⟩
  intro h
  have hparse := Der.parseSignature_eq_some_iff.mpr ⟨h, by decide⟩
  exact absurd hparse (by decide)

/-! ## The script with a key -/

/-- `build_script_sig`. -/
def buildScriptSig (derSignature publicKeyBytes : Bytes) : Bytes :=
  let scriptSig := []
  let scriptSig := scriptSig ++ [UInt8.ofNat derSignature.length]
  let scriptSig := scriptSig ++ derSignature
  let scriptSig := scriptSig ++ [UInt8.ofNat publicKeyBytes.length]
  scriptSig ++ publicKeyBytes

theorem buildScriptSig_eq_directScript (derSignature publicKeyBytes : Bytes) :
    buildScriptSig derSignature publicKeyBytes =
      ScriptPush.directScript [derSignature, publicKeyBytes] := by
  simp [buildScriptSig, ScriptPush.directScript]

/-- The script pushes the signature and the key exactly when one byte can push each of them.
The length is cast to a `u8`, which is another opcode from 76 on. -/
theorem pushes_buildScriptSig_iff (derSignature publicKeyBytes : Bytes) :
    ScriptPush.pushes (buildScriptSig derSignature publicKeyBytes)
        = some [derSignature, publicKeyBytes] ↔
      derSignature.length ≤ 75 ∧ publicKeyBytes.length ≤ 75 := by
  rw [buildScriptSig_eq_directScript, ScriptPush.pushes_eq_some_iff,
    ScriptPush.pushes_directScript_iff, List.forall_mem_cons, List.forall_mem_singleton]
  exact Iff.rfl

/-- A key of 76 bytes: its length is the opcode `OP_PUSHDATA1`. -/
theorem pushes_buildScriptSig_long_key :
    ScriptPush.pushes (buildScriptSig [0x30] (List.replicate 76 0x02)) = none ∧
      ScriptPush.pushes (buildScriptSig [0x30] (List.replicate 76 0x02)) ≠
        some [[0x30], List.replicate 76 0x02] := by
  have hnone : ScriptPush.pushes (buildScriptSig [0x30] (List.replicate 76 0x02)) = none := by
    decide
  refine ⟨hnone, ?_⟩
  rw [hnone]
  exact Option.some_ne_none _ |>.symm

end Bitcoin
