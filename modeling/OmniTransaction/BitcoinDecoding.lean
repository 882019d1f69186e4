/-
# Decoding the parts of a Bitcoin transaction

The implementations of `Decodable` for the parts of a transaction and for lists of
inputs and outputs, each with the encodings it accepts.  From these come the three
results of this module: the lists of inputs and outputs are read back from exactly
their encodings (`decodesLists_txIn`, `decodesLists_txOut`), the two entry points
of the trait agree (`entryPointsAgree`), and decoding on 32 and on 64 bits differs
exactly where a length or a count of `2 ^ 32` or more stands in front of enough
data for its remainder (`sameOnBothWidths_iff`).
-/
import OmniTransaction.BitcoinTypes
import OmniTransaction.WitnessStack

open ByteOrder Rust PrefixCode

namespace Bitcoin

variable {ε α : Type} {usizeBits : ℕ}

/-! ## Implementations -/

/-- `Hash::decode`: the bytes in reverse order. -/
def Hash.decodable : Decodable Hash := .ofDecode do
  let buf ← readArray 32
  return buf.reverse

/-- `Txid` is a hash. -/
def Txid.decodable : Decodable Txid := .ofDecode Hash.decodable.decode

/-- `Decodable for OutPoint`. -/
def OutPoint.decodable : Decodable OutPoint := .ofDecode do
  let txid ← Txid.decodable.decode
  let vout ← decodableU32.decode
  return ⟨txid, vout⟩

/-- `Decodable for Sequence`. -/
def Sequence.decodable : Decodable Sequence := .ofDecode do
  let val ← decodableU32.decode
  return ⟨val⟩

/-- `Decodable for ScriptBuf`: a byte vector, by the entry point for finite readers. -/
def ScriptBuf.decodable (usizeBits : ℕ) : Decodable ScriptBuf := .ofFiniteReader do
  let val ← (decodableBytes usizeBits).decodeFromFiniteReader
  return ⟨val⟩

/-- `Decodable for Witness`. -/
def Witness.decodable (usizeBits : ℕ) : Decodable Witness := .ofDecode (Witness.decode usizeBits)

/-- `TxIn::decode`: the witness is not part of the encoding. -/
def TxIn.decodable (usizeBits : ℕ) : Decodable TxIn := .ofDecode do
  let previousOutput ← OutPoint.decodable.decode
  let scriptSig ← (ScriptBuf.decodable usizeBits).decode
  let sequence ← Sequence.decodable.decode
  return ⟨previousOutput, scriptSig, sequence, Witness.new⟩

/-- `Decodable for Amount`. -/
def Amount.decodable : Decodable Amount := .ofFiniteReader do
  let value ← decodableU64.decodeFromFiniteReader
  return ⟨value⟩

/-- `Decodable for TxOut`. -/
def TxOut.decodable (usizeBits : ℕ) : Decodable TxOut := .ofFiniteReader do
  let value ← Amount.decodable.decodeFromFiniteReader
  let scriptPubkey ← (ScriptBuf.decodable usizeBits).decodeFromFiniteReader
  return ⟨value, scriptPubkey⟩

/-- The error of a version that is neither one nor two. -/
def invalidVersionNumber : IoError := ⟨.InvalidData, "Invalid version number"⟩

/-- `Decodable for Version`: a number that must be a version. -/
def Version.decodable : Decodable Version := .ofDecode do
  let int ← readU32
  if int = 1 then return .One
  else if int = 2 then return .Two
  else ByteStream.fail invalidVersionNumber

/-- `Decodable for LockTime`. -/
def LockTime.decodable : Decodable LockTime := .ofDecode do
  let val ← readU32
  return ⟨val⟩

/-- The body of `decode_from_finite_reader` for a list of inputs or outputs. -/
def decodeList (element : Decodable α) : ByteStream IoError (Vec α) := do
  let len ← VarInt.decodable.decodeFromFiniteReader
  let ret ← pushTimes element.decodeFromFiniteReader len.val.toNat []
  StateT.lift (Vec.ofList ret)

/-- `Decodable for Vec<TxIn>`. -/
def decodableTxIns (usizeBits : ℕ) : Decodable (Vec TxIn) :=
  .ofFiniteReader (decodeList (TxIn.decodable usizeBits))

/-- `Decodable for Vec<TxOut>`. -/
def decodableTxOuts (usizeBits : ℕ) : Decodable (Vec TxOut) :=
  .ofFiniteReader (decodeList (TxOut.decodable usizeBits))

/-! ## What they accept -/

/-- A hash is taken from 32 bytes in reverse. -/
theorem Hash.accepts_decode :
    Accepts Hash.decodable.decode fun hash bs => bs = hash.toList.reverse := by
  refine ((accepts_readArray 32).map List.Vector.reverse).congr fun hash bs => ?_
  constructor
  · rintro ⟨buf, rfl, rfl⟩
    rw [List.Vector.toList_reverse, List.reverse_reverse]
  · rintro rfl
    exact ⟨hash.reverse, (List.Vector.toList_reverse).symm, List.Vector.reverse_reverse⟩

theorem Txid.accepts_decode :
    Accepts Txid.decodable.decode fun txid bs => bs = txid.toList.reverse := Hash.accepts_decode

/-- An outpoint is taken from its encoding. -/
theorem OutPoint.accepts_decode :
    Accepts OutPoint.decodable.decode fun outpoint bs => bs = outpoint.wire := by
  refine (Txid.accepts_decode.bind fun txid =>
    accepts_readU32.map (OutPoint.mk txid)).congr fun outpoint bs => ?_
  constructor
  · rintro ⟨txid, _, _, rfl, ⟨vout, rfl, rfl⟩, rfl⟩
    rfl
  · rintro rfl
    exact ⟨outpoint.txid, _, _, rfl, ⟨outpoint.vout, rfl, rfl⟩, rfl⟩

/-- A sequence is taken from its encoding. -/
theorem Sequence.accepts_decode :
    Accepts Sequence.decodable.decode fun sequence bs => bs = sequence.wire := by
  refine (accepts_readU32.map Sequence.mk).congr fun sequence bs => ?_
  constructor
  · rintro ⟨val, rfl, rfl⟩
    rfl
  · rintro rfl
    exact ⟨sequence.val, rfl, rfl⟩

/-- A script of any length is taken. -/
theorem ScriptBuf.accepts_decodeFromFiniteReader (usizeBits : ℕ) :
    Accepts (ScriptBuf.decodable usizeBits).decodeFromFiniteReader
      fun script bs => BytesEncoding usizeBits script.val bs := by
  refine ((accepts_decodeBytes usizeBits).map ScriptBuf.mk).congr fun script bs => ?_
  constructor
  · rintro ⟨val, hval, rfl⟩
    exact hval
  · exact fun h => ⟨script.val, h, rfl⟩

/-- `decode` has the limit of `MAX_VEC_SIZE` in front. -/
theorem ScriptBuf.accepts_decode (usizeBits : ℕ) :
    Accepts (ScriptBuf.decodable usizeBits).decode
      fun script bs => BytesEncoding usizeBits script.val bs ∧ bs.length ≤ MAX_VEC_SIZE :=
  (ScriptBuf.accepts_decodeFromFiniteReader usizeBits).take MAX_VEC_SIZE

/-- An input is accepted with a script within the limit, and gets no witness. -/
theorem TxIn.accepts_decode (usizeBits : ℕ) :
    Accepts (TxIn.decodable usizeBits).decode fun input bs => input.witness = Witness.new ∧
      ∃ cs, BytesEncoding usizeBits input.scriptSig.val cs ∧ cs.length ≤ MAX_VEC_SIZE ∧
        bs = input.previousOutput.wire ++ (cs ++ input.sequence.wire) := by
  refine (OutPoint.accepts_decode.bind fun previousOutput =>
    (ScriptBuf.accepts_decode usizeBits).bind fun scriptSig =>
      Sequence.accepts_decode.map fun sequence =>
        TxIn.mk previousOutput scriptSig sequence Witness.new).congr fun input bs => ?_
  constructor
  · rintro ⟨previousOutput, _, _, rfl, ⟨scriptSig, cs, _, ⟨hcs, hlen⟩, ⟨sequence, rfl, rfl⟩,
      rfl⟩, rfl⟩
    exact ⟨rfl, cs, hcs, hlen, rfl⟩
  · rintro ⟨hwitness, cs, hcs, hlen, rfl⟩
    exact ⟨input.previousOutput, _, _, rfl, ⟨input.scriptSig, cs, _, ⟨hcs, hlen⟩,
      ⟨input.sequence, rfl, TxIn.ext rfl rfl rfl hwitness.symm⟩, rfl⟩, rfl⟩

/-- An amount is taken from its encoding. -/
theorem Amount.accepts_decodeFromFiniteReader :
    Accepts Amount.decodable.decodeFromFiniteReader fun amount bs => bs = amount.wire := by
  refine (accepts_readU64.map Amount.mk).congr fun amount bs => ?_
  constructor
  · rintro ⟨val, rfl, rfl⟩
    rfl
  · rintro rfl
    exact ⟨amount.val, rfl, rfl⟩

/-- An output is taken from its encoding. -/
theorem TxOut.accepts_decodeFromFiniteReader (usizeBits : ℕ) :
    Accepts (TxOut.decodable usizeBits).decodeFromFiniteReader fun output bs =>
      ∃ cs, BytesEncoding usizeBits output.scriptPubkey.val cs ∧ bs = output.value.wire ++ cs := by
  refine (Amount.accepts_decodeFromFiniteReader.bind fun value =>
    (ScriptBuf.accepts_decodeFromFiniteReader usizeBits).map (TxOut.mk value)).congr
      fun output bs => ?_
  constructor
  · rintro ⟨value, _, cs, rfl, ⟨script, hcs, rfl⟩, rfl⟩
    exact ⟨cs, hcs, rfl⟩
  · rintro ⟨cs, hcs, rfl⟩
    exact ⟨output.value, _, cs, rfl, ⟨output.scriptPubkey, hcs, rfl⟩, rfl⟩

/-- A version is taken from its encoding, four bytes. -/
theorem Version.accepts_decode :
    Accepts Version.decodable.decode fun version bs => bs = version.wire := by
  have hbranch : ∀ int : UInt32, Accepts
      (if int = 1 then pure .One else if int = 2 then pure .Two
        else ByteStream.fail invalidVersionNumber : ByteStream IoError Version)
      fun version bs => int.toNat = version.toNat ∧ bs = [] := by
    intro int
    split_ifs with h₁ h₂
    · refine (accepts_pure Version.One).congr fun version bs => and_congr_left' ?_
      rw [h₁]
      cases version <;> decide
    · refine (accepts_pure Version.Two).congr fun version bs => and_congr_left' ?_
      rw [h₂]
      cases version <;> decide
    · refine (accepts_fail _).congr fun version bs => ?_
      have hne₁ : int.toNat ≠ 1 := fun h => h₁ (UInt32.toNat_inj.mp h)
      have hne₂ : int.toNat ≠ 2 := fun h => h₂ (UInt32.toNat_inj.mp h)
      cases version <;> simp [Version.toNat, hne₁, hne₂]
  refine (accepts_readU32.bind hbranch).congr fun version bs => ?_
  constructor
  · rintro ⟨int, _, _, rfl, ⟨hint, rfl⟩, rfl⟩
    rw [List.append_nil, hint]
    rfl
  · rintro rfl
    have hint : (UInt32.ofNat version.toNat).toNat = version.toNat := by
      cases version <;> decide
    exact ⟨UInt32.ofNat version.toNat, _, [], rfl, ⟨hint, rfl⟩,
      by rw [List.append_nil, hint]; rfl⟩

/-- A lock time is taken from its encoding. -/
theorem LockTime.accepts_decode :
    Accepts LockTime.decodable.decode fun lockTime bs => bs = lockTime.wire := by
  refine (accepts_readU32.map LockTime.mk).congr fun lockTime bs => ?_
  constructor
  · rintro ⟨val, rfl, rfl⟩
    rfl
  · rintro rfl
    exact ⟨lockTime.val, rfl, rfl⟩

/-- A list is accepted behind the number of its elements. -/
theorem accepts_decodeList {element : Decodable α} {R : α → Bytes → Prop}
    (h : Accepts element.decodeFromFiniteReader R) : Accepts (decodeList element) fun l bs =>
      ∃ cs, Each R l.toList cs ∧ bs = (VarInt.ofLength l.length).wire ++ cs := by
  have hvec : ∀ (len : VarInt) (l : List α) (cs : Bytes),
      (∃ l', l = [] ++ l' ∧ l'.length = len.val.toNat ∧ Each R l' cs) →
      Accepts (StateT.lift (Vec.ofList l) : ByteStream IoError (Vec α))
        fun v bs => v.toList = l ∧ bs = [] := by
    rintro len l cs ⟨l', rfl, hlen, -⟩
    have hlt : l.length < 2 ^ 64 := hlen ▸ len.val.toNat_lt
    refine (accepts_lift (y := ⟨l, hlt⟩) (Vec.ofList_eq_ok_iff.mpr rfl)).congr fun v bs =>
      and_congr_left' ?_
    constructor
    · rintro rfl
      rfl
    · exact fun hv => Vec.ext hv
  refine (VarInt.accepts_decode.bind fun len =>
    (h.pushTimes len.val.toNat []).bind_of (hvec len)).congr fun v bs => ?_
  constructor
  · rintro ⟨len, _, _, rfl, ⟨_, cs, _, ⟨l, rfl, hlen, hl⟩, ⟨hv, rfl⟩, rfl⟩, rfl⟩
    have hcount : VarInt.ofLength v.length = len := by
      rw [← Vec.length_toList, hv, hlen, VarInt.ofLength, UInt64.ofNat_toNat]
    exact ⟨cs, hv ▸ hl, by rw [List.append_nil, hcount]⟩
  · rintro ⟨cs, hcs, rfl⟩
    exact ⟨VarInt.ofLength v.length, _, _, rfl, ⟨v.toList, cs, [], ⟨v.toList, rfl,
      v.toNat_ofNat_length.symm, hcs⟩, ⟨rfl, rfl⟩, (List.append_nil cs).symm⟩, rfl⟩

/-! ## The two entry points -/

/-- The entry points agree for every type that implements `Decodable`. -/
theorem entryPointsAgree (usizeBits : ℕ) :
    (decodableU8.EntryPointsAgree ∧ decodableU16.EntryPointsAgree ∧
      decodableU32.EntryPointsAgree ∧ decodableU64.EntryPointsAgree) ∧
    VarInt.decodable.EntryPointsAgree ∧ (decodableBytes usizeBits).EntryPointsAgree ∧
    Hash.decodable.EntryPointsAgree ∧ Txid.decodable.EntryPointsAgree ∧
    OutPoint.decodable.EntryPointsAgree ∧ Sequence.decodable.EntryPointsAgree ∧
    (ScriptBuf.decodable usizeBits).EntryPointsAgree ∧
    (TxIn.decodable usizeBits).EntryPointsAgree ∧
    (Witness.decodable usizeBits).EntryPointsAgree ∧ Amount.decodable.EntryPointsAgree ∧
    (TxOut.decodable usizeBits).EntryPointsAgree ∧ Version.decodable.EntryPointsAgree ∧
    LockTime.decodable.EntryPointsAgree ∧ (decodableTxIns usizeBits).EntryPointsAgree ∧
    (decodableTxOuts usizeBits).EntryPointsAgree := by
  refine ⟨⟨?_, ?_, ?_, ?_⟩, ?_, ?_, ?_, ?_, ?_, ?_, ?_, ?_, ?_, ?_, ?_, ?_, ?_, ?_, ?_⟩
  · exact Decodable.entryPointsAgree_ofDecode accepts_readU8
  · exact Decodable.entryPointsAgree_ofDecode accepts_readU16
  · exact Decodable.entryPointsAgree_ofDecode accepts_readU32
  · exact Decodable.entryPointsAgree_ofDecode accepts_readU64
  · exact Decodable.entryPointsAgree_ofDecode VarInt.accepts_decode
  · exact Decodable.entryPointsAgree_ofDecode (accepts_decodeBytes usizeBits)
  · exact Decodable.entryPointsAgree_ofDecode Hash.accepts_decode
  · exact Decodable.entryPointsAgree_ofDecode Txid.accepts_decode
  · exact Decodable.entryPointsAgree_ofDecode OutPoint.accepts_decode
  · exact Decodable.entryPointsAgree_ofDecode Sequence.accepts_decode
  · exact Decodable.entryPointsAgree_ofFiniteReader
      (ScriptBuf.accepts_decodeFromFiniteReader usizeBits)
  · exact Decodable.entryPointsAgree_ofDecode (TxIn.accepts_decode usizeBits)
  · exact Decodable.entryPointsAgree_ofDecode (Witness.accepts_decode usizeBits)
  · exact Decodable.entryPointsAgree_ofFiniteReader Amount.accepts_decodeFromFiniteReader
  · exact Decodable.entryPointsAgree_ofFiniteReader
      (TxOut.accepts_decodeFromFiniteReader usizeBits)
  · exact Decodable.entryPointsAgree_ofDecode Version.accepts_decode
  · exact Decodable.entryPointsAgree_ofDecode LockTime.accepts_decode
  · exact Decodable.entryPointsAgree_ofFiniteReader
      (accepts_decodeList (TxIn.accepts_decode usizeBits))
  · exact Decodable.entryPointsAgree_ofFiniteReader
      (accepts_decodeList (TxOut.accepts_decodeFromFiniteReader usizeBits))

/-! ## Lists of inputs and outputs -/

/-- The implementation reads back the encodings of lists, up to the limit of `decode`.
Not all of an element is encoded: `clear` resets the rest, and on the elements that are
`bare` nothing is lost. -/
structure DecodesLists (impl : Decodable (Vec α)) (enc : α → ByteStream Empty ℕ)
    (bare : α → Prop) (clear : α → α) : Prop where
  /-- Exactly the encodings of lists of bare elements are accepted. -/
  run_eq_ok_iff : ∀ b l rest, impl.decode.run b = .ok (l, rest) ↔
    (∀ a ∈ l.toList, bare a) ∧ ∃ len bytes, (encodeVec enc l).run [] = .ok (len, bytes) ∧
      bytes.length ≤ MAX_VEC_SIZE ∧ b = bytes ++ rest
  /-- An encoding is read back with its elements cleared. -/
  run_encode : ∀ l len bytes rest, (encodeVec enc l).run [] = .ok (len, bytes) →
    bytes.length ≤ MAX_VEC_SIZE → impl.decode.run (bytes ++ rest) = .ok (l.map clear, rest)
  /-- A count that the input cannot bear makes no difference to where the loop ends. -/
  finite_of_length_lt : ∀ b, ∃ e, ∀ count : VarInt, b.length < count.val.toNat →
    impl.decodeFromFiniteReader.run (count.wire ++ b) = .err e
  decode_of_length_lt : ∀ b (count : VarInt), b.length < count.val.toNat →
    ∃ e, impl.decode.run (count.wire ++ b) = .err e
  run_ne_panic : ∀ b msg, impl.decode.run b ≠ .panic msg

/-- A list is read back when its elements are, whatever the count in front announces. -/
theorem decodesLists {element : Decodable α} {enc : α → ByteStream Empty ℕ}
    {bare : α → Prop} {clear : α → α} (wire : α → Bytes) (small : α → Prop)
    (hm : Accepts element.decodeFromFiniteReader fun a bs => (bare a ∧ small a) ∧ bs = wire a)
    (henc : ∀ a, Encodes (enc a) (wire a)) (hne : ∀ a, wire a ≠ [])
    (hsmall : ∀ a, (wire a).length ≤ MAX_VEC_SIZE → small a)
    (hbare : ∀ a, bare (clear a)) (hwire : ∀ a, wire (clear a) = wire a) :
    DecodesLists (.ofFiniteReader (decodeList element)) enc bare clear := by
  have hfinite := accepts_decodeList hm
  have hencode : ∀ l, Encodes (encodeVec enc l) (vecWire wire l) := fun l =>
    encodes_encodeVec fun a _ => henc a
  -- within the limit all elements are small
  have hdecode : Accepts (take MAX_VEC_SIZE (decodeList element)) fun l bs =>
      (∀ a ∈ l.toList, bare a) ∧ bs = vecWire wire l ∧ bs.length ≤ MAX_VEC_SIZE := by
    refine (hfinite.take MAX_VEC_SIZE).congr fun l bs => ?_
    constructor
    · rintro ⟨⟨cs, hcs, rfl⟩, hlen⟩
      obtain ⟨hall, rfl⟩ := (each_iff_flatMap (fun _ _ => Iff.rfl) _ _).mp hcs
      exact ⟨fun a ha => (hall a ha).1, rfl, hlen⟩
    · rintro ⟨hall, rfl, hlen⟩
      refine ⟨⟨_, (each_iff_flatMap (fun _ _ => Iff.rfl) _ _).mpr ⟨?_, rfl⟩, rfl⟩, hlen⟩
      intro a ha
      refine ⟨hall a ha, hsmall a ?_⟩
      obtain ⟨l₁, l₂, hl⟩ := List.append_of_mem ha
      rw [vecWire, hl, List.flatMap_append, List.flatMap_cons] at hlen
      simp only [List.length_append] at hlen
      omega
  have hlong : ∀ b, ∃ e, ∀ count : VarInt, b.length < count.val.toNat →
      (decodeList element).run (count.wire ++ b) = .err e := by
    intro b
    obtain ⟨e, he⟩ := hm.run_pushTimes_of_length_lt (fun a bs h => h.2 ▸ hne a) b []
    refine ⟨e, fun count hcount => ?_⟩
    rw [decodeList, StateT.run_bind]
    show (VarInt.decode.run (count.wire ++ b) >>= _) = _
    rw [VarInt.reads_decode count b, Outcome.ok_bind]
    dsimp only
    rw [StateT.run_bind, he _ hcount]
    rfl
  refine ⟨?_, ?_, hlong, ?_, hdecode.run_ne_panic⟩
  · intro b l rest
    refine (hdecode.run_eq_ok_iff b l rest).trans ⟨?_, ?_⟩
    · rintro ⟨bs, ⟨hall, rfl, hlen⟩, rfl⟩
      exact ⟨hall, _, _, hencode l [], hlen, rfl⟩
    · rintro ⟨hall, len, bytes, hrun, hlen, rfl⟩
      obtain ⟨-, rfl⟩ := Prod.mk.inj (Outcome.ok.inj ((hencode l []).symm.trans hrun))
      exact ⟨_, ⟨hall, rfl, hlen⟩, rfl⟩
  · intro l len bytes rest hrun hlen
    obtain ⟨-, rfl⟩ := Prod.mk.inj (Outcome.ok.inj ((hencode l []).symm.trans hrun))
    have hclear : vecWire wire (l.map clear) = vecWire wire l := by
      rw [vecWire, vecWire, Vec.map, List.flatMap_map]
      simp only [hwire, Vec.length, List.length_map]
    refine (hdecode.run_eq_ok_iff _ _ _).mpr ⟨_, ⟨?_, hclear.symm, hlen⟩, rfl⟩
    intro a ha
    obtain ⟨a', -, rfl⟩ := List.mem_map.mp ha
    exact hbare a'
  · intro b count hcount
    obtain ⟨e, he⟩ := hlong b
    apply hdecode.exists_err
    intro l rest hrun
    have hok := ((hfinite.run_take_eq_ok_iff MAX_VEC_SIZE).mp hrun).1
    rw [he count hcount] at hok
    cases hok

/-- Lists of inputs and lists of outputs are read back from exactly their encodings; the
witnesses of inputs are not encoded. -/
theorem decodesLists_txIn_txOut :
    DecodesLists (decodableTxIns 64) TxIn.encode (fun input => input.witness = Witness.new)
      (fun input => { input with witness := Witness.new }) ∧
    DecodesLists (decodableTxOuts 64) TxOut.encode (fun _ => True) id := by
  constructor
  · apply decodesLists (fun input => TxIn.wire input.base)
      (fun input => input.scriptSig.wire.length ≤ MAX_VEC_SIZE)
    · refine (TxIn.accepts_decode 64).congr fun input bs => ?_
      simp only [bytesEncoding_64_iff]
      constructor
      · rintro ⟨hwitness, cs, rfl, hlen, rfl⟩
        exact ⟨⟨hwitness, hlen⟩, rfl⟩
      · rintro ⟨⟨hwitness, hlen⟩, rfl⟩
        exact ⟨hwitness, _, rfl, hlen, rfl⟩
    · exact TxIn.encodes_encode
    · intro input h
      have hlen := congrArg List.length h
      rw [TxIn.wire, List.length_append, OutPoint.length_wire] at hlen
      simp at hlen
    · intro input hlen
      rw [TxIn.wire, List.length_append, List.length_append] at hlen
      exact (Nat.le_add_right _ _).trans ((Nat.le_add_left _ _).trans hlen)
    · exact fun _ => rfl
    · exact fun _ => rfl
  · apply decodesLists TxOut.wire (fun _ => True)
    · refine (TxOut.accepts_decodeFromFiniteReader 64).congr fun output bs => ?_
      simp only [bytesEncoding_64_iff]
      constructor
      · rintro ⟨cs, rfl, rfl⟩
        exact ⟨⟨trivial, trivial⟩, rfl⟩
      · rintro ⟨-, rfl⟩
        exact ⟨_, rfl, rfl⟩
    · exact TxOut.encodes_encode
    · exact TxOut.wire_ne_nil
    · exact fun _ _ => trivial
    · exact fun _ => trivial
    · exact fun _ => rfl

/-! ## 32 and 64 bits -/

/-- Both runs fail, or both succeed with the same value and the same rest. -/
def SameResult (x y : Outcome IoError (α × Bytes)) : Prop :=
  (∃ r, x = .ok r ∧ y = .ok r) ∨ ∃ e e', x = .err e ∧ y = .err e'

/-- Two readers differ on an input when the first accepts encodings that the second
does not, if these are all the second accepts as well. -/
theorem sameResult_iff {m₁ m₂ : ByteStream IoError α} {R S : α → Bytes → Prop} {b : Bytes}
    (h₁ : Accepts m₁ R) (h₂ : Accepts m₂ S)
    (hsub : ∀ a bs, bs.length ≤ b.length → S a bs → R a bs) :
    SameResult (m₁.run b) (m₂.run b) ↔
      ¬ ∃ a bs rest, R a bs ∧ ¬ S a bs ∧ b = bs ++ rest := by
  constructor
  · rintro h ⟨a, bs, rest, hR, hS, rfl⟩
    have hrun := h₁.reads hR rest
    rcases h with ⟨r, hr₁, hr₂⟩ | ⟨e, _, he, -⟩
    · -- both readers have consumed the same bytes
      obtain rfl := Outcome.ok.inj (hrun.symm.trans hr₁)
      obtain ⟨cs, hcs, hsplit⟩ := (h₂.run_eq_ok_iff _ _ _).mp hr₂
      obtain rfl := List.append_cancel_right hsplit
      exact hS hcs
    · rw [hrun] at he
      cases he
  · intro h
    cases hrun : m₂.run b with
    | ok r =>
        obtain ⟨bs, hS, rfl⟩ := (h₂.run_eq_ok_iff _ _ _).mp hrun
        have hR := hsub r.1 bs (by rw [List.length_append]; omega) hS
        exact .inl ⟨r, h₁.reads hR r.2, rfl⟩
    | err e =>
        right
        have hno : ∀ a rest, m₁.run b ≠ .ok (a, rest) := by
          intro a rest hrun₁
          obtain ⟨bs, hR, rfl⟩ := (h₁.run_eq_ok_iff _ _ _).mp hrun₁
          by_cases hS : S a bs
          · rw [h₂.reads hS rest] at hrun
            cases hrun
          · exact h ⟨a, bs, rest, hR, hS, rfl⟩
        obtain ⟨e', he'⟩ := h₁.exists_err hno
        exact ⟨e', e, he', rfl⟩
    | panic msg => exact absurd hrun (h₂.run_ne_panic b msg)

/-- A length or count that does not fit in 32 bits. -/
def Oversized (size : VarInt) : Prop := 2 ^ 32 ≤ size.val.toNat

instance (size : VarInt) : Decidable (Oversized size) := inferInstanceAs (Decidable (_ ≤ _))

/-- The input starts with a byte vector behind an oversized length: there is only the
remainder of the length modulo `2 ^ 32` there. -/
def TruncatedBytes (b : Bytes) : Prop :=
  ∃ (size : VarInt) (data rest : Bytes), Oversized size ∧
    data.length = size.val.toNat % 2 ^ 32 ∧ b = size.wire ++ (data ++ rest)

/-- The same within the limit of `decode`. -/
def TruncatedScript (b : Bytes) : Prop :=
  ∃ (size : VarInt) (data rest : Bytes), Oversized size ∧
    data.length = size.val.toNat % 2 ^ 32 ∧ size.size + data.length ≤ MAX_VEC_SIZE ∧
    b = size.wire ++ (data ++ rest)

/-- The input starts with a count and that many elements, within the limits of `decode`,
where each number stands for its remainder modulo `2 ^ 32` and at least one of them is
oversized. -/
def TruncatedWitness (b : Bytes) : Prop :=
  ∃ (count : VarInt) (es : List (Element 32)) (rest : Bytes),
    (Oversized count ∨ ∃ e ∈ es, Oversized e.size) ∧ count.val.toNat % 2 ^ 32 = es.length ∧
    es.length ≤ MAX_VEC_SIZE ∧ (es.flatMap Element.wire).length ≤ MAX_VEC_SIZE ∧
    b = count.wire ++ (es.flatMap Element.wire ++ rest)

/-- A number below `2 ^ 32` is the same on both widths. -/
theorem asUsize_32_of_lt {n : UInt64} (h : n.toNat < 2 ^ 32) : asUsize 32 n = asUsize 64 n := by
  rw [Witness.asUsize_64]
  exact Nat.mod_eq_of_lt h

/-- What a 64-bit target takes as a byte vector, a 32-bit target takes likewise. -/
theorem bytesEncoding_32_of_64 {v : Vec UInt8} {bs : Bytes} (hbs : bs.length < 2 ^ 32)
    (h : BytesEncoding 64 v bs) : BytesEncoding 32 v bs := by
  obtain ⟨size, hsize, rfl⟩ := h
  refine ⟨size, ?_, rfl⟩
  rw [List.length_append, Vec.length_toList, ← hsize, Witness.asUsize_64] at hbs
  rw [asUsize_32_of_lt (by omega), hsize]

/-- What is accepted on 32 bits only has an oversized length. -/
theorem bytesEncoding_32_only_iff {v : Vec UInt8} {bs : Bytes} :
    BytesEncoding 32 v bs ∧ ¬ BytesEncoding 64 v bs ↔
      ∃ size : VarInt, Oversized size ∧ v.length = size.val.toNat % 2 ^ 32 ∧
        bs = size.wire ++ v.toList := by
  constructor
  · rintro ⟨⟨size, hsize, rfl⟩, hno⟩
    refine ⟨size, ?_, hsize.symm, rfl⟩
    by_contra hsmall
    exact hno ⟨size, by rw [← asUsize_32_of_lt (Nat.lt_of_not_le hsmall), hsize], rfl⟩
  · rintro ⟨size, hover, hlen, rfl⟩
    refine ⟨⟨size, hlen.symm, rfl⟩, ?_⟩
    rintro ⟨size', hsize', heq⟩
    obtain ⟨rfl, -⟩ := VarInt.prefixFree_wire _ _ _ _ heq
    rw [Witness.asUsize_64] at hsize'
    have hmod := Nat.mod_lt size.val.toNat (Nat.two_pow_pos 32)
    unfold Oversized at hover
    omega

/-- Elements of one width as elements of another. -/
theorem Element.exists_recast {a b : ℕ} (l : List (Element a))
    (h : ∀ e ∈ l, asUsize a e.size.val = asUsize b e.size.val) :
    ∃ l' : List (Element b), l'.map Element.size = l.map Element.size ∧
      l'.flatMap Element.wire = l.flatMap Element.wire ∧
      ∀ pos, Element.offsets pos l' = Element.offsets pos l := by
  induction l with
  | nil => exact ⟨[], rfl, rfl, fun _ => rfl⟩
  | cons e l ih =>
      obtain ⟨he, hl⟩ := List.forall_mem_cons.mp h
      obtain ⟨l', hsizes, hwires, hoffsets⟩ := ih hl
      let e' : Element b := ⟨e.size, e.data, e.length_data.trans he⟩
      refine ⟨e' :: l', ?_, ?_, fun pos => ?_⟩
      · rw [List.map_cons, List.map_cons, hsizes]
      · rw [List.flatMap_cons, List.flatMap_cons, hwires]
        rfl
      · rw [Element.offsets, Element.offsets, hoffsets]
        rfl

/-- With a count and sizes that mean the same on both widths the encoding does too. -/
theorem Witness.exists_recast {a b : ℕ} {count : VarInt} {es : Vec (Element a)}
    (hcount : asUsize a count.val = asUsize b count.val)
    (hes : ∀ e ∈ es.toList, asUsize a e.size.val = asUsize b e.size.val)
    (hlen : asUsize a count.val = es.length) :
    ∃ es' : Vec (Element b), asUsize b count.val = es'.length ∧ es'.length = es.length ∧
      es'.toList.map Element.size = es.toList.map Element.size ∧
      es'.toList.flatMap Element.wire = es.toList.flatMap Element.wire ∧
      Witness.ofElements es' = Witness.ofElements es := by
  obtain ⟨l', hsizes, hwires, hoffsets⟩ := Element.exists_recast es.toList hes
  have hlen' : l'.length = es.length := by
    have h := congrArg List.length hsizes
    rwa [List.length_map, List.length_map] at h
  have hlt : l'.length < 2 ^ 64 := by
    rw [hlen']
    exact es.length_lt
  refine ⟨⟨l', hlt⟩, hcount.symm.trans (hlen.trans hlen'.symm), hlen', hsizes, hwires, ?_⟩
  simp only [Witness.ofElements, hwires, hoffsets, Vec.length, hlen']

namespace Witness

/-- From 32 bits on the limit of `decode` is the one on the size of a vector. -/
theorem elementsLimit_eq {usizeBits n : ℕ} (hwidth : 32 ≤ usizeBits) (hn : n ≤ MAX_VEC_SIZE) :
    elementsLimit usizeBits (n * 4) = MAX_VEC_SIZE := by
  have hmax : MAX_VEC_SIZE = 4000000 := rfl
  have hpow : 2 ^ 32 ≤ 2 ^ usizeBits := Nat.pow_le_pow_right Nat.two_pos hwidth
  rw [elementsLimit]
  omega

/-- Numbers within the limits of `decode` mean the same on 32 bits. -/
theorem exists_elements_32 {w : Witness} {bs : Bytes} (h : Packs 64 w bs) :
    ∃ (count : VarInt) (es : Vec (Element 32)), ¬ Oversized count ∧
      (∀ e ∈ es.toList, ¬ Oversized e.size) ∧ asUsize 32 count.val = es.length ∧
      es.length ≤ MAX_VEC_SIZE ∧ (es.toList.flatMap Element.wire).length ≤ MAX_VEC_SIZE ∧
      w = ofElements es ∧ bs = count.wire ++ es.toList.flatMap Element.wire := by
  obtain ⟨count, es, hcount, hle, hlimit, rfl, rfl⟩ := h
  have hmax : MAX_VEC_SIZE = 4000000 := rfl
  rw [elementsLimit_eq (by norm_num : 32 ≤ 64) hle] at hlimit
  have hcount' : count.val.toNat < 2 ^ 32 := by
    rw [← asUsize_64]
    omega
  have hsizes : ∀ e ∈ es.toList, e.size.val.toNat < 2 ^ 32 := by
    intro e he
    obtain ⟨l₁, l₂, hl⟩ := List.append_of_mem he
    rw [hl, List.flatMap_append, List.flatMap_cons] at hlimit
    simp only [List.length_append, Element.length_wire] at hlimit
    rw [← asUsize_64]
    omega
  obtain ⟨es', hlen, hlen', hsizes', hwire, hw⟩ := exists_recast (asUsize_32_of_lt hcount').symm
    (fun e he => (asUsize_32_of_lt (hsizes e he)).symm) hcount
  refine ⟨count, es', Nat.not_le_of_lt hcount', ?_, hlen, hlen' ▸ hle, by rwa [hwire], hw.symm,
    by rw [hwire]⟩
  intro e he
  have hmem : e.size ∈ es.toList.map Element.size := hsizes' ▸ List.mem_map_of_mem he
  obtain ⟨e', he', hsize⟩ := List.mem_map.mp hmem
  rw [← hsize]
  exact Nat.not_le_of_lt (hsizes e' he')

/-- What a 64-bit target takes as a witness, a 32-bit target takes likewise. -/
theorem packs_32_of_64 {w : Witness} {bs : Bytes} (h : Packs 64 w bs) : Packs 32 w bs := by
  obtain ⟨count, es, -, -, hcount, hle, hlimit, hw, hbs⟩ := exists_elements_32 h
  exact ⟨count, es, hcount, hle, by rwa [elementsLimit_eq (le_refl 32) hle], hw, hbs⟩

/-- What is accepted on 32 bits only has an oversized count or an oversized length. -/
theorem packs_32_only_iff {w : Witness} {bs : Bytes} :
    Packs 32 w bs ∧ ¬ Packs 64 w bs ↔
      ∃ (count : VarInt) (es : Vec (Element 32)),
        (Oversized count ∨ ∃ e ∈ es.toList, Oversized e.size) ∧
        asUsize 32 count.val = es.length ∧ es.length ≤ MAX_VEC_SIZE ∧
        (es.toList.flatMap Element.wire).length ≤ MAX_VEC_SIZE ∧
        w = ofElements es ∧ bs = count.wire ++ es.toList.flatMap Element.wire := by
  constructor
  · rintro ⟨⟨count, es, hcount, hle, hlimit, rfl, rfl⟩, hno⟩
    rw [elementsLimit_eq (le_refl 32) hle] at hlimit
    refine ⟨count, es, ?_, hcount, hle, hlimit, rfl, rfl⟩
    by_contra hsmall
    rw [not_or] at hsmall
    have hcount' := asUsize_32_of_lt (Nat.lt_of_not_le hsmall.1)
    have hes : ∀ e ∈ es.toList, asUsize 32 e.size.val = asUsize 64 e.size.val := fun e he =>
      asUsize_32_of_lt (Nat.lt_of_not_le fun hover => hsmall.2 ⟨e, he, hover⟩)
    obtain ⟨es', hlen, hlen', -, hwire, hw⟩ := exists_recast hcount' hes hcount
    apply hno
    refine ⟨count, es', hlen, hlen' ▸ hle, ?_, hw.symm, by rw [hwire]⟩
    rwa [hwire, hlen', elementsLimit_eq (by norm_num : 32 ≤ 64) hle]
  · rintro ⟨count, es, hover, hcount, hle, hlimit, rfl, rfl⟩
    refine ⟨⟨count, es, hcount, hle, by rwa [elementsLimit_eq (le_refl 32) hle], rfl, rfl⟩, ?_⟩
    intro h
    -- the numbers that are read on 64 bits are the same ones, and they are small
    obtain ⟨count', es', hcount', hes', hlen', -, -, -, heq⟩ := exists_elements_32 h
    obtain ⟨rfl, hwires⟩ := VarInt.prefixFree_wire _ _ _ _ heq
    obtain ⟨hlist, -⟩ := Element.prefixFree_wire.flatMap_append_inj (s := []) (t := [])
      (hcount.symm.trans hlen') (by rw [List.append_nil, List.append_nil, hwires])
    rcases hover with hover | ⟨e, he, hover⟩
    · exact hcount' hover
    · exact hes' e (hlist ▸ he) hover

end Witness

/-- The decoders of byte vectors, scripts and witnesses give the same result on 32 and on
64 bits. -/
def SameOnBothWidths (b : Bytes) : Prop :=
  SameResult ((decodableBytes 32).decode.run b) ((decodableBytes 64).decode.run b) ∧
  SameResult ((ScriptBuf.decodable 32).decode.run b) ((ScriptBuf.decodable 64).decode.run b) ∧
  SameResult ((Witness.decodable 32).decode.run b) ((Witness.decodable 64).decode.run b)

/-- Byte vectors differ only behind an oversized length. -/
theorem sameResult_decodeBytes_iff {b : Bytes} (hb : b.length < 2 ^ 31) :
    SameResult ((decodableBytes 32).decode.run b) ((decodableBytes 64).decode.run b) ↔
      ¬ TruncatedBytes b := by
  refine (sameResult_iff (accepts_decodeBytes 32) (accepts_decodeBytes 64)
    fun v bs hbs h => bytesEncoding_32_of_64 (by omega) h).trans (not_congr ?_)
  constructor
  · rintro ⟨v, bs, rest, h, hno, rfl⟩
    obtain ⟨size, hover, hlen, rfl⟩ := bytesEncoding_32_only_iff.mp ⟨h, hno⟩
    exact ⟨size, v.toList, rest, hover, hlen, List.append_assoc ..⟩
  · rintro ⟨size, data, rest, hover, hlen, rfl⟩
    have hlt : data.length < 2 ^ 64 := by omega
    obtain ⟨h, hno⟩ := bytesEncoding_32_only_iff (v := ⟨data, hlt⟩).mpr ⟨size, hover, hlen, rfl⟩
    exact ⟨⟨data, hlt⟩, _, rest, h, hno, (List.append_assoc ..).symm⟩

/-- Scripts differ only behind an oversized length, within the limit. -/
theorem sameResult_decodeScript_iff {b : Bytes} (hb : b.length < 2 ^ 31) :
    SameResult ((ScriptBuf.decodable 32).decode.run b) ((ScriptBuf.decodable 64).decode.run b) ↔
      ¬ TruncatedScript b := by
  refine (sameResult_iff (ScriptBuf.accepts_decode 32) (ScriptBuf.accepts_decode 64)
    fun v bs hbs h => ⟨bytesEncoding_32_of_64 (by omega) h.1, h.2⟩).trans (not_congr ?_)
  constructor
  · rintro ⟨v, bs, rest, ⟨h, hle⟩, hno, rfl⟩
    obtain ⟨size, hover, hlen, rfl⟩ :=
      bytesEncoding_32_only_iff.mp ⟨h, fun h64 => hno ⟨h64, hle⟩⟩
    rw [List.length_append, VarInt.length_wire] at hle
    exact ⟨size, v.val.toList, rest, hover, hlen, hle, List.append_assoc ..⟩
  · rintro ⟨size, data, rest, hover, hlen, hle, rfl⟩
    have hlt : data.length < 2 ^ 64 := by omega
    obtain ⟨h, hno⟩ := bytesEncoding_32_only_iff (v := ⟨data, hlt⟩).mpr ⟨size, hover, hlen, rfl⟩
    refine ⟨⟨⟨data, hlt⟩⟩, _, rest, ⟨h, ?_⟩, fun h64 => hno h64.1, (List.append_assoc ..).symm⟩
    rwa [List.length_append, VarInt.length_wire]

/-- Witnesses differ only behind an oversized number. -/
theorem sameResult_decodeWitness_iff (b : Bytes) :
    SameResult ((Witness.decodable 32).decode.run b) ((Witness.decodable 64).decode.run b) ↔
      ¬ TruncatedWitness b := by
  refine (sameResult_iff (Witness.accepts_decode 32) (Witness.accepts_decode 64)
    fun w bs _ h => Witness.packs_32_of_64 h).trans (not_congr ?_)
  constructor
  · rintro ⟨w, bs, rest, h, hno, rfl⟩
    obtain ⟨count, es, hover, hcount, hle, hlimit, -, rfl⟩ :=
      Witness.packs_32_only_iff.mp ⟨h, hno⟩
    exact ⟨count, es.toList, rest, hover, hcount, hle, hlimit, List.append_assoc ..⟩
  · rintro ⟨count, es, rest, hover, hcount, hle, hlimit, rfl⟩
    have hmax : MAX_VEC_SIZE < 2 ^ 64 := by decide
    obtain ⟨h, hno⟩ := Witness.packs_32_only_iff.mpr
      ⟨count, ⟨es, by omega⟩, hover, hcount, hle, hlimit, rfl, rfl⟩
    exact ⟨_, _, rest, h, hno, (List.append_assoc ..).symm⟩

/-- Decoding depends on the width of `usize` exactly on the inputs that start with an
oversized number in front of what its remainder announces. -/
theorem sameOnBothWidths_iff (b : Bytes) (hb : b.length < 2 ^ 31) :
    SameOnBothWidths b ↔ ¬ TruncatedBytes b ∧ ¬ TruncatedScript b ∧ ¬ TruncatedWitness b := by
  rw [SameOnBothWidths, sameResult_decodeBytes_iff hb, sameResult_decodeScript_iff hb,
    sameResult_decodeWitness_iff b]

/-- A byte vector of length `2 ^ 32 + 3`, of which three bytes are there. -/
def oversizedBytes : Bytes := [0xFF, 3, 0, 0, 0, 1, 0, 0, 0, 0x61, 0x62, 0x63]

/-- The input is a vector of three bytes on 32 bits and an error on 64 bits. -/
theorem not_sameOnBothWidths_oversizedBytes :
    oversizedBytes.length < 2 ^ 31 ∧ ¬ SameOnBothWidths oversizedBytes := by
  have hlen : oversizedBytes.length < 2 ^ 31 := by decide
  have htruncated : TruncatedBytes oversizedBytes :=
    ⟨⟨0x100000003⟩, [0x61, 0x62, 0x63], [], by decide, by decide, by decide⟩
  refine ⟨hlen, ?_⟩
  rintro ⟨hbytes, -⟩
  exact (sameResult_decodeBytes_iff hlen).mp hbytes htruncated

/-- Where the numbers are small both widths agree; where one is oversized they do not. -/
theorem sameOnBothWidths_oneByte :
    SameOnBothWidths [1, 0, 0x61] ∧ ¬ SameOnBothWidths oversizedBytes := by
  have hone : ([1, 0, 0x61] : Bytes) = (VarInt.mk 1).wire ++ [0, 0x61] := by decide
  have hzero : ([0, 0x61] : Bytes) = (VarInt.mk 0).wire ++ [0x61] := by decide
  have hsmall : ¬ Oversized ⟨1⟩ := by decide
  constructor
  · apply (sameOnBothWidths_iff [1, 0, 0x61] (by decide)).mpr
    refine ⟨?_, ?_, ?_⟩
    · rintro ⟨size, data, rest, hover, -, hb⟩
      obtain ⟨rfl, -⟩ := VarInt.prefixFree_wire _ _ _ _ (hone.symm.trans hb)
      exact hsmall hover
    · rintro ⟨size, data, rest, hover, -, -, hb⟩
      obtain ⟨rfl, -⟩ := VarInt.prefixFree_wire _ _ _ _ (hone.symm.trans hb)
      exact hsmall hover
    · rintro ⟨count, es, rest, hover, hcount, -, -, hb⟩
      obtain ⟨rfl, hes⟩ := VarInt.prefixFree_wire _ _ _ _ (hone.symm.trans hb)
      obtain ⟨e, rfl⟩ := List.length_eq_one_iff.mp hcount.symm
      -- the one element is empty
      have hb' : (VarInt.mk 0).wire ++ [0x61] = e.size.wire ++ (e.data ++ rest) := by
        rw [← hzero, hes]
        simp [Element.wire]
      obtain ⟨hsize, -⟩ := VarInt.prefixFree_wire _ _ _ _ hb'
      rcases hover with hover | ⟨e', he', hover⟩
      · exact hsmall hover
      · rw [List.mem_singleton.mp he', ← hsize] at hover
        exact absurd hover (by decide)
  · intro h
    have htruncated : TruncatedBytes oversizedBytes :=
      ⟨⟨0x100000003⟩, [0x61, 0x62, 0x63], [], by decide, by decide, by decide⟩
    exact ((sameOnBothWidths_iff oversizedBytes (by decide)).mp h).1 htruncated

end Bitcoin
