/-
# Bitcoin transactions in Borsh

The Borsh form of the parts of a Bitcoin transaction, all of it derived: one field
after the other, each type with its codec.  The three fields of a witness are written
and read like any others; nothing compares them.

The bytes determine the transaction and are determined by it, and the target with 32 bits
reads them as the one with 64 does (`BitcoinTransaction.borsh_bijective`).
-/
import OmniTransaction.BitcoinTransaction
import OmniTransaction.Borsh
import OmniTransaction.WitnessStack

open ByteOrder Rust Borsh

namespace Bitcoin

variable {usizeBits : ℕ}

/-! ## Fields -/

/-- The transaction id in the order of its bytes, then the index. -/
def OutPoint.borsh (outpoint : OutPoint) : ByteStream IoError Unit := do
  serializeArray outpoint.txid
  serializeU32 outpoint.vout

/-- The transaction id, then the index. -/
def OutPoint.deserialize : ByteStream IoError OutPoint := do
  let txid ← deserializeArray 32
  let vout ← deserializeU32
  return ⟨txid, vout⟩

/-- Both fields have a fixed length. -/
theorem OutPoint.isCodec : IsCodec (fun _ => True) OutPoint.borsh OutPoint.deserialize :=
  ((isCodec_array 32).field OutPoint.txid
    (fun txid => isCodec_u32.last OutPoint.vout (OutPoint.mk txid) fun _ => rfl)
    fun _ _ h => (congrArg OutPoint.txid h.2).symm).congr fun _ => by simp

/-- The bytes behind a length of four bytes, where the wire has a VarInt. -/
def ScriptBuf.borsh (script : ScriptBuf) : ByteStream IoError Unit :=
  serializeBytes script.val.toList

/-- The bytes behind a length of four bytes. -/
def ScriptBuf.deserialize : ByteStream IoError ScriptBuf := do
  let val ← asVec deserializeBytes
  return ⟨val⟩

/-- The length fits in a `u32`. -/
def ScriptBuf.Fits (script : ScriptBuf) : Prop := script.val.length < 2 ^ 32

/-- A script is read back when its length fits. -/
theorem ScriptBuf.isCodec : IsCodec ScriptBuf.Fits ScriptBuf.borsh ScriptBuf.deserialize :=
  (isCodec_vecU8.asVec.last ScriptBuf.val ScriptBuf.mk fun _ => rfl).congr fun _ => by
    simp [Fits]

def Sequence.borsh (sequence : Sequence) : ByteStream IoError Unit := serializeU32 sequence.val

def Sequence.deserialize : ByteStream IoError Sequence := do
  let val ← deserializeU32
  return ⟨val⟩

theorem Sequence.isCodec : IsCodec (fun _ => True) Sequence.borsh Sequence.deserialize :=
  (isCodec_u32.last Sequence.val Sequence.mk fun _ => rfl).congr fun _ => by simp

def Amount.borsh (amount : Amount) : ByteStream IoError Unit := serializeU64 amount.val

def Amount.deserialize : ByteStream IoError Amount := do
  let val ← deserializeU64
  return ⟨val⟩

theorem Amount.isCodec : IsCodec (fun _ => True) Amount.borsh Amount.deserialize :=
  (isCodec_u64.last Amount.val Amount.mk fun _ => rfl).congr fun _ => by simp

/-- The number in four bytes, whatever it stands for. -/
def LockTime.borsh (lockTime : LockTime) : ByteStream IoError Unit := serializeU32 lockTime.val

/-- Four bytes, which are not checked against the threshold. -/
def LockTime.deserialize : ByteStream IoError LockTime := do
  let val ← deserializeU32
  return ⟨val⟩

/-- Every lock time is read back, also one of no valid height or time. -/
theorem LockTime.isCodec : IsCodec (fun _ => True) LockTime.borsh LockTime.deserialize :=
  (isCodec_u32.last LockTime.val LockTime.mk fun _ => rfl).congr fun _ => by simp

/-- The tag is the discriminant. -/
def Version.borsh (version : Version) : ByteStream IoError Unit := do
  serializeTag version.toNat
  pure ()

/-- The discriminants are those of the declaration, `1` and `2`. -/
def Version.deserializeVariant : ℕ → ByteStream IoError Version
  | 1 => pure One
  | 2 => pure Two
  | tag => unexpectedTag tag

/-- One byte, where the wire has four. -/
def Version.deserialize : ByteStream IoError Version := do
  let tag ← deserializeTag
  deserializeVariant tag

/-- Both versions are read back; no other tag is a version. -/
theorem Version.isCodec : IsCodec (fun _ => True) Version.borsh Version.deserialize := by
  refine IsCodec.tagged toNat (by rintro (_ | _) <;> decide) fun tag => ?_
  match tag with
  | 1 =>
    refine (IsCodec.const One rfl).congr ?_
    rintro (_ | _) <;> simp [toNat]
  | 2 =>
    refine (IsCodec.const Two rfl).congr ?_
    rintro (_ | _) <;> simp [toNat]
  | 0 =>
    refine (IsCodec.never _).congr ?_
    rintro (_ | _) <;> simp [toNat]
  | n + 3 =>
    refine (IsCodec.never _).congr ?_
    rintro (_ | _) <;> simp [toNat]

/-! ## Witnesses, inputs and outputs -/

/-- Derived `BorshSerialize`: the three fields as they are. -/
def Witness.borsh (w : Witness) : ByteStream IoError Unit := do
  serializeBytes w.content
  serializeUsize w.witnessElements
  serializeUsize w.indicesStart

/-- Derived `BorshDeserialize`: nothing compares the three fields with each other. -/
def Witness.deserialize (usizeBits : ℕ) : ByteStream IoError Witness := do
  let content ← deserializeBytes
  let witnessElements ← deserializeUsize usizeBits
  let indicesStart ← deserializeUsize usizeBits
  return ⟨content, witnessElements, indicesStart⟩

/-- The fields can be written, and read on the target. -/
structure Witness.Fits (usizeBits : ℕ) (w : Witness) : Prop where
  content : w.content.length < 2 ^ 32
  witnessElements : w.witnessElements < 2 ^ 64 ∧ w.witnessElements < 2 ^ usizeBits
  indicesStart : w.indicesStart < 2 ^ 64 ∧ w.indicesStart < 2 ^ usizeBits

/-- The numbers in a packed witness are below its length. -/
theorem Witness.Packed.fits {w : Witness} {xs : Vec (Vec UInt8)} (h : Witness.Packed w xs)
    (hcontent : w.content.length < 2 ^ 32) : w.Fits 32 where
  content := hcontent
  witnessElements := by
    have hlength := h.length_content
    have hcount := h.witnessElements
    omega
  indicesStart := by
    have hlength := h.length_content
    have hindices := h.indicesStart
    omega

/-- A witness is read back, packed or not, when its numbers fit in a `usize`. -/
theorem Witness.isCodec (usizeBits : ℕ) :
    IsCodec (Witness.Fits usizeBits) Witness.borsh (Witness.deserialize usizeBits) := by
  have husize := isCodec_usize usizeBits
  refine (isCodec_vecU8.field content (fun c => husize.field witnessElements
    (fun n => husize.last indicesStart (Witness.mk c n) fun _ => rfl) ?_) ?_).congr ?_
  · intro n w h
    exact (congrArg witnessElements h.2).symm
  · intro c w h
    exact (congrArg content h.2.2).symm
  · intro w
    constructor
    · rintro ⟨hc, hn, hi, -⟩
      exact ⟨hc, hn, hi⟩
    · rintro ⟨hc, hn, hi⟩
      exact ⟨hc, hn, hi, rfl⟩

/-- The fields in the order of the declaration, the witness among them. -/
def TxIn.borsh (input : TxIn) : ByteStream IoError Unit := do
  input.previousOutput.borsh
  input.scriptSig.borsh
  input.sequence.borsh
  input.witness.borsh

/-- The fields in the order of the declaration. -/
def TxIn.deserialize (usizeBits : ℕ) : ByteStream IoError TxIn := do
  let previousOutput ← OutPoint.deserialize
  let scriptSig ← ScriptBuf.deserialize
  let sequence ← Sequence.deserialize
  let witness ← Witness.deserialize usizeBits
  return ⟨previousOutput, scriptSig, sequence, witness⟩

/-- The script and the witness fit. -/
def TxIn.Fits (usizeBits : ℕ) (input : TxIn) : Prop :=
  input.scriptSig.Fits ∧ input.witness.Fits usizeBits

/-- An input is read back with its witness. -/
theorem TxIn.isCodec (usizeBits : ℕ) :
    IsCodec (TxIn.Fits usizeBits) TxIn.borsh (TxIn.deserialize usizeBits) := by
  refine (OutPoint.isCodec.field previousOutput (fun p => ScriptBuf.isCodec.field scriptSig
    (fun c => Sequence.isCodec.field sequence
      (fun q => (Witness.isCodec usizeBits).last witness (TxIn.mk p c q) fun _ => rfl) ?_)
      ?_) ?_).congr ?_
  · intro q x h
    exact (congrArg sequence h.2).symm
  · intro c x h
    exact (congrArg scriptSig h.2.2).symm
  · intro p x h
    exact (congrArg previousOutput h.2.2.2).symm
  · intro x
    simp [Fits]

def TxOut.borsh (output : TxOut) : ByteStream IoError Unit := do
  output.value.borsh
  output.scriptPubkey.borsh

def TxOut.deserialize : ByteStream IoError TxOut := do
  let value ← Amount.deserialize
  let scriptPubkey ← ScriptBuf.deserialize
  return ⟨value, scriptPubkey⟩

def TxOut.Fits (output : TxOut) : Prop := output.scriptPubkey.Fits

theorem TxOut.isCodec : IsCodec TxOut.Fits TxOut.borsh TxOut.deserialize :=
  (Amount.isCodec.field value
    (fun v => ScriptBuf.isCodec.last scriptPubkey (TxOut.mk v) fun _ => rfl)
    fun _ _ h => (congrArg value h.2).symm).congr fun _ => by simp [Fits]

/-! ## Transactions -/

namespace BitcoinTransaction

/-- The fields in the order of the declaration, always with the witnesses. -/
def borsh (tx : BitcoinTransaction) : ByteStream IoError Unit := do
  tx.version.borsh
  tx.lockTime.borsh
  serializeVec TxIn.borsh tx.input.toList
  serializeVec TxOut.borsh tx.output.toList

/-- The fields in the order of the declaration. -/
def deserialize (usizeBits : ℕ) : ByteStream IoError BitcoinTransaction := do
  let version ← Version.deserialize
  let lockTime ← LockTime.deserialize
  let input ← asVec (deserializeVec (TxIn.deserialize usizeBits))
  let output ← asVec (deserializeVec TxOut.deserialize)
  return ⟨version, lockTime, input, output⟩

/-- The numbers of inputs and outputs and everything in them fit. -/
structure Fits (usizeBits : ℕ) (tx : BitcoinTransaction) : Prop where
  input : tx.input.toList.length < 2 ^ 32 ∧ ∀ i ∈ tx.input.toList, i.Fits usizeBits
  output : tx.output.toList.length < 2 ^ 32 ∧ ∀ o ∈ tx.output.toList, o.Fits

/-- A transaction is read back when all its lengths fit. -/
theorem isCodec (usizeBits : ℕ) :
    IsCodec (Fits usizeBits) borsh (deserialize usizeBits) := by
  have hinput := (isCodec_vec (TxIn.isCodec usizeBits)).asVec
  have houtput := (isCodec_vec TxOut.isCodec).asVec
  refine (Version.isCodec.field version (fun v => LockTime.isCodec.field lockTime
    (fun l => hinput.field input
      (fun i => houtput.last output (BitcoinTransaction.mk v l i) fun _ => rfl) ?_)
      ?_) ?_).congr ?_
  · intro i x h
    exact (congrArg input h.2).symm
  · intro l x h
    exact (congrArg lockTime h.2.2).symm
  · intro v x h
    exact (congrArg version h.2.2.2).symm
  · intro x
    constructor
    · rintro ⟨-, -, hin, hout, -⟩
      exact ⟨hin, hout⟩
    · rintro ⟨hin, hout⟩
      exact ⟨trivial, trivial, hin, hout, rfl⟩

/-- What fits on 32 bits fits on 64 bits. -/
theorem Fits.widen {tx : BitcoinTransaction} (h : tx.Fits 32) : tx.Fits 64 where
  input := by
    refine ⟨h.input.1, fun input hinput => ?_⟩
    obtain ⟨hscript, hcontent, helements, hindices⟩ := h.input.2 input hinput
    exact ⟨hscript, hcontent, ⟨helements.1, helements.1⟩, ⟨hindices.1, hindices.1⟩⟩
  output := h.output

/-- The bytes of a transaction are read back in front of anything, on 32 and on 64 bits, and
stand for no other one.  A complete input for a transaction is what is written for it, and
what is read on 32 bits is read on 64 bits. -/
theorem borsh_bijective :
    (∀ tx : BitcoinTransaction, tx.Fits 32 → ∃ b, toVec tx.borsh = .ok b ∧
      (∀ rest, (deserialize 32).run (b ++ rest) = .ok (tx, rest)) ∧
      (∀ rest, (deserialize 64).run (b ++ rest) = .ok (tx, rest)) ∧
      ∀ tx' : BitcoinTransaction, tx'.Fits 64 → toVec tx'.borsh = .ok b → tx' = tx) ∧
    (∀ (usizeBits : ℕ) (b : Bytes) (tx : BitcoinTransaction),
      tryFromSlice (deserialize usizeBits) b = .ok tx → toVec tx.borsh = .ok b) ∧
    ∀ (b rest : Bytes) (tx : BitcoinTransaction),
      (deserialize 32).run b = .ok (tx, rest) → (deserialize 64).run b = .ok (tx, rest) := by
  refine ⟨fun tx htx => ?_, fun usizeBits b tx h => ?_, fun b rest tx h => ?_⟩
  · obtain ⟨b, hb, hread⟩ := (isCodec 32).exists_toVec htx
    have hread' := ((isCodec 64).toVec_eq_ok_iff htx.widen).mp hb
    refine ⟨b, hb, hread, hread'.2, fun tx' htx' hb' => ?_⟩
    exact (isCodec 64).eq_of_toVec_eq htx' htx.widen (hb'.trans hb.symm)
  · rw [tryFromSlice_eq_ok_iff, (isCodec usizeBits).run_eq_ok_iff] at h
    obtain ⟨-, bs, hbs, rfl⟩ := h
    rwa [List.append_nil]
  · obtain ⟨hfits, hwritten⟩ := (isCodec 32).run_eq_ok_iff.mp h
    exact (isCodec 64).run_eq_ok_iff.mpr ⟨hfits.widen, hwritten⟩

/-- The witness of the first input is no packed form; its bytes are read back all the same. -/
theorem borsh_bijective_hollowTransaction :
    ∃ b, toVec (sampleTransaction (sampleInput 1 .empty .hollow)
        (sampleInput 2 .empty sampleWitness)).borsh = .ok b ∧
      ∀ rest, (deserialize 32).run (b ++ rest) =
        .ok (sampleTransaction (sampleInput 1 .empty .hollow) (sampleInput 2 .empty sampleWitness),
          rest) := by
  have hempty : ScriptBuf.empty.Fits := by
    show (0 : ℕ) < 2 ^ 32
    decide
  have hhollow : Witness.hollow.Fits 32 := ⟨by decide, by decide, by decide⟩
  have hsample : sampleWitness.Fits 32 := ⟨by decide, by decide, by decide⟩
  have hfits : (sampleTransaction (sampleInput 1 .empty .hollow)
      (sampleInput 2 .empty sampleWitness)).Fits 32 := by
    refine ⟨⟨by decide, ?_⟩, by decide, ?_⟩
    · intro input hinput
      rcases List.mem_pair.mp hinput with rfl | rfl
      · exact ⟨hempty, hhollow⟩
      · exact ⟨hempty, hsample⟩
    · intro output houtput
      rw [List.mem_singleton.mp houtput]
      show (1 : ℕ) < 2 ^ 32
      decide
  obtain ⟨b, hb, hread, -⟩ := borsh_bijective.1 _ hfits
  exact ⟨b, hb, hread⟩

end BitcoinTransaction

end Bitcoin
