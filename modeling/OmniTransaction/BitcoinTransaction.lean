/-
# Bitcoin transactions

`BitcoinTransaction` of `src/bitcoin/bitcoin_transaction.rs`: serialization in
the legacy and the segwit form, the payloads to sign, and the calls that attach
a `script_sig` or a witness to an input.  A signing session is a sequence of
such calls (`Reaches`); the calls leave the signed parts of the transaction
alone (`Reaches.frame_eq`).

SHA-256d is a parameter.
-/
import Mathlib.Logic.Relation
import OmniTransaction.BitcoinTypes

open ByteOrder Rust PrefixCode

namespace Bitcoin

variable {ε α : Type}

/-- The marker MUST be a 1-byte zero value: 0x00. (BIP-141) -/
def SEGWIT_MARKER : UInt8 := 0x00

/-- The flag MUST be a 1-byte non-zero value. Currently, 0x01 MUST be used. (BIP-141) -/
def SEGWIT_FLAG : UInt8 := 0x01

/-- `BitcoinTransaction`. -/
@[ext]
structure BitcoinTransaction where
  version : Version
  lockTime : LockTime
  input : Vec TxIn
  output : Vec TxOut
  deriving DecidableEq

/-- A transaction without its `script_sig`s and witnesses. -/
structure Frame where
  version : Version
  lockTime : LockTime
  spent : List (OutPoint × Sequence)
  output : Vec TxOut

/-- A loop that encodes into a fresh buffer. -/
def encodeList (enc : α → ByteStream ε ℕ) (l : List α) : Outcome ε Bytes := do
  let (_, buffer) ← (l.forM fun c => do let _ ← enc c).run []
  return buffer

namespace BitcoinTransaction

/-- Some input carries a witness. -/
def hasWitness (tx : BitcoinTransaction) : Bool :=
  tx.input.toList.any fun input => !input.witness.isEmpty

/-- `uses_segwit_serialization`: no inputs means the segwit form too. -/
def usesSegwitSerialization (tx : BitcoinTransaction) : Bool :=
  if tx.hasWitness then true else tx.input.toList.isEmpty

/-- The branches of `encode`, with the length so far. -/
def encodeBody (tx : BitcoinTransaction) (len : ℕ) : ByteStream ε ℕ :=
  if !tx.usesSegwitSerialization then do
    let inputLen ← encodeVec TxIn.encode tx.input
    let outputLen ← encodeVec TxOut.encode tx.output
    return len + inputLen + outputLen
  else do
    let markerLen ← encodeU8 SEGWIT_MARKER
    let flagLen ← encodeU8 SEGWIT_FLAG
    let inputLen ← encodeVec TxIn.encode tx.input
    let outputLen ← encodeVec TxOut.encode tx.output
    encodeEach (fun input => input.witness.encode)
      (len + markerLen + flagLen + inputLen + outputLen) tx.input.toList

/-- `encode`. -/
def encode (tx : BitcoinTransaction) : ByteStream ε ℕ := do
  let len ← tx.version.encode
  let len ← tx.encodeBody len
  let lockTimeLen ← tx.lockTime.encode
  return len + lockTimeLen

/-- `serialize`. -/
def serialize (tx : BitcoinTransaction) : Outcome Empty Bytes := do
  let (_, buffer) ← tx.encode.run []
  return buffer

/-- `build_for_signing_legacy`. -/
def buildForSigningLegacy (tx : BitcoinTransaction) (sighashType : EcdsaSighashType) :
    Outcome Empty Bytes := do
  let (_, buffer) ← tx.encode.run []
  return buffer ++ leBytes 4 sighashType.toNat

/-- The assignment in `build_with_script_sig`. -/
def setScriptSig (tx : BitcoinTransaction) (inputIndex : ℕ) (scriptSig : ScriptBuf) :
    TransactionType → Outcome Empty BitcoinTransaction
  | .P2PKH | .P2SH => do
      let input ← tx.input.assign inputIndex fun input => { input with scriptSig := scriptSig }
      return { tx with input := input }
  | .P2WPKH | .P2WSH => .panic "Use build_with_witness for SegWit transactions"

/-- `build_with_script_sig`; the new state is returned beside the bytes. -/
def buildWithScriptSig (tx : BitcoinTransaction) (inputIndex : ℕ) (scriptSig : ScriptBuf)
    (txType : TransactionType) : Outcome Empty (Bytes × BitcoinTransaction) := do
  let tx ← tx.setScriptSig inputIndex scriptSig txType
  let (_, buffer) ← tx.encode.run []
  return (buffer, tx)

/-- The assignment in `build_with_witness`. -/
def setWitness (tx : BitcoinTransaction) (inputIndex : ℕ) (witness : Vec (Vec UInt8)) :
    TransactionType → Outcome Empty BitcoinTransaction
  | .P2WPKH | .P2WSH => do
      let witness ← Witness.fromSlice witness
      let input ← tx.input.assign inputIndex fun input => { input with witness := witness }
      return { tx with input := input }
  | .P2PKH | .P2SH => .panic "Use build_with_script_sig for non-SegWit transactions"

/-- `build_with_witness`; the new state is returned beside the bytes. -/
def buildWithWitness (tx : BitcoinTransaction) (inputIndex : ℕ) (witness : Vec (Vec UInt8))
    (txType : TransactionType) : Outcome Empty (Bytes × BitcoinTransaction) := do
  let tx ← tx.setWitness inputIndex witness txType
  let (_, buffer) ← tx.encode.run []
  return (buffer, tx)

/-- The marker and the flag, once a witness is attached. -/
def emitMarkerAndFlag (tx : BitcoinTransaction) : ByteStream ε Unit :=
  if tx.hasWitness then do
    emitU8 SEGWIT_MARKER
    emitU8 SEGWIT_FLAG
  else return ()

/-- `encode_for_sighash_for_segwit`. -/
def encodeForSighashForSegwit (sha256d : Bytes → Bytes) (tx : BitcoinTransaction)
    (inputIndex : ℕ) (scriptCode : ScriptBuf) (value : UInt64) : ByteStream Empty Unit := do
  let _ ← tx.version.encode
  -- BIP-143 has nothing between version and prevouts
  tx.emitMarkerAndFlag
  let prevouts ← StateT.lift
    (encodeList (fun input : TxIn => input.previousOutput.encode) tx.input.toList)
  writeAll (sha256d prevouts)
  let sequences ← StateT.lift
    (encodeList (fun input : TxIn => input.sequence.encode) tx.input.toList)
  writeAll (sha256d sequences)
  let _ ← (← StateT.lift (tx.input.get inputIndex)).previousOutput.encode
  let _ ← scriptCode.encode
  writeAll (leBytes 8 value.toNat)
  let _ ← (← StateT.lift (tx.input.get inputIndex)).sequence.encode
  let outputs ← StateT.lift (encodeList TxOut.encode tx.output.toList)
  writeAll (sha256d outputs)
  let _ ← tx.lockTime.encode

/-- `build_for_signing_segwit`. -/
def buildForSigningSegwit (sha256d : Bytes → Bytes) (tx : BitcoinTransaction)
    (sighashType : EcdsaSighashType) (inputIndex : ℕ) (scriptCode : ScriptBuf)
    (value : UInt64) : Outcome Empty Bytes :=
  if tx.version ≠ .Two then .panic "SegWit transactions must be version 2"
  else do
    let (_, buffer) ←
      (encodeForSighashForSegwit sha256d tx inputIndex scriptCode value).run []
    return buffer ++ leBytes 4 sighashType.toNat

/-! ## Signing sessions -/

/-- A call that completes an input. -/
inductive Call where
  | buildWithScriptSig (inputIndex : ℕ) (scriptSig : ScriptBuf) (txType : TransactionType)
  | buildWithWitness (inputIndex : ℕ) (witness : Vec (Vec UInt8)) (txType : TransactionType)

/-- Run a call on a transaction. -/
def Call.run (tx : BitcoinTransaction) : Call → Outcome Empty (Bytes × BitcoinTransaction)
  | .buildWithScriptSig inputIndex scriptSig txType =>
      tx.buildWithScriptSig inputIndex scriptSig txType
  | .buildWithWitness inputIndex witness txType => tx.buildWithWitness inputIndex witness txType

/-- One call out of `calls` that returns. -/
def Step (calls : Call → Prop) (tx tx' : BitcoinTransaction) : Prop :=
  ∃ call, calls call ∧ ∃ bytes, call.run tx = .ok (bytes, tx')

/-- The states that sequences of such calls lead to. -/
def Reaches (calls : Call → Prop) : BitcoinTransaction → BitcoinTransaction → Prop :=
  Relation.ReflTransGen (Step calls)

theorem setScriptSig_eq_ok {tx tx' : BitcoinTransaction} {inputIndex : ℕ}
    {scriptSig : ScriptBuf} {txType : TransactionType}
    (h : tx.setScriptSig inputIndex scriptSig txType = .ok tx') :
    tx' = { tx with input := tx.input.modify inputIndex fun input =>
      { input with scriptSig := scriptSig } } := by
  cases txType with
  | P2PKH | P2SH =>
      obtain ⟨input, hinput, h⟩ := Outcome.bind_eq_ok_iff.mp h
      rw [← Outcome.ok.inj h, (Vec.assign_eq_ok_iff.mp hinput).2]
  | P2WPKH | P2WSH => cases h

theorem setWitness_eq_ok {tx tx' : BitcoinTransaction} {inputIndex : ℕ}
    {witness : Vec (Vec UInt8)} {txType : TransactionType}
    (h : tx.setWitness inputIndex witness txType = .ok tx') :
    ∃ w, (Witness.fromSlice witness : Outcome Empty Witness) = .ok w ∧
      tx' = { tx with input := tx.input.modify inputIndex fun input =>
        { input with witness := w } } := by
  cases txType with
  | P2WPKH | P2WSH =>
      obtain ⟨w, hw, h⟩ := Outcome.bind_eq_ok_iff.mp h
      obtain ⟨input, hinput, h⟩ := Outcome.bind_eq_ok_iff.mp h
      exact ⟨w, hw, by rw [← Outcome.ok.inj h, (Vec.assign_eq_ok_iff.mp hinput).2]⟩
  | P2PKH | P2SH => cases h

/-- A call that returns has written one field of one input. -/
theorem Call.run_eq_ok {call : Call} {tx tx' : BitcoinTransaction} {bytes : Bytes}
    (h : call.run tx = .ok (bytes, tx')) :
    (∃ inputIndex scriptSig txType, call = .buildWithScriptSig inputIndex scriptSig txType ∧
      tx' = { tx with input := tx.input.modify inputIndex fun input =>
        { input with scriptSig := scriptSig } }) ∨
    (∃ inputIndex witness txType w, call = .buildWithWitness inputIndex witness txType ∧
      (Witness.fromSlice witness : Outcome Empty Witness) = .ok w ∧
      tx' = { tx with input := tx.input.modify inputIndex fun input =>
        { input with witness := w } }) := by
  cases call with
  | buildWithScriptSig inputIndex scriptSig txType =>
      left
      obtain ⟨t, ht, h⟩ := Outcome.bind_eq_ok_iff.mp h
      obtain ⟨r, -, h⟩ := Outcome.bind_eq_ok_iff.mp h
      obtain ⟨-, rfl⟩ := Prod.mk.inj (Outcome.ok.inj h)
      exact ⟨inputIndex, scriptSig, txType, rfl, setScriptSig_eq_ok ht⟩
  | buildWithWitness inputIndex witness txType =>
      right
      obtain ⟨t, ht, h⟩ := Outcome.bind_eq_ok_iff.mp h
      obtain ⟨r, -, h⟩ := Outcome.bind_eq_ok_iff.mp h
      obtain ⟨-, rfl⟩ := Prod.mk.inj (Outcome.ok.inj h)
      obtain ⟨w, hw, ht⟩ := setWitness_eq_ok ht
      exact ⟨inputIndex, witness, txType, w, rfl, hw, ht⟩

/-- The bytes that a call returns are those of the new transaction. -/
theorem Call.exists_encode_of_run {call : Call} {tx tx' : BitcoinTransaction} {bytes : Bytes}
    (h : call.run tx = .ok (bytes, tx')) :
    ∃ n, (tx'.encode : ByteStream Empty ℕ).run [] = .ok (n, bytes) := by
  cases call with
  | buildWithScriptSig inputIndex scriptSig txType =>
      obtain ⟨t, -, h⟩ := Outcome.bind_eq_ok_iff.mp h
      obtain ⟨⟨n, buffer⟩, hrun, h⟩ := Outcome.bind_eq_ok_iff.mp h
      obtain ⟨rfl, rfl⟩ := Prod.mk.inj (Outcome.ok.inj h)
      exact ⟨n, hrun⟩
  | buildWithWitness inputIndex witness txType =>
      obtain ⟨t, -, h⟩ := Outcome.bind_eq_ok_iff.mp h
      obtain ⟨⟨n, buffer⟩, hrun, h⟩ := Outcome.bind_eq_ok_iff.mp h
      obtain ⟨rfl, rfl⟩ := Prod.mk.inj (Outcome.ok.inj h)
      exact ⟨n, hrun⟩

/-- The outpoints and sequences of the inputs. -/
def spent (tx : BitcoinTransaction) : List (OutPoint × Sequence) :=
  tx.input.toList.map fun input => (input.previousOutput, input.sequence)

/-- What the signatures of a transaction cover. -/
def frame (tx : BitcoinTransaction) : Frame := ⟨tx.version, tx.lockTime, tx.spent, tx.output⟩

/-- Writing one input leaves the frame alone when outpoint and sequence stay. -/
theorem frame_modify (tx : BitcoinTransaction) (i : ℕ) {f : TxIn → TxIn}
    (hf : ∀ input, (f input).previousOutput = input.previousOutput ∧
      (f input).sequence = input.sequence) :
    frame { tx with input := tx.input.modify i f } = tx.frame := by
  have hmap : (tx.input.toList.modify i f).map
      (fun input => (input.previousOutput, input.sequence))
      = tx.input.toList.map fun input => (input.previousOutput, input.sequence) := by
    -- only outpoint and sequence are looked at, which `f` keeps
    apply List.ext_getElem
    · simp
    · intro j h₁ h₂
      simp only [List.getElem_map, List.getElem_modify]
      split_ifs
      · rw [(hf _).1, (hf _).2]
      · rfl
  rw [frame, spent, Vec.toList_modify, hmap]
  rfl

/-- A call leaves the frame alone. -/
theorem Step.frame_eq {calls : Call → Prop} {tx tx' : BitcoinTransaction}
    (h : Step calls tx tx') : tx'.frame = tx.frame := by
  obtain ⟨call, -, bytes, hrun⟩ := h
  obtain ⟨i, scriptSig, txType, -, rfl⟩ | ⟨i, witness, txType, w, -, -, rfl⟩ :=
    Call.run_eq_ok hrun
  · exact frame_modify tx i fun _ => ⟨rfl, rfl⟩
  · exact frame_modify tx i fun _ => ⟨rfl, rfl⟩

/-- A signing session leaves the frame alone. -/
theorem Reaches.frame_eq {calls : Call → Prop} {tx tx' : BitcoinTransaction}
    (h : Reaches calls tx tx') : tx'.frame = tx.frame := by
  induction h with
  | refl => rfl
  | tail _ step ih => rw [step.frame_eq, ih]

end BitcoinTransaction

/-! ## Two inputs -/

/-- A script of one byte. -/
def sampleScript (opcode : UInt8) : ScriptBuf := ⟨⟨[opcode], by simp⟩⟩

/-- An input that spends the first output of a transaction. -/
def sampleInput (txid : UInt8) (scriptSig : ScriptBuf) (witness : Witness) : TxIn where
  previousOutput := ⟨List.Vector.replicate 32 txid, 0⟩
  scriptSig := scriptSig
  sequence := ⟨0xFFFFFFFF⟩
  witness := witness

/-- A transaction with two inputs and one output. -/
def sampleTransaction (first second : TxIn) : BitcoinTransaction where
  version := .Two
  lockTime := ⟨0⟩
  input := ⟨[first, second], by simp⟩
  output := ⟨[⟨⟨10000⟩, sampleScript 0x51⟩], by decide⟩

/-- A stack of one element. -/
def sampleStack : Vec (Vec UInt8) := ⟨[⟨[0x30], by decide⟩], by decide⟩

def sampleWitness : Witness := ⟨[1, 0x30, 0, 0, 0, 0], 1, 2⟩

theorem fromSlice_sampleStack :
    (Witness.fromSlice sampleStack : Outcome Empty Witness) = .ok sampleWitness := by
  decide

end Bitcoin
