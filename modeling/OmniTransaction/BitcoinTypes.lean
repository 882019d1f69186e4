/-
# Parts of a Bitcoin transaction

Outpoints, scripts, inputs, outputs, version and lock time with their encoders,
and beside each encoder the bytes it appends (`wire`), which are prefix-free.  A
transaction input is encoded without its witness.
-/
import OmniTransaction.BitcoinWitness

open ByteOrder Rust PrefixCode

namespace Bitcoin

variable {ε : Type}

/-! ## Outpoints -/

/-- `Hash`, in display order. -/
abbrev Hash := FixedBytes 32

/-- `Hash::encode`: the bytes in reverse order. -/
def Hash.encode (hash : Hash) : ByteStream ε ℕ := do
  emitSlice hash.toList.reverse
  return hash.toList.length

/-- A hash is written with its last byte first. -/
theorem Hash.encodes_encode (hash : Hash) :
    Encodes (Hash.encode hash : ByteStream ε ℕ) hash.toList.reverse := by
  rw [Encodes, List.length_reverse]
  exact (writes_writeAll _).map fun _ => hash.toList.length

/-- All hashes have the same length. -/
theorem Hash.prefixFree_wire : PrefixFree fun hash : Hash => hash.toList.reverse := by
  apply prefixFree_of_length_eq 32
  · intro hash
    rw [List.length_reverse, List.Vector.toList_length]
  · intro a b h
    exact FixedBytes.toList_injective 32 (List.reverse_injective h)

/-- `Txid`. -/
abbrev Txid := Hash

/-- `OutPoint`. -/
@[ext]
structure OutPoint where
  txid : Txid
  vout : UInt32
  deriving DecidableEq

namespace OutPoint

/-- `Encodable for OutPoint`. -/
def encode (outpoint : OutPoint) : ByteStream ε ℕ := do
  let txidLen ← Hash.encode outpoint.txid
  let voutLen ← encodeU32 outpoint.vout
  return txidLen + voutLen

/-- The id in reverse, then the index. -/
def wire (outpoint : OutPoint) : Bytes :=
  outpoint.txid.toList.reverse ++ leBytes 4 outpoint.vout.toNat

/-- The two fields are written one after the other. -/
theorem encodes_encode (outpoint : OutPoint) :
    Encodes (outpoint.encode : ByteStream ε ℕ) outpoint.wire :=
  (Hash.encodes_encode outpoint.txid).seq (encodes_encodeInt 4 outpoint.vout.toNat)

/-- An outpoint has a fixed length. -/
theorem prefixFree_wire : PrefixFree wire :=
  Hash.prefixFree_wire.append prefixFree_u32 fun _ _ => OutPoint.ext

/-- 32 bytes of id and four of the index. -/
theorem length_wire (outpoint : OutPoint) : outpoint.wire.length = 36 := by
  rw [wire, List.length_append, List.length_reverse, List.Vector.toList_length, length_leBytes]

end OutPoint

/-! ## Inputs -/

/-- `Sequence`. -/
@[ext]
structure Sequence where
  val : UInt32
  deriving DecidableEq

namespace Sequence

/-- `Encodable for Sequence`. -/
def encode (sequence : Sequence) : ByteStream ε ℕ := encodeU32 sequence.val

/-- Four bytes, the low one first. -/
def wire (sequence : Sequence) : Bytes := leBytes 4 sequence.val.toNat

/-- The number is written, and its length returned. -/
theorem encodes_encode (sequence : Sequence) :
    Encodes (sequence.encode : ByteStream ε ℕ) sequence.wire :=
  encodes_encodeInt 4 sequence.val.toNat

/-- A sequence has a fixed length. -/
theorem prefixFree_wire : PrefixFree wire :=
  prefixFree_u32.comp fun _ _ => Sequence.ext

end Sequence

/-- `ScriptBuf`. -/
@[ext]
structure ScriptBuf where
  val : Vec UInt8
  deriving DecidableEq

namespace ScriptBuf

/-- `ScriptBuf::default`. -/
def empty : ScriptBuf := ⟨Vec.empty⟩

/-- `p2wpkh_script_code`. -/
def p2wpkhScriptCode (script : ScriptBuf) : Outcome ε ScriptBuf := do
  let val ← Vec.ofList ([0x00, 0x14] ++ script.val.toList)
  return ⟨val⟩

/-- `Encodable for ScriptBuf`: the bytes behind their length. -/
def encode (script : ScriptBuf) : ByteStream ε ℕ := encodeWithSize script.val

def wire (script : ScriptBuf) : Bytes := vecWire (fun x => [x]) script.val

/-- The length and the bytes are written. -/
theorem encodes_encode (script : ScriptBuf) :
    Encodes (script.encode : ByteStream ε ℕ) script.wire :=
  encodes_encodeWithSize script.val

/-- A script tells its own length. -/
theorem prefixFree_wire : PrefixFree wire :=
  prefixFree_bytes.comp fun _ _ => ScriptBuf.ext

end ScriptBuf

/-- `TxIn`. -/
@[ext]
structure TxIn where
  previousOutput : OutPoint
  scriptSig : ScriptBuf
  sequence : Sequence
  witness : Witness
  deriving DecidableEq

namespace TxIn

/-- `Encodable for TxIn`, which leaves the witness out. -/
def encode (input : TxIn) : ByteStream ε ℕ := do
  let previousOutputLen ← input.previousOutput.encode
  let scriptSigLen ← input.scriptSig.encode
  let sequenceLen ← input.sequence.encode
  return previousOutputLen + scriptSigLen + sequenceLen

/-- The part of an input that is encoded with it: all but the witness. -/
def base (input : TxIn) : OutPoint × ScriptBuf × Sequence :=
  (input.previousOutput, input.scriptSig, input.sequence)

/-- What the input is without its witness. -/
def wire (base : OutPoint × ScriptBuf × Sequence) : Bytes :=
  base.1.wire ++ (base.2.1.wire ++ base.2.2.wire)

/-- The three fields are written one after the other. -/
theorem encodes_encode (input : TxIn) :
    Encodes (input.encode : ByteStream ε ℕ) (wire input.base) := by
  rw [Encodes, wire, List.length_append, List.length_append, ← Nat.add_assoc]
  exact (OutPoint.encodes_encode _).bind
    ((ScriptBuf.encodes_encode _).bind ((Sequence.encodes_encode _).map fun _ => _))

/-- An input without its witness tells its own length. -/
theorem prefixFree_wire : PrefixFree wire :=
  OutPoint.prefixFree_wire.append
    (ScriptBuf.prefixFree_wire.append Sequence.prefixFree_wire fun _ _ => Prod.ext)
    fun _ _ => Prod.ext

end TxIn

/-! ## Outputs -/

/-- `Amount`. -/
@[ext]
structure Amount where
  val : UInt64
  deriving DecidableEq

namespace Amount

/-- `Encodable for Amount`. -/
def encode (amount : Amount) : ByteStream ε ℕ := encodeU64 amount.val

/-- Eight bytes, the low one first. -/
def wire (amount : Amount) : Bytes := leBytes 8 amount.val.toNat

/-- The number is written, and its length returned. -/
theorem encodes_encode (amount : Amount) :
    Encodes (amount.encode : ByteStream ε ℕ) amount.wire :=
  encodes_encodeInt 8 amount.val.toNat

/-- An amount has a fixed length. -/
theorem prefixFree_wire : PrefixFree wire :=
  prefixFree_u64.comp fun _ _ => Amount.ext

end Amount

/-- `TxOut`. -/
@[ext]
structure TxOut where
  value : Amount
  scriptPubkey : ScriptBuf
  deriving DecidableEq

namespace TxOut

/-- `Encodable for TxOut`. -/
def encode (output : TxOut) : ByteStream ε ℕ := do
  let valueLen ← output.value.encode
  let scriptPubkeyLen ← output.scriptPubkey.encode
  return valueLen + scriptPubkeyLen

def wire (output : TxOut) : Bytes := output.value.wire ++ output.scriptPubkey.wire

/-- The two fields are written one after the other. -/
theorem encodes_encode (output : TxOut) :
    Encodes (output.encode : ByteStream ε ℕ) output.wire :=
  (Amount.encodes_encode output.value).seq (ScriptBuf.encodes_encode output.scriptPubkey)

/-- An output tells its own length. -/
theorem prefixFree_wire : PrefixFree wire :=
  Amount.prefixFree_wire.append ScriptBuf.prefixFree_wire fun _ _ => TxOut.ext

/-- An output has at least its value. -/
theorem wire_ne_nil (output : TxOut) : output.wire ≠ [] := by
  intro h
  have hlen := congrArg List.length h
  rw [wire, List.length_append, Amount.wire, length_leBytes] at hlen
  simp at hlen

end TxOut

/-! ## Version, lock time and sighash type -/

/-- `Version`. -/
inductive Version where
  | One
  | Two
  deriving DecidableEq

namespace Version

/-- The discriminant. -/
def toNat : Version → ℕ
  | One => 1
  | Two => 2

/-- `Encodable for Version`: four bytes, although there are only two versions. -/
def encode (version : Version) : ByteStream ε ℕ := encodeInt 4 version.toNat

/-- Four bytes, the low one first. -/
def wire (version : Version) : Bytes := leBytes 4 version.toNat

/-- The number of the version is written. -/
theorem encodes_encode (version : Version) :
    Encodes (version.encode : ByteStream ε ℕ) version.wire :=
  encodes_encodeInt 4 version.toNat

/-- The two versions have different first bytes. -/
theorem prefixFree_wire : PrefixFree wire := by
  apply prefixFree_leBytes 4
  · intro version
    cases version <;> decide
  · intro a b
    cases a <;> cases b <;> simp [toNat]

end Version

/-- `LockTime`. -/
@[ext]
structure LockTime where
  val : UInt32
  deriving DecidableEq

namespace LockTime

/-- `Encodable for LockTime`. -/
def encode (lockTime : LockTime) : ByteStream ε ℕ := encodeU32 lockTime.val

/-- Four bytes, the low one first. -/
def wire (lockTime : LockTime) : Bytes := leBytes 4 lockTime.val.toNat

/-- The number is written, and its length returned. -/
theorem encodes_encode (lockTime : LockTime) :
    Encodes (lockTime.encode : ByteStream ε ℕ) lockTime.wire :=
  encodes_encodeInt 4 lockTime.val.toNat

/-- A lock time has a fixed length. -/
theorem prefixFree_wire : PrefixFree wire :=
  prefixFree_u32.comp fun _ _ => LockTime.ext

end LockTime

/-- `EcdsaSighashType`. -/
inductive EcdsaSighashType where
  | All
  deriving DecidableEq

/-- The discriminant. -/
def EcdsaSighashType.toNat : EcdsaSighashType → ℕ
  | All => 1

/-- `TransactionType`. -/
inductive TransactionType where
  | P2PKH
  | P2SH
  | P2WPKH
  | P2WSH
  deriving DecidableEq

end Bitcoin
