/-
# EVM transactions

`EVMTransaction` of `src/evm/evm_transaction.rs` with its two byte forms, the
payload to sign (`buildForSigning`) and the signed transaction
(`buildWithSignature`), both written field by field to an RLP stream.  Beside
them stand the RLP items these bytes should carry (`signingItems`).
-/
import OmniTransaction.RlpStream

open ByteOrder Rust Rlp RlpStream

namespace Evm

/-! ## Types -/

/-- EIP-1559 transaction type. -/
def EIP_1559_TYPE : UInt8 := 0x02

/-- `[u8; 20]`. -/
abbrev Address := FixedBytes 20

/-- `Vec<(Address, Vec<[u8; 32]>)>`. -/
abbrev AccessList := List (Address × List (FixedBytes 32))

/-- Bytes one address space can hold at most.  Mapped memory stays far below,
so no length that the encoder computes leaves `usize`. -/
def addressSpace : ℕ := 2 ^ 62

/-- Bytes an access list occupies: per entry the address, the header of the key
vector and the keys. -/
def AccessList.heapSize (accessList : AccessList) : ℕ :=
  (accessList.map fun access => 44 + 32 * access.2.length).sum

/-- `EVMTransaction`; a value lives in one address space.  (`to` is a keyword, so
that field is `to_`.) -/
@[ext]
structure EVMTransaction where
  chainId : UInt64
  nonce : UInt64
  to_ : Option Address
  value : UInt128
  input : Bytes
  gasLimit : UInt128
  maxFeePerGas : UInt128
  maxPriorityFeePerGas : UInt128
  accessList : AccessList
  inMemory : input.length + accessList.heapSize < addressSpace

/-- `Signature`; a value lives in one address space. -/
@[ext]
structure Signature where
  v : UInt64
  r : Bytes
  s : Bytes
  inMemory : r.length + s.length < addressSpace

/-! ## The encoder -/

namespace EVMTransaction

/-- `encode_fields`. -/
def encodeFields (tx : EVMTransaction) : Builder Unit := do
  let recipient : Bytes := tx.to_.elim [] fun address => address.toList
  append (uintBytes 8 tx.chainId.toNat)
  append (uintBytes 8 tx.nonce.toNat)
  append (uintBytes 16 tx.maxPriorityFeePerGas.toNat)
  append (uintBytes 16 tx.maxFeePerGas.toNat)
  append (uintBytes 16 tx.gasLimit.toNat)
  append recipient
  append (uintBytes 16 tx.value.toNat)
  append tx.input
  -- the access list
  beginUnboundedList
  tx.accessList.forM fun access => do
    beginUnboundedList
    append access.1.toList
    -- the storage keys
    do
      beginUnboundedList
      access.2.forM fun storageKey => append storageKey.toList
      finalizeUnboundedList
    finalizeUnboundedList
  finalizeUnboundedList

/-- `build_for_signing`. -/
def buildForSigning (tx : EVMTransaction) : Outcome Empty Bytes := StateT.run' (do
  append [EIP_1559_TYPE]
  beginUnboundedList
  tx.encodeFields
  finalizeUnboundedList
  out) RlpStream.new

/-- `build_with_signature`. -/
def buildWithSignature (tx : EVMTransaction) (signature : Signature) : Outcome Empty Bytes :=
  StateT.run' (do
    append [EIP_1559_TYPE]
    beginUnboundedList
    tx.encodeFields
    append (uintBytes 8 signature.v.toNat)
    append signature.r
    append signature.s
    finalizeUnboundedList
    out) RlpStream.new

/-! ## The items of a transaction -/

/-- The items of a list of storage keys. -/
def keyItems (keys : List (FixedBytes 32)) : List Item :=
  keys.map fun storageKey => .str storageKey.toList

/-- The item of one entry of an access list. -/
def accessItem (access : Address × List (FixedBytes 32)) : Item :=
  .list [.str access.1.toList, .list (keyItems access.2)]

/-- The items of the payload to sign, integers as minimal big-endian strings and
an absent recipient as the empty string. -/
def signingItems (tx : EVMTransaction) : List Item :=
  [.str (minimalBe tx.chainId.toNat), .str (minimalBe tx.nonce.toNat),
    .str (minimalBe tx.maxPriorityFeePerGas.toNat), .str (minimalBe tx.maxFeePerGas.toNat),
    .str (minimalBe tx.gasLimit.toNat), .str (tx.to_.elim [] fun address => address.toList),
    .str (minimalBe tx.value.toNat), .str tx.input, .list (tx.accessList.map accessItem)]

end EVMTransaction

/-- The items of a signature as it is written. -/
def Signature.items (signature : Signature) : List Item :=
  [.str (minimalBe signature.v.toNat), .str signature.r, .str signature.s]

namespace EVMTransaction

theorem writes_keys (keys : List (FixedBytes 32)) :
    Writes (keys.forM fun storageKey => append storageKey.toList) (keyItems keys) := by
  rw [keyItems, List.map_eq_flatMap]
  exact Writes.forM (fun storageKey => writes_append storageKey.toList) keys

theorem writes_accessList (accessList : AccessList) :
    Writes (do
      beginUnboundedList
      accessList.forM fun access => do
        beginUnboundedList
        append access.1.toList
        do
          beginUnboundedList
          access.2.forM fun storageKey => append storageKey.toList
          finalizeUnboundedList
        finalizeUnboundedList
      finalizeUnboundedList) [.list (accessList.map accessItem)] := by
  have haccess (access : Address × List (FixedBytes 32)) :
      Writes (do
        beginUnboundedList
        append access.1.toList
        do
          beginUnboundedList
          access.2.forM fun storageKey => append storageKey.toList
          finalizeUnboundedList
        finalizeUnboundedList) [accessItem access] := by
    have h := ((writes_append access.1.toList).seq (writes_keys access.2).list).list
    simpa only [bind_assoc, List.cons_append, List.nil_append, accessItem] using h
  rw [List.map_eq_flatMap]
  exact (Writes.forM haccess accessList).list

/-- The fields are written as the signing items, whatever was written before. -/
theorem writes_encodeFields (tx : EVMTransaction) : Writes tx.encodeFields tx.signingItems := by
  have h64 (n : UInt64) : uintBytes 8 n.toNat = minimalBe n.toNat :=
    uintBytes_eq_minimalBe n.toNat_lt
  have h128 (n : UInt128) : uintBytes 16 n.toNat = minimalBe n.toNat :=
    uintBytes_eq_minimalBe n.isLt
  unfold encodeFields signingItems
  simp only [h64, h128]
  exact (writes_append _).seq <| (writes_append _).seq <| (writes_append _).seq <|
    (writes_append _).seq <| (writes_append _).seq <| (writes_append _).seq <|
    (writes_append _).seq <| (writes_append _).seq <| writes_accessList tx.accessList

end EVMTransaction

end Evm
