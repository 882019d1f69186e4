/-
# Reading EVM payloads

The crate writes the two payloads of a transaction and reads none.  `readForSigning` and
`readSigned` say what the bytes are for: they are strict readers of EIP-1559 payloads, which take
a list of nine or of twelve items, integers without leading zero bytes and nothing behind the
list.  The first takes exactly what `build_for_signing` writes.  The second takes what
`build_with_signature` writes exactly when the signature is one of the network: a parity of 0 or 1
and integers `r` and `s` of at most 32 bytes without leading zero bytes
(`read_eq_some_iff`).
-/
import OmniTransaction.EvmSigning
import OmniTransaction.RlpReaders

open ByteOrder Rust Rlp

namespace Evm

/-! ## The items of a transaction -/

/-- No recipient is the empty string. -/
def readRecipient : Item → Option (Option Address)
  | .str [] => some none
  | t => (readFixed 20 t).map some

/-- An entry of the access list: an address and its keys. -/
def readAccess : Item → Option (Address × List (FixedBytes 32))
  | .list [address, keys] => do
      let address ← readFixed 20 address
      let keys ← readList (readFixed 32) keys
      return (address, keys)
  | _ => none

/-- An empty string is no recipient, 20 bytes are one. -/
theorem takesItems_recipient :
    TakesItems readRecipient fun to_ => .str (to_.elim [] fun address => address.toList) := by
  intro t to_
  unfold readRecipient
  split
  · cases to_ with
    | none => exact iff_of_true rfl rfl
    | some address =>
      constructor
      · intro h
        cases h
      · intro h
        simpa using congrArg List.length (Item.str.inj h)
  · rename_i hne
    rw [Option.map_eq_some_iff]
    constructor
    · rintro ⟨address, haddress, rfl⟩
      exact (takesItems_fixed 20 t address).mp haddress
    · rintro rfl
      cases to_ with
      | none => exact absurd rfl hne
      | some address => exact ⟨address, (takesItems_fixed 20 _ address).mpr rfl, rfl⟩

/-- The item of an entry is taken as this entry. -/
theorem takesItems_access : TakesItems readAccess EVMTransaction.accessItem := by
  intro t access
  unfold readAccess
  split
  · rename_i address keys
    simp only [Option.bind_eq_bind, Option.bind_eq_some_iff, EVMTransaction.accessItem,
      EVMTransaction.keyItems, Item.list.injEq, List.cons.injEq, and_true]
    constructor
    · rintro ⟨a, ha, ks, hks, h⟩
      obtain rfl := Option.some.inj h
      exact ⟨(takesItems_fixed 20 address a).mp ha, ((takesItems_fixed 32).list keys ks).mp hks⟩
    · rintro ⟨ha, hks⟩
      exact ⟨access.1, (takesItems_fixed 20 address access.1).mpr ha, access.2,
        ((takesItems_fixed 32).list keys access.2).mpr hks, rfl⟩
  · rename_i hne
    constructor
    · intro h
      cases h
    · rintro rfl
      exact absurd rfl (hne _ _)

namespace EVMTransaction

/-- The nine fields, in the order in which they are signed. -/
def ofItems : List Item → Option EVMTransaction
  | [chainId, nonce, maxPriorityFeePerGas, maxFeePerGas, gasLimit, to_, value, input,
      accessList] => do
      let chainId ← readUint 8 chainId
      let nonce ← readUint 8 nonce
      let maxPriorityFeePerGas ← readUint 16 maxPriorityFeePerGas
      let maxFeePerGas ← readUint 16 maxFeePerGas
      let gasLimit ← readUint 16 gasLimit
      let to_ ← readRecipient to_
      let value ← readUint 16 value
      let input ← readStr input
      let accessList ← readList readAccess accessList
      if h : input.length + AccessList.heapSize accessList < addressSpace then
        some ⟨.ofNat chainId, .ofNat nonce, to_, .ofNat 128 value, input, .ofNat 128 gasLimit,
          .ofNat 128 maxFeePerGas, .ofNat 128 maxPriorityFeePerGas, accessList, h⟩
      else none
  | _ => none

/-- The nine items of the payload are those of one transaction; field by field. -/
theorem ofItems_eq_some_iff {items : List Item} {tx : EVMTransaction} :
    ofItems items = some tx ↔ items = tx.signingItems := by
  constructor
  · intro h
    unfold ofItems at h
    split at h
    · simp only [Option.bind_eq_bind, Option.bind_eq_some_iff, readUint_eq_some_iff] at h
      obtain ⟨chainId, ⟨hchain, rfl⟩, nonce, ⟨hnonce, rfl⟩, priority, ⟨hpriority, rfl⟩, fee,
        ⟨hfee, rfl⟩, gas, ⟨hgas, rfl⟩, to_, hto, value, ⟨hvalue, rfl⟩, input, hinput, accessList,
        haccessList, h⟩ := h
      split_ifs at h
      obtain rfl := Option.some.inj h
      have h128 {n : ℕ} (hn : n < 256 ^ 16) : (BitVec.ofNat 128 n).toNat = n := by
        rw [BitVec.toNat_ofNat]
        exact Nat.mod_eq_of_lt (hn.trans_eq (by norm_num))
      rw [(takesItems_recipient _ _).mp hto, (takesItems_str _ _).mp hinput,
        (takesItems_access.list _ _).mp haccessList, signingItems,
        UInt64.toNat_ofNat_of_lt' hchain, UInt64.toNat_ofNat_of_lt' hnonce, h128 hpriority,
        h128 hfee, h128 hgas, h128 hvalue]
    · cases h
  · rintro rfl
    have h64 (n : UInt64) : readUint 8 (.str (minimalBe n.toNat)) = some n.toNat :=
      readUint_eq_some_iff.mpr ⟨n.toNat_lt, rfl⟩
    have h128 (n : UInt128) : readUint 16 (.str (minimalBe n.toNat)) = some n.toNat :=
      readUint_eq_some_iff.mpr ⟨n.isLt, rfl⟩
    rw [signingItems, ofItems]
    simp only [h64, h128, (takesItems_recipient _ tx.to_).mpr rfl,
      (takesItems_str _ tx.input).mpr rfl, (takesItems_access.list _ tx.accessList).mpr rfl,
      Option.bind_eq_bind, Option.bind_some, UInt64.ofNat_toNat, BitVec.ofNat_toNat,
      BitVec.setWidth_eq, dif_pos tx.inMemory]

end EVMTransaction

/-! ## Signatures -/

namespace Signature

/-- The parity is 0 or 1, and `r` and `s` are integers of at most 32 bytes as they are written in
a list. -/
def OfNetwork (signature : Signature) : Prop :=
  signature.v ≤ 1 ∧ IsCanonical 32 signature.r ∧ IsCanonical 32 signature.s

/-- Two numbers of 32 bytes have room in memory. -/
theorem inMemory_of_isCanonical {r s : Bytes} (hr : IsCanonical 32 r) (hs : IsCanonical 32 s) :
    r.length + s.length < addressSpace := by
  have hr := hr.1
  have hs := hs.1
  unfold addressSpace
  omega

/-- The last three items of the signed form. -/
def ofItems : List Item → Option Signature
  | [v, r, s] => do
      let v ← readUint 8 v
      let r ← readWhere (IsCanonical 32) r
      let s ← readWhere (IsCanonical 32) s
      if v ≤ 1 then
        some ⟨.ofNat v, r.val, s.val, inMemory_of_isCanonical r.property s.property⟩
      else none
  | _ => none

/-- The three items are those of one signature of the network. -/
theorem ofItems_eq_some_iff {items : List Item} {signature : Signature} :
    ofItems items = some signature ↔ signature.OfNetwork ∧ items = signature.items := by
  constructor
  · intro h
    unfold ofItems at h
    split at h
    · simp only [Option.bind_eq_bind, Option.bind_eq_some_iff, readUint_eq_some_iff] at h
      obtain ⟨v, ⟨hv, rfl⟩, r, hr, s, hs, h⟩ := h
      split_ifs at h with hparity
      obtain rfl := Option.some.inj h
      have hval : (UInt64.ofNat v).toNat = v := UInt64.toNat_ofNat_of_lt' hv
      refine ⟨⟨?_, r.property, s.property⟩, ?_⟩
      · rw [UInt64.le_iff_toNat_le, hval]
        exact hparity
      · rw [(takesItems_where _ _ _).mp hr, (takesItems_where _ _ _).mp hs, items, hval]
    · cases h
  · rintro ⟨⟨hv, hr, hs⟩, rfl⟩
    have hparity : signature.v.toNat ≤ 1 := UInt64.le_iff_toNat_le.mp hv
    have hread : readUint 8 (.str (minimalBe signature.v.toNat)) = some signature.v.toNat :=
      readUint_eq_some_iff.mpr ⟨signature.v.toNat_lt, rfl⟩
    rw [items, ofItems]
    simp only [hread, (takesItems_where _ _ ⟨signature.r, hr⟩).mpr rfl,
      (takesItems_where _ _ ⟨signature.s, hs⟩).mpr rfl, Option.bind_eq_bind, Option.bind_some,
      UInt64.ofNat_toNat, if_pos hparity]

end Signature

/-! ## The two payloads -/

namespace EVMTransaction

/-- The items behind the type byte. -/
def readTyped : Bytes → Option (List Item)
  | [] => none
  | ty :: payload => if ty = EIP_1559_TYPE then (decodeStrict payload).bind fun
      | .list items => some items
      | .str _ => none
    else none

/-- Behind the type stands one list. -/
theorem readTyped_encode {items : List Item} (hitems : (Item.list items).encode.length < 2 ^ 64) :
    readTyped (EIP_1559_TYPE :: (Item.list items).encode) = some items := by
  rw [readTyped, if_pos rfl, decodeStrict_encode hitems]
  rfl

theorem eq_of_readTyped {b : Bytes} {items : List Item} (h : readTyped b = some items) :
    b = EIP_1559_TYPE :: (Item.list items).encode := by
  cases b with
  | nil => cases h
  | cons ty payload =>
    rw [readTyped] at h
    split_ifs at h with hty
    obtain ⟨t, ht, h⟩ := Option.bind_eq_some_iff.mp h
    cases t with
    | str b => cases h
    | list ts =>
      obtain rfl := Option.some.inj h
      rw [hty, encode_of_decodeStrict ht]

/-- The payload to sign. -/
def readForSigning (b : Bytes) : Option EVMTransaction := (readTyped b).bind ofItems

/-- The signed transaction. -/
def readSigned (b : Bytes) : Option (EVMTransaction × Signature) := do
  let items ← readTyped b
  let tx ← ofItems (items.take 9)
  let signature ← Signature.ofItems (items.drop 9)
  return (tx, signature)

/-- The payload is read as the transaction for which it was built, and no other bytes are. -/
theorem readForSigning_eq_some_iff {b : Bytes} {tx : EVMTransaction} :
    readForSigning b = some tx ↔ tx.buildForSigning = .ok b := by
  rw [readForSigning, Option.bind_eq_some_iff, buildForSigning_eq, Outcome.ok.injEq]
  constructor
  · rintro ⟨items, hitems, htx⟩
    rw [eq_of_readTyped hitems, ofItems_eq_some_iff.mp htx]
  · rintro rfl
    exact ⟨_, readTyped_encode tx.length_encode_signing_lt, ofItems_eq_some_iff.mpr rfl⟩

theorem readSigned_eq_some_iff {b : Bytes} {tx : EVMTransaction} {signature : Signature} :
    readSigned b = some (tx, signature) ↔
      signature.OfNetwork ∧ tx.buildWithSignature signature = .ok b := by
  rw [readSigned, buildWithSignature_eq, Outcome.ok.injEq]
  simp only [Option.bind_eq_bind, Option.bind_eq_some_iff, ofItems_eq_some_iff,
    Signature.ofItems_eq_some_iff]
  constructor
  · rintro ⟨items, hitems, tx', htx, signature', ⟨hnetwork, hsignature⟩, h⟩
    obtain ⟨rfl, rfl⟩ := Prod.mk.inj (Option.some.inj h)
    refine ⟨hnetwork, ?_⟩
    rw [eq_of_readTyped hitems, ← htx, ← hsignature, List.take_append_drop]
  · rintro ⟨hnetwork, rfl⟩
    have htake : (tx.signingItems ++ signature.items).take 9 = tx.signingItems :=
      List.take_left' rfl
    have hdrop : (tx.signingItems ++ signature.items).drop 9 = signature.items :=
      List.drop_left' rfl
    exact ⟨_, readTyped_encode (tx.length_encode_signed_lt signature), tx, htake, signature,
      ⟨hnetwork, hdrop⟩, rfl⟩

/-- The payload to sign is read as the transaction that it was built for and as no other, and
nothing else is read.  The signed bytes are read, as the transaction and the signature that they
were built for, exactly when the signature is one of the network. -/
theorem read_eq_some_iff (b : Bytes) :
    (∀ tx, readForSigning b = some tx ↔ tx.buildForSigning = .ok b) ∧
    (∀ tx signature, readSigned b = some (tx, signature) ↔
      signature.OfNetwork ∧ tx.buildWithSignature signature = .ok b) ∧
    ∀ (tx : EVMTransaction) (signature : Signature), tx.buildWithSignature signature = .ok b →
      ((readSigned b).isSome ↔ signature.OfNetwork) := by
  refine ⟨fun _ => readForSigning_eq_some_iff, fun _ _ => readSigned_eq_some_iff,
    fun tx signature hb => ?_⟩
  constructor
  · intro h
    obtain ⟨⟨tx', signature'⟩, hread⟩ := Option.isSome_iff_exists.mp h
    obtain ⟨hnetwork, hb'⟩ := readSigned_eq_some_iff.mp hread
    obtain ⟨-, rfl⟩ := eq_of_buildWithSignature_eq (hb.trans hb'.symm)
    exact hnetwork
  · intro hnetwork
    exact Option.isSome_iff_exists.mpr ⟨_, readSigned_eq_some_iff.mpr ⟨hnetwork, hb⟩⟩

/-- With `r` and `s` in their 32 bytes, small ones are refused. -/
theorem read_eq_some_iff_sampleCall :
    (∃ b, sampleCall.buildForSigning = .ok b ∧ readForSigning b = some sampleCall) ∧
    ∃ b, sampleCall.buildWithSignature (.ofIntegers 1 5 7) = .ok b ∧ readSigned b = none := by
  constructor
  · have hb := buildForSigning_eq sampleCall
    exact ⟨_, hb, ((read_eq_some_iff _).1 sampleCall).mpr hb⟩
  · have hb := buildWithSignature_eq sampleCall (.ofIntegers 1 5 7)
    have hsmall : ¬ (Signature.ofIntegers 1 5 7).OfNetwork := fun h => h.2.1.2 (by decide)
    refine ⟨_, hb, ?_⟩
    rw [← Option.not_isSome_iff_eq_none, (read_eq_some_iff _).2.2 _ _ hb]
    exact hsmall

end EVMTransaction

end Evm
