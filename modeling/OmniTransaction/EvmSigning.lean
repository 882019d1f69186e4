/-
# What an EVM signature covers

The payload to sign is `0x02` followed by the RLP list of the transaction's
items, and determines the transaction.  The signed transaction is the same list
with `v`, `r` and `s` appended, so taking these off again and wrapping the rest
gives back the payload that was signed.  The list is canonical exactly when
neither `r` nor `s` was handed over with a leading zero byte.
-/
import OmniTransaction.EvmTransaction

open ByteOrder Rust Rlp RlpStream

namespace Evm

namespace EVMTransaction

/-! ## Sizes -/

/-- A key takes its 32 bytes and one for the header. -/
theorem length_encodeAll_keyItems (keys : List (FixedBytes 32)) :
    (encodeAll (keyItems keys)).length = 33 * keys.length := by
  induction keys with
  | nil => rfl
  | cons key keys ih =>
      have hkey : (encodeStr key.toList).length = 33 := by
        rw [length_encodeStr_of_two_le (by rw [key.toList_length]; norm_num), key.toList_length]
        rfl
      rw [keyItems, List.map_cons, ← keyItems, encodeAll_cons, List.length_append, ih,
        Item.encode, hkey, List.length_cons]
      ring

/-- An entry takes its keys, the address and the headers. -/
theorem length_encode_accessItem_le (access : Address × List (FixedBytes 32))
    (h : 32 * access.2.length < addressSpace) :
    (accessItem access).encode.length ≤ 47 + 33 * access.2.length := by
  unfold addressSpace at h
  have haddress := Item.length_encode_str_le (b := access.1.toList)
    (by rw [List.Vector.toList_length]; norm_num)
  rw [List.Vector.toList_length] at haddress
  have hkeys := Item.length_encode_list_le (keyItems access.2)
    (by rw [length_encodeAll_keyItems]; omega)
  rw [length_encodeAll_keyItems] at hkeys
  have hentry : (encodeAll [.str access.1.toList, .list (keyItems access.2)]).length
      ≤ 38 + 33 * access.2.length := by
    rw [encodeAll_cons, encodeAll_cons, encodeAll_nil, List.append_nil, List.length_append]
    omega
  have hlist := Item.length_encode_list_le
    [.str access.1.toList, .list (keyItems access.2)] (by omega)
  rw [accessItem]
  omega

/-- An entry of an access list takes at most twice its heap bytes. -/
theorem length_encodeAll_accessItem_le (accessList : AccessList)
    (h : AccessList.heapSize accessList < addressSpace) :
    (encodeAll (accessList.map accessItem)).length ≤ 2 * AccessList.heapSize accessList := by
  induction accessList with
  | nil => simp
  | cons access accessList ih =>
      have hheap : AccessList.heapSize (access :: accessList)
          = 44 + 32 * access.2.length + AccessList.heapSize accessList := by
        simp [AccessList.heapSize]
      have hrest := ih (by omega)
      have haccess := length_encode_accessItem_le access (by omega)
      rw [List.map_cons, encodeAll_cons, List.length_append]
      omega

/-- A number takes its digits and a header. -/
theorem length_encode_minimalBe_le {k n : ℕ} (hk : k ≤ 16) (h : n < 256 ^ k) :
    (Item.str (minimalBe n)).encode.length ≤ k + 9 := by
  have hlen := length_minimalBe_le_iff.mpr h
  have := Item.length_encode_str_le (b := minimalBe n) (by omega)
  omega

/-- The headers of a transaction's lists can carry their lengths. -/
theorem length_encodeAll_signingItems_lt (tx : EVMTransaction) :
    (encodeAll tx.signingItems).length < 2 ^ 63 + 300 := by
  have hmem := tx.inMemory
  -- an integer takes at most the bytes of its type and a header
  have h64 (n : UInt64) : (Item.str (minimalBe n.toNat)).encode.length ≤ 17 :=
    length_encode_minimalBe_le (k := 8) (by norm_num) n.toNat_lt
  have h128 (n : UInt128) : (Item.str (minimalBe n.toNat)).encode.length ≤ 25 :=
    length_encode_minimalBe_le (k := 16) (by norm_num) n.isLt
  have hto : (tx.to_.elim [] fun address => address.toList).length ≤ 20 := by
    cases tx.to_ with
    | none => simp
    | some address => simp
  have hinput : tx.input.length < addressSpace := by omega
  have haccess := length_encodeAll_accessItem_le tx.accessList (by omega)
  unfold addressSpace at hmem hinput
  have hrecipient := Item.length_encode_str_le (lt_of_le_of_lt hto (by norm_num))
  have hdata := Item.length_encode_str_le (lt_trans hinput (by norm_num))
  have hlist := Item.length_encode_list_le _ (lt_of_le_of_lt haccess (by omega))
  have hchain := h64 tx.chainId
  have hnonce := h64 tx.nonce
  have hpriority := h128 tx.maxPriorityFeePerGas
  have hfee := h128 tx.maxFeePerGas
  have hgas := h128 tx.gasLimit
  have hvalue := h128 tx.value
  simp only [signingItems, encodeAll_cons, encodeAll_nil, List.append_nil,
    List.length_append]
  omega

/-! ## Items determine the values they are made of -/

theorem str_injective : Function.Injective Item.str := fun _ _ h => Item.str.inj h

theorem keyItems_injective : Function.Injective keyItems :=
  List.map_injective_iff.mpr (str_injective.comp (FixedBytes.toList_injective 32))

/-- The item of an entry tells the entry. -/
theorem accessItem_injective : Function.Injective accessItem := by
  intro a b h
  simp only [accessItem, Item.list.injEq, List.cons.injEq, Item.str.injEq, and_true] at h
  obtain ⟨haddress, hkeys⟩ := h
  exact Prod.ext (FixedBytes.toList_injective 20 haddress) (keyItems_injective hkeys)

/-- An absent recipient is no address: the empty string is too short. -/
theorem recipient_injective :
    Function.Injective fun to_ : Option Address => to_.elim [] fun address => address.toList := by
  intro a b h
  cases a with
  | none =>
      cases b with
      | none => rfl
      | some b => simpa using congrArg List.length h
  | some a =>
      cases b with
      | none => simpa using congrArg List.length h
      | some b => rw [FixedBytes.toList_injective 20 h]

/-- Transactions with the same items are equal. -/
theorem signingItems_injective : Function.Injective signingItems := by
  intro a b h
  simp only [signingItems, List.cons.injEq, Item.str.injEq, Item.list.injEq, and_true] at h
  obtain ⟨hchain, hnonce, hpriority, hfee, hgas, hto, hvalue, hinput, haccess⟩ := h
  have h64 {m n : UInt64} (h : minimalBe m.toNat = minimalBe n.toNat) : m = n :=
    UInt64.toNat_inj.mp (minimalBe_injective h)
  have h128 {m n : UInt128} (h : minimalBe m.toNat = minimalBe n.toNat) : m = n :=
    BitVec.eq_of_toNat_eq (minimalBe_injective h)
  apply EVMTransaction.ext
  · exact h64 hchain
  · exact h64 hnonce
  · exact recipient_injective hto
  · exact h128 hvalue
  · exact hinput
  · exact h128 hgas
  · exact h128 hfee
  · exact h128 hpriority
  · exact List.map_injective_iff.mpr accessItem_injective haccess

end EVMTransaction

/-- The three items tell the signature. -/
theorem Signature.items_injective : Function.Injective Signature.items := by
  intro a b h
  simp only [Signature.items, List.cons.injEq, Item.str.injEq, and_true] at h
  obtain ⟨hv, hr, hs⟩ := h
  exact Signature.ext (UInt64.toNat_inj.mp (minimalBe_injective hv)) hr hs

namespace EVMTransaction

/-! ## The two byte forms -/

/-- The type byte stands for itself. -/
theorem encodeAll_typed (t : Item) :
    encodeAll [.str [EIP_1559_TYPE], t] = EIP_1559_TYPE :: t.encode := by
  have htype : encodeStr [EIP_1559_TYPE] = [EIP_1559_TYPE] := by
    rw [encodeStr, if_pos (by decide)]
  rw [encodeAll_cons, encodeAll_cons, encodeAll_nil, List.append_nil, Item.encode, htype,
    List.singleton_append]

/-- The payload to sign is the type byte and the list of the signing items. -/
theorem buildForSigning_eq (tx : EVMTransaction) :
    tx.buildForSigning = .ok (EIP_1559_TYPE :: (Item.list tx.signingItems).encode) := by
  have h := ((writes_append [EIP_1559_TYPE]).seq (writes_encodeFields tx).list).run_out
  rw [List.singleton_append, encodeAll_typed] at h
  simp only [bind_assoc] at h
  exact h

/-- The signed transaction is the same list with the signature's items at its
end. -/
theorem buildWithSignature_eq (tx : EVMTransaction) (signature : Signature) :
    tx.buildWithSignature signature
      = .ok (EIP_1559_TYPE :: (Item.list (tx.signingItems ++ signature.items)).encode) := by
  have hsig := (writes_append (uintBytes 8 signature.v.toNat)).seq
    ((writes_append signature.r).seq (writes_append signature.s))
  rw [uintBytes_eq_minimalBe (k := 8) signature.v.toNat_lt] at hsig
  have h := ((writes_append [EIP_1559_TYPE]).seq
    ((writes_encodeFields tx).seq hsig).list).run_out
  rw [List.singleton_append, encodeAll_typed] at h
  simp only [bind_assoc, List.singleton_append] at h
  rw [buildWithSignature, uintBytes_eq_minimalBe (k := 8) signature.v.toNat_lt]
  exact h

/-- What is in memory has a length below `2 ^ 64`, with all headers. -/
theorem length_encode_signing_lt (tx : EVMTransaction) :
    (Item.list tx.signingItems).encode.length < 2 ^ 64 := by
  have hitems := length_encodeAll_signingItems_lt tx
  have := Item.length_encode_list_le tx.signingItems (by omega)
  omega

theorem length_encode_signed_lt (tx : EVMTransaction) (signature : Signature) :
    (Item.list (tx.signingItems ++ signature.items)).encode.length < 2 ^ 64 := by
  have hitems := length_encodeAll_signingItems_lt tx
  have hmem := signature.inMemory
  unfold addressSpace at hmem
  have hv := length_encode_minimalBe_le (k := 8) (by norm_num) signature.v.toNat_lt
  have hr := Item.length_encode_str_le (b := signature.r) (by omega)
  have hs := Item.length_encode_str_le (b := signature.s) (by omega)
  have hall : (encodeAll (tx.signingItems ++ signature.items)).length
      < 2 ^ 63 + 2 ^ 62 + 400 := by
    simp only [Signature.items, encodeAll_append, encodeAll_cons, encodeAll_nil, List.append_nil,
      List.length_append]
    omega
  have := Item.length_encode_list_le (tx.signingItems ++ signature.items) (by omega)
  omega

theorem signingItems_eq_of_encode_eq {a b : EVMTransaction}
    (h : (Item.list a.signingItems).encode = (Item.list b.signingItems).encode) :
    a.signingItems = b.signingItems := by
  have hlists := Item.encode_append_inj (s := []) (r := []) (length_encode_signing_lt a)
    (length_encode_signing_lt b) (by rw [h])
  exact Item.list.inj hlists.1

/-- The streaming builder refines the RLP tree: whatever the shape of the access
list, no list is left open and the output is the type byte and the encoding of
the tree; and the output determines the transaction. -/
theorem buildForSigning_refines_rlp :
    (∀ tx : EVMTransaction,
      tx.buildForSigning = .ok (EIP_1559_TYPE :: (Item.list tx.signingItems).encode)) ∧
    ∀ a b : EVMTransaction, a.buildForSigning = b.buildForSigning → a = b := by
  refine ⟨buildForSigning_eq, fun a b h => ?_⟩
  rw [buildForSigning_eq, buildForSigning_eq] at h
  have henc := (List.cons.inj (Outcome.ok.inj h)).2
  exact signingItems_injective (signingItems_eq_of_encode_eq henc)

/-! ## Taking the signature off again -/

/-- Split a signed transaction into the list without its last three items,
wrapped again behind the type byte, and these three items. -/
def splitSignature : Bytes → Option (Bytes × List Item)
  | [] => none
  | ty :: payload =>
      match decode payload with
      | some (.list items, []) =>
          some (ty :: (Item.list (items.take (items.length - 3))).encode,
            items.drop (items.length - 3))
      | _ => none

/-- The signed bytes split into the payload that was signed and the items of the
signature. -/
theorem splitSignature_signed (tx : EVMTransaction) (signature : Signature) :
    splitSignature
        (EIP_1559_TYPE :: (Item.list (tx.signingItems ++ signature.items)).encode)
      = some (EIP_1559_TYPE :: (Item.list tx.signingItems).encode, signature.items) := by
  have hdecode := decode_encode_append (length_encode_signed_lt tx signature) []
  rw [List.append_nil] at hdecode
  -- the signature adds three items to those that were signed
  have hcount : (tx.signingItems ++ signature.items).length - 3 = tx.signingItems.length := by
    rw [List.length_append]
    exact Nat.add_sub_cancel _ 3
  rw [splitSignature, hdecode]
  show some (EIP_1559_TYPE :: (Item.list (List.take _ _)).encode, List.drop _ _) = _
  rw [hcount, List.take_left, List.drop_left]

/-- Signed bytes determine the transaction and the signature. -/
theorem eq_of_buildWithSignature_eq {tx tx' : EVMTransaction} {signature signature' : Signature}
    (h : tx.buildWithSignature signature = tx'.buildWithSignature signature') :
    tx = tx' ∧ signature = signature' := by
  rw [buildWithSignature_eq, buildWithSignature_eq] at h
  have hsplit := splitSignature_signed tx signature
  rw [Outcome.ok.inj h, splitSignature_signed, Option.some.injEq, Prod.mk.injEq] at hsplit
  obtain ⟨hsigned, hitems⟩ := hsplit
  have henc := (List.cons.inj hsigned).2
  exact ⟨signingItems_injective (signingItems_eq_of_encode_eq henc.symm),
    Signature.items_injective hitems.symm⟩

/-- What is broadcast is what was signed: taking the last three items off the
signed transaction gives exactly the payload to sign, the items taken off are
`v`, `r` and `s`, and the broadcast bytes determine transaction and signature. -/
theorem buildWithSignature_extends_buildForSigning :
    (∀ (tx : EVMTransaction) (signature : Signature),
      ∃ signed unsigned, tx.buildWithSignature signature = .ok signed ∧
        tx.buildForSigning = .ok unsigned ∧
        splitSignature signed = some (unsigned,
          [.str (minimalBe signature.v.toNat), .str signature.r, .str signature.s])) ∧
    ∀ (tx tx' : EVMTransaction) (signature signature' : Signature),
      tx.buildWithSignature signature = tx'.buildWithSignature signature' →
        tx = tx' ∧ signature = signature' := by
  constructor
  · intro tx signature
    exact ⟨_, _, buildWithSignature_eq tx signature, buildForSigning_eq tx,
      splitSignature_signed tx signature⟩
  · intro tx tx' signature signature' h
    exact eq_of_buildWithSignature_eq h

/-! ## Canonical integers in the signature -/

end EVMTransaction

/-- The signature callers pass for integers `R` and `S`: their 32-byte big-endian
forms. -/
def Signature.ofIntegers (v : UInt64) (R S : ℕ) : Signature where
  v := v
  r := beBytes 32 R
  s := beBytes 32 S
  inMemory := by
    rw [length_beBytes, length_beBytes]
    decide

namespace EVMTransaction

/-- The canonical signed transaction, with `R` and `S` as RLP integers. -/
def canonical (tx : EVMTransaction) (v : UInt64) (R S : ℕ) : Bytes :=
  EIP_1559_TYPE :: (Item.list (tx.signingItems ++
    [.str (minimalBe v.toNat), .str (minimalBe R), .str (minimalBe S)])).encode

/-- The canonical form is what the builder makes of the minimal strings, so it
is reached exactly when the fixed-width strings are minimal. -/
theorem buildWithSignature_ofIntegers_eq_iff (tx : EVMTransaction) (v : UInt64) {R S : ℕ}
    (hR : R < 2 ^ 256) (hS : S < 2 ^ 256) :
    tx.buildWithSignature (.ofIntegers v R S) = .ok (tx.canonical v R S) ↔
      beBytes 32 R = minimalBe R ∧ beBytes 32 S = minimalBe S := by
  have hfits {n : ℕ} (hn : n < 2 ^ 256) : (minimalBe n).length ≤ 32 :=
    length_minimalBe_le_iff.mpr (by simpa using hn)
  have hminimal : (minimalBe R).length + (minimalBe S).length < addressSpace := by
    have := hfits hR
    have := hfits hS
    unfold addressSpace
    omega
  -- minimal strings are handed over as they are, so the builder reaches the canonical form
  have hcanonical : tx.buildWithSignature ⟨v, minimalBe R, minimalBe S, hminimal⟩
      = .ok (tx.canonical v R S) := buildWithSignature_eq tx _
  rw [← hcanonical]
  constructor
  · intro h
    have hsig := (eq_of_buildWithSignature_eq h).2
    exact ⟨congrArg Signature.r hsig, congrArg Signature.s hsig⟩
  · rintro ⟨hr, hs⟩
    exact congrArg tx.buildWithSignature (Signature.ext rfl hr hs)

/-- The signed transaction is canonical exactly when neither `R` nor `S` leaves
its first byte zero. -/
theorem buildWithSignature_canonical_iff (tx : EVMTransaction) (v : UInt64) (R S : ℕ)
    (hR : R < 2 ^ 256) (hS : S < 2 ^ 256) :
    tx.buildWithSignature (.ofIntegers v R S) = .ok (tx.canonical v R S) ↔
      2 ^ 248 ≤ R ∧ 2 ^ 248 ≤ S := by
  have hminimal {n : ℕ} (hn : n < 2 ^ 256) : beBytes 32 n = minimalBe n ↔ 2 ^ 248 ≤ n := by
    rw [beBytes_eq_minimalBe_iff (k := 31) (by simpa using hn)]
    norm_num
  rw [buildWithSignature_ofIntegers_eq_iff tx v hR hS, hminimal hR, hminimal hS]

/-- A call with an empty access list. -/
def sampleCall : EVMTransaction where
  chainId := 1
  nonce := 0x42
  to_ := some (List.Vector.replicate 20 0x60)
  value := 0
  input := [0xa2, 0x2c, 0xb4, 0x65]
  gasLimit := 44386
  maxFeePerGas := 0x4a817c800
  maxPriorityFeePerGas := 0x3b9aca00
  accessList := []
  inMemory := by decide

/-- Two integers of full and of almost full length. -/
theorem buildWithSignature_canonical_sampleCall :
    sampleCall.buildWithSignature (.ofIntegers 1 (2 ^ 255) (2 ^ 248))
      = .ok (sampleCall.canonical 1 (2 ^ 255) (2 ^ 248)) :=
  (buildWithSignature_canonical_iff sampleCall 1 (2 ^ 255) (2 ^ 248) (by norm_num)
    (by norm_num)).mpr ⟨by norm_num, le_refl _⟩

/-- The integer `2 ^ 247` is handed over with a leading zero byte, which the
signed transaction keeps. -/
theorem buildWithSignature_leading_zero :
    0 < 2 ^ 247 ∧ 2 ^ 247 < 2 ^ 256 ∧
      sampleCall.buildWithSignature (.ofIntegers 0 (2 ^ 247) (2 ^ 255))
        ≠ .ok (sampleCall.canonical 0 (2 ^ 247) (2 ^ 255)) := by
  refine ⟨by norm_num, by norm_num, ?_⟩
  rw [Ne, buildWithSignature_ofIntegers_eq_iff sampleCall 0 (by norm_num) (by norm_num),
    beBytes_eq_minimalBe_iff (k := 31) (by norm_num)]
  norm_num

end EVMTransaction

end Evm
