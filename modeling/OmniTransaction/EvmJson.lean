/-
# EVM transactions from JSON

`EVMTransaction::from_json` of `src/evm/evm_transaction.rs`.  It looks its fields up in
a `serde_json::Value`, so a field may be absent or of any type.  The six numbers are
read exactly, in decimal or in hexadecimal digits (`fromJson_of_numbers`).  The other
fields fall back on a default wherever the document says something that the code does
not look for, and are right only for some documents (`fromJson_faithful_iff`).

The package `hex` is a parameter.
-/
import OmniTransaction.EvmTransaction
import OmniTransaction.Hex
import OmniTransaction.Json
import OmniTransaction.Numerals

open ByteOrder Rust Serde

namespace Evm

variable (hex : Hex.Codec)

/-! ## The reader -/

/-- `parse_eth_address`. -/
def parseEthAddress (address : String) : Outcome DeError Address := do
  let address ← (hex.decode address).expect Hex.FromHexError.debug "address should be hex"
  match toArray 20 address with
  | some result => .ok result
  | none => .panic (assertEqMessage address.length 20 "address should be 20 bytes long")

/-- `parse_u64` and `parse_u128`, for the width of their type. -/
def parseUint (bits : ℕ) (value : String) : Outcome ParseIntError ℕ :=
  match stripPrefix value "0x" with
  | none => parseUnsigned bits value
  | some hexStr => fromStrRadix bits 16 hexStr

/-- `parse_u64`. -/
def parseU64 (value : String) : Outcome ParseIntError UInt64 := do
  let n ← parseUint 64 value
  return UInt64.ofNat n

/-- `parse_u128`. -/
def parseU128 (value : String) : Outcome ParseIntError UInt128 := do
  let n ← parseUint 128 value
  return BitVec.ofNat 128 n

namespace EVMTransaction

/-- The text of the zero address. -/
def zeroAddress : String := "0000000000000000000000000000000000000000"

/-- `from_json` from the `Value` on. -/
def ofValue (v : Json) : Outcome DeError EVMTransaction := do
  let recipient := (v.index "to").asStr.getD ""
  let toParsed ← parseEthAddress hex ((stripPrefix recipient "0x").getD zeroAddress)
  let nonceStr ← Outcome.expectSome "nonce should be provided" (v.index "nonce").asStr
  let nonce ← (parseU64 nonceStr).expect ParseIntError.debug "nonce should be a valid u64"
  let valueStr ← Outcome.expectSome "value should be provided" (v.index "value").asStr
  let value ← (parseU128 valueStr).expect ParseIntError.debug "value should be a valid u128"
  let gasLimitStr ← Outcome.expectSome "gasLimit should be provided" (v.index "gasLimit").asStr
  let gasLimit ← (parseU128 gasLimitStr).expect ParseIntError.debug
    "gasLimit should be a valid u128"
  let maxPriorityFeePerGasStr ← Outcome.expectSome "maxPriorityFeePerGas should be provided"
    (v.index "maxPriorityFeePerGas").asStr
  let maxPriorityFeePerGas ← (parseU128 maxPriorityFeePerGasStr).expect ParseIntError.debug
    "maxPriorityFeePerGas should be a valid u128"
  let maxFeePerGasStr ← Outcome.expectSome "maxFeePerGas should be provided"
    (v.index "maxFeePerGas").asStr
  let maxFeePerGas ← (parseU128 maxFeePerGasStr).expect ParseIntError.debug
    "maxFeePerGas should be a valid u128"
  let chainIdStr ← Outcome.expectSome "chainId should be provided" (v.index "chainId").asStr
  let chainId ← (parseU64 chainIdStr).expect ParseIntError.debug "chainId should be a valid u64"
  let inputStr := (v.index "input").asStr.getD ""
  let input ← (hex.decode ((stripPrefix inputStr "0x").getD "")).expect Hex.FromHexError.debug
    "input should be hex"
  -- the access list of the document is not looked at
  if h : input.length + AccessList.heapSize [] < addressSpace then
    return {
      chainId, nonce, to_ := some toParsed, value, input, gasLimit, maxFeePerGas,
      maxPriorityFeePerGas, accessList := [], inMemory := h }
  else .panic "capacity overflow"

/-- `from_json`. -/
def fromJson (parse : String → Option Json) (json : String) : Outcome DeError EVMTransaction := do
  let v ← fromStr parse readValue json
  ofValue hex v

end EVMTransaction

/-! ## What is read -/

/-- The texts that `parse_u64` and `parse_u128` understand, whatever the width. -/
def IsUint (value : String) (n : ℕ) : Prop :=
  match stripPrefix value "0x" with
  | none => IsSignedNumeral 10 value n
  | some hexStr => IsSignedNumeral 16 hexStr n

/-- The numbers of so many bits, in both spellings. -/
theorem parseUint_eq_ok_iff {bits n : ℕ} {value : String} :
    parseUint bits value = .ok n ↔ IsUint value n ∧ n < 2 ^ bits := by
  unfold parseUint IsUint
  split
  · exact parseUnsigned_eq_ok_iff
  · exact fromStrRadix_eq_ok_iff (by norm_num)

/-- `parse_u64` reads the numbers of 64 bits. -/
theorem parseU64_eq_ok_iff {value : String} {n : UInt64} :
    parseU64 value = .ok n ↔ IsUint value n.toNat := by
  unfold parseU64
  rw [Outcome.bind_eq_ok_iff]
  constructor
  · rintro ⟨m, hm, h⟩
    obtain ⟨hvalue, hlt⟩ := parseUint_eq_ok_iff.mp hm
    obtain rfl := Outcome.ok.inj h
    rwa [UInt64.toNat_ofNat_of_lt' hlt]
  · intro h
    refine ⟨n.toNat, parseUint_eq_ok_iff.mpr ⟨h, n.toNat_lt⟩, ?_⟩
    exact congrArg Outcome.ok UInt64.ofNat_toNat

/-- `parse_u128` reads the numbers of 128 bits. -/
theorem parseU128_eq_ok_iff {value : String} {n : UInt128} :
    parseU128 value = .ok n ↔ IsUint value n.toNat := by
  unfold parseU128
  rw [Outcome.bind_eq_ok_iff]
  constructor
  · rintro ⟨m, hm, h⟩
    obtain ⟨hvalue, hlt⟩ := parseUint_eq_ok_iff.mp hm
    obtain rfl := Outcome.ok.inj h
    rwa [BitVec.toNat_ofNat, Nat.mod_eq_of_lt hlt]
  · intro h
    refine ⟨n.toNat, parseUint_eq_ok_iff.mpr ⟨h, n.isLt⟩, ?_⟩
    rw [BitVec.ofNat_toNat, BitVec.setWidth_eq]
    rfl

/-- An address is read from the digits of 20 bytes. -/
theorem parseEthAddress_eq_ok_iff {address : String} {result : Address} :
    parseEthAddress hex address = .ok result ↔ hex.decode address = .ok result.toList := by
  unfold parseEthAddress
  rw [Outcome.bind_eq_ok_iff]
  constructor
  · rintro ⟨b, hb, h⟩
    split at h
    · rename_i a ha
      obtain rfl := Outcome.ok.inj h
      rw [(toArray_eq_some_iff b a).mp ha]
      exact Outcome.expect_eq_ok_iff.mp hb
    · cases h
  · intro h
    refine ⟨result.toList, Outcome.expect_eq_ok_iff.mpr h, ?_⟩
    rw [toArray_toList]

namespace EVMTransaction

/-- The document has the number as a text under the key. -/
def HasUint (v : Json) (key : String) (n : ℕ) : Prop := ∃ s, v.index key = .str s ∧ IsUint s n

/-- What the fields of the document must be for the transaction to be read. -/
structure ReadFrom (v : Json) (tx : EVMTransaction) : Prop where
  to_ : ∃ address, tx.to_ = some address ∧
    hex.decode ((stripPrefix ((v.index "to").asStr.getD "") "0x").getD zeroAddress)
      = .ok address.toList
  nonce : HasUint v "nonce" tx.nonce.toNat
  value : HasUint v "value" tx.value.toNat
  gasLimit : HasUint v "gasLimit" tx.gasLimit.toNat
  maxPriorityFeePerGas : HasUint v "maxPriorityFeePerGas" tx.maxPriorityFeePerGas.toNat
  maxFeePerGas : HasUint v "maxFeePerGas" tx.maxFeePerGas.toNat
  chainId : HasUint v "chainId" tx.chainId.toNat
  input : hex.decode ((stripPrefix ((v.index "input").asStr.getD "") "0x").getD "")
    = .ok tx.input
  accessList : tx.accessList = []

/-- A transaction is read when each of its fields is. -/
theorem ofValue_eq_ok_iff {v : Json} {tx : EVMTransaction} :
    ofValue hex v = .ok tx ↔ ReadFrom hex v tx := by
  unfold ofValue
  simp only [Outcome.bind_eq_ok_iff, Outcome.expectSome_eq_ok_iff, Outcome.expect_eq_ok_iff,
    parseEthAddress_eq_ok_iff, parseU64_eq_ok_iff, parseU128_eq_ok_iff, Json.asStr_eq_some_iff]
  constructor
  · rintro ⟨address, hto, s₁, h₁, nonce, hnonce, s₂, h₂, value, hvalue, s₃, h₃, gasLimit,
      hgasLimit, s₄, h₄, maxPriorityFeePerGas, hpriority, s₅, h₅, maxFeePerGas, hmax, s₆, h₆,
      chainId, hchainId, input, hinput, h⟩
    split_ifs at h
    obtain rfl := Outcome.ok.inj h
    exact ⟨⟨address, rfl, hto⟩, ⟨s₁, h₁, hnonce⟩, ⟨s₂, h₂, hvalue⟩, ⟨s₃, h₃, hgasLimit⟩,
      ⟨s₄, h₄, hpriority⟩, ⟨s₅, h₅, hmax⟩, ⟨s₆, h₆, hchainId⟩, hinput, rfl⟩
  · rintro ⟨⟨address, haddress, hto⟩, ⟨s₁, h₁, hnonce⟩, ⟨s₂, h₂, hvalue⟩, ⟨s₃, h₃, hgasLimit⟩,
      ⟨s₄, h₄, hpriority⟩, ⟨s₅, h₅, hmax⟩, ⟨s₆, h₆, hchainId⟩, hinput, haccessList⟩
    refine ⟨address, hto, s₁, h₁, _, hnonce, s₂, h₂, _, hvalue, s₃, h₃, _, hgasLimit, s₄, h₄, _,
      hpriority, s₅, h₅, _, hmax, s₆, h₆, _, hchainId, _, hinput, ?_⟩
    have hmemory : tx.input.length + AccessList.heapSize [] < addressSpace :=
      haccessList ▸ tx.inMemory
    rw [dif_pos hmemory]
    exact congrArg Outcome.ok
      (EVMTransaction.ext rfl rfl haddress.symm rfl rfl rfl rfl rfl haccessList.symm)

/-- A text is read when its document is and is not too deep. -/
theorem fromJson_eq_ok_iff {parse : String → Option Json} {text : String} {v : Json}
    {tx : EVMTransaction} (hparse : parse text = some v) :
    fromJson hex parse text = .ok tx ↔ v.depth ≤ recursionLimit ∧ ReadFrom hex v tx := by
  have hread : fromStr parse readValue text = readValue recursionLimit v := by
    rw [fromStr, hparse]
  rw [fromJson, hread, readValue, ← ofValue_eq_ok_iff]
  by_cases hdepth : v.depth ≤ recursionLimit
  · rw [if_pos hdepth, Outcome.ok_bind, and_iff_right hdepth]
  · rw [if_neg hdepth, Outcome.err_bind]
    exact iff_of_false (by simp) fun h => hdepth h.1

/-! ## Numbers -/

/-- The spellings of a number: a text in decimal digits, or in hexadecimal digits behind
`0x`. -/
inductive SpellsUint (n : ℕ) : Json → Prop where
  | decimal {s : String} (h : IsDecimal s n) : SpellsUint n (.str s)
  | hexadecimal {s : String} (h : IsNumeral 16 s n) : SpellsUint n (.str ("0x" ++ s))

/-- The spelling of bytes: a text in hexadecimal digits behind `0x`. -/
inductive SpellsHex (b : Bytes) : Json → Prop where
  | intro {s : String} (h : hex.decode s = .ok b) : SpellsHex b (.str ("0x" ++ s))

/-- The spellings of a transaction with a recipient and without an access list: each
number in a spelling of its own, in any order of the keys. -/
inductive Spells (tx : EVMTransaction) : Json → Prop where
  | intro {address : Address} {recipient nonce value input gasLimit maxFeePerGas
        maxPriorityFeePerGas chainId : Json} {entries : List (String × Json)}
      (haddress : tx.to_ = some address) (haccessList : tx.accessList = [])
      (hrecipient : SpellsHex hex address.toList recipient)
      (hnonce : SpellsUint tx.nonce.toNat nonce)
      (hvalue : SpellsUint tx.value.toNat value)
      (hinput : SpellsHex hex tx.input input)
      (hgasLimit : SpellsUint tx.gasLimit.toNat gasLimit)
      (hmaxFeePerGas : SpellsUint tx.maxFeePerGas.toNat maxFeePerGas)
      (hmaxPriorityFeePerGas : SpellsUint tx.maxPriorityFeePerGas.toNat maxPriorityFeePerGas)
      (hchainId : SpellsUint tx.chainId.toNat chainId)
      (hentries : entries.Perm [("to", recipient), ("nonce", nonce), ("input", input),
        ("value", value), ("maxPriorityFeePerGas", maxPriorityFeePerGas),
        ("maxFeePerGas", maxFeePerGas), ("gasLimit", gasLimit), ("chainId", chainId)]) :
      Spells tx (.obj entries)

/-- The numbers of a transaction with the bits of their types. -/
def uintFields : List (String × ℕ) :=
  [("nonce", 64), ("value", 128), ("gasLimit", 128), ("maxFeePerGas", 128),
    ("maxPriorityFeePerGas", 128), ("chainId", 64)]

/-- A spelling of a number has no other value. -/
theorem SpellsUint.eq_of_isUint {n m : ℕ} {s : String} (h : SpellsUint n (.str s))
    (h' : IsUint s m) : m = n := by
  unfold IsUint at h'
  cases h with
  | decimal h =>
      rw [h.stripPrefix_eq_none] at h'
      exact h'.eq_of_isNumeral (isDecimal_iff_isNumeral.mp h)
  | hexadecimal h =>
      rw [stripPrefix_append] at h'
      exact h'.eq_of_isNumeral h

variable {hex} {v : Json} {tx : EVMTransaction}

/-- Each spelling of a number is read. -/
theorem SpellsUint.hasUint {n : ℕ} {key : String} (h : SpellsUint n (v.index key)) :
    HasUint v key n := by
  generalize hvalue : v.index key = value at h
  cases h with
  | @decimal s h =>
      refine ⟨s, hvalue, ?_⟩
      unfold IsUint
      rw [h.stripPrefix_eq_none]
      exact .inl (isDecimal_iff_isNumeral.mp h)
  | @hexadecimal s h =>
      refine ⟨"0x" ++ s, hvalue, ?_⟩
      unfold IsUint
      rw [stripPrefix_append]
      exact .inl h

theorem SpellsUint.depth_eq {n : ℕ} (h : SpellsUint n v) : v.depth = 0 := by
  cases h with
  | decimal h => rfl
  | hexadecimal h => rfl

theorem SpellsHex.depth_eq {b : Bytes} (h : SpellsHex hex b v) : v.depth = 0 := by
  cases h with
  | intro h => rfl

/-- A text with the prefix is decoded without it. -/
theorem SpellsHex.decode_eq {b : Bytes} (h : SpellsHex hex b v) (default : String) :
    hex.decode ((stripPrefix (v.asStr.getD "") "0x").getD default) = .ok b := by
  cases h with
  | intro h =>
      rw [Json.asStr, Option.getD_some, stripPrefix_append, Option.getD_some]
      exact h

theorem Spells.depth_le (h : tx.Spells hex v) : v.depth ≤ 1 := by
  cases h with
  | intro haddress haccessList hrecipient hnonce hvalue hinput hgasLimit hmaxFeePerGas
      hmaxPriorityFeePerGas hchainId hentries =>
      rw [Json.depth_obj_le_iff]
      refine ⟨Nat.one_pos, fun e he => Nat.lt_one_iff.mpr ?_⟩
      have hmem := hentries.mem_iff.mp he
      simp only [List.mem_cons, List.not_mem_nil, or_false] at hmem
      rcases hmem with rfl | rfl | rfl | rfl | rfl | rfl | rfl | rfl
      · exact hrecipient.depth_eq
      · exact hnonce.depth_eq
      · exact hinput.depth_eq
      · exact hvalue.depth_eq
      · exact hmaxPriorityFeePerGas.depth_eq
      · exact hmaxFeePerGas.depth_eq
      · exact hgasLimit.depth_eq
      · exact hchainId.depth_eq

/-- The fields of a spelling are those of the transaction. -/
theorem Spells.readFrom (h : tx.Spells hex v) : ReadFrom hex v tx := by
  cases h with
  | @intro address recipient nonce value input gasLimit maxFeePerGas maxPriorityFeePerGas chainId
      entries haddress haccessList hrecipient hnonce hvalue hinput hgasLimit hmaxFeePerGas
      hmaxPriorityFeePerGas hchainId hentries =>
      have hkeys : (entries.map Prod.fst).Nodup := by
        rw [(hentries.map Prod.fst).nodup_iff]
        simp only [List.map_cons, List.map_nil]
        decide
      have hindex (key : String) (value : Json) (hmem : (key, value) ∈ _) :
          Json.index key (.obj entries) = value :=
        Json.index_of_mem hkeys (hentries.mem_iff.mpr hmem)
      have hto := hindex "to" recipient (by simp)
      have hin := hindex "input" input (by simp)
      refine ⟨⟨address, haddress, ?_⟩, SpellsUint.hasUint ?_, SpellsUint.hasUint ?_,
        SpellsUint.hasUint ?_, SpellsUint.hasUint ?_, SpellsUint.hasUint ?_,
        SpellsUint.hasUint ?_, ?_, haccessList⟩
      · rw [hto]
        exact hrecipient.decode_eq zeroAddress
      · rwa [hindex "nonce" nonce (by simp)]
      · rwa [hindex "value" value (by simp)]
      · rwa [hindex "gasLimit" gasLimit (by simp)]
      · rwa [hindex "maxPriorityFeePerGas" maxPriorityFeePerGas (by simp)]
      · rwa [hindex "maxFeePerGas" maxFeePerGas (by simp)]
      · rwa [hindex "chainId" chainId (by simp)]
      · rw [hin]
        exact hinput.decode_eq ""

/-- A number that is read fits its field. -/
theorem ReadFrom.lt_of_spellsUint {key : String} {bits n : ℕ} (h : ReadFrom hex v tx)
    (hkey : (key, bits) ∈ uintFields) (hspells : SpellsUint n (v.index key)) : n < 2 ^ bits := by
  have hvalue : ∃ m, HasUint v key m ∧ m < 2 ^ bits := by
    simp only [uintFields, List.mem_cons, List.not_mem_nil, or_false, Prod.mk.injEq] at hkey
    rcases hkey with ⟨rfl, rfl⟩ | ⟨rfl, rfl⟩ | ⟨rfl, rfl⟩ | ⟨rfl, rfl⟩ | ⟨rfl, rfl⟩ | ⟨rfl, rfl⟩
    · exact ⟨_, h.nonce, tx.nonce.toNat_lt⟩
    · exact ⟨_, h.value, tx.value.isLt⟩
    · exact ⟨_, h.gasLimit, tx.gasLimit.isLt⟩
    · exact ⟨_, h.maxFeePerGas, tx.maxFeePerGas.isLt⟩
    · exact ⟨_, h.maxPriorityFeePerGas, tx.maxPriorityFeePerGas.isLt⟩
    · exact ⟨_, h.chainId, tx.chainId.toNat_lt⟩
  obtain ⟨m, ⟨s, hs, hm⟩, hlt⟩ := hvalue
  rw [hs] at hspells
  rwa [hspells.eq_of_isUint hm] at hlt

/-- Every spelling of a transaction is read as this transaction, and no document with a
number that its field cannot hold is read as any. -/
theorem fromJson_of_numbers (hex : Hex.Codec) (parse : String → Option Json) (text : String)
    (v : Json) (hparse : parse text = some v) :
    (∀ tx : EVMTransaction, tx.Spells hex v → fromJson hex parse text = .ok tx) ∧
    ∀ key bits n, (key, bits) ∈ uintFields → SpellsUint n (v.index key) → 2 ^ bits ≤ n →
      ∀ tx, fromJson hex parse text ≠ .ok tx := by
  constructor
  · intro tx hspells
    have hdepth : v.depth ≤ recursionLimit := hspells.depth_le.trans (by decide)
    exact (fromJson_eq_ok_iff hex hparse).mpr ⟨hdepth, hspells.readFrom⟩
  · intro key bits n hkey hspells hn tx h
    have hlt := ((fromJson_eq_ok_iff hex hparse).mp h).2.lt_of_spellsUint hkey hspells
    exact absurd hlt hn.not_gt

/-- Decimal and hexadecimal numbers side by side. -/
def sampleDocument : Json :=
  .obj [("to", .str ("0x" ++ Hex.Codec.lowercase.encode (List.replicate 20 0x52))),
    ("nonce", .str "01"), ("input", .str ("0x" ++ Hex.Codec.lowercase.encode [0x6a, 0x62])),
    ("value", .str ("0x" ++ "038d7Ea4C68000")), ("maxPriorityFeePerGas", .str ("0x" ++ "1")),
    ("maxFeePerGas", .str ("0x" ++ "1")), ("gasLimit", .str "21000"),
    ("chainId", .str "11155111")]

/-- The transaction that the document spells. -/
def sampleTransaction : EVMTransaction where
  chainId := 11155111
  nonce := 1
  to_ := some (.replicate 20 0x52)
  value := 0x038d7ea4c68000
  input := [0x6a, 0x62]
  gasLimit := 21000
  maxFeePerGas := 1
  maxPriorityFeePerGas := 1
  accessList := []
  inMemory := by decide

/-- The document of the samples spells the transaction. -/
theorem spells_sampleDocument : sampleTransaction.Spells .lowercase sampleDocument := by
  have hnonce : IsDecimal "01" 1 := isDecimal_iff_isNumeral.mpr ⟨by decide, by decide⟩
  have hvalue : IsNumeral 16 "038d7Ea4C68000" 0x038d7ea4c68000 := ⟨by decide, by decide⟩
  have hfee : IsNumeral 16 "1" 1 := ⟨by decide, by decide⟩
  have hgasLimit : IsDecimal "21000" 21000 := isDecimal_toString 21000
  have hchainId : IsDecimal "11155111" 11155111 := isDecimal_toString 11155111
  exact .intro rfl rfl (.intro (Hex.Codec.lowercase.decode_encode _)) (.decimal hnonce)
    (.hexadecimal hvalue) (.intro (Hex.Codec.lowercase.decode_encode _)) (.decimal hgasLimit)
    (.hexadecimal hfee) (.hexadecimal hfee) (.decimal hchainId) (.refl _)

/-- A nonce that is too large by one. -/
def overflowingDocument : Json := .obj [("nonce", .str ("0x" ++ "10000000000000000"))]

theorem fromJson_sampleNumbers :
    fromJson .lowercase (parserOf sampleDocument) sampleDocument.compact
        = .ok sampleTransaction ∧
      ∀ tx, fromJson .lowercase (parserOf overflowingDocument) overflowingDocument.compact
        ≠ .ok tx := by
  have hspells : SpellsUint (2 ^ 64) (overflowingDocument.index "nonce") :=
    .hexadecimal ⟨by decide, by decide⟩
  exact ⟨(fromJson_of_numbers .lowercase _ _ _ (parserOf_compact sampleDocument)).1 _
      spells_sampleDocument,
    (fromJson_of_numbers .lowercase _ _ _ (parserOf_compact overflowingDocument)).2 "nonce" 64 _
      (by decide) hspells le_rfl⟩

/-! ## Fields with a default -/

section Faithful

variable (hex) (entry : Json → Address × List (FixedBytes 32) → Prop)

/-- The bytes that a text denotes in hexadecimal digits, with `0x` or without. -/
def Denotes (s : String) (b : Bytes) : Prop := hex.decode ((stripPrefix s "0x").getD s) = .ok b

/-- What a field says about the recipient.  An absent field is `null` here. -/
def RecipientIn (to_ : Option Address) : Json → Prop
  | .str s => ∃ address, to_ = some address ∧ Denotes hex s address.toList
  | .null => to_ = none
  | _ => False

/-- What a field says about the call data. -/
def InputIn (input : Bytes) : Json → Prop
  | .str s => Denotes hex s input
  | .null => input = []
  | _ => False

/-- What a field says about the access list.  How an entry is written is left open. -/
def AccessListIn (accessList : AccessList) : Json → Prop
  | .arr items => List.Forall₂ entry items accessList
  | .null => accessList = []
  | _ => False

/-- The transaction has what the document says. -/
structure Faithful (v : Json) (tx : EVMTransaction) : Prop where
  to_ : RecipientIn hex tx.to_ (v.index "to")
  input : InputIn hex tx.input (v.index "input")
  accessList : AccessListIn entry tx.accessList (v.index "accessList")

/-- The documents whose fields have the form that the code looks for, or whose value is the
default by chance. -/
structure Expected (v : Json) : Prop where
  to_ : ∃ s, v.index "to" = .str s ∧
    (startsWith s "0x" ∨ hex.decode s = hex.decode zeroAddress)
  input : v.index "input" = .null ∨ ∃ s, v.index "input" = .str s ∧
    (startsWith s "0x" ∨ hex.decode s = .ok [])
  accessList : v.index "accessList" = .null ∨ v.index "accessList" = .arr []

variable {hex}

/-- A text with the prefix is decoded as it says; in the place of another text stands the
default. -/
theorem denotes_iff {s default : String} {b : Bytes}
    (h : hex.decode ((stripPrefix s "0x").getD default) = .ok b) :
    Denotes hex s b ↔ startsWith s "0x" ∨ hex.decode s = hex.decode default := by
  unfold Denotes
  rcases hstripped : stripPrefix s "0x" with _ | t
  · have hstart : startsWith s "0x" = false := stripPrefix_eq_none_iff.mp hstripped
    rw [hstripped, Option.getD_none] at h
    rw [Option.getD_none, h, hstart]
    simp
  · have hstart : startsWith s "0x" = true := by
      by_contra hstart
      rw [stripPrefix_eq_none_iff.mpr (Bool.eq_false_iff.mpr hstart)] at hstripped
      cases hstripped
    rw [hstripped, Option.getD_some] at h
    rw [Option.getD_some]
    exact iff_of_true h (.inl hstart)

/-- The recipient is the one in the document, unless the zero address stands in for it. -/
theorem ReadFrom.recipientIn_iff (h : ReadFrom hex v tx) :
    RecipientIn hex tx.to_ (v.index "to") ↔ ∃ s, v.index "to" = .str s ∧
      (startsWith s "0x" ∨ hex.decode s = hex.decode zeroAddress) := by
  obtain ⟨address, haddress, hdecode⟩ := h.to_
  rw [haddress]
  generalize v.index "to" = field at hdecode ⊢
  cases field with
  | str s =>
      have hdenotes : Denotes hex s address.toList ↔ _ := denotes_iff hdecode
      simp [RecipientIn, hdenotes]
  | _ => simp [RecipientIn]

/-- The call data are those in the document, unless they were replaced by none. -/
theorem ReadFrom.inputIn_iff (h : ReadFrom hex v tx) :
    InputIn hex tx.input (v.index "input") ↔ v.index "input" = .null ∨
      ∃ s, v.index "input" = .str s ∧ (startsWith s "0x" ∨ hex.decode s = .ok []) := by
  have hdecode := h.input
  generalize v.index "input" = field at hdecode ⊢
  cases field with
  | str s =>
      have hdenotes : Denotes hex s tx.input ↔ _ := denotes_iff hdecode
      rw [hex.decode_empty] at hdenotes
      simp [InputIn, hdenotes]
  | null =>
      have hnil : Outcome.ok [] = Outcome.ok tx.input := hex.decode_empty.symm.trans hdecode
      simpa [InputIn] using hnil.symm
  | _ => simp [InputIn]

/-- The access list is always empty. -/
theorem ReadFrom.accessListIn_iff (h : ReadFrom hex v tx) :
    AccessListIn entry tx.accessList (v.index "accessList") ↔
      v.index "accessList" = .null ∨ v.index "accessList" = .arr [] := by
  rw [h.accessList]
  cases v.index "accessList" with
  | arr items => simp [AccessListIn]
  | _ => simp [AccessListIn]

/-- A transaction that is read has what its document says exactly when the document says it
in the expected form. -/
theorem fromJson_faithful_iff (hex : Hex.Codec) (parse : String → Option Json)
    (entry : Json → Address × List (FixedBytes 32) → Prop) (text : String) (v : Json)
    (tx : EVMTransaction) (hparse : parse text = some v)
    (hread : fromJson hex parse text = .ok tx) :
    Faithful hex entry v tx ↔ Expected hex v := by
  have h := ((fromJson_eq_ok_iff hex hparse).mp hread).2
  constructor
  · rintro ⟨hto, hinput, haccessList⟩
    exact ⟨h.recipientIn_iff.mp hto, h.inputIn_iff.mp hinput,
      (h.accessListIn_iff entry).mp haccessList⟩
  · rintro ⟨hto, hinput, haccessList⟩
    exact ⟨h.recipientIn_iff.mpr hto, h.inputIn_iff.mpr hinput,
      (h.accessListIn_iff entry).mpr haccessList⟩

end Faithful

/-- An entry of an access list in the form of the derived `Serialize`. -/
def derivedEntry (item : Json) (access : Address × List (FixedBytes 32)) : Prop :=
  item = .arr [writeBytes access.1.toList, .arr (access.2.map fun key => writeBytes key.toList)]

/-- The recipient stands without `0x`. -/
def unprefixedDocument : Json :=
  .obj [("to", .str (Hex.Codec.lowercase.encode (List.replicate 20 0x52))),
    ("nonce", .str "1"), ("value", .str "1"), ("maxPriorityFeePerGas", .str "1"),
    ("maxFeePerGas", .str "1"), ("gasLimit", .str "21000"), ("chainId", .str "1")]

/-- What is read from it: the value goes to the zero address. -/
def unprefixedTransaction : EVMTransaction where
  chainId := 1
  nonce := 1
  to_ := some (.replicate 20 0)
  value := 1
  input := []
  gasLimit := 21000
  maxFeePerGas := 1
  maxPriorityFeePerGas := 1
  accessList := []
  inMemory := by decide

theorem fromJson_unprefixedDocument :
    fromJson .lowercase (parserOf unprefixedDocument) unprefixedDocument.compact =
      .ok unprefixedTransaction := by
  have hone (key : String) (h : unprefixedDocument.index key = .str "1") :
      HasUint unprefixedDocument key 1 :=
    ⟨"1", h, .inl ⟨by decide, by decide⟩⟩
  have hread : ReadFrom .lowercase unprefixedDocument unprefixedTransaction :=
    { to_ := ⟨.replicate 20 0, rfl, by decide⟩
      nonce := hone "nonce" rfl
      value := hone "value" rfl
      gasLimit := ⟨"21000", rfl, .inl ⟨by decide, by decide⟩⟩
      maxPriorityFeePerGas := hone "maxPriorityFeePerGas" rfl
      maxFeePerGas := hone "maxFeePerGas" rfl
      chainId := hone "chainId" rfl
      input := by decide
      accessList := rfl }
  exact (fromJson_eq_ok_iff .lowercase (parserOf_compact unprefixedDocument)).mpr
    ⟨by decide, hread⟩

/-- With the prefix the recipient is read as it stands, without it is not. -/
theorem faithful_sampleDocument_not_unprefixed :
    Faithful .lowercase derivedEntry sampleDocument sampleTransaction ∧
      ¬ Faithful .lowercase derivedEntry unprefixedDocument unprefixedTransaction := by
  have hdepth : sampleDocument.depth ≤ recursionLimit := by decide
  have hread : fromJson .lowercase (parserOf sampleDocument) sampleDocument.compact =
      .ok sampleTransaction :=
    (fromJson_eq_ok_iff .lowercase (parserOf_compact sampleDocument)).mpr
      ⟨hdepth, spells_sampleDocument.readFrom⟩
  constructor
  · apply (fromJson_faithful_iff .lowercase _ derivedEntry _ _ _
      (parserOf_compact sampleDocument) hread).mpr
    exact ⟨⟨_, rfl, .inl (by decide)⟩, .inr ⟨_, rfl, .inl (by decide)⟩, .inl rfl⟩
  · intro h
    obtain ⟨⟨s, hs, hto⟩, -, -⟩ := (fromJson_faithful_iff .lowercase _ derivedEntry _ _ _
      (parserOf_compact unprefixedDocument) fromJson_unprefixedDocument).mp h
    obtain rfl := Json.str.inj hs
    rcases hto with hstart | hzero
    · exact absurd hstart (by decide)
    · have hdefault : Hex.Codec.lowercase.decode zeroAddress = .ok (List.replicate 20 0) := by
        decide
      rw [Hex.Codec.lowercase.decode_encode, hdefault] at hzero
      exact absurd (Outcome.ok.inj hzero) (by decide)

/-- The value goes to the zero address. -/
theorem not_faithful_unprefixedDocument :
    ∃ tx, fromJson .lowercase (parserOf unprefixedDocument) unprefixedDocument.compact = .ok tx ∧
      tx.to_ = some (.replicate 20 0) ∧
      ¬ Faithful .lowercase derivedEntry unprefixedDocument tx := by
  refine ⟨unprefixedTransaction, fromJson_unprefixedDocument, rfl, ?_⟩
  rintro ⟨⟨address, haddress, hdenotes⟩, -, -⟩
  obtain rfl := Option.some.inj haddress
  have hdecode : Denotes .lowercase (Hex.Codec.lowercase.encode (List.replicate 20 0x52))
      (List.replicate 20 0x52) := by
    unfold Denotes
    rw [stripPrefix_eq_none_iff.mpr (by decide)]
    exact Hex.Codec.lowercase.decode_encode _
  exact absurd (Outcome.ok.inj (hdecode.symm.trans hdenotes)) (by decide)

end EVMTransaction

end Evm
