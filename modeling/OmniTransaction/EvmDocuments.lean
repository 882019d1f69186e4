/-
# The two document forms of an EVM transaction

What comes of every text that `EVMTransaction::from_json` may be given: an error for a text
that is no document, a transaction when all its checks succeed, and otherwise a panic with
the message of the first check that fails (`fromJson_requires`).

`EVMTransaction` and `Signature` also derive `Serialize` and `Deserialize`.  The derived
reader gives back every value that was written, and shares no document with `from_json`
(`fromDocument_toJson`).
-/
import OmniTransaction.EvmJson
import OmniTransaction.Requires

open ByteOrder Rust Serde Requirements

namespace Evm

/-! ## The checks of `from_json` -/

/-- The text is a number of the type with that many bits. -/
def uintFits (bits : ℕ) (value : String) : Bool := (parseUint bits value).isOk

/-- The check is that the text is a number of so many bits. -/
theorem uintFits_iff {bits : ℕ} {value : String} :
    uintFits bits value = true ↔ ∃ n, IsUint value n ∧ n < 2 ^ bits := by
  rw [uintFits, Outcome.isOk_iff]
  exact exists_congr fun n => parseUint_eq_ok_iff

/-- A text that is no number is an error. -/
theorem parseUint_ne_panic (bits : ℕ) (value msg : String) : parseUint bits value ≠ .panic msg := by
  unfold parseUint
  split
  · rw [parseUnsigned_eq_fromStrRadix]
    exact fromStrRadix_ne_panic msg
  · exact fromStrRadix_ne_panic msg

/-- What is wrong with a text that is no number of that many bits. -/
def uintError (bits : ℕ) (value : String) : ParseIntError :=
  match stripPrefix value "0x" with
  | none => numeralError bits 10 value
  | some hexStr => numeralError bits 16 hexStr

/-- The kind of the error depends on the digits behind the prefix alone. -/
theorem eq_of_parseUint_eq_err {bits : ℕ} {value : String} {e : ParseIntError}
    (h : parseUint bits value = .err e) : e = uintError bits value := by
  unfold parseUint at h
  unfold uintError
  rcases hstarts : stripPrefix value "0x" with _ | hexStr
  · simp only [hstarts] at h
    exact eq_of_parseUnsigned_eq_err h
  · simp only [hstarts] at h
    exact eq_of_fromStrRadix_eq_err (by norm_num) h

/-- `parse_u64` reads exactly the numbers of 64 bits. -/
theorem isOk_parseU64 (value : String) : (parseU64 value).isOk = uintFits 64 value := by
  rw [uintFits, parseU64]
  cases parseUint 64 value <;> rfl

/-- `parse_u128` reads exactly the numbers of 128 bits. -/
theorem isOk_parseU128 (value : String) : (parseU128 value).isOk = uintFits 128 value := by
  rw [uintFits, parseU128]
  cases parseUint 128 value <;> rfl

/-- What `parse_u64` returns for another text. -/
theorem eq_of_parseU64_eq_err {value : String} {e : ParseIntError}
    (h : parseU64 value = .err e) : e = uintError 64 value := by
  have hparse : parseUint 64 value = .err e := Outcome.eq_err_of_bind_pure h
  exact eq_of_parseUint_eq_err hparse

/-- What `parse_u128` returns for another text. -/
theorem eq_of_parseU128_eq_err {value : String} {e : ParseIntError}
    (h : parseU128 value = .err e) : e = uintError 128 value := by
  have hparse : parseUint 128 value = .err e := Outcome.eq_err_of_bind_pure h
  exact eq_of_parseUint_eq_err hparse

/-- The parser itself does not panic. -/
theorem parseU64_ne_panic (value msg : String) : parseU64 value ≠ .panic msg :=
  Outcome.bind_ne_panic (parseUint_ne_panic 64 value msg) fun _ _ => Outcome.ok_ne_panic _ _

/-- The parser itself does not panic. -/
theorem parseU128_ne_panic (value msg : String) : parseU128 value ≠ .panic msg :=
  Outcome.bind_ne_panic (parseUint_ne_panic 128 value msg) fun _ _ => Outcome.ok_ne_panic _ _

namespace EVMTransaction

/-- The text that is decoded as the recipient. -/
def recipientText (v : Json) : String :=
  (stripPrefix ((v.index "to").asStr.getD "") "0x").getD zeroAddress

/-- The text that is decoded as the call data. -/
def inputText (v : Json) : String := (stripPrefix ((v.index "input").asStr.getD "") "0x").getD ""

/-- The two checks of a number: it is there as a text, and the text is read.  The message of
the second tells what is wrong with the text. -/
def uintChecks (v : Json) (key : String) (bits : ℕ) (provided valid : String) :
    List (String × Bool) :=
  let text := (v.index key).asStr.getD ""
  [(provided, (v.index key).asStr.isSome),
    (valid ++ ": " ++ (uintError bits text).debug, uintFits bits text)]

/-- The two checks of an address: digits, and as many as 20 bytes have. -/
def addressChecks (hex : Hex.Codec) (address : String) : List (String × Bool) :=
  [(hex.expectMessage "address should be hex" address, Hex.isHexPairs address),
    (assertEqMessage (address.length / 2) 20 "address should be 20 bytes long",
      address.length == 40)]

/-- The checks of a document in the order in which they are made. -/
def checks (hex : Hex.Codec) (v : Json) : List (String × Bool) :=
  addressChecks hex (recipientText v) ++
  uintChecks v "nonce" 64 "nonce should be provided" "nonce should be a valid u64" ++
  uintChecks v "value" 128 "value should be provided" "value should be a valid u128" ++
  uintChecks v "gasLimit" 128 "gasLimit should be provided" "gasLimit should be a valid u128" ++
  uintChecks v "maxPriorityFeePerGas" 128 "maxPriorityFeePerGas should be provided"
    "maxPriorityFeePerGas should be a valid u128" ++
  uintChecks v "maxFeePerGas" 128 "maxFeePerGas should be provided"
    "maxFeePerGas should be a valid u128" ++
  uintChecks v "chainId" 64 "chainId should be provided" "chainId should be a valid u64" ++
  [(hex.expectMessage "input should be hex" (inputText v), Hex.isHexPairs (inputText v)),
    ("capacity overflow", decide ((inputText v).length < 2 * addressSpace))]

section Checks

variable {hex : Hex.Codec} {v : Json} {β : Type} {rest : List (String × Bool)}

/-- A number of the document is looked up and then parsed. -/
theorem asks_uint {α : Type} {bits : ℕ} {parse : String → Outcome ParseIntError α}
    (hpanic : ∀ s msg, parse s ≠ .panic msg) (hok : ∀ s, (parse s).isOk = uintFits bits s)
    (herr : ∀ s e, parse s = .err e → e = uintError bits s)
    {f : α → Outcome DeError β} (h : ∀ n, Asks (f n) rest) (key provided valid : String) :
    Asks (Outcome.expectSome provided (v.index key).asStr >>= fun s =>
        (parse s).expect ParseIntError.debug valid >>= f)
      (uintChecks v key bits provided valid ++ rest) := by
  refine Asks.expectSome (fun s hs => ?_) provided
  rw [hs, Option.getD_some, ← hok s]
  exact Asks.expect (hpanic s) (fun e he => by rw [herr s e he]) fun n _ => h n

theorem asks_parseU64 {f : UInt64 → Outcome DeError β} (h : ∀ n, Asks (f n) rest)
    (key provided valid : String) :
    Asks (Outcome.expectSome provided (v.index key).asStr >>= fun s =>
        (parseU64 s).expect ParseIntError.debug valid >>= f)
      (uintChecks v key 64 provided valid ++ rest) :=
  asks_uint parseU64_ne_panic isOk_parseU64 (fun _ _ he => eq_of_parseU64_eq_err he) h key
    provided valid

theorem asks_parseU128 {f : UInt128 → Outcome DeError β} (h : ∀ n, Asks (f n) rest)
    (key provided valid : String) :
    Asks (Outcome.expectSome provided (v.index key).asStr >>= fun s =>
        (parseU128 s).expect ParseIntError.debug valid >>= f)
      (uintChecks v key 128 provided valid ++ rest) :=
  asks_uint parseU128_ne_panic isOk_parseU128 (fun _ _ he => eq_of_parseU128_eq_err he) h key
    provided valid

/-- An address has 40 digits. -/
theorem asks_parseEthAddress (hhex : hex.Standard) (address : String)
    {f : Address → Outcome DeError β} (h : ∀ result, Asks (f result) rest) :
    Asks (parseEthAddress hex address >>= f) (addressChecks hex address ++ rest) := by
  -- the length is a requirement of its own
  have heq : parseEthAddress hex address >>= f =
      ((hex.decode address).expect Hex.FromHexError.debug "address should be hex" >>= fun bytes =>
        Outcome.expectSome (assertEqMessage bytes.length 20 "address should be 20 bytes long")
          (toArray 20 bytes) >>= f) := by
    unfold parseEthAddress
    rcases hex.decode address with bytes | e | msg
    · cases hbytes : toArray 20 bytes <;> simp [Outcome.expect, Outcome.expectSome, hbytes]
    · rfl
    · rfl
  rw [heq, addressChecks, ← hhex.isOk_decode address]
  refine Asks.expect (hhex.decode_ne_panic address)
    (fun e he => hex.expectMessage_of_err he _) fun bytes hbytes => ?_
  have hlen := hhex.length_eq hbytes
  have hhalf : address.length / 2 = bytes.length := by omega
  have hcheck : (address.length == 40) = (toArray 20 bytes).isSome := by
    rw [Bool.eq_iff_iff, beq_iff_eq, Option.isSome_iff_exists]
    constructor
    · intro h40
      exact ⟨⟨bytes, by omega⟩, (toArray_eq_some_iff _ _).mpr rfl⟩
    · rintro ⟨result, hresult⟩
      rw [hlen, ← (toArray_eq_some_iff _ _).mp hresult, result.toList_length]
  rw [hhalf, hcheck]
  exact Asks.expectSome (fun result _ => h result) _

/-- The code asks for the fields in this order. -/
theorem asks_ofValue (hhex : hex.Standard) (v : Json) : Asks (ofValue hex v) (checks hex v) := by
  unfold ofValue
  refine asks_parseEthAddress hhex _ fun to_ => ?_
  refine asks_parseU64 (fun nonce => ?_) _ _ _
  refine asks_parseU128 (fun value => ?_) _ _ _
  refine asks_parseU128 (fun gasLimit => ?_) _ _ _
  refine asks_parseU128 (fun maxPriorityFeePerGas => ?_) _ _ _
  refine asks_parseU128 (fun maxFeePerGas => ?_) _ _ _
  refine asks_parseU64 (fun chainId => ?_) _ _ _
  show Asks _ [(hex.expectMessage "input should be hex" (inputText v),
    Hex.isHexPairs (inputText v)), _]
  rw [← hhex.isOk_decode]
  refine Asks.expect (hhex.decode_ne_panic _)
    (fun e he => hex.expectMessage_of_err he _) fun input hinput => ?_
  refine (requires_one ?_).asks
  have hlen := hhex.length_eq hinput
  have hmemory : input.length + AccessList.heapSize [] < addressSpace ↔
      (inputText v).length < 2 * addressSpace := by
    rw [inputText, hlen, AccessList.heapSize]
    simp
  split_ifs with h
  · exact .inl ⟨⟨_, rfl⟩, decide_eq_true (hmemory.mp h)⟩
  · exact .inr ⟨rfl, decide_eq_false (mt hmemory.mpr h)⟩

/-- All checks together are what is required of a document. -/
theorem requires_ofValue (hhex : hex.Standard) (v : Json) :
    Requires (ofValue hex v) (checks hex v) (ReadFrom hex v) :=
  (asks_ofValue hhex v).requires fun _ => ofValue_eq_ok_iff hex

/-- A document that is not too deep is kept whole. -/
theorem fromJson_eq_ofValue {parse : String → Option Json} {text : String}
    (hparse : parse text = some v) (hdepth : v.depth ≤ recursionLimit) :
    fromJson hex parse text = ofValue hex v := by
  rw [fromJson, fromStr, hparse]
  show (readValue recursionLimit v >>= fun v => ofValue hex v) = _
  rw [readValue, if_pos hdepth, Outcome.ok_bind]

end Checks

/-- What comes of a text.  It is an error when it is no document or one that is nested too
deep; otherwise all that the code asks for must be there, or it panics with the message of
the first thing that is not. -/
theorem fromJson_requires (hex : Hex.Codec) (hhex : hex.Standard)
    (parse : String → Option Json) (text : String) :
    (parse text = none → fromJson hex parse text = .err .syntaxError) ∧
    ∀ v, parse text = some v →
      (recursionLimit < v.depth → fromJson hex parse text = .err .recursionLimitExceeded) ∧
      (v.depth ≤ recursionLimit →
        Requires (fromJson hex parse text) (checks hex v) (ReadFrom hex v)) := by
  refine ⟨fun hparse => ?_, fun v hparse => ⟨fun hdepth => ?_, fun hdepth => ?_⟩⟩
  · rw [fromJson, fromStr, hparse]
    rfl
  · rw [fromJson, fromStr, hparse]
    show (readValue recursionLimit v >>= fun v => ofValue hex v) = _
    rw [readValue, if_neg hdepth.not_ge, Outcome.err_bind]
  · rw [fromJson_eq_ofValue hparse hdepth]
    exact requires_ofValue hhex v

/-- The nonce `2 ^ 64` has one bit too many. -/
theorem fromJson_requires_overflowingDocument :
    fromJson .lowercase (parserOf overflowingDocument) overflowingDocument.compact =
      .panic "nonce should be a valid u64: ParseIntError \x7b kind: PosOverflow \x7d" := by
  have h := (fromJson_requires .lowercase Hex.Codec.standard_lowercase _ _).2 _
    (parserOf_compact overflowingDocument)
  exact ((h.2 (by decide)).panic_iff _).mpr (by decide)

end EVMTransaction

/-! ## The derived reader -/

/-- `u64`. -/
def readU64 : Reader UInt64 := fun level doc => do
  let n ← readUnsigned 64 "u64" level doc
  return UInt64.ofNat n

/-- A `u64` is a number in the derived form. -/
theorem roundTrips_u64 (n : UInt64) : RoundTrips readU64 (.int n.toNat) n True := by
  have h := (roundTrips_unsigned "u64" n.toNat_lt).map UInt64.ofNat
  rwa [UInt64.ofNat_toNat] at h

/-- `deserialize_u128` at an integer literal. -/
def visitU128 (n : ℤ) : Outcome DeError UInt128 :=
  if 0 ≤ n ∧ n < 2 ^ 128 then .ok (BitVec.ofNat 128 n.toNat) else .err .syntaxError

/-- `u128`.  `serde_json` scans the digits of the literal itself, and everything else is an
error of the text. -/
def readU128 : Reader UInt128 := fun _ doc =>
  match doc with
  | .int n => visitU128 n
  | _ => .err .syntaxError

/-- A `u128` is a number, also above `2 ^ 64`. -/
theorem roundTrips_u128 (n : UInt128) : RoundTrips readU128 (.int n.toNat) n True := by
  have hrange : (0 : ℤ) ≤ n.toNat ∧ (n.toNat : ℤ) < 2 ^ 128 :=
    ⟨Int.natCast_nonneg _, by exact_mod_cast n.isLt⟩
  refine RoundTrips.of_eq_ok (fun level => ?_) rfl
  show visitU128 n.toNat = _
  rw [visitU128, if_pos hrange, Int.toNat_natCast, BitVec.ofNat_toNat, BitVec.setWidth_eq]

/-- `[u8; N]`. -/
def readByteArray (n : ℕ) : Reader (FixedBytes n) := fun level doc =>
  match level, doc with
  | 0, .arr _ => closed doc
  | level + 1, .arr items => visitBytes n s!"an array of length {n}" level items
  | _, _ => .err (.invalidType doc s!"an array of length {n}")

/-- An array of bytes is an array of numbers. -/
theorem roundTrips_byteArray {n : ℕ} (a : FixedBytes n) :
    RoundTrips (readByteArray n) (writeBytes a.toList) a True := by
  intro level
  rw [depth_writeBytes_le_iff]
  cases level with
  | zero =>
    intro b
    simp [writeBytes, readByteArray, closed]
  | succ level =>
    have h : readByteArray n (level + 1) (writeBytes a.toList) = .ok a :=
      visitBytes_map_writeU8 _ level a
    exact (ReadsAs.of_eq_ok h).congr (by simp)

/-- `Vec<[u8; 32]>`. -/
def readKeys : Reader (List (FixedBytes 32)) := fun level =>
  readVec (below (readByteArray 32) level) level

/-- The storage keys, each an array of numbers. -/
def writeKeys (keys : List (FixedBytes 32)) : Json :=
  .arr (keys.map fun key => writeBytes key.toList)

/-- The keys of an entry are read back. -/
theorem roundTrips_keys (keys : List (FixedBytes 32)) :
    RoundTrips readKeys (writeKeys keys) keys True :=
  (RoundTrips.vec fun key _ => roundTrips_byteArray key).congr (by simp)

namespace AccessList

/-- `visit_seq` of an entry. -/
def visitAccess (level : ℕ) : List Json → Outcome DeError (Address × List (FixedBytes 32))
  | [] => .err (.invalidLength 0 "a tuple of size 2")
  | address :: items => do
    let address ← readByteArray 20 level address
    match items with
    | [] => .err (.invalidLength 1 "a tuple of size 2")
    | keys :: items =>
      let keys ← readKeys level keys
      if items.isEmpty then return (address, keys) else .err .trailingCharacters

/-- `(Address, Vec<[u8; 32]>)`. -/
def readAccess : Reader (Address × List (FixedBytes 32)) := fun level doc =>
  match level, doc with
  | 0, .arr _ => closed doc
  | level + 1, .arr items => visitAccess level items
  | _, _ => .err (.invalidType doc "a tuple of size 2")

/-- An entry of the access list, a tuple. -/
def writeAccess (access : Address × List (FixedBytes 32)) : Json :=
  .arr [writeBytes access.1.toList, writeKeys access.2]

/-- An entry of the access list is read back. -/
theorem roundTrips_access (access : Address × List (FixedBytes 32)) :
    RoundTrips readAccess (writeAccess access) access True := by
  intro level
  rw [writeAccess, Json.depth_arr_le_iff, List.forall_mem_cons, List.forall_mem_singleton]
  cases level with
  | zero =>
    intro b
    simp [readAccess, closed]
  | succ level =>
    intro b
    have haddress := roundTrips_byteArray access.1 level
    have hkeys := roundTrips_keys access.2 level
    show (readByteArray 20 level (writeBytes access.1.toList) >>= fun address =>
      readKeys level (writeKeys access.2) >>= fun keys => pure (address, keys)) = _ ↔ _
    simp only [Outcome.bind_eq_ok_iff, Outcome.pure_eq_ok, Outcome.ok.injEq, Nat.lt_succ_iff]
    constructor
    · rintro ⟨address, haddress', keys, hkeys', rfl⟩
      obtain ⟨rfl, -, hdepth⟩ := (haddress address).mp haddress'
      obtain ⟨rfl, -, hdepth'⟩ := (hkeys keys).mp hkeys'
      exact ⟨rfl, trivial, Nat.zero_le level, hdepth, hdepth'⟩
    · rintro ⟨rfl, -, -, hdepth, hdepth'⟩
      exact ⟨_, (haddress _).mpr ⟨rfl, trivial, hdepth⟩, _, (hkeys _).mpr ⟨rfl, trivial, hdepth'⟩,
        rfl⟩

/-- `Serialize for AccessList`. -/
def toJson (accessList : AccessList) : Json := .arr (accessList.map writeAccess)

/-- `Deserialize for AccessList`. -/
def fromDocument : Reader AccessList := fun level => readVec (below readAccess level) level

/-- The access list is read back entry by entry. -/
theorem roundTrips (accessList : AccessList) :
    RoundTrips fromDocument accessList.toJson accessList True :=
  (RoundTrips.vec fun access _ => roundTrips_access access).congr (by simp)

end AccessList

namespace EVMTransaction

/-- A transaction from its fields, which have to have room in memory. -/
def ofFields (chainId nonce : UInt64) (to_ : Option Address) (value : UInt128) (input : Bytes)
    (gasLimit maxFeePerGas maxPriorityFeePerGas : UInt128) (accessList : AccessList) :
    Outcome DeError EVMTransaction :=
  if h : input.length + accessList.heapSize < addressSpace then
    .ok {
      chainId, nonce, to_, value, input, gasLimit, maxFeePerGas, maxPriorityFeePerGas,
      accessList, inMemory := h }
  else .panic "capacity overflow"

/-- The fields of `Deserialize for EVMTransaction`. -/
def fields (level : ℕ) : Fields (Outcome DeError EVMTransaction) :=
  (((((((((Fields.start ofFields).field
    "chain_id" (below readU64 level)).field
    "nonce" (below readU64 level)).optional
    "to" (below (readByteArray 20) level)).field
    "value" (below readU128 level)).field
    "input" (below readBytes level)).field
    "gas_limit" (below readU128 level)).field
    "max_fee_per_gas" (below readU128 level)).field
    "max_priority_fee_per_gas" (below readU128 level)).field
    "access_list" (below AccessList.fromDocument level)

/-- `Deserialize for EVMTransaction`. -/
def fromDocument : Reader EVMTransaction := fun level doc => do
  let tx ← readStruct "EVMTransaction" (fields level) level doc
  tx

/-- `Serialize for EVMTransaction`. -/
def toJson (tx : EVMTransaction) : Json :=
  .obj [("chain_id", .int tx.chainId.toNat), ("nonce", .int tx.nonce.toNat),
    ("to", writeOption (fun address => writeBytes address.toList) tx.to_),
    ("value", .int tx.value.toNat), ("input", writeBytes tx.input),
    ("gas_limit", .int tx.gasLimit.toNat), ("max_fee_per_gas", .int tx.maxFeePerGas.toNat),
    ("max_priority_fee_per_gas", .int tx.maxPriorityFeePerGas.toNat),
    ("access_list", tx.accessList.toJson)]

/-- A transaction is read back by the derived reader. -/
theorem roundTrips (tx : EVMTransaction) : RoundTrips fromDocument tx.toJson tx True := by
  have hto : RoundTrips (fun level => readOption (readByteArray 20 level))
      (writeOption (fun address => writeBytes address.toList) tx.to_) tx.to_ True :=
    (RoundTrips.option (fun _ => by simp [writeBytes])
      fun address _ => roundTrips_byteArray address).congr (by simp)
  have hfields := (((((((((Fields.roundTrip_start ofFields).field
    "chain_id" (roundTrips_u64 tx.chainId) (by simp)).field
    "nonce" (roundTrips_u64 tx.nonce) (by simp)).optional
    "to" hto (by simp)).field
    "value" (roundTrips_u128 tx.value) (by simp)).field
    "input" (roundTrips_bytes tx.input) (by simp)).field
    "gas_limit" (roundTrips_u128 tx.gasLimit) (by simp)).field
    "max_fee_per_gas" (roundTrips_u128 tx.maxFeePerGas) (by simp)).field
    "max_priority_fee_per_gas" (roundTrips_u128 tx.maxPriorityFeePerGas) (by simp)).field
    "access_list" tx.accessList.roundTrips (by simp)
  intro level
  have hbuilt : ∀ c, ofFields tx.chainId tx.nonce tx.to_ tx.value tx.input tx.gasLimit
      tx.maxFeePerGas tx.maxPriorityFeePerGas tx.accessList = .ok c ↔ c = tx ∧ True := by
    intro c
    rw [ofFields, dif_pos tx.inMemory, Outcome.ok.injEq, and_true, eq_comm]
  exact ((hfields.struct "EVMTransaction" level).bind hbuilt).congr (by simp [toJson])

section Forms

variable {hex : Hex.Codec} {v : Json} {level : ℕ} {tx : EVMTransaction}

end Forms

end EVMTransaction

namespace Signature

/-- A signature from its fields, which have to have room in memory. -/
def ofFields (v : UInt64) (r s : Bytes) : Outcome DeError Signature :=
  if h : r.length + s.length < addressSpace then .ok { v, r, s, inMemory := h }
  else .panic "capacity overflow"

/-- `Deserialize for Signature`. -/
def fromDocument : Reader Signature := fun level doc => do
  let signature ← readStruct "Signature"
    ((((Fields.start ofFields).field
      "v" (below readU64 level)).field
      "r" (below readBytes level)).field
      "s" (below readBytes level)) level doc
  signature

/-- `Serialize for Signature`. -/
def toJson (signature : Signature) : Json :=
  .obj [("v", .int signature.v.toNat), ("r", writeBytes signature.r), ("s", writeBytes signature.s)]

/-- A signature is read back by the derived reader. -/
theorem roundTrips (signature : Signature) :
    RoundTrips fromDocument signature.toJson signature True := by
  have hfields := (((Fields.roundTrip_start ofFields).field
    "v" (roundTrips_u64 signature.v) (by simp)).field
    "r" (roundTrips_bytes signature.r) (by simp)).field
    "s" (roundTrips_bytes signature.s) (by simp)
  intro level
  have hbuilt : ∀ c, ofFields signature.v signature.r signature.s = .ok c ↔
      c = signature ∧ True := by
    intro c
    rw [ofFields, dif_pos signature.inMemory, Outcome.ok.injEq, and_true, eq_comm]
  exact ((hfields.struct "Signature" level).bind hbuilt).congr (by simp [toJson])

end Signature

namespace EVMTransaction

end EVMTransaction

end Evm
