/-
# NEAR transactions in JSON

The JSON form of the types of `NearTypes`: the derived `Serialize` and
`Deserialize` and the ones written by hand for numbers, keys, hashes and
signatures.  Each type gets the statement of what its reader makes of what its
writer wrote.  For an amount they agree below `2 ^ 64` only.

The packages `bs58` and `base64` are parameters, with the law that decoding undoes
encoding.
-/
import OmniTransaction.Json
import OmniTransaction.NearTypes

open ByteOrder Rust Serde

namespace Near

variable {validate : String → Option String}

/-! ## Text forms of bytes -/

/-- A text form of byte strings. -/
structure TextCodec where
  encode : Bytes → String
  decode : String → Outcome String Bytes
  decode_encode : ∀ b, decode (encode b) = .ok b

/-- The packages `bs58` and `base64`. -/
structure TextCodecs where
  bs58 : TextCodec
  base64 : TextCodec

variable (codecs : TextCodecs)

/-! ## Numbers -/

/-- The visitor `StringOrNumberVisitor` for integers of `bits` bits.  Through
`deserialize_any` an integer literal arrives as a `u64` if it is one; a larger one
arrives as a floating-point number, for which the visitor has no method. -/
def stringOrNumber (bits : ℕ) (expected : String) : Reader ℕ := fun level doc =>
  match doc with
  | .str s => (parseUnsigned bits s).mapErr fun e => .custom e.display
  | .int n =>
    if 0 ≤ n ∧ n < 2 ^ 64 then .ok n.toNat else .err (.invalidType doc expected)
  | _ => unexpected expected level doc

/-- A number is read back if it fits in a `u64`. -/
theorem roundTrips_stringOrNumber (bits : ℕ) (expected : String) (n : ℕ) :
    RoundTrips (stringOrNumber bits expected) (.int n) n (n < 2 ^ 64) := by
  intro level m
  have hrange : ((0 : ℤ) ≤ n ∧ (n : ℤ) < 2 ^ 64) ↔ n < 2 ^ 64 := by
    rw [and_iff_right (Int.natCast_nonneg n)]
    exact_mod_cast Iff.rfl
  have hread : stringOrNumber bits expected level (.int n) =
      if n < 2 ^ 64 then .ok n else .err (.invalidType (.int n) expected) := by
    simp only [stringOrNumber, hrange, Int.toNat_natCast]
  rw [hread]
  -- a larger literal arrives as a floating-point number
  by_cases h : n < 2 ^ 64
  · rw [if_pos h, Outcome.ok.injEq, eq_comm]
    exact (and_iff_left ⟨h, Nat.zero_le level⟩).symm
  · rw [if_neg h]
    exact iff_of_false (by simp) fun hm => h hm.2.1

def U64.toJson (u : U64) : Json := .int u.val.toNat

/-- `Deserialize for U64`. -/
def U64.fromJson : Reader U64 := fun level doc => do
  let n ← stringOrNumber 64 "a string or a number" level doc
  return ⟨UInt64.ofNat n⟩

/-- Every `u64` can be written and read as a number. -/
theorem U64.roundTrips (u : U64) : RoundTrips U64.fromJson u.toJson u True := by
  have h := (roundTrips_stringOrNumber 64 "a string or a number" u.val.toNat).map
    fun n => U64.mk (UInt64.ofNat n)
  rw [UInt64.ofNat_toNat] at h
  exact h.congr (iff_true_intro u.val.toNat_lt)

/-- Derived `Serialize`: the number itself, however large. -/
def U128.toJson (u : U128) : Json := .int u.val.toNat

/-- `Deserialize for U128`. -/
def U128.fromJson : Reader U128 := fun level doc => do
  let n ← stringOrNumber 128 "a string or a number 128" level doc
  return ⟨BitVec.ofNat 128 n⟩

/-- The amount fits in a `u64`. -/
def U128.FitsU64 (u : U128) : Prop := u.val.toNat < 2 ^ 64

instance (u : U128) : Decidable u.FitsU64 := inferInstanceAs (Decidable (_ < _))

/-- The number is read back only below `2 ^ 64`, since `visit_u64` is all there is for numbers.
-/
theorem U128.roundTrips (u : U128) : RoundTrips U128.fromJson u.toJson u u.FitsU64 := by
  have h := (roundTrips_stringOrNumber 128 "a string or a number 128" u.val.toNat).map
    fun n => U128.mk (BitVec.ofNat 128 n)
  rwa [BitVec.ofNat_toNat, BitVec.setWidth_eq] at h

/-! ## Names, bytes and hashes -/

def AccountId.toJson (account : AccountId validate) : Json := .str account.val

/-- `Deserialize for AccountId`: a text that `validate` accepts. -/
def AccountId.fromJson : Reader (AccountId validate) := fun level doc => do
  let name ← readString level doc
  match AccountId.ofString validate name with
  | some account => return account
  | none => .err (.custom (AccountId.invalidText validate name))

/-- The name of an account is valid. -/
theorem AccountId.roundTrips (account : AccountId validate) :
    RoundTrips AccountId.fromJson account.toJson account True := by
  refine RoundTrips.of_eq_ok (fun level => ?_) rfl
  show (match AccountId.ofString validate account.val with
    | some account => pure account
    | none => .err _ : Outcome DeError (AccountId validate)) = _
  rw [(AccountId.ofString_eq_some_iff _ account).mpr rfl]
  rfl

/-- `base64_bytes::serialize`. -/
def Base64VecU8.toJson (v : Base64VecU8) : Json := .str (codecs.base64.encode v.val)

/-- `base64_bytes::deserialize`. -/
def Base64VecU8.fromJson : Reader Base64VecU8 := fun level doc => do
  let s ← readString level doc
  let val ← (codecs.base64.decode s).mapErr .custom
  return ⟨val⟩

/-- The codec decodes what it encodes. -/
theorem Base64VecU8.roundTrips (v : Base64VecU8) :
    RoundTrips (Base64VecU8.fromJson codecs) (v.toJson codecs) v True := by
  refine RoundTrips.of_eq_ok (fun level => ?_) rfl
  show (((codecs.base64.decode (codecs.base64.encode v.val)).mapErr .custom >>= fun val =>
    pure ⟨val⟩ : Outcome DeError Base64VecU8)) = _
  rw [codecs.base64.decode_encode]
  rfl

/-- Derived `Serialize`: the bytes as numbers; base58 is only read. -/
def BlockHash.toJson (hash : BlockHash) : Json := writeBytes hash.val.toList

/-- `expecting` of `BlockHashOrBytes`. -/
def BlockHash.expecting : String := "a string or byte array representing a block hash"

/-- `visit_str` of `BlockHashOrBytes`. -/
def BlockHash.visitStr (value : String) : Outcome DeError BlockHash := do
  let bytes ← (codecs.bs58.decode value).mapErr .custom
  match toArray 32 bytes with
  | some array => return ⟨array⟩
  | none => .err (.custom "Invalid length")

/-- `Deserialize for BlockHash`. -/
def BlockHash.fromJson : Reader BlockHash := fun level doc =>
  match level, doc with
  | _, .str value => BlockHash.visitStr codecs value
  | level + 1, .arr items => do
    let arr ← visitBytes 32 BlockHash.expecting level items
    return ⟨arr⟩
  | _, _ => unexpected BlockHash.expecting level doc

/-- The form that is written is one of the two that are read. -/
theorem BlockHash.roundTrips (hash : BlockHash) :
    RoundTrips (BlockHash.fromJson codecs) hash.toJson hash True := by
  intro level
  rw [BlockHash.toJson, depth_writeBytes_le_iff]
  cases level with
  | zero =>
    intro b
    simp [writeBytes, BlockHash.fromJson, unexpected, closed]
  | succ level =>
    have hread : BlockHash.fromJson codecs (level + 1) (writeBytes hash.val.toList) =
        .ok hash := by
      show (visitBytes 32 BlockHash.expecting level (hash.val.toList.map writeU8) >>= fun arr =>
        pure (BlockHash.mk arr)) = _
      rw [visitBytes_map_writeU8]
      rfl
    exact (ReadsAs.of_eq_ok hread).congr (by simp)

/-! ## Public keys -/

/-- `PublicKeyStrExt::to_public_key_as_bytes`. -/
def toPublicKeyAsBytes (s : String) : Outcome String Bytes :=
  match splitOnce ':' s with
  | none => .err "Invalid key format"
  | some (keyType, keyData) => do
    let bytes ← (codecs.bs58.decode keyData).mapErr fun e => s!"Failed to decode base58: {e}"
    if keyType = "ed25519" then
      if bytes.length = 32 then return bytes
      else .err "ED25519 public key should be 32 bytes long"
    else if keyType = "secp256k1" then
      if bytes.length = 64 then return bytes
      else .err "SECP256K1 public key should be 64 bytes long"
    else .err "Unknown key type"

/-- `PublicKeyStrExt::to_public_key`. -/
def toPublicKey (s : String) : Outcome String PublicKey := do
  let bytes ← toPublicKeyAsBytes codecs s
  if startsWith s "ed25519:" then
    match toArray ED25519_PUBLIC_KEY_LENGTH bytes with
    | some key => return .ED25519 ⟨key⟩
    | none => .err "Invalid length for ED25519 key"
  else if startsWith s "secp256k1:" then
    match toArray SECP256K1_PUBLIC_KEY_LENGTH bytes with
    | some key => return .SECP256K1 ⟨key⟩
    | none => .err "Invalid length for SECP256K1 key"
  else .err "Unknown key type"

/-- `TryFrom<&[u8]> for PublicKey`: the length decides which key it is. -/
def PublicKey.tryFrom (value : Bytes) : Outcome String PublicKey :=
  match toArray ED25519_PUBLIC_KEY_LENGTH value, toArray SECP256K1_PUBLIC_KEY_LENGTH value with
  | some key, _ => .ok (.ED25519 ⟨key⟩)
  | none, some key => .ok (.SECP256K1 ⟨key⟩)
  | none, none => .err "Invalid public key length"

/-- The bytes of a key. -/
def PublicKey.bytes : PublicKey → Bytes
  | .ED25519 key => key.val.toList
  | .SECP256K1 key => key.val.toList

/-- The length tells the curve again. -/
theorem PublicKey.tryFrom_bytes (key : PublicKey) : PublicKey.tryFrom key.bytes = .ok key := by
  cases key with
  | ED25519 key => rw [PublicKey.bytes, PublicKey.tryFrom, toArray_toList]
  | SECP256K1 key =>
      -- 64 bytes are not taken for a shorter key
      have hnone : toArray ED25519_PUBLIC_KEY_LENGTH key.val.toList = none := by
        rw [toArray, dif_neg]
        rw [key.val.toList_length]
        decide
      rw [PublicKey.bytes, PublicKey.tryFrom, hnone, toArray_toList]

/-- Derived `Serialize`: the name of the variant and the bytes. -/
def PublicKey.toJson : PublicKey → Json
  | .ED25519 key => .obj [("ED25519", writeBytes key.val.toList)]
  | .SECP256K1 key => .obj [("SECP256K1", writeBytes key.val.toList)]

/-- `expecting` of `PublicKeyOrBytes`. -/
def PublicKey.expecting : String := "a string or byte array representing a public key"

/-- `visit_map` of `PublicKeyOrBytes`.  Nothing may follow the first entry: where the object
should be closed, `serde_json` finds a comma. -/
def PublicKey.visitMap (level : ℕ) : List (String × Json) → Outcome DeError PublicKey
  | [] => .err (.missingField "key type")
  | (key, value) :: rest =>
    if key = "ED25519" ∨ key = "SECP256K1" then do
      let bytes ← readBytes level value
      let publicKey ← (PublicKey.tryFrom bytes).mapErr .custom
      if rest.isEmpty then return publicKey else .err .trailingComma
    else .err (.unknownField key ["ED25519", "SECP256K1"])

/-- `Deserialize for PublicKey`. -/
def PublicKey.fromJson : Reader PublicKey := fun level doc =>
  match level, doc with
  | _, .str value => (toPublicKey codecs value).mapErr .custom
  | level + 1, .obj entries => PublicKey.visitMap level entries
  | _, _ => unexpected PublicKey.expecting level doc

/-- The one entry of a key in the form that is written. -/
theorem PublicKey.readsAs_visitMap {tag : String} (htag : tag = "ED25519" ∨ tag = "SECP256K1")
    {bytes : Bytes} {key : PublicKey} (hkey : PublicKey.tryFrom bytes = .ok key) (level : ℕ) :
    ReadsAs (fun value => PublicKey.visitMap level [(tag, value)]) (writeBytes bytes) key
      (0 < level) := by
  have heq : (fun value => PublicKey.visitMap level [(tag, value)]) = fun value =>
      readBytes level value >>= fun bytes => (PublicKey.tryFrom bytes).mapErr .custom := by
    funext value
    rw [PublicKey.visitMap, if_pos htag]
    show (readBytes level value >>= fun bytes => _ >>= fun key => pure key) = _
    simp only [bind_pure]
  have htry : ∀ c, (PublicKey.tryFrom bytes).mapErr DeError.custom = .ok c ↔ c = key ∧ True := by
    intro c
    rw [hkey, Outcome.mapErr, Outcome.ok.injEq, and_true, eq_comm]
  rw [heq]
  refine ((roundTrips_bytes bytes level).bind htry).congr ?_
  rw [depth_writeBytes_le_iff]
  simp

/-- The object with one entry is read, one level for itself and one for the bytes. -/
theorem PublicKey.roundTrips_obj {tag : String} (htag : tag = "ED25519" ∨ tag = "SECP256K1")
    {bytes : Bytes} {key : PublicKey} (hkey : PublicKey.tryFrom bytes = .ok key) :
    RoundTrips (PublicKey.fromJson codecs) (.obj [(tag, writeBytes bytes)]) key True := by
  intro level
  cases level with
  | zero =>
    intro b
    simp [PublicKey.fromJson, unexpected, closed, Json.depth]
  | succ level =>
    intro b
    simp only [Json.depth_obj_le_iff, List.forall_mem_singleton, Nat.lt_succ_iff,
      depth_writeBytes_le_iff]
    exact ((PublicKey.readsAs_visitMap htag hkey level).congr (by simp)) b

/-- A key is read back as the same variant. -/
theorem PublicKey.roundTrips (key : PublicKey) :
    RoundTrips (PublicKey.fromJson codecs) key.toJson key True := by
  have htry := PublicKey.tryFrom_bytes key
  cases key with
  | ED25519 key => exact PublicKey.roundTrips_obj codecs (.inl rfl) htry
  | SECP256K1 key => exact PublicKey.roundTrips_obj codecs (.inr rfl) htry

/-! ## Signatures -/

/-- `Serialize for Signature`. -/
def Signature.toJson : Signature → Json
  | .ED25519 sig => .str ("ed25519:" ++ codecs.bs58.encode (sig.r.toList ++ sig.s.toList))
  | .SECP256K1 sig => .str ("secp256k1:" ++ codecs.bs58.encode sig.val.toList)

/-- A component from a slice of the decoded bytes. -/
def ED25519Signature.component (bytes : Bytes) (start stop : ℕ) :
    Outcome DeError (FixedBytes COMPONENT_SIZE) := do
  let component ← slice bytes start stop
  match toArray COMPONENT_SIZE component with
  | some array => return array
  | none => .err (.custom "could not convert slice to array")

/-- The branch `"ed25519"` of the reader.  The slices panic on fewer than 32 bytes. -/
def ED25519Signature.decode (sigData : String) : Outcome DeError ED25519Signature := do
  let bytes ← (codecs.bs58.decode sigData).mapErr .custom
  let r ← component bytes 0 COMPONENT_SIZE
  let s ← component bytes COMPONENT_SIZE bytes.length
  return ⟨r, s⟩

/-- The branch `"secp256k1"` of the reader. -/
def Secp256K1Signature.decode (sigData : String) : Outcome DeError Secp256K1Signature := do
  let bytes ← (codecs.bs58.decode sigData).mapErr .custom
  match toArray SECP256K1_SIGNATURE_LENGTH bytes with
  | some array => return ⟨array⟩
  | none => .err (.custom "Invalid SECP256K1 signature length")

/-- The text of a signature: the type of the key, a colon and the bytes. -/
def Signature.ofText (s : String) : Outcome DeError Signature :=
  match splitOnce ':' s with
  | none => .err (.custom "Invalid signature format")
  | some (keyType, sigData) =>
    if keyType = "ed25519" then do
      let sig ← ED25519Signature.decode codecs sigData
      return .ED25519 sig
    else if keyType = "secp256k1" then do
      let sig ← Secp256K1Signature.decode codecs sigData
      return .SECP256K1 sig
    else .err (.custom "Unknown key type")

/-- `Deserialize for Signature`. -/
def Signature.fromJson : Reader Signature := fun level doc => do
  let s ← readString level doc
  Signature.ofText codecs s

/-- The two halves of 64 bytes are the two components. -/
theorem ED25519Signature.decode_encode (sig : ED25519Signature) :
    ED25519Signature.decode codecs (codecs.bs58.encode (sig.r.toList ++ sig.s.toList)) =
      .ok sig := by
  have hr : component (sig.r.toList ++ sig.s.toList) 0 COMPONENT_SIZE = .ok sig.r := by
    rw [component, slice_left sig.r.toList_length, Outcome.ok_bind, toArray_toList]
    rfl
  have hs : component (sig.r.toList ++ sig.s.toList) COMPONENT_SIZE
      (sig.r.toList ++ sig.s.toList).length = .ok sig.s := by
    rw [component, slice_right sig.r.toList_length, Outcome.ok_bind, toArray_toList]
    rfl
  rw [ED25519Signature.decode, codecs.bs58.decode_encode, Outcome.mapErr, Outcome.ok_bind, hr,
    Outcome.ok_bind, hs]
  rfl

/-- The 65 bytes are taken as they are. -/
theorem Secp256K1Signature.decode_encode (sig : Secp256K1Signature) :
    Secp256K1Signature.decode codecs (codecs.bs58.encode sig.val.toList) = .ok sig := by
  rw [Secp256K1Signature.decode, codecs.bs58.decode_encode, Outcome.mapErr, Outcome.ok_bind,
    toArray_toList]
  rfl

/-- A signature is read back from its text. -/
theorem Signature.roundTrips (sig : Signature) :
    RoundTrips (Signature.fromJson codecs) (sig.toJson codecs) sig True := by
  cases sig with
  | ED25519 sig =>
    refine RoundTrips.of_eq_ok (fun level => ?_) rfl
    have hsplit := splitOnce_append (c := ':') (p := "ed25519:") (q := "ed25519") (by decide)
      (by decide) (codecs.bs58.encode (sig.r.toList ++ sig.s.toList))
    show Signature.ofText codecs _ = _
    rw [Signature.ofText, hsplit]
    show (ED25519Signature.decode codecs _ >>= fun sig => pure (Signature.ED25519 sig)) = _
    rw [ED25519Signature.decode_encode]
    rfl
  | SECP256K1 sig =>
    refine RoundTrips.of_eq_ok (fun level => ?_) rfl
    have hsplit := splitOnce_append (c := ':') (p := "secp256k1:") (q := "secp256k1") (by decide)
      (by decide) (codecs.bs58.encode sig.val.toList)
    show Signature.ofText codecs _ = _
    rw [Signature.ofText, hsplit]
    show (Secp256K1Signature.decode codecs _ >>= fun sig => pure (Signature.SECP256K1 sig)) = _
    rw [Secp256K1Signature.decode_encode]
    rfl

/-! ## Actions without actions inside -/

/-- A structure without fields is an empty object. -/
def CreateAccountAction.toJson (_ : CreateAccountAction) : Json := .obj []

def CreateAccountAction.fromJson : Reader CreateAccountAction :=
  readStruct "CreateAccountAction" (.start ⟨⟩)

theorem CreateAccountAction.roundTrips (a : CreateAccountAction) :
    RoundTrips CreateAccountAction.fromJson a.toJson a True :=
  (Fields.roundTrip_start a).struct "CreateAccountAction"

/-- The object with the code in base64. -/
def DeployContractAction.toJson (a : DeployContractAction) : Json :=
  .obj [("code", a.code.toJson codecs)]

def DeployContractAction.fromJson : Reader DeployContractAction := fun level =>
  readStruct "DeployContractAction"
    ((Fields.start DeployContractAction.mk).field "code"
      (below (Base64VecU8.fromJson codecs) level)) level

theorem DeployContractAction.roundTrips (a : DeployContractAction) :
    RoundTrips (DeployContractAction.fromJson codecs) (a.toJson codecs) a True :=
  ((((Fields.roundTrip_start DeployContractAction.mk).field "code"
    (a.code.roundTrips codecs) (by simp)).struct "DeployContractAction")).congr (by simp)

/-- The object with the four fields, `args` as numbers. -/
def FunctionCallAction.toJson (a : FunctionCallAction) : Json :=
  .obj [("method_name", .str a.methodName), ("args", writeBytes a.args),
    ("gas", a.gas.toJson), ("deposit", a.deposit.toJson)]

def FunctionCallAction.fromJson : Reader FunctionCallAction := fun level =>
  readStruct "FunctionCallAction"
    (((((Fields.start FunctionCallAction.mk).field "method_name" (below readString level)).field
      "args" (below readBytes level)).field
      "gas" (below U64.fromJson level)).field
      "deposit" (below U128.fromJson level)) level

/-- The deposit is the field that may be too large. -/
theorem FunctionCallAction.roundTrips (a : FunctionCallAction) :
    RoundTrips FunctionCallAction.fromJson a.toJson a a.deposit.FitsU64 :=
  ((((((Fields.roundTrip_start FunctionCallAction.mk).field
    "method_name" (roundTrips_string a.methodName) (by simp)).field
    "args" (roundTrips_bytes a.args) (by simp)).field
    "gas" a.gas.roundTrips (by simp)).field
    "deposit" a.deposit.roundTrips (by simp)).struct "FunctionCallAction").congr (by simp)

def TransferAction.toJson (a : TransferAction) : Json := .obj [("deposit", a.deposit.toJson)]

def TransferAction.fromJson : Reader TransferAction := fun level =>
  readStruct "TransferAction"
    ((Fields.start TransferAction.mk).field "deposit" (below U128.fromJson level)) level

/-- The deposit is the field that may be too large. -/
theorem TransferAction.roundTrips (a : TransferAction) :
    RoundTrips TransferAction.fromJson a.toJson a a.deposit.FitsU64 :=
  (((Fields.roundTrip_start TransferAction.mk).field
    "deposit" a.deposit.roundTrips (by simp)).struct "TransferAction").congr (by simp)

/-- The object with the stake and the key. -/
def StakeAction.toJson (a : StakeAction) : Json :=
  .obj [("stake", a.stake.toJson), ("public_key", a.publicKey.toJson)]

def StakeAction.fromJson : Reader StakeAction := fun level =>
  readStruct "StakeAction"
    (((Fields.start StakeAction.mk).field "stake" (below U128.fromJson level)).field
      "public_key" (below (PublicKey.fromJson codecs) level)) level

/-- The stake is the field that may be too large. -/
theorem StakeAction.roundTrips (a : StakeAction) :
    RoundTrips (StakeAction.fromJson codecs) a.toJson a a.stake.FitsU64 :=
  ((((Fields.roundTrip_start StakeAction.mk).field
    "stake" a.stake.roundTrips (by simp)).field
    "public_key" (a.publicKey.roundTrips codecs) (by simp)).struct "StakeAction").congr
      (by simp)

/-- The object with the three fields, `null` for no allowance. -/
def FunctionCallPermission.toJson (p : FunctionCallPermission) : Json :=
  .obj [("allowance", writeOption U128.toJson p.allowance), ("receiver_id", .str p.receiverId),
    ("method_names", .arr (p.methodNames.map .str))]

/-- Derived `Deserialize`; the allowance is an `Option`. -/
def FunctionCallPermission.fromJson : Reader FunctionCallPermission := fun level =>
  readStruct "FunctionCallPermission"
    ((((Fields.start FunctionCallPermission.mk).optional
      "allowance" (below U128.fromJson level)).field
      "receiver_id" (below readString level)).field
      "method_names" (below (fun level => readVec (below readString level) level) level)) level

/-- The allowance is the field that may be too large. -/
theorem FunctionCallPermission.roundTrips (p : FunctionCallPermission) :
    RoundTrips FunctionCallPermission.fromJson p.toJson p (∀ a ∈ p.allowance, a.FitsU64) := by
  have hallowance : RoundTrips (fun level => readOption (U128.fromJson level))
      (writeOption U128.toJson p.allowance) p.allowance (∀ a ∈ p.allowance, a.FitsU64) :=
    RoundTrips.option (by simp [U128.toJson]) fun a _ => a.roundTrips
  have hnames : RoundTrips (fun level => readVec (below readString level) level)
      (.arr (p.methodNames.map .str)) p.methodNames (∀ _ ∈ p.methodNames, True) :=
    RoundTrips.vec fun name _ => roundTrips_string name
  exact (((((Fields.roundTrip_start FunctionCallPermission.mk).optional
    "allowance" hallowance (by simp)).field
    "receiver_id" (roundTrips_string p.receiverId) (by simp)).field
    "method_names" hnames (by simp)).struct "FunctionCallPermission").congr (by simp)

/-- Full access is the name alone. -/
def AccessKeyPermission.toJson : AccessKeyPermission → Json
  | .FunctionCall permission => .obj [("FunctionCall", permission.toJson)]
  | .FullAccess => .str "FullAccess"

/-- The variants with the readers of their contents. -/
def AccessKeyPermission.variants (level : ℕ) : List (String × Variant AccessKeyPermission) :=
  [("FunctionCall", .of .FunctionCall (below FunctionCallPermission.fromJson level)),
    ("FullAccess", .unit .FullAccess)]

/-- Derived `Deserialize`, with a level for the object around the content. -/
def AccessKeyPermission.fromJson : Reader AccessKeyPermission := fun level =>
  readEnum (variants level) level

/-- The allowance of a function call key, if there is one, fits in a `u64`. -/
def AccessKeyPermission.AmountsFit : AccessKeyPermission → Prop
  | .FunctionCall permission => ∀ a ∈ permission.allowance, a.FitsU64
  | .FullAccess => True

theorem AccessKeyPermission.roundTrips (p : AccessKeyPermission) :
    RoundTrips AccessKeyPermission.fromJson p.toJson p p.AmountsFit := by
  cases p with
  | FunctionCall permission =>
    exact RoundTrips.variant variants (fun _ => rfl) permission.roundTrips
  | FullAccess => exact RoundTrips.unitVariant variants fun _ => rfl

/-- The object with the nonce and the permission. -/
def AccessKey.toJson (k : AccessKey) : Json :=
  .obj [("nonce", k.nonce.toJson), ("permission", k.permission.toJson)]

def AccessKey.fromJson : Reader AccessKey := fun level =>
  readStruct "AccessKey"
    (((Fields.start AccessKey.mk).field "nonce" (below U64.fromJson level)).field
      "permission" (below AccessKeyPermission.fromJson level)) level

/-- An access key is read back when its allowance is. -/
theorem AccessKey.roundTrips (k : AccessKey) :
    RoundTrips AccessKey.fromJson k.toJson k k.permission.AmountsFit :=
  ((((Fields.roundTrip_start AccessKey.mk).field "nonce" k.nonce.roundTrips (by simp)).field
    "permission" k.permission.roundTrips (by simp)).struct "AccessKey").congr (by simp)

/-- The object with the key and the access key. -/
def AddKeyAction.toJson (a : AddKeyAction) : Json :=
  .obj [("public_key", a.publicKey.toJson), ("access_key", a.accessKey.toJson)]

def AddKeyAction.fromJson : Reader AddKeyAction := fun level =>
  readStruct "AddKeyAction"
    (((Fields.start AddKeyAction.mk).field
      "public_key" (below (PublicKey.fromJson codecs) level)).field
      "access_key" (below AccessKey.fromJson level)) level

/-- The new key is read back when its allowance is. -/
theorem AddKeyAction.roundTrips (a : AddKeyAction) :
    RoundTrips (AddKeyAction.fromJson codecs) a.toJson a a.accessKey.permission.AmountsFit :=
  ((((Fields.roundTrip_start AddKeyAction.mk).field
    "public_key" (a.publicKey.roundTrips codecs) (by simp)).field
    "access_key" a.accessKey.roundTrips (by simp)).struct "AddKeyAction").congr (by simp)

def DeleteKeyAction.toJson (a : DeleteKeyAction) : Json :=
  .obj [("public_key", a.publicKey.toJson)]

def DeleteKeyAction.fromJson : Reader DeleteKeyAction := fun level =>
  readStruct "DeleteKeyAction"
    ((Fields.start DeleteKeyAction.mk).field
      "public_key" (below (PublicKey.fromJson codecs) level)) level

theorem DeleteKeyAction.roundTrips (a : DeleteKeyAction) :
    RoundTrips (DeleteKeyAction.fromJson codecs) a.toJson a True :=
  (((Fields.roundTrip_start DeleteKeyAction.mk).field
    "public_key" (a.publicKey.roundTrips codecs) (by simp)).struct "DeleteKeyAction").congr
      (by simp)

def DeleteAccountAction.toJson (a : DeleteAccountAction validate) : Json :=
  .obj [("beneficiary_id", a.beneficiaryId.toJson)]

def DeleteAccountAction.fromJson : Reader (DeleteAccountAction validate) := fun level =>
  readStruct "DeleteAccountAction"
    ((Fields.start DeleteAccountAction.mk).field
      "beneficiary_id" (below AccountId.fromJson level)) level

theorem DeleteAccountAction.roundTrips (a : DeleteAccountAction validate) :
    RoundTrips DeleteAccountAction.fromJson a.toJson a True :=
  (((Fields.roundTrip_start DeleteAccountAction.mk).field
    "beneficiary_id" a.beneficiaryId.roundTrips (by simp)).struct "DeleteAccountAction").congr
      (by simp)

def GlobalContractDeployMode.toJson : GlobalContractDeployMode → Json
  | .CodeHash => .str "CodeHash"
  | .AccountId => .str "AccountId"

/-- Both variants are names without content. -/
def GlobalContractDeployMode.variants : List (String × Variant GlobalContractDeployMode) :=
  [("CodeHash", .unit .CodeHash), ("AccountId", .unit .AccountId)]

def GlobalContractDeployMode.fromJson : Reader GlobalContractDeployMode := fun level =>
  readEnum variants level

/-- A mode is read back from its name. -/
theorem GlobalContractDeployMode.roundTrips (m : GlobalContractDeployMode) :
    RoundTrips GlobalContractDeployMode.fromJson m.toJson m True := by
  cases m with
  | CodeHash => exact RoundTrips.unitVariant (fun _ => variants) fun _ => rfl
  | AccountId => exact RoundTrips.unitVariant (fun _ => variants) fun _ => rfl

/-- The object with the code in base64 and the mode. -/
def DeployGlobalContractAction.toJson (a : DeployGlobalContractAction) : Json :=
  .obj [("code", a.code.toJson codecs), ("deploy_mode", a.deployMode.toJson)]

def DeployGlobalContractAction.fromJson : Reader DeployGlobalContractAction := fun level =>
  readStruct "DeployGlobalContractAction"
    (((Fields.start DeployGlobalContractAction.mk).field
      "code" (below (Base64VecU8.fromJson codecs) level)).field
      "deploy_mode" (below GlobalContractDeployMode.fromJson level)) level

/-- The code is read back with its mode. -/
theorem DeployGlobalContractAction.roundTrips (a : DeployGlobalContractAction) :
    RoundTrips (DeployGlobalContractAction.fromJson codecs) (a.toJson codecs) a True :=
  ((((Fields.roundTrip_start DeployGlobalContractAction.mk).field
    "code" (a.code.roundTrips codecs) (by simp)).field
    "deploy_mode" a.deployMode.roundTrips (by simp)).struct
      "DeployGlobalContractAction").congr (by simp)

/-- The name of the variant and its content. -/
def GlobalContractIdentifier.toJson : GlobalContractIdentifier validate → Json
  | .CodeHash hash => .obj [("CodeHash", hash.toJson)]
  | .AccountId accountId => .obj [("AccountId", accountId.toJson)]

/-- The variants with the readers of their contents. -/
def GlobalContractIdentifier.variants (level : ℕ) :
    List (String × Variant (GlobalContractIdentifier validate)) :=
  [("CodeHash", .of .CodeHash (below (BlockHash.fromJson codecs) level)),
    ("AccountId", .of .AccountId (below AccountId.fromJson level))]

def GlobalContractIdentifier.fromJson : Reader (GlobalContractIdentifier validate) :=
  fun level => readEnum (variants codecs level) level

theorem GlobalContractIdentifier.roundTrips (i : GlobalContractIdentifier validate) :
    RoundTrips (GlobalContractIdentifier.fromJson codecs) i.toJson i True := by
  cases i with
  | CodeHash hash =>
    exact RoundTrips.variant (variants codecs) (fun _ => rfl)
      (hash.roundTrips codecs)
  | AccountId accountId =>
    exact RoundTrips.variant (variants codecs) (fun _ => rfl) accountId.roundTrips

def UseGlobalContractAction.toJson (a : UseGlobalContractAction validate) : Json :=
  .obj [("contract_identifier", a.contractIdentifier.toJson)]

def UseGlobalContractAction.fromJson : Reader (UseGlobalContractAction validate) :=
  fun level => readStruct "UseGlobalContractAction"
    ((Fields.start UseGlobalContractAction.mk).field
      "contract_identifier" (below (GlobalContractIdentifier.fromJson codecs) level)) level

theorem UseGlobalContractAction.roundTrips (a : UseGlobalContractAction validate) :
    RoundTrips (UseGlobalContractAction.fromJson codecs) a.toJson a True :=
  (((Fields.roundTrip_start UseGlobalContractAction.mk).field
    "contract_identifier" (a.contractIdentifier.roundTrips codecs) (by simp)).struct
      "UseGlobalContractAction").congr (by simp)

end Near
