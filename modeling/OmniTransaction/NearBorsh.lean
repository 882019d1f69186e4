/-
# NEAR transactions in Borsh

The Borsh form of those types of `NearTypes` that hold no actions: the derived
serializers and deserializers and the ones written by hand for `PublicKey`.  Each
type gets its codec along its declaration.
-/
import OmniTransaction.Borsh
import OmniTransaction.NearTypes

open ByteOrder Rust Borsh

namespace Near

variable {validate : String → Option String}

/-! ## Fields -/

/-- An account is written as its name, a string behind its length. -/
def AccountId.serialize (account : AccountId validate) : ByteStream IoError Unit :=
  serializeString account.val

/-- The error of a name that `validate` refuses. -/
def AccountId.invalid (validate : String → Option String) (name : String) : IoError :=
  ⟨.InvalidData, AccountId.invalidText validate name⟩

/-- The name is read as a string and then validated. -/
def AccountId.deserialize : ByteStream IoError (AccountId validate) :=
  deserializeString >>= check (AccountId.ofString validate) (AccountId.invalid validate)

/-- The name has a length that fits in a `u32`. -/
def AccountId.Fits (account : AccountId validate) : Prop := (asBytes account.val).length < 2 ^ 32

/-- A name that fits is read back; what is refused by `validate` is no account. -/
theorem AccountId.isCodec : IsCodec (@AccountId.Fits validate) AccountId.serialize
    AccountId.deserialize :=
  isCodec_string.checked AccountId.val _ AccountId.ofString_eq_some_iff

/-- Borsh of `U64`: the eight bytes of the number; only JSON has the text. -/
def U64.serialize (u : U64) : ByteStream IoError Unit := serializeU64 u.val

def U64.deserialize : ByteStream IoError U64 := do
  let val ← deserializeU64
  return ⟨val⟩

theorem U64.isCodec : IsCodec (fun _ => True) U64.serialize U64.deserialize :=
  (isCodec_u64.last U64.val U64.mk fun _ => rfl).congr fun _ => by simp

/-- Borsh of `U128`: the sixteen bytes of the number. -/
def U128.serialize (u : U128) : ByteStream IoError Unit := serializeU128 u.val

def U128.deserialize : ByteStream IoError U128 := do
  let val ← deserializeU128
  return ⟨val⟩

theorem U128.isCodec : IsCodec (fun _ => True) U128.serialize U128.deserialize :=
  (isCodec_u128.last U128.val U128.mk fun _ => rfl).congr fun _ => by simp

/-- The 32 bytes as they are, without a length. -/
def BlockHash.serialize (hash : BlockHash) : ByteStream IoError Unit := serializeArray hash.val

def BlockHash.deserialize : ByteStream IoError BlockHash := do
  let val ← deserializeArray 32
  return ⟨val⟩

theorem BlockHash.isCodec : IsCodec (fun _ => True) BlockHash.serialize BlockHash.deserialize :=
  ((isCodec_array 32).last BlockHash.val BlockHash.mk fun _ => rfl).congr fun _ => by simp

/-- The bytes behind their length; base64 is for JSON only. -/
def Base64VecU8.serialize (v : Base64VecU8) : ByteStream IoError Unit := serializeBytes v.val

/-- A vector of bytes behind its length. -/
def Base64VecU8.deserialize : ByteStream IoError Base64VecU8 := do
  let val ← deserializeBytes
  return ⟨val⟩

/-- The length is written in four bytes. -/
def Base64VecU8.Fits (v : Base64VecU8) : Prop := v.val.length < 2 ^ 32

/-- The bytes are read back when their length fits. -/
theorem Base64VecU8.isCodec :
    IsCodec Base64VecU8.Fits Base64VecU8.serialize Base64VecU8.deserialize :=
  (isCodec_vecU8.last Base64VecU8.val Base64VecU8.mk fun _ => rfl).congr fun _ => by simp [Fits]

/-! ### Public keys -/

/-- 32 bytes; the tag has been read before. -/
def ED25519PublicKey.deserialize : ByteStream IoError ED25519PublicKey := do
  let val ← deserializeArray ED25519_PUBLIC_KEY_LENGTH
  return ⟨val⟩

/-- 64 bytes; the tag has been read before. -/
def Secp256K1PublicKey.deserialize : ByteStream IoError Secp256K1PublicKey := do
  let val ← deserializeArray SECP256K1_PUBLIC_KEY_LENGTH
  return ⟨val⟩

/-- `BorshSerialize for PublicKey`, written by hand. -/
def PublicKey.serialize : PublicKey → ByteStream IoError Unit
  | .ED25519 publicKey => do
    serializeTag 0
    writeAll publicKey.val.toList
  | .SECP256K1 publicKey => do
    serializeTag 1
    writeAll publicKey.val.toList

/-- `BorshDeserialize::deserialize` for `PublicKey`, the entry point for slices. -/
def PublicKey.deserialize : ByteStream IoError PublicKey := do
  let keyType ← deserializeTag
  match keyType with
  | 0 => do
    let publicKey ← ED25519PublicKey.deserialize
    return .ED25519 publicKey
  | 1 => do
    let publicKey ← Secp256K1PublicKey.deserialize
    return .SECP256K1 publicKey
  | _ => .fail ⟨.InvalidData, "Invalid public key type"⟩

/-- `BorshDeserialize::deserialize_reader` for `PublicKey`, the entry point that
the derived deserializers call. -/
def PublicKey.deserializeReader : ByteStream IoError PublicKey := do
  let keyType ← deserializeTag
  match keyType with
  | 0 => do
    let publicKey ← ED25519PublicKey.deserialize
    return .ED25519 publicKey
  | 1 => do
    let publicKey ← Secp256K1PublicKey.deserialize
    return .SECP256K1 publicKey
  | _ => .fail ⟨.InvalidData, "Invalid public key type"⟩

/-- The bytes behind the tag `0`. -/
theorem ED25519PublicKey.isCodec : IsCodec (fun _ => True)
    (fun k : ED25519PublicKey => writeAll k.val.toList) ED25519PublicKey.deserialize :=
  ((isCodec_array _).last ED25519PublicKey.val ED25519PublicKey.mk fun _ => rfl).congr
    fun _ => by simp

/-- The bytes behind the tag `1`. -/
theorem Secp256K1PublicKey.isCodec : IsCodec (fun _ => True)
    (fun k : Secp256K1PublicKey => writeAll k.val.toList) Secp256K1PublicKey.deserialize :=
  ((isCodec_array _).last Secp256K1PublicKey.val Secp256K1PublicKey.mk fun _ => rfl).congr
    fun _ => by simp

/-- The byte in front of a key. -/
def PublicKey.keyType : PublicKey → ℕ
  | .ED25519 _ => 0
  | .SECP256K1 _ => 1

/-- The bytes of a key without its type. -/
def PublicKey.serializeKey : PublicKey → ByteStream IoError Unit
  | .ED25519 publicKey => writeAll publicKey.val.toList
  | .SECP256K1 publicKey => writeAll publicKey.val.toList

/-- A key is written by hand like a variant of an enumeration: a tag and its content. -/
theorem PublicKey.serialize_eq :
    PublicKey.serialize = fun k => serializeTag k.keyType >>= fun _ => k.serializeKey := by
  funext k
  cases k <;> rfl

/-- The encoder written by hand agrees with the deserializer that the derived
code calls. -/
theorem PublicKey.isCodec :
    IsCodec (fun _ => True) PublicKey.serialize PublicKey.deserializeReader := by
  rw [PublicKey.serialize_eq]
  refine IsCodec.tagged keyType (by rintro (_ | _) <;> simp [keyType]) fun tag => ?_
  match tag with
  | 0 =>
    refine (ED25519PublicKey.isCodec.variant PublicKey.ED25519 fun _ => rfl).congr ?_
    rintro (k | k) <;> simp [keyType]
  | 1 =>
    refine (Secp256K1PublicKey.isCodec.variant PublicKey.SECP256K1 fun _ => rfl).congr ?_
    rintro (k | k) <;> simp [keyType]
  | n + 2 =>
    refine (IsCodec.never _).congr ?_
    rintro (k | k) <;> simp [keyType]

/-- The two entry points are the same reader. -/
theorem PublicKey.deserialize_eq_deserializeReader :
    PublicKey.deserialize = PublicKey.deserializeReader := rfl

/-! ### Signatures -/

/-- The two components, `r` first. -/
def ED25519Signature.serialize (sig : ED25519Signature) : ByteStream IoError Unit := do
  serializeArray sig.r
  serializeArray sig.s

def ED25519Signature.deserialize : ByteStream IoError ED25519Signature := do
  let r ← deserializeArray COMPONENT_SIZE
  let s ← deserializeArray COMPONENT_SIZE
  return ⟨r, s⟩

/-- Both components are arrays, so that there is nothing to fit. -/
theorem ED25519Signature.isCodec :
    IsCodec (fun _ => True) ED25519Signature.serialize ED25519Signature.deserialize :=
  ((isCodec_array COMPONENT_SIZE).field ED25519Signature.r
    (fun r => (isCodec_array COMPONENT_SIZE).last ED25519Signature.s (.mk r) fun _ => rfl)
    fun r _ h => (congrArg ED25519Signature.r h.2).symm).congr fun _ => by simp

/-- 65 bytes without a length. -/
def Secp256K1Signature.serialize (sig : Secp256K1Signature) : ByteStream IoError Unit :=
  serializeArray sig.val

def Secp256K1Signature.deserialize : ByteStream IoError Secp256K1Signature := do
  let val ← deserializeArray SECP256K1_SIGNATURE_LENGTH
  return ⟨val⟩

theorem Secp256K1Signature.isCodec :
    IsCodec (fun _ => True) Secp256K1Signature.serialize Secp256K1Signature.deserialize :=
  ((isCodec_array _).last Secp256K1Signature.val Secp256K1Signature.mk fun _ => rfl).congr
    fun _ => by simp

/-- The tags of the derive, in the order of the declaration. -/
def Signature.variantIdx : Signature → ℕ
  | .ED25519 _ => 0
  | .SECP256K1 _ => 1

def Signature.serializeVariant : Signature → ByteStream IoError Unit
  | .ED25519 sig => sig.serialize
  | .SECP256K1 sig => sig.serialize

/-- Derived `BorshSerialize`: the tag and the signature itself. -/
def Signature.serialize (sig : Signature) : ByteStream IoError Unit := do
  serializeTag sig.variantIdx
  sig.serializeVariant

/-- The reader behind each tag. -/
def Signature.deserializeVariant : ℕ → ByteStream IoError Signature
  | 0 => do
    let sig ← ED25519Signature.deserialize
    return .ED25519 sig
  | 1 => do
    let sig ← Secp256K1Signature.deserialize
    return .SECP256K1 sig
  | tag => unexpectedTag tag

/-- Derived `BorshDeserialize`: the tag selects the reader. -/
def Signature.deserialize : ByteStream IoError Signature := do
  let tag ← deserializeTag
  deserializeVariant tag

/-- Every signature is read back behind its own tag. -/
theorem Signature.isCodec :
    IsCodec (fun _ => True) Signature.serialize Signature.deserialize := by
  refine IsCodec.tagged variantIdx (by rintro (_ | _) <;> simp [variantIdx]) fun tag => ?_
  match tag with
  | 0 =>
    refine (ED25519Signature.isCodec.variant Signature.ED25519 fun _ => rfl).congr ?_
    rintro (s | s) <;> simp [variantIdx]
  | 1 =>
    refine (Secp256K1Signature.isCodec.variant Signature.SECP256K1 fun _ => rfl).congr ?_
    rintro (s | s) <;> simp [variantIdx]
  | n + 2 =>
    refine (IsCodec.never _).congr ?_
    rintro (s | s) <;> simp [variantIdx]

/-! ## Actions without actions inside -/

/-- A structure without fields has no bytes. -/
def CreateAccountAction.serialize (_ : CreateAccountAction) : ByteStream IoError Unit := pure ()

def CreateAccountAction.deserialize : ByteStream IoError CreateAccountAction := pure ⟨⟩

/-- There is one value and one encoding, the empty one. -/
theorem CreateAccountAction.isCodec :
    IsCodec (fun _ => True) CreateAccountAction.serialize CreateAccountAction.deserialize :=
  (IsCodec.const (⟨⟩ : CreateAccountAction) rfl).congr fun _ => by simp

/-- The code behind its length. -/
def DeployContractAction.serialize (a : DeployContractAction) : ByteStream IoError Unit :=
  a.code.serialize

def DeployContractAction.deserialize : ByteStream IoError DeployContractAction := do
  let code ← Base64VecU8.deserialize
  return ⟨code⟩

/-- The code has a length below `2 ^ 32`. -/
def DeployContractAction.Fits (a : DeployContractAction) : Prop := a.code.Fits

/-- A contract is deployed as it was written. -/
theorem DeployContractAction.isCodec : IsCodec DeployContractAction.Fits
    DeployContractAction.serialize DeployContractAction.deserialize :=
  (Base64VecU8.isCodec.last code DeployContractAction.mk fun _ => rfl).congr fun _ => by
    simp [Fits]

/-- The fields in the order of the declaration. -/
def FunctionCallAction.serialize (a : FunctionCallAction) : ByteStream IoError Unit := do
  serializeString a.methodName
  serializeBytes a.args
  a.gas.serialize
  a.deposit.serialize

/-- The fields in the order of the declaration. -/
def FunctionCallAction.deserialize : ByteStream IoError FunctionCallAction := do
  let methodName ← deserializeString
  let args ← deserializeBytes
  let gas ← U64.deserialize
  let deposit ← U128.deserialize
  return ⟨methodName, args, gas, deposit⟩

/-- The name of the method and the arguments have lengths below `2 ^ 32`. -/
def FunctionCallAction.Fits (a : FunctionCallAction) : Prop :=
  (asBytes a.methodName).length < 2 ^ 32 ∧ a.args.length < 2 ^ 32

/-- The four fields are read back one by one. -/
theorem FunctionCallAction.isCodec : IsCodec FunctionCallAction.Fits
    FunctionCallAction.serialize FunctionCallAction.deserialize := by
  refine (isCodec_string.field methodName (fun m => isCodec_vecU8.field args
    (fun a => U64.isCodec.field gas
      (fun g => U128.isCodec.last deposit (FunctionCallAction.mk m a g) fun _ => rfl) ?_)
      ?_) ?_).congr ?_
  · intro g x h
    exact (congrArg gas h.2).symm
  · intro a x h
    exact (congrArg args h.2.2).symm
  · intro m x h
    exact (congrArg methodName h.2.2.2).symm
  · intro x
    simp [Fits]

/-- The deposit in sixteen bytes. -/
def TransferAction.serialize (a : TransferAction) : ByteStream IoError Unit :=
  a.deposit.serialize

def TransferAction.deserialize : ByteStream IoError TransferAction := do
  let deposit ← U128.deserialize
  return ⟨deposit⟩

theorem TransferAction.isCodec :
    IsCodec (fun _ => True) TransferAction.serialize TransferAction.deserialize :=
  (U128.isCodec.last deposit TransferAction.mk fun _ => rfl).congr fun _ => by simp

/-- The stake and the key. -/
def StakeAction.serialize (a : StakeAction) : ByteStream IoError Unit := do
  a.stake.serialize
  a.publicKey.serialize

def StakeAction.deserialize : ByteStream IoError StakeAction := do
  let stake ← U128.deserialize
  let publicKey ← PublicKey.deserializeReader
  return ⟨stake, publicKey⟩

/-- Every stake is read back with its key. -/
theorem StakeAction.isCodec :
    IsCodec (fun _ => True) StakeAction.serialize StakeAction.deserialize :=
  (U128.isCodec.field stake
    (fun s => PublicKey.isCodec.last publicKey (StakeAction.mk s) fun _ => rfl)
    fun _ _ h => (congrArg stake h.2).symm).congr fun _ => by simp

/-- The allowance may be absent; then there is only its tag. -/
def FunctionCallPermission.serialize (p : FunctionCallPermission) : ByteStream IoError Unit := do
  serializeOption U128.serialize p.allowance
  serializeString p.receiverId
  serializeVec serializeString p.methodNames

/-- The allowance may be absent; then there is only its tag. -/
def FunctionCallPermission.deserialize : ByteStream IoError FunctionCallPermission := do
  let allowance ← deserializeOption U128.deserialize
  let receiverId ← deserializeString
  let methodNames ← deserializeVec deserializeString
  return ⟨allowance, receiverId, methodNames⟩

/-- The receiver, the method names and their number have lengths below `2 ^ 32`. -/
def FunctionCallPermission.Fits (p : FunctionCallPermission) : Prop :=
  (asBytes p.receiverId).length < 2 ^ 32 ∧ p.methodNames.length < 2 ^ 32 ∧
    ∀ name ∈ p.methodNames, (asBytes name).length < 2 ^ 32

/-- A permission is read back with its allowance or without one. -/
theorem FunctionCallPermission.isCodec : IsCodec FunctionCallPermission.Fits
    FunctionCallPermission.serialize FunctionCallPermission.deserialize := by
  refine ((isCodec_option U128.isCodec).field allowance (fun a => isCodec_string.field receiverId
    (fun r => (isCodec_vec isCodec_string).last methodNames (FunctionCallPermission.mk a r)
      fun _ => rfl) ?_) ?_).congr ?_
  · intro r x h
    exact (congrArg receiverId h.2).symm
  · intro a x h
    exact (congrArg allowance h.2.2).symm
  · intro x
    simp [Fits]

/-- The tags of the derive, in the order of the declaration. -/
def AccessKeyPermission.variantIdx : AccessKeyPermission → ℕ
  | .FunctionCall _ => 0
  | .FullAccess => 1

/-- What stands behind the tag; full access says nothing more. -/
def AccessKeyPermission.serializeVariant : AccessKeyPermission → ByteStream IoError Unit
  | .FunctionCall permission => permission.serialize
  | .FullAccess => pure ()

def AccessKeyPermission.serialize (p : AccessKeyPermission) : ByteStream IoError Unit := do
  serializeTag p.variantIdx
  p.serializeVariant

def AccessKeyPermission.deserializeVariant : ℕ → ByteStream IoError AccessKeyPermission
  | 0 => do
    let permission ← FunctionCallPermission.deserialize
    return .FunctionCall permission
  | 1 => return .FullAccess
  | tag => unexpectedTag tag

/-- The tag selects the reader. -/
def AccessKeyPermission.deserialize : ByteStream IoError AccessKeyPermission := do
  let tag ← deserializeTag
  deserializeVariant tag

/-- Only a permission for function calls has lengths. -/
def AccessKeyPermission.Fits : AccessKeyPermission → Prop
  | .FunctionCall permission => permission.Fits
  | .FullAccess => True

/-- Every permission that fits is read back behind its own tag. -/
theorem AccessKeyPermission.isCodec : IsCodec AccessKeyPermission.Fits
    AccessKeyPermission.serialize AccessKeyPermission.deserialize := by
  refine IsCodec.tagged variantIdx (by rintro (_ | _) <;> simp [variantIdx]) fun tag => ?_
  match tag with
  | 0 =>
    refine (FunctionCallPermission.isCodec.variant FunctionCall fun _ => rfl).congr ?_
    rintro (p | _) <;> simp [variantIdx, Fits]
  | 1 =>
    refine (IsCodec.const FullAccess rfl).congr ?_
    rintro (p | _) <;> simp [variantIdx, Fits]
  | n + 2 =>
    refine (IsCodec.never _).congr ?_
    rintro (p | _) <;> simp [variantIdx]

/-- The nonce and the permission. -/
def AccessKey.serialize (k : AccessKey) : ByteStream IoError Unit := do
  k.nonce.serialize
  k.permission.serialize

def AccessKey.deserialize : ByteStream IoError AccessKey := do
  let nonce ← U64.deserialize
  let permission ← AccessKeyPermission.deserialize
  return ⟨nonce, permission⟩

def AccessKey.Fits (k : AccessKey) : Prop := k.permission.Fits

/-- An access key is read back with its nonce. -/
theorem AccessKey.isCodec : IsCodec AccessKey.Fits AccessKey.serialize AccessKey.deserialize :=
  (U64.isCodec.field nonce
    (fun n => AccessKeyPermission.isCodec.last permission (AccessKey.mk n) fun _ => rfl)
    fun _ _ h => (congrArg nonce h.2).symm).congr fun _ => by simp [Fits]

/-- The key and what it may do. -/
def AddKeyAction.serialize (a : AddKeyAction) : ByteStream IoError Unit := do
  a.publicKey.serialize
  a.accessKey.serialize

/-- The key and what it may do. -/
def AddKeyAction.deserialize : ByteStream IoError AddKeyAction := do
  let publicKey ← PublicKey.deserializeReader
  let accessKey ← AccessKey.deserialize
  return ⟨publicKey, accessKey⟩

def AddKeyAction.Fits (a : AddKeyAction) : Prop := a.accessKey.Fits

/-- The new key is read back with its access key. -/
theorem AddKeyAction.isCodec :
    IsCodec AddKeyAction.Fits AddKeyAction.serialize AddKeyAction.deserialize :=
  (PublicKey.isCodec.field publicKey
    (fun k => AccessKey.isCodec.last accessKey (AddKeyAction.mk k) fun _ => rfl)
    fun _ _ h => (congrArg publicKey h.2).symm).congr fun _ => by simp [Fits]

/-- Nothing but the key. -/
def DeleteKeyAction.serialize (a : DeleteKeyAction) : ByteStream IoError Unit :=
  a.publicKey.serialize

def DeleteKeyAction.deserialize : ByteStream IoError DeleteKeyAction := do
  let publicKey ← PublicKey.deserializeReader
  return ⟨publicKey⟩

/-- Every key that is deleted is read back. -/
theorem DeleteKeyAction.isCodec :
    IsCodec (fun _ => True) DeleteKeyAction.serialize DeleteKeyAction.deserialize :=
  (PublicKey.isCodec.last publicKey DeleteKeyAction.mk fun _ => rfl).congr fun _ => by simp

/-- The account that gets what is left. -/
def DeleteAccountAction.serialize (a : DeleteAccountAction validate) : ByteStream IoError Unit :=
  a.beneficiaryId.serialize

/-- The account that gets what is left. -/
def DeleteAccountAction.deserialize : ByteStream IoError (DeleteAccountAction validate) := do
  let beneficiaryId ← AccountId.deserialize
  return ⟨beneficiaryId⟩

/-- The name of the beneficiary fits. -/
def DeleteAccountAction.Fits (a : DeleteAccountAction validate) : Prop := a.beneficiaryId.Fits

theorem DeleteAccountAction.isCodec : IsCodec (@DeleteAccountAction.Fits validate)
    DeleteAccountAction.serialize DeleteAccountAction.deserialize :=
  (AccountId.isCodec.last beneficiaryId DeleteAccountAction.mk fun _ => rfl).congr fun _ => by
    simp [Fits]

/-- The tags of the derive, in the order of the declaration. -/
def GlobalContractDeployMode.variantIdx : GlobalContractDeployMode → ℕ
  | .CodeHash => 0
  | .AccountId => 1

/-- A variant without content is its tag. -/
def GlobalContractDeployMode.serialize (m : GlobalContractDeployMode) :
    ByteStream IoError Unit :=
  serializeTag m.variantIdx

def GlobalContractDeployMode.deserializeVariant : ℕ → ByteStream IoError GlobalContractDeployMode
  | 0 => return .CodeHash
  | 1 => return .AccountId
  | tag => unexpectedTag tag

/-- Nothing stands behind the tags. -/
def GlobalContractDeployMode.deserialize : ByteStream IoError GlobalContractDeployMode := do
  let tag ← deserializeTag
  deserializeVariant tag

/-- Both modes are read back from their tags. -/
theorem GlobalContractDeployMode.isCodec : IsCodec (fun _ => True)
    GlobalContractDeployMode.serialize GlobalContractDeployMode.deserialize := by
  have heq : GlobalContractDeployMode.serialize =
      fun m => serializeTag m.variantIdx >>= fun _ => pure () := by
    funext m
    rw [serialize, bind_pure_comp, id_map']
  rw [heq]
  refine IsCodec.tagged variantIdx (by rintro (_ | _) <;> simp [variantIdx]) fun tag => ?_
  match tag with
  | 0 =>
    refine (IsCodec.const CodeHash rfl).congr ?_
    rintro (_ | _) <;> simp [variantIdx]
  | 1 =>
    refine (IsCodec.const GlobalContractDeployMode.AccountId rfl).congr ?_
    rintro (_ | _) <;> simp [variantIdx]
  | n + 2 =>
    refine (IsCodec.never _).congr ?_
    rintro (_ | _) <;> simp [variantIdx]

/-- The code and the mode. -/
def DeployGlobalContractAction.serialize (a : DeployGlobalContractAction) :
    ByteStream IoError Unit := do
  a.code.serialize
  a.deployMode.serialize

def DeployGlobalContractAction.deserialize : ByteStream IoError DeployGlobalContractAction := do
  let code ← Base64VecU8.deserialize
  let deployMode ← GlobalContractDeployMode.deserialize
  return ⟨code, deployMode⟩

/-- The code has a length below `2 ^ 32`. -/
def DeployGlobalContractAction.Fits (a : DeployGlobalContractAction) : Prop := a.code.Fits

/-- The code is read back with its mode. -/
theorem DeployGlobalContractAction.isCodec : IsCodec DeployGlobalContractAction.Fits
    DeployGlobalContractAction.serialize DeployGlobalContractAction.deserialize :=
  (Base64VecU8.isCodec.field code
    (fun c => GlobalContractDeployMode.isCodec.last deployMode (DeployGlobalContractAction.mk c)
      fun _ => rfl)
    fun _ _ h => (congrArg code h.2).symm).congr fun _ => by simp [Fits]

/-- The tags of the derive, in the order of the declaration. -/
def GlobalContractIdentifier.variantIdx : GlobalContractIdentifier validate → ℕ
  | .CodeHash _ => 0
  | .AccountId _ => 1

/-- The hash of the code, or the account that deployed it. -/
def GlobalContractIdentifier.serializeVariant :
    GlobalContractIdentifier validate → ByteStream IoError Unit
  | .CodeHash hash => hash.serialize
  | .AccountId accountId => accountId.serialize

/-- The tag and the identifier. -/
def GlobalContractIdentifier.serialize (i : GlobalContractIdentifier validate) :
    ByteStream IoError Unit := do
  serializeTag i.variantIdx
  i.serializeVariant

def GlobalContractIdentifier.deserializeVariant :
    ℕ → ByteStream IoError (GlobalContractIdentifier validate)
  | 0 => do
    let hash ← BlockHash.deserialize
    return .CodeHash hash
  | 1 => do
    let accountId ← AccountId.deserialize
    return .AccountId accountId
  | tag => unexpectedTag tag

def GlobalContractIdentifier.deserialize :
    ByteStream IoError (GlobalContractIdentifier validate) := do
  let tag ← deserializeTag
  deserializeVariant tag

/-- Only the name of an account has a length. -/
def GlobalContractIdentifier.Fits : GlobalContractIdentifier validate → Prop
  | .CodeHash _ => True
  | .AccountId accountId => accountId.Fits

/-- An identifier that fits is read back behind its own tag. -/
theorem GlobalContractIdentifier.isCodec :
    IsCodec (@GlobalContractIdentifier.Fits validate)
      GlobalContractIdentifier.serialize GlobalContractIdentifier.deserialize := by
  refine IsCodec.tagged variantIdx (by rintro (_ | _) <;> simp [variantIdx]) fun tag => ?_
  match tag with
  | 0 =>
    refine (BlockHash.isCodec.variant CodeHash fun _ => rfl).congr ?_
    rintro (_ | _) <;> simp [variantIdx, Fits]
  | 1 =>
    refine (AccountId.isCodec.variant GlobalContractIdentifier.AccountId fun _ => rfl).congr ?_
    rintro (_ | _) <;> simp [variantIdx, Fits]
  | n + 2 =>
    refine (IsCodec.never _).congr ?_
    rintro (_ | _) <;> simp [variantIdx]

/-- The identifier of the contract. -/
def UseGlobalContractAction.serialize (a : UseGlobalContractAction validate) :
    ByteStream IoError Unit :=
  a.contractIdentifier.serialize

def UseGlobalContractAction.deserialize :
    ByteStream IoError (UseGlobalContractAction validate) := do
  let contractIdentifier ← GlobalContractIdentifier.deserialize
  return ⟨contractIdentifier⟩

def UseGlobalContractAction.Fits (a : UseGlobalContractAction validate) : Prop :=
  a.contractIdentifier.Fits

theorem UseGlobalContractAction.isCodec :
    IsCodec (@UseGlobalContractAction.Fits validate)
      UseGlobalContractAction.serialize UseGlobalContractAction.deserialize :=
  (GlobalContractIdentifier.isCodec.last contractIdentifier UseGlobalContractAction.mk
    fun _ => rfl).congr fun _ => by simp [Fits]

end Near
