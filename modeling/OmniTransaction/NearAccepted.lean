/-
# The documents of a NEAR transaction

Which documents `NearTransaction::from_json` takes, and for which transactions
(`NearTransaction.fromJson_takesExactly`): numbers as they are or in a text, keys, hashes and
signatures in each of their forms, structures as objects with other names in between or as
arrays, at every depth of the delegate actions.
-/
import OmniTransaction.NearKeyTexts
import OmniTransaction.NearSignatures
import OmniTransaction.Rearranging
import OmniTransaction.TakesExactly

open ByteOrder Rust Serde

namespace Near

variable {validate : String → Option String} {codecs : TextCodecs} {level : ℕ}

/-! ## Numbers, names, bytes and hashes -/

/-- A number below `2 ^ 64` as it is, or any number in decimal digits. -/
inductive NumberFrom (n : ℕ) : Json → Prop where
  | number (h : n < 2 ^ 64) : NumberFrom n (.int n)
  | text {s : String} (h : IsSignedNumeral 10 s n) : NumberFrom n (.str s)

/-- The text is parsed at the full width, the number is a `u64`. -/
theorem stringOrNumber_eq_ok_iff {bits : ℕ} (hbits : 64 ≤ bits) {expected : String} {doc : Json}
    {m : ℕ} : stringOrNumber bits expected level doc = .ok m ↔ NumberFrom m doc ∧ m < 2 ^ bits := by
  have hle : 2 ^ 64 ≤ 2 ^ bits := Nat.pow_le_pow_right (by decide) hbits
  constructor
  · intro h
    unfold stringOrNumber at h
    split at h
    · obtain ⟨hnumeral, hlt⟩ := parseUnsigned_eq_ok_iff.mp (Outcome.mapErr_eq_ok_iff.mp h)
      exact ⟨.text hnumeral, hlt⟩
    · rename_i i
      split_ifs at h with hrange
      obtain ⟨k, rfl⟩ := Int.eq_ofNat_of_zero_le hrange.1
      obtain rfl := Outcome.ok.inj h
      rw [Int.toNat_natCast]
      have hlt : k < 2 ^ 64 := by omega
      exact ⟨.number hlt, hlt.trans_le hle⟩
    · exact absurd h unexpected_ne_ok
  · rintro ⟨hfrom, hlt⟩
    cases hfrom with
    | number h =>
      exact (roundTrips_stringOrNumber bits expected m level).eq_ok_iff.mpr ⟨h, Nat.zero_le _⟩
    | text h => exact Outcome.mapErr_eq_ok_iff.mpr (parseUnsigned_eq_ok_iff.mpr ⟨h, hlt⟩)

def U64.ReadFrom (u : U64) : Json → Prop := NumberFrom u.val.toNat

/-- Both spellings of the number; above `2 ^ 64` only the text. -/
def U128.ReadFrom (u : U128) : Json → Prop := NumberFrom u.val.toNat

/-- A number beyond 64 bits is refused in both spellings. -/
theorem U64.takesExactly (level : ℕ) :
    TakesExactly (level + 1) (U64.fromJson level) U64.ReadFrom := by
  apply TakesExactly.of_forall
  intro doc u
  rw [U64.fromJson, Outcome.bind_eq_ok_iff]
  simp only [stringOrNumber_eq_ok_iff le_rfl]
  constructor
  · rintro ⟨m, ⟨hfrom, hlt⟩, hu⟩
    obtain rfl := Outcome.ok.inj hu
    rwa [U64.ReadFrom, UInt64.toNat_ofNat_of_lt' hlt]
  · intro hfrom
    refine ⟨_, ⟨hfrom, u.val.toNat_lt⟩, ?_⟩
    rw [UInt64.ofNat_toNat]
    rfl

/-- A text beyond 128 bits is refused. -/
theorem U128.takesExactly (level : ℕ) :
    TakesExactly (level + 1) (U128.fromJson level) U128.ReadFrom := by
  apply TakesExactly.of_forall
  intro doc u
  rw [U128.fromJson, Outcome.bind_eq_ok_iff]
  simp only [stringOrNumber_eq_ok_iff (show 64 ≤ 128 by decide)]
  constructor
  · rintro ⟨m, ⟨hfrom, hlt⟩, hu⟩
    obtain rfl := Outcome.ok.inj hu
    rwa [U128.ReadFrom, BitVec.toNat_ofNat, Nat.mod_eq_of_lt hlt]
  · intro hfrom
    refine ⟨_, ⟨hfrom, u.val.isLt⟩, ?_⟩
    rw [BitVec.ofNat_toNat, BitVec.setWidth_eq]
    rfl

def AccountId.ReadFrom (account : AccountId validate) (doc : Json) : Prop := doc = .str account.val

/-- A text is taken when it is the name of an account. -/
theorem AccountId.takesExactly (level : ℕ) :
    TakesExactly (level + 1) (@AccountId.fromJson validate level) AccountId.ReadFrom where
  sound doc account h := by
    obtain ⟨name, hname, h⟩ := Outcome.bind_eq_ok_iff.mp h
    split at h
    · rename_i account' haccount
      obtain rfl := Outcome.ok.inj h
      rw [AccountId.ReadFrom, (AccountId.ofString_eq_some_iff _ _).mp haccount]
      exact (takesExactly_string level).sound doc name hname
    · cases h
  complete doc account _ h := by
    rw [AccountId.ReadFrom] at h
    subst h
    exact (account.roundTrips level).eq_ok_iff.mpr ⟨trivial, Nat.zero_le _⟩

variable (codecs) in
/-- A text that is decoded to the bytes. -/
def Base64VecU8.ReadFrom (v : Base64VecU8) (doc : Json) : Prop :=
  ∃ s, doc = .str s ∧ codecs.base64.decode s = .ok v.val

/-- A text is taken when it is decoded. -/
theorem Base64VecU8.takesExactly (level : ℕ) :
    TakesExactly (level + 1) (Base64VecU8.fromJson codecs level) (Base64VecU8.ReadFrom codecs) := by
  apply TakesExactly.of_forall
  intro doc v
  rw [Base64VecU8.fromJson]
  simp only [Outcome.bind_eq_ok_iff, Outcome.mapErr_eq_ok_iff]
  constructor
  · rintro ⟨s, hs, b, hb, hv⟩
    obtain rfl := Outcome.ok.inj hv
    exact ⟨s, (takesExactly_string level).sound doc s hs, hb⟩
  · rintro ⟨s, rfl, hb⟩
    exact ⟨s, rfl, v.val, hb, rfl⟩

variable (codecs) in
/-- The text of the bytes, or an array of their numbers. -/
inductive BlockHash.ReadFrom (hash : BlockHash) : Json → Prop where
  | text {s : String} (h : codecs.bs58.decode s = .ok hash.val.toList) : ReadFrom hash (.str s)
  | numbers : ReadFrom hash (writeBytes hash.val.toList)

/-- A text of 32 bytes or an array of 32 numbers. -/
theorem BlockHash.takesExactly (level : ℕ) :
    TakesExactly (level + 1) (BlockHash.fromJson codecs level) (BlockHash.ReadFrom codecs) where
  sound doc hash h := by
    unfold BlockHash.fromJson at h
    split at h
    · exact .text (PublicKeyStrExt.visitStr_eq_ok_iff.mp h)
    · obtain ⟨arr, harr, h⟩ := Outcome.bind_eq_ok_iff.mp h
      obtain rfl := Outcome.ok.inj h
      rw [eq_map_of_visitBytes harr]
      exact .numbers
    · exact absurd h unexpected_ne_ok
  complete doc hash hdepth h := by
    cases h with
    | @text s h =>
      have hread : BlockHash.fromJson codecs level (.str s) = BlockHash.visitStr codecs s := by
        cases level <;> rfl
      rw [hread, PublicKeyStrExt.visitStr_eq_ok_iff]
      exact h
    | numbers =>
      exact (hash.roundTrips codecs level).eq_ok_iff.mpr ⟨trivial, Nat.lt_succ_iff.mp hdepth⟩

variable (codecs) in
/-- A key is read from what names it, and from its bytes under the name of the other type. -/
def PublicKey.ReadFrom (key : PublicKey) (doc : Json) : Prop :=
  Names codecs doc key ∨ Crossed doc key

/-- A text, or an object with one entry. -/
theorem PublicKey.takesExactly (level : ℕ) :
    TakesExactly (level + 1) (PublicKey.fromJson codecs level) (PublicKey.ReadFrom codecs) where
  sound doc key h := by
    have hread := h
    unfold PublicKey.fromJson at h
    split at h
    · exact .inl ((PublicKey.toPublicKey_eq_ok_iff codecs).mp (Outcome.mapErr_eq_ok_iff.mp h))
    · -- an object that is accepted is not too deep
      rename_i level entries
      have hdepth : (Json.obj entries).depth ≤ level + 1 := by
        obtain ⟨hlevel, hentries⟩ := PublicKey.visitMap_eq_ok_iff.mp h
        obtain ⟨tag, rfl⟩ : ∃ tag, entries = [(tag, writeBytes key.bytes)] := by
          rcases hentries with hentries | hentries
          · exact ⟨_, hentries⟩
          · exact ⟨_, hentries⟩
        exact Json.depth_obj_le_iff.mpr ⟨Nat.succ_pos _, List.forall_mem_singleton.mpr
          (Nat.lt_succ_iff.mpr (depth_writeBytes_le_iff.mpr hlevel))⟩
      exact (PublicKey.fromJson_eq_ok_iff codecs hdepth).mp hread
    · exact absurd h unexpected_ne_ok
  complete doc key hdepth h :=
    (PublicKey.fromJson_eq_ok_iff codecs (Nat.lt_succ_iff.mp hdepth)).mpr h

variable (codecs) in
/-- A text with the name of a curve in front. -/
def Signature.ReadFrom (sig : Signature) (doc : Json) : Prop :=
  ∃ s, doc = .str s ∧ TextOf codecs.bs58.decode s sig

/-- Nothing but a text is taken. -/
theorem Signature.takesExactly (level : ℕ) :
    TakesExactly (level + 1) (Signature.fromJson codecs level) (Signature.ReadFrom codecs) := by
  apply TakesExactly.of_forall
  intro doc sig
  rw [Signature.fromJson_eq_deserializeJson, Signature.deserializeJson]
  simp only [Outcome.bind_eq_ok_iff, Signature.readText_eq_ok_iff]
  constructor
  · rintro ⟨s, hs, h⟩
    exact ⟨s, (takesExactly_string level).sound doc s hs, h⟩
  · rintro ⟨s, rfl, h⟩
    exact ⟨s, rfl, h⟩

/-! ## Actions without actions inside -/

/-- A structure of which nothing is read. -/
def CreateAccountAction.ReadFrom (_ : CreateAccountAction) : Json → Prop :=
  StructFrom [] fun _ => True

/-- An object with any entries or an empty array. -/
theorem CreateAccountAction.takesExactly (level : ℕ) :
    TakesExactly (level + 1) (CreateAccountAction.fromJson level) CreateAccountAction.ReadFrom :=
  (Fields.takesExactly_start _).structFrom (by rfl) (by decide) (by simp) _

variable (codecs) in
def DeployContractAction.ReadFrom (a : DeployContractAction) : Json → Prop :=
  StructFrom ["code"] fun value => Present (Base64VecU8.ReadFrom codecs) a.code (value "code")

/-- The code must be there, in base64. -/
theorem DeployContractAction.takesExactly (level : ℕ) :
    TakesExactly (level + 1) (DeployContractAction.fromJson codecs level)
      (DeployContractAction.ReadFrom codecs) :=
  ((Fields.takesExactly_start DeployContractAction.mk).field "code"
    (.below Base64VecU8.takesExactly level)).structFrom (by rfl) (by decide) (by
      rintro ⟨code⟩ values
      simp) _

/-- The four fields, none of them optional. -/
def FunctionCallAction.ReadFrom (a : FunctionCallAction) : Json → Prop :=
  StructFrom ["method_name", "args", "gas", "deposit"] fun value =>
    Present (fun s doc => doc = .str s) a.methodName (value "method_name") ∧
    Present (fun b doc => doc = writeBytes b) a.args (value "args") ∧
    Present U64.ReadFrom a.gas (value "gas") ∧ Present U128.ReadFrom a.deposit (value "deposit")

/-- All four fields must be there. -/
theorem FunctionCallAction.takesExactly (level : ℕ) :
    TakesExactly (level + 1) (FunctionCallAction.fromJson level) FunctionCallAction.ReadFrom :=
  (((((Fields.takesExactly_start FunctionCallAction.mk).field
    "method_name" (.below takesExactly_string level)).field
    "args" (.below takesExactly_bytes level)).field
    "gas" (.below U64.takesExactly level)).field
    "deposit" (.below U128.takesExactly level)).structFrom (by rfl) (by decide) (by
      rintro ⟨methodName, args, gas, deposit⟩ values
      simp [and_assoc]) _

def TransferAction.ReadFrom (a : TransferAction) : Json → Prop :=
  StructFrom ["deposit"] fun value => Present U128.ReadFrom a.deposit (value "deposit")

theorem TransferAction.takesExactly (level : ℕ) :
    TakesExactly (level + 1) (TransferAction.fromJson level) TransferAction.ReadFrom :=
  ((Fields.takesExactly_start TransferAction.mk).field
    "deposit" (.below U128.takesExactly level)).structFrom (by rfl) (by decide) (by
      rintro ⟨deposit⟩ values
      simp) _

variable (codecs) in
/-- The stake and the validator's key. -/
def StakeAction.ReadFrom (a : StakeAction) : Json → Prop :=
  StructFrom ["stake", "public_key"] fun value =>
    Present U128.ReadFrom a.stake (value "stake") ∧
    Present (PublicKey.ReadFrom codecs) a.publicKey (value "public_key")

theorem StakeAction.takesExactly (level : ℕ) :
    TakesExactly (level + 1) (StakeAction.fromJson codecs level) (StakeAction.ReadFrom codecs) :=
  (((Fields.takesExactly_start StakeAction.mk).field
    "stake" (.below U128.takesExactly level)).field
    "public_key" (.below PublicKey.takesExactly level)).structFrom (by rfl) (by decide) (by
      rintro ⟨stake, publicKey⟩ values
      simp) _

/-- The allowance may be `null`, and in an object it may be absent. -/
def FunctionCallPermission.ReadFrom (p : FunctionCallPermission) : Json → Prop :=
  StructFrom ["allowance", "receiver_id", "method_names"] fun value =>
    Optional U128.ReadFrom p.allowance (value "allowance") ∧
    Present (fun s doc => doc = .str s) p.receiverId (value "receiver_id") ∧
    Present (ItemsFrom fun s doc => doc = .str s) p.methodNames (value "method_names")

/-- The allowance may be absent or `null`; the others must be there. -/
theorem FunctionCallPermission.takesExactly (level : ℕ) :
    TakesExactly (level + 1) (FunctionCallPermission.fromJson level)
      FunctionCallPermission.ReadFrom :=
  ((((Fields.takesExactly_start FunctionCallPermission.mk).optional
    "allowance" (.below U128.takesExactly level)).field
    "receiver_id" (.below takesExactly_string level)).field
    "method_names" (.below (fun level => (TakesExactly.below takesExactly_string level).vec)
      level)).structFrom (by rfl) (by decide) (by
      rintro ⟨allowance, receiverId, methodNames⟩ values
      simp [and_assoc]) _

/-- The name of the variant, with the permission behind it or alone. -/
def AccessKeyPermission.ReadFrom : AccessKeyPermission → Json → Prop
  | .FunctionCall permission => Tagged "FunctionCall" FunctionCallPermission.ReadFrom permission
  | .FullAccess => TagOnly "FullAccess"

/-- The two variants have the two forms of an enumeration. -/
theorem AccessKeyPermission.takesExactly (level : ℕ) :
    TakesExactly (level + 1) (AccessKeyPermission.fromJson level) AccessKeyPermission.ReadFrom where
  sound doc p h := by
    refine readEnum_sound ?_ h
    rw [AccessKeyPermission.variants, List.forall_mem_cons, List.forall_mem_singleton]
    exact ⟨Variant.soundAt_of (.below FunctionCallPermission.takesExactly level) fun _ _ => id,
      .inl rfl, .inr rfl⟩
  complete doc p hdepth h := by
    cases p with
    | FunctionCall permission =>
      exact readEnum_tagged rfl (.below FunctionCallPermission.takesExactly level) hdepth h
    | FullAccess => exact readEnum_tagOnly rfl hdepth h

def AccessKey.ReadFrom (k : AccessKey) : Json → Prop :=
  StructFrom ["nonce", "permission"] fun value =>
    Present U64.ReadFrom k.nonce (value "nonce") ∧
    Present AccessKeyPermission.ReadFrom k.permission (value "permission")

theorem AccessKey.takesExactly (level : ℕ) :
    TakesExactly (level + 1) (AccessKey.fromJson level) AccessKey.ReadFrom :=
  (((Fields.takesExactly_start AccessKey.mk).field
    "nonce" (.below U64.takesExactly level)).field
    "permission" (.below AccessKeyPermission.takesExactly level)).structFrom (by rfl) (by decide)
      (by
        rintro ⟨nonce, permission⟩ values
        simp) _

variable (codecs) in
/-- The key and its access key. -/
def AddKeyAction.ReadFrom (a : AddKeyAction) : Json → Prop :=
  StructFrom ["public_key", "access_key"] fun value =>
    Present (PublicKey.ReadFrom codecs) a.publicKey (value "public_key") ∧
    Present AccessKey.ReadFrom a.accessKey (value "access_key")

theorem AddKeyAction.takesExactly (level : ℕ) :
    TakesExactly (level + 1) (AddKeyAction.fromJson codecs level) (AddKeyAction.ReadFrom codecs) :=
  (((Fields.takesExactly_start AddKeyAction.mk).field
    "public_key" (.below PublicKey.takesExactly level)).field
    "access_key" (.below AccessKey.takesExactly level)).structFrom (by rfl) (by decide) (by
      rintro ⟨publicKey, accessKey⟩ values
      simp) _

variable (codecs) in
def DeleteKeyAction.ReadFrom (a : DeleteKeyAction) : Json → Prop :=
  StructFrom ["public_key"] fun value =>
    Present (PublicKey.ReadFrom codecs) a.publicKey (value "public_key")

theorem DeleteKeyAction.takesExactly (level : ℕ) :
    TakesExactly (level + 1) (DeleteKeyAction.fromJson codecs level)
      (DeleteKeyAction.ReadFrom codecs) :=
  ((Fields.takesExactly_start DeleteKeyAction.mk).field
    "public_key" (.below PublicKey.takesExactly level)).structFrom (by rfl) (by decide) (by
      rintro ⟨publicKey⟩ values
      simp) _

def DeleteAccountAction.ReadFrom (a : DeleteAccountAction validate) : Json → Prop :=
  StructFrom ["beneficiary_id"] fun value =>
    Present AccountId.ReadFrom a.beneficiaryId (value "beneficiary_id")

theorem DeleteAccountAction.takesExactly (level : ℕ) :
    TakesExactly (level + 1) (@DeleteAccountAction.fromJson validate level)
      DeleteAccountAction.ReadFrom :=
  ((Fields.takesExactly_start DeleteAccountAction.mk).field
    "beneficiary_id" (.below AccountId.takesExactly level)).structFrom (by rfl) (by decide) (by
      rintro ⟨beneficiaryId⟩ values
      simp) _

/-- The name of the mode alone. -/
def GlobalContractDeployMode.ReadFrom : GlobalContractDeployMode → Json → Prop
  | .CodeHash => TagOnly "CodeHash"
  | .AccountId => TagOnly "AccountId"

/-- A mode is its name, or an object with the name and `null`. -/
theorem GlobalContractDeployMode.takesExactly (level : ℕ) :
    TakesExactly (level + 1) (GlobalContractDeployMode.fromJson level)
      GlobalContractDeployMode.ReadFrom where
  sound doc m h := by
    refine readEnum_sound ?_ h
    rw [GlobalContractDeployMode.variants, List.forall_mem_cons, List.forall_mem_singleton]
    exact ⟨⟨.inl rfl, .inr rfl⟩, .inl rfl, .inr rfl⟩
  complete doc m hdepth h := by
    cases m with
    | CodeHash => exact readEnum_tagOnly rfl hdepth h
    | AccountId => exact readEnum_tagOnly rfl hdepth h

variable (codecs) in
def DeployGlobalContractAction.ReadFrom (a : DeployGlobalContractAction) : Json → Prop :=
  StructFrom ["code", "deploy_mode"] fun value =>
    Present (Base64VecU8.ReadFrom codecs) a.code (value "code") ∧
    Present GlobalContractDeployMode.ReadFrom a.deployMode (value "deploy_mode")

theorem DeployGlobalContractAction.takesExactly (level : ℕ) :
    TakesExactly (level + 1) (DeployGlobalContractAction.fromJson codecs level)
      (DeployGlobalContractAction.ReadFrom codecs) :=
  (((Fields.takesExactly_start DeployGlobalContractAction.mk).field
    "code" (.below Base64VecU8.takesExactly level)).field
    "deploy_mode" (.below GlobalContractDeployMode.takesExactly level)).structFrom (by rfl)
      (by decide) (by
        rintro ⟨code, deployMode⟩ values
        simp) _

variable (codecs) in
/-- A hash or an account behind the name of the variant. -/
def GlobalContractIdentifier.ReadFrom : GlobalContractIdentifier validate → Json → Prop
  | .CodeHash hash => Tagged "CodeHash" (BlockHash.ReadFrom codecs) hash
  | .AccountId accountId => Tagged "AccountId" AccountId.ReadFrom accountId

theorem GlobalContractIdentifier.takesExactly (level : ℕ) :
    TakesExactly (level + 1) (@GlobalContractIdentifier.fromJson validate codecs level)
      (GlobalContractIdentifier.ReadFrom codecs) where
  sound doc i h := by
    refine readEnum_sound ?_ h
    rw [GlobalContractIdentifier.variants, List.forall_mem_cons, List.forall_mem_singleton]
    exact ⟨Variant.soundAt_of (.below BlockHash.takesExactly level) fun _ _ => id,
      Variant.soundAt_of (.below AccountId.takesExactly level) fun _ _ => id⟩
  complete doc i hdepth h := by
    cases i with
    | CodeHash hash => exact readEnum_tagged rfl (.below BlockHash.takesExactly level) hdepth h
    | AccountId accountId =>
      exact readEnum_tagged rfl (.below AccountId.takesExactly level) hdepth h

variable (codecs) in
def UseGlobalContractAction.ReadFrom (a : UseGlobalContractAction validate) : Json → Prop :=
  StructFrom ["contract_identifier"] fun value =>
    Present (GlobalContractIdentifier.ReadFrom codecs) a.contractIdentifier
      (value "contract_identifier")

theorem UseGlobalContractAction.takesExactly (level : ℕ) :
    TakesExactly (level + 1) (@UseGlobalContractAction.fromJson validate codecs level)
      (UseGlobalContractAction.ReadFrom codecs) :=
  ((Fields.takesExactly_start UseGlobalContractAction.mk).field
    "contract_identifier" (.below GlobalContractIdentifier.takesExactly level)).structFrom
      (by rfl) (by decide) (by
        rintro ⟨contractIdentifier⟩ values
        simp) _

/-! ## Actions with actions inside -/

section

variable (codecs : TextCodecs)

mutual

/-- An action is read from the content under its name. -/
def Action.ReadFrom : Action validate → Json → Prop
  | .CreateAccount action, doc => Tagged "CreateAccount" CreateAccountAction.ReadFrom action doc
  | .DeployContract action, doc =>
    Tagged "DeployContract" (DeployContractAction.ReadFrom codecs) action doc
  | .FunctionCall action, doc => Tagged "FunctionCall" FunctionCallAction.ReadFrom action doc
  | .Transfer action, doc => Tagged "Transfer" TransferAction.ReadFrom action doc
  | .Stake action, doc => Tagged "Stake" (StakeAction.ReadFrom codecs) action doc
  | .AddKey action, doc => Tagged "AddKey" (AddKeyAction.ReadFrom codecs) action doc
  | .DeleteKey action, doc => Tagged "DeleteKey" (DeleteKeyAction.ReadFrom codecs) action doc
  | .DeleteAccount action, doc => Tagged "DeleteAccount" DeleteAccountAction.ReadFrom action doc
  | .Delegate action, doc => ∃ value, doc = .obj [("Delegate", value)] ∧ action.ReadFrom value
  | .DeployGlobalContract action, doc =>
    Tagged "DeployGlobalContract" (DeployGlobalContractAction.ReadFrom codecs) action doc
  | .UseGlobalContract action, doc =>
    Tagged "UseGlobalContract" (UseGlobalContractAction.ReadFrom codecs) action doc

/-- The delegate action and the signature. -/
def SignedDelegateAction.ReadFrom : SignedDelegateAction validate → Json → Prop
  | ⟨delegateAction, signature⟩, doc =>
    StructFrom ["delegate_action", "signature"] (fun value =>
      (∃ d, value "delegate_action" = some d ∧ delegateAction.ReadFrom d) ∧
      Present (Signature.ReadFrom codecs) signature (value "signature")) doc

/-- The six fields, the actions item by item. -/
def DelegateAction.ReadFrom : DelegateAction validate → Json → Prop
  | ⟨senderId, receiverId, actions, nonce, maxBlockHeight, publicKey⟩, doc =>
    StructFrom ["sender_id", "receiver_id", "actions", "nonce", "max_block_height", "public_key"]
      (fun value =>
        Present AccountId.ReadFrom senderId (value "sender_id") ∧
        Present AccountId.ReadFrom receiverId (value "receiver_id") ∧
        (∃ items, value "actions" = some (.arr items) ∧
          NonDelegateAction.AllReadFrom actions items) ∧
        Present U64.ReadFrom nonce (value "nonce") ∧
        Present U64.ReadFrom maxBlockHeight (value "max_block_height") ∧
        Present (PublicKey.ReadFrom codecs) publicKey (value "public_key")) doc

/-- The actions are read from the items one by one. -/
def NonDelegateAction.AllReadFrom : List (NonDelegateAction validate) → List Json → Prop
  | [], items => items = []
  | ⟨action⟩ :: actions, items => ∃ item rest, items = item :: rest ∧ action.ReadFrom item ∧
    NonDelegateAction.AllReadFrom actions rest

end

/-- Any action is taken, as `NonDelegateAction::try_from` is not called. -/
def NonDelegateAction.ReadFrom (a : NonDelegateAction validate) (doc : Json) : Prop :=
  a.action.ReadFrom codecs doc

/-- The recursion goes along both lists. -/
theorem NonDelegateAction.allReadFrom_iff {actions : List (NonDelegateAction validate)}
    {items : List Json} : NonDelegateAction.AllReadFrom codecs actions items ↔
      List.Forall₂ (NonDelegateAction.ReadFrom codecs) actions items := by
  induction actions generalizing items with
  | nil => rw [NonDelegateAction.AllReadFrom, List.forall₂_nil_left_iff]
  | cons a actions ih =>
    obtain ⟨action⟩ := a
    rw [NonDelegateAction.AllReadFrom, List.forall₂_cons_left_iff]
    simp only [ih]
    constructor
    · rintro ⟨item, rest, rfl, haction, hrest⟩
      exact ⟨item, rest, haction, hrest, rfl⟩
    · rintro ⟨item, rest, haction, hrest, rfl⟩
      exact ⟨item, rest, rfl, haction, hrest⟩

/-- The form of a structure, by the projections. -/
theorem SignedDelegateAction.readFrom_iff {a : SignedDelegateAction validate} {doc : Json} :
    a.ReadFrom codecs doc ↔ StructFrom ["delegate_action", "signature"] (fun value =>
      Present (DelegateAction.ReadFrom codecs) a.delegateAction (value "delegate_action") ∧
      Present (Signature.ReadFrom codecs) a.signature (value "signature")) doc := by
  obtain ⟨delegateAction, signature⟩ := a
  rw [SignedDelegateAction.ReadFrom]
  rfl

/-- The form of a structure, by the projections. -/
theorem DelegateAction.readFrom_iff {d : DelegateAction validate} {doc : Json} :
    d.ReadFrom codecs doc ↔ StructFrom
      ["sender_id", "receiver_id", "actions", "nonce", "max_block_height", "public_key"]
      (fun value =>
        Present AccountId.ReadFrom d.senderId (value "sender_id") ∧
        Present AccountId.ReadFrom d.receiverId (value "receiver_id") ∧
        Present (ItemsFrom (NonDelegateAction.ReadFrom codecs)) d.actions (value "actions") ∧
        Present U64.ReadFrom d.nonce (value "nonce") ∧
        Present U64.ReadFrom d.maxBlockHeight (value "max_block_height") ∧
        Present (PublicKey.ReadFrom codecs) d.publicKey (value "public_key")) doc := by
  obtain ⟨senderId, receiverId, actions, nonce, maxBlockHeight, publicKey⟩ := d
  have hactions : ∀ o : Option Json, (∃ items, o = some (.arr items) ∧
      NonDelegateAction.AllReadFrom codecs actions items) ↔
        Present (ItemsFrom (NonDelegateAction.ReadFrom codecs)) actions o := by
    intro o
    simp only [NonDelegateAction.allReadFrom_iff, Present, ItemsFrom]
    constructor
    · rintro ⟨items, ho, hitems⟩
      exact ⟨.arr items, ho, items, rfl, hitems⟩
    · rintro ⟨_, ho, items, rfl, hitems⟩
      exact ⟨items, ho, hitems⟩
  rw [DelegateAction.ReadFrom]
  simp only [hactions]

end

/-- Ten variants do not nest; the eleventh is as good as the given reader. -/
theorem Action.takesExactlyWith {delegate : Json → Outcome DeError (SignedDelegateAction validate)}
    (h : TakesExactly level delegate (SignedDelegateAction.ReadFrom codecs)) :
    TakesExactly (level + 1) (Action.fromJsonWith codecs delegate level)
      (Action.ReadFrom codecs) where
  sound doc a ha := by
    refine readEnum_sound ?_ ha
    simp only [Action.variants, List.forall_mem_cons]
    exact ⟨Variant.soundAt_of (.below CreateAccountAction.takesExactly level) fun _ _ => id,
      Variant.soundAt_of (.below DeployContractAction.takesExactly level) fun _ _ => id,
      Variant.soundAt_of (.below FunctionCallAction.takesExactly level) fun _ _ => id,
      Variant.soundAt_of (.below TransferAction.takesExactly level) fun _ _ => id,
      Variant.soundAt_of (.below StakeAction.takesExactly level) fun _ _ => id,
      Variant.soundAt_of (.below AddKeyAction.takesExactly level) fun _ _ => id,
      Variant.soundAt_of (.below DeleteKeyAction.takesExactly level) fun _ _ => id,
      Variant.soundAt_of (.below DeleteAccountAction.takesExactly level) fun _ _ => id,
      Variant.soundAt_of h fun _ _ => id,
      Variant.soundAt_of (.below DeployGlobalContractAction.takesExactly level) fun _ _ => id,
      Variant.soundAt_of (.below UseGlobalContractAction.takesExactly level) fun _ _ => id,
      List.forall_mem_nil _⟩
  complete doc a hdepth ha := by
    cases a with
    | CreateAccount action =>
      exact readEnum_tagged rfl (.below CreateAccountAction.takesExactly level) hdepth ha
    | DeployContract action =>
      exact readEnum_tagged rfl (.below DeployContractAction.takesExactly level) hdepth ha
    | FunctionCall action =>
      exact readEnum_tagged rfl (.below FunctionCallAction.takesExactly level) hdepth ha
    | Transfer action =>
      exact readEnum_tagged rfl (.below TransferAction.takesExactly level) hdepth ha
    | Stake action => exact readEnum_tagged rfl (.below StakeAction.takesExactly level) hdepth ha
    | AddKey action => exact readEnum_tagged rfl (.below AddKeyAction.takesExactly level) hdepth ha
    | DeleteKey action =>
      exact readEnum_tagged rfl (.below DeleteKeyAction.takesExactly level) hdepth ha
    | DeleteAccount action =>
      exact readEnum_tagged rfl (.below DeleteAccountAction.takesExactly level) hdepth ha
    | Delegate action => exact readEnum_tagged rfl h hdepth ha
    | DeployGlobalContract action =>
      exact readEnum_tagged rfl (.below DeployGlobalContractAction.takesExactly level) hdepth ha
    | UseGlobalContract action =>
      exact readEnum_tagged rfl (.below UseGlobalContractAction.takesExactly level) hdepth ha

/-- The signature next to what the given reader takes. -/
theorem SignedDelegateAction.takesExactlyWith
    {delegateAction : Json → Outcome DeError (DelegateAction validate)}
    (h : TakesExactly level delegateAction (DelegateAction.ReadFrom codecs)) :
    TakesExactly (level + 1) (SignedDelegateAction.fromJsonWith codecs delegateAction level)
      (SignedDelegateAction.ReadFrom codecs) := by
  refine TakesExactly.congr ((((Fields.takesExactly_start (@SignedDelegateAction.mk validate)).field
    "delegate_action" h).field
    "signature" (.below Signature.takesExactly level)).structFrom (by rfl) (by decide) ?_ _)
      fun a doc => (SignedDelegateAction.readFrom_iff codecs).symm
  rintro ⟨delegateAction, signature⟩ values
  simp

/-- The other fields next to what the given reader takes. -/
theorem DelegateAction.takesExactlyWith
    {nonDelegates : Json → Outcome DeError (List (NonDelegateAction validate))}
    (h : TakesExactly level nonDelegates (ItemsFrom (NonDelegateAction.ReadFrom codecs))) :
    TakesExactly (level + 1) (DelegateAction.fromJsonWith codecs nonDelegates level)
      (DelegateAction.ReadFrom codecs) := by
  refine TakesExactly.congr ((((((((Fields.takesExactly_start (@DelegateAction.mk validate)).field
    "sender_id" (.below AccountId.takesExactly level)).field
    "receiver_id" (.below AccountId.takesExactly level)).field
    "actions" h).field
    "nonce" (.below U64.takesExactly level)).field
    "max_block_height" (.below U64.takesExactly level)).field
    "public_key" (.below PublicKey.takesExactly level)).structFrom (by rfl) (by decide) ?_ _)
      fun d doc => (DelegateAction.readFrom_iff codecs).symm
  rintro ⟨senderId, receiverId, actions, nonce, maxBlockHeight, publicKey⟩ values
  simp [and_assoc]

/-- The wrapper takes every action, also a delegate action. -/
theorem NonDelegateAction.takesExactlyWith {action : Json → Outcome DeError (Action validate)}
    (h : TakesExactly level action (Action.ReadFrom codecs)) :
    TakesExactly level (NonDelegateAction.fromJsonWith action)
      (NonDelegateAction.ReadFrom codecs) := by
  refine (h.map NonDelegateAction.mk).congr fun a doc => ?_
  obtain ⟨action⟩ := a
  simp [NonDelegateAction.ReadFrom]

/-- The four readers that call one another, level by level. -/
theorem Action.takesExactly_nested (codecs : TextCodecs) (level : ℕ) :
    TakesExactly (level + 1) (@Action.fromJson validate codecs level) (Action.ReadFrom codecs) ∧
    TakesExactly (level + 1) (@SignedDelegateAction.fromJson validate codecs level)
      (SignedDelegateAction.ReadFrom codecs) ∧
    TakesExactly (level + 1) (@DelegateAction.fromJson validate codecs level)
      (DelegateAction.ReadFrom codecs) ∧
    TakesExactly (level + 1) (@NonDelegateAction.vecFromJson validate codecs level)
      (ItemsFrom (NonDelegateAction.ReadFrom codecs)) := by
  induction level with
  | zero =>
    exact ⟨Action.takesExactlyWith .closed, SignedDelegateAction.takesExactlyWith .closed,
      DelegateAction.takesExactlyWith .closed, TakesExactly.vec .closed⟩
  | succ level ih =>
    obtain ⟨haction, hsigned, hdelegate, hvec⟩ := ih
    exact ⟨Action.takesExactlyWith hsigned, SignedDelegateAction.takesExactlyWith hdelegate,
      DelegateAction.takesExactlyWith hvec,
      TakesExactly.vec (NonDelegateAction.takesExactlyWith haction)⟩

/-! ## Transactions -/

namespace NearTransaction

variable (codecs) in
/-- The six fields of a transaction. -/
def ReadFrom (tx : NearTransaction validate) : Json → Prop :=
  StructFrom ["signer_id", "signer_public_key", "nonce", "receiver_id", "block_hash", "actions"]
    fun value =>
      Present AccountId.ReadFrom tx.signerId (value "signer_id") ∧
      Present (PublicKey.ReadFrom codecs) tx.signerPublicKey (value "signer_public_key") ∧
      Present U64.ReadFrom tx.nonce (value "nonce") ∧
      Present AccountId.ReadFrom tx.receiverId (value "receiver_id") ∧
      Present (BlockHash.ReadFrom codecs) tx.blockHash (value "block_hash") ∧
      Present (ItemsFrom (Action.ReadFrom codecs)) tx.actions (value "actions")

/-- The reader of transactions takes these documents, within the levels. -/
theorem takesExactly (level : ℕ) :
    TakesExactly (level + 1) (@fromDocument validate codecs level) (ReadFrom codecs) :=
  (((((((Fields.takesExactly_start (@NearTransaction.mk validate)).field
    "signer_id" (.below AccountId.takesExactly level)).field
    "signer_public_key" (.below PublicKey.takesExactly level)).field
    "nonce" (.below U64.takesExactly level)).field
    "receiver_id" (.below AccountId.takesExactly level)).field
    "block_hash" (.below BlockHash.takesExactly level)).field
    "actions" (.below (fun level => (TakesExactly.below (fun level =>
      (Action.takesExactly_nested codecs level).1) level).vec) level)).structFrom (by rfl)
      (by decide) (by
        rintro ⟨signerId, signerPublicKey, nonce, receiverId, blockHash, actions⟩ values
        simp [and_assoc]) _

/-- What `from_json` takes. -/
theorem fromJson_takesExactly (codecs : TextCodecs) (parse : String → Option Json)
    (text : String) (tx : NearTransaction validate) :
    (fromJson codecs parse text = .ok tx → ∃ doc, parse text = some doc ∧ tx.ReadFrom codecs doc) ∧
    ∀ doc, parse text = some doc → doc.depth ≤ recursionLimit →
      (fromJson codecs parse text = .ok tx ↔ tx.ReadFrom codecs doc) :=
  (takesExactly recursionLimit).fromStr parse text tx

/-- A payment of one NEAR: arrays for the structures, and texts for the numbers. -/
def oneNearDocument : Json :=
  .arr [.str alice.val, sampleKey.toJson, .str "+1", .str bob.val,
    writeBytes (List.replicate 32 4),
    .arr [.obj [("CreateAccount", .arr [])],
      .obj [("Transfer", .arr [.str "1000000000000000000000000"])]]]

/-- The amount stands there as a text. -/
theorem readFrom_oneNearDocument :
    (payment 1000000000000000000000000).ReadFrom sampleCodecs oneNearDocument := by
  have hone : IsSignedNumeral 10 "+1" 1 := .inr ⟨"1", rfl, by decide, by decide⟩
  have hamount : IsSignedNumeral 10 "1000000000000000000000000" 1000000000000000000000000 :=
    .inl ⟨by decide, by decide⟩
  have hkey : sampleKey.ReadFrom sampleCodecs sampleKey.toJson := .inl (.ed25519 _)
  have htransfer : (TransferAction.mk ⟨1000000000000000000000000⟩).ReadFrom
      (.arr [.str "1000000000000000000000000"]) := ⟨rfl, _, rfl, .text hamount⟩
  exact ⟨rfl, ⟨_, rfl, rfl⟩, ⟨_, rfl, hkey⟩, ⟨_, rfl, .text hone⟩, ⟨_, rfl, rfl⟩,
    ⟨_, rfl, .numbers⟩, ⟨_, rfl, _, rfl, .cons ⟨_, rfl, rfl, trivial⟩
      (.cons ⟨_, rfl, htransfer⟩ .nil)⟩⟩

/-- The document of one NEAR is taken. -/
theorem fromJson_takesExactly_oneNearDocument :
    fromJson sampleCodecs (parserOf oneNearDocument) oneNearDocument.compact =
      .ok (payment 1000000000000000000000000) :=
  ((fromJson_takesExactly sampleCodecs (parserOf oneNearDocument) oneNearDocument.compact
    (payment 1000000000000000000000000)).2 oneNearDocument (parserOf_compact _)
    (by decide)).mpr readFrom_oneNearDocument

end NearTransaction

end Near
