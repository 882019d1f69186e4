/-
# What all readers of a NEAR transaction have in common

A `ReaderProperty` holds of `Deserialize for NearTransaction`, and of every reader on the way
to it through the nested delegate actions, when it holds of the readers of numbers, names,
keys, hashes, signatures and bytes.
-/
import OmniTransaction.NearDocuments
import OmniTransaction.ReaderProperties

open Rust Serde

namespace Near

variable {validate : String → Option String}

/-! ## Readers without others inside -/

/-- A structure without fields uses no other reader. -/
theorem CreateAccountAction.holds (Φ : ReaderProperty) (level : ℕ) :
    Φ.Holds (CreateAccountAction.fromJson level) :=
  Φ.struct (Φ.start _) _ level

/-- An enumeration of names uses no other reader. -/
theorem GlobalContractDeployMode.holds (Φ : ReaderProperty) (level : ℕ) :
    Φ.Holds (GlobalContractDeployMode.fromJson level) := by
  refine Φ.enum ?_ level
  rw [GlobalContractDeployMode.variants, List.forall_mem_cons, List.forall_mem_singleton]
  exact ⟨trivial, trivial⟩

/-- The property holds of the readers that are not derived, and of a signed delegate action
if it holds of the delegate action in it. -/
structure LeavesHold (Φ : ReaderProperty) (validate : String → Option String)
    (codecs : TextCodecs) : Prop where
  string : ∀ level, Φ.Holds (readString level)
  bytes : ∀ level, Φ.Holds (readBytes level)
  u64 : ∀ level, Φ.Holds (U64.fromJson level)
  u128 : ∀ level, Φ.Holds (U128.fromJson level)
  accountId : ∀ level, Φ.Holds (@AccountId.fromJson validate level)
  base64 : ∀ level, Φ.Holds (Base64VecU8.fromJson codecs level)
  blockHash : ∀ level, Φ.Holds (BlockHash.fromJson codecs level)
  publicKey : ∀ level, Φ.Holds (PublicKey.fromJson codecs level)
  signedDelegateActionWith : ∀ {delegateAction : Json → Outcome DeError (DelegateAction validate)},
    Φ.Holds delegateAction → ∀ level,
      Φ.Holds (SignedDelegateAction.fromJsonWith codecs delegateAction level)

/-- For a property of single readers, the two fields are enough. -/
theorem SignedDelegateAction.holdsWith {Φ : ReaderProperty} {codecs : TextCodecs}
    (hsignature : ∀ level, Φ.Holds (Signature.fromJson codecs level))
    {delegateAction : Json → Outcome DeError (DelegateAction validate)}
    (hdelegate : Φ.Holds delegateAction) (level : ℕ) :
    Φ.Holds (SignedDelegateAction.fromJsonWith codecs delegateAction level) :=
  Φ.struct (Φ.field (Φ.field (Φ.start _)
    "delegate_action" hdelegate)
    "signature" (Φ.below hsignature level)) _ level

namespace LeavesHold

variable {Φ : ReaderProperty} {codecs : TextCodecs} (h : LeavesHold Φ validate codecs)

include h

/-! ## Actions without actions inside -/

/-- The code is a base64 text. -/
theorem deployContractAction (level : ℕ) : Φ.Holds (DeployContractAction.fromJson codecs level) :=
  Φ.struct (Φ.field (Φ.start _) "code" (Φ.below h.base64 level)) _ level

/-- A name, bytes and two numbers. -/
theorem functionCallAction (level : ℕ) : Φ.Holds (FunctionCallAction.fromJson level) :=
  Φ.struct (Φ.field (Φ.field (Φ.field (Φ.field (Φ.start _)
    "method_name" (Φ.below h.string level))
    "args" (Φ.below h.bytes level))
    "gas" (Φ.below h.u64 level))
    "deposit" (Φ.below h.u128 level)) _ level

theorem transferAction (level : ℕ) : Φ.Holds (TransferAction.fromJson level) :=
  Φ.struct (Φ.field (Φ.start _) "deposit" (Φ.below h.u128 level)) _ level

/-- A number and a key. -/
theorem stakeAction (level : ℕ) : Φ.Holds (StakeAction.fromJson codecs level) :=
  Φ.struct (Φ.field (Φ.field (Φ.start _)
    "stake" (Φ.below h.u128 level))
    "public_key" (Φ.below h.publicKey level)) _ level

/-- A number that may be absent, a name and a list of names. -/
theorem functionCallPermission (level : ℕ) : Φ.Holds (FunctionCallPermission.fromJson level) :=
  Φ.struct (Φ.field (Φ.field (Φ.optional (Φ.start _)
    "allowance" (Φ.below h.u128 level))
    "receiver_id" (Φ.below h.string level))
    "method_names" (Φ.below (Φ.vecBelow h.string) level)) _ level

/-- The permission for function calls is the one variant with content. -/
theorem accessKeyPermission (level : ℕ) : Φ.Holds (AccessKeyPermission.fromJson level) := by
  refine Φ.enum ?_ level
  rw [AccessKeyPermission.variants, List.forall_mem_cons, List.forall_mem_singleton]
  exact ⟨Φ.variant (Φ.below h.functionCallPermission level) _, trivial⟩

theorem accessKey (level : ℕ) : Φ.Holds (AccessKey.fromJson level) :=
  Φ.struct (Φ.field (Φ.field (Φ.start _)
    "nonce" (Φ.below h.u64 level))
    "permission" (Φ.below h.accessKeyPermission level)) _ level

/-- A key and an access key. -/
theorem addKeyAction (level : ℕ) : Φ.Holds (AddKeyAction.fromJson codecs level) :=
  Φ.struct (Φ.field (Φ.field (Φ.start _)
    "public_key" (Φ.below h.publicKey level))
    "access_key" (Φ.below h.accessKey level)) _ level

theorem deleteKeyAction (level : ℕ) : Φ.Holds (DeleteKeyAction.fromJson codecs level) :=
  Φ.struct (Φ.field (Φ.start _) "public_key" (Φ.below h.publicKey level)) _ level

theorem deleteAccountAction (level : ℕ) :
    Φ.Holds (@DeleteAccountAction.fromJson validate level) :=
  Φ.struct (Φ.field (Φ.start _) "beneficiary_id" (Φ.below h.accountId level)) _ level

/-- The code and the mode. -/
theorem deployGlobalContractAction (level : ℕ) :
    Φ.Holds (DeployGlobalContractAction.fromJson codecs level) :=
  Φ.struct (Φ.field (Φ.field (Φ.start _)
    "code" (Φ.below h.base64 level))
    "deploy_mode" (Φ.below (GlobalContractDeployMode.holds Φ) level)) _ level

/-- A hash or an account. -/
theorem globalContractIdentifier (level : ℕ) :
    Φ.Holds (@GlobalContractIdentifier.fromJson validate codecs level) := by
  refine Φ.enum ?_ level
  rw [GlobalContractIdentifier.variants, List.forall_mem_cons, List.forall_mem_singleton]
  exact ⟨Φ.variant (Φ.below h.blockHash level) _, Φ.variant (Φ.below h.accountId level) _⟩

theorem useGlobalContractAction (level : ℕ) :
    Φ.Holds (@UseGlobalContractAction.fromJson validate codecs level) :=
  Φ.struct (Φ.field (Φ.start _)
    "contract_identifier" (Φ.below h.globalContractIdentifier level)) _ level

/-! ## Actions with actions inside -/

/-- An action, given a reader of signed delegate actions for the one variant that nests. -/
theorem actionWith {delegate : Json → Outcome DeError (SignedDelegateAction validate)}
    (hdelegate : Φ.Holds delegate) (level : ℕ) :
    Φ.Holds (Action.fromJsonWith codecs delegate level) := by
  refine Φ.enum ?_ level
  simp only [Action.variants, List.forall_mem_cons]
  exact ⟨Φ.variant (Φ.below (CreateAccountAction.holds Φ) level) _,
    Φ.variant (Φ.below h.deployContractAction level) _,
    Φ.variant (Φ.below h.functionCallAction level) _,
    Φ.variant (Φ.below h.transferAction level) _,
    Φ.variant (Φ.below h.stakeAction level) _,
    Φ.variant (Φ.below h.addKeyAction level) _,
    Φ.variant (Φ.below h.deleteKeyAction level) _,
    Φ.variant (Φ.below h.deleteAccountAction level) _,
    Φ.variant hdelegate _,
    Φ.variant (Φ.below h.deployGlobalContractAction level) _,
    Φ.variant (Φ.below h.useGlobalContractAction level) _, List.forall_mem_nil _⟩

/-- A delegate action, given a reader for the list of its actions. -/
theorem delegateActionWith
    {nonDelegates : Json → Outcome DeError (List (NonDelegateAction validate))}
    (hactions : Φ.Holds nonDelegates) (level : ℕ) :
    Φ.Holds (DelegateAction.fromJsonWith codecs nonDelegates level) :=
  Φ.struct (Φ.field (Φ.field (Φ.field (Φ.field (Φ.field (Φ.field (Φ.start _)
    "sender_id" (Φ.below h.accountId level))
    "receiver_id" (Φ.below h.accountId level))
    "actions" hactions)
    "nonce" (Φ.below h.u64 level))
    "max_block_height" (Φ.below h.u64 level))
    "public_key" (Φ.below h.publicKey level)) _ level

/-- The four readers that call one another, level by level. -/
theorem nested (level : ℕ) :
    Φ.Holds (@Action.fromJson validate codecs level) ∧
    Φ.Holds (@SignedDelegateAction.fromJson validate codecs level) ∧
    Φ.Holds (@DelegateAction.fromJson validate codecs level) ∧
    Φ.Holds (@NonDelegateAction.vecFromJson validate codecs level) := by
  induction level with
  | zero =>
    exact ⟨h.actionWith Φ.closed 0, h.signedDelegateActionWith Φ.closed 0,
      h.delegateActionWith Φ.closed 0, Φ.vec Φ.closed 0⟩
  | succ level ih =>
    obtain ⟨haction, hsigned, hdelegate, hvec⟩ := ih
    exact ⟨h.actionWith hsigned _, h.signedDelegateActionWith hdelegate _,
      h.delegateActionWith hvec _, Φ.vec (Φ.map haction NonDelegateAction.mk) _⟩

/-- The whole transaction, its actions nested to any depth. -/
theorem nearTransaction (level : ℕ) :
    Φ.Holds (@NearTransaction.fromDocument validate codecs level) :=
  Φ.struct (Φ.field (Φ.field (Φ.field (Φ.field (Φ.field (Φ.field (Φ.start _)
    "signer_id" (Φ.below h.accountId level))
    "signer_public_key" (Φ.below h.publicKey level))
    "nonce" (Φ.below h.u64 level))
    "receiver_id" (Φ.below h.accountId level))
    "block_hash" (Φ.below h.blockHash level))
    "actions" (Φ.below (Φ.vecBelow fun level => (h.nested level).1) level)) _ level

end LeavesHold

end Near
