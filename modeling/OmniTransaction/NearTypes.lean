/-
# NEAR transactions

The types of `src/near/types` and of `src/near/near_transaction.rs`.  A delegate
action carries a list of actions again, so the actions and the three types
between them are declared together.

Account names come from the package `near-account-id`.  It lets a name through
when its function `validate` finds nothing wrong with it; that function is a
parameter of everything that holds an account name.
-/
import OmniTransaction.Rust

open ByteOrder Rust

namespace Near

/-! ## Constants -/

/-- The length of an ed25519 key. -/
def ED25519_PUBLIC_KEY_LENGTH : ℕ := 32

/-- The length of a secp256k1 key without the byte for the format. -/
def SECP256K1_PUBLIC_KEY_LENGTH : ℕ := 64

/-- Two numbers of 32 bytes and the recovery id. -/
def SECP256K1_SIGNATURE_LENGTH : ℕ := 65

/-- The length of one component of an ed25519 signature. -/
def COMPONENT_SIZE : ℕ := 32

/-! ## Fields -/

/-- `AccountId`: a name in which `validate` finds no error. -/
structure AccountId (validate : String → Option String) where
  val : String
  valid : validate val = none
  deriving DecidableEq

/-- The name as an account, unless `validate` finds an error in it. -/
def AccountId.ofString (validate : String → Option String) (name : String) :
    Option (AccountId validate) :=
  if h : validate name = none then some ⟨name, h⟩ else none

/-- What the package says about a name that `validate` refuses.  The error itself is the
text of `validate`. -/
def AccountId.invalidText (validate : String → Option String) (name : String) : String :=
  "invalid value: \"" ++ name ++ "\", " ++ (validate name).getD ""

/-- Only the name itself becomes an account. -/
theorem AccountId.ofString_eq_some_iff {validate : String → Option String} (name : String)
    (account : AccountId validate) :
    AccountId.ofString validate name = some account ↔ account.val = name := by
  unfold AccountId.ofString
  constructor
  · intro h
    split_ifs at h
    rw [← Option.some.inj h]
  · rintro rfl
    rw [dif_pos account.valid]

/-- A number that JSON may have as a text. -/
structure U64 where
  val : UInt64
  deriving DecidableEq

/-- An amount that JSON may have as a text. -/
structure U128 where
  val : UInt128
  deriving DecidableEq

/-- The hash of a recent block. -/
structure BlockHash where
  val : FixedBytes 32
  deriving DecidableEq

/-- Bytes that JSON has as a base64 text. -/
structure Base64VecU8 where
  val : Bytes
  deriving DecidableEq

/-- The bytes of an ed25519 key. -/
structure ED25519PublicKey where
  val : FixedBytes ED25519_PUBLIC_KEY_LENGTH
  deriving DecidableEq

/-- The bytes of a secp256k1 key, without the byte for the format. -/
structure Secp256K1PublicKey where
  val : FixedBytes SECP256K1_PUBLIC_KEY_LENGTH
  deriving DecidableEq

/-- A key of one of the two curves. -/
inductive PublicKey where
  | ED25519 (publicKey : ED25519PublicKey)
  | SECP256K1 (publicKey : Secp256K1PublicKey)
  deriving DecidableEq

/-- The two components of an ed25519 signature. -/
structure ED25519Signature where
  r : FixedBytes COMPONENT_SIZE
  s : FixedBytes COMPONENT_SIZE
  deriving DecidableEq

/-- The two numbers of a secp256k1 signature and its recovery id. -/
structure Secp256K1Signature where
  val : FixedBytes SECP256K1_SIGNATURE_LENGTH
  deriving DecidableEq

/-- A signature of one of the two curves. -/
inductive Signature where
  | ED25519 (sig : ED25519Signature)
  | SECP256K1 (sig : Secp256K1Signature)
  deriving DecidableEq

/-! ## Actions -/

/-- The receiver of the transaction is created. -/
structure CreateAccountAction where
  deriving DecidableEq

/-- The contract of the receiver is replaced. -/
structure DeployContractAction where
  code : Base64VecU8
  deriving DecidableEq

/-- A method of the receiver's contract is called with gas and a deposit. -/
structure FunctionCallAction where
  methodName : String
  args : Bytes
  gas : U64
  deposit : U128
  deriving DecidableEq

/-- Tokens are sent to the receiver. -/
structure TransferAction where
  deposit : U128
  deriving DecidableEq

/-- Tokens are staked with a validator key. -/
structure StakeAction where
  stake : U128
  publicKey : PublicKey
  deriving DecidableEq

/-- What a key may call, and with how much of the account's tokens. -/
structure FunctionCallPermission where
  allowance : Option U128
  receiverId : String
  methodNames : List String
  deriving DecidableEq

/-- What a key may sign. -/
inductive AccessKeyPermission where
  | FunctionCall (permission : FunctionCallPermission)
  | FullAccess
  deriving DecidableEq

/-- The nonce of the last use of a key, and what the key may do. -/
structure AccessKey where
  nonce : U64
  permission : AccessKeyPermission
  deriving DecidableEq

/-- A key is added to the receiver. -/
structure AddKeyAction where
  publicKey : PublicKey
  accessKey : AccessKey
  deriving DecidableEq

/-- A key is taken from the receiver. -/
structure DeleteKeyAction where
  publicKey : PublicKey
  deriving DecidableEq

/-- Whether a global contract is known by its code or by its account. -/
inductive GlobalContractDeployMode where
  | CodeHash
  | AccountId
  deriving DecidableEq

/-- A contract is deployed for all accounts. -/
structure DeployGlobalContractAction where
  code : Base64VecU8
  deployMode : GlobalContractDeployMode
  deriving DecidableEq

section Accounts

variable (validate : String → Option String)

/-- The receiver is deleted and its tokens go to the beneficiary. -/
structure DeleteAccountAction where
  beneficiaryId : AccountId validate
  deriving DecidableEq

/-- How a global contract is named. -/
inductive GlobalContractIdentifier where
  | CodeHash (hash : BlockHash)
  | AccountId (accountId : AccountId validate)
  deriving DecidableEq

/-- The receiver gets a global contract. -/
structure UseGlobalContractAction where
  contractIdentifier : GlobalContractIdentifier validate
  deriving DecidableEq

mutual

/-- `Action`, the variants in the order of the source. -/
inductive Action where
  | CreateAccount (action : CreateAccountAction)
  | DeployContract (action : DeployContractAction)
  | FunctionCall (action : FunctionCallAction)
  | Transfer (action : TransferAction)
  | Stake (action : StakeAction)
  | AddKey (action : AddKeyAction)
  | DeleteKey (action : DeleteKeyAction)
  | DeleteAccount (action : DeleteAccountAction validate)
  | Delegate (action : SignedDelegateAction)
  | DeployGlobalContract (action : DeployGlobalContractAction)
  | UseGlobalContract (action : UseGlobalContractAction validate)

/-- A delegate action with the signature of its sender. -/
structure SignedDelegateAction where
  delegateAction : DelegateAction
  signature : Signature

/-- Actions that are sent and paid for by somebody else. -/
structure DelegateAction where
  senderId : AccountId validate
  receiverId : AccountId validate
  actions : List NonDelegateAction
  nonce : U64
  maxBlockHeight : U64
  publicKey : PublicKey

/-- An action for the inside of a delegate action.  The source keeps the field
private and states no invariant in the type. -/
structure NonDelegateAction where
  action : Action

end

/-- A transaction before it is signed. -/
structure NearTransaction where
  signerId : AccountId validate
  signerPublicKey : PublicKey
  nonce : U64
  receiverId : AccountId validate
  blockHash : BlockHash
  actions : List (Action validate)

/-- A transaction and the signature of its hash. -/
structure SignedTransaction where
  transaction : NearTransaction validate
  signature : Signature

end Accounts

variable {validate : String → Option String}

/-- An action is put back together from its one field. -/
@[simp] theorem NonDelegateAction.mk_action (a : NonDelegateAction validate) :
    NonDelegateAction.mk a.action = a := by
  cases a
  rfl

/-- A delegate action is put back together from its fields. -/
@[simp] theorem DelegateAction.mk_fields (d : DelegateAction validate) :
    DelegateAction.mk d.senderId d.receiverId d.actions d.nonce d.maxBlockHeight
      d.publicKey = d := by
  cases d
  rfl

/-- A signed delegate action is put back together from its fields. -/
@[simp] theorem SignedDelegateAction.mk_fields (a : SignedDelegateAction validate) :
    SignedDelegateAction.mk a.delegateAction a.signature = a := by
  cases a
  rfl

/-- `TryFrom<Action> for NonDelegateAction`. -/
def NonDelegateAction.tryFrom : Action validate → Outcome Unit (NonDelegateAction validate)
  | .Delegate _ => .err ()
  | action => .ok ⟨action⟩

/-! ## Nesting -/

mutual

/-- How deep delegate actions are nested in an action. -/
def Action.delegateDepth : Action validate → ℕ
  | .Delegate action => action.delegateDepth
  | _ => 0

def SignedDelegateAction.delegateDepth : SignedDelegateAction validate → ℕ
  | ⟨delegateAction, _⟩ => delegateAction.delegateDepth

/-- One more than the deepest of its actions. -/
def DelegateAction.delegateDepth : DelegateAction validate → ℕ
  | ⟨_, _, actions, _, _, _⟩ => NonDelegateAction.maxDepth actions + 1

/-- The depth of the deepest of the actions. -/
def NonDelegateAction.maxDepth : List (NonDelegateAction validate) → ℕ
  | [] => 0
  | ⟨action⟩ :: actions => max action.delegateDepth (NonDelegateAction.maxDepth actions)

end

/-- A bound on the deepest action is one on all of them. -/
theorem NonDelegateAction.maxDepth_le_iff {actions : List (NonDelegateAction validate)} {n : ℕ} :
    maxDepth actions ≤ n ↔ ∀ a ∈ actions, a.action.delegateDepth ≤ n := by
  induction actions with
  | nil => simp [maxDepth]
  | cons a actions ih =>
    obtain ⟨action⟩ := a
    rw [maxDepth, List.forall_mem_cons, max_le_iff, ih]

theorem DelegateAction.delegateDepth_eq (d : DelegateAction validate) :
    d.delegateDepth = NonDelegateAction.maxDepth d.actions + 1 := by
  cases d
  rfl

theorem SignedDelegateAction.delegateDepth_eq (a : SignedDelegateAction validate) :
    a.delegateDepth = a.delegateAction.delegateDepth := by
  cases a
  rfl

/-- How deep delegate actions are nested in a transaction. -/
def NearTransaction.delegateDepth (tx : NearTransaction validate) : ℕ :=
  (tx.actions.map Action.delegateDepth).foldr max 0

/-- A bound on the maximum is a bound on all members. -/
theorem foldr_max_le_iff {l : List ℕ} {n : ℕ} : l.foldr max 0 ≤ n ↔ ∀ m ∈ l, m ≤ n := by
  induction l with
  | nil => simp
  | cons m l ih => rw [List.foldr_cons, max_le_iff, ih, List.forall_mem_cons]

/-- A bound for a transaction is one for its actions. -/
theorem NearTransaction.delegateDepth_le_iff {tx : NearTransaction validate} {n : ℕ} :
    tx.delegateDepth ≤ n ↔ ∀ a ∈ tx.actions, a.delegateDepth ≤ n := by
  rw [NearTransaction.delegateDepth, foldr_max_le_iff, List.forall_mem_map]

/-! ## Samples -/

/-- The rule of NEAR for the length of an account name. -/
def lengthRule (name : String) : Option String :=
  if name.utf8ByteSize < 2 then some "the Account ID is too short"
  else if 64 < name.utf8ByteSize then some "the Account ID is too long"
  else none

def alice : AccountId lengthRule := ⟨"alice.near", by decide⟩

def bob : AccountId lengthRule := ⟨"bob.near", by decide⟩

def sampleKey : PublicKey := .ED25519 ⟨List.Vector.replicate 32 7⟩

end Near
