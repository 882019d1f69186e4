/-
# The JSON form of NEAR transactions

The recursive part of the format and `from_json` over it: which transactions are
read back from the document that `Serialize` writes.
-/
import OmniTransaction.NearJson

open ByteOrder Rust Serde

namespace Near

variable {validate : String → Option String} (codecs : TextCodecs)

/-! ## Writers -/

mutual

/-- Derived `Serialize`: the name of the variant and its content. -/
def Action.toJson : Action validate → Json
  | .CreateAccount action => .obj [("CreateAccount", action.toJson)]
  | .DeployContract action => .obj [("DeployContract", action.toJson codecs)]
  | .FunctionCall action => .obj [("FunctionCall", action.toJson)]
  | .Transfer action => .obj [("Transfer", action.toJson)]
  | .Stake action => .obj [("Stake", action.toJson)]
  | .AddKey action => .obj [("AddKey", action.toJson)]
  | .DeleteKey action => .obj [("DeleteKey", action.toJson)]
  | .DeleteAccount action => .obj [("DeleteAccount", action.toJson)]
  | .Delegate action => .obj [("Delegate", action.toJson)]
  | .DeployGlobalContract action => .obj [("DeployGlobalContract", action.toJson codecs)]
  | .UseGlobalContract action => .obj [("UseGlobalContract", action.toJson)]

/-- The object with the delegate action and the signature. -/
def SignedDelegateAction.toJson : SignedDelegateAction validate → Json
  | ⟨delegateAction, signature⟩ =>
    .obj [("delegate_action", delegateAction.toJson), ("signature", signature.toJson codecs)]

/-- The object with the six fields. -/
def DelegateAction.toJson : DelegateAction validate → Json
  | ⟨senderId, receiverId, actions, nonce, maxBlockHeight, publicKey⟩ =>
    .obj [("sender_id", senderId.toJson), ("receiver_id", receiverId.toJson),
      ("actions", .arr (NonDelegateAction.allToJson actions)), ("nonce", nonce.toJson),
      ("max_block_height", maxBlockHeight.toJson), ("public_key", publicKey.toJson)]

/-- The elements of a `Vec<NonDelegateAction>`. -/
def NonDelegateAction.allToJson : List (NonDelegateAction validate) → List Json
  | [] => []
  | ⟨action⟩ :: actions => action.toJson :: NonDelegateAction.allToJson actions

end

/-- The recursion along the list writes item by item. -/
theorem NonDelegateAction.allToJson_eq (actions : List (NonDelegateAction validate)) :
    NonDelegateAction.allToJson codecs actions = actions.map fun a => a.action.toJson codecs := by
  induction actions with
  | nil => rfl
  | cons a actions ih =>
    obtain ⟨action⟩ := a
    rw [NonDelegateAction.allToJson, List.map_cons, ih]

/-- `Serialize for NearTransaction`. -/
def NearTransaction.toJson (tx : NearTransaction validate) : Json :=
  .obj [("signer_id", tx.signerId.toJson), ("signer_public_key", tx.signerPublicKey.toJson),
    ("nonce", tx.nonce.toJson), ("receiver_id", tx.receiverId.toJson),
    ("block_hash", tx.blockHash.toJson), ("actions", .arr (tx.actions.map (Action.toJson codecs)))]

/-! ## Readers -/

/-- The variants with the readers of their contents. -/
def Action.variants (delegate : Json → Outcome DeError (SignedDelegateAction validate))
    (level : ℕ) : List (String × Variant (Action validate)) :=
  [("CreateAccount", .of .CreateAccount (below CreateAccountAction.fromJson level)),
    ("DeployContract", .of .DeployContract (below (DeployContractAction.fromJson codecs) level)),
    ("FunctionCall", .of .FunctionCall (below FunctionCallAction.fromJson level)),
    ("Transfer", .of .Transfer (below TransferAction.fromJson level)),
    ("Stake", .of .Stake (below (StakeAction.fromJson codecs) level)),
    ("AddKey", .of .AddKey (below (AddKeyAction.fromJson codecs) level)),
    ("DeleteKey", .of .DeleteKey (below (DeleteKeyAction.fromJson codecs) level)),
    ("DeleteAccount", .of .DeleteAccount (below DeleteAccountAction.fromJson level)),
    ("Delegate", .of .Delegate delegate),
    ("DeployGlobalContract", .of .DeployGlobalContract
      (below (DeployGlobalContractAction.fromJson codecs) level)),
    ("UseGlobalContract", .of .UseGlobalContract
      (below (UseGlobalContractAction.fromJson codecs) level))]

/-- `Deserialize for Action`, given the reader of `SignedDelegateAction`. -/
def Action.fromJsonWith (delegate : Json → Outcome DeError (SignedDelegateAction validate)) :
    Reader (Action validate) :=
  fun level => readEnum (variants codecs delegate level) level

/-- `Deserialize for NonDelegateAction`: the derived reader takes any action. -/
def NonDelegateAction.fromJsonWith (action : Json → Outcome DeError (Action validate))
    (doc : Json) : Outcome DeError (NonDelegateAction validate) := do
  let a ← action doc
  return ⟨a⟩

/-- The six fields, given a reader for the list of actions. -/
def DelegateAction.fromJsonWith
    (nonDelegates : Json → Outcome DeError (List (NonDelegateAction validate))) :
    Reader (DelegateAction validate) := fun level =>
  readStruct "DelegateAction"
    (((((((Fields.start DelegateAction.mk).field
      "sender_id" (below AccountId.fromJson level)).field
      "receiver_id" (below AccountId.fromJson level)).field
      "actions" nonDelegates).field
      "nonce" (below U64.fromJson level)).field
      "max_block_height" (below U64.fromJson level)).field
      "public_key" (below (PublicKey.fromJson codecs) level)) level

/-- The two fields, given a reader for the delegate action. -/
def SignedDelegateAction.fromJsonWith
    (delegateAction : Json → Outcome DeError (DelegateAction validate)) :
    Reader (SignedDelegateAction validate) := fun level =>
  readStruct "SignedDelegateAction"
    (((Fields.start SignedDelegateAction.mk).field "delegate_action" delegateAction).field
      "signature" (below (Signature.fromJson codecs) level)) level

mutual

/-- `Deserialize for Action`. -/
def Action.fromJson : Reader (Action validate)
  | 0 => Action.fromJsonWith codecs closed 0
  | level + 1 => Action.fromJsonWith codecs (SignedDelegateAction.fromJson level) (level + 1)

/-- `Deserialize for SignedDelegateAction`. -/
def SignedDelegateAction.fromJson : Reader (SignedDelegateAction validate)
  | 0 => SignedDelegateAction.fromJsonWith codecs closed 0
  | level + 1 =>
    SignedDelegateAction.fromJsonWith codecs (DelegateAction.fromJson level) (level + 1)

/-- `Deserialize for DelegateAction`. -/
def DelegateAction.fromJson : Reader (DelegateAction validate)
  | 0 => DelegateAction.fromJsonWith codecs closed 0
  | level + 1 =>
    DelegateAction.fromJsonWith codecs (NonDelegateAction.vecFromJson level) (level + 1)

/-- `Deserialize for Vec<NonDelegateAction>`. -/
def NonDelegateAction.vecFromJson : Reader (List (NonDelegateAction validate))
  | 0 => readVec closed 0
  | level + 1 => readVec (NonDelegateAction.fromJsonWith (Action.fromJson level)) (level + 1)

end

/-- `Deserialize for NearTransaction`. -/
def NearTransaction.fromDocument : Reader (NearTransaction validate) := fun level =>
  readStruct "NearTransaction"
    (((((((Fields.start NearTransaction.mk).field
      "signer_id" (below AccountId.fromJson level)).field
      "signer_public_key" (below (PublicKey.fromJson codecs) level)).field
      "nonce" (below U64.fromJson level)).field
      "receiver_id" (below AccountId.fromJson level)).field
      "block_hash" (below (BlockHash.fromJson codecs) level)).field
      "actions" (below (fun level => readVec (below (Action.fromJson codecs) level) level) level))
    level

/-- `from_json`. -/
def NearTransaction.fromJson (parse : String → Option Json) (json : String) :
    Outcome DeError (NearTransaction validate) :=
  fromStr parse (NearTransaction.fromDocument codecs) json

/-- What the recursion unfolds to at an action. -/
theorem Action.fromJson_eq : @Action.fromJson validate codecs = fun level =>
    Action.fromJsonWith codecs (below (SignedDelegateAction.fromJson codecs) level) level := by
  funext level
  cases level <;> rfl

/-- What it unfolds to at a signed delegate action. -/
theorem SignedDelegateAction.fromJson_eq : @SignedDelegateAction.fromJson validate codecs =
    fun level => SignedDelegateAction.fromJsonWith codecs
      (below (DelegateAction.fromJson codecs) level) level := by
  funext level
  cases level <;> rfl

/-- What it unfolds to at a delegate action. -/
theorem DelegateAction.fromJson_eq : @DelegateAction.fromJson validate codecs = fun level =>
    DelegateAction.fromJsonWith codecs (below (NonDelegateAction.vecFromJson codecs) level)
      level := by
  funext level
  cases level <;> rfl

/-- `Deserialize for NonDelegateAction`. -/
def NonDelegateAction.fromJson : Reader (NonDelegateAction validate) := fun level =>
  NonDelegateAction.fromJsonWith (Action.fromJson codecs level)

/-- What it unfolds to at the list of actions. -/
theorem NonDelegateAction.vecFromJson_eq : @NonDelegateAction.vecFromJson validate codecs =
    fun level => readVec (below (NonDelegateAction.fromJson codecs) level) level := by
  funext level
  cases level <;> rfl

/-! ## Round trips -/

mutual

/-- Every amount in the action fits in a `u64`. -/
def Action.AmountsFit : Action validate → Prop
  | .FunctionCall action => action.deposit.FitsU64
  | .Transfer action => action.deposit.FitsU64
  | .Stake action => action.stake.FitsU64
  | .AddKey action => action.accessKey.permission.AmountsFit
  | .Delegate action => action.AmountsFit
  | _ => True

/-- The amounts are in the delegate action. -/
def SignedDelegateAction.AmountsFit : SignedDelegateAction validate → Prop
  | ⟨delegateAction, _⟩ => delegateAction.AmountsFit

/-- The amounts are in its actions. -/
def DelegateAction.AmountsFit : DelegateAction validate → Prop
  | ⟨_, _, actions, _, _, _⟩ => NonDelegateAction.AllAmountsFit actions

def NonDelegateAction.AllAmountsFit : List (NonDelegateAction validate) → Prop
  | [] => True
  | ⟨action⟩ :: actions => action.AmountsFit ∧ NonDelegateAction.AllAmountsFit actions

end

/-- The amounts of all actions fit. -/
theorem NonDelegateAction.allAmountsFit_iff {actions : List (NonDelegateAction validate)} :
    NonDelegateAction.AllAmountsFit actions ↔ ∀ a ∈ actions, a.action.AmountsFit := by
  induction actions with
  | nil => simp [NonDelegateAction.AllAmountsFit]
  | cons a actions ih =>
    obtain ⟨action⟩ := a
    rw [NonDelegateAction.AllAmountsFit, List.forall_mem_cons, ih]

/-- Every amount in the transaction fits in a `u64`. -/
def NearTransaction.AmountsFit (tx : NearTransaction validate) : Prop :=
  ∀ a ∈ tx.actions, a.AmountsFit

/-- One level around the delegate action. -/
theorem SignedDelegateAction.roundTrips_of {a : SignedDelegateAction validate} {good : Prop}
    (h : RoundTrips (DelegateAction.fromJson codecs) (a.delegateAction.toJson codecs)
      a.delegateAction good) :
    RoundTrips (SignedDelegateAction.fromJson codecs) (a.toJson codecs) a good := by
  obtain ⟨delegateAction, signature⟩ := a
  rw [SignedDelegateAction.fromJson_eq]
  exact ((((Fields.roundTrip_start SignedDelegateAction.mk).field
    "delegate_action" h (by simp)).field
    "signature" (signature.roundTrips codecs) (by simp)).struct
      "SignedDelegateAction").congr (by simp)

/-- One level around the list of actions. -/
theorem DelegateAction.roundTrips_of {d : DelegateAction validate} {good : Prop}
    (h : RoundTrips (NonDelegateAction.vecFromJson codecs)
      (.arr (NonDelegateAction.allToJson codecs d.actions)) d.actions good) :
    RoundTrips (DelegateAction.fromJson codecs) (d.toJson codecs) d good := by
  obtain ⟨senderId, receiverId, actions, nonce, maxBlockHeight, publicKey⟩ := d
  rw [DelegateAction.fromJson_eq]
  exact ((((((((Fields.roundTrip_start DelegateAction.mk).field
    "sender_id" senderId.roundTrips (by simp)).field
    "receiver_id" receiverId.roundTrips (by simp)).field
    "actions" h (by simp)).field
    "nonce" nonce.roundTrips (by simp)).field
    "max_block_height" maxBlockHeight.roundTrips (by simp)).field
    "public_key" (publicKey.roundTrips codecs) (by simp)).struct "DelegateAction").congr
      (by simp)

mutual

/-- An action is read back if its amounts fit and the levels suffice. -/
theorem Action.roundTrips : ∀ a : Action validate,
    RoundTrips (Action.fromJson codecs) (a.toJson codecs) a a.AmountsFit
  | .CreateAccount action => by
    rw [Action.fromJson_eq]
    exact RoundTrips.variant _ (fun _ => rfl) action.roundTrips
  | .DeployContract action => by
    rw [Action.fromJson_eq]
    exact RoundTrips.variant _ (fun _ => rfl) (action.roundTrips codecs)
  | .FunctionCall action => by
    rw [Action.fromJson_eq]
    exact RoundTrips.variant _ (fun _ => rfl) action.roundTrips
  | .Transfer action => by
    rw [Action.fromJson_eq]
    exact RoundTrips.variant _ (fun _ => rfl) action.roundTrips
  | .Stake action => by
    rw [Action.fromJson_eq]
    exact RoundTrips.variant _ (fun _ => rfl) (action.roundTrips codecs)
  | .AddKey action => by
    rw [Action.fromJson_eq]
    exact RoundTrips.variant _ (fun _ => rfl) (action.roundTrips codecs)
  | .DeleteKey action => by
    rw [Action.fromJson_eq]
    exact RoundTrips.variant _ (fun _ => rfl) (action.roundTrips codecs)
  | .DeleteAccount action => by
    rw [Action.fromJson_eq]
    exact RoundTrips.variant _ (fun _ => rfl) action.roundTrips
  | .Delegate action => by
    rw [Action.fromJson_eq]
    exact RoundTrips.variant _ (fun _ => rfl) action.roundTrips
  | .DeployGlobalContract action => by
    rw [Action.fromJson_eq]
    exact RoundTrips.variant _ (fun _ => rfl) (action.roundTrips codecs)
  | .UseGlobalContract action => by
    rw [Action.fromJson_eq]
    exact RoundTrips.variant _ (fun _ => rfl) (action.roundTrips codecs)

/-- By the delegate action in it. -/
theorem SignedDelegateAction.roundTrips : ∀ a : SignedDelegateAction validate,
    RoundTrips (SignedDelegateAction.fromJson codecs) (a.toJson codecs) a a.AmountsFit
  | ⟨delegateAction, _⟩ =>
    SignedDelegateAction.roundTrips_of codecs delegateAction.roundTrips

theorem DelegateAction.roundTrips : ∀ d : DelegateAction validate,
    RoundTrips (DelegateAction.fromJson codecs) (d.toJson codecs) d d.AmountsFit
  | ⟨_, _, actions, _, _, _⟩ => by
    refine DelegateAction.roundTrips_of codecs ?_
    rw [NonDelegateAction.vecFromJson_eq, NonDelegateAction.allToJson_eq]
    exact (RoundTrips.vec (NonDelegateAction.roundTrips actions)).congr
      NonDelegateAction.allAmountsFit_iff.symm

/-- Every action of a list, in its wrapper. -/
theorem NonDelegateAction.roundTrips : ∀ actions : List (NonDelegateAction validate),
    ∀ a ∈ actions, RoundTrips (NonDelegateAction.fromJson codecs) (a.action.toJson codecs) a
      a.action.AmountsFit
  | [] => by simp
  | ⟨action⟩ :: actions => List.forall_mem_cons.mpr
    ⟨action.roundTrips.map NonDelegateAction.mk, NonDelegateAction.roundTrips actions⟩

end

/-- The document of a transaction is read as this transaction when all amounts are below `2 ^
64`. -/
theorem NearTransaction.roundTrips (tx : NearTransaction validate) :
    RoundTrips (NearTransaction.fromDocument codecs) (tx.toJson codecs) tx tx.AmountsFit := by
  have hactions : RoundTrips
      (fun level => readVec (below (Action.fromJson codecs) level) level)
      (.arr (tx.actions.map (Action.toJson codecs))) tx.actions (∀ a ∈ tx.actions, a.AmountsFit) :=
    RoundTrips.vec fun a _ => a.roundTrips codecs
  exact ((((((((Fields.roundTrip_start NearTransaction.mk).field
    "signer_id" tx.signerId.roundTrips (by simp)).field
    "signer_public_key" (tx.signerPublicKey.roundTrips codecs) (by simp)).field
    "nonce" tx.nonce.roundTrips (by simp)).field
    "receiver_id" tx.receiverId.roundTrips (by simp)).field
    "block_hash" (tx.blockHash.roundTrips codecs) (by simp)).field
    "actions" hactions (by simp)).struct "NearTransaction").congr
      (by simp [NearTransaction.AmountsFit])

/-! ## How deep a document is nested -/

/-- The nesting of the JSON form, in terms of the value. -/
def AccessKeyPermission.jsonDepth : AccessKeyPermission → ℕ
  | .FunctionCall _ => 3
  | .FullAccess => 0

/-- A hash is an array, a name a text. -/
def GlobalContractIdentifier.jsonDepth : GlobalContractIdentifier validate → ℕ
  | .CodeHash _ => 2
  | .AccountId _ => 1

mutual

/-- The nesting of the JSON form of an action. -/
def Action.jsonDepth : Action validate → ℕ
  | .CreateAccount _ => 2
  | .DeployContract _ => 2
  | .FunctionCall _ => 3
  | .Transfer _ => 2
  | .Stake _ => 4
  | .AddKey action => max 4 (action.accessKey.permission.jsonDepth + 3)
  | .DeleteKey _ => 4
  | .DeleteAccount _ => 2
  | .Delegate action => action.jsonDepth + 1
  | .DeployGlobalContract _ => 2
  | .UseGlobalContract action => action.contractIdentifier.jsonDepth + 2

/-- One level around the delegate action. -/
def SignedDelegateAction.jsonDepth : SignedDelegateAction validate → ℕ
  | ⟨delegateAction, _⟩ => delegateAction.jsonDepth + 1

/-- Two levels around the actions, three around the bytes of the key. -/
def DelegateAction.jsonDepth : DelegateAction validate → ℕ
  | ⟨_, _, actions, _, _, _⟩ => max 3 (NonDelegateAction.maxJsonDepth actions + 2)

def NonDelegateAction.maxJsonDepth : List (NonDelegateAction validate) → ℕ
  | [] => 0
  | ⟨action⟩ :: actions => max action.jsonDepth (NonDelegateAction.maxJsonDepth actions)

end

/-- The nesting of the JSON form of a transaction. -/
def NearTransaction.jsonDepth (tx : NearTransaction validate) : ℕ :=
  max 3 ((tx.actions.map fun a => a.jsonDepth).foldr max 0 + 2)

/-- An array of numbers is one level, also when it is empty. -/
theorem depth_writeBytes (b : Bytes) : (writeBytes b).depth = 1 :=
  le_antisymm (depth_writeBytes_le_iff.mpr Nat.one_pos) (Nat.succ_le_of_lt
    (Nat.pos_of_ne_zero fun h => absurd (depth_writeBytes_le_iff.mp h.le) (lt_irrefl 0)))

theorem PublicKey.depth_toJson (key : PublicKey) : key.toJson.depth = 2 := by
  cases key <;> simp [PublicKey.toJson, Json.depth, Json.entriesDepth, depth_writeBytes]

/-- The depth by cases is the depth of the document. -/
theorem AccessKeyPermission.depth_toJson (p : AccessKeyPermission) :
    p.toJson.depth = p.jsonDepth := by
  cases p with
  | FunctionCall permission =>
    have hallowance : (writeOption U128.toJson permission.allowance).depth = 0 := by
      cases permission.allowance <;> rfl
    have hnames : Json.itemsDepth (permission.methodNames.map .str) = 0 := by
      rw [← Nat.le_zero, Json.itemsDepth_le_iff]
      simp [Json.depth]
    simp [AccessKeyPermission.toJson, FunctionCallPermission.toJson, jsonDepth, Json.depth,
      Json.entriesDepth, hallowance, hnames]
  | FullAccess => rfl

/-- The depth by cases is the depth of the document. -/
theorem GlobalContractIdentifier.depth_toJson (i : GlobalContractIdentifier validate) :
    i.toJson.depth = i.jsonDepth := by
  cases i <;> simp [GlobalContractIdentifier.toJson, jsonDepth, Json.depth, Json.entriesDepth,
    BlockHash.toJson, AccountId.toJson, depth_writeBytes]

/-- The depth of a list that is written item by item. -/
theorem Json.itemsDepth_map {α : Type} (write : α → Json) (l : List α) :
    Json.itemsDepth (l.map write) = (l.map fun a => (write a).depth).foldr max 0 := by
  induction l with
  | nil => rfl
  | cons a l ih => rw [List.map_cons, Json.itemsDepth, ih, List.map_cons, List.foldr_cons]

mutual

/-- The depth of an action is the one of its document. -/
theorem Action.depth_toJson : ∀ a : Action validate, (a.toJson codecs).depth = a.jsonDepth
  | .CreateAccount _ => rfl
  | .DeployContract _ => rfl
  | .FunctionCall action => by
    simp [Action.toJson, FunctionCallAction.toJson, Action.jsonDepth, Json.depth,
      Json.entriesDepth, depth_writeBytes, U64.toJson, U128.toJson]
  | .Transfer _ => rfl
  | .Stake action => by
    simp [Action.toJson, StakeAction.toJson, Action.jsonDepth, Json.depth,
      Json.entriesDepth, U128.toJson, PublicKey.depth_toJson]
  | .AddKey action => by
    simp [Action.toJson, AddKeyAction.toJson, AccessKey.toJson, Action.jsonDepth, Json.depth,
      Json.entriesDepth, U64.toJson, PublicKey.depth_toJson, AccessKeyPermission.depth_toJson]
    omega
  | .DeleteKey action => by
    simp [Action.toJson, DeleteKeyAction.toJson, Action.jsonDepth, Json.depth,
      Json.entriesDepth, PublicKey.depth_toJson]
  | .DeleteAccount _ => rfl
  | .Delegate action => by
    simp [Action.toJson, Action.jsonDepth, Json.depth, Json.entriesDepth,
      SignedDelegateAction.depth_toJson action]
  | .DeployGlobalContract action => by
    obtain ⟨code, mode⟩ := action
    cases mode <;> rfl
  | .UseGlobalContract action => by
    simp [Action.toJson, UseGlobalContractAction.toJson, Action.jsonDepth, Json.depth,
      Json.entriesDepth, GlobalContractIdentifier.depth_toJson]

theorem SignedDelegateAction.depth_toJson : ∀ a : SignedDelegateAction validate,
    (a.toJson codecs).depth = a.jsonDepth
  | ⟨delegateAction, signature⟩ => by
    have hsignature : (signature.toJson codecs).depth = 0 := by
      cases signature <;> rfl
    simp [SignedDelegateAction.toJson, SignedDelegateAction.jsonDepth, Json.depth,
      Json.entriesDepth, DelegateAction.depth_toJson delegateAction, hsignature]

theorem DelegateAction.depth_toJson : ∀ d : DelegateAction validate,
    (d.toJson codecs).depth = d.jsonDepth
  | ⟨senderId, receiverId, actions, nonce, maxBlockHeight, publicKey⟩ => by
    simp [DelegateAction.toJson, DelegateAction.jsonDepth, Json.depth, Json.entriesDepth,
      NonDelegateAction.itemsDepth_allToJson actions, AccountId.toJson, U64.toJson,
      PublicKey.depth_toJson]
    omega

theorem NonDelegateAction.itemsDepth_allToJson : ∀ actions : List (NonDelegateAction validate),
    Json.itemsDepth (NonDelegateAction.allToJson codecs actions) =
      NonDelegateAction.maxJsonDepth actions
  | [] => rfl
  | ⟨action⟩ :: actions => by
    rw [NonDelegateAction.allToJson, Json.itemsDepth, Action.depth_toJson action,
      NonDelegateAction.itemsDepth_allToJson actions, NonDelegateAction.maxJsonDepth]

end

theorem NearTransaction.depth_toJson (tx : NearTransaction validate) :
    (tx.toJson codecs).depth = tx.jsonDepth := by
  simp [NearTransaction.toJson, NearTransaction.jsonDepth, Json.depth, Json.entriesDepth,
    AccountId.toJson, U64.toJson, PublicKey.depth_toJson, BlockHash.toJson, depth_writeBytes,
    Json.itemsDepth_map, Action.depth_toJson]
  omega

mutual

/-- A delegate action adds four levels to the ones of the actions inside. -/
theorem Action.jsonDepth_le : ∀ a : Action validate, a.jsonDepth ≤ 4 * a.delegateDepth + 6
  | .CreateAccount _ | .DeployContract _ | .FunctionCall _ | .Transfer _ | .Stake _
  | .DeleteKey _ | .DeleteAccount _ | .DeployGlobalContract _ => by
    simp [Action.jsonDepth, Action.delegateDepth]
  | .AddKey ⟨_, _, permission⟩ => by
    cases permission <;> simp [Action.jsonDepth, AccessKeyPermission.jsonDepth]
  | .UseGlobalContract ⟨identifier⟩ => by
    cases identifier <;> simp [Action.jsonDepth, GlobalContractIdentifier.jsonDepth]
  | .Delegate action => by
    have h := SignedDelegateAction.jsonDepth_le action
    rw [Action.jsonDepth, Action.delegateDepth]
    omega

/-- One level more than the delegate action. -/
theorem SignedDelegateAction.jsonDepth_le : ∀ a : SignedDelegateAction validate,
    a.jsonDepth ≤ 4 * a.delegateDepth + 5
  | ⟨delegateAction, _⟩ => Nat.succ_le_succ (DelegateAction.jsonDepth_le delegateAction)

/-- Every nesting takes four levels of the document. -/
theorem DelegateAction.jsonDepth_le : ∀ d : DelegateAction validate,
    d.jsonDepth ≤ 4 * d.delegateDepth + 4
  | ⟨_, _, actions, _, _, _⟩ => by
    have h := NonDelegateAction.maxJsonDepth_le actions
    rw [DelegateAction.jsonDepth, DelegateAction.delegateDepth]
    omega

/-- The bound for all actions of a list. -/
theorem NonDelegateAction.maxJsonDepth_le : ∀ actions : List (NonDelegateAction validate),
    NonDelegateAction.maxJsonDepth actions ≤ 4 * NonDelegateAction.maxDepth actions + 6
  | [] => Nat.zero_le _
  | ⟨action⟩ :: actions => by
    have h := Action.jsonDepth_le action
    have h' := NonDelegateAction.maxJsonDepth_le actions
    rw [NonDelegateAction.maxJsonDepth, NonDelegateAction.maxDepth]
    omega

end

/-- Up to 29 delegate actions inside each other the document is within the limit of
the parser. -/
theorem NearTransaction.jsonDepth_le_recursionLimit {tx : NearTransaction validate}
    (h : tx.delegateDepth ≤ 29) : tx.jsonDepth ≤ recursionLimit := by
  have hactions : (tx.actions.map fun a => a.jsonDepth).foldr max 0 ≤ 122 := by
    rw [foldr_max_le_iff, List.forall_mem_map]
    intro a ha
    have hdepth := NearTransaction.delegateDepth_le_iff.mp h a ha
    have hle := a.jsonDepth_le
    omega
  rw [NearTransaction.jsonDepth, recursionLimit]
  omega

/-! ## Transactions and their texts -/

/-- `from_json` reads a transaction back from the text that `Serialize` gives exactly
when every amount in it fits in a `u64` and its delegate actions are not nested
deeper than `serde_json` follows. -/
theorem NearTransaction.fromJson_toJson_iff (parse : String → Option Json)
    (tx : NearTransaction validate)
    (hparse : parse (tx.toJson codecs).compact = some (tx.toJson codecs)) :
    NearTransaction.fromJson codecs parse (tx.toJson codecs).compact = .ok tx ↔
      tx.AmountsFit ∧ tx.jsonDepth ≤ recursionLimit := by
  rw [NearTransaction.fromJson, fromStr, hparse, ← tx.depth_toJson codecs]
  exact (tx.roundTrips codecs recursionLimit).eq_ok_iff

/-- A text form with one character for each byte.  It writes zeros as `bs58` does,
one `1` for each. -/
def oneCharPerByte : TextCodec where
  encode b := String.ofList (b.map fun x => Char.ofNat (x.toNat + 49))
  decode s := .ok (s.toList.map fun c => UInt8.ofNat (c.toNat - 49))
  decode_encode := by
    intro b
    have hchar : ∀ x : UInt8, UInt8.ofNat ((Char.ofNat (x.toNat + 49)).toNat - 49) = x := by
      intro x
      have hvalid : (x.toNat + 49).isValidChar := by
        have hx := x.toNat_lt
        exact Or.inl (by omega)
      rw [Char.ofNat, dif_pos hvalid]
      show UInt8.ofNat (x.toNat + 49 - 49) = x
      rw [Nat.add_sub_cancel, UInt8.ofNat_toNat]
    rw [String.toList_ofList, List.map_map]
    exact congrArg Outcome.ok ((List.map_congr_left fun x _ => hchar x).trans (List.map_id b))

def sampleCodecs : TextCodecs := ⟨oneCharPerByte, oneCharPerByte⟩

/-- A payment in yocto.  Its document has no signature and no base64 in it. -/
def payment (deposit : UInt128) : NearTransaction lengthRule :=
  ⟨alice, sampleKey, ⟨1⟩, bob, ⟨List.Vector.replicate 32 4⟩,
    [.CreateAccount ⟨⟩, .Transfer ⟨⟨deposit⟩⟩]⟩

/-- A payment of five units is read back. -/
theorem NearTransaction.fromJson_toJson_small_payment :
    NearTransaction.fromJson sampleCodecs (parserOf ((payment 5).toJson sampleCodecs))
      ((payment 5).toJson sampleCodecs).compact = .ok (payment 5) := by
  refine (NearTransaction.fromJson_toJson_iff sampleCodecs _ (payment 5)
    (parserOf_compact _)).mpr ⟨?_, by decide⟩
  show ∀ a ∈ [Action.CreateAccount ⟨⟩, .Transfer ⟨⟨5⟩⟩], a.AmountsFit
  simp only [List.forall_mem_cons, List.not_mem_nil, false_implies, implies_true, and_true]
  exact ⟨trivial, by show (5 : UInt128).toNat < 2 ^ 64; decide⟩

/-- One NEAR, `10 ^ 24` yocto, is written and not read back. -/
theorem NearTransaction.fromJson_toJson_one_near :
    (NearTransaction.fromJson sampleCodecs
        (parserOf ((payment 1000000000000000000000000).toJson sampleCodecs))
        ((payment 1000000000000000000000000).toJson sampleCodecs).compact :
      Outcome DeError (NearTransaction lengthRule)) =
      .err (.invalidType (.int 1000000000000000000000000) "a string or a number 128") := by
  rw [NearTransaction.fromJson, fromStr, parserOf_compact]
  rfl

end Near
