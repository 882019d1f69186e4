/-
# The Borsh form of NEAR transactions

The recursive part of the format, and `build_for_signing` and
`build_with_signature` over it: a transaction is read back from what they
return, and what is read was written by them.

A delegate action holds actions again, so its deserializer has a bound on the
nesting.  A bound as large as the input is never reached, and with it the
deserializers satisfy the equations of the derived ones (`deserialize_eq`).
-/
import OmniTransaction.NearBorsh

open ByteOrder Rust Borsh

namespace Near

variable {validate : String → Option String}

/-! ## Serializers -/

/-- The tags of the derive, in the order of the declaration. -/
def Action.variantIdx : Action validate → ℕ
  | .CreateAccount _ => 0
  | .DeployContract _ => 1
  | .FunctionCall _ => 2
  | .Transfer _ => 3
  | .Stake _ => 4
  | .AddKey _ => 5
  | .DeleteKey _ => 6
  | .DeleteAccount _ => 7
  | .Delegate _ => 8
  | .DeployGlobalContract _ => 9
  | .UseGlobalContract _ => 10

mutual

/-- The content of an action after its tag. -/
def Action.serializeVariant : Action validate → ByteStream IoError Unit
  | .CreateAccount action => action.serialize
  | .DeployContract action => action.serialize
  | .FunctionCall action => action.serialize
  | .Transfer action => action.serialize
  | .Stake action => action.serialize
  | .AddKey action => action.serialize
  | .DeleteKey action => action.serialize
  | .DeleteAccount action => action.serialize
  | .Delegate action => action.serialize
  | .DeployGlobalContract action => action.serialize
  | .UseGlobalContract action => action.serialize

/-- The delegate action and its signature. -/
def SignedDelegateAction.serialize : SignedDelegateAction validate → ByteStream IoError Unit
  | ⟨delegateAction, signature⟩ => do
    delegateAction.serialize
    signature.serialize

/-- The fields in the order of the declaration. -/
def DelegateAction.serialize : DelegateAction validate → ByteStream IoError Unit
  | ⟨senderId, receiverId, actions, nonce, maxBlockHeight, publicKey⟩ => do
    senderId.serialize
    receiverId.serialize
    serializeLength actions.length
    NonDelegateAction.serializeAll actions
    nonce.serialize
    maxBlockHeight.serialize
    publicKey.serialize

/-- The elements of a `Vec<NonDelegateAction>`. -/
def NonDelegateAction.serializeAll :
    List (NonDelegateAction validate) → ByteStream IoError Unit
  | [] => pure ()
  | ⟨action⟩ :: actions => do
    serializeTag action.variantIdx
    action.serializeVariant
    NonDelegateAction.serializeAll actions

end

/-- The tag and what stands behind it. -/
def Action.serialize (action : Action validate) : ByteStream IoError Unit := do
  serializeTag action.variantIdx
  action.serializeVariant

/-- A wrapper without bytes of its own. -/
def NonDelegateAction.serialize (a : NonDelegateAction validate) : ByteStream IoError Unit :=
  a.action.serialize

/-- The recursion along the list is the loop over it. -/
theorem NonDelegateAction.serializeAll_eq (actions : List (NonDelegateAction validate)) :
    NonDelegateAction.serializeAll actions = serializeEach NonDelegateAction.serialize actions := by
  induction actions with
  | nil => rfl
  | cons a actions ih =>
    obtain ⟨action⟩ := a
    rw [serializeAll, serializeEach, ih, NonDelegateAction.serialize, Action.serialize, bind_assoc]

theorem DelegateAction.serialize_eq (d : DelegateAction validate) : d.serialize = (do
    d.senderId.serialize
    d.receiverId.serialize
    serializeVec NonDelegateAction.serialize d.actions
    d.nonce.serialize
    d.maxBlockHeight.serialize
    d.publicKey.serialize) := by
  obtain ⟨senderId, receiverId, actions, nonce, maxBlockHeight, publicKey⟩ := d
  rw [DelegateAction.serialize, NonDelegateAction.serializeAll_eq, serializeVec, bind_assoc]

theorem SignedDelegateAction.serialize_eq (a : SignedDelegateAction validate) :
    a.serialize = (do
      a.delegateAction.serialize
      a.signature.serialize) := by
  obtain ⟨delegateAction, signature⟩ := a
  rfl

def NearTransaction.serialize (tx : NearTransaction validate) : ByteStream IoError Unit := do
  tx.signerId.serialize
  tx.signerPublicKey.serialize
  tx.nonce.serialize
  tx.receiverId.serialize
  tx.blockHash.serialize
  serializeVec Action.serialize tx.actions

/-- The signature stands behind the transaction. -/
def SignedTransaction.serialize (tx : SignedTransaction validate) : ByteStream IoError Unit := do
  tx.transaction.serialize
  tx.signature.serialize

/-! ## Deserializers -/

/-- The reader behind each tag, given one for signed delegate actions. -/
def Action.deserializeVariant (delegate : ByteStream IoError (SignedDelegateAction validate)) :
    ℕ → ByteStream IoError (Action validate)
  | 0 => do
    let action ← CreateAccountAction.deserialize
    return .CreateAccount action
  | 1 => do
    let action ← DeployContractAction.deserialize
    return .DeployContract action
  | 2 => do
    let action ← FunctionCallAction.deserialize
    return .FunctionCall action
  | 3 => do
    let action ← TransferAction.deserialize
    return .Transfer action
  | 4 => do
    let action ← StakeAction.deserialize
    return .Stake action
  | 5 => do
    let action ← AddKeyAction.deserialize
    return .AddKey action
  | 6 => do
    let action ← DeleteKeyAction.deserialize
    return .DeleteKey action
  | 7 => do
    let action ← DeleteAccountAction.deserialize
    return .DeleteAccount action
  | 8 => do
    let action ← delegate
    return .Delegate action
  | 9 => do
    let action ← DeployGlobalContractAction.deserialize
    return .DeployGlobalContract action
  | 10 => do
    let action ← UseGlobalContractAction.deserialize
    return .UseGlobalContract action
  | tag => unexpectedTag tag

/-- `Action::deserialize_reader`, given the one of `SignedDelegateAction`. -/
def Action.deserializeWith (delegate : ByteStream IoError (SignedDelegateAction validate)) :
    ByteStream IoError (Action validate) := do
  let tag ← deserializeTag
  deserializeVariant delegate tag

/-- `NonDelegateAction::deserialize_reader`: the derived reader takes any action. -/
def NonDelegateAction.deserializeWith (action : ByteStream IoError (Action validate)) :
    ByteStream IoError (NonDelegateAction validate) := do
  let a ← action
  return ⟨a⟩

/-- The fields, given a reader for the actions inside. -/
def DelegateAction.deserializeWith
    (nonDelegate : ByteStream IoError (NonDelegateAction validate)) :
    ByteStream IoError (DelegateAction validate) := do
  let senderId ← AccountId.deserialize
  let receiverId ← AccountId.deserialize
  let actions ← deserializeVec nonDelegate
  let nonce ← U64.deserialize
  let maxBlockHeight ← U64.deserialize
  let publicKey ← PublicKey.deserializeReader
  return ⟨senderId, receiverId, actions, nonce, maxBlockHeight, publicKey⟩

/-- The two fields, given a reader for the actions inside. -/
def SignedDelegateAction.deserializeWith
    (nonDelegate : ByteStream IoError (NonDelegateAction validate)) :
    ByteStream IoError (SignedDelegateAction validate) := do
  let delegateAction ← DelegateAction.deserializeWith nonDelegate
  let signature ← Signature.deserialize
  return ⟨delegateAction, signature⟩

/-- At most `n` delegate actions inside each other. -/
def SignedDelegateAction.deserializeFuel :
    ℕ → ByteStream IoError (SignedDelegateAction validate)
  | 0 => .fail ⟨.Other, "stack overflow"⟩
  | n + 1 => SignedDelegateAction.deserializeWith <| NonDelegateAction.deserializeWith <|
      Action.deserializeWith <| SignedDelegateAction.deserializeFuel n

/-- The fields, given a reader for actions. -/
def NearTransaction.deserializeWith (action : ByteStream IoError (Action validate)) :
    ByteStream IoError (NearTransaction validate) := do
  let signerId ← AccountId.deserialize
  let signerPublicKey ← PublicKey.deserializeReader
  let nonce ← U64.deserialize
  let receiverId ← AccountId.deserialize
  let blockHash ← BlockHash.deserialize
  let actions ← deserializeVec action
  return ⟨signerId, signerPublicKey, nonce, receiverId, blockHash, actions⟩

def SignedTransaction.deserializeWith
    (transaction : ByteStream IoError (NearTransaction validate)) :
    ByteStream IoError (SignedTransaction validate) := do
  let transaction ← transaction
  let signature ← Signature.deserialize
  return ⟨transaction, signature⟩

/-- `SignedDelegateAction::deserialize`. -/
def SignedDelegateAction.deserialize : ByteStream IoError (SignedDelegateAction validate) :=
  withFuel SignedDelegateAction.deserializeFuel

/-- `Action::deserialize`. -/
def Action.deserialize : ByteStream IoError (Action validate) :=
  Action.deserializeWith SignedDelegateAction.deserialize

/-- `NonDelegateAction::deserialize`. -/
def NonDelegateAction.deserialize : ByteStream IoError (NonDelegateAction validate) :=
  NonDelegateAction.deserializeWith Action.deserialize

/-- `NearTransaction::deserialize`. -/
def NearTransaction.deserialize : ByteStream IoError (NearTransaction validate) :=
  withFuel fun n => NearTransaction.deserializeWith <| Action.deserializeWith <|
    SignedDelegateAction.deserializeFuel n

/-- `SignedTransaction::deserialize`. -/
def SignedTransaction.deserialize : ByteStream IoError (SignedTransaction validate) :=
  SignedTransaction.deserializeWith NearTransaction.deserialize

/-! ## Transactions as bytes -/

/-- `build_for_signing`. -/
def NearTransaction.buildForSigning (tx : NearTransaction validate) : Outcome IoError Bytes :=
  (toVec tx.serialize).expect IoError.debugKind "failed to serialize NEAR transaction"

/-- The payload is the Borsh form, unless it cannot be written. -/
theorem NearTransaction.buildForSigning_eq_ok_iff {tx : NearTransaction validate} {b : Bytes} :
    tx.buildForSigning = .ok b ↔ toVec tx.serialize = .ok b := Outcome.expect_eq_ok_iff

/-- `build_with_signature`. -/
def NearTransaction.buildWithSignature (tx : NearTransaction validate)
    (signature : Signature) : Outcome IoError Bytes :=
  (toVec (SignedTransaction.mk tx signature).serialize).expect IoError.debugKind
    "failed to serialize NEAR transaction"

/-- The signed bytes are the Borsh form of both. -/
theorem NearTransaction.buildWithSignature_eq_ok_iff {tx : NearTransaction validate}
    {signature : Signature} {b : Bytes} : tx.buildWithSignature signature = .ok b ↔
      toVec (SignedTransaction.mk tx signature).serialize = .ok b := Outcome.expect_eq_ok_iff

/-! ## Lengths that fit -/

mutual

/-- Every vector and every string in the action has a length below `2 ^ 32`. -/
def Action.Fits : Action validate → Prop
  | .CreateAccount _ => True
  | .DeployContract action => action.Fits
  | .FunctionCall action => action.Fits
  | .Transfer _ => True
  | .Stake _ => True
  | .AddKey action => action.Fits
  | .DeleteKey _ => True
  | .DeleteAccount action => action.Fits
  | .Delegate action => action.Fits
  | .DeployGlobalContract action => action.Fits
  | .UseGlobalContract action => action.Fits

/-- The signature has a fixed length. -/
def SignedDelegateAction.Fits : SignedDelegateAction validate → Prop
  | ⟨delegateAction, _⟩ => delegateAction.Fits

/-- The names, the number of actions and all actions fit. -/
def DelegateAction.Fits : DelegateAction validate → Prop
  | ⟨senderId, receiverId, actions, _, _, _⟩ => senderId.Fits ∧ receiverId.Fits ∧
      actions.length < 2 ^ 32 ∧ NonDelegateAction.AllFit actions

def NonDelegateAction.AllFit : List (NonDelegateAction validate) → Prop
  | [] => True
  | ⟨action⟩ :: actions => action.Fits ∧ NonDelegateAction.AllFit actions

end

/-- All actions of the list fit. -/
theorem NonDelegateAction.allFit_iff {actions : List (NonDelegateAction validate)} :
    NonDelegateAction.AllFit actions ↔ ∀ a ∈ actions, a.action.Fits := by
  induction actions with
  | nil => simp [NonDelegateAction.AllFit]
  | cons a actions ih =>
    obtain ⟨action⟩ := a
    rw [NonDelegateAction.AllFit, List.forall_mem_cons, ih]

theorem SignedDelegateAction.fits_iff {a : SignedDelegateAction validate} :
    a.Fits ↔ a.delegateAction.Fits := by
  cases a
  rfl

theorem DelegateAction.fits_iff {d : DelegateAction validate} :
    d.Fits ↔ d.senderId.Fits ∧ d.receiverId.Fits ∧ d.actions.length < 2 ^ 32 ∧
      ∀ a ∈ d.actions, a.action.Fits := by
  rw [← NonDelegateAction.allFit_iff]
  cases d
  rfl

/-- Every vector and every string in the transaction has a length below `2 ^ 32`. -/
def NearTransaction.Fits (tx : NearTransaction validate) : Prop :=
  tx.signerId.Fits ∧ tx.receiverId.Fits ∧ tx.actions.length < 2 ^ 32 ∧
    ∀ a ∈ tx.actions, a.Fits

/-! ## Codecs -/

/-- The variants, each at its own tag. -/
theorem Action.isCodec_variant {n : ℕ}
    {delegate : ByteStream IoError (SignedDelegateAction validate)}
    (h : IsCodec (fun a => a.Fits ∧ a.delegateDepth ≤ n) SignedDelegateAction.serialize delegate) :
    ∀ tag, IsCodec (fun a => a.variantIdx = tag ∧ a.Fits ∧ a.delegateDepth ≤ n)
      Action.serializeVariant (Action.deserializeVariant delegate tag)
  | 0 => by
    refine (CreateAccountAction.isCodec.variant CreateAccount fun _ => rfl).congr fun a => ?_
    cases a <;> simp [variantIdx, Fits, delegateDepth]
    exact ⟨⟨⟩⟩
  | 1 => by
    refine (DeployContractAction.isCodec.variant DeployContract fun _ => rfl).congr fun a => ?_
    cases a <;> simp [variantIdx, Fits, delegateDepth]
  | 2 => by
    refine (FunctionCallAction.isCodec.variant FunctionCall fun _ => rfl).congr fun a => ?_
    cases a <;> simp [variantIdx, Fits, delegateDepth]
  | 3 => by
    refine (TransferAction.isCodec.variant Transfer fun _ => rfl).congr fun a => ?_
    cases a <;> simp [variantIdx, Fits, delegateDepth]
  | 4 => by
    refine (StakeAction.isCodec.variant Stake fun _ => rfl).congr fun a => ?_
    cases a <;> simp [variantIdx, Fits, delegateDepth]
  | 5 => by
    refine (AddKeyAction.isCodec.variant AddKey fun _ => rfl).congr fun a => ?_
    cases a <;> simp [variantIdx, Fits, delegateDepth]
  | 6 => by
    refine (DeleteKeyAction.isCodec.variant DeleteKey fun _ => rfl).congr fun a => ?_
    cases a <;> simp [variantIdx, Fits, delegateDepth]
  | 7 => by
    refine (DeleteAccountAction.isCodec.variant DeleteAccount fun _ => rfl).congr fun a => ?_
    cases a <;> simp [variantIdx, Fits, delegateDepth]
  | 8 => by
    refine (h.variant Delegate fun _ => rfl).congr fun a => ?_
    cases a <;> simp [variantIdx, Fits, delegateDepth]
  | 9 => by
    refine (DeployGlobalContractAction.isCodec.variant DeployGlobalContract
      fun _ => rfl).congr fun a => ?_
    cases a <;> simp [variantIdx, Fits, delegateDepth]
  | 10 => by
    refine (UseGlobalContractAction.isCodec.variant UseGlobalContract fun _ => rfl).congr
      fun a => ?_
    cases a <;> simp [variantIdx, Fits, delegateDepth]
  -- no action has a tag above 10
  | _ + 11 => by
    refine (IsCodec.never _).congr fun a => ?_
    cases a <;> simp [variantIdx]

/-- The variants share the form of a tag with its content. -/
theorem Action.isCodec {n : ℕ} {delegate : ByteStream IoError (SignedDelegateAction validate)}
    (h : IsCodec (fun a => a.Fits ∧ a.delegateDepth ≤ n) SignedDelegateAction.serialize delegate) :
    IsCodec (fun a => a.Fits ∧ a.delegateDepth ≤ n) Action.serialize
      (Action.deserializeWith delegate) :=
  IsCodec.tagged variantIdx (by intro a; cases a <;> simp [variantIdx]) (Action.isCodec_variant h)

/-- A wrapper has the codec of what it wraps. -/
theorem NonDelegateAction.isCodec {n : ℕ} {action : ByteStream IoError (Action validate)}
    (h : IsCodec (fun a => a.Fits ∧ a.delegateDepth ≤ n) Action.serialize action) :
    IsCodec (fun a => a.action.Fits ∧ a.action.delegateDepth ≤ n) NonDelegateAction.serialize
      (NonDelegateAction.deserializeWith action) :=
  (h.last NonDelegateAction.action NonDelegateAction.mk fun _ => rfl).congr fun _ => by simp

/-- The actions inside have one level less. -/
theorem DelegateAction.isCodec {n : ℕ}
    {nonDelegate : ByteStream IoError (NonDelegateAction validate)}
    (h : IsCodec (fun a => a.action.Fits ∧ a.action.delegateDepth ≤ n)
      NonDelegateAction.serialize nonDelegate) :
    IsCodec (fun d => d.Fits ∧ d.delegateDepth ≤ n + 1) DelegateAction.serialize
      (DelegateAction.deserializeWith nonDelegate) := by
  rw [funext DelegateAction.serialize_eq]
  refine (AccountId.isCodec.field senderId (fun s => AccountId.isCodec.field receiverId
    (fun r => (isCodec_vec h).field actions (fun a => U64.isCodec.field nonce
      (fun n => U64.isCodec.field maxBlockHeight (fun m => PublicKey.isCodec.last publicKey
        (DelegateAction.mk s r a n m) fun _ => rfl) ?_) ?_) ?_) ?_) ?_).congr ?_
  · intro m d h
    exact (congrArg maxBlockHeight h.2).symm
  · intro n d h
    exact (congrArg nonce h.2.2).symm
  · intro a d h
    exact (congrArg actions h.2.2.2).symm
  · intro r d h
    exact (congrArg receiverId h.2.2.2.2).symm
  · intro s d h
    exact (congrArg senderId h.2.2.2.2.2).symm
  · intro d
    rw [DelegateAction.fits_iff, DelegateAction.delegateDepth_eq, Nat.succ_le_succ_iff,
      NonDelegateAction.maxDepth_le_iff]
    simp only [forall_and, and_assoc, DelegateAction.mk_fields, and_true]

/-- The delegate action and the signature behind it. -/
theorem SignedDelegateAction.isCodec {n : ℕ}
    {nonDelegate : ByteStream IoError (NonDelegateAction validate)}
    (h : IsCodec (fun a => a.action.Fits ∧ a.action.delegateDepth ≤ n)
      NonDelegateAction.serialize nonDelegate) :
    IsCodec (fun a => a.Fits ∧ a.delegateDepth ≤ n + 1) SignedDelegateAction.serialize
      (SignedDelegateAction.deserializeWith nonDelegate) := by
  rw [funext SignedDelegateAction.serialize_eq]
  refine ((DelegateAction.isCodec h).field delegateAction
    (fun d => Signature.isCodec.last signature (SignedDelegateAction.mk d) fun _ => rfl)
    fun _ _ h => (congrArg delegateAction h.2).symm).congr fun a => ?_
  rw [SignedDelegateAction.fits_iff, SignedDelegateAction.delegateDepth_eq]
  simp

/-- Fuel `n` is enough for exactly the delegate actions of depth at most `n`. -/
theorem SignedDelegateAction.isCodec_fuel (n : ℕ) :
    IsCodec (fun a : SignedDelegateAction validate => a.Fits ∧ a.delegateDepth ≤ n)
      SignedDelegateAction.serialize (SignedDelegateAction.deserializeFuel n) := by
  induction n with
  | zero =>
    refine (IsCodec.never _).congr fun a => ?_
    -- every delegate action has a depth of at least one
    rw [SignedDelegateAction.delegateDepth_eq, DelegateAction.delegateDepth_eq]
    simp
  | succ n ih => exact SignedDelegateAction.isCodec (NonDelegateAction.isCodec (Action.isCodec ih))

/-- A transaction, given a codec for its actions. -/
theorem NearTransaction.isCodec_with {n : ℕ} {action : ByteStream IoError (Action validate)}
    (h : IsCodec (fun a => a.Fits ∧ a.delegateDepth ≤ n) Action.serialize action) :
    IsCodec (fun tx => tx.Fits ∧ ∀ a ∈ tx.actions, a.delegateDepth ≤ n) NearTransaction.serialize
      (NearTransaction.deserializeWith action) := by
  refine (AccountId.isCodec.field signerId (fun s => PublicKey.isCodec.field signerPublicKey
    (fun k => U64.isCodec.field nonce (fun n => AccountId.isCodec.field receiverId
      (fun r => BlockHash.isCodec.field blockHash (fun b => (isCodec_vec h).last actions
        (NearTransaction.mk s k n r b) fun _ => rfl) ?_) ?_) ?_) ?_) ?_).congr ?_
  · intro b tx h
    exact (congrArg blockHash h.2).symm
  · intro r tx h
    exact (congrArg receiverId h.2.2).symm
  · intro n tx h
    exact (congrArg nonce h.2.2.2).symm
  · intro k tx h
    exact (congrArg signerPublicKey h.2.2.2.2).symm
  · intro s tx h
    exact (congrArg signerId h.2.2.2.2.2).symm
  · intro tx
    simp only [NearTransaction.Fits, forall_and, and_assoc, true_and, and_true]

/-! ## Fuel -/

/-- Readers that agree on short inputs make readers of actions that agree on longer ones. -/
theorem Action.agreeBelow {n : ℕ}
    {delegate delegate' : ByteStream IoError (SignedDelegateAction validate)}
    (h : AgreeBelow n delegate delegate') :
    AgreeBelow (n + 1) (Action.deserializeWith delegate) (Action.deserializeWith delegate') := by
  refine AgreeBelow.tagged fun tag => ?_
  -- only the variant with tag 8 reads a delegate action
  match tag with
  | 8 => exact h.bind_right _
  | 0 | 1 | 2 | 3 | 4 | 5 | 6 | 7 | 9 | 10 | _ + 11 => exact AgreeBelow.refl _ _

theorem SignedDelegateAction.agreeBelow {n : ℕ}
    {nonDelegate nonDelegate' : ByteStream IoError (NonDelegateAction validate)}
    (h : AgreeBelow n nonDelegate nonDelegate') (hc : Consumes nonDelegate) :
    AgreeBelow n (SignedDelegateAction.deserializeWith nonDelegate)
      (SignedDelegateAction.deserializeWith nonDelegate') := by
  refine AgreeBelow.bind_right ?_ _
  refine AgreeBelow.bind_left AccountId.isCodec.consumes fun _ => ?_
  refine AgreeBelow.bind_left AccountId.isCodec.consumes fun _ => ?_
  exact (h.vec hc).bind_right _

theorem NearTransaction.agreeBelow {n : ℕ} {action action' : ByteStream IoError (Action validate)}
    (h : AgreeBelow n action action') (hc : Consumes action) :
    AgreeBelow n (NearTransaction.deserializeWith action)
      (NearTransaction.deserializeWith action') := by
  refine AgreeBelow.bind_left AccountId.isCodec.consumes fun _ => ?_
  refine AgreeBelow.bind_left PublicKey.isCodec.consumes fun _ => ?_
  refine AgreeBelow.bind_left U64.isCodec.consumes fun _ => ?_
  refine AgreeBelow.bind_left AccountId.isCodec.consumes fun _ => ?_
  refine AgreeBelow.bind_left BlockHash.isCodec.consumes fun _ => ?_
  exact (h.vec hc).bind_right _

/-- An input shorter than the fuel does not notice the fuel. -/
theorem SignedDelegateAction.agreeBelow_fuel (n m : ℕ) (hnm : n ≤ m) :
    AgreeBelow n (@SignedDelegateAction.deserializeFuel validate n)
      (SignedDelegateAction.deserializeFuel m) := by
  induction n generalizing m with
  | zero => exact fun b hb => absurd hb (Nat.not_lt_zero _)
  | succ n ih =>
    obtain ⟨m, rfl⟩ := Nat.exists_eq_add_of_le' hnm
    -- one level takes one unit of fuel, and its tag one byte of the input
    have hinner := ih (m + n) (Nat.le_add_left ..)
    have hcodec := NonDelegateAction.isCodec (Action.isCodec
      (@SignedDelegateAction.isCodec_fuel validate n))
    exact SignedDelegateAction.agreeBelow ((Action.agreeBelow hinner).bind_right _) hcodec.consumes

/-- The equation of the derived reader. -/
theorem SignedDelegateAction.deserialize_eq : @SignedDelegateAction.deserialize validate =
    SignedDelegateAction.deserializeWith NonDelegateAction.deserialize := by
  funext b
  have hfuel : AgreeBelow b.length (@SignedDelegateAction.deserializeFuel validate b.length)
      SignedDelegateAction.deserialize := fun b' hb' =>
    (run_withFuel SignedDelegateAction.agreeBelow_fuel hb').symm
  have hcodec := NonDelegateAction.isCodec (Action.isCodec
    (@SignedDelegateAction.isCodec_fuel validate b.length))
  exact SignedDelegateAction.agreeBelow ((Action.agreeBelow hfuel).bind_right _) hcodec.consumes b
    (Nat.lt_succ_self _)

/-- With as much fuel as the input has bytes, every signed delegate action is read. -/
theorem SignedDelegateAction.isCodec_deserialize :
    IsCodec (@SignedDelegateAction.Fits validate) SignedDelegateAction.serialize
      SignedDelegateAction.deserialize :=
  IsCodec.withFuel SignedDelegateAction.delegateDepth SignedDelegateAction.isCodec_fuel
    SignedDelegateAction.agreeBelow_fuel

/-- A transaction that fits is read back, however deep its actions nest. -/
theorem NearTransaction.isCodec : IsCodec (@NearTransaction.Fits validate)
    NearTransaction.serialize NearTransaction.deserialize := by
  refine IsCodec.withFuel NearTransaction.delegateDepth (fun n => ?_) fun n m hnm => ?_
  · refine (NearTransaction.isCodec_with (Action.isCodec
      (SignedDelegateAction.isCodec_fuel n))).congr fun tx => ?_
    rw [NearTransaction.delegateDepth_le_iff]
  · have hcodec := Action.isCodec (@SignedDelegateAction.isCodec_fuel validate n)
    have hactions := (Action.agreeBelow
      (@SignedDelegateAction.agreeBelow_fuel validate n m hnm)).mono (Nat.le_succ n)
    exact NearTransaction.agreeBelow hactions hcodec.consumes

/-- The equation of the derived reader. -/
theorem NearTransaction.deserialize_eq : @NearTransaction.deserialize validate =
    NearTransaction.deserializeWith Action.deserialize := by
  funext b
  have hfuel : AgreeBelow (b.length + 1)
      (@SignedDelegateAction.deserializeFuel validate (b.length + 1))
      SignedDelegateAction.deserialize := fun b' hb' =>
    (run_withFuel SignedDelegateAction.agreeBelow_fuel hb').symm
  have hcodec := Action.isCodec (@SignedDelegateAction.isCodec_fuel validate (b.length + 1))
  exact NearTransaction.agreeBelow (Action.agreeBelow hfuel) hcodec.consumes b
    ((Nat.lt_succ_self _).trans (Nat.lt_succ_self _))

/-- A signed transaction is read back with its signature. -/
theorem SignedTransaction.isCodec :
    IsCodec (fun tx : SignedTransaction validate => tx.transaction.Fits)
      SignedTransaction.serialize SignedTransaction.deserialize :=
  (NearTransaction.isCodec.field transaction
    (fun t => Signature.isCodec.last signature (SignedTransaction.mk t) fun _ => rfl)
    fun _ _ h => (congrArg transaction h.2).symm).congr fun _ => by simp

/-! ## Transactions and their bytes -/

/-- The two builders and the readers of the transaction and of its signed form.
A transaction whose lengths fit is built, and read back in front of anything;
the signed form is the same bytes followed by those of the signature; and a
complete input for a transaction is what is built from it. -/
theorem NearTransaction.buildForSigning_bijective :
    (∀ tx : NearTransaction validate, tx.Fits → ∃ b, tx.buildForSigning = .ok b ∧
      (∀ rest, NearTransaction.deserialize.run (b ++ rest) = .ok (tx, rest)) ∧
      ∀ signature : Signature, ∃ s, toVec signature.serialize = .ok s ∧
        tx.buildWithSignature signature = .ok (b ++ s) ∧
        ∀ rest, SignedTransaction.deserialize.run (b ++ s ++ rest) =
          .ok (⟨tx, signature⟩, rest)) ∧
    (∀ (b : Bytes) (tx : NearTransaction validate),
      tryFromSlice NearTransaction.deserialize b = .ok tx → tx.buildForSigning = .ok b) ∧
    (∀ b, PublicKey.deserialize.run b = PublicKey.deserializeReader.run b) ∧
    ∀ (key : PublicKey) (b rest : Bytes), PublicKey.deserialize.run b = .ok (key, rest) ↔
      ∃ k, toVec key.serialize = .ok k ∧ b = k ++ rest := by
  refine ⟨fun tx htx => ?_, fun b tx h => ?_, fun b => ?_, fun key b rest => ?_⟩
  · obtain ⟨b, hw, hr⟩ := NearTransaction.isCodec.write tx htx
    refine ⟨b, ?_, hr, fun signature => ?_⟩
    · exact NearTransaction.buildForSigning_eq_ok_iff.mpr (toVec_of_writes hw)
    · obtain ⟨s, hws, hrs⟩ := Signature.isCodec.write signature trivial
      have hsigned : toVec (SignedTransaction.mk tx signature).serialize = .ok (b ++ s) :=
        toVec_of_writes (hw.bind hws)
      refine ⟨s, toVec_of_writes hws, ?_, ?_⟩
      · exact NearTransaction.buildWithSignature_eq_ok_iff.mpr hsigned
      · exact ((SignedTransaction.isCodec.toVec_eq_ok_iff htx).mp hsigned).2
  · rw [tryFromSlice_eq_ok_iff, NearTransaction.isCodec.run_eq_ok_iff] at h
    obtain ⟨-, bs, hbs, rfl⟩ := h
    rw [List.append_nil]
    exact NearTransaction.buildForSigning_eq_ok_iff.mpr hbs
  · rw [PublicKey.deserialize_eq_deserializeReader]
  · rw [PublicKey.deserialize_eq_deserializeReader, PublicKey.isCodec.run_eq_ok_iff]
    simp

def sampleSignature : Signature := .SECP256K1 ⟨List.Vector.replicate 65 0⟩

/-- A transfer on behalf of `alice.near`, for somebody else to send. -/
def sampleDelegate : SignedDelegateAction lengthRule :=
  ⟨⟨alice, bob, [⟨.Transfer ⟨⟨1⟩⟩⟩], ⟨1⟩, ⟨100⟩, sampleKey⟩, sampleSignature⟩

/-- A transaction with a delegate action in it. -/
def sampleTransaction : NearTransaction lengthRule :=
  ⟨alice, sampleKey, ⟨1⟩, bob, ⟨List.Vector.replicate 32 4⟩,
    [.CreateAccount ⟨⟩, .Delegate sampleDelegate]⟩

theorem alice_fits : alice.Fits := by
  show (asBytes "alice.near").length < 2 ^ 32
  decide

theorem bob_fits : bob.Fits := by
  show (asBytes "bob.near").length < 2 ^ 32
  decide

/-- All lengths in the sample are small. -/
theorem sampleTransaction_fits : sampleTransaction.Fits := by
  refine ⟨alice_fits, bob_fits, by decide, ?_⟩
  show ∀ a ∈ [Action.CreateAccount ⟨⟩, .Delegate sampleDelegate], a.Fits
  simp only [List.forall_mem_cons, List.not_mem_nil, false_implies, implies_true, and_true]
  exact ⟨trivial, alice_fits, bob_fits, by decide, trivial, trivial⟩

/-- The payload of the sample is read back. -/
theorem NearTransaction.buildForSigning_bijective_sample :
    ∃ b, sampleTransaction.buildForSigning = .ok b ∧
      tryFromSlice NearTransaction.deserialize b = .ok sampleTransaction ∧
      ∀ rest, NearTransaction.deserialize.run (b ++ rest) = .ok (sampleTransaction, rest) := by
  obtain ⟨hbuild, hcomplete, -⟩ := NearTransaction.buildForSigning_bijective
  obtain ⟨b, -, hread, -⟩ := hbuild sampleTransaction sampleTransaction_fits
  have hslice : tryFromSlice NearTransaction.deserialize b = .ok sampleTransaction := by
    rw [tryFromSlice_eq_ok_iff, ← hread [], List.append_nil]
  exact ⟨b, hcomplete b sampleTransaction hslice, hslice, hread⟩

end Near
