/-
# Delegate actions inside delegate actions

`TryFrom<Action> for NonDelegateAction` refuses a delegate action.  The derived
readers of Borsh and of JSON do not go through it: from which inputs they read a
value that keeps the invariant all the same.
-/
import OmniTransaction.NearDocuments
import OmniTransaction.NearSerialization

open ByteOrder Rust Borsh Serde

namespace Near

variable {validate : String → Option String}

/-! ## The invariant -/

/-- The variant that may not stand in a delegate action. -/
def Action.isDelegate : Action validate → Bool
  | .Delegate _ => true
  | _ => false

/-- The check that `NonDelegateAction` makes when it is built from an action. -/
theorem NonDelegateAction.tryFrom_eq_ok_iff {action : Action validate}
    {a : NonDelegateAction validate} :
    NonDelegateAction.tryFrom action = .ok a ↔ a.action = action ∧ action.isDelegate = false := by
  obtain ⟨action'⟩ := a
  cases action <;> simp [NonDelegateAction.tryFrom, Action.isDelegate, eq_comm]

mutual

/-- No `NonDelegateAction` inside the action wraps a delegate action, at any
depth. -/
def Action.WellNested : Action validate → Prop
  | .Delegate action => action.WellNested
  | _ => True

def SignedDelegateAction.WellNested : SignedDelegateAction validate → Prop
  | ⟨delegateAction, _⟩ => delegateAction.WellNested

def DelegateAction.WellNested : DelegateAction validate → Prop
  | ⟨_, _, actions, _, _, _⟩ => NonDelegateAction.AllWellNested actions

/-- None of them is a delegate action, and none has one inside. -/
def NonDelegateAction.AllWellNested : List (NonDelegateAction validate) → Prop
  | [] => True
  | ⟨action⟩ :: actions => action.isDelegate = false ∧ action.WellNested ∧
      NonDelegateAction.AllWellNested actions

end

/-- No `NonDelegateAction` inside the transaction wraps a delegate action. -/
def NearTransaction.WellNested (tx : NearTransaction validate) : Prop :=
  ∀ a ∈ tx.actions, a.WellNested

/-- Other variants have no actions inside. -/
theorem Action.wellNested_of_isDelegate {a : Action validate} (h : a.isDelegate = false) :
    a.WellNested := by
  cases a with
  | Delegate action => cases h
  | _ => trivial

/-- That none is a delegate action is all that is asked. -/
theorem NonDelegateAction.allWellNested_iff {actions : List (NonDelegateAction validate)} :
    NonDelegateAction.AllWellNested actions ↔ ∀ a ∈ actions, a.action.isDelegate = false := by
  induction actions with
  | nil => simp [NonDelegateAction.AllWellNested]
  | cons a actions ih =>
    obtain ⟨action⟩ := a
    rw [NonDelegateAction.AllWellNested, List.forall_mem_cons, ih]
    exact and_congr_right fun h => and_iff_right (Action.wellNested_of_isDelegate h)

/-- One level is enough to see the invariant: below it there are no delegate
actions any more. -/
theorem SignedDelegateAction.wellNested_iff {a : SignedDelegateAction validate} :
    a.WellNested ↔ ∀ x ∈ a.delegateAction.actions, x.action.isDelegate = false := by
  obtain ⟨⟨_, _, actions, _, _, _⟩, _⟩ := a
  exact NonDelegateAction.allWellNested_iff

theorem Action.delegateDepth_eq_zero_iff {a : Action validate} :
    a.delegateDepth = 0 ↔ a.isDelegate = false := by
  cases a with
  | Delegate action =>
    rw [Action.delegateDepth, SignedDelegateAction.delegateDepth_eq,
      DelegateAction.delegateDepth_eq]
    simp [Action.isDelegate]
  | _ => simp [Action.delegateDepth, Action.isDelegate]

/-- One level is the delegate action itself. -/
theorem SignedDelegateAction.delegateDepth_le_one_iff {a : SignedDelegateAction validate} :
    a.delegateDepth ≤ 1 ↔ a.WellNested := by
  rw [SignedDelegateAction.delegateDepth_eq, DelegateAction.delegateDepth_eq,
    Nat.succ_le_succ_iff, NonDelegateAction.maxDepth_le_iff, SignedDelegateAction.wellNested_iff]
  simp only [Nat.le_zero, Action.delegateDepth_eq_zero_iff]

/-- The nesting stops after one level. -/
theorem Action.delegateDepth_le_one_iff {a : Action validate} :
    a.delegateDepth ≤ 1 ↔ a.WellNested := by
  cases a with
  | Delegate action => exact SignedDelegateAction.delegateDepth_le_one_iff
  | _ => exact iff_of_true (Nat.zero_le 1) trivial

theorem NearTransaction.delegateDepth_le_one_iff {tx : NearTransaction validate} :
    tx.delegateDepth ≤ 1 ↔ tx.WellNested := by
  rw [NearTransaction.delegateDepth_le_iff]
  exact forall₂_congr fun _ _ => Action.delegateDepth_le_one_iff

/-! ## Borsh -/

section Places

variable (validate)

/-- The inputs from which the elements of a `Vec<NonDelegateAction>` are read. -/
def SignedDelegateAction.nonDelegateInputs : Bytes → List Bytes :=
  after (@AccountId.deserialize validate) fun _ =>
    after (@AccountId.deserialize validate) fun _ =>
      after deserializeLength (elementInputs (@NonDelegateAction.deserialize validate))

/-- Only an action with the tag 8 has such inputs inside. -/
def Action.nonDelegateInputs : Bytes → List Bytes
  | 8 :: b => SignedDelegateAction.nonDelegateInputs validate b
  | _ => []

/-- The inputs at which a transaction reads non-delegate actions. -/
def NearTransaction.nonDelegateInputs : Bytes → List Bytes :=
  after (@AccountId.deserialize validate) fun _ => after PublicKey.deserializeReader fun _ =>
    after U64.deserialize fun _ => after (@AccountId.deserialize validate) fun _ =>
      after BlockHash.deserialize fun _ => after deserializeLength fun n b =>
        (elementInputs (@Action.deserialize validate) n b).flatMap
          (Action.nonDelegateInputs validate)

end Places

/-- An action was read by the reader of one tag; the variant is that tag's. -/
theorem Action.cases_of_deserializeVariant
    {delegate : ByteStream IoError (SignedDelegateAction validate)} {tag : ℕ} {b rest : Bytes}
    {a : Action validate} (h : (Action.deserializeVariant delegate tag).run b = .ok (a, rest)) :
    (∃ d, tag = 8 ∧ a = .Delegate d ∧ delegate.run b = .ok (d, rest)) ∨
      tag ≠ 8 ∧ a.isDelegate = false := by
  match tag with
  | 8 =>
    obtain ⟨d, hd, rfl⟩ := ByteStream.run_bind_pure_eq_ok_iff.mp h
    exact .inl ⟨d, rfl, rfl, hd⟩
  -- the other variants hold no delegate action
  | 0 | 1 | 2 | 3 | 4 | 5 | 6 | 7 | 9 | 10 =>
    obtain ⟨x, -, rfl⟩ := ByteStream.run_bind_pure_eq_ok_iff.mp h
    exact .inr ⟨by decide, rfl⟩
  | _ + 11 => cases h

/-- An action is a delegate action if its input starts with the tag 8. -/
theorem Action.cases_of_deserialize {b rest : Bytes} {a : Action validate}
    (h : Action.deserialize.run b = .ok (a, rest)) :
    (∃ d b', b = 8 :: b' ∧ a = .Delegate d ∧ SignedDelegateAction.deserialize.run b' =
      .ok (d, rest)) ∨ b.head? ≠ some 8 ∧ a.isDelegate = false := by
  obtain ⟨tag, b', htag, ha⟩ := ByteStream.run_bind_eq_ok_iff.mp h
  obtain ⟨v, rfl, rfl⟩ := eq_cons_of_run_deserializeTag htag
  rcases Action.cases_of_deserializeVariant ha with ⟨d, hv, hd, hrun⟩ | ⟨hv, ha⟩
  · obtain rfl := UInt8.toNat_inj.mp (hv.trans (UInt8.toNat_ofNat (n := 8)).symm)
    exact .inl ⟨d, b', rfl, hd, hrun⟩
  · refine .inr ⟨?_, ha⟩
    rw [List.head?_cons, ne_eq, Option.some.injEq]
    rintro rfl
    exact hv rfl

/-- The first byte tells whether it is a delegate action. -/
theorem NonDelegateAction.isDelegate_iff {b rest : Bytes} {a : NonDelegateAction validate}
    (h : NonDelegateAction.deserialize.run b = .ok (a, rest)) :
    a.action.isDelegate = false ↔ b.head? ≠ some 8 := by
  obtain ⟨action, haction, rfl⟩ := ByteStream.run_bind_pure_eq_ok_iff.mp h
  rcases Action.cases_of_deserialize haction with ⟨d, b', rfl, rfl, -⟩ | ⟨hhead, hdelegate⟩
  · exact iff_of_false Bool.noConfusion fun h => h rfl
  · exact iff_of_true hdelegate hhead

/-- A signed delegate action is well nested when none of its actions was read from
an input with the tag 8. -/
theorem SignedDelegateAction.wellNested_iff_nonDelegateInputs {b rest : Bytes}
    {a : SignedDelegateAction validate}
    (h : SignedDelegateAction.deserialize.run b = .ok (a, rest)) :
    a.WellNested ↔ ∀ i ∈ SignedDelegateAction.nonDelegateInputs validate b,
      i.head? ≠ some 8 := by
  rw [SignedDelegateAction.deserialize_eq] at h
  obtain ⟨d, b₁, hd, h⟩ := ByteStream.run_bind_eq_ok_iff.mp h
  obtain ⟨signature, -, rfl⟩ := ByteStream.run_bind_pure_eq_ok_iff.mp h
  obtain ⟨senderId, b₃, hsender, hd⟩ := ByteStream.run_bind_eq_ok_iff.mp hd
  obtain ⟨receiverId, b₄, hreceiver, hd⟩ := ByteStream.run_bind_eq_ok_iff.mp hd
  obtain ⟨actions, b₅, hactions, hd⟩ := ByteStream.run_bind_eq_ok_iff.mp hd
  obtain ⟨len, b₆, hlen, hactions⟩ := ByteStream.run_bind_eq_ok_iff.mp hactions
  -- the fields behind the actions do not matter
  have hdactions : d.actions = actions := by
    obtain ⟨nonce, b₇, -, hd⟩ := ByteStream.run_bind_eq_ok_iff.mp hd
    obtain ⟨maxBlockHeight, b₈, -, hd⟩ := ByteStream.run_bind_eq_ok_iff.mp hd
    obtain ⟨publicKey, -, rfl⟩ := ByteStream.run_bind_pure_eq_ok_iff.mp hd
    rfl
  rw [SignedDelegateAction.wellNested_iff, SignedDelegateAction.nonDelegateInputs,
    after_of_run hsender, after_of_run hreceiver, after_of_run hlen, hdactions]
  exact forall_elementInputs_iff (fun _ _ _ => NonDelegateAction.isDelegate_iff) hactions

/-- The tags at which the actions inside begin decide. -/
theorem Action.wellNested_iff_nonDelegateInputs {b rest : Bytes} {a : Action validate}
    (h : Action.deserialize.run b = .ok (a, rest)) :
    a.WellNested ↔ ∀ i ∈ Action.nonDelegateInputs validate b, i.head? ≠ some 8 := by
  rcases Action.cases_of_deserialize h with ⟨d, b', rfl, rfl, hd⟩ | ⟨hhead, hdelegate⟩
  · exact SignedDelegateAction.wellNested_iff_nonDelegateInputs hd
  · have hinputs : Action.nonDelegateInputs validate b = [] := by
      unfold Action.nonDelegateInputs
      split
      · exact absurd rfl hhead
      · rfl
    rw [hinputs]
    exact iff_of_true (Action.wellNested_of_isDelegate hdelegate) (by simp)

theorem NearTransaction.wellNested_iff_nonDelegateInputs {b rest : Bytes}
    {tx : NearTransaction validate} (h : NearTransaction.deserialize.run b = .ok (tx, rest)) :
    tx.WellNested ↔ ∀ i ∈ NearTransaction.nonDelegateInputs validate b, i.head? ≠ some 8 := by
  rw [NearTransaction.deserialize_eq] at h
  obtain ⟨signerId, b₁, hsigner, h⟩ := ByteStream.run_bind_eq_ok_iff.mp h
  obtain ⟨signerPublicKey, b₂, hkey, h⟩ := ByteStream.run_bind_eq_ok_iff.mp h
  obtain ⟨nonce, b₃, hnonce, h⟩ := ByteStream.run_bind_eq_ok_iff.mp h
  obtain ⟨receiverId, b₄, hreceiver, h⟩ := ByteStream.run_bind_eq_ok_iff.mp h
  obtain ⟨blockHash, b₅, hhash, h⟩ := ByteStream.run_bind_eq_ok_iff.mp h
  obtain ⟨actions, hactions, rfl⟩ := ByteStream.run_bind_pure_eq_ok_iff.mp h
  obtain ⟨len, b₇, hlen, hactions⟩ := ByteStream.run_bind_eq_ok_iff.mp hactions
  rw [NearTransaction.nonDelegateInputs, after_of_run hsigner, after_of_run hkey,
    after_of_run hnonce, after_of_run hreceiver, after_of_run hhash, after_of_run hlen,
    List.forall_mem_flatMap]
  exact forall_elementInputs_iff (fun _ _ _ => Action.wellNested_iff_nonDelegateInputs) hactions

/-! ## JSON -/

/-- The names of the fields, as the derived readers list them. -/
def DelegateAction.FIELDS : List String :=
  ["sender_id", "receiver_id", "actions", "nonce", "max_block_height", "public_key"]

/-- The names of the fields, for the array form. -/
def SignedDelegateAction.FIELDS : List String := ["delegate_action", "signature"]

/-- The names of the fields, for the array form. -/
def NearTransaction.FIELDS : List String :=
  ["signer_id", "signer_public_key", "nonce", "receiver_id", "block_hash", "actions"]

/-- The documents from which the elements of a `Vec<NonDelegateAction>` are
read. -/
def DelegateAction.nonDelegateDocs (doc : Json) : List Json :=
  match doc.field DelegateAction.FIELDS "actions" with
  | some actions => actions.items
  | none => []

/-- The documents of the actions in the delegate action. -/
def SignedDelegateAction.nonDelegateDocs (doc : Json) : List Json :=
  match doc.field SignedDelegateAction.FIELDS "delegate_action" with
  | some delegateAction => DelegateAction.nonDelegateDocs delegateAction
  | none => []

/-- Only an action under the name `Delegate` has such documents inside. -/
def Action.nonDelegateDocs (doc : Json) : List Json :=
  match doc.content "Delegate" with
  | some action => SignedDelegateAction.nonDelegateDocs action
  | none => []

/-- The documents of the actions in all delegate actions. -/
def NearTransaction.nonDelegateDocs (doc : Json) : List Json :=
  match doc.field NearTransaction.FIELDS "actions" with
  | some actions => actions.items.flatMap Action.nonDelegateDocs
  | none => []

variable {codecs : TextCodecs}

/-- Every variant but `Delegate` reads actions of another kind. -/
theorem Action.isDelegate_of_variant
    {delegate : Json → Outcome DeError (SignedDelegateAction validate)} {level : ℕ} {tag : String}
    {read : Json → Outcome DeError (Action validate)}
    (hread : (tag, .newtype read) ∈ Action.variants codecs delegate level)
    (htag : tag ≠ "Delegate") {doc : Json} {a : Action validate} (h : read doc = .ok a) :
    a.isDelegate = false := by
  simp only [Action.variants, Variant.of, List.mem_cons, Prod.mk.injEq, Variant.newtype.injEq,
    List.not_mem_nil, or_false] at hread
  rcases hread with ⟨-, rfl⟩ | ⟨-, rfl⟩ | ⟨-, rfl⟩ | ⟨-, rfl⟩ | ⟨-, rfl⟩ | ⟨-, rfl⟩ | ⟨-, rfl⟩ |
    ⟨-, rfl⟩ | ⟨rfl, -⟩ | ⟨-, rfl⟩ | ⟨-, rfl⟩
  case inr.inr.inr.inr.inr.inr.inr.inr.inl => exact absurd rfl htag
  -- each of the others wraps what it reads in its own variant
  all_goals
    obtain ⟨x, -, h⟩ := Outcome.bind_eq_ok_iff.mp h
    obtain rfl := Outcome.ok.inj h
    rfl

/-- An action is a delegate action if its document has the name `Delegate`. -/
theorem Action.cases_of_fromJson {level : ℕ} {doc : Json} {a : Action validate}
    (h : Action.fromJson codecs level doc = .ok a) :
    (∃ d value level', doc.content "Delegate" = some value ∧ a = .Delegate d ∧
      SignedDelegateAction.fromJson codecs level' value = .ok d) ∨
    doc.content "Delegate" = none ∧ a.isDelegate = false := by
  rw [Action.fromJson_eq] at h
  rcases variant_of_readEnum h with ⟨tag, hlookup, -⟩ | ⟨tag, read, value, hlookup, rfl, ha⟩
  · -- no variant of `Action` is without content
    have hunit := mem_of_lookup hlookup
    simp [Action.variants, Variant.of] at hunit
  · rw [Json.content]
    by_cases htag : tag = "Delegate"
    · obtain rfl := htag
      obtain rfl := Variant.newtype.inj (Option.some.inj hlookup)
      obtain ⟨d, hd, ha⟩ := Outcome.bind_eq_ok_iff.mp ha
      obtain rfl := Outcome.ok.inj ha
      obtain ⟨level', hd⟩ := exists_of_below hd
      exact .inl ⟨d, value, level', if_pos rfl, rfl, hd⟩
    · exact .inr ⟨if_neg htag, Action.isDelegate_of_variant (mem_of_lookup hlookup) htag ha⟩

/-- The name of the variant in the document tells. -/
theorem NonDelegateAction.isDelegate_iff_content {level : ℕ} {doc : Json}
    {a : NonDelegateAction validate} (h : NonDelegateAction.fromJson codecs level doc = .ok a) :
    a.action.isDelegate = false ↔ doc.content "Delegate" = none := by
  obtain ⟨action, haction, ha⟩ := Outcome.bind_eq_ok_iff.mp h
  obtain rfl := Outcome.ok.inj ha
  rcases Action.cases_of_fromJson haction with ⟨d, value, level', hvalue, rfl, -⟩ | ⟨hnone, ha⟩
  · rw [hvalue]
    exact iff_of_false Bool.noConfusion (Option.some_ne_none value)
  · exact iff_of_true ha hnone

/-- A delegate action is well nested when none of its actions was read from a
document with the name `Delegate`. -/
theorem DelegateAction.isDelegate_iff_nonDelegateDocs {level : ℕ} {doc : Json}
    {d : DelegateAction validate} (h : DelegateAction.fromJson codecs level doc = .ok d) :
    (∀ a ∈ d.actions, a.action.isDelegate = false) ↔
      ∀ v ∈ DelegateAction.nonDelegateDocs doc, v.content "Delegate" = none := by
  rw [DelegateAction.fromJson_eq] at h
  obtain ⟨get, hget, hfield⟩ := read_of_readStruct h
  simp only [Fields.read_field_eq_ok_iff, Fields.read_start_eq_ok_iff] at hget
  obtain ⟨_, ⟨_, ⟨_, ⟨_, ⟨_, ⟨_, rfl, _, -, s, -, rfl⟩, _, -, r, -, rfl⟩, value, hvalue, actions,
    hactions, rfl⟩, _, -, n, -, rfl⟩, _, -, m, -, rfl⟩, _, -, k, -, rfl⟩ := hget
  have hdoc : doc.field DelegateAction.FIELDS "actions" = some value := hfield _ _ hvalue
  obtain ⟨level', hactions⟩ := exists_of_below hactions
  rw [NonDelegateAction.vecFromJson_eq] at hactions
  rw [DelegateAction.nonDelegateDocs, hdoc]
  refine forall_items_iff (fun item a ha => ?_) hactions
  obtain ⟨level'', ha⟩ := exists_of_below ha
  exact NonDelegateAction.isDelegate_iff_content ha

/-- The documents of the actions inside decide. -/
theorem SignedDelegateAction.wellNested_iff_nonDelegateDocs {level : ℕ} {doc : Json}
    {a : SignedDelegateAction validate}
    (h : SignedDelegateAction.fromJson codecs level doc = .ok a) :
    a.WellNested ↔
      ∀ v ∈ SignedDelegateAction.nonDelegateDocs doc, v.content "Delegate" = none := by
  rw [SignedDelegateAction.fromJson_eq] at h
  obtain ⟨get, hget, hfield⟩ := read_of_readStruct h
  simp only [Fields.read_field_eq_ok_iff, Fields.read_start_eq_ok_iff] at hget
  obtain ⟨_, ⟨_, rfl, value, hvalue, d, hd, rfl⟩, _, -, signature, -, rfl⟩ := hget
  have hdoc : doc.field SignedDelegateAction.FIELDS "delegate_action" = some value :=
    hfield _ _ hvalue
  obtain ⟨level', hd⟩ := exists_of_below hd
  rw [SignedDelegateAction.wellNested_iff, SignedDelegateAction.nonDelegateDocs, hdoc]
  exact DelegateAction.isDelegate_iff_nonDelegateDocs hd

/-- The documents of the actions inside decide. -/
theorem Action.wellNested_iff_nonDelegateDocs {level : ℕ} {doc : Json} {a : Action validate}
    (h : Action.fromJson codecs level doc = .ok a) :
    a.WellNested ↔ ∀ v ∈ Action.nonDelegateDocs doc, v.content "Delegate" = none := by
  rw [Action.nonDelegateDocs]
  rcases Action.cases_of_fromJson h with ⟨d, value, level', hvalue, rfl, hd⟩ | ⟨hnone, ha⟩
  · rw [hvalue]
    exact SignedDelegateAction.wellNested_iff_nonDelegateDocs hd
  · rw [hnone]
    exact iff_of_true (Action.wellNested_of_isDelegate ha) (by simp)

theorem NearTransaction.wellNested_iff_nonDelegateDocs {level : ℕ} {doc : Json}
    {tx : NearTransaction validate}
    (h : NearTransaction.fromDocument codecs level doc = .ok tx) :
    tx.WellNested ↔ ∀ v ∈ NearTransaction.nonDelegateDocs doc, v.content "Delegate" = none := by
  obtain ⟨get, hget, hfield⟩ := read_of_readStruct h
  simp only [Fields.read_field_eq_ok_iff, Fields.read_start_eq_ok_iff] at hget
  obtain ⟨_, ⟨_, ⟨_, ⟨_, ⟨_, ⟨_, rfl, _, -, s, -, rfl⟩, _, -, k, -, rfl⟩, _, -, n, -, rfl⟩, _, -,
    r, -, rfl⟩, _, -, b, -, rfl⟩, value, hvalue, actions, hactions, rfl⟩ := hget
  have hdoc : doc.field NearTransaction.FIELDS "actions" = some value := hfield _ _ hvalue
  obtain ⟨level', hactions⟩ := exists_of_below hactions
  rw [NearTransaction.nonDelegateDocs, hdoc]
  show (∀ a ∈ actions, a.WellNested) ↔
    ∀ v ∈ value.items.flatMap Action.nonDelegateDocs, v.content "Delegate" = none
  rw [List.forall_mem_flatMap]
  refine forall_items_iff (fun item a ha => ?_) hactions
  obtain ⟨level'', ha⟩ := exists_of_below ha
  exact Action.wellNested_iff_nonDelegateDocs ha

/-! ## Every way to a `NonDelegateAction` -/

/-- A text is parsed and then read with all levels. -/
theorem fromStr_eq_ok_iff {α : Type} {parse : String → Option Json} {read : Reader α}
    {json : String} {a : α} : fromStr parse read json = .ok a ↔
      ∃ doc, parse json = some doc ∧ read recursionLimit doc = .ok a := by
  unfold fromStr
  cases parse json <;> simp

/-- The checked conversion keeps the invariant.  The derived readers keep it, and
with it the bound on the nesting, exactly on the inputs in which no
`NonDelegateAction` starts with the tag or the name of a delegate action. -/
theorem NonDelegateAction.wellNested_iff_of_readers (codecs : TextCodecs)
    (parse : String → Option Json) :
    (∀ (action : Action validate) (a : NonDelegateAction validate),
      NonDelegateAction.tryFrom action = .ok a → a.action.isDelegate = false) ∧
    (∀ (b rest : Bytes) (a : NonDelegateAction validate),
      NonDelegateAction.deserialize.run b = .ok (a, rest) →
      (a.action.isDelegate = false ↔ b.head? ≠ some 8)) ∧
    (∀ (json : String) (a : NonDelegateAction validate),
      fromStr parse (NonDelegateAction.fromJson codecs) json = .ok a →
      ∃ doc, parse json = some doc ∧
        (a.action.isDelegate = false ↔ doc.content "Delegate" = none)) ∧
    (∀ (b rest : Bytes) (tx : NearTransaction validate),
      NearTransaction.deserialize.run b = .ok (tx, rest) →
      ((tx.WellNested ∧ tx.delegateDepth ≤ 1) ↔
        ∀ i ∈ NearTransaction.nonDelegateInputs validate b, i.head? ≠ some 8)) ∧
    (∀ (b rest : Bytes) (a : SignedDelegateAction validate),
      SignedDelegateAction.deserialize.run b = .ok (a, rest) →
      ((a.WellNested ∧ a.delegateDepth ≤ 1) ↔
        ∀ i ∈ SignedDelegateAction.nonDelegateInputs validate b, i.head? ≠ some 8)) ∧
    (∀ (json : String) (tx : NearTransaction validate),
      NearTransaction.fromJson codecs parse json = .ok tx → ∃ doc, parse json = some doc ∧
        ((tx.WellNested ∧ tx.delegateDepth ≤ 1) ↔
          ∀ v ∈ NearTransaction.nonDelegateDocs doc, v.content "Delegate" = none)) ∧
    ∀ (json : String) (a : SignedDelegateAction validate),
      fromStr parse (SignedDelegateAction.fromJson codecs) json = .ok a →
      ∃ doc, parse json = some doc ∧
        ((a.WellNested ∧ a.delegateDepth ≤ 1) ↔
          ∀ v ∈ SignedDelegateAction.nonDelegateDocs doc, v.content "Delegate" = none) := by
  simp only [NearTransaction.delegateDepth_le_one_iff,
    SignedDelegateAction.delegateDepth_le_one_iff, and_self]
  refine ⟨fun action a h => ?_, fun b rest a h => ?_, fun json a h => ?_, fun b rest tx h => ?_,
    fun b rest a h => ?_, fun json tx h => ?_, fun json a h => ?_⟩
  · obtain ⟨rfl, hdelegate⟩ := NonDelegateAction.tryFrom_eq_ok_iff.mp h
    exact hdelegate
  · exact NonDelegateAction.isDelegate_iff h
  · obtain ⟨doc, hdoc, h⟩ := fromStr_eq_ok_iff.mp h
    exact ⟨doc, hdoc, NonDelegateAction.isDelegate_iff_content h⟩
  · exact NearTransaction.wellNested_iff_nonDelegateInputs h
  · exact SignedDelegateAction.wellNested_iff_nonDelegateInputs h
  · obtain ⟨doc, hdoc, h⟩ := fromStr_eq_ok_iff.mp h
    exact ⟨doc, hdoc, NearTransaction.wellNested_iff_nonDelegateDocs h⟩
  · obtain ⟨doc, hdoc, h⟩ := fromStr_eq_ok_iff.mp h
    exact ⟨doc, hdoc, SignedDelegateAction.wellNested_iff_nonDelegateDocs h⟩

/-- A transaction is read back from its text if its amounts are small and it is not
nested too deep. -/
theorem NearTransaction.fromJson_parserOf (codecs : TextCodecs) {tx : NearTransaction validate}
    (hfit : tx.AmountsFit) (hdepth : tx.delegateDepth ≤ 29) :
    NearTransaction.fromJson codecs (parserOf (tx.toJson codecs)) (tx.toJson codecs).compact =
      .ok tx := by
  rw [NearTransaction.fromJson, fromStr, parserOf_compact]
  refine (tx.roundTrips codecs recursionLimit).eq_ok_iff.mpr ⟨hfit, ?_⟩
  rw [tx.depth_toJson codecs]
  exact NearTransaction.jsonDepth_le_recursionLimit hdepth

theorem sampleDelegate_amountsFit : sampleDelegate.AmountsFit := by
  refine ⟨?_, trivial⟩
  show (1 : UInt128).toNat < 2 ^ 64
  decide

/-- A transfer inside a delegate action: neither form of it starts a
`NonDelegateAction` with a delegate action. -/
theorem NonDelegateAction.wellNested_iff_of_readers_sample : ∃ b,
    sampleTransaction.buildForSigning = .ok b ∧
    (∀ i ∈ NearTransaction.nonDelegateInputs lengthRule b, i.head? ≠ some 8) ∧
    ∀ v ∈ NearTransaction.nonDelegateDocs (sampleTransaction.toJson sampleCodecs),
      v.content "Delegate" = none := by
  have hdepth : sampleTransaction.delegateDepth ≤ 1 := by decide
  have hnested := And.intro (NearTransaction.delegateDepth_le_one_iff.mp hdepth) hdepth
  have hfit : sampleTransaction.AmountsFit := by
    show ∀ a ∈ [Action.CreateAccount ⟨⟩, .Delegate sampleDelegate], a.AmountsFit
    simp only [List.forall_mem_cons, List.not_mem_nil, false_implies, implies_true, and_true]
    exact ⟨trivial, sampleDelegate_amountsFit⟩
  obtain ⟨b, hb, hread⟩ := NearTransaction.isCodec.exists_toVec sampleTransaction_fits
  obtain ⟨-, -, -, hborsh, -, hjson, -⟩ := @NonDelegateAction.wellNested_iff_of_readers lengthRule
    sampleCodecs (parserOf (sampleTransaction.toJson sampleCodecs))
  refine ⟨b, NearTransaction.buildForSigning_eq_ok_iff.mpr hb, ?_, ?_⟩
  · refine (hborsh b [] sampleTransaction ?_).mp hnested
    rw [← hread [], List.append_nil]
  · obtain ⟨doc, hdoc, hiff⟩ := hjson _ sampleTransaction
      (NearTransaction.fromJson_parserOf sampleCodecs hfit (hdepth.trans (by decide)))
    obtain rfl := Option.some.inj ((parserOf_compact _).symm.trans hdoc)
    exact hiff.mp hnested

/-- A delegate action whose action is a delegate action again. -/
def nestedTransaction : NearTransaction lengthRule :=
  ⟨alice, sampleKey, ⟨1⟩, bob, ⟨List.Vector.replicate 32 4⟩,
    [.Delegate ⟨⟨alice, bob, [⟨.Delegate sampleDelegate⟩], ⟨2⟩, ⟨100⟩, sampleKey⟩,
      sampleSignature⟩]⟩

/-- The lengths of the sample are small. -/
theorem nestedTransaction_fits : nestedTransaction.Fits := by
  refine ⟨alice_fits, bob_fits, by decide, ?_⟩
  show ∀ a ∈ [Action.Delegate _], a.Fits
  rw [List.forall_mem_singleton]
  exact ⟨alice_fits, bob_fits, by decide, ⟨alice_fits, bob_fits, by decide, trivial, trivial⟩,
    trivial⟩

/-- Both derived readers give a delegate action inside a delegate action: the Borsh
reader from what `build_for_signing` makes of it, and `from_json` from its text. -/
theorem NearTransaction.not_wellNested_nestedTransaction :
    (∃ b, nestedTransaction.buildForSigning = .ok b ∧
      tryFromSlice NearTransaction.deserialize b = .ok nestedTransaction) ∧
    NearTransaction.fromJson sampleCodecs (parserOf (nestedTransaction.toJson sampleCodecs))
      (nestedTransaction.toJson sampleCodecs).compact = .ok nestedTransaction ∧
    ¬ nestedTransaction.WellNested ∧ nestedTransaction.delegateDepth = 2 := by
  have hdepth : nestedTransaction.delegateDepth = 2 := by decide
  have hfit : nestedTransaction.AmountsFit := by
    show ∀ a ∈ [Action.Delegate _], a.AmountsFit
    rw [List.forall_mem_singleton]
    exact ⟨sampleDelegate_amountsFit, trivial⟩
  refine ⟨?_, ?_, ?_, hdepth⟩
  · obtain ⟨b, hb, hread⟩ := NearTransaction.isCodec.exists_toVec nestedTransaction_fits
    refine ⟨b, NearTransaction.buildForSigning_eq_ok_iff.mpr hb, ?_⟩
    rw [tryFromSlice_eq_ok_iff, ← hread [], List.append_nil]
  · exact NearTransaction.fromJson_parserOf sampleCodecs hfit (hdepth.le.trans (by decide))
  · rw [← NearTransaction.delegateDepth_le_one_iff, hdepth]
    decide

end Near
