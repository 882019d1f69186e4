/-
# Amounts as texts

`Serialize` writes every amount as a number, and `from_json` does not read the ones from
`2 ^ 64` on.  The same document with these numbers as texts (`Json.textLarge`) is read for
every transaction, whatever its amounts (`NearTransaction.fromJson_textLarge_toJson`).
-/
import OmniTransaction.NearAccepted

open ByteOrder Rust Serde

namespace Serde

mutual

/-- The document with the numbers from `2 ^ 64` on as texts. -/
def Json.textLarge : Json → Json
  | .null => .null
  | .bool b => .bool b
  | .int n => if n < 2 ^ 64 then .int n else .str (toString n)
  | .float text => .float text
  | .str s => .str s
  | .arr items => .arr (Json.textLargeItems items)
  | .obj entries => .obj (Json.textLargeEntries entries)

def Json.textLargeItems : List Json → List Json
  | [] => []
  | item :: items => item.textLarge :: Json.textLargeItems items

def Json.textLargeEntries : List (String × Json) → List (String × Json)
  | [] => []
  | ⟨name, value⟩ :: entries => (name, value.textLarge) :: Json.textLargeEntries entries

end

/-- The items of a list are changed one by one. -/
theorem Json.textLargeItems_map {α : Type} (write : α → Json) (l : List α) :
    Json.textLargeItems (l.map write) = l.map fun a => (write a).textLarge := by
  induction l with
  | nil => rfl
  | cons a l ih => rw [List.map_cons, Json.textLargeItems, List.map_cons, ih]

mutual

/-- A text takes no level, as a number. -/
theorem Json.depth_textLarge : ∀ doc : Json, doc.textLarge.depth = doc.depth
  | .null => rfl
  | .bool _ => rfl
  | .int n => by
    rw [Json.textLarge]
    split_ifs <;> rfl
  | .float _ => rfl
  | .str _ => rfl
  | .arr items => by
    rw [Json.textLarge, Json.depth, Json.depth, Json.itemsDepth_textLargeItems items]
  | .obj entries => by
    rw [Json.textLarge, Json.depth, Json.depth, Json.entriesDepth_textLargeEntries entries]

theorem Json.itemsDepth_textLargeItems : ∀ items : List Json,
    Json.itemsDepth (Json.textLargeItems items) = Json.itemsDepth items
  | [] => rfl
  | item :: items => by
    rw [Json.textLargeItems, Json.itemsDepth, Json.itemsDepth, Json.depth_textLarge item,
      Json.itemsDepth_textLargeItems items]

theorem Json.entriesDepth_textLargeEntries : ∀ entries : List (String × Json),
    Json.entriesDepth (Json.textLargeEntries entries) = Json.entriesDepth entries
  | [] => rfl
  | ⟨name, value⟩ :: entries => by
    rw [Json.textLargeEntries, Json.entriesDepth, Json.entriesDepth, Json.depth_textLarge value,
      Json.entriesDepth_textLargeEntries entries]

end

/-- Bytes are small numbers, which stay as they are. -/
theorem textLarge_writeBytes (b : Bytes) : (writeBytes b).textLarge = writeBytes b := by
  have hbyte : ∀ x : UInt8, (writeU8 x).textLarge = writeU8 x := by
    intro x
    have hlt : (x.toNat : ℤ) < 2 ^ 64 := by
      have hx := x.toNat_lt
      omega
    rw [writeU8, Json.textLarge, if_pos hlt]
  rw [writeBytes, Json.textLarge, Json.textLargeItems_map]
  simp only [hbyte]

/-- An object with an entry for each field. -/
theorem isStruct_obj {names : List String} {entries : List (String × Json)}
    (hnames : entries.map Prod.fst = names) (hnodup : names.Nodup) :
    (Json.obj entries).IsStruct names := by
  rw [Json.IsStruct, Fields.known, hnames]
  exact hnodup.filter _

end Serde

namespace Near

variable {validate : String → Option String} (codecs : TextCodecs)

/-- Every number is read from one of its two spellings. -/
theorem numberFrom_textLarge (n : ℕ) : NumberFrom n (Json.int n).textLarge := by
  by_cases h : n < 2 ^ 64
  · have hlt : (n : ℤ) < 2 ^ 64 := by omega
    rw [Json.textLarge, if_pos hlt]
    exact .number h
  · have hge : ¬ (n : ℤ) < 2 ^ 64 := by omega
    rw [Json.textLarge, if_neg hge]
    exact .text (.inl (isDecimal_iff_isNumeral.mp (isDecimal_toString n)))

/-- A `U64` is always written as a number that stays. -/
theorem U64.readFrom_textLarge (u : U64) : u.ReadFrom u.toJson.textLarge :=
  numberFrom_textLarge _

/-- A `U128` from `2 ^ 64` on is read from its text. -/
theorem U128.readFrom_textLarge (u : U128) : u.ReadFrom u.toJson.textLarge :=
  numberFrom_textLarge _

/-- A key is an object with bytes, in which nothing changes. -/
theorem PublicKey.readFrom_textLarge (key : PublicKey) :
    key.ReadFrom codecs key.toJson.textLarge := by
  cases key with
  | ED25519 key =>
    rw [PublicKey.toJson, Json.textLarge, Json.textLargeEntries, textLarge_writeBytes]
    exact .inl (.ed25519 key)
  | SECP256K1 key =>
    rw [PublicKey.toJson, Json.textLarge, Json.textLargeEntries, textLarge_writeBytes]
    exact .inl (.secp256k1 key)

/-- A hash is an array of bytes, in which nothing changes. -/
theorem BlockHash.readFrom_textLarge (hash : BlockHash) :
    hash.ReadFrom codecs hash.toJson.textLarge := by
  rw [BlockHash.toJson, textLarge_writeBytes]
  exact .numbers

theorem Base64VecU8.readFrom_textLarge (v : Base64VecU8) :
    v.ReadFrom codecs (v.toJson codecs).textLarge :=
  ⟨_, rfl, codecs.base64.decode_encode _⟩

theorem Signature.readFrom_textLarge (sig : Signature) :
    sig.ReadFrom codecs (sig.toJson codecs).textLarge := by
  cases sig with
  | ED25519 sig => exact ⟨_, rfl, .ed25519 (codecs.bs58.decode_encode _)⟩
  | SECP256K1 sig => exact ⟨_, rfl, .secp256k1 (codecs.bs58.decode_encode _)⟩

/-! ## Actions without actions inside -/

/-- There are no fields to change. -/
theorem CreateAccountAction.readFrom_textLarge (a : CreateAccountAction) :
    a.ReadFrom a.toJson.textLarge :=
  ⟨isStruct_obj rfl (by decide), trivial⟩

theorem DeployContractAction.readFrom_textLarge (a : DeployContractAction) :
    a.ReadFrom codecs (a.toJson codecs).textLarge :=
  ⟨isStruct_obj rfl (by decide), _, rfl, a.code.readFrom_textLarge codecs⟩

/-- The deposit may become a text, the gas never does. -/
theorem FunctionCallAction.readFrom_textLarge (a : FunctionCallAction) :
    a.ReadFrom a.toJson.textLarge :=
  ⟨isStruct_obj rfl (by decide), ⟨_, rfl, rfl⟩, ⟨_, rfl, textLarge_writeBytes _⟩,
    ⟨_, rfl, a.gas.readFrom_textLarge⟩, ⟨_, rfl, a.deposit.readFrom_textLarge⟩⟩

/-- The deposit may become a text. -/
theorem TransferAction.readFrom_textLarge (a : TransferAction) :
    a.ReadFrom a.toJson.textLarge :=
  ⟨isStruct_obj rfl (by decide), _, rfl, a.deposit.readFrom_textLarge⟩

/-- The stake may become a text. -/
theorem StakeAction.readFrom_textLarge (a : StakeAction) :
    a.ReadFrom codecs a.toJson.textLarge :=
  ⟨isStruct_obj rfl (by decide), ⟨_, rfl, a.stake.readFrom_textLarge⟩,
    ⟨_, rfl, a.publicKey.readFrom_textLarge codecs⟩⟩

/-- The allowance may become a text, or is absent. -/
theorem FunctionCallPermission.readFrom_textLarge (p : FunctionCallPermission) :
    p.ReadFrom p.toJson.textLarge := by
  have hallowance : OptionFrom U128.ReadFrom p.allowance
      (writeOption U128.toJson p.allowance).textLarge := by
    cases p.allowance with
    | none => rfl
    | some amount =>
      have hfrom := amount.readFrom_textLarge
      refine ⟨fun hnull => ?_, hfrom⟩
      rw [show (writeOption U128.toJson (some amount)).textLarge = amount.toJson.textLarge from rfl]
        at hnull
      rw [hnull] at hfrom
      cases hfrom
  have hnames : ItemsFrom (fun s doc => doc = .str s) p.methodNames
      (Json.arr (p.methodNames.map .str)).textLarge := by
    rw [Json.textLarge, Json.textLargeItems_map]
    refine ⟨_, rfl, ?_⟩
    rw [List.forall₂_map_right_iff, List.forall₂_same]
    exact fun _ _ => rfl
  exact ⟨isStruct_obj rfl (by decide), .inr ⟨_, rfl, hallowance⟩, ⟨_, rfl, rfl⟩,
    ⟨_, rfl, hnames⟩⟩

theorem AccessKeyPermission.readFrom_textLarge (p : AccessKeyPermission) :
    p.ReadFrom p.toJson.textLarge := by
  cases p with
  | FunctionCall permission => exact ⟨_, rfl, permission.readFrom_textLarge⟩
  | FullAccess => exact .inl rfl

/-- A nonce fits in 64 bits and stays. -/
theorem AccessKey.readFrom_textLarge (k : AccessKey) : k.ReadFrom k.toJson.textLarge :=
  ⟨isStruct_obj rfl (by decide), ⟨_, rfl, k.nonce.readFrom_textLarge⟩,
    ⟨_, rfl, k.permission.readFrom_textLarge⟩⟩

/-- What changes is the allowance inside. -/
theorem AddKeyAction.readFrom_textLarge (a : AddKeyAction) :
    a.ReadFrom codecs a.toJson.textLarge :=
  ⟨isStruct_obj rfl (by decide), ⟨_, rfl, a.publicKey.readFrom_textLarge codecs⟩,
    ⟨_, rfl, a.accessKey.readFrom_textLarge⟩⟩

theorem DeleteKeyAction.readFrom_textLarge (a : DeleteKeyAction) :
    a.ReadFrom codecs a.toJson.textLarge :=
  ⟨isStruct_obj rfl (by decide), _, rfl, a.publicKey.readFrom_textLarge codecs⟩

theorem DeleteAccountAction.readFrom_textLarge (a : DeleteAccountAction validate) :
    a.ReadFrom a.toJson.textLarge :=
  ⟨isStruct_obj rfl (by decide), _, rfl, rfl⟩

/-- Only a name of a variant. -/
theorem GlobalContractDeployMode.readFrom_textLarge (m : GlobalContractDeployMode) :
    m.ReadFrom m.toJson.textLarge := by
  cases m with
  | CodeHash => exact .inl rfl
  | AccountId => exact .inl rfl

/-- The code is a text, and the mode a name. -/
theorem DeployGlobalContractAction.readFrom_textLarge (a : DeployGlobalContractAction) :
    a.ReadFrom codecs (a.toJson codecs).textLarge :=
  ⟨isStruct_obj rfl (by decide), ⟨_, rfl, a.code.readFrom_textLarge codecs⟩,
    ⟨_, rfl, a.deployMode.readFrom_textLarge⟩⟩

/-- A hash or a name, both without large numbers. -/
theorem GlobalContractIdentifier.readFrom_textLarge (i : GlobalContractIdentifier validate) :
    i.ReadFrom codecs i.toJson.textLarge := by
  cases i with
  | CodeHash hash => exact ⟨_, rfl, hash.readFrom_textLarge codecs⟩
  | AccountId accountId => exact ⟨_, rfl, rfl⟩

theorem UseGlobalContractAction.readFrom_textLarge (a : UseGlobalContractAction validate) :
    a.ReadFrom codecs a.toJson.textLarge :=
  ⟨isStruct_obj rfl (by decide), _, rfl, a.contractIdentifier.readFrom_textLarge codecs⟩

/-! ## Actions with actions inside -/

mutual

/-- Every action with its amounts as texts; a delegate action holds more of them. -/
theorem Action.readFrom_textLarge : ∀ a : Action validate,
    a.ReadFrom codecs (a.toJson codecs).textLarge
  | .CreateAccount action => ⟨_, rfl, action.readFrom_textLarge⟩
  | .DeployContract action => ⟨_, rfl, action.readFrom_textLarge codecs⟩
  | .FunctionCall action => ⟨_, rfl, action.readFrom_textLarge⟩
  | .Transfer action => ⟨_, rfl, action.readFrom_textLarge⟩
  | .Stake action => ⟨_, rfl, action.readFrom_textLarge codecs⟩
  | .AddKey action => ⟨_, rfl, action.readFrom_textLarge codecs⟩
  | .DeleteKey action => ⟨_, rfl, action.readFrom_textLarge codecs⟩
  | .DeleteAccount action => ⟨_, rfl, action.readFrom_textLarge⟩
  | .Delegate action => ⟨_, rfl, SignedDelegateAction.readFrom_textLarge action⟩
  | .DeployGlobalContract action => ⟨_, rfl, action.readFrom_textLarge codecs⟩
  | .UseGlobalContract action => ⟨_, rfl, action.readFrom_textLarge codecs⟩

/-- The amounts are in the delegate action. -/
theorem SignedDelegateAction.readFrom_textLarge : ∀ a : SignedDelegateAction validate,
    a.ReadFrom codecs (a.toJson codecs).textLarge
  | ⟨delegateAction, signature⟩ =>
    ⟨isStruct_obj rfl (by decide), ⟨_, rfl, DelegateAction.readFrom_textLarge delegateAction⟩,
      ⟨_, rfl, signature.readFrom_textLarge codecs⟩⟩

/-- The amounts are in the list of actions. -/
theorem DelegateAction.readFrom_textLarge : ∀ d : DelegateAction validate,
    d.ReadFrom codecs (d.toJson codecs).textLarge
  | ⟨senderId, receiverId, actions, nonce, maxBlockHeight, publicKey⟩ =>
    ⟨isStruct_obj rfl (by decide), ⟨_, rfl, rfl⟩, ⟨_, rfl, rfl⟩,
      ⟨_, rfl, NonDelegateAction.allReadFrom_textLarge actions⟩,
      ⟨_, rfl, nonce.readFrom_textLarge⟩, ⟨_, rfl, maxBlockHeight.readFrom_textLarge⟩,
      ⟨_, rfl, publicKey.readFrom_textLarge codecs⟩⟩

theorem NonDelegateAction.allReadFrom_textLarge : ∀ actions : List (NonDelegateAction validate),
    NonDelegateAction.AllReadFrom codecs actions
      (Json.textLargeItems (NonDelegateAction.allToJson codecs actions))
  | [] => rfl
  | ⟨action⟩ :: actions =>
    ⟨_, _, rfl, Action.readFrom_textLarge action,
      NonDelegateAction.allReadFrom_textLarge actions⟩

end

namespace NearTransaction

/-- The whole document with its amounts as texts is one for the same transaction. -/
theorem readFrom_textLarge (tx : NearTransaction validate) :
    tx.ReadFrom codecs (tx.toJson codecs).textLarge := by
  have hactions : ItemsFrom (Action.ReadFrom codecs) tx.actions
      (Json.arr (tx.actions.map (Action.toJson codecs))).textLarge := by
    rw [Json.textLarge, Json.textLargeItems_map]
    refine ⟨_, rfl, ?_⟩
    rw [List.forall₂_map_right_iff, List.forall₂_same]
    exact fun a _ => a.readFrom_textLarge codecs
  exact ⟨isStruct_obj rfl (by decide), ⟨_, rfl, rfl⟩,
    ⟨_, rfl, tx.signerPublicKey.readFrom_textLarge codecs⟩,
    ⟨_, rfl, tx.nonce.readFrom_textLarge⟩, ⟨_, rfl, rfl⟩,
    ⟨_, rfl, tx.blockHash.readFrom_textLarge codecs⟩, ⟨_, rfl, hactions⟩⟩

/-- With the large numbers as texts every transaction is read back, if its delegate actions are
not nested deeper than `serde_json` follows. -/
theorem fromJson_textLarge_toJson (parse : String → Option Json) {tx : NearTransaction validate}
    (hparse : parse (tx.toJson codecs).textLarge.compact = some (tx.toJson codecs).textLarge)
    (hdepth : tx.jsonDepth ≤ recursionLimit) :
    fromJson codecs parse (tx.toJson codecs).textLarge.compact = .ok tx := by
  have hlimit : (tx.toJson codecs).textLarge.depth < recursionLimit + 1 := by
    rw [Json.depth_textLarge, tx.depth_toJson codecs]
    exact Nat.lt_succ_of_le hdepth
  rw [fromJson, fromStr, hparse]
  exact (takesExactly recursionLimit).complete _ tx hlimit (tx.readFrom_textLarge codecs)

/-- One NEAR is `10 ^ 24`, which is above `2 ^ 64` and read as a text. -/
theorem fromJson_textLarge_toJson_one_near :
    fromJson sampleCodecs
      (parserOf ((payment 1000000000000000000000000).toJson sampleCodecs).textLarge)
      ((payment 1000000000000000000000000).toJson sampleCodecs).textLarge.compact =
      .ok (payment 1000000000000000000000000) :=
  fromJson_textLarge_toJson sampleCodecs _ (parserOf_compact _) (by decide)

end NearTransaction

end Near
