/-
# NEAR transactions between their two forms

A document for a transaction and its Borsh bytes are two forms of it.  What is read from a
document can be built and is decoded from the bytes again, and what is decoded from bytes can
be written as a document from which the same bytes are built
(`NearTransaction.json_borsh_agree`).
-/
import OmniTransaction.FitsFrom
import OmniTransaction.NearSerialization
import OmniTransaction.NearTextAmounts

open Borsh ByteOrder Rust Serde

namespace Near

variable {validate : String → Option String} {codecs : TextCodecs}

/-! ## Actions without actions inside -/

/-- A text has a character for every byte that it stands for, or more. -/
def TextCodec.NotShorter (codec : TextCodec) : Prop :=
  ∀ s b, codec.decode s = .ok b → b.length ≤ s.length

/-- A name from a small document has a small length. -/
theorem AccountId.fitsFrom : FitsFrom (2 ^ 30) (@AccountId.ReadFrom validate) AccountId.Fits :=
  fun account => fitsFrom_string (2 ^ 30) account.val

/-- Bytes from a text are no more than its characters. -/
theorem Base64VecU8.fitsFrom (hbase64 : codecs.base64.NotShorter) :
    FitsFrom (2 ^ 30) (Base64VecU8.ReadFrom codecs) Base64VecU8.Fits := by
  rintro v doc hsize ⟨s, rfl, hv⟩
  have hle := hbase64 s v.val hv
  rw [Json.size] at hsize
  rw [Base64VecU8.Fits]
  omega

/-- The code comes from one text of the document. -/
theorem DeployContractAction.fitsFrom (hbase64 : codecs.base64.NotShorter) :
    FitsFrom (2 ^ 30) (DeployContractAction.ReadFrom codecs) DeployContractAction.Fits :=
  fun _ _ hsize ⟨_, hcode⟩ => (Base64VecU8.fitsFrom hbase64).present hsize hcode

/-- The method name and the arguments come from two parts of the document. -/
theorem FunctionCallAction.fitsFrom :
    FitsFrom (2 ^ 30) FunctionCallAction.ReadFrom FunctionCallAction.Fits := by
  rintro a doc hsize ⟨-, hmethodName, hargs, -⟩
  refine ⟨(fitsFrom_string _).present hsize hmethodName, ?_⟩
  exact ((fitsFrom_bytes _).present hsize hargs).trans (by decide)

/-- The receiver and all method names together come from the document. -/
theorem FunctionCallPermission.fitsFrom :
    FitsFrom (2 ^ 30) FunctionCallPermission.ReadFrom FunctionCallPermission.Fits := by
  rintro p doc hsize ⟨-, -, hreceiverId, hmethodNames⟩
  obtain ⟨hlength, hnames⟩ := (fitsFrom_string _).items.present hsize hmethodNames
  exact ⟨(fitsFrom_string _).present hsize hreceiverId, hlength.trans (by decide), hnames⟩

/-- Only the permission for function calls has something to fit. -/
theorem AccessKeyPermission.fitsFrom :
    FitsFrom (2 ^ 30) AccessKeyPermission.ReadFrom AccessKeyPermission.Fits := by
  intro p doc hsize hp
  cases p with
  | FunctionCall permission => exact FunctionCallPermission.fitsFrom.tagged hsize hp
  | FullAccess => exact trivial

/-- The permission is the part that can be too long. -/
theorem AccessKey.fitsFrom : FitsFrom (2 ^ 30) AccessKey.ReadFrom AccessKey.Fits :=
  fun _ _ hsize ⟨_, _, hpermission⟩ => AccessKeyPermission.fitsFrom.present hsize hpermission

/-- The access key is the part that can be too long. -/
theorem AddKeyAction.fitsFrom :
    FitsFrom (2 ^ 30) (AddKeyAction.ReadFrom codecs) AddKeyAction.Fits :=
  fun _ _ hsize ⟨_, _, haccessKey⟩ => AccessKey.fitsFrom.present hsize haccessKey

/-- The beneficiary's name is a text of the document. -/
theorem DeleteAccountAction.fitsFrom :
    FitsFrom (2 ^ 30) (@DeleteAccountAction.ReadFrom validate) DeleteAccountAction.Fits :=
  fun _ _ hsize ⟨_, hbeneficiaryId⟩ => AccountId.fitsFrom.present hsize hbeneficiaryId

/-- The code comes from one text of the document, the mode has no length. -/
theorem DeployGlobalContractAction.fitsFrom (hbase64 : codecs.base64.NotShorter) :
    FitsFrom (2 ^ 30) (DeployGlobalContractAction.ReadFrom codecs)
      DeployGlobalContractAction.Fits :=
  fun _ _ hsize ⟨_, hcode, _⟩ => (Base64VecU8.fitsFrom hbase64).present hsize hcode

/-- The name of an account is a text of the document, a hash has no length. -/
theorem GlobalContractIdentifier.fitsFrom :
    FitsFrom (2 ^ 30) (@GlobalContractIdentifier.ReadFrom validate codecs)
      GlobalContractIdentifier.Fits := by
  intro i doc hsize hi
  cases i with
  | CodeHash hash => exact trivial
  | AccountId accountId => exact AccountId.fitsFrom.tagged hsize hi

/-- The identifier is the only field. -/
theorem UseGlobalContractAction.fitsFrom :
    FitsFrom (2 ^ 30) (@UseGlobalContractAction.ReadFrom validate codecs)
      UseGlobalContractAction.Fits :=
  fun _ _ hsize ⟨_, hidentifier⟩ => GlobalContractIdentifier.fitsFrom.present hsize hidentifier

/-! ## Actions with actions inside -/

mutual

/-- Every variant, by what stands behind its name in the document. -/
theorem Action.fits_of_readFrom (hbase64 : codecs.base64.NotShorter) :
    ∀ (a : Action validate) (doc : Json), doc.size < 2 ^ 30 → a.ReadFrom codecs doc → a.Fits
  | .CreateAccount _, _, _, _ => trivial
  | .DeployContract _, _, hsize, ha => (DeployContractAction.fitsFrom hbase64).tagged hsize ha
  | .FunctionCall _, _, hsize, ha => FunctionCallAction.fitsFrom.tagged hsize ha
  | .Transfer _, _, _, _ => trivial
  | .Stake _, _, _, _ => trivial
  | .AddKey _, _, hsize, ha => AddKeyAction.fitsFrom.tagged hsize ha
  | .DeleteKey _, _, _, _ => trivial
  | .DeleteAccount _, _, hsize, ha => DeleteAccountAction.fitsFrom.tagged hsize ha
  | .Delegate action, doc, hsize, ⟨value, hdoc, ha⟩ => by
    subst hdoc
    have hpart : value.Part (.obj [("Delegate", value)]) :=
      .entry (List.mem_singleton_self _) (.refl value)
    exact SignedDelegateAction.fits_of_readFrom hbase64 action value
      (hpart.size_le.trans_lt hsize) ha
  | .DeployGlobalContract _, _, hsize, ha =>
    (DeployGlobalContractAction.fitsFrom hbase64).tagged hsize ha
  | .UseGlobalContract _, _, hsize, ha => UseGlobalContractAction.fitsFrom.tagged hsize ha

/-- The delegate action is a smaller document inside. -/
theorem SignedDelegateAction.fits_of_readFrom (hbase64 : codecs.base64.NotShorter) :
    ∀ (a : SignedDelegateAction validate) (doc : Json), doc.size < 2 ^ 30 →
      a.ReadFrom codecs doc → a.Fits
  | ⟨delegateAction, _⟩, _, hsize, ⟨_, ⟨value, hvalue, ha⟩, _⟩ =>
    DelegateAction.fits_of_readFrom hbase64 delegateAction value
      ((Json.part_of_field hvalue).size_le.trans_lt hsize) ha

/-- The names and the list of actions are smaller documents inside. -/
theorem DelegateAction.fits_of_readFrom (hbase64 : codecs.base64.NotShorter) :
    ∀ (d : DelegateAction validate) (doc : Json), doc.size < 2 ^ 30 →
      d.ReadFrom codecs doc → d.Fits
  | ⟨_, _, actions, _, _, _⟩, _, hsize, ⟨_, hsender, hreceiver, ⟨items, hvalue, hitems⟩, _⟩ => by
    have hsize' := (Json.part_of_field hvalue).size_le.trans_lt hsize
    have hlength := ((NonDelegateAction.allReadFrom_iff codecs).mp hitems).length_eq
    refine ⟨AccountId.fitsFrom.present hsize hsender, AccountId.fitsFrom.present hsize hreceiver,
      ?_, ?_⟩
    · rw [hlength]
      exact (length_lt_of_size_lt hsize').trans (by decide)
    · exact NonDelegateAction.allFit_of_readFrom hbase64 actions items
        (Nat.lt_of_succ_lt hsize') hitems

/-- The items share the size of the array. -/
theorem NonDelegateAction.allFit_of_readFrom (hbase64 : codecs.base64.NotShorter) :
    ∀ (actions : List (NonDelegateAction validate)) (items : List Json),
      Json.itemsSize items < 2 ^ 30 → NonDelegateAction.AllReadFrom codecs actions items →
        NonDelegateAction.AllFit actions
  | [], _, _, _ => trivial
  | ⟨action⟩ :: actions, _, hsize, ⟨item, rest, hitems, ha, hrest⟩ => by
    subst hitems
    rw [Json.itemsSize] at hsize
    exact ⟨Action.fits_of_readFrom hbase64 action item (by omega) ha,
      NonDelegateAction.allFit_of_readFrom hbase64 actions rest (by omega) hrest⟩

end

/-! ## Transactions -/

namespace NearTransaction

/-- What is read from a document of fewer than `2 ^ 30` characters can be built. -/
theorem fitsFrom (hbase64 : codecs.base64.NotShorter) :
    FitsFrom (2 ^ 30) (@ReadFrom validate codecs) Fits := by
  rintro tx doc hsize ⟨-, hsignerId, -, -, hreceiverId, -, hactions⟩
  have hitem : FitsFrom (2 ^ 30) (@Action.ReadFrom validate codecs) Action.Fits :=
    Action.fits_of_readFrom hbase64
  obtain ⟨hlength, hfit⟩ := hitem.items.present hsize hactions
  exact ⟨AccountId.fitsFrom.present hsize hsignerId,
    AccountId.fitsFrom.present hsize hreceiverId, hlength.trans (by decide), hfit⟩

/-- The two forms of a transaction lead to each other: from a document of less than `2 ^ 30`
characters to the bytes that are decoded to the same transaction, and from bytes to a document,
with the large numbers as texts, from which these bytes are built. -/
theorem json_borsh_agree (hbase64 : codecs.base64.NotShorter)
    (parse : String → Option Json) :
    (∀ (text : String) (doc : Json) (tx : NearTransaction validate), parse text = some doc →
      doc.size < 2 ^ 30 → fromJson codecs parse text = .ok tx →
        ∃ b, tx.buildForSigning = .ok b ∧
          (∀ rest, NearTransaction.deserialize.run (b ++ rest) = .ok (tx, rest)) ∧
          ∀ signature : Signature, ∃ s, toVec signature.serialize = .ok s ∧
            tx.buildWithSignature signature = .ok (b ++ s)) ∧
    ∀ (b : Bytes) (tx : NearTransaction validate),
      tryFromSlice NearTransaction.deserialize b = .ok tx → tx.jsonDepth ≤ recursionLimit →
        parse (tx.toJson codecs).textLarge.compact = some (tx.toJson codecs).textLarge →
          ∃ tx' : NearTransaction validate,
            fromJson codecs parse (tx.toJson codecs).textLarge.compact = .ok tx' ∧
              tx'.buildForSigning = .ok b := by
  constructor
  · intro text doc tx hparse hsize h
    have hfrom := (takesExactly recursionLimit).of_fromStr hparse h
    have hfits := fitsFrom hbase64 tx doc hsize hfrom
    obtain ⟨b, hw, hread⟩ := isCodec.write tx hfits
    refine ⟨b, buildForSigning_eq_ok_iff.mpr (toVec_of_writes hw), hread, fun signature => ?_⟩
    obtain ⟨s, hws, -⟩ := Signature.isCodec.write signature trivial
    exact ⟨s, toVec_of_writes hws,
      buildWithSignature_eq_ok_iff.mpr (toVec_of_writes (hw.bind hws))⟩
  · intro b tx h hdepth hparse
    have hlimit : (tx.toJson codecs).textLarge.depth ≤ recursionLimit := by
      rwa [Json.depth_textLarge, tx.depth_toJson codecs]
    have hread := (takesExactly recursionLimit).fromStr_eq_ok hparse hlimit
      (tx.readFrom_textLarge codecs)
    rw [tryFromSlice_eq_ok_iff, isCodec.run_eq_ok_iff] at h
    obtain ⟨-, bs, hbs, rfl⟩ := h
    rw [List.append_nil]
    exact ⟨tx, hread, buildForSigning_eq_ok_iff.mpr hbs⟩

/-- This codec has exactly one character for a byte. -/
theorem notShorter_oneCharPerByte : oneCharPerByte.NotShorter := by
  intro s b hb
  obtain rfl := Outcome.ok.inj hb
  rw [List.length_map, String.length_toList]

/-- The payment of one NEAR goes from its document to bytes and back. -/
theorem json_borsh_agree_one_near :
    ∃ b, (payment 1000000000000000000000000).buildForSigning = .ok b ∧
      ∀ rest, NearTransaction.deserialize.run (b ++ rest) =
        .ok (payment 1000000000000000000000000, rest) := by
  have hread : fromJson sampleCodecs (parserOf oneNearDocument) oneNearDocument.compact =
      .ok (payment 1000000000000000000000000) :=
    (takesExactly recursionLimit).fromStr_eq_ok (parserOf_compact _) (by decide)
      readFrom_oneNearDocument
  obtain ⟨b, hb, hrest, -⟩ := (@json_borsh_agree _ sampleCodecs notShorter_oneCharPerByte
    (parserOf oneNearDocument)).1 _ oneNearDocument _ (parserOf_compact _) (by decide) hread
  exact ⟨b, hb, hrest⟩

end NearTransaction

end Near
