/-
# The three forms of a Bitcoin transaction

A transaction that is read from a document is written as bytes of the network, as Borsh bytes
and as a document again, and each of these forms stands for it alone
(`BitcoinTransaction.forms_agree`).
-/
import OmniTransaction.BitcoinAccepted
import OmniTransaction.BitcoinBorsh
import OmniTransaction.BitcoinSerialization
import OmniTransaction.DocumentPanics
import OmniTransaction.FitsFrom

open Borsh ByteOrder Rust Serde

namespace Bitcoin

variable {hex : Hex.Codec} {usizeBits : ℕ}

/-! ## Scripts and witnesses -/

/-- A script has no more bytes than its document has characters. -/
theorem ScriptBuf.fitsFrom (hhex : hex.Standard) (s : ℕ) :
    FitsFrom s (ScriptBuf.ReadFrom hex) fun script => script.val.length < s := by
  intro script doc hsize h
  rw [← Vec.length_toList]
  cases h with
  | text h =>
    have hlength := hhex.length_eq h
    rw [Json.size] at hsize
    omega
  | numbers => exact fitsFrom_bytes s _ _ hsize rfl

namespace Witness

/-- Each element takes four more bytes, for its offset. -/
theorem fitsFrom (hhex : hex.Standard) (s : ℕ) : FitsFrom s (ReadFrom hex) fun w =>
    (∃ xs, Packed w xs) ∧ w.content.length < 5 * s := by
  rintro w doc hsize ⟨xs, ⟨items, rfl, hitems⟩, hpacked⟩
  refine ⟨⟨xs, hpacked⟩, ?_⟩
  have hle := length_flatMap_prefixed_le hhex hitems
  have hcount := hitems.length_eq
  have hitemsSize := Json.length_le_itemsSize items
  rw [Vec.length_toList] at hcount
  rw [Json.size] at hsize
  rw [hpacked.length_content]
  omega

end Witness

/-! ## Transactions -/

/-- The packed form of a witness adds at most four bytes to each element. -/
theorem TxIn.fitsFrom (hhex : hex.Standard) (s : ℕ) : FitsFrom s (TxIn.ReadFrom hex) fun input =>
    input.scriptSig.val.length < s ∧ (∃ xs, input.witness.Packed xs) ∧
      input.witness.content.length < 5 * s := by
  rintro input doc hsize ⟨-, -, hscriptSig, -, hwitness⟩
  exact ⟨(ScriptBuf.fitsFrom hhex s).present hsize hscriptSig,
    (Witness.fitsFrom hhex s).present hsize hwitness⟩

/-- By the script of the output. -/
theorem TxOut.fitsFrom (hhex : hex.Standard) (s : ℕ) : FitsFrom s (TxOut.ReadFrom hex) fun output =>
    output.scriptPubkey.val.length < s := by
  rintro output doc hsize ⟨-, -, hscriptPubkey⟩
  exact (ScriptBuf.fitsFrom hhex s).present hsize hscriptPubkey

namespace BitcoinTransaction

variable {tx : BitcoinTransaction} {doc : Json}

/-- All lengths are below that of the document. -/
theorem ReadFrom.fits (hhex : hex.Standard) (hsize : doc.size < 2 ^ 28)
    (h : tx.ReadFrom hex doc) : tx.Fits 32 := by
  obtain ⟨-, -, -, hinput, houtput⟩ := h
  obtain ⟨hinputs, hinput⟩ := (TxIn.fitsFrom hhex (2 ^ 28)).items.present hsize hinput
  obtain ⟨houtputs, houtput⟩ := (TxOut.fitsFrom hhex (2 ^ 28)).items.present hsize houtput
  refine ⟨⟨hinputs.trans (by decide), fun i hi => ?_⟩, houtputs.trans (by decide), fun o ho => ?_⟩
  · obtain ⟨hscript, ⟨xs, hpacked⟩, hcontent⟩ := hinput i hi
    exact ⟨hscript.trans (by decide), hpacked.fits (hcontent.trans (by decide))⟩
  · exact (houtput o ho).trans (by decide)

/-- Every witness that is read was packed, and is small. -/
theorem ReadFrom.sliced (hhex : hex.Standard) (hwidth : usizeBits = 32 ∨ usizeBits = 64)
    (hsize : doc.size < 2 ^ 28) (h : tx.ReadFrom hex doc) :
    ∀ input ∈ tx.input.toList, input.witness.Sliced usizeBits := by
  obtain ⟨-, -, -, hinput, -⟩ := h
  obtain ⟨-, hinput⟩ := (TxIn.fitsFrom hhex (2 ^ 28)).items.present hsize hinput
  intro input hmem
  obtain ⟨-, ⟨xs, hpacked⟩, hcontent⟩ := hinput input hmem
  refine ⟨⟨xs, Witness.fromSlice_eq_ok_iff.mpr hpacked⟩, ?_⟩
  rcases hwidth with rfl | rfl <;> omega

/-- The witnesses have been built by `from_slice`. -/
theorem witnessesBuilt_of_sliced (h : ∀ input ∈ tx.input.toList, input.witness.Sliced usizeBits) :
    tx.WitnessesBuilt 64 := by
  intro input hinput
  obtain ⟨⟨xs, hxs⟩, -⟩ := h input hinput
  exact .fromSlice (Witness.length_lt_two_pow_64 xs) hxs

/-- A transaction with such witnesses can be written as a document. -/
theorem exists_toJson (hwidth : usizeBits = 32 ∨ usizeBits = 64)
    (h : ∀ input ∈ tx.input.toList, input.witness.Sliced usizeBits) :
    ∃ doc, tx.toJson hex usizeBits = .ok doc := by
  have hinput : ∀ input ∈ tx.input.toList, ∃ doc, TxIn.toJson hex usizeBits input = .ok doc := by
    intro input hinput
    obtain ⟨⟨xs, hxs⟩, halloc⟩ := h input hinput
    have hpacked := Witness.fromSlice_eq_ok_iff.mp hxs
    have hwitness : input.witness.toJson hex usizeBits = .ok (.arr (Witness.elementTexts hex xs)) :=
      hpacked.toJson_eq (Witness.add_four_lt_two_pow hwidth halloc)
    exact ⟨_, Outcome.bind_eq_ok_iff.mpr ⟨_, hwitness, rfl⟩⟩
  obtain ⟨items, hitems⟩ := Outcome.exists_mapM_eq_ok hinput
  exact ⟨_, Outcome.bind_eq_ok_iff.mpr ⟨items, hitems, rfl⟩⟩

/-- A transaction that is read from a document of less than `2 ^ 28` characters is written in all
three forms, on 32 and on 64 bits.  Whatever follows its bytes, no other one that is read from
such a document has them, and from its Borsh bytes and from its document it is read again. -/
theorem forms_agree (hhex : hex.Standard) (hwidth : usizeBits = 32 ∨ usizeBits = 64)
    {parse : String → Option Json} {text : String} (hparse : parse text = some doc)
    (hsize : doc.size < 2 ^ 28) (h : fromJson hex parse text = .ok tx) :
    (∃ bytes, tx.serialize = .ok bytes ∧
      ∀ (text' : String) (doc' : Json) (tx' : BitcoinTransaction) (bytes' : Bytes),
        parse text' = some doc' → doc'.size < 2 ^ 28 → fromJson hex parse text' = .ok tx' →
          tx'.serialize = .ok bytes' → ∀ x y, bytes ++ x = bytes' ++ y → tx = tx' ∧ x = y) ∧
    (∃ b, toVec tx.borsh = .ok b ∧
      ∀ rest, (deserialize usizeBits).run (b ++ rest) = .ok (tx, rest)) ∧
    ∃ own, tx.toJson hex usizeBits = .ok own ∧
      ∀ text', parse text' = some own → fromJson hex parse text' = .ok tx := by
  have hfrom := (takesExactly recursionLimit).of_fromStr hparse h
  have hsliced := hfrom.sliced hhex hwidth hsize
  have hbuilt := witnessesBuilt_of_sliced hsliced
  refine ⟨⟨tx.wire, serialize_eq hbuilt.sized, ?_⟩, ?_, ?_⟩
  · intro text' doc' tx' bytes' hparse' hsize' h' hbytes' x y hxy
    have hfrom' := (takesExactly recursionLimit).of_fromStr hparse' h'
    have hbuilt' := witnessesBuilt_of_sliced (hfrom'.sliced hhex hwidth hsize')
    rw [serialize_eq hbuilt'.sized] at hbytes'
    obtain rfl := Outcome.ok.inj hbytes'
    exact wire_append_inj hbuilt hbuilt' hxy
  · have hfits : tx.Fits usizeBits := by
      have hfits := hfrom.fits hhex hsize
      rcases hwidth with rfl | rfl
      · exact hfits
      · exact hfits.widen
    exact (isCodec usizeBits).exists_toVec hfits
  · obtain ⟨own, hown⟩ : ∃ own, tx.toJson hex usizeBits = .ok own := exists_toJson hwidth hsliced
    obtain ⟨hdepth, hown'⟩ := roundTrips hwidth hsliced (spells_toJson hex hown)
    refine ⟨own, hown, fun text' hparse' => ?_⟩
    rw [fromJson, fromStr, hparse']
    exact (hown' recursionLimit).eq_ok_iff.mpr ⟨trivial, hdepth.trans (by decide)⟩

/-- The loose document has both binary forms. -/
theorem forms_agree_looseDocument :
    (∃ bytes, looseTransaction.serialize = .ok bytes) ∧
    (∃ b, toVec looseTransaction.borsh = .ok b ∧
      ∀ rest, (deserialize 32).run (b ++ rest) = .ok (looseTransaction, rest)) ∧
    ∃ own, looseTransaction.toJson .lowercase 32 = .ok own := by
  have hread : fromJson .lowercase (parserOf looseDocument) looseDocument.compact =
      .ok looseTransaction :=
    (takesExactly recursionLimit).fromStr_eq_ok (parserOf_compact _) depth_looseDocument_le
      readFrom_looseDocument
  obtain ⟨⟨bytes, hbytes, -⟩, hborsh, own, hown, -⟩ := forms_agree Hex.Codec.standard_lowercase
    (.inl rfl) (parserOf_compact looseDocument) (by decide) hread
  exact ⟨⟨bytes, hbytes⟩, hborsh, own, hown⟩

end BitcoinTransaction

end Bitcoin
