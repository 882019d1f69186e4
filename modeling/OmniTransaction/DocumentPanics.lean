/-
# Documents at which `from_json` panics

Of all documents that are shorter than `2 ^ 31` characters, `BitcoinTransaction::from_json`
panics only at those whose lock time is a number that no `u32` can hold
(`BitcoinTransaction.fromJson_panics_lockTime`).  `NearTransaction::from_json` panics only at
those with a signature of a delegate action that is too short
(`NearTransaction.fromJson_panics_signature`).
-/
import OmniTransaction.BitcoinAccepted
import OmniTransaction.BitcoinNumbers
import OmniTransaction.NearKeyTexts
import OmniTransaction.NearReaders
import OmniTransaction.NearSignatures
import OmniTransaction.ReaderPanics

open ByteOrder Rust Serde

/-! ## Bitcoin -/

namespace Bitcoin

variable {hex : Hex.Codec} {level : ℕ} {doc : Json} {msg : String}

/-- A version that is neither one nor two is an error. -/
theorem Version.fromJson_ne_panic : Version.fromJson level doc ≠ .panic msg := by
  have hnumber : ∀ n, ofNumber n ≠ .panic msg := by
    intro n
    unfold ofNumber
    split <;> simp
  unfold Version.fromJson
  split
  · refine Outcome.bind_ne_panic (Outcome.mapErr_ne_panic ?_) fun n _ => hnumber n
    rw [parseUnsigned_eq_fromStrRadix]
    exact fromStrRadix_ne_panic msg
  · split_ifs
    · exact hnumber _
    · exact Outcome.err_ne_panic _ _
  · exact unexpected_ne_panic _ _ _ _

namespace LockTime

/-- The text of the panic. -/
def invalidTimestamp (n : ℕ) : String :=
  "called `Result::unwrap()` on an `Err` value: " ++
    s!"Invalid timestamp: {UInt32.ofNat n}".quote

/-- The numbers that do not fit in a `u32` and whose low 32 bits are below the threshold. -/
structure WrapsToHeight (n : ℕ) : Prop where
  le : 2 ^ 32 ≤ n
  lt : n < 2 ^ 64
  wraps : n % 2 ^ 32 < 500000000

/-- Only a number that wraps to a height is unwrapped in vain. -/
theorem ofNumber_eq_panic {n : ℕ} (h : ofNumber n = .panic msg) :
    2 ^ 32 ≤ n ∧ n % 2 ^ 32 < 500000000 ∧ msg = invalidTimestamp n := by
  by_cases hn : n < 2 ^ 32
  · -- a `u32` is a height or a time
    have hsame := ofNumber_toNat ⟨UInt32.ofNat n⟩
    rw [toNat_ofNat_eq_iff.mpr hn] at hsame
    rw [hsame] at h
    cases h
  · rw [ofNumber_of_le (by omega), fromTime, Time.isValid] at h
    split_ifs at h with hvalid
    · cases h
    · have hmod : (UInt32.ofNat n).toNat = n % 2 ^ 32 := rfl
      have hthreshold : LOCK_TIME_THRESHOLD.toNat = 500000000 := rfl
      rw [decide_eq_true_eq, UInt32.le_iff_toNat_le] at hvalid
      exact ⟨by omega, by omega, (Outcome.panic.inj h).symm⟩

/-- Only a number panics, since a text is parsed as a `u32`. -/
theorem fromJson_eq_panic (h : LockTime.fromJson level doc = .panic msg) :
    ∃ n : ℕ, doc = .int n ∧ WrapsToHeight n ∧ msg = invalidTimestamp n := by
  unfold LockTime.fromJson at h
  split at h
  · split at h
    · rename_i n hn
      have hlt : n < 2 ^ 32 := (parseUnsigned_eq_ok_iff.mp hn).2
      obtain ⟨hle, -, -⟩ := ofNumber_eq_panic h
      omega
    · cases h
  · rename_i i
    split_ifs at h with hrange
    obtain ⟨n, rfl⟩ := Int.eq_ofNat_of_zero_le hrange.1
    obtain ⟨hle, hwraps, hmsg⟩ := ofNumber_eq_panic h
    rw [Int.toNat_natCast] at hle hwraps hmsg
    exact ⟨n, rfl, ⟨hle, by omega, hwraps⟩, hmsg⟩
  · exact absurd h (unexpected_ne_panic _ _ _ _)

end LockTime

/-- There is room for all bytes of a text, or of an array of numbers. -/
theorem ofList_ne_panic {α ε : Type} {l : List α} (h : l.length < 2 ^ 64) :
    (Vec.ofList l : Outcome ε (Vec α)) ≠ .panic msg := by
  rw [Vec.ofList, dif_pos h]
  exact Outcome.ok_ne_panic _ _

namespace OutPoint

/-- An index that does not fit is cut off or an error. -/
theorem voutOf_ne_panic (value : Json) : voutOf value ≠ .panic msg := by
  unfold voutOf
  split
  · split_ifs <;> simp
  · simp
  · split <;> simp
  · simp

variable (hhex : hex.Standard)

include hhex

/-- A text or an array that is no id is an error. -/
theorem txidBytes_ne_panic (value : Json) : txidBytes hex value ≠ .panic msg := by
  intro hpanic
  unfold txidBytes at hpanic
  split at hpanic
  · exact Outcome.mapErr_ne_panic (hhex.decode_ne_panic _ msg) hpanic
  · obtain ⟨item, -, hitem⟩ := Outcome.exists_panic_of_mapM hpanic
    split at hitem
    · split_ifs at hitem
    · cases hitem
  · cases hpanic

/-- The visitor goes through all entries without a panic. -/
theorem visitMap_ne_panic (txid : Option Txid) (vout : Option UInt32)
    (entries : List (String × Json)) : visitMap hex level txid vout entries ≠ .panic msg := by
  induction entries generalizing txid vout with
  | nil =>
    unfold visitMap
    split <;> simp
  | cons e entries ih =>
    obtain ⟨key, value⟩ := e
    rw [visitMap]
    split_ifs
    · refine Outcome.bind_ne_panic (readValue_ne_panic _ _ _) fun txidValue _ => ?_
      refine Outcome.bind_ne_panic (txidBytes_ne_panic hhex _) fun bytes _ => ?_
      split
      · exact ih _ _
      · exact Outcome.err_ne_panic _ _
    · refine Outcome.bind_ne_panic (readValue_ne_panic _ _ _) fun voutValue _ => ?_
      exact Outcome.bind_ne_panic (voutOf_ne_panic _) fun n _ => ih _ _
    · exact Outcome.err_ne_panic _ _

/-- An outpoint is read or refused. -/
theorem fromJson_ne_panic : OutPoint.fromJson hex level doc ≠ .panic msg := by
  unfold OutPoint.fromJson
  split
  · exact Outcome.err_ne_panic _ _
  · exact visitMap_ne_panic hhex _ _ _
  · exact Outcome.err_ne_panic _ _

end OutPoint

/-- A sequence is read or refused. -/
theorem Sequence.fromJson_ne_panic : Sequence.fromJson level doc ≠ .panic msg :=
  Outcome.bind_ne_panic (readUnsigned_ne_panic 32 "u32" level doc msg)
    fun _ _ => Outcome.ok_ne_panic _ _

/-- An amount is read or refused. -/
theorem Amount.fromJson_ne_panic : Amount.fromJson level doc ≠ .panic msg :=
  Outcome.bind_ne_panic (readUnsigned_ne_panic 64 "u64" level doc msg)
    fun _ _ => Outcome.ok_ne_panic _ _

section

variable (hhex : hex.Standard)

include hhex

/-- A script could only be too large for the memory. -/
theorem ScriptBuf.panicsOnlyAt (level : ℕ) :
    PanicsOnlyAt Json.IsLarge (ScriptBuf.fromJson hex level) := by
  intro doc msg hpanic
  refine ⟨doc, .refl doc, ?_⟩
  by_contra hlarge
  rw [Json.IsLarge, not_le] at hlarge
  unfold ScriptBuf.fromJson at hpanic
  split at hpanic
  · rename_i v
    split_ifs at hpanic
    refine Outcome.mapErr_ne_panic (f := DeError.custom) ?_ hpanic
    refine Outcome.bind_ne_panic (Outcome.mapErr_ne_panic (hhex.decode_ne_panic v msg)) ?_
    intro b hb
    have hlength : v.length = 2 * b.length := hhex.length_eq (Outcome.mapErr_eq_ok_iff.mp hb)
    have hsize : v.length + 1 < 2 ^ 31 := hlarge
    exact Outcome.bind_ne_panic (ofList_ne_panic (by omega)) fun _ _ => Outcome.ok_ne_panic _ _
  · rename_i items
    refine Outcome.bind_ne_panic (readBytes_ne_panic _ _ _) (fun b hb => ?_) hpanic
    obtain ⟨hitems, -⟩ := readBytes_eq_ok_iff.mp hb
    have hsize : Json.itemsSize items + 1 < 2 ^ 31 := hlarge
    have hlength := Json.length_le_itemsSize items
    rw [Json.arr.inj hitems, List.length_map] at hlength
    rw [Json.arr.inj hitems] at hsize
    exact Outcome.bind_ne_panic (ofList_ne_panic (by omega)) fun _ _ => Outcome.ok_ne_panic _ _
  · exact unexpected_ne_panic _ _ _ _ hpanic

omit hhex in
/-- The length of a byte string takes one byte if it is short. -/
theorem length_prefixed_le (x : Vec UInt8) : (prefixed x).length ≤ 2 * x.length + 1 := by
  have hlt := x.length_lt
  have hval : (VarInt.ofLength x.length).val.toNat = x.length := x.toNat_ofNat_length
  have hsize : (VarInt.ofLength x.length).size ≤ x.length + 1 := by
    simp only [VarInt.size, UInt64.le_iff_toNat_le, hval]
    split_ifs with h₁ h₂ h₃
    · omega
    · have h : ¬ x.length ≤ 252 := h₁
      omega
    · have h : ¬ x.length ≤ 65535 := h₂
      omega
    · have h : ¬ x.length ≤ 4294967295 := h₃
      omega
  rw [prefixed, List.length_append, VarInt.length_wire, Vec.length_toList]
  omega

/-- An element could only be too large for the memory. -/
theorem Witness.readElement_panicsOnlyAt (level : ℕ) :
    PanicsOnlyAt Json.IsLarge (Witness.readElement hex level) := by
  intro doc msg hpanic
  refine ⟨doc, .refl doc, ?_⟩
  by_contra hlarge
  rw [Json.IsLarge, not_le] at hlarge
  refine Outcome.bind_ne_panic (readString_ne_panic _ _ _) (fun elem helem => ?_) hpanic
  refine Outcome.bind_ne_panic (Outcome.mapErr_ne_panic (hhex.decode_ne_panic elem msg)) ?_
  intro b hb
  have hlength := hhex.length_eq (Outcome.mapErr_eq_ok_iff.mp hb)
  cases doc with
  | str s =>
    obtain rfl := Outcome.ok.inj helem
    have hsize : s.length + 1 < 2 ^ 31 := hlarge
    exact ofList_ne_panic (by omega)
  | _ => cases helem

/-- The elements are shorter than their texts. -/
theorem Witness.length_flatMap_prefixed_le {xs : List (Vec UInt8)} {items : List Json}
    (h : List.Forall₂ (ElementFrom hex) xs items) :
    (xs.flatMap prefixed).length ≤ Json.itemsSize items := by
  induction h with
  | nil => exact le_rfl
  | @cons x _ _ _ hx _ ih =>
    obtain ⟨text, rfl, hx⟩ := hx
    have hlength := hhex.length_eq hx
    have hle := length_prefixed_le x
    rw [Vec.length_toList] at hlength
    rw [List.flatMap_cons, List.length_append, Json.itemsSize, Json.size]
    omega

/-- The offsets into a witness fit in four bytes, since the texts are longer. -/
theorem Witness.panicsOnlyAt (level : ℕ) :
    PanicsOnlyAt Json.IsLarge (Witness.fromJson hex level) := by
  intro doc msg hpanic
  unfold Witness.fromJson at hpanic
  split at hpanic
  · rename_i items
    rcases Outcome.bind_eq_panic_iff.mp hpanic with hread | ⟨xs, hxs, hslice⟩
    · exact PanicsOnlyAt.vector (readElement_panicsOnlyAt hhex) level _ msg hread
    refine ⟨_, .refl _, ?_⟩
    by_contra hlarge
    have hsize : Json.itemsSize items + 1 < 2 ^ 31 := not_le.mp hlarge
    obtain ⟨_, hdoc, hitems⟩ :=
      (TakesExactly.vector takesExactly_readElement level).sound _ xs hxs
    obtain rfl := Json.arr.inj hdoc
    have hlength := length_flatMap_prefixed_le hhex hitems
    obtain ⟨w, hw⟩ := exists_packed_of_lt xs (by omega)
    rw [fromSlice_eq_ok_iff.mpr hw] at hslice
    cases hslice
  · cases hpanic

/-! ### Transactions -/

/-- The script and the witness are the parts that could be too large. -/
theorem TxIn.panicsOnlyAt (level : ℕ) : PanicsOnlyAt Json.IsLarge (TxIn.fromJson hex level) :=
  let Φ := Serde.panicsOnlyAt Json.IsLarge
  Φ.struct (Φ.field (Φ.field (Φ.field (Φ.field (Φ.start TxIn.mk)
    "previous_output" (Φ.below (fun _ => panicsOnlyAt_of_never fun _ _ =>
      OutPoint.fromJson_ne_panic hhex) level))
    "script_sig" (Φ.below (ScriptBuf.panicsOnlyAt hhex) level))
    "sequence" (Φ.below (fun _ => panicsOnlyAt_of_never fun _ _ =>
      Sequence.fromJson_ne_panic) level))
    "witness" (Φ.below (Witness.panicsOnlyAt hhex) level)) "TxIn" level

/-- The script is the part that could be too large. -/
theorem TxOut.panicsOnlyAt (level : ℕ) : PanicsOnlyAt Json.IsLarge (TxOut.fromJson hex level) :=
  let Φ := Serde.panicsOnlyAt Json.IsLarge
  Φ.struct (Φ.field (Φ.field (Φ.start TxOut.mk)
    "value" (Φ.below (fun _ => panicsOnlyAt_of_never fun _ _ => Amount.fromJson_ne_panic) level))
    "script_pubkey" (Φ.below (ScriptBuf.panicsOnlyAt hhex) level)) "TxOut" level

end

namespace BitcoinTransaction

/-- The names of the fields. -/
def fieldNames : List String := ["version", "lock_time", "input", "output"]

/-- Of a document of less than `2 ^ 31` characters, only the lock time can panic. -/
theorem fromJson_panics_lockTime (hhex : hex.Standard) {parse : String → Option Json}
    {text : String} (hparse : parse text = some doc) (hsize : doc.size < 2 ^ 31)
    (h : fromJson hex parse text = .panic msg) :
    ∃ n : ℕ, doc.field fieldNames "lock_time" = some (.int n) ∧ LockTime.WrapsToHeight n ∧
      msg = LockTime.invalidTimestamp n := by
  have hfields := ((((Fields.panicsAtField_start BitcoinTransaction.mk).field
    "version" (below Version.fromJson 127)).field
    "lock_time" (below LockTime.fromJson 127)).field
    "input" (below (readVector (TxIn.fromJson hex)) 127)).field
    "output" (below (readVector (TxOut.fromJson hex)) 127)
  rw [fromJson, fromStr, hparse] at h
  obtain ⟨r, hr, value, hvalue, hread⟩ := hfields.struct h
  have hvectors : ∀ {α : Type} {read : Reader α},
      (∀ level, PanicsOnlyAt Json.IsLarge (read level)) →
        below (readVector read) 127 value ≠ .panic msg := by
    intro α read hitems hpanic
    obtain ⟨part, hpart, hlarge⟩ := PanicsOnlyAt.vector hitems 126 value msg hpanic
    have hle := (hpart.trans (Json.part_of_field hvalue)).size_le
    exact absurd (hlarge.trans hle) (not_le.mpr hsize)
  rcases List.mem_append.mp hr with hr | hr
  · rcases List.mem_append.mp hr with hr | hr
    · rcases List.mem_append.mp hr with hr | hr
      · rw [List.mem_singleton.mp hr] at hread
        exact absurd (panic_of_discard hread) Version.fromJson_ne_panic
      · rw [List.mem_singleton.mp hr] at hread hvalue
        obtain ⟨n, rfl, hn, hmsg⟩ := LockTime.fromJson_eq_panic (panic_of_discard hread)
        exact ⟨n, hvalue, hn, hmsg⟩
    · rw [List.mem_singleton.mp hr] at hread
      exact absurd (panic_of_discard hread) (hvectors (TxIn.panicsOnlyAt hhex))
  · rw [List.mem_singleton.mp hr] at hread
    exact absurd (panic_of_discard hread) (hvectors (TxOut.panicsOnlyAt hhex))

/-- A transaction without inputs and outputs at the lock time `2 ^ 32`. -/
def lateDocument : Json :=
  .obj [("version", .int 1), ("lock_time", .int 4294967296), ("input", .arr []),
    ("output", .arr [])]

/-- The lock time `2 ^ 32` wraps to the height zero. -/
theorem fromJson_panics_lockTime_lateDocument :
    ∃ n : ℕ, lateDocument.field fieldNames "lock_time" = some (.int n) ∧
      LockTime.WrapsToHeight n ∧
      LockTime.invalidTimestamp 4294967296 = LockTime.invalidTimestamp n :=
  fromJson_panics_lockTime Hex.Codec.standard_lowercase (parserOf_compact lateDocument)
    (by decide) (by rfl)

end BitcoinTransaction

end Bitcoin

/-! ## NEAR -/

namespace Near

variable {validate : String → Option String} {codecs : TextCodecs} {P : Json → Prop}

/-- A number that is not read is an error. -/
theorem stringOrNumber_ne_panic (bits : ℕ) (expected : String) (level : ℕ) (doc : Json)
    (msg : String) : stringOrNumber bits expected level doc ≠ .panic msg := by
  unfold stringOrNumber
  split
  · rw [parseUnsigned_eq_fromStrRadix]
    exact Outcome.mapErr_ne_panic (fromStrRadix_ne_panic msg)
  · split_ifs <;> simp
  · exact unexpected_ne_panic _ _ _ _

/-- Both spellings are read or refused. -/
theorem U64.fromJson_ne_panic (level : ℕ) (doc : Json) (msg : String) :
    U64.fromJson level doc ≠ .panic msg :=
  Outcome.bind_ne_panic (stringOrNumber_ne_panic 64 _ level doc msg)
    fun _ _ => Outcome.ok_ne_panic _ _

/-- Both spellings are read or refused. -/
theorem U128.fromJson_ne_panic (level : ℕ) (doc : Json) (msg : String) :
    U128.fromJson level doc ≠ .panic msg :=
  Outcome.bind_ne_panic (stringOrNumber_ne_panic 128 _ level doc msg)
    fun _ _ => Outcome.ok_ne_panic _ _

/-- A name that is not valid is an error. -/
theorem AccountId.fromJson_ne_panic (level : ℕ) (doc : Json) (msg : String) :
    @AccountId.fromJson validate level doc ≠ .panic msg := by
  refine Outcome.bind_ne_panic (readString_ne_panic level doc msg) fun name _ => ?_
  split
  · exact Outcome.ok_ne_panic _ _
  · exact Outcome.err_ne_panic _ _

/-- A signed delegate action whose signature has fewer bytes than one component. -/
def SignedDelegateAction.IsShort (codecs : TextCodecs) (part : Json) : Prop :=
  ∃ s, part.field ["delegate_action", "signature"] "signature" = some (.str s) ∧
    Signature.Short codecs.bs58.decode s

section

variable (hbs58 : ∀ data msg, codecs.bs58.decode data ≠ .panic msg)

include hbs58

/-- A hash of the wrong length is an error. -/
theorem BlockHash.fromJson_ne_panic (level : ℕ) (doc : Json) (msg : String) :
    BlockHash.fromJson codecs level doc ≠ .panic msg := by
  unfold BlockHash.fromJson
  split
  · exact PublicKeyStrExt.visitStr_ne_panic hbs58 msg _
  · exact Outcome.bind_ne_panic (visitBytes_ne_panic _ _ _ _ _) fun _ _ => Outcome.ok_ne_panic _ _
  · exact unexpected_ne_panic _ _ _ _

/-- A key of the wrong length is an error. -/
theorem PublicKey.fromJson_ne_panic (level : ℕ) (doc : Json) (msg : String) :
    PublicKey.fromJson codecs level doc ≠ .panic msg := by
  have htry : ∀ bytes, PublicKey.tryFrom bytes ≠ .panic msg := by
    intro bytes
    unfold PublicKey.tryFrom
    split <;> simp
  unfold PublicKey.fromJson
  split
  · exact Outcome.mapErr_ne_panic (PublicKeyStrExt.toPublicKey_ne_panic hbs58 msg _)
  · unfold PublicKey.visitMap
    split
    · exact Outcome.err_ne_panic _ _
    · split
      · refine Outcome.bind_ne_panic (readBytes_ne_panic _ _ _) fun bytes _ => ?_
        refine Outcome.bind_ne_panic (Outcome.mapErr_ne_panic (htry bytes)) fun key _ => ?_
        split <;> simp
      · exact Outcome.err_ne_panic _ _
  · exact unexpected_ne_panic _ _ _ _

/-- A signature panics if it is too short. -/
theorem Signature.short_of_fromJson_panic {level : ℕ} {doc : Json} {msg : String}
    (h : Signature.fromJson codecs level doc = .panic msg) :
    ∃ s, doc = .str s ∧ Signature.Short codecs.bs58.decode s := by
  rw [Signature.fromJson_eq_deserializeJson] at h
  rcases Outcome.bind_eq_panic_iff.mp h with hstring | ⟨s, hs, hread⟩
  · exact absurd hstring (readString_ne_panic _ _ _)
  · cases doc with
    | str s' =>
      obtain rfl := Outcome.ok.inj hs
      refine ⟨s', rfl, ?_⟩
      by_contra hshort
      exact Signature.readText_ne_panic hbs58 hshort msg hread
    | _ => cases hs

/-- Its own signature, or something in the delegate action. -/
theorem SignedDelegateAction.panicsOnlyAt
    {delegateAction : Json → Outcome DeError (DelegateAction validate)}
    (hdelegate : PanicsOnlyAt (SignedDelegateAction.IsShort codecs) delegateAction) (level : ℕ) :
    PanicsOnlyAt (SignedDelegateAction.IsShort codecs)
      (SignedDelegateAction.fromJsonWith codecs delegateAction level) := by
  have hfields := ((Fields.panicsAtField_start (@SignedDelegateAction.mk validate)).field
    "delegate_action" delegateAction).field
    "signature" (below (Signature.fromJson codecs) level)
  intro doc msg hpanic
  obtain ⟨r, hr, value, hvalue, hread⟩ := hfields.struct hpanic
  rcases List.mem_append.mp hr with hr | hr
  · rw [List.mem_singleton.mp hr] at hread
    obtain ⟨part, hpart, hP⟩ := hdelegate value msg (panic_of_discard hread)
    exact ⟨part, hpart.trans (Json.part_of_field hvalue), hP⟩
  · rw [List.mem_singleton.mp hr] at hread hvalue
    cases level with
    | zero => cases hread
    | succ level =>
      obtain ⟨s, rfl, hshort⟩ := Signature.short_of_fromJson_panic hbs58 (panic_of_discard hread)
      exact ⟨doc, .refl doc, s, hvalue, hshort⟩

end

end Near
