/-
# The order of the entries in a transaction's document

The three `from_json` make nothing of the order in which the names of an object stand, at
any depth: for Bitcoin and NEAR the derived readers, the visitors written by hand and the
enumerations are all `OrderFree` (`BitcoinTransaction.fromJson_iff_of_rearranged`,
`NearTransaction.fromJson_rearranged`), and for EVM not even a panic depends on the order
(`EVMTransaction.fromJson_eq_of_rearranged`).
-/
import OmniTransaction.BitcoinJson
import OmniTransaction.EvmJson
import OmniTransaction.NearReaders
import OmniTransaction.Rearranging

open ByteOrder Rust Serde

/-- The entries of an object from the last one to the first. -/
def Serde.Json.backwards : Json → Json
  | .obj entries => .obj entries.reverse
  | doc => doc

/-- A parser at the texts of a document and of the same document backwards. -/
def Serde.parserOfBoth (doc : Json) (s : String) : Option Json :=
  if s = doc.compact then some doc
  else if s = doc.backwards.compact then some doc.backwards
  else none

/-- The document itself is one of the two. -/
theorem Serde.parserOfBoth_compact (doc : Json) : parserOfBoth doc doc.compact = some doc :=
  if_pos rfl

/-- The other document has another text, unless nothing can be reversed. -/
theorem Serde.parserOfBoth_backwards {doc : Json} (h : doc.backwards.compact ≠ doc.compact) :
    parserOfBoth doc doc.backwards.compact = some doc.backwards :=
  (if_neg h).trans (if_pos rfl)

/-! ## Bitcoin -/

namespace Bitcoin

variable (hex : Hex.Codec)

/-- A version is a number or a text, which have no entries. -/
theorem Version.orderFree (level : ℕ) : OrderFree (Version.fromJson level) := by
  apply orderFree_of_isScalar
  intro doc version h
  cases doc <;> first | exact trivial | exact absurd h unexpected_ne_ok

/-- A lock time is a number or a text. -/
theorem LockTime.orderFree (level : ℕ) : OrderFree (LockTime.fromJson level) := by
  apply orderFree_of_isScalar
  intro doc lockTime h
  cases doc <;> first | exact trivial | exact absurd h unexpected_ne_ok

theorem Sequence.orderFree (level : ℕ) : OrderFree (Sequence.fromJson level) :=
  (orderFree_unsigned 32 "u32" level).bind _

theorem Amount.orderFree (level : ℕ) : OrderFree (Amount.fromJson level) :=
  (orderFree_unsigned 64 "u64" level).bind _

/-- A script is a text or an array, and arrays keep their order. -/
theorem ScriptBuf.orderFree (level : ℕ) : OrderFree (ScriptBuf.fromJson hex level) := by
  intro doc doc' hmove script h
  cases doc with
  | arr items =>
    obtain ⟨b, hb, -⟩ := Outcome.bind_eq_ok_iff.mp h
    rw [(readBytes_eq_ok_iff.mp hb).1] at hmove
    exact absurd hmove (not_moves_writeBytes b doc')
  | obj entries => exact absurd h unexpected_ne_ok
  | _ => exact absurd trivial hmove.not_isScalar

/-- A witness is an array of texts. -/
theorem Witness.orderFree (level : ℕ) : OrderFree (Witness.fromJson hex level) := by
  intro doc doc' hmove w h
  have helement : ∀ level, OrderFree (readElement hex level) := fun level =>
    (orderFree_string level).bind _
  cases hmove with
  | item hmove =>
    exact ((OrderFree.vector helement level).bind fromSlice) _ _ (.item hmove) w h
  | swap hne => cases h
  | entry hmove => cases h

namespace OutPoint

variable {hex} {level : ℕ} {txid : Option Txid} {vout : Option UInt32} {outpoint : OutPoint}

/-- What the first entry of an accepted object is, and what comes of the others. -/
theorem visitMap_cons_eq_ok_iff {e : String × Json} {entries : List (String × Json)} :
    visitMap hex level txid vout (e :: entries) = .ok outpoint ↔
      (e.1 = "txid" ∧ e.2.depth ≤ level ∧ ∃ hashBytes : Txid,
        txidBytes hex e.2 = .ok hashBytes.toList ∧
          visitMap hex level (some hashBytes) vout entries = .ok outpoint) ∨
      (e.1 = "vout" ∧ e.2.depth ≤ level ∧ ∃ n, voutOf e.2 = .ok n ∧
        visitMap hex level txid (some n) entries = .ok outpoint) := by
  obtain ⟨key, value⟩ := e
  have hvalue : ∀ doc, readValue level value = .ok doc ↔ value.depth ≤ level ∧ doc = value := by
    intro doc
    rw [readValue]
    split_ifs with hdepth <;> simp [hdepth, eq_comm]
  rw [visitMap]
  by_cases htxid : key = "txid"
  · subst htxid
    simp only [if_true, Outcome.bind_eq_ok_iff, hvalue]
    constructor
    · rintro ⟨_, ⟨hdepth, rfl⟩, bytes, hbytes, h⟩
      split at h
      · rename_i hashBytes hhash
        rw [← (toArray_eq_some_iff _ _).mp hhash] at hbytes
        exact .inl ⟨trivial, hdepth, hashBytes, hbytes, h⟩
      · cases h
    · rintro (⟨-, hdepth, hashBytes, hbytes, h⟩ | ⟨hkey, -⟩)
      · refine ⟨value, ⟨hdepth, rfl⟩, _, hbytes, ?_⟩
        rw [toArray_toList]
        exact h
      · exact absurd hkey (by decide)
  · simp only [if_neg htxid]
    by_cases hvout : key = "vout"
    · subst hvout
      simp only [if_true, Outcome.bind_eq_ok_iff, hvalue]
      constructor
      · rintro ⟨_, ⟨hdepth, rfl⟩, n, hn, h⟩
        exact .inr ⟨trivial, hdepth, n, hn, h⟩
      · rintro (⟨hkey, -⟩ | ⟨-, hdepth, n, hn, h⟩)
        · exact absurd hkey htxid
        · exact ⟨value, ⟨hdepth, rfl⟩, n, hn, h⟩
    · simp [hvout, htxid]

/-- The bytes of a `txid` and the number of a `vout` have no parts that could move. -/
theorem not_moves_of_txidBytes {value doc : Json} {b : Bytes} (h : txidBytes hex value = .ok b) :
    ¬ value.Moves doc := by
  intro hmove
  unfold txidBytes at h
  cases hmove with
  | swap hne => cases h
  | entry hmove => cases h
  | @item before after value value' hmove =>
    obtain ⟨n, hn⟩ := Outcome.exists_of_mapM h (List.mem_append_right _ List.mem_cons_self)
    cases hmove <;> cases hn

/-- An index that is accepted is a number or a text. -/
theorem not_moves_of_voutOf {value doc : Json} {n : UInt32} (h : voutOf value = .ok n) :
    ¬ value.Moves doc := by
  intro hmove
  cases hmove <;> cases h

/-- In an accepted object no value can move. -/
theorem not_moves_of_visitMap {before after : List (String × Json)} {name : String}
    {value doc : Json}
    (h : visitMap hex level txid vout (before ++ (name, value) :: after) = .ok outpoint) :
    ¬ value.Moves doc := by
  induction before generalizing txid vout with
  | nil =>
    rcases visitMap_cons_eq_ok_iff.mp h with ⟨-, -, _, hbytes, -⟩ | ⟨-, -, _, hn, -⟩
    · exact not_moves_of_txidBytes hbytes
    · exact not_moves_of_voutOf hn
  | cons e before ih =>
    rcases visitMap_cons_eq_ok_iff.mp h with ⟨-, -, _, -, h⟩ | ⟨-, -, _, -, h⟩
    · exact ih h
    · exact ih h

/-- A `txid` and a `vout` may change places. -/
theorem visitMap_swap {before after : List (String × Json)} {a b : String × Json}
    (hne : a.1 ≠ b.1)
    (h : visitMap hex level txid vout (before ++ a :: b :: after) = .ok outpoint) :
    visitMap hex level txid vout (before ++ b :: a :: after) = .ok outpoint := by
  induction before generalizing txid vout with
  | nil =>
    rw [List.nil_append, visitMap_cons_eq_ok_iff] at h ⊢
    simp only [visitMap_cons_eq_ok_iff] at h ⊢
    rcases h with ⟨ha, hdepth, t, ht, ⟨hb, -⟩ | ⟨hb, hdepth', n, hn, h⟩⟩ |
      ⟨ha, hdepth, n, hn, ⟨hb, hdepth', t, ht, h⟩ | ⟨hb, -⟩⟩
    · exact absurd (ha.trans hb.symm) hne
    · exact .inr ⟨hb, hdepth', n, hn, .inl ⟨ha, hdepth, t, ht, h⟩⟩
    · exact .inl ⟨hb, hdepth', t, ht, .inr ⟨ha, hdepth, n, hn, h⟩⟩
    · exact absurd (ha.trans hb.symm) hne
  | cons e before ih =>
    rw [List.cons_append, visitMap_cons_eq_ok_iff] at h ⊢
    rcases h with ⟨he, hdepth, t, ht, h⟩ | ⟨he, hdepth, n, hn, h⟩
    · exact .inl ⟨he, hdepth, t, ht, ih h⟩
    · exact .inr ⟨he, hdepth, n, hn, ih h⟩

variable (hex) in
/-- An outpoint is the last value under each of its two names; two different names may change
places. -/
theorem orderFree (level : ℕ) : OrderFree (OutPoint.fromJson hex level) := by
  intro doc doc' hmove outpoint h
  cases level with
  | zero => cases hmove <;> cases h
  | succ level =>
    cases hmove with
    | swap hne => exact visitMap_swap hne h
    | entry hmove => exact absurd hmove (not_moves_of_visitMap h)
    | item hmove => cases h

end OutPoint

/-- An input is a derived structure of parts for which the order does not matter. -/
theorem TxIn.orderFree (level : ℕ) : OrderFree (TxIn.fromJson hex level) :=
  (((((Fields.orderFree_start TxIn.mk).field
    "previous_output" (OrderFree.below (OutPoint.orderFree hex) level)).field
    "script_sig" (OrderFree.below (ScriptBuf.orderFree hex) level)).field
    "sequence" (OrderFree.below Sequence.orderFree level)).field
    "witness" (OrderFree.below (Witness.orderFree hex) level)).struct "TxIn" level

theorem TxOut.orderFree (level : ℕ) : OrderFree (TxOut.fromJson hex level) :=
  (((Fields.orderFree_start TxOut.mk).field
    "value" (OrderFree.below Amount.orderFree level)).field
    "script_pubkey" (OrderFree.below (ScriptBuf.orderFree hex) level)).struct "TxOut" level

namespace BitcoinTransaction

/-- The whole transaction, by its derived reader. -/
theorem orderFree (level : ℕ) : OrderFree (fromDocument hex level) :=
  (((((Fields.orderFree_start BitcoinTransaction.mk).field
    "version" (OrderFree.below Version.orderFree level)).field
    "lock_time" (OrderFree.below LockTime.orderFree level)).field
    "input" (OrderFree.below (OrderFree.vector (TxIn.orderFree hex)) level)).field
    "output" (OrderFree.below (OrderFree.vector (TxOut.orderFree hex)) level)).struct
      "BitcoinTransaction" level

/-- Texts whose documents differ in the order of the names are read as the same transaction,
if one of them is read. -/
theorem fromJson_iff_of_rearranged (hex : Hex.Codec) (parse : String → Option Json)
    {text text' : String} {doc doc' : Json} (hparse : parse text = some doc)
    (hparse' : parse text' = some doc') (hdoc : doc.Rearranged doc') (tx : BitcoinTransaction) :
    fromJson hex parse text = .ok tx ↔ fromJson hex parse text' = .ok tx := by
  rw [fromJson, fromJson, fromStr, fromStr, hparse, hparse']
  exact (orderFree hex recursionLimit).eq_ok_iff hdoc

/-- The document of the samples backwards, in all its objects. -/
theorem fromJson_iff_of_rearranged_sampleDocument :
    fromJson .lowercase (parserOfBoth sampleDocument) sampleDocument.backwards.compact =
      .ok (sampleTransaction (sampleInput 1 .empty sampleWitness)
        (sampleInput 2 .empty .new)) := by
  have hdoc : sampleDocument.Rearranged sampleDocument.backwards :=
    Json.rearranged_of_perm (List.reverse_perm _).symm (by decide)
  refine (fromJson_iff_of_rearranged .lowercase (parserOfBoth sampleDocument)
    (parserOfBoth_compact _) (parserOfBoth_backwards (by decide)) hdoc _).mp ?_
  rw [fromJson, fromStr, parserOfBoth_compact]
  have hsliced : ∀ input ∈ (sampleTransaction (sampleInput 1 .empty sampleWitness)
      (sampleInput 2 .empty .new)).input.toList, input.witness.Sliced 64 := by
    intro input hinput
    rcases List.mem_pair.mp hinput with rfl | rfl
    · exact sliced_sampleWitness
    · exact sliced_new
  obtain ⟨hdepth, hread⟩ := roundTrips (.inr rfl) hsliced spells_sampleDocument
  exact (hread recursionLimit).eq_ok_iff.mpr ⟨trivial, hdepth.trans (by decide)⟩

end BitcoinTransaction

end Bitcoin

/-! ## NEAR -/

namespace Near

variable {validate : String → Option String} (codecs : TextCodecs)

/-- A number or a text has no entries. -/
theorem orderFree_stringOrNumber (bits : ℕ) (expected : String) (level : ℕ) :
    OrderFree (stringOrNumber bits expected level) := by
  apply orderFree_of_isScalar
  intro doc n h
  cases doc <;> first | exact trivial | exact absurd h unexpected_ne_ok

theorem U64.orderFree (level : ℕ) : OrderFree (U64.fromJson level) :=
  (orderFree_stringOrNumber 64 _ level).bind _

theorem U128.orderFree (level : ℕ) : OrderFree (U128.fromJson level) :=
  (orderFree_stringOrNumber 128 _ level).bind _

theorem AccountId.orderFree (level : ℕ) : OrderFree (@AccountId.fromJson validate level) :=
  (orderFree_string level).bind _

theorem Base64VecU8.orderFree (level : ℕ) : OrderFree (Base64VecU8.fromJson codecs level) :=
  (orderFree_string level).bind _

theorem Signature.orderFree (level : ℕ) : OrderFree (Signature.fromJson codecs level) :=
  (orderFree_string level).bind _

/-- A text or an array of numbers. -/
theorem BlockHash.orderFree (level : ℕ) : OrderFree (BlockHash.fromJson codecs level) := by
  intro doc doc' hmove hash h
  cases doc with
  | arr items =>
    cases level with
    | zero => cases h
    | succ level =>
      obtain ⟨a, ha, -⟩ := Outcome.bind_eq_ok_iff.mp h
      rw [eq_map_of_visitBytes ha] at hmove
      exact absurd hmove (not_moves_writeBytes a.toList doc')
  | obj entries => cases level <;> cases h
  | _ => exact absurd trivial hmove.not_isScalar

/-- An object with one entry, which has no other order. -/
theorem PublicKey.orderFree (level : ℕ) : OrderFree (PublicKey.fromJson codecs level) := by
  intro doc doc' hmove key h
  cases doc with
  | obj entries =>
    cases level with
    | zero => cases h
    | succ level =>
      rcases entries with _ | ⟨⟨tag, value⟩, rest⟩
      · cases h
      · replace h : PublicKey.visitMap level ((tag, value) :: rest) = .ok key := h
        rw [PublicKey.visitMap] at h
        split_ifs at h with htag hrest
        · obtain ⟨bytes, hbytes, -⟩ := Outcome.bind_eq_ok_iff.mp h
          -- the key is alone, and its bytes do not move
          rw [List.isEmpty_iff.mp hrest, (readBytes_eq_ok_iff.mp hbytes).1] at hmove
          obtain ⟨value', -, hmoves⟩ := hmove.of_singleton
          exact absurd hmoves (not_moves_writeBytes bytes value')
        · obtain ⟨bytes, -, h⟩ := Outcome.bind_eq_ok_iff.mp h
          obtain ⟨publicKey, -, h⟩ := Outcome.bind_eq_ok_iff.mp h
          cases h
  | arr items => cases level <;> cases h
  | _ => exact absurd trivial hmove.not_isScalar

/-- All readers that are not derived. -/
theorem leavesHold_orderFree : LeavesHold Serde.orderFree validate codecs where
  string := orderFree_string
  bytes := orderFree_bytes
  u64 := U64.orderFree
  u128 := U128.orderFree
  accountId := AccountId.orderFree
  base64 := Base64VecU8.orderFree codecs
  blockHash := BlockHash.orderFree codecs
  publicKey := PublicKey.orderFree codecs
  signedDelegateActionWith := SignedDelegateAction.holdsWith (Signature.orderFree codecs)

/-- Texts whose documents differ in the order of the names are read as the same transaction,
if one of them is read. -/
theorem NearTransaction.fromJson_rearranged (parse : String → Option Json)
    {text text' : String} {doc doc' : Json} (hparse : parse text = some doc)
    (hparse' : parse text' = some doc') (hdoc : doc.Rearranged doc')
    (tx : NearTransaction validate) :
    NearTransaction.fromJson codecs parse text = .ok tx ↔
      NearTransaction.fromJson codecs parse text' = .ok tx := by
  have hread : OrderFree (@NearTransaction.fromDocument validate codecs recursionLimit) :=
    (leavesHold_orderFree codecs).nearTransaction recursionLimit
  rw [NearTransaction.fromJson, NearTransaction.fromJson, fromStr, fromStr, hparse, hparse']
  exact hread.eq_ok_iff hdoc

/-- A payment with its entries backwards. -/
theorem NearTransaction.fromJson_rearranged_payment :
    NearTransaction.fromJson sampleCodecs (parserOfBoth ((payment 5).toJson sampleCodecs))
      ((payment 5).toJson sampleCodecs).backwards.compact = .ok (payment 5) := by
  have hdoc : ((payment 5).toJson sampleCodecs).Rearranged
      ((payment 5).toJson sampleCodecs).backwards :=
    Json.rearranged_of_perm (List.reverse_perm _).symm (by decide)
  refine (NearTransaction.fromJson_rearranged sampleCodecs
    (parserOfBoth ((payment 5).toJson sampleCodecs)) (parserOfBoth_compact _)
    (parserOfBoth_backwards (by decide)) hdoc _).mp ?_
  rw [NearTransaction.fromJson, fromStr, parserOfBoth_compact]
  refine ((payment 5).roundTrips sampleCodecs recursionLimit).eq_ok_iff.mpr ⟨?_, by decide⟩
  show ∀ a ∈ [Action.CreateAccount ⟨⟩, .Transfer ⟨⟨5⟩⟩], a.AmountsFit
  rw [List.forall_mem_cons, List.forall_mem_singleton]
  exact ⟨trivial, by show (5 : UInt128).toNat < 2 ^ 64; decide⟩

end Near

/-! ## EVM -/

namespace Evm.EVMTransaction

variable {v v' : Json}

/-- The text under a name before and after a move. -/
theorem asStr_index_eq (h : v.Moves v') (key : String) :
    (v.index key).asStr = (v'.index key).asStr := by
  have hobj : ∀ {entries entries' : List (String × Json)},
      (Json.obj entries).Moves (.obj entries') →
        (Json.index key (.obj entries)).asStr = (Json.index key (.obj entries')).asStr := by
    intro entries entries' h
    have hlookup := valueMoves_of_moves h.reverse key
    rw [Json.index, Json.index]
    generalize entries.reverse.lookup key = o at hlookup
    generalize entries'.reverse.lookup key = o' at hlookup
    cases hlookup with
    | none => rfl
    | some hvalue =>
      cases hvalue with
      | refl => rfl
      | single hmove => cases hmove <;> rfl
  cases h with
  | swap hne => exact hobj (.swap hne)
  | entry hmove => exact hobj (.entry hmove)
  | item hmove => rfl

/-- The fields are looked up by their names. -/
theorem ofValue_eq (hex : Hex.Codec) (h : v.Moves v') : ofValue hex v = ofValue hex v' := by
  have hindex := asStr_index_eq h
  unfold ofValue
  simp only [hindex]

/-- Both documents have the same depth, and then the same fields. -/
theorem readValue_bind_eq (hex : Hex.Codec) (h : v.Rearranged v') :
    (readValue recursionLimit v >>= fun v => ofValue hex v) =
      (readValue recursionLimit v' >>= fun v => ofValue hex v) := by
  induction h with
  | refl => rfl
  | tail _ hmove ih =>
    rw [ih, readValue, readValue, hmove.depth_eq]
    split_ifs
    · exact ofValue_eq hex hmove
    · rfl

/-- Not even a panic depends on the order of the names. -/
theorem fromJson_eq_of_rearranged (hex : Hex.Codec) (parse : String → Option Json)
    {text text' : String} (hparse : parse text = some v) (hparse' : parse text' = some v')
    (h : v.Rearranged v') : fromJson hex parse text = fromJson hex parse text' := by
  rw [fromJson, fromJson, fromStr, fromStr, hparse, hparse']
  exact readValue_bind_eq hex h

/-- The document of the samples backwards. -/
theorem fromJson_eq_of_rearranged_sampleDocument :
    fromJson .lowercase (parserOfBoth sampleDocument) sampleDocument.backwards.compact =
      .ok sampleTransaction := by
  have hdoc : sampleDocument.Rearranged sampleDocument.backwards :=
    Json.rearranged_of_perm (List.reverse_perm _).symm (by decide)
  rw [← fromJson_eq_of_rearranged .lowercase (parserOfBoth sampleDocument) (parserOfBoth_compact _)
    (parserOfBoth_backwards (by decide)) hdoc]
  exact (fromJson_eq_ok_iff .lowercase (parserOfBoth_compact _)).mpr
    ⟨by decide, spells_sampleDocument.readFrom⟩

end Evm.EVMTransaction
