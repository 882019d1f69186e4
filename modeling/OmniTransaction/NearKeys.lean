/-
# Public keys of NEAR by their type

A public key stands behind the type of its key: as the name of a variant in an object, or
as the first part of a text.  The object is read by the length of its bytes alone, so the
type it names does not always decide (`PublicKey.names_iff`).
-/
import OmniTransaction.NearDocuments
import OmniTransaction.Numerals

open ByteOrder Rust Serde

namespace Near

/-! ## Texts with a key type -/

/-- The name of the curve stands in front of the first colon. -/
theorem splitOnce_ed25519 (data : String) :
    splitOnce ':' ("ed25519:" ++ data) = some ("ed25519", data) :=
  splitOnce_append (by decide) (by decide) data

theorem splitOnce_secp256k1 (data : String) :
    splitOnce ':' ("secp256k1:" ++ data) = some ("secp256k1", data) :=
  splitOnce_append (by decide) (by decide) data

/-- A text starts with its own beginning. -/
theorem startsWith_append (p t : String) : startsWith (p ++ t) p = true :=
  startsWith_iff.mpr ⟨t, rfl⟩

/-- The two prefixes exclude each other. -/
theorem not_startsWith_ed25519 (data : String) :
    startsWith ("secp256k1:" ++ data) "ed25519:" = false := by
  unfold startsWith
  rw [String.toList_append]
  rfl

/-- A text by the type of the key that stands in front of its colon. -/
inductive KeyText : String → Prop where
  | ed25519 (data : String) : KeyText ("ed25519:" ++ data)
  | secp256k1 (data : String) : KeyText ("secp256k1:" ++ data)
  | unknown {s keyType data : String} (hsplit : splitOnce ':' s = some (keyType, data))
      (hed : keyType ≠ "ed25519") (hsecp : keyType ≠ "secp256k1") : KeyText s
  | noColon {s : String} (hsplit : splitOnce ':' s = none) : KeyText s

/-- Every text has one of the forms. -/
theorem keyText (s : String) : KeyText s := by
  rcases hsplit : splitOnce ':' s with _ | ⟨keyType, data⟩
  · exact .noColon hsplit
  · by_cases hed : keyType = "ed25519"
    · obtain ⟨-, rfl⟩ := splitOnce_eq_some_iff.mp hsplit
      subst hed
      exact .ed25519 data
    · by_cases hsecp : keyType = "secp256k1"
      · obtain ⟨-, rfl⟩ := splitOnce_eq_some_iff.mp hsplit
        subst hsecp
        exact .secp256k1 data
      · exact .unknown hsplit hed hsecp

section BytesOfText

variable {decode : String → Outcome String Bytes} {edLength secpLength : ℕ} {s : String}

/-- The bytes behind the type of a key, if there are as many as this type has.  The readers
of keys and of signatures differ in these lengths only. -/
def bytesOfText (decode : String → Outcome String Bytes) (edLength secpLength : ℕ) (s : String) :
    Outcome String Bytes :=
  match splitOnce ':' s with
  | none => .err "Invalid key format"
  | some (keyType, keyData) => do
    let bytes ← (decode keyData).mapErr fun e => s!"Failed to decode base58: {e}"
    if keyType = "ed25519" then
      if bytes.length = edLength then return bytes
      else .err "ED25519 public key should be 32 bytes long"
    else if keyType = "secp256k1" then
      if bytes.length = secpLength then return bytes
      else .err "SECP256K1 public key should be 64 bytes long"
    else .err "Unknown key type"

/-- A text is read when it names a curve and has its length. -/
theorem bytesOfText_eq_ok_iff {b : Bytes} :
    bytesOfText decode edLength secpLength s = .ok b ↔ ∃ data, decode data = .ok b ∧
      (s = "ed25519:" ++ data ∧ b.length = edLength ∨
        s = "secp256k1:" ++ data ∧ b.length = secpLength) := by
  unfold bytesOfText
  constructor
  · intro h
    cases keyText s with
    | ed25519 data =>
        rw [splitOnce_ed25519] at h
        obtain ⟨b', hdecode, h⟩ := Outcome.bind_eq_ok_iff.mp h
        rw [if_pos rfl] at h
        split_ifs at h with hlen
        obtain rfl := Outcome.ok.inj h
        exact ⟨data, Outcome.mapErr_eq_ok_iff.mp hdecode, .inl ⟨rfl, hlen⟩⟩
    | secp256k1 data =>
        rw [splitOnce_secp256k1] at h
        obtain ⟨b', hdecode, h⟩ := Outcome.bind_eq_ok_iff.mp h
        rw [if_neg (by decide), if_pos rfl] at h
        split_ifs at h with hlen
        obtain rfl := Outcome.ok.inj h
        exact ⟨data, Outcome.mapErr_eq_ok_iff.mp hdecode, .inr ⟨rfl, hlen⟩⟩
    | unknown hsplit hed hsecp =>
        rw [hsplit] at h
        obtain ⟨b', -, h⟩ := Outcome.bind_eq_ok_iff.mp h
        rw [if_neg hed, if_neg hsecp] at h
        cases h
    | noColon hsplit =>
        rw [hsplit] at h
        cases h
  · rintro ⟨data, hdecode, ⟨rfl, hlen⟩ | ⟨rfl, hlen⟩⟩
    · rw [splitOnce_ed25519]
      dsimp only
      rw [hdecode, Outcome.mapErr, Outcome.ok_bind, if_pos rfl, if_pos hlen]
      rfl
    · rw [splitOnce_secp256k1]
      dsimp only
      rw [hdecode, Outcome.mapErr, Outcome.ok_bind, if_neg (by decide), if_pos rfl, if_pos hlen]
      rfl

/-- Every other text is an error. -/
theorem bytesOfText_ne_panic (hdecode : ∀ data msg, decode data ≠ .panic msg) (msg : String) :
    bytesOfText decode edLength secpLength s ≠ .panic msg := by
  unfold bytesOfText
  split
  · exact Outcome.err_ne_panic _ _
  · rename_i keyType keyData _
    refine Outcome.bind_ne_panic (Outcome.mapErr_ne_panic (hdecode keyData msg)) fun b _ => ?_
    split_ifs
    · exact Outcome.ok_ne_panic _ _
    · exact Outcome.err_ne_panic _ _
    · exact Outcome.ok_ne_panic _ _
    · exact Outcome.err_ne_panic _ _
    · exact Outcome.err_ne_panic _ _

end BytesOfText

/-! ## Public keys -/

namespace PublicKey

variable (codecs : TextCodecs) {s : String} {key : PublicKey}

/-- A key that a document names: the name of its type with the bytes, as many as the type
has. -/
inductive Names : Json → PublicKey → Prop where
  | ed25519 (key : ED25519PublicKey) :
      Names (.obj [("ED25519", writeBytes key.val.toList)]) (.ED25519 key)
  | secp256k1 (key : Secp256K1PublicKey) :
      Names (.obj [("SECP256K1", writeBytes key.val.toList)]) (.SECP256K1 key)
  | ed25519Text {data : String} {key : ED25519PublicKey}
      (h : codecs.bs58.decode data = .ok key.val.toList) :
      Names (.str ("ed25519:" ++ data)) (.ED25519 key)
  | secp256k1Text {data : String} {key : Secp256K1PublicKey}
      (h : codecs.bs58.decode data = .ok key.val.toList) :
      Names (.str ("secp256k1:" ++ data)) (.SECP256K1 key)

/-- An object whose bytes are as many as the other type of keys has. -/
def Mismatched (doc : Json) : Prop :=
  ∃ b : Bytes, doc = .obj [("ED25519", writeBytes b)] ∧ b.length = SECP256K1_PUBLIC_KEY_LENGTH ∨
    doc = .obj [("SECP256K1", writeBytes b)] ∧ b.length = ED25519_PUBLIC_KEY_LENGTH

/-- The key that is made of these bytes. -/
inductive Crossed : Json → PublicKey → Prop where
  | ed25519 (key : Secp256K1PublicKey) :
      Crossed (.obj [("ED25519", writeBytes key.val.toList)]) (.SECP256K1 key)
  | secp256k1 (key : ED25519PublicKey) :
      Crossed (.obj [("SECP256K1", writeBytes key.val.toList)]) (.ED25519 key)

/-- The entry under one name has the length of the other curve. -/
theorem exists_crossed_iff {doc : Json} : (∃ key, Crossed doc key) ↔ Mismatched doc := by
  constructor
  · rintro ⟨_, key | key⟩
    · exact ⟨key.val.toList, .inl ⟨rfl, key.val.toList_length⟩⟩
    · exact ⟨key.val.toList, .inr ⟨rfl, key.val.toList_length⟩⟩
  · rintro ⟨b, ⟨rfl, hlen⟩ | ⟨rfl, hlen⟩⟩
    · exact ⟨_, .ed25519 ⟨⟨b, hlen⟩⟩⟩
    · exact ⟨_, .secp256k1 ⟨⟨b, hlen⟩⟩⟩

/-- The length decides which key it is. -/
theorem tryFrom_eq_ok_iff {value : Bytes} : tryFrom value = .ok key ↔ key.bytes = value := by
  constructor
  · intro h
    unfold tryFrom at h
    split at h
    · obtain rfl := Outcome.ok.inj h
      exact (toArray_eq_some_iff value _).mp (by assumption)
    · obtain rfl := Outcome.ok.inj h
      exact (toArray_eq_some_iff value _).mp (by assumption)
    · cases h
  · rintro rfl
    exact tryFrom_bytes key

/-- An object is read from its one entry, whichever of the two names it has. -/
theorem visitMap_eq_ok_iff {level : ℕ} {entries : List (String × Json)} :
    visitMap level entries = .ok key ↔ 0 < level ∧
      (entries = [("ED25519", writeBytes key.bytes)] ∨
        entries = [("SECP256K1", writeBytes key.bytes)]) := by
  constructor
  · intro h
    unfold visitMap at h
    split at h
    · cases h
    · rename_i tag value rest
      split_ifs at h with htag hrest
      · obtain ⟨b, hb, h⟩ := Outcome.bind_eq_ok_iff.mp h
        obtain ⟨key', hkey, h⟩ := Outcome.bind_eq_ok_iff.mp h
        obtain rfl := Outcome.ok.inj h
        obtain ⟨rfl, hlevel⟩ := readBytes_eq_ok_iff.mp hb
        obtain rfl := tryFrom_eq_ok_iff.mp (Outcome.mapErr_eq_ok_iff.mp hkey)
        obtain rfl := List.isEmpty_iff.mp hrest
        rcases htag with rfl | rfl
        · exact ⟨hlevel, .inl rfl⟩
        · exact ⟨hlevel, .inr rfl⟩
      · obtain ⟨b, hb, h⟩ := Outcome.bind_eq_ok_iff.mp h
        obtain ⟨key', hkey, h⟩ := Outcome.bind_eq_ok_iff.mp h
        cases h
  · rintro ⟨hlevel, h⟩
    have hbytes : readBytes level (writeBytes key.bytes) = .ok key.bytes :=
      readBytes_eq_ok_iff.mpr ⟨rfl, hlevel⟩
    rcases h with rfl | rfl
    · rw [visitMap, if_pos (.inl rfl), hbytes, Outcome.ok_bind, tryFrom_bytes]
      rfl
    · rw [visitMap, if_pos (.inr rfl), hbytes, Outcome.ok_bind, tryFrom_bytes]
      rfl

theorem toPublicKeyAsBytes_eq :
    toPublicKeyAsBytes codecs s = bytesOfText codecs.bs58.decode 32 64 s := rfl

/-- A text is read from the bytes behind its prefix. -/
theorem toPublicKey_eq_ok_iff : toPublicKey codecs s = .ok key ↔ Names codecs (.str s) key := by
  unfold toPublicKey
  rw [Outcome.bind_eq_ok_iff]
  simp only [toPublicKeyAsBytes_eq, bytesOfText_eq_ok_iff]
  constructor
  · rintro ⟨b, ⟨data, hdecode, ⟨rfl, hlen⟩ | ⟨rfl, hlen⟩⟩, h⟩
    · rw [if_pos (startsWith_append _ _)] at h
      split at h
      · obtain rfl := Outcome.ok.inj h
        refine .ed25519Text ?_
        rw [hdecode, (toArray_eq_some_iff b _).mp (by assumption)]
      · cases h
    · rw [not_startsWith_ed25519, if_neg Bool.false_ne_true, if_pos (startsWith_append _ _)] at h
      split at h
      · obtain rfl := Outcome.ok.inj h
        refine .secp256k1Text ?_
        rw [hdecode, (toArray_eq_some_iff b _).mp (by assumption)]
      · cases h
  · intro h
    cases h with
    | @ed25519Text data key h =>
        refine ⟨key.val.toList, ⟨data, h, .inl ⟨rfl, key.val.toList_length⟩⟩, ?_⟩
        rw [if_pos (startsWith_append _ _), toArray_toList]
        rfl
    | @secp256k1Text data key h =>
        refine ⟨key.val.toList, ⟨data, h, .inr ⟨rfl, key.val.toList_length⟩⟩, ?_⟩
        rw [not_startsWith_ed25519, if_neg Bool.false_ne_true, if_pos (startsWith_append _ _),
          toArray_toList]
        rfl

/-- What is accepted: the keys that a document names, and the crossed ones. -/
theorem fromJson_eq_ok_iff {level : ℕ} {doc : Json} (hdepth : doc.depth ≤ level) :
    fromJson codecs level doc = .ok key ↔ Names codecs doc key ∨ Crossed doc key := by
  constructor
  · intro h
    unfold fromJson at h
    split at h
    · have hkey := (toPublicKey_eq_ok_iff codecs).mp (Outcome.mapErr_eq_ok_iff.mp h)
      exact .inl hkey
    · obtain ⟨-, rfl | rfl⟩ := visitMap_eq_ok_iff.mp h
      · cases key with
        | ED25519 key => exact .inl (.ed25519 key)
        | SECP256K1 key => exact .inr (.ed25519 key)
      · cases key with
        | ED25519 key => exact .inr (.secp256k1 key)
        | SECP256K1 key => exact .inl (.secp256k1 key)
    · unfold unexpected at h
      split at h
      · cases h
      · cases h
      · cases h
  · have hobj (tag : String) (key : PublicKey)
        (hdepth : (Json.obj [(tag, writeBytes key.bytes)]).depth ≤ level)
        (htag : tag = "ED25519" ∨ tag = "SECP256K1") :
        fromJson codecs level (.obj [(tag, writeBytes key.bytes)]) = .ok key :=
      ((roundTrips_obj codecs htag (tryFrom_bytes key)) level).eq_ok_iff.mpr ⟨trivial, hdepth⟩
    have htext (s : String) (h : Names codecs (.str s) key) :
        fromJson codecs level (.str s) = .ok key :=
      Outcome.mapErr_eq_ok_iff.mpr ((toPublicKey_eq_ok_iff codecs).mpr h)
    rintro (h | h)
    · cases h with
      | ed25519 key => exact hobj _ (.ED25519 key) hdepth (.inl rfl)
      | secp256k1 key => exact hobj _ (.SECP256K1 key) hdepth (.inr rfl)
      | ed25519Text h => exact htext _ (.ed25519Text h)
      | secp256k1Text h => exact htext _ (.secp256k1Text h)
    · cases h with
      | ed25519 key => exact hobj _ (.SECP256K1 key) hdepth (.inl rfl)
      | secp256k1 key => exact hobj _ (.ED25519 key) hdepth (.inr rfl)

/-- An object with one entry that names a key is the one that is written for it. -/
theorem Names.eq_toJson {entries : List (String × Json)} (h : Names codecs (.obj entries) key) :
    .obj entries = key.toJson := by
  generalize hdoc : Json.obj entries = doc at h
  cases h with
  | ed25519 key => rfl
  | secp256k1 key => rfl
  | ed25519Text h => cases hdoc
  | secp256k1Text h => cases hdoc

/-- A crossed key is not the one that the document names. -/
theorem not_names_of_crossed {doc : Json} (h : Crossed doc key) : ¬ Names codecs doc key := by
  intro hnames
  cases h with
  | ed25519 key =>
      have hdoc := hnames.eq_toJson
      simp [toJson] at hdoc
  | secp256k1 key =>
      have hdoc := hnames.eq_toJson
      simp [toJson] at hdoc

/-- Exactly the named keys are accepted, unless the document is mismatched.  What is written
is read back. -/
theorem names_iff (codecs : TextCodecs) :
    (∀ level doc, doc.depth ≤ level →
      ((∀ key, fromJson codecs level doc = .ok key ↔ Names codecs doc key) ↔
        ¬ Mismatched doc)) ∧
    ∀ level (key : PublicKey), key.toJson.depth ≤ level →
      fromJson codecs level key.toJson = .ok key := by
  constructor
  · intro level doc hdepth
    rw [← exists_crossed_iff]
    constructor
    · rintro h ⟨key, hcrossed⟩
      have hnames := (h key).mp ((fromJson_eq_ok_iff codecs hdepth).mpr (.inr hcrossed))
      exact not_names_of_crossed codecs hcrossed hnames
    · intro h key
      rw [fromJson_eq_ok_iff codecs hdepth]
      exact or_iff_left fun hcrossed => h ⟨key, hcrossed⟩
  · intro level key hdepth
    exact ((roundTrips codecs key) level).eq_ok_iff.mpr ⟨trivial, hdepth⟩

/-- Under the name `ED25519` stand the 64 bytes of a key of the other type. -/
def mismatchedDocument : Json := .obj [("ED25519", writeBytes (List.replicate 64 9))]

/-- It is accepted as that key. -/
theorem not_names_mismatchedDocument :
    fromJson sampleCodecs recursionLimit mismatchedDocument
        = .ok (.SECP256K1 ⟨List.Vector.replicate 64 9⟩) ∧
      ¬ ∀ key, fromJson sampleCodecs recursionLimit mismatchedDocument = .ok key ↔
        Names sampleCodecs mismatchedDocument key := by
  have hcrossed : Crossed mismatchedDocument (.SECP256K1 ⟨List.Vector.replicate 64 9⟩) :=
    .ed25519 ⟨List.Vector.replicate 64 9⟩
  have hdepth : mismatchedDocument.depth ≤ recursionLimit := by
    rw [mismatchedDocument, Json.depth_obj_cons_le_iff, Json.depth_obj_nil_le_iff]
    exact ⟨(depth_writeBytes_le_iff.mpr Nat.one_pos).trans_lt (by decide), by decide⟩
  have hread : fromJson sampleCodecs recursionLimit mismatchedDocument =
      .ok (.SECP256K1 ⟨List.Vector.replicate 64 9⟩) :=
    (fromJson_eq_ok_iff sampleCodecs hdepth).mpr (.inr hcrossed)
  exact ⟨hread, fun h => not_names_of_crossed sampleCodecs hcrossed ((h _).mp hread)⟩

end PublicKey

end Near
