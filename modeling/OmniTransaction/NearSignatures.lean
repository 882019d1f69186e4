/-
# Signatures of NEAR from texts

`Deserialize for Signature` of `src/near/types/signature.rs` and the readers of
`src/near/utils/signature_utils.rs`, with any decoding of `base58`.  They accept the same
texts as the same signatures.  One of them slices the bytes before it looks at their
number, and panics if there are too few (`Signature.agree_iff`).
-/
import OmniTransaction.NearKeys

open ByteOrder Rust Serde

namespace Near

def ED25519_SIGNATURE_LENGTH : ℕ := COMPONENT_SIZE * 2

namespace Signature

variable (decode : String → Outcome String Bytes)

/-! ## The readers -/

/-- A component from a slice of the decoded bytes. -/
def component {ε : Type} (e : ε) (bytes : Bytes) (start stop : ℕ) :
    Outcome ε (FixedBytes COMPONENT_SIZE) := do
  let component ← slice bytes start stop
  match toArray COMPONENT_SIZE component with
  | some array => return array
  | none => .err e

/-- `Deserialize for Signature` at a text, with any decoding of `base58`. -/
def readText (s : String) : Outcome DeError Signature :=
  match splitOnce ':' s with
  | none => .err (.custom "Invalid signature format")
  | some (keyType, sigData) =>
    if keyType = "ed25519" then do
      let bytes ← (decode sigData).mapErr .custom
      let r ← component (.custom "could not convert slice to array") bytes 0 COMPONENT_SIZE
      let s ← component (.custom "could not convert slice to array") bytes COMPONENT_SIZE
        bytes.length
      return .ED25519 ⟨r, s⟩
    else if keyType = "secp256k1" then do
      let bytes ← (decode sigData).mapErr .custom
      match toArray SECP256K1_SIGNATURE_LENGTH bytes with
      | some array => return .SECP256K1 ⟨array⟩
      | none => .err (.custom "Invalid SECP256K1 signature length")
    else .err (.custom "Unknown key type")

/-- `Deserialize for Signature`. -/
def deserializeJson (level : ℕ) (doc : Json) : Outcome DeError Signature := do
  let s ← readString level doc
  readText decode s

/-- `SignatureStrExt::to_signature_as_bytes`. -/
def toSignatureAsBytes (s : String) : Outcome String Bytes :=
  bytesOfText decode ED25519_SIGNATURE_LENGTH SECP256K1_SIGNATURE_LENGTH s

/-- `SignatureStrExt::to_signature`. -/
def toSignature (s : String) : Outcome String Signature := do
  let bytes ← toSignatureAsBytes decode s
  if startsWith s "ed25519:" then do
    let r ← component "Invalid length for ED25519 signature" bytes 0 32
    let s ← component "Invalid length for ED25519 signature" bytes 32 bytes.length
    return .ED25519 ⟨r, s⟩
  else if startsWith s "secp256k1:" then
    match toArray SECP256K1_SIGNATURE_LENGTH bytes with
    | some array => return .SECP256K1 ⟨array⟩
    | none => .err "Invalid length for SECP256K1 signature"
  else .err "Unknown key type"

/-- `try_ed25519_into_bytes` and `try_secp256k1_into_bytes`: all of the bytes, if there are
`n` of them. -/
def tryIntoBytes (n : ℕ) (msg : String) (s : String) : Outcome String (FixedBytes n) := do
  let bytes ← toSignatureAsBytes decode s
  if bytes.length = n then
    match toArray n bytes with
    | some array => return array
    | none => .panic ("called `Result::unwrap()` on an `Err` value: " ++ debugBytes bytes)
  else .err msg

/-- `SignatureStrExt::try_ed25519_into_bytes`. -/
def tryEd25519IntoBytes (s : String) : Outcome String (FixedBytes ED25519_SIGNATURE_LENGTH) :=
  tryIntoBytes decode ED25519_SIGNATURE_LENGTH "Invalid length for ED25519 signature" s

/-- `SignatureStrExt::try_secp256k1_into_bytes`. -/
def trySecp256k1IntoBytes (s : String) :
    Outcome String (FixedBytes SECP256K1_SIGNATURE_LENGTH) :=
  tryIntoBytes decode SECP256K1_SIGNATURE_LENGTH "Invalid length for SECP256K1 signature" s

/-- `SignatureStrExt::to_ed25519_signature`. -/
def toEd25519Signature (s : String) : Outcome String ED25519Signature := do
  let bytes ← tryEd25519IntoBytes decode s
  let r ← component "Invalid length for r" bytes.toList 0 32
  let s ← component "Invalid length for s" bytes.toList 32 bytes.toList.length
  return ⟨r, s⟩

/-- `SignatureStrExt::to_secp256k1_signature`. -/
def toSecp256k1Signature (s : String) : Outcome String Secp256K1Signature := do
  let bytes ← trySecp256k1IntoBytes decode s
  return ⟨bytes⟩

/-- The reader of documents is this one at the decoding of the package. -/
theorem fromJson_eq_deserializeJson (codecs : TextCodecs) :
    fromJson codecs = deserializeJson codecs.bs58.decode := by
  funext level doc
  unfold fromJson deserializeJson
  refine bind_congr fun s => ?_
  unfold ofText readText
  rcases splitOnce ':' s with _ | ⟨keyType, sigData⟩
  · rfl
  · dsimp only
    by_cases hed : keyType = "ed25519"
    · rw [if_pos hed, if_pos hed]
      simp only [ED25519Signature.decode, bind_assoc, pure_bind]
      rfl
    · rw [if_neg hed, if_neg hed]
      by_cases hsecp : keyType = "secp256k1"
      · rw [if_pos hsecp, if_pos hsecp, Secp256K1Signature.decode, bind_assoc]
        refine bind_congr fun bytes => ?_
        rcases toArray SECP256K1_SIGNATURE_LENGTH bytes with _ | array
        · rfl
        · rfl
      · rw [if_neg hsecp, if_neg hsecp]

/-! ## What they accept -/

/-- The signature of a text: the type of its key and its bytes. -/
inductive TextOf : String → Signature → Prop where
  | ed25519 {data : String} {sig : ED25519Signature}
      (h : decode data = .ok (sig.r.toList ++ sig.s.toList)) :
      TextOf ("ed25519:" ++ data) (.ED25519 sig)
  | secp256k1 {data : String} {sig : Secp256K1Signature}
      (h : decode data = .ok sig.val.toList) :
      TextOf ("secp256k1:" ++ data) (.SECP256K1 sig)

section Component

variable {ε ε' : Type} {e : ε} {e' : ε'} {bytes : Bytes} {r s : FixedBytes COMPONENT_SIZE}

/-- A component is a slice of the right length. -/
theorem component_eq_ok_iff {start stop : ℕ} : component e bytes start stop = .ok r ↔
    (slice bytes start stop : Outcome ε Bytes) = .ok r.toList := by
  unfold component
  rw [Outcome.bind_eq_ok_iff]
  constructor
  · rintro ⟨b, hb, h⟩
    split at h
    · obtain rfl := Outcome.ok.inj h
      rw [hb, (toArray_eq_some_iff b _).mp (by assumption)]
    · cases h
  · intro h
    refine ⟨r.toList, h, ?_⟩
    rw [toArray_toList]
    rfl

/-- The two slices are the two components exactly when these are all of the bytes. -/
theorem components_eq_ok_iff :
    (component e bytes 0 COMPONENT_SIZE = .ok r ∧
      component e' bytes COMPONENT_SIZE bytes.length = .ok s) ↔
    bytes = r.toList ++ s.toList := by
  rw [component_eq_ok_iff, component_eq_ok_iff]
  constructor
  · rintro ⟨hr, hs⟩
    unfold slice at hr hs
    split_ifs at hr hs
    have hr' := Outcome.ok.inj hr
    have hs' := Outcome.ok.inj hs
    rw [List.drop_zero] at hr'
    rw [List.take_length] at hs'
    rw [← hr', ← hs', List.take_append_drop]
  · rintro rfl
    exact ⟨slice_left r.toList_length, slice_right r.toList_length⟩

/-- A slice panics outside of the bytes. -/
theorem component_ne_panic {start stop : ℕ} (hstart : start ≤ stop) (hstop : stop ≤ bytes.length)
    (msg : String) : component e bytes start stop ≠ .panic msg := by
  rw [component, slice_eq_ok hstart hstop, Outcome.ok_bind]
  split
  · exact Outcome.ok_ne_panic _ _
  · exact Outcome.err_ne_panic _ _

/-- The two slices do not panic as soon as the first one is in range. -/
theorem components_ne_panic {α : Type} {e' : ε} (hlen : COMPONENT_SIZE ≤ bytes.length)
    (f : FixedBytes COMPONENT_SIZE → FixedBytes COMPONENT_SIZE → α) (msg : String) :
    (do
      let r ← component e bytes 0 COMPONENT_SIZE
      let s ← component e' bytes COMPONENT_SIZE bytes.length
      return f r s) ≠ .panic msg := by
  refine Outcome.bind_ne_panic (component_ne_panic (Nat.zero_le _) hlen msg) fun r _ => ?_
  refine Outcome.bind_ne_panic (component_ne_panic hlen le_rfl msg) fun s _ => ?_
  exact Outcome.ok_ne_panic _ _

end Component

theorem length_components (sig : ED25519Signature) :
    (sig.r.toList ++ sig.s.toList).length = ED25519_SIGNATURE_LENGTH := by
  rw [List.length_append, sig.r.toList_length, sig.s.toList_length]
  rfl

variable {decode} {s : String} {sig : Signature}

/-- The reader of documents takes these texts. -/
theorem readText_eq_ok_iff : readText decode s = .ok sig ↔ TextOf decode s sig := by
  unfold readText
  constructor
  · intro h
    cases keyText s with
    | ed25519 data =>
        rw [splitOnce_ed25519] at h
        dsimp only at h
        rw [if_pos rfl] at h
        obtain ⟨b, hb, h⟩ := Outcome.bind_eq_ok_iff.mp h
        obtain ⟨r, hr, h⟩ := Outcome.bind_eq_ok_iff.mp h
        obtain ⟨s, hs, h⟩ := Outcome.bind_eq_ok_iff.mp h
        obtain rfl := Outcome.ok.inj h
        have hbytes := components_eq_ok_iff.mp ⟨hr, hs⟩
        exact .ed25519 (hbytes ▸ Outcome.mapErr_eq_ok_iff.mp hb)
    | secp256k1 data =>
        rw [splitOnce_secp256k1] at h
        dsimp only at h
        rw [if_neg (by decide), if_pos rfl] at h
        obtain ⟨b, hb, h⟩ := Outcome.bind_eq_ok_iff.mp h
        split at h
        · obtain rfl := Outcome.ok.inj h
          have hbytes := (toArray_eq_some_iff b _).mp (by assumption)
          exact .secp256k1 (hbytes ▸ Outcome.mapErr_eq_ok_iff.mp hb)
        · cases h
    | unknown hsplit hed hsecp =>
        rw [hsplit] at h
        dsimp only at h
        rw [if_neg hed, if_neg hsecp] at h
        cases h
    | noColon hsplit =>
        rw [hsplit] at h
        cases h
  · intro h
    cases h with
    | ed25519 h =>
        obtain ⟨hr, hs⟩ := components_eq_ok_iff.mpr (rfl : _ = _ ++ _)
        rw [splitOnce_ed25519]
        dsimp only
        rw [if_pos rfl, h, Outcome.mapErr, Outcome.ok_bind, hr, Outcome.ok_bind, hs]
        rfl
    | secp256k1 h =>
        rw [splitOnce_secp256k1]
        dsimp only
        rw [if_neg (by decide), if_pos rfl, h, Outcome.mapErr, Outcome.ok_bind, toArray_toList]
        rfl

/-- `to_signature` takes the same texts. -/
theorem toSignature_eq_ok_iff : toSignature decode s = .ok sig ↔ TextOf decode s sig := by
  unfold toSignature toSignatureAsBytes
  rw [Outcome.bind_eq_ok_iff]
  simp only [bytesOfText_eq_ok_iff]
  constructor
  · rintro ⟨b, ⟨data, hdecode, ⟨rfl, hlen⟩ | ⟨rfl, hlen⟩⟩, h⟩
    · rw [if_pos (startsWith_append _ _)] at h
      obtain ⟨r, hr, h⟩ := Outcome.bind_eq_ok_iff.mp h
      obtain ⟨s, hs, h⟩ := Outcome.bind_eq_ok_iff.mp h
      obtain rfl := Outcome.ok.inj h
      have hbytes := components_eq_ok_iff.mp ⟨hr, hs⟩
      exact .ed25519 (hbytes ▸ hdecode)
    · rw [not_startsWith_ed25519, if_neg Bool.false_ne_true, if_pos (startsWith_append _ _)] at h
      split at h
      · obtain rfl := Outcome.ok.inj h
        have hbytes := (toArray_eq_some_iff b _).mp (by assumption)
        exact .secp256k1 (hbytes ▸ hdecode)
      · cases h
  · intro h
    cases h with
    | @ed25519 data sig h =>
        have hlen := length_components sig
        obtain ⟨hr, hs⟩ := components_eq_ok_iff.mpr (rfl : sig.r.toList ++ sig.s.toList = _)
        refine ⟨_, ⟨data, h, .inl ⟨rfl, hlen⟩⟩, ?_⟩
        rw [if_pos (startsWith_append _ _)]
        exact Outcome.bind_eq_ok_iff.mpr ⟨_, hr, Outcome.bind_eq_ok_iff.mpr ⟨_, hs, rfl⟩⟩
    | @secp256k1 data sig h =>
        refine ⟨_, ⟨data, h, .inr ⟨rfl, sig.val.toList_length⟩⟩, ?_⟩
        rw [not_startsWith_ed25519, if_neg Bool.false_ne_true, if_pos (startsWith_append _ _),
          toArray_toList]
        rfl

/-- The bytes are those of the text, in the length of one curve. -/
theorem tryIntoBytes_eq_ok_iff {n : ℕ} {msg : String} {array : FixedBytes n} :
    tryIntoBytes decode n msg s = .ok array ↔ toSignatureAsBytes decode s = .ok array.toList := by
  unfold tryIntoBytes
  rw [Outcome.bind_eq_ok_iff]
  constructor
  · rintro ⟨b, hb, h⟩
    split_ifs at h
    split at h
    · obtain rfl := Outcome.ok.inj h
      rw [hb, (toArray_eq_some_iff b _).mp (by assumption)]
    · cases h
  · intro h
    refine ⟨array.toList, h, ?_⟩
    rw [if_pos array.toList_length, toArray_toList]
    rfl

/-- The typed readers accept the signatures of their type. -/
theorem toEd25519Signature_eq_ok_iff {sig : ED25519Signature} :
    toEd25519Signature decode s = .ok sig ↔ TextOf decode s (.ED25519 sig) := by
  unfold toEd25519Signature tryEd25519IntoBytes
  simp only [Outcome.bind_eq_ok_iff, tryIntoBytes_eq_ok_iff, toSignatureAsBytes,
    bytesOfText_eq_ok_iff]
  constructor
  · rintro ⟨array, ⟨data, hdecode, ⟨rfl, hlen⟩ | ⟨rfl, hlen⟩⟩, r, hr, s, hs, h⟩
    · obtain rfl := Outcome.ok.inj h
      have hbytes := components_eq_ok_iff.mp ⟨hr, hs⟩
      exact .ed25519 (hbytes ▸ hdecode)
    · rw [array.toList_length] at hlen
      exact absurd hlen (by decide)
  · intro h
    cases h with
    | @ed25519 data sig h =>
        have hlen := length_components sig
        obtain ⟨hr, hs⟩ := components_eq_ok_iff.mpr (rfl : sig.r.toList ++ sig.s.toList = _)
        exact ⟨⟨_, hlen⟩, ⟨data, h, .inl ⟨rfl, hlen⟩⟩, _, hr, _, hs, rfl⟩

/-- The reader for one curve takes the texts of this curve. -/
theorem toSecp256k1Signature_eq_ok_iff {sig : Secp256K1Signature} :
    toSecp256k1Signature decode s = .ok sig ↔ TextOf decode s (.SECP256K1 sig) := by
  unfold toSecp256k1Signature trySecp256k1IntoBytes
  simp only [Outcome.bind_eq_ok_iff, tryIntoBytes_eq_ok_iff, toSignatureAsBytes,
    bytesOfText_eq_ok_iff]
  constructor
  · rintro ⟨array, ⟨data, hdecode, ⟨rfl, hlen⟩ | ⟨rfl, hlen⟩⟩, h⟩
    · rw [array.toList_length] at hlen
      exact absurd hlen (by decide)
    · obtain rfl := Outcome.ok.inj h
      exact .secp256k1 hdecode
  · intro h
    cases h with
    | @secp256k1 data sig h =>
        exact ⟨sig.val, ⟨data, h, .inr ⟨rfl, sig.val.toList_length⟩⟩, rfl⟩

/-! ## Where they panic -/

section Panics

variable (hdecode : ∀ data msg, decode data ≠ .panic msg) (msg : String)

include hdecode

/-- Fewer bytes than a component are an error here. -/
theorem toSignature_ne_panic : toSignature decode s ≠ .panic msg := by
  unfold toSignature toSignatureAsBytes
  refine Outcome.bind_ne_panic (bytesOfText_ne_panic hdecode msg) fun b hb => ?_
  split_ifs with hed hsecp
  · -- there are enough bytes for both slices
    have hlen : 32 ≤ b.length := by
      obtain ⟨data, -, ⟨-, hlen⟩ | ⟨-, hlen⟩⟩ := bytesOfText_eq_ok_iff.mp hb
      · rw [hlen]
        decide
      · rw [hlen]
        decide
    exact components_ne_panic hlen _ msg
  · split
    · exact Outcome.ok_ne_panic _ _
    · exact Outcome.err_ne_panic _ _
  · exact Outcome.err_ne_panic _ _

theorem tryIntoBytes_ne_panic {n : ℕ} {err : String} :
    tryIntoBytes decode n err s ≠ .panic msg := by
  unfold tryIntoBytes toSignatureAsBytes
  refine Outcome.bind_ne_panic (bytesOfText_ne_panic hdecode msg) fun b hb => ?_
  split_ifs with hlen
  · rw [toArray, dif_pos hlen]
    exact Outcome.ok_ne_panic _ _
  · exact Outcome.err_ne_panic _ _

theorem toEd25519Signature_ne_panic : toEd25519Signature decode s ≠ .panic msg := by
  unfold toEd25519Signature
  refine Outcome.bind_ne_panic (tryIntoBytes_ne_panic hdecode msg) fun array _ => ?_
  have hlen : 32 ≤ array.toList.length := by
    rw [array.toList_length]
    decide
  exact components_ne_panic hlen _ msg

theorem toSecp256k1Signature_ne_panic : toSecp256k1Signature decode s ≠ .panic msg := by
  unfold toSecp256k1Signature
  refine Outcome.bind_ne_panic (tryIntoBytes_ne_panic hdecode msg) fun array _ => ?_
  exact Outcome.ok_ne_panic _ _

end Panics

/-- The text of a key type with fewer bytes than one component behind it. -/
def Short (decode : String → Outcome String Bytes) (s : String) : Prop :=
  ∃ data b, s = "ed25519:" ++ data ∧ decode data = .ok b ∧ b.length < COMPONENT_SIZE

/-- The slice of the first component panics. -/
theorem readText_of_short (h : Short decode s) :
    ∃ len, readText decode s = .panic (sliceEndMessage COMPONENT_SIZE len) := by
  obtain ⟨data, b, rfl, hdecode, hlen⟩ := h
  refine ⟨b.length, ?_⟩
  have hslice : (slice b 0 COMPONENT_SIZE : Outcome DeError Bytes) =
      .panic (sliceEndMessage COMPONENT_SIZE b.length) := by
    rw [slice, if_neg (Nat.not_lt_zero _), if_pos hlen]
  rw [readText, splitOnce_ed25519]
  dsimp only
  rw [if_pos rfl, hdecode, Outcome.mapErr, Outcome.ok_bind, component, hslice]
  rfl

/-- Nothing else in this reader panics. -/
theorem readText_ne_panic (hdecode : ∀ data msg, decode data ≠ .panic msg)
    (hshort : ¬ Short decode s) (msg : String) : readText decode s ≠ .panic msg := by
  unfold readText
  cases keyText s with
  | ed25519 data =>
      rw [splitOnce_ed25519]
      dsimp only
      rw [if_pos rfl]
      refine Outcome.bind_ne_panic (Outcome.mapErr_ne_panic (hdecode data msg)) fun b hb => ?_
      have hlen : COMPONENT_SIZE ≤ b.length := by
        by_contra hlt
        exact hshort ⟨data, b, rfl, Outcome.mapErr_eq_ok_iff.mp hb, not_le.mp hlt⟩
      exact components_ne_panic hlen _ msg
  | secp256k1 data =>
      rw [splitOnce_secp256k1]
      dsimp only
      rw [if_neg (by decide), if_pos rfl]
      refine Outcome.bind_ne_panic (Outcome.mapErr_ne_panic (hdecode data msg)) fun b _ => ?_
      split
      · exact Outcome.ok_ne_panic _ _
      · exact Outcome.err_ne_panic _ _
  | unknown hsplit hed hsecp =>
      rw [hsplit]
      dsimp only
      rw [if_neg hed, if_neg hsecp]
      exact Outcome.err_ne_panic _ _
  | noColon hsplit =>
      rw [hsplit]
      exact Outcome.err_ne_panic _ _

/-! ## All readers -/

/-- A partial function as the decoding of `base58`. -/
def ofPartial (base58 : String → Except String Bytes) (data : String) : Outcome String Bytes :=
  match base58 data with
  | .ok b => .ok b
  | .error e => .err e

/-- A codec that is given by a table returns. -/
theorem ofPartial_ne_panic (base58 : String → Except String Bytes) (data msg : String) :
    ofPartial base58 data ≠ .panic msg := by
  unfold ofPartial
  split
  · exact Outcome.ok_ne_panic _ _
  · exact Outcome.err_ne_panic _ _

/-- All readers of a signature agree on the text, and none of them panics. -/
structure Agree (decode : String → Outcome String Bytes) (s : String) : Prop where
  deserializeJson_ne_panic : ∀ level msg, deserializeJson decode level (.str s) ≠ .panic msg
  toSignature_ne_panic : ∀ msg, toSignature decode s ≠ .panic msg
  toEd25519Signature_ne_panic : ∀ msg, toEd25519Signature decode s ≠ .panic msg
  toSecp256k1Signature_ne_panic : ∀ msg, toSecp256k1Signature decode s ≠ .panic msg
  deserializeJson : ∀ level x, deserializeJson decode level (.str s) = .ok x ↔
    toSignature decode s = .ok x
  toEd25519Signature : ∀ e, toEd25519Signature decode s = .ok e ↔
    toSignature decode s = .ok (.ED25519 e)
  toSecp256k1Signature : ∀ k, toSecp256k1Signature decode s = .ok k ↔
    toSignature decode s = .ok (.SECP256K1 k)

/-- The readers agree, whatever `base58` is, on all texts but the short ones. -/
theorem agree_iff (base58 : String → Except String Bytes) (s : String) :
    Agree (ofPartial base58) s ↔ ¬ Short (ofPartial base58) s := by
  have hdecode := ofPartial_ne_panic base58
  constructor
  · intro h hshort
    obtain ⟨len, hpanic⟩ := readText_of_short hshort
    exact h.deserializeJson_ne_panic 0 _ hpanic
  · intro hshort
    exact
      { deserializeJson_ne_panic := fun _ => readText_ne_panic hdecode hshort
        toSignature_ne_panic := Signature.toSignature_ne_panic hdecode
        toEd25519Signature_ne_panic := Signature.toEd25519Signature_ne_panic hdecode
        toSecp256k1Signature_ne_panic := Signature.toSecp256k1Signature_ne_panic hdecode
        deserializeJson := fun _ _ => readText_eq_ok_iff.trans toSignature_eq_ok_iff.symm
        toEd25519Signature := fun _ =>
          toEd25519Signature_eq_ok_iff.trans toSignature_eq_ok_iff.symm
        toSecp256k1Signature := fun _ =>
          toSecp256k1Signature_eq_ok_iff.trans toSignature_eq_ok_iff.symm }

/-- No digits stand for no bytes; this is all of `base58` that the text `ed25519:` needs. -/
def emptyOnly (data : String) : Except String Bytes :=
  if data = "" then .ok [] else .error "provided string contained invalid character"

/-- On a text without digits one reader panics where the other returns an error. -/
theorem not_agree_without_digits :
    deserializeJson (ofPartial emptyOnly) recursionLimit (.str "ed25519:") =
        .panic "range end index 32 out of range for slice of length 0" ∧
      toSignature (ofPartial emptyOnly) "ed25519:" =
        .err "ED25519 public key should be 32 bytes long" ∧
      ¬ Agree (ofPartial emptyOnly) "ed25519:" := by
  have hread : deserializeJson (ofPartial emptyOnly) recursionLimit (.str "ed25519:") =
      .panic "range end index 32 out of range for slice of length 0" := rfl
  exact ⟨hread, rfl, fun h => h.deserializeJson_ne_panic _ _ hread⟩

end Signature

end Near
