/-
# Keys and block hashes of NEAR from texts

The readers of `src/near/utils/public_key_utils.rs`, beside the ones that JSON documents go
through.  They split a text in three ways (at the first colon, behind a prefix, not at all)
and check the number of bytes in three places; still every reader that takes a text takes it
for the same key, and none of them panics as long as the decoding of `base58` does not
(`PublicKeyStrExt.readersAgree_of_decode`).
-/
import OmniTransaction.NearKeys

open ByteOrder Rust Serde

namespace Near

namespace PublicKeyStrExt

variable (codecs : TextCodecs)

/-! ## The readers -/

/-- `bs58::decode(..).into_vec()` with the text of its error. -/
def decodeBase58 (input : String) : Outcome String Bytes :=
  (codecs.bs58.decode input).mapErr fun e => s!"Failed to decode base58: {e}"

/-- `try_into` with the text of its error. -/
def toFixed (n : ℕ) (msg : String) (bytes : Bytes) : Outcome String (FixedBytes n) :=
  match toArray n bytes with
  | some array => .ok array
  | none => .err msg

/-- `decode_base58_to_fixed_bytes`. -/
def decodeBase58ToFixedBytes (n : ℕ) (input : String) : Outcome String (FixedBytes n) := do
  let bytes ← decodeBase58 codecs input
  toFixed n s!"Expected {n} bytes" bytes

/-- `to_fixed_64_bytes`. -/
def toFixed64Bytes (s : String) : Outcome String (FixedBytes 64) :=
  decodeBase58ToFixedBytes codecs 64 s

/-- `to_fixed_32_bytes`. -/
def toFixed32Bytes (s : String) : Outcome String (FixedBytes 32) :=
  decodeBase58ToFixedBytes codecs 32 s

/-- `to_block_hash`. -/
def toBlockHash (s : String) : Outcome String BlockHash := do
  let array ← decodeBase58ToFixedBytes codecs 32 s
  return ⟨array⟩

/-- The bytes behind a prefix, if there are `n` of them. -/
def tryIntoBytes (pre : String) (n : ℕ) (formatMsg lengthMsg : String) (s : String) :
    Outcome String (FixedBytes n) :=
  match stripPrefix s pre with
  | none => .err formatMsg
  | some rest => do
    let bytes ← decodeBase58 codecs rest
    toFixed n lengthMsg bytes

/-- `try_ed25519_into_bytes`. -/
def tryEd25519IntoBytes (s : String) : Outcome String (FixedBytes ED25519_PUBLIC_KEY_LENGTH) :=
  tryIntoBytes codecs "ed25519:" ED25519_PUBLIC_KEY_LENGTH "Invalid ED25519 key format"
    "Public key should be 32 bytes" s

/-- `try_secp256k1_into_bytes`. -/
def trySecp256k1IntoBytes (s : String) :
    Outcome String (FixedBytes SECP256K1_PUBLIC_KEY_LENGTH) :=
  tryIntoBytes codecs "secp256k1:" SECP256K1_PUBLIC_KEY_LENGTH "Invalid SECP256K1 key format"
    "Public key should be 64 bytes" s

/-! ## What they accept -/

section Accepts

variable {codecs} {s pre msg formatMsg lengthMsg : String} {n : ℕ} {array : FixedBytes n}

/-- The error gets another text, the result is the codec's. -/
theorem decodeBase58_eq_ok_iff {b : Bytes} :
    decodeBase58 codecs s = .ok b ↔ codecs.bs58.decode s = .ok b := Outcome.mapErr_eq_ok_iff

/-- Bytes become an array of their own length only. -/
theorem toFixed_eq_ok_iff {b : Bytes} : toFixed n msg b = .ok array ↔ array.toList = b := by
  unfold toFixed
  rw [← toArray_eq_some_iff]
  cases toArray n b <;> simp

/-- A text is read when it is decoded to exactly `n` bytes. -/
theorem decodeBase58ToFixedBytes_eq_ok_iff :
    decodeBase58ToFixedBytes codecs n s = .ok array ↔
      codecs.bs58.decode s = .ok array.toList := by
  simp [decodeBase58ToFixedBytes, Outcome.bind_eq_ok_iff, decodeBase58_eq_ok_iff,
    toFixed_eq_ok_iff]

/-- The typed readers take what stands behind their prefix. -/
theorem tryIntoBytes_eq_ok_iff : tryIntoBytes codecs pre n formatMsg lengthMsg s = .ok array ↔
    ∃ data, s = pre ++ data ∧ codecs.bs58.decode data = .ok array.toList := by
  unfold tryIntoBytes
  constructor
  · intro h
    split at h
    · cases h
    · rename_i rest hrest
      obtain ⟨b, hb, h⟩ := Outcome.bind_eq_ok_iff.mp h
      obtain rfl := toFixed_eq_ok_iff.mp h
      obtain ⟨data, rfl⟩ : ∃ data, s = pre ++ data := by
        apply startsWith_iff.mp
        by_contra hstart
        rw [stripPrefix_eq_none_iff.mpr (Bool.eq_false_iff.mpr hstart)] at hrest
        cases hrest
      rw [stripPrefix_append] at hrest
      obtain rfl := Option.some.inj hrest
      exact ⟨data, rfl, decodeBase58_eq_ok_iff.mp hb⟩
  · rintro ⟨data, rfl, hdecode⟩
    rw [stripPrefix_append]
    show (decodeBase58 codecs data >>= _) = _
    rw [decodeBase58_eq_ok_iff.mpr hdecode, Outcome.ok_bind, toFixed_eq_ok_iff]

/-- The text of a block hash is read in both ways. -/
theorem toBlockHash_eq_ok_iff {hash : BlockHash} :
    toBlockHash codecs s = .ok hash ↔ codecs.bs58.decode s = .ok hash.val.toList := by
  simp only [toBlockHash, Outcome.bind_eq_ok_iff, decodeBase58ToFixedBytes_eq_ok_iff]
  constructor
  · rintro ⟨array, hdecode, h⟩
    obtain rfl := Outcome.ok.inj h
    exact hdecode
  · exact fun hdecode => ⟨hash.val, hdecode, rfl⟩

/-- The hash of a text, in the reader of documents. -/
theorem visitStr_eq_ok_iff {hash : BlockHash} :
    BlockHash.visitStr codecs s = .ok hash ↔ codecs.bs58.decode s = .ok hash.val.toList := by
  unfold BlockHash.visitStr
  rw [Outcome.bind_eq_ok_iff]
  constructor
  · rintro ⟨b, hb, h⟩
    split at h
    · obtain rfl := Outcome.ok.inj h
      rw [Outcome.mapErr_eq_ok_iff.mp hb, (toArray_eq_some_iff b _).mp (by assumption)]
    · cases h
  · intro hdecode
    refine ⟨hash.val.toList, Outcome.mapErr_eq_ok_iff.mpr hdecode, ?_⟩
    rw [toArray_toList]
    rfl

end Accepts

/-! ## Panics -/

section Panics

variable {codecs} (hdecode : ∀ data msg, codecs.bs58.decode data ≠ .panic msg) (msg : String)

theorem toFixed_ne_panic {n : ℕ} {err : String} {b : Bytes} : toFixed n err b ≠ .panic msg := by
  unfold toFixed
  split
  · exact Outcome.ok_ne_panic _ _
  · exact Outcome.err_ne_panic _ _

include hdecode

/-- A text without a known curve is an error. -/
theorem toPublicKeyAsBytes_ne_panic (s : String) : toPublicKeyAsBytes codecs s ≠ .panic msg := by
  rw [PublicKey.toPublicKeyAsBytes_eq]
  exact bytesOfText_ne_panic hdecode msg

/-- Nothing in the text of a key panics, unless the codec does. -/
theorem toPublicKey_ne_panic (s : String) : toPublicKey codecs s ≠ .panic msg := by
  unfold toPublicKey
  refine Outcome.bind_ne_panic (toPublicKeyAsBytes_ne_panic hdecode msg s) fun b _ => ?_
  split_ifs
  · split
    · exact Outcome.ok_ne_panic _ _
    · exact Outcome.err_ne_panic _ _
  · split
    · exact Outcome.ok_ne_panic _ _
    · exact Outcome.err_ne_panic _ _
  · exact Outcome.err_ne_panic _ _

theorem decodeBase58_ne_panic (s : String) : decodeBase58 codecs s ≠ .panic msg :=
  Outcome.mapErr_ne_panic (hdecode s msg)

theorem decodeBase58ToFixedBytes_ne_panic (n : ℕ) (s : String) :
    decodeBase58ToFixedBytes codecs n s ≠ .panic msg :=
  Outcome.bind_ne_panic (decodeBase58_ne_panic hdecode msg s) fun _ _ => toFixed_ne_panic msg

/-- The readers for one curve do not panic either. -/
theorem tryIntoBytes_ne_panic {pre formatMsg lengthMsg : String} {n : ℕ} (s : String) :
    tryIntoBytes codecs pre n formatMsg lengthMsg s ≠ .panic msg := by
  unfold tryIntoBytes
  split
  · exact Outcome.err_ne_panic _ _
  · exact Outcome.bind_ne_panic (decodeBase58_ne_panic hdecode msg _) fun _ _ =>
      toFixed_ne_panic msg

theorem visitStr_ne_panic (s : String) : BlockHash.visitStr codecs s ≠ .panic msg := by
  unfold BlockHash.visitStr
  refine Outcome.bind_ne_panic (Outcome.mapErr_ne_panic (hdecode s msg)) fun b _ => ?_
  split
  · exact Outcome.ok_ne_panic _ _
  · exact Outcome.err_ne_panic _ _

end Panics

/-! ## All readers -/

/-- No reader of keys or hashes panics at the text. -/
structure NeverPanics (codecs : TextCodecs) (s : String) : Prop where
  fromJson : ∀ level msg, PublicKey.fromJson codecs level (.str s) ≠ .panic msg
  toPublicKey : ∀ msg, toPublicKey codecs s ≠ .panic msg
  asBytes : ∀ msg, toPublicKeyAsBytes codecs s ≠ .panic msg
  ed25519 : ∀ msg, tryEd25519IntoBytes codecs s ≠ .panic msg
  secp256k1 : ∀ msg, trySecp256k1IntoBytes codecs s ≠ .panic msg
  fixed32 : ∀ msg, toFixed32Bytes codecs s ≠ .panic msg
  fixed64 : ∀ msg, toFixed64Bytes codecs s ≠ .panic msg
  blockHash : ∀ msg, toBlockHash codecs s ≠ .panic msg
  blockHashFromJson : ∀ level msg, BlockHash.fromJson codecs level (.str s) ≠ .panic msg

/-- All readers take the text for the same key, or for the same hash. -/
structure ReadersAgree (codecs : TextCodecs) (s : String) : Prop where
  fromJson : ∀ level key, PublicKey.fromJson codecs level (.str s) = .ok key ↔
    toPublicKey codecs s = .ok key
  asBytes : ∀ b, toPublicKeyAsBytes codecs s = .ok b ↔
    ∃ key, toPublicKey codecs s = .ok key ∧ key.bytes = b
  ed25519 : ∀ array, tryEd25519IntoBytes codecs s = .ok array ↔
    toPublicKey codecs s = .ok (.ED25519 ⟨array⟩)
  secp256k1 : ∀ array, trySecp256k1IntoBytes codecs s = .ok array ↔
    toPublicKey codecs s = .ok (.SECP256K1 ⟨array⟩)
  /-- The readers of arrays take what stands behind a prefix. -/
  fixed32 : ∀ array, toFixed32Bytes codecs s = .ok array ↔
    toPublicKey codecs ("ed25519:" ++ s) = .ok (.ED25519 ⟨array⟩)
  fixed64 : ∀ array, toFixed64Bytes codecs s = .ok array ↔
    toPublicKey codecs ("secp256k1:" ++ s) = .ok (.SECP256K1 ⟨array⟩)
  blockHash : ∀ hash, toBlockHash codecs s = .ok hash ↔ toFixed32Bytes codecs s = .ok hash.val
  blockHashFromJson : ∀ level hash, BlockHash.fromJson codecs level (.str s) = .ok hash ↔
    toBlockHash codecs s = .ok hash

/-- All entry points return on every text, as long as the codec does. -/
theorem neverPanics {codecs : TextCodecs}
    (hdecode : ∀ data msg, codecs.bs58.decode data ≠ .panic msg) (s : String) :
    NeverPanics codecs s where
  fromJson _ msg := Outcome.mapErr_ne_panic (toPublicKey_ne_panic hdecode msg s)
  toPublicKey msg := toPublicKey_ne_panic hdecode msg s
  asBytes msg := toPublicKeyAsBytes_ne_panic hdecode msg s
  ed25519 msg := tryIntoBytes_ne_panic hdecode msg s
  secp256k1 msg := tryIntoBytes_ne_panic hdecode msg s
  fixed32 msg := decodeBase58ToFixedBytes_ne_panic hdecode msg 32 s
  fixed64 msg := decodeBase58ToFixedBytes_ne_panic hdecode msg 64 s
  blockHash msg := Outcome.bind_ne_panic (decodeBase58ToFixedBytes_ne_panic hdecode msg 32 s)
    fun _ _ => Outcome.ok_ne_panic _ _
  blockHashFromJson _ msg := visitStr_ne_panic hdecode msg s

section Agree

variable {s data : String}

/-- Texts with one of the two prefixes stand for keys of one type. -/
theorem names_ed25519_iff {key : ED25519PublicKey} :
    PublicKey.Names codecs (.str s) (.ED25519 key) ↔
      ∃ data, s = "ed25519:" ++ data ∧ codecs.bs58.decode data = .ok key.val.toList := by
  constructor
  · intro h
    cases h with
    | ed25519Text h => exact ⟨_, rfl, h⟩
  · rintro ⟨data, rfl, h⟩
    exact .ed25519Text h

/-- A text names a secp256k1 key behind the name of the curve. -/
theorem names_secp256k1_iff {key : Secp256K1PublicKey} :
    PublicKey.Names codecs (.str s) (.SECP256K1 key) ↔
      ∃ data, s = "secp256k1:" ++ data ∧ codecs.bs58.decode data = .ok key.val.toList := by
  constructor
  · intro h
    cases h with
    | secp256k1Text h => exact ⟨_, rfl, h⟩
  · rintro ⟨data, rfl, h⟩
    exact .secp256k1Text h

/-- A prefix can be taken off again. -/
theorem append_right_injective (pre : String) : Function.Injective (pre ++ ·) := by
  intro s t h
  have hlist := congrArg String.toList h
  simp only [String.toList_append] at hlist
  exact String.toList_injective (List.append_cancel_left hlist)

/-- What stands behind the prefix is one text. -/
theorem exists_append_eq_iff {pre : String} {p : String → Prop} :
    (∃ data, pre ++ s = pre ++ data ∧ p data) ↔ p s := by
  constructor
  · rintro ⟨data, hdata, h⟩
    rwa [append_right_injective pre hdata]
  · exact fun h => ⟨s, rfl, h⟩

/-- The bytes are those of the key. -/
theorem toPublicKeyAsBytes_eq_ok_iff {b : Bytes} : toPublicKeyAsBytes codecs s = .ok b ↔
    ∃ key, toPublicKey codecs s = .ok key ∧ key.bytes = b := by
  rw [PublicKey.toPublicKeyAsBytes_eq, bytesOfText_eq_ok_iff]
  constructor
  · rintro ⟨data, hdecode, ⟨rfl, hlen⟩ | ⟨rfl, hlen⟩⟩
    · exact ⟨.ED25519 ⟨⟨b, hlen⟩⟩,
        (PublicKey.toPublicKey_eq_ok_iff codecs).mpr (.ed25519Text hdecode), rfl⟩
    · exact ⟨.SECP256K1 ⟨⟨b, hlen⟩⟩,
        (PublicKey.toPublicKey_eq_ok_iff codecs).mpr (.secp256k1Text hdecode), rfl⟩
  · rintro ⟨key, hkey, rfl⟩
    rw [PublicKey.toPublicKey_eq_ok_iff] at hkey
    rcases key with key | key
    · obtain ⟨data, rfl, hdecode⟩ := (names_ed25519_iff codecs).mp hkey
      exact ⟨data, hdecode, .inl ⟨rfl, key.val.toList_length⟩⟩
    · obtain ⟨data, rfl, hdecode⟩ := (names_secp256k1_iff codecs).mp hkey
      exact ⟨data, hdecode, .inr ⟨rfl, key.val.toList_length⟩⟩

end Agree

/-- All readers of keys and hashes agree on every text, and none of them panics where the
decoding of `base58` does not. -/
theorem readersAgree_of_decode (codecs : TextCodecs)
    (hdecode : ∀ data msg, codecs.bs58.decode data ≠ .panic msg) (s : String) :
    ReadersAgree codecs s ∧ NeverPanics codecs s := by
  refine ⟨?_, neverPanics hdecode s⟩
  constructor
  · exact fun _ _ => Outcome.mapErr_eq_ok_iff
  · exact fun _ => toPublicKeyAsBytes_eq_ok_iff codecs
  · intro array
    rw [PublicKey.toPublicKey_eq_ok_iff, names_ed25519_iff]
    exact tryIntoBytes_eq_ok_iff
  · intro array
    rw [PublicKey.toPublicKey_eq_ok_iff, names_secp256k1_iff]
    exact tryIntoBytes_eq_ok_iff
  · intro array
    rw [PublicKey.toPublicKey_eq_ok_iff, names_ed25519_iff, exists_append_eq_iff]
    exact decodeBase58ToFixedBytes_eq_ok_iff
  · intro array
    rw [PublicKey.toPublicKey_eq_ok_iff, names_secp256k1_iff, exists_append_eq_iff]
    exact decodeBase58ToFixedBytes_eq_ok_iff
  · intro hash
    exact toBlockHash_eq_ok_iff.trans decodeBase58ToFixedBytes_eq_ok_iff.symm
  · intro level hash
    exact visitStr_eq_ok_iff.trans toBlockHash_eq_ok_iff.symm

/-- Zeros are one `1` for each. -/
theorem readersAgree_of_decode_zeros :
    toPublicKey sampleCodecs "ed25519:11111111111111111111111111111111" =
        .ok (.ED25519 ⟨.replicate 32 0⟩) ∧
      trySecp256k1IntoBytes sampleCodecs "ed25519:11111111111111111111111111111111" ≠
        .ok (.replicate 64 0) ∧
      ∀ msg, toBlockHash sampleCodecs "11111111111111111111111111111111" ≠ .panic msg := by
  have hdecode : ∀ data msg, sampleCodecs.bs58.decode data ≠ .panic msg :=
    fun _ _ => Outcome.ok_ne_panic _ _
  obtain ⟨hagree, hpanic⟩ :=
    readersAgree_of_decode sampleCodecs hdecode "11111111111111111111111111111111"
  have hkey : toPublicKey sampleCodecs "ed25519:11111111111111111111111111111111" =
      .ok (.ED25519 ⟨.replicate 32 0⟩) := (hagree.fixed32 _).mp (by decide)
  refine ⟨hkey, fun h => ?_, hpanic.blockHash⟩
  have hsecp := ((readersAgree_of_decode sampleCodecs hdecode _).1.secp256k1 _).mp h
  rw [hkey] at hsecp
  cases hsecp

end PublicKeyStrExt

end Near
