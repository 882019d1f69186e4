/-
# Transaction ids from texts

The ways in which a transaction id gets into an outpoint: `Hash::from_hex` and the parsing
of a `Hash` of `src/bitcoin/types/tx_in/hash.rs`, and the JSON form of an `OutPoint`, where
it may also be an array of bytes.  They agree on all texts of 64 digits and refuse all texts
that are not hexadecimal.  On a hexadecimal text of another length, `from_hex` panics
(`Hash.entersAlike_iff`).
-/
import OmniTransaction.BitcoinDecoding
import OmniTransaction.BitcoinNumbers

open ByteOrder Rust Serde

namespace Bitcoin

namespace Hash

variable (hex : Hex.Codec)

/-- `Hash::from_hex`. -/
def fromHex (s : String) : Outcome Hex.FromHexError Hash := do
  let bytes ← hex.decode s
  match toArray 32 bytes with
  | some hash => .ok hash
  | none => .panic ("Invalid length: " ++ debugBytes bytes)

/-- `FromStr for Hash`. -/
def fromStr (s : String) : Outcome Hex.FromHexError Hash := fromHex hex s

/-- `Display for Hash`. -/
def display (hash : Hash) : String := hex.encode hash.toList

variable {hex} {s : String} {hash : Hash}

theorem fromHex_of_decode (h : hex.decode s = .ok hash.toList) : fromHex hex s = .ok hash := by
  rw [fromHex, h, Outcome.ok_bind, toArray_toList]

/-- A text that is no hexadecimal text is an error. -/
theorem exists_fromHex_eq_err (hstandard : hex.Standard) (h : ∀ b, hex.decode s ≠ .ok b) :
    ∃ e, fromHex hex s = .err e := by
  unfold fromHex
  rcases hdecode : hex.decode s with b | e | msg
  · exact absurd hdecode (h b)
  · exact ⟨e, rfl⟩
  · exact absurd hdecode (hstandard.decode_ne_panic s msg)

/-- A hexadecimal text of another length is none. -/
theorem fromHex_eq_panic {b : Bytes} (h : hex.decode s = .ok b) (hlen : b.length ≠ 32) :
    fromHex hex s = .panic ("Invalid length: " ++ debugBytes b) := by
  rw [fromHex, h, Outcome.ok_bind, toArray, dif_neg hlen]

end Hash

/-! ## Outpoints -/

namespace OutPoint

variable {hex : Hex.Codec} {level : ℕ} {txidDoc voutDoc : Json} {entries : List (String × Json)}

/-- The branch `"txid"` of `visit_map`. -/
theorem visitMap_txid {value : Json} {txid : Option Txid} {vout : Option UInt32} :
    visitMap hex level txid vout (("txid", value) :: entries) =
      readValue level value >>= fun txidValue => txidBytes hex txidValue >>= fun bytes =>
        match toArray 32 bytes with
        | some hashBytes => visitMap hex level (some hashBytes) vout entries
        | none => .err (.custom "Invalid txid length") := by
  rw [visitMap]
  exact if_pos rfl

/-- An outpoint whose transaction id is refused is refused, in either order of the keys. -/
theorem exists_fromJson_eq_err {vout : UInt32} (s : String)
    (hread : (∃ e, hex.decode s = .err e) ∨ ∃ b, hex.decode s = .ok b ∧ b.length ≠ 32)
    (hvout : voutOf voutDoc = .ok vout)
    (hentries : entries.Perm [("txid", .str s), ("vout", voutDoc)])
    (hdepth : (Json.obj entries).depth ≤ level) :
    ∃ e, fromJson hex level (.obj entries) = .err e := by
  obtain ⟨hlevel, hdepth⟩ := Json.depth_obj_le_iff.mp hdepth
  obtain ⟨level, rfl⟩ := Nat.exists_eq_add_one_of_ne_zero hlevel.ne'
  have hvalue : readValue level voutDoc = .ok voutDoc :=
    if_pos (Nat.le_of_lt_succ (hdepth ("vout", voutDoc) (hentries.mem_iff.mpr (by simp))))
  have htxid (vout : Option UInt32) (entries : List (String × Json)) :
      ∃ e, visitMap hex level none vout (("txid", .str s) :: entries) = .err e := by
    rcases hread with ⟨e, he⟩ | ⟨b, hb, hlen⟩
    · refine ⟨.custom (hex.describe e), ?_⟩
      have hbytes : txidBytes hex (.str s) = .err (.custom (hex.describe e)) := by
        rw [txidBytes, he]
        rfl
      rw [visitMap_txid]
      show (txidBytes hex (.str s) >>= _) = _
      rw [hbytes, Outcome.err_bind]
    · refine ⟨.custom "Invalid txid length", ?_⟩
      have hbytes : txidBytes hex (.str s) = .ok b := by
        rw [txidBytes, hb]
        rfl
      rw [visitMap_txid]
      show (txidBytes hex (.str s) >>= _) = _
      rw [hbytes, Outcome.ok_bind, toArray, dif_neg hlen]
  show ∃ e, visitMap hex level none none entries = .err e
  rcases List.perm_pair.mp hentries with rfl | rfl
  · exact htxid none _
  · rw [visitMap, if_neg (by decide), if_pos rfl, hvalue, Outcome.ok_bind, hvout, Outcome.ok_bind]
    exact htxid (some vout) []

end OutPoint

/-! ## All ways -/

namespace Hash

/-- 64 hexadecimal digits. -/
def IsTxidText (s : String) : Prop := s.length = 64 ∧ Hex.IsHexText s

/-- In an outpoint with this transaction id, and with an output index in any spelling, the
document `txidDoc` stands for the hash.  The keys may come in either order. -/
def EntersOutPoint (hex : Hex.Codec) (txidDoc : Json) (hash : Hash) : Prop :=
  ∀ level (vout : UInt32) (voutDoc : Json) (entries : List (String × Json)),
    SpellsNumber vout.toNat voutDoc →
    entries.Perm [("txid", txidDoc), ("vout", voutDoc)] → (Json.obj entries).depth ≤ level →
    OutPoint.fromJson hex level (.obj entries) = .ok ⟨hash, vout⟩

/-- No outpoint has this transaction id; each of them is an error. -/
def RefusedByOutPoint (hex : Hex.Codec) (txidDoc : Json) : Prop :=
  ∀ level (vout : UInt32) (voutDoc : Json) (entries : List (String × Json)),
    SpellsNumber vout.toNat voutDoc →
    entries.Perm [("txid", txidDoc), ("vout", voutDoc)] → (Json.obj entries).depth ≤ level →
    ∃ e, OutPoint.fromJson hex level (.obj entries) = .err e

/-- On the wire the hash comes first, with its bytes reversed, and is decoded again. -/
def OnTheWire (hash : Hash) : Prop :=
  (∀ vout : UInt32, ∃ rest, Writes (OutPoint.encode ⟨hash, vout⟩ : ByteStream IoError ℕ)
    (hash.toList.reverse ++ rest).length (hash.toList.reverse ++ rest)) ∧
  ∀ rest, Txid.decodable.decode.run (hash.toList.reverse ++ rest) = .ok (hash, rest)

/-- The text is the same transaction id everywhere, or is refused with an error
everywhere. -/
structure EntersAlike (hex : Hex.Codec) (s : String) : Prop where
  accepted : IsTxidText s → ∃ hash : Hash, fromHex hex s = .ok hash ∧ fromStr hex s = .ok hash ∧
    display hex hash = s.toLower ∧ EntersOutPoint hex (.str s) hash ∧
    EntersOutPoint hex (writeBytes hash.toList) hash ∧ OnTheWire hash
  refused : ¬ IsTxidText s → (∃ e, fromHex hex s = .err e) ∧ (∃ e, fromStr hex s = .err e) ∧
    RefusedByOutPoint hex (.str s)

variable {hex : Hex.Codec} {s : String} {hash : Hash}

theorem onTheWire (hash : Hash) : OnTheWire hash := by
  constructor
  · intro vout
    exact ⟨leBytes 4 vout.toNat, OutPoint.encodes_encode ⟨hash, vout⟩⟩
  · intro rest
    exact Txid.accepts_decode.reads rfl rest

theorem entersOutPoint {txidDoc : Json} (h : SpellsBytes hex hash.toList txidDoc) :
    EntersOutPoint hex txidDoc hash := by
  intro level vout voutDoc entries hvout hentries hdepth
  rw [OutPoint.fromJson_eq_bind h hentries hdepth, OutPoint.voutOf_of_spells hvout]
  rfl

/-- The transaction ids are the hexadecimal texts of 32 bytes. -/
theorem isTxidText_iff (hstandard : hex.Standard) :
    IsTxidText s ↔ ∃ hash : Hash, hex.decode s = .ok hash.toList := by
  constructor
  · rintro ⟨hlen, hs⟩
    obtain ⟨b, hb⟩ := Hex.Codec.exists_decode_lowercase hs (by rw [hlen])
    obtain ⟨-, hlen', -⟩ := Hex.Codec.decode_lowercase_spec hb
    exact ⟨⟨b, by omega⟩, (hstandard.decode_eq_ok_iff s b).mpr hb⟩
  · rintro ⟨hash, h⟩
    obtain ⟨hs, hlen, -⟩ := Hex.Codec.decode_lowercase_spec ((hstandard.decode_eq_ok_iff s _).mp h)
    rw [hash.toList_length] at hlen
    exact ⟨hlen, hs⟩

/-- The text is an even number of digits, but not 64. -/
def WrongLength (s : String) : Prop :=
  Hex.IsHexText s ∧ s.length % 2 = 0 ∧ s.length ≠ 64

theorem wrongLength_iff (hstandard : hex.Standard) :
    WrongLength s ↔ ∃ b, hex.decode s = .ok b ∧ b.length ≠ 32 := by
  constructor
  · rintro ⟨hs, heven, hlen⟩
    obtain ⟨b, hb⟩ := Hex.Codec.exists_decode_lowercase hs heven
    obtain ⟨-, hlen', -⟩ := Hex.Codec.decode_lowercase_spec hb
    exact ⟨b, (hstandard.decode_eq_ok_iff s b).mpr hb, by omega⟩
  · rintro ⟨b, hb, hlen⟩
    obtain ⟨hs, hlen', -⟩ :=
      Hex.Codec.decode_lowercase_spec ((hstandard.decode_eq_ok_iff s b).mp hb)
    exact ⟨hs, by omega, by omega⟩

theorem accepted (hstandard : hex.Standard) (h : hex.decode s = .ok hash.toList) :
    fromHex hex s = .ok hash ∧ fromStr hex s = .ok hash ∧ display hex hash = s.toLower ∧
      EntersOutPoint hex (.str s) hash ∧ EntersOutPoint hex (writeBytes hash.toList) hash ∧
      OnTheWire hash := by
  have hdisplay : display hex hash = s.toLower := by
    rw [display, hstandard.encode_eq]
    exact (Hex.Codec.decode_lowercase_spec ((hstandard.decode_eq_ok_iff s _).mp h)).2.2
  exact ⟨fromHex_of_decode h, fromHex_of_decode h, hdisplay, entersOutPoint (.text h),
    entersOutPoint .numbers, onTheWire hash⟩

/-- The text enters alike exactly when it is not a hexadecimal text of the wrong length. -/
theorem entersAlike_iff (hex : Hex.Codec) (hstandard : hex.Standard) (s : String) :
    EntersAlike hex s ↔ ¬ WrongLength s := by
  constructor
  · intro h hwrong
    obtain ⟨b, hb, hlen⟩ := (wrongLength_iff hstandard).mp hwrong
    obtain ⟨⟨e, he⟩, -⟩ := h.refused fun htxid => hwrong.2.2 htxid.1
    rw [fromHex_eq_panic hb hlen] at he
    cases he
  · intro hwrong
    constructor
    · intro htxid
      obtain ⟨hash, hash_eq⟩ := (isTxidText_iff hstandard).mp htxid
      exact ⟨hash, accepted hstandard hash_eq⟩
    · intro htxid
      have hdecode (b : Bytes) : hex.decode s ≠ .ok b := by
        intro hb
        by_cases hlen : b.length = 32
        · exact htxid ((isTxidText_iff hstandard).mpr ⟨⟨b, hlen⟩, hb⟩)
        · exact hwrong ((wrongLength_iff hstandard).mpr ⟨b, hb, hlen⟩)
      have herr : ∃ e, hex.decode s = .err e := by
        rcases h : hex.decode s with b | e | msg
        · exact absurd h (hdecode b)
        · exact ⟨e, rfl⟩
        · exact absurd h (hstandard.decode_ne_panic s msg)
      refine ⟨exists_fromHex_eq_err hstandard hdecode, exists_fromHex_eq_err hstandard hdecode, ?_⟩
      intro level vout voutDoc entries hvout hentries hdepth
      exact OutPoint.exists_fromJson_eq_err s (.inl herr) (OutPoint.voutOf_of_spells hvout)
        hentries hdepth

/-- The 32 bytes from 0 to 31 enter alike in all ways, their first byte alone does not. -/
theorem entersAlike_countingBytes :
    EntersAlike .lowercase (Hex.Codec.lowercase.encode ((List.range 32).map UInt8.ofNat)) ∧
      ¬ EntersAlike .lowercase "00" := by
  constructor
  · refine (entersAlike_iff .lowercase Hex.Codec.standard_lowercase _).mpr fun hwrong => ?_
    exact hwrong.2.2 (by decide)
  · intro h
    have hwrong : WrongLength "00" :=
      (wrongLength_iff Hex.Codec.standard_lowercase).mpr ⟨[0], rfl, by decide⟩
    exact (entersAlike_iff .lowercase Hex.Codec.standard_lowercase _).mp h hwrong

/-- On two digits `from_hex` panics where an outpoint is an error. -/
theorem not_entersAlike_two_digits :
    fromHex .lowercase "00" = .panic "Invalid length: [0]" ∧
      (∃ e, OutPoint.fromJson .lowercase recursionLimit
        (.obj [("txid", .str "00"), ("vout", .int 0)]) = .err e) ∧
      ¬ EntersAlike .lowercase "00" := by
  have hdecode : Hex.Codec.lowercase.decode "00" = .ok [0] := rfl
  have hpanic : fromHex .lowercase "00" = .panic "Invalid length: [0]" :=
    fromHex_eq_panic hdecode (by decide)
  have hvout : OutPoint.voutOf (.int 0) = .ok 0 := OutPoint.voutOf_of_spells .number
  refine ⟨hpanic, ?_, fun h => ?_⟩
  · exact OutPoint.exists_fromJson_eq_err "00" (.inr ⟨[0], hdecode, by decide⟩)
      hvout (.refl _) (by decide)
  · obtain ⟨⟨e, he⟩, -⟩ := h.refused fun htxid => absurd htxid.1 (by decide)
    rw [hpanic] at he
    cases he

end Hash

end Bitcoin
