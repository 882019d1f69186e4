/-
# Bitcoin transactions in JSON

The JSON form of the parts of a Bitcoin transaction: what `Serialize` writes and what
the visitors read.  Several of them take more than one spelling of a value: bytes as a
hexadecimal text or as an array of numbers, numbers as they are or as a decimal text.
Whatever spellings a document mixes, it is read as the transaction that it spells
(`BitcoinTransaction.fromJson_of_spells`).

The package `hex` is a parameter.
-/
import OmniTransaction.BitcoinSerialization
import OmniTransaction.Hex
import OmniTransaction.Json
import OmniTransaction.Numerals
import OmniTransaction.WitnessStack

open ByteOrder Rust Serde

namespace Bitcoin

variable (hex : Hex.Codec) {usizeBits : ℕ}

/-! ## Spellings -/

/-- The spellings of bytes: a text in hexadecimal digits, or an array of numbers. -/
inductive SpellsBytes (b : Bytes) : Json → Prop where
  | text {s : String} (h : hex.decode s = .ok b) : SpellsBytes b (.str s)
  | numbers : SpellsBytes b (writeBytes b)

/-- The spellings of a number: as it is, or a text in decimal digits. -/
inductive SpellsNumber (n : ℕ) : Json → Prop where
  | number : SpellsNumber n (.int n)
  | text {s : String} (h : IsDecimal s n) : SpellsNumber n (.str s)

variable {hex} {doc : Json}

/-- A text or an array of numbers. -/
theorem SpellsBytes.depth_le {b : Bytes} (h : SpellsBytes hex b doc) : doc.depth ≤ 1 := by
  cases h with
  | text h => exact Nat.zero_le 1
  | numbers => exact depth_writeBytes_le_iff.mpr Nat.one_pos

/-- A number or a text takes no level. -/
theorem SpellsNumber.depth_eq {n : ℕ} (h : SpellsNumber n doc) : doc.depth = 0 := by
  cases h with
  | number => rfl
  | text h => rfl

variable (hex)

/-! ## Version and lock time -/

namespace Version

/-- `Serialize for Version`: the number. -/
def toJson (version : Version) : Json := .int version.toNat

/-- What the visitor makes of a number. -/
def ofNumber : ℕ → Outcome DeError Version
  | 1 => .ok One
  | 2 => .ok Two
  | _ => .err (.custom "Invalid version number")

/-- `Deserialize for Version`. -/
def fromJson : Reader Version := fun level doc =>
  match doc with
  | .str value => do
      let valueParsed ← (parseUnsigned 32 (trim value)).mapErr fun e => .custom e.display
      ofNumber valueParsed
  | .int n =>
      if 0 ≤ n ∧ n < 2 ^ 64 then ofNumber n.toNat
      else .err (.invalidType doc "a string or a number")
  | _ => unexpected "a string or a number" level doc

/-- A version is read from its number. -/
theorem ofNumber_toNat (version : Version) : ofNumber version.toNat = .ok version := by
  cases version <;> rfl

/-- A version is read from both spellings. -/
theorem roundTrips {version : Version} (h : SpellsNumber version.toNat doc) :
    RoundTrips fromJson doc version True := by
  have hlt : version.toNat < 2 ^ 32 := by cases version <;> decide
  refine RoundTrips.of_eq_ok (fun level => ?_) h.depth_eq
  cases h with
  | number =>
      have hrange : (0 : ℤ) ≤ version.toNat ∧ (version.toNat : ℤ) < 2 ^ 64 := by omega
      simp only [fromJson]
      rw [if_pos hrange, Int.toNat_natCast, ofNumber_toNat]
  | text h =>
      show ((parseUnsigned 32 (trim _)).mapErr _ >>= ofNumber) = _
      rw [h.trim_eq, h.parseUnsigned_eq hlt]
      exact ofNumber_toNat version

end Version

/-- The threshold between block heights and block times. -/
def LOCK_TIME_THRESHOLD : UInt32 := 500000000

/-- `Height::is_valid`. -/
def Height.isValid (n : UInt32) : Bool := n < LOCK_TIME_THRESHOLD

/-- `Time::is_valid`. -/
def Time.isValid (n : UInt32) : Bool := LOCK_TIME_THRESHOLD ≤ n

namespace LockTime

/-- `from_height`. -/
def fromHeight (height : UInt32) : Outcome String LockTime :=
  if Height.isValid height then .ok ⟨height⟩ else .err s!"Invalid block height: {height}"

/-- `from_time`. -/
def fromTime (time : UInt32) : Outcome String LockTime :=
  if Time.isValid time then .ok ⟨time⟩ else .err s!"Invalid timestamp: {time}"

/-- Derived `Serialize` of `LockTime`: the number. -/
def toJson (lockTime : LockTime) : Json := .int lockTime.val.toNat

/-- What the visitor makes of a number.  A `u64` is compared with the threshold and then
cast to a `u32`. -/
def ofNumber (value : ℕ) : Outcome DeError LockTime :=
  if value < LOCK_TIME_THRESHOLD.toNat then (fromHeight (UInt32.ofNat value)).unwrap String.quote
  else (fromTime (UInt32.ofNat value)).unwrap String.quote

/-- `Deserialize for LockTime`. -/
def fromJson : Reader LockTime := fun level doc =>
  match doc with
  | .str value =>
      match parseUnsigned 32 value with
      | .ok valueParsed => ofNumber valueParsed
      | _ => .err (.custom "Invalid lock time: expected a number")
  | .int n =>
      if 0 ≤ n ∧ n < 2 ^ 64 then ofNumber n.toNat
      else .err (.invalidType doc "a string or a number")
  | _ => unexpected "a string or a number" level doc

/-- On either side of the threshold a `u32` is the lock time. -/
theorem ofNumber_toNat (lockTime : LockTime) :
    ofNumber lockTime.val.toNat = .ok lockTime := by
  rw [ofNumber, UInt32.ofNat_toNat]
  split_ifs with h
  · have hvalid : Height.isValid lockTime.val := decide_eq_true h
    rw [fromHeight, if_pos hvalid]
    rfl
  · have hvalid : Time.isValid lockTime.val := decide_eq_true (Nat.le_of_not_lt h)
    rw [fromTime, if_pos hvalid]
    rfl

/-- A lock time is read from both spellings. -/
theorem roundTrips {lockTime : LockTime} (h : SpellsNumber lockTime.val.toNat doc) :
    RoundTrips fromJson doc lockTime True := by
  have hlt : lockTime.val.toNat < 2 ^ 32 := lockTime.val.toNat_lt
  refine RoundTrips.of_eq_ok (fun level => ?_) h.depth_eq
  cases h with
  | number =>
      have hrange : (0 : ℤ) ≤ lockTime.val.toNat ∧ (lockTime.val.toNat : ℤ) < 2 ^ 64 := by omega
      simp only [fromJson]
      rw [if_pos hrange, Int.toNat_natCast, ofNumber_toNat]
  | text h =>
      show (match parseUnsigned 32 _ with
        | .ok valueParsed => ofNumber valueParsed
        | _ => _ : Outcome DeError LockTime) = _
      rw [h.parseUnsigned_eq hlt]
      exact ofNumber_toNat lockTime

end LockTime

/-! ## Outpoints, scripts and amounts -/

namespace OutPoint

/-- `expecting` of the visitor. -/
def expecting : String := "a map with txid as a hex string and vout as a number or string"

/-- `Serialize for OutPoint`. -/
def toJson (outpoint : OutPoint) : Json :=
  .obj [("txid", writeBytes outpoint.txid.toList), ("vout", .int outpoint.vout.toNat)]

/-- The bytes of a `txid`, which may be of any length. -/
def txidBytes : Json → Outcome DeError Bytes
  | .str txidStr => (hex.decode txidStr).mapErr fun e => .custom (hex.describe e)
  | .arr txidArray => txidArray.mapM fun
      | .int i =>
          if 0 ≤ i ∧ i ≤ 255 then .ok (UInt8.ofNat i.toNat)
          else .err (.custom "Invalid number for u8")
      | _ => .err (.custom "Invalid number for u8")
  | _ => .err (.custom "Invalid format for txid")

/-- A number as a `vout`.  A number from `2 ^ 32` on is cast, in a text it is an error. -/
def voutOf : Json → Outcome DeError UInt32
  | .int num =>
      if 0 ≤ num ∧ num < 2 ^ 64 then .ok (UInt32.ofNat num.toNat)
      else .err (.custom "Invalid vout number")
  | .float _ => .err (.custom "Invalid vout number")
  | .str s =>
      match parseUnsigned 32 s with
      | .ok n => .ok (UInt32.ofNat n)
      | _ => .err (.custom "Invalid vout string")
  | _ => .err (.custom "Invalid vout type")

/-- `visit_map`.  A key that comes again replaces what was read before. -/
def visitMap (level : ℕ) (txid : Option Txid) (vout : Option UInt32) :
    List (String × Json) → Outcome DeError OutPoint
  | [] =>
      match txid, vout with
      | none, _ => .err (.missingField "txid")
      | some _, none => .err (.missingField "vout")
      | some txid, some vout => .ok ⟨txid, vout⟩
  | (key, value) :: entries =>
      if key = "txid" then do
        let txidValue ← readValue level value
        let bytes ← txidBytes hex txidValue
        match toArray 32 bytes with
        | some hashBytes => visitMap level (some hashBytes) vout entries
        | none => .err (.custom "Invalid txid length")
      else if key = "vout" then do
        let voutValue ← readValue level value
        let n ← voutOf voutValue
        visitMap level txid (some n) entries
      else .err (.custom s!"Unexpected key: {key}")

/-- `Deserialize for OutPoint`. -/
def fromJson : Reader OutPoint := fun level doc =>
  match level, doc with
  | 0, .obj _ => closed doc
  | level + 1, .obj entries => visitMap hex level none none entries
  | _, _ => .err (.invalidType doc expecting)

/-- The spellings of an outpoint. -/
inductive Spells (outpoint : OutPoint) : Json → Prop where
  | intro {txid vout : Json} (htxid : SpellsBytes hex outpoint.txid.toList txid)
      (hvout : SpellsNumber outpoint.vout.toNat vout) :
      Spells outpoint (.obj [("txid", txid), ("vout", vout)])

/-- What is written is one of the spellings. -/
theorem spells_toJson (outpoint : OutPoint) : outpoint.Spells hex outpoint.toJson :=
  .intro .numbers .number

variable {hex}

/-- The id may be an array of numbers. -/
theorem Spells.depth_le {outpoint : OutPoint} (h : outpoint.Spells hex doc) : doc.depth ≤ 2 := by
  cases h with
  | intro htxid hvout =>
      have hdepth := htxid.depth_le
      have hzero := hvout.depth_eq
      simp only [Json.depth_obj_cons_le_iff, Json.depth_obj_nil_le_iff]
      omega

/-- Both spellings give the bytes of the id. -/
theorem txidBytes_of_spells {b : Bytes} (h : SpellsBytes hex b doc) :
    txidBytes hex doc = .ok b := by
  cases h with
  | text h =>
      rw [txidBytes, h]
      rfl
  | numbers =>
      have hbyte : ∀ x ∈ b, ReadsAs (fun
          | .int i =>
              if 0 ≤ i ∧ i ≤ 255 then .ok (UInt8.ofNat i.toNat)
              else .err (.custom "Invalid number for u8")
          | _ => .err (.custom "Invalid number for u8")) (writeU8 x) x True := by
        intro x _
        have hrange : (0 : ℤ) ≤ x.toNat ∧ (x.toNat : ℤ) ≤ 255 := by
          have hx := x.toNat_lt
          omega
        apply ReadsAs.of_eq_ok
        simp only [writeU8]
        rw [if_pos hrange, Int.toNat_natCast, UInt8.ofNat_toNat]
      exact (mapM_eq_ok_iff hbyte b).mpr ⟨rfl, fun _ _ => trivial⟩

theorem voutOf_of_spells {vout : UInt32} (h : SpellsNumber vout.toNat doc) :
    voutOf doc = .ok vout := by
  have hlt := vout.toNat_lt
  cases h with
  | number =>
      have hrange : (0 : ℤ) ≤ vout.toNat ∧ (vout.toNat : ℤ) < 2 ^ 64 := by omega
      rw [voutOf, if_pos hrange, Int.toNat_natCast, UInt32.ofNat_toNat]
  | text h =>
      rw [voutOf, h.parseUnsigned_eq hlt]
      exact congrArg Outcome.ok UInt32.ofNat_toNat

/-- An outpoint is read from every spelling of its fields, in any order. -/
theorem roundTrips {outpoint : OutPoint} (h : outpoint.Spells hex doc) :
    RoundTrips (fromJson hex) doc outpoint True := by
  cases h with
  | @intro txid vout htxid hvout =>
      intro level o
      simp only [Json.depth_obj_cons_le_iff, Json.depth_obj_nil_le_iff, true_and]
      cases level with
      | zero => simp [fromJson, closed]
      | succ level =>
          have hread : fromJson hex (level + 1) (.obj [("txid", txid), ("vout", vout)]) =
              readValue level txid >>= fun _ => .ok outpoint := by
            have hvalue : readValue level vout = .ok vout :=
              if_pos (hvout.depth_eq ▸ Nat.zero_le level)
            show visitMap hex level none none _ = _
            rw [visitMap, if_pos rfl]
            by_cases hdepth : txid.depth ≤ level
            · have hvalue' : readValue level txid = .ok txid := if_pos hdepth
              rw [hvalue', Outcome.ok_bind, txidBytes_of_spells htxid, Outcome.ok_bind,
                toArray_toList]
              dsimp only
              rw [visitMap, if_neg (by decide), if_pos rfl, hvalue, Outcome.ok_bind,
                voutOf_of_spells hvout]
              rfl
            · have hvalue' : readValue level txid = .err .recursionLimitExceeded := if_neg hdepth
              rw [hvalue', Outcome.err_bind, Outcome.err_bind]
          rw [hread, hvout.depth_eq]
          unfold readValue
          split_ifs with hdepth
          · simp [hdepth, eq_comm]
          · simp [hdepth]

end OutPoint

namespace ScriptBuf

/-- `Serialize for ScriptBuf`. -/
def toJson (script : ScriptBuf) : Json := writeBytes script.val.toList

/-- `ScriptBuf::from_hex`. -/
def fromHex (s : String) : Outcome String ScriptBuf := do
  let v ← (hex.decode s).mapErr hex.describe
  let val ← Vec.ofList v
  return ⟨val⟩

/-- `Deserialize for ScriptBuf`. -/
def fromJson : Reader ScriptBuf := fun level doc =>
  match doc with
  | .str v => if v = "" then .ok ⟨Vec.empty⟩ else (fromHex hex v).mapErr .custom
  | .arr _ => do
      let vec ← readBytes level doc
      let val ← Vec.ofList vec
      return ⟨val⟩
  | _ => unexpected "a script hex" level doc

variable {hex} in
/-- A script is read from both spellings. -/
theorem roundTrips {script : ScriptBuf} (h : SpellsBytes hex script.val.toList doc) :
    RoundTrips (fromJson hex) doc script True := by
  have hofList : ∀ ε, (Vec.ofList script.val.toList : Outcome ε (Vec UInt8)) = .ok script.val :=
    fun ε => Vec.ofList_eq_ok_iff.mpr rfl
  cases h with
  | @text s h =>
      refine RoundTrips.of_eq_ok (fun level => ?_) rfl
      by_cases hempty : s = ""
      · -- the empty text stands for no bytes
        subst hempty
        have hnil : script.val.toList = [] := Outcome.ok.inj (h.symm.trans hex.decode_empty)
        simp only [fromJson]
        rw [if_pos trivial]
        exact congrArg Outcome.ok (ScriptBuf.ext (Vec.ext hnil.symm))
      · simp only [fromJson]
        rw [if_neg hempty, fromHex, h, Outcome.mapErr, Outcome.ok_bind, hofList]
        rfl
  | numbers =>
      intro level
      have hval : ∀ s : ScriptBuf, (Vec.ofList script.val.toList >>= fun val => pure ⟨val⟩ :
          Outcome DeError ScriptBuf) = .ok s ↔ s = script ∧ True := by
        intro s
        rw [hofList, Outcome.ok_bind, Outcome.pure_eq_ok, Outcome.ok.injEq, and_true, eq_comm]
      exact ((roundTrips_bytes script.val.toList level).bind hval).congr (by simp)

end ScriptBuf

namespace Sequence

/-- Derived `Serialize` of `Sequence`: the number. -/
def toJson (sequence : Sequence) : Json := .int sequence.val.toNat

def fromJson : Reader Sequence := fun level doc => do
  let n ← readUnsigned 32 "u32" level doc
  return ⟨UInt32.ofNat n⟩

theorem roundTrips (sequence : Sequence) :
    RoundTrips fromJson sequence.toJson sequence True := by
  have h := (roundTrips_unsigned "u32" sequence.val.toNat_lt).map fun n =>
    Sequence.mk (UInt32.ofNat n)
  rwa [UInt32.ofNat_toNat] at h

end Sequence

namespace Amount

/-- Derived `Serialize` of `Amount`: the number of satoshis. -/
def toJson (amount : Amount) : Json := .int amount.val.toNat

def fromJson : Reader Amount := fun level doc => do
  let n ← readUnsigned 64 "u64" level doc
  return ⟨UInt64.ofNat n⟩

theorem roundTrips (amount : Amount) : RoundTrips fromJson amount.toJson amount True := by
  have h := (roundTrips_unsigned "u64" amount.val.toNat_lt).map fun n =>
    Amount.mk (UInt64.ofNat n)
  rwa [UInt64.ofNat_toNat] at h

end Amount

/-! ## Witnesses -/

namespace Witness

variable (usizeBits) in
/-- `Serialize for Witness`: a sequence of hexadecimal texts. -/
def toJson (w : Witness) : Outcome Empty Json := do
  let elems ← w.iter.items usizeBits
  return .arr (elems.map fun elem => .str (hex.encode elem))

/-- The error of an element that is not hexadecimal. -/
def hexError : Hex.FromHexError → DeError
  | .invalidHexCharacter c _ => .invalidCharacter c "a valid hex character"
  | .oddLength => .invalidLength 0 "an even length string"
  | .invalidStringLength => .invalidLength 0 "an even length string"

/-- An element in `visit_seq`. -/
def readElement : Reader (Vec UInt8) := fun level doc => do
  let elem ← readString level doc
  let vec ← (hex.decode elem).mapErr hexError
  Vec.ofList vec

/-- `Deserialize for Witness`. -/
def fromJson : Reader Witness := fun level doc =>
  match doc with
  | .arr _ => do
      let ret ← readVector (readElement hex) level doc
      fromSlice ret
  | _ => .err (.invalidType doc "a sequence of hex arrays")

/-- The texts of the elements. -/
def elementTexts (xs : Vec (Vec UInt8)) : List Json :=
  xs.toList.map fun x => .str (hex.encode x.toList)

variable {hex}

/-- An element is read from its digits. -/
theorem roundTrips_element (x : Vec UInt8) :
    RoundTrips (readElement hex) (.str (hex.encode x.toList)) x True := by
  refine RoundTrips.of_eq_ok (fun level => ?_) rfl
  show ((hex.decode (hex.encode x.toList)).mapErr hexError >>= Vec.ofList) = _
  rw [hex.decode_encode, Outcome.mapErr, Outcome.ok_bind, Vec.ofList_eq_ok_iff]

variable {w : Witness} {xs : Vec (Vec UInt8)}

/-- A packed witness is written as the texts of its elements. -/
theorem Packed.toJson_eq (h : Packed w xs) (hroom : w.content.length + 4 < 2 ^ usizeBits) :
    w.toJson hex usizeBits = .ok (.arr (elementTexts hex xs)) := by
  have hitems := Iter.items_of_collect (h.toVec_eq hroom)
  rw [toJson, hitems, Outcome.ok_bind, elementTexts, List.map_map]
  rfl

/-- The texts of the elements are read as the packed witness. -/
theorem Packed.roundTrips (h : Packed w xs) :
    RoundTrips (fromJson hex) (.arr (elementTexts hex xs)) w True := by
  have hread : List.Forall₂ (fun doc x => RoundTrips (readElement hex) doc x True)
      (elementTexts hex xs) xs.toList := by
    rw [elementTexts, List.forall₂_map_left_iff, List.forall₂_same]
    exact fun x _ => roundTrips_element x
  have hslice : ∀ w', (fromSlice xs : Outcome DeError Witness) = .ok w' ↔ w' = w ∧ True := by
    intro w'
    rw [fromSlice_eq_ok_iff.mpr h, Outcome.ok.injEq, and_true, eq_comm]
  intro level
  exact ((RoundTrips.vector hread level).bind hslice).congr (by simp)

theorem depth_elementTexts (xs : Vec (Vec UInt8)) :
    (Json.arr (elementTexts hex xs)).depth ≤ 1 := by
  rw [Json.depth_arr_le_iff, elementTexts, List.forall_mem_map]
  exact ⟨Nat.one_pos, fun _ _ => Nat.one_pos⟩

/-- Whatever is read has been packed. -/
theorem packed_of_fromJson {level : ℕ} (h : fromJson hex level doc = .ok w) :
    ∃ xs, Packed w xs := by
  unfold fromJson at h
  split at h
  · obtain ⟨xs, -, hw⟩ := Outcome.bind_eq_ok_iff.mp h
    exact ⟨xs, fromSlice_eq_ok_iff.mp hw⟩
  · cases h

/-! ### What a witness stands for -/

/-- All that a caller sees of the witness is the byte strings: their number and contents,
what the iterator announces and yields, the encoding and the document. -/
structure StandsFor (hex : Hex.Codec) (usizeBits : ℕ) (w : Witness) (xs : Vec (Vec UInt8)) :
    Prop where
  len : w.len = xs.length
  toVec : w.toVec usizeBits = .ok (xs.toList.map Vec.toList)
  sizeHint : ∀ k ≤ xs.length, ∃ it, w.iter.advance usizeBits k = .ok it ∧
    it.sizeHint = .ok (xs.length - k, some (xs.length - k))
  exhausted : ∃ it, w.iter.advance usizeBits xs.length = .ok it ∧
    it.next usizeBits = .ok (none, it)
  encode : ∃ bytes, bytes = (VarInt.ofLength xs.length).wire ++ xs.toList.flatMap prefixed ∧
    ∀ buf, (w.encode : ByteStream Empty ℕ).run buf = .ok (bytes.length, buf ++ bytes)
  json : ∃ doc, w.toJson hex usizeBits = .ok doc ∧ doc = .arr (elementTexts hex xs) ∧
    ∀ parse text, parse text = some doc → fromStr parse (fromJson hex) text = .ok w

/-- A packed witness with room for the arithmetic stands for its list, in all the ways. -/
theorem Packed.standsFor (h : Packed w xs) (hroom : w.content.length + 4 < 2 ^ usizeBits) :
    w.StandsFor hex usizeBits xs where
  len := h.witnessElements
  toVec := h.toVec_eq hroom
  sizeHint k _ := h.advance_iter hroom k
  exhausted := h.next_of_advance hroom
  encode := ⟨_, rfl, h.encodes⟩
  json := by
    refine ⟨_, h.toJson_eq hroom, rfl, fun parse text hparse => ?_⟩
    have hdepth : (Json.arr (elementTexts hex xs)).depth ≤ recursionLimit :=
      (depth_elementTexts xs).trans (by decide)
    rw [fromStr, hparse]
    exact (h.roundTrips recursionLimit).eq_ok_iff.mpr ⟨trivial, hdepth⟩

/-- A list of less than `2 ^ 32` bytes has a packed form, which stands for this list and no
other.  On 32 bits the packed form must be within the `isize::MAX` bytes of a vector. -/
theorem exists_fromSlice_standsFor (hex : Hex.Codec) (xs : Vec (Vec UInt8))
    (hsize : (xs.toList.flatMap prefixed).length < 2 ^ 32)
    (hwidth : usizeBits = 64 ∨
      usizeBits = 32 ∧ (xs.toList.flatMap prefixed).length + xs.length * 4 < 2 ^ 31) :
    ∃ w, (fromSlice xs : Outcome Empty Witness) = .ok w ∧ w.StandsFor hex usizeBits xs ∧
      ∀ ys, (fromSlice ys : Outcome Empty Witness) = fromSlice xs → ys = xs := by
  obtain ⟨w, h⟩ := exists_packed_of_lt xs hsize
  have hroom : w.content.length + 4 < 2 ^ usizeBits := by
    have hcount := length_le_length_flatMap_prefixed xs.toList
    rw [Vec.length_toList] at hcount
    rw [h.length_content]
    rcases hwidth with rfl | ⟨rfl, hlt⟩
    · omega
    · omega
  have hw : (fromSlice xs : Outcome Empty Witness) = .ok w := fromSlice_eq_ok_iff.mpr h
  refine ⟨w, hw, h.standsFor hroom, fun ys hys => ?_⟩
  rw [hw, fromSlice_eq_ok_iff] at hys
  exact packed_injective hys h

/-- An empty element and one of two bytes. -/
def mixedStack : Vec (Vec UInt8) := ⟨[⟨[], by decide⟩, ⟨[0xAB, 0xCD], by decide⟩], by decide⟩

/-- The elements start at 0 and at 1. -/
def mixedWitness : Witness := ⟨[0, 2, 0xAB, 0xCD, 0, 0, 0, 0, 1, 0, 0, 0], 2, 4⟩

/-- A stack with an empty element, on 32 bits. -/
theorem exists_fromSlice_standsFor_mixedStack :
    (fromSlice mixedStack : Outcome Empty Witness) = .ok mixedWitness ∧
      mixedWitness.StandsFor .lowercase 32 mixedStack ∧
      ∀ ys, (fromSlice ys : Outcome Empty Witness) = .ok mixedWitness → ys = mixedStack := by
  have hslice : (fromSlice mixedStack : Outcome Empty Witness) = .ok mixedWitness := by decide
  obtain ⟨w, hw, hstands, hunique⟩ :=
    exists_fromSlice_standsFor .lowercase mixedStack (by decide) (.inr ⟨rfl, by decide⟩)
  obtain rfl := Outcome.ok.inj (hslice.symm.trans hw)
  exact ⟨hslice, hstands, fun ys hys => hunique ys (hys.trans hslice.symm)⟩

end Witness

/-! ## Inputs, outputs and transactions -/

/-- The witness was built by `from_slice`; its vector holds at most `isize::MAX` bytes. -/
def Witness.Sliced (usizeBits : ℕ) (w : Witness) : Prop :=
  (∃ xs, (Witness.fromSlice xs : Outcome Empty Witness) = .ok w) ∧
    w.content.length < 2 ^ (usizeBits - 1)

variable {hex} in
/-- A witness that was built by `from_slice` is read back from its own form. -/
theorem Witness.Sliced.roundTrips {w : Witness} (hwidth : usizeBits = 32 ∨ usizeBits = 64)
    (h : w.Sliced usizeBits) (hdoc : w.toJson hex usizeBits = .ok doc) :
    doc.depth ≤ 1 ∧ RoundTrips (Witness.fromJson hex) doc w True := by
  obtain ⟨⟨xs, hxs⟩, halloc⟩ := h
  have hpacked := Witness.fromSlice_eq_ok_iff.mp hxs
  rw [hpacked.toJson_eq (Witness.add_four_lt_two_pow hwidth halloc)] at hdoc
  obtain rfl := Outcome.ok.inj hdoc
  exact ⟨Witness.depth_elementTexts xs, hpacked.roundTrips⟩

namespace TxIn

variable (usizeBits) in
/-- `Serialize for TxIn`. -/
def toJson (input : TxIn) : Outcome Empty Json := do
  let witness ← input.witness.toJson hex usizeBits
  return .obj [("previous_output", input.previousOutput.toJson),
    ("script_sig", input.scriptSig.toJson), ("sequence", input.sequence.toJson),
    ("witness", witness)]

/-- `Deserialize for TxIn`. -/
def fromJson : Reader TxIn := fun level =>
  readStruct "TxIn"
    (((((Fields.start TxIn.mk).field
      "previous_output" (below (OutPoint.fromJson hex) level)).field
      "script_sig" (below (ScriptBuf.fromJson hex) level)).field
      "sequence" (below Sequence.fromJson level)).field
      "witness" (below (Witness.fromJson hex) level)) level

variable (usizeBits) in
/-- The spellings of an input. -/
inductive Spells (input : TxIn) : Json → Prop where
  | intro {previousOutput scriptSig witness : Json}
      (hprevious : input.previousOutput.Spells hex previousOutput)
      (hscript : SpellsBytes hex input.scriptSig.val.toList scriptSig)
      (hwitness : input.witness.toJson hex usizeBits = .ok witness) :
      Spells input (.obj [("previous_output", previousOutput), ("script_sig", scriptSig),
        ("sequence", input.sequence.toJson), ("witness", witness)])

/-- What is written is one of the spellings. -/
theorem spells_toJson {input : TxIn} (h : input.toJson hex usizeBits = .ok doc) :
    input.Spells hex usizeBits doc := by
  obtain ⟨witness, hwitness, h⟩ := Outcome.bind_eq_ok_iff.mp h
  obtain rfl := Outcome.ok.inj h
  exact .intro (OutPoint.spells_toJson hex _) .numbers hwitness

variable {hex}

/-- An input is read from every spelling of its fields. -/
theorem roundTrips {input : TxIn} (hwidth : usizeBits = 32 ∨ usizeBits = 64)
    (hbuilt : input.witness.Sliced usizeBits) (h : input.Spells hex usizeBits doc) :
    doc.depth ≤ 3 ∧ RoundTrips (fromJson hex) doc input True := by
  cases h with
  | intro hprevious hscript hwitness =>
      obtain ⟨hdepth, hread⟩ := hbuilt.roundTrips hwidth hwitness
      have hprevious' := hprevious.depth_le
      have hscript' := hscript.depth_le
      have hsequence : input.sequence.toJson.depth = 0 := rfl
      constructor
      · simp only [Json.depth_obj_cons_le_iff, Json.depth_obj_nil_le_iff]
        omega
      · exact ((((((Fields.roundTrip_start TxIn.mk).field
          "previous_output" (OutPoint.roundTrips hprevious) (by simp)).field
          "script_sig" (ScriptBuf.roundTrips hscript) (by simp)).field
          "sequence" input.sequence.roundTrips (by simp)).field
          "witness" hread (by simp)).struct "TxIn").congr (by simp)

/-- The witness of an input that was read has been packed. -/
theorem packed_of_fromJson {level : ℕ} {input : TxIn}
    (h : fromJson hex level doc = .ok input) : ∃ xs, input.witness.Packed xs := by
  obtain ⟨get, h₄, -⟩ := read_of_readStruct h
  obtain ⟨_, h₃, _, -, w, hw, rfl⟩ := Fields.read_field_eq_ok_iff.mp h₄
  obtain ⟨_, h₂, _, -, sequence, -, rfl⟩ := Fields.read_field_eq_ok_iff.mp h₃
  obtain ⟨_, h₁, _, -, scriptSig, -, rfl⟩ := Fields.read_field_eq_ok_iff.mp h₂
  obtain ⟨_, h₀, _, -, previousOutput, -, rfl⟩ := Fields.read_field_eq_ok_iff.mp h₁
  obtain rfl := Fields.read_start_eq_ok_iff.mp h₀
  obtain ⟨level', hw⟩ := exists_of_below hw
  exact Witness.packed_of_fromJson hw

end TxIn

namespace TxOut

/-- `Serialize for TxOut`. -/
def toJson (output : TxOut) : Json :=
  .obj [("value", output.value.toJson), ("script_pubkey", output.scriptPubkey.toJson)]

/-- `Deserialize for TxOut`. -/
def fromJson : Reader TxOut := fun level =>
  readStruct "TxOut"
    (((Fields.start TxOut.mk).field "value" (below Amount.fromJson level)).field
      "script_pubkey" (below (ScriptBuf.fromJson hex) level)) level

/-- The spellings of an output. -/
inductive Spells (output : TxOut) : Json → Prop where
  | intro {scriptPubkey : Json}
      (hscript : SpellsBytes hex output.scriptPubkey.val.toList scriptPubkey) :
      Spells output (.obj [("value", output.value.toJson), ("script_pubkey", scriptPubkey)])

/-- What is written is one of the spellings. -/
theorem spells_toJson (output : TxOut) : output.Spells hex output.toJson := .intro .numbers

variable {hex}

/-- The script may be an array of numbers. -/
theorem Spells.depth_le {output : TxOut} (h : output.Spells hex doc) : doc.depth ≤ 2 := by
  cases h with
  | intro hscript =>
      have hscript' := hscript.depth_le
      have hvalue : output.value.toJson.depth = 0 := rfl
      simp only [Json.depth_obj_cons_le_iff, Json.depth_obj_nil_le_iff]
      omega

/-- An output is read from both spellings of its script. -/
theorem roundTrips {output : TxOut} (h : output.Spells hex doc) :
    RoundTrips (fromJson hex) doc output True := by
  cases h with
  | intro hscript =>
      exact ((((Fields.roundTrip_start TxOut.mk).field
        "value" output.value.roundTrips (by simp)).field
        "script_pubkey" (ScriptBuf.roundTrips hscript) (by simp)).struct "TxOut").congr (by simp)

end TxOut

namespace BitcoinTransaction

variable (usizeBits) in
/-- `Serialize for BitcoinTransaction`. -/
def toJson (tx : BitcoinTransaction) : Outcome Empty Json := do
  let input ← tx.input.toList.mapM (TxIn.toJson hex usizeBits)
  return .obj [("version", tx.version.toJson), ("lock_time", tx.lockTime.toJson),
    ("input", .arr input), ("output", .arr (tx.output.toList.map TxOut.toJson))]

/-- `Deserialize for BitcoinTransaction`. -/
def fromDocument : Reader BitcoinTransaction := fun level =>
  readStruct "BitcoinTransaction"
    (((((Fields.start BitcoinTransaction.mk).field
      "version" (below Version.fromJson level)).field
      "lock_time" (below LockTime.fromJson level)).field
      "input" (below (readVector (TxIn.fromJson hex)) level)).field
      "output" (below (readVector (TxOut.fromJson hex)) level)) level

/-- `from_json`. -/
def fromJson (parse : String → Option Json) (json : String) :
    Outcome DeError BitcoinTransaction :=
  fromStr parse (fromDocument hex) json

variable (usizeBits) in
/-- The spellings of a transaction: each field in a spelling of its own. -/
inductive Spells (tx : BitcoinTransaction) : Json → Prop where
  | intro {version lockTime : Json} {input output : List Json}
      (hversion : SpellsNumber tx.version.toNat version)
      (hlockTime : SpellsNumber tx.lockTime.val.toNat lockTime)
      (hinput : List.Forall₂ (fun doc i => TxIn.Spells hex usizeBits i doc) input
        tx.input.toList)
      (houtput : List.Forall₂ (fun doc o => TxOut.Spells hex o doc) output tx.output.toList) :
      Spells tx (.obj [("version", version), ("lock_time", lockTime), ("input", .arr input),
        ("output", .arr output)])

/-- What `Serialize` writes is one of the spellings. -/
theorem spells_toJson {tx : BitcoinTransaction} (h : tx.toJson hex usizeBits = .ok doc) :
    tx.Spells hex usizeBits doc := by
  obtain ⟨input, hinput, h⟩ := Outcome.bind_eq_ok_iff.mp h
  obtain rfl := Outcome.ok.inj h
  refine .intro .number .number ?_ ?_
  · exact (Outcome.forall₂_of_mapM hinput).imp fun _ _ => TxIn.spells_toJson hex
  · rw [List.forall₂_map_left_iff, List.forall₂_same]
    exact fun output _ => TxOut.spells_toJson hex output

variable {hex} {tx : BitcoinTransaction}

/-- Every spelling of a transaction is read as the transaction. -/
theorem roundTrips (hwidth : usizeBits = 32 ∨ usizeBits = 64)
    (hbuilt : ∀ input ∈ tx.input.toList, input.witness.Sliced usizeBits)
    (h : tx.Spells hex usizeBits doc) :
    doc.depth ≤ 5 ∧ RoundTrips (fromDocument hex) doc tx True := by
  cases h with
  | @intro version lockTime input output hversion hlockTime hinput houtput =>
      have hinput' : List.Forall₂ (fun doc i => doc.depth ≤ 3 ∧
          RoundTrips (TxIn.fromJson hex) doc i True) input tx.input.toList :=
        List.forall₂_iff_zip.mpr ⟨hinput.length_eq, fun hmem =>
          TxIn.roundTrips hwidth (hbuilt _ (List.of_mem_zip hmem).2)
            (List.forall₂_zip hinput hmem)⟩
      have houtput' : List.Forall₂ (fun doc o => doc.depth ≤ 2 ∧
          RoundTrips (TxOut.fromJson hex) doc o True) output tx.output.toList :=
        houtput.imp fun _ _ h => ⟨h.depth_le, TxOut.roundTrips h⟩
      obtain ⟨hindepth, hinread⟩ := (List.forall₂_and_left _ _).mp hinput'
      obtain ⟨houtdepth, houtread⟩ := (List.forall₂_and_left _ _).mp houtput'
      constructor
      · have hversion' := hversion.depth_eq
        have hlockTime' := hlockTime.depth_eq
        have hin : (Json.arr input).depth ≤ 4 := Json.depth_arr_le_iff.mpr
          ⟨by norm_num, fun item hitem => Nat.lt_succ_of_le (hindepth item hitem)⟩
        have hout : (Json.arr output).depth ≤ 4 := Json.depth_arr_le_iff.mpr
          ⟨by norm_num, fun item hitem => (houtdepth item hitem).trans_lt (by norm_num)⟩
        simp only [Json.depth_obj_cons_le_iff, Json.depth_obj_nil_le_iff]
        omega
      · exact ((((((Fields.roundTrip_start BitcoinTransaction.mk).field
          "version" (Version.roundTrips hversion) (by simp)).field
          "lock_time" (LockTime.roundTrips hlockTime) (by simp)).field
          "input" (RoundTrips.vector hinread) (by simp)).field
          "output" (RoundTrips.vector houtread) (by simp)).struct
            "BitcoinTransaction").congr (by simp)

/-- The witnesses of a transaction that was read have been packed. -/
theorem packed_of_fromDocument {level : ℕ} (h : fromDocument hex level doc = .ok tx) :
    ∀ input ∈ tx.input.toList, ∃ xs, input.witness.Packed xs := by
  obtain ⟨get, h₄, -⟩ := read_of_readStruct h
  obtain ⟨_, h₃, _, -, output, -, rfl⟩ := Fields.read_field_eq_ok_iff.mp h₄
  obtain ⟨_, h₂, _, -, inputs, hinputs, rfl⟩ := Fields.read_field_eq_ok_iff.mp h₃
  obtain ⟨_, h₁, _, -, lockTime, -, rfl⟩ := Fields.read_field_eq_ok_iff.mp h₂
  obtain ⟨_, h₀, _, -, version, -, rfl⟩ := Fields.read_field_eq_ok_iff.mp h₁
  obtain rfl := Fields.read_start_eq_ok_iff.mp h₀
  obtain ⟨level', hinputs⟩ := exists_of_below hinputs
  exact forall_mem_of_readVector (fun _ _ _ => TxIn.packed_of_fromJson) hinputs

/-- `from_json` reads every spelling of a transaction as this transaction, with the same
bytes. -/
theorem fromJson_of_spells (hex : Hex.Codec) (parse : String → Option Json) (text : String)
    (tx : BitcoinTransaction) (doc : Json) (hwidth : usizeBits = 32 ∨ usizeBits = 64)
    (hbuilt : ∀ input ∈ tx.input.toList, input.witness.Sliced usizeBits)
    (hspells : tx.Spells hex usizeBits doc) (hparse : parse text = some doc) :
    ∃ t bytes, fromJson hex parse text = .ok t ∧ t = tx ∧ t.serialize = .ok bytes ∧
      tx.serialize = .ok bytes := by
  obtain ⟨hdepth, hread⟩ := roundTrips hwidth hbuilt hspells
  have hlimit : doc.depth ≤ recursionLimit := hdepth.trans (by decide)
  have hsized : tx.WitnessesSized := by
    intro input hinput
    obtain ⟨⟨xs, hxs⟩, -⟩ := hbuilt input hinput
    exact (Witness.fromSlice_eq_ok_iff.mp hxs).wellSized
  refine ⟨tx, tx.wire, ?_, rfl, serialize_eq hsized, serialize_eq hsized⟩
  rw [fromJson, fromStr, hparse]
  exact (hread recursionLimit).eq_ok_iff.mpr ⟨trivial, hlimit⟩

/-- Texts and numbers side by side. -/
def sampleDocument : Json :=
  .obj [("version", .str "2"), ("lock_time", .int 0),
    ("input", .arr
      [.obj [("previous_output", .obj
            [("txid", .str (Hex.Codec.lowercase.encode (List.replicate 32 1))),
              ("vout", .str "0")]),
          ("script_sig", .str ""), ("sequence", .int 4294967295),
          ("witness", .arr [.str "30"])],
        .obj [("previous_output", .obj
            [("txid", writeBytes (List.replicate 32 2)), ("vout", .int 0)]),
          ("script_sig", writeBytes []), ("sequence", .int 4294967295), ("witness", .arr [])]]),
    ("output", .arr [.obj [("value", .int 10000), ("script_pubkey", .str "51")]])]

/-- The witness of the samples is packed. -/
theorem sliced_sampleWitness : sampleWitness.Sliced 64 :=
  ⟨⟨sampleStack, fromSlice_sampleStack⟩, by decide⟩

theorem sliced_new : Witness.new.Sliced 64 := ⟨⟨⟨[], by decide⟩, rfl⟩, by decide⟩

/-- The document of the samples spells the transaction. -/
theorem spells_sampleDocument :
    (sampleTransaction (sampleInput 1 .empty sampleWitness) (sampleInput 2 .empty .new)).Spells
      .lowercase 64 sampleDocument := by
  have htwo : IsDecimal "2" 2 := isDecimal_toString 2
  have hzero : IsDecimal "0" 0 := isDecimal_toString 0
  have hstack : sampleWitness.toJson .lowercase 64 = .ok (.arr [.str "30"]) :=
    (Witness.fromSlice_eq_ok_iff.mp fromSlice_sampleStack).toJson_eq (by decide)
  have hnew : Witness.new.toJson .lowercase 64 = .ok (.arr []) :=
    Witness.packed_new.toJson_eq (by decide)
  refine .intro (.text htwo) .number (.cons ?_ (.cons ?_ .nil)) (.cons ?_ .nil)
  · exact .intro (.intro (.text (Hex.Codec.lowercase.decode_encode _)) (.text hzero))
      (.text Hex.Codec.lowercase.decode_empty) hstack
  · exact .intro (.intro .numbers .number) .numbers hnew
  · exact .intro (.text (Hex.Codec.lowercase.decode_encode [0x51]))

/-- It is read as this transaction, with the same bytes. -/
theorem fromJson_sampleDocument :
    ∃ t bytes, fromJson .lowercase (parserOf sampleDocument) sampleDocument.compact = .ok t ∧
      t = sampleTransaction (sampleInput 1 .empty sampleWitness) (sampleInput 2 .empty .new) ∧
      t.serialize = .ok bytes ∧
      (sampleTransaction (sampleInput 1 .empty sampleWitness)
        (sampleInput 2 .empty .new)).serialize = .ok bytes := by
  apply fromJson_of_spells .lowercase (parserOf sampleDocument) sampleDocument.compact _
    sampleDocument (.inr rfl) _ spells_sampleDocument (parserOf_compact _)
  intro input hinput
  rcases List.mem_pair.mp hinput with rfl | rfl
  · exact sliced_sampleWitness
  · exact sliced_new

end BitcoinTransaction

end Bitcoin
