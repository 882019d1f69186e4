/-
# Numbers in the JSON of Bitcoin transactions

The output index of an outpoint and the lock time of a transaction may be written as a
number or as a text.  The text is parsed as a `u32`, the number as a `u64` that is then
cast.  So both spellings agree below `2 ^ 32`, and from there on a text is an error and a
number is taken modulo `2 ^ 32` (`OutPoint.vout_exact_iff`, `LockTime.exact_iff`).
-/
import Mathlib.Data.List.Permutation
import OmniTransaction.BitcoinJson
import OmniTransaction.Numerals

open ByteOrder Rust Serde

namespace Bitcoin

/-- The cast of a number to a `u32` keeps it exactly when it fits. -/
theorem toNat_ofNat_eq_iff {n : ℕ} : (UInt32.ofNat n).toNat = n ↔ n < 2 ^ 32 := by
  rw [UInt32.toNat_ofNat']
  constructor
  · intro h
    rw [← h]
    exact Nat.mod_lt _ (Nat.two_pow_pos 32)
  · exact Nat.mod_eq_of_lt

/-! ## Output indices -/

namespace OutPoint

/-- The integer that a value writes: a number, or a text in decimal digits with a plus sign
or without. -/
inductive WritesInteger (n : ℤ) : Json → Prop where
  | number : WritesInteger n (.int n)
  | text {s : String} {m : ℕ} (h : IsSignedNumeral 10 s m) (hn : n = m) :
      WritesInteger n (.str s)

/-- The value is a number that a `u32` cannot hold. -/
def Wraps (value : Json) : Prop := ∃ n : ℤ, value = .int n ∧ 2 ^ 32 ≤ n ∧ n < 2 ^ 64

theorem voutOf_eq_ok_iff {value : Json} {vout : UInt32} :
    voutOf value = .ok vout ↔
      (∃ n : ℕ, value = .int n ∧ n < 2 ^ 64 ∧ UInt32.ofNat n = vout) ∨
      ∃ s, value = .str s ∧ IsSignedNumeral 10 s vout.toNat := by
  constructor
  · intro h
    unfold voutOf at h
    split at h
    · rename_i num
      split_ifs at h with hrange
      refine .inl ⟨num.toNat, ?_, by omega, Outcome.ok.inj h⟩
      rw [Int.toNat_of_nonneg hrange.1]
    · cases h
    · rename_i s
      split at h
      · rename_i n hn
        obtain ⟨hs, hlt⟩ := parseUnsigned_eq_ok_iff.mp hn
        obtain rfl := Outcome.ok.inj h
        exact .inr ⟨s, rfl, by rwa [toNat_ofNat_eq_iff.mpr hlt]⟩
      · cases h
    · cases h
  · rintro (⟨n, rfl, hlt, rfl⟩ | ⟨s, rfl, hs⟩)
    · have hrange : (0 : ℤ) ≤ n ∧ (n : ℤ) < 2 ^ 64 := by omega
      rw [voutOf, if_pos hrange, Int.toNat_natCast]
    · have hparse : parseUnsigned 32 s = .ok vout.toNat :=
        parseUnsigned_eq_ok_iff.mpr ⟨hs, vout.toNat_lt⟩
      rw [voutOf, hparse]
      exact congrArg Outcome.ok UInt32.ofNat_toNat

/-- An accepted value writes one integer, which is kept unless it is a number that wraps. -/
theorem writesInteger_of_voutOf {value : Json} {vout : UInt32} (h : voutOf value = .ok vout) :
    ∃ n : ℤ, (∀ m, WritesInteger m value ↔ m = n) ∧ ((vout.toNat : ℤ) = n ↔ ¬ Wraps value) := by
  rcases voutOf_eq_ok_iff.mp h with ⟨n, rfl, hlt, rfl⟩ | ⟨s, rfl, hs⟩
  · refine ⟨n, fun m => ⟨?_, ?_⟩, ?_⟩
    · rintro ⟨⟩
      rfl
    · rintro rfl
      exact .number
    · rw [Nat.cast_inj, toNat_ofNat_eq_iff, Wraps, ← not_le]
      refine not_congr ⟨fun hle => ⟨n, rfl, by omega, by omega⟩, ?_⟩
      rintro ⟨m, hm, hle, -⟩
      obtain rfl := Json.int.inj hm
      omega
  · refine ⟨vout.toNat, fun m => ⟨?_, ?_⟩, ?_⟩
    · rintro (_ | ⟨hm, rfl⟩)
      rw [IsSignedNumeral.unique hm hs]
    · rintro rfl
      exact .text hs rfl
    · refine iff_of_true rfl ?_
      rintro ⟨n, hn, -⟩
      cases hn

/-- The `vout` is read from the last entry of this name. -/
theorem voutOf_of_visitMap {hex : Hex.Codec} {level : ℕ} {txid : Option Txid}
    {vout : Option UInt32} {entries : List (String × Json)} {o : OutPoint}
    (h : visitMap hex level txid vout entries = .ok o) :
    (∃ value, entries.reverse.lookup "vout" = some value ∧ voutOf value = .ok o.vout) ∨
      entries.reverse.lookup "vout" = none ∧ vout = some o.vout := by
  induction entries generalizing txid vout with
  | nil =>
      unfold visitMap at h
      split at h
      · cases h
      · cases h
      · obtain rfl := Outcome.ok.inj h
        exact .inr ⟨rfl, rfl⟩
  | cons e entries ih =>
      obtain ⟨key, value⟩ := e
      rw [List.reverse_cons, List.lookup_append]
      unfold visitMap at h
      split_ifs at h with htxid hvout
      · obtain ⟨txidValue, -, h⟩ := Outcome.bind_eq_ok_iff.mp h
        obtain ⟨bytes, -, h⟩ := Outcome.bind_eq_ok_iff.mp h
        have hother : [(key, value)].lookup "vout" = none := by rw [htxid]; rfl
        rw [hother, Option.or_none]
        split at h
        · exact ih h
        · cases h
      · obtain ⟨voutValue, hvalue, h⟩ := Outcome.bind_eq_ok_iff.mp h
        obtain ⟨n, hn, h⟩ := Outcome.bind_eq_ok_iff.mp h
        have hthis : [(key, value)].lookup "vout" = some value := by rw [hvout]; rfl
        rw [hthis]
        rcases ih h with ⟨later, hlater, hread⟩ | ⟨hnone, hsome⟩
        · exact .inl ⟨later, by rw [hlater, Option.some_or], hread⟩
        · refine .inl ⟨value, by rw [hnone, Option.none_or], ?_⟩
          unfold readValue at hvalue
          split_ifs at hvalue
          obtain rfl := Outcome.ok.inj hvalue
          rwa [← Option.some.inj hsome]

/-- An outpoint with its two keys in either order. -/
theorem fromJson_eq_bind {hex : Hex.Codec} {level : ℕ} {txid : Txid} {txidDoc voutDoc : Json}
    {entries : List (String × Json)} (htxid : SpellsBytes hex txid.toList txidDoc)
    (hentries : entries.Perm [("txid", txidDoc), ("vout", voutDoc)])
    (hdepth : (Json.obj entries).depth ≤ level) :
    fromJson hex level (.obj entries) = voutOf voutDoc >>= fun n => .ok ⟨txid, n⟩ := by
  obtain ⟨hlevel, hdepth⟩ := Json.depth_obj_le_iff.mp hdepth
  obtain ⟨level, rfl⟩ := Nat.exists_eq_add_one_of_ne_zero hlevel.ne'
  have hvalue (e : String × Json) (he : e ∈ [("txid", txidDoc), ("vout", voutDoc)]) :
      readValue level e.2 = .ok e.2 :=
    if_pos (Nat.le_of_lt_succ (hdepth e (hentries.mem_iff.mpr he)))
  have htxidValue : readValue level txidDoc = .ok txidDoc := hvalue ("txid", txidDoc) (by simp)
  have hvoutValue : readValue level voutDoc = .ok voutDoc := hvalue ("vout", voutDoc) (by simp)
  have hbytes := txidBytes_of_spells htxid
  show visitMap hex level none none entries = _
  rcases List.perm_pair.mp hentries with rfl | rfl
  · rw [visitMap, if_pos rfl, htxidValue, Outcome.ok_bind, hbytes, Outcome.ok_bind, toArray_toList]
    dsimp only
    rw [visitMap, if_neg (by decide), if_pos rfl, hvoutValue, Outcome.ok_bind]
    rfl
  · rw [visitMap, if_neg (by decide), if_pos rfl, hvoutValue, Outcome.ok_bind]
    refine bind_congr fun n => ?_
    rw [visitMap, if_pos rfl, htxidValue, Outcome.ok_bind, hbytes, Outcome.ok_bind, toArray_toList]
    rfl

/-- Written as a number and as a text, in either order of the keys, the integer is read as
it is when a `u32` can hold it, and refused otherwise. -/
def ReadsExactly (hex : Hex.Codec) (n : ℤ) : Prop :=
  ∀ (voutDoc : Json), voutDoc = .int n ∨ voutDoc = .str (toString n) →
  ∀ (txid : Txid) (txidDoc : Json), SpellsBytes hex txid.toList txidDoc →
  ∀ (entries : List (String × Json)), entries.Perm [("txid", txidDoc), ("vout", voutDoc)] →
  ∀ level, (Json.obj entries).depth ≤ level →
    (0 ≤ n ∧ n < 2 ^ 32 →
      fromJson hex level (.obj entries) = .ok ⟨txid, UInt32.ofNat n.toNat⟩) ∧
    (¬ (0 ≤ n ∧ n < 2 ^ 32) → ∃ e, fromJson hex level (.obj entries) = .err e)

/-- A text is read as it should be. -/
theorem voutOf_toString (n : ℤ) :
    (0 ≤ n ∧ n < 2 ^ 32 → voutOf (.str (toString n)) = .ok (UInt32.ofNat n.toNat)) ∧
    (¬ (0 ≤ n ∧ n < 2 ^ 32) → ∃ e, voutOf (.str (toString n)) = .err e) := by
  constructor
  · rintro ⟨hn, hlt⟩
    have hparse : parseUnsigned 32 (toString n) = .ok n.toNat :=
      parseUnsigned_toString_eq_ok_iff.mpr ⟨(Int.toNat_of_nonneg hn).symm, by omega⟩
    rw [voutOf, hparse]
  · intro hout
    refine ⟨.custom "Invalid vout string", ?_⟩
    rw [voutOf]
    split
    · rename_i m hm
      obtain ⟨hnm, hlt⟩ := parseUnsigned_toString_eq_ok_iff.mp hm
      exact absurd ⟨by omega, by omega⟩ hout
    · rfl

/-- So is a number, unless it wraps. -/
theorem voutOf_int {n : ℤ} (hn : ¬ (2 ^ 32 ≤ n ∧ n < 2 ^ 64)) :
    (0 ≤ n ∧ n < 2 ^ 32 → voutOf (.int n) = .ok (UInt32.ofNat n.toNat)) ∧
    (¬ (0 ≤ n ∧ n < 2 ^ 32) → ∃ e, voutOf (.int n) = .err e) := by
  constructor
  · rintro ⟨hn, hlt⟩
    exact if_pos ⟨hn, by omega⟩
  · intro hout
    exact ⟨.custom "Invalid vout number", if_neg (by omega)⟩

theorem readsExactly_iff {hex : Hex.Codec} {n : ℤ} :
    ReadsExactly hex n ↔ ¬ (2 ^ 32 ≤ n ∧ n < 2 ^ 64) := by
  constructor
  · rintro h ⟨hle, hlt⟩
    -- a number in this range is accepted
    let txid : Txid := List.Vector.replicate 32 0
    have hdepth : (Json.obj [("txid", writeBytes txid.toList), ("vout", .int n)]).depth ≤ 2 := by
      simp only [Json.depth_obj_cons_le_iff, Json.depth_obj_nil_le_iff]
      exact ⟨Nat.lt_succ_of_le (depth_writeBytes_le_iff.mpr Nat.one_pos), Nat.two_pos, Nat.two_pos⟩
    obtain ⟨e, he⟩ := (h (.int n) (.inl rfl) txid _ .numbers _ (.refl _) 2 hdepth).2 (by omega)
    have hvout : voutOf (.int n) = .ok (UInt32.ofNat n.toNat) := if_pos ⟨by omega, hlt⟩
    rw [fromJson_eq_bind .numbers (.refl _) hdepth, hvout] at he
    cases he
  · intro hn voutDoc hvoutDoc txid txidDoc htxid entries hentries level hdepth
    rw [fromJson_eq_bind htxid hentries hdepth]
    have hvout : (0 ≤ n ∧ n < 2 ^ 32 → voutOf voutDoc = .ok (UInt32.ofNat n.toNat)) ∧
        (¬ (0 ≤ n ∧ n < 2 ^ 32) → ∃ e, voutOf voutDoc = .err e) := by
      rcases hvoutDoc with rfl | rfl
      · exact voutOf_int hn
      · exact voutOf_toString n
    constructor
    · intro hin
      rw [hvout.1 hin, Outcome.ok_bind]
    · intro hout
      obtain ⟨e, he⟩ := hvout.2 hout
      exact ⟨e, by rw [he, Outcome.err_bind]⟩

/-- An accepted outpoint has the output index that the document writes, and an integer is
read as it is in both spellings, exactly when it is not a number that wraps. -/
theorem vout_exact_iff (hex : Hex.Codec) :
    (∀ level entries o, fromJson hex level (.obj entries) = .ok o →
      ∃ n : ℤ, (∀ m, WritesInteger m (Json.index "vout" (.obj entries)) ↔ m = n) ∧
        ((o.vout.toNat : ℤ) = n ↔ ¬ Wraps (Json.index "vout" (.obj entries)))) ∧
    ∀ n : ℤ, ReadsExactly hex n ↔ ¬ (2 ^ 32 ≤ n ∧ n < 2 ^ 64) := by
  refine ⟨fun level entries o h => ?_, fun n => readsExactly_iff⟩
  cases level with
  | zero => cases h
  | succ level =>
      rcases voutOf_of_visitMap h with ⟨value, hvalue, hread⟩ | ⟨-, hnone⟩
      · have hindex : Json.index "vout" (.obj entries) = value := by
          rw [Json.index, hvalue, Option.getD_some]
        rw [hindex]
        exact writesInteger_of_voutOf hread
      · cases hnone

/-- The output index `2 ^ 32` is read as `0`. -/
theorem not_readsExactly_wrapped_vout :
    (∃ o, fromJson .lowercase recursionLimit (.obj [("txid", writeBytes (List.replicate 32 1)),
        ("vout", .int (2 ^ 32))]) = .ok o ∧ o.vout = 0) ∧
      ¬ ReadsExactly .lowercase (2 ^ 32) := by
  refine ⟨⟨⟨List.Vector.replicate 32 1, 0⟩, rfl, rfl⟩, ?_⟩
  rw [readsExactly_iff]
  decide

end OutPoint

/-! ## Lock times -/

namespace LockTime

/-- From the threshold on a number is cast and then taken for a block time. -/
theorem ofNumber_of_le {n : ℕ} (hn : 2 ^ 32 ≤ n) :
    ofNumber n = (fromTime (UInt32.ofNat n)).unwrap String.quote := by
  have hthreshold : LOCK_TIME_THRESHOLD.toNat < 2 ^ 32 := LOCK_TIME_THRESHOLD.toNat_lt
  exact if_neg (by omega)

/-- A number that wraps is no error. -/
theorem ofNumber_ne_err {n : ℕ} (hn : 2 ^ 32 ≤ n) (e : DeError) : ofNumber n ≠ .err e := by
  rw [ofNumber_of_le hn, fromTime]
  split_ifs
  · exact fun h => by cases h
  · exact fun h => by cases h

/-- The number `n` is read as it is when a `u32` can hold it, and is an error otherwise. -/
def ReadsNumber (n : ℕ) (spelled : Json) : Prop :=
  ∀ level, if n < 2 ^ 32 then fromJson level spelled = .ok ⟨UInt32.ofNat n⟩
    else ∃ e, fromJson level spelled = .err e

theorem readsNumber_iff {n : ℕ} {spelled : Json} (hn : n < 2 ^ 64) (h : SpellsNumber n spelled) :
    ReadsNumber n spelled ↔ n < 2 ^ 32 ∨ ∃ s, spelled = .str s := by
  by_cases hlt : n < 2 ^ 32
  · -- both spellings agree with the lock time that they spell
    refine iff_of_true (fun level => ?_) (.inl hlt)
    rw [if_pos hlt]
    have hspells : SpellsNumber (LockTime.mk (UInt32.ofNat n)).val.toNat spelled := by
      rwa [toNat_ofNat_eq_iff.mpr hlt]
    have hdepth : spelled.depth ≤ level := h.depth_eq ▸ Nat.zero_le level
    exact ((roundTrips hspells) level).eq_ok_iff.mpr ⟨trivial, hdepth⟩
  · rw [or_iff_right hlt]
    cases h with
    | number =>
        refine iff_of_false (fun h => ?_) (by simp)
        obtain ⟨e, he⟩ := (if_neg hlt).mp (h 0)
        have hrange : (0 : ℤ) ≤ n ∧ (n : ℤ) < 2 ^ 64 := by omega
        simp only [fromJson] at he
        rw [if_pos hrange, Int.toNat_natCast] at he
        exact ofNumber_ne_err (by omega) e he
    | @text s h =>
        refine iff_of_true (fun level => ?_) ⟨s, rfl⟩
        rw [if_neg hlt]
        have hn : 2 ^ 32 ≤ n := by omega
        obtain ⟨e, he⟩ := h.exists_parseUnsigned_eq_err hn
        exact ⟨.custom "Invalid lock time: expected a number", by simp only [fromJson, he]⟩

end LockTime

namespace BitcoinTransaction

variable {hex : Hex.Codec} {level : ℕ} {before after : List (String × Json)}
  {other spelled : Json} {tx : BitcoinTransaction}

/-- Another lock time changes the transaction in this field only. -/
theorem fromDocument_replace {lockTime : LockTime}
    (h : fromDocument hex level (.obj (before ++ ("lock_time", other) :: after)) = .ok tx)
    (hread : ∀ level, LockTime.fromJson level spelled = .ok lockTime) :
    fromDocument hex level (.obj (before ++ ("lock_time", spelled) :: after)) =
      .ok { tx with lockTime := lockTime } := by
  cases level with
  | zero => cases h
  | succ level =>
      have hmap := Fields.visitMap_eq_ok_iff.mp h
      refine Fields.visitMap_replace h ?_
      obtain ⟨_, h₃, output, houtput, o, ho, rfl⟩ := Fields.read_field_eq_ok_iff.mp hmap.2
      obtain ⟨_, h₂, input, hinput, i, hi, rfl⟩ := Fields.read_field_eq_ok_iff.mp h₃
      obtain ⟨_, h₁, _, -, _, -, rfl⟩ := Fields.read_field_eq_ok_iff.mp h₂
      obtain ⟨_, h₀, version, hversion, v, hv, rfl⟩ := Fields.read_field_eq_ok_iff.mp h₁
      obtain rfl := Fields.read_start_eq_ok_iff.mp h₀
      have hsame (name : String) (value : Json) (hname : name ≠ "lock_time")
          (hvalue : (.ok ((before ++ ("lock_time", other) :: after).lookup name) :
            Outcome DeError (Option Json)) = .ok (some value)) :
          (.ok ((before ++ ("lock_time", spelled) :: after).lookup name) :
            Outcome DeError (Option Json)) = .ok (some value) := by
        rwa [Fields.lookup_replace other spelled hname]
      have hnodup := hmap.1
      rw [Fields.known_replace other spelled] at hnodup
      have hlockTime : (before ++ ("lock_time", spelled) :: after).lookup "lock_time" =
          some spelled :=
        Fields.lookup_of_mem hnodup (e := ("lock_time", spelled)) (by simp)
          (by simp [Fields.names, Fields.field, Fields.fieldOr])
      rw [Fields.read_field_eq_ok_iff]
      refine ⟨_, Fields.read_field_eq_ok_iff.mpr ⟨_, Fields.read_field_eq_ok_iff.mpr ⟨_,
        Fields.read_field_eq_ok_iff.mpr ⟨_, Fields.read_start_eq_ok_iff.mpr rfl, version,
          hsame "version" version (by decide) hversion, v, hv, rfl⟩,
        spelled, congrArg Outcome.ok hlockTime, lockTime, hread level, rfl⟩,
        input, hsame "input" input (by decide) hinput, i, hi, rfl⟩,
        output, hsame "output" output (by decide) houtput, o, ho, rfl⟩

/-- A lock time that is an error is an error of the transaction. -/
theorem fromDocument_eq_err
    (h : fromDocument hex level (.obj (before ++ ("lock_time", other) :: after)) = .ok tx)
    (hread : ∀ level, ∃ e, LockTime.fromJson level spelled = .err e) :
    ∃ e, fromDocument hex level (.obj (before ++ ("lock_time", spelled) :: after)) = .err e := by
  cases level with
  | zero => cases h
  | succ level =>
      obtain ⟨e, he⟩ := hread level
      have hfield : (below LockTime.fromJson (level + 1) spelled >>= fun _ =>
          (pure () : Outcome DeError Unit)) = .err e := by
        show (LockTime.fromJson level spelled >>= fun _ => pure ()) = _
        rw [he, Outcome.err_bind]
      exact ⟨e, Fields.visitMap_eq_err h rfl hfield⟩

end BitcoinTransaction

namespace LockTime

/-- The number `n`, spelled like this, is read exactly: as a lock time by itself, and as the
lock time of a transaction in every document that is accepted with another one. -/
structure ReadsExactly (hex : Hex.Codec) (n : ℕ) (spelled : Json) : Prop where
  lockTime : ReadsNumber n spelled
  transaction : ∀ (parse : String → Option Json) (text : String)
    (before after : List (String × Json)) (other : Json) (tx : BitcoinTransaction),
    BitcoinTransaction.fromDocument hex recursionLimit
      (.obj (before ++ ("lock_time", other) :: after)) = .ok tx →
    parse text = some (.obj (before ++ ("lock_time", spelled) :: after)) →
    if n < 2 ^ 32 then BitcoinTransaction.fromJson hex parse text
        = .ok { tx with lockTime := ⟨UInt32.ofNat n⟩ }
      else ∃ e, BitcoinTransaction.fromJson hex parse text = .err e

/-- A number below `2 ^ 64` is read exactly when it fits or is written as a text. -/
theorem exact_iff (hex : Hex.Codec) (n : ℕ) (spelled : Json) (hn : n < 2 ^ 64)
    (hspelled : SpellsNumber n spelled) :
    ReadsExactly hex n spelled ↔ n < 2 ^ 32 ∨ ∃ s, spelled = .str s := by
  rw [← readsNumber_iff hn hspelled]
  constructor
  · exact fun h => h.lockTime
  · intro h
    refine ⟨h, fun parse text before after other tx htx hparse => ?_⟩
    rw [BitcoinTransaction.fromJson, fromStr, hparse]
    unfold ReadsNumber at h
    split_ifs at h ⊢ with hlt
    · exact BitcoinTransaction.fromDocument_replace htx h
    · exact BitcoinTransaction.fromDocument_eq_err htx h

/-- The largest number is read exactly as a text, and only so. -/
theorem exact_iff_largest :
    ReadsExactly .lowercase (2 ^ 64 - 1) (.str (toString (2 ^ 64 - 1))) ∧
      ¬ ReadsExactly .lowercase (2 ^ 64 - 1) (.int (2 ^ 64 - 1)) := by
  constructor
  · exact (exact_iff .lowercase (2 ^ 64 - 1) _ (by decide)
      (.text (isDecimal_toString (2 ^ 64 - 1)))).mpr (.inr ⟨_, rfl⟩)
  · intro h
    rcases (exact_iff .lowercase (2 ^ 64 - 1) _ (by decide) .number).mp h with hlt | ⟨s, hs⟩
    · exact absurd hlt (by decide)
    · cases hs

/-- A number from `2 ^ 32` on panics or is taken for another lock time. -/
theorem not_readsExactly_wrapped_lockTime :
    fromJson 0 (.int (2 ^ 32)) = .panic ("called `Result::unwrap()` on an `Err` value: " ++
        "Invalid timestamp: 0".quote) ∧
      fromJson 0 (.int (2 ^ 32 + 500000000)) = .ok ⟨500000000⟩ ∧
      ¬ ReadsExactly .lowercase (2 ^ 32) (.int (2 ^ 32)) := by
  refine ⟨rfl, rfl, fun h => ?_⟩
  have hnumber := (readsNumber_iff (by decide) .number).mp h.lockTime
  simp at hnumber

end LockTime

end Bitcoin
