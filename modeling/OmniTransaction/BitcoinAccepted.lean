/-
# The documents of a Bitcoin transaction

Which documents `BitcoinTransaction::from_json` takes, and for which transactions
(`BitcoinTransaction.fromJson_accepts_iff`).  The readers written by hand are looser than the
derived ones: a `txid` or `vout` may come again and then replaces the one before, numbers may
be texts, and some numbers that do not fit in a `u32` are cut down to it.
-/
import OmniTransaction.BitcoinNumbers
import OmniTransaction.DocumentOrder
import OmniTransaction.TakesExactly

open ByteOrder Rust Serde

namespace Bitcoin

variable {hex : Hex.Codec} {level : ℕ} {doc : Json}

/-! ## Version and lock time -/

/-- The number, or a text of it with blanks around it. -/
inductive Version.ReadFrom (version : Version) : Json → Prop where
  | number : ReadFrom version (.int version.toNat)
  | text {s : String} (h : IsSignedNumeral 10 (trim s) version.toNat) : ReadFrom version (.str s)

/-- A version is read from its own number. -/
theorem Version.ofNumber_eq_ok_iff {n : ℕ} {version : Version} :
    ofNumber n = .ok version ↔ version.toNat = n := by
  constructor
  · intro h
    unfold ofNumber at h
    split at h
    · obtain rfl := Outcome.ok.inj h
      rfl
    · obtain rfl := Outcome.ok.inj h
      rfl
    · cases h
  · rintro rfl
    exact ofNumber_toNat version

/-- The number as it is or in decimal digits. -/
theorem Version.takesExactly (level : ℕ) :
    TakesExactly (level + 1) (Version.fromJson level) Version.ReadFrom := by
  apply TakesExactly.of_forall
  intro doc version
  have hlt : version.toNat < 2 ^ 32 := by cases version <;> decide
  constructor
  · intro h
    unfold Version.fromJson at h
    split at h
    · obtain ⟨n, hn, h⟩ := Outcome.bind_eq_ok_iff.mp h
      obtain rfl := ofNumber_eq_ok_iff.mp h
      exact .text (parseUnsigned_eq_ok_iff.mp (Outcome.mapErr_eq_ok_iff.mp hn)).1
    · split_ifs at h with hrange
      have hn := ofNumber_eq_ok_iff.mp h
      rw [← Int.toNat_of_nonneg hrange.1, ← hn]
      exact .number
    · exact absurd h unexpected_ne_ok
  · intro h
    cases h with
    | number => exact (roundTrips .number level).eq_ok_iff.mpr ⟨trivial, Nat.zero_le _⟩
    | text h =>
      refine Outcome.bind_eq_ok_iff.mpr ⟨version.toNat, ?_, ofNumber_toNat version⟩
      exact Outcome.mapErr_eq_ok_iff.mpr (parseUnsigned_eq_ok_iff.mpr ⟨h, hlt⟩)

namespace LockTime

/-- The number or a text of it, or a number that does not fit in a `u32` and whose low 32 bits
are a time. -/
inductive ReadFrom (lockTime : LockTime) : Json → Prop where
  | number : ReadFrom lockTime (.int lockTime.val.toNat)
  | cut {n : ℕ} (hle : 2 ^ 32 ≤ n) (hlt : n < 2 ^ 64) (hcut : n % 2 ^ 32 = lockTime.val.toNat)
      (htime : LOCK_TIME_THRESHOLD ≤ lockTime.val) : ReadFrom lockTime (.int n)
  | text {s : String} (h : IsSignedNumeral 10 s lockTime.val.toNat) : ReadFrom lockTime (.str s)

/-- A number in range is the lock time itself; a larger one wraps to a time. -/
theorem ofNumber_eq_ok_iff {n : ℕ} {lockTime : LockTime} : ofNumber n = .ok lockTime ↔
    lockTime.val.toNat = n ∨
      2 ^ 32 ≤ n ∧ n % 2 ^ 32 = lockTime.val.toNat ∧ LOCK_TIME_THRESHOLD ≤ lockTime.val := by
  by_cases hn : n < 2 ^ 32
  · have hsame := ofNumber_toNat ⟨UInt32.ofNat n⟩
    rw [toNat_ofNat_eq_iff.mpr hn] at hsame
    rw [hsame, Outcome.ok.injEq]
    constructor
    · rintro rfl
      exact .inl (toNat_ofNat_eq_iff.mpr hn)
    · rintro (h | ⟨hle, -⟩)
      · rw [← h, UInt32.ofNat_toNat]
      · exact absurd hle (not_le.mpr hn)
  · have hval : ∀ {v : UInt32}, UInt32.ofNat n = v ↔ n % 2 ^ 32 = v.toNat := by
      intro v
      rw [← UInt32.toNat_inj, UInt32.toNat_ofNat']
    have hne : lockTime.val.toNat ≠ n := by
      have hlt := lockTime.val.toNat_lt
      omega
    rw [ofNumber_of_le (not_lt.mp hn), fromTime, Time.isValid]
    simp only [decide_eq_true_eq, or_iff_right hne, and_iff_right (not_lt.mp hn), ← hval]
    obtain ⟨v⟩ := lockTime
    split_ifs with hvalid
    · show Outcome.ok _ = _ ↔ _
      rw [Outcome.ok.injEq, LockTime.mk.injEq]
      exact ⟨fun h => ⟨h, h ▸ hvalid⟩, And.left⟩
    · show Outcome.panic _ = _ ↔ _
      simp only [reduceCtorEq, false_iff, not_and]
      rintro rfl
      exact hvalid

/-- A lock time is taken as a number or in decimal digits. -/
theorem takesExactly (level : ℕ) :
    TakesExactly (level + 1) (LockTime.fromJson level) ReadFrom := by
  apply TakesExactly.of_forall
  intro doc lockTime
  have hlt := lockTime.val.toNat_lt
  constructor
  · intro h
    unfold LockTime.fromJson at h
    split at h
    · split at h
      · rename_i n hn
        obtain ⟨hnumeral, hlt⟩ := parseUnsigned_eq_ok_iff.mp hn
        rcases ofNumber_eq_ok_iff.mp h with hval | ⟨hle, -⟩
        · exact .text (hval ▸ hnumeral)
        · omega
      · cases h
    · rename_i i
      split_ifs at h with hrange
      obtain ⟨n, rfl⟩ := Int.eq_ofNat_of_zero_le hrange.1
      rw [Int.toNat_natCast] at h
      rcases ofNumber_eq_ok_iff.mp h with rfl | ⟨hle, hcut, htime⟩
      · exact .number
      · exact .cut hle (by omega) hcut htime
    · exact absurd h unexpected_ne_ok
  · intro h
    cases h with
    | number => exact (roundTrips .number level).eq_ok_iff.mpr ⟨trivial, Nat.zero_le _⟩
    | @cut n hle hlt hcut htime =>
      have hrange : (0 : ℤ) ≤ n ∧ (n : ℤ) < 2 ^ 64 := by omega
      simp only [LockTime.fromJson]
      rw [if_pos hrange, Int.toNat_natCast]
      exact ofNumber_eq_ok_iff.mpr (.inr ⟨hle, hcut, htime⟩)
    | @text s h =>
      simp only [LockTime.fromJson, parseUnsigned_eq_ok_iff.mpr ⟨h, hlt⟩]
      exact ofNumber_toNat lockTime

end LockTime

/-! ## Outpoints and scripts -/

namespace OutPoint

variable (hex) in
/-- The id as a text or as an array of numbers. -/
def TxidFrom (txid : Txid) : Json → Prop := SpellsBytes hex txid.toList

/-- A number, of which the low 32 bits are taken, or a text. -/
inductive VoutFrom (vout : UInt32) : Json → Prop where
  | number {n : ℕ} (hlt : n < 2 ^ 64) (hcut : UInt32.ofNat n = vout) : VoutFrom vout (.int n)
  | text {s : String} (h : IsSignedNumeral 10 s vout.toNat) : VoutFrom vout (.str s)

/-- An id is decoded or read byte by byte. -/
theorem txidBytes_eq_ok_iff {value : Json} {b : Bytes} :
    txidBytes hex value = .ok b ↔ SpellsBytes hex b value := by
  constructor
  · intro h
    unfold txidBytes at h
    split at h
    · exact .text (Outcome.mapErr_eq_ok_iff.mp h)
    · rename_i items
      have hitems : items = b.map writeU8 := by
        have hforall := Outcome.forall₂_of_mapM h
        clear h
        induction hforall with
        | nil => rfl
        | @cons x item b items hitem _ ih =>
          rw [List.map_cons, ← ih]
          split at hitem
          · rename_i i
            split_ifs at hitem with hrange
            obtain ⟨n, rfl⟩ := Int.eq_ofNat_of_zero_le hrange.1
            have hlt : n < 256 := by omega
            obtain rfl := Outcome.ok.inj hitem
            rw [Int.toNat_natCast, writeU8, UInt8.toNat_ofNat_of_lt' hlt]
          · cases hitem
      rw [hitems]
      exact .numbers
    · cases h
  · exact txidBytes_of_spells

/-- What is read as an index, in terms of the value alone. -/
theorem voutOf_eq_ok_iff_voutFrom {value : Json} {vout : UInt32} :
    voutOf value = .ok vout ↔ VoutFrom vout value := by
  rw [voutOf_eq_ok_iff]
  constructor
  · rintro (⟨n, rfl, hlt, hcut⟩ | ⟨s, rfl, h⟩)
    · exact .number hlt hcut
    · exact .text h
  · intro h
    cases h with
    | number hlt hcut => exact .inl ⟨_, rfl, hlt, hcut⟩
    | text h => exact .inr ⟨_, rfl, h⟩

/-- An entry that may stand in the object. -/
inductive EntryFrom (hex : Hex.Codec) : String × Json → Prop where
  | txid {txid : Txid} {value : Json} (h : TxidFrom hex txid value) : EntryFrom hex ("txid", value)
  | vout {vout : UInt32} {value : Json} (h : VoutFrom vout value) : EntryFrom hex ("vout", value)

/-- The last entry of the name stands for `a`; if there is none, it is `a` from the start. -/
def Last {α : Type} (name : String) (valueFrom : α → Json → Prop) (initial : Option α) (a : α)
    (entries : List (String × Json)) : Prop :=
  match entries.reverse.lookup name with
  | some value => valueFrom a value
  | none => initial = some a

section Last

variable {α : Type} {name key : String} {valueFrom : α → Json → Prop} {initial : Option α} {a : α}
  {value : Json} {entries : List (String × Json)}

/-- The first entry counts only if no later one has the name. -/
theorem lookup_reverse_cons : ((key, value) :: entries).reverse.lookup name =
    (entries.reverse.lookup name).or (if name = key then some value else none) := by
  rw [List.reverse_cons, List.lookup_append, List.lookup_cons]
  split_ifs with hname
  · rw [beq_iff_eq.mpr hname]
  · rw [beq_eq_false_iff_ne.mpr hname]
    rfl

/-- An entry of another name changes nothing. -/
theorem last_cons_of_ne (hne : name ≠ key) :
    Last name valueFrom initial a ((key, value) :: entries) ↔
      Last name valueFrom initial a entries := by
  rw [Last, lookup_reverse_cons, if_neg hne, Option.or_none]
  rfl

/-- The first entry with the name is replaced by a later one. -/
theorem last_cons_self (hunique : ∀ b c, valueFrom b value → valueFrom c value → b = c) {b : α}
    (hb : valueFrom b value) : Last name valueFrom initial a ((name, value) :: entries) ↔
      Last name valueFrom (some b) a entries := by
  rw [Last, Last, lookup_reverse_cons, if_pos rfl]
  cases entries.reverse.lookup name with
  | some value => exact Iff.rfl
  | none =>
    show valueFrom a value ↔ some b = some a
    rw [Option.some.injEq]
    constructor
    · exact hunique b a hb
    · rintro rfl
      exact hb

end Last

/-- A value is one id at most. -/
theorem TxidFrom.unique (value : Json) (txid txid' : Txid) (h : TxidFrom hex txid value)
    (h' : TxidFrom hex txid' value) : txid = txid' := by
  have hbytes := (txidBytes_of_spells h).symm.trans (txidBytes_of_spells h')
  exact FixedBytes.toList_injective 32 (Outcome.ok.inj hbytes)

/-- A value is one index at most. -/
theorem VoutFrom.unique (value : Json) (vout vout' : UInt32) (h : VoutFrom vout value)
    (h' : VoutFrom vout' value) : vout = vout' :=
  Outcome.ok.inj ((voutOf_eq_ok_iff_voutFrom.mpr h).symm.trans (voutOf_eq_ok_iff_voutFrom.mpr h'))

/-- The visitor keeps the last value of each name; by induction along the entries. -/
theorem visitMap_eq_ok_iff {txid : Option Txid} {vout : Option UInt32}
    {entries : List (String × Json)} {outpoint : OutPoint} :
    visitMap hex level txid vout entries = .ok outpoint ↔
      (∀ e ∈ entries, e.2.depth ≤ level ∧ EntryFrom hex e) ∧
      Last "txid" (TxidFrom hex) txid outpoint.txid entries ∧
      Last "vout" VoutFrom vout outpoint.vout entries := by
  induction entries generalizing txid vout with
  | nil =>
    obtain ⟨t, v⟩ := outpoint
    cases txid <;> cases vout <;> simp [visitMap, Last, eq_comm]
  | cons e entries ih =>
    simp only [visitMap_cons_eq_ok_iff, ih, List.forall_mem_cons, txidBytes_eq_ok_iff,
      voutOf_eq_ok_iff_voutFrom]
    obtain ⟨name, value⟩ := e
    have hne : "txid" ≠ "vout" := by decide
    constructor
    · rintro (⟨hname, hdepth, t, ht, hrest, htxid, hvout⟩ |
        ⟨hname, hdepth, v, hv, hrest, htxid, hvout⟩)
      · obtain rfl : name = "txid" := hname
        exact ⟨⟨⟨hdepth, .txid ht⟩, hrest⟩, (last_cons_self (TxidFrom.unique value) ht).mpr htxid,
          (last_cons_of_ne hne.symm).mpr hvout⟩
      · obtain rfl : name = "vout" := hname
        exact ⟨⟨⟨hdepth, .vout hv⟩, hrest⟩, (last_cons_of_ne hne).mpr htxid,
          (last_cons_self (VoutFrom.unique value) hv).mpr hvout⟩
    · rintro ⟨⟨⟨hdepth, hentry⟩, hrest⟩, htxid, hvout⟩
      cases hentry with
      | @txid t value ht =>
        exact .inl ⟨rfl, hdepth, t, ht, hrest,
          (last_cons_self (TxidFrom.unique value) ht).mp htxid,
          (last_cons_of_ne hne.symm).mp hvout⟩
      | @vout v value hv =>
        exact .inr ⟨rfl, hdepth, v, hv, hrest, (last_cons_of_ne hne).mp htxid,
          (last_cons_self (VoutFrom.unique value) hv).mp hvout⟩

/-- Nothing but the two names may stand in the object, and the last one of each counts. -/
def ReadFrom (hex : Hex.Codec) (outpoint : OutPoint) (doc : Json) : Prop :=
  ∃ entries, doc = .obj entries ∧ (∀ e ∈ entries, EntryFrom hex e) ∧
    Last "txid" (TxidFrom hex) none outpoint.txid entries ∧
    Last "vout" VoutFrom none outpoint.vout entries

/-- An outpoint is taken when its last values are. -/
theorem takesExactly (level : ℕ) :
    TakesExactly (level + 1) (OutPoint.fromJson hex level) (OutPoint.ReadFrom hex) where
  sound doc outpoint h := by
    unfold OutPoint.fromJson at h
    split at h
    · cases h
    · obtain ⟨hentries, htxid, hvout⟩ := visitMap_eq_ok_iff.mp h
      exact ⟨_, rfl, fun e he => (hentries e he).2, htxid, hvout⟩
    · cases h
  complete doc outpoint hdepth := by
    rintro ⟨entries, rfl, hentries, htxid, hvout⟩
    obtain ⟨hlevel, hdepth⟩ := Json.depth_obj_le_iff.mp (Nat.lt_succ_iff.mp hdepth)
    cases level with
    | zero => exact absurd hlevel (Nat.lt_irrefl 0)
    | succ level =>
      exact visitMap_eq_ok_iff.mpr ⟨fun e he => ⟨Nat.lt_succ_iff.mp (hdepth e he), hentries e he⟩,
        htxid, hvout⟩

end OutPoint

variable (hex) in
/-- The script as a text or as an array of numbers. -/
def ScriptBuf.ReadFrom (script : ScriptBuf) : Json → Prop := SpellsBytes hex script.val.toList

/-- A script is taken in both forms. -/
theorem ScriptBuf.takesExactly (level : ℕ) :
    TakesExactly (level + 1) (ScriptBuf.fromJson hex level) (ScriptBuf.ReadFrom hex) where
  sound doc script h := by
    unfold ScriptBuf.fromJson at h
    split at h
    · rename_i s
      split_ifs at h with hempty
      · obtain rfl := Outcome.ok.inj h
        subst hempty
        exact .text hex.decode_empty
      · obtain ⟨v, hv, h⟩ := Outcome.bind_eq_ok_iff.mp (Outcome.mapErr_eq_ok_iff.mp h)
        obtain ⟨val, hval, h⟩ := Outcome.bind_eq_ok_iff.mp h
        obtain rfl := Outcome.ok.inj h
        refine .text ?_
        rw [Vec.ofList_eq_ok_iff.mp hval]
        exact Outcome.mapErr_eq_ok_iff.mp hv
    · obtain ⟨vec, hvec, h⟩ := Outcome.bind_eq_ok_iff.mp h
      obtain ⟨val, hval, h⟩ := Outcome.bind_eq_ok_iff.mp h
      obtain rfl := Outcome.ok.inj h
      rw [(readBytes_eq_ok_iff.mp hvec).1, ← Vec.ofList_eq_ok_iff.mp hval]
      exact .numbers
    · exact absurd h unexpected_ne_ok
  complete doc script hdepth h :=
    (ScriptBuf.roundTrips h level).eq_ok_iff.mpr ⟨trivial, Nat.lt_succ_iff.mp hdepth⟩

def Sequence.ReadFrom (sequence : Sequence) (doc : Json) : Prop := doc = .int sequence.val.toNat

/-- A sequence is a number below `2 ^ 32`. -/
theorem Sequence.takesExactly (level : ℕ) :
    TakesExactly (level + 1) (Sequence.fromJson level) Sequence.ReadFrom := by
  refine ((takesExactly_unsigned 32 "u32" level).map fun n => Sequence.mk (UInt32.ofNat n)).congr ?_
  rintro ⟨val⟩ doc
  constructor
  · rintro ⟨n, ⟨rfl, hlt⟩, h⟩
    obtain rfl := Sequence.mk.inj h
    rw [Sequence.ReadFrom, toNat_ofNat_eq_iff.mpr hlt]
  · rintro rfl
    exact ⟨val.toNat, ⟨rfl, val.toNat_lt⟩, by rw [UInt32.ofNat_toNat]⟩

def Amount.ReadFrom (amount : Amount) (doc : Json) : Prop := doc = .int amount.val.toNat

/-- An amount is a number below `2 ^ 64`. -/
theorem Amount.takesExactly (level : ℕ) :
    TakesExactly (level + 1) (Amount.fromJson level) Amount.ReadFrom := by
  refine ((takesExactly_unsigned 64 "u64" level).map fun n => Amount.mk (UInt64.ofNat n)).congr ?_
  rintro ⟨val⟩ doc
  constructor
  · rintro ⟨n, ⟨rfl, hlt⟩, h⟩
    obtain rfl := Amount.mk.inj h
    rw [Amount.ReadFrom, UInt64.toNat_ofNat_of_lt' hlt]
  · rintro rfl
    exact ⟨val.toNat, ⟨rfl, val.toNat_lt⟩, by rw [UInt64.ofNat_toNat]⟩

/-! ## Witnesses -/

namespace Witness

variable (hex) in
/-- An element is read from its text. -/
def ElementFrom (x : Vec UInt8) (doc : Json) : Prop :=
  ∃ s, doc = .str s ∧ hex.decode s = .ok x.toList

/-- An element is a text; no array of numbers is read here. -/
theorem takesExactly_readElement (level : ℕ) :
    TakesExactly (level + 1) (readElement hex level) (ElementFrom hex) := by
  apply TakesExactly.of_forall
  intro doc x
  rw [readElement]
  simp only [Outcome.bind_eq_ok_iff, Outcome.mapErr_eq_ok_iff, Vec.ofList_eq_ok_iff]
  constructor
  · rintro ⟨s, hs, b, hb, rfl⟩
    exact ⟨s, (takesExactly_string level).sound doc s hs, hb⟩
  · rintro ⟨s, rfl, hs⟩
    exact ⟨s, rfl, x.toList, hs, rfl⟩

variable (hex) in
/-- The witness is the packed form of the elements. -/
def ReadFrom (w : Witness) (doc : Json) : Prop :=
  ∃ xs, VectorFrom (ElementFrom hex) xs doc ∧ Packed w xs

/-- A witness is taken as an array of its elements. -/
theorem takesExactly (level : ℕ) :
    TakesExactly (level + 1) (Witness.fromJson hex level) (ReadFrom hex) where
  sound doc w h := by
    unfold Witness.fromJson at h
    split at h
    · obtain ⟨xs, hxs, h⟩ := Outcome.bind_eq_ok_iff.mp h
      exact ⟨xs, (TakesExactly.vector takesExactly_readElement level).sound _ xs hxs,
        fromSlice_eq_ok_iff.mp h⟩
    · cases h
  complete doc w hdepth := by
    rintro ⟨xs, hxs, hpacked⟩
    have hread := (TakesExactly.vector takesExactly_readElement level).complete doc xs hdepth hxs
    obtain ⟨items, rfl, -⟩ := hxs
    exact Outcome.bind_eq_ok_iff.mpr ⟨xs, hread, fromSlice_eq_ok_iff.mpr hpacked⟩

end Witness

/-! ## Transactions -/

variable (hex) in
/-- The four fields of an input. -/
def TxIn.ReadFrom (input : TxIn) : Json → Prop :=
  StructFrom ["previous_output", "script_sig", "sequence", "witness"] fun value =>
    Present (OutPoint.ReadFrom hex) input.previousOutput (value "previous_output") ∧
    Present (ScriptBuf.ReadFrom hex) input.scriptSig (value "script_sig") ∧
    Present Sequence.ReadFrom input.sequence (value "sequence") ∧
    Present (Witness.ReadFrom hex) input.witness (value "witness")

/-- All four fields must be there. -/
theorem TxIn.takesExactly (level : ℕ) :
    TakesExactly (level + 1) (TxIn.fromJson hex level) (TxIn.ReadFrom hex) :=
  (((((Fields.takesExactly_start TxIn.mk).field
    "previous_output" (.below OutPoint.takesExactly level)).field
    "script_sig" (.below ScriptBuf.takesExactly level)).field
    "sequence" (.below Sequence.takesExactly level)).field
    "witness" (.below Witness.takesExactly level)).structFrom (by rfl) (by decide) (by
      rintro ⟨previousOutput, scriptSig, sequence, witness⟩ values
      simp [and_assoc]) _

variable (hex) in
/-- The two fields of an output. -/
def TxOut.ReadFrom (output : TxOut) : Json → Prop :=
  StructFrom ["value", "script_pubkey"] fun value =>
    Present Amount.ReadFrom output.value (value "value") ∧
    Present (ScriptBuf.ReadFrom hex) output.scriptPubkey (value "script_pubkey")

theorem TxOut.takesExactly (level : ℕ) :
    TakesExactly (level + 1) (TxOut.fromJson hex level) (TxOut.ReadFrom hex) :=
  (((Fields.takesExactly_start TxOut.mk).field
    "value" (.below Amount.takesExactly level)).field
    "script_pubkey" (.below ScriptBuf.takesExactly level)).structFrom (by rfl) (by decide) (by
      rintro ⟨value, scriptPubkey⟩ values
      simp) _

namespace BitcoinTransaction

variable (hex) in
/-- The four fields of a transaction. -/
def ReadFrom (tx : BitcoinTransaction) : Json → Prop :=
  StructFrom ["version", "lock_time", "input", "output"] fun value =>
    Present Version.ReadFrom tx.version (value "version") ∧
    Present LockTime.ReadFrom tx.lockTime (value "lock_time") ∧
    Present (VectorFrom (TxIn.ReadFrom hex)) tx.input (value "input") ∧
    Present (VectorFrom (TxOut.ReadFrom hex)) tx.output (value "output")

/-- A transaction is taken as an object or an array of its four fields. -/
theorem takesExactly (level : ℕ) :
    TakesExactly (level + 1) (fromDocument hex level) (ReadFrom hex) :=
  (((((Fields.takesExactly_start BitcoinTransaction.mk).field
    "version" (.below Version.takesExactly level)).field
    "lock_time" (.below LockTime.takesExactly level)).field
    "input" (.below (TakesExactly.vector TxIn.takesExactly) level)).field
    "output" (.below (TakesExactly.vector TxOut.takesExactly) level)).structFrom (by rfl)
      (by decide) (by
        rintro ⟨version, lockTime, input, output⟩ values
        simp [and_assoc]) _

/-- What `from_json` takes. -/
theorem fromJson_accepts_iff (hex : Hex.Codec) (parse : String → Option Json) (text : String)
    (tx : BitcoinTransaction) :
    (fromJson hex parse text = .ok tx → ∃ doc, parse text = some doc ∧ tx.ReadFrom hex doc) ∧
    ∀ doc, parse text = some doc → doc.depth ≤ recursionLimit →
      (fromJson hex parse text = .ok tx ↔ tx.ReadFrom hex doc) :=
  (takesExactly recursionLimit).fromStr parse text tx

/-- A lock time that is cut down to a `u32`, and an outpoint whose index is given twice. -/
def looseDocument : Json :=
  .obj [("lock_time", .int 4794967296), ("version", .str " +2 "),
    ("input", .arr [.arr
      [.obj [("vout", .str "7"), ("txid", writeBytes (List.replicate 32 1)),
          ("vout", .int 4294967301)],
        .str "", .int 4294967295, .arr []]]),
    ("comment", .float "1.5"), ("output", .arr [])]

/-- What is read from it. -/
def looseTransaction : BitcoinTransaction where
  version := .Two
  lockTime := ⟨500000000⟩
  input := ⟨[⟨⟨List.Vector.replicate 32 1, 5⟩, ⟨.empty⟩, ⟨4294967295⟩, .new⟩], by decide⟩
  output := .empty

/-- Every field in a form that the crate does not write. -/
theorem readFrom_looseDocument : looseTransaction.ReadFrom .lowercase looseDocument := by
  have hversion : IsSignedNumeral 10 (trim " +2 ") 2 := .inr ⟨"2", by decide, by decide, by decide⟩
  have hseven : OutPoint.VoutFrom 7 (.str "7") := .text (.inl ⟨by decide, by decide⟩)
  have hfive : OutPoint.VoutFrom 5 (.int 4294967301) := .number (by decide) (by decide)
  have htxid : OutPoint.TxidFrom .lowercase (List.Vector.replicate 32 1)
      (writeBytes (List.replicate 32 1)) := .numbers
  have hinput : VectorFrom (TxIn.ReadFrom .lowercase) looseTransaction.input
      (.arr [.arr [.obj [("vout", .str "7"), ("txid", writeBytes (List.replicate 32 1)),
        ("vout", .int 4294967301)], .str "", .int 4294967295, .arr []]]) := by
    refine ⟨_, rfl, .cons ⟨rfl, ⟨_, rfl, _, rfl, ?_, htxid, hfive⟩, ⟨_, rfl, ?_⟩, ⟨_, rfl, rfl⟩,
      ⟨_, rfl, .empty, ⟨_, rfl, .nil⟩, Witness.packed_new⟩⟩ .nil⟩
    · simp only [List.forall_mem_cons]
      exact ⟨.vout hseven, .txid htxid, .vout hfive, List.forall_mem_nil _⟩
    · exact .text Hex.Codec.lowercase.decode_empty
  exact ⟨by decide, ⟨_, rfl, .text hversion⟩,
    ⟨_, rfl, .cut (by decide) (by decide) (by decide) (by decide)⟩, ⟨_, rfl, hinput⟩,
    ⟨_, rfl, _, rfl, .nil⟩⟩

theorem depth_looseDocument_le : looseDocument.depth ≤ recursionLimit := by
  decide

theorem fromJson_accepts_iff_looseDocument :
    fromJson .lowercase (parserOf looseDocument) looseDocument.compact = .ok looseTransaction :=
  ((fromJson_accepts_iff .lowercase (parserOf looseDocument) looseDocument.compact
    looseTransaction).2 looseDocument (parserOf_compact _) depth_looseDocument_le).mpr
      readFrom_looseDocument

end BitcoinTransaction

end Bitcoin
