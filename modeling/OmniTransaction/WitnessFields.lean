/-
# The fields of a witness

The three fields of a `Witness` say the same thing several times: the lengths in front of the
elements, the offsets behind them, the number of elements and the length of their part.
`Witness.fieldsAgree` computes from the fields whether they belong together: it goes from
element to element by the lengths alone and compares the places with the offsets.  They do
exactly when some list of byte strings is packed to them (`Witness.fieldsAgree_iff`).

In Borsh bytes the fields stand at places that the lengths in front of them determine
(`Witness.layout`, `TxIn.layout`, `BitcoinTransaction.layout`).
-/
import OmniTransaction.BitcoinBorsh
import OmniTransaction.BorshLayouts

open ByteOrder Rust Borsh Layout

namespace Bitcoin

variable {usizeBits : ℕ}

namespace Witness

/-! ## Places of elements -/

/-- The places, counted from `pos`, at which `count` elements start that are all of `b`: each
is a length in its shortest form and as many bytes. -/
def elementStarts : ℕ → ℕ → Bytes → Option (List ℕ)
  | 0, _, b => if b = [] then some [] else none
  | count + 1, pos, b =>
    match VarInt.decode.run b with
    | .ok (len, data) =>
      if len.val.toNat ≤ data.length then do
        let places ← elementStarts count (pos + len.size + len.val.toNat)
          (data.drop len.val.toNat)
        return pos :: places
      else none
    | _ => none

/-- The elements fill the content up to the index area, and the index area holds the places at
which they start. -/
def fieldsAgree (w : Witness) : Bool :=
  match elementStarts w.witnessElements 0 (w.content.take w.indicesStart) with
  | some places =>
    decide (w.indicesStart ≤ w.content.length) && places.all (fun place => place < 2 ^ 32) &&
      w.content.drop w.indicesStart == places.flatMap (leBytes 4)
  | none => false

/-! ## Lists of byte strings -/

/-- The length of a byte string is not cut off. -/
theorem toNat_val_ofLength (x : Vec UInt8) : (VarInt.ofLength x.length).val.toNat = x.length :=
  x.toNat_ofNat_length

/-- A byte string grows by its length. -/
theorem length_prefixed (x : Vec UInt8) :
    (prefixed x).length = (VarInt.ofLength x.length).size + x.length := by
  rw [prefixed, List.length_append, VarInt.length_wire, Vec.length_toList]

/-- Behind a byte string with its length come the places of the rest. -/
theorem elementStarts_prefixed (count pos : ℕ) (x : Vec UInt8) (b : Bytes) :
    elementStarts (count + 1) pos (prefixed x ++ b) =
      (elementStarts count (pos + (prefixed x).length) b).map (pos :: ·) := by
  have hdecode : VarInt.decode.run (prefixed x ++ b) =
      .ok (VarInt.ofLength x.length, x.toList ++ b) := by
    rw [prefixed, List.append_assoc]
    exact VarInt.reads_decode _ _
  have hdrop : (x.toList ++ b).drop x.length = b := List.drop_left
  rw [elementStarts, hdecode]
  dsimp only
  rw [toNat_val_ofLength, hdrop, if_pos (by simp), length_prefixed, ← Nat.add_assoc]
  cases elementStarts count (pos + (VarInt.ofLength x.length).size + x.length) b <;> rfl

/-- Where places are found there is a byte string behind its length. -/
theorem exists_prefixed_of_elementStarts {count pos : ℕ} {b : Bytes} {places : List ℕ}
    (h : elementStarts (count + 1) pos b = some places) :
    ∃ (x : Vec UInt8) (rest : Bytes), b = prefixed x ++ rest := by
  rw [elementStarts] at h
  rcases hrun : VarInt.decode.run b with ⟨len, data⟩ | e | msg
  · rw [hrun] at h
    dsimp only at h
    split_ifs at h with hle
    obtain ⟨_, rfl, rfl⟩ := (VarInt.accepts_decode.run_eq_ok_iff _ _ _).mp hrun
    have hlen : (data.take len.val.toNat).length = len.val.toNat := List.length_take_of_le hle
    let x : Vec UInt8 := ⟨data.take len.val.toNat, hlen.trans_lt len.val.toNat_lt⟩
    have hlength : x.length = len.val.toNat := hlen
    refine ⟨x, data.drop len.val.toNat, ?_⟩
    rw [prefixed, hlength, VarInt.ofLength, UInt64.ofNat_toNat, List.append_assoc]
    show len.wire ++ data = len.wire ++ (data.take len.val.toNat ++ data.drop len.val.toNat)
    rw [List.take_append_drop]
  · rw [hrun] at h
    cases h
  · rw [hrun] at h
    cases h

/-- Places are found exactly in byte strings behind their lengths. -/
theorem elementStarts_eq_some_iff {count pos : ℕ} {b : Bytes} {places : List ℕ} :
    elementStarts count pos b = some places ↔
      ∃ l : List (Vec UInt8), l.length = count ∧ l.flatMap prefixed = b ∧
        starts pos l = places := by
  induction count generalizing pos b places with
  | zero =>
    unfold elementStarts
    constructor
    · intro h
      split_ifs at h with hb
      exact ⟨[], rfl, hb.symm, Option.some.inj h⟩
    · rintro ⟨l, hlen, rfl, rfl⟩
      obtain rfl := List.length_eq_zero_iff.mp hlen
      rfl
  | succ count ih =>
    constructor
    · intro h
      obtain ⟨x, rest, rfl⟩ := exists_prefixed_of_elementStarts h
      rw [elementStarts_prefixed, Option.map_eq_some_iff] at h
      obtain ⟨places', hplaces, rfl⟩ := h
      obtain ⟨l, hlen, rfl, rfl⟩ := ih.mp hplaces
      exact ⟨x :: l, by rw [List.length_cons, hlen], List.flatMap_cons, rfl⟩
    · rintro ⟨l, hlen, rfl, rfl⟩
      rcases l with _ | ⟨x, l⟩
      · cases hlen
      rw [List.flatMap_cons, elementStarts_prefixed,
        ih.mpr ⟨l, Nat.succ.inj hlen, rfl, rfl⟩]
      rfl

/-- There are no more elements than places below the bound. -/
theorem length_le_of_starts_lt {n pos : ℕ} {l : List (Vec UInt8)}
    (h : ∀ place ∈ starts pos l, place < n) : l.length ≤ n - pos := by
  induction l generalizing pos with
  | nil => exact Nat.zero_le _
  | cons x l ih =>
    rw [starts, List.forall_mem_cons] at h
    have hrest := ih h.2
    have hpos := (VarInt.ofLength x.length).size_pos
    rw [length_prefixed] at hrest
    rw [List.length_cons]
    omega

/-- The fields agree exactly when they are the packed form of a list. -/
theorem fieldsAgree_iff (w : Witness) : w.fieldsAgree = true ↔ ∃ xs, Packed w xs := by
  unfold fieldsAgree
  constructor
  · intro h
    rcases hplaces : elementStarts w.witnessElements 0 (w.content.take w.indicesStart)
      with _ | places
    · rw [hplaces] at h
      cases h
    rw [hplaces] at h
    dsimp only at h
    simp only [Bool.and_eq_true, decide_eq_true_eq, List.all_eq_true, beq_iff_eq] at h
    obtain ⟨⟨hle, hfit⟩, hindices⟩ := h
    obtain ⟨l, hcount, hcontent, rfl⟩ := elementStarts_eq_some_iff.mp hplaces
    -- offsets of four bytes leave room for a vector of elements only
    have hshort : l.length < 2 ^ 64 := (length_le_of_starts_lt hfit).trans_lt (by norm_num)
    refine ⟨⟨l, hshort⟩, ?_, hfit, hcount.symm, ?_⟩
    · rw [hcontent, ← hindices, List.take_append_drop]
    · rw [hcontent, List.length_take_of_le hle]
  · rintro ⟨xs, hcontent, hfit, hcount, hindices⟩
    have hplaces : elementStarts w.witnessElements 0 (w.content.take w.indicesStart)
        = some (starts 0 xs.toList) := by
      refine elementStarts_eq_some_iff.mpr ⟨xs.toList, hcount.symm, ?_, rfl⟩
      rw [hcontent, hindices, List.take_left]
    rw [hplaces]
    dsimp only
    simp only [Bool.and_eq_true, decide_eq_true_eq, List.all_eq_true, beq_iff_eq]
    refine ⟨⟨?_, hfit⟩, ?_⟩
    · rw [hcontent, hindices, List.length_append]
      exact Nat.le_add_right _ _
    · rw [hcontent, hindices, List.drop_left]

/-! ## Places in Borsh bytes -/

/-- The fields of a witness. -/
def layout (usizeBits : ℕ) : Layout Witness := do
  let content ← counted
  let witnessElements ← usize usizeBits
  let indicesStart ← usize usizeBits
  return ⟨content, witnessElements, indicesStart⟩

/-- The derived reader takes the three fields from these places. -/
theorem shows_layout (usizeBits : ℕ) :
    Shows (layout usizeBits) (Witness.deserialize usizeBits) id :=
  shows_vecU8.bind fun content => (shows_usize usizeBits).bind fun witnessElements =>
    (shows_usize usizeBits).bind fun indicesStart =>
      .pure (Witness.mk content witnessElements indicesStart) id

end Witness

/-- An identifier and a number. -/
def OutPoint.layout : Layout Unit := do
  let _txid ← chunk 32
  let _vout ← number 4
  return ()

/-- An outpoint has a fixed length, and nothing in it is looked at. -/
theorem OutPoint.shows_layout : Shows layout OutPoint.deserialize fun _ => () :=
  (shows_array 32).bind fun txid => shows_u32.bind fun vout =>
    .pure (OutPoint.mk txid vout) fun _ => ()

theorem ScriptBuf.shows_counted :
    Shows counted ScriptBuf.deserialize fun script => script.val.toList :=
  (shows_vecU8.asVec isCodec_vecU8 fun _ h => h.trans (by norm_num)).map ScriptBuf.mk fun _ => rfl

theorem Sequence.shows_number :
    Shows (number 4) Sequence.deserialize fun sequence => sequence.val.toNat :=
  shows_u32.map Sequence.mk fun _ => rfl

theorem Amount.shows_number : Shows (number 8) Amount.deserialize fun value => value.val.toNat :=
  shows_u64.map Amount.mk fun _ => rfl

theorem LockTime.shows_number :
    Shows (number 4) LockTime.deserialize fun lockTime => lockTime.val.toNat :=
  shows_u32.map LockTime.mk fun _ => rfl

/-- The witness stands behind the other fields of an input. -/
def TxIn.layout (usizeBits : ℕ) : Layout Witness := do
  OutPoint.layout
  let _scriptSig ← counted
  let _sequence ← number 4
  Witness.layout usizeBits

/-- The witness is the last field of an input. -/
theorem TxIn.shows_layout (usizeBits : ℕ) :
    Shows (layout usizeBits) (TxIn.deserialize usizeBits) TxIn.witness :=
  OutPoint.shows_layout.bind fun previousOutput => ScriptBuf.shows_counted.bind fun scriptSig =>
    Sequence.shows_number.bind fun sequence =>
      (Witness.shows_layout usizeBits).map (TxIn.mk previousOutput scriptSig sequence)
        fun _ => rfl

/-- A value and a script. -/
def TxOut.layout : Layout Unit := do
  let _value ← number 8
  let _scriptPubkey ← counted
  return ()

/-- An output has a script to step over. -/
theorem TxOut.shows_layout : Shows layout TxOut.deserialize fun _ => () :=
  Amount.shows_number.bind fun value => ScriptBuf.shows_counted.bind fun scriptPubkey =>
    .pure (TxOut.mk value scriptPubkey) fun _ => ()

/-- The tag is one of the two discriminants. -/
def Version.layout : Layout Unit := do
  let tag ← number 1
  require (tag = 1 ∨ tag = 2) ()

/-- Two of the tags are versions. -/
theorem Version.shows_layout : Shows layout Version.deserialize fun _ => () := by
  refine shows_tag.bind fun tag => ?_
  match tag with
  | 0 => exact .fail _ _
  | 1 => exact .pure One fun _ => ()
  | 2 => exact .pure Two fun _ => ()
  | n + 3 => exact .fail _ _

namespace BitcoinTransaction

/-- The witnesses of all inputs.  The outputs behind them must be complete as well. -/
def layout (usizeBits : ℕ) : Layout (List Witness) := do
  Version.layout
  let _lockTime ← number 4
  let witnesses ← number 4 >>= times (TxIn.layout usizeBits)
  let _outputs ← number 4 >>= times TxOut.layout
  return witnesses

/-- The derived reader finds the witnesses of all inputs here, in their order. -/
theorem shows_layout (usizeBits : ℕ) :
    Shows (layout usizeBits) (deserialize usizeBits) fun tx =>
      tx.input.toList.map TxIn.witness := by
  have hshort {α : Type} {P : α → Prop} (l : List α) (h : l.length < 2 ^ 32 ∧ ∀ a ∈ l, P a) :
      l.length < 2 ^ 64 := h.1.trans (by norm_num)
  have hinput := (TxIn.shows_layout usizeBits).vec.asVec (isCodec_vec (TxIn.isCodec usizeBits))
    hshort
  have houtput := TxOut.shows_layout.vec.asVec (isCodec_vec TxOut.isCodec) hshort
  exact Version.shows_layout.bind fun version => LockTime.shows_number.bind fun lockTime =>
    hinput.bind fun input => houtput.bind fun output =>
      .pure (BitcoinTransaction.mk version lockTime input output) fun tx =>
        tx.input.toList.map TxIn.witness

end BitcoinTransaction

end Bitcoin
