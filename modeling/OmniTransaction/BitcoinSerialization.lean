/-
# Serialized transactions are uniquely decodable

The bytes of a transaction (`BitcoinTransaction.wire`) split off the front of
any longer byte string in one way only.  Each part is prefix-free, and a legacy
form cannot be read as a segwit form: where the segwit form has its marker, a
zero byte, the legacy form has the number of inputs, which is not zero.
-/
import OmniTransaction.BitcoinTransaction

open ByteOrder Rust PrefixCode

namespace Bitcoin

variable {ε : Type}

/-- A list that is encoded into a buffer of its own. -/
theorem encodeList_eq {α : Type} {enc : α → ByteStream ε ℕ} {wire : α → Bytes} {l : List α}
    (h : ∀ a ∈ l, Encodes (enc a) (wire a)) : encodeList enc l = .ok (l.flatMap wire) := by
  have hloop : Writes (l.forM fun c => do let _ ← enc c) () (l.flatMap wire) := by
    induction l with
    | nil => exact writes_pure ()
    | cons a l ih =>
        obtain ⟨ha, hl⟩ := List.forall_mem_cons.mp h
        exact (ha.map fun _ => ()).bind (ih hl)
  rw [encodeList, hloop []]
  rfl

namespace BitcoinTransaction

/-! ## The bytes of a transaction -/

/-- The inputs and outputs, which both forms share. -/
def baseWire (tx : BitcoinTransaction) : Bytes :=
  vecWire (fun input : TxIn => TxIn.wire input.base) tx.input ++ vecWire TxOut.wire tx.output

/-- Both forms share what does not depend on the witnesses. -/
theorem baseWire_congr {a b : BitcoinTransaction}
    (hinput : a.input.toList.map TxIn.base = b.input.toList.map TxIn.base)
    (houtput : a.output = b.output) : a.baseWire = b.baseWire := by
  have hlen : a.input.length = b.input.length := by simpa using congrArg List.length hinput
  have hmap (l : List TxIn) :
      l.flatMap (fun input => TxIn.wire input.base) = (l.map TxIn.base).flatMap TxIn.wire := by
    rw [List.flatMap_map]
  simp only [baseWire, vecWire, hmap, hinput, hlen, houtput]

/-- What stands between version and lock time. -/
def bodyWire (tx : BitcoinTransaction) : Bytes :=
  if !tx.usesSegwitSerialization then tx.baseWire
  else SEGWIT_MARKER :: SEGWIT_FLAG ::
    (tx.baseWire ++ tx.input.toList.flatMap fun input => input.witness.wire)

/-- The bytes of a transaction. -/
def wire (tx : BitcoinTransaction) : Bytes :=
  tx.version.wire ++ (tx.bodyWire ++ tx.lockTime.wire)

/-- The body is written in the form that the witnesses ask for. -/
theorem writes_encodeBody {tx : BitcoinTransaction}
    (h : tx.usesSegwitSerialization → ∀ input ∈ tx.input.toList, input.witness.WellSized)
    (len : ℕ) :
    Writes (tx.encodeBody len : ByteStream ε ℕ) (len + tx.bodyWire.length) tx.bodyWire := by
  have hinput := encodes_encodeVec (ε := ε) (v := tx.input)
    fun input _ => TxIn.encodes_encode input
  have houtput := encodes_encodeVec (ε := ε) (v := tx.output)
    fun output _ => TxOut.encodes_encode output
  unfold encodeBody bodyWire
  split_ifs with hform
  · rw [baseWire, List.length_append, ← Nat.add_assoc]
    exact hinput.bind (houtput.map fun _ => _)
  · have hsegwit : tx.usesSegwitSerialization := by simpa using hform
    have hwitness := writes_encodeEach (ε := ε) (l := tx.input.toList)
      fun input hinput => Witness.encodes_encode (h hsegwit input hinput)
    refine Writes.cast ((encodes_encodeU8 SEGWIT_MARKER).bind
      ((encodes_encodeU8 SEGWIT_FLAG).bind (hinput.bind (houtput.bind (hwitness _))))) ?_ ?_
    · simp only [baseWire, List.length_cons, List.length_nil, List.length_append]
      omega
    · simp only [baseWire, List.append_assoc, List.cons_append, List.nil_append]

/-- The encoder appends the bytes of the transaction and returns their number. -/
theorem encodes_encode {tx : BitcoinTransaction}
    (h : tx.usesSegwitSerialization → ∀ input ∈ tx.input.toList, input.witness.WellSized) :
    Encodes (tx.encode : ByteStream ε ℕ) tx.wire := by
  rw [Encodes, wire, List.length_append, List.length_append, ← Nat.add_assoc]
  exact (Version.encodes_encode tx.version).bind
    ((writes_encodeBody h _).bind ((LockTime.encodes_encode tx.lockTime).map fun _ => _))

/-- Every witness holds the index area that it announces. -/
def WitnessesSized (tx : BitcoinTransaction) : Prop :=
  ∀ input ∈ tx.input.toList, input.witness.WellSized

instance (tx : BitcoinTransaction) : Decidable tx.WitnessesSized :=
  inferInstanceAs (Decidable (∀ input ∈ tx.input.toList, input.witness.WellSized))

/-- `serialize` returns the bytes of the transaction and does not panic. -/
theorem serialize_eq {tx : BitcoinTransaction} (h : tx.WitnessesSized) :
    tx.serialize = .ok tx.wire := by
  rw [serialize, encodes_encode (fun _ => h) []]
  rfl

/-! ## Unique decodability -/

/-- Every witness of the transaction was built on a target of the given width. -/
def WitnessesBuilt (usizeBits : ℕ) (tx : BitcoinTransaction) : Prop :=
  ∀ input ∈ tx.input.toList, Witness.Built usizeBits input.witness

variable {usizeBits : ℕ} {a b : BitcoinTransaction} {s t : Bytes}

/-- Inputs and outputs in front of anything are told apart. -/
theorem baseWire_append_inj (h : a.baseWire ++ s = b.baseWire ++ t) :
    a.input.toList.map TxIn.base = b.input.toList.map TxIn.base ∧ a.output = b.output ∧
      s = t := by
  simp only [baseWire, vecWire, List.append_assoc] at h
  obtain ⟨hlen, h⟩ := length_eq_of_wire_append_eq h
  have hmap (l : List TxIn) :
      l.flatMap (fun input => TxIn.wire input.base) = (l.map TxIn.base).flatMap TxIn.wire := by
    rw [List.flatMap_map]
  rw [hmap, hmap] at h
  obtain ⟨hinput, h⟩ := TxIn.prefixFree_wire.flatMap_append_inj
    (by simpa using hlen) h
  obtain ⟨houtput, hst⟩ := prefixFree_vecWire TxOut.prefixFree_wire a.output b.output s t
    (by simpa only [vecWire, List.append_assoc] using h)
  exact ⟨hinput, houtput, hst⟩

/-- Inputs are made of what is encoded with them and their witness. -/
theorem input_ext (hbase : a.input.toList.map TxIn.base = b.input.toList.map TxIn.base)
    (hwitness : a.input.toList.map TxIn.witness = b.input.toList.map TxIn.witness) :
    a.input = b.input := by
  have hinj : Function.Injective fun input : TxIn => (input.base, input.witness) := by
    intro x y h
    simp only [TxIn.base, Prod.mk.injEq] at h
    obtain ⟨⟨hprev, hscript, hseq⟩, hwit⟩ := h
    exact TxIn.ext hprev hscript hseq hwit
  apply Vec.ext
  apply List.map_injective_iff.mpr hinj
  have hzip (l : List TxIn) : l.map (fun input => (input.base, input.witness))
      = (l.map TxIn.base).zip (l.map TxIn.witness) := (List.zip_map' ..).symm
  rw [hzip, hzip, hbase, hwitness]

theorem hasWitness_eq_false_iff :
    a.hasWitness = false ↔ ∀ input ∈ a.input.toList, input.witness.isEmpty := by
  simp [hasWitness]

/-- The legacy form is for inputs without witnesses, one at least. -/
theorem usesSegwitSerialization_eq_false_iff :
    a.usesSegwitSerialization = false ↔
      (∀ input ∈ a.input.toList, input.witness.isEmpty) ∧ a.input.length ≠ 0 := by
  have hempty : a.input.toList.isEmpty = false ↔ a.input.length ≠ 0 := by
    rw [List.isEmpty_eq_false_iff, ← Vec.length_toList, Ne, Ne, List.length_eq_zero_iff]
  rw [← hasWitness_eq_false_iff, ← hempty, usesSegwitSerialization]
  cases a.hasWitness <;> simp

/-- The first byte of a legacy body counts the inputs; there is at least one. -/
theorem exists_baseWire_eq_cons (h : a.input.length ≠ 0) :
    ∃ x rest, a.baseWire = x :: rest ∧ x ≠ SEGWIT_MARKER := by
  obtain ⟨x, rest, hwire, hx⟩ := VarInt.exists_wire_eq_cons (val_ofLength_ne_zero h)
  rw [baseWire, vecWire, hwire]
  exact ⟨x, _, rfl, hx⟩

/-- Without a witness, all witnesses that were built are fresh. -/
theorem map_witness_eq_replicate (ha : a.WitnessesBuilt usizeBits)
    (h : a.usesSegwitSerialization = false) :
    a.input.toList.map TxIn.witness = List.replicate a.input.length Witness.new := by
  have hempty := (usesSegwitSerialization_eq_false_iff.mp h).1
  rw [List.eq_replicate_iff]
  constructor
  · rw [List.length_map]
    rfl
  · intro w hw
    obtain ⟨input, hinput, rfl⟩ := List.mem_map.mp hw
    exact (ha input hinput).eq_new (hempty input hinput)

/-- The first byte tells the form, and within a form the parts are told apart. -/
theorem bodyWire_append_inj (ha : a.WitnessesBuilt usizeBits) (hb : b.WitnessesBuilt usizeBits)
    (h : a.bodyWire ++ s = b.bodyWire ++ t) : a.input = b.input ∧ a.output = b.output ∧ s = t := by
  cases hfa : a.usesSegwitSerialization with
  | false =>
      cases hfb : b.usesSegwitSerialization with
      | false =>
          -- both legacy: without a witness all of them are fresh
          rw [bodyWire, bodyWire, hfa, hfb, Bool.not_false, if_pos rfl, if_pos rfl] at h
          obtain ⟨hbase, houtput, hst⟩ := baseWire_append_inj h
          have hlen : a.input.length = b.input.length := by
            simpa using congrArg List.length hbase
          refine ⟨input_ext hbase ?_, houtput, hst⟩
          rw [map_witness_eq_replicate ha hfa, map_witness_eq_replicate hb hfb, hlen]
      | true =>
          -- the count of the inputs stands where the other has its marker
          obtain ⟨x, rest, hx, hne⟩ :=
            exists_baseWire_eq_cons (usesSegwitSerialization_eq_false_iff.mp hfa).2
          rw [bodyWire, bodyWire, hfa, hfb, Bool.not_true, Bool.not_false, if_pos rfl,
            if_neg (by decide), hx] at h
          exact absurd (List.cons.inj h).1 hne
  | true =>
      cases hfb : b.usesSegwitSerialization with
      | false =>
          -- the count of the inputs stands where the other has its marker
          obtain ⟨x, rest, hx, hne⟩ :=
            exists_baseWire_eq_cons (usesSegwitSerialization_eq_false_iff.mp hfb).2
          rw [bodyWire, bodyWire, hfa, hfb, Bool.not_true, Bool.not_false, if_pos rfl,
            if_neg (by decide), hx] at h
          exact absurd (List.cons.inj h).1.symm hne
      | true =>
          -- both segwit: the number of witnesses is the number of inputs, which is known by then
          rw [bodyWire, bodyWire, hfa, hfb, Bool.not_true, if_neg (by decide),
            if_neg (by decide)] at h
          simp only [List.cons_append, List.cons.injEq, true_and, List.append_assoc] at h
          obtain ⟨hbase, houtput, h⟩ := baseWire_append_inj h
          have hmap (l : List TxIn) : l.flatMap (fun input => input.witness.wire)
              = (l.map TxIn.witness).flatMap Witness.wire := by
            rw [List.flatMap_map]
          rw [hmap, hmap] at h
          obtain ⟨hwitness, hst⟩ := Witness.prefixFreeOn_wire.flatMap_append_inj
            (List.forall_mem_map.mpr ha) (List.forall_mem_map.mpr hb)
            (by simpa using congrArg List.length hbase) h
          exact ⟨input_ext hbase hwitness, houtput, hst⟩

/-- The bytes of a transaction in front of anything determine it. -/
theorem wire_append_inj (ha : a.WitnessesBuilt usizeBits) (hb : b.WitnessesBuilt usizeBits)
    (h : a.wire ++ s = b.wire ++ t) : a = b ∧ s = t := by
  simp only [wire, List.append_assoc] at h
  obtain ⟨hversion, h⟩ := Version.prefixFree_wire _ _ _ _ h
  obtain ⟨hinput, houtput, h⟩ := bodyWire_append_inj ha hb h
  obtain ⟨hlock, hst⟩ := LockTime.prefixFree_wire _ _ _ _ h
  exact ⟨BitcoinTransaction.ext hversion hlock hinput houtput, hst⟩

/-- Witnesses that were built can be written. -/
theorem WitnessesBuilt.sized (ha : a.WitnessesBuilt usizeBits) : a.WitnessesSized :=
  fun input hinput => (ha input hinput).wellSized

/-- Serialization is uniquely decodable across both forms, and the encoder
returns the number of bytes it appended. -/
theorem serialize_uniquely_decodable (usizeBits : ℕ) (a b : BitcoinTransaction)
    (ha : a.WitnessesBuilt usizeBits) (hb : b.WitnessesBuilt usizeBits) :
    ∃ as bs, a.serialize = .ok as ∧ b.serialize = .ok bs ∧
      (∀ x y, as ++ x = bs ++ y → a = b ∧ x = y) ∧
      ∀ buf, (a.encode : ByteStream Empty ℕ).run buf = .ok (as.length, buf ++ as) := by
  exact ⟨a.wire, b.wire, serialize_eq ha.sized, serialize_eq hb.sized,
    fun x y => wire_append_inj ha hb, encodes_encode fun _ => ha.sized⟩

/-- The first input completed or not gives two byte strings, none a prefix of the
other. -/
theorem serialize_sampleTransaction :
    ∃ as bs,
      (sampleTransaction (sampleInput 1 .empty sampleWitness)
        (sampleInput 2 .empty .new)).serialize = .ok as ∧
      (sampleTransaction (sampleInput 1 .empty .new) (sampleInput 2 .empty .new)).serialize
        = .ok bs ∧ ∀ x y, as ++ x ≠ bs ++ y := by
  have hslice : ∀ elem ∈ sampleStack.toList, elem.length < 2 ^ 32 := by decide
  have hbuilt : Witness.Built 32 sampleWitness := .fromSlice hslice fromSlice_sampleStack
  obtain ⟨as, bs, ha, hb, hinj, -⟩ := serialize_uniquely_decodable 32
    (sampleTransaction (sampleInput 1 .empty sampleWitness) (sampleInput 2 .empty .new))
    (sampleTransaction (sampleInput 1 .empty .new) (sampleInput 2 .empty .new))
    (by
      intro input hinput
      simp only [sampleTransaction, List.mem_cons, List.not_mem_nil, or_false] at hinput
      rcases hinput with rfl | rfl
      · exact hbuilt
      · exact .new)
    (by
      intro input hinput
      simp only [sampleTransaction, List.mem_cons, List.not_mem_nil, or_false] at hinput
      rcases hinput with rfl | rfl
      · exact .new
      · exact .new)
  exact ⟨as, bs, ha, hb, fun x y h => absurd (hinj x y h).1 (by decide)⟩

end BitcoinTransaction

end Bitcoin
