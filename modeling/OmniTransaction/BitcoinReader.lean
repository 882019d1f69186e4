/-
# Reading serialized transactions

The crate writes whole transactions and reads only their parts.  `readTransaction` says what
the bytes are for: it is the reader on the other side, which tells the two forms apart by the
count of the inputs and reads the parts with the decoders of the crate.  It takes exactly the
bytes that `serialize` writes (`readTransaction_eq_ok_iff`), and in a signing session it takes
the bytes that every call returns (`readTransaction_session`).
-/
import OmniTransaction.BitcoinDecoding
import OmniTransaction.BitcoinSerialization

open ByteOrder Rust

namespace Bitcoin

/-! ## The reader -/

/-- The error of a flag that is not `1`. -/
def unsupportedFlag : IoError := ⟨.InvalidData, "unsupported segwit flag"⟩

/-- The error of a segwit form in which no input has a witness. -/
def missingWitnesses : IoError := ⟨.InvalidData, "witness flag set but no witnesses present"⟩

/-- A witness for each of the inputs. -/
def readWitnesses : List TxIn → ByteStream IoError (List TxIn)
  | [] => pure []
  | input :: inputs => do
      let witness ← (Witness.decodable 64).decode
      let inputs ← readWitnesses inputs
      return { input with witness := witness } :: inputs

/-- The witnesses of the inputs.  The segwit form is for transactions that have a witness; one
without inputs can have none. -/
def readWitnessSection (input : Vec TxIn) : ByteStream IoError (Vec TxIn) := do
  let inputs ← readWitnesses input.toList
  if inputs ≠ [] ∧ ∀ input ∈ inputs, input.witness.isEmpty then
    ByteStream.fail missingWitnesses
  else StateT.lift (Vec.ofList inputs)

/-- What stands behind the flag. -/
def readSegwitParts : ByteStream IoError (Vec TxIn × Vec TxOut) := do
  let input ← (decodableTxIns 64).decodeFromFiniteReader
  let output ← (decodableTxOuts 64).decodeFromFiniteReader
  let input ← readWitnessSection input
  return (input, output)

/-- What stands behind the marker. -/
def readSegwitBody : ByteStream IoError (Vec TxIn × Vec TxOut) := do
  let flag ← decodableU8.decode
  if flag = SEGWIT_FLAG then readSegwitParts else ByteStream.fail unsupportedFlag

/-- The inputs and outputs in one of the two forms. -/
def readBody : ByteStream IoError (Vec TxIn × Vec TxOut) := do
  let input ← (decodableTxIns 64).decodeFromFiniteReader
  -- a count of no inputs is the marker
  if input.length = 0 then readSegwitBody
  else do
    let output ← (decodableTxOuts 64).decodeFromFiniteReader
    return (input, output)

/-- A transaction on the wire, read with the decoders of the crate.  `usize` has 64 bits in
this reader, as on a client; on 32 bits the decoders truncate large lengths. -/
def readTransaction : ByteStream IoError BitcoinTransaction := do
  let version ← Version.decodable.decode
  let body ← readBody
  let lockTime ← LockTime.decodable.decode
  return ⟨version, lockTime, body.1, body.2⟩

/-! ## The limits of the decoders -/

/-- `Witness::decode` gives such a witness. -/
def Witness.Decodes (w : Witness) : Prop := ∃ xs, WithinLimits xs ∧ Packed w xs

/-- The script and the witness are within the limits. -/
def TxIn.Decodes (input : TxIn) : Prop :=
  input.scriptSig.wire.length ≤ MAX_VEC_SIZE ∧ input.witness.Decodes

/-- The decoders give such inputs. -/
def BitcoinTransaction.Decodes (tx : BitcoinTransaction) : Prop :=
  ∀ input ∈ tx.input.toList, input.Decodes

namespace Witness

variable {w : Witness}

/-- A witness within the limits is packed, and so its fields belong together. -/
theorem Decodes.wellSized (h : w.Decodes) : w.WellSized := by
  obtain ⟨xs, -, hpacked⟩ := h
  exact hpacked.wellSized

/-- The fresh witness is within the limits. -/
theorem decodes_new : new.Decodes := ⟨Vec.empty, by decide, packed_new⟩

/-- Without elements it is the fresh one. -/
theorem Decodes.eq_new (h : w.Decodes) (hempty : w.isEmpty) : w = new := by
  obtain ⟨xs, -, hpacked⟩ := h
  have hlength : xs.toList.length = 0 := by
    rw [Vec.length_toList, ← hpacked.witnessElements]
    exact beq_iff_eq.mp hempty
  obtain rfl : xs = Vec.empty := Vec.ext (List.length_eq_zero_iff.mp hlength)
  have hfrom : (fromSlice Vec.empty : Outcome Empty Witness) = .ok w :=
    fromSlice_eq_ok_iff.mpr hpacked
  exact Outcome.ok.inj (hfrom.symm.trans (fromSlice_eq_ok_iff.mpr packed_new))

/-- The decoder takes exactly the encodings of witnesses within the limits. -/
theorem accepts_decodable :
    Accepts (Witness.decodable 64).decode fun w bs => w.Decodes ∧ bs = w.wire := by
  refine (accepts_decode 64).congr fun w bs => ?_
  rw [packs_64_iff]
  constructor
  · rintro ⟨xs, hlimits, hpacked, rfl⟩
    exact ⟨⟨xs, hlimits, hpacked⟩, hpacked.wire_eq.symm⟩
  · rintro ⟨⟨xs, hlimits, hpacked⟩, rfl⟩
    exact ⟨xs, hlimits, hpacked, hpacked.wire_eq⟩

end Witness

/-! ## What it accepts -/

/-- Inputs are read without their witnesses. -/
theorem accepts_decodableTxIns :
    Accepts (decodableTxIns 64).decodeFromFiniteReader fun v bs =>
      (∀ input ∈ v.toList, input.witness = Witness.new ∧
        input.scriptSig.wire.length ≤ MAX_VEC_SIZE) ∧
      bs = vecWire (fun input : TxIn => TxIn.wire input.base) v := by
  have hinput : Accepts (TxIn.decodable 64).decodeFromFiniteReader fun input bs =>
      (input.witness = Witness.new ∧ input.scriptSig.wire.length ≤ MAX_VEC_SIZE) ∧
        bs = TxIn.wire input.base := by
    refine (TxIn.accepts_decode 64).congr fun input bs => ?_
    simp only [bytesEncoding_64_iff]
    constructor
    · rintro ⟨hwitness, cs, rfl, hlength, rfl⟩
      exact ⟨⟨hwitness, hlength⟩, rfl⟩
    · rintro ⟨⟨hwitness, hlength⟩, rfl⟩
      exact ⟨hwitness, _, rfl, hlength, rfl⟩
  refine (accepts_decodeList hinput).congr fun v bs => ?_
  simp only [each_iff_flatMap fun _ _ => Iff.rfl]
  constructor
  · rintro ⟨_, ⟨hall, rfl⟩, rfl⟩
    exact ⟨hall, rfl⟩
  · rintro ⟨hall, rfl⟩
    exact ⟨_, ⟨hall, rfl⟩, rfl⟩

/-- Outputs are read as they were written, with scripts of any length. -/
theorem accepts_decodableTxOuts :
    Accepts (decodableTxOuts 64).decodeFromFiniteReader fun v bs =>
      bs = vecWire TxOut.wire v := by
  have houtput : Accepts (TxOut.decodable 64).decodeFromFiniteReader fun output bs =>
      True ∧ bs = output.wire := by
    refine (TxOut.accepts_decodeFromFiniteReader 64).congr fun output bs => ?_
    simp only [bytesEncoding_64_iff]
    constructor
    · rintro ⟨cs, rfl, rfl⟩
      exact ⟨trivial, rfl⟩
    · rintro ⟨-, rfl⟩
      exact ⟨_, rfl, rfl⟩
  refine (accepts_decodeList houtput).congr fun v bs => ?_
  simp only [each_iff_flatMap fun _ _ => Iff.rfl]
  constructor
  · rintro ⟨_, ⟨-, rfl⟩, rfl⟩
    rfl
  · rintro rfl
    exact ⟨_, ⟨fun _ _ => trivial, rfl⟩, rfl⟩

/-- The witnesses are set, and nothing else of the inputs is changed. -/
theorem accepts_readWitnesses (inputs : List TxIn) :
    Accepts (readWitnesses inputs) fun inputs' bs =>
      inputs'.map TxIn.base = inputs.map TxIn.base ∧
      (∀ input ∈ inputs', input.witness.Decodes) ∧
      bs = inputs'.flatMap fun input => input.witness.wire := by
  induction inputs with
  | nil =>
    refine (accepts_pure []).congr fun inputs' bs => ?_
    constructor
    · rintro ⟨rfl, rfl⟩
      exact ⟨rfl, by simp, rfl⟩
    · rintro ⟨hbase, -, rfl⟩
      obtain rfl := List.map_eq_nil_iff.mp hbase
      exact ⟨rfl, rfl⟩
  | cons input inputs ih =>
    refine (Witness.accepts_decodable.bind fun witness => ih.map fun inputs =>
      { input with witness := witness } :: inputs).congr fun inputs' bs => ?_
    constructor
    · rintro ⟨witness, _, _, ⟨hwitness, rfl⟩, ⟨inputs, ⟨hbase, hall, rfl⟩, rfl⟩, rfl⟩
      refine ⟨?_, List.forall_mem_cons.mpr ⟨hwitness, hall⟩, rfl⟩
      rw [List.map_cons, List.map_cons, hbase]
      rfl
    · rintro ⟨hbase, hall, rfl⟩
      cases inputs' with
      | nil => cases hbase
      | cons input' inputs' =>
        obtain ⟨hhead, htail⟩ := List.cons.inj hbase
        obtain ⟨hwitness, hall⟩ := List.forall_mem_cons.mp hall
        refine ⟨input'.witness, _, _, ⟨hwitness, rfl⟩, ⟨inputs', ⟨htail, hall, rfl⟩, ?_⟩, rfl⟩
        simp only [TxIn.base, Prod.mk.injEq] at hhead
        obtain ⟨hprevious, hscript, hsequence⟩ := hhead
        exact congrArg (· :: inputs') (TxIn.ext hprevious.symm hscript.symm hsequence.symm rfl)

/-- Some input has a witness, or there are no inputs. -/
def HasSegwitForm (input : Vec TxIn) : Prop :=
  ¬ (input.toList ≠ [] ∧ ∀ i ∈ input.toList, i.witness.isEmpty)

/-- The list is short enough to be a vector. -/
theorem accepts_ofList {α : Type} {l : List α} (hlt : l.length < 2 ^ 64) :
    Accepts (StateT.lift (Vec.ofList l) : ByteStream IoError (Vec α))
      fun v bs => v.toList = l ∧ bs = [] := by
  refine (accepts_lift (y := ⟨l, hlt⟩) (Vec.ofList_eq_ok_iff.mpr rfl)).congr fun v bs =>
    and_congr_left' ?_
  constructor
  · rintro rfl
    rfl
  · exact fun hv => Vec.ext hv

/-- The section is one witness for each input, not all of them empty. -/
theorem accepts_readWitnessSection (input : Vec TxIn) :
    Accepts (readWitnessSection input) fun v bs =>
      v.toList.map TxIn.base = input.toList.map TxIn.base ∧
      (∀ i ∈ v.toList, i.witness.Decodes) ∧ HasSegwitForm v ∧
      bs = v.toList.flatMap fun i => i.witness.wire := by
  have hcheck : ∀ (inputs : List TxIn) (bs : Bytes),
      (inputs.map TxIn.base = input.toList.map TxIn.base ∧
        (∀ i ∈ inputs, i.witness.Decodes) ∧ bs = inputs.flatMap fun i => i.witness.wire) →
      Accepts (if inputs ≠ [] ∧ ∀ i ∈ inputs, i.witness.isEmpty then
          ByteStream.fail missingWitnesses
        else StateT.lift (Vec.ofList inputs) : ByteStream IoError (Vec TxIn))
        fun v bs => v.toList = inputs ∧ HasSegwitForm v ∧ bs = [] := by
    rintro inputs bs ⟨hbase, -⟩
    have hlength : inputs.length = input.length := by
      simpa using congrArg List.length hbase
    split_ifs with hempty
    · refine (accepts_fail _).congr fun v bs => ?_
      constructor
      · exact False.elim
      · rintro ⟨rfl, hform, -⟩
        exact hform hempty
    · refine (accepts_ofList (hlength ▸ input.length_lt)).congr fun v bs => ?_
      constructor
      · rintro ⟨rfl, rfl⟩
        exact ⟨rfl, hempty, rfl⟩
      · rintro ⟨hv, -, hbs⟩
        exact ⟨hv, hbs⟩
  refine ((accepts_readWitnesses input.toList).bind_of hcheck).congr fun v bs => ?_
  constructor
  · rintro ⟨_, _, _, ⟨hbase, hall, rfl⟩, ⟨rfl, hform, rfl⟩, rfl⟩
    exact ⟨hbase, hall, hform, List.append_nil _⟩
  · rintro ⟨hbase, hall, hform, rfl⟩
    exact ⟨v.toList, _, [], ⟨hbase, hall, rfl⟩, ⟨rfl, hform, rfl⟩, (List.append_nil _).symm⟩

/-- The inputs are encoded without their witnesses. -/
theorem vecWire_base_congr {v w : Vec TxIn}
    (h : v.toList.map TxIn.base = w.toList.map TxIn.base) :
    vecWire (fun input : TxIn => TxIn.wire input.base) v =
      vecWire (fun input : TxIn => TxIn.wire input.base) w := by
  have hlength : v.length = w.length := by simpa using congrArg List.length h
  have hmap (l : List TxIn) :
      l.flatMap (fun input => TxIn.wire input.base) = (l.map TxIn.base).flatMap TxIn.wire := by
    rw [List.flatMap_map]
  rw [vecWire, vecWire, hmap, hmap, h, hlength]

/-- The scripts are those of the inputs without witnesses. -/
theorem length_scriptSig_le_of_base_eq {v w : Vec TxIn} {n : ℕ}
    (h : v.toList.map TxIn.base = w.toList.map TxIn.base)
    (hw : ∀ i ∈ w.toList, i.scriptSig.wire.length ≤ n) :
    ∀ i ∈ v.toList, i.scriptSig.wire.length ≤ n := by
  have hbases : ∀ base ∈ v.toList.map TxIn.base, base.2.1.wire.length ≤ n := by
    rw [h]
    exact List.forall_mem_map.mpr hw
  exact List.forall_mem_map.mp hbases

/-- The inputs stand without their witnesses in front of the outputs. -/
theorem accepts_readSegwitParts : Accepts readSegwitParts fun body bs =>
    (∀ input ∈ body.1.toList, input.Decodes) ∧ HasSegwitForm body.1 ∧
    bs = vecWire (fun input : TxIn => TxIn.wire input.base) body.1 ++
      (vecWire TxOut.wire body.2 ++ body.1.toList.flatMap fun input => input.witness.wire) := by
  refine (accepts_decodableTxIns.bind fun input => accepts_decodableTxOuts.bind fun output =>
    (accepts_readWitnessSection input).map fun input => (input, output)).congr fun body bs => ?_
  constructor
  · rintro ⟨input, _, _, ⟨hinput, rfl⟩, ⟨output, _, _, rfl,
      ⟨v, ⟨hbase, hall, hform, rfl⟩, rfl⟩, rfl⟩, rfl⟩
    have hscript : ∀ i ∈ v.toList, i.scriptSig.wire.length ≤ MAX_VEC_SIZE :=
      length_scriptSig_le_of_base_eq hbase fun i hi => (hinput i hi).2
    refine ⟨fun i hi => ⟨hscript i hi, hall i hi⟩, hform, ?_⟩
    rw [vecWire_base_congr hbase]
  · rintro ⟨hall, hform, rfl⟩
    -- the inputs as they are first read
    obtain ⟨fresh, hbase, hfresh⟩ : ∃ fresh : Vec TxIn,
        body.1.toList.map TxIn.base = fresh.toList.map TxIn.base ∧
          ∀ i ∈ fresh.toList, i.witness = Witness.new := by
      refine ⟨body.1.map fun input => { input with witness := .new }, ?_, ?_⟩
      · rw [Vec.map, List.map_map]
        rfl
      · exact List.forall_mem_map.mpr fun _ _ => rfl
    have hscript : ∀ i ∈ fresh.toList, i.scriptSig.wire.length ≤ MAX_VEC_SIZE :=
      length_scriptSig_le_of_base_eq hbase.symm fun i hi => (hall i hi).1
    refine ⟨fresh, _, _, ⟨fun i hi => ⟨hfresh i hi, hscript i hi⟩, rfl⟩, ⟨body.2, _, _, rfl,
      ⟨body.1, ⟨hbase, fun i hi => (hall i hi).2, hform, rfl⟩, rfl⟩, rfl⟩, ?_⟩
    rw [vecWire_base_congr hbase]

/-- Behind the marker: the flag and the parts. -/
theorem accepts_readSegwitBody : Accepts readSegwitBody fun body bs =>
    (∀ input ∈ body.1.toList, input.Decodes) ∧ HasSegwitForm body.1 ∧
    bs = SEGWIT_FLAG :: (vecWire (fun input : TxIn => TxIn.wire input.base) body.1 ++
      (vecWire TxOut.wire body.2 ++ body.1.toList.flatMap fun input => input.witness.wire)) := by
  have hflag : ∀ flag : UInt8, Accepts
      (if flag = SEGWIT_FLAG then readSegwitParts else ByteStream.fail unsupportedFlag)
      fun body bs => flag = SEGWIT_FLAG ∧ (∀ input ∈ body.1.toList, input.Decodes) ∧
        HasSegwitForm body.1 ∧
        bs = vecWire (fun input : TxIn => TxIn.wire input.base) body.1 ++
          (vecWire TxOut.wire body.2 ++
            body.1.toList.flatMap fun input => input.witness.wire) := by
    intro flag
    split_ifs with h
    · exact accepts_readSegwitParts.congr fun body bs => (and_iff_right h).symm
    · exact (accepts_fail _).congr fun body bs => iff_of_false id fun hflag => h hflag.1
  refine (accepts_readU8.bind hflag).congr fun body bs => ?_
  constructor
  · rintro ⟨_, _, _, rfl, ⟨rfl, hall, hform, rfl⟩, rfl⟩
    exact ⟨hall, hform, rfl⟩
  · rintro ⟨hall, hform, rfl⟩
    exact ⟨SEGWIT_FLAG, _, _, rfl, ⟨rfl, hall, hform, rfl⟩, rfl⟩

namespace BitcoinTransaction

variable {tx tx' tx₀ : BitcoinTransaction}

/-- The form is chosen by the same condition as in `encode`. -/
theorem hasSegwitForm_iff : HasSegwitForm tx.input ↔ tx.usesSegwitSerialization = true := by
  rw [← Bool.not_eq_false, usesSegwitSerialization_eq_false_iff, HasSegwitForm, and_comm]
  have hlength : tx.input.toList ≠ [] ↔ tx.input.length ≠ 0 := by
    rw [← Vec.length_toList, Ne, Ne, List.length_eq_zero_iff]
  rw [hlength]

/-- In the legacy form there is no witness. -/
theorem bodyWire_of_legacy (h : tx.usesSegwitSerialization = false) : tx.bodyWire =
    vecWire (fun input : TxIn => TxIn.wire input.base) tx.input ++
      vecWire TxOut.wire tx.output := by
  rw [bodyWire, h]
  rfl

/-- The marker is the count of a list of no inputs. -/
theorem bodyWire_of_segwit (h : tx.usesSegwitSerialization = true) : tx.bodyWire =
    vecWire (fun input : TxIn => TxIn.wire input.base) Vec.empty ++
      SEGWIT_FLAG :: (vecWire (fun input : TxIn => TxIn.wire input.base) tx.input ++
        (vecWire TxOut.wire tx.output ++
          tx.input.toList.flatMap fun input => input.witness.wire)) := by
  rw [bodyWire, h, baseWire, List.append_assoc]
  rfl

/-- The bytes between version and lock time are those of `encode` in either form. -/
theorem accepts_readBody (version : Version) (lockTime : LockTime) :
    Accepts readBody fun body bs => (∀ input ∈ body.1.toList, input.Decodes) ∧
      bs = (BitcoinTransaction.mk version lockTime body.1 body.2).bodyWire := by
  have hbranch : ∀ input : Vec TxIn, Accepts
      (if input.length = 0 then readSegwitBody
        else do
          let output ← (decodableTxOuts 64).decodeFromFiniteReader
          return (input, output) : ByteStream IoError (Vec TxIn × Vec TxOut))
      fun body bs =>
        (input.length = 0 ∧ (∀ i ∈ body.1.toList, i.Decodes) ∧ HasSegwitForm body.1 ∧
          bs = SEGWIT_FLAG :: (vecWire (fun i : TxIn => TxIn.wire i.base) body.1 ++
            (vecWire TxOut.wire body.2 ++ body.1.toList.flatMap fun i => i.witness.wire))) ∨
        (input.length ≠ 0 ∧ body.1 = input ∧ bs = vecWire TxOut.wire body.2) := by
    intro input
    split_ifs with h
    · exact accepts_readSegwitBody.congr fun body bs => by simp [h]
    · refine (accepts_decodableTxOuts.map fun output => (input, output)).congr fun body bs => ?_
      constructor
      · rintro ⟨output, rfl, rfl⟩
        exact .inr ⟨h, rfl, rfl⟩
      · rintro (⟨h', -⟩ | ⟨-, rfl, rfl⟩)
        · exact absurd h' h
        · exact ⟨body.2, rfl, rfl⟩
  refine (accepts_decodableTxIns.bind hbranch).congr fun ⟨input, output⟩ bs => ?_
  have hform := @hasSegwitForm_iff ⟨version, lockTime, input, output⟩
  constructor
  · rintro ⟨first, _, _, ⟨hfirst, rfl⟩, ⟨hlength, hall, hsegwit, rfl⟩ | ⟨hlength, rfl, rfl⟩, rfl⟩
    · -- a count of zero and the flag
      obtain rfl : first = Vec.empty :=
        Vec.ext (List.length_eq_zero_iff.mp ((Vec.length_toList first).trans hlength))
      exact ⟨hall, (bodyWire_of_segwit (hform.mp hsegwit)).symm⟩
    · -- no input has a witness
      refine ⟨fun i hi => ⟨(hfirst i hi).2, (hfirst i hi).1 ▸ Witness.decodes_new⟩, ?_⟩
      have hlegacy : usesSegwitSerialization ⟨version, lockTime, input, output⟩ = false :=
        usesSegwitSerialization_eq_false_iff.mpr ⟨fun i hi => (hfirst i hi).1 ▸ rfl, hlength⟩
      exact (bodyWire_of_legacy hlegacy).symm
  · rintro ⟨hall, rfl⟩
    cases hsegwit : usesSegwitSerialization ⟨version, lockTime, input, output⟩ with
    | true =>
      rw [bodyWire_of_segwit hsegwit]
      exact ⟨Vec.empty, _, _, ⟨by simp [Vec.empty], rfl⟩,
        .inl ⟨rfl, hall, hform.mpr hsegwit, rfl⟩, rfl⟩
    | false =>
      obtain ⟨hempty, hlength⟩ := usesSegwitSerialization_eq_false_iff.mp hsegwit
      have hfresh : ∀ i ∈ input.toList, i.witness = Witness.new ∧
          i.scriptSig.wire.length ≤ MAX_VEC_SIZE := fun i hi =>
        ⟨(hall i hi).2.eq_new (hempty i hi), (hall i hi).1⟩
      rw [bodyWire_of_legacy hsegwit]
      exact ⟨input, _, _, ⟨hfresh, rfl⟩, .inr ⟨hlength, rfl, rfl⟩, rfl⟩

/-- All witnesses within the limits can be written. -/
theorem Decodes.sized (h : tx.Decodes) : tx.WitnessesSized :=
  fun input hinput => (h input hinput).2.wellSized

/-- What is read is the encoding of a transaction within the limits. -/
theorem accepts_readTransaction :
    Accepts readTransaction fun tx bs => tx.Decodes ∧ bs = tx.wire := by
  refine (Version.accepts_decode.bind fun version => (accepts_readBody version ⟨0⟩).bind fun body =>
    LockTime.accepts_decode.map fun lockTime =>
      BitcoinTransaction.mk version lockTime body.1 body.2).congr fun tx bs => ?_
  constructor
  · rintro ⟨version, _, _, rfl, ⟨body, _, _, ⟨hall, rfl⟩, ⟨lockTime, rfl, rfl⟩, rfl⟩, rfl⟩
    exact ⟨hall, rfl⟩
  · rintro ⟨hall, rfl⟩
    exact ⟨tx.version, _, _, rfl, ⟨(tx.input, tx.output), _, _, ⟨hall, rfl⟩,
      ⟨tx.lockTime, rfl, rfl⟩, rfl⟩, rfl⟩

/-- The reader takes exactly what `serialize` writes for the transactions within the limits of
the decoders, whatever stands behind it, and it never panics. -/
theorem readTransaction_eq_ok_iff (b : Bytes) :
    (∀ tx rest, readTransaction.run b = .ok (tx, rest) ↔
      tx.Decodes ∧ ∃ bytes, tx.serialize = .ok bytes ∧ b = bytes ++ rest) ∧
    ∀ msg, readTransaction.run b ≠ .panic msg := by
  refine ⟨fun tx rest => ?_, accepts_readTransaction.run_ne_panic b⟩
  rw [accepts_readTransaction.run_eq_ok_iff]
  constructor
  · rintro ⟨bs, ⟨hdecodes, rfl⟩, rfl⟩
    exact ⟨hdecodes, tx.wire, serialize_eq hdecodes.sized, rfl⟩
  · rintro ⟨hdecodes, bytes, hbytes, rfl⟩
    rw [serialize_eq hdecodes.sized] at hbytes
    obtain rfl := Outcome.ok.inj hbytes
    exact ⟨tx.wire, ⟨hdecodes, rfl⟩, rfl⟩

/-! ## Sessions -/

/-- The script or the stack that is attached is within the limits of the decoders. -/
def Call.WithinLimits : Call → Prop
  | .buildWithScriptSig _ scriptSig _ => scriptSig.wire.length ≤ MAX_VEC_SIZE
  | .buildWithWitness _ witness _ => Witness.WithinLimits witness

instance : (call : Call) → Decidable call.WithinLimits
  | .buildWithScriptSig _ _ _ => inferInstanceAs (Decidable (_ ≤ _))
  | .buildWithWitness _ _ _ => inferInstanceAs (Decidable (Witness.WithinLimits _))

/-- A call within the limits keeps the transaction within them. -/
theorem Step.decodes (h : Step Call.WithinLimits tx tx') (hdecodes : tx.Decodes) : tx'.Decodes := by
  obtain ⟨call, hcall, bytes, hrun⟩ := h
  obtain ⟨i, scriptSig, txType, rfl, rfl⟩ | ⟨i, witness, txType, w, rfl, hw, rfl⟩ :=
    Call.run_eq_ok hrun
  · exact Vec.forall_mem_modify hdecodes fun input hinput => ⟨hcall, (hdecodes input hinput).2⟩
  · have hpacked := Witness.fromSlice_eq_ok_iff.mp hw
    exact Vec.forall_mem_modify hdecodes fun input hinput =>
      ⟨(hdecodes input hinput).1, witness, hcall, hpacked⟩

theorem Reaches.decodes (h : Reaches Call.WithinLimits tx₀ tx) (hdecodes : tx₀.Decodes) :
    tx.Decodes := by
  induction h with
  | refl => exact hdecodes
  | tail _ step ih => exact step.decodes ih

/-- The bytes that a call returns, at any point of a session, are read as the transaction that
the session has come to, and this one has the outpoints, sequences and outputs with which the
session began. -/
theorem readTransaction_session (hdecodes : tx₀.Decodes)
    (h : Reaches Call.WithinLimits tx₀ tx) {call : Call} (hcall : call.WithinLimits)
    {bytes : Bytes} (hrun : call.run tx = .ok (bytes, tx')) (rest : Bytes) :
    readTransaction.run (bytes ++ rest) = .ok (tx', rest) ∧ tx'.frame = tx₀.frame := by
  have hstep : Reaches Call.WithinLimits tx₀ tx' := h.tail ⟨call, hcall, bytes, hrun⟩
  have hdecodes' := hstep.decodes hdecodes
  obtain ⟨n, hencode⟩ := Call.exists_encode_of_run hrun
  have hwire : (tx'.encode : ByteStream Empty ℕ).run [] = .ok (tx'.wire.length, tx'.wire) :=
    encodes_encode (fun _ => hdecodes'.sized) []
  obtain ⟨-, rfl⟩ := Prod.mk.inj (Outcome.ok.inj (hencode.symm.trans hwire))
  exact ⟨accepts_readTransaction.reads ⟨hdecodes', rfl⟩ rest, hstep.frame_eq⟩

/-- A witness for the first input and then a script for the second one. -/
theorem readTransaction_session_sampleTransaction :
    ∃ bytes tx', (Call.buildWithScriptSig 1 (sampleScript 0x51) .P2PKH).run
        (sampleTransaction (sampleInput 1 .empty sampleWitness) (sampleInput 2 .empty .new)) =
          .ok (bytes, tx') ∧
      ∀ rest, readTransaction.run (bytes ++ rest) = .ok (tx', rest) := by
  have hfresh : (sampleTransaction (sampleInput 1 .empty .new)
      (sampleInput 2 .empty .new)).Decodes := by
    intro input hinput
    rcases List.mem_pair.mp hinput with rfl | rfl
    · exact ⟨by decide, Witness.decodes_new⟩
    · exact ⟨by decide, Witness.decodes_new⟩
  have hfirst : Reaches Call.WithinLimits
      (sampleTransaction (sampleInput 1 .empty .new) (sampleInput 2 .empty .new))
      (sampleTransaction (sampleInput 1 .empty sampleWitness) (sampleInput 2 .empty .new)) :=
    .single ⟨.buildWithWitness 0 sampleStack .P2WPKH, by decide, _, rfl⟩
  have hcall : (Call.buildWithScriptSig 1 (sampleScript 0x51) .P2PKH).WithinLimits := by decide
  refine ⟨_, _, rfl, fun rest => ?_⟩
  exact (readTransaction_session hfresh hfirst hcall rfl rest).1

end BitcoinTransaction

end Bitcoin
