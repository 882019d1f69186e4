/-
# Attaching signatures in any order

A list of calls that complete the inputs of a transaction, no two of them writing
the same field of the same input.  Calls on different places commute, so every order
ends in the same transaction and the last call returns the same bytes; on the way
each call changes its own field only, and what the transaction identifier is hashed
from stays as it is (`orderIndependent_iff`).

A call encodes the whole transaction and panics when some witness does not hold the
index area that it announces.  Then the order matters: a call that replaces that
witness must come first.
-/
import OmniTransaction.BitcoinSerialization
import OmniTransaction.WitnessStack

open ByteOrder Rust PrefixCode

namespace Bitcoin

variable {ε : Type}

/-! ## Lists of calls -/

/-- The fields that are written when signatures are attached. -/
inductive Field where
  | scriptSig
  | witness
  deriving DecidableEq

namespace BitcoinTransaction

/-- What a call writes. -/
def Call.target : Call → ℕ × Field
  | .buildWithScriptSig inputIndex _ _ => (inputIndex, .scriptSig)
  | .buildWithWitness inputIndex _ _ => (inputIndex, .witness)

/-- The index is in range and the type is one that the method takes. -/
def Call.Allowed (inputs : ℕ) : Call → Prop
  | .buildWithScriptSig inputIndex _ txType =>
      inputIndex < inputs ∧ (txType = .P2PKH ∨ txType = .P2SH)
  | .buildWithWitness inputIndex _ txType =>
      inputIndex < inputs ∧ (txType = .P2WPKH ∨ txType = .P2WSH)

/-- The elements of the stack start at offsets that fit in four bytes. -/
def Call.StackFits : Call → Prop
  | .buildWithScriptSig _ _ _ => True
  | .buildWithWitness _ witness _ => ∀ start ∈ starts 0 witness.toList, start < 2 ^ 32

instance (inputs : ℕ) : (call : Call) → Decidable (call.Allowed inputs)
  | .buildWithScriptSig _ _ _ => inferInstanceAs (Decidable (_ ∧ _))
  | .buildWithWitness _ _ _ => inferInstanceAs (Decidable (_ ∧ _))

/-- Run the calls one after the other; the bytes are those of the last call. -/
def runAll : Option Bytes → BitcoinTransaction → List Call →
    Outcome Empty (Option Bytes × BitcoinTransaction)
  | last, tx, [] => .ok (last, tx)
  | _, tx, call :: calls => do
      let (bytes, tx) ← call.run tx
      runAll (some bytes) tx calls

/-- The call has changed its field of its input and nothing else. -/
structure ChangesOnly (call : Call) (tx tx' : BitcoinTransaction) : Prop where
  version : tx'.version = tx.version
  lockTime : tx'.lockTime = tx.lockTime
  output : tx'.output = tx.output
  length : tx'.input.length = tx.input.length
  others : ∀ j, j ≠ call.target.1 → tx'.input.toList[j]? = tx.input.toList[j]?
  written : ∀ input, tx.input.toList[call.target.1]? = some input →
    match call with
    | .buildWithScriptSig inputIndex scriptSig _ =>
        tx'.input.toList[inputIndex]? = some { input with scriptSig := scriptSig }
    | .buildWithWitness inputIndex stack _ =>
        ∃ w, (Witness.fromSlice stack : Outcome Empty Witness) = .ok w ∧
          tx'.input.toList[inputIndex]? = some { input with witness := w }

/-- `serialize()` with marker, flag and the witness section removed: the marker and the
flag stand behind the four bytes of the version, the witnesses in front of the four bytes
of the lock time. -/
def serializeWithoutWitness (tx : BitcoinTransaction) : Outcome Empty Bytes := do
  let bytes ← tx.serialize
  if tx.usesSegwitSerialization then do
    let witnesses ← encodeList (fun input : TxIn => input.witness.encode) tx.input.toList
    return bytes.take 4 ++ ((bytes.drop 6).take (bytes.length - 10 - witnesses.length)
      ++ bytes.drop (bytes.length - 4))
  else return bytes

/-- The transaction with all witnesses emptied. -/
def emptied (tx : BitcoinTransaction) : BitcoinTransaction :=
  { tx with input := tx.input.map fun input => { input with witness := .new } }

/-- Signatures are attached in any order. -/
structure OrderIndependent (tx : BitcoinTransaction) (calls : List Call) : Prop where
  /-- Every permutation ends in the same transaction, and the last call returns the same
  bytes. -/
  same_end : ∃ result, ∀ calls', calls'.Perm calls → runAll none tx calls' = .ok result
  /-- In every state on the way the non-witness serialization is that of the transaction
  without its witnesses. -/
  state : ∀ done left, (done ++ left).Perm calls → ∃ last t, runAll none tx done = .ok (last, t) ∧
    ∃ bytes, t.serializeWithoutWitness = .ok bytes ∧ t.emptied.serialize = .ok bytes
  /-- Every call on the way returns the serialization of the new state, in which its field
  only has changed; the non-witness serialization stays when it attaches a witness. -/
  step : ∀ done call left, (done ++ call :: left).Perm calls → ∃ last t bytes t',
    runAll none tx done = .ok (last, t) ∧ call.run t = .ok (bytes, t') ∧
      ChangesOnly call t t' ∧ t'.serialize = .ok bytes ∧
      (call.target.2 = .witness → t'.serializeWithoutWitness = t.serializeWithoutWitness)

/-! ## The effect of a call -/

/-- What a call that returns makes of its input. -/
def Call.update : Call → TxIn → TxIn
  | .buildWithScriptSig _ scriptSig _, input => { input with scriptSig := scriptSig }
  | .buildWithWitness _ stack _, input =>
      match (Witness.fromSlice stack : Outcome Empty Witness) with
      | .ok w => { input with witness := w }
      | _ => input

/-- The transaction after a call that returns. -/
def Call.apply (tx : BitcoinTransaction) (call : Call) : BitcoinTransaction :=
  { tx with input := tx.input.modify call.target.1 call.update }

variable {tx : BitcoinTransaction} {call : Call} {calls : List Call}

theorem length_input_apply (tx : BitcoinTransaction) (call : Call) :
    (call.apply tx).input.length = tx.input.length := List.length_modify ..

/-- A stack that fits can be packed. -/
theorem fromSlice_of_stackFits {inputIndex : ℕ} {stack : Vec (Vec UInt8)}
    {txType : TransactionType} (h : (Call.buildWithWitness inputIndex stack txType).StackFits) :
    ∃ w, Witness.Packed w stack ∧ (Witness.fromSlice stack : Outcome Empty Witness) = .ok w := by
  obtain ⟨w, hw⟩ := (Witness.exists_packed_iff stack).mpr h
  exact ⟨w, hw, Witness.fromSlice_eq_ok_iff.mpr hw⟩

/-- What a call attaches can be written. -/
theorem WitnessesSized.apply (h : tx.WitnessesSized) (hcall : call.StackFits) :
    (call.apply tx).WitnessesSized := by
  apply Vec.forall_mem_modify h
  intro input hinput
  cases call with
  | buildWithScriptSig inputIndex scriptSig txType => exact h input hinput
  | buildWithWitness inputIndex stack txType =>
      obtain ⟨w, hpacked, hw⟩ := fromSlice_of_stackFits hcall
      rw [Call.update, hw]
      exact hpacked.wellSized

/-- An allowed call returns the bytes of the new state. -/
theorem Call.run_eq (hallowed : call.Allowed tx.input.length) (hfits : call.StackFits)
    (h : tx.WitnessesSized) : call.run tx = .ok ((call.apply tx).wire, call.apply tx) := by
  have hencode : ((call.apply tx).encode : ByteStream Empty ℕ).run []
      = .ok ((call.apply tx).wire.length, (call.apply tx).wire) :=
    encodes_encode (fun _ => h.apply hfits) []
  cases call with
  | buildWithScriptSig inputIndex scriptSig txType =>
      obtain ⟨hindex, htype⟩ := hallowed
      have hset : tx.setScriptSig inputIndex scriptSig txType
          = .ok ((Call.buildWithScriptSig inputIndex scriptSig txType).apply tx) := by
        rcases htype with rfl | rfl
        · rw [setScriptSig, Vec.assign, if_pos hindex]
          rfl
        · rw [setScriptSig, Vec.assign, if_pos hindex]
          rfl
      rw [Call.run, BitcoinTransaction.buildWithScriptSig, hset, Outcome.ok_bind, hencode]
      rfl
  | buildWithWitness inputIndex stack txType =>
      obtain ⟨hindex, htype⟩ := hallowed
      obtain ⟨w, -, hw⟩ := fromSlice_of_stackFits hfits
      have hupdate : (Call.buildWithWitness inputIndex stack txType).update
          = fun input => { input with witness := w } := by
        funext input
        rw [Call.update, hw]
      have hset : tx.setWitness inputIndex stack txType
          = .ok ((Call.buildWithWitness inputIndex stack txType).apply tx) := by
        rw [Call.apply, hupdate]
        rcases htype with rfl | rfl
        · rw [setWitness, hw, Outcome.ok_bind, Vec.assign, if_pos hindex]
          rfl
        · rw [setWitness, hw, Outcome.ok_bind, Vec.assign, if_pos hindex]
          rfl
      rw [Call.run, BitcoinTransaction.buildWithWitness, hset, Outcome.ok_bind, hencode]
      rfl

/-- A call changes the one field that it is for. -/
theorem changesOnly_apply (hfits : call.StackFits) : ChangesOnly call tx (call.apply tx) where
  version := rfl
  lockTime := rfl
  output := rfl
  length := length_input_apply tx call
  others j hj := List.getElem?_modify_ne _ _ (Ne.symm hj)
  written input hinput := by
    have hget : (call.apply tx).input.toList[call.target.1]? = some (call.update input) := by
      show (tx.input.toList.modify _ _)[_]? = _
      rw [List.getElem?_modify_eq, hinput]
      rfl
    cases call with
    | buildWithScriptSig inputIndex scriptSig txType => exact hget
    | buildWithWitness inputIndex stack txType =>
        obtain ⟨w, -, hw⟩ := fromSlice_of_stackFits hfits
        rw [Call.update, hw] at hget
        exact ⟨w, hw, hget⟩

/-- Updates of different fields commute. -/
theorem Call.update_comm {a b : Call} (h : a.target.2 ≠ b.target.2) (input : TxIn) :
    a.update (b.update input) = b.update (a.update input) := by
  cases a with
  | buildWithScriptSig i scriptSig txType =>
      cases b with
      | buildWithScriptSig j scriptSig' txType' => exact absurd rfl h
      | buildWithWitness j stack txType' =>
          simp only [Call.update]
          split <;> rfl
  | buildWithWitness i stack txType =>
      cases b with
      | buildWithScriptSig j scriptSig txType' =>
          simp only [Call.update]
          split <;> rfl
      | buildWithWitness j stack' txType' => exact absurd rfl h

/-- Calls that write different places commute. -/
theorem Call.apply_comm {a b : Call} (h : a.target ≠ b.target) (tx : BitcoinTransaction) :
    b.apply (a.apply tx) = a.apply (b.apply tx) := by
  have hinput : (tx.input.toList.modify a.target.1 a.update).modify b.target.1 b.update
      = (tx.input.toList.modify b.target.1 b.update).modify a.target.1 a.update := by
    by_cases hindex : a.target.1 = b.target.1
    · -- the same input, so different fields
      have hfield : a.target.2 ≠ b.target.2 := fun hfield => h (Prod.ext hindex hfield)
      rw [hindex, List.modify_modify_eq, List.modify_modify_eq]
      congr 1
      funext input
      exact (Call.update_comm hfield input).symm
    · exact List.modify_modify_ne _ _ _ hindex
  exact BitcoinTransaction.ext rfl rfl (Vec.ext hinput) rfl

/-! ## Runs -/

/-- Every call is allowed, and its stack fits. -/
def Runnable (inputs : ℕ) (calls : List Call) : Prop :=
  ∀ call ∈ calls, call.Allowed inputs ∧ call.StackFits

/-- After all calls everything can be written. -/
theorem WitnessesSized.foldl_apply (h : tx.WitnessesSized)
    (hcalls : ∀ call ∈ calls, call.StackFits) : (calls.foldl Call.apply tx).WitnessesSized := by
  induction calls generalizing tx with
  | nil => exact h
  | cons call calls ih =>
      obtain ⟨hcall, hcalls⟩ := List.forall_mem_cons.mp hcalls
      exact ih (h.apply hcall) hcalls

/-- All calls together add no input. -/
theorem length_input_foldl_apply (tx : BitcoinTransaction) (calls : List Call) :
    (calls.foldl Call.apply tx).input.length = tx.input.length := by
  induction calls generalizing tx with
  | nil => rfl
  | cons call calls ih => rw [List.foldl_cons, ih, length_input_apply]

/-- A run returns the bytes of the state it ends in. -/
theorem runAll_eq (hcalls : Runnable tx.input.length calls) (h : tx.WitnessesSized)
    (last : Option Bytes) : runAll last tx calls =
      .ok (if calls = [] then last else some (calls.foldl Call.apply tx).wire,
        calls.foldl Call.apply tx) := by
  induction calls generalizing tx last with
  | nil => rfl
  | cons call calls ih =>
      obtain ⟨⟨hallowed, hfits⟩, hrest⟩ := List.forall_mem_cons.mp hcalls
      rw [runAll, Call.run_eq hallowed hfits h, Outcome.ok_bind]
      dsimp only
      rw [ih (by rw [length_input_apply]; exact hrest) (h.apply hfits), List.foldl_cons,
        if_neg (List.cons_ne_nil _ _)]
      by_cases hnil : calls = []
      · subst hnil
        rfl
      · rw [if_neg hnil]

/-- Calls for different fields may be made in any order. -/
theorem foldl_apply_perm {calls' : List Call} (hperm : calls'.Perm calls)
    (htargets : (calls.map Call.target).Nodup) (tx : BitcoinTransaction) :
    calls'.foldl Call.apply tx = calls.foldl Call.apply tx := by
  apply hperm.foldl_eq'
  intro a ha b hb t
  by_cases hab : a = b
  · rw [hab]
  · have hne : a.target ≠ b.target := fun htarget =>
      hab (List.inj_on_of_nodup_map htargets (hperm.mem_iff.mp ha) (hperm.mem_iff.mp hb) htarget)
    exact Call.apply_comm hne t

/-! ## The non-witness serialization -/

/-- What is left of the bytes of a transaction without marker, flag and witnesses. -/
def strippedWire (tx : BitcoinTransaction) : Bytes :=
  tx.version.wire ++ (tx.baseWire ++ tx.lockTime.wire)

theorem serializeWithoutWitness_eq (h : tx.WitnessesSized) :
    tx.serializeWithoutWitness = .ok tx.strippedWire := by
  rw [serializeWithoutWitness, serialize_eq h, Outcome.ok_bind]
  by_cases hform : tx.usesSegwitSerialization = true
  · let witnesses := tx.input.toList.flatMap fun input => input.witness.wire
    have hversion : tx.version.wire.length = 4 := length_leBytes ..
    have hlock : tx.lockTime.wire.length = 4 := length_leBytes ..
    have hsection : encodeList (ε := Empty) (fun input : TxIn => input.witness.encode)
        tx.input.toList = .ok witnesses :=
      encodeList_eq fun input hinput => Witness.encodes_encode (h input hinput)
    have hwire : tx.wire = (tx.version.wire ++ [SEGWIT_MARKER, SEGWIT_FLAG]) ++
        (tx.baseWire ++ (witnesses ++ tx.lockTime.wire)) := by
      rw [wire, bodyWire, hform, Bool.not_true, if_neg (by decide)]
      simp only [witnesses, List.append_assoc, List.cons_append, List.nil_append]
    have hlen : tx.wire.length = 10 + tx.baseWire.length + witnesses.length := by
      rw [hwire]
      simp only [List.length_append, List.length_cons, List.length_nil, hversion, hlock]
      omega
    -- the three cuts fall between the parts
    have htake : tx.wire.take 4 = tx.version.wire := by
      rw [hwire, List.append_assoc]
      exact List.take_left' hversion
    have hbody : (tx.wire.drop 6).take (tx.wire.length - 10 - witnesses.length)
        = tx.baseWire := by
      have hdrop : tx.wire.drop 6 = tx.baseWire ++ (witnesses ++ tx.lockTime.wire) := by
        rw [hwire]
        apply List.drop_left'
        simp only [List.length_append, List.length_cons, List.length_nil, hversion]
      rw [hdrop, hlen]
      apply List.take_left'
      omega
    have hend : tx.wire.drop (tx.wire.length - 4) = tx.lockTime.wire := by
      have hassoc : tx.wire = ((tx.version.wire ++ [SEGWIT_MARKER, SEGWIT_FLAG]) ++
          (tx.baseWire ++ witnesses)) ++ tx.lockTime.wire := by
        rw [hwire]
        simp only [List.append_assoc]
      rw [hlen, hassoc]
      apply List.drop_left'
      simp only [List.length_append, List.length_cons, List.length_nil, hversion]
      omega
    rw [if_pos hform, hsection, Outcome.ok_bind, htake, hbody, hend]
    rfl
  · rw [if_neg hform, wire, bodyWire, if_pos (by simpa using hform)]
    rfl

/-- Taking out the witnesses changes nothing else. -/
theorem baseWire_emptied (tx : BitcoinTransaction) : tx.emptied.baseWire = tx.baseWire := by
  have hinput : tx.emptied.input.toList.map TxIn.base = tx.input.toList.map TxIn.base := by
    show (tx.input.toList.map _).map TxIn.base = _
    rw [List.map_map]
    rfl
  exact baseWire_congr hinput rfl

/-- Without witnesses a transaction with inputs has the legacy form. -/
theorem serialize_emptied (h : 0 < tx.input.length) :
    tx.emptied.serialize = .ok tx.strippedWire := by
  have hfresh : ∀ input ∈ tx.emptied.input.toList, input.witness = .new := by
    intro input hinput
    obtain ⟨input, -, rfl⟩ := List.mem_map.mp hinput
    rfl
  have hsized : tx.emptied.WitnessesSized := by
    intro input hinput
    rw [hfresh input hinput]
    exact le_rfl
  have hlegacy : tx.emptied.usesSegwitSerialization = false := by
    rw [usesSegwitSerialization_eq_false_iff]
    constructor
    · intro input hinput
      rw [hfresh input hinput]
      rfl
    · have hlen : tx.emptied.input.length = tx.input.length := List.length_map ..
      omega
  rw [serialize_eq hsized, wire, bodyWire, hlegacy, Bool.not_false, if_pos rfl, baseWire_emptied]
  rfl

/-- A witness is not part of what is left. -/
theorem strippedWire_apply (hcall : call.target.2 = .witness) (tx : BitcoinTransaction) :
    (call.apply tx).strippedWire = tx.strippedWire := by
  cases call with
  | buildWithScriptSig inputIndex scriptSig txType => cases hcall
  | buildWithWitness inputIndex stack txType =>
      have hbase : ∀ input, ((Call.buildWithWitness inputIndex stack txType).update input).base
          = input.base := by
        intro input
        rw [Call.update]
        split <;> rfl
      have hinput : (tx.input.toList.modify inputIndex
          (Call.buildWithWitness inputIndex stack txType).update).map TxIn.base
          = tx.input.toList.map TxIn.base := by
        apply List.ext_getElem
        · simp
        · intro j h₁ h₂
          simp only [List.getElem_map, List.getElem_modify]
          split_ifs
          · exact hbase _
          · rfl
      have hwire := baseWire_congr
        (a := (Call.buildWithWitness inputIndex stack txType).apply tx) hinput rfl
      rw [strippedWire, strippedWire, hwire]
      rfl

/-! ## The order of the calls -/

/-- A witness that is encoded holds the index area that it announces. -/
theorem wellSized_of_encode {w : Witness} {buf : Bytes} {r : ℕ × Bytes}
    (h : (w.encode : ByteStream Empty ℕ).run buf = .ok r) : w.WellSized := by
  unfold Witness.encode at h
  obtain ⟨len, buf', -, h⟩ := ByteStream.run_bind_eq_ok_iff.mp h
  by_contra hsize
  rw [if_pos (Nat.lt_of_not_le hsize)] at h
  cases h

/-- If the loop returns, every element could be written. -/
theorem exists_run_of_encodeEach {α : Type} {enc : α → ByteStream Empty ℕ} {l : List α} {len : ℕ}
    {buf : Bytes} {r : ℕ × Bytes} (h : (encodeEach enc len l).run buf = .ok r) :
    ∀ a ∈ l, ∃ buf' r', (enc a).run buf' = .ok r' := by
  induction l generalizing len buf with
  | nil => simp
  | cons a l ih =>
      rw [encodeEach, List.foldlM_cons] at h
      obtain ⟨len', buf', ha, hl⟩ := ByteStream.run_bind_eq_ok_iff.mp h
      obtain ⟨n, buf'', hrun, -⟩ := ByteStream.run_bind_eq_ok_iff.mp ha
      exact List.forall_mem_cons.mpr ⟨⟨_, _, hrun⟩, ih hl⟩

/-- A transaction that can be serialized has no witness that announces too much. -/
theorem witnessesSized_of_serialize {bytes : Bytes} (h : tx.serialize = .ok bytes) :
    tx.WitnessesSized := by
  by_cases hform : tx.usesSegwitSerialization = true
  · -- the witnesses are encoded
    obtain ⟨r, hrun, -⟩ := Outcome.bind_eq_ok_iff.mp h
    obtain ⟨len, buf, -, hrun⟩ := ByteStream.run_bind_eq_ok_iff.mp hrun
    obtain ⟨len', buf', hbody, -⟩ := ByteStream.run_bind_eq_ok_iff.mp hrun
    rw [encodeBody, hform, Bool.not_true, if_neg (by decide)] at hbody
    obtain ⟨_, _, -, hbody⟩ := ByteStream.run_bind_eq_ok_iff.mp hbody
    obtain ⟨_, _, -, hbody⟩ := ByteStream.run_bind_eq_ok_iff.mp hbody
    obtain ⟨_, _, -, hbody⟩ := ByteStream.run_bind_eq_ok_iff.mp hbody
    obtain ⟨_, _, -, hbody⟩ := ByteStream.run_bind_eq_ok_iff.mp hbody
    intro input hinput
    obtain ⟨_, _, hencode⟩ := exists_run_of_encodeEach hbody input hinput
    exact wellSized_of_encode hencode
  · -- all witnesses are empty
    have hempty := (usesSegwitSerialization_eq_false_iff.mp (by simpa using hform)).1
    intro input hinput
    have hzero : input.witness.witnessElements = 0 := by
      simpa [Witness.isEmpty] using hempty input hinput
    rw [Witness.WellSized, hzero]
    omega

/-- A call with a witness that returns has packed its stack. -/
theorem Call.stackFits_of_run {r : Bytes × BitcoinTransaction} (h : call.run tx = .ok r) :
    call.StackFits := by
  obtain ⟨bytes, tx'⟩ := r
  rcases Call.run_eq_ok h with ⟨i, scriptSig, txType, rfl, -⟩ | ⟨i, stack, txType, w, rfl, hw, -⟩
  · trivial
  · exact (Witness.fromSlice_eq_ok_iff.mp hw).offsets_fit

/-- The order does not matter for that. -/
theorem Runnable.perm {inputs : ℕ} {calls' : List Call} (h : Runnable inputs calls)
    (hperm : calls'.Perm calls) : Runnable inputs calls' :=
  fun call hcall => h call (hperm.mem_iff.mp hcall)

/-- The first calls can be made if all can. -/
theorem Runnable.of_append_left {inputs : ℕ} {done left : List Call}
    (h : Runnable inputs (done ++ left)) : Runnable inputs done :=
  fun call hcall => h call (List.mem_append_left left hcall)

/-- Calls that fit can be made in any order on a transaction that can be serialized. -/
theorem orderIndependent_of_sized (hinput : 0 < tx.input.length)
    (hcalls : Runnable tx.input.length calls) (htargets : (calls.map Call.target).Nodup)
    (h : tx.WitnessesSized) : OrderIndependent tx calls where
  same_end := by
    refine ⟨(if calls = [] then none else some (calls.foldl Call.apply tx).wire,
      calls.foldl Call.apply tx), ?_⟩
    intro calls' hperm
    have hnil : calls' = [] ↔ calls = [] := by
      rw [← List.length_eq_zero_iff, ← List.length_eq_zero_iff, hperm.length_eq]
    rw [runAll_eq (hcalls.perm hperm) h, foldl_apply_perm hperm htargets]
    simp only [hnil]
  state := by
    intro done left hperm
    have hdone := (hcalls.perm hperm).of_append_left
    have hsized := h.foldl_apply fun call hcall => (hdone call hcall).2
    have hlen : 0 < (done.foldl Call.apply tx).input.length := by
      rw [length_input_foldl_apply]
      exact hinput
    exact ⟨_, _, runAll_eq hdone h none, _, serializeWithoutWitness_eq hsized,
      serialize_emptied hlen⟩
  step := by
    intro done call left hperm
    have hall := hcalls.perm hperm
    have hdone := hall.of_append_left
    have hsized := h.foldl_apply fun call hcall => (hdone call hcall).2
    obtain ⟨hallowed, hfits⟩ := hall call (List.mem_append_right done List.mem_cons_self)
    rw [← length_input_foldl_apply tx done] at hallowed
    have hsized' := hsized.apply hfits
    refine ⟨_, _, _, _, runAll_eq hdone h none, Call.run_eq hallowed hfits hsized,
      changesOnly_apply hfits, serialize_eq hsized', ?_⟩
    intro hwitness
    rw [serializeWithoutWitness_eq hsized', serializeWithoutWitness_eq hsized,
      strippedWire_apply hwitness]

/-- Signatures can be attached in any order when the transaction can be serialized and
every stack has a packed form. -/
theorem orderIndependent_iff (tx : BitcoinTransaction) (calls : List Call)
    (hinput : 0 < tx.input.length) (hallowed : ∀ call ∈ calls, call.Allowed tx.input.length)
    (htargets : (calls.map Call.target).Nodup) :
    OrderIndependent tx calls ↔ tx.WitnessesSized ∧ ∀ call ∈ calls, call.StackFits := by
  constructor
  · intro h
    constructor
    · obtain ⟨last, t, hrun, bytes, hbytes, -⟩ := h.state [] calls (List.Perm.refl calls)
      obtain ⟨-, rfl⟩ := Prod.mk.inj (Outcome.ok.inj hrun)
      obtain ⟨serialized, hserialize, -⟩ := Outcome.bind_eq_ok_iff.mp hbytes
      exact witnessesSized_of_serialize hserialize
    · intro call hcall
      obtain ⟨done, left, rfl⟩ := List.append_of_mem hcall
      obtain ⟨last, t, bytes, t', -, hrun, -⟩ := h.step done call left (List.Perm.refl _)
      exact Call.stackFits_of_run hrun
  · rintro ⟨hsized, hfits⟩
    have hcalls : Runnable tx.input.length calls := fun call hcall =>
      ⟨hallowed call hcall, hfits call hcall⟩
    exact orderIndependent_of_sized hinput hcalls htargets hsized

/-- Two inputs, the first completed with a witness and the second with a script. -/
def sampleCalls : List Call :=
  [.buildWithWitness 0 sampleStack .P2WPKH, .buildWithScriptSig 1 (sampleScript 0x51) .P2PKH]

/-- A script and a witness, for two inputs. -/
theorem orderIndependent_sampleCalls :
    OrderIndependent (sampleTransaction (sampleInput 1 .empty .new) (sampleInput 2 .empty .new))
      sampleCalls :=
  (orderIndependent_iff
    (sampleTransaction (sampleInput 1 .empty .new) (sampleInput 2 .empty .new)) sampleCalls
    (by decide) (by decide) (by decide)).mpr ⟨by decide, by
      intro call hcall
      rcases List.mem_pair.mp hcall with rfl | rfl
      · have hpacked := Witness.fromSlice_eq_ok_iff.mp fromSlice_sampleStack
        exact hpacked.offsets_fit
      · trivial⟩

/-- A witness that was read with fields that do not agree. -/
def hollowTransaction : BitcoinTransaction :=
  sampleTransaction (sampleInput 1 .empty .hollow) (sampleInput 2 .empty .new)

/-- An empty stack for the first input, then a script for the second. -/
def clearingCalls : List Call :=
  [.buildWithWitness 0 ⟨[], by decide⟩ .P2WPKH,
    .buildWithScriptSig 1 (sampleScript 0x51) .P2PKH]

/-- With a witness that announces too much the calls return in one order and panic in the
other. -/
theorem not_orderIndependent_hollowTransaction :
    (∃ result, runAll none hollowTransaction clearingCalls = .ok result) ∧
    (∀ result, runAll none hollowTransaction clearingCalls.reverse ≠ .ok result) ∧
    ¬ ∀ (tx : BitcoinTransaction) (calls : List Call), 0 < tx.input.length →
      (∀ call ∈ calls, call.Allowed tx.input.length) → (calls.map Call.target).Nodup →
        OrderIndependent tx calls := by
  have hpanics : ∀ result, runAll none hollowTransaction clearingCalls.reverse ≠ .ok result := by
    intro result h
    cases h
  refine ⟨⟨_, rfl⟩, hpanics, fun h => ?_⟩
  obtain ⟨result, hend⟩ :=
    (h hollowTransaction clearingCalls (by decide) (by decide) (by decide)).same_end
  exact hpanics result (hend _ (List.reverse_perm clearingCalls))

end BitcoinTransaction

end Bitcoin
