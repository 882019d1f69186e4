/-
# From a transaction to one that can be sent

The whole way of a Bitcoin transaction with several inputs.  The payload of each input is
built from the transaction before anything is attached, and signed by the owner of the input;
the signatures are attached in any order.  The transaction that comes out has in each input
the key and the signature of the preimage that a verifier computes from this very transaction
(`signAll_unlocked`).
-/
import OmniTransaction.BitcoinSessions
import OmniTransaction.BitcoinSighash
import OmniTransaction.BitcoinSignature

open ByteOrder Rust

namespace Bitcoin

variable {ε : Type}

/-! ## The owners of the inputs -/

/-- The outputs that pay to the hash of a key. -/
inductive KeyHashOutput where
  | P2PKH
  | P2WPKH
  deriving DecidableEq

def KeyHashOutput.txType : KeyHashOutput → TransactionType
  | .P2PKH => .P2PKH
  | .P2WPKH => .P2WPKH

/-- Who signs an input: the form of the output that is spent, its script code and value, the
key, which has 33 or 65 bytes, and the signer of payloads. -/
structure Owner where
  inputIndex : ℕ
  form : KeyHashOutput
  scriptCode : ScriptBuf
  value : UInt64
  publicKey : Vec UInt8
  publicKey_short : publicKey.length ≤ ScriptPush.maxDirect
  sign : Bytes → FixedBytes 32 × FixedBytes 32

/-- A copy in which the input is marked with its script code. -/
def BitcoinTransaction.mark (tx : BitcoinTransaction) (inputIndex : ℕ) (scriptCode : ScriptBuf) :
    Outcome Empty BitcoinTransaction := do
  let input ← tx.input.assign inputIndex fun input => { input with scriptSig := scriptCode }
  return { tx with input := input }

namespace Owner

/-- The payload of the input. -/
def payload (sha256d : Bytes → Bytes) (tx : BitcoinTransaction) (owner : Owner) :
    Outcome Empty Bytes :=
  match owner.form with
  | .P2PKH => do
      let marked ← tx.mark owner.inputIndex owner.scriptCode
      marked.buildForSigningLegacy .All
  | .P2WPKH =>
      tx.buildForSigningSegwit sha256d .All owner.inputIndex owner.scriptCode owner.value

/-- The signature of a payload as it is put into a transaction. -/
def signature (owner : Owner) (payload : Bytes) : Outcome ε Bytes :=
  serializeEcdsaSignature ((owner.sign payload).1.toList ++ (owner.sign payload).2.toList) 0x01

/-- The call that attaches a signature with the key. -/
def attach (owner : Owner) (sig : Bytes) : Outcome Empty BitcoinTransaction.Call :=
  match owner.form with
  | .P2PKH => do
      let scriptSig ← Vec.ofList (buildScriptSig sig owner.publicKey.toList)
      return .buildWithScriptSig owner.inputIndex ⟨scriptSig⟩ owner.form.txType
  | .P2WPKH => do
      let sig ← Vec.ofList sig
      return .buildWithWitness owner.inputIndex ⟨[sig, owner.publicKey], by simp⟩
        owner.form.txType

/-- Sign the input, with the signature still to be attached. -/
def call (sha256d : Bytes → Bytes) (tx : BitcoinTransaction) (owner : Owner) :
    Outcome Empty BitcoinTransaction.Call := do
  let payload ← owner.payload sha256d tx
  let sig ← owner.signature payload
  owner.attach sig

/-- The preimage that a verifier of the transaction computes for the input. -/
def preimage (sha256d : Bytes → Bytes) (frame : Frame) (owner : Owner) : Bytes :=
  match owner.form with
  | .P2PKH => frame.legacyPreimage owner.inputIndex owner.scriptCode
  | .P2WPKH => (frame.spent[owner.inputIndex]?).elim [] fun spent =>
      frame.bip143Preimage sha256d spent owner.scriptCode owner.value

/-- The input holds the signature and the key where an input of its form has them. -/
def Holds (usizeBits : ℕ) (owner : Owner) (sig : Bytes) (input : TxIn) : Prop :=
  match owner.form with
  | .P2PKH => input.witness.isEmpty ∧
      ScriptPush.pushes input.scriptSig.val.toList = some [sig, owner.publicKey.toList]
  | .P2WPKH => input.scriptSig = .empty ∧
      input.witness.toVec usizeBits = .ok [sig, owner.publicKey.toList]

end Owner

namespace BitcoinTransaction

/-- Nothing is attached yet. -/
def Fresh (tx : BitcoinTransaction) : Prop :=
  ∀ input ∈ tx.input.toList, input.scriptSig = .empty ∧ input.witness.isEmpty

/-- Sign the inputs, then attach the signatures one after the other. -/
def signAll (sha256d : Bytes → Bytes) (tx : BitcoinTransaction) (owners : List Owner) :
    Outcome Empty (Option Bytes × BitcoinTransaction) := do
  let calls ← owners.mapM (Owner.call sha256d tx)
  runAll none tx calls

end BitcoinTransaction

open BitcoinTransaction

namespace Owner

variable {sha256d : Bytes → Bytes} {tx : BitcoinTransaction} {owner : Owner} {usizeBits : ℕ}

/-- The copy has the script code at the input, and differs in nothing else. -/
theorem exists_mark {i : ℕ} (hi : i < tx.input.length) (scriptCode : ScriptBuf) :
    ∃ marked, tx.mark i scriptCode = .ok marked ∧ marked.frame = tx.frame ∧
      marked.input.toList[i]?.map TxIn.scriptSig = some scriptCode ∧
        (tx.Fresh → OthersFresh i marked) := by
  have hget : tx.input.toList[i]? = some tx.input.toList[i] := List.getElem?_eq_getElem hi
  refine ⟨_, ?_, frame_modify tx i (f := fun input => { input with scriptSig := scriptCode })
    fun _ => ⟨rfl, rfl⟩, ?_, fun hfresh => ⟨?_, ?_⟩⟩
  · rw [mark, Vec.assign, if_pos hi]
    rfl
  · rw [Vec.toList_modify, List.getElem?_modify_eq, hget]
    rfl
  · intro j input hj hne
    rw [Vec.toList_modify, List.getElem?_modify_ne _ _ (Ne.symm hne)] at hj
    exact (hfresh input (List.mem_of_getElem? hj)).1
  · have hwitness : ∀ input ∈ tx.input.toList, input.witness.isEmpty :=
      fun input hinput => (hfresh input hinput).2
    exact Vec.forall_mem_modify hwitness hwitness

/-- What is signed is the preimage. -/
theorem payload_eq (hfresh : tx.Fresh) (hindex : owner.inputIndex < tx.input.length)
    (hversion : owner.form = .P2WPKH → tx.version = .Two) :
    owner.payload sha256d tx = .ok (owner.preimage sha256d tx.frame) := by
  rcases hform : owner.form with _ | _
  · obtain ⟨marked, hmarked, hframe, hscript, hothers⟩ := exists_mark hindex owner.scriptCode
    rw [payload, preimage, hform]
    show (tx.mark _ _ >>= _) = _
    rw [hmarked, Outcome.ok_bind, (buildForSigningLegacy_eq_preimage_iff hscript).mpr
      (hothers hfresh), hframe]
  · have hspent : tx.spent[owner.inputIndex]? =
        some (tx.input.toList[owner.inputIndex].previousOutput,
          tx.input.toList[owner.inputIndex].sequence) := by
      rw [spent, List.getElem?_map, List.getElem?_eq_getElem hindex]
      rfl
    rw [payload, preimage, hform]
    show tx.buildForSigningSegwit _ _ _ _ _ = Outcome.ok ((tx.spent[owner.inputIndex]?).elim [] _)
    rw [hspent]
    exact (buildForSigningSegwit_eq_preimage_iff sha256d (hversion hform) hspent _ _).mpr
      fun input hinput => (hfresh input hinput).2

/-- A signature with its sighash type has at most 73 bytes. -/
theorem exists_signature (owner : Owner) (payload : Bytes) :
    ∃ sig, (∀ ε, (owner.signature payload : Outcome ε Bytes) = .ok sig) ∧
      sig.length ≤ ScriptPush.maxDirect := by
  refine ⟨_, fun ε => serializeEcdsaSignature_eq _ _ _, ?_⟩
  have hr := length_asn1Contents_le (owner.sign payload).1.toList
  have hs := length_asn1Contents_le (owner.sign payload).2.toList
  rw [(owner.sign payload).1.toList_length] at hr
  rw [(owner.sign payload).2.toList_length] at hs
  simp only [tagged, List.length_append, List.length_cons, List.length_nil, ScriptPush.maxDirect]
  omega

/-- The call that attaches a signature. -/
structure Attaches (usizeBits : ℕ) (owner : Owner) (sig : Bytes) (inputs : ℕ) (call : Call) :
    Prop where
  target : call.target.1 = owner.inputIndex
  allowed : call.Allowed inputs
  stackFits : call.StackFits
  holds : ∀ input : TxIn, input.scriptSig = .empty → input.witness.isEmpty →
    owner.Holds usizeBits sig (call.update input)

/-- Short strings leave room in the address space. -/
theorem length_flatMap_prefixed_le {l : List (Vec UInt8)}
    (hl : ∀ x ∈ l, x.length ≤ ScriptPush.maxDirect) :
    (l.flatMap prefixed).length ≤ 84 * l.length := by
  induction l with
  | nil => exact le_rfl
  | cons x l ih =>
    obtain ⟨hx, hl⟩ := List.forall_mem_cons.mp hl
    have hsize : (VarInt.ofLength x.length).size ≤ 9 := by
      unfold VarInt.size
      split_ifs <;> decide
    have hrest := ih hl
    unfold ScriptPush.maxDirect at hx
    rw [List.flatMap_cons, List.length_append, prefixed, List.length_append, VarInt.length_wire,
      Vec.length_toList, List.length_cons]
    omega

/-- A short signature is attached with the key. -/
theorem exists_attach (hwidth : usizeBits = 32 ∨ usizeBits = 64) {sig : Bytes}
    (hsig : sig.length ≤ ScriptPush.maxDirect) {inputs : ℕ} (hindex : owner.inputIndex < inputs) :
    ∃ call, owner.attach sig = .ok call ∧ owner.Attaches usizeBits sig inputs call := by
  have hkey := owner.publicKey_short
  unfold ScriptPush.maxDirect at hsig hkey
  rcases hform : owner.form with _ | _
  · have hlen : (buildScriptSig sig owner.publicKey.toList).length < 2 ^ 64 := by
      rw [buildScriptSig]
      simp only [List.length_append, List.length_cons, List.length_nil, Vec.length_toList]
      omega
    refine ⟨.buildWithScriptSig owner.inputIndex ⟨⟨_, hlen⟩⟩ .P2PKH, ?_, rfl,
      ⟨hindex, .inl rfl⟩, trivial, fun input _ hwitness => ?_⟩
    · rw [attach, hform, Vec.ofList, dif_pos hlen]
      rfl
    · rw [Holds, hform]
      refine ⟨hwitness, ?_⟩
      show ScriptPush.pushes (buildScriptSig sig owner.publicKey.toList) = _
      rw [buildScriptSig_eq_directScript, ScriptPush.pushes_eq_some_iff,
        ScriptPush.pushes_directScript_iff, List.forall_mem_cons, List.forall_mem_singleton]
      exact ⟨hsig, hkey⟩
  · have hlen : sig.length < 2 ^ 64 := by omega
    let stack : Vec (Vec UInt8) := ⟨[⟨sig, hlen⟩, owner.publicKey], by simp⟩
    have hcontent : (stack.toList.flatMap prefixed).length ≤ 168 :=
      length_flatMap_prefixed_le (l := [⟨sig, hlen⟩, owner.publicKey]) (by
        rw [List.forall_mem_cons, List.forall_mem_singleton]
        exact ⟨hsig, hkey⟩)
    obtain ⟨w, hw⟩ := Witness.exists_packed_of_lt stack (by omega)
    refine ⟨.buildWithWitness owner.inputIndex stack .P2WPKH, ?_, rfl,
      ⟨hindex, .inl rfl⟩, hw.offsets_fit, fun input hscript _ => ?_⟩
    · rw [attach, hform]
      show (Vec.ofList sig >>= _) = _
      rw [Vec.ofList, dif_pos hlen]
      rfl
    · rw [Holds, hform, Call.update, Witness.fromSlice_eq_ok_iff.mpr hw]
      have hroom : w.content.length + 4 < 2 ^ usizeBits := by
        rw [hw.length_content]
        show (stack.toList.flatMap prefixed).length + 2 * 4 + 4 < 2 ^ usizeBits
        rcases hwidth with rfl | rfl
        · omega
        · omega
      exact ⟨hscript, hw.toVec_eq hroom⟩

end Owner

namespace BitcoinTransaction

variable {sha256d : Bytes → Bytes} {tx : BitcoinTransaction} {call : Call} {calls : List Call}
  {owners : List Owner} {usizeBits : ℕ}

/-! ## The whole way -/

theorem frame_foldl_apply (tx : BitcoinTransaction) (calls : List Call) :
    (calls.foldl Call.apply tx).frame = tx.frame := by
  induction calls generalizing tx with
  | nil => rfl
  | cons call calls ih =>
    rw [List.foldl_cons, ih]
    apply frame_modify
    intro input
    cases call with
    | buildWithScriptSig inputIndex scriptSig txType => exact ⟨rfl, rfl⟩
    | buildWithWitness inputIndex stack txType =>
      rw [Call.update]
      split <;> exact ⟨rfl, rfl⟩

/-- Inputs that no call is for stay as they are. -/
theorem getElem?_foldl_apply_of_not_mem {j : ℕ} (hj : j ∉ calls.map fun call => call.target.1) :
    (calls.foldl Call.apply tx).input.toList[j]? = tx.input.toList[j]? := by
  induction calls generalizing tx with
  | nil => rfl
  | cons call calls ih =>
    rw [List.map_cons, List.mem_cons, not_or] at hj
    rw [List.foldl_cons, ih hj.2]
    exact List.getElem?_modify_ne _ _ (Ne.symm hj.1)

/-- An input that one call is for is updated by this call. -/
theorem getElem?_foldl_apply_of_mem (hnodup : (calls.map fun call => call.target.1).Nodup)
    (hcall : call ∈ calls) : (calls.foldl Call.apply tx).input.toList[call.target.1]? =
      tx.input.toList[call.target.1]?.map call.update := by
  induction calls generalizing tx with
  | nil => cases hcall
  | cons first calls ih =>
    rw [List.map_cons, List.nodup_cons] at hnodup
    rw [List.foldl_cons]
    rcases List.mem_cons.mp hcall with rfl | hrest
    · rw [getElem?_foldl_apply_of_not_mem hnodup.1]
      exact List.getElem?_modify_eq ..
    · -- the first call is for another input
      have hne : first.target.1 ≠ call.target.1 := fun heq =>
        hnodup.1 (heq ▸ List.mem_map_of_mem hrest)
      rw [ih hnodup.2 hrest]
      exact congrArg _ (List.getElem?_modify_ne _ _ hne)

theorem Fresh.sized (h : tx.Fresh) : tx.WitnessesSized := by
  intro input hinput
  have hempty := beq_iff_eq.mp (h input hinput).2
  rw [Witness.WellSized, hempty, Nat.zero_mul]
  exact Nat.zero_le _

/-- Each owner of a fresh transaction signs the preimage of the input. -/
theorem exists_call (hwidth : usizeBits = 32 ∨ usizeBits = 64) (hfresh : tx.Fresh)
    {owner : Owner} (hindex : owner.inputIndex < tx.input.length)
    (hversion : owner.form = .P2WPKH → tx.version = .Two) :
    ∃ call sig, owner.call sha256d tx = .ok call ∧
      (owner.signature (owner.preimage sha256d tx.frame) : Outcome Empty Bytes) = .ok sig ∧
        owner.Attaches usizeBits sig tx.input.length call := by
  obtain ⟨sig, hsig, hshort⟩ := owner.exists_signature (owner.preimage sha256d tx.frame)
  obtain ⟨call, hcall, hattaches⟩ := Owner.exists_attach hwidth hshort hindex
  refine ⟨call, sig, ?_, hsig Empty, hattaches⟩
  rw [Owner.call, Owner.payload_eq hfresh hindex hversion, Outcome.ok_bind, hsig, Outcome.ok_bind,
    hcall]

/-- Sign a transaction to which nothing is attached yet, each input by one owner, in any
order.  All orders end in one transaction and return its bytes.  It covers the same outpoints,
sequences and outputs; each of its inputs that has an owner holds, with the key, the owner's
signature of the preimage that is computed from this very transaction; and the others are as
they were. -/
theorem signAll_unlocked (hwidth : usizeBits = 32 ∨ usizeBits = 64) (sha256d : Bytes → Bytes)
    (tx : BitcoinTransaction) (hfresh : tx.Fresh) (owners : List Owner) (hne : owners ≠ [])
    (hindex : ∀ owner ∈ owners, owner.inputIndex < tx.input.length)
    (hversion : ∀ owner ∈ owners, owner.form = .P2WPKH → tx.version = .Two)
    (hnodup : (owners.map Owner.inputIndex).Nodup) :
    ∃ bytes tx', (∀ order, order.Perm owners →
        signAll sha256d tx order = .ok (some bytes, tx')) ∧
      tx'.serialize = .ok bytes ∧ tx'.frame = tx.frame ∧
      (∀ owner ∈ owners, ∃ input sig, tx'.input.toList[owner.inputIndex]? = some input ∧
        (owner.signature (owner.preimage sha256d tx'.frame) : Outcome Empty Bytes) = .ok sig ∧
        owner.Holds usizeBits sig input) ∧
      ∀ j, j ∉ owners.map Owner.inputIndex → tx'.input.toList[j]? = tx.input.toList[j]? := by
  have hexists : ∀ owner ∈ owners, ∃ call sig, owner.call sha256d tx = .ok call ∧
      (owner.signature (owner.preimage sha256d tx.frame) : Outcome Empty Bytes) = .ok sig ∧
        owner.Attaches usizeBits sig tx.input.length call := fun owner howner =>
    exists_call hwidth hfresh (hindex owner howner) (hversion owner howner)
  have : Nonempty Call := ⟨.buildWithScriptSig 0 .empty .P2PKH⟩
  choose! call sig hcall hsig hattaches using hexists
  have htargets : (owners.map call).map (fun call => call.target.1) =
      owners.map Owner.inputIndex := by
    rw [List.map_map]
    exact List.map_congr_left fun owner howner => (hattaches owner howner).target
  have hrunnable : Runnable tx.input.length (owners.map call) := by
    intro c hc
    obtain ⟨owner, howner, rfl⟩ := List.mem_map.mp hc
    exact ⟨(hattaches owner howner).allowed, (hattaches owner howner).stackFits⟩
  have hnodup' : ((owners.map call).map Call.target).Nodup := by
    rw [← htargets] at hnodup
    exact List.Nodup.of_map Prod.fst (by rwa [List.map_map])
  have hsized : ((owners.map call).foldl Call.apply tx).WitnessesSized :=
    hfresh.sized.foldl_apply fun c hc => (hrunnable c hc).2
  refine ⟨_, (owners.map call).foldl Call.apply tx, fun order horder => ?_, serialize_eq hsized,
    frame_foldl_apply .., fun owner howner => ?_, fun j hj => ?_⟩
  · have hcalls : order.mapM (Owner.call sha256d tx) = .ok (order.map call) :=
      Outcome.mapM_eq_map fun owner howner => hcall owner (horder.mem_iff.mp howner)
    have hperm : (order.map call).Perm (owners.map call) := horder.map call
    have hnil : order.map call ≠ [] := by
      intro hnil
      rw [List.map_eq_nil_iff.mp hnil] at horder
      exact hne horder.nil_eq.symm
    rw [signAll, hcalls, Outcome.ok_bind, runAll_eq (hrunnable.perm hperm) hfresh.sized,
      foldl_apply_perm hperm hnodup', if_neg hnil]
  · obtain ⟨input, hget⟩ : ∃ input, tx.input.toList[owner.inputIndex]? = some input :=
      ⟨_, List.getElem?_eq_getElem (hindex owner howner)⟩
    have hfresh' := hfresh input (List.mem_of_getElem? hget)
    refine ⟨_, sig owner, ?_, ?_, (hattaches owner howner).holds _ hfresh'.1 hfresh'.2⟩
    · have hupdate : ((owners.map call).foldl Call.apply tx).input.toList[(call owner).target.1]? =
          tx.input.toList[(call owner).target.1]?.map (call owner).update :=
        getElem?_foldl_apply_of_mem (by rwa [htargets]) (List.mem_map_of_mem howner)
      rw [(hattaches owner howner).target, hget] at hupdate
      exact hupdate
    · rw [frame_foldl_apply]
      exact hsig owner howner
  · exact getElem?_foldl_apply_of_not_mem (by rwa [htargets])

/-- Two owners, each with a fixed signature, of a legacy output and of a segwit output. -/
def sampleOwners : List Owner :=
  [{ inputIndex := 1, form := .P2PKH, scriptCode := sampleScript 0x76, value := 20000,
     publicKey := ⟨[0x02, 0x11], by decide⟩, publicKey_short := by decide,
     sign := fun _ => shortSignature },
   { inputIndex := 0, form := .P2WPKH, scriptCode := sampleScript 0x77, value := 10000,
     publicKey := ⟨[0x03, 0x22], by decide⟩, publicKey_short := by decide,
     sign := fun payload => (.replicate 32 (payload.headD 0), .replicate 32 0x33) }]

theorem signAll_unlocked_sampleOwners :
    ∃ bytes tx', (∀ order, order.Perm sampleOwners → signAll sampleSha256d
        (sampleTransaction (sampleInput 1 .empty .new) (sampleInput 2 .empty .new)) order =
          .ok (some bytes, tx')) ∧
      tx'.serialize = .ok bytes ∧ tx'.frame = sampleFrame := by
  obtain ⟨bytes, tx', horders, hbytes, hframe, -⟩ :=
    signAll_unlocked (.inr rfl : 64 = 32 ∨ 64 = 64) sampleSha256d
      (sampleTransaction (sampleInput 1 .empty .new) (sampleInput 2 .empty .new))
      (by
        intro input hinput
        rcases List.mem_pair.mp hinput with rfl | rfl
        · exact ⟨rfl, rfl⟩
        · exact ⟨rfl, rfl⟩)
      sampleOwners (List.cons_ne_nil _ _) (by decide) (fun _ _ _ => rfl) (by decide)
  exact ⟨bytes, tx', horders, hbytes, hframe⟩

end BitcoinTransaction

end Bitcoin
