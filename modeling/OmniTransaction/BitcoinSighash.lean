/-
# What the Bitcoin signing payloads commit to

The segwit payload is compared with the BIP-143 preimage and the legacy payload
with the preimage of `SIGHASH_ALL`, both written from the parts of a transaction
that signatures cover (`Frame`).  A signing session leaves these parts alone, so
in every state of a session the two agree exactly as long as nothing that was
attached shows up in the payload: a witness, or the `script_sig` of another
input.  The BIP-143 preimage determines the parts it is made of.
-/
import OmniTransaction.BitcoinSerialization

open ByteOrder Rust PrefixCode

namespace Bitcoin

variable {ε α : Type}

/-! ## The preimages -/

namespace Frame

/-- The strings that are hashed into the preimage. -/
def prevouts (frame : Frame) : Bytes := frame.spent.flatMap fun spent => spent.1.wire

def sequences (frame : Frame) : Bytes := frame.spent.flatMap fun spent => spent.2.wire

/-- The outputs, one behind the other. -/
def outputs (frame : Frame) : Bytes := frame.output.toList.flatMap TxOut.wire

/-- What is hashed in a payload. -/
def hashed (frame : Frame) : List Bytes := [frame.prevouts, frame.sequences, frame.outputs]

/-- The BIP-143 preimage behind the version, for the input with the given outpoint
and sequence. -/
def bip143Tail (sha256d : Bytes → Bytes) (frame : Frame) (spent : OutPoint × Sequence)
    (scriptCode : ScriptBuf) (value : UInt64) : Bytes :=
  sha256d frame.prevouts ++ (sha256d frame.sequences ++ (spent.1.wire ++ (scriptCode.wire ++
    (leBytes 8 value.toNat ++ (spent.2.wire ++ (sha256d frame.outputs ++
      (frame.lockTime.wire ++ [1, 0, 0, 0])))))))

/-- The BIP-143 preimage. -/
def bip143Preimage (sha256d : Bytes → Bytes) (frame : Frame) (spent : OutPoint × Sequence)
    (scriptCode : ScriptBuf) (value : UInt64) : Bytes :=
  frame.version.wire ++ frame.bip143Tail sha256d spent scriptCode value

/-- The inputs with the script code at input `i` and empty scripts elsewhere. -/
def legacyInputs (frame : Frame) (i : ℕ) (scriptCode : ScriptBuf) :
    List (OutPoint × ScriptBuf × Sequence) :=
  frame.spent.mapIdx fun j spent => (spent.1, if j = i then scriptCode else .empty, spent.2)

/-- The legacy preimage of input `i` for `SIGHASH_ALL`. -/
def legacyPreimage (frame : Frame) (i : ℕ) (scriptCode : ScriptBuf) : Bytes :=
  frame.version.wire ++ ((VarInt.ofLength frame.spent.length).wire ++
    ((frame.legacyInputs i scriptCode).flatMap TxIn.wire ++ (vecWire TxOut.wire frame.output ++
      (frame.lockTime.wire ++ [1, 0, 0, 0]))))

end Frame

/-! ## The segwit payload -/

/-- A value that is computed writes nothing. -/
theorem writes_lift {x : Outcome ε α} {a : α} (hx : x = .ok a) :
    Writes (StateT.lift x : ByteStream ε α) a [] := by
  subst hx
  exact writes_pure a

namespace BitcoinTransaction

variable {tx tx₀ : BitcoinTransaction}

/-- What the payload carries between version and preimage: nothing, until a
witness is attached. -/
def markerWire (tx : BitcoinTransaction) : Bytes :=
  if tx.hasWitness then [SEGWIT_MARKER, SEGWIT_FLAG] else []

/-- The marker and the flag are written when some input has a witness. -/
theorem writes_emitMarkerAndFlag (tx : BitcoinTransaction) :
    Writes (tx.emitMarkerAndFlag : ByteStream ε Unit) () tx.markerWire := by
  unfold emitMarkerAndFlag markerWire
  split_ifs
  · exact (writes_writeAll [SEGWIT_MARKER]).bind (writes_writeAll [SEGWIT_FLAG])
  · exact writes_pure ()

/-- The payload is the BIP-143 preimage with the marker in it. -/
theorem buildForSigningSegwit_eq (sha256d : Bytes → Bytes) (hversion : tx.version = .Two)
    {i : ℕ} {spent : OutPoint × Sequence} (hi : tx.spent[i]? = some spent)
    (scriptCode : ScriptBuf) (value : UInt64) :
    tx.buildForSigningSegwit sha256d .All i scriptCode value
      = .ok (tx.version.wire ++ (tx.markerWire ++
          tx.frame.bip143Tail sha256d spent scriptCode value)) := by
  obtain ⟨input, hinput, rfl⟩ : ∃ input, tx.input.toList[i]? = some input ∧
      (input.previousOutput, input.sequence) = spent := by
    simpa [BitcoinTransaction.spent] using hi
  have hget : (tx.input.get i : Outcome Empty TxIn) = .ok input := by
    rw [Vec.get, hinput]
  have hprevouts := encodeList_eq (ε := Empty) (l := tx.input.toList)
    fun input _ => OutPoint.encodes_encode input.previousOutput
  have hsequences := encodeList_eq (ε := Empty) (l := tx.input.toList)
    fun input _ => Sequence.encodes_encode input.sequence
  have houtputs := encodeList_eq (ε := Empty) (l := tx.output.toList)
    fun output _ => TxOut.encodes_encode output
  -- one rule for each line of the encoder
  have hpayload : Writes (encodeForSighashForSegwit sha256d tx i scriptCode value) () _ :=
    (Version.encodes_encode tx.version).bind <| (writes_emitMarkerAndFlag tx).bind <|
    (writes_lift hprevouts).bind <| (writes_writeAll _).bind <|
    (writes_lift hsequences).bind <| (writes_writeAll _).bind <|
    (writes_lift hget).bind <| (OutPoint.encodes_encode _).bind <|
    (ScriptBuf.encodes_encode _).bind <| (writes_writeAll _).bind <|
    (writes_lift hget).bind <| (Sequence.encodes_encode _).bind <|
    (writes_lift houtputs).bind <| (writes_writeAll _).bind <|
    (LockTime.encodes_encode _).map fun _ => ()
  rw [buildForSigningSegwit, if_neg (by simp [hversion]), hpayload []]
  have hflat {wire : OutPoint × Sequence → Bytes} : tx.spent.flatMap wire
      = tx.input.toList.flatMap fun input => wire (input.previousOutput, input.sequence) := by
    rw [BitcoinTransaction.spent, List.flatMap_map]
  show Outcome.ok _ = _
  simp only [frame, Frame.bip143Tail, Frame.prevouts, Frame.sequences, Frame.outputs, hflat,
    List.nil_append, List.append_assoc]
  rfl

/-! ## Signing sessions -/

/-- Without witnesses there is neither marker nor flag. -/
theorem markerWire_eq_nil_iff :
    tx.markerWire = [] ↔ ∀ input ∈ tx.input.toList, input.witness.isEmpty := by
  rw [← hasWitness_eq_false_iff, markerWire]
  cases tx.hasWitness <;> simp

/-- The payload is the preimage of the state it is computed in exactly while no
witness is attached: with one, it is two bytes longer. -/
theorem buildForSigningSegwit_eq_preimage_iff (sha256d : Bytes → Bytes)
    (hversion : tx.version = .Two) {i : ℕ} {spent : OutPoint × Sequence}
    (hi : tx.spent[i]? = some spent) (scriptCode : ScriptBuf) (value : UInt64) :
    tx.buildForSigningSegwit sha256d .All i scriptCode value
        = .ok (tx.frame.bip143Preimage sha256d spent scriptCode value) ↔
      ∀ input ∈ tx.input.toList, input.witness.isEmpty := by
  rw [buildForSigningSegwit_eq sha256d hversion hi, ← markerWire_eq_nil_iff, Outcome.ok.injEq,
    Frame.bip143Preimage]
  constructor
  · intro h
    have h := List.append_cancel_left h
    -- a marker would make the payload two bytes longer
    simpa using congrArg List.length h
  · intro h
    rw [h]
    rfl

/-- Calls that attach at most empty witness stacks. -/
def AttachesNoWitness : Call → Prop
  | .buildWithScriptSig _ _ _ => True
  | .buildWithWitness _ witness _ => witness.toList = []

/-- A call that attaches no witness leaves all of them empty. -/
theorem Step.witness_isEmpty (h : Step AttachesNoWitness tx₀ tx)
    (h₀ : ∀ input ∈ tx₀.input.toList, input.witness.isEmpty) :
    ∀ input ∈ tx.input.toList, input.witness.isEmpty := by
  obtain ⟨call, hcall, bytes, hrun⟩ := h
  obtain ⟨i, scriptSig, txType, -, rfl⟩ | ⟨i, witness, txType, w, rfl, hw, rfl⟩ :=
    Call.run_eq_ok hrun
  · exact Vec.forall_mem_modify h₀ h₀
  · apply Vec.forall_mem_modify h₀
    intro input _
    change witness.toList = [] at hcall
    obtain ⟨es, hdata, rfl⟩ := Witness.fromSlice_eq_ok
      (fun elem _ => (elem.length_lt : elem.length < 2 ^ 64)) hw
    rw [hcall, List.map_nil, List.map_eq_nil_iff] at hdata
    exact beq_iff_eq.mpr (List.length_eq_zero_iff.mpr hdata)

theorem Reaches.witness_isEmpty (h : Reaches AttachesNoWitness tx₀ tx)
    (h₀ : ∀ input ∈ tx₀.input.toList, input.witness.isEmpty) :
    ∀ input ∈ tx.input.toList, input.witness.isEmpty := by
  induction h with
  | refl => exact h₀
  | tail _ step ih => exact step.witness_isEmpty ih

/-- In every state of a signing session the segwit payload is the BIP-143 preimage
of the transaction the session began with exactly while no witness is attached;
so it always is in sessions that attach none. -/
theorem buildForSigningSegwit_session_iff (sha256d : Bytes → Bytes)
    (tx₀ : BitcoinTransaction) (hversion : tx₀.version = .Two) {i : ℕ}
    {spent : OutPoint × Sequence} (hi : tx₀.spent[i]? = some spent) (scriptCode : ScriptBuf)
    (value : UInt64) :
    (∀ tx, Reaches (fun _ => True) tx₀ tx →
      (tx.buildForSigningSegwit sha256d .All i scriptCode value
          = .ok (tx₀.frame.bip143Preimage sha256d spent scriptCode value) ↔
        ∀ input ∈ tx.input.toList, input.witness.isEmpty)) ∧
    ((∀ input ∈ tx₀.input.toList, input.witness.isEmpty) →
      ∀ tx, Reaches AttachesNoWitness tx₀ tx →
        tx.buildForSigningSegwit sha256d .All i scriptCode value
          = .ok (tx₀.frame.bip143Preimage sha256d spent scriptCode value)) := by
  have hstate {calls : Call → Prop} {tx : BitcoinTransaction} (h : Reaches calls tx₀ tx) :
      tx.buildForSigningSegwit sha256d .All i scriptCode value
          = .ok (tx₀.frame.bip143Preimage sha256d spent scriptCode value) ↔
        ∀ input ∈ tx.input.toList, input.witness.isEmpty := by
    have hframe := h.frame_eq
    have hversion' : tx.version = .Two := (congrArg Frame.version hframe).trans hversion
    have hspent : tx.spent = tx₀.spent := congrArg Frame.spent hframe
    rw [← hframe]
    exact buildForSigningSegwit_eq_preimage_iff sha256d hversion' (hspent ▸ hi) scriptCode value
  constructor
  · intro tx h
    exact hstate h
  · intro h₀ tx h
    exact (hstate h).mpr (h.witness_isEmpty h₀)

/-- One call that returns, as a session. -/
theorem reaches_of_run {tx tx' : BitcoinTransaction} {bytes : Bytes} (call : Call)
    (h : call.run tx = .ok (bytes, tx')) : Reaches (fun _ => True) tx tx' :=
  .single ⟨call, trivial, bytes, h⟩

/-- A frame of two inputs and one output. -/
def sampleFrame : Frame :=
  (sampleTransaction (sampleInput 1 .empty .new) (sampleInput 2 .empty .new)).frame

/-- SHA-256d at the strings that are hashed for `sampleFrame`. -/
def sampleSha256d (data : Bytes) : Bytes :=
  if data = sampleFrame.prevouts then
    beBytes 32 0xa3682f406835bf041d1023e07ee540b1b05e2ca82bf953999179e888ec6956ec
  else if data = sampleFrame.sequences then
    beBytes 32 0x752adad0a7b9ceca853768aebb6965eca126a62965f698a0c1bc43d83db632ad
  else if data = sampleFrame.outputs then
    beBytes 32 0x3bc504a86f78bae248fcf19c815ae1792ca6c9e1463ab179361211bc8c1dd921
  else beBytes 32 0

theorem buildForSigningSegwit_second_input :
    (sampleTransaction (sampleInput 1 (sampleScript 0x30) .new)
      (sampleInput 2 .empty .new)).buildForSigningSegwit sampleSha256d .All 1
        (sampleScript 0x76) 10000
      = .ok (sampleFrame.bip143Preimage sampleSha256d
          (⟨List.Vector.replicate 32 2, 0⟩, ⟨0xFFFFFFFF⟩) (sampleScript 0x76) 10000) :=
  ((buildForSigningSegwit_session_iff sampleSha256d
    (sampleTransaction (sampleInput 1 .empty .new) (sampleInput 2 .empty .new)) rfl rfl _ _).1 _
    (reaches_of_run (.buildWithScriptSig 0 (sampleScript 0x30) .P2PKH) rfl)).mpr
    (by decide)

/-- With the first input's witness attached, the second input's payload carries
marker and flag, whatever the hash. -/
theorem buildForSigningSegwit_after_first_witness :
    Reaches (fun _ => True)
      (sampleTransaction (sampleInput 1 .empty .new) (sampleInput 2 .empty .new))
      (sampleTransaction (sampleInput 1 .empty sampleWitness) (sampleInput 2 .empty .new)) ∧
    ∀ sha256d : Bytes → Bytes,
      (sampleTransaction (sampleInput 1 .empty sampleWitness)
        (sampleInput 2 .empty .new)).buildForSigningSegwit sha256d .All 1
          (sampleScript 0x76) 10000
        ≠ .ok (sampleFrame.bip143Preimage sha256d
            (⟨List.Vector.replicate 32 2, 0⟩, ⟨0xFFFFFFFF⟩) (sampleScript 0x76) 10000) := by
  refine ⟨reaches_of_run (.buildWithWitness 0 sampleStack .P2WPKH) rfl, ?_⟩
  intro sha256d h
  have hempty := (buildForSigningSegwit_eq_preimage_iff sha256d rfl rfl _ _).mp h
  exact absurd hempty (by decide)

/-! ## What the segwit payload commits to -/

/-- Outpoints have a fixed length, so their bytes tell them apart. -/
theorem map_fst_eq_of_prevouts_eq {f g : Frame} (h : f.prevouts = g.prevouts) :
    f.spent.map Prod.fst = g.spent.map Prod.fst := by
  have hne (outpoint : OutPoint) : outpoint.wire ≠ [] := by
    intro hnil
    have hlen := outpoint.length_wire
    rw [hnil] at hlen
    cases hlen
  apply OutPoint.prefixFree_wire.flatMap_injective hne
  simpa only [Frame.prevouts, List.flatMap_map] using h

theorem map_snd_eq_of_sequences_eq {f g : Frame} (h : f.sequences = g.sequences) :
    f.spent.map Prod.snd = g.spent.map Prod.snd := by
  have hne (sequence : Sequence) : sequence.wire ≠ [] := by
    intro hnil
    have hlen := length_leBytes 4 sequence.val.toNat
    rw [show leBytes 4 sequence.val.toNat = [] from hnil] at hlen
    cases hlen
  apply Sequence.prefixFree_wire.flatMap_injective hne
  simpa only [Frame.sequences, List.flatMap_map] using h

theorem output_eq_of_outputs_eq {f g : Frame} (h : f.outputs = g.outputs) :
    f.output = g.output :=
  Vec.toList_injective (TxOut.prefixFree_wire.flatMap_injective TxOut.wire_ne_nil h)

/-- Equal payloads of transactions without witnesses are built from equal parts,
unless two of the hashed strings collide. -/
theorem buildForSigningSegwit_commits (sha256d : Bytes → Bytes)
    (hlength : ∀ data, (sha256d data).length = 32) (a b : BitcoinTransaction)
    (ha : a.version = .Two) (hb : b.version = .Two)
    (hafresh : ∀ input ∈ a.input.toList, input.witness.isEmpty)
    (hbfresh : ∀ input ∈ b.input.toList, input.witness.isEmpty)
    (hcollision : ∀ x ∈ a.frame.hashed ++ b.frame.hashed, ∀ y ∈ a.frame.hashed ++ b.frame.hashed,
      sha256d x = sha256d y → x = y)
    {i j : ℕ} {spent spent' : OutPoint × Sequence} (hi : a.spent[i]? = some spent)
    (hj : b.spent[j]? = some spent') (c d : ScriptBuf) (u v : UInt64)
    (h : a.buildForSigningSegwit sha256d .All i c u = b.buildForSigningSegwit sha256d .All j d v) :
    a.lockTime = b.lockTime ∧ a.spent.map Prod.fst = b.spent.map Prod.fst ∧
      a.spent.map Prod.snd = b.spent.map Prod.snd ∧ a.output = b.output ∧
      spent.1 = spent'.1 ∧ spent.2 = spent'.2 ∧ c = d ∧ u = v := by
  rw [(buildForSigningSegwit_eq_preimage_iff sha256d ha hi c u).mpr hafresh,
    (buildForSigningSegwit_eq_preimage_iff sha256d hb hj d v).mpr hbfresh, Outcome.ok.injEq,
    Frame.bip143Preimage, Frame.bip143Preimage] at h
  have hhash (x y : Bytes) : (sha256d x).length = (sha256d y).length := by
    rw [hlength, hlength]
  -- every part splits off the front; hashes have one length
  obtain ⟨-, h⟩ := Version.prefixFree_wire _ _ _ _ h
  obtain ⟨hprevouts, h⟩ := List.append_inj h (hhash _ _)
  obtain ⟨hsequences, h⟩ := List.append_inj h (hhash _ _)
  obtain ⟨houtpoint, h⟩ := OutPoint.prefixFree_wire _ _ _ _ h
  obtain ⟨hscript, h⟩ := ScriptBuf.prefixFree_wire _ _ _ _ h
  obtain ⟨hvalue, h⟩ := prefixFree_u64 _ _ _ _ h
  obtain ⟨hsequence, h⟩ := Sequence.prefixFree_wire _ _ _ _ h
  obtain ⟨houtputs, h⟩ := List.append_inj h (hhash _ _)
  obtain ⟨hlock, -⟩ := LockTime.prefixFree_wire _ _ _ _ h
  -- equal hashes are hashes of equal strings
  have hprevouts := hcollision _ (by simp [Frame.hashed]) _ (by simp [Frame.hashed]) hprevouts
  have hsequences := hcollision _ (by simp [Frame.hashed]) _ (by simp [Frame.hashed]) hsequences
  have houtputs := hcollision _ (by simp [Frame.hashed]) _ (by simp [Frame.hashed]) houtputs
  exact ⟨hlock, map_fst_eq_of_prevouts_eq hprevouts, map_snd_eq_of_sequences_eq hsequences,
    output_eq_of_outputs_eq houtputs, houtpoint, hsequence, hscript, hvalue⟩

/-- The stand-in for the hash has 32 bytes, too. -/
theorem length_sampleSha256d (data : Bytes) : (sampleSha256d data).length = 32 := by
  unfold sampleSha256d
  split_ifs <;> exact length_beBytes 32 _

/-- It does not collide on the strings that are hashed here. -/
theorem sampleSha256d_inj : ∀ x ∈ sampleFrame.hashed ++ sampleFrame.hashed,
    ∀ y ∈ sampleFrame.hashed ++ sampleFrame.hashed,
      sampleSha256d x = sampleSha256d y → x = y := by
  decide +kernel

theorem buildForSigningSegwit_commits_sampleTransaction :
    (sampleTransaction (sampleInput 1 .empty .new) (sampleInput 2 .empty .new)).output
      = (sampleTransaction (sampleInput 1 (sampleScript 0x30) .new)
          (sampleInput 2 .empty .new)).output :=
  (buildForSigningSegwit_commits sampleSha256d length_sampleSha256d
    (sampleTransaction (sampleInput 1 .empty .new) (sampleInput 2 .empty .new))
    (sampleTransaction (sampleInput 1 (sampleScript 0x30) .new) (sampleInput 2 .empty .new))
    rfl rfl (by decide) (by decide) sampleSha256d_inj (i := 1) (j := 1) rfl rfl
    (sampleScript 0x76) (sampleScript 0x76) 10000 10000 (by
      rw [buildForSigningSegwit_eq sampleSha256d rfl rfl,
        buildForSigningSegwit_eq sampleSha256d rfl rfl]
      rfl)).2.2.2.1

/-! ## The script code of a P2WPKH output -/

/-- The script that holds a public key hash alone. -/
def ofPublicKeyHash (h : FixedBytes 20) : ScriptBuf :=
  ⟨⟨h.toList, by rw [h.toList_length]; norm_num⟩⟩

/-- The script code that BIP-143 prescribes for a P2WPKH output, behind its length. -/
def p2wpkhScriptCodeWire (h : FixedBytes 20) : Bytes :=
  [0x19, 0x76, 0xa9, 0x14] ++ (h.toList ++ [0x88, 0xac])

/-- The payload holds the bytes in the place of the script code: behind the version, the
two hashes and the outpoint. -/
def HoldsScriptCode (sha256d : Bytes → Bytes) (tx : BitcoinTransaction)
    (spent : OutPoint × Sequence) (payload code : Bytes) : Prop :=
  ∃ rest, payload = tx.version.wire ++ (sha256d tx.frame.prevouts ++
    (sha256d tx.frame.sequences ++ (spent.1.wire ++ (code ++ rest))))

/-- What `p2wpkh_script_code` makes of a public key hash is the script of the output. -/
theorem p2wpkhScriptCode_ofPublicKeyHash (h : FixedBytes 20) :
    ∃ scriptCode, (ofPublicKeyHash h).p2wpkhScriptCode = (.ok scriptCode : Outcome Empty _) ∧
      scriptCode.wire = [0x16, 0x00, 0x14] ++ h.toList := by
  have hlen : ([0x00, 0x14] ++ h.toList : Bytes).length = 22 := by
    rw [List.length_append, h.toList_length]
    rfl
  have hlt : ([0x00, 0x14] ++ h.toList : Bytes).length < 2 ^ 64 := by
    rw [hlen]
    norm_num
  refine ⟨⟨⟨[0x00, 0x14] ++ h.toList, hlt⟩⟩, ?_, ?_⟩
  · have hvec : (Vec.ofList ([0x00, 0x14] ++ h.toList) : Outcome Empty (Vec UInt8))
        = .ok ⟨[0x00, 0x14] ++ h.toList, hlt⟩ := Vec.ofList_eq_ok_iff.mpr rfl
    rw [ScriptBuf.p2wpkhScriptCode]
    show (Vec.ofList ([0x00, 0x14] ++ h.toList) >>= _) = _
    rw [hvec]
    rfl
  · rw [ScriptBuf.wire, vecWire, List.flatMap_singleton', Vec.length, hlen]
    rfl

/-- In the place of the script code stands the script code that was given. -/
theorem HoldsScriptCode.append_eq {sha256d : Bytes → Bytes} {spent : OutPoint × Sequence}
    {scriptCode : ScriptBuf} {value : UInt64} {code : Bytes}
    (hempty : ∀ input ∈ tx.input.toList, input.witness.isEmpty)
    (h : HoldsScriptCode sha256d tx spent (tx.version.wire ++ (tx.markerWire ++
      tx.frame.bip143Tail sha256d spent scriptCode value)) code) :
    ∃ s t, scriptCode.wire ++ s = code ++ t := by
  obtain ⟨rest, h⟩ := h
  rw [markerWire_eq_nil_iff.mpr hempty, Frame.bip143Tail, List.nil_append] at h
  exact ⟨_, rest, List.append_cancel_left (List.append_cancel_left
    (List.append_cancel_left (List.append_cancel_left h)))⟩

/-- The script of the output does not start like the script code. -/
theorem not_holdsScriptCode {sha256d : Bytes → Bytes} {h : FixedBytes 20}
    {spent : OutPoint × Sequence} {scriptCode : ScriptBuf} {value : UInt64}
    (hempty : ∀ input ∈ tx.input.toList, input.witness.isEmpty)
    (hwire : scriptCode.wire = [0x16, 0x00, 0x14] ++ h.toList) :
    ¬ HoldsScriptCode sha256d tx spent (tx.version.wire ++ (tx.markerWire ++
      tx.frame.bip143Tail sha256d spent scriptCode value)) (p2wpkhScriptCodeWire h) := by
  intro hholds
  obtain ⟨s, t, heq⟩ := hholds.append_eq hempty
  rw [hwire] at heq
  exact absurd (List.cons.inj heq).1 (by decide)

/-- With the script code that `p2wpkh_script_code` makes, the payload holds the script of
the output where BIP-143 prescribes the script code, whatever the hash. -/
theorem buildForSigningSegwit_p2wpkhScriptCode (sha256d : Bytes → Bytes) (h : FixedBytes 20)
    (tx : BitcoinTransaction) (hversion : tx.version = .Two)
    (hempty : ∀ input ∈ tx.input.toList, input.witness.isEmpty) {i : ℕ}
    {spent : OutPoint × Sequence} (hi : tx.spent[i]? = some spent) (value : UInt64) :
    ∃ scriptCode payload,
      (ofPublicKeyHash h).p2wpkhScriptCode = (.ok scriptCode : Outcome Empty _) ∧
      tx.buildForSigningSegwit sha256d .All i scriptCode value = .ok payload ∧
      HoldsScriptCode sha256d tx spent payload ([0x16, 0x00, 0x14] ++ h.toList) ∧
      ¬ HoldsScriptCode sha256d tx spent payload (p2wpkhScriptCodeWire h) := by
  obtain ⟨scriptCode, hcode, hwire⟩ := p2wpkhScriptCode_ofPublicKeyHash h
  refine ⟨scriptCode, _, hcode, buildForSigningSegwit_eq sha256d hversion hi scriptCode value,
    ?_, not_holdsScriptCode hempty hwire⟩
  rw [markerWire_eq_nil_iff.mpr hempty, Frame.bip143Tail, hwire]
  exact ⟨_, rfl⟩

/-- A public key hash. -/
def samplePublicKeyHash : FixedBytes 20 := .replicate 20 0x11

theorem buildForSigningSegwit_p2wpkhScriptCode_sampleTransaction :
    ∃ scriptCode payload,
      (ofPublicKeyHash samplePublicKeyHash).p2wpkhScriptCode
        = (.ok scriptCode : Outcome Empty _) ∧
      (sampleTransaction (sampleInput 1 .empty .new)
        (sampleInput 2 .empty .new)).buildForSigningSegwit sampleSha256d .All 0 scriptCode 10000
        = .ok payload ∧
      HoldsScriptCode sampleSha256d
        (sampleTransaction (sampleInput 1 .empty .new) (sampleInput 2 .empty .new))
        (⟨List.Vector.replicate 32 1, 0⟩, ⟨0xFFFFFFFF⟩) payload
        ([0x16, 0x00, 0x14] ++ samplePublicKeyHash.toList) ∧
      ¬ HoldsScriptCode sampleSha256d
        (sampleTransaction (sampleInput 1 .empty .new) (sampleInput 2 .empty .new))
        (⟨List.Vector.replicate 32 1, 0⟩, ⟨0xFFFFFFFF⟩) payload
        (p2wpkhScriptCodeWire samplePublicKeyHash) :=
  buildForSigningSegwit_p2wpkhScriptCode sampleSha256d samplePublicKeyHash
    (sampleTransaction (sampleInput 1 .empty .new) (sampleInput 2 .empty .new)) rfl (by decide)
    rfl 10000

/-- The bytes `16 00 14` stand where the script code should begin with `19 76 a9 14`. -/
theorem not_holdsScriptCode_samplePublicKeyHash :
    ∃ scriptCode payload,
      (ofPublicKeyHash samplePublicKeyHash).p2wpkhScriptCode
        = (.ok scriptCode : Outcome Empty _) ∧
      (sampleTransaction (sampleInput 1 .empty .new)
        (sampleInput 2 .empty .new)).buildForSigningSegwit sampleSha256d .All 0 scriptCode 10000
        = .ok payload ∧
      ¬ HoldsScriptCode sampleSha256d
        (sampleTransaction (sampleInput 1 .empty .new) (sampleInput 2 .empty .new))
        (⟨List.Vector.replicate 32 1, 0⟩, ⟨0xFFFFFFFF⟩) payload
        (p2wpkhScriptCodeWire samplePublicKeyHash) := by
  obtain ⟨scriptCode, hcode, hwire⟩ := p2wpkhScriptCode_ofPublicKeyHash samplePublicKeyHash
  let tx := sampleTransaction (sampleInput 1 .empty .new) (sampleInput 2 .empty .new)
  have hversion : tx.version = .Two := rfl
  have hspent : tx.spent[0]? = some (⟨List.Vector.replicate 32 1, 0⟩, ⟨0xFFFFFFFF⟩) := rfl
  have heq := buildForSigningSegwit_eq sampleSha256d hversion hspent scriptCode 10000
  exact ⟨scriptCode, _, hcode, heq, not_holdsScriptCode (by decide) hwire⟩

/-! ## The legacy payload -/

/-- The payload of a transaction in the segwit form has the marker where the
legacy form counts the inputs. -/
theorem exists_eq_of_encode_segwit {n : ℕ} {buf : Bytes} (h : tx.usesSegwitSerialization = true)
    (hrun : (tx.encode : ByteStream Empty ℕ).run [] = .ok (n, buf)) :
    ∃ z, buf = tx.version.wire ++ SEGWIT_MARKER :: z := by
  have hinput := encodes_encodeVec (ε := Empty) (v := tx.input)
    fun input _ => TxIn.encodes_encode input
  have houtput := encodes_encodeVec (ε := Empty) (v := tx.output)
    fun output _ => TxOut.encodes_encode output
  rw [encode, StateT.run_bind, Version.encodes_encode tx.version [], Outcome.ok_bind, encodeBody,
    h, Bool.not_true, if_neg (by decide), bind_assoc] at hrun
  obtain ⟨markerLen, buf₁, hmarker, hrun⟩ := ByteStream.run_bind_eq_ok_iff.mp hrun
  have hbuf₁ : buf₁ = tx.version.wire ++ [SEGWIT_MARKER] := by
    rw [encodes_encodeU8] at hmarker
    exact (Prod.mk.inj (Outcome.ok.inj hmarker)).2.symm
  have hrest : ∃ z, buf = buf₁ ++ z := by
    refine Appends.bind ?_ (fun len => ?_) _ _ _ hrun
    · exact (encodes_encodeU8 SEGWIT_FLAG).appends.bind fun _ => hinput.appends.bind fun _ =>
        houtput.appends.bind fun _ => appends_encodeEach (fun input => input.witness.appends_encode)
          _ _
    · exact ((LockTime.encodes_encode tx.lockTime).map fun _ => _).appends
  obtain ⟨z, rfl⟩ := hrest
  exact ⟨z, by rw [hbuf₁, List.append_assoc, List.singleton_append]⟩

/-- Every input but input `i` is as it was before anything was attached. -/
def OthersFresh (i : ℕ) (tx : BitcoinTransaction) : Prop :=
  (∀ j input, tx.input.toList[j]? = some input → j ≠ i → input.scriptSig = .empty) ∧
    ∀ input ∈ tx.input.toList, input.witness.isEmpty

/-- The inputs are those of the preimage exactly when the other scripts are
empty. -/
theorem map_base_eq_legacyInputs_iff {i : ℕ} {scriptCode : ScriptBuf}
    (hi : tx.input.toList[i]?.map TxIn.scriptSig = some scriptCode) :
    tx.input.toList.map TxIn.base = tx.frame.legacyInputs i scriptCode ↔
      ∀ j input, tx.input.toList[j]? = some input → j ≠ i → input.scriptSig = .empty := by
  rw [List.ext_getElem?_iff]
  apply forall_congr'
  intro j
  rw [Frame.legacyInputs, frame, spent, List.getElem?_mapIdx, List.getElem?_map,
    List.getElem?_map, Option.map_map]
  cases hj : tx.input.toList[j]? with
  | none => simp
  | some input =>
      by_cases hji : j = i
      · subst hji
        rw [hj] at hi
        simp_all [TxIn.base]
      · simp [TxIn.base, hji]

/-- The payload is the preimage of the state it is computed in exactly while the
other inputs are fresh. -/
theorem buildForSigningLegacy_eq_preimage_iff {i : ℕ} {scriptCode : ScriptBuf}
    (hi : tx.input.toList[i]?.map TxIn.scriptSig = some scriptCode) :
    tx.buildForSigningLegacy .All = .ok (tx.frame.legacyPreimage i scriptCode) ↔
      OthersFresh i tx := by
  have hcount : tx.frame.spent.length = tx.input.length := List.length_map _
  have hpos : tx.input.length ≠ 0 := by
    intro hzero
    rw [List.length_eq_zero_iff.mp hzero] at hi
    simp at hi
  have hlegacy (h : tx.usesSegwitSerialization = false) :
      tx.buildForSigningLegacy .All
        = .ok (tx.version.wire ++ ((VarInt.ofLength tx.input.length).wire ++
          ((tx.input.toList.map TxIn.base).flatMap TxIn.wire ++ (vecWire TxOut.wire tx.output ++
            (tx.lockTime.wire ++ [1, 0, 0, 0]))))) := by
    rw [buildForSigningLegacy, encodes_encode (by simp [h]) [], wire, bodyWire, h, Bool.not_false,
      if_pos rfl, baseWire, List.flatMap_map]
    show Outcome.ok _ = _
    simp only [vecWire, List.nil_append, List.append_assoc]
    rfl
  rw [OthersFresh, ← map_base_eq_legacyInputs_iff hi]
  constructor
  · intro h
    cases hform : tx.usesSegwitSerialization with
    | true =>
        -- the marker would have to be the count of the inputs, which is not zero
        exfalso
        obtain ⟨⟨n, buf⟩, hrun, hbytes⟩ := Outcome.bind_eq_ok_iff.mp h
        obtain ⟨z, rfl⟩ := exists_eq_of_encode_segwit hform hrun
        obtain ⟨x, rest, hx, hne⟩ := VarInt.exists_wire_eq_cons (val_ofLength_ne_zero hpos)
        have hbytes := Outcome.ok.inj hbytes
        rw [Frame.legacyPreimage, hcount, hx, List.append_assoc] at hbytes
        have hmarker := List.append_cancel_left hbytes
        exact hne (List.cons.inj hmarker).1.symm
    | false =>
        rw [hlegacy hform, Frame.legacyPreimage, hcount, Outcome.ok.injEq] at h
        have h := List.append_cancel_left (List.append_cancel_left h)
        refine ⟨?_, (usesSegwitSerialization_eq_false_iff.mp hform).1⟩
        exact (TxIn.prefixFree_wire.flatMap_append_inj (by simp [Frame.legacyInputs, hcount]) h).1
  · rintro ⟨hinputs, hwitness⟩
    rw [hlegacy (usesSegwitSerialization_eq_false_iff.mpr ⟨hwitness, hpos⟩), hinputs,
      Frame.legacyPreimage, hcount]
    rfl

/-- Calls that leave every input but input `i` fresh. -/
def LeavesOthersFresh (i : ℕ) : Call → Prop
  | .buildWithScriptSig inputIndex scriptSig _ => inputIndex = i ∨ scriptSig = .empty
  | .buildWithWitness _ witness _ => witness.toList = []

/-- Such a call sets a script. -/
theorem LeavesOthersFresh.attachesNoWitness {i : ℕ} {call : Call}
    (h : LeavesOthersFresh i call) : AttachesNoWitness call := by
  cases call with
  | buildWithScriptSig => trivial
  | buildWithWitness => exact h

/-- A call for the input itself leaves the others fresh. -/
theorem Step.othersFresh {i : ℕ} (h : Step (LeavesOthersFresh i) tx₀ tx)
    (h₀ : OthersFresh i tx₀) : OthersFresh i tx := by
  obtain ⟨call, hcall, bytes, hrun⟩ := h
  have hwitness : Step AttachesNoWitness tx₀ tx :=
    ⟨call, hcall.attachesNoWitness, bytes, hrun⟩
  refine ⟨?_, hwitness.witness_isEmpty h₀.2⟩
  obtain ⟨k, scriptSig, txType, rfl, rfl⟩ | ⟨k, witness, txType, w, rfl, -, rfl⟩ :=
    Call.run_eq_ok hrun
  · intro j input hj hji
    rw [Vec.toList_modify, List.getElem?_modify] at hj
    obtain ⟨old, hold, rfl⟩ := Option.map_eq_some_iff.mp hj
    -- a call on another input than `i` sets an empty script
    split_ifs with hkj
    · exact hcall.resolve_left fun hki => hji (hkj ▸ hki)
    · exact h₀.1 j old hold hji
  · intro j input hj hji
    rw [Vec.toList_modify, List.getElem?_modify] at hj
    obtain ⟨old, hold, rfl⟩ := Option.map_eq_some_iff.mp hj
    split_ifs
    · exact h₀.1 j old hold hji
    · exact h₀.1 j old hold hji

theorem Reaches.othersFresh {i : ℕ} (h : Reaches (LeavesOthersFresh i) tx₀ tx)
    (h₀ : OthersFresh i tx₀) : OthersFresh i tx := by
  induction h with
  | refl => exact h₀
  | tail _ step ih => exact step.othersFresh ih

/-- In every state of a signing session in which input `i` is marked with its
script code, the legacy payload is the preimage of input `i` of the transaction
the session began with exactly while the other inputs are fresh; so it always is
in sessions that leave them fresh. -/
theorem buildForSigningLegacy_session_iff (tx₀ : BitcoinTransaction) (i : ℕ)
    (scriptCode : ScriptBuf) :
    (∀ tx, Reaches (fun _ => True) tx₀ tx →
      tx.input.toList[i]?.map TxIn.scriptSig = some scriptCode →
      (tx.buildForSigningLegacy .All = .ok (tx₀.frame.legacyPreimage i scriptCode) ↔
        OthersFresh i tx)) ∧
    (OthersFresh i tx₀ → ∀ tx, Reaches (LeavesOthersFresh i) tx₀ tx →
      tx.input.toList[i]?.map TxIn.scriptSig = some scriptCode →
      tx.buildForSigningLegacy .All = .ok (tx₀.frame.legacyPreimage i scriptCode)) := by
  constructor
  · intro tx h hi
    rw [← h.frame_eq]
    exact buildForSigningLegacy_eq_preimage_iff hi
  · intro h₀ tx h hi
    rw [← h.frame_eq]
    exact (buildForSigningLegacy_eq_preimage_iff hi).mpr (h.othersFresh h₀)

/-- Only the second input has something. -/
theorem othersFresh_sampleTransaction (scriptSig : ScriptBuf) :
    OthersFresh 1 (sampleTransaction (sampleInput 1 .empty .new)
      (sampleInput 2 scriptSig .new)) := by
  constructor
  · intro j input hj hji
    rcases j with _ | _ | j
    · exact Option.some.inj hj ▸ rfl
    · exact absurd rfl hji
    · cases hj
  · intro input hinput
    simp only [sampleTransaction, List.mem_cons, List.not_mem_nil, or_false] at hinput
    rcases hinput with rfl | rfl <;> rfl

theorem buildForSigningLegacy_second_input :
    (sampleTransaction (sampleInput 1 .empty .new)
      (sampleInput 2 (sampleScript 0x76) .new)).buildForSigningLegacy .All
      = .ok ((sampleTransaction (sampleInput 1 .empty .new)
          (sampleInput 2 .empty .new)).frame.legacyPreimage 1 (sampleScript 0x76)) :=
  ((buildForSigningLegacy_session_iff _ 1 _).1 _
    (reaches_of_run (.buildWithScriptSig 1 (sampleScript 0x76) .P2PKH) rfl) rfl).mpr
    (othersFresh_sampleTransaction _)

/-- With the first input completed, the second input's payload carries the first
input's `script_sig`. -/
theorem buildForSigningLegacy_after_first_input :
    Reaches (fun _ => True)
      (sampleTransaction (sampleInput 1 (sampleScript 0x76) .new)
        (sampleInput 2 (sampleScript 0x76) .new))
      (sampleTransaction (sampleInput 1 (sampleScript 0x30) .new)
        (sampleInput 2 (sampleScript 0x76) .new)) ∧
    (sampleTransaction (sampleInput 1 (sampleScript 0x30) .new)
      (sampleInput 2 (sampleScript 0x76) .new)).buildForSigningLegacy .All
      ≠ .ok ((sampleTransaction (sampleInput 1 (sampleScript 0x76) .new)
          (sampleInput 2 (sampleScript 0x76) .new)).frame.legacyPreimage 1
            (sampleScript 0x76)) :=
  ⟨reaches_of_run (.buildWithScriptSig 0 (sampleScript 0x30) .P2PKH) rfl, by decide⟩

end BitcoinTransaction

end Bitcoin
