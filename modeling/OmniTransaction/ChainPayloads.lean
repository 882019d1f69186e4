/-
# Payloads of different chains

The bytes that are built for one of the three chains, to be signed or to be sent, begin
unlike those of the others: the first two bytes tell the chain (`Builds.chainOf_append`).  What
is signed for one chain is never a payload of another one (`Builds.chain_eq`).
-/
import OmniTransaction.BitcoinSighash
import OmniTransaction.EvmSigning
import OmniTransaction.NearSerialization

open Borsh ByteOrder Rust

variable {validate : String → Option String} {sha256d : Bytes → Bytes}

/-! ## Bitcoin -/

namespace Bitcoin.BitcoinTransaction

variable {tx : BitcoinTransaction}

/-- The body only appends, whatever the witnesses are. -/
theorem appends_encodeBody (len : ℕ) : Appends (tx.encodeBody len : ByteStream Empty ℕ) := by
  have hinput := encodes_encodeVec (ε := Empty) (v := tx.input)
    fun input _ => TxIn.encodes_encode input
  have houtput := encodes_encodeVec (ε := Empty) (v := tx.output)
    fun output _ => TxOut.encodes_encode output
  unfold encodeBody
  split_ifs
  · exact hinput.appends.bind fun _ => (houtput.map fun _ => _).appends
  · exact (encodes_encodeU8 SEGWIT_MARKER).appends.bind fun _ =>
      (encodes_encodeU8 SEGWIT_FLAG).appends.bind fun _ => hinput.appends.bind fun _ =>
        houtput.appends.bind fun _ => appends_encodeEach (fun input => input.witness.appends_encode)
          _ _

/-- Every form of a transaction begins with its version. -/
theorem exists_eq_of_encode {n : ℕ} {buf : Bytes}
    (h : (tx.encode : ByteStream Empty ℕ).run [] = .ok (n, buf)) :
    ∃ z, buf = tx.version.wire ++ z := by
  rw [encode, StateT.run_bind, Version.encodes_encode tx.version [], Outcome.ok_bind] at h
  exact (appends_encodeBody _).bind (fun _ =>
    ((LockTime.encodes_encode tx.lockTime).map fun _ => _).appends) _ _ _ h

/-- The payload of a segwit input begins with the version, too. -/
theorem exists_eq_of_buildForSigningSegwit {i : ℕ} {scriptCode : ScriptBuf} {value : UInt64}
    {sighashType : EcdsaSighashType} {b : Bytes}
    (h : tx.buildForSigningSegwit sha256d sighashType i scriptCode value = .ok b) :
    ∃ z, b = tx.version.wire ++ z := by
  rw [buildForSigningSegwit] at h
  split_ifs at h
  obtain ⟨⟨_, buf⟩, hrun, h⟩ := Outcome.bind_eq_ok_iff.mp h
  obtain rfl := Outcome.ok.inj h
  rw [encodeForSighashForSegwit, StateT.run_bind, Version.encodes_encode tx.version [],
    Outcome.ok_bind] at hrun
  -- the lines of the encoder only append
  have hrest : ∃ z, buf = tx.version.wire ++ z := by
    refine ((writes_emitMarkerAndFlag tx).appends.bind fun _ =>
      (appends_lift _).bind fun _ => (writes_writeAll _).appends.bind fun _ =>
      (appends_lift _).bind fun _ => (writes_writeAll _).appends.bind fun _ =>
      (appends_lift _).bind fun _ => (OutPoint.encodes_encode _).appends.bind fun _ =>
      (ScriptBuf.encodes_encode _).appends.bind fun _ => (writes_writeAll _).appends.bind fun _ =>
      (appends_lift _).bind fun _ => (Sequence.encodes_encode _).appends.bind fun _ =>
      (appends_lift _).bind fun _ => (writes_writeAll _).appends.bind fun _ =>
      ((LockTime.encodes_encode _).map fun _ => ()).appends) _ _ _ hrun
  obtain ⟨z, rfl⟩ := hrest
  exact ⟨z ++ leBytes 4 sighashType.toNat, List.append_assoc ..⟩

theorem exists_eq_of_call {tx' : BitcoinTransaction} {call : Call} {b : Bytes}
    (h : call.run tx = .ok (b, tx')) : ∃ z, b = tx'.version.wire ++ z := by
  obtain ⟨n, hrun⟩ := Call.exists_encode_of_run h
  exact exists_eq_of_encode hrun

end Bitcoin.BitcoinTransaction

/-! ## NEAR -/

namespace Near

/-- The length of the name stands in front of it. -/
theorem exists_eq_of_serializeAccountId {account : AccountId validate} {bs : Bytes}
    (hfits : account.Fits) (h : Writes account.serialize () bs) :
    ∃ z, bs = leBytes 4 (asBytes account.val).length ++ z := by
  have hlength : Writes (serializeLength (asBytes account.val).length) ()
      (leBytes 4 (asBytes account.val).length) := by
    rw [serializeLength, if_pos (show (asBytes account.val).length < 2 ^ 32 from hfits)]
    rw [serializeU32, serializeInt, UInt32.toNat_ofNat_of_lt' hfits]
    exact writes_writeAll _
  have hwrites := hlength.bind (f := fun _ => writeAll (asBytes account.val)) (writes_writeAll _)
  exact ⟨_, h.unique hwrites⟩

namespace NearTransaction

/-- A transaction begins with the length of the signer's name. -/
theorem exists_eq_of_deserialize {tx : NearTransaction validate} {b rest : Bytes}
    (h : NearTransaction.deserialize.run b = .ok (tx, rest)) :
    ∃ z, b = leBytes 4 (asBytes tx.signerId.val).length ++ z := by
  rw [deserialize_eq, deserializeWith] at h
  obtain ⟨signerId, b₁, hsignerId, h⟩ := ByteStream.run_bind_eq_ok_iff.mp h
  obtain ⟨signerPublicKey, b₂, -, h⟩ := ByteStream.run_bind_eq_ok_iff.mp h
  obtain ⟨nonce, b₃, -, h⟩ := ByteStream.run_bind_eq_ok_iff.mp h
  obtain ⟨receiverId, b₄, -, h⟩ := ByteStream.run_bind_eq_ok_iff.mp h
  obtain ⟨blockHash, b₅, -, h⟩ := ByteStream.run_bind_eq_ok_iff.mp h
  obtain ⟨actions, b₆, -, h⟩ := ByteStream.run_bind_eq_ok_iff.mp h
  obtain ⟨rfl, -⟩ := Prod.mk.inj (Outcome.ok.inj h)
  obtain ⟨hfits, bs, hwrites, rfl⟩ := AccountId.isCodec.read _ _ _ hsignerId
  obtain ⟨z, rfl⟩ := exists_eq_of_serializeAccountId hfits hwrites
  exact ⟨z ++ b₁, List.append_assoc ..⟩

/-- The payload begins with the signer, as the transaction does. -/
theorem exists_eq_of_buildForSigning {tx : NearTransaction validate} (hfits : tx.Fits) {b : Bytes}
    (h : tx.buildForSigning = .ok b) :
    ∃ z, b = leBytes 4 (asBytes tx.signerId.val).length ++ z := by
  obtain ⟨b', hwrites, hread⟩ := isCodec.write tx hfits
  obtain rfl := Outcome.ok.inj
    ((toVec_of_writes hwrites).symm.trans (buildForSigning_eq_ok_iff.mp h))
  have hrun := hread []
  rw [List.append_nil] at hrun
  exact exists_eq_of_deserialize hrun

/-- The signature follows the bytes of the transaction. -/
theorem exists_eq_of_buildWithSignature {tx : NearTransaction validate} (hfits : tx.Fits)
    {signature : Signature} {b : Bytes} (h : tx.buildWithSignature signature = .ok b) :
    ∃ z, b = leBytes 4 (asBytes tx.signerId.val).length ++ z := by
  obtain ⟨b₁, hwrites, -⟩ := isCodec.write tx hfits
  obtain ⟨b₂, hwrites', -⟩ := Signature.isCodec.write signature trivial
  have hb := toVec_of_writes (hwrites.bind (f := fun _ => signature.serialize) hwrites')
  obtain rfl := Outcome.ok.inj (hb.symm.trans (buildWithSignature_eq_ok_iff.mp h))
  obtain ⟨z, rfl⟩ := exists_eq_of_buildForSigning hfits
    (buildForSigning_eq_ok_iff.mpr (toVec_of_writes hwrites))
  exact ⟨z ++ b₂, List.append_assoc ..⟩

end NearTransaction

end Near

/-! ## Payloads -/

namespace TransactionBuilders

/-- The chains of `transaction_builders.rs`. -/
inductive Chain where
  | NEAR
  | EVM
  | BITCOIN
  deriving DecidableEq

/-- The bytes that are built for a chain, to be signed or to be sent.  A NEAR account of two
bytes is left out: its length could be the version of a Bitcoin transaction. -/
inductive Builds (validate : String → Option String) (sha256d : Bytes → Bytes) :
    Chain → Bytes → Prop where
  | evmForSigning {tx : Evm.EVMTransaction} {b : Bytes} (h : tx.buildForSigning = .ok b) :
      Builds validate sha256d .EVM b
  | evmWithSignature {tx : Evm.EVMTransaction} {signature : Evm.Signature} {b : Bytes}
      (h : tx.buildWithSignature signature = .ok b) : Builds validate sha256d .EVM b
  | bitcoinSerialize {tx : Bitcoin.BitcoinTransaction} {b : Bytes} (h : tx.serialize = .ok b) :
      Builds validate sha256d .BITCOIN b
  | bitcoinForSigningLegacy {tx : Bitcoin.BitcoinTransaction}
      {sighashType : Bitcoin.EcdsaSighashType} {b : Bytes}
      (h : tx.buildForSigningLegacy sighashType = .ok b) : Builds validate sha256d .BITCOIN b
  | bitcoinForSigningSegwit {tx : Bitcoin.BitcoinTransaction}
      {sighashType : Bitcoin.EcdsaSighashType} {i : ℕ} {scriptCode : Bitcoin.ScriptBuf}
      {value : UInt64} {b : Bytes}
      (h : tx.buildForSigningSegwit sha256d sighashType i scriptCode value = .ok b) :
      Builds validate sha256d .BITCOIN b
  | bitcoinCall {tx tx' : Bitcoin.BitcoinTransaction} {call : Bitcoin.BitcoinTransaction.Call}
      {b : Bytes} (h : call.run tx = .ok (b, tx')) : Builds validate sha256d .BITCOIN b
  | nearForSigning {tx : Near.NearTransaction validate} {b : Bytes} (hfits : tx.Fits)
      (hname : 2 < (asBytes tx.signerId.val).length) (h : tx.buildForSigning = .ok b) :
      Builds validate sha256d .NEAR b
  | nearWithSignature {tx : Near.NearTransaction validate} {signature : Near.Signature} {b : Bytes}
      (hfits : tx.Fits) (hname : 2 < (asBytes tx.signerId.val).length)
      (h : tx.buildWithSignature signature = .ok b) : Builds validate sha256d .NEAR b

/-- The chain that a payload is for, from its first two bytes. -/
def chainOf : Bytes → Option Chain
  | first :: second :: _ =>
    if 0xc0 ≤ second then some .EVM else if first ≤ 2 then some .BITCOIN else some .NEAR
  | _ => none

/-- What comes later is not looked at. -/
theorem chainOf_take_two (b : Bytes) : chainOf (b.take 2) = chainOf b := by
  rcases b with _ | ⟨first, _ | ⟨second, b⟩⟩
  · rfl
  · rfl
  · rfl

/-- Behind the type stands a list, whose header is `0xc0` or more. -/
theorem chainOf_evm {xs : List Rlp.Item} (hxs : (Rlp.Item.list xs).encode.length < 2 ^ 64)
    (first : UInt8) (rest : Bytes) :
    chainOf (first :: (Rlp.Item.list xs).encode ++ rest) = some .EVM := by
  obtain ⟨second, z, hencode, hle⟩ := Rlp.exists_encode_list_eq hxs
  rw [hencode]
  exact if_pos hle

/-- The version is one or two, and its second byte is zero. -/
theorem chainOf_bitcoin {version : Bitcoin.Version} {b : Bytes}
    (h : ∃ z, b = version.wire ++ z) (rest : Bytes) : chainOf (b ++ rest) = some .BITCOIN := by
  obtain ⟨z, rfl⟩ := h
  cases version <;> rfl

/-- The low byte of a length of 3 to 64 is above every version, and its next one is zero. -/
theorem chainOf_near {n : ℕ} (hname : 2 < n) (hle : n ≤ 64) {b : Bytes}
    (h : ∃ z, b = leBytes 4 n ++ z) (rest : Bytes) : chainOf (b ++ rest) = some .NEAR := by
  obtain ⟨z, rfl⟩ := h
  have hfirst : ¬ UInt8.ofNat n ≤ 2 := by
    have hlt : n < 256 := by omega
    rw [UInt8.le_iff_toNat_le, UInt8.toNat_ofNat_of_lt' hlt]
    exact not_le.mpr hname
  have hsecond : UInt8.ofNat (n / 256) = 0 := by
    rw [Nat.div_eq_of_lt (by omega)]
    rfl
  show (if 0xc0 ≤ UInt8.ofNat (n / 256) then _ else if UInt8.ofNat n ≤ 2 then _ else _) = _
  rw [hsecond, if_neg (by decide), if_neg hfirst]

/-- A name that the account package accepts has at most 64 bytes. -/
theorem Builds.chainOf_append (hvalidate : ∀ name, validate name = none → name.utf8ByteSize ≤ 64)
    {chain : Chain} {b : Bytes} (h : Builds validate sha256d chain b) (rest : Bytes) :
    chainOf (b ++ rest) = some chain := by
  cases h with
  | @evmForSigning tx _ h =>
    rw [tx.buildForSigning_eq] at h
    obtain rfl := Outcome.ok.inj h
    exact chainOf_evm tx.length_encode_signing_lt _ rest
  | @evmWithSignature tx signature _ h =>
    rw [tx.buildWithSignature_eq signature] at h
    obtain rfl := Outcome.ok.inj h
    exact chainOf_evm (tx.length_encode_signed_lt signature) _ rest
  | @bitcoinSerialize tx _ h =>
    obtain ⟨⟨_, buf⟩, hrun, h⟩ := Outcome.bind_eq_ok_iff.mp h
    obtain rfl := Outcome.ok.inj h
    exact chainOf_bitcoin (tx.exists_eq_of_encode hrun) rest
  | @bitcoinForSigningLegacy tx sighashType _ h =>
    obtain ⟨⟨_, buf⟩, hrun, h⟩ := Outcome.bind_eq_ok_iff.mp h
    obtain rfl := Outcome.ok.inj h
    obtain ⟨z, rfl⟩ := tx.exists_eq_of_encode hrun
    exact chainOf_bitcoin ⟨_, List.append_assoc ..⟩ rest
  | bitcoinForSigningSegwit h =>
    exact chainOf_bitcoin (Bitcoin.BitcoinTransaction.exists_eq_of_buildForSigningSegwit h) rest
  | bitcoinCall h => exact chainOf_bitcoin (Bitcoin.BitcoinTransaction.exists_eq_of_call h) rest
  | @nearForSigning tx _ hfits hname h =>
    have hle := hvalidate _ tx.signerId.valid
    exact chainOf_near hname hle (Near.NearTransaction.exists_eq_of_buildForSigning hfits h) rest
  | @nearWithSignature tx signature _ hfits hname h =>
    have hle := hvalidate _ tx.signerId.valid
    exact chainOf_near hname hle (Near.NearTransaction.exists_eq_of_buildWithSignature hfits h) rest

/-- The first two bytes of a payload tell its chain, and payloads of different chains are never
the same, whatever follows them. -/
theorem Builds.chain_eq (hvalidate : ∀ name, validate name = none → name.utf8ByteSize ≤ 64)
    {chain chain' : Chain} {b b' : Bytes} (h : Builds validate sha256d chain b)
    (h' : Builds validate sha256d chain' b') :
    chainOf (b.take 2) = some chain ∧ ∀ x y : Bytes, b ++ x = b' ++ y → chain = chain' := by
  constructor
  · have hchain := h.chainOf_append hvalidate []
    rwa [List.append_nil, ← chainOf_take_two] at hchain
  · intro x y heq
    have hchain := h.chainOf_append hvalidate x
    rw [heq, h'.chainOf_append hvalidate y] at hchain
    exact (Option.some.inj hchain).symm

/-- A call on an EVM chain and a NEAR transaction. -/
theorem Builds.chain_eq_sampleCall :
    ∃ b b', Evm.EVMTransaction.sampleCall.buildForSigning = .ok b ∧
      Near.sampleTransaction.buildForSigning = .ok b' ∧ chainOf (b.take 2) = some .EVM ∧
      chainOf (b'.take 2) = some .NEAR ∧ ∀ x y, b ++ x ≠ b' ++ y := by
  have hvalidate : ∀ name, Near.lengthRule name = none → name.utf8ByteSize ≤ 64 := by
    intro name hname
    unfold Near.lengthRule at hname
    split_ifs at hname
    omega
  have hevm := Evm.EVMTransaction.buildForSigning_eq Evm.EVMTransaction.sampleCall
  obtain ⟨b', hwrites, -⟩ :=
    Near.NearTransaction.isCodec.write _ Near.sampleTransaction_fits
  have hnear := Near.NearTransaction.buildForSigning_eq_ok_iff.mpr (toVec_of_writes hwrites)
  have hbuilds : Builds Near.lengthRule id .NEAR b' :=
    .nearForSigning Near.sampleTransaction_fits (by decide) hnear
  obtain ⟨hfirst, hne⟩ := Builds.chain_eq hvalidate (.evmForSigning hevm) hbuilds
  obtain ⟨hfirst', -⟩ := Builds.chain_eq hvalidate hbuilds (.evmForSigning hevm)
  refine ⟨_, b', hevm, hnear, hfirst, hfirst', fun x y heq => ?_⟩
  cases hne x y heq

end TransactionBuilders
