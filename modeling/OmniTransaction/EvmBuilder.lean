/-
# The builder of EVM transactions

`EVMTransactionBuilder` of `src/evm/evm_transaction_builder.rs`, under any sequence of calls
of its setters.  Four fields must be set; the others have defaults, and no recipient means
that a contract is created.  Two sequences of calls build transactions with the same payload
to sign exactly when they agree on what was set last, defaults included, and then the signed
bytes agree for the same signatures (`sign_build_eq_iff`).
-/
import OmniTransaction.EvmSigning
import OmniTransaction.LastSet
import OmniTransaction.Requires

open ByteOrder Rust LastSet Requirements

namespace Evm

/-- `Vec<u8>` as an argument.  It leaves half of the address space to the access list. -/
abbrev Data := { input : Bytes // input.length < addressSpace / 2 }

/-- `AccessList` as an argument, in the other half. -/
abbrev Accesses := { accessList : AccessList // AccessList.heapSize accessList < addressSpace / 2 }

def Data.empty : Data := ⟨[], by decide⟩

def Accesses.empty : Accesses := ⟨[], by decide⟩

/-- Both arguments were in memory before, each in its own half. -/
theorem inMemory_of_arguments (input : Data) (accessList : Accesses) :
    input.val.length + AccessList.heapSize accessList.val < addressSpace := by
  have hinput := input.property
  have haccessList := accessList.property
  unfold addressSpace at hinput haccessList ⊢
  omega

/-- `EVMTransactionBuilder`. -/
@[ext]
structure EVMTransactionBuilder where
  chainId : Option UInt64
  nonce : Option UInt64
  to_ : Option Address
  value : Option UInt128
  input : Option Data
  gasLimit : Option UInt128
  maxFeePerGas : Option UInt128
  maxPriorityFeePerGas : Option UInt128
  accessList : Option Accesses

namespace EVMTransactionBuilder

/-- `new`, and `default` for `TransactionBuilder::new`. -/
def new : EVMTransactionBuilder := ⟨none, none, none, none, none, none, none, none, none⟩

instance : Inhabited EVMTransactionBuilder := ⟨new⟩

/-- `build`. -/
def build (builder : EVMTransactionBuilder) : Outcome Empty EVMTransaction := do
  let chainId ← Outcome.expectSome "chain_id is mandatory" builder.chainId
  let nonce ← Outcome.expectSome "nonce is mandatory" builder.nonce
  let gasLimit ← Outcome.expectSome "gas_limit is mandatory" builder.gasLimit
  let maxFeePerGas ← Outcome.expectSome "max_fee_per_gas is mandatory" builder.maxFeePerGas
  let input := builder.input.getD .empty
  let accessList := builder.accessList.getD .empty
  return {
    chainId, nonce, to_ := builder.to_, value := builder.value.getD 0, input := input.val,
    gasLimit, maxFeePerGas, maxPriorityFeePerGas := builder.maxPriorityFeePerGas.getD 0,
    accessList := accessList.val, inMemory := inMemory_of_arguments input accessList }

/-! ## Calls of the setters -/

/-- The setters, under their names. -/
inductive Setter where
  | chainId (chainId : UInt64)
  | nonce (nonce : UInt64)
  | to_ (to_ : Address)
  | value (value : UInt128)
  | input (input : Data)
  | gasLimit (gasLimit : UInt128)
  | maxFeePerGas (maxFeePerGas : UInt128)
  | maxPriorityFeePerGas (maxPriorityFeePerGas : UInt128)
  | accessList (accessList : Accesses)

namespace Setter

/-- Call a setter. -/
def apply (builder : EVMTransactionBuilder) : Setter → EVMTransactionBuilder
  | .chainId id => { builder with chainId := some id }
  | .nonce n => { builder with nonce := some n }
  | .to_ address => { builder with to_ := some address }
  | .value v => { builder with value := some v }
  | .input data => { builder with input := some data }
  | .gasLimit gas => { builder with gasLimit := some gas }
  | .maxFeePerGas fee => { builder with maxFeePerGas := some fee }
  | .maxPriorityFeePerGas fee => { builder with maxPriorityFeePerGas := some fee }
  | .accessList accesses => { builder with accessList := some accesses }

/-- The name of the method. -/
def name : Setter → String
  | .chainId _ => "chain_id"
  | .nonce _ => "nonce"
  | .to_ _ => "to"
  | .value _ => "value"
  | .input _ => "input"
  | .gasLimit _ => "gas_limit"
  | .maxFeePerGas _ => "max_fee_per_gas"
  | .maxPriorityFeePerGas _ => "max_priority_fee_per_gas"
  | .accessList _ => "access_list"

/-- What a call sets as the chain. -/
def chainId? : Setter → Option UInt64
  | .chainId id => some id
  | _ => none

/-- What a call sets as the nonce. -/
def nonce? : Setter → Option UInt64
  | .nonce n => some n
  | _ => none

/-- What a call sets as the recipient. -/
def to? : Setter → Option Address
  | .to_ address => some address
  | _ => none

/-- What a call sets as the value. -/
def value? : Setter → Option UInt128
  | .value v => some v
  | _ => none

/-- What a call sets as the call data. -/
def input? : Setter → Option Data
  | .input data => some data
  | _ => none

/-- What a call sets as the gas limit. -/
def gasLimit? : Setter → Option UInt128
  | .gasLimit gas => some gas
  | _ => none

/-- What a call sets as the highest fee. -/
def maxFeePerGas? : Setter → Option UInt128
  | .maxFeePerGas fee => some fee
  | _ => none

/-- What a call sets as the highest tip. -/
def maxPriorityFeePerGas? : Setter → Option UInt128
  | .maxPriorityFeePerGas fee => some fee
  | _ => none

/-- What a call sets as the access list. -/
def accessList? : Setter → Option Accesses
  | .accessList accesses => some accesses
  | _ => none

/-- Different setters commute. -/
theorem apply_comm (builder : EVMTransactionBuilder) (a b : Setter) (h : a.name ≠ b.name) :
    apply (apply builder a) b = apply (apply builder b) a := by
  cases a <;> cases b <;> first | rfl | exact absurd rfl h

/-- The field is what was set last; no other setter touches it. -/
theorem tracks_chainId : Tracks apply EVMTransactionBuilder.chainId chainId? := by
  intro builder call
  cases call <;> rfl

theorem tracks_nonce : Tracks apply EVMTransactionBuilder.nonce nonce? := by
  intro builder call
  cases call <;> rfl

theorem tracks_to : Tracks apply EVMTransactionBuilder.to_ to? := by
  intro builder call
  cases call <;> rfl

theorem tracks_value : Tracks apply EVMTransactionBuilder.value value? := by
  intro builder call
  cases call <;> rfl

theorem tracks_input : Tracks apply EVMTransactionBuilder.input input? := by
  intro builder call
  cases call <;> rfl

theorem tracks_gasLimit : Tracks apply EVMTransactionBuilder.gasLimit gasLimit? := by
  intro builder call
  cases call <;> rfl

theorem tracks_maxFeePerGas :
    Tracks apply EVMTransactionBuilder.maxFeePerGas maxFeePerGas? := by
  intro builder call
  cases call <;> rfl

theorem tracks_maxPriorityFeePerGas :
    Tracks apply EVMTransactionBuilder.maxPriorityFeePerGas maxPriorityFeePerGas? := by
  intro builder call
  cases call <;> rfl

theorem tracks_accessList : Tracks apply EVMTransactionBuilder.accessList accessList? := by
  intro builder call
  cases call <;> rfl

end Setter

/-- The builder after calls of its setters. -/
def run (calls : List Setter) : EVMTransactionBuilder := calls.foldl Setter.apply new

/-- The transaction has in each field what was set last, or else the default. -/
structure Describes (calls : List Setter) (tx : EVMTransaction) : Prop where
  chainId : lastSet Setter.chainId? calls = some tx.chainId
  nonce : lastSet Setter.nonce? calls = some tx.nonce
  to_ : lastSet Setter.to? calls = tx.to_
  value : (lastSet Setter.value? calls).getD 0 = tx.value
  input : ((lastSet Setter.input? calls).getD .empty).val = tx.input
  gasLimit : lastSet Setter.gasLimit? calls = some tx.gasLimit
  maxFeePerGas : lastSet Setter.maxFeePerGas? calls = some tx.maxFeePerGas
  maxPriorityFeePerGas :
    (lastSet Setter.maxPriorityFeePerGas? calls).getD 0 = tx.maxPriorityFeePerGas
  accessList : ((lastSet Setter.accessList? calls).getD .empty).val = tx.accessList

/-- The fields that must be set, in the order in which `build` asks for them. -/
def required (calls : List Setter) : List (String × Bool) :=
  [("chain_id is mandatory", (lastSet Setter.chainId? calls).isSome),
    ("nonce is mandatory", (lastSet Setter.nonce? calls).isSome),
    ("gas_limit is mandatory", (lastSet Setter.gasLimit? calls).isSome),
    ("max_fee_per_gas is mandatory", (lastSet Setter.maxFeePerGas? calls).isSome)]

/-- After any calls each field of the builder holds what was set last. -/
theorem run_eq (calls : List Setter) : run calls =
    ⟨lastSet Setter.chainId? calls, lastSet Setter.nonce? calls, lastSet Setter.to? calls,
      lastSet Setter.value? calls, lastSet Setter.input? calls, lastSet Setter.gasLimit? calls,
      lastSet Setter.maxFeePerGas? calls, lastSet Setter.maxPriorityFeePerGas? calls,
      lastSet Setter.accessList? calls⟩ := by
  apply EVMTransactionBuilder.ext
  · exact (Setter.tracks_chainId.foldl new calls).trans (Option.or_none ..)
  · exact (Setter.tracks_nonce.foldl new calls).trans (Option.or_none ..)
  · exact (Setter.tracks_to.foldl new calls).trans (Option.or_none ..)
  · exact (Setter.tracks_value.foldl new calls).trans (Option.or_none ..)
  · exact (Setter.tracks_input.foldl new calls).trans (Option.or_none ..)
  · exact (Setter.tracks_gasLimit.foldl new calls).trans (Option.or_none ..)
  · exact (Setter.tracks_maxFeePerGas.foldl new calls).trans (Option.or_none ..)
  · exact (Setter.tracks_maxPriorityFeePerGas.foldl new calls).trans (Option.or_none ..)
  · exact (Setter.tracks_accessList.foldl new calls).trans (Option.or_none ..)

/-- Whatever the calls, `build` returns what they describe or panics with the message of the
first mandatory field that none of them has set. -/
theorem requires_build (calls : List Setter) :
    Requires (run calls).build (required calls) (Describes calls) := by
  rw [run_eq]
  refine (Requires.expectSome (fun chainId _ => Requires.expectSome (fun nonce _ =>
    Requires.expectSome (fun gasLimit _ => Requires.expectSome (fun maxFeePerGas _ =>
      requires_pure _) _) _) _) _).congr fun tx => ?_
  constructor
  · rintro ⟨chainId, hchainId, nonce, hnonce, gasLimit, hgasLimit, maxFeePerGas, hmaxFeePerGas,
      rfl⟩
    exact ⟨hchainId, hnonce, rfl, rfl, rfl, hgasLimit, hmaxFeePerGas, rfl, rfl⟩
  · intro h
    refine ⟨_, h.chainId, _, h.nonce, _, h.gasLimit, _, h.maxFeePerGas, ?_⟩
    exact EVMTransaction.ext rfl rfl h.to_.symm h.value.symm h.input.symm rfl rfl
      h.maxPriorityFeePerGas.symm h.accessList.symm

/-! ## Calls with the same effect -/

/-- The same values were set last, where a default counts as set. -/
structure SetAlike (calls calls' : List Setter) : Prop where
  chainId : lastSet Setter.chainId? calls = lastSet Setter.chainId? calls'
  nonce : lastSet Setter.nonce? calls = lastSet Setter.nonce? calls'
  to_ : lastSet Setter.to? calls = lastSet Setter.to? calls'
  value : (lastSet Setter.value? calls).getD 0 = (lastSet Setter.value? calls').getD 0
  input : (lastSet Setter.input? calls).getD .empty = (lastSet Setter.input? calls').getD .empty
  gasLimit : lastSet Setter.gasLimit? calls = lastSet Setter.gasLimit? calls'
  maxFeePerGas : lastSet Setter.maxFeePerGas? calls = lastSet Setter.maxFeePerGas? calls'
  maxPriorityFeePerGas : (lastSet Setter.maxPriorityFeePerGas? calls).getD 0 =
    (lastSet Setter.maxPriorityFeePerGas? calls').getD 0
  accessList : (lastSet Setter.accessList? calls).getD .empty =
    (lastSet Setter.accessList? calls').getD .empty

/-- Calls that describe transactions were alike exactly when these are the same. -/
theorem Describes.setAlike_iff {calls calls' : List Setter} {tx tx' : EVMTransaction}
    (h : Describes calls tx) (h' : Describes calls' tx') : SetAlike calls calls' ↔ tx = tx' := by
  constructor
  · intro halike
    apply EVMTransaction.ext
    · exact Option.some.inj (h.chainId.symm.trans (halike.chainId.trans h'.chainId))
    · exact Option.some.inj (h.nonce.symm.trans (halike.nonce.trans h'.nonce))
    · exact h.to_.symm.trans (halike.to_.trans h'.to_)
    · exact h.value.symm.trans (halike.value.trans h'.value)
    · exact h.input.symm.trans ((congrArg Subtype.val halike.input).trans h'.input)
    · exact Option.some.inj (h.gasLimit.symm.trans (halike.gasLimit.trans h'.gasLimit))
    · exact Option.some.inj
        (h.maxFeePerGas.symm.trans (halike.maxFeePerGas.trans h'.maxFeePerGas))
    · exact h.maxPriorityFeePerGas.symm.trans
        (halike.maxPriorityFeePerGas.trans h'.maxPriorityFeePerGas)
    · exact h.accessList.symm.trans
        ((congrArg Subtype.val halike.accessList).trans h'.accessList)
  · rintro rfl
    exact
      { chainId := h.chainId.trans h'.chainId.symm
        nonce := h.nonce.trans h'.nonce.symm
        to_ := h.to_.trans h'.to_.symm
        value := h.value.trans h'.value.symm
        input := Subtype.ext (h.input.trans h'.input.symm)
        gasLimit := h.gasLimit.trans h'.gasLimit.symm
        maxFeePerGas := h.maxFeePerGas.trans h'.maxFeePerGas.symm
        maxPriorityFeePerGas := h.maxPriorityFeePerGas.trans h'.maxPriorityFeePerGas.symm
        accessList := Subtype.ext (h.accessList.trans h'.accessList.symm) }

/-- What is built is what was set last, whatever the order of the setters.  Two builders give
the same payload to sign exactly when they agree on what was set last, and the same signed
bytes exactly when the signatures agree too. -/
theorem sign_build_eq_iff :
    (∀ calls, Requires (run calls).build (required calls) (Describes calls)) ∧
    (∀ calls calls', calls.Perm calls' → (calls.map Setter.name).Nodup →
      (run calls).build = (run calls').build) ∧
    ∀ calls calls' tx tx', (run calls).build = .ok tx → (run calls').build = .ok tx' →
      (tx.buildForSigning = tx'.buildForSigning ↔ SetAlike calls calls') ∧
      ∀ signature signature', tx.buildWithSignature signature = tx'.buildWithSignature signature' ↔
        SetAlike calls calls' ∧ signature = signature' := by
  refine ⟨requires_build, fun calls calls' h hnodup => ?_, ?_⟩
  · rw [run, run, foldl_perm Setter.apply_comm h hnodup]
  · intro calls calls' tx tx' h h'
    have hdescribes := ((requires_build calls).ok_iff tx).mp h
    have hdescribes' := ((requires_build calls').ok_iff tx').mp h'
    rw [hdescribes.setAlike_iff hdescribes']
    constructor
    · constructor
      · intro hbytes
        rw [EVMTransaction.buildForSigning_eq, EVMTransaction.buildForSigning_eq] at hbytes
        exact EVMTransaction.signingItems_injective
          (EVMTransaction.signingItems_eq_of_encode_eq (List.cons.inj (Outcome.ok.inj hbytes)).2)
      · rintro rfl
        rfl
    · intro signature signature'
      constructor
      · exact EVMTransaction.eq_of_buildWithSignature_eq
      · rintro ⟨rfl, rfl⟩
        rfl

/-- A contract creation, which leaves the defaults as they are. -/
def sampleSetters : List Setter :=
  [.maxFeePerGas 20, .nonce 3, .gasLimit 21000, .chainId 1]

/-- Setting a default changes nothing, and leaving out a mandatory field panics. -/
theorem sign_build_sampleSetters :
    (∃ tx, (run sampleSetters).build = .ok tx ∧
      (run (.value 0 :: sampleSetters)).build = .ok tx ∧
      (run sampleSetters.reverse).build = .ok tx ∧ tx.to_ = none ∧ tx.value = 0) ∧
    (run [.nonce 3, .gasLimit 21000]).build = .panic "chain_id is mandatory" := by
  obtain ⟨hrequires, hperm, -⟩ := sign_build_eq_iff
  refine ⟨⟨⟨1, 3, none, 0, [], 21000, 20, 0, [], by decide⟩, ?_, ?_, ?_, rfl, rfl⟩, ?_⟩
  · exact ((hrequires sampleSetters).ok_iff _).mpr
      ⟨rfl, rfl, rfl, rfl, rfl, rfl, rfl, rfl, rfl⟩
  · exact ((hrequires (.value 0 :: sampleSetters)).ok_iff _).mpr
      ⟨rfl, rfl, rfl, rfl, rfl, rfl, rfl, rfl, rfl⟩
  · rw [hperm _ _ (List.reverse_perm sampleSetters) (by decide)]
    exact ((hrequires sampleSetters).ok_iff _).mpr
      ⟨rfl, rfl, rfl, rfl, rfl, rfl, rfl, rfl, rfl⟩
  · exact ((hrequires _).panic_iff _).mpr rfl

end EVMTransactionBuilder

end Evm
