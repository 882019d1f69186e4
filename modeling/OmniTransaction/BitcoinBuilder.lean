/-
# The builder of Bitcoin transactions

`BitcoinTransactionBuilder` of `src/bitcoin/bitcoin_transaction_builder.rs`, under any
sequence of calls of its setters.  What is built has in each field what was set last, and
`build` panics with the message of the first field that was never set
(`requires_build`).  Two sequences of calls build transactions with the same bytes exactly
when they set the same values last (`serialize_build_eq_iff`).
-/
import OmniTransaction.BitcoinSerialization
import OmniTransaction.LastSet
import OmniTransaction.Requires

open Rust LastSet Requirements

namespace Bitcoin

/-- `BitcoinTransactionBuilder`. -/
@[ext]
structure BitcoinTransactionBuilder where
  version : Option Version
  lockTime : Option LockTime
  inputs : Option (Vec TxIn)
  outputs : Option (Vec TxOut)

namespace BitcoinTransactionBuilder

/-- `new`, and `default` for `TransactionBuilder::new`. -/
def new : BitcoinTransactionBuilder := ⟨none, none, none, none⟩

instance : Inhabited BitcoinTransactionBuilder := ⟨new⟩

/-- `build`. -/
def build (builder : BitcoinTransactionBuilder) : Outcome Empty BitcoinTransaction := do
  let version ← Outcome.expectSome "Missing version" builder.version
  let lockTime ← Outcome.expectSome "Missing lock time" builder.lockTime
  let input ← Outcome.expectSome "Missing inputs" builder.inputs
  let output ← Outcome.expectSome "Missing outputs" builder.outputs
  return { version, lockTime, input, output }

/-! ## Calls of the setters -/

/-- The setters, under their names. -/
inductive Setter where
  | version (version : Version)
  | lockTime (lockTime : LockTime)
  | inputs (inputs : Vec TxIn)
  | outputs (outputs : Vec TxOut)

namespace Setter

/-- Call a setter. -/
def apply (builder : BitcoinTransactionBuilder) : Setter → BitcoinTransactionBuilder
  | .version v => { builder with version := some v }
  | .lockTime l => { builder with lockTime := some l }
  | .inputs ins => { builder with inputs := some ins }
  | .outputs outs => { builder with outputs := some outs }

/-- What a call sets as the version. -/
def version? : Setter → Option Version
  | .version v => some v
  | _ => none

/-- What a call sets as the lock time. -/
def lockTime? : Setter → Option LockTime
  | .lockTime l => some l
  | _ => none

/-- What a call sets as the inputs. -/
def inputs? : Setter → Option (Vec TxIn)
  | .inputs ins => some ins
  | _ => none

/-- What a call sets as the outputs. -/
def outputs? : Setter → Option (Vec TxOut)
  | .outputs outs => some outs
  | _ => none

/-- The name of the method. -/
def name : Setter → String
  | .version _ => "version"
  | .lockTime _ => "lock_time"
  | .inputs _ => "inputs"
  | .outputs _ => "outputs"

/-- Different setters commute. -/
theorem apply_comm (builder : BitcoinTransactionBuilder) (a b : Setter) (h : a.name ≠ b.name) :
    apply (apply builder a) b = apply (apply builder b) a := by
  cases a <;> cases b <;> first | rfl | exact absurd rfl h

/-- The field is what was set last; no other setter touches it. -/
theorem tracks_version : Tracks apply BitcoinTransactionBuilder.version version? := by
  intro builder call
  cases call <;> rfl

theorem tracks_lockTime : Tracks apply BitcoinTransactionBuilder.lockTime lockTime? := by
  intro builder call
  cases call <;> rfl

theorem tracks_inputs : Tracks apply BitcoinTransactionBuilder.inputs inputs? := by
  intro builder call
  cases call <;> rfl

theorem tracks_outputs : Tracks apply BitcoinTransactionBuilder.outputs outputs? := by
  intro builder call
  cases call <;> rfl

end Setter

/-- The builder after calls of its setters. -/
def run (calls : List Setter) : BitcoinTransactionBuilder := calls.foldl Setter.apply new

/-- The transaction has in each field what was set last. -/
structure Describes (calls : List Setter) (tx : BitcoinTransaction) : Prop where
  version : lastSet Setter.version? calls = some tx.version
  lockTime : lastSet Setter.lockTime? calls = some tx.lockTime
  inputs : lastSet Setter.inputs? calls = some tx.input
  outputs : lastSet Setter.outputs? calls = some tx.output

/-- The fields that must be set, in the order in which `build` asks for them. -/
def required (calls : List Setter) : List (String × Bool) :=
  [("Missing version", (lastSet Setter.version? calls).isSome),
    ("Missing lock time", (lastSet Setter.lockTime? calls).isSome),
    ("Missing inputs", (lastSet Setter.inputs? calls).isSome),
    ("Missing outputs", (lastSet Setter.outputs? calls).isSome)]

/-- After any calls each field of the builder holds what was set last. -/
theorem run_eq (calls : List Setter) : run calls =
    ⟨lastSet Setter.version? calls, lastSet Setter.lockTime? calls,
      lastSet Setter.inputs? calls, lastSet Setter.outputs? calls⟩ := by
  have hversion := Setter.tracks_version.foldl new calls
  have hlockTime := Setter.tracks_lockTime.foldl new calls
  have hinputs := Setter.tracks_inputs.foldl new calls
  have houtputs := Setter.tracks_outputs.foldl new calls
  apply BitcoinTransactionBuilder.ext
  · exact hversion.trans (Option.or_none ..)
  · exact hlockTime.trans (Option.or_none ..)
  · exact hinputs.trans (Option.or_none ..)
  · exact houtputs.trans (Option.or_none ..)

/-- Whatever the calls, `build` returns what they describe or panics with the message of the
first field that none of them has set. -/
theorem requires_build (calls : List Setter) :
    Requires (run calls).build (required calls) (Describes calls) := by
  rw [run_eq]
  refine (Requires.expectSome (fun version _ => Requires.expectSome (fun lockTime _ =>
    Requires.expectSome (fun input _ => Requires.expectSome (fun output _ =>
      requires_pure (BitcoinTransaction.mk version lockTime input output)) _) _) _) _).congr
      fun tx => ?_
  constructor
  · rintro ⟨version, hversion, lockTime, hlockTime, input, hinput, output, houtput, rfl⟩
    exact ⟨hversion, hlockTime, hinput, houtput⟩
  · rintro ⟨hversion, hlockTime, hinput, houtput⟩
    exact ⟨_, hversion, _, hlockTime, _, hinput, _, houtput, rfl⟩

/-! ## Calls with the same effect -/

/-- The same values were set last. -/
structure SetAlike (calls calls' : List Setter) : Prop where
  version : lastSet Setter.version? calls = lastSet Setter.version? calls'
  lockTime : lastSet Setter.lockTime? calls = lastSet Setter.lockTime? calls'
  inputs : lastSet Setter.inputs? calls = lastSet Setter.inputs? calls'
  outputs : lastSet Setter.outputs? calls = lastSet Setter.outputs? calls'

variable {calls calls' : List Setter} {tx tx' : BitcoinTransaction}

/-- Calls that describe transactions were alike exactly when these are the same. -/
theorem Describes.setAlike_iff (h : Describes calls tx) (h' : Describes calls' tx') :
    SetAlike calls calls' ↔ tx = tx' := by
  constructor
  · rintro ⟨hversion, hlockTime, hinputs, houtputs⟩
    rw [h.version, h'.version] at hversion
    rw [h.lockTime, h'.lockTime] at hlockTime
    rw [h.inputs, h'.inputs] at hinputs
    rw [h.outputs, h'.outputs] at houtputs
    exact BitcoinTransaction.ext (Option.some.inj hversion) (Option.some.inj hlockTime)
      (Option.some.inj hinputs) (Option.some.inj houtputs)
  · rintro rfl
    exact ⟨h.version.trans h'.version.symm, h.lockTime.trans h'.lockTime.symm,
      h.inputs.trans h'.inputs.symm, h.outputs.trans h'.outputs.symm⟩

/-- What is built is what was set last, whatever the order of the setters; and two builders
give the same bytes exactly when the same values were set last. -/
theorem serialize_build_eq_iff (usizeBits : ℕ) :
    (∀ calls, Requires (run calls).build (required calls) (Describes calls)) ∧
    (∀ calls calls', calls.Perm calls' → (calls.map Setter.name).Nodup →
      (run calls).build = (run calls').build) ∧
    ∀ calls calls' tx tx', (run calls).build = .ok tx → (run calls').build = .ok tx' →
      tx.WitnessesBuilt usizeBits → tx'.WitnessesBuilt usizeBits →
      (tx.serialize = tx'.serialize ↔ SetAlike calls calls') := by
  refine ⟨requires_build, fun calls calls' h hnodup => ?_, ?_⟩
  · rw [run, run, foldl_perm Setter.apply_comm h hnodup]
  · intro calls calls' tx tx' h h' hbuilt hbuilt'
    have hdescribes := ((requires_build calls).ok_iff tx).mp h
    have hdescribes' := ((requires_build calls').ok_iff tx').mp h'
    rw [hdescribes.setAlike_iff hdescribes']
    constructor
    · intro hbytes
      rw [BitcoinTransaction.serialize_eq hbuilt.sized,
        BitcoinTransaction.serialize_eq hbuilt'.sized] at hbytes
      have hwire : tx.wire ++ [] = tx'.wire ++ [] := by rw [Outcome.ok.inj hbytes]
      exact (BitcoinTransaction.wire_append_inj hbuilt hbuilt' hwire).1
    · rintro rfl
      rfl

/-- A transaction without witnesses. -/
def sampleBuilt (version : Version) : BitcoinTransaction :=
  { sampleTransaction (sampleInput 1 .empty .new) (sampleInput 2 .empty .new) with version }

theorem witnessesBuilt_sampleBuilt (version : Version) :
    (sampleBuilt version).WitnessesBuilt 64 := by
  intro input hinput
  rcases List.mem_pair.mp hinput with rfl | rfl
  · exact .new
  · exact .new

/-- The version is set twice. -/
def sampleSetters : List Setter :=
  [.version .One, .outputs (sampleBuilt .Two).output, .lockTime ⟨0⟩,
    .inputs (sampleBuilt .Two).input, .version .Two]

/-- The order of the two versions matters and shows in the bytes; no other order does. -/
theorem serialize_build_sampleSetters :
    (run sampleSetters).build = .ok (sampleBuilt .Two) ∧
      (run sampleSetters.tail).build = (run sampleSetters.tail.reverse).build ∧
      (run sampleSetters.reverse).build = .ok (sampleBuilt .One) ∧
      (sampleBuilt .Two).serialize ≠ (sampleBuilt .One).serialize ∧
      (run []).build = .panic "Missing version" := by
  obtain ⟨hrequires, hperm, hbytes⟩ := serialize_build_eq_iff 64
  have hbuild : (run sampleSetters).build = .ok (sampleBuilt .Two) :=
    ((hrequires sampleSetters).ok_iff _).mpr ⟨rfl, rfl, rfl, rfl⟩
  -- in the other order the first version is the last one set
  have hreverse : (run sampleSetters.reverse).build = .ok (sampleBuilt .One) :=
    ((hrequires sampleSetters.reverse).ok_iff _).mpr ⟨rfl, rfl, rfl, rfl⟩
  refine ⟨hbuild, hperm _ _ (List.reverse_perm _).symm (by decide), hreverse, ?_, ?_⟩
  · intro h
    have hversion := ((hbytes _ _ _ _ hbuild hreverse (witnessesBuilt_sampleBuilt .Two)
      (witnessesBuilt_sampleBuilt .One)).mp h).version
    cases hversion
  · exact ((hrequires []).panic_iff _).mpr rfl

end BitcoinTransactionBuilder

end Bitcoin
