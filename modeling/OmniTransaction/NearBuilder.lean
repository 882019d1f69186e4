/-
# The builder of NEAR transactions

`NearTransactionBuilder` of `src/near/near_transaction_builder.rs`, under any sequence of
calls of its setters.  The two account names are texts until `build` parses them, so `build`
panics at the first field that was never set or at the first text that is no account name,
whichever comes first.  The payload to sign is read back as the transaction that was
described (`read_build_iff`).
-/
import OmniTransaction.LastSet
import OmniTransaction.NearSerialization
import OmniTransaction.Requires

open Borsh ByteOrder Rust LastSet Requirements

namespace Near

variable {validate : String → Option String}

section

variable (validate)

/-- `NearTransactionBuilder`. -/
@[ext]
structure NearTransactionBuilder where
  signerId : Option String
  signerPublicKey : Option PublicKey
  nonce : Option UInt64
  receiverId : Option String
  blockHash : Option BlockHash
  actions : Option (List (Action validate))

end

/-- The message of `unwrap` for a text that is no account name.  The form of the error in it
is up to `near-account-id`. -/
def AccountId.unwrapMessage (debugError : String → String) (name : String) : String :=
  "called `Result::unwrap()` on an `Err` value: " ++ debugError name

/-- `parse().unwrap()`. -/
def AccountId.parseUnwrap (debugError : String → String) (name : String) :
    Outcome Empty (AccountId validate) :=
  Outcome.expectSome (unwrapMessage debugError name) (AccountId.ofString validate name)

/-! ## Payloads -/

theorem NearTransaction.eq_of_buildForSigning_eq {tx tx' : NearTransaction validate}
    (h : tx.Fits) (h' : tx'.Fits) (heq : tx.buildForSigning = tx'.buildForSigning) : tx = tx' := by
  obtain ⟨b, hb, -⟩ := NearTransaction.isCodec.exists_toVec h
  have hbuild := NearTransaction.buildForSigning_eq_ok_iff.mpr hb
  have hb' := NearTransaction.buildForSigning_eq_ok_iff.mp (heq ▸ hbuild)
  exact NearTransaction.isCodec.eq_of_toVec_eq h h' (hb.trans hb'.symm)

/-- The signed bytes determine both parts. -/
theorem NearTransaction.eq_of_buildWithSignature_eq {tx tx' : NearTransaction validate}
    {signature signature' : Signature} (h : tx.Fits) (h' : tx'.Fits)
    (heq : tx.buildWithSignature signature = tx'.buildWithSignature signature') :
    tx = tx' ∧ signature = signature' := by
  obtain ⟨b, hb, -⟩ :=
    SignedTransaction.isCodec.exists_toVec (a := SignedTransaction.mk tx signature) h
  have hbuild := NearTransaction.buildWithSignature_eq_ok_iff.mpr hb
  have hb' := NearTransaction.buildWithSignature_eq_ok_iff.mp (heq ▸ hbuild)
  refine SignedTransaction.mk.inj
    (SignedTransaction.isCodec.eq_of_toVec_eq ?_ ?_ (hb.trans hb'.symm))
  · exact h
  · exact h'

namespace NearTransactionBuilder

/-- `new`, and `default` for `TransactionBuilder::new`. -/
def new : NearTransactionBuilder validate := ⟨none, none, none, none, none, none⟩

instance : Inhabited (NearTransactionBuilder validate) := ⟨new⟩

/-- `build`. -/
def build (debugError : String → String) (builder : NearTransactionBuilder validate) :
    Outcome Empty (NearTransaction validate) := do
  let signerName ← Outcome.expectSome "Missing sender ID" builder.signerId
  let signerId ← AccountId.parseUnwrap debugError signerName
  let signerPublicKey ← Outcome.expectSome "Missing signer public key" builder.signerPublicKey
  let nonce ← Outcome.expectSome "Missing nonce" builder.nonce
  let receiverName ← Outcome.expectSome "Missing receiver ID" builder.receiverId
  let receiverId ← AccountId.parseUnwrap debugError receiverName
  let blockHash ← Outcome.expectSome "Missing block hash" builder.blockHash
  let actions ← Outcome.expectSome "Missing actions" builder.actions
  return { signerId, signerPublicKey, nonce := ⟨nonce⟩, receiverId, blockHash, actions }

/-! ## Calls of the setters -/

/-- The setters, under their names. -/
inductive Setter (validate : String → Option String) where
  | signerId (signerId : String)
  | signerPublicKey (signerPublicKey : PublicKey)
  | nonce (nonce : UInt64)
  | receiverId (receiverId : String)
  | blockHash (blockHash : BlockHash)
  | actions (actions : List (Action validate))

namespace Setter

/-- Call a setter. -/
def apply (builder : NearTransactionBuilder validate) :
    Setter validate → NearTransactionBuilder validate
  | .signerId text => { builder with signerId := some text }
  | .signerPublicKey key => { builder with signerPublicKey := some key }
  | .nonce n => { builder with nonce := some n }
  | .receiverId text => { builder with receiverId := some text }
  | .blockHash hash => { builder with blockHash := some hash }
  | .actions acts => { builder with actions := some acts }

/-- The name of the method. -/
def name : Setter validate → String
  | .signerId _ => "signer_id"
  | .signerPublicKey _ => "signer_public_key"
  | .nonce _ => "nonce"
  | .receiverId _ => "receiver_id"
  | .blockHash _ => "block_hash"
  | .actions _ => "actions"

/-- What a call sets as the signer. -/
def signerId? : Setter validate → Option String
  | .signerId text => some text
  | _ => none

/-- What a call sets as the signer's key. -/
def signerPublicKey? : Setter validate → Option PublicKey
  | .signerPublicKey key => some key
  | _ => none

/-- What a call sets as the nonce. -/
def nonce? : Setter validate → Option UInt64
  | .nonce n => some n
  | _ => none

/-- What a call sets as the receiver. -/
def receiverId? : Setter validate → Option String
  | .receiverId text => some text
  | _ => none

/-- What a call sets as the hash of the block. -/
def blockHash? : Setter validate → Option BlockHash
  | .blockHash hash => some hash
  | _ => none

/-- What a call sets as the actions. -/
def actions? : Setter validate → Option (List (Action validate))
  | .actions acts => some acts
  | _ => none

/-- Different setters commute. -/
theorem apply_comm (builder : NearTransactionBuilder validate) (a b : Setter validate)
    (h : a.name ≠ b.name) : apply (apply builder a) b = apply (apply builder b) a := by
  cases a <;> cases b <;> first | rfl | exact absurd rfl h

/-- The field is what was set last; no other setter touches it. -/
theorem tracks_signerId :
    Tracks (@apply validate) NearTransactionBuilder.signerId signerId? := by
  intro builder call
  cases call <;> rfl

theorem tracks_signerPublicKey :
    Tracks (@apply validate) NearTransactionBuilder.signerPublicKey signerPublicKey? := by
  intro builder call
  cases call <;> rfl

theorem tracks_nonce : Tracks (@apply validate) NearTransactionBuilder.nonce nonce? := by
  intro builder call
  cases call <;> rfl

theorem tracks_receiverId :
    Tracks (@apply validate) NearTransactionBuilder.receiverId receiverId? := by
  intro builder call
  cases call <;> rfl

theorem tracks_blockHash :
    Tracks (@apply validate) NearTransactionBuilder.blockHash blockHash? := by
  intro builder call
  cases call <;> rfl

theorem tracks_actions : Tracks (@apply validate) NearTransactionBuilder.actions actions? := by
  intro builder call
  cases call <;> rfl

end Setter

/-- The builder after calls of its setters. -/
def run (calls : List (Setter validate)) : NearTransactionBuilder validate :=
  calls.foldl Setter.apply new

/-- The transaction has in each field what was set last. -/
structure Describes (calls : List (Setter validate)) (tx : NearTransaction validate) :
    Prop where
  signerId : lastSet Setter.signerId? calls = some tx.signerId.val
  signerPublicKey : lastSet Setter.signerPublicKey? calls = some tx.signerPublicKey
  nonce : lastSet Setter.nonce? calls = some tx.nonce.val
  receiverId : lastSet Setter.receiverId? calls = some tx.receiverId.val
  blockHash : lastSet Setter.blockHash? calls = some tx.blockHash
  actions : lastSet Setter.actions? calls = some tx.actions

/-- What `build` asks for, in its order: a name is parsed as soon as it is found. -/
def required (debugError : String → String) (calls : List (Setter validate)) :
    List (String × Bool) :=
  let signerId := lastSet Setter.signerId? calls
  let receiverId := lastSet Setter.receiverId? calls
  [("Missing sender ID", signerId.isSome),
    (AccountId.unwrapMessage debugError (signerId.getD ""),
      (signerId.bind (AccountId.ofString validate)).isSome),
    ("Missing signer public key", (lastSet Setter.signerPublicKey? calls).isSome),
    ("Missing nonce", (lastSet Setter.nonce? calls).isSome),
    ("Missing receiver ID", receiverId.isSome),
    (AccountId.unwrapMessage debugError (receiverId.getD ""),
      (receiverId.bind (AccountId.ofString validate)).isSome),
    ("Missing block hash", (lastSet Setter.blockHash? calls).isSome),
    ("Missing actions", (lastSet Setter.actions? calls).isSome)]

/-- After any calls each field of the builder holds what was set last. -/
theorem run_eq (calls : List (Setter validate)) : run calls =
    ⟨lastSet Setter.signerId? calls, lastSet Setter.signerPublicKey? calls,
      lastSet Setter.nonce? calls, lastSet Setter.receiverId? calls,
      lastSet Setter.blockHash? calls, lastSet Setter.actions? calls⟩ := by
  apply NearTransactionBuilder.ext
  · exact (Setter.tracks_signerId.foldl new calls).trans (Option.or_none ..)
  · exact (Setter.tracks_signerPublicKey.foldl new calls).trans (Option.or_none ..)
  · exact (Setter.tracks_nonce.foldl new calls).trans (Option.or_none ..)
  · exact (Setter.tracks_receiverId.foldl new calls).trans (Option.or_none ..)
  · exact (Setter.tracks_blockHash.foldl new calls).trans (Option.or_none ..)
  · exact (Setter.tracks_actions.foldl new calls).trans (Option.or_none ..)

/-- A name that is set, then parsed, and then the rest of the fields. -/
theorem requires_name (debugError : String → String) {β : Type} (name : Option String)
    {f : AccountId validate → Outcome Empty β} {rest : List (String × Bool)}
    {P : AccountId validate → β → Prop} (msg : String) (h : ∀ a, Requires (f a) rest (P a)) :
    Requires
      (Outcome.expectSome msg name >>= fun text => AccountId.parseUnwrap debugError text >>= f)
      ((msg, name.isSome) :: (AccountId.unwrapMessage debugError (name.getD ""),
        (name.bind (AccountId.ofString validate)).isSome) :: rest)
      fun b => ∃ account, name = some account.val ∧ P account b := by
  refine (Requires.expectSome (Q := fun text b =>
    ∃ account, AccountId.ofString validate text = some account ∧ P account b)
    (fun text htext => ?_) msg).congr fun b => ?_
  · rw [htext]
    exact Requires.expectSome (fun account _ => h account) _
  · constructor
    · rintro ⟨text, htext, account, haccount, hP⟩
      obtain rfl := (AccountId.ofString_eq_some_iff text account).mp haccount
      exact ⟨account, htext, hP⟩
    · rintro ⟨account, haccount, hP⟩
      exact ⟨_, haccount, account, (AccountId.ofString_eq_some_iff _ _).mpr rfl, hP⟩

/-- Whatever the calls, `build` returns what they describe, or panics at the first field that
was never set or the first text that is no account name. -/
theorem requires_build (debugError : String → String) (calls : List (Setter validate)) :
    Requires ((run calls).build debugError) (required debugError calls) (Describes calls) := by
  rw [run_eq]
  refine (requires_name debugError _ _ fun signerId =>
    Requires.expectSome (fun signerPublicKey _ => Requires.expectSome (fun nonce _ =>
      requires_name debugError _ _ fun receiverId => Requires.expectSome (fun blockHash _ =>
        Requires.expectSome (fun actions _ => requires_pure _) _) _) _) _).congr fun tx => ?_
  constructor
  · rintro ⟨signerId, hsignerId, signerPublicKey, hkey, nonce, hnonce, receiverId, hreceiverId,
      blockHash, hblockHash, actions, hactions, rfl⟩
    exact ⟨hsignerId, hkey, hnonce, hreceiverId, hblockHash, hactions⟩
  · rintro ⟨hsignerId, hkey, hnonce, hreceiverId, hblockHash, hactions⟩
    exact ⟨_, hsignerId, _, hkey, _, hnonce, _, hreceiverId, _, hblockHash, _, hactions, rfl⟩

/-! ## Calls with the same effect -/

/-- The same values were set last. -/
structure SetAlike (calls calls' : List (Setter validate)) : Prop where
  signerId : lastSet Setter.signerId? calls = lastSet Setter.signerId? calls'
  signerPublicKey :
    lastSet Setter.signerPublicKey? calls = lastSet Setter.signerPublicKey? calls'
  nonce : lastSet Setter.nonce? calls = lastSet Setter.nonce? calls'
  receiverId : lastSet Setter.receiverId? calls = lastSet Setter.receiverId? calls'
  blockHash : lastSet Setter.blockHash? calls = lastSet Setter.blockHash? calls'
  actions : lastSet Setter.actions? calls = lastSet Setter.actions? calls'

variable {calls calls' : List (Setter validate)} {tx tx' : NearTransaction validate}

/-- Calls describe one transaction at most. -/
theorem Describes.unique (h : Describes calls tx) (h' : Describes calls tx') : tx = tx' := by
  obtain ⟨hsignerId, hkey, hnonce, hreceiverId, hblockHash, hactions⟩ := h
  obtain ⟨⟨signerId, hs⟩, signerPublicKey, ⟨nonce⟩, ⟨receiverId, hr⟩, blockHash, actions⟩ := tx
  obtain ⟨⟨signerId', hs'⟩, signerPublicKey', ⟨nonce'⟩, ⟨receiverId', hr'⟩, blockHash',
    actions'⟩ := tx'
  obtain rfl := Option.some.inj (hsignerId.symm.trans h'.signerId)
  obtain rfl := Option.some.inj (hkey.symm.trans h'.signerPublicKey)
  obtain rfl := Option.some.inj (hnonce.symm.trans h'.nonce)
  obtain rfl := Option.some.inj (hreceiverId.symm.trans h'.receiverId)
  obtain rfl := Option.some.inj (hblockHash.symm.trans h'.blockHash)
  obtain rfl := Option.some.inj (hactions.symm.trans h'.actions)
  rfl

/-- Calls that describe transactions were alike exactly when these are the same. -/
theorem Describes.setAlike_iff (h : Describes calls tx) (h' : Describes calls' tx') :
    SetAlike calls calls' ↔ tx = tx' := by
  constructor
  · rintro ⟨hsignerId, hkey, hnonce, hreceiverId, hblockHash, hactions⟩
    exact h.unique ⟨hsignerId.trans h'.signerId, hkey.trans h'.signerPublicKey,
      hnonce.trans h'.nonce, hreceiverId.trans h'.receiverId, hblockHash.trans h'.blockHash,
      hactions.trans h'.actions⟩
  · rintro rfl
    exact ⟨h.signerId.trans h'.signerId.symm, h.signerPublicKey.trans h'.signerPublicKey.symm,
      h.nonce.trans h'.nonce.symm, h.receiverId.trans h'.receiverId.symm,
      h.blockHash.trans h'.blockHash.symm, h.actions.trans h'.actions.symm⟩

/-- `build` fails at the first field that is not there or is no account name; the order of
the setters does not matter; and what is read from the payload to sign is the transaction
that the calls describe, so that two builders give the same payload, or the same signed
bytes, exactly when the same values were set last. -/
theorem read_build_iff (debugError : String → String) :
    (∀ calls : List (Setter validate),
      Requires ((run calls).build debugError) (required debugError calls) (Describes calls)) ∧
    (∀ calls calls' : List (Setter validate), calls.Perm calls' →
      (calls.map Setter.name).Nodup →
      (run calls).build debugError = (run calls').build debugError) ∧
    (∀ (calls : List (Setter validate)) tx, (run calls).build debugError = .ok tx → tx.Fits →
      ∃ b, tx.buildForSigning = .ok b ∧
        ∀ tx', tryFromSlice NearTransaction.deserialize b = .ok tx' ↔ Describes calls tx') ∧
    ∀ (calls calls' : List (Setter validate)) tx tx', (run calls).build debugError = .ok tx →
      (run calls').build debugError = .ok tx' → tx.Fits → tx'.Fits →
      (tx.buildForSigning = tx'.buildForSigning ↔ SetAlike calls calls') ∧
      ∀ signature signature', tx.buildWithSignature signature = tx'.buildWithSignature signature' ↔
        SetAlike calls calls' ∧ signature = signature' := by
  refine ⟨requires_build debugError, fun calls calls' h hnodup => ?_, fun calls tx h hfits => ?_,
    fun calls calls' tx tx' h h' hfits hfits' => ?_⟩
  · rw [run, run, foldl_perm Setter.apply_comm h hnodup]
  · have hdescribes := ((requires_build debugError calls).ok_iff tx).mp h
    obtain ⟨b, hb, hreads⟩ := NearTransaction.isCodec.exists_toVec hfits
    refine ⟨b, NearTransaction.buildForSigning_eq_ok_iff.mpr hb, fun tx' => ?_⟩
    have hread : tryFromSlice NearTransaction.deserialize b = .ok tx := by
      rw [tryFromSlice_eq_ok_iff, ← hreads [], List.append_nil]
    rw [hread, Outcome.ok.injEq]
    constructor
    · rintro rfl
      exact hdescribes
    · exact hdescribes.unique
  · have hdescribes := ((requires_build debugError calls).ok_iff tx).mp h
    have hdescribes' := ((requires_build debugError calls').ok_iff tx').mp h'
    rw [hdescribes.setAlike_iff hdescribes']
    constructor
    · constructor
      · exact NearTransaction.eq_of_buildForSigning_eq hfits hfits'
      · rintro rfl
        rfl
    · intro signature signature'
      constructor
      · exact NearTransaction.eq_of_buildWithSignature_eq hfits hfits'
      · rintro ⟨rfl, rfl⟩
        rfl

/-- The receiver is set twice. -/
def sampleSetters : List (Setter lengthRule) :=
  [.receiverId "x", .actions sampleTransaction.actions, .signerId "alice.near", .nonce 1,
    .receiverId "bob.near", .signerPublicKey sampleKey, .blockHash sampleTransaction.blockHash]

/-- The errors of `lengthRule` as `Debug` writes them. -/
def lengthRuleDebug (name : String) : String :=
  if name.utf8ByteSize < 2 then "ParseAccountError \x7b kind: TooShort, char: None \x7d"
  else "ParseAccountError \x7b kind: TooLong, char: None \x7d"

/-- The short name is never parsed where a later one replaces it. -/
theorem read_build_sampleSetters :
    (run sampleSetters).build lengthRuleDebug = .ok sampleTransaction ∧
      (∃ b, sampleTransaction.buildForSigning = .ok b ∧
        tryFromSlice NearTransaction.deserialize b = .ok sampleTransaction) ∧
      (run sampleSetters.reverse).build lengthRuleDebug =
        .panic (AccountId.unwrapMessage lengthRuleDebug "x") := by
  obtain ⟨hrequires, -, hread, -⟩ := @read_build_iff lengthRule lengthRuleDebug
  have hdescribes : Describes sampleSetters sampleTransaction := ⟨rfl, rfl, rfl, rfl, rfl, rfl⟩
  have hbuild := ((hrequires sampleSetters).ok_iff _).mpr hdescribes
  obtain ⟨b, hb, hread⟩ := hread _ _ hbuild sampleTransaction_fits
  refine ⟨hbuild, ⟨b, hb, (hread _).mpr hdescribes⟩, ?_⟩
  -- in the other order the short name is the last one set
  exact ((hrequires sampleSetters.reverse).panic_iff _).mpr rfl

end NearTransactionBuilder

end Near
