/-
# Where witnesses come from

A caller holds witnesses from `new`, `from_slice` and `decode` and from the JSON and
Borsh readers of a witness, an input and a transaction.  All of them but two make
packed witnesses only.  The Borsh readers take the three fields of a witness as they
come, so that they are right on the inputs in which the fields agree; `decode` on 32 bits
keeps the announced size of an element and truncates it for the data
(`Source.sound_iff`).
-/
import OmniTransaction.BitcoinDecoding
import OmniTransaction.BitcoinJson
import OmniTransaction.WitnessFields

open ByteOrder Rust PrefixCode Serde

namespace Bitcoin

variable {usizeBits : ℕ}

namespace Witness

/-- The witness is the packed form of a list, and nothing that reads it panics; its vector
holds at most `isize::MAX` bytes. -/
structure Sound (usizeBits : ℕ) (w : Witness) : Prop where
  packed : ∃ xs, Packed w xs
  neverPanics : w.content.length < 2 ^ (usizeBits - 1) → NeverPanics usizeBits w

theorem sound_iff_packed {w : Witness} (hwidth : usizeBits = 32 ∨ usizeBits = 64) :
    w.Sound usizeBits ↔ ∃ xs, Packed w xs := by
  constructor
  · exact Sound.packed
  · rintro ⟨xs, h⟩
    exact ⟨⟨xs, h⟩, fun halloc => h.neverPanics (add_four_lt_two_pow hwidth halloc)⟩

/-- What a caller gives to a constructor. -/
inductive Source where
  | new
  | fromSlice (slice : Vec (Vec UInt8))
  | decode (b : Bytes)
  | json (level : ℕ) (doc : Json)
  | jsonTxIn (level : ℕ) (doc : Json)
  | jsonTransaction (level : ℕ) (doc : Json)
  | borsh (b : Bytes)
  | borshTxIn (b : Bytes)
  | borshTransaction (b : Bytes)

namespace Source

/-- The constructor accepts, and the witness is part of what it returns. -/
def Yields (hex : Hex.Codec) (usizeBits : ℕ) (w : Witness) : Source → Prop
  | new => w = .new
  | fromSlice slice => (Witness.fromSlice slice : Outcome Empty Witness) = .ok w
  | decode b => ∃ rest, (Witness.decode usizeBits).run b = .ok (w, rest)
  | json level doc => Witness.fromJson hex level doc = .ok w
  | jsonTxIn level doc => ∃ input, TxIn.fromJson hex level doc = .ok input ∧ input.witness = w
  | jsonTransaction level doc => ∃ tx, BitcoinTransaction.fromDocument hex level doc = .ok tx ∧
      ∃ input ∈ tx.input.toList, input.witness = w
  | borsh b => ∃ rest, (Witness.deserialize usizeBits).run b = .ok (w, rest)
  | borshTxIn b => ∃ input rest, (TxIn.deserialize usizeBits).run b = .ok (input, rest) ∧
      input.witness = w
  | borshTransaction b => ∃ tx rest,
      (BitcoinTransaction.deserialize usizeBits).run b = .ok (tx, rest) ∧
      ∃ input ∈ tx.input.toList, input.witness = w

/-- The input starts with a count and elements within the limits, one of which has a size
that is no `usize` in front of what the remainder of the size announces. -/
def OversizedElement (usizeBits : ℕ) (b : Bytes) : Prop :=
  ∃ (count : VarInt) (es : List (Element usizeBits)) (rest : Bytes),
    (∃ e ∈ es, 2 ^ usizeBits ≤ e.size.val.toNat) ∧ asUsize usizeBits count.val = es.length ∧
    es.length ≤ MAX_VEC_SIZE ∧ (es.flatMap Element.wire).length ≤ MAX_VEC_SIZE ∧
    b = count.wire ++ (es.flatMap Element.wire ++ rest)

/-- The bytes for `decode` have no oversized element.  The fields of every witness that stands
at its place in a complete Borsh input agree. -/
def Honest (usizeBits : ℕ) : Source → Prop
  | decode b => ¬ OversizedElement usizeBits b
  | borsh b => ∀ r ∈ (Witness.layout usizeBits).run b, r.1.fieldsAgree = true
  | borshTxIn b => ∀ r ∈ (TxIn.layout usizeBits).run b, r.1.fieldsAgree = true
  | borshTransaction b =>
      ∀ r ∈ (BitcoinTransaction.layout usizeBits).run b, ∀ w ∈ r.1, w.fieldsAgree = true
  | _ => True

end Source

/-! ## `decode` -/

/-- On 32 bits a witness that `decode` makes is packed when no element is oversized. -/
theorem exists_packed_ofElements_32_iff {es : Vec (Element 32)} (hle : es.length ≤ MAX_VEC_SIZE)
    (hlimit : (es.toList.flatMap Element.wire).length ≤ MAX_VEC_SIZE) :
    (∃ xs, Packed (ofElements es) xs) ↔ ∀ e ∈ es.toList, ¬ Oversized e.size := by
  have hmax : MAX_VEC_SIZE = 4000000 := rfl
  constructor
  · rintro ⟨xs, h⟩
    -- the elements are small, so they are elements on 32 bits
    have hlen : es.length = xs.length := h.witnessElements
    have hwithin : WithinLimits xs := by
      have hindices : (es.toList.flatMap Element.wire).length
          = (xs.toList.flatMap prefixed).length := h.indicesStart
      exact ⟨hlen ▸ hle, hindices ▸ hlimit⟩
    obtain ⟨-, es', -, hsmall, -, -, -, hw, -⟩ :=
      exists_elements_32 (packs_64_iff.mpr ⟨xs, hwithin, h, rfl⟩)
    rwa [ofElements_injective hw]
  · intro hsmall
    have hes : ∀ e ∈ es.toList, asUsize 32 e.size.val = asUsize 64 e.size.val := fun e he =>
      asUsize_32_of_lt (Nat.lt_of_not_le (hsmall e he))
    have hcount : asUsize 32 (VarInt.ofLength es.length).val = es.length := by
      rw [VarInt.ofLength, asUsize, es.toNat_ofNat_length]
      exact Nat.mod_eq_of_lt (by omega)
    have hcount' : asUsize 32 (VarInt.ofLength es.length).val
        = asUsize 64 (VarInt.ofLength es.length).val := by
      rw [hcount, asUsize_64, VarInt.ofLength, es.toNat_ofNat_length]
    obtain ⟨es', -, -, -, hwires, hw⟩ := exists_recast hcount' hes hcount
    obtain ⟨xs, rfl⟩ := exists_elements_eq es'
    refine ⟨xs, (packed_iff xs (length_lt_two_pow_64 xs)).mpr ⟨hw.symm, ?_⟩⟩
    apply Element.offsetsFit_of_lt
    rw [hwires]
    omega

namespace Source

theorem decode_sound_iff (hwidth : usizeBits = 32 ∨ usizeBits = 64) (b : Bytes) :
    (∀ w rest, (Witness.decode usizeBits).run b = .ok (w, rest) → ∃ xs, Packed w xs) ↔
      ¬ OversizedElement usizeBits b := by
  have haccepts := accepts_decode usizeBits
  rcases hwidth with rfl | rfl
  · constructor
    · rintro h ⟨count, es, rest, ⟨e, he, hover⟩, hcount, hle, hlimit, rfl⟩
      have hmax : MAX_VEC_SIZE = 4000000 := rfl
      let v : Vec (Element 32) := ⟨es, by omega⟩
      have hpacks : Packs 32 (ofElements v) (count.wire ++ es.flatMap Element.wire) :=
        ⟨count, v, hcount, hle, (elementsLimit_eq (n := v.length) (le_refl 32) hle).symm ▸ hlimit,
          rfl, rfl⟩
      have hpacked := h (ofElements v) rest
        ((haccepts.run_eq_ok_iff _ _ _).mpr ⟨_, hpacks, (List.append_assoc ..).symm⟩)
      have hvle : v.length ≤ MAX_VEC_SIZE := hle
      have hvlimit : (v.toList.flatMap Element.wire).length ≤ MAX_VEC_SIZE := hlimit
      exact (exists_packed_ofElements_32_iff hvle hvlimit).mp hpacked e he hover
    · intro h w rest hrun
      obtain ⟨bs, ⟨count, es, hcount, hle, hlimit, rfl, rfl⟩, rfl⟩ :=
        (haccepts.run_eq_ok_iff _ _ _).mp hrun
      rw [elementsLimit_eq (le_refl 32) hle] at hlimit
      refine (exists_packed_ofElements_32_iff hle hlimit).mpr fun e he hover => h ?_
      exact ⟨count, es.toList, rest, ⟨e, he, hover⟩, hcount, hle, hlimit, List.append_assoc ..⟩
  · -- on 64 bits every size is a `usize`
    have hno : ¬ OversizedElement 64 b := by
      rintro ⟨-, es, -, ⟨e, -, hover⟩, -⟩
      exact absurd e.size.val.toNat_lt (Nat.not_lt.mpr hover)
    refine iff_of_true ?_ hno
    intro w rest hrun
    obtain ⟨bs, hpacks, -⟩ := (haccepts.run_eq_ok_iff _ _ _).mp hrun
    obtain ⟨xs, -, hpacked, -⟩ := packs_64_iff.mp hpacks
    exact ⟨xs, hpacked⟩

/-! ## All constructors -/

/-- A constructor makes sound witnesses only, exactly on honest inputs. -/
theorem sound_iff (hex : Hex.Codec) (hwidth : usizeBits = 32 ∨ usizeBits = 64)
    (source : Source) :
    (∀ w, source.Yields hex usizeBits w → w.Sound usizeBits) ↔ source.Honest usizeBits := by
  simp only [sound_iff_packed hwidth]
  cases source with
  | new => exact iff_of_true (by rintro w rfl; exact ⟨_, packed_new⟩) trivial
  | fromSlice slice =>
      exact iff_of_true (fun w hw => ⟨slice, fromSlice_eq_ok_iff.mp hw⟩) trivial
  | decode b =>
      refine Iff.trans ?_ (decode_sound_iff hwidth b)
      exact forall_congr' fun w => forall_exists_index
  | json level doc => exact iff_of_true (fun w => packed_of_fromJson) trivial
  | jsonTxIn level doc =>
      refine iff_of_true ?_ trivial
      rintro w ⟨input, hread, rfl⟩
      exact TxIn.packed_of_fromJson hread
  | jsonTransaction level doc =>
      refine iff_of_true ?_ trivial
      rintro w ⟨tx, hread, input, hinput, rfl⟩
      exact BitcoinTransaction.packed_of_fromDocument hread input hinput
  | borsh b =>
      simp only [Honest, fieldsAgree_iff]
      refine Iff.trans ?_ ((Witness.shows_layout usizeBits).forall_iff (p := fun w =>
        ∃ xs, Packed w xs))
      exact forall_congr' fun w => forall_exists_index
  | borshTxIn b =>
      simp only [Honest, fieldsAgree_iff]
      refine Iff.trans ?_ ((TxIn.shows_layout usizeBits).forall_iff (p := fun w =>
        ∃ xs, Packed w xs))
      constructor
      · exact fun h input rest hrun => h _ ⟨input, rest, hrun, rfl⟩
      · rintro h w ⟨input, rest, hrun, rfl⟩
        exact h input rest hrun
  | borshTransaction b =>
      simp only [Honest, fieldsAgree_iff]
      refine Iff.trans ?_ ((BitcoinTransaction.shows_layout usizeBits).forall_iff (p := fun ws =>
        ∀ w ∈ ws, ∃ xs, Packed w xs))
      constructor
      · intro h tx rest hrun w hw
        obtain ⟨input, hinput, rfl⟩ := List.mem_map.mp hw
        exact h _ ⟨tx, rest, hrun, input, hinput, rfl⟩
      · rintro h w ⟨tx, rest, hrun, input, hinput, rfl⟩
        exact h tx rest hrun _ (List.mem_map_of_mem hinput)

/-- An empty vector, the count `1` and the offset `0`. -/
def hollowBytes : Bytes := List.replicate 4 0 ++ 1 :: List.replicate 15 0

/-- The derived Borsh reader accepts fields that do not agree, and `encode` panics. -/
theorem not_sound_hollowBytes :
    (borsh hollowBytes).Yields .lowercase 64 .hollow ∧ (¬ ∃ xs, Packed .hollow xs) ∧
      (∃ msg, (Witness.hollow.encode : ByteStream Empty ℕ).run [] = .panic msg) ∧
      ¬ ∀ w, (borsh hollowBytes).Yields .lowercase 64 w → w.Sound 64 := by
  have hyields : (borsh hollowBytes).Yields .lowercase 64 .hollow := ⟨[], by decide⟩
  have hpacked : ¬ ∃ xs, Packed .hollow xs := by
    rintro ⟨xs, h⟩
    exact absurd h.wellSized (by decide)
  exact ⟨hyields, hpacked, ⟨_, rfl⟩, fun h => hpacked (h _ hyields).packed⟩

/-- The content `01 30` with the offset `0`, the count `1` and the start `2`. -/
def packedBytes : Bytes :=
  [6, 0, 0, 0] ++ [1, 0x30, 0, 0, 0, 0] ++ leBytes 8 1 ++ leBytes 8 2

/-- The fields agree in the one input and not in the other. -/
theorem sound_iff_packedBytes :
    (∀ w, (borsh packedBytes).Yields .lowercase 64 w → w.Sound 64) ∧
      ¬ ∀ w, (borsh hollowBytes).Yields .lowercase 64 w → w.Sound 64 := by
  constructor
  · refine (sound_iff .lowercase (.inr rfl) (borsh packedBytes)).mpr ?_
    show ∀ r ∈ (Witness.layout 64).run packedBytes, r.1.fieldsAgree = true
    decide
  · intro h
    have hhonest := (sound_iff .lowercase (.inr rfl) (borsh hollowBytes)).mp h
    exact absurd (hhonest (.hollow, []) (by decide)) (by decide)

end Source

end Witness

end Bitcoin
