/-
# Witness stacks as lists of byte strings

What a `Witness` stands for: a list of byte strings.  Its packed form (`Witness.Packed`)
is the elements, each behind its length, and then the offsets at which they start.
`from_slice` makes the packed form and `to_vec` reads it back; on 64 bits `decode`
accepts the encodings of short lists and makes the same packed form
(`Witness.decode_eq_ok_iff`).  On a packed witness nothing panics
(`Witness.Packed.neverPanics`).
-/
import OmniTransaction.WitnessIterator

open ByteOrder Rust PrefixCode

namespace Bitcoin

variable {ε : Type} {usizeBits : ℕ}

/-! ## The packed form of a list of byte strings -/

/-- A byte string behind its length. -/
def prefixed (x : Vec UInt8) : Bytes := (VarInt.ofLength x.length).wire ++ x.toList

/-- Where byte strings start that stand one after the other from `pos` on. -/
def starts : ℕ → List (Vec UInt8) → List ℕ
  | _, [] => []
  | pos, x :: xs => pos :: starts (pos + (prefixed x).length) xs

namespace Witness

/-- The witness is the packed form of the byte strings. -/
structure Packed (w : Witness) (xs : Vec (Vec UInt8)) : Prop where
  content : w.content
    = xs.toList.flatMap prefixed ++ (starts 0 xs.toList).flatMap (leBytes 4)
  offsets_fit : ∀ start ∈ starts 0 xs.toList, start < 2 ^ 32
  witnessElements : w.witnessElements = xs.length
  indicesStart : w.indicesStart = (xs.toList.flatMap prefixed).length

/-- Nothing that reads a witness panics: not `encode`, not the iterator or its
`size_hint` after any number of calls, and not `to_vec`. -/
structure NeverPanics (usizeBits : ℕ) (w : Witness) : Prop where
  encode : ∀ buf, ∃ r, (w.encode : ByteStream Empty ℕ).run buf = .ok r
  iter : ∀ calls, ∃ it, w.iter.advance usizeBits calls = .ok it ∧
    ∃ hint, it.sizeHint = .ok hint
  toVec : ∃ xs, w.toVec usizeBits = .ok xs

/-- A vector of at most `isize::MAX` bytes leaves room for one more offset. -/
theorem add_four_lt_two_pow {n : ℕ} (hwidth : usizeBits = 32 ∨ usizeBits = 64)
    (h : n < 2 ^ (usizeBits - 1)) : n + 4 < 2 ^ usizeBits := by
  rcases hwidth with rfl | rfl
  · omega
  · omega

/-- The byte strings as elements. -/
def elements (xs : Vec (Vec UInt8)) (hxs : ∀ x ∈ xs.toList, x.length < 2 ^ usizeBits) :
    Vec (Element usizeBits) :=
  ⟨xs.toList.pmap Element.ofVec hxs, by rw [List.length_pmap]; exact xs.length_lt⟩

section

variable (xs : Vec (Vec UInt8)) (hxs : ∀ x ∈ xs.toList, x.length < 2 ^ usizeBits)

/-- An element is written as the string behind its length. -/
theorem wire_ofVec (x : Vec UInt8) (hx : x.length < 2 ^ usizeBits) :
    (Element.ofVec x hx).wire = prefixed x := rfl

/-- There are as many elements as strings. -/
theorem length_elements : (elements xs hxs).length = xs.length := List.length_pmap ..

/-- The data of the elements are the strings. -/
theorem map_data_elements :
    (elements xs hxs).toList.map Element.data = xs.toList.map Vec.toList := by
  rw [elements, List.map_pmap]
  exact List.pmap_eq_map ..

/-- The elements are written as the strings behind their lengths. -/
theorem flatMap_wire_pmap (l : List (Vec UInt8)) (hl : ∀ x ∈ l, x.length < 2 ^ usizeBits) :
    (l.pmap Element.ofVec hl).flatMap Element.wire = l.flatMap prefixed := by
  induction l with
  | nil => rfl
  | cons x l ih =>
      rw [List.pmap_cons, List.flatMap_cons, List.flatMap_cons, ih, wire_ofVec]

/-- The offsets are the starts of the strings. -/
theorem offsets_pmap (pos : ℕ) (l : List (Vec UInt8))
    (hl : ∀ x ∈ l, x.length < 2 ^ usizeBits) :
    Element.offsets pos (l.pmap Element.ofVec hl) = (starts pos l).flatMap (leBytes 4) := by
  induction l generalizing pos with
  | nil => rfl
  | cons x l ih =>
      rw [List.pmap_cons, Element.offsets, starts, List.flatMap_cons, ih, wire_ofVec]

/-- The offsets fit when the starts do. -/
theorem offsetsFit_pmap (pos : ℕ) (l : List (Vec UInt8))
    (hl : ∀ x ∈ l, x.length < 2 ^ usizeBits) :
    Element.OffsetsFit pos (l.pmap Element.ofVec hl) ↔ ∀ start ∈ starts pos l, start < 2 ^ 32 := by
  induction l generalizing pos with
  | nil => simp [Element.OffsetsFit, starts]
  | cons x l ih =>
      rw [List.pmap_cons, Element.OffsetsFit, starts, ih, wire_ofVec]
      exact (List.forall_mem_cons (p := fun start => start < 2 ^ 32)).symm

/-- The packed form of byte strings is that of the elements. -/
theorem packed_iff {w : Witness} :
    Packed w xs ↔ w = ofElements (elements xs hxs) ∧
      Element.OffsetsFit 0 (elements xs hxs).toList := by
  have hcontent : (ofElements (elements xs hxs)).content
      = xs.toList.flatMap prefixed ++ (starts 0 xs.toList).flatMap (leBytes 4) := by
    rw [ofElements, elements, flatMap_wire_pmap, offsets_pmap]
  have hindices : (ofElements (elements xs hxs)).indicesStart
      = (xs.toList.flatMap prefixed).length := by
    rw [ofElements, elements, flatMap_wire_pmap]
  have hfits : Element.OffsetsFit 0 (elements xs hxs).toList ↔
      ∀ start ∈ starts 0 xs.toList, start < 2 ^ 32 := offsetsFit_pmap 0 xs.toList hxs
  constructor
  · rintro ⟨hc, hoff, hn, hi⟩
    refine ⟨?_, hfits.mpr hoff⟩
    rw [← hcontent] at hc
    rw [← hindices] at hi
    rw [← length_elements xs hxs] at hn
    cases w
    cases hc
    cases hi
    cases hn
    rfl
  · rintro ⟨rfl, hoff⟩
    exact ⟨hcontent, hfits.mp hoff, length_elements xs hxs, hindices⟩

end

/-- On 64 bits every vector is short enough. -/
theorem length_lt_two_pow_64 (xs : Vec (Vec UInt8)) : ∀ x ∈ xs.toList, x.length < 2 ^ 64 :=
  fun x _ => x.length_lt

/-- `from_slice` makes the packed form, and panics when there is none. -/
theorem fromSlice_eq_ok_iff {xs : Vec (Vec UInt8)} {w : Witness} :
    (fromSlice xs : Outcome ε Witness) = .ok w ↔ Packed w xs := by
  have hxs := length_lt_two_pow_64 xs
  rw [packed_iff xs hxs, fromSlice_eq xs hxs (elements xs hxs) rfl]
  split_ifs with hfits
  · rw [Outcome.ok.injEq, eq_comm]
    exact (and_iff_left hfits).symm
  · simp [hfits]

/-- The fresh witness is packed, from no strings. -/
theorem packed_new : Packed new Vec.empty :=
  (packed_iff Vec.empty (length_lt_two_pow_64 _)).mpr ⟨rfl, trivial⟩

/-- There is a packed form when the offsets fit in four bytes. -/
theorem exists_packed_iff (xs : Vec (Vec UInt8)) :
    (∃ w, Packed w xs) ↔ ∀ start ∈ starts 0 xs.toList, start < 2 ^ 32 := by
  constructor
  · rintro ⟨w, h⟩
    exact h.offsets_fit
  · exact fun h => ⟨⟨_, _, _⟩, rfl, h, rfl, rfl⟩

/-- Offsets into a short content fit in four bytes. -/
theorem exists_packed_of_lt (xs : Vec (Vec UInt8))
    (hxs : (xs.toList.flatMap prefixed).length < 2 ^ 32) : ∃ w, Packed w xs := by
  have hlt := length_lt_two_pow_64 xs
  refine ⟨_, (packed_iff xs hlt).mpr ⟨rfl, Element.offsetsFit_of_lt ?_⟩⟩
  rw [elements, flatMap_wire_pmap, Nat.zero_add]
  exact hxs

/-- No element is longer than the content. -/
theorem length_le_flatMap_prefixed {l : List (Vec UInt8)} {x : Vec UInt8} (hx : x ∈ l) :
    x.length ≤ (l.flatMap prefixed).length := by
  obtain ⟨l₁, l₂, rfl⟩ := List.append_of_mem hx
  rw [List.flatMap_append, List.flatMap_cons, prefixed]
  simp only [List.length_append, Vec.length_toList]
  omega

/-- Every element takes at least one byte. -/
theorem length_le_length_flatMap_prefixed (l : List (Vec UInt8)) :
    l.length ≤ (l.flatMap prefixed).length := by
  induction l with
  | nil => exact le_rfl
  | cons x l ih =>
      have hsize := (VarInt.ofLength x.length).size_pos
      rw [List.flatMap_cons, List.length_append, List.length_cons, prefixed, List.length_append,
        VarInt.length_wire]
      omega

namespace Packed

variable {w : Witness} {xs : Vec (Vec UInt8)}

/-- The strings with their lengths, and four bytes for each of them. -/
theorem length_content (h : Packed w xs) :
    w.content.length = (xs.toList.flatMap prefixed).length + xs.length * 4 := by
  obtain ⟨rfl, -⟩ := (packed_iff xs (length_lt_two_pow_64 xs)).mp h
  rw [length_content_ofElements, length_elements, elements, flatMap_wire_pmap]

/-- In the address space of the target the elements are those of the target. -/
theorem eq_ofElements (h : Packed w xs) (hroom : w.content.length + 4 < 2 ^ usizeBits) :
    ∃ es : Vec (Element usizeBits), w = ofElements es ∧ Element.OffsetsFit 0 es.toList ∧
      es.length = xs.length ∧ es.toList.map Element.data = xs.toList.map Vec.toList := by
  have hxs : ∀ x ∈ xs.toList, x.length < 2 ^ usizeBits := by
    intro x hx
    have hle := length_le_flatMap_prefixed hx
    have hlen := h.length_content
    omega
  obtain ⟨hw, hfits⟩ := (packed_iff xs hxs).mp h
  exact ⟨elements xs hxs, hw, hfits, length_elements xs hxs, map_data_elements xs hxs⟩

/-- The bytes of a packed witness are the number of elements and the elements. -/
theorem wire_eq (h : Packed w xs) :
    w.wire = (VarInt.ofLength xs.length).wire ++ xs.toList.flatMap prefixed := by
  obtain ⟨rfl, -⟩ := (packed_iff xs (length_lt_two_pow_64 xs)).mp h
  rw [wire_ofElements, vecWire, length_elements, elements, flatMap_wire_pmap]

/-- A packed witness can be written. -/
theorem wellSized (h : Packed w xs) : w.WellSized := by
  rw [WellSized, h.length_content, h.witnessElements]
  exact Nat.le_add_left _ _

/-- It is written as the number of strings and the strings. -/
theorem encodes (h : Packed w xs) : Encodes (w.encode : ByteStream ε ℕ)
    ((VarInt.ofLength xs.length).wire ++ xs.toList.flatMap prefixed) := by
  rw [← h.wire_eq]
  exact encodes_encode h.wellSized

/-- The elements are read back. -/
theorem toVec_eq (h : Packed w xs) (hroom : w.content.length + 4 < 2 ^ usizeBits) :
    w.toVec usizeBits = .ok (xs.toList.map Vec.toList) := by
  obtain ⟨es, rfl, hfits, -, hdata⟩ := h.eq_ofElements hroom
  rw [toVec_ofElements hroom hfits, hdata]

/-- After `calls` calls the iterator is that many elements further, at most behind the
last one, and it knows how many are left. -/
theorem advance_iter (h : Packed w xs) (hroom : w.content.length + 4 < 2 ^ usizeBits)
    (calls : ℕ) : ∃ it, w.iter.advance usizeBits calls = .ok it ∧
      it.sizeHint = .ok (xs.length - calls, some (xs.length - calls)) := by
  obtain ⟨es, rfl, hfits, hlen, -⟩ := h.eq_ofElements hroom
  refine ⟨_, Iter.advance_iterAt hroom hfits calls (Nat.zero_le _), ?_⟩
  rw [Iter.sizeHint_iterAt (Nat.min_le_right _ _), ← hlen]
  congr 2
  · omega
  · congr 1
    omega

/-- Once all elements have been yielded there is nothing left. -/
theorem next_of_advance (h : Packed w xs) (hroom : w.content.length + 4 < 2 ^ usizeBits) :
    ∃ it, w.iter.advance usizeBits xs.length = .ok it ∧
      it.next usizeBits = .ok (none, it) := by
  obtain ⟨es, rfl, hfits, hlen, -⟩ := h.eq_ofElements hroom
  refine ⟨_, Iter.advance_iterAt hroom hfits xs.length (Nat.zero_le _), ?_⟩
  rw [Nat.zero_add, hlen, Nat.min_self, ← hlen]
  exact Iter.next_iterAt_length hroom

/-- Nothing that reads it panics, when the arithmetic has room. -/
theorem neverPanics (h : Packed w xs) (hroom : w.content.length + 4 < 2 ^ usizeBits) :
    NeverPanics usizeBits w where
  encode buf := ⟨_, h.encodes buf⟩
  iter calls := by
    obtain ⟨it, hit, hhint⟩ := h.advance_iter hroom calls
    exact ⟨it, hit, _, hhint⟩
  toVec := ⟨_, h.toVec_eq hroom⟩

end Packed

/-- The bytes of a packed witness are prefix-free in the elements. -/
theorem ofElements_injective :
    Function.Injective (ofElements : Vec (Element usizeBits) → Witness) := by
  intro es es' h
  have hwire := congrArg wire h
  rw [wire_ofElements, wire_ofElements] at hwire
  exact (prefixFree_vecWire Element.prefixFree_wire es es' [] [] (by rw [hwire])).1

/-- A packed witness stands for one list. -/
theorem packed_injective {w : Witness} {xs ys : Vec (Vec UInt8)} (hx : Packed w xs)
    (hy : Packed w ys) : xs = ys := by
  have hxs := length_lt_two_pow_64 xs
  have hys := length_lt_two_pow_64 ys
  obtain ⟨rfl, -⟩ := (packed_iff xs hxs).mp hx
  obtain ⟨heq, -⟩ := (packed_iff ys hys).mp hy
  have hes : elements xs hxs = elements ys hys := ofElements_injective heq
  apply Vec.ext
  apply List.map_injective_iff.mpr Vec.toList_injective
  rw [← map_data_elements xs hxs, ← map_data_elements ys hys, hes]

/-- A witness that announces an element and holds no index area. -/
def hollow : Witness := ⟨[], 1, 0⟩

/-! ## Decoding on 64 bits -/

/-- The limits of `decode`: the number of elements, and their bytes with the lengths. -/
def WithinLimits (xs : Vec (Vec UInt8)) : Prop :=
  xs.length ≤ MAX_VEC_SIZE ∧ (xs.toList.flatMap prefixed).length ≤ MAX_VEC_SIZE

instance (xs : Vec (Vec UInt8)) : Decidable (WithinLimits xs) :=
  inferInstanceAs (Decidable (_ ∧ _))

/-- On 64 bits every number is a `usize`. -/
theorem asUsize_64 (n : UInt64) : asUsize 64 n = n.toNat := Nat.mod_eq_of_lt n.toNat_lt

/-- On 64 bits an element is a byte string behind its length. -/
theorem exists_pmap_ofVec_eq (l : List (Element 64)) :
    ∃ xs : List (Vec UInt8), ∀ hxs, xs.pmap Element.ofVec hxs = l := by
  induction l with
  | nil => exact ⟨[], fun _ => rfl⟩
  | cons e l ih =>
      obtain ⟨xs, hxs⟩ := ih
      have hsize : VarInt.ofLength e.data.length = e.size := by
        rw [e.length_data, asUsize_64, VarInt.ofLength, UInt64.ofNat_toNat]
      have hlt : e.data.length < 2 ^ 64 := by
        rw [e.length_data]
        exact asUsize_lt_two_pow_64 64 e.size.val
      refine ⟨⟨e.data, hlt⟩ :: xs, fun h => ?_⟩
      rw [List.pmap_cons, hxs]
      exact congrArg (· :: l) (Element.ext hsize rfl)

/-- On 64 bits every element comes from a string. -/
theorem exists_elements_eq (es : Vec (Element 64)) :
    ∃ xs, es = elements xs (length_lt_two_pow_64 xs) := by
  obtain ⟨xs, hxs⟩ := exists_pmap_ofVec_eq es.toList
  have hshort : ∀ x ∈ xs, x.length < 2 ^ 64 := fun x _ => x.length_lt
  have hlen : xs.length < 2 ^ 64 := by
    have hcount := congrArg List.length (hxs hshort)
    rw [List.length_pmap] at hcount
    rw [hcount]
    exact es.length_lt
  exact ⟨⟨xs, hlen⟩, Vec.ext (hxs hshort).symm⟩

/-- On 64 bits `decode` accepts the encodings of the lists within its limits. -/
theorem packs_64_iff {w : Witness} {bs : Bytes} :
    Packs 64 w bs ↔ ∃ xs, WithinLimits xs ∧ Packed w xs ∧
      bs = (VarInt.ofLength xs.length).wire ++ xs.toList.flatMap prefixed := by
  have hmax : MAX_VEC_SIZE = 4000000 := rfl
  constructor
  · rintro ⟨count, es, hcount, hle, hlimit, rfl, rfl⟩
    obtain ⟨xs, rfl⟩ := exists_elements_eq es
    have hcount' : count = VarInt.ofLength xs.length := by
      rw [length_elements] at hcount
      rw [← hcount, asUsize_64, VarInt.ofLength, UInt64.ofNat_toNat]
    have hflat : (elements xs (length_lt_two_pow_64 xs)).toList.flatMap Element.wire
        = xs.toList.flatMap prefixed := flatMap_wire_pmap ..
    rw [length_elements] at hle
    rw [hflat, elementsLimit] at hlimit
    have hsmall : (xs.toList.flatMap prefixed).length ≤ MAX_VEC_SIZE :=
      hlimit.trans (Nat.min_le_left _ _)
    refine ⟨xs, ⟨hle, hsmall⟩, ?_, by rw [hcount', hflat]⟩
    rw [packed_iff xs (length_lt_two_pow_64 xs)]
    refine ⟨rfl, Element.offsetsFit_of_lt ?_⟩
    rw [hflat]
    omega
  · rintro ⟨xs, ⟨hle, hsmall⟩, hpacked, rfl⟩
    obtain ⟨rfl, hfits⟩ := (packed_iff xs (length_lt_two_pow_64 xs)).mp hpacked
    have hflat : (elements xs (length_lt_two_pow_64 xs)).toList.flatMap Element.wire
        = xs.toList.flatMap prefixed := flatMap_wire_pmap ..
    refine ⟨VarInt.ofLength xs.length, elements xs (length_lt_two_pow_64 xs), ?_, ?_, ?_, rfl, ?_⟩
    · rw [asUsize_64, VarInt.ofLength, xs.toNat_ofNat_length, length_elements]
    · rwa [length_elements]
    · rw [hflat, length_elements, elementsLimit, le_min_iff]
      exact ⟨hsmall, by omega⟩
    · rw [hflat]

/-- `decode` accepts exactly the encodings of the witnesses of lists within its limits, it
gives the same witness as `from_slice`, and everything else is an error. -/
theorem decode_eq_ok_iff (b : Bytes) :
    (∀ w rest, (decode 64).run b = .ok (w, rest) ↔
      ∃ xs len bytes, WithinLimits xs ∧ (fromSlice xs : Outcome Empty Witness) = .ok w ∧
        (w.encode : ByteStream Empty ℕ).run [] = .ok (len, bytes) ∧ b = bytes ++ rest) ∧
    ((∀ xs w len bytes rest, WithinLimits xs →
        (fromSlice xs : Outcome Empty Witness) = .ok w →
        (w.encode : ByteStream Empty ℕ).run [] = .ok (len, bytes) → b ≠ bytes ++ rest) →
      ∃ e, (decode 64).run b = .err e) ∧
    ∀ msg, (decode 64).run b ≠ .panic msg := by
  have haccepts := accepts_decode 64
  have hiff : ∀ w rest, (decode 64).run b = .ok (w, rest) ↔
      ∃ xs len bytes, WithinLimits xs ∧ (fromSlice xs : Outcome Empty Witness) = .ok w ∧
        (w.encode : ByteStream Empty ℕ).run [] = .ok (len, bytes) ∧ b = bytes ++ rest := by
    intro w rest
    rw [haccepts.run_eq_ok_iff]
    constructor
    · rintro ⟨bs, hbs, rfl⟩
      obtain ⟨xs, hlimits, hpacked, rfl⟩ := packs_64_iff.mp hbs
      exact ⟨xs, _, _, hlimits, fromSlice_eq_ok_iff.mpr hpacked, hpacked.encodes [], rfl⟩
    · rintro ⟨xs, len, bytes, hlimits, hw, hencode, rfl⟩
      have hpacked := fromSlice_eq_ok_iff.mp hw
      obtain ⟨-, rfl⟩ := Prod.mk.inj (Outcome.ok.inj ((hpacked.encodes []).symm.trans hencode))
      exact ⟨_, packs_64_iff.mpr ⟨xs, hlimits, hpacked, rfl⟩, rfl⟩
  refine ⟨hiff, ?_, haccepts.run_ne_panic b⟩
  intro hno
  apply haccepts.exists_err
  intro w rest hrun
  obtain ⟨xs, len, bytes, hlimits, hw, hencode, hb⟩ := (hiff w rest).mp hrun
  exact hno xs w len bytes rest hlimits hw hencode hb

end Witness

end Bitcoin
