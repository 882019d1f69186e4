/-
# Reading a packed witness stack

The iterator over the elements of a `Witness`, and what is made of it: `to_vec` and
`size_hint`.  The iterator reads the offset of an element in the index area and the
length in front of the element, so on the packed form of a list of elements it
yields their bytes in order (`Iter.next_iterAt`, `Iter.next_iterAt_length`).

Arithmetic on `usize` panics where it overflows.  On a packed witness it never does,
so there is no difference to a build without these checks.
-/
import OmniTransaction.BitcoinWitness

open ByteOrder Rust PrefixCode

namespace Bitcoin

variable {ε : Type} {usizeBits : ℕ}

/-- `decode_cursor`: read an offset from the index area. -/
def decodeCursor (usizeBits : ℕ) (bytes : Bytes) (startOfIndices index : ℕ) :
    Outcome ε (Option ℕ) := do
  let start ← addUsize usizeBits startOfIndices (← mulUsize usizeBits index 4)
  let stop ← addUsize usizeBits start 4
  if bytes.length < stop then return none
  else do
    let offset ← slice bytes start stop
    return some (ofLeBytes offset)

/-- `Iter`. -/
structure Iter where
  inner : Bytes
  indicesStart : ℕ
  currentIndex : ℕ
  deriving DecidableEq, Repr

namespace Iter

/-- `next`. -/
def next (usizeBits : ℕ) (it : Iter) : Outcome Empty (Option Bytes × Iter) := do
  match ← decodeCursor usizeBits it.inner it.indicesStart it.currentIndex with
  | none => return (none, it)
  | some index => do
      let inner ← slice it.inner index it.inner.length
      match VarInt.decode.run inner with
      | .panic msg => .panic msg
      | .err _ => return (none, it)
      | .ok (varint, _) => do
          let start ← addUsize usizeBits index varint.size
          let stop ← addUsize usizeBits start (asUsize usizeBits varint.val)
          let slice ← slice it.inner start stop
          let currentIndex ← addUsize usizeBits it.currentIndex 1
          return (some slice, { it with currentIndex := currentIndex })

/-- `size_hint`. -/
def sizeHint (it : Iter) : Outcome Empty (ℕ × Option ℕ) := do
  let totalCount := (← subUsize it.inner.length it.indicesStart) / 4
  let remaining ← subUsize totalCount it.currentIndex
  return (remaining, some remaining)

/-- The state after a number of calls of `next`. -/
def advance (usizeBits : ℕ) : ℕ → Iter → Outcome Empty Iter
  | 0, it => .ok it
  | calls + 1, it => do
      let (_, it) ← it.next usizeBits
      advance usizeBits calls it

/-- A call that yields something has read an offset of the index area. -/
theorem next_eq_ok {it it' : Iter} {s : Bytes}
    (h : it.next usizeBits = .ok (some s, it')) :
    it.currentIndex < it.inner.length ∧ it' = { it with currentIndex := it.currentIndex + 1 } := by
  obtain ⟨o, hcursor, h⟩ := Outcome.bind_eq_ok_iff.mp h
  cases o with
  | none => cases h
  | some index =>
      obtain ⟨inner, -, h⟩ := Outcome.bind_eq_ok_iff.mp h
      have hindex : it.currentIndex < it.inner.length := by
        obtain ⟨scaled, hscaled, hcursor⟩ := Outcome.bind_eq_ok_iff.mp hcursor
        obtain ⟨start, hstart, hcursor⟩ := Outcome.bind_eq_ok_iff.mp hcursor
        obtain ⟨stop, hstop, hcursor⟩ := Outcome.bind_eq_ok_iff.mp hcursor
        unfold mulUsize at hscaled
        unfold addUsize at hstart hstop
        split_ifs at hscaled hstart hstop hcursor with _ _ _ hend
        · cases hcursor
        · obtain rfl := Outcome.ok.inj hscaled
          obtain rfl := Outcome.ok.inj hstart
          obtain rfl := Outcome.ok.inj hstop
          omega
      refine ⟨hindex, ?_⟩
      split at h
      · cases h
      · cases h
      · obtain ⟨start, -, h⟩ := Outcome.bind_eq_ok_iff.mp h
        obtain ⟨stop, -, h⟩ := Outcome.bind_eq_ok_iff.mp h
        obtain ⟨data, -, h⟩ := Outcome.bind_eq_ok_iff.mp h
        obtain ⟨currentIndex, hadd, h⟩ := Outcome.bind_eq_ok_iff.mp h
        unfold addUsize at hadd
        split_ifs at hadd
        obtain rfl := Outcome.ok.inj hadd
        exact (Prod.mk.inj (Outcome.ok.inj h)).2.symm

/-- `collect`.  The vector may ask how many elements are to come after each element. -/
def collect (usizeBits : ℕ) (it : Iter) : Outcome Empty (List Bytes) :=
  match _h : it.next usizeBits with
  | .ok (some s, it') => do
      let _ ← it'.sizeHint
      return s :: (← collect usizeBits it')
  | .ok (none, _) => .ok []
  | .err e => .err e
  | .panic msg => .panic msg
termination_by it.inner.length - it.currentIndex
decreasing_by
  -- an element was yielded, so there was an offset to read
  obtain ⟨hlt, rfl⟩ := next_eq_ok _h
  dsimp only
  omega

/-- What a `for` loop sees.  It does not ask how many elements are to come. -/
def items (usizeBits : ℕ) (it : Iter) : Outcome Empty (List Bytes) :=
  match _h : it.next usizeBits with
  | .ok (some s, it') => do return s :: (← items usizeBits it')
  | .ok (none, _) => .ok []
  | .err e => .err e
  | .panic msg => .panic msg
termination_by it.inner.length - it.currentIndex
decreasing_by
  obtain ⟨hlt, rfl⟩ := next_eq_ok _h
  dsimp only
  omega

theorem collect_of_next_eq_some {it it' : Iter} {s : Bytes}
    (h : it.next usizeBits = .ok (some s, it')) :
    it.collect usizeBits = do
      let _ ← it'.sizeHint
      return s :: (← it'.collect usizeBits) := by
  rw [collect]
  split
  · rename_i s₁ it₁ h₁
    obtain ⟨hs, rfl⟩ := Prod.mk.inj (Outcome.ok.inj (h.symm.trans h₁))
    rw [Option.some.inj hs]
  all_goals simp_all

theorem collect_of_next_eq_none {it it' : Iter} (h : it.next usizeBits = .ok (none, it')) :
    it.collect usizeBits = .ok [] := by
  rw [collect]
  split <;> simp_all

theorem items_of_next_eq_some {it it' : Iter} {s : Bytes}
    (h : it.next usizeBits = .ok (some s, it')) :
    it.items usizeBits = do return s :: (← it'.items usizeBits) := by
  rw [items]
  split
  · rename_i s₁ it₁ h₁
    obtain ⟨hs, rfl⟩ := Prod.mk.inj (Outcome.ok.inj (h.symm.trans h₁))
    rw [Option.some.inj hs]
  all_goals simp_all

theorem items_of_next_eq_none {it it' : Iter} (h : it.next usizeBits = .ok (none, it')) :
    it.items usizeBits = .ok [] := by
  rw [items]
  split <;> simp_all

/-- A `for` loop sees what is collected. -/
theorem items_of_collect {it : Iter} {l : List Bytes} (h : it.collect usizeBits = .ok l) :
    it.items usizeBits = .ok l := by
  induction it using collect.induct usizeBits generalizing l with
  | case1 it s it' hnext ih =>
      rw [collect_of_next_eq_some hnext] at h
      obtain ⟨_, -, h⟩ := Outcome.bind_eq_ok_iff.mp h
      obtain ⟨l', hl', h⟩ := Outcome.bind_eq_ok_iff.mp h
      obtain rfl := Outcome.ok.inj h
      rw [items_of_next_eq_some hnext, ih hl']
      rfl
  | case2 it it' hnext =>
      rw [collect_of_next_eq_none hnext] at h
      obtain rfl := Outcome.ok.inj h
      exact items_of_next_eq_none hnext
  | case3 it e hnext => cases e
  | case4 it msg hnext =>
      rw [collect] at h
      split at h <;> simp_all

end Iter

namespace Witness

/-- `len`. -/
def len (w : Witness) : ℕ := w.witnessElements

/-- `iter`. -/
def iter (w : Witness) : Iter := ⟨w.content, w.indicesStart, 0⟩

/-- `to_vec`, which is `to_bytes`. -/
def toVec (usizeBits : ℕ) (w : Witness) : Outcome Empty (List Bytes) :=
  w.iter.collect usizeBits

end Witness

/-! ## Iterating over a packed witness -/

namespace Element

theorem offsets_append (pos : ℕ) (es fs : List (Element usizeBits)) :
    offsets pos (es ++ fs) = offsets pos es ++ offsets (pos + (es.flatMap wire).length) fs := by
  induction es generalizing pos with
  | nil => simp [offsets]
  | cons e es ih =>
      rw [List.cons_append, offsets, offsets, ih, List.append_assoc, List.flatMap_cons,
        List.length_append, Nat.add_assoc]

theorem offsetsFit_append (pos : ℕ) (es fs : List (Element usizeBits)) :
    OffsetsFit pos (es ++ fs) ↔
      OffsetsFit pos es ∧ OffsetsFit (pos + (es.flatMap wire).length) fs := by
  induction es generalizing pos with
  | nil => simp [OffsetsFit]
  | cons e es ih =>
      rw [List.cons_append, OffsetsFit, OffsetsFit, ih, List.flatMap_cons, List.length_append,
        Nat.add_assoc, and_assoc]

/-- Offsets into a short content fit in four bytes. -/
theorem offsetsFit_of_lt {pos : ℕ} {es : List (Element usizeBits)}
    (h : pos + (es.flatMap wire).length < 2 ^ 32) : OffsetsFit pos es := by
  induction es generalizing pos with
  | nil => trivial
  | cons e es ih =>
      rw [List.flatMap_cons, List.length_append] at h
      exact ⟨by omega, ih (by omega)⟩

end Element

namespace Iter

/-- The iterator over a packed witness in front of the element `k`. -/
def iterAt (es : Vec (Element usizeBits)) (k : ℕ) : Iter :=
  ⟨(Witness.ofElements es).content, (Witness.ofElements es).indicesStart, k⟩

variable {es : Vec (Element usizeBits)} {pre post : List (Element usizeBits)}
  {e : Element usizeBits}

/-- The offset of an element is the length of what stands in front of it. -/
theorem decodeCursor_ofElements
    (hroom : (Witness.ofElements es).content.length + 4 < 2 ^ usizeBits)
    (hfits : Element.OffsetsFit 0 es.toList) (hes : es.toList = pre ++ e :: post) :
    (decodeCursor usizeBits (Witness.ofElements es).content (Witness.ofElements es).indicesStart
      pre.length : Outcome ε (Option ℕ)) = .ok (some (pre.flatMap Element.wire).length) := by
  let start := (es.toList.flatMap Element.wire).length
  have hlen : (Witness.ofElements es).content.length = start + es.length * 4 :=
    Witness.length_content_ofElements es
  have hcount : es.length = pre.length + (post.length + 1) := by
    rw [← Vec.length_toList, hes, List.length_append, List.length_cons]
  rw [hes, Element.offsetsFit_append] at hfits
  have hoffset : (pre.flatMap Element.wire).length < 2 ^ 32 := by
    have hpos := hfits.2.1
    omega
  have hslice : (slice (Witness.ofElements es).content (start + pre.length * 4)
      (start + pre.length * 4 + 4) : Outcome ε Bytes)
      = .ok (leBytes 4 (pre.flatMap Element.wire).length) := by
    apply slice_of_eq (p := es.toList.flatMap Element.wire ++ Element.offsets 0 pre)
      (r := Element.offsets ((pre.flatMap Element.wire).length + e.wire.length) post)
    · rw [Witness.ofElements, hes, Element.offsets_append, Element.offsets, Nat.zero_add]
      simp only [List.append_assoc]
    · rw [List.length_append, Element.length_offsets]
    · rw [length_leBytes]
  have hstart : (Witness.ofElements es).indicesStart = start := rfl
  rw [decodeCursor, mulUsize, if_pos (by omega), Outcome.ok_bind, hstart, addUsize,
    if_pos (by omega), Outcome.ok_bind, addUsize, if_pos (by omega), Outcome.ok_bind,
    if_neg (by omega), hslice, Outcome.ok_bind, ofLeBytes_leBytes_of_lt hoffset]
  rfl

/-- In front of an element the iterator yields its bytes. -/
theorem next_iterAt (hroom : (Witness.ofElements es).content.length + 4 < 2 ^ usizeBits)
    (hfits : Element.OffsetsFit 0 es.toList) (hes : es.toList = pre ++ e :: post) :
    (iterAt es pre.length).next usizeBits
      = .ok (some e.data, iterAt es (pre.length + 1)) := by
  let index := (pre.flatMap Element.wire).length
  let rest := post.flatMap Element.wire ++ Element.offsets 0 es.toList
  have hcontent : (Witness.ofElements es).content
      = pre.flatMap Element.wire ++ (e.size.wire ++ (e.data ++ rest)) := by
    simp only [rest, Witness.ofElements, hes, List.flatMap_append, List.flatMap_cons,
      Element.wire, List.append_assoc]
  have hlen : (Witness.ofElements es).content.length
      = index + (e.size.size + (asUsize usizeBits e.size.val + rest.length)) := by
    rw [hcontent]
    simp only [List.length_append, VarInt.length_wire, e.length_data]
    rfl
  have hcount : pre.length + 1 ≤ (Witness.ofElements es).content.length := by
    rw [Witness.length_content_ofElements, ← Vec.length_toList, hes, List.length_append,
      List.length_cons]
    omega
  -- the element stands at its offset, with the rest of the content behind it
  have htail : (slice (Witness.ofElements es).content index
      (Witness.ofElements es).content.length : Outcome Empty Bytes)
      = .ok (e.size.wire ++ (e.data ++ rest)) := by
    apply slice_of_eq (p := pre.flatMap Element.wire) (r := [])
    · rw [List.append_nil]
      exact hcontent
    · rfl
    · rw [hcontent, List.length_append]
  have hdata : (slice (Witness.ofElements es).content (index + e.size.size)
      (index + e.size.size + asUsize usizeBits e.size.val) : Outcome Empty Bytes)
      = .ok e.data := by
    apply slice_of_eq (p := pre.flatMap Element.wire ++ e.size.wire) (r := rest)
    · rw [hcontent, List.append_assoc]
    · rw [List.length_append, VarInt.length_wire]
    · rw [e.length_data]
  rw [next, iterAt]
  dsimp only
  rw [decodeCursor_ofElements hroom hfits hes, Outcome.ok_bind]
  dsimp only
  rw [htail, Outcome.ok_bind, VarInt.reads_decode]
  dsimp only
  rw [addUsize, if_pos (by omega), Outcome.ok_bind, addUsize, if_pos (by omega),
    Outcome.ok_bind, hdata, Outcome.ok_bind, addUsize, if_pos (by omega)]
  rfl

/-- Behind the last element the iterator yields nothing, however often it is asked. -/
theorem next_iterAt_length
    (hroom : (Witness.ofElements es).content.length + 4 < 2 ^ usizeBits) :
    (iterAt es es.length).next usizeBits = .ok (none, iterAt es es.length) := by
  let start := (es.toList.flatMap Element.wire).length
  have hlen : (Witness.ofElements es).content.length = start + es.length * 4 :=
    Witness.length_content_ofElements es
  have hstart : (Witness.ofElements es).indicesStart = start := rfl
  rw [next, iterAt]
  dsimp only
  rw [decodeCursor, mulUsize, if_pos (by omega), Outcome.ok_bind, hstart, addUsize,
    if_pos (by omega), Outcome.ok_bind, addUsize, if_pos (by omega), Outcome.ok_bind,
    if_pos (by omega)]
  rfl

/-- The number of elements that are left. -/
theorem sizeHint_iterAt {k : ℕ} (hk : k ≤ es.length) :
    (iterAt es k).sizeHint = .ok (es.length - k, some (es.length - k)) := by
  let start := (es.toList.flatMap Element.wire).length
  have hlen : (Witness.ofElements es).content.length = start + es.length * 4 :=
    Witness.length_content_ofElements es
  have htotal : (start + es.length * 4 - start) / 4 = es.length := by omega
  rw [sizeHint, iterAt]
  dsimp only
  rw [show (Witness.ofElements es).indicesStart = start from rfl, hlen, subUsize,
    if_pos (Nat.le_add_right _ _), Outcome.ok_bind, htotal, subUsize, if_pos hk]
  rfl

/-- After any number of calls the iterator stands in front of the next element, or
behind the last one. -/
theorem advance_iterAt (hroom : (Witness.ofElements es).content.length + 4 < 2 ^ usizeBits)
    (hfits : Element.OffsetsFit 0 es.toList) (calls : ℕ) {k : ℕ} (hk : k ≤ es.length) :
    (iterAt es k).advance usizeBits calls = .ok (iterAt es (min (k + calls) es.length)) := by
  induction calls generalizing k with
  | zero => rw [advance, Nat.add_zero, Nat.min_eq_left hk]
  | succ calls ih =>
      rw [advance]
      by_cases hend : k = es.length
      · rw [hend, next_iterAt_length hroom, Outcome.ok_bind]
        dsimp only
        rw [ih le_rfl]
        congr 2
        omega
      · have hlt : k < es.toList.length := by
          rw [Vec.length_toList]
          omega
        have hsplit : es.toList = es.toList.take k ++ es.toList[k] :: es.toList.drop (k + 1) := by
          rw [← List.drop_eq_getElem_cons hlt, List.take_append_drop]
        have hnext := next_iterAt hroom hfits hsplit
        rw [List.length_take_of_le hlt.le] at hnext
        rw [hnext, Outcome.ok_bind]
        dsimp only
        rw [ih (by omega)]
        congr 2
        omega

/-- Collecting in front of the element `k` gives the bytes of the elements from there
on. -/
theorem collect_iterAt (pre : List (Element usizeBits))
    (hroom : (Witness.ofElements es).content.length + 4 < 2 ^ usizeBits)
    (hfits : Element.OffsetsFit 0 es.toList) (hes : es.toList = pre ++ post) :
    (iterAt es pre.length).collect usizeBits = .ok (post.map Element.data) := by
  have hcount : es.length = pre.length + post.length := by
    rw [← Vec.length_toList, hes, List.length_append]
  induction post generalizing pre with
  | nil =>
      rw [List.length_nil, Nat.add_zero] at hcount
      rw [← hcount]
      exact collect_of_next_eq_none (next_iterAt_length hroom)
  | cons e post ih =>
      rw [List.length_cons] at hcount
      have hrest := ih (pre ++ [e]) (by rw [hes, List.append_cons])
        (by rw [List.length_append, List.length_singleton]; omega)
      rw [List.length_append, List.length_singleton] at hrest
      rw [collect_of_next_eq_some (next_iterAt hroom hfits hes), sizeHint_iterAt (by omega),
        Outcome.ok_bind, hrest]
      rfl

end Iter

namespace Witness

variable {es : Vec (Element usizeBits)}

/-- The elements of a packed witness are read back. -/
theorem toVec_ofElements (hroom : (ofElements es).content.length + 4 < 2 ^ usizeBits)
    (hfits : Element.OffsetsFit 0 es.toList) :
    (ofElements es).toVec usizeBits = .ok (es.toList.map Element.data) := by
  exact Iter.collect_iterAt [] hroom hfits rfl

end Witness

end Bitcoin
