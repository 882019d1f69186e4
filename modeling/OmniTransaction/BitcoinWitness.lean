/-
# The packed witness stack

`Witness` of `src/bitcoin/types/tx_in/witness.rs` keeps the elements of a witness
stack in one byte vector: the elements, each behind its length, and after them
an index area with the offset of each element.  A witness is made by
`Witness.new`, from byte strings (`Witness.fromSlice`) or from the wire
(`Witness.decode`); whichever way, it is the packed form of a list of elements
(`Built.eq_ofElements`).

The width of `usize` is a parameter: 32 bits in a contract, 64 bits in a client.
-/
import OmniTransaction.BitcoinDecodable

open ByteOrder Rust PrefixCode

namespace Bitcoin

variable {ε : Type}

/-- `Witness`. -/
structure Witness where
  content : Bytes
  witnessElements : ℕ
  indicesStart : ℕ
  deriving DecidableEq, Repr

/-- `encode_cursor`: write an offset into the index area.  The targets are
little-endian. -/
def encodeCursor (bytes : Bytes) (startOfIndices index value : ℕ) : Outcome ε Bytes := do
  let ne ← if value < 2 ^ 32 then .ok (leBytes 4 value) else .panic "larger than u32"
  copyFromSlice bytes (startOfIndices + index * 4) ne

/-- Encode a length into the slice at `cursor`. -/
def encodeAt (content : Bytes) (cursor : ℕ) (varint : VarInt) : Outcome ε Bytes := do
  let (_, bytes) ← varint.encode.run []
  copyFromSlice content cursor bytes

/-- The loop of `resize_if_needed`: double until the length is exceeded. -/
def doubleUntil (newLen requiredLen : ℕ) : ℕ :=
  if 0 < newLen ∧ newLen ≤ requiredLen then doubleUntil (newLen * 2) requiredLen else newLen
termination_by requiredLen + 1 - newLen

/-- `resize_if_needed`. -/
def resizeIfNeeded (vec : Bytes) (requiredLen : ℕ) : Bytes :=
  if vec.length ≤ requiredLen then
    vec ++ List.replicate (doubleUntil (max vec.length 1) requiredLen - vec.length) 0
  else vec

namespace Witness

/-- `new`. -/
def new : Witness := ⟨[], 0, 0⟩

/-- `is_empty`. -/
def isEmpty (w : Witness) : Bool := w.witnessElements == 0

/-- The loop of `from_slice`. -/
def fromSliceLoop (contentSize : ℕ) :
    List (Vec UInt8) → ℕ → ℕ → Bytes → Outcome ε Bytes
  | [], _, _, content => .ok content
  | elem :: slice, i, cursor, content => do
      -- the index area stands behind the elements
      let content ← encodeCursor content contentSize i cursor
      let elemLenVarint := VarInt.ofLength elem.length
      let content ← encodeAt content cursor elemLenVarint
      let cursor := cursor + elemLenVarint.size
      let content ← copyFromSlice content cursor elem.toList
      fromSliceLoop contentSize slice (i + 1) (cursor + elem.length) content

/-- `from_slice`. -/
def fromSlice (slice : Vec (Vec UInt8)) : Outcome ε Witness := do
  let witnessElements := slice.length
  let indexSize := witnessElements * 4
  let contentSize := (slice.toList.map fun elem =>
    elem.length + (VarInt.ofLength elem.length).size).sum
  let content := List.replicate (contentSize + indexSize) 0
  let content ← fromSliceLoop contentSize slice.toList 0 0 content
  return ⟨content, witnessElements, contentSize⟩

/-- `encode`. -/
def encode (w : Witness) : ByteStream ε ℕ := do
  let len := VarInt.ofLength w.witnessElements
  let _ ← len.encode
  let contentWithIndicesLen := w.content.length
  let indicesSize := w.witnessElements * 4
  if contentWithIndicesLen < indicesSize then
    ByteStream.panic "attempt to subtract with overflow"
  else do
    let contentLen := contentWithIndicesLen - indicesSize
    emitSlice (w.content.take contentLen)
    return contentLen + len.size

/-- The error of a witness that is too large. -/
def oversizedVectorAllocation : IoError := ⟨.Other, "OversizedVectorAllocation"⟩

/-- The loop of `decode`; the first argument counts the rounds to come. -/
def decodeLoop (usizeBits witnessIndexSpace : ℕ) :
    ℕ → ℕ → ℕ → Bytes → ByteStream IoError (Bytes × ℕ)
  | 0, _, cursor, content => return (content, cursor)
  | rounds + 1, i, cursor, content => do
      let elementSizeVarint ← VarInt.decode
      let elementSizeVarintLen := elementSizeVarint.size
      let elementSize := asUsize usizeBits elementSizeVarint.val
      let requiredLen := (checkedAdd usizeBits cursor elementSize).bind fun len =>
        checkedAdd usizeBits len elementSizeVarintLen
      match requiredLen with
      | none => ByteStream.fail oversizedVectorAllocation
      | some requiredLen =>
          if MAX_VEC_SIZE + witnessIndexSpace < requiredLen then
            ByteStream.fail oversizedVectorAllocation
          else do
            -- the index area stands in front until `decode` rotates it to the end
            let content ← StateT.lift (encodeCursor content 0 i (cursor - witnessIndexSpace))
            let content := resizeIfNeeded content requiredLen
            let content ← StateT.lift (encodeAt content cursor elementSizeVarint)
            let cursor := cursor + elementSizeVarintLen
            let data ← readExact elementSize
            let content ← StateT.lift (copyFromSlice content cursor data)
            decodeLoop usizeBits witnessIndexSpace rounds (i + 1) (cursor + elementSize) content

/-- `decode`. -/
def decode (usizeBits : ℕ) : ByteStream IoError Witness := do
  let count ← VarInt.decode
  let witnessElements := asUsize usizeBits count.val
  if MAX_VEC_SIZE < witnessElements then ByteStream.fail oversizedVectorAllocation
  else if witnessElements = 0 then return new
  else do
    let witnessIndexSpace := witnessElements * 4
    let (content, cursor) ← decodeLoop usizeBits witnessIndexSpace witnessElements 0
      witnessIndexSpace (List.replicate (witnessIndexSpace + 128) 0)
    let content := content.take cursor
    let content ← StateT.lift (rotateLeft content witnessIndexSpace)
    return ⟨content, witnessElements, cursor - witnessIndexSpace⟩

end Witness

/-! ## The packed form -/

/-- A witness element on the wire: a length and the bytes it announces. -/
@[ext]
structure Element (usizeBits : ℕ) where
  size : VarInt
  data : Bytes
  length_data : data.length = asUsize usizeBits size.val

namespace Element

variable {usizeBits : ℕ}

/-- The bytes of an element. -/
def wire (e : Element usizeBits) : Bytes := e.size.wire ++ e.data

/-- The length in front and the data. -/
theorem length_wire (e : Element usizeBits) :
    e.wire.length = e.size.size + asUsize usizeBits e.size.val := by
  rw [wire, List.length_append, VarInt.length_wire, e.length_data]

/-- A byte string as an element. -/
def ofVec (elem : Vec UInt8) (h : elem.length < 2 ^ usizeBits) : Element usizeBits where
  size := VarInt.ofLength elem.length
  data := elem.toList
  length_data := by
    rw [asUsize, VarInt.ofLength, elem.toNat_ofNat_length, Nat.mod_eq_of_lt h]
    rfl

/-- An element tells its own length. -/
theorem prefixFree_wire : PrefixFree (wire : Element usizeBits → Bytes) := by
  intro a b s t h
  simp only [wire, List.append_assoc] at h
  obtain ⟨hsize, h⟩ := VarInt.prefixFree_wire _ _ _ _ h
  obtain ⟨hdata, hst⟩ := List.append_inj h (by rw [a.length_data, b.length_data, hsize])
  exact ⟨Element.ext hsize hdata, hst⟩

/-- The elements, the first of them behind `pos` bytes, have offsets that fit in four
bytes. -/
def OffsetsFit : ℕ → List (Element usizeBits) → Prop
  | _, [] => True
  | pos, e :: es => pos < 2 ^ 32 ∧ OffsetsFit (pos + e.wire.length) es

instance decidableOffsetsFit : (pos : ℕ) → (es : List (Element usizeBits)) →
    Decidable (OffsetsFit pos es)
  | _, [] => inferInstanceAs (Decidable True)
  | pos, e :: es =>
      have := decidableOffsetsFit (pos + e.wire.length) es
      inferInstanceAs (Decidable (_ ∧ _))

/-- The index area of elements that start at `pos`. -/
def offsets : ℕ → List (Element usizeBits) → Bytes
  | _, [] => []
  | pos, e :: es => leBytes 4 pos ++ offsets (pos + e.wire.length) es

theorem length_offsets (pos : ℕ) (es : List (Element usizeBits)) :
    (offsets pos es).length = es.length * 4 := by
  induction es generalizing pos with
  | nil => rfl
  | cons e es ih =>
      rw [offsets, List.length_append, length_leBytes, ih, List.length_cons]
      ring

end Element

namespace Witness

variable {usizeBits : ℕ}

/-- The packed form of a list of elements. -/
def ofElements (es : Vec (Element usizeBits)) : Witness where
  content := es.toList.flatMap Element.wire ++ Element.offsets 0 es.toList
  witnessElements := es.length
  indicesStart := (es.toList.flatMap Element.wire).length

theorem new_eq_ofElements : new = ofElements (Vec.empty : Vec (Element usizeBits)) := rfl

/-- The content has room for the index area. -/
def WellSized (w : Witness) : Prop := w.witnessElements * 4 ≤ w.content.length

instance (w : Witness) : Decidable w.WellSized := inferInstanceAs (Decidable (_ ≤ _))

/-- The bytes of a witness: the number of elements and the content without the
index area. -/
def wire (w : Witness) : Bytes :=
  (VarInt.ofLength w.witnessElements).wire
    ++ w.content.take (w.content.length - w.witnessElements * 4)

/-- The count and the elements are written, without the index area. -/
theorem encodes_encode {w : Witness} (hw : w.WellSized) :
    Encodes (w.encode : ByteStream ε ℕ) w.wire := by
  rw [Encodes, wire, List.length_append, List.length_take, Nat.min_eq_left (Nat.sub_le _ _),
    Nat.add_comm, VarInt.length_wire]
  unfold encode
  apply (VarInt.encodes_encode _).bind
  dsimp only
  rw [if_neg (Nat.not_lt.mpr hw)]
  exact (writes_writeAll _).map fun _ => _

/-- Whatever the fields are, only bytes are added. -/
theorem appends_encode (w : Witness) : Appends (w.encode : ByteStream ε ℕ) := by
  unfold encode
  apply (VarInt.encodes_encode _).appends.bind
  intro _
  dsimp only
  split_ifs
  · exact appends_panic _
  · exact ((writes_writeAll _).map fun _ => _).appends

/-- The elements and the index area. -/
theorem length_content_ofElements (es : Vec (Element usizeBits)) :
    (ofElements es).content.length
      = (es.toList.flatMap Element.wire).length + es.length * 4 := by
  rw [ofElements, List.length_append, Element.length_offsets]
  rfl

/-- A packed form can be written. -/
theorem wellSized_ofElements (es : Vec (Element usizeBits)) : (ofElements es).WellSized := by
  rw [WellSized, length_content_ofElements]
  exact Nat.le_add_left _ _

/-- The bytes of a packed witness are those of the vector of its elements. -/
theorem wire_ofElements (es : Vec (Element usizeBits)) :
    (ofElements es).wire = vecWire Element.wire es := by
  rw [wire, length_content_ofElements]
  show _ ++ List.take (_ + es.length * 4 - es.length * 4) (_ ++ _) = _
  rw [Nat.add_sub_cancel, List.take_left]
  rfl

/-! ## Every constructor packs -/

/-- A cursor is written in its place. -/
theorem encodeCursor_of_lt {value : ℕ} (hvalue : value < 2 ^ 32) (bytes : Bytes)
    (start index : ℕ) : (encodeCursor bytes start index value : Outcome ε Bytes)
      = copyFromSlice bytes (start + index * 4) (leBytes 4 value) := by
  rw [encodeCursor, if_pos hvalue]
  rfl

/-- A length is written in its place. -/
theorem encodeAt_eq (content : Bytes) (cursor : ℕ) (varint : VarInt) :
    (encodeAt content cursor varint : Outcome ε Bytes)
      = copyFromSlice content cursor varint.wire := by
  rw [encodeAt, VarInt.encodes_encode varint []]
  rfl

/-- The writes of a round: the offset of the element, its size and its bytes replace zeros
of the index area and behind the cursor. -/
theorem fromSliceRound_eq_ok (elem : Vec UInt8) (helem : elem.length < 2 ^ usizeBits)
    (rounds : ℕ) {a idx : Bytes} {i size left : ℕ} (ha : a.length < 2 ^ 32)
    (hidx : idx.length = i * 4)
    (hsize : size = (Element.ofVec elem helem).wire.length + left) :
    ∃ marked sized,
      (encodeCursor (a ++ (List.replicate size 0 ++ (idx ++ List.replicate ((rounds + 1) * 4) 0)))
        (a.length + size) i a.length : Outcome ε Bytes) = .ok marked ∧
      (encodeAt marked a.length (VarInt.ofLength elem.length) : Outcome ε Bytes) = .ok sized ∧
      (copyFromSlice sized (a.length + (VarInt.ofLength elem.length).size) elem.toList
          : Outcome ε Bytes) =
        .ok ((a ++ (Element.ofVec elem helem).wire) ++ (List.replicate left 0 ++
          ((idx ++ leBytes 4 a.length) ++ List.replicate (rounds * 4) 0))) := by
  let tail := (idx ++ leBytes 4 a.length) ++ List.replicate (rounds * 4) 0
  have hwire : (Element.ofVec elem helem).wire
      = (VarInt.ofLength elem.length).wire ++ elem.toList := rfl
  rw [hwire, List.length_append] at hsize
  refine ⟨a ++ (List.replicate size 0 ++ tail), a ++ ((VarInt.ofLength elem.length).wire ++
    (List.replicate (elem.length + left) 0 ++ tail)), ?_, ?_, ?_⟩
  · rw [encodeCursor_of_lt ha, copyFromSlice_of_eq (p := a ++ (List.replicate size 0 ++ idx))
      (q := List.replicate 4 0) (r := List.replicate (rounds * 4) 0)]
    · simp only [tail, List.append_assoc]
    · simp [Nat.add_mul, Nat.add_comm, List.replicate_add]
    · simp [hidx, Nat.add_assoc]
    · simp
  · rw [encodeAt_eq]
    apply copyFromSlice_of_eq (q := List.replicate (VarInt.ofLength elem.length).wire.length 0)
    · rw [hsize, Nat.add_assoc, List.replicate_add, List.append_assoc]
      rfl
    · rfl
    · rw [List.length_replicate]
  · have hcopy : (copyFromSlice ((a ++ (VarInt.ofLength elem.length).wire) ++
        (List.replicate elem.length 0 ++ (List.replicate left 0 ++ tail)))
        (a.length + (VarInt.ofLength elem.length).size) elem.toList : Outcome ε Bytes)
        = .ok ((a ++ (VarInt.ofLength elem.length).wire) ++
          (elem.toList ++ (List.replicate left 0 ++ tail))) := by
      apply copyFromSlice_of_eq (q := List.replicate elem.length 0) rfl
      · rw [List.length_append, VarInt.length_wire]
      · rw [List.length_replicate]
        rfl
    simp only [tail, hwire, List.replicate_add, List.append_assoc] at hcopy ⊢
    exact hcopy

/-- The rounds of `from_slice`: the elements fill the zeros behind the cursor and
their offsets the zeros at the end, as long as the offsets are `u32`s. -/
theorem fromSliceLoop_eq (slice : List (Vec UInt8))
    (hslice : ∀ elem ∈ slice, elem.length < 2 ^ usizeBits) (a idx : Bytes) (i size : ℕ)
    (hsize : size = ((slice.pmap Element.ofVec hslice).flatMap Element.wire).length)
    (hidx : idx.length = i * 4) :
    (fromSliceLoop (a.length + size) slice i a.length
      (a ++ (List.replicate size 0 ++ (idx ++ List.replicate (slice.length * 4) 0)))
        : Outcome ε Bytes) =
      if Element.OffsetsFit a.length (slice.pmap Element.ofVec hslice) then
        .ok (a ++ ((slice.pmap Element.ofVec hslice).flatMap Element.wire ++
          (idx ++ Element.offsets a.length (slice.pmap Element.ofVec hslice))))
      else .panic "larger than u32" := by
  induction slice generalizing a idx i size with
  | nil =>
      obtain rfl : size = 0 := hsize
      simp [fromSliceLoop, Element.OffsetsFit, Element.offsets]
  | cons elem slice ih =>
      obtain ⟨helem, hrest⟩ := List.forall_mem_cons.mp hslice
      let e : Element usizeBits := Element.ofVec elem helem
      let es : List (Element usizeBits) := slice.pmap Element.ofVec hrest
      have hsize : size = e.wire.length + (es.flatMap Element.wire).length := by
        rw [hsize, List.pmap_cons, List.flatMap_cons, List.length_append]
      rw [List.pmap_cons]
      show _ = if a.length < 2 ^ 32 ∧ Element.OffsetsFit (a.length + e.wire.length) es then
        Outcome.ok (a ++ ((e :: es).flatMap Element.wire ++
          (idx ++ (leBytes 4 a.length ++ Element.offsets (a.length + e.wire.length) es))))
        else .panic "larger than u32"
      rw [fromSliceLoop]
      by_cases hpos : a.length < 2 ^ 32
      · obtain ⟨marked, sized, hmarked, hsized, hcopied⟩ :=
          fromSliceRound_eq_ok (ε := ε) elem helem slice.length hpos hidx hsize
        have hrec := ih hrest (a ++ e.wire) (idx ++ leBytes 4 a.length) (i + 1)
          (es.flatMap Element.wire).length rfl
          (by rw [List.length_append, hidx, length_leBytes, Nat.add_mul])
        have hcursor : (a ++ e.wire).length
            = a.length + (VarInt.ofLength elem.length).size + elem.length := by
          rw [List.length_append, Nat.add_assoc]
          congr 1
          rw [Element.wire, List.length_append, VarInt.length_wire]
          rfl
        have hcontent : a.length + size
            = (a ++ e.wire).length + (es.flatMap Element.wire).length := by
          rw [hsize, List.length_append, Nat.add_assoc]
        rw [List.length_cons, hmarked, Outcome.ok_bind]
        dsimp only
        rw [hsized, Outcome.ok_bind, hcopied, Outcome.ok_bind, hcontent, ← hcursor, hrec,
          List.length_append]
        by_cases hfits : Element.OffsetsFit (a.length + e.wire.length) es
        · rw [if_pos hfits, if_pos ⟨hpos, hfits⟩]
          simp only [List.flatMap_cons, List.append_assoc]
          rfl
        · rw [if_neg hfits, if_neg fun h => hfits h.2]
      · rw [encodeCursor, if_neg hpos, if_neg fun h => hpos h.1]
        rfl

/-- A list of byte strings is packed element by element, as long as the offsets are
`u32`s. -/
theorem fromSlice_eq (slice : Vec (Vec UInt8))
    (hslice : ∀ elem ∈ slice.toList, elem.length < 2 ^ usizeBits)
    (es : Vec (Element usizeBits)) (hes : es.toList = slice.toList.pmap Element.ofVec hslice) :
    (fromSlice slice : Outcome ε Witness) =
      if Element.OffsetsFit 0 es.toList then .ok (ofElements es)
      else .panic "larger than u32" := by
  have hcount : es.length = slice.length := by
    rw [← Vec.length_toList, hes, List.length_pmap]
    rfl
  have hsize : (slice.toList.map fun elem =>
      elem.length + (VarInt.ofLength elem.length).size).sum
      = (es.toList.flatMap Element.wire).length := by
    rw [hes, List.length_flatMap, List.map_pmap, ← List.pmap_eq_map (H := hslice)]
    congr 1
    apply List.pmap_congr_left
    intro elem _ helem _
    show _ = (Element.ofVec elem helem).wire.length
    rw [Element.wire, List.length_append, VarInt.length_wire, Nat.add_comm]
    rfl
  have hloop := fromSliceLoop_eq (ε := ε) slice.toList hslice [] [] 0 _ rfl rfl
  rw [← hes, List.length_nil, Nat.zero_add, List.nil_append, List.nil_append,
    ← List.replicate_add] at hloop
  rw [fromSlice, hsize]
  rw [← slice.length_toList, hloop]
  by_cases hfits : Element.OffsetsFit 0 es.toList
  · rw [if_pos hfits, if_pos hfits, Outcome.ok_bind, ofElements, hcount]
    rfl
  · rw [if_neg hfits, if_neg hfits]
    rfl

/-- `from_slice` packs the byte strings. -/
theorem fromSlice_eq_ok {slice : Vec (Vec UInt8)} {w : Witness}
    (hslice : ∀ elem ∈ slice.toList, elem.length < 2 ^ usizeBits)
    (h : (fromSlice slice : Outcome ε Witness) = .ok w) :
    ∃ es : Vec (Element usizeBits), es.toList.map Element.data = slice.toList.map Vec.toList ∧
      w = ofElements es := by
  let es : Vec (Element usizeBits) :=
    ⟨slice.toList.pmap Element.ofVec hslice, by rw [List.length_pmap]; exact slice.length_lt⟩
  rw [fromSlice_eq slice hslice es rfl] at h
  split_ifs at h
  refine ⟨es, ?_, (Outcome.ok.inj h).symm⟩
  show (slice.toList.pmap Element.ofVec hslice).map Element.data = _
  rw [List.map_pmap]
  exact List.pmap_eq_map ..

/-! ### The loop of `decode` -/

end Witness

namespace Element

/-- An element in front of the input, behind `pos` bytes of elements; all of them have
no more than `limit` bytes. -/
def read (limit pos : ℕ) : ByteStream IoError (Element usizeBits) := do
  let size ← VarInt.decode
  if limit < pos + (size.size + asUsize usizeBits size.val) then
    ByteStream.fail Witness.oversizedVectorAllocation
  else do
    let data ← readArray (asUsize usizeBits size.val)
    return ⟨size, data.toList, data.toList_length⟩

/-- Elements one after the other. -/
def readEach (limit : ℕ) : ℕ → ℕ → ByteStream IoError (List (Element usizeBits))
  | 0, _ => return []
  | rounds + 1, pos => do
      let e ← read limit pos
      let es ← readEach limit rounds (pos + e.wire.length)
      return e :: es

/-- An element is taken within the limit that is left. -/
theorem accepts_read (limit pos : ℕ) :
    Accepts (read limit pos : ByteStream IoError (Element usizeBits))
      fun e bs => bs = e.wire ∧ pos + bs.length ≤ limit := by
  have hdata : ∀ size : VarInt, Accepts
      (if limit < pos + (size.size + asUsize usizeBits size.val) then
        ByteStream.fail Witness.oversizedVectorAllocation
      else do
        let data ← readArray (asUsize usizeBits size.val)
        return (⟨size, data.toList, data.toList_length⟩ : Element usizeBits))
      fun e bs => e.size = size ∧ bs = e.data ∧ pos + e.wire.length ≤ limit := by
    intro size
    split_ifs with hlimit
    · refine (accepts_fail _).congr fun e bs => ?_
      constructor
      · exact False.elim
      · rintro ⟨rfl, -, hfits⟩
        rw [length_wire] at hfits
        omega
    · refine ((accepts_readArray _).map _).congr fun e bs => ?_
      constructor
      · rintro ⟨data, rfl, rfl⟩
        refine ⟨rfl, rfl, ?_⟩
        rw [length_wire]
        dsimp only
        omega
      · rintro ⟨rfl, rfl, -⟩
        exact ⟨⟨e.data, e.length_data⟩, rfl, rfl⟩
  refine (VarInt.accepts_decode.bind hdata).congr fun e bs => ?_
  constructor
  · rintro ⟨size, _, _, rfl, ⟨rfl, rfl, hfits⟩, rfl⟩
    exact ⟨rfl, hfits⟩
  · rintro ⟨rfl, hfits⟩
    exact ⟨e.size, _, _, rfl, ⟨rfl, rfl, hfits⟩, rfl⟩

/-- So are as many elements as were announced. -/
theorem accepts_readEach {limit pos : ℕ} (hpos : pos ≤ limit) (rounds : ℕ) :
    Accepts (readEach limit rounds pos : ByteStream IoError (List (Element usizeBits)))
      fun es bs => es.length = rounds ∧ bs = es.flatMap wire ∧ pos + bs.length ≤ limit := by
  induction rounds generalizing pos with
  | zero =>
      refine (accepts_pure []).congr fun es bs => ?_
      constructor
      · rintro ⟨rfl, rfl⟩
        exact ⟨rfl, rfl, hpos⟩
      · rintro ⟨hlen, rfl, -⟩
        obtain rfl := List.length_eq_zero_iff.mp hlen
        exact ⟨rfl, rfl⟩
  | succ rounds ih =>
      refine ((accepts_read limit pos).bind_of fun e cs he =>
        (@ih (pos + e.wire.length) (he.1 ▸ he.2)).map (List.cons e)).congr fun es bs => ?_
      constructor
      · rintro ⟨e, _, _, ⟨rfl, -⟩, ⟨es, ⟨rfl, rfl, hfits⟩, rfl⟩, rfl⟩
        refine ⟨rfl, rfl, ?_⟩
        rw [List.length_append, ← Nat.add_assoc]
        exact hfits
      · rintro ⟨hlen, rfl, hfits⟩
        obtain ⟨e, es, rfl⟩ := List.exists_cons_of_length_eq_add_one hlen
        rw [List.flatMap_cons, List.length_append, ← Nat.add_assoc] at hfits
        exact ⟨e, _, _, ⟨rfl, by omega⟩, ⟨es, ⟨Nat.succ.inj hlen, rfl, hfits⟩, rfl⟩, rfl⟩

end Element

namespace Witness

/-- Doubling goes beyond what is required. -/
theorem lt_doubleUntil {newLen requiredLen : ℕ} (hpos : 0 < newLen) :
    requiredLen < doubleUntil newLen requiredLen := by
  fun_induction doubleUntil newLen requiredLen with
  | case1 newLen h ih => exact ih (by omega)
  | case2 newLen h => omega

/-- The buffer only grows, to more than the length that is required. -/
theorem resizeIfNeeded_eq_append (vec : Bytes) (requiredLen : ℕ) :
    ∃ z, resizeIfNeeded vec requiredLen = vec ++ z ∧ requiredLen < (vec ++ z).length := by
  unfold resizeIfNeeded
  by_cases h : vec.length ≤ requiredLen
  · rw [if_pos h]
    refine ⟨_, rfl, ?_⟩
    have hlt : requiredLen < doubleUntil (max vec.length 1) requiredLen :=
      lt_doubleUntil (by omega)
    rw [List.length_append, List.length_replicate]
    omega
  · rw [if_neg h]
    exact ⟨[], (List.append_nil vec).symm, by rw [List.append_nil]; omega⟩

/-- The bound on the serialized elements, given the space of their index area: the
limit on the size of a vector, and what a `usize` can hold. -/
def elementsLimit (usizeBits witnessIndexSpace : ℕ) : ℕ :=
  min MAX_VEC_SIZE (2 ^ usizeBits - 1 - witnessIndexSpace)

/-- An element does not fit where a round stops: at the end of what a `usize` can hold or
behind the limit on the size of a vector. -/
theorem elementsLimit_lt_iff {cursor space pos size : ℕ} (hcursor : cursor = space + pos)
    (hsize : 0 < size) (n : ℕ) :
    elementsLimit usizeBits space < pos + (size + n) ↔
      ¬ cursor + n + size < 2 ^ usizeBits ∨ MAX_VEC_SIZE + space < cursor + n + size := by
  rw [elementsLimit]
  omega

/-- The length a round requires, without the checks. -/
theorem requiredLen_eq (cursor elementSize varintLen : ℕ) :
    ((checkedAdd usizeBits cursor elementSize).bind fun len =>
      checkedAdd usizeBits len varintLen) =
    checkedAdd usizeBits (cursor + elementSize) varintLen := by
  by_cases h : cursor + elementSize < 2 ^ usizeBits
  · rw [checkedAdd, if_pos h]
    rfl
  · rw [checkedAdd, if_neg h, checkedAdd, if_neg (by omega)]
    rfl

/-- An array of the right length is what was read. -/
theorem readExact_bind {β : Type} (n : ℕ) (f : Bytes → ByteStream IoError β) :
    readExact n >>= f = readArray n >>= fun a => f a.toList := by
  funext b
  show ((if n ≤ b.length then _ else _) >>= _ : Outcome IoError (β × Bytes))
    = ((if h : n ≤ b.length then _ else _) >>= _)
  by_cases h : n ≤ b.length
  · rw [if_pos h, dif_pos h]
    rfl
  · rw [if_neg h, dif_neg h]
    rfl

/-- The writes of a round: the offset goes to the index area and the length of the
element behind the elements read so far, where room for its bytes is left.  The zeros
behind the elements play no part, so the buffer may end anywhere. -/
theorem decodeRound_eq_ok {rounds i cursor space : ℕ} {content : Bytes} (idx a junk : Bytes)
    (hcontent : content = idx ++ (List.replicate ((rounds + 1) * 4) 0 ++ (a ++ junk)))
    (hidx : idx.length = i * 4) (hspace : space = (i + (rounds + 1)) * 4)
    (hcursor : cursor = space + a.length) (ha : a.length < 2 ^ 32) (varint : VarInt) (n : ℕ) :
    ∃ marked room, n ≤ room.length ∧
      (encodeCursor content 0 i (cursor - space) : Outcome ε Bytes) = .ok marked ∧
      (encodeAt (resizeIfNeeded marked (cursor + n + varint.size)) cursor varint
          : Outcome ε Bytes) =
        .ok ((idx ++ leBytes 4 a.length) ++ (List.replicate (rounds * 4) 0 ++
          (a ++ (varint.wire ++ room)))) := by
  let front := idx ++ (leBytes 4 a.length ++ (List.replicate (rounds * 4) 0 ++ a))
  have hfront : cursor = front.length := by
    simp only [front, List.length_append, length_leBytes, List.length_replicate]
    omega
  have hmarked : (encodeCursor content 0 i (cursor - space) : Outcome ε Bytes)
      = .ok (front ++ junk) := by
    rw [show cursor - space = a.length by omega, encodeCursor_of_lt ha,
      copyFromSlice_of_eq (p := idx) (q := List.replicate 4 0)
        (r := List.replicate (rounds * 4) 0 ++ (a ++ junk))
        (by rw [hcontent, Nat.add_mul, Nat.add_comm, List.replicate_add]
            simp only [List.append_assoc])
        (by omega) (by simp)]
    simp only [front, List.append_assoc]
  obtain ⟨z, hz, hroom⟩ := resizeIfNeeded_eq_append (front ++ junk) (cursor + n + varint.size)
  rw [List.append_assoc, List.length_append, ← hfront] at hroom
  refine ⟨front ++ junk, (junk ++ z).drop varint.size, ?_, hmarked, ?_⟩
  · rw [List.length_drop]
    omega
  · rw [hz, encodeAt_eq, List.append_assoc, copyFromSlice_append hfront
      (by rw [VarInt.length_wire]; omega), VarInt.length_wire]
    simp only [front, List.append_assoc]

/-- The bytes of an element go behind its size. -/
theorem copyFromSlice_behind {p q a size room data : Bytes} {start : ℕ}
    (hstart : start = (p ++ (q ++ (a ++ size))).length) (hlen : data.length ≤ room.length) :
    (copyFromSlice (p ++ (q ++ (a ++ (size ++ room)))) start data : Outcome ε Bytes)
      = .ok (p ++ (q ++ ((a ++ (size ++ data)) ++ room.drop data.length))) := by
  have happend : (copyFromSlice ((p ++ (q ++ (a ++ size))) ++ room) start data
      : Outcome ε Bytes) = _ := copyFromSlice_append hstart hlen
  simp only [List.append_assoc] at happend ⊢
  exact happend

/-- The rounds of `decode` read elements: behind the index area the buffer holds the
elements read so far up to the cursor, whatever stands behind it. -/
theorem decodeLoop_eq (rounds : ℕ) {i cursor space : ℕ} {content : Bytes} (idx a junk : Bytes)
    (hcontent : content = idx ++ (List.replicate (rounds * 4) 0 ++ (a ++ junk)))
    (hidx : idx.length = i * 4) (hspace : space = (i + rounds) * 4)
    (hcursor : cursor = space + a.length) :
    (do
      let r ← decodeLoop usizeBits space rounds i cursor content
      return (r.1.take r.2, r.2)) =
    (do
      let es : List (Element usizeBits) ←
        Element.readEach (elementsLimit usizeBits space) rounds a.length
      return (idx ++ (Element.offsets a.length es ++ (a ++ es.flatMap Element.wire)),
        cursor + (es.flatMap Element.wire).length)) := by
  induction rounds generalizing i cursor content idx a junk with
  | zero =>
      have htake : content.take cursor = idx ++ a := by
        rw [hcontent, Nat.zero_mul, List.replicate_zero, List.nil_append, ← List.append_assoc]
        apply List.take_left'
        rw [List.length_append]
        omega
      rw [decodeLoop, Element.readEach, pure_bind, pure_bind, htake]
      simp [Element.offsets]
  | succ rounds ih =>
      rw [decodeLoop, Element.readEach, Element.read]
      simp only [bind_assoc]
      congr 1
      funext varint
      have hlimit := @elementsLimit_lt_iff usizeBits _ _ _ _ hcursor varint.size_pos
        (asUsize usizeBits varint.val)
      simp only [requiredLen_eq]
      rw [checkedAdd]
      by_cases hover : cursor + asUsize usizeBits varint.val + varint.size < 2 ^ usizeBits
      · rw [if_pos hover]
        dsimp only
        by_cases hlong : MAX_VEC_SIZE + space
            < cursor + asUsize usizeBits varint.val + varint.size
        · rw [if_pos hlong, if_pos (hlimit.mpr (.inr hlong))]
          rfl
        · rw [if_neg hlong, if_neg fun h => (hlimit.mp h).elim (fun h => h hover) hlong]
          have ha : a.length < 2 ^ 32 := by
            have hmax : MAX_VEC_SIZE < 2 ^ 32 := by decide
            omega
          obtain ⟨marked, room, hroom, hmarked, hsized⟩ := decodeRound_eq_ok (ε := IoError) idx a
            junk hcontent hidx hspace hcursor ha varint (asUsize usizeBits varint.val)
          simp only [hmarked, hsized, ByteStream.lift_ok_bind, readExact_bind, bind_assoc,
            pure_bind]
          congr 1
          funext data
          let e : Element usizeBits := ⟨varint, data.toList, data.toList_length⟩
          have hwire : e.wire = varint.wire ++ data.toList := rfl
          have hlen : e.wire.length = varint.size + asUsize usizeBits varint.val := e.length_wire
          have hdata : data.toList.length = asUsize usizeBits varint.val := data.toList_length
          have hstart : cursor + varint.size = ((idx ++ leBytes 4 a.length) ++
              (List.replicate (rounds * 4) 0 ++ (a ++ varint.wire))).length := by
            simp only [List.length_append, List.length_replicate, length_leBytes, hidx,
              VarInt.length_wire]
            omega
          rw [copyFromSlice_behind hstart (by omega), ← hwire, ByteStream.lift_ok_bind,
            ih (idx ++ leBytes 4 a.length) (a ++ e.wire) (room.drop data.toList.length) rfl
              (by rw [List.length_append, hidx, length_leBytes, Nat.add_mul])
              (by rw [hspace]; ring) (by rw [List.length_append, hlen]; omega),
            List.length_append]
          congr 1
          funext es
          show _ = (pure (idx ++ ((leBytes 4 a.length ++
            Element.offsets (a.length + e.wire.length) es) ++ (a ++ (e :: es).flatMap
              Element.wire)), cursor + ((e :: es).flatMap Element.wire).length)
            : ByteStream IoError (Bytes × ℕ))
          rw [List.flatMap_cons, List.length_append, hlen]
          congr 1
          simp only [List.append_assoc, Nat.add_assoc]
      · rw [if_neg hover, if_pos (hlimit.mpr (.inl hover))]
        rfl

/-- What `decode` accepts: a count and that many elements, within the limits; a count
or a size beyond a `usize` stands for its remainder. -/
def Packs (usizeBits : ℕ) (w : Witness) (bs : Bytes) : Prop :=
  ∃ (count : VarInt) (es : Vec (Element usizeBits)),
    asUsize usizeBits count.val = es.length ∧ es.length ≤ MAX_VEC_SIZE ∧
    (es.toList.flatMap Element.wire).length ≤ elementsLimit usizeBits (es.length * 4) ∧
    w = ofElements es ∧ bs = count.wire ++ es.toList.flatMap Element.wire

/-- The end of `decode` moves the index area behind the elements. -/
theorem rotateLeft_offsets {es : Vec (Element usizeBits)} {space : ℕ}
    (hspace : space = es.length * 4) :
    (rotateLeft (Element.offsets 0 es.toList ++ es.toList.flatMap Element.wire) space
      : Outcome ε Bytes) = .ok (ofElements es).content := by
  have hlen : (Element.offsets 0 es.toList).length = space := by
    rw [Element.length_offsets, hspace]
    rfl
  rw [rotateLeft, if_pos (by rw [List.length_append]; omega), ← hlen,
    List.rotate_append_length_eq]
  rfl

/-- The loop with its buffer, as a reader of elements with a limit. -/
theorem decode_eq (usizeBits : ℕ) :
    decode usizeBits = do
      let count ← VarInt.decode
      if MAX_VEC_SIZE < asUsize usizeBits count.val then ByteStream.fail oversizedVectorAllocation
      else if asUsize usizeBits count.val = 0 then return new
      else do
        let es : List (Element usizeBits) ← Element.readEach
          (elementsLimit usizeBits (asUsize usizeBits count.val * 4))
          (asUsize usizeBits count.val) 0
        let content ← StateT.lift (rotateLeft (Element.offsets 0 es ++ es.flatMap Element.wire)
          (asUsize usizeBits count.val * 4))
        return ⟨content, asUsize usizeBits count.val, (es.flatMap Element.wire).length⟩ := by
  rw [decode]
  congr 1
  funext count
  dsimp only
  split_ifs with hmax hzero
  · rfl
  · rfl
  · generalize asUsize usizeBits count.val = n
    have hspace : n * 4 = (0 + n) * 4 := by rw [Nat.zero_add]
    have hcursor : n * 4 = n * 4 + ([] : Bytes).length := rfl
    have hloop := @decodeLoop_eq usizeBits n _ _ _ _ [] [] (List.replicate 128 0)
      (List.replicate_add ..) rfl hspace hcursor
    have hmap := congrArg (fun m : ByteStream IoError (Bytes × ℕ) => m >>= fun r => do
      let content ← StateT.lift (rotateLeft r.1 (n * 4))
      return (⟨content, n, r.2 - n * 4⟩ : Witness)) hloop
    simp only [bind_assoc, pure_bind, List.nil_append, List.length_nil,
      Nat.add_sub_cancel_left] at hmap
    exact hmap

/-- The elements are accepted within the limits, and packed. -/
theorem accepts_ofElements {n : ℕ} (hn : n ≤ MAX_VEC_SIZE) :
    Accepts (do
      let es : List (Element usizeBits) ← Element.readEach (elementsLimit usizeBits (n * 4)) n 0
      let content ← StateT.lift (rotateLeft (Element.offsets 0 es ++ es.flatMap Element.wire)
        (n * 4))
      return (⟨content, n, (es.flatMap Element.wire).length⟩ : Witness))
      fun w bs => ∃ es : Vec (Element usizeBits), n = es.length ∧
        (es.toList.flatMap Element.wire).length ≤ elementsLimit usizeBits (es.length * 4) ∧
        w = ofElements es ∧ bs = es.toList.flatMap Element.wire := by
  have hread : Accepts (Element.readEach (elementsLimit usizeBits (n * 4)) n 0
      : ByteStream IoError (List (Element usizeBits))) _ :=
    Element.accepts_readEach (Nat.zero_le _) n
  refine (hread.bind_of (T := fun es w bs => bs = [] ∧
    ∃ h : es.length < 2 ^ 64, w = ofElements ⟨es, h⟩) fun es cs hes => ?_).congr
      fun w bs => ?_
  · obtain ⟨rfl, -, -⟩ := hes
    have h64 : es.length < 2 ^ 64 := by
      have hmax : MAX_VEC_SIZE < 2 ^ 64 := by decide
      omega
    let v : Vec (Element usizeBits) := ⟨es, h64⟩
    have hspace : es.length * 4 = v.length * 4 := rfl
    have hrotate := rotateLeft_offsets (ε := IoError) hspace
    dsimp only [v] at hrotate
    rw [hrotate, ByteStream.lift_ok_bind]
    refine (accepts_pure _).congr fun w bs => ?_
    constructor
    · rintro ⟨rfl, rfl⟩
      exact ⟨rfl, h64, rfl⟩
    · rintro ⟨rfl, _, rfl⟩
      exact ⟨rfl, rfl⟩
  · constructor
    · rintro ⟨es, _, _, ⟨rfl, rfl, hfits⟩, ⟨rfl, h64, rfl⟩, rfl⟩
      rw [List.append_nil]
      rw [Nat.zero_add] at hfits
      exact ⟨⟨es, h64⟩, rfl, hfits, rfl, rfl⟩
    · rintro ⟨es, rfl, hfits, rfl, rfl⟩
      refine ⟨es.toList, _, _, ⟨rfl, rfl, ?_⟩, ⟨rfl, es.length_lt, rfl⟩, (List.append_nil _).symm⟩
      rw [Nat.zero_add]
      exact hfits

theorem accepts_decode (usizeBits : ℕ) : Accepts (decode usizeBits) (Packs usizeBits) := by
  rw [decode_eq]
  refine (VarInt.accepts_decode.bind (T := fun count w bs => ∃ es : Vec (Element usizeBits),
    asUsize usizeBits count.val = es.length ∧ es.length ≤ MAX_VEC_SIZE ∧
    (es.toList.flatMap Element.wire).length ≤ elementsLimit usizeBits (es.length * 4) ∧
    w = ofElements es ∧ bs = es.toList.flatMap Element.wire) fun count => ?_).congr
      fun w bs => ?_
  · split_ifs with hmax hzero
    · refine (accepts_fail _).congr fun w bs => ?_
      constructor
      · exact False.elim
      · rintro ⟨es, hcount, hle, -⟩
        omega
    · refine (accepts_pure new).congr fun w bs => ?_
      constructor
      · rintro ⟨rfl, rfl⟩
        exact ⟨Vec.empty, hzero, Nat.zero_le _, Nat.zero_le _, new_eq_ofElements, rfl⟩
      · rintro ⟨es, hcount, -, -, rfl, rfl⟩
        obtain rfl : es = Vec.empty :=
          Vec.ext (List.eq_nil_of_length_eq_zero (hcount.symm.trans hzero))
        exact ⟨rfl, rfl⟩
    · refine (accepts_ofElements (Nat.le_of_not_lt hmax)).congr fun w bs => ?_
      constructor
      · rintro ⟨es, hcount, hfits, rfl, rfl⟩
        exact ⟨es, hcount, hcount ▸ Nat.le_of_not_lt hmax, hfits, rfl, rfl⟩
      · rintro ⟨es, hcount, -, hfits, rfl, rfl⟩
        exact ⟨es, hcount, hfits, rfl, rfl⟩
  · constructor
    · rintro ⟨count, _, _, rfl, ⟨es, hcount, hle, hfits, rfl, rfl⟩, rfl⟩
      exact ⟨count, es, hcount, hle, hfits, rfl, rfl⟩
    · rintro ⟨count, es, hcount, hle, hfits, rfl, rfl⟩
      exact ⟨count, _, _, rfl, ⟨es, hcount, hle, hfits, rfl, rfl⟩, rfl⟩

/-- What `decode` makes is a packed form. -/
theorem decode_eq_ok {b rest : Bytes} {w : Witness}
    (h : (decode usizeBits).run b = .ok (w, rest)) :
    ∃ es : Vec (Element usizeBits), w = ofElements es := by
  obtain ⟨_, ⟨_, es, -, -, -, hw, -⟩, -⟩ := ((accepts_decode usizeBits).run_eq_ok_iff _ _ _).mp h
  exact ⟨es, hw⟩

/-- How a witness may be obtained: fresh, from byte strings of the target's
address space, or from the wire. -/
inductive Built (usizeBits : ℕ) : Witness → Prop
  | new : Built usizeBits new
  | fromSlice {slice : Vec (Vec UInt8)} {w : Witness}
      (hslice : ∀ elem ∈ slice.toList, elem.length < 2 ^ usizeBits)
      (h : (fromSlice slice : Outcome Empty Witness) = .ok w) : Built usizeBits w
  | decode {b rest : Bytes} {w : Witness} (h : (decode usizeBits).run b = .ok (w, rest)) :
      Built usizeBits w

/-- Every witness is the packed form of a list of elements. -/
theorem Built.eq_ofElements {w : Witness} (hw : Built usizeBits w) :
    ∃ es : Vec (Element usizeBits), w = ofElements es := by
  cases hw with
  | new => exact ⟨Vec.empty, new_eq_ofElements⟩
  | fromSlice hslice h =>
      obtain ⟨es, -, hw⟩ := fromSlice_eq_ok hslice h
      exact ⟨es, hw⟩
  | decode h => exact decode_eq_ok h

/-- A witness that was built can be written. -/
theorem Built.wellSized {w : Witness} (hw : Built usizeBits w) : w.WellSized := by
  obtain ⟨es, rfl⟩ := hw.eq_ofElements
  exact wellSized_ofElements es

/-- Witnesses that were built are determined by their bytes. -/
theorem prefixFreeOn_wire : PrefixFreeOn {w | Built usizeBits w} wire := by
  intro a ha b hb s t h
  obtain ⟨as, rfl⟩ := ha.eq_ofElements
  obtain ⟨bs, rfl⟩ := hb.eq_ofElements
  rw [wire_ofElements, wire_ofElements] at h
  obtain ⟨rfl, hst⟩ := prefixFree_vecWire Element.prefixFree_wire _ _ _ _ h
  exact ⟨rfl, hst⟩

/-- A witness without elements that was built is the fresh one. -/
theorem Built.eq_new {w : Witness} (hw : Built usizeBits w) (hempty : w.isEmpty) :
    w = Witness.new := by
  obtain ⟨es, rfl⟩ := hw.eq_ofElements
  have hnil : es.toList = [] := List.eq_nil_of_length_eq_zero (beq_iff_eq.mp hempty)
  rw [ofElements, hnil, Vec.length, hnil]
  rfl

end Witness

end Bitcoin
