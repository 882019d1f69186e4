/-
# Bitcoin encodings of integers and byte vectors

The traits `Encodable` and `Decodable` of `src/bitcoin/encoding` at integers, at
variable-length integers and at byte vectors.  An encoder appends to a buffer
and returns the number of bytes it appended; `Encodes` says which bytes these
are.
-/
import OmniTransaction.PrefixCode
import OmniTransaction.Rust

open ByteOrder Rust PrefixCode

namespace Bitcoin

variable {ε α : Type}

/-- The encoder appends exactly `bs` and returns the number of these bytes. -/
def Encodes (m : ByteStream ε ℕ) (bs : Bytes) : Prop := Writes m bs.length bs

/-! ## Integers -/

/-- `encoder_fn!`: write an integer of `k` bytes. -/
def emitInt (k n : ℕ) : ByteStream ε Unit := writeAll (leBytes k n)

/-- `emit_u8`. -/
def emitU8 (v : UInt8) : ByteStream ε Unit := writeAll [v]

/-- `emit_slice`. -/
def emitSlice (v : Bytes) : ByteStream ε Unit := writeAll v

/-- `impl_int_encodable!`: write an integer and return its size. -/
def encodeInt (k n : ℕ) : ByteStream ε ℕ := do
  emitInt k n
  return k

/-- `Encodable for u8`. -/
def encodeU8 (v : UInt8) : ByteStream ε ℕ := do
  emitU8 v
  return 1

/-- `Encodable for u16`. -/
def encodeU16 (v : UInt16) : ByteStream ε ℕ := encodeInt 2 v.toNat

/-- `Encodable for u32`. -/
def encodeU32 (v : UInt32) : ByteStream ε ℕ := encodeInt 4 v.toNat

/-- `Encodable for u64`. -/
def encodeU64 (v : UInt64) : ByteStream ε ℕ := encodeInt 8 v.toNat

/-- The bytes of the number, the low one first. -/
theorem encodes_encodeInt (k n : ℕ) : Encodes (encodeInt k n : ByteStream ε ℕ) (leBytes k n) := by
  intro buf
  rw [length_leBytes]
  rfl

theorem encodes_encodeU8 (v : UInt8) : Encodes (encodeU8 v : ByteStream ε ℕ) [v] := fun _ => rfl

/-- Two encoders in a row, their sizes added up. -/
theorem Encodes.seq {m m' : ByteStream ε ℕ} {bs cs : Bytes} (hm : Encodes m bs)
    (hm' : Encodes m' cs) :
    Encodes (do
      let n ← m
      let n' ← m'
      return n + n') (bs ++ cs) := by
  rw [Encodes, List.length_append]
  exact hm.bind (hm'.map fun n' => bs.length + n')

/-- `decoder_fn!`: read an integer of `k` bytes. -/
def readInt (k : ℕ) (ofNat : ℕ → α) : ByteStream IoError α := do
  let val ← readExact k
  return ofNat (ofLeBytes val)

/-- `read_u8`. -/
def readU8 : ByteStream IoError UInt8 := readInt 1 UInt8.ofNat

/-- `read_u16`. -/
def readU16 : ByteStream IoError UInt16 := readInt 2 UInt16.ofNat

/-- `read_u32`. -/
def readU32 : ByteStream IoError UInt32 := readInt 4 UInt32.ofNat

/-- `read_u64`. -/
def readU64 : ByteStream IoError UInt64 := readInt 8 UInt64.ofNat

/-- An integer that fits is read back. -/
theorem reads_readInt {k n : ℕ} (hn : n < 256 ^ k) (ofNat : ℕ → α) :
    Reads (readInt k ofNat) (ofNat n) (leBytes k n) := by
  have h := (reads_readExact (leBytes k n)).map fun val => ofNat (ofLeBytes val)
  rw [length_leBytes, ofLeBytes_leBytes_of_lt hn] at h
  exact h

/-- The little-endian form of a number that fits is a prefix-free code. -/
theorem prefixFree_leBytes (k : ℕ) {toNat : α → ℕ} (hlt : ∀ a, toNat a < 256 ^ k)
    (hinj : Function.Injective toNat) : PrefixFree fun a => leBytes k (toNat a) := by
  apply prefixFree_of_length_eq k
  · intro a
    exact length_leBytes k (toNat a)
  · intro a b h
    exact hinj (leBytes_inj (hlt a) (hlt b) h)

/-- Four bytes are never a part of other four bytes. -/
theorem prefixFree_u32 : PrefixFree fun v : UInt32 => leBytes 4 v.toNat :=
  prefixFree_leBytes 4 (fun v => v.toNat_lt) fun _ _ => UInt32.toNat_inj.mp

theorem prefixFree_u64 : PrefixFree fun v : UInt64 => leBytes 8 v.toNat :=
  prefixFree_leBytes 8 (fun v => v.toNat_lt) fun _ _ => UInt64.toNat_inj.mp

/-! ## Variable-length integers -/

/-- `VarInt`. -/
structure VarInt where
  val : UInt64
  deriving DecidableEq, Repr

namespace VarInt

/-- `VarInt::from` at `usize`. -/
def ofLength (n : ℕ) : VarInt := ⟨UInt64.ofNat n⟩

/-- The number of bytes this varint contributes to a transaction size. -/
def size (v : VarInt) : ℕ :=
  if v.val ≤ 0xFC then 1
  else if v.val ≤ 0xFFFF then 3
  else if v.val ≤ 0xFFFFFFFF then 5
  else 9

/-- `encode`. -/
def encode (v : VarInt) : ByteStream ε ℕ :=
  if v.val ≤ 0xFC then do
    let _ ← encodeU8 v.val.toUInt8
    return 1
  else if v.val ≤ 0xFFFF then do
    emitU8 0xFD
    let _ ← encodeU16 v.val.toUInt16
    return 3
  else if v.val ≤ 0xFFFFFFFF then do
    emitU8 0xFE
    let _ ← encodeU32 v.val.toUInt32
    return 5
  else do
    emitU8 0xFF
    let _ ← encodeU64 v.val
    return 9

/-- The error of a length that is longer than necessary. -/
def nonMinimalVarInt : IoError := ⟨.Other, "NonMinimalVarInt"⟩

/-- `decode`. -/
def decode : ByteStream IoError VarInt := do
  let n ← readU8
  if n = 0xFF then do
    let x ← readU64
    -- each form is refused for a value that a shorter form can hold
    if x < 0x100000000 then ByteStream.fail nonMinimalVarInt else return ⟨x⟩
  else if n = 0xFE then do
    let x ← readU32
    if x < 0x10000 then ByteStream.fail nonMinimalVarInt else return ⟨x.toUInt64⟩
  else if n = 0xFD then do
    let x ← readU16
    if x < 0xFD then ByteStream.fail nonMinimalVarInt else return ⟨x.toUInt64⟩
  else return ⟨n.toUInt64⟩

/-- The bytes of a variable-length integer. -/
def wire (v : VarInt) : Bytes :=
  if v.val ≤ 0xFC then [v.val.toUInt8]
  else if v.val ≤ 0xFFFF then 0xFD :: leBytes 2 v.val.toNat
  else if v.val ≤ 0xFFFFFFFF then 0xFE :: leBytes 4 v.val.toNat
  else 0xFF :: leBytes 8 v.val.toNat

/-- The four forms by the size of the number. -/
theorem wire_eq (v : VarInt) : v.wire =
    if v.val.toNat ≤ 0xFC then [v.val.toUInt8]
    else if v.val.toNat ≤ 0xFFFF then 0xFD :: leBytes 2 v.val.toNat
    else if v.val.toNat ≤ 0xFFFFFFFF then 0xFE :: leBytes 4 v.val.toNat
    else 0xFF :: leBytes 8 v.val.toNat := by
  unfold wire
  simp only [UInt64.le_iff_toNat_le, UInt64.reduceToNat]

/-- There is always a first byte. -/
theorem size_pos (v : VarInt) : 0 < v.size := by
  unfold size
  split_ifs <;> decide

/-- `size` is the length of what is written. -/
theorem length_wire (v : VarInt) : v.wire.length = v.size := by
  unfold wire size
  split_ifs <;> simp

/-- `encode` writes the form of the number and returns its length. -/
theorem encodes_encode (v : VarInt) : Encodes (v.encode : ByteStream ε ℕ) v.wire := by
  have hv := v.val.toNat_lt
  have h16 : leBytes 2 v.val.toUInt16.toNat = leBytes 2 v.val.toNat := by
    rw [UInt64.toNat_toUInt16]
    exact leBytes_mod 2 v.val.toNat
  have h32 : leBytes 4 v.val.toUInt32.toNat = leBytes 4 v.val.toNat := by
    rw [UInt64.toNat_toUInt32]
    exact leBytes_mod 4 v.val.toNat
  rw [Encodes, length_wire]
  unfold encode size wire
  split_ifs with h1 h2 h3
  · exact (encodes_encodeU8 v.val.toUInt8).map fun _ => 1
  · rw [← h16]
    exact (writes_writeAll [0xFD]).bind ((encodes_encodeInt 2 _).map fun _ => 3)
  · rw [← h32]
    exact (writes_writeAll [0xFE]).bind ((encodes_encodeInt 4 _).map fun _ => 5)
  · exact (writes_writeAll [0xFF]).bind ((encodes_encodeInt 8 _).map fun _ => 9)

/-- Reading returns the integer that was written. -/
theorem reads_decode (v : VarInt) : Reads decode v v.wire := by
  have hv := v.val.toNat_lt
  have htail {α : Type} {k n : ℕ} (hn : n < 256 ^ k) (ofNat : ℕ → α)
      (f : α → ByteStream IoError VarInt) (hf : f (ofNat n) = pure v) :
      Reads (readInt k ofNat >>= f) v (leBytes k n) := by
    have h := (reads_readInt hn ofNat).bind (f := f) (hf ▸ reads_pure v)
    rwa [List.append_nil] at h
  have hmarker (x : UInt8) : Reads readU8 x [x] := by
    have h := reads_readInt (k := 1) x.toNat_lt UInt8.ofNat
    rwa [UInt8.ofNat_toNat, show leBytes 1 x.toNat = [x] by simp [leBytes]] at h
  rw [wire_eq]
  split_ifs with h1 h2 h3
  · have hval : v.val.toUInt8.toNat = v.val.toNat := by
      rw [UInt64.toNat_toUInt8]
      omega
    have hne {x : UInt8} (hx : 0xFC < x.toNat) : v.val.toUInt8 ≠ x := by
      rintro rfl
      omega
    -- the byte itself, which is none of the three markers
    rw [← List.append_nil [v.val.toUInt8]]
    apply (hmarker v.val.toUInt8).bind
    rw [if_neg (hne (by decide)), if_neg (hne (by decide)), if_neg (hne (by decide)),
      show v.val.toUInt8.toUInt64 = v.val from UInt64.toNat_inj.mp hval]
    exact reads_pure v
  · have hval : (UInt16.ofNat v.val.toNat).toNat = v.val.toNat := by
      rw [UInt16.toNat_ofNat']
      omega
    -- behind the marker a value that does not fit in one byte
    apply (hmarker 0xFD).bind
    rw [if_neg (by decide), if_neg (by decide), if_pos rfl]
    apply htail (by omega)
    rw [if_neg (by rw [UInt16.lt_iff_toNat_lt, hval]; exact fun h => h1 (Nat.le_of_lt_succ h)),
      show (UInt16.ofNat v.val.toNat).toUInt64 = v.val from UInt64.toNat_inj.mp hval]
  · have hval : (UInt32.ofNat v.val.toNat).toNat = v.val.toNat := by
      rw [UInt32.toNat_ofNat']
      omega
    apply (hmarker 0xFE).bind
    rw [if_neg (by decide), if_pos rfl]
    apply htail (by omega)
    rw [if_neg (by rw [UInt32.lt_iff_toNat_lt, hval]; exact fun h => h2 (Nat.le_of_lt_succ h)),
      show (UInt32.ofNat v.val.toNat).toUInt64 = v.val from UInt64.toNat_inj.mp hval]
  · apply (hmarker 0xFF).bind
    rw [if_pos rfl]
    apply htail hv
    rw [UInt64.ofNat_toNat, if_neg (fun h => h3 (Nat.le_of_lt_succ (UInt64.lt_iff_toNat_lt.mp h)))]

/-- The first byte tells the length, and the rest has this length. -/
theorem prefixFree_wire : PrefixFree wire := by
  intro a b s t h
  have hread := reads_decode a s
  rw [h, reads_decode b t] at hread
  simpa [eq_comm] using hread

/-- The first byte is zero only at zero. -/
theorem exists_wire_eq_cons {v : VarInt} (hv : v.val ≠ 0) :
    ∃ x rest, v.wire = x :: rest ∧ x ≠ 0 := by
  rw [wire_eq]
  split_ifs with h1
  · refine ⟨v.val.toUInt8, [], rfl, fun h => hv (UInt64.toNat_inj.mp ?_)⟩
    have hzero := congrArg UInt8.toNat h
    rw [UInt64.toNat_toUInt8, UInt8.toNat_zero] at hzero
    rw [UInt64.toNat_zero]
    omega
  · exact ⟨0xFD, _, rfl, by decide⟩
  · exact ⟨0xFE, _, rfl, by decide⟩
  · exact ⟨0xFF, _, rfl, by decide⟩

end VarInt

/-! ## Vectors -/

/-- `encode_with_size`. -/
def encodeWithSize (data : Vec UInt8) : ByteStream ε ℕ := do
  let viLen ← (VarInt.ofLength data.length).encode
  emitSlice data.toList
  return viLen + data.length

/-- The loop of a list encoder: encode the elements one after the other and add
up their sizes. -/
def encodeEach (enc : α → ByteStream ε ℕ) (len : ℕ) (l : List α) : ByteStream ε ℕ :=
  l.foldlM (fun len c => do return len + (← enc c)) len

/-- The encoders of `Vec<TxIn>` and `Vec<TxOut>`: the number of elements and the
elements. -/
def encodeVec (enc : α → ByteStream ε ℕ) (v : Vec α) : ByteStream ε ℕ := do
  let len ← (VarInt.ofLength v.length).encode
  encodeEach enc len v.toList

/-- The bytes of a vector whose elements are written as `wire`. -/
def vecWire (wire : α → Bytes) (v : Vec α) : Bytes :=
  (VarInt.ofLength v.length).wire ++ v.toList.flatMap wire

/-- A byte vector is a vector of bytes. -/
theorem encodes_encodeWithSize (data : Vec UInt8) :
    Encodes (encodeWithSize data : ByteStream ε ℕ) (vecWire (fun x => [x]) data) := by
  rw [Encodes, vecWire, List.flatMap_singleton', List.length_append]
  unfold encodeWithSize
  exact (VarInt.encodes_encode (VarInt.ofLength data.length)).bind
    ((writes_writeAll data.toList).map fun _ =>
      (VarInt.ofLength data.length).wire.length + data.length)

/-- The loop writes the elements one behind the other and adds up their lengths. -/
theorem writes_encodeEach {enc : α → ByteStream ε ℕ} {wire : α → Bytes} {l : List α}
    (h : ∀ a ∈ l, Encodes (enc a) (wire a)) (len : ℕ) :
    Writes (encodeEach enc len l) (len + (l.flatMap wire).length) (l.flatMap wire) := by
  induction l generalizing len with
  | nil => exact writes_pure len
  | cons a l ih =>
      -- the size so far is the start value of the remaining loop
      have hhead := (h a List.mem_cons_self).map fun n => len + n
      have hrest := ih (fun b hb => h b (List.mem_cons_of_mem a hb)) (len + (wire a).length)
      rw [List.flatMap_cons, List.length_append, ← Nat.add_assoc, encodeEach, List.foldlM_cons]
      exact hhead.bind hrest

/-- Whatever the elements write, the loop only appends. -/
theorem appends_encodeEach {enc : α → ByteStream ε ℕ} (h : ∀ a, Appends (enc a)) (len : ℕ)
    (l : List α) : Appends (encodeEach enc len l) := by
  induction l generalizing len with
  | nil => exact (writes_pure len).appends
  | cons a l ih =>
      rw [encodeEach, List.foldlM_cons]
      exact ((h a).bind fun n => (writes_pure (len + n)).appends).bind fun len' => ih len'

/-- A vector is its number of elements and the elements. -/
theorem encodes_encodeVec {enc : α → ByteStream ε ℕ} {wire : α → Bytes} {v : Vec α}
    (h : ∀ a ∈ v.toList, Encodes (enc a) (wire a)) :
    Encodes (encodeVec enc v) (vecWire wire v) := by
  rw [Encodes, vecWire, List.length_append]
  unfold encodeVec
  exact (VarInt.encodes_encode (VarInt.ofLength v.length)).bind
    (writes_encodeEach h (VarInt.ofLength v.length).wire.length)

/-- The number of elements in front of a vector is read back. -/
theorem length_eq_of_wire_append_eq {β γ : Type} {v : Vec β} {w : Vec γ} {s t : Bytes}
    (h : (VarInt.ofLength v.length).wire ++ s = (VarInt.ofLength w.length).wire ++ t) :
    v.length = w.length ∧ s = t := by
  obtain ⟨hvar, hst⟩ := VarInt.prefixFree_wire _ _ _ _ h
  have hlen := congrArg (fun x : VarInt => x.val.toNat) hvar
  simp only [VarInt.ofLength, Vec.toNat_ofNat_length] at hlen
  exact ⟨hlen, hst⟩

/-- The number of elements of a vector is not cut off. -/
theorem val_ofLength_ne_zero {v : Vec α} (hv : v.length ≠ 0) :
    (VarInt.ofLength v.length).val ≠ 0 := by
  intro h
  have hlen := v.toNat_ofNat_length
  rw [show UInt64.ofNat v.length = 0 from h] at hlen
  exact hv hlen.symm

/-- If the elements tell their lengths, so does the vector. -/
theorem prefixFree_vecWire {wire : α → Bytes} (h : PrefixFree wire) :
    PrefixFree (vecWire wire) :=
  h.counted Vec.toList_injective fun _ _ _ _ => length_eq_of_wire_append_eq

/-- Byte strings with their length in front. -/
theorem prefixFree_bytes : PrefixFree (vecWire fun x : UInt8 => [x]) := by
  apply prefixFree_vecWire
  intro a b s t h
  exact ⟨(List.cons.inj h).1, (List.cons.inj h).2⟩

end Bitcoin
