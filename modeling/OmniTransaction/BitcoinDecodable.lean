/-
# The trait `Decodable` and its implementations for bytes

`Decodable` of `src/bitcoin/encoding/decode.rs` has two entry points, `decode` and
`decode_from_finite_reader`, each with a default body that calls the other one.  An
implementation overrides at least one of them (`Decodable.overrides`), so following
the defaults ends after one step (`Decodable.resolve_isSome`).  The entry points
agree up to the limit of `decode` as soon as one of them is described by the
encodings it accepts (`EntryPointsAgree`).

The implementations for integers, variable-length integers and byte vectors are in
this module, with the encodings they accept.  Variable-length integers have one encoding
each (`VarInt.canonical_prefix_code`).  The width of `usize` is a parameter.
-/
import OmniTransaction.BitcoinEncoding
import OmniTransaction.ByteReaders

open ByteOrder Rust

namespace Bitcoin

variable {ε α : Type}

/-! ## Entry points -/

/-- Maximum size, in bytes, of a vector we are allowed to decode. -/
def MAX_VEC_SIZE : ℕ := 4000000

/-- The methods of `Decodable`. -/
inductive EntryPoint where
  | decodeFromFiniteReader
  | decode
  deriving DecidableEq

/-- An implementation of `Decodable`: the methods it overrides. -/
structure Decodable (α : Type) where
  finiteBody : Option (ByteStream IoError α)
  decodeBody : Option (ByteStream IoError α)
  overrides : finiteBody.isSome ∨ decodeBody.isSome

namespace Decodable

/-- The body a call ends at when at most `fuel` calls are made. -/
def resolve (impl : Decodable α) : ℕ → EntryPoint → Option (ByteStream IoError α)
  | 0, _ => none
  | fuel + 1, .decodeFromFiniteReader =>
      match impl.finiteBody with
      | some body => some body
      | none => impl.resolve fuel .decode
  | fuel + 1, .decode =>
      match impl.decodeBody with
      | some body => some body
      | none => (impl.resolve fuel .decodeFromFiniteReader).map (take MAX_VEC_SIZE)

/-- The default bodies do not call each other forever. -/
theorem resolve_isSome (impl : Decodable α) (entry : EntryPoint) :
    (impl.resolve 2 entry).isSome := by
  rcases impl with ⟨_ | finiteBody, _ | decodeBody, overrides⟩
  · rcases overrides with h | h <;> cases h
  · cases entry <;> rfl
  · cases entry <;> rfl
  · cases entry <;> rfl

/-- `decode_from_finite_reader`. -/
def decodeFromFiniteReader (impl : Decodable α) : ByteStream IoError α :=
  (impl.resolve 2 .decodeFromFiniteReader).get (impl.resolve_isSome _)

/-- `decode`. -/
def decode (impl : Decodable α) : ByteStream IoError α :=
  (impl.resolve 2 .decode).get (impl.resolve_isSome _)

/-- An implementation with a body for `decode`. -/
def ofDecode (body : ByteStream IoError α) : Decodable α := ⟨none, some body, .inr rfl⟩

/-- An implementation with a body for `decode_from_finite_reader`. -/
def ofFiniteReader (body : ByteStream IoError α) : Decodable α := ⟨some body, none, .inl rfl⟩

@[simp] theorem decode_ofDecode (body : ByteStream IoError α) : (ofDecode body).decode = body :=
  rfl

@[simp] theorem decodeFromFiniteReader_ofDecode (body : ByteStream IoError α) :
    (ofDecode body).decodeFromFiniteReader = body := rfl

@[simp] theorem decode_ofFiniteReader (body : ByteStream IoError α) :
    (ofFiniteReader body).decode = take MAX_VEC_SIZE body := rfl

@[simp] theorem decodeFromFiniteReader_ofFiniteReader (body : ByteStream IoError α) :
    (ofFiniteReader body).decodeFromFiniteReader = body := rfl

/-- The entry points resolve, they agree up to the limit of `decode`, and a success
depends on nothing but the bytes that were consumed. -/
structure EntryPointsAgree (impl : Decodable α) : Prop where
  resolves : ∀ entry, ∃ fuel, (impl.resolve fuel entry).isSome
  decode_of_finite : ∀ b v rest, impl.decodeFromFiniteReader.run b = .ok (v, rest) →
    b.length - rest.length ≤ MAX_VEC_SIZE → impl.decode.run b = .ok (v, rest)
  finite_of_decode : ∀ b v rest, impl.decode.run b = .ok (v, rest) →
    impl.decodeFromFiniteReader.run b = .ok (v, rest)
  consumes : ∀ b v rest, impl.decodeFromFiniteReader.run b = .ok (v, rest) →
    ∃ bs, b = bs ++ rest ∧ Reads impl.decodeFromFiniteReader v bs
  decode_consumes : ∀ b v rest, impl.decode.run b = .ok (v, rest) →
    ∃ bs, b = bs ++ rest ∧ Reads impl.decode v bs

/-- With a body for `decode` both entry points are this body. -/
theorem entryPointsAgree_ofDecode {body : ByteStream IoError α} {R : α → Bytes → Prop}
    (h : Accepts body R) : EntryPointsAgree (ofDecode body) where
  resolves entry := ⟨2, resolve_isSome _ entry⟩
  decode_of_finite _ _ _ hrun _ := hrun
  finite_of_decode _ _ _ hrun := hrun
  consumes _ _ _ hrun := h.exists_reads hrun
  decode_consumes _ _ _ hrun := h.exists_reads hrun

/-- With a body for `decode_from_finite_reader`, `decode` is this body under the
limit. -/
theorem entryPointsAgree_ofFiniteReader {body : ByteStream IoError α} {R : α → Bytes → Prop}
    (h : Accepts body R) : EntryPointsAgree (ofFiniteReader body) where
  resolves entry := ⟨2, resolve_isSome _ entry⟩
  decode_of_finite b v rest hrun hlen :=
    (h.run_take_eq_ok_iff MAX_VEC_SIZE).mpr ⟨hrun, by omega⟩
  finite_of_decode _ _ _ hrun := ((h.run_take_eq_ok_iff MAX_VEC_SIZE).mp hrun).1
  consumes _ _ _ hrun := h.exists_reads hrun
  decode_consumes _ _ _ hrun := (h.take MAX_VEC_SIZE).exists_reads hrun

end Decodable

/-! ## Integers -/

/-- An integer is taken from `k` bytes. -/
theorem accepts_readInt (k : ℕ) (ofNat : ℕ → α) :
    Accepts (readInt k ofNat) fun a bs => bs.length = k ∧ ofNat (ofLeBytes bs) = a := by
  refine ((accepts_readExact k).map fun val => ofNat (ofLeBytes val)).congr ?_
  intro a bs
  constructor
  · rintro ⟨_, ⟨rfl, hlen⟩, ha⟩
    exact ⟨hlen, ha⟩
  · rintro ⟨hlen, ha⟩
    exact ⟨bs, ⟨rfl, hlen⟩, ha⟩

/-- An integer type of `k` bytes has one encoding for each value. -/
theorem accepts_readInt_leBytes {k : ℕ} {toNat : α → ℕ} {ofNat : ℕ → α}
    (hlt : ∀ a, toNat a < 256 ^ k) (hof : ∀ a, ofNat (toNat a) = a)
    (hto : ∀ n, n < 256 ^ k → toNat (ofNat n) = n) :
    Accepts (readInt k ofNat) fun a bs => bs = leBytes k (toNat a) := by
  refine (accepts_readInt k ofNat).congr ?_
  intro a bs
  constructor
  · rintro ⟨rfl, rfl⟩
    rw [hto _ (ofLeBytes_lt bs), leBytes_ofLeBytes]
  · rintro rfl
    rw [ofLeBytes_leBytes_of_lt (hlt a)]
    exact ⟨length_leBytes .., hof a⟩

/-- A byte is taken from itself. -/
theorem accepts_readU8 : Accepts readU8 fun v bs => bs = [v] := by
  refine (accepts_readInt_leBytes (k := 1) (fun v => v.toNat_lt) (fun _ => UInt8.ofNat_toNat)
    fun _ h => UInt8.toNat_ofNat_of_lt' h).congr ?_
  intro v bs
  rw [show leBytes 1 v.toNat = [v] by simp [leBytes]]

/-- Two bytes, the low one first. -/
theorem accepts_readU16 : Accepts readU16 fun v bs => bs = leBytes 2 v.toNat :=
  accepts_readInt_leBytes (fun v => v.toNat_lt) (fun _ => UInt16.ofNat_toNat)
    fun _ h => UInt16.toNat_ofNat_of_lt' h

/-- Four bytes, the low one first. -/
theorem accepts_readU32 : Accepts readU32 fun v bs => bs = leBytes 4 v.toNat :=
  accepts_readInt_leBytes (fun v => v.toNat_lt) (fun _ => UInt32.ofNat_toNat)
    fun _ h => UInt32.toNat_ofNat_of_lt' h

/-- Eight bytes, the low one first. -/
theorem accepts_readU64 : Accepts readU64 fun v bs => bs = leBytes 8 v.toNat :=
  accepts_readInt_leBytes (fun v => v.toNat_lt) (fun _ => UInt64.ofNat_toNat)
    fun _ h => UInt64.toNat_ofNat_of_lt' h

/-- `impl_int_encodable!`. -/
def decodableU8 : Decodable UInt8 := .ofDecode readU8

/-- `Decodable for u16`. -/
def decodableU16 : Decodable UInt16 := .ofDecode readU16

/-- `Decodable for u32`. -/
def decodableU32 : Decodable UInt32 := .ofDecode readU32

/-- `Decodable for u64`. -/
def decodableU64 : Decodable UInt64 := .ofDecode readU64

/-! ## Variable-length integers -/

namespace VarInt

/-- `Decodable for VarInt`. -/
def decodable : Decodable VarInt := .ofDecode decode

/-- The value behind a marker, which must not fit in a shorter form. -/
theorem accepts_minimal {β : Type} {m : ByteStream IoError β} {R : β → Bytes → Prop}
    (hm : Accepts m R) (small : β → Prop) [DecidablePred small] (toVarInt : β → VarInt) :
    Accepts (m >>= fun x =>
      if small x then ByteStream.fail nonMinimalVarInt else pure (toVarInt x))
      fun v bs => ∃ x, R x bs ∧ ¬ small x ∧ toVarInt x = v := by
  have hcheck : ∀ x, Accepts
      (if small x then ByteStream.fail nonMinimalVarInt else pure (toVarInt x))
      fun v bs => ¬ small x ∧ v = toVarInt x ∧ bs = [] := by
    intro x
    split_ifs with hx
    · refine (accepts_fail _).congr fun v bs => ?_
      simp [hx]
    · refine (accepts_pure (toVarInt x)).congr fun v bs => ?_
      simp [hx]
  refine (hm.bind hcheck).congr ?_
  intro v bs
  constructor
  · rintro ⟨x, cs, ds, hx, ⟨hsmall, rfl, rfl⟩, rfl⟩
    rw [List.append_nil]
    exact ⟨x, hx, hsmall, rfl⟩
  · rintro ⟨x, hx, hsmall, rfl⟩
    exact ⟨x, bs, [], hx, ⟨hsmall, rfl, rfl⟩, (List.append_nil bs).symm⟩

/-- Only the shortest form of an integer is accepted. -/
theorem accepts_decode : Accepts decode fun v bs => bs = v.wire := by
  have hbranch : ∀ n : UInt8, ∃ R : VarInt → Bytes → Prop, Accepts
      (if n = 0xFF then do
        let x ← readU64
        if x < 0x100000000 then ByteStream.fail nonMinimalVarInt else return ⟨x⟩
      else if n = 0xFE then do
        let x ← readU32
        if x < 0x10000 then ByteStream.fail nonMinimalVarInt else return ⟨x.toUInt64⟩
      else if n = 0xFD then do
        let x ← readU16
        if x < 0xFD then ByteStream.fail nonMinimalVarInt else return ⟨x.toUInt64⟩
      else return ⟨n.toUInt64⟩) R ∧ ∀ v bs, R v bs → n :: bs = v.wire := by
    intro n
    split_ifs with h1 h2 h3
    · refine ⟨_, accepts_minimal accepts_readU64 (· < 0x100000000) VarInt.mk, ?_⟩
      rintro v bs ⟨x, rfl, hx, rfl⟩
      have hx : 0x100000000 ≤ x.toNat := UInt64.le_iff_toNat_le.mp (UInt64.not_lt.mp hx)
      rw [wire_eq]
      dsimp only
      rw [if_neg (by omega), if_neg (by omega), if_neg (by omega), h1]
    · refine ⟨_, accepts_minimal accepts_readU32 (· < 0x10000) fun x => ⟨x.toUInt64⟩, ?_⟩
      rintro v bs ⟨x, rfl, hx, rfl⟩
      have hlt := x.toNat_lt
      have hx : 0x10000 ≤ x.toNat := UInt32.le_iff_toNat_le.mp (UInt32.not_lt.mp hx)
      rw [wire_eq, UInt32.toNat_toUInt64, if_neg (by omega), if_neg (by omega),
        if_pos (by omega), h2]
    · refine ⟨_, accepts_minimal accepts_readU16 (· < 0xFD) fun x => ⟨x.toUInt64⟩, ?_⟩
      rintro v bs ⟨x, rfl, hx, rfl⟩
      have hlt := x.toNat_lt
      have hx : 0xFD ≤ x.toNat := UInt16.le_iff_toNat_le.mp (UInt16.not_lt.mp hx)
      rw [wire_eq, UInt16.toNat_toUInt64, if_neg (by omega), if_pos (by omega), h3]
    · refine ⟨_, accepts_pure _, ?_⟩
      rintro v bs ⟨rfl, rfl⟩
      have hlt := n.toNat_lt
      have hn : n.toNat ≠ 0xFF ∧ n.toNat ≠ 0xFE ∧ n.toNat ≠ 0xFD :=
        ⟨fun h => h1 (UInt8.toNat_inj.mp h), fun h => h2 (UInt8.toNat_inj.mp h),
          fun h => h3 (UInt8.toNat_inj.mp h)⟩
      rw [wire_eq, UInt8.toNat_toUInt64, if_pos (by omega)]
      simp
  choose R hR hwire using hbranch
  refine (accepts_readU8.bind hR).congr ?_
  intro v bs
  constructor
  · rintro ⟨n, cs, ds, rfl, hds, rfl⟩
    exact hwire n v ds hds
  · rintro rfl
    have hread := (reads_decode v []).symm
    rw [List.append_nil] at hread
    obtain ⟨cs, ⟨n, cs, ds, rfl, hds, rfl⟩, hcs⟩ :=
      ((accepts_readU8.bind hR).run_eq_ok_iff v.wire v []).mp (by rw [hread]; rfl)
    rw [List.append_nil] at hcs
    exact ⟨n, [n], ds, rfl, hds, hcs⟩

/-- The first bytes of the longer forms, with the number of bytes behind each. -/
def markers : List (UInt8 × ℕ) := [(0xFD, 2), (0xFE, 4), (0xFF, 8)]

/-- The forms an integer has, the shortest one and those that are too long: the byte
itself, or a marker in front of the little-endian bytes. -/
inductive Form (v : VarInt) : Bytes → Prop
  | byte (hlt : v.val.toNat < 0xFD) : Form v [v.val.toUInt8]
  | marked (marker : UInt8) (k : ℕ) (hmarker : (marker, k) ∈ markers)
      (hlt : v.val.toNat < 256 ^ k) : Form v (marker :: leBytes k v.val.toNat)

/-- What is written is the form. -/
theorem form_wire (v : VarInt) : Form v v.wire := by
  have hlt := v.val.toNat_lt
  rw [wire_eq]
  split_ifs with h1 h2 h3
  · exact .byte (by omega)
  · exact .marked 0xFD 2 (by simp [markers]) (by omega)
  · exact .marked 0xFE 4 (by simp [markers]) (by omega)
  · exact .marked 0xFF 8 (by simp [markers]) hlt

/-- The first byte of a longer form is above all short ones. -/
theorem le_of_mem_markers {marker : UInt8} {k : ℕ} (h : (marker, k) ∈ markers) :
    0xFD ≤ marker.toNat := by
  simp only [markers, List.mem_cons, Prod.mk.injEq, List.not_mem_nil, or_false] at h
  rcases h with ⟨rfl, -⟩ | ⟨rfl, -⟩ | ⟨rfl, -⟩ <;> decide

theorem eq_of_mem_markers {marker : UInt8} {k l : ℕ} (hk : (marker, k) ∈ markers)
    (hl : (marker, l) ∈ markers) : k = l := by
  simp only [markers, List.mem_cons, Prod.mk.injEq, List.not_mem_nil, or_false] at hk hl
  rcases hk with ⟨rfl, rfl⟩ | ⟨rfl, rfl⟩ | ⟨rfl, rfl⟩ <;>
    simp at hl <;> exact hl.symm

/-- A byte in front of a form is no marker. -/
theorem toUInt8_not_mem_markers {v : VarInt} (hlt : v.val.toNat < 0xFD) (k : ℕ) :
    (v.val.toUInt8, k) ∉ markers := by
  intro h
  have hle := le_of_mem_markers h
  rw [UInt64.toNat_toUInt8] at hle
  omega

/-- Where a form ends and which integer it stands for is seen from its bytes, also among
the forms that are too long. -/
theorem Form.append_inj {v w : VarInt} {bs cs s t : Bytes} (hv : Form v bs) (hw : Form w cs)
    (h : bs ++ s = cs ++ t) : v = w ∧ bs = cs ∧ s = t := by
  have hval : ∀ {m n : UInt64}, m.toNat = n.toNat → (⟨m⟩ : VarInt) = ⟨n⟩ := by
    intro m n hmn
    rw [UInt64.toNat_inj.mp hmn]
  cases hv with
  | byte hlt =>
      cases hw with
      | byte hlt' =>
          simp only [List.cons_append, List.nil_append, List.cons.injEq] at h
          obtain ⟨hbyte, rfl⟩ := h
          have hnat := congrArg UInt8.toNat hbyte
          rw [UInt64.toNat_toUInt8, UInt64.toNat_toUInt8] at hnat
          exact ⟨hval (by omega), by rw [hbyte], rfl⟩
      | marked marker k hmarker hlt' =>
          obtain ⟨rfl, -⟩ := List.cons.inj h
          exact absurd hmarker (toUInt8_not_mem_markers hlt k)
  | marked marker k hmarker hlt =>
      cases hw with
      | byte hlt' =>
          obtain ⟨rfl, -⟩ := List.cons.inj h
          exact absurd hmarker (toUInt8_not_mem_markers hlt' k)
      | marked marker' l hmarker' hlt' =>
          obtain ⟨rfl, htail⟩ := List.cons.inj h
          obtain rfl := eq_of_mem_markers hmarker hmarker'
          obtain ⟨hbytes, rfl⟩ := List.append_inj htail (by simp only [length_leBytes])
          exact ⟨hval (leBytes_inj hlt hlt' hbytes), by rw [hbytes], rfl⟩

/-- Variable-length integers are a canonical prefix code: `encode` writes `size` bytes, and
`decode` reads exactly these bytes back, in front of anything.  A form that is too long, a
form that is cut off and any other input that begins with no encoding is an error. -/
theorem canonical_prefix_code :
    (∀ v : VarInt, ∃ bs, Encodes (v.encode : ByteStream IoError ℕ) bs ∧ bs.length = v.size ∧
      ∀ b rest, decode.run b = .ok (v, rest) ↔ b = bs ++ rest) ∧
    (∀ v bs, Form v bs → ¬ Encodes (v.encode : ByteStream IoError ℕ) bs →
      ∀ rest, ∃ e, decode.run (bs ++ rest) = .err e) ∧
    (∀ v bs p q, Form v bs → p ++ q = bs → q ≠ [] → ∃ e, decode.run p = .err e) ∧
    ∀ b, (∀ v rest, decode.run b ≠ .ok (v, rest)) → ∃ e, decode.run b = .err e := by
  refine ⟨?_, ?_, ?_, fun b => accepts_decode.exists_err⟩
  · intro v
    refine ⟨v.wire, v.encodes_encode, v.length_wire, fun b rest => ?_⟩
    rw [accepts_decode.run_eq_ok_iff, exists_eq_left]
  · intro v bs hform hlong rest
    apply accepts_decode.exists_err
    intro w rest' hrun
    obtain ⟨_, rfl, hb⟩ := (accepts_decode.run_eq_ok_iff _ _ _).mp hrun
    obtain ⟨rfl, rfl, -⟩ := hform.append_inj (form_wire w) hb
    exact hlong v.encodes_encode
  · intro v bs p q hform hpq hq
    apply accepts_decode.exists_err
    intro w rest hrun
    obtain ⟨_, rfl, rfl⟩ := (accepts_decode.run_eq_ok_iff _ _ _).mp hrun
    -- the encoding that was read would be the whole form
    have hb : w.wire ++ (rest ++ q) = bs ++ [] := by
      rw [← List.append_assoc, hpq, List.append_nil]
    obtain ⟨-, -, hnil⟩ := (form_wire w).append_inj hform hb
    exact hq (List.append_eq_nil_iff.mp hnil).2

end VarInt

/-! ## Byte vectors -/

/-- The loop of `read_bytes_from_finite_reader`.  Memory is not modelled: `Vec::resize` has
room for every buffer, also for one above `isize::MAX`. -/
def readChunks (usizeBits chunkSize len : ℕ) (ret : Bytes) : ByteStream IoError Bytes :=
  if h : 0 < len ∧ 0 < chunkSize then do
    let chunkStart := ret.length
    let size := min len chunkSize
    let chunkEnd ← StateT.lift (addUsize usizeBits chunkStart size)
    -- `resize` makes room for the chunk, `read_slice` fills it
    let ret := ret ++ List.replicate (chunkEnd - chunkStart) 0
    let data ← readExact (chunkEnd - chunkStart)
    let ret ← StateT.lift (copyFromSlice ret chunkStart data)
    readChunks usizeBits chunkSize (len - size) ret
  else return ret
termination_by len

/-- `read_bytes_from_finite_reader`. -/
def readBytesFromFiniteReader (usizeBits len chunkSize : ℕ) : ByteStream IoError Bytes :=
  if chunkSize = 0 then ByteStream.panic "assertion `left != right` failed\n  left: 0\n right: 0"
  else readChunks usizeBits chunkSize len []

/-- `Vec::<u8>::decode`. -/
def decodeBytes (usizeBits : ℕ) : ByteStream IoError (Vec UInt8) := do
  let len ← VarInt.decode
  let bytes ← readBytesFromFiniteReader usizeBits (asUsize usizeBits len.val) (128 * 1024)
  StateT.lift (Vec.ofList bytes)

/-- `Decodable for Vec<u8>`. -/
def decodableBytes (usizeBits : ℕ) : Decodable (Vec UInt8) := .ofDecode (decodeBytes usizeBits)

/-- The bytes that were read replace the zeros. -/
theorem copyFromSlice_zeros {data chunk : Bytes} {size : ℕ} (h : chunk.length = size) :
    (copyFromSlice (data ++ List.replicate size 0) data.length chunk : Outcome IoError Bytes)
      = .ok (data ++ chunk) := by
  rw [copyFromSlice_of_eq (q := List.replicate size 0) (r := []) (by rw [List.append_nil]) rfl
    (by rw [List.length_replicate, h]), List.append_nil]

/-- Reading chunk by chunk is reading at once, as long as the bytes fit in the address
space. -/
theorem accepts_readChunks {usizeBits chunkSize : ℕ} (hchunk : 0 < chunkSize) (len : ℕ)
    (ret : Bytes) (hfits : ret.length + len < 2 ^ usizeBits) :
    Accepts (readChunks usizeBits chunkSize len ret)
      fun a bs => a = ret ++ bs ∧ bs.length = len := by
  induction len using Nat.strong_induction_on generalizing ret with
  | _ len ih =>
      rw [readChunks]
      by_cases hlen : 0 < len
      · have hadd : (addUsize usizeBits ret.length (min len chunkSize) : Outcome IoError ℕ)
            = .ok (ret.length + min len chunkSize) := by
          rw [addUsize, if_pos (by omega)]
        have hsize : ret.length + min len chunkSize - ret.length = min len chunkSize := by omega
        rw [dif_pos ⟨hlen, hchunk⟩]
        simp only [hadd, ByteStream.lift_ok_bind, hsize]
        have hround : ∀ data bs : Bytes, bs = data ∧ data.length = min len chunkSize →
            Accepts (do
              let ret ← StateT.lift (copyFromSlice (ret ++ List.replicate (min len chunkSize) 0)
                ret.length data)
              readChunks usizeBits chunkSize (len - min len chunkSize) ret)
              fun a bs => a = ret ++ data ++ bs ∧ bs.length = len - min len chunkSize := by
          rintro _ data ⟨rfl, hdata⟩
          -- the rest is left to the next rounds
          rw [copyFromSlice_zeros hdata, ByteStream.lift_ok_bind]
          apply ih _ (by omega)
          rw [List.length_append]
          omega
        refine ((accepts_readExact _).bind_of hround).congr ?_
        intro a bs
        constructor
        · rintro ⟨_, data, ds, ⟨rfl, hdata⟩, ⟨rfl, hds⟩, rfl⟩
          rw [List.length_append]
          exact ⟨List.append_assoc .., by omega⟩
        · rintro ⟨rfl, rfl⟩
          refine ⟨bs.take (min bs.length chunkSize), _, bs.drop (min bs.length chunkSize),
            ⟨rfl, ?_⟩, ⟨?_, ?_⟩, ?_⟩
          · rw [List.length_take]
            omega
          · rw [List.append_assoc, List.take_append_drop]
          · rw [List.length_drop]
          · rw [List.take_append_drop]
      · rw [dif_neg (by omega)]
        refine (accepts_pure ret).congr ?_
        intro a bs
        constructor
        · rintro ⟨rfl, rfl⟩
          exact ⟨(List.append_nil a).symm, by rw [List.length_nil]; omega⟩
        · rintro ⟨rfl, rfl⟩
          obtain rfl : bs = [] := List.length_eq_zero_iff.mp (by omega)
          exact ⟨List.append_nil ret, rfl⟩

/-- A byte vector behind an integer that a `usize` takes for its length. -/
def BytesEncoding (usizeBits : ℕ) (v : Vec UInt8) (bs : Bytes) : Prop :=
  ∃ size : VarInt, asUsize usizeBits size.val = v.length ∧ bs = size.wire ++ v.toList

theorem asUsize_lt (usizeBits : ℕ) (n : UInt64) : asUsize usizeBits n < 2 ^ usizeBits :=
  Nat.mod_lt _ (Nat.two_pow_pos _)

/-- The cast never makes a number larger. -/
theorem asUsize_lt_two_pow_64 (usizeBits : ℕ) (n : UInt64) : asUsize usizeBits n < 2 ^ 64 :=
  lt_of_le_of_lt (Nat.mod_le _ _) n.toNat_lt

/-- A byte vector is taken behind its length, as the target sees it. -/
theorem accepts_decodeBytes (usizeBits : ℕ) :
    Accepts (decodeBytes usizeBits) (BytesEncoding usizeBits) := by
  have hbytes : ∀ len : VarInt, Accepts
      (readBytesFromFiniteReader usizeBits (asUsize usizeBits len.val) (128 * 1024))
      fun a bs => a = bs ∧ bs.length = asUsize usizeBits len.val := by
    intro len
    rw [readBytesFromFiniteReader, if_neg (by decide)]
    refine (accepts_readChunks (by decide) _ [] ?_).congr fun a bs => ?_
    · rw [List.length_nil, Nat.zero_add]
      exact asUsize_lt usizeBits len.val
    · rw [List.nil_append]
  -- a vector of that many bytes can be made
  have hvec : ∀ (len : VarInt) (a bs : Bytes), a = bs ∧ bs.length = asUsize usizeBits len.val →
      Accepts (StateT.lift (Vec.ofList a) : ByteStream IoError (Vec UInt8))
        fun v bs => v.toList = a ∧ bs = [] := by
    rintro len bs _ ⟨rfl, hlen⟩
    have hlt : bs.length < 2 ^ 64 := hlen ▸ asUsize_lt_two_pow_64 usizeBits len.val
    rw [show (Vec.ofList bs : Outcome IoError (Vec UInt8)) = .ok ⟨bs, hlt⟩ from
      Vec.ofList_eq_ok_iff.mpr rfl]
    refine (accepts_pure _).congr fun v cs => and_congr_left' ?_
    constructor
    · rintro rfl
      rfl
    · exact fun h => Vec.ext h
  refine (VarInt.accepts_decode.bind fun len => (hbytes len).bind_of (hvec len)).congr ?_
  intro v bs
  constructor
  · rintro ⟨len, _, _, rfl, ⟨_, cs, _, ⟨rfl, hlen⟩, ⟨hv, rfl⟩, rfl⟩, rfl⟩
    refine ⟨len, ?_, ?_⟩
    · rw [← hlen, ← hv]
      rfl
    · rw [List.append_nil, hv]
  · rintro ⟨len, hlen, rfl⟩
    exact ⟨len, _, _, rfl, ⟨v.toList, v.toList, [], ⟨rfl, hlen.symm⟩, ⟨rfl, rfl⟩,
      (List.append_nil _).symm⟩, rfl⟩

/-- On 64 bits a byte vector has one encoding. -/
theorem bytesEncoding_64_iff (v : Vec UInt8) (bs : Bytes) :
    BytesEncoding 64 v bs ↔ bs = vecWire (fun x => [x]) v := by
  have hwire : vecWire (fun x => [x]) v = (VarInt.ofLength v.length).wire ++ v.toList := by
    rw [vecWire, List.flatMap_singleton']
  rw [hwire]
  constructor
  · rintro ⟨size, hsize, rfl⟩
    have hval : asUsize 64 size.val = size.val.toNat := Nat.mod_eq_of_lt size.val.toNat_lt
    have hlen : VarInt.ofLength v.length = size := by
      rw [← hsize, hval, VarInt.ofLength, UInt64.ofNat_toNat]
    rw [hlen]
  · rintro rfl
    refine ⟨VarInt.ofLength v.length, ?_, rfl⟩
    rw [asUsize, VarInt.ofLength, v.toNat_ofNat_length]
    exact Nat.mod_eq_of_lt v.length_lt

end Bitcoin
