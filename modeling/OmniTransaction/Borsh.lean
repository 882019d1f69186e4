/-
# Borsh

The binary format of Borsh as serializers and deserializers over byte streams:
integers in little-endian form, arrays and vectors, strings, options, structures
field by field and enumerations by a tag.  `IsCodec` says that a serializer and a
deserializer are inverse to each other; it has one rule for each way a format is
put together, so that the format of a type is settled along its declaration.
-/
import OmniTransaction.Rust

open ByteOrder Rust

namespace Borsh

variable {ε α β : Type}

/-! ## Codecs -/

/-- The serializer and the deserializer agree: every value that satisfies `P` is
written, and read back in front of anything; and whatever is read satisfies `P`
and is written as the bytes it was read from. -/
structure IsCodec (P : α → Prop) (ser : α → ByteStream IoError Unit)
    (de : ByteStream IoError α) : Prop where
  write : ∀ a, P a → ∃ bs, Writes (ser a) () bs ∧ Reads de a bs
  read : ∀ b a rest, de.run b = .ok (a, rest) →
    P a ∧ ∃ bs, Writes (ser a) () bs ∧ b = bs ++ rest

namespace IsCodec

variable {P P' : α → Prop} {Q : β → Prop} {ser : α → ByteStream IoError Unit}
  {de : ByteStream IoError α} {ser' : β → ByteStream IoError Unit} {de' : ByteStream IoError β}

/-- The good values in other words. -/
theorem congr (h : IsCodec P ser de) (hP : ∀ a, P a ↔ P' a) : IsCodec P' ser de := by
  have heq : P = P' := funext fun a => propext (hP a)
  rwa [← heq]

/-- A deserializer that accepts nothing. -/
theorem never (e : IoError) : IsCodec (fun _ => False) ser (ByteStream.fail e) where
  write _ h := h.elim
  read _ _ _ h := by cases h

/-- A value without content. -/
theorem const (a : α) (hser : ser a = pure ()) :
    IsCodec (fun a' => a' = a) ser (pure a) where
  write := by
    rintro a' rfl
    refine ⟨[], ?_, reads_pure a'⟩
    rw [hser]
    exact writes_pure ()
  read := by
    intro b a' rest h
    obtain ⟨rfl, rfl⟩ := Prod.mk.inj (Outcome.ok.inj h)
    refine ⟨rfl, [], ?_, rfl⟩
    rw [hser]
    exact writes_pure ()

/-- One field `p a`, and then what is left of the value. -/
theorem field {s : α → ByteStream IoError Unit} {d : β → ByteStream IoError α}
    {R : β → α → Prop} (h : IsCodec Q ser' de') (p : α → β) (hrest : ∀ x, IsCodec (R x) s (d x))
    (hp : ∀ x a, R x a → p a = x) :
    IsCodec (fun a => Q (p a) ∧ R (p a) a) (fun a => ser' (p a) >>= fun _ => s a)
      (de' >>= d) where
  write := by
    rintro a ⟨hQ, hR⟩
    obtain ⟨bs, hw, hr⟩ := h.write (p a) hQ
    obtain ⟨cs, hw', hr'⟩ := (hrest (p a)).write a hR
    exact ⟨bs ++ cs, hw.bind hw', hr.bind hr'⟩
  read := by
    intro b a rest hrun
    obtain ⟨x, b', hx, ha⟩ := ByteStream.run_bind_eq_ok_iff.mp hrun
    obtain ⟨hQ, bs, hw, rfl⟩ := h.read _ _ _ hx
    obtain ⟨hR, cs, hw', rfl⟩ := (hrest x).read _ _ _ ha
    -- the rest of the value tells which field it was read with
    obtain rfl := hp x a hR
    exact ⟨⟨hQ, hR⟩, bs ++ cs, hw.bind hw', (List.append_assoc ..).symm⟩

/-- The last field, from which `mk` completes the value. -/
theorem last (h : IsCodec Q ser' de') (p : α → β) (mk : β → α) (hmk : ∀ x, p (mk x) = x) :
    IsCodec (fun a => Q (p a) ∧ mk (p a) = a) (fun a => ser' (p a))
      (de' >>= fun x => pure (mk x)) where
  write := by
    rintro a ⟨hQ, ha⟩
    obtain ⟨bs, hw, hr⟩ := h.write (p a) hQ
    refine ⟨bs, hw, ?_⟩
    have hr' := hr.map mk
    rwa [ha] at hr'
  read := by
    intro b a rest hrun
    obtain ⟨x, hx, rfl⟩ := ByteStream.run_bind_pure_eq_ok_iff.mp hrun
    obtain ⟨hQ, bs, hw, rfl⟩ := h.read _ _ _ hx
    refine ⟨⟨?_, ?_⟩, bs, ?_, rfl⟩
    · rwa [hmk]
    · rw [hmk]
    · rwa [hmk]

/-- A case of an enumeration. -/
theorem variant {s : α → ByteStream IoError Unit} (h : IsCodec Q ser' de') (mk : β → α)
    (hs : ∀ x, s (mk x) = ser' x) :
    IsCodec (fun a => ∃ x, mk x = a ∧ Q x) s (de' >>= fun x => pure (mk x)) where
  write := by
    rintro a ⟨x, rfl, hQ⟩
    obtain ⟨bs, hw, hr⟩ := h.write x hQ
    refine ⟨bs, ?_, hr.map mk⟩
    rwa [hs]
  read := by
    intro b a rest hrun
    obtain ⟨x, hx, rfl⟩ := ByteStream.run_bind_pure_eq_ok_iff.mp hrun
    obtain ⟨hQ, bs, hw, rfl⟩ := h.read _ _ _ hx
    refine ⟨⟨x, rfl, hQ⟩, bs, ?_, rfl⟩
    rwa [hs]

/-- What a deserializer leaves is never longer than what it was given. -/
theorem length_le (h : IsCodec P ser de) {b rest : Bytes} {a : α}
    (hrun : de.run b = .ok (a, rest)) : rest.length ≤ b.length := by
  obtain ⟨-, bs, -, rfl⟩ := h.read _ _ _ hrun
  rw [List.length_append]
  exact Nat.le_add_left ..

end IsCodec

/-! ## Numbers and arrays -/

/-- The text of the error for an input that ends early. -/
def ERROR_UNEXPECTED_LENGTH_OF_INPUT : String := "Unexpected length of input"

/-- `read_exact` with the error Borsh gives for a short input. -/
def readBytes (n : ℕ) : ByteStream IoError Bytes := fun b =>
  ((readExact n).run b).mapErr fun _ => ⟨.InvalidData, ERROR_UNEXPECTED_LENGTH_OF_INPUT⟩

/-- The first `n` bytes are taken. -/
theorem run_readBytes_eq_ok_iff {n : ℕ} {b x rest : Bytes} :
    (readBytes n).run b = .ok (x, rest) ↔ b = x ++ rest ∧ x.length = n := by
  rw [← run_readExact_eq_ok_iff]
  exact Outcome.mapErr_eq_ok_iff

/-- A byte string of known length is its own encoding. -/
theorem isCodec_bytes (n : ℕ) :
    IsCodec (fun x : Bytes => x.length = n) writeAll (readBytes n) where
  write := by
    rintro x rfl
    exact ⟨x, writes_writeAll x, fun rest => run_readBytes_eq_ok_iff.mpr ⟨rfl, rfl⟩⟩
  read := by
    intro b x rest h
    obtain ⟨rfl, hlen⟩ := run_readBytes_eq_ok_iff.mp h
    exact ⟨hlen, x, writes_writeAll x, rfl⟩

/-- A decision on a value that was read. -/
def check (f : β → Option α) (e : β → IoError) (x : β) : ByteStream IoError α :=
  match f x with
  | some a => pure a
  | none => .fail (e x)

/-- A value in the form `g a`, which `f` recognizes. -/
theorem IsCodec.checked {Q : β → Prop} {ser : β → ByteStream IoError Unit}
    {de : ByteStream IoError β} (h : IsCodec Q ser de) {f : β → Option α} (g : α → β)
    (e : β → IoError) (hfg : ∀ x a, f x = some a ↔ g a = x) :
    IsCodec (fun a => Q (g a)) (fun a => ser (g a)) (de >>= check f e) where
  write := by
    intro a hQ
    obtain ⟨bs, hw, hr⟩ := h.write (g a) hQ
    have hcheck : Reads (check f e (g a)) a [] := by
      rw [check, (hfg _ a).mpr rfl]
      exact reads_pure a
    refine ⟨bs, hw, ?_⟩
    have hr' := hr.bind hcheck
    rwa [List.append_nil] at hr'
  read := by
    intro b a rest hrun
    obtain ⟨x, b', hx, ha⟩ := ByteStream.run_bind_eq_ok_iff.mp hrun
    unfold check at ha
    split at ha
    · rename_i a' hf
      obtain ⟨rfl, rfl⟩ := Prod.mk.inj (Outcome.ok.inj ha)
      obtain rfl := (hfg x a').mp hf
      exact h.read _ _ _ hx
    · cases ha

/-- A number of `k` bytes. -/
def serializeInt (k : ℕ) (toNat : α → ℕ) (a : α) : ByteStream IoError Unit :=
  writeAll (leBytes k (toNat a))

/-- A number of `k` bytes, the low one first. -/
def deserializeInt (k : ℕ) (ofNat : ℕ → α) : ByteStream IoError α := do
  let b ← readBytes k
  return ofNat (ofLeBytes b)

/-- Every value below `256 ^ k` is read back. -/
theorem isCodec_int (k : ℕ) {toNat : α → ℕ} {ofNat : ℕ → α} (hlt : ∀ a, toNat a < 256 ^ k)
    (hof : ∀ a, ofNat (toNat a) = a) (hto : ∀ n, n < 256 ^ k → toNat (ofNat n) = n) :
    IsCodec (fun _ => True) (serializeInt k toNat) (deserializeInt k ofNat) where
  write := by
    intro a _
    refine ⟨leBytes k (toNat a), writes_writeAll _, ?_⟩
    have hread : Reads (readBytes k) (leBytes k (toNat a)) (leBytes k (toNat a)) := fun rest =>
      run_readBytes_eq_ok_iff.mpr ⟨rfl, length_leBytes ..⟩
    have h := hread.map fun b => ofNat (ofLeBytes b)
    rwa [ofLeBytes_leBytes_of_lt (hlt a), hof] at h
  read := by
    intro b a rest hrun
    obtain ⟨x, hx, rfl⟩ := ByteStream.run_bind_pure_eq_ok_iff.mp hrun
    obtain ⟨rfl, rfl⟩ := run_readBytes_eq_ok_iff.mp hx
    -- the number is small enough to be written as it was read
    have hbytes : leBytes x.length (toNat (ofNat (ofLeBytes x))) = x := by
      rw [hto _ (ofLeBytes_lt x), leBytes_ofLeBytes]
    refine ⟨trivial, x, ?_, rfl⟩
    rw [serializeInt, hbytes]
    exact writes_writeAll x

/-! ### `u8`, `u32`, `u64`, `u128` -/

/-- `BorshSerialize for u8`. -/
def serializeU8 : UInt8 → ByteStream IoError Unit := serializeInt 1 UInt8.toNat

/-- `BorshDeserialize for u8`. -/
def deserializeU8 : ByteStream IoError UInt8 := deserializeInt 1 UInt8.ofNat

theorem isCodec_u8 : IsCodec (fun _ => True) serializeU8 deserializeU8 :=
  isCodec_int 1 (fun v => v.toNat_lt) (fun _ => UInt8.ofNat_toNat)
    fun _ h => UInt8.toNat_ofNat_of_lt' h

/-- `BorshSerialize for u32`. -/
def serializeU32 : UInt32 → ByteStream IoError Unit := serializeInt 4 UInt32.toNat

/-- `BorshDeserialize for u32`. -/
def deserializeU32 : ByteStream IoError UInt32 := deserializeInt 4 UInt32.ofNat

theorem isCodec_u32 : IsCodec (fun _ => True) serializeU32 deserializeU32 :=
  isCodec_int 4 (fun v => v.toNat_lt) (fun _ => UInt32.ofNat_toNat)
    fun _ h => UInt32.toNat_ofNat_of_lt' h

/-- `BorshSerialize for u64`. -/
def serializeU64 : UInt64 → ByteStream IoError Unit := serializeInt 8 UInt64.toNat

/-- `BorshDeserialize for u64`. -/
def deserializeU64 : ByteStream IoError UInt64 := deserializeInt 8 UInt64.ofNat

theorem isCodec_u64 : IsCodec (fun _ => True) serializeU64 deserializeU64 :=
  isCodec_int 8 (fun v => v.toNat_lt) (fun _ => UInt64.ofNat_toNat)
    fun _ h => UInt64.toNat_ofNat_of_lt' h

/-- `BorshSerialize for u128`. -/
def serializeU128 : UInt128 → ByteStream IoError Unit := serializeInt 16 BitVec.toNat

/-- `BorshDeserialize for u128`. -/
def deserializeU128 : ByteStream IoError UInt128 := deserializeInt 16 (BitVec.ofNat 128)

theorem isCodec_u128 : IsCodec (fun _ => True) serializeU128 deserializeU128 :=
  isCodec_int 16 (fun v => v.isLt) (fun v => BitVec.ofNat_toNat 128 v ▸ BitVec.setWidth_eq v)
    fun _ h => by rw [BitVec.toNat_ofNat]; exact Nat.mod_eq_of_lt h

/-! ### `usize` -/

/-- `usize`, which is written as a `u64`. -/
def serializeUsize (n : ℕ) : ByteStream IoError Unit := serializeU64 (UInt64.ofNat n)

/-- The text of the error for a `usize` that does not fit. -/
def ERROR_OVERFLOW_ON_MACHINE_WITH_32_BIT_USIZE : String := "Overflow on machine with 32 bit usize"

/-- A `u64` as a `usize` of `usizeBits` bits. -/
def deserializeUsize (usizeBits : ℕ) : ByteStream IoError ℕ := do
  let u ← deserializeU64
  if u.toNat < 2 ^ usizeBits then return u.toNat
  else .fail ⟨.InvalidInput, ERROR_OVERFLOW_ON_MACHINE_WITH_32_BIT_USIZE⟩

/-- A `usize` has eight bytes on every target and must fit there. -/
theorem isCodec_usize (usizeBits : ℕ) :
    IsCodec (fun n => n < 2 ^ 64 ∧ n < 2 ^ usizeBits) serializeUsize
      (deserializeUsize usizeBits) where
  write := by
    rintro n ⟨h64, hn⟩
    obtain ⟨bs, hw, hr⟩ := isCodec_u64.write (UInt64.ofNat n) trivial
    have hnat : (UInt64.ofNat n).toNat = n := UInt64.toNat_ofNat_of_lt' h64
    have hcheck : Reads (if (UInt64.ofNat n).toNat < 2 ^ usizeBits then
        pure (UInt64.ofNat n).toNat
        else ByteStream.fail ⟨.InvalidInput, ERROR_OVERFLOW_ON_MACHINE_WITH_32_BIT_USIZE⟩ :
        ByteStream IoError ℕ) n [] := by
      rw [hnat, if_pos hn]
      exact reads_pure n
    refine ⟨bs, hw, ?_⟩
    have hr' : Reads (deserializeUsize usizeBits) n (bs ++ []) := hr.bind hcheck
    rwa [List.append_nil] at hr'
  read := by
    intro b n rest hrun
    obtain ⟨u, b', hu, hn⟩ := ByteStream.run_bind_eq_ok_iff.mp hrun
    split_ifs at hn with hlt
    · obtain ⟨rfl, rfl⟩ := Prod.mk.inj (Outcome.ok.inj hn)
      obtain ⟨-, bs, hw, rfl⟩ := isCodec_u64.read _ _ _ hu
      refine ⟨⟨u.toNat_lt, hlt⟩, bs, ?_, rfl⟩
      rwa [serializeUsize, UInt64.ofNat_toNat]
    · cases hn

/-! ### Arrays -/

/-- `[u8; n]`. -/
def serializeArray {n : ℕ} (a : FixedBytes n) : ByteStream IoError Unit := writeAll a.toList

/-- The check never fails: it is given `n` bytes. -/
def deserializeArray (n : ℕ) : ByteStream IoError (FixedBytes n) :=
  readBytes n >>= check (toArray n) fun _ => ⟨.InvalidData, ERROR_UNEXPECTED_LENGTH_OF_INPUT⟩

theorem isCodec_array (n : ℕ) :
    IsCodec (fun _ => True) (serializeArray (n := n)) (deserializeArray n) :=
  ((isCodec_bytes n).checked List.Vector.toList _ toArray_eq_some_iff).congr fun a =>
    iff_true_intro a.toList_length

/-! ## Vectors and strings -/

/-- The elements one after another. -/
def serializeEach (ser : α → ByteStream IoError Unit) : List α → ByteStream IoError Unit
  | [] => pure ()
  | a :: l => do
    ser a
    serializeEach ser l

/-- So many elements, one after the other. -/
def deserializeEach (de : ByteStream IoError α) : ℕ → ByteStream IoError (List α)
  | 0 => pure []
  | n + 1 => do
    let a ← de
    let l ← deserializeEach de n
    return a :: l

/-- The length of a vector, which must fit in a `u32`. -/
def serializeLength (n : ℕ) : ByteStream IoError Unit :=
  if n < 2 ^ 32 then serializeU32 (UInt32.ofNat n)
  else .fail ⟨.InvalidData, "invalid data"⟩

/-- The length in front of a vector or a string. -/
def deserializeLength : ByteStream IoError ℕ := do
  let len ← deserializeU32
  return len.toNat

/-- `Vec<T>`. -/
def serializeVec (ser : α → ByteStream IoError Unit) (l : List α) : ByteStream IoError Unit := do
  serializeLength l.length
  serializeEach ser l

/-- `BorshDeserialize for Vec<T>`. -/
def deserializeVec (de : ByteStream IoError α) : ByteStream IoError (List α) := do
  let len ← deserializeLength
  deserializeEach de len

/-- `Vec<u8>`, which is written and read as one piece. -/
def serializeBytes (b : Bytes) : ByteStream IoError Unit := do
  serializeLength b.length
  writeAll b

def deserializeBytes : ByteStream IoError Bytes := do
  let len ← deserializeLength
  readBytes len

/-- `String::from_utf8`. -/
def fromUtf8 (b : Bytes) : Option String := String.fromUTF8? ⟨b.toArray⟩

/-- `as_bytes`. -/
def asBytes (s : String) : Bytes := s.toUTF8.data.toList

/-- `String`. -/
def serializeString (s : String) : ByteStream IoError Unit := serializeBytes (asBytes s)

/-- `BorshDeserialize for String`: bytes that must be UTF-8. -/
def deserializeString : ByteStream IoError String :=
  deserializeBytes >>= check fromUtf8 fun _ => ⟨.InvalidData, "invalid utf-8 sequence"⟩

/-- Elements are read back one by one; by induction along the list. -/
theorem isCodec_each {P : α → Prop} {ser : α → ByteStream IoError Unit}
    {de : ByteStream IoError α} (h : IsCodec P ser de) (n : ℕ) :
    IsCodec (fun l => l.length = n ∧ ∀ a ∈ l, P a) (serializeEach ser) (deserializeEach de n) := by
  induction n with
  | zero =>
    refine (IsCodec.const [] rfl).congr fun l => ?_
    rw [List.length_eq_zero_iff]
    exact ⟨by rintro rfl; simp, And.left⟩
  | succ n ih =>
    constructor
    · rintro l ⟨hlen, hl⟩
      obtain ⟨a, l, rfl⟩ := List.exists_cons_of_length_eq_add_one hlen
      obtain ⟨bs, hw, hr⟩ := h.write a (hl a List.mem_cons_self)
      obtain ⟨cs, hw', hr'⟩ := ih.write l
        ⟨Nat.succ.inj hlen, fun x hx => hl x (List.mem_cons_of_mem a hx)⟩
      exact ⟨bs ++ cs, hw.bind hw', hr.bind (hr'.map (List.cons a))⟩
    · intro b l rest hrun
      obtain ⟨a, b₁, ha, hrun⟩ := ByteStream.run_bind_eq_ok_iff.mp hrun
      obtain ⟨l', hl', rfl⟩ := ByteStream.run_bind_pure_eq_ok_iff.mp hrun
      obtain ⟨hP, bs, hw, rfl⟩ := h.read _ _ _ ha
      obtain ⟨⟨hlen, hP'⟩, cs, hw', rfl⟩ := ih.read _ _ _ hl'
      refine ⟨⟨congrArg Nat.succ hlen, ?_⟩, bs ++ cs, hw.bind hw', (List.append_assoc ..).symm⟩
      exact List.forall_mem_cons.mpr ⟨hP, hP'⟩

/-- A length that fits in four bytes is read back. -/
theorem isCodec_length : IsCodec (fun n => n < 2 ^ 32) serializeLength deserializeLength where
  write := by
    intro n hn
    obtain ⟨bs, hw, hr⟩ := isCodec_u32.write (UInt32.ofNat n) trivial
    refine ⟨bs, ?_, ?_⟩
    · rwa [serializeLength, if_pos hn]
    · have hr' := hr.map UInt32.toNat
      rwa [UInt32.toNat_ofNat_of_lt' hn] at hr'
  read := by
    intro b n rest hrun
    obtain ⟨len, hlen, rfl⟩ := ByteStream.run_bind_pure_eq_ok_iff.mp hrun
    obtain ⟨-, bs, hw, rfl⟩ := isCodec_u32.read _ _ _ hlen
    refine ⟨len.toNat_lt, bs, ?_, rfl⟩
    rwa [serializeLength, if_pos len.toNat_lt, UInt32.ofNat_toNat]

/-- A vector is read back when its length fits and its elements are. -/
theorem isCodec_vec {P : α → Prop} {ser : α → ByteStream IoError Unit}
    {de : ByteStream IoError α} (h : IsCodec P ser de) :
    IsCodec (fun l => l.length < 2 ^ 32 ∧ ∀ a ∈ l, P a) (serializeVec ser)
      (deserializeVec de) := by
  refine (isCodec_length.field List.length (isCodec_each h) ?_).congr ?_
  · intro n l hl
    exact hl.1
  · intro l
    simp

/-- Bytes are read back when their length fits. -/
theorem isCodec_vecU8 :
    IsCodec (fun b => b.length < 2 ^ 32) serializeBytes deserializeBytes := by
  refine (isCodec_length.field List.length isCodec_bytes ?_).congr ?_
  · intro n b hb
    exact hb
  · intro b
    simp

/-- A list as a vector. -/
def asVec (de : ByteStream IoError (List α)) : ByteStream IoError (Vec α) := do
  let l ← de
  StateT.lift (Vec.ofList l)

/-- A list that fits is short enough to be a `Vec`. -/
theorem IsCodec.asVec {P : List α → Prop} {ser : List α → ByteStream IoError Unit}
    {de : ByteStream IoError (List α)} (h : IsCodec P ser de) :
    IsCodec (fun v : Vec α => P v.toList) (fun v => ser v.toList) (Borsh.asVec de) where
  write := by
    intro v hP
    obtain ⟨bs, hw, hr⟩ := h.write v.toList hP
    have hvec : Reads (StateT.lift (Vec.ofList v.toList) : ByteStream IoError (Vec α)) v [] :=
      fun rest => ByteStream.run_lift_eq_ok_iff.mpr ⟨Vec.ofList_eq_ok_iff.mpr rfl, rfl⟩
    refine ⟨bs, hw, ?_⟩
    have hr' : Reads (Borsh.asVec de) v (bs ++ []) := hr.bind hvec
    rwa [List.append_nil] at hr'
  read := by
    intro b v rest hrun
    obtain ⟨l, b', hl, hlift⟩ := ByteStream.run_bind_eq_ok_iff.mp hrun
    obtain ⟨hv, rfl⟩ := ByteStream.run_lift_eq_ok_iff.mp hlift
    obtain rfl := Vec.ofList_eq_ok_iff.mp hv
    exact h.read _ _ _ hl

/-- Bytes are the UTF-8 form of one string at most. -/
theorem fromUtf8_eq_some_iff (b : Bytes) (s : String) : fromUtf8 b = some s ↔ asBytes s = b := by
  unfold fromUtf8 String.fromUTF8?
  constructor
  · intro h
    split_ifs at h
    rw [← Option.some.inj h]
    rfl
  · rintro rfl
    have hbytes : (⟨(asBytes s).toArray⟩ : ByteArray) = s.toByteArray := rfl
    rw [dif_pos (hbytes ▸ s.isValidUTF8)]
    exact congrArg some (String.toByteArray_inj.mp hbytes)

/-- A string is read back when its length in bytes fits. -/
theorem isCodec_string :
    IsCodec (fun s => (asBytes s).length < 2 ^ 32) serializeString deserializeString :=
  isCodec_vecU8.checked asBytes _ fromUtf8_eq_some_iff

/-! ## Options and enumerations -/

/-- `Option<T>`: the content after the flag. -/
def serializeSome (ser : α → ByteStream IoError Unit) : Option α → ByteStream IoError Unit
  | none => pure ()
  | some a => ser a

/-- `BorshSerialize for Option<T>`. -/
def serializeOption (ser : α → ByteStream IoError Unit) (o : Option α) :
    ByteStream IoError Unit := do
  serializeU8 (if o.isSome then 1 else 0)
  serializeSome ser o

def deserializeSome (de : ByteStream IoError α) (flag : UInt8) : ByteStream IoError (Option α) :=
  if flag = 0 then return none
  else if flag = 1 then do
    let a ← de
    return some a
  else .fail ⟨.InvalidData,
    s!"Invalid Option representation: {flag}. The first byte must be 0 or 1"⟩

/-- `BorshDeserialize for Option<T>`. -/
def deserializeOption (de : ByteStream IoError α) : ByteStream IoError (Option α) := do
  let flag ← deserializeU8
  deserializeSome de flag

theorem isCodec_option {P : α → Prop} {ser : α → ByteStream IoError Unit}
    {de : ByteStream IoError α} (h : IsCodec P ser de) :
    IsCodec (fun o => ∀ a ∈ o, P a) (serializeOption ser) (deserializeOption de) := by
  have hcontent : ∀ flag, IsCodec
      (fun o => (if Option.isSome o then (1 : UInt8) else 0) = flag ∧ ∀ a ∈ o, P a)
      (serializeSome ser) (deserializeSome de flag) := by
    intro flag
    unfold deserializeSome
    split_ifs with h₀ h₁
    · refine (IsCodec.const none rfl).congr ?_
      rintro (_ | a) <;> simp [h₀]
    · refine (h.variant some fun _ => rfl).congr ?_
      rintro (_ | a) <;> simp [h₁]
    -- no value has a flag other than 0 and 1
    · refine (IsCodec.never _).congr ?_
      rintro (_ | a) <;> simp [eq_comm, h₀, h₁]
  refine (isCodec_u8.field _ hcontent fun _ _ h => h.1).congr ?_
  simp

/-- The tag of an enumeration, the number of the variant. -/
def serializeTag (n : ℕ) : ByteStream IoError Unit := serializeU8 (UInt8.ofNat n)

def deserializeTag : ByteStream IoError ℕ := do
  let tag ← deserializeU8
  return tag.toNat

/-- The error of a tag that no variant has. -/
def unexpectedTag (tag : ℕ) : ByteStream IoError α :=
  .fail ⟨.InvalidData, s!"Unexpected variant tag: {tag}"⟩

/-- A tag is the first byte of its input. -/
theorem eq_cons_of_run_deserializeTag {b rest : Bytes} {tag : ℕ}
    (h : deserializeTag.run b = .ok (tag, rest)) : ∃ v, b = v :: rest ∧ v.toNat = tag := by
  obtain ⟨v, hv, rfl⟩ := ByteStream.run_bind_pure_eq_ok_iff.mp h
  obtain ⟨x, hx, rfl⟩ := ByteStream.run_bind_pure_eq_ok_iff.mp hv
  obtain ⟨rfl, hlen⟩ := run_readBytes_eq_ok_iff.mp hx
  obtain ⟨v, rfl⟩ := List.length_eq_one_iff.mp hlen
  exact ⟨v, rfl, congrArg UInt8.toNat UInt8.ofNat_toNat.symm⟩

theorem isCodec_tag : IsCodec (fun n => n < 256) serializeTag deserializeTag where
  write := by
    intro n hn
    obtain ⟨bs, hw, hr⟩ := isCodec_u8.write (UInt8.ofNat n) trivial
    have hr' := hr.map UInt8.toNat
    rw [UInt8.toNat_ofNat_of_lt' hn] at hr'
    exact ⟨bs, hw, hr'⟩
  read := by
    intro b n rest hrun
    obtain ⟨tag, htag, rfl⟩ := ByteStream.run_bind_pure_eq_ok_iff.mp hrun
    obtain ⟨-, bs, hw, rfl⟩ := isCodec_u8.read _ _ _ htag
    refine ⟨tag.toNat_lt, bs, ?_, rfl⟩
    rwa [serializeTag, UInt8.ofNat_toNat]

/-- An enumeration: its tag, and the content of the variant with that tag. -/
theorem IsCodec.tagged {P : α → Prop} {s : α → ByteStream IoError Unit}
    {d : ℕ → ByteStream IoError α} (tag : α → ℕ) (htag : ∀ a, tag a < 256)
    (h : ∀ n, IsCodec (fun a => tag a = n ∧ P a) s (d n)) :
    IsCodec P (fun a => serializeTag (tag a) >>= fun _ => s a) (deserializeTag >>= d) := by
  refine (isCodec_tag.field tag h fun _ _ h => h.1).congr fun a => ?_
  simp [htag a]

/-! ## Complete inputs -/

/-- `borsh::to_vec`. -/
def toVec (m : ByteStream IoError Unit) : Outcome IoError Bytes := do
  let r ← m.run []
  return r.2

/-- `try_from_slice`. -/
def tryFromSlice (de : ByteStream IoError α) (b : Bytes) : Outcome IoError α := do
  let r ← de.run b
  if r.2 = [] then return r.1 else .err ⟨.InvalidData, "Not all bytes read"⟩

/-- What is written is the vector. -/
theorem toVec_of_writes {m : ByteStream IoError Unit} {bs : Bytes} (h : Writes m () bs) :
    toVec m = .ok bs := by
  rw [toVec, h []]
  rfl

theorem tryFromSlice_eq_ok_iff {de : ByteStream IoError α} {b : Bytes} {a : α} :
    tryFromSlice de b = .ok a ↔ de.run b = .ok (a, []) := by
  unfold tryFromSlice
  rw [Outcome.bind_eq_ok_iff]
  constructor
  · rintro ⟨⟨a', rest⟩, hrun, h⟩
    split_ifs at h with hrest
    rw [hrun, ← Outcome.ok.inj h, ← hrest]
  · intro h
    exact ⟨(a, []), h, rfl⟩

/-- The bytes of a good value are those that are read as it. -/
theorem IsCodec.toVec_eq_ok_iff {P : α → Prop} {ser : α → ByteStream IoError Unit}
    {de : ByteStream IoError α} (h : IsCodec P ser de) {a : α} (ha : P a) {bs : Bytes} :
    toVec (ser a) = .ok bs ↔ Writes (ser a) () bs ∧ Reads de a bs := by
  obtain ⟨cs, hw, hr⟩ := h.write a ha
  rw [toVec_of_writes hw, Outcome.ok.injEq]
  constructor
  · rintro rfl
    exact ⟨hw, hr⟩
  · intro h'
    exact hw.unique h'.1

/-- The deserializer accepts exactly the inputs that start with what the
serializer writes. -/
theorem IsCodec.run_eq_ok_iff {P : α → Prop} {ser : α → ByteStream IoError Unit}
    {de : ByteStream IoError α} (h : IsCodec P ser de) {b rest : Bytes} {a : α} :
    de.run b = .ok (a, rest) ↔ P a ∧ ∃ bs, toVec (ser a) = .ok bs ∧ b = bs ++ rest := by
  constructor
  · intro hrun
    obtain ⟨hP, bs, hw, rfl⟩ := h.read _ _ _ hrun
    exact ⟨hP, bs, toVec_of_writes hw, rfl⟩
  · rintro ⟨hP, bs, hbs, rfl⟩
    exact ((h.toVec_eq_ok_iff hP).mp hbs).2 rest

/-- The bytes of a value. -/
theorem IsCodec.exists_toVec {P : α → Prop} {ser : α → ByteStream IoError Unit}
    {de : ByteStream IoError α} (h : IsCodec P ser de) {a : α} (ha : P a) :
    ∃ bs, toVec (ser a) = .ok bs ∧ Reads de a bs := by
  obtain ⟨bs, hw, hr⟩ := h.write a ha
  exact ⟨bs, toVec_of_writes hw, hr⟩

/-- Values with the same bytes are the same. -/
theorem IsCodec.eq_of_toVec_eq {P : α → Prop} {ser : α → ByteStream IoError Unit}
    {de : ByteStream IoError α} (h : IsCodec P ser de) {a a' : α} (ha : P a) (ha' : P a')
    (heq : toVec (ser a) = toVec (ser a')) : a = a' := by
  obtain ⟨bs, hbs, hr⟩ := h.exists_toVec ha
  obtain ⟨bs', hbs', hr'⟩ := h.exists_toVec ha'
  obtain rfl := Outcome.ok.inj (hbs.symm.trans (heq.trans hbs'))
  exact (Prod.mk.inj (Outcome.ok.inj ((hr []).symm.trans (hr' [])))).1

/-! ## Places in an input -/

/-- What `f` finds in the rest of an input that starts with a value. -/
def after (m : ByteStream ε α) (f : α → Bytes → List Bytes) (b : Bytes) : List Bytes :=
  match m.run b with
  | .ok (a, rest) => f a rest
  | _ => []

/-- Behind a part that is read, the inputs are those of the next one. -/
theorem after_of_run {m : ByteStream ε α} {b rest : Bytes} {a : α} (h : m.run b = .ok (a, rest))
    (f : α → Bytes → List Bytes) : after m f b = f a rest := by
  rw [after, h]

/-- The inputs from which the elements are read. -/
def elementInputs (de : ByteStream ε α) : ℕ → Bytes → List Bytes
  | 0, _ => []
  | n + 1, b => b :: after de (fun _ => elementInputs de n) b

/-- What can be told of an element from its input can be told of all elements from
theirs. -/
theorem forall_elementInputs_iff {de : ByteStream IoError α} {p : α → Prop} {q : Bytes → Prop}
    (hpq : ∀ b a rest, de.run b = .ok (a, rest) → (p a ↔ q b)) {n : ℕ} {b rest : Bytes}
    {l : List α} (h : (deserializeEach de n).run b = .ok (l, rest)) :
    (∀ a ∈ l, p a) ↔ ∀ i ∈ elementInputs de n b, q i := by
  induction n generalizing b l with
  | zero =>
    obtain ⟨rfl, -⟩ := Prod.mk.inj (Outcome.ok.inj h)
    simp [elementInputs]
  | succ n ih =>
    obtain ⟨a, b', ha, h⟩ := ByteStream.run_bind_eq_ok_iff.mp h
    obtain ⟨l', hl', rfl⟩ := ByteStream.run_bind_pure_eq_ok_iff.mp h
    rw [elementInputs, after_of_run ha, List.forall_mem_cons, List.forall_mem_cons,
      hpq b a b' ha, ih hl']

/-! ## Bounded inputs -/

/-- The two deserializers agree on inputs shorter than `n`. -/
def AgreeBelow (n : ℕ) (m m' : ByteStream ε α) : Prop :=
  ∀ b, b.length < n → m.run b = m'.run b

/-- What the deserializer leaves is no longer than what it was given. -/
def Consumes (m : ByteStream ε α) : Prop :=
  ∀ b a rest, m.run b = .ok (a, rest) → rest.length ≤ b.length

/-- A reader with a codec leaves no more than it was given. -/
theorem IsCodec.consumes {P : α → Prop} {ser : α → ByteStream IoError Unit}
    {de : ByteStream IoError α} (h : IsCodec P ser de) : Consumes de :=
  fun _ _ _ hrun => h.length_le hrun

theorem AgreeBelow.mono {n k : ℕ} {m m' : ByteStream ε α} (h : AgreeBelow n m m') (hk : k ≤ n) :
    AgreeBelow k m m' :=
  fun b hb => h b (hb.trans_le hk)

theorem AgreeBelow.refl (n : ℕ) (m : ByteStream ε α) : AgreeBelow n m m := fun _ _ => rfl

/-- If the first parts agree, and consume at least `k` bytes, the second parts
need only agree on inputs shorter by `k`. -/
theorem AgreeBelow.bind {n k : ℕ} {m m' : ByteStream ε α} {f f' : α → ByteStream ε β}
    (hm : AgreeBelow (n + k) m m')
    (hk : ∀ b a rest, m.run b = .ok (a, rest) → rest.length + k ≤ b.length)
    (hf : ∀ a, AgreeBelow n (f a) (f' a)) : AgreeBelow (n + k) (m >>= f) (m' >>= f') := by
  intro b hb
  rw [StateT.run_bind, StateT.run_bind, ← hm b hb]
  cases hrun : m.run b with
  | ok r =>
    obtain ⟨a, rest⟩ := r
    have hlen := hk b a rest hrun
    -- what is left is shorter by `k`, so the second parts agree on it
    exact hf a rest (by omega)
  | err e => rfl
  | panic msg => rfl

/-- The same first part. -/
theorem AgreeBelow.bind_left {n : ℕ} {m : ByteStream ε α} {f f' : α → ByteStream ε β}
    (hm : Consumes m) (hf : ∀ a, AgreeBelow n (f a) (f' a)) :
    AgreeBelow n (m >>= f) (m >>= f') :=
  AgreeBelow.bind (k := 0) (AgreeBelow.refl n m) hm hf

/-- The same last part. -/
theorem AgreeBelow.bind_right {n : ℕ} {m m' : ByteStream ε α} (hm : AgreeBelow n m m')
    (f : α → ByteStream ε β) : AgreeBelow n (m >>= f) (m' >>= f) := by
  intro b hb
  rw [StateT.run_bind, StateT.run_bind, hm b hb]

/-- A tag leaves one byte less. -/
theorem AgreeBelow.tagged {n : ℕ} {f f' : ℕ → ByteStream IoError α}
    (hf : ∀ tag, AgreeBelow n (f tag) (f' tag)) :
    AgreeBelow (n + 1) (deserializeTag >>= f) (deserializeTag >>= f') := by
  refine AgreeBelow.bind (AgreeBelow.refl _ _) ?_ hf
  intro b tag rest hrun
  obtain ⟨v, rfl, -⟩ := eq_cons_of_run_deserializeTag hrun
  exact le_rfl

/-- Elements one after the other; each of them has a shorter input. -/
theorem AgreeBelow.each {n : ℕ} {de de' : ByteStream IoError α} (h : AgreeBelow n de de')
    (hde : Consumes de) (len : ℕ) :
    AgreeBelow n (deserializeEach de len) (deserializeEach de' len) := by
  induction len with
  | zero => exact AgreeBelow.refl _ _
  | succ len ih =>
    refine AgreeBelow.bind (k := 0) h hde fun a => ?_
    exact ih.bind_right _

theorem AgreeBelow.vec {n : ℕ} {de de' : ByteStream IoError α} (h : AgreeBelow n de de')
    (hde : Consumes de) : AgreeBelow n (deserializeVec de) (deserializeVec de') :=
  AgreeBelow.bind_left isCodec_length.consumes (h.each hde)

/-- A recursive deserializer on as much fuel as the input can use up. -/
def withFuel (de : ℕ → ByteStream ε α) : ByteStream ε α := fun b => (de (b.length + 1)).run b

/-- More fuel than bytes makes no difference to `withFuel`. -/
theorem run_withFuel {de : ℕ → ByteStream ε α} (hde : ∀ n m, n ≤ m → AgreeBelow n (de n) (de m))
    {b : Bytes} {n : ℕ} (hn : b.length < n) : (withFuel de).run b = (de n).run b :=
  hde (b.length + 1) n hn b (Nat.lt_succ_self _)

/-- If fuel `n` is enough for exactly the values of depth at most `n`, the fuel
that the input gives is enough for every value. -/
theorem IsCodec.withFuel {P : α → Prop} {ser : α → ByteStream IoError Unit}
    {de : ℕ → ByteStream IoError α} (depth : α → ℕ)
    (h : ∀ n, IsCodec (fun a => P a ∧ depth a ≤ n) ser (de n))
    (hde : ∀ n m, n ≤ m → AgreeBelow n (de n) (de m)) : IsCodec P ser (withFuel de) where
  write := by
    intro a hP
    obtain ⟨bs, hw, -⟩ := (h (depth a)).write a ⟨hP, le_rfl⟩
    refine ⟨bs, hw, fun rest => ?_⟩
    -- the input may give less fuel than the depth of the value: compare both at the larger
    have hfuel : (bs ++ rest).length < max (depth a) ((bs ++ rest).length + 1) :=
      lt_of_lt_of_le (Nat.lt_succ_self _) (le_max_right _ _)
    obtain ⟨bs', hw', hr⟩ := (h (max (depth a) ((bs ++ rest).length + 1))).write a
      ⟨hP, le_max_left _ _⟩
    obtain rfl := hw.unique hw'
    rw [run_withFuel hde hfuel]
    exact hr rest
  read := by
    intro b a rest hrun
    obtain ⟨⟨hP, -⟩, hbs⟩ := (h (b.length + 1)).read b a rest hrun
    exact ⟨hP, hbs⟩

end Borsh
