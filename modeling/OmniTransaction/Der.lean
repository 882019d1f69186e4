/-
# Strict DER signatures

The form of an ECDSA signature that BIP-66 prescribes: a sequence of two integers,
each in the shortest big-endian form whose top bit is clear, with lengths of one
byte, and the sighash type behind it.  The strict parser accepts exactly these
strings and returns the integers (`parseSignature_eq_some_iff`).
-/
import Mathlib.Data.Nat.Bitwise
import OmniTransaction.ByteOrder

open ByteOrder

namespace Der

/-- The top bit of a byte is set. -/
def topBit (x : UInt8) : Bool := x &&& 0x80 != 0

/-- The top bit is set from 128 on. -/
theorem topBit_iff (x : UInt8) : topBit x = true ↔ 128 ≤ x.toNat := by
  have hlt := x.toNat_lt
  have hand : x.toNat &&& 128 = (x.toNat.testBit 7).toNat * 128 := Nat.and_two_pow x.toNat 7
  have hbit : x.toNat.testBit 7 = decide (x.toNat / 128 % 2 = 1) :=
    Nat.testBit_eq_decide_div_mod_eq
  rw [topBit, bne_iff_ne, ne_eq, ← UInt8.toNat_inj, UInt8.toNat_and]
  show ¬ x.toNat &&& 128 = 0 ↔ _
  rw [hand, hbit]
  rcases Nat.mod_two_eq_zero_or_one (x.toNat / 128) with hmod | hmod
  · rw [hmod, show decide (0 = 1) = false from rfl, Bool.toNat_false]
    omega
  · rw [hmod, decide_eq_true rfl, Bool.toNat_true]
    omega

theorem topBit_zero : topBit 0 = false := rfl

/-! ## Integers -/

/-- The contents of an integer: its minimal big-endian form, with a zero byte in front
exactly when the next byte has its top bit set.  Zero is one zero byte. -/
def contents (n : ℕ) : Bytes :=
  match minimalBe n with
  | [] => [0]
  | x :: b => if topBit x then 0 :: x :: b else x :: b

/-- `0x02`, the length and the contents. -/
def integer (n : ℕ) : Bytes := 0x02 :: UInt8.ofNat (contents n).length :: contents n

/-- What BIP-66 asks of the contents of an integer: there is a first byte, its top bit is
clear, and it is zero only when nothing follows or the next byte has its top bit set. -/
def Strict : Bytes → Bool
  | [] => false
  | [x] => !topBit x
  | x :: y :: _ => !topBit x && (x != 0 || topBit y)

/-- The zero in front does not change the number. -/
theorem ofBeBytes_contents (n : ℕ) : ofBeBytes (contents n) = n := by
  have hval := ofBeBytes_minimalBe n
  unfold contents
  split
  · rename_i hnil
    rw [hnil] at hval
    exact hval
  · rename_i x b hcons
    rw [hcons] at hval
    split_ifs
    · rw [ofBeBytes_cons, UInt8.toNat_zero, Nat.zero_mul, Nat.zero_add, hval]
    · exact hval

/-- The contents of an integer are in the shortest form. -/
theorem strict_contents (n : ℕ) : Strict (contents n) = true := by
  unfold contents
  split
  · rfl
  · rename_i x b hcons
    have hne : x ≠ 0 := by
      have hhead := head?_minimalBe_ne_zero n
      rw [hcons] at hhead
      simpa using hhead
    split_ifs with htop
    · simp [Strict, htop, topBit_zero]
    · cases b with
      | nil => simp [Strict, htop]
      | cons y b => simp [Strict, htop, hne]

/-- The strict contents are those of their value. -/
theorem strict_iff (c : Bytes) : Strict c = true ↔ c = contents (ofBeBytes c) := by
  constructor
  · intro hstrict
    rw [contents, minimalBe_ofBeBytes]
    cases c with
    | nil => cases hstrict
    | cons x c =>
        by_cases hx : x = 0
        · subst hx
          -- behind a zero byte nothing follows, or a byte with its top bit set
          cases c with
          | nil => rfl
          | cons y c =>
              have hy : topBit y = true := by simpa [Strict, topBit_zero] using hstrict
              have hy0 : y ≠ 0 := by
                rintro rfl
                cases hy
              rw [List.dropWhile_cons_of_pos rfl, List.dropWhile_cons_of_neg (by simpa using hy0)]
              exact (if_pos hy).symm
        · have htop : topBit x = false := by
            cases c with
            | nil => simpa [Strict] using hstrict
            | cons y c => simpa [Strict, hx] using hstrict
          rw [List.dropWhile_cons_of_neg (by simpa using hx)]
          simp [htop]
  · intro h
    rw [h]
    exact strict_contents _

/-- Zero has one byte of contents. -/
theorem contents_ne_nil (n : ℕ) : contents n ≠ [] := by
  intro h
  have hstrict := strict_contents n
  rw [h] at hstrict
  cases hstrict

theorem length_integer (n : ℕ) : (integer n).length = (contents n).length + 2 := rfl

/-- At most one byte is put in front of the digits. -/
theorem length_contents_le (n : ℕ) : (contents n).length ≤ (minimalBe n).length + 1 := by
  unfold contents
  split
  · exact Nat.le_add_left _ _
  · rename_i x b hcons
    rw [hcons]
    split_ifs
    · exact le_rfl
    · exact Nat.le_succ _

/-- Read an integer. -/
def parseInteger : Bytes → Option (ℕ × Bytes)
  | tag :: len :: b =>
      if tag = 0x02 ∧ len.toNat ≤ b.length ∧ Strict (b.take len.toNat) then
        some (ofBeBytes (b.take len.toNat), b.drop len.toNat)
      else none
  | _ => none

/-- The reader accepts exactly the integers whose length fits in a byte. -/
theorem parseInteger_eq_some_iff {b rest : Bytes} {n : ℕ} :
    parseInteger b = some (n, rest) ↔ (contents n).length < 256 ∧ b = integer n ++ rest := by
  constructor
  · intro h
    unfold parseInteger at h
    split at h
    · rename_i tag len b
      split_ifs at h with hcheck
      obtain ⟨rfl, hlen, hstrict⟩ := hcheck
      obtain ⟨rfl, rfl⟩ := Prod.mk.inj (Option.some.inj h)
      have htake : (b.take len.toNat).length = len.toNat := List.length_take_of_le hlen
      rw [integer, ← (strict_iff _).mp hstrict, htake, UInt8.ofNat_toNat, List.cons_append,
        List.cons_append, List.take_append_drop]
      exact ⟨len.toNat_lt, rfl⟩
    · cases h
  · rintro ⟨hlen, rfl⟩
    have hbyte : (UInt8.ofNat (contents n).length).toNat = (contents n).length :=
      UInt8.toNat_ofNat_of_lt' hlen
    rw [integer, List.cons_append, List.cons_append, parseInteger, hbyte, List.take_left,
      List.drop_left, ofBeBytes_contents, if_pos]
    exact ⟨rfl, by rw [List.length_append]; omega, strict_contents n⟩

/-! ## Signatures -/

/-- The sequence of the two integers. -/
def signature (r s : ℕ) : Bytes :=
  0x30 :: UInt8.ofNat (integer r ++ integer s).length :: (integer r ++ integer s)

/-- Two integers and one more byte. -/
def parseIntegers (b : Bytes) : Option (ℕ × ℕ × UInt8) := do
  let (r, b) ← parseInteger b
  let (s, b) ← parseInteger b
  match b with
  | [sighashType] => some (r, s, sighashType)
  | _ => none

/-- The two integers and the byte behind them, with short lengths. -/
theorem parseIntegers_eq_some_iff {b : Bytes} {r s : ℕ} {sighashType : UInt8} :
    parseIntegers b = some (r, s, sighashType) ↔ (contents r).length < 256 ∧
      (contents s).length < 256 ∧ b = integer r ++ (integer s ++ [sighashType]) := by
  constructor
  · intro h
    obtain ⟨⟨r', b₁⟩, hr, hrest⟩ := Option.bind_eq_some_iff.mp h
    obtain ⟨⟨s', b₂⟩, hs, htail⟩ := Option.bind_eq_some_iff.mp hrest
    obtain ⟨hrlen, rfl⟩ := parseInteger_eq_some_iff.mp hr
    obtain ⟨hslen, rfl⟩ := parseInteger_eq_some_iff.mp hs
    dsimp only at htail
    split at htail
    · cases htail
      exact ⟨hrlen, hslen, rfl⟩
    · cases htail
  · rintro ⟨hrlen, hslen, rfl⟩
    rw [parseIntegers, parseInteger_eq_some_iff.mpr ⟨hrlen, rfl⟩]
    show (parseInteger (integer s ++ [sighashType])).bind _ = _
    rw [parseInteger_eq_some_iff.mpr ⟨hslen, rfl⟩]
    rfl

/-- A signature with its sighash type, as a strict parser reads it. -/
def parseSignature (sig : Bytes) : Option (ℕ × ℕ × UInt8) :=
  if sig.length < 9 ∨ 73 < sig.length then none
  else
    match sig with
    | tag :: len :: b =>
        if tag = 0x30 ∧ len.toNat + 3 = sig.length then parseIntegers b else none
    | _ => none

/-- The strict parser accepts exactly the strict signatures. -/
theorem parseSignature_eq_some_iff {sig : Bytes} {r s : ℕ} {sighashType : UInt8} :
    parseSignature sig = some (r, s, sighashType) ↔
      sig = signature r s ++ [sighashType] ∧ sig.length ≤ 73 := by
  constructor
  · intro h
    unfold parseSignature at h
    split_ifs at h with hsize
    split at h
    · rename_i tag len b
      split_ifs at h with hcheck
      obtain ⟨rfl, hlen⟩ := hcheck
      obtain ⟨-, -, rfl⟩ := parseIntegers_eq_some_iff.mp h
      refine ⟨?_, by omega⟩
      have hlen' : len = UInt8.ofNat (integer r ++ integer s).length := by
        rw [← UInt8.ofNat_toNat (x := len)]
        congr 1
        simp only [List.length_cons, List.length_append, List.length_nil] at hlen ⊢
        omega
      rw [signature, hlen']
      simp only [List.cons_append, List.append_assoc]
    · cases h
  · rintro ⟨rfl, hsize⟩
    have hr := List.length_pos_of_ne_nil (contents_ne_nil r)
    have hs := List.length_pos_of_ne_nil (contents_ne_nil s)
    have hlen : (signature r s ++ [sighashType]).length
        = (contents r).length + (contents s).length + 7 := by
      simp only [signature, integer, List.length_append, List.length_cons, List.length_nil]
      omega
    have hbyte : (UInt8.ofNat (integer r ++ integer s).length).toNat
        = (contents r).length + (contents s).length + 4 := by
      rw [List.length_append, length_integer, length_integer,
        UInt8.toNat_ofNat_of_lt' (by simp only [UInt8.size]; omega)]
      omega
    have hbounds : ¬ ((signature r s ++ [sighashType]).length < 9 ∨
        73 < (signature r s ++ [sighashType]).length) := by omega
    have hbody : (integer r ++ integer s) ++ [sighashType]
        = integer r ++ (integer s ++ [sighashType]) := List.append_assoc ..
    unfold parseSignature
    rw [if_neg hbounds]
    show (if (0x30 : UInt8) = 0x30 ∧ (UInt8.ofNat (integer r ++ integer s).length).toNat + 3
      = (signature r s ++ [sighashType]).length then
        parseIntegers ((integer r ++ integer s) ++ [sighashType]) else none) = _
    rw [if_pos ⟨rfl, by rw [hbyte, hlen]⟩, hbody]
    exact parseIntegers_eq_some_iff.mpr ⟨by omega, by omega, rfl⟩

end Der
