/-
# Byte orders of natural numbers

Fixed-width little- and big-endian byte strings (`leBytes`, `beBytes`), the
value a little-endian string denotes (`ofLeBytes`) and the minimal big-endian
string of a number (`minimalBe`), which has no leading zero byte.
-/
import Mathlib.Data.Nat.Digits.Lemmas

namespace ByteOrder

/-- Byte strings. -/
abbrev Bytes := List UInt8

/-- The `k` low bytes of `n`, least significant first. -/
def leBytes : ℕ → ℕ → Bytes
  | 0, _ => []
  | k + 1, n => UInt8.ofNat n :: leBytes k (n / 256)

/-- The `k` low bytes of `n`, most significant first. -/
def beBytes (k n : ℕ) : Bytes := (leBytes k n).reverse

/-- The number a little-endian byte string denotes. -/
def ofLeBytes (b : Bytes) : ℕ := Nat.ofDigits 256 (b.map UInt8.toNat)

/-- The shortest big-endian byte string of `n`; empty for zero. -/
def minimalBe (n : ℕ) : Bytes := ((Nat.digits 256 n).map UInt8.ofNat).reverse

@[simp] theorem length_leBytes (k n : ℕ) : (leBytes k n).length = k := by
  induction k generalizing n with
  | zero => rfl
  | succ k ih => rw [leBytes, List.length_cons, ih]

@[simp] theorem length_beBytes (k n : ℕ) : (beBytes k n).length = k := by
  rw [beBytes, List.length_reverse, length_leBytes]

/-- Reading back the written bytes gives the number modulo the width. -/
theorem ofLeBytes_leBytes (k n : ℕ) : ofLeBytes (leBytes k n) = n % 256 ^ k := by
  induction k generalizing n with
  | zero => simp [leBytes, ofLeBytes, Nat.mod_one]
  | succ k ih =>
      have hhead : (UInt8.ofNat n).toNat = n % 256 := by simp
      rw [ofLeBytes, leBytes, List.map_cons, Nat.ofDigits_cons, ← ofLeBytes, ih, hhead,
        Nat.pow_succ', Nat.mod_mul]

/-- A number that fits the width is read back exactly. -/
theorem ofLeBytes_leBytes_of_lt {k n : ℕ} (h : n < 256 ^ k) :
    ofLeBytes (leBytes k n) = n := by
  rw [ofLeBytes_leBytes, Nat.mod_eq_of_lt h]

/-- Writing the value of a string at its own width gives the string. -/
theorem leBytes_ofLeBytes (b : Bytes) : leBytes b.length (ofLeBytes b) = b := by
  induction b with
  | nil => rfl
  | cons x b ih =>
      have hx := x.toNat_lt
      have hval : ofLeBytes (x :: b) = x.toNat + 256 * ofLeBytes b := by
        rw [ofLeBytes, List.map_cons, Nat.ofDigits_cons]
        rfl
      -- the low byte of the value is `x`, the others are the value of `b`
      have hdiv : (x.toNat + 256 * ofLeBytes b) / 256 = ofLeBytes b := by omega
      have hmod : UInt8.ofNat (x.toNat + 256 * ofLeBytes b) = x := by
        apply UInt8.toNat_inj.mp
        simp only [UInt8.toNat_ofNat']
        omega
      rw [List.length_cons, leBytes, hval, hdiv, hmod, ih]

/-- A little-endian string of `k` bytes denotes a number below `256 ^ k`. -/
theorem ofLeBytes_lt (b : Bytes) : ofLeBytes b < 256 ^ b.length := by
  have h := Nat.ofDigits_lt_base_pow_length (b := 256) (l := b.map UInt8.toNat)
    (by norm_num) (by
      intro x hx
      obtain ⟨y, -, rfl⟩ := List.mem_map.mp hx
      exact y.toNat_lt)
  simpa [ofLeBytes] using h

/-- Only the low bytes of a number are written. -/
theorem leBytes_mod (k n : ℕ) : leBytes k (n % 256 ^ k) = leBytes k n := by
  have h := leBytes_ofLeBytes (leBytes k n)
  rwa [length_leBytes, ofLeBytes_leBytes] at h

/-- Fixed-width strings of numbers that fit determine the number. -/
theorem leBytes_inj {k m n : ℕ} (hm : m < 256 ^ k) (hn : n < 256 ^ k)
    (h : leBytes k m = leBytes k n) : m = n := by
  rw [← ofLeBytes_leBytes_of_lt hm, ← ofLeBytes_leBytes_of_lt hn, h]

/-! ## Minimal big-endian strings -/

theorem minimalBe_zero : minimalBe 0 = [] := by simp [minimalBe]

/-- The minimal string denotes its number. -/
theorem ofLeBytes_reverse_minimalBe (n : ℕ) : ofLeBytes (minimalBe n).reverse = n := by
  have hmap : ((Nat.digits 256 n).map UInt8.ofNat).map UInt8.toNat = Nat.digits 256 n := by
    rw [List.map_map]
    calc (Nat.digits 256 n).map (UInt8.toNat ∘ UInt8.ofNat)
        = (Nat.digits 256 n).map id := by
          apply List.map_congr_left
          intro d hd
          have := Nat.digits_lt_base (by norm_num) hd
          simp only [Function.comp, UInt8.toNat_ofNat', id]
          omega
      _ = Nat.digits 256 n := List.map_id _
  rw [minimalBe, List.reverse_reverse, ofLeBytes, hmap, Nat.ofDigits_digits]

theorem minimalBe_injective : Function.Injective minimalBe := by
  intro m n h
  rw [← ofLeBytes_reverse_minimalBe m, ← ofLeBytes_reverse_minimalBe n, h]

/-- The minimal string fits in `k` bytes exactly when the number does. -/
theorem length_minimalBe_le_iff {n k : ℕ} : (minimalBe n).length ≤ k ↔ n < 256 ^ k := by
  rw [minimalBe, List.length_reverse, List.length_map,
    Nat.digits_length_le_iff (by norm_num)]

/-- A minimal string has no leading zero byte. -/
theorem head?_minimalBe_ne_zero (n : ℕ) : (minimalBe n).head? ≠ some 0 := by
  by_cases hn : n = 0
  · simp [hn, minimalBe_zero]
  -- the first byte is the last digit, which is not zero
  · have hne : Nat.digits 256 n ≠ [] := Nat.digits_ne_nil_iff_ne_zero.mpr hn
    have hlast := Nat.getLast_digit_ne_zero 256 hn
    have hlt : (Nat.digits 256 n).getLast hne < 256 :=
      Nat.digits_lt_base (by norm_num) (List.getLast_mem hne)
    rw [minimalBe, List.head?_reverse, List.getLast?_map, List.getLast?_eq_some_getLast hne,
      Option.map_some]
    intro h
    have hzero := congrArg UInt8.toNat (Option.some.inj h)
    simp only [UInt8.toNat_ofNat', UInt8.toNat_zero] at hzero
    omega

/-- The fixed-width string is the minimal one behind a run of zero bytes. -/
theorem beBytes_eq_replicate_append {k n : ℕ} (h : n < 256 ^ k) :
    beBytes k n = List.replicate (k - (minimalBe n).length) 0 ++ minimalBe n := by
  have hfits : (minimalBe n).length ≤ k := length_minimalBe_le_iff.mpr h
  have hlen : (List.replicate (k - (minimalBe n).length) (0 : UInt8) ++ minimalBe n).reverse.length
      = k := by
    simp only [List.length_reverse, List.length_append, List.length_replicate]
    omega
  have hval : ofLeBytes (List.replicate (k - (minimalBe n).length) (0 : UInt8)
      ++ minimalBe n).reverse = n := by
    rw [List.reverse_append, List.reverse_replicate, ofLeBytes, List.map_append,
      List.map_replicate, UInt8.toNat_zero, Nat.ofDigits_append_replicate_zero, ← ofLeBytes,
      ofLeBytes_reverse_minimalBe]
  -- both sides have `k` bytes and denote `n`; that determines a string
  have hread := leBytes_ofLeBytes (List.replicate (k - (minimalBe n).length) (0 : UInt8)
      ++ minimalBe n).reverse
  rw [hlen, hval] at hread
  rw [beBytes, hread, List.reverse_reverse]

/-- The fixed-width string is minimal exactly when its first byte is needed. -/
theorem beBytes_eq_minimalBe_iff {k n : ℕ} (h : n < 256 ^ (k + 1)) :
    beBytes (k + 1) n = minimalBe n ↔ 256 ^ k ≤ n := by
  have hfits : (minimalBe n).length ≤ k + 1 := length_minimalBe_le_iff.mpr h
  constructor
  · intro heq
    have hlen := congrArg List.length heq
    rw [length_beBytes] at hlen
    by_contra hn
    have := length_minimalBe_le_iff.mpr (Nat.lt_of_not_le hn)
    omega
  · intro hn
    have hlong : ¬ (minimalBe n).length ≤ k := by
      rw [length_minimalBe_le_iff]
      omega
    rw [beBytes_eq_replicate_append h, show k + 1 - (minimalBe n).length = 0 by omega]
    rfl

/-- Dropping the leading zero bytes of a fixed-width string leaves the minimal
string. -/
theorem dropWhile_beBytes {k n : ℕ} (h : n < 256 ^ k) :
    (beBytes k n).dropWhile (· == 0) = minimalBe n := by
  rw [beBytes_eq_replicate_append h, List.dropWhile_append_of_pos (by simp)]
  cases hm : minimalBe n with
  | nil => rfl
  | cons x b =>
      have hx : x ≠ 0 := by
        have := head?_minimalBe_ne_zero n
        rw [hm] at this
        simpa using this
      rw [List.dropWhile_cons_of_neg (by simpa using hx)]

/-! ## Values of big-endian strings -/

/-- The number a big-endian byte string denotes. -/
def ofBeBytes (b : Bytes) : ℕ := ofLeBytes b.reverse

theorem ofBeBytes_lt (b : Bytes) : ofBeBytes b < 256 ^ b.length := by
  have h := ofLeBytes_lt b.reverse
  rwa [List.length_reverse] at h

/-- The first byte counts most. -/
theorem ofBeBytes_cons (x : UInt8) (b : Bytes) :
    ofBeBytes (x :: b) = x.toNat * 256 ^ b.length + ofBeBytes b := by
  rw [ofBeBytes, ofBeBytes, ofLeBytes, List.reverse_cons, List.map_append, Nat.ofDigits_append,
    List.length_map, List.length_reverse, ← ofLeBytes, List.map_singleton,
    Nat.ofDigits_singleton]
  ring

theorem ofBeBytes_minimalBe (n : ℕ) : ofBeBytes (minimalBe n) = n :=
  ofLeBytes_reverse_minimalBe n

theorem beBytes_ofBeBytes (b : Bytes) : beBytes b.length (ofBeBytes b) = b := by
  have h := leBytes_ofLeBytes b.reverse
  rw [List.length_reverse] at h
  rw [beBytes, ofBeBytes, h, List.reverse_reverse]

/-- A string without a leading zero byte is the minimal one of its value. -/
theorem minimalBe_ofBeBytes (b : Bytes) :
    minimalBe (ofBeBytes b) = b.dropWhile (· == 0) := by
  rw [← dropWhile_beBytes (ofBeBytes_lt b), beBytes_ofBeBytes]

end ByteOrder
