/-
# Numbers in digits

How the standard library reads an unsigned integer from a text in some radix: digit by
digit, with a check for overflow after each of them.  A text is accepted exactly when
it is a numeral, with a plus sign or without, whose value fits
(`fromStrRadix_eq_ok_iff`).
-/
import OmniTransaction.Rust

namespace Rust

/-! ## Prefixes -/

/-- A prefix and the rest of the text. -/
theorem startsWith_iff {s p : String} : startsWith s p = true ↔ ∃ t, s = p ++ t := by
  unfold startsWith
  rw [List.isPrefixOf_iff_prefix]
  constructor
  · rintro ⟨l, hl⟩
    refine ⟨String.ofList l, String.toList_injective ?_⟩
    rw [String.toList_append, String.toList_ofList, hl]
  · rintro ⟨t, rfl⟩
    rw [String.toList_append]
    exact List.prefix_append _ _

/-- `strip_prefix`. -/
def stripPrefix (s p : String) : Option String :=
  if startsWith s p then some (String.ofList (s.toList.drop p.length)) else none

theorem stripPrefix_append (p t : String) : stripPrefix (p ++ t) p = some t := by
  unfold stripPrefix
  rw [if_pos (startsWith_iff.mpr ⟨t, rfl⟩), String.toList_append]
  have hdrop : (p.toList ++ t.toList).drop p.length = t.toList :=
    List.drop_left' String.length_toList
  rw [hdrop, String.ofList_toList]

/-- Without the prefix nothing is stripped. -/
theorem stripPrefix_eq_none_iff {s p : String} :
    stripPrefix s p = none ↔ startsWith s p = false := by
  unfold stripPrefix
  by_cases h : startsWith s p = true
  · simp [h]
  · simp [h]

/-! ## Digits -/

/-- `char::to_digit`. -/
def toDigit (radix : ℕ) (c : Char) : Option ℕ :=
  let digit :=
    if '0' ≤ c ∧ c ≤ '9' then c.toNat - '0'.toNat
    else if 'a' ≤ c ∧ c ≤ 'z' then c.toNat - 'a'.toNat + 10
    else if 'A' ≤ c ∧ c ≤ 'Z' then c.toNat - 'A'.toNat + 10
    else radix
  if digit < radix then some digit else none

theorem toDigit_plus (radix : ℕ) : toDigit radix '+' = none := if_neg (Nat.lt_irrefl radix)

/-- The value of digits that stand behind digits of the value `n`. -/
def digitsValue (radix : ℕ) : ℕ → List Char → Option ℕ
  | n, [] => some n
  | n, c :: cs =>
    match toDigit radix c with
    | some d => digitsValue radix (n * radix + d) cs
    | none => none

/-- The text is a number in digits; it may start with zeros. -/
structure IsNumeral (radix : ℕ) (s : String) (n : ℕ) : Prop where
  ne_nil : s.toList ≠ []
  value : digitsValue radix 0 s.toList = some n

/-- The same behind a plus sign, or without one. -/
def IsSignedNumeral (radix : ℕ) (s : String) (n : ℕ) : Prop :=
  IsNumeral radix s n ∨ ∃ t, s = "+" ++ t ∧ IsNumeral radix t n

/-! ## Reading -/

/-- The loop of `from_str_radix` at `bits` bits. -/
def parseRadixDigits (bits radix : ℕ) : ℕ → List Char → Outcome ParseIntError ℕ
  | n, [] => .ok n
  | n, c :: cs =>
    match toDigit radix c with
    | some d =>
      if n * radix + d < 2 ^ bits then parseRadixDigits bits radix (n * radix + d) cs
      else .err .PosOverflow
    | none => .err .InvalidDigit

/-- `from_str_radix` at an unsigned integer type of `bits` bits. -/
def fromStrRadix (bits radix : ℕ) (s : String) : Outcome ParseIntError ℕ :=
  match s.toList with
  | [] => .err .Empty
  | ['+'] => .err .InvalidDigit
  | '+' :: cs => parseRadixDigits bits radix 0 cs
  | cs => parseRadixDigits bits radix 0 cs

variable {bits radix n m : ℕ} {s : String} {cs : List Char}

/-- More digits make no number smaller. -/
theorem le_of_digitsValue (hradix : 0 < radix) (h : digitsValue radix n cs = some m) : n ≤ m := by
  induction cs generalizing n with
  | nil => exact (Option.some.inj h).le
  | cons c cs ih =>
    unfold digitsValue at h
    split at h
    · rename_i d _
      have hle := ih h
      have hmul : n ≤ n * radix := Nat.le_mul_of_pos_right n hradix
      omega
    · cases h

/-- The loop returns the value, if it fits. -/
theorem parseRadixDigits_eq_ok_iff (hradix : 0 < radix) (hn : n < 2 ^ bits) :
    parseRadixDigits bits radix n cs = .ok m ↔ digitsValue radix n cs = some m ∧ m < 2 ^ bits := by
  induction cs generalizing n with
  | nil =>
    rw [parseRadixDigits, digitsValue, Outcome.ok.injEq, Option.some.injEq]
    exact ⟨fun h => ⟨h, h ▸ hn⟩, fun h => h.1⟩
  | cons c cs ih =>
    unfold parseRadixDigits digitsValue
    rcases toDigit radix c with _ | d
    · simp
    · dsimp only
      by_cases hd : n * radix + d < 2 ^ bits
      · rw [if_pos hd]
        exact ih hd
      · rw [if_neg hd]
        -- the value so far does not fit, and it only grows
        refine iff_of_false (by simp) fun h => ?_
        have hle := le_of_digitsValue hradix h.1
        omega

/-- The value of the digits in front of the first character that is none. -/
def leadingValue (radix : ℕ) : ℕ → List Char → ℕ
  | n, [] => n
  | n, c :: cs =>
    match toDigit radix c with
    | some d => leadingValue radix (n * radix + d) cs
    | none => n

/-- Every further digit makes the number larger. -/
theorem le_leadingValue (hradix : 0 < radix) (n : ℕ) (cs : List Char) :
    n ≤ leadingValue radix n cs := by
  induction cs generalizing n with
  | nil => exact le_rfl
  | cons c cs ih =>
    unfold leadingValue
    rcases toDigit radix c with _ | d
    · exact le_rfl
    · have hmul : n ≤ n * radix := Nat.le_mul_of_pos_right n hradix
      have hle := ih (n * radix + d)
      dsimp only
      omega

/-- The loop fails at a character that is no digit, unless the digits in front of it are too
large already. -/
theorem eq_of_parseRadixDigits_eq_err (hradix : 0 < radix) (hn : n < 2 ^ bits) {e : ParseIntError}
    (h : parseRadixDigits bits radix n cs = .err e) :
    e = if 2 ^ bits ≤ leadingValue radix n cs then .PosOverflow else .InvalidDigit := by
  induction cs generalizing n with
  | nil => cases h
  | cons c cs ih =>
    unfold parseRadixDigits at h
    unfold leadingValue
    rcases hdigit : toDigit radix c with _ | d
    · simp only [hdigit] at h
      dsimp only
      rw [if_neg hn.not_ge]
      exact (Outcome.err.inj h).symm
    · simp only [hdigit] at h
      dsimp only
      split_ifs at h with hd
      · exact ih hd h
      · have hle := le_leadingValue hradix (n * radix + d) cs
        rw [if_pos ((Nat.le_of_not_lt hd).trans hle)]
        exact (Outcome.err.inj h).symm

/-- What is wrong with a text that is no number of `bits` bits: it is empty, its digits are
too large, or they end at another character. -/
def numeralError (bits radix : ℕ) (s : String) : ParseIntError :=
  match s.toList with
  | [] => .Empty
  | '+' :: cs => if 2 ^ bits ≤ leadingValue radix 0 cs then .PosOverflow else .InvalidDigit
  | cs => if 2 ^ bits ≤ leadingValue radix 0 cs then .PosOverflow else .InvalidDigit

/-- The kind of the error can be told from the text. -/
theorem eq_of_fromStrRadix_eq_err (hradix : 0 < radix) {e : ParseIntError}
    (h : fromStrRadix bits radix s = .err e) : e = numeralError bits radix s := by
  have hzero : 0 < 2 ^ bits := Nat.two_pow_pos bits
  unfold fromStrRadix at h
  unfold numeralError
  split at h
  · rename_i hs
    rw [hs]
    exact (Outcome.err.inj h).symm
  · rename_i hs
    rw [hs]
    have hnone : ¬ 2 ^ bits ≤ leadingValue radix 0 [] := hzero.not_ge
    exact (Outcome.err.inj h).symm.trans (if_neg hnone).symm
  · rename_i cs _ hs
    rw [hs]
    exact eq_of_parseRadixDigits_eq_err hradix hzero h
  · rename_i hempty _ hplus
    split
    · exact absurd (by assumption) hempty
    · exact absurd (by assumption) (hplus _)
    · exact eq_of_parseRadixDigits_eq_err hradix hzero h

/-- The loop over the digits returns. -/
theorem parseRadixDigits_ne_panic (msg : String) :
    parseRadixDigits bits radix n cs ≠ .panic msg := by
  induction cs generalizing n with
  | nil => exact Outcome.ok_ne_panic _ _
  | cons c cs ih =>
    unfold parseRadixDigits
    split
    · split_ifs
      · exact ih
      · exact Outcome.err_ne_panic _ _
    · exact Outcome.err_ne_panic _ _

/-- A plus sign is no digit. -/
theorem digitsValue_plus (radix n : ℕ) (cs : List Char) :
    digitsValue radix n ('+' :: cs) = none := by
  unfold digitsValue
  rw [toDigit_plus]

/-- A numeral by its list of digits. -/
theorem isNumeral_ofList_iff :
    IsNumeral radix (String.ofList cs) m ↔ cs ≠ [] ∧ digitsValue radix 0 cs = some m := by
  constructor
  · rintro ⟨hne, hvalue⟩
    rw [String.toList_ofList] at hne hvalue
    exact ⟨hne, hvalue⟩
  · rintro ⟨hne, hvalue⟩
    constructor
    · rwa [String.toList_ofList]
    · rwa [String.toList_ofList]

theorem toList_plus_append (t : String) : ("+" ++ t).toList = '+' :: t.toList := by
  rw [String.toList_append]
  rfl

/-- A text that starts with a plus sign. -/
theorem isSignedNumeral_plus_iff {t : String} (hs : s = "+" ++ t) :
    IsSignedNumeral radix s m ↔ IsNumeral radix t m := by
  subst hs
  constructor
  · rintro (h | ⟨t', ht, h⟩)
    · have hvalue := h.value
      rw [toList_plus_append, digitsValue_plus] at hvalue
      cases hvalue
    · have hlist := congrArg String.toList ht
      rw [toList_plus_append, toList_plus_append] at hlist
      rwa [String.toList_injective (List.cons.inj hlist).2]
  · exact fun h => .inr ⟨t, rfl, h⟩

/-- Exactly the numerals whose value fits are read, with a plus sign or without. -/
theorem fromStrRadix_eq_ok_iff (hradix : 0 < radix) :
    fromStrRadix bits radix s = .ok m ↔ IsSignedNumeral radix s m ∧ m < 2 ^ bits := by
  have hzero : 0 < 2 ^ bits := Nat.two_pow_pos bits
  unfold fromStrRadix
  split
  · rename_i hs
    refine iff_of_false (by simp) ?_
    rintro ⟨h | ⟨t, rfl, -⟩, -⟩
    · exact h.ne_nil hs
    · rw [toList_plus_append] at hs
      cases hs
  · rename_i hs
    have hplus : s = "+" ++ "" := String.toList_injective hs
    rw [isSignedNumeral_plus_iff hplus]
    exact iff_of_false (by simp) fun h => h.1.ne_nil rfl
  · rename_i cs _ hs
    have hplus : s = "+" ++ String.ofList cs := by
      apply String.toList_injective
      rw [hs, toList_plus_append, String.toList_ofList]
    have hne : cs ≠ [] := by
      rintro rfl
      contradiction
    rw [isSignedNumeral_plus_iff hplus, isNumeral_ofList_iff,
      parseRadixDigits_eq_ok_iff hradix hzero, and_iff_right hne]
  · rename_i hempty _ hplus
    rw [parseRadixDigits_eq_ok_iff hradix hzero]
    refine and_congr_left' ⟨fun h => .inl ⟨hempty, h⟩, ?_⟩
    rintro (h | ⟨t, rfl, -⟩)
    · exact h.value
    · exact absurd (toList_plus_append t) (hplus _)

/-- A text that is no number is an error. -/
theorem fromStrRadix_ne_panic (msg : String) : fromStrRadix bits radix s ≠ .panic msg := by
  unfold fromStrRadix
  split
  · exact Outcome.err_ne_panic _ _
  · exact Outcome.err_ne_panic _ _
  · exact parseRadixDigits_ne_panic msg
  · exact parseRadixDigits_ne_panic msg

/-- A text has one value. -/
theorem IsNumeral.unique (h : IsNumeral radix s n) (h' : IsNumeral radix s m) : n = m :=
  Option.some.inj (h.value.symm.trans h'.value)

/-- Without a sign it is the same number. -/
theorem IsSignedNumeral.eq_of_isNumeral (h : IsSignedNumeral radix s n)
    (h' : IsNumeral radix s m) : n = m := by
  rcases h with h | ⟨t, hs, -⟩
  · exact h.unique h'
  · have hvalue := h'.value
    rw [hs, toList_plus_append, digitsValue_plus] at hvalue
    cases hvalue

/-- A text writes one number at most. -/
theorem IsSignedNumeral.unique (h : IsSignedNumeral radix s n)
    (h' : IsSignedNumeral radix s m) : n = m := by
  rcases h' with h' | ⟨t, hs, h'⟩
  · exact h.eq_of_isNumeral h'
  · exact ((isSignedNumeral_plus_iff hs).mp h).unique h'

/-- A numeral that does not fit is an error. -/
theorem IsNumeral.exists_fromStrRadix_eq_err (h : IsNumeral radix s n) (hradix : 0 < radix)
    (hn : 2 ^ bits ≤ n) : ∃ e, fromStrRadix bits radix s = .err e := by
  rcases hread : fromStrRadix bits radix s with m | e | msg
  · obtain ⟨hm, hlt⟩ := (fromStrRadix_eq_ok_iff hradix).mp hread
    rw [hm.eq_of_isNumeral h] at hlt
    exact absurd hlt hn.not_gt
  · exact ⟨e, rfl⟩
  · exact absurd hread (fromStrRadix_ne_panic msg)

/-! ## Decimal digits -/

theorem toDigit_ten (c : Char) :
    toDigit 10 c = if c.isDigit then some (c.toNat - '0'.toNat) else none := by
  have hdigit : c.isDigit = true ↔ '0' ≤ c ∧ c ≤ '9' := by
    rw [Char.isDigit_iff_toNat]
    exact Iff.rfl
  unfold toDigit
  by_cases hc : c.isDigit = true
  · have hrange : 48 ≤ c.toNat ∧ c.toNat ≤ 57 := Char.isDigit_iff_toNat.mp hc
    have hlt : c.toNat - '0'.toNat < 10 := by
      show c.toNat - 48 < 10
      omega
    rw [if_pos hc, if_pos (hdigit.mp hc)]
    exact if_pos hlt
  · rw [if_neg hc, if_neg (fun h => hc (hdigit.mpr h))]
    -- the value of a letter is at least ten
    exact if_neg (by split_ifs <;> omega)

/-- Reading decimal digits is reading digits in radix ten. -/
theorem parseDigits_eq_parseRadixDigits (bits : ℕ) :
    parseDigits bits = parseRadixDigits bits 10 := by
  funext n cs
  induction cs generalizing n with
  | nil => rfl
  | cons c cs ih =>
    unfold parseDigits parseRadixDigits
    rw [toDigit_ten]
    by_cases hc : c.isDigit = true
    · simp only [hc, if_true]
      rw [ih]
    · simp only [hc]
      rfl

/-- `parse` is the parser to the base ten. -/
theorem parseUnsigned_eq_fromStrRadix (bits : ℕ) (s : String) :
    parseUnsigned bits s = fromStrRadix bits 10 s := by
  unfold parseUnsigned
  rw [parseDigits_eq_parseRadixDigits]
  rfl

/-- The value of decimal digits, as Lean computes it. -/
theorem digitsValue_ten_eq_some_iff :
    digitsValue 10 n cs = some m ↔
      (∀ c ∈ cs, c.isDigit) ∧ Nat.ofDigitChars 10 cs n = m := by
  induction cs generalizing n with
  | nil => simp [digitsValue]
  | cons c cs ih =>
    unfold digitsValue
    rw [toDigit_ten, List.forall_mem_cons, Nat.ofDigitChars_cons, Nat.mul_comm 10 n]
    by_cases hc : c.isDigit = true
    · rw [if_pos hc]
      simp only [hc, true_and]
      exact ih
    · rw [if_neg hc]
      simp [hc]

/-- The two notions of a decimal numeral are one. -/
theorem isDecimal_iff_isNumeral : IsDecimal s n ↔ IsNumeral 10 s n := by
  constructor
  · rintro ⟨hne, hdigits, hvalue⟩
    exact ⟨hne, digitsValue_ten_eq_some_iff.mpr ⟨hdigits, hvalue⟩⟩
  · rintro ⟨hne, hvalue⟩
    obtain ⟨hdigits, hvalue⟩ := digitsValue_ten_eq_some_iff.mp hvalue
    exact ⟨hne, hdigits, hvalue⟩

/-- The kind of the error of `parse`. -/
theorem eq_of_parseUnsigned_eq_err {e : ParseIntError} (h : parseUnsigned bits s = .err e) :
    e = numeralError bits 10 s := by
  rw [parseUnsigned_eq_fromStrRadix] at h
  exact eq_of_fromStrRadix_eq_err (by norm_num) h

/-- `parse` reads the numerals that fit, with a plus sign or without. -/
theorem parseUnsigned_eq_ok_iff :
    parseUnsigned bits s = .ok n ↔ IsSignedNumeral 10 s n ∧ n < 2 ^ bits := by
  rw [parseUnsigned_eq_fromStrRadix]
  exact fromStrRadix_eq_ok_iff (by norm_num)

/-- A decimal text is parsed as its value. -/
theorem IsDecimal.parseUnsigned_eq (h : IsDecimal s n) (hn : n < 2 ^ bits) :
    parseUnsigned bits s = .ok n :=
  parseUnsigned_eq_ok_iff.mpr ⟨.inl (isDecimal_iff_isNumeral.mp h), hn⟩

/-- A numeral that does not fit is an error. -/
theorem IsDecimal.exists_parseUnsigned_eq_err (h : IsDecimal s n) (hn : 2 ^ bits ≤ n) :
    ∃ e, parseUnsigned bits s = .err e := by
  rw [parseUnsigned_eq_fromStrRadix]
  exact (isDecimal_iff_isNumeral.mp h).exists_fromStrRadix_eq_err (by norm_num) hn

/-- No unsigned number is read from a negative one. -/
theorem not_isSignedNumeral_minus (radix : ℕ) (s : String) (m : ℕ) :
    ¬ IsSignedNumeral radix ("-" ++ s) m := by
  have hs : ("-" ++ s).toList = '-' :: s.toList := by
    rw [String.toList_append]
    rfl
  have hminus : toDigit radix '-' = none := if_neg (Nat.lt_irrefl radix)
  rintro (h | ⟨t, ht, -⟩)
  · have hvalue := h.value
    rw [hs] at hvalue
    unfold digitsValue at hvalue
    rw [hminus] at hvalue
    cases hvalue
  · have hlist := congrArg String.toList ht
    rw [hs, toList_plus_append] at hlist
    exact absurd (List.cons.inj hlist).1 (by decide)

/-- A whole number is read from its text exactly when it fits. -/
theorem parseUnsigned_toString_eq_ok_iff {i : ℤ} :
    parseUnsigned bits (toString i) = .ok n ↔ i = n ∧ n < 2 ^ bits := by
  rw [parseUnsigned_eq_ok_iff]
  refine and_congr_left' ?_
  rcases i with k | k
  · have hdecimal : IsNumeral 10 (toString k) k := isDecimal_iff_isNumeral.mp (isDecimal_toString k)
    show IsSignedNumeral 10 (toString k) n ↔ (k : ℤ) = n
    rw [Nat.cast_inj]
    constructor
    · exact fun h => (h.eq_of_isNumeral hdecimal).symm
    · rintro rfl
      exact .inl hdecimal
  · have htext : toString (Int.negSucc k) = "-" ++ toString (k + 1) := rfl
    rw [htext]
    exact iff_of_false (not_isSignedNumeral_minus 10 _ n) (by simp)

/-- No decimal text starts with `0x`. -/
theorem IsDecimal.stripPrefix_eq_none (h : IsDecimal s n) : stripPrefix s "0x" = none := by
  rw [stripPrefix_eq_none_iff, Bool.eq_false_iff, Ne, startsWith_iff]
  rintro ⟨t, rfl⟩
  have hx : 'x' ∈ ("0x" ++ t).toList := by
    rw [String.toList_append]
    exact List.mem_append_left _ (by decide)
  exact absurd (h.digits 'x' hx) (by decide)

end Rust
