/-
# Readers by the encodings they accept

A reader of byte strings is described by a relation between values and the byte
strings that encode them: it accepts an input exactly when the input begins with
an encoding, it consumes that encoding and nothing else, and it never panics
(`Accepts`).  There is one rule for each way a reader is put together: sequences,
loops that push what they read, and readers with a limit on what they see
(`take`).  What a reader accepts does not depend on the bytes behind an encoding,
so a limit only excludes encodings that are too long.
-/
import OmniTransaction.Rust

open ByteOrder Rust

namespace Rust

variable {ε α β : Type}

/-! ## The relation -/

/-- The reader accepts the encodings `R` and never panics. -/
structure Accepts (m : ByteStream ε α) (R : α → Bytes → Prop) : Prop where
  run_eq_ok_iff : ∀ b a rest, m.run b = .ok (a, rest) ↔ ∃ bs, R a bs ∧ b = bs ++ rest
  run_ne_panic : ∀ b msg, m.run b ≠ .panic msg

variable {m : ByteStream ε α} {R S : α → Bytes → Prop} {b rest : Bytes} {a : α}

theorem Accepts.congr (h : Accepts m R) (hRS : ∀ a bs, R a bs ↔ S a bs) : Accepts m S := by
  have heq : R = S := by
    funext a bs
    exact propext (hRS a bs)
  rwa [← heq]

/-- An encoding is read in front of anything. -/
theorem Accepts.reads (h : Accepts m R) {bs : Bytes} (ha : R a bs) : Reads m a bs := by
  intro rest
  exact (h.run_eq_ok_iff _ _ _).mpr ⟨bs, ha, rfl⟩

/-- A success depends on nothing but the bytes that were consumed. -/
theorem Accepts.exists_reads (h : Accepts m R) (hrun : m.run b = .ok (a, rest)) :
    ∃ bs, b = bs ++ rest ∧ Reads m a bs := by
  obtain ⟨bs, ha, hb⟩ := (h.run_eq_ok_iff _ _ _).mp hrun
  exact ⟨bs, hb, h.reads ha⟩

/-- An input that is not accepted is an error. -/
theorem Accepts.exists_err (h : Accepts m R) (hno : ∀ a rest, m.run b ≠ .ok (a, rest)) :
    ∃ e, m.run b = .err e := by
  cases hrun : m.run b with
  | ok r => exact absurd hrun (hno r.1 r.2)
  | err e => exact ⟨e, rfl⟩
  | panic msg => exact absurd hrun (h.run_ne_panic b msg)

/-! ## Rules -/

theorem accepts_pure (x : α) : Accepts (pure x : ByteStream ε α) fun a bs => a = x ∧ bs = [] where
  run_eq_ok_iff b a rest := by
    constructor
    · intro h
      obtain ⟨rfl, rfl⟩ := Prod.mk.inj (Outcome.ok.inj h)
      exact ⟨[], ⟨rfl, rfl⟩, rfl⟩
    · rintro ⟨bs, ⟨rfl, rfl⟩, rfl⟩
      rfl
  run_ne_panic b msg h := by cases h

theorem accepts_fail (e : ε) :
    Accepts (ByteStream.fail e : ByteStream ε α) fun _ _ => False where
  run_eq_ok_iff b a rest := by
    constructor
    · intro h
      cases h
    · rintro ⟨bs, h, -⟩
      exact h.elim
  run_ne_panic b msg h := by cases h

/-- One reader after the other, the second chosen by what the first has read. -/
theorem Accepts.bind_of (hm : Accepts m R) {f : α → ByteStream ε β} {T : α → β → Bytes → Prop}
    (hf : ∀ a bs, R a bs → Accepts (f a) (T a)) :
    Accepts (m >>= f) fun x bs => ∃ a cs ds, R a cs ∧ T a x ds ∧ bs = cs ++ ds where
  run_eq_ok_iff b x rest := by
    rw [ByteStream.run_bind_eq_ok_iff]
    constructor
    · rintro ⟨a, b', ha, hx⟩
      obtain ⟨cs, hcs, rfl⟩ := (hm.run_eq_ok_iff _ _ _).mp ha
      obtain ⟨ds, hds, rfl⟩ := ((hf a cs hcs).run_eq_ok_iff _ _ _).mp hx
      exact ⟨cs ++ ds, ⟨a, cs, ds, hcs, hds, rfl⟩, (List.append_assoc ..).symm⟩
    · rintro ⟨_, ⟨a, cs, ds, hcs, hds, rfl⟩, rfl⟩
      refine ⟨a, ds ++ rest, ?_, (hf a cs hcs).reads hds rest⟩
      rw [List.append_assoc]
      exact hm.reads hcs _
  run_ne_panic b msg := by
    rw [StateT.run_bind]
    refine Outcome.bind_ne_panic (hm.run_ne_panic b msg) ?_
    intro r hrun
    obtain ⟨bs, hbs, -⟩ := (hm.run_eq_ok_iff _ _ _).mp hrun
    exact (hf r.1 bs hbs).run_ne_panic r.2 msg

theorem Accepts.bind (hm : Accepts m R) {f : α → ByteStream ε β} {T : α → β → Bytes → Prop}
    (hf : ∀ a, Accepts (f a) (T a)) :
    Accepts (m >>= f) fun x bs => ∃ a cs ds, R a cs ∧ T a x ds ∧ bs = cs ++ ds :=
  hm.bind_of fun a _ _ => hf a

/-- A reader whose value is changed at the end. -/
theorem Accepts.map (hm : Accepts m R) (f : α → β) :
    Accepts (m >>= fun a => pure (f a)) fun x bs => ∃ a, R a bs ∧ f a = x := by
  refine (hm.bind fun a => accepts_pure (f a)).congr ?_
  intro x bs
  constructor
  · rintro ⟨a, cs, ds, hcs, ⟨rfl, rfl⟩, rfl⟩
    rw [List.append_nil]
    exact ⟨a, hcs, rfl⟩
  · rintro ⟨a, ha, rfl⟩
    exact ⟨a, bs, [], ha, ⟨rfl, rfl⟩, (List.append_nil bs).symm⟩

/-- A value that does not come from the input. -/
theorem accepts_lift {x : Outcome ε α} {y : α} (hx : x = .ok y) :
    Accepts (StateT.lift x : ByteStream ε α) fun a bs => a = y ∧ bs = [] := by
  subst hx
  exact accepts_pure y

theorem accepts_readExact (n : ℕ) : Accepts (readExact n) fun a bs => bs = a ∧ a.length = n where
  run_eq_ok_iff b a rest := by
    rw [run_readExact_eq_ok_iff]
    constructor
    · rintro ⟨hb, ha⟩
      exact ⟨a, ⟨rfl, ha⟩, hb⟩
    · rintro ⟨_, ⟨rfl, ha⟩, hb⟩
      exact ⟨hb, ha⟩
  run_ne_panic b msg h := by
    change (if n ≤ b.length then _ else _) = _ at h
    split_ifs at h

/-- The next `n` bytes as an array. -/
theorem accepts_readArray (n : ℕ) : Accepts (readArray n) fun a bs => bs = a.toList where
  run_eq_ok_iff b a rest := by
    show (if h : n ≤ b.length then _ else _) = _ ↔ _
    constructor
    · intro h
      split_ifs at h with hn
      obtain ⟨rfl, rfl⟩ := Prod.mk.inj (Outcome.ok.inj h)
      exact ⟨b.take n, rfl, (List.take_append_drop n b).symm⟩
    · rintro ⟨_, rfl, rfl⟩
      have hlen : a.toList.length = n := a.toList_length
      have hn : n ≤ (a.toList ++ rest).length := by
        rw [List.length_append]
        omega
      rw [dif_pos hn]
      congr 2
      · apply Subtype.ext
        exact List.take_left' hlen
      · exact List.drop_left' hlen
  run_ne_panic b msg h := by
    change (if h : n ≤ b.length then _ else _) = _ at h
    split_ifs at h

/-! ## Limits -/

/-- With a limit, only the encodings within it are accepted. -/
theorem Accepts.take (hm : Accepts m R) (limit : ℕ) :
    Accepts (take limit m) fun a bs => R a bs ∧ bs.length ≤ limit where
  run_eq_ok_iff b a rest := by
    rw [run_take_eq_ok_iff]
    constructor
    · rintro ⟨rest', hrun, rfl⟩
      obtain ⟨bs, hbs, htake⟩ := (hm.run_eq_ok_iff _ _ _).mp hrun
      refine ⟨bs, ⟨hbs, ?_⟩, ?_⟩
      · have hlen := congrArg List.length htake
        rw [List.length_append, List.length_take] at hlen
        omega
      · rw [← List.append_assoc, ← htake, List.take_append_drop]
    · rintro ⟨bs, ⟨hbs, hlen⟩, rfl⟩
      -- the limit cuts into what stands behind the encoding only
      have htake : (bs ++ rest).take limit = bs ++ rest.take (limit - bs.length) := by
        rw [List.take_append, List.take_of_length_le hlen]
      have hdrop : (bs ++ rest).drop limit = rest.drop (limit - bs.length) := by
        rw [List.drop_append, List.drop_eq_nil_of_le hlen, List.nil_append]
      refine ⟨rest.take (limit - bs.length), ?_, ?_⟩
      · rw [htake, hm.reads hbs]
      · rw [hdrop, List.take_append_drop]
  run_ne_panic b msg h := hm.run_ne_panic _ _ (run_take_eq_panic_iff.mp h)

/-- A limit makes no difference to an encoding within it. -/
theorem Accepts.run_take_eq_ok_iff (hm : Accepts m R) (limit : ℕ) :
    (Rust.take limit m).run b = .ok (a, rest) ↔
      m.run b = .ok (a, rest) ∧ b.length ≤ rest.length + limit := by
  rw [(hm.take limit).run_eq_ok_iff, hm.run_eq_ok_iff]
  constructor
  · rintro ⟨bs, ⟨hbs, hlen⟩, rfl⟩
    refine ⟨⟨bs, hbs, rfl⟩, ?_⟩
    rw [List.length_append]
    omega
  · rintro ⟨⟨bs, hbs, rfl⟩, hlen⟩
    rw [List.length_append] at hlen
    exact ⟨bs, ⟨hbs, by omega⟩, rfl⟩

/-! ## Loops -/

/-- Encodings of a list, one after the other. -/
inductive Each (R : α → Bytes → Prop) : List α → Bytes → Prop
  | nil : Each R [] []
  | cons {a : α} {l : List α} {bs cs : Bytes} (ha : R a bs) (hl : Each R l cs) :
      Each R (a :: l) (bs ++ cs)

/-- `for _ in 0..n { ret.push(m?) }`. -/
def pushTimes (m : ByteStream ε α) : ℕ → List α → ByteStream ε (List α)
  | 0, ret => pure ret
  | n + 1, ret => do
      let a ← m
      pushTimes m n (ret ++ [a])

/-- The loop takes `n` values and puts them behind the others. -/
theorem Accepts.pushTimes (hm : Accepts m R) (n : ℕ) (ret : List α) :
    Accepts (pushTimes m n ret) fun l bs =>
      ∃ l', l = ret ++ l' ∧ l'.length = n ∧ Each R l' bs := by
  induction n generalizing ret with
  | zero =>
      refine (accepts_pure ret).congr ?_
      intro l bs
      constructor
      · rintro ⟨rfl, rfl⟩
        exact ⟨[], (List.append_nil l).symm, rfl, .nil⟩
      · rintro ⟨l', rfl, hlen, hl'⟩
        obtain rfl := List.length_eq_zero_iff.mp hlen
        cases hl'
        exact ⟨List.append_nil ret, rfl⟩
  | succ n ih =>
      refine (hm.bind fun a => ih (ret ++ [a])).congr ?_
      intro l bs
      constructor
      · rintro ⟨a, cs, ds, ha, ⟨l', rfl, rfl, hl'⟩, rfl⟩
        exact ⟨a :: l', List.append_cons .. |>.symm, rfl, .cons ha hl'⟩
      · rintro ⟨l', rfl, hlen, hl'⟩
        cases hl' with
        | nil => cases hlen
        | cons ha hl =>
            exact ⟨_, _, _, ha, ⟨_, List.append_cons .., Nat.succ.inj hlen, hl⟩, rfl⟩

/-- When a value has one encoding, a list has one too. -/
theorem each_iff_flatMap {P : α → Prop} {wire : α → Bytes}
    (h : ∀ a bs, R a bs ↔ P a ∧ bs = wire a) (l : List α) (bs : Bytes) :
    Each R l bs ↔ (∀ a ∈ l, P a) ∧ bs = l.flatMap wire := by
  induction l generalizing bs with
  | nil =>
      constructor
      · intro hl
        cases hl
        exact ⟨by simp, rfl⟩
      · rintro ⟨-, rfl⟩
        exact .nil
  | cons a l ih =>
      rw [List.forall_mem_cons, List.flatMap_cons]
      constructor
      · intro hl
        cases hl with
        | cons ha hl =>
            obtain ⟨hP, rfl⟩ := (h _ _).mp ha
            obtain ⟨hPs, rfl⟩ := (ih _).mp hl
            exact ⟨⟨hP, hPs⟩, rfl⟩
      · rintro ⟨⟨hP, hPs⟩, rfl⟩
        exact .cons ((h _ _).mpr ⟨hP, rfl⟩) ((ih _).mpr ⟨hPs, rfl⟩)

/-- The loop stops with one and the same error as soon as the input has run out,
however many rounds it was asked for. -/
theorem Accepts.run_pushTimes_of_length_lt (hm : Accepts m R) (hR : ∀ a bs, R a bs → bs ≠ [])
    (b : Bytes) (ret : List α) :
    ∃ e, ∀ n, b.length < n → (Rust.pushTimes m n ret).run b = .err e := by
  induction hb : b.length using Nat.strong_induction_on generalizing b ret with
  | _ k ih =>
      subst hb
      cases hrun : m.run b with
      | ok r =>
          -- the round consumes at least one byte
          obtain ⟨bs, hbs, rfl⟩ := (hm.run_eq_ok_iff _ _ _).mp hrun
          have hpos := List.length_pos_of_ne_nil (hR _ _ hbs)
          have hlen : (bs ++ r.2).length = bs.length + r.2.length := List.length_append
          obtain ⟨e, he⟩ := ih r.2.length (by omega) r.2 (ret ++ [r.1]) rfl
          refine ⟨e, ?_⟩
          intro n hn
          cases n with
          | zero => omega
          | succ n =>
              rw [Rust.pushTimes, StateT.run_bind, hrun]
              exact he n (by omega)
      | err e =>
          refine ⟨e, ?_⟩
          intro n hn
          cases n with
          | zero => omega
          | succ n =>
              rw [Rust.pushTimes, StateT.run_bind, hrun]
              rfl
      | panic msg => exact absurd hrun (hm.run_ne_panic b msg)

end Rust
