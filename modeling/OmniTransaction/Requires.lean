/-
# Requirements that are looked at one after the other

A call that asks for one thing after the other and panics at the first one that is not
there, with a message for each of them.  `Requires` says what comes of the call: a value
when all requirements are met, and otherwise the message of the first one that is not.  It
has a rule for a single requirement and one for calls in sequence.
-/
import OmniTransaction.Rust

open Rust

namespace Requirements

variable {ε α β : Type}

/-- The message of the first requirement that is not met. -/
def firstMissing : List (String × Bool) → Option String
  | [] => none
  | (msg, met) :: required => if met then firstMissing required else some msg

/-- What is missing first is missing in the first part, or else in the second. -/
theorem firstMissing_append (required rest : List (String × Bool)) :
    firstMissing (required ++ rest) = (firstMissing required).or (firstMissing rest) := by
  induction required with
  | nil => rfl
  | cons r required ih =>
    obtain ⟨msg, met⟩ := r
    rw [List.cons_append, firstMissing, firstMissing, ih]
    split_ifs <;> rfl

/-- The call returns the values that satisfy `P` when all requirements are met, and
otherwise panics with the message of the first one that is not. -/
structure Requires (x : Outcome ε α) (required : List (String × Bool)) (P : α → Prop) :
    Prop where
  ok_iff : ∀ a, x = .ok a ↔ P a
  panic_iff : ∀ msg, x = .panic msg ↔ firstMissing required = some msg
  exists_ok : firstMissing required = none → ∃ a, x = .ok a

variable {x : Outcome ε α} {required rest : List (String × Bool)} {P : α → Prop}

theorem requires_pure (a : α) : Requires (pure a : Outcome ε α) [] fun b => b = a where
  ok_iff b := by rw [Outcome.pure_eq_ok, Outcome.ok.injEq, eq_comm]
  panic_iff msg := by simp [firstMissing]
  exists_ok _ := ⟨a, rfl⟩

theorem Requires.congr {Q : α → Prop} (h : Requires x required P) (hPQ : ∀ a, P a ↔ Q a) :
    Requires x required Q where
  ok_iff a := (h.ok_iff a).trans (hPQ a)
  panic_iff := h.panic_iff
  exists_ok := h.exists_ok

/-- The requirements of a call, whatever it returns. -/
def Asks (x : Outcome ε α) (required : List (String × Bool)) : Prop :=
  Requires x required fun a => x = .ok a

theorem Requires.asks (h : Requires x required P) : Asks x required :=
  h.congr fun a => (h.ok_iff a).symm

/-- The checks and what is returned when they hold. -/
theorem Asks.requires (h : Asks x required) (hP : ∀ a, x = .ok a ↔ P a) : Requires x required P :=
  h.congr hP

/-- A single requirement. -/
theorem requires_one {msg : String} {met : Bool}
    (hx : (∃ a, x = .ok a) ∧ met = true ∨ x = .panic msg ∧ met = false) :
    Requires x [(msg, met)] fun a => x = .ok a := by
  rcases hx with ⟨⟨a, rfl⟩, rfl⟩ | ⟨rfl, rfl⟩
  · exact ⟨fun _ => Iff.rfl, fun msg' => by simp [firstMissing], fun _ => ⟨a, rfl⟩⟩
  · exact ⟨fun _ => Iff.rfl, fun msg' => by simp [firstMissing], fun h => by cases h⟩

/-- What is asked for later counts only when all that comes before is there. -/
theorem Requires.bind {f : α → Outcome ε β} {Q : α → β → Prop} (h : Requires x required P)
    (hf : ∀ a, x = .ok a → Requires (f a) rest (Q a)) :
    Requires (x >>= f) (required ++ rest) fun b => ∃ a, x = .ok a ∧ Q a b := by
  have hmissing := firstMissing_append required rest
  rcases hfirst : firstMissing required with _ | msg
  · obtain ⟨a, ha⟩ := h.exists_ok hfirst
    have hrest := hf a ha
    rw [hfirst, Option.none_or] at hmissing
    rw [ha, Outcome.ok_bind]
    constructor
    · intro b
      simp [hrest.ok_iff b]
    · intro msg
      rw [hrest.panic_iff, hmissing]
    · intro hnone
      exact hrest.exists_ok (hmissing.symm.trans hnone)
  · have hpanic := (h.panic_iff msg).mpr hfirst
    rw [hfirst, Option.some_or] at hmissing
    rw [hpanic]
    constructor
    · intro b
      simp
    · intro msg'
      rw [hmissing]
      simp
    · intro hnone
      rw [hmissing] at hnone
      cases hnone

/-- One requirement, and then what else is asked for. -/
theorem Requires.first {f : α → Outcome ε β} {msg : String} {met : Bool} {Q : α → β → Prop}
    (hx : (∃ a, x = .ok a) ∧ met = true ∨ x = .panic msg ∧ met = false)
    (hf : ∀ a, x = .ok a → Requires (f a) rest (Q a)) :
    Requires (x >>= f) ((msg, met) :: rest) fun b => ∃ a, x = .ok a ∧ Q a b :=
  (requires_one hx).bind hf

/-- A value that must be there. -/
theorem Requires.expectSome {o : Option α} {f : α → Outcome ε β} {Q : α → β → Prop}
    (h : ∀ a, o = some a → Requires (f a) rest (Q a)) (msg : String) :
    Requires (Outcome.expectSome msg o >>= f) ((msg, o.isSome) :: rest)
      fun b => ∃ a, o = some a ∧ Q a b := by
  have hx : (∃ a, (Outcome.expectSome msg o : Outcome ε α) = .ok a) ∧ o.isSome = true ∨
      (Outcome.expectSome msg o : Outcome ε α) = .panic msg ∧ o.isSome = false := by
    cases o with
    | none => exact .inr ⟨rfl, rfl⟩
    | some a => exact .inl ⟨⟨a, rfl⟩, rfl⟩
  refine (Requires.first hx fun a ha => h a (Outcome.expectSome_eq_ok_iff.mp ha)).congr fun b => ?_
  simp only [Outcome.expectSome_eq_ok_iff]

/-- A result that must be there; the message tells the error. -/
theorem Requires.expect {ε' : Type} {y : Outcome ε' α} {f : α → Outcome ε β}
    {Q : α → β → Prop} (hy : ∀ msg, y ≠ .panic msg) {debug : ε' → String} {msg told : String}
    (htold : ∀ e, y = .err e → told = msg ++ ": " ++ debug e)
    (h : ∀ a, y = .ok a → Requires (f a) rest (Q a)) :
    Requires (y.expect debug msg >>= f) ((told, y.isOk) :: rest)
      fun b => ∃ a, y = .ok a ∧ Q a b := by
  have hx : (∃ a, (y.expect debug msg : Outcome ε α) = .ok a) ∧ y.isOk = true ∨
      (y.expect debug msg : Outcome ε α) = .panic told ∧ y.isOk = false := by
    rcases y with a | e | m
    · exact .inl ⟨⟨a, rfl⟩, rfl⟩
    · exact .inr ⟨congrArg Outcome.panic (htold e rfl).symm, rfl⟩
    · exact absurd rfl (hy m)
  refine (Requires.first hx fun a ha => h a (Outcome.expect_eq_ok_iff.mp ha)).congr fun b => ?_
  simp only [Outcome.expect_eq_ok_iff]

/-- A value that must be there is one check in front. -/
theorem Asks.expectSome {o : Option α} {f : α → Outcome ε β}
    (h : ∀ a, o = some a → Asks (f a) rest) (msg : String) :
    Asks (Outcome.expectSome msg o >>= f) ((msg, o.isSome) :: rest) :=
  (Requires.expectSome h msg).asks

/-- A result that is unwrapped is one check; its message is known from the error. -/
theorem Asks.expect {ε' : Type} {y : Outcome ε' α} {f : α → Outcome ε β}
    (hy : ∀ msg, y ≠ .panic msg) {debug : ε' → String} {msg told : String}
    (htold : ∀ e, y = .err e → told = msg ++ ": " ++ debug e)
    (h : ∀ a, y = .ok a → Asks (f a) rest) :
    Asks (y.expect debug msg >>= f) ((told, y.isOk) :: rest) :=
  (Requires.expect hy htold h).asks

end Requirements
