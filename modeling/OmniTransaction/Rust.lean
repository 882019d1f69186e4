/-
# Results, byte streams and vectors of Rust

What the development uses of the language and its standard library: the result
of a call that may return `Err` or panic (`Outcome`), readers and writers over
finite byte strings (`ByteStream`), and vectors, whose length is a `usize` (`Vec`).
-/
import Mathlib.Data.List.Basic
import Mathlib.Data.List.Rotate
import Mathlib.Data.List.TakeWhile
import Mathlib.Data.Vector.Basic
import Mathlib.Tactic.Common
import OmniTransaction.ByteOrder

namespace Rust

open ByteOrder

variable {ε ε' α β σ : Type}

/-! ## Fixed-size values -/

/-- `u128`. -/
abbrev UInt128 := BitVec 128

/-- `Debug` of a `Vec<u8>`. -/
def debugBytes (b : Bytes) : String :=
  "[" ++ String.intercalate ", " (b.map fun x => toString x.toNat) ++ "]"

/-- `[u8; n]`. -/
abbrev FixedBytes (n : ℕ) := List.Vector UInt8 n

/-- An array is determined by its bytes. -/
theorem FixedBytes.toList_injective (n : ℕ) :
    Function.Injective (List.Vector.toList : FixedBytes n → Bytes) :=
  Subtype.val_injective

/-- `<[u8; n]>::try_from`: the bytes as an array, when there are `n` of them. -/
def toArray (n : ℕ) (b : Bytes) : Option (FixedBytes n) :=
  if h : b.length = n then some ⟨b, h⟩ else none

/-- The array of these bytes, if they are as many. -/
theorem toArray_eq_some_iff {n : ℕ} (b : Bytes) (a : FixedBytes n) :
    toArray n b = some a ↔ a.toList = b := by
  unfold toArray
  constructor
  · intro h
    split_ifs at h with hn
    rw [← Option.some.inj h]
    rfl
  · rintro rfl
    rw [dif_pos a.toList_length]
    rfl

/-- The bytes of an array are as many. -/
theorem toArray_toList {n : ℕ} (a : FixedBytes n) : toArray n a.toList = some a :=
  (toArray_eq_some_iff a.toList a).mpr rfl

/-! ## Results -/

/-- The result of a call: a value, an `Err`, or a panic. -/
inductive Outcome (ε α : Type) : Type where
  | ok (a : α)
  | err (e : ε)
  | panic (msg : String)
  deriving DecidableEq, Repr

/-- The panic of `assert_eq!` at two lengths. -/
def assertEqMessage (left right : ℕ) (msg : String) : String :=
  s!"assertion `left == right` failed: {msg}\n  left: {left}\n right: {right}"

namespace Outcome

/-- Run the rest of a computation on a value; an `Err` (the operator `?`) and a
panic end it. -/
def bind : Outcome ε α → (α → Outcome ε β) → Outcome ε β
  | .ok a, f => f a
  | .err e, _ => .err e
  | .panic msg, _ => .panic msg

instance : Monad (Outcome ε) where
  pure := .ok
  bind := Outcome.bind

@[simp] theorem pure_eq_ok (a : α) : (pure a : Outcome ε α) = .ok a := rfl

@[simp] theorem ok_bind (a : α) (f : α → Outcome ε β) : (Outcome.ok a >>= f) = f a := rfl

@[simp] theorem err_bind (e : ε) (f : α → Outcome ε β) :
    (Outcome.err e >>= f) = .err e := rfl

@[simp] theorem panic_bind (msg : String) (f : α → Outcome ε β) :
    (Outcome.panic msg >>= f) = .panic msg := rfl

/-- A sequence returns a value exactly when both parts do. -/
@[simp] theorem bind_eq_ok_iff {x : Outcome ε α} {f : α → Outcome ε β} {b : β} :
    (x >>= f) = .ok b ↔ ∃ a, x = .ok a ∧ f a = .ok b := by
  cases x <;> simp

theorem ok_ne_panic (a : α) (msg : String) : (ok a : Outcome ε α) ≠ panic msg := by
  intro h
  cases h

theorem err_ne_panic (e : ε) (msg : String) : (err e : Outcome ε α) ≠ panic msg := by
  intro h
  cases h

/-- A sequence panics only where one of its parts does. -/
theorem bind_ne_panic {x : Outcome ε α} {f : α → Outcome ε β} {msg : String}
    (hx : x ≠ .panic msg) (hf : ∀ a, x = .ok a → f a ≠ .panic msg) : (x >>= f) ≠ .panic msg := by
  cases x with
  | ok a => exact hf a rfl
  | err e => exact err_ne_panic _ _
  | panic msg' => exact fun h => hx (by cases h; rfl)

/-- A sequence panics in its first part or after it. -/
theorem bind_eq_panic_iff {x : Outcome ε α} {f : α → Outcome ε β} {msg : String} :
    (x >>= f) = .panic msg ↔ x = .panic msg ∨ ∃ a, x = .ok a ∧ f a = .panic msg := by
  cases x <;> simp

/-- An error is the first part's where the second part always returns. -/
theorem eq_err_of_bind_pure {x : Outcome ε α} {f : α → β} {e : ε}
    (h : (x >>= fun a => pure (f a)) = .err e) : x = .err e := by
  cases x with
  | ok a => cases h
  | err e' =>
      obtain rfl := err.inj h
      rfl
  | panic msg => cases h

instance : LawfulMonad (Outcome ε) :=
  LawfulMonad.mk' _ (by intro α x; cases x <;> rfl) (by intros; rfl)
    (by intro α β γ x f g; cases x <;> rfl)

/-- A loop over a list gives a result for each element. -/
theorem forall₂_of_mapM {f : α → Outcome ε β} {l : List α} {l' : List β}
    (h : l.mapM f = .ok l') : List.Forall₂ (fun b a => f a = .ok b) l' l := by
  induction l generalizing l' with
  | nil =>
      obtain rfl := Outcome.ok.inj h
      exact .nil
  | cons a l ih =>
      rw [List.mapM_cons] at h
      obtain ⟨b, hb, h⟩ := bind_eq_ok_iff.mp h
      obtain ⟨bs, hbs, h⟩ := bind_eq_ok_iff.mp h
      obtain rfl := Outcome.ok.inj h
      exact .cons hb (ih hbs)

/-- A loop panics at one of the elements. -/
theorem exists_panic_of_mapM {f : α → Outcome ε β} {l : List α} {msg : String}
    (h : l.mapM f = .panic msg) : ∃ a ∈ l, f a = .panic msg := by
  induction l with
  | nil => cases h
  | cons a l ih =>
      rw [List.mapM_cons] at h
      rcases bind_eq_panic_iff.mp h with ha | ⟨b, -, h⟩
      · exact ⟨a, List.mem_cons_self, ha⟩
      · rcases bind_eq_panic_iff.mp h with hl | ⟨bs, -, h⟩
        · obtain ⟨a', ha', hpanic⟩ := ih hl
          exact ⟨a', List.mem_cons_of_mem _ ha', hpanic⟩
        · cases h

/-- A loop that ends has a result for each element. -/
theorem exists_of_mapM {f : α → Outcome ε β} {l : List α} {l' : List β} (h : l.mapM f = .ok l')
    {a : α} (ha : a ∈ l) : ∃ b, f a = .ok b := by
  have hforall := forall₂_of_mapM h
  clear h
  induction hforall with
  | nil => cases ha
  | cons hb _ ih =>
    rcases List.mem_cons.mp ha with rfl | ha
    · exact ⟨_, hb⟩
    · exact ih ha

/-- Whether there is a value. -/
def isOk : Outcome ε α → Bool
  | .ok _ => true
  | _ => false

theorem isOk_iff {x : Outcome ε α} : x.isOk = true ↔ ∃ a, x = .ok a := by
  cases x <;> simp [isOk]

/-- A loop returns when every round does. -/
theorem exists_mapM_eq_ok {f : α → Outcome ε β} {l : List α} (h : ∀ a ∈ l, ∃ b, f a = .ok b) :
    ∃ l', l.mapM f = .ok l' := by
  induction l with
  | nil => exact ⟨[], rfl⟩
  | cons a l ih =>
    obtain ⟨⟨b, hb⟩, hl⟩ := List.forall_mem_cons.mp h
    obtain ⟨l', hl'⟩ := ih hl
    refine ⟨b :: l', ?_⟩
    rw [List.mapM_cons, hb, Outcome.ok_bind, hl']
    rfl

/-- A loop that never fails. -/
theorem mapM_eq_map {f : α → Outcome ε β} {g : α → β} {l : List α}
    (h : ∀ a ∈ l, f a = .ok (g a)) : l.mapM f = .ok (l.map g) := by
  induction l with
  | nil => rfl
  | cons a l ih =>
    obtain ⟨ha, hl⟩ := List.forall_mem_cons.mp h
    rw [List.mapM_cons, ha, ih hl]
    rfl

/-- `expect`: an `Err` becomes a panic, which tells the error in its form of `Debug`. -/
def expect (debug : ε → String) (msg : String) : Outcome ε α → Outcome ε' α
  | .ok a => .ok a
  | .err e => .panic (msg ++ ": " ++ debug e)
  | .panic m => .panic m

@[simp] theorem expect_eq_ok_iff {x : Outcome ε α} {debug : ε → String} {msg : String} {a : α} :
    (x.expect debug msg : Outcome ε' α) = .ok a ↔ x = .ok a := by
  cases x <;> simp [expect]

/-- `unwrap`. -/
def unwrap (debug : ε → String) : Outcome ε α → Outcome ε' α :=
  expect debug "called `Result::unwrap()` on an `Err` value"

/-- `expect` of an option. -/
def expectSome (msg : String) : Option α → Outcome ε α
  | some a => .ok a
  | none => .panic msg

@[simp] theorem expectSome_eq_ok_iff {o : Option α} {msg : String} {a : α} :
    (expectSome msg o : Outcome ε α) = .ok a ↔ o = some a := by
  cases o <;> simp [expectSome]

/-- `map_err`. -/
def mapErr (f : ε → ε') : Outcome ε α → Outcome ε' α
  | .ok a => .ok a
  | .err e => .err (f e)
  | .panic msg => .panic msg

@[simp] theorem mapErr_eq_ok_iff {f : ε → ε'} {x : Outcome ε α} {a : α} :
    x.mapErr f = .ok a ↔ x = .ok a := by
  cases x <;> simp [mapErr]

theorem mapErr_ne_panic {f : ε → ε'} {x : Outcome ε α} {msg : String} (hx : x ≠ .panic msg) :
    x.mapErr f ≠ .panic msg := by
  cases x with
  | ok a => exact ok_ne_panic _ _
  | err e => exact err_ne_panic _ _
  | panic msg' => exact fun h => hx (by cases h; rfl)

end Outcome

/-! ## Byte streams -/

/-- `std::io::ErrorKind`, as far as it is used. -/
inductive ErrorKind where
  | UnexpectedEof
  | InvalidInput
  | InvalidData
  | Other
  deriving DecidableEq, Repr

/-- `std::io::Error`, with the text that `Display` gives. -/
structure IoError where
  kind : ErrorKind
  msg : String
  deriving DecidableEq, Repr

/-- `Debug` of an error that was made of its kind alone. -/
def IoError.debugKind (e : IoError) : String :=
  match e.kind with
  | .UnexpectedEof => "Kind(UnexpectedEof)"
  | .InvalidInput => "Kind(InvalidInput)"
  | .InvalidData => "Kind(InvalidData)"
  | .Other => "Kind(Other)"

/-- A computation on one byte string.  For a reader the string is what is left
to read; for a writer it is the buffer written so far. -/
abbrev ByteStream (ε : Type) := StateT Bytes (Outcome ε)

/-- Return an `Err`. -/
def ByteStream.fail (e : ε) : ByteStream ε α := fun _ => .err e

/-- Panic. -/
def ByteStream.panic (msg : String) : ByteStream ε α := fun _ => .panic msg

/-- A sequence of stream computations returns a value exactly when both parts
do. -/
theorem ByteStream.run_bind_eq_ok_iff {x : ByteStream ε α} {f : α → ByteStream ε β} {b : Bytes}
    {r : β × Bytes} :
    (x >>= f).run b = .ok r ↔ ∃ a b', x.run b = .ok (a, b') ∧ (f a).run b' = .ok r := by
  rw [StateT.run_bind, Outcome.bind_eq_ok_iff, Prod.exists]

/-- A computation whose value is changed at the end. -/
theorem ByteStream.run_bind_pure_eq_ok_iff {x : ByteStream ε α} {f : α → β} {b rest : Bytes}
    {y : β} : (x >>= fun a => pure (f a)).run b = .ok (y, rest) ↔
      ∃ a, x.run b = .ok (a, rest) ∧ f a = y := by
  rw [ByteStream.run_bind_eq_ok_iff]
  constructor
  · rintro ⟨a, b', ha, h⟩
    obtain ⟨rfl, rfl⟩ := Prod.mk.inj (Outcome.ok.inj h)
    exact ⟨a, ha, rfl⟩
  · rintro ⟨a, ha, rfl⟩
    exact ⟨a, rest, ha, rfl⟩

/-- `Write::write_all` on a growable buffer. -/
def writeAll (data : Bytes) : ByteStream ε Unit := fun buf => .ok ((), buf ++ data)

/-- From every buffer the writer `m` appends exactly `bs` and returns `a`. -/
def Writes (m : ByteStream ε α) (a : α) (bs : Bytes) : Prop :=
  ∀ buf, m.run buf = .ok (a, buf ++ bs)

theorem writes_pure (a : α) : Writes (pure a : ByteStream ε α) a [] := by
  intro buf
  rw [List.append_nil]
  rfl

theorem writes_writeAll (data : Bytes) : Writes (writeAll data : ByteStream ε Unit) () data :=
  fun _ => rfl

theorem Writes.bind {m : ByteStream ε α} {f : α → ByteStream ε β} {a : α} {b : β} {bs cs : Bytes}
    (hm : Writes m a bs) (hf : Writes (f a) b cs) : Writes (m >>= f) b (bs ++ cs) := by
  intro buf
  rw [StateT.run_bind, hm buf, Outcome.ok_bind, hf (buf ++ bs), List.append_assoc]

/-- The value and the bytes in other words. -/
theorem Writes.cast {m : ByteStream ε α} {a a' : α} {bs bs' : Bytes} (hm : Writes m a bs)
    (ha : a = a') (hbs : bs = bs') : Writes m a' bs' := by
  subst ha hbs
  exact hm

/-- What a writer appends is determined. -/
theorem Writes.unique {m : ByteStream ε α} {a a' : α} {bs bs' : Bytes} (h : Writes m a bs)
    (h' : Writes m a' bs') : bs = bs' :=
  (Prod.mk.inj (Outcome.ok.inj ((h []).symm.trans (h' [])))).2

/-- A writer only appends. -/
def Appends (m : ByteStream ε α) : Prop :=
  ∀ buf a buf', m.run buf = .ok (a, buf') → ∃ bs, buf' = buf ++ bs

/-- What writes fixed bytes appends them. -/
theorem Writes.appends {m : ByteStream ε α} {a : α} {bs : Bytes} (hm : Writes m a bs) :
    Appends m := by
  intro buf a' buf' h
  rw [hm buf] at h
  exact ⟨bs, (Prod.mk.inj (Outcome.ok.inj h)).2.symm⟩

theorem appends_panic (msg : String) : Appends (ByteStream.panic msg : ByteStream ε α) := by
  intro buf a buf' h
  cases h

theorem Appends.bind {m : ByteStream ε α} {f : α → ByteStream ε β} (hm : Appends m)
    (hf : ∀ a, Appends (f a)) : Appends (m >>= f) := by
  intro buf b buf'' h
  obtain ⟨a, buf', h, h'⟩ := ByteStream.run_bind_eq_ok_iff.mp h
  obtain ⟨bs, rfl⟩ := hm _ _ _ h
  obtain ⟨cs, rfl⟩ := hf a _ _ _ h'
  exact ⟨bs ++ cs, List.append_assoc ..⟩

/-- A value that is computed writes nothing. -/
theorem appends_lift (x : Outcome ε α) :
    Appends (StateT.lift x : ByteStream ε α) := by
  intro buf a buf' h
  obtain ⟨a', -, h⟩ := Outcome.bind_eq_ok_iff.mp h
  exact ⟨[], by rw [← (Prod.mk.inj (Outcome.ok.inj h)).2, List.append_nil]⟩

/-- The last writer of a sequence may return something else. -/
theorem Writes.map {m : ByteStream ε α} {a : α} {bs : Bytes} (hm : Writes m a bs) (f : α → β) :
    Writes (m >>= fun a => pure (f a)) (f a) bs := by
  have h := hm.bind (f := fun a => (pure (f a) : ByteStream ε β)) (writes_pure (f a))
  rwa [List.append_nil] at h

/-- `Read::read_exact` for `n` bytes. -/
def readExact (n : ℕ) : ByteStream IoError Bytes := fun b =>
  if n ≤ b.length then .ok (b.take n, b.drop n)
  else .err ⟨.UnexpectedEof, "failed to fill whole buffer"⟩

/-- As many bytes as there are in front. -/
theorem run_readExact_append (b rest : Bytes) :
    (readExact b.length).run (b ++ rest) = .ok (b, rest) := by
  show (if b.length ≤ (b ++ rest).length then _ else _) = _
  rw [if_pos (by simp), List.take_left, List.drop_left]

/-- A successful read splits the stream. -/
theorem run_readExact_eq_ok_iff {n : ℕ} {b x rest : Bytes} :
    (readExact n).run b = .ok (x, rest) ↔ b = x ++ rest ∧ x.length = n := by
  constructor
  · intro h
    change (if n ≤ b.length then _ else _) = _ at h
    split_ifs at h with hn
    · simp only [Outcome.ok.injEq, Prod.mk.injEq] at h
      obtain ⟨rfl, rfl⟩ := h
      exact ⟨(List.take_append_drop n b).symm, List.length_take_of_le hn⟩
  · rintro ⟨rfl, rfl⟩
    exact run_readExact_append x rest

/-- `read_exact` into an array `[0u8; n]`. -/
def readArray (n : ℕ) : ByteStream IoError (FixedBytes n) := fun b =>
  if h : n ≤ b.length then .ok (⟨b.take n, List.length_take_of_le h⟩, b.drop n)
  else .err ⟨.UnexpectedEof, "failed to fill whole buffer"⟩

/-- `Read::take`: a reader that sees no more than `limit` bytes. -/
def take (limit : ℕ) (m : ByteStream ε α) : ByteStream ε α := fun b =>
  match m.run (b.take limit) with
  | .ok (a, rest) => .ok (a, rest ++ b.drop limit)
  | .err e => .err e
  | .panic msg => .panic msg

/-- Behind the limit nothing is read, and nothing is lost. -/
theorem run_take_eq_ok_iff {limit : ℕ} {m : ByteStream ε α} {b rest : Bytes} {a : α} :
    (take limit m).run b = .ok (a, rest) ↔
      ∃ rest', m.run (b.take limit) = .ok (a, rest') ∧ rest' ++ b.drop limit = rest := by
  unfold take
  rw [StateT.run]
  rcases m.run (b.take limit) with ⟨a', rest'⟩ | e | msg <;> simp [and_assoc]

theorem run_take_eq_panic_iff {limit : ℕ} {m : ByteStream ε α} {b : Bytes} {msg : String} :
    (take limit m).run b = .panic msg ↔ m.run (b.take limit) = .panic msg := by
  unfold take
  rw [StateT.run]
  rcases m.run (b.take limit) with ⟨a, rest⟩ | e | msg' <;> simp

/-- In front of anything the reader `m` consumes exactly `bs` and returns `a`. -/
def Reads (m : ByteStream ε α) (a : α) (bs : Bytes) : Prop :=
  ∀ rest, m.run (bs ++ rest) = .ok (a, rest)

theorem reads_pure (a : α) : Reads (pure a : ByteStream ε α) a [] := fun _ => rfl

theorem reads_readExact (b : Bytes) : Reads (readExact b.length) b b :=
  fun rest => run_readExact_append b rest

theorem Reads.bind {m : ByteStream ε α} {f : α → ByteStream ε β} {a : α} {b : β} {bs cs : Bytes}
    (hm : Reads m a bs) (hf : Reads (f a) b cs) : Reads (m >>= f) b (bs ++ cs) := by
  intro rest
  rw [StateT.run_bind, List.append_assoc, hm, Outcome.ok_bind, hf]

/-- The value is changed after the reading. -/
theorem Reads.map {m : ByteStream ε α} {a : α} {bs : Bytes} (hm : Reads m a bs) (f : α → β) :
    Reads (m >>= fun a => pure (f a)) (f a) bs := by
  have h := hm.bind (f := fun a => (pure (f a) : ByteStream ε β)) (reads_pure (f a))
  rwa [List.append_nil] at h

/-- A computation that leaves the stream alone returns a value exactly when it
does by itself. -/
theorem ByteStream.run_lift_eq_ok_iff {x : Outcome ε α} {b b' : Bytes} {a : α} :
    (StateT.lift x : ByteStream ε α).run b = .ok (a, b') ↔ x = .ok a ∧ b' = b := by
  rw [StateT.run_lift, Outcome.bind_eq_ok_iff]
  constructor
  · rintro ⟨a', hx, h⟩
    obtain ⟨rfl, rfl⟩ := Prod.mk.inj (Outcome.ok.inj h)
    exact ⟨hx, rfl⟩
  · rintro ⟨hx, rfl⟩
    exact ⟨a, hx, rfl⟩

@[simp] theorem ByteStream.fail_bind (e : ε) (f : α → ByteStream ε β) :
    ByteStream.fail e >>= f = ByteStream.fail e := rfl

@[simp] theorem ByteStream.lift_panic_bind (msg : String) (f : α → ByteStream ε β) :
    (StateT.lift (.panic msg) : ByteStream ε α) >>= f = ByteStream.panic msg := rfl

@[simp] theorem ByteStream.lift_ok_bind (a : α) (f : α → ByteStream ε β) :
    (StateT.lift (.ok a) : ByteStream ε α) >>= f = f a := rfl

/-! ## Slices -/

/-- The panic of a slice that ends behind the buffer. -/
def sliceEndMessage (stop len : ℕ) : String :=
  s!"range end index {stop} out of range for slice of length {len}"

/-- The panic of a slice that ends before it starts. -/
def sliceOrderMessage (start stop : ℕ) : String :=
  s!"slice index starts at {start} but ends at {stop}"

/-- `buf[start..start + src.len()].copy_from_slice(src)`. -/
def copyFromSlice (buf : Bytes) (start : ℕ) (src : Bytes) : Outcome ε Bytes :=
  if start + src.length ≤ buf.length then
    .ok (buf.take start ++ src ++ buf.drop (start + src.length))
  else .panic (sliceEndMessage (start + src.length) buf.length)

/-- A copy replaces what stood at its place. -/
theorem copyFromSlice_of_eq {buf p q r src : Bytes} {start : ℕ} (hbuf : buf = p ++ (q ++ r))
    (hstart : start = p.length) (hlen : q.length = src.length) :
    (copyFromSlice buf start src : Outcome ε Bytes) = .ok (p ++ (src ++ r)) := by
  subst hbuf hstart
  have hfits : p.length + src.length ≤ (p ++ (q ++ r)).length := by
    simp only [List.length_append]
    omega
  have hdrop : (p ++ (q ++ r)).drop (p.length + q.length) = r := by
    rw [← List.append_assoc, ← List.length_append, List.drop_left]
  rw [copyFromSlice, if_pos hfits, List.take_left, ← hlen, hdrop, List.append_assoc]

/-- A copy into the rest of a buffer that has room for it. -/
theorem copyFromSlice_append {p q src : Bytes} {start : ℕ} (hstart : start = p.length)
    (hlen : src.length ≤ q.length) :
    (copyFromSlice (p ++ q) start src : Outcome ε Bytes)
      = .ok (p ++ (src ++ q.drop src.length)) := by
  apply copyFromSlice_of_eq (q := q.take src.length) _ hstart
  · rw [List.length_take, Nat.min_eq_left hlen]
  · rw [List.take_append_drop]

/-- `rotate_left`. -/
def rotateLeft (vec : Bytes) (mid : ℕ) : Outcome ε Bytes :=
  if mid ≤ vec.length then .ok (vec.rotate mid)
  else .panic "assertion failed: mid <= self.len()"

/-- `buf[start..stop]`.  The order of the two bounds is looked at first.  The texts of the
two panics are those of a recent stable toolchain. -/
def slice (buf : Bytes) (start stop : ℕ) : Outcome ε Bytes :=
  if stop < start then .panic (sliceOrderMessage start stop)
  else if buf.length < stop then .panic (sliceEndMessage stop buf.length)
  else .ok ((buf.take stop).drop start)

/-- A slice within the buffer. -/
theorem slice_eq_ok {buf : Bytes} {start stop : ℕ} (hstart : start ≤ stop)
    (hstop : stop ≤ buf.length) :
    (slice buf start stop : Outcome ε Bytes) = .ok ((buf.take stop).drop start) := by
  rw [slice, if_neg hstart.not_gt, if_neg hstop.not_gt]

/-- A part of a buffer. -/
theorem slice_of_eq {buf p q r : Bytes} {start stop : ℕ} (hbuf : buf = p ++ (q ++ r))
    (hstart : start = p.length) (hstop : stop = start + q.length) :
    (slice buf start stop : Outcome ε Bytes) = .ok q := by
  subst hbuf hstart hstop
  have hfits : p.length + q.length ≤ (p ++ (q ++ r)).length := by
    simp only [List.length_append]
    omega
  rw [slice_eq_ok (Nat.le_add_right _ _) hfits, ← List.append_assoc, ← List.length_append,
    List.take_left, List.drop_left]

/-- The first part of a buffer. -/
theorem slice_left {p q : Bytes} {n : ℕ} (hn : p.length = n) :
    (slice (p ++ q) 0 n : Outcome ε Bytes) = .ok p := by
  subst hn
  rw [slice_eq_ok (Nat.zero_le _) (by simp), List.take_left, List.drop_zero]

/-- The second part of a buffer. -/
theorem slice_right {p q : Bytes} {n : ℕ} (hn : p.length = n) :
    (slice (p ++ q) n (p ++ q).length : Outcome ε Bytes) = .ok q := by
  subst hn
  rw [slice_eq_ok (by simp) le_rfl, List.take_length, List.drop_left]

/-! ## Strings -/

/-- `split_once` at a character. -/
def splitOnce (c : Char) (s : String) : Option (String × String) :=
  if c ∈ s.toList then
    some (String.ofList (s.toList.takeWhile (· ≠ c)),
      String.ofList (s.toList.dropWhile (· ≠ c)).tail)
  else none

/-- The first occurrence of the character is the place of the split. -/
theorem splitOnce_append {c : Char} {p q : String} (hp : p.toList = q.toList ++ [c])
    (hq : c ∉ q.toList) (s : String) : splitOnce c (p ++ s) = some (q, s) := by
  have hall : ∀ x ∈ q.toList, decide (x ≠ c) = true := fun x hx =>
    decide_eq_true fun h => hq (h ▸ hx)
  have hsplit : (p ++ s).toList = q.toList ++ c :: s.toList := by
    rw [String.toList_append, hp, List.append_assoc, List.singleton_append]
  rw [splitOnce, hsplit, if_pos (by simp), List.takeWhile_append_of_pos hall,
    List.dropWhile_append_of_pos hall]
  simp

/-- The two parts of a split, with the character between them, are the text. -/
theorem splitOnce_eq_some_iff {c : Char} {s q t : String} :
    splitOnce c s = some (q, t) ↔ c ∉ q.toList ∧ s = q ++ String.singleton c ++ t := by
  constructor
  · intro h
    unfold splitOnce at h
    split_ifs at h with hmem
    obtain ⟨rfl, rfl⟩ := Prod.mk.inj (Option.some.inj h)
    rw [String.toList_ofList]
    refine ⟨fun hc => ?_, String.toList_injective ?_⟩
    · simpa using List.mem_takeWhile_imp hc
    · -- the character that ends the first part is the one to split at
      have hne : s.toList.dropWhile (· ≠ c) ≠ [] := by
        intro hnil
        have hall := List.dropWhile_eq_nil_iff.mp hnil c hmem
        simp at hall
      have hhead : (s.toList.dropWhile (· ≠ c)).head hne = c := by
        have hhead := List.head_dropWhile_not (fun x => decide (x ≠ c)) hne
        simpa using hhead
      have hcons := List.cons_head_tail hne
      rw [hhead] at hcons
      rw [String.toList_append, String.toList_append, String.toList_ofList, String.toList_ofList,
        String.toList_singleton, List.append_assoc, List.singleton_append, hcons,
        List.takeWhile_append_dropWhile]
  · rintro ⟨hq, rfl⟩
    refine splitOnce_append ?_ hq t
    rw [String.toList_append, String.toList_singleton]

/-- `starts_with`. -/
def startsWith (s p : String) : Bool := p.toList.isPrefixOf s.toList

/-- `ParseIntError` at an unsigned type, by its kind. -/
inductive ParseIntError where
  | Empty
  | InvalidDigit
  | PosOverflow
  deriving DecidableEq, Repr

namespace ParseIntError

/-- `Display`. -/
def display : ParseIntError → String
  | Empty => "cannot parse integer from empty string"
  | InvalidDigit => "invalid digit found in string"
  | PosOverflow => "number too large to fit in target type"

/-- `Debug`. -/
def debug : ParseIntError → String
  | Empty => "ParseIntError \x7b kind: Empty \x7d"
  | InvalidDigit => "ParseIntError \x7b kind: InvalidDigit \x7d"
  | PosOverflow => "ParseIntError \x7b kind: PosOverflow \x7d"

end ParseIntError

/-- The digits of a number of `bits` bits. -/
def parseDigits (bits : ℕ) : ℕ → List Char → Outcome ParseIntError ℕ
  | n, [] => .ok n
  | n, c :: cs =>
    if c.isDigit then
      let n' := n * 10 + (c.toNat - '0'.toNat)
      if n' < 2 ^ bits then parseDigits bits n' cs else .err .PosOverflow
    else .err .InvalidDigit

/-- `parse` at an unsigned integer type of `bits` bits. -/
def parseUnsigned (bits : ℕ) (s : String) : Outcome ParseIntError ℕ :=
  match s.toList with
  | [] => .err .Empty
  | ['+'] => .err .InvalidDigit
  | '+' :: cs => parseDigits bits 0 cs
  | cs => parseDigits bits 0 cs

/-- The characters that `char::is_whitespace` accepts. -/
def isWhitespace (c : Char) : Bool :=
  (9 ≤ c.toNat && c.toNat ≤ 13) || (0x2000 ≤ c.toNat && c.toNat ≤ 0x200A) ||
    [0x20, 0x85, 0xA0, 0x1680, 0x2028, 0x2029, 0x202F, 0x205F, 0x3000].contains c.toNat

/-- `str::trim`. -/
def trim (s : String) : String :=
  String.ofList ((s.toList.dropWhile isWhitespace).reverse.dropWhile isWhitespace).reverse

/-- The text is a number in decimal digits; it may start with zeros. -/
structure IsDecimal (s : String) (n : ℕ) : Prop where
  ne_nil : s.toList ≠ []
  digits : ∀ c ∈ s.toList, c.isDigit
  value : Nat.ofDigitChars 10 s.toList 0 = n

theorem isDecimal_toString (n : ℕ) : IsDecimal (toString n) n where
  ne_nil := by
    rw [Nat.toString_eq_repr, Nat.toList_repr]
    exact Nat.toDigits_ne_nil
  digits c hc := by
    rw [Nat.toString_eq_repr, Nat.toList_repr] at hc
    exact Nat.isDigit_of_mem_toDigits (by norm_num) le_rfl hc
  value := by
    rw [Nat.toString_eq_repr, Nat.toList_repr, Nat.ofDigitChars_ten_toDigits]

/-- Without white space nothing is trimmed. -/
theorem trim_eq_self {s : String} (h : ∀ c ∈ s.toList, isWhitespace c = false) : trim s = s := by
  have hdrop : ∀ l : List Char, (∀ c ∈ l, isWhitespace c = false) →
      l.dropWhile isWhitespace = l := by
    intro l hl
    cases l with
    | nil => rfl
    | cons c l => rw [List.dropWhile_cons_of_neg (by simp [hl c List.mem_cons_self])]
  rw [trim, hdrop _ h, hdrop _ (by simpa using h), List.reverse_reverse, String.ofList_toList]

/-- A decimal text has no white space. -/
theorem IsDecimal.trim_eq {n : ℕ} {s : String} (h : IsDecimal s n) : trim s = s := by
  apply trim_eq_self
  intro c hc
  have hdigit := h.digits c hc
  have hrange : 48 ≤ c.toNat ∧ c.toNat ≤ 57 := Char.isDigit_iff_toNat.mp hdigit
  unfold isWhitespace
  simp
  omega

/-! ## `usize` -/

/-- A `u64` cast to a `usize` of `bits` bits. -/
def asUsize (bits : ℕ) (n : UInt64) : ℕ := n.toNat % 2 ^ bits

/-- `usize::checked_add`. -/
def checkedAdd (bits a b : ℕ) : Option ℕ := if a + b < 2 ^ bits then some (a + b) else none

/-- `+` on `usize`. -/
def addUsize (bits a b : ℕ) : Outcome ε ℕ :=
  if a + b < 2 ^ bits then .ok (a + b) else .panic "attempt to add with overflow"

/-- `-` on `usize`. -/
def subUsize (a b : ℕ) : Outcome ε ℕ :=
  if b ≤ a then .ok (a - b) else .panic "attempt to subtract with overflow"

/-- `*` on `usize`. -/
def mulUsize (bits a b : ℕ) : Outcome ε ℕ :=
  if a * b < 2 ^ bits then .ok (a * b) else .panic "attempt to multiply with overflow"

/-! ## Vectors -/

/-- `Vec<T>`: a list whose length is a `usize`. -/
@[ext]
structure Vec (α : Type) where
  toList : List α
  length_lt : toList.length < 2 ^ 64
  deriving DecidableEq

namespace Vec

/-- `Vec::new`. -/
def empty : Vec α := ⟨[], by norm_num⟩

instance : Inhabited (Vec α) := ⟨empty⟩

/-- `len`. -/
def length (v : Vec α) : ℕ := v.toList.length

@[simp] theorem length_toList (v : Vec α) : v.toList.length = v.length := rfl

/-- A vector is determined by its elements. -/
theorem toList_injective : Function.Injective (Vec.toList : Vec α → List α) := by
  intro v w h
  exact Vec.ext h

/-- A vector that was filled element by element. -/
def ofList (l : List α) : Outcome ε (Vec α) :=
  if h : l.length < 2 ^ 64 then .ok ⟨l, h⟩ else .panic "capacity overflow"

/-- A list that is short enough is a vector. -/
theorem ofList_eq_ok_iff {l : List α} {v : Vec α} :
    (ofList l : Outcome ε (Vec α)) = .ok v ↔ v.toList = l := by
  unfold ofList
  constructor
  · intro h
    split_ifs at h
    rw [← Outcome.ok.inj h]
  · rintro rfl
    rw [dif_pos v.length_lt]

/-- A vector of as many elements. -/
def map (f : α → β) (v : Vec α) : Vec β :=
  ⟨v.toList.map f, by rw [List.length_map]; exact v.length_lt⟩

/-- The panic of an index behind the elements. -/
def indexMessage (len index : ℕ) : String :=
  s!"index out of bounds: the len is {len} but the index is {index}"

/-- `v[i]`. -/
def get (v : Vec α) (i : ℕ) : Outcome ε α :=
  match v.toList[i]? with
  | some a => .ok a
  | none => .panic (indexMessage v.length i)

/-- Write to one element; out of range nothing is changed. -/
def modify (v : Vec α) (i : ℕ) (f : α → α) : Vec α :=
  ⟨v.toList.modify i f, by rw [List.length_modify]; exact v.length_lt⟩

@[simp] theorem toList_modify (v : Vec α) (i : ℕ) (f : α → α) :
    (v.modify i f).toList = v.toList.modify i f := rfl

/-- A property of all elements survives a write that keeps it. -/
theorem forall_mem_modify {v : Vec α} {i : ℕ} {f : α → α} {p : α → Prop}
    (hv : ∀ a ∈ v.toList, p a) (hf : ∀ a ∈ v.toList, p (f a)) :
    ∀ a ∈ (v.modify i f).toList, p a := by
  intro a ha
  obtain ⟨j, hj, rfl⟩ := List.mem_iff_getElem.mp ha
  simp only [toList_modify, List.getElem_modify]
  have hmem := List.getElem_mem (l := v.toList) (by simpa using hj)
  split_ifs
  · exact hf _ hmem
  · exact hv _ hmem

/-- Assign to an element, as `v[i].field = x`. -/
def assign (v : Vec α) (i : ℕ) (f : α → α) : Outcome ε (Vec α) :=
  if i < v.length then .ok (v.modify i f) else .panic (indexMessage v.length i)

/-- An index in range is assigned; every other one panics. -/
theorem assign_eq_ok_iff {v w : Vec α} {i : ℕ} {f : α → α} :
    (v.assign i f : Outcome ε (Vec α)) = .ok w ↔ i < v.length ∧ w = v.modify i f := by
  unfold assign
  split_ifs with hi
  · rw [Outcome.ok.injEq, eq_comm]
    simp [hi]
  · simp [hi]

/-- The length survives the conversion to `u64`. -/
theorem toNat_ofNat_length (v : Vec α) : (UInt64.ofNat v.length).toNat = v.length := by
  rw [UInt64.toNat_ofNat']
  exact Nat.mod_eq_of_lt v.length_lt

end Vec

end Rust
