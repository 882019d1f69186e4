/-
# The streaming RLP writer

`RlpStream` is the stack machine behind the builder interface of an RLP writer:
`append` adds a byte string to the innermost open list, or to the output when no
list is open; `beginUnboundedList` opens a list and `finalizeUnboundedList`
closes the innermost one; `out` returns the output and panics while a list is
open.

A program writes a list of items (`Writes`) when from every state it adds
exactly the encodings of these items to the innermost open list.  The rules
below compute the items written by sequences, loops and bracketed lists.
-/
import OmniTransaction.Rlp
import OmniTransaction.Rust

open ByteOrder Rust

namespace Rlp

/-- The writer's state: the output and the payloads of the open lists, innermost
first. -/
structure RlpStream where
  buffer : Bytes
  unfinishedLists : List Bytes

namespace RlpStream

/-- `RlpStream::new`. -/
def new : RlpStream := ⟨[], []⟩

/-- Add encoded bytes at the innermost level. -/
def push (s : RlpStream) (b : Bytes) : RlpStream :=
  match s.unfinishedLists with
  | [] => { s with buffer := s.buffer ++ b }
  | p :: ps => { s with unfinishedLists := (p ++ b) :: ps }

@[simp] theorem push_nil (s : RlpStream) : s.push [] = s := by
  rcases s with ⟨buffer, _ | ⟨p, ps⟩⟩ <;> simp [push]

@[simp] theorem push_push (s : RlpStream) (a b : Bytes) :
    (s.push a).push b = s.push (a ++ b) := by
  rcases s with ⟨buffer, _ | ⟨p, ps⟩⟩ <;> simp [push]

/-- A program on the writer; its calls return no `Err`. -/
abbrev Builder := StateT RlpStream (Outcome Empty)

/-- The string an unsigned integer of `k` bytes is appended as: its big-endian
bytes without the leading zero bytes. -/
def uintBytes (k n : ℕ) : Bytes := (beBytes k n).dropWhile (· == 0)

/-- The bytes of a number without the zeros in front. -/
theorem uintBytes_eq_minimalBe {k n : ℕ} (h : n < 256 ^ k) : uintBytes k n = minimalBe n :=
  dropWhile_beBytes h

/-- Append a byte string. -/
def append (value : Bytes) : Builder Unit := fun s => .ok ((), s.push (encodeStr value))

/-- Open a list. -/
def beginUnboundedList : Builder Unit := fun s =>
  .ok ((), { s with unfinishedLists := [] :: s.unfinishedLists })

/-- Close the innermost list. -/
def finalizeUnboundedList : Builder Unit := fun s =>
  match s.unfinishedLists with
  | [] => .panic "No open list."
  | p :: ps => .ok ((), { s with unfinishedLists := ps }.push (header 0xc0 p.length ++ p))

/-- The finished output. -/
def out : Builder Bytes := fun s =>
  match s.unfinishedLists with
  | [] => .ok (s.buffer, s)
  | _ :: _ => .panic "explicit panic"

/-! ## The items a program writes -/

/-- From every state the program adds exactly the encodings of `xs` at the
innermost level, and opens and closes lists in pairs. -/
def Writes (m : Builder Unit) (xs : List Item) : Prop :=
  ∀ s, m.run s = .ok ((), s.push (encodeAll xs))

theorem writes_pure : Writes (pure ()) [] := by
  intro s
  rw [encodeAll_nil, push_nil]
  rfl

theorem writes_append (value : Bytes) : Writes (append value) [.str value] := by
  intro s
  rw [encodeAll_cons, encodeAll_nil, List.append_nil, Item.encode]
  rfl

theorem Writes.seq {m m' : Builder Unit} {xs ys : List Item} (hm : Writes m xs)
    (hm' : Writes m' ys) : Writes (m >>= fun _ => m') (xs ++ ys) := by
  intro s
  rw [StateT.run_bind, hm s, Outcome.ok_bind, hm' _, push_push, encodeAll_append]

/-- A bracketed program writes one list item. -/
theorem Writes.list {m : Builder Unit} {xs : List Item} (hm : Writes m xs) :
    Writes (beginUnboundedList >>= fun _ => m >>= fun _ => finalizeUnboundedList)
      [.list xs] := by
  intro s
  have hopen : beginUnboundedList.run s
      = .ok ((), { s with unfinishedLists := [] :: s.unfinishedLists }) := rfl
  rw [StateT.run_bind, hopen, Outcome.ok_bind, StateT.run_bind, hm, Outcome.ok_bind,
    encodeAll_cons, encodeAll_nil, List.append_nil, Item.encode]
  rfl

/-- A loop writes what its rounds write, in order. -/
theorem Writes.forM {α : Type} {f : α → Builder Unit} {g : α → List Item}
    (hf : ∀ a, Writes (f a) (g a)) (l : List α) : Writes (l.forM f) (l.flatMap g) := by
  induction l with
  | nil => exact writes_pure
  | cons a l ih => exact (hf a).seq ih

/-- A program that writes `xs` on a fresh stream leaves no list open, and `out`
returns the encodings. -/
theorem Writes.run_out {m : Builder Unit} {xs : List Item} (hm : Writes m xs) :
    (m >>= fun _ => out).run' RlpStream.new = .ok (encodeAll xs) := by
  rw [StateT.run'_eq, StateT.run_bind, hm, Outcome.ok_bind]
  -- a fresh stream has no open list, and none is left open
  simp only [RlpStream.new, push, List.nil_append]
  rfl

end RlpStream

end Rlp
