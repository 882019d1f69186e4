/-
# Scripts that push data

Reading of a Bitcoin script that does nothing but push byte strings: `00` to `4b` push as
many bytes as they say, `4c`, `4d` and `4e` push a string whose length stands behind them
in one, two or four bytes.  Every push takes a byte more than its string, and more than
one if the string is longer than 75 bytes (`readPush_length`).
-/
import OmniTransaction.ByteOrder

open ByteOrder

namespace ScriptPush

/-- The longest string that a single byte can push. -/
def maxDirect : ℕ := 75

/-! ## One push -/

/-- The first `n` bytes and the rest. -/
def takeData (n : ℕ) (b : Bytes) : Option (Bytes × Bytes) :=
  if n ≤ b.length then some (b.take n, b.drop n) else none

/-- A string behind its length in `k` bytes, the least significant one first. -/
def takeCounted (k : ℕ) (b : Bytes) : Option (Bytes × Bytes) := do
  let (len, b) ← takeData k b
  takeData (ofLeBytes len) b

/-- The string that is pushed first, and the rest of the script. -/
def readPush : Bytes → Option (Bytes × Bytes)
  | [] => none
  | op :: b =>
    if op.toNat ≤ maxDirect then takeData op.toNat b
    else if op = 0x4c then takeCounted 1 b
    else if op = 0x4d then takeCounted 2 b
    else if op = 0x4e then takeCounted 4 b
    else none

variable {b data rest : Bytes} {l : List Bytes}

theorem takeData_eq_some_iff {n : ℕ} :
    takeData n b = some (data, rest) ↔ b = data ++ rest ∧ data.length = n := by
  unfold takeData
  constructor
  · intro h
    split_ifs at h with hn
    obtain ⟨rfl, rfl⟩ := Prod.mk.inj (Option.some.inj h)
    exact ⟨(List.take_append_drop n b).symm, List.length_take_of_le hn⟩
  · rintro ⟨rfl, rfl⟩
    rw [if_pos (by simp), List.take_left, List.drop_left]

theorem length_takeCounted {k : ℕ} (h : takeCounted k b = some (data, rest)) :
    b.length = k + data.length + rest.length := by
  obtain ⟨⟨len, b'⟩, hlen, hdata⟩ := Option.bind_eq_some_iff.mp h
  obtain ⟨rfl, hk⟩ := takeData_eq_some_iff.mp hlen
  obtain ⟨rfl, -⟩ := takeData_eq_some_iff.mp hdata
  rw [List.length_append, List.length_append, hk, Nat.add_assoc]

/-- A push takes its string and a byte, and more than a byte for a long string. -/
theorem readPush_length (h : readPush b = some (data, rest)) :
    data.length + rest.length + 1 ≤ b.length ∧
      (maxDirect < data.length → data.length + rest.length + 1 < b.length) := by
  unfold readPush at h
  split at h
  · cases h
  · rename_i op b
    rw [List.length_cons]
    split_ifs at h with hdirect
    · obtain ⟨rfl, hlen⟩ := takeData_eq_some_iff.mp h
      rw [List.length_append]
      exact ⟨le_rfl, fun hlt => absurd hlt (by omega)⟩
    -- the length takes bytes of its own
    · have hlen := length_takeCounted h
      omega
    · have hlen := length_takeCounted h
      omega
    · have hlen := length_takeCounted h
      omega

/-- A short string behind its length. -/
theorem readPush_cons (hdata : data.length ≤ maxDirect) (rest : Bytes) :
    readPush (UInt8.ofNat data.length :: (data ++ rest)) = some (data, rest) := by
  have hop : (UInt8.ofNat data.length).toNat = data.length := by
    unfold maxDirect at hdata
    exact UInt8.toNat_ofNat_of_lt' (show data.length < 256 by omega)
  rw [readPush, hop, if_pos hdata]
  exact takeData_eq_some_iff.mpr ⟨rfl, rfl⟩

/-! ## Scripts -/

/-- The script pushes these strings, in this order and nothing else. -/
inductive Pushes : Bytes → List Bytes → Prop where
  | nil : Pushes [] []
  | cons {b data rest : Bytes} {l : List Bytes} (h : readPush b = some (data, rest))
      (hrest : Pushes rest l) : Pushes b (data :: l)

/-- Read `fuel` pushes at most. -/
def readPushes : ℕ → Bytes → Option (List Bytes)
  | _, [] => some []
  | 0, _ :: _ => none
  | fuel + 1, b => do
    let (data, rest) ← readPush b
    let l ← readPushes fuel rest
    return data :: l

/-- The strings that a script pushes, if it is made of pushes only. -/
def pushes (b : Bytes) : Option (List Bytes) := readPushes b.length b

theorem pushes_of_readPushes {fuel : ℕ} (h : readPushes fuel b = some l) : Pushes b l := by
  induction fuel generalizing b l with
  | zero =>
      cases b with
      | nil =>
          obtain rfl := Option.some.inj h
          exact .nil
      | cons op b => cases h
  | succ fuel ih =>
      cases b with
      | nil =>
          obtain rfl := Option.some.inj h
          exact .nil
      | cons op b =>
          obtain ⟨⟨data, rest⟩, hpush, h⟩ := Option.bind_eq_some_iff.mp h
          obtain ⟨l', hl', h⟩ := Option.bind_eq_some_iff.mp h
          obtain rfl := Option.some.inj h
          exact .cons hpush (ih hl')

/-- A script has no more pushes than bytes. -/
theorem Pushes.readPushes_eq (h : Pushes b l) {fuel : ℕ} (hfuel : b.length ≤ fuel) :
    readPushes fuel b = some l := by
  induction h generalizing fuel with
  | nil => cases fuel <;> rfl
  | @cons b data rest l hpush _ ih =>
      have hlen := (readPush_length hpush).1
      obtain ⟨fuel, rfl⟩ := Nat.exists_eq_add_one_of_ne_zero (show fuel ≠ 0 by omega)
      cases b with
      | nil => cases hpush
      | cons op b =>
          show (readPush (op :: b) >>= fun p =>
            readPushes fuel p.2 >>= fun l => some (p.1 :: l)) = _
          rw [hpush]
          show (readPushes fuel rest >>= fun l => some (data :: l)) = _
          rw [ih (by omega)]
          rfl

theorem pushes_eq_some_iff : pushes b = some l ↔ Pushes b l :=
  ⟨pushes_of_readPushes, fun h => h.readPushes_eq le_rfl⟩

/-- The bytes of a script are enough for a byte and the string of every push. -/
theorem Pushes.sum_length_le (h : Pushes b l) :
    (l.map fun data => data.length + 1).sum ≤ b.length := by
  induction h with
  | nil => exact le_rfl
  | cons hpush _ ih =>
      have hlen := (readPush_length hpush).1
      rw [List.map_cons, List.sum_cons]
      omega

/-- If they are no more than that, no string is long. -/
theorem Pushes.length_le (h : Pushes b l)
    (hlen : b.length = (l.map fun data => data.length + 1).sum) :
    ∀ data ∈ l, data.length ≤ maxDirect := by
  induction h with
  | nil => exact List.forall_mem_nil _
  | @cons b data rest l hpush hrest ih =>
      obtain ⟨hle, hlong⟩ := readPush_length hpush
      have hsum := hrest.sum_length_le
      rw [List.map_cons, List.sum_cons] at hlen
      refine List.forall_mem_cons.mpr ⟨?_, ih (by omega)⟩
      by_contra hlt
      have hmore := hlong (not_le.mp hlt)
      omega

/-- The script of strings, each behind a byte for its length. -/
def directScript (l : List Bytes) : Bytes :=
  l.flatMap fun data => UInt8.ofNat data.length :: data

theorem length_directScript (l : List Bytes) :
    (directScript l).length = (l.map fun data => data.length + 1).sum := by
  simp [directScript, List.length_flatMap]

/-- It pushes the strings exactly when none of them is long. -/
theorem pushes_directScript_iff :
    Pushes (directScript l) l ↔ ∀ data ∈ l, data.length ≤ maxDirect := by
  constructor
  · exact fun h => h.length_le (length_directScript l)
  · intro h
    induction l with
    | nil => exact .nil
    | cons data l ih =>
        obtain ⟨hdata, hl⟩ := List.forall_mem_cons.mp h
        exact .cons (readPush_cons hdata (directScript l)) (ih hl)

end ScriptPush
