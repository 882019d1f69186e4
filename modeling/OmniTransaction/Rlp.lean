/-
# Recursive length prefix

RLP items are trees of byte strings (`Item`).  `Item.encode` is their encoding:
a string or the concatenated items of a list behind a length header, which is
one byte up to length 55 and carries the length in big-endian bytes above.
`decode` reads an item back from the front of a byte string
(`decode_encode_append`), so items whose encoding is shorter than `2 ^ 64`
bytes, the lengths a header can carry, are determined by their encoding
(`Item.encode_append_inj`).
-/
import Mathlib.Tactic.Common
import OmniTransaction.ByteOrder

open ByteOrder

namespace Rlp

/-- An RLP item: a byte string or a list of items. -/
inductive Item where
  | str (b : Bytes)
  | list (xs : List Item)

/-- The header of a payload of `n` bytes; `off` is `0x80` for a string and
`0xc0` for a list. -/
def header (off n : ℕ) : Bytes :=
  if n ≤ 55 then [UInt8.ofNat (off + n)]
  else UInt8.ofNat (off + 55 + (minimalBe n).length) :: minimalBe n

/-- A byte string; a single byte below `0x80` stands for itself. -/
def encodeStr : Bytes → Bytes
  | [x] => if x < 0x80 then [x] else header 0x80 1 ++ [x]
  | b => header 0x80 b.length ++ b

mutual

/-- The encoding of an item. -/
def Item.encode : Item → Bytes
  | .str b => encodeStr b
  | .list xs => header 0xc0 (encodeAll xs).length ++ encodeAll xs

/-- The encodings of a list of items, one after the other. -/
def encodeAll : List Item → Bytes
  | [] => []
  | x :: xs => x.encode ++ encodeAll xs

end

@[simp] theorem encodeAll_nil : encodeAll [] = [] := by rw [encodeAll]

@[simp] theorem encodeAll_cons (x : Item) (xs : List Item) :
    encodeAll (x :: xs) = x.encode ++ encodeAll xs := by rw [encodeAll]

@[simp] theorem encodeAll_append (xs ys : List Item) :
    encodeAll (xs ++ ys) = encodeAll xs ++ encodeAll ys := by
  induction xs with
  | nil => simp
  | cons x xs ih => simp [ih]

theorem length_header_pos (off n : ℕ) : 0 < (header off n).length := by
  unfold header
  split_ifs <;> simp

theorem length_encodeStr_pos (b : Bytes) : 0 < (encodeStr b).length := by
  have := length_header_pos 0x80 b.length
  unfold encodeStr
  split
  · split_ifs <;> simp
  · rw [List.length_append]
    omega

/-- No item is encoded by nothing. -/
theorem Item.length_encode_pos (t : Item) : 0 < t.encode.length := by
  cases t with
  | str b =>
      rw [Item.encode]
      exact length_encodeStr_pos b
  | list xs =>
      rw [Item.encode, List.length_append]
      have := length_header_pos 0xc0 (encodeAll xs).length
      omega

/-- A header has at most nine bytes, the length among them. -/
theorem length_header_le {n : ℕ} (hn : n < 2 ^ 64) (off : ℕ) : (header off n).length ≤ 9 := by
  have hlen : (minimalBe n).length ≤ 8 := length_minimalBe_le_iff.mpr (by omega)
  unfold header
  split_ifs
  · simp
  · rw [List.length_cons]
    omega

/-- The first byte of a list as a byte. -/
theorem le_ofNat {n : ℕ} (hle : 0xc0 ≤ n) (hlt : n < 256) : (0xc0 : UInt8) ≤ UInt8.ofNat n := by
  rw [UInt8.le_iff_toNat_le, UInt8.toNat_ofNat_of_lt' hlt]
  exact hle

/-- The first byte of a list is `0xc0` or more. -/
theorem exists_encode_list_eq {xs : List Item} (hxs : (Item.list xs).encode.length < 2 ^ 64) :
    ∃ (first : UInt8) (rest : Bytes), (Item.list xs).encode = first :: rest ∧ 0xc0 ≤ first := by
  rw [Item.encode, List.length_append] at hxs
  have hlength : (minimalBe (encodeAll xs).length).length ≤ 8 :=
    length_minimalBe_le_iff.mpr (by omega)
  rw [Item.encode, header]
  split_ifs with hshort
  · exact ⟨_, _, rfl, le_ofNat (by omega) (by omega)⟩
  · exact ⟨_, _, rfl, le_ofNat (by omega) (by omega)⟩

/-- A string grows by its header. -/
theorem length_encodeStr_le {b : Bytes} (hb : b.length < 2 ^ 64) :
    (encodeStr b).length ≤ b.length + 9 := by
  unfold encodeStr
  split
  · split_ifs
    · simp
    · have := length_header_le (n := 1) (by omega) 0x80
      rw [List.length_append, List.length_singleton]
      omega
  · have := length_header_le hb 0x80
    rw [List.length_append]
    omega

/-- Only a single byte may stand without a header. -/
theorem length_encodeStr_of_two_le {b : Bytes} (hb : 2 ≤ b.length) :
    (encodeStr b).length = (header 0x80 b.length).length + b.length := by
  unfold encodeStr
  split
  · simp at hb
  · rw [List.length_append]

/-- An encoded string is at most nine bytes longer. -/
theorem Item.length_encode_str_le {b : Bytes} (hb : b.length < 2 ^ 64) :
    (Item.str b).encode.length ≤ b.length + 9 := by
  rw [Item.encode]
  exact length_encodeStr_le hb

/-- An encoded list is at most nine bytes longer than its items. -/
theorem Item.length_encode_list_le (xs : List Item) (hxs : (encodeAll xs).length < 2 ^ 64) :
    (Item.list xs).encode.length ≤ (encodeAll xs).length + 9 := by
  have := length_header_le hxs 0xc0
  rw [Item.encode, List.length_append]
  omega

/-! ## Reading items back -/

/-- Split off the first `n` bytes. -/
def takeExact (n : ℕ) (b : Bytes) : Option (Bytes × Bytes) :=
  if n ≤ b.length then some (b.take n, b.drop n) else none

/-- As many bytes as there are in front. -/
theorem takeExact_append (b rest : Bytes) :
    takeExact b.length (b ++ rest) = some (b, rest) := by
  rw [takeExact, if_pos (by simp), List.take_left, List.drop_left]

/-- The payload behind a header whose first byte stands `n` above its offset. -/
def takePayload (n : ℕ) (b : Bytes) : Option (Bytes × Bytes) :=
  if n ≤ 55 then takeExact n b
  else do
    let (len, b) ← takeExact (n - 55) b
    takeExact (ofLeBytes len.reverse) b

/-- What the first byte of an item says its payload is. -/
inductive Kind where
  | str
  | list
  deriving DecidableEq

/-- Split the first item of a byte string into kind, payload and rest. -/
def splitItem : Bytes → Option (Kind × Bytes × Bytes)
  | [] => none
  | x :: b =>
      if x < 0x80 then some (.str, [x], b)
      else if x < 0xc0 then (takePayload (x.toNat - 0x80) b).map fun p => (.str, p)
      else (takePayload (x.toNat - 0xc0) b).map fun p => (.list, p)

mutual

/-- Read one item; `fuel` bounds the nesting and the number of items. -/
def decodeItem : ℕ → Bytes → Option (Item × Bytes)
  | 0, _ => none
  | fuel + 1, b =>
      match splitItem b with
      | none => none
      | some (.str, p, rest) => some (.str p, rest)
      | some (.list, p, rest) => (decodeAll fuel p).map fun xs => (.list xs, rest)

/-- Read items to the end of the string. -/
def decodeAll : ℕ → Bytes → Option (List Item)
  | _, [] => some []
  | 0, _ :: _ => none
  | fuel + 1, x :: b =>
      match decodeItem fuel (x :: b) with
      | none => none
      | some (t, rest) => (decodeAll fuel rest).map fun ts => t :: ts

end

/-- Read one item from the front of a byte string. -/
def decode (b : Bytes) : Option (Item × Bytes) := decodeItem (3 * b.length) b

/-- The header written for a payload leads back to the payload. -/
theorem takePayload_header {n : ℕ} (hn : n < 2 ^ 64) (p rest : Bytes) (hp : p.length = n) :
    ∃ m, m < 64 ∧ ∀ off, ∃ len, header off n = UInt8.ofNat (off + m) :: len ∧
      takePayload m (len ++ (p ++ rest)) = some (p, rest) := by
  by_cases hshort : n ≤ 55
  -- the first byte holds the length itself
  · refine ⟨n, by omega, fun off => ⟨[], by rw [header, if_pos hshort], ?_⟩⟩
    rw [takePayload, if_pos hshort, List.nil_append, ← hp, takeExact_append]
  -- the first byte holds the length of the length
  · have hlen : (minimalBe n).length ≤ 8 := length_minimalBe_le_iff.mpr (by omega)
    have hpos : 0 < (minimalBe n).length := by
      by_contra h
      have := length_minimalBe_le_iff.mp (Nat.le_of_not_lt h)
      omega
    refine ⟨55 + (minimalBe n).length, by omega, fun off => ⟨minimalBe n, ?_, ?_⟩⟩
    · rw [header, if_neg hshort, Nat.add_assoc]
    · rw [takePayload, if_neg (by omega), Nat.add_sub_cancel_left, takeExact_append]
      show takeExact (ofLeBytes (minimalBe n).reverse) (p ++ rest) = _
      rw [ofLeBytes_reverse_minimalBe, ← hp, takeExact_append]

/-- Behind the header of a string stands its payload. -/
theorem splitItem_header_str {p : Bytes} (hp : p.length < 2 ^ 64) (rest : Bytes) :
    splitItem (header 0x80 p.length ++ p ++ rest) = some (.str, p, rest) := by
  obtain ⟨m, hm, h⟩ := takePayload_header hp p rest rfl
  obtain ⟨len, hhead, htake⟩ := h 0x80
  have hx : (UInt8.ofNat (0x80 + m)).toNat = 0x80 + m := by
    rw [UInt8.toNat_ofNat']
    omega
  have h80 : UInt8.toNat 0x80 = 0x80 := rfl
  have hc0 : UInt8.toNat 0xc0 = 0xc0 := rfl
  rw [hhead, List.append_assoc, List.cons_append, splitItem,
    if_neg (by rw [UInt8.lt_iff_toNat_lt, hx, h80]; omega),
    if_pos (by rw [UInt8.lt_iff_toNat_lt, hx, hc0]; omega),
    hx, Nat.add_sub_cancel_left, htake]
  rfl

/-- Behind the header of a list stands its payload. -/
theorem splitItem_header_list {p : Bytes} (hp : p.length < 2 ^ 64) (rest : Bytes) :
    splitItem (header 0xc0 p.length ++ p ++ rest) = some (.list, p, rest) := by
  obtain ⟨m, hm, h⟩ := takePayload_header hp p rest rfl
  obtain ⟨len, hhead, htake⟩ := h 0xc0
  have hx : (UInt8.ofNat (0xc0 + m)).toNat = 0xc0 + m := by
    rw [UInt8.toNat_ofNat']
    omega
  have h80 : UInt8.toNat 0x80 = 0x80 := rfl
  have hc0 : UInt8.toNat 0xc0 = 0xc0 := rfl
  rw [hhead, List.append_assoc, List.cons_append, splitItem,
    if_neg (by rw [UInt8.lt_iff_toNat_lt, hx, h80]; omega),
    if_neg (by rw [UInt8.lt_iff_toNat_lt, hx, hc0]; omega),
    hx, Nat.add_sub_cancel_left, htake]
  rfl

/-- A string is split off in each of its three forms. -/
theorem splitItem_encodeStr {b : Bytes} (hb : b.length < 2 ^ 64) (rest : Bytes) :
    splitItem (encodeStr b ++ rest) = some (.str, b, rest) := by
  unfold encodeStr
  split
  · next x =>
      split_ifs with hx
      · rw [List.singleton_append, splitItem, if_pos hx]
      · exact splitItem_header_str (p := [x]) hb rest
  · exact splitItem_header_str hb rest

mutual

/-- Fuel that reading an item takes. -/
def Item.weight : Item → ℕ
  | .str _ => 1
  | .list xs => weightAll xs + 1

/-- Fuel that reading a list of items takes. -/
def weightAll : List Item → ℕ
  | [] => 0
  | x :: xs => x.weight + weightAll xs + 1

end

mutual

/-- An item is read in front of anything, given fuel for its weight. -/
theorem decodeItem_encode : ∀ (t : Item) (fuel : ℕ) (rest : Bytes), t.weight ≤ fuel →
    t.encode.length < 2 ^ 64 → decodeItem fuel (t.encode ++ rest) = some (t, rest)
  | .str b, fuel, rest, hfuel, hlen => by
      rw [Item.weight] at hfuel
      obtain ⟨fuel, rfl⟩ := Nat.exists_eq_add_of_le' hfuel
      rw [Item.encode] at hlen ⊢
      have hb : b.length < 2 ^ 64 := by
        refine lt_of_le_of_lt ?_ hlen
        unfold encodeStr
        split
        · split_ifs <;> simp
        · simp
      rw [decodeItem, splitItem_encodeStr hb]
  | .list xs, fuel, rest, hfuel, hlen => by
      rw [Item.weight] at hfuel
      obtain ⟨fuel, rfl⟩ := Nat.exists_eq_add_of_le' (Nat.le_trans (Nat.le_add_left 1 _) hfuel)
      rw [Item.encode, List.length_append] at hlen
      have hxs : (encodeAll xs).length < 2 ^ 64 := by omega
      rw [Item.encode, decodeItem, splitItem_header_list hxs]
      show (decodeAll fuel (encodeAll xs)).map _ = _
      rw [decodeAll_encodeAll xs fuel (by omega) hxs, Option.map_some]

/-- A row of items is read to its end. -/
theorem decodeAll_encodeAll : ∀ (xs : List Item) (fuel : ℕ), weightAll xs ≤ fuel →
    (encodeAll xs).length < 2 ^ 64 → decodeAll fuel (encodeAll xs) = some xs
  | [], fuel, _, _ => by rw [encodeAll_nil, decodeAll]
  | x :: xs, fuel, hfuel, hlen => by
      rw [weightAll] at hfuel
      obtain ⟨fuel, rfl⟩ := Nat.exists_eq_add_of_le' (Nat.le_trans (Nat.le_add_left 1 _) hfuel)
      rw [encodeAll_cons, List.length_append] at hlen
      have hpos := x.length_encode_pos
      have hitem := decodeItem_encode x fuel (encodeAll xs) (by omega) (by omega)
      rw [encodeAll_cons]
      cases henc : x.encode ++ encodeAll xs with
      | nil =>
          -- no item is encoded by nothing, so the reader sees that there is one
          rw [List.append_eq_nil_iff] at henc
          rw [henc.1] at hpos
          simp at hpos
      | cons y b =>
          rw [decodeAll, ← henc, hitem]
          show (decodeAll fuel (encodeAll xs)).map _ = _
          rw [decodeAll_encodeAll xs fuel (by omega) (by omega), Option.map_some]

end

mutual

/-- The length of the input is enough fuel. -/
theorem Item.weight_lt : ∀ t : Item, t.weight < 3 * t.encode.length
  | .str b => by
      have := length_encodeStr_pos b
      rw [Item.weight, Item.encode]
      omega
  | .list xs => by
      have := length_header_pos 0xc0 (encodeAll xs).length
      have := weightAll_le xs
      rw [Item.weight, Item.encode, List.length_append]
      omega

theorem weightAll_le : ∀ xs : List Item, weightAll xs ≤ 3 * (encodeAll xs).length
  | [] => by rw [weightAll, encodeAll_nil]; simp
  | x :: xs => by
      have := Item.weight_lt x
      have := weightAll_le xs
      rw [weightAll, encodeAll_cons, List.length_append]
      omega

end

/-- Reading returns the item that was written and leaves what follows it. -/
theorem decode_encode_append {t : Item} (ht : t.encode.length < 2 ^ 64) (rest : Bytes) :
    decode (t.encode ++ rest) = some (t, rest) := by
  -- three units of fuel for each byte are more than the item weighs
  refine decodeItem_encode t _ rest ?_ ht
  have := Item.weight_lt t
  rw [List.length_append]
  omega

/-- Items whose lengths headers can carry are determined by their encodings,
whatever follows them. -/
theorem Item.encode_append_inj {t u : Item} (ht : t.encode.length < 2 ^ 64)
    (hu : u.encode.length < 2 ^ 64) {s r : Bytes} (h : t.encode ++ s = u.encode ++ r) :
    t = u ∧ s = r := by
  have hread := decode_encode_append ht s
  rw [h, decode_encode_append hu r] at hread
  simpa [eq_comm] using hread

end Rlp
