/-
# Strict readers of recursive length prefix

`decodeStrict` takes only what `Item.encode` writes: a length that could be written shorter, or a
byte behind the item, is refused.  A reader of items takes exactly the items that are written for
its values (`TakesItems`); there is one for byte strings, for strings of a fixed length, for
integers without leading zero bytes and for lists.
-/
import OmniTransaction.Rlp
import OmniTransaction.Rust

open ByteOrder Rust

namespace Rlp

/-! ## Whole strings -/

/-- Read an item that is the whole string, and refuse one that would be written otherwise. -/
def decodeStrict (b : Bytes) : Option Item :=
  match decode b with
  | some (t, []) => if t.encode = b then some t else none
  | _ => none

/-- What is decoded strictly was encoded. -/
theorem encode_of_decodeStrict {b : Bytes} {t : Item} (h : decodeStrict b = some t) :
    t.encode = b := by
  unfold decodeStrict at h
  split at h
  · split_ifs at h with hencode
    obtain rfl := Option.some.inj h
    exact hencode
  · cases h

/-- Every encoding is decoded strictly, also one of nested lists. -/
theorem decodeStrict_encode {t : Item} (ht : t.encode.length < 2 ^ 64) :
    decodeStrict t.encode = some t := by
  have hdecode := decode_encode_append ht []
  rw [List.append_nil] at hdecode
  rw [decodeStrict, hdecode]
  exact if_pos rfl

/-! ## Readers of items -/

variable {α : Type}

/-- The reader takes exactly the items that stand for values. -/
def TakesItems (read : Item → Option α) (item : α → Item) : Prop :=
  ∀ t a, read t = some a ↔ t = item a

/-- A string, whatever is in it. -/
def readStr : Item → Option Bytes
  | .str b => some b
  | .list _ => none

/-- Every string item is taken as its bytes. -/
theorem takesItems_str : TakesItems readStr Item.str := by
  intro t b
  cases t with
  | str b' =>
    rw [readStr, Option.some.injEq, Item.str.injEq]
  | list ts =>
    constructor
    · intro h
      cases h
    · intro h
      cases h

/-- A string that must have a property. -/
def readWhere (p : Bytes → Prop) [DecidablePred p] : Item → Option { b // p b }
  | .str b => if h : p b then some ⟨b, h⟩ else none
  | .list _ => none

/-- A string item is taken when its bytes have the property. -/
theorem takesItems_where (p : Bytes → Prop) [DecidablePred p] :
    TakesItems (readWhere p) fun b => .str b.val := by
  intro t b
  cases t with
  | str b' =>
    rw [readWhere, Item.str.injEq]
    constructor
    · intro h
      split_ifs at h
      obtain rfl := Option.some.inj h
      rfl
    · rintro rfl
      exact dif_pos b.property
  | list ts =>
    constructor
    · intro h
      cases h
    · intro h
      cases h

/-- The string of a canonical integer of at most `k` bytes. -/
def IsCanonical (k : ℕ) (b : Bytes) : Prop := b.length ≤ k ∧ b.head? ≠ some 0

instance (k : ℕ) : DecidablePred (IsCanonical k) := fun _ => inferInstanceAs (Decidable (_ ∧ _))

/-- The shortest digits of a number are canonical when they are few enough. -/
theorem isCanonical_minimalBe_iff {k n : ℕ} : IsCanonical k (minimalBe n) ↔ n < 256 ^ k :=
  (and_iff_left (head?_minimalBe_ne_zero n)).trans length_minimalBe_le_iff

/-- Canonical bytes are the digits of their number. -/
theorem minimalBe_ofBeBytes_of_isCanonical {k : ℕ} {b : Bytes} (h : IsCanonical k b) :
    minimalBe (ofBeBytes b) = b := by
  rw [minimalBe_ofBeBytes]
  cases b with
  | nil => rfl
  | cons x b =>
    have hx : x ≠ 0 := fun hx => h.2 (congrArg some hx)
    rw [List.dropWhile_cons_of_neg (by simpa using hx)]

/-- An integer of at most `k` bytes without leading zero bytes. -/
def readUint (k : ℕ) (t : Item) : Option ℕ :=
  (readWhere (IsCanonical k) t).map fun b => ofBeBytes b.val

/-- A number is read from its shortest digits only. -/
theorem readUint_eq_some_iff {k n : ℕ} {t : Item} :
    readUint k t = some n ↔ n < 256 ^ k ∧ t = .str (minimalBe n) := by
  rw [readUint, Option.map_eq_some_iff]
  constructor
  · rintro ⟨b, hb, rfl⟩
    obtain rfl := (takesItems_where _ t b).mp hb
    have hminimal := minimalBe_ofBeBytes_of_isCanonical b.property
    rw [← isCanonical_minimalBe_iff, hminimal]
    exact ⟨b.property, rfl⟩
  · rintro ⟨hn, rfl⟩
    exact ⟨⟨minimalBe n, isCanonical_minimalBe_iff.mpr hn⟩, (takesItems_where _ _ _).mpr rfl,
      ofBeBytes_minimalBe n⟩

/-- A string of `n` bytes. -/
def readFixed (n : ℕ) (t : Item) : Option (FixedBytes n) := readWhere (fun b => b.length = n) t

/-- A string of exactly that length is taken. -/
theorem takesItems_fixed (n : ℕ) : TakesItems (readFixed n) fun b => .str b.toList :=
  takesItems_where _

/-- A list whose items are all taken. -/
def readList (read : Item → Option α) : Item → Option (List α)
  | .list ts => ts.mapM read
  | .str _ => none

/-- A list is taken item by item. -/
theorem TakesItems.list {read : Item → Option α} {item : α → Item} (h : TakesItems read item) :
    TakesItems (readList read) fun l => .list (l.map item) := by
  intro t l
  cases t with
  | str b =>
    constructor
    · intro h
      cases h
    · intro h
      cases h
  | list ts =>
    rw [readList, Item.list.injEq]
    induction ts generalizing l with
    | nil =>
      rw [List.mapM_nil, eq_comm, @eq_comm _ [], List.map_eq_nil_iff]
      exact ⟨fun hl => (Option.some.inj hl), fun hl => congrArg some hl⟩
    | cons t ts ih =>
      rw [List.mapM_cons]
      simp only [Option.bind_eq_bind, Option.bind_eq_some_iff]
      constructor
      · rintro ⟨a, ha, l', hl', hl⟩
        obtain rfl := Option.some.inj hl
        rw [(h t a).mp ha, (ih l').mp hl', List.map_cons]
      · intro hl
        cases l with
        | nil => cases hl
        | cons a l =>
          obtain ⟨ht, hts⟩ := List.cons.inj hl
          exact ⟨a, (h t a).mpr ht, l, (ih l).mpr hts, rfl⟩

end Rlp
