/-
# Where a reader can panic

A derived reader does not panic by itself.  If it panics, one of the readers written by hand
panics at a part of the document: a reader that `PanicsOnlyAt` some documents is put
together from others that do (`panicsOnlyAt`).  For a structure the part is the value of one
of its fields (`Fields.PanicsAtField.struct`).
-/
import OmniTransaction.ReaderProperties

open ByteOrder Rust

namespace Serde

variable {α β : Type}

/-! ## Parts of a document -/

/-- The part of a document: the whole, or a part of an item or of the value of an entry. -/
inductive Json.Part : Json → Json → Prop where
  | refl (doc : Json) : Part doc doc
  | item {part item : Json} {items : List Json} (hitem : item ∈ items) (h : Part part item) :
      Part part (.arr items)
  | entry {part value : Json} {name : String} {entries : List (String × Json)}
      (hentry : (name, value) ∈ entries) (h : Part part value) : Part part (.obj entries)

/-- A part of a part is a part. -/
theorem Json.Part.trans {part doc doc' : Json} (h : part.Part doc) (h' : doc.Part doc') :
    part.Part doc' := by
  induction h' with
  | refl => exact h
  | item hitem _ ih => exact .item hitem ih
  | entry hentry _ ih => exact .entry hentry ih

/-- The value of a field is a part. -/
theorem Json.part_of_field {names : List String} {name : String} {value doc : Json}
    (h : doc.field names name = some value) : value.Part doc := by
  cases doc with
  | obj entries => exact .entry (mem_of_lookup h) (.refl value)
  | arr items => exact .item (List.of_mem_zip (mem_of_lookup h)).2 (.refl value)
  | _ => cases h

mutual

/-- The characters of the texts in a document, and its parts.  The text of the document is
at least as long. -/
def Json.size : Json → ℕ
  | .str s => s.length + 1
  | .arr items => Json.itemsSize items + 1
  | .obj entries => Json.entriesSize entries + 1
  | _ => 1

def Json.itemsSize : List Json → ℕ
  | [] => 0
  | item :: items => item.size + Json.itemsSize items

def Json.entriesSize : List (String × Json) → ℕ
  | [] => 0
  | ⟨_, value⟩ :: entries => value.size + Json.entriesSize entries

end

theorem Json.size_pos (doc : Json) : 0 < doc.size := by
  cases doc <;> exact Nat.succ_pos _

/-- Every item counts for one at least. -/
theorem Json.length_le_itemsSize (items : List Json) : items.length ≤ Json.itemsSize items := by
  induction items with
  | nil => exact le_rfl
  | cons item items ih =>
    have hpos := item.size_pos
    rw [List.length_cons, Json.itemsSize]
    omega

/-- An item is no larger than all of them. -/
theorem Json.size_le_itemsSize {item : Json} {items : List Json} (h : item ∈ items) :
    item.size ≤ Json.itemsSize items := by
  induction items with
  | nil => cases h
  | cons item' items ih =>
    rw [Json.itemsSize]
    rcases List.mem_cons.mp h with rfl | h
    · exact Nat.le_add_right _ _
    · exact (ih h).trans (Nat.le_add_left _ _)

/-- A value is no larger than all of them. -/
theorem Json.size_le_entriesSize {name : String} {value : Json} {entries : List (String × Json)}
    (h : (name, value) ∈ entries) : value.size ≤ Json.entriesSize entries := by
  induction entries with
  | nil => cases h
  | cons e entries ih =>
    obtain ⟨name', value'⟩ := e
    rw [Json.entriesSize]
    rcases List.mem_cons.mp h with heq | h
    · obtain ⟨rfl, rfl⟩ := Prod.mk.inj heq
      exact Nat.le_add_right _ _
    · exact (ih h).trans (Nat.le_add_left _ _)

/-- A part is no larger than the whole. -/
theorem Json.Part.size_le {part doc : Json} (h : part.Part doc) : part.size ≤ doc.size := by
  induction h with
  | refl => exact le_rfl
  | item hitem _ ih => exact ih.trans ((size_le_itemsSize hitem).trans (Nat.le_succ _))
  | entry hentry _ ih => exact ih.trans ((size_le_entriesSize hentry).trans (Nat.le_succ _))

/-- A document of `2 ^ 31` characters or more. -/
def Json.IsLarge (doc : Json) : Prop := 2 ^ 31 ≤ doc.size

/-! ## Readers of a single document -/

/-- If the reader panics, a part of the document is one of those. -/
def PanicsOnlyAt (P : Json → Prop) (read : Json → Outcome DeError α) : Prop :=
  ∀ doc msg, read doc = .panic msg → ∃ part : Json, part.Part doc ∧ P part

variable {P : Json → Prop} {read : Json → Outcome DeError α}

/-- What never panics, panics only where it may. -/
theorem panicsOnlyAt_of_never (h : ∀ doc msg, read doc ≠ .panic msg) : PanicsOnlyAt P read :=
  fun doc msg hpanic => absurd hpanic (h doc msg)

/-- What is done with the value afterwards does not panic. -/
theorem PanicsOnlyAt.map (h : PanicsOnlyAt P read) (f : α → β) :
    PanicsOnlyAt P fun doc => read doc >>= fun a => pure (f a) := by
  intro doc msg hpanic
  rcases Outcome.bind_eq_panic_iff.mp hpanic with hread | ⟨a, -, ha⟩
  · exact h doc msg hread
  · cases ha

/-- That the value is not used does not matter. -/
theorem panic_of_discard {doc : Json} {msg : String}
    (h : (read doc >>= fun _ => (pure () : Outcome DeError Unit)) = .panic msg) :
    read doc = .panic msg := by
  rcases Outcome.bind_eq_panic_iff.mp h with hread | ⟨a, -, ha⟩
  · exact hread
  · cases ha

/-- Reading a text does not panic. -/
theorem readString_ne_panic (level : ℕ) (doc : Json) (msg : String) :
    readString level doc ≠ .panic msg := by
  cases doc <;> simp [readString]

/-- Reading a byte does not panic. -/
theorem readU8_ne_panic (level : ℕ) (doc : Json) (msg : String) :
    readU8 level doc ≠ .panic msg := by
  unfold readU8 visitU8
  split
  · split_ifs <;> simp
  · simp

/-- A number out of range is an error. -/
theorem readUnsigned_ne_panic (bits : ℕ) (expected : String) (level : ℕ) (doc : Json)
    (msg : String) : readUnsigned bits expected level doc ≠ .panic msg := by
  unfold readUnsigned visitUnsigned
  split
  · split_ifs <;> simp
  · simp

/-- A document of any form is kept as it is. -/
theorem readValue_ne_panic (level : ℕ) (doc : Json) (msg : String) :
    readValue level doc ≠ .panic msg := by
  unfold readValue
  split_ifs <;> simp

/-- A document of the wrong form is an error. -/
theorem unexpected_ne_panic (expected : String) (level : ℕ) (doc : Json) (msg : String) :
    (unexpected expected level doc : Outcome DeError α) ≠ .panic msg := by
  unfold unexpected
  split <;> simp [closed]

/-- A list panics at an item or not at all. -/
theorem readVec_ne_panic (h : ∀ doc msg, read doc ≠ .panic msg) (level : ℕ) (doc : Json)
    (msg : String) : readVec read level doc ≠ .panic msg := by
  intro hpanic
  unfold readVec at hpanic
  split at hpanic
  · cases hpanic
  · obtain ⟨item, -, hitem⟩ := Outcome.exists_panic_of_mapM hpanic
    exact h item msg hitem
  · cases hpanic

/-- The limit of levels is an error. -/
theorem below_ne_panic {read : Reader α} (h : ∀ level doc msg, read level doc ≠ .panic msg)
    (level : ℕ) (doc : Json) (msg : String) : below read level doc ≠ .panic msg := by
  cases level with
  | zero => simp [below, closed]
  | succ level => exact h level doc msg

/-- A list of bytes never panics. -/
theorem readBytes_ne_panic (level : ℕ) (doc : Json) (msg : String) :
    readBytes level doc ≠ .panic msg :=
  readVec_ne_panic (below_ne_panic readU8_ne_panic level) level doc msg

/-- An array of the wrong length is an error. -/
theorem visitBytes_ne_panic (n : ℕ) (expected : String) (level : ℕ) (items : List Json)
    (msg : String) : visitBytes n expected level items ≠ .panic msg := by
  refine Outcome.bind_ne_panic (fun hpanic => ?_) fun bytes _ => ?_
  · obtain ⟨item, -, hitem⟩ := Outcome.exists_panic_of_mapM hpanic
    exact readU8_ne_panic level item msg hitem
  · split
    · split_ifs <;> simp
    · simp

/-- `null` is no value, and nothing else is added. -/
theorem PanicsOnlyAt.option (h : PanicsOnlyAt P read) : PanicsOnlyAt P (readOption read) := by
  intro doc msg hpanic
  unfold readOption at hpanic
  split at hpanic
  · cases hpanic
  · exact h.map some doc msg hpanic

/-- The item at which a list panics is a part of it. -/
theorem PanicsOnlyAt.vec (h : PanicsOnlyAt P read) (level : ℕ) :
    PanicsOnlyAt P (readVec read level) := by
  intro doc msg hpanic
  unfold readVec at hpanic
  split at hpanic
  · cases hpanic
  · obtain ⟨item, hitem, hread⟩ := Outcome.exists_panic_of_mapM hpanic
    obtain ⟨part, hpart, hP⟩ := h item msg hread
    exact ⟨part, .item hitem hpart, hP⟩
  · cases hpanic

/-- A vector has room for all items that a document has. -/
theorem PanicsOnlyAt.vector {read : Reader α} (h : ∀ level, PanicsOnlyAt Json.IsLarge (read level))
    (level : ℕ) : PanicsOnlyAt Json.IsLarge (readVector read level) := by
  intro doc msg hpanic
  have hbelow : PanicsOnlyAt Json.IsLarge (below read level) := by
    cases level with
    | zero => exact panicsOnlyAt_of_never fun _ _ => Outcome.err_ne_panic _ _
    | succ level => exact h level
  rcases Outcome.bind_eq_panic_iff.mp hpanic with hread | ⟨l, hl, hvec⟩
  · exact hbelow.vec level doc msg hread
  · refine ⟨doc, .refl doc, ?_⟩
    unfold readVec at hl
    split at hl
    · cases hl
    · rename_i items
      have hlength := (Outcome.forall₂_of_mapM hl).length_eq
      have hitems := Json.length_le_itemsSize items
      unfold Vec.ofList at hvec
      split_ifs at hvec with hlt
      show 2 ^ 31 ≤ Json.itemsSize items + 1
      omega
    · cases hl

/-! ## Structures -/

namespace Fields

/-- If the fields cannot be read, it is one of the readers that panics, at the value of its
field. -/
def PanicsAtField (f : Fields α) : Prop :=
  ∀ get : String → Outcome DeError (Option Json), (∀ name msg, get name ≠ .panic msg) →
    ∀ msg, f.read get = .panic msg →
      ∃ r ∈ f.readers, ∃ value, get r.1 = .ok (some value) ∧ r.2 value = .panic msg

/-- Without fields there is nothing to panic at. -/
theorem panicsAtField_start (build : α) : (start build).PanicsAtField := by
  intro get _ msg hpanic
  cases hpanic

/-- One more field, which does not panic where it is missing. -/
theorem PanicsAtField.fieldOr {f : Fields (α → β)} (h : f.PanicsAtField) (name : String)
    (read : Json → Outcome DeError α) {missing : Outcome DeError α}
    (hmissing : ∀ msg, missing ≠ .panic msg) : (f.fieldOr name read missing).PanicsAtField := by
  intro get hget msg hpanic
  rcases Outcome.bind_eq_panic_iff.mp hpanic with hf | ⟨build, -, hpanic⟩
  · obtain ⟨r, hr, value, hvalue, hread⟩ := h get hget msg hf
    exact ⟨r, List.mem_append_left _ hr, value, hvalue, hread⟩
  rcases Outcome.bind_eq_panic_iff.mp hpanic with hname | ⟨o, ho, hpanic⟩
  · exact absurd hname (hget name msg)
  rcases Outcome.bind_eq_panic_iff.mp hpanic with hvalue | ⟨a, -, ha⟩
  · cases o with
    | none => exact absurd hvalue (hmissing msg)
    | some value =>
      exact ⟨_, List.mem_append_right _ (List.mem_singleton_self _), value, ho,
        Outcome.bind_eq_panic_iff.mpr (.inl hvalue)⟩
  · cases ha

/-- A field that must be there is an error where it is missing. -/
theorem PanicsAtField.field {f : Fields (α → β)} (h : f.PanicsAtField) (name : String)
    (read : Json → Outcome DeError α) : (f.field name read).PanicsAtField :=
  h.fieldOr name read fun _ => Outcome.err_ne_panic _ _

/-- The entries are read one by one, and the first one with some name is where it ends. -/
theorem exists_of_checkEntries {readers : List (String × (Json → Outcome DeError Unit))}
    {seen : List String} {entries : List (String × Json)} {msg : String}
    (h : checkEntries readers seen entries = .panic msg) :
    ∃ r ∈ readers, r.1 ∉ seen ∧ ∃ value, entries.lookup r.1 = some value ∧
      r.2 value = .panic msg := by
  induction entries generalizing seen with
  | nil => cases h
  | cons e entries ih =>
    obtain ⟨name, value⟩ := e
    have hlater : ∀ {name' : String}, name' ≠ name →
        ((name, value) :: entries).lookup name' = entries.lookup name' := by
      intro name' hne
      rw [List.lookup_cons, beq_eq_false_iff_ne.mpr hne]
    rw [checkEntries] at h
    cases hlookup : readers.lookup name with
    | none =>
      rw [hlookup] at h
      obtain ⟨r, hr, hseen, value', hvalue', hread⟩ := ih h
      have hne : r.1 ≠ name := by
        rintro rfl
        exact lookup_eq_none_iff.mp hlookup (List.mem_map_of_mem hr)
      exact ⟨r, hr, hseen, value', (hlater hne).trans hvalue', hread⟩
    | some read =>
      rw [hlookup] at h
      replace h : (if name ∈ seen then Outcome.err _ else _) = _ := h
      split_ifs at h with hname
      rcases Outcome.bind_eq_panic_iff.mp h with hread | ⟨_, -, h⟩
      · exact ⟨(name, read), mem_of_lookup hlookup, hname, value, List.lookup_cons_self, hread⟩
      · obtain ⟨r, hr, hseen, value', hvalue', hread⟩ := ih h
        rw [List.mem_cons, not_or] at hseen
        exact ⟨r, hr, hseen.2, value', (hlater hseen.1).trans hvalue', hread⟩

/-- An array that is too short is an error. -/
theorem item_ne_panic (names : List String) (expected : String) (items : List Json)
    (name msg : String) : item names expected items name ≠ .panic msg := by
  unfold item
  split <;> simp

/-- A structure panics at one of its fields. -/
theorem PanicsAtField.struct {f : Fields α} (h : f.PanicsAtField) {name : String} {level : ℕ}
    {doc : Json} {msg : String} (hpanic : readStruct name f level doc = .panic msg) :
    ∃ r ∈ f.readers, ∃ value, doc.field f.names r.1 = some value ∧ r.2 value = .panic msg := by
  unfold readStruct at hpanic
  split at hpanic
  · cases hpanic
  · cases hpanic
  -- an object
  · rcases Outcome.bind_eq_panic_iff.mp hpanic with hcheck | ⟨_, -, hread⟩
    · obtain ⟨r, hr, -, value, hvalue, hread⟩ := exists_of_checkEntries hcheck
      exact ⟨r, hr, value, hvalue, hread⟩
    · obtain ⟨r, hr, value, hvalue, hread⟩ := h _ (fun _ _ => Outcome.ok_ne_panic _ _) msg hread
      exact ⟨r, hr, value, Outcome.ok.inj hvalue, hread⟩
  -- an array
  · rcases Outcome.bind_eq_panic_iff.mp hpanic with hread | ⟨a, -, hpanic⟩
    · obtain ⟨r, hr, value, hvalue, hread⟩ := h _ (item_ne_panic _ _ _) msg hread
      refine ⟨r, hr, value, ?_, hread⟩
      unfold item at hvalue
      split at hvalue
      · rename_i value' hlookup
        exact hlookup.trans (Outcome.ok.inj hvalue)
      · cases hvalue
    · split_ifs at hpanic
  · cases hpanic

/-- If the fields cannot be read, some document is a part of one of the values. -/
structure PanicsOnlyAt (P : Json → Prop) (f : Fields α) : Prop where
  readers : ∀ r ∈ f.readers, Serde.PanicsOnlyAt P r.2
  atField : f.PanicsAtField

theorem panicsOnlyAt_start (build : α) : (start build).PanicsOnlyAt P where
  readers := by simp [start]
  atField := panicsAtField_start build

/-- One more field with a reader that panics only where it may. -/
theorem PanicsOnlyAt.fieldOr {f : Fields (α → β)} (h : f.PanicsOnlyAt P) (name : String)
    (hread : Serde.PanicsOnlyAt P read) {missing : Outcome DeError α}
    (hmissing : ∀ msg, missing ≠ .panic msg) :
    (f.fieldOr name read missing).PanicsOnlyAt P where
  readers := by
    intro r hr
    rcases List.mem_append.mp hr with hr | hr
    · exact h.readers r hr
    · rw [List.mem_singleton.mp hr]
      exact hread.map fun _ => ()
  atField := h.atField.fieldOr name read hmissing

/-- A structure panics at a part of one of its fields. -/
theorem PanicsOnlyAt.struct {f : Fields α} (h : f.PanicsOnlyAt P) (name : String) (level : ℕ) :
    Serde.PanicsOnlyAt P (readStruct name f level) := by
  intro doc msg hpanic
  obtain ⟨r, hr, value, hvalue, hread⟩ := h.atField.struct hpanic
  obtain ⟨part, hpart, hP⟩ := h.readers r hr value msg hread
  exact ⟨part, hpart.trans (Json.part_of_field hvalue), hP⟩

end Fields

/-! ## Enumerations -/

/-- An enumeration panics at a part of what stands behind a variant's name. -/
theorem panicsOnlyAt_enum {variants : List (String × Variant α)}
    (h : ∀ v ∈ variants, v.2.Satisfies (PanicsOnlyAt P)) (level : ℕ) :
    PanicsOnlyAt P (readEnum variants level) := by
  intro doc msg hpanic
  unfold readEnum at hpanic
  split at hpanic
  · split at hpanic <;> cases hpanic
  · cases hpanic
  · rename_i tag value rest
    rcases Outcome.bind_eq_panic_iff.mp hpanic with hcontent | ⟨a, -, hpanic⟩
    · unfold readContent at hcontent
      split at hcontent
      · split at hcontent <;> cases hcontent
      · rename_i read hlookup
        have hread : PanicsOnlyAt P read := h _ (mem_of_lookup hlookup)
        obtain ⟨part, hpart, hP⟩ := hread value msg hcontent
        exact ⟨part, .entry List.mem_cons_self hpart, hP⟩
      · cases hcontent
    · split_ifs at hpanic
  · cases hpanic

/-- All ways to put readers together keep where they can panic. -/
def panicsOnlyAt (P : Json → Prop) : ReaderProperty where
  Holds := PanicsOnlyAt P
  OfFields := Fields.PanicsOnlyAt P
  closed := panicsOnlyAt_of_never fun _ _ => Outcome.err_ne_panic _ _
  map h f := h.map f
  vec h level := h.vec level
  start := Fields.panicsOnlyAt_start
  field h name hread := h.fieldOr name hread fun _ => Outcome.err_ne_panic _ _
  optional h name hread := h.fieldOr name hread.option fun _ => Outcome.ok_ne_panic _ _
  struct h name level := h.struct name level
  enum := panicsOnlyAt_enum

end Serde
