/-
# JSON documents and their readers

Documents as `serde_json` reads and writes them, and the readers that `serde`
derives: structures field by field, enumerations by the name of a variant,
vectors, options and numbers.  A reader is given the number of arrays and
objects that may still be opened.  `ReadsAs` says what becomes of one document;
it has a rule for each way a reader is put together.
-/
import OmniTransaction.Rust

open ByteOrder Rust

namespace Serde

variable {α β : Type}

/-! ## Documents -/

/-- A document.  Integer literals keep their value; `float` is any other
number. -/
inductive Json where
  | null
  | bool (b : Bool)
  | int (n : ℤ)
  | float (text : String)
  | str (s : String)
  | arr (items : List Json)
  | obj (entries : List (String × Json))
  deriving Repr

mutual

/-- How deep arrays and objects are nested. -/
def Json.depth : Json → ℕ
  | .arr items => Json.itemsDepth items + 1
  | .obj entries => Json.entriesDepth entries + 1
  | _ => 0

def Json.itemsDepth : List Json → ℕ
  | [] => 0
  | item :: items => max item.depth (Json.itemsDepth items)

def Json.entriesDepth : List (String × Json) → ℕ
  | [] => 0
  | ⟨_, value⟩ :: entries => max value.depth (Json.entriesDepth entries)

end

/-- A bound on the depth of items is one on each of them. -/
theorem Json.itemsDepth_le_iff {items : List Json} {n : ℕ} :
    Json.itemsDepth items ≤ n ↔ ∀ item ∈ items, item.depth ≤ n := by
  induction items with
  | nil => simp [Json.itemsDepth]
  | cons item items ih => rw [Json.itemsDepth, max_le_iff, ih, List.forall_mem_cons]

/-- A bound on the depth of entries is one on each value. -/
theorem Json.entriesDepth_le_iff {entries : List (String × Json)} {n : ℕ} :
    Json.entriesDepth entries ≤ n ↔ ∀ e ∈ entries, e.2.depth ≤ n := by
  induction entries with
  | nil => simp [Json.entriesDepth]
  | cons e entries ih =>
    obtain ⟨name, value⟩ := e
    rw [Json.entriesDepth, max_le_iff, ih, List.forall_mem_cons]

/-- An object takes one level around its values. -/
theorem Json.depth_obj_le_iff {entries : List (String × Json)} {level : ℕ} :
    (Json.obj entries).depth ≤ level ↔ 0 < level ∧ ∀ e ∈ entries, e.2.depth < level := by
  cases level with
  | zero => simp [Json.depth]
  | succ level => simp [Json.depth, Json.entriesDepth_le_iff]

theorem Json.depth_obj_nil_le_iff {level : ℕ} : (Json.obj []).depth ≤ level ↔ 0 < level := by
  rw [Json.depth_obj_le_iff, and_iff_left (List.forall_mem_nil _)]

/-- The values of an object one by one. -/
theorem Json.depth_obj_cons_le_iff {key : String} {value : Json} {entries : List (String × Json)}
    {level : ℕ} : (Json.obj ((key, value) :: entries)).depth ≤ level ↔
      value.depth < level ∧ (Json.obj entries).depth ≤ level := by
  rw [Json.depth_obj_le_iff, Json.depth_obj_le_iff, List.forall_mem_cons, and_left_comm]

/-- An array takes one level around its items. -/
theorem Json.depth_arr_le_iff {items : List Json} {level : ℕ} :
    (Json.arr items).depth ≤ level ↔ 0 < level ∧ ∀ item ∈ items, item.depth < level := by
  cases level with
  | zero => simp [Json.depth]
  | succ level => simp [Json.depth, Json.itemsDepth_le_iff]

/-- The errors of `serde::de::Error` and of `serde_json`, without the position in
the text. -/
inductive DeError where
  | custom (msg : String)
  | invalidType (unexpected : Json) (expected : String)
  | invalidValue (unexpected : Json) (expected : String)
  | invalidCharacter (unexpected : Char) (expected : String)
  | invalidLength (len : ℕ) (expected : String)
  | unknownVariant (variant : String) (expected : List String)
  | unknownField (field : String) (expected : List String)
  | missingField (field : String)
  | duplicateField (field : String)
  | expectedSomeValue
  | trailingComma
  | trailingCharacters
  | recursionLimitExceeded
  | syntaxError

/-! ## What a reader makes of a document -/

/-- A reader at a number of levels that may still be opened. -/
abbrev Reader (α : Type) := ℕ → Json → Outcome DeError α

/-- The document is read when `good` holds, and then as `a`. -/
def ReadsAs (read : Json → Outcome DeError α) (doc : Json) (a : α) (good : Prop) : Prop :=
  ∀ b, read doc = .ok b ↔ b = a ∧ good

theorem ReadsAs.congr {read : Json → Outcome DeError α} {doc : Json} {a : α} {good good' : Prop}
    (h : ReadsAs read doc a good) (hgood : good ↔ good') : ReadsAs read doc a good' := by
  intro b
  rw [h b, hgood]

/-- What is read without a condition. -/
theorem ReadsAs.of_eq_ok {read : Json → Outcome DeError α} {doc : Json} {a : α}
    (h : read doc = .ok a) : ReadsAs read doc a True := by
  intro b
  rw [h, Outcome.ok.injEq, and_true, eq_comm]

/-- The value is read exactly under the condition. -/
theorem ReadsAs.eq_ok_iff {read : Json → Outcome DeError α} {doc : Json} {a : α} {good : Prop}
    (h : ReadsAs read doc a good) : read doc = .ok a ↔ good := by
  rw [h a, eq_self_iff_true, true_and]

/-- What comes after the reading. -/
theorem ReadsAs.bind {read : Json → Outcome DeError α} {doc : Json} {a : α} {good good' : Prop}
    (h : ReadsAs read doc a good) {f : α → Outcome DeError β} {b : β}
    (hf : ∀ c, f a = .ok c ↔ c = b ∧ good') :
    ReadsAs (fun doc => read doc >>= f) doc b (good ∧ good') := by
  intro c
  rw [Outcome.bind_eq_ok_iff]
  constructor
  · rintro ⟨x, hx, hc⟩
    obtain ⟨rfl, hgood⟩ := (h x).mp hx
    obtain ⟨rfl, hgood'⟩ := (hf c).mp hc
    exact ⟨rfl, hgood, hgood'⟩
  · rintro ⟨rfl, hgood, hgood'⟩
    exact ⟨a, (h a).mpr ⟨rfl, hgood⟩, (hf c).mpr ⟨rfl, hgood'⟩⟩

/-- The value is changed after the reading. -/
theorem ReadsAs.map {read : Json → Outcome DeError α} {doc : Json} {a : α} {good : Prop}
    (h : ReadsAs read doc a good) (f : α → β) :
    ReadsAs (fun doc => read doc >>= fun x => pure (f x)) doc (f a) good := by
  have hpure : ∀ c, (pure (f a) : Outcome DeError β) = .ok c ↔ c = f a ∧ True := by
    intro c
    rw [Outcome.pure_eq_ok, Outcome.ok.injEq, and_true, eq_comm]
  exact (h.bind hpure).congr (iff_of_eq (and_true _))

/-- The reader gives the document back as `a`, if the levels suffice for it. -/
def RoundTrips (read : Reader α) (doc : Json) (a : α) (good : Prop) : Prop :=
  ∀ level, ReadsAs (read level) doc a (good ∧ doc.depth ≤ level)

/-- Refuse to open another level. -/
def closed : Json → Outcome DeError α := fun _ => .err .recursionLimitExceeded

/-- The reader one level further in. -/
def below (read : Reader α) : Reader α
  | 0 => closed
  | level + 1 => read level

/-- One level down, within the levels that are left. -/
theorem RoundTrips.below {read : Reader α} {doc : Json} {a : α} {good : Prop}
    (h : RoundTrips read doc a good) (level : ℕ) :
    ReadsAs (below read level) doc a (good ∧ doc.depth < level) := by
  cases level with
  | zero =>
    intro b
    simp [Serde.below, closed]
  | succ level => exact (h level).congr (and_congr_right' Nat.lt_succ_iff.symm)

/-! ## Scalars -/

/-- `deserialize_any` at a document for which the visitor has no method. -/
def unexpected (expected : String) (level : ℕ) (doc : Json) : Outcome DeError α :=
  match level, doc with
  | 0, .arr _ => closed doc
  | 0, .obj _ => closed doc
  | _, _ => .err (.invalidType doc expected)

/-- A wrong type is never read. -/
theorem unexpected_ne_ok {expected : String} {level : ℕ} {doc : Json} {a : α} :
    unexpected expected level doc ≠ .ok a := by
  unfold unexpected
  split <;> simp [closed]

/-- `String`. -/
def readString : Reader String := fun _ doc =>
  match doc with
  | .str s => .ok s
  | _ => .err (.invalidType doc "a string")

/-- A text is read as itself. -/
theorem roundTrips_string (s : String) : RoundTrips readString (.str s) s True := by
  intro level
  have h : readString level (.str s) = .ok s := rfl
  exact (ReadsAs.of_eq_ok h).congr (by simp [Json.depth])

/-- `u8` at an integer literal.  A literal outside of `i64` and `u64` arrives as a
floating-point number. -/
def visitU8 (n : ℤ) : Outcome DeError UInt8 :=
  if 0 ≤ n ∧ n < 256 then .ok (UInt8.ofNat n.toNat)
  else if -2 ^ 63 ≤ n ∧ n < 2 ^ 64 then .err (.invalidValue (.int n) "u8")
  else .err (.invalidType (.int n) "u8")

/-- `u8`. -/
def readU8 : Reader UInt8 := fun _ doc =>
  match doc with
  | .int n => visitU8 n
  | _ => .err (.invalidType doc "u8")

/-- `Serialize for u8`. -/
def writeU8 (v : UInt8) : Json := .int v.toNat

/-- A byte is read from its number. -/
theorem readU8_writeU8 (level : ℕ) (v : UInt8) : readU8 level (writeU8 v) = .ok v := by
  have hrange : (0 : ℤ) ≤ v.toNat ∧ (v.toNat : ℤ) < 256 :=
    ⟨Int.natCast_nonneg _, by exact_mod_cast v.toNat_lt⟩
  show visitU8 v.toNat = _
  rw [visitU8, if_pos hrange, Int.toNat_natCast, UInt8.ofNat_toNat]

/-- An unsigned integer of `bits` bits at an integer literal. -/
def visitUnsigned (bits : ℕ) (expected : String) (n : ℤ) : Outcome DeError ℕ :=
  if 0 ≤ n ∧ n < 2 ^ bits then .ok n.toNat
  else if -2 ^ 63 ≤ n ∧ n < 2 ^ 64 then .err (.invalidValue (.int n) expected)
  else .err (.invalidType (.int n) expected)

/-- `u32` and `u64`. -/
def readUnsigned (bits : ℕ) (expected : String) : Reader ℕ := fun _ doc =>
  match doc with
  | .int n => visitUnsigned bits expected n
  | _ => .err (.invalidType doc expected)

/-- `serde_json::Value`, which holds any document. -/
def readValue : Reader Json := fun level doc =>
  if doc.depth ≤ level then .ok doc else .err .recursionLimitExceeded

/-! ## Vectors and arrays -/

/-- `Vec<T>`. -/
def readVec (read : Json → Outcome DeError α) (level : ℕ) (doc : Json) :
    Outcome DeError (List α) :=
  match level, doc with
  | 0, .arr _ => closed doc
  | _ + 1, .arr items => items.mapM read
  | _, _ => .err (.invalidType doc "a sequence")

/-- The first `n` items as an array of bytes: `visit_seq` with `next_element` for
each byte.  Nothing may follow. -/
def visitBytes (n : ℕ) (expected : String) (level : ℕ) (items : List Json) :
    Outcome DeError (FixedBytes n) := do
  let bytes ← (items.take n).mapM (readU8 level)
  match toArray n bytes with
  | some a => if items.length = n then .ok a else .err .trailingCharacters
  | none => .err (.invalidLength bytes.length expected)

/-- The elements are read one by one, each as its own value. -/
theorem mapM_eq_ok_iff {read : Json → Outcome DeError α} {write : α → Json} {good : α → Prop}
    {l : List α} (h : ∀ a ∈ l, ReadsAs read (write a) a (good a)) (l' : List α) :
    (l.map write).mapM read = .ok l' ↔ l' = l ∧ ∀ a ∈ l, good a := by
  induction l generalizing l' with
  | nil => simp [eq_comm]
  | cons a l ih =>
    have ih' := ih fun x hx => h x (List.mem_cons_of_mem a hx)
    rw [List.map_cons, List.mapM_cons, Outcome.bind_eq_ok_iff, List.forall_mem_cons]
    constructor
    · rintro ⟨x, hx, hl⟩
      obtain ⟨rfl, hgood⟩ := (h a List.mem_cons_self x).mp hx
      obtain ⟨xs, hxs, hl'⟩ := Outcome.bind_eq_ok_iff.mp hl
      obtain ⟨rfl, hgoods⟩ := (ih' xs).mp hxs
      rw [Outcome.pure_eq_ok, Outcome.ok.injEq] at hl'
      exact ⟨hl'.symm, hgood, hgoods⟩
    · rintro ⟨rfl, hgood, hgoods⟩
      refine ⟨a, (h a List.mem_cons_self a).mpr ⟨rfl, hgood⟩, ?_⟩
      rw [(ih' l).mpr ⟨rfl, hgoods⟩]
      rfl

/-- A list is read when all its items are. -/
theorem readsAs_vec {read : Json → Outcome DeError α} {write : α → Json} {good : α → Prop}
    {l : List α} (h : ∀ a ∈ l, ReadsAs read (write a) a (good a)) (level : ℕ) :
    ReadsAs (readVec read level) (.arr (l.map write)) l (0 < level ∧ ∀ a ∈ l, good a) := by
  intro l'
  cases level with
  | zero => simp [readVec, closed]
  | succ level =>
    rw [readVec, mapM_eq_ok_iff h]
    simp

/-- `Serialize for Vec<u8>`, an array of numbers. -/
def writeBytes (b : Bytes) : Json := .arr (b.map writeU8)

theorem depth_writeBytes_le_iff {b : Bytes} {level : ℕ} :
    (writeBytes b).depth ≤ level ↔ 0 < level := by
  have hitems : Json.itemsDepth (b.map writeU8) ≤ 0 := by
    rw [Json.itemsDepth_le_iff]
    intro item hitem
    obtain ⟨v, -, rfl⟩ := List.mem_map.mp hitem
    exact le_rfl
  rw [writeBytes, Json.depth, Nat.le_zero.mp hitems]
  exact Iff.rfl

/-- `Vec<u8>` as an array of numbers. -/
def readBytes (level : ℕ) : Json → Outcome DeError Bytes := readVec (below readU8 level) level

/-- Bytes are read back from their array. -/
theorem roundTrips_bytes (b : Bytes) : RoundTrips readBytes (writeBytes b) b True := by
  intro level
  cases level with
  | zero =>
    intro b'
    simp [readBytes, readVec, writeBytes, Json.depth, closed]
  | succ level =>
    have hread : ∀ v ∈ b, ReadsAs (readU8 level) (writeU8 v) v True := fun v _ =>
      ReadsAs.of_eq_ok (readU8_writeU8 level v)
    refine (readsAs_vec hread (level + 1)).congr ?_
    rw [depth_writeBytes_le_iff]
    simp

/-- Only the number of a byte is read as this byte. -/
theorem eq_writeU8_of_readU8 {level : ℕ} {doc : Json} {v : UInt8} (h : readU8 level doc = .ok v) :
    doc = writeU8 v := by
  unfold readU8 at h
  split at h
  · rename_i n
    unfold visitU8 at h
    split_ifs at h with hrange
    obtain rfl := Outcome.ok.inj h
    have hlt : n.toNat < UInt8.size := by
      show n.toNat < 256
      omega
    rw [writeU8, UInt8.toNat_ofNat_of_lt' hlt, Int.toNat_of_nonneg hrange.1]
  · cases h

/-- Bytes are read from the array of their numbers and from nothing else. -/
theorem readBytes_eq_ok_iff {level : ℕ} {doc : Json} {b : Bytes} :
    readBytes level doc = .ok b ↔ doc = writeBytes b ∧ 0 < level := by
  constructor
  · intro h
    unfold readBytes readVec at h
    split at h
    · cases h
    · rename_i level items
      refine ⟨congrArg Json.arr ?_, Nat.succ_pos level⟩
      have hitems := Outcome.forall₂_of_mapM h
      clear h
      induction hitems with
      | nil => rfl
      | cons hv _ ih =>
        have hitem : readU8 level _ = .ok _ := hv
        rw [eq_writeU8_of_readU8 hitem, ih, List.map_cons]
    · cases h
  · rintro ⟨rfl, hlevel⟩
    exact ((roundTrips_bytes b) level).eq_ok_iff.mpr ⟨trivial, depth_writeBytes_le_iff.mpr hlevel⟩

/-- An array of the right length is read byte by byte. -/
theorem visitBytes_map_writeU8 {n : ℕ} (expected : String) (level : ℕ) (a : FixedBytes n) :
    visitBytes n expected level (a.toList.map writeU8) = .ok a := by
  have hbyte : ∀ v ∈ a.toList, ReadsAs (readU8 level) (writeU8 v) v True := fun v _ =>
    ReadsAs.of_eq_ok (readU8_writeU8 level v)
  have hread : (a.toList.map writeU8).mapM (readU8 level) = .ok a.toList :=
    (mapM_eq_ok_iff hbyte _).mpr ⟨rfl, fun _ _ => trivial⟩
  have htake : (a.toList.map writeU8).take n = a.toList.map writeU8 :=
    List.take_of_length_le (by rw [List.length_map, a.toList_length])
  rw [visitBytes, htake, hread, Outcome.ok_bind, toArray_toList]
  exact if_pos (by rw [List.length_map, a.toList_length])

/-- `Option<T>`. -/
def readOption (read : Json → Outcome DeError α) (doc : Json) : Outcome DeError (Option α) :=
  match doc with
  | .null => .ok none
  | _ => do
    let a ← read doc
    return some a

/-- `Serialize for Option<T>`. -/
def writeOption (write : α → Json) : Option α → Json
  | none => .null
  | some a => write a

/-- A value that is not written as `null` is told from none. -/
theorem readsAs_option {read : Json → Outcome DeError α} {write : α → Json} {good : α → Prop}
    {o : Option α} (hnull : ∀ a, write a ≠ .null)
    (h : ∀ a ∈ o, ReadsAs read (write a) a (good a)) :
    ReadsAs (readOption read) (writeOption write o) o (∀ a ∈ o, good a) := by
  cases o with
  | none =>
    -- `None` is written as `null`
    have hnone : readOption read .null = .ok none := rfl
    exact (ReadsAs.of_eq_ok hnone).congr (by simp)
  | some a =>
    -- the content is not `null`, so it is read as it is
    have heq : readOption read (write a) = read (write a) >>= fun x => pure (some x) := by
      unfold readOption
      split
      · exact absurd ‹_› (hnull a)
      · rfl
    intro b
    show readOption read (write a) = _ ↔ _
    rw [heq]
    exact (((h a rfl).map some).congr (by simp)) b

/-! ## Structures -/

/-- What is looked up stands there. -/
theorem mem_of_lookup {l : List (String × β)} {name : String} {b : β}
    (h : l.lookup name = some b) : (name, b) ∈ l := by
  obtain ⟨l₁, l₂, rfl, -⟩ := List.lookup_eq_some_iff.mp h
  exact List.mem_append_right _ List.mem_cons_self

/-- The fields of a structure in the order of its declaration: for each one its
name and what comes of reading it, and how the structure is read from the values
of its fields.  If that succeeds, each of the values could be read. -/
structure Fields (α : Type) where
  readers : List (String × (Json → Outcome DeError Unit))
  read : (String → Outcome DeError (Option Json)) → Outcome DeError α
  readers_of_read : ∀ get a, read get = .ok a →
    ∀ r ∈ readers, ∀ value, get r.1 = .ok (some value) → r.2 value = .ok ()

namespace Fields

/-- No field yet. -/
def start (build : α) : Fields α where
  readers := []
  read _ := .ok build
  readers_of_read := by simp

/-- The value of a field, if there is one. -/
def readField (read : Json → Outcome DeError α) (missing : Outcome DeError α) :
    Option Json → Outcome DeError α
  | some value => read value
  | none => missing

/-- One more field, with what its absence from an object means. -/
def fieldOr (f : Fields (α → β)) (name : String) (read : Json → Outcome DeError α)
    (missing : Outcome DeError α) : Fields β where
  readers := f.readers ++ [(name, fun value => read value >>= fun _ => pure ())]
  read get := do
    let build ← f.read get
    let value ← get name
    let a ← readField read missing value
    return build a
  readers_of_read := by
    intro get b hb r hr value hvalue
    obtain ⟨build, hbuild, hb⟩ := Outcome.bind_eq_ok_iff.mp hb
    obtain ⟨value', hvalue', hb⟩ := Outcome.bind_eq_ok_iff.mp hb
    obtain ⟨a, ha, -⟩ := Outcome.bind_eq_ok_iff.mp hb
    rcases List.mem_append.mp hr with hr | hr
    · exact f.readers_of_read get build hbuild r hr value hvalue
    · obtain rfl := List.mem_singleton.mp hr
      obtain rfl := Outcome.ok.inj (hvalue'.symm.trans hvalue)
      exact Outcome.bind_eq_ok_iff.mpr ⟨a, ha, rfl⟩

/-- A field that must be there. -/
def field (f : Fields (α → β)) (name : String) (read : Json → Outcome DeError α) : Fields β :=
  f.fieldOr name read (.err (.missingField name))

/-- A field of type `Option<T>`, absent when it is `None`. -/
def optional (f : Fields (Option α → β)) (name : String) (read : Json → Outcome DeError α) :
    Fields β :=
  f.fieldOr name (readOption read) (.ok none)

/-- The entries of an object in the order of the text: unknown names are ignored,
a name may occur once. -/
def checkEntries (readers : List (String × (Json → Outcome DeError Unit))) :
    List String → List (String × Json) → Outcome DeError Unit
  | _, [] => .ok ()
  | seen, (name, value) :: entries =>
    match readers.lookup name with
    -- the value of an unknown name is skipped without being read
    | none => checkEntries readers seen entries
    | some read =>
      if name ∈ seen then .err (.duplicateField name)
      else do
        read value
        checkEntries readers (name :: seen) entries

/-- The names of the fields. -/
def names (f : Fields α) : List String := f.readers.map Prod.fst

/-- `visit_map`. -/
def visitMap (f : Fields α) (entries : List (String × Json)) : Outcome DeError α := do
  checkEntries f.readers [] entries
  f.read fun name => .ok (entries.lookup name)

/-- The item of an array that stands for a field; there is an error if there is none. -/
def item (names : List String) (expected : String) (items : List Json) (name : String) :
    Outcome DeError (Option Json) :=
  match (names.zip items).lookup name with
  | some value => .ok (some value)
  | none => .err (.invalidLength items.length expected)

/-- `visit_seq`.  Nothing may follow the last field. -/
def visitSeq (f : Fields α) (expected : String) (items : List Json) : Outcome DeError α := do
  let a ← f.read (item f.names expected items)
  if items.length ≤ f.names.length then return a else .err .trailingCharacters

/-! ### Objects -/

/-- The entries of an object that have one of the names. -/
def known (names : List String) (entries : List (String × Json)) : List String :=
  (entries.map Prod.fst).filter (· ∈ names)

/-- What is not found has another name. -/
theorem lookup_eq_none_iff {readers : List (String × (Json → Outcome DeError Unit))}
    {name : String} : readers.lookup name = none ↔ name ∉ readers.map Prod.fst := by
  rw [List.lookup_eq_none_iff]
  constructor
  · intro h hmem
    obtain ⟨r, hr, rfl⟩ := List.mem_map.mp hmem
    exact absurd (h r hr) (by simp)
  · intro h r hr
    rw [bne_iff_ne]
    rintro rfl
    exact h (List.mem_map_of_mem hr)

/-- The entries pass when known names occur once and their values are read. -/
theorem checkEntries_eq_ok_iff {readers : List (String × (Json → Outcome DeError Unit))}
    {entries : List (String × Json)} {seen : List String} :
    checkEntries readers seen entries = .ok () ↔
      (known (readers.map Prod.fst) entries).Nodup ∧
      (∀ name ∈ known (readers.map Prod.fst) entries, name ∉ seen) ∧
      ∀ e ∈ entries, ∀ read, readers.lookup e.1 = some read → read e.2 = .ok () := by
  induction entries generalizing seen with
  | nil => simp [checkEntries, known]
  | cons e entries ih =>
    obtain ⟨name, value⟩ := e
    rw [checkEntries, List.forall_mem_cons]
    cases hlookup : readers.lookup name with
    | none =>
      -- an unknown name counts for nothing
      have hknown : known (readers.map Prod.fst) ((name, value) :: entries) =
          known (readers.map Prod.fst) entries := by
        rw [known, List.map_cons, List.filter_cons_of_neg]
        · rfl
        · simpa using lookup_eq_none_iff.mp hlookup
      rw [hknown]
      show checkEntries readers seen entries = .ok () ↔ _
      rw [ih]
      simp
    | some read =>
      have hmem : name ∈ readers.map Prod.fst := by
        by_contra h
        rw [lookup_eq_none_iff.mpr h] at hlookup
        cases hlookup
      have hknown : known (readers.map Prod.fst) ((name, value) :: entries) =
          name :: known (readers.map Prod.fst) entries := by
        rw [known, List.map_cons, List.filter_cons_of_pos (by simpa using hmem)]
        rfl
      rw [hknown, List.nodup_cons, List.forall_mem_cons]
      show (if name ∈ seen then Outcome.err _ else _) = _ ↔ _
      split_ifs with hseen
      · simp [hseen]
      -- the name is fresh, and must not come again
      · rw [Outcome.bind_eq_ok_iff]
        simp only [ih, List.mem_cons, not_or]
        constructor
        · rintro ⟨_, hread, hnodup, hfresh, hrest⟩
          refine ⟨⟨fun h => (hfresh name h).1 rfl, hnodup⟩, ⟨hseen, fun n hn => (hfresh n hn).2⟩,
            ?_, hrest⟩
          rintro read' heq
          rwa [← Option.some.inj heq]
        · rintro ⟨⟨hname, hnodup⟩, ⟨-, hfresh⟩, hread, hrest⟩
          refine ⟨(), hread read rfl, hnodup, fun n hn => ⟨?_, hfresh n hn⟩, hrest⟩
          rintro rfl
          exact hname hn

/-- The first field that cannot be read is the error. -/
theorem checkEntries_eq_err {readers : List (String × (Json → Outcome DeError Unit))}
    {before after : List (String × Json)} {seen : List String} {name : String} {value : Json}
    {read : Json → Outcome DeError Unit} {err : DeError}
    (hnodup : (known (readers.map Prod.fst) (before ++ (name, value) :: after)).Nodup)
    (hfresh : ∀ n ∈ known (readers.map Prod.fst) (before ++ (name, value) :: after), n ∉ seen)
    (hbefore : ∀ e ∈ before, ∀ r, readers.lookup e.1 = some r → r e.2 = .ok ())
    (hlookup : readers.lookup name = some read) (hread : read value = .err err) :
    checkEntries readers seen (before ++ (name, value) :: after) = .err err := by
  have hmem : ∀ n r, readers.lookup n = some r → n ∈ readers.map Prod.fst := by
    intro n r hr
    by_contra h
    rw [lookup_eq_none_iff.mpr h] at hr
    cases hr
  induction before generalizing seen with
  | nil =>
    have hname : name ∉ seen := hfresh name (List.mem_filter.mpr
      ⟨List.mem_cons_self, by simpa using hmem name read hlookup⟩)
    rw [List.nil_append, checkEntries, hlookup]
    show (if name ∈ seen then Outcome.err _ else _) = _
    rw [if_neg hname, hread, Outcome.err_bind]
  | cons e before ih =>
    obtain ⟨n, v⟩ := e
    obtain ⟨hv, hbefore⟩ := List.forall_mem_cons.mp hbefore
    rw [List.cons_append, checkEntries]
    rw [List.cons_append, known, List.map_cons] at hnodup hfresh
    cases hlookup' : readers.lookup n with
    | none =>
      have hout : n ∉ readers.map Prod.fst := lookup_eq_none_iff.mp hlookup'
      rw [List.filter_cons_of_neg (by simpa using hout)] at hnodup hfresh
      exact ih hnodup hfresh hbefore
    | some r =>
      rw [List.filter_cons_of_pos (by simpa using hmem n r hlookup')] at hnodup hfresh
      obtain ⟨hn, hnodup⟩ := List.nodup_cons.mp hnodup
      obtain ⟨hseen, hfresh⟩ := List.forall_mem_cons.mp hfresh
      show (if n ∈ seen then Outcome.err _ else _) = _
      rw [if_neg hseen, hv r hlookup', Outcome.ok_bind]
      refine ih hnodup (fun n' hn' => ?_) hbefore
      rw [List.mem_cons, not_or]
      exact ⟨fun h => hn (h ▸ hn'), hfresh n' hn'⟩

/-- The first entry with a name is the only one, when the known names are
distinct. -/
theorem lookup_of_mem {names : List String} {entries : List (String × Json)}
    (hnodup : (known names entries).Nodup) {e : String × Json} (he : e ∈ entries)
    (hname : e.1 ∈ names) : entries.lookup e.1 = some e.2 := by
  -- an earlier entry with the name would make it occur twice
  obtain ⟨l₁, l₂, rfl⟩ := List.append_of_mem he
  rw [List.lookup_eq_some_iff]
  refine ⟨l₁, l₂, rfl, fun p hp => ?_⟩
  rw [known, List.map_append, List.filter_append, List.nodup_append'] at hnodup
  rw [bne_iff_ne]
  intro heq
  have hp' : e.1 ∈ (l₁.map Prod.fst).filter (· ∈ names) :=
    List.mem_filter.mpr ⟨heq ▸ List.mem_map_of_mem hp, by simpa using hname⟩
  exact hnodup.2.2 hp' (List.mem_filter.mpr ⟨by simp, by simpa using hname⟩)

/-- An object is read when no field occurs twice in it and the fields are read from
the entries with their names. -/
theorem visitMap_eq_ok_iff {f : Fields α} {entries : List (String × Json)} {a : α} :
    f.visitMap entries = .ok a ↔
      (known f.names entries).Nodup ∧ f.read (fun name => .ok (entries.lookup name)) = .ok a := by
  rw [visitMap, Outcome.bind_eq_ok_iff]
  constructor
  · rintro ⟨_, hcheck, ha⟩
    exact ⟨(checkEntries_eq_ok_iff.mp hcheck).1, ha⟩
  · rintro ⟨hnodup, ha⟩
    refine ⟨(), checkEntries_eq_ok_iff.mpr ⟨hnodup, by simp, ?_⟩, ha⟩
    intro e he read hlookup
    have hr : (e.1, read) ∈ f.readers := mem_of_lookup hlookup
    have hname : e.1 ∈ f.names := List.mem_map.mpr ⟨(e.1, read), hr, rfl⟩
    exact f.readers_of_read _ a ha _ hr e.2 (congrArg _ (lookup_of_mem hnodup he hname))

/-- The names do not depend on the values. -/
theorem known_replace {names : List String} {before after : List (String × Json)} {name : String}
    (value value' : Json) : known names (before ++ (name, value) :: after) =
      known names (before ++ (name, value') :: after) := by
  rw [known, known, List.map_append, List.map_append, List.map_cons, List.map_cons]

/-- A value may be replaced by another one that can be read. -/
theorem visitMap_replace {f : Fields α} {before after : List (String × Json)} {name : String}
    {value value' : Json} {a b : α} (h : f.visitMap (before ++ (name, value) :: after) = .ok a)
    (hread : f.read (fun n => .ok ((before ++ (name, value') :: after).lookup n)) = .ok b) :
    f.visitMap (before ++ (name, value') :: after) = .ok b := by
  refine visitMap_eq_ok_iff.mpr ⟨?_, hread⟩
  rw [known_replace value' value]
  exact (visitMap_eq_ok_iff.mp h).1

/-- The other values stay where they are. -/
theorem lookup_replace {before after : List (String × Json)} {name name' : String}
    (value value' : Json) (hname : name' ≠ name) :
    (before ++ (name, value') :: after).lookup name' =
      (before ++ (name, value) :: after).lookup name' := by
  have hbeq : (name' == name) = false := beq_eq_false_iff_ne.mpr hname
  rw [List.lookup_append, List.lookup_append, List.lookup_cons, List.lookup_cons, hbeq]

/-- A value that cannot be read ends the reading of an object that is fine up to there. -/
theorem visitMap_eq_err {f : Fields α} {before after : List (String × Json)} {name : String}
    {value value' : Json} {a : α} {read : Json → Outcome DeError Unit} {err : DeError}
    (h : f.visitMap (before ++ (name, value) :: after) = .ok a)
    (hlookup : f.readers.lookup name = some read) (hread : read value' = .err err) :
    f.visitMap (before ++ (name, value') :: after) = .err err := by
  obtain ⟨_, hcheck, -⟩ := Outcome.bind_eq_ok_iff.mp h
  obtain ⟨hnodup, -, hentries⟩ := checkEntries_eq_ok_iff.mp hcheck
  have herr : checkEntries f.readers [] (before ++ (name, value') :: after) = .err err := by
    refine checkEntries_eq_err ?_ (by simp) (fun e he => hentries e ?_) hlookup hread
    · rwa [known_replace value' value]
    · exact List.mem_append_left _ he
  rw [visitMap, herr, Outcome.err_bind]

/-- Without fields there is the value alone. -/
theorem read_start_eq_ok_iff {build b : α} {get : String → Outcome DeError (Option Json)} :
    (start build).read get = .ok b ↔ b = build := by
  rw [start, Outcome.ok.injEq, eq_comm]

/-- The last field is read after the others. -/
theorem read_fieldOr_eq_ok_iff {f : Fields (α → β)} {name : String}
    {read : Json → Outcome DeError α} {missing : Outcome DeError α}
    {get : String → Outcome DeError (Option Json)} {b : β} :
    (f.fieldOr name read missing).read get = .ok b ↔ ∃ build, f.read get = .ok build ∧
      ∃ value, get name = .ok value ∧ ∃ a, readField read missing value = .ok a ∧ b = build a := by
  show (f.read get >>= fun build => get name >>= fun value =>
    readField read missing value >>= fun a => pure (build a)) = _ ↔ _
  simp only [Outcome.bind_eq_ok_iff, Outcome.pure_eq_ok, Outcome.ok.injEq, @eq_comm β b]

theorem read_field_eq_ok_iff {f : Fields (α → β)} {name : String}
    {read : Json → Outcome DeError α} {get : String → Outcome DeError (Option Json)} {b : β} :
    (f.field name read).read get = .ok b ↔ ∃ build, f.read get = .ok build ∧
      ∃ value, get name = .ok (some value) ∧ ∃ a, read value = .ok a ∧ b = build a := by
  rw [field, read_fieldOr_eq_ok_iff]
  refine exists_congr fun build => and_congr_right' ⟨?_, ?_⟩
  · rintro ⟨_ | value, hvalue, a, ha, hb⟩
    · cases ha
    · exact ⟨value, hvalue, a, ha, hb⟩
  · rintro ⟨value, hvalue, a, ha, hb⟩
    exact ⟨some value, hvalue, a, ha, hb⟩

/-! ### Written objects -/

/-- The fields read the entries as `a` when `good` holds. -/
structure ReadsAs (f : Fields α) (entries : List (String × Json)) (a : α) (good : Prop) :
    Prop where
  nodup : (entries.map Prod.fst).Nodup
  read : ∀ get : String → Outcome DeError (Option Json),
    (∀ e ∈ entries, get e.1 = .ok (some e.2)) → ∀ b, f.read get = .ok b ↔ b = a ∧ good

/-- An empty object for no fields. -/
theorem readsAs_start (build : α) : (start build).ReadsAs [] build True where
  nodup := List.nodup_nil
  read := by
    intro get _ b
    rw [read_start_eq_ok_iff, and_true]

/-- One more entry for one more field. -/
theorem ReadsAs.fieldOr {f : Fields (α → β)} {entries : List (String × Json)} {build : α → β}
    {good good' : Prop} (h : f.ReadsAs entries build good) {name : String} {value : Json} {a : α}
    {read : Json → Outcome DeError α} (hread : Serde.ReadsAs read value a good')
    (hname : name ∉ entries.map Prod.fst) (missing : Outcome DeError α) :
    (f.fieldOr name read missing).ReadsAs (entries ++ [(name, value)]) (build a)
      (good ∧ good') where
  nodup := by
    rw [List.map_append, List.nodup_append']
    exact ⟨h.nodup, List.nodup_singleton _, by simpa using hname⟩
  read := by
    intro get hget b
    have hvalue : get name = .ok (some value) := hget (name, value) (by simp)
    have hbuild := h.read get fun e he => hget e (List.mem_append_left _ he)
    rw [read_fieldOr_eq_ok_iff]
    constructor
    · rintro ⟨build', hbuild', value', hvalue', a', ha', rfl⟩
      obtain rfl := Outcome.ok.inj (hvalue.symm.trans hvalue')
      obtain ⟨rfl, hgood⟩ := (hbuild build').mp hbuild'
      obtain ⟨rfl, hgood'⟩ := (hread a').mp ha'
      exact ⟨rfl, hgood, hgood'⟩
    · rintro ⟨rfl, hgood, hgood'⟩
      exact ⟨build, (hbuild build).mpr ⟨rfl, hgood⟩, some value, hvalue, a,
        (hread a).mpr ⟨rfl, hgood'⟩, rfl⟩

theorem ReadsAs.congr {f : Fields α} {entries : List (String × Json)} {a : α}
    {good good' : Prop} (h : f.ReadsAs entries a good) (hgood : good ↔ good') :
    f.ReadsAs entries a good' := by
  rwa [← propext hgood]

/-- An object with exactly these entries is read. -/
theorem ReadsAs.visitMap {f : Fields α} {entries : List (String × Json)} {a : α} {good : Prop}
    (h : f.ReadsAs entries a good) (b : α) : f.visitMap entries = .ok b ↔ b = a ∧ good := by
  have hlookup : ∀ e ∈ entries, (.ok (entries.lookup e.1) : Outcome DeError (Option Json)) =
      .ok (some e.2) := fun e he =>
    congrArg _ (lookup_of_mem (h.nodup.filter _) he (List.mem_map_of_mem he))
  rw [visitMap_eq_ok_iff, h.read _ hlookup b]
  exact and_iff_right (h.nodup.filter _)

end Fields

/-- A derived reader of a structure. -/
def readStruct (name : String) (f : Fields α) : Reader α := fun level doc =>
  match level, doc with
  | 0, .obj _ => closed doc
  | 0, .arr _ => closed doc
  | _ + 1, .obj entries => f.visitMap entries
  | _ + 1, .arr items =>
    f.visitSeq s!"struct {name} with {f.names.length} elements" items
  | _, _ => .err (.invalidType doc s!"struct {name}")

/-- A structure takes one level around its fields. -/
theorem readsAs_struct {f : Fields α} {entries : List (String × Json)} {a : α} {good : Prop}
    (h : f.ReadsAs entries a good) (name : String) (level : ℕ) :
    ReadsAs (readStruct name f level) (.obj entries) a (0 < level ∧ good) := by
  intro b
  cases level with
  | zero => simp [readStruct, closed]
  | succ level =>
    rw [readStruct, h.visitMap b]
    simp

/-! ## Enumerations -/

/-- A variant without content, or with one value. -/
inductive Variant (α : Type) where
  | unit (a : α)
  | newtype (read : Json → Outcome DeError α)

/-- A variant with content, read by the reader of the content. -/
def Variant.of (mk : α → β) (read : Json → Outcome DeError α) : Variant β :=
  .newtype fun value => read value >>= fun a => pure (mk a)

/-- `visit_enum` at the name of a variant and its content. -/
def readContent (variants : List (String × Variant α)) (tag : String) (value : Json) :
    Outcome DeError α :=
  match variants.lookup tag with
  | some (.unit a) =>
    match value with
    | .null => .ok a
    | _ => .err (.invalidType value "unit")
  | some (.newtype read) => read value
  | none => .err (.unknownVariant tag (variants.map Prod.fst))

/-- A derived reader of an enumeration: the name of a variant alone, or an object
whose one entry has that name. -/
def readEnum (variants : List (String × Variant α)) : Reader α := fun level doc =>
  match level, doc with
  | _, .str tag =>
    match variants.lookup tag with
    | some (.unit a) => .ok a
    | some (.newtype _) => .err (.invalidType doc "newtype variant")
    | none => .err (.unknownVariant tag (variants.map Prod.fst))
  | 0, .obj _ => closed doc
  | _ + 1, .obj ((tag, value) :: rest) => do
    let a ← readContent variants tag value
    if rest.isEmpty then return a else .err .expectedSomeValue
  | _, _ => .err .expectedSomeValue

/-- A variant without content is read from its name. -/
theorem readsAs_unitVariant {variants : List (String × Variant α)} {tag : String} {a : α}
    (htag : variants.lookup tag = some (.unit a)) (level : ℕ) :
    ReadsAs (readEnum variants level) (.str tag) a True := by
  apply ReadsAs.of_eq_ok
  rw [readEnum, htag]

/-- A variant with a content is read from an object with one entry. -/
theorem readsAs_variant {variants : List (String × Variant β)} {tag : String} {mk : α → β}
    {read : Json → Outcome DeError α} {value : Json} {a : α} {good : Prop}
    (htag : variants.lookup tag = some (.of mk read)) (h : ReadsAs read value a good)
    (level : ℕ) :
    ReadsAs (readEnum variants level) (.obj [(tag, value)]) (mk a) (0 < level ∧ good) := by
  intro b
  cases level with
  | zero => simp [readEnum, closed]
  | succ level =>
    have heq : readEnum variants (level + 1) (.obj [(tag, value)]) =
        read value >>= fun a => pure (mk a) := by
      rw [readEnum, readContent, htag]
      show ((read value >>= fun a => pure (mk a)) >>= fun a => pure a) = _
      rw [bind_pure]
    rw [heq]
    exact ((h.map mk).congr (by simp)) b

/-! ## Round trips -/

theorem RoundTrips.congr {read : Reader α} {doc : Json} {a : α} {good good' : Prop}
    (h : RoundTrips read doc a good) (hgood : good ↔ good') : RoundTrips read doc a good' :=
  fun level => (h level).congr (and_congr_left' hgood)

/-- The value is changed after the reading. -/
theorem RoundTrips.map {read : Reader α} {doc : Json} {a : α} {good : Prop}
    (h : RoundTrips read doc a good) (f : α → β) :
    RoundTrips (fun level doc => read level doc >>= fun x => pure (f x)) doc (f a) good :=
  fun level => (h level).map f

/-- A scalar is read at every level. -/
theorem RoundTrips.of_eq_ok {read : Reader α} {doc : Json} {a : α}
    (h : ∀ level, read level doc = .ok a) (hdepth : doc.depth = 0) :
    RoundTrips read doc a True := by
  intro level
  exact (ReadsAs.of_eq_ok (h level)).congr (by simp [hdepth])

/-- A list is read back item by item. -/
theorem RoundTrips.vec {read : Reader α} {write : α → Json} {good : α → Prop} {l : List α}
    (h : ∀ a ∈ l, RoundTrips read (write a) a (good a)) :
    RoundTrips (fun level => readVec (Serde.below read level) level) (.arr (l.map write)) l
      (∀ a ∈ l, good a) := by
  intro level
  refine (readsAs_vec (fun a ha => (h a ha).below level) level).congr ?_
  rw [Json.depth_arr_le_iff, List.forall_mem_map, forall₂_and]
  tauto

/-- A number that fits is read back. -/
theorem roundTrips_unsigned {bits n : ℕ} (expected : String) (hn : n < 2 ^ bits) :
    RoundTrips (readUnsigned bits expected) (.int n) n True := by
  have hrange : (0 : ℤ) ≤ n ∧ (n : ℤ) < 2 ^ bits :=
    ⟨Int.natCast_nonneg n, by exact_mod_cast hn⟩
  refine RoundTrips.of_eq_ok (fun level => ?_) rfl
  show visitUnsigned bits expected n = _
  rw [visitUnsigned, if_pos hrange, Int.toNat_natCast]

/-- A vector is read item by item, each in its own spelling. -/
theorem RoundTrips.items {read : Reader α} {docs : List Json} {l : List α}
    (h : List.Forall₂ (fun doc a => RoundTrips read doc a True) docs l) :
    RoundTrips (fun level => readVec (Serde.below read level) level) (.arr docs) l True := by
  intro level l'
  rw [Json.depth_arr_le_iff]
  cases level with
  | zero => simp [readVec, closed]
  | succ level =>
    show docs.mapM (read level) = .ok l' ↔ _
    rw [true_and, and_iff_right (Nat.succ_pos level)]
    simp only [Nat.lt_succ_iff]
    induction h generalizing l' with
    | nil => simp [eq_comm]
    | cons ha _ ih =>
      rw [List.mapM_cons, List.forall_mem_cons, Outcome.bind_eq_ok_iff]
      constructor
      · rintro ⟨a', ha', h⟩
        obtain ⟨as, has, h⟩ := Outcome.bind_eq_ok_iff.mp h
        obtain ⟨rfl, -, hdepth⟩ := (ha level a').mp ha'
        obtain ⟨rfl, hdepths⟩ := (ih as).mp has
        exact ⟨(Outcome.ok.inj h).symm, hdepth, hdepths⟩
      · rintro ⟨rfl, hdepth, hdepths⟩
        refine ⟨_, (ha level _).mpr ⟨rfl, trivial, hdepth⟩, ?_⟩
        rw [(ih _).mpr ⟨rfl, hdepths⟩]
        rfl

/-- `Vec<T>`. -/
def readVector (read : Reader α) : Reader (Vec α) := fun level doc => do
  let l ← readVec (below read level) level doc
  Vec.ofList l

/-- A vector is read back item by item. -/
theorem RoundTrips.vector {read : Reader α} {docs : List Json} {v : Vec α}
    (h : List.Forall₂ (fun doc a => RoundTrips read doc a True) docs v.toList) :
    RoundTrips (readVector read) (.arr docs) v True := by
  intro level
  have hvec : ∀ v' : Vec α, (Vec.ofList v.toList : Outcome DeError (Vec α)) = .ok v' ↔
      v' = v ∧ True := by
    intro v'
    rw [Vec.ofList_eq_ok_iff, and_true, Vec.toList_injective.eq_iff, eq_comm]
  exact ((RoundTrips.items h level).bind hvec).congr (by simp)

theorem RoundTrips.option {read : Reader α} {write : α → Json} {good : α → Prop} {o : Option α}
    (hnull : ∀ a, write a ≠ .null) (h : ∀ a ∈ o, RoundTrips read (write a) a (good a)) :
    RoundTrips (fun level => readOption (read level)) (writeOption write o) o
      (∀ a ∈ o, good a) := by
  intro level
  refine (readsAs_option hnull fun a ha => h a ha level).congr ?_
  cases o <;> simp [writeOption, Json.depth]

/-- Inside an object the fields read the entries as `a`, if the levels suffice for
the values. -/
def Fields.RoundTrip (f : ℕ → Fields α) (entries : List (String × Json)) (a : α)
    (good : Prop) : Prop :=
  ∀ level, (f (level + 1)).ReadsAs entries a (good ∧ ∀ e ∈ entries, e.2.depth ≤ level)

namespace Fields

theorem roundTrip_start (build : α) : RoundTrip (fun _ => start build) [] build True := fun _ =>
  (readsAs_start build).congr (by simp)

/-- A field that must be there is read back. -/
theorem RoundTrip.field {f : ℕ → Fields (α → β)} {entries : List (String × Json)}
    {build : α → β} {good good' : Prop} (h : RoundTrip f entries build good) (name : String)
    {value : Json} {a : α} {read : Reader α} (hread : RoundTrips read value a good')
    (hname : name ∉ entries.map Prod.fst) :
    RoundTrip (fun level => (f level).field name (below read level))
      (entries ++ [(name, value)]) (build a) (good ∧ good') := by
  intro level
  refine ((h level).fieldOr (hread level) hname _).congr ?_
  rw [List.forall_mem_append, List.forall_mem_singleton]
  tauto

/-- A field that may be `null` is read back. -/
theorem RoundTrip.optional {f : ℕ → Fields (Option α → β)} {entries : List (String × Json)}
    {build : Option α → β} {good good' : Prop} (h : RoundTrip f entries build good)
    (name : String) {value : Json} {o : Option α} {read : Reader α}
    (hread : RoundTrips (fun level => readOption (read level)) value o good')
    (hname : name ∉ entries.map Prod.fst) :
    RoundTrip (fun level => (f level).optional name (below read level))
      (entries ++ [(name, value)]) (build o) (good ∧ good') := by
  intro level
  refine ((h level).fieldOr (hread level) hname _).congr ?_
  rw [List.forall_mem_append, List.forall_mem_singleton]
  tauto

/-- A structure is read back from the object that is written. -/
theorem RoundTrip.struct {f : ℕ → Fields α} {entries : List (String × Json)} {a : α}
    {good : Prop} (h : RoundTrip f entries a good) (name : String) :
    RoundTrips (fun level => readStruct name (f level) level) (.obj entries) a good := by
  intro level
  cases level with
  | zero =>
    intro b
    simp [readStruct, closed, Json.depth]
  | succ level =>
    refine (readsAs_struct (h level) name (level + 1)).congr ?_
    simp [Json.depth, Json.entriesDepth_le_iff]

end Fields

/-- A variant with a content is read back. -/
theorem RoundTrips.variant (variants : ℕ → List (String × Variant β)) {tag : String}
    {mk : α → β} {read : Reader α} {value : Json} {a : α} {good : Prop}
    (htag : ∀ level, (variants level).lookup tag = some (.of mk (Serde.below read level)))
    (h : RoundTrips read value a good) :
    RoundTrips (fun level => readEnum (variants level) level) (.obj [(tag, value)]) (mk a)
      good := by
  intro level
  refine (readsAs_variant (htag level) (h.below level) level).congr ?_
  rw [Json.depth_obj_le_iff, List.forall_mem_singleton]
  tauto

/-- A variant without content is read back. -/
theorem RoundTrips.unitVariant (variants : ℕ → List (String × Variant α)) {tag : String} {a : α}
    (htag : ∀ level, (variants level).lookup tag = some (.unit a)) :
    RoundTrips (fun level => readEnum (variants level) level) (.str tag) a True := by
  intro level
  exact (readsAs_unitVariant (htag level) level).congr (by simp [Json.depth])

/-! ## Parts of a document -/

/-- The value of a field of a structure, as `visit_map` and `visit_seq` find it. -/
def Json.field (names : List String) (name : String) : Json → Option Json
  | .obj entries => entries.lookup name
  | .arr items => (names.zip items).lookup name
  | _ => none

/-- The items of an array. -/
def Json.items : Json → List Json
  | .arr items => items
  | _ => []

/-- The content of a variant of an enumeration. -/
def Json.content (tag : String) : Json → Option Json
  | .obj ((t, value) :: _) => if t = tag then some value else none
  | _ => none

/-- `value[key]`: the entry of an object, the last one if the key comes again.  Anything
that is not there is `null`. -/
def Json.index (key : String) : Json → Json
  | .obj entries => (entries.reverse.lookup key).getD .null
  | _ => .null

/-- `as_str`. -/
def Json.asStr : Json → Option String
  | .str s => some s
  | _ => none

/-- Only a text is a text. -/
theorem Json.asStr_eq_some_iff {doc : Json} {s : String} : doc.asStr = some s ↔ doc = .str s := by
  cases doc <;> simp [Json.asStr]

/-- Where no key comes twice, every entry is found. -/
theorem Json.index_of_mem {entries : List (String × Json)} {key : String} {value : Json}
    (hkeys : (entries.map Prod.fst).Nodup) (h : (key, value) ∈ entries) :
    Json.index key (.obj entries) = value := by
  have hlookup : entries.reverse.lookup key = some value := by
    have hmem := List.mem_reverse.mpr h
    have hnodup : (entries.reverse.map Prod.fst).Nodup := by
      rw [List.map_reverse]
      exact List.nodup_reverse.mpr hkeys
    obtain ⟨l₁, l₂, hl⟩ := List.append_of_mem hmem
    rw [hl, List.lookup_eq_some_iff]
    refine ⟨l₁, l₂, rfl, fun e he => ?_⟩
    rw [hl, List.map_append, List.map_cons] at hnodup
    have hdisjoint := List.disjoint_of_nodup_append hnodup
    rw [bne_iff_ne]
    rintro rfl
    exact hdisjoint (List.mem_map_of_mem he) List.mem_cons_self
  rw [Json.index, hlookup, Option.getD_some]

/-- An accepted structure is read from the values of its fields. -/
theorem read_of_readStruct {name : String} {f : Fields α} {level : ℕ} {doc : Json} {a : α}
    (h : readStruct name f level doc = .ok a) : ∃ get, f.read get = .ok a ∧
      ∀ field value, get field = .ok (some value) → doc.field f.names field = some value := by
  unfold readStruct at h
  split at h
  · cases h
  · cases h
  -- an object
  · exact ⟨_, (Fields.visitMap_eq_ok_iff.mp h).2, fun _ _ h => Outcome.ok.inj h⟩
  -- an array
  · obtain ⟨a', ha', h⟩ := Outcome.bind_eq_ok_iff.mp h
    split_ifs at h
    obtain rfl := Outcome.ok.inj h
    refine ⟨_, ha', fun field value hvalue => ?_⟩
    unfold Fields.item at hvalue
    split at hvalue
    · rename_i value' hlookup
      exact hlookup.trans (Outcome.ok.inj hvalue)
    · cases hvalue
  · cases h

/-- What can be told of an element from its item can be told of all elements from
theirs. -/
theorem forall_items_iff {read : Json → Outcome DeError α} {p : α → Prop} {q : Json → Prop}
    (hpq : ∀ item a, read item = .ok a → (p a ↔ q item)) {level : ℕ} {doc : Json} {l : List α}
    (h : readVec read level doc = .ok l) : (∀ a ∈ l, p a) ↔ ∀ item ∈ doc.items, q item := by
  unfold readVec at h
  split at h
  · cases h
  · rename_i level items
    rw [Json.items]
    induction items generalizing l with
    | nil =>
      obtain rfl := Outcome.ok.inj h
      simp
    | cons item items ih =>
      rw [List.mapM_cons] at h
      obtain ⟨a, ha, h⟩ := Outcome.bind_eq_ok_iff.mp h
      obtain ⟨l', hl', h⟩ := Outcome.bind_eq_ok_iff.mp h
      obtain rfl := Outcome.ok.inj h
      rw [List.forall_mem_cons, List.forall_mem_cons, hpq item a ha, ih hl']
  · cases h

/-- What is read one level down is read. -/
theorem exists_of_below {read : Reader α} {level : ℕ} {doc : Json} {a : α}
    (h : below read level doc = .ok a) : ∃ level', read level' doc = .ok a := by
  cases level with
  | zero => cases h
  | succ level => exact ⟨level, h⟩

/-- What every element has that is read, all elements of a vector have. -/
theorem forall_mem_of_readVector {read : Reader α} {p : α → Prop}
    (hp : ∀ level item a, read level item = .ok a → p a) {level : ℕ} {doc : Json} {v : Vec α}
    (h : readVector read level doc = .ok v) : ∀ a ∈ v.toList, p a := by
  obtain ⟨l, hl, hv⟩ := Outcome.bind_eq_ok_iff.mp h
  obtain rfl := Vec.ofList_eq_ok_iff.mp hv
  have hp' : ∀ item a, below read level item = .ok a → (p a ↔ True) := by
    intro item a ha
    obtain ⟨level', ha⟩ := exists_of_below ha
    exact iff_true_intro (hp level' item a ha)
  exact (forall_items_iff hp' hl).mpr fun _ _ => trivial

/-- An accepted enumeration is a variant without content or the content of one. -/
theorem variant_of_readEnum {variants : List (String × Variant α)} {level : ℕ} {doc : Json}
    {a : α} (h : readEnum variants level doc = .ok a) :
    (∃ tag, variants.lookup tag = some (.unit a) ∧
      (doc = .str tag ∨ doc = .obj [(tag, .null)])) ∨
    ∃ tag read value, variants.lookup tag = some (.newtype read) ∧
      doc = .obj [(tag, value)] ∧ read value = .ok a := by
  unfold readEnum at h
  split at h
  · rename_i tag
    split at h
    · rename_i a' hlookup
      obtain rfl := Outcome.ok.inj h
      exact .inl ⟨tag, hlookup, .inl rfl⟩
    · cases h
    · cases h
  · cases h
  · rename_i tag value rest
    obtain ⟨a', ha', h⟩ := Outcome.bind_eq_ok_iff.mp h
    split_ifs at h with hrest
    obtain rfl := Outcome.ok.inj h
    obtain rfl := List.isEmpty_iff.mp hrest
    unfold readContent at ha'
    split at ha'
    · rename_i a'' hlookup
      split at ha'
      · obtain rfl := Outcome.ok.inj ha'
        exact .inl ⟨tag, hlookup, .inr rfl⟩
      · cases ha'
    · rename_i read hlookup
      exact .inr ⟨tag, read, value, hlookup, rfl, ha'⟩
    · cases ha'
  · cases h

/-! ## Texts -/

/-- A character inside of a string. -/
def escape (c : Char) : String :=
  if c = '"' then "\\\""
  else if c = '\\' then "\\\\"
  else if c.toNat = 8 then "\\b"
  else if c.toNat = 9 then "\\t"
  else if c.toNat = 10 then "\\n"
  else if c.toNat = 12 then "\\f"
  else if c.toNat = 13 then "\\r"
  else if c.toNat < 32 then
    "\\u00" ++ String.ofList [Nat.digitChar (c.toNat / 16), Nat.digitChar (c.toNat % 16)]
  else String.singleton c

/-- A text as it is written. -/
def quote (s : String) : String := "\"" ++ String.join (s.toList.map escape) ++ "\""

mutual

/-- `serde_json::to_string`. -/
def Json.compact : Json → String
  | .null => "null"
  | .bool b => if b then "true" else "false"
  | .int n => toString n
  | .float text => text
  | .str s => quote s
  | .arr items => "[" ++ ",".intercalate (Json.compactItems items) ++ "]"
  | .obj entries => "\x7b" ++ ",".intercalate (Json.compactEntries entries) ++ "\x7d"

/-- The items as they are written. -/
def Json.compactItems : List Json → List String
  | [] => []
  | item :: items => item.compact :: Json.compactItems items

/-- The entries as they are written. -/
def Json.compactEntries : List (String × Json) → List String
  | [] => []
  | ⟨name, value⟩ :: entries => (quote name ++ ":" ++ value.compact) ::
      Json.compactEntries entries

end

/-- The nesting that the parser allows: its `remaining_depth` starts at 128 and must
stay positive. -/
def recursionLimit : ℕ := 127

/-- `serde_json::from_str`, given the parser of its texts. -/
def fromStr (parse : String → Option Json) (read : Reader α) (s : String) : Outcome DeError α :=
  match parse s with
  | some doc => read recursionLimit doc
  | none => .err .syntaxError

/-- A parser at the text of one document. -/
def parserOf (doc : Json) (s : String) : Option Json := if s = doc.compact then some doc else none

/-- The one text that this parser knows. -/
theorem parserOf_compact (doc : Json) : parserOf doc doc.compact = some doc := if_pos rfl

end Serde
