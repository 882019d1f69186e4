/-
# What a reader takes for what

`TakesExactly n read readFrom` says which documents a reader takes, and for which values:
whatever is read has been `readFrom` the document, and a document from which a value is
`readFrom` is read as this value if fewer than `n` levels are open in it.  The ways to put
readers together keep this: vectors, options, structures and enumerations.
-/
import OmniTransaction.Json

open Rust

namespace Serde

variable {α β : Type} {n level : ℕ}

/-- The reader takes the documents from which a value is read for this value. -/
structure TakesExactly (n : ℕ) (read : Json → Outcome DeError α)
    (readFrom : α → Json → Prop) : Prop where
  sound : ∀ doc a, read doc = .ok a → readFrom a doc
  complete : ∀ doc a, doc.depth < n → readFrom a doc → read doc = .ok a

namespace TakesExactly

variable {read : Json → Outcome DeError α} {readFrom : α → Json → Prop}

theorem congr {readFrom' : α → Json → Prop} (h : TakesExactly n read readFrom)
    (hfrom : ∀ a doc, readFrom a doc ↔ readFrom' a doc) : TakesExactly n read readFrom' where
  sound doc a ha := (hfrom a doc).mp (h.sound doc a ha)
  complete doc a hdepth ha := h.complete doc a hdepth ((hfrom a doc).mpr ha)

/-- The reader of a scalar needs no levels. -/
theorem of_forall (h : ∀ doc a, read doc = .ok a ↔ readFrom a doc) :
    TakesExactly n read readFrom where
  sound doc a ha := (h doc a).mp ha
  complete doc a _ ha := (h doc a).mpr ha

/-- No level may be opened. -/
theorem closed : TakesExactly 0 (closed : Json → Outcome DeError α) readFrom where
  sound _ _ ha := by cases ha
  complete _ _ hdepth := absurd hdepth (Nat.not_lt_zero _)

/-- One level down there is one level less. -/
theorem below {read : Reader α} (h : ∀ level, TakesExactly (level + 1) (read level) readFrom)
    (level : ℕ) : TakesExactly level (below read level) readFrom := by
  cases level with
  | zero => exact closed
  | succ level => exact h level

/-- The value is changed after the reading. -/
theorem map (h : TakesExactly n read readFrom) (f : α → β) :
    TakesExactly n (fun doc => read doc >>= fun a => pure (f a))
      (fun b doc => ∃ a, readFrom a doc ∧ b = f a) where
  sound doc b hb := by
    obtain ⟨a, ha, hb⟩ := Outcome.bind_eq_ok_iff.mp hb
    exact ⟨a, h.sound doc a ha, (Outcome.ok.inj hb).symm⟩
  complete doc b hdepth := by
    rintro ⟨a, ha, rfl⟩
    rw [h.complete doc a hdepth ha]
    rfl

end TakesExactly

/-- A text is read as itself. -/
theorem takesExactly_string (level : ℕ) :
    TakesExactly (level + 1) (readString level) fun s doc => doc = .str s := by
  apply TakesExactly.of_forall
  intro doc s
  cases doc <;> simp [readString]

/-- Bytes are an array of numbers below 256. -/
theorem takesExactly_bytes (level : ℕ) :
    TakesExactly (level + 1) (readBytes level) fun b doc => doc = writeBytes b where
  sound _ _ hb := (readBytes_eq_ok_iff.mp hb).1
  complete doc b hdepth := by
    rintro rfl
    exact readBytes_eq_ok_iff.mpr
      ⟨rfl, depth_writeBytes_le_iff.mp (Nat.lt_succ_iff.mp hdepth)⟩

/-! ## Vectors and options -/

/-- The list is read item by item from an array. -/
def ItemsFrom (readFrom : α → Json → Prop) (l : List α) (doc : Json) : Prop :=
  ∃ items, doc = .arr items ∧ List.Forall₂ readFrom l items

/-- An absent value is `null`. -/
def OptionFrom (readFrom : α → Json → Prop) : Option α → Json → Prop
  | none, doc => doc = .null
  | some a, doc => doc ≠ .null ∧ readFrom a doc

variable {read : Json → Outcome DeError α} {readFrom : α → Json → Prop}

/-- All items are read, one after the other. -/
theorem TakesExactly.mapM_eq_ok (h : TakesExactly n read readFrom) {l : List α}
    {items : List Json} (hitems : List.Forall₂ readFrom l items)
    (hdepth : ∀ item ∈ items, item.depth < n) : items.mapM read = .ok l := by
  induction hitems with
  | nil => rfl
  | cons ha _ ih =>
    obtain ⟨hitem, hdepth⟩ := List.forall_mem_cons.mp hdepth
    rw [List.mapM_cons, h.complete _ _ hitem ha, Outcome.ok_bind, ih hdepth]
    rfl

/-- A list is read item by item. -/
theorem TakesExactly.vec (h : TakesExactly level read readFrom) :
    TakesExactly (level + 1) (readVec read level) (ItemsFrom readFrom) where
  sound doc l hl := by
    unfold readVec at hl
    split at hl
    · cases hl
    · exact ⟨_, rfl, (Outcome.forall₂_of_mapM hl).imp fun a item ha => h.sound item a ha⟩
    · cases hl
  complete doc l hdepth := by
    rintro ⟨items, rfl, hitems⟩
    obtain ⟨hlevel, hdepth⟩ := Json.depth_arr_le_iff.mp (Nat.lt_succ_iff.mp hdepth)
    cases level with
    | zero => exact absurd hlevel (Nat.lt_irrefl 0)
    | succ level => exact h.mapM_eq_ok hitems hdepth

/-- The same for a vector. -/
def VectorFrom (readFrom : α → Json → Prop) (v : Vec α) : Json → Prop :=
  ItemsFrom readFrom v.toList

theorem TakesExactly.vector {read : Reader α}
    (h : ∀ level, TakesExactly (level + 1) (read level) readFrom) (level : ℕ) :
    TakesExactly (level + 1) (readVector read level) (VectorFrom readFrom) where
  sound doc v hv := by
    obtain ⟨l, hl, hv⟩ := Outcome.bind_eq_ok_iff.mp hv
    rw [VectorFrom, Vec.ofList_eq_ok_iff.mp hv]
    exact (TakesExactly.below h level).vec.sound doc l hl
  complete doc v hdepth hv := by
    refine Outcome.bind_eq_ok_iff.mpr ⟨v.toList, ?_, Vec.ofList_eq_ok_iff.mpr rfl⟩
    exact (TakesExactly.below h level).vec.complete doc v.toList hdepth hv

/-- A number is read when it fits. -/
theorem takesExactly_unsigned (bits : ℕ) (expected : String) (level : ℕ) :
    TakesExactly (level + 1) (readUnsigned bits expected level) fun n doc =>
      doc = .int n ∧ n < 2 ^ bits := by
  apply TakesExactly.of_forall
  intro doc n
  constructor
  · intro h
    cases doc with
    | int i =>
      change visitUnsigned bits expected i = _ at h
      rw [visitUnsigned] at h
      split_ifs at h with hrange
      obtain ⟨m, rfl⟩ := Int.eq_ofNat_of_zero_le hrange.1
      obtain rfl := Outcome.ok.inj h
      exact ⟨rfl, by exact_mod_cast hrange.2⟩
    | _ => cases h
  · rintro ⟨rfl, hlt⟩
    exact (roundTrips_unsigned expected hlt level).eq_ok_iff.mpr ⟨trivial, Nat.zero_le _⟩

/-- `null` is no value. -/
theorem TakesExactly.option (h : TakesExactly n read readFrom) :
    TakesExactly n (readOption read) (OptionFrom readFrom) where
  sound doc o ho := by
    unfold readOption at ho
    split at ho
    · obtain rfl := Outcome.ok.inj ho
      exact rfl
    · obtain ⟨a, ha, ho⟩ := Outcome.bind_eq_ok_iff.mp ho
      obtain rfl := Outcome.ok.inj ho
      exact ⟨‹_›, h.sound doc a ha⟩
  complete doc o hdepth ho := by
    cases o with
    | none =>
      rw [show doc = .null from ho]
      rfl
    | some a =>
      obtain ⟨hnull, ha⟩ := ho
      unfold readOption
      split
      · exact absurd rfl hnull
      · rw [h.complete doc a hdepth ha]
        rfl

/-! ## Structures -/

/-- An object in which no field comes twice, or an array with an item for each field. -/
def Json.IsStruct (names : List String) : Json → Prop
  | .obj entries => (Fields.known names entries).Nodup
  | .arr items => items.length = names.length
  | _ => False

instance (names : List String) : ∀ doc : Json, Decidable (doc.IsStruct names)
  | .obj entries => inferInstanceAs (Decidable (Fields.known names entries).Nodup)
  | .arr items => inferInstanceAs (Decidable (items.length = names.length))
  | .null => .isFalse id
  | .bool _ => .isFalse id
  | .int _ => .isFalse id
  | .float _ => .isFalse id
  | .str _ => .isFalse id

/-- The structure is read from the values of its fields. -/
def StructFrom (names : List String) (fields : (String → Option Json) → Prop) (doc : Json) :
    Prop :=
  doc.IsStruct names ∧ fields (doc.field names)

/-- There is a value for the field, from which it is read. -/
def Present (readFrom : α → Json → Prop) (a : α) (o : Option Json) : Prop :=
  ∃ value, o = some value ∧ readFrom a value

/-- The value of an optional field is read from what stands there, if anything does. -/
def Optional (readFrom : α → Json → Prop) (a : Option α) (o : Option Json) : Prop :=
  (o = none ∧ a = none) ∨ Present (OptionFrom readFrom) a o

namespace Fields

/-- The fields are read from the values that are found for their names. -/
structure TakesExactly (n : ℕ) (f : Fields α)
    (readFrom : α → (String → Option Json) → Prop) : Prop where
  sound : ∀ (get : String → Outcome DeError (Option Json)) (values : String → Option Json),
    (∀ name, get name = .ok (values name) ∨ ∃ e, get name = .err e) → ∀ a, f.read get = .ok a →
      (∀ name ∈ f.names, get name = .ok (values name)) ∧ readFrom a values
  complete : ∀ (get : String → Outcome DeError (Option Json)) (values : String → Option Json),
    (∀ name ∈ f.names, get name = .ok (values name)) →
      (∀ name value, values name = some value → value.depth < n) →
        ∀ a, readFrom a values → f.read get = .ok a

/-- Nothing is read, and the value is given. -/
theorem takesExactly_start (build : α) : (start build).TakesExactly n fun a _ => a = build where
  sound get values _ a ha := ⟨by simp [start, names], read_start_eq_ok_iff.mp ha⟩
  complete get values _ _ a ha := read_start_eq_ok_iff.mpr ha

/-- The names in the order of the fields. -/
theorem names_fieldOr (f : Fields (α → β)) (name : String) (read : Json → Outcome DeError α)
    (missing : Outcome DeError α) : (f.fieldOr name read missing).names = f.names ++ [name] := by
  rw [names, fieldOr, List.map_append]
  rfl

/-- One more field, from the document under its name or from its absence. -/
theorem TakesExactly.fieldOr {f : Fields (α → β)}
    {buildFrom : (α → β) → (String → Option Json) → Prop} (h : f.TakesExactly n buildFrom)
    (name : String) {missing : Outcome DeError α} {valueFrom : α → Option Json → Prop}
    (hsound : ∀ o a, readField read missing o = .ok a → valueFrom a o)
    (hcomplete : ∀ o a, (∀ value ∈ o, value.depth < n) → valueFrom a o →
      readField read missing o = .ok a) :
    (f.fieldOr name read missing).TakesExactly n fun b values =>
      ∃ build a, buildFrom build values ∧ valueFrom a (values name) ∧ b = build a where
  sound get values hget b hb := by
    obtain ⟨build, hbuild, o, ho, a, ha, rfl⟩ := read_fieldOr_eq_ok_iff.mp hb
    obtain ⟨hnames, hfrom⟩ := h.sound get values hget build hbuild
    have hname : get name = .ok (values name) := by
      rcases hget name with hname | ⟨e, he⟩
      · exact hname
      · rw [he] at ho
        cases ho
    obtain rfl := Outcome.ok.inj (hname.symm.trans ho)
    refine ⟨?_, build, a, hfrom, hsound _ a ha, rfl⟩
    rw [names_fieldOr, List.forall_mem_append, List.forall_mem_singleton]
    exact ⟨hnames, hname⟩
  complete get values hget hdepth b := by
    rintro ⟨build, a, hbuild, ha, rfl⟩
    rw [names_fieldOr, List.forall_mem_append, List.forall_mem_singleton] at hget
    exact read_fieldOr_eq_ok_iff.mpr ⟨build, h.complete get values hget.1 hdepth build hbuild,
      values name, hget.2, a, hcomplete _ a (hdepth name) ha, rfl⟩

/-- A field that must be there. -/
theorem TakesExactly.field {f : Fields (α → β)}
    {buildFrom : (α → β) → (String → Option Json) → Prop} (h : f.TakesExactly n buildFrom)
    (name : String) (hread : Serde.TakesExactly n read readFrom) :
    (f.field name read).TakesExactly n fun b values =>
      ∃ build a, buildFrom build values ∧ Present readFrom a (values name) ∧ b = build a := by
  refine h.fieldOr name (fun o a ha => ?_) fun o a hdepth => ?_
  · cases o with
    | none => cases ha
    | some value => exact ⟨value, rfl, hread.sound value a ha⟩
  · rintro ⟨value, rfl, ha⟩
    exact hread.complete value a (hdepth value rfl) ha

/-- A field that may be absent. -/
theorem TakesExactly.optional {f : Fields (Option α → β)}
    {buildFrom : (Option α → β) → (String → Option Json) → Prop} (h : f.TakesExactly n buildFrom)
    (name : String) (hread : Serde.TakesExactly n read readFrom) :
    (f.optional name read).TakesExactly n fun b values =>
      ∃ build a, buildFrom build values ∧ Optional readFrom a (values name) ∧ b = build a := by
  refine h.fieldOr name (fun o a ha => ?_) fun o a hdepth => ?_
  · cases o with
    | none => exact .inl ⟨rfl, (Outcome.ok.inj ha).symm⟩
    | some value => exact .inr ⟨value, rfl, hread.option.sound value a ha⟩
  · rintro (⟨rfl, rfl⟩ | ⟨value, rfl, ha⟩)
    · rfl
    · exact hread.option.complete value a (hdepth value rfl) ha

/-- There is an item for every name when there are as many items as names. -/
theorem forall_lookup_zip_iff {names : List String} (hnodup : names.Nodup) {items : List Json} :
    (∀ name ∈ names, ((names.zip items).lookup name).isSome) ↔ names.length ≤ items.length := by
  have hisSome : ∀ name, ((names.zip items).lookup name).isSome ↔
      name ∈ (names.zip items).map Prod.fst := by
    intro name
    rw [List.lookup_isSome_iff, List.mem_map]
    simp only [beq_iff_eq, @eq_comm _ name]
  simp only [hisSome]
  constructor
  · intro h
    have hlen := hnodup.length_le_of_subset h
    rw [List.length_map, List.length_zip] at hlen
    omega
  · intro h
    rw [List.map_fst_zip h]
    exact fun _ => id

/-- The item in the place of the name. -/
theorem item_eq_ok_iff {names : List String} {expected : String} {items : List Json}
    {name : String} {o : Option Json} :
    item names expected items name = .ok o ↔ (names.zip items).lookup name = o ∧ o.isSome := by
  unfold item
  cases (names.zip items).lookup name with
  | none =>
    refine iff_of_false nofun ?_
    rintro ⟨rfl, h⟩
    cases h
  | some value =>
    rw [Outcome.ok.injEq]
    constructor
    · rintro rfl
      exact ⟨rfl, rfl⟩
    · exact And.left

/-- An item that is not there is an error. -/
theorem item_eq_ok_or_err (names : List String) (expected : String) (items : List Json)
    (name : String) : item names expected items name = .ok ((names.zip items).lookup name) ∨
      ∃ e, item names expected items name = .err e := by
  unfold item
  cases (names.zip items).lookup name with
  | none => exact .inr ⟨_, rfl⟩
  | some value => exact .inl rfl

/-- What is read from an array is read from its items by their places. -/
theorem TakesExactly.of_visitSeq {f : Fields α} {readFrom : α → (String → Option Json) → Prop}
    (h : f.TakesExactly n readFrom) (hnodup : f.names.Nodup) {expected : String}
    {items : List Json} {a : α} (ha : f.visitSeq expected items = .ok a) :
    items.length = f.names.length ∧ readFrom a fun name => (f.names.zip items).lookup name := by
  obtain ⟨a', ha', hlength⟩ := Outcome.bind_eq_ok_iff.mp ha
  split_ifs at hlength with hle
  obtain rfl := Outcome.ok.inj hlength
  obtain ⟨hitems, hfrom⟩ := h.sound _ _ (item_eq_ok_or_err f.names expected items) a' ha'
  have hpresent : ∀ name ∈ f.names, ((f.names.zip items).lookup name).isSome :=
    fun name hname => (item_eq_ok_iff.mp (hitems name hname)).2
  exact ⟨le_antisymm hle ((forall_lookup_zip_iff hnodup).mp hpresent), hfrom⟩

/-- An array with an item for every name is read. -/
theorem TakesExactly.visitSeq {f : Fields α} {readFrom : α → (String → Option Json) → Prop}
    (h : f.TakesExactly n readFrom) (hnodup : f.names.Nodup) (expected : String)
    {items : List Json} (hlength : items.length = f.names.length)
    (hdepth : ∀ item ∈ items, item.depth < n) {a : α}
    (ha : readFrom a fun name => (f.names.zip items).lookup name) :
    f.visitSeq expected items = .ok a := by
  have hitems : ∀ name ∈ f.names, item f.names expected items name =
      .ok ((f.names.zip items).lookup name) := fun name hname =>
    item_eq_ok_iff.mpr ⟨rfl, (forall_lookup_zip_iff hnodup).mpr hlength.ge name hname⟩
  have hread : f.read (item f.names expected items) = .ok a :=
    h.complete _ _ hitems
      (fun _ _ hvalue => hdepth _ (List.of_mem_zip (mem_of_lookup hvalue)).2) a ha
  rw [Fields.visitSeq, hread, Outcome.ok_bind, if_pos hlength.le]
  rfl

/-- A structure is read from an object or from an array. -/
theorem TakesExactly.struct {f : Fields α} {readFrom : α → (String → Option Json) → Prop}
    (h : f.TakesExactly level readFrom) (hnodup : f.names.Nodup) (name : String) :
    Serde.TakesExactly (level + 1) (readStruct name f level) fun a =>
      StructFrom f.names (readFrom a) where
  sound doc a ha := by
    unfold readStruct at ha
    split at ha
    · cases ha
    · cases ha
    · rename_i entries
      obtain ⟨hknown, ha⟩ := visitMap_eq_ok_iff.mp ha
      exact ⟨hknown, (h.sound _ (fun n => entries.lookup n) (fun _ => .inl rfl) a ha).2⟩
    · exact h.of_visitSeq hnodup ha
    · cases ha
  complete doc a hdepth := by
    rintro ⟨hstruct, ha⟩
    cases doc with
    | obj entries =>
      obtain ⟨hlevel, hdepth⟩ := Json.depth_obj_le_iff.mp (Nat.lt_succ_iff.mp hdepth)
      cases level with
      | zero => exact absurd hlevel (Nat.lt_irrefl 0)
      | succ level =>
        refine visitMap_eq_ok_iff.mpr ⟨hstruct, ?_⟩
        exact h.complete _ (fun n => entries.lookup n) (fun _ _ => rfl)
          (fun _ _ hvalue => hdepth _ (mem_of_lookup hvalue)) a ha
    | arr items =>
      obtain ⟨hlevel, hdepth⟩ := Json.depth_arr_le_iff.mp (Nat.lt_succ_iff.mp hdepth)
      cases level with
      | zero => exact absurd hlevel (Nat.lt_irrefl 0)
      | succ level => exact h.visitSeq hnodup _ hstruct hdepth ha
    | _ => cases hstruct

/-- The same, with the condition on the values in a form of its own. -/
theorem TakesExactly.structFrom {f : Fields α} {readFrom fields : α → (String → Option Json) → Prop}
    (h : f.TakesExactly level readFrom) {names : List String} (hnames : f.names = names)
    (hnodup : names.Nodup) (hfields : ∀ a values, readFrom a values ↔ fields a values)
    (name : String) :
    Serde.TakesExactly (level + 1) (readStruct name f level) fun a =>
      StructFrom names (fields a) := by
  subst hnames
  exact (h.struct hnodup name).congr fun a doc => and_congr_right' (hfields a _)

end Fields

/-! ## Enumerations -/

/-- What is read for the variant is read from its name, or from its name with the content. -/
def Variant.SoundAt (tag : String) (readFrom : α → Json → Prop) : Variant α → Prop
  | .unit a => readFrom a (.str tag) ∧ readFrom a (.obj [(tag, .null)])
  | .newtype read => ∀ value a, read value = .ok a → readFrom a (.obj [(tag, value)])

/-- The content of a variant under its name. -/
def Tagged (tag : String) (readFrom : α → Json → Prop) (a : α) (doc : Json) : Prop :=
  ∃ value, doc = .obj [(tag, value)] ∧ readFrom a value

/-- The name of a variant without content, alone or with `null` for the content. -/
def TagOnly (tag : String) (doc : Json) : Prop := doc = .str tag ∨ doc = .obj [(tag, .null)]

theorem Variant.soundAt_of {readFrom' : β → Json → Prop} {tag : String}
    (h : TakesExactly n read readFrom) {mk : α → β}
    (hmk : ∀ a doc, Tagged tag readFrom a doc → readFrom' (mk a) doc) :
    (Variant.of mk read).SoundAt tag readFrom' := by
  intro value b hb
  obtain ⟨a, ha, hb⟩ := Outcome.bind_eq_ok_iff.mp hb
  obtain rfl := Outcome.ok.inj hb
  exact hmk a _ ⟨value, rfl, h.sound value a ha⟩

/-- What is read as an enumeration is one of its variants. -/
theorem readEnum_sound {variants : List (String × Variant α)}
    (h : ∀ v ∈ variants, v.2.SoundAt v.1 readFrom) {doc : Json} {a : α}
    (ha : readEnum variants level doc = .ok a) : readFrom a doc := by
  rcases variant_of_readEnum ha with
    ⟨tag, hlookup, rfl | rfl⟩ | ⟨tag, read, value, hlookup, rfl, hread⟩
  · exact (h _ (mem_of_lookup hlookup)).1
  · exact (h _ (mem_of_lookup hlookup)).2
  · exact h _ (mem_of_lookup hlookup) value a hread

/-- A variant with a content is read from the object with its name. -/
theorem readEnum_tagged {variants : List (String × Variant β)} {tag : String} {mk : α → β}
    (hlookup : variants.lookup tag = some (.of mk read)) (h : TakesExactly level read readFrom)
    {a : α} {doc : Json} (hdepth : doc.depth < level + 1) (ha : Tagged tag readFrom a doc) :
    readEnum variants level doc = .ok (mk a) := by
  obtain ⟨value, rfl, ha⟩ := ha
  obtain ⟨hlevel, hdepth⟩ := Json.depth_obj_le_iff.mp (Nat.lt_succ_iff.mp hdepth)
  have hread := h.complete value a (hdepth _ (List.mem_singleton_self _)) ha
  exact (readsAs_variant hlookup (ReadsAs.of_eq_ok hread) level).eq_ok_iff.mpr ⟨hlevel, trivial⟩

/-- A variant without content is read from its name. -/
theorem readEnum_tagOnly {variants : List (String × Variant α)} {tag : String} {a : α}
    (hlookup : variants.lookup tag = some (.unit a)) {doc : Json} (hdepth : doc.depth < level + 1)
    (hdoc : TagOnly tag doc) : readEnum variants level doc = .ok a := by
  rcases hdoc with rfl | rfl
  · rw [readEnum, hlookup]
  · obtain ⟨hlevel, -⟩ := Json.depth_obj_le_iff.mp (Nat.lt_succ_iff.mp hdepth)
    cases level with
    | zero => exact absurd hlevel (Nat.lt_irrefl 0)
    | succ level =>
      rw [readEnum, readContent, hlookup]
      rfl

/-! ## Texts -/

section

variable {reader : Reader α} {parse : String → Option Json} {text : String} {doc : Json} {a : α}

/-- What is read from a text is read from the document that it is. -/
theorem TakesExactly.of_fromStr
    (h : TakesExactly (recursionLimit + 1) (reader recursionLimit) readFrom)
    (hparse : parse text = some doc) (ha : Serde.fromStr parse reader text = .ok a) :
    readFrom a doc := by
  rw [Serde.fromStr, hparse] at ha
  exact h.sound doc a ha

/-- A text is read when its document is taken and not too deep. -/
theorem TakesExactly.fromStr_eq_ok
    (h : TakesExactly (recursionLimit + 1) (reader recursionLimit) readFrom)
    (hparse : parse text = some doc) (hdepth : doc.depth ≤ recursionLimit)
    (ha : readFrom a doc) : Serde.fromStr parse reader text = .ok a := by
  rw [Serde.fromStr, hparse]
  exact h.complete doc a (Nat.lt_succ_of_le hdepth) ha

end

/-- A value is read only from the text of a document of it.  From one that is not nested too
deep it is read. -/
theorem TakesExactly.fromStr {read : Reader α}
    (h : TakesExactly (recursionLimit + 1) (read recursionLimit) readFrom)
    (parse : String → Option Json) (text : String) (a : α) :
    (fromStr parse read text = .ok a → ∃ doc, parse text = some doc ∧ readFrom a doc) ∧
    ∀ doc, parse text = some doc → doc.depth ≤ recursionLimit →
      (fromStr parse read text = .ok a ↔ readFrom a doc) := by
  constructor
  · intro ha
    cases hparse : parse text with
    | none =>
      rw [Serde.fromStr, hparse] at ha
      cases ha
    | some doc => exact ⟨doc, rfl, h.of_fromStr hparse ha⟩
  · intro doc hparse hdepth
    exact ⟨h.of_fromStr hparse, h.fromStr_eq_ok hparse hdepth⟩

end Serde
