/-
# Documents whose entries stand in another order

Two documents say the same when one becomes the other by letting neighbouring entries of an
object, with different names, change places, at any depth (`Json.Rearranged`).  A reader is
`OrderFree` when it accepts the same documents, with the same values, before and after one
such move.  There is a rule for each way a reader is put together, and so all rearranged
documents are read alike (`OrderFree.eq_ok_iff`).
-/
import Mathlib.Logic.Relation
import OmniTransaction.ReaderProperties

open ByteOrder Rust Relation

namespace Serde

variable {α β : Type}

/-! ## Rearranged documents -/

/-- Two neighbours in an object change places, here or further inside. -/
inductive Json.Moves : Json → Json → Prop where
  | swap {before after : List (String × Json)} {a b : String × Json} (h : a.1 ≠ b.1) :
      Moves (.obj (before ++ a :: b :: after)) (.obj (before ++ b :: a :: after))
  | entry {before after : List (String × Json)} {name : String} {value value' : Json}
      (h : Moves value value') :
      Moves (.obj (before ++ (name, value) :: after)) (.obj (before ++ (name, value') :: after))
  | item {before after : List Json} {value value' : Json} (h : Moves value value') :
      Moves (.arr (before ++ value :: after)) (.arr (before ++ value' :: after))

/-- Some moves lead from the one document to the other. -/
def Json.Rearranged : Json → Json → Prop := ReflTransGen Json.Moves

namespace Json

variable {doc doc' : Json}

/-- Entries are put back in the same way. -/
theorem Moves.symm (h : doc.Moves doc') : doc'.Moves doc := by
  induction h with
  | swap h => exact .swap h.symm
  | entry _ ih => exact .entry ih
  | item _ ih => exact .item ih

theorem Rearranged.symm (h : doc.Rearranged doc') : doc'.Rearranged doc := by
  induction h with
  | refl => exact .refl
  | tail _ hmove ih => exact .head hmove.symm ih

/-- A move within the reversed entries. -/
theorem Moves.reverse {entries entries' : List (String × Json)}
    (h : (Json.obj entries).Moves (.obj entries')) :
    (Json.obj entries.reverse).Moves (.obj entries'.reverse) := by
  cases h with
  | @swap before after a b h =>
    have hreverse : (Json.obj (after.reverse ++ b :: a :: before.reverse)).Moves
        (.obj (after.reverse ++ a :: b :: before.reverse)) := .swap h.symm
    simpa using hreverse
  | @entry before after name value value' h =>
    have hreverse : (Json.obj (after.reverse ++ (name, value) :: before.reverse)).Moves
        (.obj (after.reverse ++ (name, value') :: before.reverse)) := .entry h
    simpa using hreverse

/-- The moves in an object do not depend on an entry in front of it. -/
theorem Moves.cons {entries : List (String × Json)} (h : (Json.obj entries).Moves doc)
    (e : String × Json) :
    ∃ entries', doc = .obj entries' ∧ (Json.obj (e :: entries)).Moves (.obj (e :: entries')) := by
  cases h with
  | @swap before after a b h =>
    have hcons : (Json.obj ((e :: before) ++ a :: b :: after)).Moves
        (.obj ((e :: before) ++ b :: a :: after)) := .swap h
    exact ⟨_, rfl, hcons⟩
  | @entry before after name value value' h =>
    have hcons : (Json.obj ((e :: before) ++ (name, value) :: after)).Moves
        (.obj ((e :: before) ++ (name, value') :: after)) := .entry h
    exact ⟨_, rfl, hcons⟩

/-- One more entry in front stays where it is. -/
theorem Rearranged.cons {entries : List (String × Json)} (h : (Json.obj entries).Rearranged doc)
    (e : String × Json) : ∃ entries', doc = .obj entries' ∧
      (Json.obj (e :: entries)).Rearranged (.obj (e :: entries')) := by
  induction h with
  | refl => exact ⟨entries, rfl, .refl⟩
  | tail _ hmove ih =>
    obtain ⟨entries', rfl, hentries⟩ := ih
    obtain ⟨entries'', rfl, hmove'⟩ := hmove.cons e
    exact ⟨entries'', rfl, hentries.tail hmove'⟩

/-- Where no name comes twice, the entries of an object may stand in any order. -/
theorem rearranged_of_perm {entries entries' : List (String × Json)} (h : entries.Perm entries')
    (hnodup : (entries.map Prod.fst).Nodup) :
    (Json.obj entries).Rearranged (.obj entries') := by
  induction h with
  | nil => exact .refl
  | cons e _ ih =>
    rw [List.map_cons, List.nodup_cons] at hnodup
    obtain ⟨entries'', heq, h⟩ := (ih hnodup.2).cons e
    rwa [Json.obj.inj heq]
  | swap a b entries =>
    rw [List.map_cons, List.map_cons, List.nodup_cons, List.mem_cons, not_or] at hnodup
    have hswap : (Json.obj ([] ++ b :: a :: entries)).Moves (.obj ([] ++ a :: b :: entries)) :=
      .swap hnodup.1.1
    exact .single hswap
  | trans h _ ih ih' =>
    exact (ih hnodup).trans (ih' ((h.map Prod.fst).nodup_iff.mp hnodup))

/-- A document without parts. -/
def IsScalar : Json → Prop
  | .arr _ => False
  | .obj _ => False
  | _ => True

/-- Only objects and arrays have something to move. -/
theorem Moves.not_isScalar (h : doc.Moves doc') : ¬ doc.IsScalar := by
  cases h <;> exact id

/-- A move does not make the document deeper. -/
theorem Moves.depth_le (h : doc.Moves doc') : doc'.depth ≤ doc.depth := by
  induction h with
  | @swap before after a b h =>
    obtain ⟨hpos, hentries⟩ :=
      Json.depth_obj_le_iff.mp (le_refl (Json.obj (before ++ a :: b :: after)).depth)
    refine Json.depth_obj_le_iff.mpr ⟨hpos, fun e he => hentries e ?_⟩
    simp only [List.mem_append, List.mem_cons] at he ⊢
    tauto
  | @entry before after name value value' h ih =>
    obtain ⟨hpos, hentries⟩ :=
      Json.depth_obj_le_iff.mp (le_refl (Json.obj (before ++ (name, value) :: after)).depth)
    rw [List.forall_mem_append, List.forall_mem_cons] at hentries
    rw [Json.depth_obj_le_iff, List.forall_mem_append, List.forall_mem_cons]
    exact ⟨hpos, hentries.1, ih.trans_lt hentries.2.1, hentries.2.2⟩
  | @item before after value value' h ih =>
    obtain ⟨hpos, hitems⟩ :=
      Json.depth_arr_le_iff.mp (le_refl (Json.arr (before ++ value :: after)).depth)
    rw [List.forall_mem_append, List.forall_mem_cons] at hitems
    rw [Json.depth_arr_le_iff, List.forall_mem_append, List.forall_mem_cons]
    exact ⟨hpos, hitems.1, ih.trans_lt hitems.2.1, hitems.2.2⟩

theorem Moves.depth_eq (h : doc.Moves doc') : doc.depth = doc'.depth :=
  le_antisymm h.symm.depth_le h.depth_le

end Json

/-! ## Readers of a single document -/

/-- A move changes nothing for the reader. -/
def OrderFree (read : Json → Outcome DeError α) : Prop :=
  ∀ doc doc', doc.Moves doc' → ∀ a, read doc = .ok a → read doc' = .ok a

variable {read : Json → Outcome DeError α}

/-- A reader that does not look at the order takes both documents or none. -/
theorem OrderFree.eq_ok_iff (h : OrderFree read) {doc doc' : Json} (hdoc : doc.Rearranged doc')
    {a : α} : read doc = .ok a ↔ read doc' = .ok a := by
  have hto : ∀ {doc doc'}, doc.Rearranged doc' → read doc = .ok a → read doc' = .ok a := by
    intro doc doc' hdoc hread
    induction hdoc with
    | refl => exact hread
    | tail _ hmove ih => exact h _ _ hmove a ih
  exact ⟨hto hdoc, hto hdoc.symm⟩

/-- The same document, or one after a move. -/
theorem OrderFree.of_reflGen (h : OrderFree read) {doc doc' : Json}
    (hdoc : ReflGen Json.Moves doc doc') {a : α} (hread : read doc = .ok a) :
    read doc' = .ok a := by
  cases hdoc with
  | refl => exact hread
  | single hmove => exact h _ _ hmove a hread

/-- A reader of numbers and texts never sees an order. -/
theorem orderFree_of_isScalar (h : ∀ doc a, read doc = .ok a → doc.IsScalar) : OrderFree read :=
  fun doc _ hmove a hread => absurd (h doc a hread) hmove.not_isScalar

/-- Nothing is read without a level. -/
theorem orderFree_closed : OrderFree (closed : Json → Outcome DeError α) := by
  intro doc doc' _ a h
  cases h

/-- What is done with the value does not see the document. -/
theorem OrderFree.bind (h : OrderFree read) (f : α → Outcome DeError β) :
    OrderFree fun doc => read doc >>= f := by
  intro doc doc' hmove b hb
  obtain ⟨a, ha, hb⟩ := Outcome.bind_eq_ok_iff.mp hb
  exact Outcome.bind_eq_ok_iff.mpr ⟨a, h doc doc' hmove a ha, hb⟩

theorem OrderFree.below {read : Reader α} (h : ∀ level, OrderFree (read level)) (level : ℕ) :
    OrderFree (Serde.below read level) := by
  cases level with
  | zero => exact orderFree_closed
  | succ level => exact h level

theorem orderFree_string (level : ℕ) : OrderFree (readString level) := by
  apply orderFree_of_isScalar
  intro doc a h
  cases doc <;> first | exact trivial | cases h

theorem orderFree_u8 (level : ℕ) : OrderFree (readU8 level) := by
  apply orderFree_of_isScalar
  intro doc a h
  cases doc <;> first | exact trivial | cases h

theorem orderFree_unsigned (bits : ℕ) (expected : String) (level : ℕ) :
    OrderFree (readUnsigned bits expected level) := by
  apply orderFree_of_isScalar
  intro doc a h
  cases doc <;> first | exact trivial | cases h

/-- `null` has no order. -/
theorem OrderFree.option (h : OrderFree read) : OrderFree (readOption read) := by
  intro doc doc' hmove o ho
  have heq : ∀ {doc doc' : Json}, doc.Moves doc' →
      readOption read doc = read doc >>= fun a => pure (some a) := by
    intro doc doc' hmove
    cases hmove <;> rfl
  rw [heq hmove] at ho
  rw [heq hmove.symm]
  exact h.bind _ doc doc' hmove o ho

/-! ## Vectors and bytes -/

/-- The items one by one, each with a move at most. -/
theorem OrderFree.mapM (h : OrderFree read) {items items' : List Json}
    (hitems : List.Forall₂ (ReflGen Json.Moves) items items') {l : List α}
    (hl : items.mapM read = .ok l) : items'.mapM read = .ok l := by
  induction hitems generalizing l with
  | nil => exact hl
  | cons hitem _ ih =>
    rw [List.mapM_cons] at hl ⊢
    obtain ⟨a, ha, hl⟩ := Outcome.bind_eq_ok_iff.mp hl
    obtain ⟨as, has, hl⟩ := Outcome.bind_eq_ok_iff.mp hl
    rw [h.of_reflGen hitem ha, ih has]
    exact hl

/-- A move inside of a list moves one of its elements. -/
theorem forall₂_reflGen {before after : List Json} {value value' : Json}
    (h : value.Moves value') :
    List.Forall₂ (ReflGen Json.Moves) (before ++ value :: after) (before ++ value' :: after) :=
  List.rel_append (List.forall₂_same.mpr fun _ _ => .refl)
    (.cons (.single h) (List.forall₂_same.mpr fun _ _ => .refl))

/-- The items stay in their places; each of them may be rearranged inside. -/
theorem OrderFree.vec (h : OrderFree read) (level : ℕ) : OrderFree (readVec read level) := by
  intro doc doc' hmove l hl
  cases hmove with
  | swap h => cases level <;> cases hl
  | entry h => cases level <;> cases hl
  | item hitem =>
    cases level with
    | zero => cases hl
    | succ level => exact h.mapM (forall₂_reflGen hitem) hl

theorem OrderFree.vector {read : Reader α} (h : ∀ level, OrderFree (read level)) (level : ℕ) :
    OrderFree (readVector read level) :=
  ((OrderFree.below h level).vec level).bind Vec.ofList

/-- An array of numbers stays as it is. -/
theorem orderFree_bytes (level : ℕ) : OrderFree (readBytes level) :=
  (OrderFree.below orderFree_u8 level).vec level

/-- Numbers do not move. -/
theorem not_moves_writeBytes (b : Bytes) (doc : Json) : ¬ (writeBytes b).Moves doc := by
  intro hmove
  generalize hsource : writeBytes b = source at hmove
  cases hmove with
  | swap h => cases hsource
  | entry h => cases hsource
  | @item before after value value' h =>
    have hmem : value ∈ b.map writeU8 := by
      rw [Json.arr.inj hsource]
      exact List.mem_append_right _ List.mem_cons_self
    obtain ⟨v, -, rfl⟩ := List.mem_map.mp hmem
    exact h.not_isScalar trivial

/-- An array of bytes is read from the array of their numbers and from nothing else. -/
theorem eq_map_of_visitBytes {n : ℕ} {expected : String} {level : ℕ} {items : List Json}
    {a : FixedBytes n} (h : visitBytes n expected level items = .ok a) :
    items = a.toList.map writeU8 := by
  unfold visitBytes at h
  obtain ⟨bytes, hbytes, h⟩ := Outcome.bind_eq_ok_iff.mp h
  split at h
  · rename_i a' ha'
    split_ifs at h with hlength
    obtain rfl := Outcome.ok.inj h
    obtain rfl := (toArray_eq_some_iff _ _).mp ha'
    rw [List.take_of_length_le hlength.le] at hbytes
    have hitems := Outcome.forall₂_of_mapM hbytes
    rw [← List.forall₂_eq_eq_eq, List.forall₂_map_right_iff]
    exact (hitems.imp fun _ _ => eq_writeU8_of_readU8).flip
  · cases h

/-! ## Structures -/

/-- No value, the same value, or one after a move. -/
def ValueMoves : Option Json → Option Json → Prop := Option.Rel (ReflGen Json.Moves)

theorem valueMoves_refl (o : Option Json) : ValueMoves o o := by
  cases o with
  | none => exact .none
  | some value => exact .some .refl

/-- The values under a name in two lists of entries with the same names. -/
theorem valueMoves_lookup {entries entries' : List (String × Json)}
    (h : List.Forall₂ (fun e e' => e.1 = e'.1 ∧ ReflGen Json.Moves e.2 e'.2) entries entries')
    (name : String) : ValueMoves (entries.lookup name) (entries'.lookup name) := by
  induction h with
  | nil => exact .none
  | @cons e e' entries entries' he _ ih =>
    obtain ⟨key, value⟩ := e
    obtain ⟨key', value'⟩ := e'
    obtain ⟨rfl, hvalue⟩ := he
    rw [List.lookup_cons, List.lookup_cons]
    by_cases hkey : name == key
    · simp only [hkey]
      exact .some hvalue
    · simp only [hkey]
      exact ih

/-- Entries with different names do not stand in each other's way. -/
theorem lookup_swap {before after : List (String × Json)} {a b : String × Json} (h : a.1 ≠ b.1)
    (name : String) : (before ++ a :: b :: after).lookup name =
      (before ++ b :: a :: after).lookup name := by
  obtain ⟨key, value⟩ := a
  obtain ⟨key', value'⟩ := b
  rw [List.lookup_append, List.lookup_append]
  congr 1
  simp only [List.lookup_cons]
  by_cases hkey : name == key
  · have hkey' : (name == key') = false :=
      beq_eq_false_iff_ne.mpr fun heq => h ((beq_iff_eq.mp hkey).symm.trans heq)
    simp only [hkey, hkey']
  · simp only [hkey]

/-- The values of an object before and after a move. -/
theorem valueMoves_of_moves {entries entries' : List (String × Json)}
    (h : (Json.obj entries).Moves (.obj entries')) (name : String) :
    ValueMoves (entries.lookup name) (entries'.lookup name) := by
  cases h with
  | swap h =>
    rw [lookup_swap h name]
    exact valueMoves_refl _
  | entry h =>
    refine valueMoves_lookup ?_ name
    have hsame : ∀ entries : List (String × Json), List.Forall₂
        (fun e e' => e.1 = e'.1 ∧ ReflGen Json.Moves e.2 e'.2) entries entries := fun _ =>
      List.forall₂_same.mpr fun _ _ => ⟨rfl, .refl⟩
    exact List.rel_append (hsame _) (.cons ⟨rfl, .single h⟩ (hsame _))

/-- The names of an object before and after a move. -/
theorem known_perm_of_moves {names : List String} {entries entries' : List (String × Json)}
    (h : (Json.obj entries).Moves (.obj entries')) :
    (Fields.known names entries).Perm (Fields.known names entries') := by
  refine List.Perm.filter _ ?_
  cases h with
  | swap h => exact (List.Perm.append_left _ (.swap _ _ _)).map _
  | entry h => simp

namespace Fields

/-- A move in one of the values changes nothing for the fields. -/
def OrderFree (f : Fields α) : Prop :=
  ∀ get get' : String → Outcome DeError (Option Json),
    (∀ name ∈ f.names, ∀ value, get name = .ok value →
      ∃ value', get' name = .ok value' ∧ ValueMoves value value') →
    ∀ a, f.read get = .ok a → f.read get' = .ok a

/-- No field has been asked for. -/
theorem orderFree_start (build : α) : (start build).OrderFree := fun _ _ _ _ h => h

/-- One more field is looked up by its name. -/
theorem OrderFree.fieldOr {f : Fields (α → β)} (h : f.OrderFree) (name : String)
    (hread : Serde.OrderFree read) (missing : Outcome DeError α) :
    (f.fieldOr name read missing).OrderFree := by
  intro get get' hget b hb
  have hnames : (f.fieldOr name read missing).names = f.names ++ [name] := by
    simp [names, Fields.fieldOr]
  rw [hnames, List.forall_mem_append, List.forall_mem_singleton] at hget
  obtain ⟨build, hbuild, value, hvalue, a, ha, rfl⟩ := read_fieldOr_eq_ok_iff.mp hb
  obtain ⟨value', hvalue', hmoves⟩ := hget.2 value hvalue
  refine read_fieldOr_eq_ok_iff.mpr
    ⟨build, h get get' hget.1 build hbuild, value', hvalue', a, ?_, rfl⟩
  cases hmoves with
  | none => exact ha
  | some hmoves => exact hread.of_reflGen hmoves ha

/-- A field that must be there. -/
theorem OrderFree.field {f : Fields (α → β)} (h : f.OrderFree) (name : String)
    (hread : Serde.OrderFree read) : (f.field name read).OrderFree :=
  h.fieldOr name hread _

/-- A field that may be absent. -/
theorem OrderFree.optional {f : Fields (Option α → β)} (h : f.OrderFree) (name : String)
    (hread : Serde.OrderFree read) : (f.optional name read).OrderFree :=
  h.fieldOr name hread.option _

/-- In an object a field is found wherever it stands. -/
theorem OrderFree.visitMap {f : Fields α} (h : f.OrderFree)
    {entries entries' : List (String × Json)} (hmove : (Json.obj entries).Moves (.obj entries'))
    {a : α} (ha : f.visitMap entries = .ok a) : f.visitMap entries' = .ok a := by
  obtain ⟨hnodup, hread⟩ := visitMap_eq_ok_iff.mp ha
  refine visitMap_eq_ok_iff.mpr ⟨(known_perm_of_moves hmove).nodup_iff.mp hnodup, ?_⟩
  refine h _ _ (fun name _ value hvalue => ⟨_, rfl, ?_⟩) a hread
  rw [← Outcome.ok.inj hvalue]
  exact valueMoves_of_moves hmove name

/-- In an array every field has its place. -/
theorem OrderFree.visitSeq {f : Fields α} (h : f.OrderFree) (expected : String)
    {items items' : List Json} (hitems : List.Forall₂ (ReflGen Json.Moves) items items') {a : α}
    (ha : f.visitSeq expected items = .ok a) : f.visitSeq expected items' = .ok a := by
  have hzip : List.Forall₂ (fun e e' => e.1 = e'.1 ∧ ReflGen Json.Moves e.2 e'.2)
      (f.names.zip items) (f.names.zip items') := by
    generalize f.names = names
    clear ha
    induction hitems generalizing names with
    | nil => simp
    | cons hitem _ ih =>
      cases names with
      | nil => exact .nil
      | cons name names => exact .cons ⟨rfl, hitem⟩ (ih names)
  obtain ⟨a', ha', hlength⟩ := Outcome.bind_eq_ok_iff.mp ha
  refine Outcome.bind_eq_ok_iff.mpr ⟨a', ?_, ?_⟩
  · refine h _ _ (fun name _ value hvalue => ?_) a' ha'
    have hlookup := valueMoves_lookup hzip name
    unfold item at hvalue ⊢
    generalize (f.names.zip items).lookup name = o at hvalue hlookup
    generalize (f.names.zip items').lookup name = o' at hlookup ⊢
    cases hlookup with
    | none => cases hvalue
    | some hmoves =>
      rw [← Outcome.ok.inj hvalue]
      exact ⟨_, rfl, .some hmoves⟩
  · rwa [← hitems.length_eq]

end Fields

theorem Fields.OrderFree.struct {f : Fields α} (h : f.OrderFree) (name : String) (level : ℕ) :
    Serde.OrderFree (readStruct name f level) := by
  intro doc doc' hmove a ha
  cases level with
  | zero => cases hmove <;> cases ha
  | succ level =>
    cases hmove with
    | swap hne => exact h.visitMap (.swap hne) ha
    | entry hmove => exact h.visitMap (.entry hmove) ha
    | item hmove => exact h.visitSeq _ (forall₂_reflGen hmove) ha

/-! ## Enumerations -/

/-- An object with a single entry moves inside of its value. -/
theorem Json.Moves.of_singleton {name : String} {value doc : Json}
    (h : (Json.obj [(name, value)]).Moves doc) :
    ∃ value', doc = .obj [(name, value')] ∧ value.Moves value' := by
  generalize hsource : Json.obj [(name, value)] = source at h
  cases h with
  | swap hne =>
    have hlength := congrArg List.length (Json.obj.inj hsource)
    simp only [List.length_cons, List.length_append, List.length_nil] at hlength
    omega
  | @entry before after name' value₁ value₂ hmove =>
    rcases before with _ | ⟨e, before⟩
    · obtain ⟨⟨rfl, rfl⟩, rfl⟩ : (name = name' ∧ value = value₁) ∧ [] = after := by
        simpa using Json.obj.inj hsource
      exact ⟨value₂, rfl, hmove⟩
    · have hlength := congrArg List.length (Json.obj.inj hsource)
      simp only [List.length_cons, List.length_append, List.length_nil] at hlength
      omega
  | item hmove => cases hsource

/-- The one entry of a variant has no other order. -/
theorem orderFree_enum {variants : List (String × Variant α)}
    (h : ∀ v ∈ variants, v.2.Satisfies OrderFree) (level : ℕ) :
    OrderFree (readEnum variants level) := by
  intro doc doc' hmove a ha
  rcases variant_of_readEnum ha with ⟨tag, -, rfl | rfl⟩ | ⟨tag, read, value, hlookup, rfl, hvalue⟩
  · exact absurd trivial hmove.not_isScalar
  -- an object with a single entry, and no content
  · obtain ⟨value', -, hmove⟩ := hmove.of_singleton
    exact absurd trivial hmove.not_isScalar
  · obtain ⟨value', rfl, hmoves⟩ := hmove.of_singleton
    have hread : OrderFree read := h _ (mem_of_lookup hlookup)
    have hcontent : ∀ value, read value = .ok a →
        readContent variants tag value >>= (fun a => pure a) = .ok a := by
      intro value hvalue
      rw [readContent, hlookup, bind_pure]
      exact hvalue
    cases level with
    | zero => cases ha
    | succ level => exact hcontent value' (hread _ _ hmoves a hvalue)

/-- All ways to put readers together keep the order free. -/
def orderFree : ReaderProperty where
  Holds := OrderFree
  OfFields := Fields.OrderFree
  closed := orderFree_closed
  map h f := h.bind fun a => pure (f a)
  vec h level := h.vec level
  start := Fields.orderFree_start
  field h name hread := h.field name hread
  optional h name hread := h.optional name hread
  struct h name level := h.struct name level
  enum := orderFree_enum

end Serde
