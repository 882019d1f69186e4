/-
# The size of what is read

A value that is read from a document is not longer than the document: `FitsFrom s` says
that what is read from one of less than `s` characters fits.  Where the values of the fields,
of the variants and of the items fit, so does what is put together from them.
-/
import OmniTransaction.Borsh
import OmniTransaction.ReaderPanics
import OmniTransaction.TakesExactly

open Borsh ByteOrder Rust

namespace Serde

variable {α : Type} {s : ℕ}

/-- What is read from a document of less than `s` characters fits. -/
def FitsFrom (s : ℕ) (readFrom : α → Json → Prop) (fits : α → Prop) : Prop :=
  ∀ a doc, doc.size < s → readFrom a doc → fits a

variable {readFrom : α → Json → Prop} {fits : α → Prop} {a : α} {doc : Json}

/-- A part of a document is smaller than the document. -/
theorem FitsFrom.part (h : FitsFrom s readFrom fits) {part : Json} (hpart : part.Part doc)
    (hsize : doc.size < s) (ha : readFrom a part) : fits a :=
  h a part (hpart.size_le.trans_lt hsize) ha

/-- The value of a field is a part of the document. -/
theorem FitsFrom.present (h : FitsFrom s readFrom fits) {names : List String} {name : String}
    (hsize : doc.size < s) (ha : Present readFrom a (doc.field names name)) : fits a := by
  obtain ⟨value, hvalue, ha⟩ := ha
  exact h.part (Json.part_of_field hvalue) hsize ha

/-- So is the content of a variant. -/
theorem FitsFrom.tagged (h : FitsFrom s readFrom fits) {tag : String} (hsize : doc.size < s)
    (ha : Tagged tag readFrom a doc) : fits a := by
  obtain ⟨value, rfl, ha⟩ := ha
  exact h.part (.entry (List.mem_singleton_self _) (.refl value)) hsize ha

/-- An array has fewer items than the document has characters. -/
theorem length_lt_of_size_lt {items : List Json} (hsize : (Json.arr items).size < s) :
    items.length < s := by
  have hle := Json.length_le_itemsSize items
  rw [Json.size] at hsize
  omega

/-- There are not more items than characters. -/
theorem FitsFrom.items (h : FitsFrom s readFrom fits) :
    FitsFrom s (ItemsFrom readFrom) fun l => l.length < s ∧ ∀ a ∈ l, fits a := by
  rintro l doc hsize ⟨items, rfl, hitems⟩
  constructor
  · rw [hitems.length_eq]
    exact length_lt_of_size_lt hsize
  · intro a ha
    obtain ⟨i, hi, rfl⟩ := List.mem_iff_getElem.mp ha
    have hi' : i < items.length := hitems.length_eq ▸ hi
    exact h.part (.item (List.getElem_mem hi') (.refl _)) hsize (hitems.get hi hi')

/-- Every byte takes a number of the array. -/
theorem fitsFrom_bytes (s : ℕ) : FitsFrom s (fun b doc => doc = writeBytes b)
    fun b => b.length < s := by
  rintro b _ hsize rfl
  have hlength := length_lt_of_size_lt hsize
  rwa [List.length_map] at hlength

/-- A character takes at most four bytes. -/
theorem length_asBytes_le (text : String) : (asBytes text).length ≤ 4 * text.length := by
  have hbytes : asBytes text = text.toList.flatMap String.utf8EncodeChar := by
    rw [asBytes, String.toUTF8, ← String.utf8Encode_toList, List.utf8Encode]
    simp
  rw [hbytes, ← String.length_toList]
  induction text.toList with
  | nil => exact le_rfl
  | cons c chars ih =>
    have hc := c.utf8Size_le_four
    rw [List.flatMap_cons, List.length_append, String.length_utf8EncodeChar, List.length_cons]
    omega

/-- A character has at most four bytes. -/
theorem fitsFrom_string (s : ℕ) : FitsFrom s (fun text doc => doc = .str text)
    fun text => (asBytes text).length < 4 * s := by
  rintro text _ hsize rfl
  have hle := length_asBytes_le text
  rw [Json.size] at hsize
  omega

end Serde
