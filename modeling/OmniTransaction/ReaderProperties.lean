/-
# Properties of readers

Derived readers are put together in a few ways: a structure field by field, an enumeration
from its variants, vectors and options.  A `ReaderProperty` is a property of readers that
all of these ways keep, so that it holds of a derived reader as soon as it holds of the
readers written by hand in it.
-/
import OmniTransaction.Json

open Rust

namespace Serde

variable {α β : Type}

/-- The content of the variant, if it has any, is read by such a reader. -/
def Variant.Satisfies (P : (Json → Outcome DeError α) → Prop) : Variant α → Prop
  | .unit _ => True
  | .newtype read => P read

/-- A property of readers, and of the fields of a structure, that is kept by all ways to put
readers together. -/
structure ReaderProperty where
  Holds : ∀ {α : Type}, (Json → Outcome DeError α) → Prop
  OfFields : ∀ {α : Type}, Fields α → Prop
  closed : ∀ {α : Type}, Holds (closed : Json → Outcome DeError α)
  map : ∀ {α β : Type} {read : Json → Outcome DeError α}, Holds read → ∀ f : α → β,
    Holds fun doc => read doc >>= fun a => pure (f a)
  vec : ∀ {α : Type} {read : Json → Outcome DeError α}, Holds read → ∀ level,
    Holds (readVec read level)
  start : ∀ {α : Type} (build : α), OfFields (Fields.start build)
  field : ∀ {α β : Type} {f : Fields (α → β)} {read : Json → Outcome DeError α}, OfFields f →
    ∀ name, Holds read → OfFields (f.field name read)
  optional : ∀ {α β : Type} {f : Fields (Option α → β)} {read : Json → Outcome DeError α},
    OfFields f → ∀ name, Holds read → OfFields (f.optional name read)
  struct : ∀ {α : Type} {f : Fields α}, OfFields f → ∀ name level,
    Holds (readStruct name f level)
  enum : ∀ {α : Type} {variants : List (String × Variant α)},
    (∀ v ∈ variants, v.2.Satisfies Holds) → ∀ level, Holds (readEnum variants level)

namespace ReaderProperty

variable (Φ : ReaderProperty)

/-- A level that is not there reads nothing. -/
theorem below {read : Reader α} (h : ∀ level, Φ.Holds (read level)) (level : ℕ) :
    Φ.Holds (Serde.below read level) := by
  cases level with
  | zero => exact Φ.closed
  | succ level => exact h level

/-- The content of a variant is read by a reader with the property. -/
theorem variant {read : Json → Outcome DeError α} (h : Φ.Holds read) (mk : α → β) :
    (Variant.of mk read).Satisfies Φ.Holds :=
  Φ.map h mk

/-- A vector whose items may be opened one level further in. -/
theorem vecBelow {read : Reader α} (h : ∀ level, Φ.Holds (read level)) (level : ℕ) :
    Φ.Holds (readVec (Serde.below read level) level) :=
  Φ.vec (Φ.below h level) level

end ReaderProperty

end Serde
