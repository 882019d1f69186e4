/-
# Places in a Borsh input

A layout walks over an input by lengths alone: so many bytes, a number, bytes behind the
number of them.  It finds what stands at the places that it looks at, or that the input is
too short for the form.

A layout shows what a deserializer reads (`Shows`) when both accept the same inputs, leave
the same rest, and what the layout finds is a function of the value that is read.  There is
one rule for each way in which a layout is put together.
-/
import OmniTransaction.Borsh

open ByteOrder Rust

namespace Borsh

variable {ε α β γ δ : Type}

/-! ## Layouts -/

/-- A walk over an input: what was found and where it ended. -/
abbrev Layout := StateT Bytes Option

namespace Layout

/-- The next `n` bytes. -/
def chunk (n : ℕ) : Layout Bytes := fun b =>
  if n ≤ b.length then some (b.take n, b.drop n) else none

/-- The number in the next `n` bytes. -/
def number (n : ℕ) : Layout ℕ := do
  let b ← chunk n
  return ofLeBytes b

/-- Bytes behind the number of them. -/
def counted : Layout Bytes := do
  let n ← number 4
  chunk n

/-- One layout `n` times. -/
def times (layout : Layout β) : ℕ → Layout (List β)
  | 0 => pure []
  | n + 1 => do
    let y ← layout
    let ys ← times layout n
    return y :: ys

/-- A condition on what was found. -/
def require (p : Prop) [Decidable p] (y : β) : Layout β := if p then pure y else failure

/-- A number of eight bytes that is a `usize` of `usizeBits` bits. -/
def usize (usizeBits : ℕ) : Layout ℕ := do
  let n ← number 8
  require (n < 2 ^ usizeBits) n

/-- A sequence finds something exactly when both parts do. -/
theorem run_bind_eq_some_iff {x : Layout α} {f : α → Layout β} {b : Bytes} {r : β × Bytes} :
    (x >>= f).run b = some r ↔ ∃ a b', x.run b = some (a, b') ∧ (f a).run b' = some r := by
  rw [StateT.run_bind]
  show (x.run b).bind _ = some r ↔ _
  rw [Option.bind_eq_some_iff, Prod.exists]

/-- The first `n` bytes are found. -/
theorem run_chunk_eq_some_iff {n : ℕ} {b x rest : Bytes} :
    (chunk n).run b = some (x, rest) ↔ b = x ++ rest ∧ x.length = n := by
  show (if n ≤ b.length then _ else _) = _ ↔ _
  constructor
  · intro h
    split_ifs at h with hn
    obtain ⟨rfl, rfl⟩ := Prod.mk.inj (Option.some.inj h)
    exact ⟨(List.take_append_drop n b).symm, List.length_take_of_le hn⟩
  · rintro ⟨rfl, rfl⟩
    rw [if_pos (by simp), List.take_left, List.drop_left]

end Layout

open Layout

/-! ## What a layout shows -/

/-- The layout finds, in the inputs that are read and in no others, what `view` makes of the
value. -/
def Shows (layout : Layout β) (de : ByteStream ε α) (view : α → β) : Prop :=
  ∀ b y rest, layout.run b = some (y, rest) ↔ ∃ a, de.run b = .ok (a, rest) ∧ view a = y

namespace Shows

variable {layout : Layout β} {de : ByteStream ε α} {view : α → β}

/-- Nothing is read where nothing is looked for. -/
theorem pure (a : α) (view : α → β) :
    Shows (pure (view a)) (pure a : ByteStream ε α) view := by
  intro b y rest
  constructor
  · intro h
    obtain ⟨rfl, rfl⟩ := Prod.mk.inj (Option.some.inj h)
    exact ⟨a, rfl, rfl⟩
  · rintro ⟨a', h, rfl⟩
    obtain ⟨rfl, rfl⟩ := Prod.mk.inj (Outcome.ok.inj h)
    rfl

/-- Nothing is found where nothing is read. -/
theorem fail (e : ε) (view : α → β) : Shows failure (ByteStream.fail e : ByteStream ε α) view := by
  intro b y rest
  constructor
  · intro h
    cases h
  · rintro ⟨a, h, -⟩
    cases h

/-- One part after the other.  Of the first part the layout knows only what it found. -/
theorem bind (h : Shows layout de view) {f : β → Layout δ} {g : α → ByteStream ε γ}
    {view' : γ → δ} (hf : ∀ a, Shows (f (view a)) (g a) view') :
    Shows (layout >>= f) (de >>= g) view' := by
  intro b z rest
  rw [run_bind_eq_some_iff]
  constructor
  · rintro ⟨y, b', hy, hz⟩
    obtain ⟨a, ha, rfl⟩ := (h _ _ _).mp hy
    obtain ⟨c, hc, rfl⟩ := (hf a _ _ _).mp hz
    exact ⟨c, ByteStream.run_bind_eq_ok_iff.mpr ⟨a, b', ha, hc⟩, rfl⟩
  · rintro ⟨c, hc, rfl⟩
    obtain ⟨a, b', ha, hc⟩ := ByteStream.run_bind_eq_ok_iff.mp hc
    exact ⟨view a, b', (h _ _ _).mpr ⟨a, ha, rfl⟩, (hf a _ _ _).mpr ⟨c, hc, rfl⟩⟩

/-- What is read in one part is changed at the end; the layout is the same. -/
theorem map (h : Shows layout de view) (f : α → γ) {view' : γ → β}
    (hview : ∀ a, view' (f a) = view a) :
    Shows layout (de >>= fun a => Pure.pure (f a)) view' := by
  intro b y rest
  rw [h b y rest]
  constructor
  · rintro ⟨a, ha, rfl⟩
    exact ⟨f a, ByteStream.run_bind_pure_eq_ok_iff.mpr ⟨a, ha, rfl⟩, hview a⟩
  · rintro ⟨c, hc, rfl⟩
    obtain ⟨a, ha, rfl⟩ := ByteStream.run_bind_pure_eq_ok_iff.mp hc
    exact ⟨a, ha, (hview a).symm⟩

/-- What holds of all that is read can be told from what is found. -/
theorem forall_iff (h : Shows layout de view) {p : β → Prop} {b : Bytes} :
    (∀ a rest, de.run b = .ok (a, rest) → p (view a)) ↔ ∀ r ∈ layout.run b, p r.1 := by
  constructor
  · rintro hp ⟨y, rest⟩ hr
    obtain ⟨a, ha, rfl⟩ := (h b y rest).mp hr
    exact hp a rest ha
  · intro hp a rest ha
    exact hp (view a, rest) ((h b _ rest).mpr ⟨a, ha, rfl⟩)

end Shows

/-! ## The forms of Borsh -/

/-- Bytes of a known length are found where they are read. -/
theorem shows_bytes (n : ℕ) : Shows (chunk n) (readBytes n) id := by
  intro b y rest
  rw [run_chunk_eq_some_iff, ← run_readBytes_eq_ok_iff]
  constructor
  · exact fun h => ⟨y, h, rfl⟩
  · rintro ⟨y, h, rfl⟩
    exact h

/-- A number is found by its bytes. -/
theorem shows_int {k : ℕ} {ofNat : ℕ → α} {toNat : α → ℕ}
    (hto : ∀ n, n < 256 ^ k → toNat (ofNat n) = n) :
    Shows (number k) (deserializeInt k ofNat) toNat := by
  intro b n rest
  constructor
  · intro h
    obtain ⟨x, b', hx, hn⟩ := run_bind_eq_some_iff.mp h
    obtain ⟨rfl, rfl⟩ := Prod.mk.inj (Option.some.inj hn)
    obtain ⟨hb, hlen⟩ := run_chunk_eq_some_iff.mp hx
    refine ⟨ofNat (ofLeBytes x), ?_, hto _ (hlen ▸ ofLeBytes_lt x)⟩
    exact ByteStream.run_bind_pure_eq_ok_iff.mpr ⟨x, run_readBytes_eq_ok_iff.mpr ⟨hb, hlen⟩, rfl⟩
  · rintro ⟨a, ha, rfl⟩
    obtain ⟨x, hx, rfl⟩ := ByteStream.run_bind_pure_eq_ok_iff.mp ha
    obtain ⟨hb, hlen⟩ := run_readBytes_eq_ok_iff.mp hx
    rw [hto _ (hlen ▸ ofLeBytes_lt x)]
    exact run_bind_eq_some_iff.mpr ⟨x, rest, run_chunk_eq_some_iff.mpr ⟨hb, hlen⟩, rfl⟩

theorem shows_u8 : Shows (number 1) deserializeU8 UInt8.toNat :=
  shows_int fun _ h => UInt8.toNat_ofNat_of_lt' h

theorem shows_u32 : Shows (number 4) deserializeU32 UInt32.toNat :=
  shows_int fun _ h => UInt32.toNat_ofNat_of_lt' h

theorem shows_u64 : Shows (number 8) deserializeU64 UInt64.toNat :=
  shows_int fun _ h => UInt64.toNat_ofNat_of_lt' h

theorem shows_tag : Shows (number 1) deserializeTag id := shows_u8.map UInt8.toNat fun _ => rfl

/-- The length in front of a vector. -/
theorem shows_length : Shows (number 4) deserializeLength id :=
  shows_u32.map UInt32.toNat fun _ => rfl

theorem shows_vecU8 : Shows counted deserializeBytes id := shows_length.bind shows_bytes

/-- A number that must fit in a `usize`. -/
theorem shows_usize (usizeBits : ℕ) :
    Shows (usize usizeBits) (deserializeUsize usizeBits) id := by
  refine shows_u64.bind fun u => ?_
  unfold require
  split_ifs
  · exact .pure u.toNat id
  · exact .fail _ _

/-- An array is found as its bytes. -/
theorem shows_array (n : ℕ) : Shows (chunk n) (deserializeArray n) List.Vector.toList := by
  intro b y rest
  rw [run_chunk_eq_some_iff]
  constructor
  · rintro ⟨hb, hlen⟩
    refine ⟨⟨y, hlen⟩, ?_, rfl⟩
    refine ByteStream.run_bind_eq_ok_iff.mpr
      ⟨y, rest, run_readBytes_eq_ok_iff.mpr ⟨hb, hlen⟩, ?_⟩
    rw [check, (toArray_eq_some_iff y ⟨y, hlen⟩).mpr rfl]
    rfl
  · rintro ⟨a, hread, rfl⟩
    obtain ⟨x, b', hx, ha⟩ := ByteStream.run_bind_eq_ok_iff.mp hread
    obtain ⟨rfl, hlen⟩ := run_readBytes_eq_ok_iff.mp hx
    have hcheck : check (toArray n) (fun _ => ⟨.InvalidData, ERROR_UNEXPECTED_LENGTH_OF_INPUT⟩) x
        = pure ⟨x, hlen⟩ := by
      rw [check, (toArray_eq_some_iff x ⟨x, hlen⟩).mpr rfl]
    rw [hcheck] at ha
    obtain ⟨rfl, rfl⟩ := Prod.mk.inj (Outcome.ok.inj ha)
    exact ⟨rfl, hlen⟩

/-- The elements of a vector, each through the same view. -/
theorem Shows.each {layout : Layout β} {de : ByteStream IoError α} {view : α → β}
    (h : Shows layout de view) (n : ℕ) :
    Shows (times layout n) (deserializeEach de n) (List.map view) := by
  induction n with
  | zero => exact .pure [] (List.map view)
  | succ n ih =>
    refine h.bind fun a => ?_
    exact ih.bind fun l => .pure (a :: l) (List.map view)

/-- A vector is found element by element. -/
theorem Shows.vec {layout : Layout β} {de : ByteStream IoError α} {view : α → β}
    (h : Shows layout de view) :
    Shows (number 4 >>= times layout) (deserializeVec de) (List.map view) :=
  shows_length.bind h.each

/-- A list that is short enough for its length to be read is a vector. -/
theorem Shows.asVec {layout : Layout β} {P : List α → Prop}
    {ser : List α → ByteStream IoError Unit} {de : ByteStream IoError (List α)}
    {view : List α → β} (h : Shows layout de view) (hcodec : IsCodec P ser de)
    (hshort : ∀ l, P l → l.length < 2 ^ 64) :
    Shows layout (Borsh.asVec de) fun v => view v.toList := by
  intro b y rest
  rw [h b y rest]
  constructor
  · rintro ⟨l, hl, rfl⟩
    obtain ⟨hP, -⟩ := hcodec.read _ _ _ hl
    refine ⟨⟨l, hshort l hP⟩, ByteStream.run_bind_eq_ok_iff.mpr ⟨l, rest, hl, ?_⟩, rfl⟩
    exact ByteStream.run_lift_eq_ok_iff.mpr ⟨Vec.ofList_eq_ok_iff.mpr rfl, rfl⟩
  · rintro ⟨v, hv, rfl⟩
    obtain ⟨l, b', hl, hlift⟩ := ByteStream.run_bind_eq_ok_iff.mp hv
    obtain ⟨hl', rfl⟩ := ByteStream.run_lift_eq_ok_iff.mp hlift
    obtain rfl := Vec.ofList_eq_ok_iff.mp hl'
    exact ⟨v.toList, hl, rfl⟩

end Borsh
