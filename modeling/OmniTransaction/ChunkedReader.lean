/-
# The chunked reader, step by step

`read_bytes_from_finite_reader` of `src/bitcoin/encoding/decode.rs` reads a length that
may be malicious.  Its loop is followed here from one statement to the next (`chunkStep`),
with the length that is left, the buffer and the reader in every state.  The invariant
(`ChunkLoop.Inv`) says that the buffer is what was taken from the reader and at most one
chunk of zeros behind it, so the buffer outgrows the bytes that were read by no more than a
chunk and no index overflows; the loop ends in what `readChunks` returns.
-/
import OmniTransaction.BitcoinDecodable
import OmniTransaction.LoopSteps

open ByteOrder Rust LoopSteps

namespace Bitcoin

variable {usizeBits chunkSize : ℕ}

/-! ## The loop -/

/-- What the loop changes: `opts.len`, `ret` and the reader. -/
structure Locals where
  len : ℕ
  ret : Bytes
  reader : Bytes
  deriving DecidableEq, Repr

/-- Where the loop is: at its condition, behind `resize`, or behind `read_slice`. -/
inductive ChunkLoop where
  | head (s : Locals)
  | resized (s : Locals) (chunkStart size chunkEnd : ℕ)
  | filled (s : Locals) (size : ℕ)
  deriving DecidableEq, Repr

/-- `Vec::resize` with zeros.  That a `Vec` holds at most `isize::MAX` bytes, and that the
allocation may fail, is left out here: the only caller asks for chunks of 131072 bytes that
were read before. -/
def resize (vec : Bytes) (newLen : ℕ) : Bytes :=
  vec.take newLen ++ List.replicate (newLen - vec.length) 0

/-- Go on with a value, or return what is none. -/
def advance {α : Type} (x : Outcome IoError α)
    (next : α → ChunkLoop ⊕ Outcome IoError (Bytes × Bytes)) :
    ChunkLoop ⊕ Outcome IoError (Bytes × Bytes) :=
  match x with
  | .ok a => next a
  | .err e => .inr (.err e)
  | .panic msg => .inr (.panic msg)

/-- One step of the loop. -/
def chunkStep (usizeBits chunkSize : ℕ) : ChunkLoop → ChunkLoop ⊕ Outcome IoError (Bytes × Bytes)
  | .head s =>
      if 0 < s.len then
        let chunkStart := s.ret.length
        let size := min s.len chunkSize
        advance (addUsize usizeBits chunkStart size) fun chunkEnd =>
          .inl (.resized { s with ret := resize s.ret chunkEnd } chunkStart size chunkEnd)
      else .inr (.ok (s.ret, s.reader))
  | .resized s chunkStart size chunkEnd =>
      advance (slice s.ret chunkStart chunkEnd) fun chunk =>
      advance ((readExact chunk.length).run s.reader) fun (data, reader) =>
      advance (copyFromSlice s.ret chunkStart data) fun ret =>
        .inl (.filled { s with ret := ret, reader := reader } size)
  | .filled s size =>
      advance (subUsize s.len size) fun len => .inl (.head { s with len := len })

namespace ChunkLoop

/-- The loop is entered with nothing in the buffer. -/
def start (len : ℕ) (reader : Bytes) : ChunkLoop := .head ⟨len, [], reader⟩

def locals : ChunkLoop → Locals
  | .head s => s
  | .resized s _ _ _ => s
  | .filled s _ => s

/-- The number of bytes that were taken from the reader. -/
def bytesRead (reader : Bytes) (p : ChunkLoop) : ℕ := reader.length - p.locals.reader.length

/-- The bytes that are no longer in the reader are at the front of the buffer, and they
make up the length together with what is left to read. -/
inductive Inv (chunkSize len : ℕ) (reader : Bytes) : ChunkLoop → Prop
  | head {s : Locals} (hreader : reader = s.ret ++ s.reader) (hlen : s.ret.length + s.len = len) :
      Inv chunkSize len reader (.head s)
  | resized {s : Locals} {data : Bytes} {size : ℕ} (hreader : reader = data ++ s.reader)
      (hret : s.ret = data ++ List.replicate size 0) (hlen : data.length + s.len = len)
      (hsize : size ≤ s.len) (hchunk : size ≤ chunkSize) :
      Inv chunkSize len reader (.resized s data.length size (data.length + size))
  | filled {s : Locals} {size : ℕ} (hreader : reader = s.ret ++ s.reader)
      (hlen : s.ret.length + s.len = len + size) (hsize : size ≤ s.len) :
      Inv chunkSize len reader (.filled s size)

end ChunkLoop

/-! ## Single steps -/

@[simp] theorem advance_ok {α : Type} (a : α)
    (next : α → ChunkLoop ⊕ Outcome IoError (Bytes × Bytes)) : advance (.ok a) next = next a := rfl

theorem resize_of_le {vec : Bytes} {newLen : ℕ} (h : vec.length ≤ newLen) :
    resize vec newLen = vec ++ List.replicate (newLen - vec.length) 0 := by
  rw [resize, List.take_of_length_le h]

/-- The zeros are the slice that `read_slice` is given. -/
theorem slice_zeros (data : Bytes) (size : ℕ) :
    (slice (data ++ List.replicate size 0) data.length (data.length + size)
      : Outcome IoError Bytes) = .ok (List.replicate size 0) := by
  apply slice_of_eq (r := []) (by rw [List.append_nil]) rfl
  rw [List.length_replicate]

/-- `resize` adds a chunk of zeros. -/
theorem chunkStep_head {s : Locals} (hlen : 0 < s.len)
    (hfits : s.ret.length + min s.len chunkSize < 2 ^ usizeBits) :
    chunkStep usizeBits chunkSize (.head s) =
      .inl (.resized { s with ret := s.ret ++ List.replicate (min s.len chunkSize) 0 }
        s.ret.length (min s.len chunkSize) (s.ret.length + min s.len chunkSize)) := by
  simp only [chunkStep, if_pos hlen, addUsize, if_pos hfits, advance_ok]
  rw [resize_of_le (Nat.le_add_right _ _), Nat.add_sub_cancel_left]

/-- Behind `resize` nothing but `read_slice` can fail. -/
theorem chunkStep_resized {s : Locals} {data : Bytes} {size : ℕ}
    (hret : s.ret = data ++ List.replicate size 0) :
    chunkStep usizeBits chunkSize (.resized s data.length size (data.length + size)) =
      advance ((readExact size).run s.reader) fun (chunk, reader) =>
        .inl (.filled { s with ret := data ++ chunk, reader := reader } size) := by
  rw [chunkStep, hret, slice_zeros, advance_ok, List.length_replicate]
  rcases hread : (readExact size).run s.reader with ⟨chunk, reader⟩ | e | msg
  · obtain ⟨-, hlength⟩ := run_readExact_eq_ok_iff.mp hread
    simp only [advance_ok, copyFromSlice_zeros hlength]
  · rfl
  · rfl

theorem chunkStep_filled {s : Locals} {size : ℕ} (hsize : size ≤ s.len) :
    chunkStep usizeBits chunkSize (.filled s size) =
      .inl (.head { s with len := s.len - size }) := by
  rw [chunkStep, subUsize, if_pos hsize, advance_ok]

/-! ## The invariant -/

namespace ChunkLoop

variable {len : ℕ} {reader : Bytes} {p q : ChunkLoop}

theorem inv_start (len : ℕ) (reader : Bytes) : Inv chunkSize len reader (start len reader) :=
  .head rfl (Nat.zero_add len)

/-- A step keeps the invariant, or it ends the loop with the bytes that were asked for, or
with an error when the reader has too few. -/
theorem Inv.chunkStep_cases (hlen : len < 2 ^ usizeBits) (hp : Inv chunkSize len reader p) :
    (∃ q, chunkStep usizeBits chunkSize p = .inl q ∧ Inv chunkSize len reader q) ∨
    (len ≤ reader.length ∧
      chunkStep usizeBits chunkSize p = .inr (.ok (reader.take len, reader.drop len))) ∨
    (reader.length < len ∧ ∃ e, chunkStep usizeBits chunkSize p = .inr (.err e)) := by
  cases hp with
  | @head s hreader hsum =>
      by_cases hpos : 0 < s.len
      · left
        refine ⟨_, chunkStep_head hpos (by omega), ?_⟩
        exact .resized hreader rfl hsum (min_le_left _ _) (min_le_right _ _)
      · right; left
        obtain rfl : s.ret.length = len := by omega
        rw [hreader, List.take_left, List.drop_left, List.length_append]
        exact ⟨Nat.le_add_right _ _, if_neg hpos⟩
  | @resized s data size hreader hret hsum hle hle' =>
      rw [chunkStep_resized hret]
      by_cases hdata : size ≤ s.reader.length
      · left
        have hread : (readExact size).run s.reader = .ok (s.reader.take size, s.reader.drop size) :=
          if_pos hdata
        rw [hread]
        refine ⟨_, rfl, .filled ?_ ?_ hle⟩
        · show reader = data ++ s.reader.take size ++ s.reader.drop size
          rw [List.append_assoc, List.take_append_drop, hreader]
        · show (data ++ s.reader.take size).length + s.len = len + size
          rw [List.length_append, List.length_take]
          omega
      · right; right
        have hread : (readExact size).run s.reader
            = .err ⟨.UnexpectedEof, "failed to fill whole buffer"⟩ := if_neg hdata
        rw [hread, hreader, List.length_append]
        exact ⟨by omega, _, rfl⟩
  | @filled s size hreader hsum hle =>
      left
      refine ⟨_, chunkStep_filled hle, .head hreader ?_⟩
      show s.ret.length + (s.len - size) = len
      omega

theorem Inv.of_eq_inl (hlen : len < 2 ^ usizeBits) (hp : Inv chunkSize len reader p)
    (h : chunkStep usizeBits chunkSize p = .inl q) : Inv chunkSize len reader q := by
  rcases hp.chunkStep_cases hlen with ⟨q', hq', hinv⟩ | ⟨-, hr⟩ | ⟨-, e, hr⟩
  · rw [hq'] at h
    rwa [← Sum.inl.inj h]
  · rw [hr] at h
    cases h
  · rw [hr] at h
    cases h

/-- The invariant holds throughout a run. -/
theorem inv_of_leads (hlen : len < 2 ^ usizeBits)
    (h : Leads (chunkStep usizeBits chunkSize) (start len reader) p) :
    Inv chunkSize len reader p :=
  h.invariant (fun _ _ => Inv.of_eq_inl hlen) (inv_start len reader)

/-- The buffer is no longer than what was read and one chunk. -/
theorem Inv.length_ret_le (hp : Inv chunkSize len reader p) :
    p.locals.ret.length ≤ p.bytesRead reader + chunkSize := by
  unfold bytesRead
  cases hp with
  | @head s hreader | @filled s _ hreader =>
      show s.ret.length ≤ reader.length - s.reader.length + chunkSize
      rw [hreader, List.length_append]
      omega
  | @resized s data size hreader hret _ _ hle =>
      show s.ret.length ≤ reader.length - s.reader.length + chunkSize
      rw [hreader, hret, List.length_append, List.length_append, List.length_replicate]
      omega

/-- No index overflows and no slice is out of range. -/
theorem Inv.chunkStep_ne_panic (hlen : len < 2 ^ usizeBits) (hp : Inv chunkSize len reader p)
    (msg : String) : chunkStep usizeBits chunkSize p ≠ .inr (.panic msg) := by
  intro h
  rcases hp.chunkStep_cases hlen with ⟨q, hq, -⟩ | ⟨-, hr⟩ | ⟨-, e, hr⟩
  · rw [hq] at h
    cases h
  · rw [hr] at h
    cases h
  · rw [hr] at h
    cases h

/-- A result is what a plain read returns. -/
theorem result_of_ends (hlen : len < 2 ^ usizeBits) {r : Outcome IoError (Bytes × Bytes)}
    (h : Ends (chunkStep usizeBits chunkSize) (start len reader) r) :
    (len ≤ reader.length → r = .ok (reader.take len, reader.drop len)) ∧
    (reader.length < len → ∃ e, r = .err e) := by
  obtain ⟨p, hp, hr⟩ := h
  rcases (inv_of_leads hlen hp).chunkStep_cases hlen with ⟨q, hq, -⟩ | ⟨hle, hok⟩ | ⟨hlt, e, he⟩
  · rw [hq] at hr
    cases hr
  · rw [hok] at hr
    exact ⟨fun _ => (Sum.inr.inj hr).symm, fun hlt => absurd hle (by omega)⟩
  · rw [he] at hr
    exact ⟨fun hle => absurd hlt (by omega), fun _ => ⟨e, (Sum.inr.inj hr).symm⟩⟩

end ChunkLoop

/-! ## Whole runs -/

/-- From the condition of the loop the steps end in what `readChunks` returns. -/
theorem ends_readChunks (usizeBits : ℕ) (hchunk : 0 < chunkSize) (s : Locals) :
    Ends (chunkStep usizeBits chunkSize) (.head s)
      ((readChunks usizeBits chunkSize s.len s.ret).run s.reader) := by
  obtain ⟨len, ret, reader⟩ := s
  induction len using Nat.strong_induction_on generalizing ret reader with
  | _ len ih =>
      show Ends _ _ ((readChunks usizeBits chunkSize len ret).run reader)
      rw [readChunks]
      by_cases hlen : 0 < len
      · rw [dif_pos ⟨hlen, hchunk⟩]
        by_cases hfits : ret.length + min len chunkSize < 2 ^ usizeBits
        · have hadd : (addUsize usizeBits ret.length (min len chunkSize) : Outcome IoError ℕ)
              = .ok (ret.length + min len chunkSize) := if_pos hfits
          apply Ends.head (chunkStep_head hlen hfits)
          simp only [hadd, ByteStream.lift_ok_bind, Nat.add_sub_cancel_left, StateT.run_bind]
          rcases hread : (readExact (min len chunkSize)).run reader with ⟨chunk, reader'⟩ | e | msg
          · obtain ⟨-, hlength⟩ := run_readExact_eq_ok_iff.mp hread
            refine Ends.head ((chunkStep_resized rfl).trans (by rw [hread]; rfl)) ?_
            apply Ends.head (chunkStep_filled (min_le_left _ _))
            -- the next round, with the chunk in the buffer
            simp only [Outcome.ok_bind, copyFromSlice_zeros hlength]
            exact ih _ (by omega) _ _
          · exact ends_of_eq_inr ((chunkStep_resized rfl).trans (by rw [hread]; rfl))
          · exact ends_of_eq_inr ((chunkStep_resized rfl).trans (by rw [hread]; rfl))
        · have hadd : (addUsize usizeBits ret.length (min len chunkSize) : Outcome IoError ℕ)
              = .panic "attempt to add with overflow" := if_neg hfits
          apply ends_of_eq_inr
          simp only [chunkStep, if_pos hlen, hadd]
          rfl
      · rw [dif_neg (by omega)]
        apply ends_of_eq_inr
        rw [chunkStep, if_neg hlen]
        rfl

/-- The loop in small steps is `read_bytes_from_finite_reader`. -/
theorem ends_readBytesFromFiniteReader (usizeBits len : ℕ) (hchunk : 0 < chunkSize)
    (reader : Bytes) :
    Ends (chunkStep usizeBits chunkSize) (.start len reader)
      ((readBytesFromFiniteReader usizeBits len chunkSize).run reader) := by
  rw [readBytesFromFiniteReader, if_neg (by omega)]
  exact ends_readChunks usizeBits hchunk ⟨len, [], reader⟩

/-- The chunked reader is a plain read: its steps come to an end, and it returns the first
`len` bytes, or an error when the reader has fewer.  On the way the buffer is never longer
than what was read and one chunk, and nothing overflows. -/
theorem readBytesFromFiniteReader_bounded {usizeBits len chunkSize : ℕ}
    (hlen : len < 2 ^ usizeBits) (hchunk : 0 < chunkSize) (reader : Bytes) :
    (∀ result, Ends (chunkStep usizeBits chunkSize) (.start len reader) result ↔
      (readBytesFromFiniteReader usizeBits len chunkSize).run reader = result) ∧
    (∀ run : ℕ → ChunkLoop, run 0 = .start len reader →
      ¬ ∀ n, chunkStep usizeBits chunkSize (run n) = .inl (run (n + 1))) ∧
    (len ≤ reader.length → (readBytesFromFiniteReader usizeBits len chunkSize).run reader
      = .ok (reader.take len, reader.drop len)) ∧
    (reader.length < len → ∃ e,
      (readBytesFromFiniteReader usizeBits len chunkSize).run reader = .err e) ∧
    ∀ p, Leads (chunkStep usizeBits chunkSize) (.start len reader) p →
      p.locals.ret.length ≤ p.bytesRead reader + chunkSize ∧
        ∀ msg, chunkStep usizeBits chunkSize p ≠ .inr (.panic msg) := by
  have hends := ends_readBytesFromFiniteReader usizeBits len hchunk reader
  obtain ⟨hok, herr⟩ := ChunkLoop.result_of_ends hlen hends
  refine ⟨fun result => ⟨hends.unique, ?_⟩, hends.not_forever, hok, herr, ?_⟩
  · rintro rfl
    exact hends
  · intro p hp
    have hinv := ChunkLoop.inv_of_leads hlen hp
    exact ⟨hinv.length_ret_le, hinv.chunkStep_ne_panic hlen⟩

/-- Three bytes of five in chunks of two, and a length far beyond the five. -/
theorem readBytesFromFiniteReader_bounded_five :
    (readBytesFromFiniteReader 32 3 2).run [1, 2, 3, 4, 5] = .ok ([1, 2, 3], [4, 5]) ∧
      ∃ e, (readBytesFromFiniteReader 32 0xFFFFFFFF 2).run [1, 2, 3, 4, 5] = .err e := by
  constructor
  · exact (readBytesFromFiniteReader_bounded (by decide) (by decide) _).2.2.1 (by decide)
  · exact (readBytesFromFiniteReader_bounded (by decide) (by decide) _).2.2.2.1 (by decide)

end Bitcoin
