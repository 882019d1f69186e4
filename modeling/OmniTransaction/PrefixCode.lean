/-
# Prefix-free codes over lists

The general theory behind unique decodability of concatenated encodings.  A
code `f : α → List β` is prefix-free when an encoded value can be split off the
front of any longer list (`PrefixFree`).  Products, counted lists and images
under injections of prefix-free codes are prefix-free, and the uncounted
concatenation of nonempty prefix-free code words is still injective.
-/
import Mathlib.Data.List.Basic
import Mathlib.Data.Set.Basic
import Mathlib.Logic.Function.Basic

namespace PrefixCode

variable {α α' β γ : Type}

/-- A code is prefix-free when equal concatenations `f a ++ s = f b ++ t`
have equal code words and equal rests. -/
def PrefixFree (f : α → List β) : Prop :=
  ∀ (a b : α) (s t : List β), f a ++ s = f b ++ t → a = b ∧ s = t

/-- A code that is prefix-free on the values in `S`. -/
def PrefixFreeOn (S : Set α) (f : α → List β) : Prop :=
  ∀ a ∈ S, ∀ b ∈ S, ∀ s t : List β, f a ++ s = f b ++ t → a = b ∧ s = t

/-- An injective code whose words have one length is prefix-free. -/
theorem prefixFree_of_length_eq {f : α → List β} (n : ℕ)
    (hlen : ∀ a, (f a).length = n) (hinj : Function.Injective f) : PrefixFree f := by
  intro a b s t h
  obtain ⟨hab, hst⟩ := List.append_inj h (by rw [hlen a, hlen b])
  exact ⟨hinj hab, hst⟩

/-- Prefix-freeness is inherited along an injection into the coded type. -/
theorem PrefixFree.comp {f : α → List β} (hf : PrefixFree f) {g : γ → α}
    (hg : Function.Injective g) : PrefixFree (fun c => f (g c)) := by
  intro a b s t h
  obtain ⟨hab, hst⟩ := hf _ _ s t h
  exact ⟨hg hab, hst⟩

/-- Writing two prefix-free parts of a value one after the other is prefix-free
as soon as the parts determine the value. -/
theorem PrefixFree.append {f : α → List β} {g : α' → List β} (hf : PrefixFree f)
    (hg : PrefixFree g) {p : γ → α} {q : γ → α'}
    (hpq : ∀ c d, p c = p d → q c = q d → c = d) :
    PrefixFree (fun c => f (p c) ++ g (q c)) := by
  intro c d s t h
  simp only [List.append_assoc] at h
  obtain ⟨hp, h⟩ := hf _ _ _ _ h
  obtain ⟨hq, hst⟩ := hg _ _ _ _ h
  exact ⟨hpq c d hp hq, hst⟩

/-! ## Concatenated lists of code words -/

/-- With the number of words known, concatenated words split off uniquely. -/
theorem PrefixFreeOn.flatMap_append_inj {f : α → List β} {S : Set α} (hf : PrefixFreeOn S f)
    {l m : List α} {s t : List β} (hl : ∀ a ∈ l, a ∈ S) (hm : ∀ a ∈ m, a ∈ S)
    (hlen : l.length = m.length) (h : l.flatMap f ++ s = m.flatMap f ++ t) :
    l = m ∧ s = t := by
  induction l generalizing m with
  | nil =>
      obtain rfl : m = [] := List.eq_nil_of_length_eq_zero hlen.symm
      exact ⟨rfl, h⟩
  | cons a l ih =>
      cases m with
      | nil => simp at hlen
      | cons b m =>
          -- the first words split off, then the rests are one word shorter
          simp only [List.flatMap_cons, List.append_assoc] at h
          obtain ⟨rfl, hrest⟩ := hf a (hl a List.mem_cons_self) b (hm b List.mem_cons_self) _ _ h
          obtain ⟨rfl, hst⟩ := ih (fun c hc => hl c (List.mem_cons_of_mem _ hc))
            (fun c hc => hm c (List.mem_cons_of_mem _ hc)) (by simpa using hlen) hrest
          exact ⟨rfl, hst⟩

theorem PrefixFree.flatMap_append_inj {f : α → List β} (hf : PrefixFree f)
    {l m : List α} {s t : List β} (hlen : l.length = m.length)
    (h : l.flatMap f ++ s = m.flatMap f ++ t) : l = m ∧ s = t :=
  PrefixFreeOn.flatMap_append_inj (S := Set.univ) (fun a _ b _ => hf a b)
    (fun _ _ => Set.mem_univ _) (fun _ _ => Set.mem_univ _) hlen h

/-- Without a count, concatenation is still injective when no word is empty:
the shorter of two lists would have to end where the longer still has words. -/
theorem PrefixFree.flatMap_injective {f : α → List β} (hf : PrefixFree f)
    (hne : ∀ a, f a ≠ []) : Function.Injective (fun l : List α => l.flatMap f) := by
  intro l
  induction l with
  | nil =>
      intro m h
      cases m with
      | nil => rfl
      | cons b m =>
          simp only [List.flatMap_nil, List.flatMap_cons] at h
          exact absurd (List.append_eq_nil_iff.mp h.symm).1 (hne b)
  | cons a l ih =>
      intro m h
      cases m with
      | nil =>
          simp only [List.flatMap_nil, List.flatMap_cons] at h
          exact absurd (List.append_eq_nil_iff.mp h).1 (hne a)
      | cons b m =>
          simp only [List.flatMap_cons] at h
          obtain ⟨rfl, hrest⟩ := hf _ _ _ _ h
          rw [ih hrest]

/-- A list written after a prefix-free code of its length is prefix-free. -/
theorem PrefixFree.counted {f : α → List β} (hf : PrefixFree f) {k : γ → List β}
    {elems : γ → List α} (hinj : Function.Injective elems)
    (hk : ∀ c d s t, k c ++ s = k d ++ t → (elems c).length = (elems d).length ∧ s = t) :
    PrefixFree (fun c => k c ++ (elems c).flatMap f) := by
  intro c d s t h
  simp only [List.append_assoc] at h
  -- the count comes first and makes the two lists equally long
  obtain ⟨hlen, h⟩ := hk _ _ _ _ h
  obtain ⟨hcd, hst⟩ := hf.flatMap_append_inj hlen h
  exact ⟨hinj hcd, hst⟩

end PrefixCode
