/-
# Records that are filled by calls

The fields of a record are empty at first, and each call sets one of them.  After any
sequence of calls a field holds what the last call for it set (`Tracks.foldl`), so the
order matters among the calls for one field only (`foldl_perm`).
-/
import Mathlib.Data.List.Nodup
import Mathlib.Data.List.Perm.Basic

namespace LastSet

variable {σ κ α β : Type}

/-- What the last call that sets the field sets it to. -/
def lastSet (value : κ → Option α) (calls : List κ) : Option α := calls.reverse.findSome? value

@[simp] theorem lastSet_nil (value : κ → Option α) : lastSet value [] = none := rfl

/-- A later call wins. -/
theorem lastSet_append (value : κ → Option α) (calls calls' : List κ) :
    lastSet value (calls ++ calls') = (lastSet value calls').or (lastSet value calls) := by
  rw [lastSet, List.reverse_append, List.findSome?_append]
  rfl

/-- A call with a value for the field sets it, and any other call leaves it alone. -/
def Tracks (apply : σ → κ → σ) (field : σ → Option α) (value : κ → Option α) : Prop :=
  ∀ s call, field (apply s call) = (value call).or (field s)

/-- After any calls a field holds what was set last. -/
theorem Tracks.foldl {apply : σ → κ → σ} {field : σ → Option α} {value : κ → Option α}
    (h : Tracks apply field value) (s : σ) (calls : List κ) :
    field (calls.foldl apply s) = (lastSet value calls).or (field s) := by
  induction calls generalizing s with
  | nil => rfl
  | cons call calls ih =>
    show field (calls.foldl apply (apply s call)) = _
    rw [ih, h, ← List.singleton_append, lastSet_append, Option.or_assoc]
    cases hvalue : value call <;> simp [lastSet, hvalue]

/-- Where calls of different names commute and no name comes twice, the calls may come in any
order. -/
theorem foldl_perm {apply : σ → κ → σ} {name : κ → β}
    (hcomm : ∀ s a b, name a ≠ name b → apply (apply s a) b = apply (apply s b) a)
    {calls calls' : List κ} (h : calls.Perm calls') (hnodup : (calls.map name).Nodup) (s : σ) :
    calls.foldl apply s = calls'.foldl apply s := by
  apply h.foldl_eq'
  intro a ha b hb t
  by_cases hab : a = b
  · rw [hab]
  · exact hcomm t a b fun hname => hab (List.inj_on_of_nodup_map hnodup ha hb hname)

end LastSet
