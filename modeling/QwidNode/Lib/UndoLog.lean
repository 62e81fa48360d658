import Mathlib

/-!
# An undo log over a map

A map from keys to optional values is changed by adding a value under a free key and by
removing the value of a key; each change is written to a log, newest first. Undoing the log
from its newest change on walks back through the states the map had, so a part of the log
can be undone too.
-/
namespace QwidNode.Lib.UndoLog
variable {κ α : Type} [DecidableEq κ]

/-- One recorded change: a value was added under a key, or removed from it. -/
structure Change (κ α : Type) where
  key : κ
  added : Bool
  value : α

def Change.undo (c : Change κ α) (m : κ → Option α) : κ → Option α :=
  Function.update m c.key (if c.added then none else some c.value)

/-- The log records how the map `start` became `m`, through states that satisfy `P`. -/
inductive Recorded (P : (κ → Option α) → Prop) (start : κ → Option α) :
    List (Change κ α) → (κ → Option α) → Prop where
  | nil (holds : P start) : Recorded P start [] start
  | add {log : List (Change κ α)} {m : κ → Option α} (k : κ) (v : α)
      (before : Recorded P start log m) (free : m k = none)
      (holds : P (Function.update m k (some v))) :
      Recorded P start (⟨k, true, v⟩ :: log) (Function.update m k (some v))
  | remove {log : List (Change κ α)} {m : κ → Option α} (k : κ) (v : α)
      (before : Recorded P start log m) (found : m k = some v)
      (holds : P (Function.update m k none)) :
      Recorded P start (⟨k, false, v⟩ :: log) (Function.update m k none)

variable {P : (κ → Option α) → Prop} {start m : κ → Option α} {log : List (Change κ α)}
  {c : Change κ α}

theorem Recorded.holds (recorded : Recorded P start log m) : P m := by
  cases recorded with
  | nil holds | add _ _ _ _ holds | remove _ _ _ _ holds => exact holds

theorem Recorded.nil_eq (recorded : Recorded P start [] m) : m = start := by
  cases recorded
  rfl

theorem Change.undo_update (c : Change κ α) {w : Option α}
    (was : m c.key = if c.added then none else some c.value) :
    c.undo (Function.update m c.key w) = m := by
  unfold Change.undo
  rw [Function.update_idem, ← was]
  exact Function.update_eq_self c.key m

theorem Recorded.undo (recorded : Recorded P start (c :: log) m) :
    Recorded P start log (c.undo m) := by
  cases recorded with
  | add k v before free _ => rwa [Change.undo_update ⟨k, true, v⟩ free]
  | remove k v before found _ => rwa [Change.undo_update ⟨k, false, v⟩ found]

theorem Recorded.free_of_removed (recorded : Recorded P start (c :: log) m)
    (removed : c.added = false) : m c.key = none := by
  cases recorded with
  | add => cases removed
  | remove => exact Function.update_self _ _ _

theorem newest_append {ι : Type} (select : ι → Bool) {l : List ι}
    (newest : l.Pairwise fun x y => select y = true → select x = true) :
    l = l.filter select ++ l.filter fun x => !select x := by
  induction l with
  | nil => rfl
  | cons x rest ih =>
    rw [List.pairwise_cons] at newest
    cases chosen : select x with
    | true =>
      rw [List.filter_cons_of_pos chosen, List.filter_cons_of_neg (by simp [chosen]),
        List.cons_append, ← ih newest.2]
    | false =>
      have none : ∀ y ∈ rest, ¬ select y = true := by
        intro y member taken
        rw [newest.1 y member taken] at chosen
        cases chosen
      have all : ∀ y ∈ rest, (!select y) = true := fun y member => by simp [none y member]
      rw [List.filter_cons_of_neg (by simp [chosen]), List.filter_cons_of_pos (by simp [chosen]),
        List.filter_eq_nil_iff.mpr none, List.filter_eq_self.mpr all, List.nil_append]

end QwidNode.Lib.UndoLog
