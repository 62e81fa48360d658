import Mathlib

/-!
# A journal of undo entries with nested snapshots

Every write appends an entry that takes it back. A snapshot is the length of the journal, and
going back to it undoes the entries behind it, the newest first. Taking a write back may leave
something behind that a reader does not see, so states are compared by a relation: `Below s t`
says that `t` is `s` with such a residue. An entry may be undone only where it fits.

`Run` lets writes, silent changes and reverts to later snapshots follow each other in any order,
and `Run.undone` says that going back to the first snapshot leads to the first state.
-/
namespace QwidNode.Lib.Journal
variable {σ ε : Type}

structure Rules (σ ε : Type) where
  undo : ε → σ → σ
  Fit : ε → σ → Prop
  Below : σ → σ → Prop
  refl : ∀ s, Below s s
  trans : ∀ {s t u}, Below s t → Below t u → Below s u
  undo_below : ∀ {e s t}, Fit e s → Below s t → Below (undo e s) (undo e t)
  fit_below : ∀ {e s t}, Fit e s → Below s t → Fit e t
  fit_undo : ∀ {e e' s}, Fit e s → Fit e (undo e' s)

variable (R : Rules σ ε)

def undoAll (entries : List ε) (s : σ) : σ := entries.foldr R.undo s

theorem undoAll_append (early late : List ε) (s : σ) :
    undoAll R (early ++ late) s = undoAll R early (undoAll R late s) :=
  List.foldr_append

structure Writes (s : σ) (e : ε) (t : σ) : Prop where
  undone : R.Below s (R.undo e t)
  fit : R.Fit e t
  keeps : ∀ e', R.Fit e' s → R.Fit e' t

/-- What may happen to a journal and its state while a snapshot of length `bottom` is open. -/
inductive Run (bottom : Nat) (J : List ε) (s : σ) : List ε → σ → Prop
  | refl : Run bottom J s J s
  | write {K : List ε} {t u : σ} {e : ε} (before : Run bottom J s K t)
      (writes : Writes R t e u) : Run bottom J s (K ++ [e]) u
  | silent {K : List ε} {t u : σ} (before : Run bottom J s K t) (below : R.Below t u) :
      Run bottom J s K u
  | revert {K : List ε} {t : σ} (before : Run bottom J s K t) (n : Nat) (later : bottom ≤ n) :
      Run bottom J s (K.take n) (undoAll R (K.drop n) t)

variable {R} {entries J K L : List ε} {s t u : σ} {bottom : Nat}

theorem fit_undoAll {e : ε} (fit : R.Fit e s) : R.Fit e (undoAll R entries s) := by
  induction entries with
  | nil => exact fit
  | cons first rest ih => exact R.fit_undo ih

theorem undoAll_below (fits : ∀ e ∈ entries, R.Fit e s) (below : R.Below s t) :
    R.Below (undoAll R entries s) (undoAll R entries t) := by
  induction entries with
  | nil => exact below
  | cons first rest ih =>
    rw [List.forall_mem_cons] at fits
    exact R.undo_below (fit_undoAll fits.1) (ih fits.2)

namespace Run

theorem comp (first : Run R bottom J s K t) (second : Run R bottom K t L u) :
    Run R bottom J s L u := by
  induction second with
  | refl => exact first
  | write _ writes ih => exact ih.write writes
  | silent _ below ih => exact ih.silent below
  | revert _ n later ih => exact ih.revert n later

theorem fits (run : Run R bottom J s K t) (start : ∀ e ∈ J, R.Fit e s) : ∀ e ∈ K, R.Fit e t := by
  induction run with
  | refl => exact start
  | write _ writes ih =>
    intro e member
    rcases List.mem_append.mp member with old | new
    · exact writes.keeps e (ih e old)
    · rw [List.mem_singleton.mp new]
      exact writes.fit
  | silent _ below ih => exact fun e member => R.fit_below (ih e member) below
  | revert _ n _ ih => exact fun e member => fit_undoAll (ih e (List.mem_of_mem_take member))

theorem undone (run : Run R bottom J s K t) (taken : J.length = bottom)
    (start : ∀ e ∈ J, R.Fit e s) :
    K.take bottom = J ∧ R.Below s (undoAll R (K.drop bottom) t) := by
  induction run with
  | refl =>
    rw [← taken, List.take_length, List.drop_length]
    exact ⟨rfl, R.refl _⟩
  | @write K t u e before writes ih =>
    obtain ⟨same, below⟩ := ih
    have reached : bottom ≤ K.length := by
      have width := congrArg List.length same
      rw [List.length_take, taken] at width
      omega
    refine ⟨by rw [List.take_append_of_le_length reached, same], ?_⟩
    rw [List.drop_append_of_le_length reached, undoAll_append]
    exact R.trans below (undoAll_below
      (fun e' member => before.fits start e' (List.mem_of_mem_drop member)) writes.undone)
  | silent before change ih =>
    obtain ⟨same, below⟩ := ih
    exact ⟨same, R.trans below (undoAll_below
      (fun e member => before.fits start e (List.mem_of_mem_drop member)) change)⟩
  | @revert K t before n later ih =>
    obtain ⟨same, below⟩ := ih
    refine ⟨by rw [List.take_take, Nat.min_eq_left later, same], ?_⟩
    -- undoing the rest after the nested revert is undoing all of it
    have split : (K.take n).drop bottom ++ K.drop n = K.drop bottom := by
      rw [List.drop_take]
      have := List.take_append_drop (n - bottom) (K.drop bottom)
      rwa [List.drop_drop, Nat.add_sub_cancel' later] at this
    rwa [← undoAll_append, split]

end Run
end QwidNode.Lib.Journal
