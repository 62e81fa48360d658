import Mathlib

/-!
# A binary heap in an array

The sift-up and sift-down loops of an array heap, over any comparison. Pushing and removing permute
the stored items and never invent or lose one.
-/
namespace QwidNode.Lib.Heap
variable {α : Type} (less : α → α → Bool)

/-- Exchange two positions; positions outside the array leave it alone. -/
def swap (items : List α) (i j : Nat) : List α :=
  match items[i]?, items[j]? with
  | some a, some b => (items.set i b).set j a
  | _, _ => items

def lessAt (items : List α) (i j : Nat) : Bool :=
  match items[i]?, items[j]? with
  | some a, some b => less a b
  | _, _ => false

def up : Nat → List α → Nat → List α
  | 0, items, _ => items
  | budget + 1, items, j =>
    let i := (j - 1) / 2
    if i = j || !lessAt less items j i then items
    else up budget (swap items i j) i

/-- The child of `i` that comes first; the left one when there is no right one. -/
def firstChild (items : List α) (i : Nat) : Nat :=
  let j1 := 2 * i + 1
  let j2 := j1 + 1
  if j2 < items.length && lessAt less items j2 j1 then j2 else j1

/-- Sift the item at `i` towards the leaves; returns its final position. -/
def down : Nat → List α → Nat → List α × Nat
  | 0, items, i => (items, i)
  | budget + 1, items, i =>
    let j := firstChild less items i
    if items.length ≤ 2 * i + 1 || !lessAt less items j i then (items, i)
    else down budget (swap items i j) j

def push (items : List α) (x : α) : List α :=
  let grown := items ++ [x]
  up less grown.length grown (grown.length - 1)

/-- Remove position `i`: the last item takes its place and is sifted down, or up when
it did not move down. -/
def remove (items : List α) (i : Nat) : List α :=
  let n := items.length - 1
  if i = n then items.dropLast
  else
    let init := (swap items i n).dropLast
    let sifted := down less init.length init i
    if i < sifted.2 then sifted.1 else up less init.length sifted.1 i

theorem swap_perm (items : List α) (i j : Nat) : (swap items i j).Perm items := by
  unfold swap
  cases hi : items[i]? with
  | none => simp
  | some a =>
    cases hj : items[j]? with
    | none => simp
    | some b =>
      obtain ⟨boundI, rfl⟩ := List.getElem?_eq_some_iff.mp hi
      obtain ⟨boundJ, rfl⟩ := List.getElem?_eq_some_iff.mp hj
      exact List.set_set_perm boundI boundJ

@[simp] theorem length_swap (items : List α) (i j : Nat) :
    (swap items i j).length = items.length := (swap_perm items i j).length_eq

theorem up_perm (budget : Nat) (items : List α) (j : Nat) :
    (up less budget items j).Perm items := by
  induction budget generalizing items j with
  | zero => exact .refl _
  | succ budget ih =>
    simp only [up]
    split
    · exact .refl _
    · exact (ih _ _).trans (swap_perm items _ _)

theorem down_perm (budget : Nat) (items : List α) (i : Nat) :
    (down less budget items i).1.Perm items := by
  induction budget generalizing items i with
  | zero => exact .refl _
  | succ budget ih =>
    simp only [down]
    split
    · exact .refl _
    · exact (ih _ _).trans (swap_perm items _ _)

theorem push_perm (items : List α) (x : α) : (push less items x).Perm (x :: items) :=
  (up_perm less _ _ _).trans (List.perm_append_singleton x items)

theorem dropLast_swap_perm (items : List α) (i : Nat) (bound : i < items.length) :
    ((swap items i (items.length - 1)).dropLast).Perm (items.eraseIdx i) := by
  have lastBound : items.length - 1 < items.length := by omega
  have shape : swap items i (items.length - 1) =
      (swap items i (items.length - 1)).dropLast ++ [items[i]] := by
    have nonempty : swap items i (items.length - 1) ≠ [] := by
      intro empty
      have size := congrArg List.length empty
      rw [length_swap, List.length_nil] at size
      omega
    have last : (swap items i (items.length - 1)).getLast nonempty = items[i] := by
      rw [List.getLast_eq_getElem]
      simp [swap, bound, lastBound]
    rw [← last]
    exact (List.dropLast_append_getLast nonempty).symm
  have whole := swap_perm items i (items.length - 1)
  rw [shape] at whole
  have cancelled : (items[i] :: (swap items i (items.length - 1)).dropLast).Perm
      (items[i] :: items.eraseIdx i) :=
    ((List.perm_append_singleton _ _).symm.trans whole).trans
      (List.getElem_cons_eraseIdx_perm bound).symm
  exact (List.perm_cons _).mp cancelled

theorem remove_perm (items : List α) (i : Nat) (bound : i < items.length) :
    (remove less items i).Perm (items.eraseIdx i) := by
  unfold remove
  simp only
  split
  · next last =>
    subst last
    rw [List.eraseIdx_eq_dropLast (by omega)]
  · split
    · exact (down_perm less _ _ _).trans (dropLast_swap_perm items i bound)
    · exact ((up_perm less _ _ _).trans (down_perm less _ _ _)).trans
        (dropLast_swap_perm items i bound)

theorem remove_findIdx_perm (items : List α) (p : α → Bool) (some : ∃ x ∈ items, p x) :
    ∃ x ∈ items, p x ∧ (x :: remove less items (items.findIdx p)).Perm items := by
  have bound : items.findIdx p < items.length := List.findIdx_lt_length.mpr some
  refine ⟨items[items.findIdx p], List.getElem_mem bound, List.findIdx_getElem, ?_⟩
  exact ((remove_perm less items _ bound).cons _).trans (List.getElem_cons_eraseIdx_perm bound)

end QwidNode.Lib.Heap
