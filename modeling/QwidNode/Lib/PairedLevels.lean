import Mathlib

/-!
# Levels of joined pairs

A list is joined two by two, an odd last element goes up unchanged, and this is repeated until at
most one element is left. Every way to join gives the image of one tree, whose leaves are the list,
so what is to be shown about the result is shown about trees.
-/
namespace QwidNode.Lib
variable {α β : Type}

/-- The next level: neighbours are joined, an odd last element is kept. -/
def pairUp (join : α → α → α) : List α → List α
  | a :: b :: rest => join a b :: pairUp join rest
  | rest => rest

theorem length_pairUp (join : α → α → α) : ∀ xs, (pairUp join xs).length = (xs.length + 1) / 2
  | [] => by simp [pairUp]
  | [_] => by simp [pairUp]
  | a :: b :: rest => by
    simp only [pairUp, List.length_cons, length_pairUp join rest]
    omega

def reducePairs (join : α → α → α) (xs : List α) : List α :=
  if 1 < xs.length then reducePairs join (pairUp join xs) else xs
termination_by xs.length
decreasing_by
  rw [length_pairUp]
  omega

inductive PairTree (α : Type) where
  | leaf (a : α)
  | node (left right : PairTree α)

namespace PairTree

def leaves : PairTree α → List α
  | leaf a => [a]
  | node left right => left.leaves ++ right.leaves

def fold (f : α → β) (join : β → β → β) : PairTree α → β
  | leaf a => f a
  | node left right => join (left.fold f join) (right.fold f join)

end PairTree

section
variable {join : α → α → α}

theorem map_pairUp {f : α → β} {join' : β → β → β} (hom : ∀ a b, f (join a b) = join' (f a) (f b)) :
    ∀ xs, (pairUp join xs).map f = pairUp join' (xs.map f)
  | [] => rfl
  | [_] => rfl
  | a :: b :: rest => by
    simp [pairUp, hom, map_pairUp hom rest]

theorem map_reducePairs {f : α → β} {join' : β → β → β}
    (hom : ∀ a b, f (join a b) = join' (f a) (f b)) (xs : List α) :
    (reducePairs join xs).map f = reducePairs join' (xs.map f) := by
  fun_induction reducePairs join xs with
  | case1 xs more ih =>
    rw [ih, map_pairUp hom, reducePairs.eq_def _ (xs.map f), List.length_map, if_pos more]
  | case2 xs few => rw [reducePairs, List.length_map, if_neg few]

theorem flatMap_pairUp {f : α → List β} (adds : ∀ a b, f (join a b) = f a ++ f b) :
    ∀ xs, (pairUp join xs).flatMap f = xs.flatMap f
  | [] => rfl
  | [_] => rfl
  | a :: b :: rest => by
    simp [pairUp, adds, flatMap_pairUp adds rest]

theorem reducePairs_tree {xs : List (PairTree α)} (nonempty : xs ≠ []) :
    ∃ t, reducePairs .node xs = [t] ∧ t.leaves = xs.flatMap PairTree.leaves := by
  fun_induction reducePairs PairTree.node xs with
  | case1 xs more ih =>
    have next : pairUp .node xs ≠ [] := by
      rw [← List.length_pos_iff, length_pairUp]
      omega
    obtain ⟨t, reduced, leaves⟩ := ih next
    exact ⟨t, reduced, leaves.trans (flatMap_pairUp (fun _ _ => rfl) xs)⟩
  | case2 xs few =>
    obtain ⟨t, rfl⟩ : ∃ t, xs = [t] := by
      rw [← List.length_eq_one_iff]
      have := List.length_pos_iff.mpr nonempty
      omega
    exact ⟨t, rfl, (List.append_nil _).symm⟩

end
end QwidNode.Lib
