import Mathlib

/-!
# Encodings that delimit themselves

An encoding is framed when a value can be told from what follows it: two values whose encodings,
each with some rest, are the same list are the same value with the same rest. Fixed widths and
written lengths frame; a list of framed values is framed once the shapes of its elements are known,
which is their number when they have one shape, or when what follows it cannot be taken for another
element.
-/
namespace QwidNode.Lib
variable {α β : Type}

def FramedOn (P : α → Prop) (enc : α → List β) : Prop :=
  ∀ ⦃a b : α⦄ ⦃x y : List β⦄, P a → P b → enc a ++ x = enc b ++ y → a = b ∧ x = y

def FramedBy {σ : Type} (P : α → Prop) (shape : α → σ) (enc : α → List β) : Prop :=
  ∀ ⦃a b : α⦄ ⦃x y : List β⦄, P a → P b → shape a = shape b →
    enc a ++ x = enc b ++ y → a = b ∧ x = y

theorem FramedBy.flatMap {σ : Type} {P : α → Prop} {shape : α → σ} {enc : α → List β}
    (framed : FramedBy P shape enc) {xs ys : List α} {x y : List β} (good : ∀ a ∈ xs, P a)
    (good' : ∀ a ∈ ys, P a) (shapes : xs.map shape = ys.map shape)
    (same : xs.flatMap enc ++ x = ys.flatMap enc ++ y) : xs = ys ∧ x = y := by
  induction xs generalizing ys with
  | nil =>
    obtain rfl : ys = [] := List.map_eq_nil_iff.mp shapes.symm
    exact ⟨rfl, same⟩
  | cons a rest ih =>
    cases ys with
    | nil => cases shapes
    | cons b others =>
      rw [List.forall_mem_cons] at good good'
      rw [List.map_cons, List.map_cons, List.cons.injEq] at shapes
      rw [List.flatMap_cons, List.flatMap_cons, List.append_assoc, List.append_assoc] at same
      obtain ⟨rfl, tails⟩ := framed good.1 good'.1 shapes.1 same
      obtain ⟨rfl, ends⟩ := ih good.2 good'.2 shapes.2 tails
      exact ⟨rfl, ends⟩

namespace FramedOn
variable {P : α → Prop} {enc : α → List β}

theorem split (framed : FramedOn (fun _ => True) enc) {a b : α} {x y : List β}
    (same : enc a ++ x = enc b ++ y) : a = b ∧ x = y := framed trivial trivial same

theorem of_length {n : Nat} (width : ∀ a, P a → (enc a).length = n)
    (injective : ∀ a b, P a → P b → enc a = enc b → a = b) : FramedOn P enc := by
  intro a b x y good good' same
  obtain ⟨left, right⟩ := List.append_inj same ((width a good).trans (width b good').symm)
  exact ⟨injective a b good good' left, right⟩

theorem flatMap (framed : FramedOn P enc) {xs ys : List α} {x y : List β}
    (good : ∀ a ∈ xs, P a) (good' : ∀ a ∈ ys, P a) (count : xs.length = ys.length)
    (same : xs.flatMap enc ++ x = ys.flatMap enc ++ y) : xs = ys ∧ x = y := by
  have shaped : FramedBy P (fun _ => ()) enc := fun _ _ _ _ ok ok' _ eq => framed ok ok' eq
  refine shaped.flatMap good good' ?_ same
  rw [List.map_const', List.map_const', count]

theorem flatMap_until (framed : FramedOn P enc) {starts : List β → Prop}
    (begins : ∀ a, P a → ∀ z, starts (enc a ++ z)) {xs ys : List α} {x y : List β}
    (good : ∀ a ∈ xs, P a) (good' : ∀ a ∈ ys, P a) (ends : ¬ starts x) (ends' : ¬ starts y)
    (same : xs.flatMap enc ++ x = ys.flatMap enc ++ y) : xs = ys ∧ x = y := by
  induction xs generalizing ys with
  | nil =>
    cases ys with
    | nil => exact ⟨rfl, same⟩
    | cons b others =>
      -- the other list goes on where this one has ended
      rw [List.flatMap_cons, List.append_assoc] at same
      have again := begins b (good' b List.mem_cons_self) (others.flatMap enc ++ y)
      rw [← same] at again
      exact absurd again ends
  | cons a rest ih =>
    cases ys with
    | nil =>
      rw [List.flatMap_cons, List.append_assoc] at same
      have again := begins a (good a List.mem_cons_self) (rest.flatMap enc ++ x)
      rw [same] at again
      exact absurd again ends'
    | cons b others =>
      rw [List.forall_mem_cons] at good good'
      rw [List.flatMap_cons, List.flatMap_cons, List.append_assoc, List.append_assoc] at same
      obtain ⟨rfl, tails⟩ := framed good.1 good'.1 same
      obtain ⟨rfl, left⟩ := ih good.2 good'.2 tails
      exact ⟨rfl, left⟩

end FramedOn
end QwidNode.Lib
