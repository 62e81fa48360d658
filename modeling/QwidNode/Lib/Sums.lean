import Mathlib

/-!
# Sums over classes

Items fall into classes by a key. The classes of pairwise different keys add up to at most all
items when no item is negative, and a part of the keys adds up to at most a larger one.
-/
namespace QwidNode.Lib
variable {α κ : Type}
variable {key : α → κ} {v : α → Int} {items : List α} {keys : List κ}

theorem sum_le_of_subset {f : κ → Int} {part whole : List κ} (distinct : part.Nodup)
    (subset : part ⊆ whole) (nonneg : ∀ k ∈ whole, 0 ≤ f k) :
    (part.map f).sum ≤ (whole.map f).sum := by
  obtain ⟨between, perm, sub⟩ := List.subperm_of_subset distinct subset
  rw [← (perm.map f).sum_eq]
  refine (sub.map f).sum_le_sum fun x member => ?_
  obtain ⟨k, inside, rfl⟩ := List.mem_map.mp member
  exact nonneg k inside

variable [DecidableEq κ]

def classSum (key : α → κ) (v : α → Int) (items : List α) (k : κ) : Int :=
  ((items.filter fun a => key a == k).map v).sum

theorem classSum_nonneg (nonneg : ∀ a ∈ items, 0 ≤ v a) (k : κ) : 0 ≤ classSum key v items k := by
  refine List.sum_nonneg fun x member => ?_
  obtain ⟨a, inside, rfl⟩ := List.mem_map.mp member
  exact nonneg a (List.mem_of_mem_filter inside)

theorem classSum_cons (key : α → κ) (v : α → Int) (a : α) (rest : List α) (k : κ) :
    classSum key v (a :: rest) k = classSum key v rest k + if key a = k then v a else 0 := by
  unfold classSum
  by_cases same : key a = k
  · rw [List.filter_cons_of_pos (by simpa using same), List.map_cons, List.sum_cons, if_pos same]
    omega
  · rw [List.filter_cons_of_neg (by simpa using same), if_neg same]
    omega

theorem sum_map_ite {x : Int} {k : κ} (distinct : keys.Nodup) :
    (keys.map fun j => if k = j then x else 0).sum = if k ∈ keys then x else 0 := by
  induction keys with
  | nil => rfl
  | cons j rest ih =>
    obtain ⟨absent, others⟩ := List.nodup_cons.mp distinct
    rw [List.map_cons, List.sum_cons, ih others]
    by_cases here : k = j
    · subst here
      simp [absent]
    · simp [here]

theorem filter_key_of_perm {items items' : List (κ × α)} (perm : items'.Perm items)
    (distinct : (items.map Prod.fst).Nodup) (k : κ) :
    items'.filter (fun e => e.1 == k) = items.filter fun e => e.1 == k := by
  have filtered := perm.filter fun e => e.1 == k
  have keys : (items.filter fun e => e.1 == k).map Prod.fst =
      List.replicate (items.filter fun e => e.1 == k).length k := by
    refine List.eq_replicate_iff.mpr ⟨List.length_map _, fun x member => ?_⟩
    obtain ⟨e, inside, rfl⟩ := List.mem_map.mp member
    exact beq_iff_eq.mp (List.mem_filter.mp inside).2
  have few : (items.filter fun e => e.1 == k).length ≤ 1 := by
    have nodup := distinct.sublist (List.filter_sublist.map Prod.fst :
      ((items.filter fun e => e.1 == k).map Prod.fst).Sublist _)
    rw [keys] at nodup
    exact List.nodup_replicate.mp nodup
  rcases Nat.le_one_iff_eq_zero_or_eq_one.mp few with none | one
  · rw [List.length_eq_zero_iff.mp none] at filtered ⊢
    exact List.perm_nil.mp filtered
  · obtain ⟨e, only⟩ := List.length_eq_one_iff.mp one
    rw [only] at filtered ⊢
    exact List.perm_singleton.mp filtered

theorem le_classSum (nonneg : ∀ a ∈ items, 0 ≤ v a) {a : α} (member : a ∈ items) :
    v a ≤ classSum key v items (key a) := by
  refine List.single_le_sum (fun x inside => ?_) _ (List.mem_map_of_mem (by simpa using member))
  obtain ⟨b, filtered, rfl⟩ := List.mem_map.mp inside
  exact nonneg b (List.mem_of_mem_filter filtered)

theorem sum_classSum_cons (key : α → κ) (v : α → Int) (a : α) (rest : List α)
    (distinct : keys.Nodup) :
    (keys.map (classSum key v (a :: rest))).sum =
      (keys.map (classSum key v rest)).sum + if key a ∈ keys then v a else 0 := by
  rw [← sum_map_ite distinct, ← List.sum_map_add]
  exact congrArg List.sum (List.map_congr_left fun k _ => classSum_cons key v a rest k)

theorem sum_classSum_eq (distinct : keys.Nodup) (covered : ∀ a ∈ items, key a ∈ keys) :
    (keys.map (classSum key v items)).sum = (items.map v).sum := by
  induction items with
  | nil =>
    rw [show classSum key v [] = fun _ => 0 from rfl]
    simp
  | cons a rest ih =>
    have others := ih fun b member => covered b (List.mem_cons_of_mem a member)
    rw [sum_classSum_cons key v a rest distinct, if_pos (covered a List.mem_cons_self), others,
      List.map_cons, List.sum_cons, Int.add_comm]

theorem sum_classSum_le (nonneg : ∀ a ∈ items, 0 ≤ v a) (distinct : keys.Nodup) :
    (keys.map (classSum key v items)).sum ≤ (items.map v).sum := by
  induction items with
  | nil =>
    have zero : keys.map (classSum key v []) = keys.map fun _ => 0 := rfl
    rw [zero]
    simp
  | cons a rest ih =>
    have tail := ih fun b member => nonneg b (List.mem_cons_of_mem a member)
    have first := nonneg a List.mem_cons_self
    rw [sum_classSum_cons key v a rest distinct, List.map_cons, List.sum_cons]
    split
    · omega
    · omega

end QwidNode.Lib
