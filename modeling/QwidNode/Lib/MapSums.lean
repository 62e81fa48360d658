import QwidNode.Lib.FinMap
import QwidNode.Lib.Word

/-!
# Sums over maps, entry by entry

The sum over a map is the sum of what its keys contribute, over any set that holds them. Two maps
with the same contributions have the same sum; and when one map differs from another only at keys
whose old contribution is written down, the difference of the sums is the sum of the differences
there.
-/
namespace QwidNode.Lib

namespace FinMap
variable {κ α β γ : Type} [DecidableEq κ]

theorem sumOf_eq_sum (f : α → Int) (m : FinMap κ α) {S : Finset κ} (covers : ∀ k ∈ m, k ∈ S) :
    sumOf f m = ∑ k ∈ S, valueAt f m k := by
  have listed : sumOf f m = (m.keys.map (valueAt f m)).sum := by
    rw [sumOf, values, AList.keys, List.keys, List.map_map, List.map_map]
    refine congrArg List.sum (List.map_congr_left fun e member => ?_)
    exact (valueAt_of_lookup (AList.mem_lookup_iff.mpr member)).symm
  rw [listed, ← List.sum_toFinset _ m.keys_nodup]
  refine Finset.sum_subset (fun k member => covers k ?_) fun k _ absent => ?_
  · exact AList.mem_keys.mpr (List.mem_toFinset.mp member)
  · refine valueAt_of_none (AList.lookup_eq_none.mpr fun inside => absent ?_)
    exact List.mem_toFinset.mpr (AList.mem_keys.mp inside)

theorem sumOf_congr {f : α → Int} {g : β → Int} {m : FinMap κ α} {m' : FinMap κ β}
    (same : ∀ k, valueAt f m k = valueAt g m' k) : sumOf f m = sumOf g m' := by
  rw [sumOf_eq_sum f m (S := m.keys.toFinset ∪ m'.keys.toFinset),
    sumOf_eq_sum g m' (S := m.keys.toFinset ∪ m'.keys.toFinset)]
  · exact Finset.sum_congr rfl fun k _ => same k
  · exact fun k inside => Finset.mem_union_right _ (List.mem_toFinset.mpr (AList.mem_keys.mp inside))
  · exact fun k inside => Finset.mem_union_left _ (List.mem_toFinset.mpr (AList.mem_keys.mp inside))

theorem sumOf_sub_sumOf {f : α → Int} {m start : FinMap κ α} {before : FinMap κ γ} {g : γ → Int}
    (old : ∀ k, valueAt f start k = ((before.lookup k).map g).getD (valueAt f m k)) :
    sumOf f m - sumOf f start =
      (before.entries.map fun e => valueAt f m e.1 - g e.2).sum := by
  -- what a key adds to the difference
  let change : κ → Int := fun k => ((before.lookup k).map fun v => valueAt f m k - g v).getD 0
  let S := m.keys.toFinset ∪ start.keys.toFinset ∪ before.keys.toFinset
  have inside : ∀ k : κ, k ∈ m ∨ k ∈ start ∨ k ∈ before → k ∈ S := by
    intro k member
    simpa [S, AList.mem_keys] using member
  have listed : (before.entries.map fun e => valueAt f m e.1 - g e.2).sum = ∑ k ∈ S, change k := by
    have keys : (before.entries.map fun e => valueAt f m e.1 - g e.2) = before.keys.map change := by
      rw [AList.keys, List.keys, List.map_map]
      refine List.map_congr_left fun e member => ?_
      have found := AList.mem_lookup_iff.mpr member
      rw [Option.mem_def] at found
      simp [change, found]
    rw [keys, ← List.sum_toFinset _ before.keys_nodup]
    refine Finset.sum_subset Finset.subset_union_right fun k _ absent => ?_
    have none : before.lookup k = none := AList.lookup_eq_none.mpr fun member =>
      absent (List.mem_toFinset.mpr (AList.mem_keys.mp member))
    simp [none]
  rw [listed, sumOf_eq_sum f m fun k member => inside k (.inl member),
    sumOf_eq_sum f start fun k member => inside k (.inr (.inl member)), ← Finset.sum_sub_distrib]
  refine Finset.sum_congr rfl fun k _ => ?_
  rw [old k]
  cases found : before.lookup k with
  | none => simp [change, found]
  | some v => simp [change, found]

theorem sumOf_eraseAll (f : α → Int) {es : List (Sigma fun _ : κ => α)} {m : FinMap κ α}
    (distinct : es.NodupKeys) (stored : ∀ e ∈ es, m.lookup e.1 = some e.2) :
    sumOf f (es.foldl (fun m e => m.erase e.1) m) = sumOf f m - (es.map fun e => f e.2).sum := by
  induction es generalizing m with
  | nil => simp
  | cons e rest ih =>
    obtain ⟨fresh, distinct⟩ := List.nodupKeys_cons.mp distinct
    have others : ∀ e' ∈ rest, (m.erase e.1).lookup e'.1 = some e'.2 := by
      intro e' member
      have other : e'.1 ≠ e.1 := fun same => fresh (same ▸ List.mem_keys_of_mem member)
      rw [AList.lookup_erase_ne other]
      exact stored e' (.tail _ member)
    rw [List.foldl_cons, ih distinct others, sumOf_erase, valueAt_of_lookup (stored e (.head _)),
      List.map_cons, List.sum_cons]
    omega

theorem lookup_eraseAll {es : List (Sigma fun _ : κ => α)} {m : FinMap κ α} {k : κ}
    (kept : k ∉ es.keys) : (es.foldl (fun m e => m.erase e.1) m).lookup k = m.lookup k := by
  induction es generalizing m with
  | nil => rfl
  | cons e rest ih =>
    obtain ⟨other, rest⟩ := not_or.mp (mt List.mem_cons.mpr kept)
    rw [List.foldl_cons, ih rest, AList.lookup_erase_ne other]

theorem lookup_eraseAll_of_mem {es : List (Sigma fun _ : κ => α)} {m : FinMap κ α} {k : κ}
    (gone : k ∈ es.keys) : (es.foldl (fun m e => m.erase e.1) m).lookup k = none := by
  induction es generalizing m with
  | nil => cases gone
  | cons e rest ih =>
    rw [List.foldl_cons]
    by_cases later : k ∈ rest.keys
    · exact ih later
    · obtain rfl : k = e.1 := (List.mem_cons.mp gone).resolve_right later
      rw [lookup_eraseAll later, AList.lookup_erase]

end FinMap

theorem toInt_foldl_add {α : Type} (f : α → Int64) (g : α → Int) (xs : List α) (init : Int64)
    (same : ∀ x, (f x).toInt = (g x).bmod (2 ^ 64)) :
    (xs.foldl (fun sum x => sum + f x) init).toInt =
      (init.toInt + (xs.map g).sum).bmod (2 ^ 64) := by
  induction xs generalizing init with
  | nil =>
    have range := Word.toInt_range init
    rw [List.foldl_nil, List.map_nil, List.sum_nil, Int.add_zero]
    exact (Int.bmod_eq_of_le (by omega) (by omega)).symm
  | cons x rest ih =>
    rw [List.foldl_cons, ih, Int64.toInt_add, same, List.map_cons, List.sum_cons,
      Int.add_bmod_bmod, Int.bmod_add_bmod, Int.add_assoc]

end QwidNode.Lib
