import QwidNode.Lib.FinMap

/-!
# Lookups after a write, and maps of maps

A write to a map is read back by cases on the key. In a map of maps a value stands under two keys,
and a missing inner map reads like an empty one.
-/
namespace QwidNode.Lib.FinMap
variable {κ η α : Type} [DecidableEq κ]

theorem lookup_insert_eq (m : FinMap κ α) (k k' : κ) (v : α) :
    (m.insert k v).lookup k' = if k' = k then some v else m.lookup k' := by
  by_cases equal : k' = k
  · subst equal
    rw [if_pos rfl, AList.lookup_insert]
  · rw [if_neg equal, AList.lookup_insert_ne equal]

theorem lookup_erase_eq (m : FinMap κ α) (k k' : κ) :
    (m.erase k).lookup k' = if k' = k then none else m.lookup k' := by
  by_cases equal : k' = k
  · subst equal
    rw [if_pos rfl, AList.lookup_erase]
  · rw [if_neg equal, AList.lookup_erase_ne equal]

theorem mem_iff_lookup {m : FinMap κ α} {k : κ} : k ∈ m ↔ ∃ v, m.lookup k = some v := by
  rw [← AList.lookup_isSome, Option.isSome_iff_exists]

theorem lookup_of_not_mem {m : FinMap κ α} {k : κ} (absent : k ∉ m) : m.lookup k = none :=
  AList.lookup_eq_none.mpr absent

variable [DecidableEq η]

def lookup2 (m : FinMap κ (FinMap η α)) (k : κ) (h : η) : Option α :=
  (m.lookup k).bind fun inner => inner.lookup h

theorem lookup2_insert (m : FinMap κ (FinMap η α)) (k k' : κ) (inner : FinMap η α) (h : η) :
    lookup2 (m.insert k inner) k' h = if k' = k then inner.lookup h else lookup2 m k' h := by
  rw [lookup2, lookup_insert_eq]
  split <;> rfl

theorem lookup2_eq_getD (m : FinMap κ (FinMap η α)) (k : κ) (h : η) :
    lookup2 m k h = ((m.lookup k).getD ∅).lookup h := by
  rw [lookup2]
  cases m.lookup k <;> simp

end QwidNode.Lib.FinMap
