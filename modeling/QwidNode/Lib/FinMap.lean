import Mathlib

/-!
# Finite maps and sums over their entries

A finite map is an association list without repeated keys. Besides lookup, insert and erase, the
rules say how the sum of a quantity over all entries moves when one entry is written or removed.
-/
namespace QwidNode.Lib

abbrev FinMap (κ α : Type) := AList fun _ : κ => α

namespace FinMap
variable {κ α : Type}

def values (m : FinMap κ α) : List α := m.entries.map Sigma.snd

def sumOf (f : α → Int) (m : FinMap κ α) : Int := (m.values.map f).sum

def mapValues (f : α → α) (m : FinMap κ α) : FinMap κ α where
  entries := m.entries.map fun e => ⟨e.1, f e.2⟩
  nodupKeys := by
    have keys : (m.entries.map fun e => (⟨e.1, f e.2⟩ : Sigma fun _ : κ => α)).keys =
        m.entries.keys := by simp [List.keys, Function.comp_def]
    rw [List.NodupKeys, keys]
    exact m.nodupKeys

def filterValues (p : α → Bool) (m : FinMap κ α) : FinMap κ α where
  entries := m.entries.filter fun e => p e.2
  nodupKeys := by
    exact List.NodupKeys.sublist List.filter_sublist m.nodupKeys

theorem sumOf_mapValues (f : α → Int) (g : α → α) (same : ∀ v, f (g v) = f v)
    (m : FinMap κ α) : sumOf f (m.mapValues g) = sumOf f m := by
  simp [sumOf, values, mapValues, Function.comp_def, same]

variable [DecidableEq κ]

/-- What the entry under `k` contributes to a sum; nothing when there is none. -/
def valueAt (f : α → Int) (m : FinMap κ α) (k : κ) : Int := ((m.lookup k).map f).getD 0

private theorem sum_kerase (f : α → Int) (k : κ) :
    ∀ l : List (Sigma fun _ : κ => α), l.NodupKeys →
      ((l.map Sigma.snd).map f).sum =
        ((l.dlookup k).map f).getD 0 + (((l.kerase k).map Sigma.snd).map f).sum
  | [], _ => by simp
  | ⟨k', v⟩ :: rest, nodup => by
    by_cases equal : k = k'
    · subst equal
      simp
    · have tail := sum_kerase f k rest (List.nodupKeys_cons.mp nodup).2
      rw [List.dlookup_cons_ne _ _ (by exact equal), List.kerase_cons_ne (by exact equal)]
      simp only [List.map_cons, List.sum_cons, tail]
      omega

theorem sumOf_erase (f : α → Int) (m : FinMap κ α) (k : κ) :
    sumOf f (m.erase k) = sumOf f m - valueAt f m k := by
  have split := sum_kerase f k m.entries m.nodupKeys
  have whole : sumOf f m = valueAt f m k + sumOf f (m.erase k) := split
  omega

theorem sumOf_insert (f : α → Int) (m : FinMap κ α) (k : κ) (v : α) :
    sumOf f (m.insert k v) = sumOf f m - valueAt f m k + f v := by
  have inserted : sumOf f (m.insert k v) = f v + sumOf f (m.erase k) := rfl
  rw [inserted, sumOf_erase]
  omega

theorem valueAt_of_lookup {f : α → Int} {m : FinMap κ α} {k : κ} {v : α}
    (found : m.lookup k = some v) : valueAt f m k = f v := by
  simp [valueAt, found]

theorem valueAt_of_none {f : α → Int} {m : FinMap κ α} {k : κ}
    (absent : m.lookup k = none) : valueAt f m k = 0 := by
  simp [valueAt, absent]

theorem mem_values_of_lookup {m : FinMap κ α} {k : κ} {v : α}
    (found : m.lookup k = some v) : v ∈ m.values :=
  List.mem_map.mpr ⟨⟨k, v⟩, List.of_mem_dlookup found, rfl⟩

theorem lookup_of_mem_values {m : FinMap κ α} {v : α} (member : v ∈ m.values) :
    ∃ k, m.lookup k = some v := by
  obtain ⟨⟨k, w⟩, stored, rfl⟩ := List.mem_map.mp member
  exact ⟨k, List.mem_dlookup m.nodupKeys stored⟩

theorem forall_values_insert {p : α → Prop} {m : FinMap κ α} {k : κ} {v : α}
    (old : ∀ w ∈ m.values, p w) (new : p v) : ∀ w ∈ FinMap.values (m.insert k v), p w := by
  intro w member
  obtain ⟨k', found⟩ := lookup_of_mem_values member
  by_cases equal : k' = k
  · subst equal
    rw [AList.lookup_insert] at found
    exact Option.some.inj found ▸ new
  · rw [AList.lookup_insert_ne equal] at found
    exact old w (mem_values_of_lookup found)

theorem le_sumOf {f : α → Int} {m : FinMap κ α} (nonneg : ∀ v ∈ m.values, 0 ≤ f v)
    {k : κ} {v : α} (found : m.lookup k = some v) : f v ≤ sumOf f m := by
  have rest : 0 ≤ sumOf f (m.erase k) := by
    refine List.sum_nonneg fun x member => ?_
    obtain ⟨w, stored, rfl⟩ := List.mem_map.mp member
    obtain ⟨k', found'⟩ := lookup_of_mem_values stored
    by_cases equal : k' = k
    · subst equal
      rw [AList.lookup_erase] at found'
      cases found'
    · rw [AList.lookup_erase_ne equal] at found'
      exact nonneg w (mem_values_of_lookup found')
  rw [sumOf_erase, valueAt_of_lookup found] at rest
  omega

theorem lookup_mapValues (g : α → α) (m : FinMap κ α) (k : κ) :
    (m.mapValues g).lookup k = (m.lookup k).map g := by
  simp only [AList.lookup, mapValues]
  induction m.entries with
  | nil => rfl
  | cons e rest ih =>
    by_cases equal : k = e.1
    · obtain ⟨k', v⟩ := e
      simp only at equal
      subst equal
      simp
    · rw [List.map_cons, List.dlookup_cons_ne _ _ (by exact equal), ih,
        ← List.dlookup_cons_ne _ e equal]

end FinMap
end QwidNode.Lib
