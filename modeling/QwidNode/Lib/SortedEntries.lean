import QwidNode.Lib.FinMap

/-!
# The entries of a map in the order of their keys

A map is written out by sorting its keys. Two maps are written out alike exactly when every key has
the same value in both, whatever the order in which their entries were made.
-/
namespace QwidNode.Lib

section Pairs
variable {κ α : Type} [LE κ] [DecidableLE κ]

def sortByKey (xs : List (κ × α)) : List (κ × α) := xs.insertionSort fun a b => a.1 ≤ b.1

theorem sortByKey_perm (xs : List (κ × α)) : (sortByKey xs).Perm xs :=
  List.perm_insertionSort _ xs

theorem mem_sortByKey {xs : List (κ × α)} {e : κ × α} : e ∈ sortByKey xs ↔ e ∈ xs :=
  (sortByKey_perm xs).mem_iff

theorem sortByKey_pairwise [Std.IsLinearOrder κ] (xs : List (κ × α)) :
    (sortByKey xs).Pairwise fun a b => a.1 ≤ b.1 := by
  have : Std.Total fun a b : κ × α => a.1 ≤ b.1 := ⟨fun a b => Std.le_total⟩
  have : IsTrans (κ × α) fun a b => a.1 ≤ b.1 := ⟨fun _ _ _ => Std.le_trans⟩
  exact List.pairwise_insertionSort _ xs

theorem sortByKey_congr [Std.IsLinearOrder κ] {xs ys : List (κ × α)}
    (nodup : (xs.map Prod.fst).Nodup) (nodup' : (ys.map Prod.fst).Nodup)
    (same : ∀ e, e ∈ xs ↔ e ∈ ys) : sortByKey xs = sortByKey ys := by
  have perm : xs.Perm ys := (List.perm_ext_iff_of_nodup nodup.of_map nodup'.of_map).mpr same
  refine List.Perm.eq_of_pairwise (fun a b inside inside' le ge => ?_) (sortByKey_pairwise xs)
    (sortByKey_pairwise ys) ((sortByKey_perm xs).trans (perm.trans (sortByKey_perm ys).symm))
  -- one key has one value
  have member : a ∈ ys := (same a).mp (mem_sortByKey.mp inside)
  exact List.inj_on_of_nodup_map nodup' member (mem_sortByKey.mp inside') (Std.le_antisymm le ge)

end Pairs

namespace FinMap
variable {κ α β γ : Type}

theorem nodup_pairs (f : α → β) (m : FinMap κ α) :
    ((m.entries.map fun e => (e.1, f e.2)).map Prod.fst).Nodup := by
  rw [List.map_map]
  exact m.nodupKeys

variable [DecidableEq κ]

theorem mem_readings {f : α → β} {m : FinMap κ α} {k : κ} {w : β} :
    (k, w) ∈ m.entries.map (fun e => (e.1, f e.2)) ↔ (m.lookup k).map f = some w := by
  rw [List.mem_map, Option.map_eq_some_iff]
  constructor
  · rintro ⟨⟨k, v⟩, member, same⟩
    obtain ⟨rfl, rfl⟩ := Prod.mk.inj same
    exact ⟨v, AList.mem_lookup_iff.mpr member, rfl⟩
  · rintro ⟨v, found, rfl⟩
    exact ⟨⟨k, v⟩, AList.mem_lookup_iff.mp found, rfl⟩

theorem readings_perm {f : α → β} {g : γ → β} {m : FinMap κ α} {m' : FinMap κ γ}
    (same : ∀ k, (m.lookup k).map f = (m'.lookup k).map g) :
    (m.entries.map fun e => (e.1, f e.2)).Perm (m'.entries.map fun e => (e.1, g e.2)) := by
  refine (List.perm_ext_iff_of_nodup (nodup_pairs f m).of_map (nodup_pairs g m').of_map).mpr ?_
  rintro ⟨k, w⟩
  rw [mem_readings, mem_readings, same]

variable [LE κ] [DecidableLE κ]

/-- The keys of a map in order, each with what `f` reads off its value. -/
def sortedWith (f : α → β) (m : FinMap κ α) : List (κ × β) :=
  sortByKey (m.entries.map fun e => (e.1, f e.2))

theorem mem_sortedWith {f : α → β} {m : FinMap κ α} {k : κ} {w : β} :
    (k, w) ∈ m.sortedWith f ↔ (m.lookup k).map f = some w := by
  rw [sortedWith, mem_sortByKey, mem_readings]

theorem sortedWith_eq_iff [Std.IsLinearOrder κ] {f : α → β} {g : γ → β} {m : FinMap κ α}
    {m' : FinMap κ γ} :
    m.sortedWith f = m'.sortedWith g ↔ ∀ k, (m.lookup k).map f = (m'.lookup k).map g := by
  constructor
  · intro same k
    refine Option.ext fun w => ?_
    rw [← mem_sortedWith, ← mem_sortedWith, same]
  · intro same
    refine sortByKey_congr (nodup_pairs f m) (nodup_pairs g m') fun ⟨k, w⟩ => ?_
    have left : _ ↔ (k, w) ∈ m.sortedWith f := mem_sortByKey.symm
    have right : _ ↔ (k, w) ∈ m'.sortedWith g := mem_sortByKey.symm
    rw [left, right, mem_sortedWith, mem_sortedWith, same]

theorem mem_congr_of_sortedWith [Std.IsLinearOrder κ] {f : α → β} {g : γ → β} {m : FinMap κ α}
    {m' : FinMap κ γ} {k : κ} (same : m.sortedWith f = m'.sortedWith g) : k ∈ m ↔ k ∈ m' := by
  have lookups := congrArg Option.isSome (sortedWith_eq_iff.mp same k)
  rw [Option.isSome_map, Option.isSome_map] at lookups
  rw [← AList.lookup_isSome, ← AList.lookup_isSome, lookups]

end FinMap

namespace FinMap
variable {κ α β : Type}

def pairs (m : FinMap κ α) : List (κ × α) := m.entries.map fun e => (e.1, e.2)

theorem pairs_length (m : FinMap κ α) : m.pairs.length = m.entries.length := List.length_map _

variable [DecidableEq κ]

theorem mem_pairs {m : FinMap κ α} {k : κ} {v : α} : (k, v) ∈ m.pairs ↔ m.lookup k = some v := by
  have readings := mem_readings (f := id) (m := m) (k := k) (w := v)
  rwa [Option.map_id, id] at readings

/-- The map of a list of entries; an entry replaces the earlier ones with its key. -/
def ofPairs (es : List (κ × α)) : FinMap κ α := es.foldl (fun m e => m.insert e.1 e.2) ∅

theorem lookup_ofPairs_iff {es : List (κ × α)}
    (one : ∀ k v w, (k, v) ∈ es → (k, w) ∈ es → v = w) {k : κ} {v : α} :
    (ofPairs es).lookup k = some v ↔ (k, v) ∈ es := by
  rw [ofPairs]
  induction es using List.reverseRecOn with
  | nil => simp
  | append_singleton es e ih =>
    have earlier := ih fun k v w first second =>
      one k v w (List.mem_append_left _ first) (List.mem_append_left _ second)
    rw [List.foldl_append, List.foldl_cons, List.foldl_nil, List.mem_append, List.mem_singleton]
    by_cases equal : k = e.1
    · subst equal
      rw [AList.lookup_insert, Option.some.injEq]
      refine ⟨fun same => .inr (Prod.ext rfl same.symm), ?_⟩
      rintro (before | last)
      · exact one e.1 e.2 v (List.mem_append_right _ (List.mem_singleton.mpr rfl))
          (List.mem_append_left _ before)
      · exact (congrArg Prod.snd last).symm
    · rw [AList.lookup_insert_ne equal, earlier]
      refine ⟨.inl, ?_⟩
      rintro (before | rfl)
      · exact before
      · exact absurd rfl equal

theorem lookup_ofPairs {es : List (κ × α)} (answer : κ → Option α)
    (listed : ∀ k v, (k, v) ∈ es ↔ answer k = some v) (k : κ) :
    (ofPairs es).lookup k = answer k := by
  refine Option.ext fun v => ?_
  rw [lookup_ofPairs_iff fun k v w first second => Option.some.inj
    (((listed k v).mp first).symm.trans ((listed k w).mp second)), listed]

theorem lookup_ofPairs_map {es : List (κ × α)} (answer : κ → Option α)
    (listed : ∀ k v, (k, v) ∈ es ↔ answer k = some v) (f : α → β) (k : κ) :
    (ofPairs (es.map fun e => (e.1, f e.2))).lookup k = (answer k).map f := by
  refine lookup_ofPairs (fun k => (answer k).map f) (fun k w => ?_) k
  rw [List.mem_map, Option.map_eq_some_iff]
  constructor
  · rintro ⟨⟨k, v⟩, member, same⟩
    obtain ⟨rfl, rfl⟩ := Prod.mk.inj same
    exact ⟨v, (listed k v).mp member, rfl⟩
  · rintro ⟨v, found, rfl⟩
    exact ⟨(k, v), (listed k v).mpr found, rfl⟩

theorem lookup_ofPairs_perm {m : FinMap κ α} {es : List (κ × α)} (listed : es.Perm m.pairs)
    (k : κ) : (ofPairs es).lookup k = m.lookup k :=
  lookup_ofPairs (fun k => m.lookup k) (fun _ _ => listed.mem_iff.trans mem_pairs) k

end FinMap
end QwidNode.Lib
