import Mathlib

/-!
# Selecting the best by rank

The place of a member of a finite set is the number of members with a smaller key. A smaller
key has a smaller place, so with pairwise different keys at most `k` members have one of the
first `k` places, and whoever beats a selected member is selected.
-/
namespace QwidNode.Lib
variable {α κ : Type*} [LinearOrder κ] {key : α → κ} {S : Finset α} {a b : α}

def place (key : α → κ) (S : Finset α) (a : α) : Nat := (S.filter fun b => key b < key a).card

theorem place_lt_place (member : a ∈ S) (better : key a < key b) :
    place key S a < place key S b := by
  refine Finset.card_lt_card ?_
  rw [Finset.ssubset_iff_of_subset]
  · refine ⟨a, Finset.mem_filter.mpr ⟨member, better⟩, ?_⟩
    rw [Finset.mem_filter]
    exact fun inside => lt_irrefl _ inside.2
  · intro c inside
    rw [Finset.mem_filter] at inside ⊢
    exact ⟨inside.1, inside.2.trans better⟩

theorem place_injOn (distinct : Set.InjOn key S) : Set.InjOn (place key S) S := by
  intro a inside b inside' same
  rcases lt_trichotomy (key a) (key b) with less | equal | more
  · exact absurd same (place_lt_place inside less).ne
  · exact distinct inside inside' equal
  · exact absurd same (place_lt_place inside' more).ne'

theorem card_place_lt_le (distinct : Set.InjOn key S) (k : Nat) :
    (S.filter fun a => place key S a < k).card ≤ k := by
  have places : ∀ a ∈ S.filter fun a => place key S a < k, place key S a ∈ Finset.range k := by
    intro a selected
    exact Finset.mem_range.mpr (Finset.mem_filter.mp selected).2
  have injective : Set.InjOn (place key S) (S.filter fun a => place key S a < k) :=
    (place_injOn distinct).mono fun a selected => (Finset.mem_filter.mp selected).1
  calc (S.filter fun a => place key S a < k).card ≤ (Finset.range k).card :=
        Finset.card_le_card_of_injOn _ places injective
    _ = k := Finset.card_range k

end QwidNode.Lib
