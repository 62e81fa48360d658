import Mathlib

/-!
# Thinning a set without changing what lies next below

A set of marks on a line is read by its greatest mark at or below a point. Removing marks does not
change the reading at a point if every mark below the point still has one between itself and the
point.
-/
namespace QwidNode.Lib
variable {α : Type} [LinearOrder α] {kept all more : Set α} {point : α}

/-- Below the point every mark of `all` has one of `kept` at or above it. -/
def Covers (kept all : Set α) (point : α) : Prop :=
  ∀ mark ∈ all, mark ≤ point → ∃ other ∈ kept, other ≤ point ∧ mark ≤ other

namespace Covers

theorem refl (all : Set α) (point : α) : Covers all all point :=
  fun mark member below => ⟨mark, member, below, le_refl mark⟩

theorem trans (first : Covers kept all point) (second : Covers all more point) :
    Covers kept more point := by
  intro mark member below
  obtain ⟨other, inAll, otherBelow, le⟩ := second mark member below
  obtain ⟨another, inKept, anotherBelow, le'⟩ := first other inAll otherBelow
  exact ⟨another, inKept, anotherBelow, le.trans le'⟩

theorem insert (covers : Covers kept all point) (new : α) :
    Covers (insert new kept) (insert new all) point := by
  intro mark member below
  rcases member with rfl | old
  · exact ⟨mark, .inl rfl, below, le_refl mark⟩
  · obtain ⟨other, inKept, otherBelow, le⟩ := covers mark old below
    exact ⟨other, .inr inKept, otherBelow, le⟩

theorem cut_below (covers : Covers kept all point) {top : α} (below : point ≤ top) :
    Covers (kept ∩ Set.Iic top) (all ∩ Set.Iic top) point := by
  intro mark member markBelow
  obtain ⟨other, inKept, otherBelow, le⟩ := covers mark member.1 markBelow
  exact ⟨other, ⟨inKept, otherBelow.trans below⟩, otherBelow, le⟩

theorem cut_above {top : α} (covers : Covers kept all top) (above : top ≤ point) :
    Covers (kept ∩ Set.Iic top) (all ∩ Set.Iic top) point := by
  intro mark member _
  obtain ⟨other, inKept, otherBelow, le⟩ := covers mark member.1 member.2
  exact ⟨other, ⟨inKept, otherBelow⟩, otherBelow.trans above, le⟩

end Covers
end QwidNode.Lib
