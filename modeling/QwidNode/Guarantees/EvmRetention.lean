import QwidNode.Source.Retention

/-!
# EVM snapshots through pruning and rewinds

Two databases run side by side: in one the EVM snapshots are pruned, in the other they never are.
At every height that still has its account snapshot both load the same EVM snapshot.

A rewind goes to a height with an account snapshot (`restorableHeight` and
`consistentRewindTarget` return no other). This is needed: between two kept snapshots a pruned
node loads an older one.
-/
namespace QwidNode.Guarantees.EvmRetention
open Source Lib Word

/-- A node's database beside one whose EVM snapshots are never pruned, and the height of the
chain. Heights stay where the loop over the checkpoints does not overflow. -/
inductive Run : KeyValues → KeyValues → Int64 → Prop
  | start (db : KeyValues) (top : Int64) (heights : ∀ n ∈ evmMarks db, 0 ≤ n)
      (nonneg : 0 ≤ top.toInt) (small : top.toInt + 4320 < 2 ^ 63) : Run db db top
  | storeAccounts {db all : KeyValues} {top : Int64} (run : Run db all top) (h : Int64)
      (marshalled : Bytes) (ahead : top ≤ h) (small : h.toInt + 4320 < 2 ^ 63) :
      Run (storeAccounts db h h marshalled) all h
  | storeEvm {db all : KeyValues} {top : Int64} (run : Run db all top) (h : Int64)
      (marshalled : Bytes) (nonneg : 0 ≤ h.toInt) :
      Run (storeEvm db h marshalled) (storeEvm all h marshalled) top
  | prune {db all : KeyValues} {top : Int64} (run : Run db all top) (tip : Int64)
      (nonneg : 0 ≤ tip.toInt) (below : tip ≤ top) :
      Run (pruneStored (pruneStateSnapshots db tip) tip).1 all top
  | rewind {db all : KeyValues} {top : Int64} (run : Run db all top) (target : Int64)
      (gone : List Int64) (below : target ≤ top)
      (stored : accountsStoredAtHeight db target = true) :
      Run (removeStoredAbove (deleteAll db (gone.map (snapshotKey accountsDBPrefix))) target)
        (removeStoredAbove all target) target

section Steps
variable {db all : KeyValues} {top h target : Int64}

private theorem evmKey_ne {a b : Bytes} : evmStateDBPrefix ++ a ≠ accountsDBPrefix ++ b :=
  ne_of_leading rfl (by decide)

theorem evmMarks_storeAccounts (nonneg : 0 ≤ h) (marshalled : Bytes) :
    evmMarks (storeAccounts db h h marshalled) = evmMarks db := by
  refine evmMarks_congr fun k => ?_
  rw [storeAccounts, mem_storeWhole nonneg]
  refine ⟨?_, fun old => .inr (.inr old)⟩
  rintro (isMeta | isSnapshot | old)
  · exact absurd isMeta evmKey_ne
  · exact absurd isSnapshot evmKey_ne
  · exact old

theorem evmMarks_pruneStateSnapshots (db : KeyValues) (tip : Int64) :
    evmMarks (pruneStateSnapshots db tip) = evmMarks db := by
  refine evmMarks_congr fun k => ?_
  rw [mem_pruneStateSnapshots, and_iff_left]
  have others : ∀ p ∈ [accountsDBPrefix, stakingAccountsDBPrefix, dexAccountsDBPrefix,
      stateCommitDBPrefix], evmStateDBPrefix.length = p.length ∧ evmStateDBPrefix ≠ p := by
    decide
  intro p listed h same
  exact absurd same (ne_of_leading (others p listed).1 (others p listed).2)

theorem evmMarks_deleteAccounts (db : KeyValues) (gone : List Int64) :
    evmMarks (deleteAll db (gone.map (snapshotKey accountsDBPrefix))) = evmMarks db := by
  refine evmMarks_congr fun k => ?_
  rw [mem_deleteAll, and_iff_left]
  intro listed
  obtain ⟨h, -, same⟩ := List.mem_map.mp listed
  exact evmKey_ne same.symm

theorem stored_of_prune {tip : Int64}
    (stored : accountsStoredAtHeight (pruneStored (pruneStateSnapshots db tip) tip).1 h = true) :
    accountsStoredAtHeight db h = true ∧ retained tip h = true := by
  rw [accountsStoredAtHeight_iff] at stored ⊢
  obtain ⟨nonneg, inside⟩ := stored
  obtain ⟨old, kept⟩ := (snapshotKey_mem_prune List.mem_cons_self).mp (mem_of_pruneStored inside)
  exact ⟨⟨nonneg, old⟩, kept⟩

/-- What every step keeps: a height with an account snapshot, and every height from the top on,
finds the same EVM snapshot below it in both databases. -/
structure Unseen (db all : KeyValues) (top : Int64) : Prop where
  nonneg : 0 ≤ top.toInt
  small : top.toInt + 4320 < 2 ^ 63
  heights : ∀ n ∈ evmMarks all, 0 ≤ n
  sub : evmMarks db ⊆ evmMarks all
  covers : ∀ h : Int64, accountsStoredAtHeight db h = true ∨ top.toInt ≤ h.toInt →
    Covers (evmMarks db) (evmMarks all) h.toInt

namespace Unseen

theorem storeAccounts (before : Unseen db all top) (marshalled : Bytes) (ahead : top ≤ h)
    (small : h.toInt + 4320 < 2 ^ 63) : Unseen (storeAccounts db h h marshalled) all h := by
  have higher := le_iff.mp ahead
  have nonneg : 0 ≤ h.toInt := before.nonneg.trans higher
  have nonneg' : 0 ≤ h := le_iff.mpr (by rw [toInt_zero]; exact nonneg)
  have marks : evmMarks (Source.storeAccounts db h h marshalled) = evmMarks db :=
    evmMarks_storeAccounts nonneg' marshalled
  refine ⟨nonneg, small, before.heights, marks ▸ before.sub, fun k seen => ?_⟩
  rw [marks]
  rcases seen with stored | above
  · rw [accountsStoredAtHeight_iff, Source.storeAccounts, mem_storeWhole nonneg'] at stored
    obtain ⟨kNonneg, isMeta | same | old⟩ := stored
    · exact absurd isMeta (snapshotKey_ne_meta _ _)
    · rw [snapshotKey_inj.mp same]
      exact before.covers h (.inr higher)
    · exact before.covers k (.inl (accountsStoredAtHeight_iff.mpr ⟨kNonneg, old⟩))
  · exact before.covers k (.inr (higher.trans above))

theorem storeEvm (before : Unseen db all top) (marshalled : Bytes) (nonneg : 0 ≤ h.toInt) :
    Unseen (storeEvm db h marshalled) (storeEvm all h marshalled) top := by
  refine ⟨before.nonneg, before.small, ?_, ?_, fun k seen => ?_⟩
  · rw [evmMarks_storeEvm]
    rintro n (rfl | old)
    · exact nonneg
    · exact before.heights n old
  · rw [evmMarks_storeEvm, evmMarks_storeEvm]
    exact Set.insert_subset_insert before.sub
  · rw [evmMarks_storeEvm, evmMarks_storeEvm]
    refine Covers.insert (before.covers k (seen.imp_left fun stored => ?_)) _
    rw [accountsStoredAtHeight_iff, Source.storeEvm, AList.mem_insert] at stored
    exact accountsStoredAtHeight_iff.mpr
      ⟨stored.1, stored.2.resolve_left fun same => evmKey_ne same.symm⟩

private theorem retained_of_above {tip : Int64} (nonneg : 0 ≤ tip.toInt)
    (above : tip.toInt ≤ h.toInt) : retained tip h = true := by
  have window : Common.snapshotRetentionBlocks.toInt = 4320 := by decide
  have range := toInt_range tip
  have low : tip - Common.snapshotRetentionBlocks ≤ h := by
    rw [le_iff, toInt_sub_of_fits (by omega) (by omega), window]
    omega
  simp [retained, low]

theorem prune (before : Unseen db all top) {tip : Int64} (nonneg : 0 ≤ tip.toInt)
    (below : tip ≤ top) : Unseen (pruneStored (pruneStateSnapshots db tip) tip).1 all top := by
  have lower := le_iff.mp below
  have marks := evmMarks_pruneStateSnapshots db tip
  have sub := evmMarks_pruneStored_subset (pruneStateSnapshots db tip) tip
  rw [marks] at sub
  refine ⟨before.nonneg, before.small, before.heights, sub.trans before.sub, fun k seen => ?_⟩
  have both : retained tip k = true ∧ Covers (evmMarks db) (evmMarks all) k.toInt := by
    rcases seen with stored | above
    · obtain ⟨old, kept⟩ := stored_of_prune stored
      exact ⟨kept, before.covers k (.inl old)⟩
    · exact ⟨retained_of_above nonneg (lower.trans above), before.covers k (.inr above)⟩
  have heights : ∀ n ∈ evmMarks (pruneStateSnapshots db tip), 0 ≤ n := by
    rw [marks]
    exact fun n member => before.heights n (before.sub member)
  have thinned := covers_pruneStored heights nonneg (by have := before.small; omega) both.1
  rw [marks] at thinned
  exact thinned.trans both.2

theorem rewind (before : Unseen db all top) (gone : List Int64) (below : target ≤ top)
    (stored : accountsStoredAtHeight db target = true) :
    Unseen (removeStoredAbove (deleteAll db (gone.map (snapshotKey accountsDBPrefix))) target)
      (removeStoredAbove all target) target := by
  have lower := le_iff.mp below
  have small := before.small
  refine ⟨(accountsStoredAtHeight_iff.mp stored).1, by omega, ?_, ?_, fun k seen => ?_⟩
  · rw [evmMarks_removeStoredAbove]
    exact fun n member => before.heights n member.1
  · rw [evmMarks_removeStoredAbove, evmMarks_removeStoredAbove, evmMarks_deleteAccounts]
    exact Set.inter_subset_inter_left _ before.sub
  · rw [evmMarks_removeStoredAbove, evmMarks_removeStoredAbove, evmMarks_deleteAccounts]
    by_cases above : target.toInt ≤ k.toInt
    · exact (before.covers target (.inl stored)).cut_above above
    · refine (before.covers k (.inl ?_)).cut_below (le_of_not_ge above)
      have still := seen.resolve_right above
      rw [accountsStoredAtHeight_iff, removeStoredAbove, mem_deleteAll, mem_deleteAll] at still
      exact accountsStoredAtHeight_iff.mpr ⟨still.1, still.2.1.1⟩

theorem of_run (run : Run db all top) : Unseen db all top := by
  induction run with
  | start db top heights nonneg small =>
    exact ⟨nonneg, small, heights, subset_refl _, fun h _ => Covers.refl _ _⟩
  | storeAccounts _ h marshalled ahead small ih => exact ih.storeAccounts marshalled ahead small
  | storeEvm _ h marshalled nonneg ih => exact ih.storeEvm marshalled nonneg
  | prune _ tip nonneg below ih => exact ih.prune nonneg below
  | rewind _ target gone below stored ih => exact ih.rewind gone below stored

end Unseen
end Steps

/-- However stores, prunes and rewinds follow each other, at a height with an account snapshot the
pruned database loads the EVM snapshot that the unpruned one does. -/
theorem pruning_unseen {db all : KeyValues} {top h : Int64} (run : Run db all top)
    (stored : accountsStoredAtHeight db h = true) : loadAtOrBelow db h = loadAtOrBelow all h :=
  loadAtOrBelow_congr (Unseen.of_run run).sub ((Unseen.of_run run).covers h (.inl stored))

/-- EVM snapshots at 1, 2 and 3, and the account snapshot of height 680. -/
def threeSnapshots : KeyValues :=
  storeAccounts (storeEvm (storeEvm (storeEvm ∅ 1 []) 2 []) 3 []) 680 680 []

theorem threeSnapshots_heights : ∀ n ∈ evmMarks threeSnapshots, 0 ≤ n := by
  rw [threeSnapshots, evmMarks_storeAccounts (by decide), evmMarks_storeEvm, evmMarks_storeEvm,
    evmMarks_storeEvm]
  rintro n (rfl | rfl | rfl | ⟨h, -, absent⟩)
  · decide
  · decide
  · decide
  · simp at absent

/-- The three snapshots pruned at the tip 5000. -/
theorem pruning_unseen_threeSnapshots :
    let pruned := (pruneStored (pruneStateSnapshots threeSnapshots 5000) 5000).1
    accountsStoredAtHeight pruned 680 = true ∧
      storedSnapshotHeights pruned evmStateDBPrefix ≠
        storedSnapshotHeights threeSnapshots evmStateDBPrefix ∧
      loadAtOrBelow pruned 680 = loadAtOrBelow threeSnapshots 680 :=
  ⟨by decide +kernel, by decide +kernel,
    pruning_unseen (.prune (.start _ 5000 threeSnapshots_heights (by decide) (by decide)) 5000
      (by decide) (by decide)) (by decide +kernel)⟩

/-- After the prune at 5000 a rewind to 2, which has no account snapshot, leaves the EVM of height
1 for the kept height 680; without the prune it is the EVM of height 2. -/
theorem rewind_between_snapshots :
    let pruned := (pruneStored (pruneStateSnapshots threeSnapshots 5000) 5000).1
    retained 5000 680 = true ∧ accountsStoredAtHeight (removeStoredAbove pruned 2) 680 = true ∧
      loadAtOrBelow (removeStoredAbove pruned 2) 680 = 1 ∧
      loadAtOrBelow (removeStoredAbove threeSnapshots 2) 680 = 2 := by
  decide +kernel

end QwidNode.Guarantees.EvmRetention
