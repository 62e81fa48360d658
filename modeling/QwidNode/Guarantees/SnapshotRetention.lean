import QwidNode.Source.Retention

/-!
# State snapshots through pruning

A node stores the state at growing heights, after every block or sync batch, and prunes at growing
tips. `Run` keeps the heights that were stored, the latest first.

* Below the window a snapshot survives only at a multiple of the checkpoint interval. Batches end
  elsewhere, so a synced chain may keep nothing there but genesis, and a rewind falls back all the
  way (`keeps_rewinds_iff`, `sparse_batches_lose_rewinds`).
* Staking snapshots are never pruned, their keys being longer than those the prune lists, so what
  is stored is bounded only while nothing is due (`bounded_iff`, `staking_outlives_the_prune`).
-/
namespace QwidNode.Guarantees.SnapshotRetention
open Source Lib Word List

/-- The database, the heights stored so far with the latest first, and the tip of the last
prune. -/
inductive Run : KeyValues → List Int64 → Int64 → Prop
  | genesis (snapshot : Snapshot) : Run (storeState ∅ 0 snapshot) [0] 0
  | store {db : KeyValues} {last tip : Int64} {stored : List Int64}
      (run : Run db (last :: stored) tip) (h : Int64) (ahead : last < h) (snapshot : Snapshot) :
      Run (storeState db h snapshot) (h :: last :: stored) tip
  | prune {db : KeyValues} {last tip : Int64} {stored : List Int64}
      (run : Run db (last :: stored) tip) (next : Int64) (increasing : tip ≤ next)
      (reached : next ≤ last) : Run (pruneStateSnapshots db next) (last :: stored) next

section Holds
variable {db : KeyValues} {last tip next h k : Int64} {stored : List Int64} {key : Bytes}

structure Holds (db : KeyValues) (stored : List Int64) (tip : Int64) : Prop where
  tipNonneg : 0 ≤ tip.toInt
  genesis : 0 ∈ stored
  nonneg : ∀ h ∈ stored, 0 ≤ h.toInt
  highest : ∃ last, stored.head? = some last ∧ tip.toInt ≤ last.toInt ∧
    ∀ h ∈ stored, h.toInt ≤ last.toInt
  keys : ∀ (c : Component) (h : Int64), ∀ key ∈ c.keysAt h,
    (key ∈ db ↔ h ∈ stored ∧ (c = .staking ∨ retained tip h = true))
  only : ∀ (c : Component) (key : Bytes), c.dbPrefix <+: key → key ∈ db →
    key = storedHeightMetaKey c.dbPrefix ∨ ∃ h ∈ stored, key ∈ c.keysAt h

theorem retained_mono (tipNonneg : 0 ≤ tip.toInt) (increasing : tip.toInt ≤ next.toInt)
    (nonneg : 0 ≤ h.toInt) (kept : retained next h = true) : retained tip h = true := by
  rw [retained_iff (by omega) nonneg] at kept
  rw [retained_iff tipNonneg nonneg]
  omega

theorem retained_ahead (tipNonneg : 0 ≤ tip.toInt) (ahead : tip.toInt ≤ h.toInt) :
    retained tip h = true := by
  rw [retained_iff tipNonneg (by omega)]
  omega

theorem Holds.keys_prune (before : Holds db stored tip) (increasing : tip.toInt ≤ next.toInt)
    {c : Component} (member : key ∈ c.keysAt h) :
    key ∈ pruneStateSnapshots db next ↔
      h ∈ stored ∧ (c = .staking ∨ retained next h = true) := by
  rw [Component.mem_prune member, before.keys c h key member, and_assoc]
  refine and_congr_right fun inside => ⟨And.right, fun kept => ⟨?_, kept⟩⟩
  exact kept.imp_right (retained_mono before.tipNonneg increasing (before.nonneg h inside))

theorem Holds.of_run (run : Run db stored tip) : Holds db stored tip := by
  induction run with
  | genesis snapshot =>
    refine ⟨by decide, by simp, by simp, ⟨0, rfl, by simp, by simp⟩, ?_, ?_⟩
    · intro c h key member
      rw [Component.keysAt_mem_storeState (by decide) member, List.mem_singleton]
      constructor
      · rintro (rfl | absent)
        · exact ⟨rfl, .inr (by decide)⟩
        · simp at absent
      · exact fun both => .inl both.1
    · intro c key starts member
      rcases Component.of_mem_storeState (by decide) starts member with isMeta | isKey | absent
      · exact .inl isMeta
      · exact .inr ⟨0, by simp, isKey⟩
      · simp at absent
  | @store db last tip stored _ h ahead snapshot before =>
    obtain ⟨_, ⟨⟩, reached, highest⟩ := before.highest
    have higher := lt_iff.mp ahead
    have lastNonneg := before.nonneg last List.mem_cons_self
    have nonneg : 0 ≤ h := le_iff.mpr (by rw [toInt_zero]; omega)
    refine ⟨before.tipNonneg, List.mem_cons_of_mem _ before.genesis, ?_, ⟨h, rfl, by omega, ?_⟩,
      ?_, ?_⟩
    · exact List.forall_mem_cons.mpr ⟨by omega, before.nonneg⟩
    · refine List.forall_mem_cons.mpr ⟨le_refl _, fun k inside => ?_⟩
      have := highest k inside
      omega
    · intro c k key member
      rw [Component.keysAt_mem_storeState nonneg member, before.keys c k key member]
      constructor
      · rintro (rfl | old)
        · exact ⟨List.mem_cons_self, .inr (retained_ahead before.tipNonneg (by omega))⟩
        · exact ⟨List.mem_cons_of_mem _ old.1, old.2⟩
      · rintro ⟨inside, kept⟩
        exact (List.mem_cons.mp inside).imp_right fun old => ⟨old, kept⟩
    · intro c key starts member
      rcases Component.of_mem_storeState nonneg starts member with isMeta | isKey | old
      · exact .inl isMeta
      · exact .inr ⟨h, List.mem_cons_self, isKey⟩
      · refine (before.only c key starts old).imp_right fun ⟨k, inside, isKey⟩ => ?_
        exact ⟨k, List.mem_cons_of_mem _ inside, isKey⟩
  | @prune db last tip stored _ next increasing reached before =>
    obtain ⟨_, ⟨⟩, -, highest⟩ := before.highest
    rw [le_iff] at increasing reached
    have tipNonneg := before.tipNonneg
    refine ⟨by omega, before.genesis, before.nonneg, ⟨last, rfl, reached, highest⟩, ?_, ?_⟩
    · exact fun c h key member => before.keys_prune increasing member
    · exact fun c key starts member =>
        before.only c key starts (mem_pruneStateSnapshots.mp member).1

end Holds

section Rewinds
variable {db : KeyValues} {last tip h k : Int64} {stored : List Int64}

def largestGap : List Int64 → Int
  | later :: earlier :: rest =>
    max (later.toInt - earlier.toInt) (largestGap (earlier :: rest))
  | _ => 0

theorem largestGap_nonneg : ∀ heights : List Int64, 0 ≤ largestGap heights
  | [] => le_refl 0
  | [_] => le_refl 0
  | _ :: earlier :: rest => le_max_of_le_right (largestGap_nonneg (earlier :: rest))

/-- At every height up to the last a snapshot is found within the interval and the largest gap,
and `restorableHeight` finds it. -/
def KeepsRewinds (db : KeyValues) (stored : List Int64) : Prop :=
  ∀ last ∈ stored.head?, ∀ h : Int64, 0 ≤ h.toInt → h.toInt ≤ last.toInt →
    (∃ k, accountsStoredAtHeight db k = true ∧ k.toInt ≤ h.toInt ∧
      h.toInt - 8640 - largestGap stored ≤ k.toInt) ∧
    h.toInt - 8640 - largestGap stored ≤ (restorableHeight db h).toInt

/-- In the window below the tip, or at a multiple of the checkpoint interval. -/
def Landing (tip k : Int64) : Prop := tip.toInt - 4320 ≤ k.toInt ∨ 8640 ∣ k.toInt

instance : Decidable (Landing tip k) := inferInstanceAs (Decidable (_ ∨ _))

/-- Above every stored landing height but the last there is a next one within the interval, the
largest gap and one. -/
def Spaced (stored : List Int64) (tip : Int64) : Prop :=
  ∀ k ∈ stored, Landing tip k → stored.head? = some k ∨
    ∃ next ∈ stored, Landing tip next ∧ k.toInt < next.toInt ∧
      next.toInt ≤ k.toInt + 8640 + largestGap stored + 1

theorem restorableFrom_above {n : Nat} (fits : n < 2 ^ 63) (nonneg : 0 ≤ k.toInt)
    (below : k.toInt ≤ n) (accounts : accountsStoredAtHeight db k = true)
    (staking : stakingAccountsStoredAtHeight db k = true) :
    k.toInt ≤ (restorableFrom db n).toInt := by
  induction n with
  | zero =>
    obtain rfl : k = 0 := Int64.toInt_inj.mp (by rw [toInt_zero]; omega)
    rw [restorableFrom, accounts, staking]
    exact le_refl _
  | succ n ih =>
    have value : (Int64.ofNat (n + 1)).toInt = n + 1 := by
      rw [Int64.toInt_ofNat_of_lt fits]
      rfl
    rw [restorableFrom]
    split
    · omega
    · rename_i missing
      refine ih (by omega) ?_
      by_contra above
      obtain rfl : k = Int64.ofNat (n + 1) := Int64.toInt_inj.mp (by push_cast at below; omega)
      exact missing (by rw [accounts, staking]; rfl)

namespace Holds

section
variable (holds : Holds db stored tip)
include holds

theorem accounts_iff : accountsStoredAtHeight db k = true ↔ k ∈ stored ∧ Landing tip k := by
  rw [accountsStoredAtHeight_iff, holds.keys .accounts k _ List.mem_cons_self]
  constructor
  · rintro ⟨nonneg, inside, kept⟩
    exact ⟨inside, (retained_iff holds.tipNonneg nonneg).mp (kept.resolve_left (by decide))⟩
  · rintro ⟨inside, landing⟩
    have nonneg := holds.nonneg k inside
    exact ⟨nonneg, inside, .inr ((retained_iff holds.tipNonneg nonneg).mpr landing)⟩

theorem staking (inside : k ∈ stored) : stakingAccountsStoredAtHeight db k = true := by
  have manifest := (holds.keys .staking k _ List.mem_cons_self).mpr ⟨inside, .inl rfl⟩
  rw [stakingAccountsStoredAtHeight, Bool.and_eq_true, decide_eq_true_eq, le_iff,
    toInt_zero, AList.lookup_isSome]
  exact ⟨holds.nonneg k inside, manifest⟩

theorem restorable (inside : k ∈ stored) (landing : Landing tip k) (below : k.toInt ≤ h.toInt) :
    k.toInt ≤ (restorableHeight db h).toInt := by
  have nonneg := holds.nonneg k inside
  have range := toInt_range h
  have notBelow : ¬ h < 0 := fun negative => by
    rw [lt_iff, toInt_zero] at negative
    omega
  rw [restorableHeight, if_neg notBelow]
  refine restorableFrom_above ?_ nonneg ?_ (holds.accounts_iff.mpr ⟨inside, landing⟩)
    (holds.staking inside)
  · rw [Int64.toNatClampNeg]
    omega
  · rw [Int64.toNatClampNeg]
    omega

theorem exists_highest (nonneg : 0 ≤ h.toInt) :
    ∃ k ∈ stored, Landing tip k ∧ k.toInt ≤ h.toInt ∧
      ∀ j ∈ stored, Landing tip j → j.toInt ≤ h.toInt → j.toInt ≤ k.toInt := by
  let accept : Int64 → Bool := fun k => decide (Landing tip k ∧ k.toInt ≤ h.toInt)
  have accepted : ∀ {k}, accept k = true ↔ Landing tip k ∧ k.toInt ≤ h.toInt := decide_eq_true_iff
  have genesis : accept 0 = true :=
    accepted.mpr ⟨.inr (by rw [toInt_zero]; exact Int.dvd_zero _),
      by rw [toInt_zero]; exact nonneg⟩
  obtain ⟨bound, found⟩ := highestStored_spec stored accept
  rcases found with none | ⟨inside, good, -⟩
  · have low := bound 0 holds.genesis genesis
    rw [none] at low
    exact absurd low (by decide)
  · obtain ⟨landing, below⟩ := accepted.mp good
    exact ⟨_, inside, landing, below,
      fun j member lands low => bound j member (accepted.mpr ⟨lands, low⟩)⟩

theorem keepsRewinds_of_spaced (spaced : Spaced stored tip) : KeepsRewinds db stored := by
  intro last isLast h nonneg below
  obtain ⟨k, inside, landing, low, highest⟩ := holds.exists_highest nonneg
  have gap := largestGap_nonneg stored
  have near : h.toInt - 8640 - largestGap stored ≤ k.toInt := by
    rcases spaced k inside landing with isTop | ⟨next, member, lands, above, close⟩
    · obtain rfl : last = k := Option.some.inj (isLast.symm.trans isTop)
      omega
    · -- the next landing height is above `h`, since `k` is the highest that is not
      by_contra far
      have := highest next member lands (by omega)
      omega
  refine ⟨⟨k, holds.accounts_iff.mpr ⟨inside, landing⟩, low, near⟩, ?_⟩
  have := holds.restorable inside landing low
  omega

theorem spaced_of_keepsRewinds (keeps : KeepsRewinds db stored) : Spaced stored tip := by
  intro k inside landing
  obtain ⟨last, isLast, reached, highest⟩ := holds.highest
  have nonneg := holds.nonneg k inside
  have gap := largestGap_nonneg stored
  have top := highest k inside
  have lastInside : last ∈ stored := mem_of_head? isLast
  by_cases isTop : k = last
  · exact .inl (isTop ▸ isLast)
  have lower : k.toInt < last.toInt :=
    lt_of_le_of_ne top fun same => isTop (Int64.toInt_inj.mp same)
  refine .inr ?_
  by_cases close : last.toInt ≤ k.toInt + 8640 + largestGap stored + 1
  · exact ⟨last, lastInside, .inl (by omega), lower, close⟩
  · -- just too far above `k` another snapshot is found
    have range := toInt_range last
    obtain ⟨h, value⟩ : ∃ h : Int64, h.toInt = k.toInt + 8640 + largestGap stored + 1 :=
      ⟨_, Int64.toInt_ofInt_of_le (by omega) (by omega)⟩
    obtain ⟨next, found, atMost, atLeast⟩ := (keeps last isLast h (by omega) (by omega)).1
    obtain ⟨member, lands⟩ := holds.accounts_iff.mp found
    exact ⟨next, member, lands, by omega, by omega⟩

end

end Holds
end Rewinds

/-- After every prune of every history: rewinds stay within the interval and the largest gap just
when the stored heights that retention keeps are spaced so. -/
theorem keeps_rewinds_iff {db : KeyValues} {stored : List Int64} {tip : Int64}
    (run : Run db stored tip) : KeepsRewinds db stored ↔ Spaced stored tip :=
  ⟨(Holds.of_run run).spaced_of_keepsRewinds, (Holds.of_run run).keepsRewinds_of_spaced⟩

def blank : Snapshot := ⟨[], fun _ => [], [], []⟩

/-- Genesis and three stores, the second of them at the checkpoint 8640; the prune at the end drops
the snapshot of height 8000. -/
theorem keeps_rewinds_checkpoint :
    ∃ db, Run db [17000, 8640, 8000, 0] 17000 ∧ accountsStoredAtHeight db 8000 = false ∧
      KeepsRewinds db [17000, 8640, 8000, 0] := by
  have run := Run.prune (.store (.store (.store (.genesis blank) 8000 (by decide) blank) 8640
    (by decide) blank) 17000 (by decide) blank) 17000 (by decide) (by decide)
  have dropped : ¬ Landing 17000 8000 := by decide
  refine ⟨_, run, ?_, (keeps_rewinds_iff run).mpr ?_⟩
  · rw [← Bool.not_eq_true, (Holds.of_run run).accounts_iff]
    exact fun stored => dropped stored.2
  · intro k inside landing
    simp only [List.mem_cons, not_mem_nil, or_false] at inside
    rcases inside with rfl | rfl | rfl | rfl
    · exact .inl rfl
    · exact .inr ⟨17000, by decide, by decide, by decide, by decide⟩
    · exact absurd landing dropped
    · exact .inr ⟨8640, by decide, by decide, by decide, by decide⟩

/-- The ends of sync batches: a first one of 7 blocks, then batches of 20. -/
def batchEnds : Nat → List Int64
  | 0 => [0]
  | n + 1 => Int64.ofNat (20 * n + 7) :: batchEnds n

theorem batchEnds_run (n : Nat) (few : n ≤ 700) : ∃ db, Run db (batchEnds n) 0 := by
  induction n with
  | zero => exact ⟨_, .genesis blank⟩
  | succ n ih =>
    obtain ⟨db, run⟩ := ih (by omega)
    cases n with
    | zero => exact ⟨_, run.store _ (by decide) blank⟩
    | succ n =>
      refine ⟨_, run.store _ ?_ blank⟩
      have size (i : Nat) (small : i < 2 ^ 63) : (Int64.ofNat i).toInt = i := by
        have wrapped : (Int64.ofNat i).toInt = (i : Int).bmod (2 ^ 64) := Int64.toInt_ofNat'
        rw [wrapped]
        exact Int.bmod_eq_of_le (by omega) (by omega)
      rw [lt_iff, size _ (by omega), size _ (by omega)]
      omega

/-- Batches of 20 blocks that miss the checkpoints: after the prune at 13987 nothing is left
between genesis and the window. -/
theorem sparse_batches_lose_rewinds :
    ∃ db, Run db (batchEnds 700) 13987 ∧ ¬ KeepsRewinds db (batchEnds 700) := by
  obtain ⟨db, stored⟩ := batchEnds_run 700 (by omega)
  have run := stored.prune 13987 (by decide) (by decide)
  refine ⟨_, run, fun keeps => ?_⟩
  have spaced := (Holds.of_run run).spaced_of_keepsRewinds keeps 0 (by decide +kernel) (by decide)
  revert spaced
  decide +kernel

def keysPerHeight : Component → Nat
  | .accounts => 1
  | .staking => 257
  | .dex => 1

/-- Every key of every component belongs to a height that retention keeps, their number is
bounded by the interval and the window, and the components are there at the same heights. -/
structure Bounded (db : KeyValues) (tip : Int64) : Prop where
  only : ∀ (c : Component), ∀ key ∈ loadAllKeys db c.dbPrefix,
    key = storedHeightMetaKey c.dbPrefix ∨ ∃ h, retained tip h = true ∧ key ∈ c.keysAt h
  count : ∀ c : Component, ((loadAllKeys db c.dbPrefix).length : Int) ≤
    1 + keysPerHeight c * (tip.toInt / 8640 + 4322)
  same : ∀ (c c' : Component) (h : Int64),
    (∃ key ∈ c.keysAt h, key ∈ db) ↔ ∃ key ∈ c'.keysAt h, key ∈ db

section Amount
variable {db : KeyValues} {last prev tip h : Int64} {stored : List Int64} {c : Component}

theorem keysAt_length (c : Component) (h : Int64) : (c.keysAt h).length = keysPerHeight c := by
  cases c <;> simp [Component.keysAt, keysPerHeight]

def landingHeights (tip : Int64) : List Int64 :=
  ((List.range (tip.toInt / 8640 + 1).toNat).map fun m => Int64.ofNat (8640 * m)) ++
    (List.range 4321).map fun i => tip - Int64.ofNat i

theorem mem_landingHeights (tipNonneg : 0 ≤ tip.toInt) (nonneg : 0 ≤ h.toInt)
    (below : h.toInt ≤ tip.toInt) (kept : retained tip h = true) : h ∈ landingHeights tip := by
  have range := toInt_range tip
  rw [landingHeights, mem_append, List.mem_map, List.mem_map]
  rcases (retained_iff tipNonneg nonneg).mp kept with inWindow | multiple
  · refine .inr ⟨(tip.toInt - h.toInt).toNat, List.mem_range.mpr (by omega), ?_⟩
    have value := Int64.toInt_ofNat_of_lt (n := (tip.toInt - h.toInt).toNat) (by omega)
    apply Int64.toInt_inj.mp
    rw [toInt_sub_of_fits (by omega) (by omega), value]
    omega
  · refine .inl ⟨(h.toInt / 8640).toNat, List.mem_range.mpr (by omega), ?_⟩
    apply Int64.toInt_inj.mp
    rw [Int64.toInt_ofNat_of_lt (by omega)]
    omega

theorem count_of_only (tipNonneg : 0 ≤ tip.toInt)
    (only : ∀ key ∈ loadAllKeys db c.dbPrefix, key = storedHeightMetaKey c.dbPrefix ∨
      ∃ h, 0 ≤ h.toInt ∧ h.toInt ≤ tip.toInt ∧ retained tip h = true ∧ key ∈ c.keysAt h) :
    ((loadAllKeys db c.dbPrefix).length : Int) ≤
      1 + keysPerHeight c * (tip.toInt / 8640 + 4322) := by
  have covered : loadAllKeys db c.dbPrefix ⊆
      storedHeightMetaKey c.dbPrefix :: (landingHeights tip).flatMap c.keysAt := by
    intro key member
    rcases only key member with rfl | ⟨h, nonneg, below, kept, isKey⟩
    · exact List.mem_cons_self
    · exact List.mem_cons_of_mem _ (List.mem_flatMap.mpr
        ⟨h, mem_landingHeights tipNonneg nonneg below kept, isKey⟩)
  have nodup : (loadAllKeys db c.dbPrefix).Nodup := db.keys_nodup.filter _
  have most := (subperm_of_subset nodup covered).length_le
  have heights : (landingHeights tip).length = (tip.toInt / 8640 + 4322).toNat := by
    rw [landingHeights, length_append, length_map, length_range, length_map,
      length_range]
    omega
  have total : ((landingHeights tip).flatMap c.keysAt).length =
      (tip.toInt / 8640 + 4322).toNat * keysPerHeight c := by
    rw [length_flatMap, map_congr_left fun h _ => keysAt_length c h, List.map_const',
      sum_replicate_nat, heights]
  rw [length_cons, total] at most
  have positive : ((tip.toInt / 8640 + 4322).toNat : Int) = tip.toInt / 8640 + 4322 := by omega
  calc ((loadAllKeys db c.dbPrefix).length : Int)
      ≤ ((tip.toInt / 8640 + 4322).toNat * keysPerHeight c + 1 : Nat) := Int.ofNat_le.mpr most
    _ = 1 + keysPerHeight c * (tip.toInt / 8640 + 4322) := by
      push_cast
      rw [positive, Int.mul_comm, Int.add_comm]

section
variable (holds : Holds db (last :: stored) prev)
include holds

section
variable (reached : last.toInt ≤ tip.toInt)
include reached

theorem Holds.only_prune {key : Bytes}
    (member : key ∈ loadAllKeys (pruneStateSnapshots db tip) c.dbPrefix) :
    key = storedHeightMetaKey c.dbPrefix ∨ ∃ h ∈ last :: stored, 0 ≤ h.toInt ∧
      h.toInt ≤ tip.toInt ∧ (c = .staking ∨ retained tip h = true) ∧ key ∈ c.keysAt h := by
  obtain ⟨_, ⟨⟩, low, highest⟩ := holds.highest
  obtain ⟨inside, starts⟩ := mem_loadAllKeys.mp member
  rcases holds.only c key starts (mem_pruneStateSnapshots.mp inside).1 with isMeta | ⟨h, old, isKey⟩
  · exact .inl isMeta
  · have kept := ((holds.keys_prune (low.trans reached) isKey).mp inside).2
    exact .inr ⟨h, old, holds.nonneg h old, (highest h old).trans reached, kept, isKey⟩

theorem Holds.count_prune (whole : c ≠ .staking) :
    ((loadAllKeys (pruneStateSnapshots db tip) c.dbPrefix).length : Int) ≤
      1 + keysPerHeight c * (tip.toInt / 8640 + 4322) := by
  have nonneg := holds.nonneg last List.mem_cons_self
  refine count_of_only (by omega) fun key member => ?_
  refine (holds.only_prune reached member).imp_right fun ⟨h, _, low, high, kept, isKey⟩ => ?_
  exact ⟨h, low, high, kept.resolve_left whole, isKey⟩

theorem Holds.bounded_of_kept (kept : ∀ h ∈ last :: stored, retained tip h = true) :
    Bounded (pruneStateSnapshots db tip) tip := by
  obtain ⟨_, ⟨⟩, low, -⟩ := holds.highest
  have nonneg := holds.nonneg last List.mem_cons_self
  have present : ∀ (c : Component) (h : Int64),
      (∃ key ∈ c.keysAt h, key ∈ pruneStateSnapshots db tip) ↔ h ∈ last :: stored := by
    intro c h
    constructor
    · rintro ⟨key, isKey, inside⟩
      exact ((holds.keys_prune (low.trans reached) isKey).mp inside).1
    · intro old
      have some : 0 < (c.keysAt h).length := by
        rw [keysAt_length]
        cases c <;> decide
      refine ⟨(c.keysAt h).get ⟨0, some⟩, List.get_mem _ _, ?_⟩
      exact (holds.keys_prune (low.trans reached) (List.get_mem _ _)).mpr ⟨old, .inr (kept h old)⟩
  refine ⟨fun c key member => ?_, fun c => ?_, fun c c' h => (present c h).trans (present c' h).symm⟩
  · refine (holds.only_prune reached member).imp_right fun ⟨h, old, _, _, _, isKey⟩ => ?_
    exact ⟨h, kept h old, isKey⟩
  · refine count_of_only (by omega) fun key member => ?_
    refine (holds.only_prune reached member).imp_right fun ⟨h, old, low, high, _, isKey⟩ => ?_
    exact ⟨h, low, high, kept h old, isKey⟩

theorem Holds.kept_of_bounded (bounded : Bounded (pruneStateSnapshots db tip) tip)
    (old : h ∈ last :: stored) : retained tip h = true := by
  obtain ⟨_, ⟨⟩, low, -⟩ := holds.highest
  have manifest : stakingCheckpointManifestKey h ∈ Component.keysAt .staking h :=
    List.mem_cons_self
  have inside := (holds.keys_prune (low.trans reached) manifest).mpr ⟨old, .inl rfl⟩
  obtain ⟨key, isKey, present⟩ := (bounded.same .staking .accounts h).mp ⟨_, manifest, inside⟩
  have kept := ((holds.keys_prune (low.trans reached) isKey).mp present).2
  exact kept.resolve_left (by decide)

end

end

end Amount

/-- After per-block stores up to `last` and a prune at a tip from there on: the snapshots are
bounded just when there is only genesis or the tip is at most one above the window. -/
theorem bounded_iff {db : KeyValues} {last prev tip : Int64} {stored : List Int64}
    (run : Run db (last :: stored) prev)
    (perBlock : ∀ h : Int64, 0 ≤ h.toInt → h.toInt ≤ last.toInt → h ∈ last :: stored)
    (reached : last ≤ tip) :
    Bounded (pruneStateSnapshots db tip) tip ↔ last = 0 ∨ tip.toInt ≤ 4321 := by
  have holds := Holds.of_run run
  have nonneg := holds.nonneg last List.mem_cons_self
  rw [le_iff] at reached
  obtain ⟨_, ⟨⟩, -, highest⟩ := holds.highest
  constructor
  · intro bounded
    by_cases genesis : last = 0
    · exact .inl genesis
    · -- the first block is stored, so retention must keep it
      have one := toInt_one
      have positive : last.toInt ≠ 0 := fun zero =>
        genesis (Int64.toInt_inj.mp (by rw [zero, toInt_zero]))
      have kept := holds.kept_of_bounded reached bounded (perBlock 1 (by omega) (by omega))
      rw [retained_iff (by omega) (by omega), one] at kept
      exact .inr (by omega)
  · intro small
    refine holds.bounded_of_kept reached fun h old => ?_
    have low := holds.nonneg h old
    have high := highest h old
    rw [retained_iff (by omega) low]
    rcases small with rfl | early
    · rw [toInt_zero] at high
      exact .inr (by omega)
    · by_cases zero : h.toInt = 0
      · exact .inr (by omega)
      · exact .inl (by omega)

def perBlock (snapshot : Snapshot) : Nat → KeyValues
  | 0 => storeState ∅ 0 snapshot
  | n + 1 => storeState (perBlock snapshot n) (Int64.ofNat (n + 1)) snapshot

theorem perBlock_run (snapshot : Snapshot) {n : Nat} (fits : n < 2 ^ 63) :
    ∃ stored, Run (perBlock snapshot n) (Int64.ofNat n :: stored) 0 ∧
      ∀ h : Int64, 0 ≤ h.toInt → h.toInt ≤ n → h ∈ Int64.ofNat n :: stored := by
  induction n with
  | zero =>
    refine ⟨[], .genesis snapshot, fun h nonneg below => List.mem_singleton.mpr ?_⟩
    exact Int64.toInt_inj.mp (by rw [show Int64.ofNat 0 = 0 from rfl, toInt_zero]; omega)
  | succ n ih =>
    obtain ⟨stored, run, all⟩ := ih (by omega)
    have value := Int64.toInt_ofNat_of_lt (n := n) (by omega)
    have value' := Int64.toInt_ofNat_of_lt (n := n + 1) fits
    refine ⟨_, .store run _ (lt_iff.mpr (by omega)) snapshot, fun h nonneg below => ?_⟩
    by_cases new : h.toInt = n + 1
    · exact List.mem_cons.mpr (.inl (Int64.toInt_inj.mp (by omega)))
    · exact List.mem_cons_of_mem _ (all h nonneg (by push_cast at below; omega))

/-- One block after genesis, pruned at its own height. -/
theorem bounded_first_block : Bounded (pruneStateSnapshots (perBlock blank 1) 1) 1 := by
  obtain ⟨stored, run, all⟩ := perBlock_run blank (n := 1) (by decide)
  exact (bounded_iff run all (by decide)).mpr (.inr (by decide))

/-- With 4322 blocks after genesis the prune at the tip drops the first block's account snapshot
and leaves its staking snapshot. -/
theorem staking_outlives_the_prune :
    ¬ Bounded (pruneStateSnapshots (perBlock blank 4322) 4322) 4322 := by
  obtain ⟨stored, run, all⟩ := perBlock_run blank (n := 4322) (by decide)
  intro bounded
  have kept := (Holds.of_run run).kept_of_bounded (by decide) bounded (all 1 (by decide) (by decide))
  revert kept
  decide

/-- In every history, a prune at or above the last stored height leaves boundedly many keys of
accounts and of DEX. -/
theorem accounts_and_dex_bounded {db : KeyValues} {last prev tip : Int64} {stored : List Int64}
    {c : Component} (run : Run db (last :: stored) prev) (reached : last ≤ tip)
    (whole : c ≠ .staking) :
    ((loadAllKeys (pruneStateSnapshots db tip) c.dbPrefix).length : Int) ≤
      1 + keysPerHeight c * (tip.toInt / 8640 + 4322) :=
  (Holds.of_run run).count_prune (le_iff.mp reached) whole

theorem dex_bounded : ((loadAllKeys (pruneStateSnapshots (perBlock blank 4322) 4322)
    Component.dex.dbPrefix).length : Int) ≤ 1 + keysPerHeight .dex * 4322 := by
  obtain ⟨stored, run, -⟩ := perBlock_run blank (n := 4322) (by decide)
  exact accounts_and_dex_bounded run (by decide) (by decide)

end QwidNode.Guarantees.SnapshotRetention
