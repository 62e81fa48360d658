import QwidNode.Guarantees.StakingEntries

/-!
# The details of a staking entry

Source: `account/stakeAccount.go:34-82` and `:123-347`. Every staking call appends a detail under
its height, and `pruneStakingDetails` then folds the details older than the retention window into
the aggregate under key 0.
-/
namespace QwidNode.Guarantees.StakingDetails
open Lib FinMap Source Word
variable {f : StakingDetail → Int64}

/-- The sum of one field over all stored details, in the arithmetic of the code. -/
def total (f : StakingDetail → Int64) (acc : StakingAccount) : Int64 :=
  (values acc.stakingDetails).flatten.foldl (fun sum d => sum + f d) 0

structure AddUp (acc : StakingAccount) : Prop where
  amount : total (·.amount) acc = acc.stakedBalance
  reward : total (·.reward) acc = acc.stakingRewards

def exact (f : StakingDetail → Int64) (ds : List StakingDetail) : Int :=
  (ds.map fun d => (f d).toInt).sum

structure Folds (f : StakingDetail → Int64) : Prop where
  zero : f ⟨0, 0, 0⟩ = 0
  fold : ∀ agg d, f agg + f d = f (StakingDetail.fold agg d)

theorem foldsAmount : Folds (·.amount) := ⟨rfl, fun _ _ => rfl⟩

theorem foldsReward : Folds (·.reward) := ⟨rfl, fun _ _ => rfl⟩

theorem toInt_sum (f : StakingDetail → Int64) (ds : List StakingDetail) :
    (ds.foldl (fun sum d => sum + f d) 0).toInt = (exact f ds).bmod (2 ^ 64) := by
  have sum := toInt_foldl_add f (fun d => (f d).toInt) ds 0 fun d => by
    have range := toInt_range (f d)
    rw [Int.bmod_eq_of_le (by omega) (by omega)]
  rw [sum, toInt_zero, Int.zero_add]
  rfl

theorem toInt_total (f : StakingDetail → Int64) (acc : StakingAccount) :
    (total f acc).toInt = (sumOf (exact f) acc.stakingDetails).bmod (2 ^ 64) := by
  rw [total, toInt_sum, exact, List.map_flatten, List.sum_flatten, List.map_map]
  rfl

theorem toInt_aggregate (folds : Folds f) (ds : List StakingDetail) :
    (f (ds.foldl StakingDetail.fold ⟨0, 0, 0⟩)).toInt = (exact f ds).bmod (2 ^ 64) := by
  have sums : ds.foldl (fun sum d => sum + f d) (f ⟨0, 0, 0⟩) =
      f (ds.foldl StakingDetail.fold ⟨0, 0, 0⟩) := List.foldl_hom f folds.fold
  rw [← sums, folds.zero, toInt_sum]

theorem valueAt_exact (m : FinMap Int64 (List StakingDetail)) (k : Int64) :
    valueAt (exact f) m k = exact f ((m.lookup k).getD []) := by
  unfold valueAt
  cases m.lookup k <;> rfl

theorem exact_append (ds es : List StakingDetail) : exact f (ds ++ es) = exact f ds + exact f es := by
  simp [exact]

theorem prune_kept (acc : StakingAccount) (height : Int64) {k : Int64}
    (kept : height - Common.stakingDetailsRetentionBlocks ≤ k) :
    (acc.pruneStakingDetails height).stakingDetails.lookup k = acc.stakingDetails.lookup k := by
  unfold StakingAccount.pruneStakingDetails
  dsimp only
  split
  · rfl
  next positive =>
  split
  · rfl
  have nonzero : k ≠ 0 := fun zero => positive (zero ▸ kept)
  rw [AList.lookup_insert_ne nonzero, lookup_eraseAll]
  intro inside
  obtain ⟨e, stored, rfl⟩ := List.mem_map.mp inside
  have below : e.1 < height - Common.stakingDetailsRetentionBlocks := by
    have old := (List.mem_filter.mp stored).2
    simp only [Bool.and_eq_true, decide_eq_true_eq] at old
    exact old.2
  exact Int64.not_le.mpr below kept

noncomputable instance int64Fintype : Fintype Int64 :=
  Fintype.ofInjective (fun k : Int64 => k.toBitVec.toFin) fun _ _ same =>
    Int64.toBitVec_inj.mp (BitVec.toFin_inj.mp same)

noncomputable def before (f : StakingDetail → Int64) (m : FinMap Int64 (List StakingDetail))
    (c : Int) : Int := ∑ k : Int64, if k.toInt < c then valueAt (exact f) m k else 0

theorem before_top (m : FinMap Int64 (List StakingDetail)) :
    before f m (2 ^ 63) = sumOf (exact f) m := by
  rw [sumOf_eq_sum (exact f) m fun k _ => Finset.mem_univ k]
  refine Finset.sum_congr rfl fun k _ => if_pos ?_
  have range := toInt_range k
  omega

theorem prune_before (folds : Folds f) (acc : StakingAccount) (height : Int64) :
    acc.pruneStakingDetails height = acc ∨ ∃ cutoff : Int64, 0 < cutoff.toInt ∧
      ∀ k, valueAt (exact f) (acc.pruneStakingDetails height).stakingDetails k =
        if k = 0 then (before f acc.stakingDetails cutoff.toInt).bmod (2 ^ 64)
        else if k.toInt < cutoff.toInt then 0 else valueAt (exact f) acc.stakingDetails k := by
  unfold StakingAccount.pruneStakingDetails
  dsimp only
  split
  · exact .inl rfl
  next positive =>
  split
  · exact .inl rfl
  rw [Int64.not_le, lt_iff, toInt_zero] at positive
  refine .inr ⟨_, positive, fun k => ?_⟩
  generalize height - Common.stakingDetailsRetentionBlocks = cutoff at positive ⊢
  generalize same : acc.stakingDetails.entries.filter _ = old
  have distinct : old.NodupKeys := same ▸ .sublist List.filter_sublist acc.stakingDetails.nodupKeys
  have stored : ∀ e ∈ old, acc.stakingDetails.lookup e.1 = some e.2 := by
    intro e inside
    rw [← same, List.mem_filter] at inside
    exact List.mem_dlookup acc.stakingDetails.nodupKeys inside.1
  have erased : ∀ k, valueAt (exact f) (old.foldl (fun m e => m.erase e.1) acc.stakingDetails) k =
      if k ≠ 0 ∧ k.toInt < cutoff.toInt then 0 else valueAt (exact f) acc.stakingDetails k := by
    intro k
    by_cases gone : k ∈ old.keys
    · obtain ⟨e, inside, rfl⟩ := List.mem_map.mp gone
      rw [← same, List.mem_filter] at inside
      have early : e.1 ≠ 0 ∧ e.1.toInt < cutoff.toInt := by simpa [lt_iff] using inside.2
      rw [valueAt_of_none (lookup_eraseAll_of_mem gone), if_pos early]
    · rw [valueAt, lookup_eraseAll gone, ← valueAt]
      split
      · next early =>
        refine valueAt_of_none ?_
        cases found : acc.stakingDetails.lookup k with
        | none => rfl
        | some ds =>
          have inside : (⟨k, ds⟩ : Sigma fun _ : Int64 => List StakingDetail) ∈ old := by
            rw [← same, List.mem_filter]
            exact ⟨AList.mem_lookup_iff.mp found, by simpa [lt_iff] using early⟩
          exact absurd (List.mem_keys_of_mem inside) gone
      · rfl
  by_cases zero : k = 0
  · -- what was erased and what stood under key 0 is what was stored before the cutoff
    have moved : exact f (old.flatMap (·.2)) = (old.map fun e => exact f e.2).sum := by
      simp [exact, List.flatMap, List.sum_flatten, List.map_map, Function.comp_def]
    have aggregate := toInt_aggregate folds
      ((acc.stakingDetails.lookup 0).getD [] ++ old.flatMap (·.2))
    rw [List.foldl_append, List.foldl_flatMap, exact_append, ← valueAt_exact, moved] at aggregate
    have left := sumOf_eraseAll (exact f) distinct stored
    rw [sumOf_eq_sum _ _ fun k _ => Finset.mem_univ k,
      sumOf_eq_sum _ acc.stakingDetails fun k _ => Finset.mem_univ k] at left
    have parts : before f acc.stakingDetails cutoff.toInt =
        valueAt (exact f) acc.stakingDetails 0 + (old.map fun e => exact f e.2).sum := by
      have difference : (old.map fun e => exact f e.2).sum = ∑ k : Int64,
          (valueAt (exact f) acc.stakingDetails k -
            valueAt (exact f) (old.foldl (fun m e => m.erase e.1) acc.stakingDetails) k) := by
        rw [Finset.sum_sub_distrib]
        omega
      have own : valueAt (exact f) acc.stakingDetails 0 =
          ∑ k : Int64, if k = 0 then valueAt (exact f) acc.stakingDetails k else 0 := by simp
      rw [difference, own, ← Finset.sum_add_distrib]
      refine Finset.sum_congr rfl fun k _ => ?_
      rw [erased]
      by_cases zero : k = 0
      · subst zero
        simp [positive]
      · by_cases early : k.toInt < cutoff.toInt <;> simp [zero, early]
    rw [if_pos zero, zero, valueAt_of_lookup (AList.lookup_insert _), parts, ← aggregate]
    simp [exact]
  · rw [if_neg zero, valueAt, AList.lookup_insert_ne zero, ← valueAt, erased]
    simp [zero]

theorem prune_total (folds : Folds f) (acc : StakingAccount) (height : Int64) :
    total f (acc.pruneStakingDetails height) = total f acc := by
  rcases prune_before folds acc height with same | ⟨cutoff, positive, values⟩
  · rw [same]
  generalize stored : before f acc.stakingDetails cutoff.toInt = early at values
  have moved : sumOf (exact f) (acc.pruneStakingDetails height).stakingDetails =
      sumOf (exact f) acc.stakingDetails - early + early.bmod (2 ^ 64) := by
    have own : early.bmod (2 ^ 64) = ∑ k : Int64, if k = 0 then early.bmod (2 ^ 64) else 0 := by simp
    rw [sumOf_eq_sum _ acc.stakingDetails fun k _ => Finset.mem_univ k, own, ← stored, before,
      ← Finset.sum_sub_distrib, ← Finset.sum_add_distrib, ← before, stored,
      sumOf_eq_sum _ _ fun k _ => Finset.mem_univ k]
    refine Finset.sum_congr rfl fun k _ => ?_
    rw [values]
    by_cases zero : k = 0
    · subst zero
      simp [positive]
    · by_cases low : k.toInt < cutoff.toInt <;> simp [zero, low]
  rw [← Int64.toInt_inj, toInt_total, toInt_total, moved, Int.add_bmod_bmod, Int.sub_add_cancel]

/-- What was stored before any height fits a word and is not negative, all of it is the balance,
and nothing is stored above the last height. -/
structure Exactly (f : StakingDetail → Int64) (m : FinMap Int64 (List StakingDetail))
    (balance : Int64) (height : Int) : Prop where
  fits : ∀ c, 0 < c → 0 ≤ before f m c ∧ before f m c < 2 ^ 63
  all : sumOf (exact f) m = balance.toInt
  past : ∀ k : Int64, height < k.toInt → valueAt (exact f) m k = 0

theorem Exactly.after {m : FinMap Int64 (List StakingDetail)} {balance : Int64} {height c : Int}
    (state : Exactly f m balance height) (above : height < c) : before f m c = balance.toInt := by
  rw [← state.all, ← before_top]
  refine Finset.sum_congr rfl fun k _ => ?_
  have range := toInt_range k
  rw [if_pos (by omega : k.toInt < 2 ^ 63)]
  split
  · rfl
  · next late => exact (state.past k (by omega)).symm

theorem Exactly.append {m : FinMap Int64 (List StakingDetail)} {balance balance' height : Int64}
    {last : Int} {d : StakingDetail} (state : Exactly f m balance last) (later : last ≤ height.toInt)
    (sum : balance'.toInt = balance.toInt + (f d).toInt) (nonneg : 0 ≤ balance'.toInt) :
    Exactly f (m.insert height ((m.lookup height).getD [] ++ [d])) balance' height.toInt := by
  have values : ∀ k, valueAt (exact f) (m.insert height ((m.lookup height).getD [] ++ [d])) k =
      valueAt (exact f) m k + if k = height then (f d).toInt else 0 := by
    intro k
    by_cases here : k = height
    · subst here
      rw [valueAt_of_lookup (AList.lookup_insert _), exact_append, ← valueAt_exact, if_pos rfl]
      simp [exact]
    · rw [if_neg here, Int.add_zero, valueAt, AList.lookup_insert_ne here, ← valueAt]
  have grown : ∀ c, before f (m.insert height ((m.lookup height).getD [] ++ [d])) c =
      before f m c + if height.toInt < c then (f d).toInt else 0 := by
    intro c
    have own : (if height.toInt < c then (f d).toInt else 0) =
        ∑ k : Int64, if k = height then (if height.toInt < c then (f d).toInt else 0) else 0 := by
      simp
    rw [before, before, own, ← Finset.sum_add_distrib]
    refine Finset.sum_congr rfl fun k _ => ?_
    rw [values]
    by_cases here : k = height
    · subst here
      by_cases low : k.toInt < c <;> simp [low]
    · by_cases low : k.toInt < c <;> simp [low, here]
  have range := toInt_range balance'
  have top := toInt_range height
  refine ⟨fun c positive => ?_, ?_, fun k above => ?_⟩
  · rw [grown]
    split
    · next high =>
      rw [state.after (by omega)]
      omega
    · rw [Int.add_zero]
      exact state.fits c positive
  · rw [← before_top, grown, before_top, state.all, if_pos (by omega)]
    omega
  · have other : k ≠ height := fun same => absurd above (by rw [same]; omega)
    rw [values, if_neg other, Int.add_zero]
    exact state.past k (by omega)

theorem Exactly.prune {acc : StakingAccount} {balance : Int64} {last : Int} (folds : Folds f)
    (state : Exactly f acc.stakingDetails balance last) (nonneg : 0 ≤ last) (height : Int64) :
    Exactly f (acc.pruneStakingDetails height).stakingDetails balance last := by
  rcases prune_before folds acc height with same | ⟨cutoff, positive, values⟩
  · rwa [same]
  obtain ⟨low, high⟩ := state.fits cutoff.toInt positive
  rw [Int.bmod_eq_of_le (by omega) (by omega)] at values
  have moved : ∀ c, 0 < c → before f (acc.pruneStakingDetails height).stakingDetails c =
      before f acc.stakingDetails (max c cutoff.toInt) := by
    intro c above
    have own : before f acc.stakingDetails cutoff.toInt = ∑ k : Int64,
        if k = 0 then before f acc.stakingDetails cutoff.toInt else 0 := by simp
    have split' : before f acc.stakingDetails (max c cutoff.toInt) =
        before f acc.stakingDetails cutoff.toInt + ∑ k : Int64,
          if cutoff.toInt ≤ k.toInt ∧ k.toInt < c then
            valueAt (exact f) acc.stakingDetails k else 0 := by
      rw [before, before, ← Finset.sum_add_distrib]
      refine Finset.sum_congr rfl fun k _ => ?_
      by_cases early : k.toInt < cutoff.toInt
      · rw [if_pos (lt_max_of_lt_right early), if_pos early, if_neg (by omega), Int.add_zero]
      · rw [if_neg early, Int.zero_add]
        by_cases low : k.toInt < c
        · rw [if_pos (lt_max_of_lt_left low), if_pos ⟨by omega, low⟩]
        · rw [if_neg (by omega), if_neg (by omega)]
    rw [split', own, ← Finset.sum_add_distrib, before]
    refine Finset.sum_congr rfl fun k _ => ?_
    rw [values]
    by_cases zero : k = 0
    · subst zero
      rw [if_pos rfl, if_pos rfl, if_pos (by rw [toInt_zero]; exact above),
        if_neg (by rw [toInt_zero]; omega), Int.add_zero]
    · rw [if_neg zero, if_neg zero, Int.zero_add]
      by_cases early : k.toInt < cutoff.toInt
      · rw [if_pos early, if_neg (by omega : ¬ (cutoff.toInt ≤ k.toInt ∧ k.toInt < c)), ite_self]
      · rw [if_neg early]
        by_cases low : k.toInt < c
        · rw [if_pos low, if_pos ⟨by omega, low⟩]
        · rw [if_neg low, if_neg (by omega)]
  have top := toInt_range cutoff
  refine ⟨fun c above => ?_, ?_, fun k above => ?_⟩
  · rw [moved c above]
    exact state.fits _ (lt_max_of_lt_left above)
  · rw [← before_top, moved _ (by decide), max_eq_left (by omega), before_top, state.all]
  · have other : k ≠ 0 := fun zero => absurd above (by rw [zero, toInt_zero]; omega)
    rw [values, if_neg other, state.past k above, ite_self]

/-- The details in the retention window stay as they are; one may be appended under `height`. -/
def Kept (height : Int64) (old new : StakingAccount) : Prop :=
  ∀ k, height - Common.stakingDetailsRetentionBlocks ≤ k →
    (k ≠ height → new.stakingDetails.lookup k = old.stakingDetails.lookup k) ∧
    (old.stakingDetails.lookup k).getD [] <+: (new.stakingDetails.lookup k).getD []

theorem addDetail_spec {e old new : StakingAccount} {height : Int64} {d : StakingDetail}
    (added : new.stakingDetails = (e.addDetail height d).stakingDetails)
    (same : e.stakingDetails = old.stakingDetails) :
    (∀ f, Folds f → total f new = total f old + f d) ∧ Kept height old new := by
  let appended := old.stakingDetails.insert height
    ((old.stakingDetails.lookup height).getD [] ++ [d])
  have sums := fun f (folds : Folds f) => prune_total folds { e with stakingDetails := appended } height
  unfold StakingAccount.addDetail at added
  rw [same] at added
  constructor
  · intro f folds
    have pruned : total f new = _ :=
      (congrArg (fun m => (values m).flatten.foldl _ 0) added).trans (sums f folds)
    rw [pruned, ← Int64.toInt_inj, Int64.toInt_add, toInt_total, toInt_total, sumOf_insert,
      valueAt_exact, exact_append, Int.bmod_add_bmod]
    congr 1
    simp only [exact, List.map_cons, List.map_nil, List.sum_singleton]
    omega
  · intro k inside
    rw [added, prune_kept _ _ inside]
    by_cases here : k = height
    · subst here
      rw [AList.lookup_insert]
      exact ⟨fun other => absurd rfl other, List.prefix_append _ _⟩
    · rw [AList.lookup_insert_ne here]
      exact ⟨fun _ => rfl, List.prefix_rfl⟩

theorem written_details (call : StakingCall) (old : StakingAccount) :
    ((call.written old).stakingDetails = old.stakingDetails ∧ call.staked = 0 ∧ call.rewarded = 0) ∨
    ∃ (e : StakingAccount) (d : StakingDetail),
      (call.written old).stakingDetails = (e.addDetail call.height d).stakingDetails ∧
      e.stakingDetails = old.stakingDetails ∧ d.amount = call.staked ∧ d.reward = call.rewarded := by
  cases call with
  | stake a c =>
    rw [StakingCall.written, Ledger.stakedEntry]
    exact .inr ⟨_, ⟨c.amount, 0, c.stakingTime⟩, rfl, rfl, rfl, rfl⟩
  | unstake a amount height stakingTime n =>
    have same : (old.dropReleased height).stakingDetails = old.stakingDetails := by
      unfold StakingAccount.dropReleased
      dsimp only
      split <;> rfl
    exact .inr ⟨_, ⟨amount, 0, stakingTime⟩, rfl, same, rfl, rfl⟩
  | reward a amount height now n | withdrawReward a amount height now n =>
    exact .inr ⟨_, ⟨0, amount, now⟩, rfl, rfl, rfl, rfl⟩
  | setRandCommit n a commit height => exact .inl ⟨rfl, rfl, rfl⟩

section Calls
variable {key : Nat × AddressBytes} (low : key.1 < 256) (h : StakingHistory)
include low

theorem after_cases (call : StakingCall) :
    (h.after call).ledger.entryAt key = h.ledger.entryAt key ∨
    (h.after call).ledger.entryAt key = call.written (h.ledger.entryAt key) ∧
      call.Turns (h.ledger.entryAt key) (call.written (h.ledger.entryAt key)) ∧
      key = call.key ∧ ∃ l, call.run h.ledger = .ok l := by
  cases run : call.run h.ledger with
  | error e =>
    rw [StakingHistory.after_of_error run]
    exact .inl rfl
  | ok l' =>
    have writes := StakingCall.writes_written run
    rw [StakingHistory.after_of_ok run, Ledger.entryAt_insert writes.staking]
    by_cases here : key = call.key
    · subst here
      rw [StakingCall.entry_eq _ low] at writes ⊢
      exact .inr ⟨if_pos rfl, StakingCall.entry_eq _ low ▸ writes.turns, rfl, l', rfl⟩
    · exact .inl (if_neg here)

theorem after_spec (call : StakingCall) :
    (AddUp (h.ledger.entryAt key) → AddUp ((h.after call).ledger.entryAt key)) ∧
      Kept call.height (h.ledger.entryAt key) ((h.after call).ledger.entryAt key) := by
  rcases after_cases low h call with same | ⟨entry, turns, -⟩
  · rw [same]
    exact ⟨id, fun _ _ => ⟨fun _ => rfl, List.prefix_rfl⟩⟩
  rw [entry]
  rcases written_details call (h.ledger.entryAt key) with
    ⟨same, stake, reward⟩ | ⟨e, d, added, same, amount, reward⟩
  · refine ⟨fun before => ⟨?_, ?_⟩, fun k _ => ?_⟩
    · rw [total, same, turns.stake, stake, Int64.add_zero]
      exact before.amount
    · rw [total, same, turns.reward, reward, Int64.add_zero]
      exact before.reward
    · rw [same]
      exact ⟨fun _ => rfl, List.prefix_rfl⟩
  · obtain ⟨sums, kept⟩ := addDetail_spec added same
    refine ⟨fun before => ⟨?_, ?_⟩, kept⟩
    · rw [sums _ foldsAmount, before.amount, amount, turns.stake]
    · rw [sums _ foldsReward, before.reward, reward, turns.reward]

theorem addUp_run (calls : List StakingCall) (before : AddUp (h.ledger.entryAt key)) :
    AddUp ((calls.foldl StakingHistory.after h).ledger.entryAt key) := by
  induction calls generalizing h with
  | nil => exact before
  | cons call rest ih => exact ih (h.after call) ((after_spec low h call).1 before)

end Calls

theorem Exactly.addDetail {e : StakingAccount} {balance balance' height : Int64} {last : Int}
    {d : StakingDetail} (state : Exactly f e.stakingDetails balance last) (folds : Folds f)
    (nonneg : 0 ≤ last) (later : last ≤ height.toInt)
    (sum : balance'.toInt = balance.toInt + (f d).toInt) (left : 0 ≤ balance'.toInt) :
    Exactly f (e.addDetail height d).stakingDetails balance' height.toInt :=
  Exactly.prune folds (state.append later sum left) (Int.le_trans nonneg later) height

structure Recorded (e : StakingAccount) (height : Int) : Prop where
  sound : EntrySound e
  amount : Exactly (·.amount) e.stakingDetails e.stakedBalance height
  reward : Exactly (·.reward) e.stakingDetails e.stakingRewards height

theorem recorded_empty (height : Int) : Recorded {} height := by
  have none : ∀ f, Exactly f (∅ : FinMap Int64 (List StakingDetail)) 0 height := fun f =>
    ⟨fun c _ => by simp [before, valueAt], rfl, fun k _ => rfl⟩
  have idle : ¬ ({} : StakingAccount).operationalAccount = true := Bool.false_ne_true
  exact ⟨⟨Int.le_refl 0, Int.le_refl 0, ⟨rfl, rfl⟩, fun operational => absurd operational idle⟩,
    none _, none _⟩

theorem Exactly.later {m : FinMap Int64 (List StakingDetail)} {balance : Int64} {height height' : Int}
    (state : Exactly f m balance height) (later : height ≤ height') : Exactly f m balance height' :=
  ⟨state.fits, state.all, fun k above => state.past k (by omega)⟩

theorem toInt_add_of_nonneg {a b : Int64} (before : 0 ≤ a.toInt) (after : 0 ≤ (a + b).toInt) :
    (a + b).toInt = a.toInt + b.toInt := by
  have left := toInt_range a
  have right := toInt_range b
  rcases toInt_add_cases a b with h | h | h <;> omega

theorem recorded_written {call : StakingCall} {old : StakingAccount} {last : Int}
    (state : Recorded old last) (nonneg : 0 ≤ last) (later : last ≤ call.height.toInt)
    (turns : call.Turns old (call.written old)) (sound : EntrySound (call.written old)) :
    Recorded (call.written old) call.height.toInt := by
  have state' := And.intro state.amount state.reward
  have stake := toInt_add_of_nonneg state.sound.stake (turns.stake ▸ sound.stake)
  have reward := toInt_add_of_nonneg state.sound.reward (turns.reward ▸ sound.reward)
  rw [← turns.stake] at stake
  rw [← turns.reward] at reward
  rcases written_details call old with ⟨same, noStake, noReward⟩ | ⟨e, d, added, same, amount, added'⟩
  · rw [noStake, toInt_zero, Int.add_zero, Int64.toInt_inj] at stake
    rw [noReward, toInt_zero, Int.add_zero, Int64.toInt_inj] at reward
    exact ⟨sound, by rw [same, stake]; exact state.amount.later later,
      by rw [same, reward]; exact state.reward.later later⟩
  · rw [← same] at state'
    refine ⟨sound, ?_, ?_⟩
    · rw [added]
      exact state'.1.addDetail foldsAmount nonneg later (amount ▸ stake) sound.stake
    · rw [added]
      exact state'.2.addDetail foldsReward nonneg later (added' ▸ reward) sound.reward

theorem recorded_step {key : Nat × AddressBytes} (low : key.1 < 256) {h h' : StakingHistory}
    (nonneg : 0 ≤ h.height.toInt) (state : Recorded (h.ledger.entryAt key) h.height.toInt)
    (step : StakingStep InRange h h') :
    0 ≤ h'.height.toInt ∧ Recorded (h'.ledger.entryAt key) h'.height.toInt := by
  cases step with
  | @elsewhere l staking changed =>
    refine ⟨nonneg, ?_⟩
    rw [Ledger.entryAt, staking]
    exact state
  | call c made later allowed =>
    have later := le_iff.mp later
    have height : (h.after c).height = c.height := by
      rw [StakingHistory.after]
      split <;> rfl
    refine ⟨height ▸ Int.le_trans nonneg later, ?_⟩
    rw [height]
    rcases after_cases low h c with same | ⟨entry, turns, rfl, l, run⟩
    · rw [same]
      exact ⟨state.sound, state.amount.later later, state.reward.later later⟩
    · rw [entry]
      exact recorded_written state nonneg later turns
        ((entrySound_iff made state.sound turns).mpr (allowed l run))

theorem recorded_run {key : Nat × AddressBytes} (low : key.1 < 256) {start h : StakingHistory}
    (nonneg : 0 ≤ start.height.toInt)
    (state : Recorded (start.ledger.entryAt key) start.height.toInt)
    (run : StakingRun InRange start h) :
    0 ≤ h.height.toInt ∧ Recorded (h.ledger.entryAt key) h.height.toInt := by
  induction run with
  | refl => exact ⟨nonneg, state⟩
  | tail _ step ih => exact recorded_step low ih.1 ih.2 step

structure AddUpExactly (acc : StakingAccount) : Prop where
  amount : sumOf (exact (·.amount)) acc.stakingDetails = acc.stakedBalance.toInt
  reward : sumOf (exact (·.reward)) acc.stakingDetails = acc.stakingRewards.toInt

/-- After any calls from an empty entry, at whatever heights, the stored details add up to the
stake and to the rewards in the words of the code, and over the integers if the heights do not fall
and stake and rewards stay in range; and the next call keeps those in its retention window. -/
theorem staking_details_add_up (start : StakingHistory) (n : Fin 256) (a : AddressBytes)
    (empty : start.ledger.entryAt (n, a) = {}) :
    (∀ calls : List StakingCall,
      AddUp ((calls.foldl StakingHistory.after start).ledger.entryAt (n, a)) ∧
      ∀ call : StakingCall,
        Kept call.height ((calls.foldl StakingHistory.after start).ledger.entryAt (n, a))
          (((calls.foldl StakingHistory.after start).after call).ledger.entryAt (n, a))) ∧
    ∀ h, 0 ≤ start.height → StakingRun InRange start h →
      AddUpExactly (h.ledger.entryAt (n, a)) := by
  have zero : AddUp (start.ledger.entryAt (n, a)) := by
    rw [empty]
    exact ⟨rfl, rfl⟩
  refine ⟨fun calls => ⟨addUp_run n.isLt start calls zero, fun call => (after_spec n.isLt _ call).2⟩,
    fun h nonneg run => ?_⟩
  have state : Recorded (start.ledger.entryAt (n, a)) start.height.toInt := by
    rw [empty]
    exact recorded_empty _
  have low : ((n : Nat), a).1 < 256 := n.isLt
  obtain ⟨-, recorded⟩ := recorded_run low (le_iff.mp nonneg) state run
  exact ⟨recorded.amount.all, recorded.reward.all⟩

def foldedCalls : List StakingCall :=
  [operatorStake, .reward 0xBB 7 120 5 2, .reward 0xBB 8 9000 6 2]

theorem folded_details_add_up :
    AddUp ((foldedCalls.foldl StakingHistory.after noStakes).ledger.entryAt (2, 0xBB)) ∧
    AddUpExactly ((foldedCalls.foldl StakingHistory.after noStakes).ledger.entryAt (2, 0xBB)) ∧
    ((foldedCalls.foldl StakingHistory.after noStakes).ledger.entryAt (2, 0xBB)).stakingDetails.lookup 0 =
      some [⟨100000000000000, 7, 5⟩] := by
  obtain ⟨sums, exactly⟩ := staking_details_add_up noStakes 2 0xBB rfl
  have first : StakingStep InRange noStakes (noStakes.after operatorStake) :=
    .call _ _ ⟨by decide, by decide, by decide, by decide⟩ (by decide) fun _ _ =>
      (by decide +kernel : _ + _ < (2 ^ 63 : Int))
  have second : StakingStep InRange (noStakes.after operatorStake)
      ((noStakes.after operatorStake).after (.reward 0xBB 7 120 5 2)) :=
    .call _ _ (by decide : 2 < 256) (by decide +kernel) fun _ _ =>
      (by decide +kernel : _ + _ < (2 ^ 63 : Int))
  have third : StakingStep InRange ((noStakes.after operatorStake).after (.reward 0xBB 7 120 5 2))
      (foldedCalls.foldl StakingHistory.after noStakes) :=
    .call _ (.reward 0xBB 8 9000 6 2) (by decide : 2 < 256) (by decide +kernel) fun _ _ =>
      (by decide +kernel : _ + _ < (2 ^ 63 : Int))
  exact ⟨(sums foldedCalls).1,
    exactly _ (by decide) (((Relation.ReflTransGen.single first).tail second).tail third),
    by decide +kernel⟩

end QwidNode.Guarantees.StakingDetails
