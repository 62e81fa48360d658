import QwidNode.Lib.Exec
import QwidNode.Lib.LinearRelease
import QwidNode.Lib.MapSums
import QwidNode.Source.Staking

/-!
# The staking calls and what they do to an entry

Source: `account/stakeAccount.go:110-347` and `:505-521`. Each successful call rewrites the
one entry it is about: the stake and the rewards get a signed amount, and the locks are those
`Unstake` does not take for released, followed by the one `Stake` makes.
-/
namespace QwidNode.Source
open Lib Word LinearLock List
variable {n : Nat} {new old : StakingAccount} {a : AddressBytes}

/-- A call into the staking package. `StakeLockedFor` is `stake` for a third party. -/
inductive StakingCall where
  | stake (a : AddressBytes) (c : Ledger.StakeCall)
  | unstake (a : AddressBytes) (amount height stakingTime : Int64) (n : Nat)
  | reward (a : AddressBytes) (amount height now : Int64) (n : Nat)
  | withdrawReward (a : AddressBytes) (amount height now : Int64) (n : Nat)
  | setRandCommit (n : Nat) (a : AddressBytes) (commit : Hash) (height : Int64)

namespace StakingCall

def height : StakingCall → Int64
  | stake _ c => c.height
  | unstake _ _ height _ _ => height
  | reward _ _ height _ _ => height
  | withdrawReward _ _ height _ _ => height
  | setRandCommit _ _ _ height => height

def key : StakingCall → Nat × AddressBytes
  | stake a c => (c.delegatedAccount, a)
  | unstake a _ _ _ n => (n, a)
  | reward a _ _ _ n => (n, a)
  | withdrawReward a _ _ _ n => (n, a)
  | setRandCommit n a _ _ => (n, a)

def run : StakingCall → Ledger → Except Error Ledger
  | stake a c, l => l.stake a c
  | unstake a amount height stakingTime n, l => l.unstake a amount height stakingTime n
  | reward a amount height now n, l => l.reward a amount height now n
  | withdrawReward a amount height now n, l => l.withdrawReward a amount height now n
  | setRandCommit n a commit height, l => l.setRandCommit n a commit height

def Made : StakingCall → Prop
  | stake _ c => Common.minStakingUser ≤ c.amount ∧ c.delegatedAccount < 256 ∧
      0 ≤ c.lockedAmount ∧ (c.thirdParty = true → 0 < c.lockedAmount ∧ c.operational = false)
  | unstake _ _ _ _ n => n < 256
  | reward _ _ _ _ n => n < 256
  | withdrawReward _ _ _ _ n => n < 256
  | setRandCommit n _ _ _ => n < 256

def lockMade : StakingCall → List LinearLock
  | stake _ c => if 0 < c.lockedAmount then
      [⟨c.lockedAmount.toInt, c.releasePerBlock.toInt, c.height.toInt⟩] else []
  | _ => []

end StakingCall

namespace StakingAccount
variable {e : StakingAccount} {height : Int64}

/-- The RANDAO commitment of a staking entry and the height it was made at. -/
def randao (acc : StakingAccount) : Hash × Int64 :=
  (acc.randCommit, acc.randCommitHeight)

structure Parallel (e : StakingAccount) : Prop where
  release : e.releasePerBlock.length = e.lockedAmount.length
  init : e.lockedInitBlock.length = e.lockedAmount.length

def linear (lock : Int64 × Int64 × Int64) : LinearLock :=
  ⟨lock.1.toInt, lock.2.1.toInt, lock.2.2.toInt⟩

def linearLocks (e : StakingAccount) : List LinearLock := e.locks.map linear

theorem toInt_left (height : Int64) (lock : Int64 × Int64 × Int64) :
    (lock.1 - (height - lock.2.2) * lock.2.1).toInt =
      ((linear lock).balance height.toInt).bmod (2 ^ 64) := by
  have product : (((height - lock.2.2) * lock.2.1).toInt) =
      ((height.toInt - lock.2.2.toInt) * lock.2.1.toInt).bmod (2 ^ 64) := by
    rw [Int64.toInt_mul, Int64.toInt_sub, Int.bmod_mul_bmod]
  rw [Int64.toInt_sub, product, Int.sub_bmod_bmod]
  rfl

theorem toInt_lockRemainder (height : Int64) (lock : Int64 × Int64 × Int64) :
    (lockRemainder height lock).toInt = (linear lock).wrapped height.toInt := by
  have left := toInt_left height lock
  unfold lockRemainder wrapped
  dsimp only
  rw [← left]
  split
  · next done =>
    rw [le_iff, toInt_zero] at done
    rw [toInt_zero, max_eq_left done]
  · next open' =>
    rw [le_iff, toInt_zero] at open'
    rw [max_eq_right (by omega)]

theorem toInt_lockedAt (e : StakingAccount) (height : Int64) :
    (e.lockedAt height).toInt =
      (e.linearLocks.map (wrapped · height.toInt)).sum.bmod (2 ^ 64) := by
  have sum := toInt_foldl_add (lockRemainder height)
    (fun lock => (linear lock).wrapped height.toInt) e.locks 0 fun lock => by
      have range := toInt_range (lockRemainder height lock)
      rw [← toInt_lockRemainder, Int.bmod_eq_of_le (by omega) (by omega)]
  unfold lockedAt
  rw [foldl_map, sum, toInt_zero, Int.zero_add, linearLocks, List.map_map]
  rfl

def kept (height : Int64) (lock : LinearLock) : Bool :=
  decide (0 < (lock.balance height.toInt).bmod (2 ^ 64))

theorem kept_linear (height : Int64) (lock : Int64 × Int64 × Int64) :
    kept height (linear lock) = decide (0 < lock.1 - (height - lock.2.2) * lock.2.1) := by
  unfold kept
  rw [← toInt_left]
  exact decide_eq_decide.mpr (by rw [lt_iff, toInt_zero])

theorem kept_of_unreleased {k : LinearLock} (valid : k.Valid) (begun : k.start ≤ height.toInt)
    (still : k.Unreleased height.toInt) : kept height k = true := by
  have most := balance_le valid begun
  have fits := valid.fits
  unfold Unreleased at still
  refine decide_eq_true ?_
  rw [Int.bmod_eq_of_le (by omega) (by omega)]
  exact still

theorem locks_of_lists {e : StakingAccount} {ks : List (Int64 × Int64 × Int64)}
    (amount : e.lockedAmount = ks.map (·.1)) (release : e.releasePerBlock = ks.map (·.2.1))
    (init : e.lockedInitBlock = ks.map (·.2.2)) : e.locks = ks ∧ e.Parallel := by
  constructor
  · unfold locks
    rw [amount, release, init, zip_map', zip_map']
    exact List.map_id' ks
  · exact ⟨by simp [amount, release], by simp [amount, init]⟩

theorem dropReleased_locks (parallel : e.Parallel) (height : Int64) :
    (e.dropReleased height).linearLocks = e.linearLocks.filter (kept height) ∧
      (e.dropReleased height).Parallel := by
  have same : e.locks.filter (fun lock =>
      decide (0 < lock.1 - (height - lock.2.2) * lock.2.1)) =
      e.locks.filter (kept height ∘ linear) :=
    List.filter_congr fun lock _ => (kept_linear height lock).symm
  have filtered : e.linearLocks.filter (kept height) =
      (e.locks.filter (kept height ∘ linear)).map linear := by
    rw [linearLocks, List.filter_map]
  unfold dropReleased
  dsimp only
  rw [same]
  split
  · next all =>
    refine ⟨?_, parallel⟩
    rw [filtered, List.filter_eq_self.mpr (List.length_filter_eq_length_iff.mp all)]
    rfl
  · obtain ⟨locks, parallel'⟩ := locks_of_lists
      (e := { e with
        lockedAmount := (e.locks.filter (kept height ∘ linear)).map (·.1)
        releasePerBlock := (e.locks.filter (kept height ∘ linear)).map (·.2.1)
        lockedInitBlock := (e.locks.filter (kept height ∘ linear)).map (·.2.2) }) rfl rfl rfl
    exact ⟨by rw [filtered, linearLocks, locks], parallel'⟩

theorem locks_append (parallel : e.Parallel) (lock : Int64 × Int64 × Int64)
    {e' : StakingAccount} (amount : e'.lockedAmount = e.lockedAmount ++ [lock.1])
    (release : e'.releasePerBlock = e.releasePerBlock ++ [lock.2.1])
    (init : e'.lockedInitBlock = e.lockedInitBlock ++ [lock.2.2]) :
    e'.locks = e.locks ++ [lock] ∧ e'.Parallel := by
  have lengths : e.releasePerBlock.length = e.lockedInitBlock.length :=
    parallel.release.trans parallel.init.symm
  constructor
  · unfold locks
    rw [amount, release, init, zip_append lengths, zip_append]
    · rfl
    · rw [length_zip, parallel.release, parallel.init, Nat.min_self]
  · exact ⟨by simp [amount, release, parallel.release], by simp [amount, init, parallel.init]⟩

theorem addDetail_eq (e : StakingAccount) (height : Int64) (d : StakingDetail) :
    e.addDetail height d = { e with stakingDetails := (e.addDetail height d).stakingDetails } := by
  unfold addDetail pruneStakingDetails
  dsimp only
  split
  · rfl
  · split <;> rfl

end StakingAccount

namespace Ledger

def entryAt (l : Ledger) (key : Nat × AddressBytes) : StakingAccount :=
  (l.staking.lookup key).getD {}

theorem stakingAccount_eq_entryAt (l : Ledger) (a : AddressBytes) (low : n < 256) :
    l.stakingAccount a n = l.entryAt (n, a) := by
  rw [stakingAccount, if_neg (Nat.not_le.mpr low)]
  rfl

theorem entryAt_insert {l l' : Ledger} {key : Nat × AddressBytes}
    (written : l'.staking = l.staking.insert key new) (k : Nat × AddressBytes) :
    l'.entryAt k = if k = key then new else l.entryAt k := by
  unfold entryAt
  rw [written]
  by_cases same : k = key
  · rw [if_pos same, same, AList.lookup_insert]
    rfl
  · rw [if_neg same, AList.lookup_insert_ne same]

theorem putStaking_eq {l : Ledger} {acc : StakingAccount} (address : acc.address = a)
    (changed : FinMap Nat Int64) :
    { l.putStaking n acc with stakeChangedAt := changed } =
      { l with staking := l.staking.insert (n, a) acc, stakeChangedAt := changed } := by
  rw [putStaking, address]

end Ledger

namespace StakingCall
variable {call : StakingCall} {l l' : Ledger}

def staked : StakingCall → Int64
  | stake _ c => c.amount
  | unstake _ amount _ _ _ => amount
  | _ => 0

def rewarded : StakingCall → Int64
  | reward _ amount _ _ _ => amount
  | withdrawReward _ amount _ _ _ => amount
  | _ => 0

def keeps : StakingCall → LinearLock → Bool
  | unstake _ _ height _ _, k => StakingAccount.kept height k
  | _, _ => true

def Checked (old : StakingAccount) : StakingCall → Prop
  | stake _ c => 0 ≤ c.releasePerBlock.toInt ∧ c.releasePerBlock.toInt ≤ c.lockedAmount.toInt ∧
      c.lockedAmount.toInt ≤ c.amount.toInt
  | unstake _ amount height _ _ => amount.toInt < 0 ∧
      0 ≤ (old.stakedBalance + amount).toInt ∧
      0 ≤ (old.stakedBalance - old.lockedAt height + amount).toInt
  | reward _ amount _ _ _ => 0 ≤ amount.toInt
  | withdrawReward _ amount _ _ _ => amount.toInt < 0 ∧ 0 ≤ (old.stakingRewards + amount).toInt
  | setRandCommit _ _ _ _ => True

def randaoAfter (old : StakingAccount) : StakingCall → Hash × Int64
  | setRandCommit _ _ commit height => (commit, height)
  | _ => old.randao

def written (old : StakingAccount) : StakingCall → StakingAccount
  | stake a c => Ledger.stakedEntry old a c
  | unstake _ amount height stakingTime _ => Ledger.unstakedEntry old amount height stakingTime
  | reward _ amount height now _ | withdrawReward _ amount height now _ =>
    { old with stakingRewards := old.stakingRewards + amount }.addDetail height ⟨0, amount, now⟩
  | setRandCommit _ _ commit height => { old with randCommit := commit, randCommitHeight := height }

def Operational (old new : StakingAccount) : StakingCall → Prop
  | stake _ c => c.lockedAmount ≠ 0 → new.operationalAccount = old.operationalAccount
  | unstake _ _ _ _ _ => new.operationalAccount = true → new.stakedBalance ≠ 0
  | _ => new.operationalAccount = old.operationalAccount

def Delayed (old new : StakingAccount) : StakingCall → Prop
  | stake _ c => new.lastStakeHeight = if c.thirdParty then old.lastStakeHeight else c.height
  | unstake _ _ height _ _ => new.lastStakeHeight = height
  | _ => new.lastStakeHeight = old.lastStakeHeight

structure Turns (call : StakingCall) (old new : StakingAccount) : Prop where
  stake : new.stakedBalance = old.stakedBalance + call.staked
  reward : new.stakingRewards = old.stakingRewards + call.rewarded
  locks : old.Parallel → new.linearLocks = old.linearLocks.filter call.keeps ++ call.lockMade ∧
    new.Parallel
  checked : call.Checked old
  operational : call.Operational old new
  delayed : call.Delayed old new
  randao : new.randao = call.randaoAfter old

def entry (l : Ledger) : StakingCall → StakingAccount
  | setRandCommit n a _ _ => l.entryAt (n, a)
  | call => l.stakingAccount call.key.2 call.key.1

theorem entry_eq (l : Ledger) (low : call.key.1 < 256) : call.entry l = l.entryAt call.key := by
  cases call with
  | setRandCommit n a commit height => rfl
  | stake | unstake | reward | withdrawReward => exact l.stakingAccount_eq_entryAt _ low

theorem Made.low (made : call.Made) : call.key.1 < 256 := by
  cases call with
  | stake a c => exact made.2.1
  | unstake | reward | withdrawReward | setRandCommit => exact made

/-- A successful call writes one entry, under its address, and the time of the change. -/
structure Writes (call : StakingCall) (l l' : Ledger) (new : StakingAccount) : Prop where
  written : ∃ changed,
    l' = { l with staking := l.staking.insert call.key new, stakeChangedAt := changed }
  address : new.address = call.key.2 ∨
    ∃ old, l.staking.lookup call.key = some old ∧ new.address = old.address
  turns : call.Turns (call.entry l) new

theorem Writes.staking (writes : call.Writes l l' new) :
    l'.staking = l.staking.insert call.key new := by
  obtain ⟨changed, rfl⟩ := writes.written
  rfl

theorem stakedEntry_fields (old : StakingAccount) (a : AddressBytes) (c : Ledger.StakeCall) :
    (Ledger.stakedEntry old a c).address = a ∧
    (Ledger.stakedEntry old a c).stakedBalance = old.stakedBalance + c.amount ∧
    (Ledger.stakedEntry old a c).stakingRewards = old.stakingRewards ∧
    (Ledger.stakedEntry old a c).lastStakeHeight =
      (if c.thirdParty then old.lastStakeHeight else c.height) ∧
    (Ledger.stakedEntry old a c).operationalAccount =
      (if c.lockedAmount == 0 && !old.operationalAccount then c.operational
      else old.operationalAccount) ∧
    (Ledger.stakedEntry old a c).randao = old.randao := by
  unfold Ledger.stakedEntry
  dsimp only
  rw [StakingAccount.addDetail_eq]
  exact ⟨rfl, rfl, rfl, rfl, rfl, rfl⟩

theorem stakedEntry_lists (old : StakingAccount) (a : AddressBytes) (c : Ledger.StakeCall) :
    (Ledger.stakedEntry old a c).lockedAmount =
      (if 0 < c.lockedAmount then old.lockedAmount ++ [c.lockedAmount] else old.lockedAmount) ∧
    (Ledger.stakedEntry old a c).releasePerBlock = (if 0 < c.lockedAmount then
      old.releasePerBlock ++ [c.releasePerBlock] else old.releasePerBlock) ∧
    (Ledger.stakedEntry old a c).lockedInitBlock =
      if 0 < c.lockedAmount then old.lockedInitBlock ++ [c.height] else old.lockedInitBlock := by
  unfold Ledger.stakedEntry
  dsimp only
  rw [StakingAccount.addDetail_eq]
  exact ⟨rfl, rfl, rfl⟩

theorem stakedEntry_locks (parallel : old.Parallel) (a : AddressBytes) (c : Ledger.StakeCall) :
    (Ledger.stakedEntry old a c).linearLocks = old.linearLocks ++ lockMade (stake a c) ∧
      (Ledger.stakedEntry old a c).Parallel := by
  obtain ⟨amount, release, init⟩ := stakedEntry_lists old a c
  rw [lockMade]
  by_cases locked : 0 < c.lockedAmount
  · rw [if_pos locked] at amount release init ⊢
    obtain ⟨locks, parallel'⟩ := StakingAccount.locks_append parallel
      (c.lockedAmount, c.releasePerBlock, c.height) amount release init
    refine ⟨?_, parallel'⟩
    rw [StakingAccount.linearLocks, locks, map_append]
    rfl
  · rw [if_neg locked] at amount release init ⊢
    have same : (Ledger.stakedEntry old a c).locks = old.locks := by
      unfold StakingAccount.locks
      rw [amount, release, init]
    refine ⟨?_, by rw [release, amount, parallel.release], by rw [init, amount, parallel.init]⟩
    rw [append_nil, StakingAccount.linearLocks, same]
    rfl

theorem turns_stake (old : StakingAccount) {c : Ledger.StakeCall}
    (checked : Checked old (stake a c)) : (stake a c).Turns old (Ledger.stakedEntry old a c) := by
  obtain ⟨-, stake, reward, delayed, operational, randao⟩ := stakedEntry_fields old a c
  have all : old.linearLocks.filter (keeps (StakingCall.stake a c)) = _ :=
    List.filter_eq_self.mpr fun _ _ => rfl
  refine
    { stake := stake
      reward := reward.trans (Int64.add_zero _).symm
      locks := fun parallel => ?_
      checked := checked
      operational := fun locked => ?_
      delayed := delayed
      randao := randao }
  · rw [all]
    exact stakedEntry_locks parallel a c
  · rw [operational, if_neg (by simp [locked])]

theorem unstakedEntry_fields (old : StakingAccount) (amount height stakingTime : Int64) :
    (Ledger.unstakedEntry old amount height stakingTime).address = old.address ∧
    (Ledger.unstakedEntry old amount height stakingTime).stakedBalance =
      old.stakedBalance + amount ∧
    (Ledger.unstakedEntry old amount height stakingTime).stakingRewards = old.stakingRewards ∧
    (Ledger.unstakedEntry old amount height stakingTime).lastStakeHeight = height ∧
    ((Ledger.unstakedEntry old amount height stakingTime).operationalAccount = true →
      (Ledger.unstakedEntry old amount height stakingTime).stakedBalance ≠ 0) ∧
    (Ledger.unstakedEntry old amount height stakingTime).randao = old.randao := by
  have frame : (old.dropReleased height).stakedBalance = old.stakedBalance ∧
      (old.dropReleased height).stakingRewards = old.stakingRewards ∧
      (old.dropReleased height).address = old.address ∧
      (old.dropReleased height).randao = old.randao := by
    unfold StakingAccount.dropReleased
    dsimp only
    split <;> exact ⟨rfl, rfl, rfl, rfl⟩
  unfold Ledger.unstakedEntry
  dsimp only
  rw [StakingAccount.addDetail_eq]
  refine ⟨frame.2.2.1, by rw [← frame.1], frame.2.1, rfl, fun flagged zero => ?_, frame.2.2.2⟩
  dsimp only at flagged zero
  rw [if_pos zero] at flagged
  cases flagged

theorem unstakedEntry_locks (parallel : old.Parallel) (amount height stakingTime : Int64) :
    (Ledger.unstakedEntry old amount height stakingTime).linearLocks =
        old.linearLocks.filter (StakingAccount.kept height) ∧
      (Ledger.unstakedEntry old amount height stakingTime).Parallel := by
  obtain ⟨locks, parallel'⟩ := StakingAccount.dropReleased_locks parallel height
  unfold Ledger.unstakedEntry
  dsimp only
  rw [StakingAccount.addDetail_eq]
  exact ⟨locks, parallel'.release, parallel'.init⟩

theorem turns_unstake (old : StakingAccount) {amount height stakingTime : Int64}
    (checked : Checked old (unstake a amount height stakingTime n)) :
    (unstake a amount height stakingTime n).Turns old
      (Ledger.unstakedEntry old amount height stakingTime) := by
  obtain ⟨-, stake, reward, delayed, operational, randao⟩ :=
    unstakedEntry_fields old amount height stakingTime
  have none : lockMade (unstake a amount height stakingTime n) = [] := rfl
  refine
    { stake := stake
      reward := reward.trans (Int64.add_zero _).symm
      locks := fun parallel => ?_
      checked := checked
      operational := operational
      delayed := delayed
      randao := randao }
  rw [none, append_nil]
  exact unstakedEntry_locks parallel amount height stakingTime

theorem turns_of_same (none : call.staked = 0) (keeps : ∀ k, call.keeps k = true)
    (noLock : call.lockMade = []) (stake : new.stakedBalance = old.stakedBalance)
    (reward : new.stakingRewards = old.stakingRewards + call.rewarded)
    (locks : new.lockedAmount = old.lockedAmount ∧ new.releasePerBlock = old.releasePerBlock ∧
      new.lockedInitBlock = old.lockedInitBlock)
    (checked : call.Checked old) (operational : call.Operational old new)
    (delayed : call.Delayed old new) (randao : new.randao = call.randaoAfter old) :
    call.Turns old new := by
  have same : new.locks = old.locks := by
    unfold StakingAccount.locks
    rw [locks.1, locks.2.1, locks.2.2]
  refine ⟨by rw [stake, none, Int64.add_zero], reward, fun parallel => ?_, checked, operational,
    delayed, randao⟩
  rw [noLock, append_nil, List.filter_eq_self.mpr fun k _ => keeps k]
  unfold StakingAccount.linearLocks
  exact ⟨by rw [same], by rw [locks.1, locks.2.1, parallel.release],
    by rw [locks.1, locks.2.2, parallel.init]⟩

theorem rewardedEntry_fields (old : StakingAccount) (amount height : Int64) (d : StakingDetail)
    (entry : new = { old with stakingRewards := old.stakingRewards + amount }.addDetail height d) :
    new.address = old.address ∧ new.stakedBalance = old.stakedBalance ∧
    new.stakingRewards = old.stakingRewards + amount ∧
    (new.lockedAmount = old.lockedAmount ∧ new.releasePerBlock = old.releasePerBlock ∧
      new.lockedInitBlock = old.lockedInitBlock) ∧
    new.operationalAccount = old.operationalAccount ∧
    new.lastStakeHeight = old.lastStakeHeight ∧ new.randao = old.randao := by
  rw [entry, StakingAccount.addDetail_eq]
  exact ⟨rfl, rfl, rfl, ⟨rfl, rfl, rfl⟩, rfl, rfl, rfl⟩

theorem writes_written (run : call.run l = .ok l') : call.Writes l l' (call.written (call.entry l)) := by
  cases call with
  | stake a c =>
    simp only [StakingCall.run, Ledger.stake, ite_error_eq_ok, lt_iff, Int.not_lt] at run
    obtain ⟨-, release, within, -, below, -, run⟩ := run
    cases run
    have address := (stakedEntry_fields (l.stakingAccount a c.delegatedAccount) a c).1
    exact ⟨⟨_, Ledger.putStaking_eq address _⟩, .inl address,
      turns_stake _ ⟨release, within, below⟩⟩
  | unstake a amount height stakingTime n =>
    simp only [StakingCall.run, Ledger.unstake, ite_error_eq_ok, lt_iff, le_iff,
      toInt_zero, Int.not_lt, Int.not_le, ne_eq, not_not] at run
    obtain ⟨own, negative, -, covered, unlocked, run⟩ := run
    cases run
    have address :=
      (unstakedEntry_fields (l.stakingAccount a n) amount height stakingTime).1.trans own
    exact ⟨⟨_, Ledger.putStaking_eq address _⟩, .inl address,
      turns_unstake _ ⟨negative, covered, unlocked⟩⟩
  | reward a amount height now n =>
    simp only [StakingCall.run, Ledger.reward, ite_error_eq_ok, lt_iff, toInt_zero,
      Int.not_lt, ne_eq, not_not] at run
    obtain ⟨own, nonneg, run⟩ := run
    cases run
    obtain ⟨address, stake, reward, locks, operational, delayed, randao⟩ :=
      rewardedEntry_fields (l.stakingAccount a n) amount height ⟨0, amount, now⟩ rfl
    exact ⟨⟨_, Ledger.putStaking_eq (address.trans own) _⟩, .inl (address.trans own),
      turns_of_same rfl (fun _ => rfl) rfl stake reward locks nonneg operational delayed randao⟩
  | withdrawReward a amount height now n =>
    simp only [StakingCall.run, Ledger.withdrawReward, ite_error_eq_ok, lt_iff, le_iff,
      toInt_zero, Int.not_lt, Int.not_le, ne_eq, not_not] at run
    obtain ⟨own, negative, covered, run⟩ := run
    cases run
    obtain ⟨address, stake, reward, locks, operational, delayed, randao⟩ :=
      rewardedEntry_fields (l.stakingAccount a n) amount height ⟨0, amount, now⟩ rfl
    exact ⟨⟨_, Ledger.putStaking_eq (address.trans own) _⟩, .inl (address.trans own),
      turns_of_same rfl (fun _ => rfl) rfl stake reward locks ⟨negative, covered⟩ operational
        delayed randao⟩
  | setRandCommit n a commit height =>
    simp only [StakingCall.run, Ledger.setRandCommit] at run
    split at run
    · next acc found =>
      cases run
      have old : (setRandCommit n a commit height).entry l = acc := by
        rw [entry, Ledger.entryAt, found]
        rfl
      rw [old]
      refine ⟨⟨_, rfl⟩, .inr ⟨acc, found, rfl⟩, ?_⟩
      rw [old]
      exact turns_of_same rfl (fun _ => rfl) rfl rfl (Int64.add_zero _).symm ⟨rfl, rfl, rfl⟩
        trivial rfl rfl rfl
    · cases run

theorem writes_of_ok (run : call.run l = .ok l') : ∃ new, call.Writes l l' new :=
  ⟨_, writes_written run⟩

theorem turns_of_ok (made : call.Made) (run : call.run l = .ok l') :
    ∃ new, l'.staking = l.staking.insert call.key new ∧
      (new.address = call.key.2 ∨
        ∃ old, l.staking.lookup call.key = some old ∧ new.address = old.address) ∧
      call.Turns (l.entryAt call.key) new := by
  obtain ⟨new, writes⟩ := writes_of_ok run
  exact ⟨new, writes.staking, writes.address, entry_eq l made.low ▸ writes.turns⟩

end StakingCall
end QwidNode.Source
