import QwidNode.Guarantees.StakingEntries

/-!
# Staking locks release linearly

`GetLockedAmount` and `Unstake` (`account/stakeAccount.go:84-104` and `:193-275`) compute what a
lock still holds back in 64-bit words. The product of elapsed blocks and release rate is right until
it exceeds the locked amount by `2 ^ 63`; until then the computed sum is exact, it falls, and an
`Unstake` leaves at least that much.
-/
namespace QwidNode.Guarantees
open Lib Source Ledger Word StakingCall LinearLock List
variable {h : StakingHistory} {call : StakingCall} {l l' : Ledger} {new old : StakingAccount}

/-- No lock of the entry has released more than `2 ^ 63` above its amount. -/
def LocksExact : StakingCall → Ledger → Prop
  | .unstake a _ height _ n, l => ∀ k ∈ (l.entryAt (n, a)).linearLocks, k.Exact height.toInt
  | _, _ => True

def StakeInRange : StakingCall → Ledger → Prop
  | .stake a c, l =>
    (l.entryAt (c.delegatedAccount, a)).stakedBalance.toInt + c.amount.toInt < 2 ^ 63
  | _, _ => True

/-- The stakes fit a word, and `Unstake` finds locks it computes exactly. -/
def ReleasesExactly (call : StakingCall) (l : Ledger) : Prop :=
  StakeInRange call l ∧ LocksExact call l

structure LocksCovered (h : StakingHistory) : Prop extends LocksKept h where
  stake : ∀ key, 0 ≤ (h.ledger.entryAt key).stakedBalance.toInt
  covered : ∀ key t, h.height.toInt ≤ t →
    outstanding (h.ledger.entryAt key).linearLocks t ≤
      (h.ledger.entryAt key).stakedBalance.toInt
  /-- Some of the locks, at any height since they were made. -/
  bounded : ∀ key ks, ks.Sublist (h.ledger.entryAt key).linearLocks →
    ∀ t, (∀ k ∈ ks, k.start ≤ t) → outstanding ks t < 2 ^ 63

theorem LocksKept.lock (kept : LocksKept h) (key : Nat × AddressBytes) :
    ∀ k ∈ (h.ledger.entryAt key).linearLocks, k.Valid ∧ k.start ≤ h.height.toInt := by
  intro k member
  obtain ⟨valid, -, begun⟩ := kept.made key k ((kept.locks key).1.subset member)
  exact ⟨valid, begun⟩

theorem lockedAt_of_exact {e : StakingAccount} {height : Int64}
    (valid : ∀ k ∈ e.linearLocks, k.Valid) (begun : ∀ k ∈ e.linearLocks, k.start ≤ height.toInt)
    (exact' : ∀ k ∈ e.linearLocks, k.Exact height.toInt)
    (small : outstanding e.linearLocks height.toInt < 2 ^ 63) :
    (e.lockedAt height).toInt = outstanding e.linearLocks height.toInt := by
  have nonneg := outstanding_nonneg e.linearLocks height.toInt
  rw [StakingAccount.toInt_lockedAt, sum_wrapped_of_exact valid begun exact',
    Int.bmod_eq_of_le (by omega) (by omega)]

theorem outstanding_le_of_checked {a : AddressBytes} {amount height stakingTime : Int64} {n : Nat}
    (stake : 0 ≤ old.stakedBalance.toInt)
    (locked : (old.lockedAt height).toInt = outstanding old.linearLocks height.toInt)
    (checked : (StakingCall.unstake a amount height stakingTime n).Checked old) :
    outstanding old.linearLocks height.toInt ≤
      (old.stakedBalance + amount).toInt := by
  obtain ⟨negative, enough, unlocked⟩ := checked
  have nonneg := outstanding_nonneg old.linearLocks height.toInt
  have range := toInt_range old.stakedBalance
  have range' := toInt_range amount
  have range'' := toInt_range (old.lockedAt height)
  -- stake and amount have different signs, so their sum is exact
  have sum : (old.stakedBalance + amount).toInt = old.stakedBalance.toInt + amount.toInt :=
    toInt_add_of_fits (by omega) (by omega)
  have less : (old.stakedBalance - old.lockedAt height).toInt =
      old.stakedBalance.toInt - (old.lockedAt height).toInt :=
    toInt_sub_of_fits (by omega) (by omega)
  rcases toInt_add_cases (old.stakedBalance - old.lockedAt height) amount with e | e | e <;>
    omega

theorem lockMade_start : ∀ k ∈ call.lockMade, k.start = call.height.toInt := by
  intro k member
  cases call with
  | stake a c =>
    rw [lockMade] at member
    split at member
    · rw [List.mem_singleton] at member
      rw [member]
      rfl
    · cases member
  | _ => cases member

theorem outstanding_lockMade_le {a : AddressBytes} {c : StakeCall} {t : Int}
    (checked : (StakingCall.stake a c).Checked old) (nonneg : 0 ≤ c.amount.toInt)
    (later : c.height.toInt ≤ t) :
    outstanding (StakingCall.stake a c).lockMade t ≤ c.amount.toInt := by
  obtain ⟨release, within, below⟩ := checked
  rw [lockMade]
  split
  · next locked =>
    have valid : (⟨c.lockedAmount.toInt, c.releasePerBlock.toInt, c.height.toInt⟩ :
        LinearLock).Valid :=
      ⟨Int.le_of_lt (lt_iff.mp locked), release, within, c.lockedAmount.toInt_lt⟩
    have most := remaining_le valid later
    rw [outstanding_cons, outstanding_nil, Int.add_zero]
    exact Int.le_trans most below
  · exact nonneg

theorem covered_turn (state : LocksCovered h) (made : call.Made)
    (later : h.height.toInt ≤ call.height.toInt) (allowed : ReleasesExactly call h.ledger)
    (turns : call.Turns (h.ledger.entryAt call.key) new) {t : Int} (after : call.height.toInt ≤ t) :
    outstanding new.linearLocks t ≤ new.stakedBalance.toInt := by
  have stake := state.stake call.key
  have covered := state.covered call.key t (Int.le_trans later after)
  have filtered : outstanding
      ((h.ledger.entryAt call.key).linearLocks.filter call.keeps) t ≤ _ :=
    outstanding_sublist filter_sublist
  rw [(turns.locks (state.parallel call.key)).1, outstanding_append, turns.stake]
  cases call with
  | stake a c =>
    have least : Common.minStakingUser.toInt = 100000000000 := by decide
    have amount := le_iff.mp made.1
    have fits : (h.ledger.entryAt (c.delegatedAccount, a)).stakedBalance.toInt +
      c.amount.toInt < 2 ^ 63 := allowed.1
    have locked := outstanding_lockMade_le turns.checked (by omega) after
    have sum := toInt_add_of_fits (a := (h.ledger.entryAt
      (c.delegatedAccount, a)).stakedBalance) (b := c.amount)
      (by simp only [StakingCall.key] at stake; omega) fits
    simp only [StakingCall.key, staked] at covered filtered stake sum ⊢
    omega
  | unstake a amount height stakingTime n =>
    have known := state.lock (n, a)
    have begun : ∀ k ∈ (h.ledger.entryAt (n, a)).linearLocks, k.start ≤ height.toInt :=
      fun k member => Int.le_trans (known k member).2 later
    have small := state.bounded (n, a) _ (List.Sublist.refl _) height.toInt begun
    have locked := lockedAt_of_exact (fun k member => (known k member).1) begun allowed.2 small
    have kept := outstanding_le_of_checked stake locked turns.checked
    have fewer := outstanding_antitone (fun k member => (known k member).1) after
    have none : outstanding
      (StakingCall.unstake a amount height stakingTime n).lockMade t = 0 := rfl
    simp only [StakingCall.key, staked, StakingCall.height] at *
    omega
  | _ =>
    simp only [staked, Int64.add_zero]
    exact Int.le_trans (Int.add_zero _ ▸ filtered) covered

theorem bounded_turn (state : LocksCovered h) (made : call.Made)
    (later : h.height.toInt ≤ call.height.toInt) (allowed : ReleasesExactly call h.ledger)
    (turns : call.Turns (h.ledger.entryAt call.key) new) {ks : List LinearLock}
    (sub : ks.Sublist new.linearLocks) {t : Int} (begun : ∀ k ∈ ks, k.start ≤ t) :
    outstanding ks t < 2 ^ 63 := by
  have parts := sub
  rw [(turns.locks (state.parallel call.key)).1] at parts
  obtain ⟨before, now, rfl, old, fresh⟩ := List.sublist_append_iff.mp parts
  cases now with
  | nil =>
    rw [append_nil] at begun ⊢
    exact state.bounded call.key before (old.trans filter_sublist) t begun
  | cons k ks =>
    -- the new lock is among them, so the height is not before the call
    have start := begun k (mem_append_right before List.mem_cons_self)
    rw [lockMade_start k (fresh.subset List.mem_cons_self)] at start
    have covered := covered_turn state made later allowed turns start
    have part := outstanding_sublist (t := t) sub
    have range := toInt_range new.stakedBalance
    omega

theorem stake_turn (state : LocksCovered h) (made : call.Made)
    (allowed : ReleasesExactly call h.ledger)
    (turns : call.Turns (h.ledger.entryAt call.key) new) : 0 ≤ new.stakedBalance.toInt := by
  have stake := state.stake call.key
  rw [turns.stake]
  cases call with
  | stake a c =>
    have least : Common.minStakingUser.toInt = 100000000000 := by decide
    have amount := le_iff.mp made.1
    exact (add_nonneg_iff stake (by simp only [staked]; omega)).mpr allowed.1
  | unstake a amount height stakingTime n => exact turns.checked.2.1
  | reward | withdrawReward | setRandCommit =>
    simp only [staked, Int64.add_zero]
    exact stake

theorem locksCovered_step {h h' : StakingHistory} (state : LocksCovered h)
    (step : StakingStep ReleasesExactly h h') : LocksCovered h' := by
  cases step with
  | @elsewhere l staking changed =>
    have same : ∀ key, l.entryAt key = h.ledger.entryAt key := by
      intro key
      rw [entryAt, staking]
      rfl
    refine ⟨state.toLocksKept.of_staking staking, fun key => ?_, fun key => ?_, fun key => ?_⟩
    · rw [same]
      exact state.stake key
    · rw [same]
      exact state.covered key
    · rw [same]
      exact state.bounded key
  | call c made later allowed =>
    have later := le_iff.mp later
    cases run : c.run h.ledger with
    | error e =>
      rw [StakingHistory.after_of_error run]
      exact ⟨state.toLocksKept.later later, state.stake,
        fun key t after => state.covered key t (Int.le_trans later after), state.bounded⟩
    | ok l' =>
      have allowed := allowed l' run
      obtain ⟨new, written, -, turns⟩ := turns_of_ok made run
      rw [StakingHistory.after_of_ok run]
      refine ⟨state.toLocksKept.turn later written turns, fun key => ?_, fun key t after => ?_,
        fun key ks sub t begun => ?_⟩
      · rw [entryAt_insert written]
        split
        · exact stake_turn state made allowed turns
        · exact state.stake key
      · rw [entryAt_insert written]
        split
        · exact covered_turn state made later allowed turns after
        · exact state.covered key t (Int.le_trans later after)
      · dsimp only at sub
        rw [entryAt_insert written] at sub
        split at sub
        · exact bounded_turn state made later allowed turns sub begun
        · exact state.bounded key ks sub t begun

theorem locksCovered_run {start : StakingHistory} (state : LocksCovered start)
    (run : StakingRun ReleasesExactly start h) : LocksCovered h := by
  induction run with
  | refl => exact state
  | tail _ step ih => exact locksCovered_step ih step

theorem outstanding_made (kept : LocksKept h) (key : Nat × AddressBytes) {t : Int}
    (after : h.height.toInt ≤ t) :
    outstanding (h.ledger.entryAt key).linearLocks t =
      outstanding (h.made key) t := by
  have drop : ∀ ks : List LinearLock,
      outstanding (unreleased t ks) t = outstanding ks t :=
    fun ks => outstanding_filter fun _ _ still => decide_eq_true still
  rw [← drop, (kept.locks key).2 t after, drop]

theorem lockedAt_exact_iff {e : StakingAccount} {low high : Int64}
    (known : ∀ k ∈ e.linearLocks, k.Valid ∧ k.start ≤ low.toInt ∧ k.Exact low.toInt)
    (small : outstanding e.linearLocks low.toInt < 2 ^ 63)
    (releases : (e.linearLocks.map (·.perStep)).sum < 2 ^ 63) (order : low ≤ high) :
    (∀ t : Int64, low ≤ t → t ≤ high →
        (e.lockedAt t).toInt = outstanding e.linearLocks t.toInt) ↔
      ∀ k ∈ e.linearLocks, k.Exact high.toInt := by
  have order := le_iff.mp order
  have valid : ∀ k ∈ e.linearLocks, k.Valid := fun k member => (known k member).1
  have smaller : ∀ {t : Int}, low.toInt ≤ t → outstanding e.linearLocks t < 2 ^ 63 :=
    fun after => Int.lt_of_le_of_lt (outstanding_antitone valid after) small
  constructor
  · intro right
    by_contra some
    push Not at some
    have distance : low.toInt + ((high.toInt - low.toInt).toNat : Int) = high.toInt := by omega
    obtain ⟨s, after, within, before, inexact⟩ := exists_first_inexact
      (fun k member => (known k member).2.2) (high.toInt - low.toInt).toNat
      (by rw [distance]; exact some)
    rw [distance] at within
    have lower := toInt_range low
    have upper := toInt_range high
    have height : (Int64.ofInt s).toInt = s := Int64.toInt_ofInt_of_le (by omega) (by omega)
    have sum := right (Int64.ofInt s) (le_iff.mpr (by omega)) (le_iff.mpr (by omega))
    have nonneg := outstanding_nonneg e.linearLocks s
    have less := smaller (Int.le_of_lt after)
    rw [StakingAccount.toInt_lockedAt, height] at sum
    refine bmod_sum_wrapped_ne valid
      (fun k member => Int.le_trans (known k member).2.1 (Int.le_of_lt after))
      (fun k member => .inr (before k member)) inexact releases (sum.trans ?_)
    rw [Int.bmod_eq_of_le (by omega) (by omega)]
  · intro exact' t after within
    have after := le_iff.mp after
    have within := le_iff.mp within
    exact lockedAt_of_exact valid (fun k member => Int.le_trans (known k member).2.1 after)
      (fun k member => (exact' k member).earlier (valid k member) within) (smaller after)

section Release
variable (start h : StakingHistory) (state : LocksCovered start)
  (run : StakingRun ReleasesExactly start h) (key : Nat × AddressBytes) (low high : Int64)
  (order : low ≤ high)
  (begun : ∀ k ∈ (h.ledger.entryAt key).linearLocks, k.start ≤ low.toInt)
include state run order begun

/-- For every entry of such a history, from any covered locks on, and every two heights at or above
its lock heights: if no lock has released `2 ^ 63` more than its amount at the later one,
`GetLockedAmount` is the sum over the integers at both and does not rise, and an `Unstake` that
succeeds at either leaves at least that sum. From a height at which every lock is exact on, and with
release rates whose sum fits a word, that condition is also necessary. -/
theorem locks_release_linearly :
    ((∀ k ∈ (h.ledger.entryAt key).linearLocks, k.Exact high.toInt) →
      (∀ t ∈ [low, high], ((h.ledger.entryAt key).lockedAt t).toInt =
        outstanding (h.ledger.entryAt key).linearLocks t.toInt) ∧
      (h.ledger.entryAt key).lockedAt high ≤ (h.ledger.entryAt key).lockedAt low ∧
      (∀ t ∈ [low, high], ∀ amount stakingTime l', key.1 < 256 →
        (StakingCall.unstake key.2 amount t stakingTime key.1).perform h.ledger = .ok () l' →
        outstanding (h.ledger.entryAt key).linearLocks t.toInt ≤
          (l'.entryAt key).stakedBalance.toInt)) ∧
    (h.height ≤ low → outstanding (h.ledger.entryAt key).linearLocks low.toInt =
      outstanding (h.made key) low.toInt) ∧
    ((∀ k ∈ (h.ledger.entryAt key).linearLocks, k.Exact low.toInt) →
      (((h.ledger.entryAt key).linearLocks.map (·.perStep)).sum < 2 ^ 63) →
      ((∀ t : Int64, low ≤ t → t ≤ high → ((h.ledger.entryAt key).lockedAt t).toInt =
          outstanding (h.ledger.entryAt key).linearLocks t.toInt) ↔
        ∀ k ∈ (h.ledger.entryAt key).linearLocks, k.Exact high.toInt)) := by
  have state := locksCovered_run state run
  have valid : ∀ k ∈ (h.ledger.entryAt key).linearLocks, k.Valid :=
    fun k member => (state.lock key k member).1
  have small := state.bounded key _ (List.Sublist.refl _) low.toInt begun
  have between : ∀ t ∈ [low, high], low.toInt ≤ t.toInt ∧ t.toInt ≤ high.toInt := by
    have order := le_iff.mp order
    intro t either
    rcases List.mem_pair.mp either with rfl | rfl <;> omega
  refine ⟨fun exact' => ?_, fun after => outstanding_made state.toLocksKept key (le_iff.mp after),
    fun exact' releases => lockedAt_exact_iff
      (fun k member => ⟨valid k member, begun k member, exact' k member⟩) small releases order⟩
  have locked : ∀ t ∈ [low, high], ((h.ledger.entryAt key).lockedAt t).toInt =
      outstanding (h.ledger.entryAt key).linearLocks t.toInt := by
    intro t either
    obtain ⟨after, within⟩ := between t either
    exact lockedAt_of_exact valid (fun k member => Int.le_trans (begun k member) after)
      (fun k member => (exact' k member).earlier (valid k member) within)
      (Int.lt_of_le_of_lt (outstanding_antitone valid after) small)
  refine ⟨locked, le_iff.mpr ?_, fun t either amount stakingTime l' id done => ?_⟩
  · rw [locked low (by simp), locked high (by simp)]
    exact outstanding_antitone valid (le_iff.mp order)
  · rw [perform_eq] at done
    cases result : (StakingCall.unstake key.2 amount t stakingTime key.1).run h.ledger with
    | error e =>
      rw [result] at done
      cases done
    | ok m =>
      rw [result] at done
      cases done
      have made : (StakingCall.unstake key.2 amount t stakingTime key.1).Made := id
      obtain ⟨new, written, -, turns⟩ := turns_of_ok made result
      have entry : l'.entryAt key = new := (entryAt_insert written key).trans (if_pos rfl)
      rw [entry, turns.stake]
      exact outstanding_le_of_checked (state.stake key) (locked t either) turns.checked

end Release

theorem genesisStakes_covered : LocksCovered genesisStakes := by
  have entries : ∀ key, genesisStakes.ledger.entryAt key = if key = (2, 0xBB) then
      genesisEntry else {} := entryAt_insert (l := {}) rfl
  have nothing : ∀ key t, outstanding (genesisStakes.ledger.entryAt key).linearLocks t = 0 := by
    intro key t
    rw [entries]
    split
    · change outstanding [⟨0, 0, 0⟩] t = 0
      simp [remaining, LinearLock.balance]
    · rfl
  refine ⟨genesisStakes_sound.toLocksKept, fun key => (genesisStakes_sound.entry key).stake,
    fun key t _ => ?_, fun key ks sub t _ => ?_⟩
  · rw [nothing]
    exact (genesisStakes_sound.entry key).stake
  · have part := outstanding_sublist (t := t) sub
    rw [nothing] at part
    omega

/-- A deposit in the operator's entry, at heights up to 10^11 blocks later. -/
theorem deposit_releases :
    ((genesisStakes.after depositLock).ledger.entryAt (2, 0xBB)).lockedAt 100000000120 ≤
      ((genesisStakes.after depositLock).ledger.entryAt (2, 0xBB)).lockedAt 120 := by
  have step : StakingStep ReleasesExactly genesisStakes (genesisStakes.after depositLock) :=
    .call _ _ ⟨by decide, by decide, by decide, by decide⟩ (by decide) fun _ _ =>
      ⟨(by decide +kernel : _ + _ < (2 ^ 63 : Int)), trivial⟩
  have locks : ((genesisStakes.after depositLock).ledger.entryAt (2, 0xBB)).linearLocks =
      [⟨0, 0, 0⟩, ⟨100000000000, 1, 120⟩] := by decide +kernel
  refine ((locks_release_linearly genesisStakes _ genesisStakes_covered (.single step) (2, 0xBB) 120
    100000000120 (by decide) ?_).1 ?_).2.1
  · rw [locks]
    simp
  · rw [locks]
    simp [Exact, LinearLock.balance]

def quickLock : Transaction :=
  let tx := Transaction.plain 0x66 0xBB 1000000000000000 3 45
  .hashed { tx with txData := { tx.txData with
    lockedAmount := 1000000000000000
    releasePerBlock := 1000000000000000
    delegatedAccountForLocking := getDelegatedAccountAddress 2 } }

def quickLockNode : Node Unit :=
  .small [{ address := 0x66, balance := 1000000000100000 }] [quickLock]

def quickLockBlock : Block := quickLockNode.nextBlock 50 [quickLock.hash]

/-- The lock an accepted block makes is released one block later and locks again at height 9276. -/
theorem released_lock_relocks :
    ∃ block t, checkBlockAndTransferFunds Env.permissive quickLockBlock
        (quickLockNode.parentBlock 49) quickLockNode = .ok block t ∧
      (t.ledger.entryAt (2, 0xBB)).linearLocks =
        [⟨1000000000000000, 1000000000000000, 50⟩] ∧
      (t.ledger.entryAt (2, 0xBB)).lockedAt 51 = 0 ∧
      outstanding (t.ledger.entryAt (2, 0xBB)).linearLocks 9276 = 0 ∧
      (t.ledger.entryAt (2, 0xBB)).lockedAt 9276 = 9221744073709551616 := by
  decide +kernel

end QwidNode.Guarantees
