import QwidNode.Source.Blocks
import QwidNode.Source.StakingCalls

/-!
# The invariant of staking entries

In every history of staking calls whose sums fit a word, the entries have no negative stake or
rewards, their three lock slices run in parallel and hold the unreleased locks in the order in
which they were made, and an operational entry has a stake. A call keeps this exactly when it
fails or its sum fits; `lock_wraps_stake` is an accepted block whose sum does not.
-/
namespace QwidNode.Guarantees
open Lib Source Ledger Word StakingCall Function
variable {a : AddressBytes} {old : StakingAccount}

structure EntrySound (e : StakingAccount) : Prop where
  stake : 0 ≤ e.stakedBalance.toInt
  reward : 0 ≤ e.stakingRewards.toInt
  parallel : e.Parallel
  operational : e.operationalAccount = true → 0 < e.stakedBalance.toInt

def unreleased (t : Int) (ks : List LinearLock) : List LinearLock :=
  ks.filter fun k => decide (k.Unreleased t)

structure LocksKept (h : StakingHistory) : Prop where
  height : 0 ≤ h.height.toInt
  parallel : ∀ key, (h.ledger.entryAt key).Parallel
  /-- The slices hold locks that were made, in order, and every unreleased one. -/
  locks : ∀ key, (h.ledger.entryAt key).linearLocks.Sublist (h.made key) ∧
    ∀ t, h.height.toInt ≤ t →
      unreleased t (h.ledger.entryAt key).linearLocks = unreleased t (h.made key)
  made : ∀ key, ∀ k ∈ h.made key, k.Valid ∧ 0 ≤ k.start ∧ k.start ≤ h.height.toInt

structure HistorySound (h : StakingHistory) : Prop extends LocksKept h where
  entry : ∀ key, EntrySound (h.ledger.entryAt key)
  address : ∀ key e, h.ledger.staking.lookup key = some e → e.address = key.2

def InRange : StakingCall → Ledger → Prop
  | .stake a c, l =>
    (l.entryAt (c.delegatedAccount, a)).stakedBalance.toInt + c.amount.toInt < 2 ^ 63
  | .reward a amount _ _ n, l => (l.entryAt (n, a)).stakingRewards.toInt + amount.toInt < 2 ^ 63
  | _, _ => True

variable {h : StakingHistory} {call : StakingCall} {l l' : Ledger} {new : StakingAccount}

theorem add_nonneg_iff {a b : Int64} (ha : 0 ≤ a.toInt) (hb : 0 ≤ b.toInt) :
    0 ≤ (a + b).toInt ↔ a.toInt + b.toInt < 2 ^ 63 := by
  have left := toInt_range a
  have right := toInt_range b
  rcases toInt_add_cases a b with h | h | h <;> omega

theorem entrySound_stake_iff {c : StakeCall} (made : (StakingCall.stake a c).Made)
    (old : EntrySound (l.entryAt (c.delegatedAccount, a)))
    (turns : (StakingCall.stake a c).Turns (l.entryAt (c.delegatedAccount, a)) new) :
    EntrySound new ↔ InRange (.stake a c) l := by
  have least : Common.minStakingUser.toInt = 100000000000 := by decide
  have amount := le_iff.mp made.1
  have sum : new.stakedBalance = (l.entryAt (c.delegatedAccount, a)).stakedBalance + c.amount :=
    turns.stake
  have nonneg := add_nonneg_iff old.stake (show 0 ≤ c.amount.toInt by omega)
  rw [← sum] at nonneg
  have same : new.stakingRewards = (l.entryAt (c.delegatedAccount, a)).stakingRewards :=
    turns.reward.trans (Int64.add_zero _)
  refine ⟨fun sound => nonneg.mp sound.stake, fun fits => ?_⟩
  have stake := old.stake
  have exact' : new.stakedBalance.toInt = _ :=
    (congrArg Int64.toInt sum).trans (toInt_add_of_fits (by omega) fits)
  exact ⟨nonneg.mpr fits, by rw [same]; exact old.reward, (turns.locks old.parallel).2,
    fun _ => by omega⟩

theorem entrySound_unstake {amount height stakingTime : Int64} {n : Nat} (sound : EntrySound old)
    (turns : (StakingCall.unstake a amount height stakingTime n).Turns old new) :
    EntrySound new := by
  have sum : new.stakedBalance = old.stakedBalance + amount := turns.stake
  have same : new.stakingRewards = old.stakingRewards := turns.reward.trans (Int64.add_zero _)
  have nonneg : 0 ≤ new.stakedBalance.toInt := by
    rw [sum]
    exact turns.checked.2.1
  refine ⟨nonneg, by rw [same]; exact sound.reward, (turns.locks sound.parallel).2,
    fun flagged => ?_⟩
  have different : new.stakedBalance.toInt ≠ 0 := fun zero =>
    turns.operational flagged (Int64.toInt_inj.mp zero)
  omega

theorem entrySound_of_same (sound : EntrySound old) (turns : call.Turns old new)
    (stake : call.staked = 0) (operational : new.operationalAccount = old.operationalAccount) :
    EntrySound new ↔ 0 ≤ new.stakingRewards.toInt := by
  have same : new.stakedBalance = old.stakedBalance := by
    rw [turns.stake, stake, Int64.add_zero]
  refine ⟨fun sound => sound.reward, fun reward => ?_⟩
  refine ⟨by rw [same]; exact sound.stake, reward, (turns.locks sound.parallel).2, fun flagged => ?_⟩
  rw [same]
  exact sound.operational (operational ▸ flagged)

theorem entrySound_iff (made : call.Made) (old : EntrySound (l.entryAt call.key))
    (turns : call.Turns (l.entryAt call.key) new) : EntrySound new ↔ InRange call l := by
  cases call with
  | stake a c => exact entrySound_stake_iff made old turns
  | unstake a amount height stakingTime n => exact iff_of_true (entrySound_unstake old turns) trivial
  | reward a amount height now n =>
    rw [entrySound_of_same old turns rfl turns.operational, turns.reward]
    exact add_nonneg_iff old.reward turns.checked
  | withdrawReward a amount height now n =>
    rw [entrySound_of_same old turns rfl turns.operational, turns.reward]
    exact iff_of_true turns.checked.2 trivial
  | setRandCommit n a commit height =>
    have same : new.stakingRewards = _ := turns.reward.trans (Int64.add_zero _)
    rw [entrySound_of_same old turns rfl turns.operational, same]
    exact iff_of_true old.reward trivial

theorem keeps_of_unreleased {k : LinearLock} (valid : k.Valid)
    (begun : k.start ≤ call.height.toInt) (still : k.Unreleased call.height.toInt) :
    call.keeps k = true := by
  cases call with
  | unstake a amount height stakingTime n => exact StakingAccount.kept_of_unreleased valid begun still
  | _ => rfl

theorem lockMade_valid (turns : call.Turns old new) (nonneg : 0 ≤ call.height.toInt) :
    ∀ k ∈ call.lockMade, k.Valid ∧ 0 ≤ k.start ∧ k.start ≤ call.height.toInt := by
  intro k member
  cases call with
  | stake a c =>
    rw [lockMade] at member
    by_cases locked : 0 < c.lockedAmount
    · rw [if_pos locked, List.mem_singleton] at member
      subst member
      obtain ⟨release, within, -⟩ := turns.checked
      exact ⟨⟨Int.le_of_lt (lt_iff.mp locked), release, within, c.lockedAmount.toInt_lt⟩, nonneg,
        Int.le_refl _⟩
    · rw [if_neg locked] at member
      cases member
  | _ => cases member

theorem unreleased_append (t : Int) (ks ks' : List LinearLock) :
    unreleased t (ks ++ ks') = unreleased t ks ++ unreleased t ks' := List.filter_append ks ks'

theorem LocksKept.later (kept : LocksKept h) {height : Int64}
    (later : h.height.toInt ≤ height.toInt) : LocksKept ⟨h.ledger, height, h.made⟩ where
  height := Int.le_trans kept.height later
  parallel := kept.parallel
  locks key := ⟨(kept.locks key).1, fun t after => (kept.locks key).2 t (Int.le_trans later after)⟩
  made key k member := by
    obtain ⟨valid, nonneg, begun⟩ := kept.made key k member
    exact ⟨valid, nonneg, Int.le_trans begun later⟩

theorem LocksKept.of_staking (kept : LocksKept h) (staking : l.staking = h.ledger.staking) :
    LocksKept { h with ledger := l } := by
  have same : ∀ key, l.entryAt key = h.ledger.entryAt key := fun key => by
    rw [entryAt, staking]
    rfl
  exact ⟨kept.height, fun key => by rw [same]; exact kept.parallel key,
    fun key => by rw [same]; exact kept.locks key, kept.made⟩

theorem LocksKept.turn (kept : LocksKept h) (later : h.height.toInt ≤ call.height.toInt)
    (written : l'.staking = h.ledger.staking.insert call.key new)
    (turns : call.Turns (h.ledger.entryAt call.key) new) :
    LocksKept ⟨l', call.height,
      Function.update h.made call.key (h.made call.key ++ call.lockMade)⟩ := by
  have entries := entryAt_insert written
  have nonneg := Int.le_trans kept.height later
  have made : ∀ k ∈ h.made call.key ++ call.lockMade,
      k.Valid ∧ 0 ≤ k.start ∧ k.start ≤ call.height.toInt := by
    intro k member
    rcases List.mem_append.mp member with before | now
    · obtain ⟨valid, start, begun⟩ := kept.made call.key k before
      exact ⟨valid, start, Int.le_trans begun later⟩
    · exact lockMade_valid turns nonneg k now
  have aged := kept.later later
  obtain ⟨slices, parallel⟩ := turns.locks (kept.parallel call.key)
  refine ⟨nonneg, fun key => ?_, fun key => ?_, fun key k member => ?_⟩
  · rw [entries]
    split
    · exact parallel
    · exact kept.parallel key
  · dsimp only
    rw [entries]
    by_cases here : key = call.key
    · rw [if_pos here, here, update_self, slices]
      obtain ⟨sub, same⟩ := aged.locks call.key
      refine ⟨(List.filter_sublist.trans sub).append (List.Sublist.refl _), fun t after => ?_⟩
      rw [unreleased_append, unreleased_append, ← same t after]
      -- what `Unstake` drops is released, now and later
      congr 1
      have known : ∀ k ∈ (h.ledger.entryAt call.key).linearLocks,
          k.Valid ∧ 0 ≤ k.start ∧ k.start ≤ call.height.toInt :=
        fun k member => aged.made call.key k (sub.subset member)
      exact LinearLock.filter_unreleased_filter (fun k member => (known k member).1) after
        fun k member still => keeps_of_unreleased (known k member).1 (known k member).2.2 still
    · rw [if_neg here, update_of_ne here]
      exact aged.locks key
  · dsimp only at member
    by_cases here : key = call.key
    · rw [here, update_self] at member
      exact made k member
    · rw [update_of_ne here] at member
      exact aged.made key k member

theorem filed_insert (filed : ∀ key e, l.staking.lookup key = some e → e.address = key.2)
    {at' : Nat × AddressBytes} (written : l'.staking = l.staking.insert at' new)
    (address : new.address = at'.2 ∨
      ∃ old, l.staking.lookup at' = some old ∧ new.address = old.address) :
    ∀ key e, l'.staking.lookup key = some e → e.address = key.2 := by
  intro key e found
  rw [written] at found
  by_cases here : key = at'
  · subst here
    rw [AList.lookup_insert] at found
    cases found
    rcases address with direct | ⟨old, stored, same⟩
    · exact direct
    · rw [same]
      exact filed _ old stored
  · rw [AList.lookup_insert_ne here] at found
    exact filed key e found

theorem historySound_after_iff (sound : HistorySound h) (made : call.Made)
    (later : h.height ≤ call.height) :
    HistorySound (h.after call) ↔
      (∃ e, call.run h.ledger = .error e) ∨ InRange call h.ledger := by
  have later := le_iff.mp later
  cases run : call.run h.ledger with
  | error e =>
    rw [StakingHistory.after_of_error run]
    exact iff_of_true ⟨sound.toLocksKept.later later, sound.entry, sound.address⟩ (.inl ⟨e, rfl⟩)
  | ok l' =>
    obtain ⟨new, written, address, turns⟩ := turns_of_ok made run
    rw [StakingHistory.after_of_ok run]
    have decides := entrySound_iff made (sound.entry call.key) turns
    constructor
    · intro after
      have entry := after.entry call.key
      rw [entryAt_insert written, if_pos rfl] at entry
      exact .inr (decides.mp entry)
    · intro cases
      rcases cases with ⟨e, failed⟩ | fits
      · cases failed
      · refine ⟨sound.toLocksKept.turn later written turns, fun key => ?_,
          filed_insert sound.address written address⟩
        rw [entryAt_insert written]
        split
        · exact decides.mpr fits
        · exact sound.entry key

theorem historySound_step {h' : StakingHistory} (sound : HistorySound h)
    (step : StakingStep InRange h h') : HistorySound h' := by
  cases step with
  | @elsewhere l staking changed =>
    refine ⟨sound.toLocksKept.of_staking staking, fun key => ?_,
      fun key e found => sound.address key e (by rw [← staking]; exact found)⟩
    have same : l.entryAt key = h.ledger.entryAt key := by
      rw [entryAt, staking]
      rfl
    rw [same]
    exact sound.entry key
  | call c made later allowed =>
    refine (historySound_after_iff sound made later).mpr ?_
    cases run : c.run h.ledger with
    | error e => exact .inl ⟨e, rfl⟩
    | ok l' => exact .inr (allowed l' run)

theorem historySound_run {start : StakingHistory} (sound : HistorySound start)
    (run : StakingRun InRange start h) : HistorySound h := by
  induction run with
  | refl => exact sound
  | tail _ step ih => exact historySound_step ih step

theorem third_party_lock {c : StakeCall} (made : (StakingCall.stake a c).Made)
    (third : c.thirdParty = true) (run : (StakingCall.stake a c).run l = .ok l') :
    (l'.entryAt (c.delegatedAccount, a)).operationalAccount =
        (l.entryAt (c.delegatedAccount, a)).operationalAccount ∧
      (l'.entryAt (c.delegatedAccount, a)).lastStakeHeight =
        (l.entryAt (c.delegatedAccount, a)).lastStakeHeight := by
  obtain ⟨new, written, -, turns⟩ := turns_of_ok made run
  have positive := lt_iff.mp (made.2.2.2 third).1
  have locked : c.lockedAmount ≠ 0 := by
    intro zero
    rw [zero] at positive
    exact absurd positive (by decide)
  have entry : l'.entryAt (c.delegatedAccount, a) = new :=
    (entryAt_insert written _).trans (if_pos rfl)
  rw [entry]
  exact ⟨turns.operational locked, turns.delayed.trans (if_pos third)⟩

section Histories
variable (start h : StakingHistory) (sound : HistorySound start) (run : StakingRun InRange start h)
include sound run

/-- In every history from sound entries whose sums fit, every entry is sound. From a sound history a
call leads to a sound one exactly when it fails or its sum fits. A third party's lock changes
neither flag nor delay, and a call that fails changes nothing. -/
theorem staking_entries_sound :
    HistorySound h ∧
    (∀ (h : StakingHistory) (call : StakingCall), HistorySound h → call.Made →
      h.height ≤ call.height →
      (HistorySound (h.after call) ↔
        (∃ e, call.run h.ledger = .error e) ∨ InRange call h.ledger)) ∧
    (∀ (l l' : Ledger) (a : AddressBytes) (c : StakeCall), (StakingCall.stake a c).Made →
      c.thirdParty = true → (StakingCall.stake a c).perform l = .ok () l' →
      (l'.entryAt (c.delegatedAccount, a)).operationalAccount =
          (l.entryAt (c.delegatedAccount, a)).operationalAccount ∧
        (l'.entryAt (c.delegatedAccount, a)).lastStakeHeight =
          (l.entryAt (c.delegatedAccount, a)).lastStakeHeight) ∧
    (∀ (call : StakingCall) (l l' : Ledger) (e : Error), call.perform l = .error e l' → l' = l) := by
  refine ⟨historySound_run sound run,
    fun _ _ sound made later => historySound_after_iff sound made later,
    fun l l' a c made third done => ?_, fun call l l' e failed => ?_⟩
  · rw [perform_eq] at done
    cases result : (StakingCall.stake a c).run l with
    | error e =>
      rw [result] at done
      cases done
    | ok m =>
      rw [result] at done
      cases done
      exact third_party_lock made third result
  · rw [perform_eq] at failed
    cases result : call.run l with
    | error e' =>
      rw [result] at failed
      cases failed
      rfl
    | ok m =>
      rw [result] at failed
      cases failed

end Histories

def noStakes : StakingHistory := ⟨{}, 0, fun _ => []⟩

def operatorStake : StakingCall :=
  .stake 0xBB ⟨100000000000000, 100, 1, 2, true, 0, 0, false⟩

def depositLock : StakingCall :=
  .stake 0xBB ⟨100000000000, 120, 2, 2, false, 100000000000, 1, true⟩

def partialUnstake : StakingCall := .unstake 0xBB (-100000000000) 136 3 2

def genesisEntry : StakingAccount where
  stakedBalance := 100000000000000
  address := 0xBB
  operationalAccount := true
  lockedInitBlock := [0]
  lockedAmount := [0]
  releasePerBlock := [0]
  stakingDetails := AList.insert (0 : Int64) [⟨100000000000000, 0, 1⟩] ∅

def genesisStakes : StakingHistory where
  ledger := { staking := AList.insert ((2 : Nat), (0xBB : AddressBytes)) genesisEntry ∅ }
  height := 0
  made key := if key = (2, 0xBB) then [⟨0, 0, 0⟩] else []

theorem genesisStakes_sound : HistorySound genesisStakes := by
  have entries : ∀ key, genesisStakes.ledger.entryAt key = if key = (2, 0xBB) then
      genesisEntry else {} := entryAt_insert (l := {}) rfl
  have none : ∀ key, key ≠ (2, 0xBB) → genesisStakes.made key = [] :=
    fun _ other => if_neg other
  have empty : EntrySound {} := ⟨Int.le_refl 0, Int.le_refl 0, ⟨rfl, rfl⟩, nofun⟩
  refine ⟨⟨Int.le_refl 0, fun key => ?_, fun key => ?_, fun key k member => ?_⟩, fun key => ?_,
    fun key e found => ?_⟩
  · rw [entries]
    split
    · exact ⟨rfl, rfl⟩
    · exact empty.parallel
  · rw [entries]
    by_cases here : key = (2, 0xBB)
    · rw [if_pos here, here]
      exact ⟨List.Sublist.refl _, fun _ _ => rfl⟩
    · rw [if_neg here, none key here]
      exact ⟨List.Sublist.refl _, fun _ _ => rfl⟩
  · by_cases here : key = (2, 0xBB)
    · rw [here] at member
      cases List.mem_singleton.mp member
      exact ⟨⟨by decide, by decide, by decide, by decide⟩, by decide, by decide⟩
    · rw [none key here] at member
      cases member
  · rw [entries]
    split
    · exact ⟨by decide, by decide, ⟨rfl, rfl⟩, fun _ => by decide⟩
    · exact empty
  · refine filed_insert (l := {}) nofun rfl (.inl ?_) key e found
    rfl

/-- A lock by a third party and an unstaking, after genesis. -/
theorem stake_lock_unstake_sound :
    HistorySound ((genesisStakes.after depositLock).after partialUnstake) ∧
      (((genesisStakes.after depositLock).after partialUnstake).ledger.entryAt
        (2, 0xBB)).stakedBalance = 100000000000000 := by
  have first : StakingStep InRange genesisStakes (genesisStakes.after depositLock) :=
    .call _ _ ⟨by decide, by decide, by decide, by decide⟩ (by decide) fun _ _ =>
      (by decide +kernel : _ + _ < (2 ^ 63 : Int))
  have second : StakingStep InRange (genesisStakes.after depositLock)
      ((genesisStakes.after depositLock).after partialUnstake) :=
    .call _ _ (by decide : 2 < 256) (by decide +kernel) fun _ _ => trivial
  have run := (Relation.ReflTransGen.single first).tail second
  refine ⟨(staking_entries_sound genesisStakes _ genesisStakes_sound run).1, ?_⟩
  decide +kernel

def lockInto (sender : AddressBytes) (amount gasPrice : Int64) : Transaction :=
  let tx := Transaction.plain sender 0xBB amount gasPrice 45
  .hashed { tx with txData := { tx.txData with
    lockedAmount := 100000000000
    releasePerBlock := 1
    delegatedAccountForLocking := getDelegatedAccountAddress 2 } }

/-- `0x55` first transfers most of its balance. What it has left is below the fee of its lock,
so the check pass computes `Balance - (fee + Amount)` without a wrap to a negative number. -/
def spendingTransfer : Transaction := .hashed (.plain 0x55 0x77 40000 2 45)

def lockingNode : Node Unit :=
  .small [{ address := 0x66, balance := 100000100000 }, { address := 0x55, balance := 100000 },
      { address := 0x77 }]
    [lockInto 0x66 100000000000 3, spendingTransfer, lockInto 0x55 9223372036854775807 1]

def lockingBlock : Block := lockingNode.nextBlock 50
  [(lockInto 0x66 100000000000 3).hash, spendingTransfer.hash,
    (lockInto 0x55 9223372036854775807 1).hash]

/-- The second lock of an accepted block makes the stake of the entry negative. -/
theorem lock_wraps_stake :
    ∃ block t, checkBlockAndTransferFunds Env.permissive lockingBlock (lockingNode.parentBlock 49)
        lockingNode = .ok block t ∧
      (t.ledger.entryAt (2, 0xBB)).stakedBalance.toInt < 0 := by
  decide +kernel

end QwidNode.Guarantees
