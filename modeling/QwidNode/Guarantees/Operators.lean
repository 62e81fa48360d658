import QwidNode.Source.Ranking
import QwidNode.Source.Stakes
import QwidNode.Guarantees.StakingEntries

/-!
# One operator per delegated account

`GetStakedInDelegatedAccount` and `eligibleOperatorLocked` look for the operator of a delegated
account in two loops that begin with different choices; one reads the address off the entry, the
other off the key of the map. Where entries are filed under their address and an operational entry
has a stake, both find the same operator in every order of the map.
-/
namespace QwidNode.Guarantees
open Lib Source Ledger Word
variable {l l' : Ledger} {n : Nat} {h h' : StakingHistory}

def OperationalEntry (l : Ledger) (n : Nat) (a : AddressBytes) : Prop :=
  ∃ e, l.staking.lookup (n, a) = some e ∧ e.operationalAccount = true

theorem mem_candidates {c : AddressBytes × Int64 × Int64 × Bool} : c ∈ l.candidates n ↔
    ∃ e, l.staking.lookup (n, c.1) = some e ∧ c.2 = eligibilityFields e := by
  rw [candidates, List.mem_map]
  constructor
  · rintro ⟨e, member, rfl⟩
    exact ⟨e.2, mem_shardEntries.mp member, rfl⟩
  · rintro ⟨e, found, fields⟩
    exact ⟨(c.1, e), mem_shardEntries.mpr found, Prod.ext rfl fields.symm⟩

/-- Entries are filed under their address, and the operational ones have a stake. -/
structure OperatorsStaked (l : Ledger) : Prop where
  filed : ∀ key e, l.staking.lookup key = some e → e.address = key.2
  staked : ∀ key, (l.entryAt key).operationalAccount = true →
    0 < (l.entryAt key).stakedBalance.toInt

/-- A stake leaves a positive sum that fits a word; only a negative stake can leave another. -/
def StakeFits : StakingCall → Ledger → Prop
  | .stake a c, l =>
    0 < (l.entryAt (c.delegatedAccount, a)).stakedBalance.toInt + c.amount.toInt ∧
      (l.entryAt (c.delegatedAccount, a)).stakedBalance.toInt + c.amount.toInt < 2 ^ 63
  | _, _ => True

theorem selections_agree (state : OperatorsStaked l) {a : AddressBytes}
    (operational : OperationalEntry l n a) :
    (l.getStakedInDelegatedAccount n).2.2 = (l.selectedOperator n).2.2 ∧
      OperationalEntry l n (l.selectedOperator n).2.2 := by
  obtain ⟨e, found, flagged⟩ := operational
  have listed : (a, eligibilityFields e) ∈ l.candidates n :=
    mem_candidates.mpr ⟨e, found, rfl⟩
  have unstaked : (((-1, 0, 0) : OperatorChoice).1).toInt ≤ 0 := by decide
  have empty : (((0, 0, 0) : OperatorChoice).1).toInt ≤ 0 := by decide
  have entry : l.entryAt (n, a) = e := by rw [entryAt, found]; rfl
  have stake := state.staked (n, a) (by rw [entry]; exact flagged)
  rw [entry] at stake
  obtain ⟨same, d, inside, operational, chosen⟩ :=
    foldl_select_agree unstaked empty _ listed flagged stake
  rw [getStakedInDelegatedAccount_candidates l n state.filed, selectedOperator_candidates,
    same]
  refine ⟨rfl, ?_⟩
  rw [← same, chosen]
  obtain ⟨e', stored, fields⟩ := mem_candidates.mp inside
  rw [fields] at operational
  exact ⟨e', stored, operational⟩

theorem selectedOperator_of_same (same : SameEntries l l') (n : Nat) :
    l'.selectedOperator n = l.selectedOperator n := by
  rw [selectedOperator_candidates, selectedOperator_candidates]
  exact (candidates_perm (fun k => by rw [same k]) n).foldl_eq'
    (fun x _ y _ best => select_right_comm best x y) _

theorem operator_of_top128 {a : AddressBytes} (top : l.isTop128StakingNode n a = true) :
    a = (l.selectedOperator n).2.2 := by
  unfold isTop128StakingNode at top
  split at top
  · cases top
  · obtain ⟨eligible, named⟩ := Bool.and_eq_true_iff.mp top
    unfold eligibleOperator at eligible named
    split at eligible
    · cases eligible
    · next enough =>
      rw [if_neg enough] at named
      dsimp only at eligible named
      split at eligible
      · cases eligible
      · next found =>
        rw [if_neg found] at named
        exact (beq_iff_eq.mp named).symm

theorem OperatorsStaked.of_same (state : OperatorsStaked l) (same : SameEntries l l') :
    OperatorsStaked l' := by
  have entries : ∀ key, l'.entryAt key = l.entryAt key := fun key => by
    rw [entryAt, same key]
    rfl
  exact ⟨fun key e found => state.filed key e (by rw [← same key]; exact found),
    fun key => by rw [entries]; exact state.staked key⟩

theorem staked_turn {call : StakingCall} {new : StakingAccount} (state : OperatorsStaked l)
    (fits : StakeFits call l) (turns : call.Turns (l.entryAt call.key) new)
    (flagged : new.operationalAccount = true) : 0 < new.stakedBalance.toInt := by
  have old := state.staked call.key
  have unchanged : call.staked = 0 →
      new.operationalAccount = (l.entryAt call.key).operationalAccount →
      0 < new.stakedBalance.toInt := by
    intro zero same
    rw [turns.stake, zero, Int64.add_zero]
    exact old (same ▸ flagged)
  cases call with
  | stake a c =>
    have sum : new.stakedBalance = (l.entryAt (c.delegatedAccount, a)).stakedBalance + c.amount :=
      turns.stake
    rw [sum, toInt_add_of_fits (by have := fits.1; omega) fits.2]
    exact fits.1
  | unstake a amount height stakingTime n =>
    have nonneg : 0 ≤ new.stakedBalance.toInt := by
      rw [turns.stake]
      exact turns.checked.2.1
    have different : new.stakedBalance.toInt ≠ 0 := fun zero =>
      turns.operational flagged (Int64.toInt_inj.mp zero)
    omega
  | reward | withdrawReward | setRandCommit => exact unchanged rfl turns.operational

theorem operatorsStaked_step (state : OperatorsStaked h.ledger)
    (step : StakingStep StakeFits h h') : OperatorsStaked h'.ledger := by
  cases step with
  | elsewhere staking changed => exact state.of_same fun key => by rw [staking]
  | call c made later allowed =>
    cases run : c.run h.ledger with
    | error e =>
      rw [StakingHistory.after_of_error run]
      exact state
    | ok l' =>
      obtain ⟨new, written, address, turns⟩ := StakingCall.turns_of_ok made run
      rw [StakingHistory.after_of_ok run]
      refine ⟨filed_insert state.filed written address, fun key => ?_⟩
      rw [entryAt_insert written]
      split
      · exact staked_turn state (allowed l' run) turns
      · exact state.staked key

theorem operatorsStaked_run {start : StakingHistory} (state : OperatorsStaked start.ledger)
    (run : StakingRun StakeFits start h) : OperatorsStaked h.ledger := by
  induction run with
  | refl => exact state
  | tail _ step ih => exact operatorsStaked_step ih step

section Agreement
variable (start h : StakingHistory) (state : OperatorsStaked start.ledger)
  (run : StakingRun StakeFits start h) (n : Nat) (a : AddressBytes)
  (operational : OperationalEntry h.ledger n a)
include state run operational

/-- In every history whose stakes fit a word, and in every order of the staking map, the reward
recipient check, the producer and signer check and the quorum name one operator, who has an
operational entry. -/
theorem one_operator :
    ∃ operator, OperationalEntry h.ledger n operator ∧
      ∀ l', SameEntries h.ledger l' →
        (l'.getStakedInDelegatedAccount n).2.2 = operator ∧
        (l'.selectedOperator n).2.2 = operator ∧
        (∀ a, l'.isTop128StakingNode n a = true → a = operator) ∧
        (l'.isEligibleDelegatedAccount n = true →
          (l'.stakeAndOperatorOfDelegated n).2 = operator) := by
  have state := operatorsStaked_run state run
  refine ⟨_, (selections_agree state operational).2, fun l' same => ?_⟩
  have here : OperationalEntry l' n a := by
    obtain ⟨e, found, flagged⟩ := operational
    exact ⟨e, by rw [same]; exact found, flagged⟩
  have agree := (selections_agree (state.of_same same) here).1
  have selected := selectedOperator_of_same same n
  refine ⟨by rw [agree, selected], by rw [selected], fun b top => ?_, fun eligible => ?_⟩
  · rw [operator_of_top128 top, selected]
  · unfold stakeAndOperatorOfDelegated
    rw [if_neg (by simp [eligible]), agree, selected]

end Agreement

/-- After genesis and a lock in the operator's entry the operator is named. -/
theorem operator_after_stake :
    ∃ operator, OperationalEntry (genesisStakes.after depositLock).ledger 2 operator ∧
      ((genesisStakes.after depositLock).ledger.getStakedInDelegatedAccount 2).2.2 = operator := by
  have step : StakingStep StakeFits genesisStakes (genesisStakes.after depositLock) :=
    .call _ _ ⟨by decide, by decide, by decide, by decide⟩ (by decide) fun _ _ =>
      ⟨by decide +kernel, by decide +kernel⟩
  have start : OperatorsStaked genesisStakes.ledger :=
    ⟨genesisStakes_sound.address, fun key => (genesisStakes_sound.entry key).operational⟩
  obtain ⟨operator, entry, named⟩ := one_operator genesisStakes (genesisStakes.after depositLock)
    start (.single step) 2 0xBB ⟨_, rfl, rfl⟩
  exact ⟨operator, entry, (named _ fun _ => rfl).1⟩

/-- A small operational stake and a large one that is not operational, both of delegated
account 2. -/
def sharedAccount (l : Ledger) : Ledger :=
  (((⟨l, 0, fun _ => []⟩ : StakingHistory).after
      (.stake 0xBB ⟨100000000000, 40, 1, 2, true, 0, 0, false⟩)).after
    (.stake 0xCC ⟨100000000000000, 40, 1, 2, false, 0, 0, false⟩)).ledger

def drainingTransfer (sender : AddressBytes) (gasPrice : Int64) : Transaction :=
  .hashed (.plain sender 0x77 99000000000 gasPrice 45)

/-- A lock of `2^63 - 5 * 10^10` with a fee of about `6 * 10^10`: fee plus amount is negative. -/
def hugeLock (sender : AddressBytes) (gasPrice : Int64) : Transaction :=
  .hashed { lockInto sender 9223371986854775808 gasPrice with gasUsage := 1200000 }

def sharedNode : Node Unit :=
  let node := Node.small [{ address := 0x55, balance := 100000000000 },
      { address := 0x66, balance := 100000000000 }, { address := 0x77 }]
    [drainingTransfer 0x55 1, drainingTransfer 0x66 2, hugeLock 0x55 50000, hugeLock 0x66 50001]
  { node with ledger := sharedAccount node.ledger }

def sharedBlock : Block := sharedNode.nextBlock 50
  [(drainingTransfer 0x55 1).hash, (drainingTransfer 0x66 2).hash, (hugeLock 0x55 50000).hash,
    (hugeLock 0x66 50001).hash]

instance (l : Ledger) (n : Nat) (a : AddressBytes) : Decidable (OperationalEntry l n a) :=
  inferInstanceAs (Decidable (∃ e ∈ l.staking.lookup (n, a), e.operationalAccount = true))

/-- The two locks of an accepted block bring the stake of the operational entry to 0. Then the
producer check accepts `0xBB` for delegated account 2 and `GetStakedInDelegatedAccount` names
nobody. -/
theorem wrapped_stake_splits_operator :
    ∃ block t, checkBlockAndTransferFunds Env.permissive sharedBlock (sharedNode.parentBlock 49)
        sharedNode = .ok block t ∧
      OperationalEntry t.ledger 2 0xBB ∧ t.ledger.isTop128StakingNode 2 0xBB = true ∧
      (t.ledger.selectedOperator 2).2.2 = 0xBB ∧
      (t.ledger.getStakedInDelegatedAccount 2).2.2 = 0 := by
  decide +kernel

end QwidNode.Guarantees
