import QwidNode.Source.RewardShares
import QwidNode.Guarantees.Operators

/-!
# The block reward is shared out exactly

`ProcessBlockTransfers` pays a block reward to the entries of the producing delegated account. The
stakers' shares are computed with big integers, the operator's part is not: its product of reward
and percentage is a 64-bit one.
-/
namespace QwidNode.Guarantees
open Lib Source AList
variable {σ : Type} {env : Env σ}

structure Shared (n : Nat) (reward others : Int) (l l' : Ledger) (raise : AddressBytes → Int) :
    Prop where
  nonneg : ∀ a, 0 ≤ raise a
  raised : ∀ a, (l'.entryAt (n, a)).stakingRewards =
    (l.entryAt (n, a)).stakingRewards + Int64.ofInt (raise a)
  total : ((l'.shardEntries n).map fun e => raise e.1).sum = reward
  /-- Every staker gets its part of what is not the operator's, rounded down, or more. -/
  share : ∀ a, others * (l.entryAt (n, a)).stakedBalance.toInt /
    ((l.shard n).map (·.stakedBalance.toInt)).sum ≤ raise a
  elsewhere : ∀ key, key.1 ≠ n →
    (l'.entryAt key).stakingRewards = (l.entryAt key).stakingRewards

def KeepsRewards (s t : Node σ) : Prop :=
  ∀ key, (t.ledger.staking.lookup key).map (·.stakingRewards) =
    (s.ledger.staking.lookup key).map (·.stakingRewards)

instance : IsPreorder (Node σ) KeepsRewards where
  refl _ _ := rfl
  trans _ _ _ first second key := (second key).trans (first key)

theorem KeepsRewards.isSome {s t : Node σ} (keeps : KeepsRewards s t) (key : Nat × AddressBytes) :
    (t.ledger.staking.lookup key).isSome = (s.ledger.staking.lookup key).isSome := by
  have same := congrArg Option.isSome (keeps key)
  rwa [Option.isSome_map, Option.isSome_map] at same

theorem KeepsRewards.entryAt {s t : Node σ} (keeps : KeepsRewards s t) (key : Nat × AddressBytes) :
    (t.ledger.entryAt key).stakingRewards = (s.ledger.entryAt key).stakingRewards := by
  have read : ∀ o : Option StakingAccount,
      (o.getD {}).stakingRewards = (o.map (·.stakingRewards)).getD 0 := by
    intro o
    cases o with
    | none => rfl
    | some e => rfl
  rw [Ledger.entryAt, Ledger.entryAt, read, read, keeps key]

theorem KeepsRewards.of_staking {s t : Node σ} (same : t.ledger.staking = s.ledger.staking) :
    KeepsRewards s t := fun _ => by rw [same]

theorem keepsRewards_escrow (height : Int64) :
    Respects KeepsRewards (processTransactionsEscrow env height) := by
  have moves : ApplyMoves env LedgerOp.OnAccounts (fun _ => True) (KeepsRewards (σ := σ)) := by
    refine .of_poolFrame (fun frame => .of_staking (by rw [frame.ledger]))
      ⟨fun accounts writes => ?_, fun s _ _ => .of_staking rfl⟩
    exact .of_staking (LedgerOp.staking_of_onAccounts accounts writes).1
  refine moves.processTransactionsEscrow (fun held op settles => ?_) fun _ _ => trivial
  cases settles with
  | _ => trivial

section Block
variable {block : Block} {n : Nat} {reward : Int64} {s u : Node σ}

theorem applyRandaoCommit_keeps (delegated : intDelegatedAccountFromAddress block.delegatedAccount =
      some n) (id : 1 ≤ n ∧ n ≤ 255)
    (stored : (s.ledger.staking.lookup (n, block.operatorAccount.byteValue)).isSome = true) :
    ∃ t, applyRandaoCommit block s = .ok () t ∧ KeepsRewards s t := by
  obtain ⟨e, found⟩ := Option.isSome_iff_exists.mp stored
  unfold applyRandaoCommit
  split
  · exact ⟨s, rfl, fun _ => rfl⟩
  · simp only [delegated]
    rw [failIf_bind, if_neg (by omega)]
    have run : ∃ e' : StakingAccount, e'.stakingRewards = e.stakingRewards ∧
        s.ledger.setRandCommit n block.operatorAccount.byteValue block.randCommit block.height =
          .ok { s.ledger with
            staking := s.ledger.staking.insert (n, block.operatorAccount.byteValue) e' } := by
      unfold Ledger.setRandCommit
      rw [found]
      exact ⟨{ e with randCommit := block.randCommit, randCommitHeight := block.height }, rfl, rfl⟩
    obtain ⟨e', same, run⟩ := run
    refine ⟨_, liftLedger_eq_ok.mpr ⟨_, run, rfl⟩, fun key => ?_⟩
    dsimp only
    by_cases here : key = (n, block.operatorAccount.byteValue)
    · rw [here, lookup_insert, found]
      exact congrArg some same
    · rw [lookup_insert_ne here]

theorem processBlockTransfers_of_transactions
    (transactions : block.transactionsHashes.forM (processBlockTx env block)
      (s.beginPendingPoolJournal block.height) = .ok () u) :
    processBlockTransfers env block reward s = withDefer (do
      rewardBlock env block reward
      applyRandaoCommit block
      logError (processTransactionsEscrow env block.height)) Node.endPendingPoolJournal u := by
  unfold processBlockTransfers
  rw [modify_bind_run, withDefer, withDefer, bind_of_ok transactions]

variable (transactions : block.transactionsHashes.forM (processBlockTx env block)
    (s.beginPendingPoolJournal block.height) = .ok () u)
  (rewardable : Rewardable block n u.ledger)
  (accepted : 0 ≤ block.rewardPercentage ∧ block.rewardPercentage ≤ 500) (hr : 0 ≤ reward)

theorem percentage_bounds (accepted : 0 ≤ block.rewardPercentage ∧ block.rewardPercentage ≤ 500) :
    0 ≤ block.rewardPercentage.toInt ∧ block.rewardPercentage.toInt ≤ 500 := by
  rw [Int16.le_iff_toInt_le, Int16.le_iff_toInt_le] at accepted
  exact accepted

theorem share_le_gained {l : Ledger} (rewardable : Rewardable block n l) (hr : 0 ≤ reward.toInt)
    (capped : block.rewardPercentage.toInt ≤ 500) (least : 0 ≤ block.rewardPercentage.toInt)
    (nonneg : ∀ p ∈ rewardPayments block.operatorAccount.byteValue reward block.rewardPercentage
      (l.getStakedInDelegatedAccount n).2.1 (l.getStakedInDelegatedAccount n).1, 0 ≤ p.2.toInt)
    (a : AddressBytes) :
    (reward.toInt - reward.toInt * block.rewardPercentage.toInt / 1000) *
        (l.entryAt (n, a)).stakedBalance.toInt / ((l.shard n).map (·.stakedBalance.toInt)).sum ≤
      gained (rewardPayments block.operatorAccount.byteValue reward block.rewardPercentage
        (l.getStakedInDelegatedAccount n).2.1 (l.getStakedInDelegatedAccount n).1) a := by
  have sum := rewardable.sum
  have positive := rewardable.positive
  have part := operatorReward_le_exact hr least
  have most := exact_operatorReward_le hr capped
  by_cases stake : 0 < (l.entryAt (n, a)).stakedBalance
  · have staked := Word.lt_iff.mp stake
    rw [Word.toInt_zero] at staked
    cases found : l.staking.lookup (n, a) with
    | none =>
      rw [Ledger.entryAt, found] at staked
      exact absurd staked (by decide)
    | some e =>
      have entry : l.entryAt (n, a) = e := by rw [Ledger.entryAt, found]; rfl
      rw [entry] at stake staked ⊢
      have own : e.address = a := rewardable.filed (n, a) e found
      have member : (a, e.stakedBalance) ∈ (l.getStakedInDelegatedAccount n).1 := by
        rw [Ledger.staked_candidates rewardable.filed, Ledger.candidates, List.map_map]
        exact List.mem_map.mpr ⟨(a, e), Ledger.mem_shardEntries.mpr found, rfl⟩
      have whole := l.sum_staked n
      have within : e.stakedBalance.toInt ≤ _ := stake_le_sum rewardable.staked_nonneg member
      have left : (reward - reward * block.rewardPercentage.toInt64 / 1000).toInt =
          reward.toInt - (reward * block.rewardPercentage.toInt64 / 1000).toInt := by
        have range := Word.toInt_range reward
        have operator := nonneg _ List.mem_cons_self
        dsimp only at operator
        exact Word.toInt_sub_of_fits (by omega) (by omega)
      have payment : (a, userReward (reward - reward * block.rewardPercentage.toInt64 / 1000)
          (l.getStakedInDelegatedAccount n).2.1 e.stakedBalance) ∈ rewardPayments
          block.operatorAccount.byteValue reward block.rewardPercentage
          (l.getStakedInDelegatedAccount n).2.1 (l.getStakedInDelegatedAccount n).1 := by
        refine List.mem_append_left _ (List.mem_cons_of_mem _ ?_)
        exact List.mem_map.mpr ⟨_, List.mem_filter.mpr ⟨member, decide_eq_true stake⟩, rfl⟩
      refine Int.le_trans ?_ (le_classSum nonneg payment)
      dsimp only
      rw [toInt_userReward (by omega) (by omega) (by omega) (by omega), sum, left]
      exact Int.ediv_le_ediv positive (Int.mul_le_mul_of_nonneg_right (by omega) (by omega))
  · have none : (l.entryAt (n, a)).stakedBalance.toInt = 0 := by
      rw [Word.lt_iff, Word.toInt_zero] at stake
      have least := rewardable.stakes a
      omega
    rw [none, Int.mul_zero, Int.zero_ediv]
    exact classSum_nonneg nonneg a

include transactions rewardable accepted hr

theorem shared_of_shareFits (fits : ShareFits reward block.rewardPercentage) :
    ∃ t raise, processBlockTransfers env block reward s = .ok () t ∧
      Shared n reward.toInt
        (reward.toInt - reward.toInt * block.rewardPercentage.toInt / 1000)
        u.ledger t.ledger raise := by
  obtain ⟨least, capped⟩ := percentage_bounds accepted
  have hr := Word.le_iff.mp hr
  rw [Word.toInt_zero] at hr
  obtain ⟨payments, l, listed, paying, paid, total, nonneg⟩ : ∃ payments l, _ ∧
      rewardBlock env block reward u = .ok () { u with ledger := l } ∧ _ :=
    rewardBlock_paid rewardable hr capped least fits
  -- the operator is among the paid, so its commitment can be recorded
  have first : block.operatorAccount.byteValue ∈ payments.map (·.1) := by
    rw [listed]
    exact List.mem_cons_self
  obtain ⟨v, committed, keeps⟩ : ∃ v, applyRandaoCommit block { u with ledger := l } = .ok () v ∧ _ :=
    applyRandaoCommit_keeps rewardable.delegated rewardable.id
      ((paid.stored block.operatorAccount.byteValue).mpr (.inr first))
  have settled : KeepsRewards v (finalState (processTransactionsEscrow env block.height v)) :=
    keepsRewards_escrow block.height v
  have after : KeepsRewards { u with ledger := l } (finalState (processTransactionsEscrow env
    block.height v)).endPendingPoolJournal := trans_of KeepsRewards keeps settled
  refine ⟨(finalState (processTransactionsEscrow env block.height v)).endPendingPoolJournal,
    gained payments, ?_, ?_⟩
  · rw [processBlockTransfers_of_transactions transactions]
    exact withDefer_eq_ok.mpr ⟨_, (bind_of_ok paying).trans ((bind_of_ok committed).trans rfl), rfl⟩
  · refine
      { nonneg := fun a => classSum_nonneg nonneg a
        raised := fun a => (after.entryAt (n, a)).trans (paid.stakingRewards a)
        total := (sum_gained fun p member => ?_).trans total
        share := fun a => ?_
        elsewhere := fun key other => ?_ }
    · rw [after.isSome]
      exact (paid.stored p.1).mpr (.inr (List.mem_map_of_mem member))
    · rw [listed] at nonneg ⊢
      exact share_le_gained rewardable hr capped least nonneg a
    · rw [after.entryAt, Ledger.entryAt, Ledger.entryAt, paid.elsewhere key other]

/-- In every staking state whose stakes are not negative and add up to a positive word, and with
every accepted percentage: `ProcessBlockTransfers` shares the reward out exactly, exactly when the
product of reward and percentage does not wrap to a negative number. The rest is never negative,
and the resulting entries do not depend on the order of the map. No reward of `GetReward` wraps. -/
theorem reward_shared_exactly :
    ((∃ t raise, processBlockTransfers env block reward s = .ok () t ∧
        Shared n reward.toInt
          (reward.toInt - reward.toInt * block.rewardPercentage.toInt / 1000)
          u.ledger t.ledger raise) ↔ ShareFits reward block.rewardPercentage) ∧
    (∀ t, processBlockTransfers env block reward s ≠ .error .restNegative t) ∧
    (∀ l', u.ledger.SameEntries l' →
      (∃ t t', rewardBlock env block reward u = .ok () { u with ledger := t } ∧
        rewardBlock env block reward { u with ledger := l' } = .ok () { u with ledger := t' } ∧
        t.SameEntries t') ∨
      (rewardBlock env block reward u = .error .rewardNegative u ∧
        rewardBlock env block reward { u with ledger := l' } =
          .error .rewardNegative { u with ledger := l' })) ∧
    ∀ supply, ShareFits (getReward supply) block.rewardPercentage := by
  obtain ⟨least, capped⟩ := percentage_bounds accepted
  have nonneg := Word.le_iff.mp hr
  rw [Word.toInt_zero] at nonneg
  have refused : ¬ ShareFits reward block.rewardPercentage →
      processBlockTransfers env block reward s =
        .error .rewardNegative u.endPendingPoolJournal := by
    intro wraps
    have stopped : rewardBlock env block reward u = .error .rewardNegative u :=
      rewardBlock_refused rewardable capped wraps
    rw [processBlockTransfers_of_transactions transactions, withDefer, bind_of_error stopped]
  refine ⟨⟨fun ⟨t, raise, run, _⟩ => ?_, shared_of_shareFits transactions rewardable accepted hr⟩,
    fun t run => ?_, fun l' same => ?_, fun supply => ?_⟩
  · by_contra wraps
    rw [refused wraps] at run
    cases run
  · by_cases fits : ShareFits reward block.rewardPercentage
    · obtain ⟨t', raise, done, -⟩ := shared_of_shareFits transactions rewardable accepted hr fits
      rw [done] at run
      cases run
    · rw [refused fits] at run
      cases run
  · have rewardable' : Rewardable block n { u with ledger := l' }.ledger := rewardable.same same
    by_cases fits : ShareFits reward block.rewardPercentage
    · obtain ⟨payments, t, listed, run, paid, -⟩ : ∃ payments t, _ ∧
          rewardBlock env block reward u = .ok () { u with ledger := t } ∧ _ :=
        rewardBlock_paid rewardable nonneg capped least fits
      obtain ⟨payments', t', listed', run', paid', -⟩ : ∃ payments t', _ ∧
          rewardBlock env block reward { u with ledger := l' } = .ok () { u with ledger := t' } ∧ _ :=
        rewardBlock_paid rewardable' nonneg capped least fits
      refine .inl ⟨t, t', run, run', paid.sameEntries paid' same fun a => ?_⟩
      rw [listed, listed']
      exact rewardPayments_same rewardable.filed same _ _ _ a
    · exact .inr ⟨rewardBlock_refused rewardable capped fits,
        rewardBlock_refused rewardable' capped fits⟩
  · obtain ⟨low, high⟩ := getReward_range supply
    have product : 0 ≤ (getReward supply).toInt * block.rewardPercentage.toInt :=
      Int.mul_nonneg low least
    have small : (getReward supply).toInt * block.rewardPercentage.toInt ≤
        (getReward supply).toInt * 500 := Int.mul_le_mul_of_nonneg_left capped low
    rw [ShareFits, Int.bmod_eq_of_le (by omega) (by omega)]
    omega

end Block

def rewardedBlock : Block := { Block.operated 50 0 [] with rewardPercentage := 500 }

theorem rewardable_small : Rewardable rewardedBlock 1 (Node.small [] []).ledger := by
  have entry : (Node.small [] []).ledger.staking = (∅ : FinMap _ StakingAccount).insert (1, 0xAA)
    _ := rfl
  refine ⟨by decide +kernel, by decide, fun key e found => ?_, by decide +kernel, fun a => ?_,
    by decide +kernel, by decide +kernel⟩
  · rw [entry] at found
    by_cases here : key = (1, 0xAA)
    · rw [here, lookup_insert] at found
      cases found
      rw [here]
    · rw [lookup_insert_ne here] at found
      cases found
  · rw [Ledger.entryAt_insert (l := {}) entry]
    split
    · decide
    · exact Int.le_refl 0

def journaledSmall : Node Unit := (Node.small [] []).beginPendingPoolJournal rewardedBlock.height

theorem rewardedBlock_started (s : Node Unit) : rewardedBlock.transactionsHashes.forM
    (processBlockTx Env.permissive rewardedBlock) s = .ok () s := rfl

def twoStakers : Node Unit :=
  { Node.small [] [] with
    ledger := { (Node.small [] []).ledger with
      staking := (Node.small [] []).ledger.staking.insert (1, 0xBB)
        { stakedBalance := Common.minStakingForNode / 2, address := 0xBB } } }

theorem rewardable_twoStakers : Rewardable rewardedBlock 1 twoStakers.ledger := by
  have entry : twoStakers.ledger.staking = (Node.small [] []).ledger.staking.insert (1, 0xBB)
    _ := rfl
  refine ⟨by decide +kernel, by decide, fun key e found => ?_, by decide +kernel, fun a => ?_,
    by decide +kernel, by decide +kernel⟩
  · rw [entry] at found
    by_cases here : key = (1, 0xBB)
    · rw [here, lookup_insert] at found
      cases found
      rw [here]
    · rw [lookup_insert_ne here] at found
      exact rewardable_small.filed key e found
  · rw [Ledger.entryAt_insert entry]
    split
    · decide
    · exact rewardable_small.stakes a

/-- A reward of 10^9 coins to two stakers: the floors of their shares leave a rest. -/
theorem small_reward_shared :
    ∃ t raise, processBlockTransfers Env.permissive rewardedBlock 1000000000 twoStakers =
        .ok () t ∧
      Shared 1 1000000000 500000000 twoStakers.ledger t.ledger raise := by
  have shared := (reward_shared_exactly (s := twoStakers)
    (rewardedBlock_started (Node.beginPendingPoolJournal twoStakers rewardedBlock.height))
    rewardable_twoStakers (by decide) (by decide)).1.mpr
    (by decide +kernel : ShareFits 1000000000 500)
  exact shared

/-- With a reward of `2 ^ 55` and a percentage of 500 the operator's part is negative, and the block
fails. -/
theorem large_reward_refused :
    ∃ t, processBlockTransfers Env.permissive rewardedBlock 36028797018963968 (.small [] []) =
      .error .rewardNegative t := by
  have rewardable : Rewardable rewardedBlock 1 journaledSmall.ledger := rewardable_small
  have stopped : rewardBlock Env.permissive rewardedBlock 36028797018963968 journaledSmall =
      .error .rewardNegative journaledSmall :=
    rewardBlock_refused rewardable (by decide)
      (by decide +kernel : ¬ ShareFits 36028797018963968 500)
  rw [processBlockTransfers_of_transactions (rewardedBlock_started journaledSmall), withDefer,
    bind_of_error stopped]
  exact ⟨_, rfl⟩

end QwidNode.Guarantees
