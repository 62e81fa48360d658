import QwidNode.Source.ApplyTraversal

/-!
# Histories of the staking state

Applying a block changes the staking state only through `Stake`, `StakeLockedFor`, `Unstake`,
`Reward`, `WithdrawReward` and `SetRandCommit` (`account/stakeAccount.go:110-347` and `:505-521`). A
history is a sequence of such calls, with the arguments that `blocks/processTransaction.go:437-520`,
`blocks/processBlock.go:637-683` and `blocks/randao.go` pass, at heights that do not fall.
-/
namespace QwidNode.Source
open Lib Ledger
variable {σ : Type} {l l' : Ledger}

namespace StakingCall

/-- The call statement by statement: an error leaves behind what was written before it. -/
def perform : StakingCall → EStateM Error Ledger Unit
  | stake a c => do
    let l ← get
    let acc := l.stakingAccount a c.delegatedAccount
    failIf (c.amount < 0) .stakedAmountNegative
    failIf (c.releasePerBlock < 0) .releaseNegative
    failIf (c.lockedAmount < c.releasePerBlock) .releaseAboveLocked
    failIf (c.lockedAmount < 0) .lockedNegative
    failIf (c.amount < c.lockedAmount) .lockedAboveAmount
    failIf (!c.thirdParty ∧ c.height < acc.lastStakeHeight + Common.minNumberOfBlocksInStake)
      .stakingMustBeDelayed
    modify fun l => l.putStaking c.delegatedAccount (stakedEntry acc a c)
    modify fun l =>
      { l with stakeChangedAt := l.stakeChangedAt.insert c.delegatedAccount c.stakingTime }
  | unstake a amount height stakingTime n => do
    let l ← get
    let acc := l.stakingAccount a n
    failIf (acc.address ≠ a) .noUnstakingAccount
    failIf (0 ≤ amount) .unstakedAmountNotNegative
    failIf (height < acc.lastStakeHeight + Common.minNumberOfBlocksInStake) .stakingMustBeDelayed
    failIf (acc.stakedBalance + amount < 0) .insufficientStakedBalance
    failIf (acc.stakedBalance - acc.lockedAt height + amount < 0)
      .insufficientStakedBalanceAfterLocking
    modify fun l => l.putStaking n (unstakedEntry acc amount height stakingTime)
    modify fun l => { l with stakeChangedAt := l.stakeChangedAt.insert n stakingTime }
  | reward a amount height now n => do
    let l ← get
    let acc := l.stakingAccount a n
    failIf (acc.address ≠ a) .noRewardingAccount
    failIf (amount < 0) .rewardNegative
    modify fun l => l.putStaking n ({ acc with
      stakingRewards := acc.stakingRewards + amount }.addDetail height ⟨0, amount, now⟩)
  | withdrawReward a amount height now n => do
    let l ← get
    let acc := l.stakingAccount a n
    failIf (acc.address ≠ a) .noWithdrawRewardingAccount
    failIf (0 ≤ amount) .withdrawAmountNotNegative
    failIf (acc.stakingRewards + amount < 0) .insufficientRewards
    modify fun l => l.putStaking n ({ acc with
      stakingRewards := acc.stakingRewards + amount }.addDetail height ⟨0, amount, now⟩)
  | setRandCommit n a commit height => do
    let l ← get
    match l.staking.lookup (n, a) with
    | none => throw .noStakingEntryForOperator
    | some acc => modify fun l => { l with
        staking := l.staking.insert (n, a)
          { acc with randCommit := commit, randCommitHeight := height } }

def outcome (l : Ledger) : Except Error Ledger → EStateM.Result Error Ledger Unit
  | .ok l' => .ok () l'
  | .error e => .error e l

theorem perform_eq (call : StakingCall) (l : Ledger) : call.perform l = outcome l (call.run l) := by
  cases call with
  | stake a c =>
    simp only [perform, run, Ledger.stake, get_bind_run, failIf_bind]
    split_ifs <;> rfl
  | unstake a amount height stakingTime n =>
    simp only [perform, run, Ledger.unstake, get_bind_run, failIf_bind]
    split_ifs <;> rfl
  | reward a amount height now n =>
    simp only [perform, run, Ledger.reward, get_bind_run, failIf_bind]
    split_ifs <;> rfl
  | withdrawReward a amount height now n =>
    simp only [perform, run, Ledger.withdrawReward, get_bind_run, failIf_bind]
    split_ifs <;> rfl
  | setRandCommit n a commit height =>
    simp only [perform, run, Ledger.setRandCommit, get_bind_run]
    cases l.staking.lookup (n, a) with
    | none => rfl
    | some acc => rfl

end StakingCall

/-- A staking state, the height of the last call, and the locks made so far. -/
structure StakingHistory where
  ledger : Ledger
  height : Int64
  made : Nat × AddressBytes → List LinearLock

namespace StakingHistory

def after (h : StakingHistory) (call : StakingCall) : StakingHistory :=
  match call.perform h.ledger with
  | .ok _ l => ⟨l, call.height,
      Function.update h.made call.key (h.made call.key ++ call.lockMade)⟩
  | .error _ l => ⟨l, call.height, h.made⟩

theorem after_of_ok {h : StakingHistory} {call : StakingCall} (run : call.run h.ledger = .ok l') :
    h.after call = ⟨l', call.height,
      Function.update h.made call.key (h.made call.key ++ call.lockMade)⟩ := by
  rw [after, call.perform_eq, run]
  rfl

theorem after_of_error {h : StakingHistory} {call : StakingCall} {e : Error}
    (run : call.run h.ledger = .error e) : h.after call = ⟨h.ledger, call.height, h.made⟩ := by
  rw [after, call.perform_eq, run]
  rfl

end StakingHistory

/-- One step of a history: something outside the staking state, or a call that block
application can make and that fails or is allowed. -/
inductive StakingStep (Allowed : StakingCall → Ledger → Prop) :
    StakingHistory → StakingHistory → Prop where
  | elsewhere (h : StakingHistory) {l : Ledger} (staking : l.staking = h.ledger.staking)
      (changed : l.stakeChangedAt = h.ledger.stakeChangedAt) :
      StakingStep Allowed h { h with ledger := l }
  | call (h : StakingHistory) (c : StakingCall) (made : c.Made) (later : h.height ≤ c.height)
      (allowed : ∀ l, c.run h.ledger = .ok l → Allowed c h.ledger) : StakingStep Allowed h (h.after c)

abbrev StakingRun (Allowed : StakingCall → Ledger → Prop) :
    StakingHistory → StakingHistory → Prop :=
  Relation.ReflTransGen (StakingStep Allowed)

def AnyCall (_ : StakingCall) (_ : Ledger) : Prop := True

def IsHistory (top : Int64) (s t : Node σ) : Prop :=
  ∀ h : StakingHistory, h.ledger = s.ledger → h.height ≤ top →
    ∃ h', StakingRun AnyCall h h' ∧ h'.ledger = t.ledger ∧ h'.height ≤ top

instance (top : Int64) : IsPreorder (Node σ) (IsHistory top) where
  refl _ h same low := ⟨h, .refl, same, low⟩
  trans _ _ _ first second h same low := by
    obtain ⟨h', run, same', low'⟩ := first h same low
    obtain ⟨h'', run', same'', low''⟩ := second h' same' low'
    exact ⟨h'', run.trans run', same'', low''⟩

theorem isHistory_of_staking {top : Int64} {s t : Node σ}
    (staking : t.ledger.staking = s.ledger.staking)
    (changed : t.ledger.stakeChangedAt = s.ledger.stakeChangedAt) : IsHistory top s t := by
  intro h same low
  exact ⟨{ h with ledger := t.ledger },
    .single (.elsewhere h (by rw [same]; exact staking) (by rw [same]; exact changed)), rfl, low⟩

theorem respects_call {top : Int64} (call : StakingCall) (made : call.Made)
    (height : call.height = top) : Respects (IsHistory top) (liftLedger call.run : NodeM σ Unit) := by
  intro s h same low
  refine ⟨h.after call, .single (.call h call made (by rw [height]; exact low) fun _ _ => trivial), ?_, ?_⟩
  · unfold liftLedger
    rw [get_bind_run]
    cases run : call.run s.ledger with
    | ok l =>
      rw [StakingHistory.after_of_ok (by rw [same]; exact run)]
      rfl
    | error e =>
      rw [StakingHistory.after_of_error (by rw [same]; exact run)]
      exact same
  · rw [← height, StakingHistory.after]
    split <;> exact Int64.le_refl _

theorem LedgerOp.staking_of_onAccounts {op : LedgerOp} (accounts : op.OnAccounts)
    (writes : op.Writes l l') :
    l'.staking = l.staking ∧ l'.stakeChangedAt = l.stakeChangedAt := by
  cases op with
  | entry b =>
    obtain ⟨acc, -, -, rfl⟩ := writes
    exact ⟨rfl, rfl⟩
  | policy b =>
    obtain ⟨acc, -, -, rfl⟩ := writes
    exact ⟨rfl, rfl⟩
  | commit b spare c height =>
    simp only [LedgerOp.Writes, setAccountCommitments] at writes
    split at writes
    · cases writes
      exact ⟨rfl, rfl⟩
    · cases writes
  | consume b next =>
    simp only [LedgerOp.Writes, consumeAccountRecoveryCommit] at writes
    split at writes
    · cases writes
      exact ⟨rfl, rfl⟩
    · cases writes
  | bind key b =>
    rw [show l' = l.addRecoveryBind key b from writes, addRecoveryBind]
    split <;> exact ⟨rfl, rfl⟩
  | unbind key =>
    rw [show l' = l.deleteRecoveryBind key from writes]
    exact ⟨rfl, rfl⟩
  | staking m b => exact accounts.elim
  | randCommit m b value height => exact accounts.elim

theorem isHistory_applyMoves (env : Env σ) (top : Int64) :
    ApplyMoves env LedgerOp.OnAccounts (fun _ => True) (IsHistory (σ := σ) top) := by
  refine .of_poolFrame (fun frame => ?_) ⟨fun accounts writes => ?_, fun s _ _ => ?_⟩
  · exact isHistory_of_staking (by rw [frame.ledger]) (by rw [frame.ledger])
  · obtain ⟨staking, changed⟩ := LedgerOp.staking_of_onAccounts accounts writes
    exact isHistory_of_staking staking changed
  · exact isHistory_of_staking rfl rfl

section Block
variable {env : Env σ} {block : Block} {reward : Int64}

theorem stakingCallsIn_isHistory :
    ApplyMoves.StakingCallsIn env block reward (IsHistory block.height) where
  stakes tx n low := by
    unfold stakeOrUnstake
    dsimp only
    split
    · next locks =>
      split
      · next enough =>
        refine respects_call (.stake tx.recipient ⟨tx.amount, block.height, block.blockTimeStamp, n,
          _, tx.txData.lockedAmount, tx.txData.releasePerBlock, _⟩)
          ⟨enough, low, ?_, fun third => ⟨locks, ?_⟩⟩ rfl
        · rw [Word.le_iff]
          exact Int.le_of_lt (Word.lt_iff.mp locks)
        · simp only [Bool.not_eq_true'] at third
          simp [third]
      · exact .throw _
    · split
      · next enough =>
        exact respects_call (.stake tx.sender ⟨tx.amount, block.height, block.blockTimeStamp, n,
          _, 0, 0, false⟩) ⟨enough, low, Int64.le_refl 0, nofun⟩ rfl
      · split
        · exact respects_call (.unstake tx.sender tx.amount block.height block.blockTimeStamp n)
            low rfl
        · exact .throw _
  rewards tx n fee := by
    have entry : ∀ a, LedgerOp.OnAccounts (.entry a) := fun _ => trivial
    refine .bind .get fun s => .bind (.failIf _ _) fun _ => ?_
    split
    · exact .pure _
    · split
      · exact .bind (respects_call (.withdrawReward tx.sender tx.amount block.height
          (env.clock block.height) (n % 256)) (Nat.mod_lt n (by decide)) rfl) fun _ =>
          (isHistory_applyMoves env block.height).addBalance entry _ _ _ _ _ trivial
      · exact .throw _
  reward := respects_rewardBlock fun n low a amount =>
    respects_call (.reward a amount block.height (env.clock block.height) n) low rfl
  commit := by
    unfold applyRandaoCommit
    split
    · exact .pure _
    · split
      · exact .throw _
      · next n _ =>
        unfold failIf
        split
        · exact .throw _
        · next inRange =>
          exact .bind (.pure _) fun _ => respects_call (.setRandCommit n
            block.operatorAccount.byteValue block.randCommit block.height)
            (show n < 256 by omega) rfl

/-- Applying a block, whether it returns or fails, is a history of the staking state. -/
theorem isHistory_processBlockTransfers (env : Env σ) (block : Block) (reward : Int64) :
    Respects (IsHistory block.height) (processBlockTransfers env block reward) := by
  refine (isHistory_applyMoves env block.height).processBlockTransfers_of
    (fun _ _ _ accounts => accounts) (fun held op settles => ?_) (fun _ => trivial)
    stakingCallsIn_isHistory (fun s h => ?_) fun s => isHistory_of_staking rfl rfl
  · cases settles with
    | _ => trivial
  · have frame := s.poolFrame_undoJournalKeys (· == h)
    exact isHistory_of_staking (congrArg Ledger.staking frame.ledger)
      (congrArg Ledger.stakeChangedAt frame.ledger)

end Block
end QwidNode.Source
