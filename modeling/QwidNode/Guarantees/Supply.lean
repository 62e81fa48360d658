import QwidNode.Guarantees.Affordability
import QwidNode.Source.Blocks
import QwidNode.Source.Holdings
import QwidNode.Source.Rewards

/-!
# The supply equation

`CheckBlockAndTransferFunds` compares the coins of the ledger with the supply of the new block
before the native effects are applied, and adds the fees from the check pass. It relies on the
equation: balances, stakes and unclaimed rewards, with the fee field of the last block, are the
supply of the last block.

An accepted block keeps it except for a deposit to a reward address, which moves and charges
nothing although its fee has been counted. That a stake and its fee fit a word is a condition of
the check pass itself; `overflowing_stake_mints` shows that it is needed.
-/
namespace QwidNode.Guarantees
open Lib Source Word Node Transaction
variable {σ : Type} {env : Env σ} {newBlock lastBlock block : Block} {s t : Node σ}

/-- Balances, stakes, unclaimed rewards and the fee of the block are its supply. -/
def SupplyBalanced (l : Ledger) (block : Block) : Prop :=
  l.coins + block.blockFee.toInt = block.supply.toInt

instance (l : Ledger) (block : Block) : Decidable (SupplyBalanced l block) :=
  inferInstanceAs (Decidable (_ = _))

def exactFee (tx : Transaction) : Int :=
  match tx.calcFee with
  | some fee => fee.toInt
  | none => 0

def feePaid (tx : Transaction) : Int := if tx.depositsReward then 0 else exactFee tx

/-- A deposit to a reward address whose fee is counted and never charged. -/
def UnpaidDeposit (tx : Transaction) : Prop := tx.depositsReward = true ∧ exactFee tx ≠ 0

theorem exactFee_of_charged {tx : Transaction} {fee : Int64} (charged : tx.calcFee = some fee) :
    exactFee tx = fee.toInt := by
  rw [exactFee, charged]

theorem exactFee_nonneg (tx : Transaction) : 0 ≤ exactFee tx := by
  cases charged : tx.calcFee with
  | none => rw [exactFee, charged]
  | some fee =>
    rw [exactFee_of_charged charged]
    exact calcFee_nonneg charged

theorem feePaid_bounds (tx : Transaction) : 0 ≤ feePaid tx ∧ feePaid tx ≤ exactFee tx := by
  have nonneg := exactFee_nonneg tx
  unfold feePaid
  split <;> omega

theorem feePaid_eq_iff (tx : Transaction) : feePaid tx = exactFee tx ↔ ¬ UnpaidDeposit tx := by
  unfold feePaid UnpaidDeposit
  by_cases deposit : tx.depositsReward = true
  · rw [if_pos deposit]
    simp [deposit, eq_comm]
  · rw [if_neg deposit]
    simp [deposit]

theorem sum_feePaid (txs : List Transaction) :
    0 ≤ (txs.map feePaid).sum ∧ (txs.map feePaid).sum ≤ (txs.map exactFee).sum ∧
      ((txs.map feePaid).sum = (txs.map exactFee).sum ↔ ∀ tx ∈ txs, ¬ UnpaidDeposit tx) := by
  induction txs with
  | nil => simp
  | cons tx rest ih =>
    obtain ⟨nonneg, least, equal⟩ := ih
    have bounds := feePaid_bounds tx
    simp only [List.map_cons, List.sum_cons, List.forall_mem_cons]
    refine ⟨by omega, by omega, ?_⟩
    rw [← feePaid_eq_iff, ← equal]
    omega

section Counted
variable {tx : Transaction} {fee : Int64} {c c' : CheckState} {txs : List Transaction}

theorem fee_le_gas (valid : tx.gasValid) (charged : tx.calcFee = some fee) :
    0 ≤ tx.gasUsage.toInt ∧ fee.toInt ≤ 100000 * tx.gasUsage.toInt := by
  obtain ⟨-, price, -, usage, most⟩ := valid
  unfold calcFee at charged
  split at charged
  · cases charged
  · next signs =>
    simp only at charged
    split at charged
    · cases charged
    · rw [not_or, Int64.not_lt, Int64.not_lt, le_iff, le_iff, toInt_zero] at signs
      rw [le_iff] at usage most
      have mostUsage : Common.maxGasUsage.toInt = 13700000 := by decide
      have mostPrice : Common.maxGasPrice.toInt = 100000 := by decide
      have product : tx.gasPrice.toInt * tx.gasUsage.toInt ≤ 100000 * tx.gasUsage.toInt :=
        Int.mul_le_mul_of_nonneg_right (by omega) signs.2
      have nonneg : 0 ≤ tx.gasPrice.toInt * tx.gasUsage.toInt := Int.mul_nonneg signs.1 signs.2
      rw [← Option.some.inj charged, Int64.toInt_mul, Int.bmod_eq_of_le (by omega) (by omega)]
      exact ⟨signs.2, product⟩

structure TotalsExact (c : CheckState) : Prop where
  gas : 0 ≤ c.totalGas.toInt ∧ c.totalGas.toInt ≤ 150000000
  fee : 0 ≤ c.totalFee.toInt ∧ c.totalFee.toInt ≤ 100000 * c.totalGas.toInt

theorem passes_totals (passes : Passes env block s tx fee c c') (valid : tx.gasValid)
    (exact : TotalsExact c) :
    TotalsExact c' ∧ c'.totalFee.toInt = c.totalFee.toInt + exactFee tx := by
  obtain ⟨usage, price⟩ := fee_le_gas valid passes.charged
  have charge := calcFee_nonneg passes.charged
  have gasBound := valid.2.2.2.1
  have fits := passes.gasFits
  have mostUsage : Common.maxGasUsage.toInt = 13700000 := by decide
  have mostGas : Common.maxGasUsagePerBlock.toInt = 150000000 := by decide
  rw [le_iff] at gasBound
  obtain ⟨gas, fees⟩ := exact
  have total : c'.totalGas.toInt = c.totalGas.toInt + tx.gasUsage.toInt ∧
      c'.totalGas.toInt ≤ 150000000 := by
    rw [passes.totalGas, CheckState.gasWith]
    by_cases used : 0 < tx.gasUsage
    · have below : ¬ Common.maxGasUsagePerBlock < c.totalGas + tx.gasUsage := fun exceeds =>
        fits ⟨used, by rwa [CheckState.gasWith, if_pos used]⟩
      rw [lt_iff] at below
      rw [if_pos used]
      have sum : (c.totalGas + tx.gasUsage).toInt = c.totalGas.toInt + tx.gasUsage.toInt :=
        toInt_add_of_fits (by omega) (by omega)
      omega
    · have zero := used
      rw [lt_iff, toInt_zero] at zero
      rw [if_neg used]
      omega
  have sum : c'.totalFee.toInt = c.totalFee.toInt + fee.toInt := by
    rw [passes.totalFee]
    exact toInt_add_of_fits (by omega) (by omega)
  rw [exactFee_of_charged passes.charged]
  exact ⟨⟨by omega, by omega⟩, sum⟩

theorem passesAll_totals (passed : PassesAll env block s txs c c')
    (valid : ∀ tx ∈ txs, tx.gasValid) (exact : TotalsExact c) :
    TotalsExact c' ∧ c'.totalFee.toInt = c.totalFee.toInt + (txs.map exactFee).sum := by
  induction passed with
  | nil c => exact ⟨exact, by simp⟩
  | @cons tx rest fee c c₁ c' first others ih =>
    obtain ⟨exact₁, one⟩ := passes_totals first (valid tx List.mem_cons_self) exact
    obtain ⟨exact', more⟩ := ih (fun tx member => valid tx (List.mem_cons_of_mem _ member)) exact₁
    refine ⟨exact', ?_⟩
    rw [List.map_cons, List.sum_cons]
    omega

end Counted

section Turns
variable {tx : Transaction} {txs : List Transaction} {processed : Node σ} {hash : Hash}

theorem turn_coins (turn : TurnVia env block hash s t tx processed)
    (inRange : tx.isStaking → exactSpend tx < 2 ^ 63) (nonneg : s.ledger.NonNeg)
    (bounded : s.ledger.coins < 2 ^ 63) :
    t.ledger.NonNeg ∧ t.ledger.coins = s.ledger.coins - feePaid tx := by
  obtain ⟨fee, charged, -⟩ := processTransaction_ok turn.process
  have spend := exactSpend_of_charged charged
  have gains : Gains (if tx.depositsReward then 0 else -fee.toInt)
      { s with log := .included tx block.height :: s.log } processed :=
    processTransaction_gains charged (calcFee_nonneg charged)
      (fun stakes => by rw [← spend]; exact inRange stakes) (by exact bounded) turn.process
  obtain ⟨nonneg', taken⟩ := gains nonneg
  obtain ⟨nonneg'', same⟩ := returns_gains_processTransactionsMultiSign _ _ _ turn.settle nonneg'
  refine ⟨nonneg'', ?_⟩
  rw [same, taken, feePaid, exactFee_of_charged charged]
  change s.ledger.coins + _ + 0 = _
  split <;> omega

theorem processes_coins (run : Processes env block s txs t)
    (inRange : ∀ tx ∈ txs, tx.isStaking → exactSpend tx < 2 ^ 63) (nonneg : s.ledger.NonNeg)
    (bounded : s.ledger.coins < 2 ^ 63) :
    t.ledger.NonNeg ∧ t.ledger.coins = s.ledger.coins - (txs.map feePaid).sum := by
  induction run with
  | nil s => exact ⟨nonneg, by simp⟩
  | @cons s u t processed tx rest turn others ih =>
    have paid := (feePaid_bounds tx).1
    obtain ⟨nonneg', taken⟩ := turn_coins turn (inRange tx List.mem_cons_self) nonneg bounded
    obtain ⟨nonneg'', more⟩ := ih (fun tx member => inRange tx (List.mem_cons_of_mem _ member))
      nonneg' (by omega)
    refine ⟨nonneg'', ?_⟩
    rw [List.map_cons, List.sum_cons]
    omega

theorem turn_escrow (turn : TurnVia env block hash s t tx processed) (valid : tx.amountValid)
    (amounts : ∀ e ∈ s.escrowed, 0 ≤ e.amount.toInt) : ∀ e ∈ t.escrowed, 0 ≤ e.amount.toInt := by
  have settled : t.escrowed = processed.escrowed := by
    rcases processTransactionsMultiSign_ok turn.settle with
      ⟨-, rfl⟩ | ⟨main, u, -, source, outcome⟩
    · rfl
    · have recovered : u.escrowed = processed.escrowed := by
        rcases source with ⟨-, rfl⟩ | ⟨-, recovered⟩
        · rfl
        · exact recovered.escrow
      rcases outcome with rfl | ⟨_, _, _, _, _, executed⟩
      · exact recovered
      · exact executed.escrow.trans recovered
  rw [settled]
  obtain ⟨fee, -, included⟩ := processTransaction_ok turn.process
  cases included with
  | deposited _ _ _ _ pools | registered _ _ pools | staked _ _ _ pools => rwa [pools.escrow]
  | charged escrow | heldForApprovals _ _ _ _ _ escrow | transferred _ _ _ escrow =>
    rwa [escrow]
  | cancelled _ _ _ _ _ _ escrow =>
    intro e member
    refine amounts e ?_
    change e ∈ escrowed { s with log := .included tx block.height :: s.log }
    rw [escrow]
    exact Multiset.mem_cons_of_mem member
  | heldInEscrow _ _ routed pools =>
    have own : 0 ≤ tx.amount.toInt := by
      rcases routed with ordinary | zero
      · unfold routingAccount at ordinary
        split at ordinary
        · split at ordinary
          · split at ordinary <;> cases ordinary
          · cases ordinary
        · have notNegative := fun negative => valid ⟨negative, Option.some.inj ordinary⟩
          rw [lt_iff, toInt_zero] at notNegative
          exact Int.not_lt.mp notNegative
      · rw [zero, toInt_zero]
    rcases pools with grown | ⟨same, -⟩
    · intro e member
      rw [escrowed, grown] at member
      rcases Multiset.mem_cons.mp member with rfl | old
      · exact own
      · exact amounts e old
    · intro e member
      rw [escrowed, same] at member
      exact amounts e member

theorem processes_escrow (run : Processes env block s txs t)
    (valid : ∀ tx ∈ txs, tx.amountValid) (amounts : ∀ e ∈ s.escrowed, 0 ≤ e.amount.toInt) :
    ∀ e ∈ t.escrowed, 0 ≤ e.amount.toInt := by
  induction run with
  | nil s => exact amounts
  | @cons s u t processed tx rest turn others ih =>
    exact ih (fun tx member => valid tx (List.mem_cons_of_mem _ member))
      (turn_escrow turn (valid tx List.mem_cons_self) amounts)

end Turns

theorem feePaid_of_body {tx known : Transaction} (same : tx.body = known.body) :
    feePaid tx = feePaid known := by
  rw [eq_of_body same]
  rfl

theorem map_feePaid_eq {txs known : List Transaction}
    (paired : List.Forall₂ (fun tx known => tx.body = known.body) txs known) :
    txs.map feePaid = known.map feePaid := by
  induction paired with
  | nil => rfl
  | cons same _ ih => rw [List.map_cons, List.map_cons, feePaid_of_body same, ih]

/-- What the equation rests on besides itself. Nothing in the ledger or in escrow is
negative, nor is an escrow entry that the next blocks could put back from the journal; and
the fee field of the last block is a sum of fees. -/
structure Sound (s : Node σ) (last : Block) : Prop where
  ledger : s.ledger.NonNeg
  escrow : ∀ e ∈ s.escrowed, 0 ≤ e.amount.toInt
  journal : ∀ key e, s.db.pendingJournal.lookup key = some e → last.height < key.1 →
    e.pool = .escrow → 0 ≤ e.transaction.amount.toInt
  closed : s.journalHeight = 0
  fee : 0 ≤ last.blockFee.toInt
  height : 0 ≤ last.height

section Stages
variable {reward totalFee : Int64} {txs known : List Transaction}
  {checked evaluated begun processed committed : Node σ}

section
variable (stages : Stages env newBlock lastBlock s block t reward totalFee txs checked evaluated
  begun processed committed)
include stages

theorem evaluated_coins (safe : env.CreatesNoCoins) (sound : Sound s lastBlock)
    (before : SupplyBalanced s.ledger lastBlock) (rewarded : reward = getReward lastBlock.supply)
    (supply : lastBlock.supply + reward = newBlock.supply) :
    evaluated.ledger.NonNeg ∧ evaluated.ledger.coins = s.ledger.coins ∧
      block.supply.toInt = lastBlock.supply.toInt + reward.toInt ∧
      s.ledger.coins + reward.toInt < 2 ^ 63 := by
  have shrinks : Shrinks checked evaluated := Returns.forM _
    (fun hash _ => returns_shrinks_evaluateHash safe block hash) _ _ _ stages.evaluation
  obtain ⟨nonneg, less⟩ := shrinks (stages.load.ledger ▸ sound.ledger)
  rw [stages.load.ledger] at less
  obtain ⟨rewardNonneg, rewardSmall⟩ := getReward_range lastBlock.supply
  have fee := sound.fee
  have held : 0 ≤ s.ledger.coins := by
    have sums := sound.ledger.sum_nonneg
    simp only [Ledger.coins]
    omega
  unfold SupplyBalanced at before
  rw [← rewarded] at rewardNonneg rewardSmall
  have fits : lastBlock.supply.toInt + reward.toInt < 2 ^ 63 := by
    have range := toInt_range lastBlock.supply
    have most : Common.maxTotalSupply.toInt = 230000000000000000 := by decide
    by_cases reached : Common.maxTotalSupply.toInt ≤ lastBlock.supply.toInt
    · rw [rewarded, getReward_of_max reached, toInt_zero]
      omega
    · omega
  have grown : block.supply.toInt = lastBlock.supply.toInt + reward.toInt := by
    rw [stages.filled]
    change newBlock.supply.toInt = _
    rw [← supply]
    exact toInt_add_of_fits (by omega) fits
  have counted := toInt_calculatedSupply nonneg rewardNonneg fee (by omega)
  rw [stages.supply] at counted
  exact ⟨nonneg, by omega, grown, by omega⟩

theorem final_coins (inRange : ∀ tx ∈ txs, tx.isStaking → exactSpend tx < 2 ^ 63)
    (nonneg : evaluated.ledger.NonNeg) (bounded : evaluated.ledger.coins + reward.toInt < 2 ^ 63)
    (rewardNonneg : 0 ≤ reward.toInt) (rewardSmall : reward.toInt < 2 ^ 38)
    (escrow : ∀ e ∈ committed.escrowed, 0 ≤ e.amount.toInt) :
    t.ledger.NonNeg ∧
      t.ledger.coins = evaluated.ledger.coins - (txs.map feePaid).sum + reward.toInt ∧
      (txs.map feePaid).sum ≤ evaluated.ledger.coins := by
  have begunLedger : begun.ledger = evaluated.ledger := by
    rw [stages.start]
    exact (evaluated.poolFrame_undoJournalKeys _).ledger
  have paid := (sum_feePaid txs).1
  obtain ⟨nonnegP, coinsP⟩ := processes_coins stages.turns inRange (begunLedger ▸ nonneg)
    (by rw [begunLedger]; omega)
  rw [begunLedger] at coinsP
  obtain ⟨rewarded, given, commits⟩ := stages.tail
  obtain ⟨nonnegR, coinsR⟩ := rewardBlock_gains rewardNonneg rewardSmall (by omega) given nonnegP
  obtain ⟨nonnegC, coinsC⟩ := (gains_applyRandaoCommit block).of_ok commits nonnegR
  have settles : Conserves committed
      (finalState (processTransactionsEscrow env block.height committed)) :=
    conserves_processTransactionsEscrow escrow
  obtain ⟨nonnegE, coinsE⟩ := settles nonnegC (by omega)
  have maintains : Ledger.Earns 0 _ (applyRecoveryMaintenance env block lastBlock _) :=
    earns_applyRecoveryMaintenance block lastBlock
      (finalState (processTransactionsEscrow env block.height committed)).ledger
  obtain ⟨nonnegT, coinsT⟩ := maintains nonnegE
  have heldP : 0 ≤ processed.ledger.coins := by
    have sums := nonnegP.sum_nonneg
    simp only [Ledger.coins]
    omega
  have final : t.ledger = applyRecoveryMaintenance env block lastBlock
      (finalState (processTransactionsEscrow env block.height committed)).ledger := by
    rw [stages.final, finishBlock_ledger]
    rfl
  rw [final]
  exact ⟨nonnegT, by omega, by omega⟩

theorem committed_escrow (sound : Sound s lastBlock) (next : lastBlock.height < newBlock.height) :
    ∀ e ∈ committed.escrowed, 0 ≤ e.amount.toInt := by
  have own : block.height = newBlock.height := by rw [stages.filled]
  have pooled : ∀ e ∈ evaluated.escrowed, 0 ≤ e.amount.toInt := by
    have same : evaluated.escrowed = s.escrowed := by
      obtain ⟨_, _, equal⟩ := stages.load
      rw [escrowed, stages.evm.escrow, equal]
    rw [same]
    exact sound.escrow
  have journaled : ∀ key e, evaluated.db.pendingJournal.lookup key = some e →
      key.1 = block.height → e.pool = .escrow → 0 ≤ e.transaction.amount.toInt := by
    intro key e found at' pool
    have same : evaluated.db.pendingJournal = s.db.pendingJournal := by
      obtain ⟨_, _, equal⟩ := stages.load
      rw [stages.evm.journal, equal]
    exact sound.journal key e (same ▸ found) (by rw [at', own]; exact next) pool
  have opened : ∀ e ∈ begun.escrowed, 0 ≤ e.amount.toInt := by
    rw [stages.start]
    exact forall_escrowed_begin pooled journaled
  rw [stages.quiet_tail.pools.escrow]
  refine processes_escrow stages.turns (fun tx member => ?_) opened
  obtain ⟨known, check, same⟩ := stages.known member
  have valid := check.verified.amount
  rw [eq_of_body same]
  exact valid

theorem stages_sound (sound : Sound s lastBlock) (next : lastBlock.height < newBlock.height)
    (nonneg : t.ledger.NonNeg) (fee : 0 ≤ block.blockFee.toInt) : Sound t block := by
  have own : block.height = newBlock.height := by rw [stages.filled]
  have low := sound.height
  rw [le_iff, toInt_zero] at low
  rw [lt_iff] at next
  obtain ⟨closed, entries⟩ := stages.journal
  have escrow : t.escrowed ≤ committed.escrowed := by
    have finished := finished_finishBlock env (finalState
      (processTransactionsEscrow env block.height committed)).endPendingPoolJournal block lastBlock
    rw [stages.final, finished.quiet.pools.escrow]
    exact processTransactionsEscrow_le env block.height committed
  refine
    { ledger := nonneg
      escrow := fun e member => committed_escrow stages sound (lt_iff.mpr next) e
        (Multiset.mem_of_le escrow member)
      journal := fun key e found above pool => ?_
      closed := closed
      fee := fee
      height := by rw [le_iff, toInt_zero, own]; omega }
  rw [lt_iff, own] at above
  rcases entries key e found with old | opened | new
  · exact sound.journal key e old (by rw [lt_iff]; omega) pool
  · rw [opened, sound.closed, toInt_zero] at above
    omega
  · rw [new, own] at above
    omega

end

end Stages

/-- From a sound state in which the supply equation holds, and with every stake in range,
an accepted block keeps the equation if and only if it contains no deposit to a reward
address with a fee. The state it leaves is sound again. -/
theorem supply_kept_iff (env : Env σ) (newBlock lastBlock block : Block) (s t u : Node σ)
    (txs : List Transaction) (safe : env.CreatesNoCoins) (sound : Sound s lastBlock)
    (next : lastBlock.height < newBlock.height) (before : SupplyBalanced s.ledger lastBlock)
    (accepted : checkBlockAndTransferFunds env newBlock lastBlock s = .ok block t)
    (listed : loadAll env lastBlock newBlock.transactionsHashes s = .ok txs u)
    (inRange : ∀ tx ∈ txs, tx.isStaking → exactSpend tx < 2 ^ 63) :
    (SupplyBalanced t.ledger block ↔ ∀ tx ∈ txs, ¬ UnpaidDeposit tx) ∧
      (SupplyBalanced t.ledger block → Sound t block) := by
  obtain ⟨reward, totalFee, applied, checked, evaluated, begun, processed, committed, stages⟩ :=
    accepted_stages accepted
  obtain ⟨loaded, c, load, verified, passed, rewarded, counted, supply⟩ :=
    checkBlockTransfers_ok stages.check
  rw [listed] at load
  cases load
  have paired := stages.paired listed
  have inRange' : ∀ tx ∈ applied, tx.isStaking → exactSpend tx < 2 ^ 63 := by
    intro tx member
    obtain ⟨known, inside, same⟩ := exists_related_of_mem paired member
    rw [eq_of_body same]
    exact inRange known inside
  obtain ⟨nonnegE, coinsE, grown, bounded⟩ :=
    evaluated_coins stages safe sound before rewarded supply
  obtain ⟨rewardNonneg, rewardSmall⟩ := getReward_range lastBlock.supply
  rw [← rewarded] at rewardNonneg rewardSmall
  obtain ⟨nonneg, coins, covered⟩ := final_coins stages inRange' nonnegE (by omega) rewardNonneg
    rewardSmall (committed_escrow stages sound next)
  obtain ⟨totals, total⟩ := passesAll_totals passed (fun tx member => (verified tx member).gas)
    ⟨by decide, by decide⟩
  have most := totals.gas
  have feeBound := totals.fee
  rw [map_feePaid_eq paired] at coins covered
  obtain ⟨paidNonneg, paidLess, paidIff⟩ := sum_feePaid txs
  rw [← paidIff]
  change c.totalFee.toInt = 0 + _ at total
  have fee := sound.fee
  have fees : block.blockFee = c.totalFee + lastBlock.blockFee := by rw [stages.filled, counted]
  unfold SupplyBalanced at before ⊢
  have range := toInt_range lastBlock.supply
  have cases := toInt_add_cases c.totalFee lastBlock.blockFee
  rw [← fees] at cases
  refine ⟨?_, fun balanced => stages_sound stages sound next nonneg ?_⟩
  · rcases cases with h | h | h <;> constructor <;> intro <;> omega
  · rcases cases with h | h | h <;> omega

def rewardDeposit : Transaction :=
  .hashed (.plain 0xAA (getDelegatedAccountAddress 257).byteValue 5 1 5)

def operatorNode (txs : List Transaction) : Node Unit :=
  .small [{ address := 0xAA, balance := 100000 }] txs

/-- The fee of the deposit, 30000, is in the block's fee but still in the account. -/
theorem reward_deposit_unbalances :
    SupplyBalanced (operatorNode [rewardDeposit]).ledger
        ((operatorNode [rewardDeposit]).parentBlock 5) ∧
      ∃ block t, checkBlockAndTransferFunds Env.permissive
          ((operatorNode [rewardDeposit]).nextBlock 6 [rewardDeposit.hash])
          ((operatorNode [rewardDeposit]).parentBlock 5) (operatorNode [rewardDeposit]) =
            .ok block t ∧
        t.ledger.coins + block.blockFee.toInt = block.supply.toInt + 30000 ∧
        ¬ SupplyBalanced t.ledger block := by
  decide +kernel

/-- After a transfer of all but the fees, a stake of `2 ^ 63 - 1` coins: the debit
`-fee - Amount` wraps to a credit, which the emptied account takes without overflow. -/
def emptyingTransfer : Transaction := .hashed (.plain 0x55 0x77 40000 2 45)

def overflowingStake : Transaction :=
  .hashed (.plain 0x55 (getDelegatedAccountAddress 2).byteValue 9223372036854775807 1 45)

def stakingNode : Node Unit :=
  .small [{ address := 0x55, balance := 100000 }, { address := 0x77 }]
    [emptyingTransfer, overflowingStake]

theorem overflowing_stake_mints :
    SupplyBalanced stakingNode.ledger (stakingNode.parentBlock 49) ∧
      ∃ block t, checkBlockAndTransferFunds Env.permissive
          (stakingNode.nextBlock 50 [emptyingTransfer.hash, overflowingStake.hash])
          (stakingNode.parentBlock 49) stakingNode = .ok block t ∧
        t.ledger.coins + block.blockFee.toInt = block.supply.toInt + 2 ^ 64 := by
  decide +kernel

theorem coins_setBalance (l : Ledger) (a : AddressBytes) (balance : Int64) :
    (l.setBalance a balance).coins =
      l.coins - (l.accountOrNew a).balance.toInt + balance.toInt :=
  Ledger.coins_putAccount l a _

theorem accountOrNew_setBalance_ne {l : Ledger} {a b : AddressBytes} {balance : Int64}
    (other : b ≠ a) : (l.setBalance a balance).accountOrNew b = l.accountOrNew b :=
  (Ledger.accountOrNew_putAccount l a b _).trans (if_neg other)

theorem shrinks_callValue (l : Ledger) (tx : Transaction) :
    Ledger.Shrinks l (l.setBalances (l.callValue tx).balances) := by
  intro nonneg
  have sender := nonneg.accountOrNew tx.sender
  have recipient := nonneg.accountOrNew tx.recipient
  unfold Ledger.callValue
  dsimp only
  split
  · exact ⟨nonneg, Int.le_refl _⟩
  · next fits =>
    simp only [not_or, lt_iff, toInt_zero, not_lt] at fits
    have held := toInt_range (l.accountOrNew tx.sender).balance
    have received := toInt_range (l.accountOrNew tx.recipient).balance
    have sent := toInt_range tx.txData.amount
    have left := toInt_sub_of_fits (a := (l.accountOrNew tx.sender).balance)
      (b := tx.txData.amount) (by omega) (by omega)
    have grown : ((l.accountOrNew tx.recipient).balance + tx.txData.amount).toInt =
        (l.accountOrNew tx.recipient).balance.toInt + tx.txData.amount.toInt := by
      rcases toInt_add_cases (l.accountOrNew tx.recipient).balance tx.txData.amount with h | h | h <;>
        omega
    split
    · exact ⟨nonneg, Int.le_refl _⟩
    · next other =>
      have paid : (l.setBalance tx.sender ((l.accountOrNew tx.sender).balance -
          tx.txData.amount)).NonNeg := nonneg.putAccount _ (by dsimp only; omega)
      refine ⟨paid.putAccount _ (by dsimp only; omega), ?_⟩
      change ((l.setBalance tx.sender ((l.accountOrNew tx.sender).balance -
        tx.txData.amount)).setBalance tx.recipient ((l.accountOrNew tx.recipient).balance +
          tx.txData.amount)).coins ≤ l.coins
      rw [coins_setBalance, accountOrNew_setBalance_ne fun equal => other equal.symm,
        coins_setBalance]
      omega

theorem createsNoCoins_permissive : Env.permissive.CreatesNoCoins where
  contract _ l tx _ := shrinks_callValue l tx
  dex _ _ _ _ _ nonneg := ⟨nonneg, Int.le_refl _⟩

def operatorTransfer : Transaction := .plain 0xAA 0x77 5 1 5

/-- A plain transfer keeps the equation. -/
theorem transfer_keeps_supply :
    ∃ block t, checkBlockAndTransferFunds Env.permissive
        ((operatorNode [operatorTransfer]).nextBlock 6 [operatorTransfer.hash])
        ((operatorNode [operatorTransfer]).parentBlock 5) (operatorNode [operatorTransfer]) =
          .ok block t ∧ SupplyBalanced t.ledger block := by
  obtain ⟨block, t, run⟩ : ∃ block t, checkBlockAndTransferFunds Env.permissive
      ((operatorNode [operatorTransfer]).nextBlock 6 [operatorTransfer.hash])
      ((operatorNode [operatorTransfer]).parentBlock 5) (operatorNode [operatorTransfer]) =
        .ok block t := succeeds_iff.mp (by decide +kernel)
  have listed : loadAll Env.permissive ((operatorNode [operatorTransfer]).parentBlock 5)
      [operatorTransfer.hash] (operatorNode [operatorTransfer]) =
        .ok [operatorTransfer] (operatorNode [operatorTransfer]) := rfl
  have sound : Sound (operatorNode [operatorTransfer])
      ((operatorNode [operatorTransfer]).parentBlock 5) :=
    { ledger := ⟨by decide +kernel, by decide +kernel, by decide +kernel⟩
      escrow := fun e member => absurd member (Multiset.notMem_zero e)
      journal := fun key e found => by cases found
      closed := rfl
      fee := by decide
      height := by decide }
  have kept := supply_kept_iff Env.permissive _ _ block _ t _ [operatorTransfer]
    createsNoCoins_permissive sound (by decide) (by decide +kernel) run listed (by decide +kernel)
  refine ⟨block, t, run, kept.1.mpr fun tx member unpaid => ?_⟩
  rw [List.mem_singleton] at member
  rw [member] at unpaid
  exact absurd unpaid.1 (by decide +kernel)

end QwidNode.Guarantees
