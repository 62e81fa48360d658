import QwidNode.Source.Agreement
import QwidNode.Source.Blocks

/-!
# Block application in lockstep

Every function of block application, run on two nodes that agree, returns the same value or
fails on both, and leaves nodes that agree. With `strict` this also holds of the states a
failure leaves behind, as for the escrow pass, whose error is only logged, and for the loads
whose failure the caller handles; for the rest a failure ends the block.
-/
namespace QwidNode.Source
open Lib TransactionPool
variable {σ : Type} {env : Env σ} {H : Hash → Prop} {B : Reads} {strict : Prop} {s s' : Node σ}
variable {hash main : Hash} {tx : Transaction} {block lastBlock : Block} {c : CheckState}
  {p : TxPrefix} {n : Nat} {height blockTime fee : Int64}

abbrev Lockstep (env : Env σ) (H : Hash → Prop) (B : Reads) (strict : Prop) {α : Type}
    (x : NodeM σ α) : Prop := Parallel (Agree env H B) strict x

theorem lockstep_modifyLedger (f : Ledger → Ledger) :
    Lockstep env H B strict (modifyLedger f) := by
  refine .modify fun s s' agree => ?_
  rw [agree.ledger]
  exact agree.withLedger _

theorem lockstep_liftLedger (f : Ledger → Except Error Ledger) :
    Lockstep env H B strict (liftLedger f) := by
  refine .read (fun _ _ agree => by rw [agree.ledger]) fun s => ?_
  cases f s.ledger with
  | ok l => exact lockstep_modifyLedger _
  | error e => exact .throw e

theorem lockstep_record (e : Event) : Lockstep env H B strict (record e) :=
  .modify fun _ _ agree => agree.of_core rfl rfl

theorem lockstep_addBalance {route : Route} {a : AddressBytes} {added : Int64} :
    Lockstep env H B strict (addBalance route hash height a added) := by
  intro s s' agree
  unfold addBalance
  simp only [agree.ledger]
  split
  · exact .error fun _ => agree.withLedger _
  · exact .ok ((agree.withLedger _).of_core rfl rfl)

theorem lockstep_storeTx (p : TxPrefix) (tx : Transaction) :
    Lockstep env H B strict (modifyDb fun db => db.storeTx p tx) :=
  .modify fun _ _ agree => agree.storeTx p tx

theorem load_final (env : Env σ) (p : TxPrefix) (hash : Hash) (s : Node σ) :
    ∃ db, finalState (loadFromDBPoolTx env p hash s) = { s with db := db } ∧
      db.includedTx = s.db.includedTx ∧
      ∀ p' other, db.loadTx? env p' other = s.db.loadTx? env p' other := by
  rcases loadFromDBPoolTx_final p hash s with same | ⟨rfl, absent, dropped⟩
  · exact ⟨s.db, same, rfl, fun _ _ => rfl⟩
  · refine ⟨s.db.removePoolTx hash, dropped, rfl, ?_⟩
    intro p' other
    cases p' with
    | pool => exact loadTx?_removePoolTx absent other
    | confirmed => rfl
    | bad => rfl

theorem lockstep_loadFromDBPoolTx (p : TxPrefix) (known : H hash) :
    Lockstep env H B strict (loadFromDBPoolTx env p hash) := by
  intro s s' agree
  have same := agree.loads p hash known
  cases found : s.db.loadTx? env p hash with
  | some tx =>
    rw [found] at same
    rw [loadFromDBPoolTx_eq_ok.mpr ⟨rfl, found⟩, loadFromDBPoolTx_eq_ok.mpr ⟨rfl, same⟩]
    exact .ok agree
  | none =>
    rw [found] at same
    have fails : ∀ u : Node σ, u.db.loadTx? env p hash = none →
        ∃ e v, loadFromDBPoolTx env p hash u = .error e v := by
      intro u absent
      cases run : loadFromDBPoolTx env p hash u with
      | ok tx v =>
        rw [(loadFromDBPoolTx_eq_ok.mp run).2] at absent
        cases absent
      | error e v => exact ⟨e, v, rfl⟩
    obtain ⟨e, v, run⟩ := fails s found
    obtain ⟨e', v', run'⟩ := fails s' same
    obtain ⟨db, final, included, loads⟩ := load_final env p hash s
    obtain ⟨db', final', included', loads'⟩ := load_final env p hash s'
    rw [run] at final
    rw [run'] at final'
    rw [run, run']
    refine .error fun _ => ?_
    rw [finalState_error] at final final'
    rw [final, final']
    apply agree.withDb
    · intro other listed
      rw [included, included', agree.included other listed]
    · intro p' other looked
      rw [loads, loads', agree.loads p' other looked]

theorem lockstep_checkTransactionInDB (listed : B.listed hash) :
    Lockstep env H B False (checkTransactionInDBAndInMarkleTrie hash) := by
  refine .read (fun _ _ agree => by rw [agree.included hash listed]) fun s => ?_
  cases s.db.includedTx.lookup hash with
  | some h => exact fun _ _ _ => .error False.elim
  | none => exact .pure ()

theorem lockstep_loadBadOrPooled (known : H hash) :
    Lockstep env H B strict (loadBadOrPooled env hash) := by
  refine .tryCatch (lockstep_loadFromDBPoolTx .bad known) fun e e' s s' agree => ?_
  rw [get_bind_run, get_bind_run, agree.findTxInMemoryPools known]
  cases s.findTxInMemoryPools hash with
  | some tx => exact .ok agree
  | none => exact .error fun _ => agree

theorem lockstep_recoverTransaction (known : H hash) :
    Lockstep env H B strict (recoverTransaction env lastBlock hash) :=
  .bind (lockstep_loadBadOrPooled known) fun _ =>
    .read (fun _ _ agree => by rw [agree.ledger]) fun _ => .bind (.failIf _ _) fun _ =>
    .bind (lockstep_storeTx _ _) fun _ => .pure _

theorem lockstep_loadMissing (known : H hash) (listed : B.listed hash) :
    Lockstep env H B False (loadMissing env lastBlock hash) := by
  have stored : ∀ tx, Lockstep env H B False (do
      modifyDb fun db => db.storeTx .pool tx
      pure tx : NodeM σ Transaction) := fun tx => .bind (lockstep_storeTx _ _) fun _ => .pure _
  refine .bind (.modify fun _ _ agree => agree.removePoolTx hash) fun _ =>
    .bind (lockstep_loadFromDBPoolTx .confirmed known).attempt fun found => ?_
  cases found with
  | some tx => exact .bind (lockstep_checkTransactionInDB listed) fun _ => .bind (.pure tx) stored
  | none => exact .bind (lockstep_recoverTransaction known) stored

theorem lockstep_loadForBlock (known : H hash) (listed : B.listed hash) :
    Lockstep env H B False (loadForBlock env lastBlock hash) := by
  have checked : ∀ tx, Lockstep env H B False (do
      checkTransactionInDBAndInMarkleTrie hash
      pure tx : NodeM σ Transaction) :=
    fun tx => .bind (lockstep_checkTransactionInDB listed) fun _ => .pure _
  refine .bind (lockstep_loadFromDBPoolTx .pool known).attempt fun found => ?_
  cases found with
  | some tx => exact .bind (.pure tx) checked
  | none => exact .bind (lockstep_loadMissing known listed) checked

theorem lockstep_loadAll (hashes : List Hash) (known : ∀ h ∈ hashes, H h ∧ B.listed h) :
    Lockstep env H B False (loadAll env lastBlock hashes) := by
  induction hashes with
  | nil => exact .pure _
  | cons hash rest ih =>
    have first := known hash List.mem_cons_self
    exact .bind (lockstep_loadForBlock first.1 first.2) fun _ =>
      .bind (ih fun h member => known h (List.mem_cons_of_mem hash member)) fun _ => .pure _

section Check
variable (listed : B.listed tx.hash)
include listed

theorem lockstep_dropAndContinue (e : Error) :
    Lockstep env H B.loose strict (dropAndContinue env tx c e) :=
  .bind (.modify fun _ _ agree => agree.removeBad tx.hash listed (B.unoffered_loose _)) fun _ =>
    .pure _

theorem lockstep_checkFunds : Lockstep env H B.loose strict (checkFunds env tx fee c) := by
  refine .read (fun _ _ agree => by rw [agree.ledger]) fun s => ?_
  cases s.ledger.account? tx.sender with
  | none => exact lockstep_dropAndContinue listed _
  | some acc =>
    dsimp only
    split
    · exact lockstep_dropAndContinue listed _
    split
    · exact lockstep_dropAndContinue listed _
    split
    · exact lockstep_dropAndContinue listed _
    · exact .pure _

theorem lockstep_checkRouted (account : Option Nat) :
    Lockstep env H B.loose strict (checkRouted env block tx fee account c) := by
  refine .read (fun _ _ agree => by rw [agree.ledger]) fun s => ?_
  cases account with
  | none => exact lockstep_checkFunds listed
  | some n =>
    dsimp only
    split
    · split
      · exact lockstep_checkFunds listed
      · exact lockstep_dropAndContinue listed _
    · exact lockstep_checkFunds listed

theorem lockstep_checkVerified : Lockstep env H B.loose strict (checkVerified env block tx c) := by
  unfold checkVerified
  cases tx.calcFee with
  | none => exact .throw _
  | some fee =>
    refine .bind (.failIf _ _) fun _ => .bind (.failIf _ _) fun _ =>
      .read (fun _ _ agree => by rw [agree.cancellationError, agree.ledger]) fun s => ?_
    cases cancellationError s tx block.height with
    | some e => exact .throw _
    | none =>
      refine .bind (.failIf _ _) fun _ => ?_
      cases tx.routingAccount with
      | none => exact .throw _
      | some account => exact lockstep_checkRouted listed account

theorem lockstep_checkTransaction (verified : Bool) :
    Lockstep env H B.loose strict (checkTransaction env block verified tx c) := by
  unfold checkTransaction
  split
  · exact lockstep_dropAndContinue listed _
  split
  · exact lockstep_dropAndContinue listed _
  · exact lockstep_checkVerified listed

end Check

theorem lockstep_checkAll (items : List (Transaction × Bool))
    (listed : ∀ item ∈ items, B.listed item.1.hash) :
    Lockstep env H B.loose strict (checkAll env block items c) := by
  induction items generalizing c with
  | nil => exact .pure _
  | cons item rest ih =>
    exact .bind (lockstep_checkTransaction (listed item List.mem_cons_self) item.2) fun _ =>
      ih fun other member => listed other (List.mem_cons_of_mem item member)

theorem loadAll_hashes {hashes : List Hash} {txs : List Transaction} {u : Node σ}
    (run : loadAll env lastBlock hashes s = .ok txs u) : ∀ tx ∈ txs, tx.hash ∈ hashes := by
  obtain ⟨-, -, loaded⟩ := loadAll_ok run
  clear run
  induction loaded with
  | nil => exact fun _ member => absurd member List.not_mem_nil
  | cons found _ ih =>
    intro tx member
    rcases List.mem_cons.mp member with rfl | inside
    · rw [(bodyMatches_iff.mp (loadTx?_matches found.1)).1]
      exact List.mem_cons_self
    · exact List.mem_cons_of_mem _ (ih tx inside)

theorem lockstep_checkBlockTransfers
    (known : ∀ h ∈ block.transactionsHashes, H h ∧ B.listed h) :
    Lockstep env H B.loose False (checkBlockTransfers env block lastBlock) := by
  intro s s' agree
  apply (lockstep_loadAll (B := B.loose) _ known s s' agree).bind
  intro txs t t' run later
  refine Parallel.read (fun _ _ agree => by rw [agree.ledger]) (fun u => ?_) t t' later
  refine .bind (lockstep_checkAll (B := B) _ fun item member => ?_) fun c => ?_
  · obtain ⟨tx, inside, rfl⟩ := List.mem_map.mp member
    exact (known _ (loadAll_hashes run tx inside)).2
  cases c.badTxErr with
  | some e => exact .throw e
  | none => exact .bind (.failIf _ _) fun _ => .pure _

theorem lockstep_applyRun (run : EvmRun σ) :
    Lockstep env H B strict (modify fun s => s.applyRun run) := by
  refine .modify fun s s' agree => ?_
  unfold Node.applyRun
  rw [agree.ledger]
  exact { agree with ledger := rfl, evm := rfl }

theorem lockstep_throwAfterDrop (hash : Hash) : Lockstep env H B False (do
    modify (dropBadTransaction env hash)
    throw .smartContractsFail : NodeM σ Unit) :=
  fun _ _ _ => .error False.elim

theorem lockstep_setAccount (a : AddressBytes) :
    Lockstep env H B strict (setAccountByAddressBytes a : NodeM σ Account) := by
  refine .read (fun _ _ agree => by rw [agree.ledger]) fun s => ?_
  cases s.ledger.account? a with
  | some acc => exact .pure _
  | none => exact .bind (lockstep_modifyLedger _) fun _ => .pure _

theorem lockstep_generateOptDataDEX (op : Nat) :
    Lockstep env H B strict (generateOptDataDEX env tx op) := by
  refine .read (fun s s' agree => ?_) fun s => ?_
  · have affordable : dexOrderAffordable env s' tx op = dexOrderAffordable env s tx op := by
      unfold dexOrderAffordable
      rw [agree.evm]
    rw [affordable, agree.ledger, agree.dex, agree.evm]
  dsimp only
  split
  · split
    · exact .pure _
    · refine .bind (lockstep_setAccount _) fun dexAccount => ?_
      split
      · exact .pure _
      · exact .pure _
  · exact .pure _

theorem lockstep_settleDexOrder (op : Nat) (q : DexQuote) :
    Lockstep env H B False (settleDexOrder env block tx op q) := by
  have guarded : ∀ a added, Lockstep env H B False
      (onError (addBalance .dex tx.hash block.height a added) (dropBadTransaction env tx.hash)) :=
    fun _ _ => lockstep_addBalance.onError False.elim
  refine .bind (guarded _ _) fun _ => .bind (guarded _ _) fun _ =>
    .read (fun _ _ agree => by rw [agree.evm]) fun s => ?_
  split
  · refine .modify fun u u' agree => ?_
    have traded : tradedDexAccount env u' tx op q = tradedDexAccount env u tx op q := by
      unfold tradedDexAccount
      rw [agree.dex, agree.evm]
    rw [traded, agree.dex]
    exact { agree with dex := rfl }
  · exact lockstep_throwAfterDrop _

theorem lockstep_evaluateDexOrder (op : Nat) :
    Lockstep env H B False (evaluateDexOrder env block p tx op) := by
  refine .bind (lockstep_generateOptDataDEX op) fun quote => ?_
  cases quote with
  | none => exact .pure _
  | some q =>
    refine .read (fun _ _ agree => by rw [agree.evm, agree.ledger]) fun s =>
      .bind (lockstep_applyRun _) fun _ => ?_
    cases (env.evaluateSCDex s.evm s.ledger tx q block).outcome with
    | executionError logs => exact .pure _
    | nodeError => exact lockstep_throwAfterDrop _
    | success contract logs =>
      exact .bind (lockstep_storeTx _ _) fun _ => lockstep_settleDexOrder op q

theorem lockstep_evaluateContract : Lockstep env H B False (evaluateContract env block p tx) := by
  refine .bind (lockstep_record _) fun _ =>
    .read (fun _ _ agree => by rw [agree.evm, agree.ledger]) fun s =>
    .bind (lockstep_applyRun _) fun _ => ?_
  cases (env.evaluateSC s.evm s.ledger tx block).outcome with
  | success contract logs => exact .bind (lockstep_record _) fun _ => lockstep_storeTx _ _
  | executionError logs => exact lockstep_storeTx _ _
  | nodeError => exact lockstep_throwAfterDrop _

theorem lockstep_evaluateLoaded : Lockstep env H B False (evaluateLoaded env block p tx) := by
  refine .read (fun _ _ agree => by rw [agree.ledger]) fun s => ?_
  cases s.ledger.account? tx.sender with
  | none => exact .pure _
  | some acc =>
    dsimp only
    split
    · exact .pure _
    split
    · exact .pure _
    cases intDelegatedAccountFromAddress tx.txData.recipient with
    | some n =>
      dsimp only
      split
      · exact lockstep_evaluateDexOrder _
      · exact .pure _
    | none =>
      dsimp only
      split
      · exact .pure _
      · exact lockstep_evaluateContract

theorem lockstep_evaluateHash (known : H hash) :
    Lockstep env H B False (evaluateHash env block hash) := by
  refine .bind (lockstep_loadFromDBPoolTx .pool known).attempt fun found => ?_
  cases found with
  | some tx => exact lockstep_evaluateLoaded
  | none =>
    exact .bind (lockstep_loadFromDBPoolTx .confirmed known) fun _ => lockstep_evaluateLoaded

theorem lockstep_evaluateSmartContracts (known : ∀ h ∈ block.transactionsHashes, H h) :
    Lockstep env H B False (evaluateSmartContracts env block) := by
  intro s s' agree
  have both : Lockstep env H B False (block.transactionsHashes.forM (evaluateHash env block)) :=
    .forM _ fun hash member => lockstep_evaluateHash (known hash member)
  have alike := both s s' agree
  unfold evaluateSmartContracts
  generalize block.transactionsHashes.forM (evaluateHash env block) s = r at alike
  generalize block.transactionsHashes.forM (evaluateHash env block) s' = r' at alike
  cases alike with
  | ok related => exact .ok related
  | error related => exact .error related

theorem lockstep_holdInEscrow (known : B.escrow tx.hash) (waits : B.waits tx.hash) :
    Lockstep env H B strict (holdInEscrow tx height) := by
  intro s s' agree
  have added := agree.addEscrow { tx with height } known waits
  unfold holdInEscrow
  simp only [agree.addEscrow_taken { tx with height } known]
  split
  · exact .ok (added.of_core rfl rfl)
  · exact .ok added

theorem lockstep_holdForApprovals (known : B.multiSign tx.hash) :
    Lockstep env H B strict (holdForApprovals tx height) := by
  intro s s' agree
  have added := agree.addMultiSign { tx with height } known
  unfold holdForApprovals
  simp only [agree.addMultiSign_taken { tx with height } known]
  split
  · exact .ok (added.of_core rfl rfl)
  · exact .ok added

theorem lockstep_addMultiSign (known : B.multiSign tx.hash) :
    Lockstep env H B strict (modify fun s => (s.addMultiSignTransaction tx).1) :=
  .modify fun _ _ agree => agree.addMultiSign _ known

theorem lockstep_processMultiSignAndEscrow :
    Lockstep env H B strict (processMultiSignAndEscrow tx) := by
  refine .bind (.failIf _ _) fun _ => .bind (.failIf _ _) fun _ =>
    .bind (lockstep_setAccount _) fun acc => ?_
  split
  · exact lockstep_liftLedger _
  split
  · exact lockstep_liftLedger _
  · exact .pure _

theorem lockstep_processRecoveryBind :
    Lockstep env H B strict (processRecoveryBind env tx height fee) := by
  unfold processRecoveryBind
  cases parseRecoveryBind tx.txData.optData with
  | none => exact .throw _
  | some parsed => exact .bind (lockstep_modifyLedger _) fun _ => lockstep_addBalance

theorem lockstep_processAddressReveal :
    Lockstep env H B strict (processAddressReveal env tx height fee) := by
  unfold processAddressReveal
  cases parseAddressReveal tx.txData.optData with
  | none => exact .throw _
  | some r =>
    refine .read (fun _ _ agree => by rw [agree.ledger]) fun s => .bind (.failIf _ _) fun _ => ?_
    cases env.recoveryTag r.oldPub with
    | none => exact .throw _
    | some tag =>
      exact .bind (lockstep_modifyLedger _) fun _ => .bind (lockstep_liftLedger _) fun _ =>
        .bind (lockstep_modifyLedger _) fun _ => lockstep_addBalance

theorem lockstep_processRecoveryReveal :
    Lockstep env H B strict (processRecoveryReveal env tx height fee) := by
  unfold processRecoveryReveal
  cases parseRecoveryReveal tx.txData.optData with
  | none => exact .throw _
  | some parsed =>
    refine .read (fun _ _ agree => by rw [agree.ledger]) fun s => ?_
    cases env.recoveryCommitment parsed.1 with
    | none => exact .throw _
    | some c =>
      refine .bind (.failIf _ _) fun _ => ?_
      cases env.recoveryTag parsed.1 with
      | none => exact .throw _
      | some tag =>
        exact .bind (lockstep_modifyLedger _) fun _ => .bind (lockstep_liftLedger _) fun _ =>
          .bind (lockstep_modifyLedger _) fun _ => lockstep_addBalance

theorem lockstep_processCommitmentRegistration (known : B.Offered tx.hash) :
    Lockstep env H B strict (processCommitmentRegistration tx height fee) := by
  refine .read (fun _ _ agree => by rw [agree.ledger]) fun s => ?_
  cases s.ledger.account? tx.sender with
  | none => exact .throw _
  | some acc =>
    refine .bind (lockstep_modifyLedger _) fun _ => ?_
    split
    · exact .bind (lockstep_holdInEscrow known.escrow known.waits) fun _ => lockstep_addBalance
    split
    · exact .bind (lockstep_holdForApprovals known.multiSign) fun _ => lockstep_addBalance
    · exact .bind (lockstep_liftLedger _) fun _ => .bind (lockstep_record _) fun _ =>
        lockstep_addBalance

theorem lockstep_processRecoveryTransaction (known : B.Offered tx.hash) :
    Lockstep env H B strict (processRecoveryTransaction env tx height fee) := by
  unfold processRecoveryTransaction
  split
  · exact lockstep_processRecoveryBind
  split
  · exact lockstep_processAddressReveal
  split
  · exact lockstep_processRecoveryReveal
  · exact lockstep_processCommitmentRegistration known

theorem lockstep_processCancellation {target : Hash}
    (sure : B.escrow target → B.cancelled target) :
    Lockstep env H B strict (processCancellation tx target height fee) := by
  refine .read (fun _ _ agree => by rw [agree.validateEscrowCancellation]) fun s => ?_
  cases validateEscrowCancellation s tx height with
  | error e => exact .throw _
  | ok pending =>
    exact .bind lockstep_addBalance fun _ =>
      .bind (.modify fun _ _ agree => agree.removeEscrow target) fun _ =>
      .bind (.modify fun _ _ agree => agree.banEscrow target sure) fun _ =>
      .bind (.modify fun _ _ agree => agree.markVoided target height _) fun _ => lockstep_record _

theorem lockstep_stakeOrUnstake : Lockstep env H B strict (stakeOrUnstake tx n height blockTime) := by
  unfold stakeOrUnstake
  dsimp only
  split
  · split
    · exact lockstep_liftLedger _
    · exact .throw _
  split
  · exact lockstep_liftLedger _
  split
  · exact lockstep_liftLedger _
  · exact .throw _

theorem lockstep_processRewards : Lockstep env H B strict (processRewards env tx n height fee) := by
  refine .read (fun _ _ agree => by rw [agree.ledger]) fun s => .bind (.failIf _ _) fun _ => ?_
  split
  · exact .pure _
  split
  · exact .bind (lockstep_liftLedger _) fun _ => lockstep_addBalance
  · exact .throw _

theorem lockstep_moveAmount (acc : Account) :
    Lockstep env H B strict (moveAmount tx acc height) := by
  unfold moveAmount
  split
  · exact .pure _
  · exact .bind lockstep_addBalance fun _ => lockstep_addBalance

theorem lockstep_holdOrMove (known : B.Offered tx.hash) (acc : Account) :
    Lockstep env H B strict (holdOrMove tx acc height) := by
  unfold holdOrMove
  split
  · exact lockstep_holdInEscrow known.escrow known.waits
  split
  · exact lockstep_holdForApprovals known.multiSign
  · dsimp only
    split
    · exact .bind (lockstep_addMultiSign known.multiSign) fun _ => lockstep_moveAmount acc
    · exact lockstep_moveAmount acc

theorem lockstep_processStandard (known : B.Offered tx.hash) :
    Lockstep env H B strict (processStandard tx height fee) := by
  refine .read (fun _ _ agree => by rw [agree.ledger]) fun s => ?_
  cases s.ledger.account? tx.sender with
  | none => exact .throw _
  | some acc =>
    exact .bind (lockstep_holdOrMove known acc) fun _ => .bind lockstep_addBalance fun _ =>
      lockstep_processMultiSignAndEscrow

theorem lockstep_processTransaction (known : B.Offered tx.hash)
    (sure : ∀ target, tx.cancellationTarget = some target →
      B.escrow target → B.cancelled target) :
    Lockstep env H B strict (processTransaction env tx height blockTime) := by
  unfold processTransaction
  cases tx.calcFee with
  | none => exact .throw _
  | some fee =>
    dsimp only
    split
    · exact lockstep_processRecoveryTransaction known
    refine .bind (lockstep_modifyLedger _) fun _ => ?_
    cases cancels : tx.cancellationTarget with
    | some target => exact lockstep_processCancellation (sure target cancels)
    | none =>
      cases tx.routingAccount with
      | none => exact .throw _
      | some route =>
        cases route with
        | none => exact lockstep_processStandard known
        | some n =>
          dsimp only
          unfold processDelegated
          split
          · exact .bind lockstep_stakeOrUnstake fun _ => .bind lockstep_addBalance fun _ =>
              lockstep_processMultiSignAndEscrow
          split
          · exact lockstep_processRewards
          · exact lockstep_addBalance

theorem countApprovals_perm {main : Transaction} {txs txs' : List Transaction}
    (perm : txs'.Perm txs) (addresses : List AddressBytes) :
    countApprovals main addresses txs' = countApprovals main addresses txs := by
  induction perm generalizing addresses with
  | nil => rfl
  | cons t _ ih => simp only [countApprovals, ih]
  | swap a b rest =>
    by_cases skipA : a.amount ≠ 0 ∨ a.recipient ≠ main.recipient
    · simp only [countApprovals, if_pos skipA]
    by_cases skipB : b.amount ≠ 0 ∨ b.recipient ≠ main.recipient
    · simp only [countApprovals, if_pos skipB]
    simp only [countApprovals, if_neg skipA, if_neg skipB]
    by_cases same : a.sender = b.sender
    · rw [same]
    · simp only [List.mem_erase_of_ne same, List.mem_erase_of_ne (Ne.symm same),
        List.erase_comm a.sender b.sender]
      by_cases inA : a.sender ∈ addresses
      · by_cases inB : b.sender ∈ addresses
        · simp only [if_pos inA, if_pos inB]
        · simp only [if_pos inA, if_neg inB]
      · simp only [if_neg inA]
  | trans _ _ first second => rw [first, second]

theorem find_multiSignGroup (agree : Agree env H B s s') (main : Hash) :
    (multiSignGroup s' main).find? (·.hash == main) =
      (multiSignGroup s main).find? (·.hash == main) := by
  have perm := agree.multiSignGroup main
  cases found : (multiSignGroup s main).find? (·.hash == main) with
  | none =>
    rw [List.find?_eq_none] at found ⊢
    exact fun tx member => found tx (perm.mem_iff.mp member)
  | some tx =>
    have hashed : tx.hash = main := by simpa using List.find?_some found
    have listed : tx ∈ multiSignGroup s' main :=
      perm.mem_iff.mpr (List.mem_of_find?_eq_some found)
    cases found' : (multiSignGroup s' main).find? (·.hash == main) with
    | none =>
      rw [List.find?_eq_none] at found'
      exact absurd (by simpa using hashed) (found' tx listed)
    | some tx' =>
      have hashed' : tx'.hash = main := by simpa using List.find?_some found'
      have pooled : ∀ u ∈ multiSignGroup s' main, u ∈ s'.poolTxMultiSign.held := by
        intro u member
        obtain ⟨group, sub, -, peeked⟩ := peekTransactions_multiSign
          s'.poolTxMultiSign Common.maxTransactionInPool (hashInt64 main)
        unfold multiSignGroup at member
        rw [peeked] at member
        exact Multiset.mem_coe.mpr ((sub.map _).mem member)
      rw [held_hash_inj (pooled tx' (List.mem_of_find?_eq_some found'))
        (pooled tx listed) (hashed'.trans hashed.symm)]

theorem lockstep_loadMultiSignMainTx (known : H main) :
    Lockstep env H B strict (loadMultiSignMainTx env main) := by
  refine .bind (lockstep_loadFromDBPoolTx .confirmed known).attempt fun found => ?_
  cases found with
  | some tx => exact .pure _
  | none => exact lockstep_loadFromDBPoolTx .pool known

theorem alike_findMainTx (agree : Agree env H B s s') (looked : H main)
    (known : B.multiSign main) :
    Alike (Agree env H B) strict
      (findMainTx env main (multiSignGroup s main) s)
      (findMainTx env main (multiSignGroup s' main) s') := by
  unfold findMainTx
  rw [find_multiSignGroup agree]
  cases (multiSignGroup s main).find? (·.hash == main) with
  | some tx => exact .ok agree
  | none =>
    have attempted : Lockstep env H B strict (attempt (loadMultiSignMainTx env main)) :=
      (lockstep_loadMultiSignMainTx looked).attempt
    apply (attempted s s' agree).bind
    intro found t t' run later
    cases found with
    | none => exact .ok later
    | some tx =>
      obtain ⟨-, -, hashed⟩ := loadMultiSignMainTx_ok (attempt_eq_ok_some.mp run)
      rw [← hashed] at known
      exact Parallel.bind (lockstep_addMultiSign known) (fun _ => .pure _) t t' later

theorem lockstep_executeMainTx (main : Transaction) :
    Lockstep env H B False (executeMainTx env main height) := by
  refine .bind (lockstep_record _) fun _ =>
    .bind (.modify fun _ _ agree => agree.removeMultiSign main.hash) fun _ => ?_
  split
  · exact lockstep_liftLedger _
  · exact .bind (lockstep_addBalance.onError False.elim) fun _ => lockstep_addBalance

theorem alike_settleMainTx (agree : Agree env H B s s') (main : Transaction)
    {txs txs' : List Transaction} (perm : txs'.Perm txs) (height : Int64) :
    Alike (Agree env H B) False (settleMainTx env main txs height s)
      (settleMainTx env main txs' height s') := by
  unfold settleMainTx
  split
  · exact .error False.elim
  rw [get_bind_run, get_bind_run, agree.ledger]
  cases s.ledger.account? main.sender with
  | none => exact .error False.elim
  | some acc =>
    dsimp only
    rw [perm.length_eq, countApprovals_perm perm]
    split
    · exact .ok agree
    split
    · exact .ok agree
    cases main.routingAccount with
    | none => exact .error False.elim
    | some route =>
      cases route with
      | some n => exact .ok agree
      | none =>
        dsimp only
        split
        · exact .error False.elim
        · exact lockstep_executeMainTx main s s' agree

theorem lockstep_processTransactionsMultiSign (looked : H tx.txParam.multiSignTx)
    (known : B.multiSign tx.txParam.multiSignTx) :
    Lockstep env H B False (processTransactionsMultiSign env tx height) := by
  unfold processTransactionsMultiSign
  split
  · exact .pure _
  intro s s' agree
  have perm := agree.multiSignGroup tx.txParam.multiSignTx
  apply (alike_findMainTx agree looked known).bind
  intro found t t' _ later
  cases found with
  | none => exact .error False.elim
  | some main => exact alike_settleMainTx later main perm height

/-- What a transaction names is looked up as well, and a hash that it may cancel and that is
offered has the same counters. -/
structure NamesRead (H : Hash → Prop) (B : Reads) (tx : Transaction) : Prop where
  looked : H tx.txParam.multiSignTx
  offered : B.multiSign tx.txParam.multiSignTx
  cancelled : ∀ target, tx.cancellationTarget = some target → B.escrow target → B.cancelled target

theorem lockstep_processBlockTx (block : Block) (looked : H hash) (listed : B.listed hash)
    (known : B.Offered hash) (agree : Agree env H B s s')
    (named : ∀ tx, s.db.loadTx? env .pool hash = some tx → NamesRead H B tx) :
    Alike (Agree env H B) False (processBlockTx env block hash s)
      (processBlockTx env block hash s') := by
  apply (lockstep_checkTransactionInDB listed s s' agree).bind
  intro _ t t' checked later
  obtain ⟨rfl, -⟩ := checkTransactionInDB_eq_ok.mp checked
  apply (lockstep_loadFromDBPoolTx .pool looked t t' later).bind
  intro tx u u' loaded ready
  obtain ⟨rfl, found⟩ := loadFromDBPoolTx_eq_ok.mp loaded
  have filed : tx.hash = hash := (bodyMatches_iff.mp (loadTx?_matches found)).1
  rw [← filed] at known
  refine Parallel.bind (lockstep_record _) (fun _ => ?_) u u' ready
  have names := named tx found
  exact .bind ((lockstep_processTransaction known names.cancelled).onError False.elim) fun _ =>
    (lockstep_processTransactionsMultiSign names.looked names.offered).onError False.elim

theorem lockstep_escrowPayment (listed : B.listed tx.hash) :
    Lockstep env H (B.without tx.hash) strict (escrowPayment env tx height) :=
  .bind (lockstep_addBalance.onError fun _ _ _ agree =>
      agree.removeBad tx.hash listed (B.unoffered_without _)) fun _ =>
    .bind lockstep_addBalance fun _ =>
    .bind (.modify fun _ _ agree => agree.removeEscrow tx.hash) fun _ => lockstep_record _

theorem alike_payEscrow (listed : B.listed tx.hash) (known : B.multiSign tx.hash)
    (agree : Agree env H B s s') :
    Alike (Agree env H (B.without tx.hash)) strict (payEscrow env tx height s)
      (payEscrow env tx height s') := by
  unfold payEscrow
  dsimp only
  split
  · exact lockstep_escrowPayment listed _ _ ((agree.addMultiSign tx known).without tx.hash)
  · exact lockstep_escrowPayment listed _ _ (agree.without tx.hash)

theorem alike_settleEscrow (listed : B.listed tx.hash) (known : B.multiSign tx.hash)
    (agree : Agree env H B s s') :
    Alike (Agree env H (B.without tx.hash)) strict (settleEscrow env height tx s)
      (settleEscrow env height tx s') := by
  have rest := agree.without tx.hash
  unfold settleEscrow
  cases tx.routingAccount with
  | none => exact .error fun _ => rest
  | some route =>
    cases route with
    | some n => exact .ok rest
    | none =>
      dsimp only
      rw [get_bind_run, get_bind_run, agree.ledger]
      cases s.ledger.account? tx.sender with
      | none => exact .error fun _ => rest
      | some acc =>
        dsimp only
        split
        · exact .ok rest
        split
        · refine .ok ?_
          have added := (agree.addMultiSign tx known).without tx.hash
          dsimp only
          rw [agree.addMultiSign_taken tx known]
          split
          · exact added.removeEscrow tx.hash
          · exact added
        split
        · have settled : Lockstep env H (B.without tx.hash) strict (do
              settleCommitment tx height
              modify fun s => s.removeEscrowTransaction tx.hash
              record (.settled .escrow tx height)) :=
            .bind (lockstep_liftLedger _) fun _ =>
              .bind (.modify fun _ _ agree => agree.removeEscrow tx.hash) fun _ => lockstep_record _
          exact settled s s' rest
        · exact alike_payEscrow listed known agree

theorem settleAll_agree (height : Int64) (entries : List Transaction)
    (distinct : (entries.map (·.hash)).Nodup)
    (known : ∀ e ∈ entries, B.listed e.hash ∧ B.multiSign e.hash) (agree : Agree env H B s s') :
    Agree env H B.loose (finalState (entries.forM (settleEscrow env height) s))
      (finalState (entries.forM (settleEscrow env height) s')) := by
  induction entries generalizing B s s' with
  | nil => exact agree.loose
  | cons e rest ih =>
    rw [List.map_cons, List.nodup_cons] at distinct
    obtain ⟨listed, offered⟩ := known e List.mem_cons_self
    have first : Alike (Agree env H (B.without e.hash)) True (settleEscrow env height e s)
      (settleEscrow env height e s') := alike_settleEscrow listed offered agree
    change Agree env H B.loose
      (finalState ((settleEscrow env height e >>= fun _ => rest.forM (settleEscrow env height)) s))
      (finalState ((settleEscrow env height e >>= fun _ => rest.forM (settleEscrow env height)) s'))
    generalize run : settleEscrow env height e s = r at first
    generalize run' : settleEscrow env height e s' = r' at first
    cases first with
    | error related =>
      rw [bind_of_error run, bind_of_error run']
      exact (related trivial).loose
    | ok related =>
      rw [bind_of_ok run, bind_of_ok run']
      refine ih (B := B.without e.hash) distinct.2 (fun f member => ?_) related
      obtain ⟨listed', offered'⟩ := known f (List.mem_cons_of_mem e member)
      exact ⟨listed', offered', fun same => distinct.1 (same ▸ List.mem_map_of_mem member)⟩

theorem processTransactionsEscrow_agree (height : Int64)
    (known : ∀ hash, B.waits hash → B.listed hash ∧ B.multiSign hash) (agree : Agree env H B s s') :
    Agree env H B.loose (finalState (processTransactionsEscrow env height s))
      (finalState (processTransactionsEscrow env height s')) := by
  unfold processTransactionsEscrow
  rw [get_bind_run, get_bind_run, agree.peekEscrow]
  obtain ⟨distinct, present⟩ := due_entries s height
  refine settleAll_agree height _ distinct (fun e member => known _ (agree.waiting _ ?_)) agree
  unfold getTransactionByHash
  rw [mem_held.mp (present e member)]
  rfl

theorem lockstep_rewardUsers {reward sum : Int64} (staked : List (AddressBytes × Int64))
    (rest : Int64) : Lockstep env H B strict (rewardUsers env block n reward sum staked rest) := by
  induction staked generalizing rest with
  | nil => exact .pure _
  | cons staker others ih =>
    unfold rewardUsers
    split
    · exact .bind (lockstep_liftLedger _) fun _ => ih _
    · exact ih rest

theorem lockstep_rewardBlock (reward : Int64) :
    Lockstep env H B strict (rewardBlock env block reward) := by
  unfold rewardBlock
  cases intDelegatedAccountFromAddress block.delegatedAccount with
  | none => exact .throw _
  | some n =>
    refine .bind (.failIf _ _) fun _ => .read (fun _ _ agree => by rw [agree.ledger]) fun s =>
      .bind (.failIf _ _) fun _ => .bind (.failIf _ _) fun _ => .bind (lockstep_liftLedger _)
      fun _ => .bind (lockstep_rewardUsers _ _) fun rest => ?_
    split
    · exact lockstep_liftLedger _
    · exact .failIf _ _

theorem lockstep_applyRandaoCommit : Lockstep env H B strict (applyRandaoCommit block) := by
  unfold applyRandaoCommit
  split
  · exact .pure _
  cases intDelegatedAccountFromAddress block.delegatedAccount with
  | none => exact .throw _
  | some n => exact .bind (.failIf _ _) fun _ => lockstep_liftLedger _

theorem lockstep_checkHeader : Lockstep env H B strict (checkHeader env block lastBlock) := by
  refine .read (fun _ _ agree => by rw [agree.ledger, agree.dex, agree.evm]) fun s =>
    .bind (.failIf _ _) fun _ => .bind (.failIf _ _) fun _ => .bind (.failIf _ _) fun _ => ?_
  cases intDelegatedAccountFromAddress block.delegatedAccount with
  | none => exact .throw _
  | some n => exact .bind (.failIf _ _) fun _ => .failIf _ _

end QwidNode.Source
