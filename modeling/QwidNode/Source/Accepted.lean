import QwidNode.Source.EvaluateFacts

/-!
# What an accepted block went through

The inversions of `ProcessBlockTransfers` and `CheckBlockAndTransferFunds`. An accepted
block has passed the header checks and the check pass, its contracts have run, the
supply adds up, and its transactions, its reward and the matured escrows have been
applied in that order.
-/
namespace QwidNode.Source
open Lib List
variable {σ : Type} {env : Env σ} {newBlock lastBlock block : Block} {s t : Node σ}
variable {reward totalFee : Int64} {tx : Transaction}
variable {processed checked evaluated begun committed : Node σ} {txs : List Transaction}

/-- The last steps of an accepted block: recovery maintenance, the write batch, and the
removal of its transactions from the main pool. -/
def Node.finishBlock (env : Env σ) (block lastBlock : Block) (s : Node σ) : Node σ :=
  { s with
    ledger := applyRecoveryMaintenance env block lastBlock s.ledger
    db := s.db.commitBatch block }.removeAllTransactionsRelatedToBlock block

theorem Node.removeAllTransactionsRelatedToBlock_eq (s : Node σ) (block : Block) :
    ∃ pool stored, s.removeAllTransactionsRelatedToBlock block =
      { s with poolsTx := pool, db := { s.db with poolTx := stored } } := by
  unfold removeAllTransactionsRelatedToBlock
  induction block.transactionsHashes generalizing s with
  | nil => exact ⟨s.poolsTx, s.db.poolTx, rfl⟩
  | cons hash rest ih =>
    obtain ⟨pool, stored, equal⟩ := ih { s with
      poolsTx := s.poolsTx.removeTransactionByHash hash
      db := s.db.removePoolTx hash }
    exact ⟨pool, stored, equal⟩

theorem Node.finishBlock_log (s : Node σ) : (s.finishBlock env block lastBlock).log = s.log := by
  unfold finishBlock
  obtain ⟨_, _, equal⟩ := removeAllTransactionsRelatedToBlock_eq _ block
  rw [equal]

theorem Node.finishBlock_ledger (s : Node σ) : (s.finishBlock env block lastBlock).ledger =
    applyRecoveryMaintenance env block lastBlock s.ledger := by
  unfold finishBlock
  obtain ⟨_, _, equal⟩ := removeAllTransactionsRelatedToBlock_eq _ block
  rw [equal]

structure AcceptedVia (env : Env σ) (newBlock lastBlock : Block) (s : Node σ) (block : Block)
    (t : Node σ) (reward totalFee : Int64) (checked evaluated applied : Node σ) : Prop where
  header : checkHeader env newBlock lastBlock s = .ok () s
  check : checkBlockTransfers env newBlock lastBlock s = .ok (reward, totalFee) checked
  filled : block = { newBlock with blockFee := totalFee + lastBlock.blockFee }
  evaluation : block.transactionsHashes.forM (evaluateHash env block) checked = .ok () evaluated
  supply : calculatedSupply evaluated.ledger reward lastBlock.blockFee = block.supply
  keys : env.pubKeysStored block = true
  application : processBlockTransfers env block reward evaluated = .ok () applied
  final : t = applied.finishBlock env block lastBlock

theorem checkHeader_ok {u : Node σ} (run : checkHeader env newBlock lastBlock s = .ok () u) :
    u = s := by
  unfold checkHeader at run
  simp only [get_bind_run, failIf_bind_eq_ok] at run
  obtain ⟨-, -, -, run⟩ := run
  cases delegated : intDelegatedAccountFromAddress newBlock.delegatedAccount with
  | none =>
    simp only [delegated] at run
    cases run
  | some n =>
    simp only [delegated, failIf_bind_eq_ok] at run
    obtain ⟨-, operator⟩ := run
    unfold failIf at operator
    split at operator
    · cases operator
    · cases operator
      rfl

theorem evaluateSmartContracts_ok (run : evaluateSmartContracts env block s = .ok () t) :
    block.transactionsHashes.forM (evaluateHash env block) s = .ok () t := by
  unfold evaluateSmartContracts at run
  cases loop : block.transactionsHashes.forM (evaluateHash env block) s with
  | ok a u =>
    simp only [loop] at run
    cases run
    rfl
  | error e u =>
    simp only [loop] at run
    cases run

theorem checkBlockAndTransferFunds_ok
    (run : checkBlockAndTransferFunds env newBlock lastBlock s = .ok block t) :
    ∃ reward totalFee checked evaluated applied,
      AcceptedVia env newBlock lastBlock s block t reward totalFee checked evaluated applied := by
  obtain ⟨_, u, header, rest⟩ := bind_eq_ok.mp run
  obtain rfl := checkHeader_ok header
  obtain ⟨⟨reward, totalFee⟩, checked, check, rest⟩ := bind_eq_ok.mp rest
  obtain ⟨_, evaluated, contracts, rest⟩ := bind_eq_ok.mp rest
  simp only [get_bind_run, failIf_bind_eq_ok, not_not] at rest
  obtain ⟨supply, keys, rest⟩ := rest
  obtain ⟨_, applied, application, rest⟩ := bind_eq_ok.mp rest
  cases rest
  exact ⟨reward, totalFee, checked, evaluated, applied,
    { header := header
      check := check
      filled := rfl
      evaluation := evaluateSmartContracts_ok contracts
      supply := supply
      keys := by simpa using keys
      application := application
      final := rfl }⟩

structure AppliedVia (env : Env σ) (block : Block) (reward : Int64) (s t : Node σ)
    (begun processed rewarded committed : Node σ) : Prop where
  start : begun = s.beginPendingPoolJournal block.height
  transactions : block.transactionsHashes.forM (processBlockTx env block) begun = .ok () processed
  reward : rewardBlock env block reward processed = .ok () rewarded
  commit : applyRandaoCommit block rewarded = .ok () committed
  final : t = (finalState
    (processTransactionsEscrow env block.height committed)).endPendingPoolJournal

theorem processBlockTransfers_ok (run : processBlockTransfers env block reward s = .ok () t) :
    ∃ begun processed rewarded committed,
      AppliedVia env block reward s t begun processed rewarded committed := by
  unfold processBlockTransfers at run
  rw [modify_bind_run] at run
  obtain ⟨u, run, final⟩ := withDefer_eq_ok.mp run
  obtain ⟨_, processed, transactions, run⟩ := bind_eq_ok.mp run
  obtain ⟨_, rewarded, reward', run⟩ := bind_eq_ok.mp run
  obtain ⟨_, committed, commit, run⟩ := bind_eq_ok.mp run
  cases run
  exact ⟨_, processed, rewarded, committed, rfl, transactions, reward', commit, final.symm⟩

structure TurnVia (env : Env σ) (block : Block) (hash : Hash) (s t : Node σ) (tx : Transaction)
    (processed : Node σ) : Prop where
  fresh : s.db.includedTx.lookup hash = none
  loaded : s.db.loadTx? env .pool hash = some tx
  process : processTransaction env tx block.height block.blockTimeStamp
    { s with log := .included tx block.height :: s.log } = .ok () processed
  settle : processTransactionsMultiSign env tx block.height processed = .ok () t

theorem processBlockTx_ok {hash : Hash} (run : processBlockTx env block hash s = .ok () t) :
    ∃ tx processed, TurnVia env block hash s t tx processed := by
  obtain ⟨_, u, checked, afterCheck⟩ := bind_eq_ok.mp run
  obtain ⟨rfl, fresh⟩ := checkTransactionInDB_eq_ok.mp checked
  obtain ⟨tx, v, load, afterLoad⟩ := bind_eq_ok.mp afterCheck
  obtain ⟨rfl, loaded⟩ := loadFromDBPoolTx_eq_ok.mp load
  obtain ⟨_, w, recorded, afterRecord⟩ := bind_eq_ok.mp afterLoad
  cases recorded
  obtain ⟨_, processed, process, settle⟩ := bind_eq_ok.mp afterRecord
  rw [onError_eq_ok] at process settle
  exact ⟨tx, processed, fresh, loaded, process, settle⟩

theorem TurnVia.hash {hash : Hash} (turn : TurnVia env block hash s t tx processed) :
    tx.hash = hash :=
  (bodyMatches_iff.mp (loadTx?_matches turn.loaded)).1

inductive Processes (env : Env σ) (block : Block) :
    Node σ → List Transaction → Node σ → Prop where
  | nil (s : Node σ) : Processes env block s [] s
  | cons {s u t processed : Node σ} {tx : Transaction} {rest : List Transaction}
      (turn : TurnVia env block tx.hash s u tx processed) (others : Processes env block u rest t) :
      Processes env block s (tx :: rest) t

theorem processes_of_forM {hashes : List Hash}
    (run : hashes.forM (processBlockTx env block) s = .ok () t) :
    ∃ txs : List Transaction, txs.map (·.hash) = hashes ∧ Processes env block s txs t := by
  induction hashes generalizing s with
  | nil =>
    cases run
    exact ⟨[], rfl, .nil _⟩
  | cons hash rest ih =>
    obtain ⟨_, u, first, others⟩ := bind_eq_ok.mp run
    obtain ⟨tx, processed, turn⟩ := processBlockTx_ok first
    obtain ⟨txs, hashes, later⟩ := ih others
    have filed := turn.hash
    subst filed
    exact ⟨tx :: txs, by rw [List.map_cons, hashes], .cons turn later⟩

theorem Processes.append {earlier later : List Transaction}
    (run : Processes env block s (earlier ++ later) t) :
    ∃ u, Processes env block s earlier u ∧ Processes env block u later t := by
  induction earlier generalizing s with
  | nil => exact ⟨s, .nil s, run⟩
  | cons tx rest ih =>
    cases run with
    | cons turn others =>
      obtain ⟨u, before, after⟩ := ih others
      exact ⟨u, .cons turn before, after⟩

theorem TurnVia.applyFrame {hash : Hash} (turn : TurnVia env block hash s t tx processed) :
    ApplyFrame (fun _ => True) s t :=
  trans_of (ApplyFrame _) (applyFrame_event s _) (trans_of (ApplyFrame _)
    ((applyFrame_processTransaction tx _ _ fun _ => trivial).of_ok turn.process)
    ((applyFrame_processTransactionsMultiSign tx _).of_ok turn.settle))

theorem Processes.applyFrame (run : Processes env block s txs t) :
    ApplyFrame (fun _ => True) s t := by
  induction run with
  | nil s => exact refl_of (ApplyFrame _) s
  | cons turn _ ih => exact trans_of (ApplyFrame _) turn.applyFrame ih

theorem PoolTxShrinks.loadTx? {hash : Hash} (shrinks : PoolTxShrinks s t)
    (found : t.db.loadTx? env .pool hash = some tx) : s.db.loadTx? env .pool hash = some tx := by
  obtain ⟨stored, matching⟩ := Option.filter_eq_some_iff.mp found
  exact Option.filter_eq_some_iff.mpr ⟨shrinks hash tx stored, matching⟩

def IncludedAmong (txs : List Transaction) (e : Event) : Prop :=
  ∀ tx height, e = .included tx height → tx ∈ txs

theorem TurnVia.included {hash : Hash} {rest : List Transaction}
    (turn : TurnVia env block hash s t tx processed) :
    LogGrows (IncludedAmong (tx :: rest)) s t := by
  have first : LogGrows (IncludedAmong (tx :: rest)) s
      { s with log := .included tx block.height :: s.log } := by
    refine ⟨[_], rfl, fun e member tx' h equal => ?_⟩
    rw [List.mem_singleton, equal] at member
    cases member
    exact List.mem_cons_self
  have process : LogGrows (IncludedAmong (tx :: rest))
      { s with log := .included tx block.height :: s.log } processed := by
    refine (logGrows_processTransaction.of_ok turn.process).mono fun e own tx' h equal => ?_
    subst equal
    exact own.elim
  have settle : LogGrows (IncludedAmong (tx :: rest)) processed t := by
    refine ((logGrows_processTransactionsMultiSign tx).of_ok turn.settle).mono
      fun e own tx' h equal => ?_
    subst equal
    exact own.elim
  exact trans_of (LogGrows (IncludedAmong (tx :: rest))) first
    (trans_of (LogGrows (IncludedAmong (tx :: rest))) process settle)

theorem Processes.included (run : Processes env block s txs t) :
    LogGrows (IncludedAmong txs) s t := by
  induction run with
  | nil s => exact refl_of (LogGrows (IncludedAmong [])) s
  | @cons s u t processed tx rest turn _ ih =>
    have later : LogGrows (IncludedAmong (tx :: rest)) u t :=
      ih.mono fun e inside tx' h equal => List.mem_cons_of_mem _ (inside tx' h equal)
    exact trans_of (LogGrows (IncludedAmong (tx :: rest))) turn.included later

theorem AcceptedVia.tail {checked evaluated applied begun processed rewarded committed : Node σ}
    (via : AcceptedVia env newBlock lastBlock s block t reward totalFee checked evaluated applied)
    (applying : AppliedVia env block reward evaluated applied begun processed rewarded committed) :
    LogGrows (SettlementAt .escrow .escrow block.height) processed t := by
  have rewards : LogGrows (SettlementAt .escrow .escrow block.height) processed rewarded :=
    (logGrows_rewardBlock block reward).of_ok applying.reward
  have commits : LogGrows (SettlementAt .escrow .escrow block.height) rewarded committed :=
    (logGrows_applyRandaoCommit block).of_ok applying.commit
  have escrows : LogGrows (SettlementAt .escrow .escrow block.height) committed
      (finalState (processTransactionsEscrow env block.height committed)) :=
    logGrows_processTransactionsEscrow committed
  have final : t.log = (finalState (processTransactionsEscrow env block.height committed)).log := by
    rw [via.final, Node.finishBlock_log, applying.final]
    rfl
  exact trans_of (LogGrows _) rewards (trans_of (LogGrows _) commits
    (trans_of (LogGrows _) escrows (.of_eq final)))

theorem PassesAll.mem {c c' : CheckState} (passed : PassesAll env block s txs c c')
    (member : tx ∈ txs) : ∃ fee c₁ c₂, Passes env block s tx fee c₁ c₂ := by
  induction passed with
  | nil => cases member
  | cons first _ ih =>
    rcases List.mem_cons.mp member with rfl | later
    · exact ⟨_, _, _, first⟩
    · exact ih later

structure CheckedTx (env : Env σ) (block lastBlock : Block) (checked : Node σ) (hash : Hash)
    (tx : Transaction) : Prop where
  loaded : checked.db.loadTx? env .pool hash = some tx
  fresh : checked.db.includedTx.lookup hash = none
  verified : Verified env checked.ledger (parentContext lastBlock) tx
  passes : ∃ fee c c', Passes env block checked tx fee c c'

theorem CheckedTx.hash {hash : Hash} (known : CheckedTx env block lastBlock checked hash tx) :
    tx.hash = hash :=
  (bodyMatches_iff.mp (loadTx?_matches known.loaded)).1

theorem CheckedTx.ready {hash : Hash} (known : CheckedTx env block lastBlock checked hash tx) :
    ∃ acc, checked.ledger.account? tx.sender = some acc ∧ acc.address = tx.sender := by
  obtain ⟨_, _, _, passes⟩ := known.passes
  obtain ⟨acc, found, address, -⟩ := passes.sound
  exact ⟨acc, found, address⟩

theorem exists_related_of_mem {α β : Type} {R : α → β → Prop} {xs : List α} {ys : List β}
    (paired : Forall₂ R xs ys) {x : α} (member : x ∈ xs) : ∃ y ∈ ys, R x y := by
  induction paired with
  | nil => cases member
  | cons related _ ih =>
    rcases List.mem_cons.mp member with rfl | later
    · exact ⟨_, List.mem_cons_self, related⟩
    · obtain ⟨y, inside, found⟩ := ih later
      exact ⟨y, List.mem_cons_of_mem _ inside, found⟩

theorem checkBlockTransfers_checked
    (run : checkBlockTransfers env block lastBlock s = .ok (reward, totalFee) t) :
    LoadFrame s t ∧ ∀ hash ∈ block.transactionsHashes, ∃ tx,
      CheckedTx env block lastBlock t hash tx := by
  obtain ⟨txs, c, loaded, verified, passed, -⟩ := checkBlockTransfers_ok run
  obtain ⟨frame, -, paired⟩ := loadAll_ok loaded
  refine ⟨frame, fun hash member => ?_⟩
  obtain ⟨tx, inTxs, found, fresh⟩ := exists_related_of_mem paired member
  exact ⟨tx, found, fresh, verified tx inTxs, passed.mem inTxs⟩

theorem Processes.loaded (run : Processes env block s txs t) :
    ∀ tx ∈ txs, s.db.loadTx? env .pool tx.hash = some tx := by
  induction run with
  | nil s => simp
  | cons turn _ ih =>
    intro tx member
    rcases List.mem_cons.mp member with rfl | later
    · exact turn.loaded
    · exact turn.applyFrame.poolTx.loadTx? (ih tx later)

theorem ready_of_checked {hashes : List Hash}
    (checkedTx : ∀ hash ∈ hashes, ∃ tx, CheckedTx env block lastBlock checked hash tx) :
    ∀ hash ∈ hashes, Ready env checked hash := by
  intro hash member
  obtain ⟨tx, known⟩ := checkedTx hash member
  obtain ⟨acc, found, -⟩ := known.ready
  exact ⟨tx, acc, known.loaded, found⟩

/-- An accepted block from the parent state `s` to `t`: the check pass ends in `checked`,
the EVM pass in `evaluated`; the transactions `txs` are applied from `begun` to `processed`;
reward and commitment follow, and the matured escrows are settled from `committed` on. -/
structure Stages (env : Env σ) (newBlock lastBlock : Block) (s : Node σ) (block : Block)
    (t : Node σ) (reward totalFee : Int64) (txs : List Transaction)
    (checked evaluated begun processed committed : Node σ) : Prop where
  check : checkBlockTransfers env newBlock lastBlock s = .ok (reward, totalFee) checked
  filled : block = { newBlock with blockFee := totalFee + lastBlock.blockFee }
  load : LoadFrame s checked
  checkedTx : ∀ hash ∈ block.transactionsHashes, ∃ tx,
    CheckedTx env newBlock lastBlock checked hash tx
  evaluation : block.transactionsHashes.forM (evaluateHash env block) checked = .ok () evaluated
  evm : EvmFrame env checked evaluated
  supply : calculatedSupply evaluated.ledger reward lastBlock.blockFee = block.supply
  start : begun = evaluated.beginPendingPoolJournal block.height
  hashes : txs.map (·.hash) = block.transactionsHashes
  turns : Processes env block begun txs processed
  loaded : ∀ tx ∈ txs, evaluated.db.loadTx? env .pool tx.hash = some tx
  tail : ∃ rewarded, rewardBlock env block reward processed = .ok () rewarded ∧
    applyRandaoCommit block rewarded = .ok () committed
  final : t = (finalState
    (processTransactionsEscrow env block.height committed)).endPendingPoolJournal.finishBlock
      env block lastBlock

theorem accepted_stages
    (accepted : checkBlockAndTransferFunds env newBlock lastBlock s = .ok block t) :
    ∃ reward totalFee txs checked evaluated begun processed committed,
      Stages env newBlock lastBlock s block t reward totalFee txs checked evaluated begun
        processed committed := by
  obtain ⟨reward, totalFee, checked, evaluated, applied, via⟩ :=
    checkBlockAndTransferFunds_ok accepted
  obtain ⟨load, allChecked⟩ := checkBlockTransfers_checked via.check
  have sameHashes : block.transactionsHashes = newBlock.transactionsHashes := by rw [via.filled]
  rw [← sameHashes] at allChecked
  obtain ⟨frame, -⟩ := evaluateHashes_handed (ready_of_checked allChecked) via.evaluation
  obtain ⟨begun, processed, rewarded, committed, applying⟩ :=
    processBlockTransfers_ok via.application
  obtain ⟨txs, hashes, turns⟩ := processes_of_forM applying.transactions
  have pool : PoolTxShrinks evaluated begun := by
    rw [applying.start]
    exact (evaluated.poolFrame_undoJournalKeys _).poolTx
  exact ⟨reward, totalFee, txs, checked, evaluated, begun, processed, committed,
    { check := via.check
      filled := via.filled
      load := load
      checkedTx := allChecked
      evaluation := via.evaluation
      evm := frame
      supply := via.supply
      start := applying.start
      hashes := hashes
      turns := turns
      loaded := fun tx member => pool.loadTx? (turns.loaded tx member)
      tail := ⟨rewarded, applying.reward, applying.commit⟩
      final := by rw [via.final, applying.final] }⟩

theorem Stages.known
    (stages : Stages env newBlock lastBlock s block t reward totalFee txs checked evaluated begun
      processed committed)
    (member : tx ∈ txs) :
    ∃ known, CheckedTx env newBlock lastBlock checked tx.hash known ∧ tx.body = known.body := by
  have inBlock : tx.hash ∈ block.transactionsHashes := by
    rw [← stages.hashes]
    exact List.mem_map.mpr ⟨tx, member, rfl⟩
  obtain ⟨known, check⟩ := stages.checkedTx tx.hash inBlock
  have bodies := stages.evm.bodies tx.hash
  rw [stages.loaded tx member, check.loaded] at bodies
  exact ⟨known, check, Option.some.inj bodies⟩

theorem Stages.paired {txs known : List Transaction}
    (stages : Stages env newBlock lastBlock s block t reward totalFee txs checked evaluated begun
      processed committed)
    (loaded : loadAll env lastBlock newBlock.transactionsHashes s = .ok known checked) :
    Forall₂ (fun tx known => tx.body = known.body) txs known := by
  have hashes : newBlock.transactionsHashes = txs.map (·.hash) := by
    rw [stages.hashes, stages.filled]
  obtain ⟨-, -, paired⟩ := loadAll_ok loaded
  rw [hashes, forall₂_map_left_iff] at paired
  refine ((forall₂_and_left _ _).mpr ⟨stages.loaded, paired⟩).imp fun tx known both => ?_
  have bodies := stages.evm.bodies tx.hash
  rw [both.1, both.2.1] at bodies
  exact Option.some.inj bodies

end QwidNode.Source
