import QwidNode.Source.Turns

/-!
# What a whole block does to the pending pools, the journal and the record

An accepted block touches the two pending pools and the record of events only in the
turns of its transactions and in the escrow pass at the end; the EVM pass records. An
invariant of whole runs therefore needs one lemma per turn and one per escrow entry.
-/
namespace QwidNode.Source
open Lib
variable {σ : Type} {env : Env σ} {newBlock lastBlock block : Block} {s t : Node σ}

theorem quiet_rewardBlock (block : Block) (reward : Int64) :
    Respects Quiet (rewardBlock env block reward) :=
  quiet_ledgerMoves.rewardBlock fun _ _ _ => trivial

theorem quiet_applyRandaoCommit (block : Block) :
    Respects Quiet (applyRandaoCommit block : NodeM σ Unit) :=
  quiet_ledgerMoves.applyRandaoCommit fun _ _ _ => trivial

/-- The write batch and the clean-up of the main pool keep the pending pools, the journal
and the record. -/
structure Finished (s t : Node σ) : Prop where
  quiet : Quiet s t
  journal : t.db.pendingJournal = s.db.pendingJournal
  journalHeight : t.journalHeight = s.journalHeight

theorem finished_finishBlock (env : Env σ) (s : Node σ) (block lastBlock : Block) :
    Finished s (s.finishBlock env block lastBlock) := by
  have committed : ∀ (hashes : List Hash) (db : Db σ),
      (hashes.foldl (fun db hash => db.commitTx block.height hash) db).pendingJournal =
        db.pendingJournal := by
    intro hashes
    induction hashes with
    | nil => exact fun _ => rfl
    | cons hash rest ih =>
      intro db
      rw [List.foldl_cons, ih]
      unfold Db.commitTx
      split <;> rfl
  unfold Node.finishBlock
  obtain ⟨_, _, equal⟩ := Node.removeAllTransactionsRelatedToBlock_eq
    { s with
      ledger := applyRecoveryMaintenance env block lastBlock s.ledger
      db := s.db.commitBatch block } block
  rw [equal]
  exact ⟨⟨⟨rfl, rfl⟩, rfl⟩, committed _ _, rfl⟩

theorem EscrowStep.escrowed_le {height : Int64} {e : Transaction}
    (step : EscrowStep env height e s t) : t.escrowed ≤ s.escrowed := by
  cases step with
  | idle quiet => exact le_of_eq quiet.pools.escrow
  | passedOn escrow | registered _ _ _ escrow | paid _ _ _ escrow | unpaid escrow =>
    rw [escrow]
    exact TransactionPool.held_removeTransactionByHash_le _ _
  | debited _ _ _ escrow => exact le_of_eq escrow

theorem EscrowStep.others {height : Int64} {e other : Transaction}
    (step : EscrowStep env height e s t) (member : other ∈ s.escrowed)
    (different : other.hash ≠ e.hash) : other ∈ t.escrowed := by
  cases step with
  | idle quiet => rwa [quiet.pools.escrow]
  | passedOn escrow | registered _ _ _ escrow | paid _ _ _ escrow | unpaid escrow =>
    rw [escrow]
    exact TransactionPool.mem_held_removeTransactionByHash.mpr ⟨member, different⟩
  | debited _ _ _ escrow => rwa [escrow]

theorem settleEscrow_forM_induction {I : Node σ → Prop} {height : Int64} {due : List Transaction}
    (distinct : (due.map (·.hash)).Nodup)
    (step : ∀ e ∈ due, ∀ u v, e ∈ u.escrowed → I u → EscrowStep env height e u v → I v)
    (start : I s) (present : ∀ e ∈ due, e ∈ s.escrowed) :
    I (finalState (due.forM (settleEscrow env height) s)) := by
  induction due generalizing s with
  | nil => exact start
  | cons e rest ih =>
    rw [List.map_cons, List.nodup_cons] at distinct
    have taken := settleEscrow_step env height e s
    have kept := step e List.mem_cons_self s _ (present e List.mem_cons_self) start taken
    change I (finalState ((settleEscrow env height e >>= fun _ =>
      rest.forM (settleEscrow env height)) s))
    cases run : settleEscrow env height e s with
    | error error v =>
      rw [run] at kept
      rw [bind_of_error run]
      exact kept
    | ok _ v =>
      rw [run] at kept taken
      rw [bind_of_ok run]
      refine ih distinct.2 (fun f member => step f (List.mem_cons_of_mem _ member)) kept
        fun f member => taken.others (present f (List.mem_cons_of_mem _ member)) fun same => ?_
      exact distinct.1 (same ▸ List.mem_map_of_mem member)

theorem due_entries (s : Node σ) (height : Int64) :
    ((s.poolTxEscrow.peekTransactions Common.maxTransactionInPool height).map (·.hash)).Nodup ∧
      ∀ e ∈ s.poolTxEscrow.peekTransactions Common.maxTransactionInPool height, e ∈ s.escrowed := by
  obtain ⟨due, sub, -, equal⟩ := s.poolTxEscrow.peekTransactions_escrow
    Common.maxTransactionInPool height
  have filed : (s.poolTxEscrow.priorityQueue.map fun item => item.transaction.hash) =
      s.poolTxEscrow.priorityQueue.map Item.value :=
    List.map_congr_left fun item member => (s.poolTxEscrow.keyed item member).symm
  rw [equal, List.map_map]
  constructor
  · exact (filed ▸ s.poolTxEscrow.queue_values_nodup).sublist (sub.map _)
  · intro e member
    obtain ⟨item, inside, rfl⟩ := List.mem_map.mp member
    exact Multiset.mem_coe.mpr (List.mem_map.mpr ⟨item, sub.subset inside, rfl⟩)

theorem processTransactionsEscrow_induction {I : Node σ → Prop} {height : Int64} (start : I s)
    (step : ∀ e ∈ s.escrowed, ∀ u v, e ∈ u.escrowed → I u → EscrowStep env height e u v → I v) :
    I (finalState (processTransactionsEscrow env height s)) := by
  obtain ⟨distinct, present⟩ := due_entries s height
  unfold processTransactionsEscrow
  rw [get_bind_run]
  exact settleEscrow_forM_induction distinct (fun e member => step e (present e member)) start
    present

theorem processTransactionsEscrow_le (env : Env σ) (height : Int64) (s : Node σ) :
    (finalState (processTransactionsEscrow env height s)).escrowed ≤ s.escrowed :=
  processTransactionsEscrow_induction (I := fun u => u.escrowed ≤ s.escrowed) (le_refl _)
    fun _ _ _ _ _ before step => step.escrowed_le.trans before

section Stages
variable {reward totalFee : Int64} {txs : List Transaction}
  {checked evaluated begun processed committed : Node σ}

theorem Stages.quiet_tail
    (stages : Stages env newBlock lastBlock s block t reward totalFee txs checked evaluated begun
      processed committed) : Quiet processed committed := by
  obtain ⟨rewarded, paid, commits⟩ := stages.tail
  exact trans_of Quiet ((quiet_rewardBlock block reward).of_ok paid)
    ((quiet_applyRandaoCommit block).of_ok commits)

theorem Stages.journal
    (stages : Stages env newBlock lastBlock s block t reward totalFee txs checked evaluated begun
      processed committed) :
    t.journalHeight = 0 ∧ ∀ key e, t.db.pendingJournal.lookup key = some e →
      s.db.pendingJournal.lookup key = some e ∨ key.1 = s.journalHeight ∨ key.1 = block.height := by
  have begunFrame := evaluated.poolFrame_undoJournalKeys (· == block.height)
  obtain ⟨rewarded, paid, commits⟩ := stages.tail
  have rewards : ApplyFrame (fun _ => True) processed rewarded :=
    (applyFrame_rewardBlock block reward).of_ok paid
  have randao : ApplyFrame (fun _ => True) rewarded committed :=
    (applyFrame_applyRandaoCommit block).of_ok commits
  have escrows : ApplyFrame (fun _ => True) committed
      (finalState (processTransactionsEscrow env block.height committed)) :=
    applyFrame_processTransactionsEscrow block.height committed
  have applied := ((stages.turns.applyFrame.journal.trans rewards.journal).trans
    randao.journal).trans escrows.journal
  have finished := finished_finishBlock env (finalState
    (processTransactionsEscrow env block.height committed)).endPendingPoolJournal block lastBlock
  rw [stages.final]
  refine ⟨finished.journalHeight, fun key e found => ?_⟩
  rw [finished.journal] at found
  have entries : checked.db.pendingJournal = s.db.pendingJournal ∧
      checked.journalHeight = s.journalHeight := by
    obtain ⟨_, _, rfl⟩ := stages.load
    exact ⟨rfl, rfl⟩
  rcases applied.keys key e found with old | new
  · rw [stages.start] at old
    rcases begunFrame.journal.keys key e old with older | newer
    · rw [stages.evm.journal, entries.1] at older
      exact .inl older
    · rw [stages.evm.journalHeight, entries.2] at newer
      exact .inr (.inl newer)
  · rw [stages.start] at new
    exact .inr (.inr new)

end Stages
end QwidNode.Source
