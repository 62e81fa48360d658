import QwidNode.Guarantees.Held
import QwidNode.Source.Lockstep

/-!
# What a block's result depends on

Two nodes in one chain state apply a block. The outcome still depends on the node: on the bans that
decide whether a pending pool takes a transaction, the array of the escrow pool, the bodies stored
under the hashes the block lists and the main transactions its approvals name, and journal entries
that an earlier candidate for the height left behind.
-/
namespace QwidNode.Guarantees
open Source Lib
variable {σ : Type} {env : Env σ} {s s' t u : Node σ} {newBlock lastBlock : Block}
variable {tx : Transaction} {hash : Hash} {H : Hash → Prop} {B : Reads}

/-- Equal accounts, staking, DEX and EVM state and equal pending transactions. -/
structure SameChainState (s s' : Node σ) : Prop where
  ledger : s'.ledger = s.ledger
  dex : s'.dex = s.dex
  evm : s'.evm = s.evm
  pending : ∀ pool hash, s'.pooled pool hash = s.pooled pool hash

/-- Both calls fail, or both succeed and end in the same chain state. -/
def AppliesAlike (env : Env σ) (newBlock lastBlock : Block) (s s' : Node σ) : Prop :=
  (succeeds (checkBlockAndTransferFunds env newBlock lastBlock s) = false ∧
      succeeds (checkBlockAndTransferFunds env newBlock lastBlock s') = false) ∨
    ∃ block t t', checkBlockAndTransferFunds env newBlock lastBlock s = .ok block t ∧
      checkBlockAndTransferFunds env newBlock lastBlock s' = .ok block t' ∧ SameChainState t t'

/-- The node has the transaction under the hash, stored or in a memory pool. -/
def Offers (env : Env σ) (s : Node σ) (hash : Hash) (tx : Transaction) : Prop :=
  (∃ p, s.db.loadTx? env p hash = some tx) ∨ s.findTxInMemoryPools hash = some tx

/-- The hashes a block lists, and those its transactions name as approved. -/
def Consulted (env : Env σ) (block : Block) (s : Node σ) (hash : Hash) : Prop :=
  hash ∈ block.transactionsHashes ∨
    ∃ listed ∈ block.transactionsHashes, ∃ tx, Offers env s listed tx ∧
      tx.txParam.multiSignTx = hash

/-- The hashes that may be offered to the multi-signature pool: a waiting escrow may move there. -/
def BanRead (env : Env σ) (block : Block) (s : Node σ) (hash : Hash) : Prop :=
  Consulted env block s hash ∨ (s.pooled .escrow hash).isSome

def Cancellable (env : Env σ) (block : Block) (s : Node σ) (hash : Hash) : Prop :=
  hash ∈ block.transactionsHashes ∧ ∃ listed ∈ block.transactionsHashes, ∃ tx,
    Offers env s listed tx ∧ tx.cancellationTarget = some hash

/-- What else two nodes have to share. Of the bans it is the refusal that counts, for the hashes
that may be offered to the pool: the counters themselves only where a cancellation counts up. -/
structure SharedInputs (env : Env σ) (block : Block) (s s' : Node σ) : Prop where
  included : ∀ hash, hash ∈ block.transactionsHashes ∨ (s.pooled .escrow hash).isSome →
    s'.db.includedTx.lookup hash = s.db.includedTx.lookup hash
  bodies : ∀ p hash, Consulted env block s hash →
    s'.db.loadTx? env p hash = s.db.loadTx? env p hash
  mainPool : ∀ hash, Consulted env block s hash →
    s'.poolsTx.getTransactionByHash hash = s.poolsTx.getTransactionByHash hash
  escrowBans : ∀ hash ∈ block.transactionsHashes,
    s'.poolTxEscrow.banned hash = s.poolTxEscrow.banned hash
  escrowCounts : ∀ hash, Cancellable env block s hash →
    s'.poolTxEscrow.bannedTransactions.lookup hash = s.poolTxEscrow.bannedTransactions.lookup hash
  multiSignBans : ∀ hash, BanRead env block s hash →
    s'.poolTxMultiSign.banned hash = s.poolTxMultiSign.banned hash
  escrowOrder : s'.poolTxEscrow.priorityQueue = s.poolTxEscrow.priorityQueue
  multiSignItems : s'.poolTxMultiSign.priorityQueue.Perm s.poolTxMultiSign.priorityQueue
  escrowRoom : s'.poolTxEscrow.maxTransactions = s.poolTxEscrow.maxTransactions
  multiSignRoom : s'.poolTxMultiSign.maxTransactions = s.poolTxMultiSign.maxTransactions
  multiSignFits : s.poolTxMultiSign.priorityQueue.length ≤ Common.maxTransactionInPool ∧
    s.poolTxMultiSign.maxTransactions ≤ Common.maxTransactionInPool
  journal : ∀ key e, (s.db.pendingJournal.lookup key = some e ∨
    s'.db.pendingJournal.lookup key = some e) → key.1 ≠ block.height

def blockReads (env : Env σ) (block : Block) (s : Node σ) : Reads where
  listed hash := hash ∈ block.transactionsHashes ∨ (s.pooled .escrow hash).isSome
  waits hash := hash ∈ block.transactionsHashes ∨ (s.pooled .escrow hash).isSome
  escrow hash := hash ∈ block.transactionsHashes
  multiSign := BanRead env block s
  cancelled := Cancellable env block s

def OffersFewer (env : Env σ) (s t : Node σ) : Prop :=
  ∀ hash tx, Offers env t hash tx → Offers env s hash tx

instance : IsPreorder (Node σ) (OffersFewer env) where
  refl _ _ _ offered := offered
  trans _ _ _ first second hash tx offered := first hash tx (second hash tx offered)

theorem offersFewer_withDb {db : Db σ}
    (fewer : ∀ p hash tx, db.loadTx? env p hash = some tx → Offers env s hash tx) :
    OffersFewer env s { s with db := db } := by
  intro hash tx offered
  rcases offered with ⟨p, found⟩ | pooled
  · exact fewer p hash tx found
  · exact .inr pooled

theorem offersFewer_removePoolTx (s : Node σ) (hash : Hash) :
    OffersFewer env s { s with db := s.db.removePoolTx hash } := by
  apply offersFewer_withDb
  intro p other tx found
  cases p with
  | pool =>
    by_cases same : other = hash
    · subst same
      simp [Db.loadTx?, Db.txs, Db.removePoolTx] at found
    · refine .inl ⟨.pool, ?_⟩
      simpa only [Db.loadTx?, Db.txs, Db.removePoolTx, AList.lookup_erase_ne same] using found
  | confirmed => exact .inl ⟨.confirmed, found⟩
  | bad => exact .inl ⟨.bad, found⟩

theorem offersFewer_storeTx (p : TxPrefix) (filed : tx.hash = hash) (offered : Offers env s hash tx) :
    OffersFewer env s { s with db := s.db.storeTx p tx } := by
  apply offersFewer_withDb
  intro p' other tx' found
  rw [Db.loadTx?_storeTx] at found
  split at found
  · next here =>
    obtain ⟨rfl, -⟩ : tx = tx' ∧ _ := Option.filter_eq_some_iff.mp found |>.imp_left Option.some.inj
    rw [here.2, filed]
    exact offered
  · exact .inl ⟨p', found⟩

theorem offersFewer_load (p : TxPrefix) (hash : Hash) :
    Respects (OffersFewer env) (loadFromDBPoolTx env p hash) := by
  intro s
  obtain ⟨db, final, -, loads⟩ := load_final env p hash s
  rw [final]
  apply offersFewer_withDb
  intro p' other tx found
  rw [loads] at found
  exact .inl ⟨p', found⟩

theorem loadBadOrPooled_offers (run : loadBadOrPooled env hash s = .ok tx u) :
    u = s ∧ Offers env s hash tx := by
  obtain ⟨same, found⟩ := loadBadOrPooled_ok run
  exact ⟨same, found.imp_left fun stored => ⟨.bad, stored⟩⟩

theorem recoverTransaction_offers (run : recoverTransaction env lastBlock hash s = .ok tx u) :
    Offers env s hash tx := by
  obtain ⟨body, v, found, finish⟩ := bind_eq_ok.mp run
  rw [get_bind_run, failIf_bind_eq_ok] at finish
  cases finish.2
  exact (loadBadOrPooled_offers found).2

theorem offersFewer_loadMissing (hash : Hash) :
    Returns (OffersFewer env) (loadMissing env lastBlock hash) := by
  intro s tx t run
  apply trans_of (OffersFewer env) (offersFewer_removePoolTx s hash)
  obtain ⟨matching, ⟨confirmed, rfl⟩ | ⟨recovered, rfl⟩⟩ := loadMissing_cases run
  · exact offersFewer_storeTx .pool (bodyMatches_iff.mp matching).1 (.inl ⟨.confirmed, confirmed⟩)
  · have filed := (bodyMatches_iff.mp matching).1
    -- the recovered body is stored twice, and was offered before either time
    apply trans_of (OffersFewer env)
      (offersFewer_storeTx .confirmed filed (recoverTransaction_offers recovered))
    apply offersFewer_storeTx .pool filed
    refine .inl ⟨.confirmed, ?_⟩
    rw [Db.loadTx?_storeTx, if_pos ⟨rfl, filed.symm⟩]
    simp [Option.filter, matching]

theorem offersFewer_loadForBlock (hash : Hash) :
    Returns (OffersFewer env) (loadForBlock env lastBlock hash) := by
  intro s tx t run
  obtain ⟨-, ⟨-, rfl⟩ | ⟨v, -, loaded, missing⟩⟩ := loadForBlock_cases run
  · exact refl_of (OffersFewer env) _
  · have load : OffersFewer env s v := (offersFewer_load .pool hash).attempt.of_ok loaded
    exact trans_of (OffersFewer env) load (offersFewer_loadMissing hash v _ _ missing)

theorem offersFewer_loadAll (hashes : List Hash) :
    Returns (OffersFewer env) (loadAll env lastBlock hashes) := by
  induction hashes with
  | nil => exact Returns.pure _
  | cons hash rest ih =>
    apply Returns.bind (offersFewer_loadForBlock hash)
    intro tx
    apply Returns.bind ih
    intro txs
    exact Returns.pure _

def NamesWithin (env : Env σ) (H : Hash → Prop) (B : Reads) (hashes : List Hash) (s : Node σ) :
    Prop :=
  ∀ hash ∈ hashes, ∀ tx, s.db.loadTx? env .pool hash = some tx → NamesRead H B tx

theorem NamesWithin.shrink {hashes : List Hash} (names : NamesWithin env H B hashes s)
    (fewer : PoolTxShrinks s t) : NamesWithin env H B hashes t := by
  intro hash member tx found
  obtain ⟨stored, matching⟩ := Option.filter_eq_some_iff.mp found
  exact names hash member tx (Option.filter_eq_some_iff.mpr ⟨fewer hash tx stored, matching⟩)

theorem alike_processBlockTxs (block : Block) (hashes : List Hash)
    (listed : ∀ hash ∈ hashes, H hash ∧ B.listed hash ∧ B.Offered hash)
    (agree : Agree env H B s s') (names : NamesWithin env H B hashes s) :
    Alike (Agree env H B) False (hashes.forM (processBlockTx env block) s)
      (hashes.forM (processBlockTx env block) s') := by
  induction hashes generalizing s s' with
  | nil => exact .ok agree
  | cons hash rest ih =>
    obtain ⟨looked, read, offered⟩ := listed hash List.mem_cons_self
    have first := lockstep_processBlockTx block looked read offered agree
      (names hash List.mem_cons_self)
    apply first.bind
    intro _ t t' run later
    have frame : ApplyFrame (fun _ => True) s t := (applyFrame_processBlockTx block hash).of_ok run
    apply ih (fun other member => listed other (List.mem_cons_of_mem hash member)) later
    have others : NamesWithin env H B rest s :=
      fun other member => names other (List.mem_cons_of_mem hash member)
    exact others.shrink frame.poolTx

theorem alike_processBlockTransfers (block : Block) (reward : Int64)
    (listed : ∀ hash ∈ block.transactionsHashes, H hash ∧ B.listed hash ∧ B.Offered hash)
    (moves : ∀ hash, B.waits hash → B.listed hash ∧ B.multiSign hash) (agree : Agree env H B s s')
    (names : NamesWithin env H B block.transactionsHashes s)
    (fresh : ∀ key e, s.db.pendingJournal.lookup key = some e → key.1 ≠ block.height)
    (fresh' : ∀ key e, s'.db.pendingJournal.lookup key = some e → key.1 ≠ block.height) :
    Alike (Agree env H B.loose) False (processBlockTransfers env block reward s)
      (processBlockTransfers env block reward s') := by
  have begun : Agree env H B (s.beginPendingPoolJournal block.height)
      (s'.beginPendingPoolJournal block.height) := by
    rw [Node.beginPendingPoolJournal_fresh fresh, Node.beginPendingPoolJournal_fresh fresh']
    exact agree.of_core rfl rfl
  have named : NamesWithin env H B block.transactionsHashes
      (s.beginPendingPoolJournal block.height) := by
    rw [Node.beginPendingPoolJournal_fresh fresh]
    exact names
  apply Alike.withDefer _ fun t t' later => later.of_core rfl rfl
  apply (alike_processBlockTxs block _ listed begun named).bind_into False.elim
  intro _ t t' _ _ later
  apply (lockstep_rewardBlock reward t t' later).bind_into False.elim
  intro _ u u' _ _ later
  apply (lockstep_applyRandaoCommit u u' later).bind_into False.elim
  intro _ v v' _ _ later
  exact .ok (processTransactionsEscrow_agree block.height moves later)

theorem namesWithin_evaluated {reward totalFee : Int64} {block : Block} {checked evaluated : Node σ}
    (sameHashes : block.transactionsHashes = newBlock.transactionsHashes)
    (check : checkBlockTransfers env newBlock lastBlock s = .ok (reward, totalFee) checked)
    (evaluation : evaluateSmartContracts env block checked = .ok () evaluated) :
    NamesWithin env (Consulted env newBlock s) (blockReads env newBlock s)
        block.transactionsHashes evaluated ∧
      evaluated.db.pendingJournal = s.db.pendingJournal := by
  obtain ⟨frame, allChecked⟩ := checkBlockTransfers_checked check
  obtain ⟨txs, c, loaded, -⟩ := checkBlockTransfers_ok check
  have offers : OffersFewer env s checked := offersFewer_loadAll _ s txs checked loaded
  rw [← sameHashes] at allChecked
  obtain ⟨evm, -⟩ :=
    evaluateHashes_handed (ready_of_checked allChecked) (evaluateSmartContracts_ok evaluation)
  constructor
  · intro hash member tx found
    have bodies := evm.bodies hash
    rw [found, Option.map_some] at bodies
    obtain ⟨before, stored, same⟩ := Option.map_eq_some_iff.mp bodies.symm
    have offered := offers hash before (.inl ⟨.pool, stored⟩)
    have param : before.txParam = tx.txParam := by rw [Transaction.eq_of_body same]
    have cancels : before.cancellationTarget = tx.cancellationTarget := by
      rw [Transaction.eq_of_body same]
      rfl
    have named : Consulted env newBlock s tx.txParam.multiSignTx :=
      .inr ⟨hash, sameHashes ▸ member, before, offered, by rw [param]⟩
    exact ⟨named, .inl named, fun target names listed =>
      ⟨listed, hash, sameHashes ▸ member, before, offered, cancels.trans names⟩⟩
  · obtain ⟨poolTx, confirmedTx, unchanged⟩ := frame
    rw [evm.journal, unchanged]

theorem SharedInputs.agree (same : SameChainState s s') (shared : SharedInputs env newBlock s s') :
    Agree env (Consulted env newBlock s) (blockReads env newBlock s) s s' where
  ledger := same.ledger
  dex := same.dex
  evm := same.evm
  included := shared.included
  loads := shared.bodies
  memory := shared.mainPool
  escrow := ⟨shared.escrowOrder ▸ .refl _, shared.escrowRoom, shared.escrowBans,
    shared.escrowCounts⟩
  order := shared.escrowOrder
  waiting _ found := .inr found
  multiSign := ⟨shared.multiSignItems, shared.multiSignRoom, shared.multiSignBans,
    fun _ => False.elim⟩
  fits := shared.multiSignFits.1
  room := shared.multiSignFits.2

theorem SameChainState.of_agree (agree : Agree env H B s s') :
    SameChainState s s' where
  ledger := agree.ledger
  dex := agree.dex
  evm := agree.evm
  pending pool hash := by
    cases pool with
    | standard => rfl
    | escrow => exact agree.escrow.lookup hash
    | multiSign => exact agree.multiSign.lookup hash

theorem SameChainState.finishBlock (same : SameChainState s s') (block lastBlock : Block) :
    SameChainState (s.finishBlock env block lastBlock) (s'.finishBlock env block lastBlock) := by
  unfold Node.finishBlock
  obtain ⟨_, _, equal⟩ := Node.removeAllTransactionsRelatedToBlock_eq { s with
    ledger := applyRecoveryMaintenance env block lastBlock s.ledger
    db := s.db.commitBatch block } block
  obtain ⟨_, _, equal'⟩ := Node.removeAllTransactionsRelatedToBlock_eq { s' with
    ledger := applyRecoveryMaintenance env block lastBlock s'.ledger
    db := s'.db.commitBatch block } block
  rw [equal, equal']
  exact { same with ledger := congrArg (applyRecoveryMaintenance env block lastBlock) same.ledger }

def applyChecked (env : Env σ) (block lastBlock : Block) (reward : Int64) : NodeM σ Block := do
  evaluateSmartContracts env block
  let s ← get
  failIf (calculatedSupply s.ledger reward lastBlock.blockFee ≠ block.supply) .supplyMismatch
  failIf (env.pubKeysStored block = false) .pubKeysFail
  processBlockTransfers env block reward
  modifyLedger (applyRecoveryMaintenance env block lastBlock)
  modifyDb fun db => db.commitBatch block
  modify fun s => s.removeAllTransactionsRelatedToBlock block
  pure block

theorem checkBlockAndTransferFunds_eq (env : Env σ) (newBlock lastBlock : Block) :
    checkBlockAndTransferFunds env newBlock lastBlock = (do
      checkHeader env newBlock lastBlock
      let result ← checkBlockTransfers env newBlock lastBlock
      applyChecked env { newBlock with blockFee := result.2 + lastBlock.blockFee } lastBlock
        result.1) := rfl

theorem alike_applyChecked {checked checked' : Node σ} (block : Block) {reward : Int64}
    (listed : ∀ hash ∈ block.transactionsHashes, H hash ∧ B.listed hash ∧ B.Offered hash)
    (moves : ∀ hash, B.waits hash → B.listed hash ∧ B.multiSign hash)
    (agree : Agree env H B checked checked')
    (names : ∀ evaluated, evaluateSmartContracts env block checked = .ok () evaluated →
      NamesWithin env H B block.transactionsHashes evaluated ∧
      ∀ key e, evaluated.db.pendingJournal.lookup key = some e → key.1 ≠ block.height)
    (fresh : ∀ evaluated, evaluateSmartContracts env block checked' = .ok () evaluated →
      ∀ key e, evaluated.db.pendingJournal.lookup key = some e → key.1 ≠ block.height) :
    Alike SameChainState False (applyChecked env block lastBlock reward checked)
      (applyChecked env block lastBlock reward checked') := by
  apply (lockstep_evaluateSmartContracts (fun hash member => (listed hash member).1) checked
    checked' agree).bind_into False.elim
  intro _ evaluated evaluated' evaluation evaluation' agree
  rw [get_bind_run, get_bind_run, agree.ledger]
  simp only [failIf_bind]
  split
  · exact .error False.elim
  split
  · exact .error False.elim
  have applied := alike_processBlockTransfers block reward listed moves agree
    (names evaluated evaluation).1 (names evaluated evaluation).2 (fresh evaluated' evaluation')
  apply applied.bind_into False.elim
  intro _ t t' _ _ agree
  exact .ok ((SameChainState.of_agree agree).finishBlock block lastBlock)

theorem alike_checkBlockAndTransferFunds (lastBlock : Block) (same : SameChainState s s')
    (shared : SharedInputs env newBlock s s') :
    Alike SameChainState False (checkBlockAndTransferFunds env newBlock lastBlock s)
      (checkBlockAndTransferFunds env newBlock lastBlock s') := by
  have listed : ∀ hash ∈ newBlock.transactionsHashes, Consulted env newBlock s hash ∧
      (blockReads env newBlock s).listed hash ∧ (blockReads env newBlock s).Offered hash :=
    fun hash member => ⟨.inl member, .inl member, .inl member, member, .inl (.inl member)⟩
  have moves : ∀ hash, (blockReads env newBlock s).waits hash →
      (blockReads env newBlock s).listed hash ∧ (blockReads env newBlock s).multiSign hash :=
    fun hash waits => ⟨waits, waits.imp_left .inl⟩
  rw [checkBlockAndTransferFunds_eq]
  apply (lockstep_checkHeader s s' (shared.agree same)).bind_into False.elim
  intro _ t t' header header' agree
  obtain rfl := checkHeader_ok header
  obtain rfl := checkHeader_ok header'
  apply (lockstep_checkBlockTransfers (fun hash member =>
    ⟨(listed hash member).1, (listed hash member).2.1⟩) t t' agree.loose).bind_into False.elim
  rintro ⟨reward, totalFee⟩ checked checked' check check' later
  have kept := agree.of_loose later (checkBlockTransfers_checked check).1
    (checkBlockTransfers_checked check').1
  apply alike_applyChecked { newBlock with blockFee := totalFee + lastBlock.blockFee }
    listed moves kept
  · intro evaluated evaluation
    obtain ⟨names, journal⟩ := namesWithin_evaluated (by rfl) check evaluation
    refine ⟨names, fun key e found => ?_⟩
    rw [journal] at found
    exact shared.journal key e (.inl found)
  · intro evaluated evaluation key e found
    rw [(namesWithin_evaluated (by rfl) check' evaluation).2] at found
    exact shared.journal key e (.inr found)

def unrelatedTransfer : Transaction := .plain 0x77 0x55 1 2 5

/-- The node also has that transaction stored and banned, and counts 50 bans of the block's
transaction in its escrow pool, one less than a refusal takes. -/
def busierNode : Node Unit :=
  let s := escrowNode [heldTransfer]
  { s with
    poolsTx := s.poolsTx.blockTransactionByHash heldTransfer.hash
    poolTxEscrow := { s.poolTxEscrow with
      bannedTransactions := s.poolTxEscrow.bannedTransactions.insert heldTransfer.hash 50 }
    poolTxMultiSign := s.poolTxMultiSign.blockTransactionByHash unrelatedTransfer.hash
    db := s.db.storeTx .pool unrelatedTransfer }

theorem eq_heldTransfer
    (offered : Offers Env.permissive (escrowNode [heldTransfer]) heldTransfer.hash tx) :
    tx = heldTransfer := by
  rcases offered with ⟨p, stored⟩ | pooled
  · cases p with
    | pool =>
      have known : (escrowNode [heldTransfer]).db.loadTx? Env.permissive .pool
          heldTransfer.hash = some heldTransfer := by decide +kernel
      rw [known] at stored
      exact (Option.some.inj stored).symm
    | confirmed => cases stored
    | bad => cases stored
  · cases pooled

theorem listed_heldTransfer (member : hash ∈ ((escrowNode [heldTransfer]).nextBlock 6
    [heldTransfer.hash]).transactionsHashes) : hash = heldTransfer.hash :=
  List.mem_singleton.mp member

theorem unrelated_not_read
    (read : BanRead Env.permissive ((escrowNode [heldTransfer]).nextBlock 6 [heldTransfer.hash])
      (escrowNode [heldTransfer]) hash) :
    hash ≠ unrelatedTransfer.hash := by
  rcases read with (listed | ⟨listed, member, tx, offered, named⟩) | waiting
  · rw [listed_heldTransfer listed]
    decide +kernel
  · rw [listed_heldTransfer member] at offered
    rw [← named, eq_heldTransfer offered]
    decide +kernel
  · cases waiting

end QwidNode.Guarantees
