import QwidNode.Guarantees.Maturity
import QwidNode.Guarantees.Rejection
import QwidNode.Guarantees.Undo

/-!
# Held transfers stay pending

Source: `ProcessTransaction` (`blocks/processTransaction.go:528-569`) and the commitment branch of
`processRecoveryTransaction` (`blocks/recovery.go:80-107`). Both ignore the pool's answer: a refused
transfer is charged its fee and is nowhere.
-/
namespace QwidNode.Guarantees
open Source Lib Lib.Debits Relation Node Transaction Bool
variable {σ : Type} {env : Env σ} {s t u : Node σ} {tx : Transaction}
  {height blockTime fee : Int64}

/-- A transfer that names no main transaction, or a commitment registration. -/
def Holdable (tx : Transaction) : Prop :=
  tx.isCommitmentRegistration = true ∨
    (tx.isRecovery = false ∧ tx.cancellationTarget = none ∧ tx.routingAccount = some none ∧
      tx.txParam.multiSignTx = zerosHash)

def waitingPool (acc : Account) : PoolType :=
  if 0 < acc.transactionDelay then .escrow else .multiSign

theorem waitingPool_ne_standard (acc : Account) : waitingPool acc ≠ .standard := by
  unfold waitingPool
  split
  · decide
  · decide

theorem waitingPool_congr {acc acc' : Account} (same : acc'.policy = acc.policy) :
    waitingPool acc' = waitingPool acc := by
  simp only [Account.policy, Prod.mk.injEq] at same
  simp only [waitingPool, same.1]

theorem pooled_holdInEscrow (run : holdInEscrow tx height s = .ok () t) :
    t.pooled = (s.addPending .escrow { tx with height }).pooled := by
  unfold holdInEscrow at run
  cases run
  dsimp only
  split
  · rfl
  · rfl

theorem pooled_holdForApprovals (run : holdForApprovals tx height s = .ok () t) :
    t.pooled = (s.addPending .multiSign { tx with height }).pooled := by
  unfold holdForApprovals at run
  cases run
  dsimp only
  split
  · rfl
  · rfl

theorem processCommitmentRegistration_offers {acc : Account}
    (found : s.ledger.account? tx.sender = some acc) (restricted : acc.restricted)
    (run : processCommitmentRegistration tx height fee s = .ok () t) :
    ∃ l, t.pooled = (addPending { s with ledger := l } (waitingPool acc)
      { tx with height }).pooled := by
  unfold processCommitmentRegistration at run
  simp only [get_bind_run, found] at run
  obtain ⟨_, u, counted, rest⟩ := bind_eq_ok.mp run
  cases counted
  unfold waitingPool
  by_cases delayed : 0 < acc.transactionDelay
  · rw [if_pos delayed] at rest ⊢
    obtain ⟨_, v, hold, paying⟩ := bind_eq_ok.mp rest
    have paid := Elsewhere.pooled ((elsewhere_addBalance _ _ _ _ _).of_ok paying)
    exact ⟨_, paid.trans (pooled_holdInEscrow hold)⟩
  · have shared : 0 < acc.multiSignNumber := restricted.resolve_left delayed
    rw [if_neg delayed, if_pos shared] at rest
    rw [if_neg delayed]
    obtain ⟨_, v, hold, paying⟩ := bind_eq_ok.mp rest
    have paid := Elsewhere.pooled ((elsewhere_addBalance _ _ _ _ _).of_ok paying)
    exact ⟨_, paid.trans (pooled_holdForApprovals hold)⟩

theorem processStandard_offers {acc : Account}
    (found : s.ledger.account? tx.sender = some acc) (restricted : acc.restricted)
    (direct : tx.txParam.multiSignTx = zerosHash)
    (run : processStandard tx height fee s = .ok () t) :
    t.pooled = (s.addPending (waitingPool acc) { tx with height }).pooled := by
  unfold processStandard at run
  simp only [get_bind_run, found] at run
  obtain ⟨_, u, held, rest⟩ := bind_eq_ok.mp run
  have charged : t.pooled = u.pooled := Elsewhere.pooled
    ((Respects.bind (elsewhere_addBalance _ _ _ _ _) fun _ =>
      elsewhere_processMultiSignAndEscrow tx).of_ok rest)
  rw [charged]
  unfold holdOrMove at held
  unfold waitingPool
  by_cases delayed : 0 < acc.transactionDelay
  · rw [if_pos ⟨delayed, direct⟩] at held
    rw [if_pos delayed]
    exact pooled_holdInEscrow held
  · have shared : 0 < acc.multiSignNumber := restricted.resolve_left delayed
    rw [if_neg fun both => delayed both.1, if_pos ⟨shared, direct⟩] at held
    rw [if_neg delayed]
    exact pooled_holdForApprovals held

theorem recovery_of_registration (registers : tx.isCommitmentRegistration = true) :
    tx.isRecovery = true ∧ tx.isRecoveryBind = false ∧ tx.isRecoveryReveal = false := by
  have outside : isRecoveryAddress tx.txData.recipient = false := by
    simp only [isCommitmentRegistration, and_eq_true, not_eq_true'] at registers
    tauto
  simp only [isRecoveryAddress, or_eq_false_iff] at outside
  exact ⟨by simp [isRecovery, registers], outside.1, outside.2⟩

theorem processTransaction_offers (holdable : Holdable tx) (restricted : (tx.senderIn s).restricted)
    (run : processTransaction env tx height blockTime s = .ok () t) :
    ∃ l, t.pooled = (addPending { s with ledger := l } (waitingPool (tx.senderIn s))
      { tx with height }).pooled := by
  obtain ⟨fee, -, course⟩ := processTransaction_course run
  rcases holdable with registers | ⟨recovers, cancels, routed, direct⟩
  · obtain ⟨recovers, notBind, notReveal⟩ := recovery_of_registration registers
    have notAddress : tx.isAddressReveal = false := by simp [isAddressReveal, notReveal]
    cases course with
    | recovery _ run =>
      simp only [processRecoveryTransaction, notBind, notAddress, notReveal, false_eq_true,
        if_false] at run
      cases found : s.ledger.account? tx.sender with
      | none =>
        unfold processCommitmentRegistration at run
        simp only [get_bind_run, found] at run
        cases run
      | some acc =>
        have sender : tx.senderIn s = acc := Ledger.accountOrNew_of_some found
        rw [sender] at restricted ⊢
        exact processCommitmentRegistration_offers found restricted run
    | _ => simp_all
  · cases course with
    | standard _ _ _ run =>
      obtain ⟨acc, found, policy⟩ := account?_counted s.ledger tx.sender tx.recipient
      have held : acc.restricted := (Account.restricted_congr policy).mpr restricted
      rw [← waitingPool_congr policy]
      exact ⟨_, processStandard_offers found held direct run⟩
    | _ => simp_all

theorem pooled_addPending_iff (s : Node σ) (tx : Transaction) {pool : PoolType} :
    (s.addPending pool tx).pooled pool tx.hash = some tx ↔
      s.pooled pool tx.hash = some tx ∨
        (s.pooled pool tx.hash = none ∧ ¬ s.refuses pool tx.hash) := by
  cases found : s.pooled pool tx.hash with
  | some body =>
    rw [pooled_addPending_of_some _ _ found]
    simp
  | none =>
    by_cases refused : s.refuses pool tx.hash
    · rw [(pooled_addPending_refused refused).1, found]
      simp [refused]
    · rw [(pooled_addPending_fresh found refused pool tx.hash).1, if_pos ⟨rfl, rfl⟩]
      simp [refused]

def Resolves (hash : Hash) : Event → Prop
  | .settled _ tx _ => tx.hash = hash
  | .cancelled target _ _ => target = hash
  | _ => False

instance (hash : Hash) : DecidablePred (Resolves hash) := fun e => by
  unfold Resolves
  split
  all_goals infer_instance

/-- The record says that the hash was settled or cancelled between the two states. -/
def Resolved (hash : Hash) (s t : Node σ) : Prop :=
  ∃ events, t.log = events ++ s.log ∧ ∃ e ∈ events, Resolves hash e

/-- A held transfer is in one pending pool, and the other has nothing under its hash. -/
def Waits (held : Transaction) (s : Node σ) : Prop :=
  (s.pooled .escrow held.hash = some held ∧ s.pooled .multiSign held.hash = none) ∨
    (s.pooled .escrow held.hash = none ∧ s.pooled .multiSign held.hash = some held)

/-- The held transfer can be paid by the pass that starts here, if it is due: its sender has
what it needs for it and for its other payments of the pass. -/
structure Affords (s : Node σ) (height : Int64) (held : Transaction) : Prop where
  payable : Payable s
  accounts : ∀ e ∈ s.escrowed, (s.ledger.account? e.sender).isSome
  enough : s.ledger.escrowPays height held = true →
    held.amount.toInt + outgoing (payments s.ledger height
      ((passed s.poolTxEscrow.priorityQueue height).filter (· ≠ held))) held.sender ≤
        s.ledger.balances held.sender

/-- The condition on a block for a held transfer, on the transactions that are applied from `s`
on and on the state before the escrow pass: it is not listed again, none of them names it as
its main transaction while it is in escrow, and it can be paid when it is due. -/
structure Spares (block : Block) (txs : List Transaction) (s committed : Node σ)
    (held : Transaction) : Prop where
  unlisted : ∀ tx ∈ txs, tx.hash ≠ held.hash
  unnamed : s.pooled .escrow held.hash = some held →
    ∀ tx ∈ txs, tx.txParam.multiSignTx ≠ held.hash
  affords : committed.pooled .escrow held.hash = some held → Affords committed block.height held

/-- The rest of an accepted block, from a state between two transactions. -/
structure Ending (env : Env σ) (block lastBlock : Block) (reward : Int64) (txs : List Transaction)
    (s committed t : Node σ) : Prop where
  turns : ∃ processed rewarded, Processes env block s txs processed ∧
    rewardBlock env block reward processed = .ok () rewarded ∧
    applyRandaoCommit block rewarded = .ok () committed
  final : t = (finalState (processTransactionsEscrow env block.height
    committed)).endPendingPoolJournal.finishBlock env block lastBlock

/-- Later blocks that neither settle nor cancel the held transfer. An accepted one finds no
entry of it in the journal of its height and spares it; one that `CheckBlockTransfers` rejects
does not list it. Between them the pools stay: nothing happens to them, or the journal has
undone what a block did that failed while it was applied. -/
inductive LaterBlocks (env : Env σ) (held : Transaction) (s : Node σ) : Node σ → Prop where
  | start : LaterBlocks env held s s
  | accepted {a b checked evaluated begun processed committed : Node σ}
      {newBlock lastBlock block : Block} {reward totalFee : Int64} {txs : List Transaction}
      (before : LaterBlocks env held s a)
      (stages : Stages env newBlock lastBlock a block b reward totalFee txs checked evaluated
        begun processed committed)
      (fresh : ∀ k e, a.db.pendingJournal.lookup k = some e → k.1 = block.height →
        e.transaction.hash ≠ held.hash)
      (spares : Spares block txs begun committed held)
      (unresolved : LogGrows (fun e => ¬ Resolves held.hash e) begun b) : LaterBlocks env held s b
  | rejected {a b : Node σ} {block lastBlock : Block} {e : Error}
      (before : LaterBlocks env held s a)
      (failed : checkBlockTransfers env block lastBlock a = .error e b)
      (unlisted : held.hash ∉ block.transactionsHashes) : LaterBlocks env held s b
  | between {a b : Node σ} (before : LaterBlocks env held s a) (same : b.pooled = a.pooled) :
      LaterBlocks env held s b

section Persistence
variable {hash : Hash} {held e : Transaction} {block lastBlock : Block} {txs : List Transaction}

theorem Resolved.before (resolved : Resolved hash t u)
    (grown : ∃ events, t.log = events ++ s.log) : Resolved hash s u := by
  obtain ⟨later, log, e, member, resolves⟩ := resolved
  obtain ⟨earlier, log'⟩ := grown
  exact ⟨later ++ earlier, by rw [log, log', List.append_assoc], e,
    List.mem_append_left _ member, resolves⟩

theorem Resolved.after (resolved : Resolved hash s t)
    (grown : ∃ events, u.log = events ++ t.log) : Resolved hash s u := by
  obtain ⟨earlier, log, e, member, resolves⟩ := resolved
  obtain ⟨later, log'⟩ := grown
  exact ⟨later ++ earlier, by rw [log', log, List.append_assoc], e,
    List.mem_append_right _ member, resolves⟩

theorem Resolved.contradicts (resolved : Resolved hash s t)
    (unresolved : LogGrows (fun e => ¬ Resolves hash e) s t) : False := by
  obtain ⟨events, log, e, member, resolves⟩ := resolved
  obtain ⟨others, log', none⟩ := unresolved
  rw [List.append_cancel_right (log.symm.trans log')] at member
  exact none e member resolves

theorem Waits.of_kept (waits : Waits held s) (kept : KeptAt held.hash s t) : Waits held t := by
  unfold Waits
  rw [kept, kept]
  exact waits

theorem Waits.pooled (waits : Waits held s) : ∃ pool, s.pooled pool held.hash = some held :=
  waits.elim (fun escrow => ⟨_, escrow.1⟩) fun multiSign => ⟨_, multiSign.2⟩

theorem lookup_eq_of_members {kind : PoolType} {before after : TransactionPool kind}
    (same : ∀ m : Transaction, m.hash = hash → (m ∈ after.held ↔ m ∈ before.held)) :
    after.transactions.lookup hash = before.transactions.lookup hash := by
  apply Option.ext
  intro m
  constructor
  · intro found
    obtain ⟨member, rfl⟩ := TransactionPool.mem_held_of_lookup found
    exact TransactionPool.mem_held.mp ((same m rfl).mp member)
  · intro found
    obtain ⟨member, rfl⟩ := TransactionPool.mem_held_of_lookup found
    exact TransactionPool.mem_held.mp ((same m rfl).mpr member)

theorem keptAt_of_members
    (escrow : ∀ m : Transaction, m.hash = hash → (m ∈ t.escrowed ↔ m ∈ s.escrowed))
    (multiSign : ∀ m : Transaction, m.hash = hash → (m ∈ t.approving ↔ m ∈ s.approving)) :
    KeptAt hash s t := by
  intro pool
  cases pool with
  | standard => rfl
  | escrow => exact lookup_eq_of_members escrow
  | multiSign => exact lookup_eq_of_members multiSign

theorem keptAt_of_pools (pools : PoolsSame s t) : KeptAt hash s t :=
  keptAt_of_members (fun _ _ => by rw [pools.escrow]) fun _ _ => by rw [pools.multiSign]

theorem mem_cons_iff_of_hash {m : Transaction} {ms : Multiset Transaction} (filed : m.hash = hash)
    (other : tx.hash ≠ hash) : m ∈ tx ::ₘ ms ↔ m ∈ ms := by
  rw [Multiset.mem_cons, or_iff_right]
  rintro rfl
  exact other filed

theorem approving_iff (approval : Approves tx s t) (other : tx.hash ≠ hash) (m : Transaction)
    (filed : m.hash = hash) : m ∈ t.approving ↔ m ∈ s.approving := by
  rcases approval with same | ⟨-, grown⟩
  · rw [same]
  · rw [grown]
    exact mem_cons_iff_of_hash filed other

theorem held_iff {kind : PoolType} {before after : TransactionPool kind}
    (pools : Pools tx before after) (other : tx.hash ≠ hash) (m : Transaction)
    (filed : m.hash = hash) : m ∈ after.held ↔ m ∈ before.held := by
  rcases pools with grown | ⟨same, -⟩
  · rw [grown]
    exact mem_cons_iff_of_hash filed other
  · rw [same]

theorem inclusion_keeps (inclusion : Inclusion tx height fee s t) (other : tx.hash ≠ hash) :
    Resolved hash s t ∨ KeptAt hash s t := by
  cases inclusion with
  | deposited _ _ _ _ pools => exact .inr (keptAt_of_pools pools)
  | charged escrow approval =>
    exact .inr (keptAt_of_members (fun _ _ => by rw [escrow]) (approving_iff approval other))
  | registered _ _ pools => exact .inr (keptAt_of_pools pools)
  | staked _ _ _ pools => exact .inr (keptAt_of_pools pools)
  | cancelled target e _ pending _ _ escrow multiSign log =>
    by_cases same : target = hash
    · exact .inl ⟨[_, _], log, _, List.mem_cons_self, same⟩
    · have filed := (TransactionPool.mem_held_of_lookup pending).2
      refine .inr (keptAt_of_members (fun m named => ?_) fun _ _ => by rw [multiSign])
      rw [escrow]
      exact (mem_cons_iff_of_hash named fun equal => same (filed.symm.trans equal)).symm
  | heldInEscrow _ _ _ pools multiSign =>
    exact .inr (keptAt_of_members (held_iff pools other) fun _ _ => by rw [multiSign])
  | heldForApprovals _ _ _ _ pools escrow =>
    exact .inr (keptAt_of_members (fun _ _ => by rw [escrow]) (held_iff pools other))
  | transferred _ _ _ escrow approval =>
    exact .inr (keptAt_of_members (fun _ _ => by rw [escrow]) (approving_iff approval other))

theorem approvals_keep (run : processTransactionsMultiSign env tx height s = .ok () t)
    (waits : Waits held s)
    (unnamed : s.pooled .escrow held.hash = some held → tx.txParam.multiSignTx ≠ held.hash) :
    Resolved held.hash s t ∨ KeptAt held.hash s t := by
  rcases processTransactionsMultiSign_ok run with ⟨-, rfl⟩ | ⟨main, u, named, source, outcome⟩
  · exact .inr fun _ => rfl
  have log : u.log = s.log := by
    rcases source with ⟨-, rfl⟩ | ⟨-, recovered⟩
    · rfl
    · exact recovered.log
  have reached : KeptAt held.hash s u := by
    rcases source with ⟨-, rfl⟩ | ⟨-, recovered⟩
    · exact fun _ => rfl
    by_cases same : main.hash = held.hash
    · -- the pool has the held transfer under the hash and does not take another
      have inside := (waits.resolve_left fun both => unnamed both.1 (named ▸ same)).2
      have member : held ∈ u.approving := by
        have before : held ∈ s.approving := TransactionPool.mem_held.mpr inside
        rcases recovered.multiSign with equal | grown
        · rwa [equal]
        · rw [grown]
          exact Multiset.mem_cons_of_mem before
      intro pool
      cases pool with
      | standard => rfl
      | escrow => exact lookup_eq_of_members fun _ _ => by rw [← escrowed, recovered.escrow]
      | multiSign => exact (TransactionPool.mem_held.mp member).trans inside.symm
    · refine keptAt_of_members (fun _ _ => by rw [recovered.escrow]) fun m filed => ?_
      rcases recovered.multiSign with equal | grown
      · rw [equal]
      · rw [grown]
        exact mem_cons_iff_of_hash filed same
  rcases outcome with rfl | ⟨acc, -, -, -, -, executed⟩
  · exact .inr reached
  by_cases same : main.hash = held.hash
  · refine .inl ⟨executionLog main height, by rw [executed.log, log], .settled .multiSign main height,
      ?_, same⟩
    unfold executionLog
    split
    · exact List.mem_singleton_self _
    · exact List.mem_cons_of_mem _ (List.mem_cons_of_mem _ (List.mem_singleton_self _))
  · refine .inr (trans_of (KeptAt _) reached (keptAt_of_members (fun _ _ => by
      rw [executed.escrow]) fun m filed => ?_))
    rw [executed.multiSign, TransactionPool.mem_held_removeTransactionByHash]
    exact and_iff_left fun equal => same (equal.symm.trans filed)

theorem turn_keeps {processed : Node σ} (turn : TurnVia env block hash s t tx processed)
    (waits : Waits held s) (other : tx.hash ≠ held.hash)
    (unnamed : s.pooled .escrow held.hash = some held → tx.txParam.multiSignTx ≠ held.hash) :
    Resolved held.hash s t ∨ KeptAt held.hash s t := by
  obtain ⟨fee, -, inclusion⟩ := processTransaction_ok turn.process
  have settled : ApplyFrame (fun _ => True) processed t :=
    (applyFrame_processTransactionsMultiSign tx _).of_ok turn.settle
  have grown := settled.log
  have included : ∃ events, ({ s with log := .included tx block.height :: s.log } : Node σ).log =
      events ++ s.log := ⟨[_], rfl⟩
  rcases inclusion_keeps inclusion other with resolved | kept
  · exact .inl ((resolved.before included).after grown)
  · have waiting : Waits held processed := waits.of_kept kept
    rcases approvals_keep turn.settle waiting (fun escrow => unnamed ((kept .escrow).symm.trans
      escrow)) with resolved | kept'
    · refine .inl (resolved.before ?_)
      have process : ApplyFrame (fun _ => True) s processed :=
        trans_of (ApplyFrame _) (applyFrame_event s _)
          ((applyFrame_processTransaction tx _ _ fun _ => trivial).of_ok turn.process)
      exact process.log
    · exact .inr fun pool => (kept' pool).trans (kept pool)

theorem turns_keep (run : Processes env block s txs t) (waits : Waits held s)
    (unlisted : ∀ tx ∈ txs, tx.hash ≠ held.hash)
    (unnamed : s.pooled .escrow held.hash = some held →
      ∀ tx ∈ txs, tx.txParam.multiSignTx ≠ held.hash) :
    Resolved held.hash s t ∨ KeptAt held.hash s t := by
  induction run with
  | nil => exact .inr fun _ => rfl
  | @cons s u t _ tx rest turn others ih =>
    rcases turn_keeps turn waits (unlisted tx List.mem_cons_self) (fun escrow =>
      unnamed escrow tx List.mem_cons_self) with resolved | kept
    · exact .inl (resolved.after others.applyFrame.log)
    · rcases ih (waits.of_kept kept) (fun tx' inside => unlisted tx' (List.mem_cons_of_mem _ inside))
        (fun escrow tx' inside => unnamed ((kept .escrow).symm.trans escrow) tx'
          (List.mem_cons_of_mem _ inside)) with resolved | kept'
      · exact .inl (resolved.before turn.applyFrame.log)
      · exact .inr fun pool => (kept' pool).trans (kept pool)

theorem entry_keeps (direct : e.txParam.multiSignTx = zerosHash) (amount : 0 ≤ e.amount.toInt)
    (nonneg : s.ledger.NonNeg) (bounded : s.ledger.coins < 2 ^ 63) (present : e ∈ s.escrowed)
    (waits : Waits held s) (enough : e = held → s.ledger.escrowPays height held = true →
      ¬ s.ledger.balances held.sender < held.amount.toInt) :
    Resolved held.hash s (finalState (settleEscrow env height e s)) ∨
      Waits held (finalState (settleEscrow env height e s)) := by
  by_cases same : e.hash = held.hash
  swap
  · exact .inr (waits.of_kept (keptAt_settleEscrow (fun equal => same equal.symm) s))
  have found := mem_escrowed.mp present
  rw [same] at found
  obtain ⟨escrow, absent⟩ := waits.resolve_right fun both => by
    rw [found] at both
    cases both.1
  obtain rfl : e = held := Option.some.inj (found.symm.trans escrow)
  by_cases stuck : s.ledger.escrowStuck e
  · obtain ⟨error, run⟩ := settleEscrow_stuck env height stuck
    rw [run]
    exact .inr waits
  obtain ⟨v, run⟩ : ∃ v, settleEscrow env height e s = .ok () v := by
    cases pays : s.ledger.escrowPays height e with
    | true =>
      obtain ⟨v, run, -⟩ := settleEscrow_paid env direct pays amount nonneg bounded (enough rfl pays)
      exact ⟨v, run⟩
    | false =>
      obtain ⟨v, run, -⟩ := settleEscrow_unpaid env direct stuck pays
      exact ⟨v, run⟩
  have step := settleEscrow_step env height e s
  rw [run, finalState_ok] at step ⊢
  cases step with
  | idle quiet => exact .inr (waits.of_kept (keptAt_of_pools quiet.pools))
  | passedOn left _ multiSign =>
    refine .inr (.inr ⟨?_, ?_⟩)
    · apply Option.eq_none_iff_forall_ne_some.mpr
      intro m still
      obtain ⟨member, filed⟩ := TransactionPool.mem_held_of_lookup still
      change m ∈ v.escrowed at member
      rw [left, TransactionPool.mem_held_removeTransactionByHash] at member
      exact member.2 filed
    · rcases multiSign with grown | ⟨-, old⟩
      · apply TransactionPool.mem_held.mp
        rw [grown]
        exact Multiset.mem_cons_self _ _
      · change (s.pooled .multiSign e.hash).isSome at old
        rw [absent] at old
        cases old
  | registered _ _ _ _ _ log => exact .inl ⟨[_], log, _, List.mem_singleton_self _, rfl⟩
  | paid _ _ _ _ _ log => exact .inl ⟨[_, _, _], log, _, List.mem_cons_self, rfl⟩
  | unpaid _ _ _ _ failed =>
    obtain ⟨_, error⟩ := failed
    rw [run] at error
    cases error
  | debited _ _ failed =>
    obtain ⟨_, error⟩ := failed
    rw [run] at error
    cases error

theorem escrowPays_of_kept {l l' : Ledger} (kept : PoliciesKept (fun _ => False) l l')
    (account : (l.account? e.sender).isSome) :
    l'.escrowPays height e = l.escrowPays height e := by
  by_cases stuck : l.escrowStuck e
  · rcases stuck with malformed | ⟨-, missing⟩
    · simp [Ledger.escrowPays, malformed]
    · rw [missing] at account
      cases account
  · exact (Ledger.escrow_congr height kept stuck).2.2

theorem outgoing_payments_cons (l : Ledger) (e : Transaction) (rest : List Transaction)
    (a : AddressBytes) : outgoing (payments l height (e :: rest)) a =
      (if l.escrowPays height e = true ∧ e.sender = a ∧ e.recipient ≠ a then e.amount.toInt else 0) +
        outgoing (payments l height rest) a := by
  unfold payments
  by_cases pays : l.escrowPays height e = true
  · rw [List.filter_cons_of_pos pays, List.map_cons, outgoing_cons]
    congr 1
    exact if_congr (by simp [pays, payment]) rfl rfl
  · rw [List.filter_cons_of_neg pays]
    simp [pays]

theorem balances_after (direct : e.txParam.multiSignTx = zerosHash) (amount : 0 ≤ e.amount.toInt)
    (nonneg : s.ledger.NonNeg) (bounded : s.ledger.coins < 2 ^ 63)
    (run : settleEscrow env height e s = .ok () t) (a : AddressBytes) :
    s.ledger.balances a - (if s.ledger.escrowPays height e = true ∧ e.sender = a ∧ e.recipient ≠ a
      then e.amount.toInt else 0) ≤ t.ledger.balances a := by
  cases pays : s.ledger.escrowPays height e with
  | true =>
    by_cases short : s.ledger.balances e.sender < e.amount.toInt
    · obtain ⟨error, v, failed⟩ := settleEscrow_short env direct pays amount nonneg short
      rw [run] at failed
      cases failed
    · obtain ⟨v, paid, balances, -⟩ := settleEscrow_paid env direct pays amount nonneg bounded short
      rw [run] at paid
      cases paid
      rw [balances]
      have least := Payment.apply_ge (p := e.payment) (b := s.ledger.balances) (a := a) amount
      rwa [if_congr (show e.payment.payer = a ∧ e.payment.payee ≠ a ↔
        true = true ∧ e.sender = a ∧ e.recipient ≠ a by simp [payment]) rfl rfl] at least
  | false =>
    by_cases stuck : s.ledger.escrowStuck e
    · obtain ⟨error, failed⟩ := settleEscrow_stuck env height stuck
      rw [run] at failed
      cases failed
    · obtain ⟨v, skipped, balances, -⟩ := settleEscrow_unpaid env direct stuck pays
      rw [run] at skipped
      cases skipped
      rw [balances]
      simp

theorem pass_keeps (env : Env σ) (height : Int64) (l : Ledger) (entries : List Transaction)
    (kept : PoliciesKept (fun _ => False) l s.ledger) (nonneg : s.ledger.NonNeg)
    (bounded : s.ledger.coins < 2 ^ 63)
    (direct : ∀ e ∈ entries, e.txParam.multiSignTx = zerosHash)
    (amounts : ∀ e ∈ entries, 0 ≤ e.amount.toInt)
    (accounts : ∀ e ∈ entries, (l.account? e.sender).isSome)
    (distinct : (entries.map Transaction.hash).Nodup) (present : ∀ e ∈ entries, e ∈ s.escrowed)
    (waits : Waits held s)
    (enough : held ∈ entries → l.escrowPays height held = true →
      held.amount.toInt + outgoing (payments l height (entries.filter (· ≠ held))) held.sender ≤
        s.ledger.balances held.sender) :
    Resolved held.hash s (finalState (entries.forM (settleEscrow env height) s)) ∨
      Waits held (finalState (entries.forM (settleEscrow env height) s)) := by
  induction entries generalizing s with
  | nil => exact .inr waits
  | cons e rest ih =>
    rw [List.map_cons, List.nodup_cons] at distinct
    have first := List.mem_cons_self (a := e) (l := rest)
    have within : ∀ f ∈ rest, f ∈ e :: rest := fun f inside => List.mem_cons_of_mem e inside
    have pays : s.ledger.escrowPays height e = l.escrowPays height e :=
      escrowPays_of_kept kept (accounts e first)
    have walk : (e :: rest).forM (settleEscrow env height) s =
      (settleEscrow env height e >>= fun _ => rest.forM (settleEscrow env height)) s := rfl
    have taken := settleEscrow_step env height e s
    have here : Resolved held.hash s (finalState (settleEscrow env height e s)) ∨
        Waits held (finalState (settleEscrow env height e s)) :=
      entry_keeps (direct e first) (amounts e first) nonneg bounded (present e first) waits (by
        rintro rfl due
        have needed := enough first (pays ▸ due)
        have others : 0 ≤ outgoing (payments l height ((e :: rest).filter (· ≠ e))) e.sender := by
          apply outgoing_nonneg
          intro p member
          obtain ⟨f, inside, rfl⟩ := List.mem_map.mp member
          exact amounts f (List.mem_filter.mp (List.mem_filter.mp inside).1).1
        omega)
    cases run : settleEscrow env height e s with
    | error error v =>
      rw [walk, bind_of_error run]
      rw [run] at here
      exact here
    | ok _ v =>
      rw [run] at here taken
      have frame : ApplyFrame (fun _ => False) s v := (applyFrame_settleEscrow height e).of_ok run
      rw [walk, bind_of_ok run]
      rcases here with resolved | waiting
      · have later : ApplyFrame (fun _ => False) v
            (finalState (rest.forM (settleEscrow env height) v)) :=
          Respects.forM rest (fun f _ => applyFrame_settleEscrow height f) v
        exact .inl (resolved.after later.log)
      · obtain ⟨nonneg', coins'⟩ :=
          (conserves_settleEscrow (amounts e first)).of_ok run nonneg bounded
        refine (ih (kept.trans frame.policies) nonneg' (by omega)
          (fun f inside => direct f (within f inside)) (fun f inside => amounts f (within f inside))
          (fun f inside => accounts f (within f inside)) distinct.2 (fun f inside => ?_)
          waiting fun inside due => ?_).imp_left fun resolved => resolved.before frame.log
        · refine taken.others (present f (within f inside)) fun same => ?_
          exact distinct.1 (same ▸ List.mem_map_of_mem inside)
        · have differs : e ≠ held := fun equal =>
            distinct.1 (equal ▸ List.mem_map_of_mem (f := Transaction.hash) inside)
          have needed := enough (within held inside) due
          have after := balances_after (direct e first) (amounts e first) nonneg bounded run held.sender
          rw [List.filter_cons_of_pos (by simpa using differs), outgoing_payments_cons] at needed
          rw [pays] at after
          omega

theorem keptAt_addPending (pool : PoolType) (other : hash ≠ tx.hash) :
    KeptAt hash s (s.addPending pool tx) := by
  intro p
  by_cases standard : pool = .standard
  · subst standard
    rfl
  · rw [addPending_eq s standard, pooled_addTo standard, if_neg fun all => other all.2.1]

theorem keptAt_removePending (pool : PoolType) {key : Hash} (other : hash ≠ key) :
    KeptAt hash s (s.removePending pool key) := by
  intro p
  by_cases standard : pool = .standard
  · subst standard
    rfl
  · rw [(pooled_removePending standard p hash).1, if_neg fun both => other both.2]

theorem keptAt_undoKeys (keys : List (Int64 × Nat)) (paused : s.journalPaused = true)
    (others : ∀ k ∈ keys, ∀ e, s.db.pendingJournal.lookup k = some e → e.transaction.hash ≠ hash) :
    KeptAt hash s (keys.foldl undoKey s) := by
  induction keys generalizing s with
  | nil => exact fun _ => rfl
  | cons k rest ih =>
    have undone : (s.undoKey k).journalPaused = true ∧
        (s.undoKey k).db.pendingJournal = s.db.pendingJournal.erase k ∧
        KeptAt hash s (s.undoKey k) := by
      unfold undoKey
      cases entry : s.db.pendingJournal.lookup k with
      | none => exact ⟨paused, rfl, fun _ => rfl⟩
      | some e =>
        obtain ⟨still, journal⟩ := undoPendingChange_paused paused e
        refine ⟨still, congrArg (fun m => AList.erase k m) journal, ?_⟩
        have differs := others k List.mem_cons_self e entry
        change KeptAt hash s (s.undoPendingChange e)
        rw [undoPendingChange_eq]
        split
        · exact keptAt_removePending _ fun same => differs same.symm
        · exact keptAt_addPending _ fun same => differs same.symm
    refine trans_of (KeptAt hash) undone.2.2 (ih undone.1 fun k' member e entry => ?_)
    apply others k' (List.mem_cons_of_mem k member) e
    rw [undone.2.1] at entry
    by_cases same : k' = k
    · rw [same, AList.lookup_erase] at entry
      cases entry
    · rwa [AList.lookup_erase_ne same] at entry

theorem keptAt_beginPendingPoolJournal
    (others : ∀ k e, s.db.pendingJournal.lookup k = some e → k.1 = height →
      e.transaction.hash ≠ hash) : KeptAt hash s (s.beginPendingPoolJournal height) := by
  change KeptAt hash s (s.undoJournalKeys (· == height))
  unfold undoJournalKeys
  split
  · exact fun _ => rfl
  · change KeptAt hash s ((s.selectedKeys (· == height)).foldl undoKey
      { s with journalPaused := true })
    apply keptAt_undoKeys (s := { s with journalPaused := true }) _ rfl
    intro k member e entry
    have chosen := (List.mem_insertionSort journalAfter).mp member
    exact others k e entry (by simpa using (List.mem_filter.mp chosen).2)

theorem keptAt_loadAll {hashes : List Hash} (unlisted : hash ∉ hashes) :
    Respects (KeptAt hash) (loadAll env lastBlock hashes) := by
  induction hashes with
  | nil => exact .pure _
  | cons other rest ih =>
    have differs := List.ne_of_not_mem_cons unlisted
    refine .bind (fun s => ?_) fun _ =>
      .bind (ih (List.not_mem_of_not_mem_cons unlisted)) fun _ => .pure _
    have outcome := loadForBlock_outcome env lastBlock s other
    generalize loadForBlock env lastBlock other s = result at outcome ⊢
    intro pool
    cases outcome with
    | loaded _ _ touches =>
      exact congrFun (congrFun (samePending_of_loadFrame touches.frame).pooled pool) hash
    | duplicate _ _ discarded => exact (discarded.pooled pool hash).trans (if_neg differs)
    | missing _ same => exact congrFun (congrFun same.pooled pool) hash

theorem keptAt_rejected {error : Error} (unlisted : hash ∉ block.transactionsHashes)
    (rejected : checkBlockTransfers env block lastBlock s = .error error t) : KeptAt hash s t := by
  have loads : KeptAt hash s (finalState (loadAll env lastBlock block.transactionsHashes s)) :=
    keptAt_loadAll unlisted s
  have outcome := loadAll_outcome env lastBlock block.transactionsHashes s
  unfold checkBlockTransfers at rejected
  cases run : loadAll env lastBlock block.transactionsHashes s with
  | error e' u =>
    rw [bind_of_error run] at rejected
    cases rejected
    rw [run] at loads
    exact loads
  | ok txs u =>
    rw [run] at outcome loads
    rw [bind_of_ok run] at rejected
    cases outcome with
    | loaded _ _ named =>
      have drops : OnlyDrops (· ∈ block.transactionsHashes) u t := by
        refine (onlyDrops_afterLoading _ fun tx member => ?_).of_error rejected
        rw [← named]
        exact List.mem_map_of_mem member
      intro pool
      exact ((drops.pooled pool hash).resolve_right fun gone => unlisted gone.1).trans (loads pool)

theorem ending_keeps {reward : Int64} {committed : Node σ}
    (ending : Ending env block lastBlock reward txs s committed t) (waits : Waits held s)
    (spares : Spares block txs s committed held) :
    Resolved held.hash s t ∨ Waits held t := by
  obtain ⟨⟨processed, rewarded, turns, paid, commits⟩, rfl⟩ := ending
  have tail : Quiet processed committed := trans_of Quiet ((quiet_rewardBlock block reward).of_ok paid)
    ((quiet_applyRandaoCommit block).of_ok commits)
  have pass : ApplyFrame (fun _ => True) committed
      (finalState (processTransactionsEscrow env block.height committed)) :=
    applyFrame_processTransactionsEscrow block.height committed
  have finished := (finished_finishBlock env (finalState (processTransactionsEscrow env block.height
    committed)).endPendingPoolJournal block lastBlock).quiet
  -- the record only grows, and the last writes do not touch the pools
  have ended : ∃ events, ((finalState (processTransactionsEscrow env block.height
      committed)).endPendingPoolJournal.finishBlock env block lastBlock).log =
        events ++ committed.log := by
    rw [finished.log]
    exact pass.log
  rcases turns_keep turns waits spares.unlisted spares.unnamed with resolved | kept
  · exact .inl (resolved.after (by rw [← tail.log]; exact ended))
  have waiting : Waits held committed := (waits.of_kept kept).of_kept (keptAt_of_pools tail.pools)
  have grown : ∃ events, committed.log = events ++ s.log := by
    rw [tail.log]
    exact turns.applyFrame.log
  have passes : Resolved held.hash committed
        (finalState (processTransactionsEscrow env block.height committed)) ∨
      Waits held (finalState (processTransactionsEscrow env block.height committed)) := by
    have equal : finalState (processTransactionsEscrow env block.height committed) = finalState
        ((passed committed.poolTxEscrow.priorityQueue block.height).forM
          (settleEscrow env block.height) committed) :=
      escrowPass_eq (.refl committed.poolTxEscrow.priorityQueue) block.height
    rw [equal]
    have listed : ∀ e ∈ passed committed.poolTxEscrow.priorityQueue block.height,
      e ∈ committed.escrowed := fun e inside => mem_escrowed_of_passed (.refl _) inside
    rcases waiting with ⟨escrow, absent⟩ | ⟨absent, multiSign⟩
    · have affords := spares.affords escrow
      exact pass_keeps env block.height committed.ledger _ (.refl _) affords.payable.nonneg
        affords.payable.bounded (fun e inside => affords.payable.direct e (listed e inside))
        (fun e inside => affords.payable.amounts e (listed e inside))
        (fun e inside => affords.accounts e (listed e inside)) (passed_nodup (.refl _) _) listed
        (.inl ⟨escrow, absent⟩) fun _ => affords.enough
    · refine .inr (Waits.of_kept (.inr ⟨absent, multiSign⟩) (keptAt_settleAll env block.height
        held.hash _ (fun e inside same => ?_) committed))
      rw [same, mem_escrowed.mp (listed e inside)] at absent
      cases absent
  rcases passes with resolved | still
  · exact .inl ((resolved.before grown).after ⟨[], finished.log⟩)
  · exact .inr (still.of_kept (t := (finalState (processTransactionsEscrow env block.height
      committed)).endPendingPoolJournal.finishBlock env block lastBlock)
      (keptAt_of_pools ⟨finished.pools.escrow, finished.pools.multiSign⟩))

theorem ending_of_stages {newBlock : Block} {reward totalFee : Int64}
    {checked evaluated begun processed committed : Node σ}
    (stages : Stages env newBlock lastBlock s block t reward totalFee txs checked evaluated begun
      processed committed) : Ending env block lastBlock reward txs begun committed t := by
  obtain ⟨rewarded, paid, commits⟩ := stages.tail
  exact ⟨⟨processed, rewarded, stages.turns, paid, commits⟩, stages.final⟩

theorem waits_later (run : LaterBlocks env held s t) (waits : Waits held s) : Waits held t := by
  induction run with
  | start => exact waits
  | @accepted a b checked evaluated begun _ _ _ _ block _ _ _ _ stages fresh spares unresolved ih =>
    have loaded : KeptAt held.hash a evaluated := by
      refine trans_of (KeptAt _) (fun pool => ?_) (keptAt_of_pools (s := checked)
        ⟨congrArg TransactionPool.held stages.evm.escrow,
          congrArg TransactionPool.held stages.evm.multiSign⟩)
      exact congrFun (congrFun (samePending_of_loadFrame stages.load).pooled pool) held.hash
    have journal : evaluated.db.pendingJournal = a.db.pendingJournal := by
      rw [stages.evm.journal]
      obtain ⟨_, _, rfl⟩ := stages.load
      rfl
    have opened : KeptAt held.hash evaluated begun := by
      rw [stages.start]
      apply keptAt_beginPendingPoolJournal
      rw [journal]
      exact fresh
    rcases ending_keeps (ending_of_stages stages) ((ih.of_kept loaded).of_kept opened) spares with
      resolved | waiting
    · exact (resolved.contradicts unresolved).elim
    · exact waiting
  | rejected _ failed unlisted ih => exact ih.of_kept (keptAt_rejected unlisted failed)
  | between _ same ih => exact ih.of_kept fun pool => congrFun (congrFun same pool) held.hash

end Persistence

/-- A transfer or commitment registration of a restricted account that was processed is in its
pool, at the block's height, exactly when it was there already or the pool had nothing under
its hash and did not refuse it. Where the other pool had nothing under its hash either, it is
then in a pending pool, unchanged, after the rest of the block and after any later blocks, as
long as they spare it and none settles or cancels it. -/
theorem held_transfer_pending_iff (env : Env σ) (tx : Transaction) (height blockTime : Int64)
    (s t : Node σ) (holdable : Holdable tx) (restricted : (tx.senderIn s).restricted)
    (run : processTransaction env tx height blockTime s = .ok () t) :
    (t.pooled (waitingPool (tx.senderIn s)) tx.hash = some { tx with height } ↔
      s.pooled (waitingPool (tx.senderIn s)) tx.hash = some { tx with height } ∨
        (s.pooled (waitingPool (tx.senderIn s)) tx.hash = none ∧
          ¬ s.refuses (waitingPool (tx.senderIn s)) tx.hash)) ∧
      ∀ block lastBlock reward rest committed u v, block.height = height →
        t.pooled (waitingPool (tx.senderIn s)) tx.hash = some { tx with height } →
        (∀ pool, pool ≠ waitingPool (tx.senderIn s) → s.pooled pool tx.hash = none) →
        Ending env block lastBlock reward rest t committed u →
        Spares block rest t committed { tx with height } →
        LogGrows (fun e => ¬ Resolves tx.hash e) t u →
        LaterBlocks env { tx with height } u v →
        ∃ pool, v.pooled pool tx.hash = some { tx with height } := by
  obtain ⟨l, offered⟩ := processTransaction_offers holdable restricted run
  constructor
  · rw [offered]
    exact pooled_addPending_iff { s with ledger := l } { tx with height }
  · intro block lastBlock reward rest committed u v _ pooled alone ending spares unresolved later
    have waits : Waits { tx with height } t := by
      have others : ∀ pool, pool ≠ waitingPool (tx.senderIn s) → t.pooled pool tx.hash = none := by
        intro pool other
        rw [offered, addPending_eq _ (waitingPool_ne_standard _),
          pooled_addTo (waitingPool_ne_standard _), if_neg fun all => other all.1]
        exact alone pool other
      unfold waitingPool at pooled others
      split at pooled
      · next delayed =>
        simp only [if_pos delayed] at others
        exact .inl ⟨pooled, others .multiSign (by decide)⟩
      · next undelayed =>
        simp only [if_neg undelayed] at others
        exact .inr ⟨others .escrow (by decide), pooled⟩
    rcases ending_keeps ending waits spares with resolved | waiting
    · exact (resolved.contradicts unresolved).elim
    · exact (waits_later later waiting).pooled

def banningNode : Node Unit :=
  let s := escrowNode [heldTransfer]
  { s with poolTxEscrow := { s.poolTxEscrow with
      bannedTransactions := s.poolTxEscrow.bannedTransactions.insert heldTransfer.hash 51 } }

instance {P : PoolType → Prop} [DecidablePred P] : Decidable (∀ pool, P pool) :=
  decidable_of_iff (P .standard ∧ P .escrow ∧ P .multiSign)
    ⟨fun ⟨main, escrow, multiSign⟩ pool => by cases pool <;> assumption, fun all => ⟨all _, all _, all _⟩⟩

/-- The block of the transfer is accepted, the fee is gone, and no pool has the transfer. -/
theorem banned_transfer_lost :
    Holdable heldTransfer ∧ (heldTransfer.senderIn banningNode).restricted ∧
      ∃ block t, checkBlockAndTransferFunds Env.permissive
          (banningNode.nextBlock 6 [heldTransfer.hash]) (banningNode.parentBlock 5) banningNode =
            .ok block t ∧
        .included heldTransfer 6 ∈ t.log ∧
        (t.ledger.accountOrNew heldTransfer.sender).balance <
          (banningNode.ledger.accountOrNew heldTransfer.sender).balance ∧
        ∀ pool, t.pooled pool heldTransfer.hash = none :=
  ⟨.inr (by decide +kernel), by decide +kernel, by decide +kernel⟩

def processedNode : Node Unit :=
  finalState (processTransaction Env.permissive heldTransfer 6 0 (escrowNode [heldTransfer]))

def heldBlock : Block := (escrowNode [heldTransfer]).nextBlock 6 [heldTransfer.hash]

def rewardedNode : Node Unit := finalState (rewardBlock Env.permissive heldBlock
  (getReward ((escrowNode [heldTransfer]).parentBlock 5).supply) processedNode)

def committedNode : Node Unit := finalState (applyRandaoCommit heldBlock rewardedNode)

def endedNode : Node Unit :=
  (finalState (processTransactionsEscrow Env.permissive 6
    committedNode)).endPendingPoolJournal.finishBlock Env.permissive heldBlock
      ((escrowNode [heldTransfer]).parentBlock 5)

theorem ok_of_succeeds {x : NodeM Unit Unit} {s : Node Unit} (success : succeeds (x s) = true) :
    x s = .ok () (finalState (x s)) := by
  obtain ⟨_, t, run⟩ := succeeds_iff.mp success
  rw [run]
  rfl

/-- The transfer is held, and it still waits after a block that lists an unknown hash and is
rejected. -/
theorem held_transfer_waits :
    processedNode.pooled .escrow heldTransfer.hash = some { heldTransfer with height := 6 } ∧
      ∃ pool, (finalState (checkBlockTransfers Env.permissive (endedNode.nextBlock 7 [7])
        (endedNode.parentBlock 6) endedNode)).pooled pool heldTransfer.hash =
          some { heldTransfer with height := 6 } := by
  have decided := held_transfer_pending_iff Env.permissive heldTransfer 6 0
    (escrowNode [heldTransfer]) processedNode (.inr (by decide +kernel)) (by decide +kernel)
    (ok_of_succeeds (by decide +kernel))
  have pooled : processedNode.pooled .escrow heldTransfer.hash =
      some { heldTransfer with height := 6 } := by decide +kernel
  have payable : Payable committedNode :=
    ⟨by decide +kernel, by decide +kernel,
      ⟨by decide +kernel, by decide +kernel, by decide +kernel⟩, by decide +kernel⟩
  refine ⟨pooled, decided.2 heldBlock ((escrowNode [heldTransfer]).parentBlock 5)
    (getReward ((escrowNode [heldTransfer]).parentBlock 5).supply) [] committedNode endedNode _ rfl
    pooled (by decide +kernel) ⟨⟨processedNode, rewardedNode, .nil _, ok_of_succeeds (by decide +kernel),
      ok_of_succeeds (by decide +kernel)⟩, rfl⟩ ?_ ?_ ?_⟩
  · have none : ∀ tx : Transaction, tx ∉ [] := fun _ => List.not_mem_nil
    exact ⟨fun tx listed => absurd listed (none tx), fun _ tx listed => absurd listed (none tx),
      fun _ => ⟨payable, by decide +kernel, by decide +kernel⟩⟩
  · exact ⟨endedNode.log.take (endedNode.log.length - processedNode.log.length), by decide +kernel,
      by decide +kernel⟩
  · obtain ⟨error, t, failed⟩ : ∃ error t, checkBlockTransfers Env.permissive
        (endedNode.nextBlock 7 [7]) (endedNode.parentBlock 6) endedNode = .error error t := by
      cases run : checkBlockTransfers Env.permissive (endedNode.nextBlock 7 [7])
          (endedNode.parentBlock 6) endedNode with
      | error error t => exact ⟨error, t, rfl⟩
      | ok value t =>
        have never : succeeds (checkBlockTransfers Env.permissive (endedNode.nextBlock 7 [7])
          (endedNode.parentBlock 6) endedNode) = false := by decide +kernel
        rw [run] at never
        cases never
    rw [failed]
    exact .rejected .start failed (by decide +kernel)

end QwidNode.Guarantees
