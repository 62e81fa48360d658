import QwidNode.Source.ApplyTraversal

/-!
# What applying transactions cannot touch

`ApplyFrame` relates the node before and after a computation of the apply pass: besides what
`PoolFrame` allows, accounts and staking may change and the record of events grows, but no
account disappears and a policy, once set, stays; only accounts in a given set are given
one. Every function of the apply pass respects it, whether it returns or fails.
-/
namespace QwidNode.Source
open Lib Ledger LedgerOp
variable {σ : Type} {env : Env σ}
variable {l l' : Ledger} {op : LedgerOp} {s t : Node σ}

/-- No account disappears, and each keeps its policy, unless it had none and is one of
those that may be given one. -/
def PoliciesKept (sets : AddressBytes → Prop) (l l' : Ledger) : Prop :=
  ∀ a acc, l.account? a = some acc → ∃ acc', l'.account? a = some acc' ∧
    (acc'.policy = acc.policy ∨ (sets a ∧ ¬ acc.restricted))

variable {sets : AddressBytes → Prop}

theorem PoliciesKept.refl (l : Ledger) : PoliciesKept sets l l :=
  fun _ acc found => ⟨acc, found, .inl rfl⟩

theorem PoliciesKept.trans {l l' l'' : Ledger} (first : PoliciesKept sets l l')
    (second : PoliciesKept sets l' l'') : PoliciesKept sets l l'' := by
  intro a acc found
  obtain ⟨acc', found', keeps⟩ := first a acc found
  obtain ⟨acc'', found'', keeps'⟩ := second a acc' found'
  refine ⟨acc'', found'', ?_⟩
  rcases keeps with same | fresh
  · rcases keeps' with same' | ⟨may, fresh'⟩
    · exact .inl (same'.trans same)
    · exact .inr ⟨may, fun before => fresh' ((Account.restricted_congr same).mpr before)⟩
  · exact .inr fresh

theorem PoliciesKept.of_restricted (kept : PoliciesKept sets l l') {a : AddressBytes}
    {acc : Account} (found : l.account? a = some acc) (before : acc.restricted) :
    ∃ acc', l'.account? a = some acc' ∧ acc'.policy = acc.policy := by
  obtain ⟨acc', found', keeps⟩ := kept a acc found
  rcases keeps with same | ⟨_, fresh⟩
  · exact ⟨acc', found', same⟩
  · exact absurd before fresh

theorem policiesKept_putAccount {a : AddressBytes} {new : Account}
    (keeps : ∀ acc, l.account? a = some acc → new.policy = acc.policy ∨ (sets a ∧ ¬ acc.restricted)) :
    PoliciesKept sets l (l.putAccount a new) := by
  intro b acc found
  rw [account?_putAccount]
  by_cases same : b = a
  · subst same
    exact ⟨new, if_pos rfl, keeps acc found⟩
  · exact ⟨acc, by rw [if_neg same, found], .inl rfl⟩

theorem policiesKept_accountOrNew (l : Ledger) (a : AddressBytes) (f : Account → Account)
    (outside : ∀ acc, (f acc).policy = acc.policy) :
    PoliciesKept sets l (l.putAccount a (f (l.accountOrNew a))) := by
  refine policiesKept_putAccount fun acc found => .inl ?_
  rw [accountOrNew, found]
  exact outside acc

theorem policiesKept_addTransactionsSender (l : Ledger) (a : AddressBytes) :
    PoliciesKept sets l (l.addTransactionsSender a) :=
  policiesKept_accountOrNew l a (fun acc => { acc with sentCount := acc.sentCount + 1 })
    fun _ => rfl

theorem policiesKept_addTransactionsRecipient (l : Ledger) (a : AddressBytes) :
    PoliciesKept sets l (l.addTransactionsRecipient a) :=
  policiesKept_accountOrNew l a (fun acc => { acc with receivedCount := acc.receivedCount + 1 })
    fun _ => rfl

theorem Account.setCommitments_policy (acc : Account) (spare c : AddressBytes) (height : Int64) :
    (acc.setCommitments spare c height).policy = acc.policy := by
  unfold Account.setCommitments Account.promoteMatured
  split
  · split <;> rfl
  · rfl

theorem policiesKept_sameAccounts (same : l'.accounts = l.accounts) : PoliciesKept sets l l' := by
  intro a acc found
  exact ⟨acc, by rwa [account?, same], .inl rfl⟩

/-- An operation may set the policies of the accounts in the set, and no other. -/
def LedgerOp.SetsWithin (sets : AddressBytes → Prop) : LedgerOp → Prop
  | .policy a => sets a
  | _ => True

theorem policiesKept_of_writes (within : op.SetsWithin sets) (writes : op.Writes l l') :
    PoliciesKept sets l l' := by
  cases op with
  | entry a =>
    obtain ⟨new, policy, -, rfl⟩ := writes
    refine policiesKept_putAccount fun acc found => .inl ?_
    rw [policy, accountOrNew_of_some found]
  | policy a =>
    obtain ⟨new, free, -, rfl⟩ := writes
    refine policiesKept_putAccount fun acc found => .inr ⟨within, ?_⟩
    rwa [accountOrNew_of_some found] at free
  | commit a spare c height =>
    simp only [Writes, setAccountCommitments] at writes
    split at writes
    · next acc found =>
      cases writes
      refine policiesKept_putAccount fun other found' => .inl ?_
      rw [found] at found'
      cases found'
      exact acc.setCommitments_policy spare c height
    · cases writes
  | consume a next =>
    simp only [Writes, consumeAccountRecoveryCommit] at writes
    split at writes
    · next acc found =>
      cases writes
      refine policiesKept_putAccount fun other found' => .inl ?_
      rw [found] at found'
      cases found'
      rfl
    · cases writes
  | bind key b =>
    refine policiesKept_sameAccounts ?_
    rw [show l' = l.addRecoveryBind key b from writes, addRecoveryBind]
    split <;> rfl
  | unbind key =>
    rw [show l' = l.deleteRecoveryBind key from writes]
    exact policiesKept_sameAccounts rfl
  | staking n a =>
    obtain ⟨_, _, -, rfl⟩ := writes
    exact policiesKept_sameAccounts rfl
  | randCommit n a value height =>
    simp only [Writes, setRandCommit] at writes
    split at writes
    · cases writes
      exact policiesKept_sameAccounts rfl
    · cases writes

structure ApplyFrame (sets : AddressBytes → Prop) (s t : Node σ) : Prop where
  evm : t.evm = s.evm
  dex : t.dex = s.dex
  height : t.height = s.height
  chain : t.db.chainPart = s.db.chainPart
  poolTx : PoolTxShrinks s t
  policies : PoliciesKept sets s.ledger t.ledger
  journal : JournalKept s t
  log : ∃ events, t.log = events ++ s.log

instance : IsPreorder (Node σ) (ApplyFrame sets) where
  refl s := ⟨rfl, rfl, rfl, rfl, fun _ _ found => found, .refl _, .refl s, [], rfl⟩
  trans _ _ _ first second := by
    obtain ⟨events, grown⟩ := first.log
    obtain ⟨events', grown'⟩ := second.log
    exact ⟨second.evm.trans first.evm, second.dex.trans first.dex,
      second.height.trans first.height, second.chain.trans first.chain,
      fun h tx found => first.poolTx h tx (second.poolTx h tx found),
      first.policies.trans second.policies, first.journal.trans second.journal,
      events' ++ events, by rw [grown', grown, List.append_assoc]⟩

theorem PoolFrame.toApply (frame : PoolFrame s t) : ApplyFrame sets s t where
  evm := frame.evm
  dex := frame.dex
  height := frame.height
  chain := frame.chain
  poolTx := frame.poolTx
  policies := by rw [frame.ledger]; exact .refl _
  journal := frame.journal
  log := ⟨[], by rw [frame.log]; rfl⟩

theorem applyFrame_ledger (s : Node σ) (kept : PoliciesKept sets s.ledger l) :
    ApplyFrame sets s { s with ledger := l } :=
  ⟨rfl, rfl, rfl, rfl, fun _ _ found => found, kept, .of_eq rfl rfl, [], rfl⟩

theorem applyFrame_event (s : Node σ) (e : Event) : ApplyFrame sets s { s with log := e :: s.log } :=
  ⟨rfl, rfl, rfl, rfl, fun _ _ found => found, .refl _, .of_eq rfl rfl, [e], rfl⟩

theorem applyFrame_ledgerMoves (sets : AddressBytes → Prop) :
    LedgerMoves (SetsWithin sets) (fun _ => True) (ApplyFrame (σ := σ) sets) where
  write within writes := applyFrame_ledger _ (policiesKept_of_writes within writes)
  record s {e} _ := applyFrame_event s e

theorem applyFrame_moves (env : Env σ) (sets : AddressBytes → Prop) :
    ApplyMoves env (SetsWithin sets) (fun _ => True) (ApplyFrame (σ := σ) sets) :=
  .of_poolFrame PoolFrame.toApply (applyFrame_ledgerMoves sets)

theorem LedgerOp.Of.setsWithin {tx : Transaction} {height : Int64}
    (does : Of env tx height op) (may : tx.appliesPolicy = true → sets tx.recipient) :
    op.SetsWithin sets := by
  cases does with
  | policy applies => exact may applies
  | _ => trivial

theorem LedgerOp.Settles.setsWithin {held : Transaction} {height : Int64}
    (does : LedgerOp.Settles held height op) : op.SetsWithin sets := by
  cases does with
  | _ => trivial

theorem applyFrame_setAccountByAddressBytes (a : AddressBytes) :
    Respects (ApplyFrame sets) (setAccountByAddressBytes a : NodeM σ Account) :=
  (applyFrame_ledgerMoves sets).setAccountByAddressBytes (fun _ => trivial) a

theorem applyFrame_processTransaction (tx : Transaction) (height blockTime : Int64)
    (may : tx.appliesPolicy = true → sets tx.recipient) :
    Respects (ApplyFrame sets) (processTransaction env tx height blockTime) :=
  (applyFrame_moves env sets).processTransaction (fun _ does => does.setsWithin may)
    fun _ _ => trivial

theorem applyFrame_processTransactionsMultiSign (tx : Transaction) (height : Int64) :
    Respects (ApplyFrame sets) (processTransactionsMultiSign env tx height) :=
  (applyFrame_moves env sets).processTransactionsMultiSign (fun _ _ does => does.setsWithin)
    fun _ _ => trivial

theorem applyFrame_settleEscrow (height : Int64) (tx : Transaction) :
    Respects (ApplyFrame sets) (settleEscrow env height tx) :=
  (applyFrame_moves env sets).settleEscrow (fun _ does => does.setsWithin) fun _ _ => trivial

theorem applyFrame_processTransactionsEscrow (height : Int64) :
    Respects (ApplyFrame sets) (processTransactionsEscrow env height) :=
  (applyFrame_moves env sets).processTransactionsEscrow (fun _ _ does => does.setsWithin)
    fun _ _ => trivial

theorem applyFrame_processBlockTx (block : Block) (hash : Hash) :
    Respects (ApplyFrame fun _ => True) (processBlockTx env block hash) :=
  (applyFrame_moves env _).processBlockTx (fun _ _ does => does.setsWithin fun _ => trivial)
    (fun _ _ does => does.setsWithin) (fun _ => trivial) hash

theorem applyFrame_rewardBlock (block : Block) (reward : Int64) :
    Respects (ApplyFrame sets) (rewardBlock env block reward) :=
  (applyFrame_moves env sets).rewardBlock fun _ _ _ => trivial

theorem applyFrame_applyRandaoCommit (block : Block) :
    Respects (ApplyFrame sets) (applyRandaoCommit block : NodeM σ Unit) :=
  (applyFrame_ledgerMoves sets).applyRandaoCommit fun _ _ _ => trivial

theorem respects_processBlockTransfers {R : Node σ → Node σ → Prop} [IsPreorder (Node σ) R]
    (framed : ∀ s t, ApplyFrame (fun _ => True) s t → R s t)
    (begun : ∀ s height, R s (s.beginPendingPoolJournal height))
    (ended : ∀ s, R s s.endPendingPoolJournal) (block : Block) (reward : Int64) :
    Respects R (processBlockTransfers env block reward) := by
  refine .bind (.modify fun u => begun u block.height) fun _ => ?_
  refine Respects.withDefer ?_ fun _ t before => trans_of R before (ended t)
  exact .bind (.forM _ fun hash _ => (applyFrame_processBlockTx block hash).mono framed) fun _ =>
    .bind ((applyFrame_rewardBlock block reward).mono framed) fun _ =>
    .bind ((applyFrame_applyRandaoCommit block).mono framed) fun _ =>
    .logError ((applyFrame_processTransactionsEscrow _).mono framed)

/-- The part of the database that only block storage, snapshots and rewinds write. -/
def Db.storedPart (db : Db σ) : Db σ :=
  { db.chainPart with confirmedTx := ∅, includedTx := ∅ }

structure StorageKept (s t : Node σ) : Prop where
  stored : t.db.storedPart = s.db.storedPart
  height : t.height = s.height

instance : IsPreorder (Node σ) StorageKept where
  refl _ := ⟨rfl, rfl⟩
  trans _ _ _ first second :=
    ⟨second.stored.trans first.stored, second.height.trans first.height⟩

theorem StorageKept.of_chain (chain : t.db.chainPart = s.db.chainPart)
    (height : t.height = s.height) : StorageKept s t where
  stored := congrArg (fun db : Db σ => { db with confirmedTx := ∅, includedTx := ∅ }) chain
  height := height

theorem PoolFrame.toStorage (frame : PoolFrame s t) : StorageKept s t :=
  .of_chain frame.chain frame.height

theorem storageKept_processBlockTransfers (block : Block) (reward : Int64) :
    Respects StorageKept (processBlockTransfers env block reward) := by
  refine respects_processBlockTransfers (fun _ _ frame => .of_chain frame.chain frame.height)
    (fun u height => ?_) (fun _ => ⟨rfl, rfl⟩) block reward
  have frame := u.poolFrame_undoJournalKeys (· == height)
  exact .of_chain frame.chain frame.height

end QwidNode.Source
