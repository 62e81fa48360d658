import QwidNode.Source.Turns

/-!
# One route for the amount of a contract call

A transaction with data, a positive amount and an ordinary recipient is either handed to
`EvaluateSC`, which moves the amount as message value, or moved, staked or held by
`ProcessTransaction`. The two passes decide this from different states and in a different
order of tests; here is when exactly their decisions complement each other.
-/
namespace QwidNode.Guarantees
open Source Lib Transaction Account List
variable {σ : Type} {env : Env σ} {block newBlock lastBlock : Block} {s t : Node σ}
  {tx : Transaction} {height blockTime : Int64} {hash : Hash}
variable {l : Ledger} {a : AddressBytes} {acc : Account} {e : Event} {events : List Event}

/-- The native path moves, stakes or holds the amount of the transaction of a hash. -/
def NativeMove (hash : Hash) : Event → Prop
  | .moved m => m.hash = hash ∧ (m.route = .inclusion ∨ m.route = .staking)
  | .held _ tx _ => tx.hash = hash
  | _ => False

def NativeIn (events : List Event) (hash : Hash) : Prop := ∃ e ∈ events, NativeMove hash e

/-- The account exists and is an escrow or a multi-signature account. -/
def Restricted (l : Ledger) (a : AddressBytes) : Prop := ∃ acc ∈ l.account? a, acc.restricted

/-- The pending pool of the sender's policy takes the transaction in. -/
def PendingPoolTakes (s : Node σ) (tx : Transaction) (height : Int64) : Prop :=
  ∃ acc ∈ s.ledger.account? tx.sender,
    if 0 < acc.transactionDelay then (s.addEscrowTransaction { tx with height }).2 = true
    else (s.addMultiSignTransaction { tx with height }).2 = true

def GivesPolicy (txs : List Transaction) (a : AddressBytes) : Prop :=
  ∃ tx ∈ txs, tx.appliesPolicy = true ∧ tx.recipient = a

/-- When the two passes agree on a transaction: `l` is the ledger before the block,
`earlier` what the block has before the transaction, and `u` the state when its turn
comes in the native pass. -/
def RoutesAgree (l : Ledger) (earlier : List Transaction) (u : Node σ) (tx : Transaction)
    (height : Int64) : Prop :=
  (0 < tx.txData.lockedAmount → Restricted l tx.sender) ∧
  (¬ 0 < tx.txData.lockedAmount → Restricted l tx.sender → PendingPoolTakes u tx height) ∧
  (¬ 0 < tx.txData.lockedAmount → ¬ Restricted l tx.sender → GivesPolicy earlier tx.sender →
    ¬ PendingPoolTakes u tx height)

structure ValueCall (tx : Transaction) : Prop where
  data : tx.txData.optData ≠ []
  positive : 0 < tx.amount
  ordinary : intDelegatedAccountFromAddress tx.txData.recipient = none

structure CallShape (tx : Transaction) : Prop extends ValueCall tx where
  notRecovery : tx.isRecovery = false
  notRecoveryAddress : isRecoveryAddress tx.txData.recipient = false
  notRegistration : tx.isCommitmentRegistration = false
  notCancellation : tx.cancellationTarget = none
  notApproval : tx.txParam.multiSignTx = zerosHash
  locks : 0 < tx.txData.lockedAmount → ∃ n < 256, tx.routingAccount = some (some n)
  transfers : ¬ 0 < tx.txData.lockedAmount → tx.routingAccount = some none

theorem noPolicyFields_false (positive : 0 < tx.amount) : tx.noPolicyFields = false := by
  simp [noPolicyFields, (Int64.ne_of_lt positive).symm]

theorem callShape_of_checked {checked : Node σ}
    (known : CheckedTx env block lastBlock checked hash tx) (call : ValueCall tx) :
    CallShape tx := by
  obtain ⟨fee, c, c', passes⟩ := known.passes
  have fields := noPolicyFields_false call.positive
  have notBind : tx.isRecoveryBind = false := by
    by_contra bind
    have shaped := (known.verified.bind (by simpa using bind)).1
    rw [fields] at shaped
    cases shaped
  have notReveal : tx.isRecoveryReveal = false := by
    by_contra reveal
    have valid := known.verified.authority
    rw [if_pos (by simpa using reveal)] at valid
    simp [verifyRecoveryReveal, fields] at valid
  have notRegistration : tx.isCommitmentRegistration = false := by
    simp [isCommitmentRegistration, fields]
  have notCancellation : tx.cancellationTarget = none := by
    by_contra cancels
    have valid := passes.cancellation
    obtain ⟨target, found⟩ := Option.ne_none_iff_exists'.mp cancels
    have nonzero := Int64.ne_of_lt call.positive
    simp [cancellationError, found, validateEscrowCancellation, nonzero.symm] at valid
  refine
    { toValueCall := call
      notRecovery := by simp [isRecovery, notBind, notReveal, notRegistration]
      notRecoveryAddress := by
        simpa [isRecoveryAddress, isRecoveryBind, isRecoveryReveal]
          using And.intro notBind notReveal
      notRegistration := notRegistration
      notCancellation := notCancellation
      notApproval := ?_
      locks := fun locked => ?_
      transfers := fun unlocked => ?_ }
  · by_contra approval
    exact passes.shaped ⟨approval, .inr (.inl call.data)⟩
  · obtain ⟨account, routed, _⟩ := passes.routed
    unfold routingAccount at routed ⊢
    rw [if_pos locked] at routed ⊢
    cases delegated : intDelegatedAccountFromAddress tx.txData.delegatedAccountForLocking with
    | none => simp [delegated] at routed
    | some n =>
      simp only [delegated] at routed
      split at routed
      · cases routed
      · next inside =>
        exact ⟨n, by omega, if_neg inside⟩
  · unfold routingAccount
    rw [if_neg unlocked, call.ordinary]

theorem restricted_of_policiesSame {l l' : Ledger} (kept : PoliciesSame l l')
    (found : l.account? a = some acc) : Restricted l' a ↔ Restricted l a := by
  obtain ⟨acc', found', same⟩ := kept.same found
  simp only [Restricted, found, found', Option.mem_def, Option.some.injEq, exists_eq_left']
  exact restricted_congr same

theorem pendingPoolTakes_congr {u : Node σ} {acc acc' : Account}
    (found : s.ledger.account? tx.sender = some acc)
    (found' : u.ledger.account? tx.sender = some acc') (same : acc'.policy = acc.policy)
    (escrow : u.poolTxEscrow = s.poolTxEscrow) (multiSign : u.poolTxMultiSign = s.poolTxMultiSign) :
    PendingPoolTakes u tx height ↔ PendingPoolTakes s tx height := by
  simp only [Account.policy, Prod.mk.injEq] at same
  simp [PendingPoolTakes, found, found', same.1, (Node.addEscrowTransaction_pools _ _).2.2,
    (Node.addMultiSignTransaction_pools _ _).2.2, escrow, multiSign]

theorem isContractCallTx_eq (shape : CallShape tx) (acc : Account) :
    isContractCallTx tx acc = !decide acc.restricted := by
  have data : tx.txData.optData.isEmpty = false := by
    simpa [isEmpty_eq_false_iff] using shape.data
  simp only [isContractCallTx, shape.notCancellation, data, shape.notRecoveryAddress,
    shape.notRegistration, shape.ordinary, Account.restricted]
  by_cases delay : 0 < acc.transactionDelay <;> by_cases number : 0 < acc.multiSignNumber <;>
    simp [delay, number]

theorem reachesEvm_eq (shape : CallShape tx) (acc : Account) :
    reachesEvm tx acc = !decide acc.restricted := by
  have data : tx.txData.optData.isEmpty = false := by
    simpa [isEmpty_eq_false_iff] using shape.data
  simp [reachesEvm, shape.notCancellation, data, shape.notRecoveryAddress,
    shape.notRegistration, shape.ordinary]

theorem holdOrMove_native (shape : CallShape tx) (found : s.ledger.account? tx.sender = some acc)
    (run : holdOrMove tx acc height s = .ok () t) :
    (Restricted s.ledger tx.sender ∧ PendingPoolTakes s tx height ∧
        ∃ pool, t.log = .held pool tx height :: s.log) ∨
      (¬ (Restricted s.ledger tx.sender ∧ PendingPoolTakes s tx height) ∧ t.log = s.log) := by
  unfold holdOrMove at run
  have restricted : Restricted s.ledger tx.sender ↔ acc.restricted := by
    simp [Restricted, found]
  by_cases delay : 0 < acc.transactionDelay
  · rw [if_pos ⟨delay, shape.notApproval⟩] at run
    have takes : PendingPoolTakes s tx height ↔
        (s.addEscrowTransaction { tx with height }).2 = true := by
      simp [PendingPoolTakes, found, delay]
    obtain ⟨-, -, ⟨taken, -, log⟩ | ⟨refused, -, log⟩⟩ := holdInEscrow_ok run
    · exact .inl ⟨restricted.mpr (.inl delay), takes.mpr taken, .escrow, log⟩
    · exact .inr ⟨fun both => absurd (refused.symm.trans (takes.mp both.2)) (by decide), log⟩
  · rw [if_neg fun both => delay both.1] at run
    by_cases number : 0 < acc.multiSignNumber
    · rw [if_pos ⟨number, shape.notApproval⟩] at run
      have takes : PendingPoolTakes s tx height ↔
          (s.addMultiSignTransaction { tx with height }).2 = true := by
        simp [PendingPoolTakes, found, delay]
      obtain ⟨-, -, ⟨taken, -, log⟩ | ⟨refused, -, log⟩⟩ := holdForApprovals_ok run
      · exact .inl ⟨restricted.mpr (.inr number), takes.mpr taken, .multiSign, log⟩
      · exact .inr ⟨fun both => absurd (refused.symm.trans (takes.mp both.2)) (by decide), log⟩
    · rw [if_neg fun both => number both.1] at run
      have open' : ¬ acc.restricted := not_restricted delay number
      simp only [shape.notApproval, ne_eq, not_true_eq_false, if_false] at run
      unfold moveAmount at run
      simp only [isContractCallTx_eq shape, open', decide_false, Bool.not_false, if_true] at run
      cases run
      exact .inr ⟨fun both => open' (restricted.mp both.1), rfl⟩

theorem nativeIn_cons : NativeIn (e :: events) hash ↔ NativeMove hash e ∨ NativeIn events hash := by
  simp [NativeIn]

theorem not_nativeIn_nil : ¬ NativeIn [] hash := by simp [NativeIn]

theorem processStandard_native {fee : Int64} (shape : CallShape tx)
    (run : processStandard tx height fee s = .ok () t) :
    ∃ events, t.log = events ++ s.log ∧ (NativeIn events tx.hash ↔
      Restricted s.ledger tx.sender ∧ PendingPoolTakes s tx height) := by
  obtain ⟨acc, v, w, found, held, paid, finishing⟩ := processStandard_steps run
  have quiet : t.log = w.log := ((quiet_processMultiSignAndEscrow _).of_ok finishing).log
  obtain ⟨-, rfl⟩ := addBalance_eq_ok.mp paid
  rcases holdOrMove_native shape found held with ⟨restricted, takes, pool, log⟩ | ⟨not, log⟩
  · refine ⟨[_, .held pool tx height], quiet.trans (congrArg _ log), ?_⟩
    simp [nativeIn_cons, NativeMove, restricted, takes]
  · refine ⟨[_], quiet.trans (congrArg _ log), ?_⟩
    simp [nativeIn_cons, not_nativeIn_nil, NativeMove, not]

theorem processTransaction_native (shape : CallShape tx)
    (known : s.ledger.account? tx.sender = some acc)
    (run : processTransaction env tx height blockTime s = .ok () t) :
    ∃ events, t.log = events ++ s.log ∧
      (NativeIn events tx.hash ↔ 0 < tx.txData.lockedAmount ∨
        (Restricted s.ledger tx.sender ∧ PendingPoolTakes s tx height)) := by
  unfold processTransaction at run
  cases charged : tx.calcFee with
  | none =>
    simp only [charged] at run
    cases run
  | some fee =>
    simp only [charged, shape.notRecovery, shape.notCancellation] at run
    obtain ⟨_, u, counted, routed⟩ := bind_eq_ok.mp run
    cases counted
    by_cases locked : 0 < tx.txData.lockedAmount
    · obtain ⟨n, low, account⟩ := shape.locks locked
      simp only [account, processDelegated, if_pos low] at routed
      obtain ⟨_, v, staked, paying⟩ := bind_eq_ok.mp routed
      obtain ⟨_, w, paid, finishing⟩ := bind_eq_ok.mp paying
      have quiet : v.log = s.log := ((quiet_stakeOrUnstake _ low _ _).of_ok staked).log
      have quiet' : t.log = w.log := ((quiet_processMultiSignAndEscrow _).of_ok finishing).log
      obtain ⟨-, rfl⟩ := addBalance_eq_ok.mp paid
      refine ⟨[_], quiet'.trans (congrArg _ quiet), ?_⟩
      simp [nativeIn_cons, NativeMove, locked]
    · simp only [shape.transfers locked] at routed
      obtain ⟨events, grown, native⟩ := processStandard_native shape routed
      have kept : PoliciesSame s.ledger
          ((s.ledger.addTransactionsSender tx.sender).addTransactionsRecipient tx.recipient) :=
        (policiesKept_addTransactionsSender _ _).trans (policiesKept_addTransactionsRecipient _ _)
      obtain ⟨acc', known', same⟩ := kept.same known
      have takes : PendingPoolTakes { s with ledger :=
          (s.ledger.addTransactionsSender tx.sender).addTransactionsRecipient tx.recipient } tx
            height ↔ PendingPoolTakes s tx height :=
        pendingPoolTakes_congr known known' same rfl rfl
      refine ⟨events, grown, native.trans ?_⟩
      refine (and_congr (restricted_of_policiesSame kept known) takes).trans ?_
      simp [locked]

theorem restricted_putAccount (restricted : acc.restricted) : Restricted (l.putAccount a acc) a :=
  ⟨acc, by rw [Ledger.account?_putAccount, if_pos rfl]; rfl, restricted⟩

theorem processMultiSignAndEscrow_restricts (carried : tx.setsPolicy = true)
    (run : processMultiSignAndEscrow tx s = .ok () t) : Restricted t.ledger tx.recipient := by
  unfold processMultiSignAndEscrow at run
  simp only [failIf_bind_eq_ok] at run
  obtain ⟨-, -, run⟩ := run
  obtain ⟨acc, u, created, setting⟩ := bind_eq_ok.mp run
  obtain ⟨address, -⟩ := setAccountByAddressBytes_ok created
  rw [address] at setting
  by_cases delay : 0 < tx.txData.escrowTransactionsDelay
  · rw [if_pos delay] at setting
    obtain ⟨l, written, rfl⟩ := liftLedger_eq_ok.mp setting
    obtain ⟨new, modified, rfl⟩ := except_map_eq_ok.mp written
    exact restricted_putAccount (.inl ((modifyAccountToEscrow_ok modified).2.2.2 ▸ delay))
  · rw [if_neg delay] at setting
    have number : 0 < tx.txData.multiSignNumber := by
      simpa [setsPolicy, delay] using carried
    rw [if_pos number] at setting
    obtain ⟨l, written, rfl⟩ := liftLedger_eq_ok.mp setting
    obtain ⟨new, modified, rfl⟩ := except_map_eq_ok.mp written
    exact restricted_putAccount (.inr ((modifyAccountToMultiSign_ok modified).2.2.2 ▸ number))

theorem processTransaction_restricts (applies : tx.appliesPolicy = true)
    (run : processTransaction env tx height blockTime s = .ok () t) :
    Restricted t.ledger tx.recipient := by
  simp only [appliesPolicy, Bool.and_eq_true, Bool.not_eq_true',
    Option.isNone_iff_eq_none] at applies
  obtain ⟨⟨⟨carried, ordinary⟩, noTarget⟩, routed⟩ := applies
  obtain ⟨fee, -, course⟩ := processTransaction_course run
  cases course with
  | delegated n _ _ account run =>
    simp only [account, decide_eq_true_eq] at routed
    rw [processDelegated, if_pos routed] at run
    obtain ⟨_, v, _, paying⟩ := bind_eq_ok.mp run
    obtain ⟨_, w, _, finishing⟩ := bind_eq_ok.mp paying
    exact processMultiSignAndEscrow_restricts carried finishing
  | standard _ _ _ run =>
    obtain ⟨acc, v, w, -, -, -, finishing⟩ := processStandard_steps run
    exact processMultiSignAndEscrow_restricts carried finishing
  | _ => simp_all

theorem restricted_of_kept {sets : AddressBytes → Prop} {l l' : Ledger}
    (kept : PoliciesKept sets l l') (before : Restricted l a) : Restricted l' a := by
  obtain ⟨acc, found, restricted⟩ := before
  obtain ⟨acc', found', same⟩ := kept.of_restricted found restricted
  exact ⟨acc', found', (restricted_congr same).mpr restricted⟩

theorem turn_restricts {processed : Node σ} (turn : TurnVia env block hash s t tx processed)
    (known : s.ledger.account? a = some acc) :
    (∃ acc', t.ledger.account? a = some acc') ∧
      (Restricted t.ledger a ↔
        Restricted s.ledger a ∨ (tx.appliesPolicy = true ∧ tx.recipient = a)) := by
  have process : ApplyFrame (fun b => tx.appliesPolicy = true ∧ tx.recipient = b)
      { s with log := .included tx block.height :: s.log } processed :=
    (applyFrame_processTransaction tx _ _ fun applies => ⟨applies, rfl⟩).of_ok turn.process
  have settle : ApplyFrame (fun _ => False) processed t :=
    (applyFrame_processTransactionsMultiSign tx _).of_ok turn.settle
  obtain ⟨acc', known', outcome⟩ := process.policies a acc known
  obtain ⟨acc'', known'', same⟩ := settle.policies.same known'
  refine ⟨⟨acc'', known''⟩, ?_, ?_⟩
  · rintro ⟨found, member, restricted⟩
    rw [known''] at member
    cases member
    rcases outcome with unchanged | ⟨applies, _⟩
    · exact .inl ⟨acc, known, (restricted_congr (same.trans unchanged)).mp restricted⟩
    · exact .inr applies
  · rintro (before | ⟨applies, rfl⟩)
    · exact restricted_of_kept settle.policies (restricted_of_kept process.policies before)
    · exact restricted_of_kept settle.policies (processTransaction_restricts applies turn.process)

theorem processes_restricts {earlier : List Transaction} (run : Processes env block s earlier t)
    (known : s.ledger.account? a = some acc) :
    (∃ acc', t.ledger.account? a = some acc') ∧
      (Restricted t.ledger a ↔ Restricted s.ledger a ∨ GivesPolicy earlier a) := by
  induction run generalizing acc with
  | nil s => exact ⟨⟨acc, known⟩, by simp [GivesPolicy]⟩
  | cons turn _ ih =>
    obtain ⟨⟨acc', known'⟩, one⟩ := turn_restricts turn known
    obtain ⟨exists', others⟩ := ih known'
    refine ⟨exists', ?_⟩
    rw [others, one, or_assoc]
    simp [GivesPolicy]

/-- An event that is neither a native move for the hash nor an evaluation. -/
def Unrelated (hash : Hash) (e : Event) : Prop :=
  ¬ NativeMove hash e ∧ ∀ tx height, e ≠ .evaluated tx height

theorem unrelated_inclusionOf (other : tx.hash ≠ hash) (own : InclusionOf tx height e) :
    Unrelated hash e := by
  cases e with
  | moved m =>
    obtain ⟨filed, -, -⟩ := own
    exact ⟨fun native => other (filed.symm.trans native.1), fun _ _ => by simp⟩
  | held pool tx' h =>
    obtain ⟨rfl, -⟩ := own
    exact ⟨other, fun _ _ => by simp⟩
  | cancelled _ _ _ | settled _ _ _ => exact ⟨id, fun _ _ => by simp⟩
  | _ => exact own.elim

theorem unrelated_settlement {pool : PoolType} {route : Route}
    (late : route = .multiSign ∨ route = .escrow) (own : SettlementAt pool route height e) :
    Unrelated hash e := by
  cases e with
  | moved m =>
    obtain ⟨rfl, -⟩ := own
    refine ⟨fun native => ?_, fun _ _ => by simp⟩
    rcases late with late | late <;> rcases native.2 with early | early <;>
      exact absurd (late.symm.trans early) (by decide)
  | settled _ _ _ => exact ⟨id, fun _ _ => by simp⟩
  | _ => exact own.elim

theorem turn_unrelated {processed : Node σ} (other : tx.hash ≠ hash)
    (turn : TurnVia env block tx.hash s t tx processed) : LogGrows (Unrelated hash) s t := by
  have included : LogGrows (Unrelated hash) s
      { s with log := .included tx block.height :: s.log } :=
    ⟨[_], rfl, by simp [Unrelated, NativeMove]⟩
  have process : LogGrows (Unrelated hash) _ processed :=
    (logGrows_processTransaction.of_ok turn.process).mono fun _ => unrelated_inclusionOf other
  have settle : LogGrows (Unrelated hash) processed t :=
    ((logGrows_processTransactionsMultiSign tx).of_ok turn.settle).mono
      fun _ => unrelated_settlement (.inl rfl)
  exact trans_of (LogGrows (Unrelated hash)) included
    (trans_of (LogGrows (Unrelated hash)) process settle)

theorem processes_unrelated {txs : List Transaction} (others : ∀ tx ∈ txs, tx.hash ≠ hash)
    (run : Processes env block s txs t) : LogGrows (Unrelated hash) s t := by
  induction run with
  | nil s => exact refl_of (LogGrows (Unrelated hash)) s
  | cons turn _ ih =>
    exact trans_of (LogGrows (Unrelated hash)) (turn_unrelated (others _ (by simp)) turn)
      (ih fun tx member => others tx (by simp [member]))

theorem evmPass_not_native (own : EvmPassEvent height e) : ¬ NativeMove hash e := by
  obtain ⟨tx, own | ⟨m, rfl, dex⟩⟩ := own
  · cases e with
    | evaluated _ _ => exact id
    | entryValue _ _ => exact id
    | _ => exact own.elim
  · intro native
    rcases native.2 with early | early <;> exact absurd (dex.symm.trans early) (by decide)

theorem nativeIn_append {later earlier : List Event} :
    NativeIn (later ++ earlier) hash ↔ NativeIn later hash ∨ NativeIn earlier hash := by
  simp only [NativeIn, mem_append, or_and_right, exists_or]

theorem not_nativeIn_of_unrelated (all : ∀ e ∈ events, Unrelated hash e) :
    ¬ NativeIn events hash := by
  rintro ⟨e, member, native⟩
  exact (all e member).1 native

theorem not_handedIn_of_unrelated (all : ∀ e ∈ events, Unrelated hash e) :
    ¬ HandedIn events hash := by
  rintro ⟨tx, height, member, -⟩
  exact (all _ member).2 tx height rfl

/-- Applying the accepted block comes to `tx` in the state `u`, after the transactions
`earlier` of the block. -/
def AtTurn (env : Env σ) (newBlock lastBlock : Block) (s : Node σ) (block : Block) (t : Node σ)
    (earlier : List Transaction) (tx : Transaction) (u : Node σ) : Prop :=
  ∃ reward totalFee checked evaluated applied later,
    AcceptedVia env newBlock lastBlock s block t reward totalFee checked evaluated applied ∧
    Processes env block (evaluated.beginPendingPoolJournal block.height) earlier u ∧
    block.transactionsHashes = earlier.map (·.hash) ++ tx.hash :: later

/-- The record of an accepted block around the turn of one of its transactions. -/
structure Around (env : Env σ) (newBlock lastBlock block : Block) (s : Node σ) (tx : Transaction)
    (events : List Event) (checked evaluated u processed : Node σ) (known : Transaction) : Prop where
  ledger : checked.ledger = s.ledger
  check : CheckedTx env newBlock lastBlock checked tx.hash known
  frame : EvmFrame env checked evaluated
  loaded : evaluated.db.loadTx? env .pool tx.hash = some tx
  process : processTransaction env tx block.height block.blockTimeStamp
    { u with log := .included tx block.height :: u.log } = .ok () processed
  record : ∃ after own before evm, events = after ++ (own ++ (before ++ evm)) ∧
    processed.log = own ++ .included tx block.height :: u.log ∧
    (∀ e ∈ after, Unrelated tx.hash e) ∧ (∀ e ∈ before, Unrelated tx.hash e) ∧
    (∀ e ∈ evm, EvmPassEvent block.height e) ∧
    (HandedIn evm tx.hash ↔ Handed env checked tx.hash)

theorem accepted_around
    (accepted : checkBlockAndTransferFunds env newBlock lastBlock s = .ok block t)
    (distinct : newBlock.transactionsHashes.Nodup) (recorded : t.log = events ++ s.log)
    (included : .included tx block.height ∈ events) :
    ∃ earlier u checked evaluated processed known,
      AtTurn env newBlock lastBlock s block t earlier tx u ∧
      Processes env block (evaluated.beginPendingPoolJournal block.height) earlier u ∧
      Around env newBlock lastBlock block s tx events checked evaluated u processed known := by
  obtain ⟨reward, totalFee, checked, evaluated, applied, via⟩ :=
    checkBlockAndTransferFunds_ok accepted
  obtain ⟨loadFrame, allChecked⟩ := checkBlockTransfers_checked via.check
  have hashes : block.transactionsHashes = newBlock.transactionsHashes := by rw [via.filled]
  obtain ⟨frame, evm, evmLog, evmAll, handed⟩ :=
    evaluateHashes_handed (hashes ▸ ready_of_checked allChecked) via.evaluation
  obtain ⟨begun, done, rewarded, committed, applying⟩ := processBlockTransfers_ok via.application
  obtain ⟨txs, txHashes, run⟩ := processes_of_forM applying.transactions
  have begunFrame := evaluated.poolFrame_undoJournalKeys (· == block.height)
  have begunLog : begun.log = evaluated.log := by
    rw [applying.start]
    exact begunFrame.log
  have begunPool : PoolTxShrinks evaluated begun := by
    rw [applying.start]
    exact begunFrame.poolTx
  have checkedLog : checked.log = s.log := by
    obtain ⟨_, _, rfl⟩ := loadFrame
    rfl
  obtain ⟨tail, tailLog, tailAll⟩ := via.tail applying
  -- the inclusion was recorded in the loop over the transactions
  have member : tx ∈ txs := by
    obtain ⟨loop, loopLog, loopAll⟩ := run.included
    have whole : events ++ s.log = (tail ++ (loop ++ evm)) ++ s.log := by
      rw [← recorded, tailLog, loopLog, begunLog, evmLog, checkedLog]
      simp
    rw [append_cancel_right whole] at included
    rcases List.mem_append.mp included with inTail | included
    · exact (tailAll _ inTail).elim
    rcases List.mem_append.mp included with inLoop | inEvm
    · exact loopAll _ inLoop tx _ rfl
    · obtain ⟨_, impossible | ⟨_, impossible, _⟩⟩ := evmAll _ inEvm
      · exact impossible.elim
      · cases impossible
  obtain ⟨earlier, later, rfl⟩ := append_of_mem member
  obtain ⟨u, before, rest⟩ := run.append
  cases rest with
  | @cons _ v _ processed _ _ turn others =>
  rw [← hashes, ← txHashes, map_append, List.map_cons] at distinct
  have split := List.nodup_append.mp distinct
  have notEarlier : ∀ tx' ∈ earlier, tx'.hash ≠ tx.hash := fun tx' inside =>
    split.2.2 _ (List.mem_map.mpr ⟨tx', inside, rfl⟩) _ List.mem_cons_self
  have notLater : ∀ tx' ∈ later, tx'.hash ≠ tx.hash := fun tx' inside same =>
    (List.nodup_cons.mp split.2.1).1 (List.mem_map.mpr ⟨tx', inside, same⟩)
  obtain ⟨pre, preLog, preAll⟩ := processes_unrelated notEarlier before
  obtain ⟨post, postLog, postAll⟩ := processes_unrelated notLater others
  obtain ⟨own, ownLog, -⟩ := logGrows_processTransaction.of_ok turn.process
  obtain ⟨settled, settledLog, settledAll⟩ :=
    (logGrows_processTransactionsMultiSign tx).of_ok turn.settle
  have inBlock : tx.hash ∈ block.transactionsHashes := by rw [← txHashes]; simp
  obtain ⟨known, check⟩ := allChecked tx.hash (hashes ▸ inBlock)
  refine ⟨earlier, u, checked, evaluated, processed, known,
    ⟨reward, totalFee, checked, evaluated, applied, later.map (·.hash), via,
      applying.start ▸ before, by rw [← txHashes]; simp⟩, applying.start ▸ before,
    { ledger := loadFrame.ledger
      check := check
      frame := frame
      loaded := ?_
      process := turn.process
      record := ⟨tail ++ (post ++ settled), own, .included tx block.height :: pre, evm, ?_,
        ownLog, ?_, ?_, evmAll, ?_⟩ }⟩
  · exact begunPool.loadTx? (before.applyFrame.poolTx.loadTx? turn.loaded)
  · have whole : events ++ s.log = (tail ++ (post ++ settled) ++
        (own ++ (.included tx block.height :: pre ++ evm))) ++ s.log := by
      rw [← recorded, tailLog, postLog, settledLog, ownLog, preLog, begunLog, evmLog,
        checkedLog]
      simp
    exact append_cancel_right whole
  · intro e inside
    rcases List.mem_append.mp inside with inTail | inside
    · exact unrelated_settlement (.inr rfl) (tailAll e inTail)
    rcases List.mem_append.mp inside with inPost | inSettled
    · exact postAll e inPost
    · exact unrelated_settlement (.inl rfl) (settledAll e inSettled)
  · intro e inside
    rcases List.mem_cons.mp inside with rfl | inPre
    · simp [Unrelated, NativeMove]
    · exact preAll e inPre
  · rw [handed]
    exact and_iff_right inBlock

theorem callShape_of_body {tx' : Transaction} (same : tx'.body = tx.body) (shape : CallShape tx) :
    CallShape tx' := by
  rw [eq_of_body same]
  exact ⟨⟨shape.data, shape.positive, shape.ordinary⟩, shape.notRecovery,
    shape.notRecoveryAddress, shape.notRegistration, shape.notCancellation, shape.notApproval,
    shape.locks, shape.transfers⟩

theorem routes_complement_iff {locks start later takes : Prop} :
    ((locks ∨ ((start ∨ later) ∧ takes)) ↔ ¬ ¬ start) ↔
      (locks → start) ∧ (¬ locks → start → takes) ∧ (¬ locks → ¬ start → later → ¬ takes) := by
  tauto

/-- In an accepted block the amount of a value call is moved by exactly one of the two
passes if and only if their two decisions agree. -/
theorem amount_routed_once_iff (env : Env σ) (newBlock lastBlock block : Block) (s t : Node σ)
    (events : List Event) (tx : Transaction)
    (base : checkBaseBlock env newBlock lastBlock = .ok ())
    (accepted : checkBlockAndTransferFunds env newBlock lastBlock s = .ok block t)
    (recorded : t.log = events ++ s.log) (included : .included tx block.height ∈ events)
    (call : ValueCall tx) :
    ∃ earlier u, AtTurn env newBlock lastBlock s block t earlier tx u ∧
      ((NativeIn events tx.hash ↔ ¬ HandedIn events tx.hash) ↔
        RoutesAgree s.ledger earlier u tx block.height) := by
  have distinct : newBlock.transactionsHashes.Nodup := by
    simp only [checkBaseBlock, ite_error_eq_ok, not_not] at base
    exact base.2.2.2.1
  obtain ⟨earlier, u, checked, evaluated, processed, known, turn, before, around⟩ :=
    accepted_around accepted distinct recorded included
  refine ⟨earlier, u, turn, ?_⟩
  -- the transaction that was checked differs from the one applied only in its outputs
  obtain ⟨acc, found, -⟩ := around.check.ready
  obtain ⟨tx', acc', loaded', same, found', policy⟩ := around.frame.ready around.check.loaded found
  rw [around.loaded] at loaded'
  cases loaded'
  have sender : tx.sender = known.sender := by rw [eq_of_body same]
  have callKnown : ValueCall known := by
    rw [eq_of_body same] at call
    exact ⟨call.data, call.positive, call.ordinary⟩
  have shapeKnown := callShape_of_checked around.check callKnown
  have shape : CallShape tx := callShape_of_body same shapeKnown
  rw [← sender] at found
  -- who is restricted, before the block and at the turn
  have restrictedStart : Restricted s.ledger tx.sender ↔ acc.restricted := by
    rw [← around.ledger]
    simp [Restricted, found]
  have restrictedEvaluated : Restricted evaluated.ledger tx.sender ↔ Restricted s.ledger tx.sender := by
    rw [← around.ledger]
    exact restricted_of_policiesSame around.frame.policies found
  have begunLedger : (evaluated.beginPendingPoolJournal block.height).ledger = evaluated.ledger :=
    (evaluated.poolFrame_undoJournalKeys _).ledger
  have foundBegun : (evaluated.beginPendingPoolJournal block.height).ledger.account? tx.sender =
      some acc' := by rw [begunLedger]; exact found'
  obtain ⟨⟨accTurn, foundTurn⟩, restrictedTurn⟩ := processes_restricts before foundBegun
  rw [begunLedger, restrictedEvaluated] at restrictedTurn
  -- the two decisions
  have handed : Handed env checked tx.hash ↔ ¬ Restricted s.ledger tx.sender := by
    rw [restrictedStart]
    constructor
    · rintro ⟨other, accOther, loadedOther, foundOther, reached⟩
      rw [around.check.loaded] at loadedOther
      cases loadedOther
      rw [← sender, found] at foundOther
      cases foundOther
      simpa [reachesEvm_eq shapeKnown] using reached
    · intro open'
      exact ⟨known, acc, around.check.loaded, sender ▸ found,
        by simpa [reachesEvm_eq shapeKnown] using open'⟩
  obtain ⟨after, own, pre, evm, split, ownLog, afterAll, preAll, evmAll, handedEvm⟩ := around.record
  obtain ⟨own', ownLog', native⟩ := processTransaction_native shape
    (s := { u with log := .included tx block.height :: u.log }) foundTurn around.process
  obtain ⟨own'', ownLog'', ownAll⟩ := logGrows_processTransaction.of_ok around.process
  obtain rfl : own' = own := (append_cancel_right (ownLog.symm.trans ownLog')).symm
  obtain rfl : own'' = own' := (append_cancel_right (ownLog.symm.trans ownLog'')).symm
  have takes : PendingPoolTakes { u with log := .included tx block.height :: u.log } tx
      block.height ↔ PendingPoolTakes u tx block.height :=
    pendingPoolTakes_congr foundTurn foundTurn rfl rfl rfl
  have nativeIff : NativeIn events tx.hash ↔ 0 < tx.txData.lockedAmount ∨
      (Restricted u.ledger tx.sender ∧ PendingPoolTakes u tx block.height) := by
    rw [split, nativeIn_append, nativeIn_append, nativeIn_append, native, takes]
    have noEvm : ¬ NativeIn evm tx.hash := by
      rintro ⟨e, inside, isNative⟩
      exact evmPass_not_native (evmAll e inside) isNative
    simp [not_nativeIn_of_unrelated afterAll, not_nativeIn_of_unrelated preAll, noEvm]
  have handedIff : HandedIn events tx.hash ↔ ¬ Restricted s.ledger tx.sender := by
    have noOwn : ¬ HandedIn own'' tx.hash := by
      rintro ⟨_, _, inside, _⟩
      exact ownAll _ inside
    rw [split, handedIn_append, handedIn_append, handedIn_append, handedEvm, handed]
    simp [not_handedIn_of_unrelated afterAll, not_handedIn_of_unrelated preAll, noOwn]
  rw [nativeIff, handedIff, restrictedTurn]
  exact routes_complement_iff

def lockedCall : Transaction :=
  let tx := plain 0x55 0x77 Common.minStakingUser 1 5
  Transaction.hashed
    { tx with
      txData := { tx.txData with
        optData := [1]
        lockedAmount := 1000
        releasePerBlock := 1
        delegatedAccountForLocking := getDelegatedAccountAddress 1 }
      gasUsage := 30100 }

def plainCall : Transaction :=
  let tx := plain 0x55 0x77 Common.minStakingUser 1 5
  Transaction.hashed { tx with txData := { tx.txData with optData := [1] }, gasUsage := 30100 }

def caller (tx : Transaction) : Node Unit :=
  .small [{ address := 0x55, balance := 300000000000 }] [tx]

def callBlock (tx : Transaction) : Block := (caller tx).nextBlock 6 [tx.hash]

def callParent (tx : Transaction) : Block := (caller tx).parentBlock 5

/-- The block with the call is accepted; the EVM moves its amount to the recipient and the native
pass stakes it again. -/
theorem locked_call_moved_twice :
    checkBaseBlock Env.permissive (callBlock lockedCall) (callParent lockedCall) = .ok () ∧
      ValueCall lockedCall ∧
      ∃ block t, checkBlockAndTransferFunds Env.permissive (callBlock lockedCall)
          (callParent lockedCall) (caller lockedCall) = .ok block t ∧
        .included lockedCall 6 ∈ t.log ∧
        (t.ledger.account? 0x77).map (·.balance) = some 100000000000 ∧
        (t.ledger.account? 0x55).map (·.balance) = some 99999969900 ∧
        ¬ (NativeIn t.log lockedCall.hash ↔ ¬ HandedIn t.log lockedCall.hash) := by
  obtain ⟨block, t, run, included, received, left, staked, handed⟩ : ∃ block t, checkBlockAndTransferFunds
      Env.permissive (callBlock lockedCall) (callParent lockedCall) (caller lockedCall) =
        .ok block t ∧ .included lockedCall 6 ∈ t.log ∧
        (t.ledger.account? 0x77).map (·.balance) = some 100000000000 ∧
        (t.ledger.account? 0x55).map (·.balance) = some 99999969900 ∧
        .moved ⟨.staking, lockedCall.hash, 6, 0x55, -100000030100⟩ ∈ t.log ∧
        .evaluated lockedCall 6 ∈ t.log := by decide +kernel
  refine ⟨by decide +kernel, ⟨by decide, by decide, by decide +kernel⟩, block, t, run, included,
    received, left, fun complement => ?_⟩
  have native : NativeIn t.log lockedCall.hash := ⟨_, staked, rfl, .inr rfl⟩
  exact complement.mp native ⟨lockedCall, 6, handed, rfl⟩

/-- Without the lock the call is handed to the EVM and the native pass leaves it alone. -/
theorem plain_call_routed_once :
    ∃ block t, checkBlockAndTransferFunds Env.permissive (callBlock plainCall)
        (callParent plainCall) (caller plainCall) = .ok block t ∧
      (NativeIn t.log plainCall.hash ↔ ¬ HandedIn t.log plainCall.hash) := by
  obtain ⟨block, t, run, included, hashes⟩ : ∃ block t, checkBlockAndTransferFunds Env.permissive
      (callBlock plainCall) (callParent plainCall) (caller plainCall) = .ok block t ∧
        .included plainCall block.height ∈ t.log ∧
        block.transactionsHashes = [plainCall.hash] := by decide +kernel
  obtain ⟨earlier, u, ⟨_, _, _, _, _, later, _, _, position⟩, decided⟩ :=
    amount_routed_once_iff Env.permissive _ _ block _ t t.log plainCall (by decide +kernel) run
      (append_nil _).symm included ⟨by decide, by decide, by decide +kernel⟩
  refine ⟨block, t, run, decided.mpr ⟨?_, ?_, ?_⟩⟩
  · exact fun locked => absurd locked (by decide)
  · rintro - ⟨acc, found, restricted⟩
    have open' : ∀ acc ∈ (caller plainCall).ledger.account? plainCall.sender, ¬ acc.restricted := by
      decide +kernel
    exact absurd restricted (open' acc found)
  · rintro - - ⟨tx, inside, -⟩
    rw [hashes] at position
    cases earlier with
    | nil => cases inside
    | cons first rest => simp at position

end QwidNode.Guarantees
