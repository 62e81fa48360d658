import QwidNode.Source.CheckFacts
import QwidNode.Source.Events

/-!
# What the EVM pass over a block does when it returns

`EvaluateSCForBlock` changes no account's policy and no pending pool, and it rewrites a
pooled transaction only in its two output fields. Which transactions it hands to
`EvaluateSC` is decided by the policies before the block, in `evaluateHashes_handed`.
-/
namespace QwidNode.Source
open Lib Transaction
variable {σ : Type} {env : Env σ} {bl : Block} {s t : Node σ}
variable {tx tx' : Transaction} {acc : Account} {p : TxPrefix} {op : Nat} {hash : Hash}

def Transaction.body (tx : Transaction) : Transaction :=
  { tx with outputLogs := [], contractAddress := emptyAddress }

theorem Transaction.hash_of_body (same : tx'.body = tx.body) : tx'.hash = tx.hash := by
  simp only [Transaction.body, mk.injEq] at same
  exact same.2.2.1

theorem Transaction.eq_of_body (same : tx'.body = tx.body) :
    tx' = { tx with outputLogs := tx'.outputLogs, contractAddress := tx'.contractAddress } := by
  simp only [Transaction.body, mk.injEq] at same
  obtain ⟨data, param, hash, signature, height, price, usage, -, -⟩ := same
  cases tx'
  cases tx
  simp_all

abbrev PoliciesSame : Ledger → Ledger → Prop := PoliciesKept fun _ => False

theorem PoliciesKept.same {l l' : Ledger} (kept : PoliciesSame l l') {a : AddressBytes}
    (found : l.account? a = some acc) :
    ∃ acc', l'.account? a = some acc' ∧ acc'.policy = acc.policy := by
  obtain ⟨acc', found', same | ⟨impossible, _⟩⟩ := kept a acc found
  · exact ⟨acc', found', same⟩
  · exact impossible.elim

theorem policiesSame_setBalance (l : Ledger) (a : AddressBytes) (balance : Int64) :
    PoliciesSame l (l.setBalance a balance) := by
  refine policiesKept_putAccount fun acc found => .inl ?_
  rw [found]
  rfl

theorem policiesSame_setBalances (l : Ledger) (balances : List (AddressBytes × Int64)) :
    PoliciesSame l (balances.foldl (fun l b => l.setBalance b.1 b.2) l) := by
  induction balances generalizing l with
  | nil => exact .refl l
  | cons b rest ih => exact (policiesSame_setBalance l b.1 b.2).trans (ih _)

structure EvmFrame (env : Env σ) (s t : Node σ) : Prop where
  escrow : t.poolTxEscrow = s.poolTxEscrow
  multiSign : t.poolTxMultiSign = s.poolTxMultiSign
  included : t.db.includedTx = s.db.includedTx
  journal : t.db.pendingJournal = s.db.pendingJournal
  journalHeight : t.journalHeight = s.journalHeight
  bodies : ∀ hash, (t.db.loadTx? env .pool hash).map Transaction.body =
    (s.db.loadTx? env .pool hash).map Transaction.body
  policies : PoliciesSame s.ledger t.ledger

instance : IsPreorder (Node σ) (EvmFrame env) where
  refl _ := ⟨rfl, rfl, rfl, rfl, rfl, fun _ => rfl, .refl _⟩
  trans _ _ _ first second :=
    ⟨second.escrow.trans first.escrow, second.multiSign.trans first.multiSign,
      second.included.trans first.included, second.journal.trans first.journal,
      second.journalHeight.trans first.journalHeight,
      fun hash => (second.bodies hash).trans (first.bodies hash),
      first.policies.trans second.policies⟩

theorem EvmFrame.trans {u : Node σ} (first : EvmFrame env s t) (second : EvmFrame env t u) :
    EvmFrame env s u := trans_of (EvmFrame env) first second

theorem evmFrame_ledger {s t : Node σ} (escrow : t.poolTxEscrow = s.poolTxEscrow)
    (multiSign : t.poolTxMultiSign = s.poolTxMultiSign) (db : t.db = s.db)
    (journalHeight : t.journalHeight = s.journalHeight)
    (policies : PoliciesSame s.ledger t.ledger) : EvmFrame env s t :=
  ⟨escrow, multiSign, by rw [db], by rw [db], journalHeight, fun _ => by rw [db], policies⟩

theorem evmFrame_applyRun (s : Node σ) (run : EvmRun σ) : EvmFrame env s (s.applyRun run) :=
  evmFrame_ledger rfl rfl rfl rfl (policiesSame_setBalances _ _)

theorem evmFrame_event (s : Node σ) (e : Event) :
    EvmFrame env s { s with log := e :: s.log } :=
  evmFrame_ledger rfl rfl rfl rfl (.refl _)

theorem evmFrame_addBalance (route : Route) (hash : Hash) (height : Int64) (a : AddressBytes)
    (added : Int64) :
    Returns (EvmFrame env) (addBalance route hash height a added : NodeM σ Unit) := by
  intro s x t run
  unfold addBalance at run
  simp only at run
  split at run
  · cases run
  · cases run
    exact evmFrame_ledger rfl rfl rfl rfl (policiesKept_accountOrNew s.ledger a
      (fun acc => { acc with balance := acc.balance + added }) fun _ => rfl)

theorem evmFrame_setAccountByAddressBytes (a : AddressBytes) :
    Returns (EvmFrame env) (setAccountByAddressBytes a : NodeM σ Account) := by
  intro s x t run
  have frame : ApplyFrame (fun _ => False) s t :=
    (applyFrame_setAccountByAddressBytes a).of_ok run
  unfold setAccountByAddressBytes at run
  rw [get_bind_run] at run
  cases found : s.ledger.account? a with
  | some acc =>
    simp only [found] at run
    cases run
    exact refl_of (EvmFrame env) s
  | none =>
    simp only [found] at run
    cases run
    exact evmFrame_ledger rfl rfl rfl rfl frame.policies

theorem setAccountByAddressBytes_outside {a : AddressBytes}
    (run : setAccountByAddressBytes a s = .ok acc t) : t.db = s.db ∧ t.log = s.log := by
  unfold setAccountByAddressBytes at run
  rw [get_bind_run] at run
  cases found : s.ledger.account? a with
  | some acc =>
    simp only [found] at run
    cases run
    exact ⟨rfl, rfl⟩
  | none =>
    simp only [found] at run
    cases run
    exact ⟨rfl, rfl⟩

theorem evmFrame_storeOutputs (tx new : Transaction)
    (loaded : p = .pool → s.db.loadTx? env .pool tx.hash = some tx) (same : new.body = tx.body)
    (preimage : new.hashPreimage = tx.hashPreimage) :
    EvmFrame env s { s with db := s.db.storeTx p new } := by
  have hashes : new.hash = tx.hash := hash_of_body same
  refine ⟨rfl, rfl, by cases p <;> rfl, by cases p <;> rfl, rfl, fun hash => ?_, .refl _⟩
  cases p with
  | confirmed => rfl
  | bad => rfl
  | pool =>
    have found := loaded rfl
    by_cases own : hash = tx.hash
    · subst own
      have matching := loadTx?_matches found
      have still : bodyMatches env tx.hash new = true := by
        rw [bodyMatches_iff] at matching ⊢
        exact ⟨hashes, by rw [preimage, hashes]; exact matching.2⟩
      rw [found]
      simp only [Db.loadTx?, Db.storeTx, Db.txs, hashes, AList.lookup_insert]
      simp [Option.filter, still, same]
    · simp only [Db.loadTx?, Db.storeTx, Db.txs, hashes, AList.lookup_insert_ne own]

theorem hashPreimage_outputs {logs : Bytes} {contract : Address}
    (notDex : tx.isDexOperation = false) :
    ({ tx with outputLogs := logs, contractAddress := contract } : Transaction).hashPreimage =
      tx.hashPreimage := by
  have still : ({ tx with outputLogs := logs, contractAddress := contract } :
      Transaction).isDexOperation = false := notDex
  simp [hashPreimage, notDex, still]

def DexMove (e : Event) : Prop := ∃ m, e = .moved m ∧ m.route = .dex

theorem generateOptDataDEX_cases {quote : Option DexQuote}
    (run : generateOptDataDEX env tx op s = .ok quote t) :
    (quote = none ∧ t = s) ∨
      ∃ dexAccount, setAccountByAddressBytes dexAccountAddress s = .ok dexAccount t ∧
        ∀ q ∈ quote, ∃ sender, dexOrderAffordable env s tx op q
          ((s.dex.lookup tx.contractAddress.byteValue).getD {}) dexAccount sender = true := by
  have refused (done : (pure none : NodeM σ (Option DexQuote)) s = .ok quote t) :
      quote = none ∧ t = s := by
    cases done
    exact ⟨rfl, rfl⟩
  unfold generateOptDataDEX at run
  rw [get_bind_run] at run
  cases quoted : env.dexQuote s.evm ((s.dex.lookup tx.contractAddress.byteValue).getD {}) tx op with
  | none =>
    simp only [quoted] at run
    exact .inl (refused run)
  | some q =>
    cases found : s.ledger.account? tx.sender with
    | none =>
      simp only [quoted, found] at run
      exact .inl (refused run)
    | some sender =>
      simp only [quoted, found] at run
      split at run
      · exact .inl (refused run)
      · obtain ⟨dexAccount, u, created, run⟩ := bind_eq_ok.mp run
        split at run
        case isTrue affordable =>
          cases run
          exact .inr ⟨dexAccount, created, fun q' same => by cases same; exact ⟨sender, affordable⟩⟩
        case isFalse =>
          cases run
          exact .inr ⟨dexAccount, created, fun q' none => by cases none⟩

theorem generateOptDataDEX_ok {quote : Option DexQuote}
    (run : generateOptDataDEX env tx op s = .ok quote t) :
    EvmFrame env s t ∧ t.db = s.db ∧ t.log = s.log := by
  obtain ⟨-, rfl⟩ | ⟨_, created, -⟩ := generateOptDataDEX_cases run
  · exact ⟨refl_of (EvmFrame env) t, rfl, rfl⟩
  · exact ⟨evmFrame_setAccountByAddressBytes _ _ _ _ created,
      setAccountByAddressBytes_outside created⟩

theorem settleDexOrder_ok {q : DexQuote} (run : settleDexOrder env bl tx op q s = .ok () t) :
    EvmFrame env s t ∧ LogGrows DexMove s t := by
  have moves : ∀ a added, DexMove (.moved ⟨.dex, tx.hash, bl.height, a, added⟩) :=
    fun a added => ⟨_, rfl, rfl⟩
  obtain ⟨_, u, paid, run⟩ := bind_eq_ok.mp run
  obtain ⟨_, v, received, run⟩ := bind_eq_ok.mp run
  rw [onError_eq_ok] at paid received
  have frame : EvmFrame env s v :=
    (evmFrame_addBalance _ _ _ _ _ _ _ _ paid).trans (evmFrame_addBalance _ _ _ _ _ _ _ _ received)
  have grown : LogGrows DexMove s v := trans_of (LogGrows DexMove)
    ((logGrows_addBalance (moves _ _)).of_ok paid)
    ((logGrows_addBalance (moves _ _)).of_ok received)
  simp only [get_bind_run] at run
  split at run
  · cases run
    exact ⟨frame.trans (evmFrame_ledger rfl rfl rfl rfl (.refl _)),
      trans_of (LogGrows DexMove) grown (.of_eq rfl)⟩
  · cases run

theorem evaluateDexOrder_ok (loaded : p = .pool → s.db.loadTx? env .pool tx.hash = some tx)
    (run : evaluateDexOrder env bl p tx op s = .ok () t) :
    EvmFrame env s t ∧ LogGrows DexMove s t := by
  obtain ⟨quote, u, generated, run⟩ := bind_eq_ok.mp run
  obtain ⟨frame, db, log⟩ := generateOptDataDEX_ok generated
  have quiet : LogGrows DexMove s u := .of_eq log
  cases quote with
  | none =>
    cases run
    exact ⟨frame, quiet⟩
  | some q =>
    simp only [get_bind_run, modify_bind_run] at run
    have ran : EvmFrame env u (u.applyRun (env.evaluateSCDex u.evm u.ledger tx q bl)) :=
      evmFrame_applyRun _ _
    cases outcome : (env.evaluateSCDex u.evm u.ledger tx q bl).outcome with
    | executionError logs =>
      simp only [outcome] at run
      cases run
      exact ⟨frame.trans ran, trans_of (LogGrows DexMove) quiet (.of_eq rfl)⟩
    | nodeError =>
      simp only [outcome] at run
      cases run
    | success contract logs =>
      simp only [outcome] at run
      obtain ⟨_, v, stored, settled⟩ := bind_eq_ok.mp run
      cases stored
      obtain ⟨settledFrame, grown⟩ := settleDexOrder_ok settled
      have outputs : EvmFrame env (u.applyRun (env.evaluateSCDex u.evm u.ledger tx q bl)) _ :=
        evmFrame_storeOutputs tx { tx with outputLogs := logs }
          (fun pool => by rw [← loaded pool, ← db]; rfl) rfl rfl
      exact ⟨frame.trans (ran.trans (outputs.trans settledFrame)),
        trans_of (LogGrows DexMove) quiet (trans_of (LogGrows DexMove) (.of_eq rfl) grown)⟩

def EvaluationOf (tx : Transaction) (height : Int64) : Event → Prop
  | .evaluated tx' h => tx' = tx ∧ h = height
  | .entryValue tx' h => tx' = tx ∧ h = height
  | _ => False

theorem evaluateContract_ok (loaded : p = .pool → s.db.loadTx? env .pool tx.hash = some tx)
    (notDex : tx.isDexOperation = false) (run : evaluateContract env bl p tx s = .ok () t) :
    EvmFrame env s t ∧ ∃ events, t.log = events ++ s.log ∧ (∀ e ∈ events, EvaluationOf tx bl.height e) ∧
      .evaluated tx bl.height ∈ events := by
  unfold evaluateContract record at run
  simp only [modify_bind_run, get_bind_run] at run
  have ran : EvmFrame env s
      (Node.applyRun { s with log := .evaluated tx bl.height :: s.log }
        (env.evaluateSC s.evm s.ledger tx bl)) :=
    (evmFrame_event s _).trans (evmFrame_applyRun _ _)
  cases outcome : (env.evaluateSC s.evm s.ledger tx bl).outcome with
  | nodeError =>
    simp only [outcome] at run
    cases run
  | executionError logs =>
    simp only [outcome] at run
    cases run
    refine ⟨ran.trans (evmFrame_storeOutputs tx { tx with outputLogs := logs } loaded rfl rfl),
      [.evaluated tx bl.height], rfl, ?_, by simp⟩
    simp [EvaluationOf]
  | success contract logs =>
    simp only [outcome] at run
    cases run
    have valued : EvmFrame env (Node.applyRun { s with log := .evaluated tx bl.height :: s.log }
        (env.evaluateSC s.evm s.ledger tx bl)) _ :=
      evmFrame_event _ (.entryValue tx bl.height)
    refine ⟨ran.trans (valued.trans (evmFrame_storeOutputs tx
      { tx with outputLogs := logs, contractAddress := contract } loaded rfl
      (hashPreimage_outputs notDex))),
      [.entryValue tx bl.height, .evaluated tx bl.height], rfl, ?_, by simp⟩
    simp [EvaluationOf]

def EvmEvent (tx : Transaction) (height : Int64) (e : Event) : Prop :=
  EvaluationOf tx height e ∨ DexMove e

theorem evaluateLoaded_ok (loaded : p = .pool → s.db.loadTx? env .pool tx.hash = some tx)
    (known : s.ledger.account? tx.sender = some acc) (run : evaluateLoaded env bl p tx s = .ok () t) :
    EvmFrame env s t ∧ ∃ events, t.log = events ++ s.log ∧ (∀ e ∈ events, EvmEvent tx bl.height e) ∧
      (.evaluated tx bl.height ∈ events ↔ reachesEvm tx acc = true) := by
  have skipped : reachesEvm tx acc = false → (pure () : NodeM σ Unit) s = .ok () t →
      EvmFrame env s t ∧ ∃ events, t.log = events ++ s.log ∧ (∀ e ∈ events, EvmEvent tx bl.height e) ∧
        (.evaluated tx bl.height ∈ events ↔ reachesEvm tx acc = true) := by
    intro refused done
    cases done
    exact ⟨refl_of (EvmFrame env) s, [], rfl, by simp, by simp [refused]⟩
  unfold evaluateLoaded at run
  simp only [get_bind_run, known] at run
  split at run
  · next restricted => exact skipped (by simp [reachesEvm, restricted]) run
  · next open' =>
    split at run
    · next special =>
      refine skipped ?_ run
      rcases special with recovery | registration
      · simp [reachesEvm, recovery]
      · simp [reachesEvm, registration]
    · next ordinary =>
      rw [not_or] at ordinary
      cases delegated : intDelegatedAccountFromAddress tx.txData.recipient with
      | some n =>
        have refused : reachesEvm tx acc = false := by simp [reachesEvm, delegated]
        simp only [delegated] at run
        split at run
        · obtain ⟨frame, events, grown, moves⟩ := evaluateDexOrder_ok loaded run
          refine ⟨frame, events, grown, fun e member => .inr (moves e member), ?_⟩
          rw [refused]
          refine ⟨fun member => ?_, fun impossible => by cases impossible⟩
          obtain ⟨m, equal, _⟩ := moves _ member
          cases equal
        · exact skipped refused run
      | none =>
        simp only [delegated] at run
        split at run
        · next plain =>
          refine skipped ?_ run
          rcases plain with empty | cancels
          · simp [reachesEvm, empty]
          · simp [reachesEvm, cancels]
        · next call =>
          rw [not_or] at call
          have notDex : tx.isDexOperation = false := by
            simp only [isDexOperation, delegated]
          obtain ⟨frame, events, grown, evaluation, handed⟩ :=
            evaluateContract_ok loaded notDex run
          refine ⟨frame, events, grown, fun e member => .inl (evaluation e member), ?_⟩
          have reached : reachesEvm tx acc = true := by
            simp [reachesEvm, open', ordinary.1, ordinary.2, delegated, call.1,
              Option.not_isSome_iff_eq_none.mp call.2]
          exact ⟨fun _ => reached, fun _ => handed⟩

/-- A block's transaction is in the pool prefix and its sender has an account. -/
def Ready (env : Env σ) (s : Node σ) (hash : Hash) : Prop :=
  ∃ tx acc, s.db.loadTx? env .pool hash = some tx ∧ s.ledger.account? tx.sender = some acc

def Handed (env : Env σ) (s : Node σ) (hash : Hash) : Prop :=
  ∃ tx acc, s.db.loadTx? env .pool hash = some tx ∧ s.ledger.account? tx.sender = some acc ∧
    reachesEvm tx acc = true

theorem reachesEvm_congr {acc acc' : Account} (body : tx'.body = tx.body)
    (policy : acc'.policy = acc.policy) : reachesEvm tx' acc' = reachesEvm tx acc := by
  simp only [Transaction.body, mk.injEq] at body
  have restricted := Account.restricted_congr policy
  simp [reachesEvm, isCommitmentRegistration, noPolicyFields, cancellationTarget, amount, recipient,
    Transaction.sender, body.1, body.2.1, restricted]

theorem EvmFrame.ready (frame : EvmFrame env s t) (found : s.db.loadTx? env .pool hash = some tx)
    (known : s.ledger.account? tx.sender = some acc) :
    ∃ tx' acc', t.db.loadTx? env .pool hash = some tx' ∧ tx'.body = tx.body ∧
      t.ledger.account? tx'.sender = some acc' ∧ acc'.policy = acc.policy := by
  have bodies := frame.bodies hash
  rw [found, Option.map_some] at bodies
  obtain ⟨tx', found', body⟩ := Option.map_eq_some_iff.mp bodies
  obtain ⟨acc', known', policy⟩ := frame.policies.same known
  have sender : tx'.sender = tx.sender := by
    simp only [Transaction.body, mk.injEq] at body
    simp only [Transaction.sender, body.2.1]
  exact ⟨tx', acc', found', body, by rw [sender, known'], policy⟩

theorem EvmFrame.handed_iff (frame : EvmFrame env s t) (ready : Ready env s hash) :
    Ready env t hash ∧ (Handed env t hash ↔ Handed env s hash) := by
  obtain ⟨tx, acc, found, known⟩ := ready
  obtain ⟨tx', acc', found', body, known', policy⟩ := frame.ready found known
  refine ⟨⟨tx', acc', found', known'⟩, ?_⟩
  have same := reachesEvm_congr body policy
  simp only [Handed, found', found, Option.some.injEq]
  constructor
  · rintro ⟨_, _, rfl, again, reached⟩
    rw [known'] at again
    cases again
    exact ⟨tx, acc, rfl, known, same ▸ reached⟩
  · rintro ⟨_, _, rfl, again, reached⟩
    rw [known] at again
    cases again
    exact ⟨tx', acc', rfl, known', same.trans reached⟩

def EvmPassEvent (height : Int64) (e : Event) : Prop := ∃ tx, EvmEvent tx height e

/-- The record says that the transaction of a hash was handed to `EvaluateSC`. -/
def HandedIn (events : List Event) (hash : Hash) : Prop :=
  ∃ tx height, .evaluated tx height ∈ events ∧ tx.hash = hash

theorem evaluateHash_ok (ready : Ready env s hash) (run : evaluateHash env bl hash s = .ok () t) :
    EvmFrame env s t ∧ ∃ events, t.log = events ++ s.log ∧ (∀ e ∈ events, EvmPassEvent bl.height e) ∧
      ∀ other, HandedIn events other ↔ other = hash ∧ Handed env s hash := by
  obtain ⟨tx, acc, found, known⟩ := ready
  have filed : tx.hash = hash := (bodyMatches_iff.mp (loadTx?_matches found)).1
  obtain ⟨result, u, loaded, finish⟩ := bind_eq_ok.mp run
  obtain ⟨equal, unchanged, _, _⟩ := attempt_load_cases loaded
  rw [found] at equal
  subst equal
  obtain rfl := unchanged (.inl rfl)
  obtain ⟨frame, events, grown, all, handed⟩ :=
    evaluateLoaded_ok (fun _ => by rw [filed, found]) known finish
  refine ⟨frame, events, grown, fun e member => ⟨tx, all e member⟩, fun other => ?_⟩
  have reached : Handed env u hash ↔ reachesEvm tx acc = true := by
    simp only [Handed, found, Option.some.injEq]
    constructor
    · rintro ⟨_, _, rfl, again, reached⟩
      rw [known] at again
      cases again
      exact reached
    · exact fun reached => ⟨tx, acc, rfl, known, reached⟩
  rw [reached, ← handed]
  constructor
  · rintro ⟨tx', height, member, rfl⟩
    rcases all _ member with same | ⟨m, impossible, _⟩
    · obtain ⟨rfl, rfl⟩ := same
      exact ⟨filed, member⟩
    · cases impossible
  · rintro ⟨rfl, member⟩
    exact ⟨tx, _, member, filed⟩

theorem handedIn_append {later earlier : List Event} :
    HandedIn (later ++ earlier) hash ↔ HandedIn later hash ∨ HandedIn earlier hash := by
  simp only [HandedIn, List.mem_append, or_and_right, exists_or]

theorem evaluateHashes_handed {hashes : List Hash} (ready : ∀ hash ∈ hashes, Ready env s hash)
    (run : hashes.forM (evaluateHash env bl) s = .ok () t) :
    EvmFrame env s t ∧ ∃ events, t.log = events ++ s.log ∧
      (∀ e ∈ events, EvmPassEvent bl.height e) ∧
      ∀ hash, HandedIn events hash ↔ hash ∈ hashes ∧ Handed env s hash := by
  induction hashes generalizing s with
  | nil =>
    cases run
    exact ⟨refl_of (EvmFrame env) t, [], rfl, by simp, by simp [HandedIn]⟩
  | cons first rest ih =>
    obtain ⟨_, u, one, others⟩ := bind_eq_ok.mp run
    obtain ⟨frame, events, grown, all, handed⟩ := evaluateHash_ok (ready first (by simp)) one
    have ready' : ∀ hash ∈ rest, Ready env u hash := fun hash member =>
      (frame.handed_iff (ready hash (by simp [member]))).1
    obtain ⟨frame', events', grown', all', handed'⟩ := ih ready' others
    refine ⟨frame.trans frame', events' ++ events, by rw [grown', grown, List.append_assoc],
      fun e member => (List.mem_append.mp member).elim (all' e) (all e), fun hash => ?_⟩
    rw [handedIn_append, handed, handed', List.mem_cons]
    -- the states before the block and before the rest of it judge alike
    constructor
    · rintro (⟨member, reached⟩ | ⟨rfl, reached⟩)
      · exact ⟨.inr member, (frame.handed_iff (ready hash (by simp [member]))).2.mp reached⟩
      · exact ⟨.inl rfl, reached⟩
    · rintro ⟨rfl | member, reached⟩
      · exact .inr ⟨rfl, reached⟩
      · exact .inl ⟨member, (frame.handed_iff (ready hash (by simp [member]))).2.mpr reached⟩

end QwidNode.Source
