import QwidNode.Source.CheckBlock
import QwidNode.Lib.Word

/-!
# What an accepted check pass says about its transactions

The walk of `CheckBlockTransfers` either fails, or leaves an error for the end, or
passes a transaction without touching the node. `Passes` lists what passing means;
`checkAll_clean` is the inversion of the whole walk.
-/
namespace QwidNode.Source
open Lib Db AList
variable {σ : Type} {env : Env σ} {block lastBlock : Block} {s t : Node σ} {tx : Transaction}
  {c c' : CheckState} {fee : Int64}
variable {p : TxPrefix} {hash : Hash} {u : Node σ}

/-- The balance a transaction is judged against: the running copy, or the account's. -/
def CheckState.balanceOf (c : CheckState) (a : AddressBytes) (acc : Account) : Int64 :=
  (c.balances.lookup a).getD acc.balance

def CheckState.gasWith (c : CheckState) (tx : Transaction) : Int64 :=
  if 0 < tx.gasUsage then c.totalGas + tx.gasUsage else c.totalGas

/-- The running stake and fee sums of the sender with a transaction for account `n`. -/
def CheckState.sumsWith (c : CheckState) (l : Ledger) (tx : Transaction) (fee : Int64) (n : Nat) :
    Int64 × Int64 :=
  let acc := l.stakingAccount tx.sender (n % 256)
  let cur := (c.stakes.lookup tx.sender).getD (acc.stakedBalance, acc.stakingRewards)
  (cur.1 + tx.amount, cur.2 + fee)

def StakingPasses (env : Env σ) (l : Ledger) (block : Block) (tx : Transaction) (fee : Int64)
    (c : CheckState) (account : Option Nat) : Prop :=
  ∀ n ∈ account, n < 512 →
    checkStakingTransaction env l tx fee n (c.sumsWith l tx fee n).1 (c.sumsWith l tx fee n).2
      block = true

/-- The account and balance rules hold, and the running balance is debited. -/
structure FundsPass (s : Node σ) (tx : Transaction) (fee : Int64) (c c' : CheckState) : Prop where
  sound : ∃ acc, s.ledger.account? tx.sender = some acc ∧ acc.address = tx.sender ∧
    ¬ c.balanceOf tx.sender acc - (fee + tx.amount) < 0 ∧
    c'.balances = c.balances.insert tx.sender
      (c.balanceOf tx.sender acc - (fee + tx.amount))
  shaped : ¬ approvalMalformed tx
  totalFee : c'.totalFee = c.totalFee
  totalGas : c'.totalGas = c.totalGas
  stakes : c'.stakes = c.stakes

structure Passes (env : Env σ) (block : Block) (s : Node σ) (tx : Transaction) (fee : Int64)
    (c c' : CheckState) : Prop where
  window : transactionHeightInWindow tx.height block.height = true
  charged : tx.calcFee = some fee
  gasBounded : ¬ (0 < tx.gasUsage ∧ Common.maxGasUsage < tx.gasUsage)
  gasFits : ¬ (0 < tx.gasUsage ∧ Common.maxGasUsagePerBlock < c.gasWith tx)
  cancellation : cancellationError s tx block.height = none
  deployment : ¬ deploysFromRestrictedAccount s.ledger tx
  routed : ∃ account, tx.routingAccount = some account ∧
    StakingPasses env s.ledger block tx fee c account
  sound : ∃ acc, s.ledger.account? tx.sender = some acc ∧ acc.address = tx.sender ∧
    ¬ c.balanceOf tx.sender acc - (fee + tx.amount) < 0 ∧
    c'.balances = c.balances.insert tx.sender
      (c.balanceOf tx.sender acc - (fee + tx.amount))
  shaped : ¬ approvalMalformed tx
  totalFee : c'.totalFee = c.totalFee + fee
  totalGas : c'.totalGas = c.gasWith tx

theorem dropAndContinue_eq (e : Error) : dropAndContinue env tx c e s =
    .ok { c with badTxErr := c.badTxErr.or (some e) } (s.removeBadTransactionByHash env tx.hash) :=
  rfl

theorem dropAndContinue_bad {e : Error} (run : dropAndContinue env tx c e s = .ok c' t) :
    c'.badTxErr ≠ none := by
  rw [dropAndContinue_eq] at run
  cases run
  cases c.badTxErr <;> simp

theorem checkFunds_clean (run : checkFunds env tx fee c s = .ok c' t)
    (clean : c'.badTxErr = none) :
    t = s ∧ c.badTxErr = none ∧ FundsPass s tx fee c c' := by
  unfold checkFunds at run
  rw [get_bind_run] at run
  cases found : s.ledger.account? tx.sender with
  | none =>
    simp only [found] at run
    exact absurd clean (dropAndContinue_bad run)
  | some acc =>
    simp only [found] at run
    split at run
    · exact absurd clean (dropAndContinue_bad run)
    · next address =>
      split at run
      · exact absurd clean (dropAndContinue_bad run)
      · next shaped =>
        split at run
        · exact absurd clean (dropAndContinue_bad run)
        · next funds =>
          cases run
          exact ⟨rfl, clean, ⟨acc, found, not_not.mp address, funds, rfl⟩, shaped,
            rfl, rfl, rfl⟩

theorem addStake_lookup (l : Ledger) (n : Nat) :
    ((addStake l tx fee n c).stakes.lookup tx.sender).getD (0, 0) = c.sumsWith l tx fee n := by
  simp [addStake, CheckState.sumsWith, lookup_insert]

theorem checkRouted_clean {account : Option Nat}
    (run : checkRouted env block tx fee account c s = .ok c' t) (clean : c'.badTxErr = none) :
    t = s ∧ c.badTxErr = none ∧ StakingPasses env s.ledger block tx fee c account ∧
      ∃ c₁ : CheckState, FundsPass s tx fee c₁ c' ∧ c₁.balances = c.balances ∧
        c₁.totalFee = c.totalFee ∧ c₁.totalGas = c.totalGas := by
  unfold checkRouted at run
  rw [get_bind_run] at run
  cases account with
  | none =>
    obtain ⟨same, before, funds⟩ := checkFunds_clean run clean
    exact ⟨same, before, by simp [StakingPasses], c, funds, rfl, rfl, rfl⟩
  | some n =>
    simp only at run
    split at run
    · next low =>
      rw [addStake_lookup] at run
      split at run
      · next passes =>
        obtain ⟨same, before, funds⟩ := checkFunds_clean run clean
        refine ⟨same, before, ?_, addStake s.ledger tx fee n c, funds, rfl, rfl, rfl⟩
        intro m routed _
        cases routed
        exact passes
      · exact absurd clean (dropAndContinue_bad run)
    · next high =>
      obtain ⟨same, before, funds⟩ := checkFunds_clean run clean
      refine ⟨same, before, ?_, c, funds, rfl, rfl, rfl⟩
      intro m routed low
      cases routed
      exact absurd low high

theorem checkVerified_clean (run : checkVerified env block tx c s = .ok c' t)
    (clean : c'.badTxErr = none)
    (window : transactionHeightInWindow tx.height block.height = true) :
    t = s ∧ c.badTxErr = none ∧ ∃ fee, Passes env block s tx fee c c' := by
  unfold checkVerified at run
  cases charged : tx.calcFee with
  | none =>
    simp only [charged] at run
    cases run
  | some fee =>
    simp only [charged, failIf_bind_eq_ok, get_bind_run] at run
    obtain ⟨gasBounded, gasFits, run⟩ := run
    cases cancellation : cancellationError s tx block.height with
    | some e =>
      simp only [cancellation] at run
      cases run
    | none =>
      simp only [cancellation, failIf_bind_eq_ok] at run
      obtain ⟨deployment, run⟩ := run
      cases routing : tx.routingAccount with
      | none =>
        simp only [routing] at run
        cases run
      | some account =>
        simp only [routing] at run
        obtain ⟨same, before, staking, c₁, funds, balances, fees, gas⟩ :=
          checkRouted_clean run clean
        obtain ⟨acc, found, address, covered, debited⟩ := funds.sound
        have running : c₁.balanceOf tx.sender acc = c.balanceOf tx.sender acc := by
          simp only [CheckState.balanceOf, balances]
        rw [running] at covered debited
        rw [balances] at debited
        exact ⟨same, before, fee,
          { window := window
            charged := charged
            gasBounded := gasBounded
            gasFits := gasFits
            cancellation := cancellation
            deployment := deployment
            routed := ⟨account, routing, staking⟩
            sound := ⟨acc, found, address, covered, debited⟩
            shaped := funds.shaped
            totalFee := funds.totalFee.trans fees
            totalGas := funds.totalGas.trans gas }⟩

theorem checkTransaction_clean {verified : Bool}
    (run : checkTransaction env block verified tx c s = .ok c' t) (clean : c'.badTxErr = none) :
    t = s ∧ c.badTxErr = none ∧ verified = true ∧ ∃ fee, Passes env block s tx fee c c' := by
  unfold checkTransaction at run
  split at run
  · exact absurd clean (dropAndContinue_bad run)
  · next isVerified =>
    split at run
    · exact absurd clean (dropAndContinue_bad run)
    · next window =>
      obtain ⟨same, before, passes⟩ :=
        checkVerified_clean run clean (by simpa using window)
      exact ⟨same, before, by simpa using isVerified, passes⟩

inductive PassesAll (env : Env σ) (block : Block) (s : Node σ) :
    List Transaction → CheckState → CheckState → Prop where
  | nil (c : CheckState) : PassesAll env block s [] c c
  | cons {tx : Transaction} {rest : List Transaction} {fee : Int64} {c c₁ c' : CheckState}
      (first : Passes env block s tx fee c c₁) (others : PassesAll env block s rest c₁ c') :
      PassesAll env block s (tx :: rest) c c'

theorem checkAll_clean {items : List (Transaction × Bool)}
    (run : checkAll env block items c s = .ok c' t) (clean : c'.badTxErr = none) :
    t = s ∧ c.badTxErr = none ∧ (∀ item ∈ items, item.2 = true) ∧
      PassesAll env block s (items.map Prod.fst) c c' := by
  induction items generalizing c s with
  | nil =>
    cases run
    exact ⟨rfl, clean, by simp, .nil _⟩
  | cons item rest ih =>
    obtain ⟨tx, verified⟩ := item
    obtain ⟨c₁, u, first, later⟩ := bind_eq_ok.mp run
    obtain ⟨rfl, middle, flags, passed⟩ := ih later
    obtain ⟨rfl, before, isVerified, fee, passes⟩ := checkTransaction_clean first middle
    refine ⟨rfl, before, ?_, .cons passes passed⟩
    intro item member
    rcases List.mem_cons.mp member with rfl | member
    · exact isVerified
    · exact flags item member

theorem checkBlockTransfers_ok {reward totalFee : Int64}
    (run : checkBlockTransfers env block lastBlock s = .ok (reward, totalFee) t) :
    ∃ txs c, loadAll env lastBlock block.transactionsHashes s = .ok txs t ∧
      (∀ tx ∈ txs, Verified env t.ledger (parentContext lastBlock) tx) ∧
      PassesAll env block t txs {} c ∧ reward = getReward lastBlock.supply ∧
      totalFee = c.totalFee ∧ lastBlock.supply + reward = block.supply := by
  obtain ⟨txs, u, loaded, run⟩ := bind_eq_ok.mp run
  rw [get_bind_run] at run
  obtain ⟨c, v, walked, finish⟩ := bind_eq_ok.mp run
  cases bad : c.badTxErr with
  | some e =>
    simp only [bad] at finish
    cases finish
  | none =>
    simp only [bad, failIf_bind_eq_ok, not_not] at finish
    obtain ⟨supply, finish⟩ := finish
    obtain ⟨same, _, flags, passed⟩ := checkAll_clean walked bad
    simp only [pure_run, EStateM.Result.ok.injEq, Prod.mk.injEq] at finish
    obtain ⟨⟨rewarded, charged⟩, final⟩ := finish
    subst final
    subst same
    rw [rewarded] at supply
    rw [List.map_map] at passed
    refine ⟨txs, c, loaded, ?_, by simpa [Function.comp_def] using passed, rewarded.symm,
      charged.symm, supply⟩
    intro tx member
    have flag := flags (tx, _) (List.mem_map.mpr ⟨tx, member, rfl⟩)
    simpa using flag

/-- Every transaction that could be loaded from the pool prefix still can. -/
def LoadableKept (env : Env σ) (s t : Node σ) : Prop :=
  ∀ hash tx, s.db.loadTx? env .pool hash = some tx → t.db.loadTx? env .pool hash = some tx

instance : IsPreorder (Node σ) (LoadableKept env) where
  refl _ _ _ found := found
  trans _ _ _ first second hash tx found := second hash tx (first hash tx found)

theorem loadFromDBPoolTx_eq_ok :
    loadFromDBPoolTx env p hash s = .ok tx u ↔ u = s ∧ s.db.loadTx? env p hash = some tx := by
  unfold loadFromDBPoolTx loadTx?
  rw [get_bind_run]
  cases stored : (s.db.txs p).lookup hash with
  | none => simp
  | some body =>
    by_cases matching : bodyMatches env hash body
    · simp [matching, Option.filter, eq_comm, and_comm]
    · by_cases pool : p = .pool
      · simp [matching, Option.filter, pool, modifyDb]
      · simp [matching, Option.filter, pool]

theorem loadFromDBPoolTx_final (p : TxPrefix) (hash : Hash) (s : Node σ) :
    finalState (loadFromDBPoolTx env p hash s) = s ∨
      (p = .pool ∧ s.db.loadTx? env .pool hash = none ∧
        finalState (loadFromDBPoolTx env p hash s) = { s with db := s.db.removePoolTx hash }) := by
  unfold loadFromDBPoolTx
  rw [get_bind_run]
  cases stored : (s.db.txs p).lookup hash with
  | none => exact .inl rfl
  | some body =>
    by_cases matching : bodyMatches env hash body = true
    · simp only [if_pos matching]
      exact .inl rfl
    · by_cases pool : p = .pool
      · subst pool
        simp only [if_neg matching]
        refine .inr ⟨trivial, ?_, rfl⟩
        simp only [loadTx?, stored]
        simp [Option.filter, matching]
      · simp only [if_neg matching, if_neg pool]
        exact .inl rfl

theorem loadTx?_removePoolTx (absent : s.db.loadTx? env .pool hash = none) (other : Hash) :
    (s.db.removePoolTx hash).loadTx? env .pool other =
      s.db.loadTx? env .pool other := by
  by_cases same : other = hash
  · subst same
    rw [absent]
    simp [loadTx?, Db.txs, removePoolTx]
  · simp only [loadTx?, Db.txs, removePoolTx, lookup_erase_ne same]

def SameLoads (env : Env σ) (s t : Node σ) : Prop :=
  ∀ hash, t.db.loadTx? env .pool hash = s.db.loadTx? env .pool hash

theorem sameLoads_loadFromDBPoolTx (p : TxPrefix) (hash : Hash) :
    Respects (SameLoads env) (loadFromDBPoolTx env p hash) := by
  intro s other
  rcases loadFromDBPoolTx_final p hash s with same | ⟨_, absent, dropped⟩
  · rw [same]
  · rw [dropped]
    exact loadTx?_removePoolTx absent other

theorem loadableKept_loadFromDBPoolTx (p : TxPrefix) (hash : Hash) :
    Respects (LoadableKept env) (loadFromDBPoolTx env p hash) := by
  intro s other tx found
  rw [sameLoads_loadFromDBPoolTx p hash s other]
  exact found

theorem checkTransactionInDB_eq_ok {a : Unit} :
    checkTransactionInDBAndInMarkleTrie hash s = .ok a u ↔
      u = s ∧ s.db.includedTx.lookup hash = none := by
  unfold checkTransactionInDBAndInMarkleTrie
  rw [get_bind_run]
  cases s.db.includedTx.lookup hash with
  | none => simp [eq_comm]
  | some h => simp

theorem bodyMatches_iff :
    bodyMatches env hash tx = true ↔ tx.hash = hash ∧ env.calcHash tx.hashPreimage = tx.hash := by
  simp [bodyMatches]

theorem loadTx?_matches {db : Db σ} (found : db.loadTx? env p hash = some tx) :
    bodyMatches env hash tx = true :=
  (Option.filter_eq_some_iff.mp found).2

theorem findTxInMemoryPools_hash (found : s.findTxInMemoryPools hash = some tx) :
    tx.hash = hash := by
  have filed : ∀ {t : PoolType} {tp : TransactionPool t},
      tp.getTransactionByHash hash = some tx → tx.hash = hash := by
    intro t tp pooled
    obtain ⟨item, member, value, body⟩ := TransactionPool.lookup_eq_some_iff.mp pooled
    rw [← body, ← value]
    exact (tp.keyed item member).symm
  unfold Node.findTxInMemoryPools at found
  rcases Option.or_eq_some_iff.mp found with first | ⟨_, third⟩
  · rcases Option.or_eq_some_iff.mp first with first | ⟨_, second⟩
    · exact filed first
    · exact filed second
  · exact filed third

theorem storePool_loads (matching : bodyMatches env hash tx = true)
    (absent : s.db.loadTx? env .pool hash = none) :
    LoadableKept env s { s with db := s.db.storeTx .pool tx } ∧
      (s.db.storeTx .pool tx).loadTx? env .pool hash = some tx := by
  have filed : tx.hash = hash := (bodyMatches_iff.mp matching).1
  constructor
  · intro other body found
    have different : other ≠ tx.hash := by
      rintro rfl
      rw [filed, absent] at found
      cases found
    simpa only [loadTx?, storeTx, Db.txs, lookup_insert_ne different] using found
  · simp only [loadTx?, storeTx, Db.txs, filed, lookup_insert]
    simp [Option.filter, matching]

def LoadFrame (s t : Node σ) : Prop :=
  ∃ pool confirmed, t = { s with db := { s.db with poolTx := pool, confirmedTx := confirmed } }

instance : IsPreorder (Node σ) LoadFrame where
  refl s := ⟨s.db.poolTx, s.db.confirmedTx, rfl⟩
  trans s _ _ first second := by
    obtain ⟨pool, confirmed, rfl⟩ := first
    obtain ⟨pool', confirmed', rfl⟩ := second
    exact ⟨pool', confirmed', rfl⟩

theorem LoadFrame.refl (s : Node σ) : LoadFrame s s := refl_of LoadFrame s

theorem LoadFrame.trans (first : LoadFrame s t) (second : LoadFrame t u) :
    LoadFrame s u := trans_of LoadFrame first second

theorem loadFrame_removePoolTx (s : Node σ) (hash : Hash) :
    LoadFrame s { s with db := s.db.removePoolTx hash } :=
  ⟨_, s.db.confirmedTx, rfl⟩

theorem loadFrame_storePool (s : Node σ) (tx : Transaction) :
    LoadFrame s { s with db := s.db.storeTx .pool tx } :=
  ⟨_, s.db.confirmedTx, rfl⟩

theorem loadFrame_storeConfirmed (s : Node σ) (tx : Transaction) :
    LoadFrame s { s with db := s.db.storeTx .confirmed tx } :=
  ⟨s.db.poolTx, _, rfl⟩

theorem loadFrame_loadFromDBPoolTx (p : TxPrefix) (hash : Hash) :
    Respects LoadFrame (loadFromDBPoolTx env p hash) := by
  intro s
  rcases loadFromDBPoolTx_final p hash s with same | ⟨_, _, dropped⟩
  · rw [same]
    exact .refl s
  · rw [dropped]
    exact loadFrame_removePoolTx s hash

theorem LoadFrame.includedTx (frame : LoadFrame s t) : t.db.includedTx = s.db.includedTx := by
  obtain ⟨_, _, rfl⟩ := frame
  rfl

theorem LoadFrame.ledger (frame : LoadFrame s t) : t.ledger = s.ledger := by
  obtain ⟨_, _, rfl⟩ := frame
  rfl

theorem loadFromDBPoolTx_error {e : Error} (notPool : p ≠ .pool)
    (run : loadFromDBPoolTx env p hash s = .error e u) : u = s := by
  rcases loadFromDBPoolTx_final p hash s with same | dropped
  · rwa [run] at same
  · exact absurd dropped.1 notPool

theorem loadTx?_none_of_error {e : Error} (run : loadFromDBPoolTx env p hash s = .error e u) :
    s.db.loadTx? env p hash = none := by
  cases stored : s.db.loadTx? env p hash with
  | none => rfl
  | some tx =>
    rw [loadFromDBPoolTx_eq_ok.mpr ⟨rfl, stored⟩] at run
    cases run

theorem attempt_load_cases {found : Option Transaction}
    (run : attempt (loadFromDBPoolTx env p hash) s = .ok found u) :
    found = s.db.loadTx? env p hash ∧ (found.isSome ∨ p ≠ .pool → u = s) ∧ LoadFrame s u ∧
      LoadableKept env s u := by
  have frame : LoadFrame s u := (loadFrame_loadFromDBPoolTx p hash).attempt.of_ok run
  have kept : LoadableKept env s u := (loadableKept_loadFromDBPoolTx p hash).attempt.of_ok run
  unfold attempt at run
  cases load : loadFromDBPoolTx env p hash s with
  | ok tx v =>
    simp only [load] at run
    cases run
    obtain ⟨same, stored⟩ := loadFromDBPoolTx_eq_ok.mp load
    exact ⟨stored.symm, fun _ => same, frame, kept⟩
  | error e v =>
    simp only [load] at run
    cases run
    refine ⟨(loadTx?_none_of_error load).symm, fun unchanged => ?_, frame, kept⟩
    rcases unchanged with impossible | notPool
    · cases impossible
    · exact loadFromDBPoolTx_error notPool load

theorem loadBadOrPooled_run (env : Env σ) (s : Node σ) (hash : Hash) :
    (∃ tx, (s.db.loadTx? env .bad hash).or (s.findTxInMemoryPools hash) = some tx ∧
        loadBadOrPooled env hash s = .ok tx s) ∨
      ((s.db.loadTx? env .bad hash).or (s.findTxInMemoryPools hash) = none ∧
        ∃ e, loadBadOrPooled env hash s = .error e s) := by
  change (∃ tx, _ ∧ EStateM.tryCatch (loadFromDBPoolTx env .bad hash) _ s = _) ∨
    (_ ∧ ∃ e, EStateM.tryCatch (loadFromDBPoolTx env .bad hash) _ s = _)
  unfold EStateM.tryCatch
  simp only
  cases load : loadFromDBPoolTx env .bad hash s with
  | ok body w =>
    obtain ⟨rfl, stored⟩ := loadFromDBPoolTx_eq_ok.mp load
    exact .inl ⟨body, by rw [stored]; rfl, rfl⟩
  | error e w =>
    obtain rfl : w = s := loadFromDBPoolTx_error (by decide) load
    rw [loadTx?_none_of_error load, Option.none_or]
    change (∃ tx, _ ∧ ((get : NodeM σ (Node σ)) >>= _) w = _) ∨
      (_ ∧ ∃ e, ((get : NodeM σ (Node σ)) >>= _) w = _)
    simp only [get_bind_run]
    cases found : w.findTxInMemoryPools hash with
    | some tx => exact .inl ⟨tx, rfl, rfl⟩
    | none => exact .inr ⟨rfl, e, rfl⟩

theorem loadBadOrPooled_ok (run : loadBadOrPooled env hash s = .ok tx u) :
    u = s ∧ (s.db.loadTx? env .bad hash = some tx ∨ s.findTxInMemoryPools hash = some tx) := by
  rcases loadBadOrPooled_run env s hash with ⟨body, found, loads⟩ | ⟨-, e, fails⟩
  · rw [loads] at run
    cases run
    exact ⟨rfl, (Option.or_eq_some_iff.mp found).imp_right And.right⟩
  · rw [fails] at run
    cases run

theorem loadBadOrPooled_hash (run : loadBadOrPooled env hash s = .ok tx u) : tx.hash = hash := by
  rcases (loadBadOrPooled_ok run).2 with stored | found
  · exact (bodyMatches_iff.mp (loadTx?_matches stored)).1
  · exact findTxInMemoryPools_hash found

theorem recoverTransaction_ok (run : recoverTransaction env lastBlock hash s = .ok tx u) :
    u = { s with db := s.db.storeTx .confirmed tx } ∧ bodyMatches env hash tx = true := by
  obtain ⟨body, v, found, finish⟩ := bind_eq_ok.mp run
  obtain rfl := (loadBadOrPooled_ok found).1
  have filed := loadBadOrPooled_hash found
  rw [get_bind_run, failIf_bind_eq_ok, not_not] at finish
  obtain ⟨verified, finish⟩ := finish
  cases finish
  exact ⟨rfl, bodyMatches_iff.mpr ⟨filed, verified.hash⟩⟩

theorem loadMissing_cases (run : loadMissing env lastBlock hash s = .ok tx u) :
    bodyMatches env hash tx = true ∧
      ((s.db.removePoolTx hash).loadTx? env .confirmed hash = some tx ∧
        u = { s with db := (s.db.removePoolTx hash).storeTx .pool tx } ∨
      recoverTransaction env lastBlock hash { s with db := s.db.removePoolTx hash } =
        .ok tx { s with db := (s.db.removePoolTx hash).storeTx .confirmed tx } ∧
        u = { s with db := ((s.db.removePoolTx hash).storeTx .confirmed tx).storeTx .pool tx }) := by
  obtain ⟨_, r, dropped, run⟩ := bind_eq_ok.mp run
  obtain rfl : r = { s with db := s.db.removePoolTx hash } := by cases dropped; rfl
  obtain ⟨found, v, loaded, run⟩ := bind_eq_ok.mp run
  obtain ⟨confirmed, unchanged, -, -⟩ := attempt_load_cases loaded
  cases found with
  | some body =>
    obtain rfl := unchanged (.inl rfl)
    obtain ⟨_, w, checked, run⟩ := bind_eq_ok.mp run
    obtain ⟨rfl, _⟩ := checkTransactionInDB_eq_ok.mp checked
    cases run
    exact ⟨loadTx?_matches confirmed.symm, .inl ⟨confirmed.symm, rfl⟩⟩
  | none =>
    obtain rfl := unchanged (.inr (by decide))
    obtain ⟨body, w, recovered, run⟩ := bind_eq_ok.mp run
    obtain ⟨rfl, matching⟩ := recoverTransaction_ok recovered
    cases run
    exact ⟨matching, .inr ⟨recovered, rfl⟩⟩

theorem loadMissing_ok (absent : s.db.loadTx? env .pool hash = none)
    (run : loadMissing env lastBlock hash s = .ok tx u) :
    LoadFrame s u ∧ LoadableKept env s u ∧ u.db.loadTx? env .pool hash = some tx := by
  have removed : LoadableKept env s { s with db := s.db.removePoolTx hash } := by
    intro other body found
    have different : other ≠ hash := by
      rintro rfl
      rw [absent] at found
      cases found
    simpa only [loadTx?, Db.txs, removePoolTx, lookup_erase_ne different] using found
  have stillAbsent : ({ s with db := s.db.removePoolTx hash } : Node σ).db.loadTx? env .pool hash =
      none := by
    simp [loadTx?, Db.txs, removePoolTx]
  have frame := loadFrame_removePoolTx s hash
  obtain ⟨matching, ⟨-, rfl⟩ | ⟨-, rfl⟩⟩ := loadMissing_cases run
  · have stored := storePool_loads matching stillAbsent
    exact ⟨frame.trans (loadFrame_storePool _ _), trans_of (LoadableKept env) removed stored.1,
      stored.2⟩
  · -- storing under the confirmed prefix leaves the pool prefix alone
    have confirmedOnly := loadFrame_storeConfirmed
      ({ s with db := s.db.removePoolTx hash } : Node σ) tx
    have stored := storePool_loads
      (s := { s with db := (s.db.removePoolTx hash).storeTx .confirmed tx }) matching stillAbsent
    exact ⟨(frame.trans confirmedOnly).trans (loadFrame_storePool _ _),
      trans_of (LoadableKept env) removed stored.1, stored.2⟩

theorem loadForBlock_cases (run : loadForBlock env lastBlock hash s = .ok tx u) :
    u.db.includedTx.lookup hash = none ∧ ((s.db.loadTx? env .pool hash = some tx ∧ u = s) ∨
      ∃ v, s.db.loadTx? env .pool hash = none ∧
        attempt (loadFromDBPoolTx env .pool hash) s = .ok none v ∧
        loadMissing env lastBlock hash v = .ok tx u) := by
  obtain ⟨found, v, loaded, finish⟩ := bind_eq_ok.mp run
  obtain ⟨pooled, unchanged, -, -⟩ := attempt_load_cases loaded
  have checks {x : NodeM σ Transaction} (run : (x >>= fun body => do
      checkTransactionInDBAndInMarkleTrie hash
      pure body) v = .ok tx u) : x v = .ok tx u ∧ u.db.includedTx.lookup hash = none := by
    obtain ⟨body, w, first, check⟩ := bind_eq_ok.mp run
    obtain ⟨_, _, checked, done⟩ := bind_eq_ok.mp check
    obtain ⟨rfl, fresh⟩ := checkTransactionInDB_eq_ok.mp checked
    cases done
    exact ⟨first, fresh⟩
  cases found with
  | some body =>
    obtain ⟨taken, fresh⟩ := checks finish
    cases taken
    exact ⟨fresh, .inl ⟨pooled.symm, unchanged (.inl rfl)⟩⟩
  | none =>
    obtain ⟨missing, fresh⟩ := checks finish
    exact ⟨fresh, .inr ⟨v, pooled.symm, loaded, missing⟩⟩

theorem loadForBlock_ok (run : loadForBlock env lastBlock hash s = .ok tx u) :
    LoadFrame s u ∧ LoadableKept env s u ∧ u.db.loadTx? env .pool hash = some tx ∧
      s.db.includedTx.lookup hash = none := by
  obtain ⟨fresh, ⟨pooled, rfl⟩ | ⟨v, absent, loaded, missing⟩⟩ := loadForBlock_cases run
  · exact ⟨.refl _, refl_of (LoadableKept env) _, pooled, fresh⟩
  · obtain ⟨-, -, loadFrame, loadKept⟩ := attempt_load_cases loaded
    have same : SameLoads env s v := (sameLoads_loadFromDBPoolTx _ hash).attempt.of_ok loaded
    obtain ⟨frame, kept, stored⟩ := loadMissing_ok ((same hash).trans absent) missing
    rw [(loadFrame.trans frame).includedTx] at fresh
    exact ⟨loadFrame.trans frame, trans_of (LoadableKept env) loadKept kept, stored, fresh⟩

theorem loadAll_ok {hashes : List Hash} {txs : List Transaction}
    (run : loadAll env lastBlock hashes s = .ok txs u) :
    LoadFrame s u ∧ LoadableKept env s u ∧
      List.Forall₂ (fun hash tx => u.db.loadTx? env .pool hash = some tx ∧
        u.db.includedTx.lookup hash = none) hashes txs := by
  induction hashes generalizing s txs with
  | nil =>
    cases run
    exact ⟨.refl _, refl_of (LoadableKept env) _, .nil⟩
  | cons hash rest ih =>
    obtain ⟨tx, v, first, next⟩ := bind_eq_ok.mp run
    obtain ⟨txs', w, later, done⟩ := bind_eq_ok.mp next
    cases done
    obtain ⟨frame, kept, stored, fresh⟩ := loadForBlock_ok first
    obtain ⟨frame', kept', others⟩ := ih later
    refine ⟨frame.trans frame', trans_of (LoadableKept env) kept kept',
      .cons ⟨kept' hash tx stored, ?_⟩ others⟩
    rw [(frame.trans frame').includedTx]
    exact fresh

end QwidNode.Source
