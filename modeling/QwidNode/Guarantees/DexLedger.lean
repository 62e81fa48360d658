import QwidNode.Guarantees.EvmSupply
import QwidNode.Source.Coins

/-!
# The coins of the exchange

One account holds the coins of all pools. An order is priced in floating point, its amounts are
checked in words, its tokens move in the EVM, then its coins move and its pool is written.
-/
namespace QwidNode.Guarantees.DexLedger
open Source Lib EvmSupply Word FinMap
variable {σ : Type} {env : Env σ} {s t u v : Node σ} {tx : Transaction} {op : Nat} {q : DexQuote}
  {bl : Block} {p : TxPrefix}

def pool (s : Node σ) (token : AddressBytes) : DexAccount := (s.dex.lookup token).getD {}

def coinPools (s : Node σ) : Int := sumOf (fun d : DexAccount => d.coinPool.toInt) s.dex

def Funded (l : Ledger) : Prop := ∀ a, 0 ≤ balanceAt l a

/-- Pools are non-negative, and the account of the exchange covers their coins. -/
structure Solvent (s : Node σ) : Prop where
  coinPool : ∀ token, 0 ≤ (pool s token).coinPool.toInt
  tokenPool : ∀ token, 0 ≤ (pool s token).tokenPool.toInt
  backed : coinPools s ≤ balanceAt s.ledger dexAccountAddress

/-- The token transfer of an order creates and destroys no native coins, overdraws no account and
takes nothing from the account of the exchange: it is a call without value, and the contract can
only spend its own balance. -/
structure TokenTransfers (env : Env σ) : Prop where
  funded : ∀ evm l tx q bl, Funded l →
    Funded ((env.evaluateSCDex evm l tx q bl).balances.foldl (fun l b => l.setBalance b.1 b.2) l)
  total : ∀ evm l tx q bl, nativeTotal
    ((env.evaluateSCDex evm l tx q bl).balances.foldl (fun l b => l.setBalance b.1 b.2) l) =
      nativeTotal l
  exchange : ∀ evm l tx q bl, balanceAt l dexAccountAddress ≤ balanceAt
    ((env.evaluateSCDex evm l tx q bl).balances.foldl (fun l b => l.setBalance b.1 b.2) l)
      dexAccountAddress

theorem balanceAt_putAccount (l : Ledger) (a b : AddressBytes) (acc : Account) :
    balanceAt (l.putAccount a acc) b = if b = a then acc.balance.toInt else balanceAt l b := by
  unfold balanceAt valueAt Ledger.putAccount
  dsimp only
  rw [lookup_insert_eq]
  split
  · rfl
  · rfl

theorem nativeTotal_putAccount (l : Ledger) (a : AddressBytes) (acc : Account) :
    nativeTotal (l.putAccount a acc) = nativeTotal l - balanceAt l a + acc.balance.toInt :=
  sumOf_insert _ l.accounts a acc

theorem toInt_accountOrNew (l : Ledger) (a : AddressBytes) :
    (l.accountOrNew a).balance.toInt = balanceAt l a := by
  rw [← toInt_getBalance, Ledger.accountOrNew]
  cases l.account? a <;> rfl

theorem add_exact {a b : Int64} (nonneg : 0 ≤ a.toInt) (enough : ¬ a + b < 0) :
    (a + b).toInt = a.toInt + b.toInt := by
  have left := toInt_range a
  have right := toInt_range b
  rw [lt_iff, toInt_zero] at enough
  rcases toInt_add_cases a b with exact | wrapped | wrapped <;> omega

theorem sub_exact {a b : Int64} (nonneg : 0 ≤ a.toInt) (enough : ¬ a - b < 0) :
    (a - b).toInt = a.toInt - b.toInt := by
  have left := toInt_range a
  have right := toInt_range b
  rw [lt_iff, toInt_zero] at enough
  rcases toInt_sub_cases a b with exact | wrapped | wrapped <;> omega

structure Credits (a : AddressBytes) (amount : Int) (s t : Node σ) : Prop where
  balances : ∀ b, balanceAt t.ledger b = balanceAt s.ledger b + if b = a then amount else 0
  funded : Funded t.ledger
  total : nativeTotal t.ledger = nativeTotal s.ledger + amount
  dex : t.dex = s.dex

theorem addBalance_credits {route : Route} {hash : Hash} {height : Int64} {a : AddressBytes}
    {added : Int64} (funded : Funded s.ledger)
    (run : addBalance route hash height a added s = .ok () t) : Credits a added.toInt s t := by
  obtain ⟨enough, rfl⟩ := addBalance_eq_ok.mp run
  have known := toInt_accountOrNew s.ledger a
  have sum := add_exact (known ▸ funded a) enough
  rw [known] at sum
  have balances : ∀ b, balanceAt (s.ledger.putAccount a { s.ledger.accountOrNew a with
      balance := (s.ledger.accountOrNew a).balance + added }) b =
        balanceAt s.ledger b + if b = a then added.toInt else 0 := by
    intro b
    rw [balanceAt_putAccount]
    by_cases here : b = a
    · rw [if_pos here, if_pos here, sum, here]
    · rw [if_neg here, if_neg here, Int.add_zero]
  refine ⟨balances, fun b => ?_, ?_, rfl⟩
  · rw [lt_iff, toInt_zero, sum] at enough
    have old := funded b
    rw [balances b]
    by_cases here : b = a
    · rw [if_pos here, here]
      omega
    · rw [if_neg here]
      omega
  · rw [nativeTotal_putAccount]
    change _ - _ + ((s.ledger.accountOrNew a).balance + added).toInt = _
    rw [sum]
    omega

/-- Pools stay, no coins appear or vanish, and the exchange loses none. -/
structure Calm (s t : Node σ) : Prop where
  dex : t.dex = s.dex
  funded : Funded s.ledger → Funded t.ledger
  total : nativeTotal t.ledger = nativeTotal s.ledger
  exchange : balanceAt s.ledger dexAccountAddress ≤ balanceAt t.ledger dexAccountAddress

theorem Calm.refl (s : Node σ) : Calm s s := ⟨rfl, id, rfl, le_refl _⟩

theorem Calm.trans (first : Calm s t) (second : Calm t u) : Calm s u :=
  ⟨second.dex.trans first.dex, second.funded ∘ first.funded, second.total.trans first.total,
    first.exchange.trans second.exchange⟩

theorem Calm.of_same (dex : t.dex = s.dex)
    (same : ∀ a, balanceAt t.ledger a = balanceAt s.ledger a) : Calm s t where
  dex := dex
  funded funded a := by
    rw [same a]
    exact funded a
  total := sumOf_congr same
  exchange := le_of_eq (same _).symm

theorem Calm.pool (calm : Calm s t) (token : AddressBytes) :
    DexLedger.pool t token = DexLedger.pool s token := by
  unfold DexLedger.pool
  rw [calm.dex]

theorem Calm.coinPools (calm : Calm s t) : DexLedger.coinPools t = DexLedger.coinPools s := by
  unfold DexLedger.coinPools
  rw [calm.dex]

theorem Calm.solvent (calm : Calm s t) (solvent : Solvent s) : Solvent t where
  coinPool token := by
    rw [calm.pool]
    exact solvent.coinPool token
  tokenPool token := by
    rw [calm.pool]
    exact solvent.tokenPool token
  backed := by
    rw [calm.coinPools]
    exact solvent.backed.trans calm.exchange

theorem calm_setAccount {a : AddressBytes} {acc : Account}
    (run : setAccountByAddressBytes a s = .ok acc t) :
    Calm s t ∧ acc.balance.toInt = balanceAt s.ledger a := by
  unfold setAccountByAddressBytes at run
  rw [get_bind_run] at run
  cases found : s.ledger.account? a with
  | some stored =>
    simp only [found] at run
    cases run
    refine ⟨.refl s, ?_⟩
    rw [← toInt_getBalance, found]
    rfl
  | none =>
    have empty : balanceAt s.ledger a = 0 := valueAt_of_none found
    simp only [found] at run
    cases run
    refine ⟨.of_same rfl fun b => ?_, empty.symm⟩
    change balanceAt (s.ledger.putAccount a { address := a }) b = _
    rw [balanceAt_putAccount]
    split
    case isTrue here => rw [here, empty]; rfl
    case isFalse => rfl

theorem calm_applyRun (honest : TokenTransfers env) (s : Node σ) (tx : Transaction) (q : DexQuote)
    (bl : Block) : Calm s (s.applyRun (env.evaluateSCDex s.evm s.ledger tx q bl)) :=
  ⟨rfl, honest.funded _ _ _ _ _, honest.total _ _ _ _ _, honest.exchange _ _ _ _ _⟩

/-- The checks of `GenerateOptDataDEX` that bound the coins and the pool of an order. -/
structure Guarded (s : Node σ) (tx : Transaction) (q : DexQuote) : Prop where
  exchange : 0 ≤ balanceAt s.ledger dexAccountAddress - q.coinAmount.toInt ∧
    balanceAt s.ledger dexAccountAddress - q.coinAmount.toInt < 2 ^ 63
  coinPool : q.coinAmount.toInt ≤ (pool s tx.contractAddress.byteValue).coinPool.toInt
  tokenPool : q.tokenAmount.toInt ≤ (pool s tx.contractAddress.byteValue).tokenPool.toInt

theorem generateOptDataDEX_calm {quote : Option DexQuote}
    (run : generateOptDataDEX env tx op s = .ok quote t) :
    Calm s t ∧ ∀ q, quote = some q → Funded s.ledger → Guarded s tx q := by
  obtain ⟨rfl, rfl⟩ | ⟨dexAccount, created, quoted⟩ := generateOptDataDEX_cases run
  · exact ⟨.refl t, fun q none => by cases none⟩
  obtain ⟨calm, balance⟩ := calm_setAccount created
  refine ⟨calm, fun q same funded => ?_⟩
  obtain ⟨sender, affordable⟩ := quoted q same
  unfold dexOrderAffordable at affordable
  dsimp only at affordable
  split at affordable
  · simp only [Bool.and_eq_true, Bool.not_eq_true', decide_eq_false_iff_not] at affordable
    obtain ⟨⟨⟨⟨⟨⟨⟨exchange, -⟩, -⟩, -⟩, coins⟩, tokens⟩, -⟩, -⟩ := affordable
    have exact := sub_exact (balance ▸ funded dexAccountAddress) exchange
    rw [lt_iff, toInt_zero] at exchange
    rw [lt_iff, not_lt] at coins tokens
    have range := toInt_range (dexAccount.balance - q.coinAmount)
    refine ⟨?_, coins, tokens⟩
    omega
  · cases affordable

/-- The amounts of an order and the state once its tokens have moved, if they have. -/
def transferred (env : Env σ) (bl : Block) (s : Node σ) (tx : Transaction) (op : Nat) :
    Option (DexQuote × Node σ) :=
  match generateOptDataDEX env tx op s with
  | .ok (some q) u =>
    match (env.evaluateSCDex u.evm u.ledger tx q bl).outcome with
    | .success _ _ => some (q, u.applyRun (env.evaluateSCDex u.evm u.ledger tx q bl))
    | _ => none
  | _ => none

theorem transferred_calm (honest : TokenTransfers env) (funded : Funded s.ledger)
    (moved : transferred env bl s tx op = some (q, u)) : Calm s u ∧ Guarded s tx q := by
  unfold transferred at moved
  split at moved
  case h_1 q' v run =>
    obtain ⟨calm, guarded⟩ := generateOptDataDEX_calm run
    split at moved
    · cases moved
      exact ⟨calm.trans (calm_applyRun honest v tx q bl), guarded q rfl funded⟩
    · cases moved
  case h_2 => cases moved

theorem evaluateDexOrder_cases (honest : TokenTransfers env)
    (run : evaluateDexOrder env bl p tx op s = .ok () t) :
    (transferred env bl s tx op = none ∧ Calm s t) ∨
      ∃ q u db, transferred env bl s tx op = some (q, u) ∧
        settleDexOrder env bl tx op q { u with db := db } = .ok () t := by
  obtain ⟨quote, u, generated, run⟩ := bind_eq_ok.mp run
  obtain ⟨calm, -⟩ := generateOptDataDEX_calm generated
  cases quote with
  | none =>
    cases run
    refine .inl ⟨?_, calm⟩
    simp only [transferred, generated]
  | some q =>
    simp only [get_bind_run, modify_bind_run] at run
    have moved := calm.trans (calm_applyRun honest u tx q bl)
    cases ended : (env.evaluateSCDex u.evm u.ledger tx q bl).outcome with
    | success contract logs =>
      simp only [ended] at run
      refine .inr ⟨q, _, _, ?_, run⟩
      simp only [transferred, generated, ended]
    | executionError logs =>
      simp only [ended] at run
      cases run
      refine .inl ⟨?_, moved⟩
      simp only [transferred, generated, ended]
    | nodeError =>
      simp only [ended] at run
      cases run

theorem pool_eq_valueAt (s : Node σ) (token : AddressBytes) :
    valueAt (fun d : DexAccount => d.coinPool.toInt) s.dex token =
      (pool s token).coinPool.toInt := by
  unfold valueAt pool
  cases s.dex.lookup token <;> rfl

theorem Solvent.coinPool_le (solvent : Solvent s) (token : AddressBytes) :
    (pool s token).coinPool.toInt ≤ coinPools s := by
  have nonneg : ∀ d ∈ values s.dex, 0 ≤ d.coinPool.toInt := by
    intro d member
    obtain ⟨other, found⟩ := lookup_of_mem_values member
    have pooled := solvent.coinPool other
    rwa [pool, found] at pooled
  cases found : s.dex.lookup token with
  | none =>
    have empty : (pool s token).coinPool.toInt = 0 := by
      rw [pool, found]
      rfl
    rw [empty]
    refine List.sum_nonneg fun x member => ?_
    obtain ⟨d, stored, rfl⟩ := List.mem_map.mp member
    exact nonneg d stored
  | some d =>
    have stored : pool s token = d := by
      rw [pool, found]
      rfl
    rw [stored]
    exact le_sumOf nonneg found

/-- What settling an order leaves: coins between the sender and the exchange, and the pool. -/
structure Settles (tx : Transaction) (q : DexQuote) (s t : Node σ) : Prop where
  exchange : balanceAt t.ledger dexAccountAddress = balanceAt s.ledger dexAccountAddress -
    if tx.sender = dexAccountAddress then 0 else q.coinAmount.toInt
  funded : Funded t.ledger
  total : nativeTotal t.ledger = nativeTotal s.ledger
  written : ∃ d, t.dex = s.dex.insert tx.contractAddress.byteValue d ∧
    d.coinPool = (pool s tx.contractAddress.byteValue).coinPool - q.coinAmount ∧
    d.tokenPool = (pool s tx.contractAddress.byteValue).tokenPool - q.tokenAmount

theorem settleDexOrder_settles (funded : Funded s.ledger) (above : -2 ^ 63 < q.coinAmount.toInt)
    (run : settleDexOrder env bl tx op q s = .ok () t) : Settles tx q s t := by
  obtain ⟨_, u, first, run⟩ := bind_eq_ok.mp run
  obtain ⟨_, v, second, run⟩ := bind_eq_ok.mp run
  have paid := addBalance_credits funded (onError_eq_ok.mp first)
  have received := addBalance_credits paid.funded (onError_eq_ok.mp second)
  rw [toInt_neg_of_fits above] at received
  have dex : v.dex = s.dex := received.dex.trans paid.dex
  rw [get_bind_run] at run
  split at run
  · cases run
    refine ⟨?_, received.funded, ?_, tradedDexAccount env v tx op q, ?_, ?_, ?_⟩
    · have whole := received.balances dexAccountAddress
      rw [if_pos rfl, paid.balances dexAccountAddress] at whole
      by_cases own : tx.sender = dexAccountAddress
      · rw [if_pos own.symm] at whole
        rw [if_pos own]
        change balanceAt v.ledger dexAccountAddress = _
        omega
      · rw [if_neg (Ne.symm own)] at whole
        rw [if_neg own]
        change balanceAt v.ledger dexAccountAddress = _
        omega
    · change nativeTotal v.ledger = _
      have := received.total
      have := paid.total
      omega
    · change v.dex.insert _ _ = _
      rw [dex]
    · rw [Int64.sub_eq_add_neg, pool, ← dex]
      rfl
    · rw [Int64.sub_eq_add_neg, pool, ← dex]
      rfl
  · cases run

theorem sub_nonneg_iff {a b : Int64} (nonneg : 0 ≤ a.toInt) (below : b.toInt ≤ a.toInt) :
    0 ≤ (a - b).toInt ↔ a.toInt - b.toInt < 2 ^ 63 := by
  have left := toInt_range a
  have right := toInt_range b
  have range := toInt_range (a - b)
  rcases toInt_sub_cases a b with exact | wrapped | wrapped <;> omega

/-- An order's amounts fit: its pool can hold the tokens it pays in, and an order that the account
of the exchange itself sends leaves the pools covered, as no coins come in. -/
structure AmountsFit (s : Node σ) (tx : Transaction) (q : DexQuote) : Prop where
  tokens : (pool s tx.contractAddress.byteValue).tokenPool.toInt - q.tokenAmount.toInt < 2 ^ 63
  own : tx.sender = dexAccountAddress →
    coinPools s - q.coinAmount.toInt ≤ balanceAt s.ledger dexAccountAddress

theorem Guarded.of_calm (calm : Calm s t) (guarded : Guarded s tx q) :
    q.coinAmount.toInt ≤ (pool t tx.contractAddress.byteValue).coinPool.toInt ∧
      q.tokenAmount.toInt ≤ (pool t tx.contractAddress.byteValue).tokenPool.toInt := by
  rw [calm.pool]
  exact ⟨guarded.coinPool, guarded.tokenPool⟩

theorem coinPool_exact (solvent : Solvent s) (guarded : Guarded s tx q) (token : AddressBytes)
    (named : token = tx.contractAddress.byteValue) :
    ((pool s token).coinPool - q.coinAmount).toInt =
      (pool s token).coinPool.toInt - q.coinAmount.toInt := by
  subst named
  have part := solvent.coinPool_le tx.contractAddress.byteValue
  have backed := solvent.backed
  have above := guarded.exchange.2
  have enough := guarded.coinPool
  exact toInt_sub_of_fits (by omega) (by omega)

theorem settles_solvent_iff (solvent : Solvent s) (calm : Calm s u) (guarded : Guarded s tx q)
    (settles : Settles tx q u t) : Solvent t ↔ AmountsFit u tx q := by
  obtain ⟨d, dex, coins, tokens⟩ := settles.written
  have before := calm.solvent solvent
  have exactCoins := coinPool_exact solvent guarded _ rfl
  rw [← calm.pool, ← coins] at exactCoins
  obtain ⟨enoughCoins, enoughTokens⟩ := guarded.of_calm calm
  have fits := sub_nonneg_iff (before.tokenPool tx.contractAddress.byteValue) enoughTokens
  rw [← tokens] at fits
  have pools (token : AddressBytes) :
      pool t token = if token = tx.contractAddress.byteValue then d else pool u token := by
    unfold pool
    rw [dex, lookup_insert_eq]
    split <;> rfl
  have sum : coinPools t = coinPools u - q.coinAmount.toInt := by
    unfold coinPools
    rw [dex, sumOf_insert, pool_eq_valueAt, exactCoins]
    omega
  have covered := before.backed
  have exchange := settles.exchange
  constructor
  · intro after
    refine ⟨fits.mp ?_, fun own => ?_⟩
    · have new := after.tokenPool tx.contractAddress.byteValue
      rwa [pools, if_pos rfl] at new
    · have new := after.backed
      rw [sum, exchange, if_pos own] at new
      omega
  · intro amounts
    refine ⟨fun token => ?_, fun token => ?_, ?_⟩
    · rw [pools]
      split
      · omega
      · exact before.coinPool token
    · rw [pools]
      split
      · exact fits.mpr amounts.tokens
      · exact before.tokenPool token
    · rw [sum, exchange]
      split
      case isTrue own =>
        have fit := amounts.own own
        omega
      case isFalse => omega

structure Order where
  block : Block
  source : TxPrefix
  tx : Transaction
  op : Nat

inductive Trace (env : Env σ) : Node σ → List (Order × Node σ) → Prop
  | nil (s : Node σ) : Trace env s []
  | cons {s t : Node σ} {o : Order} {rest : List (Order × Node σ)}
      (taken : evaluateDexOrder env o.block o.source o.tx o.op s = .ok () t)
      (later : Trace env t rest) : Trace env s ((o, t) :: rest)

def Fits (env : Env σ) (s : Node σ) (o : Order) : Prop :=
  ∀ q u, transferred env o.block s o.tx o.op = some (q, u) → AmountsFit u o.tx q

def Fitting (env : Env σ) : Node σ → List (Order × Node σ) → Prop
  | _, [] => True
  | s, (o, t) :: rest => Fits env s o ∧ Fitting env t rest

theorem order_solvent_iff (honest : TokenTransfers env) (funded : Funded s.ledger)
    (solvent : Solvent s) {o : Order}
    (taken : evaluateDexOrder env o.block o.source o.tx o.op s = .ok () t) :
    Funded t.ledger ∧ nativeTotal t.ledger = nativeTotal s.ledger ∧ (Solvent t ↔ Fits env s o) := by
  rcases evaluateDexOrder_cases honest taken with ⟨skipped, calm⟩ | ⟨q, u, db, moved, settled⟩
  · refine ⟨calm.funded funded, calm.total, fun _ => ?_, fun _ => calm.solvent solvent⟩
    intro q u moved
    rw [skipped] at moved
    cases moved
  · obtain ⟨calm, guarded⟩ := transferred_calm honest funded moved
    have above : -2 ^ 63 < q.coinAmount.toInt := by
      have balance := funded dexAccountAddress
      have bound := guarded.exchange.2
      omega
    have settles : Settles o.tx q u t := by
      have stored := settleDexOrder_settles (s := { u with db := db }) (calm.funded funded) above
        settled
      exact ⟨stored.exchange, stored.funded, stored.total, stored.written⟩
    refine ⟨settles.funded, settles.total.trans calm.total, ?_⟩
    rw [settles_solvent_iff solvent calm guarded settles]
    constructor
    · intro amounts q' u' again
      rw [moved] at again
      cases again
      exact amounts
    · exact fun fits => fits q u moved

/-- After each of any sequence of orders, on any tokens and with any amounts, every pool is
non-negative, the exchange's account covers the coins of all pools and the total of native
balances is what it was, just when every order that executes has amounts that fit. -/
theorem orders_keep_pools_iff (honest : TokenTransfers env) {steps : List (Order × Node σ)}
    (trace : Trace env s steps) (funded : Funded s.ledger) (solvent : Solvent s) :
    (∀ x ∈ steps, Solvent x.2 ∧ nativeTotal x.2.ledger = nativeTotal s.ledger) ↔
      Fitting env s steps := by
  induction trace with
  | nil s => simp [Fitting]
  | @cons s t o rest taken later ih =>
    obtain ⟨stays, total, step⟩ := order_solvent_iff honest funded solvent taken
    rw [List.forall_mem_cons, Fitting, ← step, total]
    constructor
    · rintro ⟨⟨first, -⟩, others⟩
      exact ⟨first, (ih stays first).mp (total ▸ others)⟩
    · rintro ⟨first, fitting⟩
      exact ⟨⟨first, rfl⟩, total ▸ (ih stays first).mpr fitting⟩

/-- Every order pays in one coin and `2 ^ 62` tokens of a contract that reports the same balances
whatever happens: the sender has `2 ^ 62` tokens and the exchange none. -/
def reportingToken : Env Unit :=
  { Env.permissive with
    dexQuote := fun _ _ _ _ => some ⟨-1, -4611686018427387904, 0⟩
    tokenBalance := fun _ _ holder =>
      if holder = dexAccountAddress then some 0 else some 4611686018427387904
    tokenKnown := fun _ _ => true
    evaluateSCDex := fun _ _ _ _ _ => ⟨(), [], .success emptyAddress []⟩ }

def trader : Node Unit where
  evm := ()
  ledger := ({} : Ledger).putAccount 0x55 { address := 0x55, balance := 100 }

def deposit : Order := ⟨.plain 6 100 [], .pool, .plain 0x55 0x77 1 1 5, 2⟩

theorem tokenTransfers_reportingToken : TokenTransfers reportingToken :=
  ⟨fun _ _ _ _ _ funded => funded, fun _ _ _ _ _ => rfl, fun _ _ _ _ _ => le_refl _⟩

theorem funded_trader : Funded trader.ledger := by
  intro a
  rw [trader, balanceAt_putAccount]
  split
  · decide
  · exact le_refl 0

theorem solvent_trader : Solvent trader :=
  ⟨fun _ => le_refl 0, fun _ => le_refl 0, by decide⟩

/-- One deposit fits. -/
theorem deposit_keeps_pools : ∃ t, Trace reportingToken trader [(deposit, t)] ∧
    0 < (pool t 0).tokenPool ∧ Solvent t ∧ nativeTotal t.ledger = nativeTotal trader.ledger := by
  obtain ⟨_, t, taken, deposited⟩ : ∃ r t, evaluateDexOrder reportingToken deposit.block
      deposit.source deposit.tx deposit.op trader = .ok r t ∧ 0 < (pool t 0).tokenPool := by
    decide +kernel
  have trace : Trace reportingToken trader [(deposit, t)] := .cons taken (.nil t)
  have fitting : Fitting reportingToken trader [(deposit, t)] := by
    refine ⟨fun q u moved => ?_, trivial⟩
    have checked : (transferred reportingToken deposit.block trader deposit.tx deposit.op).all
        (fun x => decide ((pool x.2 deposit.tx.contractAddress.byteValue).tokenPool.toInt -
          x.1.tokenAmount.toInt < 2 ^ 63)) = true := by decide +kernel
    rw [moved] at checked
    exact ⟨of_decide_eq_true checked, fun own => absurd own (by decide)⟩
  have kept := (orders_keep_pools_iff tokenTransfers_reportingToken trace funded_trader
    solvent_trader).mpr fitting (deposit, t) (List.mem_singleton.mpr rfl)
  exact ⟨t, trace, deposited, kept⟩

/-- The second deposit adds `2 ^ 62` tokens to `2 ^ 62`, which no word holds: the pool of tokens
becomes negative. -/
theorem second_deposit_wraps : ∃ t u, Trace reportingToken trader [(deposit, t), (deposit, u)] ∧
    (pool u 0).tokenPool.toInt = -2 ^ 63 ∧ Funded trader.ledger ∧ Solvent trader ∧
      ¬ Solvent u := by
  have evaluated : returnsWith (evaluateDexOrder reportingToken deposit.block deposit.source
      deposit.tx deposit.op trader) (fun _ t =>
        returnsWith (evaluateDexOrder reportingToken deposit.block deposit.source deposit.tx
          deposit.op t) (fun _ u => decide ((pool u 0).tokenPool.toInt = -2 ^ 63))) = true := by
    decide +kernel
  obtain ⟨_, t, first, again⟩ := returnsWith_iff.mp evaluated
  obtain ⟨_, u, second, wrapped⟩ := returnsWith_iff.mp again
  have least := of_decide_eq_true wrapped
  refine ⟨t, u, .cons first (.cons second (.nil u)), least, funded_trader, solvent_trader, ?_⟩
  intro solvent
  have nonneg := solvent.tokenPool 0
  omega

end QwidNode.Guarantees.DexLedger
