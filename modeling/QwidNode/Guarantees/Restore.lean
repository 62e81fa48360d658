import QwidNode.Source.Rewind

/-!
# What a rewind restores, and what it leaves when a load fails

Source: `services/helperReset.go:37-290`, with the undo of `core/stateDB`. The accounts are loaded
before the EVM goes back to its snapshot, which undoes what is left of the journal of the last
executed transaction, balances included.
-/
namespace QwidNode.Guarantees
open Source Lib Node StateAccount

/-- The EVM of the node keeps its state in the modelled state database. -/
structure UsesStateDB (env : Env StateAccount) : Prop where
  reverted : env.evmReverted = revertedTo
  loaded : env.evmLoaded = loadedOver

structure SamePersisted (a b : StateAccount) : Prop where
  accounts : a.accounts = b.accounts
  codes : a.codes = b.codes
  codeHashes : a.codeHashes = b.codeHashes
  statesHashes : a.statesHashes = b.statesHashes
  nonces : a.nonces = b.nonces
  states : a.states = b.states
  balances : a.balances = b.balances
  tokens : a.tokens = b.tokens

theorem samePersisted_loadedOver (memory stored : StateAccount) :
    SamePersisted (memory.loadedOver stored) stored :=
  ⟨rfl, rfl, rfl, rfl, rfl, rfl, rfl, rfl⟩

/-- The state in memory is the state stored for a height. The DEX and the EVM are stored when
they change, so theirs is the closest snapshot at or below it. -/
structure RestoredTo (db : Db StateAccount) (target : Int64) (t : Node StateAccount) : Prop where
  height : t.height = target
  accounts : ∃ stored, db.accountsAt.lookup target = some (.whole stored) ∧
    (∀ a, t.ledger.accounts.lookup a = stored.1.lookup a) ∧ t.ledger.recoveryBinds = stored.2
  staking : ∃ stored, db.stakingAt.lookup target = some (some stored) ∧
    t.ledger.staking = stored.1 ∧ t.ledger.stakeChangedAt = stored.2
  dex : ∃ stored, db.closestDex target = some (.whole stored) ∧ t.dex = stored
  evm : ∃ stored, db.closestEvm target = some (.whole stored) ∧ SamePersisted t.evm stored

def leftover (sa : StateAccount) (target : Int64) : List ChangeEntry :=
  sa.journal.drop (sa.lastNum target)

/-- Whatever balance the undo writes is the one the snapshot of the height has. -/
def UndoAgrees (s : Node StateAccount) (target : Int64) : Prop :=
  ∀ stored, s.db.accountsAt.lookup target = some (.whole stored) →
    ∀ a prev, undoneBalance a (leftover s.evm target) = some prev →
      ∃ acc, stored.1.lookup a = some acc ∧ acc.balance = prev ∧ acc.address = a

variable {env : Env StateAccount} {s t : Node StateAccount} {height target : Int64}

theorem revertedTo_accounts (sa : StateAccount) (l : Ledger) (target : Int64) (a : AddressBytes) :
    (revertedTo target sa l).2.accounts.lookup a =
      match undoneBalance a (leftover sa target) with
      | none => l.accounts.lookup a
      | some prev =>
        some { (l.account? a).getD { address := 0 } with balance := prev, address := a } :=
  revertEntries_lookup _ sa l a

theorem revertedTo_beside (sa : StateAccount) (l : Ledger) (target : Int64) :
    l.SameBeside (revertedTo target sa l).2 :=
  revertEntries_beside _ sa l

theorem rewritten_eq_iff (found : Option Account) (a : AddressBytes) (prev : Int64) :
    some { found.getD { address := 0 } with balance := prev, address := a } = found ↔
      ∃ acc, found = some acc ∧ acc.balance = prev ∧ acc.address = a := by
  cases found with
  | none => simp
  | some acc =>
    constructor
    · intro same
      have equal := Option.some.inj same
      exact ⟨acc, rfl, (congrArg Account.balance equal).symm,
        (congrArg Account.address equal).symm⟩
    · rintro ⟨acc', same, rfl, rfl⟩
      cases same
      rfl

theorem revertedTo_same_iff (sa : StateAccount) (l : Ledger) (target : Int64) :
    (∀ a, (revertedTo target sa l).2.accounts.lookup a = l.accounts.lookup a) ↔
      ∀ a prev, undoneBalance a (leftover sa target) = some prev →
        ∃ acc, l.accounts.lookup a = some acc ∧ acc.balance = prev ∧ acc.address = a := by
  refine forall_congr' fun a => ?_
  rw [revertedTo_accounts]
  cases undoneBalance a (leftover sa target) with
  | none => simp
  | some prev =>
    dsimp only
    rw [Ledger.account?, rewritten_eq_iff]
    constructor
    · rintro there prev' same
      cases same
      exact there
    · exact fun there => there prev rfl

theorem reset_rewound {env : Env StateAccount} (uses : UsesStateDB env) {s t : Node StateAccount}
    {height target : Int64} {dexLoaded evmLoaded : Bool}
    (run : s.reset env height = (t, .rewound target dexLoaded evmLoaded)) :
    ∃ accounts staking, s.db.accountsAt.lookup target = some (.whole accounts) ∧
      s.db.stakingAt.lookup target = some (some staking) ∧
      RewoundTo env { s with ledger := loadedLedger accounts staking } target dexLoaded evmLoaded t ∧
      t.ledger = (revertedTo target s.evm (loadedLedger accounts staking)).2 ∧
      (loadedLedger accounts staking).SameBeside t.ledger := by
  rcases s.reset_cases env height with ⟨stopped, -⟩ | ⟨found, accounts, staking, -, -, -, whole,
    shards, resumed⟩
  · rw [run] at stopped
    rcases stopped with h | h | h <;> cases h
  · obtain ⟨dexFlag, evmFlag, outcome, rewound⟩ :=
      Node.rewindTo_spec env { s with ledger := loadedLedger accounts staking } found
    rw [← resumed, run] at outcome rewound
    cases outcome
    have ledger := rewound.ledger
    rw [uses.reverted] at ledger
    exact ⟨accounts, staking, whole, shards, rewound, ledger, ledger ▸ revertedTo_beside _ _ _⟩

/-- For every node, every history left in the journal of its EVM and every requested height: a
rewind that reaches a target with all loads successful has restored the state stored for it
exactly when the undo agrees with the stored accounts. -/
theorem rewind_restores_iff (env : Env StateAccount) (uses : UsesStateDB env)
    (s t : Node StateAccount) (height target : Int64)
    (run : s.reset env height = (t, .rewound target true true)) :
    RestoredTo s.db target t ↔ UndoAgrees s target := by
  obtain ⟨accounts, staking, whole, shards, rewound, ledger, beside⟩ := reset_rewound uses run
  obtain ⟨dexStored, dexFound, dexEq⟩ := loadDexAccounts_true rewound.dexFlag.symm
  obtain ⟨evmStored, evmFound, evmEq⟩ := rewound.evm rfl
  rw [uses.loaded] at evmEq
  have agree : UndoAgrees s target ↔
      ∀ a, t.ledger.accounts.lookup a = accounts.1.lookup a := by
    rw [ledger]
    refine Iff.trans ?_ (revertedTo_same_iff s.evm (loadedLedger accounts staking) target).symm
    constructor
    · exact fun undo => undo accounts whole
    · intro undo stored same
      cases whole.symm.trans same
      exact undo
  rw [agree]
  constructor
  · rintro ⟨-, ⟨stored, same, restored, -⟩, -, -, -⟩
    cases whole.symm.trans same
    exact restored
  · intro restored
    exact ⟨rewound.height, ⟨accounts, whole, restored, beside.1⟩,
      ⟨staking, shards, beside.2.1, beside.2.2⟩,
      ⟨dexStored, dexFound, rewound.dex.trans dexEq⟩,
      ⟨evmStored, evmFound, evmEq ▸ samePersisted_loadedOver _ _⟩⟩

def twoAccounts : Ledger where
  accounts := (∅ : FinMap AddressBytes Account).insert 0xB1 { balance := 10, address := 0xB1 }
    |>.insert 0xB0 { balance := 10, address := 0xB0 }

def runCalls : List Int → StateAccount × Ledger → StateAccount × Ledger
  | [], state => state
  | value :: rest, state =>
    runCalls rest (state.1.resetTransient.transfer state.2 0xB0 0xB1 value)

/-- A node at height two, whose second block called the contract `0xB1` with the given values,
with the snapshots of the first block. -/
def calledNode (values : List Int) : Node StateAccount :=
  let called := runCalls values ({}, twoAccounts)
  let first : Block := { Block.plain 1 20 [] with blockHash := 1 }
  { ledger := called.2
    evm := { called.1 with
      heightToSnapShotNum := (∅ : FinMap Int64 Nat).insert 2 called.1.journal.length }
    height := 2
    db :=
      { blocks := (∅ : FinMap Hash Block).insert 1 first
        blockByHeight := (∅ : FinMap Int64 Hash).insert 1 1
        accountsAt := AList.insert (1 : Int64) (.whole (twoAccounts.accounts, ∅)) ∅
        stakingAt := AList.insert (1 : Int64) (some (∅, ∅)) ∅
        dexAt := AList.insert (1 : Int64) (.whole ∅) ∅
        evmAt := AList.insert (1 : Int64) (.whole {}) ∅
        accountsLast := some 1, stakingLast := some 1, dexLast := some 1 } }

def callEnv : Env StateAccount := Env.permissive.overStateDB

theorem callEnv_usesStateDB : UsesStateDB callEnv := ⟨rfl, rfl⟩

/-- Two calls in the abandoned block. The journal holds the second one, whose undo writes the
balances between the two calls over the accounts just loaded. -/
theorem leftover_undo_overwrites : ∃ t,
    (calledNode [3, 2]).reset callEnv 1 = (t, .rewound 1 true true) ∧
      ¬ RestoredTo (calledNode [3, 2]).db 1 t := by
  refine ⟨((calledNode [3, 2]).reset callEnv 1).1, Prod.ext rfl (by decide +kernel), ?_⟩
  intro restored
  obtain ⟨stored, same, accounts, -⟩ := restored.accounts
  have snapshot : stored = (twoAccounts.accounts, ∅) := by
    have found : (calledNode [3, 2]).db.accountsAt.lookup 1 =
        some (.whole (twoAccounts.accounts, ∅)) := rfl
    cases found.symm.trans same
    rfl
  have balance := congrArg (Option.map Account.balance) (accounts 0xB0)
  rw [snapshot] at balance
  revert balance
  decide +kernel

/-- One call: its undo writes the balances of the snapshot. -/
theorem single_call_restored :
    RestoredTo (calledNode [3]).db 1 ((calledNode [3]).reset callEnv 1).1 := by
  have left : leftover (calledNode [3]).evm 1 = [.balance 0xB0 10, .balance 0xB1 10] := by
    decide +kernel
  refine (rewind_restores_iff callEnv callEnv_usesStateDB _ _ 1 1
    (Prod.ext rfl (by decide +kernel))).mpr ?_
  intro stored same a prev undone
  have found : (calledNode [3]).db.accountsAt.lookup 1 =
      some (.whole (twoAccounts.accounts, ∅)) := rfl
  cases found.symm.trans same
  rw [left] at undone
  simp only [undoneBalance] at undone
  split at undone
  · next first =>
    cases undone
    exact ⟨{ balance := 10, address := 0xB0 }, first ▸ rfl, rfl, first⟩
  · split at undone
    · next second =>
      cases undone
      exact ⟨{ balance := 10, address := 0xB1 }, second ▸ rfl, rfl, second⟩
    · cases undone

/-- No height a rewind may land on has both an account snapshot and a staking checkpoint. -/
def NothingRestorable (db : Db StateAccount) (height : Int64) : Prop :=
  ∀ h, 0 ≤ h → h ≤ rewindHeight height → db.restorable h = false

/-- For every database: without a height to land on, a rewind changes nothing; if the search, the
account load or the staking load fails, it has written the account and staking maps at most; and
once they succeed it completes, whether or not the DEX and EVM loads do. -/
theorem failed_loads_of_rewind (env : Env StateAccount) (uses : UsesStateDB env)
    (s t : Node StateAccount) (height : Int64) (outcome : ResetOutcome)
    (run : s.reset env height = (t, outcome)) :
    (NothingRestorable s.db height → t = s ∧ outcome = .noTarget) ∧
    (outcome = .noTarget ∨ outcome = .accountsFail ∨ outcome = .stakingFail →
      ∃ l, t = { s with ledger := l }) ∧
    ∀ target dexLoaded evmLoaded, outcome = .rewound target dexLoaded evmLoaded →
      t.height = target ∧
      (∃ accounts, s.db.accountsAt.lookup target = some (.whole accounts) ∧
        t.ledger.recoveryBinds = accounts.2 ∧
        ∀ a, undoneBalance a (leftover s.evm target) = none →
          t.ledger.accounts.lookup a = accounts.1.lookup a) ∧
      (∃ staking, s.db.stakingAt.lookup target = some (some staking) ∧
        t.ledger.staking = staking.1 ∧ t.ledger.stakeChangedAt = staking.2) ∧
      (s.db.closestDex target = none → t.dex = s.dex) := by
  refine ⟨fun bare => ?_, fun stopped => ?_, ?_⟩
  · have searched : consistentRewindTarget s (rewindHeight height) = (s, none) :=
      rewindTarget_none _ s fun m less =>
        bare _ (visited_between less).1 (visited_between less).2
    have unchanged : s.reset env height = (s, .noTarget) := by
      unfold Node.reset
      rw [searched]
    rw [run] at unchanged
    exact ⟨congrArg Prod.fst unchanged, congrArg Prod.snd unchanged⟩
  · rcases s.reset_cases env height with ⟨-, only⟩ | ⟨found, accounts, staking, -, -, -, -, -,
      resumed⟩
    · rwa [run] at only
    · obtain ⟨dexLoaded, evmLoaded, rewound, -⟩ :=
        Node.rewindTo_spec env { s with ledger := loadedLedger accounts staking } found
      rw [← resumed, run] at rewound
      subst rewound
      rcases stopped with h | h | h <;> cases h
  · rintro target dexLoaded evmLoaded rfl
    obtain ⟨accounts, staking, whole, shards, rewound, ledger, beside⟩ := reset_rewound uses run
    refine ⟨rewound.height, ⟨accounts, whole, beside.1, fun a untouched => ?_⟩,
      ⟨staking, shards, beside.2.1, beside.2.2⟩, fun missing => ?_⟩
    · rw [ledger, revertedTo_accounts, untouched]
      rfl
    · exact rewound.dex.trans (loadDexAccounts_missing missing)

/-- The DEX snapshot of the target is missing: the rewind goes on, and the height, the accounts
and the stakes are those of the target. -/
def dexlessNode : Node StateAccount :=
  { calledNode [3] with db := { (calledNode [3]).db with dexAt := ∅, dexLast := none } }

theorem rewind_without_dex_snapshot : ∃ t,
    dexlessNode.reset callEnv 1 = (t, .rewound 1 false true) ∧
      dexlessNode.height ≠ t.height ∧
      dexlessNode.ledger.accounts.lookup 0xB0 ≠ t.ledger.accounts.lookup 0xB0 := by
  refine ⟨(dexlessNode.reset callEnv 1).1, Prod.ext rfl (by decide +kernel), ?_⟩
  decide +kernel

/-- An account snapshot that breaks off: the rewind stops with its height, although the decoder
has emptied the live accounts. -/
def truncatedNode : Node StateAccount :=
  { calledNode [3] with db := { (calledNode [3]).db with
    accountsAt := AList.insert (1 : Int64) (.broken fun live => (∅, live.2)) ∅ } }

theorem truncated_accounts_stop : ∃ l,
    (truncatedNode.reset callEnv 1).1 = { truncatedNode with ledger := l } :=
  (failed_loads_of_rewind callEnv callEnv_usesStateDB truncatedNode _ 1 .accountsFail
    (Prod.ext rfl (by decide +kernel))).2.1 (.inr (.inl rfl))

end QwidNode.Guarantees
