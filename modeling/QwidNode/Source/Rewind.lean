import QwidNode.Source.ApplyFrame
import QwidNode.Source.StateDB

/-!
# What a rewind does

The inversion of `ResetAccountsAndBlocksSyncLocked`. The search for a target and the loads
of accounts and stakes write the ledger and nothing else, and a rewind may stop there; one
that goes on has loaded whole snapshots of its target, undoes the journal of the EVM over
them and removes the blocks above the target.
-/
namespace QwidNode.Source
open Lib Word
variable {σ : Type} {env : Env σ}
variable {s t : Node σ} {height target ha hsa hd : Int64}

namespace Node

def LedgerOnly (s t : Node σ) : Prop := ∃ l, t = { s with ledger := l }

theorem LedgerOnly.refl (s : Node σ) : LedgerOnly s s := ⟨s.ledger, rfl⟩

theorem LedgerOnly.trans {s t u : Node σ} (first : LedgerOnly s t) (second : LedgerOnly t u) :
    LedgerOnly s u := by
  obtain ⟨l, rfl⟩ := first
  obtain ⟨m, rfl⟩ := second
  exact ⟨m, rfl⟩

theorem LedgerOnly.db (only : LedgerOnly s t) : t.db = s.db := by
  obtain ⟨l, rfl⟩ := only
  rfl

theorem ledgerOnly_loadAccounts (s : Node σ) (height : Int64) :
    LedgerOnly s (s.loadAccounts height).1 := by
  unfold loadAccounts
  split
  · exact .refl s
  · exact ⟨_, rfl⟩

theorem ledgerOnly_loadStakingAccounts (s : Node σ) (height : Int64) :
    LedgerOnly s (s.loadStakingAccounts height).1 := by
  unfold loadStakingAccounts
  split
  · exact ⟨_, rfl⟩
  · exact .refl s

theorem loadAccounts_true (run : s.loadAccounts height = (t, true)) :
    ∃ stored, s.db.accountsAt.lookup height = some (.whole stored) ∧
      t = { s with ledger :=
        { s.ledger with accounts := stored.1, recoveryBinds := stored.2 } } := by
  unfold loadAccounts at run
  cases found : s.db.accountsAt.lookup height with
  | none =>
    rw [found] at run
    cases run
  | some snapshot =>
    rw [found] at run
    cases snapshot with
    | whole stored =>
      cases run
      exact ⟨stored, rfl, rfl⟩
    | broken write => cases run

theorem loadStakingAccounts_true (run : s.loadStakingAccounts height = (t, true)) :
    ∃ stored, s.db.stakingAt.lookup height = some (some stored) ∧
      t = { s with ledger :=
        { s.ledger with staking := stored.1, stakeChangedAt := stored.2 } } := by
  unfold loadStakingAccounts at run
  cases found : s.db.stakingAt.lookup height with
  | none =>
    rw [found] at run
    cases run
  | some shards =>
    rw [found] at run
    cases shards with
    | none => cases run
    | some stored =>
      cases run
      exact ⟨stored, rfl, rfl⟩

end Node

open Node

theorem ledgerOnly_supplyInvariantDelta (s : Node σ) (height : Int64) :
    LedgerOnly s (supplyInvariantDelta s height).1 := by
  unfold supplyInvariantDelta
  have accounts := s.ledgerOnly_loadAccounts height
  cases s.db.loadBlock height with
  | none => exact .refl s
  | some bl =>
    cases first : s.loadAccounts height with
    | mk t ok =>
      rw [first] at accounts
      cases ok with
      | false => simpa only [first] using accounts
      | true =>
        have stakes := t.ledgerOnly_loadStakingAccounts height
        cases second : t.loadStakingAccounts height with
        | mk u ok' =>
          rw [second] at stakes
          have both := accounts.trans stakes
          cases ok' with
          | false => simpa only [first, second] using both
          | true => simpa only [first, second] using both

theorem ledgerOnly_rewindTarget (floor : Int64) (n : Nat) (s : Node σ) :
    LedgerOnly s (rewindTarget floor n s).1 := by
  induction n generalizing s with
  | zero => exact .refl s
  | succ n ih =>
    unfold rewindTarget
    dsimp only
    split
    · exact ih s
    · split
      · exact .refl s
      · have audited := ledgerOnly_supplyInvariantDelta s (Int64.ofNat n)
        cases audit : supplyInvariantDelta s (Int64.ofNat n) with
        | mk t result =>
          rw [audit] at audited
          cases result with
          | none => exact audited
          | some delta =>
            dsimp only
            split
            · exact audited
            · exact audited.trans (ih t)

theorem rewindTarget_some {floor target : Int64} {n : Nat}
    (run : rewindTarget floor n s = (t, some target)) :
    s.db.restorable target = true ∧ ∃ m < n, target = Int64.ofNat m := by
  induction n generalizing s with
  | zero => cases run
  | succ n ih =>
    have lower : ∀ {u : Node σ}, LedgerOnly s u →
        rewindTarget floor n u = (t, some target) →
        s.db.restorable target = true ∧ ∃ m < n + 1, target = Int64.ofNat m := by
      intro u only below
      obtain ⟨stored, m, less, equal⟩ := ih below
      exact ⟨only.db ▸ stored, m, by omega, equal⟩
    unfold rewindTarget at run
    dsimp only at run
    split at run
    · exact lower (.refl s) run
    · next stored =>
      have here : s.db.restorable (Int64.ofNat n) = true := by simpa using stored
      split at run
      · cases run
        exact ⟨here, n, by omega, rfl⟩
      · have audited := ledgerOnly_supplyInvariantDelta s (Int64.ofNat n)
        cases audit : supplyInvariantDelta s (Int64.ofNat n) with
        | mk u result =>
          rw [audit] at run audited
          cases result with
          | none =>
            cases run
            exact ⟨here, n, by omega, rfl⟩
          | some delta =>
            dsimp only at run
            split at run
            · cases run
              exact ⟨here, n, by omega, rfl⟩
            · exact lower audited run

theorem rewindHeight_nonneg (height : Int64) : 0 ≤ rewindHeight height := by
  unfold rewindHeight
  split
  · exact Int64.le_refl 0
  · next above => exact Int64.not_lt.mp above

theorem visited_between {m : Nat} (less : m < (rewindHeight height).toNatClampNeg + 1) :
    0 ≤ Int64.ofNat m ∧ Int64.ofNat m ≤ rewindHeight height := by
  have range := toInt_range (rewindHeight height)
  have nonneg := rewindHeight_nonneg height
  have clamp : (rewindHeight height).toNatClampNeg = (rewindHeight height).toInt.toNat := rfl
  rw [le_iff, toInt_zero] at nonneg
  have exact : (Int64.ofNat m).toInt = m := Int64.toInt_ofNat_of_lt (by omega)
  simp only [le_iff, toInt_zero, exact]
  omega

theorem rewindTarget_none (floor : Int64) {n : Nat} (s : Node σ)
    (bare : ∀ m < n, s.db.restorable (Int64.ofNat m) = false) :
    rewindTarget floor n s = (s, none) := by
  induction n with
  | zero => rfl
  | succ n ih =>
    unfold rewindTarget
    dsimp only
    rw [if_pos (bare n (by omega))]
    exact ih fun m less => bare m (by omega)

def loadedLedger (accounts : FinMap AddressBytes Account × FinMap Hash RecoveryBind)
    (staking : FinMap (Nat × AddressBytes) StakingAccount × FinMap Nat Int64) : Ledger where
  accounts := accounts.1
  recoveryBinds := accounts.2
  staking := staking.1
  stakeChangedAt := staking.2

theorem Node.reset_cases (env : Env σ) (s : Node σ) (height : Int64) :
    ((s.reset env height).2 = .noTarget ∨ (s.reset env height).2 = .accountsFail ∨
        (s.reset env height).2 = .stakingFail) ∧ LedgerOnly s (s.reset env height).1 ∨
    ∃ target accounts staking, (consistentRewindTarget s (rewindHeight height)).2 = some target ∧
      s.db.restorable target = true ∧
      (0 ≤ target ∧ target ≤ rewindHeight height) ∧
      s.db.accountsAt.lookup target = some (.whole accounts) ∧
      s.db.stakingAt.lookup target = some (some staking) ∧
      s.reset env height =
        { s with ledger := loadedLedger accounts staking }.rewindTo env target := by
  have searched : LedgerOnly s (consistentRewindTarget s (rewindHeight height)).1 :=
    ledgerOnly_rewindTarget _ _ s
  unfold reset
  cases search : consistentRewindTarget s (rewindHeight height) with
  | mk t found =>
    rw [search] at searched
    cases found with
    | none => exact .inl ⟨.inl rfl, searched⟩
    | some target =>
      obtain ⟨stored, m, less, equal⟩ := rewindTarget_some search
      have visited : 0 ≤ target ∧ target ≤ rewindHeight height :=
        equal ▸ visited_between less
      have accountsOnly := t.ledgerOnly_loadAccounts target
      cases first : t.loadAccounts target with
      | mk u ok =>
        rw [first] at accountsOnly
        cases ok with
        | false =>
          simp only [first]
          exact .inl ⟨.inr (.inl trivial), searched.trans accountsOnly⟩
        | true =>
          have stakesOnly := u.ledgerOnly_loadStakingAccounts target
          cases second : u.loadStakingAccounts target with
          | mk v ok' =>
            rw [second] at stakesOnly
            cases ok' with
            | false =>
              simp only [first, second]
              exact .inl ⟨.inr (.inr trivial), searched.trans (accountsOnly.trans stakesOnly)⟩
            | true =>
              simp only [first, second]
              obtain ⟨l, rfl⟩ := searched
              obtain ⟨accounts, whole, rfl⟩ := loadAccounts_true first
              obtain ⟨staking, shards, rfl⟩ := loadStakingAccounts_true second
              exact .inr ⟨target, accounts, staking, rfl, stored, visited, whole, shards, rfl⟩

theorem Node.loadDexAccounts_eq (s : Node σ) (height : Int64) :
    ∃ d loaded, s.loadDexAccounts height = ({ s with dex := d }, loaded) := by
  unfold loadDexAccounts
  split
  · exact ⟨_, _, rfl⟩
  · exact ⟨_, _, rfl⟩

theorem Node.loadDexAccounts_true (loaded : (s.loadDexAccounts height).2 = true) :
    ∃ stored, s.db.closestDex height = some (.whole stored) ∧
      (s.loadDexAccounts height).1.dex = stored := by
  unfold loadDexAccounts at loaded ⊢
  cases found : s.db.closestDex height with
  | none => simp [found] at loaded
  | some snapshot =>
    cases snapshot with
    | whole stored => exact ⟨stored, rfl, rfl⟩
    | broken write => simp [found, Stored.load] at loaded

theorem Node.loadDexAccounts_missing (missing : s.db.closestDex height = none) :
    (s.loadDexAccounts height).1.dex = s.dex := by
  unfold loadDexAccounts
  rw [missing]

theorem Node.revertVMToBlockHeight_eq (env : Env σ) (s : Node σ) (height : Int64) :
    ∃ e loaded, s.revertVMToBlockHeight env height =
        ({ s with evm := e, ledger := (env.evmReverted height s.evm s.ledger).2,
                  db := s.db.removeEvmAbove height }, loaded) ∧
      (loaded = true → ∃ stored, s.db.closestEvm height = some (.whole stored) ∧
        e = env.evmLoaded (env.evmReverted height s.evm s.ledger).1 stored) := by
  unfold revertVMToBlockHeight loadEvmAtOrBelow
  dsimp only
  cases found : s.db.closestEvm height with
  | none => exact ⟨_, _, rfl, fun loaded => by cases loaded⟩
  | some snapshot =>
    cases snapshot with
    | whole stored => exact ⟨_, _, rfl, fun _ => ⟨stored, rfl, rfl⟩⟩
    | broken write => exact ⟨_, _, rfl, fun loaded => by cases loaded⟩

theorem downTo_keeps {α β : Type} {f : α → Int64 → α} (part : α → β)
    (step : ∀ a h, part (f a h) = part a) (height top : Int64) (a : α) :
    part (downTo f height top a) = part a := by
  unfold downTo
  generalize (List.range (top.toInt - height.toInt).toNat).map (fun i => top - Int64.ofNat i) =
    heights
  induction heights generalizing a with
  | nil => rfl
  | cons h rest ih => rw [List.foldl_cons, ih, step]

theorem Db.removeBlockFromDB_snapshots (db : Db σ) (height : Int64) :
    ((db.removeBlockFromDB height).accountsAt, (db.removeBlockFromDB height).stakingAt) =
      (db.accountsAt, db.stakingAt) := by
  unfold removeBlockFromDB
  dsimp only
  cases db.loadBlock height with
  | none =>
    dsimp only
    split
    · rfl
    · rfl
  | some block =>
    dsimp only
    split
    · rfl
    · rfl

theorem Db.accountsAt_removeSnapshotsAbove {db db' : Db σ} (same : db.accountsAt = db'.accountsAt) :
    ∃ top, (db.removeSnapshotsAbove height ha hsa hd).accountsAt =
      downTo (fun m h => m.erase h) height top db'.accountsAt :=
  ⟨ha, by rw [← same]; rfl⟩

theorem Db.stakingAt_removeSnapshotsAbove {db db' : Db σ} (same : db.stakingAt = db'.stakingAt) :
    ∃ top, (db.removeSnapshotsAbove height ha hsa hd).stakingAt =
      downTo (fun m h => m.erase h) height top db'.stakingAt :=
  ⟨hsa, by rw [← same]; rfl⟩

structure RewoundTo (env : Env σ) (s : Node σ) (target : Int64) (dexLoaded evmLoaded : Bool)
    (t : Node σ) : Prop where
  ledger : t.ledger = (env.evmReverted target s.evm s.ledger).2
  dex : t.dex = (s.loadDexAccounts target).1.dex
  dexFlag : dexLoaded = (s.loadDexAccounts target).2
  evm : evmLoaded = true → ∃ stored, s.db.closestEvm target = some (.whole stored) ∧
    t.evm = env.evmLoaded (env.evmReverted target s.evm s.ledger).1 stored
  height : t.height = target
  blocks : t.db.blocks = (downTo Db.removeBlockFromDB target s.db.lastHeightStoredInBlocks
    (s.db.removeEvmAbove target)).blocks
  blockByHeight : t.db.blockByHeight =
    (downTo Db.removeBlockFromDB target s.db.lastHeightStoredInBlocks
      (s.db.removeEvmAbove target)).blockByHeight
  includedTx : t.db.includedTx =
    (downTo Db.removeBlockFromDB target s.db.lastHeightStoredInBlocks
      (s.db.removeEvmAbove target)).includedTx
  confirmedTx : t.db.confirmedTx =
    (downTo Db.removeBlockFromDB target s.db.lastHeightStoredInBlocks
      (s.db.removeEvmAbove target)).confirmedTx
  accountsAt : ∃ top, t.db.accountsAt = downTo (fun m h => m.erase h) target top s.db.accountsAt
  stakingAt : ∃ top, t.db.stakingAt = downTo (fun m h => m.erase h) target top s.db.stakingAt

theorem Node.rewindTo_eq {s u : Node σ} {d : FinMap AddressBytes DexAccount}
    {dexLoaded evmLoaded : Bool} (dex : s.loadDexAccounts target = ({ s with dex := d }, dexLoaded))
    (vm : Node.revertVMToBlockHeight env { s with dex := d } target = (u, evmLoaded)) :
    ∃ ha hsa hd, s.rewindTo env target =
      (let w := { u with
          db := downTo Db.removeBlockFromDB target s.db.lastHeightStoredInBlocks u.db
        }.undoPendingPoolsAbove target
       ({ w with db := w.db.removeSnapshotsAbove target ha hsa hd, height := target },
        .rewound target dexLoaded evmLoaded)) := by
  unfold rewindTo
  rw [dex]
  dsimp only
  rw [vm]
  exact ⟨_, _, _, rfl⟩

theorem RewoundTo.of_undone {s v w : Node σ} {dexLoaded evmLoaded : Bool} (undone : PoolFrame v w)
    (ledger : v.ledger = (env.evmReverted target s.evm s.ledger).2)
    (dex : v.dex = (s.loadDexAccounts target).1.dex)
    (dexFlag : dexLoaded = (s.loadDexAccounts target).2)
    (evm : evmLoaded = true → ∃ stored, s.db.closestEvm target = some (.whole stored) ∧ v.evm =
      env.evmLoaded (env.evmReverted target s.evm s.ledger).1 stored)
    (db : v.db = downTo Db.removeBlockFromDB target s.db.lastHeightStoredInBlocks
      (s.db.removeEvmAbove target)) :
    RewoundTo env s target dexLoaded evmLoaded
      { w with db := w.db.removeSnapshotsAbove target ha hsa hd, height := target } := by
  have chain := undone.chain
  rw [db] at chain
  have snapshots : (v.db.accountsAt, v.db.stakingAt) = (s.db.accountsAt, s.db.stakingAt) := by
    rw [db]
    exact downTo_keeps (fun db : Db σ => (db.accountsAt, db.stakingAt))
      Db.removeBlockFromDB_snapshots target s.db.lastHeightStoredInBlocks (s.db.removeEvmAbove target)
  rw [Prod.mk.injEq] at snapshots
  exact
    { ledger := undone.ledger.trans ledger
      dex := undone.dex.trans dex
      dexFlag := dexFlag
      evm := fun loaded => by
        obtain ⟨stored, found, equal⟩ := evm loaded
        exact ⟨stored, found, undone.evm.trans equal⟩
      height := rfl
      blocks := congrArg (·.blocks) chain
      blockByHeight := congrArg (·.blockByHeight) chain
      includedTx := congrArg (·.includedTx) chain
      confirmedTx := congrArg (·.confirmedTx) chain
      accountsAt := Db.accountsAt_removeSnapshotsAbove
        ((congrArg (·.accountsAt) undone.chain).trans snapshots.1)
      stakingAt := Db.stakingAt_removeSnapshotsAbove
        ((congrArg (·.stakingAt) undone.chain).trans snapshots.2) }

theorem Node.rewindTo_spec (env : Env σ) (s : Node σ) (target : Int64) :
    ∃ dexLoaded evmLoaded, (s.rewindTo env target).2 = .rewound target dexLoaded evmLoaded ∧
      RewoundTo env s target dexLoaded evmLoaded (s.rewindTo env target).1 := by
  obtain ⟨d, dexLoaded, first⟩ := s.loadDexAccounts_eq target
  obtain ⟨e, evmLoaded, second, evm⟩ :=
    Node.revertVMToBlockHeight_eq env { s with dex := d } target
  obtain ⟨ha, hsa, hd, whole⟩ := Node.rewindTo_eq first second
  rw [whole]
  refine ⟨dexLoaded, evmLoaded, rfl, ?_⟩
  exact .of_undone (Node.poolFrame_undoJournalKeys _ _) rfl (by rw [first]) (by rw [first]) evm rfl

end QwidNode.Source
