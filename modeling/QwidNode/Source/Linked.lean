import QwidNode.Guarantees.HeightSearch
import QwidNode.Lib.ChainStore
import QwidNode.Source.Accepted
import QwidNode.Source.CheckTraversal
import QwidNode.Source.Rewind

/-!
# The stored chain under the block handler

The two block entries of the database are a chain store. A rewind removes blocks from the top,
`StoreBlock` adds one on its parent, and nothing else touches them; so the block handler keeps
the chain linked, whatever it receives.
-/
namespace QwidNode.Source
open Lib Word
variable {σ : Type} {env : Env σ} {s t : Node σ} {top : Int64}

def blockView (env : Env σ) : BlockView Hash Block where
  height := Block.height
  hash := Block.blockHash
  parent := Block.previousHash
  computed := env.calcBlockHash

def Db.chain (db : Db σ) : ChainStore Hash Block := ⟨db.blocks, db.blockByHeight⟩

theorem Db.loadBlock_eq (db : Db σ) (height : Int64) : db.loadBlock height = db.chain.load height :=
  rfl

/-- What is assumed of block hashes: `CheckBaseBlock` compares them, the fee is not hashed, and
blocks of different heights do not collide. -/
structure HashBinds (env : Env σ) : Prop where
  checked : ∀ b p, env.baseBlockValid b p = true → env.calcBlockHash b = b.blockHash
  fee : ∀ b fee, env.calcBlockHash { b with blockFee := fee } = env.calcBlockHash b
  height : (blockView env).Binds

/-- The stored chain is linked up to a top that the node's height is not below. The bound keeps
the last-height search from overflowing. -/
def Linked (env : Env σ) (s : Node σ) : Prop :=
  ∃ top, s.db.chain.LinkedTo (blockView env) top ∧ top.toInt < 2 ^ 62 ∧ top ≤ s.height

theorem StorageKept.chain (kept : StorageKept s t) : t.db.chain = s.db.chain := by
  change t.db.storedPart.chain = s.db.storedPart.chain
  rw [kept.stored]

theorem Linked.of_kept (linked : Linked env s) (kept : StorageKept s t) : Linked env t := by
  obtain ⟨top, chain, bound, height⟩ := linked
  exact ⟨top, kept.chain ▸ chain, bound, kept.height ▸ height⟩

theorem Db.chain_removeBlockFromDB (db : Db σ) (height : Int64) :
    (db.removeBlockFromDB height).chain = db.chain.remove height := by
  have index : db.chain.byHeight.lookup height = db.blockByHeight.lookup height := rfl
  have unmarked (hashes : List Hash) : (db.unmarkIncluded hashes).blockByHeight.lookup height =
      db.blockByHeight.lookup height := rfl
  unfold Db.removeBlockFromDB ChainStore.remove
  rw [index]
  cases db.loadBlock height with
  | none =>
    dsimp only
    cases db.blockByHeight.lookup height <;> rfl
  | some block =>
    dsimp only
    rw [unmarked]
    cases db.blockByHeight.lookup height <;> rfl

section
variable {α : Type} (f : α → Int64 → α) {height : Int64}

theorem downTo_of_le (reached : top ≤ height) (a : α) : downTo f height top a = a := by
  rw [le_iff] at reached
  have none : (top.toInt - height.toInt).toNat = 0 := by omega
  rw [downTo, none]
  rfl

theorem downTo_step (above : height < top) (a : α) :
    downTo f height top a = downTo f height (top - 1) (f a top) := by
  rw [lt_iff] at above
  have range := toInt_range top
  have lower := toInt_range height
  have exact := toInt_pred (a := top) (by omega)
  obtain ⟨n, count⟩ : ∃ n, (top.toInt - height.toInt).toNat = n + 1 :=
    ⟨(top.toInt - height.toInt).toNat - 1, by omega⟩
  have next : ((top - 1).toInt - height.toInt).toNat = n := by omega
  have shift : ∀ i, top - Int64.ofNat (i + 1) = top - 1 - Int64.ofNat i := by
    intro i
    rw [Int64.ofNat_add, Int64.sub_sub, Int64.add_comm]
    rfl
  have start : top - Int64.ofNat 0 = top := Int64.sub_zero top
  rw [downTo, downTo, count, next, List.range_succ_eq_map, List.map_cons, List.map_map,
    List.foldl_cons, start]
  simp only [Function.comp_def, Nat.succ_eq_add_one, shift]

end

/-- The blocks above a height are gone, with the marks of their transactions. -/
structure RemovedAbove (target : Int64) (db db' : Db σ) : Prop where
  low : ∀ k, k ≤ target → db'.loadBlock k = db.loadBlock k
  high : ∀ k, target < k → db'.loadBlock k = none
  confirmed : db'.confirmedTx = db.confirmedTx
  unmarked : ∀ hash k b, target < k → db.loadBlock k = some b → hash ∈ b.transactionsHashes →
    db'.includedTx.lookup hash = none
  marked : ∀ hash, (∀ k b, target < k → db.loadBlock k = some b → hash ∉ b.transactionsHashes) →
    db'.includedTx.lookup hash = db.includedTx.lookup hash

theorem lookup_unmarkIncluded (hashes : List Hash) (db : Db σ) (hash : Hash) :
    (db.unmarkIncluded hashes).includedTx.lookup hash =
      if hash ∈ hashes then none else db.includedTx.lookup hash := by
  have folded : ∀ m : FinMap Hash Int64, (hashes.foldl (fun m hash => m.erase hash) m).lookup hash =
      if hash ∈ hashes then none else m.lookup hash := by
    induction hashes with
    | nil => simp
    | cons first rest ih =>
      intro m
      rw [List.foldl_cons, ih]
      by_cases same : hash = first
      · subst same
        simp
      · simp [AList.lookup_erase_ne same, same]
  exact folded db.includedTx

theorem removeBlockFromDB_marks {db : Db σ} {height : Int64} {b : Block}
    (loaded : db.loadBlock height = some b) (hash : Hash) :
    (db.removeBlockFromDB height).includedTx.lookup hash =
      if hash ∈ b.transactionsHashes then none else db.includedTx.lookup hash := by
  rw [← lookup_unmarkIncluded]
  unfold Db.removeBlockFromDB
  simp only [loaded]
  split
  · rfl
  · rfl

theorem removeBlockFromDB_confirmed (db : Db σ) (height : Int64) :
    (db.removeBlockFromDB height).confirmedTx = db.confirmedTx := by
  unfold Db.removeBlockFromDB
  dsimp only
  split
  · split
    · rfl
    · rfl
  · split
    · rfl
    · rfl

theorem linkedTo_downTo (target : Int64) (nonneg : 0 ≤ target) (n : Nat) (top : Int64)
    (count : (top.toInt - target.toInt).toNat = n) (db : Db σ)
    (chain : db.chain.LinkedTo (blockView env) top) :
    RemovedAbove target db (downTo Db.removeBlockFromDB target top db) ∧
    ∃ top', (downTo Db.removeBlockFromDB target top db).chain.LinkedTo (blockView env) top' ∧
      top' ≤ target ∧ top' ≤ top := by
  rw [le_iff, toInt_zero] at nonneg
  induction n generalizing top db with
  | zero =>
    have reached : top ≤ target := le_iff.mpr (by omega)
    have beyond : ∀ k, target < k → db.loadBlock k = none := by
      intro k high
      cases loaded : db.loadBlock k with
      | none => rfl
      | some b =>
        have low := (chain.load_facts loaded).2.2.2.2
        exact absurd (Int64.lt_of_lt_of_le high low) (Int64.not_lt.mpr reached)
    rw [downTo_of_le _ reached]
    refine ⟨⟨fun _ _ => rfl, beyond, rfl, ?_, fun _ _ => rfl⟩, top, chain, reached,
      Int64.le_refl top⟩
    intro hash k b high loaded
    rw [beyond k high] at loaded
    cases loaded
  | succ n ih =>
    have above : target < top := lt_iff.mpr (by omega)
    have range := toInt_range top
    have exact := toInt_pred (a := top) (by omega)
    have positive : 0 < top := lt_iff.mpr (by rw [toInt_zero]; omega)
    rw [downTo_step _ above]
    have without : (db.removeBlockFromDB top).chain.LinkedTo (blockView env) (top - 1) := by
      rw [Db.chain_removeBlockFromDB]
      exact chain.remove positive
    have elsewhere : ∀ k, k ≠ top → (db.removeBlockFromDB top).loadBlock k = db.loadBlock k := by
      intro k other
      rw [Db.loadBlock_eq, Db.chain_removeBlockFromDB]
      exact chain.load_remove_ne other
    obtain ⟨b, tip⟩ : ∃ b, db.loadBlock top = some b :=
      chain.load_isSome chain.nonneg (Int64.le_refl top)
    have marks := removeBlockFromDB_marks tip
    obtain ⟨removed, top', linked, low, less⟩ := ih (top - 1) (by omega) (db.removeBlockFromDB top)
      without
    refine ⟨⟨?_, removed.high, ?_, ?_, ?_⟩, top', linked, low, ?_⟩
    · intro k under
      rw [removed.low k under, elsewhere k]
      rintro rfl
      exact absurd above (Int64.not_lt.mpr under)
    · rw [removed.confirmed, removeBlockFromDB_confirmed]
    · intro hash k b' high loaded member
      by_cases last : k = top
      · -- the block at the top: its marks go first, and stay gone whatever follows
        rw [last, tip] at loaded
        cases loaded
        by_cases later : ∃ k b, target < k ∧
            (db.removeBlockFromDB top).loadBlock k = some b ∧ hash ∈ b.transactionsHashes
        · obtain ⟨k', b', high', loaded', member'⟩ := later
          exact removed.unmarked hash k' b' high' loaded' member'
        · rw [removed.marked hash fun k b high loaded member =>
            later ⟨k, b, high, loaded, member⟩, marks hash, if_pos member]
      · exact removed.unmarked hash k b' high ((elsewhere k last).trans loaded) member
    · intro hash outside
      rw [removed.marked hash, marks hash, if_neg (outside top b above tip)]
      intro k b' high loaded
      by_cases last : k = top
      · subst last
        have gone := (without.load_facts loaded).2.2.2.2
        rw [le_iff] at gone
        omega
      · exact outside k b' high ((elsewhere k last).symm.trans loaded)
    · simp only [le_iff] at less ⊢
      omega

theorem Db.lastHeightStoredInBlocks_eq {db : Db σ} (chain : db.chain.LinkedTo (blockView env) top)
    (bound : top.toInt < 2 ^ 62) : db.lastHeightStoredInBlocks = top :=
  Guarantees.HeightSearch.storedTop_eq chain.stored chain.nonneg bound

theorem rewindTo_chain (chain : s.db.chain.LinkedTo (blockView env) top)
    (bound : top.toInt < 2 ^ 62) {target : Int64} (nonneg : 0 ≤ target) :
    RemovedAbove target s.db (s.rewindTo env target).1.db ∧
    ∃ top', (s.rewindTo env target).1.db.chain.LinkedTo (blockView env) top' ∧
      top' ≤ top ∧ top' ≤ target := by
  obtain ⟨dexLoaded, evmLoaded, -, spec⟩ := Node.rewindTo_spec env s target
  have last : s.db.lastHeightStoredInBlocks = top := Db.lastHeightStoredInBlocks_eq chain bound
  obtain ⟨removed, top', linked, low, less⟩ := linkedTo_downTo target nonneg _ top rfl
    (s.db.removeEvmAbove target) chain
  generalize (s.rewindTo env target).1 = t at spec ⊢
  have blocks := spec.blocks
  have byHeight := spec.blockByHeight
  have included := spec.includedTx
  have confirmed := spec.confirmedTx
  rw [last] at blocks byHeight included confirmed
  generalize downTo Db.removeBlockFromDB target top (s.db.removeEvmAbove target) = db' at *
  have same : t.db.chain = db'.chain := by
    unfold Db.chain
    rw [blocks, byHeight]
  refine ⟨⟨?_, ?_, ?_, ?_, ?_⟩, top', same ▸ linked, less, low⟩
  · intro k under
    rw [Db.loadBlock_eq, same]
    exact removed.low k under
  · intro k high
    rw [Db.loadBlock_eq, same]
    exact removed.high k high
  · rw [confirmed]
    exact removed.confirmed
  · rw [included]
    exact removed.unmarked
  · rw [included]
    exact removed.marked

theorem reset_chain (chain : s.db.chain.LinkedTo (blockView env) top) (bound : top.toInt < 2 ^ 62)
    (height : Int64) :
    ((s.resetAccountsAndBlocksSync env height).db = s.db ∧
      (s.resetAccountsAndBlocksSync env height).height = s.height) ∨
    ∃ target top', (consistentRewindTarget s (rewindHeight height)).2 = some target ∧
      RemovedAbove target s.db (s.resetAccountsAndBlocksSync env height).db ∧
      (s.resetAccountsAndBlocksSync env height).db.chain.LinkedTo (blockView env) top' ∧
      top' ≤ top ∧ top' ≤ target ∧
      (s.resetAccountsAndBlocksSync env height).height = target := by
  unfold Node.resetAccountsAndBlocksSync
  rcases Node.reset_cases env s height with ⟨-, l, stopped⟩ |
    ⟨target, accounts, staking, search, -, ⟨nonneg, -⟩, -, -, rewound⟩
  · rw [stopped]
    exact .inl ⟨rfl, rfl⟩
  · rw [rewound]
    have loaded : { s with ledger := loadedLedger accounts staking }.db.chain.LinkedTo
        (blockView env) top := chain
    obtain ⟨removed, top', linked, less, low⟩ := rewindTo_chain loaded bound nonneg
    exact .inr ⟨target, top', search, removed, linked, less, low, rfl⟩

theorem Linked.reset (linked : Linked env s) (height : Int64) :
    Linked env (s.resetAccountsAndBlocksSync env height) := by
  obtain ⟨top, chain, bound, above⟩ := linked
  rcases reset_chain chain bound height with ⟨same, kept⟩ |
    ⟨target, top', -, -, linked, less, low, rewound⟩
  · exact ⟨top, same ▸ chain, bound, kept ▸ above⟩
  · refine ⟨top', linked, ?_, rewound ▸ low⟩
    rw [le_iff] at less
    omega

theorem checkBaseBlock_valid {b lastBlock : Block}
    (passed : checkBaseBlock env b lastBlock = .ok ()) : env.baseBlockValid b lastBlock = true := by
  unfold checkBaseBlock at passed
  simp only [ite_error_eq_ok] at passed
  simpa using passed.2.2.2.2.2.1

section
variable {b block lastBlock : Block} {fault : StoreFault}

/-- Where a block may go: at the top or just above it, on the block below it. -/
structure Fits (env : Env σ) (s : Node σ) (top : Int64) (b : Block) : Prop where
  hashed : env.calcBlockHash b = b.blockHash
  stands : ChainStore.StandsOn (blockView env) s.db.chain b
  lower : top ≤ b.height
  upper : b.height ≤ top ∨ b.height = top + 1
  small : b.height.toInt < 2 ^ 62

theorem Fits.filled (binds : HashBinds env) (fits : Fits env s top b) (kept : StorageKept s t)
    (fee : Int64) : Fits env t top { b with blockFee := fee } where
  hashed := (binds.fee b fee).trans fits.hashed
  stands := by
    rw [kept.chain]
    exact fits.stands
  lower := fits.lower
  upper := fits.upper
  small := fits.small

theorem storeBlock_linked (binds : HashBinds env) (fault : StoreFault) (fits : Fits env s top b)
    (chain : s.db.chain.LinkedTo (blockView env) top) :
    (∀ e t, storeBlock fault b s = .error e t →
      t.db.chain.LinkedTo (blockView env) top ∧ t.height = s.height) ∧
    (∀ t, storeBlock fault b s = .ok () t →
      t.db.chain.LinkedTo (blockView env) b.height ∧ t.db.chain.load b.height = some b ∧
        (∀ k, k ≠ b.height → t.db.chain.load k = s.db.chain.load k) ∧ t.height = s.height) := by
  have put := chain.put binds.height fits.hashed fits.stands
  have elsewhere : ∀ k, k ≠ b.height →
      (s.db.chain.put (blockView env) b).load k = s.db.chain.load k :=
    fun k other => chain.load_put binds.height fits.hashed other
  cases fault with
  | none =>
    refine ⟨fun e t run => (by cases run), fun t run => ?_⟩
    cases run
    have stands : ChainStore.StandsOn (blockView env) (s.db.chain.put (blockView env) b) b := by
      obtain ⟨positive, p, below, parent⟩ := fits.stands
      exact ⟨positive, p, (elsewhere _ (ChainStore.pred_ne positive)).trans below, parent⟩
    have found : (s.db.chain.put (blockView env) b).blocks.lookup b.blockHash = some b :=
      AList.lookup_insert _
    have here : ((s.db.chain.put (blockView env) b).putHeight (blockView env) b).load b.height =
        some b := ChainStore.load_putHeight found
    have others : ∀ k, k ≠ b.height →
        ((s.db.chain.put (blockView env) b).putHeight (blockView env) b).load k =
          s.db.chain.load k :=
      fun k other => (ChainStore.load_putHeight_ne other).trans (elsewhere k other)
    exact ⟨put.putHeight stands found fits.lower fits.upper, here, others, rfl⟩
  | atBlock =>
    refine ⟨fun e t run => ?_, fun t run => (by cases run)⟩
    cases run
    exact ⟨chain, rfl⟩
  | atHeight =>
    refine ⟨fun e t run => ?_, fun t run => (by cases run)⟩
    cases run
    exact ⟨put, rfl⟩

theorem applied_linked (binds : HashBinds env) (lastBlock : Block) (fault : StoreFault)
    (fits : Fits env s top b) (chain : s.db.chain.LinkedTo (blockView env) top)
    (bound : top.toInt < 2 ^ 62) (above : top ≤ s.height) :
    (∀ e t, checkBlockAndTransferFunds env b lastBlock s = .error e t → Linked env t) ∧
    (∀ block t, checkBlockAndTransferFunds env b lastBlock s = .ok block t →
      block.height = b.height ∧
      (∀ e u, storeBlock fault block t = .error e u → Linked env u) ∧
      (∀ u, storeBlock fault block t = .ok () u →
        u.db.chain.LinkedTo (blockView env) b.height ∧
          (∃ stored, u.db.chain.load b.height = some stored ∧ stored.blockHash = b.blockHash) ∧
          (∀ k, k ≠ b.height → u.db.chain.load k = s.db.chain.load k))) := by
  have keeps := storageKept_checkBlockAndTransferFunds env b lastBlock
  constructor
  · intro e t run
    exact Linked.of_kept ⟨top, chain, bound, above⟩ (keeps.of_error run)
  · intro block t run
    have kept := keeps.of_ok run
    obtain ⟨reward, totalFee, checked, evaluated, applied, via⟩ := checkBlockAndTransferFunds_ok run
    obtain rfl := via.filled
    have chain' : t.db.chain.LinkedTo (blockView env) top := kept.chain.symm ▸ chain
    obtain ⟨fails, succeeds⟩ := storeBlock_linked binds fault
      (fits.filled binds kept (totalFee + lastBlock.blockFee)) chain'
    refine ⟨rfl, ?_, ?_⟩
    · intro e u store
      obtain ⟨linked, height⟩ := fails e u store
      exact ⟨top, linked, bound, by rw [height, kept.height]; exact above⟩
    · intro u store
      obtain ⟨linked, here, elsewhere, -⟩ := succeeds u store
      refine ⟨linked, ⟨_, here, rfl⟩, fun k other => ?_⟩
      rw [elsewhere k other, kept.chain]

end

theorem Node.chain_commitHeight (env : Env σ) (s : Node σ) (height : Int64) :
    (s.commitHeight env height).db.chain = s.db.chain := by
  unfold Node.commitHeight Db.applyWrites snapshotWrites
  simp only [List.foldl_cons, List.foldl_nil]
  split
  · rfl
  · rfl

theorem applyAndStore_linked (binds : HashBinds env) {b : Block} (lastBlock : Block)
    (fault : StoreFault) (fits : Fits env s top b) (chain : s.db.chain.LinkedTo (blockView env) top)
    (bound : top.toInt < 2 ^ 62) (above : top ≤ s.height) :
    (∃ block t, s.applyAndStore env fault b lastBlock = (t, .accepted block) ∧
      t.db.chain.LinkedTo (blockView env) b.height ∧ t.height = b.height ∧
      ∀ k, k ≠ b.height → t.db.chain.load k = s.db.chain.load k) ∨
    (∃ t, (s.applyAndStore env fault b lastBlock = (t, .rejected) ∨
      s.applyAndStore env fault b lastBlock = (t, .notStored)) ∧ Linked env t) := by
  obtain ⟨fails, applies⟩ :=
    applied_linked binds lastBlock fault fits chain bound above
  unfold Node.applyAndStore
  cases run : checkBlockAndTransferFunds env b lastBlock s with
  | error e t => exact .inr ⟨_, .inl rfl, (fails e t run).reset _⟩
  | ok block t =>
    obtain ⟨height, refused, stored⟩ := applies block t run
    cases store : storeBlock fault block t with
    | error e u =>
      simp only [store]
      exact .inr ⟨_, .inr rfl, (refused e u store).reset _⟩
    | ok _ u =>
      simp only [store]
      obtain ⟨linked, -, elsewhere⟩ := stored u store
      refine .inl ⟨block, _, rfl, ?_, height, ?_⟩
      · rw [Node.chain_commitHeight]
        exact linked
      · rw [Node.chain_commitHeight]
        exact elsewhere

theorem linked_receiveBlocks (binds : HashBinds env) {h : Int64} {lastBlock : Block}
    (small : h.toInt + 1 < 2 ^ 62) (received : List (Block × StoreFault)) (s : Node σ)
    (tip : s.db.chain.load h = some lastBlock)
    (chain : s.db.chain.LinkedTo (blockView env) top) (near : top = h ∨ top = h + 1)
    (above : top ≤ s.height) : Linked env (receiveBlocks env h lastBlock received s) := by
  have nonneg := chain.nonneg
  have bottom := (chain.load_facts tip).2.2.2.1
  rw [le_iff, toInt_zero] at bottom
  have next := toInt_succ (a := h) (by omega)
  have bound : top.toInt < 2 ^ 62 := by
    rcases near with rfl | rfl
    · omega
    · omega
  have unchanged : Linked env s := ⟨top, chain, bound, above⟩
  induction received generalizing top s with
  | nil => exact unchanged
  | cons item rest ih =>
    obtain ⟨newBlock, fault⟩ := item
    unfold receiveBlocks
    split
    · exact unchanged
    · next height =>
      split
      · exact unchanged
      · next parent =>
        simp only [ne_eq, not_not] at height parent
        cases base : checkBaseBlock env newBlock lastBlock with
        | error e => exact unchanged
        | ok u =>
          dsimp only
          split
          · have fits : Fits env s top newBlock :=
              { hashed := binds.checked _ _ (checkBaseBlock_valid base)
                stands := by
                  refine ⟨?_, lastBlock, ?_, parent⟩
                  · change 0 < newBlock.height
                    rw [height, lt_iff, next, toInt_zero]
                    omega
                  · change s.db.chain.load (newBlock.height - 1) = some lastBlock
                    rw [height, Int64.add_sub_cancel]
                    exact tip
                lower := by
                  rw [height, le_iff, next]
                  rcases near with rfl | rfl <;> omega
                upper := by
                  rcases near with rfl | rfl
                  · exact .inr height
                  · exact .inl (height ▸ Int64.le_refl _)
                small := by rw [height, next]; exact small }
            rcases applyAndStore_linked binds lastBlock fault fits chain bound above with
              ⟨block, t, run, linked, reached, elsewhere⟩ | ⟨t, run | run, linked⟩
            · rw [run]
              rw [height] at linked reached elsewhere
              have lower : h ≠ h + 1 := by
                intro equal
                have value := congrArg Int64.toInt equal
                omega
              have tip' := (elsewhere h lower).trans tip
              exact ih t tip' linked (.inr rfl) (reached ▸ Int64.le_refl _) linked.nonneg
                (by omega) ⟨h + 1, linked, by omega, reached ▸ Int64.le_refl _⟩
            · rw [run]
              exact linked
            · rw [run]
              exact linked
          · exact unchanged

theorem Linked.onBlocks (binds : HashBinds env) (linked : Linked env s)
    (small : s.height.toInt + 1 < 2 ^ 62) (received : List (Block × StoreFault)) :
    Linked env (s.onBlocks env received) := by
  unfold Node.onBlocks
  cases tip : s.db.loadBlock s.height with
  | none => exact linked
  | some lastBlock =>
    obtain ⟨top, chain, bound, above⟩ := linked
    have reached : s.height ≤ top := (chain.load_facts tip).2.2.2.2
    have same : top = s.height := Int64.le_antisymm above reached
    exact linked_receiveBlocks binds small received s tip chain (.inl same) above

end QwidNode.Source
