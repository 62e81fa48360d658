import QwidNode.Source.ApplyBlock

/-!
# What pool operations cannot touch

`PoolFrame` relates the node before and after a pool operation: only pools, their mirrors,
the journal and the bad-transaction prefix change, and the pool prefix may lose entries.
-/
namespace QwidNode.Source
open Lib AList
variable {σ : Type} {env : Env σ}

namespace Node

def pool (s : Node σ) : (kind : PoolType) → TransactionPool kind
  | .standard => s.poolsTx
  | .escrow => s.poolTxEscrow
  | .multiSign => s.poolTxMultiSign

def mirror (s : Node σ) : PoolType → FinMap Hash Transaction
  | .standard => ∅
  | .escrow => s.db.escrowPool
  | .multiSign => s.db.multiSignPool

def setPool (s : Node σ) :
    (kind : PoolType) → TransactionPool kind → FinMap Hash Transaction → Node σ
  | .standard, tp, _ => { s with poolsTx := tp }
  | .escrow, tp, m => { s with poolTxEscrow := tp, db := { s.db with escrowPool := m } }
  | .multiSign, tp, m => { s with poolTxMultiSign := tp, db := { s.db with multiSignPool := m } }

def fileKey : PoolType → Transaction → Hash
  | .multiSign, tx => multiSignPoolKeyFor tx
  | _, tx => tx.hash

/-- `AddEscrowTransaction` and `AddMultiSignTransaction`, with the pool as an argument. -/
def addTo (s : Node σ) (kind : PoolType) (tx : Transaction) : Node σ × Bool :=
  let r := (s.pool kind).addTransaction tx (fileKey kind tx)
  let s := s.setPool kind r.1 (s.mirror kind)
  if r.2 then
    let s := s.journalPendingChange kind true tx
    (s.setPool kind (s.pool kind) ((s.mirror kind).insert tx.hash tx), true)
  else (s, false)

/-- `RemoveEscrowTransaction` and `RemoveMultiSignTransaction`, with the pool as an argument. -/
def removeFrom (s : Node σ) (kind : PoolType) (hash : Hash) : Node σ :=
  let s := match (s.pool kind).getTransactionByHash hash with
    | some tx => s.journalPendingChange kind false tx
    | none => s
  s.setPool kind ((s.pool kind).removeTransactionByHash hash) ((s.mirror kind).erase hash)

section
variable (s : Node σ) {kind p : PoolType} (tx : Transaction) (hash : Hash)

theorem addEscrowTransaction_eq : s.addEscrowTransaction tx = s.addTo .escrow tx := rfl

theorem addMultiSignTransaction_eq : s.addMultiSignTransaction tx = s.addTo .multiSign tx := rfl

theorem removeEscrowTransaction_eq :
    s.removeEscrowTransaction hash = s.removeFrom .escrow hash := rfl

@[simp] theorem pool_setPool (tp : TransactionPool kind) (m : FinMap Hash Transaction) :
    (s.setPool kind tp m).pool kind = tp := by
  cases kind <;> rfl

theorem pool_setPool_ne (other : p ≠ kind) (tp : TransactionPool kind)
    (m : FinMap Hash Transaction) : (s.setPool kind tp m).pool p = s.pool p := by
  cases kind <;> cases p <;> first | rfl | exact absurd rfl other

theorem mirror_setPool (pending : kind ≠ .standard) (tp : TransactionPool kind)
    (m : FinMap Hash Transaction) :
    (s.setPool kind tp m).mirror p = if p = kind then m else s.mirror p := by
  cases kind <;> first | exact absurd rfl pending | cases p <;> rfl

@[simp] theorem pool_journalPendingChange (added : Bool) :
    (s.journalPendingChange kind added tx).pool p = s.pool p := by
  unfold journalPendingChange
  split <;> cases p <;> rfl

@[simp] theorem mirror_journalPendingChange (added : Bool) :
    (s.journalPendingChange kind added tx).mirror p = s.mirror p := by
  unfold journalPendingChange
  split <;> cases p <;> rfl

theorem addTo_pool (kind : PoolType) : (s.addTo kind tx).1.pool kind =
    ((s.pool kind).addTransaction tx (fileKey kind tx)).1 := by
  unfold addTo
  dsimp only
  split <;> simp

theorem addTo_pool_ne (other : p ≠ kind) : (s.addTo kind tx).1.pool p = s.pool p := by
  unfold addTo
  dsimp only
  split <;> simp [pool_setPool_ne _ other]

theorem addTo_taken (kind : PoolType) : (s.addTo kind tx).2 =
    ((s.pool kind).addTransaction tx (fileKey kind tx)).2 := by
  unfold addTo
  dsimp only
  split
  · next taken => exact taken.symm
  · next refused => simpa using refused

theorem removeFrom_pool (kind : PoolType) : (s.removeFrom kind hash).pool kind =
    (s.pool kind).removeTransactionByHash hash := by
  unfold removeFrom
  dsimp only
  split <;> simp

theorem removeFrom_pool_ne (other : p ≠ kind) : (s.removeFrom kind hash).pool p = s.pool p := by
  unfold removeFrom
  dsimp only
  split <;> simp [pool_setPool_ne _ other]

theorem addTo_mirror (pending : kind ≠ .standard) : (s.addTo kind tx).1.mirror p =
    if p = kind ∧ (s.addTo kind tx).2 = true then (s.mirror kind).insert tx.hash tx
    else s.mirror p := by
  rw [addTo_taken]
  unfold addTo
  dsimp only
  by_cases own : p = kind
  · subst own
    split
    · next taken => simp [mirror_setPool _ pending, taken]
    · next refused => simp [mirror_setPool _ pending, refused]
  · split <;> simp [mirror_setPool _ pending, own]

theorem removeFrom_mirror (pending : kind ≠ .standard) : (s.removeFrom kind hash).mirror p =
    if p = kind then (s.mirror kind).erase hash else s.mirror p := by
  unfold removeFrom
  dsimp only
  split <;> simp [mirror_setPool _ pending]

end
end Node

/-- The part of the database that only block commit, block storage and rewinds write. -/
def Db.chainPart (db : Db σ) : Db σ :=
  { db with
    poolTx := ∅, badTx := ∅, voidedTx := ∅, escrowPool := ∅, multiSignPool := ∅
    pendingJournal := ∅ }

def PoolTxShrinks (s t : Node σ) : Prop :=
  ∀ hash tx, t.db.poolTx.lookup hash = some tx → s.db.poolTx.lookup hash = some tx

/-- Journal entries are added at the height the journal is open for, and only there. -/
structure JournalKept (s t : Node σ) : Prop where
  height : t.journalHeight = s.journalHeight
  keys : ∀ key e, t.db.pendingJournal.lookup key = some e →
    s.db.pendingJournal.lookup key = some e ∨ key.1 = s.journalHeight

theorem JournalKept.refl (s : Node σ) : JournalKept s s := ⟨rfl, fun _ _ found => .inl found⟩

theorem JournalKept.trans {s t u : Node σ} (first : JournalKept s t) (second : JournalKept t u) :
    JournalKept s u := by
  refine ⟨second.height.trans first.height, fun key e found => ?_⟩
  rcases second.keys key e found with old | new
  · exact first.keys key e old
  · exact .inr (new.trans first.height)

theorem JournalKept.of_eq {s t : Node σ} (height : t.journalHeight = s.journalHeight)
    (entries : t.db.pendingJournal = s.db.pendingJournal) : JournalKept s t :=
  ⟨height, fun _ _ found => .inl (entries ▸ found)⟩

structure PoolFrame (s t : Node σ) : Prop where
  ledger : t.ledger = s.ledger
  log : t.log = s.log
  evm : t.evm = s.evm
  dex : t.dex = s.dex
  height : t.height = s.height
  chain : t.db.chainPart = s.db.chainPart
  poolTx : PoolTxShrinks s t
  journal : JournalKept s t

instance : IsPreorder (Node σ) PoolFrame where
  refl s := ⟨rfl, rfl, rfl, rfl, rfl, rfl, fun _ _ found => found, .refl s⟩
  trans _ _ _ first second :=
    ⟨second.ledger.trans first.ledger, second.log.trans first.log, second.evm.trans first.evm,
      second.dex.trans first.dex, second.height.trans first.height,
      second.chain.trans first.chain, fun h tx found => first.poolTx h tx (second.poolTx h tx found),
      first.journal.trans second.journal⟩

theorem PoolFrame.refl (s : Node σ) : PoolFrame s s := refl_of PoolFrame s

theorem PoolFrame.trans {s t u : Node σ} (first : PoolFrame s t) (second : PoolFrame t u) :
    PoolFrame s u := trans_of PoolFrame first second

namespace Node
variable (s : Node σ)

theorem poolFrame_journalPendingChange (pool : PoolType) (added : Bool) (tx : Transaction) :
    PoolFrame s (s.journalPendingChange pool added tx) := by
  unfold Node.journalPendingChange
  split
  · exact .refl s
  · refine ⟨rfl, rfl, rfl, rfl, rfl, rfl, fun _ _ found => found, rfl, fun key e found => ?_⟩
    simp only at found
    by_cases new : key = (s.journalHeight, s.journalSeq)
    · exact .inr (congrArg Prod.fst new)
    · exact .inl (by rwa [lookup_insert_ne new] at found)

theorem poolFrame_pools (standard : TransactionPool .standard) (escrow : TransactionPool .escrow)
    (multiSign : TransactionPool .multiSign) (escrowMirror multiSignMirror : FinMap Hash Transaction) :
    PoolFrame s { s with
      poolsTx := standard, poolTxEscrow := escrow, poolTxMultiSign := multiSign
      db := { s.db with escrowPool := escrowMirror, multiSignPool := multiSignMirror } } :=
  ⟨rfl, rfl, rfl, rfl, rfl, rfl, fun _ _ found => found, .of_eq rfl rfl⟩

theorem poolFrame_setPool {kind : PoolType} (tp : TransactionPool kind)
    (m : FinMap Hash Transaction) : PoolFrame s (s.setPool kind tp m) := by
  cases kind <;> exact s.poolFrame_pools _ _ _ _ _

theorem poolFrame_addTo (kind : PoolType) (tx : Transaction) : PoolFrame s (s.addTo kind tx).1 := by
  unfold addTo
  dsimp only
  split
  · exact (s.poolFrame_setPool _ _).trans
      ((Node.poolFrame_journalPendingChange _ _ _ _).trans (Node.poolFrame_setPool _ _ _))
  · exact s.poolFrame_setPool _ _

theorem poolFrame_removeFrom (kind : PoolType) (hash : Hash) :
    PoolFrame s (s.removeFrom kind hash) := by
  unfold removeFrom
  dsimp only
  split
  · exact (s.poolFrame_journalPendingChange _ _ _).trans (Node.poolFrame_setPool _ _ _)
  · exact s.poolFrame_setPool _ _

theorem poolFrame_addEscrowTransaction (tx : Transaction) :
    PoolFrame s (s.addEscrowTransaction tx).1 := s.poolFrame_addTo .escrow tx

theorem poolFrame_addMultiSignTransaction (tx : Transaction) :
    PoolFrame s (s.addMultiSignTransaction tx).1 := s.poolFrame_addTo .multiSign tx

theorem poolFrame_removeEscrowTransaction (hash : Hash) :
    PoolFrame s (s.removeEscrowTransaction hash) := s.poolFrame_removeFrom .escrow hash

theorem poolFrame_removeMultiSignTransaction (hash : Hash) :
    PoolFrame s (s.removeMultiSignTransaction hash) := s.poolFrame_removeFrom .multiSign hash

theorem poolFrame_removeFromPools (hash : Hash) : PoolFrame s (s.removeFromPools hash) := by
  unfold Node.removeFromPools
  exact (s.poolFrame_pools _ _ _ _ _).trans
    ((Node.poolFrame_removeEscrowTransaction _ hash).trans (Node.poolFrame_pools _ _ _ _ _ _))

theorem poolFrame_banEverywhere (hash : Hash) : PoolFrame s (s.banEverywhere hash) :=
  s.poolFrame_pools _ _ _ _ _

theorem poolFrame_removePoolTx (hash : Hash) :
    PoolFrame s { s with db := s.db.removePoolTx hash } := by
  refine ⟨rfl, rfl, rfl, rfl, rfl, rfl, fun other tx found => ?_, .of_eq rfl rfl⟩
  simp only [Db.removePoolTx] at found
  by_cases same : other = hash
  · rw [same, lookup_erase] at found
    cases found
  · rwa [lookup_erase_ne same] at found

theorem poolFrame_removeDuplicateTransactionByHash (hash : Hash) :
    PoolFrame s (s.removeDuplicateTransactionByHash hash) := by
  unfold Node.removeDuplicateTransactionByHash
  exact (s.poolFrame_removeFromPools hash).trans
    ((Node.poolFrame_removePoolTx _ hash).trans (Node.poolFrame_banEverywhere _ hash))

theorem poolFrame_storeBad (tx : Transaction) :
    PoolFrame s { s with db := s.db.storeTx .bad tx } :=
  ⟨rfl, rfl, rfl, rfl, rfl, rfl, fun _ _ found => found, .of_eq rfl rfl⟩

theorem poolFrame_removeBadTransactionByHash (hash : Hash) :
    PoolFrame s (s.removeBadTransactionByHash env hash) := by
  have kept (u : Node σ) : PoolFrame u { u with db := u.db.keepBad env hash } := by
    unfold Db.keepBad
    split
    · exact Node.poolFrame_storeBad _ _
    · exact .refl u
  have dropped (u : Node σ) : PoolFrame u (u.dropIncluded hash) := by
    unfold Node.dropIncluded
    split
    · exact u.poolFrame_removeDuplicateTransactionByHash hash
    · exact .refl u
  unfold Node.removeBadTransactionByHash
  exact (s.poolFrame_removeFromPools hash).trans ((kept _).trans
    ((Node.poolFrame_removePoolTx _ hash).trans
      ((dropped _).trans (Node.poolFrame_banEverywhere _ hash))))

theorem poolFrame_markVoided (hash : Hash) (height : Int64) (reason : UInt8) :
    PoolFrame s (s.markVoided hash height reason) :=
  ⟨rfl, rfl, rfl, rfl, rfl, rfl, fun _ _ found => found, .of_eq rfl rfl⟩

theorem poolFrame_moveToMultiSign (tx : Transaction) : PoolFrame s
    (let r := s.addMultiSignTransaction tx
      if r.2 then r.1.removeEscrowTransaction tx.hash else r.1) := by
  have added := s.poolFrame_addMultiSignTransaction tx
  simp only
  split
  · exact added.trans (Node.poolFrame_removeEscrowTransaction _ _)
  · exact added

theorem poolFrame_undoPendingChange (e : JournalEntry) :
    PoolFrame s (s.undoPendingChange e) := by
  unfold Node.undoPendingChange
  split
  · exact s.poolFrame_removeEscrowTransaction _
  · exact s.poolFrame_addEscrowTransaction _
  · exact s.poolFrame_removeMultiSignTransaction _
  · exact s.poolFrame_addMultiSignTransaction _
  · exact .refl s

end Node

theorem foldl_frame {α : Type} {R : Node σ → Node σ → Prop} [IsPreorder (Node σ) R]
    {f : Node σ → α → Node σ} (step : ∀ s a, R s (f s a)) (items : List α) (s : Node σ) :
    R s (items.foldl f s) := by
  induction items generalizing s with
  | nil => exact refl_of R s
  | cons a rest ih => exact trans_of R (step s a) (ih (f s a))

theorem Node.poolFrame_dropJournalKey (s : Node σ) (key : Int64 × Nat) :
    PoolFrame s { s with db := { s.db with pendingJournal := s.db.pendingJournal.erase key } } := by
  refine ⟨rfl, rfl, rfl, rfl, rfl, rfl, fun _ _ found => found, rfl, fun other e found => ?_⟩
  simp only at found
  by_cases same : other = key
  · rw [same, lookup_erase] at found
    cases found
  · exact .inl (by rwa [lookup_erase_ne same] at found)

theorem Node.poolFrame_undoJournalKeys (s : Node σ) (undo : Int64 → Bool) :
    PoolFrame s (s.undoJournalKeys undo) := by
  unfold Node.undoJournalKeys
  split
  · exact .refl s
  · have paused : PoolFrame s { s with journalPaused := true } :=
      ⟨rfl, rfl, rfl, rfl, rfl, rfl, fun _ _ found => found, .of_eq rfl rfl⟩
    refine paused.trans ((foldl_frame (R := PoolFrame) ?_ _ _).trans
      ⟨rfl, rfl, rfl, rfl, rfl, rfl, fun _ _ found => found, .of_eq rfl rfl⟩)
    intro u key
    unfold Node.undoKey
    split
    · exact (u.poolFrame_undoPendingChange _).trans (Node.poolFrame_dropJournalKey _ key)
    · exact u.poolFrame_dropJournalKey key

end QwidNode.Source
