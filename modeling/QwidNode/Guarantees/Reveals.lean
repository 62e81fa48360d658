import QwidNode.Source.ChainRun
import QwidNode.Source.Randao

/-!
# RANDAO reveals are bound to commitments

The commitment recorded for an operator under a delegated account is that of the last block it
produced there: only `SetRandCommit` writes it when that block is applied, staking operations keep
it, and a rewind loads the stakes of the height it cuts the chain at. As `VerifyStakeDependent`
compares reveals with that record, every block reveals the seed its operator committed to last,
or nothing.
-/
namespace QwidNode.Guarantees
open Lib Source Ledger Word List AList
variable {σ : Type} {env : Env σ} {H : Bytes → Hash} {s t : Node σ}
variable {block newBlock lastBlock : Block} {r : Hash × Int64}

theorem randaoKept_evmMoves (env : Env σ) : EvmMoves env (RandaoKept (σ := σ)) where
  toLedgerMoves :=
    { write := fun {_ op _} entry writes => randaoKept_ledgerMoves.write (by
        cases op with
        | entry a => trivial
        | _ => exact entry.elim) writes
      record := randaoKept_ledgerMoves.record }
  load frame := by
    obtain ⟨_, _, rfl⟩ := frame
    exact fun _ _ => rfl
  duplicate s hash := (s.poolFrame_removeDuplicateTransactionByHash hash).randaoKept
  bad s hash := (s.poolFrame_removeBadTransactionByHash hash).randaoKept
  drop s hash :=
    have bad : PoolFrame s (s.removeBadTransactionByHash env hash) :=
      s.poolFrame_removeBadTransactionByHash hash
    bad.randaoKept
  store s p tx := fun _ _ => rfl
  state s evm dex := fun _ _ => rfl

theorem applyRandaoCommit_ok (above : block.height ≠ 0) (run : applyRandaoCommit block s = .ok () t) :
    ∃ n, intDelegatedAccountFromAddress block.delegatedAccount = some n ∧
      ∀ m a, t.ledger.getRandCommit m a =
        if (m, a) = (n, block.operatorAccount.byteValue) then (block.randCommit, block.height)
        else s.ledger.getRandCommit m a := by
  unfold applyRandaoCommit at run
  rw [if_neg above] at run
  cases named : intDelegatedAccountFromAddress block.delegatedAccount with
  | none =>
    rw [named] at run
    cases run
  | some n =>
    simp only [named, failIf_bind_eq_ok] at run
    obtain ⟨-, run⟩ := run
    unfold liftLedger at run
    rw [get_bind_run] at run
    cases wrote : s.ledger.setRandCommit n block.operatorAccount.byteValue block.randCommit
        block.height with
    | error e =>
      simp only [wrote] at run
      cases run
    | ok l =>
      simp only [wrote] at run
      cases run
      exact ⟨n, rfl, getRandCommit_setRandCommit wrote⟩

theorem accepted_randao (above : newBlock.height ≠ 0)
    (run : checkBlockAndTransferFunds env newBlock lastBlock s = .ok block t) :
    ∃ n, intDelegatedAccountFromAddress newBlock.delegatedAccount = some n ∧
      ∀ m a, t.ledger.getRandCommit m a =
        if (m, a) = (n, newBlock.operatorAccount.byteValue) then
          (newBlock.randCommit, newBlock.height)
        else s.ledger.getRandCommit m a := by
  obtain ⟨reward, totalFee, checked, evaluated, applied, via⟩ := checkBlockAndTransferFunds_ok run
  obtain ⟨begun, processed, rewarded, committed, applying⟩ :=
    processBlockTransfers_ok via.application
  have evm := randaoKept_evmMoves env
  have apply := randaoKept_applyMoves env
  have check : RandaoKept s checked := evm.toCheckMoves.checkBlockTransfers.of_ok via.check
  have contracts : RandaoKept checked evaluated := (evm.evaluateHashes _).of_ok via.evaluation
  have begin' : RandaoKept evaluated begun := by
    rw [applying.start]
    exact (evaluated.poolFrame_undoJournalKeys _).randaoKept
  have turns : RandaoKept begun processed := by
    refine (Respects.forM block.transactionsHashes fun hash _ => ?_).of_ok applying.transactions
    exact apply.processBlockTx (fun _ _ does => does.keepsRandao)
      (fun _ _ does => does.keepsRandao) (fun _ => trivial) hash
  have rewards : RandaoKept processed rewarded :=
    (apply.rewardBlock fun _ _ _ => trivial).of_ok applying.reward
  have escrows : RandaoKept committed
      (finalState (processTransactionsEscrow env block.height committed)) :=
    apply.processTransactionsEscrow (fun _ _ does => does.keepsRandao) (fun _ _ => trivial) committed
  have maintained : RandaoKept (finalState (processTransactionsEscrow env block.height committed))
      t := by
    intro n a
    rw [via.final, Node.finishBlock_ledger, applying.final]
    refine getRandCommit_of_staking ?_ n a
    unfold applyRecoveryMaintenance
    dsimp only
    split
    · rfl
    · rfl
  have filled := via.filled
  have sameHeight : block.height = newBlock.height := by rw [filled]
  have sameCommit : block.randCommit = newBlock.randCommit := by rw [filled]
  have sameOperator : block.operatorAccount = newBlock.operatorAccount := by rw [filled]
  have sameDelegated : block.delegatedAccount = newBlock.delegatedAccount := by rw [filled]
  obtain ⟨n, named, commits⟩ := applyRandaoCommit_ok (sameHeight ▸ above) applying.commit
  have before : RandaoKept s rewarded := trans_of RandaoKept check (trans_of RandaoKept contracts
    (trans_of RandaoKept begin' (trans_of RandaoKept turns rewards)))
  have after : RandaoKept committed t := trans_of RandaoKept escrows maintained
  refine ⟨n, sameDelegated ▸ named, fun m a => ?_⟩
  rw [after m a, commits m a, before m a, sameHeight, sameCommit, sameOperator]

def By (n : Nat) (a : AddressBytes) (b : Block) : Prop :=
  intDelegatedAccountFromAddress b.delegatedAccount = some n ∧ b.operatorAccount.byteValue = a

/-- The last block by an operator under a delegated account, among those above the genesis
block and up to a top. -/
structure LastBy (db : Db σ) (top : Int64) (n : Nat) (a : AddressBytes) (g : Int64) (b : Block) :
    Prop where
  positive : 0 < g
  le : g ≤ top
  found : db.loadBlock g = some b
  own : By n a b
  last : ∀ k b', g < k → k ≤ top → db.loadBlock k = some b' → ¬ By n a b'

def NoneBy (db : Db σ) (top : Int64) (n : Nat) (a : AddressBytes) : Prop :=
  ∀ k b, 0 < k → k ≤ top → db.loadBlock k = some b → ¬ By n a b

/-- The recorded commitment is that of the last block, or there is none and no block. -/
inductive Recorded (db : Db σ) (top : Int64) (n : Nat) (a : AddressBytes) : Hash × Int64 → Prop where
  | made {g : Int64} {b : Block} (last : LastBy db top n a g b) : Recorded db top n a (b.randCommit, g)
  | never {c : Hash} (none : NoneBy db top n a) : Recorded db top n a (c, 0)

variable {db db' : Db σ} {top g g' k : Int64} {n : Nat} {a : AddressBytes} {b b' c p : Block}

theorem LastBy.congr (last : LastBy db top n a g b)
    (same : ∀ k, k ≤ top → db'.loadBlock k = db.loadBlock k) : LastBy db' top n a g b where
  positive := last.positive
  le := last.le
  found := (same g last.le).trans last.found
  own := last.own
  last k b' above low found := last.last k b' above low ((same k low).symm.trans found)

theorem NoneBy.congr (none : NoneBy db top n a)
    (same : ∀ k, k ≤ top → db'.loadBlock k = db.loadBlock k) : NoneBy db' top n a :=
  fun k b above low found => none k b above low ((same k low).symm.trans found)

theorem Recorded.congr (recorded : Recorded db top n a r)
    (same : ∀ k, k ≤ top → db'.loadBlock k = db.loadBlock k) : Recorded db' top n a r := by
  cases recorded with
  | made last => exact .made (last.congr same)
  | never none => exact .never (none.congr same)

theorem LastBy.unique (first : LastBy db top n a g b) (second : LastBy db top n a g' b') :
    g = g' ∧ b = b' := by
  have height : g = g' := by
    by_contra differ
    rcases Int.lt_or_gt_of_ne (fun same => differ (Int64.toInt_inj.mp same)) with less | less
    · exact first.last g' b' (lt_iff.mpr less) second.le second.found second.own
    · exact second.last g b (lt_iff.mpr less) first.le first.found first.own
  subst height
  exact ⟨rfl, Option.some.inj (first.found.symm.trans second.found)⟩

theorem Recorded.other (recorded : Recorded db top n a r) {next : Int64} (less : top < next)
    (between : ∀ k, k ≤ next → k ≤ top ∨ k = next)
    (same : ∀ k, k ≤ top → db'.loadBlock k = db.loadBlock k) (found : db'.loadBlock next = some b)
    (other : ¬ By n a b) : Recorded db' next n a r := by
  have foreign : ∀ k b', k ≤ next → ¬ k ≤ top → db'.loadBlock k = some b' → ¬ By n a b' := by
    intro k b' low high found'
    rcases between k low with under | rfl
    · exact absurd under high
    · rw [found] at found'
      cases found'
      exact other
  cases recorded with
  | @made g own last =>
    have last' := last.congr same
    refine .made ⟨last.positive, Int64.le_of_lt (Int64.lt_of_le_of_lt last.le less), last'.found,
      last.own, fun k b' above low found' => ?_⟩
    by_cases under : k ≤ top
    · exact last'.last k b' above under found'
    · exact foreign k b' low under found'
  | never none =>
    refine .never fun k b' above low found' => ?_
    by_cases under : k ≤ top
    · exact (none.congr same) k b' above under found'
    · exact foreign k b' low under found'

/-- A block of the chain and its parent: the reveal opens the commitment of the operator's last
block while it binds and is empty otherwise, and mix and random value follow. -/
structure RevealBound (H : Bytes → Hash) (db : Db σ) (k : Int64) (b p : Block) (n : Nat) :
    Prop where
  named : intDelegatedAccountFromAddress b.delegatedAccount = some n
  due : ∀ g c, LastBy db (k - 1) n b.operatorAccount.byteValue g c →
    k.toInt - g.toInt ≤ Common.randaoCommitExpiry.toInt →
    b.randReveal.length = randaoSeedLength ∧ randaoCommitment H b.randReveal = c.randCommit
  lapsed : ∀ g c, LastBy db (k - 1) n b.operatorAccount.byteValue g c →
    Common.randaoCommitExpiry.toInt < k.toInt - g.toInt → b.randReveal = []
  first : NoneBy db (k - 1) n b.operatorAccount.byteValue → b.randReveal = []
  mix : b.randMix = mixHash H (parentMix p) k b.randReveal
  rand : b.randOracle = randFromMix H b.randMix

theorem RevealBound.congr (bound : RevealBound H db k b p n)
    (same : ∀ j, j ≤ k - 1 → db'.loadBlock j = db.loadBlock j) : RevealBound H db' k b p n where
  named := bound.named
  due g c last := bound.due g c (last.congr fun j low => (same j low).symm)
  lapsed g c last := bound.lapsed g c (last.congr fun j low => (same j low).symm)
  first none := bound.first (none.congr fun j low => (same j low).symm)
  mix := bound.mix
  rand := bound.rand

def stakes (staking : FinMap (Nat × AddressBytes) StakingAccount × FinMap Nat Int64) : Ledger :=
  { staking := staking.1 }

structure RevealInv (H : Bytes → Hash) (s : Node σ) : Prop where
  live : ∀ n a, Recorded s.db s.height n a (s.ledger.getRandCommit n a)
  snapshots : ∀ k staking, k ≤ s.height → s.db.stakingAt.lookup k = some (some staking) →
    ∀ n a, Recorded s.db k n a ((stakes staking).getRandCommit n a)
  bound : ∀ k b p, 0 < k → s.db.loadBlock k = some b → s.db.loadBlock (k - 1) = some p →
    ∃ n, RevealBound H s.db k b p n

/-- The first node: a genesis block at height zero, with snapshots, and no commitment made. -/
structure Genesis (env : Env σ) (start : Node σ) : Prop where
  sound : Sound env start
  height : start.height = 0
  uncommitted : ∀ n a, (start.ledger.getRandCommit n a).2 = 0
  snapshots : ∀ k staking, start.db.stakingAt.lookup k = some (some staking) →
    ∀ n a, ((stakes staking).getRandCommit n a).2 = 0

theorem Recorded.of_genesis (low : top ≤ 0) (none : r.2 = 0) : Recorded db top n a r := by
  obtain ⟨c, h⟩ := r
  cases none
  refine .never fun k b positive under => ?_
  exact absurd (Int64.lt_of_lt_of_le positive (Int64.le_trans under low)) Int64.lt_irrefl

theorem RevealInv.start {start : Node σ} (genesis : Genesis env start) : RevealInv H start where
  live n a := .of_genesis (genesis.height ▸ Int64.le_refl 0) (genesis.uncommitted n a)
  snapshots k staking low found n a :=
    .of_genesis (genesis.height ▸ low) (genesis.snapshots k staking found n a)
  bound k b p positive found := by
    have low := (genesis.sound.chain.load_facts found).2.2.2.2
    rw [genesis.height] at low
    exact absurd (Int64.lt_of_lt_of_le positive low) Int64.lt_irrefl

theorem revealDue_iff {g h : Int64} (positive : 0 < g) (below : g < h) :
    revealDue g h = true ↔ h.toInt - g.toInt ≤ Common.randaoCommitExpiry.toInt := by
  have range := toInt_range h
  rw [lt_iff, toInt_zero] at positive
  rw [lt_iff] at below
  have exact : (h - g).toInt = h.toInt - g.toInt := toInt_sub_of_fits (by omega) (by omega)
  have made : 0 < g := lt_iff.mpr positive
  simp only [revealDue, Bool.and_eq_true, decide_eq_true_eq, made, true_and, le_iff, exact]

theorem binds_withRandao (binds : HashBinds env) : HashBinds (env.withRandao H) where
  checked b p valid := binds.checked b p (Bool.and_eq_true_iff.mp valid).2
  fee := binds.fee
  height := binds.height

theorem extended_checks (above : newBlock.height ≠ 0)
    (step : Extended (env.withRandao H) s newBlock lastBlock block t) :
    MixFollows H newBlock lastBlock ∧
    ∃ n, intDelegatedAccountFromAddress newBlock.delegatedAccount = some n ∧
      RevealMatches H s.ledger newBlock n := by
  have valid := checkBaseBlock_valid step.base
  have stateless : verifyRandaoStateless H newBlock lastBlock = .ok () :=
    toBool_eq_true.mp (Bool.and_eq_true_iff.mp valid).1
  obtain ⟨u, run, -⟩ := step.accepted
  obtain ⟨_, _, _, _, _, via⟩ := checkBlockAndTransferFunds_ok run
  have header := via.header
  unfold checkHeader at header
  simp only [get_bind_run, failIf_bind_eq_ok, Bool.not_eq_false] at header
  obtain ⟨-, -, stake, -⟩ := header
  have reveal : verifyRandaoReveal H s.ledger newBlock = .ok () :=
    toBool_eq_true.mp (Bool.and_eq_true_iff.mp stake).2
  obtain ⟨n, named, -, reveals⟩ := verifyRandaoReveal_ok above reveal
  exact ⟨verifyRandaoStateless_ok above stateless, n, named, reveals⟩

theorem RevealInv.bound_here (inv : RevealInv H s) (sound : Sound (env.withRandao H) s)
    (step : Extended (env.withRandao H) s newBlock lastBlock block t) :
    ∃ n, RevealBound H t.db newBlock.height block lastBlock n := by
  obtain ⟨next, back, above, -⟩ := step.heights sound
  have filled := step.filled
  obtain ⟨follows, n, named, reveals⟩ := extended_checks above step
  have operator : block.operatorAccount = newBlock.operatorAccount := by rw [filled]
  have delegated : block.delegatedAccount = newBlock.delegatedAccount := by rw [filled]
  have reveal : block.randReveal = newBlock.randReveal := by rw [filled]
  have mix : block.randMix = newBlock.randMix := by rw [filled]
  have rand : block.randOracle = newBlock.randOracle := by rw [filled]
  have same : ∀ k, k ≤ s.height → s.db.loadBlock k = t.db.loadBlock k :=
    fun k low => (step.below sound low).symm
  have recorded := inv.live n newBlock.operatorAccount.byteValue
  -- the record of the parent state is the last block of the stored chain below the new one
  have due_of : ∀ g c, LastBy t.db s.height n newBlock.operatorAccount.byteValue g c →
      s.ledger.getRandCommit n newBlock.operatorAccount.byteValue = (c.randCommit, g) := by
    intro g c last
    have here := last.congr same
    generalize s.ledger.getRandCommit n newBlock.operatorAccount.byteValue = r at recorded
    cases recorded with
    | made last' =>
      obtain ⟨rfl, rfl⟩ := last'.unique here
      rfl
    | never none => exact absurd here.own (none g c here.positive here.le here.found)
  have younger : ∀ g c, LastBy t.db s.height n newBlock.operatorAccount.byteValue g c →
      g < newBlock.height := by
    intro g c last
    have low := last.le
    rw [le_iff] at low
    rw [lt_iff]
    omega
  refine ⟨n, delegated ▸ named, ?_, ?_, ?_, ?_, ?_⟩
  · intro g c last period
    rw [back, operator] at last
    have is_due := (revealDue_iff last.positive (younger g c last)).mpr period
    obtain ⟨present, opens⟩ := reveals.due (by rw [due_of g c last]; exact is_due)
    rw [due_of g c last] at opens
    rw [reveal]
    refine ⟨follows.length.resolve_left fun empty => ?_, opens⟩
    exact present (List.length_eq_zero_iff.mp empty)
  · intro g c last period
    rw [back, operator] at last
    have not_due : revealDue g newBlock.height = false := by
      rw [Bool.eq_false_iff]
      intro is_due
      have within := (revealDue_iff last.positive (younger g c last)).mp is_due
      omega
    rw [reveal]
    exact reveals.lapsed (by rw [due_of g c last]; exact not_due)
  · intro none
    rw [back, operator] at none
    have none' := none.congr same
    rw [reveal]
    refine reveals.lapsed ?_
    generalize s.ledger.getRandCommit n newBlock.operatorAccount.byteValue = r at recorded
    cases recorded with
    | made last => exact absurd last.own (none' _ _ last.positive last.le last.found)
    | never _ => rfl
  · rw [mix, reveal]
    exact follows.mix
  · rw [rand, mix]
    exact follows.rand

theorem RevealInv.extended (inv : RevealInv H s) (sound : Sound (env.withRandao H) s)
    (step : Extended (env.withRandao H) s newBlock lastBlock block t) :
    (∀ n a, Recorded t.db t.height n a (t.ledger.getRandCommit n a)) ∧
      ∀ k staking, k ≤ t.height → t.db.stakingAt.lookup k = some (some staking) →
        ∀ n a, Recorded t.db k n a ((stakes staking).getRandCommit n a) := by
  obtain ⟨next, back, above, between⟩ := step.heights sound
  have filled := step.filled
  obtain ⟨u, run, ledger⟩ := step.accepted
  obtain ⟨n, named, records⟩ := accepted_randao above run
  have less : s.height < newBlock.height := by
    rw [lt_iff]
    omega
  have same : ∀ k, k ≤ s.height → t.db.loadBlock k = s.db.loadBlock k :=
    fun k low => step.below sound low
  have own : By n newBlock.operatorAccount.byteValue block := by
    rw [filled]
    exact ⟨named, rfl⟩
  have live : ∀ m a, Recorded t.db newBlock.height m a (t.ledger.getRandCommit m a) := by
    intro m a
    rw [ledger, records m a]
    by_cases mine : (m, a) = (n, newBlock.operatorAccount.byteValue)
    · rw [if_pos mine]
      cases mine
      have commit : newBlock.randCommit = block.randCommit := by rw [filled]
      rw [commit]
      refine .made ⟨?_, Int64.le_refl _, step.here, own, fun k b' above' low => ?_⟩
      · have nonneg := sound.chain.nonneg
        rw [le_iff, toInt_zero] at nonneg
        rw [lt_iff, toInt_zero]
        omega
      · exact absurd above' (Int64.not_lt.mpr low)
    · rw [if_neg mine]
      refine (inv.live m a).other less between same step.here fun others => mine ?_
      obtain ⟨first, second⟩ := own
      obtain ⟨first', second'⟩ := others
      rw [first] at first'
      cases first'
      rw [← second, second']
  rw [step.height]
  refine ⟨live, fun k staking low found m a => ?_⟩
  rw [step.stakingAt] at found
  rcases between k low with under | rfl
  · have other : k ≠ newBlock.height := by
      rintro rfl
      exact absurd less (Int64.not_lt.mpr under)
    rw [lookup_insert_ne other] at found
    exact (inv.snapshots k staking under found m a).congr fun j low' =>
      same j (Int64.le_trans low' under)
  · rw [lookup_insert] at found
    cases found
    exact live m a

theorem RevealInv.rewound (undo : ∀ h e l, (env.evmReverted h e l).2.staking = l.staking)
    {target : Int64} {accounts : FinMap AddressBytes Account × FinMap Hash RecoveryBind}
    {staking : FinMap (Nat × AddressBytes) StakingAccount × FinMap Nat Int64}
    (inv : RevealInv H s) (cut : Rewound (env.withRandao H) s target accounts staking t) :
    (∀ n a, Recorded t.db t.height n a (t.ledger.getRandCommit n a)) ∧
      ∀ k staking, k ≤ t.height → t.db.stakingAt.lookup k = some (some staking) →
        ∀ n a, Recorded t.db k n a ((stakes staking).getRandCommit n a) := by
  obtain ⟨evm, ledger⟩ := cut.ledger
  rw [cut.height]
  refine ⟨fun n a => ?_, fun k staking' low found n a => ?_⟩
  · have same : t.ledger.staking = (stakes staking).staking := by
      rw [ledger]
      exact undo target evm (loadedLedger accounts staking)
    rw [getRandCommit_of_staking same]
    exact (inv.snapshots target staking cut.below cut.stakingAt n a).congr cut.low
  · rw [cut.stakingLow k low] at found
    exact (inv.snapshots k staking' (Int64.le_trans low cut.below) found n a).congr fun j low' =>
      cut.low j (Int64.le_trans low' low)

theorem RevealInv.step (undo : ∀ h e l, (env.evmReverted h e l).2.staking = l.staking)
    (inv : RevealInv H s) (sound : Sound (env.withRandao H) s) (sound' : Sound (env.withRandao H) t)
    (step : ChainStep (env.withRandao H) s t) : RevealInv H t := by
  have bound := step.pairs (Q := fun db k b p => ∃ n, RevealBound H db k b p n) sound sound'
    (fun same ⟨n, bound⟩ => ⟨n, bound.congr same⟩) (fun how => inv.bound_here sound how) inv.bound
  cases step with
  | extended how =>
    obtain ⟨live, snapshots⟩ := inv.extended sound how
    exact ⟨live, snapshots, bound⟩
  | rewound how =>
    obtain ⟨live, snapshots⟩ := inv.rewound undo how
    exact ⟨live, snapshots, bound⟩
  | idle how =>
    refine ⟨fun n a => ?_, fun k staking low found n a => ?_, bound⟩
    · rw [how.ledger, how.height]
      exact (inv.live n a).congr fun k _ => how.loads k
    · rw [how.height] at low
      exact (inv.snapshots k staking low (how.stakingAt k _ found) n a).congr fun j _ => how.loads j

/-- In every run of blocks and rewinds, every stored block reveals the seed its operator
committed to in its last earlier block under the same delegated account, while that commitment
binds, and nothing otherwise; its mix and its random value follow from the parent's mix, the
height and the reveal. -/
theorem reveals_open_last_commitment (env : Env σ) (H : Bytes → Hash) (binds : HashBinds env)
    (undo : ∀ h e l, (env.evmReverted h e l).2.staking = l.staking)
    (injective : ∀ x y : Bytes, x.length = randaoSeedLength → y.length = randaoSeedLength →
      randaoCommitment H x = randaoCommitment H y → x = y)
    (start : Node σ) (genesis : Genesis (env.withRandao H) start) (s : Node σ)
    (run : ChainRun (env.withRandao H) start s) (k : Int64) (b p : Block) (positive : 0 < k)
    (stored : s.db.loadBlock k = some b) (parent : s.db.loadBlock (k - 1) = some p) :
    ∃ n, intDelegatedAccountFromAddress b.delegatedAccount = some n ∧
      (∀ g c, LastBy s.db (k - 1) n b.operatorAccount.byteValue g c →
        k.toInt - g.toInt ≤ Common.randaoCommitExpiry.toInt →
        b.randReveal.length = randaoSeedLength ∧
          ∀ seed : Bytes, seed.length = randaoSeedLength →
            (randaoCommitment H seed = c.randCommit ↔ seed = b.randReveal)) ∧
      (∀ g c, LastBy s.db (k - 1) n b.operatorAccount.byteValue g c →
        Common.randaoCommitExpiry.toInt < k.toInt - g.toInt → b.randReveal = []) ∧
      (NoneBy s.db (k - 1) n b.operatorAccount.byteValue → b.randReveal = []) ∧
      b.randMix = mixHash H (parentMix p) k b.randReveal ∧
      b.randOracle = randFromMix H b.randMix := by
  have kept : Sound (env.withRandao H) s ∧ RevealInv H s := by
    refine ChainRun.keeps (binds_withRandao binds) genesis.sound (RevealInv.start genesis) ?_ run
    exact fun s t sound sound' step inv => inv.step undo sound sound' step
  obtain ⟨n, bound⟩ := kept.2.bound k b p positive stored parent
  refine ⟨n, bound.named, ?_, bound.lapsed, bound.first, bound.mix, bound.rand⟩
  intro g c last period
  obtain ⟨length, opens⟩ := bound.due g c last period
  refine ⟨length, fun seed sized => ⟨fun same => ?_, fun same => same ▸ opens⟩⟩
  exact injective seed b.randReveal sized length (same.trans opens.symm)

/-- A hash that reads the last thirty-two bytes, so it opens to one seed. -/
def lastBytes (b : Bytes) : Hash :=
  BitVec.ofNat 256 (Nat.ofDigits 256 ((b.drop (b.length - randaoSeedLength)).map UInt8.toNat))

theorem lastBytes_commitment {x y : Bytes} (first : x.length = randaoSeedLength)
    (second : y.length = randaoSeedLength)
    (same : randaoCommitment lastBytes x = randaoCommitment lastBytes y) : x = y := by
  have reads : ∀ z : Bytes, z.length = randaoSeedLength → randaoCommitment lastBytes z =
      BitVec.ofNat 256 (Nat.ofDigits 256 (z.map UInt8.toNat)) := by
    intro z sized
    unfold randaoCommitment domainHash lastBytes bytesToLenAndBytes
    simp only [List.foldl_cons, foldl_nil, ← append_assoc, length_append, sized]
    rw [Nat.add_sub_cancel, ← sized, drop_left' (by simp only [length_append])]
  have digits : ∀ z : Bytes, ∀ d ∈ z.map UInt8.toNat, d < 256 := by
    intro z d member
    obtain ⟨u, -, rfl⟩ := List.mem_map.mp member
    exact u.toNat_lt
  have bound : ∀ z : Bytes, z.length = randaoSeedLength →
      Nat.ofDigits 256 (z.map UInt8.toNat) < 2 ^ 256 := by
    intro z sized
    have less := Nat.ofDigits_lt_base_pow_length (by decide) (digits z)
    rw [length_map, sized] at less
    exact less
  rw [reads x first, reads y second] at same
  have equal := congrArg BitVec.toNat same
  rw [BitVec.toNat_ofNat, BitVec.toNat_ofNat, Nat.mod_eq_of_lt (bound x first),
    Nat.mod_eq_of_lt (bound y second)] at equal
  have maps := Nat.ofDigits_inj_of_len_eq (by decide) (by simp [first, second]) (digits x)
    (digits y) equal
  exact List.map_injective_iff.mpr (fun _ _ => UInt8.toNat_inj.mp) maps

/-- The block with the mix and the random value that follow from its parent and its reveal. -/
def Block.drawn (b p : Block) : Block :=
  let mix := mixHash lastBytes (parentMix p) b.height b.randReveal
  { b with randMix := mix, randOracle := randFromMix lastBytes mix }

def seed : Bytes := List.replicate 32 7

def committing : Block :=
  Block.drawn { stamped 1 0 genesisBlock.blockHash with
    randCommit := randaoCommitment lastBytes seed } genesisBlock

def revealing : Block :=
  Block.drawn { stamped 2 0 committing.blockHash with
    randCommit := randaoCommitment lastBytes [], randReveal := seed } committing

def revealEnv : Env Unit := Env.stamped.withRandao lastBytes

def committed : Node Unit :=
  ((Node.genesis genesisBlock).applyAndStore revealEnv .none committing genesisBlock).1

def revealed : Node Unit := (committed.applyAndStore revealEnv .none revealing committing).1

theorem getRandCommit_small (n : Nat) (a : AddressBytes) :
    ((Node.small [] []).ledger.getRandCommit n a).2 = 0 := by
  unfold getRandCommit
  by_cases same : (n, a) = (1, 0xAA)
  · rw [same]
    rfl
  · have absent : (Node.small [] []).ledger.staking.lookup (n, a) = none :=
      lookup_insert_ne same
    rw [absent]

theorem genesis_uncommitted : Genesis revealEnv (Node.genesis genesisBlock) where
  sound := Sound.genesis rfl rfl (by decide +kernel)
  height := rfl
  uncommitted := getRandCommit_small
  snapshots := by
    intro k staking found n a
    by_cases zero : k = 0
    · subst zero
      cases (lookup_insert _).symm.trans found
      exact getRandCommit_small n a
    · cases (lookup_insert_ne zero).symm.trans found

theorem revealed_opens : ChainRun revealEnv (Node.genesis genesisBlock) revealed ∧
    revealed.db.loadBlock 2 = some revealing ∧
    ∀ x : Bytes, x.length = randaoSeedLength →
      (randaoCommitment lastBytes x = committing.randCommit ↔ x = revealing.randReveal) := by
  have first : committed.db.loadBlock 1 = some committing := by decide +kernel
  have one : committed.height = 1 := by decide +kernel
  have run : ChainRun revealEnv (Node.genesis genesisBlock) revealed := by
    refine .block (.block .start .none ?_ ?_ ?_ ?_) .none ?_ ?_ ?_ ?_
    · decide +kernel
    · decide +kernel
    · decide +kernel
    · decide +kernel
    · exact (congrArg _ one).trans first
    · exact (congrArg (· + 1) one.symm)
    · change committed.height.toInt + 1 < 2 ^ 62
      rw [one]
      decide
    · decide +kernel
  have second : revealed.db.loadBlock 2 = some revealing := by decide +kernel
  have parent : revealed.db.loadBlock (2 - 1) = some committing := by decide +kernel
  obtain ⟨n, named, due, -⟩ := reveals_open_last_commitment Env.stamped lastBytes
    Env.stamped_binds (fun _ _ _ => rfl) (fun _ _ => lastBytes_commitment)
    (Node.genesis genesisBlock) genesis_uncommitted revealed run 2 revealing committing (by decide)
    second parent
  have last : LastBy revealed.db (2 - 1) n revealing.operatorAccount.byteValue 1 committing :=
    { positive := by decide
      le := by decide
      found := parent
      own := ⟨named, rfl⟩
      last := fun k b' above low => absurd (Int64.lt_of_lt_of_le above low) (by decide) }
  exact ⟨run, second, (due 1 committing last (by decide)).2⟩

end QwidNode.Guarantees
