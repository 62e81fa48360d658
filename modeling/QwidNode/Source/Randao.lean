import QwidNode.Source.ApplyTraversal
import QwidNode.Source.Bytes

/-!
# RANDAO

Source: `blocks/randao.go`, `account/stakeAccount.go:496-521` and `common/helper.go:131-137`. Every
block mixes in one contribution, the seed its operator committed to in the last block it produced.
-/
namespace QwidNode.Source
open Lib
variable {σ : Type} {H : Bytes → Hash}
variable {op : LedgerOp} {height : Int64}

def randaoMixDomain : Bytes :=
  [81, 87, 73, 68, 45, 82, 65, 78, 68, 65, 79, 45, 109, 105, 120, 45, 118, 49]

def randaoCommitDomain : Bytes :=
  [81, 87, 73, 68, 45, 82, 65, 78, 68, 65, 79, 45, 99, 111, 109, 109, 105, 116, 45, 118, 49]

def randaoRandDomain : Bytes := [81, 87, 73, 68, 45, 82, 65, 78, 68, 45, 118, 49]

def randaoSeedLength : Nat := Common.hashLength

def domainHash (H : Bytes → Hash) (domain : Bytes) (parts : List Bytes) : Hash :=
  H (parts.foldl (fun b part => b ++ bytesToLenAndBytes part) (bytesToLenAndBytes domain))

def randaoCommitment (H : Bytes → Hash) (seed : Bytes) : Hash :=
  domainHash H randaoCommitDomain [seed]

def parentMix (parent : Block) : Hash :=
  if parent.height = 0 then parent.blockHash else parent.randMix

def mixHash (H : Bytes → Hash) (prev : Hash) (height : Int64) (reveal : Bytes) : Hash :=
  domainHash H randaoMixDomain [prev.getBytes, getByteInt64 height, reveal]

/-- `randFromMix`: the first eight bytes of a hash of the mix, without the last bit. -/
def randFromMix (H : Bytes → Hash) (mix : Hash) : Int64 :=
  Int64.ofNat ((domainHash H randaoRandDomain [mix.getBytes]).toNat / 2 ^ 192 / 2)

def revealDue (commitHeight height : Int64) : Bool :=
  0 < commitHeight && height - commitHeight ≤ Common.randaoCommitExpiry

inductive RandaoError where
  | revealLength (bytes : Nat)
  | noCommitment
  | oracleDataPresent
  | mixDoesNotFollow
  | randNotDerived
  | wrongDelegatedAccount
  | revealWithoutCommitment
  | mustReveal (commitHeight : Int64)
  | doesNotOpen (commitHeight : Int64)
deriving DecidableEq, Repr

def verifyRandaoStateless (H : Bytes → Hash) (newBlock lastBlock : Block) :
    Except RandaoError Unit :=
  if newBlock.height = 0 then .ok ()
  else if newBlock.randReveal.length ≠ 0 ∧ newBlock.randReveal.length ≠ randaoSeedLength then
    .error (.revealLength newBlock.randReveal.length)
  else if newBlock.randCommit = 0 then .error .noCommitment
  else if newBlock.randOracleData.length ≠ 0 then .error .oracleDataPresent
  else if newBlock.randMix ≠ mixHash H (parentMix lastBlock) newBlock.height newBlock.randReveal then
    .error .mixDoesNotFollow
  else if newBlock.randOracle ≠ randFromMix H newBlock.randMix then .error .randNotDerived
  else .ok ()

def verifyRandaoReveal (H : Bytes → Hash) (l : Ledger) (newBlock : Block) :
    Except RandaoError Unit :=
  if newBlock.height = 0 then .ok ()
  else
    match intDelegatedAccountFromAddress newBlock.delegatedAccount with
    | none => .error .wrongDelegatedAccount
    | some n =>
      if n < 1 ∨ 255 < n then .error .wrongDelegatedAccount
      else
        let (commit, commitHeight) := l.getRandCommit n newBlock.operatorAccount.byteValue
        if revealDue commitHeight newBlock.height = false then
          if newBlock.randReveal.length ≠ 0 then .error .revealWithoutCommitment else .ok ()
        else if newBlock.randReveal.length = 0 then .error (.mustReveal commitHeight)
        else if randaoCommitment H newBlock.randReveal ≠ commit then
          .error (.doesNotOpen commitHeight)
        else .ok ()

/-- The environment with the RANDAO checks in `CheckBaseBlock` and `VerifyStakeDependent`; the
rest of the two is that of the given environment. -/
def Env.withRandao (H : Bytes → Hash) (env : Env σ) : Env σ :=
  { env with
    baseBlockValid := fun newBlock lastBlock =>
      (verifyRandaoStateless H newBlock lastBlock).toBool && env.baseBlockValid newBlock lastBlock
    stakeDependentValid := fun l newBlock lastBlock =>
      env.stakeDependentValid l newBlock lastBlock && (verifyRandaoReveal H l newBlock).toBool }

variable {newBlock lastBlock : Block} {l l' : Ledger}

theorem toBool_eq_true {ε : Type} {x : Except ε Unit} : x.toBool = true ↔ x = .ok () := by
  cases x with
  | ok u => simp [Except.toBool]
  | error e => simp [Except.toBool]

structure MixFollows (H : Bytes → Hash) (newBlock lastBlock : Block) : Prop where
  length : newBlock.randReveal.length = 0 ∨ newBlock.randReveal.length = randaoSeedLength
  commits : newBlock.randCommit ≠ 0
  mix : newBlock.randMix = mixHash H (parentMix lastBlock) newBlock.height newBlock.randReveal
  rand : newBlock.randOracle = randFromMix H newBlock.randMix

theorem verifyRandaoStateless_ok (above : newBlock.height ≠ 0)
    (passed : verifyRandaoStateless H newBlock lastBlock = .ok ()) :
    MixFollows H newBlock lastBlock := by
  simp only [verifyRandaoStateless, if_neg above, ite_error_eq_ok, ne_eq, not_not, not_and_or]
    at passed
  obtain ⟨length, commits, -, mix, rand, -⟩ := passed
  exact ⟨length, commits, mix, rand⟩

/-- What the check against the staking state accepts above the genesis block: the reveal opens
the recorded commitment when one is due, and is empty otherwise. -/
structure RevealMatches (H : Bytes → Hash) (l : Ledger) (newBlock : Block) (n : Nat) : Prop where
  due : revealDue (l.getRandCommit n newBlock.operatorAccount.byteValue).2 newBlock.height = true →
    newBlock.randReveal ≠ [] ∧ randaoCommitment H newBlock.randReveal =
      (l.getRandCommit n newBlock.operatorAccount.byteValue).1
  lapsed : revealDue (l.getRandCommit n newBlock.operatorAccount.byteValue).2 newBlock.height =
    false → newBlock.randReveal = []

theorem verifyRandaoReveal_ok (above : newBlock.height ≠ 0)
    (passed : verifyRandaoReveal H l newBlock = .ok ()) :
    ∃ n, intDelegatedAccountFromAddress newBlock.delegatedAccount = some n ∧ n < 256 ∧
      RevealMatches H l newBlock n := by
  unfold verifyRandaoReveal at passed
  rw [if_neg above] at passed
  cases named : intDelegatedAccountFromAddress newBlock.delegatedAccount with
  | none =>
    rw [named] at passed
    cases passed
  | some n =>
    simp only [named, ite_error_eq_ok] at passed
    obtain ⟨inRange, passed⟩ := passed
    refine ⟨n, rfl, by omega, ?_, ?_⟩
    · intro due
      rw [if_neg (by simp [due])] at passed
      simp only [ite_error_eq_ok, ne_eq, not_not] at passed
      exact ⟨fun empty => passed.1 (by rw [empty]; rfl), passed.2.1⟩
    · intro lapsed
      rw [if_pos lapsed] at passed
      simp only [ite_error_eq_ok, ne_eq, not_not] at passed
      exact List.length_eq_zero_iff.mp passed.1

def RandaoKept (s t : Node σ) : Prop :=
  ∀ n a, t.ledger.getRandCommit n a = s.ledger.getRandCommit n a

instance : IsPreorder (Node σ) RandaoKept where
  refl _ _ _ := rfl
  trans _ _ _ first second n a := (second n a).trans (first n a)

def LedgerOp.KeepsRandao : LedgerOp → Prop
  | .randCommit _ _ _ _ => False
  | _ => True

theorem Ledger.getRandCommit_of_staking (same : l'.staking = l.staking) (n : Nat)
    (a : AddressBytes) : l'.getRandCommit n a = l.getRandCommit n a := by
  rw [getRandCommit, getRandCommit, same]

theorem Ledger.getRandCommit_insert (l : Ledger) (n m : Nat) (a b : AddressBytes)
    (acc : StakingAccount) :
    { l with staking := l.staking.insert (n, a) acc }.getRandCommit m b =
      if (m, b) = (n, a) then acc.randao else l.getRandCommit m b := by
  unfold getRandCommit
  by_cases same : (m, b) = (n, a)
  · rw [same, if_pos rfl, AList.lookup_insert]
    rfl
  · rw [if_neg same, AList.lookup_insert_ne same]

theorem LedgerOp.getRandCommit (keeps : op.KeepsRandao) (writes : op.Writes l l') (n : Nat)
    (a : AddressBytes) : l'.getRandCommit n a = l.getRandCommit n a := by
  cases op with
  | entry b =>
    obtain ⟨acc, -, -, rfl⟩ := writes
    exact Ledger.getRandCommit_of_staking rfl n a
  | policy b =>
    obtain ⟨acc, -, -, rfl⟩ := writes
    exact Ledger.getRandCommit_of_staking rfl n a
  | commit b spare c height =>
    simp only [LedgerOp.Writes, Ledger.setAccountCommitments] at writes
    split at writes
    · cases writes
      exact Ledger.getRandCommit_of_staking rfl n a
    · cases writes
  | consume b next =>
    simp only [LedgerOp.Writes, Ledger.consumeAccountRecoveryCommit] at writes
    split at writes
    · cases writes
      exact Ledger.getRandCommit_of_staking rfl n a
    · cases writes
  | bind key b =>
    rw [show l' = l.addRecoveryBind key b from writes, Ledger.addRecoveryBind]
    split
    · rfl
    · exact Ledger.getRandCommit_of_staking rfl n a
  | unbind key =>
    rw [show l' = l.deleteRecoveryBind key from writes]
    exact Ledger.getRandCommit_of_staking rfl n a
  | staking m b =>
    obtain ⟨acc, changed, same, rfl⟩ := writes
    have inserted := l.getRandCommit_insert m n b a acc
    by_cases here : (n, a) = (m, b)
    · rw [if_pos here, same] at inserted
      cases here
      exact inserted
    · rw [if_neg here] at inserted
      exact inserted
  | randCommit m b value height => exact keeps.elim

theorem randaoKept_ledgerMoves :
    LedgerMoves LedgerOp.KeepsRandao (fun _ => True) (RandaoKept (σ := σ)) where
  write keeps writes n a := LedgerOp.getRandCommit keeps writes n a
  record _ _ _ _ _ := rfl

theorem PoolFrame.randaoKept {s t : Node σ} (frame : PoolFrame s t) : RandaoKept s t :=
  fun n a => by rw [frame.ledger]

theorem randaoKept_applyMoves (env : Env σ) :
    ApplyMoves env LedgerOp.KeepsRandao (fun _ => True) (RandaoKept (σ := σ)) :=
  .of_poolFrame PoolFrame.randaoKept randaoKept_ledgerMoves

theorem LedgerOp.Of.keepsRandao {env : Env σ} {tx : Transaction}
    (does : LedgerOp.Of env tx height op) : op.KeepsRandao := by
  cases does with
  | _ => trivial

theorem LedgerOp.Settles.keepsRandao {held : Transaction} (does : LedgerOp.Settles held height op) :
    op.KeepsRandao := by
  cases does with
  | _ => trivial

theorem Ledger.getRandCommit_setRandCommit {n : Nat} {a : AddressBytes} {commit : Hash}
    (run : l.setRandCommit n a commit height = .ok l') (m : Nat) (b : AddressBytes) :
    l'.getRandCommit m b =
      if (m, b) = (n, a) then (commit, height) else l.getRandCommit m b := by
  unfold setRandCommit at run
  split at run
  · next acc found =>
    cases run
    exact l.getRandCommit_insert n m a b { acc with randCommit := commit, randCommitHeight := height }
  · cases run

end QwidNode.Source
