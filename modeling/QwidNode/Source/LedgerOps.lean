import QwidNode.Source.PoolFrame
import QwidNode.Source.StakingFacts

/-!
# The writes of block application to the ledger

Every place that writes accounts, recovery binds or staking entries while a block is
evaluated and applied is one of the operations below; what it may change is
`LedgerOp.Writes`. A balance or a counter is an `entry` write, which keeps the policy and
the recovery commitments of the account; a staking operation keeps the RANDAO commitment.
-/
namespace QwidNode.Source
open Lib

def Account.policy (acc : Account) : Int64 × UInt8 × List AddressBytes :=
  (acc.transactionDelay, acc.multiSignNumber, acc.multiSignAddresses)

theorem Account.restricted_congr {acc acc' : Account} (same : acc'.policy = acc.policy) :
    acc'.restricted ↔ acc.restricted := by
  simp only [Account.policy, Prod.mk.injEq] at same
  simp only [Account.restricted, same.1, same.2.1]

/-- The two commitments of an account, each with its pending value, and the height they
share. -/
def Account.commitments (acc : Account) :
    AddressBytes × AddressBytes × AddressBytes × AddressBytes × Int64 :=
  (acc.recoveryCommit, acc.recoveryPendingCommit, acc.spareCommit, acc.sparePendingCommit,
    acc.recoveryPendingHeight)

def Ledger.getRandCommit (l : Ledger) (n : Nat) (a : AddressBytes) : Hash × Int64 :=
  match l.staking.lookup (n, a) with
  | some acc => (acc.randCommit, acc.randCommitHeight)
  | none => (0, 0)

inductive LedgerOp where
  /-- A balance or a counter, or the creation of the account. -/
  | entry (a : AddressBytes)
  /-- `ModifyAccountToEscrow` or `ModifyAccountToMultiSign`. -/
  | policy (a : AddressBytes)
  /-- `SetAccountCommitments`. -/
  | commit (a spare c : AddressBytes) (height : Int64)
  /-- `ConsumeAccountRecoveryCommit`. -/
  | consume (a next : AddressBytes)
  /-- `AddRecoveryBind`. -/
  | bind (key : Hash) (b : RecoveryBind)
  /-- `DeleteRecoveryBind`. -/
  | unbind (key : Hash)
  /-- `Stake`, `Unstake`, `Reward` or `WithdrawReward`. -/
  | staking (n : Nat) (a : AddressBytes)
  /-- `SetRandCommit`. -/
  | randCommit (n : Nat) (a : AddressBytes) (value : Hash) (height : Int64)

def LedgerOp.Writes (op : LedgerOp) (l l' : Ledger) : Prop :=
  match op with
  | .entry a => ∃ acc, acc.policy = (l.accountOrNew a).policy ∧
      acc.commitments = (l.accountOrNew a).commitments ∧ l' = l.putAccount a acc
  | .policy a => ∃ acc, ¬ (l.accountOrNew a).restricted ∧
      acc.commitments = (l.accountOrNew a).commitments ∧ l' = l.putAccount a acc
  | .commit a spare c height => l.setAccountCommitments a spare c height = .ok l'
  | .consume a next => l.consumeAccountRecoveryCommit a next = .ok l'
  | .bind key b => l' = l.addRecoveryBind key b
  | .unbind key => l' = l.deleteRecoveryBind key
  | .staking n a => ∃ acc changed, acc.randao = l.getRandCommit n a ∧
      l' = { l with staking := l.staking.insert (n, a) acc, stakeChangedAt := changed }
  | .randCommit n a value height => l.setRandCommit n a value height = .ok l'

namespace Ledger
variable {l l' : Ledger} {a : AddressBytes}

theorem account?_putAccount (l : Ledger) (a b : AddressBytes) (acc : Account) :
    (l.putAccount a acc).account? b = if b = a then some acc else l.account? b := by
  unfold Ledger.account? Ledger.putAccount
  by_cases same : b = a
  · subst same
    rw [if_pos rfl, AList.lookup_insert]
  · rw [if_neg same, AList.lookup_insert_ne same]

theorem accountOrNew_of_some {acc : Account} (found : l.account? a = some acc) :
    l.accountOrNew a = acc := by
  rw [accountOrNew, found]
  rfl

theorem entry_writes (l : Ledger) (a : AddressBytes) {f : Account → Account}
    (policy : ∀ acc, (f acc).policy = acc.policy)
    (commitments : ∀ acc, (f acc).commitments = acc.commitments) :
    (LedgerOp.entry a).Writes l (l.putAccount a (f (l.accountOrNew a))) :=
  ⟨_, policy _, commitments _, rfl⟩

theorem addTransactionsSender_writes (l : Ledger) (a : AddressBytes) :
    (LedgerOp.entry a).Writes l (l.addTransactionsSender a) :=
  l.entry_writes a (f := fun acc => { acc with sentCount := acc.sentCount + 1 })
    (fun _ => rfl) fun _ => rfl

theorem addTransactionsRecipient_writes (l : Ledger) (a : AddressBytes) :
    (LedgerOp.entry a).Writes l (l.addTransactionsRecipient a) :=
  l.entry_writes a (f := fun acc => { acc with receivedCount := acc.receivedCount + 1 })
    (fun _ => rfl) fun _ => rfl

theorem setBalance_writes (l : Ledger) (a : AddressBytes) (balance : Int64) :
    (LedgerOp.entry a).Writes l (l.setBalance a balance) := by
  unfold setBalance
  cases found : l.account? a with
  | some acc =>
    refine ⟨_, ?_, ?_, rfl⟩
    · rw [accountOrNew_of_some found]
      rfl
    · rw [accountOrNew_of_some found]
      rfl
  | none =>
    refine ⟨_, ?_, ?_, rfl⟩
    · rw [accountOrNew, found]
      rfl
    · rw [accountOrNew, found]
      rfl

theorem create_writes (missing : l.account? a = none) :
    (LedgerOp.entry a).Writes l (l.putAccount a { address := a }) := by
  refine ⟨_, ?_, ?_, rfl⟩
  · rw [accountOrNew, missing]
    rfl
  · rw [accountOrNew, missing]
    rfl

end Ledger

theorem Ledger.randao_entryAt (l : Ledger) (n : Nat) (a : AddressBytes) :
    (l.entryAt (n, a)).randao = l.getRandCommit n a := by
  unfold entryAt getRandCommit
  cases l.staking.lookup (n, a) with
  | some acc => rfl
  | none => rfl

namespace StakingCall
variable {l l' : Ledger}

theorem ledgerOp_writes (call : StakingCall) (low : call.key.1 < 256)
    (randao : ∀ old, call.randaoAfter old = old.randao) (run : call.run l = .ok l') :
    (LedgerOp.staking call.key.1 call.key.2).Writes l l' := by
  obtain ⟨new, writes⟩ := writes_of_ok run
  obtain ⟨changed, written⟩ := writes.written
  refine ⟨new, changed, ?_, written⟩
  rw [writes.turns.randao, randao, entry_eq l low]
  exact l.randao_entryAt call.key.1 call.key.2

end StakingCall

namespace Ledger
variable {l l' : Ledger} {a : AddressBytes} {n : Nat}

theorem stake_writes {c : StakeCall} (low : c.delegatedAccount < 256)
    (run : l.stake a c = .ok l') : (LedgerOp.staking c.delegatedAccount a).Writes l l' :=
  (StakingCall.stake a c).ledgerOp_writes low (fun _ => rfl) run

theorem unstake_writes {amount height time : Int64} (low : n < 256)
    (run : l.unstake a amount height time n = .ok l') : (LedgerOp.staking n a).Writes l l' :=
  (StakingCall.unstake a amount height time n).ledgerOp_writes low (fun _ => rfl) run

theorem reward_writes {amount height now : Int64} (low : n < 256)
    (run : l.reward a amount height now n = .ok l') : (LedgerOp.staking n a).Writes l l' :=
  (StakingCall.reward a amount height now n).ledgerOp_writes low (fun _ => rfl) run

theorem withdrawReward_writes {amount height now : Int64} (low : n < 256)
    (run : l.withdrawReward a amount height now n = .ok l') :
    (LedgerOp.staking n a).Writes l l' :=
  (StakingCall.withdrawReward a amount height now n).ledgerOp_writes low (fun _ => rfl) run

end Ledger
end QwidNode.Source
