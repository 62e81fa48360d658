import QwidNode.Source.Node

/-!
# Who may produce blocks

Source: `account/accountsStakingStates.go:243-360`. A delegated account is eligible when its
total stake reaches the minimum, it has an operator, and at most 127 other delegated
accounts rank before it.
-/
namespace QwidNode.Source
open Lib

def maxActiveStakingNodes : Nat := 128

namespace Ledger

/-- The staking entries of a delegated account, with their addresses. -/
def shardEntries (l : Ledger) (n : Nat) : List (AddressBytes × StakingAccount) :=
  (l.staking.entries.filter fun e => e.1.1 == n).map fun e => (e.1.2, e.2)

def delegatedTotal (l : Ledger) (n : Nat) : Int64 :=
  (l.shardEntries n).foldl (fun sum e => sum + e.2.stakedBalance) 0

/-- The operator `eligibleOperatorLocked` selects. Its loop compares like the one of
`GetStakedInDelegatedAccount`, but starts below a stake of zero and reads the address off
the key of the map. -/
def selectedOperator (l : Ledger) (n : Nat) : OperatorChoice :=
  (l.shardEntries n).foldl (fun best e =>
    if displaces best { e.2 with address := e.1 }
    then (e.2.stakedBalance, e.2.operationalSince, e.1) else best) (-1, 0, 0)

def ranksBefore (l : Ledger) (n id : Nat) : Bool :=
  let stake := l.delegatedTotal id
  let targetStake := l.delegatedTotal n
  let candidateTime := (l.stakeChangedAt.lookup id).getD 0
  let targetTime := (l.stakeChangedAt.lookup n).getD 0
  id != n && (targetStake < stake || (stake == targetStake &&
    (candidateTime < targetTime || (candidateTime == targetTime && id < n))))

def eligibleOperator (l : Ledger) (n : Nat) : AddressBytes × Bool :=
  if l.delegatedTotal n < Common.minStakingForNode then (0, false)
  else
    let selected := l.selectedOperator n
    if selected.1 < 0 then (selected.2.2, false)
    else
      let rank := 1 + ((List.range 256).filter (l.ranksBefore n)).length
      (selected.2.2, decide (rank ≤ maxActiveStakingNodes))

def isTop128StakingNode (l : Ledger) (n : Nat) (operator : AddressBytes) : Bool :=
  if n = 0 ∨ 256 ≤ n then false
  else
    let selected := l.eligibleOperator n
    selected.2 && selected.1 == operator

def entitles (l : Ledger) (block : Block) : Bool :=
  match intDelegatedAccountFromAddress block.delegatedAccount with
  | none => false
  | some n => l.isTop128StakingNode n block.operatorAccount.byteValue

end Ledger

end QwidNode.Source
