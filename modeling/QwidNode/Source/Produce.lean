import QwidNode.Source.CheckBlock

/-!
# What goes into the main pool and out of it

Source: `services/transactionServices/onmessage.go:459-506` and `:534-537`, and the main-pool
branch of `handleCNCL` (`rpc/server/server.go:1070-1081`). Storing to the database succeeds, so
the `refusedStore` answer does not occur.
-/
namespace QwidNode.Source
open Lib
variable {σ : Type}

inductive Admission where
  | admitted
  | alreadyKnown
  | refusedHeight
  | refusedBelowMinStaking
  | refusedUnpayable
deriving DecidableEq, Repr

def Node.admissibleTxHeight (s : Node σ) (txHeight : Int64) : Bool :=
  transactionHeightInWindow txHeight (s.height + 1)

def belowMinStaking (t : Transaction) : Bool :=
  match intDelegatedAccountFromAddress t.txData.recipient with
  | some n => decide (n < 256) && decide (0 < t.amount) &&
      decide (t.amount < Common.minStakingUser) && t.txData.lockedAmount == 0
  | none => false

def Node.payable (s : Node σ) (t : Transaction) (fee : Int64) : Bool :=
  match s.ledger.account? t.sender with
  | none => false
  | some acc => !decide (acc.balance < s.poolsTx.pendingSpend t.sender + (fee + t.amount))

def Node.admitToPool (s : Node σ) (t : Transaction) : Node σ × Admission :=
  if s.admissibleTxHeight t.height = false then (s, .refusedHeight)
  else if s.poolsTx.hasTransaction t.hash || (s.db.confirmedTx.lookup t.hash).isSome then
    (s, .alreadyKnown)
  else if belowMinStaking t then (s, .refusedBelowMinStaking)
  else
    match t.calcFee with
    | none => (s, .refusedUnpayable)
    | some fee =>
      if s.payable t fee = false then (s, .refusedUnpayable)
      else
        let r := s.poolsTx.addTransaction t t.hash
        if r.2 then
          ({ s with poolsTx := r.1, db := s.db.storeTx .pool t }, .admitted)
        else ({ s with poolsTx := r.1 }, .alreadyKnown)

def Node.dropPooled (s : Node σ) (hash : Hash) : Node σ :=
  { s with poolsTx := s.poolsTx.removeTransactionByHash hash }

/-- `handleCNCL` on a pooled transaction: the owner takes it out, anyone else's request puts it
back, and neither touches the recorded spend of the popped one. -/
def Node.handleCNCL (s : Node σ) (owner : AddressBytes) (hash : Hash) : Node σ :=
  match s.poolsTx.popTransactionByHash hash with
  | (_, none) => s
  | (rest, some tx) =>
    if tx.sender = owner then { s with poolsTx := rest.banTransactionByHash hash }
    else { s with poolsTx := (rest.addTransaction tx tx.hash).1 }

end QwidNode.Source
