import QwidNode.Lib.Lookup
import QwidNode.Source.StateDB

/-!
# The operations of the EVM on the state database

Source: `core/stateDB/methods.go:112-452`, `core/stateDB/journal.go:129-149` and
`blocks/evaluate.go:79-89`. Each operation that writes appends the entry that takes its write
back; `Op` lists them and `exec` runs one.
-/
namespace QwidNode.Source
open Lib

namespace StateAccount

def createAccount (sa : StateAccount) (a : AddressBytes) : StateAccount :=
  { sa with
    journal := sa.journal ++ [.createAccount a (sa.accounts.lookup a)]
    accounts := sa.accounts.insert a { address := a } }

def setNonce (sa : StateAccount) (a : AddressBytes) (n : UInt64) : StateAccount :=
  { sa with
    journal := sa.journal ++ [.nonce a (sa.nonces.lookup a)]
    nonces := sa.nonces.insert a n }

def setCode (keccak : Bytes → Hash) (sa : StateAccount) (a : AddressBytes) (c : Bytes) :
    StateAccount :=
  { sa with
    journal := sa.journal ++ [.code a ((sa.codes.lookup a).map fun code =>
      (code, (sa.codeHashes.lookup a).getD 0))]
    codes := sa.codes.insert a c
    codeHashes := sa.codeHashes.insert a (keccak c) }

def addRefund (sa : StateAccount) (gas : UInt64) : StateAccount :=
  { sa with refund := sa.refund + gas }

def subRefund (sa : StateAccount) (gas : UInt64) : StateAccount :=
  { sa with refund := if sa.refund < gas then 0 else sa.refund - gas }

def slot? (sa : StateAccount) (a : AddressBytes) (h : Hash) : Option Hash :=
  FinMap.lookup2 sa.statesHashes a h

/-- The value of a slot at the start of the transaction, if it is recorded. -/
def origin? (sa : StateAccount) (a : AddressBytes) (h : Hash) : Option Hash :=
  FinMap.lookup2 sa.originStorage a h

def getState (sa : StateAccount) (a : AddressBytes) (h : Hash) : Hash := (sa.slot? a h).getD 0

def getCommittedState (sa : StateAccount) (a : AddressBytes) (h : Hash) : Hash :=
  match sa.origin? a h with
  | some v => v
  | none => sa.getState a h

def setState (sa : StateAccount) (a : AddressBytes) (h v : Hash) : StateAccount :=
  let m := (sa.statesHashes.lookup a).getD ∅
  let origin := (sa.originStorage.lookup a).getD ∅
  { sa with
    journal := sa.journal ++ [.slot a h (m.lookup h)]
    statesHashes := sa.statesHashes.insert a (m.insert h v)
    originStorage := sa.originStorage.insert a
      (if h ∈ origin then origin else origin.insert h ((m.lookup h).getD 0)) }

def suicide (sa : StateAccount) (a : AddressBytes) : StateAccount :=
  if a ∈ sa.accounts ∧ a ∉ sa.suicided then
    { sa with
      journal := sa.journal ++ [.suicide a]
      suicided := sa.suicided.insert a () }
  else sa

def addAddressToAccessList (sa : StateAccount) (a : AddressBytes) : StateAccount :=
  if a ∈ sa.accessAddrs then sa
  else
    { sa with
      journal := sa.journal ++ [.accessAddr a]
      accessAddrs := sa.accessAddrs.insert a () }

def slotInAccessList (sa : StateAccount) (a : AddressBytes) (h : Hash) : Bool :=
  (FinMap.lookup2 sa.accessSlots a h).isSome

def warmSlot (sa : StateAccount) (a : AddressBytes) (h : Hash) : StateAccount :=
  if sa.slotInAccessList a h then sa
  else
    { sa with
      journal := sa.journal ++ [.accessSlot a h]
      accessSlots := sa.accessSlots.insert a (((sa.accessSlots.lookup a).getD ∅).insert h ()) }

def addSlotToAccessList (sa : StateAccount) (a : AddressBytes) (h : Hash) : StateAccount :=
  (sa.addAddressToAccessList a).warmSlot a h

def addLog (sa : StateAccount) (log : Bytes) : StateAccount :=
  { sa with journal := sa.journal ++ [.log], logs := sa.logs ++ [log] }

def addPreimage (sa : StateAccount) (h : Hash) (b : Bytes) : StateAccount :=
  { sa with states := sa.states.insert h b }

def snapshot (sa : StateAccount) : Nat := sa.journal.length

/-- `PrepareAccessList`, at the start of a transaction: the warm addresses, and the slots of its
access list. -/
def prepareAccessList (sa : StateAccount) (warm : List AddressBytes)
    (accesses : List (AddressBytes × List Hash)) : StateAccount :=
  { sa with
    accessAddrs := (warm ++ accesses.map Prod.fst).foldl (fun m a => m.insert a ()) ∅
    accessSlots := accesses.foldl (fun m e => e.2.foldl (fun m h =>
      m.insert e.1 (((m.lookup e.1).getD ∅).insert h ())) m) ∅ }

def finaliseTx (sa : StateAccount) : StateAccount :=
  let gone := sa.suicided.keys
  { sa with
    codes := gone.foldl (fun m a => m.erase a) sa.codes
    codeHashes := gone.foldl (fun m a => m.erase a) sa.codeHashes
    statesHashes := gone.foldl (fun m a => m.erase a) sa.statesHashes
    nonces := gone.foldl (fun m a => m.erase a) sa.nonces
    accounts := gone.foldl (fun m a => m.erase a) sa.accounts
    suicided := ∅ }

/-- The map `before` of `NativeBalanceDelta`: the balance each account had before its first
change. -/
def balancesBefore (journal : List ChangeEntry) : FinMap AddressBytes Int64 :=
  journal.foldl (fun before e => match e with
    | .balance a prev => if a ∈ before then before else before.insert a prev
    | _ => before) ∅

def nativeBalanceDelta (sa : StateAccount) (l : Ledger) : Int64 :=
  (balancesBefore sa.journal).entries.foldl (fun delta e =>
    delta + (((l.account? e.1).map Account.balance).getD 0 - e.2)) 0

end StateAccount

/-- `finishExecution`: the state after it, and the change of supply it reports if there is one. -/
def finishExecution (sa : StateAccount) (l : Ledger) : (StateAccount × Ledger) × Option Int64 :=
  let delta := sa.nativeBalanceDelta l
  if delta ≠ 0 then (sa.revertToSnapshot 0 l, some delta)
  else ((sa.finaliseTx, l), none)

inductive Op where
  | createAccount (a : AddressBytes)
  | addBalance (a : AddressBytes) (amount : Int)
  | subBalance (a : AddressBytes) (amount : Int)
  | setNonce (a : AddressBytes) (n : UInt64)
  | setCode (a : AddressBytes) (c : Bytes)
  | addRefund (gas : UInt64)
  | subRefund (gas : UInt64)
  | setState (a : AddressBytes) (h v : Hash)
  | suicide (a : AddressBytes)
  | addAddressToAccessList (a : AddressBytes)
  | addSlotToAccessList (a : AddressBytes) (h : Hash)
  | addLog (log : Bytes)
  | addPreimage (h : Hash) (b : Bytes)
  | revertToSnapshot (sn : Int)
deriving DecidableEq, Repr

def Op.exec (keccak : Bytes → Hash) (op : Op) (s : StateAccount × Ledger) :
    StateAccount × Ledger :=
  match op with
  | .createAccount a => (s.1.createAccount a, s.2)
  | .addBalance a amount => s.1.addBalance s.2 a amount
  | .subBalance a amount => s.1.subBalance s.2 a amount
  | .setNonce a n => (s.1.setNonce a n, s.2)
  | .setCode a c => (s.1.setCode keccak a c, s.2)
  | .addRefund gas => (s.1.addRefund gas, s.2)
  | .subRefund gas => (s.1.subRefund gas, s.2)
  | .setState a h v => (s.1.setState a h v, s.2)
  | .suicide a => (s.1.suicide a, s.2)
  | .addAddressToAccessList a => (s.1.addAddressToAccessList a, s.2)
  | .addSlotToAccessList a h => (s.1.addSlotToAccessList a h, s.2)
  | .addLog log => (s.1.addLog log, s.2)
  | .addPreimage h b => (s.1.addPreimage h b, s.2)
  | .revertToSnapshot sn => s.1.revertToSnapshot sn.toNat s.2

def execAll (keccak : Bytes → Hash) (ops : List Op) (s : StateAccount × Ledger) :
    StateAccount × Ledger :=
  ops.foldl (fun s op => op.exec keccak s) s

def beginTx (sa : StateAccount) (l : Ledger) (warm : List AddressBytes)
    (accesses : List (AddressBytes × List Hash)) : StateAccount × Ledger :=
  (sa.resetTransient.prepareAccessList warm accesses, l)

def Op.Within (bottom : Nat) : Op → Prop
  | .revertToSnapshot sn => bottom ≤ sn.toNat
  | _ => True

instance (bottom : Nat) (op : Op) : Decidable (op.Within bottom) := by
  cases op <;> unfold Op.Within <;> infer_instance

end QwidNode.Source
