import QwidNode.Source.Chain

/-!
# The state database of the EVM and its undo journal

Source: `core/stateDB/methods.go:20-231` and `:394-453`, `core/stateDB/journal.go:9-128`,
`core/stateDB/persistence.go:13-91` and `services/helperReset.go:37-51`. Native balances are the
ledger's, so an undone balance change writes accounts.
-/
namespace QwidNode.Source
open Lib Ledger Int64

structure TokenInfo where
  name : Bytes
  symbols : Bytes
  decimals : UInt8
deriving DecidableEq, Repr

/-- `changeEntry`, one constructor for each of its implementations. Where the source keeps
the old value and a flag that it existed, an `Option` is kept. -/
inductive ChangeEntry where
  | slot (addr : AddressBytes) (key : Hash) (prev : Option Hash)
  | log
  | suicide (addr : AddressBytes)
  | accessAddr (addr : AddressBytes)
  | accessSlot (addr : AddressBytes) (key : Hash)
  | balance (addr : AddressBytes) (prev : Int64)
  | createAccount (addr : AddressBytes) (prev : Option Account)
  | nonce (addr : AddressBytes) (prev : Option UInt64)
  | code (addr : AddressBytes) (prev : Option (Bytes × Hash))
deriving DecidableEq, Repr

structure StateAccount where
  accounts : FinMap AddressBytes Account := ∅
  codes : FinMap AddressBytes Bytes := ∅
  codeHashes : FinMap AddressBytes Hash := ∅
  statesHashes : FinMap AddressBytes (FinMap Hash Hash) := ∅
  nonces : FinMap AddressBytes UInt64 := ∅
  states : FinMap Hash Bytes := ∅
  balances : FinMap AddressBytes (FinMap AddressBytes Int64) := ∅
  tokens : FinMap AddressBytes TokenInfo := ∅
  journal : List ChangeEntry := []
  logs : List Bytes := []
  suicided : FinMap AddressBytes Unit := ∅
  accessAddrs : FinMap AddressBytes Unit := ∅
  accessSlots : FinMap AddressBytes (FinMap Hash Unit) := ∅
  refund : UInt64 := 0
  /-- The value of each slot at the start of the transaction, from its first write on. -/
  originStorage : FinMap AddressBytes (FinMap Hash Hash) := ∅
  heightToSnapShotNum : FinMap Int64 Nat := ∅
  contractsByHeight : FinMap Int64 (List AddressBytes) := ∅
  changedSinceStore : Bool := false

def restore {κ α : Type} [DecidableEq κ] (m : FinMap κ α) (k : κ) (prev : Option α) :
    FinMap κ α :=
  match prev with
  | some v => m.insert k v
  | none => m.erase k

/-- `revert` of a change, on the state database and on the native accounts. -/
def ChangeEntry.revert (e : ChangeEntry) (sa : StateAccount) (l : Ledger) :
    StateAccount × Ledger :=
  match e with
  | .slot addr key prev =>
    match sa.statesHashes.lookup addr with
    | none => (sa, l)
    | some m => ({ sa with statesHashes := sa.statesHashes.insert addr (restore m key prev) }, l)
  | .log => ({ sa with logs := sa.logs.dropLast }, l)
  | .suicide addr => ({ sa with suicided := sa.suicided.erase addr }, l)
  | .accessAddr addr => ({ sa with accessAddrs := sa.accessAddrs.erase addr }, l)
  | .accessSlot addr key =>
    match sa.accessSlots.lookup addr with
    | none => (sa, l)
    | some m => ({ sa with accessSlots := sa.accessSlots.insert addr (m.erase key) }, l)
  | .balance addr prev => (sa, l.setBalance addr prev)
  | .createAccount addr prev => ({ sa with accounts := restore sa.accounts addr prev }, l)
  | .nonce addr prev => ({ sa with nonces := restore sa.nonces addr prev }, l)
  | .code addr prev =>
    ({ sa with
        codes := restore sa.codes addr (prev.map Prod.fst)
        codeHashes := restore sa.codeHashes addr (prev.map Prod.snd) }, l)

/-- The loop of `RevertToSnapshot`: the newest entry is undone first. -/
def revertEntries : List ChangeEntry → StateAccount → Ledger → StateAccount × Ledger
  | [], sa, l => (sa, l)
  | e :: rest, sa, l =>
    let after := revertEntries rest sa l
    e.revert after.1 after.2

namespace StateAccount

/-- `RevertToSnapshot`; a number above the length of the journal undoes nothing. -/
def revertToSnapshot (sa : StateAccount) (sn : Nat) (l : Ledger) : StateAccount × Ledger :=
  let after := revertEntries (sa.journal.drop sn) sa l
  ({ after.1 with journal := sa.journal.take sn }, after.2)

def cleanupContractsAfterHeight (sa : StateAccount) (height : Int64) : StateAccount :=
  let above := sa.contractsByHeight.entries.filter fun e => decide (height < e.1)
  let gone := above.flatMap fun e => e.2
  { sa with
    nonces := gone.foldl (fun m addr => m.erase addr) sa.nonces
    codes := gone.foldl (fun m addr => m.erase addr) sa.codes
    codeHashes := gone.foldl (fun m addr => m.erase addr) sa.codeHashes
    contractsByHeight := above.foldl (fun m e => m.erase e.1) sa.contractsByHeight }

/-- The snapshot number `RevertVMToBlockHeight` goes back to: the largest one recorded at or
below the height. -/
def lastNum (sa : StateAccount) (height : Int64) : Nat :=
  sa.heightToSnapShotNum.entries.foldl
    (fun last e => if height < e.1 then last else max last e.2) 0

def revertedTo (height : Int64) (sa : StateAccount) (l : Ledger) : StateAccount × Ledger :=
  let after := sa.revertToSnapshot (sa.lastNum height) l
  (after.1.cleanupContractsAfterHeight height, after.2)

/-- `Unmarshal` of a whole snapshot, and `Load` after it: the persisted fields are replaced
and the journal starts empty. -/
def loadedOver (memory stored : StateAccount) : StateAccount :=
  { memory with
    accounts := stored.accounts, codes := stored.codes, codeHashes := stored.codeHashes
    statesHashes := stored.statesHashes, nonces := stored.nonces, states := stored.states
    balances := stored.balances, tokens := stored.tokens
    journal := [], changedSinceStore := false }

def markChanged (sa : StateAccount) : StateAccount := { sa with changedSinceStore := true }

def resetTransient (sa : StateAccount) : StateAccount :=
  { sa with
    journal := [], logs := [], suicided := ∅, accessAddrs := ∅, accessSlots := ∅, refund := 0
    originStorage := ∅ }

def writeBalance (sa : StateAccount) (l : Ledger) (a : AddressBytes) (prev next : Int64) :
    StateAccount × Ledger :=
  if next = prev then (sa, l)
  else ({ sa with journal := sa.journal ++ [.balance a prev] }, l.setBalance a next)

def addBalance (sa : StateAccount) (l : Ledger) (a : AddressBytes) (amount : Int) :
    StateAccount × Ledger :=
  let amt := if Int64.minValue.toInt ≤ amount ∧ amount ≤ Int64.maxValue.toInt
    then ofInt amount else maxValue
  let prev := ((l.account? a).map Account.balance).getD 0
  let next := if prev + amt < prev then maxValue else prev + amt
  sa.writeBalance l a prev next

def subBalance (sa : StateAccount) (l : Ledger) (a : AddressBytes) (amount : Int) :
    StateAccount × Ledger :=
  let amt := if Int64.minValue.toInt ≤ amount ∧ amount ≤ Int64.maxValue.toInt
    then ofInt amount else maxValue
  let prev := ((l.account? a).map Account.balance).getD 0
  let next := if prev - amt < 0 then 0 else prev - amt
  sa.writeBalance l a prev next

/-- The transfer that opens a call with value: the sender pays, the callee is credited. -/
def transfer (sa : StateAccount) (l : Ledger) (sender recipient : AddressBytes) (amount : Int) :
    StateAccount × Ledger :=
  let paid := sa.subBalance l sender amount
  paid.1.addBalance paid.2 recipient amount

end StateAccount

/-- The surroundings of a node whose contracts do nothing but receive the value of a call,
over the state database. -/
def Env.overStateDB (env : Env Unit) : Env StateAccount where
  calcHash := env.calcHash
  hasOperatorKeysAsOf := env.hasOperatorKeysAsOf
  signatureValid := env.signatureValid
  revealedKey := env.revealedKey
  revealSignatureValid := env.revealSignatureValid
  addressOpeningValid := env.addressOpeningValid
  recoveryCommitment := env.recoveryCommitment
  recoveryTag := env.recoveryTag
  recoveryBindKey := env.recoveryBindKey
  recoveryPayload := env.recoveryPayload
  addressOpenPayload := env.addressOpenPayload
  evaluateSC sa l tx _ :=
    let sender := tx.txParam.sender.byteValue
    let recipient := tx.txData.recipient.byteValue
    let run := sa.resetTransient.transfer l sender recipient tx.txData.amount.toInt
    let balance (a : AddressBytes) := ((run.2.account? a).map Account.balance).getD 0
    ⟨run.1.markChanged, [(sender, balance sender), (recipient, balance recipient)],
      .success tx.txData.recipient []⟩
  evaluateSCDex sa _ _ _ _ := ⟨sa, [], .executionError []⟩
  dexQuote _ := env.dexQuote ()
  tokenBalance _ := env.tokenBalance ()
  tokenKnown sa a := (sa.tokens.lookup a).isSome
  liquidityShare _ := env.liquidityShare ()
  headerSignatureValid := env.headerSignatureValid
  stateRoot l dex _ := env.stateRoot l dex ()
  claimedStateRoot := env.claimedStateRoot
  stakeDependentValid := env.stakeDependentValid
  baseBlockValid := env.baseBlockValid
  pubKeysStored := env.pubKeysStored
  schemeBroken := env.schemeBroken
  calcBlockHash := env.calcBlockHash
  evmReverted := StateAccount.revertedTo
  evmLoaded := StateAccount.loadedOver
  evmMarked := StateAccount.markChanged
  evmChanged := StateAccount.changedSinceStore
  evmStored sa := { sa with changedSinceStore := false }
  clock := env.clock

/-- The balance a list of changes goes back to: the old value of the first of them that
touches the address. -/
def undoneBalance (a : AddressBytes) : List ChangeEntry → Option Int64
  | [] => none
  | .balance addr prev :: rest => if addr = a then some prev else undoneBalance a rest
  | _ :: rest => undoneBalance a rest

theorem Ledger.setBalance_lookup (l : Ledger) (a b : AddressBytes) (balance : Int64) :
    (l.setBalance a balance).accounts.lookup b =
      if a = b then some { (l.account? a).getD { address := 0 } with balance, address := a }
      else l.accounts.lookup b := by
  by_cases equal : a = b
  · subst equal
    simp [setBalance, putAccount]
  · simp [setBalance, putAccount, equal, AList.lookup_insert_ne (Ne.symm equal)]

def Ledger.SameBeside (l m : Ledger) : Prop :=
  m.recoveryBinds = l.recoveryBinds ∧ m.staking = l.staking ∧ m.stakeChangedAt = l.stakeChangedAt

theorem ChangeEntry.revert_ledger (e : ChangeEntry) (sa : StateAccount) (l : Ledger) :
    (e.revert sa l).2 = match e with
      | .balance addr prev => l.setBalance addr prev
      | _ => l := by
  cases e with
  | slot addr key prev =>
    unfold revert
    dsimp only
    split <;> rfl
  | accessSlot addr key =>
    unfold revert
    dsimp only
    split <;> rfl
  | _ => rfl

theorem revertEntries_lookup (entries : List ChangeEntry) (sa : StateAccount) (l : Ledger)
    (a : AddressBytes) :
    (revertEntries entries sa l).2.accounts.lookup a =
      match undoneBalance a entries with
      | none => l.accounts.lookup a
      | some prev =>
        some { (l.account? a).getD { address := 0 } with balance := prev, address := a } := by
  induction entries with
  | nil => rfl
  | cons e rest ih =>
    rw [revertEntries]
    dsimp only
    rw [ChangeEntry.revert_ledger]
    cases e with
    | balance addr prev =>
      dsimp only [undoneBalance]
      rw [setBalance_lookup]
      by_cases equal : addr = a
      · subst equal
        rw [if_pos rfl, if_pos rfl]
        cases undone : undoneBalance addr rest with
        | none =>
          rw [undone] at ih
          rw [account?, ih]
          rfl
        | some older =>
          rw [undone] at ih
          rw [account?, ih]
          rfl
      · rw [if_neg equal, if_neg equal, ih]
    | _ => exact ih

theorem revertEntries_beside (entries : List ChangeEntry) (sa : StateAccount) (l : Ledger) :
    l.SameBeside (revertEntries entries sa l).2 := by
  induction entries with
  | nil => exact ⟨rfl, rfl, rfl⟩
  | cons e rest ih =>
    rw [revertEntries, ChangeEntry.revert_ledger]
    cases e with
    | balance addr prev => exact ih
    | _ => exact ih

end QwidNode.Source
