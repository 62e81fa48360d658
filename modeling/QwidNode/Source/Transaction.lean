import QwidNode.Source.Types

/-!
# Transactions

Source: `transactionsDefinition/transaction.go:19-415`, `tx.go`, `baseTransaction.go`, `recovery.go`
and `dexOrder.go`. The record keeps every field that verification or block application reads.
-/
namespace QwidNode.Source

structure PubKey where
  byteValue : Bytes
  address : Address
  mainAddress : Address
  primary : Bool
deriving DecidableEq, Repr

structure TxData where
  recipient : Address
  amount : Int64
  optData : Bytes
  pubkey : PubKey
  lockedAmount : Int64
  releasePerBlock : Int64
  delegatedAccountForLocking : Address
  escrowTransactionsDelay : Int64
  multiSignNumber : UInt8
  multiSignAddresses : List AddressBytes
deriving DecidableEq, Repr

structure TxParam where
  chainID : Int16
  sender : Address
  sendingTime : Int64
  nonce : Int64
  multiSignTx : Hash
deriving DecidableEq, Repr

structure Transaction where
  txData : TxData
  txParam : TxParam
  hash : Hash
  signature : Bytes
  height : Int64
  gasPrice : Int64
  gasUsage : Int64
  outputLogs : Bytes
  contractAddress : Address
deriving DecidableEq, Repr

/-- What `TxData.GetBytes` writes: of the key its bytes and the identity it names. The derived
address and the slot of the key are worked out again by whoever decodes it. -/
def TxData.serialised (d : TxData) : TxData :=
  { d with pubkey := ⟨d.pubkey.byteValue, emptyAddress, d.pubkey.mainAddress, true⟩ }

/-- What `hashPreimage` serialises. The contract address is an input of a DEX order
and an output of everything else, so only DEX orders hash it. -/
structure HashPreimage where
  txParam : TxParam
  txData : TxData
  height : Int64
  gasPrice : Int64
  gasUsage : Int64
  contractAddress : Option AddressBytes
deriving DecidableEq, Repr

namespace Transaction

abbrev sender (tx : Transaction) : AddressBytes := tx.txParam.sender.byteValue

abbrev recipient (tx : Transaction) : AddressBytes := tx.txData.recipient.byteValue

abbrev amount (tx : Transaction) : Int64 := tx.txData.amount

def isDexOperation (tx : Transaction) : Bool :=
  match intDelegatedAccountFromAddress tx.txData.recipient with
  | some n => decide (512 < n)
  | none => false

def hashPreimage (tx : Transaction) : HashPreimage where
  txParam := tx.txParam
  txData := tx.txData.serialised
  height := tx.height
  gasPrice := tx.gasPrice
  gasUsage := tx.gasUsage
  contractAddress := if tx.isDexOperation then some tx.contractAddress.byteValue else none

def minGasUsage (tx : Transaction) : Int64 :=
  Int64.ofNat tx.txData.optData.length * 100
    + Int64.ofNat tx.txData.pubkey.byteValue.length * 100 + 30000
    + (if tx.isDexOperation then Common.dexTokenCallGas else 0)

def calcFee (tx : Transaction) : Option Int64 :=
  if tx.gasPrice < 0 ∨ tx.gasUsage < 0 then none
  else
    let fee := tx.gasPrice * tx.gasUsage
    if tx.gasPrice ≠ 0 ∧ fee / tx.gasPrice ≠ tx.gasUsage then none else some fee

def cancelTransactionPrefix : Bytes :=
  [81, 87, 73, 68, 95, 67, 65, 78, 67, 69, 76, 95, 86, 49]

def cancellationTarget (tx : Transaction) : Option Hash :=
  let data := tx.txData.optData
  if data.length = cancelTransactionPrefix.length + Common.hashLength ∧
      data.take cancelTransactionPrefix.length = cancelTransactionPrefix
  then some (hashOfBytes (data.drop cancelTransactionPrefix.length))
  else none

def noPolicyFields (tx : Transaction) : Bool :=
  tx.amount == 0 && tx.txData.lockedAmount == 0 && tx.txData.escrowTransactionsDelay == 0 &&
    tx.txData.multiSignNumber == 0 && tx.txData.multiSignAddresses.isEmpty &&
    tx.txParam.multiSignTx == zerosHash

def isCommitmentRegistration (tx : Transaction) : Bool :=
  !tx.txData.pubkey.byteValue.isEmpty && tx.noPolicyFields &&
    (tx.txData.optData.length == 0 || tx.txData.optData.length == Common.addressLength) &&
    tx.recipient != tx.sender && !isRecoveryAddress tx.txData.recipient &&
    tx.recipient != 0 && (intDelegatedAccountFromAddress tx.txData.recipient).isNone

/-- `CommitmentValues`: the spare address and the recovery commitment. -/
def commitmentValues (tx : Transaction) : AddressBytes × AddressBytes :=
  (tx.recipient,
    if tx.txData.optData.length = Common.addressLength then addressOfBytes tx.txData.optData
    else 0)

def isRecoveryBind (tx : Transaction) : Bool := tx.recipient == recoveryBindAddress

def isRecoveryReveal (tx : Transaction) : Bool := tx.recipient == recoveryRevealAddress

def isAddressReveal (tx : Transaction) : Bool :=
  tx.isRecoveryReveal && tx.txData.optData.length != Common.recoveryRevealOptDataLength

def pureShape (tx : Transaction) : Bool := tx.noPolicyFields && tx.txData.optData.isEmpty

def isPureRegistration (tx : Transaction) : Bool :=
  tx.pureShape && tx.recipient == tx.sender

def isKeyRegistration (tx : Transaction) : Bool :=
  !tx.txData.pubkey.byteValue.isEmpty &&
    (tx.isPureRegistration || tx.isCommitmentRegistration)

/-- `isContractDeployment`: the comparison with the empty address includes its flag. -/
def isContractDeployment (tx : Transaction) : Bool :=
  tx.txData.recipient == emptyAddress && !tx.txData.optData.isEmpty

/-- Does the transaction carry an escrow or multi-signature policy for its sender? -/
def setsPolicy (tx : Transaction) : Bool :=
  decide (0 < tx.txData.escrowTransactionsDelay) || decide (0 < tx.txData.multiSignNumber)

/-- The delegated id that decides how a transaction is processed: that of the locking
account when it locks coins, otherwise that of the recipient. The source rejects a
lock whose account is not one of `1..255`; `none` there is the error. -/
def routingAccount (tx : Transaction) : Option (Option Nat) :=
  if 0 < tx.txData.lockedAmount then
    match intDelegatedAccountFromAddress tx.txData.delegatedAccountForLocking with
    | some n => if n ≤ 0 ∨ 256 ≤ n then none else some (some n)
    | none => none
  else some (intDelegatedAccountFromAddress tx.txData.recipient)

def dexOptDataMalformed (optData : Bytes) (op : Nat) : Bool :=
  if optData.length = 8 then false
  else if optData.length = 16 then
    let coinLimit := getInt64FromByte (optData.drop 8)
    coinLimit < 0 || (0 < coinLimit && op != 3 && op != 4)
  else true

end Transaction

def parseRecoveryBind (opt : Bytes) : Option (AddressBytes × Hash × Hash) :=
  if opt.length ≠ Common.recoveryBindOptDataLength then none
  else some (addressOfBytes (opt.take 20), hashOfBytes ((opt.drop 20).take 32),
    hashOfBytes (opt.drop 52))

def parseRecoveryReveal (opt : Bytes) : Option (Bytes × AddressBytes) :=
  if opt.length ≠ Common.recoveryRevealOptDataLength then none
  else some (opt.take 32, addressOfBytes (opt.drop 32))

structure AddressReveal where
  next : AddressBytes
  spare : AddressBytes
  oldScheme : Bytes
  oldPub : Bytes
  oldSig : Bytes
deriving DecidableEq, Repr

/-- `common.BytesWithLenToBytes`: a four-byte length, then that many bytes. -/
def bytesWithLenToBytes (b : Bytes) : Option (Bytes × Bytes) :=
  if b.length < 4 then none
  else
    let length := bytesToNat (b.take 4)
    if (b.drop 4).length < length then none
    else some ((b.drop 4).take length, (b.drop 4).drop length)

def parseAddressReveal (opt : Bytes) : Option AddressReveal :=
  if opt.length ≤ 2 * Common.addressLength then none
  else do
    let (scheme, rest) ← bytesWithLenToBytes (opt.drop 40)
    let (pub, rest) ← bytesWithLenToBytes rest
    let (sig, rest) ← bytesWithLenToBytes rest
    if rest.isEmpty then
      some ⟨addressOfBytes (opt.take 20), addressOfBytes ((opt.drop 20).take 20), scheme, pub, sig⟩
    else none

end QwidNode.Source
