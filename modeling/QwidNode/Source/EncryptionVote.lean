import QwidNode.Source.Eligibility
import QwidNode.Source.KeyRegistry

/-!
# Votes on signature schemes

Source: `blocks/encryptionVote.go`, `blocks/oracleProofs.go:36-52` and `:243-279`,
`blocks/processBlock.go:222-285` and `account/accountsStakingStates.go:262-295`. A change of a slot
is judged against the parent block: its shape and the operator's key in `CheckBaseBlock`, the votes
of the embedded proofs and the key quorum in `VerifyStakeDependent`.
-/
namespace QwidNode.Source
open Lib
variable {σ : Type}

/-- What a node judges scheme changes with besides blocks, stakes and keys. -/
structure SchemeEnv where
  oqs : Liboqs
  own : OwnConfig
  /-- `decodeProof`: `none` when the bytes do not decode or some are left. -/
  decodeProof : Bytes → Option Transaction

namespace Ledger

def isEligibleDelegatedAccount (l : Ledger) (id : Nat) : Bool :=
  if id = 0 ∨ 256 ≤ id then false else (l.eligibleOperator id).2

def delegatedIds : List Nat := (List.range 255).map (· + 1)

def getStakedInEligibleDelegatedAccounts (l : Ledger) : Int64 :=
  delegatedIds.foldl (fun sum id =>
    if (l.eligibleOperator id).2 then sum + l.delegatedTotal id else sum) 0

def stakeOfDelegated (l : Ledger) (id : Nat) : Int64 := (l.getStakedInDelegatedAccount id).2.1

def stakeAndOperatorOfDelegated (l : Ledger) (id : Nat) : Int64 × AddressBytes :=
  if l.isEligibleDelegatedAccount id = false then (0, 0)
  else (l.getStakedInDelegatedAccount id).2

end Ledger

def oracleOptDataMinLen : Nat := 8 + Common.hashLength + 16

def proofVotes (tx : Transaction) : Option (Bytes × Bytes) :=
  if tx.txData.optData.length < oracleOptDataMinLen then none
  else do
    let (vote1, rest) ← bytesWithLenToBytes (tx.txData.optData.drop oracleOptDataMinLen)
    let (vote2, _) ← bytesWithLenToBytes rest
    return (vote1, vote2)

/-- `extractOracleSubmission`, of which only the delegated id matters here. -/
def extractOracleSubmission (tx : Transaction) : Except SchemeError Nat :=
  match intDelegatedAccountFromAddress tx.txData.recipient with
  | none => .error .badRecipient
  | some id =>
    if 256 ≤ id then .error .badRecipient
    else if tx.txData.amount ≠ 0 then .error .amountNotZero
    else if tx.txData.optData.length < oracleOptDataMinLen then
      .error (.optDataTooShort tx.txData.optData.length)
    else .ok id

def SchemeEnv.readProof (env : SchemeEnv) (pb : Bytes) : Except SchemeError (Transaction × Nat) :=
  match env.decodeProof pb with
  | none => .error .cannotDecodeProof
  | some tx => do
    let id ← extractOracleSubmission tx
    return (tx, id)

def authorizeOracleProofSigners (env : SchemeEnv) (l : Ledger) :
    List Bytes → Except SchemeError Unit
  | [] => .ok ()
  | pb :: rest => do
    let (tx, id) ← env.readProof pb
    if l.isTop128StakingNode id tx.txParam.sender.byteValue = false then .error (.notAuthorized id)
    else authorizeOracleProofSigners env l rest

/-- The vote of a proof for a slot; an unreadable or empty one is no vote. -/
def votesFor (primary : Bool) (want : Bytes) (tx : Transaction) : Bool :=
  match proofVotes tx with
  | none => false
  | some (v1, v2) =>
    let v := if primary then v1 else v2
    v != [] && v == want

/-- The loop of `tallyEncryptionVotes`, with the ids seen and the stake so far. -/
def tallyVotes (env : SchemeEnv) (primary : Bool) (want : Bytes) (stakeOf : Nat → Int64) :
    List Bytes → List Nat → Int64 → Except SchemeError Int64
  | [], _, staked => .ok staked
  | pb :: rest, seen, staked => do
    let (tx, id) ← env.readProof pb
    let staked' := if votesFor primary want tx then staked + stakeOf id else staked
    if id ∈ seen then tallyVotes env primary want stakeOf rest seen staked
    else tallyVotes env primary want stakeOf rest (id :: seen) staked'

def tallyEncryptionVotes (env : SchemeEnv) (proofs : List Bytes) (primary : Bool) (want : Bytes)
    (stakeOf : Nat → Int64) : Except SchemeError Int64 :=
  tallyVotes env primary want stakeOf proofs [] 0

def isPause (cur next : ConfigEnc) : Bool :=
  next.sigName == cur.sigName && next.isPaused && !cur.isPaused

def voteThresholdMet (cur next : ConfigEnc) (staked total : Int64) : Bool :=
  if staked ≤ 0 ∨ total ≤ 0 then false
  else if isPause cur next then decide (total ≤ staked * 3)
  else decide (total * 2 ≤ staked * 3)

def encryptionChangeAuthorised (env : SchemeEnv) (proofs : List Bytes) (parent : Block)
    (want : Bytes) (primary : Bool) (height total : Int64) (stakeOf : Nat → Int64) :
    Except SchemeError Unit := do
  let next ← fromBytesToEncryptionConfig env.oqs want
  let cur ← parentSlotConfig env.oqs env.own parent primary
  let staked ← tallyEncryptionVotes env proofs primary want stakeOf
  if voteThresholdMet cur next staked total = false then
    .error (.notEnoughVotes next.sigName next.isPaused height staked total)
  else .ok ()

def stakeWithKeys (stakeAndOperator : Nat → Int64 × AddressBytes) (hasKey : AddressBytes → Bool) :
    Int64 :=
  Ledger.delegatedIds.foldl (fun sum id =>
    let (staked, op) := stakeAndOperator id
    if 0 < staked ∧ hasKey op then sum + staked else sum) 0

def checkUnpauseKeyQuorum (env : SchemeEnv) (want : Bytes) (parent : Block) (primary : Bool)
    (total : Int64) (stakeAndOperator : Nat → Int64 × AddressBytes)
    (hasKey : AddressBytes → Bool → Int → Bool) : Except SchemeError Unit := do
  let next ← fromBytesToEncryptionConfig env.oqs want
  let cur ← parentSlotConfig env.oqs env.own parent primary
  if isUnpause cur next = false then .ok ()
  else if total ≤ 0 then .error (.nothingStaked next.sigName)
  else
    let withKeys := stakeWithKeys stakeAndOperator fun op => hasKey op primary next.pubKeyLength
    if withKeys * 3 < total * 2 then .error (.notEnoughKeys next.sigName withKeys total)
    else .ok ()

def operatorHasKeyAsOf (r : KeyRegistry) (asOf : Int64) (op : AddressBytes) (primary : Bool)
    (keyLen : Int) : Bool :=
  (r.loadPubKeyWithPrimaryOfLengthAsOf op primary keyLen (some asOf)).isSome

/-- `checkPauseLeavesRegisteredKey`. An un-pause looks the key up as of the parent, a pause in
the registry as it is. -/
def checkPauseLeavesRegisteredKey (env : SchemeEnv) (r : KeyRegistry) (operator : AddressBytes)
    (lastBlock : Block) (slot : Bytes) (primary : Bool) : Except SchemeError Unit := do
  let next ← fromBytesToEncryptionConfig env.oqs slot
  let cur ← parentSlotConfig env.oqs env.own lastBlock primary
  if isUnpause cur next then
    if operatorHasKeyAsOf r lastBlock.height operator primary next.pubKeyLength = false then
      .error (.noKeyToUnpause next.sigName)
    else .ok ()
  else if isPause cur next = false then .ok ()
  else
    let becomesActive ← parentSlotConfig env.oqs env.own lastBlock !primary
    if (r.loadPubKeyWithPrimaryOfLengthAsOf operator (!primary) becomesActive.pubKeyLength
        none).isSome = false then
      .error (.noKeyToPause cur.sigName becomesActive.sigName)
    else .ok ()

def checkSlotChange (env : SchemeEnv) (r : KeyRegistry) (newBlock lastBlock : Block)
    (primary : Bool) : Except SchemeError Unit := do
  let slot := newBlock.encryption primary
  let changed ← checkEncryptionChangeShape env.oqs env.own slot lastBlock primary
  if changed then
    checkPauseLeavesRegisteredKey env r newBlock.operatorAccount.byteValue lastBlock slot primary
  else .ok ()

def checkSchemes (env : SchemeEnv) (r : KeyRegistry) (newBlock lastBlock : Block) :
    Except SchemeError Unit :=
  if newBlock.encryption1.length = 0 ∨ newBlock.encryption2.length = 0 then .error .missingConfig
  else do
    checkSlotChange env r newBlock lastBlock true
    checkSlotChange env r newBlock lastBlock false

def verifySlotVotes (env : SchemeEnv) (r : KeyRegistry) (l : Ledger) (newBlock lastBlock : Block)
    (primary : Bool) : Except SchemeError Unit := do
  let want := newBlock.encryption primary
  let total := l.getStakedInEligibleDelegatedAccounts
  let changed ← checkEncryptionChangeShape env.oqs env.own want lastBlock primary
  if changed then
    encryptionChangeAuthorised env newBlock.oracleProofs lastBlock want primary newBlock.height total
      l.stakeOfDelegated
    checkUnpauseKeyQuorum env want lastBlock primary total l.stakeAndOperatorOfDelegated
      (operatorHasKeyAsOf r lastBlock.height)
  else .ok ()

def verifyEncryptionVotes (env : SchemeEnv) (r : KeyRegistry) (l : Ledger)
    (newBlock lastBlock : Block) : Except SchemeError Unit := do
  verifySlotVotes env r l newBlock lastBlock true
  verifySlotVotes env r l newBlock lastBlock false

def encryptionChangeRefusal (env : SchemeEnv) (r : KeyRegistry) (l : Ledger) (proofs : List Bytes)
    (lastBlock : Block) (want : Bytes) (primary : Bool) (height : Int64)
    (operator : AddressBytes) : Except SchemeError Unit := do
  let changed ← checkEncryptionChangeShape env.oqs env.own want lastBlock primary
  if changed = false then .error .noChange
  else
    checkPauseLeavesRegisteredKey env r operator lastBlock want primary
    let total := l.getStakedInEligibleDelegatedAccounts
    encryptionChangeAuthorised env proofs lastBlock want primary height total l.stakeOfDelegated
    checkUnpauseKeyQuorum env want lastBlock primary total l.stakeAndOperatorOfDelegated
      (operatorHasKeyAsOf r lastBlock.height)

/-- The environment with the scheme checks in `CheckBaseBlock` and `VerifyStakeDependent`, and
with `schemeBroken`. The registry is the one of the node when it checks the block. -/
def Env.withSchemes (schemes : SchemeEnv) (registry : Block → Block → KeyRegistry) (env : Env σ) :
    Env σ :=
  { env with
    baseBlockValid := fun newBlock lastBlock =>
      env.baseBlockValid newBlock lastBlock &&
        (checkSchemes schemes (registry newBlock lastBlock) newBlock lastBlock).toBool
    stakeDependentValid := fun l newBlock lastBlock =>
      env.stakeDependentValid l newBlock lastBlock &&
        (authorizeOracleProofSigners schemes l newBlock.oracleProofs).toBool &&
        (verifyEncryptionVotes schemes (registry newBlock lastBlock) l newBlock lastBlock).toBool
    schemeBroken := Source.schemeBroken schemes.oqs }

end QwidNode.Source
