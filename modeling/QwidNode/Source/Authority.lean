import QwidNode.Source.KeyRegistry

/-!
# Whose signature counts

Source: `transactionsDefinition/transaction.go:587-874` (`verify` after the hash check),
`transactionsDefinition/recovery.go:119-277`, `wallet/wallet.go:1634-1704` (`Verify`) and
`common/types.go:356-392` (`PubKey.Init`). A transaction is signed under the scheme its signature
names, by a key that is enclosed in it or registered to its sender.
-/
namespace QwidNode.Source
open Lib
variable {σ : Type}

/-- What signature checks depend on besides the registry and the accounts. -/
structure SigEnv extends KeyEnv where
  oqs : Liboqs
  /-- `Signature.Verify` of a scheme: message, signature, key. -/
  oqsVerify : Bytes → Hash → Bytes → Bytes → Bool
  /-- The old key's signature over `AddressOpenMessage`: identity and new key. -/
  openingSigned : AddressBytes → AddressBytes → AddressReveal → Bool

def PubKey.init (env : KeyEnv) (b : Bytes) (mainAddress : Address) : Option PubKey :=
  if b.length ≤ Common.addressLength then none
  else
    let primary := (b.length : Int) == env.own.primary.pubKeyLength false
    some ⟨b, env.pubKeyToAddress b primary, mainAddress, primary⟩

/-- The key part of `TxData.GetFromBytes`, for a transaction given by what its bytes hold. -/
def Transaction.decodeKey (env : KeyEnv) (tx : Transaction) : Option Transaction :=
  if tx.txData.pubkey.byteValue = [] then
    some { tx with txData := { tx.txData with pubkey := ⟨[], ⟨0, false⟩, ⟨0, false⟩, false⟩ } }
  else
    (PubKey.init env tx.txData.pubkey.byteValue tx.txData.pubkey.mainAddress).map fun pk =>
      { tx with txData := { tx.txData with pubkey := pk } }

namespace SigNames

def signingSchemeName (names : SigNames) (primary : Bool) : Bytes :=
  if primary then names.sigName else names.sigName2

def paused (names : SigNames) (primary : Bool) : Bool :=
  if primary then names.isPaused else names.isPaused2

def exempt (names : SigNames) (primary : Bool) : SigNames :=
  if primary then { names with isPaused := false } else { names with isPaused2 := false }

end SigNames

def signedPrimary (sig : Bytes) : Bool := sig.head? == some 0

def SigEnv.pubKeyLength (env : SigEnv) (name : Bytes) : Option Int :=
  (env.oqs name).map fun d => (d.lengthPublicKey : Int)

def walletVerify (env : SigEnv) (msg : Hash) (sig pubkey : Bytes) (names : SigNames) : Bool :=
  match sig with
  | [] => false
  | _ :: rest =>
    let primary := signedPrimary sig
    if names.paused primary then false
    else
      env.pubKeyLength (names.signingSchemeName primary) == some (pubkey.length : Int) &&
        env.oqsVerify (names.signingSchemeName primary) msg rest pubkey

/-- The newest key of the sender of the length of the signing scheme. -/
def registeredSigner (env : SigEnv) (r : KeyRegistry) (names : SigNames) (asOf : Option Int64)
    (sender : AddressBytes) (primary : Bool) : Option PubKey := do
  let length ← env.pubKeyLength (names.signingSchemeName primary)
  r.loadPubKeyWithPrimaryOfLengthAsOf sender primary length asOf

def isCommittedSpare (l : Ledger) (identity keyAddr : AddressBytes) (height : Int64) : Bool :=
  match l.account? identity with
  | none => false
  | some acc =>
    let spare := acc.effectiveSpareCommit height
    spare != 0 && spare == keyAddr

structure EnclosedKey where
  /-- `resolvedFromRegistry`, with the record found -/
  stored : Option PubKey
  spareReveal : Bool
  /-- the key registered to the sender that authorises a new one -/
  existing : Option PubKey
  addressMatch : Bool
  /-- does the pause flag of the signature's slot not count? -/
  exempt : Bool
deriving DecidableEq, Repr

/-- The decisions of `verify` on an enclosed key: `stored` is what the registry holds of it,
`registered` the key of the signing scheme the sender has registered, `committed` whether it is
the sender's committed spare. -/
def judgeKey (tx : Transaction) (pkAddr : AddressBytes) (stored registered : Option PubKey)
    (committed : Bool) : EnclosedKey :=
  let pk := tx.txData.pubkey
  let ownSlot := stored.isNone && tx.isPureRegistration &&
    signedPrimary tx.signature == pk.primary
  let spareReveal := ownSlot && committed
  let existing := if stored.isNone && !spareReveal then registered else none
  { stored, spareReveal, existing
    addressMatch :=
      match stored with
      | some record => record.mainAddress.byteValue == tx.sender
      | none =>
        if spareReveal then true
        else if existing.isSome then pk.mainAddress.byteValue == tx.sender
        else pkAddr == tx.sender
    exempt := spareReveal || ownSlot && pkAddr == tx.sender }

def judgeEnclosed (env : SigEnv) (r : KeyRegistry) (l : Ledger) (names : SigNames)
    (asOf : Option Int64) (height : Int64) (tx : Transaction) : EnclosedKey :=
  let pkAddr := env.derive tx.txData.pubkey.byteValue
  judgeKey tx pkAddr (r.loadPubKeyAsOf pkAddr asOf)
    (registeredSigner env r names asOf tx.sender (signedPrimary tx.signature))
    (isCommittedSpare l tx.sender pkAddr height)

/-- The key an enclosing transaction is verified against: the enclosed one, or the registered one
in its place when that authorises it or when the length is not the signing scheme's. -/
def signingKey (env : SigEnv) (r : KeyRegistry) (names : SigNames) (asOf : Option Int64)
    (tx : Transaction) (judged : EnclosedKey) : Option Bytes :=
  let primary := signedPrimary tx.signature
  let pkb := (judged.existing.map (·.byteValue)).getD tx.txData.pubkey.byteValue
  match env.pubKeyLength (names.signingSchemeName primary) with
  | none => some pkb
  | some length =>
    if (pkb.length : Int) ≠ length then
      (r.loadPubKeyWithPrimaryOfLengthAsOf tx.sender primary length asOf).map (·.byteValue)
    else some pkb

def verifyEnclosed (env : SigEnv) (r : KeyRegistry) (l : Ledger) (names : SigNames)
    (asOf : Option Int64) (height : Int64) (tx : Transaction) : Bool :=
  let pk := tx.txData.pubkey
  let judged := judgeEnclosed env r l names asOf height tx
  env.own.isValidPubKeyLength pk.byteValue.length pk.primary &&
    judged.addressMatch && pk.mainAddress.byteValue == tx.sender &&
    match signingKey env r names asOf tx judged with
    | none => false
    | some key => walletVerify env tx.hash tx.signature key
        (if judged.exempt then names.exempt (signedPrimary tx.signature) else names)

/-- The key of a sender that encloses none: of the length of the signing scheme, or the newest of
the slot when liboqs does not know the scheme. -/
def senderKey (env : SigEnv) (r : KeyRegistry) (names : SigNames) (asOf : Option Int64)
    (tx : Transaction) : Option PubKey :=
  let primary := signedPrimary tx.signature
  match env.pubKeyLength (names.signingSchemeName primary) with
  | none => r.loadPubKeyWithPrimaryAsOf tx.sender primary asOf
  | some length => r.loadPubKeyWithPrimaryOfLengthAsOf tx.sender primary length asOf

/-- `verify` from the signature on. An empty signature does not decode. -/
def verifySignature (env : SigEnv) (r : KeyRegistry) (l : Ledger) (names : SigNames)
    (asOf : Option Int64) (height : Int64) (tx : Transaction) : Bool :=
  if tx.signature = [] then false
  else if tx.txData.pubkey.byteValue = [] then
    match senderKey env r names asOf tx with
    | none => false
    | some pk => walletVerify env tx.hash tx.signature pk.byteValue names
  else verifyEnclosed env r l names asOf height tx

def revealedKey (env : SigEnv) (r : KeyRegistry) (asOf : Option Int64) (tx : Transaction) :
    Option AddressBytes :=
  let pk := tx.txData.pubkey
  if pk.byteValue = [] ∨ pk.mainAddress.byteValue ≠ tx.sender then none
  else if env.own.isValidPubKeyLength pk.byteValue.length pk.primary = false then none
  else if pk.address.byteValue ≠ env.derive pk.byteValue then none
  else if (r.loadPubKeyAsOf (env.derive pk.byteValue) asOf).isSome then none
  else some (env.derive pk.byteValue)

/-- The signature check of `verifyRecoveryReveal`: the revealed key signs for itself, exempt from
pauses. -/
def revealSignatureValid (env : SigEnv) (names : SigNames) (tx : Transaction) : Bool :=
  tx.signature ≠ [] && signedPrimary tx.signature == tx.txData.pubkey.primary &&
    walletVerify env tx.hash tx.signature tx.txData.pubkey.byteValue
      { names with isPaused := false, isPaused2 := false }

def addressOpeningValid (env : SigEnv) (r : KeyRegistry) (asOf : Option Int64) (tx : Transaction)
    (key : AddressBytes) (opening : AddressReveal) : Bool :=
  (r.loadAddressesAsOf tx.sender asOf).isNone && env.derive opening.oldPub == tx.sender &&
    env.openingSigned tx.sender key opening

def Env.withKeys (sig : SigEnv) (names : VerifyContext → Option SigNames) (r : KeyRegistry)
    (env : Env σ) : Env σ :=
  { env with
    hasOperatorKeysAsOf := r.hasOperatorKeysAsOf
    signatureValid := fun l tx ctx =>
      match names ctx with
      | none => false
      | some names => verifySignature sig r l names ctx.asOf ctx.height tx
    revealedKey := fun tx ctx => Source.revealedKey sig r ctx.asOf tx
    revealSignatureValid := fun tx ctx =>
      match names ctx with
      | none => false
      | some names => Source.revealSignatureValid sig names tx
    addressOpeningValid := fun tx key opening ctx =>
      Source.addressOpeningValid sig r ctx.asOf tx key opening }

end QwidNode.Source
