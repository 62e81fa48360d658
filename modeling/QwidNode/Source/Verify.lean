import QwidNode.Source.Node

/-!
# Transaction verification

Source: `transactionsDefinition/transaction.go:417-577` (`verify` for regular
transactions) and `recovery.go:88-247`. The checks stand in the order of the source, one
definition for each group of rejections.
-/
namespace QwidNode.Source
open Lib
variable {σ : Type}

namespace Transaction

def gasValid (tx : Transaction) : Prop :=
  tx.txParam.chainID = Common.chainID ∧ 0 < tx.gasPrice ∧ tx.minGasUsage ≤ tx.gasUsage ∧
    tx.gasUsage ≤ Common.maxGasUsage ∧ tx.gasPrice ≤ Common.maxGasPrice

/-- A negative amount is refused for a recipient that is no delegated account. The test
`n < 512` of the source is always true there, because `n` is then `-1`. -/
def amountValid (tx : Transaction) : Prop :=
  ¬ (tx.amount < 0 ∧ intDelegatedAccountFromAddress tx.txData.recipient = none)

/-- The lock fields. The delegated account may be 256 here, unlike in block checking. -/
def lockValid (tx : Transaction) : Prop :=
  0 < tx.txData.lockedAmount →
    (∃ n ∈ intDelegatedAccountFromAddress tx.txData.delegatedAccountForLocking, n ≤ 256) ∧
      tx.txData.lockedAmount ≤ tx.amount ∧ 0 ≤ tx.txData.releasePerBlock ∧
      tx.txData.releasePerBlock ≤ tx.txData.lockedAmount

/-- The policy fields: own account only, one that has no policy yet, within bounds. -/
def policyValid (l : Ledger) (tx : Transaction) : Prop :=
  (tx.setsPolicy → tx.recipient = tx.sender ∧ l.canBeModifiedAccount tx.recipient = true) ∧
    0 ≤ tx.txData.escrowTransactionsDelay ∧
    tx.txData.escrowTransactionsDelay ≤ Common.maxTransactionDelay ∧
    (0 < tx.txData.multiSignNumber →
      tx.txData.multiSignNumber.toNat ≤ tx.txData.multiSignAddresses.length)

def dexValid (tx : Transaction) : Prop :=
  ∀ n ∈ intDelegatedAccountFromAddress tx.txData.recipient,
    512 < n → dexOptDataMalformed tx.txData.optData (n - 512) = false

def bindValid (tx : Transaction) : Prop :=
  tx.isRecoveryBind = true →
    tx.noPolicyFields = true ∧ tx.txData.pubkey.byteValue = [] ∧
      ∃ b ∈ parseRecoveryBind tx.txData.optData, b.1 ≠ 0

instance (tx : Transaction) : Decidable tx.gasValid := by unfold gasValid; infer_instance
instance (tx : Transaction) : Decidable tx.amountValid := by unfold amountValid; infer_instance
instance (tx : Transaction) : Decidable tx.lockValid := by unfold lockValid; infer_instance
instance (l : Ledger) (tx : Transaction) : Decidable (tx.policyValid l) := by
  unfold policyValid; infer_instance
instance (tx : Transaction) : Decidable tx.dexValid := by unfold dexValid; infer_instance
instance (tx : Transaction) : Decidable tx.bindValid := by unfold bindValid; infer_instance

end Transaction

def hasSpareCover (env : Env σ) (l : Ledger) (a : AddressBytes) (ctx : VerifyContext) : Bool :=
  (match l.account? a with
    | some acc => acc.spareCommit != 0 || acc.sparePendingCommit != 0
    | none => false) || env.hasOperatorKeysAsOf a ctx.asOf

/-- What opens the bind of a reveal: the secret and the payload it must match. -/
def revealOpening (env : Env σ) (tx : Transaction) (key : AddressBytes) (acc : Account)
    (ctx : VerifyContext) : Option (Bytes × Hash) :=
  if tx.isAddressReveal then do
    let r ← parseAddressReveal tx.txData.optData
    if env.addressOpeningValid tx key r ctx && !acc.hasCommitments then
      let payload ← env.addressOpenPayload tx.sender key r
      some (r.oldPub, payload)
    else none
  else do
    let (secret, next) ← parseRecoveryReveal tx.txData.optData
    let want := acc.effectiveRecoveryCommit ctx.height
    if want ≠ 0 ∧ env.recoveryCommitment secret = some want then
      let payload ← env.recoveryPayload tx.sender key next secret
      some (secret, payload)
    else none

def verifyRecoveryReveal (env : Env σ) (l : Ledger) (tx : Transaction) (ctx : VerifyContext) :
    Bool :=
  tx.noPolicyFields &&
    match env.revealedKey tx ctx, l.account? tx.sender with
    | some key, some acc =>
      match revealOpening env tx key acc ctx with
      | none => false
      | some (secret, payload) =>
        match env.recoveryTag secret with
        | none => false
        | some tag =>
          match l.recoveryBinds.lookup (env.recoveryBindKey tx.sender tag) with
          | none => false
          | some bind =>
            bind.identity == tx.sender &&
              !decide (ctx.height < bind.height + Common.recoveryBindDelayBlocks) &&
              !decide (bind.height + Common.recoveryBindExpiryBlocks < ctx.height) &&
              payload == bind.payload && env.revealSignatureValid tx ctx
    | _, _ => false

def operatorKeysValid (env : Env σ) (tx : Transaction) (ctx : VerifyContext) : Prop :=
  ∀ n ∈ intDelegatedAccountFromAddress tx.txData.recipient,
    n < 256 → tx.txData.optData ≠ [] → 0 < tx.amount →
      env.hasOperatorKeysAsOf tx.sender ctx.asOf = true

instance (env : Env σ) (tx : Transaction) (ctx : VerifyContext) :
    Decidable (operatorKeysValid env tx ctx) := by unfold operatorKeysValid; infer_instance

@[mk_iff] structure Verified (env : Env σ) (l : Ledger) (ctx : VerifyContext) (tx : Transaction) :
    Prop where
  gas : tx.gasValid
  amount : tx.amountValid
  operatorKeys : operatorKeysValid env tx ctx
  spare : tx.isKeyRegistration = true ∨ tx.isRecoveryReveal = true ∨
    hasSpareCover env l tx.sender ctx = true
  lock : tx.lockValid
  policy : tx.policyValid l
  dex : tx.dexValid
  bind : tx.bindValid
  hash : env.calcHash tx.hashPreimage = tx.hash
  authority : if tx.isRecoveryReveal then verifyRecoveryReveal env l tx ctx = true
    else env.signatureValid l tx ctx = true

instance (env : Env σ) (l : Ledger) (ctx : VerifyContext) (tx : Transaction) :
    Decidable (Verified env l ctx tx) := decidable_of_iff _ (verified_iff env l ctx tx).symm

def parentContext (lastBlock : Block) : VerifyContext :=
  ⟨lastBlock, some lastBlock.height, lastBlock.height + 1⟩

end QwidNode.Source
