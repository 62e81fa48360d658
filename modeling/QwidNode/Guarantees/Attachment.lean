import QwidNode.Source.Authority
import QwidNode.Source.KeyUndo

/-!
# Who attaches a key

A key is recorded under an identity by a transaction that the identity sent. Its authority is that
the key derives the identity, that it is the committed spare and signs for itself, that a key of a
live scheme registered to the identity signs, or that a recovery opens the identity.
-/
namespace QwidNode.Guarantees
open Lib Source Transaction KeyRegistry Option
variable {σ : Type} {env : Env σ} {sig : SigEnv} {names : SigNames} {r r' : KeyRegistry}
  {l : Ledger} {asOf : Option Int64} {height : Int64} {tx : Transaction} {ctx : VerifyContext}
  {key : Bytes}

/-- The signature of a transaction verifies against a key, under the scheme it names. -/
def SignedBy (sig : SigEnv) (names : SigNames) (tx : Transaction) (key : Bytes) : Prop :=
  sig.pubKeyLength (names.signingSchemeName (signedPrimary tx.signature)) = some (key.length : Int) ∧
    sig.oqsVerify (names.signingSchemeName (signedPrimary tx.signature)) tx.hash tx.signature.tail
      key = true

/-- A key is registered to an identity as of a height: by its record, or in the list. -/
def RegisteredTo (sig : SigEnv) (r : KeyRegistry) (asOf : Option Int64) (m : AddressBytes)
    (key : Bytes) : Prop :=
  (∃ pk, r.loadPubKeyAsOf (sig.derive key) asOf = some pk ∧ pk.mainAddress.byteValue = m) ∨
    ∃ addrs, r.loadAddressesAsOf m asOf = some addrs ∧
      ∃ a ∈ addrs, ∃ pk, r.records.lookup a.byteValue = some pk ∧ pk.byteValue = key

/-- The reveal opens the commitment or the address of its sender, through the recorded bind, which
has matured and not expired. -/
structure Opens (env : Env σ) (l : Ledger) (ctx : VerifyContext) (tx : Transaction) : Prop where
  reveal : tx.isRecoveryReveal = true
  opened : ∃ key acc secret payload tag bind, env.revealedKey tx ctx = some key ∧
    l.account? tx.sender = some acc ∧ revealOpening env tx key acc ctx = some (secret, payload) ∧
    env.recoveryTag secret = some tag ∧
    l.recoveryBinds.lookup (env.recoveryBindKey tx.sender tag) = some bind ∧
    bind.identity = tx.sender ∧ ¬ ctx.height < bind.height + Common.recoveryBindDelayBlocks ∧
    ¬ bind.height + Common.recoveryBindExpiryBlocks < ctx.height ∧ payload = bind.payload

inductive Authority (env : Env σ) (sig : SigEnv) (r : KeyRegistry) (l : Ledger) (names : SigNames)
    (ctx : VerifyContext) (tx : Transaction) : Prop where
  | derives (own : sig.derive tx.txData.pubkey.byteValue = tx.sender)
  | spare (committed : isCommittedSpare l tx.sender (sig.derive tx.txData.pubkey.byteValue)
        ctx.height = true)
      (signed : SignedBy sig names tx tx.txData.pubkey.byteValue)
  | registered (key : Bytes) (held : RegisteredTo sig r ctx.asOf tx.sender key)
      (live : names.paused (signedPrimary tx.signature) = false) (signed : SignedBy sig names tx key)
  | recovery (opens : Opens env l ctx tx)

/-- A registration of the committed spare that a paused scheme signs for: the spare is new, does
not derive the sender, and has not the length of the scheme the signature names. -/
structure SignedForSpare (sig : SigEnv) (r : KeyRegistry) (l : Ledger) (names : SigNames)
    (ctx : VerifyContext) (tx : Transaction) : Prop where
  regular : tx.isRecoveryReveal = false
  unregistered : r.loadPubKeyAsOf (sig.derive tx.txData.pubkey.byteValue) ctx.asOf = none
  pure : tx.isPureRegistration = true
  slot : signedPrimary tx.signature = tx.txData.pubkey.primary
  committed : isCommittedSpare l tx.sender (sig.derive tx.txData.pubkey.byteValue) ctx.height = true
  foreign : sig.derive tx.txData.pubkey.byteValue ≠ tx.sender
  length : sig.pubKeyLength (names.signingSchemeName (signedPrimary tx.signature)) ≠
    some (tx.txData.pubkey.byteValue.length : Int)
  paused : names.paused (signedPrimary tx.signature) = true

theorem walletVerify_signed (verified : walletVerify sig tx.hash tx.signature key names = true) :
    names.paused (signedPrimary tx.signature) = false ∧ SignedBy sig names tx key := by
  unfold walletVerify at verified
  unfold SignedBy
  cases parts : tx.signature with
  | nil =>
    rw [parts] at verified
    cases verified
  | cons flag rest =>
    rw [parts] at verified
    simp only at verified
    split at verified
    · cases verified
    case isFalse live =>
      rw [Bool.and_eq_true, beq_iff_eq] at verified
      exact ⟨by simpa using live, verified⟩

theorem signedBy_exempt (slot : Bool) (signed : SignedBy sig (names.exempt slot) tx key) :
    SignedBy sig names tx key := by
  have same : ∀ primary, (names.exempt slot).signingSchemeName primary =
      names.signingSchemeName primary := by
    intro primary
    cases slot <;> rfl
  unfold SignedBy at signed ⊢
  rw [same] at signed
  exact signed

theorem registeredTo_of_load {m : AddressBytes} {primary : Bool} {length : Int} {pk : PubKey}
    (found : r.loadPubKeyWithPrimaryOfLengthAsOf m primary length asOf = some pk) :
    RegisteredTo sig r asOf m pk.byteValue := by
  rw [loadPubKeyWithPrimaryOfLengthAsOf_eq, bind_eq_some_iff] at found
  obtain ⟨addrs, listed, found⟩ := found
  obtain ⟨a, member, held⟩ := List.exists_of_findSome?_eq_some found
  unfold keyOfLength at held
  split at held
  · rw [filter_eq_some_iff] at held
    exact .inr ⟨addrs, listed, a, List.mem_reverse.mp member, pk, held.1, rfl⟩
  · cases held

theorem signingKey_cases {judged : EnclosedKey}
    (existing : ∀ pk, judged.existing = some pk → RegisteredTo sig r asOf tx.sender pk.byteValue)
    (found : signingKey sig r names asOf tx judged = some key) :
    RegisteredTo sig r asOf tx.sender key ∨
      judged.existing = none ∧ key = tx.txData.pubkey.byteValue := by
  have chosen : ∀ pkb, (judged.existing.map (·.byteValue)).getD tx.txData.pubkey.byteValue = pkb →
      RegisteredTo sig r asOf tx.sender pkb ∨
        judged.existing = none ∧ pkb = tx.txData.pubkey.byteValue := by
    intro pkb taken
    cases held : judged.existing with
    | none =>
      rw [held] at taken
      exact .inr ⟨rfl, taken.symm⟩
    | some pk =>
      rw [held] at taken
      obtain rfl : pk.byteValue = pkb := taken
      exact .inl (existing pk held)
  unfold signingKey at found
  simp only at found
  split at found
  · exact chosen key (Option.some.inj found)
  · split at found
    · rw [map_eq_some_iff] at found
      obtain ⟨pk, loaded, rfl⟩ := found
      exact .inl (registeredTo_of_load loaded)
    · exact chosen key (Option.some.inj found)

theorem judgeEnclosed_exempt (exempt : (judgeEnclosed sig r l names asOf height tx).exempt = true) :
    r.loadPubKeyAsOf (sig.derive tx.txData.pubkey.byteValue) asOf = none ∧
      tx.isPureRegistration = true ∧ signedPrimary tx.signature = tx.txData.pubkey.primary ∧
      (isCommittedSpare l tx.sender (sig.derive tx.txData.pubkey.byteValue) height = true ∨
        sig.derive tx.txData.pubkey.byteValue = tx.sender) := by
  simp only [judgeEnclosed, judgeKey, Bool.or_eq_true, Bool.and_eq_true, isNone_iff_eq_none,
    beq_iff_eq] at exempt
  rcases exempt with ⟨⟨⟨new, pure⟩, slot⟩, spare⟩ | ⟨⟨⟨new, pure⟩, slot⟩, own⟩
  · exact ⟨new, pure, slot, .inl spare⟩
  · exact ⟨new, pure, slot, .inr own⟩

theorem judgeEnclosed_existing {pk : PubKey}
    (held : (judgeEnclosed sig r l names asOf height tx).existing = some pk) :
    RegisteredTo sig r asOf tx.sender pk.byteValue := by
  simp only [judgeEnclosed, judgeKey] at held
  split at held
  · obtain ⟨length, -, loaded⟩ := Option.bind_eq_some_iff.mp held
    exact registeredTo_of_load loaded
  · cases held

theorem judgeEnclosed_spare
    (new : r.loadPubKeyAsOf (sig.derive tx.txData.pubkey.byteValue) asOf = none)
    (pure : tx.isPureRegistration = true)
    (slot : signedPrimary tx.signature = tx.txData.pubkey.primary)
    (spare : isCommittedSpare l tx.sender (sig.derive tx.txData.pubkey.byteValue) height = true) :
    (judgeEnclosed sig r l names asOf height tx).existing = none := by
  simp [judgeEnclosed, judgeKey, new, pure, slot, spare]

theorem judgeEnclosed_unaided
    (matched : (judgeEnclosed sig r l names asOf height tx).addressMatch = true)
    (strict : ¬ (judgeEnclosed sig r l names asOf height tx).exempt = true)
    (unaided : (judgeEnclosed sig r l names asOf height tx).existing = none) :
    RegisteredTo sig r asOf tx.sender tx.txData.pubkey.byteValue ∨
      sig.derive tx.txData.pubkey.byteValue = tx.sender := by
  cases stored : r.loadPubKeyAsOf (sig.derive tx.txData.pubkey.byteValue) asOf with
  | some record =>
    simp only [judgeEnclosed, judgeKey, stored, beq_iff_eq] at matched
    exact .inl (.inl ⟨record, stored, matched⟩)
  | none =>
    simp only [judgeEnclosed, judgeKey, stored, isNone_none, Bool.true_and, Bool.or_eq_true,
      not_or, Bool.not_eq_true] at matched strict unaided
    simp only [strict.1, Bool.false_eq_true, if_false, Bool.not_false, if_true] at matched unaided
    simp only [unaided, isSome_none, Bool.false_eq_true, if_false, beq_iff_eq] at matched
    exact .inr matched

theorem signingKey_own {judged : EnclosedKey} (unaided : judged.existing = none)
    (length : sig.pubKeyLength (names.signingSchemeName (signedPrimary tx.signature)) =
      some (tx.txData.pubkey.byteValue.length : Int)) :
    signingKey sig r names asOf tx judged = some tx.txData.pubkey.byteValue := by
  simp [signingKey, unaided, length]

theorem verifyEnclosed_authority (env : Env σ) (regular : tx.isRecoveryReveal = false)
    (verified : verifyEnclosed sig r l names ctx.asOf ctx.height tx = true) :
    Authority env sig r l names ctx tx ∨ SignedForSpare sig r l names ctx tx := by
  unfold verifyEnclosed at verified
  simp only [Bool.and_eq_true] at verified
  obtain ⟨⟨⟨-, matched⟩, -⟩, verified⟩ := verified
  split at verified
  · cases verified
  case h_2 key found =>
    have against := signingKey_cases (fun pk => judgeEnclosed_existing) found
    split at verified
    case isTrue exempt =>
      obtain ⟨new, pure, slot, spare | own⟩ := judgeEnclosed_exempt exempt
      · by_cases length : sig.pubKeyLength (names.signingSchemeName (signedPrimary tx.signature)) =
            some (tx.txData.pubkey.byteValue.length : Int)
        · -- the spare signs for itself
          rw [signingKey_own (judgeEnclosed_spare new pure slot spare) length] at found
          cases found
          have signed := signedBy_exempt _ (walletVerify_signed verified).2
          exact .inl (.spare spare signed)
        · have signed := signedBy_exempt _ (walletVerify_signed verified).2
          rcases against with held | ⟨-, rfl⟩
          · cases paused : names.paused (signedPrimary tx.signature) with
            | false => exact .inl (.registered key held paused signed)
            | true =>
              by_cases own : sig.derive tx.txData.pubkey.byteValue = tx.sender
              · exact .inl (.derives own)
              · exact .inr ⟨regular, new, pure, slot, spare, own, length, paused⟩
          · exact absurd signed.1 length
      · exact .inl (.derives own)
    case isFalse strict =>
      obtain ⟨live, signed⟩ := walletVerify_signed verified
      rcases against with held | ⟨unaided, rfl⟩
      · exact .inl (.registered key held live signed)
      · rcases judgeEnclosed_unaided matched strict unaided with held | own
        · exact .inl (.registered _ held live signed)
        · exact .inl (.derives own)

theorem verified_signature {names : VerifyContext → Option SigNames} {ns : SigNames}
    (named : names ctx = some ns) (verified : Verified (env.withKeys sig names r) l ctx tx)
    (regular : tx.isRecoveryReveal = false) :
    verifySignature sig r l ns ctx.asOf ctx.height tx = true := by
  have authority := verified.authority
  simp only [regular, Bool.false_eq_true, if_false, Env.withKeys, named] at authority
  exact authority

theorem verified_opens (verified : Verified env l ctx tx) (reveal : tx.isRecoveryReveal = true) :
    Opens env l ctx tx := by
  refine ⟨reveal, ?_⟩
  have authority := verified.authority
  rw [if_pos reveal] at authority
  unfold verifyRecoveryReveal at authority
  rw [Bool.and_eq_true] at authority
  obtain ⟨-, authority⟩ := authority
  split at authority
  case h_2 => cases authority
  case h_1 key acc revealed account =>
    split at authority
    · cases authority
    case h_2 secret payload opening =>
      split at authority
      · cases authority
      case h_2 tag tagged =>
        split at authority
        · cases authority
        case h_2 bind bound =>
          simp only [Bool.and_eq_true, beq_iff_eq, Bool.not_eq_true', decide_eq_false_iff_not]
            at authority
          exact ⟨key, acc, secret, payload, tag, bind, revealed, account, opening, tagged, bound,
            authority.1.1.1.1, authority.1.1.1.2, authority.1.1.2, authority.1.2⟩

theorem authority_iff {names : VerifyContext → Option SigNames} {ns : SigNames}
    (named : names ctx = some ns) (verified : Verified (env.withKeys sig names r) l ctx tx)
    (enclosed : tx.txData.pubkey.byteValue ≠ []) :
    Authority (env.withKeys sig names r) sig r l ns ctx tx ↔ ¬ SignedForSpare sig r l ns ctx tx := by
  constructor
  · intro authority gap
    cases authority with
    | derives own => exact gap.foreign own
    | spare _ signed => exact gap.length signed.1
    | registered _ _ live _ =>
      rw [gap.paused] at live
      cases live
    | recovery opens =>
      have reveal := opens.reveal
      rw [gap.regular] at reveal
      cases reveal
  · intro whole
    cases regular : tx.isRecoveryReveal with
    | true => exact .recovery (verified_opens verified regular)
    | false =>
      have signature := verified_signature named verified regular
      unfold verifySignature at signature
      rw [if_neg enclosed] at signature
      split at signature
      · cases signature
      · exact (verifyEnclosed_authority _ regular signature).resolve_right whole

theorem paused_signature {names : VerifyContext → Option SigNames} {ns : SigNames}
    (named : names ctx = some ns) (verified : Verified (env.withKeys sig names r) l ctx tx)
    (paused : ns.paused (signedPrimary tx.signature) = true) :
    tx.isRecoveryReveal = true ∨ tx.txData.pubkey.byteValue ≠ [] ∧ tx.isPureRegistration = true ∧
      r.loadPubKeyAsOf (sig.derive tx.txData.pubkey.byteValue) ctx.asOf = none ∧
      (sig.derive tx.txData.pubkey.byteValue = tx.sender ∨
        isCommittedSpare l tx.sender (sig.derive tx.txData.pubkey.byteValue) ctx.height = true) := by
  cases regular : tx.isRecoveryReveal with
  | true => exact .inl rfl
  | false =>
    right
    have signature := verified_signature named verified regular
    have strict : ∀ key, walletVerify sig tx.hash tx.signature key ns = false := by
      intro key
      by_contra verifies
      rw [Bool.not_eq_false] at verifies
      have live := (walletVerify_signed verifies).1
      rw [paused] at live
      cases live
    unfold verifySignature at signature
    split at signature
    · cases signature
    · split at signature
      · split at signature
        · cases signature
        · rw [strict] at signature
          cases signature
      case isFalse enclosed =>
        unfold verifyEnclosed at signature
        simp only [Bool.and_eq_true] at signature
        obtain ⟨-, signature⟩ := signature
        split at signature
        · cases signature
        · split at signature
          case isTrue exempt =>
            obtain ⟨new, pure, -, which⟩ := judgeEnclosed_exempt exempt
            exact ⟨enclosed, pure, new, which.symm⟩
          case isFalse =>
            rw [strict] at signature
            cases signature

/-- Every address and every record that is new was put there as `P` says, of an identity and of
the address its key derives. -/
structure RecordedBy (P : AddressBytes → AddressBytes → Prop) (r r' : KeyRegistry) : Prop where
  lists : ∀ m, ∀ a ∈ r'.addressesOf m, a ∈ r.addressesOf m ∨ P m a.byteValue
  records : ∀ d pk, r'.records.lookup d = some pk →
    r.records.lookup d = some pk ∨ P pk.mainAddress.byteValue d

instance (P : AddressBytes → AddressBytes → Prop) : IsPreorder KeyRegistry (RecordedBy P) where
  refl _ := ⟨fun _ _ => .inl, fun _ _ => .inl⟩
  trans _ _ _ first second :=
    ⟨fun m a member => (second.lists m a member).elim (first.lists m a) .inr,
      fun d pk found => (second.records d pk found).elim (first.records d pk) .inr⟩

variable {P : AddressBytes → AddressBytes → Prop} {pk : PubKey}

theorem recordedBy_withRecord (put : P pk.mainAddress.byteValue pk.address.byteValue) :
    RecordedBy P r (r.withRecord pk) where
  lists _ _ := .inl
  records d pk' found := by
    by_cases own : d = pk.address.byteValue
    · subst own
      obtain rfl : pk = pk' := Option.some.inj ((AList.lookup_insert _).symm.trans found)
      exact .inr put
    · exact .inl ((AList.lookup_insert_ne own).symm.trans found)

theorem recordedBy_withNew {env : KeyEnv} (derived : env.derive pk.byteValue = pk.address.byteValue)
    (put : P pk.mainAddress.byteValue pk.address.byteValue) :
    RecordedBy P r (r.withNew env pk height) where
  lists m a member := by
    rw [addressesOf_withNew] at member
    rcases List.mem_append.mp member with earlier | now
    · exact .inl earlier
    · split at now
      case isTrue owner =>
        obtain rfl := List.mem_singleton.mp now
        right
        change P m (env.derive pk.byteValue)
        rw [owner, derived]
        exact put
      case isFalse => cases now
  records := (recordedBy_withRecord put).records

theorem recordedBy_register {env : KeyEnv}
    (put : env.derive pk.byteValue = pk.address.byteValue →
      P pk.mainAddress.byteValue (env.derive pk.byteValue)) :
    RecordedBy P r (finalState (registerPubKeyAtHeight env pk height r)) := by
  rw [registerPubKeyAtHeight_final]
  split
  · exact refl_of (RecordedBy P) r
  case isFalse derived =>
    rw [not_not] at derived
    have here := derived ▸ put derived
    split
    · exact recordedBy_withNew derived here
    · exact recordedBy_withRecord here

/-- A transaction of the list encloses the key that derives an address, for its sender. -/
def PutBy (env : KeyEnv) (load : Hash → Option Transaction) (hashes : List Hash)
    (m d : AddressBytes) : Prop :=
  ∃ hash ∈ hashes, ∃ tx, load hash = some tx ∧ tx.txData.pubkey.byteValue ≠ [] ∧ tx.sender = m ∧
    env.derive tx.txData.pubkey.byteValue = d

theorem enclosedKey_bytes (env : KeyEnv) (tx : Transaction) :
    (enclosedKey env tx).byteValue = tx.txData.pubkey.byteValue := by
  unfold enclosedKey
  dsimp only
  split <;> split <;> rfl

theorem processBlockPubKey_recorded (env : KeyEnv) (load : Hash → Option Transaction)
    (block : Block) :
    Respects (RecordedBy (PutBy env load block.transactionsHashes))
      (processBlockPubKey env load block) := by
  refine Respects.forM _ fun hash member r => ?_
  unfold processHashPubKey
  cases loaded : load hash with
  | none => exact refl_of (RecordedBy _) r
  | some tx =>
    rw [processTxPubKey_final]
    split
    case isTrue named =>
      refine recordedBy_register fun _ => ⟨hash, member, tx, loaded, named.1, named.2.symm, ?_⟩
      rw [enclosedKey_bytes]
    case isFalse => exact refl_of (RecordedBy _) r

/-- A transaction of the block, verified against the parent, was sent by the identity and encloses
the key that derives the address; it has authority unless a paused scheme signed for the committed
spare. -/
def Attached (env : Env σ) (sig : SigEnv) (r : KeyRegistry) (ns : SigNames) (l : Ledger)
    (block lastBlock : Block) (m d : AddressBytes) : Prop :=
  ∃ tx, tx.hash ∈ block.transactionsHashes ∧ Verified env l (parentContext lastBlock) tx ∧
    tx.sender = m ∧ sig.derive tx.txData.pubkey.byteValue = d ∧
    (Authority env sig r l ns (parentContext lastBlock) tx ↔
      ¬ SignedForSpare sig r l ns (parentContext lastBlock) tx)

/-- Every key that an accepted block records, whether all of its keys can be recorded or not, is
attached by a transaction with authority, unless a paused scheme signed for the committed spare;
and no other transaction of the block is signed under a paused scheme than a recovery or the pure
registration of a new key that derives its sender or is the committed spare. -/
theorem key_attachment (env : Env σ) (sig : SigEnv) (names : VerifyContext → Option SigNames)
    (r : KeyRegistry) (newBlock lastBlock block : Block) (s t : Node σ) (ns : SigNames)
    (named : names (parentContext lastBlock) = some ns)
    (accepted : checkBlockAndTransferFunds (env.withKeys sig names r) newBlock lastBlock s =
      .ok block t) :
    ∃ totals checked evaluated,
      checkBlockTransfers (env.withKeys sig names r) newBlock lastBlock s = .ok totals checked ∧
      block.transactionsHashes.forM (evaluateHash (env.withKeys sig names r) block) checked =
        .ok () evaluated ∧
      RecordedBy (Attached (env.withKeys sig names r) sig r ns s.ledger block lastBlock) r
        (finalState (processBlockPubKey sig.toKeyEnv
          (evaluated.db.loadTx? (env.withKeys sig names r) .pool) block r)) ∧
      ∀ hash ∈ block.transactionsHashes, ∀ tx,
        checked.db.loadTx? (env.withKeys sig names r) .pool hash = some tx →
        ns.paused (signedPrimary tx.signature) = true →
        tx.isRecoveryReveal = true ∨ tx.txData.pubkey.byteValue ≠ [] ∧ tx.isPureRegistration = true ∧
          r.loadPubKeyAsOf (sig.derive tx.txData.pubkey.byteValue) (some lastBlock.height) = none ∧
          (sig.derive tx.txData.pubkey.byteValue = tx.sender ∨ isCommittedSpare s.ledger tx.sender
            (sig.derive tx.txData.pubkey.byteValue) (lastBlock.height + 1) = true) := by
  obtain ⟨reward, totalFee, txs, checked, evaluated, _, _, _, stages⟩ := accepted_stages accepted
  have ledger : checked.ledger = s.ledger := by
    obtain ⟨_, _, same⟩ := stages.load
    rw [same]
  have known : ∀ hash ∈ block.transactionsHashes, ∀ tx,
      checked.db.loadTx? (env.withKeys sig names r) .pool hash = some tx →
      tx.hash = hash ∧ Verified (env.withKeys sig names r) s.ledger (parentContext lastBlock) tx := by
    intro hash member tx loaded
    obtain ⟨tx', check⟩ := stages.checkedTx hash member
    rw [check.loaded] at loaded
    cases loaded
    exact ⟨check.hash, ledger ▸ check.verified⟩
  refine ⟨_, checked, evaluated, stages.check, stages.evaluation, ?_, ?_⟩
  · have recorded := processBlockPubKey_recorded sig.toKeyEnv
      (evaluated.db.loadTx? (env.withKeys sig names r) .pool) block r
    have attached : ∀ m d, PutBy sig.toKeyEnv (evaluated.db.loadTx? (env.withKeys sig names r) .pool)
        block.transactionsHashes m d →
        Attached (env.withKeys sig names r) sig r ns s.ledger block lastBlock m d := by
      rintro m d ⟨hash, member, tx, loaded, enclosed, rfl, rfl⟩
      have bodies := stages.evm.bodies hash
      obtain ⟨tx', check⟩ := stages.checkedTx hash member
      rw [loaded, check.loaded] at bodies
      have same : tx.body = tx'.body := Option.some.inj bodies
      have data : tx.body.txData = tx'.body.txData := congrArg Transaction.txData same
      have param : tx.body.txParam = tx'.body.txParam := congrArg txParam same
      change tx.txData = tx'.txData at data
      change tx.txParam = tx'.txParam at param
      obtain ⟨hashed, verified⟩ := known hash member tx' check.loaded
      refine ⟨tx', hashed ▸ member, verified, ?_, ?_, ?_⟩
      · unfold sender
        rw [param]
      · rw [data]
      · rw [data] at enclosed
        exact authority_iff named verified enclosed
    exact ⟨fun m a member => (recorded.lists m a member).imp_right (attached m _),
      fun d pk found => (recorded.records d pk found).imp_right (attached _ d)⟩
  · intro hash member tx loaded paused
    exact paused_signature named (known hash member tx loaded).2 paused

/-- The registered keys of the identity `0x55`, of scheme A and of scheme C, and its committed
spare, of scheme B. -/
def primaryKey : Bytes := List.replicate 21 5
def secondaryKey : Bytes := List.replicate 23 9
def spareKey : Bytes := List.replicate 22 7

/-- Only the registered keys have signed. The node has gone from B to C in the secondary slot. -/
def spareSig : SigEnv where
  derive := addressOfBytes
  own := ⟨⟨⟨21, 1, 1, [65], false⟩, ⟨21, 1, 1, [65], false⟩⟩,
    ⟨⟨23, 1, 1, [67], true⟩, ⟨22, 1, 1, [66], true⟩⟩⟩
  oqs name := if name = [65] then some ⟨21, 1, 1⟩ else if name = [66] then some ⟨22, 1, 1⟩
    else if name = [67] then some ⟨23, 1, 1⟩ else none
  oqsVerify _ _ _ key := key == primaryKey || key == secondaryKey
  openingSigned _ _ _ := false

def namesAC : SigNames := ⟨[65], [67], false, true⟩

def spareRegistry : KeyRegistry where
  records := (AList.insert (addressOfBytes primaryKey)
      ⟨primaryKey, ⟨addressOfBytes primaryKey, true⟩, ⟨0x55, true⟩, true⟩ ∅).insert
    (addressOfBytes secondaryKey)
      ⟨secondaryKey, ⟨addressOfBytes secondaryKey, false⟩, ⟨0x55, true⟩, false⟩
  lists := AList.insert (0x55 : AddressBytes)
    [⟨addressOfBytes primaryKey, true⟩, ⟨addressOfBytes secondaryKey, false⟩] ∅

def spareTx (flag : UInt8) : Transaction :=
  let tx := plain 0x55 0x55 0 1 5
  Transaction.hashed { tx with
    txData := { tx.txData with
      pubkey := ⟨spareKey, ⟨addressOfBytes spareKey, false⟩, ⟨0x55, true⟩, false⟩ }
    signature := [flag], gasUsage := 40000 }

def spareNode (flag : UInt8) : Node Unit :=
  .small [{ address := 0x55, balance := 200000000000, spareCommit := addressOfBytes spareKey }]
    [spareTx flag]

def spareEnv : Env Unit :=
  Env.permissive.withKeys spareSig (fun _ => some namesAC) spareRegistry

/-- A key of the paused scheme C signs for the spare of B, which has signed nothing: the block is
accepted and the spare is recorded. -/
theorem paused_key_signs_for_spare :
    (∃ block t, checkBlockAndTransferFunds spareEnv ((spareNode 1).nextBlock 6 [(spareTx 1).hash])
        ((spareNode 1).parentBlock 5) (spareNode 1) = .ok block t) ∧
      ⟨addressOfBytes spareKey, false⟩ ∈ (finalState (processTxPubKey spareSig.toKeyEnv
        (spareTx 1) 6 spareRegistry)).addressesOf 0x55 ∧
      ¬ Authority spareEnv spareSig spareRegistry (spareNode 1).ledger namesAC
        (parentContext ((spareNode 1).parentBlock 5)) (spareTx 1) := by
  have verified : Verified spareEnv (spareNode 1).ledger
      (parentContext ((spareNode 1).parentBlock 5)) (spareTx 1) := by decide +kernel
  refine ⟨succeeds_iff.mp (by decide +kernel), by decide +kernel, fun authority => ?_⟩
  refine (authority_iff rfl verified (by decide)).mp authority
    ⟨by decide +kernel, by decide +kernel, by decide +kernel, by decide, by decide +kernel,
      by decide +kernel, by decide +kernel, by decide⟩

/-- Signed by the registered key of the live scheme A, the spare is attached with authority. -/
theorem live_key_signs_for_spare :
    ∃ block t evaluated, checkBlockAndTransferFunds spareEnv
        ((spareNode 0).nextBlock 6 [(spareTx 0).hash]) ((spareNode 0).parentBlock 5) (spareNode 0) =
          .ok block t ∧
      RecordedBy (Attached spareEnv spareSig spareRegistry namesAC (spareNode 0).ledger block
        ((spareNode 0).parentBlock 5)) spareRegistry
        (finalState (processBlockPubKey spareSig.toKeyEnv
          (Db.loadTx? spareEnv (Node.db evaluated) .pool) block spareRegistry)) := by
  obtain ⟨block, t, run⟩ : ∃ block t, checkBlockAndTransferFunds spareEnv
      ((spareNode 0).nextBlock 6 [(spareTx 0).hash]) ((spareNode 0).parentBlock 5) (spareNode 0) =
        .ok block t := succeeds_iff.mp (by decide +kernel)
  obtain ⟨_, _, evaluated, -, -, recorded, -⟩ := key_attachment Env.permissive spareSig
    (fun _ => some namesAC) spareRegistry _ _ block (spareNode 0) t namesAC rfl run
  exact ⟨block, t, evaluated, run, recorded⟩

end QwidNode.Guarantees
