import QwidNode.Source.Schemes

/-!
# The key registry

Source: `pubkeys/registryHeight.go`, `pubkeys/pubKeysTrie.go:151-245`,
`pubkeys/pubKeyHelper.go:111-140` and `blocks/processPubKey.go:72-441`. The registry holds the
record of every key under the address it derives, the addresses of every identity in the order of
registration, the height that registered a key, and a journal of registrations by height.
-/
namespace QwidNode.Source
open Lib

def maxKeysPerIdentity : Nat := 32

def journalPerHeightScanLimit : Int64 := 2048

structure KeyRegistry where
  /-- `PubKeyMarshalDBPrefix` -/
  records : FinMap AddressBytes PubKey := ∅
  /-- `PubKeyBytesMerkleTrieDBPrefix` -/
  lists : FinMap AddressBytes (List Address) := ∅
  /-- `PubKeyRegistrationHeightDBPrefix` -/
  heights : FinMap AddressBytes Int64 := ∅
  /-- `PubKeyRegistrationJournalDBPrefix`: height and derived address, to the identity -/
  journal : FinMap (Int64 × AddressBytes) AddressBytes := ∅

inductive KeyError where
  | addressDiffers
  | lengthOfNoScheme (bytes : Nat)
  | tooManyKeys (identity : AddressBytes)
  | transactionNotFound (hash : Hash)
deriving DecidableEq, Repr

/-- What the registry depends on besides its own state: how a key derives an address, and the
node's own configuration. -/
structure KeyEnv where
  derive : Bytes → AddressBytes
  own : OwnConfig

def KeyEnv.pubKeyToAddress (env : KeyEnv) (b : Bytes) (primary : Bool) : Address :=
  ⟨env.derive b, primary⟩

namespace KeyRegistry

/-- `RegistrationHeight`: a key without a record counts as registered at height 0. -/
def registrationHeight (r : KeyRegistry) (derived : AddressBytes) : Int64 :=
  (r.heights.lookup derived).getD 0

def registeredAsOf (r : KeyRegistry) (derived : AddressBytes) : Option Int64 → Bool
  | none => true
  | some asOf => r.registrationHeight derived ≤ asOf

def loadAddressesAsOf (r : KeyRegistry) (mainAddress : AddressBytes) (asOf : Option Int64) :
    Option (List Address) :=
  match r.lists.lookup mainAddress, asOf with
  | none, _ => none
  | some addrs, none => some addrs
  | some addrs, some h =>
    let kept := addrs.filter fun a => r.registeredAsOf a.byteValue (some h)
    if kept = [] then none else some kept

def isRegisteredUnder (r : KeyRegistry) (mainAddress derived : AddressBytes) : Bool :=
  ((r.lists.lookup mainAddress).getD []).any fun a => a.byteValue == derived

def loadPubKeyAsOf (r : KeyRegistry) (a : AddressBytes) (asOf : Option Int64) : Option PubKey :=
  if r.registeredAsOf a asOf then r.records.lookup a else none

def loadPubKeyWithPrimaryAsOf (r : KeyRegistry) (mainAddress : AddressBytes) (primary : Bool)
    (asOf : Option Int64) : Option PubKey := do
  let addrs ← r.loadAddressesAsOf mainAddress asOf
  let a ← addrs.reverse.find? fun a => a.primary == primary
  r.records.lookup a.byteValue

/-- `LoadPubKeyWithPrimaryOfLengthAsOf`: the newest key of a slot with a given length. -/
def loadPubKeyWithPrimaryOfLengthAsOf (r : KeyRegistry) (mainAddress : AddressBytes)
    (primary : Bool) (length : Int) (asOf : Option Int64) : Option PubKey := do
  let addrs ← r.loadAddressesAsOf mainAddress asOf
  addrs.reverse.findSome? fun a =>
    if a.primary = primary then
      (r.records.lookup a.byteValue).filter fun pk => (pk.byteValue.length : Int) == length
    else none

def hasOperatorKeysAsOf (r : KeyRegistry) (mainAddress : AddressBytes) (asOf : Option Int64) :
    Bool :=
  match r.loadAddressesAsOf mainAddress asOf with
  | none => false
  | some addrs => addrs.any (·.primary) && addrs.any (!·.primary)

def storePubKey (env : KeyEnv) (pk : PubKey) : EStateM KeyError KeyRegistry Unit := do
  failIf (env.derive pk.byteValue ≠ pk.address.byteValue) .addressDiffers
  modify fun r => { r with records := r.records.insert pk.address.byteValue pk }

/-- `StorePubKeyInPatriciaTrie`. A first key that derives its identity opens the list like any
other. -/
def storePubKeyInPatriciaTrie (env : KeyEnv) (pk : PubKey) : EStateM KeyError KeyRegistry Unit := do
  failIf (env.own.isValidPubKeyLength pk.byteValue.length pk.primary = false)
    (.lengthOfNoScheme pk.byteValue.length)
  let r ← get
  let addresses := (r.lists.lookup pk.mainAddress.byteValue).getD []
  let address := env.pubKeyToAddress pk.byteValue pk.primary
  if addresses.any fun a => a.byteValue == pk.address.byteValue then return
  failIf (maxKeysPerIdentity ≤ addresses.length) (.tooManyKeys pk.mainAddress.byteValue)
  set { r with lists := r.lists.insert pk.mainAddress.byteValue (addresses ++ [address]) }

def registerPubKeyAtHeight (env : KeyEnv) (pk : PubKey) (height : Int64) :
    EStateM KeyError KeyRegistry Unit := do
  let r ← get
  let isNew := !r.isRegisteredUnder pk.mainAddress.byteValue pk.address.byteValue
  storePubKey env pk
  storePubKeyInPatriciaTrie env pk
  if isNew then
    modify fun r => { r with
      heights := r.heights.insert pk.address.byteValue height
      journal := r.journal.insert (height, pk.address.byteValue) pk.mainAddress.byteValue }

/-- The key a transaction encloses, with the addresses `ProcessBlockPubKey` fills in. -/
def enclosedKey (env : KeyEnv) (tx : Transaction) : PubKey :=
  let pk := tx.txData.pubkey
  let pk := if pk.address.byteValue = 0 then
    { pk with address := env.pubKeyToAddress pk.byteValue pk.primary } else pk
  if pk.mainAddress.byteValue = 0 then { pk with mainAddress := pk.address } else pk

/-- The body of the loop of `ProcessBlockPubKey`: nothing without a key, and nothing for a key
that names another identity than the sender. -/
def processTxPubKey (env : KeyEnv) (tx : Transaction) (height : Int64) :
    EStateM KeyError KeyRegistry Unit := do
  if tx.txData.pubkey.byteValue = [] then return
  let pk := enclosedKey env tx
  if pk.mainAddress.byteValue ≠ tx.txParam.sender.byteValue then return
  registerPubKeyAtHeight env pk height

def processHashPubKey (env : KeyEnv) (load : Hash → Option Transaction) (height : Int64)
    (hash : Hash) : EStateM KeyError KeyRegistry Unit :=
  match load hash with
  | none => throw (.transactionNotFound hash)
  | some tx => processTxPubKey env tx height

def processBlockPubKey (env : KeyEnv) (load : Hash → Option Transaction) (block : Block) :
    EStateM KeyError KeyRegistry Unit :=
  block.transactionsHashes.forM (processHashPubKey env load block.height)

def unregisterPubKey (r : KeyRegistry) (derived mainAddr : AddressBytes) : KeyRegistry :=
  let r := { r with records := r.records.erase derived, heights := r.heights.erase derived }
  match r.lists.lookup mainAddr with
  | none => r
  | some addrs =>
    let kept := addrs.filter fun a => a.byteValue != derived
    if kept.length = addrs.length then r
    else if kept = [] then { r with lists := r.lists.erase mainAddr }
    else { r with lists := r.lists.insert mainAddr kept }

/-- Undo the journalled registrations a test selects, and drop their entries. -/
def undoJournal (r : KeyRegistry) (select : Int64 → Bool) : KeyRegistry :=
  (r.journal.entries.filter fun e => select e.1.1).foldl (fun r e =>
    let r := r.unregisterPubKey e.1.2 e.2
    { r with journal := r.journal.erase e.1 }) r

def unregisterPubKeysAtHeight (r : KeyRegistry) (height : Int64) : KeyRegistry :=
  r.undoJournal fun h => h == height

/-- `UnregisterPubKeysAboveHeight`: height by height up to `top` for a short rewind, one sweep
otherwise. -/
def unregisterPubKeysAboveHeight (r : KeyRegistry) (target top : Int64) : KeyRegistry :=
  if target < top ∧ top - target ≤ journalPerHeightScanLimit then
    ((List.range (top.toInt - target.toInt).toNat).map fun i => target + 1 + Int64.ofNat i).foldl
      unregisterPubKeysAtHeight r
  else r.undoJournal fun h => target < h

def binding (pk : PubKey) : Bytes × AddressBytes := (pk.byteValue, pk.mainAddress.byteValue)

structure AgreeAsOf (h : Int64) (r r' : KeyRegistry) : Prop where
  lists : ∀ m, r.loadAddressesAsOf m (some h) = r'.loadAddressesAsOf m (some h)
  records : ∀ d, (r.loadPubKeyAsOf d (some h)).map binding =
    (r'.loadPubKeyAsOf d (some h)).map binding

structure AtHeight (h : Int64) (r : KeyRegistry) : Prop where
  registered : ∀ m addrs, r.lists.lookup m = some addrs →
    ∀ a ∈ addrs, r.registeredAsOf a.byteValue (some h) = true
  nonempty : ∀ m addrs, r.lists.lookup m = some addrs → addrs ≠ []

variable {r r' : KeyRegistry} {h : Int64} {m : AddressBytes} {addrs : List Address} {primary : Bool}
  {length : Int}

theorem AgreeAsOf.symm (agree : AgreeAsOf h r r') : AgreeAsOf h r' r :=
  ⟨fun m => (agree.lists m).symm, fun d => (agree.records d).symm⟩

theorem loadAddressesAsOf_some (found : r.loadAddressesAsOf m (some h) = some addrs) :
    ∃ all, r.lists.lookup m = some all ∧
      addrs = all.filter fun a => r.registeredAsOf a.byteValue (some h) := by
  unfold loadAddressesAsOf at found
  cases listed : r.lists.lookup m with
  | none =>
    rw [listed] at found
    cases found
  | some all =>
    simp only [listed] at found
    split at found
    · cases found
    · cases found
      exact ⟨all, rfl, rfl⟩

def keyOfLength (r : KeyRegistry) (primary : Bool) (length : Int) (a : Address) : Option PubKey :=
  if a.primary = primary then
    (r.records.lookup a.byteValue).filter fun pk => (pk.byteValue.length : Int) == length
  else none

theorem loadPubKeyWithPrimaryOfLengthAsOf_eq (r : KeyRegistry) (m : AddressBytes) (primary : Bool)
    (length : Int) (asOf : Option Int64) :
    r.loadPubKeyWithPrimaryOfLengthAsOf m primary length asOf =
      (r.loadAddressesAsOf m asOf).bind fun addrs =>
        addrs.reverse.findSome? (r.keyOfLength primary length) := rfl

theorem AgreeAsOf.keyOfLength (agree : AgreeAsOf h r r') {a : Address}
    (first : r.registeredAsOf a.byteValue (some h) = true)
    (second : r'.registeredAsOf a.byteValue (some h) = true) :
    (r.keyOfLength primary length a).map binding = (r'.keyOfLength primary length a).map binding := by
  have same := agree.records a.byteValue
  simp only [loadPubKeyAsOf, first, second, if_true] at same
  unfold KeyRegistry.keyOfLength
  split
  · cases left : r.records.lookup a.byteValue with
    | none =>
      cases right : r'.records.lookup a.byteValue with
      | none => rfl
      | some pk' => simp [left, right] at same
    | some pk =>
      cases right : r'.records.lookup a.byteValue with
      | none => simp [left, right] at same
      | some pk' =>
        simp only [left, right, Option.map_some, Option.some.injEq, binding, Prod.mk.injEq] at same
        simp only [Option.filter_some, same.1]
        split
        · exact congrArg some (Prod.ext same.1 same.2)
        · rfl
  · rfl

theorem findSome_map_congr {α β γ : Type} {f g : α → Option β} {view : β → γ} {items : List α}
    (same : ∀ a ∈ items, (f a).map view = (g a).map view) :
    (items.findSome? f).map view = (items.findSome? g).map view := by
  induction items with
  | nil => rfl
  | cons a rest ih =>
    have here := same a List.mem_cons_self
    have later := ih fun b member => same b (List.mem_cons_of_mem a member)
    rw [List.findSome?_cons, List.findSome?_cons]
    cases first : f a with
    | none =>
      cases second : g a with
      | none => exact later
      | some b => simp [first, second] at here
    | some b =>
      cases second : g a with
      | none => simp [first, second] at here
      | some b' => simpa [first, second] using here

theorem AgreeAsOf.loadPubKeyWithPrimaryOfLength (agree : AgreeAsOf h r r') (m : AddressBytes)
    (primary : Bool) (length : Int) :
    (r.loadPubKeyWithPrimaryOfLengthAsOf m primary length (some h)).map binding =
      (r'.loadPubKeyWithPrimaryOfLengthAsOf m primary length (some h)).map binding := by
  rw [loadPubKeyWithPrimaryOfLengthAsOf_eq, loadPubKeyWithPrimaryOfLengthAsOf_eq]
  have same := agree.lists m
  cases found : r.loadAddressesAsOf m (some h) with
  | none =>
    rw [found] at same
    rw [← same]
    rfl
  | some addrs =>
    rw [found] at same
    rw [← same]
    obtain ⟨all, -, first⟩ := loadAddressesAsOf_some found
    obtain ⟨all', -, second⟩ := loadAddressesAsOf_some same.symm
    refine findSome_map_congr fun a member => agree.keyOfLength ?_ ?_
    · rw [first] at member
      exact (List.mem_filter.mp (List.mem_reverse.mp member)).2
    · rw [second] at member
      exact (List.mem_filter.mp (List.mem_reverse.mp member)).2

theorem loadPubKeyWithPrimaryOfLength_of_asOf
    (found : (r.loadPubKeyWithPrimaryOfLengthAsOf m primary length (some h)).isSome = true) :
    (r.loadPubKeyWithPrimaryOfLengthAsOf m primary length none).isSome = true := by
  rw [loadPubKeyWithPrimaryOfLengthAsOf_eq] at found ⊢
  cases listed : r.loadAddressesAsOf m (some h) with
  | none =>
    rw [listed] at found
    cases found
  | some addrs =>
    obtain ⟨all, lookup, rfl⟩ := loadAddressesAsOf_some listed
    rw [listed] at found
    have whole : r.loadAddressesAsOf m none = some all := by
      unfold loadAddressesAsOf
      rw [lookup]
    rw [whole]
    simp only [Option.bind_some, List.findSome?_isSome_iff, List.mem_reverse] at found ⊢
    obtain ⟨a, member, key⟩ := found
    exact ⟨a, List.mem_of_mem_filter member, key⟩

theorem AtHeight.loadPubKeyWithPrimaryOfLength (at_height : AtHeight h r) (m : AddressBytes)
    (primary : Bool) (length : Int) :
    r.loadPubKeyWithPrimaryOfLengthAsOf m primary length none =
      r.loadPubKeyWithPrimaryOfLengthAsOf m primary length (some h) := by
  have same : r.loadAddressesAsOf m none = r.loadAddressesAsOf m (some h) := by
    unfold loadAddressesAsOf
    cases listed : r.lists.lookup m with
    | none => rfl
    | some addrs =>
      have all : addrs.filter (fun a => r.registeredAsOf a.byteValue (some h)) = addrs :=
        List.filter_eq_self.mpr (at_height.registered m addrs listed)
      simp only [all]
      rw [if_neg (at_height.nonempty m addrs listed)]
  rw [loadPubKeyWithPrimaryOfLengthAsOf_eq, loadPubKeyWithPrimaryOfLengthAsOf_eq, same]

end KeyRegistry

end QwidNode.Source
