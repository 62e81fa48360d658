import QwidNode.Source.Chain
import QwidNode.Source.Eligibility

/-!
# The header-batch handler

Source: `services/syncService/onmessage.go:668-1131`, `services/syncService/fork_verify.go`,
`services/syncService/serviceSync.go:295-379` and `services/helperReset.go:20-35`. The handler holds
`syncProcessMutex` throughout.
-/
namespace QwidNode.Source
open Lib

structure SyncEnv (σ : Type) extends Env σ where
  /-- The header carries a signature at all. -/
  headerSigned : Block → Bool
  /-- `merkleRoot` of the transaction hashes is the root in the header. -/
  merkleRootMatches : Block → Bool

variable {σ : Type}

structure HeaderRequest where
  fromHeight : Int64
  toHeight : Int64
  at_ : Int
  fork : Bool
deriving DecidableEq, Repr

def headerRequestTTL : Int := 120 * 10 ^ 9

def HeaderRequest.expired (r : HeaderRequest) (now : Int) : Bool :=
  decide (headerRequestTTL < now - r.at_)

def HeaderRequest.covers (r : HeaderRequest) (now : Int) (first last : Int64) : Bool :=
  !(r.expired now || decide (first < r.fromHeight) || decide (r.toHeight < last))

/-- The request `takeHeaderRequest` picks: the first that covers the batch, unless a later one
locates a fork and the picked one does not. -/
def pickHeaderRequest (now : Int) (first last : Int64) (requests : List HeaderRequest) :
    Option (HeaderRequest × Nat) :=
  requests.zipIdx.foldl (fun pick r =>
    if r.1.covers now first last then
      match pick with
      | none => some r
      | some p => if r.1.fork && !p.1.fork then some r else pick
    else pick) none

/-- `takeHeaderRequest`: whether a request matched and was for a fork, and those kept. -/
def takeHeaderRequest (now : Int) (first last : Int64) (requests : List HeaderRequest) :
    Option Bool × List HeaderRequest :=
  let pick := pickHeaderRequest now first last requests
  (pick.map fun p => p.1.fork,
    (requests.zipIdx.filter fun r =>
      !(pick.map Prod.snd == some r.2) && !r.1.expired now).map Prod.fst)

abbrev PeerAddr := BitVec 32

abbrev PendingHeaderRequests := FinMap PeerAddr (List HeaderRequest)

def PendingHeaderRequests.of (pending : PendingHeaderRequests) (addr : PeerAddr) :
    List HeaderRequest :=
  (pending.lookup addr).getD []

def maxOutstandingHeaderRequests : Nat := 4

def newestOutstanding {α : Type} (reqs : List α) : List α :=
  if maxOutstandingHeaderRequests < reqs.length then
    reqs.drop (reqs.length - maxOutstandingHeaderRequests)
  else reqs

def PendingHeaderRequests.add (pending : PendingHeaderRequests) (addr : PeerAddr)
    (r : HeaderRequest) : PendingHeaderRequests :=
  pending.insert addr (newestOutstanding (pending.of addr ++ [r]))

def PendingHeaderRequests.take (pending : PendingHeaderRequests) (addr : PeerAddr) (now : Int)
    (first last : Int64) : Option Bool × PendingHeaderRequests :=
  let taken := takeHeaderRequest now first last (pending.of addr)
  (taken.1, if taken.2.isEmpty then pending.erase addr else pending.insert addr taken.2)

inductive ForkVerdict where
  | forkInvalid
  | forkVerified
  | forkDeeper
deriving DecidableEq, Repr

def verifyCompetingBlock (env : SyncEnv σ) (db : Db σ) (block : Block) (index : Int64) :
    ForkVerdict :=
  if index < 1 ∨ block.height ≠ index then .forkInvalid
  else if env.calcBlockHash block ≠ block.blockHash then .forkInvalid
  else
    match db.loadBlock (index - 1) with
    | none => .forkInvalid
    | some parent =>
      if env.headerSigned block = false ∨ env.headerSignatureValid block parent = false then
        .forkInvalid
      else if block.previousHash ≠ parent.blockHash then .forkDeeper
      else .forkVerified

def authenticBatchHeader (env : SyncEnv σ) (block : Block) (index : Int64) (parent : Block) :
    Bool :=
  !(block.height != index || block.previousHash != parent.blockHash) &&
    env.calcBlockHash block == block.blockHash && env.merkleRootMatches block &&
    env.headerSigned block && env.headerSignatureValid block parent

abbrev BatchItem := Int64 × Block

inductive FirstPass where
  /-- Our own hash of a height is missing. -/
  | lostHash (index : Int64)
  /-- The block at the index competes with ours and shares our parent. -/
  | fork (item : BatchItem)
  | deeper (index : Int64)
  | invalid
  | scanned (lastGoodBlock completeUpTo : Int64)
deriving DecidableEq, Repr

/-- The parent a new block of a batch is judged against: the block before it in the batch, or
our tip. -/
def batchParent (db : Db σ) (h : Int64) (before : Option BatchItem) (index : Int64) :
    Option Block :=
  match before with
  | some p => if p.1 = index - 1 then some p.2
    else if index - 1 = h then db.loadBlock h else none
  | none => if index - 1 = h then db.loadBlock h else none

/-- The first pass, from an item on; `before` is the item in front of it. -/
def firstPass (env : SyncEnv σ) (s : Node σ) (h : Int64) :
    Option BatchItem → List BatchItem → Int64 → Int64 → FirstPass
  | _, [], lastGoodBlock, completeUpTo => .scanned lastGoodBlock completeUpTo
  | before, item :: rest, lastGoodBlock, completeUpTo =>
    if item.1 ≤ 0 then firstPass env s h (some item) rest lastGoodBlock completeUpTo
    else if item.1 ≤ h then
      match s.db.blockByHeight.lookup item.1 with
      | none => .lostHash item.1
      | some hash =>
        if item.2.blockHash = hash then firstPass env s h (some item) rest item.1 completeUpTo
        else
          match verifyCompetingBlock env s.db item.2 item.1 with
          | .forkVerified => .fork item
          | .forkDeeper => .deeper item.1
          | .forkInvalid => .invalid
    else
      match batchParent s.db h before item.1 with
      | none => .scanned lastGoodBlock completeUpTo
      | some parent =>
        if authenticBatchHeader env item.2 item.1 parent then
          -- a block with missing transactions is passed over and ends the complete run
          let complete := if s.isAllTransactions item.2 ∧ item.1 = completeUpTo + 1 then item.1
            else completeUpTo
          firstPass env s h (some item) rest lastGoodBlock complete
        else .scanned lastGoodBlock completeUpTo

/-- The second pass: the highest verified height, or nothing when the handler returns.
`before` is the block in front of the item once a new block has been met. -/
def secondPass (env : SyncEnv σ) (db : Db σ) (h completeUpTo : Int64) :
    Option Block → List BatchItem → Int64 → Option Int64
  | _, [], verifiedUpTo => some verifiedUpTo
  | before, item :: rest, verifiedUpTo =>
    if item.1 ≤ 0 ∨ item.1 ≤ h then
      secondPass env db h completeUpTo (before.map fun _ => item.2) rest verifiedUpTo
    else if completeUpTo < item.1 then some verifiedUpTo
    else
      match before.or (db.loadBlock (item.1 - 1)) with
      | none => none
      | some oldBlock =>
        if item.2.height ≠ item.1 then none
        else
          match checkBaseBlock env.toEnv item.2 oldBlock with
          | .error _ => if h < verifiedUpTo then some verifiedUpTo else none
          | .ok _ => secondPass env db h completeUpTo (some item.2) rest item.1

/-- A batch that has been verified at height `h` and waits for the block lock. -/
structure VerifiedBatch where
  h : Int64
  items : List BatchItem
  lastGoodBlock : Int64
  verifiedUpTo : Int64
deriving DecidableEq, Repr

inductive BatchVerdict where
  | ignored
  | lostHash (index : Int64)
  | fork (item : BatchItem)
  | deeper (index : Int64)
  | invalid
  | verified (batch : VerifiedBatch)
deriving DecidableEq, Repr

/-- The gates in front of the first pass: a message of as many blocks as indices that answers
a live request, does not end at or below our height unless it locates a fork, and does not
start beyond the next height. -/
def batchAdmitted (now : Int) (requests : List HeaderRequest) (h : Int64) (indices : List Int64)
    (blcks : List Block) : Bool :=
  match indices with
  | [] => false
  | first :: rest =>
    indices.length == blcks.length &&
      match (takeHeaderRequest now (rest.foldl min first) (rest.foldl max first) requests).1 with
      | none => false
      | some forkAnswer =>
        !(decide (rest.getLastD first ≤ h) && !forkAnswer) && !decide (h + 1 < first)

/-- The handler up to the block lock, on the indices and blocks of a message. -/
def Node.verifyBatch (env : SyncEnv σ) (s : Node σ) (now : Int) (requests : List HeaderRequest)
    (indices : List Int64) (blcks : List Block) : BatchVerdict :=
  if batchAdmitted now requests s.height indices blcks then
    let items := indices.zip blcks
    match firstPass env s s.height none items (indices.headD 0) s.height with
    | .lostHash index => .lostHash index
    | .fork item => .fork item
    | .deeper index => .deeper index
    | .invalid => .invalid
    | .scanned lastGoodBlock completeUpTo =>
      match secondPass env s.db s.height completeUpTo none items s.height with
      | none => .ignored
      | some verifiedUpTo =>
        if verifiedUpTo ≤ s.height then .ignored
        else .verified ⟨s.height, items, lastGoodBlock, verifiedUpTo⟩
  else .ignored

def adjustShiftInPastInReset (shift height h : Int64) : Int64 :=
  if height - h ≤ 0 then 1
  else
    let raised := shift + 2
    let capped := if height < raised then height else raised
    if capped < 1 then 1 else capped

/-- The apply loop, from an item on, with the height of the last block it applied. -/
def applyItems (env : Env σ) (fault : Block → StoreFault) (lastGoodBlock verifiedUpTo h : Int64) :
    Option Block → List BatchItem → Option Int64 → Node σ → Node σ × Option Int64
  | _, [], applied, s => (s, applied)
  | before, item :: rest, applied, s =>
    if verifiedUpTo < item.1 then (s, applied)
    else if item.2.height ≤ lastGoodBlock ∨ item.1 ≤ h then
      applyItems env fault lastGoodBlock verifiedUpTo h (before.map fun _ => item.2) rest applied s
    else
      match before.or (s.db.loadBlock (item.1 - 1)) with
      | none => (s, applied)
      | some oldBlock =>
        match checkBlockAndTransferFunds env item.2 oldBlock s with
        | .error _ s => (s.resetAccountsAndBlocksSync env oldBlock.height, applied)
        | .ok block s =>
          match storeBlock (fault item.2) block s with
          | .error _ s => (s.resetAccountsAndBlocksSync env oldBlock.height, applied)
          | .ok _ s =>
            applyItems env fault lastGoodBlock verifiedUpTo h (some item.2) rest
              (some block.height) { s with height := block.height }

/-- The locked part of the handler: the loop, and the snapshots of the batch end if the height
is that of the last applied block. -/
def Node.applyBatch (env : Env σ) (s : Node σ) (fault : Block → StoreFault)
    (batch : VerifiedBatch) : Node σ :=
  let (t, applied) := applyItems env fault batch.lastGoodBlock batch.verifiedUpTo s.height none
    batch.items none s
  if applied = some t.height then t.commitHeight env t.height else t

/-- What the handler does once it has the block lock. `shift` is `ShiftToPastInReset` and
`hmax` the height of the network. -/
def Node.actOn (env : Env σ) (s : Node σ) (fault : Block → StoreFault) (shift hmax : Int64) :
    BatchVerdict → Node σ
  | .lostHash index =>
    s.resetAccountsAndBlocksSync env (index - adjustShiftInPastInReset shift hmax s.height)
  | .fork item => s.resetAccountsAndBlocksSync env (item.1 - 1)
  | .verified batch => s.applyBatch env fault batch
  | .ignored | .deeper _ | .invalid => s

/-- A node, with the verdict its header handler holds while it waits for the block lock. -/
structure Handlers (σ : Type) where
  node : Node σ
  waiting : Option BatchVerdict := none

/-- The sections the handlers run one at a time. `syncProcessMutex` lets one header handler in,
so it looks at a batch only when none is waiting. -/
inductive HandlerStep where
  | block (received : List (Block × StoreFault))
  | verify (now : Int) (requests : List HeaderRequest) (indices : List Int64) (blcks : List Block)
  | act (fault : Block → StoreFault) (shift hmax : Int64)

def Handlers.step (env : SyncEnv σ) (s : Handlers σ) : HandlerStep → Handlers σ
  | .block received => { s with node := s.node.onBlocks env.toEnv received }
  | .verify now requests indices blcks =>
    match s.waiting with
    | none => { s with waiting := some (s.node.verifyBatch env now requests indices blcks) }
    | some _ => s
  | .act fault shift hmax =>
    match s.waiting with
    | none => s
    | some verdict => { node := s.node.actOn env.toEnv fault shift hmax verdict }

def Handlers.run (env : SyncEnv σ) (s : Handlers σ) (steps : List HandlerStep) : Handlers σ :=
  steps.foldl (fun s step => s.step env step) s

end QwidNode.Source
