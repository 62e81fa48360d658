import QwidNode.Guarantees.Policy
import QwidNode.Source.CheckTraversal
import QwidNode.Source.Pending

/-!
# What a rejected block does to the pending pools

`CheckBlockTransfers` runs before anything is applied, and outside the journal. It still discards,
from the pending pools too: a listed transaction that is already included as a duplicate, and one
that fails a check as bad.
-/
namespace QwidNode.Guarantees
open Lib Source Node AList
variable {σ : Type} {env : Env σ} {block lastBlock : Block} {s t u v : Node σ} {hash : Hash}
  {tx : Transaction}

structure SamePending (s t : Node σ) : Prop where
  pooled : t.pooled = s.pooled
  mirrored : t.mirrored = s.mirrored

theorem SamePending.trans (first : SamePending s t) (second : SamePending t u) :
    SamePending s u :=
  ⟨second.pooled.trans first.pooled, second.mirrored.trans first.mirrored⟩

def Pending (s : Node σ) (hash : Hash) : Prop :=
  (s.pooled .escrow hash).isSome ∨ (s.mirrored .escrow hash).isSome ∨
    (s.pooled .multiSign hash).isSome

def Included (s : Node σ) (hash : Hash) : Prop := (s.db.includedTx.lookup hash).isSome

/-- Loading the transaction for a block finds a body: in the pool database, in the confirmed
one, or, when it verifies, in the bad one or in a memory pool. -/
def Loadable (env : Env σ) (lastBlock : Block) (s : Node σ) (hash : Hash) : Prop :=
  (s.db.loadTx? env .pool hash).isSome ∨ (s.db.loadTx? env .confirmed hash).isSome ∨
    ∃ tx ∈ (s.db.loadTx? env .bad hash).or (s.findTxInMemoryPools hash),
      Verified env s.ledger (parentContext lastBlock) tx

/-- The loading phase comes to a listed hash that is included and pending: all hashes before
it can be loaded and are not included. -/
inductive ReachesPending (env : Env σ) (lastBlock : Block) (s : Node σ) : List Hash → Prop where
  | here {hash : Hash} {rest : List Hash} (found : Loadable env lastBlock s hash)
      (included : Included s hash) (pending : Pending s hash) :
      ReachesPending env lastBlock s (hash :: rest)
  | later {hash : Hash} {rest : List Hash} (found : Loadable env lastBlock s hash)
      (fresh : ¬ Included s hash) (reaches : ReachesPending env lastBlock s rest) :
      ReachesPending env lastBlock s (hash :: rest)

theorem not_pending_iff : ¬ Pending s hash ↔ s.pooled .escrow hash = none ∧
    s.mirrored .escrow hash = none ∧ s.pooled .multiSign hash = none := by
  simp [Pending]

theorem samePending_discarded_iff (discarded : Discarded hash s t) :
    SamePending s t ↔ ¬ Pending s hash := by
  rw [not_pending_iff]
  constructor
  · intro same
    have pooled := fun pool => discarded.pooled pool hash
    have mirrored := discarded.mirrored .escrow hash
    simp only [same.pooled, same.mirrored, and_self, if_true] at pooled mirrored
    exact ⟨pooled .escrow, mirrored, pooled .multiSign⟩
  · rintro ⟨escrow, mirror, multiSign⟩
    constructor
    · funext pool key
      rw [discarded.pooled]
      split
      · next equal =>
        subst equal
        cases pool with
        | standard => rfl
        | escrow => exact escrow.symm
        | multiSign => exact multiSign.symm
      · rfl
    · funext pool key
      rw [discarded.mirrored]
      split
      · next both =>
        obtain ⟨rfl, rfl⟩ := both
        exact mirror.symm
      · rfl

structure OnlyDrops (L : Hash → Prop) (s t : Node σ) : Prop where
  pooled : ∀ pool key, t.pooled pool key = s.pooled pool key ∨
    (L key ∧ pool ≠ .standard ∧ t.pooled pool key = none)
  mirrored : ∀ pool key, t.mirrored pool key = s.mirrored pool key ∨
    (L key ∧ pool = .escrow ∧ t.mirrored pool key = none)

instance (L : Hash → Prop) : IsPreorder (Node σ) (OnlyDrops L) where
  refl _ := ⟨fun _ _ => .inl rfl, fun _ _ => .inl rfl⟩
  trans _ _ _ first second := by
    constructor
    · intro pool key
      rcases second.pooled pool key with same | gone
      · rw [same]
        exact first.pooled pool key
      · exact .inr gone
    · intro pool key
      rcases second.mirrored pool key with same | gone
      · rw [same]
        exact first.mirrored pool key
      · exact .inr gone

theorem onlyDrops_of_discarded {L : Hash → Prop} (listed : L hash)
    (discarded : Discarded hash s t) : OnlyDrops L s t := by
  constructor
  · intro pool key
    rw [discarded.pooled]
    split
    · next equal =>
      cases pool with
      | standard => exact .inl rfl
      | escrow => exact .inr ⟨equal ▸ listed, by decide, rfl⟩
      | multiSign => exact .inr ⟨equal ▸ listed, by decide, rfl⟩
    · exact .inl rfl
  · intro pool key
    rw [discarded.mirrored]
    split
    · next both => exact .inr ⟨both.2 ▸ listed, both.1, rfl⟩
    · exact .inl rfl

theorem OnlyDrops.same {L : Hash → Prop} (drops : OnlyDrops L s t)
    (absent : ∀ hash, L hash → ¬ Pending s hash) : SamePending s t := by
  constructor
  · funext pool key
    rcases drops.pooled pool key with same | ⟨listed, pending, gone⟩
    · exact same
    · obtain ⟨escrow, -, multiSign⟩ := not_pending_iff.mp (absent key listed)
      rw [gone]
      cases pool with
      | standard => exact absurd rfl pending
      | escrow => exact escrow.symm
      | multiSign => exact multiSign.symm
  · funext pool key
    rcases drops.mirrored pool key with same | ⟨listed, rfl, gone⟩
    · exact same
    · rw [gone]
      exact (not_pending_iff.mp (absent key listed)).2.1.symm

theorem samePending_of_loadFrame (frame : LoadFrame s t) : SamePending s t := by
  obtain ⟨_, _, rfl⟩ := frame
  exact ⟨rfl, rfl⟩

/-- Only the entries of one hash in the pool and the confirmed database differ. -/
structure Touches (hash : Hash) (s t : Node σ) : Prop where
  frame : LoadFrame s t
  pool : ∀ other, other ≠ hash → t.db.poolTx.lookup other = s.db.poolTx.lookup other
  confirmed : ∀ other, other ≠ hash → t.db.confirmedTx.lookup other = s.db.confirmedTx.lookup other

instance (hash : Hash) : IsPreorder (Node σ) (Touches hash) where
  refl s := ⟨.refl s, fun _ _ => rfl, fun _ _ => rfl⟩
  trans _ _ _ first second :=
    ⟨first.frame.trans second.frame,
      fun other ne => (second.pool other ne).trans (first.pool other ne),
      fun other ne => (second.confirmed other ne).trans (first.confirmed other ne)⟩

theorem touches_removePoolTx (s : Node σ) (hash : Hash) :
    Touches hash s { s with db := s.db.removePoolTx hash } :=
  ⟨loadFrame_removePoolTx s hash, fun _ ne => lookup_erase_ne ne, fun _ _ => rfl⟩

theorem touches_storePool (s : Node σ) (tx : Transaction) :
    Touches tx.hash s { s with db := s.db.storeTx .pool tx } :=
  ⟨loadFrame_storePool s tx, fun _ ne => lookup_insert_ne ne, fun _ _ => rfl⟩

theorem touches_storeConfirmed (s : Node σ) (tx : Transaction) :
    Touches tx.hash s { s with db := s.db.storeTx .confirmed tx } :=
  ⟨loadFrame_storeConfirmed s tx, fun _ _ => rfl, fun _ ne => lookup_insert_ne ne⟩

theorem attempt_pool_run (env : Env σ) (s : Node σ) (hash : Hash) :
    ∃ u, attempt (loadFromDBPoolTx env .pool hash) s = .ok (s.db.loadTx? env .pool hash) u ∧
      Touches hash s u ∧ ((s.db.loadTx? env .pool hash).isSome → u = s) ∧
      u.db.confirmedTx = s.db.confirmedTx := by
  obtain ⟨found, run⟩ := attempt_run (loadFromDBPoolTx env .pool hash) s
  obtain ⟨equal, unchanged, -, -⟩ := attempt_load_cases run
  refine ⟨_, equal ▸ run, ?_, fun some => unchanged (.inl (equal ▸ some)), ?_⟩
  · rcases loadFromDBPoolTx_final .pool hash s with same | ⟨-, -, dropped⟩
    · rw [same]
      exact refl_of (Touches hash) s
    · rw [dropped]
      exact touches_removePoolTx s hash
  · rcases loadFromDBPoolTx_final .pool hash s with same | ⟨-, -, dropped⟩
    · rw [same]
    · rw [dropped]
      rfl

theorem attempt_confirmed_run (env : Env σ) (s : Node σ) (hash : Hash) :
    attempt (loadFromDBPoolTx env .confirmed hash) s =
      .ok (s.db.loadTx? env .confirmed hash) s := by
  obtain ⟨found, run⟩ := attempt_run (loadFromDBPoolTx env .confirmed hash) s
  obtain ⟨equal, unchanged, -, -⟩ := attempt_load_cases run
  rw [run, unchanged (.inr (by decide)), equal]

theorem checkTransactionInDB_run (s : Node σ) (hash : Hash) :
    (¬ Included s hash ∧ checkTransactionInDBAndInMarkleTrie hash s = .ok () s) ∨
      (Included s hash ∧ ∃ e t, checkTransactionInDBAndInMarkleTrie hash s = .error e t ∧
        Discarded hash s t) := by
  unfold checkTransactionInDBAndInMarkleTrie Included
  simp only [get_bind_run]
  cases s.db.includedTx.lookup hash with
  | none => exact .inl ⟨by simp, rfl⟩
  | some h =>
    exact .inr ⟨rfl, _, _, rfl, s.discarded_removeDuplicateTransactionByHash hash⟩

/-- Loading one listed transaction: it is loaded; or it is included and discarded; or no body
is found and nothing is lost. -/
inductive LoadOutcome (env : Env σ) (lastBlock : Block) (hash : Hash) (s : Node σ) :
    EStateM.Result Error (Node σ) Transaction → Prop where
  | loaded {tx : Transaction} {u : Node σ} (found : Loadable env lastBlock s hash)
      (fresh : ¬ Included s hash) (touches : Touches hash s u) (named : tx.hash = hash)
      (again : (u.db.loadTx? env .pool hash).isSome) : LoadOutcome env lastBlock hash s (.ok tx u)
  | duplicate {e : Error} {u : Node σ} (found : Loadable env lastBlock s hash)
      (included : Included s hash) (discarded : Discarded hash s u) :
      LoadOutcome env lastBlock hash s (.error e u)
  | missing {e : Error} {u : Node σ} (absent : ¬ Loadable env lastBlock s hash)
      (same : SamePending s u) : LoadOutcome env lastBlock hash s (.error e u)

theorem discarded_after_same (same : SamePending s t)
    (discarded : Discarded hash t u) : Discarded hash s u :=
  ⟨by rw [← same.pooled]; exact discarded.pooled, by rw [← same.mirrored]; exact discarded.mirrored⟩

theorem included_iff_of_frame (frame : LoadFrame s t) : Included t hash ↔ Included s hash := by
  rw [Included, frame.includedTx]
  rfl

theorem lookups_of_frame (frame : LoadFrame s t)
    (confirmed : t.db.confirmedTx = s.db.confirmedTx) :
    t.db.loadTx? env .confirmed hash = s.db.loadTx? env .confirmed hash ∧
      t.db.loadTx? env .bad hash = s.db.loadTx? env .bad hash ∧
      t.findTxInMemoryPools hash = s.findTxInMemoryPools hash ∧ t.ledger = s.ledger := by
  obtain ⟨pool, other, rfl⟩ := frame
  cases confirmed
  exact ⟨rfl, rfl, rfl, rfl⟩

theorem loadOutcome_check {tx : Transaction} (found : Loadable env lastBlock s hash)
    (touches : Touches hash s t) (named : tx.hash = hash)
    (again : (t.db.loadTx? env .pool hash).isSome) :
    LoadOutcome env lastBlock hash s ((checkTransactionInDBAndInMarkleTrie hash >>= fun _ =>
      pure tx : NodeM σ Transaction) t) := by
  rcases checkTransactionInDB_run t hash with
    ⟨fresh, passes⟩ | ⟨included, e, u, fails, discarded⟩
  · rw [bind_of_ok passes]
    exact .loaded found (fun bad => fresh ((included_iff_of_frame touches.frame).mpr bad)) touches
      named again
  · rw [bind_of_error fails]
    exact .duplicate found ((included_iff_of_frame touches.frame).mp included)
      (discarded_after_same (samePending_of_loadFrame touches.frame) discarded)

theorem loadMissing_outcome (absent : s.db.loadTx? env .pool hash = none)
    (confirmed : t.db.confirmedTx = s.db.confirmedTx) (touches : Touches hash s t) :
    LoadOutcome env lastBlock hash s ((do
      let poolTx ← loadMissing env lastBlock hash
      checkTransactionInDBAndInMarkleTrie hash
      pure poolTx : NodeM σ Transaction) t) := by
  have before : Touches hash s { t with db := t.db.removePoolTx hash } :=
    trans_of (Touches hash) touches (touches_removePoolTx t hash)
  obtain ⟨sameConfirmed, sameBad, sameFound, sameLedger⟩ :=
    lookups_of_frame before.frame confirmed
  have stored : ∀ tx : Transaction, bodyMatches env hash tx = true → ∀ w : Node σ,
      ((w.db.storeTx .pool tx).loadTx? env .pool hash).isSome := by
    intro tx matching w
    have filed : tx.hash = hash := (bodyMatches_iff.mp matching).1
    simp [Db.loadTx?, Db.storeTx, Db.txs, filed, lookup_insert, Option.filter, matching]
  unfold loadMissing
  change LoadOutcome env lastBlock hash s (((modifyDb _ >>= fun _ => _) >>= _) t)
  simp only [bind_assoc]
  rw [show (modifyDb fun db => db.removePoolTx hash : NodeM σ Unit) =
    modify fun s => { s with db := s.db.removePoolTx hash } from rfl, modify_bind_run,
    bind_of_ok (attempt_confirmed_run env _ hash), sameConfirmed]
  cases found : s.db.loadTx? env .confirmed hash with
  | some tx =>
    have loadable : Loadable env lastBlock s hash := .inr (.inl (by rw [found]; rfl))
    have matching := loadTx?_matches found
    have filed : tx.hash = hash := (bodyMatches_iff.mp matching).1
    simp only [bind_assoc]
    rcases checkTransactionInDB_run { t with db := t.db.removePoolTx hash } hash with
      ⟨-, passes⟩ | ⟨included, e, w, fails, discarded⟩
    · rw [bind_of_ok passes]
      have stores := touches_storePool { t with db := t.db.removePoolTx hash } tx
      rw [filed] at stores
      exact loadOutcome_check loadable (trans_of (Touches hash) before stores) filed
        (stored tx matching { t with db := t.db.removePoolTx hash })
    · rw [bind_of_error fails]
      exact .duplicate loadable ((included_iff_of_frame before.frame).mp included)
        (discarded_after_same (samePending_of_loadFrame before.frame) discarded)
  | none =>
    -- No body anywhere, or one that does not verify.
    have missing : (∀ tx ∈ (s.db.loadTx? env .bad hash).or (s.findTxInMemoryPools hash),
        ¬ Verified env s.ledger (parentContext lastBlock) tx) → ∀ e, LoadOutcome env lastBlock hash s
          (.error e { t with db := t.db.removePoolTx hash }) := by
      intro unverified e
      refine .missing ?_ (samePending_of_loadFrame before.frame)
      rintro (pool | conf | ⟨tx, body, verified⟩)
      · rw [absent] at pool
        cases pool
      · rw [found] at conf
        cases conf
      · exact unverified tx body verified
    simp only
    unfold recoverTransaction
    simp only [bind_assoc]
    rcases loadBadOrPooled_run env { t with db := t.db.removePoolTx hash } hash with
      ⟨tx, body, loads⟩ | ⟨nobody, e, fails⟩
    · have filed : tx.hash = hash := loadBadOrPooled_hash loads
      rw [bind_of_ok loads, get_bind_run, failIf_bind]
      rw [sameBad, sameFound] at body
      by_cases verified : Verified env s.ledger (parentContext lastBlock) tx
      · rw [if_neg (not_not.mpr (sameLedger ▸ verified))]
        have confirms := touches_storeConfirmed { t with db := t.db.removePoolTx hash } tx
        have stores := touches_storePool
          { t with db := (t.db.removePoolTx hash).storeTx .confirmed tx } tx
        rw [filed] at confirms stores
        exact loadOutcome_check (.inr (.inr ⟨tx, body, verified⟩))
          (trans_of (Touches hash) before (trans_of (Touches hash) confirms stores)) filed
          (stored tx (bodyMatches_iff.mpr ⟨filed, verified.hash⟩)
            { t with db := (t.db.removePoolTx hash).storeTx .confirmed tx })
      · rw [if_pos (by rw [sameLedger]; exact verified)]
        exact missing (fun tx' body' => by cases body.symm.trans body'; exact verified) _
    · rw [bind_of_error fails]
      rw [sameBad, sameFound] at nobody
      exact missing (fun tx' body' => by cases nobody.symm.trans body') e

theorem loadForBlock_outcome (env : Env σ) (lastBlock : Block) (s : Node σ) (hash : Hash) :
    LoadOutcome env lastBlock hash s (loadForBlock env lastBlock hash s) := by
  obtain ⟨u, run, touches, unchanged, confirmed⟩ := attempt_pool_run env s hash
  unfold loadForBlock
  rw [bind_of_ok run]
  cases pooled : s.db.loadTx? env .pool hash with
  | some tx =>
    obtain rfl := unchanged (by rw [pooled]; rfl)
    have loadable : Loadable env lastBlock u hash := .inl (by rw [pooled]; rfl)
    simp only [pure_bind_run]
    exact loadOutcome_check loadable touches (bodyMatches_iff.mp (loadTx?_matches pooled)).1
      (by rw [pooled]; rfl)
  | none => exact loadMissing_outcome pooled confirmed touches

/-- Loading has found the same bodies so far and lost nothing pending. -/
structure Loads (env : Env σ) (lastBlock : Block) (s t : Node σ) : Prop where
  frame : LoadFrame s t
  loadable : ∀ hash, Loadable env lastBlock t hash ↔ Loadable env lastBlock s hash

theorem loads_of_touches (found : Loadable env lastBlock s hash) (touches : Touches hash s t)
    (again : (t.db.loadTx? env .pool hash).isSome) : Loads env lastBlock s t := by
  refine ⟨touches.frame, fun other => ?_⟩
  by_cases same : other = hash
  · subst same
    exact iff_of_true (.inl again) found
  · have pool := touches.pool other same
    have confirmed := touches.confirmed other same
    obtain ⟨_, _, rfl⟩ := touches.frame
    unfold Loadable Db.loadTx? Db.txs
    simp only at pool confirmed ⊢
    rw [pool, confirmed]
    rfl

theorem Loads.pending_iff (loads : Loads env lastBlock s t) : Pending t hash ↔ Pending s hash := by
  have same := samePending_of_loadFrame loads.frame
  rw [Pending, same.pooled, same.mirrored]
  rfl

theorem Loads.reaches_iff (loads : Loads env lastBlock s t) (hashes : List Hash) :
    ReachesPending env lastBlock t hashes ↔ ReachesPending env lastBlock s hashes := by
  have mono : ∀ {u v : Node σ}, (∀ hash, Loadable env lastBlock v hash ↔ Loadable env lastBlock u hash) →
      (∀ hash, Included v hash ↔ Included u hash) → (∀ hash, Pending v hash ↔ Pending u hash) →
      ∀ {hashes}, ReachesPending env lastBlock v hashes → ReachesPending env lastBlock u hashes := by
    intro u v loadable listed pending hashes reaches
    induction reaches with
    | here found included waiting =>
      exact .here ((loadable _).mp found) ((listed _).mp included) ((pending _).mp waiting)
    | later found fresh _ ih =>
      exact .later ((loadable _).mp found) (fun bad => fresh ((listed _).mpr bad)) ih
  have listed : ∀ hash, Included t hash ↔ Included s hash := fun _ => included_iff_of_frame loads.frame
  have pending : ∀ hash, Pending t hash ↔ Pending s hash := fun _ => loads.pending_iff
  exact ⟨mono loads.loadable listed pending, mono (fun hash => (loads.loadable hash).symm)
    (fun hash => (listed hash).symm) fun hash => (pending hash).symm⟩

/-- The loading phase returns and lost nothing, or fails and lost something exactly when it
reached a pending hash. -/
inductive LoadAllOutcome (env : Env σ) (lastBlock : Block) (hashes : List Hash) (s : Node σ) :
    EStateM.Result Error (Node σ) (List Transaction) → Prop where
  | loaded {txs : List Transaction} {u : Node σ} (loads : Loads env lastBlock s u)
      (fresh : ∀ hash ∈ hashes, ¬ Included s hash) (named : txs.map Transaction.hash = hashes) :
      LoadAllOutcome env lastBlock hashes s (.ok txs u)
  | failed {e : Error} {u : Node σ}
      (lost : SamePending s u ↔ ¬ ReachesPending env lastBlock s hashes) :
      LoadAllOutcome env lastBlock hashes s (.error e u)

theorem loadAll_outcome (env : Env σ) (lastBlock : Block) (hashes : List Hash) (s : Node σ) :
    LoadAllOutcome env lastBlock hashes s (loadAll env lastBlock hashes s) := by
  induction hashes generalizing s with
  | nil => exact .loaded ⟨.refl s, fun _ => Iff.rfl⟩ (by simp) rfl
  | cons hash rest ih =>
    unfold loadAll
    have first := loadForBlock_outcome env lastBlock s hash
    cases run : loadForBlock env lastBlock hash s with
    | ok tx u =>
      rw [run] at first
      rw [bind_of_ok run]
      cases first with
      | loaded found fresh touches named again =>
        have loads := loads_of_touches found touches again
        have others := ih u
        cases later : loadAll env lastBlock rest u with
        | ok txs v =>
          rw [later] at others
          rw [bind_of_ok later]
          cases others with
          | loaded loads' fresh' named' =>
            refine .loaded ⟨loads.frame.trans loads'.frame, fun other =>
              (loads'.loadable other).trans (loads.loadable other)⟩ ?_ (by simp [named, named'])
            intro other member
            rcases List.mem_cons.mp member with rfl | inside
            · exact fresh
            · exact fun bad => fresh' other inside ((included_iff_of_frame loads.frame).mpr bad)
        | error e v =>
          rw [later] at others
          rw [bind_of_error later]
          cases others with
          | failed lost =>
            have same := samePending_of_loadFrame loads.frame
            refine .failed ?_
            have moved : SamePending s v ↔ SamePending u v :=
              ⟨fun kept => ⟨kept.pooled.trans same.pooled.symm, kept.mirrored.trans same.mirrored.symm⟩,
                same.trans⟩
            rw [moved, lost, loads.reaches_iff rest, not_iff_not]
            constructor
            · exact .later found fresh
            · intro reaches
              cases reaches with
              | here _ included _ => exact absurd included fresh
              | later _ _ reaches => exact reaches
    | error e u =>
      rw [run] at first
      rw [bind_of_error run]
      refine .failed ?_
      cases first with
      | duplicate found included discarded =>
        rw [samePending_discarded_iff discarded, not_iff_not]
        constructor
        · exact .here found included
        · intro reaches
          cases reaches with
          | here _ _ pending => exact pending
          | later _ fresh _ => exact absurd included fresh
      | missing absent same =>
        refine iff_of_true same fun reaches => ?_
        cases reaches with
        | here found _ _ => exact absent found
        | later found _ _ => exact absent found

theorem onlyDrops_afterLoading {txs : List Transaction} (L : Hash → Prop)
    (listed : ∀ tx ∈ txs, L tx.hash) :
    Respects (OnlyDrops L) (do
      let s ← get
      let verified := txs.map fun tx =>
        (tx, decide (Verified env s.ledger (parentContext lastBlock) tx))
      let c ← checkAll env block verified {}
      match c.badTxErr with
      | some e => throw e
      | none => do
        let reward := getReward lastBlock.supply
        failIf (lastBlock.supply + reward ≠ block.supply) .blockSupplyFails
        pure (reward, c.totalFee) : NodeM σ (Int64 × Int64)) := by
  refine .bind .get fun s => .bind (respects_checkAll _ ?_) fun c => ?_
  · intro item member u
    obtain ⟨tx, inside, rfl⟩ := List.mem_map.mp member
    exact onlyDrops_of_discarded (listed tx inside) (u.discarded_removeBadTransactionByHash tx.hash)
  · split
    · exact .throw _
    · exact .bind (.failIf _ _) fun _ => .pure _

theorem ReachesPending.exists_pending {hashes : List Hash}
    (reaches : ReachesPending env lastBlock s hashes) : ∃ hash ∈ hashes, Pending s hash := by
  induction reaches with
  | here _ _ pending => exact ⟨_, List.mem_cons_self, pending⟩
  | later _ _ _ ih =>
    obtain ⟨hash, member, pending⟩ := ih
    exact ⟨hash, List.mem_cons_of_mem _ member, pending⟩

/-- A block that `CheckBlockTransfers` rejects leaves the pending pools and their mirrors
alone when it lists no pending hash. Where every pending entry is an included transaction,
it leaves them alone exactly when loading does not reach a pending hash. -/
theorem rejected_block_keeps_pending_iff (env : Env σ) (block lastBlock : Block) (s t : Node σ)
    (e : Error) (rejected : checkBlockTransfers env block lastBlock s = .error e t) :
    ((∀ hash ∈ block.transactionsHashes, ¬ Pending s hash) → SamePending s t) ∧
      ((∀ hash, Pending s hash → Included s hash) →
        (SamePending s t ↔ ¬ ReachesPending env lastBlock s block.transactionsHashes)) := by
  have outcome := loadAll_outcome env lastBlock block.transactionsHashes s
  unfold checkBlockTransfers at rejected
  cases run : loadAll env lastBlock block.transactionsHashes s with
  | error e' u =>
    rw [run] at outcome
    rw [bind_of_error run] at rejected
    cases rejected
    cases outcome with
    | failed lost =>
      refine ⟨fun absent => lost.mpr fun reaches => ?_, fun _ => lost⟩
      obtain ⟨hash, member, pending⟩ := reaches.exists_pending
      exact absent hash member pending
  | ok txs u =>
    rw [run] at outcome
    rw [bind_of_ok run] at rejected
    cases outcome with
    | loaded loads fresh named =>
      have listed : ∀ tx ∈ txs, tx.hash ∈ block.transactionsHashes := by
        intro tx member
        rw [← named]
        exact List.mem_map.mpr ⟨tx, member, rfl⟩
      have drops : OnlyDrops (· ∈ block.transactionsHashes) u t :=
        (onlyDrops_afterLoading _ listed).of_error rejected
      have kept : (∀ hash ∈ block.transactionsHashes, ¬ Pending s hash) → SamePending s t :=
        fun absent => (samePending_of_loadFrame loads.frame).trans
          (drops.same fun hash member pending => absent hash member (loads.pending_iff.mp pending))
      refine ⟨kept, fun indexed => ?_⟩
      have absent : ∀ hash ∈ block.transactionsHashes, ¬ Pending s hash :=
        fun hash member pending => fresh hash member (indexed hash pending)
      refine iff_of_true (kept absent) fun reaches => ?_
      obtain ⟨hash, member, pending⟩ := reaches.exists_pending
      exact absent hash member pending

def holdingNode : Node Unit :=
  let s := ((escrowNode []).addEscrowTransaction { heldTransfer with height := 6 }).1
  { s with db := { s.db with
      confirmedTx := s.db.confirmedTx.insert heldTransfer.hash heldTransfer
      includedTx := s.db.includedTx.insert heldTransfer.hash 6 } }

/-- A later block that lists the held transfer again is rejected, and the transfer is gone
from the escrow pool and from its mirror. -/
theorem rejected_block_drops_held_transfer :
    holdingNode.pooled .escrow heldTransfer.hash = some { heldTransfer with height := 6 } ∧
      holdingNode.mirrored .escrow heldTransfer.hash = some { heldTransfer with height := 6 } ∧
      ∃ e t, checkBlockTransfers Env.permissive (holdingNode.nextBlock 7 [heldTransfer.hash])
          (holdingNode.parentBlock 6) holdingNode = .error e t ∧
        t.pooled .escrow heldTransfer.hash = none ∧
        t.mirrored .escrow heldTransfer.hash = none ∧ ¬ SamePending holdingNode t := by
  have pooled : holdingNode.pooled .escrow heldTransfer.hash =
      some { heldTransfer with height := 6 } := by decide +kernel
  obtain ⟨e, t, run, gone, erased⟩ : ∃ e t, checkBlockTransfers Env.permissive
      (holdingNode.nextBlock 7 [heldTransfer.hash]) (holdingNode.parentBlock 6) holdingNode =
        .error e t ∧ t.pooled .escrow heldTransfer.hash = none ∧
      t.mirrored .escrow heldTransfer.hash = none := ⟨_, _, rfl, by decide +kernel, by decide +kernel⟩
  refine ⟨pooled, by decide +kernel, e, t, run, gone, erased, fun same => ?_⟩
  rw [same.pooled, pooled] at gone
  cases gone

/-- A rejected block that lists an unknown hash leaves the pools alone. -/
theorem unknown_hash_keeps_pending :
    ∃ e t, checkBlockTransfers Env.permissive (holdingNode.nextBlock 7 [1])
        (holdingNode.parentBlock 6) holdingNode = .error e t ∧ SamePending holdingNode t := by
  obtain ⟨e, t, run⟩ : ∃ e t, checkBlockTransfers Env.permissive (holdingNode.nextBlock 7 [1])
      (holdingNode.parentBlock 6) holdingNode = .error e t := ⟨_, _, rfl⟩
  refine ⟨e, t, run, (rejected_block_keeps_pending_iff Env.permissive _ _ _ t e run).1 ?_⟩
  intro hash member
  have one : hash = 1 := List.mem_singleton.mp member
  subst one
  rw [not_pending_iff]
  decide +kernel

end QwidNode.Guarantees
