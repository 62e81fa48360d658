import QwidNode.Lib.Debits
import QwidNode.Source.Holdings
import QwidNode.Source.PoolSteps

/-!
# The pass over the escrow pool

Source: `ProcessTransactionsEscrow` (`blocks/processTransaction.go:728-832`). The entries whose
priority has been reached are taken in the order of the heap's array.
-/
namespace QwidNode.Source
open Lib Lib.Debits Word Node
variable {σ : Type} {env : Env σ} {s t u : Node σ} {e : Transaction} {height : Int64}

namespace Ledger
variable {l l' : Ledger}

def escrowDue (l : Ledger) (height : Int64) (e : Transaction) : Bool :=
  match l.account? e.sender with
  | none => false
  | some acc => decide (¬ 0 < acc.multiSignNumber) &&
      decide (¬ (0 < acc.transactionDelay ∧ height < e.height + acc.transactionDelay))

def escrowPays (l : Ledger) (height : Int64) (e : Transaction) : Bool :=
  decide (e.routingAccount = some none) && l.escrowDue height e && !e.isCommitmentRegistration

/-- The pass ends at the entry before it looks at balances: the lock is malformed, or the
sender has no account. -/
def escrowStuck (l : Ledger) (e : Transaction) : Prop :=
  e.routingAccount = none ∨ (e.routingAccount = some none ∧ l.account? e.sender = none)

instance (l : Ledger) (e : Transaction) : Decidable (l.escrowStuck e) := by
  unfold escrowStuck; infer_instance

def balances (l : Ledger) (a : AddressBytes) : Int := (l.accountOrNew a).balance.toInt

theorem balances_putAccount (l : Ledger) (a : AddressBytes) (acc : Account) :
    (l.putAccount a acc).balances = Function.update l.balances a acc.balance.toInt := by
  funext b
  rw [balances, accountOrNew_putAccount, Function.update_apply]
  split
  · rfl
  · rfl

theorem not_escrowStuck_cases (free : ¬ l.escrowStuck e) :
    (∃ n, e.routingAccount = some (some n)) ∨
      (e.routingAccount = some none ∧ ∃ acc, l.account? e.sender = some acc) := by
  unfold escrowStuck at free
  cases routed : e.routingAccount with
  | none => exact absurd (.inl routed) free
  | some account =>
    cases account with
    | some n => exact .inl ⟨n, rfl⟩
    | none =>
      cases found : l.account? e.sender with
      | none => exact absurd (.inr ⟨routed, found⟩) free
      | some acc => exact .inr ⟨rfl, acc, rfl⟩

theorem escrow_congr (height : Int64) (kept : PoliciesKept (fun _ => False) l l') (free : ¬ l.escrowStuck e) :
    ¬ l'.escrowStuck e ∧
      (e.routingAccount = some none → l'.escrowDue height e = l.escrowDue height e) ∧
      l'.escrowPays height e = l.escrowPays height e := by
  rcases not_escrowStuck_cases free with ⟨n, routed⟩ | ⟨routed, acc, found⟩
  · simp [escrowStuck, escrowPays, routed]
  · obtain ⟨acc', found', same | ⟨impossible, -⟩⟩ := kept e.sender acc found
    · have due : l'.escrowDue height e = l.escrowDue height e := by
        simp only [Account.policy, Prod.mk.injEq] at same
        simp only [escrowDue, found, found', same.1, same.2.1]
      refine ⟨by simp [escrowStuck, routed, found'], fun _ => due, ?_⟩
      rw [escrowPays, escrowPays, due]
    · exact impossible.elim

end Ledger

def Transaction.payment (e : Transaction) : Payment AddressBytes :=
  ⟨e.sender, e.recipient, e.amount.toInt⟩

def KeptAt (key : Hash) (s t : Node σ) : Prop := ∀ pool, t.pooled pool key = s.pooled pool key

instance (key : Hash) : IsPreorder (Node σ) (KeptAt key) where
  refl _ _ := rfl
  trans _ _ _ first second pool := (second pool).trans (first pool)

theorem keptAt_of_elsewhere {α : Type} {x : NodeM σ α} {key : Hash}
    (other : Respects Elsewhere x) : Respects (KeptAt key) x :=
  other.mono fun _ _ same pool => congrFun (congrFun same.pooled pool) key

theorem keptAt_settleEscrow {key : Hash} (other : key ≠ e.hash) :
    Respects (KeptAt key) (settleEscrow env height e) := by
  have removed : ∀ u : Node σ, KeptAt key u (u.removeEscrowTransaction e.hash) := by
    intro u pool
    rw [removeEscrowTransaction_eq, pooled_removeFrom (by decide), if_neg fun both => other both.2]
  have shared : ∀ u : Node σ, KeptAt key u (u.addMultiSignTransaction e).1 := by
    intro u pool
    rw [addMultiSignTransaction_eq, pooled_addTo (by decide), if_neg fun all => other all.2.1]
  have balance : ∀ a added, Respects (KeptAt key)
      (addBalance .escrow e.hash height a added : NodeM σ Unit) :=
    fun _ _ => keptAt_of_elsewhere (elsewhere_addBalance _ _ _ _ _)
  have settled : Respects (KeptAt key) (do
      modify fun s => s.removeEscrowTransaction e.hash
      record (.settled .escrow e height) : NodeM σ Unit) :=
    .bind (.modify removed) fun _ => keptAt_of_elsewhere (elsewhere_record _)
  have debit : Respects (KeptAt key) (onError
      (addBalance .escrow e.hash height e.sender (-e.amount))
      fun s => s.removeBadTransactionByHash env e.hash : NodeM σ Unit) := by
    apply Respects.onError (balance _ _)
    intro u v before pool
    rw [(v.discarded_removeBadTransactionByHash e.hash).pooled, if_neg other]
    exact before pool
  unfold settleEscrow
  split
  · exact .throw _
  · exact .pure _
  · refine .bind .get fun s => ?_
    split
    · exact .throw _
    · split
      · exact .pure _
      · split
        · refine .modify fun u => ?_
          dsimp only
          split
          · exact trans_of (KeptAt key) (shared u) (removed _)
          · exact shared u
        · split
          · exact .bind (keptAt_of_elsewhere (elsewhere_liftLedger _)) fun _ => settled
          · unfold payEscrow
            split
            · exact .bind (.modify shared) fun _ => .bind debit fun _ => .bind (balance _ _) fun _ =>
                settled
            · exact .bind debit fun _ => .bind (balance _ _) fun _ => settled

theorem settleEscrow_eq_pay (direct : e.txParam.multiSignTx = zerosHash)
    (pays : s.ledger.escrowPays height e = true) :
    settleEscrow env height e s = escrowPayment env e height s := by
  simp only [Ledger.escrowPays, Bool.and_eq_true, decide_eq_true_eq, Bool.not_eq_true'] at pays
  obtain ⟨⟨routed, due⟩, transfer⟩ := pays
  unfold Ledger.escrowDue at due
  cases found : s.ledger.account? e.sender with
  | none => simp [found] at due
  | some acc =>
    simp only [found, Bool.and_eq_true, decide_eq_true_eq] at due
    simp only [settleEscrow, routed, get_bind_run, found]
    rw [if_neg fun early => due.2 ⟨early.1, early.2.1⟩, if_neg fun shared => due.1 shared.1,
      if_neg (by simp [transfer])]
    unfold payEscrow
    rw [if_neg (not_not_intro direct)]
    rfl

theorem settleEscrow_stuck (env : Env σ) (height : Int64) (stuck : s.ledger.escrowStuck e) :
    ∃ error, settleEscrow env height e s = .error error s := by
  rcases stuck with malformed | ⟨routed, missing⟩
  · exact ⟨.lockingAccountInvalid, by simp only [settleEscrow, malformed]; rfl⟩
  · exact ⟨.noAccountEscrow, by simp only [settleEscrow, routed, get_bind_run, missing]; rfl⟩

theorem Ledger.not_escrowStuck_of_pays {l : Ledger} (pays : l.escrowPays height e = true) :
    ¬ l.escrowStuck e := by
  simp only [Ledger.escrowPays, Bool.and_eq_true, decide_eq_true_eq] at pays
  obtain ⟨⟨routed, due⟩, -⟩ := pays
  rintro (malformed | ⟨-, missing⟩)
  · rw [routed] at malformed
    cases malformed
  · simp [Ledger.escrowDue, missing] at due

theorem settleEscrow_short (env : Env σ) (direct : e.txParam.multiSignTx = zerosHash)
    (pays : s.ledger.escrowPays height e = true) (amount : 0 ≤ e.amount.toInt)
    (nonneg : s.ledger.NonNeg) (short : s.ledger.balances e.sender < e.amount.toInt) :
    ∃ error t, settleEscrow env height e s = .error error t := by
  have known : 0 ≤ s.ledger.balances e.sender := nonneg.accountOrNew e.sender
  have range := toInt_range e.amount
  have bound := toInt_range (s.ledger.accountOrNew e.sender).balance
  have under : (s.ledger.accountOrNew e.sender).balance + -e.amount < 0 := by
    have negated := toInt_neg_of_fits (a := e.amount) (by omega)
    unfold Ledger.balances at short known
    rw [lt_iff, toInt_add_of_fits (by omega) (by omega), toInt_zero]
    omega
  rw [settleEscrow_eq_pay direct pays]
  exact ⟨_, _, escrowPayment_short env e height under⟩

theorem settleEscrow_paid (env : Env σ) (direct : e.txParam.multiSignTx = zerosHash)
    (pays : s.ledger.escrowPays height e = true) (amount : 0 ≤ e.amount.toInt)
    (nonneg : s.ledger.NonNeg) (bounded : s.ledger.coins < 2 ^ 63)
    (enough : ¬ s.ledger.balances e.sender < e.amount.toInt) :
    ∃ t, settleEscrow env height e s = .ok () t ∧
      t.ledger.balances = e.payment.apply s.ledger.balances ∧ t.pooled .escrow e.hash = none := by
  have range := toInt_range e.amount
  have negated := toInt_neg_of_fits (a := e.amount) (by omega)
  have bound := toInt_range (s.ledger.accountOrNew e.sender).balance
  unfold Ledger.balances at enough
  have left := toInt_add_of_fits (a := (s.ledger.accountOrNew e.sender).balance)
    (b := -e.amount) (by omega) (by omega)
  have affordable : ¬ (s.ledger.accountOrNew e.sender).balance + -e.amount < 0 := by
    rw [lt_iff, left, toInt_zero]
    omega
  obtain ⟨v, debit, vLedger⟩ := addBalance_runs .escrow e.hash height e.sender (-e.amount) affordable
  obtain ⟨nonnegV, coinsV⟩ := addBalance_gains debit nonneg
  -- the recipient held at most what is left of all coins
  obtain ⟨sum, fits⟩ := nonnegV.credit_fits e.recipient amount (by omega)
  obtain ⟨w, credit, wLedger⟩ := addBalance_runs .escrow e.hash height e.recipient e.amount fits
  refine ⟨{ w.removeEscrowTransaction e.hash with
    log := .settled .escrow e height :: (w.removeEscrowTransaction e.hash).log }, ?_, ?_, ?_⟩
  · rw [settleEscrow_eq_pay direct pays, escrowPayment_of_debit env debit, bind_of_ok credit,
      modify_bind_run]
    rfl
  · change (w.removeEscrowTransaction e.hash).ledger.balances = _
    have vBalances : v.ledger.balances = Function.update s.ledger.balances e.sender
        (s.ledger.balances e.sender - e.amount.toInt) := by
      rw [vLedger, Ledger.balances_putAccount, left, negated]
      rfl
    rw [(w.poolFrame_removeEscrowTransaction e.hash).ledger, wLedger, Ledger.balances_putAccount,
      sum, ← Ledger.balances, vBalances]
    rfl
  · change (w.removeEscrowTransaction e.hash).pooled .escrow e.hash = none
    rw [removeEscrowTransaction_eq, pooled_removeFrom (by decide), if_pos ⟨rfl, rfl⟩]

theorem settleEscrow_unpaid (env : Env σ) (direct : e.txParam.multiSignTx = zerosHash)
    (free : ¬ s.ledger.escrowStuck e) (unpaid : s.ledger.escrowPays height e = false) :
    ∃ t, settleEscrow env height e s = .ok () t ∧ t.ledger.balances = s.ledger.balances ∧
      (e.routingAccount = some none → s.ledger.escrowDue height e = true →
        t.pooled .escrow e.hash = none) := by
  rcases Ledger.not_escrowStuck_cases free with ⟨n, routed⟩ | ⟨routed, acc, found⟩
  · refine ⟨s, by simp only [settleEscrow, routed]; rfl, rfl, fun plain => ?_⟩
    rw [routed] at plain
    cases plain
  by_cases early : 0 < acc.transactionDelay ∧ height < e.height + acc.transactionDelay ∧
      e.txParam.multiSignTx = zerosHash
  · refine ⟨s, ?_, rfl, fun _ due => ?_⟩
    · simp only [settleEscrow, routed, get_bind_run, found]
      rw [if_pos early]
      rfl
    · simp only [Ledger.escrowDue, found, Bool.and_eq_true, decide_eq_true_eq] at due
      exact absurd ⟨early.1, early.2.1⟩ due.2
  by_cases shared : 0 < acc.multiSignNumber
  · refine ⟨if (s.addMultiSignTransaction e).2
        then (s.addMultiSignTransaction e).1.removeEscrowTransaction e.hash
        else (s.addMultiSignTransaction e).1, ?_, ?_, fun _ due => ?_⟩
    · simp only [settleEscrow, routed, get_bind_run, found]
      rw [if_neg early, if_pos ⟨shared, direct⟩]
      rfl
    · exact congrArg Ledger.balances (s.poolFrame_moveToMultiSign e).ledger
    · simp only [Ledger.escrowDue, found, Bool.and_eq_true, decide_eq_true_eq] at due
      exact absurd shared due.1
  have due : s.ledger.escrowDue height e = true := by
    simp only [Ledger.escrowDue, found, Bool.and_eq_true, decide_eq_true_eq]
    exact ⟨shared, fun late => early ⟨late.1, late.2, direct⟩⟩
  have registers : e.isCommitmentRegistration = true := by
    simpa [Ledger.escrowPays, routed, due] using unpaid
  obtain ⟨committed, settled⟩ : ∃ l, s.ledger.setAccountCommitments e.sender e.commitmentValues.1
      e.commitmentValues.2 height = .ok l ∧ l.balances = s.ledger.balances := by
    refine ⟨_, by rw [Ledger.setAccountCommitments, found], ?_⟩
    rw [Ledger.balances_putAccount, Ledger.balance_setCommitments]
    apply Function.update_eq_self_iff.mpr
    rw [Ledger.balances, Ledger.accountOrNew_of_some found]
  refine ⟨{ removeEscrowTransaction { s with ledger := committed } e.hash with
    log := .settled .escrow e height ::
      (removeEscrowTransaction { s with ledger := committed } e.hash).log },
    ?_, ?_, fun _ _ => ?_⟩
  · simp only [settleEscrow, routed, get_bind_run, found]
    rw [if_neg early, if_neg fun both => shared both.1, if_pos registers]
    have ran : settleCommitment e height s = .ok () { s with ledger := committed } :=
      liftLedger_eq_ok.mpr ⟨committed, settled.1, rfl⟩
    rw [bind_of_ok ran, modify_bind_run]
    rfl
  · change (removeEscrowTransaction { s with ledger := committed } e.hash).ledger.balances = _
    rw [(poolFrame_removeEscrowTransaction _ e.hash).ledger]
    exact settled.2
  · change (removeEscrowTransaction { s with ledger := committed } e.hash).pooled .escrow
      e.hash = none
    rw [removeEscrowTransaction_eq, pooled_removeFrom (by decide), if_pos ⟨rfl, rfl⟩]

def payments (l : Ledger) (height : Int64) (entries : List Transaction) :
    List (Payment AddressBytes) :=
  (entries.filter (l.escrowPays height)).map Transaction.payment

theorem keptAt_settleAll (env : Env σ) (height : Int64) (key : Hash) (entries : List Transaction)
    (other : ∀ e ∈ entries, key = e.hash → ∃ n, e.routingAccount = some (some n)) :
    Respects (KeptAt key) (entries.forM (settleEscrow env height)) := by
  apply Respects.forM
  intro e member
  by_cases same : key = e.hash
  · obtain ⟨n, routed⟩ := other e member same
    unfold settleEscrow
    simp only [routed]
    exact .pure _
  · exact keptAt_settleEscrow same

theorem settleAll_run (env : Env σ) (height : Int64) (l : Ledger) (entries : List Transaction) {u : Node σ}
    (kept : PoliciesKept (fun _ => False) l u.ledger) (nonneg : u.ledger.NonNeg)
    (bounded : u.ledger.coins < 2 ^ 63)
    (direct : ∀ e ∈ entries, e.txParam.multiSignTx = zerosHash)
    (amounts : ∀ e ∈ entries, 0 ≤ e.amount.toInt) (free : ∀ e ∈ entries, ¬ l.escrowStuck e)
    (distinct : (entries.map Transaction.hash).Nodup) :
    succeeds (entries.forM (settleEscrow env height) u) =
        (payAll (payments l height entries) u.ledger.balances).isSome ∧
      (succeeds (entries.forM (settleEscrow env height) u) = true →
        ∀ e ∈ entries, e.routingAccount = some none → l.escrowDue height e = true →
          (finalState (entries.forM (settleEscrow env height) u)).pooled .escrow e.hash = none) := by
  induction entries generalizing u with
  | nil => exact ⟨rfl, fun _ e member => absurd member List.not_mem_nil⟩
  | cons e rest ih =>
    have first := List.mem_cons_self (a := e) (l := rest)
    obtain ⟨-, dueKept, paysKept⟩ := Ledger.escrow_congr height kept (free e first)
    rw [List.map_cons, List.nodup_cons] at distinct
    have walk : (e :: rest).forM (settleEscrow env height) u =
      (settleEscrow env height e >>= fun _ => rest.forM (settleEscrow env height)) u := rfl
    -- an entry that is done with leaves the rest of the list to a state of the same kind
    have goOn : ∀ t, settleEscrow env height e u = .ok () t →
        payAll (payments l height (e :: rest)) u.ledger.balances =
          payAll (payments l height rest) t.ledger.balances →
        (e.routingAccount = some none → l.escrowDue height e = true →
          t.pooled .escrow e.hash = none) →
        succeeds ((e :: rest).forM (settleEscrow env height) u) =
            (payAll (payments l height (e :: rest)) u.ledger.balances).isSome ∧
          (succeeds ((e :: rest).forM (settleEscrow env height) u) = true →
            ∀ f ∈ e :: rest, f.routingAccount = some none → l.escrowDue height f = true →
              (finalState ((e :: rest).forM (settleEscrow env height) u)).pooled .escrow f.hash =
                none) := by
      intro t run same gone
      obtain ⟨nonneg', coins'⟩ := (conserves_settleEscrow (amounts e first)).of_ok run nonneg bounded
      have kept' : PoliciesKept (fun _ => False) l t.ledger :=
        kept.trans ((applyFrame_settleEscrow height e).of_ok run).policies
      obtain ⟨ends, settled⟩ := ih kept' nonneg' (by omega)
        (fun f member => direct f (List.mem_cons_of_mem e member))
        (fun f member => amounts f (List.mem_cons_of_mem e member))
        (fun f member => free f (List.mem_cons_of_mem e member)) distinct.2
      rw [walk, bind_of_ok run, same]
      refine ⟨ends, fun success f member routed due => ?_⟩
      rcases List.mem_cons.mp member with rfl | member
      · have stays := keptAt_settleAll env height f.hash rest
          (fun g inside equal => absurd (equal ▸ List.mem_map_of_mem inside) distinct.1) t
        exact (stays .escrow).trans (gone routed due)
      · exact settled success f member routed due
    cases pays : l.escrowPays height e with
    | true =>
      rw [pays] at paysKept
      have list : payments l height (e :: rest) = e.payment :: payments l height rest := by
        rw [payments, List.filter_cons_of_pos pays]
        rfl
      by_cases short : u.ledger.balances e.sender < e.amount.toInt
      · obtain ⟨error, t, run⟩ := settleEscrow_short env (direct e first) paysKept
          (amounts e first) nonneg short
        rw [walk, bind_of_error run, list, payAll, if_pos (by exact short)]
        exact ⟨rfl, fun success => by cases success⟩
      · obtain ⟨t, run, balances, gone⟩ := settleEscrow_paid env (direct e first) paysKept
          (amounts e first) nonneg bounded short
        apply goOn t run _ fun _ _ => gone
        rw [list, payAll, if_neg (by exact short), balances]
    | false =>
      rw [pays] at paysKept
      have stuck := (Ledger.escrow_congr height kept (free e first)).1
      obtain ⟨t, run, balances, gone⟩ := settleEscrow_unpaid env (direct e first) stuck
        paysKept
      apply goOn t run _ fun routed due => gone routed ((dueKept routed).trans due)
      rw [payments, List.filter_cons_of_neg (by simp [pays]), balances]
      rfl

end QwidNode.Source
