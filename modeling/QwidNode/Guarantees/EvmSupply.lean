import QwidNode.Lib.MapSums
import QwidNode.Source.StateUndo

/-!
# The supply check of the EVM

`NativeBalanceDelta` sums up from the journal, in 64 bits, how the native balances have changed
since the transaction began, and `finishExecution` reverts a transaction that changed them. The
sum is exact just when it fits (`supply_exact_iff`); balances saturate at the largest word, so
three credits can add 2^64 coins and leave a sum of zero (`saturated_credits_pass`).
-/
namespace QwidNode.Guarantees.EvmSupply
open Source Lib FinMap StateAccount

def nativeTotal (l : Ledger) : Int := sumOf (fun a : Account => a.balance.toInt) l.accounts

section Delta
variable {keccak : Bytes → Hash} {l : Ledger} {a : AddressBytes} {journal : List ChangeEntry}

def balanceAt (l : Ledger) (a : AddressBytes) : Int :=
  valueAt (fun a : Account => a.balance.toInt) l.accounts a

theorem toInt_getBalance (l : Ledger) (a : AddressBytes) :
    (((l.account? a).map Account.balance).getD 0).toInt = balanceAt l a := by
  rw [balanceAt, valueAt, Ledger.account?]
  cases l.accounts.lookup a <;> rfl

theorem balanceAt_native (l : Ledger) (a : AddressBytes) :
    balanceAt l a = (l.native a).balance.toInt := by
  rw [← toInt_getBalance, Ledger.native]
  cases l.account? a <;> rfl

def noteBalance (before : FinMap AddressBytes Int64) : ChangeEntry → FinMap AddressBytes Int64
  | .balance a prev => if a ∈ before then before else before.insert a prev
  | _ => before

theorem balancesBefore_lookup (journal : List ChangeEntry) (a : AddressBytes) :
    (balancesBefore journal).lookup a = undoneBalance a journal := by
  have loop : ∀ (journal : List ChangeEntry) (before : FinMap AddressBytes Int64),
      (journal.foldl noteBalance before).lookup a =
        (before.lookup a).or (undoneBalance a journal) := by
    intro journal
    induction journal with
    | nil => exact fun before => (Option.or_none).symm
    | cons e rest ih =>
      intro before
      rw [List.foldl_cons, ih]
      cases e with
      | balance b prev =>
        dsimp only [undoneBalance, noteBalance]
        by_cases here : b = a
        · subst here
          by_cases known : b ∈ before
          · obtain ⟨v, found⟩ := mem_iff_lookup.mp known
            rw [if_pos known, if_pos rfl, found]
            rfl
          · rw [if_neg known, if_pos rfl, lookup_of_not_mem known, AList.lookup_insert]
            rfl
        · rw [if_neg here]
          split
          · rfl
          · rw [AList.lookup_insert_ne (Ne.symm here)]
      | _ => rfl
  have all := loop journal ∅
  rw [AList.lookup_empty, Option.none_or] at all
  exact all

theorem nativeBalanceDelta_eq {s : StateAccount × Ledger}
    (back : ∀ a, balanceAt (revertEntries s.1.journal s.1 s.2).2 a = balanceAt l a) :
    (s.1.nativeBalanceDelta s.2).toInt = (nativeTotal s.2 - nativeTotal l).bmod (2 ^ 64) := by
  have old : ∀ a, balanceAt l a = (((balancesBefore s.1.journal).lookup a).map
      Int64.toInt).getD (balanceAt s.2 a) := by
    intro a
    rw [← back a, balancesBefore_lookup, balanceAt, valueAt, revertEntries_lookup]
    cases undoneBalance a s.1.journal <;> rfl
  have difference := sumOf_sub_sumOf old
  have summed := toInt_foldl_add
    (fun e : Sigma fun _ : AddressBytes => Int64 =>
      ((s.2.account? e.1).map Account.balance).getD 0 - e.2)
    (fun e => balanceAt s.2 e.1 - e.2.toInt) (balancesBefore s.1.journal).entries 0
    fun e => by rw [Int64.toInt_sub, toInt_getBalance]
  rw [Word.toInt_zero, Int.zero_add] at summed
  exact summed.trans (congrArg (Int.bmod · (2 ^ 64)) difference.symm)

theorem balances_undone (sa : StateAccount) (l : Ledger) (warm : List AddressBytes)
    (accesses : List (AddressBytes × List Hash)) (ops : List Op) (a : AddressBytes) :
    let s := execAll keccak ops (beginTx sa l warm accesses)
    balanceAt (revertEntries s.1.journal s.1 s.2).2 a = balanceAt l a := by
  intro s
  obtain ⟨-, residue⟩ := (run_transaction keccak sa l warm accesses ops).undone rfl
    fun _ member => by cases member
  rw [revertEntries_eq_undoAll, balanceAt_native, balanceAt_native]
  exact congrArg (fun acc : Account => acc.balance.toInt) (residue.native a)

theorem nativeTotal_undone (sa : StateAccount) (l : Ledger) (warm : List AddressBytes)
    (accesses : List (AddressBytes × List Hash)) (ops : List Op) :
    let s := execAll keccak ops (beginTx sa l warm accesses)
    nativeTotal (s.1.revertToSnapshot 0 s.2).2 = nativeTotal l :=
  sumOf_congr fun a => balances_undone sa l warm accesses ops a

end Delta

/-- For every sequence of operations in a transaction: the delta is the exact change of the total,
and after `finishExecution` the total is the one at the start, if and only if the change fits into
64 bits. -/
theorem supply_exact_iff (keccak : Bytes → Hash) (sa : StateAccount) (l : Ledger)
    (warm : List AddressBytes) (accesses : List (AddressBytes × List Hash)) (ops : List Op)
    (s : StateAccount × Ledger) (ran : s = execAll keccak ops (beginTx sa l warm accesses)) :
    ((s.1.nativeBalanceDelta s.2).toInt = nativeTotal s.2 - nativeTotal l ∧
      nativeTotal (finishExecution s.1 s.2).1.2 = nativeTotal l) ↔
    -2 ^ 63 ≤ nativeTotal s.2 - nativeTotal l ∧ nativeTotal s.2 - nativeTotal l < 2 ^ 63 := by
  have delta : (s.1.nativeBalanceDelta s.2).toInt =
      (nativeTotal s.2 - nativeTotal l).bmod (2 ^ 64) := by
    rw [ran]
    exact nativeBalanceDelta_eq (balances_undone sa l warm accesses ops)
  constructor
  · rintro ⟨exact, -⟩
    rw [← exact]
    exact Word.toInt_range _
  · rintro ⟨low, high⟩
    rw [Int.bmod_eq_of_le (by omega) (by omega)] at delta
    refine ⟨delta, ?_⟩
    rw [finishExecution]
    by_cases unchanged : s.1.nativeBalanceDelta s.2 = 0
    · rw [if_neg (not_not.mpr unchanged)]
      rw [unchanged, Word.toInt_zero] at delta
      change nativeTotal s.2 = nativeTotal l
      omega
    · rw [if_pos unchanged, ran]
      exact nativeTotal_undone sa l warm accesses ops

/-- A contract that pays itself on destruction: the account is credited before it is emptied, and
the transaction is taken back. -/
theorem supply_exact_selfdestruct :
    let l : Ledger :=
      { accounts := (∅ : FinMap AddressBytes Account).insert 1 { address := 1, balance := 10 } }
    let s := execAll (fun _ => 0) [.addBalance 1 10, .suicide 1] (beginTx {} l [] [])
    (s.1.nativeBalanceDelta s.2).toInt = nativeTotal s.2 - nativeTotal l ∧
      nativeTotal (finishExecution s.1 s.2).1.2 = nativeTotal l :=
  (supply_exact_iff (fun _ => 0) {} _ [] [] _ _ rfl).mpr (by decide +kernel)

/-- Three credits add 2^64 coins, the delta is zero and the execution stands. -/
theorem saturated_credits_pass :
    let s := execAll (fun _ => 0) [.addBalance 1 (2 ^ 70), .addBalance 2 (2 ^ 70), .addBalance 3 2]
      (beginTx {} {} [] [])
    s.1.nativeBalanceDelta s.2 = 0 ∧ nativeTotal s.2 - nativeTotal {} = 2 ^ 64 ∧
      nativeTotal (finishExecution s.1 s.2).1.2 = 2 ^ 64 := by
  decide +kernel

end QwidNode.Guarantees.EvmSupply
