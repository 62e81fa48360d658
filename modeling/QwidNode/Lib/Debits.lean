import Mathlib

/-!
# Payments in order

A list of payments between accounts is made in order and stops at the first one its payer cannot
afford. All of them can be made, in every order, when each payment is covered together with
everything else its payer pays to others.
-/
namespace QwidNode.Lib.Debits
variable {κ : Type} [DecidableEq κ]

structure Payment (κ : Type) where
  payer : κ
  payee : κ
  amount : Int

def Payment.apply (p : Payment κ) (b : κ → Int) : κ → Int :=
  let debited := Function.update b p.payer (b p.payer - p.amount)
  Function.update debited p.payee (debited p.payee + p.amount)

def payAll : List (Payment κ) → (κ → Int) → Option (κ → Int)
  | [], b => some b
  | p :: rest, b => if b p.payer < p.amount then none else payAll rest (p.apply b)

def outgoing (ps : List (Payment κ)) (a : κ) : Int :=
  ((ps.filter fun p => p.payer = a ∧ p.payee ≠ a).map (·.amount)).sum

variable {p : Payment κ} {ps : List (Payment κ)} {b : κ → Int} {a : κ}

@[simp] theorem outgoing_nil : outgoing [] a = 0 := rfl

theorem outgoing_cons : outgoing (p :: ps) a =
    (if p.payer = a ∧ p.payee ≠ a then p.amount else 0) + outgoing ps a := by
  by_cases counts : p.payer = a ∧ p.payee ≠ a
  · simp [outgoing, counts]
  · simp [outgoing, counts]

theorem outgoing_perm {qs : List (Payment κ)} (same : ps.Perm qs) : outgoing ps a = outgoing qs a :=
  ((same.filter _).map _).sum_eq

theorem outgoing_filter :
    outgoing (ps.filter fun p => p.payer = a ∧ p.payee ≠ a) a = outgoing ps a := by
  rw [outgoing, outgoing, List.filter_filter]
  simp

theorem outgoing_nonneg (amounts : ∀ p ∈ ps, 0 ≤ p.amount) : 0 ≤ outgoing ps a := by
  induction ps with
  | nil => exact Int.le_refl 0
  | cons p rest ih =>
    have first := amounts p List.mem_cons_self
    have others := ih fun q member => amounts q (List.mem_cons_of_mem p member)
    rw [outgoing_cons]
    split <;> omega

theorem Payment.apply_ge (amount : 0 ≤ p.amount) :
    b a - (if p.payer = a ∧ p.payee ≠ a then p.amount else 0) ≤ p.apply b a := by
  unfold Payment.apply
  by_cases payee : a = p.payee
  · subst payee
    by_cases payer : p.payee = p.payer
    · simp [payer]
    · simp [Function.update_of_ne payer]
      omega
  · by_cases payer : a = p.payer
    · subst payer
      simp [Function.update_of_ne payee, Ne.symm payee]
    · simp [Function.update_of_ne payee, Function.update_of_ne payer, Ne.symm payer]

theorem payAll_isSome (amounts : ∀ p ∈ ps, 0 ≤ p.amount)
    (covered : ∀ l p r, ps = l ++ p :: r → p.amount + outgoing (l ++ r) p.payer ≤ b p.payer) :
    (payAll ps b).isSome := by
  induction ps generalizing b with
  | nil => rfl
  | cons p rest ih =>
    have later : ∀ q ∈ rest, 0 ≤ q.amount := fun q member => amounts q (List.mem_cons_of_mem p member)
    have affordable : ¬ b p.payer < p.amount := by
      have first := covered [] p rest rfl
      have others := outgoing_nonneg (a := p.payer) later
      rw [List.nil_append] at first
      omega
    rw [payAll, if_neg affordable]
    apply ih later
    intro l q r split
    have before := covered (p :: l) q r (by rw [split, List.cons_append])
    have left := p.apply_ge (b := b) (a := q.payer) (amounts p List.mem_cons_self)
    rw [List.cons_append, outgoing_cons] at before
    omega

theorem payAll_eq_none (payers : ∀ q ∈ ps, q.payer = p.payer ∧ q.payee ≠ p.payer)
    (short : b p.payer < p.amount + outgoing ps p.payer) : payAll (ps ++ [p]) b = none := by
  induction ps generalizing b with
  | nil =>
    rw [List.nil_append, payAll, if_pos (by simpa using short)]
  | cons q rest ih =>
    obtain ⟨payer, payee⟩ := payers q List.mem_cons_self
    rw [List.cons_append, payAll]
    split
    · rfl
    · apply ih fun r member => payers r (List.mem_cons_of_mem q member)
      have debited : q.apply b p.payer = b p.payer - q.amount := by
        rw [← payer] at payee ⊢
        simp [Payment.apply, Function.update_of_ne (Ne.symm payee)]
      rw [outgoing_cons, if_pos ⟨payer, payee⟩] at short
      omega

end QwidNode.Lib.Debits
