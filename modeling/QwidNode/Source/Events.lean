import QwidNode.Source.ApplyFrame

/-!
# What the apply pass records

`LogGrows p` says that everything recorded between two states satisfies `p`. A transaction
records only its own moves, its own holding and its own cancellation, and a settlement
only the moves of the transaction it settles.
-/
namespace QwidNode.Source
open Lib
variable {σ : Type} {env : Env σ} {s t : Node σ}

def LogGrows (p : Event → Prop) (s t : Node σ) : Prop :=
  ∃ events, t.log = events ++ s.log ∧ ∀ e ∈ events, p e

variable {p : Event → Prop}

instance : IsPreorder (Node σ) (LogGrows p) where
  refl _ := ⟨[], rfl, by simp⟩
  trans _ _ _ first second := by
    obtain ⟨events, grown, all⟩ := first
    obtain ⟨events', grown', all'⟩ := second
    refine ⟨events' ++ events, by rw [grown', grown, List.append_assoc], fun e member => ?_⟩
    rcases List.mem_append.mp member with late | early
    · exact all' e late
    · exact all e early

theorem LogGrows.of_eq (same : t.log = s.log) : LogGrows p s t := ⟨[], same, by simp⟩

theorem LogGrows.mono {q : Event → Prop} (weaker : ∀ e, p e → q e) (grown : LogGrows p s t) :
    LogGrows q s t := by
  obtain ⟨events, equal, all⟩ := grown
  exact ⟨events, equal, fun e member => weaker e (all e member)⟩

theorem addBalance_eq_ok {route : Route} {hash : Hash} {height : Int64} {a : AddressBytes}
    {added : Int64} : addBalance route hash height a added s = .ok () t ↔
      ¬ (s.ledger.accountOrNew a).balance + added < 0 ∧
      t = { s with
        ledger := s.ledger.putAccount a { s.ledger.accountOrNew a with
          balance := (s.ledger.accountOrNew a).balance + added }
        log := .moved ⟨route, hash, height, a, added⟩ :: s.log } := by
  unfold addBalance
  by_cases short : (s.ledger.accountOrNew a).balance + added < 0
  · simp [short]
  · simp [short, eq_comm]

theorem addBalance_runs (route : Route) (hash : Hash) (height : Int64) (a : AddressBytes)
    (added : Int64) (enough : ¬ (s.ledger.accountOrNew a).balance + added < 0) :
    ∃ t, addBalance route hash height a added s = .ok () t ∧
      t.ledger = s.ledger.putAccount a { s.ledger.accountOrNew a with
        balance := (s.ledger.accountOrNew a).balance + added } :=
  ⟨_, addBalance_eq_ok.mpr ⟨enough, rfl⟩, rfl⟩

theorem liftLedger_eq_ok {f : Ledger → Except Error Ledger} :
    liftLedger f s = .ok () t ↔ ∃ l, f s.ledger = .ok l ∧ t = { s with ledger := l } := by
  unfold liftLedger
  rw [get_bind_run]
  cases f s.ledger with
  | ok l => simp [modifyLedger, eq_comm]
  | error e => simp

theorem logGrows_ledgerMoves (p : Event → Prop) :
    LedgerMoves (fun _ => True) p (LogGrows (σ := σ) p) where
  write _ _ := .of_eq rfl
  record s {e} holds := ⟨[e], rfl, by simpa using holds⟩

theorem logGrows_moves (env : Env σ) (p : Event → Prop) :
    ApplyMoves env (fun _ => True) p (LogGrows (σ := σ) p) :=
  .of_poolFrame (fun frame => .of_eq frame.log) (logGrows_ledgerMoves p)

theorem logGrows_addBalance {route : Route} {hash : Hash} {height : Int64} {a : AddressBytes}
    {added : Int64} (holds : p (.moved ⟨route, hash, height, a, added⟩)) :
    Respects (LogGrows p) (addBalance route hash height a added : NodeM σ Unit) :=
  (logGrows_ledgerMoves p).addBalance (fun _ => trivial) route hash height a added holds

theorem logGrows_processTransaction {tx : Transaction} {height blockTime : Int64} :
    Respects (LogGrows (InclusionOf tx height)) (processTransaction env tx height blockTime) :=
  (logGrows_moves env _).processTransaction (fun _ _ => trivial) fun _ own => own

theorem logGrows_processTransactionsMultiSign (tx : Transaction) {height : Int64} :
    Respects (LogGrows (SettlementAt .multiSign .multiSign height))
      (processTransactionsMultiSign env tx height) :=
  (logGrows_moves env _).processTransactionsMultiSign (fun _ _ _ => trivial) fun _ own => own

theorem logGrows_processTransactionsEscrow {height : Int64} :
    Respects (LogGrows (SettlementAt .escrow .escrow height))
      (processTransactionsEscrow env height) :=
  (logGrows_moves env _).processTransactionsEscrow (fun _ _ _ => trivial) fun _ own => own

theorem logGrows_rewardBlock (block : Block) (reward : Int64) :
    Respects (LogGrows p) (rewardBlock env block reward) :=
  (logGrows_ledgerMoves p).rewardBlock fun _ _ _ => trivial

theorem logGrows_applyRandaoCommit (block : Block) :
    Respects (LogGrows p) (applyRandaoCommit block : NodeM σ Unit) :=
  (logGrows_ledgerMoves p).applyRandaoCommit fun _ _ _ => trivial

end QwidNode.Source
