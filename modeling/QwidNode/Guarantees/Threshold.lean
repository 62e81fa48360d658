import QwidNode.Source.Turns

/-!
# The multi-signature threshold

`CountMultiSignApprovals` walks over a group of the pool and takes every counted sender off a copy
of the address list. Its result is the size of the intersection, as multisets, of the counted
senders and the list (`countApprovals_eq`).
-/
namespace QwidNode.Guarantees
open Source Lib Ledger List Multiset
variable {σ : Type} {env : Env σ} {s t : Node σ} {main tx : Transaction} {height : Int64}
  {addresses : List AddressBytes} {txs : List Transaction}
variable {a : AddressBytes} {number : UInt8}

def countedSenders (main : Transaction) (txs : List Transaction) : List AddressBytes :=
  (txs.filter fun t => decide (t.amount = 0 ∧ t.recipient = main.recipient)).map (·.sender)

theorem countedSenders_cons (main t : Transaction) (rest : List Transaction) :
    countedSenders main (t :: rest) =
      if t.amount = 0 ∧ t.recipient = main.recipient then t.sender :: countedSenders main rest
      else countedSenders main rest := by
  by_cases counted : t.amount = 0 ∧ t.recipient = main.recipient
  · simp [countedSenders, counted]
  · simp [countedSenders, counted]

theorem countApprovals_eq (main : Transaction) (addresses : List AddressBytes)
    (txs : List Transaction) : countApprovals main addresses txs =
      ((countedSenders main txs : Multiset AddressBytes) ∩ (addresses : Multiset _)).card := by
  induction txs generalizing addresses with
  | nil => simp [countApprovals, countedSenders]
  | cons t rest ih =>
    unfold countApprovals
    by_cases counted : t.amount = 0 ∧ t.recipient = main.recipient
    · rw [if_neg (by simp [counted]), countedSenders_cons, if_pos counted, ← cons_coe]
      by_cases listed : t.sender ∈ addresses
      · rw [if_pos listed, ih, cons_inter_of_pos _ (by simpa using listed),
          card_cons, coe_erase]
      · rw [if_neg listed, ih, cons_inter_of_neg _ (by simpa using listed)]
    · rw [if_pos (by tauto), countedSenders_cons, if_neg counted, ih]

theorem mem_countedSenders : a ∈ countedSenders main txs ↔
    ∃ t ∈ txs, t.sender = a ∧ t.amount = 0 ∧ t.recipient = main.recipient := by
  simp only [countedSenders, List.mem_map, List.mem_filter, decide_eq_true_eq]
  constructor
  · rintro ⟨t, ⟨member, amount, recipient⟩, rfl⟩
    exact ⟨t, member, rfl, amount, recipient⟩
  · rintro ⟨t, member, rfl, amount, recipient⟩
    exact ⟨t, ⟨member, amount, recipient⟩, rfl⟩

theorem exists_counted {k : Nat} (distinct : k = 1 ∨ addresses.Nodup)
    (enough : k ≤ countApprovals main addresses txs) :
    ∃ signers : Finset AddressBytes, k ≤ signers.card ∧
      ∀ a ∈ signers, a ∈ addresses ∧ a ∈ countedSenders main txs := by
  rw [countApprovals_eq] at enough
  have inside : ∀ a ∈ (countedSenders main txs : Multiset AddressBytes) ∩ addresses,
      a ∈ addresses ∧ a ∈ countedSenders main txs := by
    intro a member
    obtain ⟨counted, listed⟩ := Multiset.mem_inter.mp member
    exact ⟨by simpa using listed, by simpa using counted⟩
  rcases distinct with rfl | distinct
  · obtain ⟨a, member⟩ := Multiset.card_pos_iff_exists_mem.mp enough
    refine ⟨{a}, by simp, fun b single => ?_⟩
    rw [Finset.mem_singleton.mp single]
    exact inside a member
  · have nodup : ((countedSenders main txs : Multiset AddressBytes) ∩ addresses).Nodup :=
      nodup_of_le inter_le_right (Multiset.coe_nodup.mpr distinct)
    refine ⟨⟨_, nodup⟩, enough, fun a member => inside a member⟩

def Settles (env : Env σ) (s : Node σ) (tx : Transaction) (height : Int64) (main : Transaction)
    (t : Node σ) : Prop :=
  processTransactionsMultiSign env tx height s = .ok () t ∧
    ∃ events, t.log = events ++ s.log ∧ .settled .multiSign main height ∈ events

theorem multiSignGroup_unique {hash : Hash} {a b : Transaction} (ha : a ∈ multiSignGroup s hash)
    (hb : b ∈ multiSignGroup s hash) (same : a.hash = b.hash) : a = b := by
  obtain ⟨group, sub, -, equal⟩ := s.poolTxMultiSign.peekTransactions_multiSign
    Common.maxTransactionInPool (hashInt64 hash)
  rw [multiSignGroup, equal] at ha hb
  obtain ⟨x, inX, rfl⟩ := List.mem_map.mp ha
  obtain ⟨y, inY, rfl⟩ := List.mem_map.mp hb
  have queuedX := sub.subset inX
  have queuedY := sub.subset inY
  rw [← s.poolTxMultiSign.keyed x queuedX, ← s.poolTxMultiSign.keyed y queuedY] at same
  rw [TransactionPool.queue_value_inj queuedX queuedY same]

theorem eq_of_settled_mem {other : Transaction} {pool : PoolType} {h : Int64}
    (settled : .settled pool main h ∈ executionLog other height) : main = other := by
  unfold executionLog at settled
  split at settled
  · simp only [List.mem_singleton, Event.settled.injEq] at settled
    exact settled.2.1
  · simp only [List.mem_cons, reduceCtorEq, Event.settled.injEq, not_mem_nil, or_false,
      false_or] at settled
    exact settled.2.1

theorem settles_counted (settles : Settles env s tx height main t) :
    (∀ entry ∈ multiSignGroup s main.hash, entry.hash = main.hash → entry = main) ∧
      ∃ acc, s.ledger.account? main.sender = some acc ∧ acc.multiSignNumber.toNat ≤
        countApprovals main acc.multiSignAddresses (multiSignGroup s main.hash) := by
  obtain ⟨run, events, recorded, settled⟩ := settles
  have nothing : ∀ u : Node σ, u.log = s.log → t ≠ u := by
    rintro u log rfl
    rw [log] at recorded
    rw [List.self_eq_append_left.mp recorded] at settled
    cases settled
  rcases processTransactionsMultiSign_ok run with ⟨-, same⟩ | ⟨other, u, -, source, outcome⟩
  · exact absurd same (nothing s rfl)
  have log : u.log = s.log := by
    rcases source with ⟨-, rfl⟩ | ⟨-, recovered⟩
    · rfl
    · exact recovered.log
  rcases outcome with same | ⟨acc, known, enough, -, -, executed⟩
  · exact absurd same (nothing u log)
  have own : events = executionLog other height := by
    rw [executed.log, log] at recorded
    exact (append_cancel_right recorded).symm
  obtain rfl : main = other := eq_of_settled_mem (own ▸ settled)
  refine ⟨fun entry member same => ?_, acc, known, enough⟩
  rcases source with ⟨pooled, -⟩ | ⟨absent, -⟩
  · exact multiSignGroup_unique member pooled same
  · exact absurd same (absent entry member)

/-- The address sent an included transaction, other than the main one, that names the full
hash of the main one. -/
def Approved (s : Node σ) (main : Transaction) (a : AddressBytes) : Prop :=
  ∃ tx height, .included tx height ∈ s.log ∧ tx.sender = a ∧ tx.hash ≠ main.hash ∧
    tx.txParam.multiSignTx = main.hash

/-- At least `MultiSignNumber` different authorised addresses approved. -/
def ThresholdMet (s : Node σ) (main : Transaction) (acc : Account) : Prop :=
  ∃ signers : Finset AddressBytes, acc.multiSignNumber.toNat ≤ signers.card ∧
    ∀ a ∈ signers, a ∈ acc.multiSignAddresses ∧ Approved s main a

/-- Besides the main transaction its group has only included transactions that name its
full hash; an entry may differ from the included transaction in its height. -/
def CleanGroup (s : Node σ) (main : Transaction) : Prop :=
  ∀ entry ∈ multiSignGroup s main.hash, entry.hash = main.hash ∨
    (entry.txParam.multiSignTx = main.hash ∧
      ∃ signed height, .included { entry with height := signed } height ∈ s.log)

theorem thresholdMet_of_settles {acc : Account} (settles : Settles env s tx height main t)
    (known : s.ledger.account? main.sender = some acc) (clean : CleanGroup s main)
    (distinct : acc.multiSignNumber.toNat = 1 ∨ acc.multiSignAddresses.Nodup)
    (notSelf : main.amount ≠ 0 ∨ main.sender ∉ acc.multiSignAddresses) :
    ThresholdMet s main acc := by
  obtain ⟨unique, acc', known', enough⟩ := settles_counted settles
  rw [known] at known'
  cases known'
  obtain ⟨signers, size, inside⟩ := exists_counted distinct enough
  refine ⟨signers, size, fun a member => ?_⟩
  obtain ⟨listed, counted⟩ := inside a member
  obtain ⟨entry, pooled, rfl, zero, -⟩ := mem_countedSenders.mp counted
  -- the main transaction itself is not among the counted entries
  have different : entry.hash ≠ main.hash := by
    intro same
    have self := unique entry pooled same
    subst self
    exact notSelf.elim (fun nonzero => nonzero zero) fun absent => absent listed
  rcases clean entry pooled with same | ⟨named, signed, h, included⟩
  · exact absurd same different
  · exact ⟨listed, _, h, included, rfl, different, named⟩

def approvalOf (main : Transaction) (named : Hash) (i : Nat) (a : AddressBytes) : Transaction :=
  { main with
    txParam := { main.txParam with sender := ⟨a, true⟩, multiSignTx := named }
    txData := { main.txData with amount := 0 }
    hash := main.hash + BitVec.ofNat 256 (i + 1) }

def approvalsOf (main : Transaction) (named : Hash) : List AddressBytes → List Transaction
  | [] => []
  | a :: rest => approvalOf main named rest.length a :: approvalsOf main named rest

def poolOf (txs : List Transaction) (distinct : (txs.map (·.hash)).Nodup) :
    TransactionPool .multiSign where
  transactions := ⟨txs.map fun tx => ⟨tx.hash, tx⟩, by
    rw [List.NodupKeys, List.keys, List.map_map]
    exact distinct⟩
  priorityQueue := txs.map fun tx => ⟨tx, tx.hash, hashInt64 (multiSignPoolKeyFor tx)⟩
  minQueue := txs.map fun tx => ⟨tx, tx.hash, hashInt64 (multiSignPoolKeyFor tx)⟩
  queue_keys := by
    simp only [AList.keys, List.keys, List.map_map]
    exact .refl _
  stored := by
    intro item member
    obtain ⟨tx, inside, rfl⟩ := List.mem_map.mp member
    exact AList.mem_lookup_iff.mpr (List.mem_map.mpr ⟨tx, inside, rfl⟩)
  keyed := by
    intro item member
    obtain ⟨tx, inside, rfl⟩ := List.mem_map.mp member
    rfl

section Construction
variable {named : Hash} {senders : List AddressBytes} {acc : Account}

theorem mem_approvalsOf (member : tx ∈ approvalsOf main named senders) :
    ∃ i < senders.length, ∃ a ∈ senders, tx = approvalOf main named i a := by
  induction senders with
  | nil => cases member
  | cons a rest ih =>
    rcases List.mem_cons.mp member with rfl | later
    · exact ⟨rest.length, by simp, a, by simp, rfl⟩
    · obtain ⟨i, bound, b, inside, equal⟩ := ih later
      exact ⟨i, by simp; omega, b, by simp [inside], equal⟩

theorem approvalsOf_length (main : Transaction) (named : Hash) (senders : List AddressBytes) :
    (approvalsOf main named senders).length = senders.length := by
  induction senders with
  | nil => rfl
  | cons a rest ih => simp [approvalsOf, ih]

theorem approvalsOf_senders (main : Transaction) (named : Hash) (senders : List AddressBytes) :
    countedSenders main (approvalsOf main named senders) = senders := by
  induction senders with
  | nil => rfl
  | cons a rest ih =>
    rw [approvalsOf, countedSenders_cons, if_pos ⟨rfl, rfl⟩, ih]
    rfl

theorem add_ofNat_inj {h : Hash} {i j : Nat} (hi : i < 2 ^ 256) (hj : j < 2 ^ 256)
    (same : h + BitVec.ofNat 256 i = h + BitVec.ofNat 256 j) : i = j := by
  have equal : BitVec.ofNat 256 i = BitVec.ofNat 256 j := (BitVec.add_right_inj h).mp same
  have values := congrArg BitVec.toNat equal
  rwa [BitVec.toNat_ofNat, BitVec.toNat_ofNat, Nat.mod_eq_of_lt hi, Nat.mod_eq_of_lt hj] at values

theorem approvalOf_hash_ne {i : Nat} (small : i < 255) :
    (approvalOf main named i a).hash ≠ main.hash := by
  intro same
  have zero : main.hash + BitVec.ofNat 256 (i + 1) = main.hash + BitVec.ofNat 256 0 :=
    same.trans (BitVec.add_zero _).symm
  have := add_ofNat_inj (by omega) (by omega) zero
  omega

theorem approvalsOf_hashes_nodup (main : Transaction) (named : Hash)
    (short : senders.length ≤ 255) :
    ((main :: approvalsOf main named senders).map (·.hash)).Nodup := by
  rw [List.map_cons, List.nodup_cons]
  constructor
  · intro member
    obtain ⟨tx, inside, same⟩ := List.mem_map.mp member
    obtain ⟨i, bound, a, -, rfl⟩ := mem_approvalsOf inside
    exact approvalOf_hash_ne (by omega) same
  · induction senders with
    | nil => exact nodup_nil
    | cons a rest ih =>
      have shorter : rest.length ≤ 255 := by simp at short; omega
      rw [approvalsOf, List.map_cons, List.nodup_cons]
      refine ⟨fun member => ?_, ih shorter⟩
      obtain ⟨tx, inside, same⟩ := List.mem_map.mp member
      obtain ⟨i, bound, b, -, rfl⟩ := mem_approvalsOf inside
      have := add_ofNat_inj (by omega) (by omega) same
      omega

/-- A node with one account, whose multi-signature pool has a main transaction of that
account and included approvals of it. -/
def approvedNode (evm : σ) (main : Transaction) (acc : Account) (named : Hash)
    (senders : List AddressBytes) (short : senders.length ≤ 255) : Node σ where
  evm := evm
  ledger := { accounts := (∅ : FinMap AddressBytes Account).insert main.sender acc }
  poolTxMultiSign :=
    poolOf (main :: approvalsOf main named senders) (approvalsOf_hashes_nodup main named short)
  log := (approvalsOf main named senders).map fun tx => .included tx 0

variable {evm : σ} {short : senders.length ≤ 255}

theorem approvedNode_account :
    (approvedNode evm main acc named senders short).ledger.account? main.sender = some acc :=
  AList.lookup_insert _

theorem multiSignGroup_approvedNode (isMain : main.txParam.multiSignTx = zerosHash)
    (key : hashInt64 named = hashInt64 main.hash) (names : named ≠ zerosHash) :
    multiSignGroup (approvedNode evm main acc named senders short) main.hash =
      main :: approvalsOf main named senders := by
  have whole := TransactionPool.peekTransactions_multiSign_all
    (approvedNode evm main acc named senders short).poolTxMultiSign
    Common.maxTransactionInPool (hashInt64 main.hash) ?_ ?_
  · rw [multiSignGroup, whole]
    simp only [approvedNode, poolOf, List.map_map]
    exact List.map_id' _
  · simp only [approvedNode, poolOf, length_map, length_cons, approvalsOf_length]
    simp only [Common.maxTransactionInPool]
    omega
  · intro item member
    obtain ⟨tx, inside, rfl⟩ := List.mem_map.mp member
    rcases List.mem_cons.mp inside with rfl | approval
    · simp [multiSignPoolKeyFor, isMain]
    · obtain ⟨i, -, a, -, rfl⟩ := mem_approvalsOf approval
      simp [multiSignPoolKeyFor, approvalOf, names, key]

theorem executeMainTx_runs (known : s.ledger.account? main.sender = some acc)
    (alone : ∀ a, a ≠ main.sender → s.ledger.account? a = none)
    (funded : acc.balance = main.amount) (amount : 0 ≤ main.amount) :
    ∃ t events, executeMainTx env main height s = .ok () t ∧ t.log = events ++ s.log ∧
      .settled .multiSign main height ∈ events := by
  unfold executeMainTx record
  simp only [modify_bind_run]
  generalize removed : ({ s with log := .settled .multiSign main height :: s.log } :
    Node σ).removeMultiSignTransaction main.hash = u
  have ledger : u.ledger = s.ledger := by
    rw [← removed]
    exact (Node.poolFrame_removeMultiSignTransaction _ _).ledger
  have log : u.log = .settled .multiSign main height :: s.log := by
    rw [← removed]
    exact (Node.poolFrame_removeMultiSignTransaction _ _).log
  have finish : ∀ {t : Node σ}, LogGrows (fun _ => True) u t → ∃ events,
      t.log = events ++ s.log ∧ .settled .multiSign main height ∈ events := by
    rintro t ⟨events, grown, -⟩
    exact ⟨events ++ [.settled .multiSign main height], by rw [grown, log]; simp, by simp⟩
  have own : u.ledger.accountOrNew main.sender = acc := by
    rw [ledger, accountOrNew, known]
    rfl
  split
  · have stored : u.ledger.setAccountCommitments main.sender main.commitmentValues.1
        main.commitmentValues.2 height = .ok (u.ledger.putAccount main.sender
          (acc.setCommitments main.commitmentValues.1 main.commitmentValues.2 height)) := by
      simp only [setAccountCommitments, ledger, known]
    obtain ⟨v, run⟩ : ∃ v, settleCommitment main height u = .ok () v :=
      ⟨_, liftLedger_eq_ok.mpr ⟨_, stored, rfl⟩⟩
    obtain ⟨events, grown, member⟩ := finish
      (.of_eq ((quiet_liftLedger _).of_ok run).log)
    exact ⟨v, events, run, grown, member⟩
  · have debited : acc.balance + -main.amount = 0 := by rw [funded]; grind
    obtain ⟨v, paid, after⟩ := addBalance_runs (s := u) .multiSign main.hash height main.sender
      (-main.amount) (by rw [own, debited]; decide)
    rw [own, debited] at after
    -- sender and recipient may be one account; either way it has nothing left or nothing yet
    have credited : (v.ledger.accountOrNew main.recipient).balance = 0 := by
      rw [accountOrNew, after, account?_putAccount]
      by_cases same : main.recipient = main.sender
      · rw [if_pos same]
        rfl
      · rw [if_neg same, ledger, alone _ same]
        rfl
    have positive : ¬ (v.ledger.accountOrNew main.recipient).balance + main.amount < 0 := by
      rw [credited]
      have bound := Word.le_iff.mp amount
      rw [Word.lt_iff, Int64.zero_add]
      simp only [Word.toInt_zero] at bound ⊢
      omega
    obtain ⟨w, received, -⟩ := addBalance_runs (s := v) .multiSign main.hash height
      main.recipient main.amount positive
    obtain ⟨events, grown, member⟩ := finish (trans_of (LogGrows _)
      ((logGrows_addBalance trivial).of_ok paid) ((logGrows_addBalance trivial).of_ok received))
    exact ⟨w, events, bind_eq_ok.mpr ⟨(), v, onError_eq_ok.mpr paid, received⟩, grown, member⟩

theorem countApprovals_le_length (main : Transaction) (addresses : List AddressBytes)
    (txs : List Transaction) : countApprovals main addresses txs ≤ txs.length := by
  rw [countApprovals_eq]
  refine (card_le_card inter_le_left).trans ?_
  rw [coe_card, countedSenders, length_map]
  exact length_filter_le _ _

/-- What a main transaction is: it is no approval, has a hash, goes to an ordinary
recipient, and its amount is not negative. -/
structure IsMain (main : Transaction) : Prop where
  unset : main.txParam.multiSignTx = zerosHash
  hashed : main.hash ≠ zerosHash
  ordinary : main.routingAccount = some none
  amount : 0 ≤ main.amount

theorem settles_approvedNode (isMain : IsMain main) (key : hashInt64 named = hashInt64 main.hash)
    (names : named ≠ zerosHash) (funded : acc.balance = main.amount)
    (immediate : acc.transactionDelay = 0)
    (enough : acc.multiSignNumber.toNat ≤
      countApprovals main acc.multiSignAddresses (main :: approvalsOf main named senders)) :
    ∃ t, Settles env (approvedNode evm main acc named senders short)
      (approvalOf main main.hash 0 0) main.height main t := by
  have group : multiSignGroup (approvedNode evm main acc named senders short) main.hash = _ :=
    multiSignGroup_approvedNode isMain.unset key names
  have known : (approvedNode evm main acc named senders short).ledger.account? main.sender =
      some acc := approvedNode_account
  have alone : ∀ a, a ≠ main.sender →
      (approvedNode evm main acc named senders short).ledger.account? a = none := by
    intro a different
    simp only [approvedNode, account?, AList.lookup_insert_ne different, AList.lookup_empty]
  obtain ⟨t, events, run, grown, settled⟩ : ∃ t events,
      executeMainTx env main main.height (approvedNode evm main acc named senders short) =
        .ok () t ∧ _ := executeMainTx_runs known alone funded isMain.amount
  refine ⟨t, ?_, events, grown, settled⟩
  have long := enough.trans (countApprovals_le_length _ _ _)
  have fresh : ¬ Common.maxTransactionInMultiSigPool < main.height - main.height := by
    rw [Int64.sub_self]
    decide
  have first : (main :: approvalsOf main named senders).find? (·.hash == main.hash) = some main :=
    List.find?_cons_of_pos (by simp)
  have target : (approvalOf main main.hash 0 0).txParam.multiSignTx = main.hash := rfl
  unfold processTransactionsMultiSign
  rw [target, if_neg isMain.hashed, get_bind_run]
  have search : findMainTx env main.hash (main :: approvalsOf main named senders)
      (approvedNode evm main acc named senders short) =
        .ok (some main) (approvedNode evm main acc named senders short) := by
    unfold findMainTx
    simp only [first]
    rfl
  simp only [group]
  rw [bind_of_ok search]
  simp only [settleMainTx, if_neg fresh, get_bind_run, known]
  rw [if_neg (not_lt.mpr long), if_neg (not_lt.mpr enough)]
  simp only [isMain.ordinary]
  rw [if_neg fun delayed => absurd delayed.1 (by rw [immediate]; decide)]
  exact run

theorem cleanGroup_approvedNode (isMain : IsMain main) :
    CleanGroup (approvedNode evm main acc main.hash senders short) main := by
  intro entry pooled
  rw [multiSignGroup_approvedNode isMain.unset rfl isMain.hashed] at pooled
  rcases List.mem_cons.mp pooled with rfl | approval
  · exact .inl rfl
  · obtain ⟨i, -, a, -, same⟩ := mem_approvalsOf approval
    refine .inr ⟨by rw [same]; rfl, entry.height, 0, ?_⟩
    exact List.mem_map.mpr ⟨entry, approval, rfl⟩

theorem approved_approvedNode
    (approved : Approved (approvedNode evm main acc named senders short) main a) :
    a ∈ senders ∧ named = main.hash := by
  obtain ⟨tx, h, included, rfl, -, names⟩ := approved
  obtain ⟨tx', approval, same⟩ := List.mem_map.mp included
  cases same
  obtain ⟨i, -, b, member, rfl⟩ := mem_approvalsOf approval
  exact ⟨member, names⟩

theorem not_thresholdMet_approvedNode (few : senders.toFinset.card < acc.multiSignNumber.toNat) :
    ¬ ThresholdMet (approvedNode evm main acc named senders short) main acc := by
  rintro ⟨signers, size, approved⟩
  have inside : signers ⊆ senders.toFinset := fun a member =>
    List.mem_toFinset.mpr (approved_approvedNode (approved a member).2).1
  have bound := Finset.card_le_card inside
  omega

theorem countApprovals_of_subperm {counted : List AddressBytes}
    (listed : (counted : Multiset AddressBytes) ≤ addresses)
    (sent : (counted : Multiset AddressBytes) ≤ countedSenders main txs) :
    counted.length ≤ countApprovals main addresses txs := by
  rw [countApprovals_eq]
  have both := card_le_card (le_inter sent listed)
  rwa [coe_card] at both

end Construction

theorem exists_sublist_between {α : Type} {xs ys : List α} (sub : xs.Sublist ys) (n : Nat)
    (low : xs.length ≤ n) (high : n ≤ ys.length) :
    ∃ zs : List α, xs.Sublist zs ∧ zs.Sublist ys ∧ zs.length = n := by
  induction sub generalizing n with
  | slnil => exact ⟨[], .slnil, .slnil, by simp at high; simp [high]⟩
  | @cons xs ys a sub ih =>
    by_cases fits : n ≤ ys.length
    · obtain ⟨zs, below, above, size⟩ := ih n low fits
      exact ⟨zs, below, above.cons a, size⟩
    · refine ⟨a :: ys, sub.cons a, .refl _, ?_⟩
      simp only [length_cons] at high ⊢
      omega
  | @cons_cons xs ys a sub ih =>
    simp only [length_cons] at low high
    obtain ⟨zs, below, above, size⟩ := ih (n - 1) (by omega) (by omega)
    refine ⟨a :: zs, below.cons_cons a, above.cons_cons a, ?_⟩
    simp only [length_cons]
    omega

/-- The multi-signature account of a main transaction, with just enough coins for it. -/
def signedAccount (main : Transaction) (number : UInt8) (addresses : List AddressBytes) :
    Account :=
  { address := main.sender
    balance := main.amount
    multiSignNumber := number
    multiSignAddresses := addresses }

theorem toNat_le_255 (number : UInt8) : number.toNat ≤ 255 := by
  have := number.toNat_lt
  omega

theorem senders_le_countedSenders (named : Hash) (senders : List AddressBytes) :
    (senders : Multiset AddressBytes) ≤
      countedSenders main (main :: approvalsOf main named senders) := by
  refine Multiset.coe_le.mpr (List.Sublist.subperm ?_)
  rw [countedSenders_cons, approvalsOf_senders]
  split
  · exact sublist_cons_self _ _
  · exact .refl _

theorem approvals_settle {named : Hash} {senders chosen : List AddressBytes} (env : Env σ) (evm : σ)
    (isMain : IsMain main) (key : hashInt64 named = hashInt64 main.hash) (names : named ≠ zerosHash)
    (short : senders.length ≤ 255) (above : chosen.Sublist addresses)
    (size : chosen.length = number.toNat) (sent : (chosen : Multiset AddressBytes) ≤
      countedSenders main (main :: approvalsOf main named senders)) :
    ∃ t, Settles env (approvedNode evm main (signedAccount main number addresses) named senders short)
      (approvalOf main main.hash 0 0) main.height main t := by
  have enough := countApprovals_of_subperm (Multiset.coe_le.mpr above.subperm) sent
  rw [size] at enough
  exact settles_approvedNode isMain key names rfl rfl enough

/-- A node with a clean pool that settles with too few approving addresses. -/
def SettledByFew (env : Env σ) (evm : σ) (main : Transaction) (number : UInt8)
    (addresses : List AddressBytes) : Prop :=
  ∃ (senders : List AddressBytes) (short : senders.length ≤ 255) (t : Node σ),
    Settles env (approvedNode evm main (signedAccount main number addresses) main.hash senders
      short) (approvalOf main main.hash 0 0) main.height main t ∧
    senders.toFinset.card < number.toNat

theorem repeated_address_counts_twice (evm : σ) (isMain : IsMain main)
    (configured : number.toNat ≤ addresses.length) (several : 2 ≤ number.toNat)
    (repeated : ¬ addresses.Nodup) :
    SettledByFew env evm main number addresses := by
  obtain ⟨a, twice⟩ := List.exists_duplicate_iff_not_nodup.mpr repeated
  obtain ⟨senders, below, above, size⟩ := exists_sublist_between
    (List.duplicate_iff_sublist.mp twice) number.toNat several configured
  have bound := toNat_le_255 number
  have short : senders.length ≤ 255 := by omega
  obtain ⟨t, settles⟩ := approvals_settle env evm isMain rfl isMain.hashed short above size
    (senders_le_countedSenders main.hash senders)
  refine ⟨senders, short, t, settles, ?_⟩
  have notNodup : ¬ senders.Nodup := by
    rw [← exists_duplicate_iff_not_nodup]
    exact ⟨a, List.duplicate_iff_sublist.mpr below⟩
  rw [List.card_toFinset, ← size]
  refine lt_of_le_of_ne senders.dedup_sublist.length_le fun same => notNodup ?_
  rw [← senders.dedup_sublist.eq_of_length same]
  exact senders.nodup_dedup

theorem main_counts_itself (evm : σ) (isMain : IsMain main)
    (configured : number.toNat ≤ addresses.length) (positive : 1 ≤ number.toNat)
    (zero : main.amount = 0) (listed : main.sender ∈ addresses) :
    SettledByFew env evm main number addresses := by
  obtain ⟨all, below, above, size⟩ := exists_sublist_between
    (List.singleton_sublist.mpr listed) number.toNat positive configured
  have inside : main.sender ∈ all := List.singleton_sublist.mp below
  have bound := toNat_le_255 number
  have fewer : (all.erase main.sender).length = number.toNat - 1 := by
    rw [length_erase_of_mem inside, size]
  have short : (all.erase main.sender).length ≤ 255 := by omega
  have counted : countedSenders main (main :: approvalsOf main main.hash (all.erase main.sender)) =
      main.sender :: all.erase main.sender := by
    rw [countedSenders_cons, if_pos ⟨zero, rfl⟩, approvalsOf_senders]
  have sent : (all : Multiset AddressBytes) ≤
      countedSenders main (main :: approvalsOf main main.hash (all.erase main.sender)) := by
    rw [counted]
    exact Multiset.coe_le.mpr (perm_cons_erase inside).subperm
  obtain ⟨t, settles⟩ := approvals_settle env evm isMain rfl isMain.hashed short above size sent
  refine ⟨all.erase main.sender, short, t, settles, ?_⟩
  have size' := List.toFinset_card_le (all.erase main.sender)
  omega

/-- A group is all that shares the first eight bytes of a hash, so approvals of another
transaction with these bytes count too. -/
theorem other_group_counts {named : Hash} (evm : σ) (isMain : IsMain main)
    (configured : number.toNat ≤ addresses.length) (positive : 1 ≤ number.toNat)
    (other : named ≠ main.hash) (names : named ≠ zerosHash)
    (key : hashInt64 named = hashInt64 main.hash) :
    ∃ (senders : List AddressBytes) (short : senders.length ≤ 255) (t : Node σ),
      Settles env (approvedNode evm main (signedAccount main number addresses) named senders
        short) (approvalOf main main.hash 0 0) main.height main t ∧
      (∀ a, ¬ Approved (approvedNode evm main (signedAccount main number addresses) named senders
        short) main a) ∧
      ¬ ThresholdMet (approvedNode evm main (signedAccount main number addresses) named senders
        short) main (signedAccount main number addresses) := by
  have bound := toNat_le_255 number
  have size : (addresses.take number.toNat).length = number.toNat := by
    rw [length_take]
    omega
  have short : (addresses.take number.toNat).length ≤ 255 := by omega
  obtain ⟨t, settles⟩ := approvals_settle env evm isMain key names short
    (take_sublist number.toNat addresses) size (senders_le_countedSenders named _)
  refine ⟨_, short, t, settles, fun a approved => other (approved_approvedNode approved).2,
    fun ⟨signers, many, approved⟩ => ?_⟩
  have nonempty : 0 < signers.card := lt_of_lt_of_le positive many
  obtain ⟨a, member⟩ := Finset.card_pos.mp nonempty
  exact other (approved_approvedNode (approved a member).2).2

/-- For a multi-signature account with a given list and threshold: every settlement of the
main transaction, out of any pool whose group is clean, has that many different approving
addresses, if and only if no address of the list is repeated (or one is enough) and the main
transaction cannot count for its own sender. -/
theorem threshold_guaranteed_iff (env : Env σ) (evm : σ) (main : Transaction) (number : UInt8)
    (addresses : List AddressBytes) (isMain : IsMain main) (multisig : 0 < number)
    (configured : number.toNat ≤ addresses.length) :
    (∀ (s t : Node σ) (tx : Transaction) (height : Int64) (acc : Account),
      s.ledger.account? main.sender = some acc → acc.multiSignNumber = number →
      acc.multiSignAddresses = addresses → CleanGroup s main →
      Settles env s tx height main t → ThresholdMet s main acc) ↔
    (number = 1 ∨ addresses.Nodup) ∧ (main.amount ≠ 0 ∨ main.sender ∉ addresses) := by
  have positive : 1 ≤ number.toNat := UInt8.lt_iff_toNat_lt.mp multisig
  constructor
  · intro guaranteed
    -- a settlement of a constructed node with too few senders contradicts the guarantee
    have refuted : ¬ SettledByFew env evm main number addresses := by
      rintro ⟨senders, short, t, settles, few⟩
      have met := guaranteed _ t _ _ (signedAccount main number addresses)
        approvedNode_account rfl rfl (cleanGroup_approvedNode isMain) settles
      exact not_thresholdMet_approvedNode few met
    constructor
    · by_contra neither
      rw [not_or] at neither
      have several : 2 ≤ number.toNat := by
        have notOne : number.toNat ≠ 1 := fun one => neither.1 (UInt8.toNat_inj.mp one)
        omega
      exact refuted (repeated_address_counts_twice evm isMain configured several neither.2)
    · by_contra neither
      rw [not_or, not_not, not_not] at neither
      exact refuted (main_counts_itself evm isMain configured positive neither.1 neither.2)
  · rintro ⟨distinct, notSelf⟩ s t tx height acc known rfl rfl clean settles
    refine thresholdMet_of_settles settles known clean ?_ notSelf
    exact distinct.imp_left fun one => by rw [one]; rfl

def jointTransfer : Transaction := .plain 0x10 0x77 5 1 5

theorem jointTransfer_isMain : IsMain jointTransfer :=
  ⟨rfl, by decide +kernel, by decide +kernel, by decide⟩

/-- The account of the transfer asks for two of two listed addresses. -/
def jointAccount (a b : AddressBytes) : Account := signedAccount jointTransfer 2 [a, b]

def jointNode (a b : AddressBytes) : Node Unit :=
  approvedNode () jointTransfer (jointAccount a b) jointTransfer.hash [a, b] (by simp)

theorem jointNode_settles (a b : AddressBytes) :
    ∃ t, Settles Env.permissive (jointNode a b) (approvalOf jointTransfer jointTransfer.hash 0 0)
      5 jointTransfer t := by
  refine settles_approvedNode jointTransfer_isMain rfl jointTransfer_isMain.hashed rfl rfl ?_
  have sent : ([a, b] : Multiset AddressBytes) ≤
      countedSenders jointTransfer
        (jointTransfer :: approvalsOf jointTransfer jointTransfer.hash [a, b]) := by
    rw [countedSenders_cons, if_neg (by decide), approvalsOf_senders]
  exact countApprovals_of_subperm (le_refl ([a, b] : Multiset AddressBytes)) sent

/-- Two approvals of one address settle a transfer that needs two: the list has the address
twice. -/
theorem one_address_approves_twice :
    (∃ t, Settles Env.permissive (jointNode 0x21 0x21)
        (approvalOf jointTransfer jointTransfer.hash 0 0) 5 jointTransfer t) ∧
      CleanGroup (jointNode 0x21 0x21) jointTransfer ∧
      ¬ ThresholdMet (jointNode 0x21 0x21) jointTransfer (jointAccount 0x21 0x21) :=
  ⟨jointNode_settles _ _, cleanGroup_approvedNode jointTransfer_isMain,
    not_thresholdMet_approvedNode (by decide)⟩

/-- Two different addresses approve, and the threshold of two is met. -/
theorem two_addresses_approve :
    ThresholdMet (jointNode 0x21 0x22) jointTransfer (jointAccount 0x21 0x22) := by
  obtain ⟨t, settles⟩ := jointNode_settles 0x21 0x22
  exact (threshold_guaranteed_iff Env.permissive () jointTransfer 2 [0x21, 0x22]
    jointTransfer_isMain (by decide) (by decide)).mpr ⟨.inr (by decide), .inl (by decide)⟩
    _ t _ _ _ approvedNode_account rfl rfl (cleanGroup_approvedNode jointTransfer_isMain) settles

/-- Approvals that name the next hash settle the transfer. -/
theorem next_hash_approves :
    ∃ (senders : List AddressBytes) (short : senders.length ≤ 255) (t : Node Unit),
      Settles Env.permissive (approvedNode () jointTransfer (jointAccount 0x21 0x22)
        (jointTransfer.hash + 1) senders short) (approvalOf jointTransfer jointTransfer.hash 0 0)
        5 jointTransfer t ∧
      (∀ a, ¬ Approved (approvedNode () jointTransfer (jointAccount 0x21 0x22)
        (jointTransfer.hash + 1) senders short) jointTransfer a) ∧
      ¬ ThresholdMet (approvedNode () jointTransfer (jointAccount 0x21 0x22)
        (jointTransfer.hash + 1) senders short) jointTransfer (jointAccount 0x21 0x22) :=
  other_group_counts () jointTransfer_isMain (by decide) (by decide) (by decide +kernel)
    (by decide +kernel) (by decide +kernel)

end QwidNode.Guarantees
