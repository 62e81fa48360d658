import QwidNode.Source.Snapshots

/-!
# Snapshots are read safely and read back

No decoder faults, whatever bytes it is given: every field is taken after a test that it is there.
What the encoders write is read back field by field as long as the records fit their length fields,
which are 32 bits wide, and an account has at most 255 co-signers, whose number is one byte.
-/
namespace QwidNode.Source
open Lib Reader FinMap SafeFrom AddressBytes List AList Prod
variable {α γ δ : Type} {width : Nat} {r : ByteReader α} {write : δ → Bytes} {ds : List δ}
variable {as : List α} {next : List α → ByteReader γ}

section Safe
variable {n : Nat}

theorem safe_readCount {reserve width : Nat} (enough : 8 ≤ n) :
    SafeFrom n (readCount reserve width) fun k m => m = n - 8 ∧ k * width ≤ m - reserve := by
  refine .field_bind enough fun count => ?_
  refine .check_bind fun bounded => ?_
  refine .pure ⟨rfl, ?_⟩
  have quotient : count.toInt.toNat ≤ (n - 8 - reserve) / width := by omega
  exact (Nat.mul_le_mul_right width quotient).trans (Nat.div_mul_le_self _ _)

theorem safe_readRecord {unmarshal : ByteReader α} (safe : ∀ k, Safe k unmarshal) :
    Safe n (readRecord unmarshal) := by
  refine .check_bind fun four => ?_
  refine .field_bind four fun lb => ?_
  refine .check_bind fun enough => ?_
  exact (framed enough (safe lb)).mono fun _ _ _ => trivial

theorem safe_readEntry {unmarshal : ByteReader α} (safe : ∀ k, Safe k unmarshal) :
    Safe n (readEntry unmarshal) := by
  refine .check_bind fun enough => ?_
  refine .field_bind enough fun address => ?_
  refine .followed (safe_readRecord safe) fun acc m => ?_
  exact .pure trivial

theorem safe_times (safe : ∀ k, Safe k r) (count : Nat) :
    Safe n (times count r) :=
  SafeFrom.times (fun _ _ => True) (fun _ m _ => safe m) trivial

namespace Account

theorem safe_readHistory (enough : 16 ≤ n) : Safe n readHistory := by
  refine .bind (safe_readCount (by omega)) fun nts m sender => ?_
  refine .bind (times_width (fun _ => .field) (by omega)) fun transactionsSender m _ => ?_
  refine .check_bind fun eight => ?_
  refine .bind (safe_readCount eight) fun ntr m recipient => ?_
  refine .bind (times_width (fun _ => .field) (by omega)) fun transactionsRecipient m _ => ?_
  exact .pure trivial

theorem safe_unmarshal (n : Nat) : Safe n unmarshal := by
  refine .check_bind fun enough => ?_
  refine .field_bind (by omega) fun balance => ?_
  refine .field_bind (by omega) fun address => ?_
  refine .field_bind (by omega) fun transactionDelay => ?_
  refine .field_bind (by omega) fun multiSignNumber => ?_
  refine .field_bind (by omega) fun msa => ?_
  refine .check_bind fun room => ?_
  refine .bind (times_width (fun _ => .field) room) fun multiSignAddresses m _ => ?_
  refine .followed (.optionally safe_readHistory fun _ => trivial) fun lists m => ?_
  refine .followed (.optionally (fun enough => ?_) fun _ => trivial) fun counters m => ?_
  · refine .field_bind (by omega) fun sentCount => ?_
    refine .field_bind (by omega) fun receivedCount => ?_
    exact .pure trivial
  refine .followed (.optionally (fun enough => ?_) fun _ => trivial) fun recovery m => ?_
  · refine .field_bind (by omega) fun recoveryCommit => ?_
    refine .field_bind (by omega) fun recoveryPendingCommit => ?_
    refine .field_bind (by omega) fun recoveryPendingHeight => ?_
    exact .pure trivial
  refine .followed (.optionally (fun enough => ?_) fun _ => trivial) fun spares m => ?_
  · refine .field_bind (by omega) fun spareCommit => ?_
    refine .field_bind (by omega) fun sparePendingCommit => ?_
    exact .pure trivial
  exact .pure trivial

end Account

theorem AccountsType.safe_readBind (enough : 92 ≤ n) :
    SafeFrom n AccountsType.readBind fun _ left => left = n - 92 := by
  refine .field_bind (by omega) fun key => ?_
  refine .field_bind (by omega) fun identity => ?_
  refine .field_bind (by omega) fun payload => ?_
  refine .field_bind (by omega) fun height => ?_
  exact .pure (by omega)

theorem AccountsType.safe_readBinds : Safe n AccountsType.readBinds := by
  refine .check_bind fun enough => ?_
  refine .bind (safe_readCount (by omega)) fun count m bounded => ?_
  exact (times_width (fun _ => safe_readBind) (by omega)).mono fun _ _ _ => trivial

theorem AccountsType.safe_unmarshal (n : Nat) : Safe n AccountsType.unmarshal := by
  refine .check_bind fun enough => ?_
  refine .bind (safe_readCount (by omega)) fun accountCount m bounded => ?_
  refine .followed (safe_times (fun _ => safe_readEntry Account.safe_unmarshal) _)
    fun accounts m => ?_
  refine .followed (.optionally (fun _ => safe_readBinds) fun _ => trivial) fun binds m => ?_
  refine .check_bind fun last => ?_
  refine .field_bind (Nat.le_of_eq last.symm) fun height => ?_
  exact .pure trivial

namespace StakingAccount

theorem safe_readTriple (enough : 24 ≤ n) : SafeFrom n readTriple fun _ left => left = n - 24 := by
  refine .field_bind (by omega) fun first => ?_
  refine .field_bind (by omega) fun second => ?_
  refine .field_bind (by omega) fun third => ?_
  exact .pure (by omega)

theorem safe_readDetail (n : Nat) : Safe n readDetail := by
  refine .check_bind fun enough => ?_
  refine .bind (safe_readTriple enough) fun detail m left => ?_
  exact .pure trivial

theorem safe_readDetails (n : Nat) : Safe n readDetails := by
  refine .check_bind fun enough => ?_
  refine .field_bind (by omega) fun key => ?_
  refine .bind (safe_readCount (by omega)) fun detailCount m bounded => ?_
  refine .followed (safe_times safe_readDetail _) fun details m => ?_
  exact .pure trivial

theorem safe_unmarshal (n : Nat) : Safe n unmarshal := by
  refine .check_bind fun enough => ?_
  refine .field_bind (by omega) fun stakedBalance => ?_
  refine .field_bind (by omega) fun stakingRewards => ?_
  refine .bind (safe_readCount (by omega)) fun numLocked m bounded => ?_
  refine .bind (times_width (fun _ => safe_readTriple) (by omega)) fun locks m _ => ?_
  refine .check_bind fun enough => ?_
  refine .field_bind (by omega) fun delegatedAccount => ?_
  refine .field_bind (by omega) fun address => ?_
  refine .field_bind (by omega) fun operational => ?_
  refine .bind (safe_readCount (by omega)) fun detailsCount m bounded => ?_
  refine .followed (safe_times safe_readDetails _) fun details m => ?_
  refine .followed .optionalField fun operationalSince m => ?_
  refine .followed .optionalField fun lastStakeHeight m => ?_
  refine .followed (.optionally (fun enough => ?_) fun _ => trivial) fun rand m => ?_
  · refine .field_bind (by omega) fun randCommit => ?_
    refine .field_bind (by omega) fun randCommitHeight => ?_
    exact .pure trivial
  exact .pure trivial

end StakingAccount

theorem StakingAccountsType.safe_unmarshal (n : Nat) : Safe n StakingAccountsType.unmarshal := by
  refine .check_bind fun enough => ?_
  refine .bind (safe_readCount enough) fun accountCount m bounded => ?_
  refine .followed (safe_times (fun _ => safe_readEntry StakingAccount.safe_unmarshal) _)
    fun accounts m => ?_
  refine .followed .optionalField fun stakeChangedAt m => ?_
  exact .pure trivial

theorem DexAccount.safe_readOwner (n : Nat) : Safe n DexAccount.readOwner := by
  refine .check_bind fun enough => ?_
  refine .field_bind (by omega) fun owner => ?_
  refine .field_bind (by omega) fun coinBalance => ?_
  refine .field_bind (by omega) fun tokenBalance => ?_
  exact .pure trivial

theorem DexAccount.safe_unmarshal (n : Nat) : Safe n DexAccount.unmarshal := by
  refine .check_bind fun enough => ?_
  refine .field_bind (by omega) fun coinPool => ?_
  refine .field_bind (by omega) fun tokenPool => ?_
  refine .field_bind (by omega) fun tokenPrice => ?_
  refine .field_bind (by omega) fun tokenAddress => ?_
  refine .bind (safe_readCount (by omega)) fun detailsCount m bounded => ?_
  refine .followed (safe_times DexAccount.safe_readOwner _) fun owners m => ?_
  exact .pure trivial

theorem safe_unmarshalDexAccounts (n : Nat) : Safe n unmarshalDexAccounts := by
  refine .check_bind fun enough => ?_
  refine .bind (safe_readCount enough) fun accountCount m bounded => ?_
  refine .followed (safe_times (fun _ => safe_readEntry DexAccount.safe_unmarshal) _)
    fun pools m => ?_
  exact .pure trivial

end Safe

section ReadBack

theorem reads_int64 (v : Int64) : Reads readInt64 (getByteInt64 v) v := by
  have field : Reads readInt64 _ _ := Reads.field (getByteInt64_length v)
  rwa [getInt64FromByte_getByteInt64] at field

theorem reads_address (a : AddressBytes) : Reads readAddress a.getBytes a := by
  have field : Reads readAddress _ _ := Reads.field a.getBytes_length
  rwa [addressOfBytes_getBytes] at field

theorem reads_hash (h : Hash) : Reads readHash h.getBytes h := by
  have field : Reads readHash _ _ := Reads.field h.getBytes_length
  rwa [hashOfBytes_getBytes] at field

theorem reads_byte (b : UInt8) : Reads readByte [b] b := Reads.field rfl

theorem toInt_ofNat_length {k : Nat} (fits : k < 2 ^ 63) : (Int64.ofNat k).toInt = k :=
  Int64.toInt_ofNat_of_lt fits

theorem readCount_append {k reserve width : Nat} {rest : Bytes} (fits : k < 2 ^ 63)
    (positive : 0 < width) (room : k * width + reserve ≤ rest.length) :
    readCount reserve width (getByteInt64 (Int64.ofNat k) ++ rest) = .value k rest := by
  have value := toInt_ofNat_length fits
  have bounded : k ≤ (rest.length - reserve) / width := by
    rw [Nat.le_div_iff_mul_le positive]
    omega
  rw [readCount, bind_of_value (reads_int64 (Int64.ofNat k) rest),
    bind_of_value (check_of_holds ⟨by omega, by omega⟩), value, Int.toNat_natCast]
  rfl

section Counted
variable (fits : ds.length < 2 ^ 63) (positive : 0 < width)
  (wide : ∀ d ∈ ds, width ≤ (write d).length) (back : Reads (times ds.length r) (ds.flatMap write) as)
include fits positive wide back

theorem counted_append (ys : Bytes) :
    (readCount 0 width >>= fun k => times k r >>= next)
      (getByteInt64 (Int64.ofNat ds.length) ++ (ds.flatMap write ++ ys)) = next as ys := by
  have each := mul_le_length_flatMap wide
  have enough : ds.length * width + 0 ≤ (ds.flatMap write ++ ys).length := by
    rw [length_append]
    omega
  rw [bind_of_value (readCount_append fits positive enough), bind_of_value (back ys)]

theorem reads_counted {ys : Bytes} {c : γ} (following : Reads (next as) ys c) :
    Reads (readCount 0 width >>= fun k => times k r >>= next)
      (getByteInt64 (Int64.ofNat ds.length) ++ (ds.flatMap write ++ ys)) c := by
  intro rest
  rw [append_assoc, append_assoc, counted_append fits positive wide back]
  exact following rest

theorem reads_counted_last {f : List α → γ} :
    Reads (readCount 0 width >>= fun k => times k r >>= fun as => pure (f as))
      (getByteInt64 (Int64.ofNat ds.length) ++ ds.flatMap write) (f as) := by
  intro rest
  rw [append_assoc, counted_append fits positive wide back]
  rfl

end Counted

theorem reads_record {unmarshal : ByteReader α} {xs : Bytes} {a : α} (fits : xs.length < 2 ^ 32)
    (inside : Reads unmarshal xs a) : Reads (readRecord unmarshal) (bytesToLenAndBytes xs) a := by
  have four : (natToBytes 4 (xs.length % 2 ^ 32)).length = 4 := natToBytes_length _ _
  have lb : bytesToNat (natToBytes 4 (xs.length % 2 ^ 32)) = xs.length := by
    rw [bytesToNat_natToBytes, Nat.mod_eq_of_lt fits]
    exact Nat.mod_eq_of_lt fits
  refine .check_bind (fun more => ?_) (.bind (.field four) ?_)
  · rw [bytesToLenAndBytes, length_append, four]
    omega
  · rw [lb]
    exact .check_bind (fun more => Nat.le_add_right _ _) inside.framed

theorem reads_entry {unmarshal : ByteReader α} {marshal : δ → Bytes} {f : δ → α}
    {e : AddressBytes × δ} (fits : (marshal e.2).length < 2 ^ 32)
    (inside : Reads unmarshal (marshal e.2) (f e.2)) :
    Reads (readEntry unmarshal) (AccountsType.marshalEntry marshal e) (e.1, f e.2) := by
  refine .check_bind (fun more => ?_) ?_
  · rw [AccountsType.marshalEntry, length_append, getBytes_length]
    omega
  · exact .bind (reads_address e.1) (.bind_pure (reads_record fits inside))

theorem marshalEntry_wide (marshal : δ → Bytes) (e : AddressBytes × δ) :
    20 ≤ (AccountsType.marshalEntry marshal e).length := by
  rw [AccountsType.marshalEntry, length_append, getBytes_length]
  omega

namespace Account

theorem addresses_length (as : List AddressBytes) :
    (as.flatMap getBytes).length = as.length * 20 := by
  simp [length_flatMap]

theorem marshal_length (a : Account) :
    a.marshal.length = 158 + a.multiSignAddresses.length * 20 := by
  simp only [marshal, length_append, getByteInt64_length, getBytes_length,
    addresses_length, length_cons, length_nil]
  omega

theorem reads_none {ys : Bytes} {c : γ} (positive : 0 < width) (following : Reads (next []) ys c) :
    Reads (readCount 0 width >>= fun k => times k r >>= next) (getByteInt64 0 ++ ys) c := by
  have none : Reads (times ([] : List α).length r) (([] : List α).flatMap fun _ => []) [] :=
    fun _ => rfl
  have counted := reads_counted (by simp) positive (by simp) none following
  have zero : Int64.ofNat 0 = 0 := rfl
  rwa [flatMap_nil, nil_append, length_nil, zero] at counted

theorem reads_history : Reads readHistory (getByteInt64 0 ++ getByteInt64 0) ([], []) := by
  refine reads_none (by decide) (.check_bind (fun more => ?_) ?_)
  · rw [getByteInt64_length]
    omega
  · rw [← append_nil (getByteInt64 0)]
    exact reads_none (by decide) fun _ => rfl

theorem reads_counters (a : Account) : Reads readCounters
    (getByteInt64 a.sentCount ++ getByteInt64 a.receivedCount) (a.sentCount, a.receivedCount) :=
  .bind (reads_int64 _) (.bind_pure (reads_int64 _))

theorem reads_recovery (a : Account) : Reads readRecovery
    (a.recoveryCommit.getBytes ++ (a.recoveryPendingCommit.getBytes ++
      getByteInt64 a.recoveryPendingHeight))
    (a.recoveryCommit, a.recoveryPendingCommit, a.recoveryPendingHeight) :=
  .bind (reads_address _) (.bind (reads_address _) (.bind_pure (reads_int64 _)))

theorem reads_spares (a : Account) : Reads readSpares
    (a.spareCommit.getBytes ++ a.sparePendingCommit.getBytes)
    (a.spareCommit, a.sparePendingCommit) :=
  .bind (reads_address _) (.bind_pure (reads_address _))

theorem reads_marshal (a : Account) (fits : a.multiSignAddresses.length ≤ 255) :
    Reads unmarshal a.marshal a := by
  have cosigners : (UInt8.ofNat a.multiSignAddresses.length).toNat =
      a.multiSignAddresses.length := by
    rw [UInt8.toNat_ofNat']
    omega
  refine .check_bind (fun more => ?_) ?_
  · rw [marshal_length]
    omega
  refine .bind (reads_int64 _) (.bind (reads_address _) (.bind (reads_int64 _)
    (.bind (reads_byte _) (.bind (reads_byte _) ?_))))
  rw [cosigners]
  refine .check_bind (fun more => ?_) ?_
  · rw [length_append, addresses_length]
    omega
  refine .bind (.times_same fun b _ => reads_address b) ?_
  refine .bind (.optionally (by simp) reads_history) ?_
  refine .bind (.optionally (by simp) a.reads_counters) ?_
  refine .bind (.optionally (by simp) a.reads_recovery) ?_
  exact (Reads.optionally (by simp) a.reads_spares).bind_pure

end Account

namespace AccountsType

theorem reads_bind (e : Hash × RecoveryBind) : Reads readBind (marshalBind e) e :=
  .bind (reads_hash _) (.bind (reads_address _) (.bind (reads_hash _)
    (.bind_pure (reads_int64 _))))

theorem marshalBind_length (e : Hash × RecoveryBind) : (marshalBind e).length = 92 := by
  simp [marshalBind]

theorem unmarshal_marshal {accounts : List (AddressBytes × Account)}
    {binds : FinMap Hash RecoveryBind} {height : Int64} (fits : accounts.length < 2 ^ 63)
    (bindsFit : (binds.sortedWith id).length < 2 ^ 63)
    (cosigners : ∀ e ∈ accounts, e.2.multiSignAddresses.length ≤ 255) :
    unmarshal (marshal accounts binds height) =
      .value ⟨ofPairs accounts, ofPairs (binds.sortedWith id), height⟩ [] := by
  have entries : ∀ e ∈ accounts,
      Reads (readEntry Account.unmarshal) (marshalEntry Account.marshal e) e := by
    intro e member
    refine reads_entry (f := id) ?_ (e.2.reads_marshal (cosigners e member))
    have bound := cosigners e member
    rw [Account.marshal_length]
    omega
  rw [marshal]
  generalize binds.sortedWith id = bs at bindsFit
  have widths : (bs.flatMap marshalBind).length = bs.length * 92 := by
    simp [length_flatMap, marshalBind_length]
  have room : bs.length * 92 + 8 = (bs.flatMap marshalBind ++ getByteInt64 height).length := by
    rw [length_append, widths, getByteInt64_length]
  have left : 16 ≤ (getByteInt64 (Int64.ofNat bs.length) ++
      (bs.flatMap marshalBind ++ getByteInt64 height)).length := by
    rw [length_append, ← room, getByteInt64_length]
    omega
  have bindsBack : readBinds (getByteInt64 (Int64.ofNat bs.length) ++
      (bs.flatMap marshalBind ++ getByteInt64 height)) = .value bs (getByteInt64 height) := by
    rw [readBinds, bind_of_value (check_of_holds left),
      bind_of_value (readCount_append bindsFit (by decide) room.le)]
    exact Reads.times_same (fun e _ => reads_bind e) _
  rw [unmarshal, bind_of_value (check_of_holds ?_),
    counted_append fits (by decide) (fun e _ => marshalEntry_wide _ e) (Reads.times_same entries),
    bind_of_value ((optionally_of_le (le_trans (by decide) left)).trans bindsBack),
    bind_of_value (check_of_holds (getByteInt64_length height)),
    bind_of_value (reads_int64 height).all]
  · rfl
  · rw [length_append, length_append]
    omega

end AccountsType

namespace StakingAccount

theorem reads_triple (t : Int64 × Int64 × Int64) : Reads readTriple (marshalTriple t) t :=
  .bind (reads_int64 _) (.bind (reads_int64 _) (.bind_pure (reads_int64 _)))

theorem marshalTriple_length (t : Int64 × Int64 × Int64) : (marshalTriple t).length = 24 := by
  simp [marshalTriple]

theorem reads_detail (d : StakingDetail) : Reads readDetail (marshalDetail d) d := by
  refine .check_bind (fun more => ?_)
    (.bind_pure (reads_triple (d.amount, d.reward, d.lastUpdated)))
  rw [marshalDetail, marshalTriple_length]
  omega

theorem marshalDetails_wide (e : Int64 × List StakingDetail) : 16 ≤ (marshalDetails e).length := by
  simp only [marshalDetails, length_append, getByteInt64_length]
  omega

theorem reads_details (e : Int64 × List StakingDetail) (fits : e.2.length < 2 ^ 63) :
    Reads readDetails (marshalDetails e) e := by
  refine .check_bind (fun more => ?_) ?_
  · have wide := marshalDetails_wide e
    omega
  have details : Reads (times e.2.length readDetail) (e.2.flatMap marshalDetail) e.2 :=
    .times_same fun d _ => reads_detail d
  exact .bind (reads_int64 _) (reads_counted_last fits (by decide)
    (fun d _ => Nat.le_of_eq (marshalTriple_length _).symm) details)

/-- The record fits its length field, and the lists of locks run in parallel. -/
structure Storable (a : StakingAccount) : Prop where
  release : a.releasePerBlock.length = a.lockedAmount.length
  init : a.lockedInitBlock.length = a.lockedAmount.length
  record : a.marshal.length < 2 ^ 32

def restored (a : StakingAccount) : StakingAccount :=
  { a with stakingDetails := ofPairs (a.stakingDetails.sortedWith id) }

section Storable
variable {a : StakingAccount}

theorem Storable.locks_length (storable : a.Storable) :
    a.locks.length = a.lockedAmount.length := by
  simp [locks, storable.release, storable.init]

theorem Storable.lockedAmount (storable : a.Storable) :
    a.locks.map (fun t => t.1) = a.lockedAmount :=
  map_fst_zip (by simp [storable.release, storable.init])

theorem Storable.pairs (storable : a.Storable) :
    a.releasePerBlock.zip a.lockedInitBlock = a.locks.map snd :=
  (map_snd_zip (by simp [storable.release, storable.init])).symm

theorem Storable.releasePerBlock (storable : a.Storable) :
    a.locks.map (fun t => t.2.1) = a.releasePerBlock := by
  have first : (a.releasePerBlock.zip a.lockedInitBlock).map fst = a.releasePerBlock :=
    map_fst_zip (by rw [storable.release, storable.init])
  rwa [storable.pairs, List.map_map] at first

theorem Storable.lockedInitBlock (storable : a.Storable) :
    a.locks.map (fun t => t.2.2) = a.lockedInitBlock := by
  have second : (a.releasePerBlock.zip a.lockedInitBlock).map snd = a.lockedInitBlock :=
    map_snd_zip (by rw [storable.release, storable.init])
  rwa [storable.pairs, List.map_map] at second

theorem marshal_length (a : StakingAccount) : a.marshal.length = 129 +
    (a.locks.length * 24 + ((a.stakingDetails.sortedWith id).flatMap marshalDetails).length) := by
  have locks : (a.locks.flatMap marshalTriple).length = a.locks.length * 24 := by
    simp [length_flatMap, marshalTriple_length]
  simp only [marshal, length_append, getByteInt64_length, getBytes_length,
    Hash.getBytes_length, locks, length_cons, length_nil]
  omega

theorem Storable.details_count (storable : a.Storable) :
    (a.stakingDetails.sortedWith id).length < 2 ^ 32 := by
  have record := storable.record
  have each := mul_le_length_flatMap fun e (_ : e ∈ a.stakingDetails.sortedWith id) =>
    marshalDetails_wide e
  rw [marshal_length] at record
  omega

theorem Storable.details (storable : a.Storable) {e : Int64 × List StakingDetail}
    (member : e ∈ a.stakingDetails.sortedWith id) : e.2.length < 2 ^ 32 := by
  have record := storable.record
  have part : (marshalDetails e).length ≤
      ((a.stakingDetails.sortedWith id).flatMap marshalDetails).length := by
    rw [length_flatMap]
    exact List.single_le_sum (fun _ _ => Nat.zero_le _) _ (List.mem_map_of_mem member)
  have entries : (e.2.flatMap marshalDetail).length = e.2.length * 24 := by
    simp [length_flatMap, marshalDetail, marshalTriple_length]
  rw [marshalDetails, length_append, length_append, entries] at part
  rw [marshal_length] at record
  omega

end Storable

theorem reads_randCommit (a : StakingAccount) : Reads readRandCommit
    (a.randCommit.getBytes ++ getByteInt64 a.randCommitHeight)
    (a.randCommit, a.randCommitHeight) :=
  .bind (reads_hash _) (.bind_pure (reads_int64 _))

theorem reads_marshal {a : StakingAccount} (storable : a.Storable) :
    Reads unmarshal a.marshal a.restored := by
  have record := storable.record
  have flag : decide (0 < if a.operationalAccount then (1 : UInt8) else 0) =
      a.operationalAccount := by
    cases a.operationalAccount <;> decide
  have locks : Reads (times a.locks.length readTriple) (a.locks.flatMap marshalTriple) a.locks :=
    .times_same fun t _ => reads_triple t
  have details : Reads (times (a.stakingDetails.sortedWith id).length readDetails)
      ((a.stakingDetails.sortedWith id).flatMap marshalDetails) (a.stakingDetails.sortedWith id) :=
    .times_same fun e member => reads_details e (lt_trans (storable.details member) (by decide))
  refine .check_bind (fun more => ?_) ?_
  · rw [marshal_length]
    omega
  rw [marshal, ← storable.locks_length]
  refine .bind (reads_int64 _) (.bind (reads_int64 _) ?_)
  refine reads_counted (by rw [marshal_length] at record; omega) (by decide)
    (fun t _ => (marshalTriple_length t).ge) locks ?_
  refine .check_bind (fun more => by simp; omega) ?_
  refine .bind (reads_address _) (.bind (reads_address _) (.bind (reads_byte _) ?_))
  refine reads_counted (lt_trans storable.details_count (by decide)) (by decide)
    (fun e _ => marshalDetails_wide e) details ?_
  rw [storable.lockedAmount, storable.releasePerBlock, storable.lockedInitBlock, flag]
  refine .bind (.optionally (by simp) (reads_int64 _)) ?_
  refine .bind (.optionally (by simp) (reads_int64 _)) ?_
  exact (Reads.optionally (by simp) a.reads_randCommit).bind_pure

end StakingAccount

theorem StakingAccountsType.unmarshal_marshal {accounts : List (AddressBytes × StakingAccount)}
    {stakeChangedAt : Int64} (fits : accounts.length < 2 ^ 63)
    (storable : ∀ e ∈ accounts, e.2.Storable) :
    unmarshal (marshal accounts stakeChangedAt) =
      .value ⟨ofPairs (accounts.map fun e => (e.1, e.2.restored)), stakeChangedAt⟩ [] := by
  have entries : Reads (times accounts.length (readEntry StakingAccount.unmarshal))
      (accounts.flatMap (AccountsType.marshalEntry StakingAccount.marshal))
      (accounts.map fun e => (e.1, e.2.restored)) :=
    .times fun e member => reads_entry (storable e member).record
      (StakingAccount.reads_marshal (storable e member))
  have enough : 8 ≤ (marshal accounts stakeChangedAt).length := by
    rw [marshal, length_append, getByteInt64_length]
    omega
  have stamp : 8 ≤ (getByteInt64 stakeChangedAt).length := (getByteInt64_length _).ge
  rw [unmarshal, bind_of_value (check_of_holds enough), marshal,
    counted_append fits (by decide) (fun e _ => marshalEntry_wide _ e) entries,
    bind_of_value ((optionally_of_le stamp).trans (reads_int64 stakeChangedAt).all)]
  rfl

/-- What comes back: the owners are in the order they were written in. -/
def WrittenPool.restored (p : WrittenPool) : DexAccount :=
  { p.account with balances := ofPairs p.owners }

theorem DexAccount.marshalOwner_length (e : AddressBytes × CoinTokenDetails) :
    (marshalOwner e).length = 36 := by
  simp [marshalOwner]

theorem DexAccount.reads_owner (e : AddressBytes × CoinTokenDetails) :
    Reads readOwner (marshalOwner e) e := by
  refine .check_bind (fun more => ?_)
    (.bind (reads_address _) (.bind (reads_int64 _) (.bind_pure (reads_int64 _))))
  rw [marshalOwner_length]
  omega

theorem WrittenPool.marshal_length (p : WrittenPool) :
    p.marshal.length = 52 + p.owners.length * 36 := by
  have owners : (p.owners.flatMap DexAccount.marshalOwner).length = p.owners.length * 36 := by
    simp [length_flatMap, DexAccount.marshalOwner_length]
  simp only [WrittenPool.marshal, DexAccount.marshal, length_append, getByteInt64_length,
    getBytes_length, owners]
  omega

theorem WrittenPool.reads_marshal {p : WrittenPool} (fits : p.marshal.length < 2 ^ 32) :
    Reads DexAccount.unmarshal p.marshal p.restored := by
  rw [marshal_length] at fits
  have owners : Reads (times p.owners.length DexAccount.readOwner)
      (p.owners.flatMap DexAccount.marshalOwner) p.owners :=
    .times_same fun e _ => DexAccount.reads_owner e
  refine .check_bind (fun more => ?_) ?_
  · rw [marshal_length]
    omega
  refine .bind (reads_int64 _) (.bind (reads_int64 _) (.bind (reads_int64 _)
    (.bind (reads_address _) ?_)))
  exact reads_counted_last (by omega) (by decide)
    (fun e _ => (DexAccount.marshalOwner_length e).ge) owners

theorem unmarshalDexAccounts_marshal {pools : List (AddressBytes × WrittenPool)}
    (fits : pools.length < 2 ^ 63) (records : ∀ e ∈ pools, e.2.marshal.length < 2 ^ 32) :
    unmarshalDexAccounts (marshalDexAccounts pools) =
      .value (ofPairs (pools.map fun e => (e.1, e.2.restored))) [] := by
  have entries : Reads (times pools.length (readEntry DexAccount.unmarshal))
      (pools.flatMap (AccountsType.marshalEntry WrittenPool.marshal))
      (pools.map fun e => (e.1, e.2.restored)) :=
    .times fun e member => reads_entry (records e member)
      (WrittenPool.reads_marshal (records e member))
  have whole : Reads unmarshalDexAccounts (marshalDexAccounts pools)
      (ofPairs (pools.map fun e => (e.1, e.2.restored))) := by
    refine .check_bind (fun more => ?_) (reads_counted_last fits (by decide)
      (fun e _ => marshalEntry_wide _ e) entries)
    rw [marshalDexAccounts, length_append, getByteInt64_length]
    omega
  exact whole.all

end ReadBack

section Stored
variable {db : KeyValues} {h : Int64} {p q rest b : Bytes}

theorem lookup_raise {key : Bytes} (different : key ≠ storedHeightMetaKey p) :
    (KeyValues.raiseLastStoredHeightMeta db p h).lookup key = db.lookup key := by
  unfold KeyValues.raiseLastStoredHeightMeta
  split
  · split
    · rfl
    · exact lookup_insert_ne different
  · exact lookup_insert_ne different

theorem lookup_storeWhole_other {current : Int64} (width : p.length = q.length)
    (different : p ≠ q) :
    (storeWhole q db current h b).lookup (p ++ rest) = db.lookup (p ++ rest) := by
  have other : ∀ height, p ++ rest ≠ snapshotKey q height := fun _ => ne_of_leading width different
  rw [storeWhole, lookup_raise (ne_of_leading width different), lookup_insert_ne (other _)]

theorem lookup_storeWhole {current : Int64} (nonneg : 0 ≤ h) :
    (storeWhole p db current h b).lookup (snapshotKey p h) = some b := by
  rw [storeWhole, if_neg (Int64.not_lt.mpr nonneg), lookup_raise (snapshotKey_ne_meta p h),
    lookup_insert]

private theorem foldl_insert_other {κ : Type} {key : Bytes} {keys : κ → Bytes} {values : κ → Bytes}
    {is : List κ} (different : ∀ i ∈ is, key ≠ keys i) :
    (is.foldl (fun db i => db.insert (keys i) (values i)) db).lookup key = db.lookup key := by
  induction is generalizing db with
  | nil => rfl
  | cons i is ih =>
    rw [List.forall_mem_cons] at different
    rw [List.foldl_cons, ih different.2, lookup_insert_ne different.1]

theorem lookup_storeStaking_other {shards : UInt8 → Bytes} (width : p.length = 2)
    (different : p ≠ stakingAccountsDBPrefix) :
    (storeStakingAccounts db h shards).lookup (p ++ rest) = db.lookup (p ++ rest) := by
  have other : ∀ tail, p ++ rest ≠ snapshotKey stakingAccountsDBPrefix h ++ tail := by
    intro tail
    rw [snapshotKey, append_assoc]
    exact ne_of_leading width different
  have notManifest : p ++ rest ≠ stakingCheckpointManifestKey h := other _
  rw [storeStakingAccounts, lookup_raise (ne_of_leading width different),
    lookup_insert_ne notManifest]
  exact foldl_insert_other fun i _ => other _

theorem stakingShardKey_inj {i j : UInt8} : stakingShardKey h i = stakingShardKey h j ↔ i = j := by
  rw [stakingShardKey, stakingShardKey, append_cancel_left_eq, List.cons.injEq, eq_self,
    and_true]

theorem lookup_storeStaking {shards : UInt8 → Bytes} (i : UInt8) :
    (storeStakingAccounts db h shards).lookup (stakingShardKey h i) = some (shards i) := by
  have notMeta : stakingShardKey h i ≠ storedHeightMetaKey stakingAccountsDBPrefix := by
    intro same
    have width := congrArg length same
    simp [stakingShardKey, storedHeightMetaKey, stakingAccountsDBPrefix] at width
  have notManifest : stakingShardKey h i ≠ stakingCheckpointManifestKey h := by
    intro same
    have width := congrArg length same
    simp [stakingShardKey, stakingCheckpointManifestKey] at width
  have written : ∀ (is : List Nat) (db : KeyValues), i.toNat ∈ is →
      (is.foldl (fun db j => db.insert (stakingShardKey h (UInt8.ofNat j))
        (shards (UInt8.ofNat j))) db).lookup (stakingShardKey h i) = some (shards i) := by
    intro is
    induction is using reverseRecOn with
    | nil =>
      intro db member
      cases member
    | append_singleton is j ih =>
      intro db member
      rw [foldl_append, List.foldl_cons, foldl_nil]
      by_cases same : i = UInt8.ofNat j
      · rw [same, lookup_insert]
      · rw [lookup_insert_ne (fun keys => same (stakingShardKey_inj.mp keys))]
        refine ih db ?_
        rcases List.mem_append.mp member with inside | last
        · exact inside
        · rw [← List.mem_singleton.mp last, UInt8.ofNat_toNat] at same
          exact absurd rfl same
  rw [storeStakingAccounts, lookup_raise notMeta, lookup_insert_ne notManifest,
    written _ _ (List.mem_range.mpr i.toNat_lt)]

variable {snapshot : Snapshot}

theorem loadAccounts_storeState (nonneg : 0 ≤ h) :
    loadAccounts (storeState db h snapshot) h =
      (AccountsType.unmarshal snapshot.accounts).toOption := by
  have found : (storeState db h snapshot).lookup (snapshotKey accountsDBPrefix h) =
      some snapshot.accounts := by
    have other : snapshotKey accountsDBPrefix h ≠ stateCommitKey h :=
      ne_of_leading rfl (by decide)
    rw [storeState, lookup_insert_ne other, storeDexAccounts, snapshotKey,
      lookup_storeWhole_other (p := accountsDBPrefix) (q := dexAccountsDBPrefix) rfl (by decide),
      lookup_storeStaking_other rfl (by decide)]
    exact lookup_storeWhole nonneg
  rw [loadAccounts, found]
  rfl

theorem loadDexAccounts_storeState (nonneg : 0 ≤ h) :
    loadDexAccounts (storeState db h snapshot) h =
      (unmarshalDexAccounts snapshot.dex).toOption := by
  have found : (storeState db h snapshot).lookup (snapshotKey dexAccountsDBPrefix h) =
      some snapshot.dex := by
    have other : snapshotKey dexAccountsDBPrefix h ≠ stateCommitKey h :=
      ne_of_leading rfl (by decide)
    rw [storeState, lookup_insert_ne other]
    exact lookup_storeWhole nonneg
  rw [loadDexAccounts, found]
  rfl

theorem loadStakingAccounts_storeState {shards : Nat → StakingAccountsType}
    (decoded : ∀ i < 256, (StakingAccountsType.unmarshal
      (snapshot.shards (UInt8.ofNat i))).toOption = some (shards i)) :
    loadStakingAccounts (storeState db h snapshot) h = some ((List.range 256).map shards) := by
  have found : ∀ i, (storeState db h snapshot).lookup (stakingShardKey h i) =
      some (snapshot.shards i) := by
    intro i
    have other : stakingShardKey h i ≠ stateCommitKey h := by
      rw [stakingShardKey, snapshotKey, append_assoc]
      exact ne_of_leading rfl (by decide)
    have atShard : stakingShardKey h i =
        stakingAccountsDBPrefix ++ (getByteInt64 h ++ [i]) := append_assoc _ _ _
    rw [storeState, lookup_insert_ne other, storeDexAccounts, atShard,
      lookup_storeWhole_other (p := stakingAccountsDBPrefix) (q := dexAccountsDBPrefix) rfl
        (by decide), ← atShard, lookup_storeStaking]
  have each : ∀ is : List Nat, (∀ i ∈ is, i < 256) →
      is.mapM (fun i => ((storeState db h snapshot).lookup
        (stakingShardKey h (UInt8.ofNat i))).bind fun b =>
          (StakingAccountsType.unmarshal b).toOption) = some (is.map shards) := by
    intro is
    induction is with
    | nil => intro _; rfl
    | cons i is ih =>
      intro small
      rw [List.forall_mem_cons] at small
      rw [mapM_cons, found, Option.bind_some, decoded i small.1, ih small.2]
      rfl
  exact each _ fun i member => List.mem_range.mp member

end Stored

end QwidNode.Source
