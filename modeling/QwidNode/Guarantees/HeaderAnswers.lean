import QwidNode.Source.Sync

/-!
# Header batches answer requests one to one

A history lists the header requests sent and the batches received, from any peers at any times.
Every accepted batch can be given a request of its own: one that was sent before to the same peer,
is alive, covers the batch, and decides whether the batch is treated as a fork answer.
-/
namespace QwidNode.Guarantees.HeaderAnswers
open Lib Source List AList Option Function Prod

inductive HeaderEvent where
  | sent (addr : PeerAddr) (r : HeaderRequest)
  | received (addr : PeerAddr) (now : Int) (first last : Int64)

def step (pending : PendingHeaderRequests) : HeaderEvent → PendingHeaderRequests
  | .sent addr r => pending.add addr r
  | .received addr now first last => (pending.take addr now first last).2

def pendingAt (events : List HeaderEvent) (n : Nat) : PendingHeaderRequests :=
  (events.take n).foldl step ∅

def AcceptedAt (events : List HeaderEvent) (i : Nat) (addr : PeerAddr) (now : Int)
    (first last : Int64) (fork : Bool) : Prop :=
  events[i]? = some (.received addr now first last) ∧
    ((pendingAt events i).take addr now first last).1 = some fork

def Answers (events : List HeaderEvent) (i j : Nat) (addr : PeerAddr) (now : Int)
    (first last : Int64) (fork : Bool) : Prop :=
  j < i ∧ ∃ r, events[j]? = some (.sent addr r) ∧ now - r.at_ ≤ headerRequestTTL ∧
    r.fromHeight ≤ first ∧ last ≤ r.toHeight ∧ r.fork = fork

section Pick
variable {now : Int} {first last : Int64} {requests : List HeaderRequest}

theorem covers_iff {r : HeaderRequest} : r.covers now first last = true ↔
    now - r.at_ ≤ headerRequestTTL ∧ r.fromHeight ≤ first ∧ last ≤ r.toHeight := by
  simp [HeaderRequest.covers, HeaderRequest.expired, Int64.not_lt, and_assoc]

theorem pickHeaderRequest_spec {p : HeaderRequest × Nat}
    (picked : pickHeaderRequest now first last requests = some p) :
    requests[p.2]? = some p.1 ∧ p.1.covers now first last = true := by
  rw [← mem_zipIdx_iff_getElem?]
  -- whatever the loop has picked is an entry it has looked at
  refine foldlRecOn requests.zipIdx _ (motive := fun pick => ∀ p, pick = some p →
    p ∈ requests.zipIdx ∧ p.1.covers now first last = true) (fun _ eq => by cases eq) ?_ p picked
  intro pick good next inside p eq
  split at eq
  · rename_i covered
    have new : some next = some p → p ∈ requests.zipIdx ∧ p.1.covers now first last = true := by
      rintro ⟨⟩
      exact ⟨inside, covered⟩
    split at eq
    · exact new eq
    · split at eq
      · exact new eq
      · exact good p eq
  · exact good p eq

theorem filter_fst_zipIdx {α : Type} (q : α → Bool) (l : List α) (start : Nat) :
    ((l.zipIdx start).filter fun p => q p.1).map fst = l.filter q := by
  conv_rhs => rw [← zipIdx_map_fst start l, List.filter_map]
  rfl

theorem filter_zipIdx {α : Type} (q : α → Bool) (l : List α) (start k : Nat) :
    ((l.zipIdx start).filter fun p => !(some (start + k) == some p.2) && q p.1).map fst =
      (l.eraseIdx k).filter q := by
  induction l generalizing start k with
  | nil => rfl
  | cons a l ih =>
    rw [zipIdx_cons]
    cases k with
    | zero =>
      have others : (l.zipIdx (start + 1)).filter (fun p => !(some (start + 0) == some p.2) && q p.1) =
          (l.zipIdx (start + 1)).filter fun p => q p.1 := by
        refine List.filter_congr fun p member => ?_
        have above := le_snd_of_mem_zipIdx member
        have apart : start ≠ p.2 := by omega
        simp [apart]
      rw [List.filter_cons_of_neg (by simp), others, filter_fst_zipIdx, eraseIdx_cons_zero]
    | succ k =>
      have rest := ih (start + 1) k
      rw [Nat.add_right_comm, Nat.add_assoc] at rest
      rw [eraseIdx_cons_succ]
      by_cases keep : q a = true
      · rw [List.filter_cons_of_pos (by simpa using keep), List.map_cons, rest,
          List.filter_cons_of_pos keep]
      · rw [List.filter_cons_of_neg (by simpa using keep), rest, List.filter_cons_of_neg keep]

theorem takeHeaderRequest_spec (now : Int) (first last : Int64) (requests : List HeaderRequest) :
    (∃ k r, requests[k]? = some r ∧ r.covers now first last = true ∧
      takeHeaderRequest now first last requests =
        (some r.fork, (requests.eraseIdx k).filter fun r => !r.expired now)) ∨
    takeHeaderRequest now first last requests =
      (none, requests.filter fun r => !r.expired now) := by
  rw [takeHeaderRequest]
  cases picked : pickHeaderRequest now first last requests with
  | none =>
    right
    have kept := filter_fst_zipIdx (fun r : HeaderRequest => !r.expired now) requests 0
    exact congrArg (Prod.mk _) kept
  | some p =>
    left
    obtain ⟨place, covered⟩ := pickHeaderRequest_spec picked
    refine ⟨p.2, p.1, place, covered, ?_⟩
    have kept := filter_zipIdx (fun r : HeaderRequest => !r.expired now) requests 0 p.2
    rw [Nat.zero_add] at kept
    exact congrArg (Prod.mk _) kept

end Pick

section Table
variable (pending : PendingHeaderRequests) (addr a : PeerAddr)

theorem of_insert (reqs : List HeaderRequest) :
    PendingHeaderRequests.of (pending.insert addr reqs) a = if a = addr then reqs else pending.of a := by
  by_cases same : a = addr
  · rw [if_pos same, same, PendingHeaderRequests.of, lookup_insert, getD_some]
  · rw [if_neg same, PendingHeaderRequests.of, lookup_insert_ne same, PendingHeaderRequests.of]

theorem of_take (now : Int) (first last : Int64) :
    (pending.take addr now first last).2.of a =
      if a = addr then (takeHeaderRequest now first last (pending.of addr)).2 else pending.of a := by
  rw [PendingHeaderRequests.take]
  dsimp only
  split
  · rename_i empty
    by_cases same : a = addr
    · rw [if_pos same, same, List.isEmpty_iff.mp empty, PendingHeaderRequests.of, lookup_erase]
      rfl
    · rw [if_neg same, PendingHeaderRequests.of, lookup_erase_ne same, PendingHeaderRequests.of]
  · exact of_insert pending addr a _

end Table

theorem map_newestOutstanding {α β : Type} (f : α → β) (l : List α) :
    (newestOutstanding l).map f = newestOutstanding (l.map f) := by
  rw [newestOutstanding, newestOutstanding, length_map]
  split
  · rw [map_drop]
  · rfl

theorem newestOutstanding_length {α : Type} (l : List α) :
    (newestOutstanding l).length ≤ maxOutstandingHeaderRequests := by
  rw [newestOutstanding]
  split
  · rw [length_drop]
    omega
  · omega

theorem newestOutstanding_sublist {α : Type} (l : List α) : (newestOutstanding l).Sublist l := by
  rw [newestOutstanding]
  split
  · exact drop_sublist _ _
  · exact List.Sublist.refl _

variable {events : List HeaderEvent} {n : Nat}

/-- Requests with the places at which they were sent, for every peer. -/
abbrev Tags := PeerAddr → List (Nat × HeaderRequest)

variable {answered answered' : Nat → Nat} {tags : Tags} {addr : PeerAddr}

/-- After `n` events every pending request has its own place in the history, and so has every
answered one. -/
structure Matched (events : List HeaderEvent) (n : Nat) (answered : Nat → Nat) (tags : Tags) :
    Prop where
  pending : ∀ addr, (tags addr).map snd = (pendingAt events n).of addr
  few : ∀ addr, (tags addr).length ≤ maxOutstandingHeaderRequests
  distinct : ∀ addr, ((tags addr).map fst).Nodup
  sent : ∀ addr, ∀ p ∈ tags addr, p.1 < n ∧ events[p.1]? = some (.sent addr p.2)
  answers : ∀ ⦃i addr now first last fork⦄, i < n → AcceptedAt events i addr now first last fork →
    Answers events i (answered i) addr now first last fork ∧ ∀ p ∈ tags addr, p.1 ≠ answered i
  apart : ∀ ⦃i addr now first last fork i' addr' now' first' last' fork'⦄, i < i' → i' < n →
    AcceptedAt events i addr now first last fork →
    AcceptedAt events i' addr' now' first' last' fork' → answered i ≠ answered i'

theorem pendingAt_succ {event : HeaderEvent} (here : events[n]? = some event) :
    pendingAt events (n + 1) = step (pendingAt events n) event := by
  rw [pendingAt, take_add_one, here, foldl_append]
  rfl

section
variable (matched : Matched events n answered tags)
include matched

theorem Matched.update {event : HeaderEvent} {left fresh : List (Nat × HeaderRequest)}
    (here : events[n]? = some event)
    (others : ∀ a ≠ addr, (step (pendingAt events n) event).of a = (pendingAt events n).of a)
    (pending : left.map snd = (step (pendingAt events n) event).of addr)
    (few : left.length ≤ maxOutstandingHeaderRequests) (kept : left.Sublist (tags addr ++ fresh))
    (sends : fresh = [] ∨ ∃ r, fresh = [(n, r)] ∧ event = .sent addr r)
    (before : ∀ i < n, answered' i = answered i)
    (new : ∀ ⦃a now first last fork⦄, AcceptedAt events n a now first last fork →
      a = addr ∧ (∃ r, (answered' n, r) ∈ tags a ∧ r.covers now first last = true ∧ r.fork = fork) ∧
        ∀ p ∈ left, p.1 ≠ answered' n) :
    Matched events (n + 1) answered' (Function.update tags addr left) := by
  have of_fresh {p : Nat × HeaderRequest} (member : p ∈ fresh) :
      p.1 = n ∧ event = .sent addr p.2 := by
    rcases sends with rfl | ⟨r, rfl, sent⟩
    · cases member
    · rw [List.mem_singleton.mp member]
      exact ⟨rfl, sent⟩
  have of_kept {a : PeerAddr} {p : Nat × HeaderRequest}
      (member : p ∈ Function.update tags addr left a) :
      p ∈ tags a ∨ p.1 = n ∧ event = .sent a p.2 := by
    by_cases same : a = addr
    · subst same
      rw [update_self] at member
      exact (List.mem_append.mp (kept.subset member)).imp_right of_fresh
    · rw [update_of_ne same] at member
      exact .inl member
  have answer_at {i a now first last fork} (early : i < n)
      (accepted : AcceptedAt events i a now first last fork) :
      Answers events i (answered' i) a now first last fork := by
    rw [before i early]
    exact (matched.answers early accepted).1
  refine ⟨fun a => ?_, fun a => ?_, fun a => ?_, fun a p member => ?_, ?_, ?_⟩
  · rw [pendingAt_succ here]
    by_cases same : a = addr
    · rw [same, update_self, pending]
    · rw [update_of_ne same, others a same, matched.pending]
  · by_cases same : a = addr
    · rwa [same, update_self]
    · rw [update_of_ne same]
      exact matched.few a
  · by_cases same : a = addr
    · rw [same, update_self]
      refine List.Nodup.sublist (kept.map fst) ?_
      rw [map_append, nodup_append]
      refine ⟨matched.distinct addr, ?_, fun j old j' added eq => ?_⟩
      · rcases sends with rfl | ⟨r, rfl, -⟩ <;> simp
      · obtain ⟨p, member, rfl⟩ := List.mem_map.mp old
        obtain ⟨p', member', rfl⟩ := List.mem_map.mp added
        have := (matched.sent addr p member).1
        have := (of_fresh member').1
        omega
    · rw [update_of_ne same]
      exact matched.distinct a
  · rcases of_kept member with old | ⟨place, rfl⟩
    · exact (matched.sent a p old).imp_left Nat.lt_succ_of_lt
    · rw [place]
      exact ⟨Nat.lt_succ_self n, here⟩
  · intro i a now first last fork early accepted
    rcases Nat.lt_succ_iff_lt_or_eq.mp early with earlier | rfl
    · refine ⟨answer_at earlier accepted, fun p member eq => ?_⟩
      have answer := matched.answers earlier accepted
      rw [before i earlier] at eq
      rcases of_kept member with old | ⟨place, -⟩
      · exact answer.2 p old eq
      · have := answer.1.1
        omega
    · obtain ⟨rfl, ⟨r, member, covered, forked⟩, free⟩ := new accepted
      obtain ⟨earlier, sent⟩ := matched.sent a _ member
      rw [covers_iff] at covered
      refine ⟨⟨earlier, r, sent, covered.1, covered.2.1, covered.2.2, forked⟩, ?_⟩
      rwa [update_self]
  · intro i a now first last fork i' a' now' first' last' fork' less early accepted accepted' eq
    rcases Nat.lt_succ_iff_lt_or_eq.mp early with earlier | rfl
    · rw [before i (less.trans earlier), before i' earlier] at eq
      exact matched.apart less earlier accepted accepted' eq
    · -- the request was pending until now, so no earlier batch can have had it
      obtain ⟨-, ⟨r, member, -, -⟩, -⟩ := new accepted'
      obtain ⟨-, r', sent', -⟩ := answer_at less accepted
      have sent := (matched.sent a' _ member).2
      rw [eq, sent] at sent'
      cases sent'
      exact (matched.answers less accepted).2 _ member (eq.symm.trans (before i less))

theorem Matched.add {r : HeaderRequest} (here : events[n]? = some (.sent addr r)) :
    Matched events (n + 1) answered
      (Function.update tags addr (newestOutstanding (tags addr ++ [(n, r)]))) := by
  refine matched.update here (fun a other => ?_) ?_ (newestOutstanding_length _)
    (newestOutstanding_sublist _) (.inr ⟨r, rfl, rfl⟩) (fun _ _ => rfl) ?_
  · rw [step, PendingHeaderRequests.add, of_insert, if_neg other]
  · rw [step, PendingHeaderRequests.add, of_insert, if_pos rfl, map_newestOutstanding,
      map_append, matched.pending]
    rfl
  · intro a now first last fork accepted
    rw [AcceptedAt, here] at accepted
    cases accepted.1

theorem Matched.receive {now : Int} {first last : Int64} {left : List (Nat × HeaderRequest)}
    {verdict : Option Bool} (here : events[n]? = some (.received addr now first last))
    (kept : left.Sublist (tags addr))
    (taken : takeHeaderRequest now first last ((pendingAt events n).of addr) = (verdict, left.map snd))
    (before : ∀ i < n, answered' i = answered i)
    (new : ∀ ⦃fork⦄, verdict = some fork →
      (∃ r, (answered' n, r) ∈ tags addr ∧ r.covers now first last = true ∧ r.fork = fork) ∧
        ∀ p ∈ left, p.1 ≠ answered' n) :
    Matched events (n + 1) answered' (Function.update tags addr left) := by
  refine matched.update here (fun a other => ?_) ?_ (kept.length_le.trans (matched.few addr))
    (kept.trans (sublist_append_left _ [])) (.inl rfl) before ?_
  · rw [step, of_take, if_neg other]
  · rw [step, of_take, if_pos rfl, taken]
  · rintro a now' first' last' fork ⟨received, accepted⟩
    rw [here] at received
    cases received
    refine ⟨rfl, new ?_⟩
    rw [← accepted, PendingHeaderRequests.take, taken]

theorem Matched.not_mem_eraseIdx {k : Nat} {taken p : Nat × HeaderRequest}
    (place : (tags addr)[k]? = some taken) (other : p ∈ (tags addr).eraseIdx k) :
    p.1 ≠ taken.1 := by
  obtain ⟨m, apart, found⟩ := List.mem_eraseIdx_iff_getElem?.mp other
  intro same
  have inside : m < ((tags addr).map fst).length := by
    rw [length_map]
    exact (List.getElem?_eq_some_iff.mp found).1
  refine apart ((List.getElem?_inj inside (matched.distinct addr)).mp ?_)
  rw [List.getElem?_map, List.getElem?_map, found, place, map_some, map_some, same]

end

theorem exists_matched (inside : n ≤ events.length) :
    ∃ answered tags, Matched events n answered tags := by
  induction n with
  | zero =>
    refine ⟨id, fun _ => [], fun addr => ?_, fun _ => Nat.zero_le _, fun _ => nodup_nil,
      fun _ p member => ?_, fun i _ _ _ _ _ early => ?_, fun _ _ _ _ _ _ i' _ _ _ _ _ _ early => ?_⟩
    · rw [pendingAt, take_zero, foldl_nil, PendingHeaderRequests.of, lookup_empty]
      rfl
    · cases member
    · exact absurd early (Nat.not_lt_zero i)
    · exact absurd early (Nat.not_lt_zero i')
  | succ n ih =>
    obtain ⟨answered, tags, matched⟩ := ih (Nat.le_of_succ_le inside)
    have here : events[n]? = some events[n] := List.getElem?_eq_getElem inside
    cases event : events[n] with
    | sent addr r => exact ⟨_, _, matched.add (here.trans (congrArg some event))⟩
    | received addr now first last =>
      rw [event] at here
      have alive (l : List (Nat × HeaderRequest)) : (l.filter fun p => !p.2.expired now).map snd =
          (l.map snd).filter fun r => !r.expired now := by
        rw [List.filter_map]
        rfl
      rcases takeHeaderRequest_spec now first last ((pendingAt events n).of addr) with
        ⟨k, r, place, covered, taken⟩ | refused
      · rw [← matched.pending, List.getElem?_map, map_eq_some_iff] at place
        obtain ⟨tag, tagged, rfl⟩ := place
        rw [← matched.pending, eraseIdx_map, ← alive, matched.pending] at taken
        refine ⟨Function.update answered n tag.1, _, matched.receive here
          (List.filter_sublist.trans (eraseIdx_sublist _ _)) taken
          (fun i early => update_of_ne early.ne _ _) fun fork accepted => ?_⟩
        rw [update_self]
        exact ⟨⟨tag.2, mem_of_getElem? tagged, covered, Option.some.inj accepted⟩,
          fun p member => matched.not_mem_eraseIdx tagged (List.mem_of_mem_filter member)⟩
      · rw [← matched.pending, ← alive, matched.pending] at refused
        exact ⟨answered, _, matched.receive here filter_sublist refused (fun _ _ => rfl)
          fun fork accepted => by cases accepted⟩

/-- In every history the accepted batches can be matched, one to one, with requests sent before to
the same peer that are alive and cover them; a batch is a fork answer exactly if its request was for
a fork; and no peer ever has more than four requests outstanding. -/
theorem batches_answer_requests (events : List HeaderEvent) :
    (∃ answered : Nat → Nat,
      (∀ i addr now first last fork, AcceptedAt events i addr now first last fork →
        Answers events i (answered i) addr now first last fork) ∧
      Set.InjOn answered
        {i | ∃ addr now first last fork, AcceptedAt events i addr now first last fork}) ∧
    ∀ n ≤ events.length, ∀ addr,
      ((pendingAt events n).of addr).length ≤ maxOutstandingHeaderRequests := by
  obtain ⟨answered, tags, matched⟩ := exists_matched (le_refl events.length)
  have within {i addr now first last fork} (accepted : AcceptedAt events i addr now first last fork) :
      i < events.length := (List.getElem?_eq_some_iff.mp accepted.1).1
  refine ⟨⟨answered, fun i addr now first last fork accepted =>
    (matched.answers (within accepted) accepted).1, ?_⟩, fun n inside addr => ?_⟩
  · rintro i ⟨_, _, _, _, _, accepted⟩ i' ⟨_, _, _, _, _, accepted'⟩ same
    rcases Nat.lt_trichotomy i i' with less | equal | greater
    · exact absurd same (matched.apart less (within accepted') accepted accepted')
    · exact equal
    · exact absurd same.symm (matched.apart greater (within accepted) accepted' accepted)
  · obtain ⟨_, tags, matched⟩ := exists_matched inside
    rw [← matched.pending, length_map]
    exact matched.few addr

end QwidNode.Guarantees.HeaderAnswers
