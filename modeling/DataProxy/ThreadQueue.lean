import DataProxy.HashSafety
import DataProxy.QueueDelivery

/-!
# The calls of `ConcurrentQueue::enqueue`

`inner_enqueue` looks up the producer of the calling thread and enqueues on it.  `ImplicitProducer` is
written for one thread that enqueues; that no second one comes to it is the work of the hash.  Here the
two are put together: any number of threads enqueue, end, and begin anew, while others dequeue.
-/

namespace DataProxy

open Function (update)

namespace ThreadQueue

/-- Where a thread stands in `inner_enqueue`. -/
inductive Call (P α : Type)
  | outside
  /-- In `get_or_add_implicit_producer`. -/
  | lookup (x : α)
  /-- In `ImplicitProducer::enqueue`. -/
  | enqueuing (p : P)
  deriving DecidableEq

inductive Action (I P C α : Type)
  | enqueue (i : I) (x : α)
  /-- The next access of a thread to the hash, and what an allocation gives. -/
  | access (i : I) (new : Option P)
  /-- Its next access to its sub-queue. -/
  | producer (i : I) (ok : Bool) (k : ℕ)
  | exit (i : I)
  | dequeue (c : C) (p : P)
  | consumer (c : C)

end ThreadQueue

open ThreadQueue in
/-- The hash, the queue, and the calls of the threads that enqueue. -/
structure ThreadQueue (I P C α : Type) where
  hash : ProducerHash I P
  queue : ConcurrentQueue.Queue P C α
  call : I → Call P α

namespace ThreadQueue

variable {I P C α : Type} [DecidableEq I] [DecidableEq P] [DecidableEq C]

def init (initialSize poolSize : ℕ) (allocated : P → Bool) : ThreadQueue I P C α where
  hash := .init initialSize
  queue := .init poolSize allocated
  call _ := .outside

variable (hashedId : I → ℕ) (poolSize : ℕ) (s : ThreadQueue I P C α)

/-- The lookup has returned: `nullptr`, or a producer. -/
def looked (i : I) (x : α) (h : ProducerHash I P) : Option P → Option (ThreadQueue I P C α)
  | none => some { s with hash := h, call := update s.call i .outside }
  | some p => (ConcurrentQueue.step poolSize s.queue (.enqueue p x)).map fun q =>
      { hash := h, queue := q, call := update s.call i (.enqueuing p) }

def step (s : ThreadQueue I P C α) : Action I P C α → Option (ThreadQueue I P C α)
  | .enqueue i x =>
    match s.call i with
    | .outside => (ProducerHash.step hashedId s.hash (.call i)).map fun h =>
        { s with hash := h, call := update s.call i (.lookup x) }
    | _ => none
  | .access i new =>
    (ProducerHash.step hashedId s.hash (.access i new)).bind fun h =>
      match s.call i with
      | .lookup x =>
        if h.pc i = .idle then s.looked poolSize i x h (s.hash.returning i)
        else some { s with hash := h }
      | _ => some { s with hash := h }
  | .producer i ok k =>
    match s.call i with
    | .enqueuing p => (ConcurrentQueue.step poolSize s.queue (.producer p ok k)).map fun q =>
        match (q.producer p).pc with
        | .idle => { s with queue := q, call := update s.call i .outside }
        | _ => { s with queue := q }
    | _ => none
  | .exit i =>
    match s.call i with
    | .outside => (ProducerHash.step hashedId s.hash (.exit i)).map fun h => { s with hash := h }
    | _ => none
  | .dequeue c p => (ConcurrentQueue.step poolSize s.queue (.dequeue c p)).map fun q =>
      { s with queue := q }
  | .consumer c => (ConcurrentQueue.step poolSize s.queue (.consumer c)).map fun q =>
      { s with queue := q }

/-- The condition on the schedule of the consumers. -/
def Near (s : ThreadQueue I P C α) : Action I P C α → Prop
  | .consumer c => ConcurrentQueue.Near s.queue (.consumer c)
  | _ => True

instance (s : ThreadQueue I P C α) (act : Action I P C α) : Decidable (Near s act) :=
  match act with
  | .consumer c => inferInstanceAs (Decidable (ConcurrentQueue.Near s.queue (.consumer c)))
  | .enqueue _ _ | .access _ _ | .producer _ _ _ | .exit _ | .dequeue _ _ => .isTrue trivial

/-- An element that was enqueued: the sub-queue and the index it has got there. -/
structure Sent (P α : Type) where
  producer : P
  index : ℕ
  element : α
  deriving DecidableEq

/-- What each thread has enqueued since it has begun. -/
def record (s : ThreadQueue I P C α) (act : Action I P C α) (sent : I → List (Sent P α)) :
    I → List (Sent P α) :=
  match act with
  | .producer i _ _ =>
    match s.call i with
    | .enqueuing p =>
      match (s.queue.producer p).pc with
      | .storeTail x => update sent i (sent i ++ [⟨p, (s.queue.producer p).published.length, x⟩])
      | _ => sent
    | _ => sent
  | .access i _ => if (s.hash.pc i).ends then update sent i [] else sent
  | _ => sent

/-! ### What the parts keep -/

section Parts

variable {hashedId poolSize} {allocated : P → Bool} {initialSize : ℕ}

/-- A step of the hash by another thread. -/
theorem access_other {s s' : ProducerHash I P} {i j : I} {new : Option P}
    (I₀ : s.Inv hashedId) (h : s.accessStep hashedId i new = some s') (hji : j ≠ i) :
    s'.pc j = s.pc j ∧ s'.listeners j = s.listeners j := by
  by_cases hexit : ∃ p, s.pc i = .exitInactive p
  · obtain ⟨p, hpc⟩ := hexit
    obtain ⟨hlist, -⟩ : ProducerHash.PcOk hashedId s i (.exitInactive p) := hpc ▸ I₀.place i
    simp only [ProducerHash.accessStep, hpc] at h
    cases h
    rw [ProducerHash.exitInactive_eq hlist]
    exact ⟨Function.update_of_ne hji .., rfl⟩
  · obtain ⟨q, l, hpc, hl, -⟩ := ProducerHash.access_move h fun p hp => hexit ⟨p, hp⟩
    rw [hpc, hl]
    exact ⟨Function.update_of_ne hji .., Function.update_of_ne hji ..⟩

omit [DecidableEq P] in
theorem notify_other {s : ProducerHash I P} {i j : I} (hst : s.Steady i) (hji : j ≠ i) :
    (s.notify i).pc j = s.pc j ∧ (s.notify i).listeners j = s.listeners j := by
  rcases hst with ⟨hlist, -⟩ | ⟨p, hlist, -⟩
  · rw [ProducerHash.notify_nil hlist]
    exact ⟨Function.update_of_ne hji .., rfl⟩
  · rw [ProducerHash.notify_singleton hlist]
    exact ⟨Function.update_of_ne hji .., Function.update_of_ne hji ..⟩

variable {q q' : ConcurrentQueue.Queue P C α} {p : P}

/-- A step of a consumer leaves the calls of `enqueue` and the elements alone. -/
theorem consumer_keeps (hq : ConcurrentQueue.Reached poolSize allocated q) {act : ConcurrentQueue.Action P C α}
    (hnear : ConcurrentQueue.Near q act) (hs : ConcurrentQueue.step poolSize q act = some q')
    (hact : (∃ c p, act = .dequeue c p) ∨ ∃ c, act = .consumer c) (p : P) :
    (q'.producer p).published = (q.producer p).published ∧
      (q'.producer p).pc = (q.producer p).pc := by
  obtain ⟨g, J⟩ := hq.inv
  obtain ⟨g', J'⟩ := J.next hnear hs
  unfold ConcurrentQueue.step at hs
  rw [if_neg (by simp [J.noFault])] at hs
  rcases hact with ⟨c, p', rfl⟩ | ⟨c, rfl⟩
  · simp only at hs
    split at hs
    · cases hs
      exact ⟨rfl, rfl⟩
    · cases hs
  · have hset : ∀ p' (R : ConcurrentQueue.ImplicitProducer α), R.published = (q.producer p').published →
        R.pc = (q.producer p').pc → (update q.producer p' R p).published = (q.producer p).published ∧
          (update q.producer p' R p).pc = (q.producer p).pc := by
      intro p' R hpub hpc
      by_cases hp : p = p'
      · subst hp
        rw [Function.update_self]
        exact ⟨hpub, hpc⟩
      · rw [Function.update_of_ne hp]
        exact ⟨rfl, rfl⟩
    cases ConcurrentQueue.consumerMove_of_step hs J'.noFault with
    | quiet _ _ _ _ same => exact ⟨(same p).1.published, (same p).2⟩
    | reserve p' v _ eq =>
      rw [eq]
      exact hset p' _ rfl rfl
    | claim p' m _ eq =>
      rw [eq]
      exact hset p' _ rfl rfl
    | giveBack p' m _ eq =>
      rw [eq]
      exact hset p' _ rfl rfl
    | finish _ _ _ _ _ _ same => exact ⟨(same p).1.published, (same p).2⟩

omit [DecidableEq C] in
/-- The call of `enqueue` on an idle sub-queue. -/
theorem enqueue_cases {x : α} (hs : q.enqueue p x = some q') : (q.producer p).pc = .idle ∧
    ∃ pc, q' = q.setProducer p { q.producer p with pc := pc } := by
  unfold ConcurrentQueue.Queue.enqueue at hs
  dsimp only at hs
  split at hs
  · rename_i hpc
    cases hs
    exact ⟨hpc, _, rfl⟩
  · cases hs

end Parts

/-! ### The invariant -/

/-- **No two threads enqueue on one sub-queue.** -/
structure Apart (hashedId : I → ℕ) (poolSize : ℕ) (allocated : P → Bool) (s : ThreadQueue I P C α)
    (sent : I → List (Sent P α)) : Prop where
  hash : s.hash.Inv hashedId
  queue : ConcurrentQueue.Reached poolSize allocated s.queue
  own : ∀ i p, s.call i = .enqueuing p → p ∈ s.hash.listeners i ∧ s.hash.pc i = .idle
  busy : ∀ p, (s.queue.producer p).pc ≠ .idle → ∃ i, s.call i = .enqueuing p
  mine : ∀ i, ∀ e ∈ sent i, s.hash.Own i e.producer ∧
    (s.queue.producer e.producer).published[e.index]? = some e.element
  sorted : ∀ i, (sent i).Pairwise fun e e' => e.index < e'.index

variable {hashedId poolSize} {allocated : P → Bool} {initialSize : ℕ} {s s' : ThreadQueue I P C α}
  {sent : I → List (Sent P α)} {i : I} {x : α} {p : P}

omit [DecidableEq I] in
theorem Apart.init : Apart hashedId poolSize allocated
    (.init initialSize poolSize allocated : ThreadQueue I P C α) fun _ => [] where
  hash := .init
  queue := .refl
  own := nofun
  busy _ h := absurd rfl h
  mine := nofun
  sorted _ := .nil

omit [DecidableEq I] in
/-- A step of the hash that leaves to every thread what it has. -/
theorem Apart.of_hash (H : Apart hashedId poolSize allocated s sent) {h : ProducerHash I P}
    {call : I → Call P α} {sent' : I → List (Sent P α)} (hh : h.Inv hashedId)
    (hcall : ∀ j p, call j = .enqueuing p ↔ s.call j = .enqueuing p)
    (hown : ∀ j p, s.call j = .enqueuing p → h.pc j = s.hash.pc j ∧ h.listeners j = s.hash.listeners j)
    (hsent : ∀ j, ∀ e ∈ sent' j, e ∈ sent j ∧ h.Own j e.producer)
    (hsorted : ∀ j, (sent' j).Pairwise fun e e' => e.index < e'.index) :
    Apart hashedId poolSize allocated { s with hash := h, call := call } sent' where
  hash := hh
  queue := H.queue
  own j p hj := by
    have hj' := (hcall j p).1 hj
    obtain ⟨hpc, hl⟩ := hown j p hj'
    show p ∈ h.listeners j ∧ h.pc j = .idle
    rw [hpc, hl]
    exact H.own j p hj'
  busy p hp := by
    obtain ⟨j, hj⟩ := H.busy p hp
    exact ⟨j, (hcall j p).2 hj⟩
  mine j e he := ⟨(hsent j e he).2, (H.mine j e (hsent j e he).1).2⟩
  sorted := hsorted

omit [DecidableEq P] [DecidableEq C] in
/-- A thread that is not in `ImplicitProducer::enqueue` goes elsewhere. -/
theorem call_update {c : Call P α} (hc : ∀ p, s.call i ≠ .enqueuing p) (hnew : ∀ p, c ≠ .enqueuing p)
    (j : I) (p : P) : update s.call i c j = .enqueuing p ↔ s.call j = .enqueuing p := by
  by_cases hji : j = i
  · subst hji
    rw [Function.update_self]
    exact ⟨fun h => absurd h (hnew p), fun h => absurd h (hc p)⟩
  · rw [Function.update_of_ne hji]

theorem Apart.enqueue (H : Apart hashedId poolSize allocated s sent)
    (hs : step hashedId poolSize s (.enqueue i x) = some s') :
    Apart hashedId poolSize allocated s' sent := by
  simp only [step] at hs
  split at hs
  · rename_i hc
    obtain ⟨h, hh, rfl⟩ := Option.map_eq_some_iff.1 hs
    have hkeep := H.hash.next hh
    simp only [ProducerHash.step] at hh
    split at hh
    · rename_i hpc
      cases hh
      refine H.of_hash hkeep ?_ ?_ (fun j e he => ⟨he, ?_⟩) H.sorted
      · exact call_update (fun p h => by rw [hc] at h; cases h) fun _ h => by cases h
      · intro j p hj
        have hji : j ≠ i := by
          rintro rfl
          rw [hc] at hj
          cases hj
        exact ⟨ProducerHash.goto_pc_of_ne hji, rfl⟩
      · exact (ProducerHash.own_goto (by rw [hpc]; rfl)).2 (H.mine j e he).1
    · cases hh
  · cases hs

theorem Apart.exit (H : Apart hashedId poolSize allocated s sent)
    (hs : step hashedId poolSize s (.exit i) = some s') :
    Apart hashedId poolSize allocated s' sent := by
  simp only [step] at hs
  split at hs
  · rename_i hc
    obtain ⟨h, hh, rfl⟩ := Option.map_eq_some_iff.1 hs
    have hkeep := H.hash.next hh
    simp only [ProducerHash.step] at hh
    split at hh
    · rename_i hpc
      cases hh
      have hst : ProducerHash.PcOk hashedId s.hash i .idle := hpc ▸ H.hash.place i
      refine H.of_hash hkeep (fun _ _ => Iff.rfl) ?_ (fun j e he => ⟨he, ?_⟩) H.sorted
      · intro j p hj
        have hji : j ≠ i := by
          rintro rfl
          rw [hc] at hj
          cases hj
        exact notify_other hst hji
      · exact (ProducerHash.own_notify hst hpc j e.producer).2 (H.mine j e he).1
    · cases hh
  · cases hs

/-- The history after an access to the hash: the thread keeps its producer until its end. -/
theorem Apart.sent_access (H : Apart hashedId poolSize allocated s sent) {h : ProducerHash I P}
    {new : Option P} (hh : s.hash.accessStep hashedId i new = some h) (j : I) (e : Sent P α)
    (he : e ∈ s.record (.access i new : Action I P C α) sent j) :
    e ∈ sent j ∧ h.Own j e.producer := by
  unfold record at he
  dsimp only at he
  split at he
  · rename_i hends
    by_cases hji : j = i
    · subst hji
      rw [Function.update_self] at he
      exact absurd he List.not_mem_nil
    · rw [Function.update_of_ne hji] at he
      refine ⟨he, ?_⟩
      have hexit : ∃ p, s.hash.pc i = .exitInactive p := by
        cases hpc : s.hash.pc i <;> rw [hpc] at hends <;> first | exact ⟨_, rfl⟩ | cases hends
      obtain ⟨p, hpc⟩ := hexit
      exact ProducerHash.own_exitInactive H.hash hpc hh hji (H.mine j e he).1
  · rename_i hends
    refine ⟨he, ProducerHash.own_access hh (fun p hpc => hends ?_) (H.mine j e he).1⟩
    rw [hpc]
    rfl

omit [DecidableEq P] [DecidableEq C] in
theorem sorted_access (hsorted : ∀ i, (sent i).Pairwise fun e e' => e.index < e'.index)
    {new : Option P} (j : I) :
    (s.record (.access i new : Action I P C α) sent j).Pairwise fun e e' => e.index < e'.index := by
  unfold record
  dsimp only
  split
  · by_cases hji : j = i
    · subst hji
      rw [Function.update_self]
      exact .nil
    · rw [Function.update_of_ne hji]
      exact hsorted j
  · exact hsorted j

omit [DecidableEq I] in
/-- A lookup gives its thread a sub-queue on which nobody enqueues. -/
theorem Apart.idle (H : Apart hashedId poolSize allocated s sent) (hc : s.call i = .lookup x)
    (hret : s.hash.returning i = some p) : (s.queue.producer p).pc = .idle := by
  by_contra hbusy
  obtain ⟨j, hj⟩ := H.busy p hbusy
  have hji := H.hash.owners.unique i j p (.inl (H.hash.returning hret)) (.inl (H.own j p hj).1)
  subst hji
  rw [hc] at hj
  cases hj

omit [DecidableEq C] in
/-- What a lookup returns its thread has from then on. -/
theorem returned_listeners {h : ProducerHash I P} {new : Option P} (I₀ : s.hash.Inv hashedId)
    (hret : s.hash.returning i = some p) (haccess : s.hash.accessStep hashedId i new = some h) :
    p ∈ h.listeners i := by
  have hmem := I₀.returning hret
  have hne : ∀ p', s.hash.pc i ≠ .exitInactive p' := by
    intro p' hpc
    unfold ProducerHash.returning at hret
    rw [hpc] at hret
    cases hret
  obtain ⟨_, l, -, hl, -⟩ := ProducerHash.access_move haccess hne
  rw [hl, Function.update_self]
  exact List.mem_append_right l hmem

/-- The call of `enqueue` on the sub-queue of the thread. -/
theorem Apart.begin (H : Apart hashedId poolSize allocated s sent)
    {pc : ConcurrentQueue.EnqueuePc α} (hout : ∀ p, s.call i ≠ .enqueuing p)
    (hidle : s.hash.pc i = .idle) (hlisten : p ∈ s.hash.listeners i)
    (hqueue : ConcurrentQueue.Reached poolSize allocated
      (s.queue.setProducer p { s.queue.producer p with pc := pc })) :
    Apart hashedId poolSize allocated
      { s with
        queue := s.queue.setProducer p { s.queue.producer p with pc := pc }
        call := update s.call i (.enqueuing p) } sent where
  hash := H.hash
  queue := hqueue
  own j p' hj := by
    have hj' : update s.call i (.enqueuing p) j = .enqueuing p' := hj
    by_cases hji : j = i
    · subst hji
      rw [Function.update_self] at hj'
      cases hj'
      exact ⟨hlisten, hidle⟩
    · rw [Function.update_of_ne hji] at hj'
      exact H.own j p' hj'
  busy p' hp' := by
    by_cases hp : p' = p
    · subst hp
      exact ⟨i, Function.update_self ..⟩
    · have hold : (s.queue.producer p').pc ≠ .idle := by
        intro hpc
        apply hp'
        show (update s.queue.producer p _ p').pc = _
        rwa [Function.update_of_ne hp]
      obtain ⟨j, hj⟩ := H.busy p' hold
      have hji : j ≠ i := by
        rintro rfl
        exact hout p' hj
      refine ⟨j, ?_⟩
      show update s.call i _ j = _
      rwa [Function.update_of_ne hji]
  mine j e he := by
    obtain ⟨hown, helem⟩ := H.mine j e he
    refine ⟨hown, ?_⟩
    show (update s.queue.producer p _ e.producer).published[e.index]? = _
    by_cases hp : e.producer = p
    · rw [hp] at helem ⊢
      rw [Function.update_self]
      exact helem
    · rw [Function.update_of_ne hp]
      exact helem
  sorted := H.sorted

theorem Apart.access (H : Apart hashedId poolSize allocated s sent) {new : Option P}
    (hs : step hashedId poolSize s (.access i new) = some s') :
    Apart hashedId poolSize allocated s' (s.record (.access i new) sent) := by
  simp only [step] at hs
  obtain ⟨h, hh, hs⟩ := Option.bind_eq_some_iff.1 hs
  have hkeep := H.hash.next hh
  have haccess : s.hash.accessStep hashedId i new = some h := hh
  have hout : ∀ p, s.call i ≠ .enqueuing p := by
    intro p hc
    rw [ProducerHash.accessStep, (H.own i p hc).2] at haccess
    cases haccess
  have hother : ∀ j p, s.call j = .enqueuing p →
      h.pc j = s.hash.pc j ∧ h.listeners j = s.hash.listeners j := by
    intro j p hj
    refine access_other H.hash haccess ?_
    rintro rfl
    exact hout p hj
  have hstay : Apart hashedId poolSize allocated { s with hash := h }
      (s.record (.access i new) sent) :=
    H.of_hash hkeep (fun _ _ => Iff.rfl) hother (H.sent_access haccess) (sorted_access H.sorted)
  cases hc : s.call i with
  | outside =>
    simp only [hc] at hs
    cases hs
    exact hstay
  | enqueuing p => exact absurd hc (hout p)
  | lookup x =>
    simp only [hc] at hs
    split at hs
    · rename_i hidle
      cases hret : s.hash.returning i with
      | none =>
        rw [hret] at hs
        cases hs
        have hcall := call_update (c := .outside) hout fun _ h => by cases h
        exact H.of_hash hkeep hcall hother (H.sent_access haccess) (sorted_access H.sorted)
      | some p =>
        rw [hret] at hs
        obtain ⟨q, hq, rfl⟩ := Option.map_eq_some_iff.1 hs
        obtain ⟨g, J⟩ := H.queue.inv
        have hnear : ConcurrentQueue.Near s.queue (.enqueue p x) := trivial
        have hqueue : ConcurrentQueue.Reached poolSize allocated q := .tail H.queue hnear hq
        unfold ConcurrentQueue.step at hq
        rw [if_neg (by simp [J.noFault])] at hq
        obtain ⟨-, pc, rfl⟩ := enqueue_cases hq
        exact hstay.begin hout hidle (returned_listeners H.hash hret haccess) hqueue
    · cases hs
      exact hstay

omit [DecidableEq I] in
/-- A step of the queue that adds nothing to the elements of any sub-queue. -/
theorem Apart.of_queue (H : Apart hashedId poolSize allocated s sent)
    {q : ConcurrentQueue.Queue P C α} {call : I → Call P α}
    (hq : ConcurrentQueue.Reached poolSize allocated q)
    (hcall : ∀ j p, call j = .enqueuing p → s.call j = .enqueuing p)
    (hbusy : ∀ p, (q.producer p).pc ≠ .idle → ∃ j, call j = .enqueuing p)
    (hpub : ∀ p, (q.producer p).published = (s.queue.producer p).published) :
    Apart hashedId poolSize allocated { s with queue := q, call := call } sent where
  hash := H.hash
  queue := hq
  own j p hj := H.own j p (hcall j p hj)
  busy := hbusy
  mine j e he := by
    obtain ⟨hown, helem⟩ := H.mine j e he
    refine ⟨hown, ?_⟩
    show (q.producer e.producer).published[e.index]? = _
    rw [hpub]
    exact helem
  sorted := H.sorted

omit [DecidableEq I] in
theorem Apart.consume (H : Apart hashedId poolSize allocated s sent)
    {act : ConcurrentQueue.Action P C α} {q : ConcurrentQueue.Queue P C α}
    (hnear : ConcurrentQueue.Near s.queue act)
    (hq : ConcurrentQueue.step poolSize s.queue act = some q)
    (hact : (∃ c p, act = .dequeue c p) ∨ ∃ c, act = .consumer c) :
    Apart hashedId poolSize allocated { s with queue := q } sent := by
  have hkeeps := consumer_keeps H.queue hnear hq hact
  refine H.of_queue (.tail H.queue hnear hq) (fun _ _ h => h) (fun p hp => ?_) fun p => (hkeeps p).1
  exact H.busy p (by rwa [← (hkeeps p).2])

omit [DecidableEq C] in
/-- The call of `i` after a step of its sub-queue. -/
theorem call_producer {q : ConcurrentQueue.Queue P C α} (hc : s.call i = .enqueuing p)
    (hpcs : ∀ p', p' ≠ p → (q.producer p').pc = (s.queue.producer p').pc)
    (hbusy : ∀ p, (s.queue.producer p).pc ≠ .idle → ∃ j, s.call j = .enqueuing p)
    (hs : (match (q.producer p).pc with
      | .idle => { s with queue := q, call := update s.call i .outside }
      | _ => { s with queue := q } : ThreadQueue I P C α) = s') :
    ∃ call, s' = { s with queue := q, call := call } ∧
      (∀ j p, call j = .enqueuing p → s.call j = .enqueuing p) ∧
      ∀ p, (q.producer p).pc ≠ .idle → ∃ j, call j = .enqueuing p := by
  split at hs
  · rename_i hidle
    refine ⟨_, hs.symm, fun j p' hj => ?_, fun p' hp' => ?_⟩
    · by_cases hji : j = i
      · subst hji
        rw [Function.update_self] at hj
        cases hj
      · rwa [Function.update_of_ne hji] at hj
    · have hp : p' ≠ p := by
        rintro rfl
        exact hp' hidle
      obtain ⟨j, hj⟩ := hbusy p' (by rwa [← hpcs p' hp])
      refine ⟨j, ?_⟩
      rw [Function.update_of_ne]
      · exact hj
      · rintro rfl
        rw [hc] at hj
        cases hj
        exact hp rfl
  · refine ⟨s.call, hs.symm, fun _ _ h => h, fun p' hp' => ?_⟩
    by_cases hp : p' = p
    · subst hp
      exact ⟨i, hc⟩
    · exact hbusy p' (by rwa [← hpcs p' hp])

/-- A sub-queue gets an element of the thread that has it. -/
theorem Apart.publish (H : Apart hashedId poolSize allocated s sent)
    {q : ConcurrentQueue.Queue P C α} {call : I → Call P α}
    (hq : ConcurrentQueue.Reached poolSize allocated q) (hmine : p ∈ s.hash.listeners i)
    (hself : (q.producer p).published = (s.queue.producer p).published ++ [x])
    (hrest : ∀ p', p' ≠ p → (q.producer p').published = (s.queue.producer p').published)
    (hcall : ∀ j p, call j = .enqueuing p → s.call j = .enqueuing p)
    (hbusy : ∀ p, (q.producer p).pc ≠ .idle → ∃ j, call j = .enqueuing p) :
    Apart hashedId poolSize allocated { s with queue := q, call := call }
      (update sent i (sent i ++ [⟨p, (s.queue.producer p).published.length, x⟩])) where
  hash := H.hash
  queue := hq
  own j p' hj := H.own j p' (hcall j p' hj)
  busy := hbusy
  mine j e he := by
    have hold : ∀ e ∈ sent j, s.hash.Own j e.producer ∧
        (q.producer e.producer).published[e.index]? = some e.element := by
      intro e he
      obtain ⟨hown, helem⟩ := H.mine j e he
      refine ⟨hown, ?_⟩
      by_cases hp : e.producer = p
      · rw [hp] at helem ⊢
        rw [hself, List.getElem?_append_left]
        · exact helem
        · exact (List.getElem?_eq_some_iff.1 helem).1
      · rw [hrest _ hp]
        exact helem
    by_cases hji : j = i
    · subst hji
      rw [Function.update_self, List.mem_append, List.mem_singleton] at he
      rcases he with he | rfl
      · exact hold e he
      · refine ⟨.inl hmine, ?_⟩
        show (q.producer p).published[(s.queue.producer p).published.length]? = some x
        rw [hself]
        exact List.getElem?_concat_length
    · rw [Function.update_of_ne hji] at he
      exact hold e he
  sorted j := by
    by_cases hji : j = i
    · subst hji
      rw [Function.update_self, List.pairwise_append]
      refine ⟨H.sorted j, List.pairwise_singleton .., fun e he e' he' => ?_⟩
      rw [List.mem_singleton] at he'
      subst he'
      -- what the thread has enqueued before is in the same sub-queue
      obtain ⟨hown, helem⟩ := H.mine j e he
      have hsame : e.producer = p := H.hash.own_one hown (.inl hmine)
      rw [hsame] at helem
      exact (List.getElem?_eq_some_iff.1 helem).1
    · rw [Function.update_of_ne hji]
      exact H.sorted j

theorem Apart.producer (H : Apart hashedId poolSize allocated s sent) {ok : Bool} {k : ℕ}
    (hs : step hashedId poolSize s (.producer i ok k) = some s') :
    Apart hashedId poolSize allocated s' (s.record (.producer i ok k) sent) := by
  simp only [step] at hs
  cases hc : s.call i with
  | outside | lookup =>
    simp only [hc] at hs
    cases hs
  | enqueuing p =>
    simp only [hc] at hs
    obtain ⟨q, hq, hs⟩ := Option.map_eq_some_iff.1 hs
    have hnear : ConcurrentQueue.Near s.queue (.producer p ok k) := trivial
    have hqueue : ConcurrentQueue.Reached poolSize allocated q := .tail H.queue hnear hq
    obtain ⟨g, J⟩ := H.queue.inv
    obtain ⟨g', J'⟩ := J.next hnear hq
    unfold ConcurrentQueue.step at hq
    rw [if_neg (by simp [J.noFault])] at hq
    cases ConcurrentQueue.producerMove_of_step hq J'.noFault with
    | quiet R hproducer _ _ hsame honward _ =>
      have hpcs : ∀ p', p' ≠ p → (q.producer p').pc = (s.queue.producer p').pc := by
        intro p' hp
        rw [hproducer, Function.update_of_ne hp]
      have hpub : ∀ p', (q.producer p').published = (s.queue.producer p').published := by
        intro p'
        rw [hproducer]
        by_cases hp : p' = p
        · rw [hp, Function.update_self, hsame.published]
        · rw [Function.update_of_ne hp]
      have hrecord : s.record (.producer i ok k : Action I P C α) sent = sent := by
        simp only [record, hc]
        split
        · rename_i x hpc
          exact absurd hpc (honward.2 x)
        · rfl
      obtain ⟨call, rfl, hcall, hbusy⟩ := call_producer hc hpcs H.busy hs
      rw [hrecord]
      exact H.of_queue hqueue hcall hbusy hpub
    | publish x hpc hq' =>
      have hpcs : ∀ p', p' ≠ p → (q.producer p').pc = (s.queue.producer p').pc := by
        intro p' hp
        rw [hq']
        show (update s.queue.producer p _ p').pc = _
        rw [Function.update_of_ne hp]
      have hself : (q.producer p).published = (s.queue.producer p).published ++ [x] := by
        rw [hq']
        show (update s.queue.producer p _ p).published = _
        rw [Function.update_self]
      have hrest : ∀ p', p' ≠ p → (q.producer p').published = (s.queue.producer p').published := by
        intro p' hp
        rw [hq']
        show (update s.queue.producer p _ p').published = _
        rw [Function.update_of_ne hp]
      have hrecord : s.record (.producer i ok k : Action I P C α) sent =
          update sent i (sent i ++ [⟨p, (s.queue.producer p).published.length, x⟩]) := by
        simp only [record, hc, hpc]
      obtain ⟨call, rfl, hcall, hbusy⟩ := call_producer hc hpcs H.busy hs
      have hmine := (H.own i p hc).1
      rw [hrecord]
      exact H.publish hqueue hmine hself hrest hcall hbusy

theorem Apart.next (H : Apart hashedId poolSize allocated s sent) {act : Action I P C α}
    (hnear : Near s act) (hs : step hashedId poolSize s act = some s') :
    Apart hashedId poolSize allocated s' (s.record act sent) := by
  cases act with
  | enqueue i x => exact H.enqueue hs
  | access i new => exact H.access hs
  | producer i ok k => exact H.producer hs
  | exit i => exact H.exit hs
  | dequeue c p =>
    obtain ⟨q, hq, rfl⟩ := Option.map_eq_some_iff.1 hs
    have hnear' : ConcurrentQueue.Near s.queue (.dequeue c p) := trivial
    exact H.consume hnear' hq (.inl ⟨c, p, rfl⟩)
  | consumer c =>
    obtain ⟨q, hq, rfl⟩ := Option.map_eq_some_iff.1 hs
    have hnear' : ConcurrentQueue.Near s.queue (.consumer c) := hnear
    exact H.consume hnear' hq (.inr ⟨c, rfl⟩)

/-! ### Whole runs -/

/-- The runs, with what each thread has enqueued. -/
abbrev Runs (hashedId : I → ℕ) (initialSize poolSize : ℕ) (allocated : P → Bool) :
    ThreadQueue I P C α × (I → List (Sent P α)) → Prop :=
  Run.Reach (Run.logged (step hashedId poolSize) record) (fun y act => Near y.1 act)
    (.init initialSize poolSize allocated, fun _ => [])

theorem Runs.apart {y : ThreadQueue I P C α × (I → List (Sent P α))}
    (h : Runs hashedId initialSize poolSize allocated y) :
    Apart hashedId poolSize allocated y.1 y.2 := by
  refine h.invariant (I := fun y => Apart hashedId poolSize allocated y.1 y.2) Apart.init ?_
  rintro ⟨s₁, sent₁⟩ act ⟨s₂, sent₂⟩ - H hnear hstep
  obtain ⟨hs, rfl⟩ := Run.logged_eq_some.1 hstep
  exact H.next hnear hs

/-- **A sub-queue has one thread that enqueues.**  Whatever the threads do, no two of them are in
`ImplicitProducer::enqueue` of one producer, a lookup returns one on which no call is under way, and
no assertion of the queue fails. -/
theorem threads_apart (h : Runs hashedId initialSize poolSize allocated (s, sent)) :
    (∀ i j p, s.call i = .enqueuing p → s.call j = .enqueuing p → i = j) ∧
      (∀ i x p, s.call i = .lookup x → s.hash.returning i = some p →
        (s.queue.producer p).pc = .idle) ∧
      s.queue.fault = none := by
  have H := h.apart
  refine ⟨fun i j p hi hj => ?_, fun i x p => H.idle, ?_⟩
  · exact H.hash.owners.unique i j p (.inl (H.own i p hi).1) (.inl (H.own j p hj).1)
  · obtain ⟨g, J⟩ := H.queue.inv
    exact J.noFault

/-- Two threads come at once; the first enqueues two elements, which are taken in turn. -/
def twoSenders : List (Action ℕ ℕ Unit ℕ) :=
  [.enqueue 0 7, .enqueue 1 5] ++
    (List.replicate 11 [.access 0 (some 10), .access 1 (some 11)]).flatten ++
    List.replicate 9 (.producer 0 true 0) ++ .enqueue 0 8 :: List.replicate 6 (.access 0 none) ++
    List.replicate 5 (.access 1 (some 11)) ++ List.replicate 2 (.producer 0 true 0) ++
    (.dequeue () 10 :: List.replicate 12 (.consumer ())) ++
    (.dequeue () 10 :: List.replicate 12 (.consumer ()))

theorem threads_apart_twoSenders : ∃ (s : ThreadQueue ℕ ℕ Unit ℕ), s.call 1 = .enqueuing 11 ∧
    (∀ i j p, s.call i = .enqueuing p → s.call j = .enqueuing p → i = j) ∧
      (∀ i x p, s.call i = .lookup x → s.hash.returning i = some p →
        (s.queue.producer p).pc = .idle) ∧
      s.queue.fault = none := by
  have hrun : (Run.exec (Run.guarded (Run.logged (step id 2) record) fun y act => Near y.1 act)
      ((.init 4 2 fun _ => true : ThreadQueue ℕ ℕ Unit ℕ), fun _ => []) twoSenders).any
      (fun y => decide (y.1.call 1 = .enqueuing 11)) = true := by
    decide +kernel
  obtain ⟨⟨s, sent⟩, hr, hcall⟩ := Run.exists_reach_of_exec_guarded hrun
  exact ⟨s, hcall, threads_apart hr⟩

/-- **What a consumer gets of one thread, it gets in the order in which the thread has enqueued it.**
`returned` has the latest first. -/
theorem thread_in_order (h : Runs hashedId initialSize poolSize allocated (s, sent)) :
    s.queue.returned.Pairwise fun r r' => r.consumer = r'.consumer → ∀ (i : I) (a b : ℕ),
      (sent i)[a]? = some (Sent.mk r.producer r.index r.element) →
      (sent i)[b]? = some (Sent.mk r'.producer r'.index r'.element) → b < a := by
  have H := h.apart
  obtain ⟨g, J⟩ := H.queue.inv
  refine J.out.order.imp fun {r r'} hlt hconsumer i a b ha hb => ?_
  obtain ⟨hltA, hgetA⟩ := List.getElem?_eq_some_iff.1 ha
  obtain ⟨hltB, hgetB⟩ := List.getElem?_eq_some_iff.1 hb
  have hown := (H.mine i _ (List.mem_of_getElem? ha)).1
  have hown' := (H.mine i _ (List.mem_of_getElem? hb)).1
  have hindex : r'.index < r.index := hlt hconsumer (H.hash.own_one hown hown')
  by_contra hle
  rcases Nat.lt_or_eq_of_le (Nat.le_of_not_lt hle) with hab | rfl
  · have hsorted := List.pairwise_iff_getElem.1 (H.sorted i) a b hltA hltB hab
    rw [hgetA, hgetB] at hsorted
    exact absurd hsorted (Nat.lt_asymm hindex)
  · rw [hgetA] at hgetB
    have hsame : r.index = r'.index := congrArg Sent.index hgetB
    omega

theorem thread_in_order_twoSenders :
    ∃ (s : ThreadQueue ℕ ℕ Unit ℕ) (sent : ℕ → List (Sent ℕ ℕ)),
      s.queue.returned.map (fun r => r.element) = [8, 7] ∧ sent 0 = [⟨10, 0, 7⟩, ⟨10, 1, 8⟩] ∧
      s.queue.returned.Pairwise fun r r' => r.consumer = r'.consumer → ∀ (i a b : ℕ),
        (sent i)[a]? = some (Sent.mk r.producer r.index r.element) →
        (sent i)[b]? = some (Sent.mk r'.producer r'.index r'.element) → b < a := by
  have hrun : (Run.exec (Run.guarded (Run.logged (step id 2) record) fun y act => Near y.1 act)
      ((.init 4 2 fun _ => true : ThreadQueue ℕ ℕ Unit ℕ), fun _ => []) twoSenders).any
      (fun y => decide (y.1.queue.returned.map (fun r => r.element) = [8, 7] ∧
        y.2 0 = [⟨10, 0, 7⟩, ⟨10, 1, 8⟩])) = true := by
    decide +kernel
  obtain ⟨⟨s, sent⟩, hr, hout, hsent⟩ := Run.exists_reach_of_exec_guarded hrun
  exact ⟨s, sent, hout, hsent, thread_in_order hr⟩

end ThreadQueue

end DataProxy
