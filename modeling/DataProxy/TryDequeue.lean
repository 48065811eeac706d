import DataProxy.QueueDelivery

/-!
# `ConcurrentQueue::try_dequeue`

A thread that dequeues looks at the sizes of the sub-queues, from the one made last on, until it has
found three that are not empty, and tries the largest of these first; if that fails it tries all
others.  Between any two of its accesses the other threads may do anything, so that the sizes it has
seen are out of date.

The queue of a dispatcher has many producers and one consumer, the dispatcher itself.  Then sizes can
only have grown, and `try_dequeue` is exact: it fails only if nothing was there when it was called.
-/

namespace DataProxy.ConcurrentQueue

open Function (update)

/-- The place of a thread in `try_dequeue`. -/
inductive TryPc (P : Type)
  /-- Not in a call; what the last one returned. -/
  | returned (r : Bool)
  /-- The first loop, at `ptr->size_approx()`: the load of `tailIndex`, then that of `headIndex`. -/
  | loadTail (ptr : P) (rest : List P) (best : Option (P × ℕ)) (nonEmptyCount : ℕ)
  | loadHead (ptr : P) (rest : List P) (best : Option (P × ℕ)) (nonEmptyCount : ℕ) (tail : ℕ)
  /-- In `best->dequeue(item)`. -/
  | best (p : P)
  /-- The second load of `producerListTail`. -/
  | reload (best : P)
  /-- The second loop, in `ptr->dequeue(item)`. -/
  | other (best : P) (rest : List P)
  deriving DecidableEq

/-- The queue with its list of producers, the latest first, and the calls of `try_dequeue`. -/
structure Shared (P C α : Type) where
  queue : Queue P C α
  producerList : List P
  call : C → TryPc P

inductive UseAction (P C α : Type)
  /-- A thread enqueues for the first time: `add_producer`. -/
  | addProducer (p : P)
  | enqueue (p : P) (x : α)
  | producer (p : P) (ok : Bool) (k : ℕ)
  | tryDequeue (c : C)
  | consumer (c : C)

namespace Shared

variable {P C α : Type} [DecidableEq P] [DecidableEq C]

def init (poolSize : ℕ) (allocated : P → Bool) : Shared P C α where
  queue := .init poolSize allocated
  producerList := []
  call _ := .returned false

variable (poolSize : ℕ) (u : Shared P C α)

def setCall (c : C) (pc : TryPc P) : Shared P C α := { u with call := update u.call c pc }

/-- The call of `dequeue` on the sub-queue of `p`. -/
def callDequeue (c : C) (p : P) (pc : TryPc P) : Shared P C α :=
  { u with queue := u.queue.setConsumer c (.loadTail p), call := update u.call c pc }

/-- `ProducerBase::size_approx` from the two loads. -/
def sizeApprox (tail head : ℕ) : ℕ :=
  if circularLessThan (.ofNat head) (.ofNat tail) then (UInt64.ofNat tail - UInt64.ofNat head).toNat
  else 0

/-- After the first loop. -/
def tryBest (c : C) (best : Option (P × ℕ)) (nonEmptyCount : ℕ) : Shared P C α :=
  if 0 < nonEmptyCount then
    match best with
    | some (p, _) => u.callDequeue c p (.best p)
    | none => { u with queue := u.queue.fail .noObject }
  else u.setCall c (.returned false)

/-- The head of the first loop. -/
def scan (c : C) (rest : List P) (best : Option (P × ℕ)) (nonEmptyCount : ℕ) : Shared P C α :=
  match rest with
  | ptr :: rest =>
    if nonEmptyCount < 3 then u.setCall c (.loadTail ptr rest best nonEmptyCount)
    else u.tryBest c best nonEmptyCount
  | [] => u.tryBest c best nonEmptyCount

/-- The head of the second loop. -/
def tryOthers (c : C) (best : P) : List P → Shared P C α
  | [] => u.setCall c (.returned false)
  | ptr :: rest => if ptr ≠ best then u.callDequeue c ptr (.other best rest) else tryOthers c best rest

/-- A step of a `dequeue` that `try_dequeue` has called; `fails` is what follows if it returns false. -/
def dequeueStep (c : C) (fails : Shared P C α → Shared P C α) : Option (Shared P C α) :=
  (u.queue.consumerStep poolSize c).map fun q =>
    match q.consumer c with
    | .idle =>
      if q.returned.length ≠ u.queue.returned.length then
        { u with queue := q, call := update u.call c (.returned true) }
      else fails { u with queue := q }
    | _ => { u with queue := q }

/-- The next access of the call of `c`. -/
def tryStep (c : C) : Option (Shared P C α) :=
  match u.call c with
  | .returned _ => none
  | .loadTail ptr rest best n =>
    some (u.setCall c (.loadHead ptr rest best n (u.queue.producer ptr).tailIndex))
  | .loadHead ptr rest best n tail =>
    let size := sizeApprox tail (u.queue.producer ptr).headIndex
    if 0 < size then
      let bestSize := (best.map Prod.snd).getD 0
      some (u.scan c rest (if bestSize < size then some (ptr, size) else best) (n + 1))
    else some (u.scan c rest best n)
  | .best p => u.dequeueStep poolSize c fun u => u.setCall c (.reload p)
  | .reload p => some (u.tryOthers c p u.producerList)
  | .other p rest => u.dequeueStep poolSize c fun u => u.tryOthers c p rest

/-- One step. -/
def step : UseAction P C α → Option (Shared P C α)
  | .addProducer p =>
    if p ∈ u.producerList then none else some { u with producerList := p :: u.producerList }
  | .enqueue p x =>
    if p ∈ u.producerList then
      (ConcurrentQueue.step poolSize u.queue (.enqueue p x)).map fun q => { u with queue := q }
    else none
  | .producer p ok k =>
    (ConcurrentQueue.step poolSize u.queue (.producer p ok k)).map fun q => { u with queue := q }
  | .tryDequeue c =>
    match u.call c with
    | .returned _ => some (u.scan c u.producerList none 0)
    | _ => none
  | .consumer c => if u.queue.fault ≠ none then none else u.tryStep poolSize c

end Shared

variable {P C α : Type} [DecidableEq P] [DecidableEq C] {poolSize : ℕ} {allocated : P → Bool}
  {s s' : Queue P C α} {g : Ghost P C} {c : C}

/-! ### One consumer -/

/-- What a lone consumer has loaded is still so. -/
def SoloPc (s : Queue P C α) : DequeuePc P α → Prop
  | .check p _ v | .reserve p v => v = (s.producer p).dequeueOvercommit
  | .recheck p v m => v = (s.producer p).dequeueOvercommit ∧
      m + 1 = (s.producer p).dequeueOptimisticCount
  | _ => True

/-- Nobody but `c` dequeues: the counters agree but for its own number. -/
structure Solo (c : C) (s : Queue P C α) : Prop where
  others : ∀ c', c' ≠ c → s.consumer c' = .idle
  count : ∀ p, (s.producer p).dequeueOptimisticCount = (s.producer p).headIndex +
    (s.producer p).dequeueOvercommit + if (s.consumer c).drawing = some p then 1 else 0
  place : SoloPc s (s.consumer c)

/-- The call of `dequeue` is going to succeed. -/
def Getting (s : Queue P C α) : DequeuePc P α → Prop
  | .loadTail p | .reserve p _ | .recheck p _ _ => (s.producer p).headIndex < (s.producer p).tailIndex
  | .loadOvercommit p t | .check p t _ =>
    (s.producer p).headIndex < t ∧ t ≤ (s.producer p).tailIndex
  | .idle | .giveBack _ _ => False
  | _ => True

/-- A thread that enqueues may have come between. -/
structure Grown (s s' : Queue P C α) : Prop where
  consumer : s'.consumer = s.consumer
  returned : s'.returned = s.returned
  headIndex : ∀ p, (s'.producer p).headIndex = (s.producer p).headIndex
  optimistic : ∀ p, (s'.producer p).dequeueOptimisticCount = (s.producer p).dequeueOptimisticCount
  overcommit : ∀ p, (s'.producer p).dequeueOvercommit = (s.producer p).dequeueOvercommit
  tailIndex : ∀ p, (s.producer p).tailIndex ≤ (s'.producer p).tailIndex

omit [DecidableEq C] in
theorem Solo.grown (H : Solo c s) (G : Grown s s') : Solo c s' := by
  refine ⟨fun c' hc' => by rw [G.consumer, H.others c' hc'], fun p => ?_, ?_⟩
  · rw [G.optimistic, G.headIndex, G.overcommit, G.consumer]
    exact H.count p
  · have hplace := H.place
    rw [G.consumer]
    unfold SoloPc at hplace ⊢
    split at hplace
    · rw [G.overcommit]
      exact hplace
    · rw [G.overcommit]
      exact hplace
    · rw [G.overcommit, G.optimistic]
      exact hplace
    · trivial

omit [DecidableEq P] [DecidableEq C] in
theorem Getting.grown {pc : DequeuePc P α} (H : Getting s pc) (G : Grown s s') : Getting s' pc := by
  cases pc with
  | loadTail p | reserve p | recheck p =>
    have htail := G.tailIndex p
    replace H : (s.producer p).headIndex < (s.producer p).tailIndex := H
    show (s'.producer p).headIndex < (s'.producer p).tailIndex
    rw [G.headIndex]
    omega
  | loadOvercommit p t | check p t =>
    have htail := G.tailIndex p
    replace H : (s.producer p).headIndex < t ∧ t ≤ (s.producer p).tailIndex := H
    show (s'.producer p).headIndex < t ∧ t ≤ (s'.producer p).tailIndex
    rw [G.headIndex]
    omega
  | idle | giveBack => exact H.elim
  | _ => trivial

omit [DecidableEq C] in
theorem grown_update {p : P} {R : ImplicitProducer α} (producer : s'.producer = update s.producer p R)
    (consumer : s'.consumer = s.consumer) (returned : s'.returned = s.returned)
    (head : R.headIndex = (s.producer p).headIndex)
    (optimistic : R.dequeueOptimisticCount = (s.producer p).dequeueOptimisticCount)
    (overcommit : R.dequeueOvercommit = (s.producer p).dequeueOvercommit)
    (tail : (s.producer p).tailIndex ≤ R.tailIndex) : Grown s s' := by
  refine ⟨consumer, returned, fun p' => ?_, fun p' => ?_, fun p' => ?_, fun p' => ?_⟩
  all_goals
    rw [producer]
    by_cases hp : p' = p
    · rw [hp, Function.update_self]
      assumption
    · rw [Function.update_of_ne hp]

omit [DecidableEq C] in
theorem ProducerMove.grown {p : P} {ok : Bool} (hm : ProducerMove s p ok s') : Grown s s' := by
  cases hm with
  | quiet R producer consumer returned same onward element =>
    exact grown_update producer consumer returned same.headIndex same.dequeueOptimisticCount
      same.dequeueOvercommit same.tailIndex.ge
  | publish x at_storeTail eq =>
    rw [eq]
    refine grown_update rfl rfl rfl ?_ ?_ ?_ ?_
    · rfl
    · rfl
    · rfl
    · exact Nat.le_succ _

omit [DecidableEq C] in
theorem grown_enqueue {p : P} {x : α} (hs : s.enqueue p x = some s') : Grown s s' := by
  simp only [Queue.enqueue] at hs
  split at hs
  · cases hs
    refine grown_update rfl rfl rfl ?_ ?_ ?_ ?_
    · rfl
    · rfl
    · rfl
    · exact le_rfl
  · cases hs

/-! ### A lone consumer gets what is there -/

omit [DecidableEq C] in
/-- The number drawn, less the overcommit, is the head. -/
theorem Solo.near (H : Solo c s) (I : Inv poolSize s g) : Near s (.consumer c : Action P C α) := by
  unfold Near
  simp only
  split
  · rename_i p v m hc
    obtain ⟨hv, hm⟩ : SoloPc s (.recheck p v m) := hc ▸ H.place
    have hcount := H.count p
    have hle := (I.lane p).tailIndex_lt.1
    rw [hc, DequeuePc.drawing, if_pos rfl] at hcount
    omega
  · trivial

omit [DecidableEq P] [DecidableEq C] in
theorem soloPc_of_rank_lt {pc : DequeuePc P α} (h : pc.rank < 10) : SoloPc s pc := by
  cases pc with
  | check | reserve | recheck => simp [DequeuePc.rank] at h
  | _ => trivial

omit [DecidableEq P] in
theorem DequeuePc.drawing_of_holding {pc : DequeuePc P α} (h : pc.holding ≠ none) :
    pc.drawing = none := by
  cases pc with
  | recheck | claim | giveBack => exact absurd rfl h
  | _ => rfl

omit [DecidableEq C] in
/-- The counters of one sub-queue move with the number of the consumer. -/
theorem Solo.count_update (H : Solo c s) {p : P} {R : ImplicitProducer α} (pc : DequeuePc P α)
    (hother : ∀ p', p' ≠ p → (pc.drawing = some p' ↔ (s.consumer c).drawing = some p'))
    (hp : R.dequeueOptimisticCount = R.headIndex + R.dequeueOvercommit +
      if pc.drawing = some p then 1 else 0) (p' : P) :
    (update s.producer p R p').dequeueOptimisticCount = (update s.producer p R p').headIndex +
      (update s.producer p R p').dequeueOvercommit + if pc.drawing = some p' then 1 else 0 := by
  by_cases hne : p' = p
  · rw [hne, Function.update_self]
    exact hp
  · rw [Function.update_of_ne hne, H.count p']
    simp only [hother p' hne]

/-- A step of the consumer keeps the counters in agreement. -/
theorem Solo.count_consumerStep (H : Solo c s) (hm : ConsumerMove s c s') (p : P) :
    (s'.producer p).dequeueOptimisticCount = (s'.producer p).headIndex +
      (s'.producer p).dequeueOvercommit + if (s'.consumer c).drawing = some p then 1 else 0 := by
  cases hm with
  | quiet pc onward silent consumer same returned =>
    rw [consumer, Function.update_self, onward.2.2, (same p).1.dequeueOptimisticCount,
      (same p).1.headIndex, (same p).1.dequeueOvercommit]
    exact H.count p
  | reserve q v at_reserve eq =>
    have hcount := H.count q
    rw [at_reserve] at hcount
    have hcons : s'.consumer c = .recheck q v (s.producer q).dequeueOptimisticCount := by
      rw [eq]
      exact Function.update_self ..
    rw [hcons, eq]
    refine H.count_update (.recheck q v _) (fun p' hne => ?_) ?_ p
    · rw [at_reserve]
      simp [DequeuePc.drawing, hne.symm]
    · simp only [DequeuePc.drawing, if_true]
      simpa [DequeuePc.drawing] using hcount
  | claim q m at_claim eq =>
    have hcount := H.count q
    rw [at_claim] at hcount
    have hcons : s'.consumer c = .loadIndex q (s.producer q).headIndex := by
      rw [eq]
      exact Function.update_self ..
    rw [hcons, eq]
    refine H.count_update (.loadIndex q _) (fun p' hne => ?_) ?_ p
    · rw [at_claim]
      simp [DequeuePc.drawing, hne.symm]
    · simp only [DequeuePc.drawing, if_true] at hcount ⊢
      simp only [reduceCtorEq, if_false]
      omega
  | giveBack q m at_giveBack eq =>
    have hcount := H.count q
    rw [at_giveBack] at hcount
    have hcons : s'.consumer c = .idle := by
      rw [eq]
      exact Function.update_self ..
    rw [hcons, eq]
    refine H.count_update .idle (fun p' hne => ?_) ?_ p
    · rw [at_giveBack]
      simp [DequeuePc.drawing, hne.symm]
    · simp only [DequeuePc.drawing, if_true] at hcount ⊢
      simp only [reduceCtorEq, if_false]
      omega
  | finish q i x holding delivers consumer same returned =>
    have hdraw : (s.consumer c).drawing = none :=
      DequeuePc.drawing_of_holding (by rw [holding]; simp)
    have hcount := H.count p
    rw [hdraw] at hcount
    rw [consumer, Function.update_self, (same p).1.dequeueOptimisticCount, (same p).1.headIndex,
      (same p).1.dequeueOvercommit]
    exact hcount

theorem Solo.consumerStep (H : Solo c s) (hs : s.consumerStep poolSize c = some s')
    (hf : s'.fault = none) : Solo c s' := by
  have hm := consumerMove_of_step hs hf
  obtain ⟨pc, hcons, hrank⟩ := hm.exists_pc
  refine ⟨fun c' hc' => ?_, H.count_consumerStep hm, ?_⟩
  · rw [hcons, Function.update_of_ne hc']
    exact H.others c' hc'
  · -- what was loaded is checked in the three places where it is used
    have hplace := H.place
    cases hc : s.consumer c with
    | loadTail p =>
      simp only [Queue.consumerStep, hc, Option.some.injEq] at hs
      subst hs
      rw [Queue.setConsumer_self]
      trivial
    | loadOvercommit p t =>
      simp only [Queue.consumerStep, hc, Option.some.injEq] at hs
      subst hs
      rw [Queue.setConsumer_self]
      rfl
    | check p t v =>
      rw [hc] at hplace
      simp only [Queue.consumerStep, hc] at hs
      split at hs <;> cases hs
      · rw [Queue.setConsumer_self]
        exact hplace
      · rw [Queue.setConsumer_self]
        trivial
    | reserve p v =>
      rw [hc] at hplace
      simp only [Queue.consumerStep, hc, Option.some.injEq] at hs
      subst hs
      rw [Queue.setConsumer_self]
      refine ⟨?_, ?_⟩
      · show v = (update s.producer p _ p).dequeueOvercommit
        rw [Function.update_self]
        exact hplace
      · show _ = (update s.producer p _ p).dequeueOptimisticCount
        rw [Function.update_self]
    | _ =>
      rw [hcons, Function.update_self]
      rw [hc] at hrank
      refine soloPc_of_rank_lt (hrank.trans_le ?_)
      simp [DequeuePc.rank]

omit [DecidableEq P] [DecidableEq C] in
theorem getting_of_holding {pc : DequeuePc P α} (h : pc.holding ≠ none) : Getting s pc := by
  cases pc with
  | idle | loadTail | loadOvercommit | check | reserve | recheck | giveBack => exact absurd rfl h
  | _ => trivial

omit [DecidableEq P] [DecidableEq C] in
/-- The comparison of a lone consumer is that of the head with the tail. -/
theorem Inv.circularLessThan (I : Inv poolSize s g) {p : P} {o v t : ℕ}
    (hv : v = (s.producer p).dequeueOvercommit) (ho : o = (s.producer p).headIndex + v)
    (ht : (s.producer p).headIndex < t) (hle : t ≤ (s.producer p).tailIndex) :
    ConcurrentQueue.circularLessThan (.ofNat o - .ofNat v) (.ofNat t) = true := by
  have hlt := (I.lane p).tailIndex_lt.2
  rw [ofNat_sub_ofNat (by omega)]
  exact circularLessThan_of_lt (by omega) (by omega)

/-- **A call that is going to succeed does.** -/
theorem Getting.next (H : Getting s (s.consumer c)) (S : Solo c s) (I : Inv poolSize s g)
    (hs : s.consumerStep poolSize c = some s') (hf : s'.fault = none) :
    (Getting s' (s'.consumer c) ∧ s'.returned = s.returned) ∨
      (s'.consumer c = .idle ∧ s'.returned.length = s.returned.length + 1) := by
  have hm := consumerMove_of_step hs hf
  have hplace := S.place
  have hcount := S.count
  cases hc : s.consumer c with
  | idle =>
    rw [hc] at H
    exact H.elim
  | giveBack p m =>
    rw [hc] at H
    exact H.elim
  | loadTail p =>
    rw [hc] at H
    simp only [Queue.consumerStep, hc, Option.some.injEq] at hs
    subst hs
    rw [Queue.setConsumer_self]
    exact .inl ⟨⟨H, le_rfl⟩, rfl⟩
  | loadOvercommit p t =>
    rw [hc] at H
    simp only [Queue.consumerStep, hc, Option.some.injEq] at hs
    subst hs
    rw [Queue.setConsumer_self]
    exact .inl ⟨H, rfl⟩
  | check p t v =>
    rw [hc] at H hplace
    replace hcount := hcount p
    simp only [hc, DequeuePc.drawing, reduceCtorEq, if_false] at hcount
    obtain ⟨hlt, hle⟩ := H
    replace hplace : v = (s.producer p).dequeueOvercommit := hplace
    have hless := I.circularLessThan (o := (s.producer p).dequeueOptimisticCount) hplace (by omega)
      hlt hle
    simp only [Queue.consumerStep, hc, hless, if_true, Option.some.injEq] at hs
    subst hs
    rw [Queue.setConsumer_self]
    exact .inl ⟨hlt.trans_le hle, rfl⟩
  | reserve p v =>
    rw [hc] at H
    simp only [Queue.consumerStep, hc, Option.some.injEq] at hs
    subst hs
    rw [Queue.setConsumer_self]
    refine .inl ⟨?_, rfl⟩
    show (update s.producer p _ p).headIndex < (update s.producer p _ p).tailIndex
    rw [Function.update_self]
    exact H
  | recheck p v m =>
    rw [hc] at H hplace
    replace hcount := hcount p
    rw [hc, DequeuePc.drawing, if_pos rfl] at hcount
    obtain ⟨hv, hm'⟩ := hplace
    have hless := I.circularLessThan (o := m) hv (by omega) H le_rfl
    simp only [Queue.consumerStep, hc, hless, if_true, Option.some.injEq] at hs
    subst hs
    rw [Queue.setConsumer_self]
    exact .inl ⟨trivial, rfl⟩
  | claim p m =>
    simp only [Queue.consumerStep, hc, Option.some.injEq] at hs
    subst hs
    rw [Queue.setConsumer_self]
    exact .inl ⟨trivial, rfl⟩
  | _ =>
    cases hm with
    | quiet pc onward silent consumer same returned =>
      refine .inl ⟨?_, returned⟩
      rw [consumer, Function.update_self]
      refine getting_of_holding ?_
      rw [onward.2.1, hc]
      simp [DequeuePc.holding]
    | reserve q v' at_reserve => cases hc.symm.trans at_reserve
    | claim q m' at_claim => cases hc.symm.trans at_claim
    | giveBack q m' at_giveBack => cases hc.symm.trans at_giveBack
    | finish q i' x' holding delivers consumer same returned =>
      refine .inr ⟨?_, ?_⟩
      · rw [consumer, Function.update_self]
      · rw [returned, List.length_cons]

/-! ### `try_dequeue` of a lone consumer -/

/-- Some element waits in the sub-queue of `p`. -/
def Waits (s : Queue P C α) (p : P) : Prop := (s.producer p).headIndex < (s.producer p).tailIndex

instance (s : Queue P C α) (p : P) : Decidable (Waits s p) := by
  unfold Waits
  infer_instance

/-- The first loop has counted the sub-queues that are not empty, and kept one of them. -/
structure BestOk (s : Queue P C α) (best : Option (P × ℕ)) (nonEmptyCount : ℕ) : Prop where
  waits : ∀ p size, best = some (p, size) → Waits s p
  found : 0 < nonEmptyCount → best ≠ none

/-- What holds at each place of `try_dequeue`, if `waiting` says whether something was there when it
was called and `taken` how many elements were dequeued until then. -/
def TryOk (u : Shared P C α) (c : C) (waiting : Bool) (taken : ℕ) : TryPc P → Prop
  | .returned r => u.queue.consumer c = .idle ∧
      u.queue.returned.length = taken + (if r then 1 else 0) ∧ (r = false → waiting = false)
  | .loadTail ptr rest best n => u.queue.consumer c = .idle ∧ u.queue.returned.length = taken ∧
      BestOk u.queue best n ∧ (waiting = true → 0 < n ∨ ∃ p ∈ ptr :: rest, Waits u.queue p)
  | .loadHead ptr rest best n tail => u.queue.consumer c = .idle ∧
      u.queue.returned.length = taken ∧ BestOk u.queue best n ∧
      ((u.queue.producer ptr).headIndex ≤ tail ∧ tail ≤ (u.queue.producer ptr).tailIndex) ∧
      (waiting = true → 0 < n ∨ (u.queue.producer ptr).headIndex < tail ∨
        ∃ p ∈ rest, Waits u.queue p)
  | .best _ => u.queue.returned.length = taken ∧ Getting u.queue (u.queue.consumer c)
  | .reload _ | .other _ _ => False

omit [DecidableEq P] [DecidableEq C] in
theorem Grown.waits (G : Grown s s') {p : P} (h : Waits s p) : Waits s' p := by
  have htail := G.tailIndex p
  unfold Waits at h ⊢
  rw [G.headIndex]
  omega

omit [DecidableEq P] [DecidableEq C] in
theorem BestOk.grown {best : Option (P × ℕ)} {n : ℕ} (H : BestOk s best n) (G : Grown s s') :
    BestOk s' best n :=
  ⟨fun p size h => G.waits (H.waits p size h), H.found⟩

omit [DecidableEq P] [DecidableEq C] in
/-- Threads that enqueue take nothing away. -/
theorem TryOk.grown {u u' : Shared P C α} {waiting : Bool} {taken : ℕ} {pc : TryPc P}
    (H : TryOk u c waiting taken pc) (G : Grown u.queue u'.queue) : TryOk u' c waiting taken pc := by
  cases pc with
  | returned r =>
    obtain ⟨hc, hlen, hr⟩ := H
    exact ⟨by rw [G.consumer, hc], by rw [G.returned, hlen], hr⟩
  | loadTail ptr rest best n =>
    obtain ⟨hc, hlen, hbest, hw⟩ := H
    refine ⟨by rw [G.consumer, hc], by rw [G.returned, hlen], hbest.grown G, fun h => ?_⟩
    rcases hw h with hn | ⟨p, hp, hwait⟩
    · exact .inl hn
    · exact .inr ⟨p, hp, G.waits hwait⟩
  | loadHead ptr rest best n tail =>
    obtain ⟨hc, hlen, hbest, ⟨hle, hge⟩, hw⟩ := H
    refine ⟨by rw [G.consumer, hc], by rw [G.returned, hlen], hbest.grown G,
      ⟨by rw [G.headIndex]; exact hle, hge.trans (G.tailIndex ptr)⟩, fun h => ?_⟩
    rcases hw h with hn | hlt | ⟨p, hp, hwait⟩
    · exact .inl hn
    · exact .inr (.inl (by rw [G.headIndex]; exact hlt))
    · exact .inr (.inr ⟨p, hp, G.waits hwait⟩)
  | best p =>
    obtain ⟨hlen, hget⟩ := H
    exact ⟨by rw [G.returned, hlen], by rw [G.consumer]; exact hget.grown G⟩
  | reload => exact H.elim
  | other => exact H.elim

/-- What the call of `try_dequeue` found: whether an element was waiting, and how many were dequeued
before. -/
def recordCall (u : Shared P C α) : UseAction P C α → Bool × ℕ → Bool × ℕ
  | .tryDequeue _, _ =>
    (u.producerList.any fun p => decide (Waits u.queue p), u.queue.returned.length)
  | _, h => h

/-- Only `c` dequeues. -/
def Only (c : C) : UseAction P C α → Prop
  | .tryDequeue c' | .consumer c' => c' = c
  | _ => True

instance (c : C) (act : UseAction P C α) : Decidable (Only c act) := by
  unfold Only
  split <;> infer_instance

/-- The invariant of a lone consumer. -/
structure Exact (poolSize : ℕ) (c : C) (u : Shared P C α) (waiting : Bool) (taken : ℕ) : Prop where
  inv : ∃ g, Inv poolSize u.queue g
  solo : Solo c u.queue
  ok : TryOk u c waiting taken (u.call c)

section

variable {u : Shared P C α} {waiting : Bool} {taken n : ℕ} {best : Option (P × ℕ)} {rest : List P}

theorem Exact.setCall {pc : TryPc P} (hI : ∃ g, Inv poolSize u.queue g) (S : Solo c u.queue)
    (hok : TryOk u c waiting taken pc) : Exact poolSize c (u.setCall c pc) waiting taken := by
  refine ⟨hI, S, ?_⟩
  show TryOk (u.setCall c pc) c waiting taken (update u.call c pc c)
  rw [Function.update_self]
  cases pc <;> exact hok

/-- The consumer calls `dequeue` on a sub-queue that is not empty. -/
theorem Exact.callDequeue (hI : ∃ g, Inv poolSize u.queue g) (S : Solo c u.queue)
    (hidle : u.queue.consumer c = .idle) (hlen : u.queue.returned.length = taken) {p : P}
    (hp : Waits u.queue p) : Exact poolSize c (u.callDequeue c p (.best p)) waiting taken := by
  obtain ⟨g, I⟩ := hI
  have hself : (u.callDequeue c p (.best p)).queue.consumer c = .loadTail p :=
    Queue.setConsumer_self ..
  refine ⟨⟨g, I.setConsumer trivial (by rw [hidle]; rfl)⟩, ⟨fun c' hc' => ?_, fun p' => ?_, ?_⟩, ?_⟩
  · show update u.queue.consumer c _ c' = _
    rw [Function.update_of_ne hc']
    exact S.others c' hc'
  · have hcount := S.count p'
    rw [hidle] at hcount
    rw [hself]
    exact hcount
  · rw [hself]
    trivial
  · show TryOk _ c waiting taken (update u.call c _ c)
    rw [Function.update_self]
    refine ⟨hlen, ?_⟩
    rw [hself]
    exact hp

theorem Exact.tryBest (hI : ∃ g, Inv poolSize u.queue g) (S : Solo c u.queue)
    (hidle : u.queue.consumer c = .idle) (hlen : u.queue.returned.length = taken)
    (hbest : BestOk u.queue best n) (hw : waiting = true → 0 < n) :
    Exact poolSize c (u.tryBest c best n) waiting taken := by
  unfold Shared.tryBest
  split
  · rename_i hn
    obtain ⟨⟨p, size⟩, hp⟩ := Option.ne_none_iff_exists'.1 (hbest.found hn)
    subst hp
    exact .callDequeue hI S hidle hlen (hbest.waits p size rfl)
  · rename_i hn
    refine .setCall hI S ⟨hidle, hlen, fun _ => ?_⟩
    by_contra hne
    exact hn (hw (by simpa using hne))

theorem Exact.scan (hI : ∃ g, Inv poolSize u.queue g) (S : Solo c u.queue)
    (hidle : u.queue.consumer c = .idle) (hlen : u.queue.returned.length = taken)
    (hbest : BestOk u.queue best n)
    (hw : waiting = true → 0 < n ∨ ∃ p ∈ rest, Waits u.queue p) :
    Exact poolSize c (u.scan c rest best n) waiting taken := by
  unfold Shared.scan
  split
  · split
    · exact .setCall hI S ⟨hidle, hlen, hbest, hw⟩
    · exact .tryBest hI S hidle hlen hbest fun _ => by omega
  · refine .tryBest hI S hidle hlen hbest fun h => ?_
    rcases hw h with hn | ⟨p, hp, -⟩
    · exact hn
    · exact absurd hp List.not_mem_nil

omit [DecidableEq P] [DecidableEq C] in
/-- The size seen is positive if and only if the tail seen is ahead of the head. -/
theorem sizeApprox_pos {head tail : ℕ} (hle : head ≤ tail) (hlt : tail < head + 2 ^ 63) :
    0 < Shared.sizeApprox tail head ↔ head < tail := by
  unfold Shared.sizeApprox
  by_cases h : head < tail
  · rw [if_pos (circularLessThan_of_lt h (by omega)), ofNat_sub_ofNat hle]
    rw [UInt64.toNat_ofNat']
    omega
  · have heq : tail = head := by omega
    rw [if_neg]
    · simp [h]
    · intro hless
      have := lt_of_circularLessThan hless (by omega)
      omega

/-- The first loop looks at a size. -/
theorem Exact.loadHead {ptr : P} {tail : ℕ} (E : Exact poolSize c u waiting taken)
    (hpc : u.call c = .loadHead ptr rest best n tail) {u' : Shared P C α}
    (hs : u.tryStep poolSize c = some u') : Exact poolSize c u' waiting taken := by
  obtain ⟨g, I⟩ := E.inv
  have hok := E.ok
  rw [hpc] at hok
  obtain ⟨hidle, hlen, hbest, ⟨hle, hge⟩, hw⟩ := hok
  have hlt := (I.lane ptr).tailIndex_lt.2
  have hsize := sizeApprox_pos hle (by omega)
  simp only [Shared.tryStep, hpc] at hs
  split at hs
  · rename_i hpos
    cases hs
    have hwaits : Waits u.queue ptr := (hsize.1 hpos).trans_le hge
    refine .scan E.inv E.solo hidle hlen ⟨fun p size h => ?_, fun _ h => ?_⟩ fun _ => .inl n.succ_pos
    · split at h
      · cases h
        exact hwaits
      · exact hbest.waits p size h
    · split at h
      · cases h
      · rename_i hsmall
        rw [h] at hsmall
        exact hsmall hpos
  · rename_i hzero
    cases hs
    refine .scan E.inv E.solo hidle hlen hbest fun h => ?_
    rcases hw h with hn | hlt' | hwait
    · exact .inl hn
    · exact absurd (hsize.2 hlt') hzero
    · exact .inr hwait

/-- The consumer is in the `dequeue` of the sub-queue it found best. -/
theorem Exact.dequeueStep {p : P} (E : Exact poolSize c u waiting taken) (hpc : u.call c = .best p)
    {u' : Shared P C α} (hs : u.tryStep poolSize c = some u') : Exact poolSize c u' waiting taken := by
  obtain ⟨g, I⟩ := E.inv
  have hok := E.ok
  rw [hpc] at hok
  obtain ⟨hlen, hget⟩ := hok
  simp only [Shared.tryStep, hpc, Shared.dequeueStep] at hs
  obtain ⟨q, hq, hu⟩ := Option.map_eq_some_iff.1 hs
  obtain ⟨g', I'⟩ := I.consumerStep (E.solo.near I) hq
  have S' := E.solo.consumerStep hq I'.noFault
  rcases hget.next E.solo I hq I'.noFault with ⟨hget', hret⟩ | ⟨hidle, hret⟩
  · have hne : q.consumer c ≠ .idle := by
      intro h
      rw [h] at hget'
      exact hget'
    split at hu
    · rename_i h
      exact absurd h hne
    · subst hu
      refine ⟨⟨g', I'⟩, S', ?_⟩
      show TryOk _ c waiting taken (u.call c)
      rw [hpc]
      exact ⟨by rw [← hlen, ← hret], hget'⟩
  · simp only [hidle, hret] at hu
    rw [if_pos (by omega)] at hu
    subst hu
    refine ⟨⟨g', I'⟩, S', ?_⟩
    show TryOk _ c waiting taken (update u.call c (.returned true) c)
    rw [Function.update_self]
    exact ⟨hidle, by rw [hret, hlen]; rfl, fun h => nomatch h⟩

theorem Exact.tryStep (E : Exact poolSize c u waiting taken) {u' : Shared P C α}
    (hs : u.tryStep poolSize c = some u') : Exact poolSize c u' waiting taken := by
  have hok := E.ok
  cases hpc : u.call c with
  | returned r =>
    simp only [Shared.tryStep, hpc] at hs
    cases hs
  | loadTail ptr rest best n =>
    rw [hpc] at hok
    obtain ⟨hidle, hlen, hbest, hw⟩ := hok
    simp only [Shared.tryStep, hpc, Option.some.injEq] at hs
    subst hs
    obtain ⟨g, I⟩ := E.inv
    refine .setCall E.inv E.solo ⟨hidle, hlen, hbest, ⟨(I.lane ptr).tailIndex_lt.1, le_rfl⟩, fun h => ?_⟩
    rcases hw h with hn | ⟨p, hp, hwait⟩
    · exact .inl hn
    · rcases List.mem_cons.1 hp with rfl | hp
      · exact .inr (.inl hwait)
      · exact .inr (.inr ⟨p, hp, hwait⟩)
  | loadHead ptr rest best n tail => exact E.loadHead hpc hs
  | best p => exact E.dequeueStep hpc hs
  | reload p =>
    rw [hpc] at hok
    exact hok.elim
  | other p rest =>
    rw [hpc] at hok
    exact hok.elim

omit [DecidableEq C] in
/-- A thread that enqueues makes a step. -/
theorem Exact.grown (E : Exact poolSize c u waiting taken) {q : Queue P C α}
    (hI : ∃ g, Inv poolSize q g) (G : Grown u.queue q) :
    Exact poolSize c { u with queue := q } waiting taken :=
  ⟨hI, E.solo.grown G, E.ok.grown G⟩

theorem Exact.next (E : Exact poolSize c u waiting taken) {act : UseAction P C α} (hact : Only c act)
    {u' : Shared P C α} (hs : u.step poolSize act = some u') :
    Exact poolSize c u' (recordCall u act (waiting, taken)).1 (recordCall u act (waiting, taken)).2 := by
  obtain ⟨g, I⟩ := E.inv
  have hf : ¬u.queue.fault ≠ none := by simp [I.noFault]
  cases act with
  | addProducer p =>
    simp only [Shared.step] at hs
    split at hs
    · cases hs
    · cases hs
      refine ⟨E.inv, E.solo, ?_⟩
      have hok := E.ok
      show TryOk _ c waiting taken (u.call c)
      cases hpc : u.call c <;> rw [hpc] at hok <;> exact hok
  | enqueue p x =>
    simp only [Shared.step] at hs
    split at hs
    · obtain ⟨q, hq, rfl⟩ := Option.map_eq_some_iff.1 hs
      have hI' := I.next (show Near u.queue (.enqueue p x) from trivial) hq
      rw [step, if_neg hf] at hq
      exact E.grown hI' (grown_enqueue hq)
    · cases hs
  | producer p ok k =>
    simp only [Shared.step] at hs
    obtain ⟨q, hq, rfl⟩ := Option.map_eq_some_iff.1 hs
    obtain ⟨g', I'⟩ := I.next (show Near u.queue (.producer p ok k) from trivial) hq
    rw [step, if_neg hf] at hq
    exact E.grown ⟨g', I'⟩ (producerMove_of_step hq I'.noFault).grown
  | tryDequeue c' =>
    obtain rfl : c' = c := hact
    have hok := E.ok
    simp only [Shared.step] at hs
    split at hs
    · rename_i r hpc
      cases hs
      rw [hpc] at hok
      refine .scan E.inv E.solo hok.1 rfl ⟨fun p size h => ?_, fun h => absurd h (lt_irrefl 0)⟩
        fun h => .inr ?_
      · cases h
      · obtain ⟨p, hp, hwait⟩ := List.any_eq_true.1 h
        exact ⟨p, hp, of_decide_eq_true hwait⟩
    · cases hs
  | consumer c' =>
    obtain rfl : c' = c := hact
    rw [Shared.step, if_neg hf] at hs
    exact E.tryStep hs

end

/-- **`try_dequeue` of the only consumer is exact.**  Whatever the threads that enqueue do meanwhile,
it returns false only if no sub-queue had an element when it was called, and it has dequeued one
element if it returns true and none if it returns false. -/
theorem try_dequeue_exact {u : Shared P C α} {waiting : Bool} {taken : ℕ}
    (h : Run.Reach (Run.logged (Shared.step poolSize) recordCall) (fun _ act => Only c act)
      (Shared.init poolSize allocated, false, 0) (u, waiting, taken)) :
    u.queue.fault = none ∧ ∀ r, u.call c = .returned r →
      u.queue.returned.length = taken + (if r then 1 else 0) ∧ (r = false → waiting = false) := by
  have E : Exact poolSize c u waiting taken := by
    refine h.invariant (I := fun x => Exact poolSize c x.1 x.2.1 x.2.2) ?_ ?_
    · refine ⟨⟨.init, inv_init⟩, ⟨fun _ _ => rfl, fun p => ?_, trivial⟩, ?_⟩
      · rfl
      · exact ⟨rfl, rfl, fun _ => rfl⟩
    · rintro ⟨u₁, w₁, t₁⟩ act ⟨u₂, x₂⟩ - E₁ hact hs
      obtain ⟨hs, rfl⟩ := Run.logged_eq_some.1 hs
      exact E₁.next hact hs
  obtain ⟨g, I⟩ := E.inv
  refine ⟨I.noFault, fun r hr => ?_⟩
  have hok := E.ok
  rw [hr] at hok
  exact hok.2

/-- Two threads enqueue, one of them while the consumer is in its first call; the second call takes
the other element, the third finds nothing. -/
theorem try_dequeue_exact_drain : ∃ x : Shared Bool Unit ℕ × Bool × ℕ,
    x.1.queue.returned.map (fun r => r.element) = [8, 7] ∧ x.1.call () = .returned false ∧
      x.1.queue.returned.length = x.2.2 ∧ x.2.1 = false := by
  have hrun : (Run.exec (Run.guarded (Run.logged (Shared.step 1) recordCall) fun _ act => Only () act)
      ((Shared.init 1 fun _ => true : Shared Bool Unit ℕ), false, 0)
      ([.addProducer true, .addProducer false, .enqueue true 7] ++
        List.replicate 9 (.producer true true 0) ++
        [.tryDequeue (), .consumer (), .consumer (), .enqueue false 8] ++
        List.replicate 11 (.producer false true 0) ++ List.replicate 14 (.consumer ()) ++
        .tryDequeue () :: List.replicate 16 (.consumer ()) ++
        .tryDequeue () :: List.replicate 4 (.consumer ()))).any
      (fun x => decide (x.1.queue.returned.map (fun r => r.element) = [8, 7] ∧
        x.1.call () = .returned false)) = true := by
    decide +kernel
  obtain ⟨⟨u, w, n⟩, hr, hout, hcall⟩ := Run.exists_reach_of_exec_guarded hrun
  obtain ⟨-, h⟩ := try_dequeue_exact hr
  exact ⟨(u, w, n), hout, hcall, (h false hcall).1, (h false hcall).2 rfl⟩

end DataProxy.ConcurrentQueue
