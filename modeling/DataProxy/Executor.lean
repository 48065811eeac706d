import DataProxy.Registry
import DataProxy.Lib.Bag
import DataProxy.Lib.CondVar

/-!
# How the workers of an executor wait

In `World` a worker may take a coroutine from the executor's queue whenever there is one.  Here is
what the threads of `loop_resume_coroutine` do to learn of it.  A step is a critical section under
`mutex_`: a worker that finds the predicate of `cv_.wait` false blocks in the same step, as
`cv_.wait` releases `mutex_` and blocks at once.  `resume_coroutine` notifies inside its critical
section, and only if `wait_thread_num > 0`; `stop` notifies after its own.

`wait_thread_num` counts the workers inside `cv_.wait`, also those that have been notified and have
not come back, and a busy worker can take an element that a notified one was woken for.  What makes
up for both is `Inv.matched`: as long as somebody sleeps, every element of the queue has a notified
worker on its way.

`Executor.simulated` says that the steps on the queue are those of `World`.
-/

namespace DataProxy

open Function (update)
open CondVar (count notifyAll notifyOne)

/-- Where a worker stands in `loop_resume_coroutine`. -/
inductive WorkerPc
  /-- Before `mutex_` is taken at the top of the loop. -/
  | top
  /-- In `cv_.wait`, not notified. -/
  | blocked
  /-- In `cv_.wait`, notified, before `mutex_` is taken again. -/
  | notified
  /-- In `cv_.wait`, not blocked and not notified: on the way in, or after a spurious wake-up. -/
  | awake
  /-- In `co_handle.first.resume()`. -/
  | resuming (e : CoEntry)
  | done
  deriving DecidableEq

/-- Between the increment and the decrement of `wait_thread_num`. -/
def WorkerPc.waiting : WorkerPc → Bool
  | .blocked | .notified | .awake => true
  | .top | .resuming _ | .done => false

/-- Notified and not yet awake again. -/
def WorkerPc.isNotified (p : WorkerPc) : Bool := decide (p = .notified)

/-- A `CoExecutor` with `n` workers. -/
structure Executor (n : ℕ) where
  queue : List CoEntry
  waitThreadNum : UInt16
  stop : Bool
  worker : Fin n → WorkerPc
  /-- The calls of `stop` that have stored `stop_` and not yet called `notify_all`. -/
  stopping : ℕ → Bool
  /-- Ghost: a call of `stop` has called `notify_all`. -/
  stopNotified : Bool

/-- Who moves. -/
inductive ExecutorAction (n : ℕ)
  /-- `resume_coroutine`: the critical section; `i` is the worker `notify_one` picks. -/
  | resume (e : CoEntry) (i : Fin n)
  /-- `stop`: the critical section. -/
  | storeStop (t : ℕ)
  /-- `stop`: the call of `notify_all`. -/
  | notifyStop (t : ℕ)
  /-- A blocked worker wakes up for no reason. -/
  | spurious (i : Fin n)
  /-- A worker; `j` is the place in the queue of the element `queue_.top()` gives. -/
  | worker (i : Fin n) (j : ℕ)

namespace Executor

variable {n : ℕ} {s s' : Executor n} {act : ExecutorAction n}

/-- The executor before any worker has run. -/
def init (n : ℕ) : Executor n := ⟨[], 0, false, fun _ => .top, fun _ => false, false⟩

/-- The element is a top of the `priority_queue`. -/
def isTop (s : Executor n) (e : CoEntry) : Bool :=
  s.queue.all fun e' => decide (e'.priority ≤ e.priority)

/-- `++wait_thread_num`, on the way into `cv_.wait`. -/
def enterWait (s : Executor n) (i : Fin n) : Executor n :=
  { s with waitThreadNum := s.waitThreadNum + 1, worker := update s.worker i .awake }

/-- `cv_.wait` with `mutex_` held: the predicate, and what follows it up to the release of
`mutex_`. -/
def proceed (s : Executor n) (i : Fin n) (j : ℕ) : Option (Executor n) :=
  if s.queue = [] ∧ s.stop = false then some { s with worker := update s.worker i .blocked }
  else if s.stop then
    some { s with waitThreadNum := s.waitThreadNum - 1, worker := update s.worker i .done }
  else match s.queue[j]? with
    | some e =>
      if s.isTop e then
        some { s with
          waitThreadNum := s.waitThreadNum - 1
          queue := s.queue.eraseIdx j
          worker := update s.worker i (.resuming e) }
      else none
    | none => none

/-- One step of the executor. -/
def step (s : Executor n) : ExecutorAction n → Option (Executor n)
  | .resume e i =>
    if 0 < s.waitThreadNum then
      (notifyOne .blocked .notified s.worker i).map fun f =>
        { s with queue := s.queue ++ [e], worker := f }
    else some { s with queue := s.queue ++ [e] }
  | .storeStop t =>
    if s.stopping t then none else some { s with stop := true, stopping := update s.stopping t true }
  | .notifyStop t =>
    if s.stopping t then
      some { s with
        worker := notifyAll .blocked .notified s.worker
        stopping := update s.stopping t false
        stopNotified := true }
    else none
  | .spurious i =>
    if s.worker i = .blocked then some { s with worker := update s.worker i .awake } else none
  | .worker i j =>
    match s.worker i with
    | .top => (s.enterWait i).proceed i j
    | .notified | .awake => s.proceed i j
    | .resuming _ => some { s with worker := update s.worker i .top }
    | .blocked | .done => none

/-- What a worker does with `mutex_` held. -/
theorem proceed_cases {i : Fin n} {j : ℕ} (hs : s.proceed i j = some s') :
    s.queue = [] ∧ s.stop = false ∧ s' = { s with worker := update s.worker i .blocked } ∨
    s.stop = true ∧
      s' = { s with waitThreadNum := s.waitThreadNum - 1, worker := update s.worker i .done } ∨
    s.stop = false ∧ ∃ e, s.queue[j]? = some e ∧ s.isTop e = true ∧
      s' = { s with
        waitThreadNum := s.waitThreadNum - 1
        queue := s.queue.eraseIdx j
        worker := update s.worker i (.resuming e) } := by
  unfold proceed at hs
  split at hs
  · rename_i h
    exact .inl ⟨h.1, h.2, by simpa using hs.symm⟩
  · split at hs
    · rename_i h
      exact .inr (.inl ⟨h, by simpa using hs.symm⟩)
    · rename_i h
      split at hs
      · rename_i e he
        simp only [Option.ite_none_right_eq_some, Option.some.injEq] at hs
        exact .inr (.inr ⟨by simpa using h, e, he, hs.1, hs.2.symm⟩)
      · cases hs

end Executor

/-- `queue_` of executor `k`. -/
def World.executorQueue (w : World) (k : ℕ) : List CoEntry :=
  w.coQueue.filter fun e => decide (e.executor = k)

/-- A dispatcher is in the call of `resume_coroutine` that pushes `e`. -/
def World.pushes (w : World) (d : Dispatcher) (e : CoEntry) : Prop :=
  ∃ k p first a rest A, w.disp d = .visit k p first a rest (.pushQueue e.handle) ∧
    w.awaits a = some A ∧ e = ⟨A.coExecutor, e.handle, A.waitCoPriority⟩

/-- Any element of the queue with the highest priority can be taken. -/
theorem World.exists_workerStep {w : World} {i : ℕ} {e : CoEntry} (hw : Wf w)
    (he : w.coQueue[i]? = some e) (htop : w.isTop e = true) :
    ∃ w', w.workerStep i = some w' ∧ w'.coQueue = w.coQueue.eraseIdx i := by
  unfold World.workerStep
  simp only [he, htop, if_true]
  split
  · rename_i a hc
    obtain ⟨A, ha, -⟩ := hw.at_await e.handle a (by rw [hc]; rfl)
    rw [ha]
    exact ⟨_, rfl, rfl⟩
  · exact ⟨_, rfl, rfl⟩

namespace Executor

variable {n : ℕ} {s s' : Executor n} {act : ExecutorAction n}

/-- The queue changes only by a push in `resume_coroutine` and by a pop in
`loop_resume_coroutine`. -/
theorem step_queue (hs : s.step act = some s') :
    s'.queue = s.queue ∨ (∃ e i, act = .resume e i ∧ s'.queue = s.queue ++ [e]) ∨
      ∃ j e, s.queue[j]? = some e ∧ s.isTop e = true ∧ s'.queue = s.queue.eraseIdx j := by
  have waits : ∀ {r : Executor n} {i : Fin n} {j : ℕ}, r.queue = s.queue →
      r.proceed i j = some s' → s'.queue = s.queue ∨
        ∃ j e, s.queue[j]? = some e ∧ s.isTop e = true ∧ s'.queue = s.queue.eraseIdx j := by
    intro r i j hr hp
    rcases proceed_cases hp with ⟨-, -, rfl⟩ | ⟨-, rfl⟩ | ⟨-, e, he, htop, rfl⟩
    · exact .inl hr
    · exact .inl hr
    · unfold isTop at htop
      rw [hr] at he htop
      exact .inr ⟨j, e, he, htop, by simp [hr]⟩
  cases act with
  | resume e i =>
    refine .inr (.inl ⟨e, i, rfl, ?_⟩)
    simp only [Executor.step] at hs
    split at hs
    · obtain ⟨f, -, rfl⟩ := Option.map_eq_some_iff.1 hs
      rfl
    · cases hs
      rfl
  | storeStop t =>
    simp only [Executor.step, Option.ite_none_left_eq_some, Option.some.injEq] at hs
    exact .inl (hs.2 ▸ rfl)
  | notifyStop t =>
    simp only [Executor.step, Option.ite_none_right_eq_some, Option.some.injEq] at hs
    exact .inl (hs.2 ▸ rfl)
  | spurious i =>
    simp only [Executor.step, Option.ite_none_right_eq_some, Option.some.injEq] at hs
    exact .inl (hs.2 ▸ rfl)
  | worker i j =>
    simp only [Executor.step] at hs
    split at hs
    · exact (waits (show (s.enterWait i).queue = s.queue from rfl) hs).imp_right .inr
    · exact (waits rfl hs).imp_right .inr
    · exact (waits rfl hs).imp_right .inr
    · cases hs
      exact .inl rfl
    · cases hs
    · cases hs

/-- **The queue of an executor is a part of the queue of `World`.**  A step of the executor leaves
the queue alone or is a step of any state of `World` that has the same queue, where a push is made by
a dispatcher that is about to make it. -/
theorem simulated {w : World} {k : ℕ} (hw : Wf w) (hfault : w.fault = none)
    (hq : w.executorQueue k = s.queue)
    (hpush : ∀ e i, act = .resume e i → e.executor = k ∧ ∃ d, w.pushes d e)
    (hs : s.step act = some s') :
    s'.queue = s.queue ∨
      ∃ act' w', DataProxy.step w act' = some w' ∧ w'.executorQueue k = s'.queue := by
  rcases step_queue hs with h | ⟨e, i, hact, h⟩ | ⟨j, e, hj, htop, h⟩
  · exact .inl h
  · obtain ⟨hk, d, k', p, first, a, rest, A, hd, ha, he⟩ := hpush e i hact
    refine .inr ⟨.dispatch d 0, w.visitStep d k' p first a rest A (.pushQueue e.handle), ?_, ?_⟩
    · simp [DataProxy.step, hfault, World.dispatchStep, hd, ha]
    · have hk' : A.coExecutor = k := by rw [he] at hk; exact hk
      rw [h, ← hq, he]
      simp [World.visitStep, World.executorQueue, hk']
  · rw [← hq] at hj
    obtain ⟨m, hm, hrest⟩ := Bag.exists_take_of_filter hj
    have hmem := List.mem_filter.1 (List.mem_of_getElem? hj)
    have hk : e.executor = k := of_decide_eq_true hmem.2
    have htop' : w.isTop e = true := by
      unfold isTop at htop
      rw [← hq, World.executorQueue, List.all_filter, ← hk] at htop
      simpa [World.isTop, Decidable.imp_iff_not_or] using htop
    obtain ⟨w', hw', hcq⟩ := World.exists_workerStep hw hm htop'
    refine .inr ⟨.worker m, w', by simpa [DataProxy.step, hfault] using hw', ?_⟩
    rw [World.executorQueue, hcq, hrest, h, ← hq]
    rfl

/-- What every step of the executor keeps. -/
structure Inv (s : Executor n) : Prop where
  counted : s.waitThreadNum.toNat = count WorkerPc.waiting s.worker
  matched : s.stop = false → (∃ i, s.worker i = .blocked) →
    s.queue.length ≤ count WorkerPc.isNotified s.worker
  stored : ∀ t, s.stopping t = true → s.stop = true
  stopped : s.stopNotified = true → s.stop = true ∧ ∀ i, s.worker i ≠ .blocked

namespace Inv

theorem init : (Executor.init n).Inv where
  counted := by simp [Executor.init, count, WorkerPc.waiting]
  matched := by simp [Executor.init]
  stored := by simp [Executor.init]
  stopped := by simp [Executor.init]

/-- Somebody blocked is found by `resume_coroutine`. -/
theorem waitThreadNum_pos (h : s.Inv) {i : Fin n} (hi : s.worker i = .blocked) :
    0 < s.waitThreadNum := by
  have hpos : 0 < count WorkerPc.waiting s.worker :=
    CondVar.count_pos_iff.2 ⟨i, by rw [hi]; rfl⟩
  rw [← h.counted] at hpos
  exact UInt16.lt_iff_toNat_lt.2 hpos

/-- A worker that is not waiting comes into `cv_.wait`.  There are fewer than `2 ^ 16` workers, so
the counter does not wrap around. -/
theorem enterWait (hn : n < 2 ^ 16) (h : s.Inv) {i : Fin n} (hi : s.worker i = .top) :
    (s.enterWait i).Inv := by
  have hw := CondVar.count_update WorkerPc.waiting s.worker i .awake
  have hnot := CondVar.count_update WorkerPc.isNotified s.worker i .awake
  have hle := CondVar.count_le_card WorkerPc.waiting (update s.worker i .awake)
  rw [Fintype.card_fin] at hle
  simp only [hi, WorkerPc.waiting, WorkerPc.isNotified, Bool.toNat_false, Bool.toNat_true,
    reduceCtorEq, decide_false] at hw hnot
  have other : ∀ k, update s.worker i .awake k = .blocked → s.worker k = .blocked :=
    fun _ => CondVar.eq_of_update_eq (by simp)
  exact
    { counted := by
        have hc := h.counted
        show (s.waitThreadNum + 1).toNat = count WorkerPc.waiting (update s.worker i .awake)
        rw [UInt16.toNat_add, hc, UInt16.toNat_one]
        omega
      matched := by
        rintro hs ⟨k, hk⟩
        have hm := h.matched hs ⟨k, other k hk⟩
        show s.queue.length ≤ count WorkerPc.isNotified (update s.worker i .awake)
        omega
      stored := h.stored
      stopped := fun hs => ⟨(h.stopped hs).1, fun k hk => (h.stopped hs).2 k (other k hk)⟩ }

/-- The counter after the decrement. -/
theorem leaveWait (h : s.Inv) {i : Fin n} {x : WorkerPc} (hi : (s.worker i).waiting = true)
    (hx : x.waiting = false) :
    (s.waitThreadNum - 1).toNat = count WorkerPc.waiting (update s.worker i x) := by
  have hw := CondVar.count_update WorkerPc.waiting s.worker i x
  rw [hi, hx, Bool.toNat_true, Bool.toNat_false] at hw
  have hc := h.counted
  have hle : (1 : UInt16) ≤ s.waitThreadNum := by
    rw [UInt16.le_iff_toNat_le, UInt16.toNat_one]
    omega
  rw [UInt16.toNat_sub_of_le _ _ hle, UInt16.toNat_one]
  omega

/-- A worker inside `cv_.wait` takes `mutex_`. -/
theorem proceed (h : s.Inv) {i : Fin n} {j : ℕ} (hi : (s.worker i).waiting = true)
    (hs : s.proceed i j = some s') : s'.Inv := by
  rcases proceed_cases hs with ⟨hq, hstop, rfl⟩ | ⟨hstop, rfl⟩ | ⟨hstop, e, he, -, rfl⟩
  · have hw := CondVar.count_update WorkerPc.waiting s.worker i .blocked
    rw [hi] at hw
    exact
      { counted := by
          have hc := h.counted
          show s.waitThreadNum.toNat = count WorkerPc.waiting (update s.worker i .blocked)
          simp only [WorkerPc.waiting, Bool.toNat_true] at hw
          omega
        matched := fun _ _ => by simp [hq]
        stored := h.stored
        stopped := fun hn => absurd (h.stopped hn).1 (by simp [hstop]) }
  · exact
      { counted := h.leaveWait hi rfl
        matched := fun hs => absurd hs (by simp [hstop])
        stored := h.stored
        stopped := fun hn =>
          ⟨hstop, fun k hk => (h.stopped hn).2 k (CondVar.eq_of_update_eq (by simp) hk)⟩ }
  · have hnot := CondVar.count_update WorkerPc.isNotified s.worker i (.resuming e)
    rw [show (WorkerPc.resuming e).isNotified = false from rfl, Bool.toNat_false] at hnot
    have hj : j < s.queue.length := (List.getElem?_eq_some_iff.1 he).1
    exact
      { counted := h.leaveWait hi rfl
        matched := by
          -- the worker takes one element with it and was at most one notified worker
          rintro - ⟨k, hk⟩
          have hm := h.matched hstop ⟨k, CondVar.eq_of_update_eq (by simp) hk⟩
          have hone := Bool.toNat_le (s.worker i).isNotified
          simp only [List.length_eraseIdx, hj, if_true]
          omega
        stored := h.stored
        stopped := fun hn => absurd (h.stopped hn).1 (by simp [hstop]) }

/-- `resume_coroutine`. -/
theorem resume (h : s.Inv) {e : CoEntry} {i : Fin n} (hs : s.step (.resume e i) = some s') :
    s'.Inv := by
  simp only [Executor.step] at hs
  split at hs
  · obtain ⟨f, hf, rfl⟩ := Option.map_eq_some_iff.1 hs
    rcases CondVar.notifyOne_cases hf with ⟨hi, rfl⟩ | ⟨hno, rfl⟩
    · -- the new element is matched by the worker notified for it
      have hw := CondVar.count_update WorkerPc.waiting s.worker i .notified
      have hnot := CondVar.count_update WorkerPc.isNotified s.worker i .notified
      simp only [hi, WorkerPc.waiting, Bool.toNat_true] at hw
      rw [hi, show WorkerPc.blocked.isNotified = false from rfl,
        show WorkerPc.notified.isNotified = true from rfl, Bool.toNat_false,
        Bool.toNat_true] at hnot
      exact
        { counted := by
            have hc := h.counted
            show s.waitThreadNum.toNat = count WorkerPc.waiting (update s.worker i .notified)
            omega
          matched := by
            rintro hs -
            have hm := h.matched hs ⟨i, hi⟩
            simp only [List.length_append, List.length_singleton]
            omega
          stored := h.stored
          stopped := fun hn => absurd hi ((h.stopped hn).2 i) }
    · exact
        { counted := h.counted
          matched := fun _ ⟨k, hk⟩ => absurd hk (hno k)
          stored := h.stored
          stopped := h.stopped }
  · rename_i hzero
    cases hs
    exact
      { counted := h.counted
        matched := fun _ ⟨k, hk⟩ => absurd (h.waitThreadNum_pos hk) hzero
        stored := h.stored
        stopped := h.stopped }

/-- The notify of `stop`. -/
theorem notifyStop (h : s.Inv) {t : ℕ} (ht : s.stopping t = true) :
    Inv { s with
      worker := notifyAll .blocked .notified s.worker
      stopping := update s.stopping t false
      stopNotified := true } := by
  have hstop := h.stored t ht
  have same : ∀ i, (notifyAll .blocked .notified s.worker i).waiting = (s.worker i).waiting := by
    intro i
    unfold CondVar.notifyAll
    split
    · rename_i hi
      rw [hi]
      rfl
    · rfl
  exact
    { counted := by
        rw [h.counted]
        unfold CondVar.count
        simp only [same]
      matched := fun hs => absurd hs (by simp [hstop])
      stored := fun _ _ => hstop
      stopped := fun _ => ⟨hstop, fun _ => CondVar.notifyAll_ne_blocked (by simp)⟩ }

/-- A move of one worker that neither blocks it nor changes what is counted. -/
theorem move (h : s.Inv) {i : Fin n} {x : WorkerPc} (hw : x.waiting = (s.worker i).waiting)
    (hb : x ≠ .blocked) (hno : s.worker i ≠ .notified) :
    Inv { s with worker := update s.worker i x } := by
  have hcw := CondVar.count_update WorkerPc.waiting s.worker i x
  have hcn := CondVar.count_update WorkerPc.isNotified s.worker i x
  have other : ∀ k, update s.worker i x k = .blocked → s.worker k = .blocked :=
    fun _ => CondVar.eq_of_update_eq hb
  exact
    { counted := by
        have hc := h.counted
        rw [hw] at hcw
        show s.waitThreadNum.toNat = count WorkerPc.waiting (update s.worker i x)
        omega
      matched := by
        rintro hs ⟨k, hk⟩
        have hm := h.matched hs ⟨k, other k hk⟩
        have hzero : (s.worker i).isNotified = false := by simpa [WorkerPc.isNotified] using hno
        rw [hzero, Bool.toNat_false] at hcn
        show s.queue.length ≤ count WorkerPc.isNotified (update s.worker i x)
        omega
      stored := h.stored
      stopped := fun hn => ⟨(h.stopped hn).1, fun k hk => (h.stopped hn).2 k (other k hk)⟩ }

/-- **One step.** -/
theorem step (hn : n < 2 ^ 16) (h : s.Inv) (hs : s.step act = some s') : s'.Inv := by
  cases act with
  | resume e i => exact h.resume hs
  | storeStop t =>
    simp only [Executor.step, Option.ite_none_left_eq_some, Option.some.injEq] at hs
    obtain ⟨-, rfl⟩ := hs
    exact
      { counted := h.counted
        matched := fun hs => by cases hs
        stored := fun _ _ => rfl
        stopped := fun hn => ⟨rfl, (h.stopped hn).2⟩ }
  | notifyStop t =>
    simp only [Executor.step, Option.ite_none_right_eq_some, Option.some.injEq] at hs
    obtain ⟨ht, rfl⟩ := hs
    exact h.notifyStop ht
  | spurious i =>
    simp only [Executor.step, Option.ite_none_right_eq_some, Option.some.injEq] at hs
    obtain ⟨hi, rfl⟩ := hs
    exact h.move (by rw [hi]; rfl) (by simp) (by simp [hi])
  | worker i j =>
    simp only [Executor.step] at hs
    split at hs
    · rename_i hi
      exact (h.enterWait hn hi).proceed (by simp [Executor.enterWait, WorkerPc.waiting]) hs
    · rename_i hi
      exact h.proceed (by rw [hi]; rfl) hs
    · rename_i hi
      exact h.proceed (by rw [hi]; rfl) hs
    · rename_i e hi
      cases hs
      exact h.move (by rw [hi]; rfl) (by simp) (by simp [hi])
    · cases hs
    · cases hs

end Inv

theorem inv_of_reachable (hn : n < 2 ^ 16) (h : Run.Reach step Run.Any (init n) s) : s.Inv :=
  h.invariant (I := Inv) .init fun _ _ _ _ ih _ hs => ih.step hn hs

/-- The counter is right; while somebody sleeps every element of the queue has a notified worker on
its way; nobody sleeps after the notify of `stop`; so before a stop no element waits while a worker
sleeps and nobody has been notified for it. -/
structure NoLostWakeUp (s : Executor n) : Prop where
  counted : s.waitThreadNum.toNat = count WorkerPc.waiting s.worker
  matched : s.stop = false → (∃ i, s.worker i = .blocked) →
    s.queue.length ≤ count WorkerPc.isNotified s.worker
  stopped : s.stopNotified = true → ∀ i, s.worker i ≠ .blocked
  attended : s.stop = false → (∃ i, s.worker i = .blocked) → s.queue ≠ [] →
    ∃ i, s.worker i = .notified

/-- **The executor loses no wake-up**, with any number of workers that `wait_thread_num` can
count. -/
theorem noLostWakeUp (hn : n < 2 ^ 16) (h : Run.Reach step Run.Any (init n) s) :
    NoLostWakeUp s := by
  have hi := inv_of_reachable hn h
  refine ⟨hi.counted, hi.matched, fun hs => (hi.stopped hs).2, fun hs hb hq => ?_⟩
  have hpos : 0 < count WorkerPc.isNotified s.worker :=
    (List.length_pos_iff.2 hq).trans_le (hi.matched hs hb)
  obtain ⟨i, hi⟩ := CondVar.count_pos_iff.1 hpos
  exact ⟨i, of_decide_eq_true hi⟩

/-- Two workers block, a coroutine is scheduled, and the worker notified for it is not awake yet. -/
def oneNotified : List (ExecutorAction 2) :=
  [.worker 0 0, .worker 1 0, .resume { executor := 0, handle := 1, priority := 0 } 0]

theorem noLostWakeUp_oneNotified :
    ∃ s : Executor 2, Run.Reach step Run.Any (init 2) s ∧ s.stop = false ∧
      s.worker 1 = .blocked ∧ s.queue ≠ [] ∧ NoLostWakeUp s := by
  have hrun : (Run.exec step (init 2) oneNotified).any (fun s => decide
      (s.stop = false ∧ s.worker 1 = .blocked ∧ s.queue ≠ [])) = true := by
    decide +kernel
  obtain ⟨s, hs, hstop, hb, hq⟩ := Run.exists_reach_of_exec hrun
  exact ⟨s, hs, hstop, hb, hq, noLostWakeUp (by decide) hs⟩

end Executor

end DataProxy
