import DataProxy.Trans
import DataProxy.Lib.CondVar

/-!
# How the dispatch threads wait

In `World` a dispatcher may take the next message whenever there is one.  Here is what the two
threads of `MessageBus::run` do to learn of it: `cv_.wait` takes `mutex_` and evaluates the
predicate, and if it was false the thread releases `mutex_` and blocks in a later step.  The callers
of `push_message`, `push_high_priority_message` and `stop` store first and call `notify_all` in a
later step, and they do not take `mutex_`.

`Bus.simulated` says that the steps on the queues and on `stop_` are those of `World`.
-/

namespace DataProxy

open Function (update)

/-- Where a thread stands in `MessageBus::run`. -/
inductive RunPc
  /-- At `while (!stop_)`. -/
  | loop
  /-- Before `mutex_` is taken. -/
  | wait
  /-- With `mutex_` held; the predicate was false. -/
  | checked
  /-- In `cv_.wait`, not notified. -/
  | blocked
  /-- In `cv_.wait`, notified, before `mutex_` is taken again. -/
  | notified
  /-- In `co_task.resume()`, at the top of the loop of `dispatch_message`. -/
  | dispatch
  | done
  deriving DecidableEq

/-- What the threads of the bus share. -/
structure Bus where
  /-- `queue_` and `high_priority_queue_`. -/
  queue : Dispatcher → List Packet
  stop : Bool
  thread : Dispatcher → RunPc
  /-- The callers that have made their store and not yet called `notify_all`. -/
  calls : ℕ → Bool

/-- Who moves. -/
inductive BusAction
  /-- `push_message` or `push_high_priority_message`: the enqueue. -/
  | store (t : ℕ) (d : Dispatcher) (m : InternalMessage)
  /-- `stop`, also from the destructor: the store of `stop_`. -/
  | storeStop (t : ℕ)
  /-- The call of `notify_all` that follows. -/
  | notify (t : ℕ)
  /-- The dispatch thread of `d`; `i` says which element a dequeue gives. -/
  | run (d : Dispatcher) (i : ℕ)

namespace Bus

variable {s s' : Bus} {act : BusAction}

/-- The bus before any thread has started. -/
def init : Bus := ⟨fun _ => [], false, fun _ => .loop, fun _ => false⟩

/-- The predicate `queue.size_approx() > 0 || stop_`. -/
def ready (s : Bus) (d : Dispatcher) : Bool := !(s.queue d).isEmpty || s.stop

/-- No thread holds `mutex_` between two steps. -/
def mutexFree (s : Bus) : Bool :=
  decide (s.thread .normal ≠ .checked ∧ s.thread .high ≠ .checked)

/-- The next statement of `run` and of the loop it resumes. -/
def runStep (s : Bus) (d : Dispatcher) (i : ℕ) : Option Bus :=
  match s.thread d with
  | .loop => some { s with thread := update s.thread d (if s.stop then .done else .wait) }
  | .wait | .notified =>
    if s.mutexFree then
      some { s with thread := update s.thread d (if s.ready d then .dispatch else .checked) }
    else none
  | .checked => some { s with thread := update s.thread d .blocked }
  | .blocked | .done => none
  | .dispatch =>
    if s.stop ∨ s.queue d = [] then some { s with thread := update s.thread d .loop }
    else if i < (s.queue d).length then
      some { s with queue := update s.queue d ((s.queue d).eraseIdx i) }
    else none

/-- One step of the bus. -/
def step (s : Bus) : BusAction → Option Bus
  | .store t d m =>
    if s.calls t then none
    else some { s with
      queue := update s.queue d (s.queue d ++ [{ msg := m }]), calls := update s.calls t true }
  | .storeStop t =>
    if s.calls t then none else some { s with stop := true, calls := update s.calls t true }
  | .notify t =>
    if s.calls t then
      some { s with
        thread := CondVar.notifyAll .blocked .notified s.thread, calls := update s.calls t false }
    else none
  | .run d i => s.runStep d i

/-- A thread of `run` changes a queue only by the dequeue of `dispatch_message`. -/
theorem runStep_queue {d : Dispatcher} {i : ℕ} (hs : s.runStep d i = some s') :
    s'.queue = s.queue ∧ s'.stop = s.stop ∨
      s.thread d = .dispatch ∧ s.stop = false ∧ i < (s.queue d).length ∧
        s' = { s with queue := update s.queue d ((s.queue d).eraseIdx i) } := by
  unfold Bus.runStep at hs
  split at hs
  · cases hs
    exact .inl ⟨rfl, rfl⟩
  · simp only [Option.ite_none_right_eq_some, Option.some.injEq] at hs
    obtain ⟨-, rfl⟩ := hs
    exact .inl ⟨rfl, rfl⟩
  · simp only [Option.ite_none_right_eq_some, Option.some.injEq] at hs
    obtain ⟨-, rfl⟩ := hs
    exact .inl ⟨rfl, rfl⟩
  · cases hs
    exact .inl ⟨rfl, rfl⟩
  · cases hs
  · cases hs
  · rename_i hd
    split at hs
    · cases hs
      exact .inl ⟨rfl, rfl⟩
    · rename_i hwork
      simp only [Option.ite_none_right_eq_some, Option.some.injEq] at hs
      obtain ⟨hi, rfl⟩ := hs
      exact .inr ⟨hd, by simpa using fun h => hwork (.inl h), hi, rfl⟩

/-- **The queues of the bus are those of `World`.**  A step of the bus leaves the queues and `stop_`
alone or is a step of any state of `World` that has the same queues and the same `stop_`. -/
theorem simulated {w : World} (hq : w.busQueue = s.queue) (hstop : w.stop = s.stop)
    (hfault : w.fault = none) (hdisp : ∀ d, s.thread d = .dispatch → w.disp d = .fetch)
    (hs : s.step act = some s') :
    s'.queue = s.queue ∧ s'.stop = s.stop ∨
      ∃ act' w', DataProxy.step w act' = some w' ∧ w'.busQueue = s'.queue ∧ w'.stop = s'.stop := by
  cases act with
  | store t d m =>
    simp only [Bus.step, Option.ite_none_left_eq_some, Option.some.injEq] at hs
    obtain ⟨-, rfl⟩ := hs
    refine .inr ?_
    cases d with
    | normal =>
      refine ⟨.push m, w.enqueueBus .normal { msg := m }, by simp [DataProxy.step, hfault], ?_, hstop⟩
      simp [World.enqueueBus, hq]
    | high =>
      refine ⟨.pushHigh m, w.enqueueBus .high { msg := m }, by simp [DataProxy.step, hfault], ?_,
        hstop⟩
      simp [World.enqueueBus, hq]
  | storeStop t =>
    simp only [Bus.step, Option.ite_none_left_eq_some, Option.some.injEq] at hs
    obtain ⟨-, rfl⟩ := hs
    exact .inr ⟨.stop, { w with stop := true }, by simp [DataProxy.step, hfault], hq, rfl⟩
  | notify t =>
    simp only [Bus.step, Option.ite_none_right_eq_some, Option.some.injEq] at hs
    obtain ⟨-, rfl⟩ := hs
    exact .inl ⟨rfl, rfl⟩
  | run d i =>
    rcases runStep_queue hs with h | ⟨hd, hnostop, hi, rfl⟩
    · exact .inl h
    · refine .inr ⟨.dispatch d i, { w with
        busQueue := update w.busQueue d ((w.busQueue d).eraseIdx i)
        disp := update w.disp d (.lock .shared ((s.queue d).get ⟨i, hi⟩)) }, ?_, ?_, hstop⟩
      · simp [DataProxy.step, hfault, World.dispatchStep, hdisp d hd, hstop, hnostop, hq, hi]
      · simp [hq]

/-- A thread that has found nothing to do has still nothing to do, or somebody is going to call
`notify_all`. -/
def Watched (s : Bus) : Prop :=
  ∀ d, s.thread d = .checked ∨ s.thread d = .blocked → s.ready d = true → ∃ t, s.calls t = true

/-- The condition on one step: when `notify_all` is called, no thread is between a predicate that
was false and its block while the predicate has become true. -/
def notifiesBlocked (s : Bus) : BusAction → Bool
  | .notify _ =>
    decide ((s.thread .normal = .checked → s.ready .normal = false) ∧
      (s.thread .high = .checked → s.ready .high = false))
  | _ => true

theorem notifiesBlocked_notify {t : ℕ} (h : notifiesBlocked s (.notify t) = true)
    {d : Dispatcher} (hd : s.thread d = .checked) : s.ready d = false := by
  have h := of_decide_eq_true h
  cases d with
  | normal => exact h.1 hd
  | high => exact h.2 hd

/-- A thread of the bus moves and nothing else changes. -/
theorem Watched.move {d : Dispatcher} {x : RunPc} (h : s.Watched)
    (hx : x = .checked ∨ x = .blocked → s.ready d = true → ∃ t, s.calls t = true) :
    Watched { s with thread := update s.thread d x } := by
  intro d' hd' hr
  by_cases hdd : d' = d
  · subst hdd
    simp only [Function.update_self] at hd'
    exact hx hd' hr
  · simp only [Function.update_of_ne hdd] at hd'
    exact h d' hd' hr

/-- The dispatch threads keep watch. -/
theorem Watched.runStep {d : Dispatcher} {i : ℕ} (h : s.Watched)
    (hs : s.runStep d i = some s') : s'.Watched := by
  unfold Bus.runStep at hs
  split at hs
  · cases hs
    refine h.move fun hx => ?_
    split at hx <;> simp at hx
  · simp only [Option.ite_none_right_eq_some, Option.some.injEq] at hs
    obtain ⟨-, rfl⟩ := hs
    refine h.move fun hx hr => ?_
    simp [hr] at hx
  · simp only [Option.ite_none_right_eq_some, Option.some.injEq] at hs
    obtain ⟨-, rfl⟩ := hs
    refine h.move fun hx hr => ?_
    simp [hr] at hx
  · rename_i hd
    cases hs
    exact h.move fun _ hr => h d (.inl hd) hr
  · cases hs
  · cases hs
  · rename_i hd
    split at hs
    · cases hs
      exact h.move fun hx => by simp at hx
    · simp only [Option.ite_none_right_eq_some, Option.some.injEq] at hs
      obtain ⟨-, rfl⟩ := hs
      -- only the queue of the running thread gets shorter
      intro d' hd' hr
      have hdd : d' ≠ d := by
        rintro rfl
        simp [hd] at hd'
      refine h d' hd' ?_
      simpa [ready, Function.update_of_ne hdd] using hr

/-- **One step.** -/
theorem Watched.step (h : s.Watched) (hok : notifiesBlocked s act = true)
    (hs : s.step act = some s') : s'.Watched := by
  cases act with
  | store t d m =>
    simp only [Bus.step, Option.ite_none_left_eq_some, Option.some.injEq] at hs
    obtain ⟨-, rfl⟩ := hs
    exact fun _ _ _ => ⟨t, Function.update_self ..⟩
  | storeStop t =>
    simp only [Bus.step, Option.ite_none_left_eq_some, Option.some.injEq] at hs
    obtain ⟨-, rfl⟩ := hs
    exact fun _ _ _ => ⟨t, Function.update_self ..⟩
  | notify t =>
    simp only [Bus.step, Option.ite_none_right_eq_some, Option.some.injEq] at hs
    obtain ⟨-, rfl⟩ := hs
    rintro d (hd | hd) hr
    · have hd' : s.thread d = .checked := CondVar.notifyAll_eq (by simp) hd
      have hno := notifiesBlocked_notify hok hd'
      exact absurd (show s.ready d = true from hr) (by simp [hno])
    · exact absurd hd (CondVar.notifyAll_ne_blocked (by simp))
  | run d i => exact h.runStep hs

theorem watched_of_reachable
    (h : Run.Reach step (fun s act => notifiesBlocked s act = true) init s) : s.Watched :=
  h.invariant (I := Watched) (fun d hd => by simp [init] at hd) fun _ _ _ _ ih hok hs =>
    ih.step hok hs

/-- No dispatch thread is blocked and un-notified on work or on a stop request, with no caller
between its store and its notify. -/
def NeverSleepsOnWork (s : Bus) : Prop :=
  ∀ d, s.thread d = .blocked → (∀ t, s.calls t = false) → s.queue d = [] ∧ s.stop = false

/-- **The bus never sleeps on work or on a stop request**, along every run in which no `notify_all`
falls between a thread's test of the predicate and its block after the store it announces. -/
theorem neverSleeps_of_notifiesBlocked
    (h : Run.Reach step (fun s act => notifiesBlocked s act = true) init s) :
    NeverSleepsOnWork s := by
  intro d hd hcalls
  have hno : s.ready d ≠ true := by
    intro hr
    obtain ⟨t, ht⟩ := watched_of_reachable h d (.inr hd) hr
    rw [hcalls t] at ht
    cases ht
  simpa [ready] using hno

/-- A thread finds its queue empty; a message is pushed and announced; then the thread blocks. -/
def lostWakeUp : List BusAction :=
  [.run .normal 0, .run .normal 0, .store 0 .normal { name := "m" }, .notify 0, .run .normal 0]

/-- The same with the notify after the block. -/
def keptWakeUp : List BusAction :=
  [.run .normal 0, .run .normal 0, .store 0 .normal { name := "m" }, .run .normal 0]

/-- Without the condition a thread can sleep on a message. -/
theorem sleeps_on_work : ∃ s, Run.Reach step Run.Any init s ∧ ¬NeverSleepsOnWork s := by
  have hrun : (Run.exec step init lostWakeUp).isSome = true := by decide
  obtain ⟨s, hs⟩ := Option.isSome_iff_exists.1 hrun
  refine ⟨s, Run.reach_of_exec hs, fun h => ?_⟩
  cases hs
  have := h .normal (by decide) (fun t => by by_cases ht : t = 0 <;> simp [ht, init])
  exact absurd this.1 (by decide)

theorem neverSleeps_keptWakeUp :
    ∃ s, Run.Reach step (fun s act => notifiesBlocked s act = true) init s ∧
      s.thread .normal = .blocked ∧ s.queue .normal ≠ [] ∧ NeverSleepsOnWork s := by
  have hrun : (Run.exec (Run.guarded step fun s act => notifiesBlocked s act = true) init
      keptWakeUp).any (fun s => decide (s.thread .normal = .blocked ∧ s.queue .normal ≠ [])) =
      true := by
    decide +kernel
  obtain ⟨s, hs, hb, hq⟩ := Run.exists_reach_of_exec_guarded hrun
  exact ⟨s, hs, hb, hq, neverSleeps_of_notifiesBlocked hs⟩

end Bus

end DataProxy
