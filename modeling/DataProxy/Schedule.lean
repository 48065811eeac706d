import DataProxy.Trans
import DataProxy.Lib.Bag

/-!
# Who may run a coroutine

At any moment a coroutine should be in exactly one place: executed by a thread, stopped, held by a
dispatcher that has marked it `QueueResume`, or in the executor's queue.  `SingleClaim w c` says
that the last three exclude each other and the first.  It is kept by every step except a store of
`QueueResume` on a coroutine that is no longer in `StopState`; the check in `push_message` and the
store in `resume_coroutine` are two steps, and with two dispatchers the check can be out of date.
-/

namespace DataProxy

open Function (update)

variable {w w' : World} {act : Action} {c : CoId}

/-- The coroutines in the executor's queue. -/
def World.scheduled (w : World) : List CoId := w.coQueue.map CoEntry.handle

/-- A thread is executing `c`. -/
def World.isRunning (w : World) (c : CoId) : Prop := (w.ctl c).running = true

/-- At most one of: stopped, marked by a dispatcher, queued; and each of them only while
suspended. -/
structure SingleClaim (w : World) (c : CoId) : Prop where
  stop_ctl : (w.promise c).state = .stopState → ∃ a, w.ctl c = .suspended a
  stop_queue : (w.promise c).state = .stopState → c ∉ w.scheduled
  stop_push : (w.promise c).state = .stopState → ∀ d, (w.disp d).pushing ≠ some c
  queue_ctl : c ∈ w.scheduled → ∃ a, w.ctl c = .suspended a
  queue_push : c ∈ w.scheduled → ∀ d, (w.disp d).pushing ≠ some c
  push_ctl : ∀ d, (w.disp d).pushing = some c → ∃ a, w.ctl c = .suspended a
  push_one : ∀ d d', (w.disp d).pushing = some c → (w.disp d').pushing = some c → d = d'
  count : w.scheduled.count c ≤ 1

namespace SingleClaim

/-- A step that schedules nobody, stops nobody and leaves the suspended coroutines alone. -/
theorem frame (h : SingleClaim w c)
    (hs : (w'.promise c).state = .stopState → (w.promise c).state = .stopState)
    (hc : ∀ a, w.ctl c = .suspended a → w'.ctl c = .suspended a)
    (hq : w'.coQueue = w.coQueue)
    (hp : ∀ d, (w'.disp d).pushing = some c → (w.disp d).pushing = some c) :
    SingleClaim w' c := by
  have hq' : w'.scheduled = w.scheduled := by rw [World.scheduled, hq]; rfl
  have keep : (∃ a, w.ctl c = .suspended a) → ∃ a, w'.ctl c = .suspended a :=
    fun ⟨a, ha⟩ => ⟨a, hc a ha⟩
  exact
    { stop_ctl := fun st => keep (h.stop_ctl (hs st))
      stop_queue := fun st => hq' ▸ h.stop_queue (hs st)
      stop_push := fun st d hd => h.stop_push (hs st) d (hp d hd)
      queue_ctl := fun hm => keep (h.queue_ctl (hq' ▸ hm))
      queue_push := fun hm d hd => h.queue_push (hq' ▸ hm) d (hp d hd)
      push_ctl := fun d hd => keep (h.push_ctl d (hp d hd))
      push_one := fun d d' hd hd' => h.push_one d d' (hp d hd) (hp d' hd')
      count := hq' ▸ h.count }

/-- A step that only takes an element from the executor's queue. -/
theorem dequeue {x : CoId} {l : List CoId} (h : SingleClaim w c) (hl : w.scheduled.Perm (x :: l))
    (hl' : w'.scheduled = l) (hc : w'.ctl c = w.ctl c) (hp : w'.promise c = w.promise c)
    (hd : ∀ d, w'.disp d = w.disp d) : SingleClaim w' c := by
  have hm : c ∈ w'.scheduled → c ∈ w.scheduled :=
    fun hm => hl.mem_iff.2 (List.mem_cons_of_mem _ (hl' ▸ hm))
  exact
    { stop_ctl := fun hs => hc ▸ h.stop_ctl (hp ▸ hs)
      stop_queue := fun hs hm' => h.stop_queue (hp ▸ hs) (hm hm')
      stop_push := fun hs d => hd d ▸ h.stop_push (hp ▸ hs) d
      queue_ctl := fun hm' => hc ▸ h.queue_ctl (hm hm')
      queue_push := fun hm' d => hd d ▸ h.queue_push (hm hm') d
      push_ctl := fun d hd' => hc ▸ h.push_ctl d (hd d ▸ hd')
      push_one := fun d d' h₁ h₂ => h.push_one d d' (hd d ▸ h₁) (hd d' ▸ h₂)
      count := by
        have hle := h.count
        rw [hl.count_eq, List.count_cons] at hle
        rw [hl']
        omega }

theorem not_suspended_of_running (hr : w.isRunning c) (a : Addr) : w.ctl c ≠ .suspended a := by
  intro h
  simp [World.isRunning, h, Ctl.running] at hr

theorem not_scheduled_of_running (h : SingleClaim w c) (hr : w.isRunning c) : c ∉ w.scheduled :=
  fun hm => (h.queue_ctl hm).elim (not_suspended_of_running hr)

theorem not_stopped_of_running (h : SingleClaim w c) (hr : w.isRunning c) :
    (w.promise c).state ≠ .stopState :=
  fun hs => (h.stop_ctl hs).elim (not_suspended_of_running hr)

theorem not_pushing_of_running (h : SingleClaim w c) (hr : w.isRunning c) (d : Dispatcher) :
    (w.disp d).pushing ≠ some c :=
  fun hd => (h.push_ctl d hd).elim (not_suspended_of_running hr)

theorem not_stopped_of_pushing (h : SingleClaim w c) {d : Dispatcher}
    (hd : (w.disp d).pushing = some c) : (w.promise c).state ≠ .stopState :=
  fun hs => h.stop_push hs d hd

end SingleClaim

/-- Moving a coroutine that was not suspended leaves the suspended ones where they are. -/
theorem update_suspended {f : CoId → Ctl} {c₁ : CoId} {x y : Ctl} {a : Addr} (h : f c₁ = x)
    (hx : ∀ b, x ≠ .suspended b) (hc : f c = .suspended a) : update f c₁ y c = .suspended a := by
  by_cases hcc : c = c₁
  · subst hcc
    exact absurd (h.symm.trans hc) (hx a)
  · rwa [Function.update_of_ne hcc]

/-- A dispatcher that moves to a place without a marked coroutine. -/
theorem update_pushing {f : Dispatcher → DispPc} {d d' : Dispatcher} {pc : DispPc}
    (hpc : pc.pushing = none) (h : (update f d pc d').pushing = some c) :
    (f d').pushing = some c := by
  by_cases hdd : d' = d
  · subst hdd
    rw [Function.update_self, hpc] at h
    cases h
  · rwa [Function.update_of_ne hdd] at h

/-- Where the elements of the executor's queue come from. -/
theorem Trans.scheduled (ht : Trans w act w') (h : c ∈ w'.scheduled) :
    c ∈ w.scheduled ∨ ∃ d, (w.disp d).pushing = some c := by
  cases ht with
  | @pushQueue d _ _ _ _ _ _ _ _ _ hd =>
    simp only [World.scheduled, List.map_append, List.mem_append, List.map_cons, List.map_nil,
      List.mem_singleton] at h
    rcases h with h | rfl
    · exact .inl h
    · exact .inr ⟨d, by simp [hd, VisitPc.pushing]⟩
  | resume | resumeFault =>
    obtain ⟨e, he, rfl⟩ := List.mem_map.1 h
    exact .inl (List.mem_map.2 ⟨e, List.mem_of_mem_eraseIdx he, rfl⟩)
  | _ => exact .inl h

/-- Where the elements of the executor's queue go. -/
theorem Trans.unscheduled (ht : Trans w act w') (h : c ∈ w.scheduled) :
    c ∈ w'.scheduled ∨ (∃ a s, w'.ctl c = .resuming a s) ∨ w'.fault = some (.resumed c) := by
  cases ht with
  | pushQueue =>
    left
    simp only [World.scheduled, List.map_append, List.mem_append]
    exact .inl h
  | @resume i e a A hi =>
    obtain ⟨e', he', rfl⟩ := List.mem_map.1 h
    rcases (Bag.mem_take_iff hi).1 he' with rfl | hm
    · exact .inr (.inl ⟨a, _, Function.update_self ..⟩)
    · exact .inl (List.mem_map.2 ⟨e', hm, rfl⟩)
  | @resumeFault i e hi =>
    obtain ⟨e', he', rfl⟩ := List.mem_map.1 h
    rcases (Bag.mem_take_iff hi).1 he' with rfl | hm
    · exact .inr (.inr rfl)
    · exact .inl (List.mem_map.2 ⟨e', hm, rfl⟩)
  | _ => exact .inl h

/-- A dispatcher holds a coroutine to be pushed only after its store of `QueueResume`. -/
theorem Trans.pushing (ht : Trans w act w') {d : Dispatcher} (h : (w'.disp d).pushing = some c) :
    (w.disp d).pushing = some c ∨ ∃ i k p first a rest, act = .dispatch d i ∧
      w.disp d = .visit k p first a rest (.storeState c) := by
  rcases ht.disp_eq d with he | ⟨i, rfl⟩
  · exact .inl (he ▸ h)
  cases ht with
  | storeState hd =>
    obtain rfl : _ = c := by simpa [VisitPc.pushing] using h
    exact .inr ⟨i, _, _, _, _, _, rfl, hd⟩
  | fetch | lockNone | lockSome | skip | enqueue | stateOther | awaitOther | writeData | noTimer
  | loadTimer | pushRemove | sharedPush => simp [VisitPc.pushing] at h
  | enter _ _ _ hs | stateStop _ _ _ hs | awaitThis _ _ _ hs =>
    simp only [Function.update_self, DispPc.pushing_visit] at h
    grind [VisitPc.pushing]
  | pushQueue _ _ hpc =>
    simp only [Function.update_self] at h
    rcases hpc with ⟨-, rfl⟩ | ⟨-, rfl⟩ | ⟨-, rfl⟩ <;> simp [VisitPc.pushing] at h

/-- The stored state was still `StopState`, if the step is the store of `QueueResume` on `c`. -/
def StoresOnStopped (w : World) (act : Action) (c : CoId) : Prop :=
  ∀ d i k p first a rest, act = .dispatch d i →
    w.disp d = .visit k p first a rest (.storeState c) → (w.promise c).state = .stopState

/-- The condition on one step: a store of `QueueResume` finds its coroutine in `StopState`. -/
def wakesStopped (w : World) : Action → Bool
  | .dispatch d _ =>
    match w.disp d with
    | .visit _ _ _ _ _ (.storeState h) => decide ((w.promise h).state = .stopState)
    | _ => true
  | _ => true

theorem storesOnStopped_of_wakesStopped (h : wakesStopped w act = true) (c : CoId) :
    StoresOnStopped w act c := by
  rintro d i k p first a rest rfl hd
  simpa [wakesStopped, hd] using h

/-- **One step.**  A coroutine keeps its single claim unless a stale `QueueResume` is stored. -/
theorem SingleClaim.step (h : SingleClaim w c) (ht : Trans w act w')
    (hok : StoresOnStopped w act c) : SingleClaim w' c := by
  cases ht with
  | push | pushHigh | stop | createClone | createQueue | createMessage | createTemp | spin
  | nullFault | expire | ioBegin | ioKeepAlive | ioTick | ioTimeout | ioRearm =>
    exact h.frame id (fun _ ha => ha) rfl (fun _ hd => hd)
  | start hc | createTime hc | registerTime hc | setTimeout hc | arm hc | destroy hc
  | destroyPush hc | finish hc | readyNormal hc | readyShared hc | notReady hc | suspendFlag hc
  | suspendHandle hc | loadSuspend hc | dequeue hc | clearSuspend hc | ret hc | cancel hc
  | cancelMiss hc =>
    exact h.frame id (fun _ ha => update_suspended hc (by simp) ha) rfl (fun _ hd => hd)
  | storeRuning hc _ _ =>
    refine h.frame ?_ (fun _ ha => update_suspended hc (by simp) ha) rfl (fun _ hd => hd)
    simp only [Function.update_apply]
    split
    · simp
    · exact id
  | lateStore hi =>
    refine h.frame ?_ (fun _ ha => ha) rfl (fun _ hd => hd)
    simp only [Function.update_apply]
    split <;> simp_all
  | fetch | lockNone | lockSome | skip | enqueue | stateOther | awaitOther | writeData | noTimer
  | loadTimer | pushRemove | sharedPush =>
    exact h.frame id (fun _ ha => ha) rfl (fun _ hd => update_pushing (by simp [VisitPc.pushing]) hd)
  | enter _ _ _ hs | stateStop _ _ _ hs | awaitThis _ _ _ hs =>
    refine h.frame id (fun _ ha => ha) rfl (fun _ hd => update_pushing ?_ hd)
    grind [DispPc.pushing, VisitPc.pushing]
  | @suspendState c₁ a A junk hc ha =>
    by_cases hcc : c = c₁
    · subst hcc
      have hr : w.isRunning c := by simp [World.isRunning, hc, Ctl.running]
      have hq : c ∉ w.scheduled := h.not_scheduled_of_running hr
      have hp := h.not_pushing_of_running hr
      exact
        { stop_ctl := fun _ => ⟨a, Function.update_self ..⟩
          stop_queue := fun _ => hq
          stop_push := fun _ => hp
          queue_ctl := fun hm => absurd hm hq
          queue_push := fun hm => absurd hm hq
          push_ctl := fun d hd => absurd hd (hp d)
          push_one := fun d _ hd _ => absurd hd (hp d)
          count := h.count }
    · refine h.frame ?_ (fun _ ha => update_suspended hc (by simp) ha) rfl (fun _ hd => hd)
      simp only [Function.update_of_ne hcc]
      exact id
  | @storeState d i k p first a rest A co hd ha =>
    by_cases hcc : c = co
    · subst hcc
      have hst := hok d i k p first a rest rfl hd
      have hq : c ∉ w.scheduled := h.stop_queue hst
      have hp := h.stop_push hst
      -- after the step the dispatcher itself is the only one to hold the coroutine
      have one : ∀ d', ((update w.disp d (.visit k p first a rest (.pushQueue c))) d').pushing =
          some c → d' = d := by
        intro d' hd'
        by_contra hne
        rw [Function.update_of_ne hne] at hd'
        exact hp d' hd'
      exact
        { stop_ctl := fun _ => h.stop_ctl hst
          stop_queue := fun _ => hq
          stop_push := fun hs => by simp at hs
          queue_ctl := fun _ => h.stop_ctl hst
          queue_push := fun hm => absurd hm hq
          push_ctl := fun _ _ => h.stop_ctl hst
          push_one := fun d₁ d₂ h₁ h₂ => (one d₁ h₁).trans (one d₂ h₂).symm
          count := h.count }
    · refine h.frame ?_ (fun _ ha => ha) rfl ?_
      · simp only [Function.update_of_ne hcc]
        exact id
      · intro d' hd'
        by_cases hdd : d' = d
        · subst hdd
          simp only [Function.update_self, DispPc.pushing_visit, VisitPc.pushing,
            Option.some.injEq] at hd'
          exact absurd hd'.symm hcc
        · simpa only [Function.update_of_ne hdd] using hd'
  | @pushQueue d i k p first a rest A co pc hd ha hpc =>
    have hnone : pc.pushing = none := by
      rcases hpc with ⟨_, rfl⟩ | ⟨_, rfl⟩ | ⟨_, rfl⟩ <;> simp [VisitPc.pushing]
    have hback : ∀ d', ((update w.disp d pc) d').pushing = some c → (w.disp d').pushing = some c :=
      fun d' hd' => update_pushing hnone hd'
    have hsch : ({ w with
        coQueue := w.coQueue ++
          [{ executor := A.coExecutor, handle := co, priority := A.waitCoPriority }]
        disp := update w.disp d pc } : World).scheduled = w.scheduled ++ [co] := by
      simp [World.scheduled]
    by_cases hcc : c = co
    · subst hcc
      have hpush : (w.disp d).pushing = some c := by simp [hd, VisitPc.pushing]
      have hq : c ∉ w.scheduled := fun hm => h.queue_push hm d hpush
      -- nobody else holds it, and the dispatcher lets it go
      have free : ∀ d', ((update w.disp d pc) d').pushing ≠ some c := by
        intro d' hd'
        have hdd := h.push_one d' d (hback d' hd') hpush
        subst hdd
        rw [Function.update_self, hnone] at hd'
        cases hd'
      have hst : (w.promise c).state ≠ .stopState := h.not_stopped_of_pushing hpush
      exact
        { stop_ctl := fun _ => h.push_ctl d hpush
          stop_queue := fun hs => absurd hs hst
          stop_push := fun hs => absurd hs hst
          queue_ctl := fun _ => h.push_ctl d hpush
          queue_push := fun _ => free
          push_ctl := fun d' hd' => absurd hd' (free d')
          push_one := fun d' _ hd' _ => absurd hd' (free d')
          count := by rw [hsch, List.count_append, List.count_eq_zero.2 hq]; simp }
    · have hmem : c ∈ w.scheduled ++ [co] → c ∈ w.scheduled := by simp [hcc]
      exact
        { stop_ctl := h.stop_ctl
          stop_queue := fun hs hm => h.stop_queue hs (hmem (hsch ▸ hm))
          stop_push := fun hs d' hd' => h.stop_push hs d' (hback d' hd')
          queue_ctl := fun hm => h.queue_ctl (hmem (hsch ▸ hm))
          queue_push := fun hm d' hd' => h.queue_push (hmem (hsch ▸ hm)) d' (hback d' hd')
          push_ctl := fun d' hd' => h.push_ctl d' (hback d' hd')
          push_one := fun d₁ d₂ h₁ h₂ => h.push_one d₁ d₂ (hback d₁ h₁) (hback d₂ h₂)
          count := by
            rw [hsch, List.count_append, List.count_singleton]
            simpa [Ne.symm hcc] using h.count }
  | @resume i e a A hi htop hc ha =>
    have hperm : w.scheduled.Perm (e.handle :: (w.coQueue.eraseIdx i).map CoEntry.handle) :=
      (Bag.perm_take hi).map _
    by_cases hcc : c = e.handle
    · subst hcc
      have hin : e.handle ∈ w.scheduled := hperm.mem_iff.2 List.mem_cons_self
      have hcount : ((w.coQueue.eraseIdx i).map CoEntry.handle).count e.handle = 0 := by
        have := h.count
        rw [hperm.count_eq, List.count_cons_self] at this
        omega
      have hq : e.handle ∉ (w.coQueue.eraseIdx i).map CoEntry.handle := List.count_eq_zero.1 hcount
      have hst : (w.promise e.handle).state ≠ .stopState := fun hs => h.stop_queue hs hin
      exact
        { stop_ctl := fun hs => absurd hs hst
          stop_queue := fun hs => absurd hs hst
          stop_push := fun hs => absurd hs hst
          queue_ctl := fun hm => absurd hm hq
          queue_push := fun hm => absurd hm hq
          push_ctl := fun d hd => absurd hd (h.queue_push hin d)
          push_one := fun d _ hd _ => absurd hd (h.queue_push hin d)
          count := by unfold World.scheduled; rw [hcount]; omega }
    · exact h.dequeue hperm rfl (by simp [Function.update_of_ne hcc]) rfl (fun _ => rfl)
  | @resumeFault i e hi htop hc =>
    have hperm : w.scheduled.Perm (e.handle :: (w.coQueue.eraseIdx i).map CoEntry.handle) :=
      (Bag.perm_take hi).map _
    exact h.dequeue hperm rfl rfl rfl (fun _ => rfl)

theorem SingleClaim.init (c : CoId) : SingleClaim World.init c := by
  by_cases hc : c = remover
  · subst hc
    constructor <;> simp [World.init, World.scheduled]
  · constructor <;> simp [World.init, World.scheduled, hc]

/-- Every coroutine keeps its single claim along a run that never stores a stale `QueueResume`. -/
theorem singleClaim_of_reachable
    (h : Reachable (fun w act => wakesStopped w act = true) w) (c : CoId) : SingleClaim w c :=
  h.invariant (I := fun w => SingleClaim w c) (SingleClaim.init c) fun _ _ _ _ ih hok hs =>
    ih.step (trans_of_step hs) (storesOnStopped_of_wakesStopped hok c)

/-- Each coroutine is at most once in the executor's queue, and not while a thread runs it. -/
def ScheduledOnce (w : World) : Prop :=
  ∀ c, w.scheduled.count c ≤ 1 ∧ (c ∈ w.scheduled → ¬w.isRunning c)

/-- **A suspended coroutine is scheduled at most once**, along every run, by either dispatcher, in
which each store of `QueueResume` finds its coroutine still in `StopState`. -/
theorem scheduledOnce_of_wakesStopped
    (h : Reachable (fun w act => wakesStopped w act = true) w) : ScheduledOnce w := by
  intro c
  have hc := singleClaim_of_reachable h c
  exact ⟨hc.count, fun hm hr => hc.not_scheduled_of_running hr hm⟩

/-- A coroutine awaits a looping `create_time_await` object with a timeout; both timers expire. -/
def timedWait : List Action :=
  [.start 1, .body 1 (.createTime true), .registerTime 1 5 0, .body 1 (.setTimeout 5), .run 1 0,
    .body 1 (.coAwait 5), .run 1 0, .run 1 0, .late 0, .expire 2, .ioBegin 2, .ioStep, .ioStep,
    .expire 3, .ioBegin 3, .ioStep]

/-- Both dispatchers check the coroutine before either of them marks it. -/
def doubleWake : List Action :=
  timedWait ++ List.replicate 7 (Action.dispatch .high 0) ++
    List.replicate 7 (Action.dispatch .normal 0) ++
    List.replicate 3 (Action.dispatch .high 0) ++ List.replicate 3 (Action.dispatch .normal 0)

/-- The same with one dispatcher after the other: the second finds `QueueResume`. -/
def singleWake : List Action :=
  timedWait ++ List.replicate 10 (Action.dispatch .high 0) ++
    List.replicate 6 (Action.dispatch .normal 0)

/-- Without the condition a coroutine can be in the executor's queue twice. -/
theorem scheduled_twice : ∃ w, Reachable Run.Any w ∧ ¬ScheduledOnce w := by
  have hrun : (Run.exec step World.init doubleWake).any
      (fun w => decide (w.scheduled = [1, 1])) = true := by
    decide +kernel
  obtain ⟨w, hw, hs⟩ := Run.exists_reach_of_exec hrun
  refine ⟨w, hw, fun h => ?_⟩
  have := (h 1).1
  rw [hs] at this
  exact absurd this (by decide)

theorem scheduledOnce_singleWake :
    ∃ w, w.scheduled = [1] ∧ Reachable (fun w act => wakesStopped w act = true) w ∧
      ScheduledOnce w := by
  have hrun : (Run.exec (Run.guarded step fun w act => wakesStopped w act = true) World.init
      singleWake).any (fun w => decide (w.scheduled = [1])) = true := by
    decide +kernel
  obtain ⟨w, hw, hs⟩ := Run.exists_reach_of_exec_guarded hrun
  exact ⟨w, hs, hw, scheduledOnce_of_wakesStopped hw⟩

end DataProxy
