import DataProxy.Trans

/-!
# The coroutine of a dispatch thread

`MessageBus::run` calls `dispatch_message`, whose coroutine starts at once and is suspended when the
queue is empty, and resumes it whenever there is something to do.  The coroutine ends when it finds
`stop_`, or when a call of `filter_` throws: `unhandled_exception` keeps the exception, and as
`final_suspend` does not suspend, the frame is destroyed.  `run` looks at `stop_` only.

`World` has the deliveries, with filters that return.  Here the two threads run them inside their
coroutines (`DispatchLoops.simulated`), and every call of a filter may throw.  How `cv_.wait` sleeps
is the subject of `Bus`; here it returns when its predicate holds.
-/

namespace DataProxy

open Function (update)

/-- The coroutine of `dispatch_message`. -/
inductive CoFrame
  /-- Not called yet. -/
  | absent
  | running
  /-- At its `co_await`. -/
  | suspended
  /-- Ended, with the frame destroyed. -/
  | finished
  deriving DecidableEq

/-- Where a thread stands in `MessageBus::run`. -/
inductive LoopPc
  /-- Before `CoTask co_task = dispatch_message(queue)`. -/
  | call
  /-- At `while (!stop_)`. -/
  | loop
  /-- In `cv_.wait`. -/
  | wait
  /-- Before `co_task.resume()`. -/
  | resume
  /-- In the coroutine. -/
  | inside
  | done
  deriving DecidableEq

/-- The program with the coroutines of its dispatch threads. -/
structure DispatchLoops where
  world : World
  frame : Dispatcher → CoFrame
  pc : Dispatcher → LoopPc

/-- Who moves. -/
inductive LoopAction
  /-- A thread other than the dispatch threads. -/
  | other (act : Action)
  /-- The dispatch thread of `d`; `i` says which element a dequeue gives, `throws` whether a call of
  `filter_` throws. -/
  | thread (d : Dispatcher) (i : ℕ) (throws : Bool)

namespace DispatchLoops

variable {s s' : DispatchLoops} {act : LoopAction} {d : Dispatcher}

def init : DispatchLoops := ⟨World.init, fun _ => .absent, fun _ => .call⟩

/-- The thread of `d` goes on at `pc`, with its coroutine in the state `f`. -/
def goto (s : DispatchLoops) (d : Dispatcher) (f : CoFrame) (pc : LoopPc) : DispatchLoops :=
  { s with frame := update s.frame d f, pc := update s.pc d pc }

@[simp] theorem goto_pc (f : CoFrame) (pc : LoopPc) : (s.goto d f pc).pc d = pc :=
  Function.update_self ..

@[simp] theorem goto_frame (f : CoFrame) (pc : LoopPc) : (s.goto d f pc).frame d = f :=
  Function.update_self ..

/-- An exception leaves the delivery and its lock, and ends the coroutine. -/
def unhandledException (s : DispatchLoops) (d : Dispatcher) : DispatchLoops :=
  { s with world := { s.world with disp := update s.world.disp d .fetch } }.goto d .finished .loop

/-- The delivery goes on by one step. -/
def deliver (s : DispatchLoops) (d : Dispatcher) (i : ℕ) : Option DispatchLoops :=
  (DataProxy.step s.world (.dispatch d i)).map fun w => { s with world := w }

/-- The next statement of `dispatch_message`. -/
def insideStep (s : DispatchLoops) (d : Dispatcher) (i : ℕ) (throws : Bool) :
    Option DispatchLoops :=
  match s.world.disp d with
  | .fetch =>
    if s.world.stop then some (s.goto d .finished .loop)
    else if s.world.busQueue d = [] then some (s.goto d .suspended .loop)
    else s.deliver d i
  -- `TempMessageAwait::push_message` begins with the call of `filter_`
  | .visit .temp _ _ _ _ .enter => if throws then some (s.unhandledException d) else s.deliver d i
  | _ => s.deliver d i

/-- The next statement of the dispatch thread of `d`. -/
def threadStep (s : DispatchLoops) (d : Dispatcher) (i : ℕ) (throws : Bool) :
    Option DispatchLoops :=
  match s.pc d with
  | .call => some (s.goto d .running .inside)
  | .loop => some { s with pc := update s.pc d (if s.world.stop then .done else .wait) }
  | .wait =>
    if s.world.busQueue d ≠ [] ∨ s.world.stop = true then
      some { s with pc := update s.pc d .resume } else none
  | .resume => if s.frame d = .suspended then some (s.goto d .running .inside) else none
  | .inside => s.insideStep d i throws
  | .done => none

/-- One step of the program. -/
def step (s : DispatchLoops) : LoopAction → Option DispatchLoops
  | .other (.dispatch _ _) => none
  | .other act => (DataProxy.step s.world act).map fun w => { s with world := w }
  | .thread d i throws => s.threadStep d i throws

/-- Every `co_task.resume()` is applied to a coroutine suspended at its `co_await`. -/
def ResumesSuspended (s : DispatchLoops) : Prop :=
  ∀ d, s.pc d = .resume → s.frame d = .suspended

/-- The condition on one step: no filter throws unless `stop_` is set. -/
def throwsStopped (s : DispatchLoops) : LoopAction → Bool
  | .thread d _ throws =>
    match s.pc d, s.world.disp d with
    | .inside, .visit .temp _ _ _ _ .enter => !throws || s.world.stop
    | _, _ => true
  | .other _ => true

/-! ### What a step can do -/

/-- What a step can do to the thread of `d`. -/
inductive LoopMove (s s' : DispatchLoops) (act : LoopAction) (d : Dispatcher) : Prop
  | same (hf : s'.frame d = s.frame d) (hp : s'.pc d = s.pc d)
  | enter (hp : s.pc d = .call ∨ s.pc d = .resume) (hp' : s'.pc d = .inside)
  | loop (hp : s.pc d = .loop) (hf : s'.frame d = s.frame d)
      (hp' : s'.pc d = if s.world.stop then .done else .wait)
  | wake (hp : s.pc d = .wait) (hf : s'.frame d = s.frame d) (hp' : s'.pc d = .resume)
  | suspend (hp : s.pc d = .inside) (hf' : s'.frame d = .suspended) (hp' : s'.pc d = .loop)
  | finish (hp : s.pc d = .inside) (hp' : s'.pc d = .loop)
      (hok : s.throwsStopped act = true → s.world.stop = true)

/-- Nothing takes back `stop_`. -/
theorem stop_mono {w w' : World} {act : Action} (ht : Trans w act w') (h : w.stop = true) :
    w'.stop = true := by
  cases ht with
  | stop => rfl
  | _ => exact h

theorem deliver_eq_some {i : ℕ} (h : s.deliver d i = some s') :
    ∃ w, DataProxy.step s.world (.dispatch d i) = some w ∧ s' = { s with world := w } := by
  obtain ⟨w, hw, rfl⟩ := Option.map_eq_some_iff.1 h
  exact ⟨w, hw, rfl⟩

/-- A thread in its coroutine delivers, is suspended, or finishes. -/
theorem insideStep_cases {i : ℕ} {throws : Bool} (hp : s.pc d = .inside)
    (h : s.insideStep d i throws = some s') :
    s.deliver d i = some s' ∨ s' = s.goto d .suspended .loop ∨
      (s' = s.goto d .finished .loop ∨ s' = s.unhandledException d) ∧
        (s.throwsStopped (.thread d i throws) = true → s.world.stop = true) := by
  unfold insideStep at h
  split at h
  · split at h
    · rename_i hstop
      cases h
      exact .inr (.inr ⟨.inl rfl, fun _ => hstop⟩)
    · split at h
      · cases h
        exact .inr (.inl rfl)
      · exact .inl h
  · rename_i hd
    split at h
    · rename_i hthrow
      cases h
      refine .inr (.inr ⟨.inr rfl, fun hok => ?_⟩)
      simpa [throwsStopped, hp, hd, hthrow] using hok
    · exact .inl h
  · exact .inl h

/-- What the thread of `d` can do. -/
theorem threadStep_cases {i : ℕ} {throws : Bool} (h : s.threadStep d i throws = some s') :
    s.deliver d i = some s' ∨ (s'.world = s.world ∨ s' = s.unhandledException d) ∧
      (∀ d', d' ≠ d → s'.frame d' = s.frame d' ∧ s'.pc d' = s.pc d') ∧
      LoopMove s s' (.thread d i throws) d := by
  have others : ∀ (f : CoFrame) (pc : LoopPc) (d' : Dispatcher), d' ≠ d →
      (s.goto d f pc).frame d' = s.frame d' ∧ (s.goto d f pc).pc d' = s.pc d' :=
    fun _ _ _ hne => ⟨Function.update_of_ne hne .., Function.update_of_ne hne ..⟩
  unfold threadStep at h
  split at h
  · rename_i hp
    cases h
    exact .inr ⟨.inl rfl, others _ _, .enter (.inl hp) (Function.update_self ..)⟩
  · rename_i hp
    cases h
    exact .inr ⟨.inl rfl, fun d' hne => ⟨rfl, Function.update_of_ne hne ..⟩,
      .loop hp rfl (Function.update_self ..)⟩
  · rename_i hp
    simp only [Option.ite_none_right_eq_some, Option.some.injEq] at h
    obtain ⟨-, rfl⟩ := h
    exact .inr ⟨.inl rfl, fun d' hne => ⟨rfl, Function.update_of_ne hne ..⟩,
      .wake hp rfl (Function.update_self ..)⟩
  · rename_i hp
    simp only [Option.ite_none_right_eq_some, Option.some.injEq] at h
    obtain ⟨-, rfl⟩ := h
    exact .inr ⟨.inl rfl, others _ _, .enter (.inr hp) (Function.update_self ..)⟩
  · rename_i hp
    rcases insideStep_cases hp h with h | rfl | ⟨rfl | rfl, hok⟩
    · exact .inl h
    · exact .inr ⟨.inl rfl, others _ _,
        .suspend hp (Function.update_self ..) (Function.update_self ..)⟩
    · exact .inr ⟨.inl rfl, others _ _, .finish hp (Function.update_self ..) hok⟩
    · exact .inr ⟨.inr rfl, others _ _, .finish hp (Function.update_self ..) hok⟩
  · cases h

/-- **The deliveries are those of `World`.**  A step is one of `World`, or leaves it as it is, or an
exception ends a delivery. -/
theorem simulated (h : s.step act = some s') :
    s'.world = s.world ∨ (∃ act', DataProxy.step s.world act' = some s'.world) ∨
      ∃ d, s' = s.unhandledException d := by
  unfold step at h
  split at h
  · cases h
  · obtain ⟨w, hw, rfl⟩ := Option.map_eq_some_iff.1 h
    exact .inr (.inl ⟨_, hw⟩)
  · rcases threadStep_cases h with h | ⟨hw | he, -⟩
    · obtain ⟨w, hw, rfl⟩ := deliver_eq_some h
      exact .inr (.inl ⟨_, hw⟩)
    · exact .inl hw
    · exact .inr (.inr ⟨_, he⟩)

/-- Every step is one of these for each thread. -/
theorem loopMove (h : s.step act = some s') (d : Dispatcher) : LoopMove s s' act d := by
  unfold step at h
  split at h
  · cases h
  · obtain ⟨w, -, rfl⟩ := Option.map_eq_some_iff.1 h
    exact .same rfl rfl
  · rename_i d₁ i throws
    rcases threadStep_cases h with h | ⟨-, hother, hmove⟩
    · obtain ⟨w, -, rfl⟩ := deliver_eq_some h
      exact .same rfl rfl
    · by_cases hd : d = d₁
      · exact hd ▸ hmove
      · exact .same (hother d hd).1 (hother d hd).2

theorem stop_of_step (h : s.step act = some s') (hstop : s.world.stop = true) :
    s'.world.stop = true := by
  rcases simulated h with hw | ⟨act', hw⟩ | ⟨d, rfl⟩
  · rw [hw, hstop]
  · exact stop_mono (trans_of_step hw) hstop
  · exact hstop

/-! ### The invariant -/

/-- `run` is about to resume, or to go round, only with a coroutine that waits for it, unless the
bus is stopped. -/
structure LoopOk (s : DispatchLoops) (d : Dispatcher) : Prop where
  waiting : s.pc d = .wait ∨ s.pc d = .resume → s.frame d = .suspended
  looping : s.pc d = .loop → s.frame d = .suspended ∨ s.world.stop = true

/-- **One step** that meets the condition. -/
theorem LoopOk.step (h : LoopOk s d) (hok : s.throwsStopped act = true)
    (hs : s.step act = some s') : LoopOk s' d := by
  cases loopMove hs d with
  | same hf hp =>
    refine ⟨fun hw => ?_, fun hl => ?_⟩
    · rw [hf]
      exact h.waiting (hp ▸ hw)
    · rw [hf]
      exact (h.looping (hp ▸ hl)).imp_right (stop_of_step hs)
  | enter _ hp' => exact ⟨by simp [hp'], by simp [hp']⟩
  | loop hp hf hp' =>
    cases hstop : s.world.stop with
    | true =>
      rw [hstop, if_pos rfl] at hp'
      exact ⟨by simp [hp'], by simp [hp']⟩
    | false =>
      rw [hstop, if_neg (by simp)] at hp'
      refine ⟨fun _ => ?_, by simp [hp']⟩
      rw [hf]
      exact (h.looping hp).resolve_right (by simp [hstop])
  | wake hp hf hp' => exact ⟨fun _ => hf.trans (h.waiting (.inl hp)), by simp [hp']⟩
  | suspend _ hf' hp' => exact ⟨by simp [hp'], fun _ => .inl hf'⟩
  | finish _ hp' hstop => exact ⟨by simp [hp'], fun _ => .inr (stop_of_step hs (hstop hok))⟩

/-- **The dispatch loop never resumes a finished dispatcher**, along every run in which no filter
throws before `stop_` is set. -/
theorem resumesSuspended_of_throwsStopped
    (h : Run.Reach step (fun s act => s.throwsStopped act = true) init s) : ResumesSuspended s := by
  have hok : ∀ d, LoopOk s d := by
    refine h.invariant (I := fun s => ∀ d, LoopOk s d) (fun d => ⟨?_, ?_⟩)
      fun _ _ _ _ ih hok hs d => (ih d).step hok hs
    · rintro (hp | hp) <;> cases hp
    · intro hp
      cases hp
  exact fun d hp => (hok d).waiting (.inr hp)

/-- A `TempMessageAwait` is registered, and a message of its name is pushed. -/
def tempRegistered : List LoopAction :=
  [.other (.start 1), .other (.body 1 (.createTemp 6 0 "m" 0 (fun _ => true) 0)),
    .other (.push { name := "m" })]

/-- The thread calls `dispatch_message`, which takes the message and comes to the await. -/
def filterCalled : List LoopAction :=
  tempRegistered ++ List.replicate 5 (LoopAction.thread .normal 0 false)

/-- The filter throws, and the next message makes `run` resume the coroutine that is gone. -/
theorem resumes_finished : ∃ s, Run.Reach step Run.Any init s ∧ ¬ResumesSuspended s := by
  have hrun : (Run.exec step init (filterCalled ++ [LoopAction.thread .normal 0 true] ++
      [LoopAction.other (.push { name := "m" }), .thread .normal 0 false,
        .thread .normal 0 false])).any (fun s => decide
      (s.pc .normal = .resume ∧ s.frame .normal = .finished)) = true := by
    decide +kernel
  obtain ⟨s, hs, hp, hf⟩ := Run.exists_reach_of_exec hrun
  refine ⟨s, hs, fun h => ?_⟩
  rw [h .normal hp] at hf
  cases hf

theorem resumesSuspended_filterReturns : ∃ s, s.pc .normal = .resume ∧
    Run.Reach step (fun s act => s.throwsStopped act = true) init s ∧ ResumesSuspended s := by
  have hrun : (Run.exec (Run.guarded step fun s act => s.throwsStopped act = true) init
      (filterCalled ++ [LoopAction.thread .normal 0 false, .thread .normal 0 false,
        .other (.push { name := "m" }), .thread .normal 0 false, .thread .normal 0 false])).any
      (fun s => decide (s.pc .normal = .resume)) = true := by
    decide +kernel
  obtain ⟨s, hs, hp⟩ := Run.exists_reach_of_exec_guarded hrun
  exact ⟨s, hp, hs, resumesSuspended_of_throwsStopped hs⟩

end DispatchLoops

end DataProxy
