import DataProxy.Basic

/-!
# The state of the running program

One `World` is the shared memory of the process together with the place every thread has reached.

* A coroutine's place is its `Ctl`: which statement of `await_suspend`, `await_resume` or of its
  own body comes next.  It is kept per coroutine and not per thread, since a thread that has
  suspended a coroutine has nothing left to do for it but the last store of `await_suspend`;
  those stores wait in `late`.
* A dispatch thread's place is its `DispPc`: the phase of `dispatch_message`, the awaits of the
  equal range still to be visited, and the statement reached in the await being visited.
* The three `shared_mutex`es are not stored: a dispatcher holds the lock of the phase it is in, and
  a creation or destruction is one step that needs the lock of its kind to be free.
* Resuming a coroutine that is not suspended, and `await_resume` through a null `handle_`, are
  undefined; the step that does it sets `fault`, and no step follows.
* A coroutine counts as suspended as soon as `await_ready` was false.  One that was scheduled twice can
  be resumed while a thread is still inside `await_suspend`, and then two threads are in the await.  The
  steps do not follow that, and `fault` is set as well: what holds of the runs here says nothing of what
  comes after it, and the results that it would concern exclude it (`resumesSuspended`).

`trace` is ghost: the history of deliveries, latest event first.
-/

namespace DataProxy

/-- The next statement of `await_suspend`.  Only `MessageAwait` has `suspend_`. -/
inductive SuspendPc
  | flag
  | handle
  | state
  deriving DecidableEq, Repr

/-- The next statement of `await_resume`.  Only `MessageAwait` has the first three. -/
inductive ResumePc
  | loadSuspend
  | dequeue
  | clearSuspend
  | state
  | ret
  deriving DecidableEq, Repr

/-- Where a coroutine stands. -/
inductive Ctl
  /-- Not called yet. -/
  | fresh
  /-- In its own code, between two `co_await`s. -/
  | body
  /-- `await_ready` was false; `await_suspend` before the store of `StopState`. -/
  | suspending (a : Addr) (s : SuspendPc)
  /-- Suspended at `co_await a`, with `StopState` stored. -/
  | suspended (a : Addr)
  /-- In `await_resume` of `a`. -/
  | resuming (a : Addr) (s : ResumePc)
  /-- In `create_time_await`, after `start_timer`, holding `timers_mutex_`. -/
  | creatingTime (id : TimerId) (isloop : Bool)
  /-- In `set_await_timeout`, after `create_timer`. -/
  | arming (a : Addr) (id : TimerId)
  /-- In `~TempMessageAwait`, after `remove_await`, with the message to push. -/
  | destroying (m : InternalMessage)
  /-- In `co_handle_remove_timer`, with the message that `co_await` returned. -/
  | removing (m : InternalMessage)
  /-- Finished. -/
  | done
  deriving DecidableEq, Repr

/-- A thread is executing the coroutine. -/
def Ctl.running : Ctl → Bool
  | .fresh | .suspended _ | .done => false
  | .body | .suspending _ _ | .resuming _ _ | .creatingTime _ _ | .arming _ _ | .destroying _
  | .removing _ => true

/-- The two dispatch threads, named by the queue they drain. -/
inductive Dispatcher
  | normal
  | high
  deriving DecidableEq, Repr

/-- The next statement in the delivery of a message to one await, with the handle that the
delivery found in `handle_`. -/
inductive VisitPc
  /-- The test of `handle_` (and of `filter_`). -/
  | enter
  /-- `MessageAwait::push_message`: the enqueue. -/
  | enqueue (h : CoId)
  | loadState (h : CoId)
  | loadAwait (h : CoId)
  | writeData (h : CoId)
  /-- `resume_coroutine`: the store of `QueueResume`. -/
  | storeState (h : CoId)
  /-- `resume_coroutine`: the section under `mutex_`. -/
  | pushQueue (h : CoId)
  /-- `remove_timer`: the load of `timer_id_`. -/
  | loadTimer
  /-- `remove_timer`: the push of the message. -/
  | pushRemove (id : TimerId)
  deriving DecidableEq, Repr

/-- Where a dispatch thread stands in `dispatch_message`. -/
inductive DispPc
  /-- At the top of the loop. -/
  | fetch
  /-- Before the block that takes the lock of the map of `k`. -/
  | lock (k : AwaitType) (p : Packet)
  /-- In that block, visiting `a`; `first` is `range.first->second`, `rest` comes after `a`. -/
  | visit (k : AwaitType) (p : Packet) (first a : Addr) (rest : List Addr) (s : VisitPc)
  /-- No coroutine was resumed: `range.first->second->push_message(data)`. -/
  | sharedPush (p : Packet) (first : Addr)
  deriving DecidableEq, Repr

/-- The dispatcher holds the lock of the map of `k`. -/
def DispPc.inPhase (k : AwaitType) : DispPc → Bool
  | .visit k' _ _ _ _ _ => decide (k = k')
  | .sharedPush _ _ => decide (k = .shared)
  | .fetch | .lock _ _ => false

/-- The message being dispatched. -/
def DispPc.packet : DispPc → Option Packet
  | .fetch => none
  | .lock _ p | .visit _ p _ _ _ _ | .sharedPush p _ => some p

/-- The block that follows the block of `k`. -/
def DispPc.after (p : Packet) : AwaitType → DispPc
  | .shared => .lock .normal p
  | .normal => .lock .temp p
  | .temp => .fetch

/-- The place reached when an await has been visited without leaving the loop over the range. -/
def DispPc.next (k : AwaitType) (p : Packet) (first : Addr) : List Addr → DispPc
  | a :: rest => .visit k p first a rest .enter
  | [] => if k = .shared then .sharedPush p first else .after p k

@[simp] theorem DispPc.inPhase_after (p : Packet) (k k' : AwaitType) :
    (DispPc.after p k).inPhase k' = false := by
  cases k <;> rfl

/-- Where the loop over the range goes on. -/
theorem DispPc.next_cases (k : AwaitType) (p : Packet) (first : Addr) (rest : List Addr) :
    (∃ a rest', rest = a :: rest' ∧ DispPc.next k p first rest = .visit k p first a rest' .enter) ∨
    k = .shared ∧ DispPc.next k p first rest = .sharedPush p first ∨
    k ≠ .shared ∧ DispPc.next k p first rest = .after p k := by
  cases rest with
  | cons a rest' => exact .inl ⟨a, rest', rfl, rfl⟩
  | nil => cases k <;> simp [DispPc.next]

/-- The coroutine marked `QueueResume` and about to be pushed. -/
def VisitPc.pushing : VisitPc → Option CoId
  | .pushQueue h => some h
  | .enter | .enqueue _ | .loadState _ | .loadAwait _ | .writeData _ | .storeState _ | .loadTimer
  | .pushRemove _ => none

/-- The coroutine the dispatcher has marked `QueueResume` and is about to push. -/
def DispPc.pushing : DispPc → Option CoId
  | .visit _ _ _ _ _ s => s.pushing
  | .fetch | .lock _ _ | .sharedPush _ _ => none

@[simp] theorem DispPc.pushing_fetch : DispPc.fetch.pushing = none := rfl
@[simp] theorem DispPc.pushing_lock (k : AwaitType) (p : Packet) :
    (DispPc.lock k p).pushing = none := rfl
@[simp] theorem DispPc.pushing_sharedPush (p : Packet) (first : Addr) :
    (DispPc.sharedPush p first).pushing = none := rfl
@[simp] theorem DispPc.pushing_visit (k : AwaitType) (p : Packet) (first a : Addr)
    (rest : List Addr) (s : VisitPc) : (DispPc.visit k p first a rest s).pushing = s.pushing := rfl

@[simp] theorem DispPc.pushing_after (p : Packet) (k : AwaitType) :
    (DispPc.after p k).pushing = none := by
  cases k <;> rfl

@[simp] theorem DispPc.pushing_next (k : AwaitType) (p : Packet) (first : Addr)
    (rest : List Addr) : (DispPc.next k p first rest).pushing = none := by
  cases rest <;> cases k <;> rfl

/-- An element of a `CoExecutor`'s `queue_`; `executor` says whose. -/
structure CoEntry where
  executor : ℕ
  handle : CoId
  priority : UInt8
  deriving DecidableEq, Repr

/-- The place of the thread that runs the `io_context`. -/
inductive IoPc
  | idle
  /-- In `timer_callback` with no error, before `func()`. -/
  | call (id : TimerId)
  /-- After `func()` returned true. -/
  | rearm (id : TimerId)
  deriving DecidableEq, Repr

/-- Undefined behaviour, or the end of what the steps follow. -/
inductive Fault
  /-- `resume()` on a coroutine that is not suspended, or whose `await_suspend` has not yet stored
  `StopState`. -/
  | resumed (c : CoId)
  /-- `handle_.promise()` on a null `handle_`. -/
  | nullHandle (a : Addr)
  deriving DecidableEq, Repr

/-- What the history records. -/
inductive Event
  /-- An await object was constructed at `a`. -/
  | created (a : Addr)
  /-- `MessageAwait::push_message` on `a` enqueued `m`. -/
  | enqueued (a : Addr) (m : InternalMessage)
  /-- The shared block found an await of the message's name. -/
  | sharedDispatched (m : InternalMessage)
  /-- `co_await` on the await at `a` returned `m`. -/
  | returned (type : AwaitType) (name : String) (a : Addr) (m : InternalMessage)
  deriving DecidableEq, Repr

/-- The state of the program. -/
structure World where
  promise : CoId → Promise
  ctl : CoId → Ctl
  /-- The calls of `await_suspend` that have stored `StopState` and not yet `promise.await`. -/
  late : List (CoId × Addr)
  awaits : Addr → Option Await
  /-- `shared_message_await_map_`, `message_await_map_` and `temp_message_await_map_`. -/
  registry : AwaitType → List (String × Addr)
  sharedQueues : QueueId → List InternalMessage
  nextQueue : QueueId
  /-- `queue_` and `high_priority_queue_`. -/
  busQueue : Dispatcher → List Packet
  stop : Bool
  disp : Dispatcher → DispPc
  coQueue : List CoEntry
  /-- `TimerMgr::sid_`, which does not wrap around here. -/
  sid : TimerId
  /-- The timer objects made by `start_timer`. -/
  timerAt : TimerId → Option Timer
  /-- The keys of `TimerMgr::timers`. -/
  timers : TimerId → Bool
  /-- The coroutine that holds `timers_mutex_` between two steps. -/
  timersMutex : Option CoId
  io : IoPc
  fault : Option Fault
  trace : List Event

/-- The coroutine `co_handle_remove_timer`, and the address of its await. -/
def remover : CoId := 0
def removerAwait : Addr := 0

/-- The await of `co_handle_remove_timer`, once the coroutine is suspended on it. -/
def removerObject : Await where
  type := .normal
  waitMessageName := removeTimerName
  coExecutor := 0
  waitCoPriority := 10
  owner := remover
  handle := some remover
  suspend := true

/-- The program after the constructor of `TimerMgr`, before any thread is started:
`co_handle_remove_timer` is suspended and the timer with id 1 keeps the `io_context` alive. -/
def World.init : World where
  promise := Function.update (fun _ => {}) remover ⟨.stopState, some removerAwait⟩
  ctl := Function.update (fun _ => .fresh) remover (.suspended removerAwait)
  late := []
  awaits := Function.update (fun _ => none) removerAwait (some removerObject)
  registry := fun k => if k = .normal then [(removeTimerName, removerAwait)] else []
  sharedQueues := fun _ => []
  nextQueue := 0
  busQueue := fun _ => []
  stop := false
  disp := fun _ => .fetch
  coQueue := []
  sid := 1
  timerAt := Function.update (fun _ => none) 1 (some { func := .keepAlive })
  timers := fun id => decide (id = 1)
  timersMutex := none
  io := .idle
  fault := none
  trace := []

namespace World

theorem init_awaits {a : Addr} {A : Await} (h : init.awaits a = some A) :
    a = removerAwait ∧ A = removerObject := by
  by_cases hr : a = removerAwait
  · subst hr
    exact ⟨rfl, by simpa [init, eq_comm] using h⟩
  · simp [init, hr] at h

theorem init_ctl (c : CoId) :
    init.ctl c = .fresh ∨ c = remover ∧ init.ctl c = .suspended removerAwait := by
  by_cases hr : c = remover
  · subst hr
    exact .inr ⟨rfl, by simp [init]⟩
  · exact .inl (by simp [init, hr])

theorem init_timerAt {id : TimerId} {T : Timer} (h : init.timerAt id = some T) :
    id = 1 ∧ T = { func := .keepAlive } := by
  by_cases hid : id = 1
  · subst hid
    exact ⟨rfl, by simpa [init, eq_comm] using h⟩
  · simp [init, hid] at h

end World

end DataProxy
