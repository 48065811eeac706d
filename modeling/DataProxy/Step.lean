import DataProxy.World
import DataProxy.Lib.Run

/-!
# The steps of the program

`step` is the transition function of the whole process.  One step is one operation on a queue, one
section under a mutex, or one load or store of `promise.state_`, `promise.await`, `handle_`,
`suspend_`, `data_` or `timer_id_`; the scheduler picks the next `Action` freely.

The source function behind each step is named at its definition.  What is left open in the source
is an argument of the action: which element a `ConcurrentQueue` with several producers gives first
(`dispatch d i`), which of the top elements a `priority_queue` gives (`worker i`), where an
`unordered_multimap` puts a new element among equal keys (`pos`), and when a timer expires.
-/

namespace DataProxy

open Function (update)

/-- What the code of a coroutine can ask for. -/
inductive BodyOp
  | createShared (a : Addr) (executor : ℕ) (name : String) (priority : UInt8) (pos : ℕ)
  | createMessage (a : Addr) (executor : ℕ) (name : String) (priority : UInt8) (pos : ℕ)
  | createTemp (a : Addr) (executor : ℕ) (name : String) (priority : UInt8)
      (filter : InternalMessage → Bool) (pos : ℕ)
  | createTime (isloop : Bool)
  | setTimeout (a : Addr)
  | coAwait (a : Addr)
  | destroy (a : Addr)
  | finish

/-- Who moves. -/
inductive Action
  /-- `MessageBus::push_message`, called by a channel, a thread or a coroutine. -/
  | push (m : InternalMessage)
  /-- `MessageBus::push_high_priority_message`. -/
  | pushHigh (m : InternalMessage)
  /-- `MessageBus::stop`. -/
  | stop
  /-- A coroutine is called and starts to run. -/
  | start (c : CoId)
  | body (c : CoId) (op : BodyOp)
  /-- The second half of `create_time_await`: the await is constructed at `a`. -/
  | registerTime (c : CoId) (a : Addr) (pos : ℕ)
  /-- The next statement of the function the coroutine is in; `junk` is the value of an
  uninitialised local. -/
  | run (c : CoId) (junk : ℕ)
  /-- A thread in `await_suspend` makes the store of `promise.await`. -/
  | late (i : ℕ)
  /-- A worker takes an element from the executor's queue and resumes it. -/
  | worker (i : ℕ)
  | dispatch (d : Dispatcher) (i : ℕ)
  /-- A timer expires. -/
  | expire (id : TimerId)
  /-- The `io_context` calls the handler of an expired timer. -/
  | ioBegin (id : TimerId)
  | ioStep

namespace World

variable (w : World)

/-- No dispatcher holds the shared lock of the map of `k`. -/
def lockFree (k : AwaitType) : Bool :=
  !(w.disp .normal).inPhase k && !(w.disp .high).inPhase k

/-- Some await of coroutine `c` is alive. -/
def ownsAwait (c : CoId) : Bool :=
  [AwaitType.shared, .normal, .temp].any fun k =>
    (w.registry k).any fun e => decide ((w.awaits e.2).map Await.owner = some c)

/-! ### Creation and destruction -/

/-- The constructors: the object comes to life and `add_await` registers it. -/
def addAwait (a : Addr) (A : Await) (pos : ℕ) : World :=
  { w with
    awaits := update w.awaits a (some A)
    registry := update w.registry A.type
      (Multimap.insertAt (w.registry A.type) pos (A.waitMessageName, a))
    trace := .created a :: w.trace }

/-- `create_shared_message_await`: the first await found under the name is cloned, its executor,
priority and queue included; else a new queue is made. -/
def createSharedMessageAwait (c : CoId) (a : Addr) (executor : ℕ) (name : String)
    (priority : UInt8) (pos : ℕ) : World :=
  match (Multimap.equalRange (w.registry .shared) name).head?.bind w.awaits with
  | some B =>
    w.addAwait a
      { type := .shared, waitMessageName := name, coExecutor := B.coExecutor,
        waitCoPriority := B.waitCoPriority, owner := c, sharedQueue := B.sharedQueue } pos
  | none =>
    { w with nextQueue := w.nextQueue + 1, sharedQueues := update w.sharedQueues w.nextQueue [] }
      |>.addAwait a
      { type := .shared, waitMessageName := name, coExecutor := executor,
        waitCoPriority := priority, owner := c, sharedQueue := w.nextQueue } pos

/-- `create_message_await`. -/
def createMessageAwait (c : CoId) (a : Addr) (executor : ℕ) (name : String) (priority : UInt8)
    (pos : ℕ) : World :=
  w.addAwait a
    { type := .normal, waitMessageName := name, coExecutor := executor,
      waitCoPriority := priority, owner := c } pos

/-- `create_temp_message_await`. -/
def createTempMessageAwait (c : CoId) (a : Addr) (executor : ℕ) (name : String) (priority : UInt8)
    (filter : InternalMessage → Bool) (pos : ℕ) : World :=
  w.addAwait a
    { type := .temp, waitMessageName := name, coExecutor := executor,
      waitCoPriority := priority, owner := c, filter := filter } pos

/-- The destructors: `remove_await`, and for a `TempMessageAwait` of `create_time_await` the
message that removes its timer, still to be pushed. -/
def destroyAwait (c : CoId) (a : Addr) (A : Await) : World :=
  { w with
    awaits := update w.awaits a none
    registry := update w.registry A.type ((w.registry A.type).erase (A.waitMessageName, a))
    ctl := update w.ctl c
      (if A.type = .temp ∧ hasTimePrefix A.waitMessageName then
        .destroying (destructorMsg A.waitMessageName) else .body) }

/-! ### Timers -/

/-- `start_timer` and the insertion into `timers`, under `timers_mutex_`. -/
def startTimer (func : TimerFunc) : World :=
  { w with
    sid := w.sid + 1
    timerAt := update w.timerAt (w.sid + 1) (some { func := func })
    timers := update w.timers (w.sid + 1) true }

/-- `cancel_timer`: an outstanding wait is aborted, a handler already queued is not. -/
def cancelTimer (id : TimerId) : World :=
  if w.timers id then
    { w with
      timers := update w.timers id false
      timerAt := update w.timerAt id
        ((w.timerAt id).map fun T => if T.status = .armed then { T with status := .idle } else T) }
  else w

/-- An enqueue on one of the two bus queues. -/
def enqueueBus (d : Dispatcher) (p : Packet) : World :=
  { w with busQueue := update w.busQueue d (w.busQueue d ++ [p]) }

/-! ### Coroutines -/

/-- The evaluation of `co_await` up to the result of `await_ready`. -/
def coAwait (c : CoId) (a : Addr) (A : Await) : World :=
  match A.type with
  | .normal =>
    match A.queue with
    | m :: q =>
      { w with
        awaits := update w.awaits a (some { A with data := m, queue := q })
        ctl := update w.ctl c (.resuming a .loadSuspend) }
    | [] => { w with ctl := update w.ctl c (.suspending a .flag) }
  | .shared =>
    match w.sharedQueues A.sharedQueue with
    | m :: q =>
      { w with
        awaits := update w.awaits a (some { A with data := m })
        sharedQueues := update w.sharedQueues A.sharedQueue q
        ctl := update w.ctl c (.resuming a .state) }
    | [] => { w with ctl := update w.ctl c (.suspending a .handle) }
  | .temp => { w with ctl := update w.ctl c (.suspending a .handle) }

/-- What the code of coroutine `c` does between two `co_await`s.  The awaits it uses are its own. -/
def bodyStep (c : CoId) : BodyOp → Option World
  | .createShared a executor name priority pos =>
    if w.awaits a = none ∧ w.lockFree .shared then
      some (w.createSharedMessageAwait c a executor name priority pos) else none
  | .createMessage a executor name priority pos =>
    if w.awaits a = none ∧ w.lockFree .normal then
      some (w.createMessageAwait c a executor name priority pos) else none
  | .createTemp a executor name priority filter pos =>
    if w.awaits a = none ∧ w.lockFree .temp then
      some (w.createTempMessageAwait c a executor name priority filter pos) else none
  | .createTime isloop =>
    if w.timersMutex = none then
      some { w.startTimer (.tick (timeName (w.sid + 1)) isloop) with
        timersMutex := some c
        ctl := update w.ctl c (.creatingTime (w.sid + 1) isloop) }
    else none
  | .setTimeout a =>
    match w.awaits a with
    | some A =>
      if A.owner = c ∧ A.type = .temp ∧ w.timersMutex = none then
        some { w.startTimer (.timeout A.waitMessageName) with
          awaits := update w.awaits a (some { A with timeoutFor := some (w.sid + 1) })
          ctl := update w.ctl c (.arming a (w.sid + 1)) }
      else none
    | none => none
  | .coAwait a =>
    match w.awaits a with
    | some A => if A.owner = c then some (w.coAwait c a A) else none
    | none => none
  | .destroy a =>
    match w.awaits a with
    | some A =>
      if A.owner = c ∧ w.lockFree A.type then some (w.destroyAwait c a A) else none
    | none => none
  | .finish =>
    if w.ownsAwait c then none else some { w with ctl := update w.ctl c .done }

/-- `co_handle_remove_timer` only awaits its own await; every other coroutine is free. -/
def allowed (c : CoId) : BodyOp → Bool
  | .coAwait a => decide (c = remover → a = removerAwait)
  | _ => decide (c ≠ remover)

/-- The end of `create_time_await`: `create_temp_message_await` and the release of
`timers_mutex_`. -/
def registerTime (c : CoId) (a : Addr) (pos : ℕ) : Option World :=
  match w.ctl c with
  | .creatingTime id isloop =>
    if w.awaits a = none ∧ w.lockFree .temp then
      some { w.addAwait a
          { type := .temp, waitMessageName := timeName id, coExecutor := 0, waitCoPriority := 10,
            owner := c, tickFor := if isloop then none else some id } pos with
        timersMutex := none
        ctl := update w.ctl c .body }
    else none
  | _ => none

/-- The statements of `await_suspend` up to the store of `StopState`. -/
def awaitSuspend (c : CoId) (a : Addr) (A : Await) : SuspendPc → World
  | .flag =>
    { w with
      awaits := update w.awaits a (some { A with suspend := true })
      ctl := update w.ctl c (.suspending a .handle) }
  | .handle =>
    { w with
      awaits := update w.awaits a (some { A with handle := some c })
      ctl := update w.ctl c (.suspending a .state) }
  | .state =>
    { w with
      promise := update w.promise c { w.promise c with state := .stopState }
      ctl := update w.ctl c (.suspended a)
      late := (c, a) :: w.late }

/-- The statements of `await_resume`. -/
def awaitResume (c : CoId) (a : Addr) (A : Await) : ResumePc → World
  | .loadSuspend =>
    { w with ctl := update w.ctl c (.resuming a (if A.suspend then .dequeue else .clearSuspend)) }
  | .dequeue =>
    match A.queue with
    | m :: q =>
      { w with
        awaits := update w.awaits a (some { A with data := m, queue := q })
        ctl := update w.ctl c (.resuming a .clearSuspend) }
    -- the loop `while (!queue_.try_dequeue(data_))` goes round once more
    | [] => w
  | .clearSuspend =>
    { w with
      awaits := update w.awaits a (some { A with suspend := false })
      ctl := update w.ctl c (.resuming a .state) }
  | .state =>
    match A.handle with
    | some h =>
      { w with
        promise := update w.promise h { w.promise h with state := .runingState }
        ctl := update w.ctl c (.resuming a .ret) }
    | none => { w with fault := some (.nullHandle a) }
  | .ret =>
    { w with
      awaits := update w.awaits a (some { A with data := A.data.movedFrom })
      ctl := update w.ctl c (if c = remover then .removing A.data else .body)
      trace := .returned A.type A.waitMessageName a A.data :: w.trace }

/-- The next statement of the function coroutine `c` is in. -/
def runStep (c : CoId) (junk : ℕ) : Option World :=
  match w.ctl c with
  | .suspending a s => (w.awaits a).map fun A => w.awaitSuspend c a A s
  | .resuming a s => (w.awaits a).map fun A => w.awaitResume c a A s
  | .arming a id =>
    (w.awaits a).map fun A =>
      { w with
        awaits := update w.awaits a (some { A with timerId := id })
        ctl := update w.ctl c .body }
  | .destroying m =>
    some { w.enqueueBus .normal { msg := m } with ctl := update w.ctl c .body }
  | .removing m =>
    if w.timersMutex = none then
      some { w.cancelTimer ((string2Int m.data).getD junk) with ctl := update w.ctl c .body }
    else none
  | _ => none

/-- The last store of an `await_suspend`, which may come after the coroutine has been resumed. -/
def lateStep (i : ℕ) : Option World :=
  (w.late[i]?).map fun e =>
    { w with
      promise := update w.promise e.1 { w.promise e.1 with await := some e.2 }
      late := w.late.eraseIdx i }

/-- Ghost: the coroutine has been scheduled, so the wait it was suspended in is over. -/
def endWait (aw : Addr → Option Await) : Ctl → Addr → Option Await
  | .suspended a =>
    update aw a ((aw a).map fun A => { A with timeoutFor := none, tickFor := none })
  | _ => aw

/-- The element is a top of its executor's `priority_queue`. -/
def isTop (e : CoEntry) : Bool :=
  w.coQueue.all fun e' => decide (e'.executor = e.executor → e'.priority ≤ e.priority)

/-- `loop_resume_coroutine`: the section that pops, and the call of `resume()`. -/
def workerStep (i : ℕ) : Option World :=
  match w.coQueue[i]? with
  | some e =>
    if w.isTop e then
      match w.ctl e.handle with
      | .suspended a =>
        (w.awaits a).map fun A =>
          { w with
            coQueue := w.coQueue.eraseIdx i
            awaits := endWait w.awaits (.suspended a)
            ctl := update w.ctl e.handle
              (.resuming a (if A.type = .normal then .loadSuspend else .state)) }
      | _ => some { w with coQueue := w.coQueue.eraseIdx i, fault := some (.resumed e.handle) }
    else none
  | none => none

/-! ### The dispatchers -/

/-- One statement in the delivery to the await `A` at `a`: `resume_one_coroutine` of a
`SharedMessageAwait`, `push_message` of the two others. -/
def visitStep (d : Dispatcher) (k : AwaitType) (p : Packet) (first a : Addr) (rest : List Addr)
    (A : Await) : VisitPc → World
  | .enter =>
    match A.handle with
    | none => { w with disp := update w.disp d (.next k p first rest) }
    | some h =>
      match k with
      | .shared => { w with disp := update w.disp d (.visit k p first a rest (.loadAwait h)) }
      | .normal => { w with disp := update w.disp d (.visit k p first a rest (.enqueue h)) }
      | .temp =>
        if A.filter p.msg || p.msg.isTimeoutMsg then
          { w with disp := update w.disp d (.visit k p first a rest (.loadState h)) }
        else { w with disp := update w.disp d (.next k p first rest) }
  | .enqueue h =>
    { w with
      awaits := update w.awaits a (some { A with queue := A.queue ++ [p.msg] })
      disp := update w.disp d (.visit k p first a rest (.loadState h))
      trace := .enqueued a p.msg :: w.trace }
  | .loadState h =>
    if (w.promise h).state = .stopState then
      { w with disp := update w.disp d (.visit k p first a rest
          (if k = .shared then .writeData h else .loadAwait h)) }
    else { w with disp := update w.disp d (.next k p first rest) }
  | .loadAwait h =>
    if (w.promise h).await = some a then
      { w with disp := update w.disp d (.visit k p first a rest
          (match k with
            | .shared => .loadState h
            | .normal => .storeState h
            | .temp => .writeData h)) }
    else { w with disp := update w.disp d (.next k p first rest) }
  | .writeData h =>
    { w with
      awaits := update w.awaits a (some { A with data := p.msg })
      disp := update w.disp d (.visit k p first a rest (.storeState h)) }
  | .storeState h =>
    { w with
      promise := update w.promise h { w.promise h with state := .queueResume }
      awaits := endWait w.awaits (w.ctl h)
      disp := update w.disp d (.visit k p first a rest (.pushQueue h)) }
  | .pushQueue h =>
    { w with
      coQueue := w.coQueue ++
        [{ executor := A.coExecutor, handle := h, priority := A.waitCoPriority }]
      disp := update w.disp d
        (match k with
          | .shared => .after p .shared
          | .normal => .next k p first rest
          | .temp => .visit k p first a rest .loadTimer) }
  | .loadTimer =>
    if 0 < A.timerId then
      { w with disp := update w.disp d (.visit k p first a rest (.pushRemove A.timerId)) }
    else { w with disp := update w.disp d (.next k p first rest) }
  | .pushRemove id =>
    { w.enqueueBus .normal { msg := removeTimerMsg id } with
      disp := update w.disp d (.next k p first rest) }

/-- `dispatch_message`. -/
def dispatchStep (d : Dispatcher) (i : ℕ) : Option World :=
  match w.disp d with
  | .fetch =>
    if w.stop then none
    else (w.busQueue d)[i]?.map fun p =>
      { w with
        busQueue := update w.busQueue d ((w.busQueue d).eraseIdx i)
        disp := update w.disp d (.lock .shared p) }
  | .lock k p =>
    match Multimap.equalRange (w.registry k) p.msg.name with
    | [] => some { w with disp := update w.disp d (.after p k) }
    | a :: rest =>
      some { w with
        disp := update w.disp d (.visit k p a a rest .enter)
        trace := if k = .shared then .sharedDispatched p.msg :: w.trace else w.trace }
  | .visit k p first a rest s =>
    (w.awaits a).map fun A => w.visitStep d k p first a rest A s
  | .sharedPush p first =>
    (w.awaits first).map fun A =>
      { w with
        sharedQueues := update w.sharedQueues A.sharedQueue
          (w.sharedQueues A.sharedQueue ++ [p.msg])
        disp := update w.disp d (.after p .shared) }

/-! ### The `io_context` -/

/-- An outstanding wait expires. -/
def expire (id : TimerId) : Option World :=
  match w.timerAt id with
  | some T =>
    if T.status = .armed then
      some { w with
        timerAt := update w.timerAt id (some { T with status := .queued, expired := true }) }
    else none
  | none => none

/-- The handler of an expired wait is called with no error. -/
def ioBegin (id : TimerId) : Option World :=
  match w.timerAt id with
  | some T =>
    if w.io = .idle ∧ T.status = .queued then
      some { w with
        timerAt := update w.timerAt id (some { T with status := .idle })
        io := .call id }
    else none
  | none => none

/-- `timer_callback`: the call of `func()`, then the new wait if it returned true. -/
def ioStep : Option World :=
  match w.io with
  | .idle => none
  | .call id =>
    (w.timerAt id).map fun T =>
      match T.func with
      | .keepAlive => { w with io := .rearm id }
      | .tick msgName isloop =>
        { w.enqueueBus .high { msg := { name := msgName }, timer := some id } with
          io := if isloop then .rearm id else .idle }
      | .timeout msgName =>
        { w.enqueueBus .normal
            { msg := { name := msgName, isTimeoutMsg := true }, timer := some id } with
          io := .idle }
  | .rearm id =>
    (w.timerAt id).map fun T =>
      { w with timerAt := update w.timerAt id (some { T with status := .armed }), io := .idle }

end World

/-- One step of the process. -/
def step (w : World) (act : Action) : Option World :=
  if w.fault ≠ none then none
  else match act with
    | .push m => some (w.enqueueBus .normal { msg := m })
    | .pushHigh m => some (w.enqueueBus .high { msg := m })
    | .stop => some { w with stop := true }
    | .start c =>
      if w.ctl c = .fresh then some { w with ctl := update w.ctl c .body } else none
    | .body c op => if w.ctl c = .body ∧ World.allowed c op then w.bodyStep c op else none
    | .registerTime c a pos => w.registerTime c a pos
    | .run c junk => w.runStep c junk
    | .late i => w.lateStep i
    | .worker i => w.workerStep i
    | .dispatch d i => w.dispatchStep d i
    | .expire id => w.expire id
    | .ioBegin id => w.ioBegin id
    | .ioStep => w.ioStep

/-- A worker finds no coroutine that is still inside `await_suspend`, as one that was scheduled twice
can be. -/
def resumesSuspended (w : World) : Action → Bool
  | .worker i =>
    w.coQueue[i]?.all fun e =>
      match w.ctl e.handle with
      | .suspending _ _ => false
      | _ => true
  | _ => true

/-- The states of a run whose steps all satisfy `ok`. -/
abbrev Reachable (ok : World → Action → Prop) : World → Prop := Run.Reach step ok World.init

end DataProxy
