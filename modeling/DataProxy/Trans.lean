import DataProxy.Step

/-!
# What a step can do

`Trans w act w'` lists the transitions of `step` one by one, each with its guard and the exact
change of the state; `trans_of_step` says that the list is complete.  Every invariant below is
proved by going through this list, so that no proof unfolds `step`.
-/

namespace DataProxy

open Function (update)

variable {w w' : World} {act : Action}

/-- An await as its constructor leaves it. -/
def newAwait (type : AwaitType) (name : String) (executor : ℕ) (priority : UInt8) (c : CoId) :
    Await :=
  { type := type, waitMessageName := name, coExecutor := executor, waitCoPriority := priority,
    owner := c }

/-- The end of a wait only clears ghost fields. -/
theorem World.endWait_eq_some {aw : Addr → Option Await} {x : Ctl} {a : Addr} {A' : Await}
    (h : World.endWait aw x a = some A') :
    ∃ A, aw a = some A ∧ (A' = A ∨ A' = { A with timeoutFor := none, tickFor := none }) := by
  cases x with
  | suspended b =>
    by_cases hab : a = b
    · subst hab
      simp only [World.endWait, Function.update_self] at h
      obtain ⟨A, hA, rfl⟩ := Option.map_eq_some_iff.1 h
      exact ⟨A, hA, .inr rfl⟩
    · simp only [World.endWait, Function.update_of_ne hab] at h
      exact ⟨A', h, .inl rfl⟩
  | _ => exact ⟨A', h, .inl rfl⟩

theorem World.endWait_eq_none {aw : Addr → Option Await} {x : Ctl} {a : Addr}
    (h : World.endWait aw x a = none) : aw a = none := by
  cases x with
  | suspended b =>
    by_cases hab : a = b
    · subst hab
      simpa [World.endWait] using h
    · simpa [World.endWait, hab] using h
  | _ => exact h

/-- The transitions of the process. -/
inductive Trans (w : World) : Action → World → Prop
  -- the outside
  | push (m : InternalMessage) :
    Trans w (.push m)
      { w with busQueue := update w.busQueue .normal (w.busQueue .normal ++ [{ msg := m }]) }
  | pushHigh (m : InternalMessage) :
    Trans w (.pushHigh m)
      { w with busQueue := update w.busQueue .high (w.busQueue .high ++ [{ msg := m }]) }
  | stop : Trans w .stop { w with stop := true }
  | start {c : CoId} (hc : w.ctl c = .fresh) :
    Trans w (.start c) { w with ctl := update w.ctl c .body }
  -- creation
  | createClone {c a b executor name priority pos B} (hc : w.ctl c = .body) (hne : c ≠ remover)
      (ha : w.awaits a = none) (hl : w.lockFree .shared)
      (hb : (Multimap.equalRange (w.registry .shared) name).head? = some b)
      (hB : w.awaits b = some B) :
    Trans w (.body c (.createShared a executor name priority pos))
      { w with
        awaits := update w.awaits a (some { newAwait .shared name B.coExecutor B.waitCoPriority c
          with sharedQueue := B.sharedQueue })
        registry := update w.registry .shared
          (Multimap.insertAt (w.registry .shared) pos (name, a))
        trace := .created a :: w.trace }
  | createQueue {c a executor name priority pos} (hc : w.ctl c = .body) (hne : c ≠ remover)
      (ha : w.awaits a = none) (hl : w.lockFree .shared)
      (hn : (Multimap.equalRange (w.registry .shared) name).head?.bind w.awaits = none) :
    Trans w (.body c (.createShared a executor name priority pos))
      { w with
        awaits := update w.awaits a (some { newAwait .shared name executor priority c
          with sharedQueue := w.nextQueue })
        registry := update w.registry .shared
          (Multimap.insertAt (w.registry .shared) pos (name, a))
        nextQueue := w.nextQueue + 1
        sharedQueues := update w.sharedQueues w.nextQueue []
        trace := .created a :: w.trace }
  | createMessage {c a executor name priority pos} (hc : w.ctl c = .body) (hne : c ≠ remover)
      (ha : w.awaits a = none) (hl : w.lockFree .normal) :
    Trans w (.body c (.createMessage a executor name priority pos))
      { w with
        awaits := update w.awaits a (some (newAwait .normal name executor priority c))
        registry := update w.registry .normal
          (Multimap.insertAt (w.registry .normal) pos (name, a))
        trace := .created a :: w.trace }
  | createTemp {c a executor name priority filter pos} (hc : w.ctl c = .body) (hne : c ≠ remover)
      (ha : w.awaits a = none) (hl : w.lockFree .temp) :
    Trans w (.body c (.createTemp a executor name priority filter pos))
      { w with
        awaits := update w.awaits a
          (some { newAwait .temp name executor priority c with filter := filter })
        registry := update w.registry .temp (Multimap.insertAt (w.registry .temp) pos (name, a))
        trace := .created a :: w.trace }
  | createTime {c isloop} (hc : w.ctl c = .body) (hne : c ≠ remover) (hm : w.timersMutex = none) :
    Trans w (.body c (.createTime isloop))
      { w with
        sid := w.sid + 1
        timerAt := update w.timerAt (w.sid + 1)
          (some { func := .tick (timeName (w.sid + 1)) isloop })
        timers := update w.timers (w.sid + 1) true
        timersMutex := some c
        ctl := update w.ctl c (.creatingTime (w.sid + 1) isloop) }
  | registerTime {c a pos id isloop} (hc : w.ctl c = .creatingTime id isloop)
      (ha : w.awaits a = none) (hl : w.lockFree .temp) :
    Trans w (.registerTime c a pos)
      { w with
        awaits := update w.awaits a (some { newAwait .temp (timeName id) 0 10 c
          with tickFor := if isloop then none else some id })
        registry := update w.registry .temp
          (Multimap.insertAt (w.registry .temp) pos (timeName id, a))
        timersMutex := none
        ctl := update w.ctl c .body
        trace := .created a :: w.trace }
  | setTimeout {c a A} (hc : w.ctl c = .body) (hne : c ≠ remover) (ha : w.awaits a = some A)
      (ho : A.owner = c) (ht : A.type = .temp) (hm : w.timersMutex = none) :
    Trans w (.body c (.setTimeout a))
      { w with
        sid := w.sid + 1
        timerAt := update w.timerAt (w.sid + 1) (some { func := .timeout A.waitMessageName })
        timers := update w.timers (w.sid + 1) true
        awaits := update w.awaits a (some { A with timeoutFor := some (w.sid + 1) })
        ctl := update w.ctl c (.arming a (w.sid + 1)) }
  | arm {c a id A junk} (hc : w.ctl c = .arming a id) (ha : w.awaits a = some A) :
    Trans w (.run c junk)
      { w with
        awaits := update w.awaits a (some { A with timerId := id })
        ctl := update w.ctl c .body }
  -- destruction
  | destroy {c a A} (hc : w.ctl c = .body) (hne : c ≠ remover) (ha : w.awaits a = some A)
      (ho : A.owner = c) (hl : w.lockFree A.type) :
    Trans w (.body c (.destroy a))
      { w with
        awaits := update w.awaits a none
        registry := update w.registry A.type ((w.registry A.type).erase (A.waitMessageName, a))
        ctl := update w.ctl c
          (if A.type = .temp ∧ hasTimePrefix A.waitMessageName then
            .destroying (destructorMsg A.waitMessageName) else .body) }
  | destroyPush {c m junk} (hc : w.ctl c = .destroying m) :
    Trans w (.run c junk)
      { w with
        busQueue := update w.busQueue .normal (w.busQueue .normal ++ [{ msg := m }])
        ctl := update w.ctl c .body }
  | finish {c} (hc : w.ctl c = .body) (hne : c ≠ remover) (ho : w.ownsAwait c = false) :
    Trans w (.body c .finish) { w with ctl := update w.ctl c .done }
  -- `co_await`
  | readyNormal {c a A m q} (hc : w.ctl c = .body) (hr : c = remover → a = removerAwait)
      (ha : w.awaits a = some A) (ho : A.owner = c) (ht : A.type = .normal) (hq : A.queue = m :: q) :
    Trans w (.body c (.coAwait a))
      { w with
        awaits := update w.awaits a (some { A with data := m, queue := q })
        ctl := update w.ctl c (.resuming a .loadSuspend) }
  | readyShared {c a A m q} (hc : w.ctl c = .body) (hr : c = remover → a = removerAwait)
      (ha : w.awaits a = some A) (ho : A.owner = c) (ht : A.type = .shared)
      (hq : w.sharedQueues A.sharedQueue = m :: q) :
    Trans w (.body c (.coAwait a))
      { w with
        awaits := update w.awaits a (some { A with data := m })
        sharedQueues := update w.sharedQueues A.sharedQueue q
        ctl := update w.ctl c (.resuming a .state) }
  | notReady {c a A} (hc : w.ctl c = .body) (hr : c = remover → a = removerAwait)
      (ha : w.awaits a = some A) (ho : A.owner = c)
      (hn : A.type = .normal → A.queue = [])
      (hs : A.type = .shared → w.sharedQueues A.sharedQueue = []) :
    Trans w (.body c (.coAwait a))
      { w with
        ctl := update w.ctl c (.suspending a (if A.type = .normal then .flag else .handle)) }
  | suspendFlag {c a A junk} (hc : w.ctl c = .suspending a .flag) (ha : w.awaits a = some A) :
    Trans w (.run c junk)
      { w with
        awaits := update w.awaits a (some { A with suspend := true })
        ctl := update w.ctl c (.suspending a .handle) }
  | suspendHandle {c a A junk} (hc : w.ctl c = .suspending a .handle) (ha : w.awaits a = some A) :
    Trans w (.run c junk)
      { w with
        awaits := update w.awaits a (some { A with handle := some c })
        ctl := update w.ctl c (.suspending a .state) }
  | suspendState {c a A junk} (hc : w.ctl c = .suspending a .state) (ha : w.awaits a = some A) :
    Trans w (.run c junk)
      { w with
        promise := update w.promise c { w.promise c with state := .stopState }
        ctl := update w.ctl c (.suspended a)
        late := (c, a) :: w.late }
  | lateStore {i c a} (hi : w.late[i]? = some (c, a)) :
    Trans w (.late i)
      { w with
        promise := update w.promise c { w.promise c with await := some a }
        late := w.late.eraseIdx i }
  -- the executor
  | resume {i e a A} (hi : w.coQueue[i]? = some e) (ht : w.isTop e)
      (hc : w.ctl e.handle = .suspended a) (ha : w.awaits a = some A) :
    Trans w (.worker i)
      { w with
        coQueue := w.coQueue.eraseIdx i
        awaits := update w.awaits a (some { A with timeoutFor := none, tickFor := none })
        ctl := update w.ctl e.handle
          (.resuming a (if A.type = .normal then .loadSuspend else .state)) }
  | resumeFault {i e} (hi : w.coQueue[i]? = some e) (ht : w.isTop e)
      (hc : ∀ a, w.ctl e.handle ≠ .suspended a) :
    Trans w (.worker i)
      { w with coQueue := w.coQueue.eraseIdx i, fault := some (.resumed e.handle) }
  -- `await_resume`
  | loadSuspend {c a A junk} (hc : w.ctl c = .resuming a .loadSuspend)
      (ha : w.awaits a = some A) :
    Trans w (.run c junk)
      { w with ctl := update w.ctl c (.resuming a (if A.suspend then .dequeue else .clearSuspend)) }
  | dequeue {c a A m q junk} (hc : w.ctl c = .resuming a .dequeue) (ha : w.awaits a = some A)
      (hq : A.queue = m :: q) :
    Trans w (.run c junk)
      { w with
        awaits := update w.awaits a (some { A with data := m, queue := q })
        ctl := update w.ctl c (.resuming a .clearSuspend) }
  | spin {c a A junk} (hc : w.ctl c = .resuming a .dequeue) (ha : w.awaits a = some A)
      (hq : A.queue = []) : Trans w (.run c junk) w
  | clearSuspend {c a A junk} (hc : w.ctl c = .resuming a .clearSuspend)
      (ha : w.awaits a = some A) :
    Trans w (.run c junk)
      { w with
        awaits := update w.awaits a (some { A with suspend := false })
        ctl := update w.ctl c (.resuming a .state) }
  | storeRuning {c a A h junk} (hc : w.ctl c = .resuming a .state) (ha : w.awaits a = some A)
      (hh : A.handle = some h) :
    Trans w (.run c junk)
      { w with
        promise := update w.promise h { w.promise h with state := .runingState }
        ctl := update w.ctl c (.resuming a .ret) }
  | nullFault {c a A junk} (hc : w.ctl c = .resuming a .state) (ha : w.awaits a = some A)
      (hh : A.handle = none) :
    Trans w (.run c junk) { w with fault := some (.nullHandle a) }
  | ret {c a A junk} (hc : w.ctl c = .resuming a .ret) (ha : w.awaits a = some A) :
    Trans w (.run c junk)
      { w with
        awaits := update w.awaits a (some { A with data := A.data.movedFrom })
        ctl := update w.ctl c (if c = remover then .removing A.data else .body)
        trace := .returned A.type A.waitMessageName a A.data :: w.trace }
  -- `cancel_timer`
  | cancel {c m junk id} (hc : w.ctl c = .removing m) (hm : w.timersMutex = none)
      (hid : id = (string2Int m.data).getD junk) (ht : w.timers id = true) :
    Trans w (.run c junk)
      { w with
        timers := update w.timers id false
        timerAt := update w.timerAt id ((w.timerAt id).map fun T =>
          if T.status = .armed then { T with status := .idle } else T)
        ctl := update w.ctl c .body }
  | cancelMiss {c m junk} (hc : w.ctl c = .removing m) (hm : w.timersMutex = none)
      (ht : w.timers ((string2Int m.data).getD junk) = false) :
    Trans w (.run c junk) { w with ctl := update w.ctl c .body }
  -- `dispatch_message`
  | fetch {d i p} (hd : w.disp d = .fetch) (hs : w.stop = false) (hi : (w.busQueue d)[i]? = some p) :
    Trans w (.dispatch d i)
      { w with
        busQueue := update w.busQueue d ((w.busQueue d).eraseIdx i)
        disp := update w.disp d (.lock .shared p) }
  | lockNone {d i k p} (hd : w.disp d = .lock k p)
      (hr : Multimap.equalRange (w.registry k) p.msg.name = []) :
    Trans w (.dispatch d i) { w with disp := update w.disp d (.after p k) }
  | lockSome {d i k p a rest} (hd : w.disp d = .lock k p)
      (hr : Multimap.equalRange (w.registry k) p.msg.name = a :: rest) :
    Trans w (.dispatch d i)
      { w with
        disp := update w.disp d (.visit k p a a rest .enter)
        trace := if k = .shared then .sharedDispatched p.msg :: w.trace else w.trace }
  | skip {d i k p first a rest A} (hd : w.disp d = .visit k p first a rest .enter)
      (ha : w.awaits a = some A)
      (hs : A.handle = none ∨ k = .temp ∧ A.filter p.msg = false ∧ p.msg.isTimeoutMsg = false) :
    Trans w (.dispatch d i) { w with disp := update w.disp d (.next k p first rest) }
  | enter {d i k p first a rest A h s} (hd : w.disp d = .visit k p first a rest .enter)
      (ha : w.awaits a = some A) (hh : A.handle = some h)
      (hs : k = .shared ∧ s = .loadAwait h ∨ k = .normal ∧ s = .enqueue h ∨
        k = .temp ∧ s = .loadState h ∧ (A.filter p.msg = true ∨ p.msg.isTimeoutMsg = true)) :
    Trans w (.dispatch d i) { w with disp := update w.disp d (.visit k p first a rest s) }
  | enqueue {d i k p first a rest A h} (hd : w.disp d = .visit k p first a rest (.enqueue h))
      (ha : w.awaits a = some A) :
    Trans w (.dispatch d i)
      { w with
        awaits := update w.awaits a (some { A with queue := A.queue ++ [p.msg] })
        disp := update w.disp d (.visit k p first a rest (.loadState h))
        trace := .enqueued a p.msg :: w.trace }
  | stateStop {d i k p first a rest A h s} (hd : w.disp d = .visit k p first a rest (.loadState h))
      (ha : w.awaits a = some A) (hp : (w.promise h).state = .stopState)
      (hs : k = .shared ∧ s = .writeData h ∨ k ≠ .shared ∧ s = .loadAwait h) :
    Trans w (.dispatch d i) { w with disp := update w.disp d (.visit k p first a rest s) }
  | stateOther {d i k p first a rest A h} (hd : w.disp d = .visit k p first a rest (.loadState h))
      (ha : w.awaits a = some A) (hp : (w.promise h).state ≠ .stopState) :
    Trans w (.dispatch d i) { w with disp := update w.disp d (.next k p first rest) }
  | awaitThis {d i k p first a rest A h s} (hd : w.disp d = .visit k p first a rest (.loadAwait h))
      (ha : w.awaits a = some A) (hp : (w.promise h).await = some a)
      (hs : k = .shared ∧ s = .loadState h ∨ k = .normal ∧ s = .storeState h ∨
        k = .temp ∧ s = .writeData h) :
    Trans w (.dispatch d i) { w with disp := update w.disp d (.visit k p first a rest s) }
  | awaitOther {d i k p first a rest A h} (hd : w.disp d = .visit k p first a rest (.loadAwait h))
      (ha : w.awaits a = some A) (hp : (w.promise h).await ≠ some a) :
    Trans w (.dispatch d i) { w with disp := update w.disp d (.next k p first rest) }
  | writeData {d i k p first a rest A h} (hd : w.disp d = .visit k p first a rest (.writeData h))
      (ha : w.awaits a = some A) :
    Trans w (.dispatch d i)
      { w with
        awaits := update w.awaits a (some { A with data := p.msg })
        disp := update w.disp d (.visit k p first a rest (.storeState h)) }
  | storeState {d i k p first a rest A h} (hd : w.disp d = .visit k p first a rest (.storeState h))
      (ha : w.awaits a = some A) :
    Trans w (.dispatch d i)
      { w with
        promise := update w.promise h { w.promise h with state := .queueResume }
        awaits := World.endWait w.awaits (w.ctl h)
        disp := update w.disp d (.visit k p first a rest (.pushQueue h)) }
  | pushQueue {d i k p first a rest A h pc} (hd : w.disp d = .visit k p first a rest (.pushQueue h))
      (ha : w.awaits a = some A)
      (hpc : k = .shared ∧ pc = .lock .normal p ∨ k = .normal ∧ pc = .next k p first rest ∨
        k = .temp ∧ pc = .visit k p first a rest .loadTimer) :
    Trans w (.dispatch d i)
      { w with
        coQueue := w.coQueue ++
          [{ executor := A.coExecutor, handle := h, priority := A.waitCoPriority }]
        disp := update w.disp d pc }
  | noTimer {d i k p first a rest A} (hd : w.disp d = .visit k p first a rest .loadTimer)
      (ha : w.awaits a = some A) (ht : A.timerId = 0) :
    Trans w (.dispatch d i) { w with disp := update w.disp d (.next k p first rest) }
  | loadTimer {d i k p first a rest A} (hd : w.disp d = .visit k p first a rest .loadTimer)
      (ha : w.awaits a = some A) (ht : 0 < A.timerId) :
    Trans w (.dispatch d i)
      { w with disp := update w.disp d (.visit k p first a rest (.pushRemove A.timerId)) }
  | pushRemove {d i k p first a rest A id}
      (hd : w.disp d = .visit k p first a rest (.pushRemove id)) (ha : w.awaits a = some A) :
    Trans w (.dispatch d i)
      { w with
        busQueue := update w.busQueue .normal
          (w.busQueue .normal ++ [{ msg := removeTimerMsg id }])
        disp := update w.disp d (.next k p first rest) }
  | sharedPush {d i p first A} (hd : w.disp d = .sharedPush p first)
      (ha : w.awaits first = some A) :
    Trans w (.dispatch d i)
      { w with
        sharedQueues := update w.sharedQueues A.sharedQueue
          (w.sharedQueues A.sharedQueue ++ [p.msg])
        disp := update w.disp d (.lock .normal p) }
  -- the `io_context`
  | expire {id T} (ht : w.timerAt id = some T) (hs : T.status = .armed) :
    Trans w (.expire id)
      { w with
        timerAt := update w.timerAt id (some { T with status := .queued, expired := true }) }
  | ioBegin {id T} (ht : w.timerAt id = some T) (hi : w.io = .idle) (hs : T.status = .queued) :
    Trans w (.ioBegin id)
      { w with timerAt := update w.timerAt id (some { T with status := .idle }), io := .call id }
  | ioKeepAlive {id T} (hi : w.io = .call id) (ht : w.timerAt id = some T)
      (hf : T.func = .keepAlive) : Trans w .ioStep { w with io := .rearm id }
  | ioTick {id T msgName isloop} (hi : w.io = .call id) (ht : w.timerAt id = some T)
      (hf : T.func = .tick msgName isloop) :
    Trans w .ioStep
      { w with
        busQueue := update w.busQueue .high
          (w.busQueue .high ++ [{ msg := { name := msgName }, timer := some id }])
        io := if isloop then .rearm id else .idle }
  | ioTimeout {id T msgName} (hi : w.io = .call id) (ht : w.timerAt id = some T)
      (hf : T.func = .timeout msgName) :
    Trans w .ioStep
      { w with
        busQueue := update w.busQueue .normal (w.busQueue .normal ++
          [{ msg := { name := msgName, isTimeoutMsg := true }, timer := some id }])
        io := .idle }
  | ioRearm {id T} (hi : w.io = .rearm id) (ht : w.timerAt id = some T) :
    Trans w .ioStep
      { w with timerAt := update w.timerAt id (some { T with status := .armed }), io := .idle }

theorem fault_of_step (h : step w act = some w') : w.fault = none := by
  unfold step at h
  split at h
  · cases h
  · simpa using ‹¬w.fault ≠ none›

theorem trans_createShared {c a executor name priority pos} (hc : w.ctl c = .body)
    (hne : c ≠ remover) (ha : w.awaits a = none) (hl : w.lockFree .shared) :
    Trans w (.body c (.createShared a executor name priority pos))
      (w.createSharedMessageAwait c a executor name priority pos) := by
  unfold World.createSharedMessageAwait
  split
  · rename_i B hB
    obtain ⟨b, hb, hB⟩ := Option.bind_eq_some_iff.1 hB
    exact .createClone hc hne ha hl hb hB
  · rename_i hn
    exact .createQueue hc hne ha hl hn

theorem trans_coAwait {c a A} (hc : w.ctl c = .body) (hr : c = remover → a = removerAwait)
    (ha : w.awaits a = some A) (ho : A.owner = c) :
    Trans w (.body c (.coAwait a)) (w.coAwait c a A) := by
  have miss := @Trans.notReady w c a A hc hr ha ho
  unfold World.coAwait
  split
  · rename_i ht
    split
    · rename_i m q hq
      exact .readyNormal hc hr ha ho ht hq
    · rename_i hq
      simpa [ht, hq] using miss
  · rename_i ht
    split
    · rename_i m q hq
      exact .readyShared hc hr ha ho ht hq
    · rename_i hq
      simpa [ht, hq] using miss
  · rename_i ht
    simpa [ht] using miss

theorem trans_body {c op} (hc : w.ctl c = .body) (hal : World.allowed c op)
    (h : w.bodyStep c op = some w') : Trans w (.body c op) w' := by
  cases op with
  | createShared a executor name priority pos =>
    simp only [World.bodyStep, Option.ite_none_right_eq_some, Option.some.injEq] at h
    obtain ⟨⟨ha, hl⟩, rfl⟩ := h
    exact trans_createShared hc (by simpa [World.allowed] using hal) ha hl
  | createMessage a executor name priority pos =>
    simp only [World.bodyStep, Option.ite_none_right_eq_some, Option.some.injEq] at h
    obtain ⟨⟨ha, hl⟩, rfl⟩ := h
    exact .createMessage hc (by simpa [World.allowed] using hal) ha hl
  | createTemp a executor name priority filter pos =>
    simp only [World.bodyStep, Option.ite_none_right_eq_some, Option.some.injEq] at h
    obtain ⟨⟨ha, hl⟩, rfl⟩ := h
    exact .createTemp hc (by simpa [World.allowed] using hal) ha hl
  | createTime isloop =>
    simp only [World.bodyStep, Option.ite_none_right_eq_some, Option.some.injEq] at h
    obtain ⟨hm, rfl⟩ := h
    exact .createTime hc (by simpa [World.allowed] using hal) hm
  | setTimeout a =>
    simp only [World.bodyStep] at h
    split at h
    · rename_i A ha
      simp only [Option.ite_none_right_eq_some, Option.some.injEq] at h
      obtain ⟨⟨ho, ht, hm⟩, rfl⟩ := h
      exact .setTimeout hc (by simpa [World.allowed] using hal) ha ho ht hm
    · cases h
  | coAwait a =>
    simp only [World.bodyStep] at h
    split at h
    · rename_i A ha
      simp only [Option.ite_none_right_eq_some, Option.some.injEq] at h
      obtain ⟨ho, rfl⟩ := h
      exact trans_coAwait hc (of_decide_eq_true hal) ha ho
    · cases h
  | destroy a =>
    simp only [World.bodyStep] at h
    split at h
    · rename_i A ha
      simp only [Option.ite_none_right_eq_some, Option.some.injEq] at h
      obtain ⟨⟨ho, hl⟩, rfl⟩ := h
      exact .destroy hc (by simpa [World.allowed] using hal) ha ho hl
    · cases h
  | finish =>
    simp only [World.bodyStep, Option.ite_none_left_eq_some, Option.some.injEq] at h
    obtain ⟨ho, rfl⟩ := h
    exact .finish hc (by simpa [World.allowed] using hal) (by simpa using ho)

theorem trans_registerTime {c a pos} (h : w.registerTime c a pos = some w') :
    Trans w (.registerTime c a pos) w' := by
  unfold World.registerTime at h
  split at h
  · rename_i id isloop hc
    simp only [Option.ite_none_right_eq_some, Option.some.injEq] at h
    obtain ⟨⟨ha, hl⟩, rfl⟩ := h
    exact .registerTime hc ha hl
  · cases h

theorem trans_awaitSuspend {c a A s junk} (hc : w.ctl c = .suspending a s)
    (ha : w.awaits a = some A) : Trans w (.run c junk) (w.awaitSuspend c a A s) := by
  cases s with
  | flag => exact .suspendFlag hc ha
  | handle => exact .suspendHandle hc ha
  | state => exact .suspendState hc ha

theorem trans_awaitResume {c a A s junk} (hc : w.ctl c = .resuming a s)
    (ha : w.awaits a = some A) : Trans w (.run c junk) (w.awaitResume c a A s) := by
  cases s with
  | loadSuspend => exact .loadSuspend hc ha
  | dequeue =>
    simp only [World.awaitResume]
    split
    · rename_i m q hq
      exact .dequeue hc ha hq
    · rename_i hq
      exact .spin hc ha hq
  | clearSuspend => exact .clearSuspend hc ha
  | state =>
    simp only [World.awaitResume]
    split
    · rename_i h hh
      exact .storeRuning hc ha hh
    · rename_i hh
      exact .nullFault hc ha hh
  | ret => exact .ret hc ha

theorem trans_run {c junk} (h : w.runStep c junk = some w') : Trans w (.run c junk) w' := by
  unfold World.runStep at h
  split at h
  · rename_i a s hc
    obtain ⟨A, ha, rfl⟩ := Option.map_eq_some_iff.1 h
    exact trans_awaitSuspend hc ha
  · rename_i a s hc
    obtain ⟨A, ha, rfl⟩ := Option.map_eq_some_iff.1 h
    exact trans_awaitResume hc ha
  · rename_i a id hc
    obtain ⟨A, ha, rfl⟩ := Option.map_eq_some_iff.1 h
    exact .arm hc ha
  · rename_i m hc
    cases h
    exact .destroyPush hc
  · rename_i m hc
    simp only [Option.ite_none_right_eq_some, Option.some.injEq] at h
    obtain ⟨hm, rfl⟩ := h
    unfold World.cancelTimer
    split
    · rename_i ht
      exact .cancel hc hm rfl ht
    · rename_i ht
      exact .cancelMiss hc hm (by simpa using ht)
  · cases h

theorem trans_worker {i} (h : w.workerStep i = some w') : Trans w (.worker i) w' := by
  unfold World.workerStep at h
  split at h
  · rename_i e hi
    split at h
    · rename_i ht
      split at h
      · rename_i a hc
        obtain ⟨A, ha, rfl⟩ := Option.map_eq_some_iff.1 h
        simpa [World.endWait, ha] using Trans.resume hi ht hc ha
      · rename_i hc
        cases h
        exact .resumeFault hi ht hc
    · cases h
  · cases h

theorem trans_visit {d i k p first a rest A s} (hd : w.disp d = .visit k p first a rest s)
    (ha : w.awaits a = some A) :
    Trans w (.dispatch d i) (w.visitStep d k p first a rest A s) := by
  cases s with
  | enter =>
    simp only [World.visitStep]
    split
    · rename_i hh
      exact .skip hd ha (.inl hh)
    · rename_i h hh
      cases k with
      | shared => exact .enter hd ha hh (.inl ⟨rfl, rfl⟩)
      | normal => exact .enter hd ha hh (.inr (.inl ⟨rfl, rfl⟩))
      | temp =>
        dsimp only
        split
        · rename_i hf
          exact .enter hd ha hh (.inr (.inr ⟨rfl, rfl, by simpa using hf⟩))
        · rename_i hf
          exact .skip hd ha (.inr ⟨rfl, by simpa using hf⟩)
  | enqueue h => exact .enqueue hd ha
  | loadState h =>
    simp only [World.visitStep]
    split
    · rename_i hp
      refine .stateStop hd ha hp ?_
      by_cases hk : k = .shared <;> simp [hk]
    · rename_i hp
      exact .stateOther hd ha hp
  | loadAwait h =>
    simp only [World.visitStep]
    split
    · rename_i hp
      refine .awaitThis hd ha hp ?_
      cases k <;> simp
    · rename_i hp
      exact .awaitOther hd ha hp
  | writeData h => exact .writeData hd ha
  | storeState h => exact .storeState hd ha
  | pushQueue h =>
    refine .pushQueue hd ha ?_
    cases k <;> simp [DispPc.after]
  | loadTimer =>
    simp only [World.visitStep]
    split
    · rename_i ht
      exact .loadTimer hd ha ht
    · rename_i ht
      exact .noTimer hd ha (Nat.eq_zero_of_not_pos ht)
  | pushRemove id => exact .pushRemove hd ha

theorem trans_dispatch {d i} (h : w.dispatchStep d i = some w') :
    Trans w (.dispatch d i) w' := by
  unfold World.dispatchStep at h
  split at h
  · rename_i hd
    simp only [Option.ite_none_left_eq_some] at h
    obtain ⟨hs, h⟩ := h
    obtain ⟨p, hi, rfl⟩ := Option.map_eq_some_iff.1 h
    exact .fetch hd (by simpa using hs) hi
  · rename_i k p hd
    split at h
    · rename_i hr
      cases h
      exact .lockNone hd hr
    · rename_i a rest hr
      cases h
      exact .lockSome hd hr
  · rename_i k p first a rest s hd
    obtain ⟨A, ha, rfl⟩ := Option.map_eq_some_iff.1 h
    exact trans_visit hd ha
  · rename_i p first hd
    obtain ⟨A, ha, rfl⟩ := Option.map_eq_some_iff.1 h
    exact .sharedPush hd ha

theorem trans_io (h : w.ioStep = some w') : Trans w .ioStep w' := by
  unfold World.ioStep at h
  split at h
  · cases h
  · rename_i id hi
    obtain ⟨T, ht, rfl⟩ := Option.map_eq_some_iff.1 h
    cases hf : T.func with
    | keepAlive => exact .ioKeepAlive hi ht hf
    | tick msgName isloop => exact .ioTick hi ht hf
    | timeout msgName => exact .ioTimeout hi ht hf
  · rename_i id hi
    obtain ⟨T, ht, rfl⟩ := Option.map_eq_some_iff.1 h
    exact .ioRearm hi ht

/-- **The list of transitions is complete.** -/
theorem trans_of_step (h : step w act = some w') : Trans w act w' := by
  unfold step at h
  split at h
  · cases h
  cases act with
  | push m => cases h; exact .push m
  | pushHigh m => cases h; exact .pushHigh m
  | stop => cases h; exact .stop
  | start c =>
    simp only [Option.ite_none_right_eq_some, Option.some.injEq] at h
    obtain ⟨hc, rfl⟩ := h
    exact .start hc
  | body c op =>
    simp only [Option.ite_none_right_eq_some] at h
    exact trans_body h.1.1 h.1.2 h.2
  | registerTime c a pos => exact trans_registerTime h
  | run c junk => exact trans_run h
  | late i =>
    obtain ⟨e, hi, rfl⟩ := Option.map_eq_some_iff.1 h
    exact .lateStore hi
  | worker i => exact trans_worker h
  | dispatch d i => exact trans_dispatch h
  | expire id =>
    simp only [World.expire] at h
    split at h
    · rename_i T ht
      simp only [Option.ite_none_right_eq_some, Option.some.injEq] at h
      obtain ⟨hs, rfl⟩ := h
      exact .expire ht hs
    · cases h
  | ioBegin id =>
    simp only [World.ioBegin] at h
    split at h
    · rename_i T ht
      simp only [Option.ite_none_right_eq_some, Option.some.injEq] at h
      obtain ⟨⟨hi, hs⟩, rfl⟩ := h
      exact .ioBegin ht hi hs
    · cases h
  | ioStep => exact trans_io h

/-- The transitions of a dispatcher are those of `dispatchStep`. -/
theorem Trans.dispatch_eq {d : Dispatcher} {i : ℕ} (ht : Trans w (.dispatch d i) w') :
    w.dispatchStep d i = some w' := by
  cases ht with
  | fetch hd hs hi =>
    simp only [World.dispatchStep, hd, hs, hi, Bool.false_eq_true, if_false, Option.map_some]
  | lockNone hd hr | lockSome hd hr => simp only [World.dispatchStep, hd, hr]
  | sharedPush hd ha =>
    simp only [World.dispatchStep, hd, ha, Option.map_some]
    rfl
  | @skip _ _ _ p _ _ _ A hd ha hs =>
    simp only [World.dispatchStep, hd, ha, Option.map_some, World.visitStep]
    rcases hs with hs | ⟨rfl, hf, hm⟩
    · simp only [hs]
    · cases A.handle <;> simp [hf, hm]
  | enter hd ha hh hs =>
    simp only [World.dispatchStep, hd, ha, Option.map_some, World.visitStep, hh]
    rcases hs with ⟨rfl, rfl⟩ | ⟨rfl, rfl⟩ | ⟨rfl, rfl, hf⟩
    · rfl
    · rfl
    · simp [hf]
  | stateStop hd ha hp hs =>
    simp only [World.dispatchStep, hd, ha, Option.map_some, World.visitStep, hp, if_true]
    rcases hs with ⟨rfl, rfl⟩ | ⟨hk, rfl⟩
    · rfl
    · simp only [hk, if_false]
  | awaitThis hd ha hp hs =>
    simp only [World.dispatchStep, hd, ha, Option.map_some, World.visitStep, hp, if_true]
    rcases hs with ⟨rfl, rfl⟩ | ⟨rfl, rfl⟩ | ⟨rfl, rfl⟩ <;> rfl
  | stateOther hd ha hp | awaitOther hd ha hp =>
    simp only [World.dispatchStep, hd, ha, Option.map_some, World.visitStep, hp, if_false]
  | pushQueue hd ha hpc =>
    simp only [World.dispatchStep, hd, ha, Option.map_some, World.visitStep]
    rcases hpc with ⟨rfl, rfl⟩ | ⟨rfl, rfl⟩ | ⟨rfl, rfl⟩ <;> rfl
  | noTimer hd ha hz =>
    simp only [World.dispatchStep, hd, ha, Option.map_some, World.visitStep, hz, Nat.lt_irrefl, if_false]
  | loadTimer hd ha hz =>
    simp only [World.dispatchStep, hd, ha, Option.map_some, World.visitStep, hz, if_true]
  | enqueue hd ha | writeData hd ha | storeState hd ha | pushRemove hd ha =>
    simp only [World.dispatchStep, hd, ha, Option.map_some, World.visitStep, World.enqueueBus]

/-- The transitions of a coroutine inside a call are those of `runStep`. -/
theorem Trans.run_eq {junk : ℕ} (ht : Trans w (.run c junk) w') : w.runStep c junk = some w' := by
  cases ht with
  | destroyPush hc => simp only [World.runStep, hc, World.enqueueBus]
  | arm hc ha | suspendFlag hc ha | suspendHandle hc ha | suspendState hc ha | loadSuspend hc ha
  | clearSuspend hc ha | ret hc ha =>
    simp only [World.runStep, hc, ha, Option.map_some, World.awaitSuspend, World.awaitResume]
  | dequeue hc ha hq | spin hc ha hq =>
    simp only [World.runStep, hc, ha, Option.map_some, World.awaitResume, hq]
  | storeRuning hc ha hh | nullFault hc ha hh =>
    simp only [World.runStep, hc, ha, Option.map_some, World.awaitResume, hh]
  | cancel hc hm hid ht =>
    subst hid
    simp only [World.runStep, hc, hm, if_true, World.cancelTimer, ht]
  | cancelMiss hc hm ht =>
    simp only [World.runStep, hc, hm, if_true, World.cancelTimer, ht, Bool.false_eq_true, if_false]
/-- A dispatcher does not run coroutines. -/
theorem Trans.dispatch_ctl {d : Dispatcher} {i : ℕ} (ht : Trans w (.dispatch d i) w') :
    w'.ctl = w.ctl := by
  cases ht <;> rfl

/-- Only its own steps move a dispatcher. -/
theorem Trans.disp_eq (ht : Trans w act w') (d : Dispatcher) :
    w'.disp d = w.disp d ∨ ∃ i, act = .dispatch d i := by
  have moved : ∀ {d₁ i pc}, act = .dispatch d₁ i → w'.disp = update w.disp d₁ pc →
      w'.disp d = w.disp d ∨ ∃ i, act = .dispatch d i := by
    intro d₁ i pc hact he
    by_cases hdd : d = d₁
    · subst hdd
      exact .inr ⟨i, hact⟩
    · exact .inl (by rw [he, Function.update_of_ne hdd])
  cases ht with
  | fetch | lockNone | lockSome | skip | enter | enqueue | stateStop | stateOther | awaitThis
  | awaitOther | writeData | storeState | pushQueue | noTimer | loadTimer | pushRemove
  | sharedPush => exact moved rfl rfl
  | _ => exact .inl rfl

/-- What a step can do to the coroutine it runs: from where to where, and why. -/
inductive CtlMove (w w' : World) (act : Action) (c : CoId) : Ctl → Ctl → Prop
  | start (hact : act = .start c) : CtlMove w w' act c .fresh .body
  | createTime {l} (hact : act = .body c (.createTime l)) (hne : c ≠ remover)
      (hm : w'.timersMutex = some c)
      (ht : w'.timerAt (w.sid + 1) = some { func := .tick (timeName (w.sid + 1)) l })
      (ha : w'.awaits = w.awaits) : CtlMove w w' act c .body (.creatingTime (w.sid + 1) l)
  | registerTime {a pos id l} (hact : act = .registerTime c a pos) :
    CtlMove w w' act c (.creatingTime id l) .body
  | setTimeout {a A} (hact : act = .body c (.setTimeout a)) (ha : w.awaits a = some A)
      (ho : A.owner = c) : CtlMove w w' act c .body (.arming a (w.sid + 1))
  | arm {a id} : CtlMove w w' act c (.arming a id) .body
  | destroy : CtlMove w w' act c .body .body
  | destroyTime {a A} (hact : act = .body c (.destroy a)) (ha : w.awaits a = some A)
      (ht : A.type = .temp) (hp : hasTimePrefix A.waitMessageName = true) :
    CtlMove w w' act c .body (.destroying (destructorMsg A.waitMessageName))
  | destroyPush {m} : CtlMove w w' act c (.destroying m) .body
  | finish : CtlMove w w' act c .body .done
  | ready {a A} (hact : act = .body c (.coAwait a)) (ha : w.awaits a = some A) (ho : A.owner = c)
      (ht : A.type = .normal) : CtlMove w w' act c .body (.resuming a .loadSuspend)
  | readyShared {a A} (hact : act = .body c (.coAwait a)) (ha : w.awaits a = some A)
      (ho : A.owner = c) (ht : A.type = .shared) : CtlMove w w' act c .body (.resuming a .state)
  | notReady {a A s} (hact : act = .body c (.coAwait a)) (ha : w.awaits a = some A)
      (ho : A.owner = c) : CtlMove w w' act c .body (.suspending a s)
  | suspendFlag {a} : CtlMove w w' act c (.suspending a .flag) (.suspending a .handle)
  | suspendHandle {a} : CtlMove w w' act c (.suspending a .handle) (.suspending a .state)
  | suspendState {a} (hp : (w'.promise c).state = .stopState) (hq : w'.coQueue = w.coQueue)
      (hd : w'.disp = w.disp) : CtlMove w w' act c (.suspending a .state) (.suspended a)
  | resume {a A s} {i : ℕ} {e : CoEntry} (hi : w.coQueue[i]? = some e) (he : e.handle = c)
      (ha : w.awaits a = some A) (hs : s = if A.type = .normal then .loadSuspend else .state) :
    CtlMove w w' act c (.suspended a) (.resuming a s)
  | loadSuspend {a s} : CtlMove w w' act c (.resuming a .loadSuspend) (.resuming a s)
  | dequeue {a} : CtlMove w w' act c (.resuming a .dequeue) (.resuming a .clearSuspend)
  | clearSuspend {a} : CtlMove w w' act c (.resuming a .clearSuspend) (.resuming a .state)
  | storeRuning {a} : CtlMove w w' act c (.resuming a .state) (.resuming a .ret)
  | ret {a} : CtlMove w w' act c (.resuming a .ret) .body
  | retRemover {a A} (hr : c = remover) (ha : w.awaits a = some A) :
    CtlMove w w' act c (.resuming a .ret) (.removing A.data)
  | cancel {m} : CtlMove w w' act c (.removing m) .body

/-- A coroutine stays where it is or makes one of these moves. -/
theorem Trans.ctl_from (ht : Trans w act w') (c : CoId) :
    w'.ctl c = w.ctl c ∨ CtlMove w w' act c (w.ctl c) (w'.ctl c) := by
  have moved : ∀ {c₁ : CoId} {x y : Ctl}, w'.ctl = update w.ctl c₁ y → w.ctl c₁ = x →
      CtlMove w w' act c₁ x y → w'.ctl c = w.ctl c ∨ CtlMove w w' act c (w.ctl c) (w'.ctl c) := by
    intro c₁ x y he hx hm
    by_cases hcc : c = c₁
    · subst hcc
      rw [he, Function.update_self, hx]
      exact .inr hm
    · exact .inl (by rw [he, Function.update_of_ne hcc])
  cases ht with
  | start hc => exact moved rfl hc (.start rfl)
  | createTime hc hne => exact moved rfl hc (.createTime rfl hne rfl (Function.update_self ..) rfl)
  | registerTime hc => exact moved rfl hc (.registerTime rfl)
  | setTimeout hc _ ha ho => exact moved rfl hc (.setTimeout rfl ha ho)
  | arm hc => exact moved rfl hc .arm
  | destroy hc _ ha =>
    refine moved rfl hc ?_
    split
    · rename_i hA
      exact .destroyTime rfl ha hA.1 hA.2
    · exact .destroy
  | destroyPush hc => exact moved rfl hc .destroyPush
  | finish hc => exact moved rfl hc .finish
  | readyNormal hc _ ha ho hty => exact moved rfl hc (.ready rfl ha ho hty)
  | readyShared hc _ ha ho hty => exact moved rfl hc (.readyShared rfl ha ho hty)
  | notReady hc _ ha ho => exact moved rfl hc (.notReady rfl ha ho)
  | suspendFlag hc => exact moved rfl hc .suspendFlag
  | suspendHandle hc => exact moved rfl hc .suspendHandle
  | suspendState hc => exact moved rfl hc (.suspendState (by simp) rfl rfl)
  | resume hi _ hc ha => exact moved rfl hc (.resume hi rfl ha rfl)
  | loadSuspend hc => exact moved rfl hc .loadSuspend
  | dequeue hc => exact moved rfl hc .dequeue
  | clearSuspend hc => exact moved rfl hc .clearSuspend
  | storeRuning hc => exact moved rfl hc .storeRuning
  | ret hc ha =>
    refine moved rfl hc ?_
    split
    · rename_i hr
      exact .retRemover hr ha
    · exact .ret
  | cancel hc => exact moved rfl hc .cancel
  | cancelMiss hc => exact moved rfl hc .cancel
  | _ => exact .inl rfl

/-- The coroutine is inside a function whose next statement is its own `run` step. -/
def Ctl.inCall : Ctl → Bool
  | .suspending _ _ | .resuming _ _ | .arming _ _ | .destroying _ | .removing _ => true
  | .fresh | .body | .suspended _ | .creatingTime _ _ | .done => false

/-- A coroutine leaves such a place only by its own step. -/
theorem Trans.run_of_inCall (ht : Trans w act w') {c : CoId} (hc : (w.ctl c).inCall = true) :
    w'.ctl c = w.ctl c ∨ ∃ junk, act = .run c junk := by
  have other : ∀ {c₁ y}, w'.ctl = update w.ctl c₁ y → (w.ctl c₁).inCall = false →
      w'.ctl c = w.ctl c ∨ ∃ junk, act = .run c junk := by
    intro c₁ y he hno
    have hcc : c ≠ c₁ := by
      rintro rfl
      rw [hc] at hno
      cases hno
    exact .inl (by rw [he, Function.update_of_ne hcc])
  have own : ∀ {c₁ y junk}, w'.ctl = update w.ctl c₁ y → act = .run c₁ junk →
      w'.ctl c = w.ctl c ∨ ∃ junk, act = .run c junk := by
    intro c₁ y junk he hact
    by_cases hcc : c = c₁
    · exact .inr ⟨junk, hcc ▸ hact⟩
    · exact .inl (by rw [he, Function.update_of_ne hcc])
  cases ht with
  | start hc₁ | createTime hc₁ | registerTime hc₁ | setTimeout hc₁ | destroy hc₁ | finish hc₁
  | readyNormal hc₁ | readyShared hc₁ | notReady hc₁ | resume _ _ hc₁ =>
    exact other rfl (by rw [hc₁]; rfl)
  | arm | destroyPush | suspendFlag | suspendHandle | suspendState | loadSuspend | dequeue
  | clearSuspend | storeRuning | ret | cancel | cancelMiss => exact own rfl rfl
  | _ => exact .inl rfl

/-- What a step can do to an await object that is alive before and after it. -/
inductive AwaitEdit (w : World) (act : Action) (a : Addr) (A : Await) : Await → Prop
  | same : AwaitEdit w act a A A
  | setTimeout {c} (hact : act = .body c (.setTimeout a)) (hc : w.ctl c = .body)
      (ho : A.owner = c) (ht : A.type = .temp) :
    AwaitEdit w act a A { A with timeoutFor := some (w.sid + 1) }
  | arm {c id junk} (hact : act = .run c junk) (hc : w.ctl c = .arming a id) :
    AwaitEdit w act a A { A with timerId := id }
  | ready {c m q} (hact : act = .body c (.coAwait a)) (hc : w.ctl c = .body) (ho : A.owner = c)
      (ht : A.type = .normal) (hq : A.queue = m :: q) :
    AwaitEdit w act a A { A with data := m, queue := q }
  | readyShared {c m q} (hact : act = .body c (.coAwait a)) (hc : w.ctl c = .body)
      (ho : A.owner = c) (ht : A.type = .shared) (hq : w.sharedQueues A.sharedQueue = m :: q) :
    AwaitEdit w act a A { A with data := m }
  | suspendFlag {c} (hc : w.ctl c = .suspending a .flag) :
    AwaitEdit w act a A { A with suspend := true }
  | suspendHandle {c} (hc : w.ctl c = .suspending a .handle) :
    AwaitEdit w act a A { A with handle := some c }
  | endWait {c} (hc : w.ctl c = .suspended a)
      (hact : (∃ i, act = .worker i) ∨ ∃ d i k p first b rest, act = .dispatch d i ∧
        w.disp d = .visit k p first b rest (.storeState c)) :
    AwaitEdit w act a A { A with timeoutFor := none, tickFor := none }
  | dequeue {c m q} (hc : w.ctl c = .resuming a .dequeue) (hq : A.queue = m :: q) :
    AwaitEdit w act a A { A with data := m, queue := q }
  | clearSuspend {c} (hc : w.ctl c = .resuming a .clearSuspend) :
    AwaitEdit w act a A { A with suspend := false }
  | ret {c junk} (hact : act = .run c junk) (hc : w.ctl c = .resuming a .ret) :
    AwaitEdit w act a A { A with data := A.data.movedFrom }
  | enqueue {d i k p first rest h} (hact : act = .dispatch d i)
      (hd : w.disp d = .visit k p first a rest (.enqueue h)) :
    AwaitEdit w act a A { A with queue := A.queue ++ [p.msg] }
  | writeData {d i k p first rest h} (hact : act = .dispatch d i)
      (hd : w.disp d = .visit k p first a rest (.writeData h)) :
    AwaitEdit w act a A { A with data := p.msg }

/-- Every transition edits an await in one of these ways. -/
theorem Trans.edit (ht : Trans w act w') {a : Addr} {A A' : Await} (ha : w.awaits a = some A)
    (ha' : w'.awaits a = some A') : AwaitEdit w act a A A' := by
  have same : w'.awaits a = w.awaits a → AwaitEdit w act a A A' := by
    intro he
    obtain rfl : A = A' := Option.some.inj (ha.symm.trans (he.symm.trans ha'))
    exact .same
  -- a change at `b` is a change at `a` or none
  have edit : ∀ {b : Addr} {B B' : Await}, w.awaits b = some B →
      w'.awaits = update w.awaits b (some B') → (b = a → AwaitEdit w act a B B') →
      AwaitEdit w act a A A' := by
    intro b B B' hb he h
    by_cases hab : b = a
    · subst hab
      obtain rfl : A = B := Option.some.inj (ha.symm.trans hb)
      rw [he, Function.update_self, Option.some.injEq] at ha'
      exact ha' ▸ h rfl
    · exact same (by rw [he, Function.update_of_ne (Ne.symm hab)])
  cases ht with
  | @createClone _ b _ _ _ _ _ _ _ _ hb | @createQueue _ b _ _ _ _ _ _ hb
  | @createMessage _ b _ _ _ _ _ _ hb | @createTemp _ b _ _ _ _ _ _ _ hb
  | @registerTime _ b _ _ _ _ hb =>
    have hab : a ≠ b := by rintro rfl; rw [ha] at hb; cases hb
    exact same (Function.update_of_ne hab ..)
  | @destroy _ b =>
    have hab : a ≠ b := by rintro rfl; simp at ha'
    exact same (Function.update_of_ne hab ..)
  | setTimeout hc _ hb ho ht => exact edit hb rfl fun h => h ▸ .setTimeout rfl hc ho ht
  | arm hc hb => exact edit hb rfl fun h => h ▸ .arm rfl hc
  | readyNormal hc _ hb ho ht hq => exact edit hb rfl fun h => h ▸ .ready rfl hc ho ht hq
  | readyShared hc _ hb ho ht hq => exact edit hb rfl fun h => h ▸ .readyShared rfl hc ho ht hq
  | suspendFlag hc hb => exact edit hb rfl fun h => h ▸ .suspendFlag hc
  | suspendHandle hc hb => exact edit hb rfl fun h => h ▸ .suspendHandle hc
  | resume _ _ hc hb => exact edit hb rfl fun h => h ▸ .endWait hc (.inl ⟨_, rfl⟩)
  | dequeue hc hb hq => exact edit hb rfl fun h => h ▸ .dequeue hc hq
  | clearSuspend hc hb => exact edit hb rfl fun h => h ▸ .clearSuspend hc
  | ret hc hb => exact edit hb rfl fun h => h ▸ .ret rfl hc
  | enqueue hd hb => exact edit hb rfl fun h => h ▸ .enqueue rfl hd
  | writeData hd hb => exact edit hb rfl fun h => h ▸ .writeData rfl hd
  | @storeState d i k p first b rest B co hd hb =>
    cases hc : w.ctl co with
    | suspended b' =>
      cases hb' : w.awaits b' with
      | none =>
        refine same ?_
        simp only [World.endWait, hc, hb', Option.map_none]
        rw [← hb', Function.update_eq_self]
      | some B' =>
        have he : World.endWait w.awaits (w.ctl co) = update w.awaits b'
            (some { B' with timeoutFor := none, tickFor := none }) := by
          simp [World.endWait, hc, hb']
        refine edit hb' he ?_
        rintro rfl
        exact .endWait hc (.inr ⟨d, i, k, p, first, b, rest, rfl, hd⟩)
    | _ => exact same (by simp [World.endWait, hc])
  | _ => exact same rfl

/-- How an await object comes to be. -/
inductive Created (w : World) (act : Action) (a : Addr) : Await → Prop
  | shared {c executor name priority pos A}
      (hact : act = .body c (.createShared a executor name priority pos)) (hne : c ≠ remover)
      (hA : ∃ e r q, A = { newAwait .shared name e r c with sharedQueue := q }) : Created w act a A
  | message {c executor name priority pos}
      (hact : act = .body c (.createMessage a executor name priority pos)) (hne : c ≠ remover) :
    Created w act a (newAwait .normal name executor priority c)
  | temp {c executor name priority filter pos}
      (hact : act = .body c (.createTemp a executor name priority filter pos))
      (hne : c ≠ remover) :
    Created w act a { newAwait .temp name executor priority c with filter := filter }
  | time {c pos id isloop} (hact : act = .registerTime c a pos)
      (hc : w.ctl c = .creatingTime id isloop) :
    Created w act a { newAwait .temp (timeName id) 0 10 c
      with tickFor := if isloop then none else some id }

/-- Every transition creates an await in one of these ways. -/
theorem Trans.created (ht : Trans w act w') {a : Addr} {A' : Await} (ha : w.awaits a = none)
    (ha' : w'.awaits a = some A') : Created w act a A' := by
  have same : w'.awaits a ≠ w.awaits a := by rw [ha, ha']; simp
  have edit : ∀ {b : Addr} {B B' : Await}, w.awaits b = some B →
      w'.awaits ≠ update w.awaits b (some B') := by
    intro b B B' hb he
    have hab : a ≠ b := by rintro rfl; rw [ha] at hb; cases hb
    exact same (by rw [he, Function.update_of_ne hab])
  have new : ∀ {b : Addr} {B : Await}, w'.awaits = update w.awaits b (some B) →
      b = a ∧ B = A' := by
    intro b B he
    have hab : a = b := by
      by_contra hab
      exact same (by rw [he, Function.update_of_ne hab])
    subst hab
    rw [he, Function.update_self, Option.some.injEq] at ha'
    exact ⟨rfl, ha'⟩
  cases ht with
  | createClone _ hne =>
    obtain ⟨rfl, rfl⟩ := new rfl
    exact .shared rfl hne ⟨_, _, _, rfl⟩
  | createQueue _ hne =>
    obtain ⟨rfl, rfl⟩ := new rfl
    exact .shared rfl hne ⟨_, _, _, rfl⟩
  | createMessage _ hne =>
    obtain ⟨rfl, rfl⟩ := new rfl
    exact .message rfl hne
  | createTemp _ hne =>
    obtain ⟨rfl, rfl⟩ := new rfl
    exact .temp rfl hne
  | registerTime hc =>
    obtain ⟨rfl, rfl⟩ := new rfl
    exact .time rfl hc
  | @destroy c b B hc hne hb =>
    have hab : a ≠ b := by rintro rfl; rw [ha] at hb; cases hb
    exact absurd (Function.update_of_ne hab ..) same
  | setTimeout _ _ hb | arm _ hb | readyNormal _ _ hb | readyShared _ _ hb | suspendFlag _ hb
  | suspendHandle _ hb | resume _ _ _ hb | dequeue _ hb | clearSuspend _ hb | ret _ hb
  | enqueue _ hb | writeData _ hb => exact absurd rfl (edit hb)
  | storeState =>
    obtain ⟨B, hB, -⟩ := World.endWait_eq_some ha'
    rw [ha] at hB
    cases hB
  | _ => exact absurd rfl same

/-- The two calls that make a `TempMessageAwait`. -/
theorem Created.temp_cases {a : Addr} {A : Await} (h : Created w act a A) (hty : A.type = .temp) :
    (∃ c executor priority filter pos,
      act = .body c (.createTemp a executor A.waitMessageName priority filter pos)) ∨
    ∃ c pos id isloop, act = .registerTime c a pos ∧ w.ctl c = .creatingTime id isloop ∧
      A.waitMessageName = timeName id := by
  cases h with
  | shared _ _ hA =>
    obtain ⟨e, r, q, rfl⟩ := hA
    cases hty
  | message => cases hty
  | temp hact => exact .inl ⟨_, _, _, _, _, hact⟩
  | time hact hc => exact .inr ⟨_, _, _, _, hact, hc, rfl⟩

/-- An await with a tick to come is made by `create_time_await` without loop. -/
theorem Created.of_tickFor {a : Addr} {A : Await} {id : TimerId} (h : Created w act a A)
    (hA : A.tickFor = some id) :
    ∃ c pos, act = .registerTime c a pos ∧ w.ctl c = .creatingTime id false ∧
      A = { newAwait .temp (timeName id) 0 10 c with tickFor := some id } := by
  cases h with
  | shared _ _ hS =>
    obtain ⟨e, r, q, rfl⟩ := hS
    cases hA
  | message | temp => cases hA
  | @time c pos id isloop hact hc =>
    cases isloop with
    | true => cases hA
    | false =>
      obtain rfl := Option.some.inj hA
      exact ⟨c, pos, hact, hc, rfl⟩

end DataProxy
