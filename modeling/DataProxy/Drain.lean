import DataProxy.Dispatches
import DataProxy.DispatchLoop
import Mathlib.Data.Finset.Card

/-!
# Draining the queue

One `co_task.resume()` of the coroutine that serves `queue_`, with no other thread moving.  The loop
feeds the queue it drains: a delivery to a `TempMessageAwait` with a timer pushes a message to
`queue_`.  It comes to an end nevertheless.  Such a delivery needs a coroutine stopped on the await
and marks it `QueueResume`, and no step of the dispatcher stops one again; so the messages in the
queue together with the awaits that may still push one become fewer with every iteration.
-/

namespace DataProxy

variable {w w' : World} {p : Packet} {rest : List Packet} {a : Addr} {c : CoId}
  {m : InternalMessage}

/-- The coroutine is stopped on a `TempMessageAwait` with `timer_id_ > 0`. -/
def World.TimedStop (w : World) (c : CoId) : Prop :=
  (w.promise c).state = .stopState ∧ ∃ a A, (w.promise c).await = some a ∧ w.awaits a = some A ∧
    A.handle = some c ∧ A.type = .temp ∧ 0 < A.timerId

/-- What `remove_timer` pushes when the coroutine is resumed. -/
def World.timerRemoval (w : World) (c : CoId) : Option Packet :=
  (w.promise c).await.bind w.removalAt

/-- What the next statement of a dispatcher pushes to `queue_`. -/
def DispPc.pushes : DispPc → List Packet
  | .visit _ _ _ _ _ (.pushRemove id) => [{ msg := removeTimerMsg id }]
  | _ => []

/-! ### What a dispatch does to the coroutines stopped with a timer -/

section

variable {D : Deliveries} {d : Dispatcher}

/-- No delivery stops a coroutine. -/
theorem stoppedOn_of_deliver (h : (w.deliver m D).stoppedOn a = true) : w.stoppedOn a = true := by
  unfold World.stoppedOn at h ⊢
  rw [handleAt_deliver] at h
  cases hh : w.handleAt a with
  | none => simp [hh] at h
  | some c =>
    rw [hh] at h
    rw [Option.any_some] at h ⊢
    by_cases hc : c ∈ D.resumed.filterMap w.handleAt
    · rw [promise_deliver_of_mem hc] at h
      simp at h
    · rwa [promise_deliver_of_notMem hc] at h

/-- The coroutines resumed are not stopped any more. -/
theorem not_stoppedOn_of_mem_resumed (ha : a ∈ D.resumed) :
    (w.deliver m D).stoppedOn a = false := by
  unfold World.stoppedOn
  rw [handleAt_deliver]
  cases hh : w.handleAt a with
  | none => rfl
  | some c =>
    rw [Option.any_some, promise_deliver_of_mem (List.mem_filterMap.2 ⟨a, ha, hh⟩)]
    simp

theorem mem_matched (ha : a ∈ w.matched m) : a ∈ w.range .temp m ∧ w.stoppedOn a = true := by
  obtain ⟨hrange, hstop⟩ := List.mem_filter.1 ha
  simp only [Bool.and_eq_true] at hstop
  exact ⟨hrange, hstop.1⟩

/-- The awaits for which `remove_timer` will push, should the coroutine be resumed. -/
def World.timedAwaits (w : World) : Finset Addr :=
  ((w.registry .temp).map Prod.snd).toFinset.filter fun a =>
    w.stoppedOn a = true ∧ (w.removalAt a).isSome = true

theorem Serving.stoppedOn_eq (hw : Serving w) (h : Dispatches d p w w') :
    w'.stoppedOn = (w.deliver p.msg (w.deliveries p.msg)).stoppedOn := by
  rw [← stoppedOn_bare, hw.dispatches_eq h, stoppedOn_bare]
  rfl

theorem Serving.removalAt_eq (hw : Serving w) (h : Dispatches d p w w') :
    w'.removalAt = w.removalAt := by
  rw [← removalAt_bare, hw.dispatches_eq h, removalAt_bare]
  exact removalAt_dispatched

/-- **What is pushed is paid for** by awaits that can push no more. -/
theorem Serving.timedAwaits_card (hw : Serving w) (h : Dispatches d p w w') :
    w'.timedAwaits.card + (w.removals p.msg).length ≤ w.timedAwaits.card := by
  have hnd : (w.matched p.msg).Nodup := (Multimap.nodup_equalRange (hw.nodup .temp) _).filter _
  -- the awaits that have pushed
  let M := ((w.matched p.msg).filter fun a => (w.removalAt a).isSome).toFinset
  have hM : M.card = (w.removals p.msg).length := by
    rw [List.toFinset_card_of_nodup (hnd.filter _), World.removals,
      List.length_filterMap_eq_countP, List.countP_eq_length_filter]
  have hMsub : M ⊆ w.timedAwaits := by
    intro a ha
    obtain ⟨ha, hrem⟩ := List.mem_filter.1 (List.mem_toFinset.1 ha)
    obtain ⟨hrange, hstop⟩ := mem_matched ha
    simp only [World.timedAwaits, Finset.mem_filter, List.mem_toFinset, List.mem_map]
    exact ⟨⟨_, Multimap.mem_equalRange.1 hrange, rfl⟩, hstop, hrem⟩
  have hsub : w'.timedAwaits ⊆ w.timedAwaits := by
    intro a ha
    simp only [World.timedAwaits, Finset.mem_filter, hw.dispatches_registry h, hw.removalAt_eq h,
      hw.stoppedOn_eq h] at ha ⊢
    exact ⟨ha.1, stoppedOn_of_deliver ha.2.1, ha.2.2⟩
  have hdisj : Disjoint w'.timedAwaits M := by
    rw [Finset.disjoint_left]
    intro a ha haM
    have hmatched := (List.mem_filter.1 (List.mem_toFinset.1 haM)).1
    have hno : w'.stoppedOn a = false := by
      rw [hw.stoppedOn_eq h]
      exact not_stoppedOn_of_mem_resumed (List.mem_append_right _ hmatched)
    have hyes := (Finset.mem_filter.1 ha).2.1
    rw [hno] at hyes
    cases hyes
  rw [← hM, ← Finset.card_union_of_disjoint hdisj]
  exact Finset.card_le_card (Finset.union_subset hsub hMsub)

theorem exists_of_stoppedOn (h : w.stoppedOn a = true) : ∃ c, w.handleAt a = some c ∧
    (w.promise c).await = some a ∧ (w.promise c).state = .stopState := by
  unfold World.stoppedOn at h
  cases hh : w.handleAt a with
  | none => simp [hh] at h
  | some c => exact ⟨c, rfl, by simpa [hh] using h⟩

theorem Serving.promise_eq (hw : Serving w) (h : Dispatches d p w w') :
    w'.promise = (w.deliver p.msg (w.deliveries p.msg)).promise := by
  have hpr : w'.bare.promise = _ := congrArg World.promise (hw.dispatches_eq h)
  exact hpr

theorem Serving.timerRemoval_eq (hw : Serving w) (h : Dispatches d p w w') :
    w'.timerRemoval = w.timerRemoval := by
  have hawait : ∀ c, (w'.promise c).await = (w.promise c).await := by
    intro c
    rw [hw.promise_eq h]
    simp only [World.deliver]
    split <;> rfl
  funext c
  rw [World.timerRemoval, World.timerRemoval, hawait, hw.removalAt_eq h]

/-- The coroutines still stopped with a timer were so before, and have not been resumed. -/
theorem Serving.timedStop_of_dispatches (hw : Serving w) (h : Dispatches d p w w')
    (hc : w'.TimedStop c) :
    w.TimedStop c ∧ c ∉ (w.deliveries p.msg).resumed.filterMap w.handleAt := by
  obtain ⟨hstate, a, A', hawait, hA', hh, hty, ht⟩ := hc
  rw [hw.promise_eq h] at hstate hawait
  have hnot : c ∉ (w.deliveries p.msg).resumed.filterMap w.handleAt := by
    intro hmem
    rw [promise_deliver_of_mem hmem] at hstate
    cases hstate
  rw [promise_deliver_of_notMem hnot] at hstate hawait
  have haw : (w'.awaits a).map Await.bare =
      ((w.deliver p.msg (w.deliveries p.msg)).awaits a).map Await.bare :=
    congrFun (congrArg World.awaits (hw.dispatches_eq h)) a
  refine ⟨⟨hstate, a, ?_⟩, hnot⟩
  cases hA : w.awaits a with
  | none => simp [World.deliver, hA, hA'] at haw
  | some A =>
    simp only [World.deliver, hA, hA', Option.map_some, Option.some.injEq] at haw
    refine ⟨A, hawait, rfl, ?_, ?_, ?_⟩
    · exact (congrArg Await.handle haw).symm.trans hh
    · exact (congrArg Await.type haw).symm.trans hty
    · have htimer := congrArg Await.timerId haw
      exact lt_of_lt_of_eq ht htimer

/-- The coroutines whose timers a dispatch of `m` asks to remove. -/
def World.timedResumed (w : World) (m : InternalMessage) : List CoId :=
  ((w.matched m).filter fun a => (w.removalAt a).isSome).filterMap w.handleAt

theorem timedResumed_sublist :
    (w.timedResumed m).Sublist ((w.deliveries m).resumed.filterMap w.handleAt) :=
  (List.filter_sublist.trans (List.sublist_append_right ..)).filterMap _

theorem Listed.timedStop_of_mem_timedResumed (hb : Listed w) (hc : c ∈ w.timedResumed m) :
    w.TimedStop c := by
  obtain ⟨a, ha, hah⟩ := List.mem_filterMap.1 hc
  obtain ⟨ha, hrem⟩ := List.mem_filter.1 ha
  obtain ⟨hrange, hstop⟩ := mem_matched ha
  obtain ⟨A, hA, hty, -⟩ := hb.mem_range hrange
  obtain ⟨c', hc', hawait, hstate⟩ := exists_of_stoppedOn hstop
  obtain rfl := Option.some.inj (hah.symm.trans hc')
  refine ⟨hstate, a, A, hawait, hA, ?_, hty, ?_⟩
  · simpa [World.handleAt, hA] using hah
  · simpa [World.removalAt, hA] using hrem

theorem filterMap_timedResumed : (w.timedResumed m).filterMap w.timerRemoval = w.removals m := by
  unfold World.timedResumed World.removals
  rw [List.filterMap_filterMap, List.filterMap_filter]
  refine List.filterMap_congr fun a ha => ?_
  obtain ⟨c, hc, hawait, -⟩ := exists_of_stoppedOn (mem_matched ha).2
  have hrem : (w.handleAt a).bind w.timerRemoval = w.removalAt a := by
    rw [hc, Option.bind_some, World.timerRemoval, hawait, Option.bind_some]
  cases hr : w.removalAt a <;> simp [hr, hrem]

end

namespace DispatchLoops

/-- The history of the thread that serves `queue_`: the messages it has dequeued, and those its
deliveries have pushed. -/
structure DrainLog where
  dispatched : List Packet := []
  pushed : List Packet := []

def DrainLog.record (s : DispatchLoops) (act : LoopAction) (h : DrainLog) : DrainLog :=
  match act with
  | .thread .normal i _ =>
    if s.pc .normal = .inside then
      if s.world.disp .normal = .fetch then
        if s.world.stop then h
        else { h with dispatched := h.dispatched ++ ((s.world.busQueue .normal)[i]?).toList }
      else { h with pushed := h.pushed ++ (s.world.disp .normal).pushes }
    else h
  | _ => h

/-- One `co_task.resume()` on `queue_`, with no other thread moving, filters that return, and the
queue a FIFO. -/
def Alone (x : DispatchLoops × DrainLog) (act : LoopAction) : Prop :=
  act = .thread .normal 0 false ∧ (x.1.pc .normal = .resume ∨ x.1.pc .normal = .inside)

/-- The states of one resume. -/
def Resumes : DispatchLoops × DrainLog → DispatchLoops × DrainLog → Prop :=
  Run.Reach (Run.logged step DrainLog.record) Alone

variable {s : DispatchLoops} {x : DispatchLoops × DrainLog}

/-! ### One iteration -/

theorem busQueue_goes (hd : w.disp .normal ≠ .fetch)
    (hs : DataProxy.step w (.dispatch .normal 0) = some w') :
    w'.busQueue .normal = w.busQueue .normal ++ (w.disp .normal).pushes := by
  cases trans_of_step hs with
  | fetch hfetch => exact absurd hfetch hd
  | _ => simp_all [DispPc.pushes]

theorem step_goes (hp : x.1.pc .normal = .inside) (hd : x.1.world.disp .normal ≠ .fetch)
    (hs : DataProxy.step x.1.world (.dispatch .normal 0) = some w') :
    Run.logged step DrainLog.record x (.thread .normal 0 false) =
      some ({ x.1 with world := w' },
        { x.2 with pushed := x.2.pushed ++ (x.1.world.disp .normal).pushes }) := by
  have hdeliver : x.1.insideStep .normal 0 false = x.1.deliver .normal 0 := by
    unfold insideStep
    split
    · contradiction
    · rfl
    · rfl
  rw [Run.logged_eq_some]
  constructor
  · show x.1.threadStep .normal 0 false = _
    simp only [threadStep, hp, hdeliver, deliver, hs, Option.map_some]
  · simp [DrainLog.record, hp, hd]

/-- The statements of one iteration after `try_dequeue`. -/
theorem resumes_goes (hp : x.1.pc .normal = .inside)
    (h : Run.Reach DataProxy.step (Goes .normal) x.1.world w') :
    ∃ new, w'.busQueue .normal = x.1.world.busQueue .normal ++ new ∧
      Resumes x ({ x.1 with world := w' }, { x.2 with pushed := x.2.pushed ++ new }) := by
  induction h with
  | refl => exact ⟨[], by simp, by simpa using .refl⟩
  | @tail w₁ w₂ act _ hgo hs ih =>
    obtain ⟨rfl, hd⟩ := hgo
    obtain ⟨new, hq, hr⟩ := ih
    refine ⟨new ++ (w₁.disp .normal).pushes, ?_, ?_⟩
    · rw [busQueue_goes hd hs, hq, List.append_assoc]
    · rw [← List.append_assoc]
      exact hr.tail ⟨rfl, .inr hp⟩ (step_goes hp hd hs)

/-- `try_dequeue`. -/
theorem step_fetch (hw : Serving x.1.world) (hp : x.1.pc .normal = .inside)
    (hd : x.1.world.disp .normal = .fetch) (hq : x.1.world.busQueue .normal = p :: rest)
    (hs : DataProxy.step x.1.world (.dispatch .normal 0) = some w') :
    Run.logged step DrainLog.record x (.thread .normal 0 false) =
      some ({ x.1 with world := w' }, { x.2 with dispatched := x.2.dispatched ++ [p] }) := by
  rw [Run.logged_eq_some]
  constructor
  · show x.1.threadStep .normal 0 false = _
    simp only [threadStep, hp, insideStep, hd, hw.stop, hq, deliver, hs, Option.map_some]
    simp
  · simp [DrainLog.record, hp, hd, hw.stop, hq]

/-- One iteration: the first message is dispatched, and what its deliveries push is at the end of the
queue. -/
theorem resumes_iteration (hw : Serving x.1.world) (hp : x.1.pc .normal = .inside)
    (hd : x.1.world.disp .normal = .fetch) (hq : x.1.world.busQueue .normal = p :: rest) :
    ∃ w', Dispatches .normal p x.1.world w' ∧
      w'.busQueue .normal = rest ++ x.1.world.removals p.msg ∧
      Resumes x ({ x.1 with world := w' },
        { dispatched := x.2.dispatched ++ [p]
          pushed := x.2.pushed ++ x.1.world.removals p.msg }) := by
  have hi : (x.1.world.busQueue .normal)[0]? = some p := by simp [hq]
  obtain ⟨⟨w', hit, -⟩, hbare⟩ := hw.toListed.iterates hw.fault hw.stop hd hi
  have hbus : w'.bare.busQueue = _ := congrArg World.busQueue (hbare w' hit)
  have hend : w'.busQueue .normal = rest ++ x.1.world.removals p.msg := by
    have hpop : (x.1.world.tryDequeue .normal 0).busQueue .normal = rest := by
      simp [World.tryDequeue, hq]
    rw [← hpop]
    exact (congrFun hbus .normal).trans busQueue_normal_dispatched
  obtain ⟨-, w₁, hs, hgo, -⟩ := id hit
  have hfetch := step_fetch hw hp hd hq hs
  have hrest : w₁.busQueue .normal = rest := by
    cases trans_of_step hs with
    | fetch _ _ hi' => simp [hq]
    | _ => simp_all
  obtain ⟨new, hnew, hr⟩ := resumes_goes (x := ({ x.1 with world := w₁ }, _)) hp hgo
  obtain rfl : new = x.1.world.removals p.msg := by
    rw [hend, hrest] at hnew
    exact (List.append_cancel_left hnew).symm
  exact ⟨w', ⟨0, hi, hit⟩, hend, hr.head ⟨rfl, .inr hp⟩ hfetch⟩

/-! ### The whole resume -/

/-- What happens between two states of one resume: some coroutines, each once, are no longer stopped
with a timer, and the messages pushed for them are at the end of what is dispatched and of what is
left to dispatch. -/
structure Fed (x y : DispatchLoops × DrainLog) : Prop where
  stopped : ∀ c, y.1.world.TimedStop c → x.1.world.TimedStop c
  removal : y.1.world.timerRemoval = x.1.world.timerRemoval
  pushed : ∃ cs : List CoId, cs.Nodup ∧
    (∀ c ∈ cs, x.1.world.TimedStop c ∧ ¬y.1.world.TimedStop c) ∧
    y.2.pushed = x.2.pushed ++ cs.filterMap x.1.world.timerRemoval ∧
    y.2.dispatched ++ y.1.world.busQueue .normal =
      x.2.dispatched ++ x.1.world.busQueue .normal ++ cs.filterMap x.1.world.timerRemoval

theorem Fed.refl (x : DispatchLoops × DrainLog) : Fed x x :=
  ⟨fun _ h => h, rfl, [], List.nodup_nil, by simp, by simp, by simp⟩

theorem Fed.trans (x y z : DispatchLoops × DrainLog) (h : Fed x y) (h' : Fed y z) : Fed x z := by
  obtain ⟨cs, hnd, hcs, hpushed, hqueue⟩ := h.pushed
  obtain ⟨cs', hnd', hcs', hpushed', hqueue'⟩ := h'.pushed
  rw [h.removal] at hpushed' hqueue'
  refine ⟨fun c hc => h.stopped c (h'.stopped c hc), h'.removal.trans h.removal, cs ++ cs', ?_, ?_,
    ?_, ?_⟩
  · exact hnd.append hnd' fun c hc hc' => (hcs c hc).2 (hcs' c hc').1
  · intro c hc
    rcases List.mem_append.1 hc with hc | hc
    · exact ⟨(hcs c hc).1, fun hz => (hcs c hc).2 (h'.stopped c hz)⟩
    · exact ⟨h.stopped c (hcs' c hc).1, (hcs' c hc).2⟩
  · rw [hpushed', hpushed, List.filterMap_append, List.append_assoc]
  · rw [hqueue', hqueue, List.filterMap_append, List.append_assoc]

/-- The thread is at the top of the loop of `dispatch_message`. -/
structure AtTop (x : DispatchLoops × DrainLog) : Prop where
  serving : Serving x.1.world
  pc : x.1.pc .normal = .inside
  disp : x.1.world.disp .normal = .fetch

/-- What is left to do: the messages in the queue, and those that may still be pushed. -/
def work (x : DispatchLoops × DrainLog) : ℕ :=
  (x.1.world.busQueue .normal).length + x.1.world.timedAwaits.card

/-- **One iteration.** -/
theorem AtTop.iteration (hx : AtTop x) (hq : x.1.world.busQueue .normal = p :: rest) :
    ∃ y, Resumes x y ∧ AtTop y ∧ Fed x y ∧ work y < work x := by
  obtain ⟨w', hdis, hq', hr⟩ := resumes_iteration hx.serving hx.pc hx.disp hq
  refine ⟨_, hr, ⟨hx.serving.dispatches hdis, hx.pc, ?_⟩, ⟨?_, hx.serving.timerRemoval_eq hdis,
    x.1.world.timedResumed p.msg, ?_, ?_, ?_, ?_⟩, ?_⟩
  · show w'.disp .normal = .fetch
    rw [hx.serving.dispatches_disp hdis, hx.disp]
  · exact fun c hc => (hx.serving.timedStop_of_dispatches hdis hc).1
  · exact hx.serving.toListed.resumed_once.sublist timedResumed_sublist
  · intro c hc
    refine ⟨hx.serving.toListed.timedStop_of_mem_timedResumed hc, fun hc' => ?_⟩
    exact (hx.serving.timedStop_of_dispatches hdis hc').2 (timedResumed_sublist.subset hc)
  · rw [filterMap_timedResumed]
  · rw [filterMap_timedResumed, hq]
    simp [hq']
  · have hcard := hx.serving.timedAwaits_card hdis
    show (w'.busQueue .normal).length + w'.timedAwaits.card < _
    rw [work, hq', hq, List.length_append, List.length_cons]
    omega

/-- `co_await std::suspend_always()`. -/
theorem AtTop.suspends (hx : AtTop x) (hq : x.1.world.busQueue .normal = []) :
    Resumes x (x.1.goto .normal .suspended .loop, x.2) := by
  refine .tail .refl ⟨rfl, .inr hx.pc⟩ (Run.logged_eq_some.2 ⟨?_, ?_⟩)
  · show x.1.threadStep .normal 0 false = _
    simp [threadStep, hx.pc, insideStep, hx.disp, hx.serving.stop, hq]
  · simp [DrainLog.record, hx.pc, hx.disp, hx.serving.stop, hq]

/-- **Draining terminates although dispatch feeds its own queue.**  One resume comes to the
`co_await`, whatever state of it one looks at, with `queue_` empty.  It has dispatched the messages
that were in the queue, in their order, and then those that its deliveries pushed; and these are the
removals of the timers of some coroutines, each once, that were stopped at the start on a
`TempMessageAwait` with a timer. -/
theorem resume_drains (hw : Serving s.world) (hp : s.pc .normal = .resume)
    (hf : s.frame .normal = .suspended) (hd : s.world.disp .normal = .fetch) :
    ∃ x, Resumes (s, {}) x ∧ (∀ y, Resumes (s, {}) y → Resumes y x) ∧
      x.1.pc .normal = .loop ∧ x.1.frame .normal = .suspended ∧
      x.1.world.busQueue .normal = [] ∧
      x.2.dispatched = s.world.busQueue .normal ++ x.2.pushed ∧
      ∃ cs : List CoId, cs.Nodup ∧ (∀ c ∈ cs, s.world.TimedStop c) ∧
        x.2.pushed = cs.filterMap s.world.timerRemoval := by
  have hresume : Resumes (s, {}) (s.goto .normal .running .inside, {}) := by
    refine .tail .refl ⟨rfl, .inl hp⟩ (Run.logged_eq_some.2 ⟨?_, ?_⟩)
    · show s.threadStep .normal 0 false = _
      simp [threadStep, hp, hf]
    · simp [DrainLog.record, hp]
  have hstart : AtTop (s.goto .normal .running .inside, {}) := ⟨hw, goto_pc .., hd⟩
  obtain ⟨y, hy, hat, hfed, hempty⟩ : ∃ y, Resumes (s.goto .normal .running .inside, {}) y ∧ AtTop y ∧
      Fed (s.goto .normal .running .inside, {}) y ∧ y.1.world.busQueue .normal = [] := by
    refine Run.exists_reach_of_progress work Fed.refl Fed.trans (fun x hx => ?_) hstart
    cases hq : x.1.world.busQueue .normal with
    | nil => exact .inl rfl
    | cons p rest => exact .inr (hx.iteration hq)
  have hend : Resumes (s, {}) (y.1.goto .normal .suspended .loop, y.2) :=
    hresume.trans (hy.trans (hat.suspends hempty))
  obtain ⟨cs, hnd, hcs, hpushed, hqueue⟩ := hfed.pushed
  refine ⟨_, hend, fun z hz => ?_, goto_pc .., goto_frame .., hempty, ?_, cs, hnd,
    fun c hc => (hcs c hc).1, hpushed⟩
  · refine hz.extend (fun _ _ _ ha hb => ha.1.trans hb.1.symm) hend ?_
    rintro act ⟨-, hpc⟩
    simp at hpc
  · rw [hempty, List.append_nil] at hqueue
    rw [hqueue, hpushed]
    rfl

/-- A coroutine stops on a `TempMessageAwait` with a timer, and its message comes. -/
def timedMessage : List Action :=
  [.start 1, .body 1 (.createTemp 6 0 "n" 10 (fun _ => true) 0), .body 1 (.setTimeout 6), .run 1 0,
    .body 1 (.coAwait 6), .run 1 0, .run 1 0, .late 0, .push { name := "n" }]

theorem resume_drains_timedMessage : ∃ s : DispatchLoops,
    s.world.busQueue .normal = [{ msg := { name := "n" } }] ∧
    s.world.removals { name := "n" } = [{ msg := removeTimerMsg 2 }] ∧
    ∃ x, Resumes (s, {}) x ∧ (∀ y, Resumes (s, {}) y → Resumes y x) ∧
      x.1.pc .normal = .loop ∧ x.1.frame .normal = .suspended ∧
      x.1.world.busQueue .normal = [] ∧
      x.2.dispatched = s.world.busQueue .normal ++ x.2.pushed ∧
      ∃ cs : List CoId, cs.Nodup ∧ (∀ c ∈ cs, s.world.TimedStop c) ∧
        x.2.pushed = cs.filterMap s.world.timerRemoval := by
  have hrun : (Run.exec DataProxy.step World.init timedMessage).any (fun w => decide
      (w.fault = none ∧ w.stop = false ∧ w.disp .normal = .fetch ∧
        w.busQueue .normal = [{ msg := { name := "n" } }] ∧
        w.removals { name := "n" } = [{ msg := removeTimerMsg 2 }])) = true := by
    decide +kernel
  obtain ⟨w, hr, hf, hs, hd, hq, hrem⟩ := Run.exists_reach_of_exec hrun
  have hw : Serving w := { (wf_of_reachable hr).bus.listed with fault := hf, stop := hs }
  have hdrain := resume_drains (s := ⟨w, fun _ => .suspended, fun _ => .resume⟩) hw rfl rfl hd
  exact ⟨_, hq, hrem, hdrain⟩

end DispatchLoops

end DataProxy
