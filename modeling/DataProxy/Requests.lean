import DataProxy.Wake

/-!
# The executor and the priority that were asked for

An await is scheduled with its own `co_executor_` and `wait_co_priority_`.  They are the arguments of
the call that created it, except for a clone, which takes those of the await it is made from.  And a
coroutine suspended on one await is scheduled with the values of another when the delivery to that
other await wakes it.

The history of a run keeps, for each live await, the executor and the priority that were asked for.
-/

namespace DataProxy

open Function (update)

variable {w w' : World} {act : Action} {a : Addr} {A A' : Await} {c : CoId}

/-- The executor and the priority passed to the call that returned the await at an address. -/
abbrev Requests := Addr → Option (ℕ × UInt8)

/-- What a step adds to the history.  `create_time_await` passes its own executor and 10. -/
def recordRequest (_ : World) (act : Action) (req : Requests) : Requests :=
  match act with
  | .body _ (.createShared a executor _ priority _) => update req a (some (executor, priority))
  | .body _ (.createMessage a executor _ priority _) => update req a (some (executor, priority))
  | .body _ (.createTemp a executor _ priority _ _) => update req a (some (executor, priority))
  | .registerTime _ a _ => update req a (some (0, 10))
  | _ => req

/-- Before the first step there is the await of `co_handle_remove_timer`. -/
def Requests.init : Requests := update (fun _ => none) removerAwait (some (0, 10))

/-- A step that pushes a coroutine suspended on `X` pushes it to the executor and with the priority
that were asked for when `X` was created. -/
def SchedulesAsRequested (x : World × Requests) (w' : World) : Prop :=
  ∀ e X, w'.coQueue = x.1.coQueue ++ [e] → x.1.ctl e.handle = .suspended X →
    x.2 X = some (e.executor, e.priority)

/-- The condition on one step: a clone is asked for with the executor and the priority of the await
it is made from. -/
def clonesAsRequested (w : World) : Action → Bool
  | .body _ (.createShared _ executor name priority _) =>
    ((Multimap.equalRange (w.registry .shared) name).head?.bind w.awaits).all fun B =>
      decide (B.coExecutor = executor ∧ B.waitCoPriority = priority)
  | _ => true

/-- Every live await has the values that were asked for. -/
def Requested (x : World × Requests) : Prop :=
  ∀ a A, x.1.awaits a = some A → x.2 a = some (A.coExecutor, A.waitCoPriority)

theorem Requested.init : Requested (World.init, .init) := by
  intro a A ha
  obtain ⟨rfl, rfl⟩ := World.init_awaits ha
  simp [Requests.init, removerObject]

/-- What was asked for an await does not change while it lives. -/
theorem Trans.request_old (ht : Trans w act w') (req : Requests) (ha : w.awaits a = some A) :
    recordRequest w act req a = req a := by
  have other : ∀ {b : Addr} {v : Option (ℕ × UInt8)}, w.awaits b = none →
      update req b v a = req a := by
    intro b v hb
    refine Function.update_of_ne ?_ ..
    rintro rfl
    rw [ha] at hb
    cases hb
  cases ht with
  | createClone _ _ hb | createQueue _ _ hb | createMessage _ _ hb | createTemp _ _ hb
  | registerTime _ hb => exact other hb
  | _ => rfl

/-- A new await has the values asked for. -/
theorem Trans.request_new (ht : Trans w act w') (req : Requests)
    (hok : clonesAsRequested w act = true) (ha : w.awaits a = none)
    (ha' : w'.awaits a = some A') :
    recordRequest w act req a = some (A'.coExecutor, A'.waitCoPriority) := by
  cases ht.created ha ha' with
  | shared hact =>
    subst hact
    cases ht with
    | createClone _ _ _ _ hb hB =>
      simp only [Function.update_self, Option.some.injEq] at ha'
      subst ha'
      simp only [clonesAsRequested, hb, Option.bind_some, hB, Option.all_some,
        decide_eq_true_eq] at hok
      simp [recordRequest, newAwait, hok]
    | createQueue =>
      simp only [Function.update_self, Option.some.injEq] at ha'
      subst ha'
      exact Function.update_self ..
  | message hact | temp hact | time hact =>
    subst hact
    exact Function.update_self ..

/-- **One step** that meets the condition. -/
theorem Requested.step {req : Requests} (h : Requested (w, req)) (hw : Wf w)
    (ht : Trans w act w') (hok : clonesAsRequested w act = true) :
    Requested (w', recordRequest w act req) := by
  intro a A' ha'
  rcases (hw.awaitStep ht).backward ha' with ⟨A, ha, hk⟩ | ⟨ha, -⟩
  · simp only [ht.request_old req ha, hk.executor, hk.priority]
    exact h a A ha
  · exact ht.request_new req hok ha ha'

/-- A coroutine about to be pushed is suspended on the await that pushes it. -/
def PushesOwn (w : World) : Prop :=
  ∀ d k p first a rest c, w.disp d = .visit k p first a rest (.pushQueue c) →
    w.ctl c = .suspended a

theorem PushesOwn.step (h : PushesOwn w) (hs : ∀ c, SingleClaim w c) (ht : Trans w act w')
    (hown : WakesOwn w act) : PushesOwn w' := by
  intro d k p first a rest c hd'
  have stays : w.ctl c = .suspended a → c ∉ w.scheduled → w'.ctl c = .suspended a := by
    intro hc hm
    rcases ht.ctl_from c with he | hmove
    · rw [he, hc]
    · rw [hc] at hmove
      generalize w'.ctl c = y at hmove
      cases hmove with
      | resume hi he =>
        exact absurd (List.mem_map.2 ⟨_, List.mem_of_getElem? hi, he⟩) hm
  rcases ht.visit_from hd' (by simp) with hd | ⟨i, s, rfl, hd, hm⟩
  · refine stays (h d k p first a rest c hd) fun hm => ?_
    exact (hs c).queue_push hm d (by rw [hd]; rfl)
  · cases hm with
    | storeState =>
      rw [ht.dispatch_ctl]
      exact hown d i k p first a rest c rfl hd
    | enter _ _ hs => rcases hs with ⟨-, hs⟩ | ⟨-, hs⟩ | ⟨-, hs, -⟩ <;> cases hs
    | stateStop _ hs => rcases hs with ⟨-, hs⟩ | ⟨-, hs⟩ <;> cases hs
    | awaitThis _ hs => rcases hs with ⟨-, hs⟩ | ⟨-, hs⟩ | ⟨-, hs⟩ <;> cases hs

/-- The condition: each clone is asked for with the values of the await it is made from, and each
wake is one by the await the coroutine waits on. -/
def schedulesOwn (w : World) (act : Action) : Bool := clonesAsRequested w act && wakesSettled w act

theorem pushesOwn_of_reachable (h : Reachable (fun w act => wakesSettled w act = true) w) :
    PushesOwn w := by
  refine h.invariant (I := PushesOwn) ?_ fun s act s' hr ih hok hs => ?_
  · intro d k p first a rest c hd
    cases hd
  · exact ih.step (fun c => (settled_of_reachable hr c).1) (trans_of_step hs)
      (wakesOwn_step hr hok)

/-- Only `resume_coroutine` pushes. -/
theorem Trans.pushed (ht : Trans w act w') {e : CoEntry} (h : w'.coQueue = w.coQueue ++ [e]) :
    ∃ d k p first a rest A c, w.disp d = .visit k p first a rest (.pushQueue c) ∧
      w.awaits a = some A ∧ e = ⟨A.coExecutor, c, A.waitCoPriority⟩ := by
  have longer : w'.coQueue.length = w.coQueue.length + 1 := by rw [h, List.length_append]; rfl
  have same : w'.coQueue ≠ w.coQueue := by
    intro he
    rw [he] at longer
    exact absurd longer (Nat.succ_ne_self _).symm
  have taken : ∀ i, w'.coQueue ≠ w.coQueue.eraseIdx i := by
    intro i he
    have hle := List.length_eraseIdx_le w.coQueue i
    rw [he] at longer
    omega
  cases ht with
  | @pushQueue d i k p first a rest A c pc hd ha =>
    have he : [(⟨A.coExecutor, c, A.waitCoPriority⟩ : CoEntry)] = [e] := List.append_cancel_left h
    exact ⟨d, k, p, first, a, rest, A, c, hd, ha, (List.singleton_injective he).symm⟩
  | resume | resumeFault => exact absurd rfl (taken _)
  | _ => exact absurd rfl same

/-- **The requested priority and executor are the ones used**, along every run in which each clone is
asked for with the values of the await it is made from and each wake is one by the await the
coroutine waits on. -/
theorem schedulesAsRequested_of_schedulesOwn {x : World × Requests}
    (h : Run.Reach (Run.logged step recordRequest) (fun x act => schedulesOwn x.1 act = true)
      (World.init, .init) x) {act : Action} {w' : World} (hs : step x.1 act = some w') :
    SchedulesAsRequested x w' := by
  have split : ∀ {w : World} {act}, schedulesOwn w act = true →
      clonesAsRequested w act = true ∧ wakesSettled w act = true := by
    intro w act hok
    simpa [schedulesOwn] using hok
  have hreach : Reachable (fun w act => wakesSettled w act = true) x.1 :=
    h.fst fun _ _ hok => (split hok).2
  have hreq : Requested x := by
    refine h.invariant (I := Requested) Requested.init fun y act z hr ih hok hlog => ?_
    obtain ⟨hstep, hz⟩ := Run.logged_eq_some.1 hlog
    have hy : Reachable Run.Any y.1 := hr.fst fun _ _ _ => trivial
    have hnext := Requested.step ih (wf_of_reachable hy) (trans_of_step hstep) (split hok).1
    rwa [← hz] at hnext
  intro e X he hX
  obtain ⟨d, k, p, first, a, rest, A, c, hd, ha, rfl⟩ := (trans_of_step hs).pushed he
  obtain rfl : a = X := by
    have hc := pushesOwn_of_reachable hreach d k p first a rest c hd
    rw [hc] at hX
    exact Ctl.suspended.inj hX
  exact hreq a A ha

/-- A second `SharedMessageAwait` of the name is asked for with another executor and priority; its
coroutine waits and is about to be pushed. -/
def cloneWaits (executor : ℕ) (priority : UInt8) : List Action :=
  [Action.start 1, .body 1 (.createShared 5 0 "n" 0 0), .start 2,
    .body 2 (.createShared 6 executor "n" priority 1), .body 2 (.coAwait 6), .run 2 0, .run 2 0,
    .late 0, .push { name := "n" }] ++
  List.replicate 8 (Action.dispatch .normal 0)

/-- The clone is scheduled with the executor and the priority of the first await. -/
theorem scheduled_as_first : ∃ (x : World × Requests) (act : Action) (w' : World),
    Run.Reach (Run.logged step recordRequest) Run.Any (World.init, .init) x ∧
      step x.1 act = some w' ∧ ¬SchedulesAsRequested x w' := by
  have hrun : (Run.exec (Run.logged step recordRequest) (World.init, .init)
      (cloneWaits 1 9)).any (fun x => decide (x.2 6 = some (1, 9) ∧ x.1.ctl 2 = .suspended 6 ∧
        (step x.1 (.dispatch .normal 0)).any fun w' =>
          decide (w'.coQueue = x.1.coQueue ++ [⟨0, 2, 0⟩]))) = true := by
    decide +kernel
  obtain ⟨x, hx, hreq, hc, hpush⟩ := Run.exists_reach_of_exec hrun
  obtain ⟨w', hs, hq⟩ := (Option.any_eq_true ..).1 hpush
  refine ⟨x, _, w', hx, hs, fun h => ?_⟩
  have hused := h ⟨0, 2, 0⟩ 6 (of_decide_eq_true hq) hc
  rw [hreq] at hused
  exact absurd hused (by decide)

theorem schedulesAsRequested_clone : ∃ (x : World × Requests) (w' : World),
    w'.coQueue = x.1.coQueue ++ [⟨0, 2, 0⟩] ∧ SchedulesAsRequested x w' := by
  have hrun : (Run.exec (Run.guarded (Run.logged step recordRequest)
      fun x act => schedulesOwn x.1 act = true) (World.init, .init) (cloneWaits 0 0)).any
      (fun x => decide ((step x.1 (.dispatch .normal 0)).any (fun w' =>
        decide (w'.coQueue = x.1.coQueue ++ [⟨0, 2, 0⟩])) = true)) = true := by
    decide +kernel
  obtain ⟨x, hx, hpush⟩ := Run.exists_reach_of_exec_guarded hrun
  obtain ⟨w', hs, hq⟩ := (Option.any_eq_true ..).1 hpush
  exact ⟨x, w', of_decide_eq_true hq, schedulesAsRequested_of_schedulesOwn hx hs⟩

end DataProxy
