import DataProxy.Schedule
import DataProxy.Registry

/-!
# Which await wakes a coroutine

`await_suspend` stores `promise.state_` first and `promise.await` second, and a delivery reads the
two cells one after the other.  Between the two stores the pair names the previous await of the
coroutine, so that a delivery to that one takes the coroutine for stopped on it; and when the
coroutine is resumed before the second store, the store lands on whatever it waits for by then.

`Settled w c` is what holds when no wake falls between the two stores: a pending store belongs to
the present suspension, and once it is done `promise.await` is the await the coroutine waits on.
-/

namespace DataProxy

open Function (update)

variable {w w' : World} {act : Action} {c : CoId}

/-- The two cells of the promise tell where the coroutine is suspended. -/
structure Settled (w : World) (c : CoId) : Prop where
  late_ctl : ∀ a, (c, a) ∈ w.late →
    w.ctl c = .suspended a ∧ (w.promise c).state = .stopState
  await_eq : ∀ a, w.ctl c = .suspended a → (c, a) ∉ w.late → (w.promise c).await = some a

namespace Settled

theorem frame (h : Settled w c) (hl : ∀ a, (c, a) ∈ w'.late ↔ (c, a) ∈ w.late)
    (hc : ∀ a, w'.ctl c = .suspended a ↔ w.ctl c = .suspended a)
    (hp : w'.promise c = w.promise c) : Settled w' c where
  late_ctl a ha := by
    rw [hc, hp]
    exact h.late_ctl a ((hl a).1 ha)
  await_eq a ha hn := by
    rw [hp]
    exact h.await_eq a ((hc a).1 ha) fun hm => hn ((hl a).2 hm)

theorem not_late (h : Settled w c) (hc : ∀ a, w.ctl c ≠ .suspended a) (a : Addr) :
    (c, a) ∉ w.late :=
  fun hm => hc a (h.late_ctl a hm).1

/-- A coroutine that is neither suspended nor waiting for a store. -/
theorem of_not_suspended (hl : ∀ a, (c, a) ∉ w'.late) (hc : ∀ a, w'.ctl c ≠ .suspended a) :
    Settled w' c where
  late_ctl a ha := absurd ha (hl a)
  await_eq a ha := absurd ha (hc a)

end Settled

/-- Moving a coroutine between two places where it is not suspended. -/
theorem update_suspended_iff {f : CoId → Ctl} {c₁ : CoId} {x y : Ctl} {a : Addr} (h : f c₁ = x)
    (hx : ∀ b, x ≠ .suspended b) (hy : ∀ b, y ≠ .suspended b) :
    update f c₁ y c = .suspended a ↔ f c = .suspended a := by
  refine ⟨fun hc => ?_, update_suspended h hx⟩
  by_cases hcc : c = c₁
  · subst hcc
    rw [Function.update_self] at hc
    exact absurd hc (hy a)
  · rwa [Function.update_of_ne hcc] at hc

/-- No store of `promise.await` is pending for `c`, if the step marks `c` with `QueueResume`. -/
def StoresWhenSettled (w : World) (act : Action) (c : CoId) : Prop :=
  ∀ d i k p first a rest, act = .dispatch d i →
    w.disp d = .visit k p first a rest (.storeState c) → ∀ b, (c, b) ∉ w.late

/-- **One step.** -/
theorem Settled.step (h : Settled w c) (hw : Wf w) (hs : SingleClaim w c) (ht : Trans w act w')
    (hok : StoresWhenSettled w act c) : Settled w' c := by
  cases ht with
  | start hc | createTime hc | registerTime hc | setTimeout hc | arm hc | destroyPush hc
  | finish hc | readyNormal hc | readyShared hc | notReady hc | suspendFlag hc | suspendHandle hc
  | loadSuspend hc | dequeue hc | clearSuspend hc | cancel hc | cancelMiss hc =>
    exact h.frame (fun _ => Iff.rfl) (fun _ => update_suspended_iff hc (by simp) (by simp)) rfl
  | destroy hc | ret hc =>
    refine h.frame (fun _ => Iff.rfl) (fun _ => update_suspended_iff hc (by simp) fun b => ?_) rfl
    split <;> simp
  | @suspendState c₁ a A junk hc ha =>
    by_cases hcc : c = c₁
    · subst hcc
      have hno := h.not_late (fun b => by simp [hc])
      refine ⟨fun b hb => ?_, fun b hb hn => ?_⟩
      · rcases List.mem_cons.1 hb with he | hb
        · cases he
          simp
        · exact absurd hb (hno b)
      · simp only [Function.update_self, Ctl.suspended.injEq] at hb
        subst hb
        exact absurd List.mem_cons_self hn
    · refine h.frame (fun b => ?_) (fun b => ?_) ?_
      · simp [hcc]
      · simp only [Function.update_of_ne hcc]
      · simp only [Function.update_of_ne hcc]
  | @lateStore i c₁ a hi =>
    have hin : (c₁, a) ∈ w.late := List.mem_of_getElem? hi
    by_cases hcc : c = c₁
    · subst hcc
      refine ⟨fun b hb => ?_, fun b hb _ => ?_⟩
      · simpa using h.late_ctl b (List.mem_of_mem_eraseIdx hb)
      · have hb' := (h.late_ctl a hin).1.symm.trans hb
        simp only [Ctl.suspended.injEq] at hb'
        simp [hb']
    · refine h.frame (fun b => ?_) (fun _ => Iff.rfl) ?_
      · rw [Bag.mem_take_iff hi]
        simp [hcc]
      · simp only [Function.update_of_ne hcc]
  | @resume i e a A hi htop hc ha =>
    by_cases hcc : c = e.handle
    · subst hcc
      have hin : e.handle ∈ w.scheduled :=
        List.mem_map.2 ⟨e, List.mem_of_getElem? hi, rfl⟩
      refine .of_not_suspended (fun b hb => ?_) (by simp)
      exact hs.stop_queue (h.late_ctl b hb).2 hin
    · exact h.frame (fun _ => Iff.rfl) (fun _ => by simp only [Function.update_of_ne hcc]) rfl
  | @storeRuning c₁ a A co junk hc ha hh =>
    -- the handle written through is the coroutine that runs `await_resume`
    obtain ⟨A', ha', ho⟩ := hw.at_await c₁ a (by rw [hc]; rfl)
    obtain rfl : A = A' := Option.some.inj (ha.symm.trans ha')
    obtain rfl : co = c₁ := (hw.handle_owner a A co ha hh).trans ho
    by_cases hcc : c = co
    · subst hcc
      exact .of_not_suspended (h.not_late fun b => by simp [hc]) (by simp)
    · refine h.frame (fun _ => Iff.rfl) (fun _ => ?_) ?_
      · simp only [Function.update_of_ne hcc]
      · simp only [Function.update_of_ne hcc]
  | @storeState d i k p first a rest A co hd ha =>
    by_cases hcc : c = co
    · subst hcc
      have hno := hok d i k p first a rest rfl hd
      refine ⟨fun b hb => absurd hb (hno b), fun b hb _ => ?_⟩
      simpa using h.await_eq b hb (hno b)
    · exact h.frame (fun _ => Iff.rfl) (fun _ => Iff.rfl)
        (by simp only [Function.update_of_ne hcc])
  | _ => exact h.frame (fun _ => Iff.rfl) (fun _ => Iff.rfl) rfl

theorem Settled.init (c : CoId) : Settled World.init c := by
  by_cases hc : c = remover
  · subst hc
    constructor <;> simp [World.init]
  · constructor <;> simp [World.init, hc]

/-- The condition on one step: when a delivery to `a` stores `QueueResume`, what it checked still
holds (`StopState`, and `promise.await == a`), and no `await_suspend` of the coroutine is between
its two stores. -/
def wakesSettled (w : World) : Action → Bool
  | .dispatch d _ =>
    match w.disp d with
    | .visit _ _ _ a _ (.storeState h) =>
      decide (w.promise h = ⟨.stopState, some a⟩) && w.late.all fun e => decide (e.1 ≠ h)
    | _ => true
  | _ => true

theorem wakesSettled_storeState {d : Dispatcher} {i : ℕ} {k : AwaitType} {p : Packet}
    {first a : Addr} {rest : List Addr} (h : wakesSettled w (.dispatch d i) = true)
    (hd : w.disp d = .visit k p first a rest (.storeState c)) :
    w.promise c = ⟨.stopState, some a⟩ ∧ ∀ b, (c, b) ∉ w.late := by
  simp only [wakesSettled, hd, Bool.and_eq_true, decide_eq_true_eq, List.all_eq_true] at h
  exact ⟨h.1, fun b hb => h.2 _ hb rfl⟩

theorem wakesStopped_of_wakesSettled (h : wakesSettled w act = true) :
    wakesStopped w act = true := by
  unfold wakesStopped
  split
  · rename_i d i
    split
    · rename_i k p first a rest co hd
      rw [(wakesSettled_storeState h hd).1]
      rfl
    · rfl
  · rfl

/-- Along a run that keeps the condition both invariants hold of every coroutine. -/
theorem settled_of_reachable (h : Reachable (fun w act => wakesSettled w act = true) w)
    (c : CoId) : SingleClaim w c ∧ Settled w c := by
  refine h.invariant (I := fun w => SingleClaim w c ∧ Settled w c)
    ⟨SingleClaim.init c, Settled.init c⟩ ?_
  rintro s a s' hr ⟨hs, hst⟩ hok hstep
  have ht := trans_of_step hstep
  refine ⟨hs.step ht (storesOnStopped_of_wakesStopped (wakesStopped_of_wakesSettled hok) c), ?_⟩
  refine hst.step (wf_of_reachable hr) hs ht ?_
  rintro d i k p first b rest rfl hd
  exact (wakesSettled_storeState hok hd).2

/-- The step is not a call of `resume_coroutine`, or the coroutine's pending `co_await` is on the
await whose delivery makes the call. -/
def WakesOwn (w : World) (act : Action) : Prop :=
  ∀ d i k p first a rest c, act = .dispatch d i →
    w.disp d = .visit k p first a rest (.storeState c) → w.ctl c = .suspended a

/-- A wake that finds the cells settled is one by the await the coroutine waits on. -/
theorem wakesOwn_step (h : Reachable (fun w act => wakesSettled w act = true) w)
    (hok : wakesSettled w act = true) : WakesOwn w act := by
  rintro d i k p first a rest c rfl hd
  obtain ⟨hp, hno⟩ := wakesSettled_storeState hok hd
  obtain ⟨hs, hst⟩ := settled_of_reachable h c
  obtain ⟨b, hb⟩ := hs.stop_ctl (by rw [hp])
  have hab := hst.await_eq b hb (hno b)
  rw [hp] at hab
  rw [hb, Option.some.inj hab]

/-- A coroutine suspended on `a`, whose `await_suspend` has returned, has `promise.await == a`. -/
def AwaitStored (w : World) : Prop :=
  ∀ c a, w.ctl c = .suspended a → (c, a) ∉ w.late → (w.promise c).await = some a

/-- **A coroutine is woken only by the await it is waiting on**, along every run in which each wake
finds the checked cells unchanged and no `await_suspend` of the coroutine half done. -/
theorem wakesOwn_of_wakesSettled (h : Reachable (fun w act => wakesSettled w act = true) w) :
    AwaitStored w ∧ ∀ act w', wakesSettled w act = true → step w act = some w' →
      WakesOwn w act :=
  ⟨fun c a => (settled_of_reachable h c).2.await_eq a, fun _ _ hok _ => wakesOwn_step h hok⟩

/-- A coroutine waits for `"m"`, is woken, and waits for `"t"`; the last store of that second
`await_suspend` is still to come. -/
def halfSuspended : List Action :=
  [Action.start 1, .body 1 (.createMessage 5 0 "m" 0 0),
    .body 1 (.createTemp 6 0 "t" 0 (fun _ => true) 0),
    .body 1 (.coAwait 5), .run 1 0, .run 1 0, .run 1 0, .late 0, .push { name := "m" }] ++
  List.replicate 9 (Action.dispatch .normal 0) ++
  [Action.worker 0, .run 1 0, .run 1 0, .run 1 0, .run 1 0, .run 1 0, .dispatch .normal 0,
    .body 1 (.coAwait 6), .run 1 0, .run 1 0]

/-- A second `"m"` arrives and is delivered up to the call of `resume_coroutine`. -/
def staleAwait : List Action :=
  halfSuspended ++ [Action.push { name := "m" }] ++ List.replicate 7 (Action.dispatch .normal 0)

/-- Without the condition the delivery of `"m"` wakes a coroutine that waits for `"t"`. -/
theorem wakes_foreign :
    ∃ w act w', Reachable Run.Any w ∧ step w act = some w' ∧ ¬WakesOwn w act := by
  have hrun : (Run.exec step World.init staleAwait).any (fun w => decide
      (w.disp .normal = .visit .normal ⟨{ name := "m" }, none⟩ 5 5 [] (.storeState 1) ∧
        w.ctl 1 = .suspended 6 ∧ (step w (.dispatch .normal 0)).isSome)) = true := by
    decide +kernel
  obtain ⟨w, hw, hd, hc, hs⟩ := Run.exists_reach_of_exec hrun
  obtain ⟨w', hw'⟩ := Option.isSome_iff_exists.1 hs
  refine ⟨w, _, w', hw, hw', fun h => ?_⟩
  have := h .normal 0 _ _ _ _ _ 1 rfl hd
  rw [hc] at this
  cases this

theorem wakesOwn_firstWait :
    ∃ w w', Reachable (fun w act => wakesSettled w act = true) w ∧
      step w (.dispatch .normal 0) = some w' ∧ w.ctl 1 = .suspended 5 ∧ AwaitStored w ∧
      WakesOwn w (.dispatch .normal 0) := by
  have hrun : (Run.exec (Run.guarded step fun w act => wakesSettled w act = true) World.init
      (halfSuspended.take 16)).any (fun w => decide
      (w.disp .normal = .visit .normal ⟨{ name := "m" }, none⟩ 5 5 [] (.storeState 1) ∧
        w.ctl 1 = .suspended 5 ∧ wakesSettled w (.dispatch .normal 0) = true ∧
        (step w (.dispatch .normal 0)).isSome)) = true := by
    decide +kernel
  obtain ⟨w, hw, -, hc, hok, hs⟩ := Run.exists_reach_of_exec_guarded hrun
  obtain ⟨w', hw'⟩ := Option.isSome_iff_exists.1 hs
  obtain ⟨hst, hown⟩ := wakesOwn_of_wakesSettled hw
  exact ⟨w, w', hw, hw', hc, hst, hown _ _ hok hw'⟩

end DataProxy
