import DataProxy.Registry

/-!
# The handle that `await_resume` writes through

`handle_` is stored by `await_suspend` only, but `await_resume` also runs when `await_ready` was true
and nothing was ever suspended.  A `TempMessageAwait` is never ready; a `MessageAwait` whose
`handle_` is null takes no message, so that its queue is empty; but the queue of a
`SharedMessageAwait` is filled without a look at `handle_`, by a message that came before the first
`co_await` or through another await of the name.
-/

namespace DataProxy

open Function (update)

variable {w w' : World} {act : Action} {a : Addr} {A A' : Await} {c : CoId}

/-- The coroutine has stored its handle in the await it is at. -/
def Ctl.past : Ctl → Option Addr
  | .suspending a .state | .suspended a | .resuming a _ => some a
  | .fresh | .body | .suspending _ .flag | .suspending _ .handle | .creatingTime _ _ | .arming _ _
  | .destroying _ | .removing _ | .done => none

/-- Wherever a coroutine is in `await_resume`, or was resumed into it from inside `await_suspend`,
`handle_` is its handle, and no handle was null. -/
def HandlesSet (w : World) : Prop :=
  (∀ c a s A, w.ctl c = .resuming a s → w.awaits a = some A → A.handle = some c) ∧
    (∀ c a s A, w.fault = some (.resumed c) → w.ctl c = .suspending a s → w.awaits a = some A →
      A.handle = some c) ∧
    ∀ a, w.fault ≠ some (.nullHandle a)

/-- The invariant behind it. -/
structure Handled (w : World) : Prop where
  past : ∀ c a A, (w.ctl c).past = some a → w.awaits a = some A → A.handle = some c
  empty : ∀ a A, w.awaits a = some A → A.type = .normal → A.handle = none → A.queue = []
  outside : ∀ c a s, w.fault = some (.resumed c) → w.ctl c ≠ .suspending a s
  fault : ∀ a, w.fault ≠ some (.nullHandle a)

/-- The condition on one step: a `co_await` on a `SharedMessageAwait` whose `handle_` is null finds
the shared queue empty. -/
def readyHandled (w : World) : Action → Bool
  | .body _ (.coAwait a) => (w.awaits a).all fun A =>
    decide (A.type ≠ .shared) || decide (A.handle ≠ none) ||
      decide (w.sharedQueues A.sharedQueue = [])
  | _ => true

theorem readyHandled_coAwait : readyHandled w (.body c (.coAwait a)) = true ↔
    ∀ A, w.awaits a = some A → A.type = .shared → A.handle = none →
      w.sharedQueues A.sharedQueue = [] := by
  simp only [readyHandled, Option.all_eq_true, Bool.or_eq_true, decide_eq_true_eq, ne_eq]
  refine forall₂_congr fun A _ => ?_
  tauto

theorem Handled.handlesSet (h : Handled w) : HandlesSet w :=
  ⟨fun c a s A hc ha => h.past c a A (by rw [hc]; rfl) ha,
    fun c a s A hf hc => absurd hc (h.outside c a s hf), h.fault⟩

theorem Ctl.at_of_past {x : Ctl} (h : x.past = some a) : x.at = some a := by
  unfold Ctl.past at h
  split at h <;> first | exact h | cases h

/-- A handle that is set is that of the owner. -/
theorem Wf.handle_eq (hw : Wf w) (ha : w.awaits a = some A) (ho : A.owner = c)
    (hne : A.handle ≠ none) : A.handle = some c := by
  obtain ⟨co, hco⟩ := Option.ne_none_iff_exists'.1 hne
  rw [hco, hw.handle_owner a A co ha hco, ho]

/-- When `await_ready` has returned false, the handle is not stored yet. -/
theorem Trans.past_of_notReady {s : SuspendPc} (ht : Trans w (.body c (.coAwait a)) w')
    (hy : w'.ctl c = .suspending a s) : (Ctl.suspending a s).past = none := by
  cases ht with
  | readyNormal | readyShared => simp at hy
  | notReady =>
    simp only [Function.update_self, Ctl.suspending.injEq, true_and] at hy
    subst hy
    split <;> rfl

/-- The store of `handle_`. -/
theorem Trans.stored_handle (ht : Trans w act w') (hx : w.ctl c = .suspending a .handle)
    (hy : w'.ctl c = .suspending a .state) (ha' : w'.awaits a = some A') :
    A'.handle = some c := by
  have same : w'.ctl c ≠ w.ctl c := by rw [hx, hy]; simp
  have other : ∀ {c₁ : CoId} {x y : Ctl}, w.ctl c₁ = x → w'.ctl = update w.ctl c₁ y →
      x = .suspending a .handle := by
    intro c₁ x y hc₁ he
    by_cases hcc : c = c₁
    · rw [← hc₁, ← hcc, hx]
    · exact absurd (by rw [he, Function.update_of_ne hcc]) same
  cases ht with
  | @suspendHandle c₁ b A junk hc₁ ha =>
    cases other hc₁ rfl
    obtain rfl : c = c₁ := by
      by_contra hcc
      exact same (Function.update_of_ne hcc ..)
    simp only [Function.update_self, Option.some.injEq] at ha'
    rw [← ha']
  | start hc | createTime hc | registerTime hc | setTimeout hc | arm hc | destroy hc
  | destroyPush hc | finish hc | readyNormal hc | readyShared hc | notReady hc | suspendFlag hc
  | suspendState hc | resume _ _ hc | loadSuspend hc | dequeue hc | clearSuspend hc
  | storeRuning hc | ret hc | cancel hc | cancelMiss hc => cases other hc rfl
  | _ => exact absurd rfl same

namespace Handled

theorem init : Handled World.init where
  past c a A hc ha := by
    obtain ⟨rfl, rfl⟩ := World.init_awaits ha
    rcases World.init_ctl c with h | ⟨rfl, -⟩
    · rw [h] at hc
      cases hc
    · rfl
  empty a A ha _ hh := by
    obtain ⟨rfl, rfl⟩ := World.init_awaits ha
    cases hh
  outside c a s h := by cases h
  fault a h := by cases h

theorem past_step (h : Handled w) (hw : Wf w) (ht : Trans w act w') (hok : readyHandled w act = true)
    (hc : (w'.ctl c).past = some a) (ha' : w'.awaits a = some A') : A'.handle = some c := by
  obtain ⟨A, ha, ho⟩ : ∃ A, w.awaits a = some A ∧ A.owner = c := by
    rcases ht.ctl_at (Ctl.at_of_past hc) with hat | hat
    · exact hw.at_await c a hat
    · exact hat
  have kept : A.handle = some c → A'.handle = some c := by
    intro hh
    rcases (hw.keeps ht ha ha').handle with he | he
    · rw [he, hh]
    · rw [he, ho]
  rcases ht.ctl_from c with he | hm
  · exact kept (h.past c a A (he ▸ hc) ha)
  generalize hx : w.ctl c = x, hy : w'.ctl c = y at hm
  rw [hy] at hc
  cases hm with
  | @ready b B hact =>
    obtain rfl := Option.some.inj hc
    subst hact
    refine kept (hw.handle_eq ha ho fun hno => ?_)
    cases ht with
    | readyNormal _ _ hb _ hty hq =>
      obtain rfl := Option.some.inj (ha.symm.trans hb)
      simp [h.empty b A ha hty hno] at hq
    | readyShared => simp at hy
    | notReady => simp at hy
  | @readyShared b B hact =>
    obtain rfl := Option.some.inj hc
    subst hact
    refine kept (hw.handle_eq ha ho fun hno => ?_)
    cases ht with
    | readyNormal => simp at hy
    | readyShared _ _ hb _ hty hq =>
      obtain rfl := Option.some.inj (ha.symm.trans hb)
      simp [readyHandled_coAwait.1 hok A ha hty hno] at hq
    | notReady => simp at hy
  | @notReady b B s hact =>
    subst hact
    cases (ht.past_of_notReady hy).symm.trans hc
  | suspendHandle =>
    obtain rfl := Option.some.inj hc
    exact ht.stored_handle hx hy ha'
  | suspendState | resume | loadSuspend | dequeue | clearSuspend | storeRuning =>
    exact kept (h.past c a A (by rw [hx]; exact hc) ha)
  | _ => cases hc

/-- A `MessageAwait` with a null handle gets no message. -/
theorem empty_step (h : Handled w) (hw : Wf w) (ht : Trans w act w') (ha' : w'.awaits a = some A')
    (hty : A'.type = .normal) (hno : A'.handle = none) : A'.queue = [] := by
  rcases (hw.awaitStep ht).backward ha' with ⟨A, ha, hk⟩ | ⟨-, hf, -⟩
  · have hno₀ : A.handle = none := by
      rcases hk.handle with he | he
      · rw [← he, hno]
      · rw [hno] at he
        cases he
    have hq := h.empty a A ha (hk.type ▸ hty) hno₀
    cases ht.edit ha ha' with
    | ready _ _ _ _ hq' | dequeue _ hq' => simp [hq] at hq'
    | enqueue _ hd =>
      obtain ⟨B, hB, hh⟩ := hw.visit_handle _ _ _ _ _ _ _ _ hd rfl
      obtain rfl := Option.some.inj (ha.symm.trans hB)
      rw [hno₀] at hh
      cases hh
    | _ => exact hq
  · exact hf.queue

/-- **One step** that meets the condition. -/
theorem step (h : Handled w) (hw : Wf w) (hf : w.fault = none) (ht : Trans w act w')
    (hin : resumesSuspended w act = true) (hok : readyHandled w act = true) : Handled w' where
  past _ _ _ := h.past_step hw ht hok
  empty _ _ := h.empty_step hw ht
  outside c a s hf' := by
    cases ht with
    | resumeFault hi =>
      obtain rfl : _ = c := by simpa using hf'
      intro hc
      have hc : w.ctl _ = .suspending a s := hc
      simp [resumesSuspended, hi, hc] at hin
    | nullFault => cases hf'
    | _ =>
      rw [hf] at hf'
      cases hf'
  fault a hf := by
    cases ht with
    | nullFault hc ha hno =>
      rw [h.past _ _ _ (by rw [hc]; rfl) ha] at hno
      cases hno
    | resumeFault => cases hf
    | _ => exact h.fault a hf

end Handled

/-- A step that does not meet the condition comes to `await_resume` with a null handle. -/
theorem not_handlesSet_of_step (hok : readyHandled w act ≠ true) (ht : Trans w act w') :
    ¬HandlesSet w' := by
  cases act with
  | body c op =>
    cases op with
    | coAwait a =>
      rw [ne_eq, readyHandled_coAwait] at hok
      simp only [not_forall] at hok
      obtain ⟨A, ha, hty, hno, hq⟩ := hok
      intro h
      cases ht with
      | readyNormal _ _ hb _ hty' =>
        obtain rfl := Option.some.inj (ha.symm.trans hb)
        rw [hty] at hty'
        cases hty'
      | readyShared _ _ hb =>
        obtain rfl := Option.some.inj (ha.symm.trans hb)
        have hset := h.1 c a .state _ (Function.update_self ..) (Function.update_self ..)
        simp only at hset
        rw [hno] at hset
        cases hset
      | notReady _ _ hb _ _ hs =>
        obtain rfl := Option.some.inj (ha.symm.trans hb)
        exact hq (hs hty)
    | _ => exact absurd rfl hok
  | _ => exact absurd rfl hok

/-- **`await_resume` always has a coroutine to write to**: of the runs in which no worker takes a
coroutine that is still inside `await_suspend`, in exactly those in which no `co_await` on a
`SharedMessageAwait` that was never suspended on finds a message. -/
theorem handlesSet_iff {acts : List Action}
    (h : Run.EachStep step (fun w act => resumesSuspended w act = true) World.init acts) :
    Run.Always step HandlesSet World.init acts ↔
      Run.EachStep step (fun w act => readyHandled w act = true) World.init acts := by
  refine Run.always_iff_eachStep_of (I := fun w => Wf w ∧ Handled w) (fun _ hI => hI.2.handlesSet)
    ?_ ?_ ⟨Wf.init, Handled.init⟩ h
  · intro w act w' hI hin hok hs
    have ht := trans_of_step hs
    exact ⟨hI.1.step ht, hI.2.step hI.1 (fault_of_step hs) ht hin hok⟩
  · intro w act w' _ _ hok hs
    exact not_handlesSet_of_step hok (trans_of_step hs)

/-- The coroutine suspends on a `SharedMessageAwait` before the message comes. -/
def suspendsFirst : List Action :=
  [Action.start 1, .body 1 (.createShared 5 0 "n" 0 0), .body 1 (.coAwait 5), .run 1 0, .run 1 0,
    .late 0, .push { name := "n" }] ++
  List.replicate 8 (Action.dispatch .normal 0) ++ [Action.worker 0, .run 1 0, .run 1 0]

theorem handlesSet_iff_suspendsFirst :
    (Run.exec step World.init suspendsFirst).isSome = true ∧
      Run.Always step HandlesSet World.init suspendsFirst := by
  have hin : Run.EachStep step (fun w act => resumesSuspended w act = true) World.init
      suspendsFirst := Run.eachStep_of_exec_guarded (by decide +kernel)
  have hready : Run.EachStep step (fun w act => readyHandled w act = true) World.init
      suspendsFirst := Run.eachStep_of_exec_guarded (by decide +kernel)
  exact ⟨by decide +kernel, (handlesSet_iff hin).2 hready⟩

/-- A message comes before the first `co_await` on a `SharedMessageAwait`. -/
def firstMessageWaits : List Action :=
  [Action.start 1, .body 1 (.createShared 5 0 "n" 0 0), .push { name := "n" }] ++
  List.replicate 4 (Action.dispatch .normal 0) ++ [Action.body 1 (.coAwait 5), .run 1 0]

/-- `await_resume` takes `promise()` of a null handle. -/
theorem null_handle : ∃ w, Reachable Run.Any w ∧ w.fault = some (.nullHandle 5) ∧ ¬HandlesSet w := by
  have hrun : (Run.exec DataProxy.step World.init firstMessageWaits).any
      (fun w => decide (w.fault = some (.nullHandle 5))) = true := by
    decide +kernel
  obtain ⟨w, hw, hf⟩ := Run.exists_reach_of_exec hrun
  exact ⟨w, hw, hf, fun h => h.2.2 5 hf⟩

end DataProxy
