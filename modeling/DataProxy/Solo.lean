import DataProxy.Schedule
import DataProxy.Registry

/-!
# A coroutine served by one dispatcher

A delivery checks `StopState` and stores `QueueResume` in two steps.  When only the normal
dispatcher ever refers to a coroutine, nothing comes between the two: a stopped coroutine is not in
the executor's queue, so nobody can run it until this dispatcher has marked it.  Then the coroutine
keeps its single claim in every run, and no worker resumes it while it runs.
-/

namespace DataProxy

open Function (update)

variable {w w' : World} {act : Action} {c : CoId} {d : Dispatcher} {i : ℕ} {k : AwaitType}
  {p : Packet} {first a : Addr} {rest : List Addr}

/-- The coroutine whose `StopState` the delivery has seen and not yet replaced. -/
def VisitPc.checked (k : AwaitType) : VisitPc → Option CoId
  | .writeData h | .storeState h => some h
  | .loadAwait h => if k = .shared then none else some h
  | .enter | .enqueue _ | .loadState _ | .pushQueue _ | .loadTimer | .pushRemove _ => none

/-- The coroutine whose `StopState` the dispatcher has seen and not yet replaced. -/
def DispPc.checked : DispPc → Option CoId
  | .visit k _ _ _ _ s => s.checked k
  | .fetch | .lock _ _ | .sharedPush _ _ => none

@[simp] theorem DispPc.checked_fetch : DispPc.fetch.checked = none := rfl
@[simp] theorem DispPc.checked_lock (k : AwaitType) (p : Packet) :
    (DispPc.lock k p).checked = none := rfl
@[simp] theorem DispPc.checked_sharedPush (p : Packet) (first : Addr) :
    (DispPc.sharedPush p first).checked = none := rfl
@[simp] theorem DispPc.checked_visit (k : AwaitType) (p : Packet) (first a : Addr)
    (rest : List Addr) (s : VisitPc) :
    (DispPc.visit k p first a rest s).checked = s.checked k := rfl

@[simp] theorem DispPc.checked_after (p : Packet) (k : AwaitType) :
    (DispPc.after p k).checked = none := by
  cases k <;> rfl

@[simp] theorem DispPc.checked_next (k : AwaitType) (p : Packet) (first : Addr)
    (rest : List Addr) : (DispPc.next k p first rest).checked = none := by
  cases rest <;> cases k <;> rfl

/-- The coroutine a dispatcher refers to. -/
def DispPc.handle : DispPc → Option CoId
  | .visit _ _ _ _ _ s => s.handle
  | .fetch | .lock _ _ | .sharedPush _ _ => none

/-- What the normal dispatcher has seen of `c` is still so. -/
structure Solo (w : World) (c : CoId) : Prop where
  claim : SingleClaim w c
  checked : (w.disp .normal).checked = some c → (w.promise c).state = .stopState

/-- A coroutine about to store `RuningState` through `handle_` is its own. -/
theorem Wf.storeRuning_owner (hw : Wf w) {a : Addr} {A : Await} {h c₁ : CoId}
    (hc : w.ctl c₁ = .resuming a .state) (ha : w.awaits a = some A) (hh : A.handle = some h) :
    h = c₁ := by
  obtain ⟨A', ha', ho⟩ := hw.at_await c₁ a (by rw [hc]; rfl)
  obtain rfl : A = A' := Option.some.inj (ha.symm.trans ha')
  exact (hw.handle_owner a A h ha hh).trans ho

/-- Only the store of `QueueResume` by a dispatcher takes a stopped coroutine out of `StopState`. -/
theorem Wf.state_kept (hw : Wf w) (hs : SingleClaim w c) (ht : Trans w act w')
    (h : (w.promise c).state = .stopState) :
    (w'.promise c).state = .stopState ∨
      ∃ d i k p first a rest, act = .dispatch d i ∧
        w.disp d = .visit k p first a rest (.storeState c) := by
  cases ht with
  | suspendState | lateStore =>
    left
    simp only [Function.update_apply]
    split <;> simp_all
  | @storeRuning c₁ a A co junk hc ha hh =>
    left
    obtain rfl := hw.storeRuning_owner hc ha hh
    have hne : c ≠ co := by
      rintro rfl
      exact hs.not_stopped_of_running (by simp [World.isRunning, hc, Ctl.running]) h
    simp only [Function.update_of_ne hne]
    exact h
  | @storeState d i k p first a rest A co hd ha =>
    by_cases hcc : c = co
    · subst hcc
      exact .inr ⟨d, i, k, p, first, a, rest, rfl, hd⟩
    · left
      simp only [Function.update_of_ne hcc]
      exact h
  | _ => exact .inl h

/-- A delivery gets past its check only by reading `StopState`. -/
theorem Trans.checked_visit (ht : Trans w act w') {s : VisitPc}
    (hd : w'.disp d = .visit k p first a rest s) (hs : s.checked k = some c) :
    (∃ s₀, w.disp d = .visit k p first a rest s₀ ∧ s₀.checked k = some c) ∨
      ∃ i, act = .dispatch d i ∧ w.disp d = .visit k p first a rest (.loadState c) ∧
        (w.promise c).state = .stopState ∧ w'.promise = w.promise := by
  have hne : s ≠ .enter := by rintro rfl; cases hs
  rcases ht.visit_from hd hne with hd₀ | ⟨i, s₀, hact, hd₀, hm⟩
  · exact .inl ⟨s, hd₀, hs⟩
  cases hm with
  | enter _ _ hcase => rcases hcase with ⟨rfl, rfl⟩ | ⟨rfl, rfl⟩ | ⟨rfl, rfl, -⟩ <;> cases hs
  | enqueue | storeState | pushQueue | loadTimer => cases hs
  | @stateStop h _ hp hcase he =>
    obtain rfl : h = c := by
      rcases hcase with ⟨rfl, rfl⟩ | ⟨hk, rfl⟩
      · exact Option.some.inj hs
      · simpa [VisitPc.checked, hk] using hs
    exact .inr ⟨i, hact, hd₀, hp, he⟩
  | awaitThis _ hcase =>
    rcases hcase with ⟨rfl, rfl⟩ | ⟨rfl, rfl⟩ | ⟨rfl, rfl⟩
    · cases hs
    · exact .inl ⟨_, hd₀, hs⟩
    · exact .inl ⟨_, hd₀, hs⟩
  | writeData => exact .inl ⟨_, hd₀, hs⟩

theorem DispPc.checked_eq_some {pc : DispPc} (h : pc.checked = some c) :
    ∃ k p first a rest s, pc = .visit k p first a rest s ∧ s.checked k = some c := by
  cases pc with
  | visit k p first a rest s => exact ⟨k, p, first, a, rest, s, rfl, h⟩
  | _ => cases h

/-- A dispatcher gets past its check only by reading `StopState`. -/
theorem Trans.checked (ht : Trans w act w') (h : (w'.disp d).checked = some c) :
    (w.disp d).checked = some c ∨ (w.promise c).state = .stopState ∧ w'.promise = w.promise := by
  obtain ⟨k, p, first, a, rest, s, hd, hs⟩ := DispPc.checked_eq_some h
  rcases ht.checked_visit hd hs with ⟨s₀, hd₀, hs₀⟩ | ⟨i, -, -, hst, he⟩
  · left
    rw [hd₀]
    exact hs₀
  · exact .inr ⟨hst, he⟩

/-- The store of `QueueResume` takes the dispatcher to the push. -/
theorem Trans.storeState_next (ht : Trans w (.dispatch d i) w')
    (hd : w.disp d = .visit k p first a rest (.storeState c)) :
    w'.disp d = .visit k p first a rest (.pushQueue c) := by
  cases ht <;> simp_all

/-- **One step.**  The high dispatcher does not refer to the coroutine. -/
theorem Solo.step (h : Solo w c) (hw : Wf w) (ht : Trans w act w')
    (hhigh : (w.disp .high).handle ≠ some c) : Solo w' c := by
  have stores : StoresOnStopped w act c := by
    rintro (_ | _) i k p first a rest - hd
    · exact h.checked (by simp [hd, VisitPc.checked])
    · exact absurd (by rw [hd]; rfl) hhigh
  refine ⟨h.claim.step ht stores, fun hch => ?_⟩
  rcases ht.checked hch with hch' | ⟨hst, he⟩
  · rcases hw.state_kept h.claim ht (h.checked hch') with hk | ⟨d, i, k, p, first, a, rest, rfl, hd⟩
    · exact hk
    · cases d with
      | normal =>
        rw [ht.storeState_next hd] at hch
        simp [VisitPc.checked] at hch
      | high => exact absurd (by rw [hd]; rfl) hhigh
  · rw [he]
    exact hst

theorem Solo.init (c : CoId) : Solo World.init c := ⟨SingleClaim.init c, fun h => by cases h⟩

/-! ### Runs without high priority messages -/

/-- The condition on one step: it does not call `push_high_priority_message`, neither from outside
nor from the callback of a `create_time_await` timer. -/
def normalOnly (w : World) : Action → Bool
  | .pushHigh _ => false
  | .ioStep =>
    match w.io with
    | .call id =>
      match (w.timerAt id).map Timer.func with
      | some (.tick _ _) => false
      | _ => true
    | _ => true
  | _ => true

/-- The high dispatcher has nothing to do. -/
theorem high_idle (h : Reachable (fun w act => normalOnly w act = true) w) :
    w.busQueue .high = [] ∧ w.disp .high = .fetch := by
  refine h.invariant (I := fun w => w.busQueue .high = [] ∧ w.disp .high = .fetch) ⟨rfl, rfl⟩ ?_
  rintro s a s' - ⟨hq, hd⟩ hok hs
  have ht := trans_of_step hs
  have hdisp : s'.disp .high = .fetch := by
    rcases ht.disp_eq .high with he | ⟨i, rfl⟩
    · rw [he, hd]
    · cases ht <;> simp_all
  refine ⟨?_, hdisp⟩
  cases ht with
  | pushHigh => cases hok
  | ioTick hi ht hf => simp [normalOnly, hi, ht, hf] at hok
  | @fetch d i p hd' _ hi =>
    cases d with
    | normal => simpa using hq
    | high => simp [hq] at hi
  | push | destroyPush | pushRemove | ioTimeout => simpa using hq
  | _ => exact hq

/-- Then every coroutine is served by one dispatcher. -/
theorem solo_of_normalOnly (h : Reachable (fun w act => normalOnly w act = true) w) (c : CoId) :
    Solo w c := by
  refine h.invariant (I := fun w => Solo w c) (Solo.init c) fun s a s' hr ih _ hs => ?_
  refine ih.step (wf_of_reachable hr) (trans_of_step hs) ?_
  rw [(high_idle hr).2]
  simp [DispPc.handle]

/-- **No coroutine is resumed while it runs**, in a run without high priority messages. -/
theorem fault_ne_resumed (h : Reachable (fun w act => normalOnly w act = true) w) (c : CoId) :
    w.fault ≠ some (.resumed c) := by
  refine h.invariant (I := fun w => w.fault ≠ some (.resumed c)) (by simp [World.init]) ?_
  intro s a s' hr ih _ hs
  have ht := trans_of_step hs
  cases ht with
  | nullFault => simp
  | @resumeFault i e hi htop hc =>
    obtain ⟨b, hb⟩ := (solo_of_normalOnly hr e.handle).claim.queue_ctl
      (List.mem_map.2 ⟨e, List.mem_of_getElem? hi, rfl⟩)
    exact absurd hb (hc b)
  | _ => exact ih

end DataProxy
