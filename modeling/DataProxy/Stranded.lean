import DataProxy.Delivery

/-!
# Messages behind a sleeping consumer

A consumer looks for a message (`await_ready`) and then goes to sleep in several stores
(`await_suspend`); a dispatcher adds a message and then looks for a sleeping consumer.  When the
dispatcher looks while the consumer is between its look and its last store, both miss each other
and the message stays in the queue of a sleeping coroutine.

For a `MessageAwait` the dispatcher looks after the enqueue, so that an unread message is always
attended to: by the coroutine itself, or by a delivery that still has its check to make.  For
`SharedMessageAwait`s it looks before the enqueue, so that whoever goes to sleep after the scan
misses the message.
-/

namespace DataProxy

open Function (update)

variable {w w' : World} {act : Action} {a : Addr} {A A' : Await} {c : CoId}

/-- The coroutine has found no message on `a` and is going to sleep or asleep on it; the pair of
cells names `a`, or will when the last store is done. -/
def World.waits (w : World) (a : Addr) (c : CoId) : Bool :=
  match w.ctl c with
  | .suspending b _ => decide (b = a)
  | .suspended b =>
    decide (b = a ∧ (w.promise c).state = .stopState ∧
      ((w.promise c).await = some a ∨ (c, a) ∈ w.late))
  | _ => false

/-- The coroutine is inside `await_suspend` of `a`. -/
def World.inSuspend (w : World) (a : Addr) (c : CoId) : Bool :=
  (match w.ctl c with
    | .suspending b _ => decide (b = a)
    | _ => false) || decide ((c, a) ∈ w.late)

/-- The queue of the `MessageAwait` at `a` is not empty. -/
def World.unread (w : World) (a : Addr) : Bool :=
  (w.awaits a).any fun A => !A.queue.isEmpty

/-- The condition on one step.  A check of `MessageAwait::push_message` that decides against a wake
is not made while the coroutine is inside `await_suspend` of that await with a message unread; and
when a message goes to a shared queue, no coroutine waits on an await of that name. -/
def checksAwake (w : World) : Action → Bool
  | .dispatch d _ =>
    match w.disp d with
    | .visit .normal _ _ a _ (.loadState h) =>
      decide ((w.promise h).state = .stopState) || !(w.inSuspend a h && w.unread a)
    | .visit .normal _ _ a _ (.loadAwait h) =>
      decide ((w.promise h).await = some a) || !(w.inSuspend a h && w.unread a)
    | .sharedPush p _ =>
      (Multimap.equalRange (w.registry .shared) p.msg.name).all fun b =>
        (w.awaits b).all fun B => !w.waits b B.owner
    | _ => true
  | _ => true

theorem World.waits_suspending {b : Addr} {s : SuspendPc} (hc : w.ctl c = .suspending b s) :
    w.waits a c = true ↔ b = a := by
  simp [World.waits, hc]

theorem World.waits_suspended {b : Addr} (hc : w.ctl c = .suspended b) :
    w.waits a c = true ↔ b = a ∧ (w.promise c).state = .stopState ∧
      ((w.promise c).await = some a ∨ (c, a) ∈ w.late) := by
  simp [World.waits, hc]

theorem World.waits_at (h : w.waits a c = true) : (w.ctl c).at = some a := by
  unfold World.waits at h
  split at h
  · rename_i hc
    rw [hc]
    simpa [Ctl.at] using h
  · rename_i hc
    simp only [decide_eq_true_eq] at h
    rw [hc, Ctl.at, h.1]
  · cases h

/-- A step that does not move the coroutine and stores nothing in its promise. -/
theorem World.waits_congr (hc : w'.ctl c = w.ctl c) (hp : w'.promise c = w.promise c)
    (hl : ∀ b, (c, b) ∈ w'.late ↔ (c, b) ∈ w.late) : w'.waits a c = w.waits a c := by
  simp only [World.waits, hc, hp, hl]

/-- How a coroutine comes to wait: `await_ready` found nothing. -/
theorem Wf.waits_of_step (hw : Wf w) (ht : Trans w act w') (h : w'.waits a c = true) :
    w.waits a c = true ∨ w'.awaits = w.awaits ∧ w'.sharedQueues = w.sharedQueues ∧
      ∃ A, w.awaits a = some A ∧ A.owner = c ∧ (A.type = .normal → A.queue = []) ∧
        (A.type = .shared → w.sharedQueues A.sharedQueue = []) := by
  have same : w'.ctl c = w.ctl c → w'.promise c = w.promise c →
      (∀ b, (c, b) ∈ w'.late ↔ (c, b) ∈ w.late) → w.waits a c = true :=
    fun hc hp hl => World.waits_congr hc hp hl ▸ h
  -- a coroutine that moves to a place where it does not wait is another one
  have moved : ∀ {c₁ : CoId} {y : Ctl}, w'.ctl = update w.ctl c₁ y → w'.promise = w.promise →
      w'.late = w.late → y.at ≠ some a ∨ (∃ s, y = .resuming a s) ∨ (∃ id, y = .arming a id) →
      w.waits a c = true := by
    intro c₁ y hc hp hl hy
    have hne : c ≠ c₁ := by
      rintro rfl
      have hat := World.waits_at h
      rcases hy with hy | ⟨s, rfl⟩ | ⟨id, rfl⟩
      · rw [hc, Function.update_self] at hat
        exact hy hat
      · simp [World.waits, hc] at h
      · simp [World.waits, hc] at h
    exact same (by rw [hc, Function.update_of_ne hne]) (by rw [hp]) (by simp [hl])
  cases ht with
  | start | createTime | registerTime | destroyPush | finish | cancel | cancelMiss | arm =>
    exact .inl (moved rfl rfl rfl (.inl (by simp [Ctl.at])))
  | destroy | ret =>
    refine .inl (moved rfl rfl rfl (.inl ?_))
    split <;> simp [Ctl.at]
  | @setTimeout _ b | @readyNormal _ b | @readyShared _ b | @resume _ _ b | @loadSuspend _ b
  | @dequeue _ b | @clearSuspend _ b =>
    by_cases hab : b = a
    · subst hab
      exact .inl (moved rfl rfl rfl (.inr (by simp)))
    · exact .inl (moved rfl rfl rfl (.inl (by simp [Ctl.at, hab])))
  | @notReady c₁ b B hc _ hb ho hn hs =>
    by_cases hcc : c = c₁
    · subst hcc
      obtain rfl : b = a := by simpa [World.waits] using h
      exact .inr ⟨rfl, rfl, B, hb, ho, hn, hs⟩
    · exact .inl (same (Function.update_of_ne hcc ..) rfl (by simp))
  | @suspendFlag c₁ b B junk hc | @suspendHandle c₁ b B junk hc =>
    left
    by_cases hcc : c = c₁
    · subst hcc
      rw [World.waits_suspending hc]
      simpa [World.waits] using h
    · exact same (Function.update_of_ne hcc ..) rfl (by simp)
  | @suspendState c₁ b B junk hc =>
    left
    by_cases hcc : c = c₁
    · subst hcc
      rw [World.waits_suspending hc]
      simp only [World.waits, Function.update_self, decide_eq_true_eq] at h
      exact h.1
    · exact same (Function.update_of_ne hcc ..) (Function.update_of_ne hcc ..) (by simp [hcc])
  | @lateStore i c₁ b hi =>
    left
    have hin : (c₁, b) ∈ w.late := List.mem_of_getElem? hi
    by_cases hcc : c = c₁
    · subst hcc
      cases hc : w.ctl c with
      | suspending b' s =>
        rw [World.waits_suspending hc]
        simpa [World.waits, hc] using h
      | suspended b' =>
        rw [World.waits_suspended hc]
        simp only [World.waits, hc, Function.update_self, decide_eq_true_eq,
          Option.some.injEq] at h
        obtain ⟨hb, hst, rfl | hl⟩ := h
        · exact ⟨hb, hst, .inr hin⟩
        · exact ⟨hb, hst, .inr (List.mem_of_mem_eraseIdx hl)⟩
      | _ => simp [World.waits, hc] at h
    · refine same rfl (Function.update_of_ne hcc ..) fun b' => ?_
      rw [Bag.mem_take_iff hi]
      simp [hcc]
  | @storeRuning c₁ b B co junk hc hb hh =>
    left
    obtain rfl := hw.storeRuning_owner hc hb hh
    by_cases hcc : c = co
    · subst hcc
      simp [World.waits] at h
    · exact same (Function.update_of_ne hcc ..) (Function.update_of_ne hcc ..) (by simp)
  | @storeState d i k p first b rest B co hd hb =>
    left
    by_cases hcc : c = co
    · subst hcc
      cases hc : w.ctl c with
      | suspending b' s =>
        rw [World.waits_suspending hc]
        simpa [World.waits, hc] using h
      | _ => simp [World.waits, hc] at h
    · exact same rfl (Function.update_of_ne hcc ..) (by simp)
  | _ => exact .inl h

/-- Only an enqueue makes an empty queue non-empty. -/
theorem Trans.queue_of_step (ht : Trans w act w') (ha : w.awaits a = some A)
    (ha' : w'.awaits a = some A') (h : A'.queue ≠ []) :
    A.queue ≠ [] ∨ ∃ d i k p first rest co, act = .dispatch d i ∧
      w.disp d = .visit k p first a rest (.enqueue co) := by
  cases ht.edit ha ha' with
  | ready _ _ _ _ hq | dequeue _ hq => exact .inl (by simp [hq])
  | enqueue hact hd => exact .inr ⟨_, _, _, _, _, _, _, hact, hd⟩
  | _ => exact .inl h

/-- Somebody will see to the coroutine that waits on the `MessageAwait` at `a`: it is in the
executor's queue, or a delivery to `a` has its check before it.  (Or the program has broken off at
its resumption.) -/
def World.attended (w : World) (a : Addr) (c : CoId) : Prop :=
  c ∈ w.scheduled ∨
    (∃ d p first rest s, w.disp d = .visit .normal p first a rest s ∧ s.handle = some c) ∨
    w.fault = some (.resumed c)

theorem checksAwake_loadState {d : Dispatcher} {i : ℕ} {p : Packet} {first : Addr}
    {rest : List Addr} (h : checksAwake w (.dispatch d i) = true)
    (hd : w.disp d = .visit .normal p first a rest (.loadState c)) (ha : w.awaits a = some A)
    (hq : A.queue ≠ []) (hw : w.waits a c = true) : (w.promise c).state = .stopState := by
  by_contra hst
  simp only [checksAwake, hd, hst, World.unread, ha] at h
  cases hc : w.ctl c with
  | suspending b s =>
    rw [World.waits_suspending hc] at hw
    simp [World.inSuspend, hc, hw, hq] at h
  | suspended b => exact hst ((World.waits_suspended hc).1 hw).2.1
  | _ => simp [World.waits, hc] at hw

theorem checksAwake_loadAwait {d : Dispatcher} {i : ℕ} {p : Packet} {first : Addr}
    {rest : List Addr} (h : checksAwake w (.dispatch d i) = true)
    (hd : w.disp d = .visit .normal p first a rest (.loadAwait c)) (ha : w.awaits a = some A)
    (hq : A.queue ≠ []) (hw : w.waits a c = true) : (w.promise c).await = some a := by
  by_contra hne
  simp only [checksAwake, hd, hne, World.unread, ha] at h
  cases hc : w.ctl c with
  | suspending b s =>
    rw [World.waits_suspending hc] at hw
    simp [World.inSuspend, hc, hw, hq] at h
  | suspended b =>
    have hl := ((World.waits_suspended hc).1 hw).2.2.resolve_left hne
    simp [World.inSuspend, hl, hq] at h
  | _ => simp [World.waits, hc] at hw

/-- A delivery on its way to its check gets there, and the check does not fail. -/
theorem attended_of_step (hf : w.fault = none) (ht : Trans w act w')
    (hok : checksAwake w act = true) (ha : w.awaits a = some A) (hq : A.queue ≠ [])
    (hw : w.waits a c = true) (hw' : w'.waits a c = true) (h : w.attended a c) :
    w'.attended a c := by
  rcases h with hm | ⟨d, p, first, rest, s, hd, hs⟩ | hfault
  · rcases ht.unscheduled hm with hm | ⟨b, s, hc⟩ | hfault
    · exact .inl hm
    · simp [World.waits, hc] at hw'
    · exact .inr (.inr hfault)
  · rcases ht.disp_eq d with he | ⟨i, rfl⟩
    · exact .inr (.inl ⟨d, p, first, rest, s, by rw [he, hd], hs⟩)
    have stay : ∀ {s'}, w'.disp d = .visit .normal p first a rest s' → s'.handle = some c →
        w'.attended a c := fun hd' hs' => .inr (.inl ⟨d, p, first, rest, _, hd', hs'⟩)
    cases ht with
    | fetch hd₁ | lockNone hd₁ | lockSome hd₁ | sharedPush hd₁ =>
      rw [hd] at hd₁
      cases hd₁
    | skip hd₁ | enter hd₁ | noTimer hd₁ | loadTimer hd₁ | pushRemove hd₁ =>
      rw [hd] at hd₁
      cases hd₁
      cases hs
    | enqueue hd₁ | writeData hd₁ | storeState hd₁ =>
      rw [hd] at hd₁
      cases hd₁
      exact stay (Function.update_self ..) hs
    | stateStop hd₁ _ _ hcase =>
      rw [hd] at hd₁
      cases hd₁
      rcases hcase with ⟨hk, -⟩ | ⟨-, rfl⟩
      · cases hk
      · exact stay (Function.update_self ..) hs
    | stateOther hd₁ _ hp =>
      rw [hd] at hd₁
      cases hd₁
      obtain rfl := Option.some.inj hs
      exact absurd (checksAwake_loadState hok hd ha hq hw) hp
    | awaitThis hd₁ _ _ hcase =>
      rw [hd] at hd₁
      cases hd₁
      rcases hcase with ⟨hk, -⟩ | ⟨-, rfl⟩ | ⟨hk, -⟩
      · cases hk
      · exact stay (Function.update_self ..) hs
      · cases hk
    | awaitOther hd₁ _ hp =>
      rw [hd] at hd₁
      cases hd₁
      obtain rfl := Option.some.inj hs
      exact absurd (checksAwake_loadAwait hok hd ha hq hw) hp
    | pushQueue hd₁ =>
      rw [hd] at hd₁
      cases hd₁
      obtain rfl := Option.some.inj hs
      exact .inl (by simp [World.scheduled])
  · rw [hf] at hfault
    cases hfault

/-- Only a push to a shared queue makes it non-empty. -/
theorem Trans.sharedQueue_of_step (ht : Trans w act w') {q : QueueId}
    (h : w.sharedQueues q = []) :
    w'.sharedQueues q = [] ∨ ∃ d i p first F, act = .dispatch d i ∧
      w.disp d = .sharedPush p first ∧ w.awaits first = some F ∧ F.sharedQueue = q := by
  cases ht with
  | createQueue =>
    left
    simp only [Function.update_apply]
    split
    · rfl
    · exact h
  | @readyShared c b B m q' _ _ _ _ _ hq =>
    left
    have hne : q ≠ B.sharedQueue := by rintro rfl; rw [h] at hq; cases hq
    simp only [Function.update_of_ne hne]
    exact h
  | @sharedPush d i p first F hd hF =>
    by_cases hq : q = F.sharedQueue
    · exact .inr ⟨d, i, p, first, F, rfl, hd, hF, hq.symm⟩
    · left
      simp only [Function.update_of_ne hq]
      exact h
  | _ => exact .inl h

/-- The invariant: whoever waits on a non-empty private queue is attended to, and nobody waits on
a non-empty shared queue. -/
structure Attended (w : World) : Prop where
  normal : ∀ a A, w.awaits a = some A → A.type = .normal → A.queue ≠ [] →
    w.waits a A.owner = true → w.attended a A.owner
  shared : ∀ a A, w.awaits a = some A → A.type = .shared → w.waits a A.owner = true →
    w.sharedQueues A.sharedQueue = []
  faulted : ∀ c a, w.fault = some (.resumed c) → w.ctl c ≠ .suspended a

/-- **One step.** -/
theorem Attended.step (h : Attended w) (hw : Wf w) (hf : w.fault = none) (ht : Trans w act w')
    (hok : checksAwake w act = true) : Attended w' := by
  refine ⟨fun a A' ha' hty hq hwt' => ?_, fun a A' ha' hty hwt' => ?_, fun c a hfault => ?_⟩
  · rcases hw.waits_of_step ht hwt' with hwt | ⟨he, -, A, ha, -, hn, -⟩
    · obtain ⟨A, ha, ho⟩ := hw.at_await _ _ (World.waits_at hwt)
      have hkeep := hw.keeps ht ha ha'
      have hty' : A.type = .normal := hkeep.type ▸ hty
      rcases ht.queue_of_step ha ha' hq with hq' | ⟨d, i, k, p, first, rest, co, rfl, hd⟩
      · rw [← ho] at hwt hwt' ⊢
        exact attended_of_step hf ht hok ha hq' hwt hwt' (h.normal a A ha hty' hq' hwt)
      · -- the enqueue itself: the check is still to come
        obtain ⟨B, hB, hco⟩ := hw.visit_handle d k p first a rest _ co hd rfl
        obtain rfl : A = B := Option.some.inj (ha.symm.trans hB)
        obtain rfl : k = .normal := (hw.visit_type hd ha).1.symm.trans hty'
        have hown := (hw.handle_owner a A co ha hco).trans ho
        refine .inr (.inl ⟨d, p, first, rest, .loadState co, ?_, by rw [← hown]; rfl⟩)
        cases ht <;> simp_all
    · rw [he] at ha'
      obtain rfl : A = A' := Option.some.inj (ha.symm.trans ha')
      exact absurd (hn hty) hq
  · rcases hw.waits_of_step ht hwt' with hwt | ⟨he, hsq, A, ha, -, -, hs⟩
    · obtain ⟨A, ha, ho⟩ := hw.at_await _ _ (World.waits_at hwt)
      have hkeep := hw.keeps ht ha ha'
      have hty' : A.type = .shared := hkeep.type ▸ hty
      rw [hkeep.sharedQueue]
      rcases ht.sharedQueue_of_step (h.shared a A ha hty' (ho ▸ hwt)) with
        hemp | ⟨d, i, p, first, F, rfl, hd, hF, hFq⟩
      · exact hemp
      · -- the push goes to a queue of another name
        obtain ⟨F', hF', hFty, hFn⟩ := hw.scanning d .shared p (by rw [hd]; rfl) (by rw [hd]; rfl)
          first (by rw [hd]; simp [DispPc.scanned])
        obtain rfl : F = F' := Option.some.inj (hF.symm.trans hF')
        have hname := (hw.queue_iff first a F A hF ha hFty hty').1 hFq
        simp only [checksAwake, hd, List.all_eq_true, Multimap.mem_equalRange] at hok
        have := hok a ((hw.registered .shared p.msg.name a).2 ⟨A, ha, hty', hname ▸ hFn⟩)
        simp [ha, ho, hwt] at this
    · rw [he] at ha'
      obtain rfl : A = A' := Option.some.inj (ha.symm.trans ha')
      rw [hsq]
      exact hs hty
  · cases ht with
    | resumeFault _ _ hc =>
      obtain rfl : _ = c := by simpa using hfault
      exact hc a
    | nullFault => cases hfault
    | _ => rw [hf] at hfault; cases hfault

theorem Attended.init : Attended World.init := by
  refine ⟨fun a A ha _ hq => ?_, fun a A ha hty => ?_, fun c a hf => by cases hf⟩
  · obtain ⟨rfl, rfl⟩ := World.init_awaits ha
    exact absurd rfl hq
  · simp [World.init]

theorem attended_of_reachable (h : Reachable (fun w act => checksAwake w act = true) w) :
    Attended w :=
  h.invariant (I := Attended) Attended.init fun _ _ _ hr ih hok hs =>
    ih.step (wf_of_reachable hr) (fault_of_step hs) (trans_of_step hs) hok

/-- The queue a `MessageAwait` or a `SharedMessageAwait` reads from. -/
def World.queueOf (w : World) (A : Await) : List InternalMessage :=
  if A.type = .shared then w.sharedQueues A.sharedQueue else A.queue

/-- Wherever a coroutine is fully suspended on a `MessageAwait` or a `SharedMessageAwait` and not in
the executor's queue, and no dispatcher is delivering a message of that name, the queue is empty. -/
def NothingStranded (w : World) : Prop :=
  ∀ a A c, w.awaits a = some A → A.type ≠ .temp → A.handle = some c → w.ctl c = .suspended a →
    w.promise c = ⟨.stopState, some a⟩ → c ∉ w.scheduled →
    (∀ d p, (w.disp d).packet = some p → p.msg.name ≠ A.waitMessageName) → w.queueOf A = []

/-- **No message is stranded behind a sleeping consumer**, along every run in which no failing check
of a delivery falls into the coroutine's `await_suspend` with a message unread, and no message goes
to a shared queue while a coroutine waits on it. -/
theorem nothingStranded_of_checksAwake
    (h : Reachable (fun w act => checksAwake w act = true) w) : NothingStranded w := by
  intro a A c ha hty hh hc hp hm hd
  have hw := wf_of_reachable h
  have hinv := attended_of_reachable h
  obtain rfl := hw.owner_of_at (by rw [hc]; rfl) ha
  have hwt : w.waits a A.owner = true := (World.waits_suspended hc).2 ⟨rfl, by simp [hp]⟩
  unfold World.queueOf
  split
  · rename_i hsh
    exact hinv.shared a A ha hsh hwt
  · rename_i hsh
    have hn : A.type = .normal := by
      cases hk : A.type with
      | shared => exact absurd hk hsh
      | normal => rfl
      | temp => exact absurd hk hty
    by_contra hq
    rcases hinv.normal a A ha hn hq hwt with hm' | ⟨d, p, first, rest, s, hd', -⟩ | hf
    · exact hm hm'
    · exact hd d p (by rw [hd']; rfl) (hw.visit_type hd' ha).2.symm
    · exact hinv.faulted _ a hf hc

/-- A coroutine takes a first message and is about to go to sleep again, having found no second. -/
def secondWait : List Action :=
  [Action.start 1, .body 1 (.createMessage 5 0 "m" 0 0), .body 1 (.coAwait 5), .run 1 0, .run 1 0,
    .run 1 0, .late 0, .push { name := "m" }] ++
  List.replicate 10 (Action.dispatch .normal 0) ++ [Action.worker 0] ++
  List.replicate 5 (Action.run 1 0) ++ [Action.body 1 (.coAwait 5)]

/-- The second message is enqueued and checked before the coroutine has stored `StopState`. -/
def missedCheck : List Action :=
  secondWait ++ [Action.push { name := "m" }] ++ List.replicate 7 (Action.dispatch .normal 0) ++
    [Action.run 1 0, .run 1 0, .run 1 0, .late 0]

/-- The first coroutine is fully suspended on the `MessageAwait` at address 5, which holds `q`, and
nobody is going to wake it. -/
def asleepWith (w : World) (q : List InternalMessage) : Prop :=
  w.ctl 1 = .suspended 5 ∧ w.promise 1 = ⟨.stopState, some 5⟩ ∧ w.scheduled = [] ∧
    w.disp .normal = .fetch ∧ w.disp .high = .fetch ∧
    (w.awaits 5).any fun A => decide (A.type = .normal ∧ A.handle = some 1 ∧ A.queue = q)

instance (w : World) (q : List InternalMessage) : Decidable (asleepWith w q) :=
  inferInstanceAs (Decidable (_ ∧ _))

/-- Without the condition a message can be left behind a sleeping coroutine. -/
theorem message_stranded : ∃ w, Reachable Run.Any w ∧ ¬NothingStranded w := by
  have hrun : (Run.exec step World.init missedCheck).any
      (fun w => decide (asleepWith w [{ name := "m" }])) = true := by
    decide +kernel
  obtain ⟨w, hw, hc, hp, hm, hdn, hdh, hA⟩ := Run.exists_reach_of_exec hrun
  obtain ⟨A, hA, hs⟩ := (Option.any_eq_true ..).1 hA
  obtain ⟨hty, hh, hq⟩ := of_decide_eq_true hs
  refine ⟨w, hw, fun h => ?_⟩
  have hnil := h 5 A 1 hA (by simp [hty]) hh hc hp (by simp [hm]) (by
    intro d p hd
    cases d <;> simp_all [DispPc.packet])
  simp [World.queueOf, hty, hq] at hnil

theorem nothingStranded_secondWait :
    ∃ w, Reachable (fun w act => checksAwake w act = true) w ∧ asleepWith w [] ∧
      NothingStranded w := by
  have hrun : (Run.exec (Run.guarded step fun w act => checksAwake w act = true) World.init
      (secondWait ++ [.run 1 0, .run 1 0, .run 1 0, .late 0])).any
      (fun w => decide (asleepWith w [])) = true := by
    decide +kernel
  obtain ⟨w, hw, hs⟩ := Run.exists_reach_of_exec_guarded hrun
  exact ⟨w, hw, hs, nothingStranded_of_checksAwake hw⟩

end DataProxy
