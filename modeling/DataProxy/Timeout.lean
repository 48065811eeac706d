import DataProxy.Backed
import DataProxy.Timers

/-!
# Whose timeout it is

`set_await_timeout` arms a timer whose callback pushes a message with the awaited name and
`is_timeout_msg`.  The message is dispatched like any other: to every await of that name, of all
three kinds, past the filters, and also when the await has been given another timer since.

`Private` is what holds along the runs in which a timeout message reaches no `SharedMessageAwait`
and no `MessageAwait`, and a `TempMessageAwait` only from its present timer: no message with
`is_timeout_msg` is in a queue of the first two, and one that is about to be returned from the third
comes with the expiry of that timer.
-/

namespace DataProxy

open Function (update)

variable {w w' : World} {act : Action} {c : CoId} {a : Addr} {A A' : Await} {d : Dispatcher}
  {p : Packet}

/-- The message that the dispatcher is handing to the `SharedMessageAwait`s, or is about to enqueue
on a `MessageAwait`. -/
def DispPc.gives : DispPc → Option Packet
  | .visit .shared p _ _ _ _ | .visit .normal p _ _ _ (.enqueue _) | .sharedPush p _ => some p
  | _ => none

/-- The condition on one step that no timeout message reaches the wrong await. -/
def privateTimeouts (w : World) : Action → Bool
  | .dispatch d _ =>
    match w.disp d with
    | .lock .shared p =>
      !p.msg.isTimeoutMsg || (Multimap.equalRange (w.registry .shared) p.msg.name).isEmpty
    | .visit .normal p _ a _ .enter =>
      !p.msg.isTimeoutMsg || (w.awaits a).all fun A => decide (A.handle = none)
    | .visit .temp p _ a _ (.writeData _) =>
      !p.msg.isTimeoutMsg || (w.awaits a).all fun A => decide (p.timer = some A.timerId)
    | .visit .temp p _ a _ (.storeState _) =>
      (w.awaits a).all fun A =>
        decide (A.data = p.msg) && (!p.msg.isTimeoutMsg || decide (p.timer = some A.timerId))
    | _ => true
  | _ => true

/-- The assumption on the environment: the channels do not set `is_timeout_msg`. -/
def plainPushes : Action → Bool
  | .push m | .pushHigh m => !m.isTimeoutMsg
  | _ => true

/-- The condition on one step: a timeout message reaches no wrong await, and every wake finds what it
checked still true. -/
def timeoutsOwn (w : World) (act : Action) : Bool :=
  plainPushes act && privateTimeouts w act && wakesSettled w act

/-- The coroutine is going to return from the await with what is now in `data_`. -/
def World.returning (w : World) (c : CoId) (a : Addr) : Prop :=
  (∃ s, w.ctl c = .resuming a s) ∨ w.ctl c = .suspended a ∧ (w.promise c).state ≠ .stopState

/-- Where timeout messages are, and are not. -/
structure Private (w : World) : Prop where
  destroying : ∀ c m, w.ctl c = .destroying m → m.isTimeoutMsg = false
  origin : ∀ p, w.inFlight p → p.msg.isTimeoutMsg = true → ∃ id, p.timer = some id
  given : ∀ d p, (w.disp d).gives = some p → p.msg.isTimeoutMsg = false
  queue : ∀ a A, w.awaits a = some A → ∀ m ∈ A.queue, m.isTimeoutMsg = false
  sharedQueue : ∀ q, ∀ m ∈ w.sharedQueues q, m.isTimeoutMsg = false
  data : ∀ a A, w.awaits a = some A → A.type ≠ .temp → A.data.isTimeoutMsg = false
  temp : ∀ a A, w.awaits a = some A → A.type = .temp → A.data.isTimeoutMsg = true →
    w.returning A.owner a → w.expired A.timerId

/-! ### Where things come from -/

theorem DispPc.gives_visit {k : AwaitType} {q : Packet} {first : Addr} {rest : List Addr}
    {s : VisitPc} (h : (DispPc.visit k q first a rest s).gives = some p) :
    q = p ∧ (k = .shared ∨ k = .normal ∧ ∃ h, s = .enqueue h) := by
  cases k with
  | shared => exact ⟨Option.some.inj h, .inl rfl⟩
  | normal =>
    cases s with
    | enqueue h' => exact ⟨Option.some.inj h, .inr ⟨rfl, h', rfl⟩⟩
    | _ => cases h
  | temp => cases h

theorem DispPc.gives_next {k : AwaitType} {q : Packet} {first : Addr} {rest : List Addr}
    (h : (DispPc.next k q first rest).gives = some p) : k = .shared ∧ q = p := by
  rcases DispPc.next_cases k q first rest with ⟨b, r, -, he⟩ | ⟨hk, he⟩ | ⟨-, he⟩
  · rw [he] at h
    obtain ⟨rfl, rfl | ⟨-, h', hs⟩⟩ := DispPc.gives_visit h
    · exact ⟨rfl, rfl⟩
    · cases hs
  · rw [he] at h
    exact ⟨hk, Option.some.inj h⟩
  · rw [he] at h
    cases k <;> cases h

/-- A message is handed on from the lock of the shared block, or from the test of `handle_`. -/
theorem Trans.gives (ht : Trans w act w') (h : (w'.disp d).gives = some p) :
    (w.disp d).gives = some p ∨ ∃ i, act = .dispatch d i ∧
      (w.disp d = .lock .shared p ∧
          Multimap.equalRange (w.registry .shared) p.msg.name ≠ [] ∨
        ∃ first a rest A, w.disp d = .visit .normal p first a rest .enter ∧
          w.awaits a = some A ∧ A.handle ≠ none) := by
  rcases ht.disp_eq d with he | ⟨i, rfl⟩
  · exact .inl (he ▸ h)
  -- inside the shared block the message is the one already being handed on
  have shared : ∀ {k : AwaitType} {first b : Addr} {rest : List Addr} {s : VisitPc},
      w.disp d = .visit k p first b rest s → k = .shared → (w.disp d).gives = some p := by
    rintro k first b rest s hd rfl
    rw [hd]
    rfl
  have visit : ∀ {k : AwaitType} {q : Packet} {first b : Addr} {rest : List Addr} {s s' : VisitPc},
      w.disp d = .visit k q first b rest s → (DispPc.visit k q first b rest s').gives = some p →
      (∀ h', s' ≠ .enqueue h') → (w.disp d).gives = some p := by
    intro k q first b rest s s' hd hg hs'
    obtain ⟨rfl, hk | ⟨-, h', he⟩⟩ := DispPc.gives_visit hg
    · exact shared hd hk
    · exact absurd he (hs' h')
  cases ht with
  | fetch => simp [DispPc.gives] at h
  | @lockNone _ _ k =>
    simp only [Function.update_self] at h
    cases k <;> cases h
  | lockSome hd hr =>
    simp only [Function.update_self] at h
    obtain ⟨rfl, rfl | ⟨-, h', he⟩⟩ := DispPc.gives_visit h
    · exact .inr ⟨i, rfl, .inl ⟨hd, by simp [hr]⟩⟩
    · cases he
  | skip hd | stateOther hd | awaitOther hd | noTimer hd | pushRemove hd =>
    simp only [Function.update_self] at h
    obtain ⟨hk, rfl⟩ := DispPc.gives_next h
    exact .inl (shared hd hk)
  | enter hd ha hh hs =>
    simp only [Function.update_self] at h
    obtain ⟨rfl, hk | ⟨rfl, h', -⟩⟩ := DispPc.gives_visit h
    · exact .inl (shared hd hk)
    · exact .inr ⟨i, rfl, .inr ⟨_, _, _, _, hd, ha, by simp [hh]⟩⟩
  | enqueue hd | writeData hd | storeState hd | loadTimer hd =>
    simp only [Function.update_self] at h
    exact .inl (visit hd h (by simp))
  | stateStop hd _ _ hs =>
    simp only [Function.update_self] at h
    refine .inl (visit hd h ?_)
    rcases hs with ⟨-, rfl⟩ | ⟨-, rfl⟩ <;> simp
  | awaitThis hd _ _ hs =>
    simp only [Function.update_self] at h
    refine .inl (visit hd h ?_)
    rcases hs with ⟨-, rfl⟩ | ⟨-, rfl⟩ | ⟨-, rfl⟩ <;> simp
  | pushQueue hd _ hpc =>
    simp only [Function.update_self] at h
    rcases hpc with ⟨-, rfl⟩ | ⟨-, rfl⟩ | ⟨-, rfl⟩
    · cases h
    · obtain ⟨hk, rfl⟩ := DispPc.gives_next h
      exact .inl (shared hd hk)
    · exact .inl (visit hd h (by simp))
  | sharedPush hd => simp [DispPc.gives] at h

/-- A coroutine comes to return from a `TempMessageAwait` by being marked `QueueResume` in its
suspension there. -/
theorem Wf.returning_from (hw : Wf w) (hs : SingleClaim w c) (ht : Trans w act w')
    (ha : w.awaits a = some A) (hty : A.type = .temp) (h : w'.returning c a) :
    w.returning c a ∨ w.ctl c = .suspended a ∧ ∃ d i k p first b rest, act = .dispatch d i ∧
      w.disp d = .visit k p first b rest (.storeState c) := by
  rcases h with ⟨s, h⟩ | ⟨h, hst⟩
  · left
    rcases ht.ctl_from c with he | hm
    · exact .inl ⟨s, he ▸ h⟩
    rw [h] at hm
    generalize hx : w.ctl c = x at hm
    cases hm with
    -- a `TempMessageAwait` is never ready
    | ready _ hb _ hB | readyShared _ hb _ hB =>
      obtain rfl := Option.some.inj (ha.symm.trans hb)
      rw [hty] at hB
      cases hB
    | @resume _ _ _ i e hi he =>
      refine .inr ⟨hx, fun hst => hs.stop_queue hst ?_⟩
      exact List.mem_map.2 ⟨e, List.mem_of_getElem? hi, he⟩
    | loadSuspend | dequeue | clearSuspend | storeRuning => exact .inl ⟨_, hx⟩
  · rcases ht.suspended h with hc | ⟨-, -, -, hstop⟩
    · by_cases hstop : (w.promise c).state = .stopState
      · rcases hw.state_kept hs ht hstop with hk | hd
        · exact absurd hk hst
        · exact .inr ⟨hc, hd⟩
      · exact .inl (.inr ⟨hc, hstop⟩)
    · exact absurd hstop hst

/-! ### The invariant -/

theorem privateTimeouts_storeState {i : ℕ} {first : Addr} {rest : List Addr}
    (h : privateTimeouts w (.dispatch d i) = true)
    (hd : w.disp d = .visit .temp p first a rest (.storeState c)) (ha : w.awaits a = some A) :
    A.data = p.msg ∧ (p.msg.isTimeoutMsg = true → p.timer = some A.timerId) := by
  simp only [privateTimeouts, hd, ha, Option.all_some, Bool.and_eq_true, decide_eq_true_eq,
    Bool.or_eq_true, Bool.not_eq_true'] at h
  refine ⟨h.1, fun hm => h.2.resolve_left ?_⟩
  simp [hm]

theorem privateTimeouts_writeData {i : ℕ} {first : Addr} {rest : List Addr}
    (h : privateTimeouts w (.dispatch d i) = true)
    (hd : w.disp d = .visit .temp p first a rest (.writeData c)) (ha : w.awaits a = some A)
    (hm : p.msg.isTimeoutMsg = true) : p.timer = some A.timerId := by
  simpa [privateTimeouts, hd, ha, hm] using h

/-- The timer of a message in flight has expired. -/
theorem TimersOk.expired_of_packet (hT : TimersOk w) {id : TimerId}
    (hp : (w.disp d).packet = some p) (hid : p.timer = some id) : w.expired id := by
  obtain ⟨T, hT, hexp, -⟩ := hT.origin p id ⟨d, .inr hp⟩ hid
  exact ⟨T, hT, hexp⟩

namespace Private

theorem origin_step (h : Private w) (ht : Trans w act w') (hok : plainPushes act = true)
    (p : Packet) (hp : w'.inFlight p) (hm : p.msg.isTimeoutMsg = true) :
    ∃ id, p.timer = some id := by
  rcases ht.inFlight hp with hp | hnew
  · exact h.origin p hp hm
  · cases hnew with
    | outside hact =>
      rcases hact with rfl | rfl <;> simp [plainPushes, hm] at hok
    | destructor _ hc => simp [h.destroying _ _ hc] at hm
    | removal _ _ he => simp [he, removeTimerMsg] at hm
    | callback _ _ _ _ hid => exact ⟨_, hid⟩

theorem given_step (h : Private w) (ht : Trans w act w') (hok : privateTimeouts w act = true)
    (d : Dispatcher) (p : Packet) (hg : (w'.disp d).gives = some p) :
    p.msg.isTimeoutMsg = false := by
  rcases ht.gives hg with hg | ⟨i, rfl, ⟨hd, hr⟩ | ⟨first, a, rest, A, hd, ha, hh⟩⟩
  · exact h.given d p hg
  · simpa [privateTimeouts, hd, hr] using hok
  · simpa [privateTimeouts, hd, ha, hh] using hok

theorem queue_step (h : Private w) (hw : Wf w) (hk : ∀ d, (w.disp d).ofKind = true)
    (ht : Trans w act w') (ha' : w'.awaits a = some A') : ∀ m ∈ A'.queue, m.isTimeoutMsg = false := by
  rcases (hw.awaitStep ht).backward ha' with ⟨A, ha, -⟩ | ⟨-, hf, -⟩
  · have hold := h.queue a A ha
    cases ht.edit ha ha' with
    | ready _ _ _ _ hq | dequeue _ hq => exact fun m hm => hold m (hq ▸ List.mem_cons_of_mem _ hm)
    | @enqueue d i k p first rest co _ hd =>
      intro m hm
      rcases List.mem_append.1 hm with hm | hm
      · exact hold m hm
      · have hkind := hk d
        rw [hd] at hkind
        obtain rfl : k = .normal := of_decide_eq_true hkind
        rw [List.mem_singleton.1 hm]
        exact h.given d p (by rw [hd]; rfl)
    | _ => exact hold
  · simp [hf.queue]

theorem sharedQueue_step (h : Private w) (ht : Trans w act w') (q : QueueId) :
    ∀ m ∈ w'.sharedQueues q, m.isTimeoutMsg = false := by
  intro m hm
  cases ht with
  | createQueue =>
    simp only [Function.update_apply] at hm
    split at hm
    · cases hm
    · exact h.sharedQueue q m hm
  | @readyShared c b B m' q' _ _ _ _ _ hq =>
    by_cases hqq : q = B.sharedQueue
    · subst hqq
      simp only [Function.update_self] at hm
      exact h.sharedQueue _ m (hq ▸ List.mem_cons_of_mem _ hm)
    · simp only [Function.update_of_ne hqq] at hm
      exact h.sharedQueue q m hm
  | @sharedPush d i p first F hd =>
    by_cases hqq : q = F.sharedQueue
    · subst hqq
      simp only [Function.update_self] at hm
      rcases List.mem_append.1 hm with hm | hm
      · exact h.sharedQueue _ m hm
      · rw [List.mem_singleton.1 hm]
        exact h.given d p (by rw [hd]; rfl)
    · simp only [Function.update_of_ne hqq] at hm
      exact h.sharedQueue q m hm
  | _ => exact h.sharedQueue q m hm

theorem data_step (h : Private w) (hw : Wf w) (hk : ∀ d, (w.disp d).ofKind = true)
    (ht : Trans w act w') (ha' : w'.awaits a = some A') (hty : A'.type ≠ .temp) :
    A'.data.isTimeoutMsg = false := by
  rcases (hw.awaitStep ht).backward ha' with ⟨A, ha, hkeep⟩ | ⟨-, hf, -⟩
  · rw [hkeep.type] at hty
    have hold := h.data a A ha hty
    cases ht.edit ha ha' with
    | ready _ _ _ _ hq | dequeue _ hq => exact h.queue a A ha _ (by rw [hq]; simp)
    | readyShared _ _ _ _ hq => exact h.sharedQueue _ _ (by rw [hq]; simp)
    | @writeData d i k p first rest co _ hd =>
      have hkind := hk d
      obtain rfl : A.type = k := (hw.visit_type hd ha).1
      cases hA : A.type with
      | shared => exact h.given d p (by rw [hd, hA]; rfl)
      | normal =>
        rw [hd, hA] at hkind
        cases hkind
      | temp => exact absurd hA hty
    | _ => exact hold
  · simp [hf.data]

theorem temp_step (h : Private w) (hw : Wf w) (hT : TimersOk w) (hs : ∀ c, SingleClaim w c)
    (hown : WakesOwn w act) (ht : Trans w act w') (hok : privateTimeouts w act = true)
    (ha' : w'.awaits a = some A') (hty : A'.type = .temp) (hm : A'.data.isTimeoutMsg = true)
    (hr : w'.returning A'.owner a) : w'.expired A'.timerId := by
  refine hT.expired ht ?_
  rcases (hw.awaitStep ht).backward ha' with ⟨A, ha, hkeep⟩ | ⟨-, hf, -⟩
  swap
  · simp [hf.data] at hm
  rw [hkeep.type] at hty
  rw [hkeep.owner] at hr
  have hfrom := hw.returning_from (hs A.owner) ht ha hty hr
  -- `data_` is as it was
  have old : A.data.isTimeoutMsg = true → w.expired A.timerId := by
    intro hm
    rcases hfrom with hr | ⟨hc, d, i, k, p, first, b, rest, rfl, hd⟩
    · exact h.temp a A ha hty hm hr
    · obtain rfl : b = a := by simpa [hc, eq_comm] using hown d i k p first b rest _ rfl hd
      obtain rfl : k = .temp := (hw.visit_type hd ha).1.symm.trans hty
      obtain ⟨hdata, htimer⟩ := privateTimeouts_storeState hok hd ha
      exact hT.expired_of_packet (by rw [hd]; rfl) (htimer (hdata ▸ hm))
  cases ht.edit ha ha' with
  | arm _ hc =>
    obtain rfl := hw.owner_of_at (by rw [hc]; rfl) ha
    rcases hfrom with (⟨s, hc'⟩ | ⟨hc', -⟩) | ⟨hc', -⟩ <;> rw [hc] at hc' <;> cases hc'
  | ready _ _ _ _ hq | dequeue _ hq =>
    exact absurd hm (by simp [h.queue a A ha _ (by rw [hq]; exact List.mem_cons_self)])
  | readyShared _ _ _ ht => simp [hty] at ht
  | @writeData d i k p first rest co hact hd =>
    subst hact
    obtain rfl : k = .temp := (hw.visit_type hd ha).1.symm.trans hty
    have htimer := privateTimeouts_writeData hok hd ha hm
    exact hT.expired_of_packet (by rw [hd]; rfl) htimer
  | _ => exact old hm

theorem destroying_step (h : Private w) (ht : Trans w act w') (c : CoId) (m : InternalMessage)
    (hc : w'.ctl c = .destroying m) : m.isTimeoutMsg = false := by
  rcases ht.destroying hc with hc | ⟨a, A, -, -, -, -, rfl⟩
  · exact h.destroying c m hc
  · rfl

/-- **One step.** -/
theorem step (h : Private w) (hw : Wf w) (hk : ∀ d, (w.disp d).ofKind = true) (hT : TimersOk w)
    (hs : ∀ c, SingleClaim w c) (hown : WakesOwn w act) (ht : Trans w act w')
    (hplain : plainPushes act = true) (hok : privateTimeouts w act = true) : Private w' where
  destroying := h.destroying_step ht
  origin := h.origin_step ht hplain
  given := h.given_step ht hok
  queue _ _ := h.queue_step hw hk ht
  sharedQueue := h.sharedQueue_step ht
  data _ _ := h.data_step hw hk ht
  temp _ _ := h.temp_step hw hT hs hown ht hok

theorem init : Private World.init := by
  refine ⟨fun c m hc => ?_, ?_, fun d p hg => ?_, fun a A ha m hm => ?_, fun q m hm => ?_,
    fun a A ha _ => ?_, fun a A ha hty => ?_⟩
  · rcases World.init_ctl c with h | ⟨-, h⟩ <;> rw [h] at hc <;> cases hc
  · rintro p ⟨d, hq | hd⟩
    · cases hq
    · cases hd
  · cases hg
  · obtain ⟨-, rfl⟩ := World.init_awaits ha
    cases hm
  · cases hm
  · obtain ⟨-, rfl⟩ := World.init_awaits ha
    rfl
  · obtain ⟨-, rfl⟩ := World.init_awaits ha
    cases hty

end Private

theorem private_of_reachable (h : Reachable (fun w act => timeoutsOwn w act = true) w) :
    Private w := by
  refine h.invariant (I := Private) Private.init fun s act s' hr ih hok hstep => ?_
  simp only [timeoutsOwn, Bool.and_eq_true] at hok
  have hr' : Reachable (fun w act => wakesSettled w act = true) s :=
    hr.mono fun w act hok => by
      simp only [timeoutsOwn, Bool.and_eq_true] at hok
      exact hok.2
  exact ih.step (wf_of_reachable hr) (ofKind_of_reachable hr) (timersOk_of_reachable hr)
    (fun c => (settled_of_reachable hr' c).1) (wakesOwn_step hr' hok.2) (trans_of_step hstep)
    hok.1.1 hok.1.2

/-- A message with `is_timeout_msg` that `co_await` is about to return is returned from a
`TempMessageAwait`, and the timer last armed on that await object has expired. -/
def TimeoutsPrivate (w : World) : Prop :=
  ∀ c a A, w.ctl c = .resuming a .ret → w.awaits a = some A → A.data.isTimeoutMsg = true →
    A.type = .temp ∧ w.expired A.timerId

/-- **Timeouts are private to the await that armed them**, along every run in which the dispatch of a
timeout message finds no `SharedMessageAwait` and no waiting `MessageAwait` of its name, a
`TempMessageAwait` is given one only by its present timer, and every wake finds what it checked and
wrote unchanged. -/
theorem timeoutsPrivate_of_timeoutsOwn
    (h : Reachable (fun w act => timeoutsOwn w act = true) w) : TimeoutsPrivate w := by
  intro c a A hc ha hm
  have hp := private_of_reachable h
  have hty : A.type = .temp := by
    by_contra hty
    simp [hp.data a A ha hty] at hm
  obtain rfl := (wf_of_reachable h).owner_of_at (by rw [hc]; rfl) ha
  exact ⟨hty, hp.temp a A ha hty hm (.inl ⟨_, hc⟩)⟩

/-- A coroutine has a `MessageAwait` and a `TempMessageAwait` of the same name, arms a timeout on the
second and waits on the first; the timer fires. -/
def sameName : List Action :=
  [Action.start 1, .body 1 (.createMessage 5 0 "m" 0 0),
    .body 1 (.createTemp 6 0 "m" 0 (fun _ => true) 0), .body 1 (.setTimeout 6), .run 1 0,
    .body 1 (.coAwait 5), .run 1 0, .run 1 0, .run 1 0, .late 0, .expire 2, .ioBegin 2, .ioStep] ++
  List.replicate 9 (Action.dispatch .normal 0) ++
  [Action.worker 0, .run 1 0, .run 1 0, .run 1 0, .run 1 0]

/-- A coroutine waits on a `TempMessageAwait` until its timeout. -/
def ownTimeout : List Action :=
  [Action.start 1, .body 1 (.createTemp 6 0 "m" 0 (fun _ => false) 0), .body 1 (.setTimeout 6),
    .run 1 0, .body 1 (.coAwait 6), .run 1 0, .run 1 0, .late 0, .expire 2, .ioBegin 2, .ioStep] ++
  List.replicate 10 (Action.dispatch .normal 0) ++ [Action.worker 0, .run 1 0]

/-- Without the condition a `MessageAwait` returns a timeout message. -/
theorem timeout_foreign :
    ∃ w, Reachable (fun _ act => plainPushes act = true) w ∧ ¬TimeoutsPrivate w := by
  have hrun : (Run.exec (Run.guarded step fun _ act => plainPushes act = true) World.init
      sameName).any (fun w => decide (w.ctl 1 = .resuming 5 .ret ∧
        ((w.awaits 5).any fun A => A.data.isTimeoutMsg && decide (A.type = .normal)) = true)) =
      true := by
    decide +kernel
  obtain ⟨w, hw, hc, ha⟩ := Run.exists_reach_of_exec_guarded hrun
  obtain ⟨A, ha, hA⟩ := (Option.any_eq_true ..).1 ha
  simp only [Bool.and_eq_true, decide_eq_true_eq] at hA
  refine ⟨w, hw, fun h => ?_⟩
  have hty := (h 1 5 A hc ha hA.1).1
  rw [hA.2] at hty
  cases hty

theorem timeoutsPrivate_ownTimeout :
    ∃ w, Reachable (fun w act => timeoutsOwn w act = true) w ∧ w.ctl 1 = .resuming 6 .ret ∧
      ((w.awaits 6).any fun A => A.data.isTimeoutMsg) = true ∧ TimeoutsPrivate w := by
  have hrun : (Run.exec (Run.guarded step fun w act => timeoutsOwn w act = true) World.init
      ownTimeout).any (fun w => decide (w.ctl 1 = .resuming 6 .ret ∧
        ((w.awaits 6).any fun A => A.data.isTimeoutMsg) = true)) = true := by
    decide +kernel
  obtain ⟨w, hw, hc, ha⟩ := Run.exists_reach_of_exec_guarded hrun
  exact ⟨w, hw, hc, ha, timeoutsPrivate_of_timeoutsOwn hw⟩

end DataProxy
