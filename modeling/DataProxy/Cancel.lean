import DataProxy.Timers

/-!
# Cancelled timers

`cancel_timer` aborts the wait of a timer if it is outstanding.  A handler that is already queued or
running is not stopped, and the handler of a periodic timer ends with a new wait, which nothing can
cancel any more since `timers` has lost the timer.

The history of a run says for each timer whether `cancel_timer` has returned true for it, and how
often its `func()` was called since.
-/

namespace DataProxy

open Function (update)

variable {w w' : World} {act : Action} {id : TimerId} {T : Timer} {n : ℕ}

/-- `func()` returns true. -/
def TimerFunc.periodic : TimerFunc → Bool
  | .keepAlive => true
  | .tick _ isloop => isloop
  | .timeout _ => false

/-- For each cancelled timer the calls of `func()` since `cancel_timer` returned true. -/
abbrev CancelLog := TimerId → Option ℕ

/-- What a step adds to the history. -/
def recordCancel (w : World) (act : Action) (log : CancelLog) : CancelLog :=
  match act with
  | .run c junk =>
    match w.ctl c with
    | .removing m =>
      if w.timers ((string2Int m.data).getD junk) then
        update log ((string2Int m.data).getD junk) (some 0) else log
    | _ => log
  | .ioStep =>
    match w.io with
    | .call id => update log id ((log id).map (· + 1))
    | _ => log
  | _ => log

/-- A timer for which `cancel_timer` returned true is not armed, and its `func()` was called at most
once since. -/
def StaysCancelled (x : World × CancelLog) : Prop :=
  ∀ id n, x.2 id = some n → n ≤ 1 ∧ ∀ T, x.1.timerAt id = some T → T.status ≠ .armed

/-- The condition on one step: a periodic timer that `timers` holds is cancelled only while its wait is
outstanding; and `sid_` does not wrap around. -/
def cancelsOutstanding (w : World) : Action → Bool
  | .run c junk =>
    match w.ctl c with
    | .removing m =>
      !w.timers ((string2Int m.data).getD junk) ||
        (w.timerAt ((string2Int m.data).getD junk)).all fun T =>
          !T.func.periodic || decide (T.status = .armed)
    | _ => true
  | .body _ (.createTime _) | .body _ (.setTimeout _) => decide (w.sid < uint64Max)
  | _ => true

/-! ### The life of a timer -/

/-- What a step can do to the timer `id`. -/
inductive TimerMove (w w' : World) (act : Action) (id : TimerId) : Prop
  | same (hT : w'.timerAt id = w.timerAt id) (hcall : w'.io = .call id ↔ w.io = .call id)
      (hre : w'.io = .rearm id ↔ w.io = .rearm id) (ht : w'.timers id = w.timers id)
      (hlog : ∀ log, recordCancel w act log id = log id)
  | start {func} (hid : id = w.sid + 1) (hT : w'.timerAt id = some { func := func })
      (hi : w'.io = w.io) (hlog : ∀ log, recordCancel w act log id = log id)
  | expire {T : Timer} (hT : w.timerAt id = some T) (hs : T.status = .armed)
      (hT' : w'.timerAt id = some { T with status := .queued, expired := true })
      (hi : w'.io = w.io) (ht : w'.timers id = w.timers id)
      (hlog : ∀ log, recordCancel w act log id = log id)
  | begin {T : Timer} (hT : w.timerAt id = some T) (hs : T.status = .queued) (hi : w.io = .idle)
      (hT' : w'.timerAt id = some { T with status := .idle }) (hi' : w'.io = .call id)
      (ht : w'.timers id = w.timers id) (hlog : ∀ log, recordCancel w act log id = log id)
  | call {T : Timer} (hT : w.timerAt id = some T) (hi : w.io = .call id) (hT' : w'.timerAt id = some T)
      (hi' : w'.io = if T.func.periodic then .rearm id else .idle)
      (ht : w'.timers id = w.timers id)
      (hlog : ∀ log, recordCancel w act log id = (log id).map (· + 1))
  | rearm {T : Timer} (hT : w.timerAt id = some T) (hi : w.io = .rearm id)
      (hT' : w'.timerAt id = some { T with status := .armed }) (hi' : w'.io = .idle)
      (ht : w'.timers id = w.timers id) (hlog : ∀ log, recordCancel w act log id = log id)
  | cancel (ht : w.timers id = true)
      (hT' : w'.timerAt id = (w.timerAt id).map fun T =>
        if T.status = .armed then { T with status := .idle } else T)
      (hi : w'.io = w.io) (ht' : w'.timers id = false)
      (hlog : ∀ log, recordCancel w act log id = some 0)
      (hok : cancelsOutstanding w act = true → ∀ T, w.timerAt id = some T →
        T.func.periodic = false ∨ T.status = .armed)

/-- Every transition is one of these for each timer. -/
theorem Trans.timerMove (ht : Trans w act w') (id : TimerId) : TimerMove w w' act id := by
  have same : w'.timerAt = w.timerAt → w'.io = w.io → w'.timers = w.timers →
      (∀ log, recordCancel w act log id = log id) → TimerMove w w' act id :=
    fun hT hi ht hlog => .same (by rw [hT]) (by rw [hi]) (by rw [hi]) (by rw [ht]) hlog
  cases ht with
  | createTime | setTimeout =>
    by_cases hid : id = w.sid + 1
    · subst hid
      exact .start rfl (Function.update_self ..) rfl fun _ => rfl
    · exact .same (Function.update_of_ne hid ..) Iff.rfl Iff.rfl (Function.update_of_ne hid ..)
        fun _ => rfl
  | arm hc | destroyPush hc | suspendFlag hc | suspendHandle hc | suspendState hc | loadSuspend hc
  | dequeue hc | spin hc | clearSuspend hc | storeRuning hc | nullFault hc | ret hc =>
    exact same rfl rfl rfl fun _ => by simp [recordCancel, hc]
  | cancelMiss hc _ htm => exact same rfl rfl rfl fun _ => by simp [recordCancel, hc, htm]
  | @cancel c m junk id' hc _ hid' htm =>
    subst hid'
    by_cases hid : id = (string2Int m.data).getD junk
    · subst hid
      refine .cancel htm (Function.update_self ..) rfl (Function.update_self ..)
        (fun log => by simp [recordCancel, hc, htm]) fun hok T hT => ?_
      simpa [cancelsOutstanding, hc, hT, htm] using hok
    · refine .same (Function.update_of_ne hid ..) Iff.rfl Iff.rfl (Function.update_of_ne hid ..)
        fun log => ?_
      simp [recordCancel, hc, htm, hid]
  | @expire id' T hT hs =>
    by_cases hid : id = id'
    · subst hid
      exact .expire hT hs (Function.update_self ..) rfl rfl fun _ => rfl
    · exact .same (Function.update_of_ne hid ..) Iff.rfl Iff.rfl rfl fun _ => rfl
  | @ioBegin id' T hT hi hs =>
    by_cases hid : id = id'
    · subst hid
      exact .begin hT hs hi (Function.update_self ..) rfl rfl fun _ => rfl
    · exact .same (Function.update_of_ne hid ..) (by simp [hi, Ne.symm hid]) (by simp [hi]) rfl
        fun _ => rfl
  | @ioKeepAlive id' T hi hT hf =>
    by_cases hid : id = id'
    · subst hid
      exact .call hT hi hT (by simp [hf, TimerFunc.periodic]) rfl fun _ => by
        simp [recordCancel, hi]
    · exact .same rfl (by simp [hi, Ne.symm hid]) (by simp [hi, Ne.symm hid]) rfl fun _ => by
        simp [recordCancel, hi, hid]
  | @ioTick id' T msgName isloop hi hT hf =>
    by_cases hid : id = id'
    · subst hid
      exact .call hT hi hT (by simp [hf, TimerFunc.periodic]) rfl fun _ => by
        simp [recordCancel, hi]
    · refine .same rfl ?_ ?_ rfl fun _ => by simp [recordCancel, hi, hid]
      · cases isloop <;> simp [hi, Ne.symm hid]
      · cases isloop <;> simp [hi, Ne.symm hid]
  | @ioTimeout id' T msgName hi hT hf =>
    by_cases hid : id = id'
    · subst hid
      exact .call hT hi hT (by simp [hf, TimerFunc.periodic]) rfl fun _ => by
        simp [recordCancel, hi]
    · exact .same rfl (by simp [hi, Ne.symm hid]) (by simp [hi]) rfl fun _ => by
        simp [recordCancel, hi, hid]
  | @ioRearm id' T hi hT =>
    by_cases hid : id = id'
    · subst hid
      exact .rearm hT hi (Function.update_self ..) rfl rfl fun _ => by simp [recordCancel, hi]
    · exact .same (Function.update_of_ne hid ..) (by simp [hi]) (by simp [hi, Ne.symm hid]) rfl
        fun _ => by simp [recordCancel, hi]
  | _ => exact same rfl rfl rfl fun _ => rfl

/-- The places of a timer exclude each other. -/
structure TimerPlaces (w : World) (id : TimerId) : Prop where
  known : w.timers id = true → ∃ T, w.timerAt id = some T
  alone : ∀ T, w.timerAt id = some T → T.status ≠ .idle → w.io ≠ .call id ∧ w.io ≠ .rearm id
  rearming : w.io = .rearm id → ∃ T, w.timerAt id = some T ∧ T.func.periodic = true

namespace TimerPlaces

theorem init (id : TimerId) : TimerPlaces World.init id where
  known h := by
    obtain rfl : id = 1 := of_decide_eq_true h
    exact ⟨_, rfl⟩
  alone T _ _ := ⟨by simp [World.init], by simp [World.init]⟩
  rearming h := by cases h

/-- **One step.** -/
theorem step (h : TimerPlaces w id) (hok : TimersOk w) (ht : Trans w act w') :
    TimerPlaces w' id := by
  cases ht.timerMove id with
  | same hT hcall hre ht =>
    refine ⟨fun hk => ?_, fun T hT' hs => ?_, fun hi => ?_⟩
    · rw [hT]
      exact h.known (ht ▸ hk)
    · rw [ne_eq, ne_eq, hcall, hre]
      exact h.alone T (hT ▸ hT') hs
    · rw [hT]
      exact h.rearming (hre.1 hi)
  | start hid hT hi =>
    -- a new id is nowhere in the hands of the `io_context`
    have fresh : ∀ S, w.timerAt id ≠ some S := by
      intro S hS
      exact absurd (hid ▸ hok.known id S hS) (Nat.not_succ_le_self _)
    have hre : w.io ≠ .rearm id := by
      intro he
      obtain ⟨S, hS, -⟩ := h.rearming he
      exact fresh S hS
    refine ⟨fun _ => ⟨_, hT⟩, fun T _ _ => ?_, fun he => absurd (hi ▸ he) hre⟩
    rw [hi]
    refine ⟨fun he => ?_, hre⟩
    obtain ⟨S, hS, -⟩ := hok.calling id he
    exact fresh S hS
  | expire hT hs hT' hi =>
    refine ⟨fun _ => ⟨_, hT'⟩, fun T _ _ => ?_, fun he => ?_⟩
    · rw [hi]
      exact h.alone _ hT (by simp [hs])
    · exact absurd (hi ▸ he) (h.alone _ hT (by simp [hs])).2
  | begin hT hs hi hT' hi' =>
    refine ⟨fun _ => ⟨_, hT'⟩, fun S hS hne => ?_, fun he => ?_⟩
    · rw [hT', Option.some.injEq] at hS
      exact absurd (by rw [← hS]) hne
    · rw [hi'] at he
      cases he
  | @call T hT hi hT' hi' =>
    refine ⟨fun _ => ⟨_, hT'⟩, fun S hS hne => ?_, fun he => ?_⟩
    · obtain rfl := Option.some.inj (hT'.symm.trans hS)
      exact absurd hi (h.alone _ hT hne).1
    · refine ⟨T, hT', ?_⟩
      rw [hi'] at he
      split at he
      · assumption
      · cases he
  | rearm hT hi hT' hi' =>
    refine ⟨fun _ => ⟨_, hT'⟩, fun S _ _ => by simp [hi'], fun he => ?_⟩
    rw [hi'] at he
    cases he
  | cancel ht hT' hi ht' =>
    refine ⟨fun hk => ?_, fun S hS hne => ?_, fun he => ?_⟩
    · rw [ht'] at hk
      cases hk
    · rw [hT'] at hS
      obtain ⟨T, hT, rfl⟩ := Option.map_eq_some_iff.1 hS
      rw [hi]
      refine h.alone T hT fun hs => ?_
      simp [hs] at hne
    · obtain ⟨T, hT, hp⟩ := h.rearming (hi ▸ he)
      refine ⟨_, by rw [hT', hT, Option.map_some], ?_⟩
      split <;> exact hp

end TimerPlaces

/-! ### After the cancellation -/

/-- The handlers of the timer that are queued or running before `func()`. -/
def World.invocations (w : World) (id : TimerId) : ℕ :=
  (if (w.timerAt id).any (fun T => decide (T.status = .queued)) then 1 else 0) +
    if w.io = .call id then 1 else 0

theorem World.invocations_congr (hT : w'.timerAt id = w.timerAt id)
    (hi : w'.io = .call id ↔ w.io = .call id) : w'.invocations id = w.invocations id := by
  simp only [World.invocations, hT, hi]

theorem World.invocations_of_some (hT : w.timerAt id = some T) :
    w.invocations id =
      (if T.status = .queued then 1 else 0) + if w.io = .call id then 1 else 0 := by
  simp [World.invocations, hT]

/-- There is one at most. -/
theorem TimerPlaces.invocations_le (h : TimerPlaces w id) : w.invocations id ≤ 1 := by
  unfold World.invocations
  by_cases hi : w.io = .call id
  · have hq : (w.timerAt id).any (fun T => decide (T.status = .queued)) = false := by
      cases hT : w.timerAt id with
      | none => rfl
      | some T =>
        simp only [Option.any_some, decide_eq_false_iff_not]
        intro hs
        exact (h.alone T hT (by simp [hs])).1 hi
    simp [hq, hi]
  · simp only [hi, if_false, Nat.add_zero]
    split <;> simp

/-- The timer was cancelled and its `func()` was called `n` times since. -/
structure Cancelled (w : World) (id : TimerId) (n : ℕ) : Prop where
  given : id ≤ w.sid
  removed : w.timers id = false
  armed : ∀ T, w.timerAt id = some T → T.status ≠ .armed
  last : ∀ T, w.timerAt id = some T → 0 < w.invocations id → T.func.periodic = false
  rearm : w.io ≠ .rearm id
  calls : n + w.invocations id ≤ 1

namespace Cancelled

/-- What `cancel_timer` leaves when it meets the condition. -/
theorem start (hp : TimerPlaces w id) (hp' : TimerPlaces w' id) (hle : id ≤ w'.sid)
    (hT : w.timerAt id = some T)
    (hT' : w'.timerAt id = some (if T.status = .armed then { T with status := .idle } else T))
    (hi : w'.io = w.io) (ht' : w'.timers id = false)
    (hc : T.func.periodic = false ∨ T.status = .armed) : Cancelled w' id 0 := by
  by_cases hs : T.status = .armed
  · obtain ⟨hcall, hre⟩ := hp.alone T hT (by simp [hs])
    rw [if_pos hs] at hT'
    have hno : w'.invocations id = 0 := by
      simp [World.invocations_of_some hT', hi, hcall]
    refine ⟨hle, ht', fun S hS => ?_, fun S _ hpos => ?_, hi ▸ hre, by simp [hno]⟩
    · obtain rfl := Option.some.inj (hT'.symm.trans hS)
      simp
    · rw [hno] at hpos
      cases hpos
  · rw [if_neg hs] at hT'
    have hper := hc.resolve_right hs
    refine ⟨hle, ht', fun S hS => ?_, fun S hS _ => ?_, fun he => ?_, ?_⟩
    · obtain rfl := Option.some.inj (hT'.symm.trans hS)
      exact hs
    · obtain rfl := Option.some.inj (hT'.symm.trans hS)
      exact hper
    · obtain ⟨S, hS, hSp⟩ := hp.rearming (hi ▸ he)
      obtain rfl := Option.some.inj (hT.symm.trans hS)
      rw [hper] at hSp
      cases hSp
    · rw [Nat.zero_add]
      exact hp'.invocations_le

/-- **One step** of the program after the cancellation. -/
theorem step (h : Cancelled w id n) (ht : Trans w act w') {log : CancelLog}
    (hlog : log id = some n) : ∃ n', recordCancel w act log id = some n' ∧ Cancelled w' id n' := by
  have hle : id ≤ w'.sid := Nat.le_trans h.given ht.sid_le
  cases ht.timerMove id with
  | same hT hcall hre htm hl =>
    refine ⟨n, (hl log).trans hlog, hle, htm.trans h.removed, fun S hS => h.armed S (hT ▸ hS),
      fun S hS hpos => ?_, fun he => h.rearm (hre.1 he), ?_⟩
    · rw [World.invocations_congr hT hcall] at hpos
      exact h.last S (hT ▸ hS) hpos
    · rw [World.invocations_congr hT hcall]
      exact h.calls
  | start hid => exact absurd (hid ▸ h.given) (Nat.not_succ_le_self _)
  | expire hT hs => exact absurd hs (h.armed _ hT)
  | @begin T hT hs hi hT' hi' htm hl =>
    have hone : w.invocations id = 1 := by simp [World.invocations_of_some hT, hs, hi]
    have hone' : w'.invocations id = 1 := by simp [World.invocations_of_some hT', hi']
    refine ⟨n, (hl log).trans hlog, hle, htm.trans h.removed, fun S hS => ?_, fun S hS _ => ?_,
      by simp [hi'], ?_⟩
    · obtain rfl := Option.some.inj (hT'.symm.trans hS)
      simp
    · obtain rfl := Option.some.inj (hT'.symm.trans hS)
      exact h.last T hT (by simp [hone])
    · have hcalls := h.calls
      omega
  | @call T hT hi hT' hi' htm hl =>
    have hpos : 0 < w.invocations id := by simp [World.invocations_of_some hT, hi]
    -- the last call: no new wait
    rw [h.last T hT hpos] at hi'
    have hrest : w.invocations id = w'.invocations id + 1 := by
      simp [World.invocations_of_some hT, World.invocations_of_some hT', hi, hi']
    have hcalls := h.calls
    refine ⟨n + 1, by rw [hl log, hlog]; rfl, hle, htm.trans h.removed, fun S hS => ?_,
      fun S hS _ => ?_, by simp [hi'], ?_⟩
    · obtain rfl := Option.some.inj (hT'.symm.trans hS)
      exact h.armed T hT
    · obtain rfl := Option.some.inj (hT'.symm.trans hS)
      exact h.last T hT hpos
    · omega
  | rearm _ hi => exact absurd hi h.rearm
  | cancel htm =>
    rw [h.removed] at htm
    cases htm

end Cancelled

/-- What holds of the timers and their history. -/
structure CancelInv (x : World × CancelLog) : Prop where
  timers : TimersOk x.1
  places : ∀ id, TimerPlaces x.1 id
  cancelled : ∀ id n, x.2 id = some n → Cancelled x.1 id n

/-- **One step** that meets the condition. -/
theorem CancelInv.step {x y : World × CancelLog} (h : CancelInv x)
    (hok : cancelsOutstanding x.1 act = true)
    (hs : Run.logged DataProxy.step recordCancel x act = some y) : CancelInv y := by
  obtain ⟨hstep, hy⟩ := Run.logged_eq_some.1 hs
  have ht := trans_of_step hstep
  have places := fun id => (h.places id).step h.timers ht
  refine ⟨h.timers.step ht, places, fun id n hn => ?_⟩
  rw [hy] at hn
  cases hlog : x.2 id with
  | some m =>
    obtain ⟨n', hn', hc⟩ := (h.cancelled id m hlog).step ht hlog
    obtain rfl := Option.some.inj (hn'.symm.trans hn)
    exact hc
  | none =>
    cases ht.timerMove id with
    | same _ _ _ _ hl | start _ _ _ hl | expire _ _ _ _ _ hl | begin _ _ _ _ _ _ hl
    | rearm _ _ _ _ _ hl =>
      rw [hl, hlog] at hn
      cases hn
    | call _ _ _ _ _ hl =>
      rw [hl, hlog] at hn
      cases hn
    | cancel htm hT' hi ht' hl hc =>
      obtain rfl : 0 = n := Option.some.inj ((hl _).symm.trans hn)
      obtain ⟨T, hT⟩ := (h.places id).known htm
      rw [hT, Option.map_some] at hT'
      exact .start (h.places id) (places id) (Nat.le_trans (h.timers.known id T hT) ht.sid_le) hT hT' hi
        ht' (hc hok T hT)

/-- **A cancelled periodic timer stays cancelled**, along every run in which a periodic timer is
cancelled only while its wait is outstanding. -/
theorem staysCancelled_of_cancelsOutstanding {x : World × CancelLog}
    (h : Run.Reach (Run.logged step recordCancel) (fun x act => cancelsOutstanding x.1 act = true)
      (World.init, fun _ => none) x) : StaysCancelled x := by
  have hinv : CancelInv x := by
    refine h.invariant (I := CancelInv) ?_ fun _ _ _ _ ih hok hs => ih.step hok hs
    exact ⟨TimersOk.init, TimerPlaces.init, fun id n hn => by cases hn⟩
  intro id n hn
  have hc := hinv.cancelled id n hn
  exact ⟨Nat.le_of_add_right_le hc.calls, hc.armed⟩

/-- The message of the destructor goes to the remover, which calls `cancel_timer`. -/
def removalDelivered : List Action :=
  [Action.body 1 (.destroy 5), .run 1 0] ++ List.replicate 9 (Action.dispatch .normal 0) ++
  [Action.worker 0] ++ List.replicate 6 (Action.run 0 0)

/-- A looping `create_time_await`. -/
def ticking : List Action :=
  [.start 1, .body 1 (.createTime true), .registerTime 1 5 0]

/-- The handler is queued when the timer is cancelled; it ends with a new wait. -/
theorem rearmed_after_cancel :
    ∃ x : World × CancelLog, Run.Reach (Run.logged step recordCancel) Run.Any
      (World.init, fun _ => none) x ∧ ¬StaysCancelled x := by
  have hrun : (Run.exec (Run.logged step recordCancel) (World.init, fun _ => none)
      (ticking ++ [.expire 2] ++ removalDelivered ++ [.ioBegin 2, .ioStep, .ioStep])).any
      (fun x => decide (x.2 2 = some 1 ∧
        ((x.1.timerAt 2).any fun T => decide (T.status = .armed)) = true)) = true := by
    decide +kernel
  obtain ⟨x, hx, hlog, harmed⟩ := Run.exists_reach_of_exec hrun
  refine ⟨x, hx, fun h => ?_⟩
  obtain ⟨T, hT, hs⟩ := (Option.any_eq_true ..).1 harmed
  exact (h 2 1 hlog).2 T hT (of_decide_eq_true hs)

theorem staysCancelled_ticking :
    ∃ x : World × CancelLog, x.2 2 = some 0 ∧ Run.Reach (Run.logged step recordCancel)
      (fun x act => cancelsOutstanding x.1 act = true) (World.init, fun _ => none) x ∧
      StaysCancelled x := by
  have hrun : (Run.exec (Run.guarded (Run.logged step recordCancel)
      fun x act => cancelsOutstanding x.1 act = true) (World.init, fun _ => none)
      (ticking ++ removalDelivered)).any (fun x => decide (x.2 2 = some 0)) = true := by
    decide +kernel
  obtain ⟨x, hx, hlog⟩ := Run.exists_reach_of_exec_guarded hrun
  exact ⟨x, hlog, hx, staysCancelled_of_cancelsOutstanding hx⟩

end DataProxy
