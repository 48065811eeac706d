import DataProxy.Consumers

/-!
# Timers and the messages they push

What holds in every run: an id from `get_id` is never given twice, a timer keeps its callback, a
handler is queued only after its timer has expired, and a message in the bus that a callback pushed
is the message of that callback.

`TimerStep` says once what a step can do to the timers, `Pushed` which messages a step can push.
-/

namespace DataProxy

open Function (update)

variable {w w' : World} {act : Action} {id : TimerId} {p : Packet}

/-- The message that a callback pushes. -/
def TimerFunc.message : TimerFunc → Option InternalMessage
  | .keepAlive => none
  | .tick msgName _ => some { name := msgName }
  | .timeout msgName => some { name := msgName, isTimeoutMsg := true }

/-- The timer has expired since it was armed. -/
def World.expired (w : World) (id : TimerId) : Prop :=
  ∃ T, w.timerAt id = some T ∧ T.expired = true

/-- The message is in a bus queue or being dispatched. -/
def World.inFlight (w : World) (p : Packet) : Prop :=
  ∃ d, p ∈ w.busQueue d ∨ (w.disp d).packet = some p

/-! ### What a step can do -/

/-- What a step can do to the timers. -/
inductive TimerStep (w w' : World) : Prop
  | keep (h : w'.timerAt = w.timerAt) (hs : w'.sid = w.sid)
  | start (func : TimerFunc)
      (hfunc : (∃ l, func = .tick (timeName (w.sid + 1)) l) ∨
        ∃ a A, w.awaits a = some A ∧ A.type = .temp ∧ func = .timeout A.waitMessageName)
      (h : w'.timerAt = update w.timerAt (w.sid + 1) (some { func := func }))
      (hs : w'.sid = w.sid + 1)
  | edit {id : TimerId} {T T' : Timer} (hT : w.timerAt id = some T)
      (h : w'.timerAt = update w.timerAt id (some T')) (hf : T'.func = T.func)
      (he : T.expired = true → T'.expired = true)
      (hq : T'.status = .queued → T.status = .queued ∨ T'.expired = true) (hs : w'.sid = w.sid)

theorem Trans.timerStep (ht : Trans w act w') : TimerStep w w' := by
  cases ht with
  | createTime => exact .start _ (.inl ⟨_, rfl⟩) rfl rfl
  | setTimeout _ _ ha _ hty => exact .start _ (.inr ⟨_, _, ha, hty, rfl⟩) rfl rfl
  | @cancel c m junk id =>
    cases hT : w.timerAt id with
    | none =>
      refine .keep ?_ rfl
      simp [hT]
    | some T =>
      -- only an outstanding wait changes
      refine .edit hT (by simp only [Option.map_some]; rfl) ?_ ?_ ?_ rfl
      · split <;> rfl
      · intro he
        split <;> exact he
      · intro hq
        split at hq
        · cases hq
        · exact .inl hq
  | expire hT => exact .edit hT rfl rfl (fun _ => rfl) (fun _ => .inr rfl) rfl
  | ioBegin hT => exact .edit hT rfl rfl (fun he => he) (fun hq => by cases hq) rfl
  | ioRearm _ hT => exact .edit hT rfl rfl (fun he => he) (fun hq => by cases hq) rfl
  | _ => exact .keep rfl rfl

/-- The messages that a step can push to the bus. -/
inductive Pushed (w : World) (act : Action) (p : Packet) : Prop
  | outside (hact : act = .push p.msg ∨ act = .pushHigh p.msg) (hp : p.timer = none)
  | destructor {c junk} (hact : act = .run c junk) (hc : w.ctl c = .destroying p.msg)
      (hp : p.timer = none)
  | removal {d i k q first a rest id} (hact : act = .dispatch d i)
      (hd : w.disp d = .visit k q first a rest (.pushRemove id)) (hm : p.msg = removeTimerMsg id)
      (hp : p.timer = none)
  | callback {id T} (hact : act = .ioStep) (hi : w.io = .call id) (hT : w.timerAt id = some T)
      (hm : T.func.message = some p.msg) (hp : p.timer = some id)

/-- A coroutine has a message of a destructor to push only after it destroyed an await of
`create_time_await`. -/
theorem Trans.destroying (ht : Trans w act w') {c : CoId} {m : InternalMessage}
    (h : w'.ctl c = .destroying m) :
    w.ctl c = .destroying m ∨ ∃ a A, act = .body c (.destroy a) ∧ w.awaits a = some A ∧
      A.type = .temp ∧ hasTimePrefix A.waitMessageName = true ∧
      m = destructorMsg A.waitMessageName := by
  rcases ht.ctl_from c with he | hm
  · exact .inl (he ▸ h)
  rw [h] at hm
  generalize w.ctl c = x at hm
  cases hm with
  | destroyTime hact ha hty hp => exact .inr ⟨_, _, hact, ha, hty, hp, rfl⟩

/-- An enqueue adds one message. -/
theorem mem_update_append {f : Dispatcher → List Packet} {d d' : Dispatcher} {q : Packet}
    (h : p ∈ update f d (f d ++ [q]) d') : p ∈ f d' ∨ p = q := by
  by_cases hdd : d' = d
  · subst hdd
    rw [Function.update_self] at h
    simpa using h
  · rw [Function.update_of_ne hdd] at h
    exact .inl h

/-- An enqueue keeps what is in the queues. -/
theorem mem_append_update {f : Dispatcher → List Packet} {d d' : Dispatcher} {q : Packet}
    (h : p ∈ f d') : p ∈ update f d (f d ++ [q]) d' := by
  by_cases hdd : d' = d
  · subst hdd
    simp [h]
  · rwa [Function.update_of_ne hdd]

/-- A message stays in its queue until its dispatcher takes it. -/
theorem Trans.fetched (ht : Trans w act w') {d : Dispatcher} (hp : p ∈ w.busQueue d) :
    p ∈ w'.busQueue d ∨ w'.disp d = .lock .shared p := by
  cases ht with
  | push | pushHigh | destroyPush | pushRemove | ioTick | ioTimeout =>
    exact .inl (mem_append_update hp)
  | @fetch d' i q hd _ hi =>
    by_cases hdd : d = d'
    · subst hdd
      rcases (Bag.mem_take_iff hi).1 hp with rfl | hp
      · exact .inr (Function.update_self ..)
      · exact .inl (by simpa using hp)
    · exact .inl (by simpa [hdd] using hp)
  | _ => exact .inl hp

/-- Where the messages in a bus queue come from. -/
theorem Trans.mem_busQueue (ht : Trans w act w') {d : Dispatcher} (h : p ∈ w'.busQueue d) :
    p ∈ w.busQueue d ∨ Pushed w act p := by
  cases ht with
  | push m =>
    refine (mem_update_append h).imp_right ?_
    rintro rfl
    exact .outside (.inl rfl) rfl
  | pushHigh m =>
    refine (mem_update_append h).imp_right ?_
    rintro rfl
    exact .outside (.inr rfl) rfl
  | destroyPush hc =>
    refine (mem_update_append h).imp_right ?_
    rintro rfl
    exact .destructor rfl hc rfl
  | pushRemove hd =>
    refine (mem_update_append h).imp_right ?_
    rintro rfl
    exact .removal rfl hd rfl rfl
  | ioTick hi hT hf =>
    refine (mem_update_append h).imp_right ?_
    rintro rfl
    exact .callback rfl hi hT (by rw [hf]; rfl) rfl
  | ioTimeout hi hT hf =>
    refine (mem_update_append h).imp_right ?_
    rintro rfl
    exact .callback rfl hi hT (by rw [hf]; rfl) rfl
  | @fetch d' i q =>
    left
    by_cases hdd : d = d'
    · subst hdd
      simp only [Function.update_self] at h
      exact List.mem_of_mem_eraseIdx h
    · simpa only [Function.update_of_ne hdd] using h
  | _ => exact .inl h

/-- Where the messages in flight come from. -/
theorem Trans.inFlight (ht : Trans w act w') (h : w'.inFlight p) :
    w.inFlight p ∨ Pushed w act p := by
  obtain ⟨d, hq | hd⟩ := h
  · exact (ht.mem_busQueue hq).imp_left fun hq => ⟨d, .inl hq⟩
  · rcases ht.packet hd with hd | hq
    · exact .inl ⟨d, .inr hd⟩
    · exact .inl ⟨d, .inl hq⟩

/-! ### What holds of the timers -/

/-- The invariant of the timers. -/
structure TimersOk (w : World) : Prop where
  known : ∀ id T, w.timerAt id = some T → id ≤ w.sid
  queued : ∀ id T, w.timerAt id = some T → T.status = .queued → T.expired = true
  calling : ∀ id, w.io = .call id → w.expired id
  origin : ∀ p id, w.inFlight p → p.timer = some id →
    ∃ T, w.timerAt id = some T ∧ T.expired = true ∧ T.func.message = some p.msg

/-- Ids only grow. -/
theorem Trans.sid_le (ht : Trans w act w') : w.sid ≤ w'.sid := by
  cases ht.timerStep with
  | keep _ hs => exact Nat.le_of_eq hs.symm
  | start _ _ _ hs => exact hs ▸ Nat.le_succ _
  | edit _ _ _ _ _ hs => exact Nat.le_of_eq hs.symm

/-- `sid_` stays in range if there is room wherever an id is given out. -/
theorem Trans.sid_small (ht : Trans w act w') (h : w.sid ≤ uint64Max)
    (room : ∀ c, (∃ l, act = .body c (.createTime l)) ∨ (∃ a, act = .body c (.setTimeout a)) →
      w.sid < uint64Max) : w'.sid ≤ uint64Max := by
  cases ht with
  | createTime => exact room _ (.inl ⟨_, rfl⟩)
  | setTimeout => exact room _ (.inr ⟨_, rfl⟩)
  | _ => exact h

namespace TimersOk

/-- A timer keeps its callback and stays expired. -/
theorem forward (h : TimersOk w) (ht : Trans w act w') {T : Timer} (hT : w.timerAt id = some T) :
    ∃ T', w'.timerAt id = some T' ∧ T'.func = T.func ∧ (T.expired = true → T'.expired = true) := by
  cases ht.timerStep with
  | keep he => exact ⟨T, he ▸ hT, rfl, fun he => he⟩
  | start func _ he =>
    have hne : id ≠ w.sid + 1 := by
      rintro rfl
      exact absurd (h.known _ _ hT) (Nat.not_succ_le_self _)
    exact ⟨T, by rw [he, Function.update_of_ne hne, hT], rfl, fun he => he⟩
  | @edit id' S S' hS he hf hexp =>
    by_cases hid : id = id'
    · subst hid
      obtain rfl : T = S := Option.some.inj (hT.symm.trans hS)
      exact ⟨S', by rw [he, Function.update_self], hf, hexp⟩
    · exact ⟨T, by rw [he, Function.update_of_ne hid, hT], rfl, fun he => he⟩

/-- An expired timer stays expired. -/
theorem expired (h : TimersOk w) (ht : Trans w act w') (he : w.expired id) : w'.expired id := by
  obtain ⟨T, hT, hexp⟩ := he
  obtain ⟨T', hT', -, hexp'⟩ := h.forward ht hT
  exact ⟨T', hT', hexp' hexp⟩

theorem init : TimersOk World.init where
  known id T hT := by
    obtain ⟨rfl, -⟩ := World.init_timerAt hT
    exact Nat.le_refl 1
  queued id T hT hq := by
    obtain ⟨-, rfl⟩ := World.init_timerAt hT
    cases hq
  calling id hi := by cases hi
  origin p id hp := by
    obtain ⟨d, hq | hd⟩ := hp
    · cases hq
    · cases hd

theorem known_step (h : TimersOk w) (ht : Trans w act w') (id : TimerId) (T : Timer)
    (hT : w'.timerAt id = some T) : id ≤ w'.sid := by
  cases ht.timerStep with
  | keep he hs =>
    rw [hs]
    exact h.known id T (he ▸ hT)
  | start func _ he hs =>
    rw [hs]
    by_cases hid : id = w.sid + 1
    · exact Nat.le_of_eq hid
    · rw [he, Function.update_of_ne hid] at hT
      exact Nat.le_succ_of_le (h.known id T hT)
  | @edit id' S S' hS he _ _ _ hs =>
    rw [hs]
    by_cases hid : id = id'
    · subst hid
      exact h.known id S hS
    · rw [he, Function.update_of_ne hid] at hT
      exact h.known id T hT

theorem queued_step (h : TimersOk w) (ht : Trans w act w') (id : TimerId) (T : Timer)
    (hT : w'.timerAt id = some T) (hq : T.status = .queued) : T.expired = true := by
  cases ht.timerStep with
  | keep he => exact h.queued id T (he ▸ hT) hq
  | start func _ he =>
    by_cases hid : id = w.sid + 1
    · rw [he, hid, Function.update_self, Option.some.injEq] at hT
      subst hT
      cases hq
    · rw [he, Function.update_of_ne hid] at hT
      exact h.queued id T hT hq
  | @edit id' S S' hS he hf hexp hqueued =>
    by_cases hid : id = id'
    · subst hid
      rw [he, Function.update_self, Option.some.injEq] at hT
      subst hT
      exact (hqueued hq).elim (fun hq' => hexp (h.queued id S hS hq')) (fun he' => he')
    · rw [he, Function.update_of_ne hid] at hT
      exact h.queued id T hT hq

theorem calling_step (h : TimersOk w) (ht : Trans w act w') (id : TimerId)
    (hi : w'.io = .call id) : w'.expired id := by
  have same : w'.io = w.io → w'.expired id := fun he => h.expired ht (h.calling id (he ▸ hi))
  cases ht with
  | ioBegin hT _ hq =>
    cases hi
    have hexp := h.queued _ _ hT hq
    exact ⟨_, Function.update_self .., hexp⟩
  | ioKeepAlive | ioTimeout | ioRearm => cases hi
  | ioTick =>
    simp only at hi
    split at hi <;> cases hi
  | _ => exact same rfl

theorem origin_step (h : TimersOk w) (ht : Trans w act w') (p : Packet) (id : TimerId)
    (hp : w'.inFlight p) (hid : p.timer = some id) :
    ∃ T, w'.timerAt id = some T ∧ T.expired = true ∧ T.func.message = some p.msg := by
  obtain ⟨T, hT, hexp, hm⟩ :
      ∃ T, w.timerAt id = some T ∧ T.expired = true ∧ T.func.message = some p.msg := by
    rcases ht.inFlight hp with hp | hnew
    · exact h.origin p id hp hid
    · cases hnew with
      | outside _ hno | destructor _ _ hno | removal _ _ _ hno =>
        rw [hno] at hid
        cases hid
      | @callback id' T _ hi hT hm hid' =>
        obtain rfl : id' = id := Option.some.inj (hid'.symm.trans hid)
        obtain ⟨T', hT', hexp⟩ := h.calling id' hi
        obtain rfl : T = T' := Option.some.inj (hT.symm.trans hT')
        exact ⟨T, hT, hexp, hm⟩
  obtain ⟨T', hT', hf, hexp'⟩ := h.forward ht hT
  exact ⟨T', hT', hexp' hexp, by rw [hf, hm]⟩

/-- **One step.** -/
theorem step (h : TimersOk w) (ht : Trans w act w') : TimersOk w' :=
  ⟨h.known_step ht, h.queued_step ht, h.calling_step ht, h.origin_step ht⟩

end TimersOk

theorem timersOk_of_reachable {ok : World → Action → Prop} (h : Reachable ok w) : TimersOk w :=
  h.invariant (I := TimersOk) TimersOk.init fun _ _ _ _ ih _ hs => ih.step (trans_of_step hs)

end DataProxy
