import DataProxy.Removal

/-!
# The way out of a timed wait

The message of a timer ends the wait it was armed for, if it comes at all and if it finds the
coroutine waiting.  `Comes` follows it from the timer through the callback and the bus up to the
await: as long as the await waits for the timer, the timer is active, its callback is running, or
its message is in the bus, held by a dispatcher that has not finished with that await.

The chain breaks in three places.  A message that finds its coroutine not yet suspended is dropped
(`findsWaiting`); a removal can hit the timer of the next wait (`removesSpent`); and the names
`TimerMgr` uses can be used by others (`reserved`).
-/

namespace DataProxy

open Function (update)

variable {w w' : World} {act : Action} {a b : Addr} {A A' : Await} {t : TimerId} {d : Dispatcher}
  {k : AwaitType} {p : Packet} {first : Addr} {rest : List Addr} {s : VisitPc}

/-- The timer is active, its callback is running, or its message is in a bus queue. -/
def World.pending (w : World) (t : TimerId) : Prop :=
  (∃ T, w.timerAt t = some T ∧ T.status ≠ .idle) ∨ w.io = .call t ∨
    ∃ d, ∃ p ∈ w.busQueue d, p.timer = some t

/-- The dispatcher holds the message of the timer and has not taken the lock of the temporary
awaits. -/
def DispPc.early (t : TimerId) : DispPc → Prop
  | .fetch => False
  | .lock _ p | .sharedPush p _ => p.timer = some t
  | .visit k p _ _ _ _ => k ≠ .temp ∧ p.timer = some t

/-- The delivery has not yet marked the coroutine. -/
def VisitPc.testing : VisitPc → Bool
  | .enter | .loadState _ | .loadAwait _ | .writeData _ | .storeState _ => true
  | .enqueue _ | .pushQueue _ | .loadTimer | .pushRemove _ => false

/-- The dispatcher holds the message of the timer and has not finished with the await at `a`. -/
def DispPc.ahead (t : TimerId) (a : Addr) (pc : DispPc) : Prop :=
  pc.early t ∨ ∃ p first b rest s, pc = .visit .temp p first b rest s ∧ p.timer = some t ∧
    (a ∈ rest ∨ a = b ∧ s.testing = true)

/-- What the next test of the delivery is about. -/
def World.finds (w : World) (a : Addr) (A : Await) : VisitPc → Bool
  | .enter => decide (A.handle ≠ none)
  | .loadState h => decide ((w.promise h).state = .stopState)
  | .loadAwait h => decide ((w.promise h).await = some a)
  | .storeState h => decide (w.ctl h = .suspended a)
  | _ => true

instance (A : Await) (t : TimerId) : Decidable (A.timedBy t) :=
  inferInstanceAs (Decidable (_ ∨ _))

/-- The condition on one step: a delivery of the message of a timer to the await that waits for it
finds the coroutine waiting there, and does not come before the await is registered. -/
def findsWaiting (w : World) : Action → Bool
  | .dispatch d _ =>
    match w.disp d with
    | .lock .temp p =>
      p.timer.all fun t => w.timersMutex.all fun c => decide (w.ctl c ≠ .creatingTime t false)
    | .visit .temp p _ a _ s =>
      p.timer.all fun t => (w.awaits a).all fun A => !decide (A.timedBy t) || w.finds a A s
    | _ => true
  | _ => true

/-- The condition on one step. -/
def keepsWayOut (w : World) (act : Action) : Bool :=
  reserved w act && removesSpent w act && findsWaiting w act

/-! ### The way of a message -/

/-- A queued message stays in the queue until its dispatcher takes it. -/
theorem Trans.queued_or_early (ht : Trans w act w') (hp : p ∈ w.busQueue d)
    (hid : p.timer = some t) : w'.pending t ∨ (w'.disp d).early t := by
  rcases ht.fetched hp with hp | hd
  · exact .inl (.inr (.inr ⟨d, p, hp, hid⟩))
  · right
    rw [hd]
    exact hid

/-- The message of a timer that nobody cancels stays on its way to the dispatcher. -/
theorem World.pending.step (h : w.pending t) (hT : TimersOk w) (ht : Trans w act w')
    (hfunc : ∀ T, w.timerAt t = some T → T.func ≠ .keepAlive)
    (hcancel : ∀ c m junk, w.ctl c = .removing m → (string2Int m.data).getD junk ≠ t) :
    w'.pending t ∨ ∃ d, (w'.disp d).early t := by
  rcases h with ⟨T, hTt, hs⟩ | hi | ⟨d, p, hp, hid⟩
  · left
    have same : w'.timerAt t = w.timerAt t → w'.pending t :=
      fun he => .inl ⟨T, he.trans hTt, hs⟩
    have new : t ≠ w.sid + 1 := by
      rintro rfl
      exact absurd (hT.known _ T hTt) (Nat.not_succ_le_self _)
    cases ht with
    | createTime => exact same (Function.update_of_ne new ..)
    | setTimeout => exact same (Function.update_of_ne new ..)
    | @cancel c m junk id hc _ hid =>
      have hne : t ≠ id := by
        rintro rfl
        exact hcancel c m junk hc hid.symm
      exact same (Function.update_of_ne hne ..)
    | @expire id S =>
      by_cases hid : t = id
      · subst hid
        exact .inl ⟨_, Function.update_self .., by simp⟩
      · exact same (Function.update_of_ne hid ..)
    | @ioBegin id S =>
      by_cases hid : t = id
      · subst hid
        exact .inr (.inl rfl)
      · exact same (Function.update_of_ne hid ..)
    | @ioRearm id S =>
      by_cases hid : t = id
      · subst hid
        exact .inl ⟨_, Function.update_self .., by simp⟩
      · exact same (Function.update_of_ne hid ..)
    | _ => exact same rfl
  · left
    have same : w'.io = w.io → w'.pending t := fun he => .inr (.inl (he.trans hi))
    cases ht with
    | ioBegin _ hi' | ioRearm hi' =>
      rw [hi] at hi'
      cases hi'
    | ioKeepAlive hi' hTt hf =>
      rw [hi] at hi'
      cases hi'
      exact absurd hf (hfunc _ hTt)
    | @ioTick id S msgName isloop hi' =>
      rw [hi] at hi'
      cases hi'
      exact .inr (.inr ⟨.high, ⟨{ name := msgName }, some t⟩, by simp, rfl⟩)
    | @ioTimeout id S msgName hi' =>
      rw [hi] at hi'
      cases hi'
      exact .inr (.inr
        ⟨.normal, ⟨{ name := msgName, isTimeoutMsg := true }, some t⟩, by simp, rfl⟩)
    | _ => exact same rfl
  · exact (ht.queued_or_early hp hid).imp_right fun h => ⟨d, h⟩

theorem DispPc.early_next (hk : k ≠ .temp) (hp : p.timer = some t) :
    (DispPc.next k p first rest).early t := by
  rcases DispPc.next_cases k p first rest with ⟨b, r, -, he⟩ | ⟨-, he⟩ | ⟨-, he⟩
  · rw [he]
    exact ⟨hk, hp⟩
  · rw [he]
    exact hp
  · rw [he]
    cases k with
    | shared | normal => exact hp
    | temp => exact absurd rfl hk

/-- A dispatcher carries the message on to the lock of the temporary awaits. -/
theorem Trans.early (ht : Trans w act w') (h : (w.disp d).early t) :
    (w'.disp d).early t ∨
      ∃ i p, act = .dispatch d i ∧ w.disp d = .lock .temp p ∧ p.timer = some t := by
  rcases ht.disp_eq d with he | ⟨i, rfl⟩
  · exact .inl (he ▸ h)
  cases ht with
  | fetch hd =>
    rw [hd] at h
    cases h
  | @lockNone _ _ k p hd =>
    have hp : p.timer = some t := by rw [hd] at h; exact h
    simp only [Function.update_self]
    cases k with
    | shared | normal => exact .inl hp
    | temp => exact .inr ⟨i, p, rfl, hd, hp⟩
  | @lockSome _ _ k p _ _ hd =>
    have hp : p.timer = some t := by rw [hd] at h; exact h
    simp only [Function.update_self]
    by_cases hk : k = .temp
    · subst hk
      exact .inr ⟨i, p, rfl, hd, hp⟩
    · exact .inl ⟨hk, hp⟩
  | skip hd | stateOther hd | awaitOther hd | noTimer hd | pushRemove hd =>
    rw [hd] at h
    simp only [Function.update_self]
    exact .inl (DispPc.early_next h.1 h.2)
  | enter hd | enqueue hd | stateStop hd | awaitThis hd | writeData hd | storeState hd
  | loadTimer hd =>
    rw [hd] at h
    simp only [Function.update_self]
    exact .inl h
  | pushQueue hd _ hpc =>
    rw [hd] at h
    simp only [Function.update_self]
    rcases hpc with ⟨-, rfl⟩ | ⟨-, rfl⟩ | ⟨hk, -⟩
    · exact .inl h.2
    · exact .inl (DispPc.early_next h.1 h.2)
    · exact absurd hk h.1
  | sharedPush hd =>
    rw [hd] at h
    simp only [Function.update_self]
    exact .inl h

theorem DispPc.ahead_next (ha : a ∈ rest) (hp : p.timer = some t) :
    (DispPc.next .temp p first rest).ahead t a := by
  cases rest with
  | nil => cases ha
  | cons b r =>
    refine .inr ⟨p, first, b, r, .enter, rfl, hp, ?_⟩
    rcases List.mem_cons.1 ha with rfl | ha
    · exact .inr ⟨rfl, rfl⟩
    · exact .inl ha

/-- The message of the timer an await waits for: it has the name of the await, and the await does
not turn it away. -/
theorem TimerUse.message (hu : TimerUse w) (ha : w.awaits a = some A) (hA : A.timedBy t) :
    A.type = .temp ∧ ∃ T m, w.timerAt t = some T ∧ T.func.message = some m ∧
      m.name = A.waitMessageName ∧ (A.filter m = true ∨ m.isTimeoutMsg = true) := by
  rcases hA with hA | hA
  · obtain ⟨hty, T, hT, hf⟩ := hu.timeoutFor a A t ha hA
    exact ⟨hty, T, _, hT, by rw [hf]; rfl, rfl, .inr rfl⟩
  · obtain ⟨hty, hn, hfilter⟩ := hu.tickFor a A t ha hA
    obtain ⟨t', T, l, hn', hT, hf⟩ := hu.prefixed a A ha hty (hn ▸ hasTimePrefix_timeName t)
    obtain rfl := timeName_injective (hn'.symm.trans hn)
    exact ⟨hty, T, _, hT, by rw [hf]; rfl, hn.symm, .inl (by rw [hfilter])⟩

/-- A message held by a dispatcher whose timer the await waits for. -/
theorem TimerUse.held (hu : TimerUse w) (hT : TimersOk w) (ha : w.awaits a = some A)
    (hA : A.timedBy t) (hp : (w.disp d).packet = some p) (hid : p.timer = some t) :
    A.type = .temp ∧ p.msg.name = A.waitMessageName ∧
      (A.filter p.msg = true ∨ p.msg.isTimeoutMsg = true) := by
  obtain ⟨hty, T, m, hTt, hm, hn, haccept⟩ := hu.message ha hA
  obtain ⟨T', hT', -, hm'⟩ := hT.origin p t ⟨d, .inr hp⟩ hid
  obtain rfl := Option.some.inj (hTt.symm.trans hT')
  obtain rfl := Option.some.inj (hm.symm.trans hm')
  exact ⟨hty, hn, haccept⟩

theorem DispPc.ahead_update {pc : DispPc} (he : w'.disp = update w.disp d pc)
    (h : pc.ahead t a) : (w'.disp d).ahead t a := by
  rw [he, Function.update_self]
  exact h

/-- The lock of the temporary awaits finds the await in the range. -/
theorem ahead_of_lock (hw : Wf w) (hu : TimerUse w) (hT : TimersOk w) {i : ℕ}
    (ht : Trans w (.dispatch d i) w') (ha : w.awaits a = some A) (hA : A.timedBy t)
    (hd : w.disp d = .lock .temp p) (hid : p.timer = some t) : (w'.disp d).ahead t a := by
  obtain ⟨hty, hn, -⟩ := hu.held hT ha hA (by rw [hd]; rfl) hid
  have hmem : a ∈ Multimap.equalRange (w.registry .temp) p.msg.name :=
    Multimap.mem_equalRange.2 ((hw.registered _ _ _).2 ⟨A, ha, hty, hn.symm⟩)
  cases ht with
  | lockNone hd' hr =>
    rw [hd] at hd'
    cases hd'
    rw [hr] at hmem
    cases hmem
  | lockSome hd' hr =>
    rw [hd] at hd'
    cases hd'
    rw [hr] at hmem
    refine DispPc.ahead_update rfl (.inr ⟨_, _, _, _, _, rfl, hid, ?_⟩)
    rcases List.mem_cons.1 hmem with rfl | hmem
    · exact .inr ⟨rfl, rfl⟩
    · exact .inl hmem
  | fetch hd' | skip hd' | enter hd' | enqueue hd' | stateStop hd' | stateOther hd' | awaitThis hd'
  | awaitOther hd' | writeData hd' | storeState hd' | pushQueue hd' | noTimer hd' | loadTimer hd'
  | pushRemove hd' | sharedPush hd' =>
    rw [hd] at hd'
    cases hd'

/-- What the condition says of a delivery to the await that waits for the timer. -/
theorem findsWaiting_visit {i : ℕ} (h : findsWaiting w (.dispatch d i) = true)
    (hd : w.disp d = .visit .temp p first a rest s) (hid : p.timer = some t)
    (ha : w.awaits a = some A) (hA : A.timedBy t) : w.finds a A s = true := by
  simpa [findsWaiting, hd, hid, ha, hA] using h

/-- The delivery among the temporary awaits comes to the await, and ends its wait there. -/
theorem ahead_of_visit (hu : TimerUse w) (hT : TimersOk w) {i : ℕ}
    (ht : Trans w (.dispatch d i) w') (hok : findsWaiting w (.dispatch d i) = true)
    (ha : w.awaits a = some A) (hA : A.timedBy t) (ha' : w'.awaits a = some A')
    (hA' : A'.timedBy t) (hd : w.disp d = .visit .temp p first b rest s) (hid : p.timer = some t)
    (hpos : a ∈ rest ∨ a = b ∧ s.testing = true) : (w'.disp d).ahead t a := by
  -- the test that comes next succeeds
  have finds : a = b → w.finds a A s = true := by
    rintro rfl
    exact findsWaiting_visit hok hd hid ha hA
  have past : s.testing = false → a ∈ rest := fun hs => hpos.resolve_right fun h => by
    rw [hs] at h
    cases h.2
  cases ht with
  | fetch hd' | lockNone hd' | lockSome hd' | sharedPush hd' =>
    rw [hd] at hd'
    cases hd'
  | skip hd' hb hs =>
    rw [hd] at hd'
    cases hd'
    refine DispPc.ahead_update rfl (DispPc.ahead_next (hpos.resolve_right ?_) hid)
    rintro ⟨rfl, -⟩
    obtain rfl := Option.some.inj (ha.symm.trans hb)
    rcases hs with hs | ⟨-, hfilter, htimeout⟩
    · simpa [World.finds, hs] using finds rfl
    · rcases (hu.held hT ha hA (by rw [hd]; rfl) hid).2.2 with h | h
      · rw [hfilter] at h
        cases h
      · rw [htimeout] at h
        cases h
  | stateOther hd' _ hs =>
    rw [hd] at hd'
    cases hd'
    refine DispPc.ahead_update rfl (DispPc.ahead_next (hpos.resolve_right fun h => hs ?_) hid)
    exact of_decide_eq_true (finds h.1)
  | awaitOther hd' _ hs =>
    rw [hd] at hd'
    cases hd'
    refine DispPc.ahead_update rfl (DispPc.ahead_next (hpos.resolve_right fun h => hs ?_) hid)
    rw [← h.1]
    exact of_decide_eq_true (finds h.1)
  | storeState hd' =>
    rw [hd] at hd'
    cases hd'
    refine DispPc.ahead_update rfl
      (.inr ⟨_, _, _, _, _, rfl, hid, .inl (hpos.resolve_right fun h => ?_)⟩)
    -- the store ends the wait
    have hc := of_decide_eq_true (finds h.1)
    simp only [World.endWait, hc, Function.update_self, ha, Option.map_some,
      Option.some.injEq] at ha'
    subst ha'
    rcases hA' with hA' | hA' <;> cases hA'
  | enter hd' _ _ hs =>
    rw [hd] at hd'
    cases hd'
    refine DispPc.ahead_update rfl
      (.inr ⟨_, _, _, _, _, rfl, hid, hpos.imp_right fun h => ⟨h.1, ?_⟩⟩)
    rcases hs with ⟨-, rfl⟩ | ⟨hk, -⟩ | ⟨-, rfl, -⟩
    · rfl
    · cases hk
    · rfl
  | stateStop hd' _ _ hs =>
    rw [hd] at hd'
    cases hd'
    refine DispPc.ahead_update rfl
      (.inr ⟨_, _, _, _, _, rfl, hid, hpos.imp_right fun h => ⟨h.1, ?_⟩⟩)
    rcases hs with ⟨-, rfl⟩ | ⟨-, rfl⟩ <;> rfl
  | awaitThis hd' _ _ hs =>
    rw [hd] at hd'
    cases hd'
    refine DispPc.ahead_update rfl
      (.inr ⟨_, _, _, _, _, rfl, hid, hpos.imp_right fun h => ⟨h.1, ?_⟩⟩)
    rcases hs with ⟨-, rfl⟩ | ⟨-, rfl⟩ | ⟨-, rfl⟩ <;> rfl
  | writeData hd' =>
    rw [hd] at hd'
    cases hd'
    exact DispPc.ahead_update rfl
      (.inr ⟨_, _, _, _, _, rfl, hid, hpos.imp_right fun h => ⟨h.1, rfl⟩⟩)
  | enqueue hd' | loadTimer hd' =>
    rw [hd] at hd'
    cases hd'
    exact DispPc.ahead_update rfl (.inr ⟨_, _, _, _, _, rfl, hid, .inl (past rfl)⟩)
  | noTimer hd' | pushRemove hd' =>
    rw [hd] at hd'
    cases hd'
    exact DispPc.ahead_update rfl (DispPc.ahead_next (past rfl) hid)
  | pushQueue hd' _ hpc =>
    rw [hd] at hd'
    cases hd'
    rcases hpc with ⟨hk, -⟩ | ⟨hk, -⟩ | ⟨-, rfl⟩
    · cases hk
    · cases hk
    · exact DispPc.ahead_update rfl (.inr ⟨_, _, _, _, _, rfl, hid, .inl (past rfl)⟩)

/-- **One step** of the dispatcher that holds the message. -/
theorem ahead_step (hw : Wf w) (hu : TimerUse w) (hT : TimersOk w) (ht : Trans w act w')
    (hok : findsWaiting w act = true) (ha : w.awaits a = some A) (hA : A.timedBy t)
    (ha' : w'.awaits a = some A') (hA' : A'.timedBy t) (h : (w.disp d).ahead t a) :
    (w'.disp d).ahead t a := by
  rcases h with h | ⟨p, first, b, rest, s, hd, hid, hpos⟩
  · rcases ht.early h with h | ⟨i, p, rfl, hd, hid⟩
    · exact .inl h
    · exact ahead_of_lock hw hu hT ht ha hA hd hid
  · rcases ht.disp_eq d with he | ⟨i, rfl⟩
    · exact .inr ⟨p, first, b, rest, s, he.trans hd, hid, hpos⟩
    · exact ahead_of_visit hu hT ht hok ha hA ha' hA' hd hid hpos

/-! ### The invariant -/

/-- The message of every timer that is waited for is still to come. -/
structure Comes (w : World) : Prop where
  awaited : ∀ a A t, w.awaits a = some A → A.timedBy t →
    w.pending t ∨ ∃ d, (w.disp d).ahead t a
  creating : ∀ c t, w.ctl c = .creatingTime t false → w.pending t ∨ ∃ d, (w.disp d).early t

namespace Comes

/-- A timer that is waited for is not cancelled. -/
theorem pending_awaited (hu : TimerUse w) (hT : TimersOk w) (hr : Removals w)
    (ht : Trans w act w') (ha : w.awaits a = some A) (hA : A.timedBy t) (hp : w.pending t) :
    w'.pending t ∨ ∃ d, (w'.disp d).early t := by
  refine hp.step hT ht (fun T hTt hf => ?_) fun c m junk hc he => ?_
  · obtain ⟨-, T', m, hT', hm, -⟩ := hu.message ha hA
    obtain rfl := Option.some.inj (hTt.symm.trans hT')
    rw [hf] at hm
    cases hm
  · exact (he ▸ hr.cancels_spent hu hc junk).unused a A ha hA

/-- Nor is the timer of an await that is being made. -/
theorem pending_creating (hu : TimerUse w) (hT : TimersOk w) (hr : Removals w)
    (ht : Trans w act w') {c : CoId} {l : Bool} (hc : w.ctl c = .creatingTime t l)
    (hp : w.pending t) : w'.pending t ∨ ∃ d, (w'.disp d).early t := by
  refine hp.step hT ht (fun T hTt hf => ?_) fun c' m junk hc' he => ?_
  · obtain ⟨-, -, ⟨T', hT', hf'⟩, -⟩ := hu.creating c t l hc
    obtain rfl := Option.some.inj (hTt.symm.trans hT')
    rw [hf] at hf'
    cases hf'
  · exact (he ▸ hr.cancels_spent hu hc' junk).created c l hc

theorem awaited_step (h : Comes w) (hw : Wf w) (hu : TimerUse w) (hT : TimersOk w)
    (hr : Removals w) (ht : Trans w act w') (hok : findsWaiting w act = true)
    (ha' : w'.awaits a = some A') (hA' : A'.timedBy t) :
    w'.pending t ∨ ∃ d, (w'.disp d).ahead t a := by
  have early : (w'.pending t ∨ ∃ d, (w'.disp d).early t) →
      w'.pending t ∨ ∃ d, (w'.disp d).ahead t a :=
    fun h => h.imp_right fun ⟨d, hd⟩ => ⟨d, .inl hd⟩
  rcases hw.timedBy_from ht ha' hA' with ⟨A, ha, hA⟩ | ⟨rfl, c, rfl⟩ | ⟨c, pos, rfl, hc⟩
  · rcases h.awaited a A t ha hA with hp | ⟨d, hd⟩
    · exact early (pending_awaited hu hT hr ht ha hA hp)
    · exact .inr ⟨d, ahead_step hw hu hT ht hok ha hA ha' hA' hd⟩
  · obtain ⟨A, -, -, htimer, -⟩ := ht.setTimeout_eq
    exact .inl (.inl ⟨_, htimer, by simp⟩)
  · -- the await has just been registered; no dispatcher was among the temporary awaits
    rcases h.creating c t hc with hp | ⟨d, hd⟩
    · exact early (pending_creating hu hT hr ht hc hp)
    · rcases ht.early hd with hd | ⟨i, p, hact, -⟩
      · exact .inr ⟨d, .inl hd⟩
      · cases hact

theorem creating_step (h : Comes w) (hu : TimerUse w) (hT : TimersOk w) (hr : Removals w)
    (ht : Trans w act w') (hok : findsWaiting w act = true) {c : CoId}
    (hc' : w'.ctl c = .creatingTime t false) : w'.pending t ∨ ∃ d, (w'.disp d).early t := by
  rcases ht.creatingTime hc' with hc | ⟨rfl, -, -, htimer, -⟩
  · rcases h.creating c t hc with hp | ⟨d, hd⟩
    · exact pending_creating hu hT hr ht hc hp
    · rcases ht.early hd with hd | ⟨i, p, rfl, hd, hid⟩
      · exact .inr ⟨d, hd⟩
      · have hmutex := (hu.creating c t false hc).2.1
        simp [findsWaiting, hd, hid, hmutex, hc] at hok
  · exact .inl (.inl ⟨_, htimer, by simp⟩)

/-- **One step.** -/
theorem step (h : Comes w) (hw : Wf w) (hu : TimerUse w) (hT : TimersOk w) (hr : Removals w)
    (ht : Trans w act w') (hok : findsWaiting w act = true) : Comes w' where
  awaited _ _ _ := h.awaited_step hw hu hT hr ht hok
  creating _ _ := h.creating_step hu hT hr ht hok

theorem init : Comes World.init := by
  constructor
  · intro a A t ha hA
    obtain ⟨-, rfl⟩ := World.init_awaits ha
    rcases hA with hA | hA <;> cases hA
  · intro c t hc
    rcases World.init_ctl c with h | ⟨-, h⟩ <;> rw [h] at hc <;> cases hc

end Comes

theorem comes_of_reachable (h : Reachable (fun w act => keepsWayOut w act = true) w) :
    Comes w := by
  have split : ∀ (w : World) act, keepsWayOut w act = true →
      (reserved w act = true ∧ removesSpent w act = true) ∧ findsWaiting w act = true := by
    intro w act hok
    simpa [keepsWayOut] using hok
  refine h.invariant (I := Comes) Comes.init fun s act s' hr ih hok hs => ?_
  exact ih.step (wf_of_reachable hr)
    (timerUse_of_reachable (fun w act h => (split w act h).1.1) hr) (timersOk_of_reachable hr)
    (removals_of_reachable (fun w act h => (split w act h).1) hr) (trans_of_step hs)
    (split s act hok).2

/-- The timer is active, its callback is running, or its message is in a bus queue or being
dispatched. -/
def World.wayOut (w : World) (t : TimerId) : Prop :=
  (∃ T, w.timerAt t = some T ∧ T.status ≠ .idle) ∨ w.io = .call t ∨
    ∃ p, w.inFlight p ∧ p.timer = some t

theorem World.pending.wayOut (h : w.pending t) : w.wayOut t := by
  rcases h with h | h | ⟨d, p, hp, hid⟩
  · exact .inl h
  · exact .inr (.inl h)
  · exact .inr (.inr ⟨p, ⟨d, .inl hp⟩, hid⟩)

/-- A dispatcher that has the await before it holds the message. -/
theorem DispPc.ahead.wayOut (h : (w.disp d).ahead t a) : w.wayOut t := by
  obtain ⟨p, hp, hid⟩ : ∃ p, (w.disp d).packet = some p ∧ p.timer = some t := by
    rcases h with h | ⟨p, first, b, rest, s, hd, hid, -⟩
    · cases hd : w.disp d with
      | fetch =>
        rw [hd] at h
        cases h
      | lock k p | sharedPush p =>
        rw [hd] at h
        exact ⟨p, rfl, h⟩
      | visit k p =>
        rw [hd] at h
        exact ⟨p, rfl, h.2⟩
    · exact ⟨p, by rw [hd]; rfl, hid⟩
  exact .inr (.inr ⟨p, ⟨d, .inr hp⟩, hid⟩)

/-- Every coroutine suspended on a `TempMessageAwait` that waits for a timer has a way out. -/
def TimedWaitsEnd (w : World) : Prop :=
  ∀ c a A t, w.ctl c = .suspended a → w.promise c = ⟨.stopState, some a⟩ → c ∉ w.scheduled →
    w.awaits a = some A → A.timedBy t → w.wayOut t

/-- **A timed wait always still has its way out**, along every run in which the message of a timer
finds the coroutine waiting, no removal reads the id of the next wait's timer, and the reserved names
are left to `TimerMgr`. -/
theorem timedWaitsEnd_of_keepsWayOut
    (h : Reachable (fun w act => keepsWayOut w act = true) w) : TimedWaitsEnd w := by
  intro c a A t _ _ _ ha hA
  rcases (comes_of_reachable h).awaited a A t ha hA with hp | ⟨d, hd⟩
  · exact hp.wayOut
  · exact hd.wayOut

/-- A coroutine arms a timeout and is about to wait. -/
def armed : List Action :=
  [.start 1, .body 1 (.createTemp 6 0 "m" 0 (fun _ => false) 0), .body 1 (.setTimeout 6), .run 1 0]

/-- The wait begins. -/
def begins : List Action := [.body 1 (.coAwait 6), .run 1 0, .run 1 0, .late 0]

/-- The timer fires and its callback pushes the message. -/
def fires : List Action := [.expire 2, .ioBegin 2, .ioStep]

/-- The timer fires and its message is dispatched before the coroutine is suspended. -/
def firesEarly : List Action :=
  armed ++ fires ++ List.replicate 5 (Action.dispatch .normal 0) ++ begins

/-- Without the condition the coroutine is left suspended with no timer. -/
theorem wayOut_lost : ∃ w, Reachable Run.Any w ∧ ¬TimedWaitsEnd w := by
  have hrun : (Run.exec step World.init firesEarly).any (fun w => decide
      ((w.ctl 1 = .suspended 6 ∧ w.promise 1 = ⟨.stopState, some 6⟩ ∧ w.coQueue = [] ∧
        ((w.awaits 6).any fun A => decide (A.timedBy 2)) = true) ∧
        ((w.timerAt 2).all fun T => decide (T.status = .idle)) = true ∧ w.io = .idle ∧
        (w.busQueue .normal = [] ∧ w.disp .normal = .fetch) ∧
        (w.busQueue .high = [] ∧ w.disp .high = .fetch))) = true := by
    decide +kernel
  obtain ⟨w, hw, ⟨hc, hp, hq, ha⟩, hT, hi, hn, hh⟩ := Run.exists_reach_of_exec hrun
  obtain ⟨A, ha, hA⟩ := (Option.any_eq_true ..).1 ha
  refine ⟨w, hw, fun h => ?_⟩
  rcases h 1 6 A 2 hc hp (by simp [World.scheduled, hq]) ha (of_decide_eq_true hA) with
    ⟨T, hT', hs⟩ | hi' | ⟨p, ⟨d, hpq | hpd⟩, -⟩
  · rw [hT', Option.all_some] at hT
    exact hs (of_decide_eq_true hT)
  · rw [hi] at hi'
    cases hi'
  · cases d with
    | normal => simp [hn.1] at hpq
    | high => simp [hh.1] at hpq
  · cases d with
    | normal => simp [hn.2, DispPc.packet] at hpd
    | high => simp [hh.2, DispPc.packet] at hpd

theorem timedWaitsEnd_begins :
    ∃ w A, Reachable (fun w act => keepsWayOut w act = true) w ∧ w.ctl 1 = .suspended 6 ∧
      w.promise 1 = ⟨.stopState, some 6⟩ ∧ w.awaits 6 = some A ∧ A.timedBy 2 ∧
      ((w.timerAt 2).all fun T => decide (T.status = .idle)) = true ∧ TimedWaitsEnd w := by
  have hrun : (Run.exec (Run.guarded step fun w act => keepsWayOut w act = true) World.init
      (armed ++ begins ++ fires)).any (fun w => decide
      (w.ctl 1 = .suspended 6 ∧ w.promise 1 = ⟨.stopState, some 6⟩ ∧
        ((w.awaits 6).any fun A => decide (A.timedBy 2)) = true ∧
        ((w.timerAt 2).all fun T => decide (T.status = .idle)) = true)) = true := by
    decide +kernel
  obtain ⟨w, hw, hc, hp, ha, hT⟩ := Run.exists_reach_of_exec_guarded hrun
  obtain ⟨A, ha, hA⟩ := (Option.any_eq_true ..).1 ha
  exact ⟨w, A, hw, hc, hp, ha, of_decide_eq_true hA, hT, timedWaitsEnd_of_keepsWayOut hw⟩

end DataProxy
