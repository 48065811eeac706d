import DataProxy.Ownership

/-!
# Timers that outlive their await

An id leaves `timers` only through `co_handle_remove_timer`, so it has to be sent there before the
await that holds it is gone.  Two places send it: `~TempMessageAwait` for the awaits of
`create_time_await`, and `remove_timer` for what it finds in `timer_id_` after a delivery.  An await
that is destroyed with a `timer_id_` that no `remove_timer` has read, or armed again over such a
`timer_id_`, takes the only copy of the id with it.

`World.pendingRemoval` lists the places of a removal on its way; `Covered` says that an id in
`timers` is held by a live await or on its way.
-/

namespace DataProxy

open Function (update)

variable {w w' : World} {act : Action} {a : Addr} {A A' : Await} {t : TimerId} {c : CoId}
  {m : InternalMessage} {d : Dispatcher} {k : AwaitType} {p : Packet} {first : Addr}
  {rest : List Addr} {l : TimerLedger} {S : ObjectId}

/-! ### A removal on its way -/

/-- The delivery has not yet reached the enqueue. -/
def VisitPc.unqueued : VisitPc → Bool
  | .enter | .enqueue _ => true
  | .loadState _ | .loadAwait _ | .writeData _ | .storeState _ | .pushQueue _ | .loadTimer
  | .pushRemove _ => false

/-- The dispatcher has the message and has not yet enqueued it for `co_handle_remove_timer`. -/
def DispPc.owes (m : InternalMessage) : DispPc → Prop
  | .fetch => False
  | .lock k p => p.msg = m ∧ k ≠ .temp
  | .sharedPush p _ => p.msg = m
  | .visit k p _ a rest s => p.msg = m ∧
    (k = .shared ∨ k = .normal ∧ (removerAwait ∈ rest ∨ a = removerAwait ∧ s.unqueued = true))

/-- A removal of the timer is on its way. -/
inductive World.pendingRemoval (w : World) (t : TimerId) : Prop
  | destroying (c : CoId) (hc : w.ctl c = .destroying (removeTimerMsg t))
  | pushing (d : Dispatcher) (k : AwaitType) (p : Packet) (first a : Addr) (rest : List Addr)
      (hd : w.disp d = .visit k p first a rest (.pushRemove t))
  | queued (d : Dispatcher) (p : Packet) (hp : p ∈ w.busQueue d) (hm : p.msg = removeTimerMsg t)
  | carried (d : Dispatcher) (hd : (w.disp d).owes (removeTimerMsg t))
  | delivered (A : Await) (ha : w.awaits removerAwait = some A)
      (hm : removeTimerMsg t ∈ (w.mailbox removerAwait A).hand ++ A.queue)
  | removing (hc : w.ctl remover = .removing (removeTimerMsg t))

/-- The destructor pushes its message. -/
theorem Trans.destroying_next (ht : Trans w act w') (hc : w.ctl c = .destroying m) :
    w'.ctl c = .destroying m ∨ { msg := m } ∈ w'.busQueue .normal := by
  rcases ht.run_of_inCall (by rw [hc]; rfl) with he | ⟨junk, rfl⟩
  · exact .inl (he.trans hc)
  have hrun := ht.run_eq
  simp only [World.runStep, hc, Option.some.injEq] at hrun
  subst hrun
  exact .inr (by simp [World.enqueueBus])

/-- `set_await_timeout` stores the id. -/
theorem Trans.arming_next (ht : Trans w act w') (hc : w.ctl c = .arming a t) :
    w'.ctl c = .arming a t ∨ ∃ A', w'.awaits a = some A' ∧ A'.timerId = t := by
  rcases ht.run_of_inCall (by rw [hc]; rfl) with he | ⟨junk, rfl⟩
  · exact .inl (he.trans hc)
  have hrun := ht.run_eq
  simp only [World.runStep, hc] at hrun
  obtain ⟨A, -, rfl⟩ := Option.map_eq_some_iff.1 hrun
  exact .inr ⟨_, Function.update_self .., rfl⟩

/-- `co_handle_remove_timer` returns with what is in `data_`. -/
theorem Trans.returning_next (ht : Trans w act w') (hc : w.ctl remover = .resuming a .ret)
    (ha : w.awaits a = some A) :
    w'.ctl remover = .resuming a .ret ∨ w'.ctl remover = .removing A.data := by
  rcases ht.run_of_inCall (by rw [hc]; rfl) with he | ⟨junk, rfl⟩
  · exact .inl (he.trans hc)
  have hrun := ht.run_eq
  simp only [World.runStep, hc, ha, Option.map_some, World.awaitResume, Option.some.injEq] at hrun
  subst hrun
  exact .inr (by simp)

/-- `co_handle_remove_timer` cancels what it was asked to. -/
theorem Trans.removing_next (ht : Trans w act w') (hc : w.ctl c = .removing m)
    (hm : string2Int m.data = some t) : w'.ctl c = .removing m ∨ w'.timers t = false := by
  rcases ht.run_of_inCall (by rw [hc]; rfl) with he | ⟨junk, rfl⟩
  · exact .inl (he.trans hc)
  have hrun := ht.run_eq
  simp only [World.runStep, hc, hm, Option.getD_some, Option.ite_none_right_eq_some,
    Option.some.injEq] at hrun
  obtain ⟨-, rfl⟩ := hrun
  right
  show (w.cancelTimer t).timers t = false
  unfold World.cancelTimer
  split
  · exact Function.update_self ..
  · rename_i hno
    exact Bool.not_eq_true _ ▸ hno

/-- `remove_timer` pushes its message. -/
theorem Trans.pushRemove_next (ht : Trans w act w')
    (hd : w.disp d = .visit k p first a rest (.pushRemove t)) :
    w'.disp d = .visit k p first a rest (.pushRemove t) ∨
      { msg := removeTimerMsg t } ∈ w'.busQueue .normal := by
  rcases ht.disp_eq d with he | ⟨i, rfl⟩
  · exact .inl (he.trans hd)
  have hdispatch := ht.dispatch_eq
  simp only [World.dispatchStep, hd] at hdispatch
  obtain ⟨A, -, rfl⟩ := Option.map_eq_some_iff.1 hdispatch
  exact .inr (by simp [World.visitStep, World.enqueueBus])

theorem DispPc.owes_next (hm : p.msg = m) (hk : k = .shared ∨ k = .normal ∧ removerAwait ∈ rest) :
    (DispPc.next k p first rest).owes m := by
  rcases DispPc.next_cases k p first rest with ⟨b, r, rfl, he⟩ | ⟨-, he⟩ | ⟨hne, he⟩
  · rw [he]
    refine ⟨hm, hk.imp_right fun ⟨hk, hmem⟩ => ⟨hk, ?_⟩⟩
    rcases List.mem_cons.1 hmem with rfl | hmem
    · exact .inr ⟨rfl, rfl⟩
    · exact .inl hmem
  · rw [he]
    exact hm
  · rcases hk with hk | ⟨-, hmem⟩
    · exact absurd hk hne
    · cases rest with
      | nil => cases hmem
      | cons b r => cases k <;> cases he

/-- A delivery that is past the enqueue still has the awaits of the range before it. -/
theorem DispPc.owes_past {s : VisitPc} (h : (DispPc.visit k p first a rest s).owes m)
    (hs : s.unqueued = false) : p.msg = m ∧ (k = .shared ∨ k = .normal ∧ removerAwait ∈ rest) := by
  refine ⟨h.1, h.2.imp_right fun ⟨hk, hmem⟩ => ⟨hk, hmem.resolve_right ?_⟩⟩
  rintro ⟨-, hs'⟩
  rw [hs] at hs'
  cases hs'

theorem DispPc.owes_visit {s : VisitPc} (hm : p.msg = m)
    (hk : k = .shared ∨ k = .normal ∧ removerAwait ∈ rest) :
    (DispPc.visit k p first a rest s).owes m :=
  ⟨hm, hk.imp_right fun ⟨hk, hmem⟩ => ⟨hk, .inl hmem⟩⟩

/-- The block of the normal awaits finds the await of `co_handle_remove_timer`. -/
theorem RemoverOk.mem_range (hr : RemoverOk w) (hw : Wf w) (hn : m.name = removeTimerName) :
    removerAwait ∈ Multimap.equalRange (w.registry .normal) m.name := by
  obtain ⟨A, ha, hty, hname, -⟩ := hr.object
  exact Multimap.mem_equalRange.2 ((hw.registered _ _ _).2 ⟨A, ha, hty, hname.trans hn.symm⟩)

/-- A dispatcher carries a removal on to the queue of `co_handle_remove_timer`. -/
theorem RemoverOk.owes_step (hr : RemoverOk w) (hw : Wf w) (ht : Trans w act w')
    (hn : m.name = removeTimerName) (h : (w.disp d).owes m) :
    (w'.disp d).owes m ∨ ∃ A', w'.awaits removerAwait = some A' ∧ m ∈ A'.queue := by
  rcases ht.disp_eq d with he | ⟨i, rfl⟩
  · exact .inl (he ▸ h)
  have goes : ∀ {pc : DispPc}, w'.disp = update w.disp d pc → pc.owes m →
      (w'.disp d).owes m ∨ ∃ A', w'.awaits removerAwait = some A' ∧ m ∈ A'.queue := by
    intro pc he hpc
    left
    rw [he, Function.update_self]
    exact hpc
  cases ht with
  | fetch hd =>
    rw [hd] at h
    cases h
  | @lockNone _ _ k p hd hrange =>
    rw [hd] at h
    obtain ⟨rfl, hk⟩ := h
    cases k with
    | shared => exact goes rfl ⟨rfl, by simp⟩
    | normal =>
      have hmem := hr.mem_range hw hn
      rw [hrange] at hmem
      cases hmem
    | temp => exact absurd rfl hk
  | @lockSome _ _ k p b r hd hrange =>
    rw [hd] at h
    obtain ⟨rfl, hk⟩ := h
    refine goes rfl ⟨rfl, ?_⟩
    cases k with
    | shared => exact .inl rfl
    | normal =>
      have hmem := hr.mem_range hw hn
      rw [hrange] at hmem
      rcases List.mem_cons.1 hmem with rfl | hmem
      · exact .inr ⟨rfl, .inr ⟨rfl, rfl⟩⟩
      · exact .inr ⟨rfl, .inl hmem⟩
    | temp => exact absurd rfl hk
  | @skip _ _ k p first b rest B hd hb hs =>
    rw [hd] at h
    refine goes rfl (DispPc.owes_next h.1 (h.2.imp_right fun ⟨hk, hmem⟩ => ⟨hk, ?_⟩))
    rcases hmem with hmem | ⟨rfl, -⟩
    · exact hmem
    -- the await of `co_handle_remove_timer` has its `handle_`
    · obtain ⟨A, ha, -, -, -, hh⟩ := hr.object
      obtain rfl := Option.some.inj (ha.symm.trans hb)
      rcases hs with hs | ⟨rfl, -⟩
      · rw [hh] at hs
        cases hs
      · cases hk
  | @enter _ _ k p first b rest B co s hd hb hh hs =>
    rw [hd] at h
    refine goes rfl ⟨h.1, h.2.imp_right fun ⟨hk, hmem⟩ => ⟨hk, hmem.imp_right fun ⟨hb, _⟩ => ⟨hb, ?_⟩⟩⟩
    subst hk
    rcases hs with ⟨hk, -⟩ | ⟨-, rfl⟩ | ⟨hk, -⟩
    · cases hk
    · rfl
    · cases hk
  | @enqueue _ _ k p first b rest B co hd hb =>
    rw [hd] at h
    obtain ⟨rfl, hk | ⟨hk, hmem | ⟨rfl, -⟩⟩⟩ := h
    · exact goes rfl (DispPc.owes_visit rfl (.inl hk))
    · exact goes rfl (DispPc.owes_visit rfl (.inr ⟨hk, hmem⟩))
    · exact .inr ⟨{ B with queue := B.queue ++ [p.msg] }, by simp, by simp⟩
  | stateStop hd | awaitThis hd | writeData hd | storeState hd | loadTimer hd =>
    rw [hd] at h
    obtain ⟨hm, hk⟩ := DispPc.owes_past h rfl
    exact goes rfl (DispPc.owes_visit hm hk)
  | stateOther hd | awaitOther hd | noTimer hd | pushRemove hd =>
    rw [hd] at h
    obtain ⟨hm, hk⟩ := DispPc.owes_past h rfl
    exact goes rfl (DispPc.owes_next hm hk)
  | pushQueue hd _ hpc =>
    rw [hd] at h
    obtain ⟨hm, hk⟩ := DispPc.owes_past h rfl
    rcases hpc with ⟨-, rfl⟩ | ⟨-, rfl⟩ | ⟨rfl, -⟩
    · exact goes rfl ⟨hm, by simp⟩
    · exact goes rfl (DispPc.owes_next hm hk)
    · rcases hk with hk | ⟨hk, -⟩ <;> cases hk
  | sharedPush hd =>
    rw [hd] at h
    exact goes rfl ⟨h, by simp⟩

theorem Ctl.place_eq_leaving {x : Ctl} (h : x.place a = .leaving) :
    x = .resuming a .state ∨ x = .resuming a .ret := by
  cases x with
  | suspending b s =>
    simp only [Ctl.place] at h
    split at h
    · split at h <;> cases h
    · cases h
  | suspended b =>
    simp only [Ctl.place] at h
    split at h <;> cases h
  | resuming b s =>
    simp only [Ctl.place] at h
    split at h
    · rename_i hb
      subst hb
      cases s <;> simp_all
    · cases h
  | _ => cases h

/-- A message for `co_handle_remove_timer` stays in its mailbox until the coroutine has it. -/
theorem RemoverOk.mailbox_next (hr : RemoverOk w) (hw : Wf w)
    (hkind : ∀ d, (w.disp d).ofKind = true) (hbox : (w.mailbox removerAwait A).Ok)
    (ht : Trans w act w') (ha : w.awaits removerAwait = some A)
    (hm : m ∈ (w.mailbox removerAwait A).hand ++ A.queue) :
    (∃ A', w'.awaits removerAwait = some A' ∧
      m ∈ (w'.mailbox removerAwait A').hand ++ A'.queue) ∨ w'.ctl remover = .removing m := by
  obtain ⟨B, hb, hty, -, ho, -⟩ := hr.object
  obtain rfl := Option.some.inj (ha.symm.trans hb)
  obtain ⟨A', ha', -⟩ := (hr.step hw ht).object
  have ho' : A'.owner = remover := (hw.keeps ht ha ha').owner.trans ho
  rcases hw.mailbox_step hkind ht ha hty ha' with he | hst
  · have hq : A'.queue = A.queue := congrArg Mailbox.queue he
    exact .inl ⟨A', ha', by rw [he, hq]; exact hm⟩
  · rcases hst.held hbox hm with hm' | ⟨hp, hp', rfl⟩
    · exact .inl ⟨A', ha', hm'⟩
    · right
      -- the only way out of the last statements of `await_resume`
      simp only [World.mailbox, ho] at hp
      simp only [World.mailbox, ho'] at hp'
      rcases Ctl.place_eq_leaving hp with hc | hc
      · rcases ht.ctl_from remover with he | hmove
        · rw [he, hp] at hp'
          cases hp'
        · rw [hc] at hmove
          generalize w'.ctl remover = y at hmove hp'
          cases hmove
          simp [Ctl.place] at hp'
      · rcases ht.returning_next hc ha with hc' | hc'
        · simp [hc', Ctl.place] at hp'
        · exact hc'

/-- **A removal on its way** gets to `co_handle_remove_timer`, which cancels the timer. -/
theorem World.pendingRemoval.step (h : w.pendingRemoval t) (hr : RemoverOk w) (hw : Wf w)
    (hkind : ∀ d, (w.disp d).ofKind = true)
    (hbox : ∀ a A, w.awaits a = some A → A.type = .normal → (w.mailbox a A).Ok)
    (ht : Trans w act w') (hid : t ≤ uint64Max) : w'.pendingRemoval t ∨ w'.timers t = false := by
  cases h with
  | destroying c hc =>
    rcases ht.destroying_next hc with hc | hp
    · exact .inl (.destroying c hc)
    · exact .inl (.queued _ _ hp rfl)
  | pushing d k p first a rest hd =>
    rcases ht.pushRemove_next hd with hd | hp
    · exact .inl (.pushing d k p first a rest hd)
    · exact .inl (.queued _ _ hp rfl)
  | queued d p hp hm =>
    rcases ht.fetched hp with hp | hd
    · exact .inl (.queued d p hp hm)
    · refine .inl (.carried d ?_)
      rw [hd]
      exact ⟨hm, by simp⟩
  | carried d hd =>
    rcases hr.owes_step hw ht rfl hd with hd | ⟨A', ha', hm⟩
    · exact .inl (.carried d hd)
    · exact .inl (.delivered A' ha' (List.mem_append_right _ hm))
  | delivered A ha hm =>
    obtain ⟨B, hb, hty, -⟩ := hr.object
    obtain rfl := Option.some.inj (ha.symm.trans hb)
    rcases hr.mailbox_next hw hkind (hbox _ A ha hty) ht ha hm with ⟨A', ha', hm'⟩ | hc
    · exact .inl (.delivered A' ha' hm')
    · exact .inl (.removing hc)
  | removing hc =>
    rcases ht.removing_next hc (string2Int_toString hid) with hc | hno
    · exact .inl (.removing hc)
    · exact .inr hno

/-- An id that has left `timers` does not come back. -/
theorem Trans.timers_false (ht : Trans w act w') (hid : t ≤ w.sid) (h : w.timers t = false) :
    w'.timers t = false := by
  have new : t ≠ w.sid + 1 := Nat.ne_of_lt (Nat.lt_succ_of_le hid)
  cases ht with
  | createTime => simpa [new] using h
  | setTimeout => simpa [new] using h
  | @cancel c m junk id =>
    by_cases hu : t = id
    · simp [hu]
    · simpa [hu] using h
  | _ => exact h

/-- An await is destroyed by its owner; a time await leaves the removal of its timer behind. -/
theorem Trans.destroyed (ht : Trans w act w') (ha : w.awaits a = some A)
    (ha' : w'.awaits a = none) :
    ∃ c, act = .body c (.destroy a) ∧ w.ctl c = .body ∧ A.owner = c ∧
      (A.type = .temp → hasTimePrefix A.waitMessageName = true →
        w'.ctl c = .destroying (destructorMsg A.waitMessageName)) := by
  have same : w'.awaits a ≠ w.awaits a := by rw [ha, ha']; simp
  have edit : ∀ {b : Addr} {B : Await}, w'.awaits ≠ update w.awaits b (some B) := by
    intro b B he
    by_cases hab : a = b
    · subst hab
      rw [he, Function.update_self] at ha'
      cases ha'
    · exact same (by rw [he, Function.update_of_ne hab])
  cases ht with
  | @destroy c b B hc _ hb ho =>
    have hab : a = b := by
      by_contra hab
      exact same (Function.update_of_ne hab ..)
    subst hab
    obtain rfl := Option.some.inj (ha.symm.trans hb)
    exact ⟨c, rfl, hc, ho, fun hty hp => by simp [hty, hp]⟩
  | createClone | createQueue | createMessage | createTemp | registerTime | setTimeout | arm
  | readyNormal | readyShared | suspendFlag | suspendHandle | resume | dequeue | clearSuspend
  | ret | enqueue | writeData => exact absurd rfl edit
  | storeState =>
    rw [World.endWait_eq_none ha'] at ha
    cases ha
  | _ => exact absurd rfl same

/-! ### Ids in `timers` -/

/-- The live object that has the id: in `timer_id_`, on the way there, or in its name. -/
def World.holds (w : World) (S : ObjectId) (t : TimerId) : Prop :=
  ∃ A, w.awaits S.addr = some A ∧ w.object S.addr = S ∧
    (A.timerId = t ∨ (∃ c, w.ctl c = .arming S.addr t) ∨
      A.type = .temp ∧ A.waitMessageName = timeName t)

/-- What is in `timer_id_` may be given up: it is no id, some `remove_timer` has read it, or the
timer is gone. -/
def World.released (w : World) (l : TimerLedger) (t : TimerId) : Bool :=
  decide (t = 0) || l.sent t || !w.timers t

/-- The condition on one step: no await is armed again or destroyed with an id in `timer_id_` that
is still to be removed; and `sid_` does not wrap around. -/
def givesBack (x : World × TimerLedger) : Action → Bool
  | .run c _ =>
    match x.1.ctl c with
    | .arming a _ => (x.1.awaits a).all fun A => x.1.released x.2 A.timerId
    | _ => true
  | .body _ (.destroy a) => (x.1.awaits a).all fun A => x.1.released x.2 A.timerId
  | .body _ (.createTime _) | .body _ (.setTimeout _) => decide (x.1.sid < uint64Max)
  | _ => true

/-- Every id in `timers` is held by the object it was given out for, or its removal is on its
way. -/
structure Covered (w : World) (l : TimerLedger) : Prop where
  small : w.sid ≤ uint64Max
  held : ∀ t S, l.allocated t = some S → w.timers t = true → w.holds S t ∨ w.pendingRemoval t
  sent : ∀ t, l.sent t = true → t ≤ w.sid ∧ (w.timers t = true → w.pendingRemoval t)

/-- `remove_timer` reads `timer_id_`. -/
theorem recordTimer_sent (h : (recordTimer w act l).sent t = true) :
    l.sent t = true ∨ ∃ d i k p first a rest A, act = .dispatch d i ∧
      w.disp d = .visit k p first a rest .loadTimer ∧ w.awaits a = some A ∧ 0 < A.timerId ∧
      t = A.timerId := by
  unfold recordTimer at h
  split at h
  · exact .inl h
  · split at h <;> exact .inl h
  · split at h
    · split at h <;> exact .inl h
    · exact .inl h
  · rename_i d i
    split at h
    · rename_i k p first a rest hd
      split at h
      · rename_i A ha
        split at h
        · rename_i hpos
          by_cases hid : t = A.timerId
          · exact .inr ⟨d, i, k, p, first, a, rest, A, rfl, hd, ha, hpos, hid⟩
          · left
            simpa [hid] using h
        · exact .inl h
      · exact .inl h
    · exact .inl h
    · exact .inl h
  · exact .inl h

/-- What `remove_timer` has read it sends. -/
theorem Trans.loadTimer_next {i : ℕ} (ht : Trans w (.dispatch d i) w')
    (hd : w.disp d = .visit k p first a rest .loadTimer) (ha : w.awaits a = some A)
    (hpos : 0 < A.timerId) : w'.disp d = .visit k p first a rest (.pushRemove A.timerId) := by
  have hdispatch := ht.dispatch_eq
  simp only [World.dispatchStep, hd, ha, Option.map_some, World.visitStep, hpos, if_true,
    Option.some.injEq] at hdispatch
  subst hdispatch
  exact Function.update_self ..

namespace Covered

theorem small_step (h : Covered w l) (ht : Trans w act w') (hok : givesBack (w, l) act = true) :
    w'.sid ≤ uint64Max := by
  refine ht.sid_small h.small ?_
  rintro c (⟨l, rfl⟩ | ⟨a, rfl⟩)
  · exact of_decide_eq_true hok
  · exact of_decide_eq_true hok

/-- What may be given up needs nobody to hold it. -/
theorem pending_of_released (h : Covered w l) (hrel : w.released l t = true) (hpos : 1 < t)
    (ht : w.timers t = true) : w.pendingRemoval t := by
  simp only [World.released, Bool.or_eq_true, decide_eq_true_eq, Bool.not_eq_true'] at hrel
  rcases hrel with (rfl | hsent) | hno
  · exact absurd hpos (by decide)
  · exact (h.sent t hsent).2 ht
  · rw [ht] at hno
    cases hno

/-- **One step of a holder**: it keeps the id, or the id may be given up, or it sends the removal. -/
theorem holds_step (h : Covered w l) (hw : Wf w) (ht : Trans w act w')
    (hok : givesBack (w, l) act = true) (hS : w.holds S t) (hpos : 1 < t)
    (htimer : w.timers t = true) :
    w'.holds S t ∨ w.pendingRemoval t ∨ w'.pendingRemoval t := by
  obtain ⟨A, ha, hobj, hcase⟩ := hS
  cases ha' : w'.awaits S.addr with
  | some A' =>
    have hk := hw.keeps ht ha ha'
    have hobj' := (ht.object ha).trans hobj
    rcases hcase with hid | ⟨c, hc⟩ | ⟨hty, hn⟩
    · by_cases he : A'.timerId = A.timerId
      · exact .inl ⟨A', ha', hobj', .inl (he.trans hid)⟩
      -- `timer_id_` is overwritten
      · cases ht.edit ha ha' with
        | arm hact hc =>
          subst hact
          simp only [givesBack, hc, ha, Option.all_some] at hok
          exact .inr (.inl (h.pending_of_released (hid ▸ hok) hpos htimer))
        | _ => exact absurd rfl he
    · rcases ht.arming_next hc with hc' | ⟨B, hB, hid⟩
      · exact .inl ⟨A', ha', hobj', .inr (.inl ⟨c, hc'⟩)⟩
      · exact .inl ⟨B, hB, hobj', .inl hid⟩
    · exact .inl ⟨A', ha', hobj', .inr (.inr ⟨hk.type.trans hty, hk.name.trans hn⟩)⟩
  | none =>
    obtain ⟨c, hact, hc, ho, hsend⟩ := ht.destroyed ha ha'
    rcases hcase with hid | ⟨c₁, hc₁⟩ | ⟨hty, hn⟩
    · subst hact
      simp only [givesBack, ha, Option.all_some] at hok
      exact .inr (.inl (h.pending_of_released (hid ▸ hok) hpos htimer))
    -- the owner is in `set_await_timeout`
    · have ho₁ := hw.owner_of_at (by rw [hc₁]; rfl) ha
      rw [← ho, ho₁, hc₁] at hc
      cases hc
    · refine .inr (.inr (.destroying c ?_))
      rw [hsend hty (hn ▸ hasTimePrefix_timeName t), hn, destructorMsg_timeName]

/-- An id that is given out is held. -/
theorem held_new (ht : Trans w act w')
    (hno : l.allocated t ≠ some S) (hS : (recordTimer w act l).allocated t = some S) :
    w'.holds S t := by
  cases recordTimer_allocates w act l with
  | keep he => exact absurd (he ▸ hS) hno
  | @timeout c a hact he =>
    by_cases hid : t = w.sid + 1
    · subst hid hact
      rw [he, Function.update_self] at hS
      obtain rfl := Option.some.inj hS
      obtain ⟨A, ha, -, -, ha'⟩ := ht.setTimeout_eq
      refine ⟨_, ha', ht.object ha, .inr (.inl ⟨c, ?_⟩)⟩
      cases ht
      exact Function.update_self ..
    · rw [he, Function.update_of_ne hid] at hS
      exact absurd hS hno
  | @time c a pos id lp hact hc he =>
    by_cases hid : t = id
    · subst hid hact
      rw [he, Function.update_self] at hS
      obtain rfl := Option.some.inj hS
      cases ht with
      | registerTime hc₁ =>
        rw [hc] at hc₁
        cases hc₁
        refine ⟨_, Function.update_self .., ?_, .inr (.inr ⟨rfl, rfl⟩)⟩
        simp [World.object, births]
    · rw [he, Function.update_of_ne hid] at hS
      exact absurd hS hno

theorem held_step (h : Covered w l) (hl : Allotted w l) (hr : RemoverOk w) (hw : Wf w)
    (hkind : ∀ d, (w.disp d).ofKind = true)
    (hbox : ∀ a A, w.awaits a = some A → A.type = .normal → (w.mailbox a A).Ok)
    (ht : Trans w act w') (hok : givesBack (w, l) act = true)
    (hS : (recordTimer w act l).allocated t = some S) (htimer' : w'.timers t = true) :
    w'.holds S t ∨ w'.pendingRemoval t := by
  by_cases hS₀ : l.allocated t = some S
  · obtain ⟨hpos, hle⟩ := hl.given t S hS₀
    have htimer : w.timers t = true := by
      cases hno : w.timers t with
      | true => rfl
      | false =>
        rw [ht.timers_false hle hno] at htimer'
        cases htimer'
    have goes : w.pendingRemoval t → w'.holds S t ∨ w'.pendingRemoval t := by
      intro hp
      rcases hp.step hr hw hkind hbox ht (Nat.le_trans hle h.small) with hp | hno
      · exact .inr hp
      · rw [htimer'] at hno
        cases hno
    rcases h.held t S hS₀ htimer with hold | hp
    · rcases h.holds_step hw ht hok hold hpos htimer with hold' | hp | hp'
      · exact .inl hold'
      · exact goes hp
      · exact .inr hp'
    · exact goes hp
  · exact .inl (held_new ht hS₀ hS)

theorem sent_step (h : Covered w l) (hl : Allotted w l) (hr : RemoverOk w) (hw : Wf w)
    (hkind : ∀ d, (w.disp d).ofKind = true)
    (hbox : ∀ a A, w.awaits a = some A → A.type = .normal → (w.mailbox a A).Ok)
    (ht : Trans w act w') (hsent : (recordTimer w act l).sent t = true) :
    t ≤ w'.sid ∧ (w'.timers t = true → w'.pendingRemoval t) := by
  rcases recordTimer_sent hsent with hs | ⟨d, i, k, p, first, a, rest, A, rfl, hd, ha, hpos, rfl⟩
  · obtain ⟨hle, hp⟩ := h.sent t hs
    refine ⟨Nat.le_trans hle ht.sid_le, fun htimer' => ?_⟩
    cases htimer : w.timers t with
    | false =>
      rw [ht.timers_false hle htimer] at htimer'
      cases htimer'
    | true =>
      rcases (hp htimer).step hr hw hkind hbox ht (Nat.le_trans hle h.small) with hp | hno
      · exact hp
      · rw [htimer'] at hno
        cases hno
  · obtain ⟨-, hle⟩ := hl.given _ _ (hl.timerId a A ha hpos)
    exact ⟨Nat.le_trans hle ht.sid_le, fun _ => .pushing _ _ _ _ _ _ (ht.loadTimer_next hd ha hpos)⟩

/-- **One step.** -/
theorem step (h : Covered w l) (hl : Allotted w l) (hr : RemoverOk w) (hw : Wf w)
    (hkind : ∀ d, (w.disp d).ofKind = true)
    (hbox : ∀ a A, w.awaits a = some A → A.type = .normal → (w.mailbox a A).Ok)
    (ht : Trans w act w') (hok : givesBack (w, l) act = true) :
    Covered w' (recordTimer w act l) where
  small := h.small_step ht hok
  held _ _ := h.held_step hl hr hw hkind hbox ht hok
  sent _ := h.sent_step hl hr hw hkind hbox ht

theorem init : Covered World.init {} where
  small := by decide
  held t S hS := by cases hS
  sent t ht := by cases ht

end Covered

theorem covered_of_ledgerReach {x : World × TimerLedger}
    (h : LedgerReach (fun x act => givesBack x act = true) x) : Covered x.1 x.2 := by
  refine h.invariant (I := fun x => Covered x.1 x.2) Covered.init ?_
  intro x act y hr ih hok hs
  obtain ⟨hs, hy⟩ := Run.logged_eq_some.1 hs
  have hr' : Reachable Run.Any x.1 := hr.fst fun _ _ _ => trivial
  rw [hy]
  exact ih.step (allotted_of_ledgerReach hr) (removerOk_of_reachable hr') (wf_of_reachable hr')
    (ofKind_of_reachable hr') (mailbox_ok hr') (trans_of_step hs) hok

/-! ### Nothing is left behind -/

/-- The object is no longer there. -/
def World.gone (w : World) (S : ObjectId) : Prop :=
  w.awaits S.addr = none ∨ w.object S.addr ≠ S

/-- No `__RemoveTimer` message is left in the bus, in the queue of `co_handle_remove_timer`, or in
the middle of being handled. -/
structure World.removalsDone (w : World) : Prop where
  bus : ∀ p, w.inFlight p → p.msg.name ≠ removeTimerName
  queue : ∀ A, w.awaits removerAwait = some A →
    A.queue = [] ∧ (w.mailbox removerAwait A).hand = []
  handling : ∀ m, w.ctl remover ≠ .removing m

/-- Once an object is gone, its destructor has made its push, and no removal is left, no id given
out for the object is in `timers`. -/
def TimersEnd (w : World) (l : TimerLedger) : Prop :=
  ∀ t S, l.allocated t = some S → w.gone S → (∀ c, w.ctl c ≠ .destroying (removeTimerMsg t)) →
    w.removalsDone → w.timers t = false

theorem DispPc.packet_of_owes {pc : DispPc} (h : pc.owes m) : ∃ p, pc.packet = some p ∧ p.msg = m := by
  cases pc with
  | fetch => cases h
  | lock k p => exact ⟨p, rfl, h.1⟩
  | sharedPush p first => exact ⟨p, rfl, h⟩
  | visit k p first a rest s => exact ⟨p, rfl, h.1⟩

/-- When no removal is left, none is on its way but those of destructors and live objects. -/
theorem World.pendingRemoval.done (h : w.pendingRemoval t) (hdone : w.removalsDone)
    (hw : Wf w) (hl : Allotted w l) (hS : l.allocated t = some S) :
    (∃ c, w.ctl c = .destroying (removeTimerMsg t)) ∨ ¬w.gone S := by
  cases h with
  | destroying c hc => exact .inl ⟨c, hc⟩
  | pushing d k p first a rest hd =>
    right
    obtain rfl : w.object a = S := Option.some.inj ((hl.removal _ _ _ _ _ _ _ hd).symm.trans hS)
    obtain ⟨A, ha⟩ := hw.visited hd
    rintro (hno | hne)
    · rw [show (w.object a).addr = a from rfl, ha] at hno
      cases hno
    · exact hne rfl
  | queued d p hp hm => exact absurd (by rw [hm]; rfl) (hdone.bus p ⟨d, .inl hp⟩)
  | carried d hd =>
    obtain ⟨p, hp, hm⟩ := DispPc.packet_of_owes hd
    exact absurd (by rw [hm]; rfl) (hdone.bus p ⟨d, .inr hp⟩)
  | delivered A ha hm =>
    obtain ⟨hq, hh⟩ := hdone.queue A ha
    rw [hh, hq] at hm
    cases hm
  | removing hc => exact absurd hc (hdone.handling _)

/-- **Timers do not outlive their await**, at every state of every run in which no await is armed
again or destroyed with an id in `timer_id_` that is still to be removed, and no worker takes a
coroutine that is still inside `await_suspend`. -/
theorem timersEnd_of_givesBack {x : World × TimerLedger}
    (h : LedgerReach (fun x act => givesBack x act = true ∧ resumesSuspended x.1 act = true) x) :
    TimersEnd x.1 x.2 := by
  intro t S hS hgone hdes hdone
  have hl := allotted_of_ledgerReach h
  have hr : Reachable Run.Any x.1 := h.fst fun _ _ _ => trivial
  cases htimer : x.1.timers t with
  | false => rfl
  | true =>
    have hcov := covered_of_ledgerReach (h.mono fun _ _ hok => hok.1)
    rcases hcov.held t S hS htimer with ⟨A, ha, hobj, -⟩ | hp
    · rcases hgone with hno | hne
      · rw [ha] at hno
        cases hno
      · exact absurd hobj hne
    · rcases hp.done hdone (wf_of_reachable hr) hl hS with ⟨c, hc⟩ | hlive
      · exact absurd hc (hdes c)
      · exact absurd hgone hlive

/-- A temporary await gets a timeout. -/
def timed : List Action :=
  [Action.start 1, .body 1 (.createTemp 6 0 "n" 10 (fun _ => true) 0), .body 1 (.setTimeout 6),
    .run 1 0]

/-- It is awaited, the message comes and `remove_timer` sends the id, the await is destroyed and the
removal is handled. -/
def timedOnce : List Action :=
  timed ++ [Action.body 1 (.coAwait 6), .run 1 0, .run 1 0, .late 0, .push { name := "n" }] ++
    List.replicate 12 (Action.dispatch .normal 0) ++
    [Action.worker 0, .run 1 0, .run 1 0, .body 1 (.destroy 6)] ++
    List.replicate 10 (Action.dispatch .normal 0) ++ [Action.worker 0] ++
    List.replicate 6 (Action.run remover 0)

theorem timersEnd_timedOnce : ∃ x : World × TimerLedger,
    LedgerReach (fun x act => givesBack x act = true ∧ resumesSuspended x.1 act = true) x ∧
      (x.2.allocated 2 = some ⟨6, 1⟩ ∧ x.1.gone ⟨6, 1⟩ ∧ x.1.sid = 2 ∧
        x.1.ctl remover = .body) ∧ TimersEnd x.1 x.2 := by
  have hrun : (Run.exec (Run.guarded (Run.logged step recordTimer)
      fun x act => givesBack x act = true ∧ resumesSuspended x.1 act = true) (World.init, {})
      timedOnce).any (fun x => decide
      (x.2.allocated 2 = some ⟨6, 1⟩ ∧ (x.1.awaits 6).isNone = true ∧ x.1.sid = 2 ∧
        x.1.ctl remover = .body)) = true := by
    decide +kernel
  obtain ⟨x, hr, hS, hno, hx⟩ := Run.exists_reach_of_exec_guarded hrun
  exact ⟨x, hr, ⟨hS, .inl (Option.isNone_iff_eq_none.1 hno), hx⟩, timersEnd_of_givesBack hr⟩

/-- The coroutine leaves before it waits: the await is destroyed, nothing is sent, and the timer
stays in `timers`. -/
theorem timer_left_behind : ∃ x : World × TimerLedger,
    LedgerReach Run.Any x ∧ ¬TimersEnd x.1 x.2 := by
  have hrun : (Run.exec (Run.guarded (Run.logged step recordTimer)
      fun x act => ownNames x.1 act = true) (World.init, {})
      (timed ++ [Action.body 1 (.destroy 6)])).any (fun x => decide
      (x.2.allocated 2 = some ⟨6, 1⟩ ∧ x.2.senders = [] ∧ (x.1.awaits 6).isNone = true ∧
        x.1.timers 2 = true ∧
        (x.1.busQueue .normal = [] ∧ x.1.busQueue .high = [] ∧ x.1.disp .normal = .fetch ∧
          x.1.disp .high = .fetch) ∧
        ((x.1.awaits removerAwait).all fun A => decide (A.queue = [] ∧
          (x.1.mailbox removerAwait A).hand = [])) = true ∧
        x.1.ctl remover = .suspended removerAwait)) = true := by
    decide +kernel
  obtain ⟨x, hr, hS, hsend, hno, htimer, ⟨hqn, hqh, hdn, hdh⟩, hbox, hc⟩ :=
    Run.exists_reach_of_exec_guarded hrun
  refine ⟨x, hr.mono fun _ _ _ => trivial, fun h => ?_⟩
  have hdone : x.1.removalsDone := by
    refine ⟨?_, fun A ha => ?_, fun m hm => ?_⟩
    · rintro p ⟨d, hq | hd⟩
      · cases d with
        | normal => simp [hqn] at hq
        | high => simp [hqh] at hq
      · cases d with
        | normal => simp [hdn, DispPc.packet] at hd
        | high => simp [hdh, DispPc.packet] at hd
    · rw [ha] at hbox
      exact of_decide_eq_true hbox
    · rw [hc] at hm
      cases hm
  have hdes : ∀ c, x.1.ctl c ≠ .destroying (removeTimerMsg 2) := by
    intro c hd
    obtain ⟨S, hmem⟩ := (owned_of_ledgerReach hr).destroying c _ hd
    rw [hsend] at hmem
    cases hmem
  rw [h 2 ⟨6, 1⟩ hS (.inl (Option.isNone_iff_eq_none.1 hno)) hdes hdone] at htimer
  cases htimer

end DataProxy
