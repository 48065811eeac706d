import DataProxy.TimerUse

/-!
# The removal of timers

A removal is on its way from the moment a delivery has read `timer_id_` (or an await of
`create_time_await` is destroyed) until `co_handle_remove_timer` cancels the timer: in the hands of
the sender, in the bus, in the queue of the remover's await, in the hands of the remover.
`Removals` says that every removal on its way is that of a *spent* timer: one that no await waits
for, now or ever again.

This needs that `remove_timer` does not read the id of a timer armed for the next wait, which it does
when the coroutine has been resumed and has called `set_await_timeout` again in the meantime.
-/

namespace DataProxy

open Function (update)

variable {w w' : World} {act : Action} {a : Addr} {A A' : Await} {t : TimerId}
  {m : InternalMessage}

/-- No await waits for the timer, and none ever will. -/
structure World.spent (w : World) (t : TimerId) : Prop where
  given : t ≤ w.sid
  unused : ∀ a A, w.awaits a = some A → ¬A.timedBy t
  created : ∀ c l, w.ctl c ≠ .creatingTime t l

/-- The message asks for the removal of a spent timer. -/
def World.removal (w : World) (m : InternalMessage) : Prop :=
  ∃ t, m.data = toString t ∧ w.spent t

/-- An await comes to wait for a timer by `set_await_timeout` or by `create_time_await`. -/
theorem Wf.timedBy_from (hw : Wf w) (ht : Trans w act w') (ha' : w'.awaits a = some A')
    (hA' : A'.timedBy t) :
    (∃ A, w.awaits a = some A ∧ A.timedBy t) ∨
      (t = w.sid + 1 ∧ ∃ c, act = .body c (.setTimeout a)) ∨
      ∃ c pos, act = .registerTime c a pos ∧ w.ctl c = .creatingTime t false := by
  rcases (hw.awaitStep ht).backward ha' with ⟨A, ha, -⟩ | ⟨ha, hf, -⟩
  · rcases hA' with hA' | hA'
    · rcases (ht.edit ha ha').timeoutFor hA' with hA | ⟨c, hact, he⟩
      · exact .inl ⟨A, ha, .inl hA⟩
      · exact .inr (.inl ⟨he, c, hact⟩)
    · exact .inl ⟨A, ha, .inr ((ht.edit ha ha').tickFor hA')⟩
  · rcases hA' with hA' | hA'
    · rw [hf.timeoutFor] at hA'
      cases hA'
    · obtain ⟨c, pos, hact, hc, -⟩ := (ht.created ha ha').of_tickFor hA'
      exact .inr (.inr ⟨c, pos, hact, hc⟩)

/-- A spent timer stays spent. -/
theorem World.spent.step (h : w.spent t) (hw : Wf w) (ht : Trans w act w') : w'.spent t where
  given := h.given.trans ht.sid_le
  unused a A' ha' hA' := by
    rcases hw.timedBy_from ht ha' hA' with ⟨A, ha, hA⟩ | ⟨rfl, -⟩ | ⟨c, pos, -, hc⟩
    · exact h.unused a A ha hA
    · exact absurd h.given (Nat.not_succ_le_self _)
    · exact h.created c false hc
  created c l hc := by
    rcases ht.creatingTime hc with hc | ⟨rfl, -⟩
    · exact h.created c l hc
    · exact absurd h.given (Nat.not_succ_le_self _)

theorem World.removal.step (h : w.removal m) (hw : Wf w) (ht : Trans w act w') :
    w'.removal m := by
  obtain ⟨t, hd, hs⟩ := h
  exact ⟨t, hd, hs.step hw ht⟩

/-- The condition on one step: `remove_timer` does not read the id of a timer armed for the next
wait. -/
def removesSpent (w : World) : Action → Bool
  | .dispatch d _ =>
    match w.disp d with
    | .visit _ _ _ a _ .loadTimer =>
      (w.awaits a).all fun A => decide (A.timeoutFor ≠ some A.timerId)
    | _ => true
  | _ => true

/-- What `remove_timer` reads is spent. -/
theorem TimerUse.spent_timerId (h : TimerUse w) (hT : TimersOk w) (ha : w.awaits a = some A)
    (hpos : 0 < A.timerId) (hno : A.timeoutFor ≠ some A.timerId) : w.spent A.timerId := by
  obtain ⟨T, n, hT', hf⟩ := h.timerId a A ha hpos
  -- the id is that of a timeout, not of a tick
  have tick : ∀ {S l n'}, w.timerAt A.timerId = some S → S.func ≠ .tick n' l := by
    intro S l n' hS hS'
    obtain rfl := Option.some.inj (hT'.symm.trans hS)
    rw [hf] at hS'
    cases hS'
  refine ⟨hT.known _ T hT', fun b B hb hB => ?_, fun c l hc => ?_⟩
  · rcases hB with hB | hB
    · obtain rfl := h.one a b A B _ hpos ha hb (.inl rfl) (.inr hB)
      obtain rfl := Option.some.inj (ha.symm.trans hb)
      exact hno hB
    · obtain ⟨hty, hn, -⟩ := h.tickFor b B _ hb hB
      obtain ⟨t', S, l, hn', hS, hSf⟩ := h.prefixed b B hb hty (hn ▸ hasTimePrefix_timeName _)
      obtain rfl := timeName_injective (hn'.symm.trans hn)
      exact tick hS hSf
  · obtain ⟨-, -, ⟨S, hS, hSf⟩, -⟩ := h.creating c _ l hc
    exact tick hS hSf

/-- What `~TempMessageAwait` removes is spent once the await is gone. -/
theorem TimerUse.spent_destroyed (h : TimerUse w) (hw : Wf w) (hT : TimersOk w)
    (ht : Trans w act w') {c : CoId} (hact : act = .body c (.destroy a))
    (ha : w.awaits a = some A) (hty : A.type = .temp)
    (hp : hasTimePrefix A.waitMessageName = true) :
    ∃ t, A.waitMessageName = timeName t ∧ w'.spent t := by
  obtain ⟨t, T, l, hn, hT', hf⟩ := h.prefixed a A ha hty hp
  have hlive : w.Live .temp (timeName t) a := ⟨A, ha, hty, hn⟩
  have gone : w'.awaits a = none := by
    subst hact
    cases ht
    exact Function.update_self ..
  refine ⟨t, hn, (hT.known t T hT').trans ht.sid_le, fun b B' hb' hB' => ?_, fun c l hc => ?_⟩
  · rcases hw.timedBy_from ht hb' hB' with ⟨B, hb, hB⟩ | ⟨-, c', he⟩ | ⟨c', pos, he, -⟩
    · rcases hB with hB | hB
      · obtain ⟨-, S, hS, hSf⟩ := h.timeoutFor b B t hb hB
        obtain rfl := Option.some.inj (hT'.symm.trans hS)
        rw [hf] at hSf
        cases hSf
      · obtain ⟨hBty, hBn, -⟩ := h.tickFor b B t hb hB
        obtain rfl := h.alone a b t hlive ⟨B, hb, hBty, hBn⟩
        rw [gone] at hb'
        cases hb'
    · rw [hact] at he
      cases he
    · rw [hact] at he
      cases he
  · rcases ht.creatingTime hc with hc | ⟨rfl, -⟩
    · exact (h.creating c t l hc).2.2.2 a hlive
    · exact absurd (hT.known _ T hT') (Nat.not_succ_le_self _)

/-- Every removal on its way is one of a spent timer. -/
structure Removals (w : World) : Prop where
  object : ∃ A, w.awaits removerAwait = some A ∧ A.type = .normal ∧
    A.waitMessageName = removeTimerName ∧ A.owner = remover
  packets : ∀ p, w.inFlight p → p.msg.name = removeTimerName → w.removal p.msg
  destroying : ∀ c m, w.ctl c = .destroying m → w.removal m
  pushing : ∀ d k p first a rest id, w.disp d = .visit k p first a rest (.pushRemove id) →
    w.spent id
  delivered : ∀ m ∈ delivered removerAwait w.trace, w.removal m
  removing : ∀ c m, w.ctl c = .removing m → w.removal m

namespace Removals

theorem packets_step (h : Removals w) (hu : TimerUse w) (hw : Wf w) (ht : Trans w act w')
    (hok : reserved w act = true) {p : Packet} (hp : w'.inFlight p)
    (hn : p.msg.name = removeTimerName) : w'.removal p.msg := by
  refine World.removal.step ?_ hw ht
  rcases ht.inFlight hp with hp | hnew
  · exact h.packets p hp hn
  · cases hnew with
    | outside hact =>
      rcases hact with rfl | rfl <;> exact absurd hn (of_decide_eq_true hok)
    | destructor _ hc => exact h.destroying _ _ hc
    | removal _ hd hm => exact ⟨_, by rw [hm]; rfl, h.pushing _ _ _ _ _ _ _ hd⟩
    | callback _ _ hT hm => exact absurd hn (hu.funcs _ _ _ hT hm)

theorem destroying_step (h : Removals w) (hu : TimerUse w) (hw : Wf w) (hT : TimersOk w)
    (ht : Trans w act w') {c : CoId} (hc : w'.ctl c = .destroying m) : w'.removal m := by
  rcases ht.destroying hc with hc | ⟨a, A, hact, ha, hty, hp, rfl⟩
  · exact (h.destroying c m hc).step hw ht
  · obtain ⟨t, hn, hs⟩ := hu.spent_destroyed hw hT ht hact ha hty hp
    exact ⟨t, by rw [hn, destructorMsg_timeName]; rfl, hs⟩

theorem pushing_step (h : Removals w) (hu : TimerUse w) (hw : Wf w) (hT : TimersOk w)
    (ht : Trans w act w') (hok : removesSpent w act = true) {d : Dispatcher} {k : AwaitType}
    {p : Packet} {first : Addr} {rest : List Addr} {id : TimerId}
    (hd : w'.disp d = .visit k p first a rest (.pushRemove id)) : w'.spent id := by
  refine World.spent.step ?_ hw ht
  rcases ht.visit_from hd (by simp) with hd₀ | ⟨i, s, rfl, hd₀, hm⟩
  · exact h.pushing _ _ _ _ _ _ _ hd₀
  · cases hm with
    | loadTimer ha hpos =>
      refine hu.spent_timerId hT ha hpos ?_
      simpa [removesSpent, hd₀, ha] using hok
    | enter _ _ hs => rcases hs with ⟨-, hs⟩ | ⟨-, hs⟩ | ⟨-, hs, -⟩ <;> cases hs
    | stateStop _ hs => rcases hs with ⟨-, hs⟩ | ⟨-, hs⟩ <;> cases hs
    | awaitThis _ hs => rcases hs with ⟨-, hs⟩ | ⟨-, hs⟩ | ⟨-, hs⟩ <;> cases hs

theorem delivered_step (h : Removals w) (hr : RemoverOk w) (hw : Wf w) (ht : Trans w act w')
    (hm : m ∈ DataProxy.delivered removerAwait w'.trace) : w'.removal m := by
  refine World.removal.step ?_ hw ht
  rcases hr.delivered_from hw ht hm with hm | ⟨p, hp, hn, rfl⟩
  · exact h.delivered m hm
  · exact h.packets p hp hn

theorem removing_step (h : Removals w) (hr : RemoverOk w) (hw : Wf w)
    (hbox : ∀ a A, w.awaits a = some A → A.type = .normal → (w.mailbox a A).Ok)
    (ht : Trans w act w') {c : CoId} (hc : w'.ctl c = .removing m) : w'.removal m := by
  apply World.removal.step ?_ hw ht
  rcases hr.removing hw hbox ht hc with hc | hm
  · exact h.removing c m hc
  · exact h.delivered m hm

/-- **One step.** -/
theorem step (h : Removals w) (hr : RemoverOk w) (hu : TimerUse w) (hw : Wf w) (hT : TimersOk w)
    (hbox : ∀ a A, w.awaits a = some A → A.type = .normal → (w.mailbox a A).Ok)
    (ht : Trans w act w') (hres : reserved w act = true) (hok : removesSpent w act = true) :
    Removals w' where
  object := by
    obtain ⟨A, ha, hty, hn, ho, -⟩ := (hr.step hw ht).object
    exact ⟨A, ha, hty, hn, ho⟩
  packets _ := h.packets_step hu hw ht hres
  destroying _ _ := h.destroying_step hu hw hT ht
  pushing _ _ _ _ _ _ _ := h.pushing_step hu hw hT ht hok
  delivered _ := h.delivered_step hr hw ht
  removing _ _ := h.removing_step hr hw hbox ht

theorem init : Removals World.init := by
  refine ⟨⟨removerObject, by simp [World.init], rfl, rfl, rfl⟩, ?_, fun c m hc => ?_,
    fun d k p first a rest id hd => ?_, fun m hm => ?_, fun c m hc => ?_⟩
  · rintro p ⟨d, hq | hd⟩
    · cases hq
    · cases hd
  · rcases World.init_ctl c with h | ⟨-, h⟩ <;> rw [h] at hc <;> cases hc
  · cases hd
  · cases hm
  · rcases World.init_ctl c with h | ⟨-, h⟩ <;> rw [h] at hc <;> cases hc

/-- The remover cancels no timer that is still needed. -/
theorem cancels_spent (h : Removals w) (hu : TimerUse w) {c : CoId} (hc : w.ctl c = .removing m)
    (junk : ℕ) : w.spent ((string2Int m.data).getD junk) := by
  obtain ⟨t, hd, hs⟩ := h.removing c m hc
  rw [hd, string2Int_toString (hs.given.trans hu.small)]
  exact hs

end Removals

theorem removals_of_reachable {ok : World → Action → Prop}
    (hok : ∀ w act, ok w act → reserved w act = true ∧ removesSpent w act = true)
    (h : Reachable ok w) : Removals w := by
  refine h.invariant (I := Removals) Removals.init fun s act s' hr ih ha hs => ?_
  exact ih.step (removerOk_of_reachable hr)
    (timerUse_of_reachable (fun w act h => (hok w act h).1) hr) (wf_of_reachable hr)
    (timersOk_of_reachable hr) (mailbox_ok hr) (trans_of_step hs) (hok s act ha).1 (hok s act ha).2

end DataProxy
