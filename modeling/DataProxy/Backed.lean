import DataProxy.Wake
import DataProxy.Delivery

/-!
# Wakes and unread messages

`MessageAwait::push_message` enqueues first and looks at the coroutine afterwards.  In between the
coroutine may take the message by `await_ready` and stop again; the check then finds `StopState`
and schedules a coroutine for which there is nothing to read, and `await_resume` spins until the
next message comes.

`Backed w` is what holds when no check comes too late: from the moment a check has found the
coroutine stopped on `a` until the coroutine has taken a message, the queue of `a` is not empty.
-/

namespace DataProxy

open Function (update)

variable {w w' : World} {act : Action} {a : Addr} {A A' : Await} {c : CoId}

/-- The coroutine is scheduled, marked for it, or has been found stopped by a delivery to the
`MessageAwait` at `a`. -/
def World.engaged (w : World) (a : Addr) (c : CoId) : Prop :=
  c ∈ w.scheduled ∨ (∃ d, (w.disp d).pushing = some c) ∨
    ∃ d p first rest s, w.disp d = .visit .normal p first a rest s ∧ s.checked .normal = some c

/-- The condition on one step: when `push_message` on a `MessageAwait` finds `StopState`, and the
coroutine is suspended on that await, its queue is not empty. -/
def checksBacked (w : World) : Action → Bool
  | .dispatch d _ =>
    match w.disp d with
    | .visit .normal _ _ a _ (.loadState h) =>
      decide ((w.promise h).state = .stopState → w.ctl h = .suspended a →
        (w.awaits a).map Await.queue ≠ some [])
    | _ => true
  | _ => true

theorem checksBacked_loadState {d : Dispatcher} {i : ℕ} {p : Packet} {first : Addr}
    {rest : List Addr} (h : checksBacked w (.dispatch d i) = true)
    (hd : w.disp d = .visit .normal p first a rest (.loadState c))
    (hs : (w.promise c).state = .stopState) (hc : w.ctl c = .suspended a)
    (ha : w.awaits a = some A) : A.queue ≠ [] := by
  simp only [checksBacked, hd, decide_eq_true_eq] at h
  simpa [ha] using h hs hc

/-- Every engaged coroutine that is suspended on a `MessageAwait` has something to read, and so has
one that a wake has sent to the queue. -/
structure Backed (w : World) : Prop where
  engaged : ∀ a A c, w.awaits a = some A → A.type = .normal → w.ctl c = .suspended a →
    w.engaged a c → A.queue ≠ []
  fed : ∀ a A, w.awaits a = some A → A.type = .normal → (w.mailbox a A).Fed

/-- How a suspended coroutine comes to be engaged: by a check that finds `StopState`. -/
theorem engaged_of_step (hw : Wf w) (ht : Trans w act w') (hown : WakesOwn w act)
    (ha : w.awaits a = some A) (hn : A.type = .normal) (hc : w.ctl c = .suspended a)
    (h : w'.engaged a c) :
    w.engaged a c ∨ ∃ d i p first rest, act = .dispatch d i ∧
      w.disp d = .visit .normal p first a rest (.loadState c) ∧
        (w.promise c).state = .stopState := by
  rcases h with hm | ⟨d, hd⟩ | ⟨d, p, first, rest, s, hd, hs⟩
  · rcases ht.scheduled hm with hm | hd
    · exact .inl (.inl hm)
    · exact .inl (.inr (.inl hd))
  · rcases ht.pushing hd with hd | ⟨i, k, p, first, b, rest, rfl, hd⟩
    · exact .inl (.inr (.inl ⟨d, hd⟩))
    · -- the delivery that marks the coroutine is one to `a`
      have hb := hown d i k p first b rest c rfl hd
      obtain rfl : b = a := by simpa [hc, eq_comm] using hb
      obtain rfl : k = .normal := (hw.visit_type hd ha).1.symm.trans hn
      exact .inl (.inr (.inr ⟨d, p, first, rest, _, hd, rfl⟩))
  · rcases ht.checked_visit hd hs with ⟨s₀, hd₀, hs₀⟩ | ⟨i, rfl, hd₀, hst, -⟩
    · exact .inl (.inr (.inr ⟨d, p, first, rest, s₀, hd₀, hs₀⟩))
    · exact .inr ⟨d, i, p, first, rest, rfl, hd₀, hst⟩

/-- A coroutine comes to be suspended by its own store of `StopState`. -/
theorem Trans.suspended (ht : Trans w act w') (h : w'.ctl c = .suspended a) :
    w.ctl c = .suspended a ∨ w.ctl c = .suspending a .state ∧ w'.coQueue = w.coQueue ∧
      w'.disp = w.disp ∧ (w'.promise c).state = .stopState := by
  rcases ht.ctl_from c with he | hm
  · exact .inl (he ▸ h)
  rw [h] at hm
  generalize w.ctl c = x at hm
  cases hm with
  | suspendState hp hq hd => exact .inr ⟨rfl, hq, hd, hp⟩

/-- Only a worker brings a coroutine back from its sleep. -/
theorem Trans.woken (ht : Trans w act w') (h : (w.ctl c).place a = .asleep)
    (h' : (w'.ctl c).place a = .back) : w.ctl c = .suspended a ∧ c ∈ w.scheduled := by
  rcases ht.ctl_from c with he | hm
  · rw [he, h] at h'
    cases h'
  generalize w.ctl c = x, w'.ctl c = y at hm h h' ⊢
  cases hm with
  | @resume b B s i e hi he =>
    obtain rfl : b = a := by
      by_contra hab
      simp [Ctl.place, hab] at h
    exact ⟨rfl, List.mem_map.2 ⟨e, List.mem_of_getElem? hi, he⟩⟩
  | loadSuspend | dequeue | clearSuspend | storeRuning | ret | retRemover | suspendFlag
  | suspendHandle | suspendState =>
    simp only [Ctl.place] at h h'
    grind
  | _ => cases h

/-- A running coroutine is not engaged. -/
theorem not_engaged_of_running (hs : Solo w c) (hhigh : w.disp .high = .fetch)
    (hr : w.isRunning c) : ¬w.engaged a c := by
  rintro (hm | ⟨d, hd⟩ | ⟨d, p, first, rest, s, hd, hch⟩)
  · exact hs.claim.not_scheduled_of_running hr hm
  · exact hs.claim.not_pushing_of_running hr d hd
  · cases d with
    | normal => exact hs.claim.not_stopped_of_running hr (hs.checked (by rw [hd]; exact hch))
    | high => rw [hhigh] at hd; cases hd

/-- **One step.** -/
theorem Backed.step (h : Backed w) (hw : Wf w) (hkind : ∀ d, (w.disp d).ofKind = true)
    (hsolo : ∀ c, Solo w c) (hhigh : w.disp .high = .fetch)
    (hbox : ∀ a A, w.awaits a = some A → A.type = .normal → (w.mailbox a A).Ok)
    (ht : Trans w act w') (hown : WakesOwn w act) (hok : checksBacked w act = true) :
    Backed w' := by
  refine ⟨fun a A' c ha' hn hc' he' => ?_, fun a A' ha' hn => ?_⟩
  · rcases ht.suspended hc' with hc | ⟨hc, hq, hd, -⟩
    · obtain ⟨A, ha, ho⟩ := hw.at_await c a (by rw [hc]; rfl)
      have hkeep := hw.keeps ht ha ha'
      have hn' : A.type = .normal := hkeep.type ▸ hn
      have hq : A.queue ≠ [] := by
        rcases engaged_of_step hw ht hown ha hn' hc he' with he | ⟨d, i, p, first, rest, rfl, hd, hst⟩
        · exact h.engaged a A c ha hn' hc he
        · exact checksBacked_loadState hok hd hst hc ha
      rcases hw.mailbox_step hkind ht ha hn' ha' with he | hst
      · have : A'.queue = A.queue := congrArg Mailbox.queue he
        rwa [this]
      · refine hst.queue_ne_nil ?_ hq
        simp [World.mailbox, hkeep.owner, ho, hc', Ctl.place]
    · have he : w.engaged a c := by simpa only [World.engaged, World.scheduled, hq, hd] using he'
      exact absurd he (not_engaged_of_running (hsolo c) hhigh
        (by simp [World.isRunning, hc, Ctl.running]))
  · cases ha : w.awaits a with
    | none => simp [Mailbox.Fed, (hw.mailbox_created ht ha ha').2]
    | some A =>
      have hkeep := hw.keeps ht ha ha'
      have hn' : A.type = .normal := hkeep.type ▸ hn
      rcases hw.mailbox_step hkind ht ha hn' ha' with he | hst
      · exact he ▸ h.fed a A ha hn'
      · refine (h.fed a A ha hn').step (hbox a A ha hn') hst fun hp hp' => ?_
        have hp' : (w'.ctl A.owner).place a = .back := by
          simpa [World.mailbox, hkeep.owner] using hp'
        obtain ⟨hc, hm⟩ := ht.woken hp hp'
        exact h.engaged a A A.owner ha hn' hc (.inl hm)

theorem Backed.init : Backed World.init := by
  refine ⟨fun a A c _ _ hc he => ?_, fun a A ha _ => ?_⟩
  · rcases he with hm | ⟨d, hd⟩ | ⟨d, p, first, rest, s, hd, -⟩
    · simp [World.init, World.scheduled] at hm
    · simp [World.init] at hd
    · simp [World.init] at hd
  · obtain ⟨rfl, rfl⟩ := World.init_awaits ha
    simp [Mailbox.Fed, World.mailbox, World.init, removerObject, Ctl.place]

/-- The condition on one step, for runs of the normal dispatcher: no check of a `MessageAwait`
comes too late, and each wake finds the checked cells unchanged. -/
def wakesBacked (w : World) (act : Action) : Bool :=
  normalOnly w act && (checksBacked w act && wakesSettled w act)

theorem backed_of_reachable (h : Reachable (fun w act => wakesBacked w act = true) w) :
    Backed w := by
  refine h.invariant (I := Backed) Backed.init fun s act s' hr ih hok hs => ?_
  have split : ∀ s act, wakesBacked s act = true →
      normalOnly s act = true ∧ checksBacked s act = true ∧ wakesSettled s act = true := by
    intro s act h
    simpa [wakesBacked] using h
  have hnormal := hr.mono fun s act h => (split s act h).1
  have hsettled := hr.mono fun s act h => (split s act h).2.2
  obtain ⟨-, hb, hset⟩ := split s act hok
  exact ih.step (wf_of_reachable hr) (ofKind_of_reachable hr) (solo_of_normalOnly hnormal)
    (high_idle hnormal).2 (mailbox_ok hr) (trans_of_step hs)
    (wakesOwn_step hsettled hset) hb

/-- The step is not a worker's resumption of a coroutine suspended on a `MessageAwait`, or the
queue of that await is not empty. -/
def WakeBacked (w : World) (act : Action) : Prop :=
  ∀ i e a A, act = .worker i → w.coQueue[i]? = some e → w.ctl e.handle = .suspended a →
    w.awaits a = some A → A.type = .normal → A.queue ≠ []

/-- No worker is about to call `try_dequeue` in `await_resume` on an empty queue. -/
def NoSpin (w : World) : Prop :=
  ∀ c a A, w.ctl c = .resuming a .dequeue → w.awaits a = some A → A.type = .normal →
    A.queue ≠ []

/-- **Every wake of a `MessageAwait` is backed by a message**, and `await_resume` never spins, along
every run of the normal dispatcher in which no check comes after the coroutine has emptied the
queue and stopped again, and each wake finds the checked cells unchanged. -/
theorem wakeBacked_of_wakesBacked (h : Reachable (fun w act => wakesBacked w act = true) w) :
    NoSpin w ∧ ∀ act w', step w act = some w' → WakeBacked w act := by
  have hb := backed_of_reachable h
  refine ⟨fun c a A hc ha hn => ?_, ?_⟩
  · obtain rfl := (wf_of_reachable h).owner_of_at (by rw [hc]; rfl) ha
    exact hb.fed a A ha hn (.inl (by simp [World.mailbox, hc, Ctl.place]))
  · rintro act w' - i e a A rfl hi hc ha hn
    exact hb.engaged a A e.handle ha hn hc (.inl (List.mem_map.2 ⟨e, List.mem_of_getElem? hi, rfl⟩))

/-- A coroutine is woken by `"m"` and takes it. -/
def firstMessage : List Action :=
  [Action.start 1, .body 1 (.createMessage 5 0 "m" 0 0), .body 1 (.coAwait 5), .run 1 0, .run 1 0,
    .run 1 0, .late 0, .push { name := "m" }] ++
  List.replicate 10 (Action.dispatch .normal 0) ++ [Action.worker 0]

/-- A second `"m"` is enqueued; before the check the coroutine takes it by `await_ready` and stops
again, so that the check schedules it for nothing. -/
def lateCheck : List Action :=
  firstMessage ++ List.replicate 5 (Action.run 1 0) ++ [Action.push { name := "m" }] ++
  List.replicate 5 (Action.dispatch .normal 0) ++ [Action.body 1 (.coAwait 5)] ++
  List.replicate 4 (Action.run 1 0) ++
  [Action.body 1 (.coAwait 5), .run 1 0, .run 1 0, .run 1 0, .late 0] ++
  List.replicate 4 (Action.dispatch .normal 0)

/-- Without the condition a worker can resume a coroutine that has nothing to read. -/
theorem wake_unbacked :
    ∃ w act w', Reachable (fun w act => normalOnly w act = true) w ∧ step w act = some w' ∧
      ¬WakeBacked w act := by
  have hrun : (Run.exec (Run.guarded step fun w act => normalOnly w act = true) World.init
      lateCheck).any (fun w => decide (w.coQueue = [⟨0, 1, 0⟩] ∧ w.ctl 1 = .suspended 5 ∧
        (step w (.worker 0)).isSome ∧
        (w.awaits 5).any fun A => decide (A.type = .normal ∧ A.queue = []))) = true := by
    decide +kernel
  obtain ⟨w, hw, hq, hc, hs, hA⟩ := Run.exists_reach_of_exec_guarded hrun
  obtain ⟨w', hw'⟩ := Option.isSome_iff_exists.1 hs
  obtain ⟨A, hA, hs⟩ := (Option.any_eq_true ..).1 hA
  obtain ⟨hn, hempty⟩ := of_decide_eq_true hs
  refine ⟨w, _, w', hw, hw', fun h => ?_⟩
  exact h 0 ⟨0, 1, 0⟩ 5 A rfl (by simp [hq]) hc hA hn hempty

theorem wakeBacked_firstMessage :
    ∃ w w', Reachable (fun w act => wakesBacked w act = true) w ∧
      step w (.worker 0) = some w' ∧ w.scheduled = [1] ∧ w.ctl 1 = .suspended 5 ∧ NoSpin w ∧
      WakeBacked w (.worker 0) := by
  have hrun : (Run.exec (Run.guarded step fun w act => wakesBacked w act = true) World.init
      (firstMessage.take 18)).any (fun w => decide (w.scheduled = [1] ∧
        w.ctl 1 = .suspended 5 ∧ (step w (.worker 0)).isSome)) = true := by
    decide +kernel
  obtain ⟨w, hw, hq, hc, hs⟩ := Run.exists_reach_of_exec_guarded hrun
  obtain ⟨w', hw'⟩ := Option.isSome_iff_exists.1 hs
  obtain ⟨hspin, hback⟩ := wakeBacked_of_wakesBacked hw
  exact ⟨w, w', hw, hw', hq, hc, hspin, hback _ _ hw'⟩

end DataProxy
