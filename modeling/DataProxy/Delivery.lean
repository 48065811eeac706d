import DataProxy.Solo
import DataProxy.Lib.Mailbox

/-!
# Delivery to a `MessageAwait`

A `MessageAwait` with its coroutine is a mailbox with one reader: `await_ready` and `await_resume`
are the two routes to the queue, and `suspend_` is the flag.  `World.mailbox` reads the mailbox off
the state of the program and off the history since the await was constructed;
`Wf.mailbox_step` says that every step of the program is a step of the mailbox or leaves it as it
is.  What holds of mailboxes then holds of every live `MessageAwait` in every run.
-/

namespace DataProxy

open Function (update)

variable {w w' : World} {act : Action} {a : Addr} {A A' : Await}

/-- Where a coroutine stands, seen from the `MessageAwait` at `a`. -/
def Ctl.place (a : Addr) : Ctl → Mailbox.Place
  | .suspending b s => if b = a then (if s = .flag then .going else .asleep) else .away
  | .suspended b => if b = a then .asleep else .away
  | .resuming b s =>
    if b = a then
      match s with
      | .loadSuspend => .back
      | .dequeue => .taking
      | .clearSuspend => .holding
      | .state | .ret => .leaving
    else .away
  | .fresh | .body | .creatingTime _ _ | .arming _ _ | .destroying _ | .removing _ | .done => .away

/-- The messages enqueued on the await at `a` since it was constructed, oldest first. -/
def delivered (a : Addr) : List Event → List InternalMessage
  | [] => []
  | .created b :: t => if b = a then [] else delivered a t
  | .enqueued b m :: t => if b = a then delivered a t ++ [m] else delivered a t
  | .sharedDispatched _ :: t | .returned _ _ _ _ :: t => delivered a t

/-- The messages that `co_await` on the await at `a` returned since it was constructed, oldest
first. -/
def received (a : Addr) : List Event → List InternalMessage
  | [] => []
  | .created b :: t => if b = a then [] else received a t
  | .returned _ _ b m :: t => if b = a then received a t ++ [m] else received a t
  | .sharedDispatched _ :: t | .enqueued _ _ :: t => received a t

/-- The mailbox of the `MessageAwait` at `a`. -/
def World.mailbox (w : World) (a : Addr) (A : Await) : Mailbox InternalMessage where
  place := (w.ctl A.owner).place a
  flag := A.suspend
  queue := A.queue
  data := A.data
  received := received a w.trace
  delivered := delivered a w.trace

theorem Ctl.place_eq_away {x : Ctl} (h : x.at ≠ some a) : x.place a = .away := by
  cases x with
  | suspending b s | suspended b | resuming b s =>
    have hb : b ≠ a := by simpa [Ctl.at] using h
    simp [Ctl.place, hb]
  | _ => rfl

/-- A coroutine that moves between places away from `a`. -/
theorem Ctl.place_update {f : CoId → Ctl} {c c₁ : CoId} {y : Ctl} (hx : (f c₁).at ≠ some a)
    (hy : y.at ≠ some a) : (update f c₁ y c).place a = (f c).place a := by
  by_cases hcc : c = c₁
  · subst hcc
    rw [Function.update_self, Ctl.place_eq_away hx, Ctl.place_eq_away hy]
  · rw [Function.update_of_ne hcc]

theorem World.mailbox_congr (ho : A'.owner = A.owner) (hs : A'.suspend = A.suspend)
    (hq : A'.queue = A.queue) (hd : A'.data = A.data)
    (hp : (w'.ctl A.owner).place a = (w.ctl A.owner).place a)
    (hr : received a w'.trace = received a w.trace)
    (hv : delivered a w'.trace = delivered a w.trace) : w'.mailbox a A' = w.mailbox a A := by
  simp only [World.mailbox, ho, hs, hq, hd, hp, hr, hv]

/-- The coroutine inside the functions of `a` is the owner of the await there. -/
theorem Wf.owner_of_at (hw : Wf w) {c : CoId} (hc : (w.ctl c).at = some a)
    (ha : w.awaits a = some A) : A.owner = c := by
  obtain ⟨A', ha', ho⟩ := hw.at_await c a hc
  obtain rfl : A = A' := Option.some.inj (ha.symm.trans ha')
  exact ho

/-- The await being visited is alive. -/
theorem Wf.visited (hw : Wf w) {d : Dispatcher} {k : AwaitType} {p : Packet} {first : Addr}
    {rest : List Addr} {s : VisitPc} (hd : w.disp d = .visit k p first a rest s) :
    ∃ A, w.awaits a = some A := by
  obtain ⟨A, ha, -⟩ := hw.scanning d k p (by rw [hd]; simp [DispPc.inPhase]) (by rw [hd]; rfl) a
    (by rw [hd]; simp [DispPc.scanned])
  exact ⟨A, ha⟩

/-- The await being visited is of the kind of the block. -/
theorem Wf.visit_type (hw : Wf w) {d : Dispatcher} {k : AwaitType} {p : Packet} {first : Addr}
    {rest : List Addr} {s : VisitPc} (hd : w.disp d = .visit k p first a rest s)
    (ha : w.awaits a = some A) : A.type = k ∧ A.waitMessageName = p.msg.name := by
  obtain ⟨A', ha', hk, hn⟩ := hw.scanning d k p (by rw [hd]; simp [DispPc.inPhase])
    (by rw [hd]; rfl) a (by rw [hd]; simp [DispPc.scanned])
  obtain rfl : A = A' := Option.some.inj (ha.symm.trans ha')
  exact ⟨hk, hn⟩

/-- **One step of the program** is one step of the mailbox, or leaves it as it is. -/
theorem Wf.mailbox_step (hw : Wf w) (hk : ∀ d, (w.disp d).ofKind = true) (ht : Trans w act w')
    (ha : w.awaits a = some A) (hn : A.type = .normal) (ha' : w'.awaits a = some A') :
    w'.mailbox a A' = w.mailbox a A ∨ (w.mailbox a A).Step (w'.mailbox a A') := by
  -- the await itself is not touched, and neither is the part of the history about it
  have same : w'.awaits a = w.awaits a → (w'.ctl A.owner).place a = (w.ctl A.owner).place a →
      received a w'.trace = received a w.trace → delivered a w'.trace = delivered a w.trace →
      w'.mailbox a A' = w.mailbox a A ∨ (w.mailbox a A).Step (w'.mailbox a A') := by
    intro he hp hr hv
    rw [he, ha, Option.some.injEq] at ha'
    subst ha'
    exact .inl (World.mailbox_congr rfl rfl rfl rfl hp hr hv)
  have away : ∀ {f : CoId → Ctl} {c₁ : CoId} {x y : Ctl}, f c₁ = x → x.at ≠ some a →
      y.at ≠ some a → (update f c₁ y A.owner).place a = (f A.owner).place a :=
    fun hx hxa hy => Ctl.place_update (hx ▸ hxa) hy
  cases ht with
  | push | pushHigh | stop | lateStore | resumeFault | spin | nullFault | fetch | lockNone | skip
  | enter | stateStop | stateOther | awaitThis | awaitOther | pushQueue | noTimer | loadTimer
  | pushRemove | sharedPush | expire | ioBegin | ioKeepAlive | ioTick | ioTimeout | ioRearm =>
    exact same rfl rfl rfl rfl
  | @lockSome d i k p b rest =>
    refine same rfl rfl ?_ ?_
    · by_cases hs : k = .shared <;> simp [hs, received]
    · by_cases hs : k = .shared <;> simp [hs, delivered]
  | start hc | createTime hc | destroyPush hc | finish hc | cancel hc | cancelMiss hc =>
    exact same rfl (away hc (by simp [Ctl.at]) (by simp [Ctl.at])) rfl rfl
  | @createClone _ b _ _ _ _ _ _ _ _ hb | @createQueue _ b _ _ _ _ _ _ hb
  | @createMessage _ b _ _ _ _ _ _ hb | @createTemp _ b _ _ _ _ _ _ _ hb =>
    have hab : a ≠ b := by rintro rfl; rw [ha] at hb; cases hb
    exact same (Function.update_of_ne hab ..) rfl (by simp [received, Ne.symm hab])
      (by simp [delivered, Ne.symm hab])
  | @registerTime _ b _ _ _ hc hb =>
    have hab : a ≠ b := by rintro rfl; rw [ha] at hb; cases hb
    exact same (Function.update_of_ne hab ..) (away hc (by simp [Ctl.at]) (by simp [Ctl.at]))
      (by simp [received, Ne.symm hab]) (by simp [delivered, Ne.symm hab])
  | @destroy c b B hc hne hb =>
    have hab : a ≠ b := by rintro rfl; simp at ha'
    refine same (Function.update_of_ne hab ..) (away hc (by simp [Ctl.at]) ?_) rfl rfl
    split <;> simp [Ctl.at]
  | @setTimeout c b B hc hne hb ho hty | @readyShared c b B m q hc hr hb ho hty =>
    have hab : a ≠ b := by
      rintro rfl
      obtain rfl : A = B := Option.some.inj (ha.symm.trans hb)
      rw [hn] at hty
      cases hty
    exact same (Function.update_of_ne hab ..)
      (away hc (by simp [Ctl.at]) (by simp [Ctl.at, Ne.symm hab])) rfl rfl
  | @arm c b id B junk hc hb =>
    have hplace : (update w.ctl c .body A.owner).place a = (w.ctl A.owner).place a := by
      by_cases hcc : A.owner = c
      · rw [hcc, hc, Function.update_self]
        rfl
      · rw [Function.update_of_ne hcc]
    by_cases hab : a = b
    · subst hab
      obtain rfl : A = B := Option.some.inj (ha.symm.trans hb)
      simp only [Function.update_self, Option.some.injEq] at ha'
      subst ha'
      exact .inl (World.mailbox_congr rfl rfl rfl rfl hplace rfl rfl)
    · exact same (Function.update_of_ne hab ..) hplace rfl rfl
  | @readyNormal c b B m q hc hr hb ho hty hq =>
    by_cases hab : a = b
    · subst hab
      obtain rfl : A = B := Option.some.inj (ha.symm.trans hb)
      simp only [Function.update_self, Option.some.injEq] at ha'
      subst ha' ho
      have hst := Mailbox.Step.ready (b := w.mailbox a A) (by simp [World.mailbox, hc, Ctl.place]) hq
      exact .inr (by simpa [World.mailbox, Ctl.place] using hst)
    · exact same (Function.update_of_ne hab ..)
        (away hc (by simp [Ctl.at]) (by simp [Ctl.at, Ne.symm hab])) rfl rfl
  | @notReady c b B hc hr hb ho hq =>
    by_cases hab : a = b
    · subst hab
      obtain rfl : A = B := Option.some.inj (ha.symm.trans hb)
      obtain rfl : A = A' := Option.some.inj (ha.symm.trans ha')
      subst ho
      have hst := Mailbox.Step.miss (b := w.mailbox a A) (by simp [World.mailbox, hc, Ctl.place])
        (hq hn)
      exact .inr (by simpa [World.mailbox, Ctl.place, hn] using hst)
    · exact same rfl (away hc (by simp [Ctl.at]) (by simp [Ctl.at, Ne.symm hab])) rfl rfl
  | @suspendFlag c b B junk hc hb =>
    by_cases hab : a = b
    · subst hab
      obtain rfl : A = B := Option.some.inj (ha.symm.trans hb)
      obtain rfl := hw.owner_of_at (by rw [hc]; rfl) ha
      simp only [Function.update_self, Option.some.injEq] at ha'
      subst ha'
      have hst := Mailbox.Step.raise (b := w.mailbox a A) (by simp [World.mailbox, hc, Ctl.place])
      exact .inr (by simpa [World.mailbox, Ctl.place] using hst)
    · exact same (Function.update_of_ne hab ..)
        (away hc (by simp [Ctl.at, Ne.symm hab]) (by simp [Ctl.at, Ne.symm hab])) rfl rfl
  | @suspendHandle c b B junk hc hb =>
    by_cases hab : a = b
    · subst hab
      obtain rfl : A = B := Option.some.inj (ha.symm.trans hb)
      obtain rfl := hw.owner_of_at (by rw [hc]; rfl) ha
      simp only [Function.update_self, Option.some.injEq] at ha'
      subst ha'
      exact .inl (World.mailbox_congr rfl rfl rfl rfl (by simp [hc, Ctl.place]) rfl rfl)
    · exact same (Function.update_of_ne hab ..)
        (away hc (by simp [Ctl.at, Ne.symm hab]) (by simp [Ctl.at, Ne.symm hab])) rfl rfl
  | @suspendState c b B junk hc hb =>
    by_cases hab : a = b
    · subst hab
      obtain rfl := hw.owner_of_at (by rw [hc]; rfl) ha
      exact same rfl (by simp [hc, Ctl.place]) rfl rfl
    · exact same rfl (away hc (by simp [Ctl.at, Ne.symm hab]) (by simp [Ctl.at, Ne.symm hab])) rfl
        rfl
  | @resume i e b B hi htop hc hb =>
    by_cases hab : a = b
    · subst hab
      obtain rfl : A = B := Option.some.inj (ha.symm.trans hb)
      have ho := hw.owner_of_at (by rw [hc]; rfl) ha
      simp only [Function.update_self, Option.some.injEq] at ha'
      subst ha'
      have hst := Mailbox.Step.wake (b := w.mailbox a A)
        (by simp [World.mailbox, ho, hc, Ctl.place])
      exact .inr (by simpa [World.mailbox, ho, Ctl.place, hn] using hst)
    · exact same (Function.update_of_ne hab ..)
        (away hc (by simp [Ctl.at, Ne.symm hab]) (by simp [Ctl.at, Ne.symm hab])) rfl rfl
  | @loadSuspend c b B junk hc hb =>
    by_cases hab : a = b
    · subst hab
      obtain rfl : A = B := Option.some.inj (ha.symm.trans hb)
      obtain rfl : A = A' := Option.some.inj (ha.symm.trans ha')
      obtain rfl := hw.owner_of_at (by rw [hc]; rfl) ha
      have hst := Mailbox.Step.test (b := w.mailbox a A) (by simp [World.mailbox, hc, Ctl.place])
      refine .inr ?_
      by_cases hf : A.suspend = true <;> simpa [World.mailbox, Ctl.place, hf] using hst
    · exact same rfl (away hc (by simp [Ctl.at, Ne.symm hab]) (by simp [Ctl.at, Ne.symm hab])) rfl
        rfl
  | @dequeue c b B m q junk hc hb hq =>
    by_cases hab : a = b
    · subst hab
      obtain rfl : A = B := Option.some.inj (ha.symm.trans hb)
      obtain rfl := hw.owner_of_at (by rw [hc]; rfl) ha
      simp only [Function.update_self, Option.some.injEq] at ha'
      subst ha'
      have hst := Mailbox.Step.take (b := w.mailbox a A) (by simp [World.mailbox, hc, Ctl.place]) hq
      exact .inr (by simpa [World.mailbox, Ctl.place] using hst)
    · exact same (Function.update_of_ne hab ..)
        (away hc (by simp [Ctl.at, Ne.symm hab]) (by simp [Ctl.at, Ne.symm hab])) rfl rfl
  | @clearSuspend c b B junk hc hb =>
    by_cases hab : a = b
    · subst hab
      obtain rfl : A = B := Option.some.inj (ha.symm.trans hb)
      obtain rfl := hw.owner_of_at (by rw [hc]; rfl) ha
      simp only [Function.update_self, Option.some.injEq] at ha'
      subst ha'
      have hst := Mailbox.Step.lower (b := w.mailbox a A) (by simp [World.mailbox, hc, Ctl.place])
      exact .inr (by simpa [World.mailbox, Ctl.place] using hst)
    · exact same (Function.update_of_ne hab ..)
        (away hc (by simp [Ctl.at, Ne.symm hab]) (by simp [Ctl.at, Ne.symm hab])) rfl rfl
  | @storeRuning c b B h junk hc hb hh =>
    by_cases hab : a = b
    · subst hab
      obtain rfl := hw.owner_of_at (by rw [hc]; rfl) ha
      exact same rfl (by simp [hc, Ctl.place]) rfl rfl
    · exact same rfl (away hc (by simp [Ctl.at, Ne.symm hab]) (by simp [Ctl.at, Ne.symm hab])) rfl
        rfl
  | @ret c b B junk hc hb =>
    by_cases hab : a = b
    · subst hab
      obtain rfl : A = B := Option.some.inj (ha.symm.trans hb)
      obtain rfl := hw.owner_of_at (by rw [hc]; rfl) ha
      simp only [Function.update_self, Option.some.injEq] at ha'
      subst ha'
      have hst := Mailbox.Step.give (b := w.mailbox a A) A.data.movedFrom
        (by simp [World.mailbox, hc, Ctl.place])
      have hp : Ctl.place a (if A.owner = remover then .removing A.data else .body) = .away := by
        split <;> rfl
      exact .inr (by simpa [World.mailbox, hp, received, delivered] using hst)
    · refine same (Function.update_of_ne hab ..) (away hc (by simp [Ctl.at, Ne.symm hab]) ?_) ?_ ?_
      · split <;> simp [Ctl.at]
      · simp [received, Ne.symm hab]
      · simp [delivered]
  | @enqueue d i k p first b rest B h hd hb =>
    by_cases hab : a = b
    · subst hab
      obtain rfl : A = B := Option.some.inj (ha.symm.trans hb)
      simp only [Function.update_self, Option.some.injEq] at ha'
      subst ha'
      have hst := Mailbox.Step.put (b := w.mailbox a A) p.msg
      exact .inr (by simpa [World.mailbox, received, delivered] using hst)
    · refine same (Function.update_of_ne hab ..) rfl ?_ ?_
      · simp [received]
      · simp [delivered, Ne.symm hab]
  | @writeData d i k p first b rest B h hd hb =>
    have hab : a ≠ b := by
      rintro rfl
      have hkind := hk d
      rw [hd, ← (hw.visit_type hd ha).1, hn] at hkind
      cases hkind
    exact same (Function.update_of_ne hab ..) rfl rfl rfl
  | @storeState d i k p first b rest B h hd hb =>
    left
    obtain ⟨B', hB', he⟩ := World.endWait_eq_some ha'
    obtain rfl : A = B' := Option.some.inj (ha.symm.trans hB')
    rcases he with rfl | rfl <;> exact World.mailbox_congr rfl rfl rfl rfl rfl rfl rfl

/-- An await that has just been constructed is an empty mailbox. -/
theorem Wf.mailbox_created (hw : Wf w) (ht : Trans w act w') (ha : w.awaits a = none)
    (ha' : w'.awaits a = some A') :
    (w'.mailbox a A').Ok ∧ (w'.mailbox a A').place = .away := by
  obtain ⟨hf, htr⟩ : A'.Fresh ∧ w'.trace = .created a :: w.trace := by
    rcases (hw.awaitStep ht).backward ha' with ⟨A, hA, -⟩ | ⟨-, h⟩
    · rw [ha] at hA
      cases hA
    · exact h
  have hplace : (w'.ctl A'.owner).place a = .away := by
    refine Ctl.place_eq_away fun hat => ?_
    rcases ht.ctl_at hat with h | ⟨A, hA, -⟩
    · obtain ⟨A, hA, -⟩ := hw.at_await _ _ h
      rw [ha] at hA
      cases hA
    · rw [ha] at hA
      cases hA
  refine ⟨Mailbox.ok_of_fresh hplace hf.suspend hf.queue ?_ ?_, hplace⟩
  · simp [World.mailbox, htr, received]
  · simp [World.mailbox, htr, delivered]

/-- The mailbox of every live `MessageAwait` is in order, in every run. -/
theorem mailbox_ok {ok : World → Action → Prop} (h : Reachable ok w) :
    ∀ a A, w.awaits a = some A → A.type = .normal → (w.mailbox a A).Ok := by
  refine h.invariant (I := fun w => ∀ a A, w.awaits a = some A → A.type = .normal →
    (w.mailbox a A).Ok) ?_ ?_
  · intro a A ha _
    obtain ⟨rfl, rfl⟩ := World.init_awaits ha
    constructor <;> simp [World.mailbox, World.init, removerObject, Ctl.place, Mailbox.hand,
      received, delivered]
  · intro s act s' hr ih _ hs a A' ha' hn
    have ht := trans_of_step hs
    have hw := wf_of_reachable hr
    cases ha : s.awaits a with
    | none => exact (hw.mailbox_created ht ha ha').1
    | some A =>
      have hn' : A.type = .normal := (hw.keeps ht ha ha').type ▸ hn
      rcases hw.mailbox_step (ofKind_of_reachable hr) ht ha hn' ha' with he | hst
      · exact he ▸ ih a A ha hn'
      · exact (ih a A ha hn').step hst

/-- Only a construction at `a` and an enqueue on `a` change what was delivered to `a`. -/
theorem Trans.delivered (ht : Trans w act w') (a : Addr) :
    delivered a w'.trace = delivered a w.trace ∨ w'.trace = .created a :: w.trace ∨
      ∃ d k p first rest h, w.disp d = .visit k p first a rest (.enqueue h) ∧
        DataProxy.delivered a w'.trace = DataProxy.delivered a w.trace ++ [p.msg] := by
  cases ht with
  | @createClone _ b | @createQueue _ b | @createMessage _ b | @createTemp _ b
  | @registerTime _ b =>
    by_cases hab : b = a
    · subst hab
      exact .inr (.inl rfl)
    · exact .inl (by simp [DataProxy.delivered, hab])
  | ret => exact .inl (by simp [DataProxy.delivered])
  | @lockSome d i k =>
    left
    by_cases hs : k = .shared <;> simp [hs, DataProxy.delivered]
  | @enqueue d i k p first b rest B h hd hb =>
    by_cases hab : b = a
    · subst hab
      exact .inr (.inr ⟨d, k, p, first, rest, h, hd, by simp [DataProxy.delivered]⟩)
    · exact .inl (by simp [DataProxy.delivered, hab])
  | _ => exact .inl rfl

/-- Every message enqueued on an await has the name the await waits for. -/
theorem delivered_name {ok : World → Action → Prop} (h : Reachable ok w) :
    ∀ a A, w.awaits a = some A → ∀ m ∈ delivered a w.trace, m.name = A.waitMessageName := by
  refine h.invariant (I := fun w => ∀ a A, w.awaits a = some A → ∀ m ∈ delivered a w.trace,
    m.name = A.waitMessageName) (by simp [World.init, delivered]) ?_
  intro s act s' hr ih _ hs a A' ha' m hm
  have ht := trans_of_step hs
  have hw := wf_of_reachable hr
  rcases (hw.awaitStep ht).backward ha' with ⟨A, ha, hk⟩ | ⟨-, -, htr⟩
  · rw [hk.name]
    rcases ht.delivered a with he | htr | ⟨d, k, p, first, rest, h, hd, he⟩
    · exact ih a A ha m (he ▸ hm)
    · simp [htr, delivered] at hm
    · rw [he, List.mem_append, List.mem_singleton] at hm
      rcases hm with hm | rfl
      · exact ih a A ha m hm
      · exact (hw.visit_type hd ha).2.symm
  · simp [htr, delivered] at hm

/-- What `co_await` on the `MessageAwait` at `a` has returned, then the message taken into `data_`
and not yet returned, then `queue_`, are the messages the dispatcher has enqueued on it, in the
order of dispatch; and all of these have the awaited name. -/
def DeliveredInOrder (w : World) (a : Addr) (A : Await) : Prop :=
  received a w.trace ++ (w.mailbox a A).hand ++ A.queue = delivered a w.trace ∧
    ∀ m ∈ delivered a w.trace, m.name = A.waitMessageName

/-- **Exactly-once, in-order delivery**, at every state of every run without high priority
messages; and no such run breaks off because a coroutine is resumed while it runs. -/
theorem deliveredInOrder_of_normalOnly (h : Reachable (fun w act => normalOnly w act = true) w) :
    (∀ a A, w.awaits a = some A → A.type = .normal → DeliveredInOrder w a A) ∧
      ∀ c, w.fault ≠ some (.resumed c) := by
  refine ⟨fun a A ha hn => ⟨?_, delivered_name h a A ha⟩, fault_ne_resumed h⟩
  exact (mailbox_ok h a A ha hn).conserved

/-- Three messages: one is returned after a wake, one is taken by `await_ready`, one waits. -/
def threeMessages : List Action :=
  [Action.start 1, .body 1 (.createMessage 5 0 "m" 0 0), .body 1 (.coAwait 5), .run 1 0, .run 1 0,
    .run 1 0, .late 0, .push { name := "m", data := "x" }] ++
  List.replicate 10 (Action.dispatch .normal 0) ++
  [Action.worker 0, .run 1 0, .run 1 0, .run 1 0, .run 1 0, .run 1 0,
    .push { name := "m", data := "y" }, .push { name := "m", data := "z" }] ++
  List.replicate 14 (Action.dispatch .normal 0) ++ [Action.body 1 (.coAwait 5)]

theorem deliveredInOrder_threeMessages :
    ∃ w A, Reachable (fun w act => normalOnly w act = true) w ∧ w.awaits 5 = some A ∧
      A.type = .normal ∧ (received 5 w.trace).map InternalMessage.data = ["x"] ∧
      (w.mailbox 5 A).hand.map InternalMessage.data = ["y"] ∧
      A.queue.map InternalMessage.data = ["z"] ∧ DeliveredInOrder w 5 A := by
  have hrun : (Run.exec (Run.guarded step fun w act => normalOnly w act = true) World.init
      threeMessages).any (fun w => decide
      ((received 5 w.trace).map InternalMessage.data = ["x"] ∧
        (w.awaits 5).any fun A => decide (A.type = .normal ∧
          (w.mailbox 5 A).hand.map InternalMessage.data = ["y"] ∧
          A.queue.map InternalMessage.data = ["z"]))) = true := by
    decide +kernel
  obtain ⟨w, hw, hx, hs⟩ := Run.exists_reach_of_exec_guarded hrun
  obtain ⟨A, hA, hs⟩ := (Option.any_eq_true ..).1 hs
  obtain ⟨hn, hy, hz⟩ := of_decide_eq_true hs
  exact ⟨w, A, hw, hA, hn, hx, hy, hz, (deliveredInOrder_of_normalOnly hw).1 5 A hA hn⟩

end DataProxy
