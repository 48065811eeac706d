import DataProxy.FirstMatch
import DataProxy.Leak
import DataProxy.Shared
import DataProxy.Lib.Lanes

/-!
# The assertions of `Test`

`Test` (`test.cpp`) runs on the bus with the other logics.  A thread generates the messages of a name,
`"1"`, `"2"` and so on; `handle_msg1` asserts that it gets every one of them in that order, the calls of
`handle_shared_msg1` that no two of them get the same, and all handlers that the name is right.
`"msg2"` has the same handlers but the shared ones.

`Checks` has the variables that the assertions are about.  They are changed where the source changes
them: the generator's when a message is pushed, those of a handler when its `co_await` returns.  Of the
rest of the program, `Handlers.runs` says only that it leaves the name alone.
-/

namespace DataProxy

open Function (update)

/-- The message with number `id`, as the generators make it. -/
def generated (name : String) (id : ℕ) : InternalMessage := { name := name, data := toString id }

/-- The variables of the generator and of the handlers of one name. -/
structure Checks where
  /-- `id` of the generator. -/
  id : ℕ := 0
  /-- `last_id` of `handle_msg1`. -/
  lastId : ℕ := 0
  /-- `nums_`, the latest first. -/
  nums : List ℕ := []
  /-- An assertion has failed. -/
  failed : Bool := false

namespace Checks

variable (l : Checks) (name : String) (m : InternalMessage) (junk : ℕ)

/-- `assert`. -/
def assert (b : Bool) : Checks := { l with failed := l.failed || !b }

/-- `handle_msg1` and `handle_msg2`, with what `co_await` has returned. -/
def handleMsg : Checks :=
  let id := (string2Int m.data).getD junk
  { (l.assert (m.name = name)).assert ((l.lastId + 1) % 2 ^ 64 = id) with lastId := id }

/-- `handle_shared_msg1`. -/
def handleSharedMsg : Checks :=
  let id := (string2Int m.data).getD junk
  { (l.assert (m.name = name)).assert (id ∉ l.nums) with nums := id :: l.nums }

/-- `handle_temp_msg1` and `handle_temp_msg2`. -/
def handleTempMsg : Checks := l.assert (m.name = name)

end Checks

/-- The handlers of one name. -/
structure Handlers where
  name : String
  /-- The await of `handle_msg1`. -/
  msgAwait : Addr
  /-- The coroutine `handle_temp_msg1` and its await. -/
  temp : CoId
  tempAwait : Addr
  /-- The name has a handler `handle_shared_msg1`, as `"msg1"` has and `"msg2"` has not. -/
  sharing : Bool
  /-- Its calls. -/
  shared : CoId → Bool
  temp_ne : temp ≠ remover
  /-- The name is none that the timers use. -/
  notTime : hasTimePrefix name = false
  notRemove : name ≠ removeTimerName

namespace Handlers

variable (H : Handlers)

/-- What a step changes in the variables. -/
def record (w : World) (act : Action) (l : Checks) : Checks :=
  match act with
  | .push m => if m.name = H.name then { l with id := l.id + 1 } else l
  | .run c junk =>
    match w.ctl c with
    | .resuming b .ret =>
      match w.awaits b with
      | some A =>
        if A.waitMessageName = H.name then
          match A.type with
          | .shared => l.handleSharedMsg H.name A.data junk
          | .normal => if b = H.msgAwait then l.handleMsg H.name A.data junk else l
          | .temp => if b = H.tempAwait ∧ A.owner = H.temp then l.handleTempMsg H.name A.data else l
        else l
      | none => l
    | _ => l
  | _ => l

/-- `Test::init` has called the handlers: `handle_msg1` has suspended once, and if there is a
`handle_shared_msg1`, some call of it has made its await. -/
def ready (w : World) : Bool :=
  (w.awaits H.msgAwait).any (fun A => decide
    (A.type = .normal ∧ A.waitMessageName = H.name ∧ A.handle ≠ none)) &&
  (!H.sharing || decide (w.members H.name ≠ []))

/-- The message at `i` is fetched; if it has the name, none before it has. -/
def inOrder (q : List Packet) (i : ℕ) : Bool :=
  q[i]?.all fun p => !decide (p.msg.name = H.name) ||
    (q.take i).all fun p' => decide (p'.msg.name ≠ H.name)

/-- The condition on one step.  Messages of the name come from the generator only, which starts after
the handlers and is one thread, so that the bus queue keeps their order; they have no timeout.  The
handlers await what they have made, and do not end. -/
def runs (w : World) (l : Checks) : Action → Bool
  | .push m => !decide (m.name = H.name) ||
    decide (m = generated H.name (l.id + 1) ∧ l.id < 100000000) && H.ready w
  | .pushHigh m => decide (m.name ≠ H.name)
  | .body c (.createShared _ _ name _ _) =>
    !decide (name = H.name) || !isConsumer H.shared c ||
      (w.members H.name).all fun b => (w.awaits b).all fun B => decide (B.owner ≠ c)
  | .body c (.coAwait b) =>
    (w.awaits b).all fun A => decide (isConsumer H.shared c = A.isShared H.name) &&
      (decide (c ≠ H.temp) || decide (b = H.tempAwait ∧ A.type = .temp ∧ A.waitMessageName = H.name))
  | .body _ (.setTimeout b) => (w.awaits b).all fun A => decide (A.waitMessageName ≠ H.name)
  | .body _ (.destroy b) =>
    (decide (b ≠ H.msgAwait) || decide (l.id = 0)) &&
      (w.awaits b).all fun A => !A.isShared H.name || decide (w.members H.name ≠ [b])
  | .dispatch .normal i => !decide (w.disp .normal = .fetch) || H.inOrder (w.busQueue .normal) i
  | _ => true

/-- The program with the variables of the handlers. -/
abbrev Reached (x : World × Checks) : Prop :=
  Run.Reach (Run.logged step H.record) (fun x act => H.runs x.1 x.2 act = true) (World.init, {}) x

end Handlers

variable {w w' : World} {act : Action} {l : Checks} {x : World × Checks} {H : Handlers} {n : String}
  {a : Addr}

/-! ### No one else sends the name -/

/-- Neither the timers nor the destructors have a message named `n` to push. -/
structure Apart (n : String) (w : World) : Prop where
  timers : ∀ id T m, w.timerAt id = some T → T.func.message = some m → m.name ≠ n
  destroying : ∀ c m, w.ctl c = .destroying m → m.name ≠ n

theorem Apart.init (n : String) : Apart n World.init where
  timers id T m hT hm := by
    obtain ⟨-, rfl⟩ := World.init_timerAt hT
    cases hm
  destroying c m hc := by
    rcases World.init_ctl c with h | ⟨-, h⟩
    · rw [h] at hc
      cases hc
    · rw [h] at hc
      cases hc

/-- A new timer is one of `create_time_await`, or one that `set_await_timeout` arms. -/
theorem Trans.started (ht : Trans w act w') {id : TimerId} {T : Timer} {m : InternalMessage}
    (hT : w'.timerAt id = some T) (hm : T.func.message = some m) :
    (∃ T₀, w.timerAt id = some T₀ ∧ T₀.func.message = some m) ∨ m.name = timeName (w.sid + 1) ∨
      ∃ c b A, act = .body c (.setTimeout b) ∧ w.awaits b = some A ∧ m.name = A.waitMessageName := by
  have same : w'.timerAt = w.timerAt → ∃ T₀, w.timerAt id = some T₀ ∧ T₀.func.message = some m :=
    fun h => ⟨T, h ▸ hT, hm⟩
  cases ht with
  | createTime =>
    by_cases hid : id = w.sid + 1
    · subst hid
      simp only [Function.update_self, Option.some.injEq] at hT
      subst hT
      cases hm
      exact .inr (.inl rfl)
    · exact .inl ⟨T, by simpa only [Function.update_of_ne hid] using hT, hm⟩
  | @setTimeout c b A _ _ hb =>
    by_cases hid : id = w.sid + 1
    · subst hid
      simp only [Function.update_self, Option.some.injEq] at hT
      subst hT
      cases hm
      exact .inr (.inr ⟨c, b, A, rfl, hb, rfl⟩)
    · exact .inl ⟨T, by simpa only [Function.update_of_ne hid] using hT, hm⟩
  | @cancel c m' junk id' =>
    by_cases hid : id = id'
    · subst hid
      simp only [Function.update_self, Option.map_eq_some_iff] at hT
      obtain ⟨T₀, hT₀, rfl⟩ := hT
      refine .inl ⟨T₀, hT₀, ?_⟩
      split at hm <;> exact hm
    · exact .inl ⟨T, by simpa only [Function.update_of_ne hid] using hT, hm⟩
  | @expire id' T₀ hT₀ | @ioBegin id' T₀ hT₀ | @ioRearm id' T₀ _ hT₀ =>
    by_cases hid : id = id'
    · subst hid
      simp only [Function.update_self, Option.some.injEq] at hT
      subst hT
      exact .inl ⟨T₀, hT₀, hm⟩
    · exact .inl ⟨T, by simpa only [Function.update_of_ne hid] using hT, hm⟩
  | _ => exact .inl (same rfl)

theorem Apart.next (h : Apart H.name w) (hok : H.runs w l act = true) (ht : Trans w act w') :
    Apart H.name w' where
  timers id T m hT hm := by
    rcases ht.started hT hm with ⟨T₀, hT₀, hm⟩ | hname | ⟨c, b, A, rfl, hb, hname⟩
    · exact h.timers id T₀ m hT₀ hm
    · intro he
      have hp := hasTimePrefix_timeName (w.sid + 1)
      rw [← hname, he, H.notTime] at hp
      cases hp
    · rw [hname]
      simpa [Handlers.runs, hb] using hok
  destroying c m hc := by
    rcases ht.destroying hc with hc | ⟨b, A, -, -, -, -, rfl⟩
    · exact h.destroying c m hc
    · exact fun he => H.notRemove he.symm

/-- A message of the name that is pushed comes from the generator. -/
theorem Apart.pushed (h : Apart H.name w) (hok : H.runs w l act = true) {p : Packet}
    (hp : Pushed w act p) (hn : p.msg.name = H.name) : act = .push p.msg := by
  cases hp with
  | outside hact =>
    rcases hact with rfl | rfl
    · rfl
    · exact absurd hn (by simpa [Handlers.runs] using hok)
  | destructor _ hc => exact absurd hn (h.destroying _ _ hc)
  | removal _ _ hm =>
    rw [hm] at hn
    exact absurd hn.symm H.notRemove
  | callback _ _ hT hm => exact absurd hn (h.timers _ _ _ hT hm)

theorem Apart.competing (h : Apart H.name w) (hok : H.runs w l act = true) :
    competing H.name H.shared w act = true := by
  cases act with
  | pushHigh m => exact hok
  | ioStep =>
    unfold DataProxy.competing
    dsimp only
    split
    · rename_i id hio
      split
      · rename_i msgName isloop hfunc
        obtain ⟨T, hT, hf⟩ := Option.map_eq_some_iff.1 hfunc
        exact decide_eq_true (h.timers id T { name := msgName } hT (by rw [hf]; rfl))
      · rfl
    · rfl
  | body c op =>
    cases op with
    | createShared b executor name priority pos => exact hok
    | coAwait b =>
      simp only [Handlers.runs, DataProxy.competing, Option.all_eq_true, Bool.and_eq_true] at hok ⊢
      exact fun A hA => (hok A hA).1
    | destroy b =>
      simp only [Handlers.runs, Bool.and_eq_true] at hok
      exact hok.2
    | _ => rfl
  | _ => rfl

theorem Handlers.Reached.apart (h : H.Reached x) : Apart H.name x.1 := by
  refine h.invariant (I := fun x => Apart H.name x.1) (.init _) ?_
  rintro x act y - hx hok hs
  exact hx.next hok (trans_of_step (Run.logged_eq_some.1 hs).1)

theorem Handlers.Reached.competing (h : H.Reached x) :
    Reachable (fun w act => DataProxy.competing H.name H.shared w act = true) x.1 := by
  refine h.invariant (I := fun x =>
    Reachable (fun w act => DataProxy.competing H.name H.shared w act = true) x.1) .refl ?_
  rintro x act y hr hx hok hs
  exact .tail hx ((Handlers.Reached.apart hr).competing hok) (Run.logged_eq_some.1 hs).1

/-! ### The way of a message to `handle_msg1` -/

/-- The messages that the generator has pushed when its `id` is `k`. -/
def sent (n : String) (k : ℕ) : List InternalMessage :=
  (List.range k).map fun i => generated n (i + 1)

@[simp] theorem sent_zero (n : String) : sent n 0 = [] := rfl

theorem sent_succ (n : String) (k : ℕ) : sent n (k + 1) = sent n k ++ [generated n (k + 1)] := by
  simp [sent, List.range_succ]

/-- The messages of a list that have the name. -/
def named (n : String) (ms : List InternalMessage) : List InternalMessage :=
  ms.filter fun m => decide (m.name = n)

/-- The messages named `n` in the bus queue. -/
def World.waiting (w : World) (n : String) : List InternalMessage :=
  named n ((w.busQueue .normal).map Packet.msg)

/-- The message has not been enqueued on the await that is visited. -/
def VisitPc.before : VisitPc → Bool
  | .enter | .enqueue _ => true
  | .loadState _ | .loadAwait _ | .writeData _ | .storeState _ | .pushQueue _ | .loadTimer
  | .pushRemove _ => false

/-- The dispatcher has still to come to the `MessageAwait` at `a` with its message. -/
def DispPc.headsFor (a : Addr) : DispPc → Bool
  | .fetch => false
  | .lock k _ => decide (k ≠ .temp)
  | .sharedPush _ _ => true
  | .visit .shared _ _ _ _ _ => true
  | .visit .normal _ _ b rest s => decide (a ∈ rest) || decide (b = a) && s.before
  | .visit .temp _ _ _ _ _ => false

/-- The message named `n` that the dispatcher brings to the await at `a`. -/
def DispPc.onWay (a : Addr) (n : String) (pc : DispPc) : List InternalMessage :=
  if pc.headsFor a then named n (pc.packet.map Packet.msg).toList else []

theorem DispPc.headsFor_next (k : AwaitType) (p : Packet) (first : Addr) (rest : List Addr) :
    (DispPc.next k p first rest).headsFor a =
      (decide (k = .shared) || decide (k = .normal) && decide (a ∈ rest)) := by
  cases rest with
  | nil => cases k <;> rfl
  | cons b rest =>
    cases k with
    | shared | temp => rfl
    | normal =>
      simp only [DispPc.next, DispPc.headsFor, VisitPc.before, List.mem_cons, Bool.decide_or, Bool.and_true]
      rw [Bool.or_comm]
      simp [eq_comm]

/-- A message of another name is not counted. -/
theorem DispPc.onWay_of_ne {pc : DispPc} (h : ∀ p, pc.packet = some p → p.msg.name ≠ n) :
    pc.onWay a n = [] := by
  unfold DispPc.onWay
  split
  · cases hp : pc.packet with
    | none => rfl
    | some p => simp [named, h p hp]
  · rfl

/-- What counts is the message and the place. -/
theorem DispPc.onWay_eq {pc pc' : DispPc} (ho : pc'.headsFor a = pc.headsFor a)
    (hp : pc'.headsFor a = true → pc'.packet = pc.packet) : pc'.onWay a n = pc.onWay a n := by
  unfold DispPc.onWay
  rw [← ho]
  split
  · rename_i h
    rw [hp h]
  · rfl

/-- The handler's await, once `handle_msg1` has suspended on it. -/
def World.Listens (w : World) (a : Addr) (n : String) : Prop :=
  ∃ A, w.awaits a = some A ∧ A.type = .normal ∧ A.waitMessageName = n ∧ A.handle ≠ none

/-- The dispatcher has a message. -/
theorem DispPc.packet_of_headsFor {pc : DispPc} (h : pc.headsFor a = true) :
    ∃ p, pc.packet = some p := by
  cases pc with
  | fetch => cases h
  | lock k p | visit k p | sharedPush p => exact ⟨p, rfl⟩

/-- **The dispatcher does not lose the message**: on its way to an await that listens it goes on, until
it enqueues the message there. -/
theorem Wf.headsFor_step (hw : Wf w) (hk : (w.disp .normal).ofKind = true) {i : ℕ} {p : Packet}
    (hp : (w.disp .normal).packet = some p) (hlive : w.Listens a p.msg.name)
    (hno : ∀ k q first rest h, w.disp .normal ≠ .visit k q first a rest (.enqueue h))
    (ht : Trans w (.dispatch .normal i) w') :
    (w'.disp .normal).headsFor a = (w.disp .normal).headsFor a := by
  obtain ⟨A, ha, hty, hn, hh⟩ := hlive
  have hreg : a ∈ Multimap.equalRange (w.registry .normal) p.msg.name :=
    Multimap.mem_equalRange.2 ((hw.registered ..).2 ⟨A, ha, hty, hn⟩)
  cases ht with
  | fetch hd =>
    rw [hd] at hp
    cases hp
  | @lockNone _ _ k q hd hr =>
    rw [hd] at hp
    obtain rfl : q = p := Option.some.inj hp
    rw [hd]
    cases k with
    | normal =>
      rw [hr] at hreg
      cases hreg
    | shared | temp => simp [DispPc.after, DispPc.headsFor]
  | @lockSome _ _ k q b rest hd hr =>
    rw [hd] at hp
    obtain rfl : q = p := Option.some.inj hp
    rw [hd]
    cases k with
    | normal =>
      rw [hr] at hreg
      rcases List.mem_cons.1 hreg with rfl | hmem
      · simp [DispPc.headsFor, VisitPc.before]
      · simp [DispPc.headsFor, hmem]
    | shared | temp => simp [DispPc.headsFor]
  | @skip _ _ k q first b rest B hd hb hs =>
    rw [hd] at hp
    obtain rfl : q = p := Option.some.inj hp
    simp only [Function.update_self, DispPc.headsFor_next, hd]
    cases k with
    | normal =>
      -- the await that is passed over has no handle
      have hba : b ≠ a := by
        rintro rfl
        obtain rfl := Option.some.inj (ha.symm.trans hb)
        rcases hs with hs | ⟨hs, -⟩
        · exact hh hs
        · cases hs
      simp [DispPc.headsFor, hba]
    | shared | temp => rfl
  | @enter _ _ k q first b rest B h s hd hb hBh hs =>
    simp only [hd, Function.update_self]
    rcases hs with ⟨rfl, rfl⟩ | ⟨rfl, rfl⟩ | ⟨rfl, rfl, -⟩ <;> rfl
  | @enqueue _ _ k q first b rest B h hd hb =>
    rw [hd] at hp hk
    obtain rfl : q = p := Option.some.inj hp
    cases k with
    | normal =>
      have hba : b ≠ a := by
        rintro rfl
        exact hno _ _ _ _ _ hd
      simp [hd, DispPc.headsFor, hba]
    | shared | temp => cases hk
  | @stateStop _ _ k q first b rest B h s hd hb _ hs =>
    simp only [hd, Function.update_self]
    rcases hs with ⟨rfl, rfl⟩ | ⟨hne, rfl⟩
    · rfl
    · cases k with
      | shared => exact absurd rfl hne
      | normal | temp => rfl
  | @awaitThis _ _ k q first b rest B h s hd hb _ hs =>
    simp only [hd, Function.update_self]
    rcases hs with ⟨rfl, rfl⟩ | ⟨rfl, rfl⟩ | ⟨rfl, rfl⟩ <;> rfl
  | @writeData _ _ k _ _ _ _ _ _ hd | @storeState _ _ k _ _ _ _ _ _ hd
  | @loadTimer _ _ k _ _ _ _ _ hd =>
    simp only [hd, Function.update_self]
    cases k <;> rfl
  | @stateOther _ _ k _ _ _ _ _ _ hd | @awaitOther _ _ k _ _ _ _ _ _ hd
  | @noTimer _ _ k _ _ _ _ _ hd | @pushRemove _ _ k _ _ _ _ _ _ hd =>
    simp only [Function.update_self, DispPc.headsFor_next, hd]
    cases k <;> simp [DispPc.headsFor, VisitPc.before]
  | @pushQueue _ _ k q first b rest B h pc hd hb hpc =>
    simp only [hd, Function.update_self]
    rcases hpc with ⟨rfl, rfl⟩ | ⟨rfl, rfl⟩ | ⟨rfl, rfl⟩
    · rfl
    · rw [DispPc.headsFor_next]
      simp [DispPc.headsFor, VisitPc.before]
    · rfl
  | sharedPush hd =>
    simp only [hd, Function.update_self]
    rfl

/-- Only an enqueue changes what was delivered to an await that is alive. -/
theorem Trans.delivered_from (ht : Trans w act w') {A : Await} (ha : w.awaits a = some A) :
    DataProxy.delivered a w'.trace = DataProxy.delivered a w.trace ∨
      ∃ d i k p first rest h, act = .dispatch d i ∧ w.disp d = .visit k p first a rest (.enqueue h) ∧
        DataProxy.delivered a w'.trace = DataProxy.delivered a w.trace ++ [p.msg] := by
  cases ht with
  | @createClone _ b _ _ _ _ _ _ _ _ hb | @createQueue _ b _ _ _ _ _ _ hb
  | @createMessage _ b _ _ _ _ _ _ hb | @createTemp _ b _ _ _ _ _ _ _ hb
  | @registerTime _ b _ _ _ _ hb =>
    have hba : b ≠ a := by
      rintro rfl
      rw [ha] at hb
      cases hb
    exact .inl (by simp [DataProxy.delivered, hba])
  | ret => exact .inl (by simp [DataProxy.delivered])
  | @lockSome d i k =>
    left
    by_cases hs : k = .shared <;> simp [hs, DataProxy.delivered]
  | @enqueue d i k p first b rest B h hd hb =>
    by_cases hba : b = a
    · subst hba
      exact .inr ⟨d, i, k, p, first, rest, h, rfl, hd, by simp [DataProxy.delivered]⟩
    · exact .inl (by simp [DataProxy.delivered, hba])
  | _ => exact .inl rfl

theorem World.waiting_enqueueBus (m : InternalMessage) (t : Option TimerId) :
    (w.enqueueBus .normal { msg := m, timer := t }).waiting n = w.waiting n ++ named n [m] := by
  show named n (((update w.busQueue .normal (w.busQueue .normal ++ [{ msg := m, timer := t }])) .normal).map
    Packet.msg) = _
  rw [Function.update_self, List.map_append, named, List.filter_append]
  rfl

/-- Else than by a push of the generator and by a fetch, the messages of the name in the bus queue
stay as they are. -/
theorem Apart.waiting_same (h : Apart H.name w) (hpush : ∀ m, act = .push m → m.name ≠ H.name)
    (hfetch : ∀ i, act = .dispatch .normal i → w.disp .normal ≠ .fetch) (ht : Trans w act w') :
    w'.waiting H.name = w.waiting H.name := by
  have append : ∀ m : InternalMessage, m.name ≠ H.name → ∀ t,
      (w.enqueueBus .normal { msg := m, timer := t }).waiting H.name = w.waiting H.name := by
    intro m hm t
    rw [World.waiting_enqueueBus]
    simp [named, hm]
  cases ht with
  | push m => exact append m (hpush m rfl) none
  | destroyPush hc => exact append _ (h.destroying _ _ hc) none
  | pushRemove => exact append _ (fun he => H.notRemove he.symm) none
  | @ioTimeout id T msgName hi hT hf =>
    exact append _ (h.timers id T { name := msgName, isTimeoutMsg := true } hT (by rw [hf]; rfl)) _
  | @fetch d i p hd =>
    cases d with
    | high => rfl
    | normal => exact absurd hd (hfetch i rfl)
  | _ => rfl

/-- The dispatcher fetches the first of them, or a message of another name. -/
theorem Trans.fetch_inOrder {i : ℕ} (ht : Trans w (.dispatch .normal i) w')
    (hd : w.disp .normal = .fetch) (hord : H.inOrder (w.busQueue .normal) i = true) :
    w'.trace = w.trace ∧ ∃ p, w'.disp .normal = .lock .shared p ∧
      w.waiting H.name = named H.name [p.msg] ++ w'.waiting H.name := by
  have hdispatch := ht.dispatch_eq
  simp only [World.dispatchStep, hd, Option.ite_none_left_eq_some, Option.map_eq_some_iff] at hdispatch
  obtain ⟨-, p, hi, rfl⟩ := hdispatch
  refine ⟨rfl, p, by simp only [Function.update_self], ?_⟩
  simp only [Handlers.inOrder, hi, Option.all_some, Bool.or_eq_true, Bool.not_eq_true',
    decide_eq_false_iff_not, List.all_eq_true, decide_eq_true_eq] at hord
  have hsplit := Lanes.filter_eraseIdx_of_first
    (f := fun q : Packet => decide (q.msg.name = H.name)) hi fun hp q hq => by
      rcases hord with hne | hfirst
      · exact absurd (of_decide_eq_true hp) hne
      · exact decide_eq_false (hfirst q hq)
  have hmap : ∀ q : List Packet, named H.name (q.map Packet.msg) =
      (q.filter fun q => decide (q.msg.name = H.name)).map Packet.msg := by
    intro q
    rw [named, List.filter_map]
    rfl
  show named H.name ((w.busQueue .normal).map Packet.msg) = named H.name [p.msg] ++
    named H.name (((update w.busQueue .normal ((w.busQueue .normal).eraseIdx i)) .normal).map Packet.msg)
  rw [Function.update_self, hmap, hmap, hsplit, List.map_append]
  by_cases hp : p.msg.name = H.name <;> simp [named, hp]

theorem Handlers.ready_iff :
    H.ready w = true ↔ w.Listens H.msgAwait H.name ∧ (H.sharing = true → w.members H.name ≠ []) := by
  simp only [Handlers.ready, World.Listens, Bool.and_eq_true, Option.any_eq_true, decide_eq_true_eq,
    Bool.or_eq_true, Bool.not_eq_true', ← Bool.not_eq_true, ← imp_iff_not_or]

/-- The handlers stay. -/
theorem Wf.ready_step (hw : Wf w) (hw' : Wf w') (hid : 0 < l.id) (hok : H.runs w l act = true)
    (ht : Trans w act w') (h : H.ready w = true) : H.ready w' = true := by
  obtain ⟨⟨A, ha, hty, hn, hh⟩, hmem⟩ := Handlers.ready_iff.1 h
  refine Handlers.ready_iff.2 ⟨?_, ?_⟩
  · rcases (hw.awaitStep ht).forward ha with ⟨A', ha', hk⟩ | ⟨hgone, -⟩
    · refine ⟨A', ha', hk.type.trans hty, hk.name.trans hn, ?_⟩
      rcases hk.handle with he | he
      · rwa [he]
      · simp [he]
    · obtain ⟨c, rfl, -⟩ := ht.destroyed ha hgone
      simp only [Handlers.runs, Bool.and_eq_true, Bool.or_eq_true, decide_eq_true_eq] at hok
      rcases hok.1 with hne | hzero
      · exact absurd rfl hne
      · omega
  · intro hsharing
    obtain ⟨b, hb⟩ := List.exists_mem_of_ne_nil _ (hmem hsharing)
    have kept : ∀ {b B B'}, w.awaits b = some B → B.isShared H.name = true → w'.awaits b = some B' →
        B.Keeps B' → w'.members H.name ≠ [] := by
      intro b B B' hB hsh hB' hk
      exact List.ne_nil_of_mem (hw'.mem_members.2 ⟨B', hB', hk.isShared.trans hsh⟩)
    obtain ⟨B, hB, hsh⟩ := hw.mem_members.1 hb
    rcases (hw.awaitStep ht).forward hB with ⟨B', hB', hk⟩ | ⟨hgone, -⟩
    · exact kept hB hsh hB' hk
    · -- one of them is destroyed, but not the last
      obtain ⟨c, rfl, -⟩ := ht.destroyed hB hgone
      have hlast : w.members H.name ≠ [b] := by
        simpa [Handlers.runs, hB, hsh] using (Bool.and_eq_true_iff.1 hok).2
      obtain ⟨b₂, hb₂, hne⟩ : ∃ b₂ ∈ w.members H.name, b₂ ≠ b := by
        by_contra hno
        push Not at hno
        refine hlast (List.perm_singleton.1 ?_)
        refine (List.perm_ext_iff_of_nodup (hw.nodup_members _) (List.nodup_singleton b)).2 fun b₂ => ?_
        exact ⟨fun h₂ => List.mem_singleton.2 (hno b₂ h₂), fun h₂ => List.mem_singleton.1 h₂ ▸ hb⟩
      obtain ⟨B₂, hB₂, hsh₂⟩ := hw.mem_members.1 hb₂
      rcases (hw.awaitStep ht).forward hB₂ with ⟨B', hB', hk⟩ | ⟨hgone₂, -⟩
      · exact kept hB₂ hsh₂ hB' hk
      · obtain ⟨c', he, -⟩ := ht.destroyed hB₂ hgone₂
        cases he
        exact absurd rfl hne

/-! ### All that was pushed -/

theorem Handlers.record_push {m : InternalMessage} (hm : m.name = H.name) :
    H.record w (.push m) l = { l with id := l.id + 1 } := if_pos hm

theorem Handlers.record_id (h : ∀ m, act = .push m → m.name ≠ H.name) :
    (H.record w act l).id = l.id := by
  cases act with
  | push m => rw [Handlers.record, if_neg (h m rfl)]
  | run c junk =>
    unfold Handlers.record
    dsimp only
    repeat' split
    all_goals rfl
  | _ => rfl

/-- Where the messages are that the generator has pushed: enqueued on the await of `handle_msg1`,
brought there by the dispatcher, or in the bus queue. -/
structure Flow (H : Handlers) (w : World) (l : Checks) : Prop where
  quiet : l.id = 0 → ∀ p, w.inFlight p → p.msg.name ≠ H.name
  ready : 0 < l.id → H.ready w = true
  order : named H.name (delivered H.msgAwait w.trace) ++
    (w.disp .normal).onWay H.msgAwait H.name ++ w.waiting H.name = sent H.name l.id

theorem waiting_of_quiet (h : ∀ p, w.inFlight p → p.msg.name ≠ n) : w.waiting n = [] := by
  refine List.filter_eq_nil_iff.2 fun m hm => ?_
  obtain ⟨p, hp, rfl⟩ := List.mem_map.1 hm
  simpa using h p ⟨.normal, .inl hp⟩

/-- Before the first push no message of the name is anywhere. -/
theorem Flow.of_quiet (hzero : l.id = 0) (h : ∀ p, w.inFlight p → p.msg.name ≠ H.name)
    (hd : named H.name (delivered H.msgAwait w.trace) = []) : Flow H w l where
  quiet _ := h
  ready hid := by omega
  order := by
    rw [hd, DispPc.onWay_of_ne fun p hp => h p ⟨.normal, .inr hp⟩, waiting_of_quiet h, hzero]
    rfl

theorem Flow.init : Flow H World.init {} := by
  refine .of_quiet rfl (fun p hp => ?_) rfl
  obtain ⟨d, hq | hd⟩ := hp
  · cases hq
  · cases hd

/-- Only what was in flight is delivered. -/
theorem named_delivered (ht : Trans w act w') (h : ∀ p, w.inFlight p → p.msg.name ≠ n)
    (hd : named n (delivered a w.trace) = []) : named n (delivered a w'.trace) = [] := by
  rcases ht.delivered a with he | htr | ⟨d, k, p, first, rest, co, hdisp, he⟩
  · rwa [he]
  · rw [htr]
    simp [delivered, named]
  · have hp := h p ⟨d, .inr (by rw [hdisp]; rfl)⟩
    rw [he, named, List.filter_append]
    simpa [named, hp] using hd

/-- The enqueue of `push_message`. -/
theorem Trans.enqueued {d : Dispatcher} {i : ℕ} (ht : Trans w (.dispatch d i) w') {k : AwaitType}
    {p : Packet} {first : Addr} {rest : List Addr} {h : CoId}
    (hd : w.disp d = .visit k p first a rest (.enqueue h)) :
    w'.disp d = .visit k p first a rest (.loadState h) ∧ w'.trace = .enqueued a p.msg :: w.trace := by
  have hdispatch := ht.dispatch_eq
  simp only [World.dispatchStep, hd] at hdispatch
  obtain ⟨A, -, rfl⟩ := Option.map_eq_some_iff.1 hdispatch
  exact ⟨Function.update_self .., rfl⟩

/-- The dispatcher goes on with its message. -/
theorem Wf.onWay_step (hw : Wf w) (hk : (w.disp .normal).ofKind = true)
    (hnd : (w.disp .normal).range.Nodup) (hlive : w.Listens a n) {i : ℕ}
    (hd : w.disp .normal ≠ .fetch) (ht : Trans w (.dispatch .normal i) w') :
    named n (delivered a w'.trace) ++ (w'.disp .normal).onWay a n =
      named n (delivered a w.trace) ++ (w.disp .normal).onWay a n := by
  by_cases henq : ∃ k q first rest h, w.disp .normal = .visit k q first a rest (.enqueue h)
  · obtain ⟨k, q, first, rest, h, hpc⟩ := henq
    obtain ⟨hpc', htr⟩ := ht.enqueued hpc
    rw [hpc] at hk hnd
    cases k with
    | normal =>
      have hnot : a ∉ rest := (List.nodup_cons.1 hnd).1
      rw [htr, hpc, hpc']
      simp [delivered, named, DispPc.onWay, DispPc.headsFor, VisitPc.before, DispPc.packet, hnot]
    | shared | temp => cases hk
  · have hsame : delivered a w'.trace = delivered a w.trace := by
      obtain ⟨A, ha, -⟩ := hlive
      rcases ht.delivered_from ha with he | ⟨d, j, k, q, first, rest, h, hact, hpc, -⟩
      · exact he
      · cases hact
        exact absurd ⟨k, q, first, rest, h, hpc⟩ henq
    -- the message stays the same, or is put away
    have hfrom : ∀ q, (w'.disp .normal).packet = some q → (w.disp .normal).packet = some q := by
      intro q hq
      rcases ht.packet_from hq with h | ⟨_, _, h, _⟩
      · exact h
      · exact absurd h hd
    obtain ⟨p, hp⟩ : ∃ p, (w.disp .normal).packet = some p := by
      cases hpc : w.disp .normal with
      | fetch => exact absurd hpc hd
      | lock k p | visit k p | sharedPush p => exact ⟨p, rfl⟩
    rw [hsame]
    congr 1
    by_cases hname : p.msg.name = n
    · refine DispPc.onWay_eq ?_ fun h => ?_
      · exact hw.headsFor_step hk hp (hname ▸ hlive)
          (fun k q first rest h hpc => henq ⟨k, q, first, rest, h, hpc⟩) ht
      · obtain ⟨q, hq⟩ := DispPc.packet_of_headsFor h
        rw [hq, hfrom q hq]
    · have hne : ∀ q, (w.disp .normal).packet = some q → q.msg.name ≠ n := by
        intro q hq
        rw [hp] at hq
        exact Option.some.inj hq ▸ hname
      rw [DispPc.onWay_of_ne hne, DispPc.onWay_of_ne fun q hq => hne q (hfrom q hq)]

/-- The messages on their way when the generator pushes nothing. -/
theorem Flow.order_step (h : Flow H w l) (hr : Reachable Run.Any w) (hA : Apart H.name w)
    (hcon : Consumers H.name H.shared w) (hok : H.runs w l act = true) (ht : Trans w act w')
    (hlive : w.Listens H.msgAwait H.name) (hpush : ∀ m, act = .push m → m.name ≠ H.name) :
    named H.name (delivered H.msgAwait w'.trace) ++ (w'.disp .normal).onWay H.msgAwait H.name ++
      w'.waiting H.name = sent H.name l.id := by
  have hw := wf_of_reachable hr
  rw [← h.order]
  by_cases hact : ∃ i, act = .dispatch .normal i
  · obtain ⟨i, rfl⟩ := hact
    by_cases hd : w.disp .normal = .fetch
    · obtain ⟨htr, p, hd', hsplit⟩ := ht.fetch_inOrder hd (by simpa [Handlers.runs, hd] using hok)
      rw [htr, hd', hd, hsplit]
      simp [DispPc.onWay, DispPc.headsFor, DispPc.packet]
    · rw [hA.waiting_same hpush (fun _ _ => hd) ht]
      rw [hw.onWay_step (ofKind_of_reachable hr _) (range_nodup_of_reachable hr _) hlive hd ht]
  · have hdisp : w'.disp .normal = w.disp .normal := by
      rcases ht.disp_eq .normal with he | ⟨i, rfl⟩
      · exact he
      · exact absurd ⟨i, rfl⟩ hact
    rw [hA.waiting_same hpush (fun i hi => absurd ⟨i, hi⟩ hact) ht, hdisp]
    congr 2
    obtain ⟨A, ha, -⟩ := hlive
    rcases ht.delivered_from ha with he | ⟨d, i, k, p, first, rest, co, rfl, hpc, he⟩
    · rw [he]
    · -- the other dispatcher has no message of the name
      cases d with
      | normal => exact absurd ⟨i, rfl⟩ hact
      | high =>
        have hne := hcon.high_packet p (by rw [hpc]; rfl)
        rw [he, named, List.filter_append]
        simp [named, hne]

/-- **Nothing is lost on the way to the await**, along every step. -/
theorem Flow.next (h : Flow H w l) (hr : Reachable Run.Any w) (hA : Apart H.name w)
    (hcon : Consumers H.name H.shared w) (hok : H.runs w l act = true) (ht : Trans w act w') :
    Flow H w' (H.record w act l) := by
  have hw := wf_of_reachable hr
  by_cases hpush : ∃ m, act = .push m ∧ m.name = H.name
  · obtain ⟨m, rfl, hm⟩ := hpush
    rw [Handlers.record_push hm]
    simp only [Handlers.runs, hm, Bool.or_eq_true, Bool.not_eq_true', decide_true, Bool.true_eq_false,
      false_or, Bool.and_eq_true, decide_eq_true_eq] at hok
    obtain ⟨⟨rfl, hid⟩, hready⟩ := hok
    cases ht with
    | push =>
      refine ⟨fun h => absurd h (Nat.succ_ne_zero _), fun _ => hready, ?_⟩
      have hwait := World.waiting_enqueueBus (w := w) (n := H.name) (generated H.name (l.id + 1)) none
      have hnamed : named H.name [generated H.name (l.id + 1)] = [generated H.name (l.id + 1)] := by
        simp [named, generated]
      show named H.name (delivered H.msgAwait w.trace) ++ (w.disp .normal).onWay H.msgAwait H.name ++
        (w.enqueueBus .normal { msg := generated H.name (l.id + 1) }).waiting H.name =
          sent H.name (l.id + 1)
      rw [hwait, hnamed, ← List.append_assoc, h.order, sent_succ]
  · have hnot : ∀ m, act = .push m → m.name ≠ H.name := fun m hact hm => hpush ⟨m, hact, hm⟩
    have hid := Handlers.record_id (w := w) (l := l) hnot
    rcases Nat.eq_zero_or_pos l.id with hzero | hpos
    · refine .of_quiet (hid.trans hzero) (fun p hp hn => ?_) (named_delivered ht (h.quiet hzero) ?_)
      · rcases ht.inFlight hp with hp | hp
        · exact h.quiet hzero p hp hn
        · exact hnot p.msg (hA.pushed hok hp hn) hn
      · have horder := h.order
        rw [hzero, sent_zero] at horder
        simp only [List.append_eq_nil_iff] at horder
        exact horder.1.1
    · have hready := h.ready hpos
      have hlive := (Handlers.ready_iff.1 hready).1
      refine ⟨fun hz => by omega, fun _ => hw.ready_step (hw.step ht) hpos hok ht hready, ?_⟩
      rw [hid]
      exact h.order_step hr hA hcon hok ht hlive hnot

end DataProxy
