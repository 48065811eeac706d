import DataProxy.TimerUse

/-!
# Whose timer a removal hits

Every id from `get_id` but the first is given out for one await object: by `set_await_timeout` for
the await it arms, by `create_time_await` for the await it returns.  The history of a run is the
ledger of these, together with the removals sent and by whom: an object is named by its address and
the number of awaits that were made there.

A removal is a message like any other and carries the id in decimal.  `Owned` says where such a
message can be; that it hits the sender's own timer rests on the round trip of the two encodings
(`string2Int_toString`, `destructorMsg_timeName`).
-/

namespace DataProxy

open Function (update)

variable {w w' : World} {act : Action} {a : Addr} {A A' : Await} {t : TimerId} {c : CoId}
  {m : InternalMessage}

/-! ### The ledger -/

/-- An await object: the `birth`-th that was constructed at its address. -/
structure ObjectId where
  addr : Addr
  birth : ℕ
  deriving DecidableEq

/-- The number of awaits constructed at `a`. -/
def births (a : Addr) : List Event → ℕ
  | [] => 0
  | .created b :: tr => if b = a then births a tr + 1 else births a tr
  | .enqueued _ _ :: tr | .sharedDispatched _ :: tr | .returned _ _ _ _ :: tr => births a tr

/-- The object that was constructed last at `a`. -/
def World.object (w : World) (a : Addr) : ObjectId := ⟨a, births a w.trace⟩

/-- What a run keeps of its timers. -/
structure TimerLedger where
  /-- The await object for which an id was given out. -/
  allocated : TimerId → Option ObjectId := fun _ => none
  /-- The removals sent by `~TempMessageAwait` and `remove_timer`, with their senders. -/
  senders : List (InternalMessage × ObjectId) := []
  /-- The ids that some `remove_timer` has read. -/
  sent : TimerId → Bool := fun _ => false

/-- What a step adds to the ledger. -/
def recordTimer (w : World) (act : Action) (l : TimerLedger) : TimerLedger :=
  match act with
  | .body _ (.setTimeout a) =>
    { l with allocated := update l.allocated (w.sid + 1) (some (w.object a)) }
  | .registerTime c a _ =>
    match w.ctl c with
    | .creatingTime id _ =>
      { l with allocated := update l.allocated id (some ⟨a, births a w.trace + 1⟩) }
    | _ => l
  | .body _ (.destroy a) =>
    match w.awaits a with
    | some A =>
      if A.type = .temp ∧ hasTimePrefix A.waitMessageName then
        { l with senders := (destructorMsg A.waitMessageName, w.object a) :: l.senders }
      else l
    | none => l
  | .dispatch d _ =>
    match w.disp d with
    | .visit _ _ _ a _ .loadTimer =>
      match w.awaits a with
      | some A => if 0 < A.timerId then { l with sent := update l.sent A.timerId true } else l
      | none => l
    | .visit _ _ _ a _ (.pushRemove id) =>
      { l with senders := (removeTimerMsg id, w.object a) :: l.senders }
    | _ => l
  | _ => l

/-- A construction at `a` makes a new object; nothing else does. -/
theorem Trans.births (ht : Trans w act w') (a : Addr) :
    births a w'.trace = births a w.trace ∨
      w.awaits a = none ∧ births a w'.trace = DataProxy.births a w.trace + 1 := by
  have new : ∀ {b : Addr}, w.awaits b = none → w'.trace = .created b :: w.trace →
      DataProxy.births a w'.trace = DataProxy.births a w.trace ∨
        w.awaits a = none ∧ DataProxy.births a w'.trace = DataProxy.births a w.trace + 1 := by
    intro b hb htr
    rw [htr, DataProxy.births]
    split
    · rename_i hba
      exact .inr ⟨hba ▸ hb, rfl⟩
    · exact .inl rfl
  cases ht with
  | createClone _ _ hb | createQueue _ _ hb | createMessage _ _ hb | createTemp _ _ hb
  | registerTime _ hb => exact new hb rfl
  | @lockSome d i k =>
    left
    cases k <;> rfl
  | _ => exact .inl rfl

/-- A live await stays the same object. -/
theorem Trans.object (ht : Trans w act w') (ha : w.awaits a = some A) : w'.object a = w.object a := by
  rcases ht.births a with he | ⟨hn, -⟩
  · rw [World.object, World.object, he]
  · rw [ha] at hn
    cases hn

/-- What a step can do to the ledger of ids. -/
inductive Allocates (w : World) (act : Action) (l l' : TimerLedger) : Prop
  | keep (h : l'.allocated = l.allocated)
  | timeout {c : CoId} {a : Addr} (hact : act = .body c (.setTimeout a))
      (h : l'.allocated = update l.allocated (w.sid + 1) (some (w.object a)))
  | time {c : CoId} {a : Addr} {pos id isloop} (hact : act = .registerTime c a pos)
      (hc : w.ctl c = .creatingTime id isloop)
      (h : l'.allocated = update l.allocated id (some ⟨a, births a w.trace + 1⟩))

theorem recordTimer_allocates (w : World) (act : Action) (l : TimerLedger) :
    Allocates w act l (recordTimer w act l) := by
  unfold recordTimer
  split
  · exact .timeout rfl rfl
  · split
    · rename_i hc
      exact .time rfl hc rfl
    · exact .keep rfl
  · split
    · split <;> exact .keep rfl
    · exact .keep rfl
  · split
    · split
      · split <;> exact .keep rfl
      · exact .keep rfl
    · exact .keep rfl
    · exact .keep rfl
  · exact .keep rfl

/-- What a step can do to the ledger of removals. -/
inductive Sends (w : World) (act : Action) (l l' : TimerLedger) : Prop
  | keep (h : l'.senders = l.senders)
  | destructor {c : CoId} {a : Addr} {A : Await} (hact : act = .body c (.destroy a))
      (ha : w.awaits a = some A) (hty : A.type = .temp) (hp : hasTimePrefix A.waitMessageName = true)
      (h : l'.senders = (destructorMsg A.waitMessageName, w.object a) :: l.senders)
  | removeTimer {d i k p first} {a : Addr} {rest id} (hact : act = .dispatch d i)
      (hd : w.disp d = .visit k p first a rest (.pushRemove id))
      (h : l'.senders = (removeTimerMsg id, w.object a) :: l.senders)

theorem recordTimer_sends (w : World) (act : Action) (l : TimerLedger) :
    Sends w act l (recordTimer w act l) := by
  unfold recordTimer
  split
  · exact .keep rfl
  · split <;> exact .keep rfl
  · split
    · rename_i A ha
      split
      · rename_i hA
        exact .destructor rfl ha hA.1 hA.2 rfl
      · exact .keep rfl
    · exact .keep rfl
  · split
    · split
      · split <;> exact .keep rfl
      · exact .keep rfl
    · rename_i hd
      exact .removeTimer rfl hd rfl
    · exact .keep rfl
  · exact .keep rfl

theorem Sends.mem {l l' : TimerLedger} {S : ObjectId} (h : Sends w act l l')
    (hm : (m, S) ∈ l.senders) : (m, S) ∈ l'.senders := by
  cases h with
  | keep he => exact he ▸ hm
  | destructor _ _ _ _ he | removeTimer _ _ he =>
    rw [he]
    exact List.mem_cons_of_mem _ hm

/-! ### Ids and their objects -/

/-- The ledger agrees with the program: an id is given out once, and what an await holds in
`timer_id_`, or `remove_timer` has read there, was given out for that await. -/
structure Allotted (w : World) (l : TimerLedger) : Prop where
  sid_pos : 1 ≤ w.sid
  given : ∀ id S, l.allocated id = some S → 1 < id ∧ id ≤ w.sid
  creating : ∀ c id lp, w.ctl c = .creatingTime id lp →
    1 < id ∧ id ≤ w.sid ∧ l.allocated id = none ∧ w.timersMutex = some c
  timerId : ∀ a A, w.awaits a = some A → 0 < A.timerId →
    l.allocated A.timerId = some (w.object a)
  arming : ∀ c a id, w.ctl c = .arming a id → l.allocated id = some (w.object a)
  removal : ∀ d k p first a rest id, w.disp d = .visit k p first a rest (.pushRemove id) →
    l.allocated id = some (w.object a)

namespace Allotted

variable {l : TimerLedger}

/-- What has been given out stays so. -/
theorem grows (h : Allotted w l) {S : ObjectId} (hS : l.allocated t = some S) :
    (recordTimer w act l).allocated t = some S := by
  obtain ⟨-, hle⟩ := h.given t S hS
  cases recordTimer_allocates w act l with
  | keep he => rw [he, hS]
  | timeout _ he =>
    have hne : t ≠ w.sid + 1 := Nat.ne_of_lt (Nat.lt_succ_of_le hle)
    rw [he, Function.update_of_ne hne, hS]
  | @time c a pos id lp _ hc he =>
    have hne : t ≠ id := by
      rintro rfl
      rw [(h.creating c t lp hc).2.2.1] at hS
      cases hS
    rw [he, Function.update_of_ne hne, hS]

theorem given_step (h : Allotted w l) (ht : Trans w act w') {S : ObjectId}
    (hS : (recordTimer w act l).allocated t = some S) : 1 < t ∧ t ≤ w'.sid := by
  have old : l.allocated t = some S → 1 < t ∧ t ≤ w'.sid := fun hS =>
    ⟨(h.given t S hS).1, Nat.le_trans (h.given t S hS).2 ht.sid_le⟩
  cases recordTimer_allocates w act l with
  | keep he => exact old (he ▸ hS)
  | timeout hact he =>
    by_cases hid : t = w.sid + 1
    · subst hact
      cases ht
      exact ⟨hid ▸ Nat.lt_succ_of_le h.sid_pos, Nat.le_of_eq hid⟩
    · rw [he, Function.update_of_ne hid] at hS
      exact old hS
  | @time c a pos id lp _ hc he =>
    by_cases hid : t = id
    · obtain ⟨hpos, hle, -⟩ := h.creating c id lp hc
      exact hid ▸ ⟨hpos, Nat.le_trans hle ht.sid_le⟩
    · rw [he, Function.update_of_ne hid] at hS
      exact old hS

theorem creating_step (h : Allotted w l) (ht : Trans w act w') {lp : Bool}
    (hc' : w'.ctl c = .creatingTime t lp) :
    1 < t ∧ t ≤ w'.sid ∧ (recordTimer w act l).allocated t = none ∧ w'.timersMutex = some c := by
  rcases ht.ctl_from c with he | hm
  · have hc : w.ctl c = .creatingTime t lp := he ▸ hc'
    obtain ⟨hpos, hle, hno, hmutex⟩ := h.creating c t lp hc
    -- whoever else is in `create_time_await` would hold `timers_mutex_` too
    have only : ∀ {c₁ id l₁}, w.ctl c₁ = .creatingTime id l₁ → w'.ctl c₁ ≠ .body := by
      intro c₁ id l₁ hc₁ hbody
      obtain rfl : c₁ = c :=
        Option.some.inj ((h.creating c₁ id l₁ hc₁).2.2.2.symm.trans hmutex)
      rw [hc'] at hbody
      cases hbody
    refine ⟨hpos, Nat.le_trans hle ht.sid_le, ?_, ?_⟩
    · cases recordTimer_allocates w act l with
      | keep he => rw [he, hno]
      | timeout _ he =>
        have hne : t ≠ w.sid + 1 := Nat.ne_of_lt (Nat.lt_succ_of_le hle)
        rw [he, Function.update_of_ne hne, hno]
      | time hact hc₁ =>
        subst hact
        cases ht
        exact absurd (Function.update_self ..) (only hc₁)
    · rcases ht.timersMutex hmutex with hm | ⟨c₁, id, l₁, hc₁, hbody⟩
      · exact hm
      · exact absurd hbody (only hc₁)
  · rw [hc'] at hm
    generalize w.ctl c = x at hm
    cases hm with
    | createTime hact _ hmutex =>
      subst hact
      refine ⟨Nat.lt_succ_of_le h.sid_pos, ?_, ?_, hmutex⟩
      · cases ht
        exact Nat.le_refl _
      · rw [show recordTimer w (.body c (.createTime lp)) l = l from rfl]
        cases hS : l.allocated (w.sid + 1) with
        | none => rfl
        | some S => exact absurd (h.given _ S hS).2 (Nat.not_succ_le_self _)

theorem arming_step (h : Allotted w l) (hw : Wf w) (ht : Trans w act w')
    (hc' : w'.ctl c = .arming a t) :
    (recordTimer w act l).allocated t = some (w'.object a) := by
  rcases ht.arming hc' with hc | ⟨rfl, rfl⟩
  · obtain ⟨A, ha, -⟩ := hw.at_await c a (by rw [hc]; rfl)
    rw [ht.object ha]
    exact h.grows (h.arming c a t hc)
  · obtain ⟨A, ha, -⟩ := ht.setTimeout_eq
    rw [ht.object ha]
    exact Function.update_self ..

theorem timerId_step (h : Allotted w l) (hw : Wf w) (ht : Trans w act w')
    (ha' : w'.awaits a = some A') (hpos : 0 < A'.timerId) :
    (recordTimer w act l).allocated A'.timerId = some (w'.object a) := by
  rcases (hw.awaitStep ht).backward ha' with ⟨A, ha, -⟩ | ⟨-, hf, -⟩
  · rw [ht.object ha]
    rcases (ht.edit ha ha').timerId with he | ⟨c, hc⟩
    · rw [he] at hpos ⊢
      exact h.grows (h.timerId a A ha hpos)
    · exact h.grows (h.arming c a _ hc)
  · rw [hf.timerId] at hpos
    exact absurd hpos (Nat.lt_irrefl 0)

theorem removal_step (h : Allotted w l) (hw : Wf w) (ht : Trans w act w') {d : Dispatcher}
    {k : AwaitType} {p : Packet} {first : Addr} {rest : List Addr} {id : TimerId}
    (hd : w'.disp d = .visit k p first a rest (.pushRemove id)) :
    (recordTimer w act l).allocated id = some (w'.object a) := by
  rcases ht.visit_from hd (by simp) with hd₀ | ⟨i, s, -, hd₀, hm⟩
  · obtain ⟨A, ha⟩ := hw.visited hd₀
    rw [ht.object ha]
    exact h.grows (h.removal _ _ _ _ _ _ _ hd₀)
  · cases hm with
    | loadTimer ha hpos =>
      rw [ht.object ha]
      exact h.grows (h.timerId a _ ha hpos)
    | enter _ _ hs => rcases hs with ⟨-, hs⟩ | ⟨-, hs⟩ | ⟨-, hs, -⟩ <;> cases hs
    | stateStop _ hs => rcases hs with ⟨-, hs⟩ | ⟨-, hs⟩ <;> cases hs
    | awaitThis _ hs => rcases hs with ⟨-, hs⟩ | ⟨-, hs⟩ | ⟨-, hs⟩ <;> cases hs

/-- **One step.** -/
theorem step (h : Allotted w l) (hw : Wf w) (ht : Trans w act w') :
    Allotted w' (recordTimer w act l) where
  sid_pos := Nat.le_trans h.sid_pos ht.sid_le
  given _ _ := h.given_step ht
  creating _ _ _ := h.creating_step ht
  timerId _ _ := h.timerId_step hw ht
  arming _ _ _ := h.arming_step hw ht
  removal _ _ _ _ _ _ _ := h.removal_step hw ht

theorem init : Allotted World.init {} := by
  refine ⟨Nat.le_refl 1, fun id S hS => ?_, fun c id lp hc => ?_, fun a A ha hpos => ?_,
    fun c a id hc => ?_, fun d k p first a rest id hd => ?_⟩
  · cases hS
  · rcases World.init_ctl c with h | ⟨-, h⟩ <;> rw [h] at hc <;> cases hc
  · obtain ⟨-, rfl⟩ := World.init_awaits ha
    cases hpos
  · rcases World.init_ctl c with h | ⟨-, h⟩ <;> rw [h] at hc <;> cases hc
  · cases hd

end Allotted

/-- The program together with its ledger. -/
abbrev LedgerReach (ok : World × TimerLedger → Action → Prop) : World × TimerLedger → Prop :=
  Run.Reach (Run.logged step recordTimer) ok (World.init, {})

theorem allotted_of_ledgerReach {ok : World × TimerLedger → Action → Prop}
    {x : World × TimerLedger} (h : LedgerReach ok x) : Allotted x.1 x.2 := by
  refine h.invariant (I := fun x => Allotted x.1 x.2) Allotted.init ?_
  intro x act y hr ih _ hs
  obtain ⟨hs, hy⟩ := Run.logged_eq_some.1 hs
  have hr' : Reachable Run.Any x.1 := hr.fst fun _ _ _ => trivial
  rw [hy]
  exact ih.step (wf_of_reachable hr') (trans_of_step hs)

/-! ### Where a removal can be -/

/-- The condition on one step that the prefix of `create_time_await` and the name of the removals
are left to `TimerMgr` and to `TempMessageAwait`, and that `sid_` does not wrap around. -/
def ownNames (w : World) : Action → Bool
  | .push m | .pushHigh m => decide (m.name ≠ removeTimerName)
  | .body _ (.createTemp _ _ name _ _ _) => !hasTimePrefix name
  | .body _ (.createTime _) | .body _ (.setTimeout _) => decide (w.sid < uint64Max)
  | .ioStep =>
    match w.io with
    -- the callback of a timeout on an await that waits for `__RemoveTimer`
    | .call id => (w.timerAt id).all fun T => T.func.message.all fun m =>
        decide (m.name ≠ removeTimerName)
    | .idle | .rearm _ => true
  | _ => true

/-- Every removal on its way has a sender, and carries an id given out for the sender. -/
structure Owned (w : World) (l : TimerLedger) : Prop where
  small : w.sid ≤ uint64Max
  prefixed : ∀ a A, w.awaits a = some A → A.type = .temp → hasTimePrefix A.waitMessageName = true →
    ∃ t, A.waitMessageName = timeName t ∧ l.allocated t = some (w.object a)
  sender : ∀ m S, (m, S) ∈ l.senders → ∃ t, m = removeTimerMsg t ∧ l.allocated t = some S
  destroying : ∀ c m, w.ctl c = .destroying m → ∃ S, (m, S) ∈ l.senders
  packets : ∀ p, w.inFlight p → p.msg.name = removeTimerName → ∃ S, (p.msg, S) ∈ l.senders
  delivered : ∀ m ∈ delivered removerAwait w.trace, ∃ S, (m, S) ∈ l.senders
  removing : ∀ c m, w.ctl c = .removing m → ∃ S, (m, S) ∈ l.senders

namespace Owned

variable {l : TimerLedger}

theorem small_step (h : Owned w l) (ht : Trans w act w') (hok : ownNames w act = true) :
    w'.sid ≤ uint64Max := by
  refine ht.sid_small h.small ?_
  rintro c (⟨l, rfl⟩ | ⟨a, rfl⟩)
  · exact of_decide_eq_true hok
  · exact of_decide_eq_true hok

/-- A name with the prefix is made from the id given out for the await. -/
theorem prefixed_step (h : Owned w l) (hl : Allotted w l) (hw : Wf w) (ht : Trans w act w')
    (hok : ownNames w act = true) (ha' : w'.awaits a = some A') (hty : A'.type = .temp)
    (hp : hasTimePrefix A'.waitMessageName = true) :
    ∃ t, A'.waitMessageName = timeName t ∧
      (recordTimer w act l).allocated t = some (w'.object a) := by
  rcases (hw.awaitStep ht).backward ha' with ⟨A, ha, hk⟩ | ⟨ha, -, htr⟩
  · rw [hk.name] at hp ⊢
    obtain ⟨t, hn, hS⟩ := h.prefixed a A ha (hk.type ▸ hty) hp
    exact ⟨t, hn, by rw [ht.object ha]; exact hl.grows hS⟩
  · rcases (ht.created ha ha').temp_cases hty with ⟨c, executor, priority, filter, pos, rfl⟩ |
      ⟨c, pos, id, isloop, rfl, hc, hn⟩
    · simp only [ownNames, Bool.not_eq_true'] at hok
      cases hok.symm.trans hp
    · refine ⟨id, hn, ?_⟩
      rw [World.object, htr]
      simp [recordTimer, hc, births]

theorem sender_step (h : Owned w l) (hl : Allotted w l) {S : ObjectId}
    (hm : (m, S) ∈ (recordTimer w act l).senders) :
    ∃ t, m = removeTimerMsg t ∧ (recordTimer w act l).allocated t = some S := by
  have old : (m, S) ∈ l.senders →
      ∃ t, m = removeTimerMsg t ∧ (recordTimer w act l).allocated t = some S := by
    intro hm
    obtain ⟨t, hmt, hS⟩ := h.sender m S hm
    exact ⟨t, hmt, hl.grows hS⟩
  cases recordTimer_sends w act l with
  | keep he => exact old (he ▸ hm)
  | destructor _ ha hty hp he =>
    rw [he, List.mem_cons] at hm
    rcases hm with hm | hm
    · cases hm
      obtain ⟨t, hn, hS⟩ := h.prefixed _ _ ha hty hp
      exact ⟨t, by rw [hn, destructorMsg_timeName], hl.grows hS⟩
    · exact old hm
  | removeTimer _ hd he =>
    rw [he, List.mem_cons] at hm
    rcases hm with hm | hm
    · cases hm
      exact ⟨_, rfl, hl.grows (hl.removal _ _ _ _ _ _ _ hd)⟩
    · exact old hm

/-- What was sent stays in the ledger. -/
theorem sent_step (h : ∃ S, (m, S) ∈ l.senders) : ∃ S, (m, S) ∈ (recordTimer w act l).senders := by
  obtain ⟨S, hS⟩ := h
  exact ⟨S, (recordTimer_sends w act l).mem hS⟩

theorem destroying_step (h : Owned w l) (ht : Trans w act w') (hc : w'.ctl c = .destroying m) :
    ∃ S, (m, S) ∈ (recordTimer w act l).senders := by
  rcases ht.destroying hc with hc | ⟨a, A, rfl, ha, hty, hp, rfl⟩
  · exact sent_step (h.destroying c m hc)
  · exact ⟨w.object a, by simp [recordTimer, ha, hty, hp]⟩

theorem packets_step (h : Owned w l) (ht : Trans w act w') (hok : ownNames w act = true)
    {p : Packet} (hp : w'.inFlight p) (hn : p.msg.name = removeTimerName) :
    ∃ S, (p.msg, S) ∈ (recordTimer w act l).senders := by
  rcases ht.inFlight hp with hp | hnew
  · exact sent_step (h.packets p hp hn)
  · cases hnew with
    | outside hact =>
      rcases hact with rfl | rfl <;> exact absurd hn (of_decide_eq_true hok)
    | destructor _ hc => exact sent_step (h.destroying _ _ hc)
    | @removal d i k q first a rest id hact hd hm =>
      subst hact
      exact ⟨w.object a, by simp [recordTimer, hd, hm]⟩
    | callback hact hi hT hm =>
      subst hact
      simp only [ownNames, hi, hT, hm, Option.all_some, decide_eq_true_eq] at hok
      exact absurd hn hok

theorem delivered_step (h : Owned w l) (hr : RemoverOk w) (hw : Wf w) (ht : Trans w act w')
    (hm : m ∈ DataProxy.delivered removerAwait w'.trace) :
    ∃ S, (m, S) ∈ (recordTimer w act l).senders := by
  apply sent_step
  rcases hr.delivered_from hw ht hm with hm | ⟨p, hp, hn, rfl⟩
  · exact h.delivered m hm
  · exact h.packets p hp hn

theorem removing_step (h : Owned w l) (hr : RemoverOk w) (hw : Wf w)
    (hbox : ∀ a A, w.awaits a = some A → A.type = .normal → (w.mailbox a A).Ok)
    (ht : Trans w act w') (hc : w'.ctl c = .removing m) :
    ∃ S, (m, S) ∈ (recordTimer w act l).senders := by
  apply sent_step
  rcases hr.removing hw hbox ht hc with hc | hm
  · exact h.removing c m hc
  · exact h.delivered m hm

/-- **One step.** -/
theorem step (h : Owned w l) (hl : Allotted w l) (hr : RemoverOk w) (hw : Wf w)
    (hbox : ∀ a A, w.awaits a = some A → A.type = .normal → (w.mailbox a A).Ok)
    (ht : Trans w act w') (hok : ownNames w act = true) : Owned w' (recordTimer w act l) where
  small := h.small_step ht hok
  prefixed _ _ := h.prefixed_step hl hw ht hok
  sender _ _ := h.sender_step hl
  destroying _ _ := h.destroying_step ht
  packets _ := h.packets_step ht hok
  delivered _ := h.delivered_step hr hw ht
  removing _ _ := h.removing_step hr hw hbox ht

theorem init : Owned World.init {} := by
  refine ⟨by decide, fun a A ha hty => ?_, fun m S hm => ?_, fun c m hc => ?_, ?_, fun m hm => ?_,
    fun c m hc => ?_⟩
  · obtain ⟨-, rfl⟩ := World.init_awaits ha
    cases hty
  · cases hm
  · rcases World.init_ctl c with h | ⟨-, h⟩ <;> rw [h] at hc <;> cases hc
  · rintro p ⟨d, hq | hd⟩
    · cases hq
    · cases hd
  · cases hm
  · rcases World.init_ctl c with h | ⟨-, h⟩ <;> rw [h] at hc <;> cases hc

/-- A message that the ledger knows decodes to the id given out for its sender. -/
theorem decode (h : Owned w l) (hl : Allotted w l) {S : ObjectId} (hm : (m, S) ∈ l.senders) :
    ∃ t, string2Int m.data = some t ∧ l.allocated t = some S := by
  obtain ⟨t, rfl, hS⟩ := h.sender m S hm
  exact ⟨t, string2Int_toString (Nat.le_trans (hl.given t S hS).2 h.small), hS⟩

end Owned

theorem owned_of_ledgerReach {x : World × TimerLedger}
    (h : LedgerReach (fun x act => ownNames x.1 act = true) x) : Owned x.1 x.2 := by
  refine h.invariant (I := fun x => Owned x.1 x.2) Owned.init ?_
  intro x act y hr ih hok hs
  obtain ⟨hs, hy⟩ := Run.logged_eq_some.1 hs
  have hr' : Reachable Run.Any x.1 := hr.fst fun _ _ _ => trivial
  rw [hy]
  exact ih.step (allotted_of_ledgerReach hr) (removerOk_of_reachable hr') (wf_of_reachable hr')
    (mailbox_ok hr') (trans_of_step hs) hok

/-! ### The removals and their senders -/

/-- A timer leaves `timers` only when `co_handle_remove_timer` cancels it. -/
theorem Trans.cancelled (ht : Trans w act w') (hid : w.timers t = true) (hid' : w'.timers t = false) :
    ∃ c m junk, act = .run c junk ∧ w.ctl c = .removing m ∧ t = (string2Int m.data).getD junk := by
  have other : ∀ {u : TimerId}, w'.timers ≠ update w.timers u true := by
    intro u he
    rw [he] at hid'
    by_cases hu : t = u
    · subst hu
      rw [Function.update_self] at hid'
      cases hid'
    · rw [Function.update_of_ne hu, hid] at hid'
      cases hid'
  cases ht with
  | createTime | setTimeout => exact absurd rfl other
  | @cancel c m junk u hc hm hu =>
    refine ⟨c, m, junk, rfl, hc, ?_⟩
    by_contra hne
    rw [← hu] at hne
    simp [Function.update_of_ne hne, hid] at hid'
  | _ =>
    rw [hid] at hid'
    cases hid'

/-- What `co_handle_remove_timer` is about to pass to `cancel_timer` was given out for the object that
sent the message, whatever an uninitialised result of `String2Int` would hold; a timer that a step
takes out of `timers` was given out for the sender of a removal; and the timer of the constructor
of `TimerMgr`, which was given out for no await, is still there. -/
def RemovesOwn (w : World) (l : TimerLedger) : Prop :=
  (∀ c m, w.ctl c = .removing m → (∃ S, (m, S) ∈ l.senders) ∧
    ∀ junk S, (m, S) ∈ l.senders → l.allocated ((string2Int m.data).getD junk) = some S) ∧
  (∀ act w' id, step w act = some w' → w.timers id = true → w'.timers id = false →
    ∃ m S, (m, S) ∈ l.senders ∧ string2Int m.data = some id ∧ l.allocated id = some S) ∧
  l.allocated 1 = none ∧ w.timers 1 = true

/-- What is cancelled is the sender's. -/
theorem Owned.cancelled {l : TimerLedger} (h : Owned w l) (hl : Allotted w l)
    (ht : Trans w act w') (hid : w.timers t = true) (hid' : w'.timers t = false) :
    ∃ m S, (m, S) ∈ l.senders ∧ string2Int m.data = some t ∧ l.allocated t = some S := by
  obtain ⟨c, m, junk, -, hc, rfl⟩ := ht.cancelled hid hid'
  obtain ⟨S, hS⟩ := h.removing c m hc
  obtain ⟨u, hu, hSu⟩ := h.decode hl hS
  refine ⟨m, S, hS, ?_, ?_⟩
  · rw [hu]
    rfl
  · rw [hu]
    exact hSu

/-- The first timer is given out for no await. -/
theorem Allotted.first {l : TimerLedger} (hl : Allotted w l) : l.allocated 1 = none := by
  cases hS : l.allocated 1 with
  | none => rfl
  | some S => exact absurd (hl.given 1 S hS).1 (Nat.lt_irrefl 1)

/-- The timer of the constructor of `TimerMgr` is never cancelled. -/
theorem keepAlive_of_ledgerReach {x : World × TimerLedger}
    (h : LedgerReach (fun x act => ownNames x.1 act = true) x) : x.1.timers 1 = true := by
  refine h.invariant (I := fun x => x.1.timers 1 = true) (by decide) ?_
  intro x act y hr ih _ hs
  have hl := allotted_of_ledgerReach hr
  cases hy : y.1.timers 1 with
  | true => rfl
  | false =>
    obtain ⟨m, S, -, -, hS⟩ := (owned_of_ledgerReach hr).cancelled hl
      (trans_of_step (Run.logged_eq_some.1 hs).1) ih hy
    rw [hl.first] at hS
    cases hS

/-- **A removal hits the sender's own timer**, at every state of every run in which the reserved
names are used by their owners only; and `String2Int` undoes both encodings of an id. -/
theorem removesOwn_of_ownNames {x : World × TimerLedger}
    (h : LedgerReach (fun x act => ownNames x.1 act = true) x) :
    RemovesOwn x.1 x.2 ∧ ∀ id : TimerId, 1 ≤ id → id ≤ uint64Max →
      string2Int (toString id) = some id ∧
      string2Int (String.ofList ((timeName id).toList.drop 4)) = some id := by
  have hl := allotted_of_ledgerReach h
  have ho := owned_of_ledgerReach h
  refine ⟨⟨fun c m hc => ⟨ho.removing c m hc, fun junk S hS => ?_⟩, fun act w' id hs => ?_, hl.first,
    keepAlive_of_ledgerReach h⟩, fun id _ hid => ⟨string2Int_toString hid, ?_⟩⟩
  · obtain ⟨t, ht, hSt⟩ := ho.decode hl hS
    rw [ht]
    exact hSt
  · exact ho.cancelled hl (trans_of_step hs)
  · have hm : String.ofList ((timeName id).toList.drop 4) = toString id :=
      congrArg InternalMessage.data (destructorMsg_timeName id)
    rw [hm, string2Int_toString hid]

/-- A time await is made and destroyed, and its removal comes back to `co_handle_remove_timer`. -/
def removedOnce : List Action :=
  [Action.start 1, .body 1 (.createTime false), .registerTime 1 6 0, .body 1 (.destroy 6),
    .run 1 0] ++ List.replicate 10 (Action.dispatch .normal 0) ++ [Action.worker 0] ++
    List.replicate 5 (Action.run remover 0)

theorem removesOwn_removedOnce : ∃ x : World × TimerLedger,
    LedgerReach (fun x act => ownNames x.1 act = true) x ∧
      (x.1.ctl remover = .removing (removeTimerMsg 2) ∧ x.1.timers 2 = true ∧
        x.2.allocated 2 = some ⟨6, 1⟩ ∧ x.2.senders = [(removeTimerMsg 2, ⟨6, 1⟩)]) ∧
      RemovesOwn x.1 x.2 := by
  have hrun : (Run.exec (Run.guarded (Run.logged step recordTimer)
      fun x act => ownNames x.1 act = true) (World.init, {}) removedOnce).any (fun x => decide
      (x.1.ctl remover = .removing (removeTimerMsg 2) ∧ x.1.timers 2 = true ∧
        x.2.allocated 2 = some ⟨6, 1⟩ ∧ x.2.senders = [(removeTimerMsg 2, ⟨6, 1⟩)])) = true := by
    decide +kernel
  obtain ⟨x, hr, hx⟩ := Run.exists_reach_of_exec_guarded hrun
  exact ⟨x, hr, hx, (removesOwn_of_ownNames hr).1⟩

end DataProxy
