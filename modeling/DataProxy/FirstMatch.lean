import DataProxy.Ownership
import DataProxy.Handles
import DataProxy.Lib.Slot

/-!
# The first match

A `TempMessageAwait` hands its message over in `data_`, which nothing guards but the states of the
coroutine.  Where the name is served by one dispatch thread and the coroutine awaits nothing else,
the await, its coroutine and that thread are a slot with one reader and one writer: `World.slot` reads
the slot off the state of the program and off the history, and every step of the program is a step
of the slot or leaves it as it is.  What holds of slots then holds of the await: each wait ends with
the first message that qualifies.

The history numbers the waits.  Between the two stores of an `await_suspend` there may be any
number of other steps, so it also keeps which wait each outstanding store of `promise.await` belongs
to.
-/

namespace DataProxy

open Function (update)

variable {w w' : World} {act : Action} {a b : Addr} {A A' B : Await} {c : CoId}
  {d : Dispatcher} {n : String} {k : AwaitType} {p : Packet} {first : Addr} {rest : List Addr}
  {s : VisitPc} {i : ℕ}

/-! ### Served by one dispatcher -/

/-- The condition on one step: messages named `n` are taken from the bus by the dispatcher `d` only,
and the coroutine `c` awaits only on the `TempMessageAwait` named `n` at `a`. -/
def awaitsOnly (a : Addr) (n : String) (c : CoId) (d : Dispatcher) (w : World) : Action → Bool
  | .body c₁ (.coAwait b) =>
    decide (c₁ ≠ c) || decide (b = a) && (w.awaits b).all fun B =>
      decide (B.type = .temp ∧ B.waitMessageName = n)
  | .dispatch d₁ i =>
    match w.disp d₁ with
    | .fetch => (w.busQueue d₁)[i]?.all fun p => decide (p.msg.name = n → d₁ = d)
    | _ => true
  | _ => true

/-- What follows for the coroutine and for the dispatchers. -/
structure Served (a : Addr) (n : String) (c : CoId) (d : Dispatcher) (w : World) : Prop where
  carrier : ∀ d₁ p, (w.disp d₁).packet = some p → p.msg.name = n → d₁ = d
  place : ∀ b B, (w.ctl c).awaiting = some b → w.awaits b = some B →
    b = a ∧ B.type = .temp ∧ B.waitMessageName = n
  handle : ∀ b B, w.awaits b = some B → B.handle = some c →
    b = a ∧ B.type = .temp ∧ B.waitMessageName = n
  past : ∀ A, (w.ctl c).past = some a → w.awaits a = some A → A.handle = some c
  late : ∀ b, (c, b) ∈ w.late → b = a
  await : (w.promise c).await = none ∨ (w.promise c).await = some a
  claim : SingleClaim w c
  checked : (w.disp d).checked = some c → (w.promise c).state = .stopState

namespace Served

/-- A delivery that refers to the coroutine is one to the await, by the dispatcher. -/
theorem visit (h : Served a n c d w) (hw : Wf w) {d₁ : Dispatcher}
    (hd : w.disp d₁ = .visit k p first b rest s) (hs : s.handle = some c) :
    d₁ = d ∧ k = .temp ∧ b = a ∧ p.msg.name = n := by
  obtain ⟨B, hb, hh⟩ := hw.visit_handle d₁ k p first b rest s c hd hs
  obtain ⟨rfl, hty, hn⟩ := h.handle b B hb hh
  obtain ⟨hk, hname⟩ := hw.visit_type hd hb
  exact ⟨h.carrier d₁ p (by rw [hd]; rfl) (hname.symm.trans hn), hk.symm.trans hty, rfl,
    hname.symm.trans hn⟩

theorem carrier_step (h : Served a n c d w) (ht : Trans w act w')
    (hok : awaitsOnly a n c d w act = true) {d₁ : Dispatcher} (hp : (w'.disp d₁).packet = some p)
    (hn : p.msg.name = n) : d₁ = d := by
  rcases ht.packet_from hp with hp | ⟨i, rfl, hd, hi⟩
  · exact h.carrier d₁ p hp hn
  · simp only [awaitsOnly, hd, hi, Option.all_some, decide_eq_true_eq] at hok
    exact hok hn

theorem place_step (h : Served a n c d w) (hw : Wf w) (ht : Trans w act w')
    (hok : awaitsOnly a n c d w act = true) (hc : (w'.ctl c).awaiting = some b)
    (hb' : w'.awaits b = some B) : b = a ∧ B.type = .temp ∧ B.waitMessageName = n := by
  obtain ⟨B₀, hb, -⟩ : ∃ B₀, w.awaits b = some B₀ ∧ B₀.owner = c := by
    rcases ht.ctl_at (Ctl.awaiting_at hc) with hat | hat
    · exact hw.at_await c b hat
    · exact hat
  have hk := hw.keeps ht hb hb'
  rw [hk.type, hk.name]
  have starts : ∀ {b₁}, act = .body c (.coAwait b₁) → b₁ = b →
      b = a ∧ B₀.type = .temp ∧ B₀.waitMessageName = n := by
    rintro b₁ rfl rfl
    simpa [awaitsOnly, hb] using hok
  rcases ht.ctl_from c with he | hm
  · exact h.place b B₀ (he ▸ hc) hb
  generalize hx : w.ctl c = x, w'.ctl c = y at hm hc
  cases hm with
  | ready hact | readyShared hact | notReady hact => exact starts hact (Option.some.inj hc)
  | suspendFlag | suspendHandle | suspendState | resume | loadSuspend | dequeue | clearSuspend
  | storeRuning => exact h.place b B₀ (by rw [hx]; exact hc) hb
  | _ => cases hc

theorem handle_step (h : Served a n c d w) (hw : Wf w) (ht : Trans w act w')
    (hb' : w'.awaits b = some B) (hh : B.handle = some c) :
    b = a ∧ B.type = .temp ∧ B.waitMessageName = n := by
  rcases (hw.awaitStep ht).backward hb' with ⟨B₀, hb, hk⟩ | ⟨-, hf, -⟩
  · rw [hk.type, hk.name]
    cases ht.edit hb hb' with
    | suspendHandle hc =>
      obtain rfl := Option.some.inj hh
      exact h.place b B₀ (by rw [hc]; rfl) hb
    | _ => exact h.handle b _ hb hh
  · rw [hf.handle] at hh
    cases hh

theorem past_step (h : Served a n c d w) (hw : Wf w) (ht : Trans w act w')
    (hok : awaitsOnly a n c d w act = true) (hc : (w'.ctl c).past = some a)
    (ha' : w'.awaits a = some A') : A'.handle = some c := by
  obtain ⟨A, ha, ho⟩ : ∃ A, w.awaits a = some A ∧ A.owner = c := by
    rcases ht.ctl_at (Ctl.at_of_past hc) with hat | hat
    · exact hw.at_await c a hat
    · exact hat
  have kept : A.handle = some c → A'.handle = some c := fun hh =>
    (hw.keeps ht ha ha').handle_eq (fun h => hw.handle_owner a A h ha) hh
  rcases ht.ctl_from c with he | hm
  · exact kept (h.past A (he ▸ hc) ha)
  generalize hx : w.ctl c = x, hy : w'.ctl c = y at hm
  rw [hy] at hc
  cases hm with
  -- a `TempMessageAwait` is never ready
  | @ready b B hact hb _ hty | @readyShared b B hact hb _ hty =>
    subst hact
    simp [awaitsOnly, hb, hty] at hok
  | @notReady b B s hact =>
    subst hact
    cases (ht.past_of_notReady hy).symm.trans hc
  | suspendHandle =>
    obtain rfl := Option.some.inj hc
    exact ht.stored_handle hx hy ha'
  | suspendState | resume | loadSuspend | dequeue | clearSuspend | storeRuning =>
    obtain rfl := Option.some.inj hc
    exact kept (h.past A (by rw [hx]; rfl) ha)
  | suspendFlag => cases hc
  | _ => cases hc

theorem late_step (h : Served a n c d w) (ht : Trans w act w')
    (hc : (c, b) ∈ w'.late) : b = a := by
  cases ht with
  | @suspendState c₁ b₁ B junk hc₁ hb =>
    rcases List.mem_cons.1 hc with he | hc
    · cases he
      exact (h.place b B (by rw [hc₁]; rfl) hb).1
    · exact h.late b hc
  | lateStore => exact h.late b (List.mem_of_mem_eraseIdx hc)
  | _ => exact h.late b hc

theorem await_step (h : Served a n c d w) (ht : Trans w act w') :
    (w'.promise c).await = none ∨ (w'.promise c).await = some a := by
  have other : ∀ {c₁ : CoId} {st : CoState},
      w'.promise = update w.promise c₁ { w.promise c₁ with state := st } →
      (w'.promise c).await = none ∨ (w'.promise c).await = some a := by
    intro c₁ st he
    have hsame : (w'.promise c).await = (w.promise c).await := by
      rw [he, Function.update_apply]
      split
      · rename_i hcc
        rw [hcc]
      · rfl
    rw [hsame]
    exact h.await
  cases ht with
  | @lateStore i c₁ b hi =>
    by_cases hcc : c = c₁
    · subst hcc
      simp only [Function.update_self, h.late b (List.mem_of_getElem? hi), or_true]
    · simp only [Function.update_of_ne hcc]
      exact h.await
  | suspendState | storeRuning | storeState => exact other rfl
  | _ => exact h.await

/-- The store of `QueueResume` on the coroutine comes from a check that is still true. -/
theorem stores (h : Served a n c d w) (hw : Wf w) : StoresOnStopped w act c := by
  rintro d₁ i k p first b rest - hd
  obtain ⟨rfl, -⟩ := h.visit hw hd rfl
  exact h.checked (by simp [hd, VisitPc.checked])

theorem checked_step (h : Served a n c d w) (hw : Wf w) (ht : Trans w act w')
    (hch : (w'.disp d).checked = some c) : (w'.promise c).state = .stopState := by
  rcases ht.checked hch with hch₀ | ⟨hst, he⟩
  · rcases hw.state_kept h.claim ht (h.checked hch₀) with hk |
      ⟨d₁, i, k, p, first, b, rest, rfl, hd⟩
    · exact hk
    · obtain ⟨rfl, -⟩ := h.visit hw hd rfl
      rw [ht.storeState_next hd] at hch
      simp [VisitPc.checked] at hch
  · rw [he]
    exact hst

/-- **One step.** -/
theorem step (h : Served a n c d w) (hw : Wf w) (ht : Trans w act w')
    (hok : awaitsOnly a n c d w act = true) : Served a n c d w' where
  carrier _ _ := h.carrier_step ht hok
  place _ _ := h.place_step hw ht hok
  handle _ _ := h.handle_step hw ht
  past _ := h.past_step hw ht hok
  late _ := h.late_step ht
  await := h.await_step ht
  claim := h.claim.step ht (h.stores hw)
  checked := h.checked_step hw ht

theorem init (hne : c ≠ remover) : Served a n c d World.init := by
  have hc : World.init.ctl c = .fresh := by simp [World.init, hne]
  refine ⟨fun _ _ hp => ?_, fun b B hb => ?_, fun b B hb hh => ?_, fun A hA => ?_, fun b hb => ?_,
    .inl ?_, SingleClaim.init c, fun hch => ?_⟩
  · cases hp
  · rw [hc] at hb
    cases hb
  · obtain ⟨-, rfl⟩ := World.init_awaits hb
    exact absurd (Option.some.inj hh).symm hne
  · rw [hc] at hA
    cases hA
  · cases hb
  · simp [World.init, hne]
  · cases hch

end Served

/-! ### A range is visited once -/

/-- The awaits that the block has still to finish. -/
def DispPc.range : DispPc → List Addr
  | .visit _ _ _ a rest _ => a :: rest
  | .fetch | .lock _ _ | .sharedPush _ _ => []

@[simp] theorem DispPc.range_after (p : Packet) (k : AwaitType) :
    (DispPc.after p k).range = [] := by
  cases k <;> rfl

@[simp] theorem DispPc.range_next (k : AwaitType) (p : Packet) (first : Addr) (rest : List Addr) :
    (DispPc.next k p first rest).range = rest := by
  cases rest <;> cases k <;> rfl

/-- No await is twice in the range of a block. -/
theorem Wf.range_nodup (hw : Wf w) (ht : Trans w act w') (h : ∀ d, (w.disp d).range.Nodup)
    (d : Dispatcher) : (w'.disp d).range.Nodup := by
  rcases ht.disp_eq d with he | ⟨i, rfl⟩
  · rw [he]
    exact h d
  have hd' := h d
  cases ht with
  | fetch | sharedPush => simp [DispPc.range]
  | lockNone => simp
  | @lockSome _ _ k p a rest hd hr =>
    simp only [Function.update_self, DispPc.range]
    rw [← hr]
    exact Multimap.nodup_equalRange (hw.nodup k) _
  | skip hd | stateOther hd | awaitOther hd | noTimer hd | pushRemove hd =>
    rw [hd] at hd'
    simp only [Function.update_self, DispPc.range_next]
    exact hd'.of_cons
  | enter hd | enqueue hd | stateStop hd | awaitThis hd | writeData hd | storeState hd
  | loadTimer hd =>
    rw [hd] at hd'
    simpa only [Function.update_self, DispPc.range] using hd'
  | pushQueue hd _ hpc =>
    rw [hd] at hd'
    simp only [Function.update_self]
    rcases hpc with ⟨-, rfl⟩ | ⟨-, rfl⟩ | ⟨-, rfl⟩
    · exact List.nodup_nil
    · rw [DispPc.range_next]
      exact hd'.of_cons
    · exact hd'

theorem range_nodup_of_reachable {ok : World → Action → Prop} (h : Reachable ok w)
    (d : Dispatcher) : (w.disp d).range.Nodup :=
  h.invariant (I := fun w => ∀ d, (w.disp d).range.Nodup) (fun _ => List.nodup_nil)
    (fun _ _ _ hr ih _ hs => (wf_of_reachable hr).range_nodup (trans_of_step hs) ih) d

/-! ### The history of an await -/

/-- What a run keeps of the await at `a`, since it was constructed, and of the messages named `n`. -/
structure SlotLog where
  /-- The messages taken from the bus, oldest first, since the program was started. -/
  dispatched : List InternalMessage := []
  /-- For each outstanding store of `promise.await`, the wait on this await that it belongs to. -/
  late : List (Option ℕ) := []
  /-- The number of stores of `StopState`. -/
  suspensions : ℕ := 0
  /-- The waits whose store of `promise.await` has been made. -/
  settled : List ℕ := []
  /-- The checks of `promise.state_` in `push_message`. -/
  checks : List Slot.Check := []
  /-- What `co_await` returned, with the number of the wait. -/
  returned : List (ℕ × InternalMessage) := []

/-- An await is constructed at the address. -/
def SlotLog.renew (l : SlotLog) : SlotLog :=
  { dispatched := l.dispatched, late := l.late.map fun _ => none }

/-- What a step adds.  The message being checked is the last one taken: only one dispatcher takes
messages of the name. -/
def recordSlot (a : Addr) (n : String) (w : World) (act : Action) (l : SlotLog) : SlotLog :=
  match act with
  | .body _ (.createShared b _ _ _ _) | .body _ (.createMessage b _ _ _ _)
  | .body _ (.createTemp b _ _ _ _ _) | .registerTime _ b _ => if b = a then l.renew else l
  | .run c _ =>
    match w.ctl c with
    | .suspending b .state =>
      if b = a then
        { l with late := some (l.suspensions + 1) :: l.late, suspensions := l.suspensions + 1 }
      else { l with late := none :: l.late }
    | .resuming b .ret =>
      match w.awaits b with
      | some B =>
        if b = a then { l with returned := l.returned ++ [(l.suspensions, B.data)] } else l
      | none => l
    | _ => l
  | .late i =>
    match l.late[i]? with
    | some (some k) => { l with late := l.late.eraseIdx i, settled := k :: l.settled }
    | _ => { l with late := l.late.eraseIdx i }
  | .dispatch d i =>
    match w.disp d with
    | .fetch =>
      match (w.busQueue d)[i]? with
      | some p => if p.msg.name = n then { l with dispatched := l.dispatched ++ [p.msg] } else l
      | none => l
    | .visit .temp _ _ b _ (.loadState _) =>
      if b = a then
        { l with checks := l.checks ++ [⟨l.dispatched.length - 1, l.suspensions, l.settled⟩] }
      else l
    | _ => l
  | _ => l

/-- A message of the name is added when it is taken from the bus. -/
theorem recordSlot_dispatched (a : Addr) (n : String) (w : World) (act : Action) (l : SlotLog) :
    (recordSlot a n w act l).dispatched = l.dispatched ∨
      ∃ d i p, act = .dispatch d i ∧ w.disp d = .fetch ∧ (w.busQueue d)[i]? = some p ∧
        p.msg.name = n ∧ (recordSlot a n w act l).dispatched = l.dispatched ++ [p.msg] := by
  unfold recordSlot
  split
  · split <;> exact .inl rfl
  · split <;> exact .inl rfl
  · split <;> exact .inl rfl
  · split <;> exact .inl rfl
  · split
    · split <;> exact .inl rfl
    · split
      · split <;> exact .inl rfl
      · exact .inl rfl
    · exact .inl rfl
  · split <;> exact .inl rfl
  · rename_i d i
    split
    · rename_i hd
      split
      · rename_i p hp
        split
        · rename_i hn
          exact .inr ⟨d, i, p, rfl, hd, hp, hn, rfl⟩
        · exact .inl rfl
      · exact .inl rfl
    · split <;> exact .inl rfl
    · exact .inl rfl
  · exact .inl rfl

/-- A construction at the address begins a new history. -/
theorem Created.recordSlot (h : Created w act a A') (l : SlotLog) :
    recordSlot a n w act l = l.renew := by
  cases h with
  | shared hact | message hact | temp hact | time hact =>
    subst hact
    exact if_pos rfl

/-- What a step can do to the outstanding stores and to the waits they belong to. -/
inductive LateStep (a : Addr) (w w' : World) (l l' : SlotLog) : Prop
  | same (hw : w'.late = w.late) (hl : l'.late = l.late)
  | renew (hw : w'.late = w.late) (hl : l'.late = l.late.map fun _ => none)
  | push {c : CoId} {b : Addr} {o : Option ℕ} (hc : w.ctl c = .suspending b .state)
      (hw : w'.late = (c, b) :: w.late) (hl : l'.late = o :: l.late) (ho : b ≠ a → o = none)
  | pop {i : ℕ} (hw : w'.late = w.late.eraseIdx i) (hl : l'.late = l.late.eraseIdx i)

theorem recordSlot_dispatch_late (a : Addr) (n : String) (w : World) (d : Dispatcher) (i : ℕ)
    (l : SlotLog) : (recordSlot a n w (.dispatch d i) l).late = l.late := by
  unfold recordSlot
  simp only
  split
  · split
    · split <;> rfl
    · rfl
  · split <;> rfl
  · rfl

theorem Trans.lateStep (ht : Trans w act w') (a : Addr) (n : String) (l : SlotLog) :
    LateStep a w w' l (recordSlot a n w act l) := by
  have create : ∀ {b : Addr}, w'.late = w.late →
      recordSlot a n w act l = (if b = a then l.renew else l) →
      LateStep a w w' l (recordSlot a n w act l) := by
    intro b hlate hrec
    rw [hrec]
    split
    · exact .renew hlate rfl
    · exact .same hlate rfl
  cases ht with
  | createClone | createQueue | createMessage | createTemp | registerTime => exact create rfl rfl
  | @suspendState c b B junk hc =>
    by_cases hba : b = a
    · exact .push (o := some (l.suspensions + 1)) hc rfl (by simp [recordSlot, hc, hba])
        (absurd hba)
    · exact .push (o := none) hc rfl (by simp [recordSlot, hc, hba]) fun _ => rfl
  | @lateStore i =>
    refine .pop rfl ?_
    simp only [recordSlot]
    split <;> rfl
  | @ret c b B junk hc hb =>
    refine .same rfl ?_
    simp only [recordSlot, hc, hb]
    split <;> rfl
  | arm hc | destroyPush hc | suspendFlag hc | suspendHandle hc | loadSuspend hc | dequeue hc
  | spin hc | clearSuspend hc | storeRuning hc | nullFault hc | cancel hc | cancelMiss hc =>
    exact .same rfl (by simp [recordSlot, hc])
  | fetch | lockNone | lockSome | skip | enter | enqueue | stateStop | stateOther | awaitThis
  | awaitOther | writeData | storeState | pushQueue | noTimer | loadTimer | pushRemove
  | sharedPush => exact .same rfl (recordSlot_dispatch_late ..)
  | _ => exact .same rfl rfl

/-- The history agrees with the program: the dispatcher carries the last message taken, and each
store of a wait on the await is that of its coroutine. -/
structure Tracked (a : Addr) (n : String) (d : Dispatcher) (w : World) (l : SlotLog) : Prop where
  carried : ∀ p, (w.disp d).packet = some p → p.msg.name = n →
    l.dispatched.getLast? = some p.msg
  late : ∀ i k : ℕ, l.late[i]? = some (some k) → ∀ A, w.awaits a = some A →
    w.late[i]? = some (A.owner, a)

namespace Tracked

variable {l : SlotLog}

theorem carried_step (h : Tracked a n d w l) (ht : Trans w act w')
    (hok : awaitsOnly a n c d w act = true) (hp : (w'.disp d).packet = some p)
    (hn : p.msg.name = n) : (recordSlot a n w act l).dispatched.getLast? = some p.msg := by
  have only : ∀ {d₁ i q}, act = .dispatch d₁ i → w.disp d₁ = .fetch →
      (w.busQueue d₁)[i]? = some q → q.msg.name = n → d₁ = d := by
    rintro d₁ i q rfl hd hi hq
    simp only [awaitsOnly, hd, hi, Option.all_some, decide_eq_true_eq] at hok
    exact hok hq
  rcases ht.packet_from hp with hp | ⟨i, rfl, hd, hi⟩
  · rcases recordSlot_dispatched a n w act l with he | ⟨d₁, i, q, hact, hd, hi, hq, -⟩
    · rw [he]
      exact h.carried p hp hn
    -- the dispatcher has nothing in hand when it fetches
    · obtain rfl := only hact hd hi hq
      rw [hd] at hp
      cases hp
  · simp [recordSlot, hd, hi, hn]

theorem late_step (h : Tracked a n d w l) (hw : Wf w) (ht : Trans w act w') {k : ℕ}
    (hk : (recordSlot a n w act l).late[i]? = some (some k)) (ha' : w'.awaits a = some A') :
    w'.late[i]? = some (A'.owner, a) := by
  rcases (hw.awaitStep ht).backward ha' with ⟨A, ha, hkeep⟩ | ⟨ha, -⟩
  · rw [hkeep.owner]
    cases ht.lateStep a n l with
    | same hlw hll =>
      rw [hll] at hk
      rw [hlw]
      exact h.late i k hk A ha
    | renew _ hll =>
      rw [hll, List.getElem?_map, Option.map_eq_some_iff] at hk
      obtain ⟨o, -, ho⟩ := hk
      cases ho
    | @push c b o hc hlw hll ho =>
      rw [hll] at hk
      rw [hlw]
      cases i with
      | zero =>
        have hba : b = a := by
          by_contra hba
          simp [ho hba] at hk
        subst hba
        simp [hw.owner_of_at (by rw [hc]; rfl) ha]
      | succ i => exact h.late i k hk A ha
    | @pop j hlw hll =>
      rw [hll, List.getElem?_eraseIdx] at hk
      rw [hlw, List.getElem?_eraseIdx]
      split at hk
      · rename_i hij
        rw [if_pos hij]
        exact h.late i k hk A ha
      · rename_i hij
        rw [if_neg hij]
        exact h.late (i + 1) k hk A ha
  · rw [(ht.created ha ha').recordSlot l, SlotLog.renew, List.getElem?_map,
      Option.map_eq_some_iff] at hk
    obtain ⟨o, -, ho⟩ := hk
    cases ho

theorem step (h : Tracked a n d w l) (hw : Wf w) (ht : Trans w act w')
    (hok : awaitsOnly a n c d w act = true) : Tracked a n d w' (recordSlot a n w act l) where
  carried _ := h.carried_step ht hok
  late _ _ hk _ := h.late_step hw ht hk

theorem init : Tracked a n d World.init {} where
  carried p hp := by cases hp
  late i k hk := by simp at hk

end Tracked

/-! ### The slot of an await -/

/-- Where the coroutine stands, seen from the await at `a`. -/
def Ctl.reader (a : Addr) (st : CoState) : Ctl → Slot.Reader
  | .suspended b => if b = a then (if st = .stopState then .waiting else .called) else .away
  | .resuming b _ => if b = a then .back else .away
  | .fresh | .body | .suspending _ _ | .creatingTime _ _ | .arming _ _ | .destroying _
  | .removing _ | .done => .away

/-- Where `push_message` stands. -/
def VisitPc.writer : VisitPc → Slot.Writer
  | .loadState _ => .offering
  | .loadAwait _ => .seen
  | .writeData _ => .writing
  | .storeState _ => .placed
  | .enter | .enqueue _ | .pushQueue _ | .loadTimer | .pushRemove _ => .idle

/-- Where the dispatcher stands, seen from the await at `a`. -/
def DispPc.writer (a : Addr) : DispPc → Slot.Writer
  | .visit .temp _ _ b _ s => if b = a then s.writer else .idle
  | _ => .idle

/-- The dispatcher has a message named `n` and has not come to the await at `a` with it. -/
def DispPc.unoffered (a : Addr) (n : String) : DispPc → Bool
  | .fetch => false
  | .lock _ p | .sharedPush p _ => decide (p.msg.name = n)
  | .visit k p _ b rest s => decide (p.msg.name = n) &&
    (decide (k ≠ .temp) || decide (a ∈ rest) || decide (b = a ∧ s = .enter))

/-- The message qualifies for the await. -/
def Await.accepts (A : Await) (m : InternalMessage) : Prop :=
  m.name = A.waitMessageName ∧ (A.filter m = true ∨ m.isTimeoutMsg = true)

/-- The slot of the await at `a`. -/
def World.slot (w : World) (a : Addr) (n : String) (c : CoId) (d : Dispatcher) (A : Await)
    (l : SlotLog) : Slot InternalMessage where
  reader := (w.ctl c).reader a (w.promise c).state
  published := decide ((w.promise c).await = some a)
  writer := (w.disp d).writer a
  fresh := (w.disp d).unoffered a n
  data := A.data
  suspensions := l.suspensions
  settled := l.settled
  stream := l.dispatched
  checks := l.checks
  returned := l.returned

@[simp] theorem DispPc.writer_after (a : Addr) (p : Packet) (k : AwaitType) :
    (DispPc.after p k).writer a = .idle := by
  cases k <;> rfl

@[simp] theorem DispPc.writer_next (a : Addr) (k : AwaitType) (p : Packet) (first : Addr)
    (rest : List Addr) : (DispPc.next k p first rest).writer a = .idle := by
  cases rest with
  | nil => cases k <;> rfl
  | cons b rest =>
    cases k with
    | temp => simp [DispPc.next, DispPc.writer, VisitPc.writer]
    | _ => rfl

theorem DispPc.writer_visit_of_ne (hb : b ≠ a) :
    (DispPc.visit k p first b rest s).writer a = .idle := by
  cases k with
  | temp => simp [DispPc.writer, hb]
  | _ => rfl

theorem DispPc.writer_visit_self :
    (DispPc.visit .temp p first a rest s).writer a = s.writer := by
  simp [DispPc.writer]

theorem DispPc.unoffered_next (k : AwaitType) (p : Packet) (first : Addr) (rest : List Addr) :
    (DispPc.next k p first rest).unoffered a n =
      (decide (p.msg.name = n) && (decide (k ≠ .temp) || decide (a ∈ rest))) := by
  cases rest with
  | nil => cases k <;> simp [DispPc.next, DispPc.unoffered, DispPc.after]
  | cons b rest =>
    by_cases hb : b = a
    · simp [DispPc.next, DispPc.unoffered, hb]
    · have hb' : a ≠ b := fun h => hb h.symm
      simp [DispPc.next, DispPc.unoffered, hb, hb']

theorem DispPc.unoffered_visit (k : AwaitType) (p : Packet) (first b : Addr) (rest : List Addr)
    (s : VisitPc) : (DispPc.visit k p first b rest s).unoffered a n = (decide (p.msg.name = n) &&
      (decide (k ≠ .temp) || decide (a ∈ rest) || decide (b = a ∧ s = .enter))) := rfl

/-- A step of the dispatcher away from the await. -/
theorem World.slot_idle {l : SlotLog} (hr : (w'.ctl c).reader a (w'.promise c).state =
      (w.ctl c).reader a (w.promise c).state)
    (hp : (w'.promise c).await = (w.promise c).await) (hdata : A'.data = A.data)
    (hw : (w.disp d).writer a = .idle) (hw' : (w'.disp d).writer a = .idle)
    (hf : (w'.disp d).unoffered a n = true → (w.disp d).unoffered a n = true) :
    w'.slot a n c d A' l = w.slot a n c d A l ∨
      Slot.Step A.accepts (w.slot a n c d A l) (w'.slot a n c d A' l) := by
  by_cases he : (w'.disp d).unoffered a n = (w.disp d).unoffered a n
  · left
    simp only [World.slot, hr, hp, hdata, hw, hw', he]
  · right
    have hno : (w'.disp d).unoffered a n = false := by
      cases hb : (w'.disp d).unoffered a n with
      | false => rfl
      | true => exact absurd (hb.trans (hf hb).symm) he
    have hslot : w'.slot a n c d A' l = { w.slot a n c d A l with fresh := false } := by
      simp only [World.slot, hr, hp, hdata, hw, hw', hno]
    rw [hslot]
    exact .skip hw

/-- A dispatcher writes to `data_` only in `push_message`. -/
theorem Trans.dispatch_data (ht : Trans w (.dispatch d i) w') (ha : w.awaits a = some A)
    (ha' : w'.awaits a = some A') :
    A'.data = A.data ∨ ∃ k p first rest co,
      w.disp d = .visit k p first a rest (.writeData co) ∧ A'.data = p.msg := by
  have edit : ∀ {b : Addr} {B B' : Await}, w.awaits b = some B →
      w'.awaits = update w.awaits b (some B') → (b ≠ a ∨ B'.data = B.data) →
      A'.data = A.data := by
    intro b B B' hb he hB
    by_cases hba : b = a
    · subst hba
      obtain rfl := Option.some.inj (ha.symm.trans hb)
      rw [he, Function.update_self, Option.some.injEq] at ha'
      rw [← ha']
      exact hB.resolve_left fun h => h rfl
    · rw [he, Function.update_of_ne (Ne.symm hba), ha, Option.some.injEq] at ha'
      rw [ha']
  cases ht with
  | enqueue _ hb => exact .inl (edit hb rfl (.inr rfl))
  | @writeData _ _ k p first b rest B co hd hb =>
    by_cases hba : b = a
    · subst hba
      simp only [Function.update_self, Option.some.injEq] at ha'
      exact .inr ⟨k, p, first, rest, co, hd, by rw [← ha']⟩
    · exact .inl (edit hb rfl (.inl hba))
  | storeState =>
    obtain ⟨B, hB, he⟩ := World.endWait_eq_some ha'
    obtain rfl := Option.some.inj (ha.symm.trans hB)
    rcases he with rfl | rfl <;> exact .inl rfl
  | _ =>
    obtain rfl := Option.some.inj (ha.symm.trans ha')
    exact .inl rfl

theorem recordSlot_visit {l : SlotLog} (hd : w.disp d = .visit k p first b rest s)
    (hs : (∀ h, s ≠ .loadState h) ∨ k ≠ .temp ∨ b ≠ a) :
    recordSlot a n w (.dispatch d i) l = l := by
  simp only [recordSlot, hd]
  split
  · rename_i he
    cases he
  · rename_i he
    cases he
    rcases hs with hs | hs | hs
    · exact absurd rfl (hs _)
    · exact absurd rfl hs
    · exact if_neg hs
  · rfl

theorem recordSlot_check {l : SlotLog} {co : CoId}
    (hd : w.disp d = .visit .temp p first a rest (.loadState co)) :
    recordSlot a n w (.dispatch d i) l = { l with
      checks := l.checks ++ [⟨l.dispatched.length - 1, l.suspensions, l.settled⟩] } := by
  simp [recordSlot, hd]

theorem DispPc.visit_of_writer {pc : DispPc} (h : pc.writer a ≠ .idle) :
    ∃ p first rest s, pc = .visit .temp p first a rest s ∧ s ≠ .enter := by
  cases pc with
  | visit k p first b rest s =>
    cases k with
    | temp =>
      by_cases hba : b = a
      · subst hba
        refine ⟨p, first, rest, s, rfl, ?_⟩
        rintro rfl
        exact h DispPc.writer_visit_self
      · exact absurd (DispPc.writer_visit_of_ne hba) h
    | _ => exact absurd rfl h
  | _ => exact absurd rfl h

theorem Trans.dispatch_promise (ht : Trans w (.dispatch d i) w') (c : CoId) :
    w'.promise c = w.promise c ∨
      ∃ k p first b rest, w.disp d = .visit k p first b rest (.storeState c) := by
  cases ht with
  | @storeState _ _ k p first b rest B co hd =>
    by_cases hcc : c = co
    · subst hcc
      exact .inr ⟨k, p, first, b, rest, hd⟩
    · exact .inl (Function.update_of_ne hcc ..)
  | _ => exact .inl rfl

/-- Between two messages the dispatcher only comes nearer to the await. -/
theorem Trans.unoffered_from (ht : Trans w (.dispatch d i) w') (hd : w.disp d ≠ .fetch)
    (h : (w'.disp d).unoffered a n = true) : (w.disp d).unoffered a n = true := by
  have next : ∀ {k p first b rest s}, w.disp d = .visit k p first b rest s →
      w'.disp = update w.disp d (.next k p first rest) → (w.disp d).unoffered a n = true := by
    intro k p first b rest s hd he
    rw [he, Function.update_self, DispPc.unoffered_next] at h
    rw [hd, DispPc.unoffered_visit]
    simp only [Bool.and_eq_true, Bool.or_eq_true] at h ⊢
    exact ⟨h.1, .inl h.2⟩
  have stay : ∀ {k p first b rest s s'}, w.disp d = .visit k p first b rest s → s' ≠ .enter →
      w'.disp = update w.disp d (.visit k p first b rest s') →
      (w.disp d).unoffered a n = true := by
    intro k p first b rest s s' hd hs' he
    rw [he, Function.update_self, DispPc.unoffered_visit] at h
    rw [hd, DispPc.unoffered_visit]
    simp only [hs', and_false, decide_false, Bool.or_false, Bool.and_eq_true, Bool.or_eq_true] at h ⊢
    exact ⟨h.1, .inl h.2⟩
  cases ht with
  | fetch hd₀ => exact absurd hd₀ hd
  | @lockNone _ _ k p hd₀ =>
    cases k <;> simp_all [DispPc.after, DispPc.unoffered]
  | lockSome hd₀ => simp_all [DispPc.unoffered]
  | skip hd₀ | stateOther hd₀ | awaitOther hd₀ | noTimer hd₀ | pushRemove hd₀ => exact next hd₀ rfl
  | enter hd₀ _ _ hcase =>
    exact stay hd₀ (by rcases hcase with ⟨-, rfl⟩ | ⟨-, rfl⟩ | ⟨-, rfl, -⟩ <;> simp) rfl
  | stateStop hd₀ _ _ hcase =>
    exact stay hd₀ (by rcases hcase with ⟨-, rfl⟩ | ⟨-, rfl⟩ <;> simp) rfl
  | awaitThis hd₀ _ _ hcase =>
    exact stay hd₀ (by rcases hcase with ⟨-, rfl⟩ | ⟨-, rfl⟩ | ⟨-, rfl⟩ <;> simp) rfl
  | enqueue hd₀ | writeData hd₀ | storeState hd₀ | loadTimer hd₀ => exact stay hd₀ (by simp) rfl
  | pushQueue hd₀ _ hpc =>
    rcases hpc with ⟨rfl, rfl⟩ | ⟨rfl, rfl⟩ | ⟨rfl, rfl⟩
    · simp_all [DispPc.unoffered]
    · exact next hd₀ rfl
    · exact stay hd₀ (by simp) rfl
  | sharedPush hd₀ => simp_all [DispPc.unoffered]

/-- The dispatcher is at the await when it has business there, and has it after a step only if it was
at the await before. -/
theorem Trans.writer_from (ht : Trans w (.dispatch d i) w')
    (h : (w.disp d).writer a ≠ .idle ∨ (w'.disp d).writer a ≠ .idle) :
    ∃ p first rest s, w.disp d = .visit .temp p first a rest s := by
  rcases h with h | h
  · obtain ⟨p, first, rest, s, hd, -⟩ := DispPc.visit_of_writer h
    exact ⟨p, first, rest, s, hd⟩
  · obtain ⟨p, first, rest, s, hd', hne⟩ := DispPc.visit_of_writer h
    rcases ht.visit_from hd' hne with hd | ⟨_, s₀, -, hd, -⟩
    · exact ⟨p, first, rest, s, hd⟩
    · exact ⟨p, first, rest, s₀, hd⟩

section Dispatcher

variable {l : SlotLog}

/-- What a delivery to the await is about. -/
theorem Tracked.delivery (hl : Tracked a n d w l) (hw : Wf w)
    (hnd : (w.disp d).range.Nodup) (ha : w.awaits a = some A) (ho : A.owner = c)
    (hty : A.type = .temp) (hn : A.waitMessageName = n)
    (hd : w.disp d = .visit k p first a rest s) :
    k = .temp ∧ p.msg.name = n ∧ a ∉ rest ∧ l.dispatched.getLast? = some p.msg ∧
      ∀ h, s.handle = some h → h = c := by
  obtain ⟨hk, hname⟩ := hw.visit_type hd ha
  have hpn : p.msg.name = n := hname.symm.trans hn
  refine ⟨hk.symm.trans hty, hpn, ?_, hl.carried p (by rw [hd]; rfl) hpn, fun h hh => ?_⟩
  · rw [hd] at hnd
    exact (List.nodup_cons.1 hnd).1
  · obtain ⟨B, hB, hBh⟩ := hw.visit_handle d k p first a rest s h hd hh
    obtain rfl := Option.some.inj (ha.symm.trans hB)
    exact (hw.handle_owner a A h ha hBh).trans ho

/-- A stopped coroutine is stopped at the await. -/
theorem Served.suspended (hs : Served a n c d w) (hw : Wf w)
    (hst : (w.promise c).state = .stopState) : w.ctl c = .suspended a := by
  obtain ⟨b, hc⟩ := hs.claim.stop_ctl hst
  obtain ⟨B, hb, -⟩ := hw.at_await c b (by rw [hc]; rfl)
  obtain ⟨rfl, -⟩ := hs.place b B (by rw [hc]; rfl) hb
  exact hc

/-- What the dispatcher does at the await, past the test of `handle_`, the slot's writer does. -/
theorem Served.slot_visit (hs : Served a n c d w) (hl : Tracked a n d w l) (hw : Wf w)
    (hkind : (w.disp d).ofKind = true) (hnd : (w.disp d).range.Nodup)
    (ht : Trans w (.dispatch d i) w') (ha : w.awaits a = some A) (ho : A.owner = c)
    (hty : A.type = .temp) (hn : A.waitMessageName = n) (ha' : w'.awaits a = some A')
    (hd : w.disp d = .visit .temp p first a rest s)
    (hbusy : (w.disp d).writer a ≠ .idle ∨ (w'.disp d).writer a ≠ .idle) :
    Slot.Step A.accepts (w.slot a n c d A l)
      (w'.slot a n c d A' (recordSlot a n w (.dispatch d i) l)) := by
  obtain ⟨-, hpn, hrest, hlast, hco⟩ := hl.delivery hw hnd ha ho hty hn hd
  have hwriter : (w.disp d).writer a = s.writer := by rw [hd, DispPc.writer_visit_self]
  have hdata : (∀ co, s ≠ .writeData co) → A'.data = A.data := by
    intro hno
    rcases ht.dispatch_data ha ha' with he | ⟨k, p, first, rest, co, hd₁, -⟩
    · exact he
    · cases hd.symm.trans hd₁
      exact absurd rfl (hno co)
  cases ht with
  | enter hd₁ hb hh hcase =>
    cases hd.symm.trans hd₁
    have hdat := hdata (by simp)
    rw [recordSlot_visit hd (.inl (by simp))]
    obtain rfl := Option.some.inj (ha.symm.trans hb)
    obtain ⟨rfl, hacc⟩ : _ ∧ (A.filter p.msg = true ∨ p.msg.isTimeoutMsg = true) := by
      simpa using hcase
    have hstep : Slot.Step A.accepts (w.slot a n c d A l) _ :=
      .offer hwriter (by simp [World.slot, hd, DispPc.unoffered, hpn]) hlast
        ⟨hpn.trans hn.symm, hacc⟩
    simpa [World.slot, hdat, DispPc.writer, DispPc.unoffered, VisitPc.writer, hrest] using hstep
  | enqueue hd₁ =>
    cases hd.symm.trans hd₁
    rw [hd] at hkind
    simp [DispPc.ofKind, VisitPc.ofKind] at hkind
  | @stateStop _ _ _ _ _ _ _ _ co _ hd₁ hb hst hcase =>
    cases hd.symm.trans hd₁
    have hdat := hdata (by simp)
    obtain rfl := hco co rfl
    obtain rfl : _ = VisitPc.loadAwait co := by simpa using hcase
    rw [recordSlot_check hd]
    have hstep : Slot.Step A.accepts (w.slot a n co d A l) _ :=
      .checkStop hwriter (by simp [World.slot, hs.suspended hw hst, Ctl.reader, hst])
    simpa [World.slot, hdat, hd, DispPc.writer, DispPc.unoffered, VisitPc.writer, hrest,
      Slot.check] using hstep
  | @stateOther _ _ _ _ _ _ _ _ co hd₁ hb hst =>
    cases hd.symm.trans hd₁
    have hdat := hdata (by simp)
    obtain rfl := hco co rfl
    rw [recordSlot_check hd]
    have hr : (w.ctl co).reader a (w.promise co).state ≠ .waiting := by
      cases w.ctl co <;> simp [Ctl.reader, hst] <;> split <;> simp
    have hstep : Slot.Step A.accepts (w.slot a n co d A l) _ := .checkOther hwriter hr
    simpa [World.slot, hdat, hd, DispPc.unoffered_visit, DispPc.unoffered_next, hrest,
      Slot.check] using hstep
  | awaitThis hd₁ hb hp hcase =>
    cases hd.symm.trans hd₁
    have hdat := hdata (by simp)
    rw [recordSlot_visit hd (.inl (by simp))]
    obtain rfl : _ = VisitPc.writeData _ := by simpa using hcase
    have hstep : Slot.Step A.accepts (w.slot a n c d A l) _ := .lookup hwriter
    simpa [World.slot, hdat, hd, DispPc.writer, DispPc.unoffered_visit, VisitPc.writer, hrest]
      using hstep
  | @awaitOther _ _ _ _ _ _ _ _ co hd₁ hb hp =>
    cases hd.symm.trans hd₁
    have hdat := hdata (by simp)
    rw [recordSlot_visit hd (.inl (by simp))]
    obtain rfl := hco co rfl
    have hstep : Slot.Step A.accepts (w.slot a n co d A l) _ :=
      .lookupOther hwriter (by simp [World.slot, hp])
    simpa [World.slot, hdat, hd, DispPc.unoffered_visit, DispPc.unoffered_next, hrest]
      using hstep
  | writeData hd₁ hb =>
    cases hd.symm.trans hd₁
    rw [recordSlot_visit hd (.inl (by simp))]
    simp only [Function.update_self, Option.some.injEq] at ha'
    have hstep : Slot.Step A.accepts (w.slot a n c d A l) _ := .put hwriter hlast
    simpa [World.slot, ← ha', hd, DispPc.writer, DispPc.unoffered_visit, VisitPc.writer, hrest]
      using hstep
  | @storeState _ _ _ _ _ _ _ _ co hd₁ hb =>
    cases hd.symm.trans hd₁
    have hdat := hdata (by simp)
    rw [recordSlot_visit hd (.inl (by simp))]
    obtain rfl := hco co rfl
    have hst := hs.checked (by simp [hd, VisitPc.checked])
    have hstep : Slot.Step A.accepts (w.slot a n co d A l) _ := .call hwriter
    simpa [World.slot, hdat, hd, DispPc.writer, DispPc.unoffered_visit, VisitPc.writer, hrest,
      hs.suspended hw hst, Ctl.reader] using hstep
  | fetch hd₁ | lockNone hd₁ | lockSome hd₁ | sharedPush hd₁ =>
    rw [hd] at hd₁
    cases hd₁
  -- the rest of `push_message`, after the call
  | skip hd₁ | noTimer hd₁ | loadTimer hd₁ | pushRemove hd₁ =>
    cases hd.symm.trans hd₁
    simp [hwriter, VisitPc.writer, DispPc.writer_visit_self] at hbusy
  | pushQueue hd₁ _ hpc =>
    cases hd.symm.trans hd₁
    obtain rfl : _ = DispPc.visit _ _ _ _ _ _ := by simpa using hpc
    simp [hwriter, VisitPc.writer, DispPc.writer_visit_self] at hbusy

/-- **A step of the dispatcher** is a step of the slot, or leaves it as it is. -/
theorem Served.slot_dispatch (hs : Served a n c d w) (hl : Tracked a n d w l) (hw : Wf w)
    (hkind : (w.disp d).ofKind = true) (hnd : (w.disp d).range.Nodup)
    (ht : Trans w (.dispatch d i) w') (ha : w.awaits a = some A) (ho : A.owner = c)
    (hty : A.type = .temp) (hn : A.waitMessageName = n) (ha' : w'.awaits a = some A') :
    w'.slot a n c d A' (recordSlot a n w (.dispatch d i) l) = w.slot a n c d A l ∨
      Slot.Step A.accepts (w.slot a n c d A l)
        (w'.slot a n c d A' (recordSlot a n w (.dispatch d i) l)) := by
  by_cases hbusy : (w.disp d).writer a ≠ .idle ∨ (w'.disp d).writer a ≠ .idle
  · obtain ⟨p, first, rest, s, hd⟩ := ht.writer_from hbusy
    exact .inr (hs.slot_visit hl hw hkind hnd ht ha ho hty hn ha' hd hbusy)
  obtain ⟨hidle, hidle'⟩ : (w.disp d).writer a = .idle ∧ (w'.disp d).writer a = .idle := by
    simpa using hbusy
  have away : ∀ {k p first rest s}, w.disp d = .visit k p first a rest s → s.writer = .idle := by
    intro k p first rest s hd
    obtain ⟨rfl, -⟩ := hl.delivery hw hnd ha ho hty hn hd
    rwa [hd, DispPc.writer_visit_self] at hidle
  have hdata : A'.data = A.data := by
    rcases ht.dispatch_data ha ha' with he | ⟨k, p, first, rest, co, hd, -⟩
    · exact he
    · cases away hd
  -- a coroutine is marked only at an await of its own
  have hprom : w'.promise c = w.promise c := by
    rcases ht.dispatch_promise c with he | ⟨k, p, first, b, rest, hd⟩
    · exact he
    · obtain ⟨-, -, rfl, -⟩ := hs.visit hw hd rfl
      cases away hd
  have hr : (w'.ctl c).reader a (w'.promise c).state = (w.ctl c).reader a (w.promise c).state := by
    rw [ht.dispatch_ctl, hprom]
  by_cases hfetch : w.disp d = .fetch
  · cases ht with
    | @fetch _ _ p hd hstop hi =>
      by_cases hp : p.msg.name = n
      · right
        have hrec : recordSlot a n w (.dispatch d i) l =
            { l with dispatched := l.dispatched ++ [p.msg] } := by
          simp [recordSlot, hd, hi, hp]
        rw [hrec]
        have hstep : Slot.Step A.accepts (w.slot a n c d A l) _ := .arrive p.msg hidle
        simpa [World.slot, hdata, DispPc.writer, DispPc.unoffered, hp, hd] using hstep
      · left
        have hrec : recordSlot a n w (.dispatch d i) l = l := by simp [recordSlot, hd, hi, hp]
        rw [hrec]
        simp [World.slot, hdata, DispPc.writer, DispPc.unoffered, hp, hd]
    | _ => simp_all
  · have hrec : recordSlot a n w (.dispatch d i) l = l := by
      cases hd : w.disp d with
      | fetch => exact absurd hd hfetch
      | lock k p | sharedPush p first => simp [recordSlot, hd]
      | visit k p first b rest s =>
        apply recordSlot_visit hd
        by_cases hb : b = a
        · subst hb
          refine .inl fun h he => ?_
          have hs' := away hd
          rw [he] at hs'
          cases hs'
        · exact .inr (.inr hb)
    rw [hrec]
    exact World.slot_idle hr (by rw [hprom]) hdata hidle hidle' (ht.unoffered_from hfetch)

theorem World.slot_congr (hr : (w'.ctl c).reader a (w'.promise c).state =
      (w.ctl c).reader a (w.promise c).state)
    (hp : (w'.promise c).await = (w.promise c).await) (hdata : A'.data = A.data)
    (hd : w'.disp d = w.disp d) : w'.slot a n c d A' l = w.slot a n c d A l := by
  simp only [World.slot, hr, hp, hdata, hd]

/-- The other dispatcher has nothing to do with the await. -/
theorem Served.slot_other_dispatch (hs : Served a n c d w) (hw : Wf w) {d₁ : Dispatcher}
    (hne : d₁ ≠ d) (ht : Trans w (.dispatch d₁ i) w')
    (hok : awaitsOnly a n c d w (.dispatch d₁ i) = true) (ha : w.awaits a = some A)
    (hn : A.waitMessageName = n) (ha' : w'.awaits a = some A') :
    w'.slot a n c d A' (recordSlot a n w (.dispatch d₁ i) l) = w.slot a n c d A l := by
  have away : ∀ {k p first rest s}, w.disp d₁ ≠ .visit k p first a rest s := by
    intro k p first rest s hd
    exact hne (hs.carrier d₁ p (by rw [hd]; rfl) ((hw.visit_type hd ha).2.symm.trans hn))
  have hdata : A'.data = A.data := by
    rcases ht.dispatch_data ha ha' with he | ⟨k, p, first, rest, co, hd, -⟩
    · exact he
    · exact absurd hd away
  have hprom : w'.promise c = w.promise c := by
    rcases ht.dispatch_promise c with he | ⟨k, p, first, b, rest, hd⟩
    · exact he
    · exact absurd (hs.visit hw hd rfl).1 hne
  have hdisp : w'.disp d = w.disp d := by
    rcases ht.disp_eq d with he | ⟨i, he⟩
    · exact he
    · cases he
      exact absurd rfl hne
  have hrec : recordSlot a n w (.dispatch d₁ i) l = l := by
    simp only [recordSlot]
    split
    · rename_i hd
      split
      · rename_i p hp
        refine if_neg fun hpn => hne ?_
        simp only [awaitsOnly, hd, hp, Option.all_some, decide_eq_true_eq] at hok
        exact hok hpn
      · rfl
    · rename_i hd
      apply if_neg
      rintro rfl
      exact away hd
    · rfl
  rw [hrec]
  exact World.slot_congr (by rw [ht.dispatch_ctl, hprom]) (by rw [hprom]) hdata hdisp

/-- A coroutine changes `data_` of a `TempMessageAwait` only when it returns. -/
theorem Trans.data_kept (ht : Trans w act w') (hact : ∀ d i, act ≠ .dispatch d i)
    (hnorm : ∀ c a s A, w.ctl c = .resuming a s → s.ofNormal = true → w.awaits a = some A →
      A.type = .normal) (ha : w.awaits a = some A) (hty : A.type = .temp)
    (ha' : w'.awaits a = some A') (hret : ∀ c, w.ctl c = .resuming a .ret → ∀ junk, act ≠ .run c junk) :
    A'.data = A.data := by
  cases ht.edit ha ha' with
  | ready _ _ _ hty' | readyShared _ _ _ hty' =>
    rw [hty] at hty'
    cases hty'
  | dequeue hc =>
    have := hnorm _ a _ A hc rfl ha
    rw [hty] at this
    cases this
  | ret hact' hc => exact absurd hact' (hret _ hc _)
  | writeData hact' => exact absurd hact' (hact _ _)
  | _ => rfl

/-- **A step of anybody else** is a step of the slot, or leaves it as it is. -/
theorem Served.slot_other (hs : Served a n c d w) (hl : Tracked a n d w l) (hw : Wf w)
    (hnorm : ∀ c a s A, w.ctl c = .resuming a s → s.ofNormal = true → w.awaits a = some A →
      A.type = .normal) (ht : Trans w act w') (hact : ∀ d i, act ≠ .dispatch d i)
    (hok : awaitsOnly a n c d w act = true) (ha : w.awaits a = some A) (ho : A.owner = c)
    (hty : A.type = .temp) (ha' : w'.awaits a = some A') :
    w'.slot a n c d A' (recordSlot a n w act l) = w.slot a n c d A l ∨
      Slot.Step A.accepts (w.slot a n c d A l) (w'.slot a n c d A' (recordSlot a n w act l)) := by
  have hdata : (∀ c j, act ≠ .run c j) → A'.data = A.data := fun h =>
    ht.data_kept hact hnorm ha hty ha' fun c _ => h c
  have quiet : ∀ {c₁ junk x}, act = .run c₁ junk → w.ctl c₁ = x → x ≠ .resuming a .ret →
      A'.data = A.data := by
    rintro c₁ junk x rfl hx hne
    refine ht.data_kept hact hnorm ha hty ha' fun c₂ hc₂ j he => ?_
    cases he
    exact hne (hx.symm.trans hc₂)
  have hdisp : w'.disp d = w.disp d := by
    rcases ht.disp_eq d with he | ⟨i, he⟩
    · exact he
    · exact absurd he (hact d i)
  -- whoever else is at an await is not at this one
  have elsewhere : ∀ {c₁ b}, (w.ctl c₁).at = some b → c ≠ c₁ → b ≠ a := by
    rintro c₁ b hat hne rfl
    exact hne (ho.symm.trans (hw.owner_of_at hat ha))
  have created : ∀ {b : Addr}, w.awaits b = none → b ≠ a := by
    rintro b hb rfl
    rw [ha] at hb
    cases hb
  have moves : ∀ {c₁ : CoId} {x y : Ctl}, w.ctl c₁ = x → w'.ctl = update w.ctl c₁ y →
      w'.promise = w.promise → (∀ st, x.reader a st = y.reader a st) → A'.data = A.data →
      recordSlot a n w act l = l →
      w'.slot a n c d A' (recordSlot a n w act l) = w.slot a n c d A l := by
    intro c₁ x y hx hy hp hxy hdat hrec
    rw [hrec]
    refine World.slot_congr ?_ (by rw [hp]) hdat hdisp
    rw [hp, hy, Function.update_apply]
    split
    · rename_i hcc
      rw [hcc, hx, hxy]
    · rfl
  cases ht with
  | push | pushHigh | stop | resumeFault | expire | ioBegin | ioKeepAlive | ioTick | ioTimeout
  | ioRearm => exact .inl (World.slot_congr rfl rfl (hdata (by simp)) rfl)
  | createClone _ _ hb | createQueue _ _ hb | createMessage _ _ hb | createTemp _ _ hb =>
    left
    simp only [recordSlot, created hb, if_false]
    exact World.slot_congr rfl rfl (hdata (by simp)) rfl
  | registerTime hc hb =>
    exact .inl (moves hc rfl rfl (fun _ => rfl) (hdata (by simp)) (if_neg (created hb)))
  | start hc | createTime hc | setTimeout hc | finish hc | notReady hc =>
    exact .inl (moves hc rfl rfl (fun _ => rfl) (hdata (by simp)) rfl)
  | destroy hc =>
    refine .inl (moves hc rfl rfl (fun _ => ?_) (hdata (by simp)) rfl)
    split <;> rfl
  | arm hc | destroyPush hc | suspendFlag hc | suspendHandle hc | loadSuspend hc | dequeue hc
  | clearSuspend hc | cancel hc | cancelMiss hc =>
    exact .inl (moves hc rfl rfl (fun _ => rfl) (quiet rfl hc (by simp)) (by simp [recordSlot, hc]))
  | spin hc | nullFault hc =>
    left
    have hdat := quiet rfl hc (by simp)
    simp only [recordSlot, hc]
    exact World.slot_congr rfl rfl hdat rfl
  | @readyNormal c₁ b B m q hc _ hb _ htyb | @readyShared c₁ b B m q hc _ hb _ htyb =>
    left
    have hcc : c ≠ c₁ := by
      rintro rfl
      simp [awaitsOnly, hb, htyb] at hok
    exact World.slot_congr (by simp [Function.update_of_ne hcc]) rfl (hdata (by simp)) rfl
  | @suspendState c₁ b B junk hc hb =>
    have hdat := quiet rfl hc (by simp)
    by_cases hcc : c = c₁
    · right
      subst hcc
      obtain ⟨rfl, -⟩ := hs.place b B (by rw [hc]; rfl) hb
      have hstep : Slot.Step A.accepts (w.slot b n c d A l) _ :=
        .stop (by simp [World.slot, hc, Ctl.reader])
      simpa [World.slot, recordSlot, hc, hdat, Ctl.reader] using hstep
    · left
      have hba := elsewhere (by rw [hc]; rfl) hcc
      simp [World.slot, recordSlot, hc, hba, hdat, Function.update_of_ne hcc]
  | @lateStore i c₁ b hi =>
    have hdat := hdata (by simp)
    by_cases hk : ∃ k, l.late[i]? = some (some k)
    · right
      obtain ⟨k, hk⟩ := hk
      obtain ⟨rfl, rfl⟩ : c₁ = c ∧ b = a := by
        have := hl.late i k hk A ha
        rw [hi, ho, Option.some.injEq, Prod.mk.injEq] at this
        exact this
      have hstep : Slot.Step A.accepts (w.slot b n c₁ d A l) _ := .settle k
      simpa [World.slot, recordSlot, hk, hdat] using hstep
    · have hrec : recordSlot a n w (.late i) l = { l with late := l.late.eraseIdx i } := by
        simp only [recordSlot]
        split
        · rename_i k hk'
          exact absurd ⟨k, hk'⟩ hk
        · rfl
      rw [hrec]
      by_cases hcc : c = c₁
      · right
        subst hcc
        obtain rfl := hs.late b (List.mem_of_getElem? hi)
        have hstep : Slot.Step A.accepts (w.slot b n c d A l) _ := .publish
        simpa [World.slot, hdat] using hstep
      · left
        simp [World.slot, hdat, Function.update_of_ne hcc]
  | @resume i e b B hi htop hc hb =>
    have hdat := hdata (by simp)
    by_cases hcc : c = e.handle
    · right
      subst hcc
      obtain ⟨rfl, -⟩ := hs.place b B (by rw [hc]; rfl) hb
      have hst : (w.promise e.handle).state ≠ .stopState := fun hst =>
        hs.claim.stop_queue hst (List.mem_map.2 ⟨e, List.mem_of_getElem? hi, rfl⟩)
      have hstep : Slot.Step A.accepts (w.slot b n e.handle d A l) _ :=
        .wake (by simp [World.slot, hc, Ctl.reader, hst])
      simpa [World.slot, recordSlot, hdat, Ctl.reader] using hstep
    · left
      exact World.slot_congr (by simp [Function.update_of_ne hcc]) rfl hdat rfl
  | @storeRuning c₁ b B co junk hc hb hh =>
    left
    have hdat := quiet rfl hc (by simp)
    obtain rfl := hw.storeRuning_owner hc hb hh
    simp only [recordSlot, hc]
    by_cases hcc : c = co
    · subst hcc
      exact World.slot_congr (by simp [hc, Ctl.reader]) (by simp) hdat rfl
    · exact World.slot_congr (by simp [Function.update_of_ne hcc])
        (by simp [Function.update_of_ne hcc]) hdat rfl
  | @ret c₁ b B junk hc hb =>
    by_cases hcc : c = c₁
    · right
      subst hcc
      obtain ⟨rfl, -⟩ := hs.place b B (by rw [hc]; rfl) hb
      obtain rfl := Option.some.inj (ha.symm.trans hb)
      simp only [Function.update_self, Option.some.injEq] at ha'
      have hstep : Slot.Step A.accepts (w.slot b n c d A l) _ :=
        .give A.data.movedFrom (by simp [World.slot, hc, Ctl.reader])
      have hr : ∀ st, (if c = remover then Ctl.removing A.data else Ctl.body).reader b st =
          .away := by
        intro st
        split <;> rfl
      simpa [World.slot, recordSlot, hc, hb, ← ha', hr] using hstep
    · left
      have hba := elsewhere (by rw [hc]; rfl) hcc
      have hdat := quiet rfl hc (by simp [hba])
      simp only [recordSlot, hc, hb, if_neg hba]
      exact World.slot_congr (by simp [Function.update_of_ne hcc]) rfl hdat rfl
  | fetch | lockNone | lockSome | skip | enter | enqueue | stateStop | stateOther | awaitThis
  | awaitOther | writeData | storeState | pushQueue | noTimer | loadTimer | pushRemove
  | sharedPush => exact absurd rfl (hact _ _)

theorem Ctl.reader_of_at {x : Ctl} {st : CoState} (h : x.at ≠ some a) : x.reader a st = .away := by
  cases x with
  | suspended b | resuming b s =>
    have hb : b ≠ a := by simpa [Ctl.at] using h
    simp [Ctl.reader, hb]
  | _ => rfl

/-- A new await is a new slot. -/
theorem Wf.slot_created (hw : Wf w) (ht : Trans w act w') (ha : w.awaits a = none)
    (ha' : w'.awaits a = some A') :
    (w'.slot a n c d A' (recordSlot a n w act l)).Ok A'.accepts := by
  have dead : ∀ {A : Await}, w.awaits a ≠ some A := by simp [ha]
  rw [(ht.created ha ha').recordSlot l]
  refine Slot.ok_of_fresh (Ctl.reader_of_at ?_) ?_ rfl rfl rfl rfl
  · intro hat
    rcases ht.ctl_at hat with hat₀ | ⟨A, hA, -⟩
    · obtain ⟨A, hA, -⟩ := hw.at_await c a hat₀
      exact dead hA
    · exact dead hA
  · by_contra hidle
    obtain ⟨p, first, rest, s, hd, hne⟩ := DispPc.visit_of_writer hidle
    rcases ht.visit_from hd hne with hd₀ | ⟨i, s₀, -, hd₀, -⟩
    · obtain ⟨A, hA⟩ := hw.visited hd₀
      exact dead hA
    · obtain ⟨A, hA⟩ := hw.visited hd₀
      exact dead hA

end Dispatcher

/-! ### Every wait -/

/-- What the waits on the await have ended with so far, each with its number: what `co_await`
returned, and what the coroutine has been woken for. -/
def World.woken (w : World) (a : Addr) (A : Await) (l : SlotLog) : List (ℕ × InternalMessage) :=
  match (w.ctl A.owner).reader a (w.promise A.owner).state with
  | .away | .waiting => l.returned
  | .called | .back => l.returned ++ [(l.suspensions, A.data)]

/-- The waits end one after the other, each with the first message that qualifies: one that was
dispatched, at a later place than those before; that was checked after the `StopState` of the wait
was stored; and before which no message was checked after both stores of the wait (`push_message`
checks only messages that qualify). -/
structure TakesFirst (w : World) (a : Addr) (A : Await) (l : SlotLog) : Prop where
  numbered : (w.woken a A l).map Prod.fst = List.range' 1 (w.woken a A l).length
  first : ∃ idx : List ℕ, idx.Pairwise (· < ·) ∧
    List.Forall₂ (fun i r => l.dispatched[i]? = some r.2 ∧
      (r.2.name = A.waitMessageName ∧ (A.filter r.2 = true ∨ r.2.isTimeoutMsg = true)) ∧
      (∃ k ∈ l.checks, k.index = i ∧ k.suspensions = r.1) ∧
      ∀ k ∈ l.checks, k.index < i → r.1 ≤ k.suspensions → r.1 ∉ k.settled) idx (w.woken a A l)

/-- A coroutine that has been resumed at the await returns from it with what is in `data_`. -/
def Returns (w : World) (a : Addr) (A : Await) : Prop :=
  (w.fault ≠ some (.resumed A.owner) ∧ w.fault ≠ some (.nullHandle a)) ∧
    ∀ s, w.ctl A.owner = .resuming a s → w.fault = none → ∃ acts w',
      Run.exec step w acts = some w' ∧
        w'.trace = .returned A.type A.waitMessageName a A.data :: w.trace

/-- The program together with the history of the await at `a`. -/
abbrev SlotReach (a : Addr) (n : String) (c : CoId) (d : Dispatcher) : World × SlotLog → Prop :=
  Run.Reach (Run.logged step (recordSlot a n)) (fun x act => awaitsOnly a n c d x.1 act = true)
    (World.init, {})

theorem SlotReach.reachable {x : World × SlotLog} (h : SlotReach a n c d x) :
    Reachable Run.Any x.1 := h.fst fun _ _ _ => trivial

theorem served_of_slotReach {x : World × SlotLog} (h : SlotReach a n c d x) (hne : c ≠ remover) :
    Served a n c d x.1 ∧ Tracked a n d x.1 x.2 := by
  refine h.invariant (I := fun x => Served a n c d x.1 ∧ Tracked a n d x.1 x.2)
    ⟨Served.init hne, Tracked.init⟩ ?_
  rintro x act y hr ⟨hs, hl⟩ hok hstep
  obtain ⟨hstep, hy⟩ := Run.logged_eq_some.1 hstep
  have hw := wf_of_reachable (SlotReach.reachable hr)
  rw [hy]
  exact ⟨hs.step hw (trans_of_step hstep) hok, hl.step hw (trans_of_step hstep) hok⟩

/-- **The slot keeps its invariant** along the run, as long as the await lives. -/
theorem slot_ok {x : World × SlotLog} (h : SlotReach a n c d x) (hne : c ≠ remover) :
    ∀ A, x.1.awaits a = some A → A.owner = c → A.type = .temp → A.waitMessageName = n →
      (x.1.slot a n c d A x.2).Ok A.accepts := by
  refine h.invariant (I := fun x => ∀ A, x.1.awaits a = some A → A.owner = c → A.type = .temp →
    A.waitMessageName = n → (x.1.slot a n c d A x.2).Ok A.accepts) ?_ ?_
  · intro A ha ho
    obtain ⟨-, rfl⟩ := World.init_awaits ha
    exact absurd ho.symm hne
  intro x act y hr ih hok hstep A' ha' ho' hty' hn'
  obtain ⟨hstep, hy⟩ := Run.logged_eq_some.1 hstep
  have ht := trans_of_step hstep
  have hreach := SlotReach.reachable hr
  have hw := wf_of_reachable hreach
  obtain ⟨hs, hl⟩ := served_of_slotReach hr hne
  rw [hy]
  rcases (hw.awaitStep ht).backward ha' with ⟨A, ha, hk⟩ | ⟨ha, -⟩
  · have ho : A.owner = c := hk.owner ▸ ho'
    have hty : A.type = .temp := hk.type ▸ hty'
    have hn : A.waitMessageName = n := hk.name ▸ hn'
    have hacc : A'.accepts = A.accepts := by
      funext m
      rw [Await.accepts, Await.accepts, hk.name, hk.filter]
    rw [hacc]
    have hstep : y.1.slot a n c d A' (recordSlot a n x.1 act x.2) = x.1.slot a n c d A x.2 ∨
        Slot.Step A.accepts (x.1.slot a n c d A x.2)
          (y.1.slot a n c d A' (recordSlot a n x.1 act x.2)) := by
      by_cases hact : ∃ d₁ i, act = .dispatch d₁ i
      · obtain ⟨d₁, i, rfl⟩ := hact
        by_cases hdd : d₁ = d
        · subst hdd
          exact hs.slot_dispatch hl hw (ofKind_of_reachable hreach d₁)
            (range_nodup_of_reachable hreach d₁) ht ha ho hty hn ha'
        · exact .inl (hs.slot_other_dispatch hw hdd ht hok ha hn ha')
      · exact hs.slot_other hl hw (normal_of_resuming hreach) ht
          (fun d₁ i he => hact ⟨d₁, i, he⟩) hok ha ho hty ha'
    rcases hstep with he | hst
    · rw [he]
      exact ih A ha ho hty hn
    · exact (ih A ha ho hty hn).step hst
  · exact hw.slot_created ht ha ha'

/-- The await and its coroutine break off no run. -/
theorem unfaulted_of_slotReach {x : World × SlotLog} (h : SlotReach a n c d x) (hne : c ≠ remover) :
    x.1.fault ≠ some (.resumed c) ∧
      ∀ A, x.1.awaits a = some A → A.owner = c → x.1.fault ≠ some (.nullHandle a) := by
  cases h with
  | refl => exact ⟨by simp [World.init], fun _ _ _ => by simp [World.init]⟩
  | tail hr hok hstep =>
    obtain ⟨hstep, -⟩ := Run.logged_eq_some.1 hstep
    have ht := trans_of_step hstep
    have hw := wf_of_reachable (SlotReach.reachable hr)
    have hnone := fault_of_step hstep
    obtain ⟨hs, -⟩ := served_of_slotReach hr hne
    generalize x.1 = w' at ht
    cases ht with
    | @resumeFault i e hi _ hc =>
      refine ⟨fun he => ?_, fun A _ _ => by simp⟩
      obtain rfl : e.handle = c := by simpa using he
      obtain ⟨b, hb⟩ := hs.claim.queue_ctl (List.mem_map.2 ⟨e, List.mem_of_getElem? hi, rfl⟩)
      exact hc b hb
    | @nullFault c₁ b B junk hc hb hno =>
      refine ⟨by simp, fun A ha ho he => ?_⟩
      obtain rfl : b = a := by simpa using he
      obtain rfl := Option.some.inj (ha.symm.trans hb)
      obtain rfl : c = c₁ := ho.symm.trans (hw.owner_of_at (by rw [hc]; rfl) ha)
      rw [hs.past A (by rw [hc]; rfl) ha] at hno
      cases hno
    | _ => exact ⟨by simp [hnone], fun _ _ _ => by simp [hnone]⟩

/-- The last statement of `await_resume`. -/
theorem exec_ret (hf : w.fault = none) (hc : w.ctl c = .resuming a .ret)
    (ha : w.awaits a = some A) : ∃ w', Run.exec step w [.run c 0] = some w' ∧
      w'.trace = .returned A.type A.waitMessageName a A.data :: w.trace := by
  refine ⟨_, by simp [Run.exec, step, hf, World.runStep, hc, ha]; rfl, rfl⟩

theorem returns_of_served (hs : Served a n c d w)
    (hnorm : ∀ c a s A, w.ctl c = .resuming a s → s.ofNormal = true → w.awaits a = some A →
      A.type = .normal) (ha : w.awaits a = some A) (hty : A.type = .temp)
    {s : ResumePc} (hc : w.ctl c = .resuming a s) (hf : w.fault = none) :
    ∃ acts w', Run.exec step w acts = some w' ∧
      w'.trace = .returned A.type A.waitMessageName a A.data :: w.trace := by
  cases s with
  | ret =>
    obtain ⟨w', hw', htr⟩ := exec_ret hf hc ha
    exact ⟨_, w', hw', htr⟩
  | state =>
    have hh := hs.past A (by rw [hc]; rfl) ha
    have hstep : step w (.run c 0) = some { w with
        promise := update w.promise c { w.promise c with state := .runingState }
        ctl := update w.ctl c (.resuming a .ret) } := by
      simp [step, hf, World.runStep, hc, ha, World.awaitResume, hh]
    obtain ⟨w', hw', htr⟩ := exec_ret (w := { w with
        promise := update w.promise c { w.promise c with state := .runingState }
        ctl := update w.ctl c (.resuming a .ret) }) hf (Function.update_self ..) ha
    exact ⟨[.run c 0, .run c 0], w', by rw [Run.exec_cons, hstep]; exact hw', htr⟩
  | _ =>
    have := hnorm c a _ A hc rfl ha
    rw [hty] at this
    cases this

/-- **A `TempMessageAwait` returns the first qualifying message**, wait after wait, at every state of
every run in which its name is served by one dispatcher and its coroutine awaits nothing else. -/
theorem takesFirst_of_awaitsOnly {x : World × SlotLog} (h : SlotReach a n c d x)
    (ha : x.1.awaits a = some A) (hty : A.type = .temp) (hn : A.waitMessageName = n)
    (ho : A.owner = c) : TakesFirst x.1 a A x.2 ∧ Returns x.1 a A := by
  have hreach := SlotReach.reachable h
  have hne : c ≠ remover := by
    rintro rfl
    have hr := removerOk_of_reachable hreach
    obtain rfl := hr.mine a A ha ho
    obtain ⟨B, hB, htyB, -⟩ := hr.object
    obtain rfl := Option.some.inj (ha.symm.trans hB)
    rw [hty] at htyB
    cases htyB
  have hok := slot_ok h hne A ha ho hty hn
  obtain ⟨hs, -⟩ := served_of_slotReach h hne
  obtain ⟨hres, hnull⟩ := unfaulted_of_slotReach h hne
  have hwoken : x.1.woken a A x.2 = (x.1.slot a n c d A x.2).woken := by
    rw [World.woken, ho]
    rfl
  refine ⟨⟨?_, ?_⟩, ⟨ho.symm ▸ hres, hnull A ha ho⟩, fun s hc hf => ?_⟩
  · rw [hwoken]
    exact hok.numbered.1
  · obtain ⟨idx, hlt, hfirst, -⟩ := hok.first
    rw [hwoken]
    exact ⟨idx, hlt, hfirst⟩
  · exact returns_of_served hs (normal_of_resuming hreach) ha hty (ho ▸ hc) hf

/-- A coroutine waits twice; of three messages the filter lets two through. -/
def twoWaits : List Action :=
  [Action.start 1, .body 1 (.createTemp 6 0 "n" 10 (fun m => decide (m.data ≠ "x")) 0)] ++
    [Action.body 1 (.coAwait 6), .run 1 0, .run 1 0, .late 0, .push { name := "n", data := "x" },
      .push { name := "n", data := "y" }] ++
    List.replicate 5 (Action.dispatch .normal 0) ++ List.replicate 11 (Action.dispatch .normal 0) ++
    [Action.worker 0, .run 1 0, .run 1 0] ++
    [Action.body 1 (.coAwait 6), .run 1 0, .run 1 0, .push { name := "n", data := "z" }] ++
    List.replicate 11 (Action.dispatch .normal 0) ++ [Action.worker 0, .run 1 0]

theorem takesFirst_twoWaits : ∃ (x : World × SlotLog) (A : Await), SlotReach 6 "n" 1 .normal x ∧
    x.1.awaits 6 = some A ∧ x.1.ctl 1 = .resuming 6 .ret ∧
      x.1.woken 6 A x.2 = [(1, { name := "n", data := "y" }), (2, { name := "n", data := "z" })] ∧
      TakesFirst x.1 6 A x.2 ∧ Returns x.1 6 A := by
  have hrun : (Run.exec (Run.guarded (Run.logged step (recordSlot 6 "n"))
      fun x act => awaitsOnly 6 "n" 1 .normal x.1 act = true) (World.init, {}) twoWaits).any
      (fun x => decide (x.1.ctl 1 = .resuming 6 .ret ∧
        ((x.1.awaits 6).any fun A => decide (A.type = .temp ∧ A.waitMessageName = "n" ∧ A.owner = 1 ∧
          x.1.woken 6 A x.2 =
            [(1, { name := "n", data := "y" }), (2, { name := "n", data := "z" })])) = true)) =
      true := by
    decide +kernel
  obtain ⟨x, hr, hc, hA⟩ := Run.exists_reach_of_exec_guarded hrun
  obtain ⟨A, ha, hA⟩ := (Option.any_eq_true ..).1 hA
  obtain ⟨hty, hn, ho, hwoken⟩ := of_decide_eq_true hA
  exact ⟨x, A, hr, ha, hc, hwoken, takesFirst_of_awaitsOnly hr ha hty hn ho⟩

end DataProxy
