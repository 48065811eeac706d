import DataProxy.Delivery

/-!
# Competing consumers

The runs in which the messages of a name `n` are shared among competing consumers: nothing of that
name is pushed with high priority, some coroutines (`consumer`) await only `SharedMessageAwait`s of
`n` and own at most one of them at a time, no other coroutine awaits one, and the last one is never
destroyed.

`Consumers n consumer w` is what this gives for the consumers: each of them is served by the normal
dispatcher alone, and a delivery of `n` that has written `data_` is still the last to have done so
when it schedules the coroutine.
-/

namespace DataProxy

open Function (update)

variable {w w' : World} {act : Action} {n : String} {consumer : CoId → Bool} {a b : Addr}
  {A A' B : Await} {c : CoId}

/-- The await is a `SharedMessageAwait` of name `n`. -/
def Await.isShared (n : String) (A : Await) : Bool :=
  decide (A.type = .shared ∧ A.waitMessageName = n)

/-- The `SharedMessageAwait`s of name `n`, in the order of the multimap. -/
def World.members (w : World) (n : String) : List Addr :=
  Multimap.equalRange (w.registry .shared) n

/-- A consumer of the run; `co_handle_remove_timer` is none. -/
def isConsumer (consumer : CoId → Bool) (c : CoId) : Bool := consumer c && decide (c ≠ remover)

/-- The await a coroutine is waiting on or returning from. -/
def Ctl.awaiting : Ctl → Option Addr
  | .suspending a _ | .suspended a | .resuming a _ => some a
  | .fresh | .body | .creatingTime _ _ | .arming _ _ | .destroying _ | .removing _ | .done => none

/-- The condition on one step. -/
def competing (n : String) (consumer : CoId → Bool) (w : World) : Action → Bool
  | .pushHigh m => decide (m.name ≠ n)
  | .ioStep =>
    match w.io with
    | .call id =>
      match (w.timerAt id).map Timer.func with
      | some (.tick msgName _) => decide (msgName ≠ n)
      | _ => true
    | _ => true
  | .body c (.coAwait a) =>
    (w.awaits a).all fun A => decide (isConsumer consumer c = A.isShared n)
  | .body c (.createShared _ _ name _ _) =>
    !decide (name = n) || !isConsumer consumer c ||
      (w.members n).all fun b => (w.awaits b).all fun B => decide (B.owner ≠ c)
  | .body _ (.destroy a) => (w.awaits a).all fun A => !A.isShared n || decide (w.members n ≠ [a])
  | _ => true

/-! ### Where things come from -/

/-- A dispatcher gets a packet by its fetch. -/
theorem Trans.packet_from (ht : Trans w act w') {d : Dispatcher} {p : Packet}
    (h : (w'.disp d).packet = some p) :
    (w.disp d).packet = some p ∨
      ∃ i, act = .dispatch d i ∧ w.disp d = .fetch ∧ (w.busQueue d)[i]? = some p := by
  have after : ∀ {p' : Packet} {k : AwaitType}, (DispPc.after p' k).packet = some p → p' = p := by
    intro p' k hp
    cases k with
    | shared | normal => exact Option.some.inj hp
    | temp => cases hp
  have next : ∀ {k : AwaitType} {p' : Packet} {first : Addr} {rest : List Addr},
      (DispPc.next k p' first rest).packet = some p → p' = p := by
    intro k p' first rest hp
    rcases DispPc.next_cases k p' first rest with ⟨b, r, -, he⟩ | ⟨-, he⟩ | ⟨-, he⟩
    · rw [he] at hp
      exact Option.some.inj hp
    · rw [he] at hp
      exact Option.some.inj hp
    · rw [he] at hp
      exact after hp
  rcases ht.disp_eq d with he | ⟨i, rfl⟩
  · exact .inl (he ▸ h)
  cases ht with
  | fetch hd _ hi =>
    simp only [Function.update_self, DispPc.packet, Option.some.injEq] at h
    subst h
    exact .inr ⟨i, rfl, hd, hi⟩
  | lockNone hd =>
    simp only [Function.update_self] at h
    obtain rfl := after h
    exact .inl (by rw [hd]; rfl)
  | lockSome hd | sharedPush hd | enter hd | enqueue hd | stateStop hd | awaitThis hd
  | writeData hd | storeState hd | loadTimer hd =>
    simp only [Function.update_self, DispPc.packet, Option.some.injEq] at h
    subst h
    exact .inl (by rw [hd]; rfl)
  | skip hd | stateOther hd | awaitOther hd | noTimer hd | pushRemove hd =>
    simp only [Function.update_self] at h
    obtain rfl := next h
    exact .inl (by rw [hd]; rfl)
  | pushQueue hd _ hpc =>
    simp only [Function.update_self] at h
    rw [hd]
    rcases hpc with ⟨-, rfl⟩ | ⟨-, rfl⟩ | ⟨-, rfl⟩
    · exact .inl h
    · exact .inl (congrArg some (next h))
    · exact .inl h

/-- A packet held by a dispatcher was in its queue. -/
theorem Trans.packet (ht : Trans w act w') {d : Dispatcher} {p : Packet}
    (h : (w'.disp d).packet = some p) : (w.disp d).packet = some p ∨ p ∈ w.busQueue d := by
  rcases ht.packet_from h with hp | ⟨i, -, -, hi⟩
  · exact .inl hp
  · exact .inr (List.mem_of_getElem? hi)

theorem Ctl.awaiting_at {x : Ctl} (h : x.awaiting = some a) : x.at = some a := by
  cases x <;> first | exact h | cases h

/-- A coroutine comes to wait by evaluating `co_await`. -/
theorem Trans.awaiting (ht : Trans w act w') (h : (w'.ctl c).awaiting = some a) :
    (w.ctl c).awaiting = some a ∨ act = .body c (.coAwait a) := by
  rcases ht.ctl_from c with he | hm
  · exact .inl (he ▸ h)
  generalize w.ctl c = x, w'.ctl c = y at hm h
  cases hm with
  | ready hact | readyShared hact | notReady hact =>
    obtain rfl := Option.some.inj h
    exact .inr hact
  | suspendFlag | suspendHandle | suspendState | resume | loadSuspend | dequeue | clearSuspend
  | storeRuning => exact .inl h
  | _ => cases h

/-- `handle_` is set by the `await_suspend` of the coroutine. -/
theorem Wf.handle_set (hw : Wf w) (ht : Trans w act w') (ha' : w'.awaits a = some A')
    (hh : A'.handle = some c) :
    (∃ A, w.awaits a = some A ∧ A.handle = some c) ∨ w.ctl c = .suspending a .handle := by
  rcases (hw.awaitStep ht).backward ha' with ⟨A, ha, -⟩ | ⟨-, hf, -⟩
  · cases ht.edit ha ha' with
    | suspendHandle hc =>
      obtain rfl := Option.some.inj hh
      exact .inr hc
    | _ => exact .inl ⟨_, ha, hh⟩
  · rw [hf.handle] at hh
    cases hh

/-- A new `SharedMessageAwait` comes from `create_shared_message_await`. -/
theorem Trans.created_shared (ht : Trans w act w') (ha : w.awaits a = none)
    (ha' : w'.awaits a = some A') (hs : A'.type = .shared) :
    ∃ executor priority pos,
      act = .body A'.owner (.createShared a executor A'.waitMessageName priority pos) := by
  cases ht.created ha ha' with
  | shared hact _ hA =>
    obtain ⟨e, r, q, rfl⟩ := hA
    exact ⟨_, _, _, hact⟩
  | message | temp | time => cases hs

/-- The coroutine to whose await the delivery has given the message and which it is waking. -/
def VisitPc.handing : VisitPc → Option CoId
  | .storeState h | .pushQueue h => some h
  | .enter | .enqueue _ | .loadState _ | .loadAwait _ | .writeData _ | .loadTimer
  | .pushRemove _ => none

/-- In the shared block a wake follows the write of `data_`. -/
theorem Trans.handing (ht : Trans w act w') {d : Dispatcher} {p : Packet} {first : Addr}
    {rest : List Addr} {s : VisitPc} (hd : w'.disp d = .visit .shared p first a rest s)
    (hs : s.handing = some c) :
    (∃ s₀, w.disp d = .visit .shared p first a rest s₀ ∧ s₀.handing = some c) ∨
      (∃ i, act = .dispatch d i) ∧ w.disp d = .visit .shared p first a rest (.writeData c) := by
  have hne : s ≠ .enter := by rintro rfl; cases hs
  rcases ht.visit_from hd hne with hd₀ | ⟨i, s₀, hact, hd₀, hm⟩
  · exact .inl ⟨s, hd₀, hs⟩
  cases hm with
  | enter _ _ hcase =>
    rcases hcase with ⟨-, rfl⟩ | ⟨hk, -⟩ | ⟨hk, -⟩
    · cases hs
    · cases hk
    · cases hk
  | stateStop _ hcase =>
    rcases hcase with ⟨-, rfl⟩ | ⟨hk, -⟩
    · cases hs
    · exact absurd rfl hk
  | awaitThis _ hcase =>
    rcases hcase with ⟨-, rfl⟩ | ⟨hk, -⟩ | ⟨hk, -⟩
    · cases hs
    · cases hk
    · cases hk
  | enqueue | pushQueue | loadTimer => cases hs
  | writeData =>
    obtain rfl := Option.some.inj hs
    exact .inr ⟨⟨i, hact⟩, hd₀⟩
  | storeState => exact .inl ⟨_, hd₀, hs⟩

/-- A coroutine that is being woken is not running. -/
theorem Solo.not_running_of_handing (h : Solo w c) {k : AwaitType} {p : Packet} {first : Addr}
    {rest : List Addr} {s : VisitPc} (hd : w.disp .normal = .visit k p first a rest s)
    (hs : s.handing = some c) : ¬w.isRunning c := by
  intro hr
  cases s with
  | storeState h' =>
    obtain rfl := Option.some.inj hs
    exact h.claim.not_stopped_of_running hr (h.checked (by rw [hd]; rfl))
  | pushQueue h' =>
    obtain rfl := Option.some.inj hs
    exact h.claim.not_pushing_of_running hr .normal (by rw [hd]; rfl)
  | _ => cases hs

/-! ### The invariant -/

/-- What holds of the consumers of `n`. -/
structure Consumers (n : String) (consumer : CoId → Bool) (w : World) : Prop where
  high_queue : ∀ p ∈ w.busQueue .high, p.msg.name ≠ n
  high_packet : ∀ p, (w.disp .high).packet = some p → p.msg.name ≠ n
  awaiting_iff : ∀ c a A, (w.ctl c).awaiting = some a → w.awaits a = some A →
    isConsumer consumer c = A.isShared n
  handle_iff : ∀ a A c, w.awaits a = some A → A.handle = some c →
    isConsumer consumer c = A.isShared n
  one : ∀ a b A B, w.awaits a = some A → w.awaits b = some B → A.isShared n = true →
    B.isShared n = true → A.owner = B.owner → isConsumer consumer A.owner = true → a = b
  solo : ∀ c, isConsumer consumer c = true → Solo w c
  data_eq : ∀ p first b rest s B h, w.disp .normal = .visit .shared p first b rest s →
    s.handing = some h → p.msg.name = n → w.awaits b = some B → B.data = p.msg

namespace Consumers

/-- The high dispatcher refers to no consumer. -/
theorem high_handle (h : Consumers n consumer w) (hw : Wf w) (hc : isConsumer consumer c = true) :
    (w.disp .high).handle ≠ some c := by
  intro hh
  cases hd : w.disp .high with
  | visit k p first b rest s =>
    rw [hd] at hh
    obtain ⟨B, hB, hBh⟩ := hw.visit_handle .high k p first b rest s c hd hh
    have hsh := h.handle_iff b B c hB hBh
    rw [hc] at hsh
    have hname : B.waitMessageName = n := (of_decide_eq_true hsh.symm).2
    exact h.high_packet p (by rw [hd]; rfl) ((hw.visit_type hd hB).2.symm.trans hname)
  | _ => rw [hd] at hh; cases hh

/-- A consumer that is suspended is suspended on its await. -/
theorem suspended_eq (h : Consumers n consumer w) (hw : Wf w) (hB : w.awaits b = some B)
    (hsh : B.isShared n = true) (hc : isConsumer consumer B.owner = true)
    (ha : (w.ctl B.owner).awaiting = some a) : a = b := by
  obtain ⟨A, hA, ho⟩ := hw.at_await B.owner a (Ctl.awaiting_at ha)
  have hA' := h.awaiting_iff B.owner a A ha hA
  rw [hc] at hA'
  exact h.one a b A B hA hB hA'.symm hsh ho (ho ▸ hc)

end Consumers

theorem Await.Keeps.isShared (hk : A.Keeps A') : A'.isShared n = A.isShared n := by
  simp only [Await.isShared, hk.type, hk.name]

namespace Consumers

theorem high_queue_step (h : Consumers n consumer w) (ht : Trans w act w')
    (hok : competing n consumer w act = true) : ∀ p ∈ w'.busQueue .high, p.msg.name ≠ n := by
  intro p hp
  cases ht with
  | pushHigh m =>
    simp only [Function.update_self, List.mem_append, List.mem_singleton] at hp
    rcases hp with hp | rfl
    · exact h.high_queue p hp
    · exact of_decide_eq_true hok
  | @ioTick id T msgName isloop hi hT hf =>
    simp only [Function.update_self, List.mem_append, List.mem_singleton] at hp
    rcases hp with hp | rfl
    · exact h.high_queue p hp
    · simpa [competing, hi, hT, hf] using hok
  | @fetch d i q hd _ hi =>
    cases d with
    | normal => exact h.high_queue p (by simpa using hp)
    | high =>
      simp only [Function.update_self] at hp
      exact h.high_queue p (List.mem_of_mem_eraseIdx hp)
  | push | destroyPush | pushRemove | ioTimeout => exact h.high_queue p (by simpa using hp)
  | _ => exact h.high_queue p hp

theorem high_packet_step (h : Consumers n consumer w) (ht : Trans w act w') (p : Packet)
    (hp : (w'.disp .high).packet = some p) : p.msg.name ≠ n := by
  rcases ht.packet hp with hp | hp
  · exact h.high_packet p hp
  · exact h.high_queue p hp

theorem awaiting_iff_step (h : Consumers n consumer w) (hw : Wf w) (ht : Trans w act w')
    (hok : competing n consumer w act = true) (hc : (w'.ctl c).awaiting = some a)
    (ha' : w'.awaits a = some A') : isConsumer consumer c = A'.isShared n := by
  obtain ⟨A, ha, -⟩ : ∃ A, w.awaits a = some A ∧ A.owner = c := by
    rcases ht.ctl_at (Ctl.awaiting_at hc) with hat | hA
    · exact hw.at_await c a hat
    · exact hA
  rw [(hw.keeps ht ha ha').isShared]
  rcases ht.awaiting hc with hc | rfl
  · exact h.awaiting_iff c a A hc ha
  · simpa [competing, ha] using hok

theorem handle_iff_step (h : Consumers n consumer w) (hw : Wf w) (ht : Trans w act w')
    (ha' : w'.awaits a = some A') (hh : A'.handle = some c) :
    isConsumer consumer c = A'.isShared n := by
  rcases hw.handle_set ht ha' hh with ⟨A, ha, hA⟩ | hc
  · rw [(hw.keeps ht ha ha').isShared]
    exact h.handle_iff a A c ha hA
  · obtain ⟨A, ha, -⟩ := hw.at_await c a (by rw [hc]; rfl)
    rw [(hw.keeps ht ha ha').isShared]
    exact h.awaiting_iff c a A (by rw [hc]; rfl) ha

/-- A consumer creates a `SharedMessageAwait` of `n` only while it owns none. -/
theorem created_alone (hw : Wf w) (ht : Trans w act w')
    (hok : competing n consumer w act = true) (ha : w.awaits a = none)
    (ha' : w'.awaits a = some A') (hs : A'.isShared n = true)
    (hc : isConsumer consumer A'.owner = true) (hB : w.awaits b = some B)
    (hBs : B.isShared n = true) : B.owner ≠ A'.owner := by
  obtain ⟨hty, hnm⟩ := of_decide_eq_true hs
  obtain ⟨hBty, hBn⟩ := of_decide_eq_true hBs
  obtain ⟨executor, priority, pos, rfl⟩ := ht.created_shared ha ha' hty
  simp only [competing, hnm, hc, decide_true, Bool.not_true, Bool.false_or, List.all_eq_true,
    Option.all_eq_true, decide_eq_true_eq, World.members, Multimap.mem_equalRange] at hok
  exact hok b ((hw.registered .shared n b).2 ⟨B, hB, hBty, hBn⟩) B hB

theorem one_step (h : Consumers n consumer w) (hw : Wf w) (ht : Trans w act w')
    (hok : competing n consumer w act = true) {B' : Await} (hA' : w'.awaits a = some A')
    (hB' : w'.awaits b = some B') (hAs : A'.isShared n = true) (hBs : B'.isShared n = true)
    (ho : A'.owner = B'.owner) (hc : isConsumer consumer A'.owner = true) : a = b := by
  have hst := hw.awaitStep ht
  rcases hst.backward hA' with ⟨A, hA, hkA⟩ | ⟨hnA, -, htA⟩ <;>
    rcases hst.backward hB' with ⟨B, hB, hkB⟩ | ⟨hnB, -, htB⟩
  · rw [hkA.owner, hkB.owner] at ho
    exact h.one a b A B hA hB (hkA.isShared ▸ hAs) (hkB.isShared ▸ hBs) ho (hkA.owner ▸ hc)
  · exact absurd (hkA.owner.symm.trans ho)
      (created_alone hw ht hok hnB hB' hBs (ho ▸ hc) hA (hkA.isShared ▸ hAs))
  · exact absurd (hkB.owner.symm.trans ho.symm)
      (created_alone hw ht hok hnA hA' hAs hc hB (hkB.isShared ▸ hBs))
  · have he := htA.symm.trans htB
    simpa using he

/-- The delivery's write to `data_` is not overwritten before the coroutine is scheduled. -/
theorem data_eq_step (h : Consumers n consumer w) (hw : Wf w) (ht : Trans w act w') {p : Packet}
    {first : Addr}
    {rest : List Addr} {s : VisitPc} {B' : Await}
    (hd' : w'.disp .normal = .visit .shared p first b rest s) (hs : s.handing = some c)
    (hn : p.msg.name = n) (hB' : w'.awaits b = some B') : B'.data = p.msg := by
  obtain ⟨s₀, hd, hs₀⟩ : ∃ s₀, w.disp .normal = .visit .shared p first b rest s₀ ∧
      (s₀.handing = some c ∨ s₀ = .writeData c ∧ ∃ i, act = .dispatch .normal i) := by
    rcases ht.handing hd' hs with ⟨s₀, hd, hs₀⟩ | ⟨hact, hd⟩
    · exact ⟨s₀, hd, .inl hs₀⟩
    · exact ⟨_, hd, .inr ⟨rfl, hact⟩⟩
  obtain ⟨B, hB, hBty, hBn⟩ := hw.scanning .normal .shared p (by rw [hd]; rfl) (by rw [hd]; rfl) b
    (by rw [hd]; simp [DispPc.scanned])
  rcases hs₀ with hs₀ | ⟨rfl, i, rfl⟩
  · have hdata := h.data_eq p first b rest s₀ B c hd hs₀ hn hB
    -- the owner is a consumer and not running, so that only a delivery could write
    obtain ⟨B₁, hB₁, hBh⟩ := hw.visit_handle .normal .shared p first b rest s₀ c hd
      (by cases s₀ <;> first | exact hs₀ | cases hs₀)
    obtain rfl : B = B₁ := Option.some.inj (hB.symm.trans hB₁)
    have hcons : isConsumer consumer c = true := by
      rw [h.handle_iff b B c hB hBh]
      simp [Await.isShared, hBty, hBn, hn]
    have hrun := (h.solo c hcons).not_running_of_handing hd hs₀
    have hown : B.owner = c := (hw.handle_owner b B c hB hBh).symm
    have idle : ∀ {c₁ x}, w.ctl c₁ = x → x.at = some b → x.running = true → False := by
      intro c₁ x hc hat hr
      have := hw.owner_of_at (by rw [hc]; exact hat) hB
      subst hc
      exact hrun (by rw [World.isRunning, ← hown, this, hr])
    cases ht.edit hB hB' with
    | ready _ _ _ hty => rw [hBty] at hty; cases hty
    | readyShared _ hc ho => exact (hrun (by rw [World.isRunning, ← hown, ho, hc]; rfl)).elim
    | dequeue hc | ret _ hc => exact (idle hc rfl rfl).elim
    | @writeData d i k q first' rest' h' hact hdw =>
      cases d with
      | normal =>
        rw [hd] at hdw
        cases hdw
        cases hs₀
      | high =>
        have hq := (hw.visit_type hdw hB).2
        exact absurd (hq.symm.trans (hBn.trans hn)) (h.high_packet q (by rw [hdw]; rfl))
    | _ => exact hdata
  · -- the write itself
    cases ht with
    | writeData hd₁ =>
      rw [hd] at hd₁
      cases hd₁
      simp only [Function.update_self, Option.some.injEq] at hB'
      rw [← hB']
    | _ => simp_all

/-- **One step.** -/
theorem step (h : Consumers n consumer w) (hw : Wf w) (ht : Trans w act w')
    (hok : competing n consumer w act = true) : Consumers n consumer w' where
  high_queue := h.high_queue_step ht hok
  high_packet := h.high_packet_step ht
  awaiting_iff _ _ _ := h.awaiting_iff_step hw ht hok
  handle_iff _ _ _ := h.handle_iff_step hw ht
  one _ _ _ _ := h.one_step hw ht hok
  solo c hc := (h.solo c hc).step hw ht (h.high_handle hw hc)
  data_eq _ _ _ _ _ _ _ := h.data_eq_step hw ht

theorem init (n : String) (consumer : CoId → Bool) : Consumers n consumer World.init where
  high_queue := by simp [World.init]
  high_packet := by simp [World.init, DispPc.packet]
  awaiting_iff c a A hc ha := by
    obtain ⟨rfl, rfl⟩ := World.init_awaits ha
    rcases World.init_ctl c with h | ⟨rfl, h⟩ <;> rw [h] at hc
    · cases hc
    · simp [isConsumer, Await.isShared, removerObject]
  handle_iff a A c ha hh := by
    obtain ⟨rfl, rfl⟩ := World.init_awaits ha
    obtain rfl := Option.some.inj hh
    simp [isConsumer, Await.isShared, removerObject]
  one a b A B ha _ hs := by
    obtain ⟨rfl, rfl⟩ := World.init_awaits ha
    simp [Await.isShared, removerObject] at hs
  solo c _ := Solo.init c
  data_eq p first b rest s B h hd := by simp [World.init] at hd

end Consumers

theorem consumers_of_reachable
    (h : Reachable (fun w act => competing n consumer w act = true) w) :
    Consumers n consumer w :=
  h.invariant (I := Consumers n consumer) (Consumers.init n consumer) fun _ _ _ hr ih hok hs =>
    ih.step (wf_of_reachable hr) (trans_of_step hs) hok

end DataProxy
