import DataProxy.Trans

/-!
# The await objects and their registries

What holds in every state, whatever the schedule: the three multimaps list exactly the live awaits
of their kind under their own names, a dispatcher inside a block only holds awaits that are alive
and of the right kind and name (destruction needs the lock of the block), `handle_` is null or the
handle of the owner, and two `SharedMessageAwait`s share their queue exactly when they have the
same name.

`AwaitStep` says once what a step can do to the objects; the invariant `Wf` follows from it.
-/

namespace DataProxy

open Function (update)

variable {w w' : World} {act : Action}

/-- The await whose functions the coroutine is in, or at which it is suspended. -/
def Ctl.at : Ctl → Option Addr
  | .suspending a _ | .suspended a | .resuming a _ | .arming a _ => some a
  | .fresh | .body | .creatingTime _ _ | .destroying _ | .removing _ | .done => none

/-- The handle that the delivery has read. -/
def VisitPc.handle : VisitPc → Option CoId
  | .enqueue h | .loadState h | .loadAwait h | .writeData h | .storeState h | .pushQueue h => some h
  | .enter | .loadTimer | .pushRemove _ => none

/-- The awaits a dispatcher still refers to. -/
def DispPc.scanned : DispPc → List Addr
  | .visit _ _ first a rest _ => first :: a :: rest
  | .sharedPush _ first => [first]
  | .fetch | .lock _ _ => []

/-- A live await of kind `k` and name `n` is at `a`. -/
def World.Live (w : World) (k : AwaitType) (n : String) (a : Addr) : Prop :=
  ∃ A, w.awaits a = some A ∧ A.type = k ∧ A.waitMessageName = n

/-- What no step changes in an await, except that `handle_` may be set to the owner. -/
structure Await.Keeps (A A' : Await) : Prop where
  type : A'.type = A.type
  name : A'.waitMessageName = A.waitMessageName
  owner : A'.owner = A.owner
  executor : A'.coExecutor = A.coExecutor
  priority : A'.waitCoPriority = A.waitCoPriority
  sharedQueue : A'.sharedQueue = A.sharedQueue
  filter : A'.filter = A.filter
  handle : A'.handle = A.handle ∨ A'.handle = some A.owner

/-- What every constructor leaves in an await. -/
structure Await.Fresh (A : Await) : Prop where
  handle : A.handle = none
  data : A.data = {}
  suspend : A.suspend = false
  queue : A.queue = []
  timerId : A.timerId = 0
  timeoutFor : A.timeoutFor = none

/-- What a step can do to the await objects and their registries. -/
inductive AwaitStep (w w' : World) : Prop
  | keep (h : w'.awaits = w.awaits) (hr : w'.registry = w.registry)
      (hq : w'.nextQueue = w.nextQueue)
  | edit {a : Addr} {A A' : Await} (ha : w.awaits a = some A)
      (h : w'.awaits = update w.awaits a (some A')) (hk : A.Keeps A')
      (hr : w'.registry = w.registry) (hq : w'.nextQueue = w.nextQueue)
  | create {a : Addr} {A : Await} {pos : ℕ} (ha : w.awaits a = none)
      (h : w'.awaits = update w.awaits a (some A)) (hf : A.Fresh)
      (hr : w'.registry = update w.registry A.type
        (Multimap.insertAt (w.registry A.type) pos (A.waitMessageName, a)))
      (hl : w.lockFree A.type) (hd : w'.disp = w.disp) (htr : w'.trace = .created a :: w.trace)
      (hq : A.type ≠ .shared ∧ w'.nextQueue = w.nextQueue ∨
        (∃ b B, w.awaits b = some B ∧ B.type = .shared ∧
          B.waitMessageName = A.waitMessageName ∧ A.sharedQueue = B.sharedQueue) ∧
            w'.nextQueue = w.nextQueue ∨
        (∀ b, ¬w.Live .shared A.waitMessageName b) ∧ A.sharedQueue = w.nextQueue ∧
          w'.nextQueue = w.nextQueue + 1)
  | destroy {a : Addr} {A : Await} (ha : w.awaits a = some A)
      (h : w'.awaits = update w.awaits a none) (hl : w.lockFree A.type)
      (hr : w'.registry = update w.registry A.type
        ((w.registry A.type).erase (A.waitMessageName, a)))
      (hc : w.ctl A.owner = .body) (hc' : (w'.ctl A.owner).at = none) (hne : A.owner ≠ remover)
      (hd : w'.disp = w.disp) (hq : w'.nextQueue = w.nextQueue)

/-- The invariant of the objects. -/
structure Wf (w : World) : Prop where
  registered : ∀ k n a, (n, a) ∈ w.registry k ↔ w.Live k n a
  nodup : ∀ k, (w.registry k).Nodup
  handle_owner : ∀ a A h, w.awaits a = some A → A.handle = some h → h = A.owner
  at_await : ∀ c a, (w.ctl c).at = some a → ∃ A, w.awaits a = some A ∧ A.owner = c
  scanning : ∀ d k p, (w.disp d).inPhase k = true → (w.disp d).packet = some p →
    ∀ a ∈ (w.disp d).scanned, w.Live k p.msg.name a
  visit_handle : ∀ d k p first a rest s h, w.disp d = .visit k p first a rest s →
    s.handle = some h → ∃ A, w.awaits a = some A ∧ A.handle = some h
  queue_iff : ∀ a b A B, w.awaits a = some A → w.awaits b = some B → A.type = .shared →
    B.type = .shared → (A.sharedQueue = B.sharedQueue ↔ A.waitMessageName = B.waitMessageName)
  queue_lt : ∀ a A, w.awaits a = some A → A.type = .shared → A.sharedQueue < w.nextQueue

theorem Await.Keeps.refl (A : Await) : A.Keeps A :=
  ⟨rfl, rfl, rfl, rfl, rfl, rfl, rfl, .inl rfl⟩

/-- The ghost update at the end of a wait. -/
theorem AwaitStep.endWait {x : Ctl} (h : w'.awaits = World.endWait w.awaits x)
    (hr : w'.registry = w.registry) (hq : w'.nextQueue = w.nextQueue) : AwaitStep w w' := by
  cases x with
  | suspended a =>
    cases ha : w.awaits a with
    | none =>
      refine .keep (h.trans ?_) hr hq
      simp [World.endWait, ha]
    | some A =>
      have h' : w'.awaits = update w.awaits a
          (some { A with timeoutFor := none, tickFor := none }) := by
        rw [h, World.endWait, ha, Option.map_some]
      exact .edit ha h' ⟨rfl, rfl, rfl, rfl, rfl, rfl, rfl, .inl rfl⟩ hr hq
  | _ => exact .keep h hr hq

/-- Every transition is one of these. -/
theorem Wf.awaitStep (hw : Wf w) (ht : Trans w act w') : AwaitStep w w' := by
  cases ht with
  | push | pushHigh | stop | start | createTime | destroyPush | finish | notReady | suspendState
  | lateStore | resumeFault | loadSuspend | spin | storeRuning | nullFault | cancel | cancelMiss
  | fetch | lockNone | lockSome | skip | enter | stateStop | stateOther | awaitThis | awaitOther
  | pushQueue | noTimer | loadTimer | pushRemove | sharedPush | expire | ioBegin | ioKeepAlive
  | ioTick | ioTimeout | ioRearm =>
    exact .keep rfl rfl rfl
  | setTimeout _ _ ha | arm _ ha | readyNormal _ _ ha | readyShared _ _ ha | suspendFlag _ ha
  | resume _ _ _ ha | dequeue _ ha | clearSuspend _ ha | ret _ ha | enqueue _ ha
  | writeData _ ha =>
    exact .edit ha rfl ⟨rfl, rfl, rfl, rfl, rfl, rfl, rfl, .inl rfl⟩ rfl rfl
  | @suspendHandle c a A junk hc ha =>
    obtain ⟨A', ha', ho⟩ := hw.at_await c a (by rw [hc]; rfl)
    obtain rfl : A = A' := Option.some.inj (ha.symm.trans ha')
    exact .edit ha rfl ⟨rfl, rfl, rfl, rfl, rfl, rfl, rfl, .inr (by rw [ho])⟩ rfl rfl
  | storeState => exact .endWait rfl rfl rfl
  | @createClone c a b executor name priority pos B hc hne ha hl hb hB =>
    refine .create ha rfl ⟨rfl, rfl, rfl, rfl, rfl, rfl⟩ rfl hl rfl rfl (.inr (.inl ⟨⟨b, B, hB, ?_⟩, rfl⟩))
    have hmem : (name, b) ∈ w.registry .shared := by
      rw [← Multimap.mem_equalRange]
      exact List.mem_of_mem_head? hb
    obtain ⟨B', hB', hty, hnm⟩ := (hw.registered _ _ _).1 hmem
    obtain rfl : B = B' := Option.some.inj (hB.symm.trans hB')
    exact ⟨hty, hnm, rfl⟩
  | @createQueue c a executor name priority pos hc hne ha hl hn =>
    refine .create ha rfl ⟨rfl, rfl, rfl, rfl, rfl, rfl⟩ rfl hl rfl rfl (.inr (.inr ⟨?_, rfl, rfl⟩))
    intro b hb
    have hmem : b ∈ Multimap.equalRange (w.registry .shared) name :=
      Multimap.mem_equalRange.2 ((hw.registered _ _ _).2 hb)
    cases hr : Multimap.equalRange (w.registry .shared) name with
    | nil => simp [hr] at hmem
    | cons b' rest =>
      have hb' : (name, b') ∈ w.registry .shared := Multimap.mem_equalRange.1 (by simp [hr])
      obtain ⟨B', hB', -⟩ := (hw.registered _ _ _).1 hb'
      simp [hr, hB'] at hn
  | createMessage _ _ ha hl | createTemp _ _ ha hl | registerTime _ ha hl =>
    exact .create ha rfl ⟨rfl, rfl, rfl, rfl, rfl, rfl⟩ rfl hl rfl rfl
      (.inl ⟨by simp [newAwait], rfl⟩)
  | @destroy c a A hc hne ha ho hl =>
    subst ho
    refine .destroy ha rfl hl rfl hc ?_ hne rfl rfl
    simp only [Function.update_self]
    split <;> rfl

namespace AwaitStep

/-- A live await is kept, or it is destroyed by its owner while no dispatcher is in its block. -/
theorem forward (h : AwaitStep w w') {a : Addr} {A : Await} (ha : w.awaits a = some A) :
    (∃ A', w'.awaits a = some A' ∧ A.Keeps A') ∨
      w'.awaits a = none ∧ w.lockFree A.type = true ∧ w.ctl A.owner = .body ∧
        (w'.ctl A.owner).at = none ∧ A.owner ≠ remover := by
  cases h with
  | keep h => exact .inl ⟨A, by rw [h, ha], .refl A⟩
  | @edit b B B' hb h hk =>
    by_cases hab : a = b
    · subst hab
      obtain rfl : A = B := Option.some.inj (ha.symm.trans hb)
      exact .inl ⟨B', by rw [h, Function.update_self], hk⟩
    · exact .inl ⟨A, by rw [h, Function.update_of_ne hab, ha], .refl A⟩
  | @create b B pos hb h =>
    have hab : a ≠ b := by rintro rfl; rw [ha] at hb; cases hb
    exact .inl ⟨A, by rw [h, Function.update_of_ne hab, ha], .refl A⟩
  | @destroy b B hb h hl _ hc hc' hne =>
    by_cases hab : a = b
    · subst hab
      obtain rfl : A = B := Option.some.inj (ha.symm.trans hb)
      exact .inr ⟨by rw [h, Function.update_self], hl, hc, hc', hne⟩
    · exact .inl ⟨A, by rw [h, Function.update_of_ne hab, ha], .refl A⟩

/-- An await that is alive afterwards was alive before, or was just created. -/
theorem backward (h : AwaitStep w w') {a : Addr} {A' : Await} (ha : w'.awaits a = some A') :
    (∃ A, w.awaits a = some A ∧ A.Keeps A') ∨
      w.awaits a = none ∧ A'.Fresh ∧ w'.trace = .created a :: w.trace := by
  cases h with
  | keep h => exact .inl ⟨A', by rw [← h, ha], .refl A'⟩
  | @edit b B B' hb h hk =>
    by_cases hab : a = b
    · subst hab
      rw [h, Function.update_self, Option.some.injEq] at ha
      exact .inl ⟨B, hb, ha ▸ hk⟩
    · rw [h, Function.update_of_ne hab] at ha
      exact .inl ⟨A', ha, .refl A'⟩
  | @create b B pos hb h hf _ _ _ htr =>
    by_cases hab : a = b
    · subst hab
      rw [h, Function.update_self, Option.some.injEq] at ha
      exact .inr ⟨hb, ha ▸ hf, htr⟩
    · rw [h, Function.update_of_ne hab] at ha
      exact .inl ⟨A', ha, .refl A'⟩
  | @destroy b B hb h =>
    by_cases hab : a = b
    · subst hab
      rw [h, Function.update_self] at ha
      cases ha
    · rw [h, Function.update_of_ne hab] at ha
      exact .inl ⟨A', ha, .refl A'⟩

/-- While some dispatcher is in the block of `k`, the awaits of kind `k` stay. -/
theorem live (h : AwaitStep w w') {k : AwaitType} {n : String} {a : Addr} {d : Dispatcher}
    (hd : (w.disp d).inPhase k = true) (ha : w.Live k n a) : w'.Live k n a := by
  obtain ⟨A, ha, rfl, rfl⟩ := ha
  rcases h.forward ha with ⟨A', ha', hk⟩ | ⟨-, hl, -⟩
  · exact ⟨A', ha', hk.type, hk.name⟩
  · cases d <;> simp [World.lockFree, hd] at hl

end AwaitStep

/-- An await that is alive before and after a step is the same object. -/
theorem Wf.keeps (hw : Wf w) (ht : Trans w act w') {a : Addr} {A A' : Await}
    (ha : w.awaits a = some A) (ha' : w'.awaits a = some A') : A.Keeps A' := by
  rcases (hw.awaitStep ht).forward ha with ⟨B, hB, hk⟩ | ⟨hn, -⟩
  · obtain rfl : B = A' := Option.some.inj (hB.symm.trans ha')
    exact hk
  · rw [ha'] at hn
    cases hn

/-- A handle, once read from an await, stays there while the await lives. -/
theorem Await.Keeps.handle_eq {A A' : Await} (hk : A.Keeps A') {h : CoId}
    (ho : ∀ h, A.handle = some h → h = A.owner) (hh : A.handle = some h) : A'.handle = some h := by
  rcases hk.handle with he | he
  · rw [he, hh]
  · rw [he, ho h hh]

/-! ### Where the threads can get to -/

/-- A coroutine comes to an await only from its own body, and only to an await of its own. -/
theorem Trans.ctl_at (ht : Trans w act w') {c : CoId} {a : Addr} (h : (w'.ctl c).at = some a) :
    (w.ctl c).at = some a ∨ ∃ A, w.awaits a = some A ∧ A.owner = c := by
  rcases ht.ctl_from c with he | hm
  · exact .inl (he ▸ h)
  generalize w.ctl c = x, w'.ctl c = y at hm h
  cases hm with
  | setTimeout _ ha ho | ready _ ha ho | readyShared _ ha ho | notReady _ ha ho =>
    obtain rfl := Option.some.inj h
    exact .inr ⟨_, ha, ho⟩
  | suspendFlag | suspendHandle | suspendState | resume | loadSuspend | dequeue | clearSuspend
  | storeRuning => exact .inl h
  | _ => cases h

theorem DispPc.scanned_next {k k' : AwaitType} {p q : Packet} {first a : Addr} {rest : List Addr}
    (hk : (DispPc.next k p first rest).inPhase k' = true)
    (hp : (DispPc.next k p first rest).packet = some q)
    (ha : a ∈ (DispPc.next k p first rest).scanned) : k' = k ∧ q = p ∧ a ∈ first :: rest := by
  rcases DispPc.next_cases k p first rest with ⟨b, rest', rfl, he⟩ | ⟨rfl, he⟩ | ⟨-, he⟩
  · rw [he] at hk hp ha
    simp only [DispPc.inPhase, decide_eq_true_eq, DispPc.packet, Option.some.injEq,
      DispPc.scanned] at hk hp ha
    exact ⟨hk, hp.symm, ha⟩
  · rw [he] at hk hp ha
    simp only [DispPc.inPhase, decide_eq_true_eq, DispPc.packet, Option.some.injEq,
      DispPc.scanned, List.mem_singleton] at hk hp ha
    exact ⟨hk, hp.symm, ha ▸ List.mem_cons_self⟩
  · rw [he] at hk
    simp at hk

/-- The awaits a dispatcher refers to were found in the registry under the lock it holds. -/
theorem Trans.scanned (ht : Trans w act w') {d : Dispatcher} {k : AwaitType} {p : Packet} {a : Addr}
    (hk : (w'.disp d).inPhase k = true) (hp : (w'.disp d).packet = some p)
    (ha : a ∈ (w'.disp d).scanned) :
    (w.disp d).inPhase k = true ∧ (w.disp d).packet = some p ∧ a ∈ (w.disp d).scanned ∨
      (p.msg.name, a) ∈ w.registry k ∧ w'.awaits = w.awaits := by
  rcases ht.disp_eq d with he | ⟨i, rfl⟩
  · rw [he] at hk hp ha
    exact .inl ⟨hk, hp, ha⟩
  cases ht with
  | fetch | lockNone | sharedPush =>
    simp only [Function.update_self, DispPc.inPhase_after] at hk
    cases hk
  | lockSome hd hr =>
    simp only [Function.update_self, DispPc.inPhase, decide_eq_true_eq, DispPc.packet,
      Option.some.injEq, DispPc.scanned] at hk hp ha
    subst hk hp
    refine .inr ⟨?_, rfl⟩
    rw [← Multimap.mem_equalRange, hr]
    simpa using ha
  | skip hd | stateOther hd | awaitOther hd | noTimer hd | pushRemove hd =>
    simp only [Function.update_self] at hk hp ha
    obtain ⟨rfl, rfl, hm⟩ := DispPc.scanned_next hk hp ha
    rw [hd]
    refine .inl ⟨by simp [DispPc.inPhase], rfl, ?_⟩
    rcases List.mem_cons.1 hm with rfl | hm
    · simp [DispPc.scanned]
    · simp [DispPc.scanned, hm]
  | enter hd | enqueue hd | stateStop hd | awaitThis hd | writeData hd | storeState hd
  | loadTimer hd =>
    simp only [Function.update_self] at hk hp ha
    rw [hd]
    exact .inl ⟨hk, hp, ha⟩
  | pushQueue hd _ hpc =>
    simp only [Function.update_self] at hk hp ha
    rcases hpc with ⟨-, rfl⟩ | ⟨-, rfl⟩ | ⟨-, rfl⟩
    · cases hk
    · obtain ⟨rfl, rfl, hm⟩ := DispPc.scanned_next hk hp ha
      rw [hd]
      refine .inl ⟨by simp [DispPc.inPhase], rfl, ?_⟩
      rcases List.mem_cons.1 hm with rfl | hm
      · simp [DispPc.scanned]
      · simp [DispPc.scanned, hm]
    · rw [hd]
      exact .inl ⟨hk, hp, ha⟩

theorem DispPc.next_ne_visit {k k' : AwaitType} {p p' : Packet} {first first' a : Addr}
    {rest rest' : List Addr} {s : VisitPc} (hs : s ≠ .enter) :
    DispPc.next k' p' first' rest' ≠ .visit k p first a rest s := by
  intro he
  rcases DispPc.next_cases k' p' first' rest' with ⟨b, r, -, h⟩ | ⟨-, h⟩ | ⟨-, h⟩
  · rw [h] at he
    cases he
    exact hs rfl
  · rw [h] at he
    cases he
  · rw [h] at he
    cases k' <;> cases he

/-- One statement of the delivery of `p` to the await at `a`, up to the end of the delivery. -/
inductive VisitMove (w w' : World) (k : AwaitType) (p : Packet) (a : Addr) :
    VisitPc → VisitPc → Prop
  | enter {A h s} (ha : w.awaits a = some A) (hh : A.handle = some h)
      (hs : k = .shared ∧ s = .loadAwait h ∨ k = .normal ∧ s = .enqueue h ∨
        k = .temp ∧ s = .loadState h ∧ (A.filter p.msg = true ∨ p.msg.isTimeoutMsg = true))
      (he : w'.awaits = w.awaits) : VisitMove w w' k p a .enter s
  | enqueue {h} : VisitMove w w' k p a (.enqueue h) (.loadState h)
  | stateStop {h s} (hp : (w.promise h).state = .stopState)
      (hs : k = .shared ∧ s = .writeData h ∨ k ≠ .shared ∧ s = .loadAwait h)
      (he : w'.promise = w.promise) : VisitMove w w' k p a (.loadState h) s
  | awaitThis {h s} (hp : (w.promise h).await = some a)
      (hs : k = .shared ∧ s = .loadState h ∨ k = .normal ∧ s = .storeState h ∨
        k = .temp ∧ s = .writeData h) : VisitMove w w' k p a (.loadAwait h) s
  | writeData {h} : VisitMove w w' k p a (.writeData h) (.storeState h)
  | storeState {h} : VisitMove w w' k p a (.storeState h) (.pushQueue h)
  | pushQueue {h} (hk : k = .temp) : VisitMove w w' k p a (.pushQueue h) .loadTimer
  | loadTimer {A} (ha : w.awaits a = some A) (ht : 0 < A.timerId) :
    VisitMove w w' k p a .loadTimer (.pushRemove A.timerId)

/-- A dispatcher in the middle of a delivery has got there by the statement before. -/
theorem Trans.visit_from (ht : Trans w act w') {d : Dispatcher} {k : AwaitType} {p : Packet}
    {first a : Addr} {rest : List Addr} {s : VisitPc}
    (hd : w'.disp d = .visit k p first a rest s) (hne : s ≠ .enter) :
    w.disp d = .visit k p first a rest s ∨ ∃ i s₀, act = .dispatch d i ∧
      w.disp d = .visit k p first a rest s₀ ∧ VisitMove w w' k p a s₀ s := by
  rcases ht.disp_eq d with he | ⟨i, rfl⟩
  · exact .inl (he ▸ hd)
  right
  cases ht with
  | fetch | sharedPush => simp at hd
  | lockSome =>
    simp only [Function.update_self, DispPc.visit.injEq] at hd
    exact absurd hd.2.2.2.2.2.symm hne
  | @lockNone _ _ k' =>
    simp only [Function.update_self] at hd
    cases k' <;> cases hd
  | skip | stateOther | awaitOther | noTimer | pushRemove =>
    simp only [Function.update_self] at hd
    exact absurd hd (DispPc.next_ne_visit hne)
  | enter hd₁ ha hh hs =>
    simp only [Function.update_self, DispPc.visit.injEq] at hd
    obtain ⟨rfl, rfl, rfl, rfl, rfl, rfl⟩ := hd
    exact ⟨i, _, rfl, hd₁, .enter ha hh hs rfl⟩
  | enqueue hd₁ =>
    simp only [Function.update_self, DispPc.visit.injEq] at hd
    obtain ⟨rfl, rfl, rfl, rfl, rfl, rfl⟩ := hd
    exact ⟨i, _, rfl, hd₁, .enqueue⟩
  | stateStop hd₁ _ hp hs =>
    simp only [Function.update_self, DispPc.visit.injEq] at hd
    obtain ⟨rfl, rfl, rfl, rfl, rfl, rfl⟩ := hd
    exact ⟨i, _, rfl, hd₁, .stateStop hp hs rfl⟩
  | awaitThis hd₁ _ hp hs =>
    simp only [Function.update_self, DispPc.visit.injEq] at hd
    obtain ⟨rfl, rfl, rfl, rfl, rfl, rfl⟩ := hd
    exact ⟨i, _, rfl, hd₁, .awaitThis hp hs⟩
  | writeData hd₁ =>
    simp only [Function.update_self, DispPc.visit.injEq] at hd
    obtain ⟨rfl, rfl, rfl, rfl, rfl, rfl⟩ := hd
    exact ⟨i, _, rfl, hd₁, .writeData⟩
  | storeState hd₁ =>
    simp only [Function.update_self, DispPc.visit.injEq] at hd
    obtain ⟨rfl, rfl, rfl, rfl, rfl, rfl⟩ := hd
    exact ⟨i, _, rfl, hd₁, .storeState⟩
  | pushQueue hd₁ _ hpc =>
    simp only [Function.update_self] at hd
    rcases hpc with ⟨-, rfl⟩ | ⟨-, rfl⟩ | ⟨hk, rfl⟩
    · cases hd
    · exact absurd hd (DispPc.next_ne_visit hne)
    · cases hd
      exact ⟨i, _, rfl, hd₁, .pushQueue hk⟩
  | loadTimer hd₁ ha ht =>
    simp only [Function.update_self, DispPc.visit.injEq] at hd
    obtain ⟨rfl, rfl, rfl, rfl, rfl, rfl⟩ := hd
    exact ⟨i, _, rfl, hd₁, .loadTimer ha ht⟩

/-- A delivery gets its handle from `handle_`. -/
theorem Trans.visit_handle (ht : Trans w act w') {d : Dispatcher} {k : AwaitType} {p : Packet}
    {first a : Addr} {rest : List Addr} {s : VisitPc} {h : CoId}
    (hd : w'.disp d = .visit k p first a rest s) (hs : s.handle = some h) :
    (∃ s₀, w.disp d = .visit k p first a rest s₀ ∧ s₀.handle = some h) ∨
      w.disp d = .visit k p first a rest .enter ∧
        ∃ A, w.awaits a = some A ∧ A.handle = some h ∧ w'.awaits = w.awaits := by
  have hne : s ≠ .enter := by rintro rfl; cases hs
  rcases ht.visit_from hd hne with hd₀ | ⟨i, s₀, -, hd₀, hm⟩
  · exact .inl ⟨s, hd₀, hs⟩
  cases hm with
  | enter ha hh hcase he =>
    refine .inr ⟨hd₀, _, ha, ?_, he⟩
    rcases hcase with ⟨-, rfl⟩ | ⟨-, rfl⟩ | ⟨-, rfl, -⟩ <;> exact hh.trans hs
  | enqueue | writeData | storeState => exact .inl ⟨_, hd₀, hs⟩
  | stateStop _ hcase =>
    rcases hcase with ⟨-, rfl⟩ | ⟨-, rfl⟩ <;> exact .inl ⟨_, hd₀, hs⟩
  | awaitThis _ hcase =>
    rcases hcase with ⟨-, rfl⟩ | ⟨-, rfl⟩ | ⟨-, rfl⟩ <;> exact .inl ⟨_, hd₀, hs⟩
  | pushQueue | loadTimer => cases hs

/-! ### The invariant -/

namespace Wf

theorem init : Wf World.init where
  registered := by
    intro k n a
    by_cases ha : a = removerAwait
    · subst ha
      cases k <;> simp [World.init, World.Live, removerObject, eq_comm]
    · cases k <;> simp [World.init, World.Live, ha]
  nodup := by
    intro k
    cases k <;> simp [World.init]
  handle_owner := by
    intro a A h ha hh
    obtain ⟨rfl, rfl⟩ := World.init_awaits ha
    exact (Option.some.inj hh).symm
  at_await := by
    intro c a h
    rcases World.init_ctl c with hc | ⟨rfl, hc⟩ <;> rw [hc] at h
    · cases h
    · obtain rfl := Option.some.inj h
      exact ⟨removerObject, by simp [World.init], rfl⟩
  scanning := by
    intro d k p h
    simp [World.init, DispPc.inPhase] at h
  visit_handle := by
    intro d k p first a rest s h hd
    simp [World.init] at hd
  queue_iff := by
    intro a b A B ha hb hA
    obtain ⟨rfl, rfl⟩ := World.init_awaits ha
    cases hA
  queue_lt := by
    intro a A ha hA
    obtain ⟨rfl, rfl⟩ := World.init_awaits ha
    cases hA

theorem registered_step (hw : Wf w) (ha : AwaitStep w w') (k : AwaitType) (n : String) (a : Addr) :
    (n, a) ∈ w'.registry k ↔ w'.Live k n a := by
  have same : ∀ {b : Addr}, w'.awaits b = w.awaits b → (w'.Live k n b ↔ w.Live k n b) := by
    intro b hb
    simp only [World.Live, hb]
  cases ha with
  | keep h hr => rw [hr, hw.registered, same (by rw [h])]
  | @edit b B B' hb h hk hr =>
    rw [hr, hw.registered]
    by_cases hab : a = b
    · subst hab
      simp [World.Live, hb, h, hk.type, hk.name]
    · rw [same (by rw [h, Function.update_of_ne hab])]
  | @create b B pos hb h _ hr =>
    by_cases hab : a = b
    · subst hab
      have hold : ∀ k' n', (n', a) ∉ w.registry k' := by
        intro k' n' hm
        obtain ⟨A, hA, -⟩ := (hw.registered k' n' a).1 hm
        rw [hb] at hA
        cases hA
      by_cases hk : k = B.type
      · subst hk
        simp [World.Live, hr, h, hold, eq_comm]
      · simp [World.Live, hr, h, hold, Function.update_of_ne hk, Ne.symm hk]
    · rw [same (by rw [h, Function.update_of_ne hab]), ← hw.registered, hr]
      by_cases hk : k = B.type
      · subst hk
        simp [hab]
      · rw [Function.update_of_ne hk]
  | @destroy b B hb h _ hr =>
    by_cases hab : a = b
    · subst hab
      have hold : w'.awaits a = none := by rw [h, Function.update_self]
      simp only [World.Live, hold, reduceCtorEq, false_and, exists_false, iff_false]
      rw [hr]
      by_cases hk : k = B.type
      · subst hk
        rw [Function.update_self]
        intro hm
        have hm' := List.mem_of_mem_erase hm
        obtain ⟨B', hB', -, hn⟩ := (hw.registered _ _ _).1 hm'
        obtain rfl : B = B' := Option.some.inj (hb.symm.trans hB')
        subst hn
        exact (hw.nodup _).not_mem_erase hm
      · rw [Function.update_of_ne hk]
        intro hm
        obtain ⟨B', hB', ht, -⟩ := (hw.registered _ _ _).1 hm
        obtain rfl : B = B' := Option.some.inj (hb.symm.trans hB')
        exact hk ht.symm
    · rw [same (by rw [h, Function.update_of_ne hab]), ← hw.registered, hr]
      by_cases hk : k = B.type
      · subst hk
        rw [Function.update_self, List.mem_erase_of_ne (by simp [hab])]
      · rw [Function.update_of_ne hk]

theorem nodup_step (hw : Wf w) (ha : AwaitStep w w') (k : AwaitType) : (w'.registry k).Nodup := by
  cases ha with
  | keep _ hr => exact hr ▸ hw.nodup k
  | edit _ _ _ hr => exact hr ▸ hw.nodup k
  | @create b B pos hb h _ hr =>
    rw [hr]
    by_cases hk : k = B.type
    · subst hk
      rw [Function.update_self, Multimap.nodup_insertAt]
      refine ⟨fun hm => ?_, hw.nodup _⟩
      obtain ⟨A, hA, -⟩ := (hw.registered _ _ _).1 hm
      rw [hb] at hA
      cases hA
    · rw [Function.update_of_ne hk]
      exact hw.nodup k
  | @destroy b B hb h _ hr =>
    rw [hr]
    by_cases hk : k = B.type
    · subst hk
      rw [Function.update_self]
      exact (hw.nodup _).erase _
    · rw [Function.update_of_ne hk]
      exact hw.nodup k

/-- Nothing is created: the queues stay as they are. -/
theorem queue_old (hw : Wf w) (hq : w'.nextQueue = w.nextQueue)
    (old : ∀ a A', w'.awaits a = some A' → ∃ A, w.awaits a = some A ∧ A.Keeps A') :
    (∀ a b A B, w'.awaits a = some A → w'.awaits b = some B → A.type = .shared →
      B.type = .shared → (A.sharedQueue = B.sharedQueue ↔ A.waitMessageName = B.waitMessageName)) ∧
    ∀ a A, w'.awaits a = some A → A.type = .shared → A.sharedQueue < w'.nextQueue := by
  constructor
  · intro a b A' B' hA' hB' hA hB
    obtain ⟨A, ha, hkA⟩ := old a A' hA'
    obtain ⟨B, hb, hkB⟩ := old b B' hB'
    rw [hkA.sharedQueue, hkB.sharedQueue, hkA.name, hkB.name]
    exact hw.queue_iff a b A B ha hb (hkA.type ▸ hA) (hkB.type ▸ hB)
  · intro a A' hA' hA
    obtain ⟨A, ha, hk⟩ := old a A' hA'
    rw [hk.sharedQueue, hq]
    exact hw.queue_lt a A ha (hk.type ▸ hA)

theorem queue_step (hw : Wf w) (ha : AwaitStep w w') :
    (∀ a b A B, w'.awaits a = some A → w'.awaits b = some B → A.type = .shared →
      B.type = .shared → (A.sharedQueue = B.sharedQueue ↔ A.waitMessageName = B.waitMessageName)) ∧
    ∀ a A, w'.awaits a = some A → A.type = .shared → A.sharedQueue < w'.nextQueue := by
  have back := @ha.backward
  cases ha with
  | keep h _ hq => exact hw.queue_old hq fun a A' hA' => ⟨A', h ▸ hA', .refl A'⟩
  | @edit b B B' hb h _ _ hq | @destroy b B hb h _ _ _ _ _ _ hq =>
    -- no await is new
    refine hw.queue_old hq fun a A' hA' => (back hA').resolve_right ?_
    rintro ⟨hn, -⟩
    by_cases hab : a = b
    · rw [hab, hb] at hn
      cases hn
    · rw [h, Function.update_of_ne hab, hn] at hA'
      cases hA'
  | @create b B pos hb h _ hr hl hd _ hq =>
    have split : ∀ {a A}, w'.awaits a = some A → A = B ∨ w.awaits a = some A := by
      intro a A hA
      by_cases hab : a = b
      · rw [h, hab, Function.update_self, Option.some.injEq] at hA
        exact .inl hA.symm
      · exact .inr (by rwa [h, Function.update_of_ne hab] at hA)
    -- the new await against an old one
    have fresh : B.type = .shared → ∀ {a A}, w.awaits a = some A → A.type = .shared →
        (B.sharedQueue = A.sharedQueue ↔ B.waitMessageName = A.waitMessageName) := by
      intro hB a A hA hty
      rcases hq with ⟨hns, -⟩ | ⟨⟨e, E, hE, hEt, hEn, hEq⟩, -⟩ | ⟨hno, hnq, -⟩
      · exact absurd hB hns
      · rw [hEq, ← hEn]
        exact hw.queue_iff e a E A hE hA hEt hty
      · refine ⟨fun he => ?_, fun he => absurd ⟨A, hA, hty, he.symm⟩ (hno a)⟩
        have := hw.queue_lt a A hA hty
        rw [← he, hnq] at this
        exact absurd this (Nat.lt_irrefl _)
    refine ⟨fun a₁ a₂ A₁ A₂ h₁ h₂ t₁ t₂ => ?_, fun a A hA hty => ?_⟩
    · rcases split h₁ with rfl | h₁ <;> rcases split h₂ with rfl | h₂
      · simp
      · exact fresh t₁ h₂ t₂
      · rw [eq_comm, fresh t₂ h₁ t₁, eq_comm]
      · exact hw.queue_iff a₁ a₂ A₁ A₂ h₁ h₂ t₁ t₂
    · have hle : w.nextQueue ≤ w'.nextQueue := by
        rcases hq with ⟨-, he⟩ | ⟨-, he⟩ | ⟨-, -, he⟩
        · exact Nat.le_of_eq he.symm
        · exact Nat.le_of_eq he.symm
        · exact he ▸ Nat.le_succ _
      rcases split hA with rfl | hA
      · rcases hq with ⟨hns, -⟩ | ⟨⟨e, E, hE, hEt, hEn, hEq⟩, he⟩ | ⟨-, hnq, he⟩
        · exact absurd hty hns
        · rw [hEq]
          exact Nat.lt_of_lt_of_le (hw.queue_lt e E hE hEt) hle
        · rw [hnq, he]
          exact Nat.lt_succ_self _
      · exact Nat.lt_of_lt_of_le (hw.queue_lt a A hA hty) hle

/-- **One step.** -/
theorem step (hw : Wf w) (ht : Trans w act w') : Wf w' := by
  have ha := hw.awaitStep ht
  have hq := hw.queue_step ha
  refine ⟨hw.registered_step ha, hw.nodup_step ha, ?_, ?_, ?_, ?_, hq.1, hq.2⟩
  · intro a A' h hA' hh
    rcases ha.backward hA' with ⟨A, hA, hk⟩ | ⟨-, hf, -⟩
    · rw [hk.owner]
      rcases hk.handle with he | he
      · exact hw.handle_owner a A h hA (he ▸ hh)
      · exact Option.some.inj (hh.symm.trans he)
    · rw [hf.handle] at hh
      cases hh
  · intro c a hc
    obtain ⟨A, hA, rfl⟩ : ∃ A, w.awaits a = some A ∧ A.owner = c := by
      rcases ht.ctl_at hc with h | h
      · exact hw.at_await c a h
      · exact h
    rcases ha.forward hA with ⟨A', hA', hk⟩ | ⟨-, -, -, hn, -⟩
    · exact ⟨A', hA', hk.owner⟩
    · rw [hn] at hc
      cases hc
  · intro d k p hk hp a hs
    rcases ht.scanned hk hp hs with ⟨hk', hp', hs'⟩ | ⟨hm, he⟩
    · exact ha.live hk' (hw.scanning d k p hk' hp' a hs')
    · obtain ⟨A, hA, h⟩ := (hw.registered _ _ _).1 hm
      exact ⟨A, he ▸ hA, h⟩
  · intro d k p first a rest s h hd hs
    rcases ht.visit_handle hd hs with ⟨s₀, hd₀, hs₀⟩ | ⟨-, A, hA, hh, he⟩
    · obtain ⟨A, hA, hh⟩ := hw.visit_handle d k p first a rest s₀ h hd₀ hs₀
      have hin : (w.disp d).inPhase k = true := by rw [hd₀]; simp [DispPc.inPhase]
      have hlive := hw.scanning d k p hin (by rw [hd₀]; rfl) a (by rw [hd₀]; simp [DispPc.scanned])
      obtain ⟨A', hA', -⟩ := ha.live hin hlive
      rcases ha.forward hA with ⟨A'', hA'', hk⟩ | ⟨hn, -⟩
      · exact ⟨A'', hA'', hk.handle_eq (fun h' => hw.handle_owner a A h' hA) hh⟩
      · rw [hn] at hA'
        cases hA'
    · exact ⟨A, he ▸ hA, hh⟩

end Wf

/-- The objects are well formed in every reachable state. -/
theorem wf_of_reachable {ok : World → Action → Prop} (h : Reachable ok w) : Wf w :=
  h.invariant (I := Wf) Wf.init fun _ _ _ _ ih _ hs => ih.step (trans_of_step hs)

/-! ### Which statements belong to which kind of await -/

/-- The statement occurs in the delivery to an await of kind `k`. -/
def VisitPc.ofKind (k : AwaitType) : VisitPc → Bool
  | .enqueue _ => decide (k = .normal)
  | .writeData _ => decide (k ≠ .normal)
  | .loadTimer | .pushRemove _ => decide (k = .temp)
  | .enter | .loadState _ | .loadAwait _ | .storeState _ | .pushQueue _ => true

/-- The place is one that `dispatch_message` can reach. -/
def DispPc.ofKind : DispPc → Bool
  | .visit k _ _ _ _ s => s.ofKind k
  | .fetch | .lock _ _ | .sharedPush _ _ => true

@[simp] theorem DispPc.ofKind_after (p : Packet) (k : AwaitType) :
    (DispPc.after p k).ofKind = true := by
  cases k <;> rfl

@[simp] theorem DispPc.ofKind_next (k : AwaitType) (p : Packet) (first : Addr)
    (rest : List Addr) : (DispPc.next k p first rest).ofKind = true := by
  cases rest <;> cases k <;> rfl

theorem Trans.ofKind (ht : Trans w act w') (h : ∀ d, (w.disp d).ofKind = true) (d : Dispatcher) :
    (w'.disp d).ofKind = true := by
  rcases ht.disp_eq d with he | ⟨i, rfl⟩
  · rw [he]
    exact h d
  cases ht with
  | fetch | lockSome | enqueue | writeData | storeState | sharedPush =>
    simp [DispPc.ofKind, VisitPc.ofKind]
  | lockNone | skip | stateOther | awaitOther | noTimer | pushRemove => simp
  | enter _ _ _ hs | stateStop _ _ _ hs | awaitThis _ _ _ hs =>
    simp only [Function.update_self, DispPc.ofKind]
    grind [VisitPc.ofKind]
  | pushQueue _ _ hpc =>
    simp only [Function.update_self]
    rcases hpc with ⟨-, rfl⟩ | ⟨-, rfl⟩ | ⟨rfl, rfl⟩
    · rfl
    · simp
    · rfl
  | loadTimer hd =>
    have := h d
    rw [hd] at this
    simpa [DispPc.ofKind, VisitPc.ofKind] using this

/-- The dispatchers only reach places of their own code. -/
theorem ofKind_of_reachable {ok : World → Action → Prop} (h : Reachable ok w) (d : Dispatcher) :
    (w.disp d).ofKind = true :=
  h.invariant (I := fun w => ∀ d, (w.disp d).ofKind = true) (fun _ => rfl)
    (fun _ _ _ _ ih _ hs => (trans_of_step hs).ofKind ih) d

/-- The statement occurs only in `MessageAwait::await_resume`. -/
def ResumePc.ofNormal : ResumePc → Bool
  | .loadSuspend | .dequeue | .clearSuspend => true
  | .state | .ret => false

/-- A coroutine is at such a statement only in a `MessageAwait`. -/
theorem normal_of_resuming {ok : World → Action → Prop} (h : Reachable ok w) :
    ∀ c a s A, w.ctl c = .resuming a s → s.ofNormal = true → w.awaits a = some A →
      A.type = .normal := by
  refine h.invariant (I := fun w => ∀ c a s A, w.ctl c = .resuming a s → s.ofNormal = true →
    w.awaits a = some A → A.type = .normal) ?_ ?_
  · intro c a s A hc
    rcases World.init_ctl c with h | ⟨-, h⟩ <;> rw [h] at hc <;> cases hc
  intro w act w' hr ih _ hs c a s A' hc hn ha'
  have ht := trans_of_step hs
  have hw := wf_of_reachable hr
  obtain ⟨A, ha, -⟩ : ∃ A, w.awaits a = some A ∧ A.owner = c := by
    rcases ht.ctl_at (by rw [hc]; rfl) with h | h
    · exact hw.at_await c a h
    · exact h
  rw [(hw.keeps ht ha ha').type]
  rcases ht.ctl_from c with he | hm
  · exact ih c a s A (he ▸ hc) hn ha
  rw [hc] at hm
  generalize hx : w.ctl c = x at hm
  cases hm with
  | ready _ hb _ hty =>
    obtain rfl := Option.some.inj (ha.symm.trans hb)
    exact hty
  | resume _ _ hb he =>
    obtain rfl := Option.some.inj (ha.symm.trans hb)
    by_contra hty
    simp [he, hty, ResumePc.ofNormal] at hn
  | loadSuspend | dequeue => exact ih c a _ A hx rfl ha
  | readyShared | clearSuspend | storeRuning => cases hn

end DataProxy
