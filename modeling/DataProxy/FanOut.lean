import DataProxy.Iteration

/-!
# The fan-out of a message

What one iteration of `dispatch_message` comes to, said without its loops: who is written to, whose
queue grows and who is resumed are read off the state in which the iteration starts
(`World.fanOut`).

The three blocks write the states of the coroutines as they go, and a coroutine may own awaits that
come later.  It is stopped on one await at most, though, the one in `promise.await`; so a delivery
changes no other await's answer to the question whether its coroutine is stopped on it
(`stoppedOn_deliver`), and deliveries add up (`deliver_deliver`).
-/

namespace DataProxy

open Function (update)

variable {w w' : World} {d : Dispatcher} {i : ℕ} {k : AwaitType} {p : Packet} {m : InternalMessage}
  {first a b : Addr} {rest l : List Addr} {s : VisitPc} {A : Await} {h : CoId}

namespace World

/-! ### What the awaits say -/

variable (w : World)

/-- `handle_` of the await at `a`. -/
def handleAt (a : Addr) : Option CoId := (w.awaits a).bind Await.handle

/-- The coroutine is stopped on the await at `a`: `handle_` is set, its `promise.await` is the
await, and its `promise.state_` is `StopState`. -/
def stoppedOn (a : Addr) : Bool :=
  (w.handleAt a).any fun h =>
    decide ((w.promise h).await = some a ∧ (w.promise h).state = .stopState)

/-- `filter_(m) || is_timeout_msg(m)` of the await at `a`. -/
def qualifies (m : InternalMessage) (a : Addr) : Bool :=
  (w.awaits a).any fun A => A.filter m || m.isTimeoutMsg

/-- What `resume_coroutine` pushes for the await at `a`. -/
def entryAt (a : Addr) : Option CoEntry :=
  (w.awaits a).bind fun A => A.handle.map fun h =>
    { executor := A.coExecutor, handle := h, priority := A.waitCoPriority }

/-- What `remove_timer` pushes for the await at `a`. -/
def removalAt (a : Addr) : Option Packet :=
  (w.awaits a).bind fun A => if 0 < A.timerId then some { msg := removeTimerMsg A.timerId } else none

/-- `queue_` of the `SharedMessageAwait` at `a`. -/
def queueAt (a : Addr) : Option QueueId := (w.awaits a).map Await.sharedQueue

/-- `equal_range` of the name of `m`, in the map of `k`. -/
def range (k : AwaitType) (m : InternalMessage) : List Addr :=
  Multimap.equalRange (w.registry k) m.name

end World

/-- The bus as it may be found: every await in a map is alive, is there under its own name, in the
map of its kind and once; and the `SharedMessageAwait`s of a name have one queue.  Nothing is said
of the coroutines. -/
structure Registered (w : World) : Prop where
  live : ∀ k n a, (n, a) ∈ w.registry k → w.Live k n a
  nodup : ∀ k, (w.registry k).Nodup
  queue : ∀ n a b, (n, a) ∈ w.registry .shared → (n, b) ∈ w.registry .shared →
    w.queueAt a = w.queueAt b

/-- The same, with nothing said of the queues. -/
structure Listed (w : World) : Prop where
  live : ∀ k n a, (n, a) ∈ w.registry k → w.Live k n a
  nodup : ∀ k, (w.registry k).Nodup

theorem Registered.listed (hb : Registered w) : Listed w := ⟨hb.live, hb.nodup⟩

/-- Every reachable state is such a bus. -/
theorem Wf.bus (hw : Wf w) : Registered w where
  live k n a h := (hw.registered k n a).1 h
  nodup := hw.nodup
  queue n a b ha hb := by
    obtain ⟨A, hA, htyA, hnA⟩ := (hw.registered _ _ _).1 ha
    obtain ⟨B, hB, htyB, hnB⟩ := (hw.registered _ _ _).1 hb
    have hq := (hw.queue_iff a b A B hA hB htyA htyB).2 (hnA.trans hnB.symm)
    simp [World.queueAt, hA, hB, hq]

/-! ### Deliveries -/

/-- What deliveries of a message do: the awaits whose `data_` is written, those whose `queue_` gets
a copy, those whose coroutine is resumed, in order, and those on which `remove_timer` is called. -/
structure Deliveries where
  data : List Addr := []
  queue : List Addr := []
  resumed : List Addr := []
  removal : List Addr := []

instance : Append Deliveries where
  append D E :=
    { data := D.data ++ E.data, queue := D.queue ++ E.queue, resumed := D.resumed ++ E.resumed
      removal := D.removal ++ E.removal }

/-- The state after deliveries of `m`. -/
def World.deliver (w : World) (m : InternalMessage) (D : Deliveries) : World :=
  { w with
    awaits := fun a => (w.awaits a).map fun A =>
      { A with
        data := if a ∈ D.data then m else A.data
        queue := if a ∈ D.queue then A.queue ++ [m] else A.queue }
    promise := fun c =>
      if c ∈ D.resumed.filterMap w.handleAt then { w.promise c with state := .queueResume }
      else w.promise c
    coQueue := w.coQueue ++ D.resumed.filterMap w.entryAt
    busQueue := update w.busQueue .normal
      (w.busQueue .normal ++ D.removal.filterMap w.removalAt) }

/-- The `SharedMessageAwait` that gets the message: the first whose coroutine is stopped on it. -/
def World.firstStopped (w : World) (m : InternalMessage) : Option Addr :=
  (w.range .shared m).find? w.stoppedOn

/-- The `TempMessageAwait`s that get the message. -/
def World.matched (w : World) (m : InternalMessage) : List Addr :=
  (w.range .temp m).filter fun a => w.stoppedOn a && w.qualifies m a

/-- The deliveries of one iteration. -/
def World.deliveries (w : World) (m : InternalMessage) : Deliveries where
  data := (w.firstStopped m).toList ++ w.matched m
  queue := (w.range .normal m).filter fun a => (w.handleAt a).isSome
  resumed := (w.firstStopped m).toList ++ (w.range .normal m).filter w.stoppedOn ++ w.matched m
  removal := w.matched m

/-- **The fan-out of `m`**: the deliveries and, where some `SharedMessageAwait` has the name and no
coroutine is stopped on one, a copy at the end of their queue. -/
def World.fanOut (w : World) (m : InternalMessage) : World :=
  { w.deliver m (w.deliveries m) with
    sharedQueues := fun q =>
      if w.firstStopped m = none ∧ q ∈ (w.range .shared m).filterMap w.queueAt then
        w.sharedQueues q ++ [m]
      else w.sharedQueues q }

/-- The shared queues after the first block: the copy goes to the queue of the first await. -/
def World.sharedPushed (w : World) (m : InternalMessage) : QueueId → List InternalMessage :=
  fun q =>
    if w.firstStopped m = none ∧ (w.range .shared m).head?.bind w.queueAt = some q then
      w.sharedQueues q ++ [m]
    else w.sharedQueues q

/-- The fan-out, with nothing known of the queues. -/
def World.dispatched (w : World) (m : InternalMessage) : World :=
  { w.deliver m (w.deliveries m) with sharedQueues := w.sharedPushed m }

/-! ### How deliveries compose -/

attribute [ext] World

section

variable {D E : Deliveries}

@[simp] theorem Deliveries.append_data : (D ++ E).data = D.data ++ E.data := rfl
@[simp] theorem Deliveries.append_queue : (D ++ E).queue = D.queue ++ E.queue := rfl
@[simp] theorem Deliveries.append_resumed : (D ++ E).resumed = D.resumed ++ E.resumed := rfl
@[simp] theorem Deliveries.append_removal : (D ++ E).removal = D.removal ++ E.removal := rfl

@[simp] theorem handleAt_deliver : (w.deliver m D).handleAt = w.handleAt := by
  funext a
  cases ha : w.awaits a <;> simp [World.handleAt, World.deliver, ha]

@[simp] theorem entryAt_deliver : (w.deliver m D).entryAt = w.entryAt := by
  funext a
  cases ha : w.awaits a <;> simp [World.entryAt, World.deliver, ha]

@[simp] theorem removalAt_deliver : (w.deliver m D).removalAt = w.removalAt := by
  funext a
  cases ha : w.awaits a <;> simp [World.removalAt, World.deliver, ha]

@[simp] theorem qualifies_deliver : (w.deliver m D).qualifies = w.qualifies := by
  funext m' a
  cases ha : w.awaits a <;> simp [World.qualifies, World.deliver, ha]

theorem promise_deliver_of_mem {c : CoId} (hc : c ∈ D.resumed.filterMap w.handleAt) :
    (w.deliver m D).promise c = { w.promise c with state := .queueResume } := if_pos hc

theorem promise_deliver_of_notMem {c : CoId} (hc : c ∉ D.resumed.filterMap w.handleAt) :
    (w.deliver m D).promise c = w.promise c := if_neg hc

theorem awaits_deliver_ne_none (ha : w.awaits a ≠ none) : (w.deliver m D).awaits a ≠ none := by
  simpa [World.deliver] using ha

theorem deliver_nil (w : World) (m : InternalMessage) : w.deliver m {} = w := by
  simp [World.deliver]

/-- Deliveries to different queues add up. -/
theorem deliver_deliver (hq : List.Disjoint D.queue E.queue) :
    (w.deliver m D).deliver m E = w.deliver m (D ++ E) := by
  have haw : ((w.deliver m D).deliver m E).awaits = (w.deliver m (D ++ E)).awaits := by
    funext a
    cases ha : w.awaits a with
    | none => simp [World.deliver, ha]
    | some A =>
      have hd : ¬(a ∈ D.queue ∧ a ∈ E.queue) := fun h => hq h.1 h.2
      simp only [World.deliver, ha, Option.map_some, Deliveries.append_data,
        Deliveries.append_queue, List.mem_append]
      by_cases h₁ : a ∈ D.queue <;> by_cases h₂ : a ∈ E.queue <;> grind
  have hpr : ((w.deliver m D).deliver m E).promise = (w.deliver m (D ++ E)).promise := by
    funext c
    show (if c ∈ E.resumed.filterMap (w.deliver m D).handleAt then _ else _) = _
    rw [handleAt_deliver]
    simp only [World.deliver, Deliveries.append_resumed, List.filterMap_append, List.mem_append]
    by_cases h₁ : c ∈ D.resumed.filterMap w.handleAt <;>
      by_cases h₂ : c ∈ E.resumed.filterMap w.handleAt <;> simp [h₁, h₂]
  have hco : ((w.deliver m D).deliver m E).coQueue = (w.deliver m (D ++ E)).coQueue := by
    show (w.deliver m D).coQueue ++ E.resumed.filterMap (w.deliver m D).entryAt = _
    rw [entryAt_deliver]
    simp [World.deliver]
  have hbus : ((w.deliver m D).deliver m E).busQueue = (w.deliver m (D ++ E)).busQueue := by
    show update (w.deliver m D).busQueue .normal ((w.deliver m D).busQueue .normal ++
      E.removal.filterMap (w.deliver m D).removalAt) = _
    rw [removalAt_deliver]
    simp [World.deliver]
  exact World.ext hpr rfl rfl haw rfl rfl rfl hbus rfl rfl hco rfl rfl rfl rfl rfl rfl rfl

/-- A delivery says nothing about the coroutines stopped on other awaits. -/
theorem stoppedOn_deliver (hD : ∀ a ∈ D.resumed, w.stoppedOn a = true) (hb : b ∉ D.resumed) :
    (w.deliver m D).stoppedOn b = w.stoppedOn b := by
  unfold World.stoppedOn
  rw [handleAt_deliver]
  cases hh : w.handleAt b with
  | none => rfl
  | some h =>
    by_cases hmem : h ∈ D.resumed.filterMap w.handleAt
    · -- it is stopped on another await, so it was not on this one
      obtain ⟨a, ha, hah⟩ := List.mem_filterMap.1 hmem
      have hst := hD a ha
      rw [World.stoppedOn, hah] at hst
      have haw : (w.promise h).await = some a := (of_decide_eq_true hst).1
      have hab : a ≠ b := by
        rintro rfl
        exact hb ha
      rw [Option.any_some, Option.any_some, promise_deliver_of_mem hmem]
      simp [haw, hab]
    · rw [Option.any_some, Option.any_some, promise_deliver_of_notMem hmem]

end

/-! ### One statement -/

section

/-- The dispatcher `d` stands at `pc`. -/
def World.setDisp (w : World) (d : Dispatcher) (pc : DispPc) : World :=
  { w with disp := update w.disp d pc }

@[simp] theorem setDisp_disp (pc : DispPc) : (w.setDisp d pc).disp d = pc :=
  Function.update_self ..

theorem awaits_deliver (ha : w.awaits a = some A) (D : Deliveries)
    (hD : ∀ b ≠ a, b ∉ D.data ∧ b ∉ D.queue) :
    (w.deliver m D).awaits = update w.awaits a (some { A with
      data := if a ∈ D.data then m else A.data
      queue := if a ∈ D.queue then A.queue ++ [m] else A.queue }) := by
  funext b
  by_cases hb : b = a
  · subst hb
    simp [World.deliver, ha]
  · simp [World.deliver, hb, hD b hb]

theorem deliver_queue (ha : w.awaits a = some A) :
    w.deliver m { queue := [a] } =
      { w with awaits := update w.awaits a (some { A with queue := A.queue ++ [m] }) } := by
  have haw := awaits_deliver (m := m) ha { queue := [a] } (by simp)
  simp_all [World.deliver]

theorem deliver_data (ha : w.awaits a = some A) :
    w.deliver m { data := [a] } =
      { w with awaits := update w.awaits a (some { A with data := m }) } := by
  have haw := awaits_deliver (m := m) ha { data := [a] } (by simp)
  simp_all [World.deliver]

theorem deliver_resumed (ha : w.awaits a = some A) (hh : A.handle = some h) :
    w.deliver m { resumed := [a] } =
      { w with
        promise := update w.promise h { w.promise h with state := .queueResume }
        coQueue := w.coQueue ++
          [{ executor := A.coExecutor, handle := h, priority := A.waitCoPriority }] } := by
  have hat : w.handleAt a = some h := by simp [World.handleAt, ha, hh]
  have hpr : (w.deliver m { resumed := [a] }).promise =
      update w.promise h { w.promise h with state := .queueResume } := by
    funext c
    by_cases hc : c = h
    · subst hc
      simp [World.deliver, hat]
    · simp [World.deliver, hat, hc]
  have hen : w.entryAt a =
      some { executor := A.coExecutor, handle := h, priority := A.waitCoPriority } := by
    simp [World.entryAt, ha, hh]
  simp_all [World.deliver]

theorem deliver_removal (ha : w.awaits a = some A) :
    w.deliver m { removal := [a] } =
      if 0 < A.timerId then w.enqueueBus .normal { msg := removeTimerMsg A.timerId } else w := by
  split <;> simp [World.deliver, World.removalAt, World.enqueueBus, *]

variable {u : World}

/-- The next statement of a visit. -/
theorem Attains.visit (hf : w.fault = none) (ha : w.awaits a = some A)
    (hu : Attains d ((w.setDisp d (.visit k p first a rest s)).visitStep d k p first a rest A s) u) :
    Attains d (w.setDisp d (.visit k p first a rest s)) u := by
  have hs : (w.setDisp d (.visit k p first a rest s)).dispatchStep d 0 =
      some ((w.setDisp d (.visit k p first a rest s)).visitStep d k p first a rest A s) := by
    simp only [World.dispatchStep, setDisp_disp]
    show (w.awaits a).map _ = _
    rw [ha, Option.map_some]
  exact .next hf (by simp) hs hu

/-- A statement that changes nothing. -/
theorem Attains.move (hf : w.fault = none) (ha : w.awaits a = some A) {pc : DispPc}
    (hv : (w.setDisp d (.visit k p first a rest s)).visitStep d k p first a rest A s =
      w.setDisp d pc) :
    Attains d (w.setDisp d (.visit k p first a rest s)) (w.setDisp d pc) :=
  .visit hf ha (.refl (by rw [hv]))

/-- `queue_.enqueue`. -/
theorem attains_enqueue (hf : w.fault = none) (ha : w.awaits a = some A) :
    Attains d (w.setDisp d (.visit k p first a rest (.enqueue h)))
      ((w.deliver p.msg { queue := [a] }).setDisp d (.visit k p first a rest (.loadState h))) := by
  refine .visit hf ha (.refl ?_)
  rw [deliver_queue ha]
  simp [World.visitStep, World.setDisp, World.bare]

/-- `data_ = data`. -/
theorem attains_writeData (hf : w.fault = none) (ha : w.awaits a = some A) :
    Attains d (w.setDisp d (.visit k p first a rest (.writeData h)))
      ((w.deliver p.msg { data := [a] }).setDisp d (.visit k p first a rest (.storeState h))) := by
  refine .visit hf ha (.refl ?_)
  rw [deliver_data ha]
  simp [World.visitStep, World.setDisp, World.bare]

/-- `resume_coroutine`. -/
theorem attains_resumeCoroutine (hf : w.fault = none) (ha : w.awaits a = some A)
    (hh : A.handle = some h) :
    Attains d (w.setDisp d (.visit k p first a rest (.storeState h)))
      ((w.deliver m { resumed := [a] }).setDisp d
        (match k with
          | .shared => .after p .shared
          | .normal => .next k p first rest
          | .temp => .visit k p first a rest .loadTimer)) := by
  have hstore : Attains d (w.setDisp d (.visit k p first a rest (.storeState h)))
      (World.setDisp { w with
        promise := update w.promise h { w.promise h with state := .queueResume } } d
        (.visit k p first a rest (.pushQueue h))) := by
    refine .visit hf ha (.refl ?_)
    simp [World.visitStep, World.setDisp, World.bare, bare_endWait]
  refine hstore.trans (.visit hf ha (.refl ?_))
  rw [deliver_resumed ha hh]
  cases k <;> simp [World.visitStep, World.setDisp, World.bare]

/-- `data_ = data` and `resume_coroutine`. -/
theorem attains_hand (hf : w.fault = none) (ha : w.awaits a = some A) (hh : A.handle = some h) :
    Attains d (w.setDisp d (.visit k p first a rest (.writeData h)))
      ((w.deliver p.msg { data := [a], resumed := [a] }).setDisp d
        (match k with
          | .shared => .after p .shared
          | .normal => .next k p first rest
          | .temp => .visit k p first a rest .loadTimer)) := by
  obtain ⟨A', ha', hh'⟩ : ∃ A', (w.deliver p.msg { data := [a] }).awaits a = some A' ∧
      A'.handle = some h := ⟨{ A with data := p.msg }, by simp [World.deliver, ha], hh⟩
  have hD : w.deliver p.msg { data := [a], resumed := [a] } =
      (w.deliver p.msg { data := [a] }).deliver p.msg { resumed := [a] } := by
    rw [deliver_deliver (List.disjoint_nil_left _)]
    rfl
  rw [hD]
  exact (attains_writeData hf ha).trans (attains_resumeCoroutine hf ha' hh')

/-- `remove_timer`. -/
theorem attains_removeTimer (hf : w.fault = none) (ha : w.awaits a = some A) :
    Attains d (w.setDisp d (.visit k p first a rest .loadTimer))
      ((w.deliver m { removal := [a] }).setDisp d (.next k p first rest)) := by
  rw [deliver_removal ha]
  by_cases ht : 0 < A.timerId
  · have hload : Attains d (w.setDisp d (.visit k p first a rest .loadTimer))
        (w.setDisp d (.visit k p first a rest (.pushRemove A.timerId))) :=
      .move hf ha (by simp [World.visitStep, World.setDisp, ht])
    refine hload.trans (.visit hf ha (.refl ?_))
    simp [World.visitStep, World.setDisp, World.enqueueBus, ht]
  · refine .visit hf ha (.refl ?_)
    simp [World.visitStep, World.setDisp, ht]

/-- The first of the two checks succeeds: of `promise.await` in `resume_one_coroutine`, of
`promise.state_` in `push_message`. -/
theorem attains_firstCheck (hf : w.fault = none) (ha : w.awaits a = some A)
    (hc : if k = .shared then (w.promise h).await = some a else (w.promise h).state = .stopState) :
    Attains d (w.setDisp d (.visit k p first a rest
        (if k = .shared then .loadAwait h else .loadState h)))
      (w.setDisp d (.visit k p first a rest
        (if k = .shared then .loadState h else .loadAwait h))) := by
  apply Attains.move hf ha
  cases k <;> simp_all [World.visitStep, World.setDisp]

/-- Both checks succeed. -/
theorem attains_stopped (hf : w.fault = none) (ha : w.awaits a = some A) (hh : A.handle = some h)
    (hs : w.stoppedOn a = true) :
    Attains d (w.setDisp d (.visit k p first a rest
        (if k = .shared then .loadAwait h else .loadState h)))
      (w.setDisp d (.visit k p first a rest
        (if k = .normal then .storeState h else .writeData h))) := by
  obtain ⟨hat, hst⟩ : (w.promise h).await = some a ∧ (w.promise h).state = .stopState := by
    simpa [World.stoppedOn, World.handleAt, ha, hh] using hs
  refine (attains_firstCheck hf ha (by simp [hat, hst])).trans (.move hf ha ?_)
  cases k <;> simp [World.visitStep, World.setDisp, hat, hst]

/-- One of the checks fails. -/
theorem attains_notStopped (hf : w.fault = none) (ha : w.awaits a = some A) (hh : A.handle = some h)
    (hs : w.stoppedOn a = false) :
    Attains d (w.setDisp d (.visit k p first a rest
        (if k = .shared then .loadAwait h else .loadState h)))
      (w.setDisp d (.next k p first rest)) := by
  have hno : (w.promise h).await = some a → (w.promise h).state ≠ .stopState := by
    simpa [World.stoppedOn, World.handleAt, ha, hh] using hs
  by_cases hc : if k = .shared then (w.promise h).await = some a
    else (w.promise h).state = .stopState
  · refine (attains_firstCheck hf ha hc).trans (.move hf ha ?_)
    cases k <;> simp_all [World.visitStep, World.setDisp]
  · apply Attains.move hf ha
    cases k <;> simp_all [World.visitStep, World.setDisp]

end

/-! ### One visit -/

/-- The deliveries of the block of `k` to the awaits of `l`. -/
def World.visited (w : World) (m : InternalMessage) (l : List Addr) : AwaitType → Deliveries
  | .shared =>
    { data := (l.find? w.stoppedOn).toList, resumed := (l.find? w.stoppedOn).toList }
  | .normal =>
    { queue := l.filter fun a => (w.handleAt a).isSome, resumed := l.filter w.stoppedOn }
  | .temp =>
    { data := l.filter fun a => w.stoppedOn a && w.qualifies m a
      resumed := l.filter fun a => w.stoppedOn a && w.qualifies m a
      removal := l.filter fun a => w.stoppedOn a && w.qualifies m a }

theorem stoppedOn_of_handle_none (ha : w.awaits a = some A) (hh : A.handle = none) :
    w.stoppedOn a = false := by
  simp [World.stoppedOn, World.handleAt, ha, hh]

/-- `resume_one_coroutine` returns true. -/
theorem attains_resumeOne (hf : w.fault = none) (ha : w.awaits a = some A)
    (hs : w.stoppedOn a = true) :
    Attains d (w.setDisp d (.visit .shared p first a rest .enter))
      ((w.deliver p.msg { data := [a], resumed := [a] }).setDisp d (.after p .shared)) := by
  cases hh : A.handle with
  | none =>
    rw [stoppedOn_of_handle_none ha hh] at hs
    cases hs
  | some h =>
    have henter : Attains d (w.setDisp d (.visit .shared p first a rest .enter))
        (w.setDisp d (.visit .shared p first a rest (.loadAwait h))) :=
      .move hf ha (by simp [World.visitStep, World.setDisp, hh])
    exact henter.trans ((attains_stopped hf ha hh hs).trans (attains_hand hf ha hh))

/-- `resume_one_coroutine` returns false. -/
theorem attains_resumeNone (hf : w.fault = none) (ha : w.awaits a = some A)
    (hs : w.stoppedOn a = false) :
    Attains d (w.setDisp d (.visit .shared p first a rest .enter))
      (w.setDisp d (.next .shared p first rest)) := by
  cases hh : A.handle with
  | none => exact .move hf ha (by simp [World.visitStep, World.setDisp, hh])
  | some h =>
    have henter : Attains d (w.setDisp d (.visit .shared p first a rest .enter))
        (w.setDisp d (.visit .shared p first a rest (.loadAwait h))) :=
      .move hf ha (by simp [World.visitStep, World.setDisp, hh])
    exact henter.trans (attains_notStopped hf ha hh hs)

/-- `MessageAwait::push_message`. -/
theorem attains_pushNormal (hf : w.fault = none) (ha : w.awaits a = some A) :
    Attains d (w.setDisp d (.visit .normal p first a rest .enter))
      ((w.deliver p.msg (w.visited p.msg [a] .normal)).setDisp d (.next .normal p first rest)) := by
  cases hh : A.handle with
  | none =>
    have hD : w.visited p.msg [a] .normal = {} := by
      simp [World.visited, World.handleAt, ha, hh, stoppedOn_of_handle_none ha hh]
    rw [hD, deliver_nil]
    exact .move hf ha (by simp [World.visitStep, World.setDisp, hh])
  | some h =>
    have hat : w.handleAt a = some h := by simp [World.handleAt, ha, hh]
    have henter : Attains d (w.setDisp d (.visit .normal p first a rest .enter))
        (w.setDisp d (.visit .normal p first a rest (.enqueue h))) :=
      .move hf ha (by simp [World.visitStep, World.setDisp, hh])
    obtain ⟨A', ha', hh'⟩ : ∃ A', (w.deliver p.msg { queue := [a] }).awaits a = some A' ∧
        A'.handle = some h :=
      ⟨{ A with queue := A.queue ++ [p.msg] }, by simp [World.deliver, ha], hh⟩
    have hf' : (w.deliver p.msg { queue := [a] }).fault = none := hf
    have hst : (w.deliver p.msg { queue := [a] }).stoppedOn a = w.stoppedOn a :=
      stoppedOn_deliver (by simp) (by simp)
    cases hs : w.stoppedOn a with
    | false =>
      have hD : w.visited p.msg [a] .normal = { queue := [a] } := by
        simp [World.visited, hat, hs]
      rw [hD]
      exact henter.trans ((attains_enqueue hf ha).trans
        (attains_notStopped hf' ha' hh' (hst.trans hs)))
    | true =>
      have hD : w.deliver p.msg (w.visited p.msg [a] .normal) =
          (w.deliver p.msg { queue := [a] }).deliver p.msg { resumed := [a] } := by
        rw [deliver_deliver (List.disjoint_nil_right _)]
        simp only [World.visited, List.filter_singleton, hat, hs]
        rfl
      rw [hD]
      exact henter.trans ((attains_enqueue hf ha).trans
        ((attains_stopped hf' ha' hh' (hst.trans hs)).trans (attains_resumeCoroutine hf' ha' hh')))

/-- `TempMessageAwait::push_message`. -/
theorem attains_pushTemp (hf : w.fault = none) (ha : w.awaits a = some A) :
    Attains d (w.setDisp d (.visit .temp p first a rest .enter))
      ((w.deliver p.msg (w.visited p.msg [a] .temp)).setDisp d (.next .temp p first rest)) := by
  have hpass : (w.stoppedOn a && w.qualifies p.msg a) = false →
      w.deliver p.msg (w.visited p.msg [a] .temp) = w := by
    intro hno
    have hD : w.visited p.msg [a] .temp = {} := by simp [World.visited, hno]
    rw [hD, deliver_nil]
  have hql : w.qualifies p.msg a = (A.filter p.msg || p.msg.isTimeoutMsg) := by
    simp [World.qualifies, ha]
  cases hh : A.handle with
  | none =>
    rw [hpass (by simp [stoppedOn_of_handle_none ha hh])]
    exact .move hf ha (by simp [World.visitStep, World.setDisp, hh])
  | some h =>
    cases hq : w.qualifies p.msg a with
    | false =>
      rw [hpass (by simp [hq])]
      exact .move hf ha (by simp [World.visitStep, World.setDisp, hh, ← hql, hq])
    | true =>
      have henter : Attains d (w.setDisp d (.visit .temp p first a rest .enter))
          (w.setDisp d (.visit .temp p first a rest (.loadState h))) :=
        .move hf ha (by simp [World.visitStep, World.setDisp, hh, ← hql, hq])
      cases hs : w.stoppedOn a with
      | false =>
        rw [hpass (by simp [hs])]
        exact henter.trans (attains_notStopped hf ha hh hs)
      | true =>
        have hD : w.deliver p.msg (w.visited p.msg [a] .temp) =
            (w.deliver p.msg { data := [a], resumed := [a] }).deliver p.msg
              { removal := [a] } := by
          rw [deliver_deliver (List.disjoint_nil_left _)]
          simp only [World.visited, List.filter_singleton, hq, hs]
          rfl
        obtain ⟨A', ha'⟩ : ∃ A', (w.deliver p.msg { data := [a], resumed := [a] }).awaits a =
            some A' := ⟨_, by simp [World.deliver, ha]; rfl⟩
        rw [hD]
        exact henter.trans ((attains_stopped hf ha hh hs).trans
          ((attains_hand hf ha hh).trans (attains_removeTimer hf ha')))

/-- `push_message` of either kind. -/
theorem attains_pushMessage (hk : k ≠ .shared) (hf : w.fault = none) (ha : w.awaits a ≠ none) :
    Attains d (w.setDisp d (.visit k p first a rest .enter))
      ((w.deliver p.msg (w.visited p.msg [a] k)).setDisp d (.next k p first rest)) := by
  obtain ⟨A, ha⟩ := Option.ne_none_iff_exists'.1 ha
  cases k with
  | shared => exact absurd rfl hk
  | normal => exact attains_pushNormal hf ha
  | temp => exact attains_pushTemp hf ha

/-! ### One block -/

theorem mem_of_mem_visited_resumed (hb : b ∈ (w.visited m l k).resumed) :
    b ∈ l ∧ w.stoppedOn b = true := by
  cases k with
  | shared =>
    have hfind : l.find? w.stoppedOn = some b := by simpa [World.visited] using hb
    exact ⟨List.mem_of_find?_eq_some hfind, List.find?_some hfind⟩
  | normal => simpa [World.visited] using hb
  | temp =>
    have hmem : b ∈ l ∧ w.stoppedOn b = true ∧ w.qualifies m b = true := by
      simpa [World.visited] using hb
    exact ⟨hmem.1, hmem.2.1⟩

theorem mem_of_mem_visited_queue (hb : b ∈ (w.visited m l k).queue) : b ∈ l := by
  cases k with
  | normal => exact List.mem_of_mem_filter hb
  | _ => simp [World.visited] at hb

theorem visited_cons (hk : k ≠ .shared) :
    w.visited m (a :: l) k = w.visited m [a] k ++ w.visited m l k := by
  have hfilter : ∀ f : Addr → Bool, (a :: l).filter f = [a].filter f ++ l.filter f :=
    fun f => List.filter_append [a] l
  cases k with
  | shared => exact absurd rfl hk
  | normal | temp =>
    simp only [World.visited, hfilter]
    rfl

/-- What is done for some awaits changes nothing for others. -/
theorem visited_deliver (hk : k ≠ .shared) {D : Deliveries}
    (hD : ∀ a ∈ D.resumed, w.stoppedOn a = true) (hl : ∀ b ∈ l, b ∉ D.resumed) :
    (w.deliver m D).visited m l k = w.visited m l k := by
  have hst : ∀ b ∈ l, (w.deliver m D).stoppedOn b = w.stoppedOn b :=
    fun b hb => stoppedOn_deliver hD (hl b hb)
  cases k with
  | shared => exact absurd rfl hk
  | normal =>
    simp only [World.visited, handleAt_deliver, List.filter_congr hst]
  | temp =>
    have hboth : ∀ b ∈ l, ((w.deliver m D).stoppedOn b && w.qualifies m b) =
        (w.stoppedOn b && w.qualifies m b) := fun b hb => by rw [hst b hb]
    simp only [World.visited, qualifies_deliver, List.filter_congr hboth]

/-- The loop over a range, for `MessageAwait`s and for `TempMessageAwait`s. -/
theorem attains_loop (hk : k ≠ .shared) (hf : w.fault = none) (hnd : (a :: rest).Nodup)
    (hl : ∀ b ∈ a :: rest, w.awaits b ≠ none) :
    Attains d (w.setDisp d (.visit k p first a rest .enter))
      ((w.deliver p.msg (w.visited p.msg (a :: rest) k)).setDisp d (.after p k)) := by
  induction rest generalizing w a with
  | nil =>
    have hpush : Attains d (w.setDisp d (.visit k p first a [] .enter))
        ((w.deliver p.msg (w.visited p.msg [a] k)).setDisp d (.next k p first [])) :=
      attains_pushMessage hk hf (hl a List.mem_cons_self)
    simpa [DispPc.next, hk] using hpush
  | cons b rest ih =>
    obtain ⟨hab, hnd'⟩ := List.nodup_cons.1 hnd
    have hpush : Attains d (w.setDisp d (.visit k p first a (b :: rest) .enter))
        ((w.deliver p.msg (w.visited p.msg [a] k)).setDisp d (.visit k p first b rest .enter)) :=
      attains_pushMessage hk hf (hl a List.mem_cons_self)
    have hsep : ∀ c ∈ b :: rest, c ∉ [a] := by
      intro c hc hca
      rw [List.mem_singleton.1 hca] at hc
      exact hab hc
    have hvis : (w.deliver p.msg (w.visited p.msg [a] k)).visited p.msg (b :: rest) k =
        w.visited p.msg (b :: rest) k :=
      visited_deliver hk (fun c hc => (mem_of_mem_visited_resumed hc).2)
        fun c hc hca => hsep c hc (mem_of_mem_visited_resumed hca).1
    have hloop := ih (w := w.deliver p.msg (w.visited p.msg [a] k)) hf hnd'
      fun c hc => awaits_deliver_ne_none (hl c (List.mem_cons_of_mem _ hc))
    rw [hvis, deliver_deliver fun c hc hc' =>
      hsep c (mem_of_mem_visited_queue hc') (mem_of_mem_visited_queue hc), ← visited_cons hk]
      at hloop
    exact hpush.trans hloop

/-- The lock is taken and some await of the name is found. -/
theorem attains_lock (hf : w.fault = none) (hr : w.range k p.msg = a :: rest) :
    Attains d (w.setDisp d (.lock k p)) (w.setDisp d (.visit k p a a rest .enter)) := by
  have hrange : Multimap.equalRange (w.registry k) p.msg.name = a :: rest := hr
  have hs : (w.setDisp d (.lock k p)).dispatchStep d 0 = some { w.setDisp d (.lock k p) with
      disp := update (w.setDisp d (.lock k p)).disp d (.visit k p a a rest .enter)
      trace := if k = .shared then .sharedDispatched p.msg :: w.trace else w.trace } := by
    simp only [World.dispatchStep, setDisp_disp]
    simp [World.setDisp, hrange]
  exact .next hf (by simp) hs (.refl (by simp [World.setDisp, World.bare]))

/-- The lock is taken and no await of the name is found. -/
theorem attains_lock_nil (hf : w.fault = none) (hr : w.range k p.msg = []) :
    Attains d (w.setDisp d (.lock k p)) (w.setDisp d (.after p k)) := by
  have hrange : Multimap.equalRange (w.registry k) p.msg.name = [] := hr
  have hs : (w.setDisp d (.lock k p)).dispatchStep d 0 = some (w.setDisp d (.after p k)) := by
    simp only [World.dispatchStep, setDisp_disp]
    simp [World.setDisp, hrange]
  exact .next hf (by simp) hs (.refl rfl)

/-- The second block and the third. -/
theorem attains_block (hk : k ≠ .shared) (hf : w.fault = none) (hnd : (w.range k p.msg).Nodup)
    (hl : ∀ b ∈ w.range k p.msg, w.awaits b ≠ none) :
    Attains d (w.setDisp d (.lock k p))
      ((w.deliver p.msg (w.visited p.msg (w.range k p.msg) k)).setDisp d (.after p k)) := by
  cases hr : w.range k p.msg with
  | nil =>
    have hD : w.visited p.msg [] k = {} := by cases k <;> simp [World.visited]
    rw [hD, deliver_nil]
    exact attains_lock_nil hf hr
  | cons a rest =>
    rw [hr] at hnd hl
    exact (attains_lock hf hr).trans (attains_loop hk hf hnd hl)

/-- The loop over the `SharedMessageAwait`s stops at the first whose coroutine is stopped on it. -/
theorem attains_sharedLoop (hf : w.fault = none) (hl : ∀ b ∈ a :: rest, w.awaits b ≠ none) :
    Attains d (w.setDisp d (.visit .shared p first a rest .enter))
      (match (a :: rest).find? w.stoppedOn with
        | some b => (w.deliver p.msg { data := [b], resumed := [b] }).setDisp d (.after p .shared)
        | none => w.setDisp d (.sharedPush p first)) := by
  obtain ⟨A, ha⟩ := Option.ne_none_iff_exists'.1 (hl a List.mem_cons_self)
  induction rest generalizing a A with
  | nil =>
    cases hs : w.stoppedOn a with
    | true => simpa [hs] using attains_resumeOne hf ha hs
    | false =>
      have hnone : Attains d (w.setDisp d (.visit .shared p first a [] .enter))
        (w.setDisp d (.next .shared p first [])) := attains_resumeNone hf ha hs
      simpa [hs, DispPc.next] using hnone
  | cons b rest ih =>
    cases hs : w.stoppedOn a with
    | true => simpa [hs] using attains_resumeOne hf ha hs
    | false =>
      have hnone : Attains d (w.setDisp d (.visit .shared p first a (b :: rest) .enter))
        (w.setDisp d (.visit .shared p first b rest .enter)) := attains_resumeNone hf ha hs
      obtain ⟨B, hB⟩ := Option.ne_none_iff_exists'.1 (hl b (by simp))
      rw [List.find?_cons_of_neg (by simp [hs])]
      exact hnone.trans (ih (fun c hc => hl c (List.mem_cons_of_mem _ hc)) B hB)

/-- `range.first->second->push_message(data)`. -/
theorem attains_sharedPush (hf : w.fault = none) (ha : w.awaits first = some A) :
    Attains d (w.setDisp d (.sharedPush p first))
      (World.setDisp { w with
        sharedQueues := update w.sharedQueues A.sharedQueue
          (w.sharedQueues A.sharedQueue ++ [p.msg]) } d (.after p .shared)) := by
  have hs : (w.setDisp d (.sharedPush p first)).dispatchStep d 0 =
      some (World.setDisp { w with
        sharedQueues := update w.sharedQueues A.sharedQueue
          (w.sharedQueues A.sharedQueue ++ [p.msg]) } d (.after p .shared)) := by
    simp only [World.dispatchStep, setDisp_disp]
    simp [World.setDisp, ha]
  exact .next hf (by simp) hs (.refl rfl)

/-- The state after the first block. -/
def World.sharedBlock (w : World) (m : InternalMessage) : World :=
  { w.deliver m (w.visited m (w.range .shared m) .shared) with
    sharedQueues := (w.fanOut m).sharedQueues }

theorem Listed.mem_range (hb : Listed w) (ha : a ∈ w.range k m) : w.Live k m.name a :=
  hb.live _ _ _ (Multimap.mem_equalRange.1 ha)

theorem Listed.awaits_ne_none (hb : Listed w) (ha : a ∈ w.range k m) : w.awaits a ≠ none := by
  obtain ⟨A, hA, -⟩ := hb.mem_range ha
  simp [hA]

/-- The first block. -/
theorem Listed.attains_firstBlock (hb : Listed w) (hf : w.fault = none) :
    Attains d (w.setDisp d (.lock .shared p))
      (World.setDisp { w.deliver p.msg (w.visited p.msg (w.range .shared p.msg) .shared) with
        sharedQueues := w.sharedPushed p.msg } d (.after p .shared)) := by
  cases hr : w.range .shared p.msg with
  | nil =>
    have hD : w.visited p.msg [] .shared = {} := rfl
    have hq : w.sharedPushed p.msg = w.sharedQueues := by
      funext q
      simp [World.sharedPushed, hr]
    rw [hD, hq, deliver_nil]
    exact attains_lock_nil hf hr
  | cons a rest =>
    have hl : ∀ b ∈ a :: rest, w.awaits b ≠ none := fun b hbr => hb.awaits_ne_none (hr ▸ hbr)
    obtain ⟨A, ha⟩ := Option.ne_none_iff_exists'.1 (hl a List.mem_cons_self)
    have hloop := (attains_lock (d := d) hf hr).trans (attains_sharedLoop hf hl)
    cases hfind : (a :: rest).find? w.stoppedOn with
    | some b =>
      have hD : w.visited p.msg (a :: rest) .shared = { data := [b], resumed := [b] } := by
        simp [World.visited, hfind]
      have hq : w.sharedPushed p.msg = w.sharedQueues := by
        funext q
        simp [World.sharedPushed, World.firstStopped, hr, hfind]
      rw [hfind] at hloop
      rw [hD, hq]
      exact hloop
    | none =>
      have hD : w.visited p.msg (a :: rest) .shared = {} := by
        simp [World.visited, hfind]
      have hq : w.sharedPushed p.msg =
          update w.sharedQueues A.sharedQueue (w.sharedQueues A.sharedQueue ++ [p.msg]) := by
        funext q
        by_cases hq : q = A.sharedQueue
        · subst hq
          simp [World.sharedPushed, World.firstStopped, World.queueAt, hr, hfind, ha]
        · simp [World.sharedPushed, World.queueAt, hr, ha, hq, Ne.symm hq]
      rw [hfind] at hloop
      rw [hD, deliver_nil, hq]
      exact hloop.trans (attains_sharedPush hf ha)

/-- The awaits of a name have one queue, so it is theirs that grows. -/
theorem Registered.sharedQueues_fanOut (hb : Registered w) :
    (w.fanOut m).sharedQueues = w.sharedPushed m := by
  have hmem : ∀ q, q ∈ (w.range .shared m).filterMap w.queueAt ↔
      (w.range .shared m).head?.bind w.queueAt = some q := by
    intro q
    cases hr : w.range .shared m with
    | nil => simp
    | cons a rest =>
      have mem : ∀ {b}, b ∈ a :: rest → (m.name, b) ∈ w.registry .shared :=
        fun hb => Multimap.mem_equalRange.1 (hr ▸ hb : _ ∈ w.range .shared m)
      show _ ↔ w.queueAt a = some q
      constructor
      · intro hq
        obtain ⟨b, hbr, hbq⟩ := List.mem_filterMap.1 hq
        rw [hb.queue m.name a b (mem List.mem_cons_self) (mem hbr), hbq]
      · intro hq
        exact List.mem_filterMap.2 ⟨a, List.mem_cons_self, hq⟩
  funext q
  simp only [World.fanOut, World.sharedPushed, hmem]

theorem Registered.attains_sharedBlock (hb : Registered w) (hf : w.fault = none) :
    Attains d (w.setDisp d (.lock .shared p))
      ((w.sharedBlock p.msg).setDisp d (.after p .shared)) := by
  rw [World.sharedBlock, hb.sharedQueues_fanOut]
  exact hb.listed.attains_firstBlock hf

/-! ### The iteration -/

theorem deliveries_eq (w : World) (m : InternalMessage) :
    w.visited m (w.range .shared m) .shared ++ w.visited m (w.range .normal m) .normal ++
      w.visited m (w.range .temp m) .temp = w.deliveries m := by
  have hsplit : ∀ D E : Deliveries, D ++ E =
      { data := D.data ++ E.data, queue := D.queue ++ E.queue, resumed := D.resumed ++ E.resumed
        removal := D.removal ++ E.removal } := fun _ _ => rfl
  simp [hsplit, World.deliveries, World.visited, World.firstStopped, World.matched]

/-- An await is in the map of its kind only. -/
theorem Listed.range_disjoint (hb : Listed w) {k' : AwaitType} (hk : k ≠ k')
    (ha : a ∈ w.range k m) : a ∉ w.range k' m := by
  intro ha'
  obtain ⟨A, hA, hty, -⟩ := hb.mem_range ha
  obtain ⟨B, hB, hty', -⟩ := hb.mem_range ha'
  obtain rfl := Option.some.inj (hA.symm.trans hB)
  exact hk (hty.symm.trans hty')

/-- A later block, after deliveries to awaits of other kinds. -/
theorem Listed.attains_block_deliver (hb : Listed w) (hf : w.fault = none)
    (hk : k ≠ .shared) {D : Deliveries} {S : QueueId → List InternalMessage}
    (hD : ∀ a ∈ D.resumed, w.stoppedOn a = true) (hr : ∀ a ∈ w.range k p.msg, a ∉ D.resumed)
    (hq : ∀ a ∈ w.range k p.msg, a ∉ D.queue) :
    Attains d (World.setDisp { w.deliver p.msg D with sharedQueues := S } d (.lock k p))
      (World.setDisp { w.deliver p.msg (D ++ w.visited p.msg (w.range k p.msg) k) with
        sharedQueues := S } d (.after p k)) := by
  have hvis : (w.deliver p.msg D).visited p.msg (w.range k p.msg) k =
      w.visited p.msg (w.range k p.msg) k := visited_deliver hk hD hr
  have hblock : Attains d (World.setDisp { w.deliver p.msg D with sharedQueues := S } d (.lock k p))
      (World.setDisp { (w.deliver p.msg D).deliver p.msg
        ((w.deliver p.msg D).visited p.msg (w.range k p.msg) k) with sharedQueues := S } d
        (.after p k)) :=
    attains_block hk hf (Multimap.nodup_equalRange (hb.nodup k) _)
      fun b hbr => awaits_deliver_ne_none (hb.awaits_ne_none hbr)
  rwa [hvis, deliver_deliver fun a ha ha' => hq a (mem_of_mem_visited_queue ha') ha] at hblock

/-- The two blocks after the first, whatever it has done to the shared queues. -/
theorem Listed.attains_blocks (hb : Listed w) (hf : w.fault = none)
    {S : QueueId → List InternalMessage}
    (hfirst : Attains d (w.setDisp d (.lock .shared p))
      (World.setDisp { w.deliver p.msg (w.visited p.msg (w.range .shared p.msg) .shared) with
        sharedQueues := S } d (.after p .shared))) :
    Attains d (w.setDisp d (.lock .shared p))
      (World.setDisp { w.deliver p.msg (w.deliveries p.msg) with sharedQueues := S } d .fetch) := by
  have hsecond : Attains d (World.setDisp
      { w.deliver p.msg (w.visited p.msg (w.range .shared p.msg) .shared) with
        sharedQueues := S } d (.lock .normal p)) _ :=
    hb.attains_block_deliver hf (by decide) (fun a ha => (mem_of_mem_visited_resumed ha).2)
      (fun a ha ha' => hb.range_disjoint (by decide) ha (mem_of_mem_visited_resumed ha').1)
      fun a ha ha' => hb.range_disjoint (by decide) ha (mem_of_mem_visited_queue ha')
  refine hfirst.trans (hsecond.trans ?_)
  have hthird := hb.attains_block_deliver (d := d) (p := p) (k := .temp)
    (D := w.visited p.msg (w.range .shared p.msg) .shared ++
      w.visited p.msg (w.range .normal p.msg) .normal) (S := S) hf (by decide) ?_ ?_ ?_
  · rw [deliveries_eq] at hthird
    exact hthird
  · intro a ha
    rcases List.mem_append.1 ha with ha | ha <;> exact (mem_of_mem_visited_resumed ha).2
  · intro a ha ha'
    rcases List.mem_append.1 ha' with ha' | ha' <;>
      exact hb.range_disjoint (by decide) ha (mem_of_mem_visited_resumed ha').1
  · intro a ha ha'
    rcases List.mem_append.1 ha' with ha' | ha' <;>
      exact hb.range_disjoint (by decide) ha (mem_of_mem_visited_queue ha')

/-- Every coroutine resumed is stopped on the await it is resumed for. -/
theorem stoppedOn_of_mem_deliveries (ha : a ∈ (w.deliveries m).resumed) : w.stoppedOn a = true := by
  rw [← deliveries_eq] at ha
  rcases List.mem_append.1 ha with ha | ha
  · rcases List.mem_append.1 ha with ha | ha <;> exact (mem_of_mem_visited_resumed ha).2
  · exact (mem_of_mem_visited_resumed ha).2

theorem Listed.visited_nodup (hb : Listed w) (k : AwaitType) :
    (w.visited m (w.range k m) k).resumed.Nodup := by
  have hnd : (w.range k m).Nodup := Multimap.nodup_equalRange (hb.nodup k) _
  cases k with
  | shared =>
    unfold World.visited
    cases (w.range .shared m).find? w.stoppedOn <;> simp
  | normal | temp => exact hnd.filter _

theorem Listed.deliveries_nodup (hb : Listed w) : (w.deliveries m).resumed.Nodup := by
  have hsep : ∀ {k k'}, k ≠ k' → List.Disjoint (w.visited m (w.range k m) k).resumed
      (w.visited m (w.range k' m) k').resumed := fun hk a ha ha' =>
    hb.range_disjoint hk (mem_of_mem_visited_resumed ha).1 (mem_of_mem_visited_resumed ha').1
  rw [← deliveries_eq]
  refine List.Nodup.append (List.Nodup.append (hb.visited_nodup _) (hb.visited_nodup _)
    (hsep (by decide))) (hb.visited_nodup _) ?_
  exact List.disjoint_append_left.2 ⟨hsep (by decide), hsep (by decide)⟩

/-- No coroutine is resumed twice, whatever awaits it owns. -/
theorem Listed.resumed_once (hb : Listed w) :
    ((w.deliveries m).resumed.filterMap w.handleAt).Nodup := by
  refine List.pairwise_filterMap.2 (hb.deliveries_nodup.imp_of_mem ?_)
  rintro a b ha hb' hab h hah _ hbh rfl
  have hsa := stoppedOn_of_mem_deliveries ha
  have hsb := stoppedOn_of_mem_deliveries hb'
  simp only [World.stoppedOn, hah, hbh, Option.any_some, decide_eq_true_eq] at hsa hsb
  exact hab (Option.some.inj (hsa.1.symm.trans hsb.1))

/-- `try_dequeue` of the element at `i`. -/
def World.tryDequeue (w : World) (d : Dispatcher) (i : ℕ) : World :=
  { w with busQueue := update w.busQueue d ((w.busQueue d).eraseIdx i) }

/-- An iteration from what the dispatcher attains once it has the message. -/
theorem iterates_of_attains {v : World} (hf : w.fault = none) (hs : w.stop = false)
    (hd : w.disp d = .fetch) (hp : (w.busQueue d)[i]? = some p) (hv : v.disp = w.disp)
    (h : Attains d ((w.tryDequeue d i).setDisp d (.lock .shared p)) (v.setDisp d .fetch)) :
    (∃! w', Iterates d i w w') ∧ ∀ w', Iterates d i w w' → w'.bare = v.bare := by
  have hfetch : step w (.dispatch d i) =
      some ((w.tryDequeue d i).setDisp d (.lock .shared p)) := by
    simp [step, hf, World.dispatchStep, hd, hs, hp, World.setDisp, World.tryDequeue]
  obtain ⟨w', hreach, hbare⟩ := h
  have hend : w'.disp d = .fetch := by
    have hdisp : w'.bare.disp = _ := congrArg World.disp hbare
    exact (congrFun hdisp d).trans (setDisp_disp _)
  have hit : Iterates d i w w' := ⟨hd, _, hfetch, hreach, hend⟩
  have hback : v.setDisp d .fetch = v := by
    have hdisp : update v.disp d .fetch = v.disp := by rw [← hd, ← hv, Function.update_eq_self]
    rw [World.setDisp, hdisp]
  refine ⟨⟨w', hit, fun v hv => hv.unique hit⟩, fun v hv => ?_⟩
  rw [hv.unique hit, hbare, hback]

/-- An iteration, with nothing known of the shared queues. -/
theorem Listed.iterates (hb : Listed w) (hf : w.fault = none) (hs : w.stop = false)
    (hd : w.disp d = .fetch) (hp : (w.busQueue d)[i]? = some p) :
    (∃! w', Iterates d i w w') ∧
      ∀ w', Iterates d i w w' → w'.bare = ((w.tryDequeue d i).dispatched p.msg).bare := by
  have hb₀ : Listed (w.tryDequeue d i) := ⟨hb.live, hb.nodup⟩
  have hdisp : ((w.tryDequeue d i).dispatched p.msg).disp = w.disp := rfl
  exact iterates_of_attains hf hs hd hp hdisp (hb₀.attains_blocks hf (hb₀.attains_firstBlock hf))

/-- **One dispatch is its fan-out.**  From every state of the bus and for every message that
`try_dequeue` may give, the iteration comes to its end, in one state, and that state is the fan-out
of the message; no coroutine is pushed twice. -/
theorem iterates_fanOut (hb : Registered w) (hf : w.fault = none) (hs : w.stop = false)
    (hd : w.disp d = .fetch) (hp : (w.busQueue d)[i]? = some p) :
    (∃! w', Iterates d i w w') ∧
      (∀ w', Iterates d i w w' → w'.bare =
        (World.fanOut { w with busQueue := update w.busQueue d ((w.busQueue d).eraseIdx i) }
          p.msg).bare) ∧
      ((w.deliveries p.msg).resumed.filterMap w.handleAt).Nodup := by
  have hb₀ : Registered (w.tryDequeue d i) := ⟨hb.live, hb.nodup, hb.queue⟩
  have hfan : Attains d _ (((w.tryDequeue d i).fanOut p.msg).setDisp d .fetch) :=
    hb₀.listed.attains_blocks hf (hb₀.attains_sharedBlock hf)
  have hdisp : ((w.tryDequeue d i).fanOut p.msg).disp = w.disp := rfl
  obtain ⟨hex, hbare⟩ := iterates_of_attains hf hs hd hp hdisp hfan
  exact ⟨hex, hbare, hb.listed.resumed_once⟩

/-- Three coroutines stop, each on an await of another kind, and a message of their name comes. -/
def threeKinds : List Action :=
  [Action.start 1, .body 1 (.createTemp 6 0 "n" 10 (fun _ => true) 0), .body 1 (.coAwait 6),
    .run 1 0, .run 1 0, .late 0] ++
  [Action.start 2, .body 2 (.createShared 5 0 "n" 10 0), .body 2 (.coAwait 5), .run 2 0, .run 2 0,
    .late 0] ++
  [Action.start 3, .body 3 (.createMessage 7 0 "n" 10 0), .body 3 (.coAwait 7), .run 3 0, .run 3 0,
    .run 3 0, .late 0, .push { name := "n" }]

theorem iterates_fanOut_threeKinds : ∃ w : World,
    (w.busQueue .normal)[0]? = some { msg := { name := "n" } } ∧
      (w.deliveries { name := "n" }).resumed = [5, 7, 6] ∧ (∃! w', Iterates .normal 0 w w') ∧
      (∀ w', Iterates .normal 0 w w' → w'.bare =
        (World.fanOut
          { w with busQueue := update w.busQueue .normal ((w.busQueue .normal).eraseIdx 0) }
          { name := "n" }).bare) ∧
      ((w.deliveries { name := "n" }).resumed.filterMap w.handleAt).Nodup := by
  have hrun : (Run.exec step World.init threeKinds).any (fun w => decide
      (w.fault = none ∧ w.stop = false ∧ w.disp .normal = .fetch ∧
        (w.busQueue .normal)[0]? = some { msg := { name := "n" } } ∧
        (w.deliveries { name := "n" }).resumed = [5, 7, 6])) = true := by
    decide +kernel
  obtain ⟨w, hr, hf, hs, hd, hp, hres⟩ := Run.exists_reach_of_exec hrun
  have hfan := iterates_fanOut (wf_of_reachable hr).bus hf hs hd hp
  exact ⟨w, hp, hres, hfan⟩

end DataProxy
