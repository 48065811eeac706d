import DataProxy.FanOut
import DataProxy.Lib.Bag
import Mathlib.Algebra.Order.Group.Multiset
import Mathlib.Data.List.Find

/-!
# Dispatches one after the other

What one dispatch leaves for the next.  The next one reads `handle_`, `promise.state_`,
`promise.await`, the filters and the timer ids of the awaits of its own name.  A dispatch of another
name writes none of them but `promise.state_`, and that only of coroutines stopped on awaits of the
other name (`deliveries_dispatched`).  So the deliveries of two messages with different names are
the same in both orders, and what is left to compare is in which order they were made.
-/

namespace DataProxy

open Function (update)

variable {w w' v : World} {d d₁ d₂ : Dispatcher} {i : ℕ} {k : AwaitType} {p p₁ p₂ : Packet}
  {m m' : InternalMessage} {a b : Addr} {D E : Deliveries}

/-- One dispatch of `p` by `d` without interruption. -/
def Dispatches (d : Dispatcher) (p : Packet) (w w' : World) : Prop :=
  ∃ i, (w.busQueue d)[i]? = some p ∧ Iterates d i w w'

/-- The bus between two dispatches. -/
structure Serving (w : World) : Prop extends Listed w where
  fault : w.fault = none
  stop : w.stop = false

/-! ### Without the ghosts -/

@[simp] theorem handleAt_bare : w.bare.handleAt = w.handleAt := by
  funext a
  cases ha : w.awaits a <;> simp [World.handleAt, World.bare, Await.bare, ha]

@[simp] theorem stoppedOn_bare : w.bare.stoppedOn = w.stoppedOn := by
  funext a
  unfold World.stoppedOn
  rw [handleAt_bare]
  rfl

@[simp] theorem qualifies_bare : w.bare.qualifies = w.qualifies := by
  funext m a
  cases ha : w.awaits a <;> simp [World.qualifies, World.bare, Await.bare, ha]

@[simp] theorem entryAt_bare : w.bare.entryAt = w.entryAt := by
  funext a
  cases ha : w.awaits a <;> simp [World.entryAt, World.bare, Await.bare, ha]

@[simp] theorem removalAt_bare : w.bare.removalAt = w.removalAt := by
  funext a
  cases ha : w.awaits a <;> simp [World.removalAt, World.bare, Await.bare, ha]

@[simp] theorem queueAt_bare : w.bare.queueAt = w.queueAt := by
  funext a
  cases ha : w.awaits a <;> simp [World.queueAt, World.bare, Await.bare, ha]

theorem range_bare : w.bare.range = w.range := rfl

@[simp] theorem firstStopped_bare : w.bare.firstStopped m = w.firstStopped m := by
  simp [World.firstStopped, range_bare]

@[simp] theorem deliveries_bare : w.bare.deliveries m = w.deliveries m := by
  simp [World.deliveries, World.matched, range_bare]

theorem sharedPushed_bare : w.bare.sharedPushed m = w.sharedPushed m := by
  funext q
  simp only [World.sharedPushed, firstStopped_bare, range_bare, queueAt_bare]
  rfl

theorem deliver_bare : (w.deliver m D).bare = w.bare.deliver m D := by
  have haw : (w.deliver m D).bare.awaits = (w.bare.deliver m D).awaits := by
    funext a
    cases ha : w.awaits a <;> simp [World.deliver, World.bare, Await.bare, ha]
  have hpr : (w.deliver m D).bare.promise = (w.bare.deliver m D).promise := by
    simp only [World.deliver, handleAt_bare]
    rfl
  have hco : (w.deliver m D).bare.coQueue = (w.bare.deliver m D).coQueue := by
    simp only [World.deliver, entryAt_bare]
    rfl
  have hbus : (w.deliver m D).bare.busQueue = (w.bare.deliver m D).busQueue := by
    simp only [World.deliver, removalAt_bare]
    rfl
  exact World.ext hpr rfl rfl haw rfl rfl rfl hbus rfl rfl hco rfl rfl rfl rfl rfl rfl rfl

/-- A dispatch reads no ghost and writes none. -/
theorem dispatched_bare : (w.dispatched m).bare = w.bare.dispatched m := by
  have hdel := deliver_bare (w := w) (m := m) (D := w.deliveries m)
  unfold World.dispatched
  rw [deliveries_bare, sharedPushed_bare, ← hdel]
  rfl

theorem live_bare {n : String} : w.bare.Live k n a ↔ w.Live k n a := by
  cases ha : w.awaits a <;> simp [World.Live, World.bare, Await.bare, ha]

theorem listed_bare : Listed w.bare ↔ Listed w := by
  constructor
  · intro h
    exact ⟨fun k n a hm => live_bare.1 (h.live k n a hm), h.nodup⟩
  · intro h
    exact ⟨fun k n a hm => live_bare.2 (h.live k n a hm), h.nodup⟩

/-! ### What a dispatch leaves alone -/

theorem handleAt_dispatched : (w.dispatched m).handleAt = w.handleAt :=
  handleAt_deliver (w := w) (m := m) (D := w.deliveries m)

theorem removalAt_dispatched : (w.dispatched m).removalAt = w.removalAt :=
  removalAt_deliver (w := w) (m := m) (D := w.deliveries m)

theorem qualifies_dispatched : (w.dispatched m).qualifies = w.qualifies :=
  qualifies_deliver (w := w) (m := m) (D := w.deliveries m)

theorem queueAt_dispatched : (w.dispatched m).queueAt = w.queueAt := by
  funext a
  cases ha : w.awaits a <;> simp [World.queueAt, World.dispatched, World.deliver, ha]

theorem live_dispatched {n : String} : (w.dispatched m).Live k n a ↔ w.Live k n a := by
  cases ha : w.awaits a <;> simp [World.Live, World.dispatched, World.deliver, ha]

theorem Listed.dispatched (hb : Listed w) : Listed (w.dispatched m) :=
  ⟨fun k n a h => live_dispatched.2 (hb.live k n a h), hb.nodup⟩

/-- Every coroutine resumed is resumed for an await of the name. -/
theorem mem_range_of_mem_resumed (ha : a ∈ (w.deliveries m).resumed) : ∃ k, a ∈ w.range k m := by
  rw [← deliveries_eq] at ha
  rcases List.mem_append.1 ha with ha | ha
  · rcases List.mem_append.1 ha with ha | ha
    · exact ⟨_, (mem_of_mem_visited_resumed ha).1⟩
    · exact ⟨_, (mem_of_mem_visited_resumed ha).1⟩
  · exact ⟨_, (mem_of_mem_visited_resumed ha).1⟩

theorem mem_resumed_of_mem_data (ha : a ∈ (w.deliveries m).data) :
    a ∈ (w.deliveries m).resumed := by
  rcases List.mem_append.1 ha with ha | ha
  · exact List.mem_append_left _ (List.mem_append_left _ ha)
  · exact List.mem_append_right _ ha

/-- An await has one name. -/
theorem Listed.notMem_range (hb : Listed w) {k' : AwaitType} (hne : m.name ≠ m'.name)
    (ha : a ∈ w.range k m) : a ∉ w.range k' m' := by
  intro ha'
  obtain ⟨A, hA, -, hn⟩ := hb.mem_range ha
  obtain ⟨B, hB, -, hn'⟩ := hb.mem_range ha'
  obtain rfl := Option.some.inj (hA.symm.trans hB)
  exact hne (hn.symm.trans hn')

theorem Listed.notMem_resumed (hb : Listed w) (hne : m.name ≠ m'.name) (ha : a ∈ w.range k m') :
    a ∉ (w.deliveries m).resumed := by
  intro hmem
  obtain ⟨k', hk'⟩ := mem_range_of_mem_resumed hmem
  exact hb.notMem_range hne hk' ha

/-- Whether a coroutine is stopped on an await is left alone by a dispatch of another name, also
where the coroutine owns awaits of both. -/
theorem Listed.stoppedOn_dispatched (hb : Listed w) (hne : m.name ≠ m'.name)
    (ha : a ∈ w.range k m') : (w.dispatched m).stoppedOn a = w.stoppedOn a :=
  stoppedOn_deliver (m := m) (fun _ h => stoppedOn_of_mem_deliveries h) (hb.notMem_resumed hne ha)

theorem Listed.firstStopped_dispatched (hb : Listed w) (hne : m.name ≠ m'.name) :
    (w.dispatched m).firstStopped m' = w.firstStopped m' :=
  List.find?_congr fun _ ha => hb.stoppedOn_dispatched hne ha

/-- **The deliveries of a message are those it had before the dispatch of another name.** -/
theorem Listed.deliveries_dispatched (hb : Listed w) (hne : m.name ≠ m'.name) :
    (w.dispatched m).deliveries m' = w.deliveries m' := by
  have hmatched : (w.dispatched m).matched m' = w.matched m' := by
    refine List.filter_congr fun a ha => ?_
    rw [hb.stoppedOn_dispatched hne ha, qualifies_dispatched]
  have hnormal : ((w.dispatched m).range .normal m').filter (w.dispatched m).stoppedOn =
      (w.range .normal m').filter w.stoppedOn :=
    List.filter_congr fun a ha => hb.stoppedOn_dispatched hne ha
  unfold World.deliveries
  rw [hmatched, hnormal, hb.firstStopped_dispatched hne, handleAt_dispatched]
  rfl

/-! ### Deliveries in both orders -/

/-- What is to be compared: the awaits, the shared queues and the coroutines, and the executors' and
the bus's queues up to their order. -/
structure SameUpToOrder (w v : World) : Prop where
  awaits : ∀ a, (w.awaits a).map Await.bare = (v.awaits a).map Await.bare
  sharedQueues : w.sharedQueues = v.sharedQueues
  promise : w.promise = v.promise
  coQueue : w.coQueue.Perm v.coQueue
  busQueue : ∀ d, (w.busQueue d).Perm (v.busQueue d)

/-- Deliveries of different messages to different awaits. -/
theorem awaits_deliver_comm (hd : List.Disjoint D.data E.data) (hq : List.Disjoint D.queue E.queue) :
    ((w.deliver m D).deliver m' E).awaits = ((w.deliver m' E).deliver m D).awaits := by
  funext a
  cases ha : w.awaits a with
  | none => simp [World.deliver, ha]
  | some A =>
    have hda : ¬(a ∈ D.data ∧ a ∈ E.data) := fun h => hd h.1 h.2
    have hqa : ¬(a ∈ D.queue ∧ a ∈ E.queue) := fun h => hq h.1 h.2
    simp only [World.deliver, ha, Option.map_some, Option.some.injEq, Await.mk.injEq, true_and,
      and_true]
    constructor
    · by_cases h₁ : a ∈ D.data <;> by_cases h₂ : a ∈ E.data <;> simp_all
    · by_cases h₁ : a ∈ D.queue <;> by_cases h₂ : a ∈ E.queue <;> simp_all

theorem promise_deliver_comm :
    ((w.deliver m D).deliver m' E).promise = ((w.deliver m' E).deliver m D).promise := by
  funext c
  show (if c ∈ E.resumed.filterMap (w.deliver m D).handleAt then _ else _) =
    if c ∈ D.resumed.filterMap (w.deliver m' E).handleAt then _ else _
  rw [handleAt_deliver, handleAt_deliver]
  simp only [World.deliver]
  by_cases h₁ : c ∈ D.resumed.filterMap w.handleAt <;>
    by_cases h₂ : c ∈ E.resumed.filterMap w.handleAt <;> simp [h₁, h₂]

theorem coQueue_deliver_comm : List.Perm ((w.deliver m D).deliver m' E).coQueue
    ((w.deliver m' E).deliver m D).coQueue := by
  show (w.coQueue ++ D.resumed.filterMap w.entryAt ++
      E.resumed.filterMap (w.deliver m D).entryAt).Perm
    (w.coQueue ++ E.resumed.filterMap w.entryAt ++ D.resumed.filterMap (w.deliver m' E).entryAt)
  rw [entryAt_deliver, entryAt_deliver, List.append_assoc, List.append_assoc]
  exact List.Perm.append_left _ List.perm_append_comm

/-- The shared queues of different names are different. -/
def QueuesApart (w : World) : Prop :=
  ∀ n n' a b, (n, a) ∈ w.registry .shared → (n', b) ∈ w.registry .shared → n ≠ n' →
    w.queueAt a ≠ w.queueAt b

theorem Wf.queuesApart (hw : Wf w) : QueuesApart w := by
  intro n n' a b ha hb hne
  obtain ⟨A, hA, htyA, hnA⟩ := (hw.registered _ _ _).1 ha
  obtain ⟨B, hB, htyB, hnB⟩ := (hw.registered _ _ _).1 hb
  have hq : A.sharedQueue ≠ B.sharedQueue := fun h =>
    hne (hnA.symm.trans (((hw.queue_iff a b A B hA hB htyA htyB).1 h).trans hnB))
  simpa [World.queueAt, hA, hB] using hq

theorem Listed.sharedPushed_dispatched (hb : Listed w) (hne : m.name ≠ m'.name) (q : QueueId) :
    (w.dispatched m).sharedPushed m' q =
      if w.firstStopped m' = none ∧ (w.range .shared m').head?.bind w.queueAt = some q then
        w.sharedPushed m q ++ [m']
      else w.sharedPushed m q := by
  unfold World.sharedPushed
  rw [hb.firstStopped_dispatched hne, queueAt_dispatched]
  rfl

/-- The queue of the first await in the range of a name. -/
theorem QueuesApart.head (hq : QueuesApart w) (hne : m.name ≠ m'.name) {q q' : QueueId}
    (h : (w.range .shared m).head?.bind w.queueAt = some q)
    (h' : (w.range .shared m').head?.bind w.queueAt = some q') : q ≠ q' := by
  obtain ⟨a, ha, hqa⟩ := Option.bind_eq_some_iff.1 h
  obtain ⟨b, hb, hqb⟩ := Option.bind_eq_some_iff.1 h'
  have hmem := Multimap.mem_equalRange.1 (List.mem_of_head? ha)
  have hmem' := Multimap.mem_equalRange.1 (List.mem_of_head? hb)
  rintro rfl
  exact hq _ _ a b hmem hmem' hne (hqa.trans hqb.symm)

theorem Listed.sharedPushed_comm (hb : Listed w) (hq : QueuesApart w) (hne : m.name ≠ m'.name) :
    (w.dispatched m).sharedPushed m' = (w.dispatched m').sharedPushed m := by
  funext q
  rw [hb.sharedPushed_dispatched hne, hb.sharedPushed_dispatched (Ne.symm hne)]
  unfold World.sharedPushed
  split
  · rename_i h'
    split
    · rename_i h
      exact absurd rfl (hq.head hne h.2 h'.2)
    · rfl
  · rfl

/-- A dispatch after one of another name, read off the state before both. -/
theorem Listed.dispatched_dispatched (hb : Listed w) (hne : m.name ≠ m'.name) :
    (w.dispatched m).dispatched m' =
      { (w.deliver m (w.deliveries m)).deliver m' (w.deliveries m') with
        sharedQueues := (w.dispatched m).sharedPushed m' } := by
  rw [World.dispatched, hb.deliveries_dispatched hne]
  rfl

/-- Two dispatches of different names in both orders, apart from the queues they take their messages
from. -/
theorem Listed.dispatched_comm (hb : Listed w) (hq : QueuesApart w) (hne : m.name ≠ m'.name) :
    ((w.dispatched m).dispatched m').awaits = ((w.dispatched m').dispatched m).awaits ∧
    ((w.dispatched m).dispatched m').sharedQueues =
      ((w.dispatched m').dispatched m).sharedQueues ∧
    ((w.dispatched m).dispatched m').promise = ((w.dispatched m').dispatched m).promise ∧
    ((w.dispatched m).dispatched m').coQueue.Perm ((w.dispatched m').dispatched m).coQueue := by
  have hdata : List.Disjoint (w.deliveries m).data (w.deliveries m').data := by
    intro a ha ha'
    obtain ⟨k, hk⟩ := mem_range_of_mem_resumed (mem_resumed_of_mem_data ha')
    exact hb.notMem_resumed hne hk (mem_resumed_of_mem_data ha)
  have hqueue : List.Disjoint (w.deliveries m).queue (w.deliveries m').queue := fun a ha ha' =>
    hb.notMem_range hne (List.mem_filter.1 ha).1 (List.mem_filter.1 ha').1
  rw [hb.dispatched_dispatched hne, hb.dispatched_dispatched (Ne.symm hne)]
  exact ⟨awaits_deliver_comm hdata hqueue, hb.sharedPushed_comm hq hne, promise_deliver_comm,
    coQueue_deliver_comm⟩

/-! ### One dispatch of the program -/

/-- What `remove_timer` pushes during the dispatch of `m`. -/
def World.removals (w : World) (m : InternalMessage) : List Packet :=
  (w.matched m).filterMap w.removalAt

/-- What a dispatch of `p` by `d` takes from the queues of the bus. -/
def taken (d : Dispatcher) (p : Packet) (d' : Dispatcher) : Multiset Packet :=
  if d' = d then {p} else 0

/-- What a dispatch of `m` adds to them. -/
def World.added (w : World) (m : InternalMessage) (d' : Dispatcher) : Multiset Packet :=
  if d' = .normal then ↑(w.removals m) else 0

theorem tryDequeue_add (hp : (w.busQueue d)[i]? = some p) (d' : Dispatcher) :
    ((w.tryDequeue d i).busQueue d' : Multiset Packet) + taken d p d' = w.busQueue d' := by
  by_cases hd : d' = d
  · subst hd
    have hperm := Multiset.coe_eq_coe.2 (Bag.perm_take hp)
    rw [hperm, taken, if_pos rfl, ← Multiset.cons_coe, ← Multiset.singleton_add, add_comm]
    simp [World.tryDequeue]
  · simp [World.tryDequeue, taken, hd]

theorem busQueue_normal_dispatched :
    (w.dispatched m).busQueue .normal = w.busQueue .normal ++ w.removals m := by
  simp [World.dispatched, World.deliver, World.deliveries, World.removals]

theorem busQueue_dispatched (d' : Dispatcher) :
    ((w.dispatched m).busQueue d' : Multiset Packet) = w.busQueue d' + w.added m d' := by
  by_cases hd : d' = .normal
  · subst hd
    rw [busQueue_normal_dispatched, World.added, if_pos rfl, Multiset.coe_add]
  · simp [World.dispatched, World.deliver, World.added, hd]

/-- **One dispatch.**  It comes to its end, in one state. -/
theorem Serving.exists_dispatches (hw : Serving w) (hd : w.disp d = .fetch)
    (hp : p ∈ w.busQueue d) : ∃ w', Dispatches d p w w' := by
  obtain ⟨i, hi⟩ := List.mem_iff_getElem?.1 hp
  obtain ⟨⟨w', hit, -⟩, -⟩ := hw.toListed.iterates hw.fault hw.stop hd hi
  exact ⟨w', i, hi, hit⟩

/-- What it does, apart from the queues of the bus. -/
theorem Serving.dispatches_bare (hw : Serving w) (h : Dispatches d p w w') :
    w'.bare = { w.bare.dispatched p.msg with busQueue := w'.busQueue } := by
  obtain ⟨i, hi, hit⟩ := h
  have hbare := (hw.toListed.iterates hw.fault hw.stop hit.1 hi).2 w' hit
  have hpop : w'.bare = (w.bare.tryDequeue d i).dispatched p.msg := by
    rw [hbare, dispatched_bare]
    rfl
  rw [hpop]
  show _ = { w.bare.dispatched p.msg with busQueue := w'.bare.busQueue }
  rw [hpop]
  rfl

theorem Serving.dispatches_eq (hw : Serving w) (h : Dispatches d p w w') :
    w'.bare = World.bare { w.dispatched p.msg with busQueue := w'.busQueue } := by
  rw [hw.dispatches_bare h, ← dispatched_bare]
  rfl

/-- What it does to them. -/
theorem Serving.dispatches_busQueue (hw : Serving w) (h : Dispatches d p w w') (d' : Dispatcher) :
    (w'.busQueue d' : Multiset Packet) + taken d p d' = w.busQueue d' + w.added p.msg d' := by
  obtain ⟨i, hi, hit⟩ := h
  have hbare := (hw.toListed.iterates hw.fault hw.stop hit.1 hi).2 w' hit
  have hbus : w'.bare.busQueue = ((w.tryDequeue d i).dispatched p.msg).bare.busQueue :=
    congrArg World.busQueue hbare
  calc (w'.busQueue d' : Multiset Packet) + taken d p d'
      = ((w.tryDequeue d i).dispatched p.msg).busQueue d' + taken d p d' := by
        rw [show w'.busQueue = _ from hbus]
        rfl
    _ = (w.tryDequeue d i).busQueue d' + taken d p d' + w.added p.msg d' := by
        rw [busQueue_dispatched, add_right_comm]
        rfl
    _ = w.busQueue d' + w.added p.msg d' := by rw [tryDequeue_add hi]

/-- The bus is ready for the next. -/
theorem Serving.dispatches (hw : Serving w) (h : Dispatches d p w w') : Serving w' := by
  have hbare := hw.dispatches_bare h
  have hlisted : Listed { w.bare.dispatched p.msg with busQueue := w'.busQueue } := by
    have hl : Listed (w.bare.dispatched p.msg) := (listed_bare.2 hw.toListed).dispatched
    exact ⟨hl.live, hl.nodup⟩
  have hfault : w'.bare.fault = w.fault := by
    rw [hbare]
    rfl
  have hstop : w'.bare.stop = w.stop := by
    rw [hbare]
    rfl
  exact { listed_bare.1 (hbare ▸ hlisted) with
    fault := hfault.trans hw.fault, stop := hstop.trans hw.stop }

theorem Serving.dispatches_registry (hw : Serving w) (h : Dispatches d p w w') :
    w'.registry = w.registry := by
  have hreg : w'.bare.registry = w.registry := by
    rw [hw.dispatches_bare h]
    rfl
  exact hreg

theorem Serving.dispatches_disp (hw : Serving w) (h : Dispatches d p w w') : w'.disp = w.disp := by
  have hdisp : w'.bare.disp = w.disp := by
    rw [hw.dispatches_bare h]
    rfl
  exact hdisp

/-- What a message of another name will add is left alone. -/
theorem Serving.dispatches_added (hw : Serving w) (h : Dispatches d p w w')
    (hne : p.msg.name ≠ m.name) : w'.added m = w.added m := by
  have hbare := hw.dispatches_bare h
  have hdel : w'.bare.deliveries m = w.bare.deliveries m := by
    rw [hbare]
    exact (listed_bare.2 hw.toListed).deliveries_dispatched hne
  rw [deliveries_bare, deliveries_bare] at hdel
  have hrem : w'.bare.removalAt = w.bare.removalAt := by
    rw [hbare]
    exact removalAt_dispatched
  rw [removalAt_bare, removalAt_bare] at hrem
  have hmatched : w'.matched m = w.matched m := congrArg Deliveries.removal hdel
  funext d'
  rw [World.added, World.added, World.removals, World.removals, hmatched, hrem]

/-! ### Two dispatches -/

theorem Serving.exists_comp (hw : Serving w) (hd₁ : w.disp d₁ = .fetch) (hd₂ : w.disp d₂ = .fetch)
    (hp₁ : p₁ ∈ w.busQueue d₁) (hp₂ : p₂ ∈ w.busQueue d₂) (hne : p₁ ≠ p₂) :
    ∃ v, Relation.Comp (Dispatches d₁ p₁) (Dispatches d₂ p₂) w v := by
  obtain ⟨w₁, h₁⟩ := hw.exists_dispatches hd₁ hp₁
  have hmem : p₂ ∈ (w.busQueue d₂ : Multiset Packet) + w.added p₁.msg d₂ :=
    Multiset.mem_add.2 (.inl hp₂)
  rw [← hw.dispatches_busQueue h₁ d₂, Multiset.mem_add] at hmem
  have hp₂' : p₂ ∈ w₁.busQueue d₂ := by
    rcases hmem with hmem | hmem
    · exact hmem
    · unfold taken at hmem
      split at hmem
      · exact absurd (Multiset.mem_singleton.1 hmem).symm hne
      · exact absurd hmem (Multiset.notMem_zero _)
  have hd₂' : w₁.disp d₂ = .fetch := by rw [hw.dispatches_disp h₁, hd₂]
  obtain ⟨w₁₂, h₁₂⟩ := (hw.dispatches h₁).exists_dispatches hd₂' hp₂'
  exact ⟨w₁₂, w₁, h₁, h₁₂⟩

/-- What two dispatches do, apart from the queues of the bus. -/
theorem Serving.comp_bare (hw : Serving w)
    (h : Relation.Comp (Dispatches d₁ p₁) (Dispatches d₂ p₂) w v) :
    v.bare = { (w.bare.dispatched p₁.msg).dispatched p₂.msg with busQueue := v.busQueue } := by
  obtain ⟨w₁, h₁, h₂⟩ := h
  rw [(hw.dispatches h₁).dispatches_bare h₂, hw.dispatches_bare h₁]
  rfl

/-- What they do to the queues of the bus. -/
theorem Serving.comp_busQueue (hw : Serving w)
    (h : Relation.Comp (Dispatches d₁ p₁) (Dispatches d₂ p₂) w v)
    (hne : p₁.msg.name ≠ p₂.msg.name) (d : Dispatcher) :
    (v.busQueue d : Multiset Packet) + (taken d₁ p₁ d + taken d₂ p₂ d) =
      w.busQueue d + (w.added p₁.msg d + w.added p₂.msg d) := by
  obtain ⟨w₁, h₁, h₂⟩ := h
  have hq₁ := hw.dispatches_busQueue h₁ d
  have hq₂ := (hw.dispatches h₁).dispatches_busQueue h₂ d
  rw [hw.dispatches_added h₁ hne] at hq₂
  rw [add_comm (taken d₁ p₁ d), ← add_assoc, hq₂, add_right_comm, hq₁, add_assoc]

/-- **Dispatches of differently named messages commute.**  Two messages in the queues of idle
dispatchers, of the same or of different ones, can be dispatched in both orders, and both end in the
same state, up to the order of what they have pushed.  As both take the same two messages, the queues
differ only in the order of the removals added. -/
theorem dispatches_commute (hw : Serving w) (hq : QueuesApart w) (hd₁ : w.disp d₁ = .fetch)
    (hd₂ : w.disp d₂ = .fetch) (hp₁ : p₁ ∈ w.busQueue d₁) (hp₂ : p₂ ∈ w.busQueue d₂)
    (hne : p₁.msg.name ≠ p₂.msg.name) :
    (∃ v, Relation.Comp (Dispatches d₁ p₁) (Dispatches d₂ p₂) w v) ∧
    (∃ v', Relation.Comp (Dispatches d₂ p₂) (Dispatches d₁ p₁) w v') ∧
    ∀ v v', Relation.Comp (Dispatches d₁ p₁) (Dispatches d₂ p₂) w v →
      Relation.Comp (Dispatches d₂ p₂) (Dispatches d₁ p₁) w v' → SameUpToOrder v v' := by
  have hpne : p₁ ≠ p₂ := fun h => hne (congrArg (fun p => p.msg.name) h)
  refine ⟨hw.exists_comp hd₁ hd₂ hp₁ hp₂ hpne, hw.exists_comp hd₂ hd₁ hp₂ hp₁ (Ne.symm hpne), ?_⟩
  intro v v' h h'
  have hq' : QueuesApart w.bare := by
    unfold QueuesApart
    rw [queueAt_bare]
    exact hq
  obtain ⟨haw, hsq, hpr, hco⟩ := (listed_bare.2 hw.toListed).dispatched_comm hq' hne
  have hv := hw.comp_bare h
  have hv' := hw.comp_bare h'
  refine ⟨fun a => ?_, ?_, ?_, ?_, fun d => ?_⟩
  · show v.bare.awaits a = v'.bare.awaits a
    rw [hv, hv']
    exact congrFun haw a
  · show v.bare.sharedQueues = v'.bare.sharedQueues
    rw [hv, hv']
    exact hsq
  · show v.bare.promise = v'.bare.promise
    rw [hv, hv']
    exact hpr
  · show v.bare.coQueue.Perm v'.bare.coQueue
    rw [hv, hv']
    exact hco
  · -- both have taken the same two messages and added the same removals
    have hb := hw.comp_busQueue h hne d
    have hb' := hw.comp_busQueue h' (Ne.symm hne) d
    rw [add_comm (taken d₂ p₂ d), add_comm (w.added p₂.msg d), ← hb] at hb'
    exact Multiset.coe_eq_coe.1 (add_right_cancel hb'.symm)

/-- A coroutine owns awaits of both names and stops on one of them, another stops on the other name,
and each dispatcher has a message. -/
def bothNames : List Action :=
  [Action.start 1, .body 1 (.createMessage 7 0 "m" 10 0),
    .body 1 (.createTemp 6 0 "n" 10 (fun _ => true) 0), .body 1 (.setTimeout 6), .run 1 0,
    .body 1 (.coAwait 6), .run 1 0, .run 1 0, .late 0] ++
  [Action.start 2, .body 2 (.createShared 5 0 "m" 10 0), .body 2 (.coAwait 5), .run 2 0, .run 2 0,
    .late 0, .push { name := "n" }, .pushHigh { name := "m" }]

theorem dispatches_commute_bothNames : ∃ w : World,
    (w.deliveries { name := "n" }).resumed = [6] ∧ (w.deliveries { name := "m" }).resumed = [5] ∧
    (∃ v, Relation.Comp (Dispatches .normal { msg := { name := "n" } })
      (Dispatches .high { msg := { name := "m" } }) w v) ∧
    (∃ v', Relation.Comp (Dispatches .high { msg := { name := "m" } })
      (Dispatches .normal { msg := { name := "n" } }) w v') ∧
    ∀ v v', Relation.Comp (Dispatches .normal { msg := { name := "n" } })
        (Dispatches .high { msg := { name := "m" } }) w v →
      Relation.Comp (Dispatches .high { msg := { name := "m" } })
        (Dispatches .normal { msg := { name := "n" } }) w v' → SameUpToOrder v v' := by
  have hrun : (Run.exec step World.init bothNames).any (fun w => decide
      (w.fault = none ∧ w.stop = false ∧ w.disp .normal = .fetch ∧ w.disp .high = .fetch ∧
        { msg := { name := "n" } } ∈ w.busQueue .normal ∧
        { msg := { name := "m" } } ∈ w.busQueue .high ∧
        (w.deliveries { name := "n" }).resumed = [6] ∧
        (w.deliveries { name := "m" }).resumed = [5])) = true := by
    decide +kernel
  obtain ⟨w, hr, hf, hs, hd₁, hd₂, hp₁, hp₂, hn, hm⟩ := Run.exists_reach_of_exec hrun
  have hw : Serving w := { (wf_of_reachable hr).bus.listed with fault := hf, stop := hs }
  have hcomm := dispatches_commute hw (wf_of_reachable hr).queuesApart hd₁ hd₂ hp₁ hp₂ (by decide)
  exact ⟨w, hn, hm, hcomm⟩

end DataProxy
