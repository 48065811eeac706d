import DataProxy.QueueProducer
import DataProxy.QueueMoves

/-!
# The queue under every schedule

The invariant holds of a queue just constructed, and every step keeps it; so it holds in every state
that is reached.  What a user of the queue can rely on follows: no assertion fails, no call waits for
another in its own statements, no element is lost, returned twice, or returned to one consumer out of order.
-/

namespace DataProxy.ConcurrentQueue

open Function (update)

variable {P C α : Type} [DecidableEq P] [DecidableEq C] {poolSize : ℕ} {allocated : P → Bool}
  {s s' : Queue P C α} {g : Ghost P C}

/-- The states of a queue that starts empty, under any schedule that satisfies `Near`. -/
abbrev Reached (poolSize : ℕ) (allocated : P → Bool) : Queue P C α → Prop :=
  Run.Reach (step poolSize) Near (.init poolSize allocated)

instance (s : Queue P C α) (act : Action P C α) : Decidable (Near s act) := by
  unfold Near
  split
  · split <;> infer_instance
  all_goals infer_instance

/-- Nothing has happened yet. -/
def Ghost.init : Ghost P C where
  lane _ := {}
  owner _ := .fresh

omit [DecidableEq P] [DecidableEq C] in
theorem laneOk_make (allocated : Bool) :
    (ImplicitProducer.make allocated : ImplicitProducer α).LaneOk ({} : Lane C) where
  desk := Tickets.Desk.ok_empty 0
  waiting := fun i => ⟨fun _ => Nat.zero_le i, fun _ => rfl⟩
  length := rfl
  room := by
    show 32 * ((0 + 31) / 32) < 0 + 2 ^ 63
    decide
  noIndex := fun _ => ⟨rfl, rfl⟩
  ring := by
    intro cur hcur
    cases allocated with
    | false => cases hcur
    | true =>
      cases hcur
      exact ImplicitProducer.ringOk_make
  tailBlock := by
    intro h
    replace h : 0 < 32 * ((0 + 31) / 32) := h
    omega
  pc := trivial

omit [DecidableEq P] [DecidableEq C] in
theorem inv_init : Inv poolSize (.init poolSize allocated : Queue P C α) .init where
  noFault := rfl
  lane := fun p => laneOk_make (allocated p)
  held := fun _ => trivial
  live := by
    intro p n hn
    replace hn : n < (0 + 31) / 32 := hn
    omega
  pool := by
    refine ⟨List.nodup_nil, fun b hb => absurd hb List.not_mem_nil, fun _ _ _ => rfl,
      ⟨le_rfl, fun _ _ => rfl⟩, fun b hb => ?_⟩
    rcases hb with hb | ⟨p, hb⟩ | ⟨c, hb⟩ | ⟨-, hb⟩
    · cases hb
    · cases hb
    · cases hb
    · exact ⟨{}, if_pos hb, fun _ _ => rfl⟩
  cons := fun _ => trivial
  out := by
    refine ⟨fun r hr => absurd hr List.not_mem_nil, fun p i h => ?_, fun p i c h => ?_, .nil, .nil,
      fun c p i h => ?_⟩
    · cases h
    · cases h
    · cases h

/-- **Every step keeps the invariant.** -/
theorem Inv.next (I : Inv poolSize s g) {act : Action P C α} (hnear : Near s act)
    (hs : step poolSize s act = some s') : ∃ g', Inv poolSize s' g' := by
  unfold step at hs
  rw [if_neg (by rw [I.noFault]; simp)] at hs
  cases act with
  | enqueue p x => exact I.enqueue hs
  | producer p ok k => exact I.producerStep hs
  | dequeue c p =>
    simp only at hs
    split at hs
    · rename_i hc
      cases hs
      exact ⟨g, I.setConsumer trivial (by rw [hc]; rfl)⟩
    · cases hs
  | consumer c => exact I.consumerStep hnear hs

theorem Reached.inv (h : Reached poolSize allocated s) : ∃ g, Inv poolSize s g :=
  h.invariant (I := fun s => ∃ g, Inv poolSize s g) ⟨.init, inv_init⟩
    fun _ _ _ _ ⟨_, I⟩ hnear hs => I.next hnear hs

/-! ### Memory -/

omit [DecidableEq P] [DecidableEq C] in
/-- A waiting element is in its block, and the block belongs to the sub-queue. -/
theorem Inv.stored (I : Inv poolSize s g) {p : P} {i : ℕ} {x : α}
    (hi : (s.producer p).headIndex ≤ i) (hx : (s.producer p).published[i]? = some x) :
    ∃ b B, s.blocks b = some B ∧ B.elements (i % 32) = some x ∧ b ∉ s.freeList := by
  have hlane := I.lane p
  have hslot := (hlane.waiting i).2 hi
  have hlt : i < (s.producer p).tailIndex := by
    rw [← hlane.length]
    exact (List.getElem?_eq_some_iff.1 hx).1
  have hle := (s.producer p).tailIndex_le
  have hlive := I.live p (i / 32) (by omega) (tally_lt_of_not_done (by rw [hslot]; rfl))
  obtain ⟨B, hB, -, helem⟩ := hlive.block
  refine ⟨_, B, hB, ?_, fun hfree => ?_⟩
  · rw [helem _ (Nat.mod_lt i (by decide)), Nat.div_add_mod, ImplicitProducer.content, if_pos hlt,
      hslot, hx]
    rfl
  · have ho := I.pool.free _ hfree
    rw [hlive.owner] at ho
    cases ho

/-- **No assertion fails and no object is accessed that is not alive**, whatever the schedule, however
often the counters go round and blocks and entries are used again.  A block on the free list is there
once and holds no object, and every element that waits is in a block that is not on the free list. -/
theorem memory_safe (h : Reached poolSize allocated s) :
    s.fault = none ∧ s.freeList.Nodup ∧
      (∀ b ∈ s.freeList, ∃ B, s.blocks b = some B ∧ ∀ j < 32, B.elements j = none) ∧
      ∀ p i x, (s.producer p).headIndex ≤ i → (s.producer p).published[i]? = some x →
        ∃ b B, s.blocks b = some B ∧ B.elements (i % 32) = some x ∧ b ∉ s.freeList := by
  obtain ⟨g, I⟩ := h.inv
  refine ⟨I.noFault, I.pool.nodup, fun b hb => ?_, fun p i x => I.stored⟩
  exact I.pool.clean b (.inl (I.pool.free b hb))

/-- Two elements from one thread to two consumers, whose calls overlap. -/
def overlapping : List (Action Bool Bool ℕ) :=
  .enqueue true 7 :: List.replicate 9 (.producer true true 0) ++
    [.enqueue true 8, .dequeue false true, .dequeue true true] ++
    List.replicate 4 (.consumer false) ++ List.replicate 2 (.producer true true 0) ++
    List.replicate 12 (.consumer true) ++ List.replicate 6 (.consumer false)

theorem memory_safe_overlapping : ∃ s : Queue Bool Bool ℕ, Reached 1 (fun _ => true) s ∧
    s.returned.map (fun r => r.element) = [7] ∧ (s.producer true).headIndex = 2 ∧ s.fault = none := by
  have hrun : (Run.exec (Run.guarded (step 1) Near) (.init 1 fun _ => true : Queue Bool Bool ℕ)
      overlapping).any (fun s => decide (s.returned.map (fun r => r.element) = [7] ∧
        (s.producer true).headIndex = 2)) = true := by
    decide +kernel
  obtain ⟨s, hr, hout, hhead⟩ := Run.exists_reach_of_exec_guarded hrun
  exact ⟨s, hr, hout, hhead, (memory_safe hr).1⟩

/-! ### No call waits for another -/

omit [DecidableEq C] in
theorem Inv.producer_enabled (I : Inv poolSize s g) {p : P} (hpc : (s.producer p).pc ≠ .idle)
    (ok : Bool) (k : ℕ) : (s.producerStep poolSize p ok k).isSome = true := by
  have hindex : (s.producer p).pc.early = false → ∃ cur, (s.producer p).blockIndex = some cur := by
    intro hearly
    cases hb : (s.producer p).blockIndex with
    | none => rw [((I.lane p).noIndex hb).2] at hearly; cases hearly
    | some cur => exact ⟨cur, rfl⟩
  cases h : (s.producer p).pc with
  | idle => exact absurd h hpc
  | newIndex x =>
    obtain ⟨cur, hcur⟩ := hindex (by rw [h]; rfl)
    simp only [Queue.producerStep, h, hcur]
    repeat' split
    all_goals rfl
  | storeIndexTail x e t =>
    obtain ⟨cur, hcur⟩ := hindex (by rw [h]; rfl)
    simp only [Queue.producerStep, h, hcur]
    rfl
  | rewind e =>
    obtain ⟨cur, hcur⟩ := hindex (by rw [h]; rfl)
    simp only [Queue.producerStep, h, hcur]
    rfl
  | _ =>
    simp only [Queue.producerStep, h]
    repeat' split
    all_goals rfl

theorem consumer_enabled {c : C} (hc : s.consumer c ≠ .idle) :
    (s.consumerStep poolSize c).isSome = true := by
  unfold Queue.consumerStep
  cases h : s.consumer c with
  | idle => exact absurd h hc
  | _ =>
    simp only
    repeat' split
    all_goals rfl

/-- The steps each thread has made since it called.  The loops of `FreeList` and of `new_block_index`
are inside one step each. -/
def ownSteps (_ : Queue P C α) : Action P C α → (P → ℕ) × (C → ℕ) → (P → ℕ) × (C → ℕ)
  | .enqueue p _, n => (update n.1 p 0, n.2)
  | .producer p _ _, n => (update n.1 p (n.1 p + 1), n.2)
  | .dequeue c _, n => (n.1, update n.2 c 0)
  | .consumer c, n => (n.1, update n.2 c (n.2 c + 1))

/-- What a thread has done and has still to do. -/
def Bounded (x : Queue P C α × (P → ℕ) × (C → ℕ)) : Prop :=
  (∀ p, x.2.1 p + (x.1.producer p).pc.rank ≤ 12) ∧ ∀ c, x.2.2 c + (x.1.consumer c).rank ≤ 14

theorem add_update_le {ι β : Type} [DecidableEq ι] {f : β → ℕ} {n : ι → ℕ} {y : ι → β} {i : ι} {v : ℕ}
    {z : β} {bound : ℕ} (h : ∀ j, n j + f (y j) ≤ bound) (hi : v + f z ≤ bound) (j : ι) :
    update n i v j + f (update y i z j) ≤ bound := by
  by_cases hj : j = i
  · rw [hj, Function.update_self, Function.update_self]
    exact hi
  · rw [Function.update_of_ne hj, Function.update_of_ne hj]
    exact h j

/-- A step of a consumer. -/
theorem Bounded.consumer {n : (P → ℕ) × (C → ℕ)} {c : C} (B : Bounded (s, n))
    (hm : ConsumerMove s c s') : Bounded (s', n.1, update n.2 c (n.2 c + 1)) := by
  obtain ⟨pc, hcons, hrank⟩ := hm.exists_pc
  refine ⟨fun p => ?_, fun c' => ?_⟩
  · show n.1 p + (s'.producer p).pc.rank ≤ 12
    rw [(hm.producer p).1]
    exact B.1 p
  · show update n.2 c (n.2 c + 1) c' + (s'.consumer c').rank ≤ 14
    rw [hcons]
    have hc : n.2 c + (s.consumer c).rank ≤ 14 := B.2 c
    exact add_update_le B.2 (by omega) c'

omit [DecidableEq C] in
/-- A step of a thread that enqueues. -/
theorem Bounded.producer {n : (P → ℕ) × (C → ℕ)} {p : P} {ok : Bool} (B : Bounded (s, n))
    (hm : ProducerMove s p ok s') : Bounded (s', update n.1 p (n.1 p + 1), n.2) := by
  have hp : n.1 p + (s.producer p).pc.rank ≤ 12 := B.1 p
  cases hm with
  | quiet R producer consumer returned same onward element =>
    have hrank := onward.1
    refine ⟨fun p' => ?_, fun c => ?_⟩
    · show update n.1 p (n.1 p + 1) p' + (s'.producer p').pc.rank ≤ 12
      rw [producer]
      exact add_update_le (f := fun R : ImplicitProducer α => R.pc.rank) B.1 (by omega) p'
    · show n.2 c + (s'.consumer c).rank ≤ 14
      rw [consumer]
      exact B.2 c
  | publish x at_storeTail eq =>
    rw [eq]
    refine ⟨fun p' => ?_, B.2⟩
    refine add_update_le (f := fun R : ImplicitProducer α => R.pc.rank) B.1 ?_ p'
    rw [at_storeTail] at hp
    exact hp

theorem Bounded.next {n : (P → ℕ) × (C → ℕ)} {act : Action P C α} (B : Bounded (s, n))
    (hs : step poolSize s act = some s') (hf : s'.fault = none) : Bounded (s', ownSteps s act n) := by
  unfold step at hs
  split at hs
  · cases hs
  · cases act with
    | enqueue p x =>
      simp only [Queue.enqueue] at hs
      split at hs
      · cases hs
        refine ⟨fun p' => ?_, B.2⟩
        refine add_update_le (f := fun R : ImplicitProducer α => R.pc.rank) B.1 ?_ p'
        show 0 + (if _ then EnqueuePc.loadHead x else EnqueuePc.construct x).rank ≤ 12
        split <;> simp [EnqueuePc.rank]
      · cases hs
    | producer p ok k => exact B.producer (producerMove_of_step hs hf)
    | dequeue c p =>
      simp only at hs
      split at hs
      · cases hs
        refine ⟨B.1, fun c' => ?_⟩
        refine add_update_le B.2 ?_ c'
        simp [DequeuePc.rank]
      · cases hs
    | consumer c => exact B.consumer (consumerMove_of_step hs hf)

/-- **No call has to repeat a step because of another thread**: it returns after 12 of its own steps for
`enqueue` and 14 for `dequeue`, whatever the other threads do in between, and a thread in a call can
always go on.  What a call of `FreeList` takes is not counted. -/
theorem steps_bounded {n : (P → ℕ) × (C → ℕ)}
    (h : Run.Reach (Run.logged (step poolSize) ownSteps) (fun x act => Near x.1 act)
      ((.init poolSize allocated : Queue P C α), (fun _ => 0), fun _ => 0) (s, n)) :
    (∀ p, n.1 p ≤ 12 ∧ ((s.producer p).pc ≠ .idle →
      ∀ ok k, (step poolSize s (.producer p ok k)).isSome = true)) ∧
    ∀ c, n.2 c ≤ 14 ∧ (s.consumer c ≠ .idle → (step poolSize s (.consumer c)).isSome = true) := by
  have hreach : Reached poolSize allocated s := Run.Reach.fst (x := (s, n)) (fun _ _ hnear => hnear) h
  obtain ⟨g, I⟩ := hreach.inv
  have hB : Bounded (s, n) := by
    refine h.invariant (I := Bounded) ⟨fun _ => Nat.zero_le _, fun _ => Nat.zero_le _⟩ ?_
    rintro ⟨s₁, n₁⟩ act ⟨s₂, n₂⟩ hr B hnear hstep
    obtain ⟨hstep, rfl⟩ := Run.logged_eq_some.1 hstep
    have hreach₁ : Reached poolSize allocated s₁ := Run.Reach.fst (x := (s₁, n₁)) (fun _ _ hnear => hnear) hr
    obtain ⟨g₁, I₁⟩ := hreach₁.inv
    obtain ⟨g₂, I₂⟩ := I₁.next hnear hstep
    exact B.next hstep I₂.noFault
  have hf : ¬s.fault ≠ none := by simp [I.noFault]
  refine ⟨fun p => ⟨?_, fun hpc ok k => ?_⟩, fun c => ⟨?_, fun hc => ?_⟩⟩
  · exact le_trans (Nat.le_add_right _ _) (hB.1 p)
  · rw [step, if_neg hf]
    exact I.producer_enabled hpc ok k
  · exact le_trans (Nat.le_add_right _ _) (hB.2 c)
  · rw [step, if_neg hf]
    exact consumer_enabled hc

theorem steps_bounded_overlapping : ∃ x : Queue Bool Bool ℕ × (Bool → ℕ) × (Bool → ℕ),
    x.2.2 true = 12 ∧ (x.1.consumer false ≠ .idle ∧ (step 1 x.1 (.consumer false)).isSome = true) := by
  have hrun : (Run.exec (Run.guarded (Run.logged (step 1) ownSteps) fun x act => Near x.1 act)
      ((.init 1 fun _ => true : Queue Bool Bool ℕ), (fun _ => 0), fun _ => 0) overlapping).any
      (fun x => decide (x.2.2 true = 12 ∧ (x.1.consumer false).rank ≠ 0)) = true := by
    decide +kernel
  obtain ⟨⟨s, n⟩, hr, hn, hc⟩ := Run.exists_reach_of_exec_guarded hrun
  have hne : s.consumer false ≠ .idle := fun h => hc (by rw [h]; rfl)
  exact ⟨(s, n), hn, hne, ((steps_bounded hr).2 false).2 hne⟩

end DataProxy.ConcurrentQueue
