import DataProxy.QueueInvariant
import DataProxy.Lib.Lanes

/-!
# What a step does to the counters

A step of a call that does not fail either moves one of the four counters or none, and hands an
element on or not (`label`).  `ConsumerMove` and `ProducerMove` say this once for all accesses; the
results about elements, progress and emptiness rest on them and not on the code of the single
accesses.
-/

namespace DataProxy.ConcurrentQueue

open Function (update)

variable {P C α : Type}

/-- How many accesses a call of `dequeue` has still to make, at most. -/
def DequeuePc.rank : DequeuePc P α → ℕ
  | .idle => 0
  | .giveBack _ _ | .release _ _ _ _ => 1
  | .unlink _ _ _ _ _ => 2
  | .setEmpty _ _ _ _ _ => 3
  | .take _ _ _ _ => 4
  | .loadValue _ _ _ _ _ => 5
  | .loadKey _ _ _ _ => 6
  | .loadIndexTail _ _ _ => 7
  | .loadIndex _ _ => 8
  | .claim _ _ => 9
  | .recheck _ _ _ => 10
  | .reserve _ _ => 11
  | .check _ _ _ => 12
  | .loadOvercommit _ _ => 13
  | .loadTail _ => 14

theorem DequeuePc.rank_pos {pc : DequeuePc P α} (h : pc ≠ .idle) : 0 < pc.rank := by
  cases pc with
  | idle => exact absurd rfl h
  | _ => simp [rank]

/-- How many accesses a call of `enqueue` has still to make, at most. -/
def EnqueuePc.rank : EnqueuePc α → ℕ
  | .idle => 0
  | .storeTail _ | .clearValue _ => 1
  | .construct _ | .rewind _ => 2
  | .storeValue _ _ _ => 3
  | .resetEmpty _ _ _ => 4
  | .create _ _ => 5
  | .tryFreeList _ _ => 6
  | .tryPool _ _ => 7
  | .storeIndexTail _ _ _ => 8
  | .storeKey _ _ _ => 9
  | .newIndex _ => 10
  | .insertEntry _ => 11
  | .loadHead _ => 12

/-- The call goes on, and does not publish yet. -/
def EnqueuePc.Onward (pc pc' : EnqueuePc α) : Prop := pc'.rank < pc.rank ∧ ∀ x, pc ≠ .storeTail x

/-- The element that a call of `enqueue` is about to store. -/
def EnqueuePc.element : EnqueuePc α → Option α
  | .loadHead x | .insertEntry x | .newIndex x | .storeKey x _ _ | .storeIndexTail x _ _
  | .tryPool x _ | .tryFreeList x _ | .create x _ | .resetEmpty x _ _ | .storeValue x _ _
  | .construct x | .storeTail x => some x
  | .idle | .rewind _ | .clearValue _ => none

/-- The sub-queue on which the consumer has drawn a number, until it has moved the head or given the
number back. -/
def DequeuePc.drawing : DequeuePc P α → Option P
  | .recheck p _ _ | .claim p _ | .giveBack p _ => some p
  | _ => none

/-- The call goes on, and its number and its element stay what they are. -/
def DequeuePc.Onward (pc pc' : DequeuePc P α) : Prop :=
  pc'.rank < pc.rank ∧ pc'.holding = pc.holding ∧ pc'.drawing = pc.drawing

/-- The four counters and the elements are the same. -/
structure ImplicitProducer.Same (R R' : ImplicitProducer α) : Prop where
  tailIndex : R'.tailIndex = R.tailIndex
  headIndex : R'.headIndex = R.headIndex
  dequeueOptimisticCount : R'.dequeueOptimisticCount = R.dequeueOptimisticCount
  dequeueOvercommit : R'.dequeueOvercommit = R.dequeueOvercommit
  published : R'.published = R.published

theorem ImplicitProducer.Same.refl (R : ImplicitProducer α) : R.Same R := ⟨rfl, rfl, rfl, rfl, rfl⟩

/-- What an access does to the lines of waiting elements: an element joins its line with the store of
the tail, leaves it with the increment of the head, and is delivered by the last access of the call. -/
def label (s : Queue P C α) : Action P C α → Option (Lanes.Act P C α)
  | .producer p _ _ =>
    match (s.producer p).pc with
    | .storeTail x => some (.push p x)
    | _ => none
  | .consumer c =>
    match s.consumer c with
    | .claim p _ => some (.pop c p)
    | .setEmpty _ _ _ b _ =>
      match s.blocks b with
      | some B => if B.elementsCompletelyDequeued = 31 then none else some (.deliver c)
      | none => none
    | .release _ _ _ _ => some (.deliver c)
    | _ => none
  | .enqueue _ _ | .dequeue _ _ => none

variable [DecidableEq P] [DecidableEq C] {poolSize : ℕ} {s s' : Queue P C α} {c : C} {p : P}

omit [DecidableEq P] in
theorem Queue.setConsumer_self (s : Queue P C α) (c : C) (pc : DequeuePc P α) :
    (s.setConsumer c pc).consumer c = pc := Function.update_self ..

/-- **What a step of consumer `c` can do.** -/
inductive ConsumerMove (s : Queue P C α) (c : C) (s' : Queue P C α) : Prop
  /-- It learns something, works on a block, or gives up before it has a number. -/
  | quiet (pc : DequeuePc P α) (onward : (s.consumer c).Onward pc)
      (silent : label s (.consumer c) = none) (consumer : s'.consumer = update s.consumer c pc)
      (same : ∀ p, (s.producer p).Same (s'.producer p) ∧ (s'.producer p).pc = (s.producer p).pc)
      (returned : s'.returned = s.returned)
  | reserve (p : P) (v : ℕ) (at_reserve : s.consumer c = .reserve p v)
      (eq : s' = (s.setProducer p { s.producer p with
        dequeueOptimisticCount := (s.producer p).dequeueOptimisticCount + 1 }).setConsumer c
          (.recheck p v (s.producer p).dequeueOptimisticCount))
  | claim (p : P) (m : ℕ) (at_claim : s.consumer c = .claim p m)
      (eq : s' = (s.setProducer p { s.producer p with
        headIndex := (s.producer p).headIndex + 1 }).setConsumer c
          (.loadIndex p (s.producer p).headIndex))
  | giveBack (p : P) (m : ℕ) (at_giveBack : s.consumer c = .giveBack p m)
      (eq : s' = (s.setProducer p { s.producer p with
        dequeueOvercommit := (s.producer p).dequeueOvercommit + 1 }).setConsumer c .idle)
  /-- It returns with the element at index `i` of the sub-queue of `p`. -/
  | finish (p : P) (i : ℕ) (x : α) (holding : (s.consumer c).holding = some (p, i))
      (delivers : label s (.consumer c) = some (.deliver c))
      (consumer : s'.consumer = update s.consumer c .idle)
      (same : ∀ p, (s.producer p).Same (s'.producer p) ∧ (s'.producer p).pc = (s.producer p).pc)
      (returned : s'.returned = ⟨c, p, i, x⟩ :: s.returned)

omit [DecidableEq C] in
theorem same_setValue (s : Queue P C α) (p : P) (e : ℕ) (v : Option ℕ) (p' : P) :
    (s.producer p').Same (update s.producer p ((s.producer p).setValue e v) p') ∧
      (update s.producer p ((s.producer p).setValue e v) p').pc = (s.producer p').pc := by
  by_cases hp : p' = p
  · rw [hp, Function.update_self]
    exact ⟨⟨rfl, rfl, rfl, rfl, rfl⟩, rfl⟩
  · rw [Function.update_of_ne hp]
    exact ⟨.refl _, rfl⟩

theorem consumerMove_of_step (hs : s.consumerStep poolSize c = some s') (hf : s'.fault = none) :
    ConsumerMove s c s' := by
  have hfail : ∀ f, s.fail f = s' → ConsumerMove s c s' := by
    rintro f rfl
    cases hf
  -- a step after which only the consumer stands elsewhere
  have hgo : ∀ (pc : DequeuePc P α), (s.consumer c).Onward pc → label s (.consumer c) = none →
      s.setConsumer c pc = s' → ConsumerMove s c s' := by
    rintro pc hpc hlabel rfl
    exact .quiet pc hpc hlabel rfl (fun p => ⟨.refl _, rfl⟩) rfl
  cases hc : s.consumer c with
  | idle =>
    simp only [Queue.consumerStep, hc] at hs
    cases hs
  | loadTail p =>
    simp only [Queue.consumerStep, hc, Option.some.injEq] at hs
    exact hgo _ (by rw [hc]; exact ⟨by simp [DequeuePc.rank], rfl, rfl⟩) (by simp only [label, hc]) hs
  | loadOvercommit p t =>
    simp only [Queue.consumerStep, hc, Option.some.injEq] at hs
    exact hgo _ (by rw [hc]; exact ⟨by simp [DequeuePc.rank], rfl, rfl⟩) (by simp only [label, hc]) hs
  | check p t v =>
    simp only [Queue.consumerStep, hc] at hs
    split at hs <;> rw [Option.some.injEq] at hs
    · exact hgo _ (by rw [hc]; exact ⟨by simp [DequeuePc.rank], rfl, rfl⟩) (by simp only [label, hc]) hs
    · exact hgo _ (by rw [hc]; exact ⟨by simp [DequeuePc.rank], rfl, rfl⟩) (by simp only [label, hc]) hs
  | reserve p v =>
    simp only [Queue.consumerStep, hc, Option.some.injEq] at hs
    exact .reserve p v hc hs.symm
  | recheck p v m =>
    simp only [Queue.consumerStep, hc] at hs
    split at hs <;> rw [Option.some.injEq] at hs
    · exact hgo _ (by rw [hc]; exact ⟨by simp [DequeuePc.rank], rfl, rfl⟩) (by simp only [label, hc]) hs
    · exact hgo _ (by rw [hc]; exact ⟨by simp [DequeuePc.rank], rfl, rfl⟩) (by simp only [label, hc]) hs
  | claim p m =>
    simp only [Queue.consumerStep, hc, Option.some.injEq] at hs
    exact .claim p m hc hs.symm
  | giveBack p m =>
    simp only [Queue.consumerStep, hc, Option.some.injEq] at hs
    exact .giveBack p m hc hs.symm
  | loadIndex p i =>
    simp only [Queue.consumerStep, hc] at hs
    split at hs <;> rw [Option.some.injEq] at hs
    · exact hfail _ hs
    · exact hgo _ (by rw [hc]; exact ⟨by simp [DequeuePc.rank], rfl, rfl⟩) (by simp only [label, hc]) hs
  | loadIndexTail p i h =>
    simp only [Queue.consumerStep, hc, Option.some.injEq] at hs
    exact hgo _ (by rw [hc]; exact ⟨by simp [DequeuePc.rank], rfl, rfl⟩) (by simp only [label, hc]) hs
  | loadKey p i h t =>
    simp only [Queue.consumerStep, hc] at hs
    split at hs <;> rw [Option.some.injEq] at hs
    · exact hfail _ hs
    · exact hgo _ (by rw [hc]; exact ⟨by simp [DequeuePc.rank], rfl, rfl⟩) (by simp only [label, hc]) hs
  | loadValue p i h t k =>
    simp only [Queue.consumerStep, hc] at hs
    split at hs
    · split at hs <;> rw [Option.some.injEq] at hs
      · exact hgo _ (by rw [hc]; exact ⟨by simp [DequeuePc.rank], rfl, rfl⟩) (by simp only [label, hc]) hs
      · exact hfail _ hs
    · rw [Option.some.injEq] at hs
      exact hfail _ hs
  | take p i e b =>
    simp only [Queue.consumerStep, hc] at hs
    split at hs
    · rw [Option.some.injEq] at hs
      exact hfail _ hs
    · split at hs <;> rw [Option.some.injEq] at hs
      · exact hfail _ hs
      · subst hs
        exact .quiet _ (by rw [hc]; exact ⟨by simp [DequeuePc.rank], rfl, rfl⟩)
          (by simp only [label, hc]) rfl (fun p => ⟨.refl _, rfl⟩) rfl
  | setEmpty p i e b x =>
    simp only [Queue.consumerStep, hc] at hs
    split at hs
    · rw [Option.some.injEq] at hs
      exact hfail _ hs
    · rename_i B hB
      split at hs <;> rw [Option.some.injEq] at hs
      · split at hs
        · rename_i h31
          subst hs
          exact .quiet _ (by rw [hc]; exact ⟨by simp [DequeuePc.rank], rfl, rfl⟩)
            (by simp only [label, hc, hB, h31, if_true]) rfl (fun p => ⟨.refl _, rfl⟩) rfl
        · rename_i h31
          subst hs
          exact .finish p i x (by rw [hc]; rfl) (by simp only [label, hc, hB, h31, if_false]) rfl
            (fun p => ⟨.refl _, rfl⟩) rfl
      · exact hfail _ hs
  | unlink p i e b x =>
    simp only [Queue.consumerStep, hc, Option.some.injEq] at hs
    subst hs
    exact .quiet _ (by rw [hc]; exact ⟨by simp [DequeuePc.rank], rfl, rfl⟩)
      (by simp only [label, hc]) rfl (same_setValue s p e none) rfl
  | release p i b x =>
    simp only [Queue.consumerStep, hc, Option.some.injEq] at hs
    subst hs
    unfold Queue.addBlockToFreeList
    split
    · exact .finish p i x (by rw [hc]; rfl) (by simp only [label, hc]) rfl (fun p => ⟨.refl _, rfl⟩) rfl
    · exact .finish p i x (by rw [hc]; rfl) (by simp only [label, hc]) rfl (fun p => ⟨.refl _, rfl⟩) rfl

/-- The consumer comes nearer to the end of its call. -/
theorem ConsumerMove.exists_pc (hm : ConsumerMove s c s') :
    ∃ pc, s'.consumer = update s.consumer c pc ∧ pc.rank < (s.consumer c).rank := by
  cases hm with
  | quiet pc onward silent consumer same returned => exact ⟨pc, consumer, onward.1⟩
  | reserve p v at_reserve eq =>
    exact ⟨.recheck p v (s.producer p).dequeueOptimisticCount, by rw [eq]; rfl,
      by rw [at_reserve]; simp [DequeuePc.rank]⟩
  | claim p m at_claim eq =>
    exact ⟨.loadIndex p (s.producer p).headIndex, by rw [eq]; rfl,
      by rw [at_claim]; simp [DequeuePc.rank]⟩
  | giveBack p m at_giveBack eq =>
    exact ⟨.idle, by rw [eq]; rfl, by rw [at_giveBack]; simp [DequeuePc.rank]⟩
  | finish p i x holding delivers consumer same returned =>
    refine ⟨.idle, consumer, DequeuePc.rank_pos fun hc => ?_⟩
    rw [hc] at holding
    cases holding

/-- It leaves the threads that enqueue alone. -/
theorem ConsumerMove.producer (hm : ConsumerMove s c s') (p : P) :
    (s'.producer p).pc = (s.producer p).pc ∧
      (s'.producer p).published = (s.producer p).published ∧
      (s'.producer p).tailIndex = (s.producer p).tailIndex := by
  have hupdate : ∀ (q : P) (R : ImplicitProducer α), R.pc = (s.producer q).pc →
      R.published = (s.producer q).published → R.tailIndex = (s.producer q).tailIndex →
      (update s.producer q R p).pc = (s.producer p).pc ∧
        (update s.producer q R p).published = (s.producer p).published ∧
        (update s.producer q R p).tailIndex = (s.producer p).tailIndex := by
    intro q R hpc hpub htail
    by_cases hp : p = q
    · rw [hp, Function.update_self]
      exact ⟨hpc, hpub, htail⟩
    · rw [Function.update_of_ne hp]
      exact ⟨rfl, rfl, rfl⟩
  cases hm with
  | quiet pc onward silent consumer same returned =>
    exact ⟨(same p).2, (same p).1.published, (same p).1.tailIndex⟩
  | reserve q v at_reserve eq =>
    rw [eq]
    exact hupdate q _ (by rfl) (by rfl) (by rfl)
  | claim q m at_claim eq =>
    rw [eq]
    exact hupdate q _ (by rfl) (by rfl) (by rfl)
  | giveBack q m at_giveBack eq =>
    rw [eq]
    exact hupdate q _ (by rfl) (by rfl) (by rfl)
  | finish q i x holding delivers consumer same returned =>
    exact ⟨(same p).2, (same p).1.published, (same p).1.tailIndex⟩

omit [DecidableEq C] in
/-- A new thread place and new entries or headers leave the counters alone. -/
theorem same_update {R : ImplicitProducer α} (h : (s.producer p).Same R) (p' : P) :
    (s.producer p').Same (update s.producer p R p') := by
  by_cases hp : p' = p
  · rw [hp, Function.update_self]
    exact h
  · rw [Function.update_of_ne hp]
    exact .refl _

/-- The call of `p` is about to give up: the tail would be half a round ahead of the head, there is
no index, or an allocation fails. -/
def Refused (s : Queue P C α) (p : P) (ok : Bool) : Prop :=
  let R := s.producer p
  match R.pc with
  | .loadHead _ => circularLessThan (.ofNat R.headIndex) (.ofNat (R.tailIndex + 32)) = false
  | .insertEntry _ => R.blockIndex = none
  | .newIndex _ => ok = false ∨ (R.blockIndex.any fun h =>
      decide (2 ^ 63 ≤ indexBytes (R.header h).capacity R.nextBlockIndexCapacity)) = true
  | .create _ _ => ok = false
  | _ => False

instance (s : Queue P C α) (p : P) (ok : Bool) : Decidable (Refused s p ok) := by
  unfold Refused
  dsimp only
  split <;> infer_instance

/-- **What a step of the thread of `p` can do.** -/
inductive ProducerMove (s : Queue P C α) (p : P) (ok : Bool) (s' : Queue P C α) : Prop
  | quiet (R : ImplicitProducer α) (producer : s'.producer = update s.producer p R)
      (consumer : s'.consumer = s.consumer) (returned : s'.returned = s.returned)
      (same : (s.producer p).Same R) (onward : (s.producer p).pc.Onward R.pc)
      (element : R.pc.element = (s.producer p).pc.element ∨ R.pc.element = none ∧ Refused s p ok)
  | publish (x : α) (at_storeTail : (s.producer p).pc = .storeTail x)
      (eq : s' = s.setProducer p { s.producer p with
        tailIndex := (s.producer p).tailIndex + 1
        published := (s.producer p).published ++ [x]
        pc := .idle })

omit [DecidableEq C] in
theorem producerMove_of_step {ok : Bool} {k : ℕ} (hs : s.producerStep poolSize p ok k = some s')
    (hf : s'.fault = none) : ProducerMove s p ok s' := by
  have hfail : ∀ f, s.fail f = s' → ProducerMove s p ok s' := by
    rintro f rfl
    cases hf
  -- the thread goes on with its element, or gives up
  have hgo : ∀ {R : ImplicitProducer α}, s'.producer = update s.producer p R →
      s'.consumer = s.consumer → s'.returned = s.returned → (s.producer p).Same R →
      (s.producer p).pc.Onward R.pc ∧ R.pc.element = (s.producer p).pc.element →
        ProducerMove s p ok s' :=
    fun hproducer hconsumer hreturned hsame hnext =>
      .quiet _ hproducer hconsumer hreturned hsame hnext.1 (.inl hnext.2)
  have hgive : ∀ {R : ImplicitProducer α}, s' = s.setProducer p R → (s.producer p).Same R →
      (s.producer p).pc.Onward R.pc ∧ R.pc.element = none → Refused s p ok →
        ProducerMove s p ok s' := by
    rintro R rfl hsame hnext hrefused
    exact .quiet _ rfl rfl rfl hsame hnext.1 (.inr ⟨hnext.2, hrefused⟩)
  cases hpc : (s.producer p).pc with
  | idle =>
    simp only [Queue.producerStep, hpc] at hs
    cases hs
  | loadHead x =>
    simp only [Queue.producerStep, hpc] at hs
    split at hs
    · exact hfail _ (Option.some.inj hs)
    · split at hs
      · cases hs
        exact hgo rfl rfl rfl ⟨rfl, rfl, rfl, rfl, rfl⟩
          (by simp [hpc, EnqueuePc.Onward, EnqueuePc.rank, EnqueuePc.element])
      · rename_i h
        cases hs
        exact hgive rfl ⟨rfl, rfl, rfl, rfl, rfl⟩
          (by simp [hpc, EnqueuePc.Onward, EnqueuePc.rank, EnqueuePc.element])
          (by simpa [Refused, hpc] using h)
  | insertEntry x =>
    simp only [Queue.producerStep, hpc] at hs
    split at hs
    · rename_i h
      cases hs
      exact hgive rfl ⟨rfl, rfl, rfl, rfl, rfl⟩
        (by simp [hpc, EnqueuePc.Onward, EnqueuePc.rank, EnqueuePc.element])
        (by simpa [Refused, hpc] using h)
    · split at hs
      · cases hs
        exact hgo rfl rfl rfl ⟨rfl, rfl, rfl, rfl, rfl⟩
          (by simp [hpc, EnqueuePc.Onward, EnqueuePc.rank, EnqueuePc.element])
      · cases hs
        exact hgo rfl rfl rfl ⟨rfl, rfl, rfl, rfl, rfl⟩
          (by simp [hpc, EnqueuePc.Onward, EnqueuePc.rank, EnqueuePc.element])
  | newIndex x =>
    simp only [Queue.producerStep, hpc] at hs
    split at hs
    · cases hs
    · rename_i h hcur
      split at hs
      · split at hs
        · exact hfail _ (Option.some.inj hs)
        split at hs
        · cases hs
          exact hgo rfl rfl rfl ⟨rfl, rfl, rfl, rfl, rfl⟩
            (by simp [hpc, EnqueuePc.Onward, EnqueuePc.rank, EnqueuePc.element])
        · exact hfail _ (Option.some.inj hs)
      · rename_i hno
        cases hs
        refine hgive rfl ⟨rfl, rfl, rfl, rfl, rfl⟩
          (by simp [hpc, EnqueuePc.Onward, EnqueuePc.rank, EnqueuePc.element]) ?_
        simp only [Refused, hpc]
        cases ok with
        | false => exact .inl rfl
        | true => exact .inr (by simpa [hcur] using hno)
  | storeKey | clearValue | storeValue =>
    simp only [Queue.producerStep, hpc, Option.some.injEq] at hs
    subst hs
    exact hgo rfl rfl rfl ⟨rfl, rfl, rfl, rfl, rfl⟩
      (by simp [hpc, EnqueuePc.Onward, EnqueuePc.rank, EnqueuePc.element])
  | storeIndexTail | rewind =>
    simp only [Queue.producerStep, hpc] at hs
    obtain ⟨h, -, rfl⟩ := Option.map_eq_some_iff.1 hs
    exact hgo rfl rfl rfl ⟨rfl, rfl, rfl, rfl, rfl⟩
      (by simp [hpc, EnqueuePc.Onward, EnqueuePc.rank, EnqueuePc.element])
  | tryPool | tryFreeList =>
    simp only [Queue.producerStep, hpc] at hs
    split at hs
    · cases hs
      exact hgo rfl rfl rfl ⟨rfl, rfl, rfl, rfl, rfl⟩
        (by simp [hpc, EnqueuePc.Onward, EnqueuePc.rank, EnqueuePc.element])
    · cases hs
      exact hgo rfl rfl rfl ⟨rfl, rfl, rfl, rfl, rfl⟩
        (by simp [hpc, EnqueuePc.Onward, EnqueuePc.rank, EnqueuePc.element])
  | create x e =>
    simp only [Queue.producerStep, hpc] at hs
    split at hs
    · cases hs
      exact hgo rfl rfl rfl ⟨rfl, rfl, rfl, rfl, rfl⟩
        (by simp [hpc, EnqueuePc.Onward, EnqueuePc.rank, EnqueuePc.element])
    · rename_i h
      cases hs
      exact hgive rfl ⟨rfl, rfl, rfl, rfl, rfl⟩
        (by simp [hpc, EnqueuePc.Onward, EnqueuePc.rank, EnqueuePc.element])
        (by simpa [Refused, hpc] using h)
  | resetEmpty x e b =>
    simp only [Queue.producerStep, hpc] at hs
    split at hs
    · exact hfail _ (Option.some.inj hs)
    · cases hs
      exact hgo rfl rfl rfl ⟨rfl, rfl, rfl, rfl, rfl⟩
        (by simp [hpc, EnqueuePc.Onward, EnqueuePc.rank, EnqueuePc.element])
  | construct x =>
    simp only [Queue.producerStep, hpc] at hs
    split at hs
    · exact hfail _ (Option.some.inj hs)
    · split at hs
      · exact hfail _ (Option.some.inj hs)
      · split at hs
        · exact hfail _ (Option.some.inj hs)
        · cases hs
          exact hgo rfl rfl rfl ⟨rfl, rfl, rfl, rfl, rfl⟩
            (by simp [hpc, EnqueuePc.Onward, EnqueuePc.rank, EnqueuePc.element])
  | storeTail x =>
    simp only [Queue.producerStep, hpc, Option.some.injEq] at hs
    exact .publish x hpc hs.symm

end DataProxy.ConcurrentQueue
