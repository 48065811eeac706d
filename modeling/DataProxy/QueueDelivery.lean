import DataProxy.QueueSafety

/-!
# The queue delivers every element once and in order

The queue is a refinement of one line of waiting elements for each producer (`Lanes`): an element
joins the line when `enqueue` stores the tail, and leaves it when `dequeue` increments the head,
although neither access touches the element.  From the numbers of the elements it follows what each
consumer gets.
-/

namespace DataProxy.ConcurrentQueue

open Function (update)

variable {P C α : Type} [DecidableEq P] [DecidableEq C] {poolSize : ℕ} {allocated : P → Bool}
  {s s' : Queue P C α} {g : Ghost P C}

/-- The lines of waiting elements, and the elements in the hands of the consumers. -/
def Queue.lanes (s : Queue P C α) : Lanes P C α where
  line p := (s.producer p).published.drop (s.producer p).headIndex
  hand c := (s.consumer c).holding.bind fun h => (s.producer h.1).published[h.2]?.map fun x => (h.1, x)
  out := s.returned.map fun r => (r.consumer, r.producer, r.element)

/-! ### The hands of the consumers -/

omit [DecidableEq P] [DecidableEq C] in
/-- The element a consumer has the index of is marked as its own. -/
theorem Inv.client_of_holding (I : Inv poolSize s g) {c : C} {p : P} {i : ℕ}
    (h : (s.consumer c).holding = some (p, i)) : ((g.lane p).slot i).client = some c := by
  have hok := I.cons c
  cases hc : s.consumer c with
  | idle | loadTail | loadOvercommit | check | reserve | recheck | claim | giveBack =>
    rw [hc] at h
    cases h
  | loadIndex q j =>
    rw [hc] at h hok
    cases h
    exact congrArg Slot.client hok
  | loadIndexTail q j | loadKey q j | loadValue q j | take q j | setEmpty q j | unlink q j
  | release q j =>
    rw [hc] at h hok
    cases h
    rw [hok.1]
    rfl

omit [DecidableEq P] [DecidableEq C] in
theorem Inv.holding_lt (I : Inv poolSize s g) {c : C} {p : P} {i : ℕ}
    (h : (s.consumer c).holding = some (p, i)) :
    i < (s.producer p).headIndex ∧ (s.producer p).headIndex ≤ (s.producer p).published.length := by
  rw [(I.lane p).length]
  refine (I.lane p).tailIndex_pos fun hw => ?_
  have hcl := I.client_of_holding h
  rw [hw] at hcl
  cases hcl

/-! ### Refinement -/

omit [DecidableEq P] [DecidableEq C] in
theorem lanes_congr (hpub : ∀ p, (s'.producer p).published = (s.producer p).published)
    (hhead : ∀ p, (s'.producer p).headIndex = (s.producer p).headIndex)
    (hhold : ∀ c, (s'.consumer c).holding = (s.consumer c).holding)
    (hret : s'.returned = s.returned) : s'.lanes = s.lanes := by
  simp only [Queue.lanes, hpub, hhead, hhold, hret]

omit [DecidableEq C] in
/-- One sub-queue is replaced by one with the same elements. -/
theorem lanes_setProducer {p : P} {R : ImplicitProducer α}
    (hpub : R.published = (s.producer p).published) (hhead : R.headIndex = (s.producer p).headIndex) :
    (s.setProducer p R).lanes = s.lanes := by
  refine lanes_congr (fun p' => ?_) (fun p' => ?_) (fun _ => rfl) rfl
  · show (update s.producer p R p').published = _
    by_cases hp : p' = p
    · rw [hp, Function.update_self, hpub]
    · rw [Function.update_of_ne hp]
  · show (update s.producer p R p').headIndex = _
    by_cases hp : p' = p
    · rw [hp, Function.update_self, hhead]
    · rw [Function.update_of_ne hp]

omit [DecidableEq P] in
theorem lanes_setConsumer {c : C} {pc : DequeuePc P α} (h : pc.holding = (s.consumer c).holding) :
    (s.setConsumer c pc).lanes = s.lanes :=
  lanes_congr (fun _ => rfl) (fun _ => rfl) (holding_update h) rfl

/-- A step of a thread that enqueues. -/
theorem Inv.refines_producer (I : Inv poolSize s g) {p : P} {ok : Bool} (k : ℕ)
    (hm : ProducerMove s p ok s') :
    Run.exec Lanes.step s.lanes (label s (.producer p ok k)).toList = some s'.lanes := by
  cases hm with
  | quiet R producer consumer returned same onward element =>
    have hlabel : label s (.producer p ok k) = none := by
      simp only [label]
      split
      · rename_i x hx
        exact absurd hx (onward.2 x)
      · rfl
    rw [hlabel]
    refine congrArg some (lanes_congr (fun p' => ?_) (fun p' => ?_) (fun c => ?_) returned).symm
    · rw [producer]
      exact (same_update same p').published
    · rw [producer]
      exact (same_update same p').headIndex
    · rw [consumer]
  | publish x at_storeTail eq =>
    have hlabel : label s (.producer p ok k) = some (.push p x) := by simp only [label, at_storeTail]
    have hle : (s.producer p).headIndex ≤ (s.producer p).published.length := by
      rw [(I.lane p).length]
      exact (I.lane p).tailIndex_lt.1
    rw [hlabel, eq]
    refine congrArg some (Lanes.ext ?_ ?_ rfl)
    · funext p'
      show update s.lanes.line p (s.lanes.line p ++ [x]) p' = _
      by_cases hp : p' = p
      · subst hp
        rw [Function.update_self]
        show _ = List.drop (update s.producer p' _ p').headIndex (update s.producer p' _ p').published
        rw [Function.update_self]
        exact (List.drop_append_of_le_length hle).symm
      · rw [Function.update_of_ne hp]
        show _ = List.drop (update s.producer p _ p').headIndex (update s.producer p _ p').published
        rw [Function.update_of_ne hp]
        rfl
    · funext c
      show ((s.consumer c).holding.bind _) = (s.consumer c).holding.bind _
      refine Option.bind_congr fun h hh => ?_
      by_cases hp : h.1 = p
      · have hlt := (I.holding_lt hh).1
        show _ = (update s.producer p _ h.1).published[h.2]?.map _
        rw [hp] at hlt ⊢
        rw [Function.update_self]
        show _ = ((s.producer p).published ++ [x])[h.2]?.map _
        rw [List.getElem?_append_left (by omega)]
      · show _ = (update s.producer p _ h.1).published[h.2]?.map _
        rw [Function.update_of_ne hp]

/-- A step of a consumer. -/
theorem Inv.refines_consumer (I : Inv poolSize s g) {g' : Ghost P C} (I' : Inv poolSize s' g') {c : C}
    (hm : ConsumerMove s c s') :
    Run.exec Lanes.step s.lanes (label s (.consumer c)).toList = some s'.lanes := by
  cases hm with
  | quiet pc onward silent consumer same returned =>
    rw [silent]
    refine congrArg some (lanes_congr (fun p => (same p).1.published) (fun p => (same p).1.headIndex)
      (fun c' => ?_) returned).symm
    rw [consumer]
    exact holding_update onward.2.1 c'
  | reserve p v at_reserve eq =>
    have hlabel : label s (.consumer c) = none := by simp only [label, at_reserve]
    rw [hlabel, eq, lanes_setConsumer, lanes_setProducer]
    · rfl
    · rfl
    · rfl
    · show DequeuePc.holding _ = (s.consumer c).holding
      rw [at_reserve]
      rfl
  | giveBack p m at_giveBack eq =>
    have hlabel : label s (.consumer c) = none := by simp only [label, at_giveBack]
    rw [hlabel, eq, lanes_setConsumer, lanes_setProducer]
    · rfl
    · rfl
    · rfl
    · show DequeuePc.holding _ = (s.consumer c).holding
      rw [at_giveBack]
      rfl
  | claim p m at_claim eq =>
    have hlabel : label s (.consumer c) = some (.pop c p) := by simp only [label, at_claim]
    have hok := I.cons c
    rw [at_claim] at hok
    have hlt : (s.producer p).headIndex < (s.producer p).published.length := by
      rw [(I.lane p).length]
      exact (I.lane p).desk.taken_lt_of_granted hok
    have hhand : s.lanes.hand c = none := by
      show (s.consumer c).holding.bind _ = none
      rw [at_claim]
      rfl
    have hline : s.lanes.line p = (s.producer p).published[(s.producer p).headIndex] ::
        (s.producer p).published.drop ((s.producer p).headIndex + 1) := List.drop_eq_getElem_cons hlt
    rw [hlabel, eq]
    show (Lanes.step s.lanes (.pop c p)).bind _ = _
    rw [Lanes.step_pop hhand hline]
    refine congrArg some (Lanes.ext ?_ ?_ rfl)
    · funext p'
      show update s.lanes.line p _ p' =
        List.drop (update s.producer p _ p').headIndex (update s.producer p _ p').published
      by_cases hp : p' = p
      · subst hp
        rw [Function.update_self, Function.update_self]
      · rw [Function.update_of_ne hp, Function.update_of_ne hp]
        rfl
    · funext c'
      have hpub : ∀ p', (update s.producer p { s.producer p with
          headIndex := (s.producer p).headIndex + 1 } p').published = (s.producer p').published := by
        intro p'
        by_cases hp : p' = p
        · rw [hp, Function.update_self]
        · rw [Function.update_of_ne hp]
      show update s.lanes.hand c _ c' = (update s.consumer c _ c').holding.bind fun h =>
        (update s.producer p _ h.1).published[h.2]?.map _
      by_cases hc : c' = c
      · rw [hc, Function.update_self, Function.update_self]
        show _ = Option.map _ _
        rw [hpub, List.getElem?_eq_getElem hlt]
        rfl
      · rw [Function.update_of_ne hc, Function.update_of_ne hc]
        refine Option.bind_congr fun h _ => ?_
        rw [hpub]
  | finish p i x holding delivers consumer same returned =>
    have hx : (s.producer p).published[i]? = some x := by
      have := (I'.out.returned ⟨c, p, i, x⟩ (by rw [returned]; exact List.mem_cons_self)).2
      rwa [(same p).1.published] at this
    have hhand : s.lanes.hand c = some (p, x) := by
      show (s.consumer c).holding.bind _ = _
      rw [holding]
      show Option.map _ _ = _
      rw [hx]
      rfl
    rw [delivers]
    show (Lanes.step s.lanes (.deliver c)).bind _ = _
    rw [Lanes.step_deliver hhand]
    refine congrArg some (Lanes.ext ?_ ?_ ?_)
    · funext p'
      show _ = List.drop (s'.producer p').headIndex (s'.producer p').published
      rw [(same p').1.headIndex, (same p').1.published]
      rfl
    · funext c'
      show update s.lanes.hand c none c' = (s'.consumer c').holding.bind fun h =>
        (s'.producer h.1).published[h.2]?.map _
      rw [consumer]
      by_cases hc : c' = c
      · rw [hc, Function.update_self, Function.update_self]
        rfl
      · rw [Function.update_of_ne hc, Function.update_of_ne hc]
        refine Option.bind_congr fun h _ => ?_
        rw [(same h.1).1.published]
    · show _ = s'.returned.map _
      rw [returned]
      rfl

/-- **Every step is one of the lines of waiting elements**, the one that `label` says, or none. -/
theorem Inv.refines (I : Inv poolSize s g) {act : Action P C α} (hnear : Near s act)
    (hs : step poolSize s act = some s') :
    Run.exec Lanes.step s.lanes (label s act).toList = some s'.lanes := by
  obtain ⟨g', I'⟩ := I.next hnear hs
  unfold step at hs
  rw [if_neg (by simp [I.noFault])] at hs
  cases act with
  | enqueue p x =>
    simp only [Queue.enqueue] at hs
    split at hs
    · cases hs
      refine congrArg some (lanes_setProducer ?_ ?_).symm <;> rfl
    · cases hs
  | producer p ok k => exact I.refines_producer k (producerMove_of_step hs I'.noFault)
  | dequeue c p =>
    simp only at hs
    split at hs
    · rename_i hc
      cases hs
      refine congrArg some (lanes_setConsumer ?_).symm
      rw [hc]
      rfl
    · cases hs
  | consumer c => exact I.refines_consumer I' (consumerMove_of_step hs I'.noFault)

/-- **The queue refines one line of waiting elements for each producer.**  In every run, the accesses
that `label` marks, taken as steps of the lines, are possible there and lead to the lines of the
queue reached. -/
theorem queue_refines_lanes {acts : List (Lanes.Act P C α)}
    (h : Run.Reach (Run.logged (step poolSize) fun s act l => l ++ (label s act).toList)
      (fun x act => Near x.1 act) ((.init poolSize allocated : Queue P C α), []) (s, acts)) :
    Run.exec Lanes.step Lanes.empty acts = some s.lanes := by
  have hinit : (.init poolSize allocated : Queue P C α).lanes = Lanes.empty := rfl
  rw [← hinit]
  refine Run.exec_of_labels Queue.lanes (fun s act s' hr hnear hs => ?_) h
  obtain ⟨g, I⟩ := Reached.inv hr
  exact I.refines hnear hs

theorem queue_refines_lanes_overlapping :
    ∃ x : Queue Bool Bool ℕ × List (Lanes.Act Bool Bool ℕ), x.2.length = 5 ∧
      Run.exec Lanes.step Lanes.empty x.2 = some x.1.lanes ∧ x.1.lanes.hand false = some (true, 8) := by
  have hrun : (Run.exec (Run.guarded (Run.logged (step 1) fun s act l => l ++ (label s act).toList)
      fun x act => Near x.1 act) ((.init 1 fun _ => true : Queue Bool Bool ℕ), []) overlapping).any
      (fun x => decide (x.2.length = 5 ∧ x.1.lanes.hand false = some (true, 8))) = true := by
    decide +kernel
  obtain ⟨⟨s, acts⟩, hr, hlen, hhand⟩ := Run.exists_reach_of_exec_guarded hrun
  exact ⟨(s, acts), hlen, queue_refines_lanes hr, hhand⟩

/-! ### Every element once -/

/-- **No element is lost, returned twice, or changed.**  A number below the head has been returned by
one call, or is in the hands of one consumer that is still in its call; a number from the head on is
in nobody's hands.  What was returned under a number is what was enqueued under it. -/
theorem exactly_once (h : Reached poolSize allocated s) (p : P) (i : ℕ) :
    (i < (s.producer p).headIndex →
      ((∃ r ∈ s.returned, r.producer = p ∧ r.index = i) ↔
        ∀ c, (s.consumer c).holding ≠ some (p, i))) ∧
    ((s.producer p).headIndex ≤ i → (∀ r ∈ s.returned, ¬(r.producer = p ∧ r.index = i)) ∧
      ∀ c, (s.consumer c).holding ≠ some (p, i)) ∧
    (∀ c c', (s.consumer c).holding = some (p, i) → (s.consumer c').holding = some (p, i) → c = c') ∧
    (s.returned.Pairwise fun r r' => r.producer = r'.producer → r.index ≠ r'.index) ∧
    ∀ r ∈ s.returned, (s.producer r.producer).published[r.index]? = some r.element := by
  obtain ⟨g, I⟩ := h.inv
  have hwait := (I.lane p).waiting i
  refine ⟨fun hi => ⟨?_, fun hno => ?_⟩, fun hi => ⟨?_, fun c hc => ?_⟩, fun c c' hc hc' => ?_,
    I.out.distinct, fun r hr => (I.out.returned r hr).2⟩
  · rintro ⟨r, hr, rfl, rfl⟩ c hc
    have hcl := I.client_of_holding hc
    rw [(I.out.returned r hr).1] at hcl
    cases hcl
  · refine I.out.complete p i ?_
    have hholder := I.out.holder p i
    cases hslot : (g.lane p).slot i with
    | waiting =>
      have := hwait.1 hslot
      omega
    | held c | taken c | emptied c =>
      rw [hslot] at hholder
      exact absurd (hholder c rfl) (hno c)
    | returned => rfl
  · rintro r hr ⟨rfl, rfl⟩
    have hslot := (I.out.returned r hr).1
    rw [hwait.2 hi] at hslot
    cases hslot
  · have hcl := I.client_of_holding hc
    rw [hwait.2 hi] at hcl
    cases hcl
  · have hcl := I.client_of_holding hc
    rw [I.client_of_holding hc'] at hcl
    exact (Option.some.inj hcl).symm

theorem exactly_once_overlapping : ∃ s : Queue Bool Bool ℕ, Reached 1 (fun _ => true) s ∧
    0 < (s.producer true).headIndex ∧
      ((∃ r ∈ s.returned, r.producer = true ∧ r.index = 0) ↔
        ∀ c, (s.consumer c).holding ≠ some (true, 0)) := by
  have hrun : (Run.exec (Run.guarded (step 1) Near) (.init 1 fun _ => true : Queue Bool Bool ℕ)
      overlapping).any (fun s => decide (0 < (s.producer true).headIndex)) = true := by
    decide +kernel
  obtain ⟨s, hr, hhead⟩ := Run.exists_reach_of_exec_guarded hrun
  exact ⟨s, hr, hhead, (exactly_once hr true 0).1 hhead⟩

/-- **What one consumer gets from one producer comes in the order in which it was enqueued**;
`returned` has the latest first. -/
theorem returned_in_order (h : Reached poolSize allocated s) :
    s.returned.Pairwise fun r r' => r.consumer = r'.consumer → r.producer = r'.producer →
      r'.index < r.index := by
  obtain ⟨g, I⟩ := h.inv
  exact I.out.order

/-- One consumer takes both elements. -/
theorem returned_in_order_overlapping : ∃ s : Queue Bool Bool ℕ, Reached 1 (fun _ => true) s ∧
    s.returned.map (fun r => (r.consumer, r.element)) = [(true, 8), (true, 7)] ∧
      s.returned.Pairwise fun r r' => r.consumer = r'.consumer → r.producer = r'.producer →
        r'.index < r.index := by
  have hrun : (Run.exec (Run.guarded (step 1) Near) (.init 1 fun _ => true : Queue Bool Bool ℕ)
      (.enqueue true 7 :: List.replicate 9 (.producer true true 0) ++
        .enqueue true 8 :: List.replicate 2 (.producer true true 0) ++
        .dequeue true true :: List.replicate 12 (.consumer true) ++
        .dequeue true true :: List.replicate 12 (.consumer true))).any
      (fun s => decide (s.returned.map (fun r => (r.consumer, r.element)) = [(true, 8), (true, 7)])) =
      true := by
    decide +kernel
  obtain ⟨s, hr, hout⟩ := Run.exists_reach_of_exec_guarded hrun
  exact ⟨s, hr, hout, returned_in_order hr⟩

/-! ### Every call of `enqueue` -/

/-- The elements with which each thread has called `enqueue`. -/
def calls (_ : Queue P C α) : Action P C α → (P → List α) → P → List α
  | .enqueue p x, l => update l p (l p ++ [x])
  | _, l => l

/-- What was enqueued is published, but for the element of a call in progress. -/
def Stored (x : Queue P C α × (P → List α)) : Prop :=
  ∀ p, x.2 p = (x.1.producer p).published ++ (x.1.producer p).pc.element.toList

/-- An access that does not make the call give up. -/
def Granted (s : Queue P C α) : Action P C α → Prop
  | .producer p ok _ => ¬Refused s p ok
  | _ => True

instance (s : Queue P C α) : (act : Action P C α) → Decidable (Granted s act)
  | .producer _ _ _ => instDecidableNot
  | .enqueue _ _ | .dequeue _ _ | .consumer _ => instDecidableTrue

omit [DecidableEq C] in
theorem Stored.setProducer {l : P → List α} {p : P} {R : ImplicitProducer α} {x : List α}
    (H : Stored (s, l)) (hp : s'.producer = update s.producer p R)
    (hx : x = R.published ++ R.pc.element.toList) : Stored (s', update l p x) := by
  intro p'
  show update l p x p' = _
  rw [hp]
  by_cases hp' : p' = p
  · rw [hp', Function.update_self, Function.update_self, hx]
  · rw [Function.update_of_ne hp', Function.update_of_ne hp']
    exact H p'

theorem Stored.next {l : P → List α} {act : Action P C α} (H : Stored (s, l)) (hgranted : Granted s act)
    (hs : step poolSize s act = some s') (hf : s'.fault = none) : Stored (s', calls s act l) := by
  unfold step at hs
  split at hs
  · cases hs
  · cases act with
    | enqueue p x =>
      simp only [Queue.enqueue] at hs
      split at hs
      · rename_i hpc
        cases hs
        refine H.setProducer rfl ?_
        have hl : l p = (s.producer p).published ++ (s.producer p).pc.element.toList := H p
        rw [hl, hpc]
        show ((s.producer p).published ++ []) ++ [x] = (s.producer p).published ++
          (if _ then EnqueuePc.loadHead x else EnqueuePc.construct x).element.toList
        rw [List.append_nil]
        split <;> rfl
      · cases hs
    | producer p ok k =>
      show Stored (s', l)
      rw [← Function.update_eq_self p l]
      have hl : l p = (s.producer p).published ++ (s.producer p).pc.element.toList := H p
      cases producerMove_of_step hs hf with
      | quiet R producer consumer returned same onward element =>
        refine H.setProducer producer ?_
        rcases element with h | ⟨-, hno⟩
        · rw [same.published, h, hl]
        · exact absurd hno hgranted
      | publish x at_storeTail eq =>
        refine H.setProducer (R := _) (by rw [eq]; rfl) ?_
        rw [hl, at_storeTail]
        exact (List.append_nil _).symm
    | dequeue c p =>
      simp only at hs
      split at hs
      · cases hs
        exact H
      · cases hs
    | consumer c =>
      intro p
      obtain ⟨hpc, hpub, -⟩ := (consumerMove_of_step hs hf).producer p
      show l p = (s'.producer p).published ++ (s'.producer p).pc.element.toList
      rw [hpc, hpub]
      exact H p

/-- **A call of `enqueue` fails only where it gives up**: because an allocation fails or the tail would
be half a round ahead of the head.  In a run without such an access, every element that a thread has
called `enqueue` with is published, in the order of the calls, but for the one of a call in
progress. -/
theorem enqueue_complete {l : P → List α}
    (h : Run.Reach (Run.logged (step poolSize) calls) (fun x act => Near x.1 act ∧ Granted x.1 act)
      ((.init poolSize allocated : Queue P C α), fun _ => []) (s, l)) (p : P) :
    l p = (s.producer p).published ++ (s.producer p).pc.element.toList := by
  refine h.invariant (I := Stored) (fun _ => rfl) ?_ p
  rintro ⟨s₁, l₁⟩ act ⟨s₂, l₂⟩ hr H ⟨hnear, hgranted⟩ hstep
  obtain ⟨hstep, rfl⟩ := Run.logged_eq_some.1 hstep
  have hreach : Reached poolSize allocated s₁ := Run.Reach.fst (x := (s₁, l₁)) (fun _ _ h => h.1) hr
  obtain ⟨g₁, I₁⟩ := hreach.inv
  obtain ⟨g₂, I₂⟩ := I₁.next hnear hstep
  exact H.next hgranted hstep I₂.noFault

theorem enqueue_complete_overlapping : ∃ x : Queue Bool Bool ℕ × (Bool → List ℕ),
    x.2 true = [7, 8] ∧ x.2 true = (x.1.producer true).published ++
      (x.1.producer true).pc.element.toList := by
  have hrun : (Run.exec (Run.guarded (Run.logged (step 1) calls)
      fun x act => Near x.1 act ∧ Granted x.1 act)
      ((.init 1 fun _ => true : Queue Bool Bool ℕ), fun _ => []) overlapping).any
      (fun x => decide (x.2 true = [7, 8])) = true := by
    decide +kernel
  obtain ⟨⟨s, l⟩, hr, hl⟩ := Run.exists_reach_of_exec_guarded hrun
  exact ⟨(s, l), hl, enqueue_complete hr true⟩

end DataProxy.ConcurrentQueue
