import DataProxy.QueueDelivery
import DataProxy.FanOut

/-!
# The bus queues as lists

A `World` has a list for each of the two bus queues: a message is added at its end, and a dispatcher
takes the one at any place `i`.  Here this is compared with what `ConcurrentQueue` does.  The lines of
its producers are merged to one list, in the order of the stores of the tail; an increment of the head
takes an element from the list, and before this element stands none of the same producer.
-/

namespace DataProxy.ConcurrentQueue

open Function (update)

/-- An operation on the list of a bus queue; `p` is the thread that has pushed the message. -/
inductive BusOp (P : Type)
  | push (p : P) (m : Packet)
  | fetch (p : P) (i : ℕ)

/-- The operation is the one that the access stands for. -/
def BusOp.Serves {P C : Type} : BusOp P → Lanes.Act P C Packet → Prop
  | .push p m, .push p' m' => p = p' ∧ m = m'
  | .fetch p _, .pop _ p' => p = p'
  | _, _ => False

/-- The access changes the lines. -/
def moves {P C : Type} : Lanes.Act P C Packet → Bool
  | .push _ _ | .pop _ _ => true
  | .deliver _ => false

variable {P C : Type} [DecidableEq P] [DecidableEq C] {poolSize : ℕ} {allocated : P → Bool}
  {s s' : Queue P C Packet} {d : Dispatcher}

/-- The bus queue of `d`, with the senders of the messages in it.  A message can be fetched if none of
the same sender stands before it. -/
def busStep (d : Dispatcher) (x : World × List (P × Packet)) : BusOp P →
    Option (World × List (P × Packet))
  | .push p m => some (x.1.enqueueBus d m, x.2 ++ [(p, m)])
  | .fetch p i =>
    if x.2[i]?.map Prod.fst = some p ∧ ∀ e ∈ x.2.take i, e.1 ≠ p then
      some (x.1.tryDequeue d i, x.2.eraseIdx i)
    else none

/-- The list of the world and the lines of the queue after the same operations. -/
structure Recounted (d : Dispatcher) (w : World) (s : Queue P C Packet)
    (acts : List (Lanes.Act P C Packet)) (ops : List (BusOp P)) (x : World × List (P × Packet)) :
    Prop where
  serves : List.Forall₂ BusOp.Serves ops (acts.filter moves)
  exec : Run.exec (busStep d) (w, []) ops = some x
  list : x.1.busQueue d = x.2.map Prod.snd
  merged : s.lanes.Merged x.2

/-- The world does the operation that an access stands for. -/
theorem Recounted.next {w : World} {acts : List (Lanes.Act P C Packet)} {ops : List (BusOp P)}
    {x : World × List (P × Packet)} (h : Recounted d w s acts ops x) {a : Lanes.Act P C Packet}
    (hs : s.lanes.step a = some s'.lanes) : ∃ ops' x', Recounted d w s' (acts ++ [a]) ops' x' := by
  obtain ⟨l, hstep, hmerged⟩ := h.merged.step hs
  have after : ∀ {op : BusOp P} {x' : World × List (P × Packet)}, busStep d x op = some x' →
      Run.exec (busStep d) (w, []) (ops ++ [op]) = some x' := by
    intro op x' hop
    rw [Run.exec_append, h.exec]
    show Run.exec (busStep d) x [op] = some x'
    rw [Run.exec_cons, hop]
    rfl
  cases hstep with
  | push p m =>
    refine ⟨ops ++ [.push p m], (x.1.enqueueBus d m, x.2 ++ [(p, m)]), ?_, after rfl, ?_, hmerged⟩
    · rw [List.filter_append]
      exact List.rel_append h.serves (.cons ⟨rfl, rfl⟩ .nil)
    · show update x.1.busQueue d (x.1.busQueue d ++ [m]) d = _
      rw [Function.update_self, h.list, List.map_append]
      rfl
  | @pop c p m i hi hfirst =>
    refine ⟨ops ++ [.fetch p i], (x.1.tryDequeue d i, x.2.eraseIdx i), ?_, after ?_, ?_, hmerged⟩
    · rw [List.filter_append]
      exact List.rel_append h.serves (.cons rfl .nil)
    · rw [busStep, if_pos ⟨by rw [hi]; rfl, hfirst⟩]
    · show update x.1.busQueue d ((x.1.busQueue d).eraseIdx i) d = _
      rw [Function.update_self, h.list, List.eraseIdx_map]
  | deliver c =>
    refine ⟨ops, x, ?_, h.exec, h.list, hmerged⟩
    rw [List.filter_append]
    simpa [moves] using h.serves

/-- **The list of a bus queue stands for the queue.**  In every run of the queue, its stores of the tail
and its increments of the head, taken as operations on the list of a world, are possible there, in
that order; and the list then holds what waits in the queue, each producer's messages in their
order. -/
theorem bus_queue_refined {w : World} (hw : w.busQueue d = []) {acts : List (Lanes.Act P C Packet)}
    (h : Run.Reach (Run.logged (step poolSize) fun s act l => l ++ (label s act).toList)
      (fun x act => Near x.1 act) ((.init poolSize allocated : Queue P C Packet), []) (s, acts)) :
    ∃ ops x, List.Forall₂ BusOp.Serves ops (acts.filter moves) ∧
      Run.exec (busStep d) (w, []) ops = some x ∧ x.1.busQueue d = x.2.map Prod.snd ∧
      ∀ p, (x.2.filter fun e => decide (e.1 = p)).map Prod.snd = s.lanes.line p := by
  have hlisted : ∃ ops x, Recounted d w s acts ops x := by
    refine h.invariant (I := fun y => ∃ ops x, Recounted d w y.1 y.2 ops x) ?_ ?_
    · exact ⟨[], (w, []), .nil, rfl, hw, fun _ => rfl⟩
    · rintro ⟨s₁, acts₁⟩ act ⟨s₂, acts₂⟩ hr ⟨ops, x, hx⟩ hnear hstep
      obtain ⟨hstep, rfl⟩ := Run.logged_eq_some.1 hstep
      have hreach : Reached poolSize allocated s₁ :=
        Run.Reach.fst (x := (s₁, acts₁)) (fun _ _ h => h) hr
      obtain ⟨g, I⟩ := hreach.inv
      have hrefines := I.refines hnear hstep
      show ∃ ops x, Recounted d w s₂ (acts₁ ++ (label s₁ act).toList) ops x
      cases hlabel : label s₁ act with
      | none =>
        rw [hlabel] at hrefines
        have hlanes : s₁.lanes = s₂.lanes := Option.some.inj hrefines
        refine ⟨ops, x, ?_, hx.exec, hx.list, hlanes ▸ hx.merged⟩
        rw [Option.toList_none, List.append_nil]
        exact hx.serves
      | some a =>
        rw [hlabel] at hrefines
        refine hx.next ?_
        have hbind : (s₁.lanes.step a).bind some = some s₂.lanes := hrefines
        rwa [Option.bind_fun_some] at hbind
  obtain ⟨ops, x, hx⟩ := hlisted
  exact ⟨ops, x, hx.serves, hx.exec, hx.list, hx.merged⟩

/-- Two threads send; the message of the second is fetched first, from the middle of the list. -/
theorem bus_queue_refined_twoSenders : ∃ (s : Queue Bool Unit Packet)
    (acts : List (Lanes.Act Bool Unit Packet)), (acts.filter moves).length = 4 ∧
      ∃ ops x, List.Forall₂ BusOp.Serves ops (acts.filter moves) ∧
        Run.exec (busStep .normal) (World.init, []) ops = some x ∧
        x.1.busQueue .normal = x.2.map Prod.snd ∧
        ∀ p, (x.2.filter fun e => decide (e.1 = p)).map Prod.snd = s.lanes.line p := by
  have hrun : (Run.exec (Run.guarded (Run.logged (step 1) fun s act l => l ++ (label s act).toList)
      fun x act => Near x.1 act) ((.init 1 fun _ => true : Queue Bool Unit Packet), [])
      (.enqueue true { msg := { name := "a" } } :: List.replicate 9 (.producer true true 0) ++
        .enqueue true { msg := { name := "b" } } :: List.replicate 2 (.producer true true 0) ++
        .enqueue false { msg := { name := "c" } } :: List.replicate 11 (.producer false true 0) ++
        .dequeue () false :: List.replicate 12 (.consumer ()))).any
      (fun x => decide ((x.2.filter moves).length = 4)) = true := by
    decide +kernel
  obtain ⟨⟨s, acts⟩, hr, hlen⟩ := Run.exists_reach_of_exec_guarded hrun
  exact ⟨s, acts, hlen, bus_queue_refined rfl hr⟩

end DataProxy.ConcurrentQueue
