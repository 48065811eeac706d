import DataProxy.Registry

/-!
# One iteration without interruption

A dispatcher that no other thread interrupts takes the statements of one iteration of
`dispatch_message` one after the other, from `try_dequeue` to the next test of `stop_`.  Which state it
ends in is determined by the state it starts from (`Iterates.unique`).

The fields marked *ghost* belong to the histories of other results.  `World.bare` drops them; no
statement of a dispatcher reads them (`dispatchStep_bare`), so that what an iteration does can be
composed from what its statements do, up to these fields (`Attains`).
-/

namespace DataProxy

open Function (update)

variable {w w' v v' u : World} {d : Dispatcher} {i : ℕ} {k : AwaitType} {p : Packet}
  {first a : Addr} {rest : List Addr} {s : VisitPc} {A : Await}

/-! ### Without the ghosts -/

/-- The object without its ghost fields. -/
def Await.bare (A : Await) : Await := { A with timeoutFor := none, tickFor := none }

/-- The state without its ghost fields. -/
def World.bare (w : World) : World :=
  { w with awaits := fun a => (w.awaits a).map Await.bare, trace := [] }

theorem World.bare_awaits (w : World) : w.bare.awaits = fun a => (w.awaits a).map Await.bare := rfl

theorem bare_update (aw : Addr → Option Await) (a : Addr) (A : Await) :
    (fun b => (update aw a (some A) b).map Await.bare) =
      update (fun b => (aw b).map Await.bare) a (some A.bare) := by
  funext b
  by_cases hb : b = a
  · subst hb
    simp
  · simp [hb]

theorem bare_endWait (aw : Addr → Option Await) (x : Ctl) :
    (fun b => (World.endWait aw x b).map Await.bare) = fun b => (aw b).map Await.bare := by
  funext b
  cases x with
  | suspended a =>
    by_cases hb : b = a
    · subst hb
      cases ha : aw b <;> simp [World.endWait, ha, Await.bare]
    · simp [World.endWait, hb]
  | _ => rfl

theorem bare_bare_awaits (aw : Addr → Option Await) :
    (fun b => ((aw b).map Await.bare).map Await.bare) = fun b => (aw b).map Await.bare := by
  funext b
  cases aw b <;> rfl

/-- A statement of a delivery. -/
theorem visitStep_bare (w : World) (d : Dispatcher) (k : AwaitType) (p : Packet) (first a : Addr)
    (rest : List Addr) (A : Await) (s : VisitPc) :
    (w.visitStep d k p first a rest A s).bare =
      (w.bare.visitStep d k p first a rest A.bare s).bare := by
  cases s with
  | enter =>
    have hh : A.bare.handle = A.handle := rfl
    simp only [World.visitStep, hh]
    cases A.handle with
    | none => simp only [World.bare, bare_bare_awaits]
    | some h =>
      cases k with
      | temp =>
        have hfl : A.bare.filter = A.filter := rfl
        simp only [hfl]
        split <;> simp only [World.bare, bare_bare_awaits]
      | _ => simp only [World.bare, bare_bare_awaits]
  | enqueue h | writeData h =>
    simp only [World.visitStep, World.bare, bare_update, bare_bare_awaits]
    rfl
  | storeState h =>
    simp only [World.visitStep, World.bare, bare_endWait, bare_bare_awaits]
  | loadState h =>
    have hp : w.bare.promise = w.promise := rfl
    simp only [World.visitStep, hp]
    split <;> simp only [World.bare, bare_bare_awaits]
  | loadAwait h =>
    have hp : w.bare.promise = w.promise := rfl
    simp only [World.visitStep, hp]
    split <;> simp only [World.bare, bare_bare_awaits]
  | pushQueue h =>
    simp only [World.visitStep, World.bare, bare_bare_awaits]
    rfl
  | loadTimer =>
    have ht : A.bare.timerId = A.timerId := rfl
    simp only [World.visitStep, ht]
    split <;> simp only [World.bare, bare_bare_awaits]
  | pushRemove id =>
    simp only [World.visitStep, World.enqueueBus, World.bare, bare_bare_awaits]

/-- No statement of a dispatcher reads a ghost. -/
theorem dispatchStep_bare (w : World) (d : Dispatcher) (i : ℕ) :
    (w.dispatchStep d i).map World.bare = (w.bare.dispatchStep d i).map World.bare := by
  have hd : w.bare.disp = w.disp := rfl
  simp only [World.dispatchStep, hd]
  cases w.disp d with
  | fetch =>
    have hstop : w.bare.stop = w.stop := rfl
    have hq : w.bare.busQueue = w.busQueue := rfl
    simp only [hstop, hq]
    split
    · rfl
    · cases (w.busQueue d)[i]? with
      | none => rfl
      | some p => simp only [Option.map_some, World.bare, bare_bare_awaits]
  | lock k p =>
    have hr : w.bare.registry = w.registry := rfl
    simp only [hr]
    cases Multimap.equalRange (w.registry k) p.msg.name <;>
      simp only [Option.map_some, World.bare, bare_bare_awaits]
  | visit k p first a rest s =>
    simp only [World.bare_awaits]
    cases w.awaits a with
    | none => rfl
    | some A => simp [visitStep_bare w d k p first a rest A s]
  | sharedPush p first =>
    simp only [World.bare_awaits]
    cases w.awaits first with
    | none => rfl
    | some A =>
      simp only [World.bare, Option.map_some, bare_bare_awaits]
      rfl

theorem step_dispatch (h : w.fault = none) : step w (.dispatch d i) = w.dispatchStep d i := by
  simp [step, h]

/-- States that differ in ghosts make the same steps. -/
theorem step_dispatch_bare (h : step w (.dispatch d i) = some w') (hb : w.bare = v.bare) :
    ∃ v', step v (.dispatch d i) = some v' ∧ w'.bare = v'.bare := by
  have hfw := fault_of_step h
  have hfv : v.fault = none := (congrArg World.fault hb).symm.trans hfw
  have heq : (w.dispatchStep d i).map World.bare = (v.dispatchStep d i).map World.bare := by
    rw [dispatchStep_bare w, dispatchStep_bare v, hb]
  rw [step_dispatch hfw] at h
  rw [h, Option.map_some] at heq
  obtain ⟨v', hv', hbare⟩ := Option.map_eq_some_iff.1 heq.symm
  exact ⟨v', by rw [step_dispatch hfv, hv'], hbare.symm⟩

/-! ### The iteration -/

/-- In the middle of an iteration the dispatcher `d` makes its next statement. -/
def Goes (d : Dispatcher) (w : World) (act : Action) : Prop :=
  act = .dispatch d 0 ∧ w.disp d ≠ .fetch

/-- One iteration of `dispatch_message` without interruption: `try_dequeue` takes the element at
`i`, and the dispatcher goes on until it is back at the top of the loop. -/
def Iterates (d : Dispatcher) (i : ℕ) (w w' : World) : Prop :=
  w.disp d = .fetch ∧ ∃ w₁, step w (.dispatch d i) = some w₁ ∧ Run.Reach step (Goes d) w₁ w' ∧
    w'.disp d = .fetch

/-- The state in which an iteration ends is determined. -/
theorem Iterates.unique (h : Iterates d i w w') (h' : Iterates d i w v') : w' = v' := by
  obtain ⟨-, w₁, hs, hr, hw⟩ := h
  obtain ⟨-, v₁, hs', hr', hv⟩ := h'
  obtain rfl := Option.some.inj (hs.symm.trans hs')
  exact hr.end_unique (fun _ _ _ ha hb => ha.1.trans hb.1.symm) (fun _ ha => ha.2 hw) hr'
    fun _ ha => ha.2 hv

/-- The dispatcher comes, without interruption, to the state `v`, up to ghosts. -/
def Attains (d : Dispatcher) (w v : World) : Prop :=
  ∃ w', Run.Reach step (Goes d) w w' ∧ w'.bare = v.bare

namespace Attains

theorem refl (h : w.bare = v.bare) : Attains d w v := ⟨w, .refl, h⟩

theorem trans (h : Attains d w v) (h' : Attains d v u) : Attains d w u := by
  obtain ⟨w', hw, hb⟩ := h
  obtain ⟨v', hv, hb'⟩ := h'
  have sim : ∀ (s t : World) act s', s.bare = t.bare → Goes d s act → step s act = some s' →
      Goes d t act ∧ ∃ t', step t act = some t' ∧ s'.bare = t'.bare := by
    rintro s t _ s' hst ⟨rfl, hne⟩ hs
    have hdisp : s.bare.disp = t.bare.disp := congrArg World.disp hst
    exact ⟨⟨rfl, fun h => hne ((congrFun hdisp d).trans h)⟩, step_dispatch_bare hs hst⟩
  obtain ⟨w'', hw', hbare⟩ := hv.simulation sim hb.symm
  exact ⟨w'', hw.trans hw', hbare.symm.trans hb'⟩

/-- The next statement. -/
theorem next (hf : w.fault = none) (hd : w.disp d ≠ .fetch) (hs : w.dispatchStep d 0 = some v)
    (h : Attains d v u) : Attains d w u :=
  trans ⟨v, .tail .refl ⟨rfl, hd⟩ (by rw [step_dispatch hf, hs]), rfl⟩ h

end Attains

end DataProxy
