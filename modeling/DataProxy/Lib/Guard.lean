import Mathlib.Logic.Function.Basic

/-!
# Calls that may block or throw

A call on a state `σ` blocks (`none`) or comes to its end, by returning or by throwing, and leaves a
state in both cases: what was done before the exception stays done.

A `Mutex` says where in the state a mutex is kept.  `lockGuard` is a scope with a
`std::lock_guard`: the mutex is released on both ways out (`exec_lockGuard`).
-/

namespace Guard

variable {ε σ α β : Type}

/-- A call that throws `ε` and returns `α`. -/
abbrev Call (ε σ α : Type) := ExceptT ε (StateT σ Option) α

namespace Call

/-- The end of the call from the state `s`. -/
def exec (x : Call ε σ α) (s : σ) : Option (Except ε α × σ) := x.run.run s

@[simp] theorem exec_pure (a : α) (s : σ) : exec (pure a : Call ε σ α) s = some (.ok a, s) := rfl

@[simp] theorem exec_throw (e : ε) (s : σ) : exec (throw e : Call ε σ α) s = some (.error e, s) := rfl

@[simp] theorem exec_get (s : σ) : exec (get : Call ε σ σ) s = some (.ok s, s) := rfl

@[simp] theorem exec_modify (f : σ → σ) (s : σ) :
    exec (modify f : Call ε σ Unit) s = some (.ok (), f s) := rfl

/-- An exception skips what follows. -/
@[simp] theorem exec_bind (x : Call ε σ α) (f : α → Call ε σ β) (s : σ) :
    exec (x >>= f) s = (exec x s).bind fun r =>
      match r.1 with
      | .ok a => exec (f a) r.2
      | .error e => some (.error e, r.2) := by
  show Option.bind (exec x s) _ = _
  congr 1
  funext r
  obtain ⟨e | a, s'⟩ := r <;> rfl

@[simp] theorem exec_map (f : α → β) (x : Call ε σ α) (s : σ) :
    exec (f <$> x) s = (exec x s).map fun r => (r.1.map f, r.2) := by
  rw [map_eq_pure_bind, exec_bind]
  cases exec x s with
  | none => rfl
  | some r => obtain ⟨e | a, s'⟩ := r <;> rfl

/-- The handler starts from the state that the exception has left. -/
@[simp] theorem exec_tryCatch (x : Call ε σ α) (f : ε → Call ε σ α) (s : σ) :
    exec (tryCatch x f) s = (exec x s).bind fun r =>
      match r.1 with
      | .ok a => some (.ok a, r.2)
      | .error e => exec (f e) r.2 := by
  show Option.bind (exec x s) _ = _
  congr 1
  funext r
  obtain ⟨e | a, s'⟩ := r <;> rfl

end Call

/-- A mutex kept in the state. -/
structure Mutex (σ : Type) where
  locked : σ → Bool
  set : Bool → σ → σ

/-- `lock()` blocks while the mutex is held, by whomever. -/
def lock (m : Mutex σ) : Call ε σ Unit := fun s =>
  if m.locked s then none else some (.ok (), m.set true s)

/-- `unlock()`. -/
def unlock (m : Mutex σ) : Call ε σ Unit := modify (m.set false)

/-- A scope that begins with `std::lock_guard lk(m)`. -/
def lockGuard (m : Mutex σ) (body : Call ε σ α) : Call ε σ α := do
  lock m
  let r ← tryCatch body fun e => do
    unlock m
    throw e
  unlock m
  return r

open Call

@[simp] theorem exec_lock (m : Mutex σ) (s : σ) :
    exec (lock m : Call ε σ Unit) s = if m.locked s then none else some (.ok (), m.set true s) := rfl

@[simp] theorem exec_unlock (m : Mutex σ) (s : σ) :
    exec (unlock m : Call ε σ Unit) s = some (.ok (), m.set false s) := rfl

/-- **Both ways out release the mutex.** -/
theorem exec_lockGuard (m : Mutex σ) (body : Call ε σ α) (s : σ) (h : m.locked s = false) :
    exec (lockGuard m body) s =
      (exec body (m.set true s)).map fun r => (r.1, m.set false r.2) := by
  simp only [lockGuard, exec_bind, exec_lock, h, exec_tryCatch]
  cases hb : exec body (m.set true s) with
  | none => simp [hb]
  | some r =>
    obtain ⟨e | a, s'⟩ := r <;> simp [hb]

theorem exec_lockGuard_locked (m : Mutex σ) (body : Call ε σ α) (s : σ) (h : m.locked s = true) :
    exec (lockGuard m body) s = none := by
  simp [lockGuard, h]

end Guard
