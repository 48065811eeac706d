import Mathlib.Algebra.BigOperators.Group.Finset.Basic
import Mathlib.Data.Fintype.Card

/-!
# Threads and condition variables

The threads of a program are a function from thread to place.  `notifyAll` moves every thread that
is blocked on a condition variable; `count` counts the threads at the places of a kind, and
`count_update` says how the count changes when one thread moves.
-/

namespace CondVar

/-- A thread at `p` after one thread has moved elsewhere was there before. -/
theorem eq_of_update_eq {ι π : Type*} [DecidableEq ι] {f : ι → π} {i j : ι} {x p : π} (hx : x ≠ p)
    (h : Function.update f i x j = p) : f j = p := by
  by_cases hji : j = i
  · subst hji
    exact absurd (by simpa using h) hx
  · rwa [Function.update_of_ne hji] at h

section notify

variable {ι π : Type*} [DecidableEq π] {blocked notified p : π} {f : ι → π} {i : ι}

/-- `notify_all`: every thread at `blocked` comes to `notified`. -/
def notifyAll (blocked notified : π) (f : ι → π) (i : ι) : π :=
  if f i = blocked then notified else f i

theorem notifyAll_ne_blocked (h : notified ≠ blocked) :
    notifyAll blocked notified f i ≠ blocked := by
  unfold notifyAll
  split
  · exact h
  · assumption

/-- A thread found at a place other than `notified` was not moved. -/
theorem notifyAll_eq (hp : p ≠ notified) (h : notifyAll blocked notified f i = p) : f i = p := by
  unfold notifyAll at h
  split at h
  · exact absurd h.symm hp
  · exact h

/-- `notify_one`: a thread at `blocked`, here `i`, comes to `notified`; if there is none, nothing
happens. -/
def notifyOne [Fintype ι] [DecidableEq ι] (blocked notified : π) (f : ι → π) (i : ι) :
    Option (ι → π) :=
  if f i = blocked then some (Function.update f i notified)
  else if ∀ j, f j ≠ blocked then some f
  else none

/-- What `notify_one` can do. -/
theorem notifyOne_cases [Fintype ι] [DecidableEq ι] {g : ι → π}
    (h : notifyOne blocked notified f i = some g) :
    f i = blocked ∧ g = Function.update f i notified ∨ (∀ j, f j ≠ blocked) ∧ g = f := by
  unfold notifyOne at h
  split at h
  · rename_i hi
    exact .inl ⟨hi, by simpa using h.symm⟩
  · split at h
    · rename_i hj
      exact .inr ⟨hj, by simpa using h.symm⟩
    · cases h

end notify

section count

variable {ι π : Type*} [Fintype ι] {p : π → Bool} {f : ι → π}

/-- The number of threads at a place of kind `p`. -/
def count (p : π → Bool) (f : ι → π) : ℕ := (Finset.univ.filter fun i => p (f i) = true).card

theorem count_le_card (p : π → Bool) (f : ι → π) : count p f ≤ Fintype.card ι :=
  Finset.card_le_univ _

theorem count_pos_iff : 0 < count p f ↔ ∃ i, p (f i) = true := by
  simp [count, Finset.card_pos, Finset.filter_nonempty_iff]

/-- One thread moves to `x`. -/
theorem count_update [DecidableEq ι] (p : π → Bool) (f : ι → π) (i : ι) (x : π) :
    count p (Function.update f i x) + (p (f i)).toNat = count p f + (p x).toNat := by
  have split : ∀ g : ι → π, count p g =
      (p (g i)).toNat + ((Finset.univ.erase i).filter fun j => p (g j) = true).card := by
    intro g
    rw [count, ← Finset.insert_erase (Finset.mem_univ i), Finset.filter_insert]
    cases hg : p (g i) with
    | false => simp
    | true => simp [Nat.add_comm]
  have rest : ((Finset.univ.erase i).filter fun j => p (Function.update f i x j) = true) =
      (Finset.univ.erase i).filter fun j => p (f j) = true := by
    refine Finset.filter_congr fun j hj => ?_
    rw [Function.update_of_ne (Finset.ne_of_mem_erase hj)]
  rw [split (Function.update f i x), split f, rest, Function.update_self]
  omega

end count

end CondVar
