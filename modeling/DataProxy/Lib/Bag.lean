import Mathlib.Algebra.BigOperators.Group.List.Basic
import Mathlib.Data.List.Perm.Basic

/-!
# Lists used as bags

A queue whose order of removal is left open is a list from which the element at any index may be
taken.  Taking it leaves the same elements up to order.  A sum over a list without duplicates changes
by what changes at one element.
-/

namespace Bag

variable {α : Type*} {l : List α} {i : ℕ} {e x : α}

/-- The element taken and what is left are a permutation of the list. -/
theorem perm_take (h : l[i]? = some e) : l.Perm (e :: l.eraseIdx i) := by
  obtain ⟨hi, rfl⟩ := List.getElem?_eq_some_iff.1 h
  exact (List.getElem_cons_eraseIdx_perm hi).symm

theorem mem_take_iff (h : l[i]? = some e) : x ∈ l ↔ x = e ∨ x ∈ l.eraseIdx i := by
  rw [(perm_take h).mem_iff, List.mem_cons]

/-- Taking from a part of the list is taking from the list. -/
theorem exists_take_of_filter {p : α → Bool} (h : (l.filter p)[i]? = some e) :
    ∃ j, l[j]? = some e ∧ (l.eraseIdx j).filter p = (l.filter p).eraseIdx i := by
  induction l generalizing i with
  | nil => simp at h
  | cons x l ih =>
    by_cases hx : p x = true
    · rw [List.filter_cons_of_pos hx] at h ⊢
      cases i with
      | zero => exact ⟨0, by simpa using h, by simp⟩
      | succ i =>
        obtain ⟨j, hj, hl⟩ := ih (by simpa using h)
        exact ⟨j + 1, by simpa using hj, by simp [List.eraseIdx_cons_succ, hx, hl]⟩
    · rw [List.filter_cons_of_neg hx] at h ⊢
      obtain ⟨j, hj, hl⟩ := ih h
      exact ⟨j + 1, by simpa using hj, by simp [List.eraseIdx_cons_succ, hx, hl]⟩

/-- Two functions that agree off `e` have sums that differ by their values at `e`. -/
theorem sum_map_add {M : Type*} [AddCommMonoid M] [DecidableEq α] {f g : α → M} (hl : l.Nodup)
    (he : e ∈ l) (h : ∀ x ∈ l, x ≠ e → f x = g x) :
    (l.map f).sum + g e = (l.map g).sum + f e := by
  have hp : l.Perm (e :: l.erase e) := List.perm_cons_erase he
  have hrest : (l.erase e).map f = (l.erase e).map g := by
    refine List.map_congr_left fun x hx => h x (List.mem_of_mem_erase hx) ?_
    rintro rfl
    exact hl.not_mem_erase hx
  rw [(hp.map f).sum_eq, (hp.map g).sum_eq, List.map_cons, List.map_cons, List.sum_cons,
    List.sum_cons, hrest, add_comm (f e), add_assoc, add_comm (f e), ← add_assoc,
    add_comm ((l.erase e).map g).sum (g e)]

end Bag
