import Mathlib.Data.List.Basic
import Mathlib.Data.List.Nodup
import Mathlib.Data.List.Perm.Basic

/-!
# Multimaps as association lists

An unordered multimap is a list of key/value pairs in iteration order.  Where among the equal keys
an insertion lands is not specified, so `insertAt` takes the position as an argument; an erasure
through an iterator removes one element (`List.erase` on a list without duplicates).
-/

namespace Multimap

variable {κ β : Type*} [DecidableEq κ]

/-- The values stored under `k`, in iteration order. -/
def equalRange (l : List (κ × β)) (k : κ) : List β :=
  (l.filter fun e => decide (e.1 = k)).map Prod.snd

@[simp] theorem mem_equalRange {l : List (κ × β)} {k : κ} {v : β} :
    v ∈ equalRange l k ↔ (k, v) ∈ l := by
  simp only [equalRange, List.mem_map, List.mem_filter, decide_eq_true_eq, Prod.exists]
  constructor
  · rintro ⟨k', v', ⟨h, rfl⟩, rfl⟩
    exact h
  · exact fun h => ⟨k, v, ⟨h, rfl⟩, rfl⟩

/-- A value that is stored once under a key is once in its range. -/
theorem nodup_equalRange {l : List (κ × β)} (h : l.Nodup) (k : κ) : (equalRange l k).Nodup := by
  refine List.Nodup.map_on ?_ (h.filter _)
  rintro ⟨k₁, v₁⟩ h₁ ⟨k₂, v₂⟩ h₂ rfl
  obtain rfl : k₁ = k := by simpa using (List.mem_filter.1 h₁).2
  obtain rfl : k₂ = k₁ := by simpa using (List.mem_filter.1 h₂).2
  rfl

/-- Insert an element at a position of the iteration order. -/
def insertAt {γ : Type*} (l : List γ) (pos : ℕ) (e : γ) : List γ := l.take pos ++ e :: l.drop pos

theorem insertAt_perm {γ : Type*} (l : List γ) (pos : ℕ) (e : γ) :
    (insertAt l pos e).Perm (e :: l) := by
  have h : (l.take pos ++ e :: l.drop pos).Perm (e :: (l.take pos ++ l.drop pos)) :=
    List.perm_middle
  rwa [List.take_append_drop] at h

@[simp] theorem mem_insertAt {γ : Type*} {l : List γ} {pos : ℕ} {e x : γ} :
    x ∈ insertAt l pos e ↔ x = e ∨ x ∈ l := by
  rw [(insertAt_perm l pos e).mem_iff, List.mem_cons]

theorem nodup_insertAt {γ : Type*} {l : List γ} {pos : ℕ} {e : γ} :
    (insertAt l pos e).Nodup ↔ e ∉ l ∧ l.Nodup := by
  rw [(insertAt_perm l pos e).nodup_iff, List.nodup_cons]

theorem equalRange_insertAt_of_ne {l : List (κ × β)} {k k' : κ} (h : k' ≠ k) (pos : ℕ) (v : β) :
    equalRange (insertAt l pos (k', v)) k = equalRange l k := by
  have hsplit : l.filter (fun e => decide (e.1 = k)) =
      (l.take pos).filter (fun e => decide (e.1 = k)) ++
        (l.drop pos).filter (fun e => decide (e.1 = k)) := by
    rw [← List.filter_append, List.take_append_drop]
  rw [equalRange, insertAt, List.filter_append, List.filter_cons_of_neg (by simpa using h),
    ← hsplit, equalRange]

theorem equalRange_insertAt_perm (l : List (κ × β)) (k : κ) (pos : ℕ) (v : β) :
    (equalRange (insertAt l pos (k, v)) k).Perm (v :: equalRange l k) := by
  have h := ((insertAt_perm l pos (k, v)).filter fun e => decide (e.1 = k)).map Prod.snd
  simpa [equalRange] using h

variable [DecidableEq β]

theorem equalRange_erase_perm {l : List (κ × β)} {k : κ} {v : β} (h : (k, v) ∈ l) :
    (equalRange l k).Perm (v :: equalRange (l.erase (k, v)) k) := by
  have h := ((List.perm_cons_erase h).filter fun e => decide (e.1 = k)).map Prod.snd
  simpa [equalRange] using h

theorem equalRange_erase_of_ne {l : List (κ × β)} {k k' : κ} (h : k' ≠ k) (v : β) :
    equalRange (l.erase (k', v)) k = equalRange l k := by
  induction l with
  | nil => rfl
  | cons e l ih =>
    by_cases he : e = (k', v)
    · subst he
      simp [equalRange, h]
    · rw [List.erase_cons_tail (by simpa using he)]
      simp only [equalRange, List.filter_cons] at ih ⊢
      split
      · rw [List.map_cons, List.map_cons, ih]
      · exact ih

end Multimap
