import Mathlib.Logic.Function.Basic
import Mathlib.Data.List.Basic

/-!
# Lines of waiting elements, one for each producer

What a queue with several producers and consumers is for.  An element goes to the end of the line of
its producer; a consumer takes the first element of a line into its hand, and delivers it later.

`Merged` puts the lines together to one list: the end of a line is the end of the list, and its first
element is somewhere in the list, with none of its line before it.
-/

open Function (update)

/-- The lines, the hands of the consumers, and what was delivered, the latest first. -/
@[ext] structure Lanes (P C α : Type*) where
  line : P → List α
  hand : C → Option (P × α)
  out : List (C × P × α)

namespace Lanes

variable {P C α : Type*} [DecidableEq P] [DecidableEq C]

def empty : Lanes P C α := ⟨fun _ => [], fun _ => none, []⟩

inductive Act (P C α : Type*)
  | push (p : P) (x : α)
  | pop (c : C) (p : P)
  | deliver (c : C)

def step (L : Lanes P C α) : Act P C α → Option (Lanes P C α)
  | .push p x => some { L with line := update L.line p (L.line p ++ [x]) }
  | .pop c p =>
    match L.hand c, L.line p with
    | none, x :: l => some { L with line := update L.line p l, hand := update L.hand c (some (p, x)) }
    | _, _ => none
  | .deliver c =>
    match L.hand c with
    | some (p, x) => some { L with hand := update L.hand c none, out := (c, p, x) :: L.out }
    | none => none

theorem step_pop {L : Lanes P C α} {c : C} {p : P} {x : α} {l : List α} (hc : L.hand c = none)
    (hp : L.line p = x :: l) : L.step (.pop c p) =
      some { L with line := update L.line p l, hand := update L.hand c (some (p, x)) } := by
  simp only [step, hc, hp]

theorem step_deliver {L : Lanes P C α} {c : C} {p : P} {x : α} (hc : L.hand c = some (p, x)) :
    L.step (.deliver c) = some { L with hand := update L.hand c none, out := (c, p, x) :: L.out } := by
  simp only [step, hc]

/-! ### The lines in one list -/

/-- An element is taken out of a list; if it is one of those with `f`, it is the first of them. -/
theorem filter_eraseIdx_of_first {f : α → Bool} {l : List α} {i : ℕ} {x : α} (hi : l[i]? = some x)
    (hfirst : f x = true → ∀ y ∈ l.take i, f y = false) :
    l.filter f = (if f x then [x] else []) ++ (l.eraseIdx i).filter f := by
  induction l generalizing i with
  | nil => cases hi
  | cons y l ih =>
    cases i with
    | zero =>
      obtain rfl : y = x := by simpa using hi
      by_cases hy : f y = true <;> simp [hy]
    | succ i =>
      have hl := ih (by simpa using hi) fun hx z hz => hfirst hx z (by simp [hz])
      by_cases hy : f y = true
      · have hx : f x = false := by
          by_contra hx
          have hyf := hfirst (by simpa using hx) y (by simp)
          rw [hy] at hyf
          cases hyf
        simp [hy, hx, hl]
      · simp [hy, hl]

/-- The list holds the lines: it is a merge of them. -/
def Merged (L : Lanes P C α) (l : List (P × α)) : Prop :=
  ∀ p, (l.filter fun e => decide (e.1 = p)).map Prod.snd = L.line p

omit [DecidableEq C] in
@[simp] theorem merged_empty : (empty : Lanes P C α).Merged [] := fun _ => rfl

/-- The first element of a line is found somewhere, after elements of other lines. -/
theorem exists_first {l : List (P × α)} {p : P} {x : α} {r : List α}
    (h : (l.filter fun e => decide (e.1 = p)).map Prod.snd = x :: r) :
    ∃ i, l[i]? = some (p, x) ∧ ∀ e ∈ l.take i, e.1 ≠ p := by
  induction l with
  | nil => cases h
  | cons e l ih =>
    by_cases he : e.1 = p
    · refine ⟨0, ?_, by simp⟩
      have hx : e.2 = x := by simp [he] at h; exact h.1
      simp [← he, ← hx]
    · obtain ⟨i, hi, hlt⟩ := ih (by simpa [he] using h)
      refine ⟨i + 1, by simpa using hi, ?_⟩
      intro e' he'
      rcases List.mem_cons.1 he' with rfl | hmem
      · exact he
      · exact hlt e' hmem

/-- What a step of the lines does to the list. -/
inductive MergedStep (l : List (P × α)) : Act P C α → List (P × α) → Prop
  | push (p : P) (x : α) : MergedStep l (.push p x) (l ++ [(p, x)])
  | pop (c : C) {p : P} {x : α} {i : ℕ} (hi : l[i]? = some (p, x)) (hfirst : ∀ e ∈ l.take i, e.1 ≠ p) :
    MergedStep l (.pop c p) (l.eraseIdx i)
  | deliver (c : C) : MergedStep l (.deliver c) l

theorem Merged.step {L L' : Lanes P C α} {l : List (P × α)} {act : Act P C α} (h : L.Merged l)
    (hs : L.step act = some L') : ∃ l', MergedStep l act l' ∧ L'.Merged l' := by
  cases act with
  | push p x =>
    cases hs
    refine ⟨_, .push p x, fun p' => ?_⟩
    by_cases hp : p' = p
    · subst hp
      simp [← h p']
    · have hne : ¬p = p' := fun he => hp he.symm
      simp [hp, hne, h p']
  | pop c p =>
    simp only [Lanes.step] at hs
    split at hs
    · rename_i x r hhand hline
      cases hs
      obtain ⟨i, hi, hfirst⟩ := exists_first ((h p).trans hline)
      refine ⟨_, .pop c hi hfirst, fun p' => ?_⟩
      have hsplit := filter_eraseIdx_of_first (f := fun e : P × α => decide (e.1 = p')) hi
        fun hpp e he => by
          have : p = p' := by simpa using hpp
          simpa [← this] using hfirst e he
      have hp' := h p'
      rw [hsplit] at hp'
      by_cases hp : p' = p
      · subst hp
        rw [hline] at hp'
        simpa using hp'
      · have hne : ¬p = p' := fun he => hp he.symm
        simpa [hp, hne] using hp'
    · cases hs
  | deliver c =>
    refine ⟨l, .deliver c, fun p => ?_⟩
    simp only [Lanes.step] at hs
    split at hs
    · cases hs
      exact h p
    · cases hs

end Lanes
