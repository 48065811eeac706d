import Mathlib.Data.List.Induction
import Mathlib.Order.Basic
import Mathlib.Order.Lattice

/-!
# Optimistic tickets

Clients share a supply that only grows.  A client draws the next number of a counter, `drawn`, and
then compares its number with the supply.  It may be granted one unit, which it takes by moving a
second counter, `taken`; or it is refused, and says so by moving a third counter, `back`.  What it
compares is its number less the value of `back` that it read *before* it drew: the numbers given
back by then are all smaller than its own.

`Desk` is the three counters with the history of the numbers drawn, and `Desk.Ok d n` is the
invariant for a supply of `n`.  Its main part is `Covered`: up to a number that was granted, no more
than `n` numbers still stand.  So no more than `n` units are ever granted, in whatever order the
clients move (`Ok.taken_le`, `Ok.taken_lt_of_granted`).
-/

namespace Tickets

/-- What became of a number that was drawn, and which client still has to act on it. -/
inductive Fate (C : Type*)
  | pending (c : C)
  | granted (c : C)
  | taken
  | refused (c : C)
  | returned
  deriving DecidableEq

namespace Fate

variable {C : Type*}

/-- The number will take no unit. -/
def lost : Fate C → Bool
  | .refused _ | .returned => true
  | .pending _ | .granted _ | .taken => false

/-- The number has a unit of its own. -/
def served : Fate C → Bool
  | .granted _ | .taken => true
  | .pending _ | .refused _ | .returned => false

def isTaken : Fate C → Bool
  | .taken => true
  | .pending _ | .granted _ | .refused _ | .returned => false

def isReturned : Fate C → Bool
  | .returned => true
  | .pending _ | .granted _ | .refused _ | .taken => false

end Fate

variable {C : Type*} {l : List (Fate C)} {n m v : ℕ} {f f' : Fate C} {c : C}

/-- How many of the numbers still stand. -/
def standing (l : List (Fate C)) : ℕ := l.countP fun f => !f.lost

/-- How many of the numbers are lost. -/
def lostCount (l : List (Fate C)) : ℕ := l.countP Fate.lost

theorem standing_add_lostCount (l : List (Fate C)) : standing l + lostCount l = l.length := by
  have h := List.length_eq_countP_add_countP Fate.lost (l := l)
  have hnot : standing l = l.countP (fun f => decide ¬f.lost = true) :=
    List.countP_congr fun f _ => by simp
  rw [hnot, lostCount]
  omega

theorem standing_append (l l' : List (Fate C)) :
    standing (l ++ l') = standing l + standing l' := List.countP_append

/-- Replacing one element changes a count by that element. -/
theorem countP_set_add {p : Fate C → Bool} (h : l[m]? = some f) (f' : Fate C) :
    (l.set m f').countP p + (if p f then 1 else 0) = l.countP p + (if p f' then 1 else 0) := by
  obtain ⟨hm, rfl⟩ := List.getElem?_eq_some_iff.1 h
  have hpos : (if p l[m] then 1 else 0) ≤ l.countP p := by
    split
    · exact List.countP_pos_iff.2 ⟨l[m], List.getElem_mem hm, by assumption⟩
    · exact Nat.zero_le _
  rw [List.countP_set hm]
  omega

/-- A number that is lost stays lost, so what stands does not grow. -/
theorem standing_take_set_le (h : l[m]? = some f) (hlost : f.lost = true → f'.lost = true) (k : ℕ) :
    standing ((l.set m f').take k) ≤ standing (l.take k) := by
  rw [List.take_set]
  by_cases hk : m < k
  · have hm : (l.take k)[m]? = some f := by rw [List.getElem?_take_of_lt hk, h]
    have hset := countP_set_add (p := fun f => !f.lost) hm f'
    have hcount : (if !f'.lost then 1 else 0) ≤ if !f.lost then 1 else 0 := by
      cases hf : f.lost <;> cases hf' : f'.lost <;> simp_all
    unfold standing
    omega
  · rw [List.set_eq_of_length_le (by rw [List.length_take]; omega)]

theorem lostCount_take_set_le (h : l[m]? = some f) (hlost : f.lost = true → f'.lost = true) (k : ℕ) :
    lostCount (l.take k) ≤ lostCount ((l.set m f').take k) := by
  have hs := standing_take_set_le h hlost k
  have h₁ := standing_add_lostCount (l.take k)
  have h₂ := standing_add_lostCount ((l.set m f').take k)
  simp only [List.length_take, List.length_set] at h₁ h₂
  omega

/-- Up to a number that was served, no more than `n` numbers stand. -/
def Covered (l : List (Fate C)) (n : ℕ) : Prop :=
  ∀ j f, l[j]? = some f → f.served = true → standing (l.take (j + 1)) ≤ n

theorem Covered.mono {n' : ℕ} (h : Covered l n) (hn : n ≤ n') : Covered l n' :=
  fun j f hj hf => (h j f hj hf).trans hn

theorem Covered.append (h : Covered l n) (hf : f.served = false) : Covered (l ++ [f]) n := by
  intro j g hj hg
  rcases Nat.lt_trichotomy j l.length with hlt | rfl | hgt
  · rw [List.getElem?_append_left hlt] at hj
    rw [List.take_append_of_le_length (by omega)]
    exact h j g hj hg
  · rw [List.getElem?_concat_length] at hj
    cases hj
    rw [hf] at hg
    cases hg
  · rw [List.getElem?_eq_none (by simp; omega)] at hj
    cases hj

/-- One number gets a new fate; if it is served now and was not before, the bound is checked for
it. -/
theorem Covered.set (h : Covered l n) (hm : l[m]? = some f)
    (hlost : f.lost = true → f'.lost = true)
    (hserved : f'.served = true → f.served = true ∨ standing (l.take (m + 1)) ≤ n) :
    Covered (l.set m f') n := by
  intro j g hj hg
  refine (standing_take_set_le hm hlost (j + 1)).trans ?_
  rw [List.getElem?_set] at hj
  split at hj
  · subst m
    split at hj
    · cases hj
      rcases hserved hg with hold | hle
      · exact h j f hm hold
      · exact hle
    · cases hj
  · exact h j g hj hg

/-- **No more than the supply is served.**  The last number served decides. -/
theorem Covered.served_le (h : Covered l n) : l.countP Fate.served ≤ n := by
  induction l using List.reverseRecOn with
  | nil => simp
  | append_singleton l f ih =>
    have hl : Covered l n := by
      intro j g hj hg
      have hlt : j < l.length := (List.getElem?_eq_some_iff.1 hj).1
      have hle := h j g (by rw [List.getElem?_append_left hlt, hj]) hg
      rwa [List.take_append_of_le_length (by omega)] at hle
    cases hf : f.served with
    | false =>
      rw [List.countP_append, List.countP_singleton, hf]
      simpa using ih hl
    | true =>
      have hle := h l.length f List.getElem?_concat_length hf
      rw [List.take_of_length_le (by simp)] at hle
      refine le_trans (List.countP_mono_left fun g _ hg => ?_) hle
      cases g <;> simp_all [Fate.served, Fate.lost]

/-- The three counters, with what became of every number drawn. -/
structure Desk (C : Type*) where
  drawn : ℕ
  taken : ℕ
  back : ℕ
  fates : List (Fate C)

namespace Desk

variable {d : Desk C}

/-- A client draws a number. -/
def draw (d : Desk C) (c : C) : Desk C :=
  { d with drawn := d.drawn + 1, fates := d.fates ++ [.pending c] }

/-- The client that drew `m` has compared it with the supply. -/
def decide (d : Desk C) (m : ℕ) (c : C) (ok : Bool) : Desk C :=
  { d with fates := d.fates.set m (if ok then .granted c else .refused c) }

def take (d : Desk C) (m : ℕ) : Desk C :=
  { d with taken := d.taken + 1, fates := d.fates.set m .taken }

def giveBack (d : Desk C) (m : ℕ) : Desk C :=
  { d with back := d.back + 1, fates := d.fates.set m .returned }

/-- The invariant for a supply of `n`. -/
structure Ok (d : Desk C) (n : ℕ) : Prop where
  drawn : d.fates.length = d.drawn
  taken : d.fates.countP Fate.isTaken = d.taken
  back : d.fates.countP Fate.isReturned = d.back
  covered : Covered d.fates n

theorem ok_empty (n : ℕ) : Ok (⟨0, 0, 0, []⟩ : Desk C) n :=
  ⟨rfl, rfl, rfl, fun j f hj _ => by simp at hj⟩

theorem Ok.mono {n' : ℕ} (h : d.Ok n) (hn : n ≤ n') : d.Ok n' :=
  ⟨h.drawn, h.taken, h.back, h.covered.mono hn⟩

theorem Ok.draw (h : d.Ok n) (c : C) : (d.draw c).Ok n where
  drawn := by simp [Desk.draw, h.drawn]
  taken := by simp [Desk.draw, h.taken, Fate.isTaken]
  back := by simp [Desk.draw, h.back, Fate.isReturned]
  covered := h.covered.append rfl

/-- What was given back is lost. -/
theorem Ok.back_le (h : d.Ok n) : d.back ≤ lostCount d.fates := by
  rw [← h.back]
  refine List.countP_mono_left fun f _ hf => ?_
  cases f <;> simp_all [Fate.isReturned, Fate.lost]

/-- A client that read `back` before it drew knows that many smaller numbers to be lost. -/
theorem Ok.le_lostCount_draw (h : d.Ok n) (c : C) (hv : v ≤ d.back) :
    (d.draw c).fates[d.drawn]? = some (.pending c) ∧
      v ≤ lostCount ((d.draw c).fates.take d.drawn) := by
  unfold Desk.draw
  rw [← h.drawn]
  refine ⟨List.getElem?_concat_length, ?_⟩
  rw [List.take_left]
  exact hv.trans h.back_le

/-- **A number is granted** only if, less what the client knows to be given back, it is below the
supply. -/
theorem Ok.decide (h : d.Ok n) {ok : Bool} (hm : d.fates[m]? = some (.pending c))
    (hv : v ≤ lostCount (d.fates.take m)) (hok : ok = true → m < v + n) :
    (d.decide m c ok).Ok n := by
  have hlen : m < d.fates.length := (List.getElem?_eq_some_iff.1 hm).1
  have htaken := countP_set_add (p := Fate.isTaken) hm (if ok then .granted c else .refused c)
  have hback := countP_set_add (p := Fate.isReturned) hm (if ok then .granted c else .refused c)
  refine ⟨by simp [Desk.decide, h.drawn], ?_, ?_, ?_⟩
  · cases ok <;> simp_all [Desk.decide, Fate.isTaken, h.taken]
  · cases ok <;> simp_all [Desk.decide, Fate.isReturned, h.back]
  · refine h.covered.set hm (by simp [Fate.lost]) fun hserved => .inr ?_
    cases ok with
    | false => simp [Fate.served] at hserved
    | true =>
      have hsum := standing_add_lostCount (d.fates.take m)
      rw [List.length_take] at hsum
      have hone : standing (d.fates.take (m + 1)) ≤ standing (d.fates.take m) + 1 := by
        rw [List.take_add_one, hm, standing_append]
        simp [standing, Fate.lost]
      have := hok rfl
      omega

theorem Ok.take (h : d.Ok n) (hm : d.fates[m]? = some (.granted c)) : (d.take m).Ok n := by
  have htaken := countP_set_add (p := Fate.isTaken) hm .taken
  have hback := countP_set_add (p := Fate.isReturned) hm .taken
  refine ⟨by simp [Desk.take, h.drawn], ?_, ?_, ?_⟩
  · simp_all [Desk.take, Fate.isTaken, h.taken]
  · simp_all [Desk.take, Fate.isReturned, h.back]
  · exact h.covered.set hm (by simp [Fate.lost]) fun _ => .inl rfl

theorem Ok.giveBack (h : d.Ok n) (hm : d.fates[m]? = some (.refused c)) : (d.giveBack m).Ok n := by
  have htaken := countP_set_add (p := Fate.isTaken) hm .returned
  have hback := countP_set_add (p := Fate.isReturned) hm .returned
  refine ⟨by simp [Desk.giveBack, h.drawn], ?_, ?_, ?_⟩
  · simp_all [Desk.giveBack, Fate.isTaken, h.taken]
  · simp_all [Desk.giveBack, Fate.isReturned, h.back]
  · exact h.covered.set hm (fun _ => rfl) fun hserved => by simp [Fate.served] at hserved

/-- **The supply is never overdrawn.** -/
theorem Ok.taken_le (h : d.Ok n) : d.taken ≤ n := by
  rw [← h.taken]
  refine le_trans (List.countP_mono_left fun f _ hf => ?_) h.covered.served_le
  cases f <;> simp_all [Fate.isTaken, Fate.served]

/-- A client that was granted a unit will find one. -/
theorem Ok.taken_lt_of_granted (h : d.Ok n) (hm : d.fates[m]? = some (.granted c)) :
    d.taken < n := (h.take hm).taken_le

end Desk

end Tickets
