import Mathlib.Logic.Function.Basic
import Mathlib.Data.List.Basic

/-!
# Runs of a labelled transition system

A system is a partial step function `step : σ → α → Option σ`: `α` names the step taken (which
thread moves, and what it chooses), and `none` says that the step is not enabled.

* `exec` runs a list of actions;
* `Reach step ok s₀` is the set of states reached from `s₀` by steps each of which satisfies `ok`
  in the state it is taken from; `ok` states a condition on the schedule or on the environment;
* `Reach.invariant` is the induction rule: what holds initially and is kept by every allowed step
  holds in every reached state; `exists_reach_of_progress` is the rule for what will be reached;
* `Always` and `EachStep` speak of one run: of all its states, of all its steps;
* `logged` adds a history variable, which every step writes and none reads; `exec_of_labels` is the
  rule for refinement, where some steps are labelled with a step of the abstract system.
-/

namespace Run

variable {σ α : Type*}

/-- Run a list of actions, one after the other. -/
def exec (step : σ → α → Option σ) : σ → List α → Option σ
  | s, [] => some s
  | s, a :: as => (step s a).bind fun s' => exec step s' as

@[simp] theorem exec_nil (step : σ → α → Option σ) (s : σ) : exec step s [] = some s := rfl

@[simp] theorem exec_cons (step : σ → α → Option σ) (s : σ) (a : α) (as : List α) :
    exec step s (a :: as) = (step s a).bind fun s' => exec step s' as := rfl

theorem exec_append (step : σ → α → Option σ) (s : σ) (as bs : List α) :
    exec step s (as ++ bs) = (exec step s as).bind fun s' => exec step s' bs := by
  induction as generalizing s with
  | nil => rfl
  | cons a as ih =>
    rw [List.cons_append, exec_cons, exec_cons, Option.bind_assoc]
    exact congrArg _ (funext ih)

/-- The states reached from `s₀` by steps that all satisfy `ok` where they are taken. -/
inductive Reach (step : σ → α → Option σ) (ok : σ → α → Prop) (s₀ : σ) : σ → Prop
  | refl : Reach step ok s₀ s₀
  | tail {s s' : σ} {a : α} : Reach step ok s₀ s → ok s a → step s a = some s' →
      Reach step ok s₀ s'

/-- No condition on the steps. -/
def Any : σ → α → Prop := fun _ _ => True

variable {step : σ → α → Option σ} {ok ok' : σ → α → Prop} {s₀ s s' : σ}

/-- **The invariant rule.**  The step case may use that the state itself was reached. -/
theorem Reach.invariant {I : σ → Prop} (h : Reach step ok s₀ s) (init : I s₀)
    (next : ∀ s a s', Reach step ok s₀ s → I s → ok s a → step s a = some s' → I s') : I s := by
  induction h with
  | refl => exact init
  | tail hr hok hs ih => exact next _ _ _ hr ih hok hs

theorem Reach.mono (h : Reach step ok s₀ s) (hok : ∀ s a, ok s a → ok' s a) :
    Reach step ok' s₀ s := by
  induction h with
  | refl => exact .refl
  | tail _ ha hs ih => exact .tail ih (hok _ _ ha) hs

theorem Reach.head {s₁ : σ} {a : α} (hok : ok s₀ a) (hs : step s₀ a = some s₁)
    (h : Reach step ok s₁ s) : Reach step ok s₀ s := by
  induction h with
  | refl => exact .tail .refl hok hs
  | tail _ ha hs' ih => exact .tail ih ha hs'

theorem Reach.trans (h : Reach step ok s₀ s) (h' : Reach step ok s s') : Reach step ok s₀ s' := by
  induction h' with
  | refl => exact h
  | tail _ ha hs ih => exact .tail ih ha hs

/-- The first step of a run. -/
theorem Reach.cases_head (h : Reach step ok s s') :
    s = s' ∨ ∃ a s₁, ok s a ∧ step s a = some s₁ ∧ Reach step ok s₁ s' := by
  induction h with
  | refl => exact .inl rfl
  | tail _ ha hs ih =>
    refine .inr ?_
    rcases ih with rfl | ⟨b, s₁, hb, hs₁, hr⟩
    · exact ⟨_, _, ha, hs, .refl⟩
    · exact ⟨b, s₁, hb, hs₁, .tail hr ha hs⟩

/-- Where no state allows two actions, a run goes as far as any other that has come to its end. -/
theorem Reach.extend (det : ∀ s a b, ok s a → ok s b → a = b) (h : Reach step ok s₀ s)
    (h' : Reach step ok s₀ s') (hend : ∀ a, ¬ok s' a) : Reach step ok s s' := by
  induction h with
  | refl => exact h'
  | tail _ ha hs ih =>
    rcases ih.cases_head with rfl | ⟨b, s₁, hb, hs₁, hr⟩
    · exact absurd ha (hend _)
    · cases det _ _ _ ha hb
      cases hs.symm.trans hs₁
      exact hr

/-- Where no state allows two actions, there is one place at which a run can end. -/
theorem Reach.end_unique (det : ∀ s a b, ok s a → ok s b → a = b) (h : Reach step ok s₀ s)
    (hs : ∀ a, ¬ok s a) (h' : Reach step ok s₀ s') (hs' : ∀ a, ¬ok s' a) : s = s' := by
  rcases (h.extend det h' hs').cases_head with rfl | ⟨a, _, ha, -⟩
  · rfl
  · exact absurd ha (hs a)

/-- **Forward simulation.**  If related states make related steps, related states make related
runs. -/
theorem Reach.simulation {τ : Type*} {step₂ : τ → α → Option τ} {ok₂ : τ → α → Prop}
    {R : σ → τ → Prop}
    (sim : ∀ s t a s', R s t → ok s a → step s a = some s' →
      ok₂ t a ∧ ∃ t', step₂ t a = some t' ∧ R s' t')
    (h : Reach step ok s₀ s) {t₀ : τ} (h₀ : R s₀ t₀) : ∃ t, Reach step₂ ok₂ t₀ t ∧ R s t := by
  induction h with
  | refl => exact ⟨t₀, .refl, h₀⟩
  | tail _ ha hs ih =>
    obtain ⟨t, ht, hR⟩ := ih
    obtain ⟨hok, t', hstep, hR'⟩ := sim _ _ _ _ hR ha hs
    exact ⟨t', .tail ht hok hstep, hR'⟩

/-- **The progress rule.**  If every state of `I` is at `Q` already or can be taken to a state of
smaller measure, then `Q` is reached; `R` collects what happens on the way. -/
theorem exists_reach_of_progress {I Q : σ → Prop} {R : σ → σ → Prop} (μ : σ → ℕ)
    (refl : ∀ s, R s s) (trans : ∀ s t u, R s t → R t u → R s u)
    (progress : ∀ s, I s → Q s ∨ ∃ s', Reach step ok s s' ∧ I s' ∧ R s s' ∧ μ s' < μ s)
    (hs : I s) : ∃ s', Reach step ok s s' ∧ I s' ∧ R s s' ∧ Q s' := by
  induction hn : μ s using Nat.strongRecOn generalizing s with
  | _ n ih =>
    subst hn
    rcases progress s hs with hQ | ⟨t, hst, ht, hR, hlt⟩
    · exact ⟨s, .refl, hs, refl s, hQ⟩
    · obtain ⟨u, htu, hu, hR', hQ⟩ := ih (μ t) hlt ht rfl
      exact ⟨u, hst.trans htu, hu, trans s t u hR hR', hQ⟩

/-- A run of `exec` reaches its last state. -/
theorem reach_of_exec {as : List α} (h : exec step s as = some s') : Reach step Any s s' := by
  induction as generalizing s with
  | nil =>
    cases h
    exact .refl
  | cons a as ih =>
    obtain ⟨s₁, hs, h⟩ := Option.bind_eq_some_iff.1 h
    exact (ih h).head trivial hs

/-- A run checked by evaluating a property of its last state. -/
theorem exists_reach_of_exec {P : σ → Prop} [DecidablePred P] {as : List α}
    (h : (exec step s as).any (fun s' => decide (P s')) = true) :
    ∃ s', Reach step Any s s' ∧ P s' := by
  obtain ⟨s', hs, hP⟩ := (Option.any_eq_true ..).1 h
  exact ⟨s', reach_of_exec hs, of_decide_eq_true hP⟩

/-- The system restricted to the steps that satisfy `ok`, with `ok` decided. -/
def guarded (step : σ → α → Option σ) (ok : σ → α → Prop) [∀ s a, Decidable (ok s a)] (s : σ)
    (a : α) : Option σ := if ok s a then step s a else none

/-- A run of the restricted system reaches its last state under the condition. -/
theorem reach_of_exec_guarded [∀ s a, Decidable (ok s a)] {as : List α}
    (h : exec (guarded step ok) s as = some s') : Reach step ok s s' := by
  induction as generalizing s with
  | nil =>
    cases h
    exact .refl
  | cons a as ih =>
    obtain ⟨s₁, hs, h⟩ := Option.bind_eq_some_iff.1 h
    unfold guarded at hs
    split at hs
    · exact (ih h).head (by assumption) hs
    · cases hs

theorem exists_reach_of_exec_guarded [∀ s a, Decidable (ok s a)] {P : σ → Prop}
    [DecidablePred P] {as : List α}
    (h : (exec (guarded step ok) s as).any (fun s' => decide (P s')) = true) :
    ∃ s', Reach step ok s s' ∧ P s' := by
  obtain ⟨s', hs, hP⟩ := (Option.any_eq_true ..).1 h
  exact ⟨s', reach_of_exec_guarded hs, of_decide_eq_true hP⟩

/-! ### One run -/

/-- Every state of the run satisfies `P`. -/
def Always (step : σ → α → Option σ) (P : σ → Prop) : σ → List α → Prop
  | s, [] => P s
  | s, a :: as => P s ∧ ∀ s', step s a = some s' → Always step P s' as

/-- Every step of the run satisfies `ok`. -/
def EachStep (step : σ → α → Option σ) (ok : σ → α → Prop) : σ → List α → Prop
  | _, [] => True
  | s, a :: as => ∀ s', step s a = some s' → ok s a ∧ EachStep step ok s' as

/-- **The exact rule**, for the runs whose steps satisfy `side`.  If a step that satisfies `ok` keeps
`I`, and one that does not leads out of `P`, then the runs that stay in `P` are those whose steps all
satisfy `ok`. -/
theorem always_iff_eachStep_of {P I : σ → Prop} {side : σ → α → Prop} (hP : ∀ s, I s → P s)
    (keeps : ∀ s a s', I s → side s a → ok s a → step s a = some s' → I s')
    (breaks : ∀ s a s', I s → side s a → ¬ok s a → step s a = some s' → ¬P s') {s : σ} (hs : I s)
    {as : List α} (hside : EachStep step side s as) :
    Always step P s as ↔ EachStep step ok s as := by
  have start : ∀ {s as}, Always step P s as → P s := by
    intro s as h
    cases as with
    | nil => exact h
    | cons a as => exact h.1
  induction as generalizing s with
  | nil => exact ⟨fun _ => trivial, fun _ => hP s hs⟩
  | cons a as ih =>
    constructor
    · rintro ⟨-, h⟩ s' hstep
      obtain ⟨ha, has⟩ := hside s' hstep
      have hok : ok s a := by
        by_contra hok
        exact breaks s a s' hs ha hok hstep (start (h s' hstep))
      exact ⟨hok, (ih (keeps s a s' hs ha hok hstep) has).1 (h s' hstep)⟩
    · intro h
      refine ⟨hP s hs, fun s' hstep => ?_⟩
      obtain ⟨ha, has⟩ := hside s' hstep
      obtain ⟨hok, h'⟩ := h s' hstep
      exact (ih (keeps s a s' hs ha hok hstep) has).2 h'

theorem eachStep_any (s : σ) (as : List α) : EachStep step Any s as := by
  induction as generalizing s with
  | nil => trivial
  | cons a as ih => exact fun s' _ => ⟨trivial, ih s'⟩

/-- The exact rule for all runs. -/
theorem always_iff_eachStep {P I : σ → Prop} (hP : ∀ s, I s → P s)
    (keeps : ∀ s a s', I s → ok s a → step s a = some s' → I s')
    (breaks : ∀ s a s', I s → ¬ok s a → step s a = some s' → ¬P s') {s : σ} (hs : I s)
    (as : List α) : Always step P s as ↔ EachStep step ok s as :=
  always_iff_eachStep_of hP (fun s a s' h _ => keeps s a s' h) (fun s a s' h _ => breaks s a s' h) hs
    (eachStep_any s as)

/-- A run of the restricted system satisfies the condition at every step. -/
theorem eachStep_of_exec_guarded [∀ s a, Decidable (ok s a)] {as : List α}
    (h : (exec (guarded step ok) s as).isSome = true) : EachStep step ok s as := by
  induction as generalizing s with
  | nil => trivial
  | cons a as ih =>
    obtain ⟨s'', h⟩ := Option.isSome_iff_exists.1 h
    obtain ⟨s₁, hs, h⟩ := Option.bind_eq_some_iff.1 h
    unfold guarded at hs
    split at hs
    · intro s' hs'
      cases hs.symm.trans hs'
      exact ⟨by assumption, ih (Option.isSome_of_mem h)⟩
    · cases hs

/-! ### History variables -/

section History

variable {η : Type*} {record : σ → α → η → η} {h₀ : η}

/-- The system together with a history, to which `record` adds what each step does. -/
def logged (step : σ → α → Option σ) (record : σ → α → η → η) (x : σ × η) (a : α) :
    Option (σ × η) := (step x.1 a).map fun s' => (s', record x.1 a x.2)

theorem logged_eq_some {x y : σ × η} {a : α} :
    logged step record x a = some y ↔ step x.1 a = some y.1 ∧ y.2 = record x.1 a x.2 := by
  obtain ⟨s', h'⟩ := y
  simp only [logged, Option.map_eq_some_iff, Prod.mk.injEq, eq_comm (a := h')]
  constructor
  · rintro ⟨t, ht, rfl, rfl⟩
    exact ⟨ht, rfl⟩
  · rintro ⟨ht, rfl⟩
    exact ⟨s', ht, rfl, rfl⟩

/-- Without the history it is a run of the system. -/
theorem Reach.fst {okh : σ × η → α → Prop} (hok : ∀ x a, okh x a → ok x.1 a) {x : σ × η}
    (h : Reach (logged step record) okh (s₀, h₀) x) : Reach step ok s₀ x.1 := by
  induction h with
  | refl => exact .refl
  | tail _ ha hs ih => exact .tail ih (hok _ _ ha) (logged_eq_some.1 hs).1

/-- **Refinement.**  Every step is one of the abstract system, which `label` names, or leaves the
abstract state alone.  Then the abstract system can do what the labels say. -/
theorem exec_of_labels {τ β : Type*} {astep : τ → β → Option τ} {label : σ → α → Option β}
    (abs : σ → τ)
    (sim : ∀ s a s', Reach step ok s₀ s → ok s a → step s a = some s' →
      exec astep (abs s) (label s a).toList = some (abs s'))
    {x : σ × List β}
    (h : Reach (logged step fun s a l => l ++ (label s a).toList) (fun x a => ok x.1 a) (s₀, []) x) :
    exec astep (abs s₀) x.2 = some (abs x.1) := by
  refine h.invariant (I := fun x => exec astep (abs s₀) x.2 = some (abs x.1)) rfl ?_
  rintro ⟨s, l⟩ a ⟨s', l'⟩ hr ih hok hs
  obtain ⟨hs, rfl⟩ := logged_eq_some.1 hs
  have hreach : Reach step ok s₀ s := Reach.fst (x := (s, l)) (fun _ _ h => h) hr
  show exec astep (abs s₀) (l ++ _) = _
  rw [exec_append, ih]
  exact sim s a s' hreach hok hs

end History

end Run
