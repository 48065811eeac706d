import Mathlib.Data.List.Basic
import Mathlib.Data.List.Forall2

/-!
# A slot for one value

A writer goes along a stream of values and offers some of them to a reader, through one slot.  The
reader stops (`stop`) and, in a second store that may come late, says where it stopped (`settle`).
For each value it offers, the writer checks that the reader is waiting (`check`), then that it knows
where (`lookup`); only then it fills the slot (`put`) and calls the reader (`call`), which comes back
(`wake`) and takes what is in the slot (`give`).  A value that fails a check is passed over for good.

The history numbers the suspensions of the reader and keeps, for each check, the index of the value
checked, the number of suspensions begun, and the suspensions whose second store had been made.
`Ok.first` is the contract: what the reader takes, suspension by suspension, are values of the
stream at increasing places, each checked in that suspension, and none of them later than a value
that was checked after both stores.
-/

namespace Slot

/-- Where the reader stands. -/
inductive Reader
  | away
  | waiting
  /-- Called, and not yet back. -/
  | called
  | back
  deriving DecidableEq

/-- Where the writer stands with the last value of the stream. -/
inductive Writer
  | idle
  /-- Before the check that the reader is waiting. -/
  | offering
  /-- Before the check that the reader has said where. -/
  | seen
  /-- Before it fills the slot. -/
  | writing
  /-- Before it calls the reader. -/
  | placed
  deriving DecidableEq

/-- The writer has seen the reader wait. -/
def Writer.holding : Writer → Bool
  | .seen | .writing | .placed => true
  | .idle | .offering => false

/-- A check of the reader's state. -/
structure Check where
  /-- The place in the stream of the value checked. -/
  index : ℕ
  /-- The number of suspensions begun. -/
  suspensions : ℕ
  /-- The suspensions whose second store had been made. -/
  settled : List ℕ

end Slot

/-- A slot, its two users and its history. -/
structure Slot (α : Type*) where
  reader : Slot.Reader
  /-- The reader has said where it stops. -/
  published : Bool
  writer : Slot.Writer
  /-- The last value of the stream has not been offered yet. -/
  fresh : Bool
  data : α
  suspensions : ℕ
  settled : List ℕ
  stream : List α
  checks : List Slot.Check
  returned : List (ℕ × α)

namespace Slot

variable {α : Type*} {accept : α → Prop} {s s' : Slot α}

/-- The record of a check made now. -/
def check (s : Slot α) : Check := ⟨s.stream.length - 1, s.suspensions, s.settled⟩

/-- The moves of the two users. -/
inductive Step (accept : α → Prop) (s : Slot α) : Slot α → Prop
  | arrive (x : α) (hw : s.writer = .idle) :
    Step accept s { s with stream := s.stream ++ [x], fresh := true }
  | skip (hw : s.writer = .idle) : Step accept s { s with fresh := false }
  | offer {x} (hw : s.writer = .idle) (hf : s.fresh = true) (hx : s.stream.getLast? = some x)
      (ha : accept x) : Step accept s { s with writer := .offering, fresh := false }
  | checkStop (hw : s.writer = .offering) (hr : s.reader = .waiting) :
    Step accept s { s with writer := .seen, checks := s.checks ++ [s.check] }
  | checkOther (hw : s.writer = .offering) (hr : s.reader ≠ .waiting) :
    Step accept s { s with writer := .idle, checks := s.checks ++ [s.check] }
  | lookup (hw : s.writer = .seen) : Step accept s { s with writer := .writing }
  | lookupOther (hw : s.writer = .seen) (hp : s.published = false) :
    Step accept s { s with writer := .idle }
  | put {x} (hw : s.writer = .writing) (hx : s.stream.getLast? = some x) :
    Step accept s { s with writer := .placed, data := x }
  | call (hw : s.writer = .placed) : Step accept s { s with writer := .idle, reader := .called }
  | stop (hr : s.reader = .away) :
    Step accept s { s with reader := .waiting, suspensions := s.suspensions + 1 }
  | settle (n : ℕ) : Step accept s { s with published := true, settled := n :: s.settled }
  | publish : Step accept s { s with published := true }
  | wake (hr : s.reader = .called) : Step accept s { s with reader := .back }
  | give (y : α) (hr : s.reader = .back) :
    Step accept s { s with
      reader := .away, data := y, returned := s.returned ++ [(s.suspensions, s.data)] }

/-- What the reader has been called for: what it has taken, and what is in the slot for it. -/
def woken (s : Slot α) : List (ℕ × α) :=
  match s.reader with
  | .away | .waiting => s.returned
  | .called | .back => s.returned ++ [(s.suspensions, s.data)]

/-- The value taken in a suspension is the one at place `i`: it was checked in that suspension, and
nothing before it was checked after both stores of the suspension. -/
def First (accept : α → Prop) (s : Slot α) (i : ℕ) (r : ℕ × α) : Prop :=
  s.stream[i]? = some r.2 ∧ accept r.2 ∧ (∃ k ∈ s.checks, k.index = i ∧ k.suspensions = r.1) ∧
    ∀ k ∈ s.checks, k.index < i → r.1 ≤ k.suspensions → r.1 ∉ k.settled

/-- The invariant of a slot. -/
structure Ok (accept : α → Prop) (s : Slot α) : Prop where
  published : s.published = false → s.settled = []
  offered : s.writer ≠ .idle → s.fresh = false ∧ ∃ x, s.stream.getLast? = some x ∧ accept x
  held : s.writer.holding = true → s.reader = .waiting ∧
    ∃ k ∈ s.checks, k.index + 1 = s.stream.length ∧ k.suspensions = s.suspensions
  placed : s.writer = .placed → s.stream.getLast? = some s.data
  past : ∀ k ∈ s.checks, k.suspensions ≤ s.suspensions ∧ k.settled ⊆ s.settled ∧
    k.index < s.stream.length ∧
    (s.fresh = true ∨ s.writer = .offering → k.index + 1 < s.stream.length)
  waiting : s.reader = .waiting → ∀ k ∈ s.checks, s.suspensions ≤ k.suspensions →
    s.suspensions ∈ k.settled → s.writer.holding = true ∧ k.index + 1 = s.stream.length
  numbered : s.woken.map Prod.fst = List.range' 1 s.woken.length ∧
    s.suspensions = s.woken.length + if s.reader = .waiting then 1 else 0
  first : ∃ idx : List ℕ, idx.Pairwise (· < ·) ∧ List.Forall₂ (First accept s) idx s.woken ∧
    ∀ i ∈ idx, i < s.stream.length ∧
      (s.fresh = true ∨ s.writer ≠ .idle → i + 1 < s.stream.length)

/-- A new slot. -/
theorem ok_of_fresh (hr : s.reader = .away) (hw : s.writer = .idle) (hsu : s.suspensions = 0)
    (hse : s.settled = []) (hc : s.checks = []) (hret : s.returned = []) : Ok accept s := by
  have hwoken : s.woken = [] := by simp [woken, hr, hret]
  exact
    { published := fun _ => hse
      offered := fun h => absurd hw h
      held := fun h => by simp [hw, Writer.holding] at h
      placed := fun h => by simp [hw] at h
      past := fun k hk => by simp [hc] at hk
      waiting := fun h => by simp [hr] at h
      numbered := by simp [hwoken, hsu, hr]
      first := ⟨[], .nil, by simp [hwoken], by simp⟩ }

/-- What was first stays first when the stream goes on and later values are checked. -/
theorem First.mono {r : ℕ × α} {i : ℕ} {l : List α} {c : List Check} (h : First accept s i r)
    (hs : s'.stream = s.stream ++ l) (hc : s'.checks = s.checks ++ c)
    (hk : ∀ k ∈ c, i ≤ k.index) : First accept s' i r := by
  obtain ⟨hi, ha, ⟨k, hkm, hki, hks⟩, hno⟩ := h
  refine ⟨?_, ha, ⟨k, ?_, hki, hks⟩, fun k' hk' => ?_⟩
  · rw [hs, List.getElem?_append_left (List.getElem?_eq_some_iff.1 hi).1, hi]
  · rw [hc]
    exact List.mem_append_left _ hkm
  · rw [hc, List.mem_append] at hk'
    rcases hk' with hk' | hk'
    · exact hno k' hk'
    · exact fun hlt => absurd (hk k' hk') (Nat.not_le.2 hlt)

/-- The value being offered is there. -/
theorem Ok.length_pos (h : Ok accept s) (hw : s.writer ≠ .idle) : 0 < s.stream.length := by
  obtain ⟨-, x, hx, -⟩ := h.offered hw
  exact List.length_pos_of_mem (List.mem_of_mem_getLast? hx)

/-- The history of the values taken, when a check of the value being offered is added. -/
theorem Ok.first_check (h : Ok accept s) (hw : s.writer = .offering)
    (hst : s'.stream = s.stream) (hch : s'.checks = s.checks ++ [s.check])
    (hwo : s'.woken = s.woken) :
    ∃ idx : List ℕ, idx.Pairwise (· < ·) ∧ List.Forall₂ (First accept s') idx s'.woken ∧
      ∀ i ∈ idx, i < s'.stream.length ∧
        (s'.fresh = true ∨ s'.writer ≠ .idle → i + 1 < s'.stream.length) := by
  obtain ⟨idx, hlt, hfirst, hbound⟩ := h.first
  have hne : s.writer ≠ .idle := by simp [hw]
  have last : ∀ i ∈ idx, i + 1 < s.stream.length := fun i hi => (hbound i hi).2 (.inr hne)
  refine ⟨idx, hlt, ?_, fun i hi => ?_⟩
  · rw [hwo]
    refine List.Forall₂.imp (fun i r hir => ?_) ((List.forall₂_and_left _ _).2 ⟨last, hfirst⟩)
    refine hir.2.mono (l := []) (by simp [hst]) hch fun k hk => ?_
    have hi := hir.1
    rw [List.mem_singleton.1 hk]
    simp only [check]
    omega
  · rw [hst]
    exact ⟨(hbound i hi).1, fun _ => last i hi⟩

/-- The call adds the value in the slot to what the reader has been called for. -/
theorem Ok.first_call (h : Ok accept s) (hw : s.writer = .placed) :
    ∃ idx : List ℕ, idx.Pairwise (· < ·) ∧
      List.Forall₂ (First accept s) idx (s.returned ++ [(s.suspensions, s.data)]) ∧
      ∀ i ∈ idx, i < s.stream.length := by
  obtain ⟨idx, hlt, hfirst, hbound⟩ := h.first
  have hne : s.writer ≠ .idle := by simp [hw]
  obtain ⟨hr, k, hk, hki, hks⟩ := h.held (by simp [hw, Writer.holding])
  obtain ⟨-, x, hx, ha⟩ := h.offered hne
  have hdata := h.placed hw
  obtain rfl : x = s.data := Option.some.inj (hx.symm.trans hdata)
  have hpos := h.length_pos hne
  have last : ∀ i ∈ idx, i + 1 < s.stream.length := fun i hi => (hbound i hi).2 (.inr hne)
  have hwoken : s.woken = s.returned := by simp [woken, hr]
  rw [hwoken] at hfirst
  refine ⟨idx ++ [s.stream.length - 1], ?_, List.rel_append hfirst (.cons ?_ .nil), ?_⟩
  · refine List.pairwise_append.2 ⟨hlt, List.pairwise_singleton _ _, fun i hi j hj => ?_⟩
    have := last i hi
    rw [List.mem_singleton.1 hj]
    omega
  · refine ⟨by rw [← List.getLast?_eq_getElem?, hx], ha, ⟨k, hk, by omega, hks⟩,
      fun k' hk' hlt' hle hset => ?_⟩
    have := (h.waiting hr k' hk' hle hset).2
    omega
  · intro i hi
    rw [List.mem_append, List.mem_singleton] at hi
    rcases hi with hi | rfl
    · exact (hbound i hi).1
    · omega

/-- The checks made so far, when one of the value being offered is added. -/
theorem Ok.past_check (h : Ok accept s) (hw : s.writer = .offering) {k : Check}
    (hk : k ∈ s.checks ++ [s.check]) :
    k.suspensions ≤ s.suspensions ∧ k.settled ⊆ s.settled ∧ k.index < s.stream.length := by
  have hpos := h.length_pos (by simp [hw])
  rcases List.mem_append.1 hk with hk | hk
  · obtain ⟨hsu, hse, hi, -⟩ := h.past k hk
    exact ⟨hsu, hse, hi⟩
  · obtain rfl := List.mem_singleton.1 hk
    refine ⟨Nat.le_refl _, List.Subset.refl _, ?_⟩
    simp only [check]
    omega

/-- The writer holds nothing while the reader is not waiting. -/
theorem Ok.not_holding (h : Ok accept s) (hr : s.reader ≠ .waiting) : s.writer.holding = false := by
  by_contra hh
  exact hr (h.held (by simpa using hh)).1

theorem Ok.arrive (h : Ok accept s) (x : α) (hw : s.writer = .idle) :
    Ok accept { s with stream := s.stream ++ [x], fresh := true } := by
  obtain ⟨idx, hlt, hfirst, hbound⟩ := h.first
  refine
    { published := h.published
      offered := fun hne => absurd hw hne
      held := fun hh => by simp [hw, Writer.holding] at hh
      placed := fun hp => by simp [hw] at hp
      past := fun k hk => ?_
      waiting := fun hr k hk hle hset => ?_
      numbered := h.numbered
      first := ⟨idx, hlt, hfirst.imp fun i r hir => hir.mono (c := []) rfl (by simp) (by simp),
        fun i hi => ?_⟩ }
  · obtain ⟨hsu, hse, hi, -⟩ := h.past k hk
    refine ⟨hsu, hse, ?_, fun _ => ?_⟩ <;> simp only [List.length_append, List.length_singleton] <;>
      omega
  · have := (h.waiting hr k hk hle hset).1
    simp [hw, Writer.holding] at this
  · have := (hbound i hi).1
    refine ⟨?_, fun _ => ?_⟩ <;> simp only [List.length_append, List.length_singleton] <;> omega

theorem Ok.skip (h : Ok accept s) (hw : s.writer = .idle) : Ok accept { s with fresh := false } := by
  obtain ⟨idx, hlt, hfirst, hbound⟩ := h.first
  exact
    { published := h.published
      offered := fun hne => absurd hw hne
      held := h.held
      placed := h.placed
      past := fun k hk => by
        obtain ⟨hsu, hse, hi, -⟩ := h.past k hk
        exact ⟨hsu, hse, hi, by simp [hw]⟩
      waiting := h.waiting
      numbered := h.numbered
      first := ⟨idx, hlt, hfirst, fun i hi => ⟨(hbound i hi).1, by simp [hw]⟩⟩ }

theorem Ok.offer (h : Ok accept s) (hw : s.writer = .idle) (hf : s.fresh = true) {x : α}
    (hx : s.stream.getLast? = some x) (ha : accept x) :
    Ok accept { s with writer := .offering, fresh := false } := by
  obtain ⟨idx, hlt, hfirst, hbound⟩ := h.first
  exact
    { published := h.published
      offered := fun _ => ⟨rfl, _, hx, ha⟩
      held := fun hh => by simp [Writer.holding] at hh
      placed := fun hp => by simp at hp
      past := fun k hk => by
        obtain ⟨hsu, hse, hi, hlast⟩ := h.past k hk
        exact ⟨hsu, hse, hi, fun _ => hlast (.inl hf)⟩
      waiting := fun hr k hk hle hset => by
        have := (h.waiting hr k hk hle hset).1
        simp [hw, Writer.holding] at this
      numbered := h.numbered
      first := ⟨idx, hlt, hfirst,
        fun i hi => ⟨(hbound i hi).1, fun _ => (hbound i hi).2 (.inl hf)⟩⟩ }

theorem Ok.checkStop (h : Ok accept s) (hw : s.writer = .offering) (hr : s.reader = .waiting) :
    Ok accept { s with writer := .seen, checks := s.checks ++ [s.check] } := by
  have hne : s.writer ≠ .idle := by simp [hw]
  have hpos := h.length_pos hne
  obtain ⟨hfr, hx⟩ := h.offered hne
  refine
    { published := h.published
      offered := fun _ => ⟨hfr, hx⟩
      held := fun _ => ⟨hr, s.check, by simp, by simp only [check]; omega, rfl⟩
      placed := fun hp => by simp at hp
      past := fun k hk => by
        obtain ⟨hsu, hse, hi⟩ := h.past_check hw hk
        exact ⟨hsu, hse, hi, by simp [hfr]⟩
      waiting := fun _ k hk hle hset => ?_
      numbered := h.numbered
      first := h.first_check hw rfl rfl rfl }
  -- in the present suspension only the value being offered has been checked after both stores
  rcases List.mem_append.1 hk with hk | hk
  · have := (h.waiting hr k hk hle hset).1
    simp [hw, Writer.holding] at this
  · obtain rfl := List.mem_singleton.1 hk
    exact ⟨rfl, by simp only [check]; omega⟩

theorem Ok.checkOther (h : Ok accept s) (hw : s.writer = .offering) (hr : s.reader ≠ .waiting) :
    Ok accept { s with writer := .idle, checks := s.checks ++ [s.check] } := by
  obtain ⟨hfr, -⟩ := h.offered (by simp [hw])
  exact
    { published := h.published
      offered := fun hne => absurd rfl hne
      held := fun hh => by simp [Writer.holding] at hh
      placed := fun hp => by simp at hp
      past := fun k hk => by
        obtain ⟨hsu, hse, hi⟩ := h.past_check hw hk
        exact ⟨hsu, hse, hi, by simp [hfr]⟩
      waiting := fun hr' => absurd hr' hr
      numbered := h.numbered
      first := h.first_check hw rfl rfl rfl }

theorem Ok.lookup (h : Ok accept s) (hw : s.writer = .seen) :
    Ok accept { s with writer := .writing } := by
  obtain ⟨idx, hlt, hfirst, hbound⟩ := h.first
  have hne : s.writer ≠ .idle := by simp [hw]
  have hh : s.writer.holding = true := by simp [hw, Writer.holding]
  exact
    { published := h.published
      offered := fun _ => h.offered hne
      held := fun _ => h.held hh
      placed := fun hp => by simp at hp
      past := fun k hk => by
        obtain ⟨hsu, hse, hi, hlast⟩ := h.past k hk
        exact ⟨hsu, hse, hi, fun hf => hlast (hf.imp_right (by simp))⟩
      waiting := fun hr k hk hle hset => ⟨rfl, (h.waiting hr k hk hle hset).2⟩
      numbered := h.numbered
      first := ⟨idx, hlt, hfirst,
        fun i hi => ⟨(hbound i hi).1, fun _ => (hbound i hi).2 (.inr hne)⟩⟩ }

theorem Ok.lookupOther (h : Ok accept s) (hw : s.writer = .seen) (hp : s.published = false) :
    Ok accept { s with writer := .idle } := by
  obtain ⟨idx, hlt, hfirst, hbound⟩ := h.first
  obtain ⟨hfr, -⟩ := h.offered (by simp [hw])
  exact
    { published := h.published
      offered := fun hne => absurd rfl hne
      held := fun hh => by simp [Writer.holding] at hh
      placed := fun hp => by simp at hp
      past := fun k hk => by
        obtain ⟨hsu, hse, hi, -⟩ := h.past k hk
        exact ⟨hsu, hse, hi, by simp [hfr]⟩
      waiting := fun _ k hk _ hset => by
        have := (h.past k hk).2.1 hset
        simp [h.published hp] at this
      numbered := h.numbered
      first := ⟨idx, hlt, hfirst, fun i hi => ⟨(hbound i hi).1, by simp [hfr]⟩⟩ }

theorem Ok.put (h : Ok accept s) (hw : s.writer = .writing) {x : α}
    (hx : s.stream.getLast? = some x) :
    Ok accept { s with writer := .placed, data := x } := by
  obtain ⟨idx, hlt, hfirst, hbound⟩ := h.first
  have hne : s.writer ≠ .idle := by simp [hw]
  have hh : s.writer.holding = true := by simp [hw, Writer.holding]
  -- the reader is waiting, so what it has been called for does not include the slot
  have hr := (h.held hh).1
  have hwoken : s.woken = s.returned := by simp [woken, hr]
  have hwoken' : ({ s with writer := .placed, data := x } : Slot α).woken = s.returned := by
    simp [woken, hr]
  have hnum := h.numbered
  rw [hwoken] at hfirst hnum
  exact
    { published := h.published
      offered := fun _ => h.offered hne
      held := fun _ => h.held hh
      placed := fun _ => hx
      past := fun k hk => by
        obtain ⟨hsu, hse, hi, hlast⟩ := h.past k hk
        exact ⟨hsu, hse, hi, fun hf => hlast (hf.imp_right (by simp))⟩
      waiting := fun hr k hk hle hset => ⟨rfl, (h.waiting hr k hk hle hset).2⟩
      numbered := by
        rw [hwoken']
        exact hnum
      first := ⟨idx, hlt, by rw [hwoken']; exact hfirst,
        fun i hi => ⟨(hbound i hi).1, fun _ => (hbound i hi).2 (.inr hne)⟩⟩ }

theorem Ok.call (h : Ok accept s) (hw : s.writer = .placed) :
    Ok accept { s with writer := .idle, reader := .called } := by
  obtain ⟨idx, hlt, hfirst, hbound⟩ := h.first_call hw
  obtain ⟨hfr, -⟩ := h.offered (by simp [hw])
  have hr := (h.held (by simp [hw, Writer.holding])).1
  have hnum := h.numbered
  simp only [woken, hr] at hnum
  exact
    { published := h.published
      offered := fun hne => absurd rfl hne
      held := fun hh => by simp [Writer.holding] at hh
      placed := fun hp => by simp at hp
      past := fun k hk => by
        obtain ⟨hsu, hse, hi, -⟩ := h.past k hk
        exact ⟨hsu, hse, hi, by simp [hfr]⟩
      waiting := fun hr' => by simp at hr'
      numbered := by
        refine ⟨?_, by simpa [woken] using hnum.2⟩
        simp [woken, hnum.1, List.range'_concat, hnum.2, Nat.add_comm]
      first := ⟨idx, hlt, hfirst, fun i hi => ⟨hbound i hi, by simp [hfr]⟩⟩ }

theorem Ok.stop (h : Ok accept s) (hr : s.reader = .away) :
    Ok accept { s with reader := .waiting, suspensions := s.suspensions + 1 } := by
  obtain ⟨idx, hlt, hfirst, hbound⟩ := h.first
  have hnot := h.not_holding (by simp [hr])
  have hwoken : s.woken = s.returned := by simp [woken, hr]
  have hnum := h.numbered
  rw [hwoken] at hfirst hnum
  exact
    { published := h.published
      offered := h.offered
      held := fun hh => by simp [hnot] at hh
      placed := h.placed
      past := fun k hk => by
        obtain ⟨hsu, hrest⟩ := h.past k hk
        exact ⟨Nat.le_succ_of_le hsu, hrest⟩
      -- no check has been made in the new suspension
      waiting := fun _ k hk hle => absurd (h.past k hk).1 (Nat.not_le.2 hle)
      numbered := ⟨by simpa [woken] using hnum.1, by simpa [woken, hr] using hnum.2⟩
      first := ⟨idx, hlt, hfirst, hbound⟩ }

theorem Ok.settle (h : Ok accept s) (n : ℕ) :
    Ok accept { s with published := true, settled := n :: s.settled } where
  published hp := by simp at hp
  offered := h.offered
  held := h.held
  placed := h.placed
  past k hk := by
    obtain ⟨hsu, hse, hrest⟩ := h.past k hk
    exact ⟨hsu, fun x hx => List.mem_cons_of_mem _ (hse hx), hrest⟩
  waiting := h.waiting
  numbered := h.numbered
  first := h.first

theorem Ok.publish (h : Ok accept s) : Ok accept { s with published := true } where
  published hp := by simp at hp
  offered := h.offered
  held := h.held
  placed := h.placed
  past := h.past
  waiting := h.waiting
  numbered := h.numbered
  first := h.first

theorem Ok.wake (h : Ok accept s) (hr : s.reader = .called) :
    Ok accept { s with reader := .back } := by
  obtain ⟨idx, hlt, hfirst, hbound⟩ := h.first
  have hnot := h.not_holding (by simp [hr])
  have hnum := h.numbered
  simp only [woken, hr] at hfirst hnum
  exact
    { published := h.published
      offered := h.offered
      held := fun hh => by simp [hnot] at hh
      placed := h.placed
      past := h.past
      waiting := fun hr' => by simp at hr'
      numbered := by simpa [woken] using hnum
      first := ⟨idx, hlt, hfirst, hbound⟩ }

theorem Ok.give (h : Ok accept s) (y : α) (hr : s.reader = .back) :
    Ok accept { s with
      reader := .away, data := y, returned := s.returned ++ [(s.suspensions, s.data)] } := by
  obtain ⟨idx, hlt, hfirst, hbound⟩ := h.first
  have hnot := h.not_holding (by simp [hr])
  have hnum := h.numbered
  simp only [woken, hr] at hfirst hnum
  exact
    { published := h.published
      offered := h.offered
      held := fun hh => by simp [hnot] at hh
      placed := fun hp => by
        have hw : s.writer = .placed := hp
        simp [hw, Writer.holding] at hnot
      past := h.past
      waiting := fun hr' => by simp at hr'
      numbered := by simpa [woken] using hnum
      first := ⟨idx, hlt, hfirst, hbound⟩ }

/-- **One step** keeps the invariant. -/
theorem Ok.step (h : Ok accept s) (hs : Step accept s s') : Ok accept s' := by
  cases hs with
  | arrive x hw => exact h.arrive x hw
  | skip hw => exact h.skip hw
  | offer hw hf hx ha => exact h.offer hw hf hx ha
  | checkStop hw hr => exact h.checkStop hw hr
  | checkOther hw hr => exact h.checkOther hw hr
  | lookup hw => exact h.lookup hw
  | lookupOther hw hp => exact h.lookupOther hw hp
  | put hw hx => exact h.put hw hx
  | call hw => exact h.call hw
  | stop hr => exact h.stop hr
  | settle n => exact h.settle n
  | publish => exact h.publish
  | wake hr => exact h.wake hr
  | give y hr => exact h.give y hr

end Slot
