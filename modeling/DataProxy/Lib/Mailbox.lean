import Mathlib.Data.List.Basic

/-!
# A mailbox with one reader

Writers append to a queue.  The reader takes a value on one of two routes: it finds one when it
comes (`ready`), or it finds none, raises a flag and sleeps (`miss`, `raise`), and after a wake
(`wake`) the raised flag sends it to the queue again (`test`, `take`).  A wake is not tied to a
value: the reader may be woken with nothing to take, and a writer may append at any place of the
reader.

`received` and `delivered` are the history.  `Ok` is the invariant: the flag tells on which route
the reader is, and what was received, what is in hand and what is queued are together what was
delivered, in order.
-/

/-- Where the reader of a mailbox stands. -/
inductive Mailbox.Place
  | away
  /-- It found no value and has not raised the flag. -/
  | going
  | asleep
  /-- It has a value or was woken, and has not tested the flag. -/
  | back
  | taking
  /-- It has a value and has not lowered the flag. -/
  | holding
  | leaving
  deriving DecidableEq

/-- A mailbox for values of type `α`, with its history. -/
structure Mailbox (α : Type*) where
  place : Mailbox.Place
  flag : Bool
  queue : List α
  data : α
  received : List α
  delivered : List α

namespace Mailbox

variable {α : Type*} {b b' : Mailbox α}

/-- The moves of the reader and of the writers. -/
inductive Step (b : Mailbox α) : Mailbox α → Prop
  | put (m : α) : Step b { b with queue := b.queue ++ [m], delivered := b.delivered ++ [m] }
  | ready {m q} (hp : b.place = .away) (hq : b.queue = m :: q) :
    Step b { b with place := .back, queue := q, data := m }
  | miss (hp : b.place = .away) (hq : b.queue = []) : Step b { b with place := .going }
  | raise (hp : b.place = .going) : Step b { b with place := .asleep, flag := true }
  | wake (hp : b.place = .asleep) : Step b { b with place := .back }
  | test (hp : b.place = .back) :
    Step b { b with place := if b.flag then .taking else .holding }
  | take {m q} (hp : b.place = .taking) (hq : b.queue = m :: q) :
    Step b { b with place := .holding, queue := q, data := m }
  | lower (hp : b.place = .holding) : Step b { b with place := .leaving, flag := false }
  | give (x : α) (hp : b.place = .leaving) :
    Step b { b with place := .away, data := x, received := b.received ++ [b.data] }

/-- The value taken out of the queue and not yet received. -/
def hand (b : Mailbox α) : List α :=
  match b.place with
  | .back => if b.flag then [] else [b.data]
  | .holding | .leaving => [b.data]
  | .away | .going | .asleep | .taking => []

/-- The invariant of a mailbox. -/
structure Ok (b : Mailbox α) : Prop where
  raised : b.place = .asleep ∨ b.place = .taking → b.flag = true
  lowered : b.place = .away ∨ b.place = .going ∨ b.place = .leaving → b.flag = false
  conserved : b.received ++ b.hand ++ b.queue = b.delivered

/-- A new mailbox. -/
theorem ok_of_fresh (hp : b.place = .away) (hf : b.flag = false) (hq : b.queue = [])
    (hr : b.received = []) (hd : b.delivered = []) : b.Ok where
  raised := by simp [hp]
  lowered := fun _ => hf
  conserved := by simp [hand, hp, hq, hr, hd]

/-- **One step** keeps the invariant. -/
theorem Ok.step (h : b.Ok) (hs : Step b b') : b'.Ok := by
  have hc := h.conserved
  cases hs with
  | put m =>
    refine ⟨h.raised, h.lowered, ?_⟩
    change b.received ++ b.hand ++ (b.queue ++ [m]) = b.delivered ++ [m]
    simp only [← hc, List.append_assoc]
  | ready hp hq =>
    have hf := h.lowered (.inl hp)
    refine ⟨by simp, by simp, ?_⟩
    simpa [hand, hp, hq, hf] using hc
  | miss hp hq =>
    have hf := h.lowered (.inl hp)
    refine ⟨by simp, fun _ => hf, ?_⟩
    simpa [hand, hp] using hc
  | raise hp =>
    refine ⟨fun _ => rfl, by simp, ?_⟩
    simpa [hand, hp] using hc
  | wake hp =>
    have hf := h.raised (.inl hp)
    refine ⟨by simp, by simp, ?_⟩
    simpa [hand, hp, hf] using hc
  | test hp =>
    by_cases hf : b.flag = true
    · refine ⟨fun _ => hf, by simp [hf], ?_⟩
      simpa [hand, hp, hf] using hc
    · refine ⟨by simp [hf], fun _ => by simpa using hf, ?_⟩
      simpa [hand, hp, hf] using hc
  | take hp hq =>
    refine ⟨by simp, by simp, ?_⟩
    simpa [hand, hp, hq] using hc
  | lower hp =>
    refine ⟨by simp, fun _ => rfl, ?_⟩
    simpa [hand, hp] using hc
  | give x hp =>
    have hf := h.lowered (.inr (.inr hp))
    refine ⟨by simp, fun _ => hf, ?_⟩
    simpa [hand, hp] using hc

/-- A value in hand or in the queue stays there until it is received. -/
theorem Step.held (hs : Step b b') (hok : b.Ok) {m : α} (hm : m ∈ b.hand ++ b.queue) :
    m ∈ b'.hand ++ b'.queue ∨ b.place = .leaving ∧ b'.place = .away ∧ m = b.data := by
  cases hs with
  | put x =>
    left
    change m ∈ b.hand ++ (b.queue ++ [x])
    rw [← List.append_assoc]
    exact List.mem_append_left _ hm
  | ready hp hq =>
    have hf := hok.lowered (.inl hp)
    simpa [hand, hp, hq, hf] using hm
  | miss hp hq => simp [hand, hp, hq] at hm
  | raise hp => simpa [hand, hp] using hm
  | wake hp =>
    have hf := hok.raised (.inl hp)
    simpa [hand, hp, hf] using hm
  | test hp =>
    by_cases hf : b.flag = true <;> simpa [hand, hp, hf] using hm
  | take hp hq => simpa [hand, hp, hq] using hm
  | lower hp => simpa [hand, hp] using hm
  | give x hp =>
    simp only [hand, hp, List.mem_append, List.mem_singleton] at hm
    rcases hm with hm | hm
    · exact .inr ⟨hp, rfl, hm⟩
    · exact .inl (List.mem_append_right _ hm)

/-- A reader sent to the queue by a wake finds a value there. -/
def Fed (b : Mailbox α) : Prop :=
  b.place = .taking ∨ b.place = .back ∧ b.flag = true → b.queue ≠ []

/-- A sleeping reader takes nothing from the queue. -/
theorem Step.queue_ne_nil (hs : Step b b') (hp : b'.place = .asleep) (hq : b.queue ≠ []) :
    b'.queue ≠ [] := by
  cases hs with
  | put m => simp
  | ready | take => cases hp
  | _ => exact hq

/-- **One step** keeps the reader fed if each wake finds a value. -/
theorem Fed.step (h : b.Fed) (hok : b.Ok) (hs : Step b b')
    (hw : b.place = .asleep → b'.place = .back → b.queue ≠ []) : b'.Fed := by
  cases hs with
  | put m =>
    intro _
    simp
  | ready hp hq =>
    have hf := hok.lowered (.inl hp)
    simp [Fed, hf]
  | wake hp => exact fun _ => hw hp rfl
  | test hp =>
    by_cases hf : b.flag = true
    · exact fun _ => h (.inr ⟨hp, hf⟩)
    · simp [Fed, hf]
  | miss | raise | take | lower | give => simp [Fed]

end Mailbox
