import DataProxy.QueueIndex
import DataProxy.Lib.Tickets
import Mathlib.Data.Finset.Card

/-!
# The invariant of the queue

The proof needs some history that the code does not keep (`Ghost`).  For each sub-queue (`Lane`):
what became of every number drawn from `dequeueOptimisticCount`, and of every element; which block
and which entry a block number got.  For each block: who may touch it (`Owner`).  An owner is one
thread, one block number of one sub-queue, or nobody, so that two uses of a block can never meet.

`Inv` has one part for each of these.  A thread that does not move relies on little: `Lane.Keeps`
states what the others must leave alone for it, and `Inv.of_local` is the rule for one step.
-/

namespace DataProxy.ConcurrentQueue

open Function (update)
open Tickets (Fate Desk lostCount)

variable {P C α : Type}

/-- What became of an element, and the consumer it belongs to. -/
inductive Slot (C : Type)
  /-- Nobody has its index. -/
  | waiting
  | held (c : C)
  /-- Moved out of its block. -/
  | taken (c : C)
  /-- Counted in `elementsCompletelyDequeued`, as the last of its block. -/
  | emptied (c : C)
  | returned

namespace Slot

/-- The object in the block is alive. -/
def full : Slot C → Bool
  | .waiting | .held _ => true
  | .taken _ | .emptied _ | .returned => false

/-- The element is counted in `elementsCompletelyDequeued`. -/
def done : Slot C → Bool
  | .emptied _ | .returned => true
  | .waiting | .held _ | .taken _ => false

def client : Slot C → Option C
  | .held c | .taken c | .emptied c => some c
  | .waiting | .returned => none

end Slot

/-- The consumer that has still to act on a number. -/
def client : Fate C → Option C
  | .pending c | .granted c | .refused c => some c
  | .taken | .returned => none

/-- Who may touch a block. -/
inductive Owner (P C : Type)
  /-- Not yet handed out. -/
  | fresh
  | free
  /-- The thread of `p` has got it for its next block. -/
  | held (p : P)
  /-- It is block number `n` of the sub-queue of `p`. -/
  | live (p : P) (n : ℕ)
  /-- Consumer `c` found it empty and will release it. -/
  | dying (c : C)
  /-- Freed. -/
  | gone

/-- The history of a sub-queue. -/
structure Lane (C : Type) where
  fates : List (Fate C) := []
  slot : ℕ → Slot C := fun _ => .waiting
  blockOf : ℕ → ℕ := fun _ => 0
  entryOf : ℕ → ℕ := fun _ => 0
  shift : ℕ → ℕ := fun _ => 0

structure Ghost (P C : Type) where
  lane : P → Lane C
  owner : ℕ → Owner P C

/-! ### Counting the elements of a block -/

/-- How many elements of block `n` are counted as dequeued. -/
def tally (slot : ℕ → Slot C) (n : ℕ) : ℕ :=
  ((Finset.range 32).filter fun j => (slot (32 * n + j)).done = true).card

theorem tally_congr {slot slot' : ℕ → Slot C} (h : ∀ i, (slot' i).done = (slot i).done) (n : ℕ) :
    tally slot' n = tally slot n := by
  simp only [tally, h]

theorem tally_lt_of_not_done {slot : ℕ → Slot C} {i : ℕ} (h : (slot i).done = false) :
    tally slot (i / 32) < 32 := by
  have hlt : ((Finset.range 32).filter fun j => (slot (32 * (i / 32) + j)).done = true).card <
      (Finset.range 32).card := by
    refine Finset.card_lt_card (Finset.filter_ssubset.2 ⟨i % 32, ?_, ?_⟩)
    · simpa using Nat.mod_lt i (by decide)
    · rw [Nat.div_add_mod, h]
      decide
  rw [Finset.card_range] at hlt
  exact hlt

theorem done_of_tally {slot : ℕ → Slot C} {n j : ℕ} (h : tally slot n = 32) (hj : j < 32) :
    (slot (32 * n + j)).done = true := by
  by_contra hne
  have hnot : (slot (32 * n + j)).done = false := by simpa using hne
  have hlt := tally_lt_of_not_done hnot
  rw [show (32 * n + j) / 32 = n by omega] at hlt
  omega

/-- One more element is counted. -/
theorem tally_update {slot : ℕ → Slot C} {i : ℕ} {f : Slot C} (h : (slot i).done = false)
    (hf : f.done = true) (n : ℕ) :
    tally (update slot i f) n = tally slot n + if n = i / 32 then 1 else 0 := by
  unfold tally
  split
  · subst n
    have hset : ((Finset.range 32).filter fun j => (update slot i f (32 * (i / 32) + j)).done = true) =
        insert (i % 32) ((Finset.range 32).filter fun j => (slot (32 * (i / 32) + j)).done = true) := by
      ext j
      by_cases hj : j = i % 32
      · subst hj
        simp [Nat.div_add_mod, hf, Nat.mod_lt]
      · have hne : 32 * (i / 32) + j ≠ i := by omega
        simp [Function.update_of_ne hne, hj]
    rw [hset, Finset.card_insert_of_notMem]
    simp [Nat.div_add_mod, h]
  · rename_i hn
    rw [Nat.add_zero]
    congr 1
    refine Finset.filter_congr fun j hj => ?_
    have hne : 32 * n + j ≠ i := by
      have := Finset.mem_range.1 hj
      omega
    rw [Function.update_of_ne hne]

/-! ### One sub-queue -/

/-- The counters of a sub-queue, as tickets for its elements. -/
def Lane.desk (L : Lane C) (R : ImplicitProducer α) : Desk C :=
  ⟨R.dequeueOptimisticCount, R.headIndex, R.dequeueOvercommit, L.fates⟩

/-- The object that is constructed and not yet published. -/
def EnqueuePc.built : EnqueuePc α → Option α
  | .storeTail x => some x
  | _ => none

/-- The thread has not come to the index. -/
def EnqueuePc.early : EnqueuePc α → Bool
  | .idle | .loadHead _ | .insertEntry _ => true
  | _ => false

namespace ImplicitProducer

variable (R : ImplicitProducer α)

/-- The object at the place of index `i`. -/
def content (slot : ℕ → Slot C) (i : ℕ) : Option α :=
  if i < R.tailIndex then if (slot i).full then R.published[i]? else none
  else if i = R.tailIndex then R.pc.built else none

/-- There is room for another block: the counters stay within half a round of each other. -/
def Room : Prop := R.tailIndex % 32 = 0 ∧ R.tailIndex + 32 < R.headIndex + 2 ^ 63

/-- What the thread that enqueues has established on its way. -/
def PcOk : EnqueuePc α → Prop
  | .idle | .construct _ | .storeTail _ => True
  | .loadHead _ => R.tailIndex % 32 = 0
  | .insertEntry _ => R.Room
  | .newIndex _ => R.Room ∧ ∃ cur, R.blockIndex = some cur ∧
      (R.header cur).capacity ≤ R.indexed ∧
      (R.entries (R.nextEntry cur)).key = some (32 * (R.indexed - (R.header cur).capacity))
  | .storeKey _ e t => R.Room ∧ ∃ cur, R.blockIndex = some cur ∧
      t = ((R.header cur).tail + 1) % (R.header cur).capacity ∧ e = R.nextEntry cur ∧
      (R.entries e).value = none
  | .storeIndexTail _ e t => R.Room ∧ ∃ cur, R.blockIndex = some cur ∧
      t = ((R.header cur).tail + 1) % (R.header cur).capacity ∧ e = R.nextEntry cur ∧
      R.entries e = ⟨some R.tailIndex, none⟩
  | .tryPool _ e | .tryFreeList _ e | .create _ e | .resetEmpty _ e _ | .storeValue _ e _ | .rewind e =>
      R.Room ∧ ∃ cur, R.blockIndex = some cur ∧ e = (R.header cur).index (R.header cur).tail ∧
      R.entries e = ⟨some R.tailIndex, none⟩
  | .clearValue e => (R.entries e).value = none

/-- The invariant of one sub-queue. -/
structure LaneOk (R : ImplicitProducer α) (L : Lane C) : Prop where
  desk : (L.desk R).Ok R.tailIndex
  waiting : ∀ i, L.slot i = .waiting ↔ R.headIndex ≤ i
  length : R.published.length = R.tailIndex
  room : 32 * R.indexed < R.headIndex + 2 ^ 63
  noIndex : R.blockIndex = none → R.tailIndex = 0 ∧ R.pc.early = true
  ring : ∀ cur, R.blockIndex = some cur → R.RingOk L.shift cur
  tailBlock : R.tailIndex < 32 * R.indexed → R.tailBlock = some (L.blockOf (R.tailIndex / 32))
  pc : R.PcOk R.pc

end ImplicitProducer

/-- Block `n` of the sub-queue of `p`, with some element not yet dequeued. -/
structure Live (blocks : ℕ → Option (Block α)) (owner : ℕ → Owner P C) (p : P)
    (R : ImplicitProducer α) (L : Lane C) (n : ℕ) : Prop where
  entry : R.entries (L.entryOf n) = ⟨some (32 * n), some (L.blockOf n)⟩
  position : ∀ cur, R.blockIndex = some cur →
    ∃ q < (R.header cur).capacity, (R.header cur).index q = L.entryOf n
  owner : owner (L.blockOf n) = .live p n
  block : ∃ B, blocks (L.blockOf n) = some B ∧ B.elementsCompletelyDequeued = tally L.slot n ∧
    ∀ j < 32, B.elements j = R.content L.slot (32 * n + j)

/-- The block a thread has got and not yet indexed. -/
def HeldOk (blocks : ℕ → Option (Block α)) (owner : ℕ → Owner P C) (p : P) : EnqueuePc α → Prop
  | .resetEmpty _ _ b => owner b = .held p
  | .storeValue _ _ b => owner b = .held p ∧
      ∃ B, blocks b = some B ∧ B.elementsCompletelyDequeued = 0
  | _ => True

/-- No object is alive in the block. -/
def Clean (blocks : ℕ → Option (Block α)) (b : ℕ) : Prop :=
  ∃ B, blocks b = some B ∧ ∀ j < 32, B.elements j = none

/-- The blocks that belong to no sub-queue. -/
structure PoolOk (poolSize : ℕ) (s : Queue P C α) (owner : ℕ → Owner P C) : Prop where
  nodup : s.freeList.Nodup
  free : ∀ b ∈ s.freeList, owner b = .free
  pool : ∀ b, s.initialBlockPoolIndex ≤ b → b < poolSize → owner b = .fresh
  alloc : poolSize ≤ s.nextBlock ∧ ∀ b, s.nextBlock ≤ b → owner b = .fresh
  clean : ∀ b, owner b = .free ∨ (∃ p, owner b = .held p) ∨ (∃ c, owner b = .dying c) ∨
    (owner b = .fresh ∧ b < poolSize) → Clean s.blocks b

/-- Header `h` has the entry of block `n`. -/
def Has (R : ImplicitProducer α) (L : Lane C) (h n : ℕ) : Prop :=
  (∃ cur, R.blockIndex = some cur ∧ h ≤ cur) ∧
    ∃ q < (R.header h).capacity, (R.header h).index q = L.entryOf n

/-- What a consumer at each place of `dequeue` knows. -/
def ConsOk (s : Queue P C α) (g : Ghost P C) (c : C) : DequeuePc P α → Prop
  | .idle | .loadTail _ | .loadOvercommit _ _ => True
  | .check p _ v | .reserve p v => v ≤ (s.producer p).dequeueOvercommit
  | .recheck p v m => (g.lane p).fates[m]? = some (.pending c) ∧
      v ≤ lostCount ((g.lane p).fates.take m)
  | .claim p m => (g.lane p).fates[m]? = some (.granted c)
  | .giveBack p m => (g.lane p).fates[m]? = some (.refused c)
  | .loadIndex p i => (g.lane p).slot i = .held c
  | .loadIndexTail p i h => (g.lane p).slot i = .held c ∧ Has (s.producer p) (g.lane p) h (i / 32)
  | .loadKey p i h t => (g.lane p).slot i = .held c ∧ Has (s.producer p) (g.lane p) h (i / 32) ∧
      t < ((s.producer p).header h).capacity ∧ (s.producer p).keyAt h t ≠ none
  | .loadValue p i h t k => (g.lane p).slot i = .held c ∧
      Has (s.producer p) (g.lane p) h (i / 32) ∧ k % 32 = 0 ∧
      k / 32 ≡ t + (g.lane p).shift h [MOD ((s.producer p).header h).capacity]
  | .take p i e b => (g.lane p).slot i = .held c ∧ e = (g.lane p).entryOf (i / 32) ∧
      b = (g.lane p).blockOf (i / 32)
  | .setEmpty p i e b x => (g.lane p).slot i = .taken c ∧ e = (g.lane p).entryOf (i / 32) ∧
      b = (g.lane p).blockOf (i / 32) ∧ (s.producer p).published[i]? = some x
  | .unlink p i e b x => (g.lane p).slot i = .emptied c ∧ e < (s.producer p).entryCount ∧
      (∃ k, (s.producer p).entries e = ⟨some k, some b⟩) ∧ g.owner b = .dying c ∧
      (s.producer p).published[i]? = some x
  | .release p i b x => (g.lane p).slot i = .emptied c ∧ g.owner b = .dying c ∧
      (s.producer p).published[i]? = some x

/-- The element a consumer has the index of. -/
def DequeuePc.holding : DequeuePc P α → Option (P × ℕ)
  | .loadIndex p i | .loadIndexTail p i _ | .loadKey p i _ _ | .loadValue p i _ _ _ | .take p i _ _
  | .setEmpty p i _ _ _ | .unlink p i _ _ _ | .release p i _ _ => some (p, i)
  | .idle | .loadTail _ | .loadOvercommit _ _ | .check _ _ _ | .reserve _ _ | .recheck _ _ _
  | .claim _ _ | .giveBack _ _ => none

/-- What was dequeued. -/
structure OutOk (s : Queue P C α) (g : Ghost P C) : Prop where
  returned : ∀ r ∈ s.returned, (g.lane r.producer).slot r.index = .returned ∧
    (s.producer r.producer).published[r.index]? = some r.element
  complete : ∀ p i, (g.lane p).slot i = .returned → ∃ r ∈ s.returned, r.producer = p ∧ r.index = i
  holder : ∀ p i c, ((g.lane p).slot i).client = some c → (s.consumer c).holding = some (p, i)
  distinct : s.returned.Pairwise fun r r' => r.producer = r'.producer → r.index ≠ r'.index
  order : s.returned.Pairwise fun r r' => r.consumer = r'.consumer → r.producer = r'.producer →
    r'.index < r.index
  next : ∀ c p i, (s.consumer c).holding = some (p, i) → ∀ r ∈ s.returned, r.consumer = c →
    r.producer = p → r.index < i

/-- **The invariant.** -/
structure Inv (poolSize : ℕ) (s : Queue P C α) (g : Ghost P C) : Prop where
  noFault : s.fault = none
  lane : ∀ p, (s.producer p).LaneOk (g.lane p)
  held : ∀ p, HeldOk s.blocks g.owner p (s.producer p).pc
  live : ∀ p n, n < (s.producer p).indexed → tally (g.lane p).slot n < 32 →
    Live s.blocks g.owner p (s.producer p) (g.lane p) n
  pool : PoolOk poolSize s g.owner
  cons : ∀ c, ConsOk s g c (s.consumer c)
  out : OutOk s g

/-! ### What the others leave alone -/

/-- How a sub-queue may change while consumer `c` stands still; `mine` are the blocks `c` is
about to release. -/
structure Keeps (c : C) (mine : ℕ → Prop) (R : ImplicitProducer α) (L : Lane C)
    (R' : ImplicitProducer α) (L' : Lane C) : Prop where
  overcommit : R.dequeueOvercommit ≤ R'.dequeueOvercommit
  fate : ∀ (m : ℕ) f, L.fates[m]? = some f → client f = some c → L'.fates[m]? = some f
  lost : ∀ m < L.fates.length, lostCount (L.fates.take m) ≤ lostCount (L'.fates.take m)
  slot : ∀ i, (L.slot i).client = some c → L'.slot i = L.slot i
  published : ∀ (i : ℕ) x, R.published[i]? = some x → R'.published[i]? = some x
  header : ∀ cur, R.blockIndex = some cur → (∃ cur', R'.blockIndex = some cur' ∧ cur ≤ cur') ∧
    ∀ h ≤ cur, (R'.header h).capacity = (R.header h).capacity ∧
      (R'.header h).index = (R.header h).index ∧ L'.shift h = L.shift h
  key : ∀ cur, R.blockIndex = some cur → ∀ h ≤ cur, ∀ q < (R.header h).capacity,
    R.keyAt h q ≠ none → R'.keyAt h q ≠ none
  names : ∀ n < R.indexed, L'.blockOf n = L.blockOf n ∧ L'.entryOf n = L.entryOf n
  made : R.entryCount ≤ R'.entryCount
  entry : ∀ e < R.entryCount, ∀ k b, mine b → R.entries e = ⟨some k, some b⟩ →
    R'.entries e = ⟨some k, some b⟩

theorem Keeps.refl (c : C) (mine : ℕ → Prop) (R : ImplicitProducer α) (L : Lane C) :
    Keeps c mine R L R L where
  overcommit := le_rfl
  fate := fun _ _ h _ => h
  lost := fun _ _ => le_rfl
  slot := fun _ _ => rfl
  published := fun _ _ h => h
  header := fun cur h => ⟨⟨cur, h, le_rfl⟩, fun _ _ => ⟨rfl, rfl, rfl⟩⟩
  key := fun _ _ _ _ _ _ h => h
  names := fun _ _ => ⟨rfl, rfl⟩
  made := le_rfl
  entry := fun _ _ _ _ _ h => h

namespace ImplicitProducer

variable {R R' : ImplicitProducer α} {L L' : Lane C} {c : C}

theorem tailIndex_le (R : ImplicitProducer α) : R.tailIndex ≤ 32 * R.indexed := by
  unfold indexed
  split <;> omega

/-- An element that was given out has a block. -/
theorem LaneOk.block_lt (H : R.LaneOk L) {i : ℕ} (h : L.slot i ≠ .waiting) : i / 32 < R.indexed := by
  have hi : i < R.headIndex := by
    by_contra hle
    exact h ((H.waiting i).2 (by omega))
  have hhead : R.headIndex ≤ R.tailIndex := H.desk.taken_le
  have := R.tailIndex_le
  omega

end ImplicitProducer

theorem Has.keep {R R' : ImplicitProducer α} {L L' : Lane C} {c : C} {mine : ℕ → Prop} {h n : ℕ}
    (K : Keeps c mine R L R' L') (hn : n < R.indexed) (H : Has R L h n) : Has R' L' h n := by
  obtain ⟨⟨cur, hcur, hle⟩, q, hq, he⟩ := H
  obtain ⟨⟨cur', hcur', hle'⟩, hsame⟩ := K.header cur hcur
  obtain ⟨hcap, hidx, -⟩ := hsame h hle
  exact ⟨⟨cur', hcur', hle.trans hle'⟩, q, hcap ▸ hq, by rw [hidx, he, (K.names n hn).2]⟩

/-- A consumer that stands still keeps what it knows. -/
theorem ConsOk.keep {s s' : Queue P C α} {g g' : Ghost P C} {c : C} {pc : DequeuePc P α}
    (hlane : ∀ p, (s.producer p).LaneOk (g.lane p))
    (K : ∀ p, Keeps c (fun b => g.owner b = .dying c) (s.producer p) (g.lane p) (s'.producer p)
      (g'.lane p))
    (hdying : ∀ b, g.owner b = .dying c → g'.owner b = .dying c) (h : ConsOk s g c pc) :
    ConsOk s' g' c pc := by
  have hslot : ∀ {p i f}, (g.lane p).slot i = f → f.client = some c → (g'.lane p).slot i = f := by
    intro p i f hf hc
    rw [(K p).slot i (by rw [hf, hc]), hf]
  have hlt : ∀ {p i}, (g.lane p).slot i = .held c → i / 32 < (s.producer p).indexed :=
    fun hf => (hlane _).block_lt (by rw [hf]; simp)
  cases pc with
  | idle => trivial
  | loadTail p => trivial
  | loadOvercommit p t => trivial
  | check p t v => exact le_trans h (K p).overcommit
  | reserve p v => exact le_trans h (K p).overcommit
  | recheck p v m =>
    have hm : m < (g.lane p).fates.length := (List.getElem?_eq_some_iff.1 h.1).1
    exact ⟨(K p).fate m _ h.1 rfl, h.2.trans ((K p).lost m hm)⟩
  | claim p m => exact (K p).fate m _ h rfl
  | giveBack p m => exact (K p).fate m _ h rfl
  | loadIndex p i => exact hslot h rfl
  | loadIndexTail p i hd => exact ⟨hslot h.1 rfl, h.2.keep (K p) (hlt h.1)⟩
  | loadKey p i hd t =>
    obtain ⟨hs, hhas, ht, hk⟩ := h
    obtain ⟨cur, hcur, hle⟩ := hhas.1
    exact ⟨hslot hs rfl, hhas.keep (K p) (hlt hs), (((K p).header cur hcur).2 hd hle).1 ▸ ht,
      (K p).key cur hcur hd hle t ht hk⟩
  | loadValue p i hd t k =>
    obtain ⟨hs, hhas, hk, hmod⟩ := h
    obtain ⟨cur, hcur, hle⟩ := hhas.1
    obtain ⟨hcap, -, hshift⟩ := ((K p).header cur hcur).2 hd hle
    refine ⟨hslot hs rfl, hhas.keep (K p) (hlt hs), hk, ?_⟩
    rw [hcap, hshift]
    exact hmod
  | take p i e b =>
    obtain ⟨hs, he, hb⟩ := h
    obtain ⟨hb', he'⟩ := (K p).names _ (hlt hs)
    exact ⟨hslot hs rfl, by rw [he', he], by rw [hb', hb]⟩
  | setEmpty p i e b x =>
    obtain ⟨hs, he, hb, hx⟩ := h
    obtain ⟨hb', he'⟩ := (K p).names (i / 32) ((hlane p).block_lt (by rw [hs]; simp))
    exact ⟨hslot hs rfl, by rw [he', he], by rw [hb', hb], (K p).published i x hx⟩
  | unlink p i e b x =>
    obtain ⟨hs, he, ⟨k, hk⟩, ho, hx⟩ := h
    exact ⟨hslot hs rfl, he.trans_le (K p).made, ⟨k, (K p).entry e he k b ho hk⟩, hdying b ho,
      (K p).published i x hx⟩
  | release p i b x =>
    obtain ⟨hs, ho, hx⟩ := h
    exact ⟨hslot hs rfl, hdying b ho, (K p).published i x hx⟩

theorem Live.frame {blocks blocks' : ℕ → Option (Block α)} {owner owner' : ℕ → Owner P C} {p : P}
    {R : ImplicitProducer α} {L : Lane C} {n : ℕ} (H : Live blocks owner p R L n)
    (hb : blocks' (L.blockOf n) = blocks (L.blockOf n))
    (ho : owner' (L.blockOf n) = owner (L.blockOf n)) : Live blocks' owner' p R L n :=
  ⟨H.entry, H.position, ho.trans H.owner, by rw [hb]; exact H.block⟩

theorem HeldOk.frame {blocks blocks' : ℕ → Option (Block α)} {owner owner' : ℕ → Owner P C} {p : P}
    {pc : EnqueuePc α} (H : HeldOk blocks owner p pc)
    (h : ∀ b, owner b = .held p → blocks' b = blocks b ∧ owner' b = owner b) :
    HeldOk blocks' owner' p pc := by
  unfold HeldOk at H ⊢
  split at H
  · rw [(h _ H).2, H]
  · obtain ⟨hb, ho⟩ := h _ H.1
    rw [hb, ho]
    exact H
  · trivial

/-- **The rule for one step**, at the sub-queue of `p` and by consumer `mover`, if it is one.  It
leaves the other sub-queues and their blocks alone. -/
theorem Inv.of_local {poolSize : ℕ} {s s' : Queue P C α} {g g' : Ghost P C} (p : P)
    (mover : Option C) (I : Inv poolSize s g) (noFault : s'.fault = none)
    (others : ∀ p', p' ≠ p → s'.producer p' = s.producer p' ∧ g'.lane p' = g.lane p')
    (still : ∀ c, mover ≠ some c → s'.consumer c = s.consumer c)
    (lane : (s'.producer p).LaneOk (g'.lane p))
    (held : HeldOk s'.blocks g'.owner p (s'.producer p).pc)
    (live : ∀ n, n < (s'.producer p).indexed → tally (g'.lane p).slot n < 32 →
      Live s'.blocks g'.owner p (s'.producer p) (g'.lane p) n)
    (keeps : ∀ c, mover ≠ some c → Keeps c (fun b => g.owner b = .dying c) (s.producer p) (g.lane p)
      (s'.producer p) (g'.lane p))
    (heap : ∀ p', p' ≠ p → ∀ b, g.owner b = .held p' ∨ (∃ n, g.owner b = .live p' n) →
      s'.blocks b = s.blocks b ∧ g'.owner b = g.owner b)
    (dying : ∀ c, mover ≠ some c → ∀ b, g.owner b = .dying c → g'.owner b = .dying c)
    (cons : ∀ c, mover = some c → ConsOk s' g' c (s'.consumer c))
    (pool : PoolOk poolSize s' g'.owner) (out : OutOk s' g') : Inv poolSize s' g' := by
  refine ⟨noFault, fun p' => ?_, fun p' => ?_, fun p' n hn ht => ?_, pool, fun c => ?_, out⟩
  · by_cases hp : p' = p
    · exact hp ▸ lane
    · rw [(others p' hp).1, (others p' hp).2]
      exact I.lane p'
  · by_cases hp : p' = p
    · exact hp ▸ held
    · rw [(others p' hp).1]
      exact (I.held p').frame fun b hb => heap p' hp b (.inl hb)
  · by_cases hp : p' = p
    · subst hp
      exact live n hn ht
    · obtain ⟨hR, hL⟩ := others p' hp
      rw [hR] at hn ⊢
      rw [hL] at ht ⊢
      have hlive := I.live p' n hn ht
      obtain ⟨hb, ho⟩ := heap p' hp _ (.inr ⟨n, hlive.owner⟩)
      exact hlive.frame hb ho
  · by_cases hc : mover = some c
    · exact cons c hc
    · rw [still c hc]
      refine ConsOk.keep I.lane (fun p' => ?_) (dying c hc) (I.cons c)
      by_cases hp : p' = p
      · exact hp ▸ keeps c hc
      · rw [(others p' hp).1, (others p' hp).2]
        exact Keeps.refl ..

end DataProxy.ConcurrentQueue
