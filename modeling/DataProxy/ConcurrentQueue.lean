import DataProxy.Lib.Run
import Mathlib.Algebra.Group.Nat.Defs

/-!
# `moodycamel::ConcurrentQueue`

Every queue of the program, the two of the bus and those of the awaits, is a `ConcurrentQueue` with
the default traits.  It is made of one sub-queue for each thread that enqueues (`ImplicitProducer`);
any thread may dequeue from any sub-queue.

* A sub-queue keeps its elements in blocks of 32, found through a circular index of blocks that is
  replaced by one of twice the size when it is full.
* Four counters say where elements are: `tailIndex` and `headIndex`, and two that let consumers
  reserve an element before they know which one it is.
* A block whose 32 elements are dequeued is taken out of the index by the consumer that dequeued the
  last of them; a block of the initial pool then goes to a free list that all sub-queues share, any
  other is freed.  The free list is kept as a bag, from which `try_get` takes any block, or none.

Blocks, and the entries and headers of an index, are named by numbers in the order they are made.

One step is one access to shared memory, or a few loads in a row where no store of another thread
between them matters; `new_block_index` and a call of the free list are one step each, with the loops
in them.  The scheduler picks the next thread freely, so a run is an interleaving of the steps of all
calls.  The four counters only ever grow by one: each is kept
as the number of its increments and looked at modulo `2 ^ 64`, as `index_t` is.  The capacities of
the index and the size of a block are powers of two, so that `& (n - 1)` is written `% n` where no
subtraction is involved.

An assertion that fails, or an access to an object that is not there, sets `fault`, and no step
follows.  `published` and `returned` are ghost: what was enqueued, and what was dequeued by whom.
-/

namespace DataProxy.ConcurrentQueue

open Function (update)

/-- `details::circular_less_than`. -/
def circularLessThan (a b : UInt64) : Bool := decide ((1 : UInt64) <<< 63 < a - b)

/-- `Block`: the objects alive in it, and how many of its elements are dequeued. -/
structure Block (α : Type) where
  elements : ℕ → Option α := fun _ => none
  elementsCompletelyDequeued : ℕ := 0

/-- `BlockIndexEntry`; no key is `INVALID_BLOCK_BASE`. -/
structure BlockIndexEntry where
  key : Option ℕ := none
  value : Option ℕ := none
  deriving DecidableEq

/-- `BlockIndexHeader`; `index` gives the entry at each position below `capacity`. -/
structure BlockIndexHeader where
  capacity : ℕ
  tail : ℕ
  index : ℕ → ℕ

/-- The next access of `ImplicitProducer::enqueue`, with the element, and later with the entry
`idxEntry` and the block `newBlock`. -/
inductive EnqueuePc (α : Type)
  | idle
  | loadHead (x : α)
  /-- `insert_block_index_entry`: the test of the entry after the tail. -/
  | insertEntry (x : α)
  /-- `new_block_index`. -/
  | newIndex (x : α)
  | storeKey (x : α) (e : ℕ) (newTail : ℕ)
  | storeIndexTail (x : α) (e : ℕ) (newTail : ℕ)
  /-- `requisition_block`: the initial pool, the free list, the heap. -/
  | tryPool (x : α) (e : ℕ)
  | tryFreeList (x : α) (e : ℕ)
  | create (x : α) (e : ℕ)
  /-- No block: `rewind_block_index_tail`, then the store of `nullptr`. -/
  | rewind (e : ℕ)
  | clearValue (e : ℕ)
  | resetEmpty (x : α) (e : ℕ) (b : ℕ)
  | storeValue (x : α) (e : ℕ) (b : ℕ)
  | construct (x : α)
  | storeTail (x : α)

/-- `ImplicitProducer`.  `header` and `entries` hold the headers and entries made so far; the
current header is the last one. -/
structure ImplicitProducer (α : Type) where
  tailIndex : ℕ := 0
  headIndex : ℕ := 0
  dequeueOptimisticCount : ℕ := 0
  dequeueOvercommit : ℕ := 0
  tailBlock : Option ℕ := none
  entries : ℕ → BlockIndexEntry := fun _ => {}
  entryCount : ℕ
  header : ℕ → BlockIndexHeader
  blockIndex : Option ℕ
  nextBlockIndexCapacity : ℕ
  pc : EnqueuePc α := .idle
  published : List α := []

/-- The next access of `ImplicitProducer::dequeue` on the sub-queue of `p`, with the values loaded
before it. -/
inductive DequeuePc (P α : Type)
  | idle
  | loadTail (p : P)
  | loadOvercommit (p : P) (tail : ℕ)
  /-- The first comparison. -/
  | check (p : P) (tail overcommit : ℕ)
  /-- The increment of `dequeueOptimisticCount`. -/
  | reserve (p : P) (overcommit : ℕ)
  /-- The second load of `tailIndex`, and the second comparison. -/
  | recheck (p : P) (overcommit myDequeueCount : ℕ)
  /-- The increment of `headIndex`. -/
  | claim (p : P) (myDequeueCount : ℕ)
  /-- The increment of `dequeueOvercommit`. -/
  | giveBack (p : P) (myDequeueCount : ℕ)
  /-- `get_block_index_entry_for_index`, in four loads. -/
  | loadIndex (p : P) (index : ℕ)
  | loadIndexTail (p : P) (index : ℕ) (h : ℕ)
  | loadKey (p : P) (index : ℕ) (h : ℕ) (tail : ℕ)
  | loadValue (p : P) (index : ℕ) (h : ℕ) (tail tailBase : ℕ)
  /-- The element is moved out and destroyed. -/
  | take (p : P) (index : ℕ) (e : ℕ) (b : ℕ)
  | setEmpty (p : P) (index : ℕ) (e : ℕ) (b : ℕ) (element : α)
  | unlink (p : P) (index : ℕ) (e : ℕ) (b : ℕ) (element : α)
  /-- `add_block_to_free_list`. -/
  | release (p : P) (index : ℕ) (b : ℕ) (element : α)

/-- What the code asserts, or relies on when it follows a pointer. -/
inductive Fault
  /-- `assert(!circular_less_than(currentTailIndex, head))`. -/
  | tailBehindHead
  /-- `assert(i == prevCapacity)` in `new_block_index`. -/
  | notCopied
  /-- `assert(idxEntry->key == INVALID_BLOCK_BASE)` after `new_block_index`. -/
  | keyInUse
  /-- `blockIndex` is null in `get_block_index_index_for_index`. -/
  | noIndex
  /-- `assert(tailBase != INVALID_BLOCK_BASE)`. -/
  | noTailBase
  /-- `assert(index[idx]->key == index && index[idx]->value != nullptr)`. -/
  | wrongEntry
  /-- The block is not there, or has no object at the place of the element. -/
  | noObject
  /-- An object is constructed over another. -/
  | overwrite
  /-- `assert(prevVal < BLOCK_SIZE)`. -/
  | overrun
  deriving DecidableEq

/-- A successful dequeue: by whom, from which sub-queue, the index and the element. -/
structure Dequeued (P C α : Type) where
  consumer : C
  producer : P
  index : ℕ
  element : α

/-- The queue, with the place every thread has reached in it. -/
structure Queue (P C α : Type) where
  producer : P → ImplicitProducer α
  consumer : C → DequeuePc P α
  /-- The blocks that exist; those of the initial pool come first. -/
  blocks : ℕ → Option (Block α)
  initialBlockPoolIndex : ℕ
  freeList : List ℕ
  /-- The blocks from here on were never allocated. -/
  nextBlock : ℕ
  fault : Option Fault
  returned : List (Dequeued P C α)

variable {P C α : Type} [DecidableEq P] [DecidableEq C]

/-! ### The block index -/

/-- The size of the allocation of `new_block_index`: a header, `entryCount` entries, and `capacity`
pointers. -/
def indexBytes (entryCount capacity : ℕ) : ℕ := 40 + 7 + 16 * entryCount + 7 + 8 * capacity

/-- The position at which `get_block_index_index_for_index` looks for `index`, a multiple of the
block size: its distance from the key at the tail is divided as a signed number. -/
def indexPosition (capacity tail tailBase index : ℕ) : ℕ :=
  let offset := ((UInt64.ofNat index - UInt64.ofNat tailBase).toInt64 / 32).toUInt64
  ((UInt64.ofNat tail + offset) &&& (UInt64.ofNat capacity - 1)).toNat

/-- The loop of `new_block_index` that copies the entries of the old index, from `prevPos` to the tail:
how many it copies.  It is cut off after `fuel` of them. -/
def copyEntries (capacity prevTail : ℕ) : (fuel prevPos : ℕ) → ℕ
  | 0, _ => 0
  | fuel + 1, prevPos =>
    if (prevPos + 1) % capacity = prevTail then 1
    else 1 + copyEntries capacity prevTail fuel ((prevPos + 1) % capacity)

/-- `i` after the loop. -/
def BlockIndexHeader.copied (prev : BlockIndexHeader) : ℕ :=
  copyEntries prev.capacity prev.tail (prev.capacity + 1) prev.tail

namespace ImplicitProducer

/-- The constructor: `new_block_index` makes the first header, unless the allocation fails. -/
def make (allocated : Bool) : ImplicitProducer α where
  entryCount := if allocated then 32 else 0
  header := fun _ => { capacity := 32, tail := 31, index := id }
  blockIndex := if allocated then some 0 else none
  nextBlockIndexCapacity := if allocated then 64 else 32

variable (R : ImplicitProducer α)

/-- The header `new_block_index` makes from `prev`: the entries of `prev` from the oldest to the one
at its tail, then as many new ones. -/
def grownHeader (prev : BlockIndexHeader) : BlockIndexHeader where
  capacity := R.nextBlockIndexCapacity
  tail := prev.capacity - 1
  index := fun i =>
    if i < prev.capacity then prev.index ((prev.tail + 1 + i) % prev.capacity)
    else R.entryCount + (i - prev.capacity)

/-- `new_block_index`, when there is a header already: the entries of the new block of memory have
invalid keys. -/
def newBlockIndex (h : ℕ) : ImplicitProducer α :=
  { R with
    header := update R.header (h + 1) (R.grownHeader (R.header h))
    blockIndex := some (h + 1)
    entries := fun e =>
      if R.entryCount ≤ e ∧ e < R.entryCount + (R.header h).capacity then {} else R.entries e
    entryCount := R.entryCount + (R.header h).capacity
    nextBlockIndexCapacity := 2 * R.nextBlockIndexCapacity }

/-- The entry after the tail of header `h`. -/
def nextEntry (h : ℕ) : ℕ :=
  (R.header h).index (((R.header h).tail + 1) % (R.header h).capacity)

def setKey (e : ℕ) (k : ℕ) : ImplicitProducer α :=
  { R with entries := update R.entries e { R.entries e with key := some k } }

def setValue (e : ℕ) (v : Option ℕ) : ImplicitProducer α :=
  { R with entries := update R.entries e { R.entries e with value := v } }

def setIndexTail (h : ℕ) (t : ℕ) : ImplicitProducer α :=
  { R with header := update R.header h { R.header h with tail := t } }

end ImplicitProducer

namespace Queue

variable (poolSize : ℕ) (s : Queue P C α)

/-- A queue just constructed, with its initial pool of blocks and the sub-queues of the threads that
will use it. -/
def init (allocated : P → Bool) : Queue P C α where
  producer p := .make (allocated p)
  consumer _ := .idle
  blocks b := if b < poolSize then some {} else none
  initialBlockPoolIndex := 0
  freeList := []
  nextBlock := poolSize
  fault := none
  returned := []

def fail (f : Fault) : Queue P C α := { s with fault := some f }

def setProducer (p : P) (R : ImplicitProducer α) : Queue P C α :=
  { s with producer := update s.producer p R }

def setConsumer (c : C) (pc : DequeuePc P α) : Queue P C α :=
  { s with consumer := update s.consumer c pc }

def setBlock (b : ℕ) (B : Block α) : Queue P C α :=
  { s with blocks := update s.blocks b (some B) }

/-- `dequeue` returns true. -/
def finish (c : C) (p : P) (i : ℕ) (x : α) : Queue P C α :=
  { s with consumer := update s.consumer c .idle, returned := ⟨c, p, i, x⟩ :: s.returned }

/-- `add_block_to_free_list`: allocated blocks are not recycled. -/
def addBlockToFreeList (b : ℕ) : Queue P C α :=
  if b < poolSize then { s with freeList := b :: s.freeList }
  else { s with blocks := update s.blocks b none }

/-! ### `ImplicitProducer::enqueue` -/

/-- The call, up to the test for the end of a block. -/
def enqueue (p : P) (x : α) : Option (Queue P C α) :=
  let R := s.producer p
  match R.pc with
  | .idle =>
    some (s.setProducer p { R with pc := if R.tailIndex % 32 = 0 then .loadHead x else .construct x })
  | _ => none

/-- The next access of the enqueue of `p`; `ok` says whether an allocation succeeds, and `k` which
block `FreeList::try_get` gives, if any. -/
def producerStep (p : P) (ok : Bool) (k : ℕ) : Option (Queue P C α) :=
  let R := s.producer p
  match R.pc with
  | .idle => none
  | .loadHead x =>
    if circularLessThan (.ofNat R.tailIndex) (.ofNat R.headIndex) then some (s.fail .tailBehindHead)
    else if circularLessThan (.ofNat R.headIndex) (.ofNat (R.tailIndex + 32)) then
      some (s.setProducer p { R with pc := .insertEntry x })
    else some (s.setProducer p { R with pc := .idle })
  | .insertEntry x =>
    match R.blockIndex with
    | none => some (s.setProducer p { R with pc := .idle })
    | some h =>
      let e := R.nextEntry h
      if (R.entries e).key = none ∨ (R.entries e).value = none then
        some (s.setProducer p { R with
          pc := .storeKey x e (((R.header h).tail + 1) % (R.header h).capacity) })
      else some (s.setProducer p { R with pc := .newIndex x })
  | .newIndex x =>
    match R.blockIndex with
    | none => none
    | some h =>
      -- no allocation is larger than `PTRDIFF_MAX`
      if ok ∧ indexBytes (R.header h).capacity R.nextBlockIndexCapacity < 2 ^ 63 then
        let R' := R.newBlockIndex h
        let e := R'.nextEntry (h + 1)
        if (R.header h).copied ≠ (R.header h).capacity then some (s.fail .notCopied)
        else if (R'.entries e).key = none then
          some (s.setProducer p { R' with
            pc := .storeKey x e (((R'.header (h + 1)).tail + 1) % (R'.header (h + 1)).capacity) })
        else some (s.fail .keyInUse)
      else some (s.setProducer p { R with pc := .idle })
  | .storeKey x e t =>
    some (s.setProducer p { R.setKey e R.tailIndex with pc := .storeIndexTail x e t })
  | .storeIndexTail x e t =>
    R.blockIndex.map fun h => s.setProducer p { R.setIndexTail h t with pc := .tryPool x e }
  | .tryPool x e =>
    if s.initialBlockPoolIndex < poolSize then
      some { s.setProducer p { R with pc := .resetEmpty x e s.initialBlockPoolIndex } with
        initialBlockPoolIndex := s.initialBlockPoolIndex + 1 }
    else some (s.setProducer p { R with pc := .tryFreeList x e })
  | .tryFreeList x e =>
    match s.freeList[k]? with
    | some b =>
      some { s.setProducer p { R with pc := .resetEmpty x e b } with
        freeList := s.freeList.eraseIdx k }
    | none => some (s.setProducer p { R with pc := .create x e })
  | .create x e =>
    if ok then
      some { (s.setProducer p { R with pc := .resetEmpty x e s.nextBlock }).setBlock s.nextBlock {}
        with nextBlock := s.nextBlock + 1 }
    else some (s.setProducer p { R with pc := .rewind e })
  | .rewind e =>
    R.blockIndex.map fun h =>
      s.setProducer p { R.setIndexTail h
        (((R.header h).tail + (R.header h).capacity - 1) % (R.header h).capacity) with
        pc := .clearValue e }
  | .clearValue e => some (s.setProducer p { R.setValue e none with pc := .idle })
  | .resetEmpty x e b =>
    match s.blocks b with
    | none => some (s.fail .noObject)
    | some B =>
      some ((s.setProducer p { R with pc := .storeValue x e b }).setBlock b
        { B with elementsCompletelyDequeued := 0 })
  | .storeValue x e b =>
    some (s.setProducer p { R.setValue e (some b) with tailBlock := some b, pc := .construct x })
  | .construct x =>
    match R.tailBlock with
    | none => some (s.fail .noObject)
    | some b =>
      match s.blocks b with
      | none => some (s.fail .noObject)
      | some B =>
        match B.elements (R.tailIndex % 32) with
        | some _ => some (s.fail .overwrite)
        | none =>
          some ((s.setProducer p { R with pc := .storeTail x }).setBlock b
            { B with elements := update B.elements (R.tailIndex % 32) (some x) })
  | .storeTail x =>
    some (s.setProducer p { R with
      tailIndex := R.tailIndex + 1
      published := R.published ++ [x]
      pc := .idle })

/-! ### `ImplicitProducer::dequeue` -/

/-- The next access of the dequeue of `c`. -/
def consumerStep (c : C) : Option (Queue P C α) :=
  match s.consumer c with
  | .idle => none
  | .loadTail p => some (s.setConsumer c (.loadOvercommit p (s.producer p).tailIndex))
  | .loadOvercommit p tail => some (s.setConsumer c (.check p tail (s.producer p).dequeueOvercommit))
  | .check p tail overcommit =>
    if circularLessThan (.ofNat (s.producer p).dequeueOptimisticCount - .ofNat overcommit)
        (.ofNat tail) then
      some (s.setConsumer c (.reserve p overcommit))
    else some (s.setConsumer c .idle)
  | .reserve p overcommit =>
    let R := s.producer p
    some ((s.setProducer p { R with dequeueOptimisticCount := R.dequeueOptimisticCount + 1 }).setConsumer
      c (.recheck p overcommit R.dequeueOptimisticCount))
  | .recheck p overcommit m =>
    if circularLessThan (.ofNat m - .ofNat overcommit) (.ofNat (s.producer p).tailIndex) then
      some (s.setConsumer c (.claim p m))
    else some (s.setConsumer c (.giveBack p m))
  | .claim p _ =>
    let R := s.producer p
    some ((s.setProducer p { R with headIndex := R.headIndex + 1 }).setConsumer
      c (.loadIndex p R.headIndex))
  | .giveBack p _ =>
    let R := s.producer p
    some ((s.setProducer p { R with dequeueOvercommit := R.dequeueOvercommit + 1 }).setConsumer
      c .idle)
  | .loadIndex p i =>
    match (s.producer p).blockIndex with
    | none => some (s.fail .noIndex)
    | some h => some (s.setConsumer c (.loadIndexTail p i h))
  | .loadIndexTail p i h => some (s.setConsumer c (.loadKey p i h ((s.producer p).header h).tail))
  | .loadKey p i h t =>
    let R := s.producer p
    match (R.entries ((R.header h).index t)).key with
    | none => some (s.fail .noTailBase)
    | some k => some (s.setConsumer c (.loadValue p i h t k))
  | .loadValue p i h t k =>
    let R := s.producer p
    let base := i - i % 32
    let e := (R.header h).index (indexPosition (R.header h).capacity t k base)
    match R.entries e with
    | ⟨some k', some b⟩ =>
      if k' = base then some (s.setConsumer c (.take p i e b)) else some (s.fail .wrongEntry)
    | _ => some (s.fail .wrongEntry)
  | .take p i e b =>
    match s.blocks b with
    | none => some (s.fail .noObject)
    | some B =>
      match B.elements (i % 32) with
      | none => some (s.fail .noObject)
      | some x =>
        some ((s.setConsumer c (.setEmpty p i e b x)).setBlock b
          { B with elements := update B.elements (i % 32) none })
  | .setEmpty p i e b x =>
    match s.blocks b with
    | none => some (s.fail .noObject)
    | some B =>
      if B.elementsCompletelyDequeued < 32 then
        let s' := s.setBlock b
          { B with elementsCompletelyDequeued := B.elementsCompletelyDequeued + 1 }
        some (if B.elementsCompletelyDequeued = 31 then s'.setConsumer c (.unlink p i e b x)
          else s'.finish c p i x)
      else some (s.fail .overrun)
  | .unlink p i e b x =>
    some ((s.setProducer p ((s.producer p).setValue e none)).setConsumer c (.release p i b x))
  | .release p i b x => some ((s.addBlockToFreeList poolSize b).finish c p i x)

end Queue

/-- Who moves. -/
inductive Action (P C α : Type)
  /-- The thread of `p` calls `enqueue`. -/
  | enqueue (p : P) (x : α)
  | producer (p : P) (ok : Bool) (k : ℕ)
  /-- A thread calls `dequeue` on the sub-queue of `p`. -/
  | dequeue (c : C) (p : P)
  | consumer (c : C)

/-- One step of the queue. -/
def step (poolSize : ℕ) (s : Queue P C α) (act : Action P C α) : Option (Queue P C α) :=
  if s.fault ≠ none then none
  else match act with
    | .enqueue p x => s.enqueue p x
    | .producer p ok k => s.producerStep poolSize p ok k
    | .dequeue c p =>
      match s.consumer c with
      | .idle => some (s.setConsumer c (.loadTail p))
      | _ => none
    | .consumer c => s.consumerStep poolSize c

end DataProxy.ConcurrentQueue
