import DataProxy.Lib.Run
import Mathlib.Logic.Function.Basic
import Mathlib.Data.List.Basic

/-!
# The hash of the implicit producers

`ConcurrentQueue::enqueue` gives every thread a sub-queue of its own: `get_or_add_implicit_producer`
looks the id of the thread up in a hash table that is shared by all threads and has no locks.  Tables
are never freed.  A table that gets too full is followed by one of twice its size, and the older ones
stay reachable through `prev`: a thread that finds its id in one of them adds it to the newest, and one
that does not find it anywhere inserts it, with a producer that the list of producers has to spare, or
with a new one.  When a thread ends, its id is replaced by `invalid_thread_id2` in all tables and its
producer may be used again.

One step is one access to shared memory.
-/

namespace DataProxy

open Function (update)

namespace ProducerHash

/-- The key of an entry: `invalid_thread_id`, `invalid_thread_id2`, or the id of a thread. -/
inductive Key (I : Type)
  | invalid
  | invalid2
  | id (i : I)
  deriving DecidableEq

structure ImplicitProducerKVP (I P : Type) where
  key : Key I := .invalid
  value : Option P := none

structure ImplicitProducerHash (I P : Type) where
  capacity : ℕ
  entries : ℕ → ImplicitProducerKVP I P := fun _ => {}
  prev : Option ℕ := none

/-- The next access of a thread, with the local variables it has then. -/
inductive Pc (P : Type)
  | idle
  /-- `get_or_add_implicit_producer`: the load of `implicitProducerHash`. -/
  | loadHash
  /-- The load of the key at `index`. -/
  | probe (mainHash hash index : ℕ)
  /-- The id is found: the load of the value. -/
  | loadValue (mainHash hash index : ℕ)
  /-- It is found in an older table: the two compare-and-swaps on the key in the newest. -/
  | addEmpty (mainHash index : ℕ) (value : Option P)
  | addReusable (mainHash index : ℕ) (value : Option P)
  | addValue (mainHash index : ℕ) (value : Option P)
  /-- It is not found: the increment of `implicitProducerHashCount`. -/
  | count (mainHash : ℕ)
  | testAndSet (mainHash newCount : ℕ)
  /-- The resize lock is held: the load of `implicitProducerHash`. -/
  | reloadLocked (newCount : ℕ)
  /-- The allocation of the larger table, and the store of `implicitProducerHash`. -/
  | resize (mainHash newCount : ℕ)
  | clear (mainHash newCount : ℕ)
  /-- The allocation has failed. -/
  | noTable
  | clearNoTable
  /-- The table is too full and another thread has the lock. -/
  | reload (newCount : ℕ)
  /-- `recycle_or_create_producer`: the load of `producerListTail`. -/
  | loadProducers (mainHash : ℕ)
  /-- The load of `inactive`. -/
  | loadInactive (mainHash : ℕ) (ptr : P) (rest : List P)
  | recycle (mainHash : ℕ) (ptr : P) (rest : List P)
  | create (mainHash : ℕ)
  | noProducer
  /-- `add_producer`. -/
  | countProducer (mainHash : ℕ) (producer : P)
  | loadProducerTail (mainHash : ℕ) (producer : P)
  | addProducer (mainHash : ℕ) (producer : P) (prevTail : Option P)
  /-- The two compare-and-swaps of the insertion. -/
  | insertReusable (mainHash index : ℕ) (producer : P)
  | insertEmpty (mainHash index : ℕ) (producer : P)
  /-- A slot is used again: `implicitProducerHashCount` is decremented. -/
  | uncount (mainHash index : ℕ) (producer : P)
  | insertValue (mainHash index : ℕ) (producer : P)
  /-- `implicit_producer_thread_exited`: the load of `implicitProducerHash`. -/
  | exitHash (producer : P)
  | exitKey (producer : P) (hash index : ℕ)
  | exitInactive (producer : P)
  deriving DecidableEq

end ProducerHash

open ProducerHash in
/-- The members of the queue that have to do with its producers.  The tables are named by numbers, in
the order of their allocation; `created` says which producers exist, and `listeners` are the listeners
for the end of each thread, by the producers to which they belong. -/
structure ProducerHash (I P : Type) where
  hashes : ℕ → ImplicitProducerHash I P
  allocated : ℕ
  implicitProducerHash : ℕ
  implicitProducerHashCount : ℕ
  implicitProducerHashResizeInProgress : Bool
  /-- The list at `producerListTail`. -/
  producers : List P
  producerCount : ℕ
  inactive : P → Bool
  created : P → Bool
  listeners : I → List P
  pc : I → Pc P

namespace ProducerHash

inductive Action (I P : Type)
  /-- `get_or_add_implicit_producer`. -/
  | call (i : I)
  /-- The thread ends. -/
  | exit (i : I)
  /-- The next access; `new` is what an allocation gives. -/
  | access (i : I) (new : Option P)

/-- The loop that doubles `newCapacity`; `newCount` rounds are enough. -/
def grow (newCount : ℕ) : ℕ → ℕ → ℕ
  | 0, newCapacity => newCapacity
  | fuel + 1, newCapacity =>
    if newCapacity / 2 ≤ newCount then grow newCount fuel (newCapacity * 2) else newCapacity

variable {I P : Type}

/-- `populate_initial_implicit_producer_hash`. -/
def init (initialSize : ℕ) : ProducerHash I P where
  hashes n := if n = 0 then { capacity := initialSize } else { capacity := 0 }
  allocated := 1
  implicitProducerHash := 0
  implicitProducerHashCount := 0
  implicitProducerHashResizeInProgress := false
  producers := []
  producerCount := 0
  inactive _ := false
  created _ := false
  listeners _ := []
  pc _ := .idle

variable (hashedId : I → ℕ) (s : ProducerHash I P)

def key (hash index : ℕ) : Key I := ((s.hashes hash).entries index).key

def value (hash index : ℕ) : Option P := ((s.hashes hash).entries index).value

/-- The index at which the probing of a table starts, and the one after `index`. -/
def first (hash : ℕ) (i : I) : ℕ := hashedId i &&& ((s.hashes hash).capacity - 1)

def next (hash index : ℕ) : ℕ := (index + 1) &&& ((s.hashes hash).capacity - 1)

def setEntry (hash index : ℕ) (e : ImplicitProducerKVP I P) : ProducerHash I P :=
  let table := s.hashes hash
  { s with hashes := update s.hashes hash { table with entries := update table.entries index e } }

def setKey (hash index : ℕ) (k : Key I) : ProducerHash I P :=
  s.setEntry hash index { (s.hashes hash).entries index with key := k }

def setValue (hash index : ℕ) (v : Option P) : ProducerHash I P :=
  s.setEntry hash index { (s.hashes hash).entries index with value := v }

/-- The new table, and the store that makes it the main one. -/
def publish (mainHash newCount : ℕ) : ProducerHash I P :=
  let newCapacity := grow newCount newCount ((s.hashes mainHash).capacity * 2)
  { s with
    hashes := update s.hashes s.allocated { capacity := newCapacity, prev := some mainHash }
    allocated := s.allocated + 1
    implicitProducerHash := s.allocated }

/-- The test for room, once there is nothing to resize. -/
def room (mainHash newCount : ℕ) : Pc P :=
  let capacity := (s.hashes mainHash).capacity
  if newCount < capacity / 2 + capacity / 4 then .loadProducers mainHash else .reload newCount

/-- The head of the loop of the insertion. -/
def tryInsert (mainHash newCount : ℕ) : Pc P :=
  if (s.hashes mainHash).capacity / 2 ≤ newCount then .testAndSet mainHash newCount
  else s.room mainHash newCount

/-- The head of the loop over the list of producers. -/
def recycleFrom (mainHash : ℕ) : List P → Pc P
  | [] => .create mainHash
  | ptr :: rest => .loadInactive mainHash ptr rest

/-- The head of the loop over the tables, when a thread ends. -/
def exitFrom (i : I) (producer : P) : Option ℕ → Pc P
  | none => .exitInactive producer
  | some hash => .exitKey producer hash (s.first hashedId hash i)

variable [DecidableEq I] [DecidableEq P]

def goto (i : I) (pc : Pc P) : ProducerHash I P := { s with pc := update s.pc i pc }

/-- The producer is the thread's own: the thread listens for its end and inserts it. -/
def subscribe (i : I) (mainHash : ℕ) (producer : P) : ProducerHash I P :=
  { s.goto i (.insertReusable mainHash (s.first hashedId mainHash i) producer) with
    listeners := update s.listeners i (producer :: s.listeners i) }

/-- The notification of the next listener of a thread that ends. -/
def notify (i : I) : ProducerHash I P :=
  match s.listeners i with
  | [] => s.goto i .idle
  | producer :: rest =>
    { s.goto i (.exitHash producer) with listeners := update s.listeners i rest }

/-- The next access of `get_or_add_implicit_producer`, or of `implicit_producer_thread_exited`. -/
def accessStep (i : I) (new : Option P) : Option (ProducerHash I P) :=
  match s.pc i with
  | .idle => none
  | .loadHash =>
    let mainHash := s.implicitProducerHash
    some (s.goto i (.probe mainHash mainHash (s.first hashedId mainHash i)))
  | .probe mainHash hash index =>
    match s.key hash index with
    | .invalid =>
      match (s.hashes hash).prev with
      | none => some (s.goto i (.count mainHash))
      | some hash => some (s.goto i (.probe mainHash hash (s.first hashedId hash i)))
    | probedKey =>
      if probedKey = .id i then some (s.goto i (.loadValue mainHash hash index))
      else some (s.goto i (.probe mainHash hash (s.next hash index)))
  | .loadValue mainHash hash index =>
    if hash = mainHash then some (s.goto i .idle)
    else some (s.goto i (.addEmpty mainHash (s.first hashedId mainHash i) (s.value hash index)))
  | .addEmpty mainHash index value =>
    if s.key mainHash index = .invalid then
      some ((s.setKey mainHash index (.id i)).goto i (.addValue mainHash index value))
    else some (s.goto i (.addReusable mainHash index value))
  | .addReusable mainHash index value =>
    if s.key mainHash index = .invalid2 then
      some ((s.setKey mainHash index (.id i)).goto i (.addValue mainHash index value))
    else some (s.goto i (.addEmpty mainHash (s.next mainHash index) value))
  | .addValue mainHash index value => some ((s.setValue mainHash index value).goto i .idle)
  | .count mainHash =>
    let newCount := s.implicitProducerHashCount + 1
    some { s.goto i (s.tryInsert mainHash newCount) with implicitProducerHashCount := newCount }
  | .testAndSet mainHash newCount =>
    if s.implicitProducerHashResizeInProgress then some (s.goto i (s.room mainHash newCount))
    else
      some { s.goto i (.reloadLocked newCount) with implicitProducerHashResizeInProgress := true }
  | .reloadLocked newCount =>
    let mainHash := s.implicitProducerHash
    if (s.hashes mainHash).capacity / 2 ≤ newCount then some (s.goto i (.resize mainHash newCount))
    else some (s.goto i (.clear mainHash newCount))
  | .resize mainHash newCount =>
    match new with
    | none => some (s.goto i .noTable)
    | some _ => some ((s.publish mainHash newCount).goto i (.clear s.allocated newCount))
  | .clear mainHash newCount =>
    some { s.goto i (s.room mainHash newCount) with implicitProducerHashResizeInProgress := false }
  | .noTable =>
    some { s.goto i .clearNoTable with
      implicitProducerHashCount := s.implicitProducerHashCount - 1 }
  | .clearNoTable => some { s.goto i .idle with implicitProducerHashResizeInProgress := false }
  | .reload newCount => some (s.goto i (s.tryInsert s.implicitProducerHash newCount))
  | .loadProducers mainHash => some (s.goto i (recycleFrom mainHash s.producers))
  | .loadInactive mainHash ptr rest =>
    if s.inactive ptr then some (s.goto i (.recycle mainHash ptr rest))
    else some (s.goto i (recycleFrom mainHash rest))
  | .recycle mainHash ptr rest =>
    if s.inactive ptr then
      some { s.subscribe hashedId i mainHash ptr with inactive := update s.inactive ptr false }
    else some (s.goto i (recycleFrom mainHash rest))
  | .create mainHash =>
    match new with
    | none => some (s.goto i .noProducer)
    | some producer =>
      if s.created producer then none
      else
        some { s.goto i (.countProducer mainHash producer) with
          created := update s.created producer true }
  | .noProducer =>
    some { s.goto i .idle with implicitProducerHashCount := s.implicitProducerHashCount - 1 }
  | .countProducer mainHash producer =>
    some { s.goto i (.loadProducerTail mainHash producer) with producerCount := s.producerCount + 1 }
  | .loadProducerTail mainHash producer =>
    some (s.goto i (.addProducer mainHash producer s.producers.head?))
  | .addProducer mainHash producer prevTail =>
    if s.producers.head? = prevTail then
      some { s.subscribe hashedId i mainHash producer with producers := producer :: s.producers }
    else some (s.goto i (.addProducer mainHash producer s.producers.head?))
  | .insertReusable mainHash index producer =>
    if s.key mainHash index = .invalid2 then
      some ((s.setKey mainHash index (.id i)).goto i (.uncount mainHash index producer))
    else some (s.goto i (.insertEmpty mainHash index producer))
  | .insertEmpty mainHash index producer =>
    if s.key mainHash index = .invalid then
      some ((s.setKey mainHash index (.id i)).goto i (.insertValue mainHash index producer))
    else some (s.goto i (.insertReusable mainHash (s.next mainHash index) producer))
  | .uncount mainHash index producer =>
    some { s.goto i (.insertValue mainHash index producer) with
      implicitProducerHashCount := s.implicitProducerHashCount - 1 }
  | .insertValue mainHash index producer =>
    some ((s.setValue mainHash index (some producer)).goto i .idle)
  | .exitHash producer =>
    some (s.goto i (s.exitFrom hashedId i producer (some s.implicitProducerHash)))
  | .exitKey producer hash index =>
    match s.key hash index with
    | .invalid => some (s.goto i (s.exitFrom hashedId i producer (s.hashes hash).prev))
    | probedKey =>
      if probedKey = .id i then
        some ((s.setKey hash index .invalid2).goto i
          (s.exitFrom hashedId i producer (s.hashes hash).prev))
      else some (s.goto i (.exitKey producer hash (s.next hash index)))
  | .exitInactive producer =>
    some ({ s with inactive := update s.inactive producer true }.notify i)

def step (s : ProducerHash I P) : Action I P → Option (ProducerHash I P)
  | .call i => if s.pc i = .idle then some (s.goto i .loadHash) else none
  | .exit i => if s.pc i = .idle then some (s.notify i) else none
  | .access i new => s.accessStep hashedId i new

/-- What the call of thread `i` returns, if its next access is the last one. -/
def returning (i : I) : Option P :=
  match s.pc i with
  | .loadValue mainHash hash index => if hash = mainHash then s.value hash index else none
  | .addValue _ _ value => value
  | .insertValue _ _ producer => some producer
  | _ => none

end ProducerHash

end DataProxy
