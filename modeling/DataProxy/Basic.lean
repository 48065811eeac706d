import DataProxy.Lib.Multimap
import Mathlib.Algebra.Group.Nat.Defs
import Mathlib.Data.List.Basic
import Mathlib.Logic.Function.Basic

/-!
# The objects of the message bus

The data that `messagebus.h`, `co_task.h`, `common.h` and `timer_mgr.h` work on.

* `InternalMessage`, `CoState`, `Promise` follow the source field by field.
* `Await` is one record for the three classes `SharedMessageAwait`, `MessageAwait` and
  `TempMessageAwait`; `type` says which, and the fields a class does not have stay at their
  defaults.  An await is a local variable of one coroutine (it can be neither copied nor moved),
  its `owner`; its address may be used again once it has been destroyed.
* `Timer` is an `asio::steady_timer` with the callback `start_timer` bound to it.

Fields marked *ghost* are read by no step.
-/

namespace DataProxy

/-- A coroutine frame, named by its `coroutine_handle`. -/
abbrev CoId := ℕ

/-- The address of an await object. -/
abbrev Addr := ℕ

/-- A `moodycamel::ConcurrentQueue` held by `std::shared_ptr`. -/
abbrev QueueId := ℕ

/-- An id from `TimerMgr::get_id`. -/
abbrev TimerId := ℕ

/-- `InternalMessage`. -/
structure InternalMessage where
  name : String := ""
  data : String := ""
  isTimeoutMsg : Bool := false
  deriving DecidableEq, Repr

/-- What is left of a message after `auto msg = co_await await` has moved it out of `data_`: the
strings are emptied, the flag is copied. -/
def InternalMessage.movedFrom (m : InternalMessage) : InternalMessage :=
  { isTimeoutMsg := m.isTimeoutMsg }

@[simp] theorem InternalMessage.movedFrom_isTimeoutMsg (m : InternalMessage) :
    m.movedFrom.isTimeoutMsg = m.isTimeoutMsg := rfl

/-- `CoState`. -/
inductive CoState
  | runingState
  | exceptionState
  | stopState
  | queueResume
  deriving DecidableEq, Repr

/-- The fields of `CoTask::promise_type` that the bus uses. -/
structure Promise where
  state : CoState := .runingState
  await : Option Addr := none
  deriving DecidableEq, Repr

/-- `AwaitType`, without the value for other template arguments. -/
inductive AwaitType
  | shared
  | normal
  | temp
  deriving DecidableEq, Repr

/-- An await object of any of the three classes. -/
structure Await where
  type : AwaitType
  waitMessageName : String
  coExecutor : ℕ
  waitCoPriority : UInt8
  owner : CoId
  handle : Option CoId := none
  data : InternalMessage := {}
  /-- `MessageAwait::suspend_`. -/
  suspend : Bool := false
  /-- `MessageAwait::queue_`. -/
  queue : List InternalMessage := []
  /-- `SharedMessageAwait::queue_`. -/
  sharedQueue : QueueId := 0
  /-- `TempMessageAwait::filter_`. -/
  filter : InternalMessage → Bool := fun _ => true
  /-- `TempMessageAwait::timer_id_`. -/
  timerId : TimerId := 0
  /-- Ghost: the timer that `set_await_timeout` armed for the present or next wait. -/
  timeoutFor : Option TimerId := none
  /-- Ghost: the timer of a `create_time_await` without loop, until the first wake. -/
  tickFor : Option TimerId := none

/-- A message in a bus queue.  The timer whose callback pushed it is ghost. -/
structure Packet where
  msg : InternalMessage
  timer : Option TimerId := none
  deriving DecidableEq, Repr

/-- The lambda given to `start_timer`. -/
inductive TimerFunc
  /-- `[]() { return true; }`, in the constructor of `TimerMgr`. -/
  | keepAlive
  /-- The lambda of `create_time_await`. -/
  | tick (msgName : String) (isloop : Bool)
  /-- The lambda of `set_await_timeout`. -/
  | timeout (msgName : String)
  deriving DecidableEq, Repr

/-- The wait of a `steady_timer`: none outstanding, outstanding, or expired with the handler in
the queue of the `io_context`. -/
inductive TimerStatus
  | idle
  | armed
  | queued
  deriving DecidableEq, Repr

/-- A timer object. -/
structure Timer where
  func : TimerFunc
  status : TimerStatus := .armed
  /-- Ghost: it has expired since it was first armed. -/
  expired : Bool := false
  deriving DecidableEq, Repr

/-- The prefix of the names given by `create_time_await`. -/
def timePrefix : String := "__T-"

/-- The name on which `co_handle_remove_timer` waits. -/
def removeTimerName : String := "__RemoveTimer"

/-- `fmt::format("__T-{}", id)`. -/
def timeName (id : TimerId) : String := timePrefix ++ toString id

/-- `wait_message_name_.find("__T-") == 0`. -/
def hasTimePrefix (name : String) : Bool := decide (name.toList.take 4 = timePrefix.toList)

/-- The message sent by `~TempMessageAwait`: its data is `wait_message_name_.substr(4)`. -/
def destructorMsg (name : String) : InternalMessage :=
  { name := removeTimerName, data := String.ofList (name.toList.drop 4) }

/-- The message sent by `TempMessageAwait::remove_timer`. -/
def removeTimerMsg (id : TimerId) : InternalMessage :=
  { name := removeTimerName, data := toString id }

/-- The largest `uint64_t`. -/
def uint64Max : ℕ := 2 ^ 64 - 1

/-- The value of a run of decimal digits, most significant first. -/
def digitsValue (ds : List Char) : ℕ := ds.foldl (fun n c => 10 * n + (c.toNat - '0'.toNat)) 0

/-- `operator>>` into a `uint64_t` after white space and sign: no digit gives `0`, too many give
the largest value, and a minus sign negates modulo `2 ^ 64`. -/
def readUInt64 (neg : Bool) (cs : List Char) : ℕ :=
  let n := digitsValue (cs.takeWhile Char.isDigit)
  if uint64Max < n then uint64Max else if neg then (2 ^ 64 - n) % 2 ^ 64 else n

/-- `std::isspace` in the default locale. -/
def isSpace (c : Char) : Bool := c = ' ' || ('\t' ≤ c && c ≤ '\r')

/-- `String2Int<uint64_t>`.  On a string of white space only, the stream fails before it writes to
the uninitialised result: `none`. -/
def string2Int (v : String) : Option ℕ :=
  match v.toList.dropWhile isSpace with
  | [] => none
  | '-' :: cs => some (readUInt64 true cs)
  | '+' :: cs => some (readUInt64 false cs)
  | cs => some (readUInt64 false cs)

end DataProxy
