import DataProxy.Lib.Guard
import DataProxy.Lib.Run
import Mathlib.Logic.Function.Basic

/-!
# The ROS 2 channel

`Ros2Channel` keeps two maps from topics to what the middleware has made for them, each under a mutex
of its own.  `will_pulish` and `subscribe` hold their mutex by a `std::lock_guard`; `publish` calls
`lock()` and `unlock()` itself.  Every call of the middleware may throw, and which ones do is an
argument of each call of the channel.  In `publishers[topic] = create_publisher(..)` the right side is
evaluated first, so that a `create_publisher` that throws leaves the map alone.

What the channel does with an exception depends on where it is thrown: under a guard it leaves the
mutex free, in `publish` it leaves it locked, and no later call on any topic gets past it.
-/

namespace DataProxy

open Function (update)
open Guard

/-- `rclcpp::QoS`, by the depth it is made with. -/
structure QoS where
  depth : ℕ
  deriving DecidableEq, Repr

/-- A publisher or a subscription. -/
structure Endpoint where
  topic : String
  qos : QoS
  deriving DecidableEq, Repr

/-- The call of the middleware that has thrown. -/
inductive Ros2Error
  | createPublisher
  | createSubscription
  | publish
  deriving DecidableEq, Repr

/-- `Ros2Channel`, with what its calls have made the middleware create. -/
structure Ros2Channel where
  publishers : String → Option Endpoint := fun _ => none
  publishersMutex : Bool := false
  subscribers : String → Option Endpoint := fun _ => none
  subscribersMutex : Bool := false
  /-- The publishers that `create_publisher` has returned. -/
  createdPublishers : List Endpoint := []
  /-- The subscriptions that `create_subscription` has returned. -/
  createdSubscriptions : List Endpoint := []

namespace Ros2Channel

/-- `publishers_mutex_`. -/
def publishersLock : Mutex Ros2Channel where
  locked := publishersMutex
  set b s := { s with publishersMutex := b }

/-- `subscribers_mutex_`. -/
def subscribersLock : Mutex Ros2Channel where
  locked := subscribersMutex
  set b s := { s with subscribersMutex := b }

/-- `create_publisher`. -/
def createPublisher (topic : String) (qos : QoS) (throws : Bool) :
    Call Ros2Error Ros2Channel Endpoint :=
  if throws then throw .createPublisher
  else do
    modify fun s => { s with createdPublishers := ⟨topic, qos⟩ :: s.createdPublishers }
    return ⟨topic, qos⟩

/-- `create_subscription`. -/
def createSubscription (topic : String) (qos : QoS) (throws : Bool) :
    Call Ros2Error Ros2Channel Endpoint :=
  if throws then throw .createSubscription
  else do
    modify fun s => { s with createdSubscriptions := ⟨topic, qos⟩ :: s.createdSubscriptions }
    return ⟨topic, qos⟩

/-- `Publisher::publish`. -/
def publisherPublish (throws : Bool) : Call Ros2Error Ros2Channel Unit :=
  if throws then throw .publish else pure ()

/-- `will_pulish`. -/
def willPulish (topic : String) (qos : QoS) (createThrows : Bool) :
    Call Ros2Error Ros2Channel Bool :=
  lockGuard publishersLock do
    if ((← get).publishers topic).isNone then
      let publisher ← createPublisher topic qos createThrows
      modify fun s => { s with publishers := update s.publishers topic (some publisher) }
      return true
    else
      return false

/-- `publish`. -/
def publish (topic : String) (createThrows publishThrows : Bool) :
    Call Ros2Error Ros2Channel Bool := do
  -- without a guard: an exception below leaves the function before `unlock()`
  lock publishersLock
  if ((← get).publishers topic).isNone then
    let publisher ← createPublisher topic ⟨10⟩ createThrows
    modify fun s => { s with publishers := update s.publishers topic (some publisher) }
  publisherPublish publishThrows
  unlock publishersLock
  return true

/-- `subscribe`. -/
def subscribe (topic : String) (qos : QoS) (createThrows : Bool) :
    Call Ros2Error Ros2Channel Bool :=
  lockGuard subscribersLock do
    if ((← get).subscribers topic).isSome then
      return false
    let subscription ← createSubscription topic qos createThrows
    modify fun s => { s with subscribers := update s.subscribers topic (some subscription) }
    return true

end Ros2Channel

/-- A call of the channel, with what the middleware does in it. -/
inductive Ros2Call
  | willPulish (topic : String) (qos : QoS) (createThrows : Bool)
  | publish (topic : String) (createThrows publishThrows : Bool)
  | subscribe (topic : String) (qos : QoS) (createThrows : Bool)
  deriving DecidableEq, Repr

namespace Ros2Channel

variable {s s' : Ros2Channel} {c : Ros2Call} {topic : String} {qos : QoS} {throws : Bool}

/-- The call from the state `s`: it blocks, or it returns or throws. -/
def call (s : Ros2Channel) : Ros2Call → Option (Except Ros2Error Bool × Ros2Channel)
  | .willPulish topic qos createThrows => (willPulish topic qos createThrows).exec s
  | .publish topic createThrows publishThrows => (publish topic createThrows publishThrows).exec s
  | .subscribe topic qos createThrows => (subscribe topic qos createThrows).exec s

/-- One call of a sequence. -/
def step (s : Ros2Channel) (c : Ros2Call) : Option Ros2Channel := (s.call c).map Prod.snd

/-- Both mutexes are free, and the maps hold what has been created. -/
structure Intact (s : Ros2Channel) : Prop where
  publishersFree : s.publishersMutex = false
  subscribersFree : s.subscribersMutex = false
  publishers_iff : ∀ topic, s.publishers topic ≠ none ↔ ∃ qos, ⟨topic, qos⟩ ∈ s.createdPublishers
  subscribers_iff : ∀ topic,
    s.subscribers topic ≠ none ↔ ∃ qos, ⟨topic, qos⟩ ∈ s.createdSubscriptions

/-- A publisher has been created and is in the map. -/
def addPublisher (s : Ros2Channel) (topic : String) (qos : QoS) : Ros2Channel :=
  { s with
    publishers := update s.publishers topic (some ⟨topic, qos⟩)
    createdPublishers := ⟨topic, qos⟩ :: s.createdPublishers }

/-- A subscription has been created and is in the map. -/
def addSubscriber (s : Ros2Channel) (topic : String) (qos : QoS) : Ros2Channel :=
  { s with
    subscribers := update s.subscribers topic (some ⟨topic, qos⟩)
    createdSubscriptions := ⟨topic, qos⟩ :: s.createdSubscriptions }

/-! ### What a call does -/

@[simp] theorem exec_createPublisher : (createPublisher topic qos throws).exec s =
    if throws then some (.error .createPublisher, s)
    else some (.ok ⟨topic, qos⟩,
      { s with createdPublishers := ⟨topic, qos⟩ :: s.createdPublishers }) := by
  cases throws <;> rfl

@[simp] theorem exec_createSubscription : (createSubscription topic qos throws).exec s =
    if throws then some (.error .createSubscription, s)
    else some (.ok ⟨topic, qos⟩,
      { s with createdSubscriptions := ⟨topic, qos⟩ :: s.createdSubscriptions }) := by
  cases throws <;> rfl

@[simp] theorem exec_publisherPublish : (publisherPublish throws).exec s =
    if throws then some (.error .publish, s) else some (.ok (), s) := by
  cases throws <;> rfl

theorem call_willPulish (h : s.publishersMutex = false) :
    s.call (.willPulish topic qos throws) =
      if s.publishers topic ≠ none then some (.ok false, s)
      else if throws then some (.error .createPublisher, s)
      else some (.ok true, s.addPublisher topic qos) := by
  show (willPulish topic qos throws).exec s = _
  rw [willPulish, exec_lockGuard _ _ _ h]
  -- with the flag known to be false, releasing the mutex gives the state back
  obtain ⟨publishers, b, subscribers, b', created, created'⟩ := s
  subst h
  cases hp : publishers topic <;> cases throws <;>
    simp [publishersLock, addPublisher, Except.map, hp]

theorem call_publish {createThrows publishThrows : Bool} (h : s.publishersMutex = false) :
    s.call (.publish topic createThrows publishThrows) =
      if s.publishers topic = none ∧ createThrows = true then
        some (.error .createPublisher, { s with publishersMutex := true })
      else
        let s₁ := if s.publishers topic = none then s.addPublisher topic ⟨10⟩ else s
        if publishThrows then some (.error .publish, { s₁ with publishersMutex := true })
        else some (.ok true, s₁) := by
  show (publish topic createThrows publishThrows).exec s = _
  obtain ⟨publishers, b, subscribers, b', created, created'⟩ := s
  subst h
  cases hp : publishers topic <;> cases createThrows <;> cases publishThrows <;>
    simp [publish, publishersLock, addPublisher, Except.map, hp]

theorem call_subscribe (h : s.subscribersMutex = false) :
    s.call (.subscribe topic qos throws) =
      if s.subscribers topic ≠ none then some (.ok false, s)
      else if throws then some (.error .createSubscription, s)
      else some (.ok true, s.addSubscriber topic qos) := by
  show (subscribe topic qos throws).exec s = _
  rw [subscribe, exec_lockGuard _ _ _ h]
  obtain ⟨publishers, b, subscribers, b', created, created'⟩ := s
  subst h
  cases hp : subscribers topic <;> cases throws <;>
    simp [subscribersLock, addSubscriber, Except.map, hp]

theorem call_willPulish_locked (h : s.publishersMutex = true) :
    s.call (.willPulish topic qos throws) = none := exec_lockGuard_locked _ _ _ h

theorem call_publish_locked {createThrows publishThrows : Bool} (h : s.publishersMutex = true) :
    s.call (.publish topic createThrows publishThrows) = none := by
  show (publish topic createThrows publishThrows).exec s = none
  simp [publish, publishersLock, h]

theorem call_subscribe_locked (h : s.subscribersMutex = true) :
    s.call (.subscribe topic qos throws) = none := exec_lockGuard_locked _ _ _ h

theorem step_eq_some : s.step c = some s' ↔ ∃ r, s.call c = some (r, s') := by
  simp [step, Option.map_eq_some_iff]

/-- Under a guard, an exception leaves no trace. -/
theorem eq_or_eq_of_guarded {present throws : Prop} [Decidable present] [Decidable throws]
    {e : Ros2Error} {s₁ : Ros2Channel} {r : Except Ros2Error Bool}
    (h : (if present then some (.ok false, s)
      else if throws then some (.error e, s) else some (.ok true, s₁)) = some (r, s')) :
    s' = s ∨ s' = s₁ := by
  split at h
  · cases h
    exact .inl rfl
  · split at h
    · cases h
      exact .inl rfl
    · cases h
      exact .inr rfl

theorem step_willPulish (h : s.publishersMutex = false)
    (hs : s.step (.willPulish topic qos throws) = some s') :
    s' = s ∨ s' = s.addPublisher topic qos := by
  obtain ⟨r, hr⟩ := step_eq_some.1 hs
  exact eq_or_eq_of_guarded ((call_willPulish h).symm.trans hr)

theorem step_subscribe (h : s.subscribersMutex = false)
    (hs : s.step (.subscribe topic qos throws) = some s') :
    s' = s ∨ s' = s.addSubscriber topic qos := by
  obtain ⟨r, hr⟩ := step_eq_some.1 hs
  exact eq_or_eq_of_guarded ((call_subscribe h).symm.trans hr)

/-! ### The condition -/

/-- What the middleware is asked for by a `publish` does not throw. -/
def PublishReturns (s : Ros2Channel) : Ros2Call → Prop
  | .publish topic createThrows publishThrows =>
    (s.publishers topic = none → createThrows = false) ∧ publishThrows = false
  | .willPulish _ _ _ | .subscribe _ _ _ => True

theorem intact_init : Intact {} := by
  constructor <;> simp

theorem Intact.addPublisher (h : Intact s) : Intact (s.addPublisher topic qos) where
  publishersFree := h.publishersFree
  subscribersFree := h.subscribersFree
  publishers_iff t := by
    by_cases ht : t = topic
    · subst ht
      simp [Ros2Channel.addPublisher]
    · simpa [Ros2Channel.addPublisher, ht] using h.publishers_iff t
  subscribers_iff := h.subscribers_iff

theorem Intact.addSubscriber (h : Intact s) : Intact (s.addSubscriber topic qos) where
  publishersFree := h.publishersFree
  subscribersFree := h.subscribersFree
  publishers_iff := h.publishers_iff
  subscribers_iff t := by
    by_cases ht : t = topic
    · subst ht
      simp [Ros2Channel.addSubscriber]
    · simpa [Ros2Channel.addSubscriber, ht] using h.subscribers_iff t

/-- Every call can proceed. -/
theorem Intact.proceeds (h : Intact s) (c : Ros2Call) : (s.call c).isSome = true := by
  cases c with
  | willPulish topic qos createThrows =>
    rw [call_willPulish h.publishersFree]
    split <;> [rfl; split <;> rfl]
  | publish topic createThrows publishThrows =>
    rw [call_publish h.publishersFree]
    dsimp only
    split <;> [rfl; split <;> rfl]
  | subscribe topic qos createThrows =>
    rw [call_subscribe h.subscribersFree]
    split <;> [rfl; split <;> rfl]

/-- **One call** whose middleware calls return, or that is made under a guard. -/
theorem Intact.step (h : Intact s) (hok : s.PublishReturns c) (hs : s.step c = some s') :
    Intact s' := by
  cases c with
  | willPulish topic qos createThrows =>
    rcases step_willPulish h.publishersFree hs with rfl | rfl
    · exact h
    · exact h.addPublisher
  | publish topic createThrows publishThrows =>
    obtain ⟨hcreate, rfl⟩ := hok
    obtain ⟨r, hr⟩ := step_eq_some.1 hs
    rw [call_publish h.publishersFree, if_neg] at hr
    · simp only [Bool.false_eq_true, if_false] at hr
      split at hr
      · cases hr
        exact h.addPublisher
      · cases hr
        exact h
    · rintro ⟨hnone, hthrow⟩
      simp [hcreate hnone] at hthrow
  | subscribe topic qos createThrows =>
    rcases step_subscribe h.subscribersFree hs with rfl | rfl
    · exact h
    · exact h.addSubscriber

/-- **One call** that does not meet the condition leaves `publishers_mutex_` locked. -/
theorem Intact.step_locked (h : Intact s) (hok : ¬s.PublishReturns c) (hs : s.step c = some s') :
    s'.publishersMutex = true := by
  obtain ⟨r, hr⟩ := step_eq_some.1 hs
  cases c with
  | willPulish topic qos createThrows => exact absurd trivial hok
  | publish topic createThrows publishThrows =>
    rw [call_publish h.publishersFree] at hr
    dsimp only at hr
    split at hr
    · cases hr
      rfl
    · rename_i hcreate
      have hthrows : publishThrows = true := by
        by_contra hno
        refine hok ⟨fun hnone => ?_, by simpa using hno⟩
        simpa using fun hc => hcreate ⟨hnone, hc⟩
      rw [if_pos hthrows] at hr
      cases hr
      rfl
  | subscribe topic qos createThrows => exact absurd trivial hok

/-- No call unlocks a mutex that it has not locked. -/
theorem step_locked (h : s.publishersMutex = true) (hs : s.step c = some s') :
    s'.publishersMutex = true := by
  obtain ⟨r, hr⟩ := step_eq_some.1 hs
  cases c with
  | willPulish topic qos createThrows => cases (call_willPulish_locked h).symm.trans hr
  | publish topic createThrows publishThrows => cases (call_publish_locked h).symm.trans hr
  | subscribe topic qos createThrows =>
    cases hm : s.subscribersMutex with
    | true => cases (call_subscribe_locked hm).symm.trans hr
    | false =>
      rcases step_subscribe hm hs with rfl | rfl
      · exact h
      · exact h

/-- After a `publish` in which the middleware has thrown, no `publish` and no `will_pulish`, on
whatever topic, ever gets past `publishers_mutex_`. -/
theorem blocked_of_publish_throws (h : Intact s) (hok : ¬s.PublishReturns c)
    (hs : s.step c = some s') {t : Ros2Channel} (hr : Run.Reach step Run.Any s' t) (topic : String) :
    (∀ createThrows publishThrows, t.call (.publish topic createThrows publishThrows) = none) ∧
      ∀ qos createThrows, t.call (.willPulish topic qos createThrows) = none := by
  have hlocked : t.publishersMutex = true :=
    hr.invariant (I := fun t => t.publishersMutex = true) (h.step_locked hok hs)
      fun _ _ _ _ ht _ hs' => step_locked ht hs'
  exact ⟨fun _ _ => call_publish_locked hlocked, fun _ _ => call_willPulish_locked hlocked⟩

/-- **The channel survives failing middleware calls exactly as long as none fails in a `publish`.**
Along every sequence of calls: after each of them the mutexes are free, every call can proceed and
the maps hold what has been created, if and only if no `create_publisher` and no
`Publisher::publish` that a `publish` makes has thrown. -/
theorem intact_iff_publishReturns (calls : List Ros2Call) :
    Run.Always step (fun s => Intact s ∧ ∀ c, (s.call c).isSome = true) {} calls ↔
      Run.EachStep step PublishReturns {} calls := by
  refine Run.always_iff_eachStep (I := Intact) (fun s h => ⟨h, h.proceeds⟩)
    (fun s c s' h hok hs => h.step hok hs) (fun s c s' h hok hs hP => ?_) intact_init calls
  have hlocked := h.step_locked hok hs
  rw [hP.1.publishersFree] at hlocked
  cases hlocked

/-- `Publisher::publish` throws in the first call. -/
theorem publish_throws_locked :
    ¬Run.Always step (fun s => Intact s ∧ ∀ c, (s.call c).isSome = true) {}
      [.publish "t" false true] := by
  rintro ⟨-, h⟩
  have hcall : Ros2Channel.call {} (.publish "t" false true) = _ := call_publish rfl
  have hintact := (h _ (step_eq_some.2 ⟨_, hcall⟩)).1.publishersFree
  cases hintact

end Ros2Channel

end DataProxy
