import DataProxy.Lib.Multimap
import DataProxy.Lib.Run
import Mathlib.Data.Finset.Insert

/-!
# The subscriptions of the MQTT channel

`MqttChannel` keeps the topics it has subscribed to and subscribes to them again when the connection
to the broker comes back.  The client is made with `clean_session`, so that the broker forgets its
subscriptions with every new connection.

`subscribe` serves for both: called by `on_connect` for a topic of `subscribe_topics_` it finds the
topic there and returns, and the broker is not asked (`onConnect_eq`).  Hence the broker knows the
topics exactly in the runs that never connect with topics to replay.
-/

namespace DataProxy

/-- `MOSQ_ERR_SUCCESS`. -/
def mosqErrSuccess : ℤ := 0

/-- The fields of `MqttChannel`, with `subscribe_topics_` in iteration order. -/
structure MqttChannel where
  subscribeTopics : List String := []
  disconnected : Bool := false

/-- The channel, its connection and its broker. -/
structure MqttLink where
  channel : MqttChannel := {}
  connected : Bool := false
  /-- What the broker has for this client. -/
  broker : Finset String := ∅
  /-- The results of `mosquittopp::subscribe`, from the last call of `on_connect` on. -/
  calls : List ℤ := []
  /-- Those that the last call of `on_connect` got itself. -/
  replay : List ℤ := []

/-- What happens to the channel. -/
inductive MqttEvent
  /-- `MqttChannel::subscribe`, in which `mosquittopp::subscribe` would return `r`; `pos` is where
  the unordered set puts a new topic. -/
  | subscribe (topic : String) (r : ℤ) (pos : ℕ)
  | onDisconnect
  /-- A new connection and the call of `on_connect(0)`, in which `mosquittopp::subscribe` would
  return `r topic`. -/
  | onConnect (r : String → ℤ)

namespace MqttLink

variable {s s' : MqttLink} {topic : String} {r : ℤ} {pos : ℕ}

/-- `mosqpp::mosquittopp::subscribe` with the result `r`. -/
def mosquittoSubscribe (s : MqttLink) (topic : String) (r : ℤ) : MqttLink :=
  { s with
    broker := if r = mosqErrSuccess then insert topic s.broker else s.broker
    calls := s.calls ++ [r] }

/-- `MqttChannel::subscribe`. -/
def subscribe (s : MqttLink) (topic : String) (r : ℤ) (pos : ℕ) : Bool × MqttLink :=
  if topic ∈ s.channel.subscribeTopics then (true, s)
  else
    let s := s.mosquittoSubscribe topic r
    if r ≠ mosqErrSuccess then (false, s)
    else (true, { s with channel := { s.channel with
      subscribeTopics := Multimap.insertAt s.channel.subscribeTopics pos topic } })

/-- `MqttChannel::on_connect`. -/
def onConnect (s : MqttLink) (r : String → ℤ) : MqttLink :=
  if s.channel.disconnected then
    s.channel.subscribeTopics.foldl (fun s topic => (s.subscribe topic (r topic) 0).2) s
  else s

/-- `MqttChannel::on_disconnect`. -/
def onDisconnect (s : MqttLink) : MqttLink :=
  { s with channel := { s.channel with disconnected := true } }

/-- One event.  `subscribe` is called while connected. -/
def step (s : MqttLink) : MqttEvent → Option MqttLink
  | .subscribe topic r pos => if s.connected then some (s.subscribe topic r pos).2 else none
  | .onDisconnect => some { s.onDisconnect with connected := false }
  | .onConnect r =>
    let s := { s with connected := true, broker := ∅, calls := [] }.onConnect r
    some { s with replay := s.calls }

/-- A topic that is recorded is not subscribed to again. -/
theorem subscribe_of_mem (h : topic ∈ s.channel.subscribeTopics) :
    s.subscribe topic r pos = (true, s) := if_pos h

/-- A new topic gets to the broker and into the set, or to neither. -/
theorem subscribe_of_not_mem (h : topic ∉ s.channel.subscribeTopics) (r : ℤ) (pos : ℕ) :
    r = mosqErrSuccess ∧ (s.subscribe topic r pos).2.broker = insert topic s.broker ∧
      (s.subscribe topic r pos).2.channel.subscribeTopics =
        Multimap.insertAt s.channel.subscribeTopics pos topic ∨
    r ≠ mosqErrSuccess ∧ (s.subscribe topic r pos).2.broker = s.broker ∧
      (s.subscribe topic r pos).2.channel = s.channel := by
  by_cases hr : r = mosqErrSuccess
  · exact .inl ⟨hr, by simp [subscribe, mosquittoSubscribe, h, hr]⟩
  · exact .inr ⟨hr, by simp [subscribe, mosquittoSubscribe, h, hr]⟩

/-- The loop of `on_connect` does nothing. -/
theorem onConnect_eq (s : MqttLink) (r : String → ℤ) : s.onConnect r = s := by
  have loop : ∀ topics : List String, (∀ t ∈ topics, t ∈ s.channel.subscribeTopics) →
      topics.foldl (fun s topic => (s.subscribe topic (r topic) 0).2) s = s := by
    intro topics
    induction topics with
    | nil => exact fun _ => rfl
    | cons t topics ih =>
      intro h
      rw [List.foldl_cons, subscribe_of_mem (h t (by simp))]
      exact ih fun t' ht' => h t' (by simp [ht'])
  unfold onConnect
  split
  · exact loop _ fun _ ht => ht
  · rfl

/-- The broker has the topics of the channel. -/
def agrees (s : MqttLink) : Prop := ∀ t, t ∈ s.broker ↔ t ∈ s.channel.subscribeTopics

/-- Whenever the client is connected, `on_connect` has returned and the calls it made have
succeeded, the broker has the topics of the channel. -/
def InSync (s : MqttLink) : Prop :=
  s.connected = true → (∀ r ∈ s.replay, r = mosqErrSuccess) → s.agrees

/-- The condition on one step: no connection is made with topics to replay. -/
def connectsFresh (s : MqttLink) : MqttEvent → Prop
  | .onConnect _ => s.channel.subscribeTopics = []
  | .subscribe _ _ _ | .onDisconnect => True

/-- A new subscription keeps the two sets together. -/
theorem agrees_subscribe (h : s.agrees) (topic : String) (r : ℤ) (pos : ℕ) :
    (s.subscribe topic r pos).2.agrees := by
  by_cases hm : topic ∈ s.channel.subscribeTopics
  · rw [subscribe_of_mem hm]
    exact h
  · intro t
    rcases subscribe_of_not_mem hm r pos with ⟨-, hb, hc⟩ | ⟨-, hb, hc⟩
    · rw [hb, hc, Finset.mem_insert, Multimap.mem_insertAt, h t]
    · rw [hb, hc, h t]

/-- **One step** that meets the condition. -/
theorem agrees_step {e : MqttEvent} (h : s.connected = true → s.agrees) (hok : s.connectsFresh e)
    (hs : s.step e = some s') : s'.connected = true → s'.agrees := by
  cases e with
  | subscribe topic r pos =>
    simp only [step, Option.ite_none_right_eq_some, Option.some.injEq] at hs
    obtain ⟨hc, rfl⟩ := hs
    exact fun _ => agrees_subscribe (h hc) topic r pos
  | onDisconnect =>
    cases hs
    intro hc
    cases hc
  | onConnect r =>
    simp only [step, onConnect_eq, Option.some.injEq] at hs
    subst hs
    intro _ t
    simp [show s.channel.subscribeTopics = [] from hok]

/-- A connection made with topics to replay leaves the broker without them. -/
theorem not_inSync_of_step {e : MqttEvent} (hok : ¬s.connectsFresh e) (hs : s.step e = some s') :
    ¬s'.InSync := by
  cases e with
  | subscribe | onDisconnect => exact absurd trivial hok
  | onConnect r =>
    simp only [step, onConnect_eq, Option.some.injEq] at hs
    subst hs
    obtain ⟨t, ht⟩ := List.exists_mem_of_ne_nil _ hok
    intro hin
    have hmem := (hin rfl (by simp) t).2 ht
    simp at hmem

/-- **MQTT subscriptions survive reconnection** in exactly the runs in which every connection is made
before any topic is recorded. -/
theorem subscriptionsSurvive_iff (es : List MqttEvent) :
    Run.Always step InSync {} es ↔ Run.EachStep step connectsFresh {} es := by
  refine Run.always_iff_eachStep (I := fun s => s.connected = true → s.agrees)
    (fun s h hc _ => h hc) (fun _ _ _ => agrees_step) (fun _ _ _ _ => not_inSync_of_step) ?_ es
  intro hc
  cases hc

/-- A topic is subscribed to, the connection is lost and comes back. -/
def reconnected : List MqttEvent :=
  [.onConnect fun _ => 0, .subscribe "t" 0 0, .onDisconnect, .onConnect fun _ => 0]

/-- The broker has forgotten the topic and is not told again. -/
theorem subscription_lost : ∃ s, Run.exec step {} reconnected = some s ∧ ¬s.InSync := by
  refine ⟨_, rfl, fun h => ?_⟩
  have hmem := (h (by decide) (by decide) "t").2 (by decide)
  exact absurd hmem (by decide)

end MqttLink

end DataProxy
