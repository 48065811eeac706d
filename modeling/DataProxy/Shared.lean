import DataProxy.Consumers
import Mathlib.Algebra.Order.Group.Multiset
import Mathlib.Tactic.Abel

/-!
# Each shared message goes to one consumer

The books kept on a name `n`: what the shared block has taken on (`dispatchedShared`), what
`co_await` has returned (`returnedShared`), what lies in the `data_` of a consumer that is about to
return it (`World.held`), the shared queue (`World.sharedContents`), and the message the normal
dispatcher is in the middle of handing out (`World.pending`).  A step moves a message from one
account to another; `Ledger` says that the accounts balance.
-/

namespace DataProxy

open Function (update)

variable {w w' : World} {act : Action} {n : String} {consumer : CoId → Bool} {a b : Addr}
  {A A' B : Await} {c : CoId}

/-- The messages named `n` that the shared block has found an await for. -/
def dispatchedShared (n : String) : List Event → Multiset InternalMessage
  | [] => 0
  | .sharedDispatched m :: t =>
    if m.name = n then m ::ₘ dispatchedShared n t else dispatchedShared n t
  | .created _ :: t | .enqueued _ _ :: t | .returned _ _ _ _ :: t => dispatchedShared n t

/-- The messages that `co_await` on a `SharedMessageAwait` of name `n` has returned. -/
def returnedShared (n : String) : List Event → Multiset InternalMessage
  | [] => 0
  | .returned type name _ m :: t =>
    if type = .shared ∧ name = n then m ::ₘ returnedShared n t else returnedShared n t
  | .created _ :: t | .enqueued _ _ :: t | .sharedDispatched _ :: t => returnedShared n t

/-- The coroutine is queued for resume on `b`, or about to return from it. -/
def World.carries (w : World) (b : Addr) (c : CoId) : Bool :=
  match w.ctl c with
  | .suspended b' => decide (b' = b ∧ c ∈ w.scheduled)
  | .resuming b' _ => decide (b' = b)
  | _ => false

/-- The message in the `data_` of the await at `b`, if its coroutine is going to return it. -/
def World.held (w : World) (b : Addr) : Multiset InternalMessage :=
  match w.awaits b with
  | some B => if w.carries b B.owner then {B.data} else 0
  | none => 0

/-- The messages in the `data_` of all consumers of `n`. -/
def World.heldAll (w : World) (n : String) : Multiset InternalMessage :=
  ((w.members n).map w.held).sum

/-- The queue shared by the `SharedMessageAwait`s of `n`. -/
def World.sharedContents (w : World) (n : String) : List InternalMessage :=
  match (w.members n).head?.bind w.awaits with
  | some B => w.sharedQueues B.sharedQueue
  | none => []

/-- The message a dispatcher in the shared block of `n` is handing out. -/
def DispPc.pending (n : String) : DispPc → Multiset InternalMessage
  | .visit .shared p _ _ _ _ | .sharedPush p _ => if p.msg.name = n then {p.msg} else 0
  | _ => 0

@[simp] theorem DispPc.pending_fetch : DispPc.fetch.pending n = 0 := rfl
@[simp] theorem DispPc.pending_lock (k : AwaitType) (p : Packet) :
    (DispPc.lock k p).pending n = 0 := rfl

@[simp] theorem DispPc.pending_after (p : Packet) (k : AwaitType) :
    (DispPc.after p k).pending n = 0 := by
  cases k <;> rfl

theorem DispPc.pending_visit (k : AwaitType) (p : Packet) (first a first' a' : Addr)
    (rest rest' : List Addr) (s s' : VisitPc) :
    (DispPc.visit k p first a rest s).pending n = (DispPc.visit k p first' a' rest' s').pending n := by
  cases k <;> rfl

theorem DispPc.pending_next (k : AwaitType) (p : Packet) (first a first' : Addr)
    (rest rest' : List Addr) (s : VisitPc) :
    (DispPc.next k p first' rest').pending n = (DispPc.visit k p first a rest s).pending n := by
  cases rest' <;> cases k <;> rfl

theorem DispPc.pending_of_not_inPhase {pc : DispPc} (h : pc.inPhase .shared = false) :
    pc.pending n = 0 := by
  cases pc with
  | visit k =>
    cases k with
    | shared => simp [DispPc.inPhase] at h
    | _ => rfl
  | sharedPush => simp [DispPc.inPhase] at h
  | _ => rfl

/-- The accounts of `n` balance. -/
def Ledger (n : String) (w : World) : Prop :=
  dispatchedShared n w.trace = returnedShared n w.trace + w.heldAll n + ↑(w.sharedContents n) +
    (w.disp .normal).pending n

/-! ### The accounts under a step -/

theorem Wf.mem_members (hw : Wf w) : b ∈ w.members n ↔ ∃ B, w.awaits b = some B ∧ B.isShared n := by
  rw [World.members, Multimap.mem_equalRange, hw.registered]
  simp [World.Live, Await.isShared]

theorem Wf.nodup_members (hw : Wf w) (n : String) : (w.members n).Nodup := by
  refine List.Nodup.map_on ?_ ((hw.nodup .shared).filter _)
  rintro ⟨x, b⟩ hx ⟨y, b'⟩ hy rfl
  simp only [List.mem_filter, decide_eq_true_eq] at hx hy
  rw [hx.2, hy.2]

/-- Any await of the name gives the shared queue. -/
theorem Wf.sharedContents_eq (hw : Wf w) (hB : w.awaits b = some B) (hs : B.isShared n = true) :
    w.sharedContents n = w.sharedQueues B.sharedQueue := by
  have hb : b ∈ w.members n := hw.mem_members.2 ⟨B, hB, hs⟩
  cases hm : w.members n with
  | nil => rw [hm] at hb; cases hb
  | cons b' l =>
    obtain ⟨B', hB', hs'⟩ := hw.mem_members.1 (show b' ∈ w.members n by rw [hm]; simp)
    have hq : B'.sharedQueue = B.sharedQueue := by
      obtain ⟨hty, hnm⟩ := of_decide_eq_true hs
      obtain ⟨hty', hnm'⟩ := of_decide_eq_true hs'
      exact (hw.queue_iff b' b B' B hB' hB hty' hty).2 (hnm'.trans hnm.symm)
    simp [World.sharedContents, hm, hB', hq]

theorem Wf.sharedContents_nil (h : w.members n = []) : w.sharedContents n = [] := by
  simp [World.sharedContents, h]

theorem World.held_eq_zero (hB : w.awaits b = some B) (hc : w.carries b B.owner = false) :
    w.held b = 0 := by
  simp [World.held, hB, hc]

theorem World.held_eq_singleton (hB : w.awaits b = some B) (hc : w.carries b B.owner = true) :
    w.held b = {B.data} := by
  simp [World.held, hB, hc]

/-- What a step may do to the `data_` and the place of a consumer without moving a message. -/
theorem World.held_congr (hd : (w'.awaits b).map (fun B => (B.data, B.owner)) =
      (w.awaits b).map fun B => (B.data, B.owner))
    (hc : ∀ B, w.awaits b = some B → w'.carries b B.owner = w.carries b B.owner) :
    w'.held b = w.held b := by
  unfold World.held
  cases hb : w.awaits b with
  | none =>
    rw [hb] at hd
    simp [Option.map_eq_none_iff.1 hd]
  | some B =>
    rw [hb] at hd
    obtain ⟨B', hB', he⟩ := Option.map_eq_some_iff.1 hd
    simp only [Prod.mk.injEq] at he
    simp [hB', he.1, he.2, hc B hb]

/-- A step that moves no message of `n`. -/
theorem Ledger.frame (h : Ledger n w) (hw : Wf w) (hw' : Wf w')
    (hm : w'.members n = w.members n)
    (hq : ∀ b B B', w.awaits b = some B → w'.awaits b = some B' → B.isShared n = true →
      w'.sharedQueues B'.sharedQueue = w.sharedQueues B.sharedQueue)
    (hh : ∀ b B, w.awaits b = some B → B.isShared n = true → w'.held b = w.held b)
    (hd : dispatchedShared n w'.trace = dispatchedShared n w.trace)
    (hr : returnedShared n w'.trace = returnedShared n w.trace)
    (hp : (w'.disp .normal).pending n = (w.disp .normal).pending n) : Ledger n w' := by
  have hheld : w'.heldAll n = w.heldAll n := by
    rw [World.heldAll, World.heldAll, hm]
    refine congrArg List.sum (List.map_congr_left fun b hb => ?_)
    obtain ⟨B, hB, hs⟩ := hw.mem_members.1 hb
    exact hh b B hB hs
  have hcont : w'.sharedContents n = w.sharedContents n := by
    cases he : w.members n with
    | nil => rw [Wf.sharedContents_nil he, Wf.sharedContents_nil (hm.trans he)]
    | cons b l =>
      have hb : b ∈ w.members n := by simp [he]
      obtain ⟨B, hB, hs⟩ := hw.mem_members.1 hb
      obtain ⟨B', hB', hs'⟩ := hw'.mem_members.1 (hm.symm ▸ hb)
      rw [hw.sharedContents_eq hB hs, hw'.sharedContents_eq hB' hs', hq b B B' hB hB' hs]
  unfold Ledger
  rw [hd, hr, hp, hheld, hcont]
  exact h

/-- A message goes into or out of the `data_` of one consumer. -/
theorem World.heldAll_add (hw : Wf w) (hm : w'.members n = w.members n)
    (hB : w.awaits b = some B) (hs : B.isShared n = true)
    (hh : ∀ b' B', w.awaits b' = some B' → B'.isShared n = true → b' ≠ b →
      w'.held b' = w.held b') : w'.heldAll n + w.held b = w.heldAll n + w'.held b := by
  rw [World.heldAll, World.heldAll, hm]
  refine Bag.sum_map_add (M := Multiset InternalMessage) (hw.nodup_members n)
    (hw.mem_members.2 ⟨B, hB, hs⟩) fun b' hb' hne => ?_
  obtain ⟨B', hB', hs'⟩ := hw.mem_members.1 hb'
  exact hh b' B' hB' hs' hne

/-! ### Who carries a message -/

theorem World.carries_of_body (hc : w.ctl c = .body) : w.carries b c = false := by
  simp [World.carries, hc]

theorem World.carries_congr (hc : w'.ctl c = w.ctl c)
    (hq : w.ctl c = .suspended b → (c ∈ w'.scheduled ↔ c ∈ w.scheduled)) :
    w'.carries b c = w.carries b c := by
  unfold World.carries
  rw [hc]
  cases hx : w.ctl c with
  | suspended b' =>
    by_cases hb : b' = b
    · subst hb
      simp [hq hx]
    · simp [hb]
  | _ => rfl

/-- The coroutine neither is nor comes to a place where it could carry a message of `b`. -/
theorem World.carries_update {c₁ : CoId} {x y : Ctl} (hx : w.ctl c₁ = x)
    (hctl : w'.ctl = update w.ctl c₁ y) (hq : w'.coQueue = w.coQueue)
    (hxb : x ≠ .suspended b ∧ ∀ s, x ≠ .resuming b s)
    (hyb : y ≠ .suspended b ∧ ∀ s, y ≠ .resuming b s) : w'.carries b c = w.carries b c := by
  have off : ∀ {v : World} {z : Ctl}, v.ctl c₁ = z → z ≠ .suspended b ∧ (∀ s, z ≠ .resuming b s) →
      v.carries b c₁ = false := by
    intro v z hz hzb
    unfold World.carries
    rw [hz]
    cases z with
    | suspended b' =>
      have hne : b' ≠ b := by rintro rfl; exact hzb.1 rfl
      simp [hne]
    | resuming b' s =>
      have hne : b' ≠ b := by rintro rfl; exact hzb.2 s rfl
      simp [hne]
    | _ => rfl
  by_cases hcc : c = c₁
  · subst hcc
    rw [off hx hxb, off (by rw [hctl, Function.update_self]) hyb]
  · refine World.carries_congr (by rw [hctl, Function.update_of_ne hcc]) fun _ => ?_
    rw [World.scheduled, World.scheduled, hq]

theorem World.pending_update {d : Dispatcher} {pc : DispPc}
    (h : pc.pending n = (w.disp d).pending n) :
    (update w.disp d pc .normal).pending n = (w.disp .normal).pending n := by
  cases d with
  | normal => rw [Function.update_self, h]
  | high => rw [Function.update_of_ne (by simp)]

/-! ### The steps that move a message -/

/-- `await_ready` takes a message from the shared queue. -/
theorem Ledger.readyShared (h : Ledger n w) (hw : Wf w) (hw' : Wf w') {m : InternalMessage}
    {q : List InternalMessage} (hc : w.ctl c = .body) (hB : w.awaits b = some B)
    (ho : B.owner = c) (hty : B.type = .shared) (hq : w.sharedQueues B.sharedQueue = m :: q)
    (he : w' = { w with
      awaits := update w.awaits b (some { B with data := m })
      sharedQueues := update w.sharedQueues B.sharedQueue q
      ctl := update w.ctl c (.resuming b .state) }) : Ledger n w' := by
  have hother : ∀ b' B', w.awaits b' = some B' → B'.isShared n = true → b' ≠ b →
      w'.held b' = w.held b' := by
    intro b' B' hB' _ hne
    subst he
    refine World.held_congr (by simp [Function.update_of_ne hne]) fun B₁ hB₁ => ?_
    exact World.carries_update hc rfl rfl (by simp) (by simp [Ne.symm hne])
  by_cases hs : B.isShared n = true
  · -- from the shared queue into `data_`
    have hsum : w'.heldAll n + w.held b = w.heldAll n + w'.held b :=
      World.heldAll_add hw (by rw [he]; rfl) hB hs hother
    have hB' : w'.awaits b = some { B with data := m } := by rw [he]; simp
    have hold : w.held b = 0 := World.held_eq_zero hB (World.carries_of_body (ho ▸ hc))
    have hnew : w'.held b = {m} :=
      World.held_eq_singleton hB' (by simp [he, World.carries, ho])
    have hcont : w.sharedContents n = m :: w'.sharedContents n := by
      rw [hw.sharedContents_eq hB hs, hw'.sharedContents_eq hB' hs, hq, he]
      simp
    rw [hold, hnew, add_zero] at hsum
    unfold Ledger at h ⊢
    rw [hsum, show w'.trace = w.trace by rw [he], show w'.disp = w.disp by rw [he], h, hcont]
    rw [← Multiset.cons_coe, ← Multiset.singleton_add]
    abel
  · -- another name, another queue
    have hsq : ∀ b' B', w.awaits b' = some B' → B'.isShared n = true →
        B'.sharedQueue ≠ B.sharedQueue := by
      intro b' B' hB' hs' heq
      obtain ⟨hty', hnm'⟩ := of_decide_eq_true hs'
      have := (hw.queue_iff b' b B' B hB' hB hty' hty).1 heq
      exact hs (decide_eq_true ⟨hty, this ▸ hnm'⟩)
    have hbb : ∀ b' B', w.awaits b' = some B' → B'.isShared n = true → b' ≠ b := by
      rintro b' B' hB' hs' rfl
      rw [hB, Option.some.injEq] at hB'
      exact hs (hB' ▸ hs')
    refine h.frame hw hw' (by rw [he]; rfl) ?_ (fun b' B' hB' hs' => hother b' B' hB' hs'
      (hbb b' B' hB' hs')) (by rw [he]) (by rw [he]) (by rw [he])
    intro b' B' B'' hB' hB'' hs'
    rw [he] at hB'' ⊢
    simp only [Function.update_of_ne (hbb b' B' hB' hs'), hB', Option.some.injEq] at hB''
    subst hB''
    simp only [Function.update_of_ne (hsq b' B' hB' hs')]

/-- `await_resume` returns a message. -/
theorem Ledger.ret (h : Ledger n w) (hw : Wf w) (hw' : Wf w') (hc : w.ctl c = .resuming b .ret)
    (hB : w.awaits b = some B)
    (he : w' = { w with
      awaits := update w.awaits b (some { B with data := B.data.movedFrom })
      ctl := update w.ctl c (if c = remover then .removing B.data else .body)
      trace := .returned B.type B.waitMessageName b B.data :: w.trace }) : Ledger n w' := by
  have ho := hw.owner_of_at (by rw [hc]; rfl) hB
  have hy : ∀ b', (if c = remover then Ctl.removing B.data else .body) ≠ .suspended b' ∧
      ∀ s, (if c = remover then Ctl.removing B.data else .body) ≠ .resuming b' s := by
    intro b'
    split <;> simp
  have hother : ∀ b' B', w.awaits b' = some B' → B'.isShared n = true → b' ≠ b →
      w'.held b' = w.held b' := by
    intro b' B' hB' _ hne
    subst he
    refine World.held_congr (by simp [Function.update_of_ne hne]) fun B₁ hB₁ => ?_
    exact World.carries_update hc rfl rfl (by simp [Ne.symm hne]) (hy b')
  by_cases hs : B.isShared n = true
  · have hsum : w'.heldAll n + w.held b = w.heldAll n + w'.held b :=
      World.heldAll_add hw (by rw [he]; rfl) hB hs hother
    have hB' : w'.awaits b = some { B with data := B.data.movedFrom } := by rw [he]; simp
    have hold : w.held b = {B.data} :=
      World.held_eq_singleton hB (by simp [World.carries, ho, hc])
    have hnew : w'.held b = 0 := by
      refine World.held_eq_zero hB' ?_
      rw [he]
      unfold World.carries
      simp only [ho, Function.update_self]
      split <;> simp_all
    have hcont : w'.sharedContents n = w.sharedContents n := by
      rw [hw.sharedContents_eq hB hs, hw'.sharedContents_eq hB' hs, he]
    have hret : returnedShared n w'.trace = B.data ::ₘ returnedShared n w.trace := by
      rw [he]
      simp [returnedShared, of_decide_eq_true hs]
    have hdis : dispatchedShared n w'.trace = dispatchedShared n w.trace := by rw [he]; rfl
    rw [hold, hnew, add_zero] at hsum
    unfold Ledger at h ⊢
    rw [hret, hdis, hcont, show w'.disp = w.disp by rw [he], h, ← hsum, ← Multiset.singleton_add]
    abel
  · have hbb : ∀ b' B', w.awaits b' = some B' → B'.isShared n = true → b' ≠ b := by
      rintro b' B' hB' hs' rfl
      rw [hB, Option.some.injEq] at hB'
      exact hs (hB' ▸ hs')
    refine h.frame hw hw' (by rw [he]; rfl) ?_ (fun b' B' hB' hs' => hother b' B' hB' hs'
      (hbb b' B' hB' hs')) (by rw [he]; rfl) ?_ (by rw [he])
    · intro b' B' B'' hB' hB'' hs'
      rw [he] at hB'' ⊢
      simp only [Function.update_of_ne (hbb b' B' hB' hs'), hB', Option.some.injEq] at hB''
      subst hB''
      rfl
    · have hno : ¬(B.type = .shared ∧ B.waitMessageName = n) := fun hb => hs (decide_eq_true hb)
      rw [he]
      simp [returnedShared, hno]

/-- The owner of an await of `n` on which it is suspended is a consumer. -/
theorem Consumers.of_suspended (h : Consumers n consumer w) (hB : w.awaits b = some B)
    (hs : B.isShared n = true) (hc : w.ctl c = .suspended b) : isConsumer consumer c = true := by
  rw [h.awaiting_iff c b B (by rw [hc]; rfl) hB, hs]

/-- A delivery that refers to a consumer is one of `n` by the normal dispatcher. -/
theorem Consumers.of_visit (h : Consumers n consumer w) (hw : Wf w)
    (hc : isConsumer consumer c = true) {d : Dispatcher} {k : AwaitType} {p : Packet}
    {first : Addr} {rest : List Addr} {s : VisitPc} (hd : w.disp d = .visit k p first b rest s)
    (hs : s.handle = some c) (hB : w.awaits b = some B) :
    d = .normal ∧ k = .shared ∧ p.msg.name = n ∧ B.isShared n = true ∧ B.owner = c := by
  obtain ⟨B', hB', hh⟩ := hw.visit_handle d k p first b rest s c hd hs
  obtain rfl : B = B' := Option.some.inj (hB.symm.trans hB')
  have hsh : B.isShared n = true := by rw [← h.handle_iff b B c hB hh, hc]
  obtain ⟨hty, hnm⟩ := of_decide_eq_true hsh
  obtain ⟨hk, hpn⟩ := hw.visit_type hd hB
  refine ⟨?_, hk.symm.trans hty, hpn.symm.trans hnm, hsh, (hw.handle_owner b B c hB hh).symm⟩
  cases d with
  | normal => rfl
  | high => exact absurd (hpn.symm.trans hnm) (h.high_packet p (by rw [hd]; rfl))

/-- The write to `data_` of a stopped consumer changes no account: the message is still in the hands
of the dispatcher. -/
theorem Ledger.writeData (h : Ledger n w) (hw : Wf w) (hw' : Wf w') (hcon : Consumers n consumer w)
    {d : Dispatcher} {k : AwaitType} {p : Packet} {first : Addr} {rest : List Addr}
    (hd : w.disp d = .visit k p first b rest (.writeData c)) (hB : w.awaits b = some B)
    (he : w' = { w with
      awaits := update w.awaits b (some { B with data := p.msg })
      disp := update w.disp d (.visit k p first b rest (.storeState c)) }) : Ledger n w' := by
  have hB' : w'.awaits b = some { B with data := p.msg } := by rw [he]; simp
  have hcar : ∀ b' c', w'.carries b' c' = w.carries b' c' := by rw [he]; exact fun _ _ => rfl
  have hne : ∀ b', b' ≠ b → w'.awaits b' = w.awaits b' := by
    intro b' hb'
    rw [he]
    exact Function.update_of_ne hb' ..
  refine h.frame hw hw' (by rw [he]; rfl) ?_ ?_ (by rw [he]) (by rw [he]) ?_
  · intro b' B₁ B₂ hB₁ hB₂ _
    by_cases hbb : b' = b
    · subst hbb
      obtain rfl : B = B₁ := Option.some.inj (hB.symm.trans hB₁)
      rw [hB', Option.some.injEq] at hB₂
      rw [← hB₂, he]
    · rw [hne b' hbb, hB₁, Option.some.injEq] at hB₂
      rw [hB₂, he]
  · intro b' B₁ hB₁ hs
    by_cases hbb : b' = b
    · subst hbb
      obtain rfl : B = B₁ := Option.some.inj (hB.symm.trans hB₁)
      obtain ⟨B₂, hB₂, hh⟩ := hw.visit_handle d k p first b' rest _ c hd rfl
      obtain rfl : B = B₂ := Option.some.inj (hB.symm.trans hB₂)
      have hc : isConsumer consumer c = true := by rw [hcon.handle_iff b' B c hB hh, hs]
      obtain ⟨rfl, -, -, -, rfl⟩ := hcon.of_visit hw hc hd rfl hB
      have hsolo := hcon.solo _ hc
      have hst := hsolo.checked (by rw [hd]; rfl)
      obtain ⟨a, ha⟩ := hsolo.claim.stop_ctl hst
      have hno : w.carries b' B.owner = false := by
        simp [World.carries, ha, hsolo.claim.stop_queue hst]
      rw [World.held_eq_zero hB hno, World.held_eq_zero hB' (by rw [hcar]; exact hno)]
    · refine World.held_congr (by rw [hne b' hbb]) fun B₂ _ => hcar _ _
  · rw [he]
    refine World.pending_update ?_
    rw [hd]
    exact DispPc.pending_visit ..

/-- `resume_coroutine` puts a coroutine into the executor's queue. -/
theorem Ledger.pushQueue (h : Ledger n w) (hw : Wf w) (hw' : Wf w') (hcon : Consumers n consumer w)
    {d : Dispatcher} {k : AwaitType} {p : Packet} {first : Addr} {rest : List Addr} {pc : DispPc}
    (hd : w.disp d = .visit k p first b rest (.pushQueue c)) (hB : w.awaits b = some B)
    (hpc : k = .shared ∧ pc = .lock .normal p ∨ k = .normal ∧ pc = .next k p first rest ∨
      k = .temp ∧ pc = .visit k p first b rest .loadTimer)
    (he : w' = { w with
      coQueue := w.coQueue ++
        [{ executor := B.coExecutor, handle := c, priority := B.waitCoPriority }]
      disp := update w.disp d pc }) : Ledger n w' := by
  have hsch : ∀ c', c' ∈ w'.scheduled ↔ c' ∈ w.scheduled ∨ c' = c := by
    intro c'
    rw [he]
    simp [World.scheduled, or_comm]
  -- only the await on which the coroutine is suspended can change its account
  have hother : ∀ b' B', w.awaits b' = some B' →
      ¬(B'.owner = c ∧ w.ctl c = .suspended b') → w'.held b' = w.held b' := by
    intro b' B' hB' hno
    refine World.held_congr (by rw [he]) fun B₁ hB₁ => ?_
    obtain rfl : B' = B₁ := Option.some.inj (hB'.symm.trans hB₁)
    refine World.carries_congr (by rw [he]) fun hc' => ?_
    rw [hsch, or_iff_left]
    rintro rfl
    exact hno ⟨rfl, hc'⟩
  by_cases hc : isConsumer consumer c = true
  · obtain ⟨rfl, rfl, hpn, hs, rfl⟩ := hcon.of_visit hw hc hd rfl hB
    have hcl := (hcon.solo _ hc).claim
    have hpush : (w.disp .normal).pushing = some B.owner := by rw [hd]; rfl
    obtain ⟨b', hb'⟩ := hcl.push_ctl .normal hpush
    obtain rfl : b' = b := hcon.suspended_eq hw hB hs hc (by rw [hb']; rfl)
    have hsum : w'.heldAll n + w.held b' = w.heldAll n + w'.held b' := by
      refine World.heldAll_add hw (by rw [he]; rfl) hB hs fun b₁ B₁ hB₁ _ hne => ?_
      refine hother b₁ B₁ hB₁ fun hh => hne ?_
      simpa [hb', eq_comm] using hh.2
    have hold : w.held b' = 0 := by
      have hm : B.owner ∉ w.scheduled := fun hm => hcl.queue_push hm .normal hpush
      exact World.held_eq_zero hB (by simp [World.carries, hb', hm])
    have hnew : w'.held b' = {p.msg} := by
      have hdata := hcon.data_eq p first b' rest _ B B.owner hd rfl hpn hB
      rw [← hdata]
      refine World.held_eq_singleton (by rw [he]; exact hB) ?_
      have hcw : w'.ctl B.owner = .suspended b' := by rw [he]; exact hb'
      simp [World.carries, hcw, hsch]
    have hcont : w'.sharedContents n = w.sharedContents n := by rw [he]; rfl
    have hpend : (w.disp .normal).pending n = {p.msg} := by rw [hd]; simp [DispPc.pending, hpn]
    have hpend' : (w'.disp .normal).pending n = 0 := by
      rcases hpc with ⟨-, rfl⟩ | ⟨hk, -⟩ | ⟨hk, -⟩
      · rw [he]
        simp
      · cases hk
      · cases hk
    rw [hold, hnew, add_zero] at hsum
    unfold Ledger at h ⊢
    rw [hcont, hpend', hsum, show w'.trace = w.trace by rw [he], h, hpend]
    abel
  · refine h.frame hw hw' (by rw [he]; rfl) ?_ ?_ (by rw [he]) (by rw [he]) ?_
    · intro b' B' B'' hB' hB'' _
      rw [he] at hB'' ⊢
      obtain rfl : B' = B'' := Option.some.inj (hB'.symm.trans hB'')
      rfl
    · intro b' B' hB' hs'
      refine hother b' B' hB' ?_
      rintro ⟨-, hcs⟩
      exact hc (hcon.of_suspended hB' hs' hcs)
    · rw [he]
      refine World.pending_update ?_
      rw [hd]
      rcases hpc with ⟨rfl, rfl⟩ | ⟨rfl, rfl⟩ | ⟨rfl, rfl⟩
      · -- a delivery of another name
        have hpn : p.msg.name ≠ n := by
          intro hpn
          obtain ⟨B', hB', hh⟩ := hw.visit_handle d .shared p first b rest _ c hd rfl
          obtain rfl : B = B' := Option.some.inj (hB.symm.trans hB')
          obtain ⟨hty, hnm⟩ := hw.visit_type hd hB
          refine hc ?_
          rw [hcon.handle_iff b B c hB hh]
          exact decide_eq_true ⟨hty, hnm.trans hpn⟩
        simp [DispPc.pending, hpn]
      · exact DispPc.pending_next ..
      · exact DispPc.pending_visit ..

/-- Nobody could be resumed: the message goes to the shared queue. -/
theorem Ledger.sharedPush (h : Ledger n w) (hw : Wf w) (hw' : Wf w')
    (hcon : Consumers n consumer w) {d : Dispatcher} {p : Packet}
    (hd : w.disp d = .sharedPush p b) (hB : w.awaits b = some B)
    (he : w' = { w with
      sharedQueues := update w.sharedQueues B.sharedQueue
        (w.sharedQueues B.sharedQueue ++ [p.msg])
      disp := update w.disp d (.lock .normal p) }) : Ledger n w' := by
  obtain ⟨B₁, hB₁, hty, hnm⟩ := hw.scanning d .shared p (by rw [hd]; rfl) (by rw [hd]; rfl) b
    (by rw [hd]; simp [DispPc.scanned])
  obtain rfl : B = B₁ := Option.some.inj (hB.symm.trans hB₁)
  have hheld : ∀ b', w'.held b' = w.held b' := by rw [he]; exact fun _ => rfl
  by_cases hpn : p.msg.name = n
  · have hs : B.isShared n = true := decide_eq_true ⟨hty, hnm.trans hpn⟩
    obtain rfl : d = .normal := by
      cases d with
      | normal => rfl
      | high => exact absurd hpn (hcon.high_packet p (by rw [hd]; rfl))
    have hcont : w'.sharedContents n = w.sharedContents n ++ [p.msg] := by
      rw [hw.sharedContents_eq hB hs, hw'.sharedContents_eq (by rw [he]; exact hB) hs, he]
      simp
    have hall : w'.heldAll n = w.heldAll n := by rw [he]; rfl
    have hpend : (w.disp .normal).pending n = {p.msg} := by rw [hd]; simp [DispPc.pending, hpn]
    have hpend' : (w'.disp .normal).pending n = 0 := by rw [he]; simp
    unfold Ledger at h ⊢
    rw [hcont, hall, hpend', show w'.trace = w.trace by rw [he], h, hpend, ← Multiset.coe_add]
    simp [add_assoc]
  · refine h.frame hw hw' (by rw [he]; rfl) ?_ (fun b' _ _ _ => hheld b') (by rw [he])
      (by rw [he]) ?_
    · intro b' B' B'' hB' hB'' hs'
      rw [he] at hB'' ⊢
      obtain rfl : B' = B'' := Option.some.inj (hB'.symm.trans hB'')
      have hne : B'.sharedQueue ≠ B.sharedQueue := by
        intro heq
        obtain ⟨hty', hnm'⟩ := of_decide_eq_true hs'
        exact hpn (hnm.symm.trans (((hw.queue_iff b' b B' B hB' hB hty' hty).1 heq).symm.trans hnm'))
      simp only [Function.update_of_ne hne]
    · rw [he]
      refine World.pending_update ?_
      rw [hd]
      simp [DispPc.pending, hpn]

/-- The shared block takes on a message. -/
theorem Ledger.lockSome (h : Ledger n w) (hw : Wf w) (hw' : Wf w') (hcon : Consumers n consumer w)
    {d : Dispatcher} {k : AwaitType} {p : Packet} {rest : List Addr}
    (hd : w.disp d = .lock k p)
    (he : w' = { w with
      disp := update w.disp d (.visit k p a a rest .enter)
      trace := if k = .shared then .sharedDispatched p.msg :: w.trace else w.trace }) :
    Ledger n w' := by
  by_cases hk : k = .shared ∧ p.msg.name = n
  · obtain ⟨rfl, hpn⟩ := hk
    obtain rfl : d = .normal := by
      cases d with
      | normal => rfl
      | high => exact absurd hpn (hcon.high_packet p (by rw [hd]; rfl))
    have hdis : dispatchedShared n w'.trace = p.msg ::ₘ dispatchedShared n w.trace := by
      rw [he]
      simp [dispatchedShared, hpn]
    have hret : returnedShared n w'.trace = returnedShared n w.trace := by
      rw [he]
      simp [returnedShared]
    have hall : w'.heldAll n = w.heldAll n := by rw [he]; rfl
    have hcont : w'.sharedContents n = w.sharedContents n := by rw [he]; rfl
    have hpend : (w.disp .normal).pending n = 0 := by rw [hd]; rfl
    have hpend' : (w'.disp .normal).pending n = {p.msg} := by
      rw [he]
      simp [DispPc.pending, hpn]
    unfold Ledger at h ⊢
    rw [hdis, hret, hall, hcont, hpend', h, hpend, ← Multiset.singleton_add]
    abel
  · refine h.frame hw hw' (by rw [he]; rfl) ?_ (fun b' _ _ _ => by rw [he]; rfl) ?_ ?_ ?_
    · intro b' B' B'' hB' hB'' _
      rw [he] at hB'' ⊢
      obtain rfl : B' = B'' := Option.some.inj (hB'.symm.trans hB'')
      rfl
    · rw [he]
      by_cases hs : k = .shared
      · have hpn : p.msg.name ≠ n := fun hpn => hk ⟨hs, hpn⟩
        simp [hs, dispatchedShared, hpn]
      · simp [hs]
    · rw [he]
      by_cases hs : k = .shared <;> simp [hs, returnedShared]
    · rw [he]
      refine World.pending_update ?_
      rw [hd]
      cases k with
      | shared => simpa [DispPc.pending] using hk
      | _ => rfl

/-- A new await of `n` carries nothing. -/
theorem Ledger.create (h : Ledger n w) (hw : Wf w) (hw' : Wf w') {name : String} {pos : ℕ}
    (hc : w.ctl A.owner = .body) (ha : w.awaits a = none) (hA : A.type = .shared)
    (hnm : A.waitMessageName = name) (haw : w'.awaits = update w.awaits a (some A))
    (hreg : w'.registry = update w.registry .shared
      (Multimap.insertAt (w.registry .shared) pos (name, a)))
    (hold : ∀ b B, w.awaits b = some B → B.type = .shared →
      w'.sharedQueues B.sharedQueue = w.sharedQueues B.sharedQueue)
    (hnew : w'.sharedQueues A.sharedQueue = w.sharedContents name)
    (hctl : w'.ctl = w.ctl) (hq : w'.coQueue = w.coQueue) (hd : w'.disp = w.disp)
    (htr : w'.trace = .created a :: w.trace) : Ledger n w' := by
  have hne : ∀ b B, w.awaits b = some B → b ≠ a := by
    rintro b B hB rfl
    rw [ha] at hB
    cases hB
  have hheld : ∀ b B, w.awaits b = some B → w'.held b = w.held b := by
    intro b B hB
    refine World.held_congr (by rw [haw, Function.update_of_ne (hne b B hB)]) fun B₁ _ => ?_
    exact World.carries_congr (by rw [hctl]) (by rw [World.scheduled, World.scheduled, hq]; simp)
  by_cases hn : name = n
  · have hperm : (w'.members n).Perm (a :: w.members n) := by
      rw [World.members, hreg, Function.update_self, hn]
      exact Multimap.equalRange_insertAt_perm ..
    have hA' : w'.awaits a = some A := by rw [haw, Function.update_self]
    have hs : A.isShared n = true := decide_eq_true ⟨hA, hnm.trans hn⟩
    have hzero : w'.held a = 0 := by
      refine World.held_eq_zero hA' (World.carries_of_body ?_)
      rw [hctl, hc]
    have hall : w'.heldAll n = w.heldAll n := by
      rw [World.heldAll, (hperm.map _).sum_eq, List.map_cons, List.sum_cons, hzero, zero_add]
      refine congrArg List.sum (List.map_congr_left fun b hb => ?_)
      obtain ⟨B, hB, -⟩ := hw.mem_members.1 hb
      exact hheld b B hB
    have hcont : w'.sharedContents n = w.sharedContents n := by
      rw [hw'.sharedContents_eq hA' hs, hnew, hn]
    unfold Ledger at h ⊢
    rw [hall, hcont, hd, htr]
    exact h
  · refine h.frame hw hw' ?_ ?_ (fun b B hB _ => hheld b B hB) (by rw [htr]; rfl)
      (by rw [htr]; rfl) (by rw [hd])
    · rw [World.members, hreg, Function.update_self]
      exact Multimap.equalRange_insertAt_of_ne hn pos a
    · intro b B B' hB hB' hs
      rw [haw, Function.update_of_ne (hne b B hB), hB, Option.some.injEq] at hB'
      subst hB'
      exact hold b B hB (of_decide_eq_true hs).1

/-- A destroyed await of `n` carries nothing, and it is not the last one. -/
theorem Ledger.destroy (h : Ledger n w) (hw : Wf w) (hw' : Wf w') {y : Ctl}
    (hc : w.ctl c = .body) (hA : w.awaits a = some A) (ho : A.owner = c)
    (hy : ∀ b, y ≠ .suspended b ∧ ∀ s, y ≠ .resuming b s)
    (hok : A.isShared n = true → w.members n ≠ [a])
    (he : w' = { w with
      awaits := update w.awaits a none
      registry := update w.registry A.type ((w.registry A.type).erase (A.waitMessageName, a))
      ctl := update w.ctl c y }) : Ledger n w' := by
  have hheld : ∀ b, b ≠ a → w'.held b = w.held b := by
    intro b hb
    subst he
    refine World.held_congr (by simp [Function.update_of_ne hb]) fun B hB => ?_
    exact World.carries_update hc rfl rfl (by simp) (hy b)
  have hkeep : ∀ b, b ≠ a → w'.awaits b = w.awaits b := by
    intro b hb
    rw [he]
    exact Function.update_of_ne hb ..
  by_cases hs : A.isShared n = true
  · obtain ⟨hty, hnm⟩ := of_decide_eq_true hs
    have hperm : (w.members n).Perm (a :: w'.members n) := by
      rw [World.members, World.members, he]
      simp only [hty, hnm, Function.update_self]
      exact Multimap.equalRange_erase_perm ((hw.registered .shared n a).2 ⟨A, hA, hty, hnm⟩)
    have hnot : a ∉ w'.members n := (List.nodup_cons.1 (hperm.nodup_iff.1 (hw.nodup_members n))).1
    have hall : w'.heldAll n = w.heldAll n := by
      have hzero : w.held a = 0 := World.held_eq_zero hA (World.carries_of_body (ho ▸ hc))
      rw [World.heldAll, World.heldAll, (hperm.map _).sum_eq, List.map_cons, List.sum_cons, hzero,
        zero_add]
      refine congrArg List.sum (List.map_congr_left fun b hb => hheld b ?_)
      rintro rfl
      exact hnot hb
    -- another await of the name is left, with the same queue
    obtain ⟨b, l, hb⟩ : ∃ b l, w'.members n = b :: l := by
      cases hm : w'.members n with
      | nil =>
        rw [hm, List.perm_singleton] at hperm
        exact absurd hperm (hok hs)
      | cons b l => exact ⟨b, l, rfl⟩
    obtain ⟨B, hB, hBs⟩ := hw'.mem_members.1 (show b ∈ w'.members n by simp [hb])
    have hba : b ≠ a := by
      rintro rfl
      exact hnot (by simp [hb])
    have hcont : w'.sharedContents n = w.sharedContents n := by
      rw [hw'.sharedContents_eq hB hBs, hw.sharedContents_eq (hkeep b hba ▸ hB) hBs, he]
    unfold Ledger at h ⊢
    rw [hall, hcont, he]
    exact h
  · have hne : ∀ b B, w.awaits b = some B → B.isShared n = true → b ≠ a := by
      rintro b B hB hBs rfl
      rw [hA, Option.some.injEq] at hB
      exact hs (hB ▸ hBs)
    refine h.frame hw hw' ?_ ?_ (fun b B hB hBs => hheld b (hne b B hB hBs)) (by rw [he])
      (by rw [he]) (by rw [he])
    · rw [World.members, World.members, he]
      by_cases hty : A.type = .shared
      · have hnm : A.waitMessageName ≠ n := fun hnm => hs (decide_eq_true ⟨hty, hnm⟩)
        simp only [hty, Function.update_self]
        exact Multimap.equalRange_erase_of_ne hnm a
      · simp only [Function.update_of_ne (Ne.symm hty)]
    · intro b B B' hB hB' hBs
      rw [hkeep b (hne b B hB hBs)] at hB'
      obtain rfl : B = B' := Option.some.inj (hB.symm.trans hB')
      rw [he]

/-- **One step** keeps the accounts of `n` in balance. -/
theorem Ledger.step (h : Ledger n w) (hw : Wf w) (hcon : Consumers n consumer w)
    (hres : ∀ c a s A, w.ctl c = .resuming a s → s.ofNormal = true → w.awaits a = some A →
      A.type = .normal)
    (ht : Trans w act w') (hok : competing n consumer w act = true) : Ledger n w' := by
  have hw' := hw.step ht
  -- the steps that move no message of `n`
  have go : w'.registry .shared = w.registry .shared → w'.sharedQueues = w.sharedQueues →
      (∀ b B B', w.awaits b = some B → w'.awaits b = some B' → B.isShared n = true →
        B'.data = B.data) →
      (∀ b B, w.awaits b = some B → B.isShared n = true →
        w'.carries b B.owner = w.carries b B.owner) →
      dispatchedShared n w'.trace = dispatchedShared n w.trace →
      returnedShared n w'.trace = returnedShared n w.trace →
      (w'.disp .normal).pending n = (w.disp .normal).pending n → Ledger n w' := by
    intro hr hq hdata hcar hd hret hp
    refine h.frame hw hw' (by rw [World.members, hr]; rfl) ?_ ?_ hd hret hp
    · intro b B B' hB hB' _
      rw [hq, (hw.keeps ht hB hB').sharedQueue]
    · intro b B hB hs
      obtain ⟨hty, hnm⟩ := of_decide_eq_true hs
      have hmem : (n, b) ∈ w'.registry .shared := by
        rw [hr]
        exact (hw.registered .shared n b).2 ⟨B, hB, hty, hnm⟩
      obtain ⟨B', hB', -⟩ := (hw'.registered .shared n b).1 hmem
      refine World.held_congr ?_ fun B₁ hB₁ => ?_
      · simp [hB, hB', hdata b B B' hB hB' hs, (hw.keeps ht hB hB').owner]
      · obtain rfl : B = B₁ := Option.some.inj (hB.symm.trans hB₁)
        exact hcar b B hB hs
  have same : w'.awaits = w.awaits → ∀ b B B', w.awaits b = some B → w'.awaits b = some B' →
      B.isShared n = true → B'.data = B.data := by
    intro he b B B' hB hB' _
    rw [he, hB, Option.some.injEq] at hB'
    rw [hB']
  have edited : ∀ {a : Addr} {A A₁ : Await}, w.awaits a = some A →
      w'.awaits = update w.awaits a (some A₁) → A₁.data = A.data ∨ A.isShared n = false →
      ∀ b B B', w.awaits b = some B → w'.awaits b = some B' → B.isShared n = true →
        B'.data = B.data := by
    intro a A A₁ hA he hdata b B B' hB hB' hs
    rw [he] at hB'
    by_cases hba : b = a
    · subst hba
      obtain rfl : A = B := Option.some.inj (hA.symm.trans hB)
      rw [Function.update_self, Option.some.injEq] at hB'
      rcases hdata with hdata | hno
      · rw [← hB', hdata]
      · rw [hs] at hno
        cases hno
    · rw [Function.update_of_ne hba, hB, Option.some.injEq] at hB'
      rw [hB']
  have added : ∀ {a : Addr} {A₁ : Await}, w.awaits a = none →
      w'.awaits = update w.awaits a (some A₁) → ∀ b B B', w.awaits b = some B →
        w'.awaits b = some B' → B.isShared n = true → B'.data = B.data := by
    intro a A₁ ha he b B B' hB hB' _
    have hba : b ≠ a := by rintro rfl; rw [ha] at hB; cases hB
    rw [he, Function.update_of_ne hba, hB, Option.some.injEq] at hB'
    rw [hB']
  have moved : ∀ {c₁ : CoId} {x y : Ctl}, w.ctl c₁ = x → w'.ctl = update w.ctl c₁ y →
      w'.coQueue = w.coQueue → (∀ b, x ≠ .suspended b ∧ ∀ s, x ≠ .resuming b s) →
      (∀ b, y ≠ .suspended b ∧ ∀ s, y ≠ .resuming b s) →
      ∀ b B, w.awaits b = some B → B.isShared n = true →
        w'.carries b B.owner = w.carries b B.owner :=
    fun hx hctl hq hxb hyb b _ _ _ => World.carries_update hx hctl hq (hxb b) (hyb b)
  -- a coroutine that stays in the same `await_resume`
  have stays : ∀ {c₁ : CoId} {a : Addr} {s s' : ResumePc}, w.ctl c₁ = .resuming a s →
      w'.ctl = update w.ctl c₁ (.resuming a s') → w'.coQueue = w.coQueue →
      ∀ b B, w.awaits b = some B → B.isShared n = true →
        w'.carries b B.owner = w.carries b B.owner := by
    intro c₁ a s s' hx hctl hq b B _ _
    by_cases hcc : B.owner = c₁
    · simp [World.carries, hctl, hcc, hx]
    · refine World.carries_congr (by rw [hctl, Function.update_of_ne hcc]) fun _ => ?_
      rw [World.scheduled, World.scheduled, hq]
  have still : w'.ctl = w.ctl → w'.coQueue = w.coQueue → ∀ b B, w.awaits b = some B →
      B.isShared n = true → w'.carries b B.owner = w.carries b B.owner := by
    intro hctl hq b B _ _
    refine World.carries_congr (by rw [hctl]) fun _ => ?_
    rw [World.scheduled, World.scheduled, hq]
  cases ht with
  | push | pushHigh | stop | lateStore | spin | nullFault | expire | ioBegin | ioKeepAlive | ioTick
  | ioTimeout | ioRearm =>
    exact go rfl rfl (same rfl) (still rfl rfl) rfl rfl rfl
  | start hc | createTime hc | destroyPush hc | finish hc | cancel hc | cancelMiss hc
  | notReady hc =>
    exact go rfl rfl (same rfl) (moved hc rfl rfl (by simp) (by simp)) rfl rfl rfl
  | setTimeout hc _ ha | arm hc ha | suspendFlag hc ha | suspendHandle hc ha =>
    exact go rfl rfl (edited ha rfl (.inl rfl)) (moved hc rfl rfl (by simp) (by simp)) rfl rfl rfl
  | createMessage _ _ ha | createTemp _ _ ha =>
    exact go rfl rfl (added ha rfl) (still rfl rfl) rfl rfl rfl
  | registerTime hc ha =>
    exact go rfl rfl (added ha rfl) (moved hc rfl rfl (by simp) (by simp)) rfl rfl rfl
  | @createClone c a b executor name priority pos B hc _ ha _ hb hB =>
    refine h.create hw hw' hc ha rfl rfl rfl rfl (fun _ _ _ _ => rfl) ?_ rfl rfl rfl rfl
    have hmem : b ∈ w.members name := List.mem_of_mem_head? hb
    obtain ⟨B', hB', hs⟩ := hw.mem_members.1 hmem
    obtain rfl : B = B' := Option.some.inj (hB.symm.trans hB')
    exact (hw.sharedContents_eq hB hs).symm
  | @createQueue c a executor name priority pos hc _ ha _ hn =>
    refine h.create hw hw' hc ha rfl rfl rfl rfl (fun b B hB hty => ?_) ?_ rfl rfl rfl rfl
    · have hlt := hw.queue_lt b B hB hty
      simp only [Function.update_of_ne (Nat.ne_of_lt hlt)]
    · have hnil : w.sharedContents name = [] := by
        unfold World.sharedContents World.members
        rw [hn]
      exact (Function.update_self ..).trans hnil.symm
  | @destroy c a A hc _ ha ho =>
    refine h.destroy hw hw' hc ha ho (fun b => ?_) (fun hs => ?_) rfl
    · split <;> simp
    · simpa [competing, ha, hs] using hok
  | @readyNormal c a A m q hc _ ha ho hty =>
    have hno : A.isShared n = false := by simp [Await.isShared, hty]
    refine go rfl rfl (edited ha rfl (.inr hno)) (fun b B hB hs => ?_) rfl rfl rfl
    have hab : a ≠ b := by
      rintro rfl
      rw [ha, Option.some.injEq] at hB
      rw [hB, hs] at hno
      cases hno
    exact World.carries_update hc rfl rfl (by simp) (by simp [hab])
  | readyShared hc _ ha ho hty hq => exact h.readyShared hw hw' hc ha ho hty hq rfl
  | @suspendState c a A junk hc ha =>
    refine go rfl rfl (same rfl) (fun b B hB hs => ?_) rfl rfl rfl
    by_cases hab : a = b
    · -- a coroutine that runs is not in the executor's queue
      subst hab
      by_cases hcc : B.owner = c
      · have hcons : isConsumer consumer c = true := by
          rw [hcon.awaiting_iff c a B (by rw [hc]; rfl) hB, hs]
        have hm := (hcon.solo c hcons).claim.not_scheduled_of_running
          (by simp [World.isRunning, hc, Ctl.running])
        have hm' : c ∉ List.map CoEntry.handle w.coQueue := hm
        simp [World.carries, hcc, hc, World.scheduled, hm']
      · exact World.carries_congr (Function.update_of_ne hcc ..) fun _ => Iff.rfl
    · exact World.carries_update hc rfl rfl (by simp) (by simp [hab])
  | @resume i e a A hi htop hc ha =>
    refine go rfl rfl (edited ha rfl (.inl rfl)) (fun b B hB hs => ?_) rfl rfl rfl
    by_cases hcc : B.owner = e.handle
    · have hm : e.handle ∈ w.scheduled := List.mem_map.2 ⟨e, List.mem_of_getElem? hi, rfl⟩
      simp [World.carries, hcc, hc, hm]
    · refine World.carries_congr (Function.update_of_ne hcc ..) fun _ => ?_
      have hp := ((Bag.perm_take hi).map CoEntry.handle).mem_iff (a := B.owner)
      simp only [World.scheduled, hp, List.map_cons, List.mem_cons, hcc, false_or]
  | @resumeFault i e hi htop hc =>
    refine go rfl rfl (same rfl) (fun b B hB hs => ?_) rfl rfl rfl
    refine World.carries_congr rfl fun hcb => ?_
    have hcc : B.owner ≠ e.handle := by
      intro hcc
      exact hc b (hcc ▸ hcb)
    have hp := ((Bag.perm_take hi).map CoEntry.handle).mem_iff (a := B.owner)
    simp only [World.scheduled, hp, List.map_cons, List.mem_cons, hcc, false_or]
  | loadSuspend hc ha => exact go rfl rfl (same rfl) (stays hc rfl rfl) rfl rfl rfl
  | @dequeue c a A m q junk hc ha =>
    have hno : A.isShared n = false := by
      simp [Await.isShared, hres c a _ A hc rfl ha]
    exact go rfl rfl (edited ha rfl (.inr hno)) (stays hc rfl rfl) rfl rfl rfl
  | clearSuspend hc ha => exact go rfl rfl (edited ha rfl (.inl rfl)) (stays hc rfl rfl) rfl rfl rfl
  | storeRuning hc ha => exact go rfl rfl (same rfl) (stays hc rfl rfl) rfl rfl rfl
  | ret hc ha => exact h.ret hw hw' hc ha rfl
  | fetch hd | lockNone hd =>
    exact go rfl rfl (same rfl) (still rfl rfl) rfl rfl (World.pending_update (by rw [hd]; simp))
  | lockSome hd => exact h.lockSome hw hw' hcon hd rfl
  | skip hd | stateOther hd | awaitOther hd | noTimer hd | pushRemove hd =>
    exact go rfl rfl (same rfl) (still rfl rfl) rfl rfl
      (World.pending_update (by rw [hd]; exact DispPc.pending_next ..))
  | enter hd | stateStop hd | awaitThis hd | loadTimer hd =>
    exact go rfl rfl (same rfl) (still rfl rfl) rfl rfl
      (World.pending_update (by rw [hd]; exact DispPc.pending_visit ..))
  | enqueue hd ha =>
    exact go rfl rfl (edited ha rfl (.inl rfl)) (still rfl rfl) rfl rfl
      (World.pending_update (by rw [hd]; exact DispPc.pending_visit ..))
  | @storeState d i k p first a rest A co hd ha =>
    refine go rfl rfl (fun b B B' hB hB' _ => ?_) (still rfl rfl) rfl rfl
      (World.pending_update (by rw [hd]; exact DispPc.pending_visit ..))
    obtain ⟨B₁, hB₁, he⟩ := World.endWait_eq_some hB'
    obtain rfl : B = B₁ := Option.some.inj (hB.symm.trans hB₁)
    rcases he with rfl | rfl <;> rfl
  | writeData hd ha => exact h.writeData hw hw' hcon hd ha rfl
  | pushQueue hd ha hpc => exact h.pushQueue hw hw' hcon hd ha hpc rfl
  | sharedPush hd ha => exact h.sharedPush hw hw' hcon hd ha rfl

theorem ledger_of_reachable (h : Reachable (fun w act => competing n consumer w act = true) w) :
    Ledger n w :=
  h.invariant (I := Ledger n) (by simp [Ledger, World.init, dispatchedShared, returnedShared,
      World.heldAll, World.members, World.sharedContents, Multimap.equalRange])
    fun _ _ _ hr ih hok hs => ih.step (wf_of_reachable hr) (consumers_of_reachable hr)
      (normal_of_resuming hr) (trans_of_step hs) hok

/-- **Competing consumers share each message exactly once.**  In every run in which the messages
named `n` come through `push_message`, the consumers of `n` await only their own
`SharedMessageAwait` and one of these stays registered: whenever the dispatcher is not in the shared
block, the messages it has taken on there are those returned by `co_await`, those in the `data_` of
consumers queued for resume or about to return, and those in the shared queue. -/
theorem shared_exactly_once (n : String) (consumer : CoId → Bool) {w : World}
    (h : Reachable (fun w act => competing n consumer w act = true) w)
    (hd : (w.disp .normal).inPhase .shared = false) :
    dispatchedShared n w.trace =
      returnedShared n w.trace + w.heldAll n + ↑(w.sharedContents n) := by
  have hl := ledger_of_reachable h
  rwa [Ledger, DispPc.pending_of_not_inPhase hd, add_zero] at hl

/-- Two consumers wait for `"n"`; of three messages the first two are handed to them and the third
goes to the shared queue, and the first consumer returns its message. -/
def threeShared : List Action :=
  [Action.start 1, .body 1 (.createShared 5 0 "n" 0 0), .body 1 (.coAwait 5), .run 1 0, .run 1 0,
    .late 0, .start 2, .body 2 (.createShared 6 0 "n" 0 1), .body 2 (.coAwait 6), .run 2 0, .run 2 0,
    .late 0, .push { name := "n", data := "x" }, .push { name := "n", data := "y" },
    .push { name := "n", data := "z" }] ++
  List.replicate 34 (Action.dispatch .normal 0) ++ [Action.worker 0, .run 1 0, .run 1 0]

theorem shared_exactly_once_three :
    ∃ w, Reachable (fun w act => competing "n" (fun _ => true) w act = true) w ∧
      dispatchedShared "n" w.trace = {⟨"n", "x", false⟩, ⟨"n", "y", false⟩, ⟨"n", "z", false⟩} ∧
      returnedShared "n" w.trace = {⟨"n", "x", false⟩} ∧
      w.heldAll "n" = {⟨"n", "y", false⟩} ∧ w.sharedContents "n" = [⟨"n", "z", false⟩] ∧
      dispatchedShared "n" w.trace =
        returnedShared "n" w.trace + w.heldAll "n" + ↑(w.sharedContents "n") := by
  have hrun : (Run.exec (Run.guarded step fun w act => competing "n" (fun _ => true) w act = true)
      World.init threeShared).any (fun w => decide
      ((w.disp .normal).inPhase .shared = false ∧
      dispatchedShared "n" w.trace = {⟨"n", "x", false⟩, ⟨"n", "y", false⟩, ⟨"n", "z", false⟩} ∧
      returnedShared "n" w.trace = {⟨"n", "x", false⟩} ∧
      w.heldAll "n" = {⟨"n", "y", false⟩} ∧ w.sharedContents "n" = [⟨"n", "z", false⟩])) =
      true := by
    decide +kernel
  obtain ⟨w, hw, hd, hdis, hret, hheld, hcont⟩ := Run.exists_reach_of_exec_guarded hrun
  exact ⟨w, hw, hdis, hret, hheld, hcont, shared_exactly_once "n" _ hw hd⟩

end DataProxy
