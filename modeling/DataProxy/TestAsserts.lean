import DataProxy.TestLogic
import Mathlib.Algebra.Order.BigOperators.Group.List
import Mathlib.Data.Multiset.OrderedMonoid

/-!
# No assertion of `Test` fails

What the handlers have received so far is the beginning of what the generator has sent: for
`handle_msg1` in order, for the calls of `handle_shared_msg1` together and without repetition.
-/

namespace DataProxy

open Function (update)

variable {w w' : World} {act : Action} {l : Checks} {x : World × Checks} {H : Handlers} {n : String}
  {a : Addr}

/-! ### What was sent -/

theorem mem_sent {m : InternalMessage} {k : ℕ} :
    m ∈ sent n k ↔ ∃ i, 0 < i ∧ i ≤ k ∧ m = generated n i := by
  simp only [sent, List.mem_map, List.mem_range]
  constructor
  · rintro ⟨i, hi, rfl⟩
    exact ⟨i + 1, Nat.succ_pos i, hi, rfl⟩
  · rintro ⟨i, hpos, hi, rfl⟩
    exact ⟨i - 1, by omega, by rw [Nat.sub_add_cancel hpos]⟩

/-- The numbers can be read back. -/
theorem generated_data {i : ℕ} (hi : i ≤ 100000000) : string2Int (generated n i).data = some i :=
  string2Int_toString (le_trans hi (by decide))

theorem generated_injective {i j : ℕ} (h : generated n i = generated n j) : i = j := by
  have hdata : toString i = toString j := congrArg InternalMessage.data h
  have hrepr : Nat.toDigits 10 i = Nat.toDigits 10 j := by
    rw [← Nat.toList_repr, ← Nat.toList_repr]
    exact congrArg String.toList hdata
  rw [← Nat.ofDigitChars_ten_toDigits (n := i), hrepr, Nat.ofDigitChars_ten_toDigits]

theorem nodup_sent (n : String) (k : ℕ) : (sent n k).Nodup := by
  refine List.Nodup.map (fun i j h => ?_) List.nodup_range
  exact Nat.succ_injective (generated_injective h)

/-- What comes after the first `k` messages is the next. -/
theorem sent_append {k j : ℕ} {m : InternalMessage} {r : List InternalMessage}
    (h : sent n k ++ m :: r = sent n j) : m = generated n (k + 1) ∧ k < j := by
  have hlen : k + (r.length + 1) = j := by
    have := congrArg List.length h
    simpa [sent] using this
  have hk : k < j := by omega
  have hget := congrArg (fun s => s[k]?) h
  have hleft : (sent n k ++ m :: r)[k]? = some m := by
    rw [List.getElem?_append_right (by simp [sent])]
    simp [sent]
  have hright : (sent n j)[k]? = some (generated n (k + 1)) := by
    simp [sent, hk]
  simp only [hleft, hright, Option.some.injEq] at hget
  exact ⟨hget, hk⟩

/-! ### The way to the shared awaits -/

/-- The message named `n` that the dispatcher brings to the shared block. -/
def DispPc.unshared (n : String) : DispPc → List InternalMessage
  | .lock .shared p => named n [p.msg]
  | _ => []

theorem DispPc.unshared_after (p : Packet) (k : AwaitType) : (DispPc.after p k).unshared n = [] := by
  cases k <;> rfl

theorem DispPc.unshared_next (k : AwaitType) (p : Packet) (first : Addr) (rest : List Addr) :
    (DispPc.next k p first rest).unshared n = [] := by
  cases rest <;> cases k <;> rfl

/-- The dispatcher takes a message of the name on in the shared block, or finds no await there. -/
theorem Trans.unshared_step {i : ℕ} (ht : Trans w (.dispatch .normal i) w')
    (hd : w.disp .normal ≠ .fetch) :
    ∃ missed : Multiset InternalMessage, (w.members n ≠ [] → missed = 0) ∧
      dispatchedShared n w'.trace + ↑((w'.disp .normal).unshared n) + missed =
        dispatchedShared n w.trace + ↑((w.disp .normal).unshared n) := by
  have none_missed : dispatchedShared n w'.trace + ↑((w'.disp .normal).unshared n) =
      dispatchedShared n w.trace + ↑((w.disp .normal).unshared n) →
      ∃ missed : Multiset InternalMessage, (w.members n ≠ [] → missed = 0) ∧
        dispatchedShared n w'.trace + ↑((w'.disp .normal).unshared n) + missed =
          dispatchedShared n w.trace + ↑((w.disp .normal).unshared n) :=
    fun h => ⟨0, fun _ => rfl, (add_zero _).trans h⟩
  cases ht with
  | fetch hd' => exact absurd hd' hd
  | @lockNone _ _ k p hd' hr =>
    cases k with
    | shared =>
      refine ⟨↑(named n [p.msg]), fun hmem => ?_, ?_⟩
      · have hp : p.msg.name ≠ n := by
          rintro rfl
          exact hmem hr
        simp [named, hp]
      · simp only [hd', Function.update_self, DispPc.unshared_after]
        simp [DispPc.unshared]
    | normal | temp =>
      apply none_missed
      simp only [hd', Function.update_self, DispPc.unshared_after]
      rfl
  | @lockSome _ _ k p b rest hd' hr =>
    apply none_missed
    simp only [hd', Function.update_self]
    cases k with
    | shared =>
      by_cases hp : p.msg.name = n
      · simp [DispPc.unshared, named, dispatchedShared, hp, ← Multiset.singleton_add, add_comm]
      · simp [DispPc.unshared, named, dispatchedShared, hp]
    | normal | temp => rfl
  | skip hd' | stateOther hd' | awaitOther hd' | noTimer hd' | pushRemove hd' =>
    apply none_missed
    simp only [hd', Function.update_self, DispPc.unshared_next]
    rfl
  | enter hd' | enqueue hd' | stateStop hd' | awaitThis hd' | writeData hd' | storeState hd'
  | loadTimer hd' | sharedPush hd' =>
    apply none_missed
    simp only [hd', Function.update_self]
    rfl
  | pushQueue hd' _ hpc =>
    apply none_missed
    simp only [hd', Function.update_self]
    rcases hpc with ⟨-, rfl⟩ | ⟨-, rfl⟩ | ⟨-, rfl⟩
    · rfl
    · rw [DispPc.unshared_next]
      rfl
    · rfl

/-- Only a dispatcher changes what was taken on. -/
theorem Trans.dispatchedShared_from (ht : Trans w act w') :
    dispatchedShared n w'.trace = dispatchedShared n w.trace ∨
      ∃ d i p, act = .dispatch d i ∧ w.disp d = .lock .shared p ∧ p.msg.name = n := by
  cases ht with
  | @lockSome d i k p b rest hd hr =>
    by_cases hs : k = .shared
    · subst hs
      by_cases hp : p.msg.name = n
      · exact .inr ⟨d, i, p, rfl, hd, hp⟩
      · exact .inl (by simp [dispatchedShared, hp])
    · exact .inl (by simp [hs])
  | _ => exact .inl rfl

/-- The messages that the generator has pushed: taken on in the shared block, brought there, or in the
bus queue; or missed there, if nobody listens. -/
def Taken (H : Handlers) (w : World) (l : Checks) : Prop :=
  ∃ missed : Multiset InternalMessage, (H.sharing = true → missed = 0) ∧
    dispatchedShared H.name w.trace + ↑((w.disp .normal).unshared H.name) + missed +
      ↑(w.waiting H.name) = ↑(sent H.name l.id)

theorem Taken.init : Taken H World.init {} := ⟨0, fun _ => rfl, rfl⟩

theorem DispPc.unshared_of_ne {pc : DispPc} (h : ∀ p, pc.packet = some p → p.msg.name ≠ n) :
    pc.unshared n = [] := by
  cases pc with
  | lock k p =>
    have hp := h p rfl
    cases k with
    | shared => simp [DispPc.unshared, named, hp]
    | normal | temp => rfl
  | _ => rfl

theorem DispPc.pending_of_ne {pc : DispPc} (h : ∀ p, pc.packet = some p → p.msg.name ≠ n) :
    pc.pending n = 0 := by
  cases pc with
  | fetch | lock => rfl
  | visit k p =>
    have hp := h p rfl
    cases k with
    | shared => exact if_neg hp
    | normal | temp => rfl
  | sharedPush p => exact if_neg (h p rfl)

/-- No step but a push of the generator changes the sum. -/
theorem Taken.step (h : Taken H w l) (hf : Flow H w l) (hf' : Flow H w' l) (hA : Apart H.name w)
    (hcon : Consumers H.name H.shared w) (hok : H.runs w l act = true) (ht : Trans w act w')
    (hpush : ∀ m, act = .push m → m.name ≠ H.name) : Taken H w' l := by
  obtain ⟨missed, hmissed, h⟩ := h
  rcases Nat.eq_zero_or_pos l.id with hzero | hpos
  · have hdis : dispatchedShared H.name w'.trace = dispatchedShared H.name w.trace := by
      rcases ht.dispatchedShared_from (n := H.name) with he | ⟨d, i, p, -, hd, hp⟩
      · exact he
      · exact absurd hp (hf.quiet hzero p ⟨d, .inr (by rw [hd]; rfl)⟩)
    have quiet : ∀ v : World, (∀ p, v.inFlight p → p.msg.name ≠ H.name) →
        (v.disp .normal).unshared H.name = [] ∧ v.waiting H.name = [] := fun v hv =>
      ⟨DispPc.unshared_of_ne fun p hp => hv p ⟨.normal, .inr hp⟩, waiting_of_quiet hv⟩
    obtain ⟨hu, hwt⟩ := quiet w (hf.quiet hzero)
    obtain ⟨hu', hwt'⟩ := quiet w' (hf'.quiet hzero)
    rw [hu, hwt] at h
    exact ⟨missed, hmissed, by rwa [hdis, hu', hwt']⟩
  · have hmem := (Handlers.ready_iff.1 (hf.ready hpos)).2
    by_cases hact : ∃ i, act = .dispatch .normal i
    · obtain ⟨i, rfl⟩ := hact
      by_cases hd : w.disp .normal = .fetch
      · obtain ⟨htr, p, hd', hsplit⟩ := ht.fetch_inOrder hd (by simpa [Handlers.runs, hd] using hok)
        refine ⟨missed, hmissed, ?_⟩
        rw [← h, htr, hd', hd, hsplit, ← Multiset.coe_add]
        simp [DispPc.unshared, add_assoc, add_left_comm]
      · obtain ⟨more, hmore, hstep⟩ := ht.unshared_step (n := H.name) hd
        refine ⟨more + missed, fun hsharing => ?_, ?_⟩
        · rw [hmore (hmem hsharing), hmissed hsharing, add_zero]
        · rw [hA.waiting_same hpush (fun _ _ => hd) ht, ← add_assoc _ more missed, hstep, h]
    · refine ⟨missed, hmissed, ?_⟩
      have hdisp : w'.disp .normal = w.disp .normal := by
        rcases ht.disp_eq .normal with he | ⟨i, rfl⟩
        · exact he
        · exact absurd ⟨i, rfl⟩ hact
      have hdis : dispatchedShared H.name w'.trace = dispatchedShared H.name w.trace := by
        rcases ht.dispatchedShared_from (n := H.name) with he | ⟨d, i, p, rfl, hd, hp⟩
        · exact he
        · cases d with
          | normal => exact absurd ⟨i, rfl⟩ hact
          | high => exact absurd hp (hcon.high_packet p (by rw [hd]; rfl))
      rw [hA.waiting_same hpush (fun i hi => absurd ⟨i, hi⟩ hact) ht, hdisp, hdis, h]

theorem Taken.push (h : Taken H w l) :
    Taken H (w.enqueueBus .normal { msg := generated H.name (l.id + 1) }) { l with id := l.id + 1 } := by
  have hnamed : named H.name [generated H.name (l.id + 1)] = [generated H.name (l.id + 1)] := by
    simp [named, generated]
  obtain ⟨missed, hmissed, h⟩ := h
  refine ⟨missed, hmissed, ?_⟩
  rw [World.waiting_enqueueBus, hnamed, ← Multiset.coe_add, ← add_assoc]
  show dispatchedShared H.name w.trace + ↑((w.disp .normal).unshared H.name) + missed + _ + _ =
    (↑(sent H.name (l.id + 1)) : Multiset InternalMessage)
  rw [h, sent_succ, Multiset.coe_add]

/-! ### What was received -/

/-- Only the last statement of `await_resume` returns a message. -/
theorem Trans.returned_from (ht : Trans w act w') :
    (∃ c b B junk, act = .run c junk ∧ w.ctl c = .resuming b .ret ∧ w.awaits b = some B ∧
      w'.trace = .returned B.type B.waitMessageName b B.data :: w.trace) ∨
    (∀ n, returnedShared n w'.trace = returnedShared n w.trace) ∧
      ∀ a A, w.awaits a = some A → received a w'.trace = received a w.trace := by
  cases ht with
  | ret hc ha => exact .inl ⟨_, _, _, _, rfl, hc, ha, rfl⟩
  | @createClone _ b _ _ _ _ _ _ _ _ hb | @createQueue _ b _ _ _ _ _ _ hb
  | @createMessage _ b _ _ _ _ _ _ hb | @createTemp _ b _ _ _ _ _ _ _ hb
  | @registerTime _ b _ _ _ _ hb =>
    refine .inr ⟨fun _ => rfl, fun a A ha => ?_⟩
    have hba : b ≠ a := by
      rintro rfl
      rw [ha] at hb
      cases hb
    simp [received, hba]
  | @lockSome d i k =>
    refine .inr ⟨fun _ => ?_, fun a A _ => ?_⟩
    · by_cases hs : k = .shared <;> simp [hs, returnedShared]
    · by_cases hs : k = .shared <;> simp [hs, received]
  | _ => exact .inr ⟨fun _ => rfl, fun _ _ _ => rfl⟩

/-- The variables of the handlers, against the messages that `co_await` has returned. -/
structure Tally (H : Handlers) (w : World) (l : Checks) : Prop where
  bound : l.id ≤ 100000000
  heard : 0 < l.id → received H.msgAwait w.trace = sent H.name l.lastId
  unheard : l.id = 0 → l.lastId = 0
  counted : ↑(l.nums.map (generated H.name)) = returnedShared H.name w.trace
  holds : l.failed = false

theorem Tally.init : Tally H World.init {} where
  bound := by decide
  heard h := absurd h (lt_irrefl 0)
  unheard _ := rfl
  counted := rfl
  holds := rfl

/-- What was delivered to the listening await has its name. -/
theorem named_delivered_eq (hr : Reachable Run.Any w) {A : Await} (ha : w.awaits a = some A)
    (hn : A.waitMessageName = n) : named n (delivered a w.trace) = delivered a w.trace := by
  refine List.filter_eq_self.2 fun m hm => decide_eq_true ?_
  rw [delivered_name hr a A ha m hm, hn]

/-- **`handle_msg1` gets the next message.** -/
theorem Flow.next_message (hf : Flow H w l) (hT : Tally H w l) (hr : Reachable Run.Any w) {c : CoId}
    {A : Await} (hc : w.ctl c = .resuming H.msgAwait .ret) (ha : w.awaits H.msgAwait = some A)
    (hty : A.type = .normal) (hn : A.waitMessageName = H.name) :
    0 < l.id ∧ A.data = generated H.name (l.lastId + 1) ∧ l.lastId < l.id := by
  have hw := wf_of_reachable hr
  obtain rfl := hw.owner_of_at (by rw [hc]; rfl) ha
  have hbox := (mailbox_ok hr _ A ha hty).conserved
  have hhand : (w.mailbox H.msgAwait A).hand = [A.data] := by
    simp [World.mailbox, Mailbox.hand, hc, Ctl.place]
  rw [hhand] at hbox
  have hconserved : received H.msgAwait w.trace ++ [A.data] ++ A.queue = delivered H.msgAwait w.trace :=
    hbox
  have horder := hf.order
  rw [named_delivered_eq hr ha hn, ← hconserved] at horder
  have hpos : 0 < l.id := by
    by_contra hzero
    have hnil : l.id = 0 := by omega
    rw [hnil] at horder
    simp at horder
  rw [hT.heard hpos, List.append_assoc, List.append_assoc, List.append_assoc] at horder
  exact ⟨hpos, sent_append horder⟩

/-- Before the first push `handle_msg1` has received nothing. -/
theorem Flow.nothing_received (hf : Flow H w l) (hr : Reachable Run.Any w) (hzero : l.id = 0)
    (hlive : w.Listens H.msgAwait H.name) : received H.msgAwait w.trace = [] := by
  obtain ⟨A, ha, hty, hn, -⟩ := hlive
  have hbox : received H.msgAwait w.trace ++ (w.mailbox H.msgAwait A).hand ++ A.queue =
      delivered H.msgAwait w.trace := (mailbox_ok hr _ A ha hty).conserved
  have horder := hf.order
  rw [named_delivered_eq hr ha hn, ← hbox, hzero, sent_zero] at horder
  simp only [List.append_eq_nil_iff] at horder
  exact horder.1.1.1.1

/-- **A call of `handle_shared_msg1` gets a message that none of them has got.** -/
theorem Taken.new_message (h : Taken H w l) (hL : Ledger H.name w) (hw : Wf w) {c : CoId} {b : Addr}
    {B : Await} (hc : w.ctl c = .resuming b .ret) (hb : w.awaits b = some B)
    (hsh : B.isShared H.name = true) :
    B.data ∉ returnedShared H.name w.trace ∧ B.data ∈ sent H.name l.id := by
  have hheld : w.held b = {B.data} := by
    refine World.held_eq_singleton hb ?_
    rw [hw.owner_of_at (by rw [hc]; rfl) hb, World.carries, hc]
    exact decide_eq_true rfl
  have hmem : w.held b ≤ w.heldAll H.name := by
    exact List.le_sum_of_mem (List.mem_map_of_mem (hw.mem_members.2 ⟨B, hb, hsh⟩))
  obtain ⟨missed, -, hsent⟩ := h
  have hle : returnedShared H.name w.trace + {B.data} ≤ ↑(sent H.name l.id) := by
    rw [← hheld]
    calc returnedShared H.name w.trace + w.held b
        ≤ returnedShared H.name w.trace + w.heldAll H.name := by gcongr
      _ ≤ dispatchedShared H.name w.trace := by
        rw [show dispatchedShared H.name w.trace = _ from hL, add_assoc _ _ (DispPc.pending _ _)]
        exact Multiset.le_add_right _ _
      _ ≤ ↑(sent H.name l.id) := by
        rw [← hsent, add_assoc, add_assoc]
        exact Multiset.le_add_right _ _
  have hnd := Multiset.nodup_of_le hle (Multiset.coe_nodup.2 (nodup_sent _ _))
  rw [add_comm, Multiset.singleton_add, Multiset.nodup_cons] at hnd
  refine ⟨hnd.1, Multiset.mem_coe.1 (Multiset.mem_of_le hle ?_)⟩
  exact Multiset.mem_add.2 (.inr (Multiset.mem_singleton_self _))

/-- The program with the history of the await of `handle_temp_msg1`. -/
theorem Handlers.Reached.slotReach (h : H.Reached x) :
    ∃ k, SlotReach H.tempAwait H.name H.temp .normal (x.1, k) := by
  refine h.invariant (I := fun x => ∃ k, SlotReach H.tempAwait H.name H.temp .normal (x.1, k))
    ⟨{}, .refl⟩ ?_
  rintro x act y hr ⟨k, hk⟩ hok hs
  obtain ⟨hs, -⟩ := Run.logged_eq_some.1 hs
  have hcon := consumers_of_reachable (Handlers.Reached.competing hr)
  refine ⟨recordSlot H.tempAwait H.name x.1 act k, .tail hk ?_ (Run.logged_eq_some.2 ⟨hs, rfl⟩)⟩
  show awaitsOnly H.tempAwait H.name H.temp .normal x.1 act = true
  have ht := trans_of_step hs
  cases act with
  | body c op =>
    cases op with
    | coAwait b =>
      obtain ⟨B, hB⟩ : ∃ B, x.1.awaits b = some B := by
        generalize y.1 = v at ht
        cases ht with
        | readyNormal _ _ ha | readyShared _ _ ha | notReady _ _ ha => exact ⟨_, ha⟩
      simp only [Handlers.runs, hB, Option.all_some, Bool.and_eq_true, Bool.or_eq_true,
        decide_eq_true_eq] at hok
      simp only [awaitsOnly, hB, Option.all_some, Bool.and_eq_true, Bool.or_eq_true, decide_eq_true_eq]
      exact hok.2
    | _ => rfl
  | dispatch d i =>
    unfold awaitsOnly
    dsimp only
    split
    · cases hi : (x.1.busQueue d)[i]? with
      | none => rfl
      | some p =>
        refine decide_eq_true fun hp => ?_
        cases d with
        | normal => rfl
        | high => exact absurd hp (hcon.high_queue p (List.mem_of_getElem? hi))
    · rfl
  | _ => rfl

/-- **`handle_temp_msg1` gets a message of its name.** -/
theorem Handlers.Reached.temp_message (h : H.Reached x) {c : CoId} {A : Await}
    (hc : x.1.ctl c = .resuming H.tempAwait .ret) (ha : x.1.awaits H.tempAwait = some A)
    (ho : A.owner = H.temp) (hty : A.type = .temp) (hn : A.waitMessageName = H.name) :
    A.data.name = H.name := by
  obtain ⟨k, hk⟩ := h.slotReach
  have hw := wf_of_reachable (SlotReach.reachable hk)
  obtain rfl : A.owner = c := hw.owner_of_at (by rw [hc]; rfl) ha
  obtain ⟨idx, -, hfirst, -⟩ := (slot_ok hk H.temp_ne A ha ho hty hn).first
  -- the message in `data_` is the last one that a wait has ended with
  have hwoken : (x.1.slot H.tempAwait H.name H.temp .normal A k).woken =
      k.returned ++ [(k.suspensions, A.data)] := by
    rw [ho] at hc
    simp [Slot.woken, World.slot, hc, Ctl.reader]
  rw [hwoken] at hfirst
  have hacc : ∀ r ∈ k.returned ++ [(k.suspensions, A.data)], A.accepts r.2 := by
    have hflip : List.Forall₂ (fun r _ => A.accepts r.2 ∧ True) (k.returned ++ [(k.suspensions, A.data)])
        idx := hfirst.flip.imp fun r i hi => ⟨hi.2.1, trivial⟩
    exact ((List.forall₂_and_left _ _).1 hflip).1
  exact (hacc (k.suspensions, A.data) (by simp)).1.trans hn

/-! ### The assertions -/

/-- `handle_msg1` with the next message. -/
theorem Checks.handleMsg_generated (hl : l.failed = false) (hid : l.lastId < 100000000) (junk : ℕ) :
    l.handleMsg n (generated n (l.lastId + 1)) junk = { l with lastId := l.lastId + 1 } := by
  have hread : string2Int (generated n (l.lastId + 1)).data = some (l.lastId + 1) :=
    generated_data hid
  have hname : (generated n (l.lastId + 1)).name = n := rfl
  have hmod : (l.lastId + 1) % 2 ^ 64 = l.lastId + 1 := Nat.mod_eq_of_lt (by omega)
  simp only [Checks.handleMsg, Checks.assert, hread, hname, hmod, hl, Option.getD_some, decide_true,
    Bool.not_true, Bool.or_false]

/-- `handle_shared_msg1` with a message that is new. -/
theorem Checks.handleSharedMsg_generated {i : ℕ} (hl : l.failed = false) (hi : i ≤ 100000000)
    (hnew : i ∉ l.nums) (junk : ℕ) :
    l.handleSharedMsg n (generated n i) junk = { l with nums := i :: l.nums } := by
  have hread : string2Int (generated n i).data = some i := generated_data hi
  have hname : (generated n i).name = n := rfl
  simp only [Checks.handleSharedMsg, Checks.assert, hread, hname, hl, hnew, Option.getD_some, decide_true,
    not_false_eq_true, Bool.not_true, Bool.or_false]

/-- `handle_temp_msg1` with a message of the name. -/
theorem Checks.handleTempMsg_named {m : InternalMessage} (hm : m.name = n) :
    l.handleTempMsg n m = l := by
  simp only [Checks.handleTempMsg, Checks.assert, hm, decide_true, Bool.not_true, Bool.or_false]

/-- A return that no handler of the name sees. -/
theorem Tally.other (hT : Tally H w l) {b : Addr} {type : AwaitType} {name : String} {m : InternalMessage}
    (htr : w'.trace = .returned type name b m :: w.trace) (hba : b = H.msgAwait → l.id = 0)
    (hsh : ¬(type = .shared ∧ name = H.name)) : Tally H w' l := by
  refine ⟨hT.bound, fun hpos => ?_, hT.unheard, ?_, hT.holds⟩
  · have hne : b ≠ H.msgAwait := by
      intro he
      have hzero := hba he
      omega
    rw [htr, ← hT.heard hpos]
    simp [received, hne]
  · rw [htr, hT.counted]
    simp [returnedShared, hsh]

/-- What the handlers do when `co_await` returns. -/
theorem Tally.ret (hT : Tally H w l) (hx : H.Reached (w, l)) (hf : Flow H w l) (htaken : Taken H w l)
    {c : CoId} {b : Addr} {B : Await} (hc : w.ctl c = .resuming b .ret) (hb : w.awaits b = some B)
    (htr : w'.trace = .returned B.type B.waitMessageName b B.data :: w.trace) (junk : ℕ) :
    Tally H w' (H.record w (.run c junk) l) := by
  have hr : Reachable Run.Any w := (Handlers.Reached.competing hx).mono fun _ _ _ => trivial
  have hw := wf_of_reachable hr
  -- once there are messages, the await at the address is that of `handle_msg1`
  have mine : b = H.msgAwait → l.id ≠ 0 → B.type = .normal ∧ B.waitMessageName = H.name := by
    intro he hid
    obtain ⟨⟨A, ha, hty, hname, -⟩, -⟩ := Handlers.ready_iff.1 (hf.ready (Nat.pos_of_ne_zero hid))
    rw [← he] at ha
    obtain rfl := Option.some.inj (ha.symm.trans hb)
    exact ⟨hty, hname⟩
  by_cases hn : B.waitMessageName = H.name
  · cases hty : B.type with
    | shared =>
      have hsh : B.isShared H.name = true := decide_eq_true ⟨hty, hn⟩
      obtain ⟨hnew, hsent⟩ := htaken.new_message (ledger_of_reachable (Handlers.Reached.competing hx)) hw
        hc hb hsh
      obtain ⟨i, -, hi, hdata⟩ := mem_sent.1 hsent
      have hnums : i ∉ l.nums := by
        intro hmem
        refine hnew ?_
        rw [← hT.counted, hdata]
        exact Multiset.mem_coe.2 (List.mem_map_of_mem hmem)
      have hrec : H.record w (.run c junk) l = { l with nums := i :: l.nums } := by
        rw [← Checks.handleSharedMsg_generated (n := H.name) hT.holds (le_trans hi hT.bound) hnums junk,
          ← hdata]
        simp only [Handlers.record, hc, hb, hn, hty, if_true]
      rw [hrec]
      refine ⟨hT.bound, fun hpos => ?_, hT.unheard, ?_, hT.holds⟩
      · have hne : b ≠ H.msgAwait := by
          intro he
          have hnormal := (mine he (Nat.ne_of_gt hpos)).1
          rw [hty] at hnormal
          cases hnormal
        rw [htr, ← hT.heard hpos]
        simp [received, hne]
      · rw [htr, hty, hn, hdata, returnedShared, if_pos ⟨rfl, rfl⟩, ← hT.counted]
        rfl
    | normal =>
      by_cases he : b = H.msgAwait
      · subst he
        obtain ⟨hpos, hdata, hlt⟩ := hf.next_message hT hr hc hb hty hn
        have hrec : H.record w (.run c junk) l = { l with lastId := l.lastId + 1 } := by
          rw [← Checks.handleMsg_generated (n := H.name) hT.holds (lt_of_lt_of_le hlt hT.bound) junk,
            ← hdata]
          simp only [Handlers.record, hc, hb, hn, hty, if_true]
        rw [hrec]
        refine ⟨hT.bound, fun _ => ?_, fun hzero => absurd hzero (Nat.ne_of_gt hpos), ?_, hT.holds⟩
        · rw [htr, hdata]
          simp [received, hT.heard hpos, sent_succ]
        · rw [htr, hty]
          simpa [returnedShared] using hT.counted
      · have hrec : H.record w (.run c junk) l = l := by
          simp only [Handlers.record, hc, hb, hn, hty, if_true, if_neg he]
        rw [hrec]
        exact hT.other htr (fun h => absurd h he) fun h => by
          rw [hty] at h
          cases h.1
    | temp =>
      have hrec : H.record w (.run c junk) l = l := by
        simp only [Handlers.record, hc, hb, hn, hty, if_true]
        split
        · rename_i hmine
          obtain ⟨rfl, ho⟩ := hmine
          exact Checks.handleTempMsg_named (hx.temp_message hc hb ho hty hn)
        · rfl
      rw [hrec]
      refine hT.other htr (fun he => ?_) fun h => ?_
      · by_contra hid
        have hnormal := (mine he hid).1
        rw [hty] at hnormal
        cases hnormal
      · rw [hty] at h
        cases h.1
  · have hrec : H.record w (.run c junk) l = l := by
      simp only [Handlers.record, hc, hb, if_neg hn]
    rw [hrec]
    refine hT.other htr (fun he => ?_) fun h => hn h.2
    by_contra hid
    exact hn (mine he hid).2

/-- The last statement of `await_resume` records what it returns. -/
theorem Trans.ret_trace {c : CoId} {junk : ℕ} (ht : Trans w (.run c junk) w') {b : Addr} {B : Await}
    (hc : w.ctl c = .resuming b .ret) (hb : w.awaits b = some B) :
    w'.trace = .returned B.type B.waitMessageName b B.data :: w.trace := by
  have hrun := ht.run_eq
  simp only [World.runStep, hc, hb, Option.map_some, World.awaitResume, Option.some.injEq] at hrun
  subst hrun
  rfl

theorem Handlers.record_eq (hpush : ∀ m, act = .push m → m.name ≠ H.name)
    (hret : ∀ c junk b, act = .run c junk → w.ctl c = .resuming b .ret → w.awaits b = none) :
    H.record w act l = l := by
  cases act with
  | push m => exact if_neg (hpush m rfl)
  | run c junk =>
    unfold Handlers.record
    dsimp only
    split
    · rename_i b hc
      rw [hret c junk b rfl hc]
    · rfl
  | _ => rfl

/-- A push of the generator. -/
theorem Tally.push (hT : Tally H w l) (hf : Flow H w l) (hr : Reachable Run.Any w)
    (hready : H.ready w = true) (hid : l.id < 100000000) (htr : w'.trace = w.trace) :
    Tally H w' { l with id := l.id + 1 } := by
  refine ⟨hid, fun _ => ?_, fun h => absurd h (Nat.succ_ne_zero _), ?_, hT.holds⟩
  · show received H.msgAwait w'.trace = sent H.name l.lastId
    rw [htr]
    rcases Nat.eq_zero_or_pos l.id with hzero | hpos
    · rw [hf.nothing_received hr hzero (Handlers.ready_iff.1 hready).1, hT.unheard hzero]
      rfl
    · exact hT.heard hpos
  · rw [htr]
    exact hT.counted

/-- **Every step keeps the accounts** of the handlers. -/
theorem Handlers.Reached.accounts (h : H.Reached x) :
    Flow H x.1 x.2 ∧ Taken H x.1 x.2 ∧ Tally H x.1 x.2 := by
  refine h.invariant (I := fun x => Flow H x.1 x.2 ∧ Taken H x.1 x.2 ∧ Tally H x.1 x.2)
    ⟨Flow.init, Taken.init, Tally.init⟩ ?_
  rintro ⟨w, l⟩ act ⟨w', l'⟩ hx ⟨hf, htaken, hT⟩ hok hs
  obtain ⟨hs, rfl⟩ := Run.logged_eq_some.1 hs
  have hx : H.Reached (w, l) := hx
  have hcomp : Reachable (fun w act => DataProxy.competing H.name H.shared w act = true) w := hx.competing
  have hr : Reachable Run.Any w := hcomp.mono fun _ _ _ => trivial
  have hA : Apart H.name w := hx.apart
  have hcon := consumers_of_reachable hcomp
  have ht := trans_of_step hs
  have hf' := hf.next hr hA hcon hok ht
  refine ⟨hf', ?_⟩
  by_cases hpush : ∃ m, act = .push m ∧ m.name = H.name
  · obtain ⟨m, rfl, hm⟩ := hpush
    have hrec := Handlers.record_push (w := w) (l := l) hm
    simp only [Handlers.runs, hm, Bool.or_eq_true, Bool.not_eq_true', decide_true, Bool.true_eq_false,
      false_or, Bool.and_eq_true, decide_eq_true_eq] at hok
    obtain ⟨⟨rfl, hid⟩, hready⟩ := hok
    rw [hrec]
    cases ht with
    | push => exact ⟨htaken.push, hT.push hf hr hready hid rfl⟩
  · have hnot : ∀ m, act = .push m → m.name ≠ H.name := fun m hact hm => hpush ⟨m, hact, hm⟩
    have hid : (H.record w act l).id = l.id := Handlers.record_id hnot
    -- what is in flight goes by the generator only
    have hsame : ∀ {l' : Checks}, l'.id = l.id → Flow H w' l' → Flow H w' l := fun hid hf =>
      ⟨fun h => hf.quiet (hid.trans h), fun h => hf.ready (hid ▸ h), hid ▸ hf.order⟩
    have htaken' : Taken H w' (H.record w act l) := by
      have := htaken.step hf (hsame hid hf') hA hcon hok ht hnot
      unfold Taken at this ⊢
      rwa [hid]
    refine ⟨htaken', ?_⟩
    by_cases hret : ∃ c junk b B, act = .run c junk ∧ w.ctl c = .resuming b .ret ∧ w.awaits b = some B
    · obtain ⟨c, junk, b, B, rfl, hc, hb⟩ := hret
      exact hT.ret hx hf htaken hc hb (ht.ret_trace hc hb) junk
    · have hrec : H.record w act l = l := by
        refine Handlers.record_eq hnot fun c junk b hact hc => ?_
        cases hb : w.awaits b with
        | none => rfl
        | some B => exact absurd ⟨c, junk, b, B, hact, hc, hb⟩ hret
      show Tally H w' (H.record w act l)
      rw [hrec]
      rcases ht.returned_from with ⟨c, b, B, junk, hact, hc, hb, -⟩ | ⟨hshared, hreceived⟩
      · exact absurd ⟨c, junk, b, B, hact, hc, hb⟩ hret
      · refine ⟨hT.bound, fun hpos => ?_, hT.unheard, (hshared _).symm ▸ hT.counted, hT.holds⟩
        obtain ⟨⟨A, ha, -⟩, -⟩ := Handlers.ready_iff.1 (hf.ready hpos)
        rw [hreceived _ A ha]
        exact hT.heard hpos

/-- **No assertion of `Test` fails**, in any run of the program with it: `handle_msg1` gets the messages
of the generator one after the other, with none left out, no two calls of `handle_shared_msg1` get the
same message, and every handler gets messages of its name only. -/
theorem test_asserts_hold (h : H.Reached x) : x.2.failed = false := h.accounts.2.2.holds

/-- The handlers of `"msg1"`. -/
def msg1 : Handlers where
  name := "msg1"
  msgAwait := 5
  temp := 2
  tempAwait := 6
  sharing := true
  shared c := decide (c = 3 ∨ c = 4)
  temp_ne := by decide
  notTime := by decide
  notRemove := by decide

/-- The handlers suspend, the generator pushes twice, the messages are dispatched and received. -/
def firstTwo : List Action :=
  [Action.start 1, .body 1 (.createMessage 5 0 "msg1" 0 0), .body 1 (.coAwait 5), .run 1 0, .run 1 0,
    .run 1 0, .late 0, .start 2, .body 2 (.createTemp 6 0 "msg1" 0 (fun _ => true) 0),
    .body 2 (.coAwait 6), .run 2 0, .run 2 0, .late 0, .start 3,
    .body 3 (.createShared 7 0 "msg1" 0 0), .body 3 (.coAwait 7), .run 3 0, .run 3 0, .late 0, .start 4,
    .body 4 (.createShared 8 0 "msg1" 0 1), .body 4 (.coAwait 8), .run 4 0, .run 4 0, .late 0,
    .push (generated "msg1" 1), .push (generated "msg1" 2)] ++
  List.replicate 41 (Action.dispatch .normal 0) ++
  [Action.worker 0, .run 3 0, .run 3 0, .worker 0] ++ List.replicate 5 (Action.run 1 0) ++
  Action.body 1 (.coAwait 5) :: List.replicate 4 (Action.run 1 0) ++
  [Action.worker 0, .run 2 0, .run 2 0, .worker 0, .run 4 0, .run 4 0]

/-- The handlers of `"msg2"`. -/
def msg2 : Handlers where
  name := "msg2"
  msgAwait := 5
  temp := 2
  tempAwait := 6
  sharing := false
  shared _ := false
  temp_ne := by decide
  notTime := by decide
  notRemove := by decide

/-- The same without `handle_shared_msg1`. -/
def firstTwoUnshared : List Action :=
  [Action.start 1, .body 1 (.createMessage 5 0 "msg2" 0 0), .body 1 (.coAwait 5), .run 1 0, .run 1 0,
    .run 1 0, .late 0, .start 2, .body 2 (.createTemp 6 0 "msg2" 0 (fun _ => true) 0),
    .body 2 (.coAwait 6), .run 2 0, .run 2 0, .late 0, .push (generated "msg2" 1),
    .push (generated "msg2" 2)] ++
  List.replicate 26 (Action.dispatch .normal 0) ++
  Action.worker 0 :: List.replicate 5 (Action.run 1 0) ++
  Action.body 1 (.coAwait 5) :: List.replicate 4 (Action.run 1 0) ++
  [Action.worker 0, .run 2 0, .run 2 0]

/-- Both messages are received by `handle_msg1` and by the calls of `handle_shared_msg1`, and those of
the other name by `handle_msg2`. -/
theorem test_asserts_hold_firstTwo :
    (∃ x, msg1.Reached x ∧ x.2.lastId = 2 ∧ x.2.nums = [2, 1] ∧ x.2.failed = false) ∧
      ∃ x, msg2.Reached x ∧ x.2.lastId = 2 ∧ x.2.failed = false := by
  have hrun : (Run.exec (Run.guarded (Run.logged step msg1.record) fun x act =>
      msg1.runs x.1 x.2 act = true) (World.init, {}) firstTwo).any (fun x =>
        decide (x.2.lastId = 2 ∧ x.2.nums = [2, 1])) = true := by
    decide +kernel
  have hrun' : (Run.exec (Run.guarded (Run.logged step msg2.record) fun x act =>
      msg2.runs x.1 x.2 act = true) (World.init, {}) firstTwoUnshared).any (fun x =>
        decide (x.2.lastId = 2)) = true := by
    decide +kernel
  obtain ⟨x, hx, hlast, hnums⟩ := Run.exists_reach_of_exec_guarded hrun
  obtain ⟨y, hy, hlast'⟩ := Run.exists_reach_of_exec_guarded hrun'
  exact ⟨⟨x, hx, hlast, hnums, test_asserts_hold hx⟩, y, hy, hlast', test_asserts_hold hy⟩

/-- **No message is lost.**  When the bus has no message of the name any more, `handle_msg1` has got the
first `lastId` messages and has the others in `data_` and `queue_`; and if there is a
`handle_shared_msg1`, each message is with exactly one call of it, or in the shared queue. -/
theorem test_none_lost (h : H.Reached x) (hid : 0 < x.2.id) (hbus : x.1.waiting H.name = [])
    (hdisp : ∀ p, (x.1.disp .normal).packet = some p → p.msg.name ≠ H.name) :
    (∃ A, x.1.awaits H.msgAwait = some A ∧ sent H.name x.2.lastId ++
      (x.1.mailbox H.msgAwait A).hand ++ A.queue = sent H.name x.2.id) ∧
    (H.sharing = true →
      ↑(x.2.nums.map (generated H.name)) + x.1.heldAll H.name + ↑(x.1.sharedContents H.name) =
        (↑(sent H.name x.2.id) : Multiset InternalMessage)) := by
  obtain ⟨hf, htaken, hT⟩ := h.accounts
  have hcomp := h.competing
  have hr : Reachable Run.Any x.1 := hcomp.mono fun _ _ _ => trivial
  obtain ⟨⟨A, ha, hty, hn, -⟩, -⟩ := Handlers.ready_iff.1 (hf.ready hid)
  constructor
  · have hbox : received H.msgAwait x.1.trace ++ (x.1.mailbox H.msgAwait A).hand ++ A.queue =
        delivered H.msgAwait x.1.trace := (mailbox_ok hr _ A ha hty).conserved
    have horder := hf.order
    rw [named_delivered_eq hr ha hn, DispPc.onWay_of_ne hdisp, hbus, List.append_nil,
      List.append_nil] at horder
    rw [hT.heard hid, horder] at hbox
    exact ⟨A, ha, hbox⟩
  · intro hsharing
    have hpending := DispPc.pending_of_ne hdisp
    have hL : Ledger H.name x.1 := ledger_of_reachable hcomp
    obtain ⟨missed, hmissed, htaken⟩ := htaken
    unfold Ledger at hL
    rw [DispPc.unshared_of_ne hdisp, hbus, hmissed hsharing] at htaken
    rw [hpending, add_zero] at hL
    rw [hT.counted, ← hL]
    simpa using htaken

theorem test_none_lost_firstTwo : ∃ x A, msg1.Reached x ∧ x.2.id = 2 ∧ x.1.awaits 5 = some A ∧
    sent "msg1" x.2.lastId ++ (x.1.mailbox 5 A).hand ++ A.queue = sent "msg1" 2 ∧
    ↑(x.2.nums.map (generated "msg1")) + x.1.heldAll "msg1" + ↑(x.1.sharedContents "msg1") =
      (↑(sent "msg1" 2) : Multiset InternalMessage) := by
  have hrun : (Run.exec (Run.guarded (Run.logged step msg1.record) fun x act =>
      msg1.runs x.1 x.2 act = true) (World.init, {}) firstTwo).any (fun x =>
        decide (x.2.id = 2 ∧ x.1.waiting "msg1" = [] ∧ (x.1.disp .normal).packet = none)) = true := by
    decide +kernel
  obtain ⟨x, hx, hid, hbus, hdisp⟩ := Run.exists_reach_of_exec_guarded hrun
  obtain ⟨⟨A, ha, hall⟩, hshared⟩ := test_none_lost hx (by omega) hbus fun p hp => by
    rw [hdisp] at hp
    cases hp
  rw [hid] at hall hshared
  exact ⟨x, A, hx, hid, ha, hall, hshared rfl⟩

end DataProxy
