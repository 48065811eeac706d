import DataProxy.Timers
import Mathlib.Data.List.TakeWhile

/-!
# Who uses which timer

A timer id belongs to one await object: to the one it was armed on by `set_await_timeout`, or to the
one made by `create_time_await`, whose name is made from the id.  `TimerUse` says so; it needs that
the reserved names are left alone and that `sid_` does not overflow.

A timer is removed by a message that carries the id in decimal, so that `string2Int_toString` is part
of the argument.
-/

namespace DataProxy

open Function (update)

variable {w w' : World} {act : Action} {a b : Addr} {A A' B : Await} {t t' : TimerId}

/-! ### Names and numbers -/

theorem isSpace_of_isDigit {c : Char} (h : c.isDigit = true) : isSpace c = false := by
  simp only [Char.isDigit, Bool.and_eq_true, decide_eq_true_eq, UInt32.le_iff_toNat_le] at h
  have hlow : 48 ≤ c.val.toNat := h.1
  have hne : c ≠ ' ' := by
    rintro rfl
    exact absurd hlow (by decide)
  have hgt : ¬c ≤ '\r' := by
    intro hle
    have : c.val.toNat ≤ 13 := hle
    omega
  simp [isSpace, hne, hgt]

/-- `String2Int` on a string of digits that is in range. -/
theorem string2Int_of_digits {l : List Char} {v : String} (hv : v.toList = l) (hne : l ≠ [])
    (hd : ∀ c ∈ l, c.isDigit = true) (hm : digitsValue l ≤ uint64Max) :
    string2Int v = some (digitsValue l) := by
  cases l with
  | nil => exact absurd rfl hne
  | cons c cs =>
    have hc : c.isDigit = true := hd c (by simp)
    have hdrop : v.toList.dropWhile isSpace = c :: cs := by
      rw [hv, List.dropWhile_cons_of_neg (by simp [isSpace_of_isDigit hc])]
    have hread : readUInt64 false (c :: cs) = digitsValue (c :: cs) := by
      unfold readUInt64
      rw [List.takeWhile_eq_self_iff.2 hd]
      simp [Nat.not_lt.2 hm]
    unfold string2Int
    rw [hdrop]
    -- a digit is no sign
    split
    · rename_i h
      cases h
    · rename_i h
      cases h
      exact absurd hc (by decide)
    · rename_i h
      cases h
      exact absurd hc (by decide)
    · rw [hread]

/-- **Round trip.**  `String2Int<uint64_t>(std::to_string(id))` is `id`. -/
theorem string2Int_toString (ht : t ≤ uint64Max) : string2Int (toString t) = some t := by
  have hv : digitsValue (Nat.toDigits 10 t) = t := Nat.ofDigitChars_ten_toDigits
  have h := string2Int_of_digits (v := toString t) Nat.toList_repr Nat.toDigits_ne_nil
    (fun c hc => Nat.isDigit_of_mem_toDigits (by decide) (by decide) hc) (by rw [hv]; exact ht)
  rwa [hv] at h

theorem timeName_toList (t : TimerId) :
    (timeName t).toList = timePrefix.toList ++ Nat.toDigits 10 t := by
  rw [timeName, String.toList_append]
  exact congrArg _ Nat.toList_repr

theorem timeName_injective (h : timeName t = timeName t') : t = t' := by
  have hl := congrArg String.toList h
  rw [timeName_toList, timeName_toList] at hl
  rw [← Nat.ofDigitChars_ten_toDigits (n := t), List.append_cancel_left hl,
    Nat.ofDigitChars_ten_toDigits]

theorem hasTimePrefix_timeName (t : TimerId) : hasTimePrefix (timeName t) = true := by
  rw [hasTimePrefix, timeName_toList, List.take_append_of_le_length (by decide)]
  decide

theorem timeName_ne_removeTimerName (t : TimerId) : timeName t ≠ removeTimerName := by
  intro h
  have hp := hasTimePrefix_timeName t
  rw [h] at hp
  exact absurd hp (by decide)

/-- The destructor sends the id of the timer. -/
theorem destructorMsg_timeName (t : TimerId) : destructorMsg (timeName t) = removeTimerMsg t := by
  rw [destructorMsg, timeName_toList, show (4 : ℕ) = timePrefix.toList.length by decide,
    List.drop_left, ← Nat.toList_repr, String.ofList_toList]
  rfl

/-! ### Where the uses of a timer come from -/

/-- The await holds the id in `timer_id_`, or waits for the timer. -/
def Await.uses (A : Await) (t : TimerId) : Prop := A.timerId = t ∨ A.timeoutFor = some t

/-- The await waits for the timer. -/
def Await.timedBy (A : Await) (t : TimerId) : Prop := A.timeoutFor = some t ∨ A.tickFor = some t

/-- Only `create_time_await` gives an await a tick to wait for. -/
theorem AwaitEdit.tickFor (h : AwaitEdit w act a A A') (ht : A'.tickFor = some t) :
    A.tickFor = some t := by
  cases h with
  | endWait => cases ht
  | _ => exact ht

/-- Only `set_await_timeout` gives an await a timeout to wait for. -/
theorem AwaitEdit.timeoutFor (h : AwaitEdit w act a A A') (ht : A'.timeoutFor = some t) :
    A.timeoutFor = some t ∨ ∃ c, act = .body c (.setTimeout a) ∧ t = w.sid + 1 := by
  cases h with
  | endWait => cases ht
  | setTimeout hact => exact .inr ⟨_, hact, (Option.some.inj ht).symm⟩
  | _ => exact .inl ht

/-- `timer_id_` is stored at the end of `set_await_timeout`. -/
theorem AwaitEdit.timerId (h : AwaitEdit w act a A A') :
    A'.timerId = A.timerId ∨ ∃ c, w.ctl c = .arming a A'.timerId := by
  cases h with
  | arm _ hc => exact .inr ⟨_, hc⟩
  | _ => exact .inl rfl

/-- What `set_await_timeout` does first. -/
theorem Trans.setTimeout_eq {c : CoId} (ht : Trans w (.body c (.setTimeout a)) w') :
    ∃ A, w.awaits a = some A ∧ A.type = .temp ∧
      w'.timerAt (w.sid + 1) = some { func := .timeout A.waitMessageName } ∧
      w'.awaits a = some { A with timeoutFor := some (w.sid + 1) } := by
  cases ht with
  | setTimeout _ _ ha _ hty =>
    exact ⟨_, ha, hty, Function.update_self .., Function.update_self ..⟩

/-- A coroutine comes into `set_await_timeout` by its call. -/
theorem Trans.arming (ht : Trans w act w') {c : CoId} (h : w'.ctl c = .arming a t) :
    w.ctl c = .arming a t ∨ act = .body c (.setTimeout a) ∧ t = w.sid + 1 := by
  rcases ht.ctl_from c with he | hm
  · exact .inl (he ▸ h)
  rw [h] at hm
  generalize w.ctl c = x at hm
  cases hm with
  | setTimeout hact => exact .inr ⟨hact, rfl⟩

/-- A coroutine comes into `create_time_await` by its call. -/
theorem Trans.creatingTime (ht : Trans w act w') {c : CoId} {l : Bool}
    (h : w'.ctl c = .creatingTime t l) :
    w.ctl c = .creatingTime t l ∨ t = w.sid + 1 ∧ c ≠ remover ∧ w'.timersMutex = some c ∧
      w'.timerAt t = some { func := .tick (timeName t) l } ∧ w'.awaits = w.awaits := by
  rcases ht.ctl_from c with he | hm
  · exact .inl (he ▸ h)
  rw [h] at hm
  generalize w.ctl c = x at hm
  cases hm with
  | createTime _ hne hmutex htimer ha => exact .inr ⟨rfl, hne, hmutex, htimer, ha⟩

/-- `timers_mutex_` changes hands only in `create_time_await`. -/
theorem Trans.timersMutex (ht : Trans w act w') {c : CoId} (h : w.timersMutex = some c) :
    w'.timersMutex = some c ∨ ∃ c₁ id l, w.ctl c₁ = .creatingTime id l ∧ w'.ctl c₁ = .body := by
  cases ht with
  | createTime _ _ hm =>
    rw [h] at hm
    cases hm
  | registerTime hc => exact .inr ⟨_, _, _, hc, Function.update_self ..⟩
  | _ => exact .inl h

/-! ### The coroutine that removes timers -/

/-- `co_handle_remove_timer` has one await, its own, and starts no timer. -/
structure RemoverOk (w : World) : Prop where
  object : ∃ A, w.awaits removerAwait = some A ∧ A.type = .normal ∧
    A.waitMessageName = removeTimerName ∧ A.owner = remover ∧ A.handle = some remover
  mine : ∀ a A, w.awaits a = some A → A.owner = remover → a = removerAwait
  creating : ∀ c id lp, w.ctl c = .creatingTime id lp → c ≠ remover

theorem RemoverOk.step (h : RemoverOk w) (hw : Wf w) (ht : Trans w act w') : RemoverOk w' where
  object := by
    obtain ⟨A, ha, hty, hn, ho, hh⟩ := h.object
    rcases (hw.awaitStep ht).forward ha with ⟨A', ha', hk⟩ | ⟨-, -, -, -, hne⟩
    · exact ⟨A', ha', hk.type.trans hty, hk.name.trans hn, hk.owner.trans ho,
        hk.handle_eq (fun h => hw.handle_owner _ A h ha) hh⟩
    · exact absurd ho hne
  mine a A' ha' ho := by
    rcases (hw.awaitStep ht).backward ha' with ⟨A, ha, hk⟩ | ⟨ha, -⟩
    · exact h.mine a A ha (hk.owner ▸ ho)
    · cases ht.created ha ha' with
      | shared _ hne hA =>
        obtain ⟨e, r, q, rfl⟩ := hA
        exact absurd ho hne
      | message _ hne | temp _ hne => exact absurd ho hne
      | time _ hc => exact absurd ho (h.creating _ _ _ hc)
  creating c id lp hc := by
    rcases ht.creatingTime hc with hc | ⟨-, hne, -⟩
    · exact h.creating c id lp hc
    · exact hne

theorem RemoverOk.init : RemoverOk World.init where
  object := ⟨removerObject, by simp [World.init], rfl, rfl, rfl, rfl⟩
  mine _ _ ha _ := (World.init_awaits ha).1
  creating c id lp hc := by
    rcases World.init_ctl c with h | ⟨-, h⟩ <;> rw [h] at hc <;> cases hc

theorem removerOk_of_reachable {ok : World → Action → Prop} (h : Reachable ok w) : RemoverOk w :=
  h.invariant (I := RemoverOk) RemoverOk.init fun _ _ _ hr ih _ hs =>
    ih.step (wf_of_reachable hr) (trans_of_step hs)

/-- `co_handle_remove_timer` returns from its await with a message that was delivered to it. -/
theorem RemoverOk.removing (h : RemoverOk w) (hw : Wf w)
    (hbox : ∀ a A, w.awaits a = some A → A.type = .normal → (w.mailbox a A).Ok)
    (ht : Trans w act w') {c : CoId} {m : InternalMessage} (hc : w'.ctl c = .removing m) :
    w.ctl c = .removing m ∨ m ∈ delivered removerAwait w.trace := by
  rcases ht.ctl_from c with he | hmove
  · exact .inl (he ▸ hc)
  rw [hc] at hmove
  generalize hx : w.ctl c = x at hmove
  cases hmove with
  | @retRemover b A hr ha =>
    subst hr
    have ho := hw.owner_of_at (by rw [hx]; rfl) ha
    obtain rfl := h.mine b A ha ho
    obtain ⟨A', ha', hty, -⟩ := h.object
    obtain rfl := Option.some.inj (ha.symm.trans ha')
    right
    have hbox := (hbox removerAwait A ha hty).conserved
    have hhand : (w.mailbox removerAwait A).hand = [A.data] := by
      simp [Mailbox.hand, World.mailbox, ho, hx, Ctl.place]
    rw [show delivered removerAwait w.trace = (w.mailbox removerAwait A).delivered from rfl,
      ← hbox, hhand]
    simp

/-- What is delivered to `co_handle_remove_timer` has come through the bus under its name. -/
theorem RemoverOk.delivered_from (h : RemoverOk w) (hw : Wf w) (ht : Trans w act w')
    {m : InternalMessage} (hm : m ∈ delivered removerAwait w'.trace) :
    m ∈ delivered removerAwait w.trace ∨
      ∃ p, w.inFlight p ∧ p.msg.name = removeTimerName ∧ p.msg = m := by
  rcases ht.delivered removerAwait with he | htr | ⟨d, k, p, first, rest, co, hd, he⟩
  · exact .inl (he ▸ hm)
  · simp [htr, delivered] at hm
  · rw [he, List.mem_append, List.mem_singleton] at hm
    rcases hm with hm | rfl
    · exact .inl hm
    · obtain ⟨A, ha, -, hn, -⟩ := h.object
      exact .inr ⟨p, ⟨d, .inr (by rw [hd]; rfl)⟩, (hw.visit_type hd ha).2.symm.trans hn, rfl⟩

/-! ### The invariant -/

/-- The condition on one step that the names `TimerMgr` reserves are left to it, and that `sid_` does
not overflow. -/
def reserved (w : World) : Action → Bool
  | .push m | .pushHigh m => decide (m.name ≠ removeTimerName)
  | .body _ (.createTemp _ _ name _ _ _) => decide (name ≠ removeTimerName) && !hasTimePrefix name
  | .body _ (.createTime _) | .body _ (.setTimeout _) => decide (w.sid < uint64Max)
  | _ => true

/-- Every timer in use is used by one await, of the right kind and name. -/
structure TimerUse (w : World) : Prop where
  small : w.sid ≤ uint64Max
  timeoutFor : ∀ a A t, w.awaits a = some A → A.timeoutFor = some t →
    A.type = .temp ∧ ∃ T, w.timerAt t = some T ∧ T.func = .timeout A.waitMessageName
  tickFor : ∀ a A t, w.awaits a = some A → A.tickFor = some t →
    A.type = .temp ∧ A.waitMessageName = timeName t ∧ A.filter = fun _ => true
  timerId : ∀ a A, w.awaits a = some A → 0 < A.timerId →
    ∃ T n, w.timerAt A.timerId = some T ∧ T.func = .timeout n
  arming : ∀ c a t, w.ctl c = .arming a t → ∃ A, w.awaits a = some A ∧ A.timeoutFor = some t
  one : ∀ a b A B t, 0 < t → w.awaits a = some A → w.awaits b = some B → A.uses t → B.uses t →
    a = b
  creating : ∀ c t l, w.ctl c = .creatingTime t l → c ≠ remover ∧ w.timersMutex = some c ∧
    (∃ T, w.timerAt t = some T ∧ T.func = .tick (timeName t) l) ∧
    ∀ a, ¬w.Live .temp (timeName t) a
  prefixed : ∀ a A, w.awaits a = some A → A.type = .temp → hasTimePrefix A.waitMessageName = true →
    ∃ t T l, A.waitMessageName = timeName t ∧ w.timerAt t = some T ∧ T.func = .tick (timeName t) l
  alone : ∀ a b t, w.Live .temp (timeName t) a → w.Live .temp (timeName t) b → a = b
  names : ∀ a A, w.awaits a = some A → A.type = .temp → A.waitMessageName ≠ removeTimerName
  funcs : ∀ t T m, w.timerAt t = some T → T.func.message = some m → m.name ≠ removeTimerName
  mine : ∀ a A, w.awaits a = some A → A.owner = remover → a = removerAwait

namespace TimerUse

theorem small_step (h : TimerUse w) (ht : Trans w act w') (hok : reserved w act = true) :
    w'.sid ≤ uint64Max := by
  refine ht.sid_small h.small ?_
  rintro c (⟨l, rfl⟩ | ⟨a, rfl⟩)
  · exact of_decide_eq_true hok
  · exact of_decide_eq_true hok

/-- Every id in use has been given out. -/
theorem uses_le (h : TimerUse w) (hT : TimersOk w) (ht : 0 < t) (ha : w.awaits a = some A)
    (hu : A.uses t) : t ≤ w.sid := by
  rcases hu with rfl | hu
  · obtain ⟨T, n, hT', -⟩ := h.timerId a A ha ht
    exact hT.known _ T hT'
  · obtain ⟨-, T, hT', -⟩ := h.timeoutFor a A t ha hu
    exact hT.known t T hT'

theorem timeoutFor_step (h : TimerUse w) (hw : Wf w) (hT : TimersOk w) (ht : Trans w act w')
    (ha' : w'.awaits a = some A') (hA' : A'.timeoutFor = some t) :
    A'.type = .temp ∧ ∃ T, w'.timerAt t = some T ∧ T.func = .timeout A'.waitMessageName := by
  rcases (hw.awaitStep ht).backward ha' with ⟨A, ha, hk⟩ | ⟨-, hf, -⟩
  · rw [hk.type, hk.name]
    rcases (ht.edit ha ha').timeoutFor hA' with hA | ⟨c, rfl, rfl⟩
    · obtain ⟨hty, T, hT', hf⟩ := h.timeoutFor a A t ha hA
      obtain ⟨T', hT'', hf', -⟩ := hT.forward ht hT'
      exact ⟨hty, T', hT'', hf'.trans hf⟩
    · obtain ⟨B, hb, hty, htimer, -⟩ := ht.setTimeout_eq
      obtain rfl : A = B := Option.some.inj (ha.symm.trans hb)
      exact ⟨hty, _, htimer, rfl⟩
  · rw [hf.timeoutFor] at hA'
    cases hA'

theorem tickFor_step (h : TimerUse w) (hw : Wf w) (ht : Trans w act w')
    (ha' : w'.awaits a = some A') (hA' : A'.tickFor = some t) :
    A'.type = .temp ∧ A'.waitMessageName = timeName t ∧ A'.filter = fun _ => true := by
  rcases (hw.awaitStep ht).backward ha' with ⟨A, ha, hk⟩ | ⟨ha, -⟩
  · rw [hk.type, hk.name, hk.filter]
    exact h.tickFor a A t ha ((ht.edit ha ha').tickFor hA')
  · obtain ⟨c, pos, -, -, rfl⟩ := (ht.created ha ha').of_tickFor hA'
    exact ⟨rfl, rfl, rfl⟩

theorem timerId_step (h : TimerUse w) (hw : Wf w) (hT : TimersOk w) (ht : Trans w act w')
    (ha' : w'.awaits a = some A') (hA' : 0 < A'.timerId) :
    ∃ T n, w'.timerAt A'.timerId = some T ∧ T.func = .timeout n := by
  obtain ⟨T, n, hT', hf⟩ : ∃ T n, w.timerAt A'.timerId = some T ∧ T.func = .timeout n := by
    rcases (hw.awaitStep ht).backward ha' with ⟨A, ha, -⟩ | ⟨-, hf, -⟩
    · rcases (ht.edit ha ha').timerId with he | ⟨c, hc⟩
      · rw [he] at hA' ⊢
        exact h.timerId a A ha hA'
      · obtain ⟨B, hb, hB⟩ := h.arming c a _ hc
        obtain ⟨-, T, hT', hf⟩ := h.timeoutFor a B _ hb hB
        exact ⟨T, _, hT', hf⟩
    · rw [hf.timerId] at hA'
      exact absurd hA' (Nat.lt_irrefl 0)
  obtain ⟨T', hT'', hf', -⟩ := hT.forward ht hT'
  exact ⟨T', n, hT'', hf'.trans hf⟩

theorem arming_step (h : TimerUse w) (hw : Wf w) (ht : Trans w act w') {c : CoId}
    (hc' : w'.ctl c = .arming a t) : ∃ A, w'.awaits a = some A ∧ A.timeoutFor = some t := by
  rcases ht.arming hc' with hc | ⟨rfl, rfl⟩
  · obtain ⟨A, ha, hA⟩ := h.arming c a t hc
    obtain ⟨A', ha', -⟩ := (hw.step ht).at_await c a (by rw [hc']; rfl)
    have ho : A.owner = c := hw.owner_of_at (by rw [hc]; rfl) ha
    -- the owner is in `set_await_timeout`: it neither waits on the await nor arms it again
    have busy : ∀ {c₁ : CoId}, A.owner = c₁ → w.ctl c₁ = .arming a t := fun h₁ => h₁ ▸ ho ▸ hc
    refine ⟨A', ha', ?_⟩
    cases ht.edit ha ha' with
    | endWait hc₁ =>
      have hb := busy (hw.owner_of_at (by rw [hc₁]; rfl) ha)
      rw [hc₁] at hb
      cases hb
    | setTimeout _ hc₁ ho₁ =>
      have hb := busy ho₁
      rw [hc₁] at hb
      cases hb
    | _ => exact hA
  · obtain ⟨A, -, -, -, ha'⟩ := ht.setTimeout_eq
    exact ⟨_, ha', rfl⟩

/-- Where a use comes from. -/
theorem uses_from (h : TimerUse w) (hw : Wf w) (ht : Trans w act w') (hpos : 0 < t)
    (ha' : w'.awaits a = some A') (hu : A'.uses t) :
    (∃ A, w.awaits a = some A ∧ A.uses t) ∨
      t = w.sid + 1 ∧ ∃ c, act = .body c (.setTimeout a) := by
  rcases (hw.awaitStep ht).backward ha' with ⟨A, ha, -⟩ | ⟨-, hf, -⟩
  · rcases hu with rfl | hu
    · rcases (ht.edit ha ha').timerId with he | ⟨c, hc⟩
      · exact .inl ⟨A, ha, .inl he.symm⟩
      · obtain ⟨B, hb, hB⟩ := h.arming c a _ hc
        exact .inl ⟨B, hb, .inr hB⟩
    · rcases (ht.edit ha ha').timeoutFor hu with hA | ⟨c, hact, he⟩
      · exact .inl ⟨A, ha, .inr hA⟩
      · exact .inr ⟨he, c, hact⟩
  · rcases hu with rfl | hu
    · rw [hf.timerId] at hpos
      exact absurd hpos (Nat.lt_irrefl 0)
    · rw [hf.timeoutFor] at hu
      cases hu

theorem one_step (h : TimerUse w) (hw : Wf w) (hT : TimersOk w) (ht : Trans w act w')
    (hpos : 0 < t) (ha : w'.awaits a = some A) (hb : w'.awaits b = some B) (hA : A.uses t)
    (hB : B.uses t) : a = b := by
  have fresh : ∀ {e E}, w.awaits e = some E → E.uses t → t ≠ w.sid + 1 := by
    rintro e E he hE rfl
    exact absurd (h.uses_le hT hpos he hE) (Nat.not_succ_le_self _)
  rcases h.uses_from hw ht hpos ha hA with ⟨A₀, ha₀, hA₀⟩ | ⟨he, c, hact⟩
  · rcases h.uses_from hw ht hpos hb hB with ⟨B₀, hb₀, hB₀⟩ | ⟨he, -⟩
    · exact h.one a b A₀ B₀ t hpos ha₀ hb₀ hA₀ hB₀
    · exact absurd he (fresh ha₀ hA₀)
  · rcases h.uses_from hw ht hpos hb hB with ⟨B₀, hb₀, hB₀⟩ | ⟨-, c', hact'⟩
    · exact absurd he (fresh hb₀ hB₀)
    · rw [hact] at hact'
      cases hact'
      rfl

/-- A new await with the name of a timer is made by `create_time_await`. -/
theorem time_of_created (h : Created w act a A') (hok : reserved w act = true)
    (hty : A'.type = .temp) (hp : hasTimePrefix A'.waitMessageName = true) :
    ∃ c pos id l, act = .registerTime c a pos ∧ w.ctl c = .creatingTime id l ∧
      A'.waitMessageName = timeName id := by
  rcases h.temp_cases hty with ⟨c, executor, priority, filter, pos, rfl⟩ | htime
  · simp only [reserved, Bool.and_eq_true, Bool.not_eq_true'] at hok
    cases hok.2.symm.trans hp
  · exact htime

/-- A live await with the name of a timer was alive, or has just been made for that timer. -/
theorem live_from (hw : Wf w) (ht : Trans w act w') (hok : reserved w act = true)
    (h' : w'.Live .temp (timeName t) a) :
    w.Live .temp (timeName t) a ∨ ∃ c pos l, act = .registerTime c a pos ∧
      w.ctl c = .creatingTime t l ∧ w'.ctl c = .body := by
  obtain ⟨A', ha', hty, hn⟩ := h'
  rcases (hw.awaitStep ht).backward ha' with ⟨A, ha, hk⟩ | ⟨ha, -⟩
  · exact .inl ⟨A, ha, hk.type ▸ hty, hk.name ▸ hn⟩
  · obtain ⟨c, pos, id, l, rfl, hc, he⟩ := time_of_created (ht.created ha ha') hok hty
      (hn ▸ hasTimePrefix_timeName t)
    obtain rfl : id = t := timeName_injective (he.symm.trans hn)
    refine .inr ⟨c, pos, l, rfl, hc, ?_⟩
    cases ht
    exact Function.update_self ..

theorem creating_step (h : TimerUse w) (hw : Wf w) (hT : TimersOk w) (ht : Trans w act w')
    (hok : reserved w act = true) {c : CoId} {l : Bool} (hc' : w'.ctl c = .creatingTime t l) :
    c ≠ remover ∧ w'.timersMutex = some c ∧
      (∃ T, w'.timerAt t = some T ∧ T.func = .tick (timeName t) l) ∧
      ∀ a, ¬w'.Live .temp (timeName t) a := by
  rcases ht.creatingTime hc' with hc | ⟨rfl, hne, hmutex, htimer, ha⟩
  · obtain ⟨hne, hmutex, ⟨T, hT', hf⟩, hno⟩ := h.creating c t l hc
    -- whoever else is in `create_time_await` would hold `timers_mutex_` too
    have only : ∀ {c₁ id l₁}, w.ctl c₁ = .creatingTime id l₁ → w'.ctl c₁ ≠ .body := by
      intro c₁ id l₁ hc₁ hbody
      obtain rfl : c₁ = c := Option.some.inj ((h.creating c₁ id l₁ hc₁).2.1.symm.trans hmutex)
      rw [hc'] at hbody
      cases hbody
    obtain ⟨T', hT'', hf', -⟩ := hT.forward ht hT'
    refine ⟨hne, ?_, ⟨T', hT'', hf'.trans hf⟩, fun a hlive => ?_⟩
    · rcases ht.timersMutex hmutex with hm | ⟨c₁, id, l₁, hc₁, hbody⟩
      · exact hm
      · exact absurd hbody (only hc₁)
    · rcases live_from hw ht hok hlive with hlive | ⟨c₁, pos, l₁, -, hc₁, hbody⟩
      · exact hno a hlive
      · exact only hc₁ hbody
  · refine ⟨hne, hmutex, ⟨_, htimer, rfl⟩, ?_⟩
    rintro a ⟨A, hA, hty, hn⟩
    rw [ha] at hA
    obtain ⟨t, T, l', hn', hT', -⟩ := h.prefixed a A hA hty (hn ▸ hasTimePrefix_timeName _)
    obtain rfl := timeName_injective (hn'.symm.trans hn)
    exact absurd (hT.known _ T hT') (Nat.not_succ_le_self _)

theorem prefixed_step (h : TimerUse w) (hw : Wf w) (hT : TimersOk w) (ht : Trans w act w')
    (hok : reserved w act = true) (ha' : w'.awaits a = some A') (hty : A'.type = .temp)
    (hp : hasTimePrefix A'.waitMessageName = true) :
    ∃ t T l, A'.waitMessageName = timeName t ∧ w'.timerAt t = some T ∧
      T.func = .tick (timeName t) l := by
  obtain ⟨t, T, l, hn, hT', hf⟩ : ∃ t T l, A'.waitMessageName = timeName t ∧
      w.timerAt t = some T ∧ T.func = .tick (timeName t) l := by
    rcases (hw.awaitStep ht).backward ha' with ⟨A, ha, hk⟩ | ⟨ha, -⟩
    · rw [hk.name] at hp ⊢
      exact h.prefixed a A ha (hk.type ▸ hty) hp
    · obtain ⟨c, pos, id, l, -, hc, hn⟩ := time_of_created (ht.created ha ha') hok hty hp
      obtain ⟨-, -, ⟨T, hT', hf⟩, -⟩ := h.creating c id l hc
      exact ⟨id, T, l, hn, hT', hf⟩
  obtain ⟨T', hT'', hf', -⟩ := hT.forward ht hT'
  exact ⟨t, T', l, hn, hT'', hf'.trans hf⟩

theorem alone_step (h : TimerUse w) (hw : Wf w) (ht : Trans w act w')
    (hok : reserved w act = true) (ha : w'.Live .temp (timeName t) a)
    (hb : w'.Live .temp (timeName t) b) : a = b := by
  rcases live_from hw ht hok ha with ha | ⟨c, pos, l, hact, hc, -⟩
  · rcases live_from hw ht hok hb with hb | ⟨c, pos, l, -, hc, -⟩
    · exact h.alone a b t ha hb
    · exact absurd ha ((h.creating c t l hc).2.2.2 a)
  · rcases live_from hw ht hok hb with hb | ⟨c', pos', l', hact', -⟩
    · exact absurd hb ((h.creating c t l hc).2.2.2 b)
    · rw [hact] at hact'
      cases hact'
      rfl

theorem names_step (h : TimerUse w) (hw : Wf w) (ht : Trans w act w')
    (hok : reserved w act = true) (ha' : w'.awaits a = some A') (hty : A'.type = .temp) :
    A'.waitMessageName ≠ removeTimerName := by
  rcases (hw.awaitStep ht).backward ha' with ⟨A, ha, hk⟩ | ⟨ha, -⟩
  · rw [hk.name]
    exact h.names a A ha (hk.type ▸ hty)
  · rcases (ht.created ha ha').temp_cases hty with ⟨c, executor, priority, filter, pos, rfl⟩ |
      ⟨c, pos, id, isloop, -, -, hn⟩
    · simp only [reserved, Bool.and_eq_true, decide_eq_true_eq] at hok
      exact hok.1
    · rw [hn]
      exact timeName_ne_removeTimerName _

theorem funcs_step (h : TimerUse w) (ht : Trans w act w') {T : Timer} {m : InternalMessage}
    (hT : w'.timerAt t = some T) (hm : T.func.message = some m) : m.name ≠ removeTimerName := by
  cases ht.timerStep with
  | keep he => exact h.funcs t T m (he ▸ hT) hm
  | start func hfunc he =>
    by_cases hid : t = w.sid + 1
    · rw [he, hid, Function.update_self, Option.some.injEq] at hT
      subst hT
      rcases hfunc with ⟨l, rfl⟩ | ⟨a, A, ha, hty, rfl⟩
      · obtain rfl := Option.some.inj hm
        exact timeName_ne_removeTimerName _
      · obtain rfl := Option.some.inj hm
        exact h.names a A ha hty
    · rw [he, Function.update_of_ne hid] at hT
      exact h.funcs t T m hT hm
  | @edit id S S' hS he hf =>
    by_cases hid : t = id
    · subst hid
      rw [he, Function.update_self, Option.some.injEq] at hT
      subst hT
      exact h.funcs t S m hS (hf ▸ hm)
    · rw [he, Function.update_of_ne hid] at hT
      exact h.funcs t T m hT hm

/-- **One step.** -/
theorem step (h : TimerUse w) (hr : RemoverOk w) (hw : Wf w) (hT : TimersOk w)
    (ht : Trans w act w') (hok : reserved w act = true) : TimerUse w' where
  small := h.small_step ht hok
  timeoutFor _ _ _ := h.timeoutFor_step hw hT ht
  tickFor _ _ _ := h.tickFor_step hw ht
  timerId _ _ := h.timerId_step hw hT ht
  arming _ _ _ := h.arming_step hw ht
  one _ _ _ _ _ := h.one_step hw hT ht
  creating _ _ _ := h.creating_step hw hT ht hok
  prefixed _ _ := h.prefixed_step hw hT ht hok
  alone _ _ _ := h.alone_step hw ht hok
  names _ _ := h.names_step hw ht hok
  funcs _ _ _ := h.funcs_step ht
  mine := (hr.step hw ht).mine

theorem init : TimerUse World.init := by
  refine ⟨by decide, fun a A t ha hA => ?_, fun a A t ha hA => ?_, fun a A ha hA => ?_,
    fun c a t hc => ?_, fun a b A B t _ ha hb _ _ => ?_, fun c t l hc => ?_, fun a A ha hty => ?_,
    fun a b t hl _ => ?_, fun a A ha hty => ?_, fun t T m hT hm => ?_, fun a A ha _ => ?_⟩
  · obtain ⟨-, rfl⟩ := World.init_awaits ha
    cases hA
  · obtain ⟨-, rfl⟩ := World.init_awaits ha
    cases hA
  · obtain ⟨-, rfl⟩ := World.init_awaits ha
    cases hA
  · rcases World.init_ctl c with h | ⟨-, h⟩ <;> rw [h] at hc <;> cases hc
  · exact (World.init_awaits ha).1.trans (World.init_awaits hb).1.symm
  · rcases World.init_ctl c with h | ⟨-, h⟩ <;> rw [h] at hc <;> cases hc
  · obtain ⟨-, rfl⟩ := World.init_awaits ha
    cases hty
  · obtain ⟨A, ha, hty, -⟩ := hl
    obtain ⟨-, rfl⟩ := World.init_awaits ha
    cases hty
  · obtain ⟨-, rfl⟩ := World.init_awaits ha
    cases hty
  · obtain ⟨-, rfl⟩ := World.init_timerAt hT
    cases hm
  · exact (World.init_awaits ha).1

end TimerUse

theorem timerUse_of_reachable {ok : World → Action → Prop}
    (hok : ∀ w act, ok w act → reserved w act = true) (h : Reachable ok w) : TimerUse w :=
  h.invariant (I := TimerUse) TimerUse.init fun s act _ hr ih ha hs =>
    ih.step (removerOk_of_reachable hr) (wf_of_reachable hr) (timersOk_of_reachable hr)
      (trans_of_step hs) (hok s act ha)

end DataProxy
