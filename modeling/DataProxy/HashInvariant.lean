import DataProxy.ProducerHash
import Mathlib.Data.Nat.Find

/-!
# What the threads know about the hash

Keys never become `invalid` again, only a thread itself writes its id, and only at its own end does it
take it away.  So the entries that a thread has passed in a table stay passed, and if it comes to an
`invalid` key then its id is not in that table.  A thread whose id is in no table has no producer.
-/

namespace DataProxy.ProducerHash

open Function (update)

/-! ### Places of the program -/

/-- The producer a thread has in its hands without listening for its end: it has just made it, or the
thread ends. -/
def Pc.inHand {P : Type} : Pc P → Option P
  | .countProducer _ producer | .loadProducerTail _ producer | .addProducer _ producer _
  | .exitHash producer | .exitKey producer _ _ | .exitInactive producer => some producer
  | _ => none

/-- The new producer that is not in the list of producers yet. -/
def Pc.adding {P : Type} : Pc P → Option P
  | .countProducer _ producer | .loadProducerTail _ producer | .addProducer _ producer _ => some producer
  | _ => none

/-- The entry whose key has been written and whose value has not. -/
def Pc.storing {P : Type} : Pc P → Option (ℕ × ℕ)
  | .addValue mainHash index _ | .uncount mainHash index _ | .insertValue mainHash index _ =>
    some (mainHash, index)
  | _ => none

/-- The thread has the resize lock. -/
def Pc.locked {P : Type} : Pc P → Bool
  | .reloadLocked _ | .resize _ _ | .clear _ _ | .noTable | .clearNoTable => true
  | _ => false

/-- The table that is about to be followed by a larger one. -/
def Pc.resizing {P : Type} : Pc P → Option ℕ
  | .resize mainHash _ => some mainHash
  | _ => none

variable {I P : Type} [DecidableEq I] [DecidableEq P] {hashedId : I → ℕ} {s s' : ProducerHash I P}
  {i j : I} {n k : ℕ} {p : P}

/-! ### Probing -/

/-- The indices at which a thread probes a table. -/
def probed (hashedId : I → ℕ) (s : ProducerHash I P) (hash : ℕ) (i : I) : ℕ → ℕ
  | 0 => s.first hashedId hash i
  | m + 1 => s.next hash (probed hashedId s hash i m)

/-- The thread comes to `index` past entries that are in use by others. -/
def Passed (hashedId : I → ℕ) (s : ProducerHash I P) (hash : ℕ) (i : I) (index : ℕ) : Prop :=
  ∃ m, index = probed hashedId s hash i m ∧ ∀ m' < m,
    s.key hash (probed hashedId s hash i m') ≠ .invalid ∧
      s.key hash (probed hashedId s hash i m') ≠ .id i

def NoId (s : ProducerHash I P) (i : I) (hash : ℕ) : Prop := ∀ index, s.key hash index ≠ .id i

def Absent (s : ProducerHash I P) (i : I) : Prop := ∀ hash, s.NoId i hash

omit [DecidableEq I] [DecidableEq P] in
theorem Passed.first : Passed hashedId s n i (s.first hashedId n i) :=
  ⟨0, rfl, fun _ h => absurd h (Nat.not_lt_zero _)⟩

omit [DecidableEq I] [DecidableEq P] in
theorem Passed.next (h : Passed hashedId s n i k) (hused : s.key n k ≠ .invalid)
    (hid : s.key n k ≠ .id i) : Passed hashedId s n i (s.next n k) := by
  obtain ⟨m, rfl, hm⟩ := h
  refine ⟨m + 1, rfl, fun m' hm' => ?_⟩
  rcases Nat.lt_succ_iff_lt_or_eq.1 hm' with hlt | rfl
  · exact hm m' hlt
  · exact ⟨hused, hid⟩

omit [DecidableEq I] [DecidableEq P] in
/-- A thread has one entry in a table. -/
theorem Passed.unique {k' : ℕ} (h : Passed hashedId s n i k) (h' : Passed hashedId s n i k')
    (hk : s.key n k = .id i) (hk' : s.key n k' = .id i) : k = k' := by
  obtain ⟨m, rfl, hm⟩ := h
  obtain ⟨m', rfl, hm'⟩ := h'
  rcases Nat.lt_trichotomy m m' with hlt | rfl | hlt
  · exact absurd hk (hm' m hlt).2
  · rfl
  · exact absurd hk' (hm m' hlt).2

omit [DecidableEq I] [DecidableEq P] in
/-- The probing ends at an `invalid` key only if the id is not in the table. -/
theorem Passed.noId (h : Passed hashedId s n i k) (hk : s.key n k = .invalid)
    (hent : ∀ k', s.key n k' = .id i → Passed hashedId s n i k') : s.NoId i n := by
  intro k' hk'
  obtain ⟨m, rfl, hm⟩ := h
  obtain ⟨m', rfl, hm'⟩ := hent k' hk'
  rcases Nat.lt_trichotomy m m' with hlt | rfl | hlt
  · exact (hm' m hlt).1 hk
  · rw [hk] at hk'
    cases hk'
  · exact (hm m' hlt).2 hk'

omit [DecidableEq I] [DecidableEq P] in
theorem probed_eq (hcap : (s'.hashes n).capacity = (s.hashes n).capacity) (m : ℕ) :
    probed hashedId s' n i m = probed hashedId s n i m := by
  induction m with
  | zero =>
    unfold probed ProducerHash.first
    rw [hcap]
  | succ m ih =>
    unfold probed ProducerHash.next
    rw [ih, hcap]

omit [DecidableEq I] [DecidableEq P] in
/-- What is passed stays passed: no key becomes `invalid`, and no other thread writes the id. -/
theorem Passed.mono (h : Passed hashedId s n i k)
    (hcap : (s'.hashes n).capacity = (s.hashes n).capacity)
    (hused : ∀ k', s.key n k' ≠ .invalid → s'.key n k' ≠ .invalid)
    (hid : ∀ k', s'.key n k' = .id i → s.key n k' = .id i) : Passed hashedId s' n i k := by
  obtain ⟨m, rfl, hm⟩ := h
  refine ⟨m, (probed_eq hcap m).symm, fun m' hm' => ?_⟩
  rw [probed_eq hcap]
  exact ⟨hused _ (hm m' hm').1, fun h => (hm m' hm').2 (hid _ h)⟩

omit [DecidableEq I] [DecidableEq P] in
/-- The probing may have gone around the table; it comes to `index` for a first time. -/
theorem Passed.least (h : Passed hashedId s n i k) :
    ∃ m, k = probed hashedId s n i m ∧ ∀ m' < m, probed hashedId s n i m' ≠ k ∧
      s.key n (probed hashedId s n i m') ≠ .invalid ∧ s.key n (probed hashedId s n i m') ≠ .id i := by
  classical
  obtain ⟨m, hk, hm⟩ := h
  have hex : ∃ m, probed hashedId s n i m = k := ⟨m, hk.symm⟩
  refine ⟨Nat.find hex, (Nat.find_spec hex).symm, fun m' hm' => ⟨Nat.find_min hex hm', ?_⟩⟩
  exact hm m' (Nat.lt_of_lt_of_le hm' (Nat.find_min' hex hk.symm))

/-! ### The invariant -/

/-- The producer is the thread's. -/
def Own (s : ProducerHash I P) (i : I) (p : P) : Prop :=
  p ∈ s.listeners i ∨ (s.pc i).inHand = some p

/-- Between the calls: the thread has a producer if and only if its id is in a table. -/
def Steady (s : ProducerHash I P) (i : I) : Prop :=
  (s.listeners i = [] ∧ s.Absent i) ∨ ∃ p, s.listeners i = [p] ∧ ∃ n k, s.key n k = .id i

/-- The entries of a thread. -/
def EntriesOk (hashedId : I → ℕ) (s : ProducerHash I P) (i : I) : Prop :=
  ∀ n k, s.key n k = .id i → n < s.allocated ∧ Passed hashedId s n i k ∧
    ((s.pc i).storing ≠ some (n, k) → ∃ p, s.value n k = some p ∧ s.Own i p)

/-- What a thread knows at a place of the program. -/
def PcOk (hashedId : I → ℕ) (s : ProducerHash I P) (i : I) : Pc P → Prop
  | .idle | .loadHash => s.Steady i
  | .probe mainHash hash index =>
    hash ≤ mainHash ∧ mainHash < s.allocated ∧ (∀ n, hash < n → s.NoId i n) ∧
      Passed hashedId s hash i index ∧ s.Steady i
  | .loadValue mainHash hash index =>
    hash ≤ mainHash ∧ mainHash < s.allocated ∧ (∀ n, hash < n → s.NoId i n) ∧
      s.key hash index = .id i ∧ s.Steady i
  | .addEmpty mainHash index value =>
    mainHash < s.allocated ∧ s.NoId i mainHash ∧ Passed hashedId s mainHash i index ∧
      (∃ p, value = some p ∧ s.listeners i = [p]) ∧ ∃ n k, s.key n k = .id i
  | .addReusable mainHash index value =>
    s.key mainHash index ≠ .invalid ∧ mainHash < s.allocated ∧ s.NoId i mainHash ∧
      Passed hashedId s mainHash i index ∧ (∃ p, value = some p ∧ s.listeners i = [p]) ∧
      ∃ n k, s.key n k = .id i
  | .addValue mainHash index value =>
    s.key mainHash index = .id i ∧ ∃ p, value = some p ∧ s.listeners i = [p]
  | .count mainHash | .testAndSet mainHash _ | .resize mainHash _ | .clear mainHash _
  | .loadProducers mainHash | .loadInactive mainHash _ _ | .recycle mainHash _ _ | .create mainHash
  | .countProducer mainHash _ | .loadProducerTail mainHash _ | .addProducer mainHash _ _ =>
    mainHash < s.allocated ∧ s.Absent i ∧ s.listeners i = []
  | .reloadLocked _ | .noTable | .clearNoTable | .reload _ | .noProducer =>
    s.Absent i ∧ s.listeners i = []
  | .insertReusable mainHash index producer | .insertEmpty mainHash index producer =>
    mainHash < s.allocated ∧ s.Absent i ∧ Passed hashedId s mainHash i index ∧
      s.listeners i = [producer]
  | .uncount mainHash index producer | .insertValue mainHash index producer =>
    s.key mainHash index = .id i ∧ s.listeners i = [producer]
  | .exitHash _ => s.listeners i = []
  | .exitKey _ hash index =>
    hash < s.allocated ∧ s.listeners i = [] ∧ (∀ n, hash < n → s.NoId i n) ∧
      Passed hashedId s hash i index
  | .exitInactive _ => s.listeners i = [] ∧ s.Absent i

/-- The tables are linked from the newest to the oldest. -/
structure ChainOk (s : ProducerHash I P) : Prop where
  newest : s.implicitProducerHash + 1 = s.allocated
  prev : ∀ n < s.allocated, (s.hashes n).prev = if n = 0 then none else some (n - 1)

/-- The resize lock: one thread has it, and the table it follows by another is the newest. -/
structure LockOk (s : ProducerHash I P) : Prop where
  lock : ∀ i, (s.pc i).locked = true → s.implicitProducerHashResizeInProgress = true
  alone : ∀ i j, (s.pc i).locked = true → (s.pc j).locked = true → i = j
  newest : ∀ i mainHash, (s.pc i).resizing = some mainHash → mainHash = s.implicitProducerHash

/-- A producer that exists belongs to one thread, or it is inactive. -/
structure OwnersOk (s : ProducerHash I P) : Prop where
  unique : ∀ i j p, s.Own i p → s.Own j p → i = j
  active : ∀ i p, s.Own i p → s.inactive p = false
  created : ∀ p, s.created p = true ↔ s.inactive p = true ∨ ∃ i, s.Own i p
  listed : ∀ p, s.created p = true → p ∈ s.producers ∨ ∃ i, (s.pc i).adding = some p

/-- **The invariant of the hash.** -/
structure Inv (hashedId : I → ℕ) (s : ProducerHash I P) : Prop where
  entries : ∀ i, EntriesOk hashedId s i
  place : ∀ i, PcOk hashedId s i (s.pc i)
  chain : s.ChainOk
  lock : s.LockOk
  owners : s.OwnersOk

/-! ### What a step leaves to a thread -/

/-- A step does not concern the thread: it writes no entry of the thread's, and no `invalid` key. -/
structure Kept (i : I) (s s' : ProducerHash I P) : Prop where
  listeners : s'.listeners i = s.listeners i
  allocated : s.allocated ≤ s'.allocated
  capacity : ∀ n < s.allocated, (s'.hashes n).capacity = (s.hashes n).capacity
  used : ∀ n k, n < s.allocated → s.key n k ≠ .invalid → s'.key n k ≠ .invalid
  key : ∀ n k, s'.key n k = .id i ↔ s.key n k = .id i
  value : ∀ n k, s.key n k = .id i → s'.value n k = s.value n k

namespace Kept

omit [DecidableEq I] [DecidableEq P]

theorem refl : Kept i s s where
  listeners := rfl
  allocated := Nat.le_refl _
  capacity _ _ := rfl
  used _ _ _ h := h
  key _ _ := Iff.rfl
  value _ _ _ := rfl

theorem lt (H : Kept i s s') (hn : n < s.allocated) : n < s'.allocated :=
  Nat.lt_of_lt_of_le hn H.allocated

theorem passed (H : Kept i s s') (hn : n < s.allocated) (h : Passed hashedId s n i k) :
    Passed hashedId s' n i k :=
  h.mono (H.capacity n hn) (fun k' => H.used n k' hn) fun k' => (H.key n k').1

theorem noId (H : Kept i s s') (h : s.NoId i n) : s'.NoId i n := fun k hk => h k ((H.key n k).1 hk)

theorem absent (H : Kept i s s') (h : s.Absent i) : s'.Absent i := fun n => H.noId (h n)

theorem present (H : Kept i s s') (h : ∃ n k, s.key n k = .id i) : ∃ n k, s'.key n k = .id i := by
  obtain ⟨n, k, hk⟩ := h
  exact ⟨n, k, (H.key n k).2 hk⟩

theorem steady (H : Kept i s s') (h : s.Steady i) : s'.Steady i := by
  rcases h with ⟨hl, ha⟩ | ⟨p, hl, hk⟩
  · exact .inl ⟨H.listeners.trans hl, H.absent ha⟩
  · exact .inr ⟨p, H.listeners.trans hl, H.present hk⟩

theorem own (H : Kept i s s') (hh : (s'.pc i).inHand = (s.pc i).inHand) :
    s'.Own i p ↔ s.Own i p := by
  unfold Own
  rw [H.listeners, hh]

theorem entries (H : Kept i s s') (hst : (s'.pc i).storing = (s.pc i).storing)
    (hh : (s'.pc i).inHand = (s.pc i).inHand) (h : EntriesOk hashedId s i) :
    EntriesOk hashedId s' i := by
  intro n k hk
  obtain ⟨hn, hpassed, hvalue⟩ := h n k ((H.key n k).1 hk)
  refine ⟨H.lt hn, H.passed hn hpassed, fun hne => ?_⟩
  rw [hst] at hne
  obtain ⟨p, hp, hown⟩ := hvalue hne
  exact ⟨p, (H.value n k ((H.key n k).1 hk)).trans hp, (H.own hh).2 hown⟩

/-- What a thread knows does not depend on the steps that do not concern it. -/
theorem place (H : Kept i s s') {pc : Pc P} (h : PcOk hashedId s i pc) :
    PcOk hashedId s' i pc := by
  cases pc with
  | idle | loadHash => exact H.steady h
  | probe =>
    obtain ⟨hle, hm, hno, hpassed, hst⟩ := h
    exact ⟨hle, H.lt hm, fun n hn => H.noId (hno n hn),
      H.passed (Nat.lt_of_le_of_lt hle hm) hpassed, H.steady hst⟩
  | loadValue =>
    obtain ⟨hle, hm, hno, hk, hst⟩ := h
    exact ⟨hle, H.lt hm, fun n hn => H.noId (hno n hn), (H.key _ _).2 hk, H.steady hst⟩
  | addEmpty =>
    obtain ⟨hm, hno, hpassed, ⟨p, hv, hl⟩, hk⟩ := h
    exact ⟨H.lt hm, H.noId hno, H.passed hm hpassed, ⟨p, hv, H.listeners.trans hl⟩, H.present hk⟩
  | addReusable =>
    obtain ⟨hused, hm, hno, hpassed, ⟨p, hv, hl⟩, hk⟩ := h
    exact ⟨H.used _ _ hm hused, H.lt hm, H.noId hno, H.passed hm hpassed,
      ⟨p, hv, H.listeners.trans hl⟩, H.present hk⟩
  | addValue =>
    obtain ⟨hk, p, hv, hl⟩ := h
    exact ⟨(H.key _ _).2 hk, p, hv, H.listeners.trans hl⟩
  | count | testAndSet | resize | clear | loadProducers | loadInactive | recycle | create
  | countProducer | loadProducerTail | addProducer =>
    obtain ⟨hm, ha, hl⟩ := h
    exact ⟨H.lt hm, H.absent ha, H.listeners.trans hl⟩
  | reloadLocked | noTable | clearNoTable | reload | noProducer =>
    exact ⟨H.absent h.1, H.listeners.trans h.2⟩
  | insertReusable | insertEmpty =>
    obtain ⟨hm, ha, hpassed, hl⟩ := h
    exact ⟨H.lt hm, H.absent ha, H.passed hm hpassed, H.listeners.trans hl⟩
  | uncount | insertValue => exact ⟨(H.key _ _).2 h.1, H.listeners.trans h.2⟩
  | exitHash => exact H.listeners.trans h
  | exitKey =>
    obtain ⟨hn, hl, hno, hpassed⟩ := h
    exact ⟨H.lt hn, H.listeners.trans hl, fun n hn' => H.noId (hno n hn'), H.passed hn hpassed⟩
  | exitInactive => exact ⟨H.listeners.trans h.1, H.absent h.2⟩

end Kept

end DataProxy.ProducerHash
