import DataProxy.HashInvariant

/-!
# The steps of the hash

Every access keeps the invariant.  The accesses are taken by what they change: the place of the thread
only, the lock, the key of an entry, its value, the tables, or the producers a thread has.
-/

namespace DataProxy.ProducerHash

open Function (update)

variable {I P : Type} [DecidableEq I] [DecidableEq P] {hashedId : I → ℕ} {s s' : ProducerHash I P}
  {i j : I} {n k n' k' : ℕ} {p : P} {q : Pc P} {e : Key I} {v : Option P}

/-! ### What the parts of a step change -/

section Parts

omit [DecidableEq P]

@[simp] theorem goto_pc_self : (s.goto i q).pc i = q := Function.update_self ..

theorem goto_pc_of_ne (h : j ≠ i) : (s.goto i q).pc j = s.pc j := Function.update_of_ne h ..

@[simp] theorem goto_key : (s.goto i q).key n k = s.key n k := rfl

@[simp] theorem goto_value : (s.goto i q).value n k = s.value n k := rfl

omit [DecidableEq I]

theorem setEntry_hashes (e : ImplicitProducerKVP I P) : ((s.setEntry n k e).hashes n').entries k' =
    if n' = n ∧ k' = k then e else (s.hashes n').entries k' := by
  unfold setEntry
  by_cases hn : n' = n
  · subst hn
    by_cases hk : k' = k
    · subst hk
      simp
    · simp [hk]
  · simp [hn]

@[simp] theorem setEntry_capacity (e : ImplicitProducerKVP I P) :
    ((s.setEntry n k e).hashes n').capacity = (s.hashes n').capacity := by
  unfold setEntry
  by_cases hn : n' = n
  · subst hn
    simp
  · simp [hn]

@[simp] theorem setEntry_prev (e : ImplicitProducerKVP I P) :
    ((s.setEntry n k e).hashes n').prev = (s.hashes n').prev := by
  unfold setEntry
  by_cases hn : n' = n
  · subst hn
    simp
  · simp [hn]

theorem key_setKey :
    (s.setKey n k e).key n' k' = if n' = n ∧ k' = k then e else s.key n' k' := by
  unfold key setKey
  rw [setEntry_hashes]
  split <;> rfl

@[simp] theorem value_setKey : (s.setKey n k e).value n' k' = s.value n' k' := by
  unfold value setKey
  rw [setEntry_hashes]
  split
  · rename_i h
    rw [h.1, h.2]
  · rfl

@[simp] theorem key_setValue : (s.setValue n k v).key n' k' = s.key n' k' := by
  unfold key setValue
  rw [setEntry_hashes]
  split
  · rename_i h
    rw [h.1, h.2]
  · rfl

theorem value_setValue :
    (s.setValue n k v).value n' k' = if n' = n ∧ k' = k then v else s.value n' k' := by
  unfold value setValue
  rw [setEntry_hashes]
  split <;> rfl

theorem publish_hashes_self {c : ℕ} : (s.publish n c).hashes s.allocated =
    { capacity := grow c c ((s.hashes n).capacity * 2), prev := some n } :=
  Function.update_self ..

theorem publish_hashes_of_ne {c : ℕ} (h : n' ≠ s.allocated) :
    (s.publish n c).hashes n' = s.hashes n' := Function.update_of_ne h ..

/-- The new table has no entries. -/
theorem key_publish (h : ∀ i k, s.key s.allocated k ≠ .id i) {c : ℕ} :
    (s.publish n c).key n' k' = .id i ↔ s.key n' k' = .id i := by
  unfold key
  by_cases hn : n' = s.allocated
  · subst hn
    rw [publish_hashes_self]
    constructor
    · intro hk
      cases hk
    · intro hk
      exact absurd hk (h i k')
  · rw [publish_hashes_of_ne hn]

end Parts

/-! ### The threads that do not move -/

omit [DecidableEq I] [DecidableEq P] in
/-- A key that is not the thread's is changed, and not to its id. -/
theorem kept_setKey (hk : s.key n k ≠ .id j) (he : e ≠ .id j) (hused : e ≠ .invalid) :
    Kept j s (s.setKey n k e) where
  listeners := rfl
  allocated := Nat.le_refl _
  capacity _ _ := setEntry_capacity _
  used n' k' _ h := by
    rw [key_setKey]
    split
    · exact hused
    · exact h
  key n' k' := by
    rw [key_setKey]
    split
    · rename_i h
      rw [h.1, h.2]
      exact ⟨fun h => absurd h he, fun h => absurd h hk⟩
    · exact Iff.rfl
  value n' k' _ := value_setKey

omit [DecidableEq I] [DecidableEq P] in
theorem kept_setValue (hk : s.key n k ≠ .id j) : Kept j s (s.setValue n k v) where
  listeners := rfl
  allocated := Nat.le_refl _
  capacity _ _ := setEntry_capacity _
  used n' k' _ h := by rwa [key_setValue]
  key n' k' := by rw [key_setValue]
  value n' k' h := by
    rw [value_setValue, if_neg]
    rintro ⟨rfl, rfl⟩
    exact hk h

omit [DecidableEq I] [DecidableEq P] in
theorem kept_publish (h : ∀ i k, s.key s.allocated k ≠ .id i) {c : ℕ} :
    Kept j s (s.publish n c) where
  listeners := rfl
  allocated := Nat.le_succ _
  capacity n' hn := by rw [publish_hashes_of_ne (Nat.ne_of_lt hn)]
  used n' k' hn hused := by
    unfold key
    rwa [publish_hashes_of_ne (Nat.ne_of_lt hn)]
  key _ _ := key_publish h
  value n' k' hk := by
    have hn : n' ≠ s.allocated := by
      rintro rfl
      exact h j k' hk
    unfold value
    rw [publish_hashes_of_ne hn]

omit [DecidableEq P] in
/-- The invariant after a step of `i`, from what the step leaves to the others. -/
theorem Inv.of_kept (I₀ : Inv hashedId s) (H : ∀ j, j ≠ i → Kept j s s')
    (hpc : ∀ j, j ≠ i → s'.pc j = s.pc j) (hentries : EntriesOk hashedId s' i)
    (hplace : PcOk hashedId s' i (s'.pc i)) (hchain : s'.ChainOk) (hlock : s'.LockOk)
    (howners : s'.OwnersOk) : Inv hashedId s' where
  entries j := by
    by_cases h : j = i
    · subst h
      exact hentries
    · exact (H j h).entries (by rw [hpc j h]) (by rw [hpc j h]) (I₀.entries j)
  place j := by
    by_cases h : j = i
    · subst h
      exact hplace
    · rw [hpc j h]
      exact (H j h).place (I₀.place j)
  chain := hchain
  lock := hlock
  owners := howners

omit [DecidableEq P] in
/-- The invariant after a step that does not concern the entries of any thread. -/
theorem Inv.of_kept_all (I₀ : Inv hashedId s) (H : ∀ j, Kept j s s')
    (hpc : ∀ j, j ≠ i → s'.pc j = s.pc j) (hst : (s'.pc i).storing = (s.pc i).storing)
    (hh : (s'.pc i).inHand = (s.pc i).inHand) (hplace : PcOk hashedId s i (s'.pc i))
    (hchain : s'.ChainOk) (hlock : s'.LockOk) (howners : s'.OwnersOk) : Inv hashedId s' :=
  I₀.of_kept (fun j _ => H j) hpc ((H i).entries hst hh (I₀.entries i)) ((H i).place hplace) hchain
    hlock howners

/-! ### The parts of the invariant that concern several threads -/

omit [DecidableEq P] in
theorem LockOk.goto (h : s.LockOk) (hq : q.locked = true → (s.pc i).locked = true)
    (hr : ∀ mainHash, q.resizing = some mainHash → mainHash = s.implicitProducerHash) :
    (s.goto i q).LockOk := by
  have hlocked : ∀ j, ((s.goto i q).pc j).locked = true → (s.pc j).locked = true := by
    intro j hj
    by_cases hji : j = i
    · subst hji
      rw [goto_pc_self] at hj
      exact hq hj
    · rwa [goto_pc_of_ne hji] at hj
  refine ⟨fun j hj => h.lock j (hlocked j hj),
    fun j j' hj hj' => h.alone j j' (hlocked j hj) (hlocked j' hj'), fun j m hj => ?_⟩
  by_cases hji : j = i
  · subst hji
    rw [goto_pc_self] at hj
    exact hr m hj
  · rw [goto_pc_of_ne hji] at hj
    exact h.newest j m hj

omit [DecidableEq P] in
/-- The lock is taken. -/
theorem LockOk.acquire (h : s.LockOk) (hfree : s.implicitProducerHashResizeInProgress = false)
    (hr : q.resizing = none) :
    LockOk { s.goto i q with implicitProducerHashResizeInProgress := true } := by
  have hnone : ∀ j, (s.pc j).locked = false := by
    intro j
    rw [← Bool.not_eq_true]
    intro hj
    rw [h.lock j hj] at hfree
    cases hfree
  have honly : ∀ j, ((s.goto i q).pc j).locked = true → j = i := by
    intro j hj
    by_contra hji
    rw [goto_pc_of_ne hji, hnone j] at hj
    cases hj
  refine ⟨fun _ _ => rfl, fun j j' hj hj' => (honly j hj).trans (honly j' hj').symm,
    fun j m hj => ?_⟩
  by_cases hji : j = i
  · subst hji
    rw [show ((s.goto j q).pc j) = q from goto_pc_self, hr] at hj
    cases hj
  · rw [show ((s.goto i q).pc j) = s.pc j from goto_pc_of_ne hji] at hj
    exact h.newest j m hj

omit [DecidableEq P] in
/-- The lock is given back. -/
theorem LockOk.release (h : s.LockOk) (hi : (s.pc i).locked = true) (hq : q.locked = false)
    (hr : q.resizing = none) :
    LockOk { s.goto i q with implicitProducerHashResizeInProgress := false } := by
  have hnone : ∀ j, ((s.goto i q).pc j).locked = false := by
    intro j
    by_cases hji : j = i
    · subst hji
      rw [goto_pc_self, hq]
    · rw [goto_pc_of_ne hji, ← Bool.not_eq_true]
      exact fun hj => hji (h.alone j i hj hi)
  refine ⟨fun j hj => ?_, fun j _ hj => ?_, fun j m hj => ?_⟩
  · rw [show _ = false from hnone j] at hj
    cases hj
  · rw [show _ = false from hnone j] at hj
    cases hj
  · by_cases hji : j = i
    · subst hji
      rw [show ((s.goto j q).pc j) = q from goto_pc_self, hr] at hj
      cases hj
    · rw [show ((s.goto i q).pc j) = s.pc j from goto_pc_of_ne hji] at hj
      exact h.newest j m hj

omit [DecidableEq P] in
theorem own_goto (hh : q.inHand = (s.pc i).inHand) : (s.goto i q).Own j p ↔ s.Own j p := by
  unfold Own
  by_cases hji : j = i
  · subst hji
    rw [goto_pc_self, hh]
    exact Iff.rfl
  · rw [goto_pc_of_ne hji]
    exact Iff.rfl

omit [DecidableEq P] in
theorem adding_goto (ha : q.adding = (s.pc i).adding) :
    ((s.goto i q).pc j).adding = (s.pc j).adding := by
  by_cases hji : j = i
  · subst hji
    rw [goto_pc_self, ha]
  · rw [goto_pc_of_ne hji]

omit [DecidableEq I] [DecidableEq P] in
theorem OwnersOk.congr (h : s.OwnersOk) (hown : ∀ j p, s'.Own j p ↔ s.Own j p)
    (hadding : ∀ j p, (s.pc j).adding = some p → (s'.pc j).adding = some p ∨ p ∈ s'.producers)
    (hinactive : s'.inactive = s.inactive) (hcreated : s'.created = s.created)
    (hproducers : ∀ p, p ∈ s.producers → p ∈ s'.producers) : s'.OwnersOk where
  unique i j p hi hj := h.unique i j p ((hown i p).1 hi) ((hown j p).1 hj)
  active i p hi := by
    rw [hinactive]
    exact h.active i p ((hown i p).1 hi)
  created p := by
    rw [hcreated, hinactive, h.created p]
    simp only [hown]
  listed p hp := by
    rw [hcreated] at hp
    rcases h.listed p hp with hl | ⟨i, hi⟩
    · exact .inl (hproducers p hl)
    · rcases hadding i p hi with ha | hl
      · exact .inr ⟨i, ha⟩
      · exact .inl hl

omit [DecidableEq P] in
theorem OwnersOk.goto (h : s.OwnersOk) (hh : q.inHand = (s.pc i).inHand)
    (ha : q.adding = (s.pc i).adding) : (s.goto i q).OwnersOk :=
  h.congr (fun _ _ => own_goto hh) (fun _ _ hj => .inl ((adding_goto ha).trans hj)) rfl rfl
    fun _ hp => hp

/-! ### Steps that change the place of the thread only -/

section Places

omit [DecidableEq P]

/-- Places at which the thread has neither the lock, nor a producer in its hands, nor a value to write. -/
structure Pc.Plain {P : Type} (q : Pc P) : Prop where
  storing : q.storing = none
  inHand : q.inHand = none
  adding : q.adding = none
  locked : q.locked = false
  resizing : q.resizing = none

theorem kept_goto : Kept j s (s.goto i q) where
  listeners := rfl
  allocated := Nat.le_refl _
  capacity _ _ := rfl
  used _ _ _ h := h
  key _ _ := Iff.rfl
  value _ _ _ := rfl

/-- A step that changes the place of the thread, and the counts. -/
theorem Inv.goto (I₀ : Inv hashedId s) (hq : PcOk hashedId s i q)
    (hst : q.storing = (s.pc i).storing) (hh : q.inHand = (s.pc i).inHand)
    (ha : q.adding = (s.pc i).adding) (hl : q.locked = true → (s.pc i).locked = true)
    (hr : ∀ mainHash, q.resizing = some mainHash → mainHash = s.implicitProducerHash) :
    Inv hashedId (s.goto i q) := by
  refine I₀.of_kept_all (i := i) (fun j => kept_goto) (fun j hj => goto_pc_of_ne hj) ?_ ?_ ?_
    ⟨I₀.chain.newest, I₀.chain.prev⟩ (I₀.lock.goto hl hr) (I₀.owners.goto hh ha)
  · rw [goto_pc_self, hst]
  · rw [goto_pc_self, hh]
  · rw [goto_pc_self]
    exact hq

theorem Inv.goto_plain (I₀ : Inv hashedId s) (hq : PcOk hashedId s i q) (hplain : q.Plain)
    (hpc : (s.pc i).Plain) : Inv hashedId (s.goto i q) := by
  apply I₀.goto hq
  · rw [hplain.storing, hpc.storing]
  · rw [hplain.inHand, hpc.inHand]
  · rw [hplain.adding, hpc.adding]
  · intro h
    rw [hplain.locked] at h
    cases h
  · intro m h
    rw [hplain.resizing] at h
    cases h

omit [DecidableEq I] in
/-- The counts do not matter. -/
theorem Inv.recount (I₀ : Inv hashedId s) {c c' : ℕ} :
    Inv hashedId { s with implicitProducerHashCount := c, producerCount := c' } := by
  have H : ∀ j, Kept j s { s with implicitProducerHashCount := c, producerCount := c' } := fun _ =>
    ⟨rfl, Nat.le_refl _, fun _ _ => rfl, fun _ _ _ h => h, fun _ _ => Iff.rfl, fun _ _ _ => rfl⟩
  exact ⟨fun j => (H j).entries rfl rfl (I₀.entries j), fun j => (H j).place (I₀.place j),
    ⟨I₀.chain.newest, I₀.chain.prev⟩, ⟨I₀.lock.lock, I₀.lock.alone, I₀.lock.newest⟩,
    ⟨I₀.owners.unique, I₀.owners.active, I₀.owners.created, I₀.owners.listed⟩⟩

/-- Before the insertion: the id is in no table, and the thread has no producer. -/
def New (s : ProducerHash I P) (i : I) (mainHash : ℕ) : Prop :=
  mainHash < s.allocated ∧ s.Absent i ∧ s.listeners i = []

omit [DecidableEq I] in
theorem room_plain {c : ℕ} : (s.room n c).Plain := by
  unfold room
  dsimp only
  split
  · exact ⟨rfl, rfl, rfl, rfl, rfl⟩
  · exact ⟨rfl, rfl, rfl, rfl, rfl⟩

omit [DecidableEq I] in
theorem room_ok (h : s.New i n) {c : ℕ} : PcOk hashedId s i (s.room n c) := by
  unfold room
  dsimp only
  split
  · exact h
  · exact h.2

omit [DecidableEq I] in
theorem tryInsert_plain {c : ℕ} : (s.tryInsert n c).Plain := by
  unfold tryInsert
  split
  · exact ⟨rfl, rfl, rfl, rfl, rfl⟩
  · exact room_plain

omit [DecidableEq I] in
theorem tryInsert_ok (h : s.New i n) {c : ℕ} : PcOk hashedId s i (s.tryInsert n c) := by
  unfold tryInsert
  split
  · exact h
  · exact room_ok h

omit [DecidableEq I] in
theorem recycleFrom_plain {l : List P} : (recycleFrom n l).Plain := by
  cases l with
  | nil => exact ⟨rfl, rfl, rfl, rfl, rfl⟩
  | cons ptr rest => exact ⟨rfl, rfl, rfl, rfl, rfl⟩

omit [DecidableEq I] in
theorem recycleFrom_ok (h : s.New i n) {l : List P} : PcOk hashedId s i (recycleFrom n l) := by
  cases l with
  | nil => exact h
  | cons ptr rest => exact h

omit [DecidableEq I] in
/-- From the oldest table there is none to go on to. -/
theorem ChainOk.absent (h : s.ChainOk) (hn : n < s.allocated) (hprev : (s.hashes n).prev = none)
    (hno : ∀ n', n ≤ n' → s.NoId i n') : s.Absent i := by
  rw [h.prev n hn] at hprev
  split at hprev
  · rename_i hzero
    subst hzero
    exact fun n' => hno n' (Nat.zero_le _)
  · cases hprev

omit [DecidableEq I] in
theorem ChainOk.prev_eq_some (h : s.ChainOk) (hn : n < s.allocated)
    (hprev : (s.hashes n).prev = some n') : n' + 1 = n := by
  rw [h.prev n hn] at hprev
  split at hprev
  · cases hprev
  · cases hprev
    omega

omit [DecidableEq I] in
/-- A thread that ends goes on to the next table. -/
theorem exitFrom_ok (h : s.ChainOk) (hn : n < s.allocated) (hno : ∀ n', n ≤ n' → s.NoId i n')
    (hl : s.listeners i = []) :
    PcOk hashedId s i (s.exitFrom hashedId i p (s.hashes n).prev) := by
  cases hprev : (s.hashes n).prev with
  | none => exact ⟨hl, h.absent hn hprev hno⟩
  | some n' =>
    have hn' := h.prev_eq_some hn hprev
    refine ⟨by omega, hl, fun m hm => hno m (by omega), Passed.first⟩

end Places

/-! ### Steps that change an entry -/

section Entries

omit [DecidableEq P]

theorem OwnersOk.setEntry (h : s.OwnersOk) (e : ImplicitProducerKVP I P)
    (hh : q.inHand = (s.pc i).inHand) (ha : q.adding = (s.pc i).adding) :
    ((s.setEntry n k e).goto i q).OwnersOk :=
  have hset : (s.setEntry n k e).OwnersOk :=
    h.congr (fun _ _ => Iff.rfl) (fun _ _ hj => .inl hj) rfl rfl fun _ hp => hp
  hset.goto hh ha

theorem ChainOk.setEntry (h : s.ChainOk) (e : ImplicitProducerKVP I P) :
    ((s.setEntry n k e).goto i q).ChainOk where
  newest := h.newest
  prev n' hn' := by
    show ((s.setEntry n k e).hashes n').prev = _
    rw [setEntry_prev]
    exact h.prev n' hn'

omit [DecidableEq I] in
theorem LockOk.setEntry (h : s.LockOk) (e : ImplicitProducerKVP I P) : (s.setEntry n k e).LockOk :=
  ⟨h.lock, h.alone, h.newest⟩

/-- A thread writes its id into a table that does not have it. -/
theorem Inv.claim (I₀ : Inv hashedId s) (hn : n < s.allocated) (hno : s.NoId i n)
    (hpassed : Passed hashedId s n i k) (hfree : ∀ j, s.key n k ≠ .id j) (hpc : (s.pc i).Plain)
    (hst : q.storing = some (n, k)) (hh : q.inHand = none) (ha : q.adding = none)
    (hl : q.locked = false) (hr : q.resizing = none)
    (hq : ((s.setKey n k (.id i)).goto i q).key n k = .id i →
      PcOk hashedId ((s.setKey n k (.id i)).goto i q) i q) :
    Inv hashedId ((s.setKey n k (.id i)).goto i q) := by
  have hkey : ∀ n' k', ((s.setKey n k (.id i)).goto i q).key n' k' =
      if n' = n ∧ k' = k then .id i else s.key n' k' := fun n' k' => key_setKey
  apply I₀.of_kept (i := i)
  · intro j hj
    have H : Kept j s (s.setKey n k (.id i)) :=
      kept_setKey (hfree j) (fun h => hj (Key.id.inj h).symm) nofun
    exact ⟨H.1, H.2, H.3, H.4, H.5, H.6⟩
  · exact fun j hj => goto_pc_of_ne hj
  · intro n' k' hk'
    rw [hkey] at hk'
    split at hk'
    · rename_i h
      obtain ⟨rfl, rfl⟩ := h
      refine ⟨hn, ?_, fun hne => absurd (by rw [goto_pc_self, hst]) hne⟩
      -- the entry is on the first way round the table
      obtain ⟨m, hm, hlt⟩ := hpassed.least
      have hcap : (((s.setKey n' k' (.id i)).goto i q).hashes n').capacity =
          (s.hashes n').capacity := setEntry_capacity _
      refine ⟨m, hm.trans (probed_eq hcap m).symm, fun m' hm' => ?_⟩
      rw [probed_eq hcap, hkey, if_neg (fun h => (hlt m' hm').1 h.2)]
      exact (hlt m' hm').2
    · have hne : n' ≠ n := by
        rintro rfl
        exact hno k' hk'
      obtain ⟨hn', hpassed', hvalue⟩ := I₀.entries i n' k' hk'
      refine ⟨hn', ?_, fun _ => ?_⟩
      · refine hpassed'.mono (setEntry_capacity _) (fun k'' h => ?_) fun k'' h => ?_
        · rwa [hkey, if_neg (fun h => hne h.1)]
        · rwa [hkey, if_neg (fun h => hne h.1)] at h
      · obtain ⟨p, hp, hown⟩ := hvalue (by rw [hpc.storing]; nofun)
        refine ⟨p, (value_setKey (s := s)).trans hp, ?_⟩
        rcases hown with hl | hhand
        · exact .inl hl
        · rw [hpc.inHand] at hhand
          cases hhand
  · rw [goto_pc_self]
    exact hq ((hkey n k).trans (if_pos ⟨rfl, rfl⟩))
  · exact I₀.chain.setEntry _
  · apply (I₀.lock.setEntry _).goto
    · intro h
      rw [hl] at h
      cases h
    · intro m h
      rw [hr] at h
      cases h
  · exact I₀.owners.setEntry _ (hh.trans hpc.inHand.symm) (ha.trans hpc.adding.symm)

/-- The thread writes the value of its entry, and the call returns. -/
theorem Inv.store (I₀ : Inv hashedId s) (hst : (s.pc i).storing = some (n, k))
    (hk : s.key n k = .id i) (hlist : s.listeners i = [p]) (hh : (s.pc i).inHand = none)
    (ha : (s.pc i).adding = none) : Inv hashedId ((s.setValue n k (some p)).goto i .idle) := by
  have hkey : ∀ n' k', ((s.setValue n k (some p)).goto i .idle).key n' k' = s.key n' k' :=
    fun n' k' => key_setValue
  apply I₀.of_kept (i := i)
  · intro j hj
    have H : Kept j s (s.setValue n k (some p)) := by
      apply kept_setValue
      rw [hk]
      exact fun h => hj (Key.id.inj h).symm
    exact ⟨H.1, H.2, H.3, H.4, H.5, H.6⟩
  · exact fun j hj => goto_pc_of_ne hj
  · intro n' k' hk'
    rw [hkey] at hk'
    obtain ⟨hn', hpassed, hvalue⟩ := I₀.entries i n' k' hk'
    refine ⟨hn', ?_, fun _ => ?_⟩
    · refine hpassed.mono (setEntry_capacity _) (fun k'' h => ?_) fun k'' h => ?_
      · rwa [hkey]
      · rwa [hkey] at h
    · have hval : ((s.setValue n k (some p)).goto i .idle).value n' k' =
          if n' = n ∧ k' = k then some p else s.value n' k' := value_setValue
      by_cases heq : n' = n ∧ k' = k
      · refine ⟨p, hval.trans (if_pos heq), .inl ?_⟩
        show p ∈ s.listeners i
        rw [hlist]
        exact List.mem_singleton_self p
      · obtain ⟨p', hp', hown⟩ := hvalue (by
          rw [hst]
          intro h
          cases h
          exact heq ⟨rfl, rfl⟩)
        refine ⟨p', hval.trans ((if_neg heq).trans hp'), ?_⟩
        rcases hown with hl | hhand
        · exact .inl hl
        · rw [hh] at hhand
          cases hhand
  · rw [goto_pc_self]
    exact .inr ⟨p, hlist, n, k, (hkey n k).trans hk⟩
  · exact I₀.chain.setEntry _
  · exact (I₀.lock.setEntry _).goto nofun nofun
  · exact I₀.owners.setEntry _ hh.symm ha.symm

omit [DecidableEq I] in
theorem exitFrom_pc {l : Option ℕ} : (s.exitFrom hashedId i p l).storing = none ∧
    (s.exitFrom hashedId i p l).inHand = some p ∧ (s.exitFrom hashedId i p l).adding = none ∧
    (s.exitFrom hashedId i p l).locked = false ∧ (s.exitFrom hashedId i p l).resizing = none := by
  cases l with
  | none => exact ⟨rfl, rfl, rfl, rfl, rfl⟩
  | some n => exact ⟨rfl, rfl, rfl, rfl, rfl⟩

omit [DecidableEq I] in
theorem exitFrom_congr (hcap : ∀ n, (s'.hashes n).capacity = (s.hashes n).capacity)
    {l : Option ℕ} : s'.exitFrom hashedId i p l = s.exitFrom hashedId i p l := by
  cases l with
  | none => rfl
  | some n =>
    unfold exitFrom ProducerHash.first
    dsimp only
    rw [hcap]

/-- A thread that ends takes its id out of a table. -/
theorem Inv.leave (I₀ : Inv hashedId s) (hpc : s.pc i = .exitKey p n k) (hk : s.key n k = .id i) :
    Inv hashedId ((s.setKey n k .invalid2).goto i (s.exitFrom hashedId i p (s.hashes n).prev)) := by
  obtain ⟨hn, hlist, hno, -⟩ : PcOk hashedId s i (.exitKey p n k) := hpc ▸ I₀.place i
  have hstoring : (s.pc i).storing = none := by rw [hpc]; rfl
  obtain ⟨-, hhand, hadding, hlocked, hresizing⟩ := exitFrom_pc (s := s) (i := i) (p := p)
  generalize hq : s.exitFrom hashedId i p (s.hashes n).prev = q
  have hkey : ∀ n' k', ((s.setKey n k .invalid2).goto i q).key n' k' =
      if n' = n ∧ k' = k then .invalid2 else s.key n' k' := fun n' k' => key_setKey
  have hcap : ∀ n', (((s.setKey n k .invalid2).goto i q).hashes n').capacity =
      (s.hashes n').capacity := fun _ => setEntry_capacity _
  have hused : ∀ n' k', s.key n' k' ≠ .invalid →
      ((s.setKey n k .invalid2).goto i q).key n' k' ≠ .invalid := by
    intro n' k' h
    rw [hkey]
    split
    · nofun
    · exact h
  have hid : ∀ n' k', ((s.setKey n k .invalid2).goto i q).key n' k' = .id i →
      s.key n' k' = .id i ∧ ¬ (n' = n ∧ k' = k) := by
    intro n' k' h
    rw [hkey] at h
    split at h
    · cases h
    · exact ⟨h, by assumption⟩
  have hchain : ((s.setKey n k .invalid2).goto i q).ChainOk := I₀.chain.setEntry _
  apply I₀.of_kept (i := i)
  · intro j hj
    have H : Kept j s (s.setKey n k .invalid2) := by
      refine kept_setKey ?_ nofun nofun
      rw [hk]
      exact fun h => hj (Key.id.inj h).symm
    exact ⟨H.1, H.2, H.3, H.4, H.5, H.6⟩
  · exact fun j hj => goto_pc_of_ne hj
  · intro n' k' hk'
    obtain ⟨hn', hpassed, hvalue⟩ := I₀.entries i n' k' (hid n' k' hk').1
    refine ⟨hn', hpassed.mono (hcap n') (hused n') fun k'' h => (hid n' k'' h).1, fun _ => ?_⟩
    obtain ⟨p', hp', hown⟩ := hvalue (by rw [hstoring]; nofun)
    have hsame : q.inHand = (s.pc i).inHand := by
      rw [← hq, hhand, hpc]
      rfl
    exact ⟨p', (value_setKey (s := s)).trans hp', (own_goto hsame).2 hown⟩
  · rw [goto_pc_self]
    -- the id was in the table once
    have hno' : ∀ n', n ≤ n' → ((s.setKey n k .invalid2).goto i q).NoId i n' := by
      intro n' hle k' h
      obtain ⟨hk', hne⟩ := hid n' k' h
      rcases Nat.lt_or_eq_of_le hle with hlt | rfl
      · exact hno n' hlt k' hk'
      · exact hne ⟨rfl, (I₀.entries i n k' hk').2.1.unique (I₀.entries i n k hk).2.1 hk' hk⟩
    have hok : PcOk hashedId _ i _ := exitFrom_ok (p := p) hchain hn hno' hlist
    have hprev : (((s.setKey n k .invalid2).goto i q).hashes n).prev = (s.hashes n).prev :=
      setEntry_prev _
    rw [hprev] at hok
    rwa [exitFrom_congr hcap, hq] at hok
  · exact hchain
  · apply (I₀.lock.setEntry _).goto
    · intro h
      rw [← hq, hlocked] at h
      cases h
    · intro m h
      rw [← hq, hresizing] at h
      cases h
  · apply I₀.owners.setEntry
    · rw [← hq, hhand, hpc]
      rfl
    · rw [← hq, hadding, hpc]
      rfl

/-- The larger table becomes the newest. -/
theorem Inv.publish (I₀ : Inv hashedId s) {c : ℕ} (hpc : s.pc i = .resize n c) :
    Inv hashedId ((s.publish n c).goto i (.clear s.allocated c)) := by
  have hno : ∀ j k, s.key s.allocated k ≠ .id j :=
    fun j k hk => absurd (I₀.entries j _ k hk).1 (Nat.lt_irrefl _)
  have hnewest : n = s.implicitProducerHash := I₀.lock.newest i n (by rw [hpc]; rfl)
  obtain ⟨-, habsent, hlist⟩ : PcOk hashedId s i (.resize n c) := hpc ▸ I₀.place i
  have H : ∀ j, Kept j s ((s.publish n c).goto i (.clear s.allocated c)) := by
    intro j
    have H : Kept j s (s.publish n c) := kept_publish hno
    exact ⟨H.1, H.2, H.3, H.4, H.5, H.6⟩
  apply I₀.of_kept (i := i) (fun j _ => H j)
  · exact fun j hj => goto_pc_of_ne hj
  · exact fun n' k' hk' => absurd (((H i).key n' k').1 hk') (habsent n' k')
  · rw [goto_pc_self]
    exact ⟨Nat.lt_succ_self _, (H i).absent habsent, hlist⟩
  · refine ⟨rfl, fun n' hn' => ?_⟩
    show ((s.publish n c).hashes n').prev = _
    rcases Nat.lt_succ_iff_lt_or_eq.1 hn' with hlt | rfl
    · rw [publish_hashes_of_ne (Nat.ne_of_lt hlt)]
      exact I₀.chain.prev n' hlt
    · have hmain := I₀.chain.newest
      rw [publish_hashes_self, if_neg (by omega)]
      show some n = some (s.allocated - 1)
      rw [hnewest, ← hmain, Nat.add_sub_cancel]
  · have hlocked : (s.pc i).locked = true := by rw [hpc]; rfl
    have hgoto := I₀.lock.goto (i := i) (q := .clear s.allocated c) (fun _ => hlocked) nofun
    refine ⟨hgoto.lock, hgoto.alone, fun j m hj => ?_⟩
    -- no other thread is at the same place
    exfalso
    by_cases hji : j = i
    · subst hji
      rw [goto_pc_self] at hj
      cases hj
    · rw [goto_pc_of_ne hji] at hj
      refine hji (I₀.lock.alone j i ?_ hlocked)
      cases hj' : s.pc j <;> rw [show (s.publish n c).pc j = s.pc j from rfl, hj'] at hj <;>
        first | rfl | cases hj
  · have hpublish : (s.publish n c).OwnersOk :=
      I₀.owners.congr (fun _ _ => Iff.rfl) (fun _ _ h => .inl h) rfl rfl fun _ h => h
    refine hpublish.goto ?_ ?_
    · rw [show (s.publish n c).pc i = s.pc i from rfl, hpc]
      rfl
    · rw [show (s.publish n c).pc i = s.pc i from rfl, hpc]
      rfl

end Entries

end DataProxy.ProducerHash
