import DataProxy.HashOwners

/-!
# The hash is safe

Every step keeps the invariant.  So each thread has one producer as long as it lives, which every call
returns to it, and no two threads have the same.
-/

namespace DataProxy.ProducerHash

open Function (update)

variable {I P : Type} [DecidableEq I] [DecidableEq P] {hashedId : I → ℕ} {s s' : ProducerHash I P}
  {i j : I} {n k c initialSize : ℕ} {p : P} {new : Option P}

omit [DecidableEq I] [DecidableEq P] in
theorem Inv.init : Inv hashedId (.init initialSize : ProducerHash I P) where
  entries i n k hk := by
    unfold key ProducerHash.init at hk
    dsimp only at hk
    split at hk
    · cases hk
    · cases hk
  place i := by
    refine .inl ⟨rfl, fun n k hk => ?_⟩
    unfold key ProducerHash.init at hk
    dsimp only at hk
    split at hk
    · cases hk
    · cases hk
  chain := by
    refine ⟨rfl, fun n hn => ?_⟩
    have hzero : n = 0 := Nat.lt_one_iff.1 hn
    subst hzero
    rfl
  lock := ⟨nofun, nofun, nofun⟩
  owners := by
    have hnone : ∀ i p, ¬ (ProducerHash.init initialSize : ProducerHash I P).Own i p := by
      intro i p h
      rcases h with h | h
      · exact absurd h List.not_mem_nil
      · cases h
    refine ⟨fun i j p h => absurd h (hnone i p), fun i p h => absurd h (hnone i p), fun p => ?_, nofun⟩
    constructor
    · intro h
      cases h
    · rintro (h | ⟨i, h⟩)
      · cases h
      · exact absurd h (hnone i p)

omit [DecidableEq I] [DecidableEq P] in
/-- The probing of a table has ended: the id is not in it. -/
theorem Inv.noId (I₀ : Inv hashedId s) (h : Passed hashedId s n i k) (hk : s.key n k = .invalid)
    (hno : ∀ n', n < n' → s.NoId i n') (n' : ℕ) (hn : n ≤ n') : s.NoId i n' := by
  rcases Nat.lt_or_eq_of_le hn with hlt | rfl
  · exact hno n' hlt
  · exact h.noId hk fun k' hk' => (I₀.entries i n k' hk').2.1

omit [DecidableEq I] [DecidableEq P] in
/-- A thread whose id is in no table has no producer. -/
theorem Steady.listeners (h : s.Steady i) (ha : s.Absent i) : s.listeners i = [] := by
  rcases h with ⟨hl, -⟩ | ⟨p, -, n, k, hk⟩
  · exact hl
  · exact absurd hk (ha n k)

omit [DecidableEq P] in
/-- A step after which the thread has and holds what it had before. -/
theorem Inv.goto_from (I₀ : Inv hashedId s) {pc q : Pc P} (hpc : s.pc i = pc) (hq : PcOk hashedId s i q)
    (hst : q.storing = pc.storing) (hh : q.inHand = pc.inHand) (ha : q.adding = pc.adding)
    (hl : q.locked = true → pc.locked = true)
    (hr : ∀ mainHash, q.resizing = some mainHash → mainHash = s.implicitProducerHash) :
    Inv hashedId (s.goto i q) := by
  rw [← hpc] at hst hh ha hl
  exact I₀.goto hq hst hh ha hl hr

omit [DecidableEq P] in
/-- Such a step of a thread that does not hold the resize lock. -/
theorem Inv.goto_unlocked (I₀ : Inv hashedId s) {pc q : Pc P} (hpc : s.pc i = pc)
    (hq : PcOk hashedId s i q) (hst : q.storing = pc.storing) (hh : q.inHand = pc.inHand)
    (ha : q.adding = pc.adding) (hlocked : q.locked = false) (hresizing : q.resizing = none) :
    Inv hashedId (s.goto i q) := by
  apply I₀.goto_from hpc hq hst hh ha
  · intro h
    rw [hlocked] at h
    cases h
  · intro m h
    rw [hresizing] at h
    cases h

/-- The step at a key that has been probed. -/
theorem Inv.probe (I₀ : Inv hashedId s) {m : ℕ} (hpc : s.pc i = .probe m n k)
    (h : s.accessStep hashedId i new = some s') : Inv hashedId s' := by
  obtain ⟨hle, hm, hno, hpassed, hst⟩ : PcOk hashedId s i (.probe m n k) := hpc ▸ I₀.place i
  have hn : n < s.allocated := Nat.lt_of_le_of_lt hle hm
  have hplain : (s.pc i).Plain := by rw [hpc]; exact ⟨rfl, rfl, rfl, rfl, rfl⟩
  simp only [accessStep, hpc] at h
  by_cases hinv : s.key n k = .invalid
  · have habove := I₀.noId hpassed hinv hno
    simp only [hinv] at h
    cases hprev : (s.hashes n).prev with
    | none =>
      rw [hprev] at h
      cases h
      have habsent : s.Absent i := I₀.chain.absent hn hprev habove
      exact I₀.goto_plain ⟨hm, habsent, hst.listeners habsent⟩ ⟨rfl, rfl, rfl, rfl, rfl⟩ hplain
    | some n' =>
      rw [hprev] at h
      cases h
      have hn' := I₀.chain.prev_eq_some hn hprev
      refine I₀.goto_plain ⟨by omega, hm, fun n'' h => habove n'' (by omega), Passed.first, hst⟩
        ⟨rfl, rfl, rfl, rfl, rfl⟩ hplain
  · have hstep : (if s.key n k = .id i then some (s.goto i (.loadValue m n k))
        else some (s.goto i (.probe m n (s.next n k)))) = some s' := by
      cases hk : s.key n k with
      | invalid => exact absurd hk hinv
      | invalid2 => simpa only [hk] using h
      | id j => simpa only [hk] using h
    split at hstep
    · rename_i hid
      cases hstep
      exact I₀.goto_plain ⟨hle, hm, hno, hid, hst⟩ ⟨rfl, rfl, rfl, rfl, rfl⟩ hplain
    · rename_i hid
      cases hstep
      exact I₀.goto_plain ⟨hle, hm, hno, hpassed.next hinv hid, hst⟩ ⟨rfl, rfl, rfl, rfl, rfl⟩ hplain

/-- The step of a thread that ends, at a key. -/
theorem Inv.exitKey (I₀ : Inv hashedId s) (hpc : s.pc i = .exitKey p n k)
    (h : s.accessStep hashedId i new = some s') : Inv hashedId s' := by
  obtain ⟨hn, hlist, hno, hpassed⟩ : PcOk hashedId s i (.exitKey p n k) := hpc ▸ I₀.place i
  simp only [accessStep, hpc] at h
  by_cases hinv : s.key n k = .invalid
  · simp only [hinv] at h
    cases h
    obtain ⟨hst, hhand, hadding, hlocked, hresizing⟩ :=
      exitFrom_pc (s := s) (i := i) (p := p) (l := (s.hashes n).prev)
    exact I₀.goto_unlocked hpc (exitFrom_ok I₀.chain hn (I₀.noId hpassed hinv hno) hlist) hst hhand
      hadding hlocked hresizing
  · have hstep : (if s.key n k = .id i then
        some ((s.setKey n k .invalid2).goto i (s.exitFrom hashedId i p (s.hashes n).prev))
        else some (s.goto i (.exitKey p n (s.next n k)))) = some s' := by
      cases hk : s.key n k with
      | invalid => exact absurd hk hinv
      | invalid2 => simpa only [hk] using h
      | id j => simpa only [hk] using h
    split at hstep
    · rename_i hid
      cases hstep
      exact I₀.leave hpc hid
    · rename_i hid
      cases hstep
      exact I₀.goto_unlocked hpc (q := .exitKey p n (s.next n k))
        ⟨hn, hlist, hno, hpassed.next hinv hid⟩ rfl rfl rfl rfl rfl

theorem Inv.loadHash (I₀ : Inv hashedId s) (hpc : s.pc i = .loadHash)
    (h : s.accessStep hashedId i new = some s') : Inv hashedId s' := by
  have hok := I₀.place i
  rw [hpc] at hok
  simp only [accessStep, hpc] at h
  cases h
  have hmain := I₀.chain.newest
  refine I₀.goto_plain ⟨Nat.le_refl _, by omega, fun n hn k hk => ?_, Passed.first, hok⟩
    ⟨rfl, rfl, rfl, rfl, rfl⟩ (by rw [hpc]; exact ⟨rfl, rfl, rfl, rfl, rfl⟩)
  -- an entry is in a table that exists
  have hlt := (I₀.entries i n k hk).1
  omega

theorem Inv.loadValue (I₀ : Inv hashedId s) {m : ℕ} (hpc : s.pc i = .loadValue m n k)
    (h : s.accessStep hashedId i new = some s') : Inv hashedId s' := by
  have hok := I₀.place i
  rw [hpc] at hok
  have hplain : (s.pc i).Plain := by rw [hpc]; exact ⟨rfl, rfl, rfl, rfl, rfl⟩
  obtain ⟨hle, hm, hno, hk, hst⟩ := hok
  simp only [accessStep, hpc] at h
  split at h
  · cases h
    exact I₀.goto_plain hst ⟨rfl, rfl, rfl, rfl, rfl⟩ hplain
  · rename_i hne
    cases h
    obtain ⟨p, hp, hown⟩ := (I₀.entries i n k hk).2.2 (by rw [hplain.storing]; simp)
    rcases hst with ⟨-, ha⟩ | ⟨p', hl, -⟩
    · exact absurd hk (ha n k)
    · have hmem : p ∈ s.listeners i :=
        hown.resolve_right fun h => by rw [hplain.inHand] at h; cases h
      rw [hl, List.mem_singleton] at hmem
      subst hmem
      exact I₀.goto_plain ⟨hm, hno m (by omega), Passed.first, ⟨p, hp, hl⟩, n, k, hk⟩
        ⟨rfl, rfl, rfl, rfl, rfl⟩ hplain

/-- An entry of an older table is put into the newest. -/
theorem Inv.addEmpty (I₀ : Inv hashedId s) {m : ℕ} {v : Option P} (hpc : s.pc i = .addEmpty m k v)
    (h : s.accessStep hashedId i new = some s') : Inv hashedId s' := by
  have hok := I₀.place i
  rw [hpc] at hok
  have hplain : (s.pc i).Plain := by rw [hpc]; exact ⟨rfl, rfl, rfl, rfl, rfl⟩
  obtain ⟨hm, hno, hpassed, hv, hid⟩ := hok
  simp only [accessStep, hpc] at h
  split at h
  · rename_i hinv
    cases h
    refine I₀.claim hm hno hpassed (fun j hj => ?_) hplain rfl rfl rfl rfl rfl fun hk => ⟨hk, hv⟩
    rw [hinv] at hj
    cases hj
  · rename_i hinv
    cases h
    exact I₀.goto_plain ⟨hinv, hm, hno, hpassed, hv, hid⟩ ⟨rfl, rfl, rfl, rfl, rfl⟩ hplain

theorem Inv.addReusable (I₀ : Inv hashedId s) {m : ℕ} {v : Option P} (hpc : s.pc i = .addReusable m k v)
    (h : s.accessStep hashedId i new = some s') : Inv hashedId s' := by
  have hok := I₀.place i
  rw [hpc] at hok
  have hplain : (s.pc i).Plain := by rw [hpc]; exact ⟨rfl, rfl, rfl, rfl, rfl⟩
  obtain ⟨hused, hm, hno, hpassed, hv, hid⟩ := hok
  simp only [accessStep, hpc] at h
  split at h
  · rename_i hinv
    cases h
    refine I₀.claim hm hno hpassed (fun j hj => ?_) hplain rfl rfl rfl rfl rfl fun hk => ⟨hk, hv⟩
    rw [hinv] at hj
    cases hj
  · cases h
    exact I₀.goto_plain ⟨hm, hno, hpassed.next hused (hno k), hv, hid⟩
      ⟨rfl, rfl, rfl, rfl, rfl⟩ hplain

theorem Inv.reloadLocked (I₀ : Inv hashedId s) (hpc : s.pc i = .reloadLocked c)
    (h : s.accessStep hashedId i new = some s') : Inv hashedId s' := by
  have hok := I₀.place i
  rw [hpc] at hok
  have hmain := I₀.chain.newest
  simp only [accessStep, hpc] at h
  split at h
  · cases h
    exact I₀.goto_from hpc (q := .resize s.implicitProducerHash c) ⟨by omega, hok⟩ rfl rfl rfl
      (fun _ => rfl) fun m hm => (Option.some.inj hm).symm
  · cases h
    exact I₀.goto_from hpc (q := .clear s.implicitProducerHash c) ⟨by omega, hok⟩ rfl rfl rfl
      (fun _ => rfl) fun _ h => by cases h

theorem Inv.resize (I₀ : Inv hashedId s) {m : ℕ} (hpc : s.pc i = .resize m c)
    (h : s.accessStep hashedId i new = some s') : Inv hashedId s' := by
  have hok := I₀.place i
  rw [hpc] at hok
  simp only [accessStep, hpc] at h
  cases new with
  | none =>
    cases h
    exact I₀.goto_from hpc (q := .noTable) hok.2 rfl rfl rfl (fun _ => rfl)
      fun _ h => by cases h
  | some _ =>
    cases h
    exact I₀.publish hpc

theorem Inv.noTable (I₀ : Inv hashedId s) (hpc : s.pc i = .noTable)
    (h : s.accessStep hashedId i new = some s') : Inv hashedId s' := by
  have hok := I₀.place i
  rw [hpc] at hok
  simp only [accessStep, hpc] at h
  cases h
  exact Inv.recount (I₀.goto_from hpc (q := .clearNoTable) hok rfl rfl rfl (fun _ => rfl)
    fun _ h => by cases h)

theorem Inv.insertReusable (I₀ : Inv hashedId s) {m : ℕ} (hpc : s.pc i = .insertReusable m k p)
    (h : s.accessStep hashedId i new = some s') : Inv hashedId s' := by
  have hok := I₀.place i
  rw [hpc] at hok
  have hplain : (s.pc i).Plain := by rw [hpc]; exact ⟨rfl, rfl, rfl, rfl, rfl⟩
  obtain ⟨hm, ha, hpassed, hl⟩ := hok
  simp only [accessStep, hpc] at h
  split at h
  · rename_i hinv
    cases h
    refine I₀.claim hm (ha m) hpassed (fun j hj => ?_) hplain rfl rfl rfl rfl rfl fun hk => ⟨hk, hl⟩
    rw [hinv] at hj
    cases hj
  · cases h
    exact I₀.goto_plain ⟨hm, ha, hpassed, hl⟩ ⟨rfl, rfl, rfl, rfl, rfl⟩ hplain

theorem Inv.insertEmpty (I₀ : Inv hashedId s) {m : ℕ} (hpc : s.pc i = .insertEmpty m k p)
    (h : s.accessStep hashedId i new = some s') : Inv hashedId s' := by
  have hok := I₀.place i
  rw [hpc] at hok
  have hplain : (s.pc i).Plain := by rw [hpc]; exact ⟨rfl, rfl, rfl, rfl, rfl⟩
  obtain ⟨hm, ha, hpassed, hl⟩ := hok
  simp only [accessStep, hpc] at h
  split at h
  · rename_i hinv
    cases h
    refine I₀.claim hm (ha m) hpassed (fun j hj => ?_) hplain rfl rfl rfl rfl rfl fun hk => ⟨hk, hl⟩
    rw [hinv] at hj
    cases hj
  · rename_i hinv
    cases h
    exact I₀.goto_plain ⟨hm, ha, hpassed.next hinv (ha m k), hl⟩ ⟨rfl, rfl, rfl, rfl, rfl⟩ hplain

theorem Inv.exitHash (I₀ : Inv hashedId s) (hpc : s.pc i = .exitHash p)
    (h : s.accessStep hashedId i new = some s') : Inv hashedId s' := by
  have hok := I₀.place i
  rw [hpc] at hok
  have hmain := I₀.chain.newest
  simp only [accessStep, hpc] at h
  cases h
  refine I₀.goto_unlocked hpc (q := .exitKey p s.implicitProducerHash _)
    ⟨by omega, hok, fun n hn k hk => ?_, Passed.first⟩ rfl rfl rfl rfl rfl
  have hlt := (I₀.entries i n k hk).1
  omega

/-- Every access keeps the invariant. -/
theorem Inv.access (I₀ : Inv hashedId s) (h : s.accessStep hashedId i new = some s') :
    Inv hashedId s' := by
  have hok := I₀.place i
  cases hpc : s.pc i with
  | probe m n k => exact I₀.probe hpc h
  | exitKey p n k => exact I₀.exitKey hpc h
  | idle =>
    simp only [accessStep, hpc] at h
    cases h
  | loadHash => exact I₀.loadHash hpc h
  | loadValue m n k => exact I₀.loadValue hpc h
  | addEmpty m k v => exact I₀.addEmpty hpc h
  | addReusable m k v => exact I₀.addReusable hpc h
  | addValue m k v =>
    rw [hpc] at hok
    obtain ⟨hk, p, rfl, hl⟩ := hok
    simp only [accessStep, hpc] at h
    cases h
    apply I₀.store _ hk hl
    · rw [hpc]
      rfl
    · rw [hpc]
      rfl
    · rw [hpc]
      rfl
  | count m =>
    rw [hpc] at hok
    have hplain : (s.pc i).Plain := by rw [hpc]; exact ⟨rfl, rfl, rfl, rfl, rfl⟩
    simp only [accessStep, hpc] at h
    cases h
    exact (I₀.goto_plain (tryInsert_ok hok) tryInsert_plain hplain).recount
  | testAndSet m c =>
    rw [hpc] at hok
    have hplain : (s.pc i).Plain := by rw [hpc]; exact ⟨rfl, rfl, rfl, rfl, rfl⟩
    simp only [accessStep, hpc] at h
    split at h
    · cases h
      exact I₀.goto_plain (room_ok hok) room_plain hplain
    · rename_i hfree
      cases h
      exact I₀.acquire hpc (Bool.not_eq_true _ ▸ hfree)
  | reloadLocked c => exact I₀.reloadLocked hpc h
  | resize m c => exact I₀.resize hpc h
  | clear m c =>
    rw [hpc] at hok
    simp only [accessStep, hpc] at h
    cases h
    apply I₀.release _ _ _ _ room_plain (room_ok hok)
    · rw [hpc]
      rfl
    · rw [hpc]
      rfl
    · rw [hpc]
      rfl
    · rw [hpc]
      rfl
  | noTable => exact I₀.noTable hpc h
  | clearNoTable =>
    rw [hpc] at hok
    simp only [accessStep, hpc] at h
    cases h
    apply I₀.release _ _ _ _ (q := .idle) ⟨rfl, rfl, rfl, rfl, rfl⟩ (.inl hok.symm)
    · rw [hpc]
      rfl
    · rw [hpc]
      rfl
    · rw [hpc]
      rfl
    · rw [hpc]
      rfl
  | reload c =>
    rw [hpc] at hok
    have hplain : (s.pc i).Plain := by rw [hpc]; exact ⟨rfl, rfl, rfl, rfl, rfl⟩
    have hmain := I₀.chain.newest
    simp only [accessStep, hpc] at h
    cases h
    exact I₀.goto_plain (tryInsert_ok ⟨by omega, hok⟩) tryInsert_plain hplain
  | loadProducers m =>
    rw [hpc] at hok
    have hplain : (s.pc i).Plain := by rw [hpc]; exact ⟨rfl, rfl, rfl, rfl, rfl⟩
    simp only [accessStep, hpc] at h
    cases h
    exact I₀.goto_plain (recycleFrom_ok hok) recycleFrom_plain hplain
  | loadInactive m p l =>
    rw [hpc] at hok
    have hplain : (s.pc i).Plain := by rw [hpc]; exact ⟨rfl, rfl, rfl, rfl, rfl⟩
    simp only [accessStep, hpc] at h
    split at h
    · cases h
      exact I₀.goto_plain hok ⟨rfl, rfl, rfl, rfl, rfl⟩ hplain
    · cases h
      exact I₀.goto_plain (recycleFrom_ok hok) recycleFrom_plain hplain
  | recycle m p l =>
    rw [hpc] at hok
    have hplain : (s.pc i).Plain := by rw [hpc]; exact ⟨rfl, rfl, rfl, rfl, rfl⟩
    simp only [accessStep, hpc] at h
    split at h
    · rename_i hinactive
      cases h
      exact I₀.recycle hpc hinactive
    · cases h
      exact I₀.goto_plain (recycleFrom_ok hok) recycleFrom_plain hplain
  | create m =>
    rw [hpc] at hok
    have hplain : (s.pc i).Plain := by rw [hpc]; exact ⟨rfl, rfl, rfl, rfl, rfl⟩
    simp only [accessStep, hpc] at h
    cases new with
    | none =>
      cases h
      exact I₀.goto_plain hok.2 ⟨rfl, rfl, rfl, rfl, rfl⟩ hplain
    | some p =>
      dsimp only at h
      split at h
      · cases h
      · rename_i hcreated
        cases h
        exact I₀.create hpc (Bool.not_eq_true _ ▸ hcreated)
  | noProducer =>
    rw [hpc] at hok
    have hplain : (s.pc i).Plain := by rw [hpc]; exact ⟨rfl, rfl, rfl, rfl, rfl⟩
    simp only [accessStep, hpc] at h
    cases h
    exact (I₀.goto_plain (q := .idle) (.inl hok.symm) ⟨rfl, rfl, rfl, rfl, rfl⟩ hplain).recount
  | countProducer m p =>
    rw [hpc] at hok
    simp only [accessStep, hpc] at h
    cases h
    exact Inv.recount (c := s.implicitProducerHashCount)
      (I₀.goto_unlocked hpc (q := .loadProducerTail m p) hok rfl rfl rfl rfl rfl)
  | loadProducerTail m p =>
    rw [hpc] at hok
    simp only [accessStep, hpc] at h
    cases h
    exact I₀.goto_unlocked hpc (q := .addProducer m p s.producers.head?) hok rfl rfl rfl rfl rfl
  | addProducer m p o =>
    rw [hpc] at hok
    simp only [accessStep, hpc] at h
    split at h
    · cases h
      exact I₀.addProducer hpc
    · cases h
      exact I₀.goto_unlocked hpc (q := .addProducer m p s.producers.head?) hok rfl rfl rfl rfl rfl
  | insertReusable m k p => exact I₀.insertReusable hpc h
  | insertEmpty m k p => exact I₀.insertEmpty hpc h
  | uncount m k p =>
    rw [hpc] at hok
    simp only [accessStep, hpc] at h
    cases h
    exact Inv.recount (I₀.goto_unlocked hpc (q := .insertValue m k p) hok rfl rfl rfl rfl rfl)
  | insertValue m k p =>
    rw [hpc] at hok
    simp only [accessStep, hpc] at h
    cases h
    apply I₀.store _ hok.1 hok.2
    · rw [hpc]
      rfl
    · rw [hpc]
      rfl
    · rw [hpc]
      rfl
  | exitHash p => exact I₀.exitHash hpc h
  | exitInactive p =>
    simp only [accessStep, hpc] at h
    cases h
    exact I₀.exitInactive hpc

/-- Every step keeps the invariant. -/
theorem Inv.next (I₀ : Inv hashedId s) {act : Action I P} (h : step hashedId s act = some s') :
    Inv hashedId s' := by
  cases act with
  | call i =>
    simp only [step] at h
    split at h
    · rename_i hpc
      cases h
      have hst : PcOk hashedId s i .idle := hpc ▸ I₀.place i
      exact I₀.goto_plain (q := .loadHash) hst ⟨rfl, rfl, rfl, rfl, rfl⟩
        (by rw [hpc]; exact ⟨rfl, rfl, rfl, rfl, rfl⟩)
    · cases h
  | exit i =>
    simp only [step] at h
    split at h
    · rename_i hpc
      cases h
      exact I₀.notify hpc
    · cases h
  | access i new => exact I₀.access h

abbrev Reached (hashedId : I → ℕ) (initialSize : ℕ) : ProducerHash I P → Prop :=
  Run.Reach (step hashedId) Run.Any (.init initialSize)

theorem Reached.inv (h : Reached hashedId initialSize s) : Inv hashedId s :=
  h.invariant Inv.init fun _ _ _ _ I₀ _ hs => I₀.next hs

/-! ### What the calls return -/

/-- An access other than the last one of a thread that ends: what the thread has, it keeps. -/
theorem access_move (h : s.accessStep hashedId i new = some s')
    (hne : ∀ p, s.pc i ≠ .exitInactive p) :
    ∃ q l, s'.pc = update s.pc i q ∧ s'.listeners = update s.listeners i (l ++ s.listeners i) ∧
      ∀ p, (s.pc i).inHand = some p → q.inHand = some p ∨ p ∈ l := by
  have stay : ∀ q, s'.pc = update s.pc i q → s'.listeners = s.listeners →
      (∀ p, (s.pc i).inHand = some p → q.inHand = some p) →
      ∃ q l, s'.pc = update s.pc i q ∧ s'.listeners = update s.listeners i (l ++ s.listeners i) ∧
        ∀ p, (s.pc i).inHand = some p → q.inHand = some p ∨ p ∈ l := by
    intro q hpc hl hh
    refine ⟨q, [], hpc, ?_, fun p hp => .inl (hh p hp)⟩
    rw [hl]
    exact (Function.update_eq_self i _).symm
  cases hpc : s.pc i with
  | exitInactive p => exact absurd hpc (hne p)
  | recycle m p l =>
    simp only [accessStep, hpc] at h
    split at h
    · cases h
      exact ⟨_, [p], rfl, rfl, nofun⟩
    · cases h
      exact hpc ▸ stay _ rfl rfl (by rw [hpc]; nofun)
  | addProducer m p o =>
    simp only [accessStep, hpc] at h
    split at h
    · cases h
      exact ⟨_, [p], rfl, rfl, fun p' hp => .inr (List.mem_singleton.2 (Option.some.inj hp).symm)⟩
    · cases h
      exact hpc ▸ stay (.addProducer m p s.producers.head?) rfl rfl (by rw [hpc]; exact fun _ h => h)
  | countProducer m p =>
    simp only [accessStep, hpc] at h
    cases h
    exact hpc ▸ stay (.loadProducerTail m p) rfl rfl (by rw [hpc]; exact fun _ h => h)
  | loadProducerTail m p =>
    simp only [accessStep, hpc] at h
    cases h
    exact hpc ▸ stay (.addProducer m p s.producers.head?) rfl rfl (by rw [hpc]; exact fun _ h => h)
  | exitHash p =>
    simp only [accessStep, hpc] at h
    cases h
    exact hpc ▸ stay _ rfl rfl (by rw [hpc, exitFrom_pc.2.1]; exact fun _ h => h)
  | exitKey p n k =>
    simp only [accessStep, hpc] at h
    repeat' split at h
    all_goals cases h
    · exact hpc ▸ stay _ rfl rfl (by rw [hpc, exitFrom_pc.2.1]; exact fun _ h => h)
    · exact hpc ▸ stay _ rfl rfl (by rw [hpc, exitFrom_pc.2.1]; exact fun _ h => h)
    · exact hpc ▸ stay (.exitKey p n (s.next n k)) rfl rfl (by rw [hpc]; exact fun _ h => h)
  | idle =>
    simp only [accessStep, hpc] at h
    cases h
  | loadHash | probe | loadValue | addEmpty | addReusable | addValue | count | testAndSet
  | reloadLocked | resize | clear | noTable | clearNoTable | reload | loadProducers | loadInactive
  | create | noProducer | insertReusable | insertEmpty | uncount | insertValue =>
    simp only [accessStep, hpc] at h
    repeat' split at h
    all_goals first
      | cases h
        exact hpc ▸ stay _ rfl rfl (by rw [hpc]; nofun)
      | cases h

theorem own_access (h : s.accessStep hashedId i new = some s')
    (hne : ∀ p, s.pc i ≠ .exitInactive p) (hown : s.Own j p) : s'.Own j p := by
  obtain ⟨q, l, hpc, hl, hhand⟩ := access_move h hne
  rw [own_of_update hpc hl]
  split
  · rename_i hji
    subst hji
    rcases hown with hmem | hhand'
    · exact .inl (List.mem_append_right l hmem)
    · rcases hhand p hhand' with hq | hmem
      · exact .inr hq
      · exact .inl (List.mem_append_left _ hmem)
  · exact hown

/-- At the end of another thread. -/
theorem own_exitInactive (I₀ : Inv hashedId s) {p' : P} (hpc : s.pc i = .exitInactive p')
    (h : s.accessStep hashedId i new = some s') (hji : j ≠ i) (hown : s.Own j p) : s'.Own j p := by
  obtain ⟨hlist, -⟩ : PcOk hashedId s i (.exitInactive p') := hpc ▸ I₀.place i
  simp only [accessStep, hpc] at h
  cases h
  have hl : s.listeners = update s.listeners i [] := (Function.update_eq_self_iff.2 hlist.symm).symm
  rw [exitInactive_eq hlist]
  have hiff : Own { s.goto i .idle with inactive := update s.inactive p' true } j p ↔
      if j = i then p ∈ [] ∨ Pc.idle.inHand = some p else s.Own j p := own_of_update rfl hl
  rw [hiff, if_neg hji]
  exact hown

omit [DecidableEq I] [DecidableEq P] in
/-- A thread listens for its end at most once. -/
theorem Inv.listeners (I₀ : Inv hashedId s) (i : I) :
    s.listeners i = [] ∨ ∃ p, s.listeners i = [p] ∧ (s.pc i).inHand = none := by
  have hsteady : s.Steady i → s.listeners i = [] ∨ ∃ p, s.listeners i = [p] := by
    rintro (h | ⟨p, h, -⟩)
    · exact .inl h.1
    · exact .inr ⟨p, h⟩
  have hok := I₀.place i
  cases hpc : s.pc i with
  | idle | loadHash =>
    rw [hpc] at hok
    exact (hsteady hok).imp id fun ⟨p, h⟩ => ⟨p, h, rfl⟩
  | probe | loadValue =>
    rw [hpc] at hok
    exact (hsteady hok.2.2.2.2).imp id fun ⟨p, h⟩ => ⟨p, h, rfl⟩
  | addEmpty =>
    rw [hpc] at hok
    obtain ⟨-, -, -, ⟨p, -, h⟩, -⟩ := hok
    exact .inr ⟨p, h, rfl⟩
  | addReusable =>
    rw [hpc] at hok
    obtain ⟨-, -, -, -, ⟨p, -, h⟩, -⟩ := hok
    exact .inr ⟨p, h, rfl⟩
  | addValue =>
    rw [hpc] at hok
    obtain ⟨-, p, -, h⟩ := hok
    exact .inr ⟨p, h, rfl⟩
  | count | testAndSet | resize | clear | loadProducers | loadInactive | recycle | create
  | countProducer | loadProducerTail | addProducer =>
    rw [hpc] at hok
    exact .inl hok.2.2
  | reloadLocked | noTable | clearNoTable | reload | noProducer =>
    rw [hpc] at hok
    exact .inl hok.2
  | insertReusable _ _ p | insertEmpty _ _ p =>
    rw [hpc] at hok
    exact .inr ⟨p, hok.2.2.2, rfl⟩
  | uncount _ _ p | insertValue _ _ p =>
    rw [hpc] at hok
    exact .inr ⟨p, hok.2, rfl⟩
  | exitHash =>
    rw [hpc] at hok
    exact .inl hok
  | exitKey =>
    rw [hpc] at hok
    exact .inl hok.2.1
  | exitInactive =>
    rw [hpc] at hok
    exact .inl hok.1

omit [DecidableEq I] [DecidableEq P] in
theorem Inv.own_one (I₀ : Inv hashedId s) {p' : P} (h : s.Own i p) (h' : s.Own i p') : p = p' := by
  unfold Own at h h'
  rcases I₀.listeners i with hl | ⟨q, hl, hhand⟩
  · rw [hl] at h h'
    have hp := h.resolve_left List.not_mem_nil
    have hp' := h'.resolve_left List.not_mem_nil
    exact Option.some.inj (hp.symm.trans hp')
  · rw [hl, hhand, List.mem_singleton] at h h'
    rw [h.resolve_right nofun, h'.resolve_right nofun]

omit [DecidableEq I] [DecidableEq P] in
/-- What a call returns is the producer of the thread. -/
theorem Inv.returning (I₀ : Inv hashedId s) (h : s.returning i = some p) : p ∈ s.listeners i := by
  have hok := I₀.place i
  unfold ProducerHash.returning at h
  cases hpc : s.pc i with
  | loadValue m n k =>
    rw [hpc] at hok h
    dsimp only at h
    split at h
    · obtain ⟨p', hp', hown⟩ := (I₀.entries i n k hok.2.2.2.1).2.2 (by rw [hpc]; nofun)
      rw [h] at hp'
      cases hp'
      exact hown.resolve_right fun hh => by rw [hpc] at hh; cases hh
    · cases h
  | addValue m k v =>
    rw [hpc] at hok h
    obtain ⟨-, p', rfl, hl⟩ := hok
    cases h
    rw [hl]
    exact List.mem_singleton_self _
  | insertValue m k p' =>
    rw [hpc] at hok h
    cases h
    rw [hok.2]
    exact List.mem_singleton_self _
  | _ =>
    rw [hpc] at h
    cases h

/-- The entry whose value the next access of the thread reads or writes. -/
def Pc.touches {P : Type} : Pc P → Option (ℕ × ℕ)
  | .loadValue _ hash index => some (hash, index)
  | .addValue mainHash index _ | .insertValue mainHash index _ => some (mainHash, index)
  | _ => none

omit [DecidableEq I] [DecidableEq P] in
/-- A thread touches the value of its own entries only. -/
theorem Inv.touches (I₀ : Inv hashedId s) (h : (s.pc i).touches = some (n, k)) :
    s.key n k = .id i := by
  have hok := I₀.place i
  cases hpc : s.pc i with
  | loadValue =>
    rw [hpc] at hok h
    cases h
    exact hok.2.2.2.1
  | addValue | insertValue =>
    rw [hpc] at hok h
    cases h
    exact hok.1
  | _ =>
    rw [hpc] at h
    cases h

/-! ### Whole runs -/

/-- The next access is the last one of the thread. -/
def Pc.ends {P : Type} : Pc P → Bool
  | .exitInactive _ => true
  | _ => false

/-- The producers that the calls of each thread have returned, since the thread has begun. -/
def record (s : ProducerHash I P) (act : Action I P) (given : I → List P) : I → List P :=
  match act with
  | .access i _ =>
    if (s.pc i).ends then update given i []
    else
      match s.returning i with
      | some p => update given i (p :: given i)
      | none => given
  | _ => given

omit [DecidableEq P] in
theorem mem_record {act : Action I P} {given : I → List P} (h : p ∈ s.record act given j) :
    (∃ new, act = .access j new ∧ s.returning j = some p) ∨
      p ∈ given j ∧ ∀ new, act = .access j new → (s.pc j).ends = false := by
  cases act with
  | call i => exact .inr ⟨h, nofun⟩
  | exit i => exact .inr ⟨h, nofun⟩
  | access i new =>
    unfold record at h
    dsimp only at h
    split at h
    · by_cases hji : j = i
      · subst hji
        rw [Function.update_self] at h
        exact absurd h List.not_mem_nil
      · rw [Function.update_of_ne hji] at h
        refine .inr ⟨h, fun new' hact => ?_⟩
        cases hact
        exact absurd rfl hji
    · rename_i hends
      have hold : ∀ new', Action.access i new = .access j new' → (s.pc j).ends = false := by
        rintro new' ⟨⟩
        exact Bool.eq_false_iff.2 hends
      cases hret : s.returning i with
      | none =>
        rw [hret] at h
        exact .inr ⟨h, hold⟩
      | some p' =>
        rw [hret] at h
        dsimp only at h
        by_cases hji : j = i
        · subst hji
          rw [Function.update_self, List.mem_cons] at h
          rcases h with rfl | h
          · exact .inl ⟨new, rfl, hret⟩
          · exact .inr ⟨h, hold⟩
        · rw [Function.update_of_ne hji] at h
          exact .inr ⟨h, hold⟩

/-- What is given to a thread is the thread's. -/
theorem Inv.given (I₀ : Inv hashedId s) {act : Action I P} {given : I → List P}
    (hgiven : ∀ i p, p ∈ given i → s.Own i p) (hs : step hashedId s act = some s') (j : I) (p : P)
    (hp : p ∈ s.record act given j) : s'.Own j p := by
  rcases mem_record hp with ⟨new, rfl, hret⟩ | ⟨hmem, hne⟩
  · have hkeep : ∀ p', s.pc j ≠ .exitInactive p' := by
      intro p' hpc
      unfold ProducerHash.returning at hret
      rw [hpc] at hret
      cases hret
    exact own_access hs hkeep (.inl (I₀.returning hret))
  · have hown := hgiven j p hmem
    cases act with
    | call i =>
      simp only [step] at hs
      split at hs
      · rename_i hpc
        cases hs
        exact (own_goto (by rw [hpc]; rfl)).2 hown
      · cases hs
    | exit i =>
      simp only [step] at hs
      split at hs
      · rename_i hpc
        cases hs
        have hst : PcOk hashedId s i .idle := hpc ▸ I₀.place i
        exact (own_notify hst hpc j p).2 hown
      · cases hs
    | access i new =>
      by_cases hexit : ∃ p', s.pc i = .exitInactive p'
      · obtain ⟨p', hpc⟩ := hexit
        have hji : j ≠ i := by
          rintro rfl
          have hends := hne new rfl
          rw [hpc] at hends
          cases hends
        exact own_exitInactive I₀ hpc hs hji hown
      · exact own_access hs (fun p' hpc => hexit ⟨p', hpc⟩) hown

/-- **One producer for each thread.**  As long as a thread lives all its calls return the same
producer, no other thread is given that one, and no two threads are at the value of one entry. -/
theorem producer_per_thread {given : I → List P}
    (h : Run.Reach (Run.logged (step hashedId) record) Run.Any
      ((.init initialSize : ProducerHash I P), fun _ => []) (s, given)) :
    (∀ i p p', p ∈ given i → p' ∈ given i → p = p') ∧
      (∀ i j p, p ∈ given i → p ∈ given j → i = j) ∧
      ∀ i j n k, (s.pc i).touches = some (n, k) → (s.pc j).touches = some (n, k) → i = j := by
  have hinv : Inv hashedId s ∧ ∀ i p, p ∈ given i → s.Own i p := by
    refine h.invariant (I := fun y => Inv hashedId y.1 ∧ ∀ i p, p ∈ y.2 i → y.1.Own i p)
      ⟨Inv.init, nofun⟩ ?_
    rintro ⟨s₁, given₁⟩ act ⟨s₂, given₂⟩ - ⟨I₁, hgiven⟩ - hstep
    obtain ⟨hs, rfl⟩ := Run.logged_eq_some.1 hstep
    exact ⟨I₁.next hs, I₁.given hgiven hs⟩
  obtain ⟨I₀, hgiven⟩ := hinv
  refine ⟨fun i p p' hp hp' => I₀.own_one (hgiven i p hp) (hgiven i p' hp'),
    fun i j p hi hj => I₀.owners.unique i j p (hgiven i p hi) (hgiven j p hj), ?_⟩
  intro i j n k hi hj
  exact Key.id.inj ((I₀.touches hi).symm.trans (I₀.touches hj))

/-- Two threads come at once and the table is resized; one finds its id in the older table, the other
ends and a third one takes its producer. -/
def recycled : List (Action ℕ ℕ) :=
  [.call 0, .call 1] ++ (List.replicate 11 [.access 0 (some 10), .access 1 (some 11)]).flatten ++
    List.replicate 5 (.access 1 (some 11)) ++
    .call 0 :: List.replicate 6 (.access 0 none) ++
    .exit 1 :: List.replicate 4 (.access 1 none) ++
    .call 2 :: List.replicate 10 (.access 2 none)

theorem producer_per_thread_recycled : ∃ (s : ProducerHash ℕ ℕ) (given : ℕ → List ℕ),
    given 0 = [10, 10] ∧ given 2 = [11] ∧
      (∀ i p p', p ∈ given i → p' ∈ given i → p = p') ∧
      (∀ i j p, p ∈ given i → p ∈ given j → i = j) ∧
      ∀ i j n k, (s.pc i).touches = some (n, k) → (s.pc j).touches = some (n, k) → i = j := by
  have hrun : (Run.exec (Run.logged (step id) record)
      ((.init 4 : ProducerHash ℕ ℕ), fun _ => []) recycled).any
      (fun x => decide (x.2 0 = [10, 10] ∧ x.2 2 = [11])) = true := by
    decide +kernel
  obtain ⟨⟨s, given⟩, hr, h₀, h₂⟩ := Run.exists_reach_of_exec hrun
  exact ⟨s, given, h₀, h₂, producer_per_thread hr⟩

/-- **No producer is lost or shared.**  A producer that has been made is inactive, or it belongs to
exactly one thread; and the one a thread enqueues to is in the list in which the consumers look. -/
theorem producers_partitioned (h : Reached hashedId initialSize s) (hp : s.created p = true) :
    (s.inactive p = true ∧ (∀ i, ¬ s.Own i p) ∨ s.inactive p = false ∧ ∃! i, s.Own i p) ∧
      ∀ i, p ∈ s.listeners i → p ∈ s.producers := by
  have I₀ := h.inv
  constructor
  · rcases (I₀.owners.created p).1 hp with hi | ⟨i, hi⟩
    · refine .inl ⟨hi, fun i ho => ?_⟩
      rw [I₀.owners.active i p ho] at hi
      cases hi
    · exact .inr ⟨I₀.owners.active i p hi, i, hi, fun j hj => I₀.owners.unique j i p hj hi⟩
  · intro i hi
    rcases I₀.owners.listed p hp with hl | ⟨j, hj⟩
    · exact hl
    · exfalso
      have hhand : (s.pc j).inHand = some p := by
        cases hpc : s.pc j <;> rw [hpc] at hj <;> first | exact hj | cases hj
      have hji := I₀.owners.unique j i p (.inr hhand) (.inl hi)
      subst hji
      rcases I₀.listeners j with hl | ⟨q, -, hnone⟩
      · rw [hl] at hi
        exact List.not_mem_nil hi
      · rw [hnone] at hhand
        cases hhand

theorem producers_partitioned_recycled : ∃ s : ProducerHash ℕ ℕ, s.producers = [11, 10] ∧
    (s.inactive 11 = true ∧ (∀ i, ¬ s.Own i 11) ∨ s.inactive 11 = false ∧ ∃! i, s.Own i 11) ∧
      ∀ i, 11 ∈ s.listeners i → 11 ∈ s.producers := by
  have hrun : (Run.exec (step id) (.init 4 : ProducerHash ℕ ℕ) recycled).any
      (fun s => decide (s.producers = [11, 10] ∧ s.created 11 = true)) = true := by
    decide +kernel
  obtain ⟨s, hr, hlist, hcreated⟩ := Run.exists_reach_of_exec hrun
  exact ⟨s, hlist, producers_partitioned hr hcreated⟩

end DataProxy.ProducerHash
