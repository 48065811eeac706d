import DataProxy.HashSteps

/-!
# The resize lock, and the producers of the threads

The steps that take the lock or give it back, and those by which a thread gets its producer and loses
it.
-/

namespace DataProxy.ProducerHash

open Function (update)

variable {I P : Type} [DecidableEq I] [DecidableEq P] {hashedId : I → ℕ} {s s' : ProducerHash I P}
  {i j : I} {n k c : ℕ} {p p' : P} {q : Pc P}

/-! ### The lock -/

omit [DecidableEq P] in
theorem Inv.acquire (I₀ : Inv hashedId s) (hpc : s.pc i = .testAndSet n c)
    (hfree : s.implicitProducerHashResizeInProgress = false) :
    Inv hashedId { s.goto i (.reloadLocked c) with implicitProducerHashResizeInProgress := true } := by
  obtain ⟨-, habsent, hlist⟩ : PcOk hashedId s i (.testAndSet n c) := hpc ▸ I₀.place i
  have hpc' : (s.goto i (.reloadLocked c)).pc i = .reloadLocked c := goto_pc_self
  have howners : (s.goto i (.reloadLocked c)).OwnersOk := by
    apply I₀.owners.goto
    · rw [hpc]
      rfl
    · rw [hpc]
      rfl
  apply I₀.of_kept_all (i := i)
  · exact fun j => ⟨rfl, Nat.le_refl _, fun _ _ => rfl, fun _ _ _ h => h, fun _ _ => Iff.rfl,
      fun _ _ _ => rfl⟩
  · exact fun j hj => goto_pc_of_ne hj
  · show ((s.goto i (.reloadLocked c)).pc i).storing = _
    rw [hpc', hpc]
    rfl
  · show ((s.goto i (.reloadLocked c)).pc i).inHand = _
    rw [hpc', hpc]
    rfl
  · show PcOk hashedId s i ((s.goto i (.reloadLocked c)).pc i)
    rw [hpc']
    exact ⟨habsent, hlist⟩
  · exact ⟨I₀.chain.newest, I₀.chain.prev⟩
  · exact I₀.lock.acquire hfree rfl
  · exact ⟨howners.unique, howners.active, howners.created, howners.listed⟩

omit [DecidableEq P] in
theorem Inv.release (I₀ : Inv hashedId s) (hlocked : (s.pc i).locked = true)
    (hst : (s.pc i).storing = none) (hh : (s.pc i).inHand = none) (ha : (s.pc i).adding = none)
    (hq : q.Plain) (hok : PcOk hashedId s i q) :
    Inv hashedId { s.goto i q with implicitProducerHashResizeInProgress := false } := by
  have hpc' : (s.goto i q).pc i = q := goto_pc_self
  have howners : (s.goto i q).OwnersOk :=
    I₀.owners.goto (hq.inHand.trans hh.symm) (hq.adding.trans ha.symm)
  apply I₀.of_kept_all (i := i)
  · exact fun j => ⟨rfl, Nat.le_refl _, fun _ _ => rfl, fun _ _ _ h => h, fun _ _ => Iff.rfl,
      fun _ _ _ => rfl⟩
  · exact fun j hj => goto_pc_of_ne hj
  · show ((s.goto i q).pc i).storing = _
    rw [hpc', hq.storing, hst]
  · show ((s.goto i q).pc i).inHand = _
    rw [hpc', hq.inHand, hh]
  · show PcOk hashedId s i ((s.goto i q).pc i)
    rw [hpc']
    exact hok
  · exact ⟨I₀.chain.newest, I₀.chain.prev⟩
  · exact I₀.lock.release hlocked hq.locked hq.resizing
  · exact ⟨howners.unique, howners.active, howners.created, howners.listed⟩

/-! ### The producers of the threads -/

omit [DecidableEq I] in
/-- A thread gets a producer that nobody has. -/
theorem OwnersOk.gain (h : s.OwnersOk) (hnone : ∀ j, ¬ s.Own j p)
    (hown : ∀ j p', s'.Own j p' ↔ s.Own j p' ∨ j = i ∧ p' = p)
    (hinactive : s'.inactive = update s.inactive p false)
    (hcreated : s'.created = update s.created p true)
    (hlisted : ∀ p, s'.created p = true → p ∈ s'.producers ∨ ∃ i, (s'.pc i).adding = some p) :
    s'.OwnersOk where
  unique j j' p' hj hj' := by
    rcases (hown j p').1 hj with hj | ⟨rfl, rfl⟩
    · rcases (hown j' p').1 hj' with hj' | ⟨rfl, rfl⟩
      · exact h.unique j j' p' hj hj'
      · exact absurd hj (hnone j)
    · rcases (hown j' p').1 hj' with hj' | ⟨rfl, -⟩
      · exact absurd hj' (hnone j')
      · rfl
  active j p' hj := by
    rw [hinactive]
    by_cases hp : p' = p
    · rw [hp, Function.update_self]
    · rw [Function.update_of_ne hp]
      rcases (hown j p').1 hj with hj | ⟨-, rfl⟩
      · exact h.active j p' hj
      · exact absurd rfl hp
  created p' := by
    rw [hinactive, hcreated]
    by_cases hp : p' = p
    · subst hp
      rw [Function.update_self]
      exact ⟨fun _ => .inr ⟨i, (hown i p').2 (.inr ⟨rfl, rfl⟩)⟩, fun _ => rfl⟩
    · rw [Function.update_of_ne hp, Function.update_of_ne hp, h.created p']
      have hiff : ∀ j, s'.Own j p' ↔ s.Own j p' := fun j =>
        (hown j p').trans ⟨fun h => h.resolve_right fun h => hp h.2, .inl⟩
      simp only [hiff]
  listed := hlisted

omit [DecidableEq I] in
/-- A thread that ends gives its producer back. -/
theorem OwnersOk.lose (h : s.OwnersOk) (hi : s.Own i p)
    (hown : ∀ j p', s'.Own j p' ↔ s.Own j p' ∧ ¬ (j = i ∧ p' = p))
    (hinactive : s'.inactive = update s.inactive p true) (hcreated : s'.created = s.created)
    (hadding : ∀ j p, (s.pc j).adding = some p → (s'.pc j).adding = some p)
    (hproducers : s'.producers = s.producers) : s'.OwnersOk where
  unique j j' p' hj hj' := h.unique j j' p' ((hown j p').1 hj).1 ((hown j' p').1 hj').1
  active j p' hj := by
    obtain ⟨hj, hne⟩ := (hown j p').1 hj
    rw [hinactive, Function.update_of_ne]
    · exact h.active j p' hj
    · rintro rfl
      exact hne ⟨h.unique j i p' hj hi, rfl⟩
  created p' := by
    rw [hcreated, hinactive, h.created p']
    by_cases hp : p' = p
    · subst hp
      rw [Function.update_self]
      exact ⟨fun _ => .inl rfl, fun _ => .inr ⟨i, hi⟩⟩
    · have hiff : ∀ j, s'.Own j p' ↔ s.Own j p' := fun j =>
        (hown j p').trans ⟨And.left, fun h => ⟨h, fun h => hp h.2⟩⟩
      rw [Function.update_of_ne hp]
      simp only [hiff]
  listed p' hp := by
    rw [hcreated] at hp
    rw [hproducers]
    rcases h.listed p' hp with hl | ⟨j, hj⟩
    · exact .inl hl
    · exact .inr ⟨j, hadding j p' hj⟩

omit [DecidableEq I] [DecidableEq P] in
/-- What a thread without listeners has is in its hands. -/
theorem own_of_no_listeners (hl : s.listeners i = []) : s.Own i p ↔ (s.pc i).inHand = some p := by
  unfold Own
  rw [hl]
  exact ⟨fun h => h.resolve_left List.not_mem_nil, .inr⟩

omit [DecidableEq P] in
theorem own_of_update {l : List P} (hpc : s'.pc = update s.pc i q)
    (hl : s'.listeners = update s.listeners i l) :
    s'.Own j p ↔ if j = i then p ∈ l ∨ q.inHand = some p else s.Own j p := by
  unfold Own
  rw [hpc, hl]
  by_cases hji : j = i
  · subst hji
    rw [Function.update_self, Function.update_self, if_pos rfl]
  · rw [Function.update_of_ne hji, Function.update_of_ne hji, if_neg hji]

omit [DecidableEq P] in
theorem adding_of_update (hpc : s'.pc = update s.pc i q) (hi : (s.pc i).adding = none)
    (hj : (s.pc j).adding = some p) : (s'.pc j).adding = some p := by
  have hji : j ≠ i := by
    rintro rfl
    rw [hi] at hj
    cases hj
  rwa [hpc, Function.update_of_ne hji]

omit [DecidableEq P] in
/-- The thread has no producer, and gets one. -/
theorem own_gain {l : List P} (hpc : s'.pc = update s.pc i q)
    (hl : s'.listeners = update s.listeners i l) (hnone : ∀ p, ¬ s.Own i p)
    (hone : ∀ p', (p' ∈ l ∨ q.inHand = some p') ↔ p' = p) (j : I) (p' : P) :
    s'.Own j p' ↔ s.Own j p' ∨ j = i ∧ p' = p := by
  rw [own_of_update hpc hl]
  split
  · rename_i hji
    subst hji
    rw [hone]
    exact ⟨fun h => .inr ⟨rfl, h⟩, fun h => (h.resolve_left (hnone p')).2⟩
  · rename_i hji
    exact ⟨.inl, fun h => h.resolve_right fun h => hji h.1⟩

omit [DecidableEq P] in
/-- The invariant after a step of `i` that changes no table. -/
theorem Inv.of_hashes (I₀ : Inv hashedId s) (hhashes : s'.hashes = s.hashes)
    (hallocated : s'.allocated = s.allocated)
    (hmain : s'.implicitProducerHash = s.implicitProducerHash)
    (hlock : s'.implicitProducerHashResizeInProgress = s.implicitProducerHashResizeInProgress)
    (hpc : s'.pc = update s.pc i q) (hlisteners : ∀ j, j ≠ i → s'.listeners j = s.listeners j)
    (hlocked : q.locked = false) (hresizing : q.resizing = none)
    (hst : (s.pc i).storing = none)
    (hown : ∀ n k p, s.key n k = .id i → s.Own i p → s'.Own i p)
    (hplace : PcOk hashedId s' i q) (howners : s'.OwnersOk) : Inv hashedId s' := by
  have hkey : ∀ n k, s'.key n k = s.key n k := fun n k => by
    unfold key
    rw [hhashes]
  have hvalue : ∀ n k, s'.value n k = s.value n k := fun n k => by
    unfold value
    rw [hhashes]
  have hself : s'.pc i = q := by rw [hpc, Function.update_self]
  have hne : ∀ j, j ≠ i → s'.pc j = s.pc j := fun j hj => by rw [hpc, Function.update_of_ne hj]
  apply I₀.of_kept (i := i)
  · intro j hj
    refine ⟨hlisteners j hj, Nat.le_of_eq hallocated.symm, fun n _ => by rw [hhashes],
      fun n k _ h => by rwa [hkey], fun n k => by rw [hkey], fun n k _ => hvalue n k⟩
  · exact hne
  · intro n k hk
    rw [hkey] at hk
    obtain ⟨hn, hpassed, hval⟩ := I₀.entries i n k hk
    refine ⟨hallocated ▸ hn, ?_, fun _ => ?_⟩
    · exact hpassed.mono (by rw [hhashes]) (fun k' h => by rwa [hkey]) fun k' h => by rwa [hkey] at h
    · obtain ⟨p, hp, ho⟩ := hval (by rw [hst]; nofun)
      exact ⟨p, (hvalue n k).trans hp, hown n k p hk ho⟩
  · rwa [hself]
  · refine ⟨?_, fun n hn => ?_⟩
    · rw [hmain, hallocated, I₀.chain.newest]
    · rw [hhashes]
      exact I₀.chain.prev n (hallocated ▸ hn)
  · have hgoto : (s.goto i q).LockOk := by
      apply I₀.lock.goto
      · intro h
        rw [hlocked] at h
        cases h
      · intro m h
        rw [hresizing] at h
        cases h
    have hpc' : s'.pc = (s.goto i q).pc := hpc
    refine ⟨fun j hj => ?_, fun j j' hj hj' => ?_, fun j m hj => ?_⟩
    · rw [hlock]
      exact hgoto.lock j (hpc' ▸ hj)
    · exact hgoto.alone j j' (hpc' ▸ hj) (hpc' ▸ hj')
    · rw [hmain]
      exact hgoto.newest j m (hpc' ▸ hj)
  · exact howners

/-- A producer is made, which did not exist. -/
theorem Inv.create (I₀ : Inv hashedId s) (hpc : s.pc i = .create n) (hp : s.created p = false) :
    Inv hashedId { s.goto i (.countProducer n p) with created := update s.created p true } := by
  obtain ⟨hn, habsent, hlist⟩ : PcOk hashedId s i (.create n) := hpc ▸ I₀.place i
  have hnone : ∀ j, ¬ s.Own j p := by
    intro j hj
    rw [(I₀.owners.created p).2 (.inr ⟨j, hj⟩)] at hp
    cases hp
  have hinactive : s.inactive p = false := by
    rw [← Bool.not_eq_true]
    intro h
    rw [(I₀.owners.created p).2 (.inl h)] at hp
    cases hp
  have hhand : ∀ p', ¬ s.Own i p' := by
    intro p' h
    rw [own_of_no_listeners hlist, hpc] at h
    cases h
  have hnoAdding : (s.pc i).adding = none := by rw [hpc]; rfl
  have hl : s.listeners = update s.listeners i [] := (Function.update_eq_self_iff.2 hlist.symm).symm
  have hone : ∀ p', (p' ∈ [] ∨ (Pc.countProducer n p).inHand = some p') ↔ p' = p := by
    intro p'
    constructor
    · rintro (h | h)
      · exact absurd h List.not_mem_nil
      · exact (Option.some.inj h).symm
    · rintro rfl
      exact .inr rfl
  refine I₀.of_hashes (q := .countProducer n p) rfl rfl rfl rfl rfl (fun _ _ => rfl) rfl rfl ?_ ?_ ?_
    ?_
  · rw [hpc]
    rfl
  · exact fun n k p' hk => absurd hk (habsent n k)
  · exact ⟨hn, habsent, hlist⟩
  · refine I₀.owners.gain hnone (own_gain rfl hl hhand hone) ?_ rfl ?_
    · exact (Function.update_eq_self_iff.2 hinactive.symm).symm
    · intro p' hp'
      by_cases hpp : p' = p
      · subst hpp
        exact .inr ⟨i, congrArg Pc.adding (goto_pc_self (s := s))⟩
      · have hold : s.created p' = true := (Function.update_of_ne hpp ..).symm.trans hp'
        rcases I₀.owners.listed p' hold with hmem | ⟨j, hj⟩
        · exact .inl hmem
        · exact .inr ⟨j, adding_of_update (s := s) rfl hnoAdding hj⟩

/-- A thread takes an inactive producer. -/
theorem Inv.recycle (I₀ : Inv hashedId s) {l : List P} (hpc : s.pc i = .recycle n p l)
    (hp : s.inactive p = true) :
    Inv hashedId { s.subscribe hashedId i n p with inactive := update s.inactive p false } := by
  obtain ⟨hn, habsent, hlist⟩ : PcOk hashedId s i (.recycle n p l) := hpc ▸ I₀.place i
  have hnone : ∀ j, ¬ s.Own j p := by
    intro j hj
    rw [I₀.owners.active j p hj] at hp
    cases hp
  have hhand : ∀ p', ¬ s.Own i p' := by
    intro p' h
    rw [own_of_no_listeners hlist, hpc] at h
    cases h
  have hnoAdding : (s.pc i).adding = none := by rw [hpc]; rfl
  have hone : ∀ p', (p' ∈ p :: s.listeners i ∨
      (Pc.insertReusable n (s.first hashedId n i) p).inHand = some p') ↔ p' = p := by
    intro p'
    rw [hlist, List.mem_singleton]
    exact ⟨fun h => h.resolve_right nofun, .inl⟩
  refine I₀.of_hashes rfl rfl rfl rfl rfl (fun j hj => Function.update_of_ne hj ..) rfl rfl ?_ ?_ ?_
    ?_
  · rw [hpc]
    rfl
  · exact fun n k p' hk => absurd hk (habsent n k)
  · refine ⟨hn, habsent, Passed.first, ?_⟩
    show Function.update s.listeners i (p :: s.listeners i) i = [p]
    rw [Function.update_self, hlist]
  · refine I₀.owners.gain hnone (own_gain rfl rfl hhand hone) rfl ?_ ?_
    · exact (Function.update_eq_self_iff.2 ((I₀.owners.created p).2 (.inl hp)).symm).symm
    · intro p' hp'
      rcases I₀.owners.listed p' hp' with hmem | ⟨j, hj⟩
      · exact .inl hmem
      · exact .inr ⟨j, adding_of_update (s := s) rfl hnoAdding hj⟩

omit [DecidableEq P] in
/-- A new producer is in the list. -/
theorem Inv.addProducer (I₀ : Inv hashedId s) {o : Option P} (hpc : s.pc i = .addProducer n p o) :
    Inv hashedId { s.subscribe hashedId i n p with producers := p :: s.producers } := by
  obtain ⟨hn, habsent, hlist⟩ : PcOk hashedId s i (.addProducer n p o) := hpc ▸ I₀.place i
  refine I₀.of_hashes rfl rfl rfl rfl rfl (fun j hj => Function.update_of_ne hj ..) rfl rfl ?_ ?_ ?_
    ?_
  · rw [hpc]
    rfl
  · exact fun n k p' hk => absurd hk (habsent n k)
  · refine ⟨hn, habsent, Passed.first, ?_⟩
    show Function.update s.listeners i (p :: s.listeners i) i = [p]
    rw [Function.update_self, hlist]
  · refine I₀.owners.congr ?_ ?_ rfl rfl fun _ h => List.mem_cons_of_mem _ h
    · intro j p'
      refine (own_of_update (s := s) rfl rfl).trans ?_
      split
      · rename_i hji
        subst hji
        rw [own_of_no_listeners hlist, hpc, hlist, List.mem_singleton]
        constructor
        · intro h
          exact congrArg some (h.resolve_right nofun).symm
        · intro h
          exact .inl (Option.some.inj h).symm
      · rfl
    · intro j p' hj
      by_cases hji : j = i
      · subst hji
        rw [hpc] at hj
        cases hj
        exact .inr List.mem_cons_self
      · left
        show (Function.update s.pc i _ j).adding = some p'
        rwa [Function.update_of_ne hji]

omit [DecidableEq P] in
theorem notify_nil (hlist : s.listeners i = []) : s.notify i = s.goto i .idle := by
  unfold ProducerHash.notify
  rw [hlist]

omit [DecidableEq P] in
theorem notify_singleton (hlist : s.listeners i = [p]) :
    s.notify i = { s.goto i (.exitHash p) with listeners := update s.listeners i [] } := by
  unfold ProducerHash.notify
  rw [hlist]

omit [DecidableEq P] in
/-- A thread that is notified keeps its producer until its id is out of all tables. -/
theorem own_notify (hst : s.Steady i) (hpc : s.pc i = .idle) (j : I) (p' : P) :
    (s.notify i).Own j p' ↔ s.Own j p' := by
  rcases hst with ⟨hlist, -⟩ | ⟨p, hlist, -⟩
  · rw [notify_nil hlist]
    exact own_goto (by rw [hpc])
  · rw [notify_singleton hlist]
    refine (own_of_update (s := s) rfl rfl).trans ?_
    split
    · rename_i hji
      subst hji
      unfold Own
      rw [hlist, hpc, List.mem_singleton]
      constructor
      · rintro (h | h)
        · exact absurd h List.not_mem_nil
        · exact .inl (Option.some.inj h).symm
      · intro h
        exact .inr (congrArg some (h.resolve_right nofun).symm)
    · rfl

omit [DecidableEq P] in
/-- A thread that ends is notified. -/
theorem Inv.notify (I₀ : Inv hashedId s) (hpc : s.pc i = .idle) : Inv hashedId (s.notify i) := by
  have hsteady : PcOk hashedId s i .idle := hpc ▸ I₀.place i
  have hown := own_notify hsteady hpc
  rcases hsteady with ⟨hlist, habsent⟩ | ⟨p, hlist, hid⟩
  · rw [notify_nil hlist]
    apply I₀.goto_plain
    · exact .inl ⟨hlist, habsent⟩
    · exact ⟨rfl, rfl, rfl, rfl, rfl⟩
    · rw [hpc]
      exact ⟨rfl, rfl, rfl, rfl, rfl⟩
  · have hnoAdding : (s.pc i).adding = none := by rw [hpc]; rfl
    rw [notify_singleton hlist] at hown ⊢
    refine I₀.of_hashes (q := .exitHash p) rfl rfl rfl rfl rfl
      (fun j hj => Function.update_of_ne hj ..) rfl rfl ?_ ?_ ?_ ?_
    · rw [hpc]
      rfl
    · exact fun n k p' hk h => (hown i p').2 h
    · exact Function.update_self ..
    · exact I₀.owners.congr hown (fun j p' hj => .inl (adding_of_update (s := s) rfl hnoAdding hj)) rfl
        rfl fun _ h => h

/-- The producer of a thread that has ended is inactive. -/
theorem exitInactive_eq (hlist : s.listeners i = []) :
    ProducerHash.notify { s with inactive := update s.inactive p true } i =
      { s.goto i .idle with inactive := update s.inactive p true } :=
  notify_nil hlist

/-- The end of a thread: the producer may be used again. -/
theorem Inv.exitInactive (I₀ : Inv hashedId s) (hpc : s.pc i = .exitInactive p) :
    Inv hashedId (ProducerHash.notify { s with inactive := update s.inactive p true } i) := by
  obtain ⟨hlist, habsent⟩ : PcOk hashedId s i (.exitInactive p) := hpc ▸ I₀.place i
  have hi : s.Own i p := by
    rw [own_of_no_listeners hlist, hpc]
    rfl
  have hl : s.listeners = update s.listeners i [] := (Function.update_eq_self_iff.2 hlist.symm).symm
  have hnoAdding : (s.pc i).adding = none := by rw [hpc]; rfl
  rw [exitInactive_eq hlist]
  refine I₀.of_hashes (q := .idle) rfl rfl rfl rfl rfl (fun _ _ => rfl) rfl rfl ?_ ?_ ?_ ?_
  · rw [hpc]
    rfl
  · exact fun n k p' hk => absurd hk (habsent n k)
  · exact .inl ⟨hlist, habsent⟩
  · refine I₀.owners.lose hi ?_ rfl rfl
      (fun j p' hj => adding_of_update (s := s) rfl hnoAdding hj) rfl
    have hown : ∀ j p', Own { s.goto i .idle with inactive := update s.inactive p true } j p' ↔
        if j = i then p' ∈ [] ∨ Pc.idle.inHand = some p' else s.Own j p' :=
      fun j p' => own_of_update rfl hl
    intro j p'
    rw [hown]
    split
    · rename_i hji
      subst hji
      rw [own_of_no_listeners hlist, hpc]
      constructor
      · rintro (h | h)
        · exact absurd h List.not_mem_nil
        · cases h
      · exact fun h => absurd ⟨rfl, (Option.some.inj h.1).symm⟩ h.2
    · rename_i hji
      exact ⟨fun h => ⟨h, fun h => hji h.1⟩, And.left⟩

end DataProxy.ProducerHash
