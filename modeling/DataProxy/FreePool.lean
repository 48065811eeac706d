import DataProxy.FreeList

/-!
# The free list as an atomic pool

Seen from outside, `add` and `try_get` each happen in one step, although a node may be put on the list
by another thread than the one that has called `add`, and much later.  This is how the queue uses the
list: as a bag of blocks.
-/

namespace DataProxy.FreeList

open Function (update)

variable {T N : Type} [DecidableEq T] [DecidableEq N] [Fintype T] {s s' : FreeList T N}
  {st : N → Status T} {t : T} {n : N}

inductive PoolAct (N : Type)
  | put (n : N)
  | take (n : N)

/-- What the list is for: a set of nodes, to which one is added or from which one is taken. -/
def poolStep (pool : N → Bool) : PoolAct N → Option (N → Bool)
  | .put n => if pool n then none else some (update pool n true)
  | .take n => if pool n then some (update pool n false) else none

/-- The node that the thread is about to give to the list, or has taken from it. -/
def Pc.outside : Pc N → Option N
  | .addFlag n | .assertRefs n | .dropTwo n => some n
  | _ => none

/-- The nodes that were given to the list and not taken from it. -/
def given (s : FreeList T N) (n : N) : Bool :=
  !s.out n && decide (∀ t, (s.pc t).outside ≠ some n)

/-- A node is given with the `fetch_add` of the flag, and taken with the compare-and-swap of the
head. -/
def label (s : FreeList T N) : FreeListAction T N → Option (PoolAct N)
  | .access t =>
    match s.pc t with
    | .addFlag n => some (.put n)
    | .casHead n _ => if s.freeListHead = some n then some (.take n) else none
    | _ => none
  | .add _ _ | .tryGet _ => none

omit [DecidableEq T] in
theorem given_iff : s.given n = true ↔ s.out n = false ∧ ∀ t, (s.pc t).outside ≠ some n := by
  simp [given]

/-- A thread goes on inside or outside. -/
theorem given_eq {p : Pc N} (hout : s'.out = s.out) (hpc : s'.pc = update s.pc t p)
    (hp : p.outside = (s.pc t).outside) : s'.given = s.given := by
  funext n
  rw [Bool.eq_iff_iff, given_iff, given_iff, hout, hpc]
  refine and_congr_right fun _ => forall_congr' fun t' => ?_
  by_cases ht : t' = t
  · rw [ht, Function.update_self, hp]
  · rw [Function.update_of_ne ht]

/-- A thread takes a node from outside in, or from inside out. -/
theorem given_update {p : Pc N} (hpc : s'.pc = update s.pc t p)
    (hout : ∀ m, m ≠ n → s'.out m = s.out m)
    (hother : ∀ m, m ≠ n → (s.pc t).outside ≠ some m ∧ p.outside ≠ some m) :
    s'.given = update s.given n (s'.given n) := by
  funext m
  by_cases hm : m = n
  · rw [hm, Function.update_self]
  · rw [Function.update_of_ne hm, Bool.eq_iff_iff, given_iff, given_iff, hout m hm, hpc]
    refine and_congr_right fun _ => forall_congr' fun t' => ?_
    by_cases ht : t' = t
    · rw [ht, Function.update_self]
      exact ⟨fun _ => (hother m hm).1, fun _ => (hother m hm).2⟩
    · rw [Function.update_of_ne ht]

omit [DecidableEq T] in
/-- Outside is in the hands of the thread. -/
theorem Inv.thread_of_outside (I : Inv s st) (h : (s.pc t).outside = some n) :
    (st n).thread = some t := by
  refine (I.place t).thread ?_
  cases hpc : s.pc t with
  | addFlag m | assertRefs m | dropTwo m =>
    rw [hpc] at h
    exact h
  | _ =>
    rw [hpc] at h
    cases h

theorem Inv.refines_access (I : Inv s st) (hT : Fintype.card T + 1 < 2 ^ 31)
    (hs : s.accessStep t = some s') :
    Run.exec poolStep s.given (label s (.access t)).toList = some s'.given := by
  obtain ⟨st', I'⟩ := I.accessStep hT hs
  -- most accesses do not matter
  have silent : ∀ p : Pc N, s'.out = s.out → s'.pc = update s.pc t p →
      p.outside = (s.pc t).outside → label s (.access t) = none →
      Run.exec poolStep s.given (label s (.access t)).toList = some s'.given := by
    intro p hout hpc hp hlabel
    rw [hlabel, given_eq hout hpc hp]
    rfl
  have hafter : ∀ k : After N, (after k).outside = none := by
    intro k
    rcases k with - | - | head <;> rfl
  cases hpc : s.pc t with
  | idle =>
    simp only [FreeList.accessStep, hpc] at hs
    cases hs
  | addFlag n =>
    have hst : s.PcOk st t (.addFlag n) := hpc ▸ I.place t
    replace hst : st n = .calling t := hst
    simp only [FreeList.accessStep, hpc, Option.some.injEq] at hs
    have hlabel : label s (.access t) = some (.put n) := by simp only [label, hpc]
    have hbefore : s.given n = false := by
      rw [Bool.eq_false_iff, Ne, given_iff]
      exact fun h => h.2 t (by rw [hpc]; rfl)
    have houtside : ∀ refs : ℕ,
        (if refs = 0 then Pc.loadHead n .ret else .idle).outside = (none : Option N) := by
      intro refs
      split <;> rfl
    have hafter' : s'.given n = true := by
      rw [given_iff]
      subst hs
      refine ⟨?_, fun t' => ?_⟩
      · have hout := I.out n
        rw [hst] at hout
        show s.out n = false
        simpa using hout
      · show (update s.pc t _ t').outside ≠ some n
        by_cases ht : t' = t
        · rw [ht, Function.update_self, houtside]
          simp
        · rw [Function.update_of_ne ht]
          intro h
          have hthread := I.thread_of_outside h
          rw [hst] at hthread
          exact ht (Option.some.inj hthread).symm
    have hupdate : s'.given = update s.given n (s'.given n) := by
      subst hs
      refine given_update rfl (fun _ _ => rfl) fun m hm => ?_
      rw [hpc, houtside]
      simp [Pc.outside, hm.symm]
    rw [hlabel]
    show (poolStep s.given (.put n)).bind _ = _
    rw [hupdate, hafter']
    simp [poolStep, hbefore]
  | casHead n next =>
    simp only [FreeList.accessStep, hpc] at hs
    split at hs
    · rename_i hhead
      cases hs
      have hlabel : label s (.access t) = some (.take n) := by simp only [label, hpc, hhead, if_true]
      obtain ⟨l, hl, -, hmem⟩ := I.chain
      have hst : st n = .listed := by
        rw [← hmem]
        cases l with
        | nil =>
          rw [show s.freeListHead = none from hl] at hhead
          cases hhead
        | cons m l' =>
          obtain rfl : m = n := Option.some.inj (hl.1.symm.trans hhead)
          exact List.mem_cons_self
      have hbefore : s.given n = true := by
        rw [given_iff]
        refine ⟨?_, fun t' h => ?_⟩
        · have hout := I.out n
          rw [hst] at hout
          simpa using hout
        · have hthread := I.thread_of_outside h
          rw [hst] at hthread
          cases hthread
      set s' : FreeList T N := { s.goto t (.assertRefs n) with freeListHead := next }
      have hafter' : s'.given n = false := by
        rw [Bool.eq_false_iff, Ne, given_iff]
        refine fun h => h.2 t ?_
        show (update s.pc t _ t).outside = some n
        rw [Function.update_self]
        rfl
      have hupdate : s'.given = update s.given n (s'.given n) := by
        refine given_update (t := t) rfl (fun _ _ => rfl) fun m hm => ?_
        rw [hpc]
        simp [Pc.outside, hm.symm]
      rw [hlabel]
      show (poolStep s.given (.take n)).bind _ = _
      rw [hupdate, hafter']
      simp [poolStep, hbefore]
    · rename_i hhead
      cases hs
      exact silent (.dropOne n s.freeListHead) rfl rfl (by rw [hpc]; rfl)
        (by simp only [label, hpc, hhead, if_false])
  | dropTwo n =>
    have hst : s.PcOk st t (.dropTwo n) := hpc ▸ I.place t
    replace hst : st n = .taken t := hst
    simp only [FreeList.accessStep, hpc, Option.some.injEq] at hs
    have hlabel : label s (.access t) = none := by simp only [label, hpc]
    have hbefore : s.given n = false := by
      rw [Bool.eq_false_iff, Ne, given_iff]
      exact fun h => h.2 t (by rw [hpc]; rfl)
    have hafter' : s'.given n = false := by
      rw [Bool.eq_false_iff, Ne, given_iff]
      subst hs
      intro h
      have hout : update s.out n true n = false := h.1
      rw [Function.update_self] at hout
      cases hout
    have hupdate : s'.given = update s.given n (s'.given n) := by
      subst hs
      refine given_update (t := t) rfl (fun m hm => Function.update_of_ne hm ..) fun m hm => ?_
      rw [hpc]
      simp [Pc.outside, hm.symm]
    rw [hlabel, hupdate, hafter', ← hbefore, Function.update_eq_self]
    rfl
  | loadHead n k =>
    simp only [FreeList.accessStep, hpc, Option.some.injEq] at hs
    subst hs
    exact silent _ rfl rfl (by rw [hpc]; rfl) (by simp only [label, hpc])
  | storeNext n head k =>
    simp only [FreeList.accessStep, hpc, Option.some.injEq] at hs
    subst hs
    exact silent _ rfl rfl (by rw [hpc]; rfl) (by simp only [label, hpc])
  | storeRefs n head k =>
    simp only [FreeList.accessStep, hpc, Option.some.injEq] at hs
    subst hs
    exact silent _ rfl rfl (by rw [hpc]; rfl) (by simp only [label, hpc])
  | casAdd n head k =>
    simp only [FreeList.accessStep, hpc] at hs
    split at hs
    · cases hs
      exact silent _ rfl rfl (by rw [hpc]; exact hafter k) (by simp only [label, hpc])
    · cases hs
      exact silent _ rfl rfl (by rw [hpc]; rfl) (by simp only [label, hpc])
  | putBack n head k =>
    simp only [FreeList.accessStep, hpc, Option.some.injEq] at hs
    subst hs
    refine silent _ rfl rfl ?_ (by simp only [label, hpc])
    rw [hpc]
    split
    · rfl
    · exact hafter k
  | getHead =>
    simp only [FreeList.accessStep, hpc, Option.some.injEq] at hs
    subst hs
    exact silent _ rfl rfl (by rw [hpc]; exact hafter (.loop s.freeListHead)) (by simp only [label, hpc])
  | loadRefs n =>
    simp only [FreeList.accessStep, hpc, Option.some.injEq] at hs
    subst hs
    refine silent _ rfl rfl ?_ (by simp only [label, hpc])
    rw [hpc]
    split <;> rfl
  | casRefs n refs =>
    simp only [FreeList.accessStep, hpc] at hs
    split at hs
    · cases hs
      exact silent _ rfl rfl (by rw [hpc]; rfl) (by simp only [label, hpc])
    · cases hs
      exact silent _ rfl rfl (by rw [hpc]; rfl) (by simp only [label, hpc])
  | loadNext n =>
    simp only [FreeList.accessStep, hpc, Option.some.injEq] at hs
    subst hs
    exact silent _ rfl rfl (by rw [hpc]; rfl) (by simp only [label, hpc])
  | assertRefs n =>
    simp only [FreeList.accessStep, hpc] at hs
    split at hs
    · cases hs
      exact silent _ rfl rfl (by rw [hpc]; rfl) (by simp only [label, hpc])
    · cases hs
      exact absurd I'.noFault (by simp)
  | dropOne n head =>
    simp only [FreeList.accessStep, hpc, Option.some.injEq] at hs
    subst hs
    refine silent _ rfl rfl ?_ (by simp only [label, hpc])
    rw [hpc]
    split
    · rfl
    · exact hafter (.loop head)

theorem Inv.refines (I : Inv s st) (hT : Fintype.card T + 1 < 2 ^ 31) {act : FreeListAction T N}
    (hs : s.step act = some s') :
    Run.exec poolStep s.given (label s act).toList = some s'.given := by
  cases act with
  | add t n =>
    simp only [step] at hs
    split at hs
    · rename_i h
      obtain ⟨-, hpc, hout⟩ := h
      cases hs
      -- the node was out, and is still outside
      set s' : FreeList T N := { s.goto t (.addFlag n) with out := update s.out n false }
      have hbefore : s.given n = false := by simp [given, hout]
      have hafter : s'.given n = false := by
        rw [Bool.eq_false_iff, Ne, given_iff]
        refine fun h => h.2 t ?_
        show (update s.pc t _ t).outside = some n
        rw [Function.update_self]
        rfl
      have hupdate : s'.given = update s.given n (s'.given n) := by
        refine given_update (t := t) rfl (fun m hm => Function.update_of_ne hm ..) fun m hm => ?_
        rw [hpc]
        simp [Pc.outside, hm.symm]
      rw [hupdate, hafter, ← hbefore, Function.update_eq_self]
      rfl
    · cases hs
  | tryGet t =>
    simp only [step] at hs
    split at hs
    · rename_i h
      cases hs
      have hsame : (s.goto t .getHead).given = s.given := given_eq rfl rfl (by rw [h.2]; rfl)
      rw [hsame]
      rfl
    · cases hs
  | access t =>
    simp only [step] at hs
    split at hs
    · exact I.refines_access hT hs
    · cases hs

/-- **The list is an atomic pool.**  In every run the accesses that `label` marks, taken as steps of
the pool, are possible there and lead to the nodes given to the list: `add` puts its node into the
pool in one step, and `try_get` takes the node it returns out of the pool in one step. -/
theorem freeList_refines_pool (hT : Fintype.card T + 1 < 2 ^ 31) {acts : List (PoolAct N)}
    (h : Run.Reach (Run.logged step fun s act l => l ++ (label s act).toList) Run.Any
      ((init : FreeList T N), []) (s, acts)) :
    Run.exec poolStep (fun _ => false) acts = some s.given := by
  have hinit : (init : FreeList T N).given = fun _ => false := rfl
  have h' : Run.Reach (Run.logged step fun s act l => l ++ (label s act).toList)
      (fun x act => Run.Any x.1 act) ((init : FreeList T N), []) (s, acts) := h
  rw [← hinit]
  refine Run.exec_of_labels given (fun s act s' hr _ hs => ?_) h'
  obtain ⟨st, I⟩ := inv_of_reach hT hr
  exact I.refines hT hs

theorem freeList_refines_pool_handedOver : ∃ x : FreeList Bool Bool × List (PoolAct Bool),
    x.2.length = 3 ∧ x.1.given true = true ∧
      Run.exec poolStep (fun _ => false) x.2 = some x.1.given := by
  have hrun : (Run.exec (Run.logged step fun s act l => l ++ (label s act).toList)
      ((init : FreeList Bool Bool), []) handedOver).any (fun x =>
      decide (x.2.length = 3 ∧ x.1.given true = true)) = true := by
    decide +kernel
  obtain ⟨⟨s, acts⟩, hr, hlen, hgiven⟩ := Run.exists_reach_of_exec hrun
  have hT : Fintype.card Bool + 1 < 2 ^ 31 := by decide
  exact ⟨(s, acts), hlen, hgiven, freeList_refines_pool hT hr⟩

end DataProxy.FreeList
