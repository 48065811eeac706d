import DataProxy.QueueConsumer

/-!
# The steps of `enqueue`

Every step of a thread that enqueues keeps the invariant, and none of them fails.  The first
comparison of `enqueue` keeps the tail less than `2 ^ 63` ahead of the head, whatever the consumers do
(`room_of_circularLessThan`); an entry of the index is only used again when its block is gone; and a
block that the thread gets belongs to nobody else.
-/

namespace DataProxy.ConcurrentQueue

open Function (update)

variable {P C α : Type} {poolSize : ℕ} {s s' : Queue P C α} {g g' : Ghost P C} {c : C} {p : P}

namespace ImplicitProducer

variable {R R' : ImplicitProducer α} {L M : Lane C} {pc : EnqueuePc α}

/-- The sub-queue with its thread at another place. -/
def goto (R : ImplicitProducer α) (pc : EnqueuePc α) : ImplicitProducer α := { R with pc := pc }

theorem keeps_goto (c : C) (mine : ℕ → Prop) (R : ImplicitProducer α) (L : Lane C)
    (pc : EnqueuePc α) : Keeps c mine R L (R.goto pc) L where
  overcommit := le_rfl
  fate := fun _ _ h _ => h
  lost := fun _ _ => le_rfl
  slot := fun _ _ => rfl
  published := fun _ _ h => h
  header := fun cur h => ⟨⟨cur, h, le_rfl⟩, fun _ _ => ⟨rfl, rfl, rfl⟩⟩
  key := fun _ _ _ _ _ _ h => h
  names := fun _ _ => ⟨rfl, rfl⟩
  made := le_rfl
  entry := fun _ _ _ _ _ h => h

/-- The thread goes on without a change to its sub-queue. -/
theorem LaneOk.goto (H : R.LaneOk L) (hi : (R.goto pc).inserted = R.inserted)
    (hx : (R.goto pc).indexed = R.indexed) (hpc : (R.goto pc).PcOk pc)
    (hearly : R.blockIndex = none → pc.early = true) : (R.goto pc).LaneOk L where
  desk := H.desk
  waiting := H.waiting
  length := H.length
  room := by rw [hx]; exact H.room
  noIndex := fun h => ⟨(H.noIndex h).1, hearly h⟩
  ring := fun cur hcur =>
    (H.ring cur hcur).congr rfl rfl rfl rfl (fun _ => rfl) (fun _ _ h => h) hi hx
  tailBlock := fun h => H.tailBlock (by rw [← hx]; exact h)
  pc := hpc

/-- The head stays within half a round of the tail. -/
theorem LaneOk.tailIndex_lt (H : R.LaneOk L) :
    R.headIndex ≤ R.tailIndex ∧ R.tailIndex < R.headIndex + 2 ^ 63 := by
  have hle : R.headIndex ≤ R.tailIndex := H.desk.taken_le
  have := R.tailIndex_le
  have := H.room
  omega

end ImplicitProducer

/-- The comparison of `enqueue` at the end of a block. -/
theorem room_of_circularLessThan {head tail : ℕ} (hle : head ≤ tail) (hlt : tail < head + 2 ^ 63)
    (h : circularLessThan (.ofNat head) (.ofNat (tail + 32)) = true) : tail + 32 < head + 2 ^ 63 := by
  rw [circularLessThan_iff] at h
  omega

variable [DecidableEq P]

/-- **The rule for a step of a thread that enqueues.**  It touches blocks that are its own or
nobody's. -/
theorem Inv.ofProducer (I : Inv poolSize s g) {R : ImplicitProducer α} {M : Lane C}
    {o : ℕ → Owner P C} (hprod : s'.producer = update s.producer p R)
    (hcons : s'.consumer = s.consumer) (hret : s'.returned = s.returned)
    (hfault : s'.fault = s.fault) (hslot : M.slot = (g.lane p).slot)
    (hpub : ∀ (i : ℕ) x, (s.producer p).published[i]? = some x → R.published[i]? = some x)
    (lane : R.LaneOk M)
    (held : HeldOk s'.blocks o p R.pc)
    (live : ∀ n, n < R.indexed → tally M.slot n < 32 → Live s'.blocks o p R M n)
    (keeps : ∀ c, Keeps c (fun b => g.owner b = .dying c) (s.producer p) (g.lane p) R M)
    (heap : ∀ b, s'.blocks b = s.blocks b ∧ o b = g.owner b ∨ g.owner b = .fresh ∨
      g.owner b = .free ∨ g.owner b = .held p ∨ ∃ n, g.owner b = .live p n)
    (pool : PoolOk poolSize s' o) : ∃ g', Inv poolSize s' g' := by
  have hp : s'.producer p = R := by rw [hprod, Function.update_self]
  have hl : (g.setLane p M).lane p = M := g.setLane_self ..
  refine ⟨⟨(g.setLane p M).lane, o⟩, I.of_local p none (by rw [hfault]; exact I.noFault)
    (fun p' hne => ⟨by rw [hprod, Function.update_of_ne hne], g.setLane_of_ne _ hne⟩)
    (fun c _ => by rw [hcons]) ?_ ?_ ?_ ?_ ?_ ?_ (fun c hc => nomatch hc) pool ?_⟩
  · rw [hp]
    exact hl.symm ▸ lane
  · rw [hp]
    exact held
  · intro n hn ht
    rw [hp] at hn ⊢
    show Live s'.blocks o p R ((g.setLane p M).lane p) n
    replace ht : tally ((g.setLane p M).lane p).slot n < 32 := ht
    rw [hl] at ht ⊢
    exact live n hn ht
  · intro c _
    rw [hp]
    exact hl.symm ▸ keeps c
  · intro p' hne b hb
    rcases heap b with h | h | h | h | ⟨n, h⟩
    · exact h
    · rw [h] at hb
      rcases hb with hb | ⟨m, hb⟩ <;> cases hb
    · rw [h] at hb
      rcases hb with hb | ⟨m, hb⟩ <;> cases hb
    · rw [h] at hb
      rcases hb with hb | ⟨m, hb⟩
      · cases hb
        exact absurd rfl hne
      · cases hb
    · rw [h] at hb
      rcases hb with hb | ⟨m, hb⟩
      · cases hb
      · cases hb
        exact absurd rfl hne
  · intro c _ b hb
    rcases heap b with h | h | h | h | ⟨n, h⟩
    · exact h.2.trans hb
    all_goals
      rw [hb] at h
      cases h
  · refine I.out.same hret (fun c => by rw [hcons]) (fun p' i x hx => ?_) (slot_setLane hslot)
    rw [hprod]
    exact published_update hpub p' i x hx

/-- The thread of `p` goes on, without a change to the index or to a block. -/
theorem Inv.goto (I : Inv poolSize s g) (p : P) (pc : EnqueuePc α)
    (hi : ((s.producer p).goto pc).inserted = (s.producer p).inserted)
    (hx : ((s.producer p).goto pc).indexed = (s.producer p).indexed)
    (hpc : ((s.producer p).goto pc).PcOk pc)
    (hearly : (s.producer p).blockIndex = none → pc.early = true)
    (hheld : HeldOk s.blocks g.owner p pc)
    (hbuilt : pc.built = (s.producer p).pc.built) :
    ∃ g', Inv poolSize (s.setProducer p ((s.producer p).goto pc)) g' := by
  refine I.ofProducer (M := g.lane p) (o := g.owner) rfl rfl rfl rfl rfl (fun _ _ h => h)
    ((I.lane p).goto hi hx hpc hearly) hheld (fun n hn ht => ?_)
    (fun c => (s.producer p).keeps_goto c _ _ pc) (fun _ => .inl ⟨rfl, rfl⟩)
    ⟨I.pool.nodup, I.pool.free, I.pool.pool, I.pool.alloc, I.pool.clean⟩
  rw [hx] at hn
  refine (I.live p n hn ht).congr rfl rfl (fun _ => ⟨rfl, rfl⟩) rfl rfl rfl fun j _ => ?_
  refine ImplicitProducer.content_congr ?_ ?_ hbuilt (fun _ => rfl) _ <;> rfl

/-! ### The end of a block -/

/-- The call of `enqueue`. -/
theorem Inv.enqueue (I : Inv poolSize s g) {x : α} (hs : s.enqueue p x = some s') :
    ∃ g', Inv poolSize s' g' := by
  unfold Queue.enqueue at hs
  cases hpc : (s.producer p).pc with
  | idle =>
    simp only [hpc, Option.some.injEq] at hs
    subst hs
    have hx : (s.producer p).indexed = ((s.producer p).tailIndex + 31) / 32 := by
      rw [ImplicitProducer.indexed, hpc]
    have hi : (s.producer p).inserted = (s.producer p).indexed := by
      rw [ImplicitProducer.inserted, hpc]
    by_cases hT : (s.producer p).tailIndex % 32 = 0
    · simp only [hT, if_true]
      exact I.goto p _ (hi.trans hx).symm hx.symm hT (fun _ => rfl) trivial (by rw [hpc]; rfl)
    · simp only [hT, if_false]
      have hx' : ((s.producer p).goto (.construct x)).indexed = (s.producer p).indexed := by
        rw [hx]
        show (s.producer p).tailIndex / 32 + 1 = _
        omega
      refine I.goto p _ (hx'.trans hi.symm) hx' trivial (fun h => ?_) trivial (by rw [hpc]; rfl)
      rw [((I.lane p).noIndex h).1] at hT
      exact absurd rfl hT
  | _ => simp only [hpc] at hs; cases hs

/-- `loadHead`: the head is not past the tail, and there is room for a block or the call fails. -/
theorem Inv.loadHead (I : Inv poolSize s g) {x : α} {ok : Bool} {k : ℕ}
    (hpc : (s.producer p).pc = .loadHead x) (hs : s.producerStep poolSize p ok k = some s') :
    ∃ g', Inv poolSize s' g' := by
  obtain ⟨hle, hlt⟩ := (I.lane p).tailIndex_lt
  have hT := (I.lane p).pc
  rw [hpc] at hT
  have hx : (s.producer p).indexed = ((s.producer p).tailIndex + 31) / 32 := by
    rw [ImplicitProducer.indexed, hpc]
  have hi : (s.producer p).inserted = (s.producer p).indexed := by
    rw [ImplicitProducer.inserted, hpc]
  simp only [Queue.producerStep, hpc] at hs
  split at hs
  · rename_i hcirc
    have := lt_of_circularLessThan hcirc (by omega)
    omega
  · split at hs
    · rename_i hcirc
      cases hs
      exact I.goto p (.insertEntry x) (hi.trans hx).symm hx.symm ⟨hT, room_of_circularLessThan hle hlt hcirc⟩
        (fun _ => rfl) trivial (by rw [hpc]; rfl)
    · cases hs
      exact I.goto p .idle (hi.trans hx).symm hx.symm trivial (fun _ => rfl) trivial (by rw [hpc]; rfl)

namespace ImplicitProducer

variable {R : ImplicitProducer α} {shift : ℕ → ℕ} {cur : ℕ}

omit [DecidableEq P]

/-- An entry without a key has no value. -/
theorem RingOk.value_eq_none (H : R.RingOk shift cur)
    (h : (R.entries (R.nextEntry cur)).key = none ∨ (R.entries (R.nextEntry cur)).value = none) :
    (R.entries (R.nextEntry cur)).value = none := by
  rcases h with h | h
  · cases hv : (R.entries (R.nextEntry cur)).value with
    | none => rfl
    | some b =>
      obtain ⟨n, -, -, hk⟩ := H.valued _ H.next_lt b hv
      rw [keyAt] at hk
      exact absurd (h.symm.trans hk) (by simp)
  · exact h

/-- If the entry after the tail has a value, its block is a full round back. -/
theorem RingOk.key_of_value (H : R.RingOk shift cur) (hx : R.inserted = R.indexed)
    (h : (R.entries (R.nextEntry cur)).value ≠ none) :
    (R.header cur).capacity ≤ R.indexed ∧
      (R.entries (R.nextEntry cur)).key = some (32 * (R.indexed - (R.header cur).capacity)) := by
  obtain ⟨b, hb⟩ := Option.ne_none_iff_exists'.1 h
  obtain ⟨n, hn, hle, hk⟩ := H.valued _ H.next_lt b hb
  have hmod := (H.key _ H.next_lt _ hk).2
  rw [Nat.mul_div_cancel_left n (by decide)] at hmod
  have hround : n ≡ R.indexed [MOD (R.header cur).capacity] := hmod.trans (hx ▸ H.next_modEq)
  have hdvd := Nat.le_of_dvd (by omega) ((Nat.modEq_iff_dvd' hn.le).1 hround)
  have hnC : n = R.indexed - (R.header cur).capacity := by omega
  exact ⟨by omega, hnC ▸ hk⟩

end ImplicitProducer

/-- `insertEntry`: the entry after the tail is free, or the index has to grow. -/
theorem Inv.insertEntry (I : Inv poolSize s g) {x : α} {ok : Bool} {k : ℕ}
    (hpc : (s.producer p).pc = .insertEntry x) (hs : s.producerStep poolSize p ok k = some s') :
    ∃ g', Inv poolSize s' g' := by
  have hroom := (I.lane p).pc
  rw [hpc] at hroom
  have hx : (s.producer p).indexed = ((s.producer p).tailIndex + 31) / 32 := by
    rw [ImplicitProducer.indexed, hpc]
  have hi : (s.producer p).inserted = (s.producer p).indexed := by
    rw [ImplicitProducer.inserted, hpc]
  simp only [Queue.producerStep, hpc] at hs
  split at hs
  · cases hs
    exact I.goto p .idle (hi.trans hx).symm hx.symm trivial (fun _ => rfl) trivial (by rw [hpc]; rfl)
  · rename_i h hcur
    have hring := (I.lane p).ring h hcur
    have hearly : ∀ {b : Bool}, (s.producer p).blockIndex = none → b = true := by
      intro b hnone
      rw [hcur] at hnone
      cases hnone
    split at hs
    · rename_i hfree
      cases hs
      exact I.goto p (.storeKey x _ _) (hi.trans hx).symm hx.symm
        ⟨hroom, h, hcur, rfl, rfl, hring.value_eq_none hfree⟩ hearly trivial (by rw [hpc]; rfl)
    · rename_i hused
      cases hs
      have hfull := hring.key_of_value hi (fun hv => hused (.inr hv))
      refine I.goto p (.newIndex x) (hi.trans hx).symm hx.symm ⟨hroom, h, hcur, ?_⟩ hearly trivial
        (by rw [hpc]; rfl)
      rw [hx] at hfull
      exact hfull

/-! ### The index -/

namespace ImplicitProducer

variable {R : ImplicitProducer α} {L : Lane C} {shift : ℕ → ℕ} {cur h e : ℕ}

omit [DecidableEq P]

theorem newBlockIndex_header (R : ImplicitProducer α) (hh : h ≤ cur) :
    (R.newBlockIndex cur).header h = R.header h := Function.update_of_ne (by omega) ..

theorem newBlockIndex_entries (R : ImplicitProducer α) (cur : ℕ) (he : e < R.entryCount) :
    (R.newBlockIndex cur).entries e = R.entries e := if_neg (by omega)

theorem RingOk.index_lt (H : R.RingOk shift cur) (hh : h ≤ cur) {q : ℕ}
    (hq : q < (R.header h).capacity) : (R.header h).index q < R.entryCount := by
  obtain ⟨q', hq', he, -⟩ := H.embed h hh q hq
  rw [← he]
  exact H.made q' hq'

theorem setKey_entries (R : ImplicitProducer α) (e k e' : ℕ) :
    (R.setKey e k).entries e' =
      if e' = e then { R.entries e with key := some k } else R.entries e' := by
  show update R.entries e _ e' = _
  by_cases h : e' = e
  · rw [h, Function.update_self, if_pos rfl]
  · rw [Function.update_of_ne h, if_neg h]

theorem setIndexTail_header (R : ImplicitProducer α) (cur t h : ℕ) :
    ((R.setIndexTail cur t).header h).capacity = (R.header h).capacity ∧
      ((R.setIndexTail cur t).header h).index = (R.header h).index := by
  show (update R.header cur _ h).capacity = _ ∧ (update R.header cur _ h).index = _
  by_cases hc : h = cur
  · rw [hc, Function.update_self]
    exact ⟨rfl, rfl⟩
  · rw [Function.update_of_ne hc]
    exact ⟨rfl, rfl⟩

theorem setIndexTail_tail (R : ImplicitProducer α) (cur t : ℕ) :
    ((R.setIndexTail cur t).header cur).tail = t := by
  show (update R.header cur _ cur).tail = t
  rw [Function.update_self]

/-- Another tail is nothing a consumer relies on. -/
theorem keeps_setIndexTail (c : C) (mine : ℕ → Prop) (R : ImplicitProducer α) (L : Lane C)
    (cur t : ℕ) (pc : EnqueuePc α) : Keeps c mine R L ((R.setIndexTail cur t).goto pc) L := by
  refine { Keeps.refl c mine R L with header := fun cur' hcur' => ⟨⟨cur', hcur', le_rfl⟩, fun h _ => ?_⟩,
                                      key := fun cur' _ h _ q _ hk => ?_, names := fun _ _ => ⟨rfl, rfl⟩ }
  · exact ⟨(R.setIndexTail_header cur t h).1, (R.setIndexTail_header cur t h).2, rfl⟩
  · show (R.entries (((R.setIndexTail cur t).header h).index q)).key ≠ none
    rw [(R.setIndexTail_header cur t h).2]
    exact hk

end ImplicitProducer

/-- `newIndex`: the index grows, or there is no memory and the call fails. -/
theorem Inv.newIndex (I : Inv poolSize s g) {x : α} {ok : Bool} {k : ℕ}
    (hpc : (s.producer p).pc = .newIndex x) (hs : s.producerStep poolSize p ok k = some s') :
    ∃ g', Inv poolSize s' g' := by
  obtain ⟨hroom, cur, hcur, hC, hk⟩ : (s.producer p).PcOk (.newIndex x) := hpc ▸ (I.lane p).pc
  have hx : (s.producer p).indexed = ((s.producer p).tailIndex + 31) / 32 := by
    rw [ImplicitProducer.indexed, hpc]
  have hi : (s.producer p).inserted = (s.producer p).indexed := by
    rw [ImplicitProducer.inserted, hpc]
  have hring := (I.lane p).ring cur hcur
  simp only [Queue.producerStep, hpc] at hs
  split at hs
  · cases hs
  · rename_i h hh
    obtain rfl : cur = h := Option.some.inj (hcur.symm.trans hh)
    split at hs
    · rename_i hbytes
      have hentry := hring.nextEntry_newIndex
      rw [if_neg (not_not_intro hring.copied), hentry, if_pos rfl] at hs
      cases hs
      have hring' := hring.newIndex (e := ((s.producer p).newBlockIndex cur).nextEntry (cur + 1))
        (t := ((((s.producer p).newBlockIndex cur).header (cur + 1)).tail + 1) %
          (((s.producer p).newBlockIndex cur).header (cur + 1)).capacity) hpc hC hk hbytes.2
      set t := ((((s.producer p).newBlockIndex cur).header (cur + 1)).tail + 1) %
          (((s.producer p).newBlockIndex cur).header (cur + 1)).capacity
      set R' : ImplicitProducer α := { (s.producer p).newBlockIndex cur with
        pc := .storeKey x (((s.producer p).newBlockIndex cur).nextEntry (cur + 1)) t }
      set M : Lane C := { g.lane p with
        shift := update (g.lane p).shift (cur + 1)
          ((s.producer p).indexed + ((s.producer p).header cur).capacity) }
      have hx' : R'.indexed = (s.producer p).indexed := by
        rw [hx]
        rfl
      refine I.ofProducer (R := R') (M := M) (o := g.owner) rfl rfl rfl rfl rfl (fun _ _ h => h)
        ?_ trivial (fun n hn ht => ?_) (fun c => ?_) (fun _ => .inl ⟨rfl, rfl⟩)
        ⟨I.pool.nodup, I.pool.free, I.pool.pool, I.pool.alloc, I.pool.clean⟩
      · refine ⟨(I.lane p).desk, (I.lane p).waiting, (I.lane p).length, hx' ▸ (I.lane p).room,
          fun h => ?_, fun cur' h => ?_, fun h => (I.lane p).tailBlock (hx' ▸ h),
          hroom, cur + 1, rfl, rfl, rfl, congrArg BlockIndexEntry.value hentry⟩
        · cases h
        · cases h
          exact hring'
      · have hlive := I.live p n (hx' ▸ hn) ht
        obtain ⟨q, hq, hidx⟩ := hlive.position cur hcur
        have he : (g.lane p).entryOf n < (s.producer p).entryCount := by
          rw [← hidx]
          exact hring.made q hq
        have hold : R'.header cur = (s.producer p).header cur :=
          (s.producer p).newBlockIndex_header le_rfl
        obtain ⟨B, hB, hcount, helem⟩ := hlive.block
        refine ⟨((s.producer p).newBlockIndex_entries cur he).trans hlive.entry, fun cur' h => ?_,
          hlive.owner, B, hB, hcount, fun j hj => (helem j hj).trans ?_⟩
        · cases h
          obtain ⟨q', hq', hidx', -⟩ := hring'.embed cur (Nat.le_succ _) q (by rw [hold]; exact hq)
          rw [hold, hidx] at hidx'
          exact ⟨q', hq', hidx'⟩
        · refine ImplicitProducer.content_congr ?_ ?_ ?_ (fun _ => rfl) _
          · rfl
          · rfl
          · rw [hpc]
            rfl
      · refine { Keeps.refl c (fun b => g.owner b = .dying c) (s.producer p) (g.lane p) with
          header := fun cur' h => ?_, key := fun cur' hcur' h hle q hq hk => ?_,
          made := Nat.le_add_right _ _, names := fun _ _ => ⟨rfl, rfl⟩,
          entry := fun e he k b _ hE => ((s.producer p).newBlockIndex_entries cur he).trans hE }
        · obtain rfl : cur = cur' := Option.some.inj (hcur.symm.trans h)
          refine ⟨⟨cur + 1, rfl, Nat.le_succ _⟩, fun h hle => ?_⟩
          rw [show R'.header h = (s.producer p).header h from
            (s.producer p).newBlockIndex_header hle]
          exact ⟨rfl, rfl, Function.update_of_ne (by omega) ..⟩
        · obtain rfl : cur = cur' := Option.some.inj (hcur.symm.trans hcur')
          show (R'.entries ((R'.header h).index q)).key ≠ none
          rw [show R'.header h = (s.producer p).header h from
            (s.producer p).newBlockIndex_header hle, show R'.entries _ = _ from
            (s.producer p).newBlockIndex_entries cur (hring.index_lt hle hq)]
          exact hk
    · cases hs
      refine I.goto p .idle (hi.trans hx).symm hx.symm trivial (fun h => ?_) trivial (by rw [hpc]; rfl)
      rw [hcur] at h
      cases h

/-- `storeKey`. -/
theorem Inv.storeKey (I : Inv poolSize s g) {x : α} {ok : Bool} {k : ℕ} {e t : ℕ}
    (hpc : (s.producer p).pc = .storeKey x e t) (hs : s.producerStep poolSize p ok k = some s') :
    ∃ g', Inv poolSize s' g' := by
  obtain ⟨hroom, cur, hcur, ht, he, hv⟩ : (s.producer p).PcOk (.storeKey x e t) := hpc ▸ (I.lane p).pc
  obtain ⟨n, hT⟩ : ∃ n, (s.producer p).tailIndex = 32 * n :=
    ⟨(s.producer p).tailIndex / 32, by have := hroom.1; omega⟩
  have hring := ((I.lane p).ring cur hcur).storeKey hpc hT he hv
  simp only [Queue.producerStep, hpc, Option.some.injEq] at hs
  subst hs
  set R' : ImplicitProducer α := { (s.producer p).setKey e (s.producer p).tailIndex with
    pc := .storeIndexTail x e t }
  have hentries : ∀ e', R'.entries e' = if e' = e then
      { (s.producer p).entries e with key := some (s.producer p).tailIndex }
      else (s.producer p).entries e' := (s.producer p).setKey_entries e _
  have hx : R'.indexed = (s.producer p).indexed := by
    rw [ImplicitProducer.indexed, ImplicitProducer.indexed, hpc]
    rfl
  refine I.ofProducer (R := R') (M := g.lane p) (o := g.owner) rfl rfl rfl rfl rfl (fun _ _ h => h)
    ?_ trivial (fun m hm htally => ?_) (fun c => ?_) (fun _ => .inl ⟨rfl, rfl⟩)
    ⟨I.pool.nodup, I.pool.free, I.pool.pool, I.pool.alloc, I.pool.clean⟩
  · refine ⟨(I.lane p).desk, (I.lane p).waiting, (I.lane p).length, hx ▸ (I.lane p).room,
      fun h => ?_, fun cur' h => ?_, fun h => (I.lane p).tailBlock (hx ▸ h), hroom, cur, hcur, ht, he, ?_⟩
    · rw [show (s.producer p).blockIndex = none from h] at hcur
      cases hcur
    · obtain rfl : cur = cur' := Option.some.inj (hcur.symm.trans h)
      exact hring
    · rw [hentries, if_pos rfl]
      show (⟨_, ((s.producer p).entries e).value⟩ : BlockIndexEntry) = _
      rw [hv]
      rfl
  · have hlive := I.live p m (hx ▸ hm) htally
    refine hlive.congr ?_ rfl (fun _ => ⟨rfl, rfl⟩) rfl rfl rfl fun j _ => ?_
    · rw [hentries, if_neg]
      intro h
      have hval := congrArg BlockIndexEntry.value hlive.entry
      rw [h, hv] at hval
      cases hval
    · refine ImplicitProducer.content_congr ?_ ?_ ?_ (fun _ => rfl) _
      · rfl
      · rfl
      · rw [hpc]
        rfl
  · refine { Keeps.refl c (fun b => g.owner b = .dying c) (s.producer p) (g.lane p) with
      key := fun _ _ h _ q _ hk => ?_, names := fun _ _ => ⟨rfl, rfl⟩,
      entry := fun e' _ k b _ hE => ?_ }
    · show (R'.entries (((s.producer p).header h).index q)).key ≠ none
      rw [hentries]
      split
      · simp
      · exact hk
    · rw [hentries, if_neg]
      · exact hE
      · rintro rfl
        rw [hE] at hv
        cases hv

/-- The tail of the index moves, forward or back. -/
theorem Inv.moveTail (I : Inv poolSize s g) {cur t : ℕ} (pc : EnqueuePc α)
    (hcur : (s.producer p).blockIndex = some cur)
    (hring : (((s.producer p).setIndexTail cur t).goto pc).RingOk (g.lane p).shift cur)
    (hx : (((s.producer p).setIndexTail cur t).goto pc).indexed = (s.producer p).indexed)
    (hpc : (((s.producer p).setIndexTail cur t).goto pc).PcOk pc)
    (hheld : HeldOk s.blocks g.owner p pc) (hbuilt : pc.built = (s.producer p).pc.built) :
    ∃ g', Inv poolSize (s.setProducer p (((s.producer p).setIndexTail cur t).goto pc)) g' := by
  refine I.ofProducer (M := g.lane p) (o := g.owner) rfl rfl rfl rfl rfl (fun _ _ h => h) ?_ hheld
    (fun n hn ht => ?_) (fun c => (s.producer p).keeps_setIndexTail c _ _ cur t pc)
    (fun _ => .inl ⟨rfl, rfl⟩)
    ⟨I.pool.nodup, I.pool.free, I.pool.pool, I.pool.alloc, I.pool.clean⟩
  · refine ⟨(I.lane p).desk, (I.lane p).waiting, (I.lane p).length, hx ▸ (I.lane p).room,
      fun h => ?_, fun cur' h => ?_, fun h => (I.lane p).tailBlock (hx ▸ h), hpc⟩
    · rw [show (s.producer p).blockIndex = none from h] at hcur
      cases hcur
    · obtain rfl : cur = cur' := Option.some.inj (hcur.symm.trans h)
      exact hring
  · refine (I.live p n (hx ▸ hn) ht).congr rfl rfl ((s.producer p).setIndexTail_header cur t) rfl rfl
      rfl fun j _ => ?_
    refine ImplicitProducer.content_congr ?_ ?_ hbuilt (fun _ => rfl) _ <;> rfl

/-- `storeIndexTail`. -/
theorem Inv.storeIndexTail (I : Inv poolSize s g) {x : α} {ok : Bool} {k : ℕ} {e t : ℕ}
    (hpc : (s.producer p).pc = .storeIndexTail x e t) (hs : s.producerStep poolSize p ok k = some s') :
    ∃ g', Inv poolSize s' g' := by
  obtain ⟨hroom, cur, hcur, ht, he, hE⟩ : (s.producer p).PcOk (.storeIndexTail x e t) :=
    hpc ▸ (I.lane p).pc
  have hidx : ((s.producer p).header cur).index t = e := by rw [ht, he]; rfl
  have hring := ((I.lane p).ring cur hcur).storeIndexTail hpc hroom.1 ht
    (by rw [ImplicitProducer.keyAt, hidx, hE]; simp)
  have hhead := (s.producer p).setIndexTail_header cur t cur
  simp only [Queue.producerStep, hpc, hcur, Option.map_some, Option.some.injEq] at hs
  subst hs
  refine I.moveTail (.tryPool x e) hcur hring ?_ ⟨hroom, cur, hcur, ?_, hE⟩ trivial
    (by rw [hpc]; rfl)
  · rw [ImplicitProducer.indexed, ImplicitProducer.indexed, hpc]
    rfl
  · show e = ((((s.producer p).setIndexTail cur t).header cur).index
      (((s.producer p).setIndexTail cur t).header cur).tail)
    rw [hhead.2, (s.producer p).setIndexTail_tail, hidx]

/-- `rewind`. -/
theorem Inv.rewind (I : Inv poolSize s g) {ok : Bool} {k : ℕ} {e : ℕ}
    (hpc : (s.producer p).pc = .rewind e) (hs : s.producerStep poolSize p ok k = some s') :
    ∃ g', Inv poolSize s' g' := by
  obtain ⟨hroom, cur, hcur, he, hE⟩ : (s.producer p).PcOk (.rewind e) := hpc ▸ (I.lane p).pc
  have hring := ((I.lane p).ring cur hcur).rewind hpc hroom.1
  simp only [Queue.producerStep, hpc, hcur, Option.map_some, Option.some.injEq] at hs
  subst hs
  refine I.moveTail (.clearValue e) hcur hring ?_ (congrArg BlockIndexEntry.value hE) trivial
    (by rw [hpc]; rfl)
  rw [ImplicitProducer.indexed, ImplicitProducer.indexed, hpc]
  rfl

/-- `clearValue`: there is no value yet. -/
theorem Inv.clearValue (I : Inv poolSize s g) {ok : Bool} {k : ℕ} {e : ℕ}
    (hpc : (s.producer p).pc = .clearValue e) (hs : s.producerStep poolSize p ok k = some s') :
    ∃ g', Inv poolSize s' g' := by
  have hv : ((s.producer p).entries e).value = none := by
    have h : (s.producer p).PcOk (.clearValue e) := hpc ▸ (I.lane p).pc
    exact h
  have hsame : (s.producer p).setValue e none = s.producer p := by
    have hentry : { (s.producer p).entries e with value := none } = (s.producer p).entries e := by
      rw [← hv]
    rw [ImplicitProducer.setValue, hentry, Function.update_eq_self]
  have hx : (s.producer p).indexed = ((s.producer p).tailIndex + 31) / 32 := by
    rw [ImplicitProducer.indexed, hpc]
  have hi : (s.producer p).inserted = (s.producer p).indexed := by
    rw [ImplicitProducer.inserted, hpc]
  simp only [Queue.producerStep, hpc, hsame, Option.some.injEq] at hs
  subst hs
  exact I.goto p .idle (hi.trans hx).symm hx.symm trivial (fun _ => rfl) trivial (by rw [hpc]; rfl)

/-! ### A block -/

/-- **`requisition_block`** gives a block that belongs to nobody. -/
theorem Inv.requisition (I : Inv poolSize s g) {x : α} {e b : ℕ}
    (hi : ((s.producer p).goto (.resetEmpty x e b)).inserted = (s.producer p).inserted)
    (hx : ((s.producer p).goto (.resetEmpty x e b)).indexed = (s.producer p).indexed)
    (hpc : (s.producer p).PcOk (.resetEmpty x e b)) (hbuilt : (s.producer p).pc.built = none)
    (hprod : s'.producer = update s.producer p ((s.producer p).goto (.resetEmpty x e b)))
    (hcons : s'.consumer = s.consumer) (hret : s'.returned = s.returned)
    (hfault : s'.fault = s.fault) (hb : g.owner b = .fresh ∨ g.owner b = .free)
    (hblocks : ∀ b', b' ≠ b → s'.blocks b' = s.blocks b')
    (hpool : PoolOk poolSize s' (update g.owner b (.held p))) : ∃ g', Inv poolSize s' g' := by
  have hself : update g.owner b (.held p) b = .held p := Function.update_self ..
  have hframe : ∀ b', b' ≠ b → s'.blocks b' = s.blocks b' ∧ update g.owner b (.held p) b' = g.owner b' :=
    fun b' hne => ⟨hblocks b' hne, Function.update_of_ne hne ..⟩
  refine I.ofProducer (M := g.lane p) hprod hcons hret hfault rfl (fun _ _ h => h)
    ((I.lane p).goto hi hx hpc fun h => ?_) hself (fun n hn ht => ?_)
    (fun c => (s.producer p).keeps_goto c _ _ _) (fun b' => ?_) hpool
  · obtain ⟨-, cur, hcur, -⟩ := hpc
    rw [hcur] at h
    cases h
  · have hlive := I.live p n (hx ▸ hn) ht
    have hne : (g.lane p).blockOf n ≠ b := by
      rintro rfl
      rw [hlive.owner] at hb
      simp at hb
    have hlive' : Live s.blocks g.owner p ((s.producer p).goto (.resetEmpty x e b)) (g.lane p) n := by
      refine hlive.congr rfl rfl (fun _ => ⟨rfl, rfl⟩) rfl rfl rfl fun j _ => ?_
      refine ImplicitProducer.content_congr ?_ ?_ ?_ (fun _ => rfl) _
      · rfl
      · rfl
      · exact hbuilt.symm
    exact hlive'.frame (hframe _ hne).1 (hframe _ hne).2
  · by_cases hne : b' = b
    · subst hne
      rcases hb with hb | hb
      · exact .inr (.inl hb)
      · exact .inr (.inr (.inl hb))
    · exact .inl (hframe b' hne)

/-- `tryPool`: the blocks of the initial pool are given out once each. -/
theorem Inv.tryPool (I : Inv poolSize s g) {x : α} {ok : Bool} {k : ℕ} {e : ℕ}
    (hpc : (s.producer p).pc = .tryPool x e) (hs : s.producerStep poolSize p ok k = some s') :
    ∃ g', Inv poolSize s' g' := by
  have hok : (s.producer p).PcOk (.tryPool x e) := hpc ▸ (I.lane p).pc
  have hi : ∀ b, ((s.producer p).goto (.resetEmpty x e b)).inserted = (s.producer p).inserted := by
    intro b
    rw [ImplicitProducer.inserted, ImplicitProducer.inserted, hpc]
    rfl
  have hx : ∀ b, ((s.producer p).goto (.resetEmpty x e b)).indexed = (s.producer p).indexed := by
    intro b
    rw [ImplicitProducer.indexed, ImplicitProducer.indexed, hpc]
    rfl
  simp only [Queue.producerStep, hpc] at hs
  split at hs
  · rename_i hlt
    cases hs
    set b := s.initialBlockPoolIndex
    have hfresh := I.pool.pool b le_rfl hlt
    refine I.requisition (b := b) (hi b) (hx b) hok (by rw [hpc]; rfl) rfl rfl rfl rfl (.inl hfresh)
      (fun _ _ => rfl) ⟨I.pool.nodup, fun b' hb' => ?_, fun b' h₁ h₂ => ?_,
        ⟨I.pool.alloc.1, fun b' hb' => ?_⟩, fun b' hb' => ?_⟩
    · have hfree := I.pool.free b' hb'
      rw [Function.update_of_ne, hfree]
      rintro rfl
      rw [hfresh] at hfree
      cases hfree
    · replace h₁ : b + 1 ≤ b' := h₁
      rw [Function.update_of_ne (by omega)]
      exact I.pool.pool b' (by omega) h₂
    · have h₁ := I.pool.alloc.1
      replace hb' : s.nextBlock ≤ b' := hb'
      rw [Function.update_of_ne (by omega)]
      exact I.pool.alloc.2 b' hb'
    · by_cases hne : b' = b
      · rw [hne]
        exact I.pool.clean b (.inr (.inr (.inr ⟨hfresh, hlt⟩)))
      · rw [Function.update_of_ne hne] at hb'
        exact I.pool.clean b' hb'
  · cases hs
    refine I.goto p (.tryFreeList x e) ?_ ?_ hok (fun h => ?_) trivial (by rw [hpc]; rfl)
    · rw [ImplicitProducer.inserted, ImplicitProducer.inserted, hpc]
      rfl
    · rw [ImplicitProducer.indexed, ImplicitProducer.indexed, hpc]
      rfl
    · obtain ⟨-, cur, hcur, -⟩ := hok
      rw [hcur] at h
      cases h

/-- `tryFreeList`. -/
theorem Inv.tryFreeList (I : Inv poolSize s g) {x : α} {ok : Bool} {k : ℕ} {e : ℕ}
    (hpc : (s.producer p).pc = .tryFreeList x e) (hs : s.producerStep poolSize p ok k = some s') :
    ∃ g', Inv poolSize s' g' := by
  have hok : (s.producer p).PcOk (.tryFreeList x e) := hpc ▸ (I.lane p).pc
  simp only [Queue.producerStep, hpc] at hs
  split at hs
  · rename_i b hb
    cases hs
    have hnd := I.pool.nodup
    obtain ⟨hk, rfl⟩ := List.getElem?_eq_some_iff.1 hb
    set b := s.freeList[k]
    have hfree := I.pool.free b (List.getElem_mem hk)
    refine I.requisition (b := b) ?_ ?_ hok (by rw [hpc]; rfl) rfl rfl rfl rfl (.inr hfree)
      (fun _ _ => rfl) ⟨hnd.eraseIdx k, fun b' hb' => ?_, fun b' h₁ h₂ => ?_,
        ⟨I.pool.alloc.1, fun b' hb' => ?_⟩, fun b' hb' => ?_⟩
    · rw [ImplicitProducer.inserted, ImplicitProducer.inserted, hpc]
      rfl
    · rw [ImplicitProducer.indexed, ImplicitProducer.indexed, hpc]
      rfl
    · rw [Function.update_of_ne]
      · exact I.pool.free b' (List.mem_of_mem_eraseIdx hb')
      · rintro rfl
        obtain ⟨j, hj, hjk, hbj⟩ := List.mem_eraseIdx_iff_getElem.1 hb'
        exact hjk ((List.Nodup.getElem_inj_iff hnd).1 hbj)
    · have hfresh := I.pool.pool b' h₁ h₂
      rw [Function.update_of_ne, hfresh]
      rintro rfl
      rw [hfree] at hfresh
      cases hfresh
    · have hfresh := I.pool.alloc.2 b' hb'
      rw [Function.update_of_ne, hfresh]
      rintro rfl
      rw [hfree] at hfresh
      cases hfresh
    · by_cases hne : b' = b
      · rw [hne]
        exact I.pool.clean b (.inl hfree)
      · rw [Function.update_of_ne hne] at hb'
        exact I.pool.clean b' hb'
  · cases hs
    refine I.goto p (.create x e) ?_ ?_ hok (fun h => ?_) trivial (by rw [hpc]; rfl)
    · rw [ImplicitProducer.inserted, ImplicitProducer.inserted, hpc]
      rfl
    · rw [ImplicitProducer.indexed, ImplicitProducer.indexed, hpc]
      rfl
    · obtain ⟨-, cur, hcur, -⟩ := hok
      rw [hcur] at h
      cases h

/-- `create`: a new block, or no memory. -/
theorem Inv.create (I : Inv poolSize s g) {x : α} {ok : Bool} {k : ℕ} {e : ℕ}
    (hpc : (s.producer p).pc = .create x e) (hs : s.producerStep poolSize p ok k = some s') :
    ∃ g', Inv poolSize s' g' := by
  have hok : (s.producer p).PcOk (.create x e) := hpc ▸ (I.lane p).pc
  simp only [Queue.producerStep, hpc] at hs
  split at hs
  · cases hs
    set b := s.nextBlock
    obtain ⟨hle, halloc⟩ := I.pool.alloc
    have hfresh := halloc b le_rfl
    refine I.requisition (b := b) ?_ ?_ hok (by rw [hpc]; rfl) rfl rfl rfl rfl (.inl hfresh)
      (fun b' hne => Function.update_of_ne hne ..) ⟨I.pool.nodup, fun b' hb' => ?_, fun b' h₁ h₂ => ?_,
        ⟨Nat.le_succ_of_le hle, fun b' hb' => ?_⟩, fun b' hb' => ?_⟩
    · rw [ImplicitProducer.inserted, ImplicitProducer.inserted, hpc]
      rfl
    · rw [ImplicitProducer.indexed, ImplicitProducer.indexed, hpc]
      rfl
    · have hfree := I.pool.free b' hb'
      rw [Function.update_of_ne, hfree]
      rintro rfl
      rw [hfresh] at hfree
      cases hfree
    · rw [Function.update_of_ne (by omega)]
      exact I.pool.pool b' h₁ h₂
    · replace hb' : b + 1 ≤ b' := hb'
      rw [Function.update_of_ne (by omega)]
      exact halloc b' (by omega)
    · show Clean (update s.blocks b (some {})) b'
      by_cases hne : b' = b
      · subst hne
        exact ⟨{}, Function.update_self .., fun _ _ => rfl⟩
      · rw [Function.update_of_ne hne] at hb'
        obtain ⟨B, hB, hclean⟩ := I.pool.clean b' hb'
        exact ⟨B, by rw [Function.update_of_ne hne, hB], hclean⟩
  · cases hs
    refine I.goto p (.rewind e) ?_ ?_ hok (fun h => ?_) trivial (by rw [hpc]; rfl)
    · rw [ImplicitProducer.inserted, ImplicitProducer.inserted, hpc]
      rfl
    · rw [ImplicitProducer.indexed, ImplicitProducer.indexed, hpc]
      rfl
    · obtain ⟨-, cur, hcur, -⟩ := hok
      rw [hcur] at h
      cases h

omit [DecidableEq P] in
/-- The block a thread got is not one of a sub-queue. -/
theorem Live.blockOf_ne_of_held {b n : ℕ} (H : Live s.blocks g.owner p (s.producer p) (g.lane p) n)
    (ho : g.owner b = .held p) : (g.lane p).blockOf n ≠ b := by
  rintro rfl
  rw [H.owner] at ho
  cases ho

/-- `resetEmpty`: the block is there. -/
theorem Inv.resetEmpty (I : Inv poolSize s g) {x : α} {ok : Bool} {k : ℕ} {e b : ℕ}
    (hpc : (s.producer p).pc = .resetEmpty x e b) (hs : s.producerStep poolSize p ok k = some s') :
    ∃ g', Inv poolSize s' g' := by
  have hok : (s.producer p).PcOk (.resetEmpty x e b) := hpc ▸ (I.lane p).pc
  have ho : HeldOk s.blocks g.owner p (.resetEmpty x e b) := hpc ▸ I.held p
  replace ho : g.owner b = .held p := ho
  obtain ⟨B, hB, hclean⟩ := I.pool.clean b (.inr (.inl ⟨p, ho⟩))
  simp only [Queue.producerStep, hpc, hB, Option.some.injEq] at hs
  subst hs
  set blocks' := update s.blocks b (some { B with elementsCompletelyDequeued := 0 }) with hblocks
  have hx : ((s.producer p).goto (.storeValue x e b)).indexed = (s.producer p).indexed := by
    rw [ImplicitProducer.indexed, ImplicitProducer.indexed, hpc]
    rfl
  refine I.ofProducer (R := (s.producer p).goto (.storeValue x e b)) (M := g.lane p) (o := g.owner)
    rfl rfl rfl rfl rfl (fun _ _ h => h) ((I.lane p).goto ?_ hx hok fun h => ?_)
    ⟨ho, _, Function.update_self .., rfl⟩ (fun n hn ht => ?_)
    (fun c => (s.producer p).keeps_goto c _ _ _) (fun b' => ?_)
    ⟨I.pool.nodup, I.pool.free, I.pool.pool, I.pool.alloc, fun b' hb' => ?_⟩
  · rw [ImplicitProducer.inserted, ImplicitProducer.inserted, hpc]
    rfl
  · obtain ⟨-, cur, hcur, -⟩ := hok
    rw [hcur] at h
    cases h
  · have hlive := I.live p n (hx ▸ hn) ht
    have hlive' : Live s.blocks g.owner p ((s.producer p).goto (.storeValue x e b)) (g.lane p) n := by
      refine hlive.congr rfl rfl (fun _ => ⟨rfl, rfl⟩) rfl rfl rfl fun j _ => ?_
      refine ImplicitProducer.content_congr ?_ ?_ ?_ (fun _ => rfl) _
      · rfl
      · rfl
      · rw [hpc]
        rfl
    exact hlive'.frame (Function.update_of_ne (hlive.blockOf_ne_of_held ho) ..) rfl
  · by_cases hne : b' = b
    · rw [hne]
      exact .inr (.inr (.inr (.inl ho)))
    · exact .inl ⟨Function.update_of_ne hne .., rfl⟩
  · show Clean blocks' b'
    by_cases hne : b' = b
    · rw [hne]
      exact ⟨_, Function.update_self .., hclean⟩
    · obtain ⟨B', hB', hclean'⟩ := I.pool.clean b' hb'
      exact ⟨B', by rw [hblocks, Function.update_of_ne hne, hB'], hclean'⟩

namespace ImplicitProducer

variable {R : ImplicitProducer α} {L : Lane C} {i n : ℕ}

omit [DecidableEq P]

/-- Nobody has an element past the tail. -/
theorem LaneOk.slot_of_le (H : R.LaneOk L) (hi : R.tailIndex ≤ i) : L.slot i = .waiting :=
  (H.waiting i).2 (H.tailIndex_lt.1.trans hi)

theorem LaneOk.tally_eq_zero (H : R.LaneOk L) (hT : R.tailIndex ≤ 32 * n) : tally L.slot n = 0 := by
  rw [tally, Finset.card_eq_zero, Finset.filter_eq_empty_iff]
  intro j _
  rw [H.slot_of_le (by omega)]
  simp [Slot.done]

theorem content_of_le (slot : ℕ → Slot C) (hb : R.pc.built = none) (hi : R.tailIndex ≤ i) :
    R.content slot i = none := by
  rw [content, if_neg (by omega), hb, ite_self]

end ImplicitProducer

/-- `storeValue`: the block becomes the next one of the sub-queue. -/
theorem Inv.storeValue (I : Inv poolSize s g) {x : α} {ok : Bool} {k : ℕ} {e b : ℕ}
    (hpc : (s.producer p).pc = .storeValue x e b) (hs : s.producerStep poolSize p ok k = some s') :
    ∃ g', Inv poolSize s' g' := by
  obtain ⟨hroom, cur, hcur, he, hE⟩ : (s.producer p).PcOk (.storeValue x e b) := hpc ▸ (I.lane p).pc
  obtain ⟨ho, B, hB, hcount⟩ : HeldOk s.blocks g.owner p (.storeValue x e b) := hpc ▸ I.held p
  obtain ⟨B', hB', hclean⟩ := I.pool.clean b (.inr (.inl ⟨p, ho⟩))
  obtain rfl : B = B' := Option.some.inj (hB.symm.trans hB')
  obtain ⟨n, hT⟩ : ∃ n, (s.producer p).tailIndex = 32 * n :=
    ⟨(s.producer p).tailIndex / 32, by have := hroom.1; omega⟩
  have hlane := I.lane p
  have hring := (hlane.ring cur hcur).storeValue hpc hT he (hT ▸ hE)
  simp only [Queue.producerStep, hpc, Option.some.injEq] at hs
  subst hs
  set R' : ImplicitProducer α :=
    { (s.producer p).setValue e (some b) with tailBlock := some b, pc := .construct x } with hR'
  have hx : (s.producer p).indexed = n := by
    rw [ImplicitProducer.indexed, hpc]
    show ((s.producer p).tailIndex + 31) / 32 = n
    omega
  have hx' : R'.indexed = n + 1 := by
    show (s.producer p).tailIndex / 32 + 1 = n + 1
    omega
  set M : Lane C :=
    { g.lane p with
      blockOf := update (g.lane p).blockOf n b
      entryOf := update (g.lane p).entryOf n e } with hM
  have hnames : ∀ m, m ≠ n → M.blockOf m = (g.lane p).blockOf m ∧ M.entryOf m = (g.lane p).entryOf m :=
    fun m hm => ⟨Function.update_of_ne hm .., Function.update_of_ne hm ..⟩
  have hbn : M.blockOf n = b := Function.update_self ..
  have hen : M.entryOf n = e := Function.update_self ..
  have hentry : R'.entries e = ⟨some (32 * n), some b⟩ := by
    show ((s.producer p).setValue e (some b)).entries e = _
    rw [(s.producer p).setValue_entries, if_pos rfl, hE, hT]
  refine I.ofProducer (R := R') (M := M) (o := update g.owner b (.live p n)) rfl rfl rfl rfl rfl
    (fun _ _ h => h) ?_ trivial (fun m hm ht => ?_) (fun c => ?_) (fun b' => ?_) ?_
  · refine ⟨hlane.desk, hlane.waiting, hlane.length, ?_, fun h => ?_, fun cur' h => ?_, fun _ => ?_,
      trivial⟩
    · rw [hx']
      have := hroom.2
      show 32 * (n + 1) < (s.producer p).headIndex + 2 ^ 63
      omega
    · rw [show (s.producer p).blockIndex = none from h] at hcur
      cases hcur
    · obtain rfl : cur = cur' := Option.some.inj (hcur.symm.trans h)
      exact hring
    · show some b = some (M.blockOf ((s.producer p).tailIndex / 32))
      rw [show (s.producer p).tailIndex / 32 = n by omega, hbn]
  · by_cases hmn : m = n
    · subst hmn
      refine ⟨by rw [hen, hbn]; exact hentry, fun cur' h => ?_, ?_, B, ?_, ?_, fun j hj => ?_⟩
      · obtain rfl : cur = cur' := Option.some.inj (hcur.symm.trans h)
        exact ⟨((s.producer p).header cur).tail, (hlane.ring cur hcur).tail_lt cur le_rfl,
          by rw [hen]; exact he.symm⟩
      · rw [hbn, Function.update_self]
      · rw [hbn]
        exact hB
      · rw [hcount]
        exact (hlane.tally_eq_zero hT.le).symm
      · rw [hclean j hj]
        exact (ImplicitProducer.content_of_le (R := R') _ rfl
          (show (s.producer p).tailIndex ≤ 32 * m + j by omega)).symm
    · have hlive := I.live p m (by rw [hx]; omega) ht
      have hne := hlive.blockOf_ne_of_held ho
      have hlive' : Live s.blocks g.owner p R' M m := by
        refine hlive.congr ?_ rfl (fun _ => ⟨rfl, rfl⟩) (hnames m hmn).1 (hnames m hmn).2 rfl
          fun j _ => ?_
        · show ((s.producer p).setValue e (some b)).entries _ = _
          rw [(s.producer p).setValue_entries, if_neg]
          intro h
          have hval := congrArg BlockIndexEntry.value hlive.entry
          rw [h, hE] at hval
          cases hval
        · refine ImplicitProducer.content_congr ?_ ?_ ?_ (fun _ => rfl) _
          · rfl
          · rfl
          · rw [hpc]
            rfl
      refine hlive'.frame rfl ?_
      rw [(hnames m hmn).1, Function.update_of_ne hne]
  · refine { Keeps.refl c (fun b => g.owner b = .dying c) (s.producer p) (g.lane p) with
      key := fun _ _ h _ q _ hk => ?_, names := fun m hm => hnames m (by omega),
      entry := fun e' _ k b' _ hE' => ?_ }
    · show (((s.producer p).setValue e (some b)).entries (((s.producer p).header h).index q)).key ≠ none
      rw [(s.producer p).setValue_key]
      exact hk
    · show ((s.producer p).setValue e (some b)).entries e' = _
      rw [(s.producer p).setValue_entries, if_neg]
      · exact hE'
      · rintro rfl
        rw [hE] at hE'
        cases hE'
  · by_cases hne : b' = b
    · rw [hne]
      exact .inr (.inr (.inr (.inl ho)))
    · exact .inl ⟨rfl, Function.update_of_ne hne ..⟩
  · have hstay : ∀ b' (f : Owner P C), f ≠ .held p → g.owner b' = f →
        update g.owner b (.live p n) b' = f := by
      intro b' f hf hb'
      rw [Function.update_of_ne, hb']
      rintro rfl
      exact hf (hb'.symm.trans ho)
    refine ⟨I.pool.nodup, fun b' hb' => hstay b' _ (by simp) (I.pool.free b' hb'),
      fun b' h₁ h₂ => hstay b' _ (by simp) (I.pool.pool b' h₁ h₂),
      ⟨I.pool.alloc.1, fun b' hb' => hstay b' _ (by simp) (I.pool.alloc.2 b' hb')⟩, fun b' hb' => ?_⟩
    by_cases hne : b' = b
    · rw [hne, Function.update_self] at hb'
      simp at hb'
    · rw [Function.update_of_ne hne] at hb'
      exact I.pool.clean b' hb'

/-! ### The element -/

/-- `construct`: the place after the last element is empty. -/
theorem Inv.construct (I : Inv poolSize s g) {x : α} {ok : Bool} {k : ℕ}
    (hpc : (s.producer p).pc = .construct x) (hs : s.producerStep poolSize p ok k = some s') :
    ∃ g', Inv poolSize s' g' := by
  have hlane := I.lane p
  set T := (s.producer p).tailIndex with hT
  have hx : (s.producer p).indexed = T / 32 + 1 := by
    rw [ImplicitProducer.indexed, hpc]
  have hwait := hlane.slot_of_le hT.ge
  have htail := hlane.tailBlock (by omega)
  have hlive := I.live p (T / 32) (by omega) (tally_lt_of_not_done (by rw [hwait]; rfl))
  obtain ⟨B, hB, hcount, helem⟩ := hlive.block
  set b := (g.lane p).blockOf (T / 32) with hb
  have hempty : B.elements (T % 32) = none := by
    rw [helem _ (by omega), ImplicitProducer.content_of_le _ (by rw [hpc]; rfl) (by omega)]
  set R' := (s.producer p).goto (.storeTail x) with hR'
  have hstep : s.producerStep poolSize p ok k = some ((s.setProducer p R').setBlock b
      { B with elements := update B.elements (T % 32) (some x) }) := by
    simp only [Queue.producerStep, hR', ImplicitProducer.goto, hpc, htail, hB, ← hT, hempty]
  rw [hstep, Option.some.injEq] at hs
  subst hs
  have hx' : R'.indexed = (s.producer p).indexed := hx.symm
  -- only the place of the new element changes
  have hcontent : ∀ i, R'.content (g.lane p).slot i =
      if i = T then some x else (s.producer p).content (g.lane p).slot i := by
    intro i
    show (if i < T then _ else if i = T then some x else none) = _
    rw [ImplicitProducer.content, hpc, ← hT]
    by_cases hi : i = T
    · rw [if_neg (by omega), if_pos hi, if_pos hi]
    · rw [if_neg hi, if_neg hi, if_neg hi]
      rfl
  refine I.ofProducer (R := R') (M := g.lane p) (o := g.owner) rfl rfl rfl rfl rfl (fun _ _ h => h)
    (hlane.goto ?_ hx' trivial fun h => ?_) trivial (fun n hn ht => ?_)
    (fun c => (s.producer p).keeps_goto c _ _ _) (fun b' => ?_)
    ⟨I.pool.nodup, I.pool.free, I.pool.pool, I.pool.alloc, fun b' hb' => ?_⟩
  · rw [ImplicitProducer.inserted, ImplicitProducer.inserted, hpc]
    exact hx'
  · have hearly := (hlane.noIndex h).2
    rw [hpc] at hearly
    cases hearly
  · rw [hx'] at hn
    by_cases hnT : n = T / 32
    · subst hnT
      refine ⟨hlive.entry, hlive.position, hlive.owner, _, Function.update_self .., hcount,
        fun j hj => ?_⟩
      rw [hcontent]
      show update B.elements (T % 32) (some x) j = _
      by_cases hj' : j = T % 32
      · rw [hj', Function.update_self, if_pos (by omega)]
      · rw [Function.update_of_ne hj', if_neg (by omega), helem j hj]
    · have hlive' := I.live p n hn ht
      have hne : (g.lane p).blockOf n ≠ b := hlive.blockOf_ne hlive' fun h => hnT h.2.symm
      have hcong : Live s.blocks g.owner p R' (g.lane p) n := by
        refine hlive'.congr rfl rfl (fun _ => ⟨rfl, rfl⟩) rfl rfl rfl fun j hj => ?_
        rw [hcontent, if_neg (by omega)]
      exact hcong.frame (Function.update_of_ne hne ..) rfl
  · by_cases hne : b' = b
    · rw [hne]
      exact .inr (.inr (.inr (.inr ⟨_, hlive.owner⟩)))
    · exact .inl ⟨Function.update_of_ne hne .., rfl⟩
  · obtain ⟨B', hB', hclean'⟩ := I.pool.clean b' hb'
    refine ⟨B', ?_, hclean'⟩
    show update s.blocks b _ b' = _
    rw [Function.update_of_ne, hB']
    rintro rfl
    rw [hlive.owner] at hb'
    simp at hb'

/-- `storeTail`: the element is published. -/
theorem Inv.storeTail (I : Inv poolSize s g) {x : α} {ok : Bool} {k : ℕ}
    (hpc : (s.producer p).pc = .storeTail x) (hs : s.producerStep poolSize p ok k = some s') :
    ∃ g', Inv poolSize s' g' := by
  have hlane := I.lane p
  simp only [Queue.producerStep, hpc, Option.some.injEq] at hs
  subst hs
  set T := (s.producer p).tailIndex with hT
  set R' : ImplicitProducer α := { s.producer p with
    tailIndex := T + 1
    published := (s.producer p).published ++ [x]
    pc := .idle } with hR'
  have hx : (s.producer p).indexed = T / 32 + 1 := by
    rw [ImplicitProducer.indexed, hpc]
  have hx' : R'.indexed = (s.producer p).indexed := by
    rw [hx]
    show (T + 1 + 31) / 32 = T / 32 + 1
    omega
  have hi' : R'.inserted = (s.producer p).inserted := by
    rw [show R'.inserted = R'.indexed from rfl, hx', ImplicitProducer.inserted, hpc]
  have hlen := hlane.length
  have hpub : ∀ (i : ℕ) y, (s.producer p).published[i]? = some y → R'.published[i]? = some y := by
    intro i y hy
    rw [List.getElem?_append_left (List.getElem?_eq_some_iff.1 hy).1, hy]
  -- the element was there before it was published
  have hcontent : ∀ i, R'.content (g.lane p).slot i = (s.producer p).content (g.lane p).slot i := by
    intro i
    show (if i < T + 1 then if _ then ((s.producer p).published ++ [x])[i]? else none
      else if i = T + 1 then none else none) = _
    rw [ImplicitProducer.content, hpc, ← hT, ite_self]
    rcases lt_trichotomy i T with hi | rfl | hi
    · rw [if_pos (by omega), if_pos hi, List.getElem?_append_left (by omega)]
    · rw [if_pos (Nat.lt_succ_self T), if_neg (lt_irrefl T), if_pos rfl, hlane.slot_of_le le_rfl,
        List.getElem?_append_right hlen.le, hlen]
      simp [← hT, EnqueuePc.built, Slot.full]
    · rw [if_neg (by omega), if_neg (by omega), if_neg (by omega)]
  refine I.ofProducer (R := R') (M := g.lane p) (o := g.owner) rfl rfl rfl rfl rfl hpub ?_ trivial
    (fun n hn ht => ?_) (fun c => ?_) (fun _ => .inl ⟨rfl, rfl⟩)
    ⟨I.pool.nodup, I.pool.free, I.pool.pool, I.pool.alloc, I.pool.clean⟩
  · refine ⟨hlane.desk.mono (Nat.le_succ _), hlane.waiting, ?_, hx' ▸ hlane.room, fun h => ?_,
      fun cur hcur => ?_, fun h => ?_, trivial⟩
    · rw [List.length_append, hlen]
      rfl
    · have hearly := (hlane.noIndex h).2
      rw [hpc] at hearly
      cases hearly
    · exact (hlane.ring cur hcur).congr rfl rfl rfl rfl (fun _ => rfl) (fun _ _ h => h) hi' hx'
    · rw [hx'] at h
      replace h : T + 1 < 32 * (s.producer p).indexed := h
      have htail := hlane.tailBlock (by omega)
      show (s.producer p).tailBlock = some ((g.lane p).blockOf ((T + 1) / 32))
      rw [htail, show (T + 1) / 32 = T / 32 by omega]
  · refine (I.live p n (hx' ▸ hn) ht).congr rfl rfl (fun _ => ⟨rfl, rfl⟩) rfl rfl rfl fun j _ => ?_
    exact hcontent _
  · exact { Keeps.refl c (fun b => g.owner b = .dying c) (s.producer p) (g.lane p) with
      published := hpub }

/-! ### All steps -/

/-- **A step of a thread that enqueues** keeps the invariant. -/
theorem Inv.producerStep (I : Inv poolSize s g) {ok : Bool} {k : ℕ}
    (hs : s.producerStep poolSize p ok k = some s') : ∃ g', Inv poolSize s' g' := by
  cases hpc : (s.producer p).pc with
  | idle =>
    simp only [Queue.producerStep, hpc] at hs
    cases hs
  | loadHead x => exact I.loadHead hpc hs
  | insertEntry x => exact I.insertEntry hpc hs
  | newIndex x => exact I.newIndex hpc hs
  | storeKey x e t => exact I.storeKey hpc hs
  | storeIndexTail x e t => exact I.storeIndexTail hpc hs
  | tryPool x e => exact I.tryPool hpc hs
  | tryFreeList x e => exact I.tryFreeList hpc hs
  | create x e => exact I.create hpc hs
  | rewind e => exact I.rewind hpc hs
  | clearValue e => exact I.clearValue hpc hs
  | resetEmpty x e b => exact I.resetEmpty hpc hs
  | storeValue x e b => exact I.storeValue hpc hs
  | construct x => exact I.construct hpc hs
  | storeTail x => exact I.storeTail hpc hs

end DataProxy.ConcurrentQueue
