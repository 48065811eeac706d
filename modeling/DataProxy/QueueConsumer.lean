import DataProxy.QueueInvariant

/-!
# The steps of `dequeue`

Every step of a consumer keeps the invariant, and none of them fails.  The steps fall into three
groups: loads that change nothing but what the consumer knows, moves of the counters, and the steps
that empty and release a block.

The counters are compared modulo `2 ^ 64`.  The first comparison may be wrong without harm; the
second must not let a consumer pass whose number is ahead of the tail, and does not as long as the
number is at most `2 ^ 63` ahead (`Near`).
-/

namespace DataProxy.ConcurrentQueue

open Function (update)
open Tickets (Fate Desk lostCount)

variable {P C α : Type} {poolSize : ℕ} {s s' : Queue P C α} {g g' : Ghost P C} {c : C} {p : P}

/-- The condition on the schedule: at the second comparison the number drawn, less the overcommit
loaded, is at most `2 ^ 63` ahead of the tail. -/
def Near (s : Queue P C α) : Action P C α → Prop
  | .consumer c =>
    match s.consumer c with
    | .recheck p v m => m ≤ v + (s.producer p).tailIndex + 2 ^ 63
    | _ => True
  | _ => True

def Ghost.setLane [DecidableEq P] (g : Ghost P C) (p : P) (L : Lane C) : Ghost P C :=
  { g with lane := update g.lane p L }

@[simp] theorem Ghost.setLane_self [DecidableEq P] (g : Ghost P C) (p : P) (L : Lane C) :
    (g.setLane p L).lane p = L := Function.update_self ..

theorem Ghost.setLane_of_ne [DecidableEq P] (g : Ghost P C) {p p' : P} (L : Lane C) (h : p' ≠ p) :
    (g.setLane p L).lane p' = g.lane p' := Function.update_of_ne h ..

/-! ### What was dequeued -/

/-- Nothing is dequeued: elements pass from one state to the next in the same hands. -/
theorem OutOk.relabel (O : OutOk s g) (hret : s'.returned = s.returned)
    (hhold : ∀ c, (s'.consumer c).holding = (s.consumer c).holding)
    (hpub : ∀ p (i : ℕ) x, (s.producer p).published[i]? = some x →
      (s'.producer p).published[i]? = some x)
    (hclient : ∀ p i, ((g'.lane p).slot i).client = ((g.lane p).slot i).client)
    (hslot : ∀ p i, (g'.lane p).slot i = .returned ↔ (g.lane p).slot i = .returned) :
    OutOk s' g' := by
  constructor
  · intro r hr
    rw [hret] at hr
    exact ⟨(hslot _ _).2 (O.returned r hr).1, hpub _ _ _ (O.returned r hr).2⟩
  · intro p i h
    rw [hret]
    exact O.complete p i ((hslot p i).1 h)
  · intro p i c h
    rw [hhold]
    exact O.holder p i c (by rw [← hclient, h])
  · rw [hret]
    exact O.distinct
  · rw [hret]
    exact O.order
  · intro c p i h
    rw [hhold] at h
    rw [hret]
    exact O.next c p i h

/-- Nothing changes in the hands of the consumers. -/
theorem OutOk.same (O : OutOk s g) (hret : s'.returned = s.returned)
    (hhold : ∀ c, (s'.consumer c).holding = (s.consumer c).holding)
    (hpub : ∀ p (i : ℕ) x, (s.producer p).published[i]? = some x →
      (s'.producer p).published[i]? = some x)
    (hslot : ∀ p, (g'.lane p).slot = (g.lane p).slot) : OutOk s' g' :=
  O.relabel hret hhold hpub (fun p i => by rw [hslot]) fun p i => by rw [hslot]

theorem holding_update [DecidableEq C] {pc : DequeuePc P α} (h : pc.holding = (s.consumer c).holding) (c' : C) :
    (update s.consumer c pc c').holding = (s.consumer c').holding := by
  by_cases hc : c' = c
  · rw [hc, Function.update_self, h]
  · rw [Function.update_of_ne hc]

theorem published_update [DecidableEq P] {R : ImplicitProducer α}
    (h : ∀ (i : ℕ) x, (s.producer p).published[i]? = some x → R.published[i]? = some x) (p' : P)
    (i : ℕ) (x : α) (hx : (s.producer p').published[i]? = some x) :
    (update s.producer p R p').published[i]? = some x := by
  by_cases hp : p' = p
  · subst hp
    rw [Function.update_self]
    exact h i x hx
  · rw [Function.update_of_ne hp]
    exact hx

theorem slot_setLane [DecidableEq P] {L : Lane C} (h : L.slot = (g.lane p).slot) (p' : P) :
    ((g.setLane p L).lane p').slot = (g.lane p').slot := by
  by_cases hp : p' = p
  · subst hp
    rw [g.setLane_self, h]
  · rw [g.setLane_of_ne _ hp]

/-! ### Live blocks -/

namespace ImplicitProducer

variable {R : ImplicitProducer α} {L : Lane C}

/-- An element that is not counted as dequeued is in a live block. -/
theorem LaneOk.tailIndex_pos (H : R.LaneOk L) {i : ℕ} (h : L.slot i ≠ .waiting) :
    i < R.headIndex ∧ R.headIndex ≤ R.tailIndex := by
  refine ⟨?_, H.desk.taken_le⟩
  by_contra hle
  exact h ((H.waiting i).2 (by omega))

/-- Where an element was given out, there is an index. -/
theorem LaneOk.exists_ring (H : R.LaneOk L) {i : ℕ} (h : L.slot i ≠ .waiting) :
    ∃ cur, R.blockIndex = some cur ∧ R.RingOk L.shift cur := by
  cases hb : R.blockIndex with
  | none =>
    have := H.tailIndex_pos h
    have := (H.noIndex hb).1
    omega
  | some cur => exact ⟨cur, rfl, H.ring cur hb⟩

theorem inserted_pos (h : 0 < R.tailIndex) : 0 < R.inserted := by
  unfold inserted indexed
  split
  all_goals first
    | omega
    | (split <;> omega)

end ImplicitProducer

theorem Inv.live_of_slot (I : Inv poolSize s g) {i : ℕ} (hd : ((g.lane p).slot i).done = false)
    (hw : (g.lane p).slot i ≠ .waiting) :
    Live s.blocks g.owner p (s.producer p) (g.lane p) (i / 32) :=
  I.live p (i / 32) ((I.lane p).block_lt hw) (tally_lt_of_not_done hd)

variable [DecidableEq C]

/-! ### Loads -/

/-- A consumer learns something. -/
theorem Inv.setConsumer (I : Inv poolSize s g) {pc : DequeuePc P α} (hok : ConsOk s g c pc)
    (hh : pc.holding = (s.consumer c).holding) : Inv poolSize (s.setConsumer c pc) g := by
  refine ⟨I.noFault, I.lane, I.held, I.live, ⟨I.pool.nodup, I.pool.free, I.pool.pool, I.pool.alloc,
    I.pool.clean⟩, fun c' => ?_, I.out.same rfl (holding_update hh) (fun _ _ _ h => h) fun _ => rfl⟩
  show ConsOk s g c' (update s.consumer c pc c')
  by_cases hc : c' = c
  · subst hc
    rw [Function.update_self]
    exact hok
  · rw [Function.update_of_ne hc]
    exact I.cons c'

variable [DecidableEq P]

/-- `loadIndex`: the current header has the entry of every live block. -/
theorem Inv.loadIndex (I : Inv poolSize s g) {i : ℕ} (hc : s.consumer c = .loadIndex p i)
    (hs : s.consumerStep poolSize c = some s') : Inv poolSize s' g := by
  have hok := I.cons c
  rw [hc] at hok
  replace hok : (g.lane p).slot i = .held c := hok
  have hw : (g.lane p).slot i ≠ .waiting := by rw [hok]; simp
  obtain ⟨cur, hcur, -⟩ := (I.lane p).exists_ring hw
  have hlive := I.live_of_slot (by rw [hok]; rfl) hw
  simp only [Queue.consumerStep, hc, hcur, Option.some.injEq] at hs
  subst hs
  exact I.setConsumer ⟨hok, ⟨cur, hcur, le_rfl⟩, hlive.position cur hcur⟩ (by rw [hc]; rfl)

theorem Inv.loadIndexTail (I : Inv poolSize s g) {i h : ℕ}
    (hc : s.consumer c = .loadIndexTail p i h) (hs : s.consumerStep poolSize c = some s') :
    Inv poolSize s' g := by
  have hok := I.cons c
  rw [hc] at hok
  obtain ⟨hslot, hhas⟩ := hok
  have hw : (g.lane p).slot i ≠ .waiting := by rw [hslot]; simp
  obtain ⟨cur, hcur, hle⟩ := hhas.1
  have hring := (I.lane p).ring cur hcur
  have hpos := (I.lane p).tailIndex_pos hw
  simp only [Queue.consumerStep, hc, Option.some.injEq] at hs
  subst hs
  refine I.setConsumer ⟨hslot, hhas, hring.tail_lt h hle, hring.tailKey h hle (.inr ?_)⟩
    (by rw [hc]; rfl)
  exact ImplicitProducer.inserted_pos (by omega)

theorem Inv.loadKey (I : Inv poolSize s g) {i h t : ℕ} (hc : s.consumer c = .loadKey p i h t)
    (hs : s.consumerStep poolSize c = some s') : Inv poolSize s' g := by
  have hok := I.cons c
  rw [hc] at hok
  obtain ⟨hslot, hhas, ht, hk⟩ := hok
  obtain ⟨cur, hcur, hle⟩ := hhas.1
  obtain ⟨k, hk⟩ := Option.ne_none_iff_exists'.1 hk
  have hkey := ((I.lane p).ring cur hcur).key_old hle ht hk
  rw [ImplicitProducer.keyAt] at hk
  simp only [Queue.consumerStep, hc, hk, Option.some.injEq] at hs
  subst hs
  exact I.setConsumer ⟨hslot, hhas, hkey⟩ (by rw [hc]; rfl)

/-- `loadValue`: the entry found is that of the element's block. -/
theorem Inv.loadValue (I : Inv poolSize s g) {i h t k : ℕ}
    (hc : s.consumer c = .loadValue p i h t k) (hs : s.consumerStep poolSize c = some s') :
    Inv poolSize s' g := by
  have hok := I.cons c
  rw [hc] at hok
  obtain ⟨hslot, hhas, hk, hmod⟩ := hok
  obtain ⟨⟨cur, hcur, hle⟩, q, hq, hidx⟩ := hhas
  have hlive := I.live_of_slot (p := p) (i := i) (by rw [hslot]; rfl) (by rw [hslot]; simp)
  have hat : (s.producer p).keyAt h q = some (32 * (i / 32)) := by
    rw [ImplicitProducer.keyAt, hidx, hlive.entry]
  have hpos := ((I.lane p).ring cur hcur).lookup hle hk hmod hq hat
  have hbase : i - i % 32 = 32 * (i / 32) := by omega
  simp only [Queue.consumerStep, hc, hbase, hpos, hidx, hlive.entry, if_true,
    Option.some.injEq] at hs
  subst hs
  exact I.setConsumer ⟨hslot, rfl, rfl⟩ (by rw [hc]; rfl)

/-! ### The counters -/

namespace ImplicitProducer

variable {R R' : ImplicitProducer α} {L L' : Lane C}

omit [DecidableEq C] [DecidableEq P]

/-- Consumers move the counters of a sub-queue, and nothing else. -/
def count (R : ImplicitProducer α) (head optimistic overcommit : ℕ) : ImplicitProducer α :=
  { R with
    headIndex := head
    dequeueOptimisticCount := optimistic
    dequeueOvercommit := overcommit }

theorem PcOk.count {head o v : ℕ} {pc : EnqueuePc α} (H : R.PcOk pc) (hh : R.headIndex ≤ head) :
    (R.count head o v).PcOk pc := by
  have hroom : R.Room → (R.count head o v).Room := by
    rintro ⟨hT, hlt⟩
    exact ⟨hT, hlt.trans_le (Nat.add_le_add_right hh _)⟩
  cases pc with
  | idle | construct | storeTail => trivial
  | loadHead | clearValue => exact H
  | insertEntry => exact hroom H
  | newIndex | storeKey | storeIndexTail | tryPool | tryFreeList | create | resetEmpty | storeValue
  | rewind => exact ⟨hroom H.1, H.2⟩

theorem LaneOk.count {head o v : ℕ} (H : R.LaneOk L) (hh : R.headIndex ≤ head)
    (hdesk : (L'.desk (R.count head o v)).Ok R.tailIndex)
    (hwait : ∀ i, L'.slot i = .waiting ↔ head ≤ i) (hblock : L'.blockOf = L.blockOf)
    (hshift : L'.shift = L.shift) : (R.count head o v).LaneOk L' where
  desk := hdesk
  waiting := hwait
  length := H.length
  room := H.room.trans_le (Nat.add_le_add_right hh _)
  noIndex := H.noIndex
  ring := fun cur hcur => by
    rw [hshift]
    exact (H.ring cur hcur).congr rfl rfl rfl rfl (fun _ => rfl) (fun _ _ h => h) rfl rfl
  tailBlock := fun h => by rw [hblock]; exact H.tailBlock h
  pc := H.pc.count hh

theorem content_congr {slot slot' : ℕ → Slot C} (ht : R'.tailIndex = R.tailIndex)
    (hp : R'.published = R.published) (hpc : R'.pc.built = R.pc.built)
    (hf : ∀ i, (slot' i).full = (slot i).full) (i : ℕ) : R'.content slot' i = R.content slot i := by
  simp only [content, ht, hp, hpc, hf]

end ImplicitProducer

omit [DecidableEq C] [DecidableEq P] in
theorem Live.congr {blocks : ℕ → Option (Block α)} {owner : ℕ → Owner P C}
    {R R' : ImplicitProducer α} {L M : Lane C} {n : ℕ} (H : Live blocks owner p R L n)
    (he : R'.entries (L.entryOf n) = R.entries (L.entryOf n)) (hb : R'.blockIndex = R.blockIndex)
    (hh : ∀ h, (R'.header h).capacity = (R.header h).capacity ∧
      (R'.header h).index = (R.header h).index)
    (hblock : M.blockOf n = L.blockOf n) (hentry : M.entryOf n = L.entryOf n)
    (ht : tally M.slot n = tally L.slot n)
    (hc : ∀ j < 32, R'.content M.slot (32 * n + j) = R.content L.slot (32 * n + j)) :
    Live blocks owner p R' M n := by
  obtain ⟨B, hB, hcount, helem⟩ := H.block
  refine ⟨?_, fun cur hcur => ?_, ?_, B, ?_, ?_, fun j hj => ?_⟩
  · rw [hentry, he, H.entry, hblock]
  · rw [(hh cur).1, (hh cur).2, hentry]
    exact H.position cur (hb ▸ hcur)
  · rw [hblock, H.owner]
  · rw [hblock, hB]
  · rw [hcount, ht]
  · rw [helem j hj, hc j hj]

/-- **A consumer moves the counters**, and what it and the history know changes with them. -/
theorem Inv.count (I : Inv poolSize s g) {head o v : ℕ} {M : Lane C} {pc : DequeuePc P α}
    (hs' : s' = { s with
      producer := update s.producer p ((s.producer p).count head o v)
      consumer := update s.consumer c pc })
    (hh : (s.producer p).headIndex ≤ head) (hv : (s.producer p).dequeueOvercommit ≤ v)
    (hblock : M.blockOf = (g.lane p).blockOf) (hentry : M.entryOf = (g.lane p).entryOf)
    (hshift : M.shift = (g.lane p).shift)
    (hdesk : (M.desk ((s.producer p).count head o v)).Ok (s.producer p).tailIndex)
    (hwait : ∀ i, M.slot i = .waiting ↔ head ≤ i)
    (hdone : ∀ i, (M.slot i).done = ((g.lane p).slot i).done)
    (hfull : ∀ i, (M.slot i).full = ((g.lane p).slot i).full)
    (hfate : ∀ c', c' ≠ c → ∀ (m : ℕ) f, (g.lane p).fates[m]? = some f → client f = some c' →
      M.fates[m]? = some f)
    (hlost : ∀ m < (g.lane p).fates.length,
      lostCount ((g.lane p).fates.take m) ≤ lostCount (M.fates.take m))
    (hslot : ∀ c', c' ≠ c → ∀ i, ((g.lane p).slot i).client = some c' →
      M.slot i = (g.lane p).slot i)
    (hcons : ConsOk s' (g.setLane p M) c pc) (hout : OutOk s' (g.setLane p M)) :
    Inv poolSize s' (g.setLane p M) := by
  have hp : s'.producer p = (s.producer p).count head o v := by rw [hs']; exact Function.update_self ..
  refine I.of_local p (some c) (by rw [hs']; exact I.noFault)
    (fun p' hne => ⟨by rw [hs']; exact Function.update_of_ne hne .., g.setLane_of_ne M hne⟩)
    (fun c' hc' => by rw [hs']; exact Function.update_of_ne (fun h => hc' (by rw [h])) ..)
    ?_ ?_ ?_ ?_ ?_ (fun _ _ _ h => h) ?_ ?_ hout
  · rw [hp, g.setLane_self]
    exact (I.lane p).count hh hdesk hwait hblock hshift
  · rw [hp, hs']
    exact I.held p
  · intro n hn ht
    rw [hp] at hn ⊢
    rw [g.setLane_self] at ht ⊢
    rw [tally_congr hdone] at ht
    have hlive := I.live p n hn ht
    rw [hs']
    refine hlive.congr rfl rfl (fun _ => ⟨rfl, rfl⟩) (by rw [hblock]) (by rw [hentry])
      (tally_congr hdone n) fun j _ => ?_
    exact ImplicitProducer.content_congr rfl rfl rfl hfull _
  · intro c' hc'
    have hne : c' ≠ c := fun h => hc' (by rw [h])
    rw [hp, g.setLane_self]
    refine ⟨hv, hfate c' hne, hlost, hslot c' hne, fun _ _ h => h, fun cur hcur => ?_,
      fun _ _ _ _ _ _ h => h, fun n _ => ⟨by rw [hblock], by rw [hentry]⟩, le_rfl,
      fun _ _ _ _ _ h => h⟩
    exact ⟨⟨cur, hcur, le_rfl⟩, fun h _ => ⟨rfl, rfl, by rw [hshift]⟩⟩
  · intro p' _ b _
    rw [hs']
    exact ⟨rfl, rfl⟩
  · intro c' hc'
    cases hc'
    have hpc : s'.consumer c = pc := by rw [hs']; exact Function.update_self ..
    rw [hpc]
    exact hcons
  · rw [hs']
    exact ⟨I.pool.nodup, I.pool.free, I.pool.pool, I.pool.alloc, I.pool.clean⟩

/-- The sub-queue with the same counters. -/
theorem ImplicitProducer.count_self (R : ImplicitProducer α) :
    R.count R.headIndex R.dequeueOptimisticCount R.dequeueOvercommit = R := rfl

omit [DecidableEq C] [DecidableEq P] in
/-- A number that belongs to `c` gets a new fate; the numbers of the others keep theirs. -/
theorem fate_set {l : List (Fate C)} {m : ℕ} {f f' : Fate C} (hm : l[m]? = some f)
    (hf : client f = some c) {c' : C} (hne : c' ≠ c) (m' : ℕ) (f'' : Fate C)
    (hm' : l[m']? = some f'') (hf'' : client f'' = some c') : (l.set m f')[m']? = some f'' := by
  have hmm : m ≠ m' := by
    rintro rfl
    rw [hm] at hm'
    cases hm'
    exact hne (Option.some.inj (hf''.symm.trans hf))
  rw [List.getElem?_set_ne hmm, hm']

/-- `reserve`: the consumer draws a number. -/
theorem Inv.reserve (I : Inv poolSize s g) {v : ℕ} (hc : s.consumer c = .reserve p v)
    (hs : s.consumerStep poolSize c = some s') : ∃ g', Inv poolSize s' g' := by
  have hok := I.cons c
  rw [hc] at hok
  replace hok : v ≤ (s.producer p).dequeueOvercommit := hok
  simp only [Queue.consumerStep, hc, Option.some.injEq] at hs
  have hdraw := ((I.lane p).desk).le_lostCount_draw c hok
  refine ⟨g.setLane p { g.lane p with fates := (g.lane p).fates ++ [.pending c] },
    I.count (M := { g.lane p with fates := (g.lane p).fates ++ [.pending c] }) hs.symm le_rfl le_rfl
      rfl rfl rfl ((I.lane p).desk.draw c) (I.lane p).waiting (fun _ => rfl) (fun _ => rfl) ?_ ?_
      (fun _ _ _ _ => rfl) ?_ ?_⟩
  · intro c' _ m f hm _
    rw [List.getElem?_append_left (List.getElem?_eq_some_iff.1 hm).1, hm]
  · intro m hm
    rw [List.take_append_of_le_length hm.le]
  · show _ ∧ _
    rw [g.setLane_self]
    exact hdraw
  · subst hs
    exact I.out.same rfl (fun c' => holding_update (s := s) (by rw [hc]; rfl) c')
      (published_update fun _ _ h => h) (slot_setLane rfl)

/-- `recheck`: the consumer is granted an element, or refused. -/
theorem Inv.recheck (I : Inv poolSize s g) {v m : ℕ} (hc : s.consumer c = .recheck p v m)
    (hnear : m ≤ v + (s.producer p).tailIndex + 2 ^ 63)
    (hs : s.consumerStep poolSize c = some s') : ∃ g', Inv poolSize s' g' := by
  have hok := I.cons c
  rw [hc] at hok
  obtain ⟨hm, hv⟩ := hok
  set L := g.lane p with hL
  -- the overcommit loaded is at most the number drawn
  have hvm : v ≤ m := by
    have hsum := Tickets.standing_add_lostCount (L.fates.take m)
    rw [List.length_take] at hsum
    omega
  obtain ⟨ok, hokdef⟩ : ∃ ok, circularLessThan (.ofNat m - .ofNat v)
    (.ofNat (s.producer p).tailIndex) = ok := ⟨_, rfl⟩
  have hlt : ok = true → m < v + (s.producer p).tailIndex := by
    intro htrue
    rw [htrue, ofNat_sub_ofNat hvm] at hokdef
    have := lt_of_circularLessThan hokdef (by omega)
    omega
  set pc : DequeuePc P α := if ok then .claim p m else .giveBack p m with hpc
  have hs' : s' = s.setConsumer c pc := by
    simp only [Queue.consumerStep, hc, hokdef] at hs
    rw [hpc]
    cases ok <;> simpa using hs.symm
  have hstate : s' = { s with
      producer := update s.producer p ((s.producer p).count (s.producer p).headIndex
        (s.producer p).dequeueOptimisticCount (s.producer p).dequeueOvercommit)
      consumer := update s.consumer c pc } := by
    rw [hs', (s.producer p).count_self, Function.update_eq_self]
    rfl
  set f : Fate C := if ok then .granted c else .refused c with hf
  have hlost : (Fate.pending c).lost = true → f.lost = true := by simp [Fate.lost]
  refine ⟨g.setLane p { L with fates := L.fates.set m f },
    I.count (M := { L with fates := L.fates.set m f }) hstate le_rfl le_rfl rfl rfl rfl
      ((I.lane p).desk.decide hm hv hlt) (I.lane p).waiting (fun _ => rfl) (fun _ => rfl)
      (fun c' hne => fate_set hm rfl hne) (fun k _ => Tickets.lostCount_take_set_le hm hlost k)
      (fun _ _ _ _ => rfl) ?_ ?_⟩
  · have hset : (L.fates.set m f)[m]? = some f := by
      rw [List.getElem?_set_self (List.getElem?_eq_some_iff.1 hm).1]
    rw [hpc]
    rw [hf] at hset ⊢
    cases ok
    · show ((g.setLane p _).lane p).fates[m]? = _
      rw [g.setLane_self]
      exact hset
    · show ((g.setLane p _).lane p).fates[m]? = _
      rw [g.setLane_self]
      exact hset
  · rw [hs']
    refine I.out.same rfl (fun c' => holding_update (s := s) ?_ c') (fun _ _ _ h => h)
      (slot_setLane rfl)
    rw [hc, hpc]
    cases ok <;> rfl

/-- `giveBack`: a refused number goes back to the overcommit. -/
theorem Inv.giveBack (I : Inv poolSize s g) {m : ℕ} (hc : s.consumer c = .giveBack p m)
    (hs : s.consumerStep poolSize c = some s') : ∃ g', Inv poolSize s' g' := by
  have hok := I.cons c
  rw [hc] at hok
  replace hok : (g.lane p).fates[m]? = some (.refused c) := hok
  simp only [Queue.consumerStep, hc, Option.some.injEq] at hs
  refine ⟨g.setLane p { g.lane p with fates := (g.lane p).fates.set m .returned },
    I.count (M := { g.lane p with fates := (g.lane p).fates.set m .returned }) hs.symm le_rfl
      (Nat.le_succ _) rfl rfl rfl ((I.lane p).desk.giveBack hok) (I.lane p).waiting (fun _ => rfl)
      (fun _ => rfl) (fun c' hne => fate_set hok rfl hne)
      (fun k _ => Tickets.lostCount_take_set_le hok (fun _ => rfl) k) (fun _ _ _ _ => rfl) trivial ?_⟩
  subst hs
  exact I.out.same rfl (fun c' => holding_update (s := s) (by rw [hc]; rfl) c')
    (published_update fun _ _ h => h) (slot_setLane rfl)

/-- `claim`: the consumer gets the index of its element. -/
theorem Inv.claim (I : Inv poolSize s g) {m : ℕ} (hc : s.consumer c = .claim p m)
    (hs : s.consumerStep poolSize c = some s') : ∃ g', Inv poolSize s' g' := by
  have hok := I.cons c
  rw [hc] at hok
  replace hok : (g.lane p).fates[m]? = some (.granted c) := hok
  simp only [Queue.consumerStep, hc, Option.some.injEq] at hs
  set head := (s.producer p).headIndex with hhead
  have hwaiting : (g.lane p).slot head = .waiting := ((I.lane p).waiting head).2 le_rfl
  set L' : Lane C := { g.lane p with
    fates := (g.lane p).fates.set m .taken
    slot := update (g.lane p).slot head (.held c) } with hL'
  have hslot : ∀ i, L'.slot i = if i = head then .held c else (g.lane p).slot i := by
    intro i
    show update (g.lane p).slot head (.held c) i = _
    by_cases hi : i = head
    · rw [hi, Function.update_self, if_pos rfl]
    · rw [Function.update_of_ne hi, if_neg hi]
  refine ⟨g.setLane p L', I.count (M := L') hs.symm (Nat.le_succ _) le_rfl rfl rfl rfl
    ((I.lane p).desk.take hok) (fun i => ?_) (fun i => ?_) (fun i => ?_)
    (fun c' hne => fate_set hok rfl hne)
    (fun k _ => Tickets.lostCount_take_set_le hok (by simp [Fate.lost]) k) (fun c' _ i hi => ?_) ?_ ?_⟩
  · rw [hslot]
    split
    · rename_i hi
      constructor
      · intro h
        cases h
      · omega
    · rename_i hi
      rw [(I.lane p).waiting i]
      omega
  · rw [hslot]
    split
    · rename_i hi
      rw [hi, hwaiting]
      rfl
    · rfl
  · rw [hslot]
    split
    · rename_i hi
      rw [hi, hwaiting]
      rfl
    · rfl
  · rw [hslot, if_neg]
    rintro rfl
    rw [hwaiting] at hi
    cases hi
  · show ((g.setLane p L').lane p).slot head = .held c
    rw [g.setLane_self, hslot, if_pos rfl]
  · have hlane : ∀ p' i, ((g.setLane p L').lane p').slot i =
        if p' = p ∧ i = head then .held c else (g.lane p').slot i := by
      intro p' i
      by_cases hp : p' = p
      · subst hp
        rw [g.setLane_self, hslot]
        simp
      · rw [g.setLane_of_ne _ hp, if_neg (fun h => hp h.1)]
    have hnew : ∀ p' i, (g.lane p').slot i ≠ .waiting → ¬(p' = p ∧ i = head) := by
      rintro p' i hne ⟨rfl, rfl⟩
      exact hne hwaiting
    have hhold : ∀ c', (s'.consumer c').holding =
        if c' = c then some (p, head) else (s.consumer c').holding := by
      intro c'
      rw [← hs]
      show (update s.consumer c _ c').holding = _
      by_cases hcc : c' = c
      · rw [hcc, Function.update_self, if_pos rfl]
        rfl
      · rw [Function.update_of_ne hcc, if_neg hcc]
    have hret : s'.returned = s.returned := by rw [← hs]; rfl
    constructor
    · intro r hr
      rw [hret] at hr
      obtain ⟨h₁, h₂⟩ := I.out.returned r hr
      refine ⟨?_, ?_⟩
      · rw [hlane, if_neg (hnew _ _ (by rw [h₁]; simp)), h₁]
      · rw [← hs]
        refine published_update (p := p) ?_ _ _ _ h₂
        exact fun _ _ h => h
    · intro p' i h
      rw [hlane] at h
      split at h
      · cases h
      · rw [hret]
        exact I.out.complete p' i h
    · intro p' i c' h
      rw [hlane] at h
      rw [hhold]
      split at h
      · rename_i hpi
        obtain rfl : c = c' := Option.some.inj h
        rw [if_pos rfl, hpi.1, hpi.2]
      · have hold := I.out.holder p' i c' h
        rw [if_neg, hold]
        rintro rfl
        rw [hc] at hold
        cases hold
    · rw [hret]
      exact I.out.distinct
    · rw [hret]
      exact I.out.order
    · intro c' p' i h r hr hrc hrp
      rw [hret] at hr
      rw [hhold] at h
      split at h
      · cases h
        have h₁ := (I.out.returned r hr).1
        rw [hrp] at h₁
        exact ((I.lane p).tailIndex_pos (by rw [h₁]; simp)).1
      · exact I.out.next c' p' i h r hr hrc hrp

/-! ### Emptying a block -/

section Slots

variable {R : ImplicitProducer α} {L : Lane C} {i : ℕ} {f : Slot C}

/-- The history after the element with index `i` has come to `f`. -/
def Lane.setSlot (L : Lane C) (i : ℕ) (f : Slot C) : Lane C := { L with slot := update L.slot i f }

omit [DecidableEq C] [DecidableEq P]

theorem Lane.setSlot_slot (L : Lane C) (i : ℕ) (f : Slot C) (i' : ℕ) :
    (L.setSlot i f).slot i' = if i' = i then f else L.slot i' := by
  show update L.slot i f i' = _
  by_cases h : i' = i
  · rw [h, Function.update_self, if_pos rfl]
  · rw [Function.update_of_ne h, if_neg h]

theorem ImplicitProducer.LaneOk.setSlot (H : R.LaneOk L) (hi : L.slot i ≠ .waiting)
    (hf : f ≠ .waiting) : R.LaneOk (L.setSlot i f) where
  desk := H.desk
  waiting := fun i' => by
    rw [L.setSlot_slot]
    split
    · subst i'
      rw [← H.waiting i]
      exact ⟨fun h => absurd h hf, fun h => absurd h hi⟩
    · exact H.waiting i'
  length := H.length
  room := H.room
  noIndex := H.noIndex
  ring := H.ring
  tailBlock := H.tailBlock
  pc := H.pc

theorem Keeps.setSlot {c' : C} {mine : ℕ → Prop} (hi : (L.slot i).client = some c) (hne : c' ≠ c)
    (R : ImplicitProducer α) (f : Slot C) : Keeps c' mine R L R (L.setSlot i f) := by
  refine { Keeps.refl c' mine R L with slot := fun i' hi' => ?_ }
  rw [L.setSlot_slot, if_neg]
  rintro rfl
  rw [hi] at hi'
  exact hne (Option.some.inj hi').symm

/-- The content of a block where one element is in other hands. -/
theorem ImplicitProducer.content_setSlot (hi : i < R.tailIndex) (hf : f.full = false) (i' : ℕ) :
    R.content (L.setSlot i f).slot i' = if i' = i then none else R.content L.slot i' := by
  unfold content
  rw [L.setSlot_slot]
  split
  · split
    · rw [if_neg (by rw [hf]; decide)]
    · rfl
  · have hne : i' ≠ i := by omega
    rw [if_neg hne]

end Slots

omit [DecidableEq P] [DecidableEq C] in
/-- Two live block numbers have two blocks. -/
theorem Live.blockOf_ne {blocks : ℕ → Option (Block α)} {owner : ℕ → Owner P C} {p' : P}
    {R R' : ImplicitProducer α} {L L' : Lane C} {n n' : ℕ} (H : Live blocks owner p R L n)
    (H' : Live blocks owner p' R' L' n') (hne : ¬(p = p' ∧ n = n')) :
    L'.blockOf n' ≠ L.blockOf n := by
  intro h
  have := H.owner.symm.trans (h ▸ H'.owner)
  cases this
  exact hne ⟨rfl, rfl⟩

omit [DecidableEq C] in
/-- The states of the elements of all sub-queues, after one has come to `f`. -/
theorem Ghost.setSlot_slot (g : Ghost P C) (p : P) (i : ℕ) (f : Slot C) (p' : P) (i' : ℕ) :
    ((g.setLane p ((g.lane p).setSlot i f)).lane p').slot i' =
      if p' = p ∧ i' = i then f else (g.lane p').slot i' := by
  by_cases hp : p' = p
  · subst hp
    rw [g.setLane_self, (g.lane p').setSlot_slot]
    simp
  · rw [g.setLane_of_ne _ hp, if_neg (fun h => hp h.1)]

/-- The element passes to its next state in the same hands. -/
theorem OutOk.setSlot (O : OutOk s g) {i : ℕ} {f : Slot C} {owner : ℕ → Owner P C}
    {pc : DequeuePc P α} (hcl : f.client = ((g.lane p).slot i).client)
    (hout : (g.lane p).slot i ≠ .returned) (hf : f ≠ .returned)
    (hpc : pc.holding = (s.consumer c).holding) (hret : s'.returned = s.returned)
    (hcons : s'.consumer = update s.consumer c pc)
    (hpub : ∀ p (i : ℕ) x, (s.producer p).published[i]? = some x →
      (s'.producer p).published[i]? = some x) :
    OutOk s' ⟨(g.setLane p ((g.lane p).setSlot i f)).lane, owner⟩ := by
  refine O.relabel hret (fun c' => by rw [hcons]; exact holding_update hpc c') hpub
    (fun p' i' => ?_) fun p' i' => ?_
  · show (((g.setLane p _).lane p').slot i').client = _
    rw [g.setSlot_slot]
    split
    · rename_i h
      rw [h.1, h.2, hcl]
    · rfl
  · show ((g.setLane p _).lane p').slot i' = _ ↔ _
    rw [g.setSlot_slot]
    split
    · rename_i h
      rw [h.1, h.2]
      exact ⟨fun h => absurd h hf, fun h => absurd h hout⟩
    · rfl

/-- The consumer returns its element. -/
theorem OutOk.finish (O : OutOk s g) {i : ℕ} {x : α} {owner : ℕ → Owner P C}
    (hcl : ((g.lane p).slot i).client = some c) (hx : (s.producer p).published[i]? = some x)
    (hret : s'.returned = ⟨c, p, i, x⟩ :: s.returned)
    (hcons : s'.consumer = update s.consumer c .idle) (hprod : s'.producer = s.producer) :
    OutOk s' ⟨(g.setLane p ((g.lane p).setSlot i .returned)).lane, owner⟩ := by
  have hslot : ∀ p' i', ((g.setLane p ((g.lane p).setSlot i .returned)).lane p').slot i' =
      if p' = p ∧ i' = i then .returned else (g.lane p').slot i' := g.setSlot_slot p i .returned
  have hold : ∀ r ∈ s.returned, ¬(r.producer = p ∧ r.index = i) := by
    rintro r hr ⟨rfl, rfl⟩
    rw [(O.returned r hr).1] at hcl
    cases hcl
  have hholding := O.holder p i c hcl
  constructor
  · intro r hr
    show ((g.setLane p _).lane _).slot _ = _ ∧ _
    rw [hslot, hprod]
    rw [hret] at hr
    rcases List.mem_cons.1 hr with rfl | hr
    · exact ⟨if_pos ⟨rfl, rfl⟩, hx⟩
    · rw [if_neg (hold r hr)]
      exact O.returned r hr
  · intro p' i' h
    replace h : ((g.setLane p _).lane p').slot i' = _ := h
    rw [hslot] at h
    rw [hret]
    split at h
    · rename_i hpi
      exact ⟨_, List.mem_cons_self, hpi.1.symm, hpi.2.symm⟩
    · obtain ⟨r, hr, hrp⟩ := O.complete p' i' h
      exact ⟨r, List.mem_cons_of_mem _ hr, hrp⟩
  · intro p' i' c' h
    replace h : (((g.setLane p _).lane p').slot i').client = _ := h
    rw [hslot] at h
    split at h
    · cases h
    · rename_i hpi
      have hh := O.holder p' i' c' h
      rw [hcons, Function.update_of_ne, hh]
      rintro rfl
      rw [hholding] at hh
      cases hh
      exact hpi ⟨rfl, rfl⟩
  · rw [hret, List.pairwise_cons]
    exact ⟨fun r hr hp hi => hold r hr ⟨hp.symm, hi.symm⟩, O.distinct⟩
  · rw [hret, List.pairwise_cons]
    exact ⟨fun r hr hc' hp => O.next c p i hholding r hr hc'.symm hp.symm, O.order⟩
  · intro c' p' i' h r hr hrc hrp
    rw [hcons] at h
    by_cases hcc : c' = c
    · rw [hcc, Function.update_self] at h
      cases h
    · rw [Function.update_of_ne hcc] at h
      rw [hret] at hr
      rcases List.mem_cons.1 hr with rfl | hr
      · exact absurd hrc.symm hcc
      · exact O.next c' p' i' h r hr hrc hrp

omit [DecidableEq C] in
/-- **A consumer works on the block of its element**: the element comes to `f`, the block to `B'`,
and if it is empty now it belongs to the consumer. -/
theorem Inv.onBlock (I : Inv poolSize s g) {i n b : ℕ} {f : Slot C} {B' : Block α} {o : Owner P C}
    (hcl : ((g.lane p).slot i).client = some c) (hd : ((g.lane p).slot i).done = false)
    (hfw : f ≠ .waiting) (hfull : f.full = false) (hn : n = i / 32)
    (hb : b = (g.lane p).blockOf n) (hprod : s'.producer = s.producer)
    (hblocks : s'.blocks = update s.blocks b (some B')) (hfault : s'.fault = s.fault)
    (hpool : s'.freeList = s.freeList ∧ s'.initialBlockPoolIndex = s.initialBlockPoolIndex ∧
      s'.nextBlock = s.nextBlock)
    (hcons : ∀ c', c' ≠ c → s'.consumer c' = s.consumer c')
    (htally : ∀ n', n' ≠ n → tally ((g.lane p).setSlot i f).slot n' = tally (g.lane p).slot n')
    (hstay : tally ((g.lane p).setSlot i f).slot n < 32 → o = .live p n ∧
      B'.elementsCompletelyDequeued = tally ((g.lane p).setSlot i f).slot n)
    (hleave : o = .live p n ∨ o = .dying c ∧ ∀ j < 32, B'.elements j = none)
    (helem : ∀ j < 32, B'.elements j = (s.producer p).content ((g.lane p).setSlot i f).slot (32 * n + j))
    (hok : ConsOk s' ⟨(g.setLane p ((g.lane p).setSlot i f)).lane, update g.owner b o⟩ c
      (s'.consumer c))
    (hout : OutOk s' ⟨(g.setLane p ((g.lane p).setSlot i f)).lane, update g.owner b o⟩) :
    ∃ g', Inv poolSize s' g' := by
  have hw : (g.lane p).slot i ≠ .waiting := by
    intro h
    rw [h] at hcl
    cases hcl
  have hlive := I.live_of_slot hd hw
  rw [← hn] at hlive
  have hT := (I.lane p).tailIndex_pos hw
  set g' : Ghost P C := ⟨(g.setLane p ((g.lane p).setSlot i f)).lane, update g.owner b o⟩ with hg'
  have hlane : g'.lane p = (g.lane p).setSlot i f := g.setLane_self ..
  -- a block that is not `b` is as it was
  have hframe : ∀ b', b' ≠ b → s'.blocks b' = s.blocks b' ∧ g'.owner b' = g.owner b' := by
    intro b' hne
    rw [hblocks]
    exact ⟨Function.update_of_ne hne .., Function.update_of_ne hne ..⟩
  have hbo : g.owner b = .live p n := by rw [hb]; exact hlive.owner
  refine ⟨g', I.of_local p (some c) (by rw [hfault]; exact I.noFault)
    (fun p' hne => ⟨by rw [hprod], g.setLane_of_ne _ hne⟩)
    (fun c' hc' => hcons c' fun h => hc' (by rw [h])) ?_ ?_ ?_ ?_ ?_ ?_ ?_ ?_ hout⟩
  · rw [hprod, hlane]
    exact (I.lane p).setSlot hw hfw
  · rw [hprod]
    refine (I.held p).frame fun b' hb' => hframe b' ?_
    rintro rfl
    rw [hbo] at hb'
    cases hb'
  · intro n' hn' ht
    rw [hprod] at hn' ⊢
    rw [hlane] at ht ⊢
    by_cases hne : n' = n
    · subst hne
      obtain ⟨ho, hcount⟩ := hstay ht
      refine ⟨hlive.entry, hlive.position, ?_, B', ?_, hcount, helem⟩
      · show update g.owner b o ((g.lane p).blockOf n') = _
        rw [← hb, Function.update_self, ho]
      · show s'.blocks ((g.lane p).blockOf n') = _
        rw [hblocks, ← hb, Function.update_self]
    · rw [htally n' hne] at ht
      have hlive' := I.live p n' hn' ht
      have hbne : (g.lane p).blockOf n' ≠ b := by
        rw [hb]
        exact hlive.blockOf_ne hlive' fun h => hne h.2.symm
      refine (hlive'.congr (M := (g.lane p).setSlot i f) rfl rfl (fun _ => ⟨rfl, rfl⟩) rfl rfl
        (htally n' hne) fun j hj => ?_).frame (hframe _ hbne).1 (hframe _ hbne).2
      rw [ImplicitProducer.content_setSlot (by omega) hfull, if_neg (by omega)]
  · intro c' hc'
    rw [hprod, hlane]
    exact Keeps.setSlot hcl (fun h => hc' (by rw [h])) _ _
  · intro p' hne b' hb'
    refine hframe b' ?_
    rintro rfl
    rw [hbo] at hb'
    rcases hb' with hb' | ⟨m, hb'⟩
    · cases hb'
    · cases hb'
      exact hne rfl
  · intro c' _ b' hb'
    rw [(hframe b' ?_).2, hb']
    rintro rfl
    rw [hbo] at hb'
    cases hb'
  · intro c' hc'
    cases hc'
    exact hok
  · obtain ⟨hfl, hpi, hnb⟩ := hpool
    refine ⟨hfl ▸ I.pool.nodup, fun b' hb' => ?_, fun b' h₁ h₂ => ?_, ?_, fun b' hb' => ?_⟩
    · rw [hfl] at hb'
      have hfree := I.pool.free b' hb'
      rw [(hframe b' (by rintro rfl; rw [hbo] at hfree; cases hfree)).2, hfree]
    · rw [hpi] at h₁
      have hfresh := I.pool.pool b' h₁ h₂
      rw [(hframe b' (by rintro rfl; rw [hbo] at hfresh; cases hfresh)).2, hfresh]
    · rw [hnb]
      refine ⟨I.pool.alloc.1, fun b' h => ?_⟩
      have hfresh := I.pool.alloc.2 b' h
      rw [(hframe b' (by rintro rfl; rw [hbo] at hfresh; cases hfresh)).2, hfresh]
    · by_cases hbb : b' = b
      · subst hbb
        have ho : g'.owner b' = o := Function.update_self ..
        rcases hleave with hlv | ⟨-, hclean⟩
        · rw [ho, hlv] at hb'
          simp at hb'
        · exact ⟨B', by rw [hblocks, Function.update_self], hclean⟩
      · rw [(hframe b' hbb).2] at hb'
        obtain ⟨B, hB, hclean⟩ := I.pool.clean b' hb'
        exact ⟨B, by rw [(hframe b' hbb).1, hB], hclean⟩

omit [DecidableEq P] [DecidableEq C] in
/-- An element given out and not counted is found in its block. -/
theorem Inv.block_of_slot (I : Inv poolSize s g) {i : ℕ} (hd : ((g.lane p).slot i).done = false)
    (hw : (g.lane p).slot i ≠ .waiting) :
    i < (s.producer p).tailIndex ∧ ∃ B, s.blocks ((g.lane p).blockOf (i / 32)) = some B ∧
      B.elementsCompletelyDequeued = tally (g.lane p).slot (i / 32) ∧
      ∀ j < 32, B.elements j = (s.producer p).content (g.lane p).slot (32 * (i / 32) + j) := by
  have hT := (I.lane p).tailIndex_pos hw
  exact ⟨by omega, (I.live_of_slot hd hw).block⟩

/-- `take`: the object is there, and is moved out. -/
theorem Inv.take (I : Inv poolSize s g) {i e b : ℕ} (hc : s.consumer c = .take p i e b)
    (hs : s.consumerStep poolSize c = some s') : ∃ g', Inv poolSize s' g' := by
  have hok := I.cons c
  rw [hc] at hok
  obtain ⟨hslot, he, hb⟩ := hok
  obtain ⟨hT, B, hB, hcount, helem⟩ :=
    I.block_of_slot (p := p) (i := i) (by rw [hslot]; rfl) (by rw [hslot]; simp)
  obtain ⟨x, hx⟩ : ∃ x, (s.producer p).published[i]? = some x :=
    ⟨_, List.getElem?_eq_getElem (by rw [(I.lane p).length]; omega)⟩
  have hBx : B.elements (i % 32) = some x := by
    rw [helem _ (Nat.mod_lt _ (by decide)), Nat.div_add_mod, ImplicitProducer.content,
      if_pos (by omega), hslot]
    exact hx
  rw [← hb] at hB
  simp only [Queue.consumerStep, hc, hB, hBx, Option.some.injEq] at hs
  subst hs
  have htally : ∀ n, tally ((g.lane p).setSlot i (.taken c)).slot n = tally (g.lane p).slot n := by
    refine fun n => tally_congr (fun i' => ?_) n
    rw [(g.lane p).setSlot_slot]
    split
    · subst i'
      rw [hslot]
      rfl
    · rfl
  refine I.onBlock (p := p) (c := c) (f := .taken c) (o := .live p (i / 32)) (by rw [hslot]; rfl)
    (by rw [hslot]; rfl) (by simp) rfl rfl hb rfl rfl rfl ⟨rfl, rfl, rfl⟩
    (fun c' hne => Function.update_of_ne hne ..) (fun n' _ => htally n')
    (fun _ => ⟨rfl, hcount.trans (htally _).symm⟩) (.inl rfl) (fun j hj => ?_) ?_ ?_
  · rw [ImplicitProducer.content_setSlot hT rfl]
    show update B.elements (i % 32) none j = _
    by_cases hji : j = i % 32
    · rw [hji, Function.update_self, if_pos (by omega)]
    · rw [Function.update_of_ne hji, if_neg (by omega), helem j hj]
  · rw [show ((s.setConsumer c _).setBlock b _).consumer c = _ from Function.update_self ..]
    show ((g.setLane p _).lane p).slot i = _ ∧ e = ((g.setLane p _).lane p).entryOf _ ∧
      b = ((g.setLane p _).lane p).blockOf _ ∧ (s.producer p).published[i]? = some x
    rw [g.setLane_self, (g.lane p).setSlot_slot, if_pos rfl]
    exact ⟨rfl, he, hb, hx⟩
  · exact I.out.setSlot (by rw [hslot]; rfl) (by rw [hslot]; simp) (by simp) (by rw [hc]; rfl) rfl rfl
      fun _ _ _ h => h

omit [DecidableEq P] [DecidableEq C] in
/-- Where all elements of a block are counted, or are about to be, no object is alive in it. -/
theorem ImplicitProducer.LaneOk.content_eq_none {R : ImplicitProducer α} {L : Lane C} {i : ℕ}
    (H : R.LaneOk L) (hi : (L.slot i).full = false) : R.content L.slot i = none := by
  have hT : i < R.tailIndex := by
    have := H.tailIndex_pos (i := i) (by intro h; rw [h] at hi; cases hi)
    omega
  rw [content, if_pos hT, if_neg (by rw [hi]; decide)]

/-- `setEmpty`: the element is counted; the consumer that counts the last one of a block is to
release it. -/
theorem Inv.setEmpty (I : Inv poolSize s g) {i e b : ℕ} {x : α}
    (hc : s.consumer c = .setEmpty p i e b x) (hs : s.consumerStep poolSize c = some s') :
    ∃ g', Inv poolSize s' g' := by
  have hok := I.cons c
  rw [hc] at hok
  obtain ⟨hslot, he, hb, hx⟩ := hok
  have hd : ((g.lane p).slot i).done = false := by rw [hslot]; rfl
  have hw : (g.lane p).slot i ≠ .waiting := by rw [hslot]; simp
  obtain ⟨hT, B, hB, hcount, helem⟩ := I.block_of_slot hd hw
  have hlt : B.elementsCompletelyDequeued < 32 := by rw [hcount]; exact tally_lt_of_not_done hd
  have hlive := I.live_of_slot hd hw
  rw [← hb] at hB
  simp only [Queue.consumerStep, hc, hB, if_pos hlt, Option.some.injEq] at hs
  set f : Slot C := if B.elementsCompletelyDequeued = 31 then .emptied c else .returned with hf
  have hfdone : f.done = true := by rw [hf]; split <;> rfl
  have hffull : f.full = false := by rw [hf]; split <;> rfl
  have hfw : f ≠ .waiting := by rw [hf]; split <;> simp
  have htally : ∀ n, tally ((g.lane p).setSlot i f).slot n =
      tally (g.lane p).slot n + if n = i / 32 then 1 else 0 := tally_update hd hfdone
  have helem' : ∀ j < 32, B.elements j =
      (s.producer p).content ((g.lane p).setSlot i f).slot (32 * (i / 32) + j) := by
    intro j hj
    rw [ImplicitProducer.content_setSlot hT hffull, helem j hj]
    split
    · rename_i hji
      exact (I.lane p).content_eq_none (by rw [hji, hslot]; rfl)
    · rfl
  by_cases hlast : B.elementsCompletelyDequeued = 31
  · rw [if_pos hlast] at hs hf
    subst hs
    obtain ⟨cur, hcur, hring⟩ := (I.lane p).exists_ring hw
    obtain ⟨q, hq, hidx⟩ := hlive.position cur hcur
    have hfullTally : tally ((g.lane p).setSlot i f).slot (i / 32) = 32 := by
      rw [htally, if_pos rfl, ← hcount, hlast]
    refine I.onBlock (c := c) (f := f) (o := .dying c) (by rw [hslot]; rfl) hd hfw hffull rfl hb rfl rfl
      rfl ⟨rfl, rfl, rfl⟩ (fun c' hne => Function.update_of_ne hne ..)
      (fun n' hne => by rw [htally, if_neg hne]; rfl) (fun h => by omega) (.inr ⟨rfl, fun j hj => ?_⟩)
      helem' ?_ ?_
    · show B.elements j = none
      rw [helem' j hj]
      have hdone := done_of_tally hfullTally hj
      refine ((I.lane p).setSlot hw hfw).content_eq_none ?_
      revert hdone
      cases ((g.lane p).setSlot i f).slot (32 * (i / 32) + j) <;> simp [Slot.done, Slot.full]
    · rw [show ((s.setBlock b _).setConsumer c _).consumer c = _ from Function.update_self ..]
      show ((g.setLane p _).lane p).slot i = _ ∧ e < (s.producer p).entryCount ∧
        (∃ k, (s.producer p).entries e = ⟨some k, some b⟩) ∧ update g.owner b (.dying c) b = _ ∧
        (s.producer p).published[i]? = some x
      rw [g.setSlot_slot, if_pos ⟨rfl, rfl⟩, Function.update_self]
      refine ⟨hf, ?_, ⟨32 * (i / 32), ?_⟩, rfl, hx⟩
      · rw [he, ← hidx]
        exact hring.made q hq
      · rw [he, hlive.entry, hb]
    · exact I.out.setSlot (by rw [hslot, hf]; rfl) (by rw [hslot]; simp) (by rw [hf]; simp)
        (by rw [hc]; rfl) rfl rfl fun _ _ _ h => h
  · rw [if_neg hlast] at hs hf
    subst hs
    refine I.onBlock (c := c) (f := f) (o := .live p (i / 32)) (by rw [hslot]; rfl) hd hfw hffull rfl
      hb rfl rfl rfl ⟨rfl, rfl, rfl⟩ (fun c' hne => Function.update_of_ne hne ..)
      (fun n' hne => by rw [htally, if_neg hne]; rfl) (fun _ => ⟨rfl, ?_⟩) (.inl rfl) helem' ?_ ?_
    · rw [htally, if_pos rfl, ← hcount]
    · rw [show ((s.setBlock b _).finish c p i x).consumer c = _ from Function.update_self ..]
      trivial
    · rw [hf]
      exact I.out.finish (by rw [hslot]; rfl) hx rfl rfl rfl

/-! ### Releasing a block -/

namespace ImplicitProducer

variable {R : ImplicitProducer α} {L : Lane C} {e : ℕ}

omit [DecidableEq C] [DecidableEq P]

theorem setValue_entries (R : ImplicitProducer α) (e : ℕ) (v : Option ℕ) (e' : ℕ) :
    (R.setValue e v).entries e' =
      if e' = e then { R.entries e with value := v } else R.entries e' := by
  show update R.entries e _ e' = _
  by_cases h : e' = e
  · rw [h, Function.update_self, if_pos rfl]
  · rw [Function.update_of_ne h, if_neg h]

theorem setValue_key (R : ImplicitProducer α) (e : ℕ) (v : Option ℕ) (e' : ℕ) :
    ((R.setValue e v).entries e').key = (R.entries e').key := by
  rw [R.setValue_entries]
  split
  · subst e'; rfl
  · rfl

theorem PcOk.clear {pc : EnqueuePc α} (H : R.PcOk pc) : (R.setValue e none).PcOk pc := by
  have hkeep : ∀ {e' k}, R.entries e' = ⟨k, none⟩ → (R.setValue e none).entries e' = ⟨k, none⟩ := by
    intro e' k h
    rw [R.setValue_entries]
    split
    · subst e'; rw [h]
    · exact h
  have hnone : ∀ {e'}, (R.entries e').value = none → ((R.setValue e none).entries e').value = none := by
    intro e' h
    rw [R.setValue_entries]
    split
    · rfl
    · exact h
  cases pc with
  | idle | construct | storeTail | loadHead | insertEntry => exact H
  | newIndex =>
    obtain ⟨hroom, cur, hcur, hC, hk⟩ := H
    exact ⟨hroom, cur, hcur, hC, (R.setValue_key ..).trans hk⟩
  | storeKey =>
    obtain ⟨hroom, cur, hcur, ht, he, hv⟩ := H
    exact ⟨hroom, cur, hcur, ht, he, hnone hv⟩
  | storeIndexTail =>
    obtain ⟨hroom, cur, hcur, ht, he, hE⟩ := H
    exact ⟨hroom, cur, hcur, ht, he, hkeep hE⟩
  | tryPool | tryFreeList | create | resetEmpty | storeValue | rewind =>
    obtain ⟨hroom, cur, hcur, he, hE⟩ := H
    exact ⟨hroom, cur, hcur, he, hkeep hE⟩
  | clearValue => exact hnone H

theorem LaneOk.clear (H : R.LaneOk L) : (R.setValue e none).LaneOk L where
  desk := H.desk
  waiting := H.waiting
  length := H.length
  room := H.room
  noIndex := H.noIndex
  ring := fun cur hcur => by
    refine (H.ring cur hcur).congr rfl rfl rfl rfl (R.setValue_key e none) (fun e' b h => ?_) rfl rfl
    rw [R.setValue_entries] at h
    split at h
    · cases h
    · exact h
  tailBlock := H.tailBlock
  pc := H.pc.clear

/-- A consumer that is to release another block does not notice. -/
theorem keeps_clear {c' : C} {mine : ℕ → Prop} (hmine : ∀ b, mine b → (R.entries e).value ≠ some b) :
    Keeps c' mine R L (R.setValue e none) L := by
  refine { Keeps.refl c' mine R L with key := fun cur _ h _ q _ hk => ?_,
                                       entry := fun e' _ k b hb h => ?_ }
  · rw [keyAt]
    exact fun h' => hk ((R.setValue_key ..).symm.trans h')
  · rw [R.setValue_entries, if_neg]
    · exact h
    · rintro rfl
      exact hmine b hb (by rw [h])

end ImplicitProducer

/-- `unlink`: the entry of the empty block is free for another block number. -/
theorem Inv.unlink (I : Inv poolSize s g) {i e b : ℕ} {x : α}
    (hc : s.consumer c = .unlink p i e b x) (hs : s.consumerStep poolSize c = some s') :
    Inv poolSize s' g := by
  have hok := I.cons c
  rw [hc] at hok
  obtain ⟨hslot, -, ⟨k, hE⟩, ho, hx⟩ := hok
  simp only [Queue.consumerStep, hc, Option.some.injEq] at hs
  subst hs
  have hp : update s.producer p ((s.producer p).setValue e none) p =
      (s.producer p).setValue e none := Function.update_self ..
  refine I.of_local p (some c) I.noFault (fun p' hne => ⟨Function.update_of_ne hne .., rfl⟩)
    (fun c' hc' => Function.update_of_ne (fun h => hc' (by rw [h])) ..) ?_ ?_ ?_ ?_
    (fun _ _ _ _ => ⟨rfl, rfl⟩) (fun _ _ _ h => h) ?_
    ⟨I.pool.nodup, I.pool.free, I.pool.pool, I.pool.alloc, I.pool.clean⟩ ?_
  · show (update s.producer p _ p).LaneOk _
    rw [hp]
    exact (I.lane p).clear
  · show HeldOk s.blocks g.owner p (update s.producer p _ p).pc
    rw [hp]
    exact I.held p
  · intro n hn ht
    show Live s.blocks g.owner p (update s.producer p _ p) _ n
    replace hn : n < (update s.producer p _ p).indexed := hn
    rw [hp] at hn ⊢
    have hlive := I.live p n hn ht
    refine hlive.congr ?_ rfl (fun _ => ⟨rfl, rfl⟩) rfl rfl rfl fun _ _ => rfl
    rw [ImplicitProducer.setValue_entries, if_neg]
    -- the entry of a live block does not lead to a block that is being released
    intro heq
    have hE' := hlive.entry
    rw [heq, hE] at hE'
    cases hE'
    have := hlive.owner
    rw [ho] at this
    cases this
  · intro c' hc'
    show Keeps c' _ _ _ (update s.producer p _ p) _
    rw [hp]
    refine ImplicitProducer.keeps_clear fun b' hb' hval => ?_
    rw [hE] at hval
    cases hval
    rw [ho] at hb'
    cases hb'
    exact hc' rfl
  · intro c' hc'
    cases hc'
    rw [show (((s.setProducer p _).setConsumer c _).consumer c) = _ from Function.update_self ..]
    show _ ∧ _ ∧ (update s.producer p _ p).published[i]? = some x
    rw [hp]
    exact ⟨hslot, ho, hx⟩
  · refine I.out.same rfl (fun c' => holding_update (s := s) (by rw [hc]; rfl) c') ?_ fun _ => rfl
    exact published_update fun _ _ h => h

omit [DecidableEq C] [DecidableEq P] in
/-- A block that is being released is in nobody else's hands. -/
theorem PoolOk.notMem_of_dying (H : PoolOk poolSize s g.owner) {b : ℕ} (ho : g.owner b = .dying c) :
    b ∉ s.freeList := fun h => by
  rw [H.free b h] at ho
  cases ho

/-- `release`: the block goes to the free list, or back to the heap. -/
theorem Inv.release (I : Inv poolSize s g) {i b : ℕ} {x : α} (hc : s.consumer c = .release p i b x)
    (hs : s.consumerStep poolSize c = some s') : ∃ g', Inv poolSize s' g' := by
  have hok := I.cons c
  rw [hc] at hok
  obtain ⟨hslot, ho, hx⟩ := hok
  have hw : (g.lane p).slot i ≠ .waiting := by rw [hslot]; simp
  simp only [Queue.consumerStep, hc, Option.some.injEq] at hs
  set o : Owner P C := if b < poolSize then .free else .gone with hodef
  set g' : Ghost P C := ⟨(g.setLane p ((g.lane p).setSlot i .returned)).lane, update g.owner b o⟩
    with hg'
  have hlane : g'.lane p = (g.lane p).setSlot i .returned := g.setLane_self ..
  have hprod : s'.producer = s.producer := by
    rw [← hs, Queue.addBlockToFreeList]
    split <;> rfl
  have hcons : s'.consumer = update s.consumer c .idle := by
    rw [← hs, Queue.addBlockToFreeList]
    split <;> rfl
  have hret : s'.returned = ⟨c, p, i, x⟩ :: s.returned := by
    rw [← hs, Queue.addBlockToFreeList]
    split <;> rfl
  have hfault : s'.fault = s.fault := by
    rw [← hs, Queue.addBlockToFreeList]
    split <;> rfl
  have hframe : ∀ b', b' ≠ b → s'.blocks b' = s.blocks b' ∧ g'.owner b' = g.owner b' := by
    intro b' hne
    refine ⟨?_, Function.update_of_ne hne ..⟩
    rw [← hs, Queue.addBlockToFreeList]
    split
    · rfl
    · exact Function.update_of_ne hne ..
  have hne : ∀ {b'}, (∀ c', g.owner b' ≠ .dying c') → b' ≠ b := by
    rintro b' h rfl
    exact h c ho
  have hdone : ∀ i', (((g.lane p).setSlot i .returned).slot i').done = ((g.lane p).slot i').done := by
    intro i'
    rw [Lane.setSlot_slot]
    split
    · subst i'; rw [hslot]; rfl
    · rfl
  have hfull : ∀ i', (((g.lane p).setSlot i .returned).slot i').full = ((g.lane p).slot i').full := by
    intro i'
    rw [Lane.setSlot_slot]
    split
    · subst i'; rw [hslot]; rfl
    · rfl
  refine ⟨g', I.of_local p (some c) (by rw [hfault]; exact I.noFault)
    (fun p' hp => ⟨by rw [hprod], g.setLane_of_ne _ hp⟩)
    (fun c' hc' => by rw [hcons]; exact Function.update_of_ne (fun h => hc' (by rw [h])) ..)
    ?_ ?_ ?_ ?_ ?_ ?_ ?_ ?_ (I.out.finish (by rw [hslot]; rfl) hx hret hcons hprod)⟩
  · rw [hprod, hlane]
    exact (I.lane p).setSlot hw (by simp)
  · rw [hprod]
    exact (I.held p).frame fun b' hb' => hframe b' (hne fun c' => by rw [hb']; simp)
  · intro n hn ht
    rw [hprod] at hn ⊢
    rw [hlane] at ht ⊢
    rw [tally_congr hdone] at ht
    have hlive := I.live p n hn ht
    have hb' : (g.lane p).blockOf n ≠ b := hne fun c' => by rw [hlive.owner]; simp
    exact (hlive.congr (M := (g.lane p).setSlot i .returned) rfl rfl (fun _ => ⟨rfl, rfl⟩) rfl rfl
      (tally_congr hdone n) fun j _ =>
        ImplicitProducer.content_congr rfl rfl rfl hfull _).frame (hframe _ hb').1 (hframe _ hb').2
  · intro c' hc'
    rw [hprod, hlane]
    exact Keeps.setSlot (by rw [hslot]; rfl) (fun h => hc' (by rw [h])) _ _
  · intro p' _ b' hb'
    refine hframe b' (hne fun c' => ?_)
    rcases hb' with hb' | ⟨n, hb'⟩ <;> rw [hb'] <;> simp
  · intro c' hc' b' hb'
    rw [(hframe b' ?_).2, hb']
    rintro rfl
    rw [ho] at hb'
    cases hb'
    exact hc' rfl
  · intro c' hc'
    cases hc'
    rw [hcons, Function.update_self]
    trivial
  · have hfree : s'.freeList = if b < poolSize then b :: s.freeList else s.freeList := by
      rw [← hs, Queue.addBlockToFreeList]
      split <;> rfl
    have hindex : s'.initialBlockPoolIndex = s.initialBlockPoolIndex ∧ s'.nextBlock = s.nextBlock := by
      rw [← hs, Queue.addBlockToFreeList]
      split <;> exact ⟨rfl, rfl⟩
    have hself : g'.owner b = o := Function.update_self ..
    refine ⟨?_, fun b' hb' => ?_, fun b' h₁ h₂ => ?_, ?_, fun b' hb' => ?_⟩
    · rw [hfree]
      split
      · exact List.nodup_cons.2 ⟨I.pool.notMem_of_dying ho, I.pool.nodup⟩
      · exact I.pool.nodup
    · by_cases hbb : b' = b
      · rw [hbb, hself, hodef]
        rw [hbb, hfree] at hb'
        split
        · rfl
        · rename_i hlt
          rw [if_neg hlt] at hb'
          exact absurd hb' (I.pool.notMem_of_dying ho)
      · rw [(hframe b' hbb).2]
        rw [hfree] at hb'
        refine I.pool.free b' ?_
        split at hb'
        · exact (List.mem_cons.1 hb').resolve_left hbb
        · exact hb'
    · rw [hindex.1] at h₁
      have hfresh := I.pool.pool b' h₁ h₂
      rw [(hframe b' (hne fun c' => by rw [hfresh]; simp)).2, hfresh]
    · rw [hindex.2]
      refine ⟨I.pool.alloc.1, fun b' h => ?_⟩
      have hfresh := I.pool.alloc.2 b' h
      rw [(hframe b' (hne fun c' => by rw [hfresh]; simp)).2, hfresh]
    · by_cases hbb : b' = b
      · subst hbb
        rw [hself, hodef] at hb'
        by_cases hlt : b' < poolSize
        · obtain ⟨B, hB, hclean⟩ := I.pool.clean b' (.inr (.inr (.inl ⟨c, ho⟩)))
          refine ⟨B, ?_, hclean⟩
          rw [← hs, Queue.addBlockToFreeList, if_pos hlt]
          exact hB
        · rw [if_neg hlt] at hb'
          simp at hb'
      · rw [(hframe b' hbb).2] at hb'
        obtain ⟨B, hB, hclean⟩ := I.pool.clean b' hb'
        exact ⟨B, by rw [(hframe b' hbb).1, hB], hclean⟩

/-- **Every step of a consumer keeps the invariant.** -/
theorem Inv.consumerStep (I : Inv poolSize s g) (hnear : Near s (.consumer c : Action P C α))
    (hs : s.consumerStep poolSize c = some s') : ∃ g', Inv poolSize s' g' := by
  have hok := I.cons c
  cases hc : s.consumer c with
  | idle =>
    rw [Queue.consumerStep, hc] at hs
    cases hs
  | loadTail q =>
    simp only [Queue.consumerStep, hc, Option.some.injEq] at hs
    subst hs
    exact ⟨g, I.setConsumer trivial (by rw [hc]; rfl)⟩
  | loadOvercommit q t =>
    simp only [Queue.consumerStep, hc, Option.some.injEq] at hs
    subst hs
    exact ⟨g, I.setConsumer le_rfl (by rw [hc]; rfl)⟩
  | check q t v =>
    rw [hc] at hok
    simp only [Queue.consumerStep, hc] at hs
    split at hs
    · cases hs
      exact ⟨g, I.setConsumer hok (by rw [hc]; rfl)⟩
    · cases hs
      exact ⟨g, I.setConsumer trivial (by rw [hc]; rfl)⟩
  | reserve q v => exact I.reserve hc hs
  | recheck q v m =>
    simp only [Near, hc] at hnear
    exact I.recheck hc hnear hs
  | claim q m => exact I.claim hc hs
  | giveBack q m => exact I.giveBack hc hs
  | loadIndex q i => exact ⟨g, I.loadIndex hc hs⟩
  | loadIndexTail q i h => exact ⟨g, I.loadIndexTail hc hs⟩
  | loadKey q i h t => exact ⟨g, I.loadKey hc hs⟩
  | loadValue q i h t k => exact ⟨g, I.loadValue hc hs⟩
  | take q i e b => exact I.take hc hs
  | setEmpty q i e b x => exact I.setEmpty hc hs
  | unlink q i e b x => exact ⟨g, I.unlink hc hs⟩
  | release q i b x => exact I.release hc hs

end DataProxy.ConcurrentQueue
