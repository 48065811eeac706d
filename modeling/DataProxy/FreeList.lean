import DataProxy.Lib.Run
import Mathlib.Data.Finset.Card
import Mathlib.Data.Fintype.Card
import Mathlib.Algebra.BigOperators.Group.Finset.Piecewise

/-!
# `FreeList`

The list of blocks that can be used again.  It is a stack of nodes, changed by compare-and-swap on its
head.  A node can be taken off, used and put back while another thread is about to take it off, so
every node counts the threads that refer to it in `freeListRefs`; the list itself counts as one.  The
highest bit says that the node should be on the list: the thread that brings the count to zero puts
it there, whoever that is.

One step is one access to shared memory, and any number of threads take steps in any order.  `out` is
ghost: the nodes that the users of the list have.
-/

namespace DataProxy

open Function (update)

namespace FreeList

/-- `SHOULD_BE_ON_FREELIST`; `REFS_MASK` is one less. -/
def shouldBeOnFreeList : ℕ := 2 ^ 31

/-- What follows `add_knowing_refcount_is_zero`: the return of `add`, or the loop of `try_get`. -/
inductive After (N : Type)
  | ret
  | loop (head : Option N)
  deriving DecidableEq

/-- The next access of a thread. -/
inductive Pc (N : Type)
  | idle
  /-- `add`: the `fetch_add` of the flag. -/
  | addFlag (n : N)
  /-- `add_knowing_refcount_is_zero`. -/
  | loadHead (n : N) (k : After N)
  | storeNext (n : N) (head : Option N) (k : After N)
  | storeRefs (n : N) (head : Option N) (k : After N)
  | casAdd (n : N) (head : Option N) (k : After N)
  /-- The `fetch_add` of the flag less one, after the compare-and-swap has failed. -/
  | putBack (n : N) (head : Option N) (k : After N)
  /-- `try_get`. -/
  | getHead
  | loadRefs (head : N)
  | casRefs (head : N) (refs : ℕ)
  | loadNext (head : N)
  | casHead (head : N) (next : Option N)
  /-- The load in the assertion. -/
  | assertRefs (head : N)
  /-- The `fetch_sub` of two. -/
  | dropTwo (head : N)
  /-- The `fetch_sub` of one, on `prevHead`; `head` is the one that the compare-and-swap has found. -/
  | dropOne (prevHead : N) (head : Option N)
  deriving DecidableEq

end FreeList

open FreeList in
/-- The list, with the place every thread has reached. -/
structure FreeList (T N : Type) where
  freeListHead : Option N
  freeListRefs : N → ℕ
  freeListNext : N → Option N
  pc : T → Pc N
  out : N → Bool
  /-- An assertion has failed. -/
  fault : Bool

namespace FreeList

variable {T N : Type} [DecidableEq T] [DecidableEq N]

/-- All nodes are with the users of the list. -/
def init : FreeList T N where
  freeListHead := none
  freeListRefs _ := 0
  freeListNext _ := none
  pc _ := .idle
  out _ := true
  fault := false

variable (s : FreeList T N)

def goto (t : T) (pc : Pc N) : FreeList T N := { s with pc := update s.pc t pc }

/-- The refs are changed and the thread goes on. -/
def setRefs (t : T) (n : N) (refs : ℕ) (pc : Pc N) : FreeList T N :=
  { s with freeListRefs := update s.freeListRefs n (refs % 2 ^ 32), pc := update s.pc t pc }

/-- The head of the loop of `try_get`. -/
def loop : Option N → Pc N
  | none => .idle
  | some head => .loadRefs head

def after : After N → Pc N
  | .ret => .idle
  | .loop head => loop head

/-- The next access of thread `t`. -/
def accessStep (t : T) : Option (FreeList T N) :=
  match s.pc t with
  | .idle => none
  | .addFlag n =>
    let refs := s.freeListRefs n
    some (s.setRefs t n (refs + shouldBeOnFreeList) (if refs = 0 then .loadHead n .ret else .idle))
  | .loadHead n k => some (s.goto t (.storeNext n s.freeListHead k))
  | .storeNext n head k =>
    some { s.goto t (.storeRefs n head k) with freeListNext := update s.freeListNext n head }
  | .storeRefs n head k => some (s.setRefs t n 1 (.casAdd n head k))
  | .casAdd n head k =>
    if s.freeListHead = head then some { s.goto t (after k) with freeListHead := some n }
    else some (s.goto t (.putBack n s.freeListHead k))
  | .putBack n head k =>
    let refs := s.freeListRefs n
    some (s.setRefs t n (refs + (shouldBeOnFreeList - 1))
      (if refs = 1 then .storeNext n head k else after k))
  | .getHead => some (s.goto t (loop s.freeListHead))
  | .loadRefs head =>
    let refs := s.freeListRefs head
    some (s.goto t (if refs % 2 ^ 31 = 0 then .getHead else .casRefs head refs))
  | .casRefs head refs =>
    if s.freeListRefs head = refs then some (s.setRefs t head (refs + 1) (.loadNext head))
    else some (s.goto t .getHead)
  | .loadNext head => some (s.goto t (.casHead head (s.freeListNext head)))
  | .casHead head next =>
    if s.freeListHead = some head then
      some { s.goto t (.assertRefs head) with freeListHead := next }
    else some (s.goto t (.dropOne head s.freeListHead))
  | .assertRefs head =>
    if s.freeListRefs head / 2 ^ 31 % 2 = 0 then some (s.goto t (.dropTwo head))
    else some { s with fault := true }
  | .dropTwo head =>
    some { s.setRefs t head (s.freeListRefs head + (2 ^ 32 - 2)) .idle with
      out := update s.out head true }
  | .dropOne prevHead head =>
    let refs := s.freeListRefs prevHead
    some (s.setRefs t prevHead (refs + (2 ^ 32 - 1))
      (if refs = shouldBeOnFreeList + 1 then .loadHead prevHead (.loop head) else loop head))

end FreeList

inductive FreeListAction (T N : Type)
  /-- A thread calls `add` with a node that its users have. -/
  | add (t : T) (n : N)
  | tryGet (t : T)
  | access (t : T)

namespace FreeList

variable {T N : Type} [DecidableEq T] [DecidableEq N]

def step (s : FreeList T N) : FreeListAction T N → Option (FreeList T N)
  | .add t n =>
    if s.fault = false ∧ s.pc t = .idle ∧ s.out n = true then
      some { s.goto t (.addFlag n) with out := update s.out n false }
    else none
  | .tryGet t => if s.fault = false ∧ s.pc t = .idle then some (s.goto t .getHead) else none
  | .access t => if s.fault = false then s.accessStep t else none

/-! ### The invariant -/

/-- What a node is used for, and the thread that works on it. -/
inductive Status (T : Type)
  /-- With the users of the list. -/
  | out
  /-- `add` is called with it. -/
  | calling (t : T)
  /-- It should be on the list; a thread still refers to it. -/
  | pending
  /-- It should be on the list and no thread refers to it; `t` is about to offer it. -/
  | adding (t : T)
  /-- `t` is about to put it on the list. -/
  | offering (t : T)
  | listed
  /-- `t` has taken it off the list. -/
  | taken (t : T)
  deriving DecidableEq

namespace Status

/-- The refs of a node, less the threads that refer to it. -/
def base : Status T → ℕ
  | .out | .calling _ => 0
  | .pending | .adding _ => shouldBeOnFreeList
  | .offering _ | .listed | .taken _ => 1

def thread : Status T → Option T
  | .calling t | .adding t | .offering t | .taken t => some t
  | .out | .pending | .listed => none

/-- Whether threads refer to the node, where that matters. -/
def CountOk : Status T → ℕ → Prop
  | .pending, k => 0 < k
  | .adding _, k => k = 0
  | _, _ => True

end Status

/-- The node whose refs the thread has incremented. -/
def Pc.holds : Pc N → Option N
  | .loadNext n | .casHead n _ | .assertRefs n | .dropTwo n | .dropOne n _ => some n
  | _ => none

/-- The node that is in the hands of the thread. -/
def Pc.works : Pc N → Option N
  | .addFlag n | .loadHead n _ | .storeNext n _ _ | .storeRefs n _ _ | .casAdd n _ _ | .putBack n _ _
  | .assertRefs n | .dropTwo n => some n
  | _ => none

/-- The nodes reached from `head`. -/
def Linked (next : N → Option N) : Option N → List N → Prop
  | head, [] => head = none
  | head, n :: l => head = some n ∧ Linked next (next n) l

/-- How many threads refer to a node. -/
def holders [Fintype T] (s : FreeList T N) (n : N) : ℕ := ∑ t, if (s.pc t).holds = some n then 1 else 0

/-- What a thread knows. -/
def PcOk (s : FreeList T N) (st : N → Status T) (t : T) : Pc N → Prop
  | .addFlag n => st n = .calling t
  | .loadHead n _ | .storeNext n _ _ => st n = .adding t
  | .storeRefs n head _ => st n = .adding t ∧ s.freeListNext n = head
  | .casAdd n head _ => st n = .offering t ∧ s.freeListNext n = head
  | .putBack n _ _ => st n = .offering t
  | .casRefs _ refs => refs % 2 ^ 31 ≠ 0
  | .casHead n next => s.freeListNext n = next
  | .assertRefs n | .dropTwo n => st n = .taken t
  | _ => True

/-- **The invariant of the list.** -/
structure Inv [Fintype T] (s : FreeList T N) (st : N → Status T) : Prop where
  noFault : s.fault = false
  refs : ∀ n, s.freeListRefs n = (st n).base + s.holders n
  count : ∀ n, (st n).CountOk (s.holders n)
  place : ∀ t, s.PcOk st t (s.pc t)
  busy : ∀ n t, (st n).thread = some t → (s.pc t).works = some n
  chain : ∃ l, Linked s.freeListNext s.freeListHead l ∧ l.Nodup ∧ ∀ n, n ∈ l ↔ st n = .listed
  out : ∀ n, s.out n = true ↔ st n = .out

omit [DecidableEq T] [DecidableEq N] in
theorem Linked.congr {next next' : N → Option N} {head : Option N} {l : List N}
    (H : Linked next head l) (h : ∀ n ∈ l, next' n = next n) : Linked next' head l := by
  induction l generalizing head with
  | nil => exact H
  | cons n l ih =>
    refine ⟨H.1, ?_⟩
    rw [h n List.mem_cons_self]
    exact ih H.2 fun m hm => h m (List.mem_cons_of_mem _ hm)

variable [Fintype T] {s s' : FreeList T N} {st : N → Status T} {t : T} {n : N}

/-- One thread goes elsewhere. -/
theorem holders_update (s : FreeList T N) (t : T) (p : Pc N) (n : N) :
    (∑ t', if (update s.pc t p t').holds = some n then 1 else 0) +
      (if (s.pc t).holds = some n then 1 else 0) =
    s.holders n + if p.holds = some n then 1 else 0 := by
  have hsplit : ∀ f : T → Pc N, (∑ t', if (f t').holds = some n then 1 else 0) =
      (if (f t).holds = some n then 1 else 0) +
        ∑ t' ∈ Finset.univ.erase t, if (f t').holds = some n then 1 else 0 :=
    fun f => (Finset.add_sum_erase _ _ (Finset.mem_univ t)).symm
  have hrest : (∑ t' ∈ Finset.univ.erase t, if (update s.pc t p t').holds = some n then 1 else 0) =
      ∑ t' ∈ Finset.univ.erase t, if (s.pc t').holds = some n then 1 else 0 := by
    refine Finset.sum_congr rfl fun t' ht' => ?_
    rw [Function.update_of_ne (Finset.ne_of_mem_erase ht')]
  rw [holders, hsplit, hsplit, hrest, Function.update_self]
  omega

omit [DecidableEq T] in
theorem holders_le (s : FreeList T N) (n : N) : s.holders n ≤ Fintype.card T := by
  unfold holders
  rw [← Finset.card_filter]
  exact Finset.card_le_univ _

omit [DecidableEq T] in
theorem holders_pos (h : (s.pc t).holds = some n) : 0 < s.holders n := by
  unfold holders
  rw [← Finset.card_filter]
  exact Finset.card_pos.2 ⟨t, Finset.mem_filter.2 ⟨Finset.mem_univ t, h⟩⟩

/-! ### The rules for one step -/

omit [DecidableEq T] [DecidableEq N] [Fintype T] in
/-- What a thread knows stays so while the others leave its node and its next node alone. -/
theorem PcOk.congr {st' : N → Status T} {p : Pc N} (H : s.PcOk st t p)
    (hst : ∀ n, p.works = some n → st' n = st n)
    (hnext : ∀ n, p.works = some n ∨ p.holds = some n → s'.freeListNext n = s.freeListNext n) :
    s'.PcOk st' t p := by
  cases p with
  | addFlag n | loadHead n | storeNext n | putBack n | assertRefs n | dropTwo n =>
    exact (hst n rfl).trans H
  | storeRefs n head | casAdd n head => exact ⟨(hst n rfl).trans H.1, (hnext n (.inl rfl)).trans H.2⟩
  | casHead n next => exact (hnext n (.inr rfl)).trans H
  | _ => exact H

/-- A thread goes on, and the node in its hands and the one it refers to stay the same. -/
theorem Inv.goto (I : Inv s st) {p : Pc N} (hholds : p.holds = (s.pc t).holds)
    (hworks : p.works = (s.pc t).works) (hp : s.PcOk st t p) : Inv (s.goto t p) st := by
  have hholders : ∀ n, (s.goto t p).holders n = s.holders n := by
    intro n
    have h := holders_update s t p n
    rw [hholds] at h
    exact Nat.add_right_cancel h
  refine ⟨I.noFault, fun n => ?_, fun n => ?_, fun t' => ?_, fun n t' h => ?_, I.chain, I.out⟩
  · rw [hholders]
    exact I.refs n
  · rw [hholders]
    exact I.count n
  · show PcOk _ st t' (update s.pc t p t')
    by_cases ht : t' = t
    · subst ht
      rw [Function.update_self]
      exact hp.congr (fun _ _ => rfl) fun _ _ => rfl
    · rw [Function.update_of_ne ht]
      exact (I.place t').congr (fun _ _ => rfl) fun _ _ => rfl
  · show (update s.pc t p t').works = some n
    have hbusy := I.busy n t' h
    by_cases ht : t' = t
    · subst ht
      rw [Function.update_self, hworks, hbusy]
    · rw [Function.update_of_ne ht, hbusy]

omit [DecidableEq T] [DecidableEq N] [Fintype T] in
/-- The node in the hands of a thread is marked with it. -/
theorem PcOk.thread {p : Pc N} (H : s.PcOk st t p) (h : p.works = some n) : (st n).thread = some t := by
  cases p with
  | addFlag m | loadHead m | storeNext m | putBack m | assertRefs m | dropTwo m =>
    cases h
    rw [show st n = _ from H]
    rfl
  | storeRefs m head | casAdd m head =>
    cases h
    rw [H.1]
    rfl
  | _ => cases h

/-- **The rule for a step on node `n`**, whose status becomes `σ`. -/
theorem Inv.move (I : Inv s st) {p : Pc N} (σ : Status T) (hpc : s'.pc = update s.pc t p)
    (hfault : s'.fault = s.fault)
    (hrefs : ∀ m, m ≠ n → s'.freeListRefs m = s.freeListRefs m)
    (hout : ∀ m, m ≠ n → s'.out m = s.out m)
    (hnext : s'.freeListNext = s.freeListNext ∨
      (∀ m, m ≠ n → s'.freeListNext m = s.freeListNext m) ∧ s.holders n = 0 ∧
        ∀ t', (st n).thread = some t' → t' = t)
    (hold : ∀ m, m ≠ n → (s.pc t).holds ≠ some m ∧ (s.pc t).works ≠ some m ∧ p.holds ≠ some m)
    -- the thread only refers to the node, or no other thread has it in its hands
    (hwork : σ = st n ∧ (s.pc t).works = none ∨ (∀ t', (st n).thread = some t' → t' = t) ∧
      ∀ t', σ.thread = some t' → t' = t ∧ p.works = some n)
    (hn : ∀ k, k + (if (s.pc t).holds = some n then 1 else 0) =
        s.holders n + (if p.holds = some n then 1 else 0) →
      s'.freeListRefs n = σ.base + k ∧ σ.CountOk k)
    (houtn : s'.out n = true ↔ σ = .out)
    (hp : s'.PcOk (update st n σ) t p)
    (hchain : ∃ l, Linked s'.freeListNext s'.freeListHead l ∧ l.Nodup ∧
      ∀ m, m ∈ l ↔ update st n σ m = .listed) : Inv s' (update st n σ) := by
  have hholders : ∀ m, s'.holders m + (if (s.pc t).holds = some m then 1 else 0) =
      s.holders m + (if p.holds = some m then 1 else 0) := by
    intro m
    unfold holders
    rw [hpc]
    exact holders_update s t p m
  have hsame : ∀ m, m ≠ n → s'.holders m = s.holders m := by
    intro m hm
    have h := hholders m
    rw [if_neg (hold m hm).1, if_neg (hold m hm).2.2] at h
    exact h
  obtain ⟨hrefsn, hcount⟩ := hn _ (hholders n)
  refine ⟨by rw [hfault, I.noFault], fun m => ?_, fun m => ?_, fun t' => ?_, fun m t' h => ?_, hchain,
    fun m => ?_⟩
  · by_cases hm : m = n
    · rw [hm, Function.update_self, hrefsn]
    · rw [Function.update_of_ne hm, hrefs m hm, hsame m hm]
      exact I.refs m
  · by_cases hm : m = n
    · rw [hm, Function.update_self]
      exact hcount
    · rw [Function.update_of_ne hm, hsame m hm]
      exact I.count m
  · rw [hpc]
    by_cases ht : t' = t
    · rw [ht, Function.update_self]
      exact hp
    · rw [Function.update_of_ne ht]
      refine (I.place t').congr (fun m hm => ?_) fun m hm => ?_
      · by_cases hmn : m = n
        · subst hmn
          rcases hwork with ⟨hσ, -⟩ | ⟨hst, -⟩
          · rw [Function.update_self, hσ]
          · exact absurd (hst t' ((I.place t').thread hm)) ht
        · rw [Function.update_of_ne hmn]
      · rcases hnext with h | ⟨h, hzero, hst⟩
        · rw [h]
        · refine h m ?_
          rintro rfl
          rcases hm with hm | hm
          · exact ht (hst t' ((I.place t').thread hm))
          · have := holders_pos hm
            omega
  · rw [hpc]
    by_cases hm : m = n
    · subst hm
      rw [Function.update_self] at h
      rcases hwork with ⟨hσ, hw⟩ | ⟨-, hσ⟩
      · have hbusy := I.busy m t' (hσ ▸ h)
        rw [Function.update_of_ne, hbusy]
        rintro rfl
        rw [hw] at hbusy
        cases hbusy
      · obtain ⟨rfl, hw⟩ := hσ t' h
        rw [Function.update_self, hw]
    · rw [Function.update_of_ne hm] at h
      have hbusy := I.busy m t' h
      rw [Function.update_of_ne, hbusy]
      rintro rfl
      exact (hold m hm).2.1 hbusy
  · by_cases hm : m = n
    · rw [hm, Function.update_self]
      exact houtn
    · rw [Function.update_of_ne hm, hout m hm]
      exact I.out m

omit [DecidableEq T] in
/-- The list is as it was, if `n` is not on it. -/
theorem Inv.chain_of_ne (I : Inv s st) {σ : Status T} (hn : st n ≠ .listed) (hσ : σ ≠ .listed)
    (hhead : s'.freeListHead = s.freeListHead)
    (hnext : ∀ m, m ≠ n → s'.freeListNext m = s.freeListNext m) :
    ∃ l, Linked s'.freeListNext s'.freeListHead l ∧ l.Nodup ∧
      ∀ m, m ∈ l ↔ update st n σ m = .listed := by
  obtain ⟨l, hl, hnd, hmem⟩ := I.chain
  have hnl : n ∉ l := fun h => hn ((hmem n).1 h)
  refine ⟨l, ?_, hnd, fun m => ?_⟩
  · rw [hhead]
    refine hl.congr fun m hm => hnext m ?_
    rintro rfl
    exact hnl hm
  · by_cases hm : m = n
    · rw [hm, Function.update_self]
      exact ⟨fun h => absurd h hnl, fun h => absurd h hσ⟩
    · rw [Function.update_of_ne hm]
      exact hmem m

/-! ### `add` -/

/-- The call of `add`. -/
theorem Inv.add (I : Inv s st) (hs : s.step (.add t n) = some s') : ∃ st', Inv s' st' := by
  simp only [step] at hs
  split at hs
  · rename_i h
    obtain ⟨-, hpc, hout⟩ := h
    cases hs
    have hst := (I.out n).1 hout
    refine ⟨_, I.move (.calling t) (n := n) (t := t) rfl rfl (fun _ _ => rfl)
      (fun m hm => Function.update_of_ne hm ..) (.inl rfl) (fun m _ => ?_)
      (.inr ⟨fun t' h => ?_, fun t' h => ?_⟩) (fun k hk => ?_) ?_ (Function.update_self ..)
      (I.chain_of_ne (by rw [hst]; simp) (by simp) rfl fun _ _ => rfl)⟩
    · rw [hpc]
      exact ⟨by simp [Pc.holds], by simp [Pc.works], by simp [Pc.holds]⟩
    · rw [hst] at h
      cases h
    · cases h
      exact ⟨rfl, rfl⟩
    · have hrefs := I.refs n
      rw [hst] at hrefs
      simp only [hpc, Pc.holds, reduceCtorEq, if_false] at hk
      refine ⟨?_, trivial⟩
      show s.freeListRefs n = 0 + k
      simp only [Status.base] at hrefs
      omega
    · show update s.out n false n = true ↔ _
      rw [Function.update_self]
      simp
  · cases hs

/-- The rule for a change of the refs of `n`. -/
theorem Inv.setRefs (I : Inv s st) {p : Pc N} (σ : Status T) {x : ℕ}
    (hold : ∀ m, m ≠ n → (s.pc t).holds ≠ some m ∧ (s.pc t).works ≠ some m ∧ p.holds ≠ some m)
    (hwork : σ = st n ∧ (s.pc t).works = none ∨ (∀ t', (st n).thread = some t' → t' = t) ∧
      ∀ t', σ.thread = some t' → t' = t ∧ p.works = some n)
    (hn : ∀ k, k + (if (s.pc t).holds = some n then 1 else 0) =
        s.holders n + (if p.holds = some n then 1 else 0) → x % 2 ^ 32 = σ.base + k ∧ σ.CountOk k)
    (hσ : σ = st n ∨ st n ≠ .listed ∧ σ ≠ .listed ∧ st n ≠ .out ∧ σ ≠ .out)
    (hp : (s.setRefs t n x p).PcOk (update st n σ) t p) :
    Inv (s.setRefs t n x p) (update st n σ) := by
  refine I.move σ rfl rfl (fun m hm => Function.update_of_ne hm ..) (fun _ _ => rfl) (.inl rfl) hold
    hwork (fun k hk => ?_) ?_ hp ?_
  · show update s.freeListRefs n _ n = _ ∧ _
    rw [Function.update_self]
    exact hn k hk
  · rcases hσ with rfl | ⟨-, -, hst, hσ⟩
    · exact I.out n
    · have hout := I.out n
      exact ⟨fun h => absurd (hout.1 h) hst, fun h => absurd h hσ⟩
  · rcases hσ with rfl | ⟨hst, hσ, -⟩
    · rw [Function.update_eq_self]
      exact I.chain
    · exact I.chain_of_ne hst hσ rfl fun _ _ => rfl

/-- `addFlag`. -/
theorem Inv.addFlag (I : Inv s st) (hT : Fintype.card T + 1 < 2 ^ 31) (hpc : s.pc t = .addFlag n)
    (hs : s.accessStep t = some s') : ∃ st', Inv s' st' := by
  have hst : s.PcOk st t (.addFlag n) := hpc ▸ I.place t
  replace hst : st n = .calling t := hst
  have hle := s.holders_le n
  have hrefs := I.refs n
  simp only [hst, Status.base] at hrefs
  simp only [accessStep, hpc, Option.some.injEq] at hs
  by_cases hzero : s.freeListRefs n = 0
  · rw [if_pos hzero] at hs
    subst hs
    refine ⟨_, I.setRefs (.adding t) (fun m hm => ?_) (.inr ⟨fun t' h => ?_, fun t' h => ?_⟩)
      (fun k hk => ?_) (.inr (by simp [hst])) (Function.update_self ..)⟩
    · simp [hpc, Pc.holds, Pc.works, hm.symm]
    · rw [hst] at h
      exact (Option.some.inj h).symm
    · exact ⟨(Option.some.inj h).symm, rfl⟩
    · simp only [hpc, Pc.holds, reduceCtorEq, if_false] at hk
      simp only [Status.base, shouldBeOnFreeList, Status.CountOk]
      omega
  · rw [if_neg hzero] at hs
    subst hs
    refine ⟨_, I.setRefs .pending (fun m hm => ?_) (.inr ⟨fun t' h => ?_, fun t' h => ?_⟩)
      (fun k hk => ?_) (.inr (by simp [hst])) trivial⟩
    · simp [hpc, Pc.holds, Pc.works, hm.symm]
    · rw [hst] at h
      exact (Option.some.inj h).symm
    · cases h
    · simp only [hpc, Pc.holds, reduceCtorEq, if_false] at hk
      simp only [Status.base, shouldBeOnFreeList, Status.CountOk]
      omega

/-! ### `add_knowing_refcount_is_zero` -/

omit [DecidableEq N] in
theorem after_holds (k : After N) : (after k).holds = none ∧ (after k).works = none := by
  rcases k with - | - | head <;> exact ⟨rfl, rfl⟩

omit [DecidableEq T] [DecidableEq N] [Fintype T] in
theorem after_ok (s : FreeList T N) (st : N → Status T) (t : T) (k : After N) :
    s.PcOk st t (after k) := by
  rcases k with - | - | head <;> trivial

/-- `storeNext`: nobody refers to the node. -/
theorem Inv.storeNext (I : Inv s st) {head : Option N} {k : After N}
    (hpc : s.pc t = .storeNext n head k) (hs : s.accessStep t = some s') : ∃ st', Inv s' st' := by
  have hst : s.PcOk st t (.storeNext n head k) := hpc ▸ I.place t
  replace hst : st n = .adding t := hst
  have hrefs := I.refs n
  have hcount := I.count n
  rw [hst] at hrefs hcount
  replace hcount : s.holders n = 0 := hcount
  have hthread : ∀ t', (st n).thread = some t' → t' = t := by
    intro t' h
    rw [hst] at h
    exact (Option.some.inj h).symm
  have hnext : ∀ m, m ≠ n → update s.freeListNext n head m = s.freeListNext m :=
    fun m hm => Function.update_of_ne hm ..
  simp only [accessStep, hpc, Option.some.injEq] at hs
  subst hs
  refine ⟨_, I.move (.adding t) (n := n) rfl rfl (fun _ _ => rfl) (fun _ _ => rfl)
    (.inr ⟨hnext, hcount, hthread⟩) (fun m hm => ?_) (.inr ⟨hthread, fun t' h => ?_⟩) (fun j hj => ?_)
    ?_ ⟨Function.update_self .., Function.update_self ..⟩
    (I.chain_of_ne (by rw [hst]; simp) (by simp) rfl hnext)⟩
  · simp [hpc, Pc.holds, Pc.works, hm.symm]
  · exact ⟨(Option.some.inj h).symm, rfl⟩
  · simp only [hpc, Pc.holds, reduceCtorEq, if_false] at hj
    obtain rfl : j = s.holders n := by omega
    exact ⟨hrefs, hcount⟩
  · have hout := I.out n
    rw [hst] at hout
    exact hout

/-- `storeRefs`. -/
theorem Inv.storeRefs (I : Inv s st) {head : Option N} {k : After N}
    (hpc : s.pc t = .storeRefs n head k) (hs : s.accessStep t = some s') : ∃ st', Inv s' st' := by
  obtain ⟨hst, hnext⟩ : s.PcOk st t (.storeRefs n head k) := hpc ▸ I.place t
  have hcount := I.count n
  rw [hst] at hcount
  replace hcount : s.holders n = 0 := hcount
  simp only [accessStep, hpc, Option.some.injEq] at hs
  subst hs
  refine ⟨_, I.setRefs (.offering t) (fun m hm => ?_) (.inr ⟨fun t' h => ?_, fun t' h => ?_⟩)
    (fun j hj => ?_) (.inr (by simp [hst])) ⟨Function.update_self .., hnext⟩⟩
  · simp [hpc, Pc.holds, Pc.works, hm.symm]
  · rw [hst] at h
    exact (Option.some.inj h).symm
  · exact ⟨(Option.some.inj h).symm, rfl⟩
  · simp only [hpc, Pc.holds, reduceCtorEq, if_false] at hj
    exact ⟨by simp only [Status.base]; omega, trivial⟩

/-- `casAdd`: the node is put on the list, or the head has changed. -/
theorem Inv.casAdd (I : Inv s st) {head : Option N} {k : After N}
    (hpc : s.pc t = .casAdd n head k) (hs : s.accessStep t = some s') : ∃ st', Inv s' st' := by
  obtain ⟨hst, hnext⟩ : s.PcOk st t (.casAdd n head k) := hpc ▸ I.place t
  simp only [accessStep, hpc] at hs
  split at hs
  · rename_i hhead
    cases hs
    have hrefs := I.refs n
    rw [hst] at hrefs
    obtain ⟨l, hl, hnd, hmem⟩ := I.chain
    have hnl : n ∉ l := by
      rw [hmem, hst]
      simp
    refine ⟨_, I.move .listed (n := n) rfl rfl (fun _ _ => rfl) (fun _ _ => rfl) (.inl rfl)
      (fun m hm => ?_) (.inr ⟨fun t' h => ?_, fun t' h => ?_⟩) (fun j hj => ?_) ?_ (after_ok ..)
      ⟨n :: l, ⟨rfl, ?_⟩, List.nodup_cons.2 ⟨hnl, hnd⟩, fun m => ?_⟩⟩
    · rw [hpc, (after_holds k).1]
      simp [Pc.holds, Pc.works, hm.symm]
    · rw [hst] at h
      exact (Option.some.inj h).symm
    · cases h
    · rw [hpc, (after_holds k).1] at hj
      simp only [Pc.holds, reduceCtorEq, if_false] at hj
      obtain rfl : j = s.holders n := by omega
      exact ⟨hrefs, trivial⟩
    · have hout := I.out n
      rw [hst] at hout
      show s.out n = true ↔ _
      simpa using hout
    · show Linked s.freeListNext (s.freeListNext n) l
      rw [hnext, ← hhead]
      exact hl
    · by_cases hm : m = n
      · rw [hm, Function.update_self]
        simp
      · rw [Function.update_of_ne hm, List.mem_cons, ← hmem m]
        simp [hm]
  · cases hs
    exact ⟨st, I.goto (by rw [hpc]; rfl) (by rw [hpc]; rfl) hst⟩

/-- `putBack`. -/
theorem Inv.putBack (I : Inv s st) (hT : Fintype.card T + 1 < 2 ^ 31) {head : Option N} {k : After N}
    (hpc : s.pc t = .putBack n head k) (hs : s.accessStep t = some s') : ∃ st', Inv s' st' := by
  have hst : s.PcOk st t (.putBack n head k) := hpc ▸ I.place t
  replace hst : st n = .offering t := hst
  have hle := s.holders_le n
  have hrefs := I.refs n
  simp only [hst, Status.base] at hrefs
  simp only [accessStep, hpc, Option.some.injEq] at hs
  by_cases hone : s.freeListRefs n = 1
  · rw [if_pos hone] at hs
    subst hs
    refine ⟨_, I.setRefs (.adding t) (fun m hm => ?_) (.inr ⟨fun t' h => ?_, fun t' h => ?_⟩)
      (fun j hj => ?_) (.inr (by simp [hst])) (Function.update_self ..)⟩
    · simp [hpc, Pc.holds, Pc.works, hm.symm]
    · rw [hst] at h
      exact (Option.some.inj h).symm
    · exact ⟨(Option.some.inj h).symm, rfl⟩
    · simp only [hpc, Pc.holds, reduceCtorEq, if_false] at hj
      simp only [Status.base, shouldBeOnFreeList, Status.CountOk]
      omega
  · rw [if_neg hone] at hs
    subst hs
    refine ⟨_, I.setRefs .pending (fun m hm => ?_) (.inr ⟨fun t' h => ?_, fun t' h => ?_⟩)
      (fun j hj => ?_) (.inr (by simp [hst])) (after_ok ..)⟩
    · rw [hpc, (after_holds k).1]
      simp [Pc.holds, Pc.works, hm.symm]
    · rw [hst] at h
      exact (Option.some.inj h).symm
    · cases h
    · rw [hpc, (after_holds k).1] at hj
      simp only [Pc.holds, reduceCtorEq, if_false] at hj
      simp only [Status.base, shouldBeOnFreeList, Status.CountOk]
      omega

/-! ### `try_get` -/

/-- `casRefs`: another thread refers to the node. -/
theorem Inv.casRefs (I : Inv s st) (hT : Fintype.card T + 1 < 2 ^ 31) {refs : ℕ}
    (hpc : s.pc t = .casRefs n refs) (hs : s.accessStep t = some s') : ∃ st', Inv s' st' := by
  have hne : s.PcOk st t (.casRefs n refs) := hpc ▸ I.place t
  replace hne : refs % 2 ^ 31 ≠ 0 := hne
  simp only [accessStep, hpc] at hs
  split at hs
  · rename_i heq
    cases hs
    have hle := s.holders_le n
    have hrefs := I.refs n
    have hcount := I.count n
    refine ⟨_, I.setRefs (st n) (fun m hm => ?_) (.inl ⟨rfl, by rw [hpc]; rfl⟩) (fun j hj => ?_)
      (.inl rfl) trivial⟩
    · simp [hpc, Pc.holds, Pc.works, hm.symm]
    · simp only [hpc, Pc.holds, reduceCtorEq, if_false, if_true] at hj
      cases hst : st n with
      | adding t' =>
        -- nobody refers to the node, and nobody begins to
        rw [hst] at hrefs hcount
        simp only [Status.base, Status.CountOk, shouldBeOnFreeList] at hrefs hcount
        omega
      | _ =>
        rw [hst] at hrefs
        simp only [Status.base, Status.CountOk, shouldBeOnFreeList, and_true] at hrefs ⊢
        omega
  · cases hs
    exact ⟨st, I.goto (by rw [hpc]; rfl) (by rw [hpc]; rfl) trivial⟩

/-- `casHead`: the node is taken off the list, or the head has changed. -/
theorem Inv.casHead (I : Inv s st) {next : Option N} (hpc : s.pc t = .casHead n next)
    (hs : s.accessStep t = some s') : ∃ st', Inv s' st' := by
  have hnext : s.PcOk st t (.casHead n next) := hpc ▸ I.place t
  replace hnext : s.freeListNext n = next := hnext
  simp only [accessStep, hpc] at hs
  split at hs
  · rename_i hhead
    cases hs
    obtain ⟨l, hl, hnd, hmem⟩ := I.chain
    -- the node is the first of the list
    obtain ⟨l', rfl⟩ : ∃ l', l = n :: l' := by
      cases l with
      | nil =>
        rw [show s.freeListHead = none from hl] at hhead
        cases hhead
      | cons m l' =>
        obtain rfl : m = n := Option.some.inj (hl.1.symm.trans hhead)
        exact ⟨l', rfl⟩
    have hst := (hmem n).1 List.mem_cons_self
    have hnl := (List.nodup_cons.1 hnd).1
    have hrefs := I.refs n
    rw [hst] at hrefs
    refine ⟨_, I.move (.taken t) (n := n) rfl rfl (fun _ _ => rfl) (fun _ _ => rfl) (.inl rfl)
      (fun m hm => ?_) (.inr ⟨fun t' h => ?_, fun t' h => ?_⟩) (fun j hj => ?_) ?_
      (Function.update_self ..) ⟨l', ?_, (List.nodup_cons.1 hnd).2, fun m => ?_⟩⟩
    · simp [hpc, Pc.holds, Pc.works, hm.symm]
    · rw [hst] at h
      cases h
    · exact ⟨(Option.some.inj h).symm, rfl⟩
    · simp only [hpc, Pc.holds, if_true] at hj
      obtain rfl : j = s.holders n := by omega
      exact ⟨hrefs, trivial⟩
    · have hout := I.out n
      rw [hst] at hout
      show s.out n = true ↔ _
      simpa using hout
    · show Linked s.freeListNext next l'
      rw [← hnext]
      exact hl.2
    · by_cases hm : m = n
      · rw [hm, Function.update_self]
        simp [hnl]
      · rw [Function.update_of_ne hm, ← hmem m, List.mem_cons]
        simp [hm]
  · cases hs
    exact ⟨st, I.goto (by rw [hpc]; rfl) (by rw [hpc]; rfl) trivial⟩

/-- `assertRefs`: the flag of a node just taken off is not set. -/
theorem Inv.assertRefs (I : Inv s st) (hT : Fintype.card T + 1 < 2 ^ 31) (hpc : s.pc t = .assertRefs n)
    (hs : s.accessStep t = some s') : ∃ st', Inv s' st' := by
  have hst : s.PcOk st t (.assertRefs n) := hpc ▸ I.place t
  replace hst : st n = .taken t := hst
  have hle := s.holders_le n
  have hrefs := I.refs n
  simp only [hst, Status.base] at hrefs
  have hflag : s.freeListRefs n / 2 ^ 31 % 2 = 0 := by omega
  simp only [accessStep, hpc, hflag, if_true, Option.some.injEq] at hs
  subst hs
  exact ⟨st, I.goto (by rw [hpc]; rfl) (by rw [hpc]; rfl) hst⟩

/-- `dropTwo`: the node goes to the caller. -/
theorem Inv.dropTwo (I : Inv s st) (hT : Fintype.card T + 1 < 2 ^ 31) (hpc : s.pc t = .dropTwo n)
    (hs : s.accessStep t = some s') : ∃ st', Inv s' st' := by
  have hst : s.PcOk st t (.dropTwo n) := hpc ▸ I.place t
  replace hst : st n = .taken t := hst
  have hle := s.holders_le n
  have hpos : 0 < s.holders n := holders_pos (t := t) (by rw [hpc]; rfl)
  have hrefs := I.refs n
  simp only [hst, Status.base] at hrefs
  simp only [accessStep, hpc, Option.some.injEq] at hs
  subst hs
  refine ⟨_, I.move .out (n := n) rfl rfl (fun m hm => Function.update_of_ne hm ..)
    (fun m hm => Function.update_of_ne hm ..) (.inl rfl) (fun m hm => ?_)
    (.inr ⟨fun t' h => ?_, fun t' h => ?_⟩) (fun j hj => ?_) ?_ trivial
    (I.chain_of_ne (by rw [hst]; simp) (by simp) rfl fun _ _ => rfl)⟩
  · simp [hpc, Pc.holds, Pc.works, hm.symm]
  · rw [hst] at h
    exact (Option.some.inj h).symm
  · cases h
  · simp only [hpc, Pc.holds, reduceCtorEq, if_true, if_false] at hj
    refine ⟨?_, trivial⟩
    show update s.freeListRefs n _ n = 0 + j
    rw [Function.update_self]
    omega
  · show update s.out n true n = true ↔ _
    rw [Function.update_self]
    simp

/-- `dropOne`: the last thread that refers to a node puts it on the list, if it should be there. -/
theorem Inv.dropOne (I : Inv s st) (hT : Fintype.card T + 1 < 2 ^ 31) {head : Option N}
    (hpc : s.pc t = .dropOne n head) (hs : s.accessStep t = some s') : ∃ st', Inv s' st' := by
  have hle := s.holders_le n
  have hpos : 0 < s.holders n := holders_pos (t := t) (by rw [hpc]; rfl)
  have hrefs := I.refs n
  have hcount := I.count n
  have hloop : (loop head).holds = none ∧ (loop head).works = none := after_holds (.loop head)
  simp only [accessStep, hpc, Option.some.injEq] at hs
  by_cases hlast : s.freeListRefs n = shouldBeOnFreeList + 1
  · rw [if_pos hlast] at hs
    subst hs
    have hst : st n = .pending := by
      cases hst : st n with
      | pending => rfl
      | _ =>
        rw [hst] at hrefs hcount
        simp only [Status.base, Status.CountOk, shouldBeOnFreeList] at hrefs hcount hlast
        omega
    rw [hst] at hrefs
    refine ⟨_, I.setRefs (.adding t) (fun m hm => ?_) (.inr ⟨fun t' h => ?_, fun t' h => ?_⟩)
      (fun j hj => ?_) (.inr (by simp [hst])) (Function.update_self ..)⟩
    · simp [hpc, Pc.holds, Pc.works, hm.symm]
    · rw [hst] at h
      cases h
    · exact ⟨(Option.some.inj h).symm, rfl⟩
    · simp only [hpc, Pc.holds, reduceCtorEq, if_false, if_true] at hj
      simp only [Status.base, shouldBeOnFreeList, Status.CountOk] at hrefs hlast ⊢
      omega
  · rw [if_neg hlast] at hs
    subst hs
    refine ⟨_, I.setRefs (st n) (fun m hm => ?_) (.inl ⟨rfl, by rw [hpc]; rfl⟩) (fun j hj => ?_)
      (.inl rfl) (after_ok _ _ _ (.loop head))⟩
    · rw [hpc, hloop.1]
      simp [Pc.holds, Pc.works, hm.symm]
    · rw [hpc, hloop.1] at hj
      simp only [Pc.holds, reduceCtorEq, if_true, if_false] at hj
      cases hst : st n with
      | _ =>
        rw [hst] at hrefs hcount
        simp only [Status.base, Status.CountOk, shouldBeOnFreeList, and_true] at hrefs hcount hlast ⊢
        omega

/-! ### Every schedule -/

/-- **Every access keeps the invariant.** -/
theorem Inv.accessStep (I : Inv s st) (hT : Fintype.card T + 1 < 2 ^ 31)
    (hs : s.accessStep t = some s') : ∃ st', Inv s' st' := by
  have hok := I.place t
  cases hpc : s.pc t with
  | idle =>
    simp only [FreeList.accessStep, hpc] at hs
    cases hs
  | addFlag n => exact I.addFlag hT hpc hs
  | loadHead n k =>
    rw [hpc] at hok
    simp only [FreeList.accessStep, hpc, Option.some.injEq] at hs
    subst hs
    exact ⟨st, I.goto (by rw [hpc]; rfl) (by rw [hpc]; rfl) hok⟩
  | storeNext n head k => exact I.storeNext hpc hs
  | storeRefs n head k => exact I.storeRefs hpc hs
  | casAdd n head k => exact I.casAdd hpc hs
  | putBack n head k => exact I.putBack hT hpc hs
  | getHead =>
    simp only [FreeList.accessStep, hpc, Option.some.injEq] at hs
    subst hs
    obtain ⟨hholds, hworks⟩ := after_holds (.loop s.freeListHead)
    exact ⟨st, I.goto (by rw [hpc]; exact hholds) (by rw [hpc]; exact hworks)
      (after_ok s st t (.loop s.freeListHead))⟩
  | loadRefs n =>
    simp only [FreeList.accessStep, hpc, Option.some.injEq] at hs
    subst hs
    split
    · exact ⟨st, I.goto (by rw [hpc]; rfl) (by rw [hpc]; rfl) trivial⟩
    · rename_i hne
      exact ⟨st, I.goto (by rw [hpc]; rfl) (by rw [hpc]; rfl) hne⟩
  | casRefs n refs => exact I.casRefs hT hpc hs
  | loadNext n =>
    simp only [FreeList.accessStep, hpc, Option.some.injEq] at hs
    subst hs
    exact ⟨st, I.goto (by rw [hpc]; rfl) (by rw [hpc]; rfl) rfl⟩
  | casHead n next => exact I.casHead hpc hs
  | assertRefs n => exact I.assertRefs hT hpc hs
  | dropTwo n => exact I.dropTwo hT hpc hs
  | dropOne n head => exact I.dropOne hT hpc hs

theorem Inv.next (I : Inv s st) (hT : Fintype.card T + 1 < 2 ^ 31) {act : FreeListAction T N}
    (hs : s.step act = some s') : ∃ st', Inv s' st' := by
  cases act with
  | add t n => exact I.add hs
  | tryGet t =>
    simp only [step] at hs
    split at hs
    · rename_i h
      cases hs
      exact ⟨st, I.goto (by rw [h.2]; rfl) (by rw [h.2]; rfl) trivial⟩
    · cases hs
  | access t =>
    simp only [step] at hs
    split at hs
    · exact I.accessStep hT hs
    · cases hs

omit [DecidableEq T] in
/-- All nodes are out. -/
theorem inv_init : Inv (init : FreeList T N) fun _ => .out where
  noFault := rfl
  refs := fun n => by
    show 0 = 0 + ∑ _t : T, if (none : Option N) = some n then 1 else 0
    simp
  count := fun _ => trivial
  place := fun _ => trivial
  busy := fun _ _ h => nomatch h
  chain := ⟨[], rfl, List.nodup_nil, fun n => by simp⟩
  out := fun n => ⟨fun _ => rfl, fun _ => rfl⟩

theorem inv_of_reach (hT : Fintype.card T + 1 < 2 ^ 31) (h : Run.Reach step Run.Any init s) :
    ∃ st : N → Status T, Inv s st :=
  h.invariant (I := fun s => ∃ st, Inv s st) ⟨_, inv_init⟩ fun _ _ _ _ ⟨_, I⟩ _ hs => I.next hT hs

/-- **The list gives every node to one thread.**  With fewer than `2 ^ 31 - 1` threads, under every
schedule: the assertion of `try_get` does not fail; a node that `try_get` is about to return is with
no user of the list, and no other call is about to return it; and whenever no call is in progress, the
nodes that the users do not have are those on the list, each of them once. -/
theorem freeList_safe (hT : Fintype.card T + 1 < 2 ^ 31) (h : Run.Reach step Run.Any init s) :
    s.fault = false ∧
    (∀ t (n : N), s.pc t = .dropTwo n → s.out n = false ∧ ∀ t', s.pc t' = .dropTwo n → t' = t) ∧
    ((∀ t : T, s.pc t = .idle) → ∃ l, Linked s.freeListNext s.freeListHead l ∧ l.Nodup ∧
      ∀ n, n ∈ l ↔ s.out n = false) := by
  obtain ⟨st, I⟩ := inv_of_reach hT h
  refine ⟨I.noFault, fun t n hpc => ?_, fun hidle => ?_⟩
  · have hst : ∀ t', s.pc t' = .dropTwo n → st n = .taken t' := by
      intro t' hpc'
      have hok := I.place t'
      rw [hpc'] at hok
      exact hok
    have hout := I.out n
    rw [hst t hpc] at hout
    refine ⟨by simpa using hout, fun t' hpc' => ?_⟩
    have heq := (hst t' hpc').symm.trans (hst t hpc)
    exact Status.taken.inj heq
  · obtain ⟨l, hl, hnd, hmem⟩ := I.chain
    refine ⟨l, hl, hnd, fun n => ?_⟩
    have hout := I.out n
    have hbusy := I.busy n
    have hcount := I.count n
    have hzero : s.holders n = 0 := by
      unfold holders
      refine Finset.sum_eq_zero fun t _ => ?_
      rw [hidle t]
      rfl
    rw [hmem]
    cases hst : st n with
    | out =>
      rw [hst] at hout
      simp [hout.2 rfl]
    | listed =>
      rw [hst] at hout
      simpa using hout
    | pending =>
      rw [hst, hzero] at hcount
      exact absurd hcount (lt_irrefl 0)
    | calling t | adding t | offering t | taken t =>
      rw [hst] at hbusy
      have h := hbusy t rfl
      rw [hidle t] at h
      cases h

/-- One thread refers to a node while the other takes it and gives it back; so the first puts it on
the list. -/
def handedOver : List (FreeListAction Bool Bool) :=
  .add false true :: List.replicate 5 (.access false) ++
    .tryGet true :: List.replicate 4 (.access true) ++
    .tryGet false :: List.replicate 7 (.access false) ++
    [.add false true, .access false] ++ List.replicate 6 (.access true)

theorem freeList_safe_handedOver : ∃ s : FreeList Bool Bool, Run.Reach step Run.Any init s ∧
    s.out true = false ∧ s.out false = true ∧
      ∃ l, Linked s.freeListNext s.freeListHead l ∧ l.Nodup ∧ ∀ n, n ∈ l ↔ s.out n = false := by
  have hrun : (Run.exec step (init : FreeList Bool Bool) handedOver).any (fun s =>
      decide ((∀ t, s.pc t = .idle) ∧ s.out true = false ∧ s.out false = true)) = true := by
    decide +kernel
  obtain ⟨s, hr, hidle, h₁, h₂⟩ := Run.exists_reach_of_exec hrun
  have hT : Fintype.card Bool + 1 < 2 ^ 31 := by decide
  exact ⟨s, hr, h₁, h₂, (freeList_safe hT hr).2.2 hidle⟩

end FreeList

end DataProxy
