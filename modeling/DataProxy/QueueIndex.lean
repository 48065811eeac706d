import DataProxy.ConcurrentQueue
import Mathlib.Data.Nat.ModEq
import Mathlib.Tactic.Ring

/-!
# The circular index of blocks

Block number `b` of a sub-queue holds the elements `32 * b` to `32 * b + 31`, and its entry of the
index has the key `32 * b`.  A header gives the entries in a circle: the entry at position `q` is for
block numbers that are `q + shift` modulo the capacity.  `RingOk` states this for the current header
and relates every older one to it: an older header has some of the same entries, in the same order,
so its congruence is a consequence.

A consumer may still use an older header, and may find at the tail of its header a key stored long
after it loaded the tail.  Both keys are right modulo the capacity of that header, and so is the
position computed from them (`indexPosition_eq`).
-/

namespace DataProxy.ConcurrentQueue

open Function (update)

/-! ### Arithmetic modulo `2 ^ 64` -/

theorem circularLessThan_iff {a b : ℕ} :
    circularLessThan (.ofNat a) (.ofNat b) = true ↔ 2 ^ 63 < (2 ^ 64 - b % 2 ^ 64 + a % 2 ^ 64) % 2 ^ 64 := by
  unfold circularLessThan
  rw [decide_eq_true_iff, UInt64.lt_iff_toNat_lt, UInt64.toNat_sub]
  have h : ((1 : UInt64) <<< 63).toNat = 2 ^ 63 := by decide
  rw [h, UInt64.toNat_ofNat', UInt64.toNat_ofNat']

theorem lt_of_circularLessThan {a b : ℕ} (h : circularLessThan (.ofNat a) (.ofNat b) = true)
    (hle : a ≤ b + 2 ^ 63) : a < b := by
  rw [circularLessThan_iff] at h
  by_contra hba
  omega

theorem circularLessThan_of_lt {a b : ℕ} (h : a < b) (hle : b < a + 2 ^ 63) :
    circularLessThan (.ofNat a) (.ofNat b) = true := by
  rw [circularLessThan_iff]
  omega

theorem ofNat_sub_ofNat {a b : ℕ} (h : b ≤ a) :
    UInt64.ofNat a - UInt64.ofNat b = UInt64.ofNat (a - b) := by
  rw [UInt64.ofNat_sub h]

/-- A signed number and the unsigned one with the same bits. -/
theorem toNat_toUInt64 (y : Int64) :
    (y.toUInt64.toNat : ℤ) = y.toInt ∨ (y.toUInt64.toNat : ℤ) = y.toInt + 2 ^ 64 := by
  have h := BitVec.toInt_eq_toNat_cond y.toBitVec
  change y.toInt = if 2 * y.toUInt64.toNat < 2 ^ 64 then _ else _ at h
  split at h
  · left
    exact h.symm
  · right
    change y.toInt = (y.toUInt64.toNat : ℤ) - 2 ^ 64 at h
    omega

theorem toNat_div_block (x : UInt64) (hx : x.toNat % 32 = 0) :
    ∃ j : ℤ, ((x.toInt64 / 32).toUInt64.toNat : ℤ) = (x.toNat : ℤ) / 32 + 2 ^ 59 * j := by
  have hdiv : (x.toInt64 / 32).toInt = x.toInt64.toInt.tdiv 32 := by
    rw [Int64.toInt_div_of_ne_right]
    · rfl
    · decide
  have hx' := toNat_toUInt64 x.toInt64
  have hq := toNat_toUInt64 (x.toInt64 / 32)
  rw [UInt64.toUInt64_toInt64] at hx'
  obtain ⟨z, hz⟩ : (32 : ℤ) ∣ x.toInt64.toInt := by omega
  rw [hdiv, hz, Int.mul_tdiv_cancel_left _ (by decide)] at hq
  rw [hz] at hx'
  rcases hx' with hx' | hx' <;> rcases hq with hq | hq
  · exact ⟨0, by omega⟩
  · exact ⟨32, by omega⟩
  · exact ⟨-1, by omega⟩
  · exact ⟨31, by omega⟩

theorem indexPosition_eq {k t q b b₀ : ℕ} (hk : k ≤ 59) (hq : q < 2 ^ k)
    (h : q + b₀ ≡ t + b [MOD 2 ^ k]) : indexPosition (2 ^ k) t (32 * b₀) (32 * b) = q := by
  unfold indexPosition
  set x := UInt64.ofNat (32 * b) - UInt64.ofNat (32 * b₀) with hx
  have hxn : x.toNat = (2 ^ 64 - 32 * b₀ % 2 ^ 64 + 32 * b % 2 ^ 64) % 2 ^ 64 := by
    rw [hx, UInt64.toNat_sub, UInt64.toNat_ofNat', UInt64.toNat_ofNat']
  obtain ⟨j, hj⟩ := toNat_div_block x (by omega)
  have hpow : 2 ^ k ≤ 2 ^ 59 := Nat.pow_le_pow_right (by decide) hk
  have hpos : 0 < 2 ^ k := Nat.two_pow_pos k
  have hmask : (UInt64.ofNat (2 ^ k) - 1).toNat = 2 ^ k - 1 := by
    rw [UInt64.toNat_sub, UInt64.toNat_ofNat', UInt64.toNat_one]
    omega
  rw [UInt64.toNat_and, hmask, Nat.and_two_pow_sub_one_eq_mod, UInt64.toNat_add,
    UInt64.toNat_ofNat', Nat.mod_mod_of_dvd _ (Nat.pow_dvd_pow 2 (by omega))]
  set off := (x.toInt64 / 32).toUInt64.toNat
  obtain ⟨z, hz⟩ : ∃ z : ℤ, ((t % 2 ^ 64 + off : ℕ) : ℤ) = t + b - b₀ + 2 ^ 59 * z := by
    refine ⟨j - 32 * (t / 2 ^ 64 : ℕ) + ((x.toNat : ℤ) / 32 - b + b₀) / 2 ^ 59, ?_⟩
    omega
  obtain ⟨u, hu⟩ : ((2 ^ k : ℕ) : ℤ) ∣ (t + b : ℕ) - (q + b₀ : ℕ) := Nat.modEq_iff_dvd.1 h
  obtain ⟨w, hw⟩ : ((2 ^ k : ℕ) : ℤ) ∣ 2 ^ 59 * z :=
    (Int.natCast_dvd_natCast.2 (Nat.pow_dvd_pow 2 hk)).mul_right z
  have hmod : t % 2 ^ 64 + off ≡ q [MOD 2 ^ k] := by
    refine Nat.modEq_iff_dvd.2 ⟨-u - w, ?_⟩
    rw [hz, mul_sub, mul_neg, ← hu, ← hw]
    push_cast
    ring
  exact Eq.trans hmod (Nat.mod_eq_of_lt hq)

/-! ### The invariant of the index -/

variable {α : Type}

namespace ImplicitProducer

variable (R : ImplicitProducer α)

/-- How many blocks have their entry in the index, with its value. -/
def indexed : ℕ :=
  match R.pc with
  | .construct _ | .storeTail _ => R.tailIndex / 32 + 1
  | _ => (R.tailIndex + 31) / 32

/-- How many block numbers the tail of the index has passed. -/
def inserted : ℕ :=
  match R.pc with
  | .tryPool _ _ | .tryFreeList _ _ | .create _ _ | .rewind _ | .resetEmpty _ _ _
  | .storeValue _ _ _ => R.tailIndex / 32 + 1
  | _ => R.indexed

/-- The key of the entry at position `q` of header `h`. -/
def keyAt (h : ℕ) (q : ℕ) : Option ℕ := (R.entries ((R.header h).index q)).key

/-- The index of a sub-queue whose current header is `cur`; `shift` relates positions to block
numbers. -/
structure RingOk (shift : ℕ → ℕ) (cur : ℕ) : Prop where
  current : R.blockIndex = some cur
  capacity : ∀ h ≤ cur, ∃ k, 5 ≤ k ∧ k ≤ 58 ∧ (R.header h).capacity = 2 ^ k
  nextCapacity : R.nextBlockIndexCapacity = 2 * (R.header cur).capacity
  tail_lt : ∀ h ≤ cur, (R.header h).tail < (R.header h).capacity
  inj : ∀ q < (R.header cur).capacity, ∀ q' < (R.header cur).capacity,
    (R.header cur).index q = (R.header cur).index q' → q = q'
  made : ∀ q < (R.header cur).capacity, (R.header cur).index q < R.entryCount
  dvd : ∀ h ≤ cur, (R.header h).capacity ∣ (R.header cur).capacity
  embed : ∀ h ≤ cur, ∀ q < (R.header h).capacity, ∃ q' < (R.header cur).capacity,
    (R.header cur).index q' = (R.header h).index q ∧
      q' + shift cur ≡ q + shift h [MOD (R.header h).capacity]
  key : ∀ q < (R.header cur).capacity, ∀ k, R.keyAt cur q = some k →
    k % 32 = 0 ∧ k / 32 ≡ q + shift cur [MOD (R.header cur).capacity]
  tail : (R.header cur).tail + 1 + shift cur ≡ R.inserted [MOD (R.header cur).capacity]
  tailKey : ∀ h ≤ cur, h < cur ∨ 0 < R.inserted → R.keyAt h (R.header h).tail ≠ none
  lastKey : 0 < R.indexed → ∀ q < (R.header cur).capacity,
    q + 1 + shift cur ≡ R.indexed [MOD (R.header cur).capacity] → R.keyAt cur q ≠ none
  valued : ∀ q < (R.header cur).capacity, ∀ b,
    (R.entries ((R.header cur).index q)).value = some b →
    ∃ n < R.indexed, R.indexed ≤ n + (R.header cur).capacity ∧ R.keyAt cur q = some (32 * n)
  filled : ∀ n n' q q', n ≤ n' → n' < R.indexed → R.indexed ≤ n + (R.header cur).capacity →
    q < (R.header cur).capacity → q' < (R.header cur).capacity →
    q + shift cur ≡ n [MOD (R.header cur).capacity] →
    q' + shift cur ≡ n' [MOD (R.header cur).capacity] →
    R.keyAt cur q = some (32 * n) → R.keyAt cur q' = some (32 * n')

variable {R} {R' : ImplicitProducer α} {shift : ℕ → ℕ} {cur h : ℕ}

/-- The index the constructor makes. -/
theorem ringOk_make : (make true : ImplicitProducer α).RingOk (fun _ => 0) 0 := by
  have hnone : ∀ h q, (make true : ImplicitProducer α).keyAt h q = none := fun _ _ => rfl
  have hx : (make true : ImplicitProducer α).indexed = 0 := by simp [indexed, make]
  have hi : (make true : ImplicitProducer α).inserted = 0 := by simp [inserted, indexed, make]
  refine ⟨rfl, fun _ _ => ⟨5, by decide, by decide, rfl⟩, rfl, fun _ _ => Nat.lt_add_one 31,
    fun q _ q' _ h => h, fun q hq => hq, fun _ _ => dvd_rfl, fun _ _ q hq => ⟨q, hq, rfl, rfl⟩,
    fun q _ k hk => ?_, by rw [hi]; exact Nat.mod_self 32, fun h hle hpos => ?_, fun hpos => ?_, fun q _ b hb => ?_,
    fun n n' _ _ _ hn' => ?_⟩
  · rw [hnone] at hk
    cases hk
  · omega
  · omega
  · cases hb
  · omega

/-- The congruence holds in the older headers too. -/
theorem RingOk.key_old (H : R.RingOk shift cur) (hh : h ≤ cur) {q k : ℕ}
    (hq : q < (R.header h).capacity) (hk : R.keyAt h q = some k) :
    k % 32 = 0 ∧ k / 32 ≡ q + shift h [MOD (R.header h).capacity] := by
  obtain ⟨q', hq', hidx, hmod⟩ := H.embed h hh q hq
  have hk' : R.keyAt cur q' = some k := by rw [keyAt, hidx]; exact hk
  obtain ⟨hdvd, hkey⟩ := H.key q' hq' k hk'
  exact ⟨hdvd, (hkey.of_dvd (H.dvd h hh)).trans hmod⟩

/-- **The lookup.**  If header `h` has the entry of block `b` somewhere, then the position computed
from any key of the header is where that entry is. -/
theorem RingOk.lookup (H : R.RingOk shift cur) (hh : h ≤ cur) {b t k q : ℕ}
    (hk : k % 32 = 0) (hmod : k / 32 ≡ t + shift h [MOD (R.header h).capacity])
    (hq : q < (R.header h).capacity) (hb : R.keyAt h q = some (32 * b)) :
    indexPosition (R.header h).capacity t k (32 * b) = q := by
  obtain ⟨w, -, hw, hcap⟩ := H.capacity h hh
  obtain ⟨-, hbq⟩ := H.key_old hh hq hb
  rw [Nat.mul_div_cancel_left b (by decide)] at hbq
  rw [hcap] at hmod hbq hq ⊢
  obtain ⟨b₀, rfl⟩ : ∃ b₀, k = 32 * b₀ := ⟨k / 32, by omega⟩
  rw [Nat.mul_div_cancel_left b₀ (by decide)] at hmod
  refine indexPosition_eq (by omega) hq ?_
  refine Nat.ModEq.add_right_cancel' (shift h) ?_
  calc q + b₀ + shift h = q + shift h + b₀ := by ring
    _ ≡ b + (t + shift h) [MOD 2 ^ w] := hbq.symm.add hmod
    _ = t + b + shift h := by ring

/-- What the index looks like is all that matters. -/
theorem RingOk.congr (H : R.RingOk shift cur) (hb : R'.blockIndex = R.blockIndex)
    (hh : R'.header = R.header) (hn : R'.nextBlockIndexCapacity = R.nextBlockIndexCapacity)
    (he : R'.entryCount = R.entryCount) (hk : ∀ e, (R'.entries e).key = (R.entries e).key)
    (hv : ∀ e b, (R'.entries e).value = some b → (R.entries e).value = some b)
    (hi : R'.inserted = R.inserted) (hx : R'.indexed = R.indexed) : R'.RingOk shift cur := by
  have hkey : ∀ h q, R'.keyAt h q = R.keyAt h q := fun h q => by rw [keyAt, keyAt, hh, hk]
  constructor <;> simp only [hb, hh, hn, he, hi, hx, hkey]
  exacts [H.current, H.capacity, H.nextCapacity, H.tail_lt, H.inj, H.made, H.dvd, H.embed, H.key,
    H.tail, H.tailKey, H.lastKey, fun q hq b hb => H.valued q hq b (hv _ b hb), H.filled]

/-- There is one position for a block number. -/
theorem RingOk.position_unique {q q' n C : ℕ} (hq : q < C) (hq' : q' < C)
    (h : q + shift cur ≡ n [MOD C]) (h' : q' + shift cur ≡ n [MOD C]) : q = q' :=
  (Nat.ModEq.add_right_cancel' _ (h.trans h'.symm)).eq_of_lt_of_lt hq hq'

theorem RingOk.next_lt (H : R.RingOk shift cur) :
    ((R.header cur).tail + 1) % (R.header cur).capacity < (R.header cur).capacity :=
  Nat.mod_lt _ (Nat.zero_lt_of_lt (H.tail_lt cur le_rfl))

/-- The entry after the tail is at the position of the next block number. -/
theorem RingOk.next_modEq (H : R.RingOk shift cur) :
    ((R.header cur).tail + 1) % (R.header cur).capacity + shift cur ≡ R.inserted
      [MOD (R.header cur).capacity] :=
  ((Nat.mod_modEq _ _).add_right _).trans H.tail

/-- **The store of a key**, in the entry after the tail. -/
theorem RingOk.storeKey (H : R.RingOk shift cur) {x : α} {e t b : ℕ} (hpc : R.pc = .storeKey x e t)
    (hT : R.tailIndex = 32 * b) (he : e = R.nextEntry cur) (hv : (R.entries e).value = none) :
    ({ R.setKey e R.tailIndex with pc := .storeIndexTail x e t } : ImplicitProducer α).RingOk
      shift cur := by
  set R' : ImplicitProducer α := { R.setKey e R.tailIndex with pc := .storeIndexTail x e t }
  have hx : R.indexed = b := by rw [indexed, hpc]; dsimp only; omega
  have hi : R.inserted = b := by rw [inserted, hpc]; exact hx
  have hx' : R'.indexed = b := by show (R.tailIndex + 31) / 32 = b; omega
  have hpos : ∀ q < (R.header cur).capacity, (R.header cur).index q = e →
      q + shift cur ≡ b [MOD (R.header cur).capacity] := by
    intro q hq hqe
    rw [H.inj q hq _ H.next_lt (hqe.trans he), ← hi]
    exact H.next_modEq
  have hkey : ∀ h q, R'.keyAt h q = if (R.header h).index q = e then some (32 * b)
      else R.keyAt h q := by
    intro h q
    show (update R.entries e _ ((R.header h).index q)).key = _
    rw [← hT]
    split
    · rename_i hq
      rw [hq, Function.update_self]
    · rename_i hq
      rw [Function.update_of_ne hq]
      rfl
  have hvalue : ∀ e', (R'.entries e').value = (R.entries e').value := by
    intro e'
    show (update R.entries e _ e').value = _
    by_cases h : e' = e
    · rw [h, Function.update_self]
    · rw [Function.update_of_ne h]
  have hsome : ∀ h q, R.keyAt h q ≠ none → R'.keyAt h q ≠ none := by
    intro h q hq
    rw [hkey]
    split
    · simp
    · exact hq
  refine ⟨H.current, H.capacity, H.nextCapacity, H.tail_lt, H.inj, H.made, H.dvd, H.embed, ?_, ?_,
    ?_, ?_, ?_, ?_⟩
  case refine_1 =>
    intro q hq k hk
    rw [hkey] at hk
    split at hk
    · rename_i hqe
      cases hk
      refine ⟨Nat.mul_mod_right 32 b, ?_⟩
      rw [Nat.mul_div_cancel_left b (by decide)]
      exact (hpos q hq hqe).symm
    · exact H.key q hq k hk
  case refine_2 =>
    show _ ≡ R'.indexed [MOD _]
    rw [hx', ← hi]
    exact H.tail
  case refine_3 =>
    intro h hle hpos
    refine hsome h _ (H.tailKey h hle ?_)
    rwa [hi, ← hx']
  case refine_4 =>
    intro hpos q hq hmod
    rw [hx', ← hx] at hpos hmod
    exact hsome cur q (H.lastKey hpos q hq hmod)
  case refine_5 =>
    intro q hq v hval
    rw [hvalue] at hval
    obtain ⟨n, hn, hle, hk⟩ := H.valued q hq v hval
    rw [hx', ← hx]
    refine ⟨n, hn, hle, ?_⟩
    rw [hkey, if_neg, hk]
    intro hqe
    replace hval : (R.entries ((R.header cur).index q)).value = some v := hval
    rw [hqe, hv] at hval
    cases hval
  case refine_6 =>
    intro n n' q q' hnn hn' hle hq hq' hmod hmod' hk
    rw [hx'] at hn' hle
    replace hle : b ≤ n + (R.header cur).capacity := hle
    rw [hkey] at hk ⊢
    split at hk
    · have : 32 * b = 32 * n := Option.some.inj hk
      omega
    · rename_i hne
      rw [if_neg, H.filled n n' q q' hnn (by omega) (by omega) hq hq' hmod hmod' hk]
      -- position `q'` is for `n'`, that of `e` for `b`, and `n'` is within a round of `b`
      intro hqe
      have hC : n' = n ∧ n + (R.header cur).capacity = b := by
        have hb : b ≡ n' [MOD (R.header cur).capacity] := (hpos q' hq' hqe).symm.trans hmod'
        have hdvd := (Nat.modEq_iff_dvd' (by omega)).1 hb.symm
        have hpos := Nat.le_of_dvd (by omega) hdvd
        omega
      have hqq : q = q' := RingOk.position_unique hq hq' hmod (hC.1 ▸ hmod')
      exact hne (hqq ▸ hqe)

/-- The tail of the current header moves. -/
theorem RingOk.setTail (H : R.RingOk shift cur) {t : ℕ} {pc : EnqueuePc α}
    (hR' : R' = { R.setIndexTail cur t with pc := pc }) (ht : t < (R.header cur).capacity)
    (hx : R'.indexed = R.indexed)
    (hmod : t + 1 + shift cur ≡ R'.inserted [MOD (R.header cur).capacity])
    (hkey : 0 < R'.inserted → R.keyAt cur t ≠ none) : R'.RingOk shift cur := by
  have hhead : ∀ h, R'.header h =
      { R.header h with tail := if h = cur then t else (R.header h).tail } := by
    intro h
    rw [hR']
    show update R.header cur _ h = _
    by_cases hc : h = cur
    · rw [hc, Function.update_self, if_pos rfl]
    · rw [Function.update_of_ne hc, if_neg hc]
  have hentries : R'.entries = R.entries := by rw [hR']; rfl
  have hat : ∀ h q, R'.keyAt h q = R.keyAt h q := by
    intro h q
    rw [keyAt, keyAt, hentries, hhead]
  have hb : R'.blockIndex = R.blockIndex := by rw [hR']; rfl
  have hn : R'.nextBlockIndexCapacity = R.nextBlockIndexCapacity := by rw [hR']; rfl
  have hc : R'.entryCount = R.entryCount := by rw [hR']; rfl
  constructor <;> simp only [hb, hn, hc, hx, hat, hhead, hentries]
  case current => exact H.current
  case capacity => exact H.capacity
  case nextCapacity => exact H.nextCapacity
  case tail_lt =>
    intro h hle
    split
    · subst h; exact ht
    · exact H.tail_lt h hle
  case inj => exact H.inj
  case made => exact H.made
  case dvd => exact H.dvd
  case embed => exact H.embed
  case key => exact H.key
  case tail => rw [if_pos trivial]; exact hmod
  case tailKey =>
    intro h hle hpos
    split
    · subst h
      exact hkey (by omega)
    · exact H.tailKey h hle (.inl (by omega))
  case lastKey => exact H.lastKey
  case valued => exact H.valued
  case filled => exact H.filled

/-- **The tail of the index moves on** to the entry that has got its key. -/
theorem RingOk.storeIndexTail (H : R.RingOk shift cur) {x : α} {e t : ℕ}
    (hpc : R.pc = .storeIndexTail x e t) (hT : R.tailIndex % 32 = 0)
    (ht : t = ((R.header cur).tail + 1) % (R.header cur).capacity)
    (hk : R.keyAt cur t ≠ none) :
    ({ R.setIndexTail cur t with pc := .tryPool x e } : ImplicitProducer α).RingOk shift cur := by
  have hi : R.inserted = (R.tailIndex + 31) / 32 := by rw [inserted, hpc]; dsimp only; rw [indexed, hpc]
  refine H.setTail rfl (ht ▸ H.next_lt) (by rw [indexed, indexed, hpc]; rfl) ?_ fun _ => hk
  show _ ≡ R.tailIndex / 32 + 1 [MOD _]
  have hmod := H.next_modEq
  rw [← ht, hi, show (R.tailIndex + 31) / 32 = R.tailIndex / 32 by omega] at hmod
  calc t + 1 + shift cur = t + shift cur + 1 := by ring
    _ ≡ R.tailIndex / 32 + 1 [MOD _] := hmod.add_right 1

/-- **`rewind_block_index_tail`**: the tail goes back to the last block that is indexed. -/
theorem RingOk.rewind (H : R.RingOk shift cur) {e : ℕ} (hpc : R.pc = .rewind e)
    (hT : R.tailIndex % 32 = 0) :
    ({ R.setIndexTail cur (((R.header cur).tail + (R.header cur).capacity - 1) %
        (R.header cur).capacity) with pc := .clearValue e } : ImplicitProducer α).RingOk
      shift cur := by
  have hlt := H.tail_lt cur le_rfl
  set C := (R.header cur).capacity
  set t := ((R.header cur).tail + C - 1) % C
  have ht : t < C := Nat.mod_lt _ (by omega)
  have hx : R.indexed = R.tailIndex / 32 := by rw [indexed, hpc]; dsimp only; omega
  have hi : R.inserted = R.tailIndex / 32 + 1 := by rw [inserted, hpc]
  have hmod : t + 1 + shift cur ≡ R.indexed [MOD C] := by
    refine Nat.ModEq.add_right_cancel' 1 ?_
    calc t + 1 + shift cur + 1 = t + (shift cur + 1 + 1) := by ring
      _ ≡ (R.header cur).tail + C - 1 + (shift cur + 1 + 1) [MOD C] := (Nat.mod_modEq _ _).add_right _
      _ = (R.header cur).tail + 1 + shift cur + C := by omega
      _ ≡ (R.header cur).tail + 1 + shift cur [MOD C] := Nat.add_modEq_right
      _ ≡ R.inserted [MOD C] := H.tail
      _ = R.indexed + 1 := by rw [hi, hx]
  have hinserted : ({ R.setIndexTail cur t with pc := .clearValue e } : ImplicitProducer α).inserted =
      R.indexed := by
    show (R.tailIndex + 31) / 32 = _
    omega
  refine H.setTail rfl ht ?_ ?_ ?_
  · show (R.tailIndex + 31) / 32 = _
    omega
  · rw [hinserted]
    exact hmod
  · intro hpos
    rw [hinserted] at hpos
    exact H.lastKey hpos t ht hmod

/-- **The store of a value**: one more block is indexed. -/
theorem RingOk.storeValue (H : R.RingOk shift cur) {x : α} {e b n : ℕ}
    (hpc : R.pc = .storeValue x e b) (hT : R.tailIndex = 32 * n)
    (he : e = (R.header cur).index (R.header cur).tail)
    (hE : R.entries e = ⟨some (32 * n), none⟩) :
    ({ R.setValue e (some b) with tailBlock := some b, pc := .construct x } :
      ImplicitProducer α).RingOk shift cur := by
  set R' : ImplicitProducer α := { R.setValue e (some b) with tailBlock := some b, pc := .construct x }
  have hlt := H.tail_lt cur le_rfl
  have hx : R.indexed = n := by rw [indexed, hpc]; dsimp only; omega
  have hi : R.inserted = n + 1 := by rw [inserted, hpc]; dsimp only; omega
  have hx' : R'.indexed = n + 1 := by show R.tailIndex / 32 + 1 = n + 1; omega
  have hentry : ∀ e', R'.entries e' = if e' = e then ⟨some (32 * n), some b⟩ else R.entries e' := by
    intro e'
    show update R.entries e { R.entries e with value := some b } e' = _
    by_cases h : e' = e
    · rw [h, Function.update_self, if_pos rfl, hE]
    · rw [Function.update_of_ne h, if_neg h]
  have hat : ∀ h q, R'.keyAt h q = R.keyAt h q := by
    intro h q
    show (R'.entries ((R.header h).index q)).key = (R.entries ((R.header h).index q)).key
    rw [hentry]
    split
    · rename_i hq
      rw [hq, hE]
    · rfl
  have htail : (R.header cur).tail + shift cur ≡ n [MOD (R.header cur).capacity] := by
    refine Nat.ModEq.add_right_cancel' 1 ?_
    rw [← hi, Nat.add_right_comm]
    exact H.tail
  have hkeyTail : R.keyAt cur (R.header cur).tail = some (32 * n) := by rw [keyAt, ← he, hE]
  refine ⟨H.current, H.capacity, H.nextCapacity, H.tail_lt, H.inj, H.made, H.dvd, H.embed, ?_, ?_,
    ?_, ?_, ?_, ?_⟩
  case refine_1 =>
    intro q hq k hk
    rw [hat] at hk
    exact H.key q hq k hk
  case refine_2 =>
    show _ ≡ R'.indexed [MOD _]
    rw [hx', ← hi]
    exact H.tail
  case refine_3 =>
    intro h hle hpos
    rw [hat]
    exact H.tailKey h hle (.inr (by omega))
  case refine_4 =>
    intro _ q hq hmod
    rw [hx', ← hi] at hmod
    have hqt : q = (R.header cur).tail := by
      refine RingOk.position_unique hq hlt ?_ htail
      refine Nat.ModEq.add_right_cancel' 1 ?_
      rw [← hi, Nat.add_right_comm]
      exact hmod
    rw [hat, hqt, hkeyTail]
    simp
  case refine_5 =>
    intro q hq v hval
    rw [hat, hx']
    replace hq : q < (R.header cur).capacity := hq
    replace hval : (R'.entries ((R.header cur).index q)).value = some v := hval
    rw [hentry] at hval
    show ∃ m < n + 1, n + 1 ≤ m + (R.header cur).capacity ∧ _
    split at hval
    · rename_i hqe
      refine ⟨n, by omega, by omega, ?_⟩
      rw [H.inj q hq _ hlt (hqe.trans he), hkeyTail]
    · rename_i hqe
      obtain ⟨m, hm, hle, hk⟩ := H.valued q hq v hval
      refine ⟨m, by omega, ?_, hk⟩
      -- a value a full round back would be at the tail
      by_contra hfull
      have hmn : m + (R.header cur).capacity = n := by omega
      have hqm := (H.key q hq _ hk).2
      rw [Nat.mul_div_cancel_left m (by decide)] at hqm
      have hqt : q = (R.header cur).tail := by
        refine RingOk.position_unique hq hlt ?_ htail
        calc q + shift cur ≡ m [MOD _] := hqm.symm
          _ ≡ m + (R.header cur).capacity [MOD _] := Nat.add_modEq_right.symm
          _ = n := hmn
      exact hqe (by rw [hqt, he])
  case refine_6 =>
    intro m m' q q' hmm hm' hle hq hq' hmod hmod' hk
    rw [hx'] at hm' hle
    replace hle : n + 1 ≤ m + (R.header cur).capacity := hle
    rw [hat] at hk ⊢
    by_cases hmn : m' = n
    · rw [RingOk.position_unique hq' hlt (hmn ▸ hmod') htail, hkeyTail, hmn]
    · exact H.filled m m' q q' hmm (by omega) (by omega) hq hq' hmod hmod' hk

/-- When the entry after the tail is still in use, every entry of the circle is: from the tail
backwards they belong to the last blocks. -/
theorem RingOk.key_full (H : R.RingOk shift cur) (hx : R.inserted = R.indexed)
    (hC : (R.header cur).capacity ≤ R.indexed)
    (hk : (R.entries (R.nextEntry cur)).key =
      some (32 * (R.indexed - (R.header cur).capacity))) {q : ℕ} (hq : q < (R.header cur).capacity) :
    R.keyAt cur (((R.header cur).tail + 1 + q) % (R.header cur).capacity) =
      some (32 * (R.indexed - (R.header cur).capacity + q)) := by
  have hlt : ∀ n, n % (R.header cur).capacity < (R.header cur).capacity :=
    fun n => Nat.mod_lt n (by omega)
  have hmod : ∀ j, ((R.header cur).tail + 1 + j) % (R.header cur).capacity + shift cur ≡
      R.indexed - (R.header cur).capacity + j [MOD (R.header cur).capacity] := by
    intro j
    calc ((R.header cur).tail + 1 + j) % (R.header cur).capacity + shift cur
        ≡ (R.header cur).tail + 1 + j + shift cur [MOD _] := (Nat.mod_modEq _ _).add_right _
      _ = (R.header cur).tail + 1 + shift cur + j := by ring
      _ ≡ R.indexed + j [MOD (R.header cur).capacity] := by rw [← hx]; exact H.tail.add_right j
      _ = R.indexed - (R.header cur).capacity + j + (R.header cur).capacity := by omega
      _ ≡ R.indexed - (R.header cur).capacity + j [MOD (R.header cur).capacity] :=
        Nat.add_modEq_right
  exact H.filled _ _ _ _ (by omega) (by omega) (by omega) (hlt _) (hlt _)
    (by simpa using hmod 0) (hmod q) hk

/-- **`new_block_index`**: the entries keep their order, and the new ones follow the tail. -/
theorem RingOk.newIndex (H : R.RingOk shift cur) {x : α} {e t : ℕ} (hpc : R.pc = .newIndex x)
    (hC : (R.header cur).capacity ≤ R.indexed)
    (hk : (R.entries (R.nextEntry cur)).key = some (32 * (R.indexed - (R.header cur).capacity)))
    (hbytes : indexBytes (R.header cur).capacity R.nextBlockIndexCapacity < 2 ^ 63) :
    ({ R.newBlockIndex cur with pc := .storeKey x e t } : ImplicitProducer α).RingOk
      (update shift (cur + 1) (R.indexed + (R.header cur).capacity)) (cur + 1) := by
  set R' : ImplicitProducer α := { R.newBlockIndex cur with pc := .storeKey x e t }
  set shift' := update shift (cur + 1) (R.indexed + (R.header cur).capacity)
  set C := (R.header cur).capacity with hCdef
  set N := R.indexed with hN
  have hlt : (R.header cur).tail < C := H.tail_lt cur le_rfl
  have hN' : R'.indexed = N := by
    show (R.tailIndex + 31) / 32 = _
    rw [hN, indexed, hpc]
  have hi : R.inserted = N := by rw [inserted, hpc]
  have hnew : R'.header (cur + 1) = R.grownHeader (R.header cur) := Function.update_self ..
  have hold : ∀ h ≤ cur, R'.header h = R.header h := fun h hle => Function.update_of_ne (by omega) ..
  have hshift : shift' (cur + 1) = N + C := Function.update_self ..
  have hshiftOld : ∀ h ≤ cur, shift' h = shift h := fun h hle => Function.update_of_ne (by omega) ..
  have hcap : (R'.header (cur + 1)).capacity = 2 * C := by rw [hnew]; exact H.nextCapacity
  have hidx : ∀ q < C, (R'.header (cur + 1)).index q =
      (R.header cur).index (((R.header cur).tail + 1 + q) % C) := by
    intro q hq
    rw [hnew]
    exact if_pos hq
  have hidxNew : ∀ q, C ≤ q → (R'.header (cur + 1)).index q = R.entryCount + (q - C) := by
    intro q hq
    rw [hnew]
    exact if_neg (by show ¬q < C; omega)
  have hmade : ∀ h ≤ cur, ∀ q < (R.header h).capacity, (R.header h).index q < R.entryCount := by
    intro h hle q hq
    obtain ⟨q', hq', he, -⟩ := H.embed h hle q hq
    rw [← he]
    exact H.made q' hq'
  have hentry : ∀ e < R.entryCount, R'.entries e = R.entries e :=
    fun e he => if_neg (by omega)
  have hentryNew : ∀ q, C ≤ q → q < 2 * C → R'.entries ((R'.header (cur + 1)).index q) = {} := by
    intro q hq hq'
    rw [hidxNew q hq]
    exact if_pos ⟨by omega, by omega⟩
  have hmodlt : ∀ n, n % C < C := fun n => Nat.mod_lt n (by omega)
  have hatOld : ∀ h ≤ cur, ∀ q < (R.header h).capacity, R'.keyAt h q = R.keyAt h q := by
    intro h hle q hq
    rw [keyAt, keyAt, hold h hle, hentry _ (hmade h hle q hq)]
  have hat : ∀ q < C, R'.keyAt (cur + 1) q = some (32 * (N - C + q)) := by
    intro q hq
    rw [keyAt, hidx q hq, hentry _ (H.made _ (hmodlt _))]
    exact H.key_full hi hC hk hq
  have hatNew : ∀ q, C ≤ q → q < 2 * C → R'.keyAt (cur + 1) q = none := by
    intro q hq hq'
    rw [keyAt, hentryNew q hq hq']
  constructor
  case current => rfl
  case capacity =>
    intro h hle
    rcases Nat.lt_or_ge cur h with hgt | hle'
    · obtain ⟨k, hk5, hk58, hCk⟩ := H.capacity cur le_rfl
      obtain rfl : h = cur + 1 := by omega
      refine ⟨k + 1, by omega, ?_, ?_⟩
      · rw [indexBytes, H.nextCapacity, ← hCdef, hCdef, hCk] at hbytes
        have : 2 ^ k < 2 ^ 58 := by omega
        have := (Nat.pow_lt_pow_iff_right (by decide)).1 this
        omega
      · rw [hcap, hCdef, hCk, Nat.pow_succ, Nat.mul_comm]
    · rw [hold h hle']
      exact H.capacity h hle'
  case nextCapacity =>
    show 2 * R.nextBlockIndexCapacity = 2 * _
    rw [hcap, H.nextCapacity]
  case tail_lt =>
    intro h hle
    rcases Nat.lt_or_ge cur h with hgt | hle'
    · obtain rfl : h = cur + 1 := by omega
      rw [hcap, hnew]
      show C - 1 < 2 * C
      omega
    · rw [hold h hle']
      exact H.tail_lt h hle'
  case inj =>
    intro q hq q' hq' heq
    rw [hcap] at hq hq'
    rcases Nat.lt_or_ge q C with h | h <;> rcases Nat.lt_or_ge q' C with h' | h'
    · rw [hidx q h, hidx q' h'] at heq
      have hmod : (R.header cur).tail + 1 + q ≡ (R.header cur).tail + 1 + q' [MOD C] :=
        H.inj _ (hmodlt _) _ (hmodlt _) heq
      exact (Nat.ModEq.add_left_cancel' _ hmod).eq_of_lt_of_lt h h'
    · rw [hidx q h, hidxNew q' h'] at heq
      have := H.made _ (hmodlt ((R.header cur).tail + 1 + q))
      omega
    · rw [hidxNew q h, hidx q' h'] at heq
      have := H.made _ (hmodlt ((R.header cur).tail + 1 + q'))
      omega
    · rw [hidxNew q h, hidxNew q' h'] at heq
      omega
  case made =>
    intro q hq
    rw [hcap] at hq
    show _ < R.entryCount + C
    rcases Nat.lt_or_ge q C with h | h
    · rw [hidx q h]
      have := H.made _ (hmodlt ((R.header cur).tail + 1 + q))
      omega
    · rw [hidxNew q h]
      omega
  case dvd =>
    intro h hle
    rw [hcap]
    rcases Nat.lt_or_ge cur h with hgt | hle'
    · obtain rfl : h = cur + 1 := by omega
      rw [hcap]
    · rw [hold h hle']
      exact (H.dvd h hle').trans (Nat.dvd_mul_left C 2)
  case embed =>
    intro h hle q hq
    rcases Nat.lt_or_ge cur h with hgt | hle'
    · obtain rfl : h = cur + 1 := by omega
      exact ⟨q, hq, rfl, rfl⟩
    · rw [hold h hle'] at hq ⊢
      obtain ⟨q₁, hq₁, he, hmod⟩ := H.embed h hle' q hq
      -- where the copy loop puts the entry
      have hpos : ((R.header cur).tail + 1 + (q₁ + C - 1 - (R.header cur).tail) % C) % C = q₁ := by
        rw [Nat.add_mod_mod, show (R.header cur).tail + 1 + (q₁ + C - 1 - (R.header cur).tail) =
          q₁ + C by omega, Nat.add_mod_right, Nat.mod_eq_of_lt hq₁]
      refine ⟨(q₁ + C - 1 - (R.header cur).tail) % C, ?_, ?_, ?_⟩
      · rw [hcap]
        have := hmodlt (q₁ + C - 1 - (R.header cur).tail)
        omega
      · rw [hidx _ (hmodlt _), hpos, he]
      · rw [hshift, hshiftOld h hle']
        refine Nat.ModEq.trans (Nat.ModEq.of_dvd (H.dvd h hle') ?_) hmod
        calc (q₁ + C - 1 - (R.header cur).tail) % C + (N + C)
            ≡ q₁ + C - 1 - (R.header cur).tail + (N + C) [MOD C] := (Nat.mod_modEq _ _).add_right _
          _ ≡ q₁ + C - 1 - (R.header cur).tail + ((R.header cur).tail + 1 + shift cur + C) [MOD C] :=
            ((hi ▸ H.tail.symm).add_right C).add_left _
          _ = q₁ + shift cur + C + C := by omega
          _ ≡ q₁ + shift cur + C [MOD C] := Nat.add_modEq_right
          _ ≡ q₁ + shift cur [MOD C] := Nat.add_modEq_right
  case key =>
    intro q hq k hkey
    rw [hcap] at hq ⊢
    rcases Nat.lt_or_ge q C with h | h
    · rw [hat q h] at hkey
      obtain rfl : 32 * (N - C + q) = k := Option.some.inj hkey
      refine ⟨Nat.mul_mod_right _ _, ?_⟩
      rw [Nat.mul_div_cancel_left _ (by decide), hshift,
        show q + (N + C) = N - C + q + 2 * C by omega]
      exact Nat.add_modEq_right.symm
    · rw [hatNew q h hq] at hkey
      cases hkey
  case tail =>
    show _ ≡ R'.indexed [MOD _]
    rw [hcap, hshift, hN', hnew]
    show C - 1 + 1 + (N + C) ≡ N [MOD 2 * C]
    rw [show C - 1 + 1 + (N + C) = N + 2 * C by omega]
    exact Nat.add_modEq_right
  case tailKey =>
    intro h hle _
    rcases Nat.lt_or_ge cur h with hgt | hle'
    · obtain rfl : h = cur + 1 := by omega
      rw [hnew]
      show R'.keyAt (cur + 1) (C - 1) ≠ none
      rw [hat _ (by omega)]
      simp
    · rw [hold h hle', hatOld h hle' _ (H.tail_lt h hle')]
      exact H.tailKey h hle' (.inr (by omega))
  case lastKey =>
    intro _ q hq hmod
    rw [hcap] at hq
    rw [hcap, hshift, hN'] at hmod
    obtain rfl : q = C - 1 := by
      have hmod' : q + (1 + C + N) ≡ C - 1 + (1 + C + N) [MOD 2 * C] := by
        calc q + (1 + C + N) = q + 1 + (N + C) := by ring
          _ ≡ N [MOD 2 * C] := hmod
          _ ≡ N + 2 * C [MOD 2 * C] := Nat.add_modEq_right.symm
          _ = C - 1 + (1 + C + N) := by omega
      exact (Nat.ModEq.add_right_cancel' _ hmod').eq_of_lt_of_lt hq (by omega)
    rw [hat _ (by omega)]
    simp
  case valued =>
    intro q hq b hb
    rw [hcap] at hq ⊢
    rw [hN']
    rcases Nat.lt_or_ge q C with h | h
    · exact ⟨N - C + q, by omega, by omega, hat q h⟩
    · rw [hentryNew q h hq] at hb
      cases hb
  case filled =>
    intro n n' q q' hnn hn' hle hq hq' hmod hmod' hkey
    rw [hcap] at hle hq hq' hmod hmod'
    rw [hN'] at hn' hle
    rw [hshift] at hmod'
    rcases Nat.lt_or_ge q C with h | h
    · rw [hat q h] at hkey
      have hnq : N - C + q = n := by have := Option.some.inj hkey; omega
      have hpos : q' = n' - (N - C) := by
        have hmod'' : q' + (N + C) ≡ n' - (N - C) + (N + C) [MOD 2 * C] := by
          calc q' + (N + C) ≡ n' [MOD 2 * C] := hmod'
            _ ≡ n' + 2 * C [MOD 2 * C] := Nat.add_modEq_right.symm
            _ = n' - (N - C) + (N + C) := by omega
        exact (Nat.ModEq.add_right_cancel' _ hmod'').eq_of_lt_of_lt hq' (by omega)
      rw [hpos, hat _ (by omega)]
      congr 2
      omega
    · rw [hatNew q h hq] at hkey
      cases hkey

/-- After `j` entries the loop of `new_block_index` has the others before it. -/
theorem copyEntries_eq {capacity tail : ℕ} (htail : tail < capacity) {fuel j : ℕ} (hj : j < capacity)
    (hfuel : capacity - j ≤ fuel) :
    copyEntries capacity tail fuel ((tail + j) % capacity) = capacity - j := by
  induction fuel generalizing j with
  | zero => omega
  | succ fuel ih =>
    have hpos : ((tail + j) % capacity + 1) % capacity = (tail + (j + 1)) % capacity := by
      rw [Nat.mod_add_mod, Nat.add_assoc]
    rw [copyEntries, hpos]
    rcases Nat.lt_or_ge (j + 1) capacity with hlt | hge
    · -- the tail is reached after a whole round only
      have hne : (tail + (j + 1)) % capacity ≠ tail := by
        intro he
        have hmod : tail + (j + 1) ≡ tail + 0 [MOD capacity] :=
          he.trans (Nat.mod_eq_of_lt htail).symm
        have hzero := Nat.ModEq.add_left_cancel' tail hmod
        exact Nat.succ_ne_zero j (hzero.eq_of_lt_of_lt hlt (by omega))
      rw [if_neg hne, ih hlt (by omega)]
      omega
    · obtain rfl : j + 1 = capacity := by omega
      rw [Nat.add_mod_right, Nat.mod_eq_of_lt htail, if_pos rfl]
      omega

/-- `new_block_index` copies every entry. -/
theorem RingOk.copied (H : R.RingOk shift cur) :
    (R.header cur).copied = (R.header cur).capacity := by
  have htail := H.tail_lt cur le_rfl
  have hall := copyEntries_eq htail (j := 0) (by omega) (Nat.le_succ_of_le (Nat.sub_le _ 0))
  rwa [Nat.add_zero, Nat.mod_eq_of_lt htail, Nat.sub_zero] at hall

/-- The entry that `new_block_index` puts after the tail was never used. -/
theorem RingOk.nextEntry_newIndex (H : R.RingOk shift cur) :
    ((R.newBlockIndex cur).entries ((R.newBlockIndex cur).nextEntry (cur + 1))) = {} := by
  have hlt := H.tail_lt cur le_rfl
  have hnew : (R.newBlockIndex cur).header (cur + 1) = R.grownHeader (R.header cur) :=
    Function.update_self ..
  have hpos : ((R.header cur).capacity - 1 + 1) % R.nextBlockIndexCapacity =
      (R.header cur).capacity := by
    rw [H.nextCapacity, Nat.mod_eq_of_lt] <;> omega
  rw [nextEntry, hnew]
  show (if _ then _ else _ : BlockIndexEntry) = _
  rw [if_pos]
  show _ ≤ (if _ then _ else _) ∧ (if _ then _ else _) < _
  rw [show (R.grownHeader (R.header cur)).tail = (R.header cur).capacity - 1 from rfl,
    show (R.grownHeader (R.header cur)).capacity = R.nextBlockIndexCapacity from rfl, hpos,
    if_neg (lt_irrefl _)]
  omega

end ImplicitProducer

end DataProxy.ConcurrentQueue
