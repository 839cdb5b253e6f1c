import PyCtp.CircularPositions
import PyCtp.ProducerQueue

/-!
# The block index of one producer

`ImplicitProducer` finds the block of an element through a circular index: arrays of pointers to
entries, each array twice as long as the one before and pointing to the same entries first. The
producer stores keys and moves the tail of the last array; a consumer that reads the pointer to an
array, its tail, and the key there at three different times still computes the right position.
-/
namespace PyCtp
open CircularPositions

namespace BlockIndex
open ProducerQueue (blockSize)

/-- `key` is `none` for `INVALID_BLOCK_BASE`; blocks are named by numbers. -/
structure BlockIndexEntry where
  key : Option ℕ
  value : Option ℕ

/-- `index` holds the addresses of entries. -/
structure BlockIndexHeader where
  capacity : ℕ
  tail : ℕ
  index : ℕ → ℕ

/-- The headers and entries by their addresses, of which the first ones are in use. -/
structure State where
  blockIndex : Option ℕ
  header : ℕ → BlockIndexHeader
  entry : ℕ → BlockIndexEntry
  entryCount : ℕ
  nextBlockIndexCapacity : ℕ

/-- `IMPLICIT_INITIAL_INDEX_SIZE`. -/
def initialIndexSize : ℕ := 32

/-- The loop of `new_block_index` over the old array, from the entry after its tail: how far it
got in the new array, and the new array. -/
def copyEntries (prev : BlockIndexHeader) : ℕ → ℕ → ℕ → (ℕ → ℕ) → ℕ × (ℕ → ℕ)
  | 0, _, i, index => (i, index)
  | rounds + 1, prevPos, i, index =>
    let prevPos := (prevPos + 1) % prev.capacity
    let index := Function.update index i (prev.index prevPos)
    if prevPos = prev.tail then (i + 1, index) else copyEntries prev rounds prevPos (i + 1) index

namespace State

/-- Before the constructor calls `new_block_index`; the memory holds anything. -/
def empty (header : ℕ → BlockIndexHeader) (entry : ℕ → BlockIndexEntry) : State :=
  ⟨none, header, entry, 0, initialIndexSize⟩

/-- `new_block_index` where the allocation succeeds. -/
def newBlockIndex (s : State) : State :=
  let prevCapacity := match s.blockIndex with
    | none => 0
    | some prev => (s.header prev).capacity
  let entryCount := match s.blockIndex with
    | none => s.nextBlockIndexCapacity
    | some _ => prevCapacity
  let copied := match s.blockIndex with
    | none => fun _ => 0
    | some prev =>
      (copyEntries (s.header prev) prevCapacity (s.header prev).tail 0 fun _ => 0).2
  let address := match s.blockIndex with
    | none => 0
    | some prev => prev + 1
  { blockIndex := some address
    header := Function.update s.header address
      { capacity := s.nextBlockIndexCapacity
        tail := (prevCapacity + s.nextBlockIndexCapacity - 1) % s.nextBlockIndexCapacity
        index := fun i =>
          if i < prevCapacity then copied i else s.entryCount + (i - prevCapacity) }
    entry := fun e =>
      if s.entryCount ≤ e ∧ e < s.entryCount + entryCount then { s.entry e with key := none }
      else s.entry e
    entryCount := s.entryCount + entryCount
    nextBlockIndexCapacity := 2 * s.nextBlockIndexCapacity }

def newTail (s : State) (h : ℕ) : ℕ := ((s.header h).tail + 1) % (s.header h).capacity

/-- The entry that `insert_block_index_entry` looks at. -/
def idxEntry (s : State) (h : ℕ) : ℕ := (s.header h).index (s.newTail h)

def storeKey (s : State) (e blockStartIndex : ℕ) : State :=
  { s with entry := Function.update s.entry e { s.entry e with key := some blockStartIndex } }

def storeValue (s : State) (e : ℕ) (value : Option ℕ) : State :=
  { s with entry := Function.update s.entry e { s.entry e with value := value } }

def storeTail (s : State) (h tail : ℕ) : State :=
  { s with header := Function.update s.header h { s.header h with tail := tail } }

/-- `rewind_block_index_tail`. -/
def rewindTail (s : State) (h : ℕ) : State :=
  s.storeTail h (((s.header h).tail + (s.header h).capacity - 1) % (s.header h).capacity)

end State

/-- The position that `get_block_index_index_for_index` computes from the tail and the key there:
the difference of the keys is taken modulo the width of `index_t` and divided as it is. -/
def lookup (width : ℕ) (hd : BlockIndexHeader) (index tail tailBase : ℕ) : ℕ :=
  let difference : ℤ := (index / blockSize * blockSize : ℕ) - tailBase
  let offset := (difference % 2 ^ width).toNat / blockSize
  (tail + offset) % hd.capacity

theorem unsigned_quotient {width capacity : ℕ} (hdvd : blockSize * capacity ∣ 2 ^ width) (k : ℤ) :
    (((blockSize * k) % 2 ^ width).toNat / blockSize : ℕ) ≡ k [ZMOD capacity] := by
  obtain ⟨turns, hturns⟩ := hdvd
  have hpow : (2 : ℤ) ^ width = blockSize * (capacity * turns : ℕ) := by
    rw [← Nat.cast_mul, ← Nat.mul_assoc, ← hturns, Nat.cast_pow, Nat.cast_ofNat]
  have hpos : 0 < capacity * turns := by
    apply Nat.pos_of_ne_zero
    intro hzero
    rw [Nat.mul_assoc, hzero, Nat.mul_zero] at hturns
    exact absurd hturns (Nat.two_pow_pos width).ne'
  have hnonneg : 0 ≤ k % (capacity * turns : ℕ) := Int.emod_nonneg _ (by exact_mod_cast hpos.ne')
  rw [hpow, Int.mul_emod_mul_of_pos _ _ (by decide)]
  obtain ⟨n, hn⟩ := Int.eq_ofNat_of_zero_le hnonneg
  rw [hn, ← Nat.cast_mul, Int.toNat_natCast, Nat.mul_div_cancel_left _ (by decide), ← hn,
    Nat.cast_mul]
  exact (Int.mod_modEq _ _).of_mul_right _

theorem signed_quotient {width capacity : ℕ} (hdvd : blockSize * capacity ∣ 2 ^ width) (k : ℤ) :
    (Int.bmod (blockSize * k) (2 ^ width)).tdiv blockSize ≡ k [ZMOD capacity] := by
  obtain ⟨turns, hturns⟩ := hdvd
  have hdiff : Int.bmod (blockSize * k) (2 ^ width) =
      blockSize * (k - capacity * (turns * Int.bdiv (blockSize * k) (2 ^ width))) := by
    have hbmod := Int.bmod_add_bdiv (blockSize * k) (2 ^ width)
    rw [hturns] at hbmod ⊢
    push_cast at hbmod ⊢
    linarith
  rw [hdiff, Int.mul_tdiv_cancel_left _ (by decide)]
  exact Int.modEq_iff_dvd.mpr ⟨_, sub_sub_cancel _ _⟩

theorem difference_eq (n m : ℕ) : ((n * blockSize : ℕ) : ℤ) - (blockSize * m : ℕ) =
    blockSize * ((n : ℤ) - m) := by
  push_cast
  ring

/-- A negative offset is not preserved, but it would lead to the same position. -/
theorem lookup_eq_signed {width : ℕ} {hd : BlockIndexHeader} {index tail m : ℕ}
    (hdvd : blockSize * hd.capacity ∣ 2 ^ width) :
    (lookup width hd index tail (blockSize * m) : ℤ) =
      (tail + (Int.bmod ((index / blockSize * blockSize : ℕ) - (blockSize * m : ℕ))
        (2 ^ width)).tdiv blockSize) % hd.capacity := by
  have hsame := (unsigned_quotient hdvd ((index / blockSize : ℕ) - m)).trans
    (signed_quotient hdvd _).symm
  rw [lookup, difference_eq, Int.natCast_mod, Nat.cast_add]
  exact hsame.add_left _

theorem copyEntries_eq {prev : BlockIndexHeader} (htail : prev.tail < prev.capacity) :
    (copyEntries prev prev.capacity prev.tail 0 fun _ => 0).1 = prev.capacity ∧
      ∀ i < prev.capacity, (copyEntries prev prev.capacity prev.tail 0 fun _ => 0).2 i =
        prev.index ((prev.tail + 1 + i) % prev.capacity) := by
  have hpos : 0 < prev.capacity := by omega
  have hloop : ∀ rounds i index, i + rounds = prev.capacity → 0 < rounds →
      (∀ j < i, index j = prev.index ((prev.tail + 1 + j) % prev.capacity)) →
      (copyEntries prev rounds ((prev.tail + i) % prev.capacity) i index).1 = prev.capacity ∧
        ∀ j < prev.capacity,
          (copyEntries prev rounds ((prev.tail + i) % prev.capacity) i index).2 j =
            prev.index ((prev.tail + 1 + j) % prev.capacity) := by
    intro rounds
    induction rounds with
    | zero => exact fun _ _ _ h => absurd h (lt_irrefl 0)
    | succ rounds ih =>
      intro i index hi _ hindex
      have hnext : ((prev.tail + i) % prev.capacity + 1) % prev.capacity =
          (prev.tail + 1 + i) % prev.capacity := by
        rw [Nat.mod_add_mod, Nat.add_right_comm]
      have hwritten : ∀ j < i + 1, Function.update index i
          (prev.index ((prev.tail + 1 + i) % prev.capacity)) j =
            prev.index ((prev.tail + 1 + j) % prev.capacity) := by
        intro j hj
        rcases Nat.lt_succ_iff_lt_or_eq.mp hj with hlt | rfl
        · rw [Function.update_of_ne hlt.ne, hindex j hlt]
        · rw [Function.update_self]
      rw [copyEntries, hnext]
      split
      · rename_i hlast
        have hend : i + 1 = prev.capacity := by
          have hmod : prev.tail + (1 + i) ≡ prev.tail [MOD prev.capacity] := by
            rw [← Nat.add_assoc, Nat.ModEq, hlast, Nat.mod_eq_of_lt htail]
          have hdvd := Nat.modEq_zero_iff_dvd.mp (Nat.ModEq.add_left_cancel' (b := 0) _ hmod)
          have hle := Nat.le_of_dvd (by omega) hdvd
          omega
        exact ⟨hend, fun j hj => hwritten j (hend ▸ hj)⟩
      · rename_i hnot
        have hmore : 0 < rounds := by
          by_contra hzero
          apply hnot
          rw [show prev.tail + 1 + i = prev.tail + prev.capacity from by omega,
            Nat.add_mod_right, Nat.mod_eq_of_lt htail]
        have hpos' : (prev.tail + 1 + i) % prev.capacity =
            (prev.tail + (i + 1)) % prev.capacity := by
          rw [show prev.tail + 1 + i = prev.tail + (i + 1) from by omega]
        rw [hpos']
        rw [hpos'] at hwritten
        exact ih (i + 1) _ (by omega) hmore hwritten
  have h := hloop prev.capacity 0 (fun _ => 0) (by omega) hpos (by omega)
  rwa [Nat.add_zero, Nat.mod_eq_of_lt htail] at h

/-- The entry of a block number in a header; `first` says which number has position zero. -/
def State.slot (s : State) (first : ℕ → ℕ) (h n : ℕ) : ℕ :=
  (s.header h).index (position (s.header h).capacity (first h) n)

/-- The index between two steps, with `b` the last header, `begun` blocks up to its tail and
`placed` blocks that are done with. Each entry serves the numbers congruent to `cls` of it, in
every header that points to it. -/
structure Indexed (width : ℕ) (first cls : ℕ → ℕ) (s : State) (b placed begun : ℕ) : Prop where
  current : s.blockIndex = some b
  begun_le : placed ≤ begun ∧ begun ≤ placed + 1
  two_le : ∀ h ≤ b, 2 ≤ (s.header h).capacity
  capacity_dvd : ∀ h ≤ b, (s.header h).capacity ∣ (s.header b).capacity
  capacity_pow : ∃ k, (s.header b).capacity = 2 ^ k
  width_dvd : blockSize * (s.header b).capacity ∣ 2 ^ width
  next : s.nextBlockIndexCapacity = 2 * (s.header b).capacity
  tail_lt : ∀ h ≤ b, (s.header h).tail < (s.header h).capacity
  slot_lt : ∀ h ≤ b, ∀ n, s.slot first h n < s.entryCount
  cls_slot : ∀ h ≤ b, ∀ n, cls (s.slot first h n) ≡ n [MOD (s.header h).capacity]
  slot_cls : ∀ e < s.entryCount, s.slot first b (cls e) = e
  newTail : s.newTail b = position (s.header b).capacity (first b) begun
  keys : ∀ e < s.entryCount, ∀ k, (s.entry e).key = some k → ∃ m ≤ placed, k = blockSize * m ∧
    first b ≤ m ∧ begun ≤ m + (s.header b).capacity ∧ m ≡ cls e [MOD (s.header b).capacity]
  valid : ∀ m, first b ≤ m → m < begun → placed < m + (s.header b).capacity →
    (s.entry (s.slot first b m)).key = some (blockSize * m)
  first_le : first b ≤ placed ∧ (first b < placed ∨ placed = 0)
  tail_key : ∀ h ≤ b, h < b ∨ 0 < placed →
    (s.entry ((s.header h).index (s.header h).tail)).key ≠ none

section Frame
variable {s t : State} {first : ℕ → ℕ} {h n : ℕ}

@[simp] theorem slot_storeKey (e k : ℕ) : (s.storeKey e k).slot first h n = s.slot first h n := rfl

@[simp] theorem slot_storeValue (e : ℕ) (v : Option ℕ) :
    (s.storeValue e v).slot first h n = s.slot first h n := rfl

theorem header_storeTail (b tail : ℕ) : ((s.storeTail b tail).header h).capacity =
    (s.header h).capacity ∧ ((s.storeTail b tail).header h).index = (s.header h).index := by
  by_cases hb : h = b
  · subst hb
    simp [State.storeTail]
  · simp [State.storeTail, hb]

@[simp] theorem slot_storeTail (b tail : ℕ) :
    (s.storeTail b tail).slot first h n = s.slot first h n := by
  rw [State.slot, (header_storeTail b tail).1, (header_storeTail b tail).2, State.slot]

@[simp] theorem key_storeValue (e e' : ℕ) (v : Option ℕ) :
    ((s.storeValue e v).entry e').key = (s.entry e').key := by
  by_cases he : e' = e
  · subst he
    simp [State.storeValue]
  · simp [State.storeValue, he]

theorem value_storeKey (e e' k : ℕ) : ((s.storeKey e k).entry e').value = (s.entry e').value := by
  by_cases he : e' = e
  · subst he
    simp [State.storeKey]
  · simp [State.storeKey, he]

end Frame

namespace Indexed
variable {width : ℕ} {first cls : ℕ → ℕ} {s : State} {b placed begun : ℕ}

theorem pos (hs : Indexed width first cls s b placed begun) {h : ℕ} (hh : h ≤ b) :
    0 < (s.header h).capacity := by
  have := hs.two_le h hh
  omega

theorem slot_eq_iff (hs : Indexed width first cls s b placed begun) {n m : ℕ} :
    s.slot first b n = s.slot first b m ↔ n ≡ m [MOD (s.header b).capacity] := by
  constructor
  · intro h
    have hn := hs.cls_slot b le_rfl n
    rw [h] at hn
    exact hn.symm.trans (hs.cls_slot b le_rfl m)
  · intro h
    rw [State.slot, position_congr h, State.slot]

theorem slot_ne (hs : Indexed width first cls s b placed begun) {n m : ℕ} (hlt : m < n)
    (hle : n < m + (s.header b).capacity) : s.slot first b n ≠ s.slot first b m := by
  intro h
  have hmod := hs.slot_eq_iff.mp h
  obtain ⟨d, rfl⟩ : ∃ d, n = m + d := ⟨n - m, by omega⟩
  have hdvd := Nat.modEq_zero_iff_dvd.mp (Nat.ModEq.add_left_cancel' m hmod)
  have := Nat.le_of_dvd (by omega) hdvd
  omega

theorem eq_slot (hs : Indexed width first cls s b placed begun) {e n : ℕ} (he : e < s.entryCount)
    (hkey : (s.entry e).key = some (blockSize * n)) : e = s.slot first b n := by
  obtain ⟨m, -, hm, -, -, hmod⟩ := hs.keys e he _ hkey
  obtain rfl : n = m := Nat.eq_of_mul_eq_mul_left (by decide) hm
  rw [← hs.slot_cls e he]
  exact hs.slot_eq_iff.mpr hmod.symm

theorem idxEntry (hs : Indexed width first cls s b placed begun) :
    s.idxEntry b = s.slot first b begun := by
  rw [State.idxEntry, hs.newTail, State.slot]

theorem tail_eq (hs : Indexed width first cls s b placed (begun + 1)) :
    (s.header b).tail = position (s.header b).capacity (first b) begun := by
  apply eq_position (hs.tail_lt b le_rfl)
  have hnext : s.newTail b + first b ≡ begun + 1 [MOD (s.header b).capacity] := by
    rw [hs.newTail]
    exact position_add (hs.pos le_rfl)
  have hmod : (s.header b).tail + first b + 1 ≡ begun + 1 [MOD (s.header b).capacity] := by
    calc (s.header b).tail + first b + 1 = (s.header b).tail + 1 + first b := by ring
      _ ≡ s.newTail b + first b [MOD (s.header b).capacity] :=
        ((Nat.mod_modEq _ _).symm).add_right _
      _ ≡ begun + 1 [MOD (s.header b).capacity] := hnext
  exact Nat.ModEq.add_right_cancel' 1 hmod

theorem storeValue (hs : Indexed width first cls s b placed begun) (e : ℕ) (v : Option ℕ) :
    Indexed width first cls (s.storeValue e v) b placed begun where
  current := hs.current
  begun_le := hs.begun_le
  two_le := hs.two_le
  capacity_dvd := hs.capacity_dvd
  capacity_pow := hs.capacity_pow
  width_dvd := hs.width_dvd
  next := hs.next
  tail_lt := hs.tail_lt
  slot_lt := hs.slot_lt
  cls_slot := hs.cls_slot
  slot_cls := hs.slot_cls
  newTail := hs.newTail
  keys e' he' k hk := hs.keys e' he' k (by rwa [key_storeValue] at hk)
  valid m hfirst hlt hle := by
    rw [key_storeValue]
    exact hs.valid m hfirst hlt hle
  first_le := hs.first_le
  tail_key h hh hor := by
    rw [key_storeValue]
    exact hs.tail_key h hh hor

theorem storeKey (hs : Indexed width first cls s b placed placed) :
    Indexed width first cls (s.storeKey (s.slot first b placed) (blockSize * placed)) b placed
      placed := by
  have hkey : ∀ e, ((s.storeKey (s.slot first b placed) (blockSize * placed)).entry e).key =
      if e = s.slot first b placed then some (blockSize * placed) else (s.entry e).key := by
    intro e
    by_cases he : e = s.slot first b placed
    · subst he
      simp [State.storeKey]
    · simp [State.storeKey, he]
  refine ⟨hs.current, hs.begun_le, hs.two_le, hs.capacity_dvd, hs.capacity_pow, hs.width_dvd,
    hs.next, hs.tail_lt, hs.slot_lt, hs.cls_slot, hs.slot_cls, hs.newTail, ?_, ?_, hs.first_le,
    ?_⟩
  · intro e he k hk
    rw [hkey] at hk
    split at hk
    · rename_i heq
      obtain rfl := Option.some.inj hk
      refine ⟨placed, le_rfl, rfl, hs.first_le.1, Nat.le_add_right _ _, ?_⟩
      rw [heq]
      exact (hs.cls_slot b le_rfl placed).symm
    · exact hs.keys e he k hk
  · intro m hfirst hlt hle
    have hne : s.slot first b m ≠ s.slot first b placed := (hs.slot_ne hlt hle).symm
    rw [slot_storeKey, hkey, if_neg hne]
    exact hs.valid m hfirst hlt hle
  · intro h hh hor
    rw [hkey]
    split
    · exact Option.some_ne_none _
    · exact hs.tail_key h hh hor

theorem storeTail (hs : Indexed width first cls s b placed placed)
    (hkey : (s.entry (s.slot first b placed)).key = some (blockSize * placed)) :
    Indexed width first cls (s.storeTail b (s.newTail b)) b placed (placed + 1) := by
  have hcap : ∀ h, ((s.storeTail b (s.newTail b)).header h).capacity = (s.header h).capacity :=
    fun h => (header_storeTail b _).1
  have htail : ∀ h, h ≠ b →
      ((s.storeTail b (s.newTail b)).header h).tail = (s.header h).tail := by
    intro h hb
    simp [State.storeTail, hb]
  have hself : ((s.storeTail b (s.newTail b)).header b).tail = s.newTail b := by
    simp [State.storeTail]
  refine ⟨hs.current, ⟨Nat.le_succ _, le_rfl⟩, fun h hh => by rw [hcap]; exact hs.two_le h hh,
    fun h hh => by rw [hcap, hcap]; exact hs.capacity_dvd h hh, by rw [hcap]; exact hs.capacity_pow,
    by rw [hcap]; exact hs.width_dvd, by rw [hcap]; exact hs.next, ?_,
    fun h hh n => by rw [slot_storeTail]; exact hs.slot_lt h hh n,
    fun h hh n => by rw [slot_storeTail, hcap]; exact hs.cls_slot h hh n,
    fun e he => by rw [slot_storeTail]; exact hs.slot_cls e he, ?_, ?_, ?_, hs.first_le, ?_⟩
  · intro h hh
    rw [hcap]
    by_cases hb : h = b
    · subst hb
      rw [hself]
      exact Nat.mod_lt _ (hs.pos le_rfl)
    · rw [htail h hb]
      exact hs.tail_lt h hh
  · rw [State.newTail, hcap, hself, hs.newTail]
    exact position_succ (hs.pos le_rfl)
  · intro e he k hk
    obtain ⟨m, hm, rfl, hfirst, hle, hmod⟩ := hs.keys e he k hk
    refine ⟨m, hm, rfl, hfirst, ?_, by rwa [hcap]⟩
    rw [hcap]
    by_contra hgt
    have hsame : e = s.slot first b placed := by
      rw [hs.eq_slot he hk]
      apply hs.slot_eq_iff.mpr
      have hplaced : placed = m + (s.header b).capacity := by omega
      rw [hplaced]
      exact (Nat.add_mod_right _ _).symm
    have hk' : (s.entry e).key = some (blockSize * m) := hk
    rw [hsame, hkey] at hk'
    have heq := Nat.eq_of_mul_eq_mul_left (by decide) (Option.some.inj hk')
    have := hs.pos le_rfl
    omega
  · intro m hfirst hlt hle
    rw [slot_storeTail]
    rw [hcap] at hle
    rcases Nat.lt_succ_iff_lt_or_eq.mp hlt with hm | rfl
    · exact hs.valid m hfirst hm hle
    · exact hkey
  · intro h hh hor
    by_cases hb : h = b
    · subst hb
      rw [hself, (header_storeTail h _).2]
      have hentry : (s.header h).index (s.newTail h) = s.slot first h placed := hs.idxEntry
      rw [hentry]
      change (s.entry _).key ≠ none
      rw [hkey]
      exact Option.some_ne_none _
    · rw [htail h hb, (header_storeTail b _).2]
      exact hs.tail_key h hh (.inl (lt_of_le_of_ne hh hb))

theorem rewindTail (hs : Indexed width first cls s b placed (placed + 1)) :
    Indexed width first cls (s.rewindTail b) b placed placed := by
  have hpos := hs.pos le_rfl
  have hcap : ∀ h, ((s.rewindTail b).header h).capacity = (s.header h).capacity :=
    fun h => (header_storeTail b _).1
  have hindex : ∀ h, ((s.rewindTail b).header h).index = (s.header h).index :=
    fun h => (header_storeTail b _).2
  have hslot : ∀ h n, (s.rewindTail b).slot first h n = s.slot first h n :=
    fun h n => slot_storeTail b _
  have htail : ∀ h, h ≠ b → ((s.rewindTail b).header h).tail = (s.header h).tail := by
    intro h hb
    simp [State.rewindTail, State.storeTail, hb]
  have hself : ((s.rewindTail b).header b).tail =
      ((s.header b).tail + (s.header b).capacity - 1) % (s.header b).capacity := by
    simp [State.rewindTail, State.storeTail]
  have hback : (((s.rewindTail b).header b).tail + 1) % (s.header b).capacity =
      (s.header b).tail := by
    rw [hself, Nat.mod_add_mod, Nat.sub_add_cancel (by omega), Nat.add_mod_right,
      Nat.mod_eq_of_lt (hs.tail_lt b le_rfl)]
  refine ⟨hs.current, ⟨le_rfl, Nat.le_succ _⟩, fun h hh => by rw [hcap]; exact hs.two_le h hh,
    fun h hh => by rw [hcap, hcap]; exact hs.capacity_dvd h hh, by rw [hcap]; exact hs.capacity_pow,
    by rw [hcap]; exact hs.width_dvd, by rw [hcap]; exact hs.next, ?_,
    fun h hh n => by rw [hslot]; exact hs.slot_lt h hh n,
    fun h hh n => by rw [hslot, hcap]; exact hs.cls_slot h hh n,
    fun e he => by rw [hslot]; exact hs.slot_cls e he, ?_, ?_, ?_, hs.first_le, ?_⟩
  · intro h hh
    rw [hcap]
    by_cases hb : h = b
    · subst hb
      rw [hself]
      exact Nat.mod_lt _ hpos
    · rw [htail h hb]
      exact hs.tail_lt h hh
  · rw [State.newTail, hcap, hback]
    exact hs.tail_eq
  · intro e he k hk
    obtain ⟨m, hm, rfl, hfirst, hle, hmod⟩ := hs.keys e he k hk
    refine ⟨m, hm, rfl, hfirst, ?_, by rwa [hcap]⟩
    rw [hcap]
    omega
  · intro m hfirst hlt hle
    rw [hslot]
    rw [hcap] at hle
    exact hs.valid m hfirst (Nat.lt_succ_of_lt hlt) hle
  · intro h hh hor
    rw [hindex]
    by_cases hb : h = b
    · subst hb
      have hplaced : 0 < placed := hor.resolve_left (lt_irrefl _)
      have hfirst : first h < placed := hs.first_le.2.resolve_right (by omega)
      have htwo := hs.two_le h le_rfl
      have hlast : ((s.rewindTail h).header h).tail =
          position (s.header h).capacity (first h) (placed - 1) := by
        apply eq_position
        · rw [hself]
          exact Nat.mod_lt _ hpos
        · have hmod : ((s.rewindTail h).header h).tail + first h + 1 ≡ placed - 1 + 1
              [MOD (s.header h).capacity] := by
            rw [Nat.sub_add_cancel hplaced]
            calc ((s.rewindTail h).header h).tail + first h + 1
                = ((s.rewindTail h).header h).tail + 1 + first h := by ring
              _ ≡ (((s.rewindTail h).header h).tail + 1) % (s.header h).capacity + first h
                  [MOD (s.header h).capacity] := ((Nat.mod_modEq _ _).symm).add_right _
              _ = position (s.header h).capacity (first h) placed + first h := by
                rw [hback, hs.tail_eq]
              _ ≡ placed [MOD (s.header h).capacity] := position_add hpos
          exact Nat.ModEq.add_right_cancel' 1 hmod
      have hvalid := hs.valid (placed - 1) (by omega) (by omega) (by omega)
      rw [hlast]
      change (s.entry (s.slot first h (placed - 1))).key ≠ none
      rw [hvalid]
      exact Option.some_ne_none _
    · rw [htail h hb]
      exact hs.tail_key h hh (.inl (lt_of_le_of_ne hh hb))

theorem place (hs : Indexed width first cls s b placed (placed + 1)) :
    Indexed width first cls s b (placed + 1) (placed + 1) := by
  have hfirst := hs.first_le.1
  refine ⟨hs.current, ⟨le_rfl, Nat.le_succ _⟩, hs.two_le, hs.capacity_dvd, hs.capacity_pow,
    hs.width_dvd, hs.next, hs.tail_lt, hs.slot_lt, hs.cls_slot, hs.slot_cls, hs.newTail, ?_, ?_,
    ⟨by omega, by omega⟩, ?_⟩
  · intro e he k hk
    obtain ⟨m, hm, hrest⟩ := hs.keys e he k hk
    exact ⟨m, Nat.le_succ_of_le hm, hrest⟩
  · exact fun m hm hlt hle => hs.valid m hm hlt (by omega)
  · intro h hh hor
    by_cases hb : h = b
    · subst hb
      have htwo := hs.two_le h le_rfl
      have hvalid := hs.valid placed hfirst (Nat.lt_succ_self _) (by omega)
      rw [hs.tail_eq]
      change (s.entry (s.slot first h placed)).key ≠ none
      rw [hvalid]
      exact Option.some_ne_none _
    · exact hs.tail_key h hh (.inl (lt_of_le_of_ne hh hb))

/-- Whenever a consumer has read the parts of a header, it computes the position of the entry that
serves its block. -/
theorem lookup_eq (hs : Indexed width first cls s b placed begun) {h index tail tailBase : ℕ}
    (hh : h ≤ b) (htail : tail < (s.header h).capacity)
    (hkey : (s.entry ((s.header h).index tail)).key = some tailBase) :
    (s.header h).index (lookup width (s.header h) index tail tailBase) =
      s.slot first h (index / blockSize) := by
  have hslot : (s.header h).index tail = s.slot first h (tail + first h) := by
    rw [State.slot, position_add_first htail]
  rw [hslot] at hkey
  obtain ⟨m, -, rfl, -, -, hmod⟩ := hs.keys _ (hs.slot_lt h hh _) _ hkey
  have htailBase : tail + first h ≡ m [MOD (s.header h).capacity] :=
    ((hmod.of_dvd (hs.capacity_dvd h hh)).trans (hs.cls_slot h hh _)).symm
  rw [State.slot, lookup, add_mod_eq_position (hs.pos hh) htailBase]
  rw [difference_eq]
  exact unsigned_quotient
    ((Nat.mul_dvd_mul_left blockSize (hs.capacity_dvd h hh)).trans hs.width_dvd) _

end Indexed

section Growth
variable {s : State} {b : ℕ}

theorem blockIndex_newBlockIndex (hb : s.blockIndex = some b) :
    s.newBlockIndex.blockIndex = some (b + 1) := by
  rw [State.newBlockIndex, hb]

theorem header_newBlockIndex_of_ne (hb : s.blockIndex = some b) {h : ℕ} (hh : h ≠ b + 1) :
    s.newBlockIndex.header h = s.header h := by
  rw [State.newBlockIndex, hb]
  exact Function.update_of_ne hh _ _

theorem header_newBlockIndex (hb : s.blockIndex = some b) :
    s.newBlockIndex.header (b + 1) =
      { capacity := s.nextBlockIndexCapacity
        tail := ((s.header b).capacity + s.nextBlockIndexCapacity - 1) % s.nextBlockIndexCapacity
        index := fun i =>
          if i < (s.header b).capacity then
            (copyEntries (s.header b) (s.header b).capacity (s.header b).tail 0 fun _ => 0).2 i
          else s.entryCount + (i - (s.header b).capacity) } := by
  rw [State.newBlockIndex, hb]
  exact Function.update_self ..

theorem entry_newBlockIndex_of_lt {e : ℕ} (he : e < s.entryCount) :
    s.newBlockIndex.entry e = s.entry e := if_neg fun h => absurd h.1 (by omega)

theorem entryCount_newBlockIndex (hb : s.blockIndex = some b) :
    s.newBlockIndex.entryCount = s.entryCount + (s.header b).capacity := by
  rw [State.newBlockIndex, hb]

theorem key_newBlockIndex_of_le (hb : s.blockIndex = some b) {e : ℕ} (he : s.entryCount ≤ e)
    (hlt : e < s.entryCount + (s.header b).capacity) :
    (s.newBlockIndex.entry e).key = none := by
  rw [State.newBlockIndex, hb]
  exact congrArg BlockIndexEntry.key (if_pos ⟨he, hlt⟩)

end Growth

namespace Indexed
variable {width : ℕ} {first cls : ℕ → ℕ} {s : State} {b placed m : ℕ}

theorem key_start (header : ℕ → BlockIndexHeader) (entry : ℕ → BlockIndexEntry) {e : ℕ}
    (he : e < 32) : ((State.empty header entry).newBlockIndex.entry e).key = none :=
  congrArg BlockIndexEntry.key
    (if_pos ⟨Nat.zero_le e, he.trans_eq (Nat.zero_add 32).symm⟩)

theorem start (hwidth : 10 ≤ width) (header : ℕ → BlockIndexHeader) (entry : ℕ → BlockIndexEntry) :
    Indexed width (fun _ => 0) id (State.empty header entry).newBlockIndex 0 0 0 := by
  have hcapacity : ((State.empty header entry).newBlockIndex.header 0).capacity = 32 := rfl
  have hcount : (State.empty header entry).newBlockIndex.entryCount = 32 := rfl
  have hslot : ∀ n, (State.empty header entry).newBlockIndex.slot (fun _ => 0) 0 n = n % 32 := by
    intro n
    have hposition : position 32 0 n = n % 32 := by rw [position, Nat.zero_mul, Nat.add_zero]
    rw [State.slot, hcapacity, hposition]
    exact Nat.zero_add _
  refine ⟨rfl, ⟨le_rfl, Nat.zero_le _⟩, ?_, ?_, ⟨5, hcapacity⟩, ?_, rfl, ?_, ?_, ?_, ?_,
    (by decide : (31 + 1) % 32 = position 32 0 0), ?_, ?_, ⟨le_rfl, .inr rfl⟩, ?_⟩
  · intro h hh
    obtain rfl : h = 0 := by omega
    rw [hcapacity]
    decide
  · intro h hh
    obtain rfl : h = 0 := by omega
    exact dvd_rfl
  · rw [hcapacity]
    exact Nat.pow_dvd_pow 2 hwidth
  · intro h hh
    obtain rfl : h = 0 := by omega
    exact (by decide : 31 < 32)
  · intro h hh n
    obtain rfl : h = 0 := by omega
    rw [hslot, hcount]
    exact Nat.mod_lt _ (by decide)
  · intro h hh n
    obtain rfl : h = 0 := by omega
    rw [hslot, hcapacity]
    exact Nat.mod_modEq _ _
  · intro e he
    rw [hcount] at he
    rw [id, hslot, Nat.mod_eq_of_lt he]
  · intro e he k hk
    rw [key_start header entry (hcount ▸ he)] at hk
    cases hk
  · exact fun m _ hm => absurd hm (Nat.not_lt_zero m)
  · intro h hh hor
    omega

section Grow
variable (hs : Indexed width first cls s b placed placed)
  (hm : m + (s.header b).capacity = placed)

include hs in
theorem capacity_newBlockIndex :
    (s.newBlockIndex.header (b + 1)).capacity = 2 * (s.header b).capacity := by
  rw [header_newBlockIndex hs.current, hs.next]

include hs in
theorem slot_newBlockIndex {p : ℕ} (hp : p < 2 * (s.header b).capacity) :
    s.newBlockIndex.slot (Function.update first (b + 1) m) (b + 1) (m + p) =
      (s.newBlockIndex.header (b + 1)).index p := by
  rw [State.slot, hs.capacity_newBlockIndex, Function.update_self, Nat.add_comm m p,
    position_add_first hp]

include hs in
theorem slot_newBlockIndex_old {h : ℕ} (hh : h ≤ b) (n : ℕ) :
    s.newBlockIndex.slot (Function.update first (b + 1) m) h n = s.slot first h n := by
  rw [State.slot, header_newBlockIndex_of_ne hs.current (by omega),
    Function.update_of_ne (by omega), State.slot]

include hs hm in
theorem slot_newBlockIndex_copied {p : ℕ} (hp : p < (s.header b).capacity) :
    s.newBlockIndex.slot (Function.update first (b + 1) m) (b + 1) (m + p) =
      s.slot first b (m + p) := by
  have hpos := hs.pos le_rfl
  have hnewTail := hs.newTail
  rw [State.newTail] at hnewTail
  rw [hs.slot_newBlockIndex (by omega), header_newBlockIndex hs.current]
  dsimp only
  rw [if_pos hp, (copyEntries_eq (hs.tail_lt b le_rfl)).2 p hp, State.slot]
  congr 1
  apply eq_position (Nat.mod_lt _ hpos)
  calc ((s.header b).tail + 1 + p) % (s.header b).capacity + first b
      ≡ (s.header b).tail + 1 + p + first b [MOD (s.header b).capacity] :=
        (Nat.mod_modEq _ _).add_right _
    _ = (s.header b).tail + 1 + (first b + p) := by ring
    _ ≡ ((s.header b).tail + 1) % (s.header b).capacity + (first b + p)
        [MOD (s.header b).capacity] := ((Nat.mod_modEq _ _).symm).add_right _
    _ = position (s.header b).capacity (first b) placed + first b + p := by
      rw [hnewTail, Nat.add_assoc]
    _ ≡ placed + p [MOD (s.header b).capacity] := (position_add hpos).add_right p
    _ = m + p + (s.header b).capacity := by omega
    _ ≡ m + p [MOD (s.header b).capacity] := Nat.add_mod_right _ _

include hs hm in
theorem slot_newBlockIndex_fresh {j : ℕ} (hj : j < (s.header b).capacity) :
    s.newBlockIndex.slot (Function.update first (b + 1) m) (b + 1) (placed + j) =
      s.entryCount + j := by
  rw [← hm, Nat.add_assoc, hs.slot_newBlockIndex (by omega), header_newBlockIndex hs.current]
  dsimp only
  rw [if_neg (by omega), Nat.add_sub_cancel_left]

def renumber (s : State) (b m : ℕ) (cls : ℕ → ℕ) (e : ℕ) : ℕ :=
  if e < s.entryCount then m + position (s.header b).capacity m (cls e)
  else m + (s.header b).capacity + (e - s.entryCount)

include hs in
theorem renumber_slot {p : ℕ} (hp : p < (s.header b).capacity) :
    renumber s b m cls (s.slot first b (m + p)) = m + p := by
  rw [renumber, if_pos (hs.slot_lt b le_rfl _), position_congr (hs.cls_slot b le_rfl (m + p)),
    Nat.add_comm m p, position_add_first hp, Nat.add_comm]

include hs hm in
theorem keys_full (hfull : (s.entry (s.slot first b placed)).key = some (blockSize * m)) {e k : ℕ}
    (he : e < s.entryCount) (hk : (s.entry e).key = some k) :
    ∃ p < (s.header b).capacity, k = blockSize * (m + p) ∧ renumber s b m cls e = m + p := by
  have hpos := hs.pos le_rfl
  obtain ⟨n, hn, rfl, -, hle, hcls⟩ := hs.keys e he k hk
  have hne : n ≠ placed := by
    rintro rfl
    rw [hs.eq_slot he hk, hfull] at hk
    have := Nat.eq_of_mul_eq_mul_left (by decide) (Option.some.inj hk)
    omega
  obtain ⟨p, rfl⟩ : ∃ p, n = m + p := ⟨n - m, by omega⟩
  refine ⟨p, by omega, rfl, ?_⟩
  rw [renumber, if_pos he, position_congr hcls.symm, Nat.add_comm m p,
    position_add_first (by omega), Nat.add_comm]

include hs hm in
theorem valid_full (hfull : (s.entry (s.slot first b placed)).key = some (blockSize * m)) {p : ℕ}
    (hp : p < (s.header b).capacity) :
    (s.entry (s.slot first b (m + p))).key = some (blockSize * (m + p)) := by
  obtain ⟨m', -, heq, hle, -⟩ := hs.keys _ (hs.slot_lt b le_rfl placed) _ hfull
  obtain rfl := Nat.eq_of_mul_eq_mul_left (by decide) heq
  rcases Nat.eq_zero_or_pos p with rfl | hpos
  · have hsame : s.slot first b m = s.slot first b placed := by
      rw [hs.slot_eq_iff, ← hm]
      exact (Nat.add_mod_right _ _).symm
    rw [Nat.add_zero, hsame]
    exact hfull
  · exact hs.valid (m + p) (by omega) (by omega) (by omega)

include hs hm in
/-- A new array: the old entries serve the numbers they have served last, and the others are free
for the next ones. -/
theorem newBlockIndex (hfits : blockSize * s.nextBlockIndexCapacity ∣ 2 ^ width)
    (hfull : (s.entry (s.slot first b placed)).key = some (blockSize * m)) :
    Indexed width (Function.update first (b + 1) m) (renumber s b m cls) s.newBlockIndex (b + 1)
      placed placed := by
  have hb := hs.current
  have hpos := hs.pos le_rfl
  have hheaderOld : ∀ h ≤ b, s.newBlockIndex.header h = s.header h :=
    fun h hh => header_newBlockIndex_of_ne hb (by omega)
  have hcap := hs.capacity_newBlockIndex
  have hcount := entryCount_newBlockIndex hb
  have htail : (s.newBlockIndex.header (b + 1)).tail = (s.header b).capacity - 1 := by
    rw [header_newBlockIndex hb, hs.next]
    dsimp only
    rw [show (s.header b).capacity + 2 * (s.header b).capacity - 1 =
      (s.header b).capacity - 1 + 2 * (s.header b).capacity by omega, Nat.add_mod_right,
      Nat.mod_eq_of_lt (by omega)]
  have hcls : ∀ h ≤ b, ∀ n, renumber s b m cls (s.slot first h n) ≡ n
      [MOD (s.header h).capacity] := by
    intro h hh n
    rw [renumber, if_pos (hs.slot_lt h hh n)]
    have hmod : m + position (s.header b).capacity m (cls (s.slot first h n)) ≡
        cls (s.slot first h n) [MOD (s.header b).capacity] := by
      rw [Nat.add_comm]
      exact position_add hpos
    exact (hmod.of_dvd (hs.capacity_dvd h hh)).trans (hs.cls_slot h hh n)
  have hnew : ∀ n, ∃ p < 2 * (s.header b).capacity, m + p ≡ n [MOD 2 * (s.header b).capacity] ∧
      s.newBlockIndex.slot (Function.update first (b + 1) m) (b + 1) n =
        s.newBlockIndex.slot (Function.update first (b + 1) m) (b + 1) (m + p) := by
    intro n
    have htwo : 0 < 2 * (s.header b).capacity := by omega
    have hlt : position (2 * (s.header b).capacity) m n < 2 * (s.header b).capacity :=
      position_lt htwo
    have hmod : position (2 * (s.header b).capacity) m n + m ≡ n
        [MOD 2 * (s.header b).capacity] := position_add htwo
    refine ⟨position (2 * (s.header b).capacity) m n, hlt, by rwa [Nat.add_comm], ?_⟩
    rw [hs.slot_newBlockIndex hlt, State.slot, hcap, Function.update_self]
  have hslot : ∀ p < 2 * (s.header b).capacity,
      (p < (s.header b).capacity ∧
          s.newBlockIndex.slot (Function.update first (b + 1) m) (b + 1) (m + p) =
            s.slot first b (m + p)) ∨
        ∃ j < (s.header b).capacity, p = (s.header b).capacity + j ∧
          s.newBlockIndex.slot (Function.update first (b + 1) m) (b + 1) (m + p) =
            s.entryCount + j := by
    intro p hp
    rcases Nat.lt_or_ge p (s.header b).capacity with hlt | hge
    · exact .inl ⟨hlt, hs.slot_newBlockIndex_copied hm hlt⟩
    · obtain ⟨j, rfl⟩ := Nat.exists_eq_add_of_le hge
      refine .inr ⟨j, by omega, rfl, ?_⟩
      rw [← Nat.add_assoc, hm]
      exact hs.slot_newBlockIndex_fresh hm (by omega)
  have hrenumber : ∀ p < 2 * (s.header b).capacity, renumber s b m cls
      (s.newBlockIndex.slot (Function.update first (b + 1) m) (b + 1) (m + p)) = m + p := by
    intro p hp
    rcases hslot p hp with ⟨hlt, heq⟩ | ⟨j, hj, rfl, heq⟩
    · rw [heq]
      exact hs.renumber_slot hlt
    · rw [heq, renumber, if_neg (by omega), Nat.add_sub_cancel_left, Nat.add_assoc]
  have hkey : ∀ n, m ≤ n → n < placed → (s.newBlockIndex.entry
      (s.newBlockIndex.slot (Function.update first (b + 1) m) (b + 1) n)).key =
        some (blockSize * n) := by
    intro n hmn hn
    obtain ⟨p, rfl⟩ := Nat.exists_eq_add_of_le hmn
    rw [hs.slot_newBlockIndex_copied hm (by omega),
      entry_newBlockIndex_of_lt (hs.slot_lt b le_rfl _)]
    exact hs.valid_full hm hfull (by omega)
  have hfirst : Function.update first (b + 1) m (b + 1) = m := Function.update_self ..
  refine ⟨blockIndex_newBlockIndex hb, ⟨le_rfl, Nat.le_succ _⟩, ?_, ?_, ?_, ?_, ?_, ?_, ?_, ?_, ?_,
    ?_, ?_, ?_, ?_, ?_⟩
  · intro h hh
    rcases Nat.lt_succ_iff_lt_or_eq.mp (Nat.lt_succ_of_le hh) with hlt | rfl
    · rw [hheaderOld h (by omega)]
      exact hs.two_le h (by omega)
    · rw [hcap]
      omega
  · intro h hh
    rcases Nat.lt_succ_iff_lt_or_eq.mp (Nat.lt_succ_of_le hh) with hlt | rfl
    · rw [hheaderOld h (by omega), hcap]
      exact (hs.capacity_dvd h (by omega)).mul_left 2
    · exact dvd_rfl
  · obtain ⟨k, hk⟩ := hs.capacity_pow
    exact ⟨k + 1, by rw [hcap, hk, pow_succ']⟩
  · rw [hcap, ← hs.next]
    exact hfits
  · rw [hcap, ← hs.next]
    rfl
  · intro h hh
    rcases Nat.lt_succ_iff_lt_or_eq.mp (Nat.lt_succ_of_le hh) with hlt | rfl
    · rw [hheaderOld h (by omega)]
      exact hs.tail_lt h (by omega)
    · rw [htail, hcap]
      omega
  · intro h hh n
    rw [hcount]
    rcases Nat.lt_succ_iff_lt_or_eq.mp (Nat.lt_succ_of_le hh) with hlt | rfl
    · rw [hs.slot_newBlockIndex_old (by omega)]
      exact Nat.lt_add_right _ (hs.slot_lt h (by omega) n)
    · obtain ⟨p, hp, -, heq⟩ := hnew n
      rw [heq]
      rcases hslot p hp with ⟨-, heq⟩ | ⟨j, hj, -, heq⟩
      · rw [heq]
        exact Nat.lt_add_right _ (hs.slot_lt b le_rfl _)
      · rw [heq]
        omega
  · intro h hh n
    rcases Nat.lt_succ_iff_lt_or_eq.mp (Nat.lt_succ_of_le hh) with hlt | rfl
    · rw [hs.slot_newBlockIndex_old (by omega), hheaderOld h (by omega)]
      exact hcls h (by omega) n
    · obtain ⟨p, hp, hmod, heq⟩ := hnew n
      rw [heq, hrenumber p hp, hcap]
      exact hmod
  · intro e he
    rw [hcount] at he
    rcases Nat.lt_or_ge e s.entryCount with hlt | hge
    · rw [renumber, if_pos hlt, hs.slot_newBlockIndex_copied hm (position_lt hpos)]
      have hmod : m + position (s.header b).capacity m (cls e) ≡ cls e
          [MOD (s.header b).capacity] := by
        rw [Nat.add_comm]
        exact position_add hpos
      rw [hs.slot_eq_iff.mpr hmod]
      exact hs.slot_cls e hlt
    · obtain ⟨j, rfl⟩ := Nat.exists_eq_add_of_le hge
      rw [renumber, if_neg (by omega), Nat.add_sub_cancel_left, hm]
      exact hs.slot_newBlockIndex_fresh hm (by omega)
  · rw [State.newTail, htail, hcap, hfirst, ← hm, Nat.sub_add_cancel hpos, Nat.add_comm m,
      position_add_first (by omega), Nat.mod_eq_of_lt (by omega)]
  · intro e he k hk
    rw [hcount] at he
    rcases Nat.lt_or_ge e s.entryCount with hlt | hge
    · rw [entry_newBlockIndex_of_lt hlt] at hk
      obtain ⟨p, hp, rfl, heq⟩ := hs.keys_full hm hfull hlt hk
      rw [hfirst, hcap, heq]
      exact ⟨m + p, by omega, rfl, Nat.le_add_right _ _, by omega, Nat.ModEq.refl _⟩
    · rw [key_newBlockIndex_of_le hb hge he] at hk
      cases hk
  · intro n hmn hn hle
    rw [hfirst] at hmn
    exact hkey n hmn hn
  · rw [hfirst]
    omega
  · intro h hh hor
    have hplaced : 0 < placed := by omega
    rcases Nat.lt_succ_iff_lt_or_eq.mp (Nat.lt_succ_of_le hh) with hlt | rfl
    · have htailOld := hs.tail_key h (by omega) (.inr hplaced)
      have hslotTail : (s.header h).index (s.header h).tail =
          s.slot first h ((s.header h).tail + first h) := by
        rw [State.slot, position_add_first (hs.tail_lt h (by omega))]
      rw [hheaderOld h (by omega)]
      rw [hslotTail] at htailOld ⊢
      rwa [entry_newBlockIndex_of_lt (hs.slot_lt h (by omega) _)]
    · have hlast := hkey (placed - 1) (by omega) (by omega)
      rw [show placed - 1 = m + ((s.header b).capacity - 1) by omega,
        hs.slot_newBlockIndex (by omega)] at hlast
      rw [htail, hlast]
      exact Option.some_ne_none _

end Grow

end Indexed

end BlockIndex
end PyCtp
