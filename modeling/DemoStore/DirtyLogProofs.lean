import DemoStore.ByteSpanProofs
import Mathlib.Data.Nat.Bitwise
import Mathlib.Data.List.Pairwise

/-! # The dirty log

    Live migration asks the memory manager again and again which pages have been
    written.  Two bitmaps answer, one of the hypervisor and one of the VMM; their
    union is walked by `BitposIterator`, neighbouring bits are merged by `coalesce`,
    and what comes out is a `MemoryRangeTable`.

    The table is exact: every byte of a dirty page is in one range, no other byte is
    in any, and no two ranges touch, so it is the shortest table that says so. -/

namespace DirtyLog

open ByteSpan List
open Function (update update_of_ne update_self)

/-- A page of the bitmap. -/
def dirtyBit (bitmap : List UInt64) (page : Nat) : Bool :=
  (bitmap.getD (page / 64) 0).toNat.testBit (page % 64)

theorem dirtyBit_nil (page : Nat) : dirtyBit [] page = false := by
  simp [dirtyBit]

variable {w word : UInt64} {page wordBit zeroes wordPos p startAddr pageSize : Nat}
  {bitmap ws rest : List UInt64} {ps : List Nat}

theorem dirtyBit_cons_low (h : page < 64) : dirtyBit (w :: ws) page = w.toNat.testBit page := by
  rw [dirtyBit, Nat.div_eq_of_lt h, Nat.mod_eq_of_lt h]
  rfl

theorem dirtyBit_cons_high (h : 64 ≤ page) : dirtyBit (w :: ws) page = dirtyBit ws (page - 64) := by
  obtain ⟨i, rfl⟩ := Nat.exists_eq_add_of_le h
  rw [dirtyBit, dirtyBit, Nat.add_sub_cancel_left, Nat.add_mod_left,
    Nat.add_div_left _ (by decide), getD_cons_succ]

theorem testBit_toNat_of_ge {i : Nat} (h : 64 ≤ i) : w.toNat.testBit i = false :=
  Nat.testBit_lt_two_pow (Nat.lt_of_lt_of_le w.toNat_lt (Nat.pow_le_pow_right (by decide) h))

/-! ## The iterator over set bits -/

/-- `BitposIterator`; `word_pos` is a `u32`, which `2 ^ 32` words do not pass. -/
structure BitposIterator where
  underlyingIt : List UInt64
  wordPos : Nat
  currentWord : Option (UInt64 × Nat)

/-- `u64::trailing_zeros`. -/
def trailingZeros (word : UInt64) : Nat :=
  ((List.range 64).find? fun i => word.toNat.testBit i).getD 64

/-- What `next` finds in the current word from `word_bit` on: the zeros in front of the next
    set bit. -/
def scanWord (word : UInt64) (wordBit : Nat) : Option Nat :=
  if word ≠ 0 ∧ wordBit < 64 then
    let shiftedWord := word >>> UInt64.ofNat wordBit
    if shiftedWord ≠ 0 then some (trailingZeros shiftedWord) else none
  else none

/-- The loop of `next` when there is no current word. -/
def nextFrom (wordPos : Nat) : List UInt64 → Option (Nat × BitposIterator)
  | [] => none
  | word :: rest =>
    match scanWord word 0 with
    | some zeroes => some (wordPos * 64 + (0 + zeroes), ⟨rest, wordPos, some (word, zeroes + 0 + 1)⟩)
    | none => nextFrom (wordPos + 1) rest

/-- `BitposIterator::next`. -/
def BitposIterator.next (it : BitposIterator) : Option (Nat × BitposIterator) :=
  match it.currentWord with
  | none => nextFrom it.wordPos it.underlyingIt
  | some (word, wordBit) =>
    match scanWord word wordBit with
    | some zeroes =>
      some (it.wordPos * 64 + (wordBit + zeroes),
        { it with currentWord := some (word, zeroes + wordBit + 1) })
    | none => nextFrom (it.wordPos + 1) it.underlyingIt

/-! ### One word -/

theorem testBit_shifted (h : wordBit < 64) (i : Nat) :
    (word >>> UInt64.ofNat wordBit).toNat.testBit i = word.toNat.testBit (wordBit + i) := by
  have hof : (UInt64.ofNat wordBit).toNat = wordBit :=
    UInt64.toNat_ofNat_of_lt' (Nat.lt_trans h (by decide))
  rw [UInt64.toNat_shiftRight, hof, Nat.mod_eq_of_lt h, Nat.testBit_shiftRight]

theorem exists_testBit_of_ne_zero (h : word ≠ 0) : ∃ i < 64, word.toNat.testBit i = true := by
  by_contra hno
  refine h (UInt64.toNat_inj.mp (Nat.eq_of_testBit_eq fun i => ?_))
  rw [UInt64.toNat_zero, Nat.zero_testBit]
  by_cases hi : i < 64
  · exact Bool.eq_false_iff.mpr fun hbit => hno ⟨i, hi, hbit⟩
  · exact testBit_toNat_of_ge (Nat.le_of_not_lt hi)

/-- The first set bit of a word that is not zero. -/
theorem trailingZeros_spec (h : word ≠ 0) :
    word.toNat.testBit (trailingZeros word) = true
      ∧ ∀ i < trailingZeros word, word.toNat.testBit i = false := by
  obtain ⟨j, hj, hbit⟩ := exists_testBit_of_ne_zero h
  cases hfind : (List.range 64).find? fun i => word.toNat.testBit i with
  | none =>
    have hnone := find?_eq_none.mp hfind j (mem_range.mpr hj)
    exact absurd hbit hnone
  | some z =>
    have hz : trailingZeros word = z := by rw [trailingZeros, hfind]; rfl
    rw [hz]
    rw [find?_range_eq_some] at hfind
    refine ⟨hfind.1, fun i hi => ?_⟩
    have hbefore := hfind.2.2 i hi
    simpa using hbefore

/-- The next set bit of a word. -/
theorem scanWord_some (h : scanWord word wordBit = some zeroes) :
    word.toNat.testBit (wordBit + zeroes) = true
      ∧ ∀ i, wordBit ≤ i → i < wordBit + zeroes → word.toNat.testBit i = false := by
  rw [scanWord] at h
  split at h
  · rename_i hword
    dsimp only at h
    split at h
    · rename_i hshift
      cases h
      obtain ⟨hbit, hbefore⟩ := trailingZeros_spec hshift
      refine ⟨by rwa [testBit_shifted hword.2] at hbit, fun i hle hlt => ?_⟩
      obtain ⟨k, rfl⟩ := Nat.exists_eq_add_of_le hle
      rw [← testBit_shifted hword.2]
      exact hbefore k (by omega)
    · cases h
  · cases h

/-- No bit is left in the word. -/
theorem scanWord_none (h : scanWord word wordBit = none) :
    ∀ i, wordBit ≤ i → word.toNat.testBit i = false := by
  intro i hle
  by_cases hword : word = 0
  · rw [hword, UInt64.toNat_zero, Nat.zero_testBit]
  by_cases hbit : wordBit < 64
  · rw [scanWord, if_pos ⟨hword, hbit⟩] at h
    dsimp only at h
    split at h
    · cases h
    · rename_i hshift
      rw [Decidable.not_not] at hshift
      obtain ⟨k, rfl⟩ := Nat.exists_eq_add_of_le hle
      rw [← testBit_shifted hbit, hshift, UInt64.toNat_zero, Nat.zero_testBit]
  · exact testBit_toNat_of_ge (by omega)

/-- A set bit is inside the word. -/
theorem scanWord_lt (h : scanWord word wordBit = some zeroes) : wordBit + zeroes < 64 := by
  by_contra hge
  have hbit := (scanWord_some h).1
  rw [testBit_toNat_of_ge (Nat.le_of_not_lt hge)] at hbit
  cases hbit

/-! ### All words -/

/-- The positions that are still to come. -/
def BitposIterator.Pending (it : BitposIterator) (p : Nat) : Prop :=
  match it.currentWord with
  | none => it.wordPos * 64 ≤ p ∧ dirtyBit it.underlyingIt (p - it.wordPos * 64) = true
  | some (word, wordBit) =>
    it.wordPos * 64 + wordBit ≤ p ∧ dirtyBit (word :: it.underlyingIt) (p - it.wordPos * 64) = true

/-- What `next` gives: the smallest position that is pending, and an iterator for the
    others. -/
def NextIs (pending : Nat → Prop) : Option (Nat × BitposIterator) → Prop
  | none => ∀ p, ¬ pending p
  | some (p, it') =>
    (∀ q, pending q ↔ q = p ∨ it'.Pending q) ∧ ∀ q, it'.Pending q → p < q

/-- A bit found in the current word. -/
theorem nextIs_found (h : scanWord word wordBit = some zeroes) :
    NextIs (BitposIterator.Pending ⟨rest, wordPos, some (word, wordBit)⟩)
      (some (wordPos * 64 + (wordBit + zeroes),
        ⟨rest, wordPos, some (word, zeroes + wordBit + 1)⟩)) := by
  obtain ⟨hbit, hbefore⟩ := scanWord_some h
  have hlt := scanWord_lt h
  have hhere : dirtyBit (word :: rest) (wordBit + zeroes) = true := by
    rw [dirtyBit_cons_low hlt]
    exact hbit
  refine ⟨fun q => ⟨fun hq => ?_, fun hq => ?_⟩, fun q hq => ?_⟩
  · obtain ⟨hle, hdirty⟩ := hq
    dsimp only at hle hdirty
    by_cases heq : q = wordPos * 64 + (wordBit + zeroes)
    · exact .inl heq
    refine .inr ⟨?_, hdirty⟩
    dsimp only
    -- nothing is set between `wordBit` and the bit that was found
    by_contra hge
    have hfalse := hbefore (q - wordPos * 64) (by omega) (by omega)
    rw [dirtyBit_cons_low (by omega), hfalse] at hdirty
    cases hdirty
  · rcases hq with rfl | ⟨hle, hdirty⟩
    · refine ⟨?_, ?_⟩
      · dsimp only
        omega
      · dsimp only
        rwa [Nat.add_sub_cancel_left]
    · dsimp only at hle hdirty
      exact ⟨by dsimp only; omega, hdirty⟩
  · obtain ⟨hle, -⟩ := hq
    dsimp only at hle
    omega

/-- Nothing left in the current word: the others start behind it. -/
theorem pending_skip (h : scanWord word wordBit = none) (hbit : wordBit ≤ 64) (p : Nat) :
    BitposIterator.Pending ⟨rest, wordPos, some (word, wordBit)⟩ p
      ↔ BitposIterator.Pending ⟨rest, wordPos + 1, none⟩ p := by
  have hclear := scanWord_none h
  show wordPos * 64 + wordBit ≤ p ∧ dirtyBit (word :: rest) (p - wordPos * 64) = true
    ↔ (wordPos + 1) * 64 ≤ p ∧ dirtyBit rest (p - (wordPos + 1) * 64) = true
  have hshift : p - (wordPos + 1) * 64 = p - wordPos * 64 - 64 := by omega
  by_cases hp : 64 ≤ p - wordPos * 64
  · rw [dirtyBit_cons_high hp, hshift]
    refine and_congr_left fun _ => ?_
    omega
  · constructor
    · rintro ⟨hle, hdirty⟩
      rw [dirtyBit_cons_low (by omega), hclear _ (by omega)] at hdirty
      cases hdirty
    · rintro ⟨hle, -⟩
      omega

/-- The next set bit from a word on. -/
theorem nextIs_nextFrom (wordPos : Nat) (words : List UInt64) :
    NextIs (BitposIterator.Pending ⟨words, wordPos, none⟩) (nextFrom wordPos words) := by
  induction words generalizing wordPos with
  | nil =>
    rintro p ⟨-, hdirty⟩
    rw [dirtyBit_nil] at hdirty
    cases hdirty
  | cons word rest ih =>
    rw [nextFrom]
    -- a word that is taken from the underlying iterator is scanned from bit 0
    have htake : BitposIterator.Pending ⟨word :: rest, wordPos, none⟩
        = BitposIterator.Pending ⟨rest, wordPos, some (word, 0)⟩ := by
      funext p
      simp only [BitposIterator.Pending, Nat.add_zero]
    rw [htake]
    cases hscan : scanWord word 0 with
    | some zeroes => exact nextIs_found hscan
    | none =>
      have hskip : BitposIterator.Pending ⟨rest, wordPos, some (word, 0)⟩
          = BitposIterator.Pending ⟨rest, wordPos + 1, none⟩ :=
        funext fun p => propext (pending_skip hscan (by decide) p)
      rw [hskip]
      exact ih (wordPos + 1)

/-- A word is never left with a bit position behind its end. -/
def BitposIterator.InWord (it : BitposIterator) : Prop :=
  ∀ word wordBit, it.currentWord = some (word, wordBit) → wordBit ≤ 64

variable {it it' : BitposIterator}

/-- `next` gives the next set bit. -/
theorem nextIs_next (hin : it.InWord) : NextIs it.Pending it.next := by
  obtain ⟨words, wordPos, current⟩ := it
  cases current with
  | none => exact nextIs_nextFrom wordPos words
  | some cur =>
    obtain ⟨word, wordBit⟩ := cur
    rw [BitposIterator.next]
    dsimp only
    cases hscan : scanWord word wordBit with
    | some zeroes => exact nextIs_found hscan
    | none =>
      have hskip : BitposIterator.Pending ⟨words, wordPos, some (word, wordBit)⟩
          = BitposIterator.Pending ⟨words, wordPos + 1, none⟩ :=
        funext fun p => propext (pending_skip hscan (hin word wordBit rfl) p)
      rw [hskip]
      exact nextIs_nextFrom (wordPos + 1) words

/-- The turns that are left; each call that finds something uses one. -/
def BitposIterator.fuel (it : BitposIterator) : Nat :=
  it.underlyingIt.length * 65 + match it.currentWord with
    | none => 0
    | some (_, wordBit) => 65 - wordBit

theorem nextFrom_some {words : List UInt64} (h : nextFrom wordPos words = some (p, it')) :
    it'.InWord ∧ it'.fuel < words.length * 65 := by
  induction words generalizing wordPos with
  | nil => cases h
  | cons word rest ih =>
    rw [nextFrom] at h
    cases hscan : scanWord word 0 with
    | some zeroes =>
      rw [hscan] at h
      obtain ⟨-, rfl⟩ := Prod.mk.inj (Option.some.inj h)
      have hlt := scanWord_lt hscan
      refine ⟨fun w b hb => ?_, ?_⟩
      · obtain ⟨-, rfl⟩ := Prod.mk.inj (Option.some.inj hb)
        omega
      · simp only [BitposIterator.fuel, length_cons]
        omega
    | none =>
      rw [hscan] at h
      obtain ⟨hin, hfuel⟩ := ih h
      refine ⟨hin, ?_⟩
      rw [length_cons]
      omega

/-- Each `next` uses up fuel. -/
theorem next_some (h : it.next = some (p, it')) : it'.InWord ∧ it'.fuel < it.fuel := by
  obtain ⟨words, wordPos, current⟩ := it
  cases current with
  | none =>
    obtain ⟨hin, hfuel⟩ := nextFrom_some h
    refine ⟨hin, ?_⟩
    simp only [BitposIterator.fuel, Nat.add_zero] at hfuel ⊢
    exact hfuel
  | some cur =>
    obtain ⟨word, wordBit⟩ := cur
    rw [BitposIterator.next] at h
    dsimp only at h
    cases hscan : scanWord word wordBit with
    | some zeroes =>
      rw [hscan] at h
      obtain ⟨-, rfl⟩ := Prod.mk.inj (Option.some.inj h)
      have hlt := scanWord_lt hscan
      refine ⟨fun w b hb => ?_, ?_⟩
      · obtain ⟨-, rfl⟩ := Prod.mk.inj (Option.some.inj hb)
        omega
      · simp only [BitposIterator.fuel]
        omega
    | none =>
      rw [hscan] at h
      obtain ⟨hin, hfuel⟩ := nextFrom_some h
      exact ⟨hin, Nat.lt_of_lt_of_le hfuel (Nat.le_add_right ..)⟩

/-- Everything an iterator gives, in order. -/
def BitposIterator.collect (it : BitposIterator) : List Nat :=
  match _h : it.next with
  | none => []
  | some (p, it') => p :: it'.collect
termination_by it.fuel
decreasing_by exact (next_some _h).2

/-- The iterator gives each set bit, in order. -/
theorem collect_spec (it : BitposIterator) (hin : it.InWord) :
    (∀ p, p ∈ it.collect ↔ it.Pending p) ∧ it.collect.Pairwise (· < ·) := by
  -- by the fuel, which every `next` lowers
  induction hn : it.fuel using Nat.strong_induction_on generalizing it with
  | h n ih =>
    have hnext := nextIs_next hin
    rw [BitposIterator.collect]
    split
    · rename_i hnone
      rw [hnone] at hnext
      exact ⟨fun p => ⟨fun hp => absurd hp not_mem_nil, fun hp => absurd hp (hnext p)⟩,
        List.Pairwise.nil⟩
    · rename_i p it' hsome
      rw [hsome] at hnext
      obtain ⟨hiff, hlater⟩ := hnext
      obtain ⟨hin', hfuel⟩ := next_some hsome
      obtain ⟨hmem, hsorted⟩ := ih it'.fuel (hn ▸ hfuel) it' hin' rfl
      refine ⟨fun q => ?_, pairwise_cons.mpr ⟨fun q hq => ?_, hsorted⟩⟩
      · rw [mem_cons, hmem, hiff]
      · exact hlater q ((hmem q).mp hq)

/-- `bit_positions`. -/
def bitPositions (bitmap : List UInt64) : List Nat :=
  BitposIterator.collect ⟨bitmap, 0, none⟩

/-- The iterator gives the set bits, in order. -/
theorem bitPositions_spec (bitmap : List UInt64) :
    (∀ p, p ∈ bitPositions bitmap ↔ dirtyBit bitmap p = true)
      ∧ (bitPositions bitmap).Pairwise (· < ·) := by
  obtain ⟨hmem, hsorted⟩ := collect_spec ⟨bitmap, 0, none⟩ fun _ _ h => by cases h
  refine ⟨fun p => (hmem p).trans ?_, hsorted⟩
  simp only [BitposIterator.Pending, Nat.zero_mul, Nat.zero_le, true_and, Nat.sub_zero]

/-! ## Ranges of dirty pages -/

/-- `MemoryRange`. -/
structure MemoryRange where
  gpa : Nat
  length : Nat
  deriving DecidableEq, Repr

/-- Its addresses. -/
def MemoryRange.span (r : MemoryRange) : Span := ⟨r.gpa, r.length⟩

/-- `MemoryRangeTable`; `extend` and `new_from_tables` are `++`. -/
abbrev MemoryRangeTable := List MemoryRange

/-- How many ranges of the table have the address. -/
def reported (table : MemoryRangeTable) (a : Nat) : Nat := cover (table.map MemoryRange.span) a

/-- `dirty_ranges_iter` and `from_dirty_bitmap`; the code computes the two fields of a range in
    `u64` (`MemoryRange.wrap`). -/
def fromDirtyBitmap (bitmap : List UInt64) (startAddr pageSize : Nat) : MemoryRangeTable :=
  (coalesce joinTouching ((bitPositions bitmap).map fun b => ⟨b, 1⟩)).map fun r =>
    ⟨startAddr + r.start * pageSize, r.len * pageSize⟩

/-- What is left of a range in two `u64` fields. -/
def MemoryRange.wrap (r : MemoryRange) : MemoryRange := ⟨r.gpa % 2 ^ 64, r.length % 2 ^ 64⟩

/-- The bitmaps that stay inside the types of the code: `word_pos` is a `u32`, and the end of
    the last page is an address. -/
structure BitmapFits (bitmap : List UInt64) (startAddr pageSize : Nat) : Prop where
  words : bitmap.length ≤ 2 ^ 32
  ends : startAddr + 64 * bitmap.length * pageSize < 2 ^ 64

/-- One unit for each position. -/
theorem cover_units (h : ps.Pairwise (· < ·)) (a : Nat) :
    cover (ps.map fun b => ⟨b, 1⟩) a = if a ∈ ps then 1 else 0 := by
  have hhas : ∀ b, (⟨b, 1⟩ : Span).Has a ↔ b = a := by
    intro b
    simp only [Span.Has, Span.stop]
    omega
  have hnodup : ps.Nodup := h.imp fun hlt => Nat.ne_of_lt hlt
  rw [cover, countP_map, ← hnodup.count, List.count]
  refine countP_congr fun b _ => ?_
  simp [hhas b]

theorem ordered_units (h : ps.Pairwise (· < ·)) : Ordered (ps.map fun b => ⟨b, 1⟩) := by
  refine ⟨pairwise_map.mpr (h.imp fun hlt => hlt), fun s hs => ?_⟩
  obtain ⟨b, -, rfl⟩ := List.mem_map.mp hs
  exact Nat.one_pos

/-- Pages cover the addresses of their bits. -/
theorem cover_scale {base unit a : Nat} {ss : List Span} (hunit : 0 < unit) :
    cover (ss.map (Span.scale base unit)) a
      = if base ≤ a then cover ss ((a - base) / unit) else 0 := by
  rw [cover, countP_map]
  by_cases hbase : base ≤ a
  · rw [if_pos hbase]
    refine countP_congr fun s _ => ?_
    simp [Span.scale_has_iff hunit, hbase]
  · rw [if_neg hbase, countP_eq_zero]
    intro s _
    simp [Span.scale_has_iff hunit, hbase]

/-- The ranges are the joined bits, as pages. -/
theorem spans_fromDirtyBitmap (bitmap : List UInt64) (startAddr pageSize : Nat) :
    (fromDirtyBitmap bitmap startAddr pageSize).map MemoryRange.span
      = (coalesce joinTouching ((bitPositions bitmap).map fun b => ⟨b, 1⟩)).map
        (Span.scale startAddr pageSize) := by
  rw [fromDirtyBitmap, List.map_map]
  rfl

/-- An address is reported when its bit is set. -/
theorem reported_fromDirtyBitmap (hpage : 0 < pageSize) (a : Nat) :
    reported (fromDirtyBitmap bitmap startAddr pageSize) a
      = if startAddr ≤ a ∧ dirtyBit bitmap ((a - startAddr) / pageSize) = true then 1 else 0 := by
  obtain ⟨hmem, hsorted⟩ := bitPositions_spec bitmap
  rw [reported, spans_fromDirtyBitmap, cover_scale hpage, cover_coalesce, cover_units hsorted]
  simp only [hmem]
  by_cases hstart : startAddr ≤ a
  · simp only [hstart, if_true, true_and]
  · simp only [hstart, if_false, false_and]

/-- A set bit is in one of the words. -/
theorem lt_of_dirtyBit (h : dirtyBit bitmap page = true) : page < 64 * bitmap.length := by
  by_contra hge
  have hout : bitmap.length ≤ page / 64 := by omega
  rw [dirtyBit, getD_eq_default _ _ hout, UInt64.toNat_zero, Nat.zero_testBit] at h
  cases h

/-- A merged range ends inside the bitmap. -/
theorem stop_le_of_coalesce {s : Span}
    (hs : s ∈ coalesce joinTouching ((bitPositions bitmap).map fun b => ⟨b, 1⟩)) :
    s.stop ≤ 64 * bitmap.length := by
  obtain ⟨hmem, hsorted⟩ := bitPositions_spec bitmap
  have hpos := (separated_coalesce (ordered_units hsorted)).2 s hs
  -- the last page of the range is one of the set bits
  have hlast : 0 < cover (coalesce joinTouching ((bitPositions bitmap).map fun b => ⟨b, 1⟩))
      (s.stop - 1) := by
    refine countP_pos_iff.mpr ⟨s, hs, decide_eq_true ?_⟩
    rw [Span.Has, Span.stop]
    omega
  rw [cover_coalesce, cover_units hsorted] at hlast
  split at hlast
  · rename_i hin
    have hlt := lt_of_dirtyBit ((hmem _).mp hin)
    omega
  · cases hlast

/-- No field of the table wraps. -/
theorem wrap_fromDirtyBitmap (hfits : BitmapFits bitmap startAddr pageSize) :
    (fromDirtyBitmap bitmap startAddr pageSize).map MemoryRange.wrap
      = fromDirtyBitmap bitmap startAddr pageSize := by
  refine map_congr_left (fun r hr => ?_) |>.trans (List.map_id _)
  obtain ⟨s, hs, rfl⟩ := List.mem_map.mp hr
  have hstop := Nat.mul_le_mul_right pageSize (stop_le_of_coalesce hs)
  have hends := hfits.ends
  rw [Span.stop, Nat.add_mul] at hstop
  show MemoryRange.mk (_ % _) (_ % _) = _
  rw [Nat.mod_eq_of_lt (by dsimp only; omega), Nat.mod_eq_of_lt (by dsimp only; omega)]
  rfl

/-- **THE TABLE OF A DIRTY BITMAP IS EXACT AND SHORTEST**, for every bitmap whose pages all
    end below `2 ^ 64`.  Nothing wraps, every byte of a page whose bit is set is in one range,
    every other byte in none; the ranges are whole pages in ascending order with a gap between
    any two. -/
theorem from_dirty_bitmap_exact (bitmap : List UInt64) (startAddr : Nat) {pageSize : Nat}
    (hpage : 0 < pageSize) (hfits : BitmapFits bitmap startAddr pageSize) :
    (fromDirtyBitmap bitmap startAddr pageSize).map MemoryRange.wrap
        = fromDirtyBitmap bitmap startAddr pageSize
      ∧ (∀ a, reported (fromDirtyBitmap bitmap startAddr pageSize) a
        = if startAddr ≤ a ∧ dirtyBit bitmap ((a - startAddr) / pageSize) = true then 1 else 0)
      ∧ (fromDirtyBitmap bitmap startAddr pageSize).Pairwise (fun r s => r.gpa + r.length < s.gpa)
      ∧ ∀ r ∈ fromDirtyBitmap bitmap startAddr pageSize,
          0 < r.length ∧ pageSize ∣ r.length ∧ ∃ page, r.gpa = startAddr + page * pageSize := by
  obtain ⟨-, hsorted⟩ := bitPositions_spec bitmap
  obtain ⟨hsep, hpos⟩ := separated_coalesce (ordered_units hsorted)
  refine ⟨wrap_fromDirtyBitmap hfits, reported_fromDirtyBitmap hpage, ?_, ?_⟩
  · refine pairwise_map.mpr (hsep.imp fun {r s} hgap => ?_)
    have hmul : (r.stop + 1) * pageSize ≤ s.start * pageSize := Nat.mul_le_mul_right _ hgap
    rw [Nat.add_mul, Nat.one_mul, Span.stop, Nat.add_mul] at hmul
    dsimp only
    omega
  · intro r hr
    obtain ⟨s, hs, rfl⟩ := List.mem_map.mp hr
    exact ⟨Nat.mul_pos (hpos s hs) hpage, Nat.dvd_mul_left .., s.start, rfl⟩

/-- Pages 1 to 3 and page 64, in two words. -/
theorem two_words_exact :
    reported (fromDirtyBitmap [14, 1] 4096 4096) 20479 = 1
      ∧ reported (fromDirtyBitmap [14, 1] 4096 4096) 20480 = 0 := by
  have hexact := (from_dirty_bitmap_exact [14, 1] 4096 (by decide : 0 < 4096)
    ⟨by decide, by decide⟩).2.1
  exact ⟨(hexact 20479).trans (by decide), (hexact 20480).trans (by decide)⟩

/-! ## Both logs of all mappings -/

/-- What `dirty_log` reads of `guest_ram_mappings`. -/
structure GuestRamMapping where
  gpa : Nat
  size : Nat
  slot : Nat
  deriving DecidableEq

/-- A region of `guest_memory`. -/
structure GuestRegion where
  startAddr : Nat
  len : Nat
  deriving DecidableEq

/-- `vmLog` is the log of the hypervisor by slot, `vmmLog` the bitmap of a region of
    `guest_memory` by its start address. -/
structure MemoryManager where
  guestRamMappings : List GuestRamMapping
  regions : List GuestRegion
  vmLog : Nat → List UInt64
  vmmLog : Nat → List UInt64

/-- How `dirty_log` fails. -/
inductive DirtyLogError where
  | vmDirtyLog (slot : Nat)
  | findRegion (gpa : Nat)
  | assertion
  deriving DecidableEq

/-- `find_region`. -/
def findRegion (regions : List GuestRegion) (a : Nat) : Option GuestRegion :=
  regions.find? fun r => decide (r.startAddr ≤ a ∧ a < r.startAddr + r.len)

/-- A bitmap of the same length with nothing set. -/
def zeros (bitmap : List UInt64) : List UInt64 := List.replicate bitmap.length 0

/-- `get_dirty_log` gives the log of a slot and clears it. -/
def MemoryManager.clearVm (mm : MemoryManager) (slot : Nat) : MemoryManager :=
  { mm with vmLog := update mm.vmLog slot (zeros (mm.vmLog slot)) }

/-- `get_and_reset` of a region's bitmap. -/
def MemoryManager.clearVmm (mm : MemoryManager) (startAddr : Nat) : MemoryManager :=
  { mm with vmmLog := update mm.vmmLog startAddr (zeros (mm.vmmLog startAddr)) }

/-- The loop of `dirty_log`; `vmFails` says for which slots the hypervisor returns an
    error. -/
def dirtyLogLoop (vmFails : Nat → Bool) :
    List GuestRamMapping → MemoryManager → Except DirtyLogError MemoryRangeTable × MemoryManager
  | [], mm => (.ok [], mm)
  | r :: rs, mm =>
    if vmFails r.slot then (.error (.vmDirtyLog r.slot), mm)
    else
      let vmDirtyBitmap := mm.vmLog r.slot
      let mm₁ := mm.clearVm r.slot
      match findRegion mm.regions r.gpa with
      | none => (.error (.findRegion r.gpa), mm₁)
      | some region =>
        if region.startAddr = r.gpa ∧ region.len = r.size then
          let vmmDirtyBitmap := mm.vmmLog region.startAddr
          let mm₂ := mm₁.clearVmm region.startAddr
          let dirtyBitmap := List.zipWith (· ||| ·) vmDirtyBitmap vmmDirtyBitmap
          let subTable := fromDirtyBitmap dirtyBitmap r.gpa 4096
          match dirtyLogLoop vmFails rs mm₂ with
          | (.ok table, mm₃) => (.ok (subTable ++ table), mm₃)
          | (.error e, mm₃) => (.error e, mm₃)
        else (.error .assertion, mm₁)

/-- `MemoryManager::dirty_log`. -/
def dirtyLog (vmFails : Nat → Bool) (mm : MemoryManager) :
    Except DirtyLogError MemoryRangeTable × MemoryManager :=
  dirtyLogLoop vmFails mm.guestRamMappings mm

/-- Each mapping is one region of guest memory, has its own slot, and its two bitmaps have one
    length. -/
structure Mapped (ms : List GuestRamMapping) (mm : MemoryManager) : Prop where
  found : ∀ m ∈ ms, findRegion mm.regions m.gpa = some ⟨m.gpa, m.size⟩
  slots : ms.Pairwise fun m n => m.slot ≠ n.slot
  starts : ms.Pairwise fun m n => m.gpa ≠ n.gpa
  lengths : ∀ m ∈ ms, (mm.vmLog m.slot).length = (mm.vmmLog m.gpa).length

/-- The page is in one of the two logs of the mapping. -/
def GuestRamMapping.Dirty (mm : MemoryManager) (m : GuestRamMapping) (a : Nat) : Prop :=
  m.gpa ≤ a ∧ (dirtyBit (mm.vmLog m.slot) ((a - m.gpa) / 4096) = true
    ∨ dirtyBit (mm.vmmLog m.gpa) ((a - m.gpa) / 4096) = true)

instance decidableDirty (mm : MemoryManager) (m : GuestRamMapping) (a : Nat) :
    Decidable (m.Dirty mm a) :=
  inferInstanceAs (Decidable (_ ∧ (_ ∨ _)))

/-- A bit of either log is a bit of both together. -/
theorem dirtyBit_zipWith_or {xs ys : List UInt64} (h : xs.length = ys.length) (p : Nat) :
    dirtyBit (List.zipWith (· ||| ·) xs ys) p = (dirtyBit xs p || dirtyBit ys p) := by
  rw [dirtyBit, dirtyBit, dirtyBit]
  by_cases hp : p / 64 < xs.length
  · rw [getD_eq_getElem _ _ (by rw [length_zipWith]; omega), getElem_zipWith,
      getD_eq_getElem _ _ hp, getD_eq_getElem _ _ (h ▸ hp), UInt64.toNat_or,
      Nat.testBit_or]
  · rw [getD_eq_default _ _ (by rw [length_zipWith]; omega),
      getD_eq_default _ _ (by omega), getD_eq_default _ _ (by omega)]
    simp

theorem dirtyBit_zeros (bitmap : List UInt64) (p : Nat) : dirtyBit (zeros bitmap) p = false := by
  rw [dirtyBit, zeros, getD_eq_getElem?_getD, getElem?_replicate]
  split <;> simp

theorem length_zeros (bitmap : List UInt64) : (zeros bitmap).length = bitmap.length :=
  length_replicate

/-- Both logs of a mapping read and cleared. -/
def MemoryManager.takeLogs (mm : MemoryManager) (m : GuestRamMapping) : MemoryManager :=
  (mm.clearVm m.slot).clearVmm m.gpa

variable {ms : List GuestRamMapping} {mm mm' : MemoryManager} {m : GuestRamMapping}

/-- One turn of the loop on a mapping that is found. -/
theorem dirtyLogLoop_cons (hfound : findRegion mm.regions m.gpa = some ⟨m.gpa, m.size⟩)
    {table : MemoryRangeTable}
    (hrest : dirtyLogLoop (fun _ => false) ms (mm.takeLogs m) = (.ok table, mm')) :
    dirtyLogLoop (fun _ => false) (m :: ms) mm
      = (.ok (fromDirtyBitmap
          (List.zipWith (· ||| ·) (mm.vmLog m.slot) (mm.vmmLog m.gpa)) m.gpa 4096 ++ table),
        mm') := by
  rw [MemoryManager.takeLogs] at hrest
  rw [dirtyLogLoop, if_neg Bool.false_ne_true, hfound]
  dsimp only
  rw [if_pos ⟨rfl, rfl⟩, hrest]

section TakeLogs

variable {mm : MemoryManager} {m n : GuestRamMapping}

/-- The logs of other mappings are left. -/
theorem takeLogs_other (hslot : m.slot ≠ n.slot) (hgpa : m.gpa ≠ n.gpa) :
    (mm.takeLogs m).vmLog n.slot = mm.vmLog n.slot
      ∧ (mm.takeLogs m).vmmLog n.gpa = mm.vmmLog n.gpa :=
  ⟨update_of_ne hslot.symm _ _, update_of_ne hgpa.symm _ _⟩

theorem takeLogs_self :
    (mm.takeLogs m).vmLog m.slot = zeros (mm.vmLog m.slot)
      ∧ (mm.takeLogs m).vmmLog m.gpa = zeros (mm.vmmLog m.gpa) :=
  ⟨update_self .., update_self ..⟩

/-- Taking the logs of one mapping leaves the other mappings as they were. -/
theorem dirty_takeLogs_other (hslot : m.slot ≠ n.slot) (hgpa : m.gpa ≠ n.gpa) (a : Nat) :
    n.Dirty (mm.takeLogs m) a ↔ n.Dirty mm a := by
  have hvm : (mm.takeLogs m).vmLog n.slot = mm.vmLog n.slot := (takeLogs_other hslot hgpa).1
  have hvmm : (mm.takeLogs m).vmmLog n.gpa = mm.vmmLog n.gpa := (takeLogs_other hslot hgpa).2
  rw [GuestRamMapping.Dirty, GuestRamMapping.Dirty, hvm, hvmm]

/-- A log that was taken is clean. -/
theorem not_dirty_takeLogs_self (a : Nat) : ¬ m.Dirty (mm.takeLogs m) a := by
  rintro ⟨-, hvm | hvmm⟩
  · rw [takeLogs_self.1, dirtyBit_zeros] at hvm
    cases hvm
  · rw [takeLogs_self.2, dirtyBit_zeros] at hvmm
    cases hvmm

end TakeLogs

/-- Nothing but logs changes, and none becomes longer. -/
def SameLayout (mm mm' : MemoryManager) : Prop :=
  mm'.guestRamMappings = mm.guestRamMappings ∧ mm'.regions = mm.regions
    ∧ (∀ s, (mm'.vmLog s).length = (mm.vmLog s).length)
    ∧ ∀ g, (mm'.vmmLog g).length = (mm.vmmLog g).length

theorem SameLayout.trans {mm₁ mm₂ mm₃ : MemoryManager} (h : SameLayout mm₁ mm₂)
    (h' : SameLayout mm₂ mm₃) : SameLayout mm₁ mm₃ :=
  ⟨h'.1.trans h.1, h'.2.1.trans h.2.1, fun s => (h'.2.2.1 s).trans (h.2.2.1 s),
    fun g => (h'.2.2.2 g).trans (h.2.2.2 g)⟩

theorem length_update_zeros (log : Nat → List UInt64) (k i : Nat) :
    (update log k (zeros (log k)) i).length = (log i).length := by
  by_cases hi : i = k
  · rw [hi, update_self, length_zeros]
  · rw [update_of_ne hi]

/-- Taking a log moves no mapping. -/
theorem sameLayout_takeLogs (mm : MemoryManager) (m : GuestRamMapping) :
    SameLayout mm (mm.takeLogs m) :=
  ⟨rfl, rfl, length_update_zeros mm.vmLog m.slot, length_update_zeros mm.vmmLog m.gpa⟩

theorem Mapped.of_sameLayout (h : Mapped ms mm) (hsame : SameLayout mm mm') : Mapped ms mm' := by
  obtain ⟨-, hregions, hvm, hvmm⟩ := hsame
  refine ⟨fun m hm => hregions ▸ h.found m hm, h.slots, h.starts, fun m hm => ?_⟩
  rw [hvm, hvmm]
  exact h.lengths m hm

theorem Mapped.tail (h : Mapped (m :: ms) mm) : Mapped ms mm :=
  ⟨fun n hn => h.found n (mem_cons_of_mem _ hn), h.slots.tail, h.starts.tail,
    fun n hn => h.lengths n (mem_cons_of_mem _ hn)⟩

theorem reported_append (t u : MemoryRangeTable) (a : Nat) :
    reported (t ++ u) a = reported t a + reported u a := by
  rw [reported, map_append, cover_append]
  rfl

/-- How many of the mappings have the page of the address in a log. -/
def dirtyIn (ms : List GuestRamMapping) (mm : MemoryManager) (a : Nat) : Nat :=
  ms.countP fun m => m.Dirty mm a

theorem dirtyIn_cons (m : GuestRamMapping) (ms : List GuestRamMapping) (mm : MemoryManager)
    (a : Nat) : dirtyIn (m :: ms) mm a = (if m.Dirty mm a then 1 else 0) + dirtyIn ms mm a := by
  simp only [dirtyIn, countP_cons, decide_eq_true_eq, Nat.add_comm]

/-- The loop reports what is dirty and leaves it clean. -/
theorem dirtyLogLoop_spec (h : Mapped ms mm) :
    ∃ table mm', dirtyLogLoop (fun _ => false) ms mm = (.ok table, mm')
      ∧ (∀ a, reported table a = dirtyIn ms mm a)
      ∧ SameLayout mm mm' ∧ (∀ m ∈ ms, ∀ a, ¬ m.Dirty mm' a)
      ∧ ∀ n : GuestRamMapping, (∀ m ∈ ms, m.slot ≠ n.slot ∧ m.gpa ≠ n.gpa) →
          ∀ a, n.Dirty mm' a ↔ n.Dirty mm a := by
  induction ms generalizing mm with
  | nil =>
    exact ⟨[], mm, rfl, fun _ => rfl, ⟨rfl, rfl, fun _ => rfl, fun _ => rfl⟩,
      fun m hm => absurd hm not_mem_nil, fun _ _ _ => Iff.rfl⟩
  | cons m ms ih =>
    have hlayout := sameLayout_takeLogs mm m
    have hslots := (pairwise_cons.mp h.slots).1
    have hstarts := (pairwise_cons.mp h.starts).1
    obtain ⟨table, mm', hrun, htable, hsame, hclean, hother⟩ := ih (h.tail.of_sameLayout hlayout)
    refine ⟨_, mm', dirtyLogLoop_cons (h.found m mem_cons_self) hrun, fun a => ?_,
      hlayout.trans hsame, fun n hn a => ?_, fun n hn a => ?_⟩
    · -- the logs of the other mappings have not been touched by this turn
      have hrest : dirtyIn ms (mm.takeLogs m) a = dirtyIn ms mm a := by
        refine countP_congr fun n hn => ?_
        simp only [decide_eq_true_eq]
        exact dirty_takeLogs_other (hslots n hn) (hstarts n hn) a
      rw [reported_append, htable, hrest, reported_fromDirtyBitmap (by decide),
        dirtyBit_zipWith_or (h.lengths m mem_cons_self), dirtyIn_cons]
      simp only [Bool.or_eq_true]
      rfl
    · rcases mem_cons.mp hn with rfl | hn
      · have hkept := hother n fun k hk => ⟨(hslots k hk).symm, (hstarts k hk).symm⟩
        rw [hkept]
        exact not_dirty_takeLogs_self a
      · exact hclean n hn a
    · have hm := hn m mem_cons_self
      rw [hother n fun k hk => hn k (mem_cons_of_mem _ hk)]
      exact dirty_takeLogs_other hm.1 hm.2 a

/-- **`dirty_log` TAKES WHAT HAS BEEN WRITTEN, ONCE.**  For mappings with their own slots and
    regions it succeeds; every byte is reported once for each mapping that has its page in the
    hypervisor's or the VMM's log; and it leaves a memory manager with the same mappings and
    nothing dirty, on which it can be called again. -/
theorem dirty_log_takes_all {mm : MemoryManager} (h : Mapped mm.guestRamMappings mm) :
    ∃ table mm', dirtyLog (fun _ => false) mm = (.ok table, mm')
      ∧ (∀ a, reported table a = dirtyIn mm.guestRamMappings mm a)
      ∧ mm'.guestRamMappings = mm.guestRamMappings ∧ Mapped mm'.guestRamMappings mm'
      ∧ ∀ a, dirtyIn mm'.guestRamMappings mm' a = 0 := by
  obtain ⟨table, mm', hrun, htable, hsame, hclean, -⟩ := dirtyLogLoop_spec h
  refine ⟨table, mm', hrun, htable, hsame.1, hsame.1.symm ▸ h.of_sameLayout hsame, fun a => ?_⟩
  rw [hsame.1, dirtyIn, countP_eq_zero]
  intro m hm
  rw [decide_eq_true_eq]
  exact hclean m hm a

/-- Two mappings, page 3 of the first one in the VMM's log and page 0 of the second one in the
    hypervisor's. -/
def twoMappings : MemoryManager where
  guestRamMappings := [⟨0, 262144, 0⟩, ⟨4294967296, 262144, 1⟩]
  regions := [⟨0, 262144⟩, ⟨4294967296, 262144⟩]
  vmLog := fun slot => if slot = 1 then [1] else [0]
  vmmLog := fun startAddr => if startAddr = 0 then [8] else [0]

theorem twoMappings_taken :
    ∃ table mm', dirtyLog (fun _ => false) twoMappings = (.ok table, mm')
      ∧ reported table 12288 = 1 ∧ reported table 4294967296 = 1 ∧ reported table 0 = 0 := by
  have hmapped : Mapped twoMappings.guestRamMappings twoMappings :=
    ⟨by decide, by decide, by decide, by decide⟩
  obtain ⟨table, mm', hrun, htable, -⟩ := dirty_log_takes_all hmapped
  exact ⟨table, mm', hrun, (htable _).trans (by decide), (htable _).trans (by decide),
    (htable _).trans (by decide)⟩

end DirtyLog
