import DemoStore.SnapshotDriverProofs
import Mathlib.Data.Finset.Card
import Mathlib.Data.Finset.Range

/-! # The sections of the page pool

    `snapshot_pool_add` drops the lock between its two checks and `snapshot_pool_unref`
    frees after it, so entries exist that no bucket holds: those still being built and
    those being torn down.  This file cuts the pool functions into what happens under
    the lock and what happens outside of it.

    `PoolInv s c` compares the pool with a count `c` of the references that are out.
    Every section is one lemma that says how it moves the count; entries outside the
    buckets can be changed at will. -/

namespace PoolSection

open ObjectHeap SnapshotDriver
open Function (update update_idem update_of_ne update_self)

/-- The pool and the memory of its entries. -/
structure PoolState where
  pool : GlobalPagePool
  entries : Heap PhysPageEntry
  oops : Bool

/-- The entry hangs in the bucket of its hash. -/
def Linked (s : PoolState) (e : Nat) : Prop :=
  e ∈ s.pool.buckets (hashToBucket (s.entries.val e).hashIdx)

instance (s : PoolState) : DecidablePred (Linked s) :=
  fun e => inferInstanceAs (Decidable (e ∈ s.pool.buckets _))

/-- The entries in the buckets. -/
def linkedEntries (s : PoolState) : Finset Nat :=
  (Finset.range s.entries.next).filter (Linked s)

/-! ## The sections -/

/-- The loop over a bucket. -/
def find (s : PoolState) (h : UInt64) : Option Nat :=
  (s.pool.buckets (hashToBucket h)).find? fun e => (s.entries.val e).hashIdx == h

/-- A change of one entry. -/
def modify (s : PoolState) (e : Nat) (g : PhysPageEntry → PhysPageEntry) : PoolState :=
  { s with entries := s.entries.modify e g }

/-- `atomic_inc`. -/
def incRef (s : PoolState) (e : Nat) : PoolState := modify s e (PhysPageEntry.addRef 1)

/-- `hlist_add_head` and `total_pages++`. -/
def link (s : PoolState) (e : Nat) : PoolState :=
  let b := hashToBucket (s.entries.val e).hashIdx
  let pool := s.pool.setBucket b (e :: s.pool.buckets b)
  { s with pool := { pool with totalPages := pool.totalPages + 1 } }

/-- `hlist_del` and `total_pages--`.  The links of an entry that is in no bucket are poisoned:
    `hlist_del` oopses on them. -/
def unlink (s : PoolState) (e : Nat) : PoolState :=
  let b := hashToBucket (s.entries.val e).hashIdx
  let pool := s.pool.setBucket b ((s.pool.buckets b).erase e)
  { s with
    pool := { pool with totalPages := pool.totalPages - 1 }
    oops := s.oops || !(s.pool.buckets b).contains e }

/-- `kzalloc`. -/
def allocEntry (s : PoolState) : PoolState :=
  { s with entries := s.entries.alloc ⟨0, [], 0, 0⟩ }

/-- What `snapshot_pool_add` stores in its new entry, once it has a page. -/
def fillEntry (s : PoolState) (e : Nat) (h : UInt64) (data : List UInt8) : PoolState :=
  modify s e fun _ => ⟨h, data, 1, 1⟩

/-- `__free_page` of the entry's page. -/
def freePage (s : PoolState) (e : Nat) : PoolState :=
  modify s e (PhysPageEntry.addPageRefs (-1))

/-- `kfree`. -/
def freeEntry (s : PoolState) (e : Nat) : PoolState :=
  { s with entries := s.entries.free e }

/-- `atomic_dec_and_test`; the test. -/
def decRef (s : PoolState) (e : Nat) : PoolState := modify s e (PhysPageEntry.addRef (-1))

/-- The sections of an add that finds nothing and has its allocations, in a row. -/
def added (core : PoolState) (h : UInt64) (data : List UInt8) : PoolState :=
  link (fillEntry (allocEntry core) core.entries.next h data) core.entries.next

/-- The part of the driver's state that the pool functions see. -/
def coreOf (d : DriverState) : PoolState := ⟨d.pool, d.entries, d.oops⟩

/-- Run in a row, the sections are the sequential function. -/
theorem added_coreOf (d : DriverState) (h : UInt64) (data : List UInt8) :
    added (coreOf d) h data = coreOf (linkEntry d h data) := by
  have hentries : (d.entries.alloc ⟨0, [], 0, 0⟩).modify d.entries.next
      (fun _ => ⟨h, data, 1, 1⟩) = d.entries.alloc ⟨h, data, 1, 1⟩ := by
    rw [Heap.modify, Heap.alloc, Heap.alloc, update_idem]
  have hself : (d.entries.alloc ⟨h, data, 1, 1⟩).val d.entries.next = ⟨h, data, 1, 1⟩ :=
    val_alloc_self _ _
  show link ⟨d.pool, (d.entries.alloc ⟨0, [], 0, 0⟩).modify d.entries.next
    fun _ => ⟨h, data, 1, 1⟩, d.oops⟩ d.entries.next = _
  rw [hentries, link]
  dsimp only
  rw [hself]
  rfl

theorem coreOf_dropEntry (d : DriverState) (e : Nat) :
    coreOf (dropEntry { d with entries := d.entries.modify e (PhysPageEntry.addRef (-1)) } e)
      = freeEntry (freePage (unlink (decRef (coreOf d) e) e) e) e := rfl

/-! ## The invariant -/

/-- The buckets against the count `c` of the references that are out: one entry for a hash,
    in the bucket of that hash, allocated, with a count of its references. -/
structure PoolInv (s : PoolState) (c : Nat → Nat) : Prop where
  inPlace : ∀ b, ∀ e ∈ s.pool.buckets b, hashToBucket (s.entries.val e).hashIdx = b
  nodup : ∀ b, (s.pool.buckets b).Nodup
  unique : ∀ e e', Linked s e → Linked s e' →
    (s.entries.val e).hashIdx = (s.entries.val e').hashIdx → e = e'
  below : ∀ e, Linked s e → e < s.entries.next
  live : ∀ e, Linked s e → s.entries.live e = true
  counts : ∀ e, Linked s e → (s.entries.val e).refCount.toNat = c e ∧ 0 < c e
  uncounted : ∀ e, ¬ Linked s e → c e = 0
  total : s.pool.totalPages = BitVec.ofNat 64 (linkedEntries s).card

section Sections

variable {s w : PoolState} {c : Nat → Nat} {e : Nat} {k : UInt64}

/-- An entry is in no bucket but its own. -/
theorem PoolInv.linked_iff (h : PoolInv s c) : Linked s e ↔ ∃ b, e ∈ s.pool.buckets b := by
  constructor
  · exact fun he => ⟨_, he⟩
  · rintro ⟨b, he⟩
    rw [Linked, h.inPlace b e he]
    exact he

/-- References are only out on linked entries. -/
theorem PoolInv.linked_of_pos (h : PoolInv s c) (he : 0 < c e) : Linked s e := by
  by_contra hnot
  rw [h.uncounted e hnot] at he
  exact Nat.lt_irrefl 0 he

/-- What a check under the lock finds. -/
theorem PoolInv.find_some (h : PoolInv s c) (hfind : find s k = some e) :
    Linked s e ∧ (s.entries.val e).hashIdx = k := by
  have hbeq := List.find?_some hfind
  exact ⟨h.linked_iff.mpr ⟨_, List.mem_of_find?_eq_some hfind⟩, eq_of_beq hbeq⟩

theorem find_none (hfind : find s k = none) (he : Linked s e) : (s.entries.val e).hashIdx ≠ k := by
  intro hk
  rw [Linked, hk] at he
  refine (List.find?_eq_none.mp hfind e he) ?_
  rw [hk]
  exact beq_self_eq_true k

/-- A linked entry is found under its hash. -/
theorem PoolInv.find_of_linked (h : PoolInv s c) (he : Linked s e) :
    find s (s.entries.val e).hashIdx = some e := by
  cases hfind : find s (s.entries.val e).hashIdx with
  | none => exact absurd rfl (find_none hfind he)
  | some e' =>
    obtain ⟨he', hhash⟩ := h.find_some hfind
    rw [h.unique e' e he' he hhash]

/-- The count of linked entries, for invariants that keep the links. -/
theorem linkedEntries_congr (h : PoolInv s c) (hnext : s.entries.next ≤ w.entries.next)
    (hlinked : ∀ e, Linked w e ↔ Linked s e) : linkedEntries w = linkedEntries s := by
  ext e
  rw [linkedEntries, linkedEntries, Finset.mem_filter, Finset.mem_filter, Finset.mem_range,
    Finset.mem_range, hlinked]
  constructor
  · rintro ⟨-, he⟩
    exact ⟨h.below e he, he⟩
  · rintro ⟨hlt, he⟩
    exact ⟨Nat.lt_of_lt_of_le hlt hnext, he⟩

/-- **What happens outside of the buckets keeps the invariant.** -/
theorem PoolInv.outside (h : PoolInv s c) (hpool : w.pool = s.pool)
    (hnext : s.entries.next ≤ w.entries.next)
    (hsame : ∀ e, Linked s e → w.entries.val e = s.entries.val e
      ∧ w.entries.live e = s.entries.live e) :
    PoolInv w c ∧ ∀ e, Linked w e ↔ Linked s e := by
  have hlinked : ∀ e, Linked w e ↔ Linked s e := by
    intro e
    constructor
    · intro he
      rw [Linked, hpool] at he
      exact h.linked_iff.mpr ⟨_, he⟩
    · intro he
      rw [Linked, hpool, (hsame e he).1]
      exact he
  refine ⟨⟨?_, ?_, ?_, ?_, ?_, ?_, ?_, ?_⟩, hlinked⟩
  · intro b e he
    rw [hpool] at he
    rw [(hsame e (h.linked_iff.mpr ⟨b, he⟩)).1]
    exact h.inPlace b e he
  · rw [hpool]
    exact h.nodup
  · intro e e' he he' hhash
    rw [hlinked] at he he'
    rw [(hsame e he).1, (hsame e' he').1] at hhash
    exact h.unique e e' he he' hhash
  · exact fun e he => Nat.lt_of_lt_of_le (h.below e ((hlinked e).mp he)) hnext
  · intro e he
    rw [hlinked] at he
    rw [(hsame e he).2]
    exact h.live e he
  · intro e he
    rw [hlinked] at he
    rw [(hsame e he).1]
    exact h.counts e he
  · exact fun e he => h.uncounted e (fun hl => he ((hlinked e).mpr hl))
  · rw [hpool, linkedEntries_congr h hnext hlinked]
    exact h.total

/-- A linked entry changes its counts. -/
theorem PoolInv.counted (h : PoolInv s c) (he : Linked s e)
    {g : PhysPageEntry → PhysPageEntry}
    (hhash : (g (s.entries.val e)).hashIdx = (s.entries.val e).hashIdx) {k : Nat}
    (hk : (g (s.entries.val e)).refCount.toNat = k ∧ 0 < k) :
    PoolInv (modify s e g) (update c e k)
      ∧ ∀ e', Linked (modify s e g) e' ↔ Linked s e' := by
  have hsame : ∀ e', ((modify s e g).entries.val e').hashIdx = (s.entries.val e').hashIdx := by
    intro e'
    show ((s.entries.modify e g).val e').hashIdx = _
    by_cases hee : e' = e
    · rw [hee, val_modify_self]
      exact hhash
    · rw [val_modify_of_ne _ _ hee]
  have hlinked : ∀ e', Linked (modify s e g) e' ↔ Linked s e' := by
    intro e'
    rw [Linked, hsame]
    exact Iff.rfl
  refine ⟨⟨?_, h.nodup, ?_, ?_, ?_, ?_, ?_, ?_⟩, hlinked⟩
  · intro b e' he'
    rw [hsame]
    exact h.inPlace b e' he'
  · intro e₁ e₂ h₁ h₂ heq
    rw [hsame, hsame] at heq
    exact h.unique e₁ e₂ ((hlinked e₁).mp h₁) ((hlinked e₂).mp h₂) heq
  · exact fun e' he' => h.below e' ((hlinked e').mp he')
  · exact fun e' he' => h.live e' ((hlinked e').mp he')
  · intro e' he'
    show ((s.entries.modify e g).val e').refCount.toNat = _ ∧ _
    by_cases hee : e' = e
    · rw [hee, val_modify_self, update_self]
      exact hk
    · rw [val_modify_of_ne _ _ hee, update_of_ne hee]
      exact h.counts e' ((hlinked e').mp he')
  · intro e' he'
    have hee : e' ≠ e := fun heq => he' ((hlinked e').mpr (heq ▸ he))
    rw [update_of_ne hee]
    exact h.uncounted e' (fun hl => he' ((hlinked e').mpr hl))
  · rw [linkedEntries_congr (w := modify s e g) h (Nat.le_refl _) hlinked]
    exact h.total

/-- The word after an increment. -/
theorem PoolInv.toNat_inc (h : PoolInv s c) (he : Linked s e) (hbound : c e + 1 < 2 ^ 32) :
    ((s.entries.val e).addRef 1).refCount.toNat = c e + 1 := by
  show ((s.entries.val e).refCount + 1).toNat = _
  rw [BitVec.toNat_add, (h.counts e he).1]
  exact Nat.mod_eq_of_lt hbound

/-- **`atomic_inc` on a linked entry.** -/
theorem poolInv_incRef (h : PoolInv s c) (he : Linked s e) (hbound : c e + 1 < 2 ^ 32) :
    PoolInv (incRef s e) (update c e (c e + 1))
      ∧ ∀ e', Linked (incRef s e) e' ↔ Linked s e' :=
  h.counted he (g := PhysPageEntry.addRef 1) rfl ⟨h.toNat_inc he hbound, Nat.succ_pos _⟩

/-- The word after a decrement. -/
theorem PoolInv.toNat_dec (h : PoolInv s c) (he : Linked s e) :
    ((s.entries.val e).addRef (-1)).refCount.toNat = c e - 1 := by
  obtain ⟨hcount, hpos⟩ := h.counts e he
  show ((s.entries.val e).refCount + -1).toNat = _
  rw [← hcount] at hpos ⊢
  bv_omega

/-- The test of `atomic_dec_and_test` is true exactly for the last reference. -/
theorem PoolInv.dec_zero_iff (h : PoolInv s c) (he : Linked s e) :
    ((decRef s e).entries.val e).refCount = 0 ↔ c e = 1 := by
  have hdec := h.toNat_dec he
  have hpos := (h.counts e he).2
  have hval : (decRef s e).entries.val e = (s.entries.val e).addRef (-1) := val_modify_self _ _ _
  rw [hval]
  constructor
  · intro hzero
    rw [hzero] at hdec
    have hnil : (0 : Atomic).toNat = 0 := rfl
    omega
  · intro hone
    refine BitVec.eq_of_toNat_eq ?_
    rw [hdec, hone]
    rfl

/-- **A decrement that is not the last.** -/
theorem poolInv_decRef (h : PoolInv s c) (he : Linked s e) (hmore : c e ≠ 1) :
    PoolInv (decRef s e) (update c e (c e - 1))
      ∧ ∀ e', Linked (decRef s e) e' ↔ Linked s e' := by
  have hpos := (h.counts e he).2
  exact h.counted he (hashIdx_addRef _ _) ⟨h.toNat_dec he, by omega⟩

/-! ### Linking and unlinking -/

theorem mem_buckets_link (s : PoolState) (e b e' : Nat) :
    e' ∈ (link s e).pool.buckets b
      ↔ (e' = e ∧ b = hashToBucket (s.entries.val e).hashIdx) ∨ e' ∈ s.pool.buckets b :=
  mem_buckets_cons s.pool (hashToBucket (s.entries.val e).hashIdx) e b e'

theorem linked_link (s : PoolState) (e e' : Nat) : Linked (link s e) e' ↔ e' = e ∨ Linked s e' := by
  show e' ∈ (link s e).pool.buckets (hashToBucket (s.entries.val e').hashIdx) ↔ _
  rw [mem_buckets_link]
  constructor
  · rintro (⟨rfl, -⟩ | he)
    · exact .inl rfl
    · exact .inr he
  · rintro (rfl | he)
    · exact .inl ⟨rfl, rfl⟩
    · exact .inr he

/-- **Linking a new entry** whose hash is not in the pool. -/
theorem poolInv_link (h : PoolInv s c) (hnot : ¬ Linked s e) (hlt : e < s.entries.next)
    (hlive : s.entries.live e = true) (hone : (s.entries.val e).refCount = 1)
    (hnew : ∀ e', Linked s e' → (s.entries.val e').hashIdx ≠ (s.entries.val e).hashIdx) :
    PoolInv (link s e) (update c e 1) := by
  have hout : ∀ b, e ∉ s.pool.buckets b := fun b hb => hnot (h.linked_iff.mpr ⟨b, hb⟩)
  have hcard : linkedEntries (link s e) = insert e (linkedEntries s) := by
    ext e'
    rw [Finset.mem_insert, linkedEntries, linkedEntries, Finset.mem_filter, Finset.mem_filter,
      linked_link]
    show e' ∈ Finset.range s.entries.next ∧ _ ↔ _
    constructor
    · rintro ⟨hr, rfl | he'⟩
      · exact .inl rfl
      · exact .inr ⟨hr, he'⟩
    · rintro (rfl | ⟨hr, he'⟩)
      · exact ⟨Finset.mem_range.mpr hlt, .inl rfl⟩
      · exact ⟨hr, .inr he'⟩
  constructor
  case inPlace =>
    intro b e' he'
    rcases (mem_buckets_link s e b e').mp he' with ⟨rfl, rfl⟩ | he'
    · rfl
    · exact h.inPlace b e' he'
  case nodup => exact nodup_buckets_cons h.nodup (hout _)
  case unique =>
    intro e₁ e₂ h₁ h₂ heq
    rcases (linked_link s e e₁).mp h₁ with he₁ | h₁ <;>
      rcases (linked_link s e e₂).mp h₂ with he₂ | h₂
    · exact he₁.trans he₂.symm
    · rw [he₁] at heq
      exact absurd heq.symm (hnew e₂ h₂)
    · rw [he₂] at heq
      exact absurd heq (hnew e₁ h₁)
    · exact h.unique e₁ e₂ h₁ h₂ heq
  case below =>
    intro e' he'
    rcases (linked_link s e e').mp he' with rfl | he'
    · exact hlt
    · exact h.below e' he'
  case live =>
    intro e' he'
    rcases (linked_link s e e').mp he' with rfl | he'
    · exact hlive
    · exact h.live e' he'
  case counts =>
    intro e' he'
    show (s.entries.val e').refCount.toNat = _ ∧ _
    by_cases hee : e' = e
    · rw [hee, update_self, hone]
      exact ⟨rfl, Nat.one_pos⟩
    · rw [update_of_ne hee]
      exact h.counts e' (((linked_link s e e').mp he').resolve_left hee)
  case uncounted =>
    intro e' he'
    have hee : e' ≠ e := fun heq => he' ((linked_link s e e').mpr (.inl heq))
    rw [update_of_ne hee]
    exact h.uncounted e' (fun hl => he' ((linked_link s e e').mpr (.inr hl)))
  case total =>
    have hfresh : e ∉ linkedEntries s := fun hin => hnot (Finset.mem_filter.mp hin).2
    rw [hcard, Finset.card_insert_of_notMem hfresh, BitVec.ofNat_add]
    exact congrArg (· + 1) h.total

/-- Unlinking takes the entry out of its bucket and touches no other. -/
theorem linked_unlink (h : PoolInv s c) (e e' : Nat) :
    (∀ b, e' ∈ (unlink (decRef s e) e).pool.buckets b ↔ e' ≠ e ∧ e' ∈ s.pool.buckets b)
      ∧ (Linked (unlink (decRef s e) e) e' ↔ e' ≠ e ∧ Linked s e') := by
  have hhash : ∀ e', ((decRef s e).entries.val e').hashIdx = (s.entries.val e').hashIdx := by
    intro e'
    show ((s.entries.modify e _).val e').hashIdx = _
    by_cases hee : e' = e
    · rw [hee, val_modify_self, hashIdx_addRef]
    · rw [val_modify_of_ne _ _ hee]
  have hmem : ∀ b, e' ∈ (unlink (decRef s e) e).pool.buckets b
      ↔ e' ≠ e ∧ e' ∈ s.pool.buckets b := by
    intro b
    refine mem_buckets_erase h.nodup ?_ b e'
    intro b' hin
    rw [hhash]
    exact h.inPlace b' e hin
  refine ⟨hmem, ?_⟩
  show e' ∈ (unlink (decRef s e) e).pool.buckets
    (hashToBucket ((decRef s e).entries.val e').hashIdx) ↔ _
  rw [hmem, hhash]
  exact Iff.rfl

/-- **The last decrement** unlinks the entry. -/
theorem poolInv_unlink (h : PoolInv s c) (he : Linked s e) :
    PoolInv (unlink (decRef s e) e) (update c e 0) := by
  have hmem := fun e' => (linked_unlink h e e').1
  have hlinked := fun e' => (linked_unlink h e e').2
  have hval : ∀ e', e' ≠ e →
      (unlink (decRef s e) e).entries.val e' = s.entries.val e' :=
    fun e' hee => val_modify_of_ne _ _ hee
  have hcard : linkedEntries (unlink (decRef s e) e) = (linkedEntries s).erase e := by
    ext e'
    rw [Finset.mem_erase, linkedEntries, linkedEntries, Finset.mem_filter, Finset.mem_filter,
      hlinked]
    show e' ∈ Finset.range s.entries.next ∧ _ ↔ _
    constructor
    · rintro ⟨hr, hee, he'⟩
      exact ⟨hee, hr, he'⟩
    · rintro ⟨hee, hr, he'⟩
      exact ⟨hr, hee, he'⟩
  constructor
  case inPlace =>
    intro b e' he'
    obtain ⟨hee, he'⟩ := (hmem e' b).mp he'
    rw [hval e' hee]
    exact h.inPlace b e' he'
  case nodup => exact nodup_buckets_erase h.nodup _ e
  case unique =>
    intro e₁ e₂ h₁ h₂ heq
    obtain ⟨hne₁, h₁⟩ := (hlinked e₁).mp h₁
    obtain ⟨hne₂, h₂⟩ := (hlinked e₂).mp h₂
    rw [hval e₁ hne₁, hval e₂ hne₂] at heq
    exact h.unique e₁ e₂ h₁ h₂ heq
  case below => exact fun e' he' => h.below e' ((hlinked e').mp he').2
  case live => exact fun e' he' => h.live e' ((hlinked e').mp he').2
  case counts =>
    intro e' he'
    obtain ⟨hee, he'⟩ := (hlinked e').mp he'
    rw [hval e' hee, update_of_ne hee]
    exact h.counts e' he'
  case uncounted =>
    intro e' he'
    by_cases hee : e' = e
    · rw [hee, update_self]
    · rw [update_of_ne hee]
      exact h.uncounted e' (fun hl => he' ((hlinked e').mpr ⟨hee, hl⟩))
  case total =>
    have hin : e ∈ linkedEntries s :=
      Finset.mem_filter.mpr ⟨Finset.mem_range.mpr (h.below e he), he⟩
    obtain ⟨m, hm⟩ : ∃ m, (linkedEntries s).card = m + 1 :=
      ⟨_, (Nat.succ_pred_eq_of_pos (Finset.card_pos.mpr ⟨e, hin⟩)).symm⟩
    show s.pool.totalPages - 1 = BitVec.ofNat 64 _
    rw [hcard, Finset.card_erase_of_mem hin, h.total, hm, BitVec.ofNat_add]
    exact BitVec.add_sub_cancel _ _

/-- **The last decrement to its end**: the page and the entry are freed outside of the
    buckets. -/
theorem poolInv_dropped (h : PoolInv s c) (he : Linked s e) :
    PoolInv (freeEntry (freePage (unlink (decRef s e) e) e) e) (update c e 0)
      ∧ ∀ e', Linked (freeEntry (freePage (unlink (decRef s e) e) e) e) e'
        ↔ e' ≠ e ∧ Linked s e' := by
  have hunlinked := fun e' => (linked_unlink h e e').2
  obtain ⟨hinv, hlinked⟩ := (poolInv_unlink h he).outside
    (w := freeEntry (freePage (unlink (decRef s e) e) e) e) rfl (Nat.le_refl _)
    fun e' he' => ⟨val_modify_of_ne _ _ ((hunlinked e').mp he').1,
      live_free_of_ne _ ((hunlinked e').mp he').1⟩
  exact ⟨hinv, fun e' => (hlinked e').trans (hunlinked e')⟩

end Sections

end PoolSection
