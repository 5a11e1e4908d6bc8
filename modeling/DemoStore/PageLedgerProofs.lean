import Mathlib.Data.Finset.Card
import DemoStore.RestoreHandlerProofs

/-! # The ledger of a restore

    What the handler's bookkeeping is for, with the two events as atomic
    operations: a missing fault loads one page, a write-protect fault makes a
    whole chunk private.  The ledger has the state of every page and the two
    counters; it is tidy if no page is in between, every chunk is private as a
    whole or not at all, and each counter is the number of pages it counts.

    Ranges need power-of-two page sizes and nothing else here: a chunk is the set
    of pages of one range whose position has the same quotient by the pages per
    chunk, cut off at the end of the range, so two chunks with a common page
    have the same pages. -/

namespace PageLedger

open RestoreRange RestoreHandler List

/-! ## Ranges and chunks -/

/-- Any list of ranges whose page sizes are powers of two. -/
structure SizedRanges where
  ranges : List TemplateRange
  sized : ∀ r ∈ ranges, ∃ k < 64, r.pageSize = 2 ^ k

/-- The backend made of these ranges. -/
def SizedRanges.backend (t : SizedRanges) : TemplateRestoreBackend := .new t.ranges

/-- The pages of a full chunk. -/
def pagesPerChunk (r : TemplateRange) : Nat := cowChunkSize r.pageSize / r.pageSize

instance (ch : TemplateCowChunk) (i : Nat) : Decidable (InChunk ch i) :=
  inferInstanceAs (Decidable (_ ∧ _))

/-- The pages the loops of `handle_wp_fault` go through. -/
def pagesOf (ch : TemplateCowChunk) : List Nat :=
  (List.range ch.pageCount).map fun k => ch.firstPageIndex + k

variable {ch : TemplateCowChunk} {i : Nat} {r : TemplateRange}

/-- The pages of a chunk are those in it. -/
theorem mem_pagesOf : i ∈ pagesOf ch ↔ InChunk ch i := by
  rw [pagesOf, List.mem_map]
  constructor
  · rintro ⟨k, hk, rfl⟩
    have hk := mem_range.mp hk
    exact ⟨by omega, by omega⟩
  · rintro ⟨hlo, hhi⟩
    exact ⟨i - ch.firstPageIndex, mem_range.mpr (by omega), by omega⟩

/-- Each page of a chunk is listed once. -/
theorem nodup_pagesOf (ch : TemplateCowChunk) : (pagesOf ch).Nodup :=
  List.Nodup.map (fun _ _ h => Nat.add_left_cancel h) nodup_range

/-- **CHUNKS ARE QUOTIENT CLASSES.** -/
theorem inChunk_cowChunk {e : Nat} (hsize : r.pageSize = 2 ^ e) (k i : Nat) :
    InChunk (r.cowChunk (r.firstPageIndex + k)) i
      ↔ ∃ j < r.pageCount, i = r.firstPageIndex + j
          ∧ j / pagesPerChunk r = k / pagesPerChunk r := by
  have hpos : 0 < r.pageSize := hsize ▸ Nat.two_pow_pos e
  have hdvd : r.pageSize ∣ cowChunkSize r.pageSize := hsize ▸ dvd_cowChunkSize
  have hc : cowChunkSize r.pageSize = pagesPerChunk r * r.pageSize := (Nat.div_mul_cancel hdvd).symm
  have hcpos : 0 < pagesPerChunk r := by
    refine Nat.div_pos ?_ hpos
    rw [cowChunkSize]
    split <;> omega
  -- the chunk starts at a multiple of the pages per chunk
  generalize pagesPerChunk r = c at hc hcpos ⊢
  have hfirst : (r.cowChunk (r.firstPageIndex + k)).firstPageIndex
      = r.firstPageIndex + k / c * c := by
    rw [cowChunk_eq hpos hc]
  have hcount : ∀ x, x < (r.cowChunk (r.firstPageIndex + k)).pageCount
      ↔ x < c ∧ k / c * c + x < r.pageCount := by
    intro x
    rw [cowChunk_eq hpos hc]
    simp only [TemplateRange.pageCount, lt_divCeil hpos, Nat.lt_min, Nat.lt_sub_iff_add_lt,
      Nat.add_mul]
    rw [Nat.mul_lt_mul_right hpos, Nat.add_comm (x * r.pageSize)]
  have hmod := Nat.div_add_mod' k c
  rw [InChunk, hfirst]
  constructor
  · rintro ⟨hlo, hhi⟩
    obtain ⟨hx, hin⟩ := (hcount (i - (r.firstPageIndex + k / c * c))).mp (by omega)
    refine ⟨k / c * c + (i - (r.firstPageIndex + k / c * c)), hin, by omega, ?_⟩
    rw [Nat.mul_comm (k / c), Nat.mul_add_div hcpos, Nat.mul_comm c, Nat.div_eq_of_lt hx,
      Nat.add_zero]
  · rintro ⟨j, hj, rfl, hq⟩
    have hdiv := Nat.div_add_mod' j c
    have hlt := Nat.mod_lt j hcpos
    rw [hq] at hdiv
    have hin := (hcount (j % c)).mpr ⟨hlt, by omega⟩
    exact ⟨by omega, by omega⟩

section Backend

variable {t : SizedRanges}

/-- A page size is a power of two. -/
theorem sized_of_mem (hr : r ∈ t.backend.ranges) : ∃ e, r.pageSize = 2 ^ e := by
  obtain ⟨_, q, hq, hreq⟩ := mem_assignIndices hr
  obtain ⟨e, -, he⟩ := t.sized q hq
  exact ⟨e, by rw [hreq]; exact he⟩

/-- A page of a range has a global index. -/
theorem lt_totalPages (hr : r ∈ t.backend.ranges) {k : Nat} (hk : k < r.pageCount) :
    r.firstPageIndex + k < t.backend.totalPages := by
  have h := getElem?_offsets hr hk
  rw [Nat.sub_zero] at h
  exact (List.getElem?_eq_some_iff.mp h).1

/-- So has a page that faults. -/
theorem locateFault_lt {a : Nat} {f : TemplateFault}
    (h : t.backend.locateFault a = some f) : f.pageIndex < t.backend.totalPages := by
  obtain ⟨r, hr, hloc⟩ := exists_of_findSome?_eq_some h
  obtain ⟨e, he⟩ := sized_of_mem hr
  obtain ⟨k, hk, hf⟩ := TemplateRange.locate_pageIndex (he ▸ Nat.two_pow_pos e) hloc
  rw [hf]
  exact lt_totalPages hr hk

/-- `ch` is a chunk that `cow_chunk_for_fault` returns. -/
def CowChunk (b : TemplateRestoreBackend) (ch : TemplateCowChunk) : Prop :=
  ∃ f, b.cowChunkForFault f = some ch

/-- A chunk is a part of one range. -/
theorem CowChunk.exists_range (h : CowChunk t.backend ch) :
    ∃ r ∈ t.backend.ranges, ∃ k, ∀ i, InChunk ch i
      ↔ ∃ j < r.pageCount, i = r.firstPageIndex + j
          ∧ j / pagesPerChunk r = k / pagesPerChunk r := by
  obtain ⟨f, hf⟩ := h
  obtain ⟨r, hfind, rfl⟩ := Option.map_eq_some_iff.mp hf
  have hr := mem_of_find?_eq_some hfind
  have hidx := find?_some hfind
  simp only [TemplateRange.hasIndex, Bool.and_eq_true, decide_eq_true_eq] at hidx
  obtain ⟨e, he⟩ := sized_of_mem hr
  refine ⟨r, hr, f.pageIndex - r.firstPageIndex, fun i => ?_⟩
  rw [← inChunk_cowChunk he, Nat.add_sub_cancel' hidx.1]

/-- Its pages have global indices. -/
theorem CowChunk.lt_totalPages (h : CowChunk t.backend ch) (hi : InChunk ch i) :
    i < t.backend.totalPages := by
  obtain ⟨r, hr, k, hin⟩ := h.exists_range
  obtain ⟨j, hj, rfl, -⟩ := (hin i).mp hi
  exact PageLedger.lt_totalPages hr hj

/-- Two chunks with a common page have the same pages. -/
theorem CowChunk.congr {ch' : TemplateCowChunk} (h : CowChunk t.backend ch)
    (h' : CowChunk t.backend ch') (hi : InChunk ch i) (hi' : InChunk ch' i) (x : Nat) :
    InChunk ch x ↔ InChunk ch' x := by
  obtain ⟨r, hr, k, hin⟩ := h.exists_range
  obtain ⟨r', hr', k', hin'⟩ := h'.exists_range
  obtain ⟨j, hj, rfl, hq⟩ := (hin i).mp hi
  obtain ⟨j', hj', hjj, hq'⟩ := (hin' _).mp hi'
  obtain ⟨rfl, rfl⟩ := index_unique hr hr' hj hj' hjj
  rw [hin, hin', ← hq, ← hq']

end Backend

/-! ## The ledger -/

/-- The page states and the two counters. -/
@[ext] structure Ledger where
  states : Nat → PageState
  served : Nat
  dirtied : Nat

namespace Ledger

/-- Nothing is loaded yet. -/
def start : Ledger := ⟨fun _ => .unloaded, 0, 0⟩

/-- A missing fault on the unloaded page `i`. -/
def load (i : Nat) (L : Ledger) : Ledger where
  states := fun j => if j = i then .sharedReady else L.states j
  served := L.served + 1
  dirtied := L.dirtied

/-- The pages of the chunk that were never loaded. -/
def unloaded (ch : TemplateCowChunk) (L : Ledger) : List Nat :=
  (pagesOf ch).filter fun i => L.states i = .unloaded

/-- A write-protect fault on a chunk with no private page. -/
def cow (ch : TemplateCowChunk) (L : Ledger) : Ledger where
  states := fun j => if InChunk ch j then .privateDirty else L.states j
  served := L.served + (L.unloaded ch).length
  dirtied := L.dirtied + ch.pageCount

/-- The chunk has no private page. -/
def Clean (ch : TemplateCowChunk) (L : Ledger) : Prop :=
  ∀ i, InChunk ch i → L.states i ≠ .privateDirty

/-- The pages of the backend that are not `UNLOADED`. -/
def loadedPages (b : TemplateRestoreBackend) (L : Ledger) : Finset Nat :=
  (Finset.range b.totalPages).filter fun i => L.states i ≠ .unloaded

/-- The pages of the backend that are `PRIVATE_DIRTY`. -/
def dirtyPages (b : TemplateRestoreBackend) (L : Ledger) : Finset Nat :=
  (Finset.range b.totalPages).filter fun i => L.states i = .privateDirty

variable {b : TemplateRestoreBackend} {L : Ledger}

/-- Loaded pages are those that are not unloaded. -/
@[simp] theorem mem_loadedPages :
    i ∈ L.loadedPages b ↔ i < b.totalPages ∧ L.states i ≠ .unloaded := by
  rw [loadedPages, Finset.mem_filter, Finset.mem_range]

/-- Dirty pages are those in a private copy. -/
@[simp] theorem mem_dirtyPages :
    i ∈ L.dirtyPages b ↔ i < b.totalPages ∧ L.states i = .privateDirty := by
  rw [dirtyPages, Finset.mem_filter, Finset.mem_range]

/-- The counters are the sizes of the sets they count. -/
structure Tidy (b : TemplateRestoreBackend) (L : Ledger) : Prop where
  settled : ∀ i, L.states i ≠ .loading
  uniform : ∀ ch, CowChunk b ch → (∀ i, InChunk ch i → L.states i = .privateDirty) ∨ L.Clean ch
  served : L.served = (L.loadedPages b).card
  dirtied : L.dirtied = (L.dirtyPages b).card

/-- No more pages are served than exist. -/
theorem Tidy.served_le (h : L.Tidy b) : L.served ≤ b.totalPages := by
  rw [h.served]
  calc (L.loadedPages b).card
      ≤ (Finset.range b.totalPages).card := Finset.card_le_card (Finset.filter_subset _ _)
    _ = b.totalPages := Finset.card_range _

/-- The counters start at the empty sets. -/
theorem tidy_start (b : TemplateRestoreBackend) : start.Tidy b where
  settled _ := by simp [start]
  uniform _ _ := .inr fun _ _ => by simp [start]
  served := by simp [start, loadedPages]
  dirtied := by simp [start, dirtyPages]

/-- A load keeps the counters in step. -/
theorem Tidy.load (h : L.Tidy b) (hi : i < b.totalPages) (hun : L.states i = .unloaded) :
    (L.load i).Tidy b where
  settled j := by
    have := h.settled j
    simp only [Ledger.load]
    split <;> simp [*]
  uniform ch hch := by
    rcases h.uniform ch hch with hall | hclean
    · refine .inl fun j hj => ?_
      have hji : j ≠ i := by
        rintro rfl
        rw [hall j hj] at hun
        cases hun
      simp only [Ledger.load, if_neg hji, hall j hj]
    · refine .inr fun j hj => ?_
      have := hclean j hj
      simp only [Ledger.load]
      split <;> simp [*]
  served := by
    have hset : (L.load i).loadedPages b = insert i (L.loadedPages b) := by
      ext j
      by_cases hj : j = i
      · subst hj
        simp [Ledger.load, hi]
      · simp [Ledger.load, hj]
    rw [hset, Finset.card_insert_of_notMem (by simp [hun]), ← h.served]
    rfl
  dirtied := by
    have hset : (L.load i).dirtyPages b = L.dirtyPages b := by
      ext j
      by_cases hj : j = i
      · subst hj
        simp [Ledger.load, hun]
      · simp [Ledger.load, hj]
    rw [hset, ← h.dirtied]
    rfl

variable {t : SizedRanges} {L : Ledger} {ch : TemplateCowChunk}

/-- The pages a chunk still has to load. -/
theorem mem_unloaded : i ∈ L.unloaded ch ↔ InChunk ch i ∧ L.states i = .unloaded := by
  rw [unloaded, mem_filter, mem_pagesOf, decide_eq_true_eq]

theorem nodup_unloaded : (L.unloaded ch).Nodup := (nodup_pagesOf ch).filter _

/-- A copy loads the rest of its chunk. -/
theorem loadedPages_cow (hch : CowChunk t.backend ch) :
    (L.cow ch).loadedPages t.backend = L.loadedPages t.backend ∪ (L.unloaded ch).toFinset := by
  ext j
  have hlt : InChunk ch j → j < t.backend.totalPages := hch.lt_totalPages
  by_cases hj : InChunk ch j
  · by_cases hun : L.states j = .unloaded
    · simp [cow, mem_unloaded, hj, hlt hj, hun]
    · simp [cow, hj, hlt hj, hun]
  · simp [cow, hj, mem_unloaded]

/-- It makes the whole chunk dirty. -/
theorem dirtyPages_cow (hch : CowChunk t.backend ch) :
    (L.cow ch).dirtyPages t.backend = L.dirtyPages t.backend ∪ (pagesOf ch).toFinset := by
  ext j
  have hlt : InChunk ch j → j < t.backend.totalPages := hch.lt_totalPages
  by_cases hj : InChunk ch j
  · simp [cow, hj, hlt hj, mem_pagesOf]
  · simp [cow, hj, mem_pagesOf]

/-- A copy keeps the counters in step. -/
theorem Tidy.cow (h : L.Tidy t.backend) (hch : CowChunk t.backend ch)
    (hclean : L.Clean ch) : (L.cow ch).Tidy t.backend where
  settled j := by
    have := h.settled j
    simp only [Ledger.cow]
    split <;> simp [*]
  uniform ch' hch' := by
    -- a chunk is `ch` itself or has no page of it
    by_cases hmeet : ∃ i, InChunk ch i ∧ InChunk ch' i
    · obtain ⟨i, hi, hi'⟩ := hmeet
      refine .inl fun j hj => ?_
      simp only [Ledger.cow, if_pos ((hch.congr hch' hi hi' j).mpr hj)]
    · have hout : ∀ j, InChunk ch' j → ¬ InChunk ch j := fun j hj' hj => hmeet ⟨j, hj, hj'⟩
      rcases h.uniform ch' hch' with hall | hnone
      · refine .inl fun j hj => ?_
        simp only [Ledger.cow, if_neg (hout j hj), hall j hj]
      · refine .inr fun j hj => ?_
        simp only [Ledger.cow, if_neg (hout j hj)]
        exact hnone j hj
  served := by
    have hdisj : Disjoint (L.loadedPages t.backend) (L.unloaded ch).toFinset := by
      rw [Finset.disjoint_left]
      intro j hj hun
      rw [List.mem_toFinset, mem_unloaded] at hun
      simp [hun.2] at hj
    rw [loadedPages_cow hch, Finset.card_union_of_disjoint hdisj,
      toFinset_card_of_nodup nodup_unloaded, ← h.served]
    rfl
  dirtied := by
    have hdisj : Disjoint (L.dirtyPages t.backend) (pagesOf ch).toFinset := by
      rw [Finset.disjoint_left]
      intro j hj hin
      rw [List.mem_toFinset, mem_pagesOf] at hin
      exact hclean j hin (mem_dirtyPages.mp hj).2
    rw [dirtyPages_cow hch, Finset.card_union_of_disjoint hdisj,
      toFinset_card_of_nodup (nodup_pagesOf ch), pagesOf, length_map,
      length_range, ← h.dirtied]
    rfl

end Ledger

end PageLedger
