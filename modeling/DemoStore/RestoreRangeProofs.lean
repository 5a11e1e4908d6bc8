import Mathlib.Data.List.Basic
import Mathlib.Data.Nat.Bitwise
import Mathlib.Tactic.Ring

/-! # Template ranges — addresses, page indices and backend offsets

    `restore_by_uffd` turns the saved regions into `TemplateRange`s, and
    `TemplateRestoreBackend::new` numbers their pages.  Everything the handler
    computes from a fault address goes through `locate_fault` and
    `cow_chunk_for_fault`.

    In a `RangeTable` the page sizes are powers of two, every range is aligned
    to its page size and no two ranges overlap.  There each function has a
    closed form: a located fault is `r.page k`, the page `k` of one range `r`,
    and a chunk is a run of consecutive pages of one range. -/

namespace RestoreRange

open List

/-! ## Ranges and faults -/

/-- `TemplateRange`: a range of guest memory in the file. -/
structure TemplateRange where
  hostAddr : Nat
  length : Nat
  fileOffset : Nat
  pageSize : Nat
  firstPageIndex : Nat
  deriving DecidableEq

/-- `TemplateFault`: the page of a fault. -/
structure TemplateFault where
  pageAddr : Nat
  pageSize : Nat
  pageIndex : Nat
  backendOffset : Nat
  deriving DecidableEq

/-- `TemplateCowChunk`: the pages copied together. -/
structure TemplateCowChunk where
  startAddr : Nat
  len : Nat
  firstPageIndex : Nat
  pageCount : Nat
  pageSize : Nat
  deriving DecidableEq

/-- `TemplateRange::new`. -/
def TemplateRange.new (hostAddr length fileOffset pageSize : Nat) : TemplateRange :=
  ⟨hostAddr, length, fileOffset, pageSize, 0⟩

/-- `n.div_ceil(d)`. -/
def divCeil (n d : Nat) : Nat := (n + d - 1) / d

/-- `page_count`. -/
def TemplateRange.pageCount (r : TemplateRange) : Nat := divCeil r.length r.pageSize

/-- `fault_addr & !(page_size - 1)` on `u64`. -/
def alignDown (pageSize faultAddr : Nat) : Nat :=
  faultAddr &&& (2 ^ 64 - 1 - (pageSize - 1))

/-- `locate`. -/
def TemplateRange.locate (r : TemplateRange) (faultAddr : Nat) : Option TemplateFault :=
  let pageAddr := alignDown r.pageSize faultAddr
  if pageAddr < r.hostAddr ∨ r.hostAddr + r.length ≤ pageAddr then none
  else
    let offsetInRange := pageAddr - r.hostAddr
    some {
      pageAddr := pageAddr
      pageSize := r.pageSize
      pageIndex := r.firstPageIndex + offsetInRange / r.pageSize
      backendOffset := r.fileOffset + offsetInRange }

/-! ## The backend -/

/-- `ranges` with their page indices; `pages` has the `backend_offset` of every
    page.  The page states belong to the handler's state. -/
structure TemplateRestoreBackend where
  ranges : List TemplateRange
  pages : List Nat

/-- The indices `new` gives the ranges, from `first` on. -/
def assignIndices (first : Nat) : List TemplateRange → List TemplateRange
  | [] => []
  | r :: rs => { r with firstPageIndex := first } :: assignIndices (first + r.pageCount) rs

/-- The metadata `new` pushes for the pages of one range. -/
def TemplateRange.offsets (r : TemplateRange) : List Nat :=
  (List.range r.pageCount).map fun page => r.fileOffset + page * r.pageSize

namespace TemplateRestoreBackend

/-- `TemplateRestoreBackend::new`. -/
def new (ranges : List TemplateRange) : TemplateRestoreBackend where
  ranges := assignIndices 0 ranges
  pages := ranges.flatMap TemplateRange.offsets

/-- `total_pages`. -/
def totalPages (b : TemplateRestoreBackend) : Nat := b.pages.length

/-- `max_page_size`. -/
def maxPageSize (b : TemplateRestoreBackend) (defaultPageSize : Nat) : Nat :=
  ((b.ranges.map TemplateRange.pageSize).max?).getD defaultPageSize

/-- `locate_fault`. -/
def locateFault (b : TemplateRestoreBackend) (faultAddr : Nat) : Option TemplateFault :=
  b.ranges.findSome? fun r => r.locate faultAddr

end TemplateRestoreBackend

/-- `DEFAULT_COW_CHUNK_SIZE`. -/
def defaultCowChunkSize : Nat := 1024 * 1024

/-- `cow_chunk_size`. -/
def cowChunkSize (pageSize : Nat) : Nat :=
  if defaultCowChunkSize ≤ pageSize then pageSize else defaultCowChunkSize

/-- The test of `cow_chunk_for_fault`. -/
def TemplateRange.hasIndex (i : Nat) (r : TemplateRange) : Bool :=
  r.firstPageIndex ≤ i && i < r.firstPageIndex + r.pageCount

/-- The chunk of the page `i`, once its range is found. -/
def TemplateRange.cowChunk (r : TemplateRange) (i : Nat) : TemplateCowChunk :=
  let offsetInRange := (i - r.firstPageIndex) * r.pageSize
  let chunkSize := cowChunkSize r.pageSize
  let chunkOffset := offsetInRange / chunkSize * chunkSize
  let len := min chunkSize (r.length - chunkOffset)
  { startAddr := r.hostAddr + chunkOffset
    len := len
    firstPageIndex := r.firstPageIndex + chunkOffset / r.pageSize
    pageCount := divCeil len r.pageSize
    pageSize := r.pageSize }

/-- `cow_chunk_for_fault`. -/
def TemplateRestoreBackend.cowChunkForFault (b : TemplateRestoreBackend)
    (fault : TemplateFault) : Option TemplateCowChunk :=
  (b.ranges.find? (TemplateRange.hasIndex fault.pageIndex)).map fun r => r.cowChunk fault.pageIndex

/-! ## The ranges of a restore -/

/-- A saved region, with the host address `get_host_address` gives for its
    `gpa` and the page size its memory zone reports. -/
structure SavedRegion where
  gpa : Nat
  length : Nat
  hostAddr : Nat
  backingPageSize : Nat

/-- The loop of `restore_by_uffd`: regions follow each other in the file. -/
def handlerRanges (fileOffset : Nat) : List SavedRegion → List TemplateRange
  | [] => []
  | g :: gs =>
    .new g.hostAddr g.length fileOffset g.backingPageSize
      :: handlerRanges (fileOffset + g.length) gs

/-- The range table of `restore_by_uffd`, or `UnalignedRanges`. -/
def restoreRanges (basePageSize : Nat) (regions : List SavedRegion) :
    Option (List TemplateRange) :=
  if regions.any fun g => g.gpa % basePageSize ≠ 0 || g.length % basePageSize ≠ 0 then none
  else some (handlerRanges 0 regions)

/-! ## Well-formed tables -/

/-- The range is a whole number of pages. -/
structure TemplateRange.Aligned (r : TemplateRange) : Prop where
  size : ∃ k < 64, r.pageSize = 2 ^ k
  host : r.pageSize ∣ r.hostAddr
  length : r.pageSize ∣ r.length
  bound : r.hostAddr + r.length < 2 ^ 64

/-- The address is in the range. -/
def TemplateRange.Contains (r : TemplateRange) (a : Nat) : Prop :=
  r.hostAddr ≤ a ∧ a < r.hostAddr + r.length

instance (r : TemplateRange) (a : Nat) : Decidable (r.Contains a) :=
  inferInstanceAs (Decidable (_ ∧ _))

/-- The ranges have no address in common. -/
def TemplateRange.Apart (r q : TemplateRange) : Prop :=
  r.hostAddr + r.length ≤ q.hostAddr ∨ q.hostAddr + q.length ≤ r.hostAddr

/-- A list of ranges the handler can serve. -/
structure RangeTable where
  ranges : List TemplateRange
  aligned : ∀ r ∈ ranges, r.Aligned
  disjoint : ranges.Pairwise TemplateRange.Apart

/-- The backend made of these ranges. -/
def RangeTable.backend (t : RangeTable) : TemplateRestoreBackend := .new t.ranges

/-- Where the snapshot has the byte of the address `a`. -/
def RangeTable.offset (t : RangeTable) (a : Nat) : Option Nat :=
  (t.ranges.find? fun r => decide (r.Contains a)).map fun r => r.fileOffset + (a - r.hostAddr)

/-- The snapshot byte of `a`. -/
def RangeTable.image (t : RangeTable) (file : Nat → UInt8) (a : Nat) : UInt8 :=
  ((t.offset a).map file).getD 0

/-- The page `k` of a range, as the handler describes it. -/
def TemplateRange.page (r : TemplateRange) (k : Nat) : TemplateFault where
  pageAddr := r.hostAddr + k * r.pageSize
  pageSize := r.pageSize
  pageIndex := r.firstPageIndex + k
  backendOffset := r.fileOffset + k * r.pageSize

/-! ## Rounding -/

variable {k a n j d c : Nat} {f : TemplateFault} {rs : List TemplateRange}

theorem alignDown_two_pow (hk : k < 64) (ha : a < 2 ^ 64) :
    alignDown (2 ^ k) a = a / 2 ^ k * 2 ^ k := by
  have hpow : 2 ^ k - 1 < 2 ^ 64 :=
    Nat.lt_of_lt_of_le (Nat.sub_lt (Nat.two_pow_pos k) (by decide))
      (Nat.pow_le_pow_right (by decide) (Nat.le_of_lt hk))
  have hmask : 2 ^ 64 - 1 - (2 ^ k - 1) = 2 ^ 64 - (2 ^ k - 1 + 1) := by
    rw [Nat.sub_sub, Nat.add_comm 1]
  apply Nat.eq_of_testBit_eq
  intro i
  rw [alignDown, hmask, Nat.testBit_and, Nat.testBit_two_pow_sub_succ hpow,
    Nat.testBit_two_pow_sub_one, Nat.testBit_mul_two_pow, Nat.testBit_div_two_pow]
  by_cases hik : k ≤ i
  · by_cases hi : i < 64
    · -- the mask keeps the bits from `k` to 63
      have h : ¬ i < k := by omega
      simp [hik, hi, h]
    · -- above bit 63 both sides are zero
      have h : a.testBit i = false :=
        Nat.testBit_lt_two_pow (Nat.lt_of_lt_of_le ha (Nat.pow_le_pow_right (by decide) (by omega)))
      simp [hik, h]
  · have h : i < k := by omega
    simp [hik, h]

theorem divCeil_mul {m : Nat} (hd : 0 < d) : divCeil (m * d) d = m := by
  rw [divCeil, Nat.add_sub_assoc hd, Nat.mul_comm m d, Nat.mul_add_div hd,
    Nat.div_eq_of_lt (by omega), Nat.add_zero]

theorem lt_divCeil (hd : 0 < d) : k < divCeil n d ↔ k * d < n := by
  rw [divCeil, ← Nat.succ_le_iff, Nat.le_div_iff_mul_le hd, Nat.succ_mul]
  omega

namespace TemplateRange.Aligned

variable {r : TemplateRange}

theorem pageSize_pos (h : r.Aligned) : 0 < r.pageSize := by
  obtain ⟨k, _, hk⟩ := h.size
  rw [hk]
  exact Nat.two_pow_pos k

theorem length_eq (h : r.Aligned) : r.length = r.pageCount * r.pageSize := by
  obtain ⟨m, hm⟩ := h.length
  rw [Nat.mul_comm] at hm
  rw [pageCount, hm, divCeil_mul h.pageSize_pos]

theorem locate_of_contains (h : r.Aligned) (ha : r.Contains a) :
    r.locate a = some (r.page ((a - r.hostAddr) / r.pageSize)) := by
  obtain ⟨k, hk, hsize⟩ := h.size
  obtain ⟨m, hm⟩ := h.host
  obtain ⟨hlo, hhi⟩ := ha
  have hpos := h.pageSize_pos
  have hbound := h.bound
  have hdown : alignDown r.pageSize a
      = r.hostAddr + (a - r.hostAddr) / r.pageSize * r.pageSize := by
    rw [hsize, alignDown_two_pow hk (by omega), ← hsize]
    have hsplit : a = r.pageSize * m + (a - r.hostAddr) := by omega
    rw [show a / r.pageSize = m + (a - r.hostAddr) / r.pageSize by
      conv => lhs; rw [hsplit]
      exact Nat.mul_add_div hpos _ _]
    rw [Nat.add_mul, Nat.mul_comm m, ← hm]
  have hle : (a - r.hostAddr) / r.pageSize * r.pageSize ≤ a - r.hostAddr := Nat.div_mul_le_self _ _
  rw [locate, hdown, if_neg (by omega), Nat.add_sub_cancel_left]
  dsimp only
  rw [Nat.mul_div_cancel _ hpos]
  rfl

theorem contains_of_locate (h : r.Aligned) (hbound : a < 2 ^ 64) (ha : r.locate a = some f) :
    r.Contains a := by
  obtain ⟨k, hk, hsize⟩ := h.size
  obtain ⟨m, hm⟩ := h.host
  obtain ⟨n, hn⟩ := h.length
  have hpos := h.pageSize_pos
  rw [locate] at ha
  split at ha
  · cases ha
  · rename_i hin
    rw [hsize, alignDown_two_pow hk hbound, ← hsize] at hin
    have hle := Nat.div_mul_le_self a r.pageSize
    refine ⟨by omega, ?_⟩
    -- the page starts below the end, and both are multiples of the page size
    have hmul : a / r.pageSize * r.pageSize < (m + n) * r.pageSize := by
      rw [Nat.add_mul, Nat.mul_comm m, Nat.mul_comm n, ← hm, ← hn]
      omega
    have hlt : a < (m + n) * r.pageSize :=
      (Nat.div_lt_iff_lt_mul hpos).mp (Nat.lt_of_mul_lt_mul_right hmul)
    rw [Nat.add_mul, Nat.mul_comm m, Nat.mul_comm n, ← hm, ← hn] at hlt
    exact hlt

theorem page_index_lt (h : r.Aligned) (ha : r.Contains a) :
    (a - r.hostAddr) / r.pageSize < r.pageCount := by
  obtain ⟨hlo, hhi⟩ := ha
  rw [Nat.div_lt_iff_lt_mul h.pageSize_pos, ← h.length_eq]
  omega

theorem contains_page (h : r.Aligned) (hk : k < r.pageCount) (hj : j < r.pageSize) :
    r.Contains ((r.page k).pageAddr + j) := by
  have hle : (k + 1) * r.pageSize ≤ r.pageCount * r.pageSize := Nat.mul_le_mul_right _ hk
  rw [← h.length_eq, Nat.succ_mul] at hle
  refine ⟨?_, ?_⟩
  · show r.hostAddr ≤ r.hostAddr + k * r.pageSize + j
    omega
  · show r.hostAddr + k * r.pageSize + j < r.hostAddr + r.length
    omega

end TemplateRange.Aligned

/-! ## The page indices -/

variable {r : TemplateRange}

theorem mem_assignIndices (h : r ∈ assignIndices n rs) :
    n ≤ r.firstPageIndex ∧ ∃ q ∈ rs, r = { q with firstPageIndex := r.firstPageIndex } := by
  induction rs generalizing n with
  | nil => cases h
  | cons q rs ih =>
    rcases mem_cons.mp h with rfl | h
    · exact ⟨Nat.le_refl n, q, mem_cons_self, rfl⟩
    · obtain ⟨hle, p, hp, hr⟩ := ih h
      exact ⟨by omega, p, mem_cons_of_mem q hp, hr⟩

/-- A located page has an index of its range, aligned or not. -/
theorem TemplateRange.locate_pageIndex (hpos : 0 < r.pageSize) (h : r.locate a = some f) :
    ∃ k < r.pageCount, f.pageIndex = r.firstPageIndex + k := by
  rw [locate] at h
  split at h
  · cases h
  · rename_i hin
    cases h
    refine ⟨(alignDown r.pageSize a - r.hostAddr) / r.pageSize, ?_, rfl⟩
    have hle := Nat.div_mul_le_self (alignDown r.pageSize a - r.hostAddr) r.pageSize
    rw [pageCount, lt_divCeil hpos]
    omega

/-- The metadata of page `k` of a range is at the index the fault carries. -/
theorem getElem?_offsets (h : r ∈ assignIndices n rs) (hk : k < r.pageCount) :
    (rs.flatMap TemplateRange.offsets)[r.firstPageIndex - n + k]?
      = some (r.fileOffset + k * r.pageSize) := by
  induction rs generalizing n with
  | nil => cases h
  | cons q rs ih =>
    have hlen : q.offsets.length = q.pageCount := by
      rw [TemplateRange.offsets, length_map, length_range]
    rw [flatMap_cons]
    rcases mem_cons.mp h with rfl | h
    · have hk' : k < q.pageCount := hk
      show (q.offsets ++ _)[n - n + k]? = some (q.fileOffset + k * q.pageSize)
      rw [Nat.sub_self, Nat.zero_add, getElem?_append_left (by omega),
        TemplateRange.offsets, getElem?_map, getElem?_range hk']
      rfl
    · have hle := (mem_assignIndices h).1
      rw [getElem?_append_right (by omega), hlen,
        show r.firstPageIndex - n + k - q.pageCount
          = r.firstPageIndex - (n + q.pageCount) + k by omega]
      exact ih h

/-- `cow_chunk_for_fault` finds the range a page index was taken from. -/
theorem find?_hasIndex (h : r ∈ assignIndices n rs) (hk : k < r.pageCount) :
    (assignIndices n rs).find? (TemplateRange.hasIndex (r.firstPageIndex + k)) = some r := by
  induction rs generalizing n with
  | nil => cases h
  | cons q rs ih =>
    rw [assignIndices]
    rcases mem_cons.mp h with rfl | h
    · rw [find?_cons_of_pos]
      simp [TemplateRange.hasIndex, hk]
    · -- the indices of the head end before those of `r` start
      have hle := (mem_assignIndices h).1
      have hno : TemplateRange.hasIndex (r.firstPageIndex + k)
          { q with firstPageIndex := n } = false := by
        have hlt : ¬ r.firstPageIndex + k < n + q.pageCount := by omega
        show (_ && decide (r.firstPageIndex + k < n + q.pageCount)) = false
        rw [decide_eq_false hlt, Bool.and_false]
      rw [find?_cons_of_neg (by rw [hno]; decide)]
      exact ih h

/-- An index belongs to one page of one range. -/
theorem index_unique {q : TemplateRange} (hr : r ∈ assignIndices n rs)
    (hq : q ∈ assignIndices n rs) (hk : k < r.pageCount) (hj : j < q.pageCount)
    (h : r.firstPageIndex + k = q.firstPageIndex + j) : r = q ∧ k = j := by
  have hfind := find?_hasIndex hr hk
  rw [h, find?_hasIndex hq hj] at hfind
  cases hfind
  exact ⟨rfl, Nat.add_left_cancel h⟩

theorem pairwise_assignIndices (h : rs.Pairwise TemplateRange.Apart) (n : Nat) :
    (assignIndices n rs).Pairwise TemplateRange.Apart := by
  induction rs generalizing n with
  | nil => exact List.Pairwise.nil
  | cons q rs ih =>
    obtain ⟨hq, hrs⟩ := pairwise_cons.mp h
    refine pairwise_cons.mpr ⟨?_, ih hrs _⟩
    intro p hp
    obtain ⟨_, p₀, hp₀, hpeq⟩ := mem_assignIndices hp
    rw [hpeq]
    exact hq p₀ hp₀

/-- Of ranges that do not overlap, a search for the one with `a` finds it. -/
theorem find?_contains (h : rs.Pairwise TemplateRange.Apart) (hr : r ∈ rs) (ha : r.Contains a) :
    rs.find? (fun q => decide (q.Contains a)) = some r := by
  induction rs with
  | nil => cases hr
  | cons q rs ih =>
    obtain ⟨hq, hrs⟩ := pairwise_cons.mp h
    rcases mem_cons.mp hr with rfl | hr
    · rw [find?_cons_of_pos (by exact decide_eq_true ha)]
    · have hno : ¬ q.Contains a := by
        rintro ⟨hlo, hhi⟩
        obtain ⟨hlo', hhi'⟩ := ha
        rcases hq r hr with hap | hap <;> omega
      rw [find?_cons_of_neg (by simpa using hno)]
      exact ih hrs hr

/-- Of ranges that do not overlap, only the one with `a` locates it. -/
theorem findSome?_locate (h : rs.Pairwise TemplateRange.Apart)
    (hall : ∀ q ∈ rs, ∀ f, q.locate a = some f → q.Contains a) (hr : r ∈ rs) (ha : r.Contains a)
    (hf : r.locate a = some f) : rs.findSome? (fun q => q.locate a) = some f := by
  induction rs with
  | nil => cases hr
  | cons q rs ih =>
    obtain ⟨hq, hrs⟩ := pairwise_cons.mp h
    rw [findSome?_cons]
    rcases mem_cons.mp hr with rfl | hr
    · rw [hf]
    · have hnone : q.locate a = none := by
        cases hloc : q.locate a with
        | none => rfl
        | some g =>
          obtain ⟨hlo, hhi⟩ := hall q mem_cons_self g hloc
          obtain ⟨hlo', hhi'⟩ := ha
          rcases hq r hr with hap | hap <;> omega
      rw [hnone]
      exact ih hrs (fun p hp => hall p (mem_cons_of_mem q hp)) hr

namespace RangeTable

variable {t : RangeTable} {r : TemplateRange}

theorem aligned_of_mem (hr : r ∈ t.backend.ranges) : r.Aligned := by
  obtain ⟨_, q, hq, hreq⟩ := mem_assignIndices hr
  have h := t.aligned q hq
  rw [hreq]
  exact ⟨h.size, h.host, h.length, h.bound⟩

theorem pages_page (hr : r ∈ t.backend.ranges) (hk : k < r.pageCount) :
    t.backend.pages[(r.page k).pageIndex]? = some (r.page k).backendOffset := by
  have h := getElem?_offsets hr hk
  rw [Nat.sub_zero] at h
  exact h

/-- Inside a range the snapshot is laid out like the range. -/
theorem image_of_contains (hr : r ∈ t.backend.ranges) (ha : r.Contains a) (file : Nat → UInt8) :
    t.image file a = file (r.fileOffset + (a - r.hostAddr)) := by
  obtain ⟨_, q, hq, hreq⟩ := mem_assignIndices hr
  rw [hreq] at ha ⊢
  rw [image, offset, find?_contains t.disjoint hq ha]
  rfl

/-- What the backend has for a page is the snapshot of its addresses. -/
theorem image_page (hr : r ∈ t.backend.ranges) (hk : k < r.pageCount) (hj : j < r.pageSize)
    (file : Nat → UInt8) :
    t.image file ((r.page k).pageAddr + j) = file ((r.page k).backendOffset + j) := by
  have h := image_of_contains hr ((aligned_of_mem hr).contains_page hk hj) file
  rw [h]
  show file (r.fileOffset + (r.hostAddr + k * r.pageSize + j - r.hostAddr))
    = file (r.fileOffset + k * r.pageSize + j)
  congr 1
  omega

/-- **FAULTS ARE PAGES.**  `locate_fault` gives the page of the one range that has
    the address. -/
theorem locateFault_of_contains (hr : r ∈ t.backend.ranges) (ha : r.Contains a) :
    t.backend.locateFault a = some (r.page ((a - r.hostAddr) / r.pageSize)) := by
  have hbound : a < 2 ^ 64 := Nat.lt_trans ha.2 (aligned_of_mem hr).bound
  have hall : ∀ q ∈ t.backend.ranges, ∀ f, q.locate a = some f → q.Contains a :=
    fun q hq f => (aligned_of_mem hq).contains_of_locate hbound
  exact findSome?_locate (pairwise_assignIndices t.disjoint 0) hall hr ha
    ((aligned_of_mem hr).locate_of_contains ha)

end RangeTable

/-! ## Chunks -/

theorem dvd_cowChunkSize : 2 ^ k ∣ cowChunkSize (2 ^ k) := by
  rw [cowChunkSize]
  split
  · exact Nat.dvd_refl _
  · rename_i h
    have hlt : 2 ^ k < 2 ^ 20 := by
      rw [show (2 : Nat) ^ 20 = defaultCowChunkSize by rfl]
      omega
    have hk : k ≤ 20 := Nat.le_of_lt ((Nat.pow_lt_pow_iff_right (by decide)).mp hlt)
    rw [show defaultCowChunkSize = 2 ^ 20 by rfl]
    exact Nat.pow_dvd_pow 2 hk

/-- `ch` is the run of `ch.pageCount` pages of `r` from the page `base` on. -/
structure IsChunk (r : TemplateRange) (base : Nat) (ch : TemplateCowChunk) : Prop where
  start : ch.startAddr = r.hostAddr + base * r.pageSize
  first : ch.firstPageIndex = r.firstPageIndex + base
  size : ch.pageSize = r.pageSize
  len : ch.len = ch.pageCount * r.pageSize
  fits : base + ch.pageCount ≤ r.pageCount

/-- The page `j` of a chunk is a page of the range. -/
theorem IsChunk.page_eq {base : Nat} {ch : TemplateCowChunk} (h : IsChunk r base ch) (j : Nat) :
    ch.startAddr + j * ch.pageSize = (r.page (base + j)).pageAddr
      ∧ ch.firstPageIndex + j = (r.page (base + j)).pageIndex := by
  rw [h.start, h.first, h.size]
  refine ⟨?_, Nat.add_assoc _ _ _⟩
  show _ = r.hostAddr + (base + j) * r.pageSize
  ring

/-- The chunk of page `k`, counted in pages: it starts at a multiple of the pages a chunk
    has. -/
theorem cowChunk_eq (hpos : 0 < r.pageSize) (hc : cowChunkSize r.pageSize = c * r.pageSize)
    (k : Nat) :
    r.cowChunk (r.firstPageIndex + k) =
      { startAddr := r.hostAddr + k / c * c * r.pageSize
        len := min (c * r.pageSize) (r.length - k / c * c * r.pageSize)
        firstPageIndex := r.firstPageIndex + k / c * c
        pageCount := divCeil (min (c * r.pageSize) (r.length - k / c * c * r.pageSize)) r.pageSize
        pageSize := r.pageSize } := by
  have hoff : k * r.pageSize / (c * r.pageSize) * (c * r.pageSize) = k / c * c * r.pageSize := by
    rw [Nat.mul_div_mul_right _ _ hpos, Nat.mul_assoc]
  simp only [TemplateRange.cowChunk, Nat.add_sub_cancel_left, hc, hoff, Nat.mul_div_cancel _ hpos]

/-- The pages of a whole chunk. -/
theorem TemplateRange.Aligned.exists_chunkPages (hal : r.Aligned) :
    ∃ c, 0 < c ∧ cowChunkSize r.pageSize = c * r.pageSize := by
  obtain ⟨e, -, he⟩ := hal.size
  obtain ⟨c, hc⟩ : r.pageSize ∣ cowChunkSize r.pageSize := by
    rw [he]
    exact dvd_cowChunkSize
  have hpos : 0 < cowChunkSize r.pageSize := by
    rw [cowChunkSize]
    split
    · exact hal.pageSize_pos
    · decide
  rw [Nat.mul_comm] at hc
  rw [hc] at hpos
  exact ⟨c, Nat.pos_of_mul_pos_right hpos, hc⟩

/-- In an aligned range the chunk is a run of pages, cut at the end of the range. -/
theorem cowChunk_spec (hal : r.Aligned) (hc : cowChunkSize r.pageSize = c * r.pageSize)
    (hk : k < r.pageCount) :
    IsChunk r (k / c * c) (r.cowChunk (r.firstPageIndex + k))
      ∧ (r.cowChunk (r.firstPageIndex + k)).pageCount = min c (r.pageCount - k / c * c) := by
  have hpos := hal.pageSize_pos
  have hmin : min (c * r.pageSize) (r.length - k / c * c * r.pageSize)
      = min c (r.pageCount - k / c * c) * r.pageSize := by
    rw [hal.length_eq, ← Nat.sub_mul, Nat.mul_min_mul_right]
  have hbase := Nat.div_mul_le_self k c
  rw [cowChunk_eq hpos hc, hmin, divCeil_mul hpos]
  exact ⟨⟨rfl, rfl, rfl, rfl, by dsimp only; omega⟩, rfl⟩

theorem cowChunk_isChunk (hal : r.Aligned) (hk : k < r.pageCount) :
    ∃ base, IsChunk r base (r.cowChunk (r.firstPageIndex + k)) := by
  obtain ⟨c, -, hc⟩ := hal.exists_chunkPages
  exact ⟨k / c * c, (cowChunk_spec hal hc hk).1⟩

/-- **CHUNKS ARE RUNS OF PAGES.**  The chunk of a located fault is a run of pages of
    the fault's range. -/
theorem RangeTable.cowChunkForFault_page {t : RangeTable} (hr : r ∈ t.backend.ranges)
    (hk : k < r.pageCount) :
    ∃ base ch, t.backend.cowChunkForFault (r.page k) = some ch ∧ IsChunk r base ch := by
  obtain ⟨base, hch⟩ := cowChunk_isChunk (aligned_of_mem hr) hk
  refine ⟨base, r.cowChunk (r.firstPageIndex + k), ?_, hch⟩
  have hfind : t.backend.ranges.find? (TemplateRange.hasIndex (r.page k).pageIndex)
      = some r := find?_hasIndex hr hk
  rw [TemplateRestoreBackend.cowChunkForFault, hfind]
  rfl

/-- Every page fits the handler's page buffer. -/
theorem TemplateRestoreBackend.pageSize_le_max {b : TemplateRestoreBackend} (hr : r ∈ b.ranges)
    (d : Nat) : r.pageSize ≤ b.maxPageSize d := by
  have hmem : r.pageSize ∈ b.ranges.map TemplateRange.pageSize := List.mem_map.mpr ⟨r, hr, rfl⟩
  rw [maxPageSize]
  cases hmax : (b.ranges.map TemplateRange.pageSize).max? with
  | none => rw [max?_eq_none_iff.mp hmax] at hmem; cases hmem
  | some m => exact (max?_eq_some_iff.mp hmax).2 _ hmem

end RestoreRange
