import DemoStore.FaultSiteProofs

/-! # Addresses, indices, offsets and chunks agree

    A located page is described by its address, its index, its offset in the snapshot and
    the chunk it is copied with; each comes from a formula of its own over the ranges.  In
    a `RangeTable` they describe one page, and the chunks are a partition of the pages
    into runs.

    `restore_by_uffd` checks alignment against the base page size only, so what it accepts
    need not be such a table.  `served_iff_aligned` says when the handler can serve it. -/

namespace RestoreRange

open GuestMemory RestoreHandler PageLedger FaultSite List Option

/-! ## From indices to pages -/

variable {rs : List TemplateRange} {n a k i : Nat} {r q : TemplateRange}

/-- Every range of the table has its place in the backend. -/
theorem exists_mem_assignIndices (h : q ∈ rs) (n : Nat) :
    ∃ m, { q with firstPageIndex := m } ∈ assignIndices n rs := by
  induction rs generalizing n with
  | nil => cases h
  | cons p rs ih =>
    rcases mem_cons.mp h with rfl | h
    · exact ⟨n, mem_cons_self⟩
    · obtain ⟨m, hm⟩ := ih h (n + p.pageCount)
      exact ⟨m, mem_cons_of_mem _ hm⟩

theorem length_offsets (r : TemplateRange) : r.offsets.length = r.pageCount := by
  rw [TemplateRange.offsets, length_map, length_range]

/-- The indices of the ranges cover those of the pages. -/
theorem exists_range_of_index (hn : n ≤ i)
    (hi : i < n + (rs.flatMap TemplateRange.offsets).length) :
    ∃ r ∈ assignIndices n rs, ∃ k < r.pageCount, i = r.firstPageIndex + k := by
  induction rs generalizing n with
  | nil => simp at hi; omega
  | cons q rs ih =>
    rw [flatMap_cons, length_append, length_offsets] at hi
    by_cases hq : i < n + q.pageCount
    · exact ⟨{ q with firstPageIndex := n }, mem_cons_self, i - n,
        show i - n < q.pageCount by omega, show i = n + (i - n) by omega⟩
    · obtain ⟨r, hr, k, hk, rfl⟩ := ih (n := n + q.pageCount) (by omega) (by omega)
      exact ⟨r, mem_cons_of_mem _ hr, k, hk, rfl⟩

/-- Of ranges that do not overlap, those with an address in common are the same. -/
theorem range_unique (h : rs.Pairwise TemplateRange.Apart) (hr : r ∈ rs) (hq : q ∈ rs)
    (har : r.Contains a) (haq : q.Contains a) : r = q := by
  have hfind := find?_contains h hr har
  rw [find?_contains h hq haq] at hfind
  exact (some.inj hfind).symm

namespace RangeTable

variable {t : RangeTable} {r q : TemplateRange}

theorem mem_backend (hq : q ∈ t.ranges) :
    ∃ m, { q with firstPageIndex := m } ∈ t.backend.ranges :=
  exists_mem_assignIndices hq 0

theorem pageIndex_lt (hr : r ∈ t.backend.ranges) (hk : k < r.pageCount) :
    (r.page k).pageIndex < t.backend.totalPages :=
  (List.getElem?_eq_some_iff.mp (pages_page hr hk)).1

/-- The page of an address has the address. -/
theorem mem_page (hr : r ∈ t.backend.ranges) (ha : r.Contains a) :
    (r.page ((a - r.hostAddr) / r.pageSize)).pageAddr ≤ a
      ∧ a < (r.page ((a - r.hostAddr) / r.pageSize)).pageAddr + r.pageSize := by
  have hpos := (aligned_of_mem hr).pageSize_pos
  have hdiv := Nat.div_add_mod (a - r.hostAddr) r.pageSize
  have hmod := Nat.mod_lt (a - r.hostAddr) hpos
  rw [Nat.mul_comm] at hdiv
  obtain ⟨hlo, -⟩ := ha
  show r.hostAddr + (a - r.hostAddr) / r.pageSize * r.pageSize ≤ a
    ∧ a < r.hostAddr + (a - r.hostAddr) / r.pageSize * r.pageSize + r.pageSize
  omega

end RangeTable

/-- `a` and `b` lie in the same page of a range. -/
def RangeTable.SamePage (t : RangeTable) (a b : Nat) : Prop :=
  ∃ r ∈ t.ranges, r.Contains a ∧ r.Contains b
    ∧ (a - r.hostAddr) / r.pageSize = (b - r.hostAddr) / r.pageSize

/-- `a` is an address of a range. -/
def RangeTable.Has (t : RangeTable) (a : Nat) : Prop := ∃ r ∈ t.ranges, r.Contains a

namespace RangeTable

variable {t : RangeTable}

/-- A range with the address, as the backend has it. -/
theorem Has.backend (h : t.Has a) : ∃ r ∈ t.backend.ranges, r.Contains a := by
  obtain ⟨q, hq, ha⟩ := h
  obtain ⟨m, hm⟩ := mem_backend hq
  exact ⟨_, hm, ha⟩

theorem has_of_contains (hr : r ∈ t.backend.ranges) (ha : r.Contains a) : t.Has a := by
  obtain ⟨-, q, hq, heq⟩ := mem_assignIndices hr
  rw [heq] at ha
  exact ⟨q, hq, ha⟩

theorem samePage_iff {b : Nat} :
    t.SamePage a b ↔ ∃ r ∈ t.backend.ranges, r.Contains a ∧ r.Contains b
      ∧ (a - r.hostAddr) / r.pageSize = (b - r.hostAddr) / r.pageSize := by
  constructor
  · rintro ⟨q, hq, h⟩
    obtain ⟨m, hm⟩ := mem_backend hq
    exact ⟨_, hm, h⟩
  · rintro ⟨r, hr, h⟩
    obtain ⟨-, q, hq, heq⟩ := mem_assignIndices hr
    rw [heq] at h
    exact ⟨q, hq, h⟩

/-- **ONE PAGE UNDER ALL NAMES.**  `locate_fault` finds every address of the ranges; the
    index it gives is one of `pages`, where the same offset is kept; the index is shared
    by the addresses of one page and no others, none is left out, and every page fits the
    buffer of `max_page_size` bytes. -/
theorem locate_coherent (t : RangeTable) :
    (∀ a, t.Has a → ∃ f, t.backend.locateFault a = some f
        ∧ f.pageAddr ≤ a ∧ a < f.pageAddr + f.pageSize
        ∧ f.pageIndex < t.backend.totalPages
        ∧ t.backend.pages[f.pageIndex]? = some f.backendOffset
        ∧ ∀ basePageSize, f.pageSize ≤ t.backend.maxPageSize basePageSize)
      ∧ (∀ a b f g, t.Has a → t.Has b → t.backend.locateFault a = some f →
        t.backend.locateFault b = some g → (f.pageIndex = g.pageIndex ↔ t.SamePage a b))
      ∧ ∀ i < t.backend.totalPages, ∃ a f, t.Has a ∧ t.backend.locateFault a = some f
        ∧ f.pageIndex = i := by
  refine ⟨?_, ?_, ?_⟩
  · intro a ha
    obtain ⟨r, hr, har⟩ := ha.backend
    have hk := (aligned_of_mem hr).page_index_lt har
    obtain ⟨hlo, hhi⟩ := mem_page hr har
    exact ⟨_, locateFault_of_contains hr har, hlo, hhi, pageIndex_lt hr hk, pages_page hr hk,
      fun d => TemplateRestoreBackend.pageSize_le_max hr d⟩
  · intro a b f g ha hb hf hg
    obtain ⟨r, hr, har⟩ := ha.backend
    obtain ⟨q, hq, hbq⟩ := hb.backend
    rw [locateFault_of_contains hr har] at hf
    rw [locateFault_of_contains hq hbq] at hg
    cases hf
    cases hg
    rw [samePage_iff]
    constructor
    · intro hidx
      obtain ⟨rfl, hk⟩ := index_unique hr hq ((aligned_of_mem hr).page_index_lt har)
        ((aligned_of_mem hq).page_index_lt hbq) hidx
      exact ⟨r, hr, har, hbq, hk⟩
    · rintro ⟨p, hp, hap, hbp, hk⟩
      have hpair := pairwise_assignIndices t.disjoint 0
      obtain rfl := range_unique hpair hr hp har hap
      obtain rfl := range_unique hpair hq hp hbq hbp
      rw [hk]
  · intro i hi
    obtain ⟨r, hr, k, hk, rfl⟩ := exists_range_of_index (n := 0) (Nat.zero_le i)
      (by rw [Nat.zero_add]; exact hi)
    have hal := aligned_of_mem (t := t) hr
    have ha := hal.contains_page hk hal.pageSize_pos
    rw [Nat.add_zero] at ha
    refine ⟨(r.page k).pageAddr, _, has_of_contains hr ha, locateFault_of_contains hr ha, ?_⟩
    show r.firstPageIndex + (r.hostAddr + k * r.pageSize - r.hostAddr) / r.pageSize
      = r.firstPageIndex + k
    rw [Nat.add_sub_cancel_left, Nat.mul_div_cancel _ hal.pageSize_pos]

end RangeTable

/-! ## Chunks -/

section Chunks

variable {t : RangeTable} {f g : TemplateFault} {ch ch' : TemplateCowChunk}

/-- Two chunks with a common page are one chunk. -/
theorem chunk_unique (h : CowChunk t.backend ch) (h' : CowChunk t.backend ch') (hi : InChunk ch i)
    (hi' : InChunk ch' i) : ch = ch' := by
  obtain ⟨r, hr, k, hk, rfl⟩ := cowChunk_range h
  obtain ⟨r', hr', k', hk', rfl⟩ := cowChunk_range h'
  have hal := RangeTable.aligned_of_mem hr
  obtain ⟨e, -, he⟩ := hal.size
  obtain ⟨e', -, he'⟩ := (RangeTable.aligned_of_mem hr').size
  obtain ⟨j, hj, rfl, hquot⟩ := (inChunk_cowChunk he k i).mp hi
  obtain ⟨j', hj', hidx, hquot'⟩ := (inChunk_cowChunk he' k' _).mp hi'
  obtain ⟨rfl, rfl⟩ := index_unique hr hr' hj hj' hidx
  have hc : cowChunkSize r.pageSize = pagesPerChunk r * r.pageSize := by
    rw [pagesPerChunk, he]
    exact (Nat.div_mul_cancel dvd_cowChunkSize).symm
  rw [cowChunk_eq hal.pageSize_pos hc, cowChunk_eq hal.pageSize_pos hc, ← hquot, ← hquot']

/-- A chunk lies in the range of its pages. -/
theorem chunk_in_range (hr : r ∈ t.backend.ranges) (hk : k < r.pageCount)
    (h : t.backend.cowChunkForFault (r.page k) = some ch) :
    r.hostAddr ≤ ch.startAddr ∧ ch.startAddr + ch.len ≤ r.hostAddr + r.length
      ∧ ch.pageSize = r.pageSize ∧ ch.pageCount * ch.pageSize = ch.len := by
  obtain ⟨base, ch', hch', hstart, -, hsize, hlen, hfits⟩ := RangeTable.cowChunkForFault_page hr hk
  rw [h] at hch'
  cases hch'
  have hle : (base + ch.pageCount) * r.pageSize ≤ r.pageCount * r.pageSize :=
    Nat.mul_le_mul_right _ hfits
  rw [← (RangeTable.aligned_of_mem hr).length_eq, Nat.add_mul] at hle
  rw [hstart, hlen, hsize]
  exact ⟨by omega, by omega, rfl, rfl⟩

theorem pages_of_located (hf : Located t f) :
    t.backend.pages[f.pageIndex]? = some f.backendOffset := by
  obtain ⟨r, hr, k, hk, rfl⟩ := hf
  exact RangeTable.pages_page hr hk

/-- The page of a fault lies in its chunk. -/
theorem page_in_chunk (hf : Located t f) (hpos : 0 < f.pageSize)
    (hch : t.backend.cowChunkForFault f = some ch) :
    ch.startAddr ≤ f.pageAddr ∧ f.pageAddr + f.pageSize ≤ ch.startAddr + ch.len := by
  have hcow : CowChunk t.backend ch := ⟨f, hch⟩
  have hin := inChunk_of_fault hf hch
  refine ⟨(page_within_chunk hcow hf hin (located_first hf)).1, ?_⟩
  -- the last address of the page is in the chunk
  have hlast := (page_within_chunk hcow hf hin (within_add (Nat.sub_lt hpos Nat.one_pos))).2
  omega

/-- A chunk consists of the pages that `locate_fault` finds there. -/
theorem chunk_pages (h : CowChunk t.backend ch) (hk : k < ch.pageCount) :
    ∃ g, t.backend.locateFault (ch.startAddr + k * ch.pageSize) = some g
      ∧ g.pageAddr = ch.startAddr + k * ch.pageSize ∧ g.pageSize = ch.pageSize
      ∧ g.pageIndex = ch.firstPageIndex + k
      ∧ t.backend.pages[ch.firstPageIndex + k]? = some g.backendOffset := by
  obtain ⟨g, hg, hidx, haddr, hsize⟩ := located_of_inChunk h
    (i := ch.firstPageIndex + k) ⟨by omega, by omega⟩
  rw [chunkPageAddr, Nat.add_sub_cancel_left] at haddr
  refine ⟨g, ?_, haddr, hsize, hidx, ?_⟩
  · rw [← haddr]
    exact locateFault_within hg (located_first hg)
  · rw [← hidx]
    exact pages_of_located hg

/-- Two chunks are equal or have neither an address nor an index in common. -/
theorem chunks_apart (h : CowChunk t.backend ch) (h' : CowChunk t.backend ch') (hne : ch ≠ ch') :
    (∀ x, Within ch.startAddr ch.len x → ¬ Within ch'.startAddr ch'.len x)
      ∧ ∀ i, InChunk ch i → ¬ InChunk ch' i := by
  constructor
  · intro x hx hx'
    obtain ⟨p, hp, hin, hxp⟩ := exists_page_of_within h hx
    exact hne (chunk_unique h h' hin (inChunk_of_within h' hp hxp hx'))
  · intro i hi hi'
    exact hne (chunk_unique h h' hi hi')

/-- **CHUNKS TILE THE RANGES.**  The chunk of a located fault is found in the range the
    fault was located in, has the fault's page, and consists of whole pages of that range,
    with the indices and offsets that `locate_fault` gives them; two chunks are equal or
    have neither an address nor an index in common; and the chunks of a range make up the
    range. -/
theorem chunks_tile (t : RangeTable) :
    (∀ q ∈ t.ranges, ∃ r ∈ t.backend.ranges, r = { q with firstPageIndex := r.firstPageIndex }
        ∧ ∀ a, q.Contains a →
        ∃ f ch, t.backend.locateFault a = some f ∧ r.locate a = some f
          ∧ t.backend.ranges.find? (TemplateRange.hasIndex f.pageIndex) = some r
          ∧ t.backend.cowChunkForFault f = some ch
          ∧ ch.startAddr ≤ f.pageAddr ∧ f.pageAddr + f.pageSize ≤ ch.startAddr + ch.len
          ∧ r.hostAddr ≤ ch.startAddr ∧ ch.startAddr + ch.len ≤ r.hostAddr + r.length
          ∧ ch.pageCount * ch.pageSize = ch.len
          ∧ ∀ k < ch.pageCount, ∃ g,
              t.backend.locateFault (ch.startAddr + k * ch.pageSize) = some g
              ∧ g.pageAddr = ch.startAddr + k * ch.pageSize ∧ g.pageSize = ch.pageSize
              ∧ g.pageIndex = ch.firstPageIndex + k
              ∧ t.backend.pages[ch.firstPageIndex + k]? = some g.backendOffset)
      ∧ (∀ a b f g ch ch', t.backend.locateFault a = some f →
        t.backend.locateFault b = some g → t.backend.cowChunkForFault f = some ch →
        t.backend.cowChunkForFault g = some ch' →
        ch = ch' ∨ (∀ x, Within ch.startAddr ch.len x → ¬ Within ch'.startAddr ch'.len x)
          ∧ ∀ i, InChunk ch i → ¬ InChunk ch' i)
      ∧ ∀ q ∈ t.ranges, ∀ x, q.Contains x ↔ ∃ a f ch, q.Contains a
        ∧ t.backend.locateFault a = some f ∧ t.backend.cowChunkForFault f = some ch
        ∧ Within ch.startAddr ch.len x := by
  refine ⟨?_, ?_, ?_⟩
  · intro q hq
    obtain ⟨m, hr⟩ := RangeTable.mem_backend hq
    refine ⟨_, hr, rfl, fun a ha => ?_⟩
    have hal := RangeTable.aligned_of_mem hr
    have hk := hal.page_index_lt ha
    have hf : Located t (TemplateRange.page _ ((a - q.hostAddr) / q.pageSize)) :=
      ⟨_, hr, _, hk, rfl⟩
    obtain ⟨base, ch, hch, -⟩ := RangeTable.cowChunkForFault_page hr hk
    obtain ⟨hlo, hhi, -, hcount⟩ := chunk_in_range hr hk hch
    obtain ⟨hfirst, hlast⟩ := page_in_chunk hf hal.pageSize_pos hch
    exact ⟨_, ch, RangeTable.locateFault_of_contains hr ha, hal.locate_of_contains ha,
      find?_hasIndex hr hk, hch, hfirst, hlast, hlo, hhi, hcount,
      fun k hk' => chunk_pages ⟨_, hch⟩ hk'⟩
  · intro a b f g ch ch' hf hg hch hch'
    by_cases heq : ch = ch'
    · exact .inl heq
    · exact .inr (chunks_apart ⟨f, hch⟩ ⟨g, hch'⟩ heq)
  · intro q hq x
    obtain ⟨m, hr⟩ := RangeTable.mem_backend hq
    constructor
    · intro hx
      have hk := (RangeTable.aligned_of_mem hr).page_index_lt hx
      have hf : Located t (TemplateRange.page _ ((x - q.hostAddr) / q.pageSize)) :=
        ⟨_, hr, _, hk, rfl⟩
      obtain ⟨base, ch, hch, -⟩ := RangeTable.cowChunkForFault_page hr hk
      exact ⟨x, _, ch, hx, RangeTable.locateFault_of_contains hr hx, hch,
        page_within_chunk ⟨_, hch⟩ hf (inChunk_of_fault hf hch) (RangeTable.mem_page hr hx)⟩
    · rintro ⟨a, f, ch, ha, hf, hch, hlo, hhi⟩
      rw [RangeTable.locateFault_of_contains hr ha] at hf
      cases hf
      have hk := (RangeTable.aligned_of_mem hr).page_index_lt ha
      obtain ⟨hstart, hend, -⟩ := chunk_in_range hr hk hch
      dsimp only at hstart hend
      exact ⟨by omega, by omega⟩

end Chunks

/-! ## Tables that are not aligned -/

/-- Every address of a range is located, in a page that lies in one range, and so does
    its part of the snapshot. -/
def Served (b : TemplateRestoreBackend) : Prop :=
  ∀ r ∈ b.ranges, ∀ a, r.Contains a →
    ∃ f, b.locateFault a = some f ∧ f.pageAddr ≤ a ∧ a < f.pageAddr + f.pageSize
      ∧ ∃ q ∈ b.ranges, q.hostAddr ≤ f.pageAddr
        ∧ f.pageAddr + f.pageSize ≤ q.hostAddr + q.length
        ∧ f.backendOffset + f.pageSize ≤ q.fileOffset + q.length

/-- The host addresses do not overlap. -/
def SavedRegion.Apart (g h : SavedRegion) : Prop :=
  g.hostAddr + g.length ≤ h.hostAddr ∨ h.hostAddr + h.length ≤ g.hostAddr

/-- What the memory of the process guarantees for the regions: page sizes are powers of
    two and the regions are mapped apart. -/
structure Mapped (regions : List SavedRegion) : Prop where
  size : ∀ g ∈ regions, ∃ k < 64, g.backingPageSize = 2 ^ k
  bound : ∀ g ∈ regions, g.hostAddr + g.length < 2 ^ 64
  disjoint : regions.Pairwise SavedRegion.Apart

section Served

variable {regions : List SavedRegion} {g : SavedRegion} {r : TemplateRange}

/-- `r` is the range of the region `g`. -/
def IsRangeOf (g : SavedRegion) (r : TemplateRange) : Prop :=
  r.hostAddr = g.hostAddr ∧ r.length = g.length ∧ r.pageSize = g.backingPageSize

variable {m : Nat}

theorem region_of_mem (hr : r ∈ assignIndices n (handlerRanges m regions)) :
    ∃ g ∈ regions, IsRangeOf g r := by
  obtain ⟨-, q, hq, heq⟩ := mem_assignIndices hr
  have hregion : ∃ g ∈ regions, IsRangeOf g q := by
    clear heq hr
    induction regions generalizing m with
    | nil => cases hq
    | cons g regions ih =>
      rcases mem_cons.mp hq with rfl | hq
      · exact ⟨g, mem_cons_self, rfl, rfl, rfl⟩
      · obtain ⟨g', hg', h⟩ := ih hq
        exact ⟨g', mem_cons_of_mem g hg', h⟩
  obtain ⟨g, hg, hhost, hlen, hsize⟩ := hregion
  rw [heq]
  exact ⟨g, hg, hhost, hlen, hsize⟩

theorem range_of_region (hg : g ∈ regions) (n m : Nat) :
    ∃ r ∈ assignIndices n (handlerRanges m regions), IsRangeOf g r := by
  induction regions generalizing n m with
  | nil => cases hg
  | cons h regions ih =>
    rw [handlerRanges, assignIndices]
    rcases mem_cons.mp hg with rfl | hg
    · exact ⟨_, mem_cons_self, rfl, rfl, rfl⟩
    · obtain ⟨r, hr, hof⟩ := ih hg _ _
      exact ⟨r, mem_cons_of_mem _ hr, hof⟩

theorem pairwise_handlerRanges (h : regions.Pairwise SavedRegion.Apart) (n m : Nat) :
    (assignIndices n (handlerRanges m regions)).Pairwise TemplateRange.Apart := by
  induction regions generalizing n m with
  | nil => exact List.Pairwise.nil
  | cons g regions ih =>
    obtain ⟨hg, hrest⟩ := pairwise_cons.mp h
    rw [handlerRanges, assignIndices]
    refine pairwise_cons.mpr ⟨?_, ih hrest _ _⟩
    intro r hr
    obtain ⟨g', hg', hhost, hlen, -⟩ := region_of_mem hr
    show g.hostAddr + g.length ≤ r.hostAddr ∨ r.hostAddr + r.length ≤ g.hostAddr
    rw [hhost, hlen]
    exact hg g' hg'

/-- A located page starts at the rounded address, inside the range that located it. -/
theorem locate_eq {f : TemplateFault} (h : r.locate a = some f) :
    f.pageAddr = alignDown r.pageSize a ∧ f.pageSize = r.pageSize
      ∧ r.hostAddr ≤ f.pageAddr ∧ f.pageAddr < r.hostAddr + r.length := by
  rw [TemplateRange.locate] at h
  split at h
  · cases h
  · rename_i hin
    cases h
    exact ⟨rfl, rfl, by dsimp only; omega, by dsimp only; omega⟩

/-- Where all addresses are served, the page of an address lies in its own range. -/
theorem page_in_range {b : TemplateRestoreBackend} (hpair : b.ranges.Pairwise TemplateRange.Apart)
    (hsize : ∀ q ∈ b.ranges, 0 < q.pageSize) (hserved : Served b) (hr : r ∈ b.ranges)
    (ha : r.Contains a) :
    r.hostAddr ≤ alignDown r.pageSize a
      ∧ alignDown r.pageSize a + r.pageSize ≤ r.hostAddr + r.length := by
  obtain ⟨f, hf, hlo, hhi, q, hq, hqlo, hqhi, -⟩ := hserved r hr a ha
  obtain ⟨p, hp, hloc⟩ := exists_of_findSome?_eq_some hf
  obtain ⟨haddr, hps, hplo, hphi⟩ := locate_eq hloc
  have hpos := hsize p hp
  -- the page has `a`, so its range is `r`, and its first address is in the range that located it
  obtain rfl := range_unique hpair hr hq ha ⟨by omega, by omega⟩
  obtain rfl := range_unique hpair hp hr (a := f.pageAddr) ⟨hplo, hphi⟩ ⟨hqlo, by omega⟩
  rw [haddr, hps] at hqhi
  rw [haddr] at hqlo
  exact ⟨hqlo, hqhi⟩

/-- A range whose first and last page lie in it is made of whole pages. -/
theorem dvd_of_pages (hk : k < 64) (hsize : r.pageSize = 2 ^ k)
    (hbound : r.hostAddr + r.length < 2 ^ 64) (hlen : 0 < r.length)
    (hfirst : r.hostAddr ≤ alignDown r.pageSize r.hostAddr)
    (hlast : alignDown r.pageSize (r.hostAddr + r.length - 1) + r.pageSize
      ≤ r.hostAddr + r.length) : r.pageSize ∣ r.hostAddr ∧ r.pageSize ∣ r.length := by
  have hpos : 0 < r.pageSize := by
    rw [hsize]
    exact Nat.two_pow_pos k
  rw [hsize, alignDown_two_pow hk (by omega), ← hsize] at hfirst
  rw [hsize, alignDown_two_pow hk (by omega), ← hsize] at hlast
  have hhost : r.hostAddr / r.pageSize * r.pageSize = r.hostAddr :=
    Nat.le_antisymm (Nat.div_mul_le_self _ _) hfirst
  have hlt := Nat.lt_div_mul_add (a := r.hostAddr + r.length - 1) hpos
  have hend : ((r.hostAddr + r.length - 1) / r.pageSize + 1) * r.pageSize
      = r.hostAddr + r.length := by
    rw [Nat.succ_mul]
    omega
  have hdvd : r.pageSize ∣ r.hostAddr := ⟨_, by rw [Nat.mul_comm]; exact hhost.symm⟩
  have hdvd' : r.pageSize ∣ r.hostAddr + r.length :=
    ⟨_, by rw [Nat.mul_comm]; exact hend.symm⟩
  exact ⟨hdvd, (Nat.dvd_add_right hdvd).mp hdvd'⟩

/-- The ranges of regions that are mapped. -/
theorem Mapped.ranges (h : Mapped regions) (hr : r ∈ assignIndices n (handlerRanges m regions)) :
    (∃ k < 64, r.pageSize = 2 ^ k) ∧ r.hostAddr + r.length < 2 ^ 64 := by
  obtain ⟨g, hg, hhost, hlen, hps⟩ := region_of_mem hr
  rw [hhost, hlen, hps]
  exact ⟨h.size g hg, h.bound g hg⟩

theorem Mapped.pageSize_pos (h : Mapped regions)
    (hr : r ∈ assignIndices n (handlerRanges m regions)) : 0 < r.pageSize := by
  obtain ⟨⟨k, -, hk⟩, -⟩ := h.ranges hr
  rw [hk]
  exact Nat.two_pow_pos k

/-- The range of an aligned region is aligned, unless it is empty. -/
theorem Mapped.aligned (h : Mapped regions) (halign : ∀ g ∈ regions, 0 < g.length →
      g.backingPageSize ∣ g.hostAddr ∧ g.backingPageSize ∣ g.length)
    (hr : r ∈ assignIndices n (handlerRanges m regions)) (hlen : 0 < r.length) : r.Aligned := by
  obtain ⟨hsize, hbound⟩ := h.ranges hr
  obtain ⟨g, hg, hhost, hlength, hps⟩ := region_of_mem hr
  obtain ⟨hd, hd'⟩ := halign g hg (by omega)
  rw [← hhost, ← hps] at hd
  rw [← hlength, ← hps] at hd'
  exact ⟨hsize, hd, hd', hbound⟩

/-- The page of an address of an aligned range. -/
theorem page_of_aligned (hal : r.Aligned) (ha : r.Contains a) :
    let f := r.page ((a - r.hostAddr) / r.pageSize)
    f.pageAddr ≤ a ∧ a < f.pageAddr + f.pageSize ∧ r.hostAddr ≤ f.pageAddr
      ∧ f.pageAddr + f.pageSize ≤ r.hostAddr + r.length
      ∧ f.backendOffset + f.pageSize ≤ r.fileOffset + r.length := by
  have hpos := hal.pageSize_pos
  have hin := hal.contains_page (hal.page_index_lt ha) (Nat.sub_lt hpos Nat.one_pos)
  have hdiv := Nat.div_add_mod' (a - r.hostAddr) r.pageSize
  have hmod := Nat.mod_lt (a - r.hostAddr) hpos
  obtain ⟨hlo, hhi⟩ := ha
  simp only [TemplateRange.page, TemplateRange.Contains] at hin ⊢
  omega

/-- **WHAT CAN BE SERVED.**  Of the tables that `restore_by_uffd` accepts, the handler can
    serve exactly those where the address and the length of every region are multiples of
    the page size of its memory. -/
theorem served_iff_aligned {basePageSize : Nat} {ranges : List TemplateRange}
    (haccept : restoreRanges basePageSize regions = some ranges) (hmap : Mapped regions) :
    Served (.new ranges) ↔ ∀ g ∈ regions, 0 < g.length →
      g.backingPageSize ∣ g.hostAddr ∧ g.backingPageSize ∣ g.length := by
  have hranges : ranges = handlerRanges 0 regions := by
    rw [restoreRanges] at haccept
    split at haccept
    · cases haccept
    · exact (some.inj haccept).symm
  subst hranges
  have hpair := pairwise_handlerRanges hmap.disjoint 0 0
  constructor
  · intro hserved g hg hlen
    obtain ⟨r, hr, hhost, hlength, hps⟩ := range_of_region hg 0 0
    obtain ⟨⟨k, hk, hsize⟩, hbound⟩ := hmap.ranges hr
    rw [← hhost, ← hlength, ← hps]
    rw [← hlength] at hlen
    have hpage := fun a => page_in_range (a := a) hpair (fun q => hmap.pageSize_pos) hserved hr
    exact dvd_of_pages hk hsize hbound hlen
      (hpage r.hostAddr ⟨by omega, by omega⟩).1
      (hpage (r.hostAddr + r.length - 1) ⟨by omega, by omega⟩).2
  · intro halign r hr a ha
    have haddr : a < 2 ^ 64 := Nat.lt_trans ha.2 (hmap.ranges hr).2
    -- an empty range locates nothing
    have hall : ∀ q ∈ assignIndices 0 (handlerRanges 0 regions), ∀ f,
        q.locate a = some f → q.Contains a := by
      intro q hq f hf
      obtain ⟨-, -, hlo, hhi⟩ := locate_eq hf
      exact (hmap.aligned halign hq (by omega)).contains_of_locate haddr hf
    have hal : r.Aligned := by
      obtain ⟨hlo, hhi⟩ := ha
      exact hmap.aligned halign hr (by omega)
    obtain ⟨hlo, hhi, hpage⟩ := page_of_aligned hal ha
    exact ⟨_, findSome?_locate hpair hall hr ha (hal.locate_of_contains ha), hlo, hhi, r, hr, hpage⟩

end Served

theorem mapped_singleton {g : SavedRegion} (hk : k < 64) (hsize : g.backingPageSize = 2 ^ k)
    (hbound : g.hostAddr + g.length < 2 ^ 64) : Mapped [g] where
  size := by
    intro h hh
    rw [mem_singleton.mp hh]
    exact ⟨k, hk, hsize⟩
  bound := by
    intro h hh
    rw [mem_singleton.mp hh]
    exact hbound
  disjoint := pairwise_singleton _ _

/-- A region of 2 MiB in memory with pages of 2 MiB. -/
def hugePage : SavedRegion where
  gpa := 0x200000
  length := 0x200000
  hostAddr := 0x40200000
  backingPageSize := 0x200000

theorem hugePage_served :
    restoreRanges 4096 [hugePage] = some (handlerRanges 0 [hugePage])
      ∧ Served (.new (handlerRanges 0 [hugePage])) := by
  have haccept : restoreRanges 4096 [hugePage] = some (handlerRanges 0 [hugePage]) := rfl
  refine ⟨haccept, (served_iff_aligned haccept
    (mapped_singleton (g := hugePage) (k := 21) (by decide) rfl (by decide))).mpr ?_⟩
  intro g hg _
  rw [mem_singleton.mp hg]
  exact ⟨by decide, by decide⟩

/-- The same region where the memory has pages of 1 GiB, as virtio-mem hands it out. -/
def subBlock : SavedRegion := { hugePage with backingPageSize := 0x40000000 }

/-- It is accepted, and none of its addresses is located: the handler gives up on the
    first fault. -/
theorem subBlock_not_served :
    restoreRanges 4096 [subBlock] = some (handlerRanges 0 [subBlock])
      ∧ Mapped [subBlock]
      ∧ (∀ a, subBlock.hostAddr ≤ a → a < subBlock.hostAddr + subBlock.length →
        (TemplateRestoreBackend.new (handlerRanges 0 [subBlock])).locateFault a = none)
      ∧ ¬ Served (.new (handlerRanges 0 [subBlock])) := by
  have hnone : ∀ a, subBlock.hostAddr ≤ a → a < subBlock.hostAddr + subBlock.length →
      (TemplateRestoreBackend.new (handlerRanges 0 [subBlock])).locateFault a = none := by
    intro a hlo hhi
    simp only [subBlock, hugePage] at hlo hhi
    have hdown : alignDown 0x40000000 a = 0x40000000 := by
      have h := alignDown_two_pow (k := 30) (a := a) (by decide) (by omega)
      rw [show (0x40000000 : Nat) = 2 ^ 30 by rfl, h]
      omega
    simp [TemplateRestoreBackend.new, TemplateRestoreBackend.locateFault, handlerRanges,
      assignIndices, TemplateRange.new, TemplateRange.locate, subBlock, hugePage, hdown]
  refine ⟨rfl, mapped_singleton (k := 30) (by decide) rfl (by decide), hnone, ?_⟩
  intro hserved
  obtain ⟨f, hf, -⟩ := hserved _ mem_cons_self subBlock.hostAddr ⟨Nat.le_refl _, by decide⟩
  rw [hnone _ (Nat.le_refl _) (by decide)] at hf
  cases hf

end RestoreRange
