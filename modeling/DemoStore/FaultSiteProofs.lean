import DemoStore.PageLedgerProofs
import DemoStore.RestoreHostProofs

/-! # Where the restore handler works

    Over a well-formed table a fault is one page, whatever address was reported: an
    address of the page is located there, an index belongs to one page, and the
    pages of a chunk lie in the chunk.  `Sited` carries these facts to every
    program counter of the handler. -/

namespace FaultSite

open GuestMemory RestoreRange RestoreHandler RestoreHost PageLedger MachineRun

variable {t : RangeTable} {f g : TemplateFault} {ch : TemplateCowChunk}

/-! ## Pages -/

theorem two_pow_dvd_alignDown {k : Nat} (hk : k < 64) (a : Nat) : 2 ^ k ∣ alignDown (2 ^ k) a := by
  have hmask : (2 ^ 64 - 1 - (2 ^ k - 1)) % 2 ^ k = 0 := by
    have hpow : 2 ^ 64 = 2 ^ k * 2 ^ (64 - k) := by rw [← Nat.pow_add, Nat.add_sub_cancel' hk.le]
    have hpos := Nat.two_pow_pos k
    rw [show 2 ^ 64 - 1 - (2 ^ k - 1) = 2 ^ 64 - 2 ^ k by omega, hpow,
      show 2 ^ k * 2 ^ (64 - k) - 2 ^ k = 2 ^ k * (2 ^ (64 - k) - 1) by
        rw [Nat.mul_sub, Nat.mul_one]]
    exact Nat.mul_mod_right _ _
  rw [Nat.dvd_iff_mod_eq_zero, alignDown, Nat.and_mod_two_pow, hmask, Nat.and_zero]

variable {a bufLen : Nat} {file : Nat → UInt8} {s s' : RestoreState}

/-- An aligned range locates whole pages. -/
theorem locate_page {r : TemplateRange} (hal : r.Aligned) (h : r.locate a = some f) :
    ∃ k < r.pageCount, f = r.page k := by
  obtain ⟨e, he, hsize⟩ := hal.size
  have hpos := hal.pageSize_pos
  rw [TemplateRange.locate] at h
  split at h
  · cases h
  · rename_i hin
    cases h
    have hdvd : r.pageSize ∣ alignDown r.pageSize a - r.hostAddr := by
      refine Nat.dvd_sub ?_ hal.host
      rw [hsize]
      exact two_pow_dvd_alignDown he a
    obtain ⟨k, hk⟩ := hdvd
    rw [Nat.mul_comm] at hk
    refine ⟨k, ?_, ?_⟩
    · rw [TemplateRange.pageCount, lt_divCeil hpos]
      omega
    · have hdiv : (alignDown r.pageSize a - r.hostAddr) / r.pageSize = k := by
        rw [hk, Nat.mul_div_cancel _ hpos]
      simp only [TemplateRange.page, TemplateFault.mk.injEq, hdiv, true_and]
      omega

/-- Whatever address was reported, the fault is a page. -/
theorem located_of_locateFault (h : t.backend.locateFault a = some f) : Located t f := by
  obtain ⟨r, hr, hloc⟩ := List.exists_of_findSome?_eq_some h
  obtain ⟨k, hk, rfl⟩ := locate_page (RangeTable.aligned_of_mem hr) hloc
  exact ⟨r, hr, k, hk, rfl⟩

/-- The addresses of a page are located there. -/
theorem locateFault_within (hf : Located t f) (ha : Within f.pageAddr f.pageSize a) :
    t.backend.locateFault a = some f := by
  obtain ⟨r, hr, k, hk, rfl⟩ := hf
  obtain ⟨j, hj, rfl⟩ := exists_of_within ha
  have hj : j < r.pageSize := hj
  rw [RangeTable.locateFault_of_contains hr ((RangeTable.aligned_of_mem hr).contains_page hk hj)]
  have hdiv : ((r.page k).pageAddr + j - r.hostAddr) / r.pageSize = k := by
    show (r.hostAddr + k * r.pageSize + j - r.hostAddr) / r.pageSize = k
    rw [Nat.add_assoc, Nat.add_sub_cancel_left, Nat.mul_comm,
      Nat.mul_add_div (by omega), Nat.div_eq_of_lt hj, Nat.add_zero]
  rw [hdiv]

/-- Two pages with a common address are one page. -/
theorem located_meet (hf : Located t f) (hg : Located t g) (haf : Within f.pageAddr f.pageSize a)
    (hag : Within g.pageAddr g.pageSize a) : f = g :=
  Option.some.inj ((locateFault_within hf haf).symm.trans (locateFault_within hg hag))

/-- An index belongs to one page. -/
theorem located_unique (hf : Located t f) (hg : Located t g)
    (h : f.pageIndex = g.pageIndex) : f = g := by
  obtain ⟨r, hr, k, hk, rfl⟩ := hf
  obtain ⟨r', hr', k', hk', rfl⟩ := hg
  obtain ⟨rfl, rfl⟩ := index_unique hr hr' hk hk' h
  rfl

theorem located_first (hf : Located t f) : Within f.pageAddr f.pageSize f.pageAddr := by
  obtain ⟨r, hr, k, -, rfl⟩ := hf
  exact within_add (j := 0) (RangeTable.aligned_of_mem hr).pageSize_pos

/-! ## Chunks -/

theorem cowChunk_range (h : CowChunk t.backend ch) :
    ∃ r ∈ t.backend.ranges, ∃ k < r.pageCount, ch = r.cowChunk (r.firstPageIndex + k) := by
  obtain ⟨f, hf⟩ := h
  obtain ⟨r, hfind, rfl⟩ := Option.map_eq_some_iff.mp hf
  have hidx := List.find?_some hfind
  simp only [TemplateRange.hasIndex, Bool.and_eq_true, decide_eq_true_eq] at hidx
  refine ⟨r, List.mem_of_find?_eq_some hfind, f.pageIndex - r.firstPageIndex, by omega, ?_⟩
  rw [Nat.add_sub_cancel' hidx.1]

/-- The pages of a chunk, with the addresses `handle_wp_fault` computes. -/
theorem located_of_inChunk (h : CowChunk t.backend ch) {i : Nat} (hi : InChunk ch i) :
    ∃ f, Located t f ∧ f.pageIndex = i ∧ f.pageAddr = chunkPageAddr ch i
      ∧ f.pageSize = ch.pageSize := by
  obtain ⟨r, hr, k, hk, rfl⟩ := cowChunk_range h
  obtain ⟨base, hch⟩ := cowChunk_isChunk (RangeTable.aligned_of_mem hr) hk
  obtain ⟨hlo, hhi⟩ := hi
  have hfits := hch.fits
  obtain ⟨haddr, hidx⟩ := hch.page_eq (i - (r.cowChunk (r.firstPageIndex + k)).firstPageIndex)
  refine ⟨_, ⟨r, hr, base + (i - (r.cowChunk (r.firstPageIndex + k)).firstPageIndex),
    by omega, rfl⟩, ?_, ?_, hch.size.symm⟩
  · rw [← hidx]
    omega
  · rw [chunkPageAddr, haddr]

/-- A page of the chunk lies in it. -/
theorem page_within_chunk (h : CowChunk t.backend ch) (hf : Located t f)
    (hin : InChunk ch f.pageIndex) (ha : Within f.pageAddr f.pageSize a) :
    Within ch.startAddr ch.len a := by
  obtain ⟨g, hg, hidx, haddr, hsize⟩ := located_of_inChunk h hin
  obtain rfl := located_unique hg hf hidx
  obtain ⟨r, hr, k, hk, rfl⟩ := cowChunk_range h
  obtain ⟨base, hch⟩ := cowChunk_isChunk (RangeTable.aligned_of_mem hr) hk
  obtain ⟨hlo, hhi⟩ := ha
  obtain ⟨hfirst, hlast⟩ := hin
  rw [haddr, chunkPageAddr] at hlo hhi
  generalize r.cowChunk (r.firstPageIndex + k) = ch at *
  -- the page ends where the next one starts, at the end of the chunk at the latest
  have hle : (g.pageIndex - ch.firstPageIndex + 1) * ch.pageSize
      ≤ ch.pageCount * ch.pageSize := Nat.mul_le_mul_right _ (by omega)
  rw [Nat.succ_mul] at hle
  have hlen : ch.len = ch.pageCount * ch.pageSize := by rw [hch.len, hch.size]
  exact ⟨by omega, by omega⟩

/-- Every address of a chunk lies in one of its pages. -/
theorem exists_page_of_within (h : CowChunk t.backend ch) (ha : Within ch.startAddr ch.len a) :
    ∃ g, Located t g ∧ InChunk ch g.pageIndex ∧ Within g.pageAddr g.pageSize a := by
  have hch := h
  obtain ⟨r, hr, k, hk, rfl⟩ := cowChunk_range h
  obtain ⟨base, hbase⟩ := cowChunk_isChunk (RangeTable.aligned_of_mem hr) hk
  generalize r.cowChunk (r.firstPageIndex + k) = ch at *
  have hpos : 0 < ch.pageSize := by
    rw [hbase.size]
    exact (RangeTable.aligned_of_mem hr).pageSize_pos
  have hlen : ch.len = ch.pageCount * ch.pageSize := by rw [hbase.len, hbase.size]
  obtain ⟨j, hj, rfl⟩ := exists_of_within ha
  have hq : j / ch.pageSize < ch.pageCount := by
    rw [Nat.div_lt_iff_lt_mul hpos, ← hlen]
    exact hj
  have hin : InChunk ch (ch.firstPageIndex + j / ch.pageSize) :=
    ⟨Nat.le_add_right _ _, Nat.add_lt_add_left hq _⟩
  obtain ⟨g, hg, hidx, haddr, hsize⟩ := located_of_inChunk hch hin
  refine ⟨g, hg, by rw [hidx]; exact hin, ?_⟩
  have hdiv := Nat.div_add_mod' j ch.pageSize
  have hlt := Nat.mod_lt j hpos
  rw [haddr, hsize, chunkPageAddr, Nat.add_sub_cancel_left]
  exact ⟨by omega, by omega⟩

/-- A page with an address in the chunk is a page of the chunk. -/
theorem inChunk_of_within (h : CowChunk t.backend ch) (hf : Located t f)
    (ha : Within f.pageAddr f.pageSize a) (hach : Within ch.startAddr ch.len a) :
    InChunk ch f.pageIndex := by
  obtain ⟨g, hg, hin, hag⟩ := exists_page_of_within h hach
  rw [located_meet hf hg ha hag]
  exact hin

/-- The chunk of a fault has its page. -/
theorem inChunk_of_fault (hf : Located t f) (h : t.backend.cowChunkForFault f = some ch) :
    InChunk ch f.pageIndex := by
  obtain ⟨r, hr, k, hk, rfl⟩ := hf
  have hfind : t.backend.ranges.find? (TemplateRange.hasIndex (r.page k).pageIndex)
      = some r := find?_hasIndex hr hk
  rw [TemplateRestoreBackend.cowChunkForFault, hfind] at h
  cases h
  obtain ⟨e, -, he⟩ := (RangeTable.aligned_of_mem hr).size
  exact (inChunk_cowChunk he k _).mpr ⟨k, hk, rfl, rfl⟩

/-! ## Program counters -/

/-- The faults and chunks the handler's locals describe. -/
def Sited (t : RangeTable) : HandlerPc → Prop
  | .claim f => Located t f
  | .spin f => Located t f
  | .readPage f => Located t f
  | .copyPage f _ => Located t f
  | .storeShared f _ => Located t f
  | .wakePage f => Located t f
  | .acquire f ch _ _ => Located t f ∧ t.backend.cowChunkForFault f = some ch
  | .load ch _ _ => CowChunk t.backend ch
  | .install ch _ _ _ _ => CowChunk t.backend ch
  | .snapshot ch _ => CowChunk t.backend ch
  | .unprotect ch _ _ => CowChunk t.backend ch
  | .remap ch _ _ => CowChunk t.backend ch
  | .copyBack ch _ _ => CowChunk t.backend ch
  | .mark ch _ _ => CowChunk t.backend ch
  | .wakeChunk ch => CowChunk t.backend ch
  | _ => True

theorem sited_move {event : Nat} {out : Outcome} (h : Sited t s.pc)
    (hmove : HandlerMove t.backend file bufLen s event out s') : Sited t s'.pc := by
  cases hmove with
  | failed | refused => trivial
  | againPage | againChunk | spinning | yielded => exact h
  | eventMissing hpc hev hloc hwp => exact located_of_locateFault hloc
  | eventWp hpc hev hloc hwp hch => exact ⟨located_of_locateFault hloc, hch⟩
  | stored hpc =>
    rename_i present
    rw [hpc] at h
    cases present with
    | true => exact h
    | false => trivial
  | allPrivate hpc hk => rw [hpc] at h; exact h.1
  | allAcquired hpc hk hne => rw [hpc] at h; exact ⟨_, h.2⟩
  | ready | wakeFailed | wokePage | wokeChunk => trivial
  | claimed hpc | contended hpc | claimReady hpc | spun hpc | read hpc | copied hpc
  | acquired hpc | skipped hpc | loaded hpc | readChunk hpc | installed hpc | saved hpc
  | unprotected hpc | remapped hpc | copiedBack hpc | marked hpc | counted hpc =>
    rw [hpc] at h; exact h

theorem sited_step {l : HostLabel} (h : Sited t s.pc)
    (hstep : hostStep t.backend file bufLen s l = some s') : Sited t s'.pc := by
  rcases hostStep_cases hstep with ⟨event, out, rfl, hh⟩ | ⟨-, hframe⟩
  · exact sited_move h (move_of_handlerStep hh)
  · rw [hframe.pc]
    exact h

end FaultSite
