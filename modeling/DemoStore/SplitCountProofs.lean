import DemoStore.SplitSnapshotProofs

/-! # The split tool — what it reports

    `main` counts a page as unique whenever `write_page_to_slot` returns 0, and that is
    also what it returns for a page that is stored already.  The counter is therefore the
    number of pages that were handed over, and `pages.bin` has one page for each content
    among them. -/

namespace SplitSnapshot

open SparseFile ProbeTable PageStore List

/-! ## The contents of `pages.bin` -/

/-- The pages in the slots that are taken. -/
def storedContents (f : File) : Finset (List UInt8) :=
  (Finset.univ.filter fun s => tableOf f s ≠ none).image fun s => dataAt f s.val

section Count

variable {hash : List UInt8 → UInt64} {openPages : Nat → Bool} {snapshot : File}
variable {n k : Nat} {st : LoopState} {page : List UInt8}

theorem mem_storedContents {f : File} :
    page ∈ storedContents f ↔ ∃ s x, tableOf f s = some x ∧ dataAt f s.val = page := by
  rw [storedContents, Finset.mem_image]
  constructor
  · rintro ⟨s, hs, rfl⟩
    obtain ⟨x, hx⟩ := Option.ne_none_iff_exists'.mp (Finset.mem_filter.mp hs).2
    exact ⟨s, x, hx, rfl⟩
  · rintro ⟨s, x, hx, rfl⟩
    refine ⟨s, Finset.mem_filter.mpr ⟨Finset.mem_univ s, ?_⟩, rfl⟩
    rw [hx]
    simp

/-- The hash of a stored page is the one in the header. -/
theorem hash_dataAt (hinv : LoopInv hash openPages snapshot n st) {s : ZMod hashModulus}
    {x : UInt64} (h : tableOf (st.pages.getD SparseFile.empty) s = some x) :
    hash (dataAt (st.pages.getD SparseFile.empty) s.val) = x := by
  obtain ⟨i, -, hx, hdata⟩ := hinv.content s x h
  rw [hdata, hx]

/-- **ONE PAGE FOR EACH CONTENT.**  If every insertion finds a slot, there are as many
    contents in `pages.bin` as different hashes were handed over. -/
theorem card_storedContents (hinv : LoopInv hash openPages snapshot n st)
    (hinj : ∀ i < n, ∀ j < n, hash (pageAt snapshot i) = hash (pageAt snapshot j) →
      pageAt snapshot i = pageAt snapshot j)
    (hfits : Fits home maxProbeCount ∅ (writtenHashes hash openPages snapshot n)) :
    (storedContents (st.pages.getD SparseFile.empty)).card
      = (writtenHashes hash openPages snapshot n).toFinset.card := by
  have himage : (storedContents (st.pages.getD SparseFile.empty)).image hash
      = (writtenHashes hash openPages snapshot n).toFinset := by
    ext x
    rw [Finset.mem_image, List.mem_toFinset]
    constructor
    · rintro ⟨page, hpage, rfl⟩
      obtain ⟨s, x, hx, rfl⟩ := mem_storedContents.mp hpage
      rw [hash_dataAt hinv hx]
      rw [hinv.table] at hx
      rcases mem_of_stored_fill _ ⟨s, hx⟩ with ⟨_, hnone⟩ | hmem
      · cases hnone
      · exact hmem
    · intro hx
      obtain ⟨s, hs⟩ := (all_stored_fill_iff (by decide) _).mpr hfits x hx
      rw [← hinv.table] at hs
      exact ⟨_, mem_storedContents.mpr ⟨s, x, hs, rfl⟩, hash_dataAt hinv hs⟩
  rw [← himage]
  refine (Finset.card_image_of_injOn ?_).symm
  intro a ha b hb hab
  obtain ⟨s, x, hx, rfl⟩ := mem_storedContents.mp ha
  obtain ⟨t, y, hy, rfl⟩ := mem_storedContents.mp hb
  obtain ⟨i, hi, -, hdi⟩ := hinv.content s x hx
  obtain ⟨j, hj, -, hdj⟩ := hinv.content t y hy
  rw [hdi, hdj] at hab ⊢
  exact hinj i hi j hj hab

/-! ## The counter -/

/-- The pages handed to an opened `pages.bin`, in order. -/
def handedPages (openPages : Nat → Bool) (snapshot : File) (n : Nat) : List (List UInt8) :=
  ((List.range n).filter openPages).map (pageAt snapshot)

theorem exists_of_mem_handedPages (h : page ∈ handedPages openPages snapshot n) :
    ∃ i < n, pageAt snapshot i = page := by
  obtain ⟨i, hi, hpage⟩ := List.mem_map.mp h
  exact ⟨i, mem_range.mp (mem_filter.mp hi).1, hpage⟩

theorem writtenHashes_eq :
    writtenHashes hash openPages snapshot n = (handedPages openPages snapshot n).map hash := by
  rw [writtenHashes, handedPages, List.map_map]
  rfl

variable (hash openPages snapshot) in
/-- What is handed over before page `k` comes first in what is handed over at all. -/
theorem exists_writtenHashes_append (hk : k ≤ n) :
    ∃ post, writtenHashes hash openPages snapshot n
      = writtenHashes hash openPages snapshot k ++ post := by
  induction n, hk using Nat.le_induction with
  | base => exact ⟨[], (append_nil _).symm⟩
  | succ n _ ih =>
    obtain ⟨post, hpost⟩ := ih
    rw [writtenHashes_succ, hpost, append_assoc]
    exact ⟨_, rfl⟩

/-- The state before page `k`: `pages.bin` is as in a run whose page table was empty at
    first, and the counter is the number of pages handed over. -/
structure CountInv (hash : List UInt8 → UInt64) (openPages : Nat → Bool) (snapshot : File)
    (k : Nat) (st : LoopState) : Prop where
  stored : ∃ st', LoopInv hash openPages snapshot k st' ∧ st.pages = st'.pages
  count : st.uniquePages = (handedPages openPages snapshot k).length

/-- **ONE ITERATION** counts the page if it was handed over. -/
theorem countInv_storePage (hinv : CountInv hash openPages snapshot k st)
    (hnz : hash (pageAt snapshot k) ≠ 0) (hk : k < n)
    (hfits : Fits home maxProbeCount ∅ (writtenHashes hash openPages snapshot n)) :
    CountInv hash openPages snapshot (k + 1)
      (storePage hash openPages k (pageAt snapshot k) st) := by
  obtain ⟨⟨st', hst', hpages⟩, hcount⟩ := hinv
  refine ⟨⟨_, loopInv_storePage hst' hnz, ?_⟩, ?_⟩
  · rw [storePage, storePage, hpages]
  · have hstep : (storePage hash openPages k (pageAt snapshot k) st).uniquePages
        = if (writePageToSlot (openPages k) st'.pages (hash (pageAt snapshot k))
            (pageAt snapshot k)).1 = 0 then st.uniquePages + 1 else st.uniquePages := by
      rw [storePage, hpages]
    rw [hstep, hcount, handedPages, handedPages, range_succ, filter_append,
      map_append, length_append]
    cases hopen : openPages k with
    | false =>
      have hret : (writePageToSlot false st'.pages (hash (pageAt snapshot k))
          (pageAt snapshot k)).1 ≠ 0 := by
        show (-1 : Int) ≠ 0
        decide
      rw [if_neg hret]
      simp [hopen]
    | true =>
      obtain ⟨post, hpost⟩ := exists_writtenHashes_append hash openPages snapshot hk
      rw [hpost, writtenHashes_succ, hopen, if_pos rfl, append_assoc] at hfits
      have hret := search_fill_of_fits (by decide) hfits
      rw [← hst'.table] at hret
      rw [writePageToSlot_ret rfl hst'.whole, if_neg hret, if_pos rfl]
      simp [hopen]

/-- **THE WHOLE RUN.**  It counts every page that is handed over, whatever was in
    `page_table.bin` before. -/
theorem splitMain_count {env : MainEnv} {outputDir : String} {pageTable : Option File}
    {metadata : Metadata} (hwhole : pageSize ∣ snapshot.size)
    (hnz : ∀ k < snapshot.size / pageSize, hash (pageAt snapshot k) ≠ 0)
    (hfits : Fits home maxProbeCount ∅
      (writtenHashes hash env.openPages snapshot (snapshot.size / pageSize)))
    (hmeta : (splitMain hash env outputDir snapshot pageTable none).metadata = some metadata) :
    ∃ st, LoopInv hash env.openPages snapshot (snapshot.size / pageSize) st
      ∧ (splitMain hash env outputDir snapshot pageTable none).pages = st.pages
      ∧ metadata.uniquePages
          = (handedPages env.openPages snapshot (snapshot.size / pageSize)).length := by
  have hstart : CountInv hash env.openPages snapshot 0
      ⟨pageTable.getD SparseFile.empty, 0, none, 0⟩ :=
    ⟨⟨_, loopInv_start hash env.openPages snapshot, rfl⟩, rfl⟩
  obtain ⟨⟨st', hinv, hpages⟩, hcount⟩ := pageLoop_invariant hwhole
    (fun k st hk (h : CountInv hash env.openPages snapshot k st) =>
      countInv_storePage h (hnz k hk) hk hfits)
    (snapshot.size / pageSize + 1) 0 _ (by omega) hstart (Nat.zero_le _)
  refine ⟨st', hinv, ?_⟩
  rcases splitMain_cases hash env outputDir snapshot pageTable none with
    ⟨-, hnone⟩ | ⟨st, hst, heq⟩
  · rw [hnone] at hmeta
    cases hmeta
  · rw [← hst] at hpages hcount
    rw [heq] at hmeta ⊢
    dsimp only at hmeta
    split at hmeta
    · cases hmeta
      exact ⟨hpages, hcount⟩
    · cases hmeta

/-- **WHAT `unique_pages` IS WORTH.**  If no insertion runs out of probes, the counter in
    `metadata.json` is the number of contents in `pages.bin` exactly when no page was
    handed over twice. -/
theorem unique_pages_iff (hash : List UInt8 → UInt64) (env : MainEnv) (outputDir : String)
    (snapshot : File) (pageTable : Option File) (metadata : Metadata)
    (hwhole : pageSize ∣ snapshot.size)
    (hnz : ∀ k < snapshot.size / pageSize, hash (pageAt snapshot k) ≠ 0)
    (hinj : ∀ i < snapshot.size / pageSize, ∀ j < snapshot.size / pageSize,
      hash (pageAt snapshot i) = hash (pageAt snapshot j) →
      pageAt snapshot i = pageAt snapshot j)
    (hfits : Fits home maxProbeCount ∅
      (writtenHashes hash env.openPages snapshot (snapshot.size / pageSize)))
    (hmeta : (splitMain hash env outputDir snapshot pageTable none).metadata = some metadata) :
    metadata.uniquePages
        = (storedContents ((splitMain hash env outputDir snapshot pageTable none).pages.getD
            SparseFile.empty)).card
      ↔ (handedPages env.openPages snapshot (snapshot.size / pageSize)).Nodup := by
  obtain ⟨st, hinv, hpages, hcount⟩ := splitMain_count hwhole hnz hfits hmeta
  have hinjOn : ∀ a ∈ handedPages env.openPages snapshot (snapshot.size / pageSize),
      ∀ b ∈ handedPages env.openPages snapshot (snapshot.size / pageSize),
      hash a = hash b → a = b := by
    intro a ha b hb hab
    obtain ⟨i, hi, rfl⟩ := exists_of_mem_handedPages ha
    obtain ⟨j, hj, rfl⟩ := exists_of_mem_handedPages hb
    exact hinj i hi j hj hab
  rw [hpages, card_storedContents hinv hinj hfits, hcount, writtenHashes_eq, ← length_map hash]
  constructor
  · intro h
    exact List.Nodup.of_map hash (Multiset.toFinset_card_eq_card_iff_nodup.mp h.symm)
  · intro h
    exact (toFinset_card_of_nodup (h.map_on hinjOn)).symm

/-- The metadata of a run in which no call fails. -/
theorem splitMain_metadata (hash : List UInt8 → UInt64) (outputDir : String)
    (snapshot : File) :
    ∃ metadata, (splitMain hash noFailure outputDir snapshot none none).metadata
      = some metadata := ⟨_, rfl⟩

/-- Sixty-four different pages are counted once each, though their hashes collide. -/
theorem colliding_pages_unique :
    ∃ metadata, (splitMain sameHome noFailure "out" (markedSnapshot 64) none none).metadata
        = some metadata
      ∧ metadata.uniquePages
        = (storedContents ((splitMain sameHome noFailure "out" (markedSnapshot 64) none
            none).pages.getD SparseFile.empty)).card := by
  obtain ⟨metadata, hmeta⟩ := splitMain_metadata sameHome "out" (markedSnapshot 64)
  refine ⟨metadata, hmeta, (unique_pages_iff sameHome noFailure "out" (markedSnapshot 64) none
    metadata ⟨64, Nat.mul_comm _ _⟩ (markedSnapshot_nonzero (by decide))
    (markedSnapshot_inj (by decide)) ?_ hmeta).mpr ?_⟩
  · rw [markedSnapshot_pages]
    exact fits_of_le_probes _ _ _ (Nat.le_refl 64)
  · rw [markedSnapshot_pages, handedPages]
    refine List.Nodup.map_on ?_ (nodup_range.filter _)
    intro i hi j hj h
    have hi := mem_range.mp (mem_filter.mp hi).1
    have hj := mem_range.mp (mem_filter.mp hj).1
    -- the hashes tell the pages apart
    have hhash := congrArg sameHome h
    rw [sameHome_markedSnapshot hi (by decide), sameHome_markedSnapshot hj (by decide)] at hhash
    exact marked_inj (by omega) (by omega) hhash

/-- Two pages of zeros. -/
def twoZeroPages : File where
  size := 2 * pageSize
  byte := fun _ => 0
  hole := fun _ _ => rfl

/-- A hash that is injective on the pages of `twoZeroPages`. -/
def hashOne (_ : List UInt8) : UInt64 := 1

theorem hashOne_ne_zero (page : List UInt8) : hashOne page ≠ 0 := by
  rw [hashOne]
  decide

theorem pageAt_twoZeroPages (i : Nat) : pageAt twoZeroPages i = List.replicate pageSize 0 := by
  refine eq_replicate_iff.mpr ⟨length_pageAt i, ?_⟩
  intro b hb
  obtain ⟨_, -, rfl⟩ := List.mem_map.mp hb
  rfl

/-- **TWO EQUAL PAGES** are stored once and counted twice; the hash is injective on them
    and no insertion runs out of probes. -/
theorem equal_pages_counted_twice :
    (∀ i < 2, ∀ j < 2, hashOne (pageAt twoZeroPages i) = hashOne (pageAt twoZeroPages j) →
      pageAt twoZeroPages i = pageAt twoZeroPages j)
    ∧ Fits home maxProbeCount ∅ (writtenHashes hashOne noFailure.openPages twoZeroPages 2)
    ∧ ∃ metadata, (splitMain hashOne noFailure "out" twoZeroPages none none).metadata
        = some metadata
      ∧ metadata.uniquePages = 2
      ∧ (storedContents ((splitMain hashOne noFailure "out" twoZeroPages none
          none).pages.getD SparseFile.empty)).card = 1 := by
  have hpages : twoZeroPages.size / pageSize = 2 := by decide
  have hinj : ∀ i < 2, ∀ j < 2,
      hashOne (pageAt twoZeroPages i) = hashOne (pageAt twoZeroPages j) →
      pageAt twoZeroPages i = pageAt twoZeroPages j := by
    intro i _ j _ _
    rw [pageAt_twoZeroPages, pageAt_twoZeroPages]
  have hfits : Fits home maxProbeCount ∅
      (writtenHashes hashOne noFailure.openPages twoZeroPages 2) :=
    fits_of_le_probes _ _ _ (by decide)
  refine ⟨hinj, hfits, ?_⟩
  rw [← hpages] at hinj hfits
  obtain ⟨metadata, hmeta⟩ := splitMain_metadata hashOne "out" twoZeroPages
  obtain ⟨st, hinv, hst, hcount⟩ :=
    splitMain_count ⟨2, rfl⟩ (fun _ _ => hashOne_ne_zero _) hfits hmeta
  refine ⟨metadata, hmeta, ?_, ?_⟩
  · rw [hcount, hpages]
    rfl
  · rw [hst, card_storedContents hinv hinj hfits, hpages]
    rfl

end Count

end SplitSnapshot
