import DemoStore.PageStoreProofs

/-! # The split tool — what a processed snapshot can be restored from

    `split_snapshot` cuts a snapshot into pages, appends one entry a page to
    `page_table.bin` and stores the page in `pages.bin`, once for each hash.  Its
    `main` does not look at a failed `write_page_to_slot` beyond the counter, so
    the exit status says nothing about whether all pages found a slot.

    `split_restorable_iff` says exactly when they did, in terms of the hashes of
    the snapshot alone; `ProbeTable.all_stored_iff` does the combinatorics. -/

namespace SplitSnapshot

open SparseFile ProbeTable PageStore List Option

/-! ## `main` -/

/-- What the calls of `main` that may fail return; `openPages k` is the `open`
    in the call of `write_page_to_slot` for page `k`. -/
structure MainEnv where
  openSnapshot : Bool
  stat : Bool
  openPageTable : Bool
  malloc : Bool
  openPages : Nat → Bool
  fopenMetadata : Bool

/-- `metadata.json`. -/
structure Metadata where
  templateId : String
  totalSize : Nat
  pageCount : Nat
  uniquePages : Nat
  hashModulus : Nat

/-- The exit status and the files of the output directory. -/
structure SplitOutput where
  status : Nat
  pageTable : Option File
  pages : Option File
  metadata : Option Metadata

/-- The variables of the page loop; `ptPos` is the file position of `pt_fd`. -/
structure LoopState where
  pageTable : File
  ptPos : Nat
  pages : Option File
  uniquePages : Nat

/-- One iteration after the page was read. -/
def storePage (hash : List UInt8 → UInt64) (openPages : Nat → Bool) (k : Nat)
    (pageData : List UInt8) (st : LoopState) : LoopState :=
  let hashIdx := hash pageData
  let pte : PageTableEntry := ⟨UInt64.ofNat (k * pageSize), hashIdx⟩
  let r := writePageToSlot (openPages k) st.pages hashIdx pageData
  { pageTable := pwrite st.pageTable st.ptPos pte.toBytes
    ptPos := st.ptPos + 16
    pages := r.2
    uniquePages := if r.1 = 0 then st.uniquePages + 1 else st.uniquePages }

/-- The page loop from page `k` on; a short read breaks out of it. -/
def pageLoop (hash : List UInt8 → UInt64) (openPages : Nat → Bool)
    (snapshot : File) : Nat → Nat → LoopState → LoopState
  | 0, _, st => st
  | n + 1, k, st =>
    if k * pageSize < snapshot.size then
      let pageData := pread snapshot (k * pageSize) pageSize
      if pageData.length ≠ pageSize then st
      else pageLoop hash openPages snapshot n (k + 1)
        (storePage hash openPages k pageData st)
    else st

/-- `main` on an output directory that holds `pageTable` and `pages` (`none`: no
    such file).  The paths are taken to fit their buffers. -/
def splitMain (hash : List UInt8 → UInt64) (env : MainEnv) (outputDir : String)
    (snapshot : File) (pageTable pages : Option File) : SplitOutput :=
  if env.openSnapshot = false then ⟨1, pageTable, pages, none⟩
  else if env.stat = false then ⟨1, pageTable, pages, none⟩
  else if env.openPageTable = false then ⟨1, pageTable, pages, none⟩
  else if env.malloc = false then
    ⟨1, some (pageTable.getD SparseFile.empty), pages, none⟩
  else
    let totalSize := snapshot.size
    let pageCount := totalSize / pageSize
    let st := pageLoop hash env.openPages snapshot (pageCount + 1) 0
      ⟨pageTable.getD SparseFile.empty, 0, pages, 0⟩
    ⟨0, some st.pageTable, st.pages,
      if env.fopenMetadata then
        some ⟨outputDir, totalSize, pageCount, st.uniquePages, hashModulus⟩
      else none⟩

/-! ## The driver's side -/

/-- `page_table_cache` of a template of `n` pages: the whole table is read when
    the template is created. -/
def pageTableCache (pageTable : File) (n : Nat) : Option (List PageTableEntry) :=
  let buf := pread pageTable 0 (16 * n)
  if buf.length ≠ 16 * n then none else some (entriesOf buf n)

/-- The fault path for page `i`: the cached entry, then the probing loop. -/
def restorePage (out : SplitOutput) (n i : Nat) : Option Load :=
  match out.pageTable, out.pages with
  | some pageTable, some pages =>
    match (pageTableCache pageTable n).bind fun cache => cache[i]? with
    | some pte => some (probePages (pread pages) hashModulus pte.hashIdx
        maxProbeCount (pte.hashIdx.toNat % hashModulus))
    | none => none
  | _, _ => none

/-- Page `k` of the snapshot. -/
def pageAt (snapshot : File) (k : Nat) : List UInt8 :=
  bytes snapshot (k * pageSize) pageSize

/-- Every page of the snapshot is found, with its own bytes. -/
def Restorable (snapshot : File) (out : SplitOutput) : Prop :=
  ∀ i < snapshot.size / pageSize,
    restorePage out (snapshot.size / pageSize) i = some (.found (pageAt snapshot i))

/-- The hashes handed to an opened `pages.bin`, in order. -/
def writtenHashes (hash : List UInt8 → UInt64) (openPages : Nat → Bool)
    (snapshot : File) (n : Nat) : List UInt64 :=
  ((List.range n).filter openPages).map fun k => hash (pageAt snapshot k)

/-- The condition on the input: each page is handed at least once to an opened
    `pages.bin`, and each hash handed over is there already or has, among the
    slots its search may visit, one that is not crowded by the hashes before
    it. -/
def AllPlaced (hash : List UInt8 → UInt64) (openPages : Nat → Bool)
    (snapshot : File) : Prop :=
  (∀ i < snapshot.size / pageSize, hash (pageAt snapshot i)
      ∈ writtenHashes hash openPages snapshot (snapshot.size / pageSize))
  ∧ Fits home maxProbeCount ∅ (writtenHashes hash openPages snapshot (snapshot.size / pageSize))

/-! ## The loop invariant -/

variable {k : Nat} {env : MainEnv} {outputDir : String}

section Loop

variable {hash : List UInt8 → UInt64} {openPages : Nat → Bool} {snapshot f : File}
  {pages : Option File} {h : UInt64} {data : List UInt8}

/-- The state before page `k`: the table lists the pages so far, and `pages.bin`
    is what inserting the written hashes into an empty table gives, each with
    the page it came from. -/
structure LoopInv (hash : List UInt8 → UInt64) (openPages : Nat → Bool)
    (snapshot : File) (k : Nat) (st : LoopState) : Prop where
  pos : st.ptPos = 16 * k
  size : st.pageTable.size = 16 * k
  entry : ∀ i < k, bytes st.pageTable (16 * i + 8) 8 = le64 (hash (pageAt snapshot i))
  whole : WholeSlots (st.pages.getD SparseFile.empty)
  table : tableOf (st.pages.getD SparseFile.empty)
    = fill home maxProbeCount (fun _ => none) (writtenHashes hash openPages snapshot k)
  content : ∀ t x, tableOf (st.pages.getD SparseFile.empty) t = some x →
    ∃ i < k, hash (pageAt snapshot i) = x
      ∧ dataAt (st.pages.getD SparseFile.empty) t.val = pageAt snapshot i

theorem length_pageAt (k : Nat) : (pageAt snapshot k).length = pageSize := length_bytes _ _ _

variable (hash openPages snapshot) in
theorem loopInv_start : LoopInv hash openPages snapshot 0 ⟨SparseFile.empty, 0, none, 0⟩ where
  pos := rfl
  size := rfl
  entry := fun _ hi => absurd hi (Nat.not_lt_zero _)
  whole := wholeSlots_empty
  table := tableOf_empty
  content := by
    intro t x h
    have h' : tableOf SparseFile.empty t = some x := h
    rw [tableOf_empty] at h'
    cases h'

theorem writtenHashes_succ (k : Nat) :
    writtenHashes hash openPages snapshot (k + 1)
      = writtenHashes hash openPages snapshot k
        ++ if openPages k then [hash (pageAt snapshot k)] else [] := by
  rw [writtenHashes, writtenHashes, range_succ, filter_append, map_append]
  cases hk : openPages k with
  | true | false => simp [hk]

theorem writePageToSlot_opened (pages : Option File) (h : UInt64)
    (data : List UInt8) :
    (writePageToSlot true pages h data).2
      = some ((writeLoop h data (pages.getD SparseFile.empty) maxProbeCount
          (h.toNat % hashModulus)).getD (pages.getD SparseFile.empty)) := by
  rw [writePageToSlot, if_pos rfl]
  dsimp only
  cases writeLoop h data (pages.getD SparseFile.empty) maxProbeCount
      (h.toNat % hashModulus) with
  | none | some => rfl

/-- The return value is `0` exactly when the search finds a place. -/
theorem writePageToSlot_ret (hget : pages.getD SparseFile.empty = f) (hf : WholeSlots f) :
    (writePageToSlot true pages h data).1
      = if search (tableOf f) h maxProbeCount (home h) = none then -1 else 0 := by
  have hi : h.toNat % hashModulus < hashModulus := Nat.mod_lt _ (by decide)
  rw [writePageToSlot, if_pos rfl]
  dsimp only
  rw [hget, writeLoop_eq hf maxProbeCount _ hi, cast_home]
  cases search (tableOf f) h maxProbeCount (home h) with
  | none | some => rfl

/-- **ONE CALL OF THE WRITER** is one insertion; the slots keep the pages they
    were filled with. -/
theorem writePageToSlot_spec (hget : pages.getD SparseFile.empty = f) (hf : WholeSlots f)
    (hh : h ≠ 0) (hdata : data.length = pageSize) :
    ∃ f', (writePageToSlot true pages h data).2 = some f' ∧ WholeSlots f'
      ∧ tableOf f' = ProbeTable.insert home maxProbeCount (tableOf f) h
      ∧ ∀ t x, tableOf f' t = some x →
          (tableOf f t = some x ∧ dataAt f' t.val = dataAt f t.val)
          ∨ (x = h ∧ dataAt f' t.val = data) := by
  have hi : h.toNat % hashModulus < hashModulus := Nat.mod_lt _ (by decide)
  rw [writePageToSlot_opened, hget, writeLoop_eq hf maxProbeCount _ hi, cast_home]
  cases hs : search (tableOf f) h maxProbeCount (home h) with
  | none =>
    refine ⟨f, rfl, hf, (insert_of_none hs).symm, ?_⟩
    exact fun t x hx => .inl ⟨hx, rfl⟩
  | some t =>
    rw [map_some, getD_some, insert_of_some hs]
    obtain ⟨_, _, _, hstop, _⟩ := search_eq_some hs
    rcases hstop with hn | hk
    · -- the slot is free: it is filled with the page
      have hval : ((t.val : Nat) : ZMod hashModulus) = t := ZMod.natCast_zmod_val t
      have hupd : tableOf (putSlot f t.val h data) = Function.update (tableOf f) t (some h) := by
        rw [tableOf_putSlot (ZMod.val_lt t) hh hdata, hval]
      rw [if_pos hn]
      refine ⟨_, rfl, wholeSlots_putSlot hf hdata, hupd, ?_⟩
      intro s x hx
      rw [hupd] at hx
      by_cases hst : s = t
      · subst hst
        rw [Function.update_self] at hx
        exact .inr ⟨(some.inj hx).symm, dataAt_putSlot_self hdata⟩
      · rw [Function.update_of_ne hst] at hx
        refine .inl ⟨hx, dataAt_putSlot_of_ne hdata ?_⟩
        exact fun he => hst (ZMod.val_injective _ he)
    · -- the hash is stored already
      rw [if_neg (by rw [hk]; exact fun h => by cases h)]
      refine ⟨f, rfl, hf, ?_, fun s x hx => .inl ⟨hx, rfl⟩⟩
      rw [← hk, Function.update_eq_self]

/-- **ONE ITERATION** keeps the invariant. -/
theorem loopInv_storePage {st : LoopState} (hinv : LoopInv hash openPages snapshot k st)
    (hnz : hash (pageAt snapshot k) ≠ 0) :
    LoopInv hash openPages snapshot (k + 1)
      (storePage hash openPages k (pageAt snapshot k) st) := by
  obtain ⟨hpos, hsize, hentry, hwhole, htable, hcontent⟩ := hinv
  let pte : PageTableEntry :=
    ⟨UInt64.ofNat (k * pageSize), hash (pageAt snapshot k)⟩
  have hlen : pte.toBytes.length = 16 := by
    rw [PageTableEntry.toBytes, length_append, length_le64, length_le64]
  have hne : pte.toBytes ≠ [] := by
    intro he
    rw [he] at hlen
    exact absurd hlen (by decide)
  have hpt : (storePage hash openPages k (pageAt snapshot k) st).pageTable
      = pwrite st.pageTable (16 * k) pte.toBytes := by
    rw [← hpos]; rfl
  have hentry' : ∀ i < k + 1,
      bytes (pwrite st.pageTable (16 * k) pte.toBytes) (16 * i + 8) 8
        = le64 (hash (pageAt snapshot i)) := by
    intro i hi
    rcases Nat.lt_succ_iff_lt_or_eq.mp hi with hlt | rfl
    · rw [bytes_pwrite_of_disjoint (by left; omega)]
      exact hentry i hlt
    · -- the second half of the entry just written
      have hself := bytes_pwrite_self st.pageTable (16 * i) pte.toBytes
      rw [hlen] at hself
      have hdrop := congrArg (List.drop 8) hself
      rw [drop_bytes] at hdrop
      rw [show (8 : Nat) = 16 - 8 from rfl, hdrop, PageTableEntry.toBytes,
        List.drop_left' (length_le64 _)]
  have hpages : (storePage hash openPages k (pageAt snapshot k) st).pages
      = (writePageToSlot (openPages k) st.pages (hash (pageAt snapshot k))
          (pageAt snapshot k)).2 := rfl
  cases hopen : openPages k with
  | false =>
    have hsame : (storePage hash openPages k (pageAt snapshot k) st).pages = st.pages := by
      rw [hpages, hopen]; rfl
    refine ⟨?_, ?_, hpt ▸ hentry', ?_, ?_, ?_⟩
    · show st.ptPos + 16 = 16 * (k + 1)
      omega
    · rw [hpt, pwrite_size hne, hlen, hsize]
      omega
    · rw [hsame]; exact hwhole
    · rw [hsame, htable, writtenHashes_succ, hopen, if_neg Bool.false_ne_true, append_nil]
    · rw [hsame]
      intro t x hx
      obtain ⟨i, hi, hxi⟩ := hcontent t x hx
      exact ⟨i, by omega, hxi⟩
  | true =>
    obtain ⟨f', hf', hwhole', htable', hdata'⟩ :=
      writePageToSlot_spec rfl hwhole hnz (length_pageAt k)
    have hget : (storePage hash openPages k (pageAt snapshot k) st).pages.getD
        SparseFile.empty = f' := by
      rw [hpages, hopen, hf']; rfl
    refine ⟨?_, ?_, hpt ▸ hentry', ?_, ?_, ?_⟩
    · show st.ptPos + 16 = 16 * (k + 1)
      omega
    · rw [hpt, pwrite_size hne, hlen, hsize]
      omega
    · rw [hget]; exact hwhole'
    · rw [hget, htable', htable, writtenHashes_succ, hopen, if_pos rfl, fill_append]
      rfl
    · rw [hget]
      intro t x hx
      rcases hdata' t x hx with ⟨hold, hd⟩ | ⟨rfl, hd⟩
      · obtain ⟨i, hi, hxi, hdi⟩ := hcontent t x hold
        exact ⟨i, by omega, hxi, hd.trans hdi⟩
      · exact ⟨k, by omega, rfl, hd⟩

/-- **THE WHOLE LOOP.**  On a snapshot of whole pages it runs to the end, and what every
    iteration keeps holds there. -/
theorem pageLoop_invariant {I : Nat → LoopState → Prop} (hwhole : pageSize ∣ snapshot.size)
    (hstep : ∀ k st, k < snapshot.size / pageSize → I k st →
      I (k + 1) (storePage hash openPages k (pageAt snapshot k) st)) :
    ∀ (n k : Nat) (st : LoopState), k + n = snapshot.size / pageSize + 1 → I k st →
      k ≤ snapshot.size / pageSize →
      I (snapshot.size / pageSize) (pageLoop hash openPages snapshot n k st) := by
  have hmul : snapshot.size / pageSize * pageSize = snapshot.size := Nat.div_mul_cancel hwhole
  intro n
  induction n with
  | zero => intro k st hk _ hle; omega
  | succ n ih =>
    intro k st hk hinv hle
    rw [pageLoop]
    rcases Nat.lt_or_eq_of_le hle with hlt | heq
    · have hnext : (k + 1) * pageSize ≤ snapshot.size := by
        rw [← hmul]
        exact Nat.mul_le_mul_right _ (by omega)
      rw [Nat.add_mul, Nat.one_mul] at hnext
      have hps : 0 < pageSize := by decide
      have hread : pread snapshot (k * pageSize) pageSize = pageAt snapshot k := pread_of_le hnext
      rw [if_pos (by omega)]
      dsimp only
      rw [hread, if_neg (fun hne => hne (length_pageAt k))]
      exact ih (k + 1) _ (by omega) (hstep k st hlt hinv) (by omega)
    · rw [heq, hmul, if_neg (Nat.lt_irrefl _), ← heq]
      exact hinv

/-- `main` returns early with status 1 and no metadata, or runs the loop. -/
theorem splitMain_cases (hash : List UInt8 → UInt64) (env : MainEnv) (outputDir : String)
    (snapshot : File) (pageTable pages : Option File) :
    ((splitMain hash env outputDir snapshot pageTable pages).status = 1
      ∧ (splitMain hash env outputDir snapshot pageTable pages).metadata = none)
    ∨ ∃ st, st = pageLoop hash env.openPages snapshot (snapshot.size / pageSize + 1) 0
          ⟨pageTable.getD SparseFile.empty, 0, pages, 0⟩
        ∧ splitMain hash env outputDir snapshot pageTable pages
          = ⟨0, some st.pageTable, st.pages,
              if env.fopenMetadata then
                some ⟨outputDir, snapshot.size, snapshot.size / pageSize, st.uniquePages,
                  hashModulus⟩
              else none⟩ := by
  rw [splitMain]
  split
  · exact .inl ⟨rfl, rfl⟩
  · split
    · exact .inl ⟨rfl, rfl⟩
    · split
      · exact .inl ⟨rfl, rfl⟩
      · split
        · exact .inl ⟨rfl, rfl⟩
        · exact .inr ⟨_, rfl, rfl⟩

/-- A run that exits with status 0 has gone through the whole loop. -/
theorem splitMain_exit (hwhole : pageSize ∣ snapshot.size)
    (hnz : ∀ k < snapshot.size / pageSize, hash (pageAt snapshot k) ≠ 0)
    (hexit : (splitMain hash env outputDir snapshot none none).status = 0) :
    ∃ st, LoopInv hash env.openPages snapshot (snapshot.size / pageSize) st
      ∧ (splitMain hash env outputDir snapshot none none).pageTable = some st.pageTable
      ∧ (splitMain hash env outputDir snapshot none none).pages = st.pages := by
  have hinv := pageLoop_invariant hwhole
    (fun k st hk (h : LoopInv hash env.openPages snapshot k st) =>
      loopInv_storePage h (hnz k hk))
    (snapshot.size / pageSize + 1) 0 _ (by omega)
    (loopInv_start hash env.openPages snapshot) (Nat.zero_le _)
  refine ⟨_, hinv, ?_⟩
  rcases splitMain_cases hash env outputDir snapshot none none with ⟨h1, -⟩ | ⟨st, hst, heq⟩
  · rw [h1] at hexit
    exact absurd hexit (by decide)
  · rw [heq, hst]
    exact ⟨rfl, rfl⟩

end Loop

/-! ## Restoring -/

section Restore

variable {hash : List UInt8 → UInt64} {openPages : Nat → Bool} {snapshot : File}
variable {n : Nat} {st : LoopState}

variable {i : Nat}

/-- The cached entry of a page carries its hash. -/
theorem pageTableCache_entry (hinv : LoopInv hash openPages snapshot n st) (hi : i < n) :
    ∃ pte, ((pageTableCache st.pageTable n).bind fun cache => cache[i]?)
      = some pte ∧ pte.hashIdx = hash (pageAt snapshot i) := by
  have hread : pread st.pageTable 0 (16 * n) = bytes st.pageTable 0 (16 * n) :=
    pread_of_le (by rw [hinv.size, Nat.zero_add])
  refine ⟨PageTableEntry.ofBytes ((bytes st.pageTable 0 (16 * n)).drop (16 * i)), ?_, ?_⟩
  · rw [pageTableCache, hread, length_bytes, if_neg (fun hne => hne rfl), bind_some,
      entriesOf, getElem?_map, getElem?_range hi]
    rfl
  · have hbytes : ((bytes st.pageTable 0 (16 * n)).drop (16 * i)).drop 8
        = bytes st.pageTable (16 * i + 8) (16 * n - 16 * i - 8) := by
      rw [drop_bytes, drop_bytes, Nat.zero_add]
    show word64 (_ : List UInt8) = _
    rw [hbytes, take_bytes, Nat.min_eq_left (by omega), hinv.entry i hi,
      word64_le64]

/-- A page is restored exactly when its hash is stored. -/
theorem restorePage_iff (hinv : LoopInv hash openPages snapshot n st)
    (hnz : ∀ k < n, hash (pageAt snapshot k) ≠ 0) (hinj : ∀ i < n, ∀ j < n,
      hash (pageAt snapshot i) = hash (pageAt snapshot j) →
      pageAt snapshot i = pageAt snapshot j) {out : SplitOutput}
    (hpt : out.pageTable = some st.pageTable) (hpages : out.pages = st.pages) (hi : i < n) :
    restorePage out n i = some (.found (pageAt snapshot i))
      ↔ Stored (tableOf (st.pages.getD SparseFile.empty)) (hash (pageAt snapshot i)) := by
  obtain ⟨pte, hpte, hhash⟩ := pageTableCache_entry hinv hi
  cases hst : st.pages with
  | none =>
    rw [restorePage, hpt, hpages, hst]
    constructor
    · intro h; cases h
    · rintro ⟨t, ht⟩
      have ht' : tableOf SparseFile.empty t = some _ := ht
      rw [tableOf_empty] at ht'
      cases ht'
  | some f =>
    have hget : st.pages.getD SparseFile.empty = f := by rw [hst]; rfl
    have hwhole := hinv.whole
    have hcontent := hinv.content
    have hlayout : Layout home maxProbeCount (tableOf f) := by
      rw [← hget, hinv.table]
      exact Layout.fill (by decide) _ layout_empty
    rw [hget] at hwhole hcontent
    have hprobe : restorePage out n i = some (probePages (pread f) hashModulus
        (hash (pageAt snapshot i)) maxProbeCount
        ((hash (pageAt snapshot i)).toNat % hashModulus)) := by
      rw [restorePage, hpt, hpages, hst]
      dsimp only
      rw [hpte, ← hhash]
    rw [hprobe, some_inj, getD_some,
      probePages_eq_found hwhole (hnz i hi) _ _ (Nat.mod_lt _ (by decide)),
      cast_home]
    constructor
    · rintro ⟨t, -, ht, -⟩
      exact ⟨t, ht⟩
    · rintro ⟨t, ht⟩
      obtain ⟨j, hj, hhj, hdj⟩ := hcontent t _ ht
      exact ⟨t, hlayout.search_stored ht, ht, hdj.trans (hinj j hj i hi hhj)⟩

/-- All hashes are stored exactly when the condition on the input holds. -/
theorem stored_iff_placed (hinv : LoopInv hash openPages snapshot n st) :
    (∀ i < n, Stored (tableOf (st.pages.getD SparseFile.empty))
        (hash (pageAt snapshot i)))
      ↔ (∀ i < n, hash (pageAt snapshot i)
            ∈ writtenHashes hash openPages snapshot n)
        ∧ Fits home maxProbeCount ∅ (writtenHashes hash openPages snapshot n) := by
  rw [← all_stored_fill_iff (by decide), hinv.table]
  constructor
  · intro h
    refine ⟨?_, ?_⟩
    · intro i hi
      rcases mem_of_stored_fill _ (h i hi) with ⟨_, hn⟩ | hx
      · cases hn
      · exact hx
    · intro x hx
      obtain ⟨k, hk, rfl⟩ := List.mem_map.mp hx
      exact h k (mem_range.mp (mem_filter.mp hk).1)
  · rintro ⟨hmem, hst⟩ i hi
    exact hst _ (hmem i hi)

/-- What a run that exits with status 0 restores, in terms of the input. -/
theorem restorable_iff_stored (hwhole : pageSize ∣ snapshot.size)
    (hnz : ∀ k < snapshot.size / pageSize, hash (pageAt snapshot k) ≠ 0)
    (hinj : ∀ i < snapshot.size / pageSize, ∀ j < snapshot.size / pageSize,
      hash (pageAt snapshot i) = hash (pageAt snapshot j) →
      pageAt snapshot i = pageAt snapshot j)
    (hexit : (splitMain hash env outputDir snapshot none none).status = 0) :
    ∃ st, LoopInv hash env.openPages snapshot (snapshot.size / pageSize) st
      ∧ (Restorable snapshot (splitMain hash env outputDir snapshot none none)
        ↔ ∀ i < snapshot.size / pageSize,
            Stored (tableOf (st.pages.getD SparseFile.empty)) (hash (pageAt snapshot i))) := by
  obtain ⟨st, hinv, hpt, hpages⟩ := splitMain_exit hwhole hnz hexit
  refine ⟨st, hinv, forall_congr' fun i => forall_congr' fun hi => ?_⟩
  exact restorePage_iff hinv hnz hinj hpt hpages hi

/-- **WHAT THE EXIT STATUS IS WORTH.**  A run of the split tool that exits with
    status 0 leaves a restorable snapshot exactly when every page was handed to
    an opened `pages.bin` and no hash handed over met a saturated search. -/
theorem split_restorable_iff (hash : List UInt8 → UInt64) (env : MainEnv)
    (outputDir : String) (snapshot : File)
    (hwhole : pageSize ∣ snapshot.size)
    (hnz : ∀ k < snapshot.size / pageSize, hash (pageAt snapshot k) ≠ 0)
    (hinj : ∀ i < snapshot.size / pageSize, ∀ j < snapshot.size / pageSize,
      hash (pageAt snapshot i) = hash (pageAt snapshot j) →
      pageAt snapshot i = pageAt snapshot j)
    (hexit : (splitMain hash env outputDir snapshot none none).status = 0) :
    Restorable snapshot (splitMain hash env outputDir snapshot none none)
      ↔ AllPlaced hash env.openPages snapshot := by
  obtain ⟨st, hinv, hrest⟩ := restorable_iff_stored hwhole hnz hinj hexit
  rw [hrest]
  exact stored_iff_placed hinv

/-- A snapshot of `n` pages; page `k` starts with the byte `k`. -/
def markedSnapshot (n : Nat) : File where
  size := n * pageSize
  byte := fun i =>
    if i < n * pageSize ∧ i % pageSize = 0 then UInt8.ofNat (i / pageSize) else 0
  hole := fun _ hi => if_neg fun h => absurd h.1 (Nat.not_lt.mpr hi)

/-- A hash that sends all pages to the same home. -/
def sameHome (page : List UInt8) : UInt64 :=
  UInt64.ofNat (4096 * ((page.headD 0).toNat + 1))

/-- No call fails. -/
def noFailure : MainEnv := ⟨true, true, true, true, fun _ => true, true⟩

theorem markedSnapshot_pages (n : Nat) :
    (markedSnapshot n).size / pageSize = n :=
  Nat.mul_div_cancel n (by decide)

theorem sameHome_markedSnapshot (hk : k < n) (hn : n ≤ 256) :
    sameHome (pageAt (markedSnapshot n) k) = UInt64.ofNat (4096 * (k + 1)) := by
  have hhead : (pageAt (markedSnapshot n) k).headD 0 = UInt8.ofNat k := by
    have hps : pageSize = 4095 + 1 := rfl
    rw [pageAt, bytes, hps, range_succ_eq_map, map_cons, headD_cons, Nat.add_zero, ← hps]
    have hlt : k * pageSize < n * pageSize := Nat.mul_lt_mul_of_pos_right hk (by decide)
    show (if _ then _ else _) = _
    rw [if_pos ⟨hlt, Nat.mul_mod_left k pageSize⟩, Nat.mul_div_cancel k (by decide)]
  rw [sameHome, hhead, UInt8.toNat_ofNat', Nat.mod_eq_of_lt (by omega)]

theorem toNat_marked (hk : k < 256) : (UInt64.ofNat (4096 * (k + 1))).toNat = 4096 * (k + 1) := by
  rw [UInt64.toNat_ofNat', Nat.mod_eq_of_lt (by omega)]

theorem marked_inj {j : Nat} (hi : i < 256) (hj : j < 256)
    (h : UInt64.ofNat (4096 * (i + 1)) = UInt64.ofNat (4096 * (j + 1))) : i = j := by
  have := congrArg UInt64.toNat h
  rw [toNat_marked hi, toNat_marked hj] at this
  omega

theorem markedSnapshot_nonzero (hn : n ≤ 256) :
    ∀ k < (markedSnapshot n).size / pageSize, sameHome (pageAt (markedSnapshot n) k) ≠ 0 := by
  intro k hk hz
  rw [markedSnapshot_pages] at hk
  rw [sameHome_markedSnapshot hk hn] at hz
  have := congrArg UInt64.toNat hz
  rw [toNat_marked (by omega)] at this
  exact absurd this (by simp)

theorem markedSnapshot_inj (hn : n ≤ 256) :
    ∀ i < (markedSnapshot n).size / pageSize,
    ∀ j < (markedSnapshot n).size / pageSize,
      sameHome (pageAt (markedSnapshot n) i)
        = sameHome (pageAt (markedSnapshot n) j) →
      pageAt (markedSnapshot n) i = pageAt (markedSnapshot n) j := by
  intro i hi j hj h
  rw [markedSnapshot_pages] at hi hj
  rw [sameHome_markedSnapshot hi hn, sameHome_markedSnapshot hj hn] at h
  rw [marked_inj (by omega) (by omega) h]

/-- As many pages as a search has probes always fit, whatever their homes. -/
theorem fits_of_le_probes (hash : List UInt8 → UInt64) (openPages : Nat → Bool) (snapshot : File)
    (hn : n ≤ maxProbeCount) :
    Fits home maxProbeCount ∅ (writtenHashes hash openPages snapshot n) := by
  refine fits_of_card_le (by decide) ((toFinset_card_le _).trans ?_)
  rw [writtenHashes, length_map]
  exact (length_filter_le ..).trans (length_range.trans_le hn)

/-- **SIXTY-FOUR COLLIDING PAGES** are stored and restored. -/
theorem colliding_pages_restorable :
    Restorable (markedSnapshot 64)
      (splitMain sameHome noFailure "out" (markedSnapshot 64) none none) := by
  refine (split_restorable_iff sameHome noFailure "out" (markedSnapshot 64)
    ⟨64, Nat.mul_comm _ _⟩ (markedSnapshot_nonzero (by decide))
    (markedSnapshot_inj (by decide)) rfl).mpr ⟨?_, ?_⟩
  · intro i hi
    rw [writtenHashes]
    exact List.mem_map.mpr ⟨i, mem_filter.mpr ⟨mem_range.mpr hi, rfl⟩, rfl⟩
  · rw [markedSnapshot_pages]
    exact fits_of_le_probes _ _ _ (Nat.le_refl 64)

theorem home_marked (hk : k < 256) : home (UInt64.ofNat (4096 * (k + 1))) = 0 := by
  rw [home, toNat_marked hk]
  exact (ZMod.natCast_eq_zero_iff _ _).mpr (Dvd.intro _ rfl)

/-- **A LOST PAGE.**  Sixty-five different pages with the same home: the tool
    exits with status 0, and the last page is nowhere in `pages.bin`. -/
theorem split_loses_page :
    pageSize ∣ (markedSnapshot 65).size
    ∧ (∀ k < (markedSnapshot 65).size / pageSize, sameHome (pageAt (markedSnapshot 65) k) ≠ 0)
    ∧ (∀ i < (markedSnapshot 65).size / pageSize,
        ∀ j < (markedSnapshot 65).size / pageSize,
        sameHome (pageAt (markedSnapshot 65) i)
          = sameHome (pageAt (markedSnapshot 65) j) →
        pageAt (markedSnapshot 65) i = pageAt (markedSnapshot 65) j)
    ∧ (splitMain sameHome noFailure "out" (markedSnapshot 65) none none).status = 0
    ∧ ¬ Restorable (markedSnapshot 65)
        (splitMain sameHome noFailure "out" (markedSnapshot 65) none none) := by
  have hnz := markedSnapshot_nonzero (n := 65) (by decide)
  have hinj := markedSnapshot_inj (n := 65) (by decide)
  have hexit : (splitMain sameHome noFailure "out" (markedSnapshot 65) none none).status = 0 := rfl
  refine ⟨⟨65, Nat.mul_comm _ _⟩, hnz, hinj, hexit, ?_⟩
  intro hrestore
  obtain ⟨st, hinv, hrest⟩ := restorable_iff_stored ⟨65, Nat.mul_comm _ _⟩ hnz hinj hexit
  have hfits := ((stored_iff_placed hinv).mp (hrest.mp hrestore)).2
  rw [markedSnapshot_pages] at hfits
  -- different hashes with one home, and one more of them than a search has probes
  have hwritten : writtenHashes sameHome noFailure.openPages (markedSnapshot 65) 65
      = (List.range 65).map fun k => UInt64.ofNat (4096 * (k + 1)) := by
    rw [writtenHashes, show noFailure.openPages = fun _ => true from rfl, filter_true]
    exact map_congr_left fun k hk =>
      sameHome_markedSnapshot (mem_range.mp hk) (by decide)
  have hnodup : ((List.range 65).map fun k => UInt64.ofNat (4096 * (k + 1))).Nodup := by
    refine List.Nodup.map_on ?_ nodup_range
    intro i hi j hj h
    have hi := mem_range.mp hi
    have hj := mem_range.mp hj
    exact marked_inj (by omega) (by omega) h
  rw [hwritten] at hfits
  have hle := card_le_of_fits (by decide) (t := 0) ?_ hfits
  · rw [toFinset_card_of_nodup hnodup, length_map, length_range] at hle
    exact absurd hle (by decide)
  · intro x hx
    obtain ⟨k, hk, rfl⟩ := List.mem_map.mp hx
    have hk := mem_range.mp hk
    exact home_marked (by omega)

end Restore

end SplitSnapshot
