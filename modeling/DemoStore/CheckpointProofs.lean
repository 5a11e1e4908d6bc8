import DemoStore.ClientSessionProofs
import DemoStore.PageBitmapProofs

/-! # Checkpoints of a client

    `export_checkpoint` walks the pages in order and takes a copy of every page that
    is marked dirty, with a bitmap of them.  Stacked on the backend as one more layer,
    the checkpoint gives back the client's memory: a page that was written is found in
    the new layer, any other page where it was before. -/

namespace ClientCheckpoint

open SparseFile TemplateClient MachineRun PageBitmap ClientSession List Option

/-! ## The checkpoint -/

/-- A page of a checkpoint. -/
structure DirtyPage where
  pageIdx : Nat
  data : List UInt8

/-- What `export` returns. -/
structure Checkpoint where
  dirtyPages : List DirtyPage
  privateBitmap : List UInt64
  mergedBackendBitmap : List UInt64

/-- `rebuild_merged_bitmap`; all bitmaps have the same number of words. -/
def mergedBitmap (b : OverlayBackend) : List UInt64 :=
  b.layers.foldl (fun merged l => List.zipWith (· ||| ·) merged l.bitmap)
    (List.replicate (bitmapWords b.pageCount) 0)

/-- One turn of the loop of `Checkpoint::export`.  Copying a page that is not in the
    client's memory would wait for the fault handler. -/
def exportPage (sh : Shared) (cl : ClientState) (acc : List DirtyPage × List UInt64)
    (pageIdx : Nat) : Option (List DirtyPage × List UInt64) :=
  if !cl.dirty pageIdx then some acc
  else (readView pageIdx sh cl).map fun data =>
    (acc.1 ++ [⟨pageIdx, data⟩], bitmapSet acc.2 pageIdx)

/-- `Checkpoint::export`. -/
def exportCheckpoint (b : OverlayBackend) (sh : Shared) (cl : ClientState) :
    Option Checkpoint :=
  ((List.range b.pageCount).foldlM (exportPage sh cl)
      ([], List.replicate (bitmapWords b.pageCount) 0)).map fun acc =>
    { dirtyPages := acc.1
      privateBitmap := acc.2
      mergedBackendBitmap := mergedBitmap b }

/-- `Client::dirty_bitmap`. -/
def dirtyBitmap (b : OverlayBackend) (cl : ClientState) : List UInt64 :=
  bitmapFrom b.pageCount cl.dirty

/-! ## Stacking it -/

/-- `OverlayBackend::new`. -/
def newBackend (pageSize pageCount : Nat) (layers : List Layer) :
    Except String OverlayBackend :=
  if pageSize = 0 ∨ pageCount = 0 then .error "page_size and page_count must be non-zero"
  else if layers = [] then .error "overlay backend requires at least one layer"
  else
    match layers.find? fun l => l.bitmap.length ≠ bitmapWords pageCount with
    | some l =>
      .error s!"layer '{l.name}' bitmap has {l.bitmap.length} words, expected {bitmapWords pageCount}"
    | none => .ok ⟨pageSize, pageCount, layers⟩

/-- The pages of the checkpoint, each at its place in a new file. -/
def layerFile (pageSize : Nat) (pages : List DirtyPage) : File :=
  pages.foldl (fun f d => pwrite f (d.pageIdx * pageSize) d.data) empty

/-- The checkpoint as a layer. -/
def toLayer (name : String) (pageSize : Nat) (cp : Checkpoint) : Layer :=
  ⟨name, layerFile pageSize cp.dirtyPages, cp.privateBitmap⟩

/-! ## What is exported -/

section Export

variable {b : OverlayBackend} {sh : Shared} {cl : ClientState}

/-- The copy of one page. -/
def dirtyPage (sh : Shared) (cl : ClientState) (i : Nat) : DirtyPage :=
  ⟨i, (readView i sh cl).getD []⟩

/-- The loop over some pages, from any accumulator. -/
theorem exportPage_foldlM {pages : List Nat}
    (hread : ∀ i ∈ pages, cl.dirty i = true → (readView i sh cl).isSome = true)
    (acc : List DirtyPage × List UInt64) :
    pages.foldlM (exportPage sh cl) acc
      = some (acc.1 ++ (pages.filter cl.dirty).map (dirtyPage sh cl),
        pages.foldl (fun bm i => if cl.dirty i then bitmapSet bm i else bm) acc.2) := by
  induction pages generalizing acc with
  | nil =>
    rw [filter_nil, map_nil, append_nil]
    rfl
  | cons i pages ih =>
    have ih' := ih fun k hk => hread k (mem_cons_of_mem i hk)
    rw [foldlM_cons, foldl_cons, exportPage]
    by_cases hd : cl.dirty i = true
    · obtain ⟨page, hpage⟩ := isSome_iff_exists.mp (hread i mem_cons_self hd)
      have hcopy : dirtyPage sh cl i = ⟨i, page⟩ := by
        rw [dirtyPage, hpage]
        rfl
      rw [filter_cons_of_pos hd, map_cons, hcopy, hpage]
      simp only [hd, Bool.not_true, Bool.false_eq_true, if_false, if_true, map_some]
      show pages.foldlM (exportPage sh cl) _ = _
      rw [ih', append_assoc]
      rfl
    · rw [filter_cons_of_neg hd]
      simp only [Bool.not_eq_true] at hd
      simp only [hd, Bool.not_false, if_true, Bool.false_eq_true, if_false]
      exact ih' acc

/-- The export returns if every dirty page is in memory: the dirty pages in order, and
    their bitmap. -/
theorem exportCheckpoint_eq
    (hread : ∀ i, cl.dirty i = true → (readView i sh cl).isSome = true) :
    exportCheckpoint b sh cl = some
      { dirtyPages := ((List.range b.pageCount).filter cl.dirty).map (dirtyPage sh cl)
        privateBitmap := dirtyBitmap b cl
        mergedBackendBitmap := mergedBitmap b } := by
  rw [exportCheckpoint, exportPage_foldlM fun i _ => hread i]
  rfl

theorem map_pageIdx_dirtyPage (pages : List Nat) :
    (pages.map (dirtyPage sh cl)).map DirtyPage.pageIdx = pages := by
  rw [List.map_map]
  exact List.map_id pages

end Export

/-! ## The file of the new layer -/

variable {i : Nat}

section LayerFile

variable {pageSize : Nat} {pages : List DirtyPage} {f : File}

/-- Pages at different places do not overlap. -/
theorem pages_apart {j : Nat} (h : i ≠ j) :
    i * pageSize + pageSize ≤ j * pageSize ∨ j * pageSize + pageSize ≤ i * pageSize := by
  rcases Nat.lt_or_gt_of_ne h with hlt | hgt
  · exact .inl (by rw [← Nat.succ_mul]; exact Nat.mul_le_mul_right _ hlt)
  · exact .inr (by rw [← Nat.succ_mul]; exact Nat.mul_le_mul_right _ hgt)

theorem size_le_pwrite (off : Nat) (data : List UInt8) : f.size ≤ (pwrite f off data).size := by
  show f.size ≤ if data = [] then f.size else max f.size (off + data.length)
  split
  · exact Nat.le_refl _
  · exact Nat.le_max_left _ _

/-- Writing other pages leaves a page as it is. -/
theorem foldl_pwrite_frame (hlen : ∀ d ∈ pages, d.data.length = pageSize)
    (hne : ∀ d ∈ pages, d.pageIdx ≠ i) :
    f.size ≤ (pages.foldl (fun f d => pwrite f (d.pageIdx * pageSize) d.data) f).size
      ∧ bytes (pages.foldl (fun f d => pwrite f (d.pageIdx * pageSize) d.data) f)
          (i * pageSize) pageSize = bytes f (i * pageSize) pageSize := by
  induction pages generalizing f with
  | nil => exact ⟨Nat.le_refl _, rfl⟩
  | cons d pages ih =>
    obtain ⟨hsize, hbytes⟩ := ih (f := pwrite f (d.pageIdx * pageSize) d.data)
      (fun d' hd' => hlen d' (mem_cons_of_mem d hd'))
      (fun d' hd' => hne d' (mem_cons_of_mem d hd'))
    rw [foldl_cons]
    refine ⟨Nat.le_trans (size_le_pwrite _ _) hsize, hbytes.trans ?_⟩
    refine bytes_pwrite_of_disjoint ?_
    rw [hlen d mem_cons_self]
    exact pages_apart (hne d mem_cons_self).symm

/-- Every page of the checkpoint is read back from its place. -/
theorem pread_foldl_pwrite (hpos : 0 < pageSize)
    (hlen : ∀ d ∈ pages, d.data.length = pageSize)
    (hnodup : (pages.map DirtyPage.pageIdx).Nodup) {d : DirtyPage} (hd : d ∈ pages) :
    pread (pages.foldl (fun f d => pwrite f (d.pageIdx * pageSize) d.data) f)
      (d.pageIdx * pageSize) pageSize = d.data := by
  induction pages generalizing f with
  | nil => cases hd
  | cons e pages ih =>
    have hlen' := fun d' hd' => hlen d' (mem_cons_of_mem e hd')
    rw [map_cons, nodup_cons] at hnodup
    rw [foldl_cons]
    rcases mem_cons.mp hd with rfl | hd
    · -- the page itself, kept by the writes after it
      have hl := hlen d mem_cons_self
      obtain ⟨hsize, hbytes⟩ := foldl_pwrite_frame
        (f := pwrite f (d.pageIdx * pageSize) d.data) hlen'
        (i := d.pageIdx) (fun d' hd' heq => hnodup.1 (heq ▸ List.mem_map_of_mem hd'))
      have hne : d.data ≠ [] := by
        intro hnil
        rw [hnil] at hl
        exact absurd hl (Nat.ne_of_lt hpos)
      rw [pwrite_size hne, hl] at hsize
      rw [pread_of_le (Nat.le_trans (Nat.le_max_right _ _) hsize), hbytes]
      have hself := bytes_pwrite_self f (d.pageIdx * pageSize) d.data
      rwa [hl] at hself
    · exact ih hlen' hnodup.2 hd

end LayerFile

/-! ## The stacked backend -/

section Stack

variable {pageSize pageCount : Nat} {layers : List Layer} {b : OverlayBackend}

theorem newBackend_eq_ok (h : newBackend pageSize pageCount layers = .ok b) :
    b = ⟨pageSize, pageCount, layers⟩ ∧ 0 < pageSize ∧ 0 < pageCount
      ∧ ∀ l ∈ layers, l.bitmap.length = bitmapWords pageCount := by
  rw [newBackend] at h
  split at h
  · cases h
  · rename_i hzero
    rw [not_or] at hzero
    split at h
    · cases h
    · split at h
      · cases h
      · rename_i hfind
        cases h
        refine ⟨rfl, Nat.pos_of_ne_zero hzero.1, Nat.pos_of_ne_zero hzero.2, fun l hl => ?_⟩
        have hno := find?_eq_none.mp hfind l hl
        simpa using hno

/-- A layer with a bitmap of the right length can be stacked. -/
theorem newBackend_stack (h : newBackend pageSize pageCount layers = .ok b) {top : Layer}
    (htop : top.bitmap.length = bitmapWords pageCount) :
    newBackend pageSize pageCount (layers ++ [top])
      = .ok ⟨pageSize, pageCount, layers ++ [top]⟩ := by
  obtain ⟨-, hsize, hcount, hlayers⟩ := newBackend_eq_ok h
  have hfind : (layers ++ [top]).find? (fun l => l.bitmap.length ≠ bitmapWords pageCount)
      = none := by
    rw [find?_eq_none]
    intro l hl
    rcases mem_append.mp hl with hl | hl
    · simpa using hlayers l hl
    · rw [mem_singleton.mp hl]
      simpa using htop
  rw [newBackend, if_neg (by omega), if_neg (by simp), hfind]

/-- The top layer is asked first. -/
theorem topLayer_stack (top : Layer) (i : Nat) :
    OverlayBackend.topLayer ⟨pageSize, pageCount, layers ++ [top]⟩ i
      = if bitmapGet top.bitmap i then some top
        else OverlayBackend.topLayer ⟨pageSize, pageCount, layers⟩ i := by
  rw [OverlayBackend.topLayer, OverlayBackend.topLayer, reverse_append,
    reverse_singleton, singleton_append, find?_cons]
  cases bitmapGet top.bitmap i <;> rfl

end Stack

/-! ## Back to the client's memory -/

section Restore

variable {pageSize pageCount : Nat} {layers : List Layer} {b : OverlayBackend} {σ : Session}

variable {sh : Shared} {cl : ClientState} {M : Nat → Option (List UInt8)} {page : List UInt8}

/-- What is in the client's own mapping is its memory. -/
theorem readView_of_settled (h : Settled b sh cl M i) (hread : readView i sh cl = some page) :
    M i = some page := by
  rw [readView] at hread
  cases h with
  | unmapped hview hmem =>
    rw [hview] at hread
    dsimp only at hread
    rw [hmem] at hread
    cases hread
  | shared hview hmem hM =>
    rw [hview] at hread
    dsimp only at hread
    rw [hM, ← hmem, hread]
  | own hview hM =>
    rw [hview] at hread
    rw [hM, ← hread]

/-- A dirty page is private, so the export copies the client's memory. -/
theorem readView_of_dirty (h : Settled b sh cl M i) (hd : cl.dirty i = true) :
    ∃ page, readView i sh cl = some page ∧ M i = some page := by
  cases h with
  | unmapped _ _ _ _ hclean | shared _ _ _ _ hclean => rw [hd] at hclean; cases hclean
  | own hview hM =>
    refine ⟨_, ?_, hM⟩
    rw [readView, hview]

theorem memory_of_clean (h : Settled b sh cl M i) (hd : ¬ cl.dirty i = true) :
    M i = b.readPage i := by
  cases h with
  | unmapped _ _ _ hM => exact hM
  | shared _ _ hM hb => exact hM.trans hb.symm
  | own _ _ hdirty => exact absurd hdirty hd

/-- The exported copy of a dirty page. -/
theorem dirtyPage_data (h : readView i sh cl = some page) : (dirtyPage sh cl i).data = page := by
  rw [dirtyPage, h]
  rfl

/-- The stacked backend gives back every page of the memory. -/
theorem readPage_stack (hb : newBackend pageSize pageCount layers = .ok b) (h : Inv b σ)
    (hrest : Resting σ.client) (name : String) (merged : List UInt64) (i : Nat) :
    OverlayBackend.readPage ⟨pageSize, pageCount, layers ++ [toLayer name pageSize
        { dirtyPages := ((List.range b.pageCount).filter σ.client.dirty).map
            (dirtyPage σ.shared σ.client)
          privateBitmap := dirtyBitmap b σ.client
          mergedBackendBitmap := merged }]⟩ i
      = memory b σ.log i := by
  obtain ⟨rfl, hpos, -, -⟩ := newBackend_eq_ok hb
  have hsettled := settled_of_resting h hrest
  rw [OverlayBackend.readPage]
  dsimp only
  by_cases hi : pageCount ≤ i
  · rw [if_pos hi, memory_eq_none]
    rw [OverlayBackend.readPage, if_pos hi]
  · have hlt : i < pageCount := Nat.lt_of_not_le hi
    rw [if_neg hi, topLayer_stack, toLayer, dirtyBitmap, bitmapGet_bitmapFrom]
    by_cases hd : σ.client.dirty i = true
    · -- a written page is in the new layer
      obtain ⟨page, hread, hM⟩ := readView_of_dirty (hsettled i) hd
      have hmem : dirtyPage σ.shared σ.client i ∈ ((List.range pageCount).filter
          σ.client.dirty).map (dirtyPage σ.shared σ.client) :=
        List.mem_map_of_mem (mem_filter.mpr ⟨mem_range.mpr hlt, hd⟩)
      have hlen : ∀ d ∈ ((List.range pageCount).filter σ.client.dirty).map
          (dirtyPage σ.shared σ.client), d.data.length = pageSize := by
        intro d hdm
        obtain ⟨k, hk, rfl⟩ := List.mem_map.mp hdm
        obtain ⟨page', hread', hM'⟩ := readView_of_dirty (hsettled k) (mem_filter.mp hk).2
        rw [dirtyPage_data hread']
        exact length_memory hM'
      have hnodup : ((((List.range pageCount).filter σ.client.dirty).map
          (dirtyPage σ.shared σ.client)).map DirtyPage.pageIdx).Nodup := by
        rw [map_pageIdx_dirtyPage]
        exact nodup_range.filter _
      have hpread := pread_foldl_pwrite (f := empty) hpos hlen hnodup hmem
      rw [dirtyPage_data hread] at hpread
      rw [if_pos (decide_eq_true ⟨hlt, hd⟩), bind_some, hM]
      dsimp only
      rw [layerFile]
      show (if (pread _ ((dirtyPage σ.shared σ.client i).pageIdx * pageSize) pageSize).length
        = pageSize then some (pread _ ((dirtyPage σ.shared σ.client i).pageIdx * pageSize)
          pageSize) else none) = some page
      rw [hpread, if_pos (length_memory hM)]
    · rw [if_neg (by simp [hd]), memory_of_clean (hsettled i) hd, OverlayBackend.readPage,
        if_neg hi]

end Restore

/-- **A CHECKPOINT RESTORES THE CLIENT.**  After any sequence of non-overlapping
    accesses, each completed without error, every access has seen the client's memory,
    and the export returns: its pages are in order, its bitmap is that of the dirty
    pages, which are the written ones, and with it as one more layer the backend reads
    as the memory of the client. -/
theorem checkpoint_restores {pageSize pageCount : Nat} {layers : List Layer}
    {b : OverlayBackend} (hb : newBackend pageSize pageCount layers = .ok b)
    {ls : List ClientLabel} (hok : Moves (sessionStep b) Orderly begin ls) {σ : Session}
    (hσ : exec (sessionStep b) begin ls = some σ) (hrest : Resting σ.client)
    (name : String) :
    Consistent b σ.log
      ∧ (∀ i page, readView i σ.shared σ.client = some page → memory b σ.log i = some page)
      ∧ ∃ cp, exportCheckpoint b σ.shared σ.client = some cp
        ∧ (cp.dirtyPages.map DirtyPage.pageIdx).Pairwise (· < ·)
        ∧ cp.privateBitmap = dirtyBitmap b σ.client
        ∧ (∀ i, bitmapGet cp.privateBitmap i = true ↔ Written σ.log i)
        ∧ (∀ i, bitmapGet cp.privateBitmap i = true ↔ ∃ d ∈ cp.dirtyPages, d.pageIdx = i)
        ∧ ∃ stacked, newBackend pageSize pageCount (layers ++ [toLayer name pageSize cp])
            = .ok stacked
          ∧ ∀ i, stacked.readPage i = memory b σ.log i := by
  have h : Inv b σ := states_exec
    (states_of_inv (I := Inv b) (fun _ h => h) (fun σ l σ' => inv_step) inv_begin hok) hσ
  have hsettled := settled_of_resting h hrest
  have hread : ∀ i, σ.client.dirty i = true → (readView i σ.shared σ.client).isSome = true := by
    intro i hd
    obtain ⟨page, hpage, -⟩ := readView_of_dirty (hsettled i) hd
    rw [hpage]
    rfl
  have hbit : ∀ i, bitmapGet (dirtyBitmap b σ.client) i = true
      ↔ i < b.pageCount ∧ σ.client.dirty i = true := by
    intro i
    rw [dirtyBitmap, bitmapGet_bitmapFrom, decide_eq_true_iff]
  refine ⟨h.log, fun i page => readView_of_settled (hsettled i), _, exportCheckpoint_eq hread,
    ?_, rfl, fun i => ?_, fun i => ?_, _, newBackend_stack hb ?_,
    readPage_stack hb h hrest name _⟩
  · rw [map_pageIdx_dirtyPage]
    exact pairwise_lt_range.filter _
  · rw [hbit, ← dirty_iff_written h hrest]
    refine ⟨And.right, fun hd => ⟨?_, hd⟩⟩
    -- only pages of the backend are ever written
    by_contra hi
    obtain ⟨page, -, hM⟩ := readView_of_dirty (hsettled i) hd
    rw [memory_eq_none (by rw [OverlayBackend.readPage, if_pos (by omega)])] at hM
    cases hM
  · rw [hbit]
    constructor
    · intro hi
      exact ⟨dirtyPage σ.shared σ.client i, List.mem_map_of_mem
        (mem_filter.mpr ⟨mem_range.mpr hi.1, hi.2⟩), rfl⟩
    · rintro ⟨d, hd, rfl⟩
      obtain ⟨k, hk, rfl⟩ := List.mem_map.mp hd
      obtain ⟨hrange, hdirty⟩ := mem_filter.mp hk
      exact ⟨mem_range.mp hrange, hdirty⟩
  · rw [toLayer, dirtyBitmap, length_bitmapFrom, (newBackend_eq_ok hb).1]

/-! ## One write -/

/-- Two pages of one byte. -/
def twoPages : OverlayBackend where
  pageSize := 1
  pageCount := 2
  layers := [⟨"base", ⟨2, fun i => if i = 0 then 7 else if i = 1 then 9 else 0,
    fun i h => by rw [if_neg (by omega), if_neg (by omega)]⟩, [3]⟩]

/-- A write to page 0: it is loaded, the write faults on the protection while the loader
    is still to publish the page, the page is made private and the write is retried. -/
def writeSteps : List ClientLabel :=
  List.replicate 4 (.handler 0 .ok) ++ [.retry 0] ++ List.replicate 9 (.handler 0 .ok) ++ [.retry 0]

/-- A write with its fault. -/
def oneWrite : List ClientLabel := .access 0 (.write 0 0 5) :: writeSteps

/-- The session after it. -/
def afterWrite : Option Session := exec (sessionStep twoPages) begin oneWrite

/-- The handler still runs. -/
def live : HandlerPc → Bool
  | .exited => false
  | _ => true

/-- Steps that start no access are in order as long as the handler runs. -/
theorem orderly_of_live {b : OverlayBackend} {ls : List ClientLabel}
    (hno : ∀ l ∈ ls, ∀ i acc, l ≠ .access i acc) (σ : Session)
    (h : Moves (sessionStep b) (fun _ _ σ' => live σ'.client.pc = true) σ ls) :
    Moves (sessionStep b) Orderly σ ls := by
  induction ls generalizing σ with
  | nil => trivial
  | cons l ls ih =>
    intro σ' hl
    obtain ⟨hlive, hrest⟩ := h σ' hl
    refine ⟨⟨fun i acc hacc => absurd hacc (hno l mem_cons_self i acc), ?_⟩,
      ih (fun l' hl' => hno l' (mem_cons_of_mem l hl')) σ' hrest⟩
    intro hpc
    rw [hpc] at hlive
    cases hlive

theorem oneWrite_orderly : Moves (sessionStep twoPages) Orderly begin oneWrite := by
  intro σ hσ
  refine ⟨⟨fun _ _ _ _ => rfl, ?_⟩, orderly_of_live ?_ σ ?_⟩
  · cases hσ
    simp [access, begin, newClient, start, effect, ClientState.setThread]
  · intro l hl i acc hacc
    subst hacc
    simp [writeSteps] at hl
  · cases hσ
    decide +kernel

theorem resting_afterWrite {σ : Session} (hσ : afterWrite = some σ) : Resting σ.client := by
  intro k
  have hthreads : afterWrite.map (fun σ => σ.client.threads k) = some .running := by
    cases k with
    | zero | succ => rfl
  rw [hσ] at hthreads
  exact some.inj hthreads

/-- After the write the checkpoint has page 0 with the new byte. -/
theorem oneWrite_checkpoint :
    ∃ σ, afterWrite = some σ ∧ σ.log = [(.write 0 0 5, none)]
      ∧ ∃ cp, exportCheckpoint twoPages σ.shared σ.client = some cp
        ∧ ∃ stacked, newBackend 1 2 (twoPages.layers ++ [toLayer "checkpoint" 1 cp])
            = .ok stacked
          ∧ stacked.readPage 0 = some [5] ∧ stacked.readPage 1 = some [9] := by
  have hlog : afterWrite.map Session.log = some [(.write 0 0 5, none)] := by decide +kernel
  obtain ⟨σ, hσ, hlog⟩ := map_eq_some_iff.mp hlog
  have hb : newBackend 1 2 twoPages.layers = .ok twoPages := rfl
  obtain ⟨-, -, cp, hcp, -, -, -, -, stacked, hstacked, hread⟩ :=
    checkpoint_restores hb oneWrite_orderly hσ (resting_afterWrite hσ) "checkpoint"
  refine ⟨σ, hσ, hlog, cp, hcp, stacked, hstacked, ?_, ?_⟩
  · rw [hread, hlog]
    decide +kernel
  · rw [hread, hlog]
    decide +kernel

end ClientCheckpoint
