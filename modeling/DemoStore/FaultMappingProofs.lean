import DemoStore.DriverFrameProofs

/-! # Which page a fault maps

    The kernel gives every VMA a start and a page offset, and keeps
    `vm_pgoff + (address - vm_start) / PAGE_SIZE` fixed for an address when it
    splits the VMA.  `snapshot_vma_fault` takes the index of the page from the
    start alone.  The two agree on the page table entries exactly where the
    offset does not matter. -/

namespace FaultMapping

open ObjectHeap SnapshotDriver DriverFrame MachineRun PageStore List

variable {s s' : DriverState}

/-- The page of the template that an address of the VMA denotes. -/
def vmaPageIndex (x : Vma) (address : Nat) : Nat :=
  x.vmPgoff + (address - x.vmStart) / pageSize

/-- The page that the address denoted when it was mapped. -/
def callPageIndex (call : MmapCall) (address : Nat) : Nat :=
  call.vmPgoff + (address - call.vmStart) / pageSize

/-- The hash in the page table cache of the VMA's template. -/
def hashAt (s : DriverState) (x : Vma) (i : Nat) : Option UInt64 :=
  ((s.templates.val (s.datas.val x.vmPrivateData).template).pageTableCache[i]?).map (·.hashIdx)

/-! ## The fault maps the entry of the hash it looked up -/

theorem hashIdx_addPageRefs (s : DriverState) (e e' : Nat) (n : Int) :
    ((addPageRefs s e n).entries.val e').hashIdx = (s.entries.val e').hashIdx := by
  by_cases he : e' = e
  · subst he
    rw [addPageRefs, val_modify_self]
    rfl
  · rw [addPageRefs, val_modify_of_ne _ _ he]

theorem entries_trackNode (s : DriverState) (d off e : Nat) (kmallocNode : Bool) :
    (trackNode s d off e kmallocNode).entries = s.entries := by
  rw [trackNode]
  split
  · dsimp only
    split <;> rfl
  · rfl

variable {e address : Nat} {env : FaultEnv} {x : Vma}

/-- The entry mapped is the one given. -/
theorem mapPage_mapped {d off e' : Nat} (h : mapPage s d off e env = (.mapped e', s')) :
    e' = e ∧ (s'.entries.val e).hashIdx = (s.entries.val e).hashIdx := by
  rw [mapPage] at h
  split at h
  · cases h
    refine ⟨rfl, ?_⟩
    rw [hashIdx_addPageRefs, entries_trackNode]
  · cases congrArg Prod.fst h

/-- The entry loaded has the hash asked for. -/
theorem loadEntry_ok {f : SparseFile.File} {h : UInt64} (hok : loadEntry s f h env = (.ok e, s')) :
    (s'.entries.val e).hashIdx = h := by
  rcases loadEntry_cases s f h env with ⟨e', hfind, hload⟩ | ⟨data, -, hload⟩ | ⟨r, hload⟩
  · cases hload.symm.trans hok
    have hhash := find?_some hfind
    rw [refEntry, val_modify_self]
    exact eq_of_beq hhash
  · cases hload.symm.trans hok
    rw [linkEntry, val_alloc_self]
  · cases hload.symm.trans hok

/-- A fault that maps a page maps the entry for the index counted from the start
    of the VMA. -/
theorem fault_mapped_hash (h : snapshotVmaFault s x address env = (.mapped e, s')) :
    hashAt s x ((address - x.vmStart) / pageSize) = some (s'.entries.val e).hashIdx := by
  rcases snapshotVmaFault_cases s x address env with
    ⟨r, s₁, hfault, hr, -⟩ | ⟨pte, e', s₂, hpte, hload, hfault⟩
  · exact absurd (congrArg Prod.fst (hfault.symm.trans h)) (hr e)
  · obtain ⟨he, hhash⟩ := mapPage_mapped (hfault.symm.trans h)
    rw [hashAt, hpte, Option.map_some, he, hhash, loadEntry_ok hload]

/-! ## What an address denotes -/

/-- The VMA still denotes what its `mmap` call mapped. -/
structure Placed (s : DriverState) (x : Vma) : Prop where
  below : x.vmPrivateData < s.datas.next
  template : (s.datas.val x.vmPrivateData).template = x.mappedTemplate
  start : x.mapping.vmStart ≤ x.vmStart
  aligned : (x.vmStart - x.mapping.vmStart) % pageSize = 0
  offset : x.vmPgoff = x.mapping.vmPgoff + (x.vmStart - x.mapping.vmStart) / pageSize

/-- Each mapping has its data at its place. -/
def AllPlaced (s : DriverState) : Prop := ∀ x ∈ s.vmas, Placed s x

/-- For addresses of the VMA the index is the one of the call. -/
theorem Placed.index (h : Placed s x) (ha : x.vmStart ≤ address) :
    vmaPageIndex x address = callPageIndex x.mapping address := by
  have hstart := h.start
  have haligned := h.aligned
  rw [vmaPageIndex, callPageIndex, h.offset]
  rw [pageSize] at haligned ⊢
  omega

/-- `Placed` depends on the data of the VMA only. -/
theorem Placed.of_datas (h : Placed s x) (hnext : s.datas.next ≤ s'.datas.next)
    (htemplate : ∀ d < s.datas.next,
      (s'.datas.val d).template = (s.datas.val d).template) : Placed s' x where
  below := Nat.lt_of_lt_of_le h.below hnext
  template := (htemplate _ h.below).trans h.template
  start := h.start
  aligned := h.aligned
  offset := h.offset

theorem AllPlaced.of_datas (h : AllPlaced s) (hvmas : ∀ x ∈ s'.vmas, x ∈ s.vmas)
    (hnext : s'.datas.next = s.datas.next)
    (htemplate : ∀ d, (s'.datas.val d).template = (s.datas.val d).template) :
    AllPlaced s' :=
  fun x hx => (h x (hvmas x hx)).of_datas (Nat.le_of_eq hnext.symm) (fun d _ => htemplate d)

/-- What leaves the mappings leaves their places. -/
theorem AllPlaced.frame (h : AllPlaced s) (hframe : MappingFrame s s') : AllPlaced s' := by
  refine h.of_datas (fun x hx => hframe.vmas ▸ hx) ?_ (fun d => ?_) <;> rw [hframe.datas]

theorem allPlaced_touchData (h : AllPlaced s) (d : Nat) : AllPlaced (touchData d s) := by
  refine h.of_datas (fun x hx => touchData_vmas d s ▸ hx) ?_ (fun d' => ?_) <;>
    rw [touchData_datas]

/-- A new mapping is in its place. -/
theorem allPlaced_addVma (h : AllPlaced s) (call : MmapCall) (t : Nat) :
    AllPlaced (addVma s call t) := by
  intro x hx
  rcases mem_append.mp hx with hx | hx
  · refine (h x hx).of_datas (Nat.le_succ _) (fun d hd => ?_)
    rw [addVma, val_alloc_of_ne _ _ (Nat.ne_of_lt hd)]
  · cases mem_singleton.mp hx
    refine ⟨Nat.lt_succ_self _, ?_, Nat.le_refl _, ?_, ?_⟩
    · show ((s.datas.alloc _).val s.datas.next).template = t
      rw [val_alloc_self]
    · show (call.vmStart - call.vmStart) % pageSize = 0
      rw [Nat.sub_self, Nat.zero_mod]
    · show call.vmPgoff = call.vmPgoff + (call.vmStart - call.vmStart) / pageSize
      rw [Nat.sub_self, Nat.zero_div, Nat.add_zero]

/-- A child's mapping is in its place. -/
theorem allPlaced_fork (h : AllPlaced s) (hx : x ∈ s.vmas) : AllPlaced (forkVma s x) := by
  intro y hy
  rcases mem_append.mp hy with hy | hy
  · exact (h y hy).of_datas (Nat.le_refl _) (fun _ _ => rfl)
  · cases mem_singleton.mp hy
    exact ⟨(h x hx).below, (h x hx).template, (h x hx).start, (h x hx).aligned, (h x hx).offset⟩

/-- The upper part of a split starts whole pages later, by which its offset was
    advanced. -/
theorem placed_upper (h : Placed s x) (id : Nat) (hlow : x.vmStart < address)
    (halign : (address - x.vmStart) % pageSize = 0) : Placed s (x.upper id address) := by
  have hstart := h.start
  have haligned := h.aligned
  refine ⟨h.below, h.template, Nat.le_trans hstart (Nat.le_of_lt hlow), ?_, ?_⟩
  · show (address - x.mapping.vmStart) % pageSize = 0
    rw [pageSize] at halign haligned ⊢
    omega
  · show x.vmPgoff + (address - x.vmStart) / pageSize
      = x.mapping.vmPgoff + (address - x.mapping.vmStart) / pageSize
    rw [h.offset]
    rw [pageSize] at halign haligned ⊢
    omega

/-- Both halves of a split are in their places. -/
theorem allPlaced_split (h : AllPlaced s) (hx : x ∈ s.vmas) (hlow : x.vmStart < address)
    (halign : (address - x.vmStart) % pageSize = 0) : AllPlaced (splitVma s x address) := by
  intro y hy
  rcases mem_append.mp hy with hy | hy
  · obtain ⟨z, hz, rfl⟩ := List.mem_map.mp hy
    have hplaced := h z hz
    rw [Vma.cutAt]
    split
    · -- the lower part only ends earlier
      exact ⟨hplaced.below, hplaced.template, hplaced.start, hplaced.aligned, hplaced.offset⟩
    · exact hplaced.of_datas (Nat.le_refl _) (fun _ _ => rfl)
  · cases mem_singleton.mp hy
    have hupper := placed_upper (h x hx) s.nextVma hlow halign
    exact hupper.of_datas (Nat.le_refl _) (fun _ _ => rfl)

theorem allPlaced_open (h : AllPlaced s) (d : Nat) : AllPlaced (snapshotVmaOpen s d) :=
  (allPlaced_touchData h d).frame (addTemplateRef_frame _ _ 1).mappings

theorem allPlaced_close (h : AllPlaced s) (d : Nat) : AllPlaced (snapshotVmaClose s d) := by
  have htouch := allPlaced_touchData h d
  rw [snapshotVmaClose]
  generalize touchData d s = s₁ at htouch ⊢
  have hnodes := releaseNodes_frame (s₁.datas.val d).vaToPaMap s₁
  have hplaced : AllPlaced ((s₁.datas.val d).vaToPaMap.foldl releaseNode s₁) :=
    htouch.of_datas (fun x hx => hnodes.vmas ▸ hx) hnodes.dataNext hnodes.dataTemplate
  have hfree : AllPlaced (freeData ((s₁.datas.val d).vaToPaMap.foldl releaseNode s₁) d) :=
    hplaced.of_datas (fun _ hx => hx) rfl (fun d' => template_modify _ d d' [])
  exact hfree.frame (snapshotTemplateUnref_frame _ _).mappings

/-- Every step keeps all mappings in place. -/
theorem allPlaced_step (s : DriverState) (op : DriverOp) (s' : DriverState)
    (hs : AllPlaced s) (h : driver s op = some s') : AllPlaced s' := by
  obtain ⟨r, -, hmove⟩ := driverMove_of_driver h
  cases hmove with
  | ioctl cmd copyFromUser copyToUser =>
    exact hs.frame (snapshotIoctl_frame s cmd copyFromUser copyToUser)
  | mmap call kzalloc =>
    rcases snapshotMmap_frame s call kzalloc with hframe | ⟨t, hframe⟩
    · exact hs.frame hframe.mappings
    · exact (allPlaced_addVma hs call t).frame hframe.mappings
  | fork v x hx => exact allPlaced_open (allPlaced_fork hs (mem_of_findVma hx).1) _
  | split v address x hx hin halign =>
    exact allPlaced_open (allPlaced_split hs (mem_of_findVma hx).1 hin.1 halign) _
  | close v x hx =>
    refine allPlaced_close ?_ x.vmPrivateData
    exact hs.of_datas (fun y hy => (mem_filter.mp hy).1) rfl (fun _ => rfl)
  | fault v address env x hx =>
    have hframe := snapshotVmaFault_frame s x address env
    exact (allPlaced_touchData hs x.vmPrivateData).of_datas
      (fun y hy => hframe.vmas ▸ hy) hframe.dataNext hframe.dataTemplate

/-- **WHICH PAGE A FAULT MAPS.**  In every reachable state the VMA has the
    template of the `mmap` call it descends from, an address of it denotes the
    page it denoted then, and a fault that maps a page maps that page exactly
    when the page table has the same hash at the index without the offset. -/
theorem fault_maps_denoted_page_iff (hs : Reachable driver initState s)
    {v address e : Nat} {env : FaultEnv} {x : Vma} (hx : findVma s v = some x)
    (h : driverStep s (.fault v address env) = some (.fault (.mapped e), s')) :
    (s.datas.val x.vmPrivateData).template = x.mappedTemplate
      ∧ vmaPageIndex x address = callPageIndex x.mapping address
      ∧ (hashAt s x (vmaPageIndex x address) = some (s'.entries.val e).hashIdx
          ↔ hashAt s x (vmaPageIndex x address)
            = hashAt s x ((address - x.vmStart) / pageSize)) := by
  have hplaced := inv_of_reachable hs (fun _ hx => by cases hx) allPlaced_step
    x (mem_of_findVma hx).1
  have hmove := driverMove_of_step h
  generalize hres : OpResult.fault (.mapped e) = res at hmove
  cases hmove with
  | fault v address env y hy hin =>
    cases Option.some.inj (hx.symm.trans hy)
    have hfault : snapshotVmaFault s x address env
        = (.mapped e, (snapshotVmaFault s x address env).2) := by
      rw [OpResult.fault.inj hres]
    refine ⟨hplaced.template, hplaced.index hin.1, ?_⟩
    -- the page that was mapped has the hash at the index the driver computed
    rw [fault_mapped_hash hfault]

/-- A process maps two pages and forks. -/
def forked : List DriverOp := [sampleCreate, sampleMmap 2 0, .fork 0]

/-- The mapping of the child. -/
def childVma : Vma := ⟨1, 0, 2 * pageSize, 0, 0, sampleCall 2 0, 0⟩

/-- A fault of the child inside the second page maps the page with the hash 2. -/
theorem second_page_mapped :
    ∃ s s' x, exec driver initState forked = some s
      ∧ findVma s 1 = some x
      ∧ driverStep s (.fault 1 (pageSize + 7) (sampleFault 2)) = some (.fault (.mapped 0), s')
      ∧ hashAt s x (vmaPageIndex x (pageSize + 7)) = some (s'.entries.val 0).hashIdx := by
  have hx : findVma (afterRun forked) 1 = some childVma := rfl
  have hstep := driverStep_sample (p := ⟨4096, 2⟩) (a := pageSize + 7) hx (by decide) rfl
    (by decide) (by rfl) rfl rfl
  refine ⟨_, _, childVma, rfl, hx, hstep, ?_⟩
  exact (fault_maps_denoted_page_iff ⟨forked, rfl⟩ hx hstep).2.2.mpr rfl

/-- Two pages mapped from offset 0 and split between them. -/
def twoPages : DriverState := afterRun [sampleCreate, sampleMmap 2 0, .split 0 pageSize]

/-- The upper half after a split. -/
def upperVma : Vma := ⟨1, pageSize, 2 * pageSize, 1, 0, sampleCall 2 0, 0⟩

/-- A fault in the upper VMA denotes page 1 of the template, with the hash 2, and
    maps page 0, with the hash 1. -/
theorem split_maps_wrong_page :
    ∃ s s' x,
      exec driver initState [sampleCreate, sampleMmap 2 0, .split 0 pageSize] = some s
      ∧ findVma s 1 = some x
      ∧ driverStep s (.fault 1 pageSize (sampleFault 1)) = some (.fault (.mapped 0), s')
      ∧ vmaPageIndex x pageSize = 1 ∧ hashAt s x 1 = some 2
      ∧ (s'.entries.val 0).hashIdx = 1
      ∧ hashAt s x (vmaPageIndex x pageSize) ≠ some (s'.entries.val 0).hashIdx := by
  have hx : findVma twoPages 1 = some upperVma := rfl
  have hstep := driverStep_sample (p := ⟨0, 1⟩) (a := pageSize) hx (by decide) rfl
    (by decide) (by rfl) rfl rfl
  refine ⟨twoPages, firstFault twoPages upperVma pageSize 1, upperVma, rfl, hx, hstep,
    rfl, by rfl, rfl, ?_⟩
  show hashAt twoPages upperVma 1 ≠ some 1
  decide

end FaultMapping
