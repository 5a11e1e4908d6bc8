import DemoStore.MachineRunProofs
import DemoStore.ObjectHeapProofs
import DemoStore.PageStoreProofs

/-! # The snapshot driver — its state and its entry points

    The driver keeps a list of templates, one page pool shared by all of them,
    and for every mapping a `vma_snapshot_data` that the kernel hands on when it
    duplicates the VMA.  This file embeds the entry points (`snapshot_ioctl`,
    `snapshot_mmap` and the `vm_ops`) as functions on that state; everything the
    kernel decides (allocations, files, the result of `vmf_insert_page`) is an
    argument.  `driverStep` is one call, `driver` the machine of all calls run
    one after the other. -/

namespace SnapshotDriver

open SparseFile PageStore ObjectHeap
open Function (update update_of_ne update_self)

/-! ## C strings -/

/-- `strncmp(a, b, n) == 0`; a buffer that is shorter reads as zeros. -/
def strncmpEq : Nat → List UInt8 → List UInt8 → Bool
  | 0, _, _ => true
  | n + 1, a, b =>
    a.headD 0 == b.headD 0 && (a.headD 0 == 0 || strncmpEq n a.tail b.tail)

/-- The bytes of a buffer up to the first zero. -/
def cstr (bs : List UInt8) : List UInt8 := bs.takeWhile (· ≠ 0)

/-- `strncpy`: up to `n` bytes of the string, padded with zeros. -/
def strncpy (n : Nat) (src : List UInt8) : List UInt8 :=
  let c := cstr (src.take n)
  c ++ List.replicate (n - c.length) 0

/-- The text `"snapshot_"`. -/
def devicePrefix : List UInt8 := [115, 110, 97, 112, 115, 104, 111, 116, 95]

/-- `TEMPLATE_ID_MAX_LEN`. -/
def templateIdMaxLen : Nat := 64

/-! ## The data -/

/-- `atomic_t`. -/
abbrev Atomic := BitVec 32

/-- `struct snapshot_template`; `pageTableCache` has `pageCount` entries. -/
structure Template where
  templateId : List UInt8
  totalSize : Nat
  pageCount : Nat
  pageTableCache : List PageTableEntry
  pagesFile : File
  mdevName : List UInt8
  refCount : Atomic

instance : Inhabited Template := ⟨⟨[], 0, 0, [], SparseFile.empty, [], 0⟩⟩

/-- `atomic_inc` and `atomic_dec` on `ref_count`. -/
def Template.addRef (n : Atomic) (x : Template) : Template :=
  { x with refCount := x.refCount + n }

/-- `struct phys_page_entry`; `pageRefs` counts the driver's own references to
    the `struct page` (`alloc_page` and `get_page` against `put_page` and
    `__free_page`), so the page is freed when it is zero. -/
structure PhysPageEntry where
  hashIdx : UInt64
  page : List UInt8
  pageRefs : Int
  refCount : Atomic

instance : Inhabited PhysPageEntry := ⟨⟨0, [], 0, 0⟩⟩

/-- Adds to `ref_count`. -/
def PhysPageEntry.addRef (n : Atomic) (x : PhysPageEntry) : PhysPageEntry :=
  { x with refCount := x.refCount + n }

theorem refCount_addRef (x : PhysPageEntry) (n : Atomic) :
    (x.addRef n).refCount = x.refCount + n := rfl

theorem hashIdx_addRef (x : PhysPageEntry) (n : Atomic) : (x.addRef n).hashIdx = x.hashIdx := rfl

theorem pageRefs_addRef (x : PhysPageEntry) (n : Atomic) : (x.addRef n).pageRefs = x.pageRefs := rfl

/-- `get_page`, `put_page` and `__free_page`. -/
def PhysPageEntry.addPageRefs (n : Int) (x : PhysPageEntry) : PhysPageEntry :=
  { x with pageRefs := x.pageRefs + n }

/-- `struct va_to_pa_entry`, a tracking node. -/
structure VaToPaEntry where
  vaOffset : Nat
  physEntry : Nat
  deriving DecidableEq

/-- `struct vma_snapshot_data`; the red-black tree is its list in order. -/
structure VmaSnapshotData where
  template : Nat
  vaToPaMap : List VaToPaEntry

instance : Inhabited VmaSnapshotData := ⟨⟨0, []⟩⟩

/-- Replaces the list of translations. -/
def VmaSnapshotData.setMap (m : List VaToPaEntry) (x : VmaSnapshotData) :
    VmaSnapshotData :=
  { x with vaToPaMap := m }

/-- The arguments of `mmap` on a device file. -/
structure MmapCall where
  devName : List UInt8
  vmStart : Nat
  vmEnd : Nat
  vmPgoff : Nat

/-- `struct vm_area_struct`, as far as the driver sees it.  `mapping` and
    `mappedTemplate` remember the `mmap` call the area descends from and the
    template that call found. -/
structure Vma where
  vmId : Nat
  vmStart : Nat
  vmEnd : Nat
  vmPgoff : Nat
  vmPrivateData : Nat
  mapping : MmapCall
  mappedTemplate : Nat

/-- `struct global_page_pool`; `allocated` is false while `buckets` is the null
    pointer. -/
structure GlobalPagePool where
  buckets : Nat → List Nat
  allocated : Bool
  totalPages : BitVec 64

/-- A use of an object that was freed. -/
inductive Misuse where
  | entry (p : Nat)
  | data (p : Nat)
  deriving DecidableEq

/-- The driver's state and the VMAs the kernel has for it.  `nodesAllocated` and
    `nodesFreed` count the tracking nodes, `misuse` the uses after free, and
    `oops` records a bad dereference. -/
structure DriverState where
  templates : Heap Template
  templateList : List Nat
  pool : GlobalPagePool
  entries : Heap PhysPageEntry
  datas : Heap VmaSnapshotData
  vmas : List Vma
  nextVma : Nat
  nodesAllocated : Nat
  nodesFreed : Nat
  misuse : List Misuse
  oops : Bool

/-- `snapshot_init`. -/
def initState : DriverState where
  templates := Heap.start
  templateList := []
  pool := ⟨fun _ => [], true, 0⟩
  entries := Heap.start
  datas := Heap.start
  vmas := []
  nextVma := 0
  nodesAllocated := 0
  nodesFreed := 0
  misuse := []
  oops := false

/-- An access to a freed entry is noted. -/
def touchEntry (e : Nat) (s : DriverState) : DriverState :=
  if s.entries.live e then s else { s with misuse := .entry e :: s.misuse }

/-- An access to freed VMA data is noted. -/
def touchData (d : Nat) (s : DriverState) : DriverState :=
  if s.datas.live d then s else { s with misuse := .data d :: s.misuse }

/-- `ENOENT`. -/
def eNoent : Int := 2
/-- `EIO`. -/
def eIo : Int := 5
/-- `ENOMEM`. -/
def eNomem : Int := 12
/-- `EFAULT`. -/
def eFault : Int := 14
/-- `EBUSY`. -/
def eBusy : Int := 16
/-- `EEXIST`. -/
def eExist : Int := 17
/-- `EINVAL`. -/
def eInval : Int := 22
/-- `ENOTTY`. -/
def eNotty : Int := 25

/-! ## `snapshot_pool.c` -/

/-- The number of hash buckets. -/
def poolBucketCount : Nat := 2 ^ 20

/-- `hash_to_bucket`. -/
def hashToBucket (h : UInt64) : Nat := h.toNat % poolBucketCount

/-- Replaces the list of a bucket. -/
def GlobalPagePool.setBucket (pool : GlobalPagePool) (b : Nat) (l : List Nat) :
    GlobalPagePool :=
  { pool with buckets := update pool.buckets b l }

section Buckets

variable {pool : GlobalPagePool} {b₀ e : Nat}

/-- `hlist_add_head`. -/
theorem mem_buckets_cons (pool : GlobalPagePool) (b₀ e b e' : Nat) :
    e' ∈ (pool.setBucket b₀ (e :: pool.buckets b₀)).buckets b
      ↔ (e' = e ∧ b = b₀) ∨ e' ∈ pool.buckets b := by
  show e' ∈ update pool.buckets b₀ (e :: pool.buckets b₀) b ↔ _
  by_cases hb : b = b₀
  · rw [hb, update_self, List.mem_cons]
    simp
  · rw [update_of_ne hb]
    simp [hb]

theorem nodup_buckets_cons (hnodup : ∀ b, (pool.buckets b).Nodup) (hout : e ∉ pool.buckets b₀)
    (b : Nat) : ((pool.setBucket b₀ (e :: pool.buckets b₀)).buckets b).Nodup := by
  show (update pool.buckets b₀ (e :: pool.buckets b₀) b).Nodup
  by_cases hb : b = b₀
  · rw [hb, update_self]
    exact List.nodup_cons.mpr ⟨hout, hnodup b₀⟩
  · rw [update_of_ne hb]
    exact hnodup b

/-- `hlist_del` of an entry that is in no other bucket. -/
theorem mem_buckets_erase (hnodup : ∀ b, (pool.buckets b).Nodup)
    (hplace : ∀ b, e ∈ pool.buckets b → b₀ = b) (b e' : Nat) :
    e' ∈ (pool.setBucket b₀ ((pool.buckets b₀).erase e)).buckets b
      ↔ e' ≠ e ∧ e' ∈ pool.buckets b := by
  show e' ∈ update pool.buckets b₀ ((pool.buckets b₀).erase e) b ↔ _
  by_cases hb : b = b₀
  · rw [hb, update_self]
    exact (hnodup b₀).mem_erase_iff
  · rw [update_of_ne hb]
    refine ⟨fun hin => ⟨fun hee => ?_, hin⟩, And.right⟩
    exact hb (hplace b (hee ▸ hin)).symm

theorem nodup_buckets_erase (hnodup : ∀ b, (pool.buckets b).Nodup) (b₀ e b : Nat) :
    ((pool.setBucket b₀ ((pool.buckets b₀).erase e)).buckets b).Nodup := by
  show (update pool.buckets b₀ ((pool.buckets b₀).erase e) b).Nodup
  by_cases hb : b = b₀
  · rw [hb, update_self]
    exact (hnodup b₀).erase e
  · rw [update_of_ne hb]
    exact hnodup b

end Buckets

/-- The entry of a hash in its bucket. -/
def poolFind (s : DriverState) (h : UInt64) : Option Nat :=
  (s.pool.buckets (hashToBucket h)).find? fun e => (s.entries.val e).hashIdx == h

/-- One more reference to the entry. -/
def refEntry (s : DriverState) (e : Nat) : DriverState :=
  { s with entries := s.entries.modify e (PhysPageEntry.addRef 1) }

/-- The kernel's references to the page change by `n`. -/
def addPageRefs (s : DriverState) (e : Nat) (n : Int) : DriverState :=
  { s with entries := s.entries.modify e (PhysPageEntry.addPageRefs n) }

/-- `snapshot_pool_lookup`. -/
def snapshotPoolLookup (s : DriverState) (h : UInt64) : Option Nat × DriverState :=
  match poolFind s h with
  | some e => (some e, refEntry s e)
  | none => (none, s)

/-- The new entry of `snapshot_pool_add`, linked at the head of its bucket. -/
def linkEntry (s : DriverState) (h : UInt64) (data : List UInt8) : DriverState :=
  let b := hashToBucket h
  let pool := s.pool.setBucket b (s.entries.next :: s.pool.buckets b)
  { s with
    entries := s.entries.alloc ⟨h, data, 1, 1⟩
    pool := { pool with totalPages := pool.totalPages + 1 } }

/-- `snapshot_pool_add`; run alone, the check after the allocation sees what the
    first one saw. -/
def snapshotPoolAdd (s : DriverState) (h : UInt64) (data : List UInt8)
    (kzalloc allocPage : Bool) : Option Nat × DriverState :=
  match poolFind s h with
  | some e => (some e, refEntry s e)
  | none =>
    if kzalloc = false then (none, s)
    else if allocPage = false then (none, s)
    else (some s.entries.next, linkEntry s h data)

/-- The branch of `snapshot_pool_unref` at zero: unlink, `__free_page`, `kfree`.  The links of
    an entry that is in no bucket are poisoned: `hlist_del` oopses on them. -/
def dropEntry (s : DriverState) (e : Nat) : DriverState :=
  let b := hashToBucket (s.entries.val e).hashIdx
  let pool := s.pool.setBucket b ((s.pool.buckets b).erase e)
  { s with
    pool := { pool with totalPages := pool.totalPages - 1 }
    entries := (s.entries.modify e (PhysPageEntry.addPageRefs (-1))).free e
    oops := s.oops || !(s.pool.buckets b).contains e }

/-- `snapshot_pool_unref`. -/
def snapshotPoolUnref (s : DriverState) (e : Nat) : DriverState :=
  let s := touchEntry e s
  let s := { s with entries := s.entries.modify e (PhysPageEntry.addRef (-1)) }
  if (s.entries.val e).refCount = 0 then dropEntry s e else s

/-- The entries that `snapshot_pool_destroy` frees: linked, with a count of
    zero. -/
def destroyed (s : DriverState) (e : Nat) : Bool :=
  let x := s.entries.val e
  (s.pool.buckets (hashToBucket x.hashIdx)).contains e && x.refCount == 0

/-- `snapshot_pool_destroy`: every bucket is emptied, whatever the counts. -/
def snapshotPoolDestroy (s : DriverState) : DriverState :=
  if s.pool.allocated = false then { s with oops := true }
  else
    { s with
      entries :=
        { s.entries with
          val := fun e =>
            let x := s.entries.val e
            if destroyed s e then x.addPageRefs (-1) else x
          live := fun e => if destroyed s e then false else s.entries.live e
          frees := fun e =>
            if destroyed s e then s.entries.frees e + 1 else s.entries.frees e }
      pool := { s.pool with buckets := fun _ => [], allocated := false } }

/-- `snapshot_pool_init`; when the allocation fails the pool keeps its old
    counters and a null pointer. -/
def snapshotPoolInit (s : DriverState) (kvmalloc : Bool) : DriverState :=
  if kvmalloc then { s with pool := ⟨fun _ => [], true, 0⟩ }
  else { s with pool := { s.pool with buckets := fun _ => [], allocated := false } }

/-! ## `snapshot_template.c` -/

/-- The loop over `template_list` that all lookups share. -/
def searchList (templates : Heap Template) (l : List Nat) (id : List UInt8) :
    Option Nat :=
  l.find? fun t => strncmpEq templateIdMaxLen (templates.val t).templateId id

/-- The lookup in the list of templates. -/
def findTemplate (s : DriverState) (id : List UInt8) : Option Nat :=
  searchList s.templates s.templateList id

/-- Add to a template's `ref_count`. -/
def addTemplateRef (s : DriverState) (t : Nat) (n : Atomic) : DriverState :=
  { s with templates := s.templates.modify t (Template.addRef n) }

/-- `snapshot_template_find_ref`. -/
def snapshotTemplateFindRef (s : DriverState) (id : List UInt8) :
    Option Nat × DriverState :=
  match findTemplate s id with
  | some t => (some t, addTemplateRef s t 1)
  | none => (none, s)

/-- `list_del` and `kfree` of a template. -/
def removeTemplate (s : DriverState) (t : Nat) : DriverState :=
  { s with
    templateList := s.templateList.erase t
    templates := s.templates.free t }

/-- `snapshot_template_unref`: at zero the template is unlinked and freed. -/
def snapshotTemplateUnref (s : DriverState) (t : Nat) : DriverState :=
  let s := addTemplateRef s t (-1)
  if (s.templates.val t).refCount = 0 then removeTemplate s t else s

/-- `struct ioctl_create_template`. -/
structure IoctlCreateTemplate where
  templateId : List UInt8
  totalSize : UInt64
  pageTablePath : List UInt8
  pagesPath : List UInt8

/-- The kernel's side of a create: opened files by path, `kernel_read`, the two
    allocations, the result of `misc_register`, and the stack behind the
    argument structure (`kasprintf` reads on until a zero). -/
structure CreateEnv where
  filpOpen : List UInt8 → Option File
  kernelRead : File → Nat → Nat → List UInt8
  kzalloc : Bool
  kasprintf : Bool
  miscRegister : Int
  stackTail : List UInt8

/-- The memory from the field `template_id` on, as `kasprintf` sees it. -/
def IoctlCreateTemplate.tail (args : IoctlCreateTemplate) (stackTail : List UInt8) :
    List UInt8 :=
  args.templateId ++ le64 args.totalSize ++ args.pageTablePath ++ args.pagesPath ++ stackTail

/-- The template a create builds. -/
def newTemplate (args : IoctlCreateTemplate) (env : CreateEnv) (pages : File)
    (buf : List UInt8) : Template where
  templateId := strncpy templateIdMaxLen args.templateId
  totalSize := args.totalSize.toNat
  pageCount := args.totalSize.toNat / pageSize
  pageTableCache := entriesOf buf (args.totalSize.toNat / pageSize)
  pagesFile := pages
  mdevName := devicePrefix ++ cstr (args.tail env.stackTail)
  refCount := 0

/-- A template that was allocated and freed again. -/
def discardTemplate (s : DriverState) : DriverState :=
  { s with templates := (s.templates.alloc default).free s.templates.next }

/-- `snapshot_template_create`. -/
def snapshotTemplateCreate (s : DriverState) (args : IoctlCreateTemplate)
    (env : CreateEnv) : Int × DriverState :=
  if (findTemplate s args.templateId).isSome then (-eExist, s)
  else
    match env.filpOpen (cstr args.pageTablePath) with
    | none => (-eInval, s)
    | some pageTableFile =>
      match env.filpOpen (cstr args.pagesPath) with
      | none => (-eInval, s)
      | some pagesFile =>
        if env.kzalloc = false then (-eNomem, s)
        else
          -- from here on every error frees the template
          let want := args.totalSize.toNat / pageSize * 16
          let buf := env.kernelRead pageTableFile 0 want
          if buf.length ≠ want then (-eIo, discardTemplate s)
          else if env.kasprintf = false then (-eNomem, discardTemplate s)
          else if env.miscRegister ≠ 0 then (env.miscRegister, discardTemplate s)
          else (0, { s with
            templates := s.templates.alloc (newTemplate args env pagesFile buf)
            templateList := s.templateList ++ [s.templates.next] })

/-- The end of a delete: without templates the pool is cleared.  `kvmalloc` is
    the allocation in `snapshot_pool_init`, whose failure is not looked at. -/
def clearPool (s : DriverState) (kvmalloc : Bool) : DriverState :=
  if s.templateList = [] then snapshotPoolInit (snapshotPoolDestroy s) kvmalloc else s

/-- `snapshot_template_delete`. -/
def snapshotTemplateDelete (s : DriverState) (id : List UInt8) (kvmalloc : Bool) :
    Int × DriverState :=
  match findTemplate s id with
  | none => (-eNoent, s)
  | some t =>
    if (s.templates.val t).refCount.toInt > 0 then (-eBusy, s)
    else (0, clearPool (removeTemplate s t) kvmalloc)

/-- `snapshot_template_status`: the return value, `mmap_count` and
    `loaded_pages`. -/
def snapshotTemplateStatus (s : DriverState) (id : List UInt8) :
    Int × BitVec 64 × BitVec 64 :=
  match findTemplate s id with
  | none => (-eNoent, 0, 0)
  | some t => (0, (s.templates.val t).refCount.signExtend 64, s.pool.totalPages)

/-! ## `snapshot_mmap.c` -/

/-- The template id `snapshot_mmap` looks for. -/
def mmapTemplateId (devName : List UInt8) : List UInt8 :=
  strncpy (templateIdMaxLen - 1) (devName.drop 9) ++ [0]

/-- The VMA and its data, once everything else succeeded. -/
def addVma (s : DriverState) (call : MmapCall) (t : Nat) : DriverState :=
  { s with
    datas := s.datas.alloc ⟨t, []⟩
    vmas := s.vmas ++ [⟨s.nextVma, call.vmStart, call.vmEnd, call.vmPgoff, s.datas.next, call, t⟩]
    nextVma := s.nextVma + 1 }

/-- `snapshot_mmap`. -/
def snapshotMmap (s : DriverState) (call : MmapCall) (kzalloc : Bool) :
    Int × DriverState :=
  if strncmpEq 9 call.devName devicePrefix = false then (-eInval, s)
  else
    match snapshotTemplateFindRef s (mmapTemplateId call.devName) with
    | (none, s) => (-eInval, s)
    | (some t, s) =>
      let size := call.vmEnd - call.vmStart
      if size % pageSize ≠ 0 ∨ size > (s.templates.val t).totalSize then
        (-eInval, snapshotTemplateUnref s t)
      else if kzalloc = false then (-eNomem, snapshotTemplateUnref s t)
      -- a second reference, after the one of the lookup
      else (0, addTemplateRef (addVma s call t) t 1)

/-- `snapshot_vma_open`. -/
def snapshotVmaOpen (s : DriverState) (d : Nat) : DriverState :=
  let s := touchData d s
  addTemplateRef s (s.datas.val d).template 1

/-- One turn of the loop in `snapshot_vma_close`: the page loses the reference
    of `get_page`, the entry one reference, and the node is freed. -/
def releaseNode (s : DriverState) (node : VaToPaEntry) : DriverState :=
  let s := snapshotPoolUnref (addPageRefs s node.physEntry (-1)) node.physEntry
  { s with nodesFreed := s.nodesFreed + 1 }

/-- The emptied tree and `kfree(vma_data)`. -/
def freeData (s : DriverState) (d : Nat) : DriverState :=
  { s with datas := (s.datas.modify d (VmaSnapshotData.setMap [])).free d }

/-- `snapshot_vma_close` on the data of a VMA. -/
def snapshotVmaClose (s : DriverState) (d : Nat) : DriverState :=
  let s := touchData d s
  let data := s.datas.val d
  snapshotTemplateUnref (freeData (data.vaToPaMap.foldl releaseNode s) d) data.template

/-- `va_insert`: `none` is `-EEXIST`. -/
def vaInsert : List VaToPaEntry → VaToPaEntry → Option (List VaToPaEntry)
  | [], new => some [new]
  | e :: es, new =>
    if new.vaOffset < e.vaOffset then some (new :: e :: es)
    else if new.vaOffset > e.vaOffset then (vaInsert es new).map (e :: ·)
    else none

/-- The kernel's side of a fault: the page buffer, `kernel_read`, the two
    allocations of `snapshot_pool_add`, the tracking node and
    `vmf_insert_page`. -/
structure FaultEnv where
  kmallocBuf : Bool
  kernelRead : File → Nat → Nat → List UInt8
  kzallocEntry : Bool
  allocPage : Bool
  kmallocNode : Bool
  insertPage : Bool

/-- `vm_fault_t`, with the entry whose page was mapped. -/
inductive FaultResult where
  | sigbus
  | oom
  | insertFailed
  | mapped (entry : Nat)
  deriving DecidableEq

/-- The tracking of a mapping; the result of `va_insert` is ignored, so a node
    that is not inserted is lost. -/
def trackNode (s : DriverState) (d vaOffset e : Nat) (kmallocNode : Bool) :
    DriverState :=
  if kmallocNode then
    let s := { s with nodesAllocated := s.nodesAllocated + 1 }
    match vaInsert (s.datas.val d).vaToPaMap ⟨vaOffset, e⟩ with
    | some m => { s with datas := s.datas.modify d (VmaSnapshotData.setMap m) }
    | none => s
  else s

/-- From `map_page` on. -/
def mapPage (s : DriverState) (d vaOffset e : Nat) (env : FaultEnv) :
    FaultResult × DriverState :=
  let s := addPageRefs (trackNode s d vaOffset e env.kmallocNode) e 1
  if env.insertPage then (.mapped e, s)
  -- the references go, the node stays in the tree
  else (.insertFailed, snapshotPoolUnref (addPageRefs s e (-1)) e)

/-- Why a page could not be loaded. -/
inductive LoadError where
  | sigbus
  | oom

/-- What the fault handler returns for it. -/
def LoadError.result : LoadError → FaultResult
  | .sigbus => .sigbus
  | .oom => .oom

/-- The page of a hash: from the pool, or loaded from the template's file. -/
def loadEntry (s : DriverState) (pagesFile : File) (h : UInt64) (env : FaultEnv) :
    Except LoadError Nat × DriverState :=
  match snapshotPoolLookup s h with
  | (some e, s) => (.ok e, s)
  | (none, s) =>
    if env.kmallocBuf = false then (.error .oom, s)
    else
      match probePages (env.kernelRead pagesFile) hashModulus h maxProbeCount
          (h.toNat % hashModulus) with
      | .found data =>
        match snapshotPoolAdd s h data env.kzallocEntry env.allocPage with
        | (none, s) => (.error .oom, s)
        | (some e, s) => (.ok e, s)
      | _ => (.error .sigbus, s)

/-- `snapshot_vma_fault`. -/
def snapshotVmaFault (s : DriverState) (v : Vma) (address : Nat) (env : FaultEnv) :
    FaultResult × DriverState :=
  let s := touchData v.vmPrivateData s
  let template := s.templates.val (s.datas.val v.vmPrivateData).template
  -- counted from the start of this VMA; `vm_pgoff` is not read
  let vaOffset := address - v.vmStart
  let pageIndex := vaOffset / pageSize
  if pageIndex ≥ template.pageCount then (.sigbus, s)
  else
    match template.pageTableCache[pageIndex]? with
    | none => (.sigbus, s)
    | some pte =>
      if s.pool.allocated = false then (.sigbus, { s with oops := true })
      else
        match loadEntry s template.pagesFile pte.hashIdx env with
        | (.error r, s) => (r.result, s)
        | (.ok e, s) => mapPage s v.vmPrivateData vaOffset e env

/-! ## Calls -/

/-- The commands of `snapshot_ioctl` with their arguments. -/
inductive IoctlCmd where
  | create (args : IoctlCreateTemplate) (env : CreateEnv)
  | delete (id : List UInt8) (kvmalloc : Bool)
  | status (id : List UInt8)
  | other

/-- What the kernel asks of the driver.  `fork` and `split` duplicate a VMA
    before they call `snapshot_vma_open`. -/
inductive DriverOp where
  | ioctl (cmd : IoctlCmd) (copyFromUser copyToUser : Bool)
  | mmap (call : MmapCall) (kzalloc : Bool)
  | fork (v : Nat)
  | split (v address : Nat)
  | close (v : Nat)
  | fault (v address : Nat) (env : FaultEnv)

/-- What a call of the driver returns. -/
inductive OpResult where
  | ret (code : Int)
  | status (mmapCount loadedPages : BitVec 64)
  | fault (r : FaultResult)
  | done

/-- `snapshot_ioctl`. -/
def snapshotIoctl (s : DriverState) (cmd : IoctlCmd)
    (copyFromUser copyToUser : Bool) : OpResult × DriverState :=
  match cmd with
  | .create args env =>
    if copyFromUser = false then (.ret (-eFault), s)
    else
      let r := snapshotTemplateCreate s args env
      (.ret r.1, r.2)
  | .delete id kvmalloc =>
    if copyFromUser = false then (.ret (-eFault), s)
    else
      let r := snapshotTemplateDelete s id kvmalloc
      (.ret r.1, r.2)
  | .status id =>
    if copyFromUser = false then (.ret (-eFault), s)
    else
      let r := snapshotTemplateStatus s id
      -- the structure is copied back whatever the lookup returned
      if copyToUser = false then (.ret (-eFault), s)
      else if r.1 = 0 then (.status r.2.1 r.2.2, s)
      else (.ret r.1, s)
  | .other => (.ret (-eNotty), s)

/-- The mapping with this number. -/
def findVma (s : DriverState) (v : Nat) : Option Vma :=
  s.vmas.find? fun x => x.vmId == v

/-- The upper part of a split, with the offset the kernel gives it. -/
def Vma.upper (v : Vma) (id address : Nat) : Vma :=
  { v with
    vmId := id
    vmStart := address
    vmPgoff := v.vmPgoff + (address - v.vmStart) / pageSize }

/-- The mapping ends where the split cuts it. -/
def Vma.cutAt (id address : Nat) (v : Vma) : Vma :=
  if v.vmId = id then { v with vmEnd := address } else v

/-- The new VMA of a fork. -/
def forkVma (s : DriverState) (x : Vma) : DriverState :=
  { s with
    vmas := s.vmas ++ [{ x with vmId := s.nextVma }]
    nextVma := s.nextVma + 1 }

/-- The two VMAs of a split. -/
def splitVma (s : DriverState) (x : Vma) (address : Nat) : DriverState :=
  { s with
    vmas := s.vmas.map (Vma.cutAt x.vmId address) ++ [x.upper s.nextVma address]
    nextVma := s.nextVma + 1 }

/-- The mapping is gone. -/
def dropVma (s : DriverState) (v : Nat) : DriverState :=
  { s with vmas := s.vmas.filter fun y => y.vmId ≠ v }

/-- One call; `none` when the kernel cannot make it (no such VMA, an address
    outside of it). -/
def driverStep (s : DriverState) : DriverOp → Option (OpResult × DriverState)
  | .ioctl cmd copyFromUser copyToUser =>
    some (snapshotIoctl s cmd copyFromUser copyToUser)
  | .mmap call kzalloc =>
    if call.vmStart < call.vmEnd then
      let r := snapshotMmap s call kzalloc
      some (.ret r.1, r.2)
    else none
  | .fork v =>
    (findVma s v).map fun x =>
      (.done, snapshotVmaOpen (forkVma s x) x.vmPrivateData)
  | .split v address =>
    (findVma s v).bind fun x =>
      if x.vmStart < address ∧ address < x.vmEnd
          ∧ (address - x.vmStart) % pageSize = 0 then
        some (.done, snapshotVmaOpen (splitVma s x address) x.vmPrivateData)
      else none
  | .close v =>
    (findVma s v).map fun x =>
      (.done, snapshotVmaClose (dropVma s v) x.vmPrivateData)
  | .fault v address env =>
    (findVma s v).bind fun x =>
      if x.vmStart ≤ address ∧ address < x.vmEnd then
        let r := snapshotVmaFault s x address env
        some (.fault r.1, r.2)
      else none

/-- The driver as a machine. -/
def driver (s : DriverState) (op : DriverOp) : Option DriverState :=
  (driverStep s op).map Prod.snd

/-! ## A small template

    The id `a`, two pages with the hashes 1 and 2; the calls below all succeed
    when they are made in order. -/

/-- The identifier `a`. -/
def sampleId : List UInt8 := strncpy templateIdMaxLen [97]

/-- The page table file of two pages. -/
def sampleTable : List UInt8 := le64 0 ++ le64 1 ++ le64 4096 ++ le64 2

/-- A template of two pages with this identifier field. -/
def sampleArgs (field : List UInt8) : IoctlCreateTemplate := ⟨field, 8192, [116, 0], [112, 0]⟩

/-- Its files, in a call in which nothing fails. -/
def sampleEnv : CreateEnv :=
  ⟨fun _ => some SparseFile.empty, fun _ _ n => sampleTable.take n, true, true, 0, []⟩

/-- The call that creates it. -/
def sampleCreate : DriverOp := .ioctl (.create (sampleArgs sampleId) sampleEnv) true true

/-- A mapping of it. -/
def sampleCall (pages pgoff : Nat) : MmapCall :=
  ⟨devicePrefix ++ [97], 0, pages * pageSize, pgoff⟩

/-- The call that maps it. -/
def sampleMmap (pages pgoff : Nat) : DriverOp := .mmap (sampleCall pages pgoff) true

/-- The state after a run from the start. -/
def afterRun (ops : List DriverOp) : DriverState :=
  (MachineRun.exec driver initState ops).getD initState

/-- A fault in which no allocation fails. -/
def smoothFault (kernelRead : File → Nat → Nat → List UInt8) : FaultEnv :=
  ⟨true, kernelRead, true, true, true, true⟩

/-- Such a fault after its load handed out `e` for the offset. -/
def afterLoad (s : DriverState) (d vaOffset e : Nat) : DriverState :=
  addPageRefs (trackNode s d vaOffset e true) e 1

variable {s : DriverState} {kernelRead : File → Nat → Nat → List UInt8} {v a : Nat} {x : Vma}
  {p : PageTableEntry}

/-- A page that the pool does not have is linked as the file has it. -/
theorem loadEntry_missing {f : File} {h : UInt64} {data : List UInt8}
    (hfind : poolFind s h = none)
    (hprobe : probePages (kernelRead f) hashModulus h maxProbeCount (h.toNat % hashModulus)
      = .found data) :
    loadEntry s f h (smoothFault kernelRead) = (.ok s.entries.next, linkEntry s h data) := by
  have hadd : snapshotPoolAdd s h data true true = (some s.entries.next, linkEntry s h data) := by
    rw [snapshotPoolAdd, hfind]
    rfl
  rw [loadEntry, snapshotPoolLookup, hfind, smoothFault]
  dsimp only
  rw [if_neg Bool.noConfusion, hprobe]
  dsimp only
  rw [hadd]

/-- A fault whose load succeeds maps what the load handed out. -/
theorem driverStep_loaded {s₂ : DriverState} {e : Nat} (hx : findVma s v = some x)
    (hin : x.vmStart ≤ a ∧ a < x.vmEnd) (hlive : s.datas.live x.vmPrivateData = true)
    (hcount : (a - x.vmStart) / pageSize
      < (s.templates.val (s.datas.val x.vmPrivateData).template).pageCount)
    (hpte : (s.templates.val (s.datas.val x.vmPrivateData).template).pageTableCache[
      (a - x.vmStart) / pageSize]? = some p) (hpool : s.pool.allocated = true)
    (hload : loadEntry s (s.templates.val (s.datas.val x.vmPrivateData).template).pagesFile
      p.hashIdx (smoothFault kernelRead) = (.ok e, s₂)) :
    driverStep s (.fault v a (smoothFault kernelRead))
      = some (.fault (.mapped e), afterLoad s₂ x.vmPrivateData (a - x.vmStart) e) := by
  have htouch : touchData x.vmPrivateData s = s := if_pos hlive
  have hfault : snapshotVmaFault s x a (smoothFault kernelRead)
      = (.mapped e, afterLoad s₂ x.vmPrivateData (a - x.vmStart) e) := by
    rw [snapshotVmaFault, htouch, if_neg (Nat.not_le.mpr hcount), hpte]
    dsimp only
    rw [hpool, if_neg Bool.noConfusion, hload]
    rfl
  rw [driverStep, hx, Option.bind_some, if_pos hin, hfault]

/-- Reads that find the page of `h`, all zeros, in the first slot they probe. -/
def sampleRead (h : UInt64) (_ : File) (_ n : Nat) : List UInt8 :=
  if n = 8 then le64 h else List.replicate n 0

/-- A fault in which nothing fails. -/
def sampleFault (h : UInt64) : FaultEnv := smoothFault (sampleRead h)

theorem probePages_sample (f : File) (h : UInt64) (m n i : Nat) :
    probePages (sampleRead h f) m h (n + 1) i = .found (List.replicate pageSize 0) := by
  have hhead : sampleRead h f (i * slotSize) 8 = le64 h := if_pos rfl
  have hdata : sampleRead h f (i * slotSize + 8) pageSize = List.replicate pageSize 0 :=
    if_neg (by decide)
  rw [probePages_succ, hhead, hdata, length_le64, if_neg (fun hne => hne rfl), word64_le64,
    if_pos rfl, List.length_replicate, if_neg (fun hne => hne rfl)]

/-- The state after a first fault for the page with the hash `h`. -/
def firstFault (s : DriverState) (x : Vma) (a : Nat) (h : UInt64) : DriverState :=
  afterLoad (linkEntry s h (List.replicate pageSize 0)) x.vmPrivateData (a - x.vmStart)
    s.entries.next

/-- A first fault on a page links a new entry and maps it. -/
theorem driverStep_sample (hx : findVma s v = some x) (hin : x.vmStart ≤ a ∧ a < x.vmEnd)
    (hlive : s.datas.live x.vmPrivateData = true) (hcount : (a - x.vmStart) / pageSize
      < (s.templates.val (s.datas.val x.vmPrivateData).template).pageCount)
    (hpte : (s.templates.val (s.datas.val x.vmPrivateData).template).pageTableCache[
      (a - x.vmStart) / pageSize]? = some p) (hpool : s.pool.allocated = true)
    (hfind : poolFind s p.hashIdx = none) :
    driverStep s (.fault v a (sampleFault p.hashIdx))
      = some (.fault (.mapped s.entries.next), firstFault s x a p.hashIdx) :=
  driverStep_loaded hx hin hlive hcount hpte hpool
    (loadEntry_missing hfind (probePages_sample _ _ _ 63 _))

/-- One page mapped from offset 0. -/
def onePage : DriverState := afterRun [sampleCreate, sampleMmap 1 0]

/-- The mapping of its first page. -/
def onePageVma : Vma := ⟨0, 0, pageSize, 0, 0, sampleCall 1 0, 0⟩

theorem onePage_fault :
    driverStep onePage (.fault 0 0 (sampleFault 1))
      = some (.fault (.mapped 0), firstFault onePage onePageVma 0 1) :=
  driverStep_sample (s := onePage) (x := onePageVma) (p := ⟨0, 1⟩) rfl (by decide) rfl
    (by decide) (by rfl) rfl rfl

end SnapshotDriver
