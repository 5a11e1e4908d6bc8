import DemoStore.SnapshotDriverProofs

/-! # The snapshot driver — what each call does and what it leaves alone

    Every result about the driver needs to know what a call can do, and most
    parts of the state are out of a call's reach.  The inversion lemmas below
    list the outcomes of each entry point once; `PoolFrame` collects what the
    pool and the tracking tree never touch, so that a fault or a close is
    followed through its helpers only here. -/

namespace DriverFrame

open ObjectHeap SnapshotDriver MachineRun PageStore Option

/-! ## Faults and releases stay inside the pool and the tracking trees -/

/-- `s'` differs from `s` in the pool, its entries and the tracking trees
    only. -/
structure PoolFrame (s s' : DriverState) : Prop where
  templates : s'.templates = s.templates
  templateList : s'.templateList = s.templateList
  vmas : s'.vmas = s.vmas
  nextVma : s'.nextVma = s.nextVma
  dataNext : s'.datas.next = s.datas.next
  dataLive : s'.datas.live = s.datas.live
  dataFrees : s'.datas.frees = s.datas.frees
  dataTemplate : ∀ d, (s'.datas.val d).template = (s.datas.val d).template
  dataMisuse : ∀ d, .data d ∈ s'.misuse ↔ .data d ∈ s.misuse

variable {s s' s'' : DriverState}

theorem PoolFrame.refl (s : DriverState) : PoolFrame s s :=
  ⟨rfl, rfl, rfl, rfl, rfl, rfl, rfl, fun _ => rfl, fun _ => Iff.rfl⟩

theorem PoolFrame.trans (h : PoolFrame s s') (h' : PoolFrame s' s'') : PoolFrame s s'' where
  templates := h'.templates.trans h.templates
  templateList := h'.templateList.trans h.templateList
  vmas := h'.vmas.trans h.vmas
  nextVma := h'.nextVma.trans h.nextVma
  dataNext := h'.dataNext.trans h.dataNext
  dataLive := h'.dataLive.trans h.dataLive
  dataFrees := h'.dataFrees.trans h.dataFrees
  dataTemplate d := (h'.dataTemplate d).trans (h.dataTemplate d)
  dataMisuse d := (h'.dataMisuse d).trans (h.dataMisuse d)

theorem touchData_datas (d : Nat) (s : DriverState) : (touchData d s).datas = s.datas := by
  rw [touchData]
  split <;> rfl

theorem touchData_templates (d : Nat) (s : DriverState) :
    (touchData d s).templates = s.templates := by
  rw [touchData]
  split <;> rfl

theorem touchData_templateList (d : Nat) (s : DriverState) :
    (touchData d s).templateList = s.templateList := by
  rw [touchData]
  split <;> rfl

theorem touchData_vmas (d : Nat) (s : DriverState) : (touchData d s).vmas = s.vmas := by
  rw [touchData]
  split <;> rfl

/-- Touching an entry notes a misuse at most. -/
theorem touchEntry_frame (e : Nat) (s : DriverState) : PoolFrame s (touchEntry e s) := by
  unfold touchEntry
  split
  · exact PoolFrame.refl s
  · refine ⟨rfl, rfl, rfl, rfl, rfl, rfl, rfl, fun _ => rfl, fun d => ?_⟩
    simp

variable (s)

theorem refEntry_frame (e : Nat) : PoolFrame s (refEntry s e) :=
  ⟨rfl, rfl, rfl, rfl, rfl, rfl, rfl, fun _ => rfl, fun _ => Iff.rfl⟩

theorem addPageRefs_frame (e : Nat) (n : Int) :
    PoolFrame s (addPageRefs s e n) :=
  ⟨rfl, rfl, rfl, rfl, rfl, rfl, rfl, fun _ => rfl, fun _ => Iff.rfl⟩

theorem linkEntry_frame (h : UInt64) (data : List UInt8) :
    PoolFrame s (linkEntry s h data) :=
  ⟨rfl, rfl, rfl, rfl, rfl, rfl, rfl, fun _ => rfl, fun _ => Iff.rfl⟩

/-- The unref after the check that the entry is live. -/
theorem snapshotPoolUnref_frame (e : Nat) : PoolFrame s (snapshotPoolUnref s e) := by
  refine (touchEntry_frame e s).trans ?_
  unfold snapshotPoolUnref
  dsimp only
  split <;>
    exact ⟨rfl, rfl, rfl, rfl, rfl, rfl, rfl, fun _ => rfl, fun _ => Iff.rfl⟩

/-- A release leaves the VMA data. -/
theorem snapshotPoolUnref_datas (e : Nat) : (snapshotPoolUnref s e).datas = s.datas := by
  have htouch : (touchEntry e s).datas = s.datas := by
    unfold touchEntry
    split <;> rfl
  unfold snapshotPoolUnref
  dsimp only
  split <;> exact htouch

theorem snapshotPoolUnref_nodes (e : Nat) :
    (snapshotPoolUnref s e).nodesAllocated = s.nodesAllocated
      ∧ (snapshotPoolUnref s e).nodesFreed = s.nodesFreed := by
  have htouch : (touchEntry e s).nodesAllocated = s.nodesAllocated
      ∧ (touchEntry e s).nodesFreed = s.nodesFreed := by
    rw [touchEntry]
    split <;> exact ⟨rfl, rfl⟩
  rw [snapshotPoolUnref]
  dsimp only
  split <;> exact htouch

/-- A release stays within the pool. -/
theorem releaseNode_frame (node : VaToPaEntry) : PoolFrame s (releaseNode s node) := by
  refine ((addPageRefs_frame s node.physEntry (-1)).trans
    (snapshotPoolUnref_frame _ node.physEntry)).trans ?_
  exact ⟨rfl, rfl, rfl, rfl, rfl, rfl, rfl, fun _ => rfl, fun _ => Iff.rfl⟩

theorem releaseNode_datas (node : VaToPaEntry) :
    (releaseNode s node).datas = s.datas :=
  snapshotPoolUnref_datas (addPageRefs s node.physEntry (-1)) node.physEntry

variable {s}

/-- The loop of `snapshot_vma_close`. -/
theorem releaseNodes_frame (nodes : List VaToPaEntry) (s : DriverState) :
    PoolFrame s (nodes.foldl releaseNode s) := by
  induction nodes generalizing s with
  | nil => exact PoolFrame.refl s
  | cons n ns ih => exact (releaseNode_frame s n).trans (ih (releaseNode s n))

/-- So do all releases of a close. -/
theorem releaseNodes_datas (nodes : List VaToPaEntry) (s : DriverState) :
    (nodes.foldl releaseNode s).datas = s.datas := by
  induction nodes generalizing s with
  | nil => rfl
  | cons n ns ih => exact (ih (releaseNode s n)).trans (releaseNode_datas s n)

/-- Tracking nodes come and go without the template of a VMA changing. -/
theorem template_modify (h : Heap VmaSnapshotData) (d d' : Nat)
    (m : List VaToPaEntry) :
    ((h.modify d (VmaSnapshotData.setMap m)).val d').template = (h.val d').template := by
  by_cases hd : d' = d
  · subst hd; rw [val_modify_self]; rfl
  · rw [val_modify_of_ne _ _ hd]

variable (s)

/-- A new translation leaves the templates. -/
theorem trackNode_frame (d off e : Nat) (kmallocNode : Bool) :
    PoolFrame s (trackNode s d off e kmallocNode) := by
  unfold trackNode
  split
  · dsimp only
    split
    · exact ⟨rfl, rfl, rfl, rfl, rfl, rfl, rfl,
        fun d' => template_modify s.datas d d' _, fun _ => Iff.rfl⟩
    · exact ⟨rfl, rfl, rfl, rfl, rfl, rfl, rfl, fun _ => rfl, fun _ => Iff.rfl⟩
  · exact PoolFrame.refl s

/-- Mapping a page leaves the templates. -/
theorem mapPage_frame (d off e : Nat) (env : FaultEnv) : PoolFrame s (mapPage s d off e env).2 := by
  have hget := (trackNode_frame s d off e env.kmallocNode).trans (addPageRefs_frame _ e 1)
  unfold mapPage
  dsimp only
  split
  · exact hget
  · exact hget.trans ((addPageRefs_frame _ e (-1)).trans (snapshotPoolUnref_frame _ e))

/-- **The outcomes of a load**: an entry of the pool, a new entry, an error. -/
theorem loadEntry_cases (f : SparseFile.File) (h : UInt64)
    (env : FaultEnv) :
    (∃ e, poolFind s h = some e ∧ loadEntry s f h env = (.ok e, refEntry s e))
      ∨ (∃ data, poolFind s h = none
          ∧ loadEntry s f h env = (.ok s.entries.next, linkEntry s h data))
      ∨ (∃ r, loadEntry s f h env = (.error r, s)) := by
  rw [loadEntry, snapshotPoolLookup]
  cases hfind : poolFind s h with
  | some e => exact .inl ⟨e, rfl, rfl⟩
  | none =>
    refine .inr ?_
    dsimp only
    split
    · exact .inr ⟨.oom, rfl⟩
    · split
      · rename_i data _
        rw [snapshotPoolAdd, hfind]
        dsimp only
        by_cases hk : env.kzallocEntry = false
        · rw [if_pos hk]; exact .inr ⟨.oom, rfl⟩
        · rw [if_neg hk]
          by_cases ha : env.allocPage = false
          · rw [if_pos ha]; exact .inr ⟨.oom, rfl⟩
          · rw [if_neg ha]; exact .inl ⟨data, rfl, rfl⟩
      · exact .inr ⟨.sigbus, rfl⟩

/-- So does loading it. -/
theorem loadEntry_frame (f : SparseFile.File) (h : UInt64)
    (env : FaultEnv) : PoolFrame s (loadEntry s f h env).2 := by
  rcases loadEntry_cases s f h env with ⟨e, -, hload⟩ | ⟨data, -, hload⟩ | ⟨r, hload⟩
  · rw [hload]; exact refEntry_frame s e
  · rw [hload]; exact linkEntry_frame s h data
  · rw [hload]; exact PoolFrame.refl s

/-- **The outcomes of a fault**: an error before `map_page`, or the entry of the
    hash at the index that the fault computes, handed to `map_page`. -/
theorem snapshotVmaFault_cases (x : Vma) (address : Nat)
    (env : FaultEnv) :
    (∃ r s', snapshotVmaFault s x address env = (r, s') ∧ (∀ e, r ≠ .mapped e)
        ∧ (s' = touchData x.vmPrivateData s
          ∨ s' = { touchData x.vmPrivateData s with oops := true }))
      ∨ (∃ pte e s₂, (s.templates.val (s.datas.val
            x.vmPrivateData).template).pageTableCache[(address - x.vmStart) / pageSize]? = some pte
          ∧ loadEntry (touchData x.vmPrivateData s)
            (s.templates.val (s.datas.val x.vmPrivateData).template).pagesFile
            pte.hashIdx env = (.ok e, s₂)
          ∧ snapshotVmaFault s x address env
            = mapPage s₂ x.vmPrivateData (address - x.vmStart) e env) := by
  rw [snapshotVmaFault, ← touchData_templates x.vmPrivateData s,
    ← touchData_datas x.vmPrivateData s]
  generalize touchData x.vmPrivateData s = s₁
  dsimp only
  split
  · exact .inl ⟨_, _, rfl, (fun _ he => by cases he), .inl rfl⟩
  · split
    · exact .inl ⟨_, _, rfl, (fun _ he => by cases he), .inl rfl⟩
    · rename_i pte hpte
      split
      · exact .inl ⟨_, _, rfl, (fun _ he => by cases he), .inr rfl⟩
      · rcases loadEntry_cases s₁ (s₁.templates.val
            (s₁.datas.val x.vmPrivateData).template).pagesFile pte.hashIdx env with
          ⟨e, -, hload⟩ | ⟨data, -, hload⟩ | ⟨r, hload⟩
        · rw [hload]
          exact .inr ⟨pte, e, _, hpte, hload, rfl⟩
        · rw [hload]
          exact .inr ⟨pte, _, _, hpte, hload, rfl⟩
        · rw [hload]
          refine .inl ⟨_, _, rfl, ?_, .inl rfl⟩
          cases r <;> exact fun _ he => by cases he

/-- **A fault stays inside the frame**, apart from the use of the VMA's data. -/
theorem snapshotVmaFault_frame (x : Vma) (address : Nat)
    (env : FaultEnv) :
    PoolFrame (touchData x.vmPrivateData s) (snapshotVmaFault s x address env).2 := by
  rcases snapshotVmaFault_cases s x address env with
    ⟨r, s', hfault, -, rfl | rfl⟩ | ⟨pte, e, s₂, -, hload, hfault⟩
  · rw [hfault]; exact PoolFrame.refl _
  · rw [hfault]
    exact ⟨rfl, rfl, rfl, rfl, rfl, rfl, rfl, fun _ => rfl, fun _ => Iff.rfl⟩
  · rw [hfault]
    have hframe := loadEntry_frame (touchData x.vmPrivateData s)
      (s.templates.val (s.datas.val x.vmPrivateData).template).pagesFile pte.hashIdx env
    rw [hload] at hframe
    exact hframe.trans (mapPage_frame s₂ _ _ e env)

variable {s}

variable {d t : Nat} {op : DriverOp}

/-- Live data can be touched freely. -/
theorem touchData_of_live (h : s.datas.live d = true) : touchData d s = s := by
  unfold touchData
  rw [if_pos h]

/-! ## What each call does -/

/-- The calls with their results, one constructor for each. -/
inductive DriverMove (s : DriverState) : DriverOp → OpResult → DriverState → Prop where
  | ioctl (cmd : IoctlCmd) (copyFromUser copyToUser : Bool) :
      DriverMove s (.ioctl cmd copyFromUser copyToUser)
        (snapshotIoctl s cmd copyFromUser copyToUser).1
        (snapshotIoctl s cmd copyFromUser copyToUser).2
  | mmap (call : MmapCall) (kzalloc : Bool) (hcall : call.vmStart < call.vmEnd) :
      DriverMove s (.mmap call kzalloc) (.ret (snapshotMmap s call kzalloc).1)
        (snapshotMmap s call kzalloc).2
  | fork (v : Nat) (x : Vma) (hx : findVma s v = some x) :
      DriverMove s (.fork v) .done (snapshotVmaOpen (forkVma s x) x.vmPrivateData)
  | split (v address : Nat) (x : Vma) (hx : findVma s v = some x)
      (hin : x.vmStart < address ∧ address < x.vmEnd)
      (halign : (address - x.vmStart) % pageSize = 0) :
      DriverMove s (.split v address) .done (snapshotVmaOpen (splitVma s x address) x.vmPrivateData)
  | close (v : Nat) (x : Vma) (hx : findVma s v = some x) :
      DriverMove s (.close v) .done (snapshotVmaClose (dropVma s v) x.vmPrivateData)
  | fault (v address : Nat) (env : FaultEnv) (x : Vma) (hx : findVma s v = some x)
      (hin : x.vmStart ≤ address ∧ address < x.vmEnd) :
      DriverMove s (.fault v address env) (.fault (snapshotVmaFault s x address env).1)
        (snapshotVmaFault s x address env).2

/-- **Inversion of a call**; no proof below takes `driverStep` apart again. -/
theorem driverMove_of_step {r : OpResult} (h : driverStep s op = some (r, s')) :
    DriverMove s op r s' := by
  cases op with
  | ioctl cmd copyFromUser copyToUser =>
    have hr : snapshotIoctl s cmd copyFromUser copyToUser = (r, s') := some.inj h
    have hm := DriverMove.ioctl (s := s) cmd copyFromUser copyToUser
    rw [hr] at hm
    exact hm
  | mmap call kzalloc =>
    rw [driverStep] at h
    split at h
    · rename_i hcall
      cases some.inj h
      exact DriverMove.mmap call kzalloc hcall
    · cases h
  | fork v =>
    obtain ⟨x, hx, hr⟩ := map_eq_some_iff.mp h
    cases hr
    exact DriverMove.fork v x hx
  | split v address =>
    obtain ⟨x, hx, hr⟩ := bind_eq_some_iff.mp h
    split at hr
    · rename_i hin
      cases some.inj hr
      exact DriverMove.split v address x hx ⟨hin.1, hin.2.1⟩ hin.2.2
    · cases hr
  | close v =>
    obtain ⟨x, hx, hr⟩ := map_eq_some_iff.mp h
    cases hr
    exact DriverMove.close v x hx
  | fault v address env =>
    obtain ⟨x, hx, hr⟩ := bind_eq_some_iff.mp h
    split at hr
    · rename_i hin
      cases some.inj hr
      exact DriverMove.fault v address env x hx hin
    · cases hr

/-- Each call of the driver is a move. -/
theorem driverMove_of_driver (h : driver s op = some s') :
    ∃ r, driverStep s op = some (r, s') ∧ DriverMove s op r s' := by
  obtain ⟨⟨r, s₁⟩, hstep, hs₁⟩ := map_eq_some_iff.mp h
  cases hs₁
  exact ⟨r, hstep, driverMove_of_step hstep⟩

/-- The listed template that an `mmap` call names. -/
def mmapTarget (s : DriverState) (call : MmapCall) : Option Nat :=
  if strncmpEq 9 call.devName devicePrefix then
    findTemplate s (mmapTemplateId call.devName)
  else none

/-- The size check of `snapshot_mmap`. -/
def SizeOk (s : DriverState) (call : MmapCall) (t : Nat) : Prop :=
  (call.vmEnd - call.vmStart) % pageSize = 0
    ∧ call.vmEnd - call.vmStart ≤ (s.templates.val t).totalSize

variable (s)

@[simp] theorem addTemplateRef_self (t : Nat) (n : Atomic) :
    (addTemplateRef s t n).templates.val t
      = (s.templates.val t).addRef n :=
  val_modify_self s.templates t _

theorem addTemplateRef_of_ne {u : Nat} (n : Atomic) (h : u ≠ t) :
    (addTemplateRef s t n).templates.val u = s.templates.val u :=
  val_modify_of_ne s.templates _ h

theorem totalSize_addTemplateRef (t u : Nat) (n : Atomic) :
    ((addTemplateRef s t n).templates.val u).totalSize = (s.templates.val u).totalSize := by
  by_cases hu : u = t
  · rw [hu, addTemplateRef_self]; rfl
  · rw [addTemplateRef_of_ne s n hu]

/-- **The three outcomes of `mmap`**: nothing found, an error after the template
    was found, a new VMA. -/
theorem snapshotMmap_cases (call : MmapCall) (kzalloc : Bool) :
    (mmapTarget s call = none ∧ snapshotMmap s call kzalloc = (-eInval, s))
      ∨ (∃ t r, mmapTarget s call = some t ∧ (¬ SizeOk s call t ∨ kzalloc = false)
          ∧ r ≠ 0 ∧ snapshotMmap s call kzalloc
            = (r, snapshotTemplateUnref (addTemplateRef s t 1) t))
      ∨ (∃ t, mmapTarget s call = some t ∧ SizeOk s call t ∧ kzalloc = true
          ∧ snapshotMmap s call kzalloc
            = (0, addTemplateRef (addVma (addTemplateRef s t 1) call t) t 1)) := by
  unfold snapshotMmap mmapTarget snapshotTemplateFindRef
  cases hname : strncmpEq 9 call.devName devicePrefix with
  | false => exact .inl ⟨rfl, rfl⟩
  | true =>
    cases hfind : findTemplate s (mmapTemplateId call.devName) with
    | none => exact .inl ⟨rfl, rfl⟩
    | some t =>
      refine .inr ?_
      simp only [totalSize_addTemplateRef, Bool.true_eq_false, if_false, if_true]
      by_cases hsize : SizeOk s call t
      · have hno : ¬ ((call.vmEnd - call.vmStart) % pageSize ≠ 0
            ∨ call.vmEnd - call.vmStart > (s.templates.val t).totalSize) := by
          rintro (h | h)
          · exact h hsize.1
          · exact Nat.not_lt.mpr hsize.2 h
        rw [if_neg hno]
        cases kzalloc with
        | false => exact .inl ⟨t, -eNomem, rfl, .inr rfl, by decide, rfl⟩
        | true => exact .inr ⟨t, rfl, hsize, rfl, rfl⟩
      · have hyes : (call.vmEnd - call.vmStart) % pageSize ≠ 0
            ∨ call.vmEnd - call.vmStart > (s.templates.val t).totalSize := by
          by_contra hno
          push Not at hno
          exact hsize hno
        rw [if_pos hyes]
        exact .inl ⟨t, -eInval, rfl, .inl hsize, by decide, rfl⟩

variable {s}

/-- The state after a create that succeeded. -/
def created (s : DriverState) (x : Template) : DriverState :=
  { s with
    templates := s.templates.alloc x
    templateList := s.templateList ++ [s.templates.next] }

variable (s)

/-- **The outcomes of a create**: an error that leaves no template behind, or a
    new template at the end of the list. -/
theorem snapshotTemplateCreate_cases (args : IoctlCreateTemplate)
    (env : CreateEnv) :
    (∃ r, r ≠ 0 ∧ (snapshotTemplateCreate s args env = (r, s)
        ∨ snapshotTemplateCreate s args env = (r, discardTemplate s)))
      ∨ (∃ pages buf, findTemplate s args.templateId = none
          ∧ snapshotTemplateCreate s args env
            = (0, created s (newTemplate args env pages buf))) := by
  unfold snapshotTemplateCreate
  cases hfind : findTemplate s args.templateId with
  | some t => exact .inl ⟨-eExist, by decide, .inl rfl⟩
  | none =>
    rw [if_neg (by simp)]
    cases env.filpOpen (cstr args.pageTablePath) with
    | none => exact .inl ⟨-eInval, by decide, .inl rfl⟩
    | some pageTableFile =>
      cases env.filpOpen (cstr args.pagesPath) with
      | none => exact .inl ⟨-eInval, by decide, .inl rfl⟩
      | some pagesFile =>
        dsimp only
        split
        · exact .inl ⟨-eNomem, by decide, .inl rfl⟩
        · split
          · exact .inl ⟨-eIo, by decide, .inr rfl⟩
          · split
            · exact .inl ⟨-eNomem, by decide, .inr rfl⟩
            · split
              · rename_i hmisc
                exact .inl ⟨env.miscRegister, hmisc, .inr rfl⟩
              · exact .inr ⟨_, _, rfl, rfl⟩

/-- What the pool functions of a delete can change. -/
theorem clearPool_frame (kvmalloc : Bool) :
    PoolFrame s (clearPool s kvmalloc) ∧ (clearPool s kvmalloc).datas = s.datas := by
  unfold clearPool snapshotPoolInit snapshotPoolDestroy
  split
  · split <;> split <;>
      exact ⟨⟨rfl, rfl, rfl, rfl, rfl, rfl, rfl, fun _ => rfl, fun _ => Iff.rfl⟩, rfl⟩
  · exact ⟨PoolFrame.refl s, rfl⟩

/-- **The outcomes of a delete.** -/
theorem snapshotTemplateDelete_cases (id : List UInt8)
    (kvmalloc : Bool) :
    (findTemplate s id = none
        ∧ snapshotTemplateDelete s id kvmalloc = (-eNoent, s))
      ∨ (∃ t, findTemplate s id = some t ∧ (s.templates.val t).refCount.toInt > 0
          ∧ snapshotTemplateDelete s id kvmalloc = (-eBusy, s))
      ∨ (∃ t, findTemplate s id = some t ∧ ¬ (s.templates.val t).refCount.toInt > 0
          ∧ snapshotTemplateDelete s id kvmalloc
            = (0, clearPool (removeTemplate s t) kvmalloc)) := by
  unfold snapshotTemplateDelete
  cases findTemplate s id with
  | none => exact .inl ⟨rfl, rfl⟩
  | some t =>
    refine .inr ?_
    by_cases hbusy : (s.templates.val t).refCount.toInt > 0
    · exact .inl ⟨t, rfl, hbusy, if_pos hbusy⟩
    · exact .inr ⟨t, rfl, hbusy, if_neg hbusy⟩

/-- A status request only reads. -/
theorem snapshotIoctl_status (id : List UInt8)
    (copyFromUser copyToUser : Bool) :
    (snapshotIoctl s (.status id) copyFromUser copyToUser).2 = s := by
  rw [snapshotIoctl]
  dsimp only
  repeat' split
  all_goals rfl

variable {s}

/-! ## Templates come and go without the mappings changing -/

/-- `s'` differs from `s` in the templates and their list only. -/
structure TemplateFrame (s s' : DriverState) : Prop where
  pool : s'.pool = s.pool
  entries : s'.entries = s.entries
  datas : s'.datas = s.datas
  vmas : s'.vmas = s.vmas
  nextVma : s'.nextVma = s.nextVma
  nodesAllocated : s'.nodesAllocated = s.nodesAllocated
  nodesFreed : s'.nodesFreed = s.nodesFreed
  misuse : s'.misuse = s.misuse

variable (s)

theorem TemplateFrame.refl : TemplateFrame s s := ⟨rfl, rfl, rfl, rfl, rfl, rfl, rfl, rfl⟩

theorem addTemplateRef_frame (t : Nat) (n : Atomic) :
    TemplateFrame s (addTemplateRef s t n) :=
  ⟨rfl, rfl, rfl, rfl, rfl, rfl, rfl, rfl⟩

/-- An unref touches templates only. -/
theorem snapshotTemplateUnref_frame (t : Nat) : TemplateFrame s (snapshotTemplateUnref s t) := by
  rw [snapshotTemplateUnref]
  split <;> exact ⟨rfl, rfl, rfl, rfl, rfl, rfl, rfl, rfl⟩

/-- So does a create. -/
theorem snapshotTemplateCreate_frame (args : IoctlCreateTemplate)
    (env : CreateEnv) : TemplateFrame s (snapshotTemplateCreate s args env).2 := by
  rcases snapshotTemplateCreate_cases s args env with ⟨r, -, h | h⟩ | ⟨_, _, -, h⟩ <;>
    rw [h] <;> exact ⟨rfl, rfl, rfl, rfl, rfl, rfl, rfl, rfl⟩

variable {s}

/-- `s'` has the VMAs of `s` with the same data. -/
structure MappingFrame (s s' : DriverState) : Prop where
  vmas : s'.vmas = s.vmas
  nextVma : s'.nextVma = s.nextVma
  datas : s'.datas = s.datas
  dataMisuse : ∀ d, .data d ∈ s'.misuse ↔ .data d ∈ s.misuse

theorem TemplateFrame.mappings (h : TemplateFrame s s') : MappingFrame s s' :=
  ⟨h.vmas, h.nextVma, h.datas, fun _ => by rw [h.misuse]⟩

/-- A delete leaves the mappings. -/
theorem snapshotTemplateDelete_frame (s : DriverState) (id : List UInt8)
    (kvmalloc : Bool) : MappingFrame s (snapshotTemplateDelete s id kvmalloc).2 := by
  rcases snapshotTemplateDelete_cases s id kvmalloc with
    ⟨-, h⟩ | ⟨t, -, -, h⟩ | ⟨t, -, -, h⟩
  · rw [h]; exact (TemplateFrame.refl s).mappings
  · rw [h]; exact (TemplateFrame.refl s).mappings
  · rw [h]
    obtain ⟨hframe, hdatas⟩ := clearPool_frame (removeTemplate s t) kvmalloc
    exact ⟨hframe.vmas, hframe.nextVma, hdatas, hframe.dataMisuse⟩

/-- So does every `ioctl`. -/
theorem snapshotIoctl_frame (s : DriverState) (cmd : IoctlCmd)
    (copyFromUser copyToUser : Bool) :
    MappingFrame s (snapshotIoctl s cmd copyFromUser copyToUser).2 := by
  cases cmd with
  | create args env =>
    cases copyFromUser with
    | false => exact (TemplateFrame.refl s).mappings
    | true => exact (snapshotTemplateCreate_frame s args env).mappings
  | delete id kvmalloc =>
    cases copyFromUser with
    | false => exact (TemplateFrame.refl s).mappings
    | true => exact snapshotTemplateDelete_frame s id kvmalloc
  | status id =>
    rw [snapshotIoctl_status]
    exact (TemplateFrame.refl s).mappings
  | other => exact (TemplateFrame.refl s).mappings

/-- An `mmap` leaves the other mappings alone; with success it adds one. -/
theorem snapshotMmap_frame (s : DriverState) (call : MmapCall) (kzalloc : Bool) :
    TemplateFrame s (snapshotMmap s call kzalloc).2
      ∨ ∃ t, TemplateFrame (addVma s call t) (snapshotMmap s call kzalloc).2 := by
  rcases snapshotMmap_cases s call kzalloc with
    ⟨-, h⟩ | ⟨t, r, -, -, -, h⟩ | ⟨t, -, -, -, h⟩
  · rw [h]; exact .inl (TemplateFrame.refl s)
  · rw [h]
    have hun := snapshotTemplateUnref_frame (addTemplateRef s t 1) t
    exact .inl ⟨hun.pool, hun.entries, hun.datas, hun.vmas, hun.nextVma,
      hun.nodesAllocated, hun.nodesFreed, hun.misuse⟩
  · rw [h]
    exact .inr ⟨t, rfl, rfl, rfl, rfl, rfl, rfl, rfl, rfl⟩

/-- **What a close does to the data**, on a live `vma_snapshot_data`. -/
theorem snapshotVmaClose_datas (hlive : s.datas.live d = true) :
    (snapshotVmaClose s d).datas = (s.datas.modify d (VmaSnapshotData.setMap [])).free d := by
  rw [snapshotVmaClose, touchData_of_live hlive, (snapshotTemplateUnref_frame _ _).datas,
    freeData, releaseNodes_datas]

/-- What a close leaves alone. -/
theorem snapshotVmaClose_frame (hlive : s.datas.live d = true) :
    (snapshotVmaClose s d).vmas = s.vmas ∧ (snapshotVmaClose s d).nextVma = s.nextVma
      ∧ ∀ d', .data d' ∈ (snapshotVmaClose s d).misuse ↔ .data d' ∈ s.misuse := by
  rw [snapshotVmaClose, touchData_of_live hlive]
  have hnodes := releaseNodes_frame (s.datas.val d).vaToPaMap s
  have hunref := snapshotTemplateUnref_frame
    (freeData ((s.datas.val d).vaToPaMap.foldl releaseNode s) d)
    (s.datas.val d).template
  refine ⟨hunref.vmas.trans hnodes.vmas, hunref.nextVma.trans hnodes.nextVma, fun d' => ?_⟩
  rw [hunref.misuse]
  exact hnodes.dataMisuse d'

/-- The mapping found is one of the list. -/
theorem mem_of_findVma {v : Nat} {x : Vma} (h : findVma s v = some x) :
    x ∈ s.vmas ∧ x.vmId = v := by
  have hid := List.find?_some h
  exact ⟨List.mem_of_find?_eq_some h, eq_of_beq hid⟩

/-- The template found is in the list. -/
theorem mem_of_findTemplate {id : List UInt8} (h : findTemplate s id = some t) :
    t ∈ s.templateList :=
  List.mem_of_find?_eq_some h

/-- So is the one that `mmap` finds. -/
theorem mem_of_mmapTarget {call : MmapCall} (h : mmapTarget s call = some t) :
    t ∈ s.templateList := by
  unfold mmapTarget at h
  split at h
  · exact mem_of_findTemplate h
  · cases h

/-! ## The list only shrinks, but for a create -/

/-- `s'` lists templates of `s` only, and what is allocated in `s` keeps its names. -/
structure NamesKept (s s' : DriverState) : Prop where
  listed : ∀ t ∈ s'.templateList, t ∈ s.templateList
  next : s.templates.next ≤ s'.templates.next
  templateId : ∀ t < s.templates.next,
    (s'.templates.val t).templateId = (s.templates.val t).templateId
  mdevName : ∀ t < s.templates.next, (s'.templates.val t).mdevName = (s.templates.val t).mdevName

theorem NamesKept.of_eq (htemplates : s'.templates = s.templates)
    (hlist : s'.templateList = s.templateList) : NamesKept s s' where
  listed := fun t ht => hlist ▸ ht
  next := by rw [htemplates]
  templateId := fun t _ => by rw [htemplates]
  mdevName := fun t _ => by rw [htemplates]

theorem NamesKept.trans (h : NamesKept s s') (h' : NamesKept s' s'') : NamesKept s s'' where
  listed := fun t ht => h.listed t (h'.listed t ht)
  next := h.next.trans h'.next
  templateId := fun t ht =>
    (h'.templateId t (Nat.lt_of_lt_of_le ht h.next)).trans (h.templateId t ht)
  mdevName := fun t ht =>
    (h'.mdevName t (Nat.lt_of_lt_of_le ht h.next)).trans (h.mdevName t ht)

theorem PoolFrame.namesKept (h : PoolFrame s s') : NamesKept s s' :=
  NamesKept.of_eq h.templates h.templateList

theorem namesKept_touchData (d : Nat) (s : DriverState) : NamesKept s (touchData d s) :=
  NamesKept.of_eq (touchData_templates d s) (touchData_templateList d s)

variable (s)

theorem namesKept_addTemplateRef (t : Nat) (n : Atomic) : NamesKept s (addTemplateRef s t n) := by
  have hval : ∀ u, ((addTemplateRef s t n).templates.val u).templateId
        = (s.templates.val u).templateId
      ∧ ((addTemplateRef s t n).templates.val u).mdevName = (s.templates.val u).mdevName := by
    intro u
    by_cases hu : u = t
    · rw [hu, addTemplateRef, val_modify_self]
      exact ⟨rfl, rfl⟩
    · rw [addTemplateRef_of_ne s n hu]
      exact ⟨rfl, rfl⟩
  exact ⟨fun _ hu => hu, Nat.le_refl _, fun u _ => (hval u).1, fun u _ => (hval u).2⟩

theorem namesKept_removeTemplate (t : Nat) :
    NamesKept s (removeTemplate s t) :=
  ⟨fun _ hu => List.mem_of_mem_erase hu, Nat.le_refl _, fun _ _ => rfl, fun _ _ => rfl⟩

/-- An unref renames no template. -/
theorem namesKept_templateUnref (t : Nat) : NamesKept s (snapshotTemplateUnref s t) := by
  rw [snapshotTemplateUnref]
  split
  · exact (namesKept_addTemplateRef s t (-1)).trans (namesKept_removeTemplate _ t)
  · exact namesKept_addTemplateRef s t (-1)

theorem namesKept_discardTemplate : NamesKept s (discardTemplate s) where
  listed := fun _ ht => ht
  next := Nat.le_succ _
  templateId := fun _ ht =>
    congrArg _ (val_alloc_of_ne s.templates default (Nat.ne_of_lt ht))
  mdevName := fun _ ht =>
    congrArg _ (val_alloc_of_ne s.templates default (Nat.ne_of_lt ht))

/-- A delete renames no template. -/
theorem namesKept_delete (id : List UInt8) (kvmalloc : Bool) :
    NamesKept s (snapshotTemplateDelete s id kvmalloc).2 := by
  rcases snapshotTemplateDelete_cases s id kvmalloc with
    ⟨-, h⟩ | ⟨t, -, -, h⟩ | ⟨t, -, -, h⟩
  · rw [h]; exact NamesKept.of_eq rfl rfl
  · rw [h]; exact NamesKept.of_eq rfl rfl
  · rw [h]
    exact (namesKept_removeTemplate s t).trans (clearPool_frame _ kvmalloc).1.namesKept

/-- An `mmap` renames no template. -/
theorem namesKept_mmap (call : MmapCall) (kzalloc : Bool) :
    NamesKept s (snapshotMmap s call kzalloc).2 := by
  rcases snapshotMmap_cases s call kzalloc with
    ⟨-, h⟩ | ⟨t, r, -, -, -, h⟩ | ⟨t, -, -, -, h⟩
  · rw [h]; exact NamesKept.of_eq rfl rfl
  · rw [h]
    exact (namesKept_addTemplateRef s t 1).trans (namesKept_templateUnref _ t)
  · rw [h]
    have hvma : NamesKept (addTemplateRef s t 1) (addVma (addTemplateRef s t 1) call t) :=
      NamesKept.of_eq rfl rfl
    exact (namesKept_addTemplateRef s t 1).trans (hvma.trans (namesKept_addTemplateRef _ t 1))

/-- An open renames no template. -/
theorem namesKept_open (d : Nat) : NamesKept s (snapshotVmaOpen s d) :=
  (namesKept_touchData d s).trans (namesKept_addTemplateRef _ _ 1)

/-- A close renames no template. -/
theorem namesKept_close (d : Nat) : NamesKept s (snapshotVmaClose s d) := by
  have hnodes := releaseNodes_frame ((touchData d s).datas.val d).vaToPaMap (touchData d s)
  have hfree : NamesKept (touchData d s) (freeData (((touchData d s).datas.val d).vaToPaMap.foldl
      releaseNode (touchData d s)) d) :=
    NamesKept.of_eq hnodes.templates hnodes.templateList
  exact (namesKept_touchData d s).trans (hfree.trans (namesKept_templateUnref _ _))

variable {s}

/-- **ONE CALL** keeps the names, or it is a create and adds a template. -/
theorem namesKept_or_created (h : driver s op = some s') :
    NamesKept s s' ∨ ∃ args env out pages buf, op = .ioctl (.create args env) true out
      ∧ findTemplate s args.templateId = none
      ∧ s' = created s (newTemplate args env pages buf) := by
  obtain ⟨r, -, hmove⟩ := driverMove_of_driver h
  cases hmove with
  | ioctl cmd copyFromUser copyToUser =>
    cases cmd with
    | create args env =>
      cases copyFromUser with
      | false => exact .inl (NamesKept.of_eq rfl rfl)
      | true =>
        show NamesKept s (snapshotTemplateCreate s args env).2 ∨ _
        rcases snapshotTemplateCreate_cases s args env with
          ⟨r', -, hc | hc⟩ | ⟨pages, buf, hfind, hc⟩
        · rw [hc]; exact .inl (NamesKept.of_eq rfl rfl)
        · rw [hc]; exact .inl (namesKept_discardTemplate s)
        · refine .inr ⟨args, env, copyToUser, pages, buf, rfl, hfind, ?_⟩
          rw [snapshotIoctl, hc]
          rfl
    | delete id kvmalloc =>
      cases copyFromUser with
      | false => exact .inl (NamesKept.of_eq rfl rfl)
      | true => exact .inl (namesKept_delete s id kvmalloc)
    | status id =>
      rw [snapshotIoctl_status]
      exact .inl (NamesKept.of_eq rfl rfl)
    | other => exact .inl (NamesKept.of_eq rfl rfl)
  | mmap call kzalloc => exact .inl (namesKept_mmap s call kzalloc)
  | fork v x =>
    have hsame : NamesKept s (forkVma s x) := NamesKept.of_eq rfl rfl
    exact .inl (hsame.trans (namesKept_open _ _))
  | split v address x =>
    have hsame : NamesKept s (splitVma s x address) := NamesKept.of_eq rfl rfl
    exact .inl (hsame.trans (namesKept_open _ _))
  | close v x =>
    have hsame : NamesKept s (dropVma s v) := NamesKept.of_eq rfl rfl
    exact .inl (hsame.trans (namesKept_close _ _))
  | fault v address env x =>
    exact .inl ((namesKept_touchData _ s).trans (snapshotVmaFault_frame s x address env).namesKept)

end DriverFrame
