import DemoStore.DriverFrameProofs

/-! # Template life cycle — the list, the counts and what a failed call leaves

    A template is listed by a create and unlisted by a delete, and its
    `ref_count` is meant to be the number of VMAs that map it.  `snapshot_mmap`
    takes two references (`find_ref` and the increment for the VMA) where a
    close drops one, and the undo of a failed `mmap` goes through
    `snapshot_template_unref`, which frees a template whose count it brings to
    zero.  Both defects need a call that reaches a listed template, and the two
    results of this file say that nothing else goes wrong. -/

namespace TemplateLifeCycle

open ObjectHeap SnapshotDriver DriverFrame MachineRun PageStore List

variable {s s' : DriverState} {t : Nat}

/-! ## The undo of a failed `mmap` -/

theorem addRef_cancel (x : Template) : (x.addRef 1).addRef (-1) = x := by
  have h : x.refCount + 1 + -1 = x.refCount := by
    rw [BitVec.add_assoc]
    exact BitVec.add_zero x.refCount
  rw [Template.addRef, Template.addRef, h]

/-- Taking a reference and dropping it again is nothing. -/
theorem addTemplateRef_cancel (s : DriverState) (t : Nat) :
    addTemplateRef (addTemplateRef s t 1) t (-1) = s := by
  have h : (s.templates.modify t (Template.addRef 1)).modify t (Template.addRef (-1))
      = s.templates := by
    rw [modify_modify]
    exact modify_of_eq _ _ (addRef_cancel (s.templates.val t))
  rw [addTemplateRef, addTemplateRef]
  dsimp only
  rw [h]

/-- **What a failed `mmap` does to the template it found**: a template without
    references is removed, any other is as before. -/
theorem unref_addRef (s : DriverState) (t : Nat) :
    snapshotTemplateUnref (addTemplateRef s t 1) t
      = if (s.templates.val t).refCount = 0 then removeTemplate s t else s := by
  rw [snapshotTemplateUnref, addTemplateRef_cancel]

/-! ## Failed requests -/

/-- Listed templates, their contents and the pool are as before. -/
structure Unchanged (s s' : DriverState) : Prop where
  templateList : s'.templateList = s.templateList
  contents : ∀ t ∈ s.templateList, s'.templates.val t = s.templates.val t
  pool : s'.pool = s.pool
  entries : s'.entries = s.entries

theorem Unchanged.refl (s : DriverState) : Unchanged s s := ⟨rfl, fun _ _ => rfl, rfl, rfl⟩

/-- The pointers in the list are allocated. -/
def ListBelow (s : DriverState) : Prop :=
  ∀ t ∈ s.templateList, t < s.templates.next

theorem unchanged_discard (hs : ListBelow s) : Unchanged s (discardTemplate s) := by
  refine ⟨rfl, fun t ht => ?_, rfl, rfl⟩
  have hne : t ≠ s.templates.next := Nat.ne_of_lt (hs t ht)
  exact val_alloc_of_ne s.templates default hne

theorem listBelow_of_names (h : NamesKept s s') (hs : ListBelow s) : ListBelow s' :=
  fun t ht => Nat.lt_of_lt_of_le (hs t (h.listed t ht)) h.next

theorem listBelow_created (hs : ListBelow s) (x : Template) : ListBelow (created s x) := by
  intro t ht
  rcases mem_append.mp ht with ht | ht
  · exact Nat.lt_succ_of_lt (hs t ht)
  · rw [mem_singleton.mp ht]
    exact Nat.lt_succ_self _

/-- Listed templates are allocated, after every call. -/
theorem listBelow_step (s : DriverState) (op : DriverOp) (s' : DriverState)
    (hs : ListBelow s) (h : driver s op = some s') : ListBelow s' := by
  rcases namesKept_or_created h with hkept | ⟨_, _, _, _, _, -, -, rfl⟩
  · exact listBelow_of_names hkept hs
  · exact listBelow_created hs _

theorem listBelow_of_reachable (hs : Reachable driver initState s) : ListBelow s :=
  inv_of_reachable hs (fun _ ht => by cases ht) listBelow_step

/-- An `mmap` that reaches a listed template nobody references. -/
def MmapsIdle (s : DriverState) (op : DriverOp) : Prop :=
  ∃ call kzalloc t, op = .mmap call kzalloc ∧ mmapTarget s call = some t
    ∧ (s.templates.val t).refCount = 0

/-- A removal is a change. -/
theorem not_unchanged_remove (ht : t ∈ s.templateList) : ¬ Unchanged s (removeTemplate s t) := by
  intro h
  have hlen := congrArg List.length h.templateList
  rw [removeTemplate, length_erase_of_mem ht] at hlen
  have hpos := length_pos_of_mem ht
  omega

/-- An ioctl that fails changes nothing. -/
theorem unchanged_ioctl {cmd : IoctlCmd} {copyFromUser copyToUser : Bool} {r : Int}
    (hs : ListBelow s)
    (h : (snapshotIoctl s cmd copyFromUser copyToUser).1 = .ret r) (hr : r ≠ 0) :
    Unchanged s (snapshotIoctl s cmd copyFromUser copyToUser).2 := by
  cases cmd with
  | create args env =>
    cases copyFromUser with
    | false => exact Unchanged.refl s
    | true =>
      show Unchanged s (snapshotTemplateCreate s args env).2
      rcases snapshotTemplateCreate_cases s args env with
        ⟨r', -, hc | hc⟩ | ⟨_, _, -, hc⟩
      · rw [hc]; exact Unchanged.refl s
      · rw [hc]; exact unchanged_discard hs
      · rw [snapshotIoctl, hc] at h
        cases h
        exact absurd rfl hr
  | delete id kvmalloc =>
    cases copyFromUser with
    | false => exact Unchanged.refl s
    | true =>
      show Unchanged s (snapshotTemplateDelete s id kvmalloc).2
      rcases snapshotTemplateDelete_cases s id kvmalloc with
        ⟨-, hc⟩ | ⟨t, -, -, hc⟩ | ⟨t, -, -, hc⟩
      · rw [hc]; exact Unchanged.refl s
      · rw [hc]; exact Unchanged.refl s
      · rw [snapshotIoctl, hc] at h
        cases h
        exact absurd rfl hr
  | status id =>
    rw [snapshotIoctl_status]
    exact Unchanged.refl s
  | other => exact Unchanged.refl s

/-- An `mmap` that fails changes nothing unless it found a template without
    references. -/
theorem unchanged_mmap_iff {call : MmapCall} {kzalloc : Bool}
    (hr : (snapshotMmap s call kzalloc).1 ≠ 0) :
    Unchanged s (snapshotMmap s call kzalloc).2 ↔ ¬ MmapsIdle s (.mmap call kzalloc) := by
  rcases snapshotMmap_cases s call kzalloc with
    ⟨hnone, hc⟩ | ⟨t, r, htarget, -, -, hc⟩ | ⟨t, -, -, -, hc⟩
  · rw [hc]
    refine ⟨?_, fun _ => Unchanged.refl s⟩
    rintro - ⟨call', kzalloc', t, hop, htarget, -⟩
    cases hop
    rw [hnone] at htarget
    cases htarget
  · rw [hc, unref_addRef]
    by_cases hzero : (s.templates.val t).refCount = 0
    · -- up and down again ends at zero, and zero removes
      rw [if_pos hzero]
      constructor
      · exact fun hun => absurd hun (not_unchanged_remove (mem_of_mmapTarget htarget))
      · exact fun hno => absurd ⟨call, kzalloc, t, rfl, htarget, hzero⟩ hno
    · rw [if_neg hzero]
      refine ⟨?_, fun _ => Unchanged.refl s⟩
      rintro - ⟨call', kzalloc', t', hop, htarget', hzero'⟩
      cases hop
      cases Option.some.inj (htarget.symm.trans htarget')
      exact hzero hzero'
  · rw [hc] at hr
    exact absurd rfl hr

/-- **FAILED REQUESTS.**  In every reachable state a request that returns an
    error leaves the list, the listed templates and the pool alone exactly when
    it is not an `mmap` that found a template without references. -/
theorem failed_request_unchanged_iff (op : DriverOp) {r : Int}
    (hs : Reachable driver initState s)
    (h : driverStep s op = some (.ret r, s')) (hr : r ≠ 0) :
    Unchanged s s' ↔ ¬ MmapsIdle s op := by
  have hbelow := listBelow_of_reachable hs
  have hmove := driverMove_of_step h
  generalize hres : OpResult.ret r = res at hmove
  cases hmove with
  | ioctl cmd copyFromUser copyToUser =>
    refine ⟨?_, fun _ => unchanged_ioctl hbelow hres.symm hr⟩
    rintro - ⟨call, kzalloc, t, hop, -⟩
    cases hop
  | mmap call kzalloc hcall =>
    cases hres
    exact unchanged_mmap_iff hr
  | fork | split | close | fault => cases hres

/-- A second create with the same id is such a request. -/
theorem failed_create_unchanged :
    ∃ s s', exec driver initState [sampleCreate, sampleMmap 1 0] = some s
      ∧ driverStep s sampleCreate = some (.ret (-eExist), s') ∧ Unchanged s s' := by
  refine ⟨_, _, rfl, rfl, ?_⟩
  refine (failed_request_unchanged_iff sampleCreate (r := -eExist)
    ⟨[sampleCreate, sampleMmap 1 0], rfl⟩ rfl (by decide)).mpr ?_
  rintro ⟨call, kzalloc, t, hop, -⟩
  cases hop

/-- An `mmap` of three pages of a template of two removes the template. -/
theorem failed_mmap_removes_template :
    ∃ s s', exec driver initState [sampleCreate] = some s
      ∧ driverStep s (sampleMmap 3 0) = some (.ret (-eInval), s')
      ∧ s.templateList = [0] ∧ s'.templateList = [] ∧ ¬ Unchanged s s' := by
  refine ⟨_, _, rfl, rfl, rfl, rfl, ?_⟩
  intro h
  cases h.templateList

/-! ## The count and the list -/

/-- The live VMAs that map a template. -/
def mapCount (s : DriverState) (t : Nat) : Nat :=
  s.vmas.countP fun x => (s.datas.val x.vmPrivateData).template == t

/-- What one call does to the life of the templates, as the life cycle tables
    have it. -/
structure LifeCycle (s : DriverState) (op : DriverOp) (s' : DriverState) : Prop where
  /-- A template leaves the list by a successful delete of its id only. -/
  stays : ∀ t ∈ s.templateList, t ∈ s'.templateList ∨
    ∃ id kvmalloc out, op = .ioctl (.delete id kvmalloc) true out
      ∧ findTemplate s id = some t ∧ driverStep s op = some (.ret 0, s')
  /-- A create that succeeds lists a new template under its id. -/
  created : ∀ args env out, op = .ioctl (.create args env) true out →
    driverStep s op = some (.ret 0, s') →
    ∃ t ∈ s'.templateList, t ∉ s.templateList
      ∧ (s'.templates.val t).templateId = strncpy templateIdMaxLen args.templateId
  counted : ∀ t ∈ s'.templateList, (s'.templates.val t).refCount.toNat = mapCount s' t
  reported : ∀ id t, op = .ioctl (.status id) true true → findTemplate s id = some t →
    ∃ loaded, driverStep s op = some (.status (BitVec.ofNat 64 (mapCount s t)) loaded, s')
  deleted : ∀ id kvmalloc out t, op = .ioctl (.delete id kvmalloc) true out →
    findTemplate s id = some t →
    driverStep s op = some (.ret (if mapCount s t = 0 then 0 else -eBusy), s')
      ∧ (mapCount s t = 0 → t ∉ s'.templateList)

/-- No `mmap` call reaches a listed template. -/
def NoTarget (s : DriverState) (op : DriverOp) (_ : DriverState) : Prop :=
  ∀ call kzalloc, op = .mmap call kzalloc → mmapTarget s call = none

/-- The states before the first `mmap` of a template. -/
structure Idle (s : DriverState) : Prop where
  vmas : s.vmas = []
  below : ListBelow s
  nodup : s.templateList.Nodup
  zero : ∀ t ∈ s.templateList, (s.templates.val t).refCount = 0

theorem Idle.mapCount (hs : Idle s) (t : Nat) : mapCount s t = 0 := by
  rw [TemplateLifeCycle.mapCount, hs.vmas]
  rfl

theorem Idle.counted (hs : Idle s) : ∀ t ∈ s.templateList,
    (s.templates.val t).refCount.toNat = TemplateLifeCycle.mapCount s t := by
  intro t ht
  rw [hs.zero t ht, hs.mapCount t]
  rfl

theorem Idle.findVma (hs : Idle s) (v : Nat) : findVma s v = none := by
  rw [SnapshotDriver.findVma, hs.vmas]
  rfl

theorem idle_init : Idle initState :=
  ⟨rfl, (fun _ ht => by cases ht), nodup_nil, (fun _ ht => by cases ht)⟩

theorem idle_discard (hs : Idle s) : Idle (discardTemplate s) := by
  have hsame := unchanged_discard hs.below
  refine ⟨hs.vmas, fun t ht => Nat.lt_succ_of_lt (hs.below t ht), hs.nodup, ?_⟩
  intro t ht
  rw [hsame.contents t ht]
  exact hs.zero t ht

theorem idle_created {x : Template} (hs : Idle s) (hx : x.refCount = 0) : Idle (created s x) := by
  have hnew : s.templates.next ∉ s.templateList := fun h => Nat.lt_irrefl _ (hs.below _ h)
  refine ⟨hs.vmas, ?_, ?_, ?_⟩
  · intro t ht
    rcases mem_append.mp ht with ht | ht
    · exact Nat.lt_succ_of_lt (hs.below t ht)
    · rw [mem_singleton.mp ht]; exact Nat.lt_succ_self _
  · refine nodup_append.mpr ⟨hs.nodup, nodup_singleton _, ?_⟩
    intro t ht u hu htu
    rw [mem_singleton.mp hu] at htu
    exact hnew (htu ▸ ht)
  · intro t ht
    rcases mem_append.mp ht with ht | ht
    · have hne : t ≠ s.templates.next := Nat.ne_of_lt (hs.below t ht)
      rw [created, val_alloc_of_ne _ _ hne]
      exact hs.zero t ht
    · rw [mem_singleton.mp ht, created, val_alloc_self]
      exact hx

theorem idle_deleted (hs : Idle s) (t : Nat) (kvmalloc : Bool) :
    Idle (clearPool (removeTemplate s t) kvmalloc) := by
  have hframe := (clearPool_frame (removeTemplate s t) kvmalloc).1
  refine ⟨hframe.vmas.trans hs.vmas, ?_, ?_, ?_⟩
  · exact listBelow_of_names ((namesKept_removeTemplate s t).trans hframe.namesKept) hs.below
  · rw [hframe.templateList]
    exact hs.nodup.erase t
  · intro u hu
    rw [hframe.templateList] at hu
    rw [hframe.templates]
    exact hs.zero u (mem_of_mem_erase hu)

/-- A call without effect on the list, which is not a delete or a status request
    of a listed template and not a create that succeeds. -/
theorem lifeCycle_same {op : DriverOp} (hs' : Idle s')
    (hlist : s'.templateList = s.templateList)
    (hcreate : ∀ args env out, op = .ioctl (.create args env) true out →
      driverStep s op ≠ some (.ret 0, s'))
    (hstatus : ∀ id, op = .ioctl (.status id) true true → findTemplate s id = none)
    (hdelete : ∀ id kvmalloc out, op = .ioctl (.delete id kvmalloc) true out →
      findTemplate s id = none) : LifeCycle s op s' where
  stays t ht := .inl (hlist.symm ▸ ht)
  created args env out hop hret := absurd hret (hcreate args env out hop)
  counted := hs'.counted
  reported id t hop ht := by
    rw [hstatus id hop] at ht
    cases ht
  deleted id kvmalloc out t hop ht := by
    rw [hdelete id kvmalloc out hop] at ht
    cases ht

/-- Without mappings, a create follows the life cycle. -/
theorem lifeCycle_create (hs : Idle s) (args : IoctlCreateTemplate) (env : CreateEnv)
    (out : Bool) :
    Idle (snapshotTemplateCreate s args env).2
      ∧ LifeCycle s (.ioctl (.create args env) true out) (snapshotTemplateCreate s args env).2 := by
  have hstep : driverStep s (.ioctl (.create args env) true out)
      = some (.ret (snapshotTemplateCreate s args env).1,
          (snapshotTemplateCreate s args env).2) := rfl
  rcases snapshotTemplateCreate_cases s args env with
    ⟨r, hr, hc | hc⟩ | ⟨pages, buf, -, hc⟩
  · rw [hc] at hstep ⊢
    refine ⟨hs, lifeCycle_same hs rfl ?_ (fun _ hop => by cases hop)
      (fun _ _ _ hop => by cases hop)⟩
    intro _ _ _ _ hret
    rw [hstep] at hret
    cases Option.some.inj hret
    exact hr rfl
  · rw [hc] at hstep ⊢
    refine ⟨idle_discard hs, lifeCycle_same (idle_discard hs) rfl ?_
      (fun _ hop => by cases hop) (fun _ _ _ hop => by cases hop)⟩
    intro _ _ _ _ hret
    rw [hstep] at hret
    cases Option.some.inj hret
    exact hr rfl
  · rw [hc]
    have hidle := idle_created hs (show (newTemplate args env pages buf).refCount = 0 from rfl)
    refine ⟨hidle, ?_, ?_, hidle.counted, ?_, ?_⟩
    · exact fun t ht => .inl (mem_append_left _ ht)
    · intro args' env' out' hop _
      cases hop
      refine ⟨s.templates.next, mem_append_right _ (mem_singleton.mpr rfl),
        (fun h => Nat.lt_irrefl _ (hs.below _ h)), ?_⟩
      show ((s.templates.alloc _).val s.templates.next).templateId = _
      rw [val_alloc_self]
      rfl
    · exact fun _ _ hop => by cases hop
    · exact fun _ _ _ _ hop => by cases hop

/-- So does a delete. -/
theorem lifeCycle_delete (hs : Idle s) (id : List UInt8) (kvmalloc out : Bool) :
    Idle (snapshotTemplateDelete s id kvmalloc).2
      ∧ LifeCycle s (.ioctl (.delete id kvmalloc) true out)
          (snapshotTemplateDelete s id kvmalloc).2 := by
  have hstep : driverStep s (.ioctl (.delete id kvmalloc) true out)
      = some (.ret (snapshotTemplateDelete s id kvmalloc).1,
          (snapshotTemplateDelete s id kvmalloc).2) := rfl
  rcases snapshotTemplateDelete_cases s id kvmalloc with
    ⟨hnone, hc⟩ | ⟨t, ht, hbusy, hc⟩ | ⟨t, ht, -, hc⟩
  · rw [hc]
    refine ⟨hs, lifeCycle_same hs rfl (fun _ _ _ hop => by cases hop)
      (fun _ hop => by cases hop) ?_⟩
    intro id' kvmalloc' out' hop
    cases hop
    exact hnone
  · -- a listed template has no references yet, so it cannot be busy
    rw [hs.zero t (mem_of_findTemplate ht)] at hbusy
    exact absurd hbusy (by decide)
  · rw [hc] at hstep ⊢
    have hidle := idle_deleted hs t kvmalloc
    have hlist := (clearPool_frame (removeTemplate s t) kvmalloc).1.templateList
    refine ⟨hidle, ?_, (fun _ _ _ hop => by cases hop), hidle.counted,
      (fun _ _ hop => by cases hop), ?_⟩
    · intro u hu
      by_cases hut : u = t
      · exact .inr ⟨id, kvmalloc, out, rfl, hut ▸ ht, hstep⟩
      · rw [hlist]
        exact .inl ((mem_erase_of_ne hut).mpr hu)
    · intro id' kvmalloc' out' t' hop ht'
      cases hop
      cases Option.some.inj (ht.symm.trans ht')
      rw [hs.mapCount t, hstep, hlist]
      exact ⟨rfl, fun _ => hs.nodup.not_mem_erase⟩

/-- So does a status. -/
theorem lifeCycle_status (hs : Idle s) (id : List UInt8) (copyFromUser copyToUser : Bool) :
    LifeCycle s (.ioctl (.status id) copyFromUser copyToUser) s := by
  refine ⟨fun _ ht => .inl ht, (fun _ _ _ hop => by cases hop), hs.counted, ?_,
    (fun _ _ _ _ hop => by cases hop)⟩
  intro id' t hop ht
  cases hop
  refine ⟨s.pool.totalPages, ?_⟩
  have hzero := hs.zero t (mem_of_findTemplate ht)
  have hstatus : snapshotTemplateStatus s id = (0, 0, s.pool.totalPages) := by
    rw [snapshotTemplateStatus, ht]
    dsimp only
    rw [hzero]
    rfl
  rw [driverStep, snapshotIoctl, hstatus, hs.mapCount t]
  rfl

/-- So does every `ioctl`. -/
theorem lifeCycle_ioctl (hs : Idle s) (cmd : IoctlCmd) (copyFromUser copyToUser : Bool) :
    Idle (snapshotIoctl s cmd copyFromUser copyToUser).2
      ∧ LifeCycle s (.ioctl cmd copyFromUser copyToUser)
          (snapshotIoctl s cmd copyFromUser copyToUser).2 := by
  cases cmd with
  | create args env =>
    cases copyFromUser with
    | false =>
      exact ⟨hs, lifeCycle_same hs rfl (fun _ _ _ hop => by cases hop)
        (fun _ hop => by cases hop) (fun _ _ _ hop => by cases hop)⟩
    | true => exact lifeCycle_create hs args env copyToUser
  | delete id kvmalloc =>
    cases copyFromUser with
    | false =>
      exact ⟨hs, lifeCycle_same hs rfl (fun _ _ _ hop => by cases hop)
        (fun _ hop => by cases hop) (fun _ _ _ hop => by cases hop)⟩
    | true => exact lifeCycle_delete hs id kvmalloc copyToUser
  | status id =>
    rw [snapshotIoctl_status]
    exact ⟨hs, lifeCycle_status hs id copyFromUser copyToUser⟩
  | other =>
    exact ⟨hs, lifeCycle_same hs rfl (fun _ _ _ hop => by cases hop)
      (fun _ hop => by cases hop) (fun _ _ _ hop => by cases hop)⟩

/-- The count after a first `mmap` that succeeds is two. -/
theorem refCount_mapped (hs : Idle s) (ht : t ∈ s.templateList) (call : MmapCall) :
    ((addTemplateRef (addVma (addTemplateRef s t 1) call t) t 1).templates.val t).refCount = 2 := by
  have hval : (addVma (addTemplateRef s t 1) call t).templates.val t
      = (s.templates.val t).addRef 1 := addTemplateRef_self s t 1
  rw [addTemplateRef_self, hval, Template.addRef, Template.addRef, hs.zero t ht]
  rfl

/-- The first `mmap` of a listed template breaks the life cycle, whether it
    succeeds or fails. -/
theorem lifeCycle_mmap_iff (hs : Idle s) (call : MmapCall) (kzalloc : Bool) :
    LifeCycle s (.mmap call kzalloc) (snapshotMmap s call kzalloc).2
      ↔ mmapTarget s call = none := by
  rcases snapshotMmap_cases s call kzalloc with
    ⟨hnone, hc⟩ | ⟨t, r, htarget, -, -, hc⟩ | ⟨t, htarget, -, -, hc⟩
  · rw [hc]
    exact ⟨fun _ => hnone, fun _ => lifeCycle_same hs rfl (fun _ _ _ hop => by cases hop)
      (fun _ hop => by cases hop) (fun _ _ _ hop => by cases hop)⟩
  · have ht := mem_of_mmapTarget htarget
    rw [hc, htarget, unref_addRef, if_pos (hs.zero t ht)]
    refine ⟨fun h => ?_, fun h => by cases h⟩
    rcases h.stays t ht with hin | ⟨id, kvmalloc, out, hop, -⟩
    · exact absurd hin hs.nodup.not_mem_erase
    · cases hop
  · have ht := mem_of_mmapTarget htarget
    rw [hc, htarget]
    refine ⟨fun h => ?_, fun h => by cases h⟩
    have hcount := h.counted t ht
    have hle : mapCount (addTemplateRef (addVma (addTemplateRef s t 1) call t) t 1) t ≤ 1 := by
      refine countP_le_length.trans ?_
      show (s.vmas ++ [_]).length ≤ 1
      rw [hs.vmas]
      exact Nat.le_refl 1
    rw [refCount_mapped hs ht call] at hcount
    rw [← hcount] at hle
    exact absurd hle (by decide)

/-- A call from an idle state, in terms of `NoTarget`. -/
theorem lifeCycle_step_iff (s : DriverState) (op : DriverOp) (s' : DriverState)
    (hs : Idle s) (h : driver s op = some s') :
    NoTarget s op s' ↔ LifeCycle s op s' := by
  obtain ⟨r, -, hmove⟩ := driverMove_of_driver h
  cases hmove with
  | ioctl cmd copyFromUser copyToUser =>
    exact ⟨fun _ => (lifeCycle_ioctl hs cmd copyFromUser copyToUser).2,
      fun _ _ _ hop => by cases hop⟩
  | mmap call kzalloc =>
    rw [lifeCycle_mmap_iff hs]
    refine ⟨fun hno => hno call kzalloc rfl, fun hnone call' kzalloc' hop => ?_⟩
    cases hop
    exact hnone
  | fork v x hx | split v address x hx | close v x hx | fault v address env x hx =>
    rw [hs.findVma v] at hx; cases hx

/-- Without a mapping the driver stays idle. -/
theorem idle_step (s : DriverState) (op : DriverOp) (s' : DriverState)
    (hs : Idle s) (h : driver s op = some s') (hno : NoTarget s op s') : Idle s' := by
  obtain ⟨r, -, hmove⟩ := driverMove_of_driver h
  cases hmove with
  | ioctl cmd copyFromUser copyToUser =>
    exact (lifeCycle_ioctl hs cmd copyFromUser copyToUser).1
  | mmap call kzalloc =>
    rcases snapshotMmap_cases s call kzalloc with
      ⟨-, hc⟩ | ⟨t, r, htarget, -⟩ | ⟨t, htarget, -⟩
    · rw [hc]; exact hs
    · rw [hno call kzalloc rfl] at htarget; cases htarget
    · rw [hno call kzalloc rfl] at htarget; cases htarget
  | fork v x hx | split v address x hx | close v x hx | fault v address env x hx =>
    rw [hs.findVma v] at hx; cases hx

/-- **TEMPLATE LIFE CYCLE.**  Along a run of the driver every call respects the
    life cycle of the templates exactly when no `mmap` of the run reaches a
    listed template. -/
theorem life_cycle_iff (ops : List DriverOp) :
    Moves driver LifeCycle initState ops ↔ Moves driver NoTarget initState ops :=
  (moves_iff lifeCycle_step_iff idle_step idle_init).symm

/-- One create and one `mmap`: the template has one VMA and a count of two, and
    after the VMA is closed a delete is refused although nothing maps the
    template. -/
theorem mmap_breaks_life_cycle :
    (∃ s, exec driver initState [sampleCreate, sampleMmap 1 0, .close 0] = some s
      ∧ s.templateList = [0] ∧ mapCount s 0 = 0 ∧ (s.templates.val 0).refCount = 1
      ∧ (driverStep s (.ioctl (.delete sampleId true) true true)).map Prod.fst
          = some (.ret (-eBusy)))
      ∧ ¬ Moves driver LifeCycle initState [sampleCreate, sampleMmap 1 0] := by
  refine ⟨⟨_, rfl, rfl, rfl, rfl, rfl⟩, ?_⟩
  intro h
  have hmmap := ((h _ rfl).2 _ rfl).1
  exact absurd (hmmap.counted 0 (mem_singleton.mpr rfl)) (by decide)

end TemplateLifeCycle
