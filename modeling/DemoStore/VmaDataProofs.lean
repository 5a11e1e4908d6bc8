import DemoStore.DriverFrameProofs

/-! # Who owns the tracking data of a VMA

    `snapshot_mmap` allocates one `vma_snapshot_data`, the kernel hands the
    pointer to every VMA it makes out of that one, and every close frees it.
    The data has as many owners as there are VMAs with the pointer, but no
    count.  An owner is a pair of a VMA and its pointer; the file follows the
    list of owners through the calls up to the first close of a structure that
    another VMA still holds. -/

namespace VmaData

open ObjectHeap SnapshotDriver DriverFrame MachineRun PageStore List

variable {s s' : DriverState}

/-- The live VMAs with the pointer each of them holds. -/
def owners (s : DriverState) : List (Nat × Nat) :=
  s.vmas.map fun x => (x.vmId, x.vmPrivateData)

/-- Every structure lives exactly as long as it has an owner. -/
structure Owned (s : DriverState) : Prop where
  nodup : ((owners s).map Prod.fst).Nodup
  idBelow : ∀ o ∈ owners s, o.1 < s.nextVma
  below : ∀ o ∈ owners s, o.2 < s.datas.next
  fresh : s.datas.Fresh
  unused : ∀ d, .data d ∉ s.misuse
  held : ∀ o ∈ owners s, s.datas.live o.2 = true ∧ s.datas.frees o.2 = 0
  freed : ∀ d < s.datas.next, (∀ o ∈ owners s, o.2 ≠ d) →
    s.datas.live d = false ∧ s.datas.frees d = 1

theorem owned_init : Owned initState where
  nodup := nodup_nil
  idBelow _ h := by cases h
  below _ h := by cases h
  fresh _ _ := ⟨rfl, rfl⟩
  unused _ h := by cases h
  held _ h := by cases h
  freed _ h := absurd h (Nat.not_lt_zero _)

/-- Calls that change neither the owners nor the life of the data. -/
theorem Owned.same (h : Owned s) (howners : owners s' = owners s)
    (hnextVma : s'.nextVma = s.nextVma) (hnext : s'.datas.next = s.datas.next)
    (hlive : s'.datas.live = s.datas.live) (hfrees : s'.datas.frees = s.datas.frees)
    (hmisuse : ∀ d, .data d ∈ s'.misuse ↔ .data d ∈ s.misuse) : Owned s' where
  nodup := by rw [howners]; exact h.nodup
  idBelow := by rw [howners, hnextVma]; exact h.idBelow
  below := by rw [howners, hnext]; exact h.below
  fresh := by
    intro d hd
    rw [hnext] at hd
    rw [hlive, hfrees]
    exact h.fresh d hd
  unused d hd := h.unused d ((hmisuse d).mp hd)
  held := by rw [howners, hlive, hfrees]; exact h.held
  freed := by rw [howners, hnext, hlive, hfrees]; exact h.freed

/-- What leaves the mappings leaves the owners. -/
theorem Owned.frame (h : Owned s) (hframe : MappingFrame s s') : Owned s' := by
  refine h.same ?_ hframe.nextVma ?_ ?_ ?_ hframe.dataMisuse
  · rw [owners, owners, hframe.vmas]
  all_goals rw [hframe.datas]

theorem nodup_new_owner (h : Owned s) (d : Nat) :
    ((owners s ++ [(s.nextVma, d)]).map Prod.fst).Nodup := by
  rw [map_append, map_singleton]
  refine nodup_append.mpr ⟨h.nodup, nodup_singleton _, ?_⟩
  intro i hi j hj hij
  obtain ⟨o, ho, rfl⟩ := List.mem_map.mp hi
  rw [mem_singleton.mp hj] at hij
  exact Nat.ne_of_lt (h.idBelow o ho) hij

/-- **Duplication**: a new owner for a pointer that already has one. -/
theorem Owned.dup (h : Owned s) {o : Nat × Nat} (ho : o ∈ owners s)
    (howners : owners s' = owners s ++ [(s.nextVma, o.2)])
    (hnextVma : s'.nextVma = s.nextVma + 1) (hdatas : s'.datas = s.datas)
    (hmisuse : s'.misuse = s.misuse) : Owned s' where
  nodup := by rw [howners]; exact nodup_new_owner h o.2
  idBelow := by
    rw [howners, hnextVma]
    intro p hp
    rcases mem_append.mp hp with hp | hp
    · exact Nat.lt_succ_of_lt (h.idBelow p hp)
    · rw [mem_singleton.mp hp]; exact Nat.lt_succ_self _
  below := by
    rw [howners, hdatas]
    intro p hp
    rcases mem_append.mp hp with hp | hp
    · exact h.below p hp
    · rw [mem_singleton.mp hp]; exact h.below o ho
  fresh := by rw [hdatas]; exact h.fresh
  unused := by rw [hmisuse]; exact h.unused
  held := by
    rw [howners, hdatas]
    intro p hp
    rcases mem_append.mp hp with hp | hp
    · exact h.held p hp
    · rw [mem_singleton.mp hp]; exact h.held o ho
  freed := by
    rw [howners, hdatas]
    exact fun d hd hno => h.freed d hd fun p hp => hno p (mem_append_left _ hp)

/-- **Allocation**: a new owner for a new structure. -/
theorem owned_addVma (h : Owned s) (call : MmapCall) (t : Nat) : Owned (addVma s call t) := by
  have howners : owners (addVma s call t) = owners s ++ [(s.nextVma, s.datas.next)] := map_append
  have hsame : ∀ d < s.datas.next, (addVma s call t).datas.live d = s.datas.live d :=
    fun d hd => live_alloc_of_ne _ _ (Nat.ne_of_lt hd)
  refine ⟨?_, ?_, ?_, ?_, h.unused, ?_, ?_⟩
  · rw [howners]
    exact nodup_new_owner h s.datas.next
  · rw [howners]
    intro p hp
    rcases mem_append.mp hp with hp | hp
    · exact Nat.lt_succ_of_lt (h.idBelow p hp)
    · rw [mem_singleton.mp hp]; exact Nat.lt_succ_self _
  · rw [howners]
    intro p hp
    rcases mem_append.mp hp with hp | hp
    · exact Nat.lt_succ_of_lt (h.below p hp)
    · rw [mem_singleton.mp hp]; exact Nat.lt_succ_self _
  · intro d hd
    have hlt : s.datas.next < d := hd
    refine ⟨?_, (h.fresh d (Nat.le_of_lt hlt)).2⟩
    exact (live_alloc_of_ne _ _ (Nat.ne_of_gt hlt)).trans (h.fresh d (Nat.le_of_lt hlt)).1
  · rw [howners]
    intro p hp
    rcases mem_append.mp hp with hp | hp
    · rw [hsame p.2 (h.below p hp)]
      exact h.held p hp
    · rw [mem_singleton.mp hp]
      exact ⟨live_alloc_self _ _, (h.fresh _ (Nat.le_refl _)).2⟩
  · rw [howners]
    intro d hd hno
    have hne : d ≠ s.datas.next := fun he => hno (s.nextVma, s.datas.next) (by simp) he.symm
    have hlt : d < s.datas.next := Nat.lt_of_le_of_ne (Nat.le_of_lt_succ hd) hne
    rw [hsame d hlt]
    exact h.freed d hlt fun p hp => hno p (mem_append_left _ hp)

/-! ## The calls -/

theorem owners_forkVma (s : DriverState) (x : Vma) :
    owners (forkVma s x) = owners s ++ [(s.nextVma, x.vmPrivateData)] :=
  map_append

theorem owners_splitVma (s : DriverState) (x : Vma) (address : Nat) :
    owners (splitVma s x address) = owners s ++ [(s.nextVma, x.vmPrivateData)] := by
  have hcut : (s.vmas.map (Vma.cutAt x.vmId address)).map
      (fun y => (y.vmId, y.vmPrivateData)) = owners s := by
    rw [owners, List.map_map]
    refine map_congr_left fun y _ => ?_
    show ((Vma.cutAt x.vmId address y).vmId, _) = _
    rw [Vma.cutAt]
    split <;> rfl
  rw [owners, splitVma, map_append, hcut]
  rfl

variable {v : Nat} {x : Vma}

theorem mem_owners (hx : findVma s v = some x) : (v, x.vmPrivateData) ∈ owners s := by
  obtain ⟨hmem, hid⟩ := mem_of_findVma hx
  exact List.mem_map.mpr ⟨x, hmem, by rw [hid]⟩

/-- `snapshot_vma_open` on a structure that is alive. -/
theorem owned_open (h : Owned s) {d : Nat} (hlive : s.datas.live d = true) :
    Owned (snapshotVmaOpen s d) := by
  rw [snapshotVmaOpen, touchData_of_live hlive]
  exact h.frame (addTemplateRef_frame s _ 1).mappings

/-- A fault on live data keeps the owners. -/
theorem owned_fault (h : Owned s) (hlive : s.datas.live x.vmPrivateData = true) (address : Nat)
    (env : FaultEnv) : Owned (snapshotVmaFault s x address env).2 := by
  have hframe := snapshotVmaFault_frame s x address env
  rw [touchData_of_live hlive] at hframe
  refine h.same ?_ hframe.nextVma hframe.dataNext hframe.dataLive hframe.dataFrees hframe.dataMisuse
  rw [owners, owners, hframe.vmas]

theorem owners_dropVma (s : DriverState) (v : Nat) :
    owners (dropVma s v) = (owners s).filter fun o => o.1 ≠ v := by
  rw [owners, owners, List.filter_map]
  rfl

/-- The closing VMA is the only one with its pointer. -/
def SoleOwner (s : DriverState) (op : DriverOp) (_ : DriverState) : Prop :=
  ∀ v x, op = .close v → findVma s v = some x →
    ∀ y ∈ s.vmas, y.vmPrivateData = x.vmPrivateData → y.vmId = v

/-- **Release by the only owner.** -/
theorem owned_close (h : Owned s) (hx : findVma s v = some x)
    (hsole : ∀ o ∈ owners s, o.2 = x.vmPrivateData → o.1 = v) :
    Owned (snapshotVmaClose (dropVma s v) x.vmPrivateData) := by
  obtain ⟨hlive, hfrees⟩ := h.held _ (mem_owners hx)
  have hdatas := snapshotVmaClose_datas (s := dropVma s v) hlive
  obtain ⟨hvmas, hnextVma, hmisuse⟩ := snapshotVmaClose_frame (s := dropVma s v) hlive
  have howners : owners (snapshotVmaClose (dropVma s v) x.vmPrivateData)
      = (owners s).filter fun o => o.1 ≠ v := by
    rw [← owners_dropVma, owners, owners, hvmas]
  have hmem : ∀ o ∈ owners (snapshotVmaClose (dropVma s v) x.vmPrivateData),
      o ∈ owners s ∧ o.2 ≠ x.vmPrivateData := by
    intro o ho
    rw [howners] at ho
    obtain ⟨ho, hne⟩ := mem_filter.mp ho
    exact ⟨ho, fun he => of_decide_eq_true hne (hsole o ho he)⟩
  refine ⟨?_, ?_, ?_, ?_, ?_, ?_, ?_⟩
  · rw [howners]
    exact h.nodup.sublist (filter_sublist.map _)
  · rw [hnextVma]
    exact fun o ho => h.idBelow o (hmem o ho).1
  · rw [hdatas]
    exact fun o ho => h.below o (hmem o ho).1
  · rw [hdatas]
    intro d hd
    have hne : d ≠ x.vmPrivateData := fun he => Nat.not_lt.mpr hd (he ▸ h.below _ (mem_owners hx))
    rw [live_free_of_ne _ hne, frees_free_of_ne _ hne]
    exact h.fresh d hd
  · exact fun d hd => h.unused d ((hmisuse d).mp hd)
  · rw [hdatas]
    intro o ho
    rw [live_free_of_ne _ (hmem o ho).2, frees_free_of_ne _ (hmem o ho).2]
    exact h.held o (hmem o ho).1
  · rw [hdatas]
    intro d hd hno
    by_cases hdx : d = x.vmPrivateData
    · -- this one was held, so this was its first free
      rw [hdx, live_free_self, frees_free_self]
      exact ⟨rfl, congrArg (· + 1) hfrees⟩
    · rw [live_free_of_ne _ hdx, frees_free_of_ne _ hdx]
      refine h.freed d hd fun o ho he => ?_
      by_cases hov : o.1 = v
      · -- a VMA has one pointer, so the closing one held `x.vmPrivateData`
        have hpair := inj_on_of_nodup_map h.nodup ho (mem_owners hx) hov
        exact hdx (he.symm.trans (congrArg Prod.snd hpair))
      · refine hno o ?_ he
        rw [howners]
        exact mem_filter.mpr ⟨ho, decide_eq_true hov⟩

/-! ## Runs -/

/-- Every call other than a close keeps the ownership. -/
theorem owned_move {op : DriverOp} {r : OpResult} (h : Owned s)
    (hmove : DriverMove s op r s') (hclose : ∀ v, op ≠ .close v) : Owned s' := by
  cases hmove with
  | ioctl cmd copyFromUser copyToUser =>
    exact h.frame (snapshotIoctl_frame s cmd copyFromUser copyToUser)
  | mmap call kzalloc =>
    rcases snapshotMmap_frame s call kzalloc with hframe | ⟨t, hframe⟩
    · exact h.frame hframe.mappings
    · exact (owned_addVma h call t).frame hframe.mappings
  | fork v x hx =>
    have hfork : Owned (forkVma s x) := h.dup (mem_owners hx) (owners_forkVma s x) rfl rfl rfl
    exact owned_open hfork (h.held _ (mem_owners hx)).1
  | split v address x hx =>
    have hsplit : Owned (splitVma s x address) :=
      h.dup (mem_owners hx) (owners_splitVma s x address) rfl rfl rfl
    exact owned_open hsplit (h.held _ (mem_owners hx)).1
  | close v => exact absurd rfl (hclose v)
  | fault v address env x hx => exact owned_fault h (h.held _ (mem_owners hx)).1 address env

theorem SoleOwner.owners (hsole : SoleOwner s (.close v) s') (hx : findVma s v = some x) :
    ∀ o ∈ VmaData.owners s, o.2 = x.vmPrivateData → o.1 = v := by
  intro o ho
  obtain ⟨y, hy, rfl⟩ := List.mem_map.mp ho
  exact hsole v x rfl hx y hy

/-- So does every step that closes a sole owner. -/
theorem owned_step (s : DriverState) (op : DriverOp) (s' : DriverState) (h : Owned s)
    (hstep : driver s op = some s') (hsole : SoleOwner s op s') : Owned s' := by
  obtain ⟨r, -, hmove⟩ := driverMove_of_driver hstep
  -- nothing but a close ends a structure
  by_cases hclose : ∃ v, op = .close v
  · obtain ⟨v, rfl⟩ := hclose
    cases hmove with
    | close v x hx => exact owned_close h hx (hsole.owners hx)
  · exact owned_move h hmove fun v hv => hclose ⟨v, hv⟩

end VmaData
