import DemoStore.PageAccountingProofs

/-! # The life of the tracking data

    What a VMA may count on: its `vma_snapshot_data` is there as long as the VMA
    is, and so is every page that is tracked in it.  The first part is a matter of
    who closes (`Owned`), the second of what the faults recorded (`Accounted`).  As
    long as the faults record what they take, the first close of a shared structure
    is the first thing that goes wrong. -/

namespace VmaData

open ObjectHeap SnapshotDriver DriverFrame MachineRun PageStore PageAccounting TemplateUsers

variable {s s' : DriverState} {v : Nat} {x : Vma}

/-- What every call is meant to do for the tracking data. -/
structure DataLife (s : DriverState) (op : DriverOp) (s' : DriverState) : Prop where
  /-- No call uses a structure that was freed. -/
  unused : ∀ d, .data d ∉ s'.misuse
  /-- A structure that a VMA holds has not been freed. -/
  held : ∀ x ∈ s'.vmas, s'.datas.live x.vmPrivateData = true ∧ s'.datas.frees x.vmPrivateData = 0
  /-- A structure that no VMA holds any more was freed once. -/
  freed : ∀ d < s'.datas.next, (∀ x ∈ s'.vmas, x.vmPrivateData ≠ d) →
    s'.datas.live d = false ∧ s'.datas.frees d = 1
  /-- A close takes nothing out of the tree of another VMA. -/
  kept : ∀ v, op = .close v → ∀ y ∈ s'.vmas,
    (s'.datas.val y.vmPrivateData).vaToPaMap = (s.datas.val y.vmPrivateData).vaToPaMap
  /-- A page that is tracked for a VMA has not been released: its entry was never
      freed, and the entry and the page have a reference for every node of the VMA that
      points to them, the page one more for being in the pool. -/
  referenced : ∀ y ∈ s'.vmas, ∀ n ∈ (s'.datas.val y.vmPrivateData).vaToPaMap,
    let nodes := (s'.datas.val y.vmPrivateData).vaToPaMap.countP
      fun n' => n'.physEntry == n.physEntry
    s'.entries.live n.physEntry = true ∧ s'.entries.frees n.physEntry = 0
      ∧ nodes ≤ (s'.entries.val n.physEntry).refCount.toNat
      ∧ (nodes : Int) < (s'.entries.val n.physEntry).pageRefs

/-- The entries of a tree have the references its nodes stand for. -/
theorem referenced_of_accounted (ho : Owned s) (h : Accounted s) {y : Vma} (hy : y ∈ s.vmas)
    {n : VaToPaEntry} (hn : n ∈ (s.datas.val y.vmPrivateData).vaToPaMap) :
    let nodes := (s.datas.val y.vmPrivateData).vaToPaMap.countP
      fun n' => n'.physEntry == n.physEntry
    s.entries.live n.physEntry = true ∧ s.entries.frees n.physEntry = 0
      ∧ nodes ≤ (s.entries.val n.physEntry).refCount.toNat
      ∧ (nodes : Int) < (s.entries.val n.physEntry).pageRefs := by
  intro nodes
  have hd := ho.below _ (List.mem_map.mpr ⟨y, hy, rfl⟩)
  have hle : nodes ≤ tracked s n.physEntry :=
    le_total (fun x : VmaSnapshotData => x.vaToPaMap.countP _) hd
  have hpos : 0 < nodes := List.countP_pos_iff.mpr ⟨n, hn, beq_self_eq_true _⟩
  have hlive := h.pool.live_of_count (Nat.lt_of_lt_of_le hpos hle)
  refine ⟨hlive, ?_, ?_, ?_⟩
  · rw [h.pool.frees _ (h.pool.lt_of_live hlive), hlive]; rfl
  · rw [(h.pool.counts hlive).1]; exact hle
  · rw [h.pool.pages_of_live hlive]
    omega

theorem dataLife_of_owned {op : DriverOp} (ho : Owned s') (h : Accounted s')
    (hkept : ∀ v, op = .close v → ∀ y ∈ s'.vmas,
      (s'.datas.val y.vmPrivateData).vaToPaMap
        = (s.datas.val y.vmPrivateData).vaToPaMap) : DataLife s op s' where
  unused := ho.unused
  held x hx := ho.held (x.vmId, x.vmPrivateData) (List.mem_map.mpr ⟨x, hx, rfl⟩)
  freed d hd hno := by
    refine ho.freed d hd fun o ho' => ?_
    obtain ⟨x, hx, rfl⟩ := List.mem_map.mp ho'
    exact hno x hx
  kept := hkept
  referenced _ hy _ hn := referenced_of_accounted ho h hy hn

/-- A close by the only owner touches no other tree. -/
theorem kept_of_sole (ho : Owned s) (hx : findVma s v = some x)
    (hsole : SoleOwner s (.close v) s') :
    ∀ y ∈ (snapshotVmaClose (dropVma s v) x.vmPrivateData).vmas,
      ((snapshotVmaClose (dropVma s v) x.vmPrivateData).datas.val y.vmPrivateData).vaToPaMap
        = (s.datas.val y.vmPrivateData).vaToPaMap := by
  have hlive := (ho.held _ (mem_owners hx)).1
  intro y hy
  rw [(snapshotVmaClose_frame (s := dropVma s v) hlive).1] at hy
  obtain ⟨hy, hne⟩ := List.mem_filter.mp hy
  have hd : y.vmPrivateData ≠ x.vmPrivateData :=
    fun he => of_decide_eq_true hne (hsole v x rfl hx y hy he)
  rw [snapshotVmaClose_datas (s := dropVma s v) hlive, val_free, val_modify_of_ne _ _ hd]
  rfl

/-- A close that leaves every other VMA its structure was made by the only owner. -/
theorem sole_of_dataLife (ho : Owned s) (hx : findVma s v = some x)
    (hlife : DataLife s (.close v) (snapshotVmaClose (dropVma s v) x.vmPrivateData)) :
    SoleOwner s (.close v) s' := by
  obtain ⟨hlive, -⟩ := ho.held _ (mem_owners hx)
  intro v' x' hop hx' y hy hd
  cases hop
  cases Option.some.inj (hx.symm.trans hx')
  -- another VMA with the pointer would hold a structure that was just freed
  by_contra hne
  have hy' : y ∈ (snapshotVmaClose (dropVma s v) x.vmPrivateData).vmas := by
    rw [(snapshotVmaClose_frame (s := dropVma s v) hlive).1]
    exact List.mem_filter.mpr ⟨hy, decide_eq_true hne⟩
  have hheld := (hlife.held y hy').1
  rw [snapshotVmaClose_datas (s := dropVma s v) hlive, hd, live_free_self] at hheld
  exact Bool.noConfusion hheld

/-- **One call.**  A call that keeps the books respects the life of the data exactly
    when it is not the close of a structure that another VMA holds. -/
theorem dataLife_step_iff (s : DriverState) (op : DriverOp) (s' : DriverState)
    (h : Owned s ∧ Accounted s) (hstep : driver s op = some s') :
    (SoleOwner s op s' ∧ Tended s op s') ↔ (DataLife s op s' ∧ Tended s op s') := by
  refine and_congr_left fun htended => ?_
  have hbooks := accounted_step h.1 h.2 hstep htended
  constructor
  · intro hsole
    refine dataLife_of_owned (owned_step s op s' h.1 hstep hsole) hbooks ?_
    rintro v rfl
    obtain ⟨r, -, hmove⟩ := driverMove_of_driver hstep
    cases hmove with
    | close v x hx => exact kept_of_sole h.1 hx hsole
  · intro hlife
    by_cases hclose : ∃ v, op = .close v
    · obtain ⟨v, rfl⟩ := hclose
      obtain ⟨r, -, hmove⟩ := driverMove_of_driver hstep
      cases hmove with
      | close v x hx => exact sole_of_dataLife h.1 hx hlife
    · exact fun v _ hv => absurd ⟨v, hv⟩ hclose

/-- **TRACKING DATA.**  Along a run whose faults record what they take, the tracking
    data outlives the VMAs that use it and is freed once, and no VMA loses a page that is
    tracked for it, exactly when every VMA that is closed is the only one holding its
    data. -/
theorem data_life_iff (ops : List DriverOp) (htended : Moves driver Tended initState ops) :
    Moves driver DataLife initState ops ↔ Moves driver SoleOwner initState ops := by
  have hiff : Moves driver _ initState ops ↔ Moves driver _ initState ops :=
    moves_iff dataLife_step_iff (fun s op s' h hstep hg => ⟨owned_step s op s' h.1 hstep hg.1,
      accounted_step h.1 h.2 hstep hg.2⟩) ⟨owned_init, accounted_init⟩
  rw [moves_and, moves_and] at hiff
  exact ⟨fun h => (hiff.mpr ⟨h, htended⟩).1, fun h => (hiff.mp ⟨h, htended⟩).1⟩

/-- Two mappings of the page, the first of which has faulted it in. -/
def firstOfTwo : DriverState :=
  firstFault (afterRun [sampleCreate, sampleMmap 1 0, sampleMmap 1 0]) onePageVma 0 1

theorem driver_firstOfTwo :
    driver (afterRun [sampleCreate, sampleMmap 1 0, sampleMmap 1 0])
        (.fault 0 0 (sampleFault 1)) = some firstOfTwo :=
  congrArg (Option.map Prod.snd)
    (driverStep_sample (s := afterRun [sampleCreate, sampleMmap 1 0, sampleMmap 1 0])
      (x := onePageVma) (p := ⟨0, 1⟩) rfl (by decide) rfl (by decide) (by rfl) rfl rfl)

theorem nodeCount_firstOfTwo (e : Nat) : nodeCount firstOfTwo e ≤ 1 := by
  show List.countP (fun n : VaToPaEntry => n.physEntry == e) [⟨0, 0⟩] ≤ 1
  exact List.countP_le_length

/-- Two mappings share a page, and the close of one leaves it to the other. -/
theorem shared_page_kept :
    Moves driver DataLife initState
      [sampleCreate, sampleMmap 1 0, sampleMmap 1 0, .fault 0 0 (sampleFault 1),
        .fault 1 0 (sampleFault 1), .close 0] := by
  refine (data_life_iff _ ?_).mpr ?_
  · refine moves_cons rfl trivial (moves_cons rfl trivial (moves_cons rfl trivial ?_))
    refine moves_cons driver_firstOfTwo (fun x hx => ?_)
      (moves_cons rfl (fun x hx => ?_) (moves_cons rfl trivial trivial))
    · cases Option.some.inj hx
      exact ⟨rfl, fun _ n hn => (by cases hn), fun e => (by decide : 0 < 2 ^ 32 - 1)⟩
    · cases Option.some.inj hx
      refine ⟨rfl, fun _ n hn => (by cases hn), fun e => ?_⟩
      exact Nat.lt_of_le_of_lt (nodeCount_firstOfTwo e) (by decide)
  · refine moves_cons rfl ?_ (moves_cons rfl ?_ (moves_cons rfl ?_ ?_))
    · rintro v x ⟨⟩
    · rintro v x ⟨⟩
    · rintro v x ⟨⟩
    · refine moves_cons driver_firstOfTwo ?_ (moves_cons rfl ?_ (moves_cons rfl ?_ trivial))
      · rintro v x ⟨⟩
      · rintro v x ⟨⟩
      · rintro v x ⟨⟩ hx
        cases Option.some.inj hx
        decide

/-- A mapping is forked, the child closes its VMA, then the parent does: the
    second close uses and frees the structure a second time. -/
theorem fork_frees_data_twice :
    (∃ s, exec driver initState
        [sampleCreate, sampleMmap 1 0, .fork 0, .close 1, .close 0] = some s
      ∧ s.misuse = [.data 0] ∧ s.datas.frees 0 = 2)
      ∧ ¬ Moves driver DataLife initState
        [sampleCreate, sampleMmap 1 0, .fork 0, .close 1, .close 0] := by
  refine ⟨⟨_, rfl, rfl, rfl⟩, ?_⟩
  intro h
  have hclose := ((((h _ rfl).2 _ rfl).2 _ rfl).2 _ rfl).1
  have hheld := hclose.held _ (List.mem_singleton.mpr rfl)
  exact absurd hheld.1 (by decide)

end VmaData
