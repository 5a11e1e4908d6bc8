import DemoStore.PagePoolProofs
import DemoStore.TemplateUsersProofs
import DemoStore.VmaDataProofs

/-! # References of physical pages against tracking nodes

    A fault takes a reference of the pool entry and of its page and records both
    in one node of the VMA's tree; the close of the VMA gives them back node by
    node.  The books balance as long as node and references come together: a
    fault that leaves a node without a reference, or a reference without a node,
    is never made up for.

    The books count every tree once, however many VMAs share it, so they follow
    a `fork` and a `split` as well.  In a run without these two every VMA has a
    tree of its own, and the sum over the trees is the sum over the VMAs. -/

namespace PageAccounting

open List Option
open ObjectHeap SnapshotDriver DriverFrame MachineRun PageStore VmaData PagePool PoolSection TemplateUsers
open Function (update update_eq_self update_idem update_of_ne update_self)

variable {s s' : DriverState}

/-- The tracking nodes of the live VMAs that meet `P`. -/
def nodeSum (s : DriverState) (P : VaToPaEntry → Bool) : Nat :=
  (s.vmas.map fun x => (s.datas.val x.vmPrivateData).vaToPaMap.countP P).sum

/-- The tracking nodes of the live VMAs that point to an entry. -/
def nodeCount (s : DriverState) (e : Nat) : Nat :=
  nodeSum s fun n => n.physEntry == e

/-- The tracking nodes that meet `P`, every tree counted once. -/
def treeSum (s : DriverState) (P : VaToPaEntry → Bool) : Nat :=
  s.datas.total fun x => x.vaToPaMap.countP P

theorem tracked_eq_treeSum (s : DriverState) (e : Nat) :
    tracked s e = treeSum s fun n => n.physEntry == e := rfl

/-! ## The books -/

/-- What every call of a careful run keeps. -/
structure Accounted (s : DriverState) : Prop where
  /-- The tree of a structure that was freed is empty. -/
  emptied : ∀ d < s.datas.next, s.datas.live d = false → (s.datas.val d).vaToPaMap = []
  /-- Every node stands for one reference of the entry and one of its page. -/
  pool : PoolOk s (tracked s) fun e => (tracked s e : Int)
  nodes : s.nodesAllocated = s.nodesFreed + treeSum s fun _ => true
  misuse : s.misuse = []

theorem accounted_init : Accounted initState where
  emptied _ h := absurd h (Nat.not_lt_zero _)
  pool := poolOk_init
  nodes := rfl
  misuse := rfl

/-- Calls that leave the pool and the trees alone. -/
theorem Accounted.same (h : Accounted s) (hpool : s'.pool = s.pool)
    (hentries : s'.entries = s.entries) (hdatas : s'.datas = s.datas)
    (hallocated : s'.nodesAllocated = s.nodesAllocated)
    (hfreed : s'.nodesFreed = s.nodesFreed) (hmisuse : s'.misuse = s.misuse) :
    Accounted s' := by
  have hsum : ∀ P, treeSum s' P = treeSum s P := fun P => by rw [treeSum, treeSum, hdatas]
  have htracked : tracked s' = tracked s := funext fun e => hsum _
  refine ⟨?_, ?_, ?_, hmisuse.trans h.misuse⟩
  · rw [hdatas]; exact h.emptied
  · rw [htracked]; exact h.pool.congr hpool hentries
  · rw [hallocated, hfreed, hsum]; exact h.nodes

theorem Accounted.frame (h : Accounted s) (hframe : TemplateFrame s s') : Accounted s' :=
  h.same hframe.pool hframe.entries hframe.datas hframe.nodesAllocated hframe.nodesFreed
    hframe.misuse

/-- A new mapping has an empty tree. -/
theorem accounted_addVma (h : Accounted s) (call : MmapCall) (t : Nat) :
    Accounted (addVma s call t) := by
  refine ⟨fun d hd hdead => ?_, ?_, ?_, h.misuse⟩
  · have hne : d ≠ s.datas.next := fun he => by
      rw [he] at hdead
      exact Bool.noConfusion ((live_alloc_self _ _).symm.trans hdead)
    have hold : s.datas.live d = false := (live_alloc_of_ne _ _ hne).symm.trans hdead
    show ((s.datas.alloc ⟨t, []⟩).val d).vaToPaMap = []
    rw [val_alloc_of_ne _ _ hne]
    exact h.emptied d (Nat.lt_of_le_of_ne (Nat.le_of_lt_succ hd) hne) hold
  · rw [tracked_addVma]; exact h.pool.congr rfl rfl
  · exact h.nodes.trans (congrArg (s.nodesFreed + ·)
      (total_alloc (fun x : VmaSnapshotData => x.vaToPaMap.countP _) ⟨t, []⟩).symm)

/-! ## The sum over the trees and the sum over the VMAs -/

section Sums

variable (ho : Owned s) (h : Accounted s)
include ho h

/-- Only the trees of the live VMAs have nodes. -/
theorem treeSum_eq (P : VaToPaEntry → Bool) :
    treeSum s P = ∑ d ∈ (s.vmas.map Vma.vmPrivateData).toFinset,
      (s.datas.val d).vaToPaMap.countP P := by
  rw [treeSum, Heap.total]
  refine (Finset.sum_subset (fun d hd => ?_) fun d hd hno => ?_).symm
  · obtain ⟨x, hx, rfl⟩ := List.mem_map.mp (List.mem_toFinset.mp hd)
    exact Finset.mem_range.mpr (ho.below _ (List.mem_map.mpr ⟨x, hx, rfl⟩))
  · have hlt := Finset.mem_range.mp hd
    have hdead := (ho.freed d hlt fun o ho' he => by
      obtain ⟨x, hx, rfl⟩ := List.mem_map.mp ho'
      exact hno (List.mem_toFinset.mpr (List.mem_map.mpr ⟨x, hx, he⟩))).1
    rw [h.emptied d hlt hdead, countP_nil]

/-- A shared tree is counted once here and once for every VMA there. -/
theorem treeSum_le_nodeSum (P : VaToPaEntry → Bool) : treeSum s P ≤ nodeSum s P := by
  have hlist : nodeSum s P = ((s.vmas.map Vma.vmPrivateData).map fun d =>
      (s.datas.val d).vaToPaMap.countP P).sum := by
    rw [List.map_map]; rfl
  rw [treeSum_eq ho h, hlist, Finset.sum_list_map_count]
  refine Finset.sum_le_sum fun d hd => ?_
  exact Nat.le_mul_of_pos_left _ (count_pos_iff.mpr (List.mem_toFinset.mp hd))

theorem treeSum_eq_nodeSum (hapart : (s.vmas.map Vma.vmPrivateData).Nodup)
    (P : VaToPaEntry → Bool) : treeSum s P = nodeSum s P := by
  rw [treeSum_eq ho h, sum_toFinset _ hapart, List.map_map]
  rfl

end Sums

/-! ## A fault -/

/-- A node for a new offset always finds its place. -/
theorem vaInsert_new (new : VaToPaEntry) :
    ∀ m : List VaToPaEntry, (∀ n ∈ m, n.vaOffset ≠ new.vaOffset) →
      ∃ m', vaInsert m new = some m' ∧ m'.Perm (new :: m) := by
  intro m
  induction m with
  | nil => intro _; exact ⟨[new], rfl, List.Perm.refl _⟩
  | cons e es ih =>
    intro hnew
    obtain ⟨m', hm', hperm⟩ := ih fun n hn => hnew n (mem_cons_of_mem e hn)
    have hne := hnew e mem_cons_self
    rw [vaInsert]
    split
    · exact ⟨new :: e :: es, rfl, List.Perm.refl _⟩
    · split
      · refine ⟨e :: m', ?_, (hperm.cons e).trans (List.Perm.swap new e es)⟩
        rw [hm']; rfl
      · omega

/-- The state after `e` was looked up or loaded: one reference of it is not recorded
    yet. -/
structure Loaded (s s' : DriverState) (e : Nat) : Prop where
  pool : PoolOk s' (update (tracked s) e (tracked s e + 1)) fun e => (tracked s e : Int)
  live : s'.entries.live e = true
  datas : s'.datas = s.datas
  misuse : s'.misuse = s.misuse
  nodesAllocated : s'.nodesAllocated = s.nodesAllocated
  nodesFreed : s'.nodesFreed = s.nodesFreed

variable {e d v : Nat} {x : Vma} {env : FaultEnv} {op : DriverOp}

theorem loaded_of_load {f : SparseFile.File} {k : UInt64} (h : Accounted s)
    (hbound : ∀ e, tracked s e < 2 ^ 32 - 1) (hload : loadEntry s f k env = (.ok e, s')) :
    Loaded s s' e := by
  rcases loadEntry_cases s f k env with ⟨e', hfind, hl⟩ | ⟨data, hnone, hl⟩ | ⟨r, hl⟩
  · cases hl.symm.trans hload
    have hlive := h.pool.live_of_find hfind
    have hb := hbound e
    exact ⟨h.pool.refEntry hlive (by omega), hlive, rfl, rfl, rfl, rfl⟩
  · cases hl.symm.trans hload
    have hok := h.pool.linkEntry hnone data
    refine ⟨?_, live_alloc_self _ _, rfl, rfl, rfl, rfl⟩
    rw [h.pool.uncounted (h.pool.fresh _ (Nat.le_refl _)).1]
    exact hok
  · cases hl.symm.trans hload

/-- The sums after the node of a fault was added to its tree. -/
theorem treeSum_track {w : DriverState} (hd : d < s.datas.next) {new : VaToPaEntry}
    {m : List VaToPaEntry} (hperm : m.Perm (new :: (s.datas.val d).vaToPaMap))
    (hdatas : w.datas = s.datas.modify d (VmaSnapshotData.setMap m)) (P : VaToPaEntry → Bool) :
    treeSum w P = treeSum s P + if P new then 1 else 0 := by
  have hchange := total_modify (fun x : VmaSnapshotData => x.vaToPaMap.countP P) hd
    (VmaSnapshotData.setMap m)
  rw [VmaSnapshotData.setMap, hperm.countP_eq, countP_cons] at hchange
  rw [treeSum, treeSum, hdatas]
  omega

/-- **A fault that records what it takes**: the node and the references come
    together. -/
theorem accounted_tracked (h : Accounted s) {off : Nat} (hd : d < s.datas.next)
    (hlive : s.datas.live d = true) (hnew : ∀ n ∈ (s.datas.val d).vaToPaMap, n.vaOffset ≠ off)
    (hload : Loaded s s' e) : Accounted (addPageRefs (trackNode s' d off e true) e 1) := by
  obtain ⟨m, hm, hperm⟩ := vaInsert_new ⟨off, e⟩ _ hnew
  have htrack : trackNode s' d off e true
      = { s' with
          nodesAllocated := s'.nodesAllocated + 1
          datas := s'.datas.modify d (VmaSnapshotData.setMap m) } := by
    rw [trackNode, if_pos rfl]
    dsimp only
    rw [hload.datas, hm]
  rw [htrack]
  have hsum := treeSum_track (w := addPageRefs { s' with
      nodesAllocated := s'.nodesAllocated + 1
      datas := s'.datas.modify d (VmaSnapshotData.setMap m) } e 1)
    hd hperm (by rw [← hload.datas]; rfl)
  have htracked : tracked (addPageRefs { s' with
      nodesAllocated := s'.nodesAllocated + 1
      datas := s'.datas.modify d (VmaSnapshotData.setMap m) } e 1)
      = update (tracked s) e (tracked s e + 1) := by
    funext e'
    rw [tracked_eq_treeSum, hsum]
    by_cases he : e' = e
    · rw [he, update_self, if_pos (beq_self_eq_true e)]; rfl
    · rw [update_of_ne he, if_neg (by simpa using Ne.symm he)]; rfl
  refine ⟨fun q hq hdead => ?_, ?_, ?_, hload.misuse.trans h.misuse⟩
  · show ((s'.datas.modify d _).val q).vaToPaMap = []
    have hdead' : s.datas.live q = false := by rw [← hload.datas]; exact hdead
    have hne : q ≠ d := fun he => by
      rw [he, hlive] at hdead'
      exact Bool.noConfusion hdead'
    rw [val_modify_of_ne _ _ hne, hload.datas]
    refine h.emptied q ?_ hdead'
    rw [← hload.datas]; exact hq
  · have hok := (hload.pool.congr (w := { s' with
      nodesAllocated := s'.nodesAllocated + 1
      datas := s'.datas.modify d (VmaSnapshotData.setMap m) })
      rfl rfl).addPageRefs hload.live 1
    have hpages : (update (fun e => (tracked s e : Int)) e (tracked s e + 1))
        = fun e' => ((update (tracked s) e (tracked s e + 1) e' : Nat) : Int) := by
      funext e'
      by_cases he : e' = e
      · rw [he, update_self, update_self]; rfl
      · rw [update_of_ne he, update_of_ne he]
    rw [htracked]
    rw [hpages] at hok
    exact hok
  · show s'.nodesAllocated + 1 = s'.nodesFreed + _
    rw [hsum, if_pos rfl, hload.nodesAllocated, hload.nodesFreed, h.nodes, Nat.add_assoc]

/-- **A fault that takes nothing**: no node, and the references are dropped on
    the error path of `vmf_insert_page`. -/
theorem accounted_rollback (h : Accounted s) (hload : Loaded s s' e) :
    Accounted (snapshotPoolUnref (addPageRefs (addPageRefs s' e 1) e (-1)) e) := by
  have hdatas := (snapshotPoolUnref_datas (addPageRefs (addPageRefs s' e 1) e (-1)) e).trans
    hload.datas
  have hsum : ∀ P, treeSum (snapshotPoolUnref (addPageRefs (addPageRefs s' e 1) e (-1)) e) P
      = treeSum s P := fun P => by rw [treeSum, treeSum, hdatas]
  have hnodes := snapshotPoolUnref_nodes (addPageRefs (addPageRefs s' e 1) e (-1)) e
  refine ⟨?_, ?_, ?_, ?_⟩
  · rw [hdatas]; exact h.emptied
  · -- up and down again, for the entry and for its page
    have hok := ((hload.pool.addPageRefs hload.live 1).addPageRefs hload.live (-1)).unref hload.live
    rw [update_self, update_self, update_idem,
      update_idem, Nat.add_sub_cancel, Int.add_neg_cancel_right,
      update_eq_self, update_eq_self] at hok
    rw [show tracked _ = tracked s from funext fun e => hsum _]
    exact hok
  · rw [hnodes.1, hnodes.2, hsum]
    show s'.nodesAllocated = s'.nodesFreed + _
    rw [hload.nodesAllocated, hload.nodesFreed]
    exact h.nodes
  · rw [misuse_unref (s := addPageRefs (addPageRefs s' e 1) e (-1)) hload.live]
    exact hload.misuse.trans h.misuse

/-- Faults that keep the books: the node is allocated exactly when the page is
    inserted, for an address without a node, and no entry's count is about to
    wrap. -/
def CleanFault (s : DriverState) (x : Vma) (address : Nat) (env : FaultEnv) : Prop :=
  env.kmallocNode = env.insertPage
    ∧ (env.kmallocNode = true → ∀ n ∈ (s.datas.val x.vmPrivateData).vaToPaMap,
        n.vaOffset ≠ address - x.vmStart)
    ∧ ∀ e, nodeCount s e < 2 ^ 32 - 1

theorem accounted_fault (ho : Owned s) (h : Accounted s) (hx : findVma s v = some x)
    {address : Nat} (hclean : CleanFault s x address env) :
    Accounted (snapshotVmaFault s x address env).2 := by
  obtain ⟨hboth, hnew, hbound⟩ := hclean
  have hlive := (ho.held _ (mem_owners hx)).1
  rcases snapshotVmaFault_cases s x address env with
    ⟨r, s', hfault, -, hs'⟩ | ⟨pte, e, s₂, -, hload, hfault⟩
  · rw [touchData_of_live hlive] at hs'
    rw [hfault]
    rcases hs' with rfl | rfl
    · exact h
    · exact h.same rfl rfl rfl rfl rfl rfl
  · rw [touchData_of_live hlive] at hload
    have hloaded := loaded_of_load h
      (fun e => Nat.lt_of_le_of_lt (treeSum_le_nodeSum ho h _) (hbound e)) hload
    rw [hfault, mapPage]
    -- a clean fault allocates its node exactly when the page goes in
    cases hinsert : env.insertPage with
    | true =>
      rw [hinsert] at hboth
      rw [hboth, if_pos rfl]
      exact accounted_tracked h (ho.below _ (mem_owners hx)) hlive (hnew hboth) hloaded
    | false =>
      rw [hinsert] at hboth
      rw [hboth, if_neg Bool.noConfusion]
      exact accounted_rollback h hloaded

/-! ## A close -/

/-- One turn of the loop gives back one reference of the entry and one of its
    page. -/
theorem releaseNode_pool {c : Nat → Nat} {p : Nat → Int} (h : PoolOk s c p)
    {n : VaToPaEntry} (hpos : 0 < c n.physEntry) :
    PoolOk (releaseNode s n)
        (update c n.physEntry (c n.physEntry - 1))
        (update p n.physEntry (p n.physEntry + -1))
      ∧ (releaseNode s n).misuse = s.misuse
      ∧ (releaseNode s n).nodesAllocated = s.nodesAllocated
      ∧ (releaseNode s n).nodesFreed = s.nodesFreed + 1 := by
  have hlive := h.live_of_count hpos
  have hput := h.addPageRefs hlive (-1)
  have hnodes := snapshotPoolUnref_nodes (addPageRefs s n.physEntry (-1)) n.physEntry
  refine ⟨(hput.unref hlive).congr rfl rfl, ?_, hnodes.1, congrArg (· + 1) hnodes.2⟩
  exact misuse_unref (s := addPageRefs s n.physEntry (-1)) hlive

/-- **The loop of a close** gives back what its nodes stand for. -/
theorem releaseNodes_pool (nodes : List VaToPaEntry) :
    ∀ (s : DriverState) (c : Nat → Nat),
      PoolOk s (fun e => c e + nodes.countP fun n => n.physEntry == e)
        (fun e => ((c e + nodes.countP fun n => n.physEntry == e : Nat) : Int)) →
      PoolOk (nodes.foldl releaseNode s) c (fun e => (c e : Int))
        ∧ (nodes.foldl releaseNode s).misuse = s.misuse
        ∧ (nodes.foldl releaseNode s).nodesAllocated = s.nodesAllocated
        ∧ (nodes.foldl releaseNode s).nodesFreed = s.nodesFreed + nodes.length := by
  induction nodes with
  | nil => intro s c h; exact ⟨h, rfl, rfl, rfl⟩
  | cons n ns ih =>
    intro s c h
    -- the books after the first node count it no longer
    have hcons : ∀ e, (n :: ns).countP (fun m => m.physEntry == e)
        = ns.countP (fun m => m.physEntry == e) + if e = n.physEntry then 1 else 0 := by
      intro e
      rw [countP_cons]
      by_cases he : e = n.physEntry
      · rw [if_pos he, if_pos (by rw [he]; exact beq_self_eq_true _)]
      · rw [if_neg he, if_neg (by simpa using Ne.symm he)]
    obtain ⟨hpool, hmisuse, hallocated, hfreed⟩ := releaseNode_pool h
      (by rw [hcons, if_pos rfl]; omega)
    have hrest := ih (releaseNode s n) c ?_
    · obtain ⟨hok, hm, ha, hf⟩ := hrest
      refine ⟨hok, hm.trans hmisuse, ha.trans hallocated, ?_⟩
      rw [foldl_cons, hf, hfreed, length_cons]
      omega
    · convert hpool using 1
      · funext e
        by_cases he : e = n.physEntry
        · rw [he, update_self, hcons, if_pos rfl]; omega
        · rw [update_of_ne he, hcons, if_neg he, Nat.add_zero]
      · funext e
        by_cases he : e = n.physEntry
        · rw [he, update_self, hcons, if_pos rfl]; omega
        · rw [update_of_ne he, hcons, if_neg he, Nat.add_zero]

/-- A close empties its tree and leaves the others. -/
theorem treeSum_close (hd : x.vmPrivateData < s.datas.next)
    (hlive : s.datas.live x.vmPrivateData = true) (v : Nat) (P : VaToPaEntry → Bool) :
    treeSum s P = treeSum (snapshotVmaClose (dropVma s v) x.vmPrivateData) P
      + (s.datas.val x.vmPrivateData).vaToPaMap.countP P := by
  rw [treeSum, treeSum, snapshotVmaClose_datas (s := dropVma s v) hlive]
  exact (total_modify (fun x : VmaSnapshotData => x.vaToPaMap.countP P) hd
    (VmaSnapshotData.setMap [])).symm

theorem accounted_close (ho : Owned s) (h : Accounted s) (hx : findVma s v = some x) :
    Accounted (snapshotVmaClose (dropVma s v) x.vmPrivateData) := by
  have hlive := (ho.held _ (mem_owners hx)).1
  have hsum := treeSum_close (ho.below _ (mem_owners hx)) hlive v
  -- the books before the loop: what stays, and the nodes it is about to give back
  have htracked : tracked s = fun e =>
      tracked (snapshotVmaClose (dropVma s v) x.vmPrivateData) e
        + (s.datas.val x.vmPrivateData).vaToPaMap.countP fun n => n.physEntry == e :=
    funext fun e => hsum _
  have hbooks := h.pool
  rw [htracked] at hbooks
  obtain ⟨hpool, hmisuse, hallocated, hfreed⟩ :=
    releaseNodes_pool _ (dropVma s v) _ (hbooks.congr rfl rfl)
  -- the unref of the template does not look at pages or nodes
  have hend : TemplateFrame
      (freeData ((s.datas.val x.vmPrivateData).vaToPaMap.foldl releaseNode
        (dropVma s v)) x.vmPrivateData)
      (snapshotVmaClose (dropVma s v) x.vmPrivateData) := by
    rw [snapshotVmaClose, touchData_of_live (s := dropVma s v) hlive]
    exact snapshotTemplateUnref_frame _ _
  refine ⟨?_, hpool.congr hend.pool hend.entries, ?_, ?_⟩
  · rw [snapshotVmaClose_datas (s := dropVma s v) hlive]
    intro d hd hdead
    by_cases he : d = x.vmPrivateData
    · rw [he, val_free, val_modify_self]; rfl
    · rw [live_free_of_ne _ he] at hdead
      rw [val_free, val_modify_of_ne _ _ he]
      exact h.emptied d hd hdead
  · have hall := hsum fun _ => true
    have hn := h.nodes
    rw [countP_true] at hall
    rw [hend.nodesAllocated, hend.nodesFreed]
    show (List.foldl releaseNode (dropVma s v) _).nodesAllocated
      = (List.foldl releaseNode (dropVma s v) _).nodesFreed + _
    rw [hallocated, hfreed]
    show s.nodesAllocated = s.nodesFreed + _ + _
    omega
  · rw [hend.misuse]
    exact hmisuse.trans h.misuse

/-! ## Calls -/

/-- The calls that keep the books: faults are clean, and no delete takes the last
    template, so the pool is not cleared. -/
def Tended (s : DriverState) (op : DriverOp) (s' : DriverState) : Prop :=
  match op with
  | .ioctl (.delete _ _) _ _ => s'.templateList ≠ []
  | .fault v address env => ∀ x, findVma s v = some x → CleanFault s x address env
  | _ => True

/-- A delete that leaves a template changes only the templates. -/
theorem delete_frame {id : List UInt8} {kvmalloc : Bool}
    (hleft : (snapshotTemplateDelete s id kvmalloc).2.templateList ≠ []) :
    TemplateFrame s (snapshotTemplateDelete s id kvmalloc).2 := by
  rcases snapshotTemplateDelete_cases s id kvmalloc with
    ⟨-, h⟩ | ⟨t, -, -, h⟩ | ⟨t, -, -, h⟩
  · rw [h]; exact TemplateFrame.refl s
  · rw [h]; exact TemplateFrame.refl s
  · rw [h] at hleft ⊢
    rw [(clearPool_frame _ kvmalloc).1.templateList] at hleft
    rw [clearPool, if_neg hleft]
    exact ⟨rfl, rfl, rfl, rfl, rfl, rfl, rfl, rfl⟩

theorem accounted_step (ho : Owned s) (h : Accounted s) (hstep : driver s op = some s')
    (htended : Tended s op s') : Accounted s' := by
  obtain ⟨r, -, hmove⟩ := driverMove_of_driver hstep
  cases hmove with
  | ioctl cmd copyFromUser copyToUser =>
    cases cmd with
    | create args env =>
      cases copyFromUser with
      | false => exact h
      | true => exact h.frame (snapshotTemplateCreate_frame s args env)
    | delete id kvmalloc =>
      cases copyFromUser with
      | false => exact h
      | true => exact h.frame (delete_frame htended)
    | status id => rw [snapshotIoctl_status]; exact h
    | other => exact h
  | mmap call kzalloc =>
    rcases snapshotMmap_frame s call kzalloc with hframe | ⟨t, hframe⟩
    · exact h.frame hframe
    · exact (accounted_addVma h call t).frame hframe
  | fork v x hx =>
    have hlive := (ho.held _ (mem_owners hx)).1
    rw [snapshotVmaOpen, touchData_of_live (s := forkVma s x) hlive]
    exact h.same rfl rfl rfl rfl rfl rfl
  | split v address x hx =>
    have hlive := (ho.held _ (mem_owners hx)).1
    rw [snapshotVmaOpen, touchData_of_live (s := splitVma s x address) hlive]
    exact h.same rfl rfl rfl rfl rfl rfl
  | close v x hx => exact accounted_close ho h hx
  | fault v address env x hx => exact accounted_fault ho h hx (htended x hx)

/-! ## Runs -/

/-- What the state is meant to look like after every call. -/
structure Balanced (s : DriverState) : Prop where
  /-- The count of an entry of the pool is the number of its tracking nodes. -/
  counted : ∀ b, ∀ e ∈ s.pool.buckets b, (s.entries.val e).refCount.toNat = nodeCount s e
  /-- No entry was unreferenced after its last reference was gone. -/
  released : ∀ e, .entry e ∉ s.misuse ∧ s.entries.frees e ≤ 1
  /-- Without VMAs the pool is empty, and every entry, page and node that was
      allocated has been freed. -/
  empty : s.vmas = [] →
    (∀ b, s.pool.buckets b = []) ∧ s.pool.totalPages = 0
      ∧ (∀ e < s.entries.next, s.entries.frees e = 1 ∧ (s.entries.val e).pageRefs = 0)
      ∧ s.nodesAllocated = s.nodesFreed

/-- The calls that keep the books: no duplication, no delete, and faults that
    are clean. -/
def Clean (s : DriverState) (op : DriverOp) (_ : DriverState) : Prop :=
  match op with
  | .ioctl (.delete _ _) _ _ => False
  | .ioctl _ _ _ => True
  | .mmap _ _ => True
  | .fork _ => False
  | .split _ _ => False
  | .close _ => True
  | .fault v address env => ∀ x, findVma s v = some x → CleanFault s x address env

/-- Every VMA has a tree of its own. -/
structure Apart (s : DriverState) : Prop where
  owned : Owned s
  books : Accounted s
  apart : (s.vmas.map Vma.vmPrivateData).Nodup

theorem apart_init : Apart initState := ⟨owned_init, accounted_init, nodup_nil⟩

theorem Apart.balanced (h : Apart s) : Balanced s := by
  have hsum := treeSum_eq_nodeSum h.owned h.books h.apart
  have hpool := h.books.pool
  refine ⟨fun b e he => ?_, fun e => ⟨?_, ?_⟩, fun hvmas => ?_⟩
  · exact ((hpool.counts (hpool.live_of_mem he)).1).trans (hsum _)
  · rw [h.books.misuse]; exact not_mem_nil
  · by_cases he : e < s.entries.next
    · rw [hpool.frees e he]
      split <;> decide
    · rw [(hpool.fresh e (Nat.not_lt.mp he)).2]
      exact Nat.zero_le 1
  · have hzero : ∀ P, treeSum s P = 0 := fun P => by rw [hsum, nodeSum, hvmas]; rfl
    have hdead : ∀ e, s.entries.live e = false := by
      intro e
      cases hlive : s.entries.live e with
      | false => rfl
      | true => exact absurd (hzero _) (Nat.ne_of_gt (hpool.counts hlive).2)
    refine ⟨fun b => ?_, ?_, fun e he => ?_, ?_⟩
    · refine eq_nil_iff_forall_not_mem.mpr fun e he => ?_
      exact Bool.noConfusion ((hdead e).symm.trans (hpool.live_of_mem he))
    · have hnone : linkedEntries (coreOf s) = ∅ := by
        refine Finset.filter_eq_empty_iff.mpr fun e _ hlinked => ?_
        exact Bool.noConfusion ((hdead e).symm.trans (hpool.inv.live e hlinked))
      rw [show s.pool.totalPages = _ from hpool.inv.total, hnone]
      rfl
    · rw [hpool.frees e he, hpool.pages e he, hdead e, tracked_eq_treeSum, hzero]
      exact ⟨rfl, rfl⟩
    · rw [h.books.nodes, hzero]
      rfl

/-- Without duplications the trees stay apart. -/
theorem nodup_step (h : Apart s) (hstep : driver s op = some s') (hclean : Clean s op s') :
    (s'.vmas.map Vma.vmPrivateData).Nodup := by
  obtain ⟨r, -, hmove⟩ := driverMove_of_driver hstep
  cases hmove with
  | ioctl cmd copyFromUser copyToUser =>
    rw [(snapshotIoctl_frame s cmd copyFromUser copyToUser).vmas]; exact h.apart
  | mmap call kzalloc =>
    rcases snapshotMmap_frame s call kzalloc with hframe | ⟨t, hframe⟩
    · rw [hframe.vmas]; exact h.apart
    · rw [hframe.vmas]
      show ((s.vmas ++ [_]).map Vma.vmPrivateData).Nodup
      rw [map_append, map_singleton]
      refine nodup_append.mpr ⟨h.apart, nodup_singleton _, ?_⟩
      intro d hd d' hd' hdd
      obtain ⟨x, hx, rfl⟩ := List.mem_map.mp hd
      rw [mem_singleton.mp hd'] at hdd
      have hlt := h.owned.below (x.vmId, x.vmPrivateData) (List.mem_map.mpr ⟨x, hx, rfl⟩)
      exact Nat.ne_of_lt hlt hdd
  | fork | split => exact hclean.elim
  | close v x hx =>
    have hlive := (h.owned.held _ (mem_owners hx)).1
    rw [(snapshotVmaClose_frame (s := dropVma s v) hlive).1]
    exact h.apart.sublist (filter_sublist.map _)
  | fault v address env x hx =>
    rw [(snapshotVmaFault_frame s x address env).vmas, touchData_vmas]; exact h.apart

theorem apart_step (s : DriverState) (op : DriverOp) (s' : DriverState) (h : Apart s)
    (hstep : driver s op = some s') (hclean : Clean s op s') : Apart s' := by
  have hsole : SoleOwner s op s' := by
    rintro v x - hx y hy he
    obtain ⟨hmem, rfl⟩ := mem_of_findVma hx
    exact congrArg Vma.vmId (inj_on_of_nodup_map h.apart hy hmem he)
  have htended : Tended s op s' := by
    cases op with
    | ioctl cmd => cases cmd with
        | delete => exact hclean.elim
        | create | status | other => trivial
    | mmap | fork | split | close => trivial
    | fault => exact hclean
  exact ⟨owned_step s op s' h.owned hstep hsole, accounted_step h.owned h.books hstep htended,
    nodup_step h hstep hclean⟩

/-- **PAGE REFERENCES BALANCE** in every state of a run without duplications
    and deletes whose faults all record exactly what they take. -/
theorem page_references_balance (ops : List DriverOp)
    (h : Moves driver Clean initState ops) : States driver Balanced initState ops :=
  states_of_inv (fun _ => Apart.balanced) apart_step apart_init h

/-- A mapping, one fault and the close. -/
theorem one_fault_balances :
    States driver Balanced initState
      [sampleCreate, sampleMmap 1 0, .fault 0 0 (sampleFault 1), .close 0] := by
  refine page_references_balance _ ?_
  intro s₁ h₁
  refine ⟨trivial, ?_⟩
  intro s₂ h₂
  refine ⟨trivial, ?_⟩
  intro s₃ _
  cases some.inj h₁
  cases some.inj h₂
  refine ⟨?_, fun s₄ _ => ⟨trivial, trivial⟩⟩
  intro x hx
  cases some.inj hx
  refine ⟨rfl, (fun _ n hn => by cases hn), fun e => ?_⟩
  exact Nat.lt_of_le_of_lt (Nat.le_of_eq rfl) (by decide : 0 < 2 ^ 32 - 1)

/-- The page at address 0 after a second fault, and after the VMA is closed. -/
def refaulted : DriverState :=
  (driver (firstFault onePage onePageVma 0 1) (.fault 0 0 (sampleFault 1))).getD initState

/-- The state after the mapping is closed. -/
def leaked : DriverState := (driver refaulted (.close 0)).getD initState

theorem driver_firstFault :
    driver onePage (.fault 0 0 (sampleFault 1)) = some (firstFault onePage onePageVma 0 1) := by
  rw [driver, onePage_fault]
  rfl

/-- The page at address 0 is faulted in twice (its mapping was zapped in
    between) and the VMA is closed: nothing is mapped any more, and the page,
    its entry and a tracking node are still there. -/
theorem refault_leaks_page :
    (∃ s, exec driver initState [sampleCreate, sampleMmap 1 0,
          .fault 0 0 (sampleFault 1), .fault 0 0 (sampleFault 1), .close 0] = some s
      ∧ s.vmas = [] ∧ s.pool.buckets 1 = [0] ∧ (s.entries.val 0).refCount = 1
      ∧ (s.entries.val 0).pageRefs = 2 ∧ s.nodesAllocated = 2 ∧ s.nodesFreed = 1)
      ∧ ¬ States driver Balanced initState [sampleCreate, sampleMmap 1 0,
          .fault 0 0 (sampleFault 1), .fault 0 0 (sampleFault 1), .close 0] := by
  have hsecond : driver (firstFault onePage onePageVma 0 1) (.fault 0 0 (sampleFault 1))
      = some refaulted := rfl
  have hclose : driver refaulted (.close 0) = some leaked := rfl
  constructor
  · refine ⟨leaked, ?_, rfl, rfl, rfl, rfl, rfl, rfl⟩
    have hmapped : exec driver initState [sampleCreate, sampleMmap 1 0] = some onePage := rfl
    have hrun := exec_append (m := driver) initState [sampleCreate, sampleMmap 1 0]
      [.fault 0 0 (sampleFault 1), .fault 0 0 (sampleFault 1), .close 0]
    rw [hmapped, bind_some, exec, driver_firstFault, bind_some, exec,
      hsecond, bind_some, exec, hclose, bind_some, exec] at hrun
    exact hrun
  · rintro ⟨-, h⟩
    have hfaults := ((h _ rfl).2 onePage rfl).2 _ driver_firstFault
    have hbalanced := (hfaults.2 refaulted hsecond).1
    exact absurd (hbalanced.counted 1 0 (mem_singleton.mpr rfl)) (by decide)

end PageAccounting
