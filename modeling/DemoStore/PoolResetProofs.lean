import DemoStore.DriverInvariantProofs

/-! # Resetting the page pool

    A delete that finds the list of templates empty destroys the pool and sets it up
    again.  Nothing ties the look at the list to the reset: a template that is created in
    between can be mapped and faulted, and its pages are in the pool that goes away.

    While the list stays empty there is nothing to lose.  Without templates there is no
    mapping, so no call is in the pool and no reference is out; the pool is empty, and a
    reset changes nothing. -/

namespace DriverThreads

open List
open SparseFile ObjectHeap PageStore SnapshotDriver DriverFrame PoolSection PoolThreads TemplateUsers
  MachineRun

variable {s s' : CallState}

/-! ## The reset -/

variable {w w' : ThreadState} {f : Nat → Nat} {c : Call} {d : DriverState} {e : Nat} {a : Label}
  {l : Nat × Label}

section Reset

variable {i : Nat} {pool : GlobalPagePool}

/-- **Without templates nothing is mapped**, no call is in the pool and no reference is
    out. -/
theorem CallsInv.quiet (h : CallsInv s) (hnil : s.d.templateList = []) :
    (∀ j, s.pcs j = .idle) ∧ ∀ e, count s.refs (tracked s.d) e = 0 := by
  have hdead : ∀ p, s.d.datas.live p = false := by
    intro p
    by_contra hlive
    rw [Bool.not_eq_false] at hlive
    have hin : p ∈ mappings s.d (s.d.datas.val p).template :=
      mem_mappings.mpr ⟨h.data.below p hlive, hlive, rfl⟩
    have hpos : 0 < users s.d s.finds (s.d.datas.val p).template :=
      Nat.lt_of_lt_of_le (Finset.card_pos.mpr ⟨p, hin⟩) (Nat.le_add_right _ _)
    have hlisted := h.templates.listed _ hpos
    rw [hnil] at hlisted
    cases hlisted
  have hfault : ∀ j p, work (s.calls j) ≠ .fault p := by
    intro j p hj
    have hwork := h.works j
    rw [hj] at hwork
    obtain ⟨-, x, hx, -⟩ := hwork
    exact Bool.noConfusion ((h.data.live x hx).symm.trans (hdead _))
  have hclose : ∀ j p, work (s.calls j) ≠ .close p := by
    intro j p hj
    have hwork := h.works j
    rw [hj] at hwork
    exact Bool.noConfusion (hwork.1.symm.trans (hdead p))
  have hplace : ∀ j, s.pcs j = .idle ∧ Holds s.refs j none := by
    intro j
    have hplace := h.place j
    cases hcall : s.calls j with
    | add p | map p | undo p => exact absurd (by rw [hcall]; rfl) (hfault j p)
    | release p e => exact absurd (by rw [hcall]; rfl) (hclose j p)
    | _ =>
      rw [hcall] at hplace
      exact hplace
  refine ⟨fun j => (hplace j).1, fun e => ?_⟩
  have htracked : tracked s.d e = 0 := by
    refine Finset.sum_eq_zero fun p _ => ?_
    rw [h.data.dead p (hdead p)]
    rfl
  rw [PoolThreads.count, nil_of_holds fun j => (hplace j).2, htracked]
  rfl

/-- **Without references a reset of the pool loses nothing.** -/
theorem inv_reset (h : Inv w f) (hzero : ∀ e, count w.refs f e = 0) {o : Bool}
    (hbuckets : pool.buckets = fun _ => []) (htotal : pool.totalPages = 0) :
    Inv ⟨⟨pool, w.core.entries, o⟩, w.pcs, w.refs⟩ f := by
  have hnone : ∀ e, ¬ Linked ⟨pool, w.core.entries, o⟩ e := by
    intro e he
    rw [Linked] at he
    dsimp only at he
    rw [hbuckets] at he
    cases he
  have hold : ∀ e, ¬ Linked w.core e := by
    intro e he
    have hpos := (h.pool.counts e he).2
    rw [hzero e] at hpos
    exact Nat.lt_irrefl 0 hpos
  refine ⟨⟨fun b e he => ?_, fun b => ?_, fun e _ he => absurd he (hnone e),
    fun e he => absurd he (hnone e), fun e he => absurd he (hnone e),
    fun e he => absurd he (hnone e), fun e _ => hzero e, ?_⟩, fun j e n hj => ?_, h.apart,
    fun j => ?_, fun e hlt hlive => ?_, fun e he => absurd he (hnone e), h.freed⟩
  · dsimp only at he
    rw [hbuckets] at he
    cases he
  · dsimp only
    rw [hbuckets]
    exact nodup_nil
  · have hempty : linkedEntries ⟨pool, w.core.entries, o⟩ = ∅ :=
      Finset.filter_eq_empty_iff.mpr fun e _ => hnone e
    rw [hempty]
    exact htotal
  · have hown := h.owned j e n hj
    exact ⟨hown.below, hown.live, hnone e, hown.pages⟩
  · have hknown := h.known j
    cases hpc : w.pcs j with
    | filled | lost | lostPage =>
      rw [hpc] at hknown
      exact hknown
    | _ => trivial
  · rcases h.accounted e hlt hlive with hl | hown
    · exact absurd hl (hold e)
    · exact .inr hown

/-- With no template the pool has no entry. -/
theorem CallsInv.empty (h : CallsInv s) (hnil : s.d.templateList = []) :
    (s.d.pool.buckets = fun _ => []) ∧ s.d.pool.totalPages = 0 := by
  have hnone : ∀ e, ¬ Linked (coreOf s.d) e := by
    intro e he
    have hpos : 0 < count s.refs (tracked s.d) e := (h.pool.pool.counts e he).2
    rw [(h.quiet hnil).2 e] at hpos
    exact Nat.lt_irrefl 0 hpos
  refine ⟨funext fun b => ?_, ?_⟩
  · refine eq_nil_iff_forall_not_mem.mpr fun e he => hnone e ?_
    exact h.pool.pool.linked_iff.mpr ⟨b, he⟩
  · have htotal : s.d.pool.totalPages = BitVec.ofNat 64 (linkedEntries (coreOf s.d)).card :=
      h.pool.pool.total
    have hempty : linkedEntries (coreOf s.d) = ∅ :=
      Finset.filter_eq_empty_iff.mpr fun e _ => hnone e
    rw [hempty] at htotal
    exact htotal

/-- **An empty pool in place of the empty pool.** -/
theorem CallsInv.resets (h : CallsInv s) {oops : Bool} (hnil : s.d.templateList = [])
    (hbuckets : pool.buckets = fun _ => []) (htotal : pool.totalPages = 0)
    (hplace : PoolPlace (s.pcs i) s.refs i c) (hwork : WorkOk s.d s.busy s.finds i (work c))
    (hclose : ∀ p, work c ≠ .close p) :
    CallsInv ⟨{ s.d with pool := pool, oops := oops }, s.pcs, s.refs,
      Function.update s.calls i c, s.busy, s.finds⟩ := by
  -- without a template there is no mapping and no reference: only the pool changes
  have hpool := inv_reset (o := oops) h.pool (h.quiet hnil).2 hbuckets htotal
  refine h.frame hpool (h.data.congr rfl rfl rfl rfl fun _ _ => rfl)
    (h.templates.congr rfl rfl rfl) (fun _ _ => rfl) (fun _ _ _ => rfl) (fun j hji hj => ?_)
    hplace ?_ (fun p hp => absurd hp (hclose p))
  · exact hj.same rfl (fun _ _ => rfl) (fun _ hp => hp) (fun _ hu => hu)
      (fun _ _ => Nat.le_refl _) (fun _ hl => hl)
  · exact hwork.same rfl (fun _ _ => rfl) (fun _ hp => hp) (fun _ hu => hu)
      (fun _ _ => Nat.le_refl _) (fun _ hl => hl)

/-- `snapshot_pool_destroy` on an empty pool. -/
theorem snapshotPoolDestroy_empty (hbuckets : d.pool.buckets = fun _ => []) :
    ∃ allocated oops, snapshotPoolDestroy d
      = { d with pool := ⟨fun _ => [], allocated, d.pool.totalPages⟩, oops := oops } := by
  have hkept : ∀ e, SnapshotDriver.destroyed d e = false := by
    intro e
    rw [SnapshotDriver.destroyed, hbuckets]
    rfl
  rw [snapshotPoolDestroy]
  split
  · refine ⟨d.pool.allocated, true, ?_⟩
    rw [← hbuckets]
  · refine ⟨false, d.oops, ?_⟩
    simp only [hkept, Bool.false_eq_true, if_false]

theorem CallsInv.destroys (h : CallsInv s) (hcall : s.calls i = .emptied) :
    CallsInv ((s.withDriver (snapshotPoolDestroy s.d)).setCall i .destroyed) := by
  have hplace := h.place i
  have hnil := h.works i
  rw [hcall] at hplace hnil
  obtain ⟨hbuckets, htotal⟩ := h.empty hnil
  obtain ⟨allocated, oops, hd⟩ := snapshotPoolDestroy_empty hbuckets
  rw [hd]
  exact h.resets (c := .destroyed) hnil rfl htotal hplace hnil (fun _ hp => by cases hp)

theorem CallsInv.inits (h : CallsInv s) (kvmalloc : Bool) (hcall : s.calls i = .destroyed) :
    CallsInv ((s.withDriver (snapshotPoolInit s.d kvmalloc)).setCall i .idle) := by
  have hplace := h.place i
  have hnil := h.works i
  rw [hcall] at hplace hnil
  have htotal := (h.empty hnil).2
  rw [snapshotPoolInit]
  split
  · exact h.resets (c := .idle) hnil rfl rfl hplace trivial (fun _ hp => by cases hp)
  · exact h.resets (c := .idle) hnil rfl htotal hplace trivial (fun _ hp => by cases hp)

end Reset

/-! ## Runs -/

/-- The pages of live mappings are in the pool, and `total_pages` counts the pool. -/
structure PoolSafe (s : CallState) : Prop where
  linked : ∀ x ∈ s.d.vmas, ∀ y ∈ (s.d.datas.val x.vmPrivateData).vaToPaMap,
    Linked (coreOf s.d) y.physEntry
  total : s.d.pool.totalPages.toNat = (linkedEntries (coreOf s.d)).card

/-- An unref unlinks linked entries only. -/
def UnlinksLinked (s : CallState) (l : Nat × Label) (s' : CallState) : Prop :=
  ∀ e, s'.pcs l.1 = .last e → s.pcs l.1 ≠ .last e → Linked (coreOf s.d) e

/-- What a step has to keep clear of: no template is listed while a delete is between
    its look at the list and the end of the reset, no template is found while a thread
    that dropped its last reference waits for the lock, the books of `map_page` are
    kept, and no count runs full. -/
structure Careful (s : CallState) (l : Nat × Label) (_ : CallState) : Prop where
  room : Room s
  list : ∀ x, s.calls l.1 = .built x → ∀ j, s.calls j ≠ .emptied ∧ s.calls j ≠ .destroyed
  find : ∀ call t, l.2 = .mmap call → mmapTarget s.d call = some t → ∀ j, s.calls j ≠ .dying t
  map : ∀ p off e env, s.calls l.1 = .map p off e env → CleanMap s.d p off env

theorem call_of_clear (h : work c = .clear) : c = .emptied ∨ c = .destroyed := by
  cases c with
  | emptied => exact .inl rfl
  | destroyed => exact .inr rfl
  | _ => cases h

theorem call_of_die {t : Nat} (h : work c = .die t) : c = .dying t := by
  cases c with
  | dying u =>
    cases h
    rfl
  | _ => cases h

theorem inv_oops (h : Inv w f) (o : Bool) : Inv { w with core := { w.core with oops := o } } f where
  pool := (h.pool.outside (w := { w.core with oops := o }) rfl (Nat.le_refl _)
    fun _ _ => ⟨rfl, rfl⟩).1
  owned j e n hj :=
    have hown := h.owned j e n hj
    ⟨hown.below, hown.live, hown.unlinked, hown.pages⟩
  apart := h.apart
  known j := by
    have hknown := h.known j
    cases hpc : w.pcs j with
    | filled | lost | lostPage =>
      rw [hpc] at hknown
      exact hknown
    | _ => trivial
  accounted := h.accounted
  pages := h.pages
  freed := h.freed

theorem CallsInv.oops (h : CallsInv s) :
    CallsInv (s.withDriver { s.d with oops := true }) where
  pool := inv_oops h.pool true
  data := h.data.congr rfl rfl rfl rfl fun _ _ => rfl
  templates := h.templates.congr rfl rfl rfl
  place := h.place
  works j := (h.works j).same rfl (fun _ _ => rfl) (fun _ hp => hp) (fun _ hu => hu)
    (fun _ _ => Nat.le_refl _) (fun _ hl => hl)
  apart := h.apart

/-- **The step.** -/
theorem CallsInv.step (h : CallsInv s) (hmove : CallMove s l.1 l.2 s') (hcareful : Careful s l s') :
    CallsInv s' := by
  obtain ⟨i, a⟩ := l
  obtain ⟨hroom, hlist, hfind, hmap⟩ := hcareful
  dsimp only at hmove hlist hfind hmap
  have hplace := h.place i
  have hwork := h.works i
  cases hmove with
  | createFail args env d hcall hd =>
    rcases hd with rfl | rfl
    · exact h
    · exact h.discard hcall
  | build args env x hcall hx =>
    rw [hcall] at hplace
    exact h.goes (c := .built x) (fun _ _ _ hp => hp) hplace hx (fun _ hp => by cases hp)
  | list ok x hcall =>
    refine h.lists hcall fun j hj => ?_
    rcases call_of_clear hj with hj | hj
    · exact (hlist x hcall j).1 hj
    · exact (hlist x hcall j).2 hj
  | notFound call hcall | faultError v address env hcall | refused id hcall => exact h
  | findRef call t hcall ht =>
    exact h.finds hroom hcall ht fun j hj => hfind call t rfl ht j (call_of_die hj)
  | mmapFail ok t call hcall => exact h.unfinds hcall
  | mmap ok t call hcall => exact h.maps hroom hcall
  | die ok t hcall =>
    rw [hcall] at hplace hwork
    exact h.unlinks (c := .idle) hwork hplace rfl
  | fault v address env x k f hcall hx =>
    rw [hcall] at hplace
    exact h.goes (c := .lookup x.vmPrivateData (address - x.vmStart) k f env)
      (fun _ _ _ hp => mem_cons_of_mem _ hp) hplace
      ⟨mem_cons_self .., x, hx, rfl⟩ (fun _ hp => by cases hp)
  | close v x hcall hx hfree => exact h.closes hcall hx hfree
  | unlink id t hcall hcount =>
    rw [hcall] at hplace
    exact h.unlinks (c := .unlinked)
      (h.templates.unused (h.templates.zero_of_check hcount)) hplace rfl
  | remain ok hcall =>
    rw [hcall] at hplace
    exact h.goes (c := .idle) (fun _ _ _ hp => hp) hplace trivial (fun _ hp => by cases hp)
  | empty ok hcall hnil =>
    rw [hcall] at hplace
    exact h.goes (c := .emptied) (fun _ _ _ hp => hp) hplace hnil (fun _ hp => by cases hp)
  | destroy ok hcall => exact h.destroys hcall
  | init kvmalloc hcall => exact h.inits kvmalloc hcall
  | oops ok => exact h.oops
  | pool ok c request w hcall hrequest hstep => exact h.afterPool hroom hcall hrequest hstep
  | loadFail ok p off k f env hcall =>
    rw [hcall] at hplace
    exact h.goes (c := .idle) (fun _ hji _ hp => mem_endFault hji hp) hplace trivial
      (fun _ hp => by cases hp)
  | loaded ok p off k f env data hcall =>
    rw [hcall] at hplace hwork
    refine h.goes (c := .add p off k data env) (fun _ _ _ hp => hp) (.inl ⟨?_, hplace.2⟩)
      hwork (fun _ hp => by cases hp)
    rw [hplace.1]
    trivial
  | map ok p off e env hcall => exact h.mapsPage hcall (hmap p off e env hcall)
  | node ok p y m hcall hm => exact h.takesNode hcall hm
  | closed ok p hcall hm => exact h.closed hcall hm

/-! ### What a step links and unlinks -/

theorem linked_addPageRefs (d : DriverState) (e e' : Nat) (n : Int) :
    Linked (coreOf (addPageRefs d e n)) e' ↔ Linked (coreOf d) e' := by
  have hhash : ((addPageRefs d e n).entries.val e').hashIdx = (d.entries.val e').hashIdx := by
    show ((d.entries.modify e (PhysPageEntry.addPageRefs n)).val e').hashIdx = _
    by_cases he : e' = e
    · rw [he, val_modify_self]
      rfl
    · rw [val_modify_of_ne _ _ he]
  show e' ∈ d.pool.buckets (hashToBucket ((addPageRefs d e n).entries.val e').hashIdx) ↔ _
  rw [hhash]
  exact Iff.rfl

theorem coreOf_trackNode (d : DriverState) (p off e : Nat) (kmallocNode : Bool) :
    coreOf (trackNode d p off e kmallocNode) = coreOf d := by
  rw [trackNode]
  split
  · dsimp only
    split
    · rfl
    · rfl
  · rfl

theorem linked_destroy (h : Linked (coreOf (snapshotPoolDestroy d)) e) : Linked (coreOf d) e := by
  rw [snapshotPoolDestroy] at h
  split at h
  · exact h
  · cases h

theorem linked_init {kvmalloc : Bool} : ¬ Linked (coreOf (snapshotPoolInit d kvmalloc)) e := by
  intro h
  rw [snapshotPoolInit] at h
  split at h
  · cases h
  · cases h

/-- A step in the pool leaves the rest of the driver alone. -/
theorem afterPool_driver (s : CallState) (i : Nat) (c : Call) (w : ThreadState) :
    ∃ calls busy, afterPool s i c w
      = ⟨(s.withThreads w).d, w.pcs, w.refs, calls,
          busy, s.finds⟩ := by
  rw [DriverThreads.afterPool]
  split
  · unfold resume
    split <;> exact ⟨_, _, rfl⟩
  · exact ⟨_, _, rfl⟩

variable {i : Nat}

/-- A step in the pool links at most one entry. -/
theorem linked_of_move {a : Action} (h : Inv w f) (h' : Inv w' f) (hmove : PoolMove w i a w') :
    ∃ x, ∀ e, e ≠ x → Linked w'.core e → Linked w.core e := by
  rcases refs_of_move hmove with hrefs | ⟨x, hrefs⟩ | ⟨x, -, hmem, hrefs⟩
  · refine ⟨0, fun e _ he => h.pool.linked_of_pos ?_⟩
    rw [← hrefs]
    exact (h'.pool.counts e he).2
  · refine ⟨x, fun e hex he => h.pool.linked_of_pos ?_⟩
    have hpos := (h'.pool.counts e he).2
    rw [hrefs, count_cons, Function.update_of_ne hex] at hpos
    exact hpos
  · refine ⟨x, fun e hex he => h.pool.linked_of_pos ?_⟩
    have hpos := (h'.pool.counts e he).2
    rw [hrefs, count_erase f hmem, Function.update_of_ne hex] at hpos
    exact hpos

/-- The last reference of an entry is given back while it is linked. -/
theorem linked_of_last {a : Action} (h : Inv w f) (hmove : PoolMove w i a w')
    (hlast : w'.pcs i = .last e) (hnot : w.pcs i ≠ .last e) : Linked w.core e := by
  have hself : ∀ p, (Function.update w.pcs i p) i = .last e → p = .last e := by
    intro p hp
    rw [Function.update_self] at hp
    exact hp
  cases hmove with
  | miss k hpc hfind => exact absurd hlast hnot
  | unrefLast e' hpc hmem hzero =>
    cases hself _ hlast
    exact h.pool.linked_of_pos (count_pos f hmem)
  | _ => cases hself _ hlast

/-- A step links at most one entry. -/
theorem CallsInv.links (h : CallsInv s) (h' : CallsInv s') (hmove : CallMove s i a s') :
    ∃ x, ∀ e, e ≠ x → Linked (coreOf s'.d) e → Linked (coreOf s.d) e := by
  cases hmove with
  | createFail args env d hcall hd =>
    rcases hd with rfl | rfl
    · exact ⟨0, fun _ _ he => he⟩
    · exact ⟨0, fun _ _ he => he⟩
  | destroy ok hcall => exact ⟨0, fun _ _ he => linked_destroy he⟩
  | init kvmalloc hcall => exact ⟨0, fun _ _ he => absurd he linked_init⟩
  | pool ok c request w hcall hrequest hstep =>
    obtain ⟨calls, busy, hs⟩ := afterPool_driver s i c w
    rw [hs] at h' ⊢
    exact linked_of_move h.pool h'.pool (move_of_step hstep)
  | map ok p off e env hcall =>
    refine ⟨0, fun e' _ he => ?_⟩
    rw [mapEntry] at he
    split at he
    · have hd := (linked_addPageRefs _ e e' 1).mp he
      rw [coreOf_trackNode] at hd
      exact hd
    · have hd := (linked_addPageRefs _ e e' 1).mp ((linked_addPageRefs _ e e' (-1)).mp he)
      rw [coreOf_trackNode] at hd
      exact hd
  | node ok p y m hcall hm =>
    refine ⟨0, fun e' _ he => ?_⟩
    rw [closeNode, hm] at he
    exact (linked_addPageRefs _ y.physEntry e' (-1)).mp he
  | _ => exact ⟨0, fun _ _ he => he⟩

theorem CallsInv.unlinksLinked (h : CallsInv s) (hmove : CallMove s i a s') :
    UnlinksLinked s (i, a) s' := by
  intro e hlast hnot
  cases hmove with
  | pool ok c request w hcall hrequest hstep =>
    obtain ⟨calls, busy, hs⟩ := afterPool_driver s i c w
    rw [hs] at hlast
    exact linked_of_last h.pool (move_of_step hstep) hlast hnot
  | map ok p off e' env hcall =>
    rw [mapEntry] at hlast
    split at hlast
    · exact absurd hlast hnot
    · exact absurd hlast hnot
  | node ok p y m hcall hm =>
    rw [closeNode, hm] at hlast
    exact absurd hlast hnot
  | _ => exact absurd hlast hnot

theorem CallsInv.card_le (h : CallsInv s) (h' : CallsInv s') (hmove : CallMove s i a s') :
    (linkedEntries (coreOf s'.d)).card ≤ (linkedEntries (coreOf s.d)).card + 1 := by
  obtain ⟨x, hx⟩ := h.links h' hmove
  have hsub : linkedEntries (coreOf s'.d) ⊆ insert x (linkedEntries (coreOf s.d)) := by
    intro e he
    have hlinked := (Finset.mem_filter.mp he).2
    by_cases hex : e = x
    · exact Finset.mem_insert.mpr (.inl hex)
    · have hold := hx e hex hlinked
      refine Finset.mem_insert.mpr (.inr (Finset.mem_filter.mpr ⟨?_, hold⟩))
      exact Finset.mem_range.mpr (h.pool.pool.below e hold)
  exact (Finset.card_le_card hsub).trans (Finset.card_insert_le _ _)

/-- What the invariant says about the pool. -/
theorem CallsInv.safe (h : CallsInv s) (hcard : (linkedEntries (coreOf s.d)).card < 2 ^ 64) :
    PoolSafe s := by
  refine ⟨fun x hx y hy => h.pool.pool.linked_of_pos ?_, ?_⟩
  · have hp := h.data.below _ (h.data.live x hx)
    have hone : 0 < (s.d.datas.val x.vmPrivateData).vaToPaMap.countP
        fun n => n.physEntry == y.physEntry :=
      countP_pos_iff.mpr ⟨y, hy, beq_self_eq_true _⟩
    have hle : (s.d.datas.val x.vmPrivateData).vaToPaMap.countP
        (fun n => n.physEntry == y.physEntry) ≤ tracked s.d y.physEntry :=
      le_total (fun x : VmaSnapshotData => x.vaToPaMap.countP _) hp
    exact Nat.lt_of_lt_of_le (Nat.lt_of_lt_of_le hone hle) (Nat.le_add_left _ _)
  · have htotal : s.d.pool.totalPages = BitVec.ofNat 64 (linkedEntries (coreOf s.d)).card :=
      h.pool.pool.total
    rw [htotal, BitVec.toNat_ofNat, Nat.mod_eq_of_lt hcard]

theorem callsInv_start : CallsInv start where
  pool := by
    have htracked : tracked initState = fun _ => 0 := rfl
    show Inv PoolThreads.start (tracked initState)
    rw [htracked]
    exact inv_start
  data := ⟨fun _ hp => (by cases hp), fun _ _ => rfl, fun _ hx => (by cases hx),
    nodup_nil, nodup_nil, fun _ hx => (by cases hx)⟩
  templates := by
    have hzero : (default : Template).refCount.toNat < 2 ^ 31 := by decide
    exact ⟨fun _ => Nat.zero_le _, fun _ => hzero, fun _ hpos => (by cases hpos),
      fun _ ht => (by cases ht)⟩
  place _ := ⟨rfl, fun _ => rfl⟩
  works _ := trivial
  apart _ _ _ h := by cases h

/-- **A careful run never loses a page of a live mapping**, unlinks linked entries only
    and keeps `total_pages` exact. -/
theorem careful_reset_keeps_pages (ls : List (Nat × Label))
    (hcareful : Moves threadStep Careful start ls) :
    States threadStep PoolSafe start ls
      ∧ Moves threadStep UnlinksLinked start ls := by
  have hstep : ∀ s l s', (CallsInv s ∧ (linkedEntries (coreOf s.d)).card < 2 ^ 64) →
      threadStep s l = some s' → Careful s l s' →
      CallsInv s' ∧ (linkedEntries (coreOf s'.d)).card < 2 ^ 64 := by
    rintro s l s' ⟨h, -⟩ hl hg
    have hmove := callMove_of_step hl
    have h' := h.step hmove hg
    exact ⟨h', Nat.lt_of_le_of_lt (h.card_le h' hmove) hg.room.total⟩
  have hstart : CallsInv start
      ∧ (linkedEntries (coreOf start.d)).card < 2 ^ 64 :=
    ⟨callsInv_start, by decide⟩
  refine ⟨states_of_inv (fun s h => h.1.safe h.2) hstep hstart hcareful, ?_⟩
  refine moves_of_inv
    (I := fun s => CallsInv s ∧ (linkedEntries (coreOf s.d)).card < 2 ^ 64)
    (fun s l s' h hl hg => ?_) ls _ hstart hcareful
  exact ⟨hstep s l s' h hl hg, h.1.unlinksLinked (callMove_of_step hl)⟩

/-- The unref of an entry's last reference, linked or not. -/
theorem step_unrefLast {p : Nat} (ok : Bool) (hcall : s.calls i = .release p e)
    (hpool : s.d.pool.allocated = true) (hpc : s.pcs i = .idle) (hmem : (i, e) ∈ s.refs)
    (hone : (s.d.entries.val e).refCount = 1) :
    threadStep s (i, .go ok) = some (s.withThreads
      (s.threads.drop i e (.last e) (unlink (decRef s.threads.core e) e))) := by
  have hzero : ((decRef s.threads.core e).entries.val e).refCount = 0 := by
    show ((s.d.entries.modify e (PhysPageEntry.addRef (-1))).val e).refCount = 0
    rw [val_modify_self, refCount_addRef, hone]
    decide
  have hstep : poolStep s.threads (i, nextAction (.unref e) ok (s.pcs i))
      = some (s.threads.drop i e (.last e) (unlink (decRef s.threads.core e) e)) := by
    rw [poolStep]
    show pcStep s.threads i (s.pcs i) (nextAction (.unref e) ok (s.pcs i)) = _
    rw [hpc, nextAction, pcStep, if_pos hzero]
    exact if_pos hmem
  have hlast : (s.threads.drop i e (.last e) (unlink (decRef s.threads.core e) e)).pcs i
      = .last e := Function.update_self _ _ _
  rw [threadStep, hcall]
  show poolCall s i (.release p e) (.unref e) ok = _
  rw [poolCall, hpool, if_neg (by simp), hstep, Option.map_some, afterPool, hlast]

/-! ## Two runs

    Thread 0 creates a template and deletes it, and thread 1 creates it again, maps it and
    faults.  After the whole delete this goes well; in the second run thread 0 is still
    between its look at the list and the reset. -/

/-- A create, and a delete up to the look at the list. -/
def deleteCalls : List (Nat × Label) :=
  [(0, .create (sampleArgs sampleId) sampleEnv), (0, .go true), (0, .delete sampleId), (0, .go true)]

/-- The reset at the end of the delete. -/
def resetCalls : List (Nat × Label) := [(0, .go true), (0, .go true)]

/-- Thread 1 creates the template again, maps it and faults, up to the read of the
    page. -/
def faultCalls : List (Nat × Label) :=
  [(1, .create (sampleArgs sampleId) sampleEnv), (1, .go true), (1, .mmap (sampleCall 1 0)),
    (1, .go true), (1, .fault 0 0 (sampleFault 1)), (1, .go true)]

/-- The page goes into the pool and is mapped. -/
def addSteps : List (Nat × Label) := List.replicate 5 (1, .go true)

/-- The close of the VMA up to the unref of its page. -/
def closeCalls : List (Nat × Label) := [(1, .close 0), (1, .go true), (1, .go true)]

/-- The state after a run. -/
def stateAfter (s : CallState) (ls : List (Nat × Label)) : CallState :=
  (exec threadStep s ls).getD start

/-- The page has been read after the calls `ls`. -/
def adding (ls : List (Nat × Label)) (data : List UInt8) : CallState :=
  (stateAfter start (ls ++ faultCalls)).setCall 1 (.add 0 0 1 data (sampleFault 1))

/-- The read of the page. -/
theorem step_load (hcall : s.calls 1 = .load 0 0 1 SparseFile.empty (sampleFault 1)) :
    threadStep s (1, .go true)
      = some (s.setCall 1 (.add 0 0 1 (List.replicate pageSize 0) (sampleFault 1))) := by
  rw [threadStep, hcall]
  show some (loadPage s 1 0 0 1 SparseFile.empty (sampleFault 1)) = _
  have hprobe : probePages ((sampleFault 1).kernelRead SparseFile.empty) hashModulus 1
      maxProbeCount ((1 : UInt64).toNat % hashModulus) = _ :=
    probePages_sample SparseFile.empty 1 _ 63 _
  rw [loadPage, if_neg Bool.noConfusion, hprobe]

/-! ### After the delete -/

/-- Nothing is near the end of its word. -/
theorem room_of_few (hrefs : s.refs.length + s.d.datas.total (·.vaToPaMap.length) ≤ 9)
    (htemplates : ∀ t, (s.d.templates.val t).refCount.toNat ≤ 9)
    (hentries : s.d.entries.next ≤ 9) : Room s where
  entries e := by
    have hle : s.refs.countP (fun r => r.2 == e) ≤ s.refs.length := countP_le_length
    have htracked : tracked s.d e ≤ s.d.datas.total (·.vaToPaMap.length) :=
      Finset.sum_le_sum fun _ _ => countP_le_length
    rw [PoolThreads.count]
    omega
  templates t := by
    have hle := htemplates t
    omega
  total := by
    have hle : (linkedEntries (coreOf s.d)).card ≤ (Finset.range s.d.entries.next).card :=
      Finset.card_filter_le _ _
    rw [Finset.card_range] at hle
    omega

/-- A step with few counts that lists or finds a template beside idle threads only. -/
theorem careful_of_few (hrefs : s.refs.length + s.d.datas.total (·.vaToPaMap.length) ≤ 9)
    (htemplates : ∀ t, (s.d.templates.val t).refCount.toNat ≤ 9) (hentries : s.d.entries.next ≤ 9)
    (hlist : ∀ x, s.calls l.1 = .built x → ∀ j, s.calls j = .idle ∨ s.calls j = .built x)
    (hfind : ∀ call, l.2 = .mmap call → ∀ j, s.calls j = .idle)
    (hmap : ∀ p off e env, s.calls l.1 = .map p off e env → CleanMap s.d p off env) :
    Careful s l s' where
  room := room_of_few hrefs htemplates hentries
  list x hx j := by
    rcases hlist x hx j with hj | hj <;> rw [hj] <;> exact ⟨by simp, by simp⟩
  find call t hl _ j := by
    rw [hfind call hl j]
    simp
  map := hmap

theorem careful_adding (data : List UInt8) : Moves threadStep Careful
    (adding (deleteCalls ++ resetCalls) data) (addSteps ++ closeCalls) := by
  iterate 7
    refine moves_cons rfl (careful_of_few (Nat.le_of_ble_eq_true rfl) (fun t => by
        rcases t with _ | _ | t <;> exact Nat.le_of_ble_eq_true rfl) (Nat.le_of_ble_eq_true rfl)
      (fun x hx j => by cases hx) (fun call hl j => by cases hl) (fun _ _ _ _ hc => ?_)) ?_
    · -- the tree is empty when the page is mapped
      first
        | (cases hc; done)
        | (cases hc; exact ⟨rfl, fun _ y hy => by cases hy⟩)
  refine moves_cons (step_unrefLast true rfl rfl rfl mem_cons_self rfl)
    (careful_of_few (Nat.le_of_ble_eq_true rfl) (fun t => by
        rcases t with _ | _ | t <;> exact Nat.le_of_ble_eq_true rfl) (Nat.le_of_ble_eq_true rfl)
      (fun x hx j => by cases hx) (fun call hl j => by cases hl) (fun _ _ _ _ hc => by cases hc))
    trivial

/-- The two threads one after the other. -/
def safeCalls : List (Nat × Label) :=
  (deleteCalls ++ resetCalls ++ faultCalls) ++ (1, .go true) :: (addSteps ++ closeCalls)

theorem safeCalls_careful : Moves threadStep Careful start safeCalls := by
  iterate 12
    refine moves_cons rfl (careful_of_few (by decide) (fun t => by
        rcases t with _ | _ | t <;> exact Nat.le_of_ble_eq_true rfl) (by decide)
      (fun x hx j => ?_) (fun call hl j => ?_) (fun _ _ _ _ hc => by cases hc)) ?_
    · first
        | (cases hx; done)
        | (cases hx; rcases j with _ | _ | j <;> first | exact .inl rfl | exact .inr rfl)
    · first
        | (cases hl; done)
        | (rcases j with _ | _ | j <;> rfl)
  exact moves_cons (step_load rfl) (careful_of_few (by decide) (fun t => by
      rcases t with _ | _ | t <;> exact Nat.le_of_ble_eq_true rfl) (by decide)
    (fun x hx j => by cases hx) (fun call hl j => by cases hl) (fun _ _ _ _ hc => by cases hc))
    (careful_adding _)

/-- A page is mapped after a reset, and unlinked by the close of its VMA. -/
theorem alone_keeps_pages :
    States threadStep PoolSafe start safeCalls
      ∧ Moves threadStep UnlinksLinked start safeCalls :=
  careful_reset_keeps_pages safeCalls safeCalls_careful

/-! ### During the delete -/

/-- The page is mapped, thread 0 still about to reset the pool. -/
def mapped (data : List UInt8) : CallState := stateAfter (adding deleteCalls data) addSteps

theorem exec_mapped :
    exec threadStep start ((deleteCalls ++ faultCalls) ++ (1, .go true) :: addSteps)
      = some (mapped (List.replicate pageSize 0)) := by
  have hfault : exec threadStep start (deleteCalls ++ faultCalls)
      = some (stateAfter start (deleteCalls ++ faultCalls)) := rfl
  have hadd : ∀ data, exec threadStep (adding deleteCalls data) addSteps = some (mapped data) :=
    fun _ => rfl
  rw [exec_append, hfault, Option.bind_some, exec, step_load rfl, Option.bind_some]
  exact hadd _

/-- The pool has been reset. -/
def lost (data : List UInt8) : CallState := stateAfter (mapped data) resetCalls

/-- The VMA is about to give the page back. -/
def closing (data : List UInt8) : CallState :=
  stateAfter (lost data) [(1, .close 0), (1, .go true)]

/-- Its entry is unlinked a second time. -/
def closed (data : List UInt8) : CallState :=
  (closing data).withThreads ((closing data).threads.drop 1 0 (.last 0)
    (unlink (decRef (closing data).threads.core 0) 0))

/-- **A template created between the look at the list and the reset** loses its page. -/
theorem create_during_reset :
    ∃ s s₁ s₂ s₃,
      exec threadStep start ((deleteCalls ++ faultCalls) ++ (1, .go true) :: addSteps) = some s
      ∧ exec threadStep s [(0, .go true), (0, .go true)] = some s₁
      ∧ ¬ PoolSafe s₁ ∧ exec threadStep s₁ [(1, .close 0), (1, .go true)] = some s₂
      ∧ threadStep s₂ (1, .go true) = some s₃ ∧ ¬ UnlinksLinked s₂ (1, .go true) s₃
      ∧ s₃.d.pool.totalPages.toNat = 2 ^ 64 - 1 ∧ s₃.d.oops = true := by
  have hreset : ∀ data, exec threadStep (mapped data) resetCalls = some (lost data) := fun _ => rfl
  have hclose : ∀ data, exec threadStep (lost data) [(1, .close 0), (1, .go true)]
      = some (closing data) := fun _ => rfl
  have hunref : ∀ data, threadStep (closing data) (1, .go true) = some (closed data) := fun _ =>
    step_unrefLast true rfl rfl rfl mem_cons_self rfl
  refine ⟨_, lost _, closing _, closed _, exec_mapped, hreset _, fun hsafe => ?_, hclose _,
    hunref _, fun hunlinks => ?_, ?_, ?_⟩
  · -- the tree still points to an entry that is in no bucket
    cases hsafe.linked ⟨0, 0, pageSize, 0, 0, sampleCall 1 0, 1⟩ mem_cons_self ⟨0, 0⟩
      mem_cons_self
  · refine absurd (hunlinks 0 rfl ?_) not_mem_nil
    show (Pc.idle : Pc) ≠ .last 0
    simp
  · rfl
  · rfl

end DriverThreads
