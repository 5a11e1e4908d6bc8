import DemoStore.DriverFrameProofs
import DemoStore.PoolSectionProofs

/-! # The page pool between two calls

    When no pool function is running, every entry that is allocated is linked, and its
    page has the reference of the allocation and those of the mappings.  `PoolOk s c p`
    says so: `c e` counts the references of the entry `e` that are out, `p e` those of
    its page beyond the allocation's.  It is the invariant `PoolInv` of the sections of
    the pool with what holds between calls only, and each sequential function is the
    sections of `PoolSection` run in a row. -/

namespace PagePool

open ObjectHeap SnapshotDriver DriverFrame PoolSection
open Function (update update_eq_self update_of_ne update_self)

variable {s s' : DriverState} {c : Nat → Nat} {p : Nat → Int} {e : Nat} {k : UInt64}

/-- The pool between two calls. -/
structure PoolOk (s : DriverState) (c : Nat → Nat) (p : Nat → Int) : Prop where
  inv : PoolInv (coreOf s) c
  linked : ∀ e, s.entries.live e = true → Linked (coreOf s) e
  fresh : s.entries.Fresh
  pages : ∀ e < s.entries.next,
    (s.entries.val e).pageRefs = (if s.entries.live e then 1 else 0) + p e
  noPages : ∀ e, s.entries.next ≤ e → p e = 0
  frees : ∀ e < s.entries.next, s.entries.frees e = if s.entries.live e then 0 else 1

theorem poolOk_init : PoolOk initState (fun _ => 0) (fun _ => 0) where
  inv := {
    inPlace := fun _ _ h => by cases h
    nodup := fun _ => List.nodup_nil
    unique := fun _ _ h => by cases h
    below := fun _ h => by cases h
    live := fun _ h => by cases h
    counts := fun _ h => by cases h
    uncounted := fun _ _ => rfl
    total := rfl }
  linked _ h := by cases h
  fresh _ _ := ⟨rfl, rfl⟩
  pages _ h := absurd h (Nat.not_lt_zero _)
  noPages _ _ := rfl
  frees _ h := absurd h (Nat.not_lt_zero _)

/-- `PoolOk` looks at the pool and its entries only. -/
theorem PoolOk.congr {w : DriverState} (h : PoolOk s c p) (hpool : w.pool = s.pool)
    (hentries : w.entries = s.entries) : PoolOk w c p := by
  obtain ⟨hinv, h1, h2, h3, h4, h5⟩ := h
  have hlinked : ∀ e, Linked (coreOf w) e ↔ Linked (coreOf s) e := by
    intro e
    show e ∈ w.pool.buckets (hashToBucket (w.entries.val e).hashIdx) ↔ _
    rw [hpool, hentries]
    exact Iff.rfl
  refine ⟨(hinv.outside (w := coreOf w) hpool ?_ fun e _ => ?_).1,
    fun e he => (hlinked e).mpr (h1 e ?_), ?_, ?_, ?_, ?_⟩
  · exact Nat.le_of_eq (congrArg Heap.next hentries.symm)
  · exact ⟨congrArg (Heap.val · e) hentries, congrArg (Heap.live · e) hentries⟩
  all_goals rw [hentries] at *; assumption

theorem PoolOk.live_of_mem (h : PoolOk s c p) {b : Nat} (he : e ∈ s.pool.buckets b) :
    s.entries.live e = true :=
  h.inv.live e (h.inv.linked_iff.mpr ⟨b, he⟩)

theorem PoolOk.lt_of_live (h : PoolOk s c p) (he : s.entries.live e = true) :
    e < s.entries.next :=
  h.inv.below e (h.linked e he)

theorem PoolOk.live_of_find (h : PoolOk s c p) (he : poolFind s k = some e) :
    s.entries.live e = true :=
  h.live_of_mem (List.mem_of_find?_eq_some he)

/-- A reference that is out keeps its entry allocated. -/
theorem PoolOk.live_of_count (h : PoolOk s c p) (hpos : 0 < c e) : s.entries.live e = true :=
  h.inv.live e (h.inv.linked_of_pos hpos)

/-- No reference is out on an entry that is not allocated. -/
theorem PoolOk.uncounted (h : PoolOk s c p) (he : s.entries.live e = false) : c e = 0 :=
  h.inv.uncounted e fun hl => Bool.noConfusion (he.symm.trans (h.inv.live e hl))

theorem PoolOk.counts (h : PoolOk s c p) (he : s.entries.live e = true) :
    (s.entries.val e).refCount.toNat = c e ∧ 0 < c e :=
  h.inv.counts e (h.linked e he)

theorem PoolOk.pages_of_live (h : PoolOk s c p) (he : s.entries.live e = true) :
    (s.entries.val e).pageRefs = 1 + p e := by
  have hpages := h.pages e (h.lt_of_live he)
  rw [he, if_pos rfl] at hpages
  exact hpages

/-! ## Changing one entry -/

/-- An entry that stays linked changes its two counts. -/
theorem PoolOk.modify (h : PoolOk s c p) (he : s.entries.live e = true)
    {g : PhysPageEntry → PhysPageEntry} {k : Nat} {n : Int}
    (hhash : (g (s.entries.val e)).hashIdx = (s.entries.val e).hashIdx)
    (hk : (g (s.entries.val e)).refCount.toNat = k ∧ 0 < k)
    (hn : (g (s.entries.val e)).pageRefs = 1 + n) :
    PoolOk { s with entries := s.entries.modify e g } (update c e k)
      (update p e n) := by
  obtain ⟨hinv, hlinked⟩ := h.inv.counted (h.linked e he) hhash hk
  refine ⟨hinv, fun e' he' => (hlinked e').mpr (h.linked e' he'), h.fresh, ?_, ?_, h.frees⟩
  · intro e' he'
    by_cases hee : e' = e
    · have hlive : (s.entries.modify e g).live e = true := he
      rw [hee, val_modify_self, update_self, hlive, if_pos rfl]
      exact hn
    · rw [val_modify_of_ne _ _ hee, update_of_ne hee]
      exact h.pages e' he'
  · intro e' he'
    have hee : e' ≠ e := fun heq => by
      rw [heq] at he'
      exact Nat.not_lt.mpr he' (h.lt_of_live he)
    rw [update_of_ne hee]
    exact h.noPages e' he'

/-- **`atomic_inc` on a linked entry.** -/
theorem PoolOk.refEntry (h : PoolOk s c p) (he : s.entries.live e = true)
    (hbound : c e + 1 < 2 ^ 32) :
    PoolOk (refEntry s e) (update c e (c e + 1)) p := by
  have hinc := h.inv.toNat_inc (h.linked e he) hbound
  have hok := h.modify he (g := PhysPageEntry.addRef 1) rfl ⟨hinc, Nat.succ_pos _⟩
    (h.pages_of_live he)
  rw [update_eq_self] at hok
  exact hok

/-- **`get_page` and `put_page`.** -/
theorem PoolOk.addPageRefs (h : PoolOk s c p) (he : s.entries.live e = true) (n : Int) :
    PoolOk (addPageRefs s e n) c (update p e (p e + n)) := by
  have hadd : (s.entries.val e).pageRefs + n = 1 + (p e + n) := by
    rw [h.pages_of_live he, Int.add_assoc]
  have hok := h.modify he (g := PhysPageEntry.addPageRefs n) rfl (h.counts he) hadd
  rw [update_eq_self] at hok
  exact hok

/-! ## Linking and unlinking -/

/-- **`snapshot_pool_add` of a new page.** -/
theorem PoolOk.linkEntry (h : PoolOk s c p) (hfind : poolFind s k = none) (data : List UInt8) :
    PoolOk (linkEntry s k data) (update c s.entries.next 1) p := by
  -- the new entry is `s.entries.next`; everything else is as before
  have hdead : s.entries.live s.entries.next = false := (h.fresh _ (Nat.le_refl _)).1
  have hnot : ∀ e, Linked (coreOf s) e → e ≠ s.entries.next :=
    fun e he => Nat.ne_of_lt (h.inv.below e he)
  have hself : (s.entries.alloc ⟨k, data, 1, 1⟩).val s.entries.next = ⟨k, data, 1, 1⟩ :=
    val_alloc_self _ _
  let w : PoolState := { coreOf s with entries := s.entries.alloc ⟨k, data, 1, 1⟩ }
  have hcore : coreOf (SnapshotDriver.linkEntry s k data) = link w s.entries.next := by
    rw [link, show w.entries.val s.entries.next = _ from hself]
    rfl
  obtain ⟨hinv, hlinked⟩ := h.inv.outside (w := w) rfl (Nat.le_succ _) fun e he =>
    ⟨val_alloc_of_ne _ _ (hnot e he), live_alloc_of_ne _ _ (hnot e he)⟩
  have hnew : ∀ e', Linked w e' →
      (w.entries.val e').hashIdx ≠ (w.entries.val s.entries.next).hashIdx := by
    intro e' he'
    rw [hlinked] at he'
    rw [show w.entries.val s.entries.next = _ from hself,
      show w.entries.val e' = _ from val_alloc_of_ne _ _ (hnot e' he')]
    exact find_none (s := coreOf s) hfind he'
  constructor
  case inv =>
    rw [hcore]
    refine poolInv_link hinv (fun hl => hnot _ ((hlinked _).mp hl) rfl) (Nat.lt_succ_self _)
      (live_alloc_self _ _) ?_ hnew
    rw [show w.entries.val s.entries.next = _ from hself]
  case linked =>
    intro e he
    rw [hcore, linked_link]
    by_cases hee : e = s.entries.next
    · exact .inl hee
    · exact .inr ((hlinked e).mpr (h.linked e ((live_alloc_of_ne _ _ hee).symm.trans he)))
  case fresh =>
    intro e he
    have hlt : s.entries.next < e := he
    obtain ⟨hlive, hfrees⟩ := h.fresh e (Nat.le_of_lt hlt)
    exact ⟨(live_alloc_of_ne _ _ (Nat.ne_of_gt hlt)).trans hlive, hfrees⟩
  case pages =>
    intro e hlt
    show ((s.entries.alloc _).val e).pageRefs = (if (s.entries.alloc _).live e then 1 else 0) + p e
    by_cases he : e = s.entries.next
    · -- the one reference of the page is the one `alloc_page` gave
      rw [he, hself, live_alloc_self, if_pos rfl, h.noPages _ (Nat.le_refl _)]
      rfl
    · rw [val_alloc_of_ne _ _ he, live_alloc_of_ne _ _ he]
      exact h.pages e (Nat.lt_of_le_of_ne (Nat.le_of_lt_succ hlt) he)
  case noPages => exact fun e he => h.noPages e (Nat.le_of_succ_le he)
  case frees =>
    intro e hlt
    show s.entries.frees e = if (s.entries.alloc _).live e then 0 else 1
    by_cases he : e = s.entries.next
    · rw [he, live_alloc_self, if_pos rfl]
      exact (h.fresh _ (Nat.le_refl _)).2
    · rw [live_alloc_of_ne _ _ he]
      exact h.frees e (Nat.lt_of_le_of_ne (Nat.le_of_lt_succ hlt) he)

/-- The last reference of an entry, unlinked and freed. -/
theorem PoolOk.dropEntry (h : PoolOk s c p) (he : s.entries.live e = true) :
    PoolOk (dropEntry { s with entries := s.entries.modify e (PhysPageEntry.addRef (-1)) } e)
      (update c e 0) p := by
  let s₁ := SnapshotDriver.dropEntry
    { s with entries := s.entries.modify e (PhysPageEntry.addRef (-1)) } e
  have hself : s₁.entries.val e = ((s.entries.val e).addRef (-1)).addPageRefs (-1) := by
    show ((s.entries.modify e _).modify e _).val e = _
    rw [val_modify_self, val_modify_self]
  have hother : ∀ e', e' ≠ e → s₁.entries.val e' = s.entries.val e' := by
    intro e' hee
    show ((s.entries.modify e _).modify e _).val e' = _
    rw [val_modify_of_ne _ _ hee, val_modify_of_ne _ _ hee]
  have hlive : s₁.entries.live e = false := live_free_self _ _
  have hliveOther : ∀ e', e' ≠ e → s₁.entries.live e' = s.entries.live e' :=
    fun e' hee => live_free_of_ne _ hee
  obtain ⟨hinv, hlinked⟩ := poolInv_dropped h.inv (h.linked e he)
  rw [← coreOf_dropEntry] at hinv hlinked
  constructor
  case inv => exact hinv
  case linked =>
    intro e' he'
    have hee : e' ≠ e := fun heq => by
      rw [heq] at he'
      exact Bool.noConfusion (hlive.symm.trans he')
    exact (hlinked e').mpr ⟨hee, h.linked e' ((hliveOther e' hee).symm.trans he')⟩
  case fresh =>
    intro e' he'
    have hee : e' ≠ e := fun heq => by
      rw [heq] at he'
      exact Nat.not_lt.mpr he' (h.lt_of_live he)
    obtain ⟨hdead, hfrees⟩ := h.fresh e' he'
    exact ⟨(hliveOther e' hee).trans hdead, (frees_free_of_ne _ hee).trans hfrees⟩
  case pages =>
    intro e' hlt
    show (s₁.entries.val e').pageRefs = (if s₁.entries.live e' then 1 else 0) + p e'
    by_cases hee : e' = e
    · -- `put_page` gives back the reference of the allocation
      have hput : (s₁.entries.val e).pageRefs = 1 + p e + -1 := by
        rw [hself, PhysPageEntry.addPageRefs, pageRefs_addRef, h.pages_of_live he]
      rw [hee, hput, hlive, if_neg Bool.false_ne_true]
      omega
    · rw [hother e' hee, hliveOther e' hee]
      exact h.pages e' hlt
  case noPages => exact h.noPages
  case frees =>
    intro e' hlt
    show s₁.entries.frees e' = if s₁.entries.live e' then 0 else 1
    by_cases hee : e' = e
    · have hfrees : s.entries.frees e = 0 := by
        rw [h.frees e (h.lt_of_live he), he, if_pos rfl]
      rw [hee, hlive, show s₁.entries.frees e = s.entries.frees e + 1 from
        frees_free_self _ _, hfrees]
      rfl
    · rw [hliveOther e' hee]
      exact (frees_free_of_ne _ hee).trans (h.frees e' hlt)

/-- **`snapshot_pool_unref` of a linked entry.** -/
theorem PoolOk.unref (h : PoolOk s c p) (he : s.entries.live e = true) :
    PoolOk (snapshotPoolUnref s e) (update c e (c e - 1)) p := by
  have hlinked := h.linked e he
  have hiff : ((s.entries.modify e (PhysPageEntry.addRef (-1))).val e).refCount = 0 ↔ c e = 1 :=
    h.inv.dec_zero_iff hlinked
  have htouch : touchEntry e s = s := if_pos he
  rw [snapshotPoolUnref, htouch]
  dsimp only
  by_cases hone : c e = 1
  · rw [if_pos (hiff.mpr hone), hone]
    exact h.dropEntry he
  · have hpos := (h.counts he).2
    rw [if_neg fun hzero => hone (hiff.mp hzero)]
    have hpages := h.pages_of_live he
    rw [← pageRefs_addRef _ (-1)] at hpages
    have hok := h.modify he (hashIdx_addRef _ _) ⟨h.inv.toNat_dec hlinked, by omega⟩ hpages
    rw [update_eq_self] at hok
    exact hok

/-- Unreferencing a linked entry is not a misuse. -/
theorem misuse_unref (he : s.entries.live e = true) :
    (snapshotPoolUnref s e).misuse = s.misuse := by
  have htouch : touchEntry e s = s := if_pos he
  rw [snapshotPoolUnref, htouch]
  dsimp only
  split <;> rfl

end PagePool
