import DemoStore.FaultMappingProofs

/-! # Whose bytes a fault maps

    All templates share one page pool, and an entry of the pool is found by its hash
    alone.  A fault takes the entry before it looks at the template's own file, so what
    it maps was stored by whichever template was faulted first.

    Which of them that was does not matter as long as all templates in use store the
    same page under every hash they share.  A create can break this, and no other call
    can: it must not bring a template that disagrees with one in use, or with what the
    pool still holds. -/

namespace TemplateContent

open SparseFile ObjectHeap PageStore SnapshotDriver DriverFrame FaultMapping MachineRun List Option
open Function (update update_of_ne update_self)

/-! ## What a template stores -/

/-- The page that the file has under the hash, as the driver probes for it. -/
def storedUnder (f : File) (h : UInt64) : Option (List UInt8) :=
  match probePages (pread f) hashModulus h maxProbeCount (h.toNat % hashModulus) with
  | .found data => some data
  | _ => none

/-- The page table has the hash. -/
def Lists (x : Template) (h : UInt64) : Prop := ∃ pte ∈ x.pageTableCache, pte.hashIdx = h

/-- Both templates store the same under every hash that both list. -/
def Agree (x y : Template) : Prop :=
  ∀ h, Lists x h → Lists y h → storedUnder x.pagesFile h = storedUnder y.pagesFile h

/-- If the template lists the hash of the entry, it stores the entry's page there. -/
def Matches (x : Template) (entry : PhysPageEntry) : Prop :=
  Lists x entry.hashIdx → storedUnder x.pagesFile entry.hashIdx = some entry.page

/-- A template that is listed or has mappings. -/
def InUse (s : DriverState) (t : Nat) : Prop :=
  t ∈ s.templateList ∨ ∃ x ∈ s.vmas, x.mappedTemplate = t

/-- A complete `kernel_read` returns the bytes of the file. -/
def HonestReads (op : DriverOp) : Prop :=
  ∀ v address env, op = .fault v address env →
    ∀ f off n, (env.kernelRead f off n).length = n → env.kernelRead f off n = pread f off n

/-- The template that a successful create builds agrees with those in use and with the
    pool. -/
def CreateAgrees (s : DriverState) (op : DriverOp) : Prop :=
  ∀ args env copyToUser, op = .ioctl (.create args env) true copyToUser →
    (snapshotTemplateCreate s args env).1 = 0 →
    ∀ table pages, env.filpOpen (cstr args.pageTablePath) = some table →
      env.filpOpen (cstr args.pagesPath) = some pages →
      let x := newTemplate args env pages
        (env.kernelRead table 0 (args.totalSize.toNat / pageSize * 16))
      (∀ t, InUse s t → Agree (s.templates.val t) x)
        ∧ ∀ b, ∀ e ∈ s.pool.buckets b, Matches x (s.entries.val e)

/-- The template behind a VMA. -/
def templateOf (s : DriverState) (x : Vma) : Template :=
  s.templates.val (s.datas.val x.vmPrivateData).template

/-- What a fault maps is what the template's own file has under the hash of its page
    table. -/
def MapsOwnPage (s : DriverState) (op : DriverOp) (s' : DriverState) : Prop :=
  ∀ v address env x e, op = .fault v address env → findVma s v = some x →
    driverStep s op = some (.fault (.mapped e), s') →
    ∃ pte, (templateOf s x).pageTableCache[(address - x.vmStart) / pageSize]? = some pte
      ∧ storedUnder (templateOf s x).pagesFile pte.hashIdx = some (s'.entries.val e).page

variable {x y : Template} {f : File} {data : List UInt8}

theorem Agree.symm (h : Agree x y) : Agree y x := fun k hy hx => (h k hx hy).symm

/-- Only the page table and the file of a template matter. -/
theorem Matches.congr {a b : PhysPageEntry} (h : Matches x a)
    (htable : y.pageTableCache = x.pageTableCache) (hfile : y.pagesFile = x.pagesFile)
    (hhash : b.hashIdx = a.hashIdx) (hpage : b.page = a.page) : Matches y b := by
  rw [Matches, Lists, htable, hfile, hhash, hpage]
  exact h

/-- Only table and pages file matter. -/
theorem Agree.congr {x' y' : Template} (h : Agree x y)
    (hx : x'.pageTableCache = x.pageTableCache ∧ x'.pagesFile = x.pagesFile)
    (hy : y'.pageTableCache = y.pageTableCache ∧ y'.pagesFile = y.pagesFile) : Agree x' y' := by
  intro k
  rw [Lists, Lists, hx.1, hx.2, hy.1, hy.2]
  exact h k

/-- Probing through an honest kernel finds what the file stores. -/
theorem probePages_honest {kread : Nat → Nat → List UInt8}
    (hread : ∀ off n, (kread off n).length = n → kread off n = pread f off n) {h : UInt64}
    {n i : Nat} (hfound : probePages kread hashModulus h n i = .found data) :
    probePages (pread f) hashModulus h n i = .found data := by
  induction n generalizing i with
  | zero => cases hfound
  | succ n ih =>
    rw [probePages_succ] at hfound ⊢
    by_cases hheader : (kread (i * slotSize) 8).length = 8
    · rw [if_neg (not_not.mpr hheader)] at hfound
      rw [← hread _ 8 hheader, if_neg (not_not.mpr hheader)]
      by_cases hmatch : word64 (kread (i * slotSize) 8) = h
      · rw [if_pos hmatch] at hfound ⊢
        by_cases hdata : (kread (i * slotSize + 8) pageSize).length = pageSize
        · rw [← hread _ pageSize hdata]
          exact hfound
        · rw [if_pos hdata] at hfound
          cases hfound
      · rw [if_neg hmatch] at hfound ⊢
        by_cases hempty : word64 (kread (i * slotSize) 8) = 0
        · rw [if_pos hempty] at hfound
          cases hfound
        · rw [if_neg hempty] at hfound ⊢
          exact ih hfound
    · rw [if_pos hheader] at hfound
      cases hfound

/-! ## The invariant -/

/-- The templates in use agree with each other and with the pool. -/
structure Consistent (s : DriverState) : Prop where
  below : ∀ t, InUse s t → t < s.templates.next
  linked : ∀ b, ∀ e ∈ s.pool.buckets b, e < s.entries.next
  agree : ∀ t u, InUse s t → InUse s u → Agree (s.templates.val t) (s.templates.val u)
  pool : ∀ t, InUse s t → ∀ b, ∀ e ∈ s.pool.buckets b, Matches (s.templates.val t) (s.entries.val e)

section Frames

variable {s s' s'' : DriverState}

/-- The templates of `s` are in `s'` what they were. -/
structure TablesKept (s s' : DriverState) : Prop where
  next : s.templates.next ≤ s'.templates.next
  same : ∀ t < s.templates.next,
    (s'.templates.val t).pageTableCache = (s.templates.val t).pageTableCache
      ∧ (s'.templates.val t).pagesFile = (s.templates.val t).pagesFile

/-- The entries linked in `s'` were linked in `s`, with the same content. -/
structure LinksKept (s s' : DriverState) : Prop where
  next : s.entries.next ≤ s'.entries.next
  same : ∀ b, ∀ e ∈ s'.pool.buckets b, e ∈ s.pool.buckets b
    ∧ (s'.entries.val e).hashIdx = (s.entries.val e).hashIdx
    ∧ (s'.entries.val e).page = (s.entries.val e).page

theorem LinksKept.refl (s : DriverState) : LinksKept s s :=
  ⟨Nat.le_refl _, fun _ _ he => ⟨he, rfl, rfl⟩⟩

theorem LinksKept.trans (h : LinksKept s s') (h' : LinksKept s' s'') : LinksKept s s'' := by
  refine ⟨Nat.le_trans h.next h'.next, fun b e he => ?_⟩
  obtain ⟨he', hhash', hpage'⟩ := h'.same b e he
  obtain ⟨he, hhash, hpage⟩ := h.same b e he'
  exact ⟨he, hhash'.trans hhash, hpage'.trans hpage⟩

theorem LinksKept.of_eq (hpool : s'.pool = s.pool) (hentries : s'.entries = s.entries) :
    LinksKept s s' := by
  refine ⟨Nat.le_of_eq (by rw [hentries]), fun b e he => ?_⟩
  rw [hpool] at he
  rw [hentries]
  exact ⟨he, rfl, rfl⟩

/-- **What keeps templates and links keeps the invariant.** -/
theorem Consistent.kept (h : Consistent s) (htables : TablesKept s s')
    (hlinks : LinksKept s s') (huse : ∀ t, InUse s' t → InUse s t) : Consistent s' where
  below t ht := Nat.lt_of_lt_of_le (h.below t (huse t ht)) htables.next
  linked b e he := Nat.lt_of_lt_of_le (h.linked b e (hlinks.same b e he).1) hlinks.next
  agree t u ht hu :=
    (h.agree t u (huse t ht) (huse u hu)).congr
      (htables.same t (h.below t (huse t ht))) (htables.same u (h.below u (huse u hu)))
  pool t ht b e he := by
    obtain ⟨hlinked, hhash, hpage⟩ := hlinks.same b e he
    obtain ⟨htable, hfile⟩ := htables.same t (h.below t (huse t ht))
    exact (h.pool t (huse t ht) b e hlinked).congr htable hfile hhash hpage

/-- Calls that stay inside the pool. -/
theorem Consistent.pooled (h : Consistent s) (hframe : PoolFrame s s')
    (hlinks : LinksKept s s') : Consistent s' := by
  refine h.kept ⟨?_, fun t _ => ?_⟩ hlinks (fun t ht => ?_)
  · rw [hframe.templates]
  · rw [hframe.templates]
    exact ⟨rfl, rfl⟩
  · rw [InUse, hframe.templateList, hframe.vmas] at ht
    exact ht

/-- Calls that stay inside the templates. -/
theorem Consistent.templated (h : Consistent s) (hframe : TemplateFrame s s')
    (htables : TablesKept s s') (hlist : ∀ t ∈ s'.templateList, t ∈ s.templateList) :
    Consistent s' := by
  refine h.kept htables (.of_eq hframe.pool hframe.entries) (fun t ht => ?_)
  rw [InUse, hframe.vmas] at ht
  exact ht.imp_left (hlist t)

/-- A reference changes no table. -/
theorem modify_tables (s : DriverState) (t : Nat) (n : Atomic) :
    TablesKept s (addTemplateRef s t n) := by
  refine ⟨Nat.le_refl _, fun u _ => ?_⟩
  by_cases hu : u = t
  · rw [hu, addTemplateRef_self]
    exact ⟨rfl, rfl⟩
  · rw [addTemplateRef_of_ne s n hu]
    exact ⟨rfl, rfl⟩

theorem consistent_addTemplateRef (h : Consistent s) (t : Nat) (n : Atomic) :
    Consistent (addTemplateRef s t n) :=
  h.templated (addTemplateRef_frame s t n) (modify_tables s t n) (fun _ ht => ht)

/-- Removing a template keeps consistency. -/
theorem consistent_removeTemplate (h : Consistent s) (t : Nat) :
    Consistent (removeTemplate s t) := by
  refine h.templated ⟨rfl, rfl, rfl, rfl, rfl, rfl, rfl, rfl⟩
    ⟨Nat.le_refl _, fun _ _ => ⟨rfl, rfl⟩⟩ (fun u hu => ?_)
  exact mem_of_mem_erase hu

/-- An unref keeps consistency. -/
theorem consistent_templateUnref (h : Consistent s) (t : Nat) :
    Consistent (snapshotTemplateUnref s t) := by
  have hdec := consistent_addTemplateRef h t (-1)
  rw [snapshotTemplateUnref]
  split
  · exact consistent_removeTemplate hdec t
  · exact hdec

theorem consistent_touchData (h : Consistent s) (d : Nat) : Consistent (touchData d s) := by
  rw [touchData]
  split
  · exact h
  · exact h.kept ⟨Nat.le_refl _, fun _ _ => ⟨rfl, rfl⟩⟩ (.of_eq rfl rfl) (fun _ ht => ht)

/-! ### The pool -/

/-- A change of counts in one entry. -/
theorem modify_links (s : DriverState) (e : Nat) {g : PhysPageEntry → PhysPageEntry}
    (hg : ∀ x, (g x).hashIdx = x.hashIdx ∧ (g x).page = x.page) :
    LinksKept s { s with entries := s.entries.modify e g } := by
  refine ⟨Nat.le_refl _, fun b e' he' => ⟨he', ?_⟩⟩
  show ((s.entries.modify e g).val e').hashIdx = _ ∧ ((s.entries.modify e g).val e').page = _
  by_cases he : e' = e
  · rw [he, val_modify_self]
    exact hg _
  · rw [val_modify_of_ne _ _ he]
    exact ⟨rfl, rfl⟩

theorem addRef_links (s : DriverState) (e : Nat) (n : Atomic) :
    LinksKept s { s with entries := s.entries.modify e (PhysPageEntry.addRef n) } :=
  modify_links s e (fun _ => ⟨rfl, rfl⟩)

theorem addPageRefs_links (s : DriverState) (e : Nat) (n : Int) :
    LinksKept s (addPageRefs s e n) :=
  modify_links s e (fun _ => ⟨rfl, rfl⟩)

/-- A bucket loses an entry. -/
theorem dropEntry_links (s : DriverState) (e : Nat) : LinksKept s (dropEntry s e) := by
  have hmodify := modify_links s e (g := PhysPageEntry.addPageRefs (-1)) (fun _ => ⟨rfl, rfl⟩)
  refine ⟨Nat.le_refl _, fun b e' he' => ?_⟩
  have hmem : e' ∈ s.pool.buckets b := by
    have hupdate : e' ∈ update s.pool.buckets
        (hashToBucket (s.entries.val e).hashIdx)
        ((s.pool.buckets (hashToBucket (s.entries.val e).hashIdx)).erase e) b := he'
    by_cases hb : b = hashToBucket (s.entries.val e).hashIdx
    · rw [hb, update_self] at hupdate
      rw [hb]
      exact mem_of_mem_erase hupdate
    · rw [update_of_ne hb] at hupdate
      exact hupdate
  exact hmodify.same b e' hmem

/-- A release links nothing. -/
theorem snapshotPoolUnref_links (s : DriverState) (e : Nat) :
    LinksKept s (snapshotPoolUnref s e) := by
  have htouch : LinksKept s (touchEntry e s) := by
    rw [touchEntry]
    split
    · exact .refl s
    · exact .of_eq rfl rfl
  have hdec := htouch.trans (addRef_links (touchEntry e s) e (-1))
  rw [snapshotPoolUnref]
  dsimp only
  split
  · exact hdec.trans (dropEntry_links _ e)
  · exact hdec

/-- The releases of a close link nothing. -/
theorem releaseNodes_links (nodes : List VaToPaEntry) (s : DriverState) :
    LinksKept s (nodes.foldl releaseNode s) := by
  induction nodes generalizing s with
  | nil => exact .refl s
  | cons node nodes ih =>
    have hunref := (addPageRefs_links s node.physEntry (-1)).trans
      (snapshotPoolUnref_links _ node.physEntry)
    have hnode : LinksKept s (releaseNode s node) := ⟨hunref.next, hunref.same⟩
    exact hnode.trans (ih _)

/-- Mapping a page links nothing. -/
theorem mapPage_links (s : DriverState) (d off e : Nat) (env : FaultEnv) :
    LinksKept s (mapPage s d off e env).2 := by
  have htrack : LinksKept s (trackNode s d off e env.kmallocNode) := by
    rw [trackNode]
    split
    · dsimp only
      split <;> exact .of_eq rfl rfl
    · exact .refl s
  have hget := htrack.trans (addPageRefs_links _ e 1)
  rw [mapPage]
  split
  · exact hget
  · exact hget.trans ((addPageRefs_links _ e (-1)).trans (snapshotPoolUnref_links _ e))

/-- After a reset nothing is linked. -/
theorem clearPool_links (s : DriverState) (kvmalloc : Bool) :
    LinksKept s (clearPool s kvmalloc) := by
  have hempty : ∀ s : DriverState, ∀ b, (snapshotPoolInit s kvmalloc).pool.buckets b = [] := by
    intro s b
    rw [snapshotPoolInit]
    split <;> rfl
  have hnext : (snapshotPoolInit (snapshotPoolDestroy s) kvmalloc).entries.next
      = s.entries.next := by
    rw [snapshotPoolInit, snapshotPoolDestroy]
    split <;> split <;> rfl
  rw [clearPool]
  split
  · refine ⟨Nat.le_of_eq hnext.symm, fun b e he => ?_⟩
    rw [hempty] at he
    cases he
  · exact .refl s

/-! ### VMAs -/

theorem consistent_vmas (h : Consistent s) {vmas : List Vma} {datas : Heap VmaSnapshotData}
    {nextVma : Nat} (hvmas : ∀ x ∈ vmas, InUse s x.mappedTemplate) :
    Consistent { s with vmas := vmas, datas := datas, nextVma := nextVma } := by
  refine h.kept ⟨Nat.le_refl _, fun _ _ => ⟨rfl, rfl⟩⟩ (.of_eq rfl rfl) ?_
  rintro t (ht | ⟨x, hx, rfl⟩)
  · exact .inl ht
  · exact hvmas x hx

theorem inUse_of_mem {x : Vma} (hx : x ∈ s.vmas) : InUse s x.mappedTemplate := .inr ⟨x, hx, rfl⟩

variable {t e : Nat} {k : UInt64} {env : FaultEnv} {copyToUser : Bool}

/-- A new mapping keeps consistency. -/
theorem consistent_addVma (h : Consistent s) (call : MmapCall) (ht : t ∈ s.templateList) :
    Consistent (addVma s call t) := by
  refine consistent_vmas h (fun x hx => ?_)
  rcases mem_append.mp hx with hx | hx
  · exact inUse_of_mem hx
  · cases mem_singleton.mp hx
    exact .inl ht

theorem consistent_forkVma (h : Consistent s) {x : Vma} (hx : x ∈ s.vmas) :
    Consistent (forkVma s x) := by
  refine consistent_vmas h (fun y hy => ?_)
  rcases mem_append.mp hy with hy | hy
  · exact inUse_of_mem hy
  · cases mem_singleton.mp hy
    exact .inr ⟨x, hx, rfl⟩

theorem consistent_splitVma (h : Consistent s) {x : Vma} (hx : x ∈ s.vmas) (address : Nat) :
    Consistent (splitVma s x address) := by
  refine consistent_vmas h (fun y hy => ?_)
  rcases mem_append.mp hy with hy | hy
  · obtain ⟨z, hz, rfl⟩ := List.mem_map.mp hy
    have hsame : (Vma.cutAt x.vmId address z).mappedTemplate = z.mappedTemplate := by
      rw [Vma.cutAt]
      split <;> rfl
    rw [hsame]
    exact inUse_of_mem hz
  · cases mem_singleton.mp hy
    exact .inr ⟨x, hx, rfl⟩

theorem consistent_open (h : Consistent s) (d : Nat) : Consistent (snapshotVmaOpen s d) :=
  consistent_addTemplateRef (consistent_touchData h d) _ 1

/-- A close keeps consistency. -/
theorem consistent_close (h : Consistent s) (d : Nat) : Consistent (snapshotVmaClose s d) := by
  have htouch := consistent_touchData h d
  rw [snapshotVmaClose]
  generalize touchData d s = s₁ at htouch ⊢
  have hnodes := htouch.pooled (releaseNodes_frame (s₁.datas.val d).vaToPaMap s₁)
    (releaseNodes_links (s₁.datas.val d).vaToPaMap s₁)
  have hfree : Consistent (freeData ((s₁.datas.val d).vaToPaMap.foldl releaseNode s₁) d) :=
    consistent_vmas hnodes (fun x hx => inUse_of_mem hx)
  exact consistent_templateUnref hfree _

/-! ## The steps that bring something new -/

/-- A discarded template was never in use. -/
theorem consistent_discard (h : Consistent s) : Consistent (discardTemplate s) := by
  refine h.templated ⟨rfl, rfl, rfl, rfl, rfl, rfl, rfl, rfl⟩ ⟨Nat.le_succ _, fun t ht => ?_⟩
    (fun _ ht => ht)
  have hval : (discardTemplate s).templates.val t = s.templates.val t :=
    val_alloc_of_ne s.templates default (Nat.ne_of_lt ht)
  rw [hval]
  exact ⟨rfl, rfl⟩

/-- A created template keeps the invariant if it agrees with what there is. -/
theorem consistent_created (h : Consistent s)
    (hagree : ∀ t, InUse s t → Agree (s.templates.val t) x)
    (hpool : ∀ b, ∀ e ∈ s.pool.buckets b, Matches x (s.entries.val e)) :
    Consistent (created s x) := by
  have huse : ∀ t, InUse (created s x) t → t = s.templates.next ∨ InUse s t := by
    rintro t (ht | ht)
    · rcases mem_append.mp ht with ht | ht
      · exact .inr (.inl ht)
      · exact .inl (mem_singleton.mp ht)
    · exact .inr (.inr ht)
  have hnew : (created s x).templates.val s.templates.next = x := val_alloc_self _ _
  have hold : ∀ t, InUse s t → (created s x).templates.val t = s.templates.val t :=
    fun t ht => val_alloc_of_ne _ _ (Nat.ne_of_lt (h.below t ht))
  refine ⟨fun t ht => ?_, h.linked, fun t u ht hu => ?_, fun t ht b e he => ?_⟩
  · rcases huse t ht with rfl | ht
    · exact Nat.lt_succ_self _
    · exact Nat.lt_succ_of_lt (h.below t ht)
  · rcases huse t ht with rfl | ht <;> rcases huse u hu with rfl | hu
    · exact fun _ _ _ => rfl
    · rw [hnew, hold u hu]
      exact (hagree u hu).symm
    · rw [hnew, hold t ht]
      exact hagree t ht
    · rw [hold t ht, hold u hu]
      exact h.agree t u ht hu
  · rcases huse t ht with rfl | ht
    · rw [hnew]
      exact hpool b e he
    · rw [hold t ht]
      exact h.pool t ht b e he

/-- The entry that a load links holds what the template stores. -/
theorem consistent_linkEntry (h : Consistent s) (ht : InUse s t)
    (hlists : Lists (s.templates.val t) k)
    (hdata : storedUnder (s.templates.val t).pagesFile k = some data) :
    Consistent (linkEntry s k data) := by
  have hcases : ∀ b, ∀ e ∈ (linkEntry s k data).pool.buckets b,
      e = s.entries.next ∨ e ∈ s.pool.buckets b := by
    intro b e he
    have hupdate : e ∈ update s.pool.buckets (hashToBucket k)
        (s.entries.next :: s.pool.buckets (hashToBucket k)) b := he
    by_cases hb : b = hashToBucket k
    · rw [hb, update_self] at hupdate
      rw [hb]
      exact mem_cons.mp hupdate
    · rw [update_of_ne hb] at hupdate
      exact .inr hupdate
  have hval : ∀ e, e < s.entries.next → (linkEntry s k data).entries.val e = s.entries.val e :=
    fun e he => val_alloc_of_ne _ _ (Nat.ne_of_lt he)
  refine ⟨h.below, fun b e he => ?_, h.agree, fun u hu b e he => ?_⟩
  · rcases hcases b e he with rfl | he
    · exact Nat.lt_succ_self _
    · exact Nat.lt_succ_of_lt (h.linked b e he)
  · rcases hcases b e he with rfl | he
    · -- both templates list the hash, so what the one stores the other stores too
      have hself : (linkEntry s k data).entries.val s.entries.next = ⟨k, data, 1, 1⟩ :=
        val_alloc_self _ _
      rw [hself]
      exact fun hlists' => (h.agree u t hu ht k hlists' hlists).trans hdata
    · rw [hval e (h.linked b e he)]
      exact h.pool u hu b e he

/-! ## Faults -/

/-- A load that succeeds found the entry in the pool or the page in the file. -/
theorem loadEntry_source (hload : loadEntry s f k env = (.ok e, s')) :
    (poolFind s k = some e ∧ s' = refEntry s e)
      ∨ ∃ data, probePages (env.kernelRead f) hashModulus k maxProbeCount
          (k.toNat % hashModulus) = .found data
        ∧ e = s.entries.next ∧ s' = linkEntry s k data := by
  rw [loadEntry, snapshotPoolLookup] at hload
  cases hfind : poolFind s k with
  | some e' =>
    rw [hfind] at hload
    cases hload
    exact .inl ⟨rfl, rfl⟩
  | none =>
    rw [hfind] at hload
    dsimp only at hload
    split at hload
    · cases hload
    · split at hload
      · rename_i data hprobe
        refine .inr ⟨data, hprobe, ?_⟩
        rw [snapshotPoolAdd, hfind] at hload
        dsimp only at hload
        split at hload
        · rename_i hadd
          cases hload
        · rename_i hadd
          split at hadd
          · cases hadd
          · split at hadd
            · cases hadd
            · cases hadd
              cases hload
              exact ⟨rfl, rfl⟩
      · cases hload

/-- **A load for a template in use hands out that template's page.** -/
theorem consistent_load (h : Consistent s) (ht : InUse s t) (hlists : Lists (s.templates.val t) k)
    (hread : ∀ f off n, (env.kernelRead f off n).length = n →
      env.kernelRead f off n = pread f off n)
    (hload : loadEntry s (s.templates.val t).pagesFile k env = (.ok e, s')) :
    Consistent s' ∧ storedUnder (s.templates.val t).pagesFile k = some (s'.entries.val e).page := by
  rcases loadEntry_source hload with ⟨hfind, rfl⟩ | ⟨data, hprobe, rfl, rfl⟩
  · -- some template was faulted before this one
    have hmem : e ∈ s.pool.buckets (hashToBucket k) := mem_of_find?_eq_some hfind
    have hbeq := find?_some hfind
    have hhash : (s.entries.val e).hashIdx = k := eq_of_beq hbeq
    have hpage : ((refEntry s e).entries.val e).page = (s.entries.val e).page := by
      rw [refEntry, val_modify_self]
      rfl
    have hmatches := h.pool t ht _ e hmem
    rw [Matches, hhash] at hmatches
    rw [hpage]
    exact ⟨h.pooled (refEntry_frame s e) (addRef_links s e 1), hmatches hlists⟩
  · have hstored : storedUnder (s.templates.val t).pagesFile k = some data := by
      rw [storedUnder, probePages_honest (hread _) hprobe]
    refine ⟨consistent_linkEntry h ht hlists hstored, ?_⟩
    rw [linkEntry, val_alloc_self]
    exact hstored

/-- The page mapped is that of the entry. -/
theorem mapPage_page {d off e' : Nat} (h : (mapPage s d off e env).1 = .mapped e') :
    e' = e ∧ ((mapPage s d off e env).2.entries.val e).page = (s.entries.val e).page := by
  rw [mapPage] at h ⊢
  split at h
  · rename_i hinsert
    cases h
    rw [if_pos hinsert, addPageRefs, val_modify_self, entries_trackNode]
    exact ⟨rfl, rfl⟩
  · cases h

/-- **The step of a fault.** -/
theorem consistent_fault (h : Consistent s) {x : Vma} (hx : x ∈ s.vmas) (hplaced : Placed s x)
    (address : Nat) (hread : ∀ f off n, (env.kernelRead f off n).length = n →
      env.kernelRead f off n = pread f off n) :
    Consistent (snapshotVmaFault s x address env).2
      ∧ ∀ e, (snapshotVmaFault s x address env).1 = .mapped e →
        ∃ pte, (templateOf s x).pageTableCache[(address - x.vmStart) / pageSize]? = some pte
          ∧ storedUnder (templateOf s x).pagesFile pte.hashIdx
            = some ((snapshotVmaFault s x address env).2.entries.val e).page := by
  have htouch := consistent_touchData h x.vmPrivateData
  rcases snapshotVmaFault_cases s x address env with
    ⟨r, s', hfault, hr, rfl | rfl⟩ | ⟨pte, e, s₂, hpte, hload, hfault⟩
  · rw [hfault]
    exact ⟨htouch, fun e he => absurd he (hr e)⟩
  · rw [hfault]
    refine ⟨?_, fun e he => absurd he (hr e)⟩
    exact htouch.pooled ⟨rfl, rfl, rfl, rfl, rfl, rfl, rfl, fun _ => rfl, fun _ => Iff.rfl⟩
      (.of_eq rfl rfl)
  · have huse : InUse (touchData x.vmPrivateData s) (s.datas.val x.vmPrivateData).template := by
      rw [hplaced.template]
      refine .inr ⟨x, ?_, rfl⟩
      rw [touchData_vmas]
      exact hx
    rw [← touchData_templates x.vmPrivateData s] at hpte hload
    have hlists : Lists ((touchData x.vmPrivateData s).templates.val
        (s.datas.val x.vmPrivateData).template) pte.hashIdx :=
      ⟨pte, mem_of_getElem? hpte, rfl⟩
    obtain ⟨hs₂, hstored⟩ := consistent_load htouch huse hlists hread hload
    rw [touchData_templates] at hpte hstored
    rw [hfault]
    refine ⟨hs₂.pooled (mapPage_frame s₂ _ _ e env) (mapPage_links s₂ _ _ e env), ?_⟩
    intro e' he'
    obtain ⟨rfl, hpage⟩ := mapPage_page he'
    rw [hpage]
    exact ⟨pte, hpte, hstored⟩

/-! ## Runs -/

theorem consistent_init : Consistent initState := by
  have hnone : ∀ t, ¬ InUse initState t := by
    rintro t (ht | ⟨x, hx, -⟩)
    · cases ht
    · cases hx
  exact ⟨fun t ht => absurd ht (hnone t), (fun _ _ he => by cases he),
    fun t _ ht => absurd ht (hnone t), fun t ht => absurd ht (hnone t)⟩

/-- A create that agrees keeps consistency. -/
theorem consistent_create (h : Consistent s) {args : IoctlCreateTemplate} {env : CreateEnv}
    (hagrees : CreateAgrees s (.ioctl (.create args env) true copyToUser)) :
    Consistent (snapshotTemplateCreate s args env).2 := by
  by_cases hok : (snapshotTemplateCreate s args env).1 = 0
  · have hnew := hagrees args env copyToUser rfl hok
    rw [snapshotTemplateCreate]
    split
    · exact h
    · split
      · exact h
      · rename_i table htable
        split
        · exact h
        · rename_i pages hpages
          obtain ⟨hagree, hpool⟩ := hnew table pages htable hpages
          dsimp only
          split
          · exact h
          · repeat' split
            all_goals first
              | exact consistent_discard h
              | exact consistent_created h hagree hpool
  · rcases snapshotTemplateCreate_cases s args env with
      ⟨r, -, hfail | hfail⟩ | ⟨_, _, -, hdone⟩
    · rw [hfail]
      exact h
    · rw [hfail]
      exact consistent_discard h
    · exact absurd (congrArg Prod.fst hdone) hok

/-- So does every `ioctl`. -/
theorem consistent_ioctl (h : Consistent s) {cmd : IoctlCmd} {copyFromUser : Bool}
    (hagrees : CreateAgrees s (.ioctl cmd copyFromUser copyToUser)) :
    Consistent (snapshotIoctl s cmd copyFromUser copyToUser).2 := by
  cases cmd with
  | create args env =>
    cases copyFromUser with
    | false => exact h
    | true => exact consistent_create h hagrees
  | delete id kvmalloc =>
    cases copyFromUser with
    | false => exact h
    | true =>
      rw [snapshotIoctl, if_neg Bool.noConfusion]
      rcases snapshotTemplateDelete_cases s id kvmalloc with
        ⟨-, hdelete⟩ | ⟨t, -, -, hdelete⟩ | ⟨t, -, -, hdelete⟩
      · rw [hdelete]
        exact h
      · rw [hdelete]
        exact h
      · rw [hdelete]
        exact (consistent_removeTemplate h t).pooled (clearPool_frame _ kvmalloc).1
          (clearPool_links _ kvmalloc)
  | status id =>
    rw [snapshotIoctl_status]
    exact h
  | other => exact h

/-- An `mmap` keeps consistency. -/
theorem consistent_mmap (h : Consistent s) (call : MmapCall) (kzalloc : Bool) :
    Consistent (snapshotMmap s call kzalloc).2 := by
  rcases snapshotMmap_cases s call kzalloc with
    ⟨-, hmmap⟩ | ⟨t, r, -, -, -, hmmap⟩ | ⟨t, ht, -, -, hmmap⟩
  · rw [hmmap]
    exact h
  · rw [hmmap]
    exact consistent_templateUnref (consistent_addTemplateRef h t 1) t
  · rw [hmmap]
    have hlisted : t ∈ s.templateList := mem_of_mmapTarget ht
    have hvma : Consistent (addVma (addTemplateRef s t 1) call t) :=
      consistent_addVma (consistent_addTemplateRef h t 1) call hlisted
    exact consistent_addTemplateRef hvma t 1

/-- **The step.** -/
theorem consistent_step (s : DriverState) (op : DriverOp) (s' : DriverState)
    (hs : AllPlaced s ∧ Consistent s) (hstep : driver s op = some s')
    (hop : HonestReads op ∧ CreateAgrees s op) :
    (AllPlaced s' ∧ Consistent s') ∧ MapsOwnPage s op s' := by
  obtain ⟨hplaced, hs⟩ := hs
  obtain ⟨hread, hagrees⟩ := hop
  have hplaced' := allPlaced_step s op s' hplaced hstep
  obtain ⟨r, hr, hmove⟩ := driverMove_of_driver hstep
  -- only a fault maps a page
  have hother : (∀ v address env, op ≠ .fault v address env) → MapsOwnPage s op s' :=
    fun hne v address env _ _ hop => absurd hop (hne v address env)
  cases hmove with
  | ioctl cmd copyFromUser copyToUser =>
    exact ⟨⟨hplaced', consistent_ioctl hs hagrees⟩, hother (fun _ _ _ hop => by cases hop)⟩
  | mmap call kzalloc =>
    exact ⟨⟨hplaced', consistent_mmap hs call kzalloc⟩, hother (fun _ _ _ hop => by cases hop)⟩
  | fork v x hx =>
    exact ⟨⟨hplaced', consistent_open (consistent_forkVma hs (mem_of_findVma hx).1) _⟩,
      hother (fun _ _ _ hop => by cases hop)⟩
  | split v address x hx =>
    exact ⟨⟨hplaced', consistent_open
      (consistent_splitVma hs (mem_of_findVma hx).1 address) _⟩,
      hother (fun _ _ _ hop => by cases hop)⟩
  | close v x hx =>
    have hdrop : Consistent (dropVma s v) :=
      consistent_vmas hs (fun y hy => inUse_of_mem (mem_filter.mp hy).1)
    exact ⟨⟨hplaced', consistent_close hdrop _⟩, hother (fun _ _ _ hop => by cases hop)⟩
  | fault v address env x hx hin =>
    have hmem := (mem_of_findVma hx).1
    obtain ⟨hs', hmaps⟩ := consistent_fault hs hmem (hplaced x hmem) address
      (hread v address env rfl)
    refine ⟨⟨hplaced', hs'⟩, fun v' address' env' x' e hop hx' hmapped => ?_⟩
    cases hop
    cases some.inj (hx.symm.trans hx')
    refine hmaps e ?_
    have hresult := congrArg Prod.fst (some.inj (hr.symm.trans hmapped))
    exact OpResult.fault.inj hresult

end Frames

/-! ## Two templates that share a hash

    The templates `a` and `b` have one page each, both with the hash 1; the page of `a`
    is filled with the byte `p`, the page of `b` with `q`. -/

/-- A pages file with one page of `p`. -/
def filledPages (p : UInt8) : File :=
  putSlot SparseFile.empty 1 1 (List.replicate pageSize p)

/-- A template of one page. -/
def filledArgs (id : UInt8) : IoctlCreateTemplate :=
  ⟨strncpy templateIdMaxLen [id], 4096, [116, 0], [112, 0]⟩

/-- Its files. -/
def filledEnv (p : UInt8) : CreateEnv :=
  ⟨fun _ => some (filledPages p), fun _ _ n => (le64 0 ++ le64 1).take n, true, true, 0, []⟩

/-- The template itself. -/
def filledTemplate (id p : UInt8) : Template :=
  newTemplate (filledArgs id) (filledEnv p) (filledPages p) (le64 0 ++ le64 1)

/-- A mapping of it. -/
def filledCall (id : UInt8) : MmapCall := ⟨devicePrefix ++ [id], 0, pageSize, 0⟩

/-- A fault in which nothing fails. -/
def filledFault (v : Nat) : DriverOp := .fault v 0 (smoothFault pread)

/-- Two templates, each mapped once. -/
def bothCalls (p q : UInt8) : List DriverOp :=
  [.ioctl (.create (filledArgs 97) (filledEnv p)) true true,
    .ioctl (.create (filledArgs 98) (filledEnv q)) true true,
    .mmap (filledCall 97) true, .mmap (filledCall 98) true]

/-- What an `mmap` of the template leaves behind. -/
def mapped (s : DriverState) (call : MmapCall) (t : Nat) : DriverState :=
  addTemplateRef (addVma (addTemplateRef s t 1) call t) t 1

/-- Both templates are mapped. -/
def bothMapped (p q : UInt8) : DriverState :=
  mapped (mapped (created (created initState (filledTemplate 97 p)) (filledTemplate 98 q))
    (filledCall 97) 0) (filledCall 98) 1

/-- The mapping of the first. -/
def vmaOfA : Vma := ⟨0, 0, pageSize, 0, 0, filledCall 97, 0⟩

/-- The mapping of the second. -/
def vmaOfB : Vma := ⟨1, 0, pageSize, 0, 1, filledCall 98, 1⟩

/-- The page of `a` was faulted. -/
def firstFaulted (p q : UInt8) : DriverState :=
  afterLoad (linkEntry (bothMapped p q) 1 (List.replicate pageSize p)) 0 0 0

theorem probePages_filled (p : UInt8) :
    probePages (pread (filledPages p)) hashModulus 1 maxProbeCount
      ((1 : UInt64).toNat % hashModulus) = .found (List.replicate pageSize p) := by
  have hlength : (List.replicate pageSize p).length = pageSize := length_replicate
  have htable : tableOf (filledPages p) (1 : Nat) = some 1 := by
    rw [filledPages, tableOf_putSlot (by decide) (by decide) hlength, update_self]
  refine (probePages_eq_found (wholeSlots_putSlot wholeSlots_empty hlength) (by decide) _ _
    (by decide)).mpr ⟨(1 : Nat), if_pos (.inr htable), htable, ?_⟩
  exact dataAt_putSlot_self hlength

theorem filledTemplate_table (id p : UInt8) : (filledTemplate id p).pageTableCache = [⟨0, 1⟩] := by
  have hcount : (filledArgs id).totalSize.toNat / pageSize = 1 :=
    show (4096 : UInt64).toNat / pageSize = 1 by decide
  rw [filledTemplate, newTemplate, hcount]
  show [PageTableEntry.ofBytes (le64 0 ++ le64 1)] = _
  rfl

/-- The fault on `a` loads the page of `a`. -/
theorem filledFault_a (p q : UInt8) :
    driverStep (bothMapped p q) (filledFault 0) = some (.fault (.mapped 0), firstFaulted p q) := by
  have hload : loadEntry (bothMapped p q) (filledPages p) 1 (smoothFault pread)
      = (.ok 0, linkEntry (bothMapped p q) 1 (List.replicate pageSize p)) :=
    loadEntry_missing rfl (probePages_filled p)
  exact driverStep_loaded (x := vmaOfA) (p := ⟨0, 1⟩) rfl (by decide) rfl
    (Nat.le_of_ble_eq_true rfl) (congrArg (·[0]?) (filledTemplate_table 97 p)) rfl hload

/-- The fault on `b` finds the page of `a`. -/
theorem filledFault_b (p q : UInt8) :
    driverStep (firstFaulted p q) (filledFault 1)
      = some (.fault (.mapped 0), afterLoad (refEntry (firstFaulted p q) 0) 1 0 0) :=
  driverStep_loaded (x := vmaOfB) (p := ⟨0, 1⟩) rfl (by decide) rfl (Nat.le_of_ble_eq_true rfl)
    (congrArg (·[0]?) (filledTemplate_table 98 q)) rfl rfl

theorem exec_firstFaulted (p q : UInt8) :
    exec driver initState (bothCalls p q ++ [filledFault 0]) = some (firstFaulted p q) := by
  have hcalls : exec driver initState (bothCalls p q) = some (bothMapped p q) := rfl
  have hfault : driver (bothMapped p q) (filledFault 0) = some (firstFaulted p q) := by
    rw [driver, filledFault_a]
    rfl
  rw [exec_append, hcalls, bind_some, exec, hfault]
  rfl

/-- The entry keeps the page it was linked with. -/
theorem page_shared (p q : UInt8) :
    ((afterLoad (refEntry (firstFaulted p q) 0) 1 0 0).entries.val 0).page
      = List.replicate pageSize p := by
  rw [afterLoad, addPageRefs, val_modify_self, entries_trackNode, refEntry, val_modify_self,
    firstFaulted, afterLoad, addPageRefs, val_modify_self, entries_trackNode]
  rfl

theorem honestReads_filled (v : Nat) : HonestReads (filledFault v) := by
  intro v' address env henv
  cases henv
  exact fun _ _ _ _ => rfl

/-- Templates with the same page under the hash agree. -/
theorem bothCalls_agree (p : UInt8) :
    Moves driver (fun s op _ => HonestReads op ∧ CreateAgrees s op) initState
      (bothCalls p p ++ [filledFault 0] ++ [filledFault 1]) := by
  -- the calls after the creates meet the condition in every state
  have hrest : ∀ s, Moves driver (fun s op _ => HonestReads op ∧ CreateAgrees s op) s
      [.mmap (filledCall 97) true, .mmap (filledCall 98) true, filledFault 0, filledFault 1] := by
    intro s
    refine moves_of_inv (I := fun _ => True)
      (G := fun _ op _ => HonestReads op ∧ ∀ s, CreateAgrees s op)
      (fun s _ _ _ _ hop => ⟨trivial, hop.1, hop.2 s⟩) _ s trivial (moves_of_forall ?_ s)
    intro op hop
    simp only [mem_cons, not_mem_nil, or_false] at hop
    rcases hop with rfl | rfl | rfl | rfl
    · exact ⟨(fun _ _ _ h => by cases h), (fun _ _ _ _ h => by cases h)⟩
    · exact ⟨(fun _ _ _ h => by cases h), (fun _ _ _ _ h => by cases h)⟩
    · exact ⟨honestReads_filled 0, (fun _ _ _ _ h => by cases h)⟩
    · exact ⟨honestReads_filled 1, (fun _ _ _ _ h => by cases h)⟩
  intro s₁ h₁
  cases some.inj h₁
  refine ⟨⟨(fun _ _ _ h => by cases h), ?_⟩, fun s₂ _ =>
    ⟨⟨(fun _ _ _ h => by cases h), ?_⟩, hrest s₂⟩⟩
  · rintro args env copyToUser ⟨⟩ - table pages - -
    refine ⟨?_, (fun _ _ he => by cases he)⟩
    rintro t (ht | ⟨x, hx, -⟩)
    · cases ht
    · cases hx
  · rintro args env copyToUser ⟨⟩ - table pages - hpages
    have hfile : filledPages p = pages := some.inj hpages
    subst hfile
    refine ⟨?_, (fun _ _ he => by cases he)⟩
    rintro t (ht | ⟨x, hx, -⟩)
    · cases mem_singleton.mp ht
      exact fun _ _ _ => rfl
    · cases hx

/-- **WHAT A FAULT MAPS.**  In every run in which the kernel's reads are honest and no
    create brings a template that disagrees with one in use or with the pool, every
    fault that maps a page maps what the template's own file stores. -/
theorem faults_map_own_pages (ops : List DriverOp)
    (h : Moves driver (fun s op _ => HonestReads op ∧ CreateAgrees s op) initState ops) :
    Moves driver MapsOwnPage initState ops :=
  moves_of_inv consistent_step ops initState ⟨(fun _ hx => by cases hx), consistent_init⟩ h

/-- The template `b` is faulted after `a`, which stores the same page. -/
theorem shared_page_is_own :
    ∃ s s' x, exec driver initState (bothCalls 1 1 ++ [filledFault 0]) = some s
      ∧ findVma s 1 = some x
      ∧ driverStep s (filledFault 1) = some (.fault (.mapped 0), s')
      ∧ ∃ pte, (templateOf s x).pageTableCache[(0 - x.vmStart) / pageSize]? = some pte
        ∧ storedUnder (templateOf s x).pagesFile pte.hashIdx = some (s'.entries.val 0).page := by
  have hmoves := faults_map_own_pages _ (bothCalls_agree 1)
  have hlast := moves_exec hmoves (exec_firstFaulted 1 1)
  have hdriver : driver (firstFaulted 1 1) (filledFault 1)
      = some (afterLoad (refEntry (firstFaulted 1 1) 0) 1 0 0) := by
    rw [driver, filledFault_b]
    rfl
  refine ⟨firstFaulted 1 1, _, vmaOfB, exec_firstFaulted 1 1, rfl, filledFault_b 1 1, ?_⟩
  exact (hlast _ hdriver).1 1 0 _ vmaOfB 0 rfl rfl (filledFault_b 1 1)

/-- The template `b` is faulted second and maps the page of `a`. -/
theorem other_template_mapped :
    ∃ s s' x, exec driver initState (bothCalls 1 2 ++ [filledFault 0]) = some s
      ∧ HonestReads (filledFault 0) ∧ HonestReads (filledFault 1)
      ∧ findVma s 1 = some x
      ∧ driverStep s (filledFault 1) = some (.fault (.mapped 0), s')
      ∧ ((templateOf s x).pageTableCache[0]?).map (·.hashIdx) = some 1
      ∧ storedUnder (templateOf s x).pagesFile 1 = some (List.replicate pageSize 2)
      ∧ (s'.entries.val 0).page = List.replicate pageSize 1
      ∧ ¬ MapsOwnPage s (filledFault 1) s' := by
  have htable : (templateOf (firstFaulted 1 2) vmaOfB).pageTableCache = [⟨0, 1⟩] :=
    filledTemplate_table 98 2
  have hstored : storedUnder (templateOf (firstFaulted 1 2) vmaOfB).pagesFile 1
      = some (List.replicate pageSize 2) := by
    show storedUnder (filledPages 2) 1 = _
    rw [storedUnder, probePages_filled]
  have hpage := page_shared 1 2
  refine ⟨firstFaulted 1 2, _, vmaOfB, exec_firstFaulted 1 2, honestReads_filled 0,
    honestReads_filled 1, rfl, filledFault_b 1 2, ?_, hstored, hpage, fun hmaps => ?_⟩
  · rw [htable]
    rfl
  · obtain ⟨pte, hpte, hown⟩ := hmaps 1 0 _ vmaOfB 0 rfl rfl (filledFault_b 1 2)
    rw [htable] at hpte
    cases hpte
    rw [hpage] at hown
    have hsame := some.inj (hstored.symm.trans hown)
    have hbyte : (2 : UInt8) = 1 := (replicate_inj.mp hsame).2.resolve_left (by decide)
    exact absurd hbyte (by decide)

end TemplateContent
