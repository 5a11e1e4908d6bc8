import DemoStore.DriverFrameProofs
import Mathlib.Data.Finset.Card

/-! # What keeps a template and an entry

    The users of a template are its live mappings and the `mmap` calls that have found
    it; the nodes of the tracking trees are what mappings keep of the entries.  A
    template's count covers its users, and as long as it has one it stays in the list. -/

namespace TemplateUsers

open ObjectHeap SnapshotDriver DriverFrame List

/-! ## What the mappings keep -/

/-- The nodes of the tracking trees that point to an entry. -/
def tracked (d : DriverState) (e : Nat) : Nat :=
  (Finset.range d.datas.next).sum fun p =>
    (d.datas.val p).vaToPaMap.countP fun n => n.physEntry == e

/-- The live `vma_snapshot_data` of a template. -/
def mappings (d : DriverState) (t : Nat) : Finset Nat :=
  (Finset.range d.datas.next).filter fun p =>
    d.datas.live p = true ∧ (d.datas.val p).template = t

/-- Who has a reference of a template: its mappings, and the `mmap` calls that have
    found it. -/
def users (d : DriverState) (finds : List (Nat × Nat)) (t : Nat) : Nat :=
  (mappings d t).card + finds.countP fun r => r.2 == t

/-- A template with users is listed, and its count covers them. -/
structure TemplatesOk (d : DriverState) (finds : List (Nat × Nat)) : Prop where
  counted : ∀ t, users d finds t ≤ (d.templates.val t).refCount.toNat
  bounded : ∀ t, (d.templates.val t).refCount.toNat < 2 ^ 31
  listed : ∀ t, 0 < users d finds t → t ∈ d.templateList
  below : ∀ t ∈ d.templateList, t < d.templates.next

section Data

variable {d d' : DriverState} {p t : Nat}

theorem tracked_congr (hnext : d'.datas.next = d.datas.next)
    (hmap : ∀ q < d.datas.next, (d'.datas.val q).vaToPaMap = (d.datas.val q).vaToPaMap) :
    tracked d' = tracked d := by
  funext e
  rw [tracked, tracked, hnext]
  refine Finset.sum_congr rfl fun q hq => ?_
  rw [hmap q (Finset.mem_range.mp hq)]

/-- The tree of one mapping is replaced. -/
theorem tracked_setMap (hp : p < d.datas.next) (m : List VaToPaEntry) (e : Nat) :
    tracked { d with datas := d.datas.modify p (VmaSnapshotData.setMap m) } e
        + (d.datas.val p).vaToPaMap.countP (fun n => n.physEntry == e)
      = tracked d e + m.countP (fun n => n.physEntry == e) :=
  total_modify (fun x : VmaSnapshotData =>
    x.vaToPaMap.countP fun n : VaToPaEntry => n.physEntry == e) hp _

/-- A new mapping has no nodes. -/
theorem tracked_addVma (call : MmapCall) (t : Nat) :
    tracked (addVma d call t) = tracked d :=
  funext fun e =>
    total_alloc (fun x : VmaSnapshotData =>
      x.vaToPaMap.countP fun n : VaToPaEntry => n.physEntry == e) ⟨t, []⟩

/-- The live mappings of a template. -/
theorem mem_mappings : p ∈ mappings d t
    ↔ p < d.datas.next ∧ d.datas.live p = true ∧ (d.datas.val p).template = t := by
  rw [mappings, Finset.mem_filter, Finset.mem_range]

theorem mappings_congr (hnext : d'.datas.next = d.datas.next)
    (hlive : d'.datas.live = d.datas.live)
    (htemplate : ∀ q, (d'.datas.val q).template = (d.datas.val q).template) :
    mappings d' = mappings d := by
  funext t
  ext q
  rw [mem_mappings, mem_mappings, hnext, hlive, htemplate]

theorem mappings_setMap (m : List VaToPaEntry) :
    mappings { d with datas := d.datas.modify p (VmaSnapshotData.setMap m) } = mappings d :=
  mappings_congr rfl rfl fun q => template_modify d.datas p q m

theorem mappings_addVma (call : MmapCall) (t u : Nat) :
    mappings (addVma d call t) u
      = if u = t then insert d.datas.next (mappings d u) else mappings d u := by
  ext q
  have hmem : q ∈ mappings (addVma d call t) u ↔ q < d.datas.next + 1
      ∧ (d.datas.alloc ⟨t, []⟩).live q = true
      ∧ ((d.datas.alloc ⟨t, []⟩).val q).template = u := mem_mappings
  rw [hmem]
  by_cases hq : q = d.datas.next
  · have hnot : q ∉ mappings d u := fun hin =>
      Nat.lt_irrefl _ (hq ▸ (mem_mappings.mp hin).1)
    rw [hq, live_alloc_self, val_alloc_self]
    rw [hq] at hnot
    by_cases hu : u = t
    · rw [if_pos hu, hu]
      simp
    · rw [if_neg hu]
      simp only [hnot, iff_false]
      rintro ⟨-, -, ht⟩
      exact hu ht.symm
  · rw [live_alloc_of_ne _ _ hq, val_alloc_of_ne _ _ hq]
    have hlt : q < d.datas.next + 1 ↔ q < d.datas.next := by omega
    rw [hlt, ← mem_mappings]
    split
    · rw [Finset.mem_insert]
      exact ⟨.inr, fun h => h.resolve_left hq⟩
    · exact Iff.rfl

/-- Freed data is no mapping any more. -/
theorem mappings_freeData (u : Nat) : mappings (freeData d p) u = (mappings d u).erase p := by
  ext q
  have hmem : q ∈ mappings (freeData d p) u ↔ q < d.datas.next
      ∧ (freeData d p).datas.live q = true ∧ ((freeData d p).datas.val q).template = u :=
    mem_mappings
  have htemplate : ((freeData d p).datas.val q).template = (d.datas.val q).template :=
    template_modify d.datas p q []
  rw [Finset.mem_erase, hmem, htemplate, mem_mappings]
  by_cases hq : q = p
  · have hdead : (freeData d p).datas.live q = false := by
      rw [hq]
      exact live_free_self _ _
    rw [hdead]
    simp [hq]
  · have hlive : (freeData d p).datas.live q = d.datas.live q := live_free_of_ne _ hq
    rw [hlive]
    exact ⟨fun h => ⟨hq, h⟩, And.right⟩

end Data

/-! ## Templates -/

section Templates

variable {d d' : DriverState} {finds finds' : List (Nat × Nat)} {p t : Nat} {x : Template}

theorem users_congr (hmappings : mappings d' = mappings d) : users d' finds = users d finds := by
  funext t
  rw [users, users, hmappings]

theorem TemplatesOk.congr (h : TemplatesOk d finds) (htemplates : d'.templates = d.templates)
    (hlist : d'.templateList = d.templateList) (hmappings : mappings d' = mappings d) :
    TemplatesOk d' finds := by
  constructor
  · rw [users_congr hmappings, htemplates]
    exact h.counted
  · rw [htemplates]
    exact h.bounded
  · rw [users_congr hmappings, hlist]
    exact h.listed
  · rw [hlist, htemplates]
    exact h.below

/-- Without a reference there is no user. -/
theorem TemplatesOk.unused (h : TemplatesOk d finds)
    (hzero : (d.templates.val t).refCount = 0) : users d finds t = 0 := by
  have hcount := h.counted t
  rw [hzero] at hcount
  exact Nat.le_zero.mp hcount

/-- A delete passes its check at zero only. -/
theorem TemplatesOk.zero_of_check (h : TemplatesOk d finds)
    (hcheck : ¬ (d.templates.val t).refCount.toInt > 0) : (d.templates.val t).refCount = 0 := by
  have hlt := h.bounded t
  rw [BitVec.toInt_eq_toNat_cond, if_pos (by omega)] at hcheck
  have hzero : (0 : Atomic).toNat = 0 := rfl
  exact BitVec.eq_of_toNat_eq (by omega)

/-- A template without users is unlinked. -/
theorem TemplatesOk.remove (h : TemplatesOk d finds) (hzero : users d finds t = 0) :
    TemplatesOk (removeTemplate d t) finds := by
  refine ⟨h.counted, h.bounded, fun u hpos => ?_, fun u hu => ?_⟩
  · have hut : u ≠ t := fun he => by
      replace hpos : 0 < users d finds u := hpos
      rw [he, hzero] at hpos
      exact Nat.lt_irrefl 0 hpos
    exact (mem_erase_of_ne hut).mpr (h.listed u hpos)
  · exact h.below u (mem_of_mem_erase hu)

/-- A template is allocated, and listed or not. -/
theorem TemplatesOk.alloc (h : TemplatesOk d finds) (hx : x.refCount = 0)
    {templates : Heap Template} (hnext : templates.next = d.templates.next + 1)
    (hself : templates.val d.templates.next = x)
    (hother : ∀ u, u ≠ d.templates.next → templates.val u = d.templates.val u) {l : List Nat}
    (hsub : ∀ u ∈ d.templateList, u ∈ l)
    (hsup : ∀ u ∈ l, u ∈ d.templateList ∨ u = d.templates.next) :
    TemplatesOk { d with templates := templates, templateList := l } finds := by
  have hfresh : users d finds d.templates.next = 0 := by
    by_contra hne
    exact Nat.lt_irrefl _ (h.below _ (h.listed _ (Nat.pos_of_ne_zero hne)))
  refine ⟨fun u => ?_, fun u => ?_, fun u hpos => hsub u (h.listed u hpos), fun u hu => ?_⟩
  · show users d finds u ≤ (templates.val u).refCount.toNat
    by_cases hnew : u = d.templates.next
    · rw [hnew, hfresh]
      exact Nat.zero_le _
    · rw [hother u hnew]
      exact h.counted u
  · show (templates.val u).refCount.toNat < 2 ^ 31
    by_cases hnew : u = d.templates.next
    · rw [hnew, hself, hx]
      decide
    · rw [hother u hnew]
      exact h.bounded u
  · show u < templates.next
    rw [hnext]
    rcases hsup u hu with hu | hu
    · exact Nat.lt_succ_of_lt (h.below u hu)
    · omega

theorem TemplatesOk.discard (h : TemplatesOk d finds) : TemplatesOk (discardTemplate d) finds := by
  have hself : (discardTemplate d).templates.val d.templates.next = default := val_alloc_self _ _
  have hother : ∀ u, u ≠ d.templates.next →
      (discardTemplate d).templates.val u = d.templates.val u :=
    fun _ hu => val_alloc_of_ne _ _ hu
  exact h.alloc rfl rfl hself hother (fun _ hu => hu) (fun _ hu => .inl hu)

/-- A new template has no users. -/
theorem TemplatesOk.created (h : TemplatesOk d finds) (hx : x.refCount = 0) :
    TemplatesOk (created d x) finds := by
  refine h.alloc hx rfl (val_alloc_self _ _) (fun _ hu => val_alloc_of_ne _ _ hu)
    (fun _ hu => mem_append_left _ hu) (fun u hu => ?_)
  rcases mem_append.mp hu with hu | hu
  · exact .inl hu
  · exact .inr (mem_singleton.mp hu)

/-- **A listed template gets a reference**, and at most one user. -/
theorem TemplatesOk.ref (h : TemplatesOk d finds) (ht : t ∈ d.templateList)
    (hroom : (d.templates.val t).refCount.toNat + 1 < 2 ^ 31)
    (htemplates : d'.templates = d.templates) (hlist : d'.templateList = d.templateList)
    (hself : users d' finds' t ≤ users d finds t + 1)
    (hother : ∀ u, u ≠ t → users d' finds' u = users d finds u) :
    TemplatesOk (addTemplateRef d' t 1) finds' := by
  have hval : ((addTemplateRef d' t 1).templates.val t).refCount.toNat
      = (d.templates.val t).refCount.toNat + 1 := by
    rw [addTemplateRef_self, htemplates]
    show ((d.templates.val t).refCount + 1).toNat = _
    bv_omega
  have hne : ∀ u, u ≠ t → (addTemplateRef d' t 1).templates.val u = d.templates.val u := by
    intro u hu
    rw [addTemplateRef_of_ne _ _ hu, htemplates]
  refine ⟨fun u => ?_, fun u => ?_, fun u hpos => ?_, fun u hu => ?_⟩
  · show users d' finds' u ≤ _
    by_cases hu : u = t
    · rw [hu, hval]
      exact hself.trans (Nat.add_le_add_right (h.counted t) 1)
    · rw [hne u hu, hother u hu]
      exact h.counted u
  · by_cases hu : u = t
    · rw [hu, hval]
      exact hroom
    · rw [hne u hu]
      exact h.bounded u
  · show u ∈ d'.templateList
    rw [hlist]
    by_cases hu : u = t
    · rw [hu]
      exact ht
    · refine h.listed u ?_
      rw [← hother u hu]
      exact hpos
  · show u < d'.templates.next
    rw [htemplates]
    replace hu : u ∈ d'.templateList := hu
    rw [hlist] at hu
    exact h.below u hu

/-- **A user leaves** with its reference. -/
theorem TemplatesOk.unref (h : TemplatesOk d finds)
    (htemplates : d'.templates = d.templates) (hlist : d'.templateList = d.templateList)
    (hself : users d' finds' t + 1 = users d finds t)
    (hother : ∀ u, u ≠ t → users d' finds' u = users d finds u) :
    TemplatesOk (addTemplateRef d' t (-1)) finds' := by
  have hcount := h.counted t
  have hval : ((addTemplateRef d' t (-1)).templates.val t).refCount.toNat
      = (d.templates.val t).refCount.toNat - 1 := by
    have hpos : 0 < (d.templates.val t).refCount.toNat := by omega
    rw [addTemplateRef_self, htemplates]
    show ((d.templates.val t).refCount + -1).toNat = _
    bv_omega
  have hne : ∀ u, u ≠ t → (addTemplateRef d' t (-1)).templates.val u = d.templates.val u := by
    intro u hu
    rw [addTemplateRef_of_ne _ _ hu, htemplates]
  have hle : ∀ u, users d' finds' u ≤ users d finds u := by
    intro u
    by_cases hu : u = t
    · rw [hu]
      omega
    · rw [hother u hu]
  refine ⟨fun u => ?_, fun u => ?_, fun u hpos => ?_, fun u hu => ?_⟩
  · show users d' finds' u ≤ _
    by_cases hu : u = t
    · rw [hu, hval]
      omega
    · rw [hne u hu, hother u hu]
      exact h.counted u
  · have hlt := h.bounded u
    by_cases hu : u = t
    · rw [hu] at hlt ⊢
      rw [hval]
      omega
    · rw [hne u hu]
      exact hlt
  · show u ∈ d'.templateList
    rw [hlist]
    exact h.listed u (Nat.lt_of_lt_of_le hpos (hle u))
  · show u < d'.templates.next
    rw [htemplates]
    replace hu : u ∈ d'.templateList := hu
    rw [hlist] at hu
    exact h.below u hu

/-! How the users change. -/

theorem users_cons (d : DriverState) (i t u : Nat) :
    users d ((i, t) :: finds) u = users d finds u + if u = t then 1 else 0 := by
  rw [users, users, countP_cons, Nat.add_assoc]
  by_cases hu : u = t
  · rw [if_pos hu, hu, if_pos (beq_self_eq_true t)]
  · rw [if_neg hu, if_neg (by simpa using Ne.symm hu)]

theorem users_erase (d : DriverState) {i : Nat} (hmem : (i, t) ∈ finds) (u : Nat) :
    users d (finds.erase (i, t)) u + (if u = t then 1 else 0) = users d finds u := by
  rw [← users_cons d i t u, users, users, (perm_cons_erase hmem).countP_eq]

/-- A new mapping is one more user. -/
theorem users_addVma (call : MmapCall) (u : Nat) :
    users (addVma d call t) finds u = users d finds u + if u = t then 1 else 0 := by
  rw [users, users, mappings_addVma]
  by_cases hu : u = t
  · have hnew : d.datas.next ∉ mappings d u := fun hin =>
      Nat.lt_irrefl _ (mem_mappings.mp hin).1
    rw [if_pos hu, if_pos hu, Finset.card_insert_of_notMem hnew]
    omega
  · rw [if_neg hu, if_neg hu, Nat.add_zero]

/-- A mapping that ends is one user less. -/
theorem users_freeData (hp : p ∈ mappings d t) (u : Nat) :
    users (freeData d p) finds u + (if u = t then 1 else 0) = users d finds u := by
  rw [users, users, mappings_freeData]
  by_cases hu : u = t
  · have hcard := Finset.card_erase_add_one hp
    rw [if_pos hu, hu]
    omega
  · have hnot : p ∉ mappings d u := fun hin =>
      hu ((mem_mappings.mp hin).2.2.symm.trans (mem_mappings.mp hp).2.2)
    rw [if_neg hu, Finset.erase_eq_of_notMem hnot, Nat.add_zero]

end Templates

end TemplateUsers
