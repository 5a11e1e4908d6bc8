import DemoStore.DriverThreadsProofs
import DemoStore.PageAccountingProofs
import DemoStore.TemplateUsersProofs

/-! # What the threads of the driver rely on

    A mapping keeps its template listed, every call that works on the pool works for a
    mapping, and every reference is held by such a call or recorded in the tree of a
    mapping.  `CallsInv` says this for all threads at once: where each one is in the
    pool, and what the work it is doing relies on.

    `CallsInv.frame` is the rule for one step: a thread answers for its own call and for
    the work of the others.  The steps are in groups (in the pool, on the list of
    templates, on the VMAs, on the tree of one VMA), with one lemma for each group and
    one for each step. -/

namespace DriverThreads

open SparseFile ObjectHeap SnapshotDriver DriverFrame PoolSection PoolThreads TemplateUsers
open Function (forall_update_iff update update_eq_self update_of_ne update_self)

/-! ## The reference of a thread -/

/-- The thread has this reference and no other. -/
def Holds (refs : List (Nat × Nat)) (i : Nat) (r : Option Nat) : Prop :=
  ∀ e, refs.count (i, e) = if r = some e then 1 else 0

section Holds

variable {refs : List (Nat × Nat)} {i j e : Nat} {r : Option Nat}

theorem count_cons_other (hji : j ≠ i) (e e' : Nat) :
    ((i, e) :: refs).count (j, e') = refs.count (j, e') :=
  List.count_cons_of_ne fun heq => hji (congrArg Prod.fst heq).symm

theorem count_erase_other (hji : j ≠ i) (e e' : Nat) :
    (refs.erase (i, e)).count (j, e') = refs.count (j, e') :=
  List.count_erase_of_ne fun heq => hji (congrArg Prod.fst heq)

theorem Holds.cons (h : Holds refs i none) (e : Nat) : Holds ((i, e) :: refs) i (some e) := by
  intro e'
  rw [List.count_cons, h e']
  by_cases he : e = e'
  · simp [he]
  · simp [he]

theorem Holds.erase (h : Holds refs i (some e)) : Holds (refs.erase (i, e)) i none := by
  intro e'
  rw [List.count_erase, h e']
  by_cases he : e = e'
  · simp [he]
  · simp [he]

theorem Holds.mem_iff (h : Holds refs i r) : (i, e) ∈ refs ↔ r = some e := by
  rw [← List.count_pos_iff, h e]
  by_cases hr : r = some e
  · simp [hr]
  · simp [hr]

/-- A call returns what its thread holds. -/
theorem Holds.held (h : Holds refs i r) : held refs i = r := by
  rw [DriverThreads.held]
  cases hfind : refs.find? fun x => x.1 == i with
  | none =>
    cases r with
    | none => rfl
    | some e =>
      have hnot := List.find?_eq_none.mp hfind (i, e) (h.mem_iff.mpr rfl)
      exact absurd (beq_self_eq_true i) hnot
  | some x =>
    obtain ⟨j, e⟩ := x
    have hbeq := List.find?_some hfind
    have hj : j = i := eq_of_beq hbeq
    have hmem := List.mem_of_find?_eq_some hfind
    rw [hj] at hmem
    exact (h.mem_iff.mp hmem).symm

theorem nil_of_holds (h : ∀ i, Holds refs i none) : refs = [] := by
  refine List.eq_nil_iff_forall_not_mem.mpr ?_
  rintro ⟨i, e⟩ hmem
  cases (h i).mem_iff.mp hmem

end Holds

/-! ## Where the threads are -/

/-- In `snapshot_pool_add` before its second section. -/
def Building : Pc → Prop
  | .idle => True
  | .checked _ _ => True
  | .gotEntry _ _ _ => True
  | .noPage _ => True
  | .filled _ _ => True
  | _ => False

/-- In `snapshot_pool_add`; only after a lost race the thread has its reference before
    the call ends. -/
def Adding (pc : Pc) (refs : List (Nat × Nat)) (i : Nat) : Prop :=
  (Building pc ∧ Holds refs i none)
    ∨ ∃ e x, (pc = .lost e x ∨ pc = .lostPage e x) ∧ Holds refs i (some x)

/-- In `snapshot_pool_unref`, before or after the reference is gone. -/
def Dropping (pc : Pc) (refs : List (Nat × Nat)) (i e : Nat) : Prop :=
  (pc = .idle ∧ Holds refs i (some e)) ∨ ((pc = .last e ∨ pc = .lastPage e) ∧ Holds refs i none)

/-- What the call of a thread says about its place in the pool. -/
def PoolPlace (pc : Pc) (refs : List (Nat × Nat)) (i : Nat) : Call → Prop
  | .add _ _ _ _ _ => Adding pc refs i
  | .map _ _ e _ => pc = .idle ∧ Holds refs i (some e)
  | .undo _ e => Dropping pc refs i e
  | .release _ e => Dropping pc refs i e
  | _ => pc = .idle ∧ Holds refs i none

/-- What a thread works on. -/
inductive Work where
  | nothing
  | build (x : Template)
  | find (t : Nat)
  | die (t : Nat)
  | fault (p : Nat)
  | close (p : Nat)
  | clear

/-- What the call is working on. -/
def work : Call → Work
  | .idle => .nothing
  | .built x => .build x
  | .found t _ => .find t
  | .dying t => .die t
  | .lookup p _ _ _ _ => .fault p
  | .load p _ _ _ _ => .fault p
  | .add p _ _ _ _ => .fault p
  | .map p _ _ _ => .fault p
  | .undo p _ => .fault p
  | .close p => .close p
  | .release p _ => .close p
  | .unlinked => .nothing
  | .emptied => .clear
  | .destroyed => .clear

/-- What it relies on. -/
def WorkOk (d : DriverState) (busy finds : List (Nat × Nat)) (i : Nat) : Work → Prop
  | .nothing => True
  | .build x => x.refCount = 0
  | .find t => (i, t) ∈ finds
  | .die t => users d finds t = 0
  | .fault p => (i, p) ∈ busy ∧ ∃ x ∈ d.vmas, x.vmPrivateData = p
  | .close p => d.datas.live p = true ∧ ∀ x ∈ d.vmas, x.vmPrivateData ≠ p
  | .clear => d.templateList = []

/-- Every VMA has data of its own, and freed data has no nodes. -/
structure DataOk (d : DriverState) : Prop where
  below : ∀ p, d.datas.live p = true → p < d.datas.next
  dead : ∀ p, d.datas.live p = false → (d.datas.val p).vaToPaMap = []
  live : ∀ x ∈ d.vmas, d.datas.live x.vmPrivateData = true
  apart : (d.vmas.map Vma.vmPrivateData).Nodup
  ids : (d.vmas.map Vma.vmId).Nodup
  idBelow : ∀ x ∈ d.vmas, x.vmId < d.nextVma

/-- The invariant of all calls together. -/
structure CallsInv (s : CallState) : Prop where
  pool : Inv s.threads (tracked s.d)
  data : DataOk s.d
  templates : TemplatesOk s.d s.finds
  place : ∀ i, PoolPlace (s.pcs i) s.refs i (s.calls i)
  works : ∀ i, WorkOk s.d s.busy s.finds i (work (s.calls i))
  apart : ∀ i j p, work (s.calls i) = .close p → work (s.calls j) = .close p → i = j

variable {s s' : CallState}

variable {pc : Pc} {refs busy : List (Nat × Nat)} {j v e t : Nat} {c : Call} {d : DriverState}
  {x : Vma} {call : MmapCall}

theorem PoolPlace.congr {refs' : List (Nat × Nat)} (h : PoolPlace pc refs j c)
    (hrefs : ∀ e, refs'.count (j, e) = refs.count (j, e)) : PoolPlace pc refs' j c := by
  have hholds : ∀ r, Holds refs j r → Holds refs' j r := fun r hr e => (hrefs e).trans (hr e)
  cases c with
  | add p off k data env =>
    rcases h with ⟨hpc, hnone⟩ | ⟨e, x, hpc, hsome⟩
    · exact .inl ⟨hpc, hholds _ hnone⟩
    · exact .inr ⟨e, x, hpc, hholds _ hsome⟩
  | undo | release =>
    rcases h with ⟨hpc, hsome⟩ | ⟨hpc, hnone⟩
    · exact .inl ⟨hpc, hholds _ hsome⟩
    · exact .inr ⟨hpc, hholds _ hnone⟩
  | _ => exact ⟨h.1, hholds _ h.2⟩

/-- **What one thread does** leaves the others where they are, if their work goes on. -/
theorem CallsInv.frame (h : CallsInv s) {i : Nat} {pcs : Nat → Pc} {finds : List (Nat × Nat)}
    (hpool : Inv ⟨coreOf d, pcs, refs⟩ (tracked d)) (hdata : DataOk d)
    (htemplates : TemplatesOk d finds) (hpcs : ∀ j, j ≠ i → pcs j = s.pcs j)
    (hrefs : ∀ j, j ≠ i → ∀ e, refs.count (j, e) = s.refs.count (j, e))
    (hothers : ∀ j, j ≠ i → WorkOk s.d s.busy s.finds j (work (s.calls j)) →
      WorkOk d busy finds j (work (s.calls j))) (hplace : PoolPlace (pcs i) refs i c)
    (hwork : WorkOk d busy finds i (work c))
    (hapart : ∀ p, work c = .close p → ∀ j, j ≠ i → work (s.calls j) ≠ .close p) :
    CallsInv ⟨d, pcs, refs, update s.calls i c, busy, finds⟩ where
  pool := hpool
  data := hdata
  templates := htemplates
  place := by
    refine (forall_update_iff s.calls fun j c => PoolPlace (pcs j) refs j c).mpr
      ⟨hplace, fun j hji => ?_⟩
    rw [hpcs j hji]
    exact (h.place j).congr (hrefs j hji)
  works :=
    (forall_update_iff s.calls fun j c => WorkOk d busy finds j (work c)).mpr
      ⟨hwork, fun j hji => hothers j hji (h.works j)⟩
  apart j k p hj hk :=
    ThreadPool.unique_update (Q := fun c => work c = .close p) (fun j k => h.apart j k p)
      (hapart p) j k hj hk

section Work

variable {d d' : DriverState} {busy busy' finds finds' : List (Nat × Nat)} {j : Nat} {w : Work}

/-- What the work of a thread needs to go on. -/
theorem WorkOk.mono (h : WorkOk d busy finds j w)
    (hfault : ∀ p, w = .fault p → (j, p) ∈ busy → (∃ x ∈ d.vmas, x.vmPrivateData = p) →
      (j, p) ∈ busy' ∧ ∃ x ∈ d'.vmas, x.vmPrivateData = p)
    (hclose : ∀ p, w = .close p → d.datas.live p = true →
      (∀ x ∈ d.vmas, x.vmPrivateData ≠ p) →
      d'.datas.live p = true ∧ ∀ x ∈ d'.vmas, x.vmPrivateData ≠ p)
    (hfinds : ∀ t, (j, t) ∈ finds → (j, t) ∈ finds')
    (hdie : ∀ t, w = .die t → users d finds t = 0 → users d' finds' t = 0)
    (hclear : w = .clear → d.templateList = [] → d'.templateList = []) :
    WorkOk d' busy' finds' j w := by
  cases w with
  | nothing => trivial
  | build x => exact h
  | find t => exact hfinds t h
  | die t => exact hdie t rfl h
  | fault p => exact hfault p rfl h.1 h.2
  | close p => exact hclose p rfl h.1 h.2
  | clear => exact hclear rfl h

/-- It goes on while the VMAs stay and the templates only lose users. -/
theorem WorkOk.same (h : WorkOk d busy finds j w) (hvmas : d'.vmas = d.vmas)
    (hlive : ∀ p, w = .close p → d'.datas.live p = d.datas.live p)
    (hbusy : ∀ p, (j, p) ∈ busy → (j, p) ∈ busy')
    (hfinds : ∀ t, (j, t) ∈ finds → (j, t) ∈ finds')
    (hdie : ∀ t, w = .die t → users d' finds' t ≤ users d finds t)
    (hclear : w = .clear → d.templateList = [] → d'.templateList = []) :
    WorkOk d' busy' finds' j w := by
  refine h.mono (fun p _ hp hx => ⟨hbusy p hp, ?_⟩) (fun p hw hp hx => ⟨?_, ?_⟩) hfinds
    (fun t hw ht => Nat.le_zero.mp ((hdie t hw).trans (Nat.le_of_eq ht))) hclear
  · rw [hvmas]
    exact hx
  · rw [hlive p hw]
    exact hp
  · rw [hvmas]
    exact hx

end Work

/-! ## Data of VMAs -/

section Data

variable {d d' : DriverState} {p : Nat}

theorem DataOk.congr (h : DataOk d) (hvmas : d'.vmas = d.vmas)
    (hnextVma : d'.nextVma = d.nextVma) (hnext : d'.datas.next = d.datas.next)
    (hlive : d'.datas.live = d.datas.live)
    (hmap : ∀ p, d.datas.live p = false →
      (d'.datas.val p).vaToPaMap = (d.datas.val p).vaToPaMap) : DataOk d' where
  below p hp := by
    rw [hlive] at hp
    rw [hnext]
    exact h.below p hp
  dead p hp := by
    rw [hlive] at hp
    rw [hmap p hp]
    exact h.dead p hp
  live := by
    rw [hvmas, hlive]
    exact h.live
  apart := by
    rw [hvmas]
    exact h.apart
  ids := by
    rw [hvmas]
    exact h.ids
  idBelow := by
    rw [hvmas, hnextVma]
    exact h.idBelow

theorem DataOk.setMap (h : DataOk d) (hp : d.datas.live p = true) (m : List VaToPaEntry) :
    DataOk { d with datas := d.datas.modify p (VmaSnapshotData.setMap m) } := by
  refine h.congr rfl rfl rfl rfl fun q hq => ?_
  have hqp : q ≠ p := fun he => by
    rw [he] at hq
    exact Bool.noConfusion (hp.symm.trans hq)
  show ((d.datas.modify p (VmaSnapshotData.setMap m)).val q).vaToPaMap = _
  rw [val_modify_of_ne _ _ hqp]

theorem dataOk_addVma (h : DataOk d) (call : MmapCall) (t : Nat) : DataOk (addVma d call t) := by
  have hlive : ∀ q, q ≠ d.datas.next →
      (addVma d call t).datas.live q = d.datas.live q := fun q hq => live_alloc_of_ne _ _ hq
  have hold : ∀ x ∈ d.vmas, x.vmPrivateData ≠ d.datas.next := fun x hx he =>
    Nat.lt_irrefl _ (he ▸ h.below _ (h.live x hx))
  refine ⟨fun q hq => ?_, fun q hq => ?_, fun x hx => ?_, ?_, ?_, fun x hx => ?_⟩
  · show q < d.datas.next + 1
    by_cases hnew : q = d.datas.next
    · omega
    · rw [hlive q hnew] at hq
      exact Nat.lt_succ_of_lt (h.below q hq)
  · have hnew : q ≠ d.datas.next := fun he => by
      have hself : (addVma d call t).datas.live d.datas.next = true := live_alloc_self _ _
      rw [he, hself] at hq
      cases hq
    show ((d.datas.alloc ⟨t, []⟩).val q).vaToPaMap = []
    rw [val_alloc_of_ne _ _ hnew]
    rw [hlive q hnew] at hq
    exact h.dead q hq
  · rcases List.mem_append.mp hx with hx | hx
    · rw [hlive _ (hold x hx)]
      exact h.live x hx
    · rw [List.mem_singleton.mp hx]
      exact live_alloc_self _ _
  · show ((d.vmas ++ [_]).map Vma.vmPrivateData).Nodup
    rw [List.map_append]
    refine List.nodup_append.mpr ⟨h.apart, List.nodup_singleton _, ?_⟩
    rintro q hq r hr
    obtain ⟨x, hx, rfl⟩ := List.mem_map.mp hq
    rw [List.mem_singleton.mp hr]
    exact hold x hx
  · show ((d.vmas ++ [_]).map Vma.vmId).Nodup
    rw [List.map_append]
    refine List.nodup_append.mpr ⟨h.ids, List.nodup_singleton _, ?_⟩
    rintro q hq r hr
    obtain ⟨x, hx, rfl⟩ := List.mem_map.mp hq
    rw [List.mem_singleton.mp hr]
    exact Nat.ne_of_lt (h.idBelow x hx)
  · show x.vmId < d.nextVma + 1
    rcases List.mem_append.mp hx with hx | hx
    · exact Nat.lt_succ_of_lt (h.idBelow x hx)
    · rw [List.mem_singleton.mp hx]
      exact Nat.lt_succ_self _

theorem mem_dropVma : x ∈ (dropVma d v).vmas ↔ x ∈ d.vmas ∧ x.vmId ≠ v := by
  rw [dropVma, List.mem_filter, decide_eq_true_iff]

theorem dataOk_dropVma (h : DataOk d) (v : Nat) : DataOk (dropVma d v) where
  below := h.below
  dead := h.dead
  live x hx := h.live x (mem_dropVma.mp hx).1
  apart := h.apart.sublist (List.filter_sublist.map _)
  ids := h.ids.sublist (List.filter_sublist.map _)
  idBelow x hx := h.idBelow x (mem_dropVma.mp hx).1

/-- One VMA is dropped, and no other has its data. -/
theorem DataOk.dropped (h : DataOk d) {y : Vma} (hx : findVma d v = some x) (hy : y ∈ d.vmas) :
    y ∈ (dropVma d v).vmas ↔ y.vmPrivateData ≠ x.vmPrivateData := by
  obtain ⟨hmem, rfl⟩ := mem_of_findVma hx
  rw [mem_dropVma]
  constructor
  · rintro ⟨-, hid⟩ he
    exact hid (congrArg Vma.vmId (List.inj_on_of_nodup_map h.apart hy hmem he))
  · intro hne
    refine ⟨hy, fun hid => hne ?_⟩
    rw [List.inj_on_of_nodup_map h.ids hy hmem hid]

theorem dataOk_freeData (h : DataOk d) (hp : ∀ x ∈ d.vmas, x.vmPrivateData ≠ p) :
    DataOk (freeData d p) := by
  have hlive : ∀ q, q ≠ p → (freeData d p).datas.live q = d.datas.live q :=
    fun q hq => live_free_of_ne _ hq
  have hdead : (freeData d p).datas.live p = false := live_free_self _ _
  refine ⟨fun q hq => ?_, fun q hq => ?_, fun x hx => ?_, h.apart, h.ids, h.idBelow⟩
  · have hqp : q ≠ p := fun he => by
      rw [he, hdead] at hq
      cases hq
    rw [hlive q hqp] at hq
    exact h.below q hq
  · show ((d.datas.modify p (VmaSnapshotData.setMap [])).val q).vaToPaMap = []
    by_cases hqp : q = p
    · rw [hqp, val_modify_self]
      rfl
    · rw [val_modify_of_ne _ _ hqp]
      rw [hlive q hqp] at hq
      exact h.dead q hq
  · rw [hlive _ (hp x hx)]
    exact h.live x hx

end Data

/-- No count is about to reach the end of its word. -/
structure Room (s : CallState) : Prop where
  entries : ∀ e, count s.refs (tracked s.d) e + 1 < 2 ^ 31
  templates : ∀ t, (s.d.templates.val t).refCount.toNat + 1 < 2 ^ 31
  total : (linkedEntries (coreOf s.d)).card + 1 < 2 ^ 64

/-! ## Calls of the pool -/

variable {p : Nat}

section Pool

variable {w : ThreadState} {i : Nat}

variable {a : Action} {ok : Bool} {h : UInt64}

theorem pcs_of_move (hmove : PoolMove s.threads i a w) (hji : j ≠ i) : w.pcs j = s.pcs j := by
  cases hmove with
  | miss => rfl
  | _ => exact update_of_ne hji _ _

theorem count_of_move (hmove : PoolMove s.threads i a w) (hji : j ≠ i) (e : Nat) :
    w.refs.count (j, e) = s.refs.count (j, e) := by
  rcases refs_of_move hmove with hrefs | ⟨x, hrefs⟩ | ⟨x, -, -, hrefs⟩
  · rw [hrefs]
    rfl
  · rw [hrefs]
    exact count_cons_other hji x e
  · rw [hrefs]
    exact count_erase_other hji x e

/-- A lookup ends with its first step. -/
theorem lookup_step (hpc : s.pcs i = .idle) (hnone : Holds s.refs i none)
    (hstep : pcStep s.threads i .idle (.lookup h) = some w) :
    w.pcs i = .idle ∧ ∃ r, Holds w.refs i r := by
  rw [pcStep] at hstep
  split at hstep
  · cases hstep
    exact ⟨update_self _ _ _, _, hnone.cons _⟩
  · cases hstep
    exact ⟨hpc, none, hnone⟩

/-- An add goes on or returns. -/
theorem add_step {data : List UInt8} (hadd : Adding pc s.refs i)
    (hstep : pcStep s.threads i pc (nextAction (.add h data) ok pc) = some w) :
    (w.pcs i ≠ .idle ∧ Adding (w.pcs i) w.refs i) ∨ (w.pcs i = .idle ∧ ∃ r, Holds w.refs i r) := by
  -- where the thread is afterwards, if it goes on
  have hgoes : ∀ p, w.pcs i = p → p ≠ .idle → Adding p w.refs i →
      (w.pcs i ≠ .idle ∧ Adding (w.pcs i) w.refs i)
        ∨ (w.pcs i = .idle ∧ ∃ r, Holds w.refs i r) := by
    intro p hp hne hadding
    rw [hp]
    exact .inl ⟨hne, hadding⟩
  rcases hadd with ⟨hbuild, hnone⟩ | ⟨e, x, rfl | rfl, hsome⟩
  · cases pc with
    | idle =>
      rw [nextAction, pcStep] at hstep
      split at hstep
      · cases hstep
        exact .inr ⟨update_self _ _ _, _, hnone.cons _⟩
      · cases hstep
        exact hgoes _ (update_self _ _ _) (by simp) (.inl ⟨trivial, hnone⟩)
    | checked k data' =>
      rw [nextAction, pcStep] at hstep
      · split at hstep
        · cases hstep
          exact hgoes _ (update_self _ _ _) (by simp) (.inl ⟨trivial, hnone⟩)
        · cases hstep
          exact .inr ⟨update_self _ _ _, none, hnone⟩
      · simp
    | gotEntry k data' e =>
      rw [nextAction, pcStep] at hstep
      · split at hstep
        · cases hstep
          exact hgoes _ (update_self _ _ _) (by simp) (.inl ⟨trivial, hnone⟩)
        · cases hstep
          exact hgoes _ (update_self _ _ _) (by simp) (.inl ⟨trivial, hnone⟩)
      · simp
    | noPage e =>
      cases hstep
      exact .inr ⟨update_self _ _ _, none, hnone⟩
    | filled k e =>
      rw [nextAction, pcStep] at hstep
      · split at hstep
        · cases hstep
          exact hgoes _ (update_self _ _ _) (by simp)
            (.inr ⟨e, _, .inl rfl, hnone.cons _⟩)
        · cases hstep
          exact .inr ⟨update_self _ _ _, _, hnone.cons e⟩
      · simp
    | _ => exact hbuild.elim
  · cases hstep
    exact hgoes _ (update_self _ _ _) (by simp) (.inr ⟨e, x, .inr rfl, hsome⟩)
  · cases hstep
    exact .inr ⟨update_self _ _ _, some x, hsome⟩

/-- An unref goes on or returns; its reference is gone with the first step. -/
theorem unref_step (hdrop : Dropping pc s.refs i e)
    (hstep : pcStep s.threads i pc (nextAction (.unref e) ok pc) = some w) :
    (w.pcs i ≠ .idle ∧ Dropping (w.pcs i) w.refs i e)
      ∨ (w.pcs i = .idle ∧ Holds w.refs i none) := by
  have hgoes : ∀ p, w.pcs i = p → p ≠ .idle → Dropping p w.refs i e →
      (w.pcs i ≠ .idle ∧ Dropping (w.pcs i) w.refs i e)
        ∨ (w.pcs i = .idle ∧ Holds w.refs i none) := by
    intro p hp hne hdropping
    rw [hp]
    exact .inl ⟨hne, hdropping⟩
  rcases hdrop with ⟨rfl, hsome⟩ | ⟨rfl | rfl, hnone⟩
  · rw [nextAction, pcStep] at hstep
    split at hstep
    · split at hstep
      · cases hstep
        exact hgoes _ (update_self _ _ _) (by simp)
          (.inr ⟨.inl rfl, hsome.erase⟩)
      · cases hstep
        exact .inr ⟨update_self _ _ _, hsome.erase⟩
    · cases hstep
  · cases hstep
    exact hgoes _ (update_self _ _ _) (by simp) (.inr ⟨.inr rfl, hnone⟩)
  · cases hstep
    exact .inr ⟨update_self _ _ _, hnone⟩

/-- **A step in the pool** changes nothing else. -/
theorem CallsInv.inPool (h : CallsInv s) (hroom : Room s) (hmove : PoolMove s.threads i a w)
    (hbusy : ∀ j, j ≠ i → ∀ p, (j, p) ∈ s.busy → (j, p) ∈ busy)
    (hplace : PoolPlace (w.pcs i) w.refs i c) (hwork : WorkOk s.d busy s.finds i (work c))
    (hsame : ∀ p, work c = .close p → work (s.calls i) = .close p) :
    CallsInv ⟨(s.withThreads w).d, w.pcs, w.refs, update s.calls i c, busy, s.finds⟩ := by
  have hbound : ∀ e, count w.refs (tracked s.d) e < 2 ^ 31 := by
    intro e
    have hold := hroom.entries e
    rcases refs_of_move hmove with hrefs | ⟨x, hrefs⟩ | ⟨x, -, hmem, hrefs⟩
    · rw [hrefs]
      exact Nat.lt_of_succ_lt hold
    · rw [hrefs]
      show count ((i, x) :: s.refs) (tracked s.d) e < 2 ^ 31
      rw [count, List.countP_cons]
      rw [count] at hold
      split <;> omega
    · rw [hrefs]
      have hle : (s.refs.erase (i, x)).countP (fun r => r.2 == e)
          ≤ s.refs.countP fun r => r.2 == e := List.erase_sublist.countP_le
      show count (s.refs.erase (i, x)) (tracked s.d) e < 2 ^ 31
      rw [count]
      rw [count] at hold
      omega
  have hpool : Inv w (tracked s.d) := h.pool.move hmove hbound
  refine h.frame hpool (h.data.congr rfl rfl rfl rfl fun _ _ => rfl)
    (h.templates.congr rfl rfl rfl) (fun j hji => pcs_of_move hmove hji)
    (fun j hji e => count_of_move hmove hji e) (fun j hji hj => ?_) hplace ?_
    (fun p hp j hji hj => hji (h.apart j i p hj (hsame p hp)))
  · exact hj.same rfl (fun _ _ => rfl) (hbusy j hji) (fun _ ht => ht)
      (fun _ _ => Nat.le_refl _) (fun _ hl => hl)
  · exact hwork.same rfl (fun _ _ => rfl) (fun _ hp => hp) (fun _ ht => ht) (fun _ _ => Nat.le_refl _)
      (fun _ hl => hl)

theorem afterPool_idle (hpc : w.pcs i = .idle) :
    afterPool s i c w = resume (s.withThreads w) i c (held w.refs i) := by
  rw [afterPool, hpc]

theorem afterPool_goes (hcall : s.calls i = c) (hpc : w.pcs i ≠ .idle) :
    afterPool s i c w
      = ⟨(s.withThreads w).d, w.pcs, w.refs, update s.calls i c, s.busy, s.finds⟩ := by
  rw [← hcall, update_eq_self, afterPool]
  cases hp : w.pcs i with
  | idle => exact absurd hp hpc
  | _ => rfl

theorem mem_endFault (hji : j ≠ i) (hmem : (j, p) ∈ busy) : (j, p) ∈ busy.filter fun r => r.1 ≠ i :=
  List.mem_filter.mpr ⟨hmem, decide_eq_true hji⟩

/-- **A call of the pool** goes on, or hands its thread what it asked for. -/
theorem CallsInv.afterPool (h : CallsInv s) (hroom : Room s) {request : Action}
    (hcall : s.calls i = c) (hrequest : c.request = some request)
    (hstep : poolStep s.threads (i, nextAction request ok (s.pcs i)) = some w) :
    CallsInv (afterPool s i c w) := by
  have hmove := move_of_step hstep
  have hplace := h.place i
  have hwork := h.works i
  rw [hcall] at hplace hwork
  replace hstep : pcStep s.threads i (s.pcs i) (nextAction request ok (s.pcs i)) = some w := hstep
  cases c with
  | lookup p off k f env =>
    cases hrequest
    obtain ⟨hpc, hnone⟩ := hplace
    rw [hpc] at hstep
    obtain ⟨hidle, r, hr⟩ := lookup_step hpc hnone hstep
    rw [afterPool_idle hidle, hr.held]
    cases r with
    | none =>
      exact h.inPool hroom hmove (fun _ _ _ hp => hp) (c := .load p off k f env)
        ⟨hidle, hr⟩ hwork (fun _ hp => by cases hp)
    | some e =>
      exact h.inPool hroom hmove (fun _ _ _ hp => hp) (c := .map p off e env)
        ⟨hidle, hr⟩ hwork (fun _ hp => by cases hp)
  | add p off k data env =>
    cases hrequest
    rcases add_step hplace hstep with ⟨hgoes, hadding⟩ | ⟨hidle, r, hr⟩
    · rw [afterPool_goes hcall hgoes]
      exact h.inPool hroom hmove (fun _ _ _ hp => hp) hadding hwork (fun _ hp => by cases hp)
    · rw [afterPool_idle hidle, hr.held]
      cases r with
      | none =>
        exact h.inPool hroom hmove (fun _ hji _ hp => mem_endFault hji hp) (c := .idle)
          ⟨hidle, hr⟩ trivial (fun _ hp => by cases hp)
      | some e =>
        exact h.inPool hroom hmove (fun _ _ _ hp => hp) (c := .map p off e env)
          ⟨hidle, hr⟩ hwork (fun _ hp => by cases hp)
  | undo p e =>
    cases hrequest
    rcases unref_step hplace hstep with ⟨hgoes, hdropping⟩ | ⟨hidle, hnone⟩
    · rw [afterPool_goes hcall hgoes]
      exact h.inPool hroom hmove (fun _ _ _ hp => hp) hdropping hwork (fun _ hp => by cases hp)
    · rw [afterPool_idle hidle]
      exact h.inPool hroom hmove (fun _ hji _ hp => mem_endFault hji hp) (c := .idle)
        ⟨hidle, hnone⟩ trivial (fun _ hp => by cases hp)
  | release p e =>
    cases hrequest
    have hsame : ∀ q, Work.close p = .close q → work (s.calls i) = .close q := by
      intro q hq
      rw [hcall]
      exact hq
    rcases unref_step hplace hstep with ⟨hgoes, hdropping⟩ | ⟨hidle, hnone⟩
    · rw [afterPool_goes hcall hgoes]
      exact h.inPool hroom hmove (fun _ _ _ hp => hp) hdropping hwork hsame
    · rw [afterPool_idle hidle]
      exact h.inPool hroom hmove (fun _ _ _ hp => hp) (c := .close p) ⟨hidle, hnone⟩ hwork hsame
  | _ => cases hrequest

end Pool

/-! ## Calls on templates -/

section Templates

variable {i : Nat}

/-- **A step on the list of templates**; mappings and pool stay as they are. -/
theorem CallsInv.onTemplates (h : CallsInv s) {templates : Heap Template} {l : List Nat}
    {finds : List (Nat × Nat)}
    (htemplates : TemplatesOk { s.d with templates := templates, templateList := l } finds)
    (hbusy : ∀ j, j ≠ i → ∀ p, (j, p) ∈ s.busy → (j, p) ∈ busy)
    (hfinds : ∀ j, j ≠ i → ∀ t, (j, t) ∈ s.finds → (j, t) ∈ finds)
    (hdie : ∀ j, j ≠ i → ∀ t, work (s.calls j) = .die t → users s.d finds t ≤ users s.d s.finds t)
    (hclear : ∀ j, j ≠ i → work (s.calls j) = .clear → s.d.templateList = [] → l = [])
    (hplace : PoolPlace (s.pcs i) s.refs i c)
    (hwork : WorkOk { s.d with templates := templates, templateList := l } busy finds i
      (work c)) (hclose : ∀ p, work c ≠ .close p) :
    CallsInv ⟨{ s.d with templates := templates, templateList := l }, s.pcs, s.refs,
      update s.calls i c, busy, finds⟩ := by
  refine h.frame h.pool (h.data.congr rfl rfl rfl rfl fun _ _ => rfl) htemplates
    (fun _ _ => rfl) (fun _ _ _ => rfl) (fun j hji hj => ?_) hplace hwork
    (fun p hp => absurd hp (hclose p))
  exact hj.same rfl (fun _ _ => rfl) (hbusy j hji) (hfinds j hji) (hdie j hji) (hclear j hji)

/-- A thread goes on without touching the driver. -/
theorem CallsInv.goes (h : CallsInv s) (hbusy : ∀ j, j ≠ i → ∀ p, (j, p) ∈ s.busy → (j, p) ∈ busy)
    (hplace : PoolPlace (s.pcs i) s.refs i c) (hwork : WorkOk s.d busy s.finds i (work c))
    (hclose : ∀ p, work c ≠ .close p) :
    CallsInv ⟨s.d, s.pcs, s.refs, update s.calls i c, busy, s.finds⟩ :=
  h.onTemplates h.templates hbusy (fun _ _ _ ht => ht) (fun _ _ _ _ => Nat.le_refl _)
    (fun _ _ _ hl => hl) hplace hwork hclose

/-- A failed create leaves at most a freed template. -/
theorem CallsInv.discard (h : CallsInv s) (hcall : s.calls i = .idle) :
    CallsInv (s.withDriver (discardTemplate s.d)) := by
  have hplace := h.place i
  rw [hcall] at hplace
  have hinv := h.onTemplates (i := i) (c := .idle) h.templates.discard (fun _ _ _ hp => hp)
    (fun _ _ _ ht => ht) (fun _ _ _ _ => Nat.le_refl _) (fun _ _ _ hl => hl) hplace trivial
    (fun _ hp => by cases hp)
  rw [← hcall, update_eq_self] at hinv
  exact hinv

/-- **A template is listed** while no delete is clearing the pool. -/
theorem CallsInv.lists (h : CallsInv s) {x : Template} (hcall : s.calls i = .built x)
    (hclear : ∀ j, work (s.calls j) ≠ .clear) :
    CallsInv ((s.withDriver (created s.d x)).setCall i .idle) := by
  have hplace := h.place i
  have hwork := h.works i
  rw [hcall] at hplace hwork
  exact h.onTemplates (c := .idle) (h.templates.created hwork) (fun _ _ _ hp => hp)
    (fun _ _ _ ht => ht) (fun _ _ _ _ => Nat.le_refl _) (fun j _ hj => absurd hj (hclear j))
    hplace trivial (fun _ hp => by cases hp)

/-- **`snapshot_template_find_ref`** on a template that no thread is about to unlink. -/
theorem CallsInv.finds (h : CallsInv s) (hroom : Room s) (hcall : s.calls i = .idle)
    (ht : mmapTarget s.d call = some t) (hdie : ∀ j, work (s.calls j) ≠ .die t) :
    CallsInv { (s.withDriver (addTemplateRef s.d t 1)).setCall i (.found t call) with
      finds := (i, t) :: s.finds } := by
  have hplace := h.place i
  rw [hcall] at hplace
  have hother : ∀ u, u ≠ t → users s.d ((i, t) :: s.finds) u = users s.d s.finds u := by
    intro u hu
    rw [users_cons, if_neg hu, Nat.add_zero]
  have htemplates : TemplatesOk (addTemplateRef s.d t 1) ((i, t) :: s.finds) := by
    refine h.templates.ref (mem_of_mmapTarget ht) (hroom.templates t) rfl rfl ?_ hother
    rw [users_cons, if_pos rfl]
  refine h.onTemplates (c := .found t call) htemplates (fun _ _ _ hp => hp)
    (fun _ _ _ hu => List.mem_cons_of_mem _ hu) (fun j _ u hj => ?_) (fun _ _ _ hl => hl)
    hplace (List.mem_cons_self ..) (fun _ hp => by cases hp)
  exact Nat.le_of_eq (hother u fun hu => hdie j (hu ▸ hj))

/-- A thread that has dropped a reference is done, or has a template to unlink. -/
theorem workOk_dropped {finds : List (Nat × Nat)} (h : TemplatesOk d finds)
    (busy : List (Nat × Nat)) :
    WorkOk d busy finds i
      (work (if (d.templates.val t).refCount = 0 then .dying t else .idle)) := by
  split
  · rename_i hzero
    exact h.unused hzero
  · trivial

theorem poolPlace_dropped (hpc : pc = .idle) (hnone : Holds refs i none) :
    PoolPlace pc refs i (if (d.templates.val t).refCount = 0 then .dying t else .idle) := by
  split
  · exact ⟨hpc, hnone⟩
  · exact ⟨hpc, hnone⟩

theorem work_dropped (d : DriverState) (t p : Nat) :
    work (if (d.templates.val t).refCount = 0 then .dying t else .idle) ≠ .close p := by
  split
  · simp [work]
  · simp [work]

/-- **An `mmap` fails** and gives its reference back. -/
theorem CallsInv.unfinds (h : CallsInv s) (hcall : s.calls i = .found t call) :
    CallsInv (dropTemplate { s with finds := s.finds.erase (i, t) } i t) := by
  have hplace := h.place i
  have hmem := h.works i
  rw [hcall] at hplace hmem
  have husers := users_erase s.d (hmem : (i, t) ∈ s.finds)
  have htemplates : TemplatesOk (addTemplateRef s.d t (-1)) (s.finds.erase (i, t)) := by
    refine h.templates.unref rfl rfl ?_ fun u hu => ?_
    · rw [← husers t, if_pos rfl]
    · rw [← husers u, if_neg hu, Nat.add_zero]
  refine h.onTemplates htemplates (fun _ _ _ hp => hp)
    (fun j hji u hu => ?_) (fun j _ u _ => ?_) (fun _ _ _ hl => hl)
    (poolPlace_dropped hplace.1 hplace.2) (workOk_dropped htemplates s.busy)
    (work_dropped _ t)
  · exact (List.mem_erase_of_ne fun heq => hji (congrArg Prod.fst heq)).mpr hu
  · rw [← husers u]
    exact Nat.le_add_right _ _

/-- **A template without users is unlinked.** -/
theorem CallsInv.unlinks (h : CallsInv s) (hzero : users s.d s.finds t = 0)
    (hplace : PoolPlace (s.pcs i) s.refs i c) (hwork : work c = .nothing) :
    CallsInv ((s.withDriver (removeTemplate s.d t)).setCall i c) := by
  refine h.onTemplates (h.templates.remove hzero) (fun _ _ _ hp => hp) (fun _ _ _ ht => ht)
    (fun _ _ _ _ => Nat.le_refl _) (fun _ _ _ hl => ?_) hplace ?_ (fun p hp => ?_)
  · rw [hl]
    rfl
  · rw [hwork]
    trivial
  · rw [hwork] at hp
    cases hp

end Templates

/-! ## Calls on VMAs -/

section Vmas

variable {i : Nat} {m : List VaToPaEntry}

/-- **A VMA is mapped.** -/
theorem CallsInv.maps (h : CallsInv s) (hroom : Room s) (hcall : s.calls i = .found t call) :
    CallsInv { (s.withDriver (addTemplateRef (addVma s.d call t) t 1)).setCall i .idle with
      finds := s.finds.erase (i, t) } := by
  have hplace := h.place i
  have hmem := h.works i
  rw [hcall] at hplace hmem
  replace hmem : (i, t) ∈ s.finds := hmem
  -- the mapping takes the place of the call among the users
  have husers : ∀ u, users (addVma s.d call t) (s.finds.erase (i, t)) u
      = users s.d s.finds u := fun u => by
    rw [users_addVma, users_erase s.d hmem]
  have hlisted : t ∈ s.d.templateList := by
    refine h.templates.listed t ?_
    have herase := users_erase s.d hmem t
    rw [if_pos rfl] at herase
    omega
  have htemplates : TemplatesOk (addTemplateRef (addVma s.d call t) t 1)
      (s.finds.erase (i, t)) := by
    refine h.templates.ref hlisted (hroom.templates t) rfl rfl ?_ fun u _ => husers u
    rw [husers]
    exact Nat.le_succ _
  have hdata := dataOk_addVma h.data call t
  have hpool : Inv ⟨coreOf s.d, s.pcs, s.refs⟩ (tracked (addVma s.d call t)) := by
    rw [tracked_addVma]
    exact h.pool
  refine h.frame (c := .idle) hpool (hdata.congr rfl rfl rfl rfl fun _ _ => rfl) htemplates
    (fun _ _ => rfl) (fun _ _ _ => rfl) (fun j hji hj => ?_) hplace trivial
    (fun _ hp => by cases hp)
  refine hj.mono (fun p _ hp hx => ⟨hp, ?_⟩) (fun p _ hp hx => ?_) (fun u hu => ?_)
    (fun u _ hu => (husers u).trans hu) (fun _ hl => hl)
  · obtain ⟨x, hx, hxp⟩ := hx
    exact ⟨x, List.mem_append_left _ hx, hxp⟩
  · have hne : p ≠ s.d.datas.next := Nat.ne_of_lt (h.data.below p hp)
    refine ⟨(live_alloc_of_ne _ _ hne).trans hp, fun x hx' => ?_⟩
    rcases List.mem_append.mp hx' with hx' | hx'
    · exact hx x hx'
    · rw [List.mem_singleton.mp hx']
      exact hne.symm
  · exact (List.mem_erase_of_ne fun heq => hji (congrArg Prod.fst heq)).mpr hu

/-- **A VMA goes away** when no fault is on it. -/
theorem CallsInv.closes (h : CallsInv s) (hcall : s.calls i = .idle) (hx : findVma s.d v = some x)
    (hfree : ∀ r ∈ s.busy, r.2 ≠ x.vmPrivateData) :
    CallsInv ((s.withDriver (dropVma s.d v)).setCall i (.close x.vmPrivateData)) := by
  have hplace := h.place i
  rw [hcall] at hplace
  have hmem := (mem_of_findVma hx).1
  refine h.frame (c := .close x.vmPrivateData) h.pool (dataOk_dropVma h.data v)
    (h.templates.congr rfl rfl rfl) (fun _ _ => rfl) (fun _ _ _ => rfl)
    (fun j hji hj => ?_) hplace ?_
    (fun p hp j hji hj => ?_)
  · refine hj.mono (fun p _ hp hy => ⟨hp, ?_⟩)
      (fun p _ hp hy => ⟨hp, fun y hy' => hy y (mem_dropVma.mp hy').1⟩)
      (fun _ hu => hu) (fun _ _ hu => hu) (fun _ hl => hl)
    obtain ⟨y, hy, hyp⟩ := hy
    exact ⟨y, (h.data.dropped hx hy).mpr (hyp ▸ hfree (j, p) hp), hyp⟩
  · refine ⟨h.data.live x hmem, fun y hy => ?_⟩
    exact (h.data.dropped hx (mem_dropVma.mp hy).1).mp hy
  · -- a thread that closes this data would have found no VMA with it
    cases hp
    have hother := h.works j
    rw [hj] at hother
    exact hother.2 x hmem rfl

/-- **The end of a close.** -/
theorem CallsInv.closed (h : CallsInv s) (hcall : s.calls i = .close p)
    (hmap : (s.d.datas.val p).vaToPaMap = []) :
    CallsInv (dropTemplate (s.withDriver (freeData s.d p)) i (s.d.datas.val p).template) := by
  have hplace := h.place i
  have hwork := h.works i
  rw [hcall] at hplace hwork
  obtain ⟨hlive, hnone⟩ := hwork
  generalize ht : (s.d.datas.val p).template = t
  have hin : p ∈ mappings s.d t := mem_mappings.mpr ⟨h.data.below p hlive, hlive, ht⟩
  have husers : ∀ u, users (freeData s.d p) s.finds u + (if u = t then 1 else 0)
      = users s.d s.finds u := users_freeData hin
  have htemplates : TemplatesOk (addTemplateRef (freeData s.d p) t (-1)) s.finds := by
    refine h.templates.unref rfl rfl ?_ fun u hu => ?_
    · rw [← husers t, if_pos rfl]
    · rw [← husers u, if_neg hu, Nat.add_zero]
  have htracked : tracked (freeData s.d p) = tracked s.d := by
    refine tracked_congr rfl fun q _ => ?_
    show ((s.d.datas.modify p (VmaSnapshotData.setMap [])).val q).vaToPaMap = _
    by_cases hq : q = p
    · rw [hq, val_modify_self, hmap]
      rfl
    · rw [val_modify_of_ne _ _ hq]
  have hpool : Inv ⟨coreOf s.d, s.pcs, s.refs⟩ (tracked (freeData s.d p)) := by
    rw [htracked]
    exact h.pool
  have hdata := dataOk_freeData h.data hnone
  refine h.frame hpool (hdata.congr rfl rfl rfl rfl fun _ _ => rfl) htemplates
    (fun _ _ => rfl) (fun _ _ _ => rfl) (fun j hji hj => ?_)
    (poolPlace_dropped hplace.1 hplace.2) (workOk_dropped htemplates s.busy)
    (fun q hq => absurd hq (work_dropped _ t q))
  refine hj.same rfl (fun q hq => ?_) (fun _ hp => hp) (fun _ hu => hu) (fun u _ => ?_)
    (fun _ hl => hl)
  · have hqp : q ≠ p := fun he => hji (h.apart j i p (he ▸ hq) (by rw [hcall]; rfl))
    exact live_free_of_ne _ hqp
  · rw [← husers u]
    exact Nat.le_add_right _ _

/-! ### The tree of a VMA -/

/-- The tree of one VMA is changed, and the page references of one entry. -/
def setTree (d : DriverState) (p : Nat) (m : List VaToPaEntry) (e : Nat) (n : Int)
    (allocated freed : Nat) : DriverState :=
  { d with
    datas := d.datas.modify p (VmaSnapshotData.setMap m)
    entries := d.entries.modify e (PhysPageEntry.addPageRefs n)
    nodesAllocated := allocated
    nodesFreed := freed }

/-- **A reference goes into a tree or comes out of it.** -/
theorem CallsInv.onTree (h : CallsInv s) {a b : Nat} {n : Int} (hpc : s.pcs i = .idle)
    (hlive : s.d.datas.live p = true) (he : Linked (coreOf s.d) e)
    (hcount : count refs (tracked (setTree s.d p m e n a b)) = count s.refs (tracked s.d))
    (hother : ∀ e', e' ≠ e → tracked (setTree s.d p m e n a b) e' = tracked s.d e')
    (hn : (tracked s.d e : Int) + n = tracked (setTree s.d p m e n a b) e)
    (hrefs : ∀ j, j ≠ i → ∀ e', refs.count (j, e') = s.refs.count (j, e'))
    (hbusy : ∀ j, j ≠ i → ∀ q, (j, q) ∈ s.busy → (j, q) ∈ busy)
    (hplace : PoolPlace (s.pcs i) refs i c) (hwork : WorkOk s.d busy s.finds i (work c))
    (hsame : ∀ q, work c = .close q → work (s.calls i) = .close q) :
    CallsInv ⟨setTree s.d p m e n a b, s.pcs, refs, update s.calls i c, busy, s.finds⟩ := by
  have hmem : ∀ j, j ≠ i → ∀ y, (j, y) ∈ s.refs → (j, y) ∈ refs := by
    intro j hji y hy
    rw [← List.count_pos_iff, hrefs j hji y, List.count_pos_iff]
    exact hy
  have hpool : Inv ⟨coreOf (setTree s.d p m e n a b), s.pcs, refs⟩
      (tracked (setTree s.d p m e n a b)) := h.pool.shift hpc he hcount hother hn hmem
  have hmappings : mappings (setTree s.d p m e n a b) = mappings s.d := mappings_setMap m
  have husers : users (setTree s.d p m e n a b) s.finds = users s.d s.finds := users_congr hmappings
  refine h.frame hpool ((h.data.setMap hlive m).congr rfl rfl rfl rfl fun _ _ => rfl)
    (h.templates.congr rfl rfl hmappings) (fun _ _ => rfl) hrefs (fun j hji hj => ?_) hplace ?_
    (fun q hq j hji hj => hji (h.apart j i q hj (hsame q hq)))
  · exact hj.same rfl (fun _ _ => rfl) (hbusy j hji) (fun _ hu => hu)
      (fun u _ => by rw [husers]) (fun _ hl => hl)
  · exact hwork.same rfl (fun _ _ => rfl) (fun _ hp => hp) (fun _ hu => hu)
      (fun u _ => by rw [husers]) (fun _ hl => hl)

theorem tracked_setTree (hp : p < d.datas.next) (m : List VaToPaEntry) (e : Nat) (n : Int)
    (a b e' : Nat) :
    tracked (setTree d p m e n a b) e'
        + (d.datas.val p).vaToPaMap.countP (fun y => y.physEntry == e')
      = tracked d e' + m.countP (fun y => y.physEntry == e') :=
  tracked_setMap hp m e'

/-- The counts when a node comes on top of a tree. -/
theorem countP_node (y : VaToPaEntry) (m : List VaToPaEntry) (e : Nat) :
    (y :: m).countP (fun y => y.physEntry == e)
      = m.countP (fun y => y.physEntry == e) + if e = y.physEntry then 1 else 0 := by
  rw [List.countP_cons]
  by_cases he : e = y.physEntry
  · rw [if_pos he, he, if_pos (beq_self_eq_true _)]
  · rw [if_neg he, if_neg (by simpa using Ne.symm he)]

/-- A reference that `f` counts and `f'` does not, in the hand of a thread. -/
theorem count_handed {f f' : Nat → Nat} (refs : List (Nat × Nat)) (i : Nat)
    (h : ∀ e', f' e' + (if e' = e then 1 else 0) = f e') :
    count ((i, e) :: refs) f' = count refs f := by
  funext e'
  rw [count, count, List.countP_cons, ← h e']
  by_cases he : e' = e
  · rw [he, if_pos rfl, if_pos (beq_self_eq_true e)]
    omega
  · rw [if_neg he, if_neg (by simpa using Ne.symm he)]
    omega

/-- **A node is taken out of the tree** and its reference goes to the thread. -/
theorem CallsInv.takesNode (h : CallsInv s) {y : VaToPaEntry} (hcall : s.calls i = .close p)
    (hmap : (s.d.datas.val p).vaToPaMap = y :: m) : CallsInv (closeNode s i p) := by
  have hplace := h.place i
  have hwork := h.works i
  rw [hcall] at hplace hwork
  obtain ⟨hpc, hnone⟩ := hplace
  have hp := h.data.below p hwork.1
  generalize he : y.physEntry = e
  have htracked : ∀ e', tracked (setTree s.d p m e (-1) s.d.nodesAllocated
      (s.d.nodesFreed + 1)) e' + (if e' = e then 1 else 0) = tracked s.d e' := by
    intro e'
    have hset := tracked_setTree hp m e (-1) s.d.nodesAllocated (s.d.nodesFreed + 1) e'
    rw [hmap, countP_node, he] at hset
    omega
  have hself := htracked e
  rw [if_pos rfl] at hself
  have hlinked : Linked (coreOf s.d) e := by
    refine h.pool.pool.linked_of_pos ?_
    show 0 < count s.refs (tracked s.d) e
    rw [count]
    omega
  have hgoal : closeNode s i p
      = ⟨setTree s.d p m e (-1) s.d.nodesAllocated (s.d.nodesFreed + 1), s.pcs,
          (i, e) :: s.refs, update s.calls i (.release p e), s.busy, s.finds⟩ := by
    rw [closeNode, hmap, ← he]
    rfl
  rw [hgoal]
  refine h.onTree hpc hwork.1 hlinked (count_handed s.refs i htracked) (fun e' hne => ?_)
    (by omega) (fun j hji e' => count_cons_other hji e e') (fun _ _ _ hq => hq)
    (.inl ⟨hpc, hnone.cons e⟩) hwork (fun q hq => by rw [hcall]; exact hq)
  rw [← htracked e', if_neg hne]
  rfl

/-- What `map_page` needs for the books: a node exactly when the page is inserted, at an
    offset that has none. -/
def CleanMap (d : DriverState) (p off : Nat) (env : FaultEnv) : Prop :=
  env.kmallocNode = env.insertPage
    ∧ (env.kmallocNode = true → ∀ y ∈ (d.datas.val p).vaToPaMap, y.vaOffset ≠ off)

/-- `get_page` and `put_page`. -/
theorem addPageRefs_undo (d : DriverState) (e : Nat) :
    addPageRefs (addPageRefs d e 1) e (-1) = d := by
  have hback : ∀ (x : PhysPageEntry) (n : Int), (x.addPageRefs n).addPageRefs (-n) = x := by
    intro x n
    rw [PhysPageEntry.addPageRefs, PhysPageEntry.addPageRefs]
    dsimp only
    rw [Int.add_neg_cancel_right]
  rw [addPageRefs, addPageRefs]
  dsimp only
  rw [modify_modify, modify_of_eq _ _ (hback _ 1)]

/-- **A page is mapped**: the reference of the thread goes into the tree, or the thread
    keeps it to give it back. -/
theorem CallsInv.mapsPage (h : CallsInv s) {off : Nat} {env : FaultEnv}
    (hcall : s.calls i = .map p off e env) (hclean : CleanMap s.d p off env) :
    CallsInv (mapEntry s i p off e env) := by
  have hplace := h.place i
  have hwork := h.works i
  rw [hcall] at hplace hwork
  obtain ⟨hpc, hsome⟩ := hplace
  have hmem := hsome.mem_iff.mpr rfl
  obtain ⟨hnode, hnew⟩ := hclean
  rw [mapEntry]
  cases hinsert : env.insertPage with
  | false =>
    rw [hinsert] at hnode
    have hd : trackNode s.d p off e env.kmallocNode = s.d := by
      rw [hnode]
      rfl
    rw [hd, addPageRefs_undo, if_neg Bool.false_ne_true]
    exact h.goes (c := .undo p e) (fun _ _ _ hq => hq) (.inl ⟨hpc, hsome⟩) hwork
      (fun _ hq => by cases hq)
  | true =>
    rw [hinsert] at hnode
    obtain ⟨m, hm, hperm⟩ := PageAccounting.vaInsert_new ⟨off, e⟩ _ (hnew hnode)
    obtain ⟨hbusy, x, hx, hxp⟩ := hwork
    have hlive : s.d.datas.live p = true := hxp ▸ h.data.live x hx
    have hp := h.data.below p hlive
    have htracked : ∀ e', tracked s.d e' + (if e' = e then 1 else 0)
        = tracked (setTree s.d p m e 1 (s.d.nodesAllocated + 1) s.d.nodesFreed) e' := by
      intro e'
      have hset := tracked_setTree hp m e 1 (s.d.nodesAllocated + 1) s.d.nodesFreed e'
      rw [hperm.countP_eq, countP_node] at hset
      dsimp only at hset
      omega
    have hlinked : Linked (coreOf s.d) e := h.pool.pool.linked_of_pos (count_pos (tracked s.d) hmem)
    have hcount : count (s.refs.erase (i, e))
        (tracked (setTree s.d p m e 1 (s.d.nodesAllocated + 1) s.d.nodesFreed))
        = count s.refs (tracked s.d) := by
      rw [← count_handed (s.refs.erase (i, e)) i htracked]
      funext e'
      rw [count, count, (List.perm_cons_erase hmem).countP_eq]
    have hd : addPageRefs (trackNode s.d p off e env.kmallocNode) e 1
        = setTree s.d p m e 1 (s.d.nodesAllocated + 1) s.d.nodesFreed := by
      rw [hnode, trackNode, if_pos rfl]
      dsimp only
      rw [hm]
      rfl
    rw [hd, if_pos rfl]
    refine h.onTree (c := .idle) hpc hlive hlinked hcount (fun e' hne => ?_) ?_
      (fun j hji e' => count_erase_other hji e e') (fun _ hji _ hq => mem_endFault hji hq)
      ⟨hpc, hsome.erase⟩ trivial (fun _ hq => by cases hq)
    · rw [← htracked e', if_neg hne]
      rfl
    · rw [← htracked e, if_pos rfl]
      rfl

end Vmas

end DriverThreads
