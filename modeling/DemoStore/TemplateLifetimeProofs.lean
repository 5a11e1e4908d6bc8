import DemoStore.DriverFrameProofs
import DemoStore.ThreadPoolProofs

/-! # The life of a template under concurrency

    Threads run `snapshot_template_create`, `snapshot_mmap`, `snapshot_vma_open`,
    `snapshot_vma_close`, `snapshot_template_delete` and
    `snapshot_template_status` at the same time.  One step is one section under
    `template_lock` or one atomic operation on a `ref_count`; the program counter
    says where a thread is between two steps, and the ghost fields record every
    use of a freed template and how often each one was unlinked.

    Three things are unprotected: between `atomic_dec_and_test` and the lock in
    `snapshot_template_unref` the template is still in the list with a count of
    zero; `snapshot_template_find` returns a pointer without a reference; and the
    count is a machine word.  A run that stays clear of these is safe. -/

namespace TemplateLifetime

open ObjectHeap SnapshotDriver DriverFrame MachineRun ThreadPool List Option
open Function (update update_eq_self update_of_ne update_self)

/-! ## The threads -/

/-- Where a thread is.  `closing` is `snapshot_vma_close` before it prints the
    count, `release` everything after the `list_del` of an unref or a delete. -/
inductive Pc where
  | idle
  | createBuilt (x : Template)
  | mmapFound (t : Nat)
  | mmapInc (t : Nat)
  | closing (t : Nat)
  | unref (t : Nat)
  | unlink (t : Nat)
  | release (t : Nat)
  | statusFound (t : Nat)

/-- The calls a thread can start, and `go` for its next step; the argument of
    `go` is the outcome of the checks and allocations that step makes. -/
inductive Action where
  | create (x : Template)
  | mmap (id : List UInt8)
  | vmaOpen (t : Nat)
  | vmaClose (t : Nat)
  | delete (id : List UInt8)
  | status (id : List UInt8)
  | go (ok : Bool)

/-- `vmas` has the template of every live VMA. -/
structure LifeState where
  templates : Heap Template
  templateList : List Nat
  vmas : List Nat
  threads : List Pc
  misuse : List Nat
  unlinks : Nat → Nat

/-- No template, and every thread idle. -/
def start (n : Nat) : LifeState where
  templates := Heap.start
  templateList := []
  vmas := []
  threads := List.replicate n .idle
  misuse := []
  unlinks := fun _ => 0

/-- The templates that a search reads, up to the one it finds. -/
def scanned (templates : Heap Template) : List Nat → List UInt8 → List Nat
  | [], _ => []
  | t :: ts, id =>
    t :: if strncmpEq templateIdMaxLen (templates.val t).templateId id then []
      else scanned templates ts id

/-- Use the templates `ps`. -/
def touch (ps : List Nat) (s : LifeState) : LifeState :=
  { s with misuse := ps.filter (fun p => s.templates.live p = false) ++ s.misuse }

/-- A search touches what it walks over. -/
def scan (id : List UInt8) (s : LifeState) : LifeState :=
  touch (scanned s.templates s.templateList id) s

/-- `ref_count` changes by `n`. -/
def addRef (n : Atomic) (t : Nat) (s : LifeState) : LifeState :=
  { s with templates := s.templates.modify t (Template.addRef n) }

/-- `list_del`. -/
def unlinkTemplate (t : Nat) (s : LifeState) : LifeState :=
  { s with
    templateList := s.templateList.erase t
    unlinks := update s.unlinks t (s.unlinks t + 1) }

/-- `kfree`. -/
def freeTemplate (t : Nat) (s : LifeState) : LifeState :=
  { s with templates := s.templates.free t }

/-- `list_add_tail` of a new template, with the count `atomic_set` gives it. -/
def linkTemplate (x : Template) (s : LifeState) : LifeState :=
  { s with
    templates := s.templates.alloc { x with refCount := 0 }
    templateList := s.templateList ++ [s.templates.next] }

/-- One step of a thread at the given program counter. -/
def pcStep (s : LifeState) : Pc → Action → Option (Pc × LifeState)
  | .idle, .create x =>
    match searchList s.templates s.templateList x.templateId with
    | some _ => some (.idle, scan x.templateId s)
    | none => some (.createBuilt x, scan x.templateId s)
  | .createBuilt x, .go ok => some (.idle, if ok then linkTemplate x s else s)
  | .idle, .mmap id =>
    match searchList s.templates s.templateList id with
    | some t => some (.mmapFound t, addRef 1 t (scan id s))
    | none => some (.idle, scan id s)
  | .mmapFound t, .go ok => some (if ok then .mmapInc t else .unref t, touch [t] s)
  | .mmapInc t, .go _ =>
    some (.idle, addRef 1 t { touch [t] s with vmas := t :: s.vmas })
  | .idle, .vmaOpen t =>
    if t ∈ s.vmas then
      some (.idle, addRef 1 t { touch [t] s with vmas := t :: s.vmas })
    else none
  | .idle, .vmaClose t =>
    if t ∈ s.vmas then some (.closing t, { s with vmas := s.vmas.erase t }) else none
  | .closing t, .go _ => some (.unref t, touch [t] s)
  | .unref t, .go _ =>
    -- at zero the template stays listed until this thread has the lock
    let s := addRef (-1) t (touch [t] s)
    some (if (s.templates.val t).refCount = 0 then .unlink t else .idle, s)
  | .unlink t, .go _ => some (.release t, unlinkTemplate t (touch [t] s))
  | .release t, .go _ => some (.idle, freeTemplate t (touch [t] s))
  | .idle, .delete id =>
    match searchList s.templates s.templateList id with
    | none => some (.idle, scan id s)
    | some t =>
      if (s.templates.val t).refCount.toInt > 0 then some (.idle, scan id s)
      else some (.release t, unlinkTemplate t (scan id s))
  | .idle, .status id =>
    match searchList s.templates s.templateList id with
    | none => some (.idle, scan id s)
    -- the pointer leaves the lock without a reference
    | some t => some (.statusFound t, scan id s)
  | .statusFound t, .go _ => some (.idle, touch [t] s)
  | _, _ => none

/-- Thread `i` takes an action. -/
def lifeStep (s : LifeState) (l : Nat × Action) : Option LifeState :=
  (s.threads[l.1]?).bind fun p =>
    (pcStep s p l.2).map fun r => { r.2 with threads := s.threads.set l.1 r.1 }

/-! ## What the threads hold -/

/-- The template a thread has a reference of. -/
def Pc.refTarget : Pc → Option Nat
  | .mmapFound t => some t
  | .mmapInc t => some t
  | .closing t => some t
  | .unref t => some t
  | _ => none

/-- The template a thread dropped to zero and has not unlinked. -/
def Pc.unlinkTarget : Pc → Option Nat
  | .unlink t => some t
  | _ => none

/-- The template a thread unlinked and has not freed. -/
def Pc.releaseTarget : Pc → Option Nat
  | .release t => some t
  | _ => none

/-- The template a thread is about to read without a reference. -/
def Pc.readTarget : Pc → Option Nat
  | .statusFound t => some t
  | _ => none

/-- The references of the live VMAs and the threads. -/
def refs (s : LifeState) (t : Nat) : Nat :=
  s.vmas.count t + holders Pc.refTarget s.threads t

/-- The state of the templates against what the threads hold: `r` references, `u`
    pending unlinks, `f` pending frees and `d` pending reads. -/
structure Sound (h : Heap Template) (l : List Nat) (unlinks : Nat → Nat)
    (r u f d : Nat → Nat) : Prop where
  nodup : l.Nodup
  fresh : h.Fresh
  newUnlinks : ∀ t, h.next ≤ t → unlinks t = 0
  listed : ∀ t ∈ l, h.live t = true ∧ unlinks t = 0
  once : ∀ t, unlinks t ≤ 1 ∧ h.frees t ≤ 1 ∧ (h.live t = true → h.frees t = 0)
  counted : ∀ t, r t ≤ (h.val t).refCount.toNat ∧ (h.val t).refCount.toNat < 2 ^ 31
  held : ∀ t, 0 < r t → t ∈ l
  unlinking : ∀ t, 0 < u t → t ∈ l ∧ r t = 0 ∧ u t = 1
  freeing : ∀ t, 0 < f t → t ∉ l ∧ h.live t = true ∧ f t = 1
  reading : ∀ t, 0 < d t → h.live t = true

variable {x : Template} {a : Action} {P : LifeState → Prop}

namespace Sound

variable {h : Heap Template} {l : List Nat} {unlinks r u f d : Nat → Nat} {t k : Nat}

theorem lt_of_listed (hs : Sound h l unlinks r u f d) (ht : t ∈ l) : t < h.next := by
  by_contra hge
  have hdead := (hs.fresh t (Nat.not_lt.mp hge)).1
  exact Bool.noConfusion (hdead.symm.trans (hs.listed t ht).1)

/-- A template that is listed is not about to be freed. -/
theorem not_freeing (hs : Sound h l unlinks r u f d) (ht : t ∈ l) : f t = 0 := by
  by_contra hne
  exact (hs.freeing t (Nat.pos_of_ne_zero hne)).1 ht

/-- A thread that takes or gives up a reference of a listed template. -/
theorem held_update (hs : Sound h l unlinks r u f d) (ht : t ∈ l) (k t' : Nat)
    (hpos : 0 < update r t k t') : t' ∈ l := by
  by_cases htt : t' = t
  · rw [htt]
    exact ht
  · rw [update_of_ne htt] at hpos
    exact hs.held t' hpos

/-- **`atomic_inc`** by a holder of a reference or by the search. -/
theorem inc (hs : Sound h l unlinks r u f d) (ht : t ∈ l) (hu : u t = 0)
    (hbound : (h.val t).refCount.toNat < 2 ^ 31 - 1) (hk : k ≤ r t + 1) :
    Sound (h.modify t (Template.addRef 1)) l unlinks (update r t k) u f d := by
  have hinc : ((h.val t).addRef 1).refCount.toNat = (h.val t).refCount.toNat + 1 := by
    show ((h.val t).refCount + 1).toNat = _
    rw [BitVec.toNat_add]
    have hone : (1 : Atomic).toNat = 1 := rfl
    exact Nat.mod_eq_of_lt (by omega)
  refine ⟨hs.nodup, hs.fresh, hs.newUnlinks, hs.listed, hs.once, ?_, hs.held_update ht _, ?_,
    hs.freeing, hs.reading⟩
  · intro t'
    have hcount := hs.counted t'
    by_cases htt : t' = t
    · subst htt
      rw [val_modify_self, update_self, hinc]
      omega
    · rw [val_modify_of_ne _ _ htt, update_of_ne htt]
      exact hcount
  · intro t' hpos
    have htt : t' ≠ t := fun he => by rw [he] at hpos; omega
    rw [update_of_ne htt]
    exact hs.unlinking t' hpos

/-- **`atomic_dec_and_test`** by the holder of a reference; at zero it becomes
    the thread that unlinks. -/
theorem dec (hs : Sound h l unlinks r u f d) (hr : 0 < r t) :
    Sound (h.modify t (Template.addRef (-1))) l unlinks (update r t (r t - 1))
      (if ((h.val t).addRef (-1)).refCount = 0 then update u t (u t + 1) else u)
      f d := by
  have ht := hs.held t hr
  have hcount := hs.counted t
  have hu : u t = 0 := by
    by_contra hne
    have := (hs.unlinking t (Nat.pos_of_ne_zero hne)).2.1
    omega
  have hdec : ((h.val t).addRef (-1)).refCount.toNat = (h.val t).refCount.toNat - 1 := by
    have hpos : 0 < (h.val t).refCount.toNat := by omega
    show ((h.val t).refCount + -1).toNat = _
    bv_omega
  refine ⟨hs.nodup, hs.fresh, hs.newUnlinks, hs.listed, hs.once, ?_, hs.held_update ht _, ?_,
    hs.freeing, hs.reading⟩
  · intro t'
    have hcount' := hs.counted t'
    by_cases htt : t' = t
    · subst htt
      rw [val_modify_self, update_self, hdec]
      omega
    · rw [val_modify_of_ne _ _ htt, update_of_ne htt]
      exact hcount'
  · intro t' hpos
    by_cases htt : t' = t
    · subst htt
      split at hpos
      · rename_i hzero
        -- the count was one, so this thread held the last reference
        rw [hzero] at hdec
        have hnil : (0 : Atomic).toNat = 0 := rfl
        rw [update_self, if_pos hzero, update_self]
        exact ⟨ht, by omega, by omega⟩
      · exact absurd hu (Nat.ne_of_gt hpos)
    · have hsame : ∀ v : Nat → Nat, (if ((h.val t).addRef (-1)).refCount = 0
          then update u t (u t + 1) else u) t' = v t' → u t' = v t' := by
        intro v
        split
        · rw [update_of_ne htt]; exact id
        · exact id
      rw [← hsame _ rfl] at hpos ⊢
      rw [update_of_ne htt]
      exact hs.unlinking t' hpos

/-- **`list_del`** by the only thread that may unlink the template. -/
theorem unlink (hs : Sound h l unlinks r u f d) (ht : t ∈ l) (hr : r t = 0) :
    Sound h (l.erase t) (update unlinks t (unlinks t + 1)) r (update u t 0) (update f t 1) d := by
  have hmem : ∀ t', t' ∈ l.erase t ↔ t' ≠ t ∧ t' ∈ l := fun t' => hs.nodup.mem_erase_iff
  have hzero := (hs.listed t ht).2
  refine ⟨hs.nodup.erase t, hs.fresh, ?_, ?_, ?_, hs.counted, ?_, ?_, ?_, hs.reading⟩
  · intro t' hge
    have htt : t' ≠ t := fun he => by
      rw [he] at hge
      exact Nat.not_lt.mpr hge (hs.lt_of_listed ht)
    rw [update_of_ne htt]
    exact hs.newUnlinks t' hge
  · intro t' ht'
    obtain ⟨htt, ht'⟩ := (hmem t').mp ht'
    rw [update_of_ne htt]
    exact hs.listed t' ht'
  · intro t'
    by_cases htt : t' = t
    · rw [htt, update_self, hzero]
      exact ⟨Nat.le_refl 1, (hs.once t).2⟩
    · rw [update_of_ne htt]
      exact hs.once t'
  · intro t' hpos
    have htt : t' ≠ t := fun he => by rw [he] at hpos; omega
    exact (hmem t').mpr ⟨htt, hs.held t' hpos⟩
  · intro t' hpos
    have htt : t' ≠ t := fun he => by
      rw [he, update_self] at hpos
      exact Nat.lt_irrefl 0 hpos
    rw [update_of_ne htt] at hpos ⊢
    obtain ⟨hin, hrest⟩ := hs.unlinking t' hpos
    exact ⟨(hmem t').mpr ⟨htt, hin⟩, hrest⟩
  · intro t' hpos
    by_cases htt : t' = t
    · rw [htt, update_self]
      exact ⟨fun hin => ((hmem t).mp hin).1 rfl, (hs.listed t ht).1, rfl⟩
    · rw [update_of_ne htt] at hpos ⊢
      obtain ⟨hout, hrest⟩ := hs.freeing t' hpos
      exact ⟨fun hin => hout ((hmem t').mp hin).2, hrest⟩

/-- **`kfree`** while nobody is about to read the template. -/
theorem free (hs : Sound h l unlinks r u f d) (hf : 0 < f t) (hd : d t = 0) :
    Sound (h.free t) l unlinks r u (update f t 0) d := by
  obtain ⟨hout, hlive, -⟩ := hs.freeing t hf
  have hfrees := (hs.once t).2.2 hlive
  refine ⟨hs.nodup, ?_, hs.newUnlinks, ?_, ?_, hs.counted, hs.held, hs.unlinking, ?_, ?_⟩
  · intro t' hge
    have htt : t' ≠ t := fun he => by
      rw [he] at hge
      exact Bool.noConfusion ((hs.fresh t hge).1.symm.trans hlive)
    rw [live_free_of_ne _ htt, frees_free_of_ne _ htt]
    exact hs.fresh t' hge
  · intro t' ht'
    have htt : t' ≠ t := fun he => hout (he ▸ ht')
    rw [live_free_of_ne _ htt]
    exact hs.listed t' ht'
  · intro t'
    by_cases htt : t' = t
    · rw [htt, live_free_self, frees_free_self, hfrees]
      exact ⟨(hs.once t).1, Nat.le_refl 1, fun hl => Bool.noConfusion hl⟩
    · rw [live_free_of_ne _ htt, frees_free_of_ne _ htt]
      exact hs.once t'
  · intro t' hpos
    have htt : t' ≠ t := fun he => by
      rw [he, update_self] at hpos
      exact Nat.lt_irrefl 0 hpos
    rw [update_of_ne htt] at hpos ⊢
    rw [live_free_of_ne _ htt]
    exact hs.freeing t' hpos
  · intro t' hpos
    have htt : t' ≠ t := fun he => by rw [he] at hpos; omega
    rw [live_free_of_ne _ htt]
    exact hs.reading t' hpos

/-- **`list_add_tail`** of a new template. -/
theorem alloc (hs : Sound h l unlinks r u f d) (hx : x.refCount = 0) :
    Sound (h.alloc x) (l ++ [h.next]) unlinks r u f d := by
  have hnew : h.next ∉ l := fun hin => Nat.lt_irrefl _ (hs.lt_of_listed hin)
  have hdead := hs.fresh h.next (Nat.le_refl _)
  have hmono : ∀ t, h.live t = true → (h.alloc x).live t = true := by
    intro t hl
    by_cases htt : t = h.next
    · rw [htt, live_alloc_self]
    · rw [live_alloc_of_ne _ _ htt]; exact hl
  have hr : r h.next = 0 := by
    by_contra hne
    exact hnew (hs.held _ (Nat.pos_of_ne_zero hne))
  refine ⟨?_, ?_, ?_, ?_, ?_, ?_, ?_, ?_, ?_, ?_⟩
  · refine nodup_append.mpr ⟨hs.nodup, nodup_singleton _, ?_⟩
    intro a ha b hb hab
    rw [mem_singleton.mp hb] at hab
    exact hnew (hab ▸ ha)
  · intro t hge
    have hlt : h.next < t := hge
    rw [live_alloc_of_ne _ _ (Nat.ne_of_gt hlt)]
    exact hs.fresh t (Nat.le_of_lt hlt)
  · exact fun t hge => hs.newUnlinks t (Nat.le_of_succ_le hge)
  · intro t ht
    rcases mem_append.mp ht with ht | ht
    · exact ⟨hmono t (hs.listed t ht).1, (hs.listed t ht).2⟩
    · rw [mem_singleton.mp ht]
      exact ⟨live_alloc_self _ _, hs.newUnlinks _ (Nat.le_refl _)⟩
  · intro t
    refine ⟨(hs.once t).1, (hs.once t).2.1, fun hl => ?_⟩
    by_cases htt : t = h.next
    · rw [htt]; exact hdead.2
    · rw [live_alloc_of_ne _ _ htt] at hl
      exact (hs.once t).2.2 hl
  · intro t
    by_cases htt : t = h.next
    · rw [htt, val_alloc_self, hx, hr]
      exact ⟨Nat.zero_le _, by decide⟩
    · rw [val_alloc_of_ne _ _ htt]
      exact hs.counted t
  · exact fun t hpos => mem_append_left _ (hs.held t hpos)
  · intro t hpos
    obtain ⟨hin, hrest⟩ := hs.unlinking t hpos
    exact ⟨mem_append_left _ hin, hrest⟩
  · intro t hpos
    obtain ⟨hout, hlive, hone⟩ := hs.freeing t hpos
    refine ⟨fun hin => ?_, hmono t hlive, hone⟩
    rcases mem_append.mp hin with hin | hin
    · exact hout hin
    · rw [mem_singleton.mp hin, hdead.1] at hlive
      exact Bool.noConfusion hlive
  · exact fun t hpos => hmono t (hs.reading t hpos)

/-- **A pointer without a reference**, taken from the list. -/
theorem take (hs : Sound h l unlinks r u f d) (ht : t ∈ l) (k : Nat) :
    Sound h l unlinks r u f (update d t k) := by
  refine ⟨hs.nodup, hs.fresh, hs.newUnlinks, hs.listed, hs.once, hs.counted, hs.held,
    hs.unlinking, hs.freeing, fun t' hpos => ?_⟩
  by_cases htt : t' = t
  · rw [htt]; exact (hs.listed t ht).1
  · rw [update_of_ne htt] at hpos
    exact hs.reading t' hpos

theorem drop (hs : Sound h l unlinks r u f d) (hk : k ≤ d t) :
    Sound h l unlinks r u f (update d t k) := by
  refine ⟨hs.nodup, hs.fresh, hs.newUnlinks, hs.listed, hs.once, hs.counted, hs.held,
    hs.unlinking, hs.freeing, fun t' hpos => ?_⟩
  by_cases htt : t' = t
  · rw [htt, update_self] at hpos
    rw [htt]; exact hs.reading t (Nat.lt_of_lt_of_le hpos hk)
  · rw [update_of_ne htt] at hpos
    exact hs.reading t' hpos

end Sound

/-! ## The steps -/

variable {s s' : LifeState} {i t : Nat} {p q : Pc}

/-- The counts are those of the threads and mappings. -/
def SoundState (s : LifeState) : Prop :=
  Sound s.templates s.templateList s.unlinks (refs s) (holders Pc.unlinkTarget s.threads)
    (holders Pc.releaseTarget s.threads) (holders Pc.readTarget s.threads)

theorem holders_idle (f : Pc → Option Nat) (hf : f .idle = none) (n : Nat) :
    holders f (List.replicate n .idle) = fun _ => 0 := by
  funext t
  refine holders_eq_zero.mpr fun p hp => ?_
  rw [eq_of_mem_replicate hp, hf]
  exact fun he => by cases he

theorem refs_start (n : Nat) : refs (start n) = fun _ => 0 := by
  funext t
  rw [refs, start]
  dsimp only
  rw [holders_idle _ rfl]
  rfl

theorem sound_start (n : Nat) : SoundState (start n) := by
  rw [SoundState, refs_start]
  rw [start]
  dsimp only
  rw [holders_idle _ rfl, holders_idle _ rfl, holders_idle _ rfl]
  exact ⟨nodup_nil, (fun _ _ => ⟨rfl, rfl⟩), (fun _ _ => rfl), (fun _ h => by cases h),
    (fun _ => ⟨Nat.zero_le 1, Nat.zero_le 1, fun h => by cases h⟩),
    (fun _ => ⟨Nat.zero_le _, (by decide : (0 : Atomic).toNat < 2 ^ 31)⟩),
    (fun _ h => absurd h (Nat.lt_irrefl 0)),
    (fun _ h => absurd h (Nat.lt_irrefl 0)), (fun _ h => absurd h (Nat.lt_irrefl 0)),
    (fun _ h => absurd h (Nat.lt_irrefl 0))⟩

theorem scanned_subset (h : Heap Template) (l : List Nat) (id : List UInt8) :
    ∀ t ∈ scanned h l id, t ∈ l := by
  induction l with
  | nil => exact fun t ht => ht
  | cons a l ih =>
    intro t ht
    rw [scanned] at ht
    rcases mem_cons.mp ht with rfl | ht
    · exact mem_cons_self
    · split at ht
      · cases ht
      · exact mem_cons_of_mem a (ih t ht)

theorem touch_live {ps : List Nat} (h : ∀ p ∈ ps, s.templates.live p = true) : touch ps s = s := by
  have hnil : ps.filter (fun p => s.templates.live p = false) = [] := by
    refine filter_eq_nil_iff.mpr fun p hp hdead => ?_
    exact Bool.noConfusion ((h p hp).symm.trans (of_decide_eq_true hdead))
  rw [touch, hnil, nil_append]

theorem SoundState.scan (h : SoundState s) (id : List UInt8) : scan id s = s :=
  touch_live fun t ht => (h.listed t (scanned_subset _ _ _ t ht)).1

theorem SoundState.touch_held (h : SoundState s) (hr : 0 < refs s t) : touch [t] s = s := by
  refine touch_live fun u hu => ?_
  rw [mem_singleton.mp hu]
  exact (h.listed t (h.held t hr)).1

theorem mem_of_searchList {h : Heap Template} {l : List Nat} {id : List UInt8}
    (hf : searchList h l id = some t) : t ∈ l :=
  mem_of_find?_eq_some hf

theorem refs_pos (hp : s.threads[i]? = some p) (hr : p.refTarget = some t) :
    0 < refs s t :=
  Nat.lt_of_lt_of_le (holders_pos hp hr) (Nat.le_add_left _ _)

theorem SoundState.unpending (h : SoundState s) (hr : 0 < refs s t) :
    holders Pc.unlinkTarget s.threads t = 0 := by
  by_contra hne
  have := (h.unlinking t (Nat.pos_of_ne_zero hne)).2.1
  omega

/-- The references after a thread took one. -/
theorem refs_take (hp : s.threads[i]? = some p) (hnone : p.refTarget = none)
    (hsome : q.refTarget = some t) (vmas : List Nat) :
    (fun u => vmas.count u + holders Pc.refTarget (s.threads.set i q) u)
      = update (fun u => vmas.count u + holders Pc.refTarget s.threads u) t
          (vmas.count t + holders Pc.refTarget s.threads t + 1) := by
  funext u
  rw [holders_set_take hp hnone hsome]
  by_cases hu : u = t
  · rw [hu, update_self, update_self]; rfl
  · rw [update_of_ne hu, update_of_ne hu]

/-- The references after a thread dropped one. -/
theorem refs_drop (hp : s.threads[i]? = some p) (hsome : p.refTarget = some t)
    (hnone : q.refTarget = none) (vmas : List Nat) :
    (fun u => vmas.count u + holders Pc.refTarget (s.threads.set i q) u)
      = update (fun u => vmas.count u + holders Pc.refTarget s.threads u) t
          (vmas.count t + holders Pc.refTarget s.threads t - 1) := by
  have hpos := holders_pos (f := Pc.refTarget) hp hsome
  funext u
  rw [holders_set_drop hp hsome hnone]
  by_cases hu : u = t
  · rw [hu, update_self, update_self]; omega
  · rw [update_of_ne hu, update_of_ne hu]

/-- The steps that stay clear of the unprotected places: no search picks a
    template that an unref has dropped to zero and not unlinked yet, nothing is
    freed while a status call is about to read it, and no count is about to turn
    negative. -/
structure Quiet (s : LifeState) (l : Nat × Action) (_ : LifeState) : Prop where
  window : ∀ id t, l.2 = .mmap id ∨ l.2 = .delete id →
    searchList s.templates s.templateList id = some t → .unlink t ∉ s.threads
  readers : ∀ t, s.threads[l.1]? = some (.release t) → .statusFound t ∉ s.threads
  room : ∀ t ∈ s.templateList, (s.templates.val t).refCount.toNat < 2 ^ 31 - 1

theorem not_unlinking (h : .unlink t ∉ s.threads) : holders Pc.unlinkTarget s.threads t = 0 := by
  refine holders_eq_zero.mpr fun p hp he => ?_
  cases p with
  | unlink u => cases some.inj he; exact h hp
  | _ => cases he

theorem not_reading (h : .statusFound t ∉ s.threads) : holders Pc.readTarget s.threads t = 0 := by
  refine holders_eq_zero.mpr fun p hp he => ?_
  cases p with
  | statusFound u => cases some.inj he; exact h hp
  | _ => cases he

/-- The state after thread `i` moved to `q` with the shared state `s'`. -/
def moved (s s' : LifeState) (i : Nat) (q : Pc) : LifeState :=
  { s' with threads := s.threads.set i q }

variable {w : LifeState} {d : DriverState}

/-- A step of a thread, from what it does to the templates and to the four
    counts. -/
theorem sound_moved {r u f d : Nat → Nat} (h : Sound w.templates w.templateList w.unlinks r u f d)
    (hr : (fun v => w.vmas.count v + holders Pc.refTarget (s.threads.set i q) v) = r)
    (hu : holders Pc.unlinkTarget (s.threads.set i q) = u)
    (hf : holders Pc.releaseTarget (s.threads.set i q) = f)
    (hd : holders Pc.readTarget (s.threads.set i q) = d) : SoundState (moved s w i q) := by
  subst hr hu hf hd
  exact h

theorem refs_same (hp : s.threads[i]? = some p) (hr : q.refTarget = p.refTarget) :
    (fun v => s.vmas.count v + holders Pc.refTarget (s.threads.set i q) v) = refs s := by
  rw [holders_set_same hp hr]
  rfl

theorem sound_create (h : SoundState s) (hp : s.threads[i]? = some (.createBuilt x)) (ok : Bool) :
    SoundState (moved s (if ok then linkTemplate x s else s) i .idle) := by
  cases ok with
  | false =>
    exact sound_moved h (refs_same hp rfl) (holders_set_same hp rfl)
      (holders_set_same hp rfl) (holders_set_same hp rfl)
  | true =>
    have hlink := h.alloc (x := { x with refCount := 0 }) rfl
    exact sound_moved (w := linkTemplate x s) hlink (refs_same hp rfl)
      (holders_set_same hp rfl) (holders_set_same hp rfl) (holders_set_same hp rfl)

/-- `snapshot_template_find_ref`. -/
theorem sound_findRef (h : SoundState s) (hp : s.threads[i]? = some .idle)
    (ht : t ∈ s.templateList) (hwindow : .unlink t ∉ s.threads)
    (hroom : (s.templates.val t).refCount.toNat < 2 ^ 31 - 1) :
    SoundState (moved s (addRef 1 t s) i (.mmapFound t)) := by
  have hinc := h.inc ht (not_unlinking hwindow) hroom (Nat.le_refl (refs s t + 1))
  exact sound_moved (w := addRef 1 t s) hinc (refs_take hp rfl rfl s.vmas)
    (holders_set_same hp rfl) (holders_set_same hp rfl) (holders_set_same hp rfl)

/-- The second increment of `snapshot_mmap`; the reference of the thread becomes
    the one of the VMA. -/
theorem sound_mmapInc (h : SoundState s) (hp : s.threads[i]? = some (.mmapInc t))
    (hroom : ∀ t ∈ s.templateList, (s.templates.val t).refCount.toNat < 2 ^ 31 - 1) :
    SoundState (moved s (addRef 1 t { s with vmas := t :: s.vmas }) i .idle) := by
  have hpos : 0 < refs s t := refs_pos hp rfl
  have ht := h.held t hpos
  have hinc := h.inc ht (h.unpending hpos) (hroom t ht) (Nat.le_succ (refs s t))
  rw [update_eq_self] at hinc
  refine sound_moved (w := addRef 1 t { s with vmas := t :: s.vmas }) hinc ?_
    (holders_set_same hp rfl) (holders_set_same hp rfl) (holders_set_same hp rfl)
  have hholds : 0 < holders Pc.refTarget s.threads t := holders_pos hp rfl
  refine (refs_drop hp rfl rfl (t :: s.vmas)).trans ?_
  funext v
  rw [refs]
  by_cases hv : v = t
  · rw [hv, update_self, count_cons_self]; omega
  · rw [update_of_ne hv, count_cons_of_ne (Ne.symm hv)]

theorem refs_pos_of_vma (ht : t ∈ s.vmas) : 0 < refs s t :=
  Nat.lt_of_lt_of_le (count_pos_iff.mpr ht) (Nat.le_add_right _ _)

/-- `snapshot_vma_open`. -/
theorem sound_vmaOpen (h : SoundState s) (hp : s.threads[i]? = some .idle)
    (hv : t ∈ s.vmas)
    (hroom : ∀ t ∈ s.templateList, (s.templates.val t).refCount.toNat < 2 ^ 31 - 1) :
    SoundState (moved s (addRef 1 t { s with vmas := t :: s.vmas }) i .idle) := by
  have hpos := refs_pos_of_vma hv
  have ht := h.held t hpos
  have hinc := h.inc ht (h.unpending hpos) (hroom t ht) (Nat.le_refl (refs s t + 1))
  refine sound_moved (w := addRef 1 t { s with vmas := t :: s.vmas }) hinc ?_
    (holders_set_same hp rfl) (holders_set_same hp rfl) (holders_set_same hp rfl)
  rw [holders_set_same hp rfl]
  funext v
  show (t :: s.vmas).count v + _ = _
  by_cases hvt : v = t
  · rw [hvt, update_self, count_cons_self, refs]; omega
  · rw [update_of_ne hvt, count_cons_of_ne (Ne.symm hvt), refs]

/-- `snapshot_vma_close` takes over the reference of the VMA. -/
theorem sound_vmaClose (h : SoundState s) (hp : s.threads[i]? = some .idle)
    (hv : t ∈ s.vmas) :
    SoundState (moved s { s with vmas := s.vmas.erase t } i (.closing t)) := by
  refine sound_moved (w := { s with vmas := s.vmas.erase t }) h ?_
    (holders_set_same hp rfl) (holders_set_same hp rfl) (holders_set_same hp rfl)
  have hcount := count_pos_iff.mpr hv
  refine (refs_take hp rfl rfl (s.vmas.erase t)).trans ?_
  funext v
  rw [refs]
  by_cases hvt : v = t
  · rw [hvt, update_self, count_erase_self]; omega
  · rw [update_of_ne hvt, count_erase_of_ne hvt]

/-- `atomic_dec_and_test`. -/
theorem sound_unref (h : SoundState s) (hp : s.threads[i]? = some (.unref t)) :
    SoundState (moved s (addRef (-1) t s) i
      (if ((s.templates.val t).addRef (-1)).refCount = 0 then .unlink t else .idle)) := by
  have hdec := h.dec (refs_pos hp rfl)
  by_cases hzero : ((s.templates.val t).addRef (-1)).refCount = 0
  · rw [if_pos hzero] at hdec ⊢
    exact sound_moved (w := addRef (-1) t s) hdec (refs_drop hp rfl rfl s.vmas)
      (holders_set_take hp rfl rfl) (holders_set_same hp rfl) (holders_set_same hp rfl)
  · rw [if_neg hzero] at hdec ⊢
    exact sound_moved (w := addRef (-1) t s) hdec (refs_drop hp rfl rfl s.vmas)
      (holders_set_same hp rfl) (holders_set_same hp rfl) (holders_set_same hp rfl)

/-- The locked section of an unref. -/
theorem sound_unlink (h : SoundState s) (hp : s.threads[i]? = some (.unlink t)) :
    SoundState (moved s (unlinkTemplate t s) i (.release t)) := by
  obtain ⟨ht, hr, hone⟩ := h.unlinking t (holders_pos hp rfl)
  refine sound_moved (w := unlinkTemplate t s) (h.unlink ht hr) (refs_same hp rfl) ?_ ?_
    (holders_set_same hp rfl)
  · rw [holders_set_drop (f := Pc.unlinkTarget) (q := .release t) hp rfl rfl, hone]
  · rw [holders_set_take (f := Pc.releaseTarget) (q := .release t) hp rfl rfl, h.not_freeing ht]

/-- The locked section of a delete. -/
theorem sound_delete (h : SoundState s) (hp : s.threads[i]? = some .idle)
    (ht : t ∈ s.templateList) (hwindow : .unlink t ∉ s.threads)
    (hidle : ¬ (s.templates.val t).refCount.toInt > 0) :
    SoundState (moved s (unlinkTemplate t s) i (.release t)) := by
  have hcount := h.counted t
  have hr : refs s t = 0 := by
    rw [BitVec.toInt_eq_toNat_of_lt (by omega)] at hidle
    omega
  have hun := h.unlink ht hr
  rw [← not_unlinking hwindow, update_eq_self] at hun
  refine sound_moved (w := unlinkTemplate t s) hun (refs_same hp rfl)
    (holders_set_same hp rfl) ?_ (holders_set_same hp rfl)
  rw [holders_set_take (f := Pc.releaseTarget) (q := .release t) hp rfl rfl, h.not_freeing ht]

/-- The end of an unref or a delete. -/
theorem sound_release (h : SoundState s) (hp : s.threads[i]? = some (.release t))
    (hreaders : .statusFound t ∉ s.threads) :
    SoundState (moved s (freeTemplate t s) i .idle) := by
  have hpos : 0 < holders Pc.releaseTarget s.threads t := holders_pos hp rfl
  refine sound_moved (w := freeTemplate t s) (h.free hpos (not_reading hreaders))
    (refs_same hp rfl) (holders_set_same hp rfl) ?_ (holders_set_same hp rfl)
  rw [holders_set_drop (f := Pc.releaseTarget) (q := .idle) hp rfl rfl, (h.freeing t hpos).2.2]

/-- `snapshot_template_find`, for a status call. -/
theorem sound_status (h : SoundState s) (hp : s.threads[i]? = some .idle)
    (ht : t ∈ s.templateList) : SoundState (moved s s i (.statusFound t)) :=
  sound_moved (h.take ht _) (refs_same hp rfl) (holders_set_same hp rfl)
    (holders_set_same hp rfl) (holders_set_take hp rfl rfl)

theorem sound_statusRead (h : SoundState s)
    (hp : s.threads[i]? = some (.statusFound t)) : SoundState (moved s s i .idle) :=
  sound_moved (h.drop (Nat.sub_le _ 1)) (refs_same hp rfl) (holders_set_same hp rfl)
    (holders_set_same hp rfl) (holders_set_drop hp rfl rfl)

/-- A step of a thread that changes nothing it holds. -/
theorem sound_keep (h : SoundState s) (hp : s.threads[i]? = some p)
    (hr : q.refTarget = p.refTarget) (hu : q.unlinkTarget = p.unlinkTarget)
    (hf : q.releaseTarget = p.releaseTarget) (hd : q.readTarget = p.readTarget) :
    SoundState (moved s s i q) :=
  sound_moved h (refs_same hp hr) (holders_set_same hp hu) (holders_set_same hp hf)
    (holders_set_same hp hd)

/-! ## Runs -/

/-- No freed template was used, and no template was unlinked or freed twice. -/
def Safe (s : LifeState) : Prop :=
  s.misuse = [] ∧ ∀ t, s.unlinks t ≤ 1 ∧ s.templates.frees t ≤ 1

/-- Every step of a thread uses live templates only and keeps the counts. -/
theorem pcStep_sound (h : SoundState s) (hp : s.threads[i]? = some p) (hquiet : Quiet s (i, a) s')
    (hstep : pcStep s p a = some (q, s')) : SoundState (moved s s' i q) ∧ s'.misuse = s.misuse := by
  have hroom := hquiet.room
  cases p with
  | idle =>
    cases a with
    | create x =>
      rw [pcStep, h.scan] at hstep
      split at hstep <;> cases hstep
      · exact ⟨sound_keep h hp rfl rfl rfl rfl, rfl⟩
      · exact ⟨sound_keep h hp rfl rfl rfl rfl, rfl⟩
    | mmap id =>
      rw [pcStep, h.scan] at hstep
      split at hstep <;> cases hstep
      · rename_i t hfind
        have ht := mem_of_searchList hfind
        exact ⟨sound_findRef h hp ht (hquiet.window id t (.inl rfl) hfind) (hroom t ht), rfl⟩
      · exact ⟨sound_keep h hp rfl rfl rfl rfl, rfl⟩
    | vmaOpen t =>
      rw [pcStep] at hstep
      split at hstep
      · rename_i hv
        rw [h.touch_held (refs_pos_of_vma hv)] at hstep
        cases hstep
        exact ⟨sound_vmaOpen h hp hv hroom, rfl⟩
      · cases hstep
    | vmaClose t =>
      rw [pcStep] at hstep
      split at hstep
      · cases hstep
        exact ⟨sound_vmaClose h hp ‹_›, rfl⟩
      · cases hstep
    | delete id =>
      rw [pcStep, h.scan] at hstep
      split at hstep
      · cases hstep
        exact ⟨sound_keep h hp rfl rfl rfl rfl, rfl⟩
      · rename_i t hfind
        split at hstep <;> cases hstep
        · exact ⟨sound_keep h hp rfl rfl rfl rfl, rfl⟩
        · exact ⟨sound_delete h hp (mem_of_searchList hfind)
            (hquiet.window id t (.inr rfl) hfind) ‹_›, rfl⟩
    | status id =>
      rw [pcStep, h.scan] at hstep
      split at hstep <;> cases hstep
      · exact ⟨sound_keep h hp rfl rfl rfl rfl, rfl⟩
      · exact ⟨sound_status h hp (mem_of_searchList ‹_›), rfl⟩
    | go ok => cases hstep
  | createBuilt x =>
    cases a with
    | go ok =>
      cases hstep
      refine ⟨sound_create h hp ok, ?_⟩
      cases ok <;> rfl
    | _ => cases hstep
  | mmapFound t =>
    cases a with
    | go ok =>
      rw [pcStep, h.touch_held (refs_pos hp rfl)] at hstep
      cases hstep
      cases ok <;> exact ⟨sound_keep h hp rfl rfl rfl rfl, rfl⟩
    | _ => cases hstep
  | mmapInc t =>
    cases a with
    | go ok =>
      rw [pcStep, h.touch_held (refs_pos hp rfl)] at hstep
      cases hstep
      exact ⟨sound_mmapInc h hp hroom, rfl⟩
    | _ => cases hstep
  | closing t =>
    cases a with
    | go ok =>
      rw [pcStep, h.touch_held (refs_pos hp rfl)] at hstep
      cases hstep
      exact ⟨sound_keep h hp rfl rfl rfl rfl, rfl⟩
    | _ => cases hstep
  | unref t =>
    cases a with
    | go ok =>
      rw [pcStep, h.touch_held (refs_pos hp rfl)] at hstep
      cases hstep
      refine ⟨?_, rfl⟩
      rw [addRef]
      dsimp only
      rw [val_modify_self]
      exact sound_unref h hp
    | _ => cases hstep
  | unlink t =>
    cases a with
    | go ok =>
      have hlive := (h.listed t (h.unlinking t (holders_pos hp rfl)).1).1
      rw [pcStep, touch_live (by simpa using hlive)] at hstep
      cases hstep
      exact ⟨sound_unlink h hp, rfl⟩
    | _ => cases hstep
  | release t =>
    cases a with
    | go ok =>
      have hlive := (h.freeing t (holders_pos hp rfl)).2.1
      rw [pcStep, touch_live (by simpa using hlive)] at hstep
      cases hstep
      exact ⟨sound_release h hp (hquiet.readers t hp), rfl⟩
    | _ => cases hstep
  | statusFound t =>
    cases a with
    | go ok =>
      have hlive := h.reading t (holders_pos hp rfl)
      rw [pcStep, touch_live (by simpa using hlive)] at hstep
      cases hstep
      exact ⟨sound_statusRead h hp, rfl⟩
    | _ => cases hstep

theorem lifeStep_sound (s : LifeState) (l : Nat × Action) (s' : LifeState)
    (h : SoundState s ∧ s.misuse = []) (hstep : lifeStep s l = some s')
    (hquiet : Quiet s l s') : SoundState s' ∧ s'.misuse = [] := by
  obtain ⟨p, hp, hrest⟩ := bind_eq_some_iff.mp hstep
  obtain ⟨⟨q, s₁⟩, hpc, rfl⟩ := map_eq_some_iff.mp hrest
  have hquiet₁ : Quiet s (l.1, l.2) s₁ := ⟨hquiet.window, hquiet.readers, hquiet.room⟩
  obtain ⟨hsound, hmisuse⟩ := pcStep_sound h.1 hp hquiet₁ hpc
  exact ⟨hsound, hmisuse.trans h.2⟩

/-- **TEMPLATE LIFETIME.**  For any number of threads, in every state of a run
    whose steps are all quiet, no freed template has been used and none was
    unlinked or freed twice. -/
theorem quiet_runs_are_safe (n : Nat) (ls : List (Nat × Action))
    (h : Moves lifeStep Quiet (start n) ls) : States lifeStep Safe (start n) ls :=
  states_of_inv (I := fun s => SoundState s ∧ s.misuse = [])
    (fun _ hs => ⟨hs.2, fun t => ⟨(hs.1.once t).1, (hs.1.once t).2.1⟩⟩)
    lifeStep_sound ⟨sound_start n, rfl⟩ h

/-! ## One thread alone

    Without interference the steps of a thread do what the sequential driver does
    to the templates and their list. -/

/-- The same templates as in the driver's state. -/
def Agrees (s : LifeState) (d : DriverState) : Prop :=
  s.templates = d.templates ∧ s.templateList = d.templateList

/-- Steps of thread `i` alone lead from `s` to a state with `P`. -/
def Alone (i : Nat) (s : LifeState) (P : LifeState → Prop) : Prop :=
  ∃ ls s', (∀ l ∈ ls, l.1 = i) ∧ exec lifeStep s ls = some s' ∧ P s'

theorem alone_done (h : P s) : Alone i s P := ⟨[], s, by simp, rfl, h⟩

theorem alone_step (hp : s.threads[i]? = some p) (h : pcStep s p a = some (q, w))
    (hrest : Alone i (moved s w i q) P) : Alone i s P := by
  obtain ⟨ls, s', hls, hexec, hP⟩ := hrest
  refine ⟨(i, a) :: ls, s', ?_, ?_, hP⟩
  · intro l hl
    rcases mem_cons.mp hl with rfl | hl
    · rfl
    · exact hls l hl
  · have hstep : lifeStep s (i, a) = some (moved s w i q) := by
      rw [lifeStep, hp]
      show (pcStep s p a).map _ = _
      rw [h]
      rfl
    rw [exec, hstep]
    exact hexec

theorem threads_moved (hp : s.threads[i]? = some p) : (moved s w i q).threads[i]? = some q :=
  getElem?_set_self (List.getElem?_eq_some_iff.mp hp).1

/-- An unref that nobody interrupts is `snapshot_template_unref`. -/
theorem unref_alone (hp : s.threads[i]? = some (.unref t)) (h : Agrees s d) :
    Alone i s fun s' =>
      s'.threads[i]? = some .idle ∧ Agrees s' (snapshotTemplateUnref d t) := by
  obtain ⟨htemplates, hlist⟩ := h
  have hcount : ((addRef (-1) t (touch [t] s)).templates.val t).refCount
      = ((addTemplateRef d t (-1)).templates.val t).refCount := by
    show ((s.templates.modify t _).val t).refCount = ((d.templates.modify t _).val t).refCount
    rw [htemplates]
  rw [snapshotTemplateUnref]
  by_cases hzero : ((addTemplateRef d t (-1)).templates.val t).refCount = 0
  · -- the count is zero: unlink and free follow
    have hstep : pcStep s (.unref t) (.go true)
        = some (.unlink t, addRef (-1) t (touch [t] s)) := by
      rw [pcStep, hcount, if_pos hzero]
    have hp₁ := threads_moved (w := addRef (-1) t (touch [t] s)) (q := .unlink t) hp
    refine alone_step hp hstep (alone_step (a := .go true) hp₁ rfl
      (alone_step (a := .go true) (threads_moved hp₁) rfl
        (alone_done ⟨threads_moved (threads_moved hp₁), ?_⟩)))
    rw [if_pos hzero]
    refine ⟨?_, ?_⟩
    · show (s.templates.modify t _).free t = (d.templates.modify t _).free t
      rw [htemplates]
    · show s.templateList.erase t = d.templateList.erase t
      rw [hlist]
  · have hstep : pcStep s (.unref t) (.go true) = some (.idle, addRef (-1) t (touch [t] s)) := by
      rw [pcStep, hcount, if_neg hzero]
    refine alone_step hp hstep (alone_done ⟨threads_moved hp, ?_⟩)
    rw [if_neg hzero]
    refine ⟨?_, hlist⟩
    show s.templates.modify t _ = d.templates.modify t _
    rw [htemplates]

/-- A delete that nobody interrupts is `snapshot_template_delete`. -/
theorem delete_alone (id : List UInt8) (kvmalloc : Bool) (hp : s.threads[i]? = some .idle)
    (h : Agrees s d) :
    Alone i s fun s' =>
      s'.threads[i]? = some .idle ∧ Agrees s' (snapshotTemplateDelete d id kvmalloc).2 := by
  obtain ⟨htemplates, hlist⟩ := h
  have hfind : findTemplate d id = searchList s.templates s.templateList id := by
    rw [htemplates, hlist]
    rfl
  rw [snapshotTemplateDelete, hfind]
  cases hs : searchList s.templates s.templateList id with
  | none =>
    have hstep : pcStep s .idle (.delete id) = some (.idle, scan id s) := by
      rw [pcStep, hs]
    exact alone_step hp hstep (alone_done ⟨threads_moved hp, htemplates, hlist⟩)
  | some t =>
    have hcount : (d.templates.val t).refCount = (s.templates.val t).refCount := by
      rw [htemplates]
    dsimp only
    rw [hcount]
    by_cases hbusy : (s.templates.val t).refCount.toInt > 0
    · have hstep : pcStep s .idle (.delete id) = some (.idle, scan id s) := by
        rw [pcStep, hs]
        exact if_pos hbusy
      refine alone_step hp hstep (alone_done ⟨threads_moved hp, ?_⟩)
      rw [if_pos hbusy]
      exact ⟨htemplates, hlist⟩
    · have hstep : pcStep s .idle (.delete id)
          = some (.release t, unlinkTemplate t (scan id s)) := by
        rw [pcStep, hs]
        exact if_neg hbusy
      refine alone_step hp hstep (alone_step (a := .go true) (threads_moved hp) rfl
        (alone_done ⟨threads_moved (threads_moved hp), ?_⟩))
      rw [if_neg hbusy]
      -- emptying the pool leaves the templates alone
      obtain ⟨hframe, -⟩ := clearPool_frame (removeTemplate d t) kvmalloc
      refine ⟨?_, ?_⟩
      · rw [hframe.templates]
        show s.templates.free t = d.templates.free t
        rw [htemplates]
      · rw [hframe.templateList]
        show s.templateList.erase t = d.templateList.erase t
        rw [hlist]

/-! ## Two threads -/

/-- A template with the sample's identifier. -/
def raceTemplate : Template := { (default : Template) with templateId := sampleId }

/-- A step is quiet when no thread is about to unlink or it is no call, and no
    status call is about to read. -/
theorem quiet_of_resting {l : Nat × Action}
    (hunlink : (∃ ok, l.2 = .go ok) ∨ ∀ p ∈ s.threads, p.unlinkTarget = none)
    (hstatus : ∀ p ∈ s.threads, p.readTarget = none)
    (hroom : ∀ t ∈ s.templateList, (s.templates.val t).refCount.toNat < 2 ^ 31 - 1) :
    Quiet s l s' := by
  refine ⟨?_, fun t _ ht => some_ne_none t (hstatus _ ht), hroom⟩
  intro id t hcall _ ht
  rcases hunlink with ⟨ok, hgo⟩ | hunlink
  · rw [hgo] at hcall
    rcases hcall with hcall | hcall <;> cases hcall
  · exact some_ne_none t (hunlink _ ht)

/-- Thread 1 finds what thread 0 created and undoes its failed `mmap` down to the
    `kfree`; thread 0 asks for the template before the last step and maps it after. -/
def quietRun : List (Nat × Action) :=
  [(0, .create raceTemplate), (0, .go true), (1, .mmap sampleId), (1, .go false),
    (1, .go true), (1, .go true), (0, .status sampleId), (1, .go true), (0, .mmap sampleId)]

theorem create_and_find_safe :
    States lifeStep Safe (start 2) quietRun
      ∧ ∃ s, exec lifeStep (start 2) quietRun = some s ∧ s.unlinks 0 = 1
        ∧ s.templates.frees 0 = 1 ∧ s.templateList = [] := by
  refine ⟨quiet_runs_are_safe 2 _ ?_, _, rfl, rfl, rfl, rfl⟩
  refine moves_cons rfl ?_ (moves_cons rfl ?_ (moves_cons rfl ?_ (moves_cons rfl ?_
    (moves_cons rfl ?_ (moves_cons rfl ?_ (moves_cons rfl ?_ (moves_cons rfl ?_
      (moves_cons rfl ?_ trivial))))))))
  all_goals refine quiet_of_resting ?_ (by decide) (by decide)
  -- the unlink is pending only while thread 1 goes on
  all_goals first
    | exact .inl ⟨_, rfl⟩
    | exact .inr (by decide)

/-- Thread 0 undoes a failed `mmap` and has brought the count to zero when
    thread 1 finds the template; thread 0 unlinks and frees it, and thread 1
    reads its size. -/
def raceRun : List (Nat × Action) :=
  [(0, .create raceTemplate), (0, .go true), (0, .mmap sampleId), (0, .go false),
    (0, .go true), (1, .mmap sampleId), (0, .go true), (0, .go true), (1, .go true)]

theorem find_ref_races_unref :
    (∃ s, exec lifeStep (start 2) raceRun = some s ∧ s.templates.frees 0 = 1
      ∧ s.misuse = [0])
      ∧ ¬ States lifeStep Safe (start 2) raceRun := by
  have hrun : ∃ s, exec lifeStep (start 2) raceRun = some s ∧ s.templates.frees 0 = 1
      ∧ s.misuse = [0] := ⟨_, rfl, rfl, rfl⟩
  refine ⟨hrun, fun h => ?_⟩
  obtain ⟨s, hs, -, hmisuse⟩ := hrun
  have hsafe := (states_exec h hs).1
  rw [hmisuse] at hsafe
  cases hsafe

end TemplateLifetime
