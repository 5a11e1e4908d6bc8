import DemoStore.UffdCowProofs

/-! # The shared pages of `uffd-cow`

    The content of the memfd should stay that of the test file, whatever the processes
    write.

    `UFFDIO_COPY` is called with mode 0, so the page it installs is mapped without the
    protection that `enable_writeprotect` has asked for, in the process that loads it.
    A later write of this process finds nothing to stop it and changes the memfd, for
    all processes.  The private page of a write-protect fault is mapped over the shared
    one before the content is copied, so the copy is from the new page onto itself and
    a page that should have the file's content has zeros. -/

namespace UffdCow

open MachineRun List Option
open TemplateClient (View Access Effect effect memfd_of_through own_of_effect PagesOf
  pagesOf_update_iff seenBy seenBy_eq_some)
open Function (forall_update_iff update update_of_ne update_self)

/-! ## What the design asks for -/

/-- Every page of the memfd is the file's. -/
def Clean (file : TestFile) (r : Region) : Prop := PagesOf file r.memfd

/-- The access that takes effect with this label, and the page it finds. -/
def seen (r : Region) (pr : Process) (l : ProcessLabel) : Option (Access × List UInt8) :=
  seenBy Effect.found pr.views r.memfd (attempt pr l)

/-- A byte of the test file. -/
def fileByte (file : TestFile) (p j : Nat) : UInt8 := ((file p).getD []).getD j 0

/-- The memfd has the file's pages after the step, and a read of a page that the process
    has not written returns the file's byte. -/
structure Kept (file : TestFile) (wrote : Process → Nat → Bool) (s : SystemState)
    (l : Nat × ProcessLabel) (s' : SystemState) : Prop where
  clean : Clean file s'.region
  reads : ∀ p j page, seen s.region (s.processes l.1) l.2 = some (.read p j, page) →
    wrote (s.processes l.1) p = false → page.getD j 0 = fileByte file p j

/-- No write takes effect on a page that is mapped shared, and then without protection,
    in the writing process, unless it leaves the page as it is. -/
def NoSharedWrite (s : SystemState) (l : Nat × ProcessLabel) (_ : SystemState) : Prop :=
  ∀ q ∈ seen s.region (s.processes l.1) l.2,
    (∃ wp, (s.processes l.1).views q.1.page = .shared wp) → q.1.apply q.2 = q.2

/-- The page that this step of the handler makes writable in its process: one that it loads
    with `UFFDIO_COPY` in mode 0, or whose protection it takes off. -/
def barePage (r : Region) (pr : Process) : ProcessLabel → Option Nat
  | .handler _ out =>
    match pr.pc with
    | .copy p _ =>
      if out = .ok ∧ r.memfd p = none ∧ (pr.views p).isShared then some p else none
    | .unprotect p => if out = .ok ∧ (pr.views p).isShared then some p else none
    | _ => none
  | .access _ _ | .retry _ => none

/-- The process and the page, for the record of a run. -/
def bares (s : SystemState) (l : Nat × ProcessLabel) : Option (Nat × Nat) :=
  (barePage s.region (s.processes l.1) l.2).map fun p => (l.1, p)

/-- A write that would change a page of the memfd is made only where the page is private
    already, or to a page that this process has not loaded itself. -/
def WritesOthersLoads (q : SystemState × List (Nat × Nat)) (l : Nat × ProcessLabel)
    (_ : SystemState × List (Nat × Nat)) : Prop :=
  ∀ i acc page, attempt (q.1.processes l.1) l.2 = some (i, acc) →
    q.1.region.memfd acc.page = some page → acc.apply page ≠ page →
    (∃ own, (q.1.processes l.1).views acc.page = .anonymous own) ∨ (l.1, acc.page) ∉ q.2

/-- No process reads a page that its handler has replaced before one of its writes to
    the page has taken effect, unless the file has a zero there. -/
def NoBlankRead (file : TestFile) (s : SystemState) (l : Nat × ProcessLabel)
    (_ : SystemState) : Prop :=
  ∀ p j page own, seen s.region (s.processes l.1) l.2 = some (.read p j, page) →
    (s.processes l.1).views p = .anonymous own → (s.processes l.1).written p = false →
    fileByte file p j = 0

/-! ## The invariant -/

/-- The page a handler is replacing. -/
def HandlerPc.replaces : HandlerPc → Option Nat
  | .unprotect p | .mmap p | .memcpy p | .setPrivate p => some p
  | .read | .readFile _ | .copy _ _ | .setLoaded _ | .exited => none

/-- What is known of one process: a buffer is the file's page, only a page to which a
    write was issued is replaced, and the new page is blank until a write takes
    effect. -/
structure ProcOk (file : TestFile) (pr : Process) : Prop where
  buffer : ∀ p buffer, pr.pc = .copy p buffer → file p = some buffer
  events : ∀ p, (p, true) ∈ pr.events → pr.tried p = true
  replaces : ∀ p, pr.pc.replaces = some p → pr.tried p = true
  mapped : ∀ p, pr.views p ≠ .unmapped
  blank : ∀ p page, pr.views p = .anonymous page →
    pr.tried p = true ∧ (pr.written p = false → page = List.replicate pageSize 0)

/-- The region and all processes are clean. -/
structure Inv (file : TestFile) (s : SystemState) : Prop where
  clean : Clean file s.region
  processes : ∀ c, ProcOk file (s.processes c)

section Steps

variable {file : TestFile} {r r' : Region} {pr pr' : Process} {s s' : SystemState}

theorem inv_start : Inv file start where
  clean _ _ h := by cases h
  processes _ :=
    { buffer := fun _ _ h => by cases h
      events := fun _ h => by cases h
      replaces := fun _ h => by cases h
      mapped := fun _ h => by cases h
      blank := fun _ _ h => by cases h }

variable {p j : Nat} {acc : Access} {v : View} {o : Option (List UInt8)} {page : List UInt8}
  {l : ProcessLabel} {ev : Nat × Bool}

theorem tried_tries (acc : Access) (h : pr.tried p = true) : (pr.tries acc).tried p = true := by
  rw [Process.tries]
  split
  · by_cases hp : p = acc.page
    · subst hp
      exact update_self ..
    · exact (update_of_ne hp ..).trans h
  · exact h

theorem tried_of_write (h : isWrite acc = true) : (pr.tries acc).tried acc.page = true := by
  rw [Process.tries, if_pos h]
  exact update_self ..

/-- A page that is still unwritten was so before, and was not written now. -/
theorem written_completes (h : (pr.completes acc).written p = false) :
    pr.written p = false ∧ (p = acc.page → isWrite acc = false) := by
  rw [Process.completes] at h
  split at h
  · have hp : p ≠ acc.page := by
      rintro rfl
      cases (update_self ..).symm.trans h
    exact ⟨(update_of_ne hp ..).symm.trans h, fun hp' => absurd hp' hp⟩
  · rename_i hread
    exact ⟨h, fun _ => Bool.not_eq_true _ ▸ hread⟩

/-- What issuing and completing an access does to the two records. -/
theorem tries_completes (acc : Access) (pr : Process) :
    ((pr.tries acc).completes acc).tried = (pr.tries acc).tried
      ∧ ((pr.tries acc).completes acc).written = (pr.completes acc).written := by
  unfold Process.completes Process.tries
  cases isWrite acc with
  | true | false => exact ⟨rfl, rfl⟩

theorem written_tries (acc : Access) (pr : Process) : (pr.tries acc).written = pr.written := by
  rw [Process.tries]
  split
  · rfl
  · rfl

/-! ## One step of a process -/

theorem ProcOk.goto (h : ProcOk file pr) {pc : HandlerPc}
    (hbuffer : ∀ p buffer, pc = .copy p buffer → file p = some buffer)
    (hreplaces : ∀ p, pc.replaces = some p → pr.tried p = true) :
    ProcOk file (pr.goto pc) :=
  { h with buffer := hbuffer, replaces := hreplaces }

theorem ProcOk.loop (h : ProcOk file pr) : ProcOk file (pr.goto .read) :=
  h.goto (fun _ _ hpc => by cases hpc) (fun _ hpc => by cases hpc)

theorem ProcOk.wake (h : ProcOk file pr) (p : Nat) : ProcOk file (pr.wake p) := { h with }

theorem ProcOk.setView (h : ProcOk file pr) (hv : v ≠ .unmapped)
    (hblank : ∀ page, v = .anonymous page →
      pr.tried p = true ∧ (pr.written p = false → page = List.replicate pageSize 0)) :
    ProcOk file (pr.setView p v) := by
  refine { h with mapped := ?_, blank := ?_ }
  · exact (forall_update_iff pr.views fun _ w => w ≠ .unmapped).mpr
      ⟨hv, fun q _ => h.mapped q⟩
  · exact (forall_update_iff pr.views fun q w => ∀ page, w = .anonymous page →
      pr.tried q = true ∧ (pr.written q = false → page = List.replicate pageSize 0)).mpr
        ⟨hblank, fun q _ => h.blank q⟩

theorem ProcOk.records (h : ProcOk file pr) (acc : Access) :
    ProcOk file ((pr.tries acc).completes acc) := by
  obtain ⟨hviews, -, hevents, hpc, -⟩ := sameMachine_records acc pr
  obtain ⟨htried, hwritten⟩ := tries_completes acc pr
  refine ⟨?_, ?_, ?_, ?_, ?_⟩
  · rw [hpc]; exact h.buffer
  · rw [hevents, htried]; exact fun p hp => tried_tries acc (h.events p hp)
  · rw [hpc, htried]; exact fun p hp => tried_tries acc (h.replaces p hp)
  · rw [hviews]; exact h.mapped
  · rw [hviews, htried, hwritten]
    intro p page hp
    obtain ⟨hold, hzero⟩ := h.blank p page hp
    exact ⟨tried_tries acc hold, fun hw => hzero (written_completes hw).1⟩

/-- A write-protect fault is one of a write. -/
theorem isWrite_of_fault (h : effect v o acc = .fault true) : isWrite acc = true := by
  cases acc with
  | write p j x => rfl
  | read p j =>
    cases v with
    | anonymous page => cases h
    | unmapped =>
      cases o with
      | none | some page => cases h
    | shared wp =>
      cases o with
      | none => cases h
      | some page => cases wp <;> cases h

theorem ProcOk.fault (h : ProcOk file pr) {wp : Bool} (i : Nat)
    (he : effect (pr.views acc.page) o acc = .fault wp) :
    ProcOk file { (pr.tries acc).setThread i (.blocked acc) with
      events := pr.events ++ [(acc.page, wp)] } := by
  obtain ⟨hviews, -, -, hpc, -⟩ := sameMachine_tries acc pr
  have hwritten := written_tries acc pr
  refine ⟨?_, ?_, ?_, ?_, ?_⟩
  · intro p buffer hp
    exact h.buffer p buffer (hpc.symm.trans hp)
  · intro p hp
    rcases mem_append.mp hp with hold | hnew
    · exact tried_tries acc (h.events p hold)
    · cases mem_singleton.mp hnew
      exact tried_of_write (isWrite_of_fault he)
  · intro p hp
    exact tried_tries acc (h.replaces p ((congrArg HandlerPc.replaces hpc).symm.trans hp))
  · intro p hp
    exact h.mapped p ((congrFun hviews p).symm.trans hp)
  · intro p page hp
    obtain ⟨hold, hzero⟩ := h.blank p page ((congrFun hviews p).symm.trans hp)
    exact ⟨tried_tries acc hold, fun hw => hzero ((congrFun hwritten p).symm.trans hw)⟩

/-- The handler takes a page for replacement from a write-protect event. -/
theorem replaces_dispatch (h : (dispatch ev pr).replaces = some p) : ev = (p, true) := by
  rcases dispatch_cases ev pr with ⟨hd, hwp, -⟩ | ⟨hd, hwp, -⟩ | ⟨hd, -⟩
  · rw [hd] at h
    exact Prod.ext (some.inj h) hwp
  · rw [hd] at h
    exact Prod.ext (some.inj h) hwp
  · rw [hd] at h
    cases h

theorem copy_ne_dispatch {buffer : List UInt8} : dispatch ev pr ≠ .copy p buffer := by
  rcases dispatch_cases ev pr with ⟨hd, -⟩ | ⟨hd, -⟩ | ⟨hd, -⟩ <;> rw [hd] <;> simp

/-- Only a write that takes effect puts anything but zeros on a private page. -/
theorem ProcOk.own (h : ProcOk file pr) (hview : pr.views acc.page = .anonymous page) :
    ProcOk file (((pr.tries acc).completes acc).setView acc.page
      (.anonymous (acc.apply page))) := by
  obtain ⟨htried, hwritten⟩ := tries_completes acc pr
  obtain ⟨hold, hzero⟩ := h.blank acc.page page hview
  refine (h.records acc).setView (by simp) ?_
  intro page' hpage
  cases hpage
  refine ⟨?_, ?_⟩
  · rw [htried]
    exact tried_tries acc hold
  · intro hw
    rw [hwritten] at hw
    obtain ⟨hunwritten, hread⟩ := written_completes hw
    cases acc with
    | read p j => exact hzero hunwritten
    | write p j x => cases hread rfl

/-- Each move keeps a process in order. -/
theorem procOk_move (h : ProcOk file pr) (hmove : ProcessMove file r pr l r' pr') :
    ProcOk file pr' := by
  cases hmove with
  | own ha he => exact { h.own (own_of_effect he) with }
  | through ha he => exact { h.records _ with }
  | fault ha he => exact h.fault _ he
  | again => exact h
  | stopped hpc => exact h.goto (fun _ _ hpc => by cases hpc) (fun _ hpc => by cases hpc)
  | continued hpc => exact h.loop
  | event hpc hev =>
    refine { h with
      buffer := fun p buffer hpc' => absurd hpc' copy_ne_dispatch
      events := fun p hp => h.events p (mem_of_mem_eraseIdx hp)
      replaces := fun p hp => ?_ }
    exact h.events p (replaces_dispatch hp ▸ mem_of_getElem? hev)
  | fileRead hpc hfile =>
    refine h.goto ?_ (fun _ hpc => by cases hpc)
    intro p buffer hpc
    cases hpc
    exact hfile
  | copied hpc hview hmem =>
    refine ProcOk.goto ?_ (fun _ _ hpc => by cases hpc) (fun _ hpc => by cases hpc)
    exact (h.setView (by simp) (by simp)).wake _
  | loaded hpc => exact h.loop
  | unprotected hpc hview => exact ((h.setView (by simp) (by simp)).wake _).loop
  | mapped hpc =>
    have htried := h.replaces _ (congrArg HandlerPc.replaces hpc)
    refine ProcOk.goto (h.setView (by simp) ?_) (fun _ _ hpc => by cases hpc) ?_
    · intro page hpage
      cases hpage
      exact ⟨htried, fun _ => rfl⟩
    · intro p hp
      cases hp
      exact htried
  | copiedOnto hpc hview =>
    -- the copy of the page onto itself
    have htried := h.replaces _ (congrArg HandlerPc.replaces hpc)
    refine ProcOk.goto (h.setView (by simp) ?_) (fun _ _ hpc => by cases hpc) ?_
    · intro page hpage
      cases hpage
      exact h.blank _ _ hview
    · intro p hp
      cases hp
      exact htried
  | notCopied hpc =>
    refine h.goto (fun _ _ hpc => by cases hpc) ?_
    intro p hp
    cases hp
    exact h.replaces _ (congrArg HandlerPc.replaces hpc)
  | marked hpc => exact ProcOk.loop { h with }

/-! ## One step of the system -/

theorem seen_eq {i : Nat} (ha : attempt pr l = some (i, acc)) :
    seen r pr l
      = (effect (pr.views acc.page) (r.memfd acc.page) acc).found.map fun page => (acc, page) := by
  rw [seen, seenBy, ha, bind_some]

theorem shared_of_through (hmapped : v ≠ .unmapped) (h : effect v o acc = .through page) :
    ∃ wp, v = .shared wp := by
  cases v with
  | anonymous page' => cases h
  | unmapped => exact absurd rfl hmapped
  | shared wp => exact ⟨wp, rfl⟩

theorem setLoaded_memfd (p : Nat) (r : Region) : (r.setLoaded p).memfd = r.memfd := by
  rw [Region.setLoaded]
  split
  · rfl
  · rfl

/-- A page of the memfd does not go away. -/
theorem present_move (hmove : ProcessMove file r pr l r' pr') (h : r.memfd p ≠ none) :
    r'.memfd p ≠ none := by
  have hset : ∀ q page, (r.setPage q page).memfd p ≠ none := by
    intro q page
    by_cases hq : p = q
    · subst hq
      simp
    · rw [Region.memfd_setPage_of_ne hq]
      exact h
  cases hmove with
  | through | copied => exact hset _ _
  | loaded hpc => rw [setLoaded_memfd]; exact h
  | _ => exact h

/-- A handler only puts file pages into the memfd, so a step leaves the memfd clean
    exactly if the access it makes, if it goes to the memfd, changes nothing there. -/
theorem clean_move_iff (hclean : Clean file r) (h : ProcOk file pr)
    (hmove : ProcessMove file r pr l r' pr') :
    Clean file r'
      ↔ ∀ q ∈ seen r pr l, (∃ wp, pr.views q.1.page = .shared wp) → q.1.apply q.2 = q.2 := by
  have hhandler : ∀ event out, l = .handler event out → Clean file r' →
      (Clean file r'
        ↔ ∀ q ∈ seen r pr l, (∃ wp, pr.views q.1.page = .shared wp) → q.1.apply q.2 = q.2) := by
    rintro event out rfl hclean'
    exact ⟨(fun _ q hq => by cases hq), fun _ => hclean'⟩
  cases hmove with
  | own ha he =>
    -- the page under the access is the process's own
    rw [seen_eq ha, he]
    refine ⟨fun _ q hq hshared => ?_, fun _ => hclean⟩
    cases hq
    obtain ⟨wp, hwp⟩ := hshared
    cases (own_of_effect he).symm.trans hwp
  | through ha he =>
    rename_i acc page
    rw [seen_eq ha, he]
    have hpage := hclean acc.page page (memfd_of_through he)
    have hshared := shared_of_through (h.mapped acc.page) he
    show PagesOf file (update r.memfd acc.page (some (acc.apply page))) ↔ _
    rw [pagesOf_update_iff hclean, hpage, Option.some.injEq, eq_comm]
    refine ⟨fun hsame q hq _ => ?_, fun hall => hall (acc, page) rfl hshared⟩
    cases hq
    exact hsame
  | fault ha he =>
    rw [seen_eq ha, he]
    exact ⟨(fun _ q hq => by cases hq), fun _ => hclean⟩
  | copied hpc hview hmem =>
    exact hhandler _ _ rfl ((pagesOf_update_iff hclean).mpr (h.buffer _ _ hpc))
  | loaded hpc =>
    refine hhandler _ _ rfl ?_
    rw [Clean, setLoaded_memfd]
    exact hclean
  | _ => exact hhandler _ _ rfl hclean

/-- An access that takes effect finds its page in the process or in the memfd. -/
theorem effect_of_seen (hseen : seen r pr l = some (acc, page)) :
    effect (pr.views acc.page) (r.memfd acc.page) acc = .own page
      ∨ effect (pr.views acc.page) (r.memfd acc.page) acc = .through page := by
  obtain ⟨i, -, hfound⟩ := seenBy_eq_some hseen
  cases he : effect (pr.views acc.page) (r.memfd acc.page) acc with
  | own page' =>
    rw [he] at hfound
    exact .inl (congrArg Effect.own (some.inj hfound))
  | through page' =>
    rw [he] at hfound
    exact .inr (congrArg Effect.through (some.inj hfound))
  | fault wp =>
    rw [he] at hfound
    cases hfound

/-- What a process reads from a page that no handler of it has replaced is the file's. -/
theorem read_shared (hclean : Clean file r) (hseen : seen r pr l = some (.read p j, page))
    (hnot : ∀ own, pr.views p ≠ .anonymous own) : page.getD j 0 = fileByte file p j := by
  rcases effect_of_seen hseen with he | he
  · exact absurd (own_of_effect he) (hnot page)
  · rw [fileByte, hclean p page (memfd_of_through he)]
    rfl

/-- A private page reads as itself. -/
theorem own_read {own : List UInt8} (hseen : seen r pr l = some (.read p j, page))
    (hview : pr.views p = .anonymous own) : page = own := by
  rcases effect_of_seen hseen with he | he
  · cases (own_of_effect he).symm.trans hview
    rfl
  · rw [show (Access.read p j).page = p from rfl, hview] at he
    cases he

/-- A read sees the file's byte, or the zero of a page that was replaced. -/
theorem read_unwritten (hclean : Clean file r) (h : ProcOk file pr)
    (hseen : seen r pr l = some (.read p j, page)) (hunwritten : pr.written p = false) :
    page.getD j 0 = fileByte file p j
      ↔ ∀ own, pr.views p = .anonymous own → fileByte file p j = 0 := by
  by_cases hown : ∃ own, pr.views p = .anonymous own
  · obtain ⟨own, hview⟩ := hown
    have hzero := (h.blank p own hview).2 hunwritten
    rw [own_read hseen hview, hzero, getD_eq_getElem?_getD,
      getElem?_getD_replicate_default_eq, eq_comm]
    exact ⟨fun heq _ _ => heq, fun hall => hall own hview⟩
  · have hnot : ∀ own, pr.views p ≠ .anonymous own := fun own hview => hown ⟨own, hview⟩
    exact ⟨fun _ own hview => absurd hview (hnot own), fun _ => read_shared hclean hseen hnot⟩

theorem step_cases {l : Nat × ProcessLabel} (hs : step file s l = some s') :
    ∃ pr', ProcessMove file s.region (s.processes l.1) l.2 s'.region pr'
      ∧ s'.processes = update s.processes l.1 pr' := by
  obtain ⟨q, hq, rfl⟩ := map_eq_some_iff.mp hs
  exact ⟨q.2, move_of_processStep hq, rfl⟩

/-- A step keeps the region clean unless it writes to it. -/
theorem clean_iff {l : Nat × ProcessLabel} (h : Inv file s) (hs : step file s l = some s') :
    NoSharedWrite s l s' ↔ Clean file s'.region := by
  obtain ⟨pr', hmove, -⟩ := step_cases hs
  exact (clean_move_iff h.clean (h.processes l.1) hmove).symm

/-- Such a step keeps the invariant. -/
theorem inv_step (s : SystemState) (l : Nat × ProcessLabel) (s' : SystemState)
    (h : Inv file s) (hs : step file s l = some s') (hno : NoSharedWrite s l s') :
    Inv file s' := by
  have hclean := (clean_iff h hs).mp hno
  obtain ⟨pr', hmove, hprocesses⟩ := step_cases hs
  refine ⟨hclean, ?_⟩
  rw [hprocesses]
  exact (forall_update_iff s.processes fun _ pr => ProcOk file pr).mpr
    ⟨procOk_move (h.processes l.1) hmove, fun c _ => h.processes c⟩

/-- A page that the process has not tried to write is not replaced there. -/
theorem kept_tried_iff (s : SystemState) (l : Nat × ProcessLabel) (s' : SystemState)
    (h : Inv file s) (hs : step file s l = some s') :
    NoSharedWrite s l s' ↔ Kept file Process.tried s l s' := by
  rw [clean_iff h hs]
  refine ⟨fun hclean => ⟨hclean, ?_⟩, Kept.clean⟩
  intro p j page hseen huntried
  refine read_shared h.clean hseen ?_
  intro own hview
  cases huntried.symm.trans ((h.processes l.1).blank p own hview).1

theorem kept_written_iff (s : SystemState) (l : Nat × ProcessLabel) (s' : SystemState)
    (h : Inv file s) (hs : step file s l = some s') :
    (NoSharedWrite s l s' ∧ NoBlankRead file s l s') ↔ Kept file Process.written s l s' := by
  rw [clean_iff h hs]
  constructor
  · rintro ⟨hclean, hno⟩
    refine ⟨hclean, fun p j page hseen hunwritten => ?_⟩
    rw [read_unwritten h.clean (h.processes l.1) hseen hunwritten]
    exact fun own hview => hno p j page own hseen hview hunwritten
  · rintro ⟨hclean, hreads⟩
    refine ⟨hclean, fun p j page own hseen hview hunwritten => ?_⟩
    have hread := hreads p j page hseen hunwritten
    rw [read_unwritten h.clean (h.processes l.1) hseen hunwritten] at hread
    exact hread own hview

/-! ## Who has loaded a page -/

/-- A page that is mapped shared is writable exactly if the handler of the process has made
    it so. -/
def BaresKnown (pr : Process) (bare : Nat → Prop) : Prop :=
  ∀ p wp, pr.views p = .shared wp → (wp = false ↔ bare p)

theorem BaresKnown.setPage {bare : Nat → Prop} (h : BaresKnown pr bare)
    (hviews : pr'.views = update pr.views p v)
    (hv : ∀ wp, v = .shared wp → (wp = false ↔ bare p)) : BaresKnown pr' bare := by
  rw [BaresKnown, hviews]
  exact (forall_update_iff pr.views fun q w => ∀ wp, w = .shared wp →
    (wp = false ↔ bare q)).mpr ⟨hv, fun q _ => h q⟩

/-- The handler makes a page writable. -/
theorem BaresKnown.bare {bare : Nat → Prop} (h : BaresKnown pr bare)
    (hviews : pr'.views = update pr.views p (.shared false)) :
    BaresKnown pr' fun q => some p = some q ∨ bare q := by
  intro q wp hq
  rw [hviews] at hq
  by_cases hqp : q = p
  · rw [hqp, update_self] at hq
    cases hq
    simp [hqp]
  · rw [update_of_ne hqp] at hq
    rw [h q wp hq]
    simp [Ne.symm hqp]

/-- The unprotected pages are those recorded. -/
theorem baresKnown_move {bare : Nat → Prop} (h : BaresKnown pr bare) (hok : ProcOk file pr)
    (hmove : ProcessMove file r pr l r' pr') :
    BaresKnown pr' fun p => barePage r pr l = some p ∨ bare p := by
  have hmore : BaresKnown pr' bare → barePage r pr l = none →
      BaresKnown pr' fun p => barePage r pr l = some p ∨ bare p := by
    intro hnext hnone
    simpa [hnone] using hnext
  have haccess : ∀ i acc, attempt pr l = some (i, acc) → barePage r pr l = none := by
    intro i acc ha
    rcases attempt_cases ha with ⟨rfl, -⟩ | ⟨rfl, -⟩ <;> rfl
  cases hmove with
  | own ha he =>
    rename_i i acc page
    refine hmore (h.setPage (p := acc.page) (v := .anonymous (acc.apply page)) ?_ (by simp))
      (haccess _ _ ha)
    show update ((pr.tries acc).completes acc).views _ _ = _
    rw [(sameMachine_records acc pr).views]
  | through ha he =>
    refine hmore ?_ (haccess _ _ ha)
    show BaresKnown ((pr.tries _).completes _) bare
    rw [BaresKnown, (sameMachine_records _ pr).views]
    exact h
  | fault ha he =>
    refine hmore ?_ (haccess _ _ ha)
    show BaresKnown (pr.tries _) bare
    rw [BaresKnown, (sameMachine_tries _ pr).views]
    exact h
  | copied hpc hview hmem =>
    rename_i event p buffer
    have hshared : (pr.views p).isShared = true := by
      cases hv : pr.views p with
      | shared => rfl
      | unmapped => exact absurd hv (hok.mapped p)
      | anonymous own => exact absurd hv (hview own)
    rw [show barePage r pr (.handler event .ok) = some p by
      simp [barePage, hpc, hmem, hshared]]
    exact h.bare rfl
  | unprotected hpc hview =>
    rename_i event p wp
    rw [show barePage r pr (.handler event .ok) = some p by
      simp [barePage, hpc, hview, View.isShared]]
    exact h.bare rfl
  | continued hpc hwhy =>
    refine hmore h ?_
    rcases hwhy with rfl | ⟨p, hat⟩ | ⟨p, buffer, hat, hnot⟩ | ⟨p, hat, hnot⟩
    · rw [barePage]
      split <;> simp
    · simp [barePage, hat]
    · rcases hnot with hnot | hnot <;> simp [barePage, hat, hnot]
    · simp [barePage, hat, hnot]
  | mapped hpc | copiedOnto hpc =>
    exact hmore (h.setPage (v := .anonymous _) rfl (by simp)) (by simp [barePage, hpc])
  | again hpc | stopped hpc | event hpc | fileRead hpc | loaded hpc | notCopied hpc
  | marked hpc =>
    exact hmore h (by simp [barePage, hpc])

/-- An access changes the memfd exactly where its page is shared and writable. -/
theorem writes_iff (hok : ProcOk file pr) {bare : Nat → Prop} (h : BaresKnown pr bare)
    (l : ProcessLabel) :
    (∀ q ∈ seen r pr l, (∃ wp, pr.views q.1.page = .shared wp) → q.1.apply q.2 = q.2)
      ↔ ∀ i acc page, attempt pr l = some (i, acc) → r.memfd acc.page = some page →
        acc.apply page ≠ page →
        (∃ own, pr.views acc.page = .anonymous own) ∨ ¬ bare acc.page := by
  constructor
  · intro hsame i acc page ha hpage hchange
    cases hview : pr.views acc.page with
    | anonymous own => exact .inl ⟨own, rfl⟩
    | unmapped => exact absurd hview (hok.mapped _)
    | shared wp =>
      refine .inr fun hbare => hchange (hsame (acc, page) ?_ ⟨wp, hview⟩)
      obtain rfl := (h _ wp hview).mpr hbare
      rw [seen_eq ha, hview, hpage]
      rfl
  · rintro hown ⟨acc, page⟩ hseen ⟨wp, hview⟩
    obtain ⟨i, ha, -⟩ := seenBy_eq_some hseen
    have he := (effect_of_seen hseen).resolve_left fun he => by
      cases (own_of_effect he).symm.trans hview
    by_contra hchange
    have hpage := memfd_of_through he
    rcases hown i acc page ha hpage hchange with ⟨own, hprivate⟩ | hbare
    · cases hview.symm.trans hprivate
    · -- the page is protected, so only a read takes effect on it
      have hwp : wp = true := by
        cases wp with
        | true => rfl
        | false => exact absurd ((h _ _ hview).mp rfl) hbare
      rw [hview, hpage, hwp] at he
      cases acc with
      | read p j => exact hchange rfl
      | write p j x => cases he

/-- What a run keeps of all processes and what they have made writable. -/
structure BaresInv (file : TestFile) (q : SystemState × List (Nat × Nat)) : Prop where
  inv : Inv file q.1
  bares : ∀ c, BaresKnown (q.1.processes c) fun p => (c, p) ∈ q.2

theorem baresInv_start : BaresInv file (start, []) where
  inv := inv_start
  bares _ _ _ h := by
    cases h
    simp

theorem writesOthersLoads_iff {q q' : SystemState × List (Nat × Nat)}
    {l : Nat × ProcessLabel} (h : BaresInv file q) :
    WritesOthersLoads q l q' ↔ NoSharedWrite q.1 l q'.1 :=
  (writes_iff (h.inv.processes l.1) (h.bares l.1) l.2).symm

theorem baresInv_step (q : SystemState × List (Nat × Nat)) (l : Nat × ProcessLabel)
    (q' : SystemState × List (Nat × Nat)) (h : BaresInv file q)
    (hs : recorded (step file) bares q l = some q') (hno : NoSharedWrite q.1 l q'.1) :
    BaresInv file q' := by
  obtain ⟨s', hstep, rfl⟩ := map_eq_some_iff.mp hs
  refine ⟨inv_step q.1 l s' h.inv hstep hno, fun c => ?_⟩
  obtain ⟨pr', hmove, hprocesses⟩ := step_cases hstep
  show BaresKnown (s'.processes c) _
  simp only [bares, mem_record, hprocesses]
  by_cases hc : c = l.1
  · subst hc
    rw [update_self]
    simpa using baresKnown_move (h.bares l.1) (h.inv.processes l.1) hmove
  · rw [update_of_ne hc]
    simpa [hc] using h.bares c

/-- The condition on the mappings is one on who has loaded the pages. -/
theorem noSharedWrite_moves_iff (ls : List (Nat × ProcessLabel)) :
    Moves (step file) NoSharedWrite start ls
      ↔ Moves (recorded (step file) bares) WritesOthersLoads (start, []) ls := by
  rw [← moves_recorded (o := bares) []]
  exact moves_iff (I := BaresInv file) (fun q l q' h _ => (writesOthersLoads_iff h).symm)
    baresInv_step baresInv_start

end Steps

/-- **THE SHARED PAGES.**  Along every run of any number of processes the memfd keeps
    the file's pages, and a process that has issued no write to a page reads the file's
    bytes there, exactly when no write that changes a page goes to a shared mapping, and
    that is so exactly when no process writes to a page that it has loaded itself.
    A process whose write has been issued and has not taken effect reads the file's
    bytes exactly when, besides, it stays away from the page its handler has mapped. -/
theorem shared_pages_kept_iff (file : TestFile) (ls : List (Nat × ProcessLabel)) :
    (Moves (step file) (Kept file Process.tried) start ls
        ↔ Moves (step file) NoSharedWrite start ls)
      ∧ (Moves (step file) NoSharedWrite start ls
        ↔ Moves (recorded (step file) bares) WritesOthersLoads (start, []) ls)
      ∧ (Moves (step file) (Kept file Process.written) start ls
        ↔ Moves (step file) (fun s l s' => NoSharedWrite s l s' ∧ NoBlankRead file s l s')
            start ls) := by
  refine ⟨?_, noSharedWrite_moves_iff ls, ?_⟩
  · exact (moves_iff kept_tried_iff inv_step inv_start).symm
  · exact (moves_iff kept_written_iff
      (fun s l s' h hs hno => inv_step s l s' h hs hno.1) inv_start).symm

/-! ## The test file -/

/-- `create_test_file`. -/
def testFile : TestFile := fun p =>
  [0x41, 0x42, 0x43, 0x44][p]?.map (List.replicate pageSize)

/-- Process 0 reads page 0, so that its handler loads it. -/
def load : List (Nat × ProcessLabel) :=
  (0, .access 0 (.read 0 0)) :: List.replicate 4 (0, .handler 0 .ok) ++ [(0, .retry 0)]

/-- Process 0 goes on to write to the page, as `demo_operations` does. -/
def writeAfterLoad : List (Nat × ProcessLabel) := load ++ [(0, .access 0 (.write 0 0 0x58))]

/-- Process 1 writes to the page and its handler replaces it. -/
def replaceAfterLoad : List (Nat × ProcessLabel) :=
  load ++ (1, .access 0 (.write 0 0 0x58)) :: List.replicate 4 (1, .handler 0 .ok)

/-- The byte that thread `i` of process 1 reads on page 0 after a run. -/
def byteRead (ls : List (Nat × ProcessLabel)) (i : Nat) : Option UInt8 :=
  (exec (step testFile) start ls).bind fun s =>
    (seen s.region (s.processes 1) (.access i (.read 0 0))).map fun q => q.2.getD 0 0

/-- The file has `A` on its first page.  After process 0, which has loaded the page, has
    written an `X`, the memfd has it and process 1 reads it, and where process 1 is
    still writing it reads a zero. -/
theorem loader_writes_shared_page :
    fileByte testFile 0 0 = 0x41
      ∧ byteRead writeAfterLoad 0 = some 0x58
      ∧ byteRead replaceAfterLoad 1 = some 0
      ∧ ¬ Moves (step testFile) (Kept testFile Process.tried) start writeAfterLoad := by
  refine ⟨by decide +kernel, by decide +kernel, by decide +kernel, ?_⟩
  intro hkept
  have hload : exec (step testFile) start load
      = some ((exec (step testFile) start load).getD start) := rfl
  obtain ⟨hstep, -⟩ := moves_exec hkept hload _ rfl
  have hpage := hstep.clean 0 _ rfl
  have hbyte := congrArg (fun page => (page.getD []).getD 0 0) hpage
  revert hbyte
  decide +kernel

end UffdCow
