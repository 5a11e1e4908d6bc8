import Mathlib.Data.List.InsertIdx
import DemoStore.SharedPagesProofs

/-! # Who releases a faulting thread in `uffd-cow`

    A thread that faults is blocked until something wakes it: a successful `UFFDIO_COPY` or
    `UFFDIO_WRITEPROTECT` on its page, in its own process.  The handler ends an iteration in
    six ways, and only the two that follow such a call wake anybody.

    To speak of the thread whose fault an iteration is about, a run is recorded: faults are
    numbered by the step that raises them, each process has the faults of its event queue and
    the one at hand, and each page of the memfd the process that loaded it.  The record does
    not touch the run (`exec_trackStep`).

    A page is loaded once.  A fault for a missing page ends with its thread released exactly
    if the process itself has loaded the page, and a write-protect fault never does: the page
    is in the memfd by then, so no `UFFDIO_COPY` for it will succeed, and the range of a page
    that is private has left the userfaultfd. -/

namespace UffdCow

open MachineRun List Option
open TemplateClient
  (View Access Thread Effect Outcome effect memfd_of_through own_of_effect)
open Function (forall_update_iff update update_of_ne update_self)

/-! ## Runs on record -/

/-- A fault: its number, its page and whether it is a write-protect fault. -/
structure Fault where
  id : Nat
  page : Nat
  wp : Bool

/-- The faults of one process: those of its `events`, the one its handler is at or was at
    last, and the last one of each thread. -/
structure Record where
  queue : List Fault
  current : Option Fault
  faultOf : Nat → Nat

/-- The system, the number of steps so far, and for each page the process that put it into
    the memfd. -/
structure Tracked where
  sys : SystemState
  steps : Nat
  loader : Nat → Option Nat
  records : Nat → Record

/-- The start, with nothing recorded. -/
def trackStart : Tracked where
  sys := start
  steps := 0
  loader := fun _ => none
  records := fun _ => ⟨[], none, fun _ => 0⟩

/-- The fault an iteration of the handler is about, as page and kind; `none` outside of the
    iterations. -/
def HandlerPc.handles : HandlerPc → Option (Nat × Bool)
  | .readFile p | .copy p _ | .setLoaded p => some (p, false)
  | .unprotect p | .mmap p | .memcpy p | .setPrivate p => some (p, true)
  | .read | .exited => none

/-- Whether an access faults, and how. -/
def faultKind : Effect → Option Bool
  | .fault wp => some wp
  | .own _ => none
  | .through _ => none

/-- The thread that faults with this label, and its fault. -/
def raised (n : Nat) (r : Region) (pr : Process) (l : ProcessLabel) : Option (Nat × Fault) :=
  (attempt pr l).bind fun q =>
    (faultKind (effect (pr.views q.2.page) (r.memfd q.2.page) q.2)).map fun wp =>
      (q.1, ⟨n, q.2.page, wp⟩)

/-- The event the handler takes. -/
def ProcessLabel.event : ProcessLabel → Nat
  | .handler event _ => event
  | .access _ _ => 0
  | .retry _ => 0

/-- A thread raises a fault. -/
def Record.raise (i : Nat) (f : Fault) (g : Record) : Record :=
  { g with queue := g.queue ++ [f], faultOf := update g.faultOf i f.id }

/-- The handler takes a fault. -/
def Record.take (event : Nat) (g : Record) : Record :=
  { g with queue := g.queue.eraseIdx event, current := g.queue[event]? }

/-- The record of a process after one of its steps. -/
def Record.observe (n : Nat) (r : Region) (pr : Process) (l : ProcessLabel) (pr' : Process)
    (g : Record) : Record :=
  match raised n r pr l with
  | some q => g.raise q.1 q.2
  | none =>
    if pr.pc.handles = none ∧ pr'.pc.handles ≠ none then g.take l.event else g

/-- Who has loaded a page, after a step of process `c`. -/
def loaderAfter (c : Nat) (r r' : Region) (loader : Nat → Option Nat) (p : Nat) : Option Nat :=
  if (r.memfd p).isNone ∧ (r'.memfd p).isSome then some c else loader p

/-- A step that is recorded. -/
def trackStep (file : TestFile) (s : Tracked) (l : Nat × ProcessLabel) : Option Tracked :=
  (step file s.sys l).map fun sys =>
    { sys := sys
      steps := s.steps + 1
      loader := loaderAfter l.1 s.sys.region sys.region s.loader
      records := update s.records l.1
        ((s.records l.1).observe s.steps s.sys.region (s.sys.processes l.1) l.2
          (sys.processes l.1)) }

/-- **THE RECORD** leaves the runs as they are. -/
theorem exec_trackStep (file : TestFile) (s : Tracked) (ls : List (Nat × ProcessLabel)) :
    (exec (trackStep file) s ls).map Tracked.sys = exec (step file) s.sys ls := by
  induction ls generalizing s with
  | nil => rfl
  | cons l ls ih =>
    rw [exec, exec, trackStep]
    cases step file s.sys l with
    | none => rfl
    | some sys => exact ih _

/-! ## What should hold when an iteration ends -/

/-- The fault, as page and kind, of the iteration that the handler ends with a step. -/
def ended (pr pr' : Process) : Option (Nat × Bool) :=
  if pr'.pc.handles = none then pr.pc.handles else none

/-- The page is there, in the process or in the memfd. -/
def PagePresent (r : Region) (pr : Process) (p : Nat) : Prop :=
  (∃ page, pr.views p = .anonymous page) ∨ r.memfd p ≠ none

/-- The thread of the fault is still blocked in it. -/
def StillBlocked (pr : Process) (g : Record) (f : Fault) : Prop :=
  ∃ i acc, pr.threads i = .blocked acc ∧ g.faultOf i = f.id

/-- An iteration that ends is about a fault on record, and if the page of the fault is there,
    its thread was woken. -/
def Releases (s : Tracked) (l : Nat × ProcessLabel) (s' : Tracked) : Prop :=
  ∀ q, ended (s.sys.processes l.1) (s'.sys.processes l.1) = some q →
    ∃ f, (s'.records l.1).current = some f ∧ (f.page, f.wp) = q
      ∧ (PagePresent s'.sys.region (s'.sys.processes l.1) f.page →
        ¬ StillBlocked (s'.sys.processes l.1) (s'.records l.1) f)

/-- If an iteration ends and the page of its fault is there, the fault was one for a missing
    page, and the process itself has loaded it. -/
def LoadsItself (s : Tracked) (l : Nat × ProcessLabel) (s' : Tracked) : Prop :=
  ∀ q, ended (s.sys.processes l.1) (s'.sys.processes l.1) = some q →
    PagePresent s'.sys.region (s'.sys.processes l.1) q.1 →
    q.2 = false ∧ s'.loader q.1 = some l.1

/-! ## The faults that are not finished -/

/-- The fault is queued, or the handler is at it or was at it last. -/
def Record.Has (g : Record) (f : Fault) : Prop := f ∈ g.queue ∨ g.current = some f

/-- What is known of the threads of process `c`.  The fault of a thread keeps it blocked until
    the process loads the page, which a write-protect fault excludes. -/
structure FaultsOk (c n : Nat) (r : Region) (loader : Nat → Option Nat)
    (threads : Nat → Thread) (g : Record) : Prop where
  old : ∀ f, g.Has f → f.id < n
  fresh : ∀ i acc, threads i = .blocked acc → g.faultOf i < n
  marked : ∀ f, g.Has f → f.wp = true → r.memfd f.page ≠ none
  waits : ∀ f, g.Has f → f.wp = true ∨ loader f.page ≠ some c →
    ∃ i acc, threads i = .blocked acc ∧ acc.page = f.page ∧ g.faultOf i = f.id
  pages : ∀ f, g.Has f → ∀ i acc, threads i = .blocked acc → g.faultOf i = f.id → acc.page = f.page
  released : ∀ f, g.Has f → f.wp = false → loader f.page = some c →
    ∀ i acc, threads i = .blocked acc → g.faultOf i ≠ f.id

/-- What is known of the handler of a process. -/
structure HandlerOk (r : Region) (pr : Process) (g : Record) : Prop where
  events : pr.events = g.queue.map fun f => (f.page, f.wp)
  current : ∀ q, pr.pc.handles = some q → ∃ f, g.current = some f ∧ (f.page, f.wp) = q
  owned : ∀ p, pr.isPrivate p = true ∨ pr.pc = .memcpy p ∨ pr.pc = .setPrivate p →
    ∃ page, pr.views p = .anonymous page
  unprotects : ∀ p, pr.pc = .unprotect p → pr.isPrivate p = true
  backed : ∀ p page, pr.views p = .anonymous page → r.memfd p ≠ none

/-- What is known of process `c`. -/
structure ProcessOk (c n : Nat) (r : Region) (loader : Nat → Option Nat) (pr : Process)
    (g : Record) : Prop where
  faults : FaultsOk c n r loader pr.threads g
  handler : HandlerOk r pr g

/-- The record agrees with the system. -/
structure TrackInv (s : Tracked) : Prop where
  loaders : ∀ p, s.loader p = none ↔ s.sys.region.memfd p = none
  processes : ∀ c, ProcessOk c s.steps s.sys.region s.loader (s.sys.processes c) (s.records c)

variable {p i : Nat} {acc : Access} {wp : Bool} {q : Nat × Bool}

section Threads

variable {c n n' : Nat} {r r' : Region} {loader loader' : Nat → Option Nat}
  {threads : Nat → Thread} {g g' : Record}

theorem wake_eq_blocked {t : Thread} :
    t.wake p = .blocked acc ↔ t = .blocked acc ∧ acc.page ≠ p := by
  cases t with
  | running | woken =>
    constructor
    · intro h; cases h
    · rintro ⟨h, -⟩; cases h
  | blocked acc' =>
    rw [Thread.wake]
    split
    · rename_i hp
      constructor
      · intro h; cases h
      · rintro ⟨h, hne⟩
        cases h
        exact absurd hp hne
    · rename_i hp
      constructor
      · intro h
        cases h
        exact ⟨rfl, hp⟩
      · exact fun h => h.1

/-- A step of another process. -/
theorem FaultsOk.mono (h : FaultsOk c n r loader threads g) (hn : n ≤ n')
    (hmem : ∀ p, r.memfd p ≠ none → r'.memfd p ≠ none)
    (hloader : ∀ p, loader' p = some c ↔ loader p = some c) :
    FaultsOk c n' r' loader' threads g where
  old := fun f hf => Nat.lt_of_lt_of_le (h.old f hf) hn
  fresh := fun i acc hi => Nat.lt_of_lt_of_le (h.fresh i acc hi) hn
  marked := fun f hf hwp => hmem _ (h.marked f hf hwp)
  waits := by
    intro f hf hwhy
    refine h.waits f hf (hwhy.imp_right fun hne heq => hne ?_)
    exact (hloader f.page).mpr heq
  pages := h.pages
  released := fun f hf hwp hl => h.released f hf hwp ((hloader f.page).mp hl)

/-- An access that takes effect: its thread was not blocked, and is not now. -/
theorem FaultsOk.running (h : FaultsOk c n r loader threads g)
    (hi : ∀ acc, threads i ≠ .blocked acc) :
    FaultsOk c n r loader (update threads i .running) g := by
  have hblocked : ∀ j acc, update threads i .running j = .blocked acc →
      threads j = .blocked acc := by
    intro j acc hj
    by_cases hji : j = i
    · subst hji
      rw [update_self] at hj
      cases hj
    · rwa [update_of_ne hji] at hj
  refine ⟨h.old, ?_, h.marked, ?_, ?_, ?_⟩
  · exact fun j acc hj => h.fresh j acc (hblocked j acc hj)
  · intro f hf hwhy
    obtain ⟨j, acc, hj, hacc⟩ := h.waits f hf hwhy
    have hji : j ≠ i := by
      rintro rfl
      exact hi acc hj
    exact ⟨j, acc, (update_of_ne hji ..).trans hj, hacc⟩
  · exact fun f hf j acc hj => h.pages f hf j acc (hblocked j acc hj)
  · exact fun f hf hwp hl j acc hj => h.released f hf hwp hl j acc (hblocked j acc hj)

/-- **A FAULT** blocks its thread under a number of its own. -/
theorem FaultsOk.raise (h : FaultsOk c n r loader threads g)
    (hi : ∀ acc, threads i ≠ .blocked acc) (hmarked : wp = true → r.memfd acc.page ≠ none)
    (hmissing : wp = false → loader acc.page ≠ some c) :
    FaultsOk c (n + 1) r loader (update threads i (.blocked acc))
      (g.raise i ⟨n, acc.page, wp⟩) := by
  have hhas : ∀ f, (g.raise i ⟨n, acc.page, wp⟩).Has f → g.Has f ∨ f = ⟨n, acc.page, wp⟩ := by
    intro f hf
    rcases hf with hf | hf
    · rcases mem_append.mp hf with hf | hf
      · exact .inl (.inl hf)
      · exact .inr (mem_singleton.mp hf)
    · exact .inl (.inr hf)
  -- the blocked threads are the old ones with their faults, and the new one
  have hblocked : ∀ j acc', update threads i (.blocked acc) j = .blocked acc' →
      (j = i ∧ acc' = acc ∧ (g.raise i ⟨n, acc.page, wp⟩).faultOf j = n)
      ∨ (threads j = .blocked acc' ∧ (g.raise i ⟨n, acc.page, wp⟩).faultOf j = g.faultOf j) := by
    intro j acc' hj
    by_cases hji : j = i
    · subst hji
      rw [update_self] at hj
      cases hj
      exact .inl ⟨rfl, rfl, update_self ..⟩
    · rw [update_of_ne hji] at hj
      exact .inr ⟨hj, update_of_ne hji ..⟩
  refine ⟨?_, ?_, ?_, ?_, ?_, ?_⟩
  · intro f hf
    rcases hhas f hf with hf | rfl
    · exact Nat.lt_succ_of_lt (h.old f hf)
    · exact Nat.lt_succ_self n
  · intro j acc' hj
    rcases hblocked j acc' hj with ⟨-, -, hid⟩ | ⟨hj, hid⟩
    · rw [hid]
      exact Nat.lt_succ_self n
    · rw [hid]
      exact Nat.lt_succ_of_lt (h.fresh j acc' hj)
  · intro f hf hwp
    rcases hhas f hf with hf | rfl
    · exact h.marked f hf hwp
    · exact hmarked hwp
  · intro f hf hwhy
    rcases hhas f hf with hf | rfl
    · obtain ⟨j, acc', hj, hacc, hid⟩ := h.waits f hf hwhy
      have hji : j ≠ i := by
        rintro rfl
        exact hi acc' hj
      exact ⟨j, acc', (update_of_ne hji ..).trans hj, hacc, (update_of_ne hji ..).trans hid⟩
    · exact ⟨i, acc, update_self .., rfl, update_self ..⟩
  · intro f hf j acc' hj hfault
    rcases hblocked j acc' hj with ⟨-, rfl, hid⟩ | ⟨hj, hid⟩
    · rcases hhas f hf with hf | rfl
      · exact absurd (hid.symm.trans hfault) (Nat.ne_of_gt (h.old f hf))
      · rfl
    · rw [hid] at hfault
      rcases hhas f hf with hf | rfl
      · exact h.pages f hf j acc' hj hfault
      · exact absurd hfault (Nat.ne_of_lt (h.fresh j acc' hj))
  · intro f hf hwp hl j acc' hj hfault
    rcases hhas f hf with hf | rfl
    · rcases hblocked j acc' hj with ⟨-, -, hid⟩ | ⟨hj, hid⟩
      · exact absurd (hid.symm.trans hfault) (Nat.ne_of_gt (h.old f hf))
      · exact h.released f hf hwp hl j acc' hj (hid.symm.trans hfault)
    · exact hmissing hwp hl

/-- Taking an event moves a fault from the queue to the handler. -/
theorem FaultsOk.take (h : FaultsOk c n r loader threads g) (event : Nat) :
    FaultsOk c n r loader threads (g.take event) := by
  have hhas : ∀ f, (g.take event).Has f → g.Has f := by
    intro f hf
    rcases hf with hf | hf
    · exact .inl (mem_of_mem_eraseIdx hf)
    · exact .inl (mem_of_getElem? hf)
  exact ⟨fun f hf => h.old f (hhas f hf), h.fresh, fun f hf => h.marked f (hhas f hf),
    fun f hf => h.waits f (hhas f hf), fun f hf => h.pages f (hhas f hf),
    fun f hf => h.released f (hhas f hf)⟩

/-- **A SUCCESSFUL `UFFDIO_COPY`** releases all threads of the process that wait for the
    page. -/
theorem FaultsOk.load (h : FaultsOk c n r loader threads g) (hnone : r.memfd p = none)
    (hmem : ∀ q, r.memfd q ≠ none → r'.memfd q ≠ none) (hself : loader' p = some c)
    (hother : ∀ q, q ≠ p → loader' q = loader q) :
    FaultsOk c n r' loader' (fun i => (threads i).wake p) g := by
  refine ⟨h.old, ?_, ?_, ?_, ?_, ?_⟩
  · exact fun i acc hi => h.fresh i acc (wake_eq_blocked.mp hi).1
  · exact fun f hf hwp => hmem _ (h.marked f hf hwp)
  · intro f hf hwhy
    -- a fault that still waits is about another page
    have hp : f.page ≠ p := by
      intro hp
      rcases hwhy with hwp | hl
      · exact h.marked f hf hwp (hp ▸ hnone)
      · exact hl (hp ▸ hself)
    rw [hother _ hp] at hwhy
    obtain ⟨i, acc, hi, hacc, hid⟩ := h.waits f hf hwhy
    exact ⟨i, acc, wake_eq_blocked.mpr ⟨hi, hacc ▸ hp⟩, hacc, hid⟩
  · exact fun f hf i acc hi => h.pages f hf i acc (wake_eq_blocked.mp hi).1
  · intro f hf hwp hl i acc hi hid
    obtain ⟨hblocked, hpage⟩ := wake_eq_blocked.mp hi
    have hp : f.page ≠ p := h.pages f hf i acc hblocked hid ▸ hpage
    rw [hother _ hp] at hl
    exact h.released f hf hwp hl i acc hblocked hid

/-- **A FAULT THAT IS NOT FINISHED** has its thread released exactly if it was for a missing
    page and the process has loaded the page. -/
theorem FaultsOk.released_iff {pr : Process} (h : FaultsOk c n r loader pr.threads g) {f : Fault}
    (hf : g.Has f) : ¬ StillBlocked pr g f ↔ f.wp = false ∧ loader f.page = some c := by
  constructor
  · intro hnot
    by_contra hwhy
    have hwait : f.wp = true ∨ loader f.page ≠ some c := by
      cases hwp : f.wp with
      | true => exact .inl rfl
      | false => exact .inr fun hl => hwhy ⟨hwp, hl⟩
    obtain ⟨i, acc, hi, -, hid⟩ := h.waits f hf hwait
    exact hnot ⟨i, acc, hi, hid⟩
  · rintro ⟨hwp, hl⟩ ⟨i, acc, hi, hid⟩
    exact h.released f hf hwp hl i acc hi hid

end Threads

section Handler

variable {file : TestFile} {c n : Nat} {r r' : Region} {loader : Nat → Option Nat}
  {pr pr' : Process} {g : Record}

theorem HandlerOk.region (h : HandlerOk r pr g)
    (hmem : ∀ p, r.memfd p ≠ none → r'.memfd p ≠ none) : HandlerOk r' pr g :=
  { h with backed := fun p page hp => hmem p (h.backed p page hp) }

variable {pc : HandlerPc} {l : ProcessLabel} {out : Outcome} {v : View} {ev : Nat × Bool}

/-- The handler goes on within the iteration, or ends it. -/
theorem HandlerOk.goto (h : HandlerOk r pr g)
    (hcurrent : ∀ q, pc.handles = some q → pr.pc.handles = some q)
    (howned : ∀ p, pc = .memcpy p ∨ pc = .setPrivate p → ∃ page, pr.views p = .anonymous page)
    (hunprotects : ∀ p, pc ≠ .unprotect p) : HandlerOk r (pr.goto pc) g where
  events := h.events
  current := fun q hq => h.current q (hcurrent q hq)
  owned := by
    intro p hp
    rcases hp with hp | hp
    · exact h.owned p (.inl hp)
    · exact howned p hp
  unprotects := fun p hp => absurd hp (hunprotects p)
  backed := h.backed

theorem HandlerOk.ends (h : HandlerOk r pr g) (hpc : pc.handles = none) :
    HandlerOk r (pr.goto pc) g := by
  refine h.goto ?_ ?_ ?_
  · intro q hq
    cases hpc.symm.trans hq
  · rintro p (rfl | rfl) <;> cases hpc
  · rintro p rfl
    cases hpc

theorem HandlerOk.setView (h : HandlerOk r pr g)
    (howned : pr.isPrivate p = true ∨ pr.pc = .memcpy p ∨ pr.pc = .setPrivate p →
      ∃ page, v = .anonymous page) (hbacked : ∀ page, v = .anonymous page → r.memfd p ≠ none) :
    HandlerOk r (pr.setView p v) g := by
  refine { h with owned := ?_, backed := ?_ }
  · exact (forall_update_iff pr.views fun q w =>
      pr.isPrivate q = true ∨ pr.pc = .memcpy q ∨ pr.pc = .setPrivate q →
        ∃ page, w = .anonymous page).mpr ⟨howned, fun q _ => h.owned q⟩
  · exact (forall_update_iff pr.views fun q w => ∀ page, w = .anonymous page →
      r.memfd q ≠ none).mpr ⟨hbacked, fun q _ => h.backed q⟩

theorem HandlerOk.same (h : HandlerOk r pr g) (hsame : SameMachine pr pr') : HandlerOk r pr' g where
  events := hsame.events.trans h.events
  current := fun q hq => h.current q (hsame.pc ▸ hq)
  owned := by
    rw [hsame.views, hsame.pc, hsame.isPrivate]
    exact h.owned
  unprotects := by
    rw [hsame.pc, hsame.isPrivate]
    exact h.unprotects
  backed := by
    rw [hsame.views]
    exact h.backed

theorem SameMachine.threads_setThread (h : SameMachine pr pr') (i : Nat) (t : Thread) :
    (pr'.setThread i t).threads = update pr.threads i t := by
  rw [Process.setThread, h.threads]

/-- The handler goes on with the replacement of a page. -/
theorem HandlerOk.replacing (h : HandlerOk r pr g) (hbusy : pr.pc.handles = some (p, true))
    (hpc : pc = .memcpy p ∨ pc = .setPrivate p) (howned : ∃ page, pr.views p = .anonymous page) :
    HandlerOk r (pr.goto pc) g := by
  rcases hpc with rfl | rfl
  · refine h.goto (fun q hq => hbusy.trans hq) ?_ (by simp)
    rintro q (hq | hq) <;> cases hq
    exact howned
  · refine h.goto (fun q hq => hbusy.trans hq) ?_ (by simp)
    rintro q (hq | hq) <;> cases hq
    exact howned

/-- `is_private` is set at the end of a replacement. -/
theorem HandlerOk.setPrivate (h : HandlerOk r pr g) (hpc : pr.pc = .setPrivate p) :
    HandlerOk r (pr.setPrivate p) g := by
  refine { h with owned := ?_, unprotects := ?_ }
  · exact (forall_update_iff pr.isPrivate fun q b =>
      b = true ∨ pr.pc = .memcpy q ∨ pr.pc = .setPrivate q →
        ∃ page, pr.views q = .anonymous page).mpr
          ⟨fun _ => h.owned p (.inr (.inr hpc)), fun q _ => h.owned q⟩
  · intro q hq
    cases hpc.symm.trans hq

theorem handles_dispatch (ev : Nat × Bool) (pr : Process) : (dispatch ev pr).handles = some ev := by
  obtain ⟨p, wp⟩ := ev
  rcases dispatch_cases (p, wp) pr with ⟨hd, hwp, -⟩ | ⟨hd, hwp, -⟩ | ⟨hd, hwp⟩
  · rw [hd, show wp = true from hwp]
    rfl
  · rw [hd, show wp = true from hwp]
    rfl
  · rw [hd, show wp = false from hwp]
    rfl

/-- Taking an event. -/
theorem HandlerOk.take (h : HandlerOk r pr g) {event : Nat} (hev : pr.events[event]? = some ev) :
    HandlerOk r { pr with pc := dispatch ev pr, events := pr.events.eraseIdx event }
      (g.take event) where
  events := by
    show pr.events.eraseIdx event = (g.queue.eraseIdx event).map _
    rw [h.events, eraseIdx_map]
  current := by
    intro q hq
    rw [h.events, getElem?_map] at hev
    obtain ⟨f, hf, hfev⟩ := map_eq_some_iff.mp hev
    have hqev : q = ev := some.inj (hq.symm.trans (handles_dispatch ev pr))
    exact ⟨f, hf, hfev.trans hqev.symm⟩
  owned := by
    intro p hp
    rcases hp with hp | hp
    · exact h.owned p (.inl hp)
    · -- an iteration does not start with the copy or the mark
      have hd : dispatch ev pr = .memcpy p ∨ dispatch ev pr = .setPrivate p := hp
      rcases dispatch_cases ev pr with ⟨heq, -⟩ | ⟨heq, -⟩ | ⟨heq, -⟩ <;> rw [heq] at hd <;>
        rcases hd with hd | hd <;> cases hd
  unprotects := by
    intro p hp
    have hd : dispatch ev pr = .unprotect p := hp
    rcases dispatch_cases ev pr with ⟨heq, -, hprivate⟩ | ⟨heq, -⟩ | ⟨heq, -⟩
    · rw [heq] at hd
      cases hd
      exact hprivate
    · rw [heq] at hd
      cases hd
    · rw [heq] at hd
      cases hd
  backed := h.backed

/-- The record of a step that raises no fault and takes no event. -/
theorem observe_same (hraised : raised n r pr l = none)
    (hpc : pr.pc.handles ≠ none ∨ pr'.pc.handles = none) : g.observe n r pr l pr' = g := by
  rw [Record.observe, hraised]
  refine if_neg ?_
  rintro ⟨hfree, hbusy⟩
  exact hpc.elim (fun h => h hfree) hbusy

/-- The fault at hand stays until the iteration is over. -/
theorem current_observe (hbusy : pr.pc.handles = some q) :
    (g.observe n r pr l pr').current = g.current := by
  cases hraised : raised n r pr l with
  | some a =>
    rw [Record.observe, hraised]
    rfl
  | none => rw [observe_same hraised (.inl (by simp [hbusy]))]

theorem loaderAfter_same (hmem : ∀ p, r.memfd p = none → r'.memfd p = none) :
    loaderAfter c r r' loader = loader := by
  funext p
  refine if_neg ?_
  rintro ⟨hnone, hsome⟩
  rw [hmem p (isNone_iff_eq_none.mp hnone)] at hsome
  cases hsome

theorem not_blocked_of_attempt (ha : attempt pr l = some (i, acc)) (acc' : Access) :
    pr.threads i ≠ .blocked acc' := by
  rcases attempt_cases ha with ⟨-, hrun⟩ | ⟨-, hwoken⟩
  · rw [hrun]
    simp
  · rw [hwoken]
    simp

/-- A write-protect fault is on a page of the memfd, another fault is on a missing one. -/
theorem memfd_of_fault {o : Option (List UInt8)} (h : effect v o acc = .fault wp) :
    wp = true ↔ o ≠ none := by
  cases v with
  | anonymous page => cases h
  | unmapped =>
    cases o with
    | none => cases h; simp
    | some page => cases h
  | shared mark =>
    cases o with
    | none => cases h; simp
    | some page =>
      cases mark with
      | false => cases h
      | true =>
        cases acc with
        | read p j => cases h
        | write p j x => cases h; simp

theorem raised_eq (ha : attempt pr l = some (i, acc)) :
    raised n r pr l
      = (faultKind (effect (pr.views acc.page) (r.memfd acc.page) acc)).map
          fun wp => (i, ⟨n, acc.page, wp⟩) := by
  rw [raised, ha, bind_some]

/-! ## One step of a process -/

/-- A step of the handler that does not wake anybody, within an iteration or at its end. -/
theorem ProcessOk.quiet (h : ProcessOk c n r loader pr g) {event : Nat}
    (hmem : r'.memfd = r.memfd) (hthreads : pr'.threads = pr.threads)
    (hpc : pr.pc.handles ≠ none ∨ pr'.pc.handles = none) (hok : HandlerOk r pr' g) :
    ProcessOk c (n + 1) r' (loaderAfter c r r' loader) pr'
      (g.observe n r pr (.handler event out) pr') := by
  rw [observe_same rfl hpc, loaderAfter_same fun p hp => (congrFun hmem p).trans hp]
  refine ⟨?_, hok.region fun p hp => hmem ▸ hp⟩
  rw [hthreads]
  exact h.faults.mono (Nat.le_succ n) (fun p hp => hmem ▸ hp) fun p => Iff.rfl

theorem ProcessOk.within (h : ProcessOk c n r loader pr g) {event : Nat}
    (hbusy : pr.pc.handles = some q) (hthreads : pr'.threads = pr.threads)
    (hok : HandlerOk r pr' g) :
    ProcessOk c (n + 1) r (loaderAfter c r r loader) pr'
      (g.observe n r pr (.handler event out) pr') :=
  h.quiet rfl hthreads (.inl (by simp [hbusy])) hok

/-- **AN ACCESS THAT TAKES EFFECT.** -/
theorem ProcessOk.completed (h : ProcessOk c n r loader pr g) (ha : attempt pr l = some (i, acc))
    (he : faultKind (effect (pr.views acc.page) (r.memfd acc.page) acc) = none)
    (hmem : ∀ p, r'.memfd p = none ↔ r.memfd p = none) (hpc : pr'.pc = pr.pc)
    (hthreads : pr'.threads = update pr.threads i .running) (hok : HandlerOk r pr' g) :
    ProcessOk c (n + 1) r' (loaderAfter c r r' loader) pr' (g.observe n r pr l pr') := by
  have hraised : raised n r pr l = none := by
    rw [raised_eq ha, he]
    rfl
  have hkept : ∀ p, r.memfd p ≠ none → r'.memfd p ≠ none := fun p hp hnone =>
    hp ((hmem p).mp hnone)
  have hobserve : g.observe n r pr l pr' = g :=
    observe_same hraised (hpc ▸ (Decidable.em (pr.pc.handles = none)).symm)
  rw [hobserve, loaderAfter_same fun p hp => (hmem p).mpr hp]
  refine ⟨?_, hok.region hkept⟩
  rw [hthreads]
  exact (h.faults.running (not_blocked_of_attempt ha)).mono (Nat.le_succ n) hkept fun p => Iff.rfl

/-- **AN ACCESS THAT FAULTS.** -/
theorem ProcessOk.faulted (h : ProcessOk c n r loader pr g)
    (hloader : ∀ p, loader p = none ↔ r.memfd p = none) (ha : attempt pr l = some (i, acc))
    (he : effect (pr.views acc.page) (r.memfd acc.page) acc = .fault wp) :
    let pr' := { (pr.tries acc).setThread i (.blocked acc) with
      events := pr.events ++ [(acc.page, wp)] }
    ProcessOk c (n + 1) r (loaderAfter c r r loader) pr' (g.observe n r pr l pr') := by
  intro pr'
  have hsame := sameMachine_tries acc pr
  have hraised : raised n r pr l = some (i, ⟨n, acc.page, wp⟩) := by
    rw [raised_eq ha, he]
    rfl
  have hobserve : g.observe n r pr l pr' = g.raise i ⟨n, acc.page, wp⟩ := by
    rw [Record.observe, hraised]
  rw [hobserve, loaderAfter_same fun p hp => hp]
  have hkind := memfd_of_fault he
  constructor
  · rw [show pr'.threads = _ from hsame.threads_setThread i (.blocked acc)]
    refine h.faults.raise (not_blocked_of_attempt ha) hkind.mp ?_
    -- nobody has loaded the page yet
    intro hwp hl
    have hmissing : r.memfd acc.page = none := by
      by_contra hpresent
      cases hwp.symm.trans (hkind.mpr hpresent)
    cases hl.symm.trans ((hloader acc.page).mpr hmissing)
  · have htries := h.handler.same hsame
    refine { htries with events := ?_ }
    show pr.events ++ _ = List.map _ (g.queue ++ _)
    rw [map_append, h.handler.events]
    rfl

/-- **THE HEAD OF THE LOOP** hands an event to its branch. -/
theorem ProcessOk.taken (h : ProcessOk c n r loader pr g) {event : Nat} (hpc : pr.pc = .read)
    (hev : pr.events[event]? = some ev) :
    let pr' := { pr with pc := dispatch ev pr, events := pr.events.eraseIdx event }
    ProcessOk c (n + 1) r (loaderAfter c r r loader) pr'
      (g.observe n r pr (.handler event out) pr') := by
  intro pr'
  have hobserve : g.observe n r pr (.handler event out) pr' = g.take event := by
    have hbusy : pr'.pc.handles ≠ none := by
      rw [show pr'.pc.handles = some ev from handles_dispatch ev pr]
      simp
    exact if_pos ⟨congrArg HandlerPc.handles hpc, hbusy⟩
  rw [hobserve, loaderAfter_same fun p hp => hp]
  refine ⟨?_, h.handler.take hev⟩
  exact (h.faults.take event).mono (Nat.le_succ n) (fun p hp => hp) fun p => Iff.rfl

/-- **A SUCCESSFUL `UFFDIO_COPY`.** -/
theorem ProcessOk.copied (h : ProcessOk c n r loader pr g) {event : Nat} {buffer : List UInt8}
    (hpc : pr.pc = .copy p buffer) (hmem : r.memfd p = none) :
    let pr' := ((pr.setView p (.shared false)).wake p).goto (.setLoaded p)
    ProcessOk c (n + 1) (r.setPage p buffer) (loaderAfter c r (r.setPage p buffer) loader) pr'
      (g.observe n r pr (.handler event out) pr') := by
  intro pr'
  have hbusy : pr.pc.handles = some (p, false) := congrArg HandlerPc.handles hpc
  rw [observe_same rfl (.inl (by simp [hbusy]))]
  have hkept : ∀ q, r.memfd q ≠ none → (r.setPage p buffer).memfd q ≠ none := by
    intro q hq
    rw [Region.memfd_setPage_of_ne]
    · exact hq
    · rintro rfl
      exact hq hmem
  constructor
  · have hload : FaultsOk c n (r.setPage p buffer) (loaderAfter c r (r.setPage p buffer) loader)
        pr'.threads g := by
      refine h.faults.load hmem hkept ?_ ?_
      · refine if_pos ⟨isNone_iff_eq_none.mpr hmem, ?_⟩
        rw [Region.memfd_setPage_self]
        rfl
      · intro q hq
        refine if_neg ?_
        rw [Region.memfd_setPage_of_ne hq]
        rintro ⟨hnone, hsome⟩
        rw [isNone_iff_eq_none.mp hnone] at hsome
        cases hsome
    exact hload.mono (Nat.le_succ n) (fun q hq => hq) fun q => Iff.rfl
  · -- a page of the process's own is in the memfd too, so the new one is not
    have hview : HandlerOk r (pr.setView p (.shared false)) g := by
      refine h.handler.setView ?_ (by simp)
      intro howned
      obtain ⟨page, hpage⟩ := h.handler.owned p howned
      exact absurd hmem (h.handler.backed p page hpage)
    have hwake : HandlerOk r ((pr.setView p (.shared false)).wake p) g := { hview with }
    refine HandlerOk.region ?_ hkept
    refine hwake.goto ?_ (by simp) (by simp)
    intro q hq
    exact hbusy.trans hq

/-- **THE PRIVATE MAPPING** takes the place of a page of the memfd. -/
theorem HandlerOk.mapped (h : ProcessOk c n r loader pr g) (hpc : pr.pc = .mmap p) :
    HandlerOk r ((pr.setView p (.anonymous (List.replicate pageSize 0))).goto (.memcpy p)) g := by
  have hbusy : pr.pc.handles = some (p, true) := congrArg HandlerPc.handles hpc
  obtain ⟨f, hf, hfq⟩ := h.handler.current _ hbusy
  obtain ⟨rfl, hwp⟩ := Prod.mk.inj hfq
  have hbacked : r.memfd f.page ≠ none := h.faults.marked f (.inr hf) hwp
  have hview := h.handler.setView (p := f.page) (v := .anonymous (List.replicate pageSize 0))
    (fun _ => ⟨_, rfl⟩) (fun _ _ => hbacked)
  exact hview.replacing hbusy (.inl rfl) ⟨_, update_self ..⟩

/-- The step lemma of a process. -/
theorem processOk_move (h : ProcessOk c n r loader pr g)
    (hloader : ∀ p, loader p = none ↔ r.memfd p = none) (hmove : ProcessMove file r pr l r' pr') :
    ProcessOk c (n + 1) r' (loaderAfter c r r' loader) pr' (g.observe n r pr l pr') := by
  have hok := h.handler
  cases hmove with
  | own ha he =>
    rename_i i acc page
    have hsame := sameMachine_records acc pr
    have hview := (hok.same hsame).setView (p := acc.page)
      (v := .anonymous (acc.apply page)) (fun _ => ⟨_, rfl⟩)
      (fun _ _ => hok.backed _ _ (own_of_effect he))
    exact h.completed ha (by rw [he]; rfl) (fun p => Iff.rfl) hsame.pc
      (hsame.threads_setThread i .running) { hview with }
  | through ha he =>
    rename_i i acc page
    have hsame := sameMachine_records acc pr
    refine h.completed ha (by rw [he]; rfl) ?_ hsame.pc
      (hsame.threads_setThread i .running) { hok.same hsame with }
    intro p
    by_cases hp : p = acc.page
    · subst hp
      rw [Region.memfd_setPage_self, memfd_of_through he]
      simp
    · rw [Region.memfd_setPage_of_ne hp]
  | fault ha he => exact h.faulted hloader ha he
  | again => exact h.quiet rfl rfl (Decidable.em _).symm hok
  | stopped | continued => exact h.quiet rfl rfl (.inr rfl) (hok.ends rfl)
  | event hpc hev => exact h.taken hpc hev
  | fileRead hpc hfile =>
    have hbusy := congrArg HandlerPc.handles hpc
    refine h.within hbusy rfl ?_
    exact hok.goto (fun q hq => hbusy.trans hq) (by simp) (by simp)
  | copied hpc hview hmem => exact h.copied hpc hmem
  | loaded hpc => exact h.quiet (setLoaded_memfd _ _) rfl (.inr rfl) (hok.ends rfl)
  | unprotected hpc hview =>
    -- a private page is not in the userfaultfd, so the call fails
    obtain ⟨page, hpage⟩ := hok.owned _ (.inl (hok.unprotects _ hpc))
    cases hview.symm.trans hpage
  | mapped hpc => exact h.within (congrArg HandlerPc.handles hpc) rfl (.mapped h hpc)
  | copiedOnto hpc hview =>
    rename_i p out page
    have hbusy := congrArg HandlerPc.handles hpc
    refine h.within hbusy rfl ?_
    have hset := hok.setView (p := p) (v := .anonymous page) (fun _ => ⟨_, rfl⟩)
      (fun _ _ => hok.backed _ _ hview)
    exact hset.replacing hbusy (.inr rfl) ⟨_, update_self ..⟩
  | notCopied hpc =>
    have hbusy := congrArg HandlerPc.handles hpc
    refine h.within hbusy rfl ?_
    exact hok.replacing hbusy (.inr rfl) (hok.owned _ (.inr (.inl hpc)))
  | marked hpc => exact h.quiet rfl rfl (.inr rfl) ((hok.setPrivate hpc).ends rfl)

end Handler

/-! ## One step of the system -/

section Steps

variable {file : TestFile} {c : Nat} {r r' : Region} {loader : Nat → Option Nat}
  {s s' : Tracked} {l : Nat × ProcessLabel}

theorem trackInv_start : TrackInv trackStart where
  loaders _ := ⟨fun _ => rfl, fun _ => rfl⟩
  processes _ :=
    { faults :=
        { old := fun _ h => by rcases h with h | h <;> cases h
          fresh := fun _ _ h => by cases h
          marked := fun _ h => by rcases h with h | h <;> cases h
          waits := fun _ h => by rcases h with h | h <;> cases h
          pages := fun _ _ _ _ h => by cases h
          released := fun _ _ _ h => by cases h }
      handler :=
        { events := rfl
          current := fun _ h => by cases h
          owned := fun _ h => by rcases h with h | h | h <;> cases h
          unprotects := fun _ h => by cases h
          backed := fun _ _ h => by cases h } }

/-- A page of the memfd has a loader. -/
theorem loaderAfter_eq_none (hloader : ∀ p, loader p = none ↔ r.memfd p = none)
    (hmem : ∀ p, r.memfd p ≠ none → r'.memfd p ≠ none) (p : Nat) :
    loaderAfter c r r' loader p = none ↔ r'.memfd p = none := by
  rw [loaderAfter]
  split
  · rename_i hnew
    constructor
    · intro h
      cases h
    · intro h
      rw [h] at hnew
      cases hnew.2
  · rename_i hold
    rw [hloader p]
    constructor
    · intro hnone
      by_contra hsome
      exact hold ⟨isNone_iff_eq_none.mpr hnone, isSome_iff_ne_none.mpr hsome⟩
    · intro hnone
      by_contra hsome
      exact hmem p hsome hnone

/-- A step of process `c` makes no other process the loader of a page. -/
theorem loaderAfter_other (hloader : ∀ p, loader p = none ↔ r.memfd p = none) {d : Nat}
    (hd : d ≠ c) (p : Nat) : loaderAfter c r r' loader p = some d ↔ loader p = some d := by
  rw [loaderAfter]
  split
  · rename_i hnew
    rw [(hloader p).mpr (isNone_iff_eq_none.mp hnew.1)]
    constructor
    · intro h
      exact absurd (some.inj h).symm hd
    · intro h
      cases h
  · exact Iff.rfl

theorem trackInv_step (h : TrackInv s) (hs : trackStep file s l = some s') : TrackInv s' := by
  obtain ⟨sys, hsys, rfl⟩ := map_eq_some_iff.mp hs
  obtain ⟨pr', hmove, hprocesses⟩ := step_cases hsys
  have hmem : ∀ p, s.sys.region.memfd p ≠ none → sys.region.memfd p ≠ none :=
    fun p => present_move hmove
  refine ⟨loaderAfter_eq_none h.loaders hmem, fun d => ?_⟩
  by_cases hd : d = l.1
  · subst hd
    have hmoved := processOk_move (h.processes l.1) h.loaders hmove
    simpa [hprocesses] using hmoved
  · obtain ⟨hfaults, hhandler⟩ := h.processes d
    have hkept : ProcessOk d (s.steps + 1) sys.region
        (loaderAfter l.1 s.sys.region sys.region s.loader) (s.sys.processes d) (s.records d) :=
      ⟨hfaults.mono (Nat.le_succ _) hmem (loaderAfter_other h.loaders hd), hhandler.region hmem⟩
    simpa [hprocesses, update_of_ne hd] using hkept

/-- At the end of an iteration its fault is the one at hand. -/
theorem current_of_ended (h : TrackInv s) (hs : trackStep file s l = some s')
    (hq : ended (s.sys.processes l.1) (s'.sys.processes l.1) = some q) :
    ∃ f, (s'.records l.1).current = some f ∧ (f.page, f.wp) = q := by
  have hbusy : (s.sys.processes l.1).pc.handles = some q := by
    rw [ended] at hq
    split at hq
    · exact hq
    · cases hq
  obtain ⟨f, hf, hfq⟩ := (h.processes l.1).handler.current q hbusy
  obtain ⟨sys, hsys, rfl⟩ := map_eq_some_iff.mp hs
  refine ⟨f, ?_, hfq⟩
  dsimp only
  rw [update_self, current_observe hbusy]
  exact hf

theorem releases_step_iff (s : Tracked) (l : Nat × ProcessLabel) (s' : Tracked) (h : TrackInv s)
    (hs : trackStep file s l = some s') : Releases s l s' ↔ LoadsItself s l s' := by
  have hfaults := ((trackInv_step h hs).processes l.1).faults
  constructor
  · intro hreleases q hq hpresent
    obtain ⟨f, hf, rfl, hreleased⟩ := hreleases q hq
    exact (hfaults.released_iff (.inr hf)).mp (hreleased hpresent)
  · intro hloads q hq
    obtain ⟨f, hf, rfl⟩ := current_of_ended h hs hq
    refine ⟨f, hf, rfl, fun hpresent => ?_⟩
    exact (hfaults.released_iff (.inr hf)).mpr (hloads _ hq hpresent)

end Steps

/-- **WHO IS RELEASED.**  Along every run of any number of processes each iteration of a
    handler that ends with the page there has released the thread of its fault, exactly when
    all these iterations are for missing pages that the process itself has loaded.  A process
    that finds the page loaded by another one, and every first write to a shared page, leave
    a thread blocked. -/
theorem handled_faults_release_iff (file : TestFile) (ls : List (Nat × ProcessLabel)) :
    Moves (trackStep file) Releases trackStart ls
      ↔ Moves (trackStep file) LoadsItself trackStart ls :=
  moves_iff releases_step_iff (fun _ _ _ h hs _ => trackInv_step h hs) trackInv_start

/-! ## Two threads that wait for ever -/

/-- Two processes miss page 0; the handler of process 0 is first. -/
def raceForPage : List (Nat × ProcessLabel) :=
  [(0, .access 0 (.read 0 0)), (1, .access 0 (.read 0 0))]
    ++ List.replicate 4 (0, .handler 0 .ok) ++ List.replicate 3 (1, .handler 0 .ok)

/-- Thread 0 of process 1 is blocked on a page of the memfd and its handler has nothing left
    to do. -/
def stuck (s : SystemState) : Bool :=
  match (s.processes 1).threads 0, (s.processes 1).pc, (s.processes 1).events with
  | .blocked acc, .read, [] => (s.region.memfd acc.page).isSome
  | _, _, _ => false

theorem releases_last {ls : List (Nat × ProcessLabel)} {l : Nat × ProcessLabel}
    {t t' : Tracked} (h : Moves (trackStep testFile) Releases trackStart (ls ++ [l]))
    (hrun : exec (trackStep testFile) trackStart ls = some t)
    (hs : trackStep testFile t l = some t') : Releases t l t' :=
  (moves_exec h hrun t' hs).1

/-- The race and the first write to a loaded page leave a thread behind. -/
theorem handled_faults_leave_threads :
    (exec (step testFile) start raceForPage).map stuck = some true
      ∧ (exec (step testFile) start replaceAfterLoad).map stuck = some true
      ∧ ¬ Moves (trackStep testFile) Releases trackStart raceForPage
      ∧ ¬ Moves (trackStep testFile) Releases trackStart replaceAfterLoad := by
  refine ⟨by decide +kernel, by decide +kernel, ?_, ?_⟩
  · intro hmoves
    have hlast : raceForPage = raceForPage.dropLast ++ [(1, .handler 0 .ok)] := rfl
    rw [hlast] at hmoves
    have hstep := releases_last hmoves rfl rfl
    obtain ⟨f, hf, -, hreleased⟩ := hstep (0, false) rfl
    obtain rfl : f = ⟨1, 0, false⟩ := (some.inj hf).symm
    refine hreleased (.inr ?_) ⟨0, .read 0 0, rfl, rfl⟩
    exact isSome_iff_ne_none.mp rfl
  · intro hmoves
    have hlast : replaceAfterLoad = replaceAfterLoad.dropLast ++ [(1, .handler 0 .ok)] := rfl
    rw [hlast] at hmoves
    have hstep := releases_last hmoves rfl rfl
    obtain ⟨f, hf, -, hreleased⟩ := hstep (0, true) rfl
    obtain rfl : f = ⟨6, 0, true⟩ := (some.inj hf).symm
    refine hreleased (.inr ?_) ⟨0, .write 0 0 0x58, rfl, rfl⟩
    exact isSome_iff_ne_none.mp rfl

end UffdCow
