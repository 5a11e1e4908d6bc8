import DemoStore.TemplateClientProofs

/-! # `uffd-cow`: processes over one memfd

    A creator and its workers map the same data memfd, register it for `MISSING` and
    `WP` faults, protect all of it (`enable_writeprotect`), and each runs
    `uffd_handler_thread`.  The handlers load pages from the test file with
    `UFFDIO_COPY` and answer a write-protect fault by mapping a private page.  A design
    goal is that the shared pages are never modified.

    How pages are mapped and what an access does is that of `TemplateClientProofs`; a
    page nobody has touched is there `shared true`, as the mark of
    `enable_writeprotect` survives until the page is mapped.  A step is one access, or
    one system call or store of a handler. -/

namespace UffdCow

open Option
open TemplateClient (View Access Thread Effect Outcome effect memfd_of_through)
open Function (update update_of_ne update_self)

/-! ## States -/

/-- `PAGE_SIZE`. -/
def pageSize : Nat := 4096

/-- `PAGE_COUNT`. -/
def pageCount : Nat := 4

/-- The pages of the test file; a page it does not have is not read. -/
abbrev TestFile := Nat → Option (List UInt8)

/-- The state of a shared page. -/
inductive SharedPageState where
  | unloaded
  | loaded
  deriving DecidableEq

/-- The data memfd and `shared_pages`. -/
structure Region where
  memfd : Nat → Option (List UInt8)
  states : Nat → SharedPageState

/-- Where `uffd_handler_thread` is; `read` is the head of its loop. -/
inductive HandlerPc where
  | read
  | readFile (p : Nat)
  | copy (p : Nat) (buffer : List UInt8)
  | setLoaded (p : Nat)
  | unprotect (p : Nat)
  | mmap (p : Nat)
  | memcpy (p : Nat)
  | setPrivate (p : Nat)
  | exited

/-- `isPrivate` is `local_pages`; an event is a page and whether the `WP` flag is set.
    `tried` has the pages to which a thread of the process has issued a write, `written`
    those where one has taken effect. -/
structure Process where
  views : Nat → View
  threads : Nat → Thread
  events : List (Nat × Bool)
  pc : HandlerPc
  isPrivate : Nat → Bool
  tried : Nat → Bool
  written : Nat → Bool

/-- The region and all processes. -/
structure SystemState where
  region : Region
  processes : Nat → Process

/-- A process after `enable_writeprotect`, with its handler started. -/
def newProcess : Process where
  views := fun _ => .shared true
  threads := fun _ => .running
  events := []
  pc := .read
  isPrivate := fun _ => false
  tried := fun _ => false
  written := fun _ => false

/-- The memfd after `ftruncate`, with any number of processes. -/
def start : SystemState where
  region := { memfd := fun _ => none, states := fun _ => .unloaded }
  processes := fun _ => newProcess

/-- Stores a page of the memory file. -/
def Region.setPage (p : Nat) (page : List UInt8) (r : Region) : Region :=
  { r with memfd := update r.memfd p (some page) }

@[simp] theorem Region.memfd_setPage_self (p : Nat) (page : List UInt8) (r : Region) :
    (r.setPage p page).memfd p = some page := update_self ..

variable {p i : Nat} {acc : Access}

@[simp] theorem Region.memfd_setPage_of_ne {q : Nat} (h : q ≠ p) (page : List UInt8) (r : Region) :
    (r.setPage p page).memfd q = r.memfd q := update_of_ne h ..

/-- A page becomes loaded once. -/
def Region.setLoaded (p : Nat) (r : Region) : Region :=
  if r.states p = .unloaded then { r with states := update r.states p .loaded }
  else r

namespace Process

/-- The handler moves on. -/
def goto (pc : HandlerPc) (pr : Process) : Process := { pr with pc := pc }

@[simp] theorem pc_goto (pc : HandlerPc) (pr : Process) : (pr.goto pc).pc = pc := rfl

/-- Changes how a page is mapped. -/
def setView (p : Nat) (v : View) (pr : Process) : Process :=
  { pr with views := update pr.views p v }

/-- Changes a thread. -/
def setThread (i : Nat) (t : Thread) (pr : Process) : Process :=
  { pr with threads := update pr.threads i t }

/-- `UFFDIO_WAKE` for a page. -/
def wake (p : Nat) (pr : Process) : Process :=
  { pr with threads := fun i => (pr.threads i).wake p }

/-- The page is noted as private. -/
def setPrivate (p : Nat) (pr : Process) : Process :=
  { pr with isPrivate := update pr.isPrivate p true }

end Process

/-! ## Accesses -/

/-- The access is a write. -/
def isWrite : Access → Bool
  | .read _ _ => false
  | .write _ _ _ => true

/-- A thread issues the access. -/
def Process.tries (acc : Access) (pr : Process) : Process :=
  if isWrite acc then { pr with tried := update pr.tried acc.page true } else pr

/-- The access takes effect. -/
def Process.completes (acc : Access) (pr : Process) : Process :=
  if isWrite acc then { pr with written := update pr.written acc.page true } else pr

/-- `pr'` differs from `pr` in the records of writes only. -/
structure SameMachine (pr pr' : Process) : Prop where
  views : pr'.views = pr.views
  threads : pr'.threads = pr.threads
  events : pr'.events = pr.events
  pc : pr'.pc = pr.pc
  isPrivate : pr'.isPrivate = pr.isPrivate

theorem sameMachine_tries (acc : Access) (pr : Process) : SameMachine pr (pr.tries acc) := by
  rw [Process.tries]
  split
  · exact ⟨rfl, rfl, rfl, rfl, rfl⟩
  · exact ⟨rfl, rfl, rfl, rfl, rfl⟩

theorem sameMachine_completes (acc : Access) (pr : Process) :
    SameMachine pr (pr.completes acc) := by
  rw [Process.completes]
  split
  · exact ⟨rfl, rfl, rfl, rfl, rfl⟩
  · exact ⟨rfl, rfl, rfl, rfl, rfl⟩

/-- What is recorded does not touch the machine. -/
theorem sameMachine_records (acc : Access) (pr : Process) :
    SameMachine pr ((pr.tries acc).completes acc) := by
  have htries := sameMachine_tries acc pr
  have hcompletes := sameMachine_completes acc (pr.tries acc)
  exact ⟨hcompletes.views.trans htries.views, hcompletes.threads.trans htries.threads,
    hcompletes.events.trans htries.events, hcompletes.pc.trans htries.pc,
    hcompletes.isPrivate.trans htries.isPrivate⟩

/-- An access of thread `i`. -/
def access (r : Region) (pr : Process) (i : Nat) (acc : Access) : Region × Process :=
  match effect (pr.views acc.page) (r.memfd acc.page) acc with
  | .own page =>
    (r, (((pr.tries acc).completes acc).setView acc.page
      (.anonymous (acc.apply page))).setThread i .running)
  | .through page =>
    (r.setPage acc.page (acc.apply page), ((pr.tries acc).completes acc).setThread i .running)
  | .fault wp =>
    (r, { (pr.tries acc).setThread i (.blocked acc) with
      events := pr.events ++ [(acc.page, wp)] })

/-! ## The fault handler -/

/-- `UFFDIO_COPY` with mode 0: `ENOENT` on a range that is no longer registered,
    `EEXIST` if the memfd has the page; otherwise the page is put there, mapped without
    protection, and its waiters wake. -/
def uffdioCopy (p : Nat) (buffer : List UInt8) (r : Region) (pr : Process) :
    Region × Process :=
  match pr.views p, r.memfd p with
  | .anonymous _, _ => (r, pr.goto .read)
  | _, some _ => (r, pr.goto .read)
  | _, none =>
    (r.setPage p buffer, ((pr.setView p (.shared false)).wake p).goto (.setLoaded p))

/-- The branch that handles the event. -/
def dispatch (ev : Nat × Bool) (pr : Process) : HandlerPc :=
  if ev.2 then if pr.isPrivate ev.1 then .unprotect ev.1 else .mmap ev.1
  else .readFile ev.1

/-- The three branches. -/
theorem dispatch_cases (ev : Nat × Bool) (pr : Process) :
    (dispatch ev pr = .unprotect ev.1 ∧ ev.2 = true ∧ pr.isPrivate ev.1 = true)
      ∨ (dispatch ev pr = .mmap ev.1 ∧ ev.2 = true ∧ pr.isPrivate ev.1 = false)
      ∨ (dispatch ev pr = .readFile ev.1 ∧ ev.2 = false) := by
  rw [dispatch]
  cases hwp : ev.2 with
  | false => exact .inr (.inr ⟨rfl, rfl⟩)
  | true =>
    cases hprivate : pr.isPrivate ev.1 with
    | true => exact .inl ⟨rfl, rfl, rfl⟩
    | false => exact .inr (.inl ⟨rfl, rfl, rfl⟩)

/-- One step of `uffd_handler_thread`; `fail` is a call that returns an error. -/
def handlerStep (file : TestFile) (r : Region) (pr : Process) (event : Nat)
    (out : Outcome) : Option (Region × Process) :=
  match pr.pc with
  | .read =>
    if out = .fail then some (r, pr.goto .exited)
    else
      match pr.events[event]? with
      -- `EAGAIN`
      | none => some (r, pr)
      | some ev =>
        some (r, { pr with pc := dispatch ev pr, events := pr.events.eraseIdx event })
  | .readFile p =>
    match out, file p with
    | .ok, some buffer => some (r, pr.goto (.copy p buffer))
    | _, _ => some (r, pr.goto .read)
  | .copy p buffer =>
    if out = .fail then some (r, pr.goto .read) else some (uffdioCopy p buffer r pr)
  | .setLoaded p => some (r.setLoaded p, pr.goto .read)
  | .unprotect p =>
    -- the result is not looked at; the range of a private page is not registered
    match out, pr.views p with
    | .ok, .shared _ => some (r, ((pr.setView p (.shared false)).wake p).goto .read)
    | _, _ => some (r, pr.goto .read)
  | .mmap p =>
    if out = .fail then some (r, pr.goto .read)
    else
      some (r, (pr.setView p (.anonymous (List.replicate pageSize 0))).goto (.memcpy p))
  | .memcpy p =>
    -- source and destination are the address of the new mapping
    match r.states p, pr.views p with
    | .loaded, .anonymous page =>
      some (r, (pr.setView p (.anonymous page)).goto (.setPrivate p))
    | _, _ => some (r, pr.goto (.setPrivate p))
  | .setPrivate p => some (r, (pr.setPrivate p).goto .read)
  | .exited => none

/-! ## The machine -/

/-- The steps of a process. -/
inductive ProcessLabel where
  | access (i : Nat) (acc : Access)
  | retry (i : Nat)
  | handler (event : Nat) (out : Outcome)

/-- The access thread `i` makes with this label. -/
def attempt (pr : Process) : ProcessLabel → Option (Nat × Access)
  | .access i acc =>
    match pr.threads i with
    | .running =>
      if acc.page < pageCount ∧ acc.offset < pageSize then some (i, acc) else none
    | _ => none
  | .retry i =>
    match pr.threads i with
    | .woken acc => some (i, acc)
    | _ => none
  | .handler _ _ => none

variable {l : ProcessLabel}

/-- A resting thread makes a new access, a woken one the access it has waited with. -/
theorem attempt_cases {pr : Process} (ha : attempt pr l = some (i, acc)) :
    (l = .access i acc ∧ pr.threads i = .running) ∨ (l = .retry i ∧ pr.threads i = .woken acc) := by
  cases l with
  | access j acc' =>
    rw [attempt] at ha
    split at ha
    · rename_i hj
      split at ha
      · cases ha
        exact .inl ⟨rfl, hj⟩
      · cases ha
    · cases ha
  | retry j =>
    rw [attempt] at ha
    split at ha
    · rename_i acc' hj
      cases ha
      exact .inr ⟨rfl, hj⟩
    · cases ha
  | handler _ _ => cases ha

/-- A step of a process. -/
def processStep (file : TestFile) (r : Region) (pr : Process) :
    ProcessLabel → Option (Region × Process)
  | .handler event out => handlerStep file r pr event out
  | l => (attempt pr l).map fun q => access r pr q.1 q.2

/-- A step of process `l.1`. -/
def step (file : TestFile) (s : SystemState) (l : Nat × ProcessLabel) :
    Option SystemState :=
  (processStep file s.region (s.processes l.1) l.2).map fun q =>
    { region := q.1, processes := update s.processes l.1 q.2 }

/-! ## What a process can do in one step -/

/-- The handler is at a call whose failure takes it back to its loop. -/
def HandlerPc.calls : HandlerPc → Bool
  | .readFile _ | .copy _ _ | .unprotect _ | .mmap _ => true
  | .read | .setLoaded _ | .memcpy _ | .setPrivate _ | .exited => false

/-- The steps of `processStep`, with the region and the process after them. -/
inductive ProcessMove (file : TestFile) (r : Region) (pr : Process) :
    ProcessLabel → Region → Process → Prop where
  | own {l : ProcessLabel} {i : Nat} {acc : Access} {page : List UInt8}
      (ha : attempt pr l = some (i, acc))
      (he : effect (pr.views acc.page) (r.memfd acc.page) acc = .own page) :
      ProcessMove file r pr l r
        ((((pr.tries acc).completes acc).setView acc.page
          (.anonymous (acc.apply page))).setThread i .running)
  | through {l : ProcessLabel} {i : Nat} {acc : Access} {page : List UInt8}
      (ha : attempt pr l = some (i, acc))
      (he : effect (pr.views acc.page) (r.memfd acc.page) acc = .through page) :
      ProcessMove file r pr l (r.setPage acc.page (acc.apply page))
        (((pr.tries acc).completes acc).setThread i .running)
  | fault {l : ProcessLabel} {i : Nat} {acc : Access} {wp : Bool}
      (ha : attempt pr l = some (i, acc))
      (he : effect (pr.views acc.page) (r.memfd acc.page) acc = .fault wp) :
      ProcessMove file r pr l r
        { (pr.tries acc).setThread i (.blocked acc) with
          events := pr.events ++ [(acc.page, wp)] }
  | again {event : Nat} {out : Outcome} (hpc : pr.pc = .read) :
      ProcessMove file r pr (.handler event out) r pr
  | stopped {event : Nat} {out : Outcome} (hpc : pr.pc = .read) :
      ProcessMove file r pr (.handler event out) r (pr.goto .exited)
  | continued {event : Nat} {out : Outcome} (hpc : pr.pc.calls = true)
      (hwhy : out = .fail ∨ (∃ p, pr.pc = .readFile p)
        ∨ (∃ p buffer, pr.pc = .copy p buffer ∧ ((pr.views p).isShared = false ∨ r.memfd p ≠ none))
        ∨ ∃ p, pr.pc = .unprotect p ∧ (pr.views p).isShared = false) :
      ProcessMove file r pr (.handler event out) r (pr.goto .read)
  | event {event : Nat} {out : Outcome} {ev : Nat × Bool} (hpc : pr.pc = .read)
      (hev : pr.events[event]? = some ev) :
      ProcessMove file r pr (.handler event out) r
        { pr with pc := dispatch ev pr, events := pr.events.eraseIdx event }
  | fileRead {event p : Nat} {out : Outcome} {buffer : List UInt8}
      (hpc : pr.pc = .readFile p) (hfile : file p = some buffer) :
      ProcessMove file r pr (.handler event out) r (pr.goto (.copy p buffer))
  | copied {event p : Nat} {buffer : List UInt8} (hpc : pr.pc = .copy p buffer)
      (hview : ∀ own, pr.views p ≠ .anonymous own) (hmem : r.memfd p = none) :
      ProcessMove file r pr (.handler event .ok) (r.setPage p buffer)
        (((pr.setView p (.shared false)).wake p).goto (.setLoaded p))
  | loaded {event p : Nat} {out : Outcome} (hpc : pr.pc = .setLoaded p) :
      ProcessMove file r pr (.handler event out) (r.setLoaded p) (pr.goto .read)
  | unprotected {event p : Nat} {wp : Bool} (hpc : pr.pc = .unprotect p)
      (hview : pr.views p = .shared wp) :
      ProcessMove file r pr (.handler event .ok) r
        (((pr.setView p (.shared false)).wake p).goto .read)
  | mapped {event p : Nat} {out : Outcome} (hpc : pr.pc = .mmap p) :
      ProcessMove file r pr (.handler event out) r
        ((pr.setView p (.anonymous (List.replicate pageSize 0))).goto (.memcpy p))
  | copiedOnto {event p : Nat} {out : Outcome} {page : List UInt8}
      (hpc : pr.pc = .memcpy p) (hview : pr.views p = .anonymous page) :
      ProcessMove file r pr (.handler event out) r
        ((pr.setView p (.anonymous page)).goto (.setPrivate p))
  | notCopied {event p : Nat} {out : Outcome} (hpc : pr.pc = .memcpy p) :
      ProcessMove file r pr (.handler event out) r (pr.goto (.setPrivate p))
  | marked {event p : Nat} {out : Outcome} (hpc : pr.pc = .setPrivate p) :
      ProcessMove file r pr (.handler event out) r ((pr.setPrivate p).goto .read)

section Moves

variable {file : TestFile} {r : Region} {pr : Process} {q : Region × Process}

/-- An access is a move. -/
theorem move_of_access (ha : attempt pr l = some (i, acc)) :
    ProcessMove file r pr l (access r pr i acc).1 (access r pr i acc).2 := by
  rw [access]
  cases he : effect (pr.views acc.page) (r.memfd acc.page) acc with
  | own page => exact .own ha he
  | through page => exact .through ha he
  | fault wp => exact .fault ha he

variable {event : Nat} {out : Outcome}

/-- A call whose failure brings the handler back to its loop. -/
theorem move_of_failable {next : Option (Region × Process)} (hpc : pr.pc.calls = true)
    (hs : (if out = .fail then some (r, pr.goto .read) else next) = some q)
    (hnext : out ≠ .fail → next = some q → ProcessMove file r pr (.handler event out) q.1 q.2) :
    ProcessMove file r pr (.handler event out) q.1 q.2 :=
  MachineRun.of_failable (P := fun q => ProcessMove file r pr (.handler event out) q.1 q.2) hs
    (fun hfail => .continued hpc (.inl hfail)) hnext

/-- `UFFDIO_COPY` is a move. -/
theorem move_of_uffdioCopy {buffer : List UInt8} (hpc : pr.pc = .copy p buffer) :
    ProcessMove file r pr (.handler event .ok) (uffdioCopy p buffer r pr).1
      (uffdioCopy p buffer r pr).2 := by
  have hcalls : pr.pc.calls = true := congrArg HandlerPc.calls hpc
  rw [uffdioCopy]
  split
  · rename_i hview
    refine .continued hcalls (.inr (.inr (.inl ⟨p, buffer, hpc, .inl ?_⟩)))
    rw [hview]
    rfl
  · rename_i hmem _
    refine .continued hcalls (.inr (.inr (.inl ⟨p, buffer, hpc, .inr ?_⟩)))
    simp [hmem]
  · rename_i hmem hview
    exact .copied hpc hview hmem

/-- Each step of a handler is a move. -/
theorem move_of_handlerStep (hs : handlerStep file r pr event out = some q) :
    ProcessMove file r pr (.handler event out) q.1 q.2 := by
  unfold handlerStep at hs
  cases hpc : pr.pc with
  | read =>
    rw [hpc] at hs
    dsimp only at hs
    split at hs
    · cases hs
      exact .stopped hpc
    · cases hev : pr.events[event]? with
      | none =>
        rw [hev] at hs
        cases hs
        exact .again hpc
      | some ev =>
        rw [hev] at hs
        cases hs
        exact .event hpc hev
  | readFile p =>
    rw [hpc] at hs
    dsimp only at hs
    split at hs
    · rename_i hfile
      cases hs
      exact .fileRead hpc hfile
    · cases hs
      exact .continued (congrArg HandlerPc.calls hpc) (.inr (.inl ⟨p, hpc⟩))
  | copy p buffer =>
    rw [hpc] at hs
    refine move_of_failable (congrArg HandlerPc.calls hpc) hs fun hout hnext => ?_
    cases hnext
    cases out with
    | fail => exact absurd rfl hout
    | ok => exact move_of_uffdioCopy hpc
  | setLoaded p =>
    rw [hpc] at hs
    cases hs
    exact .loaded hpc
  | unprotect p =>
    rw [hpc] at hs
    have hcalls : pr.pc.calls = true := congrArg HandlerPc.calls hpc
    cases out with
    | fail =>
      cases hs
      exact .continued hcalls (.inl rfl)
    | ok =>
      dsimp only at hs
      cases hview : pr.views p with
      | shared wp =>
        rw [hview] at hs
        cases hs
        exact .unprotected hpc hview
      | unmapped | anonymous =>
        rw [hview] at hs
        cases hs
        exact .continued hcalls (.inr (.inr (.inr ⟨p, hpc, by rw [hview]; rfl⟩)))
  | mmap p =>
    rw [hpc] at hs
    refine move_of_failable (congrArg HandlerPc.calls hpc) hs fun _ hnext => ?_
    cases hnext
    exact .mapped hpc
  | memcpy p =>
    rw [hpc] at hs
    dsimp only at hs
    split at hs
    · rename_i hview
      cases hs
      exact .copiedOnto hpc hview
    · cases hs
      exact .notCopied hpc
  | setPrivate p =>
    rw [hpc] at hs
    cases hs
    exact .marked hpc
  | exited => rw [hpc] at hs; cases hs

/-- Each step of a process is a move. -/
theorem move_of_processStep (hs : processStep file r pr l = some q) :
    ProcessMove file r pr l q.1 q.2 := by
  cases l with
  | handler event out => exact move_of_handlerStep hs
  | access | retry =>
    obtain ⟨a, ha, rfl⟩ := map_eq_some_iff.mp hs
    exact move_of_access ha

end Moves

end UffdCow
