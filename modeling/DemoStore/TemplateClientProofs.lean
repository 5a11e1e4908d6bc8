import DemoStore.MachineRunProofs
import DemoStore.SparseFileProofs
import Mathlib.Logic.Function.Basic

/-! # Clients of one template

    `TemplateService` keeps the pages of an overlay backend in a memfd; every
    `Client` maps it and resolves its own faults.  The memfd and the state of
    each page are shared, everything else belongs to one client: how a page is
    mapped there, the threads, the pending events, the fault handler and the
    per-process metadata.

    A step of `handle_missing_fault` or `handle_wp_fault` is one operation on
    the shared page state, one backend read or one system call.  A page that is
    in the memfd and not yet mapped in a process is mapped by the kernel on
    first access, writable.  Accesses name a page and an offset: registration
    requires a page-aligned base, so `page_index_from_addr` and `page_start`
    give back the page. -/

namespace TemplateClient

open SparseFile Option
open Function (forall_update_iff update update_eq_self update_of_ne update_self)

/-! ## The backend -/

/-- A layer of the overlay. -/
structure Layer where
  name : String
  file : File
  bitmap : List UInt64

/-- The layers, from the base up. -/
structure OverlayBackend where
  pageSize : Nat
  pageCount : Nat
  layers : List Layer

/-- `bitmap[bit / 64] & (1 << (bit % 64)) != 0`. -/
def bitmapGet (bitmap : List UInt64) (bit : Nat) : Bool :=
  (bitmap.getD (bit / 64) 0).toNat.testBit (bit % 64)

/-- The layer `locate` and `read_page` stop at: the last one that has the page. -/
def OverlayBackend.topLayer (b : OverlayBackend) (pageIdx : Nat) : Option Layer :=
  b.layers.reverse.find? fun l => bitmapGet l.bitmap pageIdx

/-- `read_page`: `pread_exact` fails on a layer file that ends inside the page. -/
def OverlayBackend.readPage (b : OverlayBackend) (pageIdx : Nat) :
    Option (List UInt8) :=
  if b.pageCount ≤ pageIdx then none
  else (b.topLayer pageIdx).bind fun l =>
    let page := pread l.file (pageIdx * b.pageSize) b.pageSize
    if page.length = b.pageSize then some page else none

variable {p q i : Nat} {b : OverlayBackend} {o : Option (List UInt8)}
  {memfd : Nat → Option (List UInt8)}

/-- A page read is a whole page. -/
theorem OverlayBackend.length_readPage {page : List UInt8} (h : b.readPage p = some page) :
    page.length = b.pageSize := by
  rw [OverlayBackend.readPage] at h
  split at h
  · cases h
  · obtain ⟨l, -, hl⟩ := bind_eq_some_iff.mp h
    dsimp only at hl
    split at hl
    · rename_i hlen
      rw [← some.inj hl]
      exact hlen
    · cases hl

/-! ## States -/

/-- What `from_raw` makes of the byte in the shared metadata. -/
inductive TemplatePageState where
  | unloaded
  | loading
  | sharedReady
  | unknown (raw : UInt8)
  deriving DecidableEq

/-- What all clients share. -/
structure Shared where
  memfd : Nat → Option (List UInt8)
  states : Nat → TemplatePageState

/-- How a page is mapped in one client. -/
inductive View where
  | unmapped
  | shared (wp : Bool)
  | anonymous (page : List UInt8)
  deriving DecidableEq

/-- The page is mapped from the memfd. -/
def View.isShared : View → Bool
  | .shared _ => true
  | .unmapped | .anonymous _ => false

/-- A read or a write of one byte. -/
inductive Access where
  | read (page offset : Nat)
  | write (page offset : Nat) (byte : UInt8)
  deriving DecidableEq

/-- The page it touches. -/
def Access.page : Access → Nat
  | .read p _ => p
  | .write p _ _ => p

/-- Where in the page. -/
def Access.offset : Access → Nat
  | .read _ j => j
  | .write _ j _ => j

/-- The page after the access. -/
def Access.apply : Access → List UInt8 → List UInt8
  | .read _ _, page => page
  | .write _ j x, page => page.set j x

/-- A thread of a client. -/
inductive Thread where
  | running
  | blocked (acc : Access)
  | woken (acc : Access)

/-- Where the client's fault handler is.  `claim` to `wakeMissing` are in
    `handle_missing_fault`, `mapSnapshot` to `wakeWp` in `handle_wp_fault`. -/
inductive HandlerPc where
  | waiting
  | claim (p : Nat)
  | readPage (p : Nat)
  | copyPage (p : Nat) (page : List UInt8)
  | wakePresent (p : Nat)
  | storeReady (p : Nat)
  | spin (p : Nat)
  | wakeMissing (p : Nat)
  | mapSnapshot (p : Nat)
  | copySnapshot (p : Nat)
  | unprotect (p : Nat) (snap : List UInt8)
  | remap (p : Nat) (snap : List UInt8)
  | copyBack (p : Nat) (snap : List UInt8)
  | markDirty (p : Nat)
  | wakeWp (p : Nat)
  | exited
  deriving DecidableEq

/-- `isPrivate` and `dirty` are `proc_meta`; an event is a page and whether the
    `WP` flag is set. -/
structure ClientState where
  views : Nat → View
  threads : Nat → Thread
  events : List (Nat × Bool)
  pc : HandlerPc
  isPrivate : Nat → Bool
  dirty : Nat → Bool

/-- The shared memory and all clients. -/
structure ServiceState where
  shared : Shared
  clients : Nat → ClientState

/-- `Client::new` on a mapping that nobody has touched. -/
def newClient : ClientState where
  views := fun _ => .unmapped
  threads := fun _ => .running
  events := []
  pc := .waiting
  isPrivate := fun _ => false
  dirty := fun _ => false

/-- `TemplateService::new`, with any number of clients. -/
def start : ServiceState where
  shared := { memfd := fun _ => none, states := fun _ => .unloaded }
  clients := fun _ => newClient

variable {v : View} {acc : Access} {cl : ClientState}

namespace ClientState

/-- The handler moves on. -/
def goto (pc : HandlerPc) (cl : ClientState) : ClientState := { cl with pc := pc }

/-- Changes how a page is mapped. -/
def setView (p : Nat) (v : View) (cl : ClientState) : ClientState :=
  { cl with views := update cl.views p v }

/-- Changes a thread. -/
def setThread (i : Nat) (t : Thread) (cl : ClientState) : ClientState :=
  { cl with threads := update cl.threads i t }

@[simp] theorem views_setView_self (p : Nat) (v : View) (cl : ClientState) :
    (cl.setView p v).views p = v :=
  update_self ..

theorem views_setView_of_ne (h : q ≠ p) (v : View) (cl : ClientState) :
    (cl.setView p v).views q = cl.views q :=
  update_of_ne h ..

theorem setView_same (h : cl.views p = v) : cl.setView p v = cl := by
  rw [setView, ← h, update_eq_self]

@[simp] theorem threads_setThread_self (i : Nat) (t : Thread) (cl : ClientState) :
    (cl.setThread i t).threads i = t :=
  update_self ..

theorem threads_setThread_of_ne {j : Nat} (h : j ≠ i) (t : Thread) (cl : ClientState) :
    (cl.setThread i t).threads j = cl.threads j :=
  update_of_ne h ..

end ClientState

/-- `UFFDIO_WAKE` for a page. -/
def Thread.wake (p : Nat) : Thread → Thread
  | .blocked acc => if acc.page = p then .woken acc else .blocked acc
  | t => t

/-- Waking makes no new access. -/
theorem Thread.of_wake {t : Thread} (h : t.wake p = .blocked acc ∨ t.wake p = .woken acc) :
    t = .blocked acc ∨ t = .woken acc := by
  cases t with
  | running | woken => exact h
  | blocked acc' =>
    rw [Thread.wake] at h
    split at h
    · rcases h with h | h
      · cases h
      · cases h
        exact .inl rfl
    · exact h

/-- `UFFDIO_WAKE` on one page. -/
def ClientState.wake (p : Nat) (cl : ClientState) : ClientState :=
  { cl with threads := fun i => (cl.threads i).wake p }

/-- Stores a page of the memory file. -/
def Shared.setPage (p : Nat) (page : List UInt8) (sh : Shared) : Shared :=
  { sh with memfd := update sh.memfd p (some page) }

@[simp] theorem Shared.memfd_setPage_self (p : Nat) (page : List UInt8) (sh : Shared) :
    (sh.setPage p page).memfd p = some page :=
  update_self ..

theorem Shared.memfd_setPage_of_ne (h : q ≠ p) (page : List UInt8) (sh : Shared) :
    (sh.setPage p page).memfd q = sh.memfd q :=
  update_of_ne h ..

/-- Reading a page of the memfd puts back what is there. -/
theorem Shared.setPage_same {page : List UInt8} {sh : Shared} (h : sh.memfd p = some page) :
    sh.setPage p page = sh := by
  rw [Shared.setPage, ← h, update_eq_self]

/-- Sets the state of a page. -/
def Shared.setState (p : Nat) (st : TemplatePageState) (sh : Shared) : Shared :=
  { sh with states := update sh.states p st }

@[simp] theorem Shared.states_setState_self (p : Nat) (st : TemplatePageState)
    (sh : Shared) : (sh.setState p st).states p = st :=
  update_self ..

theorem Shared.states_setState_of_ne (h : q ≠ p) (st : TemplatePageState) (sh : Shared) :
    (sh.setState p st).states q = sh.states q :=
  update_of_ne h ..

/-! ## Accesses -/

/-- What an access does: it works on the client's own page, on the page in the
    memfd, or it faults (with or without the `WP` flag). -/
inductive Effect where
  | own (page : List UInt8)
  | through (page : List UInt8)
  | fault (wp : Bool)

/-- What an access meets. -/
def effect : View → Option (List UInt8) → Access → Effect
  | .anonymous page, _, _ => .own page
  | .unmapped, none, _ => .fault false
  | .shared _, none, _ => .fault false
  | .shared true, some _, .write _ _ _ => .fault true
  | .shared _, some page, _ => .through page
  | .unmapped, some page, _ => .through page

/-- The kernel maps a page of the memfd on first access. -/
def View.mapped : View → View
  | .unmapped => .shared false
  | v => v

/-- An access of thread `i`. -/
def access (sh : Shared) (cl : ClientState) (i : Nat) (acc : Access) :
    Shared × ClientState :=
  match effect (cl.views acc.page) (sh.memfd acc.page) acc with
  | .own page =>
    (sh, (cl.setView acc.page (.anonymous (acc.apply page))).setThread i .running)
  | .through page =>
    (sh.setPage acc.page (acc.apply page),
      (cl.setView acc.page (cl.views acc.page).mapped).setThread i .running)
  | .fault wp =>
    (sh, { cl.setThread i (.blocked acc) with events := cl.events ++ [(acc.page, wp)] })

/-- An access does not move the handler. -/
theorem access_pc (sh : Shared) (cl : ClientState) (i : Nat) (acc : Access) :
    (access sh cl i acc).2.pc = cl.pc := by
  rw [access]
  split <;> rfl

/-- A page of its own is anonymous. -/
theorem own_of_effect {page : List UInt8} (h : effect v o acc = .own page) :
    v = .anonymous page := by
  cases v with
  | anonymous page' => cases h; rfl
  | unmapped =>
    cases o with
    | none | some page' => cases h
  | shared wp =>
    cases o with
    | none => cases h
    | some page' =>
      cases wp with
      | false => cases h
      | true => cases acc <;> cases h

/-- The page under a shared mapping is the one in the memfd. -/
theorem memfd_of_through {page : List UInt8} (h : effect v o acc = .through page) :
    o = some page := by
  cases v with
  | anonymous page' => cases h
  | unmapped =>
    cases o with
    | none => cases h
    | some page' => cases h; rfl
  | shared wp =>
    cases o with
    | none => cases h
    | some page' =>
      cases wp with
      | false => cases h; rfl
      | true =>
        cases acc with
        | read p j => cases h; rfl
        | write p j x => cases h

/-- The page an access finds, if it takes effect. -/
def Effect.found : Effect → Option (List UInt8)
  | .own page => some page
  | .through page => some page
  | .fault _ => none

/-- The page of the memfd an access finds, if it takes effect there. -/
def Effect.inMemfd : Effect → Option (List UInt8)
  | .through page => some page
  | .own _ | .fault _ => none

/-- The access that a process is about to make, with the page that `find` sees. -/
def seenBy (find : Effect → Option (List UInt8)) (views : Nat → View)
    (memfd : Nat → Option (List UInt8)) (attempted : Option (Nat × Access)) :
    Option (Access × List UInt8) :=
  attempted.bind fun q =>
    (find (effect (views q.2.page) (memfd q.2.page) q.2)).map fun page => (q.2, page)

/-- A byte seen comes from an attempt. -/
theorem seenBy_eq_some {find : Effect → Option (List UInt8)} {views : Nat → View}
    {attempted : Option (Nat × Access)} {page : List UInt8}
    (h : seenBy find views memfd attempted = some (acc, page)) :
    ∃ i, attempted = some (i, acc)
      ∧ find (effect (views acc.page) (memfd acc.page) acc) = some page := by
  obtain ⟨⟨i, acc'⟩, ha, hfound⟩ := bind_eq_some_iff.mp h
  obtain ⟨page', hpage, heq⟩ := map_eq_some_iff.mp hfound
  cases heq
  exact ⟨i, ha, hpage⟩

/-- What is in the memory file is read through. -/
theorem through_of_inMemfd {e : Effect} {page : List UInt8} (h : e.inMemfd = some page) :
    e = .through page := by
  cases e with
  | through page' => exact congrArg Effect.through (some.inj h)
  | own | fault => cases h

/-! ## The pages of the memfd -/

/-- Every page of the memfd is that of its source. -/
def PagesOf (source memfd : Nat → Option (List UInt8)) : Prop :=
  ∀ p page, memfd p = some page → source p = some page

/-- A stored page has to be the source's. -/
theorem pagesOf_update_iff {source : Nat → Option (List UInt8)} (h : PagesOf source memfd)
    {page : List UInt8} : PagesOf source (update memfd p (some page)) ↔ source p = some page := by
  constructor
  · exact fun hc => hc p page (update_self ..)
  · intro hp
    exact (forall_update_iff memfd fun q o => ∀ page, o = some page →
      source q = some page).mpr ⟨fun page' hpage => hp.trans hpage, fun q _ => h q⟩

/-! ## The fault handler -/

/-- How a system call ends. -/
inductive Outcome where
  | ok
  | fail
  deriving DecidableEq

/-- `UFFDIO_COPY` with `MODE_WP`: `EEXIST` if the memfd has the page, otherwise it
    is put there, mapped write-protected in this client, and the waiters wake. -/
def uffdioCopy (p : Nat) (page : List UInt8) (sh : Shared) (cl : ClientState) :
    Shared × ClientState :=
  match sh.memfd p with
  | some _ => (sh, cl.goto (.wakePresent p))
  | none =>
    (sh.setPage p page, ((cl.setView p (.shared true)).wake p).goto (.storeReady p))

/-- The page as the handler's own thread reads it. -/
def readView (p : Nat) (sh : Shared) (cl : ClientState) : Option (List UInt8) :=
  match cl.views p with
  | .anonymous page => some page
  | _ => sh.memfd p

/-- One step of the handler; `fail` is a system call or backend read that returns an
    error, which ends `fault_handler_main`. -/
def handlerStep (b : OverlayBackend) (sh : Shared) (cl : ClientState) (event : Nat)
    (out : Outcome) : Option (Shared × ClientState) :=
  match cl.pc with
  | .waiting =>
    if out = .fail then some (sh, cl.goto .exited)
    else cl.events[event]?.map fun ev =>
      (sh, { cl with
        pc := if ev.2 then .mapSnapshot ev.1 else .claim ev.1
        events := cl.events.eraseIdx event })
  | .claim p =>
    match sh.states p with
    | .unloaded => some (sh.setState p .loading, cl.goto (.readPage p))
    | .loading => some (sh, cl.goto (.spin p))
    | .sharedReady => some (sh, cl.goto (.wakeMissing p))
    -- "unexpected template page state"
    | .unknown _ => some (sh, cl.goto .exited)
  | .readPage p =>
    match out, b.readPage p with
    | .ok, some page => some (sh, cl.goto (.copyPage p page))
    | _, _ => some (sh, cl.goto .exited)
  | .copyPage p page =>
    if out = .fail then some (sh, cl.goto .exited) else some (uffdioCopy p page sh cl)
  | .wakePresent p =>
    if out = .fail then some (sh, cl.goto .exited)
    else some (sh, (cl.wake p).goto (.storeReady p))
  | .storeReady p => some (sh.setState p .sharedReady, cl.goto .waiting)
  | .spin p =>
    if sh.states p = .sharedReady then some (sh, cl.goto (.wakeMissing p))
    else some (sh, cl)
  | .wakeMissing p =>
    if out = .fail then some (sh, cl.goto .exited)
    else some (sh, (cl.wake p).goto .waiting)
  | .mapSnapshot p =>
    if out = .fail then some (sh, cl.goto .exited) else some (sh, cl.goto (.copySnapshot p))
  | .copySnapshot p =>
    -- a page that is nowhere would block the handler on its own fault
    (readView p sh cl).map fun page =>
      (sh, (cl.setView p (cl.views p).mapped).goto (.unprotect p page))
  | .unprotect p snap =>
    match out, cl.views p with
    | .ok, .shared _ => some (sh, (cl.setView p (.shared false)).goto (.remap p snap))
    | .ok, .unmapped => some (sh, cl.goto (.remap p snap))
    -- the range of a private page is not registered
    | _, _ => some (sh, cl.goto .exited)
  | .remap p snap =>
    if out = .fail then some (sh, cl.goto .exited)
    else
      some (sh, (cl.setView p (.anonymous (List.replicate b.pageSize 0))).goto (.copyBack p snap))
  | .copyBack p snap =>
    some (sh, (cl.setView p (.anonymous snap)).goto (.markDirty p))
  | .markDirty p =>
    some (sh, { cl with
      pc := .wakeWp p
      isPrivate := update cl.isPrivate p true
      dirty := update cl.dirty p true })
  | .wakeWp p =>
    if out = .fail then some (sh, cl.goto .exited)
    else some (sh, (cl.wake p).goto .waiting)
  | .exited => none

/-! ## The machine -/

/-- The steps of a client. -/
inductive ClientLabel where
  | access (i : Nat) (acc : Access)
  | retry (i : Nat)
  | handler (event : Nat) (out : Outcome)

/-- The access thread `i` is about to make with this label. -/
def attempt (b : OverlayBackend) (cl : ClientState) : ClientLabel → Option (Nat × Access)
  | .access i acc =>
    match cl.threads i with
    | .running =>
      if acc.page < b.pageCount ∧ acc.offset < b.pageSize then some (i, acc) else none
    | _ => none
  | .retry i =>
    match cl.threads i with
    | .woken acc => some (i, acc)
    | _ => none
  | .handler _ _ => none

variable {l : ClientLabel}

/-- A resting thread makes a new access, a woken one the access it has waited with. -/
theorem attempt_cases (ha : attempt b cl l = some (i, acc)) :
    (l = .access i acc ∧ cl.threads i = .running
        ∧ acc.page < b.pageCount ∧ acc.offset < b.pageSize)
      ∨ (l = .retry i ∧ cl.threads i = .woken acc) := by
  cases l with
  | access j acc' =>
    rw [attempt] at ha
    split at ha
    · rename_i hj
      split at ha
      · rename_i hin
        cases ha
        exact .inl ⟨rfl, hj, hin⟩
      · cases ha
    · cases ha
  | retry j =>
    rw [attempt] at ha
    split at ha
    · rename_i acc' hj
      cases ha
      exact .inr ⟨rfl, hj⟩
    · cases ha
  | handler _ _ => cases ha

/-- A step of a client. -/
def clientStep (b : OverlayBackend) (sh : Shared) (cl : ClientState) :
    ClientLabel → Option (Shared × ClientState)
  | .handler event out => handlerStep b sh cl event out
  | l => (attempt b cl l).map fun q => access sh cl q.1 q.2

/-- A step of client `c`. -/
def serviceStep (b : OverlayBackend) (s : ServiceState) (l : Nat × ClientLabel) :
    Option ServiceState :=
  (clientStep b s.shared (s.clients l.1) l.2).map fun q =>
    { shared := q.1, clients := update s.clients l.1 q.2 }

/-! ## What a client can do in one step -/

/-- The steps of `clientStep`, with the shared state and the client after them. -/
inductive ClientMove (b : OverlayBackend) (sh : Shared) (cl : ClientState) :
    ClientLabel → Shared → ClientState → Prop where
  | own {l : ClientLabel} {i : Nat} {acc : Access} {page : List UInt8}
      (ha : attempt b cl l = some (i, acc))
      (he : effect (cl.views acc.page) (sh.memfd acc.page) acc = .own page) :
      ClientMove b sh cl l sh
        ((cl.setView acc.page (.anonymous (acc.apply page))).setThread i .running)
  | through {l : ClientLabel} {i : Nat} {acc : Access} {page : List UInt8}
      (ha : attempt b cl l = some (i, acc))
      (he : effect (cl.views acc.page) (sh.memfd acc.page) acc = .through page) :
      ClientMove b sh cl l (sh.setPage acc.page (acc.apply page))
        ((cl.setView acc.page (cl.views acc.page).mapped).setThread i .running)
  | fault {l : ClientLabel} {i : Nat} {acc : Access} {wp : Bool}
      (ha : attempt b cl l = some (i, acc))
      (he : effect (cl.views acc.page) (sh.memfd acc.page) acc = .fault wp) :
      ClientMove b sh cl l sh
        { cl.setThread i (.blocked acc) with events := cl.events ++ [(acc.page, wp)] }
  | failed {event : Nat} {out : Outcome}
      (hwhy : out = .fail ∨ (∃ p, cl.pc = .readPage p ∧ b.readPage p = none)
        ∨ (∃ p raw, cl.pc = .claim p ∧ sh.states p = .unknown raw)
        ∨ ∃ p snap page, cl.pc = .unprotect p snap ∧ cl.views p = .anonymous page) :
      ClientMove b sh cl (.handler event out) sh (cl.goto .exited)
  | event {event : Nat} {out : Outcome} {ev : Nat × Bool} (hpc : cl.pc = .waiting)
      (hev : cl.events[event]? = some ev) :
      ClientMove b sh cl (.handler event out) sh
        { cl with
          pc := if ev.2 then .mapSnapshot ev.1 else .claim ev.1
          events := cl.events.eraseIdx event }
  | claimed {event p : Nat} {out : Outcome} (hpc : cl.pc = .claim p)
      (hst : sh.states p = .unloaded) :
      ClientMove b sh cl (.handler event out) (sh.setState p .loading) (cl.goto (.readPage p))
  | contended {event p : Nat} {out : Outcome} (hpc : cl.pc = .claim p)
      (hst : sh.states p = .loading) :
      ClientMove b sh cl (.handler event out) sh (cl.goto (.spin p))
  | loaded {event p : Nat} {out : Outcome} (hpc : cl.pc = .claim p ∨ cl.pc = .spin p)
      (hst : sh.states p = .sharedReady) :
      ClientMove b sh cl (.handler event out) sh (cl.goto (.wakeMissing p))
  | spinning {event p : Nat} {out : Outcome} (hpc : cl.pc = .spin p) :
      ClientMove b sh cl (.handler event out) sh cl
  | read {event p : Nat} {page : List UInt8} (hpc : cl.pc = .readPage p)
      (hpage : b.readPage p = some page) :
      ClientMove b sh cl (.handler event .ok) sh (cl.goto (.copyPage p page))
  | present {event p : Nat} {out : Outcome} {page page' : List UInt8}
      (hpc : cl.pc = .copyPage p page) (hmem : sh.memfd p = some page') :
      ClientMove b sh cl (.handler event out) sh (cl.goto (.wakePresent p))
  | copied {event p : Nat} {page : List UInt8}
      (hpc : cl.pc = .copyPage p page) (hmem : sh.memfd p = none) :
      ClientMove b sh cl (.handler event .ok) (sh.setPage p page)
        (((cl.setView p (.shared true)).wake p).goto (.storeReady p))
  | wokePresent {event p : Nat} {out : Outcome} (hpc : cl.pc = .wakePresent p) :
      ClientMove b sh cl (.handler event out) sh ((cl.wake p).goto (.storeReady p))
  | stored {event p : Nat} {out : Outcome} (hpc : cl.pc = .storeReady p) :
      ClientMove b sh cl (.handler event out) (sh.setState p .sharedReady) (cl.goto .waiting)
  | woke {event p : Nat} {out : Outcome} (hpc : cl.pc = .wakeMissing p ∨ cl.pc = .wakeWp p) :
      ClientMove b sh cl (.handler event out) sh ((cl.wake p).goto .waiting)
  | snapshotMapped {event p : Nat} {out : Outcome} (hpc : cl.pc = .mapSnapshot p) :
      ClientMove b sh cl (.handler event out) sh (cl.goto (.copySnapshot p))
  | snapshotCopied {event p : Nat} {out : Outcome} {page : List UInt8}
      (hpc : cl.pc = .copySnapshot p) (hread : readView p sh cl = some page) :
      ClientMove b sh cl (.handler event out) sh
        ((cl.setView p (cl.views p).mapped).goto (.unprotect p page))
  | unprotected {event p : Nat} {snap : List UInt8} {wp : Bool}
      (hpc : cl.pc = .unprotect p snap) (hview : cl.views p = .shared wp) :
      ClientMove b sh cl (.handler event .ok) sh
        ((cl.setView p (.shared false)).goto (.remap p snap))
  | unprotectedUnmapped {event p : Nat} {out : Outcome} {snap : List UInt8}
      (hpc : cl.pc = .unprotect p snap) (hview : cl.views p = .unmapped) :
      ClientMove b sh cl (.handler event out) sh (cl.goto (.remap p snap))
  | remapped {event p : Nat} {out : Outcome} {snap : List UInt8}
      (hpc : cl.pc = .remap p snap) :
      ClientMove b sh cl (.handler event out) sh
        ((cl.setView p (.anonymous (List.replicate b.pageSize 0))).goto (.copyBack p snap))
  | copiedBack {event p : Nat} {out : Outcome} {snap : List UInt8}
      (hpc : cl.pc = .copyBack p snap) :
      ClientMove b sh cl (.handler event out) sh
        ((cl.setView p (.anonymous snap)).goto (.markDirty p))
  | marked {event p : Nat} {out : Outcome} (hpc : cl.pc = .markDirty p) :
      ClientMove b sh cl (.handler event out) sh
        { cl with
          pc := .wakeWp p
          isPrivate := update cl.isPrivate p true
          dirty := update cl.dirty p true }

section Moves

variable {b : OverlayBackend} {sh : Shared} {cl : ClientState} {q : Shared × ClientState}
  {event : Nat} {out : Outcome}

/-- An access is a move. -/
theorem move_of_access (ha : attempt b cl l = some (i, acc)) :
    ClientMove b sh cl l (access sh cl i acc).1 (access sh cl i acc).2 := by
  rw [access]
  cases he : effect (cl.views acc.page) (sh.memfd acc.page) acc with
  | own page => exact .own ha he
  | through page => exact .through ha he
  | fault wp => exact .fault ha he

/-- A call that may fail, and what follows if it does not. -/
theorem move_of_failable {next : Option (Shared × ClientState)}
    (hs : (if out = .fail then some (sh, cl.goto .exited) else next) = some q)
    (hnext : out ≠ .fail → next = some q → ClientMove b sh cl (.handler event out) q.1 q.2) :
    ClientMove b sh cl (.handler event out) q.1 q.2 :=
  MachineRun.of_failable (P := fun q => ClientMove b sh cl (.handler event out) q.1 q.2) hs
    (fun hfail => .failed (.inl hfail)) hnext

/-- Each step of a handler is a move. -/
theorem move_of_handlerStep (hs : handlerStep b sh cl event out = some q) :
    ClientMove b sh cl (.handler event out) q.1 q.2 := by
  rw [handlerStep] at hs
  cases hpc : cl.pc with
  | waiting =>
    rw [hpc] at hs
    refine move_of_failable hs fun _ hnext => ?_
    obtain ⟨ev, hev, rfl⟩ := map_eq_some_iff.mp hnext
    exact .event hpc hev
  | claim p =>
    rw [hpc] at hs
    dsimp only at hs
    cases hst : sh.states p with
    | unloaded =>
      rw [hst] at hs
      cases hs
      exact .claimed hpc hst
    | loading =>
      rw [hst] at hs
      cases hs
      exact .contended hpc hst
    | sharedReady =>
      rw [hst] at hs
      cases hs
      exact .loaded (.inl hpc) hst
    | unknown raw =>
      rw [hst] at hs
      cases hs
      exact .failed (.inr (.inr (.inl ⟨p, raw, hpc, hst⟩)))
  | readPage p =>
    rw [hpc] at hs
    cases out with
    | fail =>
      cases hs
      exact .failed (.inl rfl)
    | ok =>
      dsimp only at hs
      cases hpage : b.readPage p with
      | none =>
        rw [hpage] at hs
        cases hs
        exact .failed (.inr (.inl ⟨p, hpc, hpage⟩))
      | some page =>
        rw [hpage] at hs
        cases hs
        exact .read hpc hpage
  | copyPage p page =>
    rw [hpc] at hs
    refine move_of_failable hs fun hout hnext => ?_
    cases hnext
    rw [uffdioCopy]
    cases hmem : sh.memfd p with
    | some page' => exact .present hpc hmem
    | none =>
      cases out with
      | fail => exact absurd rfl hout
      | ok => exact .copied hpc hmem
  | wakePresent p =>
    rw [hpc] at hs
    refine move_of_failable hs fun _ hnext => ?_
    cases hnext
    exact .wokePresent hpc
  | storeReady p =>
    rw [hpc] at hs
    cases hs
    exact .stored hpc
  | spin p =>
    rw [hpc] at hs
    dsimp only at hs
    split at hs
    · rename_i hst
      cases hs
      exact .loaded (.inr hpc) hst
    · cases hs
      exact .spinning hpc
  | wakeMissing p =>
    rw [hpc] at hs
    refine move_of_failable hs fun _ hnext => ?_
    cases hnext
    exact .woke (.inl hpc)
  | mapSnapshot p =>
    rw [hpc] at hs
    refine move_of_failable hs fun _ hnext => ?_
    cases hnext
    exact .snapshotMapped hpc
  | copySnapshot p =>
    rw [hpc] at hs
    obtain ⟨page, hread, rfl⟩ := map_eq_some_iff.mp hs
    exact .snapshotCopied hpc hread
  | unprotect p snap =>
    rw [hpc] at hs
    cases out with
    | fail =>
      cases hs
      exact .failed (.inl rfl)
    | ok =>
      dsimp only at hs
      cases hview : cl.views p with
      | shared wp =>
        rw [hview] at hs
        cases hs
        exact .unprotected hpc hview
      | unmapped =>
        rw [hview] at hs
        cases hs
        exact .unprotectedUnmapped hpc hview
      | anonymous page =>
        rw [hview] at hs
        cases hs
        exact .failed (.inr (.inr (.inr ⟨p, snap, page, hpc, hview⟩)))
  | remap p snap =>
    rw [hpc] at hs
    refine move_of_failable hs fun _ hnext => ?_
    cases hnext
    exact .remapped hpc
  | copyBack p snap =>
    rw [hpc] at hs
    cases hs
    exact .copiedBack hpc
  | markDirty p =>
    rw [hpc] at hs
    cases hs
    exact .marked hpc
  | wakeWp p =>
    rw [hpc] at hs
    refine move_of_failable hs fun _ hnext => ?_
    cases hnext
    exact .woke (.inr hpc)
  | exited => rw [hpc] at hs; cases hs

/-- Each step of a client is a move. -/
theorem move_of_clientStep (hs : clientStep b sh cl l = some q) : ClientMove b sh cl l q.1 q.2 := by
  cases l with
  | handler event out => exact move_of_handlerStep hs
  | access | retry =>
    obtain ⟨r, hr, rfl⟩ := map_eq_some_iff.mp hs
    exact move_of_access hr

/-- A step of one client leaves the others as they are. -/
theorem service_cases {s s' : ServiceState} {l : Nat × ClientLabel}
    (hs : serviceStep b s l = some s') :
    ∃ cl', ClientMove b s.shared (s.clients l.1) l.2 s'.shared cl'
      ∧ s'.clients = update s.clients l.1 cl' := by
  obtain ⟨q, hq, rfl⟩ := map_eq_some_iff.mp hs
  exact ⟨q.2, move_of_clientStep hq, rfl⟩

end Moves

end TemplateClient
