import DemoStore.TemplateClientProofs
import Mathlib.Data.List.Induction

/-! # A client alone on a template

    One client makes one access after the other.  The session keeps a log of the
    accesses that have completed, each with the byte it read; `memory` is what such a
    log makes of the backend, with no faults and no copies in it.

    Between accesses every page is in one of three situations: not loaded, loaded and
    write-protected, or private and marked dirty.  The fault handler takes one page
    from one situation to the next while the thread that faulted is blocked, so no
    access ever meets a page in between. -/

namespace ClientSession

open TemplateClient MachineRun List Option
open Function (update update_eq_self update_of_ne update_self)

/-! ## Sessions -/

/-- The byte an access reads from the page. -/
def sees : Access → List UInt8 → Option UInt8
  | .read _ j, page => page[j]?
  | .write _ _ _, _ => none

/-- One client and its completed accesses. -/
structure Session where
  shared : Shared
  client : ClientState
  log : List (Access × Option UInt8)

/-- A new client. -/
def begin : Session := ⟨start.shared, newClient, []⟩

/-- The access that takes effect with this label, and the byte it reads. -/
def completes (b : OverlayBackend) (sh : Shared) (cl : ClientState) (l : ClientLabel) :
    Option (Access × Option UInt8) :=
  (attempt b cl l).bind fun q =>
    match effect (cl.views q.2.page) (sh.memfd q.2.page) q.2 with
    | .own page => some (q.2, sees q.2 page)
    | .through page => some (q.2, sees q.2 page)
    | .fault _ => none

/-- A step; what completes is logged. -/
def sessionStep (b : OverlayBackend) (σ : Session) (l : ClientLabel) : Option Session :=
  (clientStep b σ.shared σ.client l).map fun q =>
    { shared := q.1
      client := q.2
      log := σ.log ++ (completes b σ.shared σ.client l).toList }

/-- No access is under way. -/
def Resting (cl : ClientState) : Prop := ∀ k, cl.threads k = .running

/-- Accesses do not overlap, and no fault ends with an error. -/
def Orderly (σ : Session) (l : ClientLabel) (σ' : Session) : Prop :=
  (∀ i acc, l = .access i acc → Resting σ.client) ∧ σ'.client.pc ≠ .exited

/-! ## What the accesses mean -/

/-- The memory after an access. -/
def store (M : Nat → Option (List UInt8)) (acc : Access) : Nat → Option (List UInt8) :=
  update M acc.page ((M acc.page).map acc.apply)

/-- The client's memory: the backend, with the writes of the log. -/
def memory (b : OverlayBackend) (log : List (Access × Option UInt8)) :
    Nat → Option (List UInt8) :=
  log.foldl (fun M e => store M e.1) b.readPage

/-- Every access saw the memory of its moment. -/
def Consistent (b : OverlayBackend) (log : List (Access × Option UInt8)) : Prop :=
  ∀ k acc v, log[k]? = some (acc, v) → v = (memory b (log.take k) acc.page).bind (sees acc)

/-- A write to the page has completed. -/
def Written (log : List (Access × Option UInt8)) (p : Nat) : Prop :=
  ∃ j x v, (Access.write p j x, v) ∈ log

variable {M : Nat → Option (List UInt8)} {acc : Access} {i : Nat} {wp : Bool}

section Memory

variable {b : OverlayBackend} {log : List (Access × Option UInt8)} {p : Nat} {v : Option UInt8}

/-- One more access is stored. -/
theorem memory_append (acc : Access) (v : Option UInt8) :
    memory b (log ++ [(acc, v)]) = store (memory b log) acc := by
  rw [memory, foldl_append]
  rfl

theorem store_of_ne (h : p ≠ acc.page) : store M acc p = M p := update_of_ne h ..

theorem store_self {page : List UInt8} (h : M acc.page = some page) :
    store M acc acc.page = some (acc.apply page) := by
  rw [store, update_self, h, map_some]

theorem store_read (M : Nat → Option (List UInt8)) (j : Nat) : store M (.read p j) = M := by
  have hid : (M p).map (Access.read p j).apply = M p := by
    cases M p <;> rfl
  rw [store]
  show update M p ((M p).map _) = M
  rw [hid, update_eq_self]

/-- Writes keep the pages that exist, and their length. -/
theorem memory_induction {P : Option (List UInt8) → Prop} (hbase : P (b.readPage p))
    (hset : ∀ o acc, P o → P (o.map (Access.apply acc))) : P (memory b log p) := by
  induction log using List.reverseRecOn with
  | nil => exact hbase
  | append_singleton log e ih =>
    obtain ⟨acc, v⟩ := e
    rw [memory_append]
    by_cases hp : p = acc.page
    · rw [store, hp, update_self]
      exact hset _ acc (hp ▸ ih)
    · rw [store_of_ne hp]
      exact ih

theorem memory_eq_none (h : b.readPage p = none) : memory b log p = none := by
  refine memory_induction (P := fun o => o = none) h fun o acc ho => ?_
  rw [ho, map_none]

theorem length_apply (acc : Access) (page : List UInt8) :
    (acc.apply page).length = page.length := by
  cases acc with
  | read p j => rfl
  | write p j x => exact length_set

/-- Pages keep their length. -/
theorem length_memory {page : List UInt8} (h : memory b log p = some page) :
    page.length = b.pageSize := by
  refine memory_induction (P := fun o => ∀ page, o = some page → page.length = b.pageSize)
    (fun _ => OverlayBackend.length_readPage) (fun o acc ho page hpage => ?_) page h
  obtain ⟨page', hpage', rfl⟩ := map_eq_some_iff.mp hpage
  rw [length_apply]
  exact ho page' hpage'

/-- An access that sees the memory is consistent. -/
theorem consistent_append (h : Consistent b log)
    (hv : v = (memory b log acc.page).bind (sees acc)) : Consistent b (log ++ [(acc, v)]) := by
  intro k acc' v' hk
  by_cases hlt : k < log.length
  · rw [getElem?_append_left hlt] at hk
    rw [take_append_of_le_length (Nat.le_of_lt hlt)]
    exact h k acc' v' hk
  · have hlen := (List.getElem?_eq_some_iff.mp hk).1
    rw [length_append, length_singleton] at hlen
    obtain rfl : k = log.length := by omega
    rw [getElem?_concat_length] at hk
    obtain ⟨rfl, rfl⟩ := Prod.mk.inj (some.inj hk)
    rw [take_left]
    exact hv

/-- A page is written by a write to it. -/
theorem written_append :
    Written (log ++ [(acc, v)]) p ↔ Written log p ∨ ∃ j x, acc = .write p j x := by
  constructor
  · rintro ⟨j, x, v', hmem⟩
    rcases mem_append.mp hmem with hmem | hmem
    · exact .inl ⟨j, x, v', hmem⟩
    · exact .inr ⟨j, x, (Prod.mk.inj (mem_singleton.mp hmem)).1.symm⟩
  · rintro (⟨j, x, v', hmem⟩ | ⟨j, x, rfl⟩)
    · exact ⟨j, x, v', mem_append_left _ hmem⟩
    · exact ⟨j, x, v, mem_append_right _ mem_cons_self⟩

end Memory

/-! ## Pages between accesses -/

/-- A page that the handler is not working on. -/
inductive Settled (b : OverlayBackend) (sh : Shared) (cl : ClientState)
    (M : Nat → Option (List UInt8)) (p : Nat) : Prop where
  | unmapped (hview : cl.views p = .unmapped) (hmem : sh.memfd p = none)
      (hst : sh.states p = .unloaded) (hM : M p = b.readPage p) (hd : cl.dirty p = false)
  | shared {page : List UInt8} (hview : cl.views p = .shared true)
      (hmem : sh.memfd p = some page) (hM : M p = some page)
      (hb : b.readPage p = some page) (hd : cl.dirty p = false)
  | own {page : List UInt8} (hview : cl.views p = .anonymous page) (hM : M p = some page)
      (hd : cl.dirty p = true)

/-- One thread waits for the access `acc`, whose event has been taken. -/
structure Waits (cl : ClientState) (acc : Access) : Prop where
  thread : ∃ i, cl.threads i = .blocked acc ∧ ∀ k, k ≠ i → cl.threads k = .running
  events : cl.events = []

/-- At most one access is under way, and its thread has been woken. -/
structure Calm (cl : ClientState) : Prop where
  threads : ∃ i, (cl.threads i = .running ∨ ∃ acc, cl.threads i = .woken acc)
    ∧ ∀ k, k ≠ i → cl.threads k = .running
  events : cl.events = []

/-- One access has faulted, and its event is waiting. -/
structure Faulted (sh : Shared) (cl : ClientState) (acc : Access) (wp : Bool) : Prop where
  thread : ∃ i, cl.threads i = .blocked acc ∧ ∀ k, k ≠ i → cl.threads k = .running
  events : cl.events = [(acc.page, wp)]
  why : effect (cl.views acc.page) (sh.memfd acc.page) acc = .fault wp

/-- Where the client can be, with the pages as they are there. -/
inductive Stage (b : OverlayBackend) (sh : Shared) (cl : ClientState)
    (M : Nat → Option (List UInt8)) : Prop where
  | idle (hpc : cl.pc = .waiting ∨ ∃ p, cl.pc = .storeReady p ∧ cl.views p = .shared true)
      (hall : ∀ q, Settled b sh cl M q)
      (hthreads : Calm cl ∨ ∃ acc wp, Faulted sh cl acc wp)
  | claim {acc : Access} (hw : Waits cl acc) (hpc : cl.pc = .claim acc.page)
      (hall : ∀ q, Settled b sh cl M q) (hview : cl.views acc.page = .unmapped)
  | load {acc : Access} (hw : Waits cl acc)
      (hpc : cl.pc = .readPage acc.page
        ∨ ∃ page, cl.pc = .copyPage acc.page page ∧ b.readPage acc.page = some page)
      (hothers : ∀ q, q ≠ acc.page → Settled b sh cl M q)
      (hmem : sh.memfd acc.page = none) (hM : M acc.page = b.readPage acc.page)
      (hd : cl.dirty acc.page = false)
  | snapshot {p j : Nat} {x : UInt8} (hw : Waits cl (.write p j x))
      (hpc : cl.pc = .mapSnapshot p ∨ cl.pc = .copySnapshot p
        ∨ ∃ snap, cl.pc = .unprotect p snap ∧ M p = some snap)
      (hall : ∀ q, Settled b sh cl M q) (hview : cl.views p = .shared true)
  | replace {p j : Nat} {x : UInt8} {snap : List UInt8} (hw : Waits cl (.write p j x))
      (hpc : cl.pc = .remap p snap ∨ cl.pc = .copyBack p snap)
      (hothers : ∀ q, q ≠ p → Settled b sh cl M q) (hM : M p = some snap)
  | mark {p j : Nat} {x : UInt8} {page : List UInt8} (hw : Waits cl (.write p j x))
      (hpc : cl.pc = .markDirty p) (hothers : ∀ q, q ≠ p → Settled b sh cl M q)
      (hview : cl.views p = .anonymous page) (hM : M p = some page)
  | finish {p j : Nat} {x : UInt8} (hw : Waits cl (.write p j x)) (hpc : cl.pc = .wakeWp p)
      (hall : ∀ q, Settled b sh cl M q)

section Pages

variable {b : OverlayBackend} {sh sh' : Shared} {cl cl' : ClientState}
  {M M' : Nat → Option (List UInt8)} {p q : Nat}

/-- A settled page depends on what is known of this page only. -/
theorem Settled.congr (h : Settled b sh cl M q) (hview : cl'.views q = cl.views q)
    (hd : cl'.dirty q = cl.dirty q) (hmem : sh'.memfd q = sh.memfd q)
    (hst : sh'.states q = sh.states q) (hM : M' q = M q) : Settled b sh' cl' M' q := by
  cases h with
  | unmapped h₁ h₂ h₃ h₄ h₅ =>
    exact .unmapped (hview.trans h₁) (hmem.trans h₂) (hst.trans h₃) (hM.trans h₄) (hd.trans h₅)
  | shared h₁ h₂ h₃ h₄ h₅ =>
    exact .shared (hview.trans h₁) (hmem.trans h₂) (hM.trans h₃) h₄ (hd.trans h₅)
  | own h₁ h₂ h₃ => exact .own (hview.trans h₁) (hM.trans h₂) (hd.trans h₃)

/-- The state of a page matters only while it is not mapped. -/
theorem Settled.setState (h : Settled b sh cl M q) {st : TemplatePageState}
    (hp : q = p → cl.views q ≠ .unmapped) : Settled b (sh.setState p st) cl M q := by
  by_cases hqp : q = p
  · cases h with
    | unmapped h₁ h₂ h₃ h₄ h₅ => exact absurd h₁ (hp hqp)
    | shared h₁ h₂ h₃ h₄ h₅ => exact .shared h₁ h₂ h₃ h₄ h₅
    | own h₁ h₂ h₃ => exact .own h₁ h₂ h₃
  · exact h.congr rfl rfl rfl (Shared.states_setState_of_ne hqp st sh) rfl

theorem Settled.setView (h : Settled b sh cl M q) (hqp : q ≠ p) (v : View) :
    Settled b sh (cl.setView p v) M q :=
  h.congr (ClientState.views_setView_of_ne hqp v cl) rfl rfl rfl rfl

/-- A fault with the `WP` flag is a write to a protected page; any other fault finds
    the page not loaded. -/
theorem Settled.fault (h : Settled b sh cl M acc.page)
    (he : effect (cl.views acc.page) (sh.memfd acc.page) acc = .fault wp) :
    (wp = false ∧ cl.views acc.page = .unmapped)
      ∨ (wp = true ∧ cl.views acc.page = .shared true ∧ ∃ p j x, acc = .write p j x) := by
  cases h with
  | unmapped hview hmem =>
    rw [hview, hmem] at he
    cases he
    exact .inl ⟨rfl, hview⟩
  | shared hview hmem =>
    rw [hview, hmem] at he
    cases acc with
    | read p j => cases he
    | write p j x =>
      cases he
      exact .inr ⟨rfl, hview, p, j, x, rfl⟩
  | own hview =>
    rw [hview] at he
    cases he

/-- An access that takes effect does so on the page of the memory, and writes only to a
    private page. -/
theorem Settled.page (h : Settled b sh cl M acc.page) {page : List UInt8}
    (he : effect (cl.views acc.page) (sh.memfd acc.page) acc = .own page) :
    cl.views acc.page = .anonymous page ∧ M acc.page = some page ∧ cl.dirty acc.page = true := by
  cases h with
  | unmapped hview hmem =>
    rw [hview, hmem] at he
    cases he
  | shared hview hmem =>
    rw [hview, hmem] at he
    cases acc <;> cases he
  | own hview hM hd =>
    rw [hview] at he
    cases he
    exact ⟨hview, hM, hd⟩

/-- Only reads go through to the memory file. -/
theorem Settled.through (h : Settled b sh cl M acc.page) {page : List UInt8}
    (he : effect (cl.views acc.page) (sh.memfd acc.page) acc = .through page) :
    cl.views acc.page = .shared true ∧ M acc.page = some page ∧ ∃ p j, acc = .read p j := by
  cases h with
  | unmapped hview hmem =>
    rw [hview, hmem] at he
    cases he
  | shared hview hmem hM =>
    rw [hview, hmem] at he
    cases acc with
    | read p j =>
      cases he
      exact ⟨hview, hM, p, j, rfl⟩
    | write p j x => cases he
  | own hview =>
    rw [hview] at he
    cases he

end Pages

/-! ## Accesses -/

section Accesses

variable {b : OverlayBackend} {sh sh' : Shared} {cl cl' : ClientState}
  {M : Nat → Option (List UInt8)} {l : ClientLabel}

/-- Only a resting or a woken thread makes an access, and no other access is under way
    then. -/
theorem alone_of_attempt (hcalm : Calm cl) (horder : ∀ i acc, l = .access i acc → Resting cl)
    (ha : attempt b cl l = some (i, acc)) :
    (cl.threads i = .running ∨ cl.threads i = .woken acc)
      ∧ ∀ k, k ≠ i → cl.threads k = .running := by
  rcases attempt_cases ha with ⟨hl, -⟩ | ⟨-, hwoken⟩
  · have hrest := horder i acc hl
    exact ⟨.inl (hrest i), fun k _ => hrest k⟩
  · obtain ⟨k, -, hothers⟩ := hcalm.threads
    have hik : i = k := by
      by_contra hne
      rw [hothers i hne] at hwoken
      cases hwoken
    subst hik
    exact ⟨.inr hwoken, hothers⟩

/-- Nothing but the client's own threads is resting or woken while a fault is handled. -/
theorem no_attempt_of_blocked
    (hthread : ∃ i, cl.threads i = .blocked acc ∧ ∀ k, k ≠ i → cl.threads k = .running)
    (horder : ∀ i acc, l = .access i acc → Resting cl) : attempt b cl l = none := by
  obtain ⟨i, hi, hothers⟩ := hthread
  cases l with
  | access j acc' =>
    have hrest := horder j acc' rfl i
    rw [hi] at hrest
    cases hrest
  | retry j =>
    rw [attempt]
    by_cases hji : j = i
    · rw [hji, hi]
    · rw [hothers j hji]
  | handler event out => rfl

theorem setThread_running (hothers : ∀ k, k ≠ i → cl.threads k = .running) :
    Resting (cl.setThread i .running) := by
  intro k
  by_cases hk : k = i
  · subst hk
    exact ClientState.threads_setThread_self ..
  · rw [ClientState.threads_setThread_of_ne hk]
    exact hothers k hk

theorem Calm.of_resting (h : Resting cl) (hev : cl.events = []) : Calm cl :=
  ⟨⟨0, .inl (h 0), fun k _ => h k⟩, hev⟩

/-- An access that takes effect on a private page. -/
theorem stage_own {page : List UInt8}
    (hpc : cl.pc = .waiting ∨ ∃ p, cl.pc = .storeReady p ∧ cl.views p = .shared true)
    (hall : ∀ q, Settled b sh cl M q) (hev : cl.events = [])
    (hothers : ∀ k, k ≠ i → cl.threads k = .running)
    (he : effect (cl.views acc.page) (sh.memfd acc.page) acc = .own page) :
    Stage b sh ((cl.setView acc.page (.anonymous (acc.apply page))).setThread i .running)
      (store M acc) := by
  obtain ⟨hview, hM, hd⟩ := (hall acc.page).page he
  refine .idle ?_ (fun q => ?_) (.inl (.of_resting ?_ hev))
  · rcases hpc with hpc | ⟨p, hpc, hp⟩
    · exact .inl hpc
    · refine .inr ⟨p, hpc, ?_⟩
      show (cl.setView acc.page _).views p = _
      rw [ClientState.views_setView_of_ne ?_]
      · exact hp
      · rintro rfl
        rw [hview] at hp
        cases hp
  · by_cases hq : q = acc.page
    · subst hq
      exact .own (ClientState.views_setView_self ..) (store_self hM) hd
    · exact (hall q).congr (ClientState.views_setView_of_ne hq _ cl) rfl rfl rfl (store_of_ne hq)
  · exact setThread_running hothers

/-- A read of a page in the memfd. -/
theorem stage_through {page : List UInt8}
    (hpc : cl.pc = .waiting ∨ ∃ p, cl.pc = .storeReady p ∧ cl.views p = .shared true)
    (hall : ∀ q, Settled b sh cl M q) (hev : cl.events = [])
    (hothers : ∀ k, k ≠ i → cl.threads k = .running)
    (he : effect (cl.views acc.page) (sh.memfd acc.page) acc = .through page) :
    Stage b (sh.setPage acc.page (acc.apply page))
      ((cl.setView acc.page (cl.views acc.page).mapped).setThread i .running)
      (store M acc) := by
  obtain ⟨hview, -, p, j, rfl⟩ := (hall acc.page).through he
  have hmapped : (View.shared true).mapped = .shared true := rfl
  rw [Access.apply, Shared.setPage_same (memfd_of_through he), store_read, hview, hmapped,
    ClientState.setView_same hview]
  exact .idle hpc (fun q => (hall q).congr rfl rfl rfl rfl rfl)
    (.inl (.of_resting (setThread_running hothers) hev))

/-- An access that faults. -/
theorem stage_fault
    (hpc : cl.pc = .waiting ∨ ∃ p, cl.pc = .storeReady p ∧ cl.views p = .shared true)
    (hall : ∀ q, Settled b sh cl M q) (hev : cl.events = [])
    (hothers : ∀ k, k ≠ i → cl.threads k = .running)
    (he : effect (cl.views acc.page) (sh.memfd acc.page) acc = .fault wp) :
    Stage b sh { cl.setThread i (.blocked acc) with events := cl.events ++ [(acc.page, wp)] }
      M := by
  refine .idle hpc (fun q => (hall q).congr rfl rfl rfl rfl rfl)
    (.inr ⟨acc, wp, ⟨i, ClientState.threads_setThread_self .., fun k hk => ?_⟩, ?_, he⟩)
  · exact (ClientState.threads_setThread_of_ne hk ..).trans (hothers k hk)
  · show cl.events ++ _ = _
    rw [hev]
    rfl

end Accesses

/-! ## The handler -/

variable {p : Nat}

section Handler

variable {b : OverlayBackend} {sh sh' : Shared} {cl cl' : ClientState}
  {M : Nat → Option (List UInt8)} {event : Nat} {out : Outcome}

variable {q : Shared × ClientState} {j : Nat} {x : UInt8}

/-- A call that did not end the handler did not fail. -/
theorem next_of_failable {next : Option (Shared × ClientState)}
    (hs : (if out = .fail then some (sh, cl.goto .exited) else next) = some q)
    (hlive : q.2.pc ≠ .exited) : next = some q :=
  of_failable (P := fun q => q.2.pc ≠ .exited → next = some q) hs
    (fun _ h => absurd rfl h) (fun _ hnext _ => hnext) hlive

theorem Waits.goto (h : Waits cl acc) (pc : HandlerPc) : Waits (cl.goto pc) acc :=
  ⟨h.thread, h.events⟩

theorem Waits.setView (h : Waits cl acc) (p : Nat) (v : View) : Waits (cl.setView p v) acc :=
  ⟨h.thread, h.events⟩

/-- Waking the page wakes the thread that waits for it. -/
theorem Waits.wake (h : Waits cl acc) : Calm (cl.wake acc.page) := by
  obtain ⟨i, hi, hothers⟩ := h.thread
  refine ⟨⟨i, .inr ⟨acc, ?_⟩, fun k hk => ?_⟩, h.events⟩
  · show (cl.threads i).wake acc.page = _
    rw [hi, Thread.wake, if_pos rfl]
  · show (cl.threads k).wake acc.page = _
    rw [hothers k hk]
    rfl

theorem Settled.goto {q : Nat} (h : Settled b sh cl M q) (pc : HandlerPc) :
    Settled b sh (cl.goto pc) M q :=
  h.congr rfl rfl rfl rfl rfl

theorem Calm.goto (h : Calm cl) (pc : HandlerPc) : Calm (cl.goto pc) := ⟨h.threads, h.events⟩

/-- The handler takes the event, or finishes the page it has loaded. -/
theorem stage_idle
    (hpc : cl.pc = .waiting ∨ ∃ p, cl.pc = .storeReady p ∧ cl.views p = .shared true)
    (hall : ∀ q, Settled b sh cl M q) (hthreads : Calm cl ∨ ∃ acc wp, Faulted sh cl acc wp)
    (hs : handlerStep b sh cl event out = some q) (hlive : q.2.pc ≠ .exited) :
    Stage b q.1 q.2 M := by
  rw [handlerStep] at hs
  rcases hpc with hpc | ⟨p, hpc, hview⟩
  · rw [hpc] at hs
    obtain ⟨ev, hev, rfl⟩ := map_eq_some_iff.mp (next_of_failable hs hlive)
    rcases hthreads with hcalm | ⟨acc, wp, hthread, hevents, hwhy⟩
    · rw [hcalm.events] at hev
      cases hev
    · -- the event in the queue is that of the blocked thread
      rw [hevents] at hev
      obtain ⟨rfl, rfl⟩ : event = 0 ∧ ev = (acc.page, wp) := by
        cases event with
        | zero => exact ⟨rfl, (some.inj hev).symm⟩
        | succ n => cases hev
      have hw : Waits { cl with
          pc := if (acc.page, wp).2 then .mapSnapshot acc.page else .claim acc.page
          events := cl.events.eraseIdx 0 } acc :=
        ⟨hthread, by show cl.events.eraseIdx 0 = []; rw [hevents]; rfl⟩
      rcases (hall acc.page).fault hwhy with ⟨rfl, hview⟩ | ⟨rfl, hview, p, j, x, rfl⟩
      · exact .claim hw rfl (fun q => (hall q).congr rfl rfl rfl rfl rfl) hview
      · exact .snapshot hw (.inl rfl) (fun q => (hall q).congr rfl rfl rfl rfl rfl) hview
  · rw [hpc] at hs
    cases hs
    refine .idle (.inl rfl) (fun q => ?_) ?_
    · refine ((hall q).setState ?_).goto _
      rintro rfl
      rw [hview]
      simp
    · rcases hthreads with hcalm | ⟨acc, wp, hthread, hevents, hwhy⟩
      · exact .inl (hcalm.goto _)
      · exact .inr ⟨acc, wp, hthread, hevents, hwhy⟩

/-- The claim of a page. -/
theorem stage_claim (hw : Waits cl acc) (hpc : cl.pc = .claim acc.page)
    (hall : ∀ q, Settled b sh cl M q) (hview : cl.views acc.page = .unmapped)
    (hs : handlerStep b sh cl event out = some q) : Stage b q.1 q.2 M := by
  rw [handlerStep, hpc] at hs
  dsimp only at hs
  cases hall acc.page with
  | unmapped _ hmem hst hM hd =>
    rw [hst] at hs
    cases hs
    refine .load (hw.goto _) (.inl rfl) (fun q hq => ?_) hmem hM hd
    exact ((hall q).setState fun h => absurd h hq).goto _
  | shared h | own h => rw [hview] at h; cases h

/-- Loading: the page is read, copied into the memfd and mapped write-protected. -/
theorem stage_load (hw : Waits cl acc) (hpc : cl.pc = .readPage acc.page
      ∨ ∃ page, cl.pc = .copyPage acc.page page ∧ b.readPage acc.page = some page)
    (hothers : ∀ q, q ≠ acc.page → Settled b sh cl M q) (hmem : sh.memfd acc.page = none)
    (hM : M acc.page = b.readPage acc.page) (hd : cl.dirty acc.page = false)
    (hs : handlerStep b sh cl event out = some q) (hlive : q.2.pc ≠ .exited) :
    Stage b q.1 q.2 M := by
  rw [handlerStep] at hs
  rcases hpc with hpc | ⟨page, hpc, hpage⟩
  · rw [hpc] at hs
    dsimp only at hs
    split at hs
    · rename_i page hpage
      cases hs
      exact .load (hw.goto _) (.inr ⟨page, rfl, hpage⟩)
        (fun q hq => (hothers q hq).goto _) hmem hM hd
    · cases hs
      exact absurd rfl hlive
  · rw [hpc] at hs
    have hcopy := next_of_failable hs hlive
    rw [uffdioCopy, hmem] at hcopy
    cases hcopy
    have hwoken := (hw.setView acc.page (.shared true)).wake
    refine .idle (.inr ⟨acc.page, rfl, ClientState.views_setView_self ..⟩) (fun q => ?_)
      (.inl (hwoken.goto _))
    by_cases hq : q = acc.page
    · subst hq
      exact .shared (ClientState.views_setView_self ..) (Shared.memfd_setPage_self ..)
        (hM.trans hpage) hpage hd
    · exact (hothers q hq).congr (ClientState.views_setView_of_ne hq _ cl) rfl
        (Shared.memfd_setPage_of_ne hq page sh) rfl rfl

/-- The snapshot is the page of the memory. -/
theorem stage_snapshot (hw : Waits cl (.write p j x))
    (hpc : cl.pc = .mapSnapshot p ∨ cl.pc = .copySnapshot p
      ∨ ∃ snap, cl.pc = .unprotect p snap ∧ M p = some snap) (hall : ∀ q, Settled b sh cl M q)
    (hview : cl.views p = .shared true) (hs : handlerStep b sh cl event out = some q)
    (hlive : q.2.pc ≠ .exited) : Stage b q.1 q.2 M := by
  rw [handlerStep] at hs
  rcases hpc with hpc | hpc | ⟨snap, hpc, hM⟩
  · rw [hpc] at hs
    obtain rfl := some.inj (next_of_failable hs hlive)
    exact .snapshot (hw.goto _) (.inr (.inl rfl)) (fun q => (hall q).goto _) hview
  · rw [hpc] at hs
    obtain ⟨page, hread, rfl⟩ := map_eq_some_iff.mp hs
    have hmapped : (View.shared true).mapped = .shared true := rfl
    have hM : M p = some page := by
      rw [readView, hview] at hread
      dsimp only at hread
      cases hall p with
      | unmapped h | own h => rw [hview] at h; cases h
      | shared _ hmem hM =>
        rw [hmem] at hread
        rw [hM, hread]
    rw [hview, hmapped, ClientState.setView_same hview]
    exact .snapshot (hw.goto _) (.inr (.inr ⟨page, rfl, hM⟩)) (fun q => (hall q).goto _) hview
  · rw [hpc] at hs
    dsimp only at hs
    rw [hview] at hs
    cases out with
    | fail =>
      cases hs
      exact absurd rfl hlive
    | ok =>
      cases hs
      exact .replace ((hw.setView _ _).goto _) (.inl rfl)
        (fun q hq => ((hall q).setView hq _).goto _) hM

/-- The remap and the copy back. -/
theorem stage_replace {snap : List UInt8} (hw : Waits cl (.write p j x))
    (hpc : cl.pc = .remap p snap ∨ cl.pc = .copyBack p snap)
    (hothers : ∀ q, q ≠ p → Settled b sh cl M q) (hM : M p = some snap)
    (hs : handlerStep b sh cl event out = some q) (hlive : q.2.pc ≠ .exited) :
    Stage b q.1 q.2 M := by
  rw [handlerStep] at hs
  rcases hpc with hpc | hpc
  · rw [hpc] at hs
    obtain rfl := some.inj (next_of_failable hs hlive)
    exact .replace ((hw.setView _ _).goto _) (.inr rfl)
      (fun q hq => ((hothers q hq).setView hq _).goto _) hM
  · rw [hpc] at hs
    cases hs
    exact .mark ((hw.setView _ _).goto _) rfl
      (fun q hq => ((hothers q hq).setView hq _).goto _)
      (ClientState.views_setView_self ..) hM

/-- The mark of a dirty page. -/
theorem stage_mark {page : List UInt8} (hw : Waits cl (.write p j x)) (hpc : cl.pc = .markDirty p)
    (hothers : ∀ q, q ≠ p → Settled b sh cl M q) (hview : cl.views p = .anonymous page)
    (hM : M p = some page) (hs : handlerStep b sh cl event out = some q) : Stage b q.1 q.2 M := by
  rw [handlerStep, hpc] at hs
  cases hs
  refine .finish ⟨hw.thread, hw.events⟩ rfl fun q => ?_
  by_cases hq : q = p
  · subst hq
    exact .own hview hM (update_self ..)
  · exact (hothers q hq).congr rfl (update_of_ne hq ..) rfl rfl rfl

/-- The wake after a copy. -/
theorem stage_finish (hw : Waits cl (.write p j x)) (hpc : cl.pc = .wakeWp p)
    (hall : ∀ q, Settled b sh cl M q) (hs : handlerStep b sh cl event out = some q)
    (hlive : q.2.pc ≠ .exited) : Stage b q.1 q.2 M := by
  rw [handlerStep, hpc] at hs
  obtain rfl := some.inj (next_of_failable hs hlive)
  exact .idle (.inl rfl) (fun q => (hall q).congr rfl rfl rfl rfl rfl) (.inl (hw.wake.goto _))

/-- **STAGES.**  Every step of the handler leads to the next stage. -/
theorem stage_handler (h : Stage b sh cl M) (hs : handlerStep b sh cl event out = some q)
    (hlive : q.2.pc ≠ .exited) : Stage b q.1 q.2 M := by
  cases h with
  | idle hpc hall hthreads => exact stage_idle hpc hall hthreads hs hlive
  | claim hw hpc hall hview => exact stage_claim hw hpc hall hview hs
  | load hw hpc hothers hmem hM hd => exact stage_load hw hpc hothers hmem hM hd hs hlive
  | snapshot hw hpc hall hview => exact stage_snapshot hw hpc hall hview hs hlive
  | replace hw hpc hothers hM => exact stage_replace hw hpc hothers hM hs hlive
  | mark hw hpc hothers hview hM => exact stage_mark hw hpc hothers hview hM hs
  | finish hw hpc hall => exact stage_finish hw hpc hall hs hlive

end Handler

/-! ## The invariant of a session -/

/-- A write to the page is under way. -/
def WriteUnderWay (cl : ClientState) (p : Nat) : Prop :=
  ∃ i j x, cl.threads i = .blocked (.write p j x) ∨ cl.threads i = .woken (.write p j x)

/-- Client, dirty marks and log agree. -/
structure Inv (b : OverlayBackend) (σ : Session) : Prop where
  stage : Stage b σ.shared σ.client (memory b σ.log)
  dirty : ∀ p, σ.client.dirty p = true → Written σ.log p ∨ WriteUnderWay σ.client p
  written : ∀ p, Written σ.log p → σ.client.dirty p = true
  log : Consistent b σ.log

section Run

variable {b : OverlayBackend} {σ σ' : Session} {l : ClientLabel}

theorem inv_begin : Inv b begin where
  stage := .idle (.inl rfl) (fun _ => .unmapped rfl rfl rfl rfl rfl)
    (.inl (.of_resting (fun _ => rfl) rfl))
  dirty _ h := by cases h
  written _ := by
    rintro ⟨j, x, v, hmem⟩
    cases hmem
  log k acc v hk := by simp [begin] at hk

variable {sh sh' : Shared} {cl cl' : ClientState} {event : Nat} {out : Outcome}

/-- The access that takes effect is logged. -/
theorem completes_eq (ha : attempt b cl l = some (i, acc)) :
    completes b sh cl l = match effect (cl.views acc.page) (sh.memfd acc.page) acc with
      | .own page | .through page => some (acc, sees acc page)
      | .fault _ => none := by
  rw [completes, ha]
  rfl

theorem WriteUnderWay.wake (h : WriteUnderWay cl p) (q : Nat) : WriteUnderWay (cl.wake q) p := by
  obtain ⟨i, j, x, hi⟩ := h
  refine ⟨i, j, x, ?_⟩
  show (cl.threads i).wake q = _ ∨ (cl.threads i).wake q = _
  rcases hi with hi | hi
  · rw [hi, Thread.wake]
    split
    · exact .inr rfl
    · exact .inl rfl
  · rw [hi]
    exact .inr rfl

/-- The write that thread `i` makes or retries; the writes of the others stay. -/
theorem WriteUnderWay.setThread (h : WriteUnderWay cl p)
    (hi : cl.threads i = .running ∨ cl.threads i = .woken acc) (t : Thread) :
    WriteUnderWay (cl.setThread i t) p ∨ ∃ j x, acc = .write p j x := by
  obtain ⟨k, j, x, hk⟩ := h
  by_cases hki : k = i
  · subst hki
    rcases hi with hi | hi
    · rw [hi] at hk
      rcases hk with hk | hk <;> cases hk
    · rw [hi] at hk
      rcases hk with hk | hk
      · cases hk
      · cases hk
        exact .inr ⟨j, x, rfl⟩
  · refine .inl ⟨k, j, x, ?_⟩
    rw [ClientState.threads_setThread_of_ne hki]
    exact hk

/-- The handler marks a page in one place; it never unmarks one or forgets a write. -/
theorem dirty_move (hmove : ClientMove b sh cl (.handler event out) sh' cl') :
    (∀ p, cl'.dirty p = true → cl.dirty p = true ∨ cl.pc = .markDirty p)
      ∧ (∀ p, cl.dirty p = true → cl'.dirty p = true)
      ∧ ∀ p, WriteUnderWay cl p → WriteUnderWay cl' p := by
  cases hmove with
  | own ha | through ha | fault ha => cases ha
  | copied | wokePresent | woke => exact ⟨fun _ => .inl, fun _ => id, fun _ h => h.wake _⟩
  | marked hpc =>
    rename_i q
    refine ⟨fun p hp => ?_, fun p hp => ?_, fun _ => id⟩
    · by_cases hpq : p = q
      · rw [hpq]
        exact .inr hpc
      · exact .inl ((update_of_ne hpq true cl.dirty).symm.trans hp)
    · by_cases hpq : p = q
      · rw [hpq]
        exact update_self ..
      · exact (update_of_ne hpq true cl.dirty).trans hp
  | _ => exact ⟨fun _ => .inl, fun _ => id, fun _ => id⟩

/-- A step is the handler's or an access. -/
theorem session_cases (hs : sessionStep b σ l = some σ') :
    (∃ event out, l = .handler event out
        ∧ handlerStep b σ.shared σ.client event out = some (σ'.shared, σ'.client)
        ∧ σ'.log = σ.log)
      ∨ ∃ i acc, attempt b σ.client l = some (i, acc)
        ∧ (σ'.shared, σ'.client) = access σ.shared σ.client i acc
        ∧ σ'.log = σ.log ++ (completes b σ.shared σ.client l).toList := by
  obtain ⟨q, hq, rfl⟩ := map_eq_some_iff.mp hs
  cases l with
  | handler event out =>
    exact .inl ⟨event, out, rfl, hq, append_nil _⟩
  | access | retry =>
    obtain ⟨r, hr, rfl⟩ := map_eq_some_iff.mp hq
    exact .inr ⟨r.1, r.2, hr, rfl, rfl⟩

/-- Accesses are made between faults only. -/
theorem idle_of_attempt (h : Stage b sh cl M) (horder : ∀ i acc, l = .access i acc → Resting cl)
    (ha : attempt b cl l = some (i, acc)) :
    (cl.pc = .waiting ∨ ∃ p, cl.pc = .storeReady p ∧ cl.views p = .shared true)
      ∧ (∀ q, Settled b sh cl M q) ∧ Calm cl := by
  have hbusy : ∀ {acc' : Access}, (∃ i, cl.threads i = .blocked acc'
      ∧ ∀ k, k ≠ i → cl.threads k = .running) → False := by
    intro acc' hthread
    rw [no_attempt_of_blocked hthread horder] at ha
    cases ha
  cases h with
  | idle hpc hall hthreads =>
    rcases hthreads with hcalm | ⟨acc', wp, hf⟩
    · exact ⟨hpc, hall, hcalm⟩
    · exact (hbusy hf.thread).elim
  | claim hw | load hw | snapshot hw | replace hw | mark hw | finish hw =>
    exact (hbusy hw.thread).elim

/-- An access that takes effect on `page` of the memory is logged with what it saw. -/
theorem inv_completed (h : Inv b σ) {page : List UInt8} (hM : memory b σ.log acc.page = some page)
    (hstage : Stage b sh' cl' (store (memory b σ.log) acc))
    (hi : σ.client.threads i = .running ∨ σ.client.threads i = .woken acc)
    (hthreads : cl'.threads = (σ.client.setThread i .running).threads)
    (hdirty : cl'.dirty = σ.client.dirty)
    (hwrite : ∀ p j x, acc = .write p j x → σ.client.dirty p = true) :
    Inv b ⟨sh', cl', σ.log ++ [(acc, sees acc page)]⟩ where
  stage := by
    show Stage b sh' cl' (memory b (σ.log ++ _))
    rw [memory_append]
    exact hstage
  dirty p hp := by
    rw [written_append]
    rw [hdirty] at hp
    rcases h.dirty p hp with hw | hu
    · exact .inl (.inl hw)
    · rcases hu.setThread hi .running with ⟨k, j, x, hk⟩ | hacc
      · refine .inr ⟨k, j, x, ?_⟩
        rw [hthreads]
        exact hk
      · exact .inl (.inr hacc)
  written p hp := by
    rw [hdirty]
    rcases written_append.mp hp with hw | ⟨j, x, hacc⟩
    · exact h.written p hw
    · exact hwrite p j x hacc
  log := consistent_append h.log (by rw [hM, bind_some])

/-- An access keeps the invariant. -/
theorem inv_access (h : Inv b σ) (horder : ∀ i acc, l = .access i acc → Resting σ.client)
    (ha : attempt b σ.client l = some (i, acc))
    (haccess : (σ'.shared, σ'.client) = access σ.shared σ.client i acc)
    (hlog : σ'.log = σ.log ++ (completes b σ.shared σ.client l).toList) : Inv b σ' := by
  obtain ⟨hpc, hall, hcalm⟩ := idle_of_attempt h.stage horder ha
  obtain ⟨hi, hothers⟩ := alone_of_attempt hcalm horder ha
  rw [completes_eq ha] at hlog
  rw [access] at haccess
  obtain ⟨sh', cl', log'⟩ := σ'
  cases he : effect (σ.client.views acc.page) (σ.shared.memfd acc.page) acc with
  | own page =>
    rw [he] at haccess hlog
    obtain ⟨rfl, rfl⟩ := Prod.mk.inj haccess
    obtain rfl : log' = _ := hlog
    obtain ⟨-, hM, hd⟩ := (hall acc.page).page he
    refine inv_completed h hM (stage_own hpc hall hcalm.events hothers he) hi rfl rfl ?_
    rintro p j x rfl
    exact hd
  | through page =>
    rw [he] at haccess hlog
    obtain ⟨rfl, rfl⟩ := Prod.mk.inj haccess
    obtain rfl : log' = _ := hlog
    -- only a read goes through
    obtain ⟨-, hM, p, j, hread⟩ := (hall acc.page).through he
    refine inv_completed h hM (stage_through hpc hall hcalm.events hothers he) hi rfl rfl ?_
    rintro p' j' x rfl
    cases hread
  | fault wp =>
    rw [he] at haccess hlog
    obtain ⟨rfl, rfl⟩ := Prod.mk.inj haccess
    obtain rfl : log' = σ.log := hlog.trans (append_nil _)
    refine ⟨stage_fault hpc hall hcalm.events hothers he, fun p hp => ?_, h.written, h.log⟩
    rcases h.dirty p hp with hw | hu
    · exact .inl hw
    · -- the thread is blocked for the same access
      right
      rcases hu.setThread hi (.blocked acc) with ⟨k, j, x, hk⟩ | ⟨j, x, rfl⟩
      · exact ⟨k, j, x, hk⟩
      · exact ⟨i, j, x, .inl (ClientState.threads_setThread_self ..)⟩

/-- A step of the handler keeps it. -/
theorem inv_handler (h : Inv b σ)
    (hs : handlerStep b σ.shared σ.client event out = some (σ'.shared, σ'.client))
    (hlog : σ'.log = σ.log) (hlive : σ'.client.pc ≠ .exited) : Inv b σ' := by
  obtain ⟨hmark, hkeep, hunder⟩ := dirty_move (move_of_handlerStep hs)
  refine ⟨?_, fun p hp => ?_, fun p hp => ?_, ?_⟩
  · rw [hlog]
    exact stage_handler h.stage hs hlive
  · rw [hlog]
    rcases hmark p hp with hold | hpc
    · exact (h.dirty p hold).imp id (hunder p)
    · -- the page is marked for the write that waits
      right
      apply hunder p
      cases h.stage with
      | mark hw hpc' =>
        rw [hpc] at hpc'
        cases hpc'
        obtain ⟨i, hi, -⟩ := hw.thread
        exact ⟨i, _, _, .inl hi⟩
      | idle hpc' | load _ hpc' =>
        rw [hpc] at hpc'
        rcases hpc' with hpc' | ⟨q, hpc', -⟩ <;> cases hpc'
      | claim _ hpc' | finish _ hpc' => rw [hpc] at hpc'; cases hpc'
      | snapshot _ hpc' =>
        rw [hpc] at hpc'
        rcases hpc' with hpc' | hpc' | ⟨q, hpc', -⟩ <;> cases hpc'
      | replace _ hpc' =>
        rw [hpc] at hpc'
        rcases hpc' with hpc' | hpc' <;> cases hpc'
  · rw [hlog] at hp
    exact hkeep p (h.written p hp)
  · rw [hlog]
    exact h.log

/-- So does every orderly step. -/
theorem inv_step (h : Inv b σ) (hs : sessionStep b σ l = some σ') (hok : Orderly σ l σ') :
    Inv b σ' := by
  rcases session_cases hs with ⟨event, out, -, hh, hlog⟩ | ⟨i, acc, ha, haccess, hlog⟩
  · exact inv_handler h hh hlog hok.2
  · exact inv_access h hok.1 ha haccess hlog

/-- Between accesses the handler works on no page. -/
theorem settled_of_resting (h : Inv b σ) (hrest : Resting σ.client) (p : Nat) :
    Settled b σ.shared σ.client (memory b σ.log) p := by
  have hbusy : ∀ {acc : Access}, Waits σ.client acc → False := by
    intro acc hw
    obtain ⟨i, hi, -⟩ := hw.thread
    rw [hrest i] at hi
    cases hi
  cases h.stage with
  | idle hpc hall hthreads => exact hall p
  | claim hw | load hw | snapshot hw | replace hw | mark hw | finish hw => exact (hbusy hw).elim

/-- Between accesses a page is marked dirty exactly if it has been written. -/
theorem dirty_iff_written (h : Inv b σ) (hrest : Resting σ.client) (p : Nat) :
    σ.client.dirty p = true ↔ Written σ.log p := by
  refine ⟨fun hp => (h.dirty p hp).resolve_right ?_, h.written p⟩
  rintro ⟨i, j, x, hi⟩
  rw [hrest i] at hi
  rcases hi with hi | hi <;> cases hi

end Run

end ClientSession
