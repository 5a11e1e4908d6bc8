import DemoStore.CheckpointProofs
import DemoStore.ClientIsolationProofs

/-! # A client with one thread

    A process whose main thread is the only one that uses the mapping, beside its fault
    handler.  Here the handler may end with an error at any point, which `ClientSession`
    leaves out: if it was at rest, the thread goes on until its next fault, and if it was at
    work on a fault, the thread waits for ever.

    `Child` also says what is left in the memfd for another process that has it mapped: the
    backend's pages, and all the pages the thread has touched. -/

namespace ChildSession

open TemplateClient ClientSession List Option
open ClientIsolation (Clean ClientOk)

/-! ## The accesses of the thread -/

/-- The access that a thread is in. -/
def under : Thread → Option Access
  | .running => none
  | .blocked acc => some acc
  | .woken acc => some acc

/-- The access that has not completed. -/
def busy (cl : ClientState) : Option Access := under (cl.threads 0)

/-- The accesses so far, in order. -/
def issued (σ : Session) : List Access := σ.log.map Prod.fst ++ (busy σ.client).toList

/-- An access to the page was made. -/
def Touched (σ : Session) (p : Nat) : Prop := ∃ acc ∈ issued σ, acc.page = p

/-- The new access of a step. -/
def newAccess : ClientLabel → List Access
  | .access _ acc => [acc]
  | _ => []

/-- Steps of a process with one thread: a new access comes when none is under way. -/
def OneThread (σ : Session) (l : ClientLabel) : Prop :=
  ∀ i acc, l = .access i acc → i = 0 ∧ busy σ.client = none

variable {cl cl' : ClientState} {sh sh' : Shared} {event i : Nat} {out : Outcome} {acc : Access}

section Accesses

variable {b : OverlayBackend} {σ σ' : Session} {l : ClientLabel}

/-- Nobody else uses the mapping. -/
def Alone (cl : ClientState) : Prop := ∀ k, k ≠ 0 → cl.threads k = .running

theorem busy_eq_none : busy cl = none ↔ cl.threads 0 = .running := by
  rw [busy]
  cases cl.threads 0 <;> simp [under]

theorem Alone.resting (h : Alone cl) (hb : busy cl = none) : Resting cl := by
  intro k
  by_cases hk : k = 0
  · rw [hk]
    exact busy_eq_none.mp hb
  · exact h k hk

theorem under_wake (p : Nat) (t : Thread) : under (t.wake p) = under t := by
  cases t with
  | running | woken => rfl
  | blocked acc =>
    rw [Thread.wake]
    split <;> rfl

theorem busy_wake (p : Nat) (cl : ClientState) : busy (cl.wake p) = busy cl :=
  under_wake p (cl.threads 0)

theorem Alone.wake (h : Alone cl) (p : Nat) : Alone (cl.wake p) := by
  intro k hk
  show (cl.threads k).wake p = .running
  rw [h k hk]
  rfl

/-- The handler neither makes nor ends an access. -/
theorem busy_handler (hmove : ClientMove b sh cl (.handler event out) sh' cl') :
    busy cl' = busy cl ∧ (Alone cl → Alone cl') := by
  cases hmove with
  | own ha | through ha | fault ha => cases ha
  | copied | wokePresent | woke => exact ⟨busy_wake _ _, fun h => h.wake _⟩
  | _ => exact ⟨rfl, id⟩

/-- Thread 0 is the one that makes the access. -/
theorem thread_of_attempt (h : Alone cl)
    (hone : ∀ i acc, l = .access i acc → i = 0 ∧ busy cl = none)
    (ha : attempt b cl l = some (i, acc)) : i = 0 ∧ (busy cl).toList ++ newAccess l = [acc] := by
  rcases attempt_cases ha with ⟨rfl, hrun, -⟩ | ⟨rfl, hwoken⟩
  · obtain ⟨rfl, hb⟩ := hone i acc rfl
    rw [hb]
    exact ⟨rfl, rfl⟩
  · by_cases hi : i = 0
    · subst hi
      refine ⟨rfl, ?_⟩
      rw [busy, hwoken]
      rfl
    · rw [h i hi] at hwoken
      cases hwoken

theorem Alone.setThread (h : Alone cl) (t : Thread) : Alone (cl.setThread 0 t) := by
  intro k hk
  rw [ClientState.threads_setThread_of_ne hk]
  exact h k hk

/-- **THE ACCESSES** of a run are those that the thread is told to make. -/
theorem issued_step (h : Alone σ.client) (hone : OneThread σ l)
    (hs : sessionStep b σ l = some σ') :
    Alone σ'.client ∧ issued σ' = issued σ ++ newAccess l := by
  rcases session_cases hs with ⟨event, out, rfl, hh, hlog⟩ | ⟨i, acc, ha, haccess, hlog⟩
  · obtain ⟨hbusy, halone⟩ := busy_handler (move_of_handlerStep hh)
    refine ⟨halone h, ?_⟩
    rw [issued, issued, hbusy, hlog]
    exact (append_nil _).symm
  · obtain ⟨rfl, hnew⟩ := thread_of_attempt h hone ha
    have hissued : issued σ ++ newAccess l = σ.log.map Prod.fst ++ [acc] := by
      rw [issued, append_assoc, hnew]
    rw [hissued]
    rw [completes_eq ha] at hlog
    rw [access] at haccess
    obtain ⟨sh', cl', log'⟩ := σ'
    cases he : effect (σ.client.views acc.page) (σ.shared.memfd acc.page) acc with
    | own | through =>
      rw [he] at haccess hlog
      obtain ⟨rfl, rfl⟩ := Prod.mk.inj haccess
      obtain rfl : log' = _ := hlog
      refine ⟨Alone.setThread h _, ?_⟩
      rw [issued, busy_eq_none.mpr (ClientState.threads_setThread_self ..)]
      simp
    | fault wp =>
      rw [he] at haccess hlog
      obtain ⟨rfl, rfl⟩ := Prod.mk.inj haccess
      obtain rfl : log' = _ := hlog
      refine ⟨Alone.setThread h _, ?_⟩
      show (σ.log ++ []).map Prod.fst ++ (busy (σ.client.setThread 0 (.blocked acc))).toList = _
      rw [busy, ClientState.threads_setThread_self, append_nil]
      rfl

/-- Without a new access an idle thread stays idle. -/
theorem idle_step (h : Alone σ.client) (hone : OneThread σ l) (hnew : newAccess l = [])
    (hidle : busy σ.client = none) (hs : sessionStep b σ l = some σ') :
    busy σ'.client = none := by
  rcases session_cases hs with ⟨event, out, rfl, hh, -⟩ | ⟨i, acc, ha, -, -⟩
  · rw [(busy_handler (move_of_handlerStep hh)).1]
    exact hidle
  · obtain ⟨-, heq⟩ := thread_of_attempt h hone ha
    rw [hidle, hnew] at heq
    cases heq

end Accesses

/-! ## A handler that has ended -/

/-- The session as if the handler were still waiting. -/
def revive (σ : Session) : Session := { σ with client := σ.client.goto .waiting }

/-- The handler has ended with an error: at rest, or while the thread waits for it. -/
structure Dead (b : OverlayBackend) (σ : Session) : Prop where
  pc : σ.client.pc = .exited
  log : Consistent b σ.log
  rest : Inv b (revive σ) ∨ ∃ acc, σ.client.threads 0 = .blocked acc

section Handler

variable {b : OverlayBackend} {σ σ' : Session} {l : ClientLabel}

theorem Faulted.goto {wp : Bool} (h : Faulted sh cl acc wp) (pc : HandlerPc) :
    Faulted sh (cl.goto pc) acc wp :=
  ⟨h.thread, h.events, h.why⟩

/-- Outside of a fault the handler can be taken away; in one a thread is blocked. -/
theorem stage_exit {M : Nat → Option (List UInt8)} (h : Stage b sh cl M) :
    Stage b sh (cl.goto .waiting) M ∨ ∃ i acc, cl.threads i = .blocked acc := by
  have hwaits : ∀ {acc : Access}, Waits cl acc → ∃ i acc, cl.threads i = .blocked acc := by
    intro acc hw
    obtain ⟨i, hi, -⟩ := hw.thread
    exact ⟨i, acc, hi⟩
  cases h with
  | idle hpc hall hthreads =>
    refine .inl (.idle (.inl rfl) (fun q => (hall q).goto .waiting) ?_)
    rcases hthreads with hcalm | ⟨acc, wp, hf⟩
    · exact .inl (hcalm.goto .waiting)
    · exact .inr ⟨acc, wp, Faulted.goto hf .waiting⟩
  | claim hw | load hw | snapshot hw | replace hw | mark hw | finish hw => exact .inr (hwaits hw)

/-- The handler ends only in place: it fails and changes nothing. -/
theorem exited_move (hmove : ClientMove b sh cl (.handler event out) sh' cl')
    (hpc : cl'.pc = .exited) (hlive : cl.pc ≠ .exited) : sh' = sh ∧ cl' = cl.goto .exited := by
  cases hmove with
  | own ha | through ha | fault ha => cases ha
  | failed hwhy => exact ⟨rfl, rfl⟩
  | event hwait hev =>
    change (if _ then HandlerPc.mapSnapshot _ else HandlerPc.claim _) = _ at hpc
    split at hpc <;> cases hpc
  | spinning hspin => exact absurd hpc hlive
  | _ => cases hpc

theorem dead_of_exit (h : Inv b σ) (halone : Alone σ.client) (hlive : σ.client.pc ≠ .exited)
    (hs : handlerStep b σ.shared σ.client event out = some (σ'.shared, σ'.client))
    (hlog : σ'.log = σ.log) (hpc : σ'.client.pc = .exited) : Dead b σ' := by
  obtain ⟨hsh, hcl⟩ := exited_move (move_of_handlerStep hs) hpc hlive
  obtain ⟨sh', cl', log'⟩ := σ'
  obtain rfl : sh' = _ := hsh
  obtain rfl : cl' = _ := hcl
  obtain rfl : log' = _ := hlog
  refine ⟨rfl, h.log, ?_⟩
  rcases stage_exit h.stage with hstage | ⟨i, acc, hi⟩
  · exact .inl ⟨hstage, h.dirty, h.written, h.log⟩
  · right
    by_cases hi0 : i = 0
    · subst hi0
      exact ⟨acc, hi⟩
    · rw [halone i hi0] at hi
      cases hi

/-- An access does not look at the handler. -/
theorem access_goto (sh : Shared) (cl : ClientState) (pc : HandlerPc) (i : Nat) (acc : Access) :
    access sh (cl.goto pc) i acc = ((access sh cl i acc).1, (access sh cl i acc).2.goto pc) := by
  have hviews : (cl.goto pc).views = cl.views := rfl
  rw [access, access, hviews]
  cases effect (cl.views acc.page) (sh.memfd acc.page) acc <;> rfl

theorem revive_step (hpc : σ.client.pc = .exited) (hs : sessionStep b σ l = some σ') :
    sessionStep b (revive σ) l = some (revive σ') ∧ σ'.client.pc = .exited := by
  obtain ⟨q, hq, rfl⟩ := map_eq_some_iff.mp hs
  cases l with
  | handler event out =>
    change handlerStep b σ.shared σ.client event out = some q at hq
    rw [handlerStep, hpc] at hq
    cases hq
  | access i acc =>
    obtain ⟨r, hr, rfl⟩ := map_eq_some_iff.mp hq
    refine ⟨?_, (access_pc ..).trans hpc⟩
    show ((attempt b σ.client (.access i acc)).map fun q =>
      access σ.shared (σ.client.goto .waiting) q.1 q.2).map _ = _
    rw [hr, map_some, access_goto]
    rfl
  | retry i =>
    obtain ⟨r, hr, rfl⟩ := map_eq_some_iff.mp hq
    refine ⟨?_, (access_pc ..).trans hpc⟩
    show ((attempt b σ.client (.retry i)).map fun q =>
      access σ.shared (σ.client.goto .waiting) q.1 q.2).map _ = _
    rw [hr, map_some, access_goto]
    rfl

/-- **ONE STEP** of a process with one thread, with or without its handler. -/
theorem live_step (halone : Alone σ.client) (hone : OneThread σ l)
    (h : Inv b σ ∧ σ.client.pc ≠ .exited ∨ Dead b σ) (hs : sessionStep b σ l = some σ') :
    Inv b σ' ∧ σ'.client.pc ≠ .exited ∨ Dead b σ' := by
  have horder : ∀ i acc, l = .access i acc → Resting σ.client :=
    fun i acc hl => halone.resting (hone i acc hl).2
  rcases h with ⟨hinv, hlive⟩ | hdead
  · by_cases hpc : σ'.client.pc = .exited
    · rcases session_cases hs with ⟨event, out, -, hh, hlog⟩ | ⟨i, acc, ha, haccess, -⟩
      · exact .inr (dead_of_exit hinv halone hlive hh hlog hpc)
      · have hpc' : σ'.client.pc = σ.client.pc := by
          rw [show σ'.client = (access σ.shared σ.client i acc).2 from congrArg Prod.snd haccess,
            access_pc]
        rw [hpc'] at hpc
        exact absurd hpc hlive
    · exact .inl ⟨inv_step hinv hs ⟨horder, hpc⟩, hpc⟩
  · obtain ⟨hs', hpc⟩ := revive_step hdead.pc hs
    rcases hdead.rest with hinv | ⟨acc, hblocked⟩
    · have hinv' : Inv b (revive σ') := by
        refine inv_step hinv hs' ⟨horder, ?_⟩
        intro hc
        cases hc
      exact .inr ⟨hpc, hinv'.log, .inl hinv'⟩
    · -- the thread waits, and nobody wakes it
      rcases session_cases hs with ⟨event, out, -, hh, -⟩ | ⟨i, acc', ha, -, -⟩
      · rw [handlerStep, hdead.pc] at hh
        cases hh
      · obtain ⟨rfl, hnew⟩ := thread_of_attempt halone hone ha
        rcases attempt_cases ha with ⟨-, hrun, -⟩ | ⟨-, hwoken⟩
        · rw [hrun] at hblocked
          cases hblocked
        · rw [hwoken] at hblocked
          cases hblocked

/-- Between accesses the handler works on no page, and every page is as it should be. -/
theorem settled_of_idle (halone : Alone σ.client) (hidle : busy σ.client = none)
    (h : Inv b σ ∧ σ.client.pc ≠ .exited ∨ Dead b σ) (p : Nat) :
    Settled b σ.shared σ.client (memory b σ.log) p
      ∧ (σ.client.dirty p = true ↔ Written σ.log p) := by
  have hrest := halone.resting hidle
  rcases h with ⟨hinv, -⟩ | hdead
  · exact ⟨settled_of_resting hinv hrest p, dirty_iff_written hinv hrest p⟩
  · rcases hdead.rest with hinv | ⟨acc, hblocked⟩
    · have hset := settled_of_resting hinv hrest p
      exact ⟨hset.congr rfl rfl rfl rfl rfl, dirty_iff_written hinv hrest p⟩
    · rw [hrest 0] at hblocked
      cases hblocked

end Handler

/-! ## What is in the memfd -/

/-- The page whose copy the handler holds. -/
def copies : HandlerPc → Option Nat
  | .unprotect p _ => some p
  | .remap p _ => some p
  | .copyBack p _ => some p
  | _ => none

/-- What is mapped, or is about to be replaced, is in the memfd. -/
structure Backed (sh : Shared) (cl : ClientState) : Prop where
  views : ∀ p, cl.views p ≠ .unmapped → sh.memfd p ≠ none
  copies : ∀ p, copies cl.pc = some p → sh.memfd p ≠ none

/-- The page of the fault that the handler works on. -/
def worksOn : HandlerPc → Option Nat
  | .waiting => none
  | .claim p => some p
  | .readPage p => some p
  | .copyPage p _ => some p
  | .wakePresent p => some p
  | .storeReady p => some p
  | .spin p => some p
  | .wakeMissing p => some p
  | .mapSnapshot p => some p
  | .copySnapshot p => some p
  | .unprotect p _ => some p
  | .remap p _ => some p
  | .copyBack p _ => some p
  | .markDirty p => some p
  | .wakeWp p => some p
  | .exited => none

/-- A page that only the accesses `S` have been to is as the service has set it up. -/
structure Untouched (S : Nat → Prop) (sh : Shared) (cl : ClientState) : Prop where
  works : ∀ p, worksOn cl.pc = some p → S p
  events : ∀ p wp, (p, wp) ∈ cl.events → S p
  fresh : ∀ p, ¬ S p → sh.states p = .unloaded

section Memfd

variable {b : OverlayBackend} {sh sh' : Shared} {cl cl' : ClientState} {l : ClientLabel}

variable {p : Nat} {S : Nat → Prop}

/-- Pages are never taken out of the memfd. -/
theorem memfd_move (hmove : ClientMove b sh cl l sh' cl') (h : sh.memfd p ≠ none) :
    sh'.memfd p ≠ none := by
  have hset : ∀ q page, (sh.setPage q page).memfd p ≠ none := by
    intro q page
    by_cases hpq : p = q
    · rw [hpq, Shared.memfd_setPage_self]
      exact some_ne_none page
    · rwa [Shared.memfd_setPage_of_ne hpq]
  cases hmove with
  | through | copied => exact hset _ _
  | _ => exact h

theorem Backed.goto (h : Backed sh cl) {pc : HandlerPc}
    (hpc : ∀ p, ChildSession.copies pc = some p → sh.memfd p ≠ none) : Backed sh (cl.goto pc) :=
  ⟨h.views, hpc⟩

theorem Backed.setView (h : Backed sh cl) (hp : sh.memfd p ≠ none) (v : View) :
    Backed sh (cl.setView p v) where
  views := by
    intro q hq
    by_cases hqp : q = p
    · rwa [hqp]
    · rw [ClientState.views_setView_of_ne hqp] at hq
      exact h.views q hq
  copies := h.copies

theorem Backed.wake (h : Backed sh cl) (p : Nat) : Backed sh (cl.wake p) := ⟨h.views, h.copies⟩

theorem Backed.setThread (h : Backed sh cl) (i : Nat) (t : Thread) :
    Backed sh (cl.setThread i t) :=
  ⟨h.views, h.copies⟩

theorem Backed.mono (h : Backed sh cl) (hmem : ∀ p, sh.memfd p ≠ none → sh'.memfd p ≠ none) :
    Backed sh' cl :=
  ⟨fun p hp => hmem p (h.views p hp), fun p hp => hmem p (h.copies p hp)⟩

/-- A page that can be read without a fault is in the memfd. -/
theorem Backed.read (h : Backed sh cl) {page : List UInt8} (hread : readView p sh cl = some page) :
    sh.memfd p ≠ none := by
  rw [readView] at hread
  split at hread
  · rename_i own hview
    refine h.views p ?_
    rw [hview]
    intro hc
    cases hc
  · rw [hread]
    exact some_ne_none page

theorem backed_move (h : Backed sh cl) (hmove : ClientMove b sh cl l sh' cl') : Backed sh' cl' := by
  have hmono : Backed sh' cl := h.mono fun p hp => memfd_move hmove hp
  have hnone : ∀ pc, copies pc = none → Backed sh' (cl.goto pc) := by
    intro pc hpc
    refine hmono.goto fun p hp => ?_
    rw [hpc] at hp
    cases hp
  cases hmove with
  | own ha he =>
    refine (h.setView (h.views _ ?_) _).setThread _ _
    rw [own_of_effect he]
    intro hc
    cases hc
  | through ha he =>
    refine (hmono.setView ?_ _).setThread _ _
    rw [Shared.memfd_setPage_self]
    exact some_ne_none _
  | fault ha he => exact ⟨h.views, h.copies⟩
  | failed hwhy | claimed | contended | loaded | read | present | stored hpc
  | snapshotMapped hpc => exact hnone _ rfl
  | event hpc hev =>
    refine ⟨h.views, fun p hp => ?_⟩
    change copies (if _ then HandlerPc.mapSnapshot _ else HandlerPc.claim _) = _ at hp
    split at hp <;> cases hp
  | spinning hpc => exact h
  | copied hpc hmem =>
    refine ((hmono.setView ?_ _).wake _).goto fun p hp => ?_
    · rw [Shared.memfd_setPage_self]
      exact some_ne_none _
    · cases hp
  | wokePresent hpc | woke hpc => exact (h.wake _).goto fun p hp => by cases hp
  | snapshotCopied hpc hread =>
    have hmem := h.read hread
    refine (h.setView hmem _).goto fun p hp => ?_
    cases hp
    exact hmem
  | unprotected hpc hview | remapped hpc =>
    have hmem := h.copies _ (by rw [hpc]; rfl)
    refine (h.setView hmem _).goto fun p hp => ?_
    cases hp
    exact hmem
  | unprotectedUnmapped hpc hview =>
    refine h.goto fun p hp => h.copies p ?_
    cases hp
    rw [hpc]
    rfl
  | copiedBack hpc =>
    have hmem := h.copies _ (by rw [hpc]; rfl)
    exact (h.setView hmem _).goto fun p hp => by cases hp
  | marked hpc => exact ⟨h.views, fun p hp => by cases hp⟩

theorem Untouched.setState (h : Untouched S sh cl) (hp : S p) (st : TemplatePageState) :
    Untouched S (sh.setState p st) cl where
  works := h.works
  events := h.events
  fresh := by
    intro q hq
    rw [Shared.states_setState_of_ne]
    · exact h.fresh q hq
    · rintro rfl
      exact hq hp

/-- Only pages that an access names are claimed. -/
theorem untouched_move (h : Untouched S sh cl) (hmove : ClientMove b sh cl l sh' cl')
    (hacc : ∀ i acc, attempt b cl l = some (i, acc) → S acc.page) : Untouched S sh' cl' := by
  -- most steps stay with the page of the fault
  have hstay : ∀ {x : ClientState} {pc : HandlerPc} {p : Nat}, cl.pc = pc → worksOn pc = some p →
      x.events = cl.events → worksOn x.pc = some p → Untouched S sh x := by
    intro x pc p hpc hp hevents hx
    refine ⟨fun q hq => h.works q ?_, ?_, h.fresh⟩
    · rw [hpc, hp, ← hx, hq]
    · rw [hevents]
      exact h.events
  have hleave : ∀ {x : ClientState}, x.events = cl.events → worksOn x.pc = none →
      Untouched S sh x := by
    intro x hevents hx
    refine ⟨fun q hq => ?_, ?_, h.fresh⟩
    · rw [hx] at hq
      cases hq
    · rw [hevents]
      exact h.events
  cases hmove with
  | own | through => exact ⟨h.works, h.events, h.fresh⟩
  | fault ha he =>
    refine ⟨h.works, fun p wp hp => ?_, h.fresh⟩
    rcases mem_append.mp hp with hold | hnew
    · exact h.events p wp hold
    · cases mem_singleton.mp hnew
      exact hacc _ _ ha
  | failed hwhy | woke hpc => exact hleave rfl rfl
  | event hpc hev =>
    refine ⟨fun p hp => ?_, fun p wp hp => h.events p wp (mem_of_mem_eraseIdx hp), h.fresh⟩
    change worksOn (if _ then HandlerPc.mapSnapshot _ else HandlerPc.claim _) = _ at hp
    have hmem := mem_of_getElem? hev
    split at hp
    · cases hp
      exact h.events _ _ hmem
    · cases hp
      exact h.events _ _ hmem
  | claimed hpc hst =>
    rename_i p _
    have hnext : Untouched S sh (cl.goto (.readPage p)) := hstay hpc rfl rfl rfl
    exact hnext.setState (h.works p (by rw [hpc]; rfl)) _
  | stored hpc =>
    have hnext : Untouched S sh (cl.goto .waiting) := hleave rfl rfl
    exact hnext.setState (h.works _ (by rw [hpc]; rfl)) _
  | contended hpc hst | read hpc | present hpc | wokePresent hpc => exact hstay hpc rfl rfl rfl
  | loaded hpc hst =>
    rcases hpc with hpc | hpc
    · exact hstay hpc rfl rfl rfl
    · exact hstay hpc rfl rfl rfl
  | spinning hpc => exact h
  | copied hpc hmem =>
    rename_i p page
    have hnext : Untouched S sh (((cl.setView p (.shared true)).wake p).goto (.storeReady p)) :=
      hstay hpc rfl rfl rfl
    exact ⟨hnext.works, hnext.events, hnext.fresh⟩
  | snapshotMapped hpc | snapshotCopied hpc | unprotected hpc | unprotectedUnmapped hpc
  | remapped hpc | copiedBack hpc | marked hpc => exact hstay hpc rfl rfl rfl

end Memfd

/-! ## The invariant -/

/-- A process with one thread, its handler, and what the two have left in the memfd. -/
structure Child (b : OverlayBackend) (σ : Session) : Prop where
  alone : Alone σ.client
  live : Inv b σ ∧ σ.client.pc ≠ .exited ∨ Dead b σ
  clean : Clean b σ.shared
  ok : ClientOk b σ.client
  backed : Backed σ.shared σ.client
  present : ∀ q ∈ σ.log, σ.shared.memfd q.1.page ≠ none
  untouched : Untouched (Touched σ) σ.shared σ.client

theorem child_begin {b : OverlayBackend} : Child b begin where
  alone := fun _ _ => rfl
  live := .inl ⟨inv_begin, fun hc => by cases hc⟩
  clean := fun _ _ h => by cases h
  ok := (ClientIsolation.inv_start (b := b)).clients 0
  backed := ⟨fun _ h => absurd rfl h, fun _ h => by cases h⟩
  present := fun _ h => absurd h not_mem_nil
  untouched := ⟨(fun _ h => by cases h), (fun _ _ h => absurd h not_mem_nil), fun _ _ => rfl⟩

section Step

variable {b : OverlayBackend} {σ σ' : Session} {l : ClientLabel}

/-- An access finds every page as it should be. -/
theorem Child.settled (h : Child b σ) (hone : OneThread σ l)
    (ha : attempt b σ.client l = some (i, acc)) (p : Nat) :
    Settled b σ.shared σ.client (memory b σ.log) p := by
  have horder : ∀ i acc, l = .access i acc → Resting σ.client :=
    fun i acc hl => h.alone.resting (hone i acc hl).2
  rcases h.live with ⟨hinv, -⟩ | hdead
  · exact (idle_of_attempt hinv.stage horder ha).2.1 p
  · rcases hdead.rest with hinv | ⟨acc', hblocked⟩
    · have hstage : Stage b σ.shared (σ.client.goto .waiting) (memory b σ.log) := hinv.stage
      have hset := (idle_of_attempt hstage horder ha).2.1 p
      exact hset.congr rfl rfl rfl rfl rfl
    · obtain ⟨rfl, -⟩ := thread_of_attempt h.alone hone ha
      rcases attempt_cases ha with ⟨-, hrun, -⟩ | ⟨-, hwoken⟩
      · rw [hrun] at hblocked
        cases hblocked
      · rw [hwoken] at hblocked
        cases hblocked

/-- The thread writes only where it has a page of its own. -/
theorem Child.harmless (h : Child b σ) (hone : OneThread σ l) :
    ∀ r ∈ ClientIsolation.throughAccess b σ.shared σ.client l,
      ClientIsolation.Harmless r.1 r.2 := by
  rintro ⟨acc, page⟩ hr
  obtain ⟨i, ha, hfound⟩ := seenBy_eq_some hr
  obtain ⟨-, -, p, j, hread⟩ := (h.settled hone ha acc.page).through (through_of_inMemfd hfound)
  rw [hread]
  trivial

/-- A page of a completed access is in the memfd. -/
theorem Child.present_step (h : Child b σ) (hs : sessionStep b σ l = some σ') :
    ∀ q ∈ σ'.log, σ'.shared.memfd q.1.page ≠ none := by
  obtain ⟨q, hq, rfl⟩ := map_eq_some_iff.mp hs
  have hmove := move_of_clientStep hq
  intro e he
  rcases mem_append.mp he with hold | hnew
  · exact memfd_move hmove (h.present e hold)
  · refine memfd_move hmove ?_
    rw [mem_toList] at hnew
    obtain ⟨r, ha, hr⟩ := bind_eq_some_iff.mp hnew
    obtain ⟨i, acc⟩ := r
    dsimp only at hr
    split at hr
    · rename_i page heff
      cases hr
      refine h.backed.views acc.page ?_
      rw [own_of_effect heff]
      intro hc
      cases hc
    · rename_i page heff
      cases hr
      rw [memfd_of_through heff]
      exact some_ne_none page
    · cases hr

/-- **ONE STEP** keeps the child as it should be. -/
theorem child_step (h : Child b σ) (hone : OneThread σ l) (hs : sessionStep b σ l = some σ') :
    Child b σ' ∧ issued σ' = issued σ ++ newAccess l := by
  obtain ⟨halone, hissued⟩ := issued_step h.alone hone hs
  have hpresent := h.present_step hs
  have hlive := live_step h.alone hone h.live hs
  obtain ⟨q, hq, rfl⟩ := map_eq_some_iff.mp hs
  have hmove := move_of_clientStep hq
  obtain ⟨hok, hclean⟩ := ClientIsolation.clientStep_ok h.clean h.ok hq
  refine ⟨⟨halone, hlive, hclean.mpr (h.harmless hone), hok, backed_move h.backed hmove,
    hpresent, untouched_move ?_ hmove ?_⟩, hissued⟩
  · have hmono : ∀ p, Touched σ p → ∃ acc ∈ issued σ ++ newAccess l, acc.page = p := by
      rintro p ⟨acc, hacc, hp⟩
      exact ⟨acc, mem_append_left _ hacc, hp⟩
    refine ⟨fun p hp => ?_, fun p wp hp => ?_, fun p hp => h.untouched.fresh p fun ht => hp ?_⟩
    · rw [Touched, hissued]
      exact hmono p (h.untouched.works p hp)
    · rw [Touched, hissued]
      exact hmono p (h.untouched.events p wp hp)
    · rw [Touched, hissued]
      exact hmono p ht
  · intro i acc ha
    obtain ⟨-, hnew⟩ := thread_of_attempt h.alone hone ha
    refine ⟨acc, ?_, rfl⟩
    rw [hissued, issued, append_assoc, hnew]
    exact mem_append_right _ (mem_singleton_self acc)

/-- **NO FAULT IS LEFT**: while the thread waits, a handler that has not ended has something
    to do. -/
theorem handler_isSome (h : Inv b σ) (hblocked : σ.client.threads 0 = .blocked acc) :
    (handlerStep b σ.shared σ.client 0 .ok).isSome := by
  have hok : ¬ Outcome.ok = .fail := by decide
  rw [handlerStep]
  cases h.stage with
  | idle hpc hall hthreads =>
    rcases hpc with hpc | ⟨p, hpc, -⟩
    · rw [hpc]
      dsimp only
      rw [if_neg hok, isSome_map]
      rcases hthreads with hcalm | ⟨acc', wp, hf⟩
      · obtain ⟨i, hi, hothers⟩ := hcalm.threads
        by_cases hi0 : 0 = i
        · subst hi0
          rw [hblocked] at hi
          rcases hi with hi | ⟨_, hi⟩ <;> cases hi
        · rw [hothers 0 hi0] at hblocked
          cases hblocked
      · rw [hf.events]
        rfl
    · rw [hpc]
      rfl
  | claim hw hpc hall hview =>
    rw [hpc]
    dsimp only
    split <;> rfl
  | load hw hpc hothers hmem hM hd =>
    rcases hpc with hpc | ⟨page, hpc, -⟩
    · rw [hpc]
      dsimp only
      split <;> rfl
    · rw [hpc]
      dsimp only
      rw [if_neg hok]
      rfl
  | snapshot hw hpc hall hview =>
    rename_i p j x
    rcases hpc with hpc | hpc | ⟨snap, hpc, -⟩
    · rw [hpc]
      rfl
    · rw [hpc]
      dsimp only
      rw [isSome_map, readView, hview]
      cases hall p with
      | unmapped hview' | own hview' => rw [hview] at hview'; cases hview'
      | shared _ hmem =>
        dsimp only
        rw [hmem]
        rfl
    · rw [hpc]
      dsimp only
      rw [hview]
      rfl
  | replace hw hpc hothers hM =>
    rcases hpc with hpc | hpc
    · rw [hpc]
      rfl
    · rw [hpc]
      rfl
  | mark hw hpc | finish hw hpc =>
    rw [hpc]
    rfl

end Step

end ChildSession
