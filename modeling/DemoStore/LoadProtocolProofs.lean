import DemoStore.TemplateClientProofs

/-! # The load protocol of the template pages

    Clients that only read share the page states and the memfd.  A page is loaded by
    the client whose `compare_exchange` took it from `UNLOADED` to `LOADING`; every
    other client that faults on it waits for `SHARED_READY` and wakes its threads.

    The invariant says who may be where: a page in `LOADING` has one loader, a page
    is in the memfd only after that loader's `UFFDIO_COPY`, and nobody is past the
    wait before the state says so.  The layer files may change from step to step; the
    page in the memfd is the one that was read. -/

namespace LoadProtocol

open TemplateClient MachineRun Option

/-! ## Runs of readers -/

/-- A step of a client, with the backend as it is at that moment. -/
structure LoadLabel where
  backend : OverlayBackend
  client : Nat
  label : ClientLabel

/-- A step of one client. -/
def loadStep (s : ServiceState) (l : LoadLabel) : Option ServiceState :=
  serviceStep l.backend s (l.client, l.label)

/-- No access is a write, and neither a system call nor a backend read fails.  That
    `UFFDIO_COPY` finds the page present is not a failure. -/
def permits (b : OverlayBackend) (cl : ClientState) : ClientLabel → Bool
  | .access _ (.read _ _) => true
  | .access _ (.write _ _ _) => false
  | .retry _ => true
  | .handler _ .fail => false
  | .handler _ .ok =>
    match cl.pc with
    | .readPage p => (b.readPage p).isSome
    | _ => true

/-- The step is one the protocol permits. -/
def Permitted (s : ServiceState) (l : LoadLabel) (_ : ServiceState) : Prop :=
  permits l.backend (s.clients l.client) l.label = true

instance (s : ServiceState) (l : LoadLabel) (s' : ServiceState) :
    Decidable (Permitted s l s') :=
  inferInstanceAs (Decidable (permits _ _ _ = true))

/-- The steps a page state may take. -/
inductive Edge : TemplatePageState → TemplatePageState → Prop where
  | same (st : TemplatePageState) : Edge st st
  | claim : Edge .unloaded .loading
  | publish : Edge .loading .sharedReady

variable {st : TemplatePageState} {i p : Nat} {acc : Access} {page : List UInt8}

theorem Edge.of_ready (h : Edge .sharedReady st) : st = .sharedReady := by
  cases h
  rfl

theorem Edge.of_unloaded (h : Edge st .unloaded) : st = .unloaded := by
  cases h
  rfl

theorem Edge.known {st' : TemplatePageState} (h : Edge st st') (hst : ∀ raw, st ≠ .unknown raw)
    (raw : UInt8) : st' ≠ .unknown raw := by
  cases h with
  | same => exact hst raw
  | claim | publish => simp

/-- The page a step reads from the backend, with its content. -/
def loads (s : ServiceState) (l : LoadLabel) : Option (Nat × List UInt8) :=
  match (s.clients l.client).pc, l.label with
  | .readPage p, .handler _ .ok => (l.backend.readPage p).map fun page => (p, page)
  | _, _ => none

/-- The page a step copies into the memfd. -/
def copies (s : ServiceState) (l : LoadLabel) : Option Nat :=
  match (s.clients l.client).pc, l.label with
  | .copyPage p _, .handler _ .ok => some p
  | _, _ => none

/-! ## The invariant -/

/-- The page a handler has claimed and not published yet. -/
def loading : HandlerPc → Option Nat
  | .readPage p => some p
  | .copyPage p _ => some p
  | .wakePresent p => some p
  | .storeReady p => some p
  | _ => none

/-- The claimed page is not in the memfd yet. -/
def beforeCopy : HandlerPc → Option Nat
  | .readPage p => some p
  | .copyPage p _ => some p
  | _ => none

/-- The page a handler is about to wake its threads for. -/
def waking : HandlerPc → Option Nat
  | .wakePresent p => some p
  | .wakeMissing p => some p
  | _ => none

/-- Where a handler can be that gets no write-protect event. -/
def inMissing : HandlerPc → Bool
  | .waiting => true
  | .claim _ => true
  | .readPage _ => true
  | .copyPage _ _ => true
  | .wakePresent _ => true
  | .storeReady _ => true
  | .spin _ => true
  | .wakeMissing _ => true
  | _ => false

/-- A client that only reads. -/
structure ReaderOk (cl : ClientState) : Prop where
  pc : inMissing cl.pc = true
  events : ∀ ev ∈ cl.events, ev.2 = false
  pending : ∀ i acc, cl.threads i = .blocked acc ∨ cl.threads i = .woken acc →
    ∃ p j, acc = .read p j
  views : ∀ p page, cl.views p ≠ .anonymous page

/-- What the handler of one client knows about the shared state. -/
structure HandlerOk (sh : Shared) (pc : HandlerPc) : Prop where
  claimed : ∀ p, loading pc = some p → sh.states p = .loading
  absent : ∀ p, beforeCopy pc = some p → sh.memfd p = none
  present : ∀ p, loading pc = some p → beforeCopy pc = none → sh.memfd p ≠ none
  ready : ∀ p, pc = .wakeMissing p → sh.states p = .sharedReady

/-- Page states, memory file and handlers agree. -/
structure Inv (s : ServiceState) : Prop where
  known : ∀ p raw, s.shared.states p ≠ .unknown raw
  unloaded : ∀ p, s.shared.states p = .unloaded → s.shared.memfd p = none
  ready : ∀ p, s.shared.states p = .sharedReady → s.shared.memfd p ≠ none
  unique : ∀ c d p, loading (s.clients c).pc = some p → loading (s.clients d).pc = some p → c = d
  reader : ∀ c, ReaderOk (s.clients c)
  handler : ∀ c, HandlerOk s.shared (s.clients c).pc

/-! ## One client -/

section Client

variable {b : OverlayBackend} {sh sh' : Shared} {cl cl' : ClientState} {l : ClientLabel}
  {o : Option (List UInt8)} {v : View} {pc' : HandlerPc}

/-- Only reads are ever attempted. -/
theorem read_of_attempt (h : ReaderOk cl) (hok : permits b cl l = true)
    (ha : attempt b cl l = some (i, acc)) : ∃ p j, acc = .read p j := by
  rcases attempt_cases ha with ⟨rfl, -⟩ | ⟨-, hwoken⟩
  · cases acc with
    | read p j => exact ⟨p, j, rfl⟩
    | write p j x => cases hok
  · exact h.pending i acc (.inr hwoken)

/-- No client has a private page, so no access works on one. -/
theorem not_own (h : ReaderOk cl) : effect (cl.views acc.page) o acc ≠ .own page := by
  intro he
  cases hv : cl.views acc.page with
  | anonymous page' => exact h.views acc.page page' hv
  | unmapped =>
    rw [hv] at he
    cases o <;> cases he
  | shared wp =>
    rw [hv] at he
    cases o with
    | none => cases he
    | some page' => cases wp <;> cases acc <;> cases he

theorem fault_of_read {j : Nat} {wp : Bool} (he : effect v o (.read p j) = .fault wp) :
    wp = false := by
  cases v with
  | anonymous page => cases he
  | unmapped => cases o <;> cases he; rfl
  | shared wp' => cases o <;> cases wp' <;> cases he <;> rfl

variable {pc : HandlerPc}

theorem ReaderOk.goto (h : ReaderOk cl) (hpc : inMissing pc = true) : ReaderOk (cl.goto pc) :=
  ⟨hpc, h.events, h.pending, h.views⟩

theorem ReaderOk.wake (h : ReaderOk cl) (p : Nat) : ReaderOk (cl.wake p) :=
  ⟨h.pc, h.events, fun i acc hi => h.pending i acc (Thread.of_wake hi), h.views⟩

theorem ReaderOk.setView (h : ReaderOk cl) (p : Nat) (hv : ∀ page, v ≠ .anonymous page) :
    ReaderOk (cl.setView p v) := by
  refine ⟨h.pc, h.events, h.pending, fun q page hq => ?_⟩
  by_cases hqp : q = p
  · subst hqp
    rw [ClientState.views_setView_self] at hq
    exact hv page hq
  · rw [ClientState.views_setView_of_ne hqp] at hq
    exact h.views q page hq

theorem ReaderOk.setThread (h : ReaderOk cl) (i : Nat) {t : Thread}
    (ht : ∀ acc, t = .blocked acc ∨ t = .woken acc → ∃ p j, acc = .read p j) :
    ReaderOk (cl.setThread i t) := by
  refine ⟨h.pc, h.events, fun k acc hk => ?_, h.views⟩
  by_cases hki : k = i
  · subst hki
    rw [ClientState.threads_setThread_self] at hk
    exact ht acc hk
  · rw [ClientState.threads_setThread_of_ne hki] at hk
    exact h.pending k acc hk

/-- No handler ends in a permitted run. -/
theorem not_failed (h : ReaderOk cl) (hknown : ∀ p raw, sh.states p ≠ .unknown raw)
    {event : Nat} {out : Outcome} (hok : permits b cl (.handler event out) = true) :
    ¬ (out = .fail ∨ (∃ p, cl.pc = .readPage p ∧ b.readPage p = none)
      ∨ (∃ p raw, cl.pc = .claim p ∧ sh.states p = .unknown raw)
      ∨ ∃ p snap page, cl.pc = .unprotect p snap ∧ cl.views p = .anonymous page) := by
  rintro (rfl | ⟨p, hpc, hnone⟩ | ⟨p, raw, -, hst⟩ | ⟨p, snap, page, -, hview⟩)
  · cases hok
  · cases out with
    | fail => cases hok
    | ok =>
      rw [permits, hpc] at hok
      dsimp only at hok
      rw [hnone] at hok
      cases hok
  · exact hknown p raw hst
  · exact h.views p page hview

/-- A client that only reads stays one. -/
theorem reader_move (h : ReaderOk cl) (hknown : ∀ p raw, sh.states p ≠ .unknown raw)
    (hok : permits b cl l = true) (hmove : ClientMove b sh cl l sh' cl') : ReaderOk cl' := by
  have hpc := h.pc
  cases hmove with
  | own ha he => exact absurd he (not_own h)
  | through ha he =>
    refine (h.setView _ ?_).setThread _ (fun acc ht => by rcases ht with ht | ht <;> cases ht)
    intro page hv
    rename_i acc _
    cases hview : cl.views acc.page with
    | anonymous page' => exact h.views _ _ hview
    | _ => rw [hview] at hv; cases hv
  | fault ha he =>
    obtain ⟨p, j, rfl⟩ := read_of_attempt h hok ha
    obtain rfl := fault_of_read he
    refine ⟨h.pc, fun ev hev => ?_, ?_, h.views⟩
    · rcases List.mem_append.mp hev with hev | hev
      · exact h.events ev hev
      · rw [List.mem_singleton.mp hev]
    · refine (h.setThread _ fun acc ht => ?_).pending
      rcases ht with ht | ht
      · cases ht
        exact ⟨p, j, rfl⟩
      · cases ht
  | failed hwhy => exact absurd hwhy (not_failed h hknown hok)
  | event hpc hev =>
    rename_i ev
    have hwp := h.events ev (List.mem_of_getElem? hev)
    refine ⟨?_, fun ev' hev' => h.events ev' (List.mem_of_mem_eraseIdx hev'), h.pending, h.views⟩
    show inMissing (if ev.2 = true then _ else _) = true
    rw [hwp]
    rfl
  | claimed | contended | loaded | read | present | stored hpc => exact h.goto rfl
  | spinning hpc => exact h
  | copied hpc hmem => exact ((h.setView _ (by simp)).wake _).goto rfl
  | wokePresent hpc | woke hpc => exact (h.wake _).goto rfl
  | snapshotMapped hwp | snapshotCopied hwp | unprotected hwp | unprotectedUnmapped hwp
  | remapped hwp | copiedBack hwp | marked hwp => rw [hwp] at hpc; cases hpc

/-! ## The shared state -/

/-- What a step of a client with the handler at `pc` can do to the shared state: take
    an unloaded page, or finish the page it is loading. -/
structure SharedMove (sh : Shared) (pc : HandlerPc) (sh' : Shared) : Prop where
  edge : ∀ p, Edge (sh.states p) (sh'.states p)
  mine : ∀ p, sh'.states p = sh.states p ∨ sh.states p = .unloaded ∨ loading pc = some p
  kept : ∀ p, sh.memfd p ≠ none → sh'.memfd p = sh.memfd p
  put : ∀ p, sh.memfd p = none → sh'.memfd p = none ∨ loading pc = some p
  ready : ∀ p, sh'.states p = .sharedReady → sh.states p = .sharedReady ∨ sh.memfd p ≠ none

theorem SharedMove.refl (sh : Shared) (pc : HandlerPc) : SharedMove sh pc sh :=
  ⟨fun _ => .same _, fun _ => .inl rfl, fun _ _ => rfl, fun _ h => .inl h, fun _ h => .inl h⟩

theorem SharedMove.setState (hedge : Edge (sh.states p) st)
    (hmine : sh.states p = .unloaded ∨ loading pc = some p)
    (hready : st = .sharedReady → sh.memfd p ≠ none) : SharedMove sh pc (sh.setState p st) := by
  refine ⟨fun q => ?_, fun q => ?_, fun _ _ => rfl, fun _ h => .inl h, fun q hq => ?_⟩
  · by_cases hqp : q = p
    · subst hqp
      rw [Shared.states_setState_self]
      exact hedge
    · rw [Shared.states_setState_of_ne hqp]
      exact .same _
  · by_cases hqp : q = p
    · subst hqp
      exact .inr hmine
    · rw [Shared.states_setState_of_ne hqp]
      exact .inl rfl
  · by_cases hqp : q = p
    · subst hqp
      rw [Shared.states_setState_self] at hq
      exact .inr (hready hq)
    · rw [Shared.states_setState_of_ne hqp] at hq
      exact .inl hq

theorem SharedMove.setPage (hnone : sh.memfd p = none) (hmine : loading pc = some p) :
    SharedMove sh pc (sh.setPage p page) := by
  refine ⟨fun _ => .same _, fun _ => .inl rfl, fun q hq => ?_, fun q hq => ?_, fun _ h => .inl h⟩
  · refine Shared.memfd_setPage_of_ne ?_ page sh
    rintro rfl
    exact hq hnone
  · by_cases hqp : q = p
    · subst hqp
      exact .inr hmine
    · rw [Shared.memfd_setPage_of_ne hqp]
      exact .inl hq

/-- What a permitted step does to the shared memory. -/
theorem shared_move (h : ReaderOk cl) (hh : HandlerOk sh cl.pc)
    (hok : permits b cl l = true) (hmove : ClientMove b sh cl l sh' cl') :
    SharedMove sh cl.pc sh' := by
  cases hmove with
  | through ha he =>
    obtain ⟨p, j, rfl⟩ := read_of_attempt h hok ha
    rw [Access.apply, Shared.setPage_same (memfd_of_through he)]
    exact .refl sh cl.pc
  | claimed hpc hst => exact .setState (hst ▸ .claim) (.inl hst) (by simp)
  | copied hpc hmem => exact .setPage hmem (by rw [hpc]; rfl)
  | stored hpc =>
    rename_i p _
    have hload : loading cl.pc = some p := by rw [hpc]; rfl
    exact .setState (hh.claimed p hload ▸ .publish) (.inr hload)
      fun _ => hh.present p hload (by rw [hpc]; rfl)
  | _ => exact .refl sh cl.pc

/-- The other handlers keep what they know. -/
theorem HandlerOk.other (h : HandlerOk sh pc') (hmove : SharedMove sh pc sh')
    (hne : ∀ p, loading pc' = some p → loading pc ≠ some p) : HandlerOk sh' pc' where
  claimed p hp := by
    have hst := h.claimed p hp
    rcases hmove.mine p with hsame | hun | hl
    · rw [hsame]
      exact hst
    · rw [hst] at hun
      cases hun
    · exact absurd hl (hne p hp)
  absent p hp := by
    have hl : loading pc' = some p := by
      cases pc' with
      | readPage | copyPage => exact hp
      | _ => cases hp
    exact (hmove.put p (h.absent p hp)).resolve_right (hne p hl)
  present p hp hb := by
    rw [hmove.kept p (h.present p hp hb)]
    exact h.present p hp hb
  ready p hp := by
    have hst := h.ready p hp
    have hedge := hmove.edge p
    rw [hst] at hedge
    exact hedge.of_ready

/-- The handler that takes the step knows what it needs at its next program counter. -/
theorem handler_move (h : ReaderOk cl) (hh : HandlerOk sh cl.pc)
    (hun : ∀ p, sh.states p = .unloaded → sh.memfd p = none)
    (hknown : ∀ p raw, sh.states p ≠ .unknown raw) (hok : permits b cl l = true)
    (hmove : ClientMove b sh cl l sh' cl') : HandlerOk sh' cl'.pc := by
  have hidle : ∀ pc, loading pc = none → beforeCopy pc = none →
      (∀ p, pc = .wakeMissing p → sh'.states p = .sharedReady) → HandlerOk sh' pc := by
    intro pc hl hb hready
    exact ⟨by simp [hl], by simp [hb], by simp [hl], hready⟩
  have hpc := h.pc
  cases hmove with
  | own ha he => exact absurd he (not_own h)
  | through ha he =>
    obtain ⟨p, j, rfl⟩ := read_of_attempt h hok ha
    rw [Access.apply, Shared.setPage_same (memfd_of_through he)]
    exact hh
  | fault ha he | spinning hpc => exact hh
  | failed hwhy => exact absurd hwhy (not_failed h hknown hok)
  | event hpc hev =>
    rename_i ev
    have hwp := h.events ev (List.mem_of_getElem? hev)
    show HandlerOk sh (if ev.2 = true then _ else _)
    rw [hwp]
    exact hidle _ rfl rfl (by simp)
  | claimed hpc hst =>
    rename_i p _
    refine ⟨?_, ?_, (fun _ _ hb => by cases hb), by simp [ClientState.goto]⟩
    · rintro q ⟨⟩
      exact Shared.states_setState_self ..
    · rintro q ⟨⟩
      exact hun _ hst
  | contended hpc hst | stored | woke => exact hidle _ rfl rfl (by simp [ClientState.goto])
  | loaded hpc hst =>
    refine hidle _ rfl rfl fun q hq => ?_
    cases hq
    exact hst
  | read hpc hpage =>
    rw [hpc] at hh
    exact ⟨hh.claimed, hh.absent, (fun _ _ hb => by cases hb), by simp [ClientState.goto]⟩
  | present hpc hmem =>
    rw [hpc] at hh
    refine ⟨hh.claimed, (fun _ hb => by cases hb), ?_, by simp [ClientState.goto]⟩
    rintro q ⟨⟩ -
    rw [hmem]
    simp
  | copied hpc hmem =>
    rw [hpc] at hh
    refine ⟨hh.claimed, (fun _ hb => by cases hb), ?_, by simp [ClientState.goto]⟩
    rintro q ⟨⟩ -
    rw [Shared.memfd_setPage_self]
    simp
  | wokePresent hpc =>
    rw [hpc] at hh
    exact ⟨hh.claimed, (fun _ hb => by cases hb), hh.present, by simp [ClientState.goto]⟩
  | snapshotMapped hwp | snapshotCopied hwp | unprotected hwp | unprotectedUnmapped hwp
  | remapped hwp | copiedBack hwp | marked hwp => rw [hwp] at hpc; cases hpc

/-- How the handler that has taken page `p` goes on with it. -/
inductive LoaderStep (p : Nat) : HandlerPc → HandlerPc → Prop where
  | stay {pc : HandlerPc} (hload : loading pc = some p) : LoaderStep p pc pc
  | read {page : List UInt8} : LoaderStep p (.readPage p) (.copyPage p page)
  | present {page : List UInt8} : LoaderStep p (.copyPage p page) (.wakePresent p)
  | copied {page : List UInt8} : LoaderStep p (.copyPage p page) (.storeReady p)
  | woke : LoaderStep p (.wakePresent p) (.storeReady p)

theorem LoaderStep.loading (h : LoaderStep p pc pc') : loading pc = some p := by
  cases h with
  | stay hload => exact hload
  | read | present | copied | woke => rfl

/-- A loader has just taken an unloaded page, or it goes on with the one it had. -/
theorem loader_move (hmove : ClientMove b sh cl l sh' cl') (hp : loading cl'.pc = some p) :
    (sh.states p = .unloaded ∧ sh'.states p = .loading)
      ∨ (LoaderStep p cl.pc cl'.pc ∧ sh'.states = sh.states) := by
  cases hmove with
  | own | through | fault | spinning hpc => exact .inr ⟨.stay hp, rfl⟩
  | event hpc hev =>
    rename_i ev
    cases hwp : ev.2 with
    | true | false => simp [hwp, loading] at hp
  | claimed hpc hst =>
    cases hp
    exact .inl ⟨hst, Shared.states_setState_self ..⟩
  | read hpc hpage =>
    cases hp
    rw [hpc]
    exact .inr ⟨.read, rfl⟩
  | present hpc hmem =>
    cases hp
    rw [hpc]
    exact .inr ⟨.present, rfl⟩
  | copied hpc hmem =>
    cases hp
    rw [hpc]
    exact .inr ⟨.copied, rfl⟩
  | wokePresent hpc =>
    cases hp
    rw [hpc]
    exact .inr ⟨.woke, rfl⟩
  | _ => cases hp

end Client

/-! ## All clients -/

section Service

variable {s s' : ServiceState} {l : LoadLabel} {c : Nat} {acc' : Access}

theorem inv_start : Inv start where
  known _ _ h := by cases h
  unloaded _ _ := rfl
  ready _ h := by cases h
  unique _ _ _ h := by cases h
  reader _ := ⟨rfl, (fun _ h => by cases h), (fun _ _ h => by rcases h with h | h <;> cases h),
    (fun _ _ h => by cases h)⟩
  handler _ := ⟨(fun _ h => by cases h), (fun _ h => by cases h), (fun _ h => by cases h),
    (fun _ h => by cases h)⟩

/-- The acting client and what it does; the others stay as they are. -/
theorem load_cases (hs : loadStep s l = some s') :
    ClientMove l.backend s.shared (s.clients l.client) l.label s'.shared
        (s'.clients l.client)
      ∧ ∀ d, d ≠ l.client → s'.clients d = s.clients d := by
  obtain ⟨cl', hmove, hcl⟩ := service_cases hs
  rw [hcl]
  refine ⟨?_, fun d hd => Function.update_of_ne hd ..⟩
  rw [Function.update_self]
  exact hmove

theorem Inv.sharedMove (h : Inv s) (hs : loadStep s l = some s')
    (hok : Permitted s l s') : SharedMove s.shared (s.clients l.client).pc s'.shared :=
  shared_move (h.reader l.client) (h.handler l.client) hok (load_cases hs).1

/-- Whoever takes a page finds it unloaded, so nobody else is loading it. -/
theorem unique_step
    (hclaimed : ∀ c p, loading (s.clients c).pc = some p → s.shared.states p = .loading)
    (hunique : ∀ c d p, loading (s.clients c).pc = some p →
      loading (s.clients d).pc = some p → c = d)
    (hs : loadStep s l = some s') (c d p : Nat) (hc : loading (s'.clients c).pc = some p)
    (hd : loading (s'.clients d).pc = some p) : c = d := by
  obtain ⟨hmove, hothers⟩ := load_cases hs
  have hone : ∀ d, d ≠ l.client → loading (s'.clients l.client).pc = some p →
      loading (s.clients d).pc ≠ some p := by
    intro d hd hp hp'
    rcases loader_move hmove hp with ⟨hun, -⟩ | ⟨hstep, -⟩
    · cases (hclaimed d p hp').symm.trans hun
    · exact hd (hunique d l.client p hp' hstep.loading)
  by_cases hcl : c = l.client
  · by_cases hdl : d = l.client
    · rw [hcl, hdl]
    · rw [hothers d hdl] at hd
      exact absurd hd (hone d hdl (hcl ▸ hc))
  · rw [hothers c hcl] at hc
    by_cases hdl : d = l.client
    · exact absurd hc (hone c hcl (hdl ▸ hd))
    · rw [hothers d hdl] at hd
      exact hunique c d p hc hd

/-- Permitted steps keep the invariant. -/
theorem inv_step (h : Inv s) (hs : loadStep s l = some s') (hok : Permitted s l s') : Inv s' := by
  obtain ⟨hmove, hothers⟩ := load_cases hs
  have hshared := h.sharedMove hs hok
  refine ⟨fun p => (hshared.edge p).known (h.known p), fun p hp => ?_, fun p hp => ?_, ?_,
    fun c => ?_, fun c => ?_⟩
  · -- a page that is unloaded was so before, so nobody is loading it
    have hedge := hshared.edge p
    rw [hp] at hedge
    have hun := hedge.of_unloaded
    rcases hshared.put p (h.unloaded p hun) with hnone | hl
    · exact hnone
    · have hst := (h.handler l.client).claimed p hl
      rw [hun] at hst
      cases hst
  · have hpresent : s.shared.memfd p ≠ none := (hshared.ready p hp).elim (h.ready p) id
    rw [hshared.kept p hpresent]
    exact hpresent
  · exact unique_step (fun c => (h.handler c).claimed) h.unique hs
  · by_cases hc : c = l.client
    · subst hc
      exact reader_move (h.reader l.client) h.known hok hmove
    · rw [hothers c hc]
      exact h.reader c
  · by_cases hc : c = l.client
    · subst hc
      exact handler_move (h.reader l.client) (h.handler l.client) h.unloaded h.known hok hmove
    · rw [hothers c hc]
      exact (h.handler c).other hshared fun p hp hp' => hc (h.unique c l.client p hp hp')

/-! ### Waking -/

/-- A handler that calls `UFFDIO_WAKE` does so for a page in the memfd. -/
theorem Inv.waking_present (h : Inv s) (hp : waking (s.clients c).pc = some p) :
    s.shared.memfd p ≠ none := by
  have hh := h.handler c
  cases hpc : (s.clients c).pc with
  | wakePresent q =>
    rw [hpc] at hp hh
    cases hp
    exact hh.present _ rfl rfl
  | wakeMissing q =>
    rw [hpc] at hp hh
    cases hp
    exact h.ready _ (hh.ready _ rfl)
  | _ => rw [hpc] at hp; cases hp

theorem page_of_wake (h : (Thread.blocked acc).wake p = .woken acc') : acc.page = p := by
  rw [Thread.wake] at h
  split at h
  · assumption
  · cases h

variable {b : OverlayBackend} {sh sh' : Shared} {cl cl' : ClientState} {ls : List LoadLabel}

/-- A thread is woken by the copy of its page or by a call for its page. -/
theorem woken_move {l : ClientLabel} (h : ReaderOk cl) (hmove : ClientMove b sh cl l sh' cl')
    (hb : cl.threads i = .blocked acc) (hw : cl'.threads i = .woken acc') :
    sh'.memfd acc.page ≠ none ∨ waking cl.pc = some acc.page := by
  have hset : ∀ k t, (∀ acc', t ≠ .woken acc') → (cl.setThread k t).threads i ≠ .woken acc' := by
    intro k t ht
    by_cases hik : i = k
    · subst hik
      rw [ClientState.threads_setThread_self]
      exact ht acc'
    · rw [ClientState.threads_setThread_of_ne hik, hb]
      simp
  have hwake : ∀ p, (cl.threads i).wake p = .woken acc' → acc.page = p := by
    intro p hp
    rw [hb] at hp
    exact page_of_wake hp
  have hsame : cl.threads i ≠ .woken acc' := by
    rw [hb]
    simp
  have hpc := h.pc
  cases hmove with
  | own | through | fault => exact absurd hw (hset _ _ (by simp))
  | copied hpc hmem =>
    obtain rfl := hwake _ hw
    rw [Shared.memfd_setPage_self]
    exact .inl (by simp)
  | wokePresent hpc =>
    obtain rfl := hwake _ hw
    exact .inr (by rw [hpc]; rfl)
  | woke hwhere =>
    obtain rfl := hwake _ hw
    rcases hwhere with hwm | hwp
    · exact .inr (by rw [hwm]; rfl)
    · rw [hwp] at hpc
      cases hpc
  | _ => exact absurd hw hsame

/-- Nobody is woken before the page is there. -/
theorem woken_present (h : Inv s) (hs : loadStep s l = some s') (hok : Permitted s l s')
    (hb : (s.clients c).threads i = .blocked acc) (hw : (s'.clients c).threads i = .woken acc) :
    s'.shared.memfd acc.page ≠ none := by
  obtain ⟨hmove, hothers⟩ := load_cases hs
  by_cases hc : c = l.client
  · subst hc
    rcases woken_move (h.reader l.client) hmove hb hw with hmem | hwaking
    · exact hmem
    · have hpresent := h.waking_present hwaking
      rw [(h.sharedMove hs hok).kept _ hpresent]
      exact hpresent
  · rw [hothers c hc, hb] at hw
    cases hw

/-! ### Each page once -/

/-- What only the loader of a page does, in a stage of loading that it enters by taking
    the page and leaves by doing it, is done once for each page. -/
theorem once {o : ServiceState → LoadLabel → Option Nat} (stage : HandlerPc → Option Nat)
    (hload : ∀ pc p, stage pc = some p → loading pc = some p)
    (hback : ∀ p pc pc', LoaderStep p pc pc' → stage pc' = some p → stage pc = some p)
    (hdone : ∀ s l s' p, loadStep s l = some s' → o s l = some p →
      stage (s.clients l.client).pc = some p ∧ stage (s'.clients l.client).pc = none)
    (hok : Moves loadStep Permitted start ls) : (trace loadStep o start ls).Nodup := by
  refine (trace_nodup (I := Inv) (F := fun s p => s.shared.states p = .unloaded
    ∨ ∃ c, stage (s.clients c).pc = some p) ?_ ?_ inv_start hok).1
  · intro s l s' hs hl hperm
    refine ⟨inv_step hs hl hperm, fun p hp => ?_⟩
    obtain ⟨hmove, hothers⟩ := load_cases hl
    rcases hp with hun | ⟨c, hc⟩
    · have hedge := (hs.sharedMove hl hperm).edge p
      rw [hun] at hedge
      exact .inl hedge.of_unloaded
    · by_cases hcl : c = l.client
      · subst hcl
        rcases loader_move hmove (hload _ p hc) with ⟨hun, -⟩ | ⟨hstep, -⟩
        · exact .inl hun
        · exact .inr ⟨l.client, hback p _ _ hstep hc⟩
      · rw [hothers c hcl] at hc
        exact .inr ⟨c, hc⟩
  · intro s l s' p hs hl hperm hop
    obtain ⟨hbefore, hafter⟩ := hdone s l s' p hl hop
    refine ⟨.inr ⟨l.client, hbefore⟩, ?_⟩
    rintro (hun | ⟨c, hc⟩)
    · -- a page that somebody is loading does not become unloaded
      have hedge := (hs.sharedMove hl hperm).edge p
      rw [hun, (hs.handler l.client).claimed p (hload _ p hbefore)] at hedge
      cases hedge.of_unloaded
    · by_cases hcl : c = l.client
      · subst hcl
        rw [hafter] at hc
        cases hc
      · rw [(load_cases hl).2 c hcl] at hc
        exact hcl (hs.unique c l.client p (hload _ p hc) (hload _ p hbefore))

/-- The page being read. -/
def reading : HandlerPc → Option Nat
  | .readPage p => some p
  | _ => none

/-- A step of the service, seen by the client that takes it. -/
theorem clientStep_of_load (hs : loadStep s l = some s') :
    clientStep l.backend s.shared (s.clients l.client) l.label
      = some (s'.shared, s'.clients l.client) := by
  rw [loadStep, serviceStep] at hs
  obtain ⟨q, hq, rfl⟩ := map_eq_some_iff.mp hs
  dsimp only
  rw [Function.update_self]
  exact hq

theorem loads_eq_some (h : loads s l = some (p, page)) :
    (s.clients l.client).pc = .readPage p ∧ (∃ event, l.label = .handler event .ok)
      ∧ l.backend.readPage p = some page := by
  rw [loads] at h
  split at h
  · rename_i q event hpc hlabel
    obtain ⟨page', hpage, heq⟩ := map_eq_some_iff.mp h
    obtain ⟨rfl, rfl⟩ := Prod.mk.inj heq
    exact ⟨hpc, ⟨event, hlabel⟩, hpage⟩
  · cases h

theorem copies_eq_some (h : copies s l = some p) :
    (∃ page, (s.clients l.client).pc = .copyPage p page)
      ∧ ∃ event, l.label = .handler event .ok := by
  rw [copies] at h
  split at h
  · rename_i q page event hpc hlabel
    cases h
    exact ⟨⟨page, hpc⟩, event, hlabel⟩
  · cases h

/-- After the read the handler holds the page. -/
theorem read_done (h : loads s l = some (p, page)) (hs : loadStep s l = some s') :
    (s'.clients l.client).pc = .copyPage p page := by
  obtain ⟨hpc, ⟨event, hlabel⟩, hpage⟩ := loads_eq_some h
  have hstep := clientStep_of_load hs
  rw [hlabel, clientStep, handlerStep, hpc] at hstep
  dsimp only at hstep
  rw [hpage] at hstep
  rw [← (Prod.mk.inj (some.inj hstep)).2]
  rfl

theorem copy_done (h : copies s l = some p) (hs : loadStep s l = some s') :
    beforeCopy (s'.clients l.client).pc = none := by
  obtain ⟨⟨page, hpc⟩, event, hlabel⟩ := copies_eq_some h
  have hstep := clientStep_of_load hs
  rw [hlabel, clientStep, handlerStep, hpc] at hstep
  dsimp only at hstep
  rw [if_neg (by simp), uffdioCopy] at hstep
  split at hstep <;> rw [← (Prod.mk.inj (some.inj hstep)).2] <;> rfl

/-- No page is read twice. -/
theorem read_once (hok : Moves loadStep Permitted start ls) :
    (trace loadStep (fun s l => (loads s l).map Prod.fst) start ls).Nodup := by
  refine once reading ?_ ?_ ?_ hok
  · intro pc p hp
    cases pc with
    | readPage q => exact hp
    | _ => cases hp
  · intro p pc pc' hstep hp
    cases hstep with
    | stay hload => exact hp
    | _ => cases hp
  · intro s l s' p hs hp
    obtain ⟨⟨q, page⟩, hload, rfl⟩ := map_eq_some_iff.mp hp
    rw [(loads_eq_some hload).1, read_done hload hs]
    exact ⟨rfl, rfl⟩

/-- No page is copied twice. -/
theorem copy_once (hok : Moves loadStep Permitted start ls) :
    (trace loadStep copies start ls).Nodup := by
  refine once beforeCopy ?_ ?_ ?_ hok
  · intro pc p hp
    cases pc with
    | readPage | copyPage => exact hp
    | _ => cases hp
  · intro p pc pc' hstep hp
    cases hstep with
    | stay hload => exact hp
    | read => rfl
    | _ => cases hp
  · intro s l s' p hs hp
    obtain ⟨page, hpc⟩ := (copies_eq_some hp).1
    rw [hpc, copy_done hp hs]
    exact ⟨rfl, rfl⟩

/-! ### Where a page comes from -/

/-- The page is in the memfd, or about to be copied there. -/
def Holds (s : ServiceState) (a : Nat × List UInt8) : Prop :=
  s.shared.memfd a.1 = some a.2 ∨ ∃ c, (s.clients c).pc = .copyPage a.1 a.2

theorem memfd_move {l : ClientLabel} (h : ReaderOk cl) (hok : permits b cl l = true)
    (hmove : ClientMove b sh cl l sh' cl') (hp : sh'.memfd p = some page) :
    sh.memfd p = some page ∨ cl.pc = .copyPage p page := by
  cases hmove with
  | through ha he =>
    obtain ⟨q, j, rfl⟩ := read_of_attempt h hok ha
    rw [Access.apply, Shared.setPage_same (memfd_of_through he)] at hp
    exact .inl hp
  | copied hpc hmem =>
    rename_i q page'
    by_cases hqp : p = q
    · subst hqp
      rw [Shared.memfd_setPage_self] at hp
      rw [← some.inj hp]
      exact .inr hpc
    · rw [Shared.memfd_setPage_of_ne hqp] at hp
      exact .inl hp
  | _ => exact .inl hp

theorem buffer_move {l : ClientLabel} (hmove : ClientMove b sh cl l sh' cl')
    (hp : cl'.pc = .copyPage p page) :
    cl.pc = .copyPage p page
      ∨ (cl.pc = .readPage p ∧ (∃ event, l = .handler event .ok) ∧ b.readPage p = some page) := by
  cases hmove with
  | own | through | fault => exact .inl hp
  | event hpc hev =>
    rename_i ev
    cases hwp : ev.2 <;> simp [hwp] at hp
  | spinning hpc => exact .inl hp
  | read hpc hpage =>
    cases hp
    exact .inr ⟨hpc, ⟨_, rfl⟩, hpage⟩
  | _ => cases hp

/-- What is held was held or is loaded now. -/
theorem holds_step (h : Inv s) (hs : loadStep s l = some s') (hok : Permitted s l s')
    {a : Nat × List UInt8} (ha : Holds s' a) : Holds s a ∨ loads s l = some a := by
  obtain ⟨hmove, hothers⟩ := load_cases hs
  rcases ha with hmem | ⟨c, hc⟩
  · rcases memfd_move (h.reader l.client) hok hmove hmem with hold | hpc
    · exact .inl (.inl hold)
    · exact .inl (.inr ⟨l.client, hpc⟩)
  · by_cases hcl : c = l.client
    · subst hcl
      rcases buffer_move hmove hc with hold | ⟨hpc, ⟨event, hlabel⟩, hpage⟩
      · exact .inl (.inr ⟨l.client, hold⟩)
      · right
        rw [loads, hpc, hlabel]
        dsimp only
        rw [hpage, map_some]
    · rw [hothers c hcl] at hc
      exact .inl (.inr ⟨c, hc⟩)

/-- What is in the memory file was loaded. -/
theorem loaded_of_memfd (hok : Moves loadStep Permitted start ls)
    (hs : exec loadStep start ls = some s) (hp : s.shared.memfd p = some page) :
    (p, page) ∈ trace loadStep loads start ls := by
  have horigin := mem_trace_of_exec (I := Inv) (H := Holds) (o := loads)
    (fun s l s' h hl hg => ⟨inv_step h hl hg, fun a ha => holds_step h hl hg ha⟩)
    inv_start hok hs (a := (p, page)) (.inl hp)
  refine horigin.resolve_left ?_
  rintro (hmem | ⟨c, hc⟩)
  · cases hmem
  · cases hc

end Service

/-- **THE LOAD PROTOCOL.**  For any number of clients that only read, in any
    interleaving and with no failing call: a page state moves only from `UNLOADED` to
    `LOADING` to `SHARED_READY`; no thread is woken, and no wake is called for, before
    the page is present; no handler ends with an error, in particular none meets a
    state it does not know; each page is read from the backend at most once and copied
    at most once; and a page that is `SHARED_READY` is in the memfd as it was read. -/
theorem load_protocol (ls : List LoadLabel) (hok : Moves loadStep Permitted start ls) :
    Moves loadStep (fun s _ s' => (∀ p, Edge (s.shared.states p) (s'.shared.states p))
        ∧ ∀ c i acc, (s.clients c).threads i = .blocked acc →
          (s'.clients c).threads i = .woken acc → s'.shared.memfd acc.page ≠ none)
        start ls
      ∧ States loadStep (fun s => (∀ p raw, s.shared.states p ≠ .unknown raw)
        ∧ ∀ c, (s.clients c).pc ≠ .exited
          ∧ ∀ p, waking (s.clients c).pc = some p → s.shared.memfd p ≠ none) start ls
      ∧ (trace loadStep (fun s l => (loads s l).map Prod.fst) start ls).Nodup
      ∧ (trace loadStep copies start ls).Nodup
      ∧ ∀ s, exec loadStep start ls = some s → ∀ p, s.shared.states p = .sharedReady →
        ∃ page, s.shared.memfd p = some page ∧ (p, page) ∈ trace loadStep loads start ls := by
  refine ⟨?_, ?_, read_once hok, copy_once hok, fun s hs p hp => ?_⟩
  · refine moves_of_inv (I := Inv) ?_ ls start inv_start hok
    intro s l s' h hl hg
    exact ⟨inv_step h hl hg, (h.sharedMove hl hg).edge,
      fun c i acc hb hw => woken_present h hl hg hb hw⟩
  · refine states_of_inv (I := Inv) ?_ (fun s l s' => inv_step) inv_start hok
    intro s h
    refine ⟨h.known, fun c => ⟨fun hpc => ?_, fun p hp => h.waking_present hp⟩⟩
    have hin := (h.reader c).pc
    rw [hpc] at hin
    cases hin
  · have hinv : Inv s := states_exec
      (states_of_inv (I := Inv) (fun _ h => h) (fun s l s' => inv_step) inv_start hok) hs
    obtain ⟨page, hpage⟩ := Option.ne_none_iff_exists'.mp (hinv.ready p hp)
    exact ⟨page, hpage, loaded_of_memfd hok hs hpage⟩

/-! ## Two readers of one page -/

/-- A store of one page of one byte. -/
def oneByteBackend : OverlayBackend where
  pageSize := 1
  pageCount := 1
  layers := [⟨"base", ⟨1, fun i => if i = 0 then 7 else 0, fun _ h => if_neg (by omega)⟩, [1]⟩]

/-- A step of client `c` on it. -/
def byClient (c : Nat) (l : ClientLabel) : LoadLabel := ⟨oneByteBackend, c, l⟩

/-- Both clients fault on the page; client 0 takes it while client 1 waits. -/
def twoReaders : List LoadLabel :=
  [byClient 0 (.access 0 (.read 0 0)), byClient 1 (.access 0 (.read 0 0))]
    ++ [0, 1, 0, 1, 0, 1, 0, 1, 0, 1, 1].map (fun c => byClient c (.handler 0 .ok))
    ++ [byClient 0 (.retry 0), byClient 1 (.retry 0)]

/-- One of the two reads the backend, and both threads go on. -/
theorem two_readers_load_once :
    Moves loadStep Permitted start twoReaders
      ∧ (exec loadStep start twoReaders).isSome = true
      ∧ trace loadStep loads start twoReaders = [(0, [7])]
      ∧ (trace loadStep copies start twoReaders).Nodup := by
  have hok : Moves loadStep Permitted start twoReaders := by decide +kernel
  exact ⟨hok, by decide +kernel, by decide +kernel, (load_protocol twoReaders hok).2.2.2.1⟩

end LoadProtocol
