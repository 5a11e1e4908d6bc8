import DemoStore.LoadProtocolProofs

/-! # Errors while a template page is loaded

    `handle_missing_fault` takes a page from `UNLOADED` to `LOADING`, reads it from the
    backend, copies it with `UFFDIO_COPY` and stores `SHARED_READY`.  Every error in
    between leaves the function through `?` and ends the fault handler of that client;
    the page state is not touched on the way out.

    Here clients read and write, and any call may fail.  A page in `LOADING` is
    attended if some client is executing its load.  One error of a loader is enough
    to end that, and nothing else does: a run keeps every page attended exactly when
    no load in it fails. -/

namespace LoadFailure

open TemplateClient LoadProtocol MachineRun Option

/-! ## What may go wrong -/

/-- The page whose load ends with an error in this step: the backend read fails,
    `UFFDIO_COPY` fails, or the wake-up after `EEXIST` does. -/
def loadError (b : OverlayBackend) (cl : ClientState) : ClientLabel → Option Nat
  | .access _ _ => none
  | .retry _ => none
  | .handler _ out =>
    match cl.pc with
    | .readPage p => if out = .fail ∨ b.readPage p = none then some p else none
    | .copyPage p _ => if out = .fail then some p else none
    | .wakePresent p => if out = .fail then some p else none
    | _ => none

/-- The step does not fail a load. -/
def LoadSucceeds (s : ServiceState) (l : LoadLabel) (_ : ServiceState) : Prop :=
  loadError l.backend (s.clients l.client) l.label = none

/-- A call that returns an error has put its page back to `UNLOADED`. -/
def ErrorUnloads (s : ServiceState) (l : LoadLabel) (s' : ServiceState) : Prop :=
  ∀ p, loadError l.backend (s.clients l.client) l.label = some p → s'.shared.states p = .unloaded

/-- Every page in `LOADING` has a client that is executing its load. -/
def Attended (s : ServiceState) : Prop :=
  ∀ p, s.shared.states p = .loading → ∃ c, loading (s.clients c).pc = some p

/-! ## One client -/

variable {p : Nat}

section Client

variable {b : OverlayBackend} {sh sh' : Shared} {cl cl' : ClientState} {l : ClientLabel}
  {q : Shared × ClientState}

/-- The client that fails was loading the page; it leaves the shared state alone and
    its handler is gone. -/
theorem loadError_step (hs : clientStep b sh cl l = some q) (herr : loadError b cl l = some p) :
    loading cl.pc = some p ∧ q.1 = sh ∧ q.2.pc = .exited := by
  cases l with
  | access | retry => cases herr
  | handler event out =>
    rw [clientStep, handlerStep] at hs
    rw [loadError] at herr
    cases hpc : cl.pc with
    | readPage r =>
      rw [hpc] at hs herr
      dsimp only at hs herr
      split at herr
      · rename_i hwhy
        have hgone : q = (sh, cl.goto .exited) := by
          rcases hwhy with rfl | hnone
          · exact (some.inj hs).symm
          · rw [hnone] at hs
            cases out <;> exact (some.inj hs).symm
        subst hgone
        exact ⟨herr, rfl, rfl⟩
      · cases herr
    | copyPage r page | wakePresent r =>
      rw [hpc] at hs herr
      dsimp only at hs herr
      split at herr
      · rename_i hfail
        rw [if_pos hfail] at hs
        cases hs
        exact ⟨herr, rfl, rfl⟩
      · cases herr
    | _ => rw [hpc] at herr; cases herr

/-- Without an error a loader goes on or publishes its page. -/
theorem load_goes_on (hs : clientStep b sh cl l = some q) (hload : loading cl.pc = some p)
    (hok : loadError b cl l = none) : loading q.2.pc = some p ∨ q.1.states p = .sharedReady := by
  cases l with
  | access | retry =>
    obtain ⟨r, -, rfl⟩ := map_eq_some_iff.mp hs
    rw [access_pc]
    exact .inl hload
  | handler event out =>
    rw [clientStep, handlerStep] at hs
    rw [loadError] at hok
    cases hpc : cl.pc with
    | readPage r =>
      rw [hpc] at hs hok hload
      dsimp only at hs hok
      split at hok
      · cases hok
      · rename_i hgood
        cases out with
        | fail => exact absurd (.inl rfl) hgood
        | ok =>
          cases hpage : b.readPage r with
          | none => exact absurd (.inr hpage) hgood
          | some page =>
            rw [hpage] at hs
            cases hs
            exact .inl hload
    | copyPage r page =>
      rw [hpc] at hs hok hload
      dsimp only at hs hok
      split at hok
      · cases hok
      · rename_i hgood
        rw [if_neg hgood] at hs
        cases hs
        rw [uffdioCopy]
        cases sh.memfd r with
        | none | some page' => exact .inl hload
    | wakePresent r =>
      rw [hpc] at hs hok hload
      dsimp only at hs hok
      split at hok
      · cases hok
      · rename_i hgood
        rw [if_neg hgood] at hs
        cases hs
        exact .inl hload
    | storeReady r =>
      -- the store cannot fail
      rw [hpc] at hs hload
      cases hs
      cases hload
      exact .inr (Shared.states_setState_self ..)
    | _ => rw [hpc] at hload; cases hload

/-- The only ways a page state changes: the acting client takes the page, or it
    publishes the page it was loading. -/
theorem states_move (hmove : ClientMove b sh cl l sh' cl') (p : Nat) :
    sh'.states p = sh.states p
      ∨ (sh.states p = .unloaded ∧ loading cl'.pc = some p)
      ∨ (loading cl.pc = some p ∧ sh'.states p = .sharedReady) := by
  cases hmove with
  | claimed hpc hst =>
    rename_i r _
    by_cases hpr : p = r
    · subst hpr
      exact .inr (.inl ⟨hst, rfl⟩)
    · exact .inl (Shared.states_setState_of_ne hpr ..)
  | stored hpc =>
    rename_i r _
    by_cases hpr : p = r
    · subst hpr
      exact .inr (.inr ⟨by rw [hpc]; rfl, Shared.states_setState_self ..⟩)
    · exact .inl (Shared.states_setState_of_ne hpr ..)
  | _ => exact .inl rfl

/-- What the acting client is loading is in `LOADING`. -/
theorem claimed_move (hmove : ClientMove b sh cl l sh' cl')
    (hclaimed : ∀ p, loading cl.pc = some p → sh.states p = .loading)
    (hp : loading cl'.pc = some p) : sh'.states p = .loading := by
  rcases loader_move hmove hp with ⟨-, hst⟩ | ⟨hstep, hst⟩
  · exact hst
  · rw [hst]
    exact hclaimed p hstep.loading

end Client

/-! ## All clients -/

section Service

variable {s s' : ServiceState} {l : LoadLabel}

/-- Errors do not disturb these two clauses: a page has at most one loader, and a page
    that is being loaded is in `LOADING`. -/
structure LoaderInv (s : ServiceState) : Prop where
  claimed : ∀ c p, loading (s.clients c).pc = some p → s.shared.states p = .loading
  unique : ∀ c d p, loading (s.clients c).pc = some p → loading (s.clients d).pc = some p → c = d

theorem loaderInv_start : LoaderInv start :=
  ⟨(fun _ _ h => by cases h), (fun _ _ _ h => by cases h)⟩

theorem attended_start : Attended start := by
  intro p hp
  cases hp

theorem loaderInv_step (h : LoaderInv s) (hs : loadStep s l = some s') : LoaderInv s' := by
  obtain ⟨hmove, hothers⟩ := load_cases hs
  refine ⟨fun c p hp => ?_, unique_step h.claimed h.unique hs⟩
  by_cases hc : c = l.client
  · subst hc
    exact claimed_move hmove (h.claimed l.client) hp
  · rw [hothers c hc] at hp
    have hst := h.claimed c p hp
    rcases states_move hmove p with hsame | ⟨hun, -⟩ | ⟨hmine, -⟩
    · rw [hsame]
      exact hst
    · rw [hst] at hun
      cases hun
    · exact absurd (h.unique c l.client p hp hmine) hc

/-- A step in which no load fails keeps every page attended. -/
theorem attended_step (h : Attended s) (hs : loadStep s l = some s')
    (hok : LoadSucceeds s l s') : Attended s' := by
  obtain ⟨hmove, hothers⟩ := load_cases hs
  intro p hp
  rcases states_move hmove p with hsame | ⟨-, hnew⟩ | ⟨-, hready⟩
  · obtain ⟨c, hc⟩ := h p (hsame.symm.trans hp)
    by_cases hcl : c = l.client
    · subst hcl
      rcases load_goes_on (clientStep_of_load hs) hc hok with hon | hready
      · exact ⟨l.client, hon⟩
      · cases hready.symm.trans hp
    · exact ⟨c, by rw [hothers c hcl]; exact hc⟩
  · exact ⟨l.client, hnew⟩
  · cases hready.symm.trans hp

/-- After an error its page is still in `LOADING`, and nobody is loading it. -/
theorem error_strands (h : LoaderInv s) (hs : loadStep s l = some s')
    (herr : loadError l.backend (s.clients l.client) l.label = some p) :
    s'.shared.states p = .loading ∧ ∀ c, loading (s'.clients c).pc ≠ some p := by
  obtain ⟨hload, hsh, hpc⟩ := loadError_step (clientStep_of_load hs) herr
  dsimp only at hsh hpc
  refine ⟨?_, fun c hc => ?_⟩
  · rw [hsh]
    exact h.claimed l.client p hload
  · by_cases hcl : c = l.client
    · rw [hcl, hpc] at hc
      cases hc
    · rw [(load_cases hs).2 c hcl] at hc
      exact hcl (h.unique c l.client p hc hload)

theorem succeeds_iff_attended (h : LoaderInv s) (ha : Attended s)
    (hs : loadStep s l = some s') : LoadSucceeds s l s' ↔ Attended s' := by
  refine ⟨attended_step ha hs, fun ha' => ?_⟩
  cases herr : loadError l.backend (s.clients l.client) l.label with
  | none => exact herr
  | some p =>
    obtain ⟨hst, hnone⟩ := error_strands h hs herr
    obtain ⟨c, hc⟩ := ha' p hst
    exact absurd hc (hnone c)

theorem succeeds_iff_unloads (h : LoaderInv s) (hs : loadStep s l = some s') :
    LoadSucceeds s l s' ↔ ErrorUnloads s l s' := by
  constructor
  · intro hok p herr
    cases hok.symm.trans herr
  · intro hun
    cases herr : loadError l.backend (s.clients l.client) l.label with
    | none => exact herr
    | some p =>
      have hst := (error_strands h hs herr).1
      cases hst.symm.trans (hun p herr)

/-- A client that takes no step of a run is as it was. -/
theorem idle_client {ls : List LoadLabel} {c : Nat} (hc : ∀ l ∈ ls, l.client ≠ c)
    (hs : exec loadStep s ls = some s') : s'.clients c = s.clients c := by
  induction ls generalizing s with
  | nil => rw [some.inj hs]
  | cons l ls ih =>
    obtain ⟨t, hl, hrest⟩ := exec_cons hs
    rw [ih (fun l' hl' => hc l' (List.mem_cons_of_mem l hl')) hrest]
    exact (load_cases hl).2 c (hc l List.mem_cons_self).symm

/-- A handler that spins on a page which stays in `LOADING` spins on. -/
theorem spin_step {b : OverlayBackend} {sh : Shared} {cl : ClientState} (hpc : cl.pc = .spin p)
    (hst : sh.states p = .loading) (event : Nat) (out : Outcome) :
    clientStep b sh cl (.handler event out) = some (sh, cl) := by
  rw [clientStep, handlerStep, hpc]
  dsimp only
  rw [hst, if_neg (by simp)]

end Service

/-- **A FAILED LOAD IS THE ONLY WAY TO STRAND A PAGE.**  For any clients, accesses,
    failures and interleaving, the pages in `LOADING` all have a loader throughout the
    run exactly when no load fails in it, and exactly then every error leaves its page
    `UNLOADED`. -/
theorem attended_iff_loads_succeed (ls : List LoadLabel) :
    (States loadStep Attended start ls ↔ Moves loadStep LoadSucceeds start ls)
      ∧ (Moves loadStep ErrorUnloads start ls ↔ Moves loadStep LoadSucceeds start ls) := by
  constructor
  · have hiff : Moves loadStep LoadSucceeds start ls
        ↔ Moves loadStep (fun _ _ s' => Attended s') start ls :=
      moves_iff (m := loadStep) (I := fun s => LoaderInv s ∧ Attended s)
        (fun s l s' h hs => succeeds_iff_attended h.1 h.2 hs)
        (fun s l s' h hs hok => ⟨loaderInv_step h.1 hs, attended_step h.2 hs hok⟩)
        ⟨loaderInv_start, attended_start⟩
    exact ⟨fun h => hiff.mpr h.2, fun h => ⟨attended_start, hiff.mp h⟩⟩
  · have hiff : Moves loadStep LoadSucceeds start ls
        ↔ Moves loadStep ErrorUnloads start ls :=
      moves_iff (m := loadStep) (I := LoaderInv) (fun s l s' h hs => succeeds_iff_unloads h hs)
        (fun s l s' h hs _ => loaderInv_step h hs) loaderInv_start
    exact hiff.symm

/-! ## A load that fails -/

/-- A template of one page that its layer does not have. -/
def emptyBackend : OverlayBackend where
  pageSize := 4096
  pageCount := 1
  layers := [⟨"base", .zeros 4096, [0]⟩]

/-- Client 0 reads the page and its backend read fails; then client 1 reads it. -/
def failedLoad : List LoadLabel :=
  [⟨emptyBackend, 0, .access 0 (.read 0 0)⟩, ⟨emptyBackend, 0, .handler 0 .ok⟩,
    ⟨emptyBackend, 0, .handler 0 .ok⟩, ⟨emptyBackend, 0, .handler 0 .ok⟩,
    ⟨emptyBackend, 1, .access 0 (.read 0 0)⟩, ⟨emptyBackend, 1, .handler 0 .ok⟩,
    ⟨emptyBackend, 1, .handler 0 .ok⟩]

/-- The first client has returned its error, the page is in `LOADING` without a loader,
    and the second client spins whatever it does next. -/
theorem failed_load_strands :
    ∃ s, exec loadStep start failedLoad = some s
      ∧ (s.clients 0).pc = .exited ∧ s.shared.states 0 = .loading ∧ ¬ Attended s
      ∧ (s.clients 1).pc = .spin 0
      ∧ ∀ event out, clientStep emptyBackend s.shared (s.clients 1) (.handler event out)
          = some (s.shared, s.clients 1) := by
  have hrun : exec loadStep start failedLoad
      = some ((exec loadStep start failedLoad).getD start) := rfl
  refine ⟨_, hrun, rfl, rfl, ?_, rfl, spin_step rfl rfl⟩
  intro h
  obtain ⟨c, hc⟩ := h 0 rfl
  by_cases h0 : c = 0
  · subst h0
    cases hc
  · by_cases h1 : c = 1
    · subst h1
      cases hc
    · rw [idle_client ?_ hrun] at hc
      · cases hc
      · intro l hl
        have hwho : l.client = 0 ∨ l.client = 1 := by
          simp only [failedLoad, List.mem_cons, List.not_mem_nil, or_false] at hl
          rcases hl with rfl | rfl | rfl | rfl | rfl | rfl | rfl <;> simp
        omega

end LoadFailure
