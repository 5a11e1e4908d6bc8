import DemoStore.ClientIsolationProofs

/-! # A copy-on-write that fails

    `handle_wp_fault` maps a buffer, copies the page into it, drops the write protection,
    maps a private page over the shared one and copies the page back.  Each of the system
    calls may fail, and an error ends the client's handler.

    Until the protection is dropped nothing has changed, so an error leaves the page as the
    fault found it (`step_guarded`).  The mapping that replaces the page comes after: if it
    fails, the page is the shared one without protection, and the next write of the process
    goes to the template. -/

namespace CowFailure

open TemplateClient ClientIsolation MachineRun
open Function (update update_of_ne update_self)

variable {b : OverlayBackend} {s s' : ServiceState} {sh sh' : Shared} {cl cl' cl₀ : ClientState}
  {c p : Nat}

/-! ## What a fault finds, and what should be left -/

/-- Mappings under which no write reaches the memfd: the shared page with its protection,
    which is what faults, or a private page, when another thread faulted first. -/
inductive Guarded : View → Prop where
  | shared : Guarded (.shared true)
  | anonymous (page : List UInt8) : Guarded (.anonymous page)

/-- The page is mapped as it was; a private one may have been written to. -/
inductive SameMapping : View → View → Prop where
  | shared : SameMapping (.shared true) (.shared true)
  | anonymous (page page' : List UInt8) : SameMapping (.anonymous page) (.anonymous page')

/-- The client has page `p` as before, with the same metadata. -/
structure Kept (p : Nat) (cl cl' : ClientState) : Prop where
  mapping : SameMapping (cl.views p) (cl'.views p)
  isPrivate : cl'.isPrivate p = cl.isPrivate p
  dirty : cl'.dirty p = cl.dirty p

/-- If the step is one of client `c`, it does not change page `p` of the memfd, and it is
    not a write to it. -/
def Untouched (b : OverlayBackend) (c p : Nat) (s : ServiceState) (l : Nat × ClientLabel)
    (s' : ServiceState) : Prop :=
  l.1 = c → s'.shared.memfd p = s.shared.memfd p
    ∧ ∀ q ∈ throughAccess b s.shared (s.clients c) l.2, q.1.page = p → ∃ j, q.1 = .read p j

/-- `handle_wp_fault` has not yet mapped the private page. -/
def inCow (p : Nat) : HandlerPc → Bool
  | .mapSnapshot q => q == p
  | .copySnapshot q => q == p
  | .unprotect q _ => q == p
  | .remap q _ => q == p
  | _ => false

/-- A call of `handle_wp_fault` of client `c` for page `p` that returns an error before the
    private page is there.  Between its steps `ls` has steps of other threads and clients. -/
structure FailedCow (b : OverlayBackend) (c p : Nat) (s : ServiceState)
    (ls : List (Nat × ClientLabel)) (s₁ : ServiceState) (event : Nat) (out : Outcome)
    (t : ServiceState) : Prop where
  entered : (s.clients c).pc = .mapSnapshot p
  guarded : Guarded ((s.clients c).views p)
  run : exec (serviceStep b) s ls = some s₁
  inside : States (serviceStep b) (fun s => inCow p (s.clients c).pc = true) s ls
  fails : serviceStep b s₁ (c, .handler event out) = some t
  error : (t.clients c).pc = .exited

/-! ## Steps of the threads -/

variable {v w : View} {l : ClientLabel} {acc : Access}

theorem SameMapping.refl (h : Guarded v) : SameMapping v v := by
  cases h with
  | shared => exact .shared
  | anonymous page => exact .anonymous page page

theorem SameMapping.guarded (h : SameMapping v w) : Guarded w := by
  cases h with
  | shared => exact .shared
  | anonymous page page' => exact .anonymous page'

theorem SameMapping.trans {u : View} (h : SameMapping u v) (h' : SameMapping v w) :
    SameMapping u w := by
  cases h with
  | shared => exact h'
  | anonymous page page' =>
    cases h' with
    | anonymous _ page'' => exact .anonymous page page''

theorem Guarded.mapped (h : Guarded v) : v.mapped = v := by
  cases h with
  | shared | anonymous => rfl

theorem Kept.refl (h : Guarded (cl.views p)) : Kept p cl cl := ⟨.refl h, rfl, rfl⟩

theorem Kept.trans (h : Kept p cl₀ cl) (h' : Kept p cl cl') : Kept p cl₀ cl' :=
  ⟨h.mapping.trans h'.mapping, h'.isPrivate.trans h.isPrivate, h'.dirty.trans h.dirty⟩

/-- Under a guarded mapping only reads go to the memfd. -/
theorem read_of_through (h : Guarded v) {o : Option (List UInt8)} {page : List UInt8}
    (he : effect v o acc = .through page) : acc = .read acc.page acc.offset := by
  cases h with
  | anonymous page' => cases he
  | shared =>
    cases o with
    | none => cases he
    | some page' =>
      cases acc with
      | read p j => rfl
      | write p j x => cases he

/-- **AN ACCESS** of the client leaves a guarded page as it is. -/
theorem access_guarded {i : Nat} (ha : attempt b cl l = some (i, acc))
    (hmove : ClientMove b sh cl l sh' cl') (hg : Guarded (cl.views p)) :
    cl'.pc = cl.pc ∧ Kept p cl cl' ∧ sh'.memfd p = sh.memfd p
      ∧ ∀ q ∈ throughAccess b sh cl l, q.1.page = p → ∃ j, q.1 = .read p j := by
  have hreads : ∀ q ∈ throughAccess b sh cl l, q.1.page = p → ∃ j, q.1 = .read p j := by
    intro q hq hp
    obtain ⟨r, hr, hfound⟩ := seenBy_eq_some hq
    rw [← hp] at hg ⊢
    exact ⟨_, read_of_through hg (through_of_inMemfd hfound)⟩
  cases hmove with
  | own ha' he =>
    rename_i i' acc' page
    refine ⟨rfl, ⟨?_, rfl, rfl⟩, rfl, hreads⟩
    by_cases hp : p = acc'.page
    · have hview := own_of_effect he
      rw [hp, hview]
      show SameMapping _ ((cl.setView acc'.page _).views acc'.page)
      rw [ClientState.views_setView_self]
      exact .anonymous _ _
    · show SameMapping _ ((cl.setView acc'.page _).views p)
      rw [ClientState.views_setView_of_ne hp]
      exact .refl hg
  | through ha' he =>
    rename_i i' acc' page
    by_cases hp : p = acc'.page
    · -- only a read can go through, and it puts back what it read
      subst hp
      have hread := read_of_through hg he
      have happly : acc'.apply page = page := by
        rw [hread]
        rfl
      rw [happly, Shared.setPage_same (memfd_of_through he), hg.mapped,
        ClientState.setView_same rfl]
      exact ⟨rfl, ⟨.refl hg, rfl, rfl⟩, rfl, hreads⟩
    · refine ⟨rfl, ⟨?_, rfl, rfl⟩, Shared.memfd_setPage_of_ne hp _ _, hreads⟩
      show SameMapping _ ((cl.setView acc'.page _).views p)
      rw [ClientState.views_setView_of_ne hp]
      exact .refl hg
  | fault ha' he => exact ⟨rfl, ⟨.refl hg, rfl, rfl⟩, rfl, hreads⟩
  | _ => cases ha

/-! ## Steps of the handler -/

/-- The handler will not touch the page again, or not before it has dropped the
    protection. -/
inductive Holding (p : Nat) : HandlerPc → Prop where
  | mapSnapshot : Holding p (.mapSnapshot p)
  | copySnapshot : Holding p (.copySnapshot p)
  | unprotect (snap : List UInt8) : Holding p (.unprotect p snap)
  | exited : Holding p .exited

/-- **ONE STEP WHILE THE PAGE IS GUARDED** does not touch the memfd.  The page stays as it is
    unless the step is the one that drops the protection. -/
theorem move_guarded (hmove : ClientMove b sh cl l sh' cl') (hpc : Holding p cl.pc)
    (hg : Guarded (cl.views p)) :
    (sh'.memfd p = sh.memfd p ∧ ∀ q ∈ throughAccess b sh cl l, q.1.page = p → ∃ j, q.1 = .read p j)
    ∧ (Holding p cl'.pc ∧ Kept p cl cl'
      ∨ ∃ snap, cl'.pc = .remap p snap ∧ cl'.views p = .shared false) := by
  have hat : ∀ pc, cl.pc = pc → Holding p pc := fun _ h => h ▸ hpc
  have hquiet : ∀ q ∈ (none : Option (Access × List UInt8)), q.1.page = p → ∃ j, q.1 = .read p j :=
    fun q hq => by cases hq
  cases hmove with
  | own ha he =>
    obtain ⟨hpc', hkept, hmem⟩ := access_guarded ha (.own ha he) hg
    exact ⟨hmem, .inl ⟨hpc' ▸ hpc, hkept⟩⟩
  | through ha he =>
    obtain ⟨hpc', hkept, hmem⟩ := access_guarded ha (.through ha he) hg
    exact ⟨hmem, .inl ⟨hpc' ▸ hpc, hkept⟩⟩
  | fault ha he =>
    obtain ⟨hpc', hkept, hmem⟩ := access_guarded ha (.fault ha he) hg
    exact ⟨hmem, .inl ⟨hpc' ▸ hpc, hkept⟩⟩
  | failed hwhy => exact ⟨⟨rfl, hquiet⟩, .inl ⟨.exited, ⟨.refl hg, rfl, rfl⟩⟩⟩
  | snapshotMapped hpc' =>
    cases hat _ hpc'
    exact ⟨⟨rfl, hquiet⟩, .inl ⟨.copySnapshot, ⟨.refl hg, rfl, rfl⟩⟩⟩
  | snapshotCopied hpc' hread =>
    cases hat _ hpc'
    rw [hg.mapped, ClientState.setView_same rfl]
    exact ⟨⟨rfl, hquiet⟩, .inl ⟨.unprotect _, ⟨.refl hg, rfl, rfl⟩⟩⟩
  | unprotected hpc' hview =>
    cases hat _ hpc'
    exact ⟨⟨rfl, hquiet⟩, .inr ⟨_, rfl, ClientState.views_setView_self ..⟩⟩
  | unprotectedUnmapped hpc' hview =>
    cases hat _ hpc'
    rw [hview] at hg
    cases hg
  | loaded hpc' | woke hpc' => rcases hpc' with hpc' | hpc' <;> cases hat _ hpc'
  | event hpc' | claimed hpc' | contended hpc' | spinning hpc' | read hpc' | present hpc'
  | copied hpc' | wokePresent hpc' | stored hpc' | remapped hpc' | copiedBack hpc' | marked hpc' =>
    cases hat _ hpc'

/-- **ONE STEP WITHOUT PROTECTION.**  Until the private page is mapped, or the call fails, the
    page stays shared and unprotected. -/
theorem move_unguarded (hmove : ClientMove b sh cl l sh' cl') {snap : List UInt8}
    (hpc : cl.pc = .remap p snap) (hview : cl.views p = .shared false)
    (hin : inCow p cl'.pc = true ∨ cl'.pc = .exited) :
    (cl'.pc = .remap p snap ∨ cl'.pc = .exited) ∧ cl'.views p = .shared false := by
  cases hmove with
  | own ha he =>
    rename_i i acc page
    refine ⟨.inl hpc, ?_⟩
    have hp : p ≠ acc.page := by
      intro hp
      rw [hp, own_of_effect he] at hview
      cases hview
    show (cl.setView acc.page _).views p = _
    rw [ClientState.views_setView_of_ne hp, hview]
  | through ha he =>
    rename_i i acc page
    refine ⟨.inl hpc, ?_⟩
    show (cl.setView acc.page _).views p = _
    by_cases hp : p = acc.page
    · rw [← hp, hview, ClientState.views_setView_self]
      rfl
    · rw [ClientState.views_setView_of_ne hp, hview]
  | fault ha he => exact ⟨.inl hpc, hview⟩
  | failed hwhy => exact ⟨.inr rfl, hview⟩
  | remapped hpc' => rcases hin with hin | hin <;> cases hin
  | loaded hpc' | woke hpc' => rcases hpc' with hpc' | hpc' <;> cases hpc'.symm.trans hpc
  | event hpc' | claimed hpc' | contended hpc' | spinning hpc' | read hpc' | present hpc'
  | copied hpc' | wokePresent hpc' | stored hpc' | snapshotMapped hpc' | snapshotCopied hpc'
  | unprotected hpc' | unprotectedUnmapped hpc' | copiedBack hpc' | marked hpc' =>
    cases hpc'.symm.trans hpc

/-! ## The call among the other steps -/

/-- The client as the fault found it, with the page still guarded. -/
structure Waiting (c p : Nat) (cl₀ : ClientState) (s : ServiceState) : Prop where
  holding : Holding p (s.clients c).pc
  kept : Kept p cl₀ (s.clients c)

/-- The protection is dropped and nothing has replaced the page. -/
structure Exposed (c p : Nat) (s : ServiceState) : Prop where
  remap : ∃ snap, (s.clients c).pc = .remap p snap
  view : (s.clients c).views p = .shared false

theorem waiting_step {l : Nat × ClientLabel} (hs : serviceStep b s l = some s')
    (h : Waiting c p cl₀ s) :
    Untouched b c p s l s' ∧ (Waiting c p cl₀ s' ∨ Exposed c p s') := by
  obtain ⟨cl', hmove, hclients⟩ := service_cases hs
  by_cases hc : l.1 = c
  · subst hc
    have hcl' : s'.clients l.1 = cl' := by rw [hclients, update_self]
    obtain ⟨hquiet, hnext⟩ := move_guarded hmove h.holding h.kept.mapping.guarded
    refine ⟨fun _ => hquiet, ?_⟩
    rcases hnext with ⟨hpc, hkept⟩ | ⟨snap, hpc, hview⟩
    · exact .inl ⟨hcl' ▸ hpc, hcl' ▸ h.kept.trans hkept⟩
    · exact .inr ⟨⟨snap, hcl' ▸ hpc⟩, hcl' ▸ hview⟩
  · have hcl' : s'.clients c = s.clients c := by
      rw [hclients, update_of_ne fun he => hc he.symm]
    exact ⟨fun he => absurd he hc, .inl ⟨hcl' ▸ h.holding, hcl' ▸ h.kept⟩⟩

theorem exposed_step {l : Nat × ClientLabel} (hs : serviceStep b s l = some s')
    (h : Exposed c p s) (hin : inCow p (s'.clients c).pc = true) : Exposed c p s' := by
  obtain ⟨⟨snap, hpc⟩, hview⟩ := h
  obtain ⟨cl', hmove, hclients⟩ := service_cases hs
  by_cases hc : l.1 = c
  · subst hc
    have hcl' : s'.clients l.1 = cl' := by rw [hclients, update_self]
    rw [hcl'] at hin
    obtain ⟨hpc' | hpc', hview'⟩ := move_unguarded hmove hpc hview (.inl hin)
    · exact ⟨⟨snap, hcl' ▸ hpc'⟩, hcl' ▸ hview'⟩
    · rw [hpc'] at hin
      cases hin
  · have hcl' : s'.clients c = s.clients c := by
      rw [hclients, update_of_ne fun he => hc he.symm]
    exact ⟨⟨snap, hcl' ▸ hpc⟩, hcl' ▸ hview⟩

/-- The handler of a client that has exited does nothing more. -/
theorem exited_step {l : Nat × ClientLabel} (hs : serviceStep b s l = some s')
    (hpc : (s.clients c).pc = .exited) : (s'.clients c).pc = .exited := by
  obtain ⟨q, hq, rfl⟩ := Option.map_eq_some_iff.mp hs
  show (update s.clients l.1 q.2 c).pc = .exited
  by_cases hc : c = l.1
  · subst hc
    rw [update_self]
    cases hl : l.2 with
    | handler event out =>
      rw [hl, clientStep, handlerStep, hpc] at hq
      cases hq
    | access | retry =>
      rw [hl] at hq
      obtain ⟨r, -, rfl⟩ := Option.map_eq_some_iff.mp hq
      rw [access_pc, hpc]
  · rw [update_of_ne hc, hpc]

section Call

variable {ls : List (Nat × ClientLabel)} {s₁ t : ServiceState} {event : Nat} {out : Outcome}

theorem FailedCow.start (h : FailedCow b c p s ls s₁ event out t) :
    Waiting c p (s.clients c) s :=
  ⟨h.entered ▸ .mapSnapshot, .refl h.guarded⟩

/-- Where the failing step finds the call. -/
theorem FailedCow.before (h : FailedCow b c p s ls s₁ event out t) :
    Waiting c p (s.clients c) s₁ ∨ Exposed c p s₁ := by
  have hstates : States (serviceStep b)
      (fun u => Waiting c p (s.clients c) u ∨ Exposed c p u) s ls := by
    refine states_of_inv (fun _ hI => hI) ?_ (.inl h.start) h.inside.2
    intro u l u' hI hs hin
    rcases hI with hwait | hexp
    · exact (waiting_step hs hwait).2
    · exact .inr (exposed_step hs hexp hin)
  have hlast := states_exec hstates h.run
  exact hlast

/-- After an error with the protection in place the process cannot reach the memfd through
    the page any more. -/
theorem untouched_of_exited {cl₀ : ClientState} {u : ServiceState} (hu : Waiting c p cl₀ u)
    (hpc : (u.clients c).pc = .exited) (ls' : List (Nat × ClientLabel)) :
    Moves (serviceStep b) (Untouched b c p) u ls' := by
  refine moves_of_inv (I := fun u => Waiting c p cl₀ u ∧ (u.clients c).pc = .exited) ?_ ls' u
    ⟨hu, hpc⟩ (moves_true u ls')
  rintro u l u' ⟨hwait, hpc⟩ hs -
  have hpc' := exited_step hs hpc
  obtain ⟨huntouched, hwait' | ⟨⟨snap, hremap⟩, -⟩⟩ := waiting_step hs hwait
  · exact ⟨⟨hwait', hpc'⟩, huntouched⟩
  · cases hremap.symm.trans hpc'

/-- **A FAILED COPY-ON-WRITE.**  A call of `handle_wp_fault` that returns an error before the
    private page is there leaves the page as the fault found it, and no step of the process
    then or later writes to the template through it, exactly if the failing call is not the
    `mmap` that replaces the page. -/
theorem failed_cow_protects_iff (b : OverlayBackend) (c p : Nat) (s : ServiceState)
    (ls : List (Nat × ClientLabel)) (s₁ : ServiceState) (event : Nat) (out : Outcome)
    (t : ServiceState) (h : FailedCow b c p s ls s₁ event out t) :
    (Kept p (s.clients c) (t.clients c)
      ∧ ∀ ls', Moves (serviceStep b) (Untouched b c p) s (ls ++ (c, .handler event out) :: ls'))
    ↔ ∀ snap, (s₁.clients c).pc ≠ .remap p snap := by
  constructor
  · rintro ⟨hkept, -⟩ snap hremap
    rcases h.before with hwait | hexp
    · have hholding := hwait.holding
      rw [hremap] at hholding
      cases hholding
    · -- the page is left unprotected
      obtain ⟨cl', hmove, hclients⟩ := service_cases h.fails
      have hcl' : t.clients c = cl' := by rw [hclients, update_self]
      have hview := (move_unguarded hmove hremap hexp.view (.inr (hcl' ▸ h.error))).2
      have hmapping := hkept.mapping.guarded
      rw [hcl', hview] at hmapping
      cases hmapping
  · intro hnot
    have hnexp : ¬ Exposed c p s₁ := by
      rintro ⟨⟨snap, hremap⟩, -⟩
      exact hnot snap hremap
    have hwait₁ : Waiting c p (s.clients c) s₁ := h.before.resolve_right hnexp
    -- the protection was never dropped on the way
    have hnever := states_of_last (P := fun u => ¬ Exposed c p u)
      (fun u l u' hs hin hP hexp => hP (exposed_step hs hexp hin)) h.inside.2 h.run hnexp
    have hmoves : Moves (serviceStep b) (Untouched b c p) s ls := by
      refine moves_of_inv (I := Waiting c p (s.clients c)) ?_ ls s h.start hnever.2
      intro u l u' hwait hs hP
      obtain ⟨huntouched, hnext⟩ := waiting_step hs hwait
      exact ⟨hnext.resolve_right hP, huntouched⟩
    obtain ⟨huntouched, hnext⟩ := waiting_step h.fails hwait₁
    have hwait : Waiting c p (s.clients c) t := by
      refine hnext.resolve_right ?_
      rintro ⟨⟨snap, hremap⟩, -⟩
      cases hremap.symm.trans h.error
    refine ⟨hwait.kept, fun ls' => moves_append hmoves h.run ?_⟩
    exact moves_cons h.fails huntouched (untouched_of_exited hwait h.error ls')

end Call

/-! ## A client that writes -/

/-- The state after a run of the service with one page. -/
def after (ls : List (Nat × ClientLabel)) : ServiceState :=
  (exec (serviceStep onePageBackend) start ls).getD start

variable {ls : List (Nat × ClientLabel)}

theorem exec_after (h : (exec (serviceStep onePageBackend) start ls).isSome = true) :
    exec (serviceStep onePageBackend) start ls = some (after ls) := by
  obtain ⟨s, hs⟩ := Option.isSome_iff_exists.mp h
  rw [after, hs]
  rfl

theorem exec_after_append {ls' : List (Nat × ClientLabel)}
    (h : (exec (serviceStep onePageBackend) start (ls ++ ls')).isSome = true) :
    exec (serviceStep onePageBackend) (after ls) ls' = some (after (ls ++ ls')) := by
  have hall := exec_after h
  rw [exec_append] at hall
  obtain ⟨s, hs, hrest⟩ := Option.bind_eq_some_iff.mp hall
  rw [after, hs]
  exact hrest

/-- Client 0 loads page 0 and writes to it; its handler takes the event. -/
def faultRun : List (Nat × ClientLabel) :=
  [(0, .access 0 (.read 0 0))] ++ List.replicate 5 (0, .handler 0 .ok)
    ++ [(0, .access 1 (.write 0 0 5)), (0, .handler 0 .ok)]

/-- The calls before the one that replaces the page succeed. -/
def cowRun : List (Nat × ClientLabel) := List.replicate 3 (0, .handler 0 .ok)

/-- A call on that fault which fails after `ls`. -/
theorem failedCow_after (ls : List (Nat × ClientLabel))
    (hinside : Moves (serviceStep onePageBackend)
      (fun _ _ s' => inCow 0 (s'.clients 0).pc = true) (after faultRun) ls)
    (hrun : (exec (serviceStep onePageBackend) start (faultRun ++ ls)).isSome = true)
    (hfail : (exec (serviceStep onePageBackend) start
      ((faultRun ++ ls) ++ [(0, .handler 0 .fail)])).isSome = true)
    (herror : ((after ((faultRun ++ ls) ++ [(0, .handler 0 .fail)])).clients 0).pc = .exited) :
    FailedCow onePageBackend 0 0 (after faultRun) ls (after (faultRun ++ ls)) 0 .fail
      (after ((faultRun ++ ls) ++ [(0, .handler 0 .fail)])) := by
  have hentered : ((after faultRun).clients 0).pc = .mapSnapshot 0 := by decide +kernel
  have hview : ((after faultRun).clients 0).views 0 = .shared true := by decide +kernel
  refine ⟨hentered, hview ▸ .shared, exec_after_append hrun, ⟨?_, hinside⟩, ?_, herror⟩
  · show inCow 0 ((after faultRun).clients 0).pc = true
    rw [hentered]
    rfl
  · obtain ⟨t, ht, hnil⟩ := exec_cons (exec_after_append hfail)
    rw [ht]
    exact hnil

/-- Without memory for the buffer the page stays protected. -/
theorem failed_snapshot_protects :
    Kept 0 ((after faultRun).clients 0)
      ((after ((faultRun ++ []) ++ [(0, .handler 0 .fail)])).clients 0) := by
  have hcall := failedCow_after [] trivial (by decide +kernel) (by decide +kernel)
    (by decide +kernel)
  have hnot : ∀ snap, ((after (faultRun ++ [])).clients 0).pc ≠ .remap 0 snap := by
    intro snap
    rw [show (faultRun ++ []) = faultRun from rfl, hcall.entered]
    exact fun h => by cases h
  exact ((failed_cow_protects_iff _ _ _ _ _ _ _ _ _ hcall).mpr hnot).1

/-- **THE `mmap` FAILS.**  The page is left shared and unprotected, and the next write of the
    process is in the template. -/
theorem failed_remap_exposes_template :
    FailedCow onePageBackend 0 0 (after faultRun) cowRun (after (faultRun ++ cowRun)) 0 .fail
        (after ((faultRun ++ cowRun) ++ [(0, .handler 0 .fail)]))
      ∧ ((after ((faultRun ++ cowRun) ++ [(0, .handler 0 .fail)])).clients 0).views 0
        = .shared false
      ∧ ((after ((faultRun ++ cowRun) ++ [(0, .handler 0 .fail)])).shared.memfd 0).map
          (fun page => page[0]?) = some (some 0)
      ∧ ((exec (serviceStep onePageBackend)
            (after ((faultRun ++ cowRun) ++ [(0, .handler 0 .fail)]))
            [(0, .access 2 (.write 0 0 7))]).bind
          fun s => s.shared.memfd 0).map (fun page => page[0]?) = some (some 7) := by
  refine ⟨failedCow_after cowRun ?_ ?_ ?_ ?_, ?_, ?_, ?_⟩ <;> decide +kernel

end CowFailure
