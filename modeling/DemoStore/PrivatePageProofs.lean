import DemoStore.SharedPagesProofs

/-! # The private page of `uffd-cow`

    A write-protect fault should give the process a private copy of the shared page.  The
    handler maps the private page at the address of the shared one and then copies from that
    address, so it copies the new page onto itself.

    From the `mmap` on the page is the one the handler mapped, changed by the writes of the
    process and by nothing else (`replaced_move`), so it starts from zeros instead of from
    the old content.  The bytes where this shows are those that were not zero and that the
    process has not overwritten. -/

namespace UffdCow

open MachineRun List
open TemplateClient (View Access Effect Outcome effect memfd_of_through own_of_effect)
open Function (update update_eq_self update_of_ne update_self)

/-! ## A page under writes -/

/-- The page after a write of one byte. -/
def putByte (page : List UInt8) (w : Nat × UInt8) : List UInt8 := page.set w.1 w.2

/-- The page after writes, in order. -/
def afterWrites (page : List UInt8) (ws : List (Nat × UInt8)) : List UInt8 :=
  ws.foldl putByte page

/-- **THE SAME WRITES** make two pages equal exactly if they agree wherever nothing is
    written. -/
theorem afterWrites_eq_iff {a b : List UInt8} (hlen : a.length = b.length)
    (ws : List (Nat × UInt8)) :
    afterWrites a ws = afterWrites b ws ↔ ∀ j < a.length, j ∉ ws.map Prod.fst → a[j]? = b[j]? := by
  induction ws generalizing a b with
  | nil =>
    constructor
    · intro h j _ _
      have hab : a = b := h
      rw [hab]
    · intro h
      show a = b
      apply ext_getElem?
      intro j
      by_cases hj : j < a.length
      · exact h j hj not_mem_nil
      · rw [getElem?_eq_none (by omega), getElem?_eq_none (by omega)]
  | cons w ws ih =>
    have hlen' : (putByte a w).length = (putByte b w).length := by
      rw [putByte, putByte, length_set, length_set, hlen]
    show afterWrites (putByte a w) ws = afterWrites (putByte b w) ws ↔ _
    rw [ih hlen', putByte, putByte, length_set]
    refine forall_congr' fun j => forall_congr' fun hj => ?_
    rw [map_cons, mem_cons, not_or]
    by_cases hw : j = w.1
    · -- the byte just written is the same in both
      subst hw
      rw [getElem?_set_self hj, getElem?_set_self (hlen ▸ hj)]
      exact ⟨fun _ h => absurd rfl h.1, fun _ _ => rfl⟩
    · rw [getElem?_set_ne (Ne.symm hw), getElem?_set_ne (Ne.symm hw)]
      exact ⟨fun h hmem => h hmem.2, fun h hmem => h ⟨hw, hmem⟩⟩

/-! ## The writes of a process -/

/-- The byte an access writes to page `p`. -/
def writeTo (p : Nat) : Access → Option (Nat × UInt8)
  | .read _ _ => none
  | .write q j x => if q = p then some (j, x) else none

/-- The write of process `c` to page `p` that takes effect with this step. -/
def wroteTo (c p : Nat) (s : SystemState) (l : Nat × ProcessLabel) : Option (Nat × UInt8) :=
  if l.1 = c then (seen s.region (s.processes c) l.2).bind fun q => writeTo p q.1 else none

/-- The content of a private page. -/
def privatePage : View → List UInt8
  | .anonymous page => page
  | .unmapped => []
  | .shared _ => []

/-- The handler of process `c` has read a write-protect fault on page `p`, which is loaded
    with the content `old` and not private there, and is about to map the private page. -/
structure CowFault (s : SystemState) (c p : Nat) (old : List UInt8) : Prop where
  dispatched : (s.processes c).pc = .mmap p
  shared : (s.processes c).views p = .shared true
  loaded : s.region.states p = .loaded
  content : s.region.memfd p = some old
  size : old.length = pageSize

/-- A process whose handler has mapped a private page over page `p`. -/
structure Replaced (p : Nat) (pr : Process) : Prop where
  anonymous : ∃ page, pr.views p = .anonymous page
  once : pr.pc ≠ .mmap p
  marked : pr.isPrivate p = true ∨ pr.pc = .memcpy p ∨ pr.pc = .setPrivate p

section Steps

variable {file : TestFile} {r r' : Region} {pr pr' : Process} {s s' : SystemState} {c p event : Nat}
  {acc : Access}

theorem writeTo_of_ne (h : acc.page ≠ p) : writeTo p acc = none := by
  cases acc with
  | read q j => rfl
  | write q j x => exact if_neg h

/-- What an access leaves on its page. -/
theorem apply_eq (acc : Access) (page : List UInt8) :
    acc.apply page = afterWrites page (writeTo acc.page acc).toList := by
  cases acc with
  | read q j => rfl
  | write q j x =>
    show page.set j x = afterWrites page (if q = q then some (j, x) else none).toList
    rw [if_pos rfl]
    rfl

/-- What the writes of one step make of a private page. -/
def Advances (p : Nat) (r : Region) (pr : Process) (l : ProcessLabel) (pr' : Process) : Prop :=
  privatePage (pr'.views p)
    = afterWrites (privatePage (pr.views p)) ((seen r pr l).bind fun q => writeTo p q.1).toList

variable {l : ProcessLabel}

/-- A step that leaves the view alone and writes nothing to the page. -/
theorem advances_of_same (hview : pr'.views p = pr.views p)
    (hwrite : ((seen r pr l).bind fun q => writeTo p q.1) = none) : Advances p r pr l pr' := by
  rw [Advances, hview, hwrite]
  rfl

/-- An event for a private page does not get it replaced again. -/
theorem dispatch_ne_mmap {ev : Nat × Bool} (h : pr.isPrivate p = true) :
    dispatch ev pr ≠ .mmap p := by
  rcases dispatch_cases ev pr with ⟨hd, -, -⟩ | ⟨hd, -, hnot⟩ | ⟨hd, -⟩
  · rw [hd]
    simp
  · rw [hd]
    intro hp
    cases hp
    cases h.symm.trans hnot
  · rw [hd]
    simp

/-- A process that is not at the copy or at the mark has the mark. -/
theorem Replaced.private (h : Replaced p pr) {pc : HandlerPc} (hpc : pr.pc = pc)
    (hcopy : pc ≠ .memcpy p) (hmark : pc ≠ .setPrivate p) : pr.isPrivate p = true := by
  rcases h.marked with hprivate | hat | hat
  · exact hprivate
  · exact absurd (hpc.symm.trans hat) hcopy
  · exact absurd (hpc.symm.trans hat) hmark

/-- An access to another page, or one that faults. -/
theorem replaced_elsewhere (h : Replaced p pr) (hviews : pr'.views p = pr.views p)
    (hpc : pr'.pc = pr.pc) (hprivate : pr'.isPrivate = pr.isPrivate)
    (hwrite : ((seen r pr l).bind fun q => writeTo p q.1) = none) :
    Replaced p pr' ∧ Advances p r pr l pr' := by
  refine ⟨⟨?_, ?_, ?_⟩, advances_of_same hviews hwrite⟩
  · rw [hviews]; exact h.anonymous
  · rw [hpc]; exact h.once
  · rw [hpc, hprivate]; exact h.marked

/-- **AN ACCESS** of the process changes its private page by what it writes. -/
theorem replaced_own (h : Replaced p pr) {i : Nat} {page : List UInt8}
    (ha : attempt pr l = some (i, acc))
    (he : effect (pr.views acc.page) (r.memfd acc.page) acc = .own page) :
    Replaced p ((((pr.tries acc).completes acc).setView acc.page
        (.anonymous (acc.apply page))).setThread i .running)
      ∧ Advances p r pr l ((((pr.tries acc).completes acc).setView acc.page
        (.anonymous (acc.apply page))).setThread i .running) := by
  obtain ⟨hviews, -, -, hpc, hprivate⟩ := sameMachine_records acc pr
  have hseen : ((seen r pr l).bind fun q => writeTo p q.1) = writeTo p acc := by
    rw [seen_eq ha, he]
    rfl
  by_cases hp : acc.page = p
  · subst hp
    have hview : ((((pr.tries acc).completes acc).setView acc.page
        (.anonymous (acc.apply page))).setThread i .running).views acc.page
        = .anonymous (acc.apply page) := update_self ..
    refine ⟨⟨⟨_, hview⟩, hpc ▸ h.once, ?_⟩, ?_⟩
    · show ((pr.tries acc).completes acc).isPrivate acc.page = true ∨ _
      rw [hprivate]
      exact hpc ▸ h.marked
    · rw [Advances, hview, hseen, own_of_effect he]
      exact apply_eq acc page
  · refine replaced_elsewhere h ?_ hpc hprivate (hseen.trans (writeTo_of_ne hp))
    exact (update_of_ne (Ne.symm hp) ..).trans (congrFun hviews p)

/-- A step of the handler that has nothing to do with the page. -/
theorem replaced_handler (h : Replaced p pr) {out : Outcome} (hview : pr'.views p = pr.views p)
    (honce : pr'.pc ≠ .mmap p) (hprivate : pr'.isPrivate p = true) :
    Replaced p pr' ∧ Advances p r pr (.handler event out) pr' :=
  ⟨⟨hview ▸ h.anonymous, honce, .inl hprivate⟩, advances_of_same hview rfl⟩

/-- **ONE STEP OF THE PROCESS** after its handler has mapped the private page: the page stays
    private, and only the writes of the process change it. -/
theorem replaced_move (hmove : ProcessMove file r pr l r' pr') (h : Replaced p pr)
    (hmem : r.memfd p ≠ none) : Replaced p pr' ∧ Advances p r pr l pr' := by
  have hpage := h.anonymous
  cases hmove with
  | own ha he => exact replaced_own h ha he
  | through ha he =>
    rename_i i acc page
    obtain ⟨hviews, -, -, hpc, hprivate⟩ := sameMachine_records acc pr
    have hp : acc.page ≠ p := by
      rintro rfl
      obtain ⟨page', hpage'⟩ := hpage
      rw [hpage'] at he
      cases he
    refine replaced_elsewhere h (congrFun hviews p) hpc hprivate ?_
    rw [seen_eq ha, he]
    exact writeTo_of_ne hp
  | fault ha he =>
    rename_i i acc wp
    obtain ⟨hviews, -, -, hpc, hprivate⟩ := sameMachine_tries acc pr
    refine replaced_elsewhere h (congrFun hviews p) hpc hprivate ?_
    rw [seen_eq ha, he]
    rfl
  | again => exact ⟨h, advances_of_same rfl rfl⟩
  | stopped hpc | loaded hpc =>
    exact replaced_handler h rfl (by simp) (h.private hpc (by simp) (by simp))
  | continued hpc =>
    refine replaced_handler h rfl (by simp) (h.private rfl ?_ ?_)
    · intro hat
      rw [hat] at hpc
      cases hpc
    · intro hat
      rw [hat] at hpc
      cases hpc
  | event hpc hev =>
    have hprivate := h.private hpc (by simp) (by simp)
    exact replaced_handler h rfl (dispatch_ne_mmap hprivate) hprivate
  | fileRead hpc hfile =>
    exact replaced_handler h rfl (by simp) (h.private hpc (by simp) (by simp))
  | copied hpc hview hnone =>
    rename_i event q buffer
    have hq : p ≠ q := by
      rintro rfl
      exact hmem hnone
    exact replaced_handler h (update_of_ne hq ..) (by simp)
      (h.private hpc (by simp) (by simp))
  | unprotected hpc hview =>
    rename_i event q wp
    have hq : p ≠ q := by
      rintro rfl
      obtain ⟨page, hpage⟩ := hpage
      cases hpage.symm.trans hview
    exact replaced_handler h (update_of_ne hq ..) (by simp)
      (h.private hpc (by simp) (by simp))
  | mapped hpc =>
    rename_i event q out
    have hq : p ≠ q := by
      rintro rfl
      exact h.once hpc
    exact replaced_handler h (update_of_ne hq ..) (by simp)
      (h.private hpc (by simp) (by simp))
  | copiedOnto hpc hview =>
    rename_i event q out page
    have hsame : (pr.setView q (.anonymous page)).views = pr.views := by
      rw [← hview]
      exact update_eq_self ..
    by_cases hq : q = p
    · subst hq
      exact ⟨⟨⟨page, update_self ..⟩, by simp, .inr (.inr rfl)⟩,
        advances_of_same (congrFun hsame q) rfl⟩
    · exact replaced_handler h (congrFun hsame p) (by simp)
        (h.private hpc (by simp [hq]) (by simp))
  | notCopied hpc =>
    rename_i event q out
    by_cases hq : q = p
    · subst hq
      exact ⟨⟨hpage, by simp, .inr (.inr rfl)⟩, advances_of_same rfl rfl⟩
    · exact replaced_handler h rfl (by simp) (h.private hpc (by simp [hq]) (by simp))
  | marked hpc =>
    rename_i event q out
    refine replaced_handler h rfl (by simp) ?_
    by_cases hq : p = q
    · subst hq
      exact update_self ..
    · exact (update_of_ne hq ..).trans (h.private hpc (by simp) (by simp [Ne.symm hq]))

/-! ## Runs -/

/-- The system after the `mmap`. -/
structure Owned (c p : Nat) (s : SystemState) : Prop where
  present : s.region.memfd p ≠ none
  replaced : Replaced p (s.processes c)

theorem owned_step {l : Nat × ProcessLabel} (h : Owned c p s) (hs : step file s l = some s') :
    Owned c p s' ∧ privatePage ((s'.processes c).views p)
      = afterWrites (privatePage ((s.processes c).views p)) (wroteTo c p s l).toList := by
  obtain ⟨pr', hmove, hprocesses⟩ := step_cases hs
  have hpresent := present_move hmove h.present
  by_cases hc : l.1 = c
  · subst hc
    obtain ⟨hreplaced, hpage⟩ := replaced_move hmove h.replaced h.present
    have hpr' : s'.processes l.1 = pr' := by rw [hprocesses, update_self]
    rw [hpr', wroteTo, if_pos rfl]
    exact ⟨⟨hpresent, hpr' ▸ hreplaced⟩, hpage⟩
  · have hpr' : s'.processes c = s.processes c := by
      rw [hprocesses, update_of_ne (Ne.symm hc)]
    rw [hpr', wroteTo, if_neg hc]
    exact ⟨⟨hpresent, hpr' ▸ h.replaced⟩, rfl⟩

/-- The private page right after the `mmap`. -/
theorem mapped_owned {old : List UInt8} (h : CowFault s c p old)
    (hmap : step file s (c, .handler event .ok) = some s') :
    Owned c p s' ∧ (s'.processes c).views p = .anonymous (List.replicate pageSize 0) := by
  obtain ⟨q, hq, rfl⟩ := Option.map_eq_some_iff.mp hmap
  rw [processStep, handlerStep, h.dispatched] at hq
  cases hq
  dsimp only
  rw [update_self]
  have hview : (((s.processes c).setView p (.anonymous (List.replicate pageSize 0))).goto
      (.memcpy p)).views p = .anonymous (List.replicate pageSize 0) := update_self ..
  refine ⟨⟨?_, ?_⟩, hview⟩
  · show s.region.memfd p ≠ none
    rw [h.content]
    simp
  · show Replaced p (update s.processes c _ c)
    rw [update_self]
    exact ⟨⟨_, hview⟩, by simp, .inr (.inl rfl)⟩

/-- **THE PRIVATE PAGE AFTER A RUN** is a page of zeros with the writes of the process. -/
theorem owned_run {t : SystemState} {ls : List (Nat × ProcessLabel)} (h : Owned c p s)
    (hzero : (s.processes c).views p = .anonymous (List.replicate pageSize 0))
    (hrun : exec (step file) s ls = some t) :
    (t.processes c).views p = .anonymous
      (afterWrites (List.replicate pageSize 0) (trace (step file) (wroteTo c p) s ls)) := by
  have hpage := exec_eq_foldl_trace (o := wroteTo c p) (I := Owned c p)
    (f := fun s => privatePage ((s.processes c).views p)) (fun _ _ _ => owned_step) h hrun
  have howned := inv_of_reachable ⟨ls, hrun⟩ h fun _ _ _ h hs => (owned_step h hs).1
  obtain ⟨page, hview⟩ := howned.replaced.anonymous
  rw [hview, hzero] at hpage
  rw [hview]
  exact congrArg View.anonymous hpage

end Steps

/-- **COPY-ON-WRITE.**  Once the handler has answered a write-protect fault on a loaded page,
    the private page is the old content with the writes of the process exactly if every byte
    that the process has not written was zero. -/
theorem cow_copies_iff (file : TestFile) (c p event : Nat) (old : List UInt8)
    (s s₁ t : SystemState) (ls : List (Nat × ProcessLabel)) (h : CowFault s c p old)
    (hmap : step file s (c, .handler event .ok) = some s₁)
    (hrun : exec (step file) s₁ ls = some t) :
    (t.processes c).views p
        = .anonymous (afterWrites old (trace (step file) (wroteTo c p) s₁ ls))
      ↔ ∀ j < pageSize, j ∉ (trace (step file) (wroteTo c p) s₁ ls).map Prod.fst →
          old[j]? = some 0 := by
  obtain ⟨howned, hzero⟩ := mapped_owned h hmap
  have hlen : old.length = (List.replicate pageSize (0 : UInt8)).length := by
    rw [h.size, length_replicate]
  rw [owned_run howned hzero hrun, View.anonymous.injEq, eq_comm, afterWrites_eq_iff hlen, h.size]
  refine forall_congr' fun j => forall_congr' fun hj => ?_
  rw [getElem?_replicate, if_pos hj]

/-! ## Pages of zeros and others -/

/-- Process 0 loads page 0, and process 1 writes to it; its handler takes the event. -/
def writeFault : List (Nat × ProcessLabel) :=
  load ++ [(1, .access 0 (.write 0 0 0x58)), (1, .handler 0 .ok)]

/-- A page of zeros but for its first byte. -/
def headPage : List UInt8 := 0x41 :: List.replicate (pageSize - 1) 0

/-- Another thread overwrites the only byte that is not zero, so that the page is the copy it
    should be. -/
theorem overwritten_page_copied :
    ∃ s t, exec (step fun _ => some headPage) start writeFault = some s
      ∧ exec (step fun _ => some headPage) s (List.replicate 3 (1, .handler 0 .ok)
          ++ [(1, .access 1 (.write 0 0 0x59))]) = some t
      ∧ (t.processes 1).views 0 = .anonymous (afterWrites headPage [(0, 0x59)]) := by
  refine ⟨_, _, rfl, rfl, ?_⟩
  have hfault : CowFault ((exec (step fun _ => some headPage) start writeFault).getD start) 1 0
      headPage := by
    refine ⟨rfl, rfl, rfl, rfl, ?_⟩
    rw [headPage, length_cons, length_replicate]
    decide
  refine (cow_copies_iff (fun _ => some headPage) 1 0 0 headPage _ _ _
    (List.replicate 2 (1, .handler 0 .ok) ++ [(1, .access 1 (.write 0 0 0x59))]) hfault rfl rfl).mpr ?_
  intro j hj hnot
  cases j with
  | zero => exact absurd (mem_singleton.mpr rfl) hnot
  | succ j =>
    rw [headPage, getElem?_cons_succ, getElem?_replicate, if_pos (Nat.lt_sub_of_add_lt hj)]

/-- **THE COPY IS BLANK.**  The page was full of the letter `A`; the iteration that answers
    the fault leaves a page of zeros to process 1, and a write of its own changes one byte
    of it. -/
theorem private_page_blank :
    CowFault ((exec (step testFile) start writeFault).getD start) 1 0
        (List.replicate pageSize 0x41)
      ∧ (exec (step testFile) start (writeFault ++ List.replicate 3 (1, .handler 0 .ok))).map
          (fun s => (privatePage ((s.processes 1).views 0)).take 2) = some [0, 0]
      ∧ (exec (step testFile) start (writeFault ++ List.replicate 3 (1, .handler 0 .ok)
            ++ [(1, .access 1 (.write 0 0 0x59))])).map
          (fun s => (privatePage ((s.processes 1).views 0)).take 2) = some [0x59, 0] := by
  refine ⟨⟨rfl, rfl, rfl, rfl, length_replicate⟩, ?_, ?_⟩
  · decide +kernel
  · decide +kernel

end UffdCow
