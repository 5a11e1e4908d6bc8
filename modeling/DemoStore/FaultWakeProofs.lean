import DemoStore.FaultSiteProofs
import DemoStore.LazyRestoreProofs

/-! # Who the restore handler wakes

    Each way through the handler wakes with another system call, or with none: a
    successful `UFFDIO_COPY` wakes its page, one that reports `EEXIST` does not,
    lifting the protection and `mmap` do not, and `handle_wp_fault` wakes its
    chunk only at its end.  `Owes` says which addresses the handler still has to
    wake before it may wait for the next event.  A blocked thread leaves that
    state only by being woken, so the debt is paid before it disappears. -/

namespace FaultWake

open GuestMemory RestoreRange RestoreHandler RestoreHost PageLedger FaultSite MachineRun List

/-- The addresses that are woken before the handler waits again. -/
def Owes : HandlerPc → Nat → Prop
  | .claim f, a => Within f.pageAddr f.pageSize a
  | .spin f, a => Within f.pageAddr f.pageSize a
  | .readPage f, a => Within f.pageAddr f.pageSize a
  | .copyPage f _, a => Within f.pageAddr f.pageSize a
  | .storeShared f present, a => present = true ∧ Within f.pageAddr f.pageSize a
  | .wakePage f, a => Within f.pageAddr f.pageSize a
  | .acquire f _ _ _, a => Within f.pageAddr f.pageSize a
  | .load ch _ _, a => Within ch.startAddr ch.len a
  | .install ch _ _ _ _, a => Within ch.startAddr ch.len a
  | .snapshot ch _, a => Within ch.startAddr ch.len a
  | .unprotect ch _ _, a => Within ch.startAddr ch.len a
  | .remap ch _ _, a => Within ch.startAddr ch.len a
  | .copyBack ch _ _, a => Within ch.startAddr ch.len a
  | .mark ch _ _, a => Within ch.startAddr ch.len a
  | .wakeChunk ch, a => Within ch.startAddr ch.len a
  | _, _ => False

/-- The chunk that `handle_wp_fault` is making private. -/
def HandlerPc.cowOf : HandlerPc → Option TemplateCowChunk
  | .load ch _ _ => some ch
  | .install ch _ _ _ _ => some ch
  | .snapshot ch _ => some ch
  | .unprotect ch _ _ => some ch
  | .remap ch _ _ => some ch
  | .copyBack ch _ _ => some ch
  | .mark ch _ _ => some ch
  | .wakeChunk ch => some ch
  | _ => none

theorem owes_of_cowOf {pc : HandlerPc} {ch : TemplateCowChunk} {a : Nat}
    (h : HandlerPc.cowOf pc = some ch) (ha : Within ch.startAddr ch.len a) : Owes pc a := by
  cases pc with
  | load | install | snapshot | unprotect | remap | copyBack | mark | wakeChunk =>
    cases h; exact ha
  | _ => cases h

/-- The vCPU waits for this access. -/
def Blocked (i : Nat) (acc : Access) (s : RestoreState) : Prop :=
  s.vcpus[i]? = some (.blocked acc)

/-- The vCPU will repeat this access. -/
def Woken (i : Nat) (acc : Access) (s : RestoreState) : Prop :=
  s.vcpus[i]? = some (.woken acc)

variable {event : Nat} {out : Outcome}

section Steps

variable {t : RangeTable} {file : Nat → UInt8} {bufLen : Nat} {s s' : RestoreState}
  {i : Nat} {acc : Access}

/-! ## A blocked thread stays blocked until it is woken -/

theorem getElem?_wake {v : Vcpu} (h : s.vcpus[i]? = some v) (addr len : Nat) :
    (s.wake addr len).vcpus[i]? = some (v.wake addr len) := by
  show (s.vcpus.map (Vcpu.wake addr len))[i]? = _
  rw [getElem?_map, h]
  rfl

theorem woken_wake (h : Blocked i acc s) {addr len : Nat} (ha : Within addr len acc.addr) :
    Woken i acc (s.wake addr len) := by
  rw [Woken, getElem?_wake h, Vcpu.wake, if_pos ha]

theorem wake_blocked (h : Blocked i acc s) (addr len : Nat) :
    Woken i acc (s.wake addr len) ∨ Blocked i acc (s.wake addr len) := by
  by_cases ha : Within addr len acc.addr
  · exact .inl (woken_wake h ha)
  · right
    rw [Blocked, getElem?_wake h, Vcpu.wake, if_neg ha]

/-- `copy_wp` wakes the page if it installs it. -/
theorem copyWp_blocked (h : Blocked i acc s) (addr len : Nat) (buf : Nat → UInt8) :
    Woken i acc (s.copyWp addr len buf) ∨ Blocked i acc (s.copyWp addr len buf) := by
  rw [RestoreState.copyWp]
  split
  · exact wake_blocked (s := s.onMemory (Memory.copyWp addr len buf)) h addr len
  · exact .inr h

/-- The threads that are not blocked leave a blocked one alone. -/
theorem access_blocked (h : Blocked i acc s) {b : TemplateRestoreBackend}
    {l : RestoreLabel} {p : Nat × Access} (hp : attempt b s l = some p) :
    Blocked i acc (access p.1 p.2 s) := by
  have hne : p.1 ≠ i := by
    rintro rfl
    have hattempt : attempt b s l = some (p.1, p.2) := hp
    rcases attempt_cases hattempt with ⟨-, hrun, -⟩ | ⟨-, hwoken⟩
    · cases h.symm.trans hrun
    · cases h.symm.trans hwoken
  rw [access]
  split
  · show (s.vcpus.set p.1 .running)[i]? = _
    rw [getElem?_set_ne hne]
    exact h
  · show (s.vcpus.set p.1 (.blocked p.2))[i]? = _
    rw [getElem?_set_ne hne]
    exact h

/-- Only the handler wakes. -/
theorem other_blocked (h : Blocked i acc s) {l : HostLabel}
    (hno : ∀ event out, l ≠ .run (.handler event out))
    (hstep : hostStep t.backend file bufLen s l = some s') : Blocked i acc s' := by
  cases l with
  | post | discard => cases hstep; exact h
  | run l =>
    rcases restoreStep_cases hstep with ⟨event, out, rfl, -⟩ | ⟨rfl, hvmm⟩
      | ⟨-, -, j, a, ha, rfl⟩
    · exact absurd rfl (hno event out)
    · obtain ⟨phase, rfl⟩ := vmmStep_frame hvmm
      exact h
    · exact access_blocked h ha

theorem handler_blocked (h : Blocked i acc s)
    (hmove : HandlerMove t.backend file bufLen s event out s') :
    Woken i acc s' ∨ s'.pc = .exited ∨ Blocked i acc s' := by
  cases hmove with
  | failed | refused => exact .inr (.inl rfl)
  | copied | installed => exact (copyWp_blocked h _ _ _).imp id .inr
  | wokePage | wokeChunk => exact (wake_blocked (s := s.goto .waiting) h _ _).imp id .inr
  | _ => exact .inr (.inr h)

/-! ## The debt -/

/-- The thread is blocked on an address the handler still has to wake; after an error
    nothing is owed any more, and the handler does not wait again. -/
def Owed (i : Nat) (acc : Access) (s : RestoreState) : Prop :=
  s.pc = .exited ∨ (Blocked i acc s ∧ Owes s.pc acc.addr)

theorem owed_move (hsite : Sited t s.pc) (hb : Blocked i acc s) (ho : Owes s.pc acc.addr)
    (hout : out ≠ .fail) (hmove : HandlerMove t.backend file bufLen s event out s') :
    Woken i acc s' ∨ Owed i acc s' := by
  cases hmove with
  | failed | refused => exact .inr (.inl rfl)
  | againPage | againChunk | spinning | yielded => exact .inr (.inr ⟨hb, ho⟩)
  | ready hpc | eventMissing hpc | eventWp hpc => rw [hpc] at ho; exact False.elim ho
  | wakeFailed hpc hfail => exact absurd hfail hout
  | wokePage hpc | wokeChunk hpc =>
    rw [hpc] at ho; exact .inl (woken_wake (s := s.goto .waiting) hb ho)
  | copied hpc =>
    rename_i f buf
    rw [hpc] at ho
    by_cases habs : s.memory.mapping f.pageAddr = .absent
    · -- the copy is the wake
      left
      show Woken i acc (s.copyWp f.pageAddr f.pageSize buf)
      rw [RestoreState.copyWp, if_pos habs]
      exact woken_wake (s := s.onMemory (Memory.copyWp f.pageAddr f.pageSize buf)) hb ho
    · -- `EEXIST`: the wake is still to come
      refine .inr (.inr ⟨?_, decide_eq_true habs, ho⟩)
      show Blocked i acc (s.copyWp f.pageAddr f.pageSize buf)
      rw [RestoreState.copyWp, if_neg habs]
      exact hb
  | stored hpc =>
    rw [hpc] at ho
    obtain ⟨rfl, ho⟩ := ho
    exact .inr (.inr ⟨hb, ho⟩)
  | installed hpc =>
    rename_i ch n j buf todo
    rw [hpc] at ho
    rcases copyWp_blocked hb (chunkPageAddr ch j) ch.pageSize buf with hw | hb'
    · exact .inl hw
    · exact .inr (.inr ⟨hb', ho⟩)
  | allAcquired hpc hk hne =>
    -- from the page of the event to the whole chunk
    rw [hpc] at ho hsite
    refine .inr (.inr ⟨hb, ?_⟩)
    exact page_within_chunk ⟨_, hsite.2⟩ hsite.1 (inChunk_of_fault hsite.1 hsite.2) ho
  | allPrivate hpc | claimed hpc | contended hpc | claimReady hpc | spun hpc | read hpc
  | acquired hpc | skipped hpc | loaded hpc | readChunk hpc | saved hpc | unprotected hpc
  | remapped hpc | copiedBack hpc | marked hpc | counted hpc =>
    rw [hpc] at ho; exact .inr (.inr ⟨hb, ho⟩)

end Steps

/-! ## Runs -/

/-- The thread waits for the page of the event that the first step takes, or for a
    page of a chunk that the run makes private. -/
inductive Awaits (t : RangeTable) (file : Nat → UInt8) (basePageSize : Nat)
    (s : RestoreState) (a : Nat) : List HostLabel → Prop where
  | event {event : Nat} {ev : FaultEvent} {f : TemplateFault} {out : Outcome}
      {ls : List HostLabel} (hpc : s.pc = .waiting) (hev : s.events[event]? = some ev)
      (hloc : t.backend.locateFault ev.addr = some f)
      (ha : Within f.pageAddr f.pageSize a) :
      Awaits t file basePageSize s a (.run (.handler event out) :: ls)
  | chunk {u : RestoreState} {ch : TemplateCowChunk} {ls ls' : List HostLabel}
      (hu : exec (host t file basePageSize) s ls = some u)
      (hch : HandlerPc.cowOf u.pc = some ch) (ha : Within ch.startAddr ch.len a) :
      Awaits t file basePageSize s a (ls ++ ls')

section Runs

variable {t : RangeTable} {file : Nat → UInt8} {basePageSize : Nat} {s u : RestoreState}
  {i : Nat} {acc : Access} {ls : List HostLabel}

theorem sited_exec (hs : Sited t s.pc) (h : exec (host t file basePageSize) s ls = some u) :
    Sited t u.pc :=
  states_exec (P := fun s => Sited t s.pc)
    (states_of_step (I := fun s => Sited t s.pc) (fun _ h => h)
      (fun _ _ _ h hl => sited_step h hl) hs ls) h

/-- What is owed is paid before the handler waits. -/
theorem passes_woken (hs : Sited t s.pc) (ho : Owed i acc s)
    (hok : ∀ l ∈ ls, l.fails = false)
    (hrun : exec (host t file basePageSize) s ls = some u) (hwait : u.pc = .waiting) :
    Passes (host t file basePageSize) (Woken i acc) s ls := by
  refine passes_of_owed (I := fun s => Sited t s.pc) (O := Owed i acc) ?_ hs
    (moves_of_forall hok s) hrun ho ?_
  · intro s l s' hs hl hfails ho
    refine ⟨sited_step hs hl, ?_⟩
    rcases hostStep_cases hl with ⟨event, out, rfl, hh⟩ | ⟨hno, hframe⟩
    · rcases ho with hex | ⟨hb, ho⟩
      · rw [handlerStep, hex] at hh
        cases hh
      · have hout : out ≠ .fail := by
          rintro rfl
          cases hfails
        exact owed_move hs hb ho hout (move_of_handlerStep hh)
    · right
      rcases ho with hex | ⟨hb, ho⟩
      · exact .inl (hframe.pc.trans hex)
      · exact .inr ⟨other_blocked hb hno hl, by rw [hframe.pc]; exact ho⟩
  · rintro (hex | ⟨-, ho⟩)
    · rw [hwait] at hex
      cases hex
    · rw [hwait] at ho
      exact ho

/-- A blocked thread is still blocked later on, or it was woken on the way. -/
theorem blocked_or_woken (hb : Blocked i acc s) (hok : ∀ l ∈ ls, l.fails = false)
    (hrun : exec (host t file basePageSize) s ls = some u) (hlive : u.pc ≠ .exited) :
    Blocked i acc u ∨ Passes (host t file basePageSize) (Woken i acc) s ls := by
  by_cases hu : Blocked i acc u
  · exact .inl hu
  refine .inr (passes_of_owed (I := fun _ => True)
    (O := fun s => s.pc = .exited ∨ Blocked i acc s) ?_ trivial (moves_of_forall hok s) hrun
    (.inr hb) ?_)
  · intro s l s' _ hl _ ho
    refine ⟨trivial, ?_⟩
    rcases hostStep_cases hl with ⟨event, out, rfl, hh⟩ | ⟨hno, hframe⟩
    · rcases ho with hex | hb
      · rw [handlerStep, hex] at hh
        cases hh
      · exact handler_blocked hb (move_of_handlerStep hh)
    · rcases ho with hex | hb
      · exact .inr (.inl (hframe.pc.trans hex))
      · exact .inr (.inr (other_blocked hb hno hl))
  · rintro (hex | hb')
    · exact hlive hex
    · exact hu hb'

/-- The event is read: from now on its page is owed. -/
theorem owed_of_event {ev : FaultEvent} {f : TemplateFault} {s' : RestoreState}
    (hb : Blocked i acc s) (hpc : s.pc = .waiting) (hev : s.events[event]? = some ev)
    (hloc : t.backend.locateFault ev.addr = some f) (ha : Within f.pageAddr f.pageSize acc.addr)
    (hl : host t file basePageSize s (.run (.handler event out)) = some s') : Owed i acc s' := by
  have hstep : handlerStep t.backend file (t.backend.maxPageSize basePageSize) s event out
      = some s' := hl
  rw [handlerStep, hpc] at hstep
  dsimp only at hstep
  split at hstep
  · cases hstep
    exact .inl rfl
  · rw [hev] at hstep
    cases hstep
    show Owed i acc (dispatch t.backend _ ev _)
    rw [dispatch, hloc]
    dsimp only
    split
    · split
      · exact .inl rfl
      · split
        · exact .inl rfl
        · exact .inr ⟨hb, ha⟩
    · exact .inr ⟨hb, ha⟩

end Runs

/-- **NO THREAD IS LEFT ASLEEP.**  In every run that brings the handler back to
    waiting with no failing call, a thread that was blocked on the page of the
    event, or on any page of a chunk made private on the way, has been woken. -/
theorem blocked_threads_woken (t : RangeTable) (file : Nat → UInt8) (basePageSize n : Nat)
    {s u : RestoreState} {ls : List HostLabel}
    (hs : Reachable (host t file basePageSize) (start n) s)
    (hok : ∀ l ∈ ls, l.fails = false)
    (hrun : exec (host t file basePageSize) s ls = some u) (hwait : u.pc = .waiting)
    {i : Nat} {acc : Access} (hb : Blocked i acc s)
    (hawaits : Awaits t file basePageSize s acc.addr ls) :
    Passes (host t file basePageSize) (Woken i acc) s ls := by
  have hsite : Sited t s.pc := by
    obtain ⟨ls₀, h₀⟩ := hs
    exact sited_exec (s := start n) trivial h₀
  cases hawaits with
  | event hpc hev hloc ha =>
    obtain ⟨s', hl, hrest⟩ := exec_cons hrun
    have ho := owed_of_event hb hpc hev hloc ha hl
    have hok' := fun l hl => hok l (mem_cons_of_mem _ hl)
    exact ⟨s', hl, .inr (passes_woken (sited_step hsite hl) ho hok' hrest hwait)⟩
  | chunk hu hch ha =>
    rename_i v ch ls₁ ls₂
    rw [exec_append, hu] at hrun
    have hok₁ := fun l hl => hok l (mem_append_left ls₂ hl)
    have hok₂ := fun l hl => hok l (mem_append_right ls₁ hl)
    have hlive : v.pc ≠ .exited := by
      intro hex
      rw [hex] at hch
      cases hch
    rcases blocked_or_woken hb hok₁ hu hlive with hbv | hpass
    · exact passes_append_right hu (passes_woken (sited_exec hsite hu)
        (.inr ⟨hbv, owes_of_cowOf hch ha⟩) hok₂ hrun hwait)
    · exact passes_append_left ls₂ hpass

/-! ## One page, two vCPUs -/

open LazyRestore

/-- Both vCPUs read the page before it is loaded. -/
def bothBlocked : List HostLabel :=
  [.run (.handler 0 .ok), .run .vmm, .run .vmm, .run (.vcpu 0 (.read 65536)),
    .run (.vcpu 1 (.read 65544))]

/-- The event of vCPU 0 wakes vCPU 1 as well. -/
theorem one_event_wakes_both :
    ∃ s u, exec (host onePageTable onePageFile 4096) (start 2) bothBlocked = some s
      ∧ exec (host onePageTable onePageFile 4096) s
          (List.replicate 5 (.run (.handler 0 .ok))) = some u
      ∧ u.pc = .waiting ∧ Blocked 1 (.read 65544) s
      ∧ Passes (host onePageTable onePageFile 4096) (Woken 1 (.read 65544)) s
          (List.replicate 5 (.run (.handler 0 .ok))) :=
  ⟨_, _, rfl, rfl, rfl, rfl,
    blocked_threads_woken onePageTable onePageFile 4096 2 ⟨bothBlocked, rfl⟩
      (fun _ hl => by rw [eq_of_mem_replicate hl]; rfl) rfl rfl rfl
      (.event rfl rfl rfl (by decide))⟩

end FaultWake
