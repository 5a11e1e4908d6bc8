import DemoStore.RestoreHandlerProofs

/-! # The restore handler on its host

    Around the machine of `RestoreHandler` the rest of the process goes on: other
    threads than the vCPUs touch guest memory, so any event may be queued at any
    time, also one whose page is there already; and the devices give guest pages
    back to the kernel (`release_memory_range` of the balloon, the unplug of
    virtio-mem) without a word to the handler.

    Only a step of the handler moves its program counter, its page states and its
    counters: `hostStep_cases` says so once, and every invariant about them has
    only the handler's own steps to look at.  `HandlerMove` lists these, with
    what was found and what is left behind. -/

namespace RestoreHost

open GuestMemory RestoreRange RestoreHandler MachineRun Option

/-- The steps of a restore and its host. -/
inductive HostLabel where
  | run (l : RestoreLabel)
  | post (ev : FaultEvent)
  | discard (addr len : Nat)

/-- A step of either. -/
def hostStep (b : TemplateRestoreBackend) (file : Nat → UInt8) (bufLen : Nat)
    (s : RestoreState) : HostLabel → Option RestoreState
  | .run l => restoreStep b file bufLen s l
  | .post ev => some { s with events := s.events ++ [ev] }
  | .discard addr len => some (s.onMemory (Memory.discard addr len))

/-- The restore of a range table, on its host. -/
def host (t : RangeTable) (file : Nat → UInt8) (basePageSize : Nat) :
    RestoreState → HostLabel → Option RestoreState :=
  hostStep t.backend file (t.backend.maxPageSize basePageSize)

/-- A backend read or a system call of this step fails. -/
def HostLabel.fails : HostLabel → Bool
  | .run l => l.fails
  | _ => false

/-- What the handler alone changes. -/
structure HandlerFrame (s s' : RestoreState) : Prop where
  states : s'.states = s.states
  pc : s'.pc = s.pc
  served : s'.pagesServed = s.pagesServed
  dirtied : s'.pagesDirtied = s.pagesDirtied

variable {s s' : RestoreState}

/-- The VMM leaves the handler. -/
theorem vmmStep_handlerFrame (h : vmmStep s = some s') : HandlerFrame s s' := by
  obtain ⟨phase, rfl⟩ := vmmStep_frame h
  exact ⟨rfl, rfl, rfl, rfl⟩

/-- An access leaves the handler. -/
theorem access_handlerFrame (i : Nat) (acc : Access) (s : RestoreState) :
    HandlerFrame s (access i acc s) := by
  rw [access]
  split
  · exact ⟨rfl, rfl, rfl, rfl⟩
  · exact ⟨rfl, rfl, rfl, rfl⟩

/-- A step is one of the handler, or it leaves the handler alone. -/
theorem hostStep_cases {b : TemplateRestoreBackend} {file : Nat → UInt8} {bufLen : Nat}
    {l : HostLabel} (h : hostStep b file bufLen s l = some s') :
    (∃ event out, l = .run (.handler event out)
        ∧ handlerStep b file bufLen s event out = some s')
      ∨ ((∀ event out, l ≠ .run (.handler event out)) ∧ HandlerFrame s s') := by
  cases l with
  | post | discard =>
    cases h
    exact .inr ⟨(fun _ _ hl => by cases hl), rfl, rfl, rfl, rfl⟩
  | run l =>
    rcases restoreStep_cases h with ⟨event, out, rfl, hstep⟩ | ⟨rfl, hstep⟩
      | ⟨hno, -, i, acc, -, rfl⟩
    · exact .inl ⟨event, out, rfl, hstep⟩
    · exact .inr ⟨(fun _ _ hl => by cases hl), vmmStep_handlerFrame hstep⟩
    · exact .inr ⟨fun event out hl => hno event out (HostLabel.run.inj hl),
        access_handlerFrame i acc s⟩

/-! ## What the handler can do in one step -/

/-- Neither between `mmap` and the copy back nor gone: nothing is in a hole or lost. -/
def Settled : HandlerPc → Prop
  | .copyBack _ _ _ => False
  | .exited => False
  | _ => True

section

variable (b : TemplateRestoreBackend) (file : Nat → UInt8) (bufLen : Nat) (s : RestoreState)
  (event : Nat) (out : Outcome)

/-- The steps of `handlerStep`, from `s`.  Every error leads to `exit`; the four
    steps that change nothing are an `EAGAIN` and a page found `LOADING`. -/
inductive HandlerMove : RestoreState → Prop where
  | failed (hset : Settled s.pc) (hout : out = .fail) : HandlerMove s.exit
  /-- no range has the address, or no chunk of it fits into the buffer -/
  | refused {ev : FaultEvent} (hpc : s.pc = .waiting) (hev : s.events[event]? = some ev)
      (hno : ∀ f, b.locateFault ev.addr = some f → ∀ ch, b.cowChunkForFault f = some ch →
        bufLen < ch.pageSize) :
      HandlerMove (RestoreState.exit { s with events := s.events.eraseIdx event })
  | againPage {f : TemplateFault} {buf : Nat → UInt8} (hpc : s.pc = .copyPage f buf) : HandlerMove s
  | againChunk {ch : TemplateCowChunk} {n i : Nat} {buf : Nat → UInt8} {todo : List Nat}
      (hpc : s.pc = .install ch n i buf todo) : HandlerMove s
  | spinning {f : TemplateFault} (hpc : s.pc = .spin f) : HandlerMove s
  | yielded {f : TemplateFault} {ch : TemplateCowChunk} {k : Nat}
      {acquired : List (Nat × PageState)} (hpc : s.pc = .acquire f ch k acquired)
      (hst : s.states (ch.firstPageIndex + k) = .loading) : HandlerMove s
  | ready (hpc : s.pc = .setup) : HandlerMove { s with pc := .waiting, ready := true }
  | eventMissing {ev : FaultEvent} {f : TemplateFault} (hpc : s.pc = .waiting)
      (hev : s.events[event]? = some ev) (hloc : b.locateFault ev.addr = some f)
      (hwp : ev.wp = false) :
      HandlerMove { s with events := s.events.eraseIdx event, pc := .claim f }
  | eventWp {ev : FaultEvent} {f : TemplateFault} {ch : TemplateCowChunk}
      (hpc : s.pc = .waiting) (hev : s.events[event]? = some ev)
      (hloc : b.locateFault ev.addr = some f) (hwp : ev.wp = true)
      (hch : b.cowChunkForFault f = some ch) :
      HandlerMove { s with events := s.events.eraseIdx event, pc := .acquire f ch 0 [] }
  | claimed {f : TemplateFault} (hpc : s.pc = .claim f)
      (hst : s.states f.pageIndex = .unloaded) :
      HandlerMove ((s.setState f.pageIndex .loading).goto (.readPage f))
  | contended {f : TemplateFault} (hpc : s.pc = .claim f)
      (hst : s.states f.pageIndex = .loading) : HandlerMove (s.goto (.spin f))
  | claimReady {f : TemplateFault} (hpc : s.pc = .claim f)
      (hst : s.states f.pageIndex = .sharedReady ∨ s.states f.pageIndex = .privateDirty) :
      HandlerMove (s.goto (.wakePage f))
  | spun {f : TemplateFault} (hpc : s.pc = .spin f)
      (hst : s.states f.pageIndex = .sharedReady ∨ s.states f.pageIndex = .privateDirty) :
      HandlerMove (s.goto (.wakePage f))
  | read {f : TemplateFault} {buf : Nat → UInt8} (hpc : s.pc = .readPage f)
      (hbuf : readPage b file f.pageIndex = some buf) : HandlerMove (s.goto (.copyPage f buf))
  | copied {f : TemplateFault} {buf : Nat → UInt8} (hpc : s.pc = .copyPage f buf) :
      HandlerMove
        ((s.copyWp f.pageAddr f.pageSize buf).goto
          (.storeShared f (s.memory.mapping f.pageAddr ≠ .absent)))
  | stored {f : TemplateFault} {present : Bool} (hpc : s.pc = .storeShared f present) :
      HandlerMove
        ((s.setState f.pageIndex .sharedReady).serve.goto
          (if present then .wakePage f else .waiting))
  | wakeFailed {f : TemplateFault} (hpc : s.pc = .wakePage f) (hout : out = .fail) :
      HandlerMove (s.goto .waiting)
  | wokePage {f : TemplateFault} (hpc : s.pc = .wakePage f) :
      HandlerMove ((s.goto .waiting).wake f.pageAddr f.pageSize)
  | acquired {f : TemplateFault} {ch : TemplateCowChunk} {k : Nat} {p : PageState}
      {acquired : List (Nat × PageState)} (hpc : s.pc = .acquire f ch k acquired)
      (hk : k < ch.pageCount) (hst : s.states (ch.firstPageIndex + k) = p)
      (hp : p = .unloaded ∨ p = .sharedReady) :
      HandlerMove
        ((s.setState (ch.firstPageIndex + k) .loading).goto
          (.acquire f ch (k + 1) (acquired ++ [(ch.firstPageIndex + k, p)])))
  | skipped {f : TemplateFault} {ch : TemplateCowChunk} {k : Nat}
      {acquired : List (Nat × PageState)} (hpc : s.pc = .acquire f ch k acquired)
      (hk : k < ch.pageCount) (hst : s.states (ch.firstPageIndex + k) = .privateDirty) :
      HandlerMove (s.goto (.acquire f ch (k + 1) acquired))
  | allPrivate {f : TemplateFault} {ch : TemplateCowChunk} {k : Nat}
      (hpc : s.pc = .acquire f ch k []) (hk : ¬ k < ch.pageCount) :
      HandlerMove (s.goto (.wakePage f))
  | allAcquired {f : TemplateFault} {ch : TemplateCowChunk} {k : Nat}
      {acquired : List (Nat × PageState)} (hpc : s.pc = .acquire f ch k acquired)
      (hk : ¬ k < ch.pageCount) (hne : acquired ≠ []) :
      HandlerMove
        (s.goto (.load ch acquired.length
          ((acquired.filter fun p => p.2 = .unloaded).map Prod.fst)))
  | loaded {ch : TemplateCowChunk} {n : Nat} (hpc : s.pc = .load ch n []) :
      HandlerMove (s.goto (.snapshot ch n))
  | readChunk {ch : TemplateCowChunk} {n i : Nat} {todo : List Nat} {buf : Nat → UInt8}
      (hpc : s.pc = .load ch n (i :: todo)) (hbuf : readPage b file i = some buf) :
      HandlerMove (s.goto (.install ch n i buf todo))
  | installed {ch : TemplateCowChunk} {n i : Nat} {buf : Nat → UInt8} {todo : List Nat}
      (hpc : s.pc = .install ch n i buf todo) :
      HandlerMove ((s.copyWp (chunkPageAddr ch i) ch.pageSize buf).serve.goto (.load ch n todo))
  | saved {ch : TemplateCowChunk} {n : Nat} (hpc : s.pc = .snapshot ch n)
      (hall : ∀ j < ch.len, s.memory.mapping (ch.startAddr + j) ≠ .absent) :
      HandlerMove (s.goto (.unprotect ch n fun j => s.memory.bytes (ch.startAddr + j)))
  | unprotected {ch : TemplateCowChunk} {n : Nat} {snap : Nat → UInt8}
      (hpc : s.pc = .unprotect ch n snap) :
      HandlerMove ((s.onMemory (Memory.unprotect ch.startAddr ch.len)).goto (.remap ch n snap))
  | remapped {ch : TemplateCowChunk} {n : Nat} {snap : Nat → UInt8}
      (hpc : s.pc = .remap ch n snap) (hout : out ≠ .fail) :
      HandlerMove ((s.onMemory (Memory.mmapFixed ch.startAddr ch.len)).goto (.copyBack ch n snap))
  | copiedBack {ch : TemplateCowChunk} {n : Nat} {snap : Nat → UInt8}
      (hpc : s.pc = .copyBack ch n snap) :
      HandlerMove ((s.onMemory (Memory.copyIn ch.startAddr ch.len snap)).goto (.mark ch n 0))
  | marked {ch : TemplateCowChunk} {n k : Nat} (hpc : s.pc = .mark ch n k)
      (hk : k < ch.pageCount) :
      HandlerMove ((s.setState (ch.firstPageIndex + k) .privateDirty).goto (.mark ch n (k + 1)))
  | counted {ch : TemplateCowChunk} {n k : Nat} (hpc : s.pc = .mark ch n k)
      (hk : ¬ k < ch.pageCount) :
      HandlerMove { s with pc := .wakeChunk ch, pagesDirtied := s.pagesDirtied + n }
  | wokeChunk {ch : TemplateCowChunk} (hpc : s.pc = .wakeChunk ch) :
      HandlerMove ((s.goto .waiting).wake ch.startAddr ch.len)

end

section Moves

variable {b : TemplateRestoreBackend} {file : Nat → UInt8} {bufLen : Nat} {s s' : RestoreState}
  {event : Nat} {out : Outcome} {f : TemplateFault}

/-- A step that returns the error if its system call fails. -/
theorem move_failable {next : Option RestoreState} (hset : Settled s.pc)
    (h : (if out = .fail then some s.exit else next) = some s')
    (hnext : out ≠ .fail → next = some s' → HandlerMove b file bufLen s event out s') :
    HandlerMove b file bufLen s event out s' :=
  MachineRun.of_failable h (fun hout => .failed hset hout) hnext

/-- A `copy_wp` loop: `EAGAIN` repeats it, any other error is returned. -/
theorem move_copyLoop {next : RestoreState} (hset : Settled s.pc)
    (h : (match out with
      | .fail => some s.exit
      | .again => some s
      | .ok => some next) = some s')
    (hagain : HandlerMove b file bufLen s event out s)
    (hnext : HandlerMove b file bufLen s event out next) :
    HandlerMove b file bufLen s event out s' := by
  cases out with
  | fail => cases h; exact .failed hset rfl
  | again => cases h; exact hagain
  | ok => cases h; exact hnext

theorem move_dispatch {ev : FaultEvent} (hpc : s.pc = .waiting)
    (hev : s.events[event]? = some ev) :
    HandlerMove b file bufLen s event out
      (dispatch b bufLen ev { s with events := s.events.eraseIdx event }) := by
  rw [dispatch]
  cases hloc : b.locateFault ev.addr with
  | none => exact .refused hpc hev fun _ hf => by cases hloc.symm.trans hf
  | some f =>
    dsimp only
    split
    · rename_i hwp
      cases hch : b.cowChunkForFault f with
      | none =>
        refine .refused hpc hev fun g hg ch hc => ?_
        cases hloc.symm.trans hg
        cases hch.symm.trans hc
      | some ch =>
        dsimp only
        split
        · rename_i hbig
          refine .refused hpc hev fun g hg ch' hc => ?_
          cases hloc.symm.trans hg
          cases hch.symm.trans hc
          exact hbig
        · exact .eventWp hpc hev hloc hwp hch
    · rename_i hwp
      exact .eventMissing hpc hev hloc (Bool.eq_false_iff.mpr hwp)

theorem move_claimPage (hpc : s.pc = .claim f) :
    HandlerMove b file bufLen s event out (claimPage f s) := by
  rw [claimPage]
  split
  · rename_i hst
    exact .claimed hpc hst
  · rename_i hst
    exact .contended hpc hst
  · rename_i hst
    exact .claimReady hpc (.inl hst)
  · rename_i hst
    exact .claimReady hpc (.inr hst)

theorem move_acquirePage {ch : TemplateCowChunk} {k : Nat} {acquired : List (Nat × PageState)}
    (hpc : s.pc = .acquire f ch k acquired) :
    HandlerMove b file bufLen s event out (acquirePage f ch k acquired s) := by
  rw [acquirePage]
  split
  · rename_i hk
    split
    · rename_i hst
      exact .acquired hpc hk hst (.inl rfl)
    · rename_i hst
      exact .acquired hpc hk hst (.inr rfl)
    · rename_i hst
      exact .yielded hpc hst
    · rename_i hst
      exact .skipped hpc hk hst
  · rename_i hk
    split
    · rename_i hnil
      subst hnil
      exact .allPrivate hpc hk
    · rename_i hne
      exact .allAcquired hpc hk hne

/-- Each step of the handler is a move. -/
theorem move_of_handlerStep (h : handlerStep b file bufLen s event out = some s') :
    HandlerMove b file bufLen s event out s' := by
  rw [handlerStep] at h
  cases hpc : s.pc with
  | setup =>
    rw [hpc] at h
    refine move_failable (by rw [hpc]; trivial) h fun _ hnext => ?_
    cases hnext
    exact .ready hpc
  | waiting =>
    rw [hpc] at h
    refine move_failable (by rw [hpc]; trivial) h fun _ hnext => ?_
    obtain ⟨ev, hev, rfl⟩ := map_eq_some_iff.mp hnext
    have hmove : HandlerMove b file bufLen s event out _ := move_dispatch hpc hev
    rw [hpc] at hmove
    exact hmove
  | claim f =>
    rw [hpc] at h
    cases h
    exact move_claimPage hpc
  | spin f =>
    rw [hpc] at h
    dsimp only at h
    split at h
    · rename_i hst
      cases h
      exact .spun hpc (.inl hst)
    · rename_i hst
      cases h
      exact .spun hpc (.inr hst)
    · cases h
      exact .spinning hpc
  | readPage f =>
    rw [hpc] at h
    refine move_failable (by rw [hpc]; trivial) h fun _ hnext => ?_
    obtain ⟨buf, hbuf, rfl⟩ := map_eq_some_iff.mp hnext
    exact .read hpc hbuf
  | copyPage f buf =>
    rw [hpc] at h
    exact move_copyLoop (by rw [hpc]; trivial) h (.againPage hpc) (.copied hpc)
  | storeShared f present =>
    rw [hpc] at h
    cases h
    exact .stored hpc
  | wakePage f =>
    rw [hpc] at h
    cases h
    split
    · rename_i hout
      exact .wakeFailed hpc hout
    · exact .wokePage hpc
  | acquire f ch k acquired =>
    rw [hpc] at h
    cases h
    exact move_acquirePage hpc
  | load ch n todo =>
    rw [hpc] at h
    cases todo with
    | nil =>
      cases h
      exact .loaded hpc
    | cons i todo =>
      refine move_failable (by rw [hpc]; trivial) h fun _ hnext => ?_
      obtain ⟨buf, hbuf, rfl⟩ := map_eq_some_iff.mp hnext
      exact .readChunk hpc hbuf
  | install ch n i buf todo =>
    rw [hpc] at h
    exact move_copyLoop (by rw [hpc]; trivial) h (.againChunk hpc) (.installed hpc)
  | snapshot ch n =>
    rw [hpc] at h
    dsimp only at h
    split at h
    · rename_i hall
      cases h
      exact .saved hpc fun j hj =>
        of_decide_eq_true (List.all_eq_true.mp hall j (List.mem_range.mpr hj))
    · cases h
  | unprotect ch n snap =>
    rw [hpc] at h
    refine move_failable (by rw [hpc]; trivial) h fun _ hnext => ?_
    cases hnext
    exact .unprotected hpc
  | remap ch n snap =>
    rw [hpc] at h
    refine move_failable (by rw [hpc]; trivial) h fun hout hnext => ?_
    cases hnext
    exact .remapped hpc hout
  | copyBack ch n snap =>
    rw [hpc] at h
    cases h
    exact .copiedBack hpc
  | mark ch n k =>
    rw [hpc] at h
    dsimp only at h
    split at h
    · rename_i hk
      cases h
      exact .marked hpc hk
    · rename_i hk
      cases h
      exact .counted hpc hk
  | wakeChunk ch =>
    rw [hpc] at h
    refine move_failable (by rw [hpc]; trivial) h fun _ hnext => ?_
    cases hnext
    exact .wokeChunk hpc
  | exited => rw [hpc] at h; cases h

end Moves

end RestoreHost
