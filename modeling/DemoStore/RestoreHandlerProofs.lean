import DemoStore.GuestMemoryProofs
import DemoStore.MachineRunProofs
import DemoStore.RestoreRangeProofs

/-! # The restore handler and the vCPUs

    `handler_loop` and `handle_wp_fault` of `template_memory.rs` as a state
    machine: a program counter says which system call, backend read or page
    state change comes next, and one label is one such step.  The vCPUs run
    against it: an access that the mapping allows takes effect, any other
    queues a fault and blocks its thread until the handler wakes it.  The
    thread in `restore_by_uffd` waits for the handler to be ready, looks once
    for a result, and then lets the vCPUs run.

    The handler's outside choices are in its label: which pending event it
    reads, and whether the system call of this step succeeds, has to be
    repeated, or fails.  An event stays pending until it is read, also when its
    thread was woken in between.  The returns of `Ok` (stop event, hang-up, end
    of file) and the log lines are left out: they are the end of a restore, not
    a part of it. -/

namespace RestoreHandler

open GuestMemory RestoreRange MachineRun

/-! ## States -/

/-- `PageState`: the state of a page. -/
inductive PageState where
  | unloaded
  | loading
  | sharedReady
  | privateDirty
  deriving DecidableEq

/-- A fault that the kernel reports. -/
structure FaultEvent where
  addr : Nat
  wp : Bool

/-- A vCPU of the guest. -/
inductive Vcpu where
  | running
  | blocked (acc : Access)
  | woken (acc : Access)

/-- What the handler does next.  From `acquire` on it is in `handle_wp_fault`;
    `n` is `newly_dirty_pages`, `snap` the local `snapshot`. -/
inductive HandlerPc where
  | setup
  | waiting
  | claim (f : TemplateFault)
  | spin (f : TemplateFault)
  | readPage (f : TemplateFault)
  | copyPage (f : TemplateFault) (buf : Nat → UInt8)
  | storeShared (f : TemplateFault) (present : Bool)
  | wakePage (f : TemplateFault)
  | acquire (f : TemplateFault) (ch : TemplateCowChunk) (k : Nat)
      (acquired : List (Nat × PageState))
  | load (ch : TemplateCowChunk) (n : Nat) (todo : List Nat)
  | install (ch : TemplateCowChunk) (n i : Nat) (buf : Nat → UInt8) (todo : List Nat)
  | snapshot (ch : TemplateCowChunk) (n : Nat)
  | unprotect (ch : TemplateCowChunk) (n : Nat) (snap : Nat → UInt8)
  | remap (ch : TemplateCowChunk) (n : Nat) (snap : Nat → UInt8)
  | copyBack (ch : TemplateCowChunk) (n : Nat) (snap : Nat → UInt8)
  | mark (ch : TemplateCowChunk) (n k : Nat)
  | wakeChunk (ch : TemplateCowChunk)
  | exited

/-- Where `restore_by_uffd` is: in `ready_rx.recv`, before `result_rx.try_recv`,
    done with the vCPUs running, or failed. -/
inductive VmmPhase where
  | awaitReady
  | checkResult
  | running
  | failed
  deriving DecidableEq

/-- `states` is the `state` of every page's metadata. -/
structure RestoreState where
  memory : Memory
  states : Nat → PageState
  pc : HandlerPc
  pagesServed : Nat
  pagesDirtied : Nat
  events : List FaultEvent
  vcpus : List Vcpu
  ready : Bool
  phase : VmmPhase

/-- Before the handler is set up. -/
def start (n : Nat) : RestoreState where
  memory := .start
  states := fun _ => .unloaded
  pc := .setup
  pagesServed := 0
  pagesDirtied := 0
  events := []
  vcpus := List.replicate n .running
  ready := false
  phase := .awaitReady

/-- How a system call ends. -/
inductive Outcome where
  | ok
  | again
  | fail
  deriving DecidableEq

/-- The steps of a restore. -/
inductive RestoreLabel where
  | vcpu (i : Nat) (acc : Access)
  | retry (i : Nat)
  | handler (event : Nat) (out : Outcome)
  | vmm

/-! ## The handler -/

namespace RestoreState

/-- The handler moves on. -/
def goto (pc : HandlerPc) (s : RestoreState) : RestoreState := { s with pc := pc }

@[simp] theorem goto_pc (pc : HandlerPc) (s : RestoreState) : (s.goto pc).pc = pc := rfl

/-- Sets the state of a page. -/
def setState (i : Nat) (p : PageState) (s : RestoreState) : RestoreState :=
  { s with states := fun j => if j = i then p else s.states j }

/-- One more page is served. -/
def serve (s : RestoreState) : RestoreState := { s with pagesServed := s.pagesServed + 1 }

/-- A change of the memory. -/
def onMemory (g : Memory → Memory) (s : RestoreState) : RestoreState :=
  { s with memory := g s.memory }

end RestoreState

/-- `UFFDIO_WAKE` for these addresses. -/
def Vcpu.wake (addr len : Nat) : Vcpu → Vcpu
  | .blocked acc => if Within addr len acc.addr then .woken acc else .blocked acc
  | v => v

/-- Whoever is blocked anywhere resumes when the descriptor is closed. -/
def Vcpu.resume : Vcpu → Vcpu
  | .blocked acc => .woken acc
  | v => v

/-- `UFFDIO_WAKE`, and the wake of a successful `UFFDIO_COPY`. -/
def RestoreState.wake (addr len : Nat) (s : RestoreState) : RestoreState :=
  { s with vcpus := s.vcpus.map (Vcpu.wake addr len) }

@[simp] theorem RestoreState.wake_pc (addr len : Nat) (s : RestoreState) :
    (s.wake addr len).pc = s.pc := rfl

/-- `handler_loop` returns an error: the thread sends it on `result_tx` and ends,
    which drops the `userfaultfd`. -/
def RestoreState.exit (s : RestoreState) : RestoreState :=
  { s with
    pc := .exited
    memory := s.memory.release
    vcpus := s.vcpus.map Vcpu.resume }

/-- `copy_wp`: a present page gives `EEXIST` and stays as it is. -/
def RestoreState.copyWp (addr len : Nat) (buf : Nat → UInt8) (s : RestoreState) :
    RestoreState :=
  if s.memory.mapping addr = .absent then
    (s.onMemory (Memory.copyWp addr len buf)).wake addr len
  else s

/-- `read_page` from the offset in the page's metadata; an index out of range
    would panic. -/
def readPage (b : TemplateRestoreBackend) (file : Nat → UInt8) (i : Nat) :
    Option (Nat → UInt8) :=
  b.pages[i]?.map fun offset j => file (offset + j)

/-- The address `handle_wp_fault` computes for the page `i` of its chunk. -/
def chunkPageAddr (ch : TemplateCowChunk) (i : Nat) : Nat :=
  ch.startAddr + (i - ch.firstPageIndex) * ch.pageSize

/-- An event: locate it, then either `handle_wp_fault` up to its first page or
    the `compare_exchange` of the missing path. -/
def dispatch (b : TemplateRestoreBackend) (bufLen : Nat) (ev : FaultEvent)
    (s : RestoreState) : RestoreState :=
  match b.locateFault ev.addr with
  | none => s.exit
  | some f =>
    if ev.wp then
      match b.cowChunkForFault f with
      | none => s.exit
      | some ch => if bufLen < ch.pageSize then s.exit else s.goto (.acquire f ch 0 [])
    else s.goto (.claim f)

/-- The `compare_exchange` of the missing path. -/
def claimPage (f : TemplateFault) (s : RestoreState) : RestoreState :=
  match s.states f.pageIndex with
  | .unloaded => (s.setState f.pageIndex .loading).goto (.readPage f)
  | .loading => s.goto (.spin f)
  | .sharedReady => s.goto (.wakePage f)
  | .privateDirty => s.goto (.wakePage f)

/-- One page of the first loop of `handle_wp_fault`, or what follows the loop. -/
def acquirePage (f : TemplateFault) (ch : TemplateCowChunk) (k : Nat)
    (acquired : List (Nat × PageState)) (s : RestoreState) : RestoreState :=
  let i := ch.firstPageIndex + k
  if k < ch.pageCount then
    match s.states i with
    | .unloaded =>
      (s.setState i .loading).goto (.acquire f ch (k + 1) (acquired ++ [(i, .unloaded)]))
    | .sharedReady =>
      (s.setState i .loading).goto (.acquire f ch (k + 1) (acquired ++ [(i, .sharedReady)]))
    | .loading => s
    | .privateDirty => s.goto (.acquire f ch (k + 1) acquired)
  else if acquired = [] then s.goto (.wakePage f)
  else
    s.goto (.load ch acquired.length ((acquired.filter fun p => p.2 = .unloaded).map Prod.fst))

/-- `fail` is a step whose backend read or system call reports an error that the
    code returns. -/
def handlerStep (b : TemplateRestoreBackend) (file : Nat → UInt8) (bufLen : Nat)
    (s : RestoreState) (event : Nat) (out : Outcome) : Option RestoreState :=
  match s.pc with
  | .setup =>
    if out = .fail then some s.exit else some { s with pc := .waiting, ready := true }
  | .waiting =>
    if out = .fail then some s.exit
    else s.events[event]?.map fun ev =>
      dispatch b bufLen ev { s with events := s.events.eraseIdx event }
  | .claim f => some (claimPage f s)
  | .spin f =>
    match s.states f.pageIndex with
    | .sharedReady => some (s.goto (.wakePage f))
    | .privateDirty => some (s.goto (.wakePage f))
    | _ => some s
  | .readPage f =>
    if out = .fail then some s.exit
    else (readPage b file f.pageIndex).map fun buf => s.goto (.copyPage f buf)
  | .copyPage f buf =>
    match out with
    | .fail => some s.exit
    | .again => some s
    | .ok =>
      some ((s.copyWp f.pageAddr f.pageSize buf).goto
        (.storeShared f (s.memory.mapping f.pageAddr ≠ .absent)))
  | .storeShared f present =>
    let s := (s.setState f.pageIndex .sharedReady).serve
    -- on `EEXIST` nothing has woken the page yet
    some (s.goto (if present then .wakePage f else .waiting))
  | .wakePage f =>
    -- a failed `UFFDIO_WAKE` is only logged here
    let s := s.goto .waiting
    some (if out = .fail then s else s.wake f.pageAddr f.pageSize)
  | .acquire f ch k acquired => some (acquirePage f ch k acquired s)
  | .load ch n [] => some (s.goto (.snapshot ch n))
  | .load ch n (i :: todo) =>
    if out = .fail then some s.exit
    else (readPage b file i).map fun buf => s.goto (.install ch n i buf todo)
  | .install ch n i buf todo =>
    match out with
    | .fail => some s.exit
    | .again => some s
    | .ok =>
      some ((s.copyWp (chunkPageAddr ch i) ch.pageSize buf).serve.goto (.load ch n todo))
  | .snapshot ch n =>
    -- reading an absent address would block the handler on its own fault
    if (List.range ch.len).all fun j => s.memory.mapping (ch.startAddr + j) ≠ .absent then
      some (s.goto (.unprotect ch n fun j => s.memory.bytes (ch.startAddr + j)))
    else none
  | .unprotect ch n snap =>
    if out = .fail then some s.exit
    else some ((s.onMemory (Memory.unprotect ch.startAddr ch.len)).goto (.remap ch n snap))
  | .remap ch n snap =>
    if out = .fail then some s.exit
    else some ((s.onMemory (Memory.mmapFixed ch.startAddr ch.len)).goto (.copyBack ch n snap))
  | .copyBack ch n snap =>
    some ((s.onMemory (Memory.copyIn ch.startAddr ch.len snap)).goto (.mark ch n 0))
  | .mark ch n k =>
    if k < ch.pageCount then
      some ((s.setState (ch.firstPageIndex + k) .privateDirty).goto (.mark ch n (k + 1)))
    else some { s with pc := .wakeChunk ch, pagesDirtied := s.pagesDirtied + n }
  | .wakeChunk ch =>
    if out = .fail then some s.exit
    else some ((s.goto .waiting).wake ch.startAddr ch.len)
  | .exited => none

/-! ## The vCPUs and the whole machine -/

/-- An access of vCPU `i`: it takes effect, or it queues a fault and blocks. -/
def access (i : Nat) (acc : Access) (s : RestoreState) : RestoreState :=
  if (s.memory.mapping acc.addr).allows acc then
    { s.onMemory (Memory.perform acc) with vcpus := s.vcpus.set i .running }
  else
    { s with
      vcpus := s.vcpus.set i (.blocked acc)
      events := s.events ++ [⟨acc.addr, decide (s.memory.mapping acc.addr = .writeProtected)⟩] }

/-- The address is guest memory that was restored. -/
def Registered (b : TemplateRestoreBackend) (a : Nat) : Prop :=
  ∃ r ∈ b.ranges, r.Contains a

instance (b : TemplateRestoreBackend) (a : Nat) : Decidable (Registered b a) :=
  List.decidableBEx _ b.ranges

/-- The access that vCPU `i` is about to make with this label. -/
def attempt (b : TemplateRestoreBackend) (s : RestoreState) :
    RestoreLabel → Option (Nat × Access)
  | .vcpu i acc =>
    match s.vcpus[i]? with
    | some .running => if Registered b acc.addr then some (i, acc) else none
    | _ => none
  | .retry i =>
    match s.vcpus[i]? with
    | some (.woken acc) => some (i, acc)
    | _ => none
  | .handler _ _ => none
  | .vmm => none

variable {b : TemplateRestoreBackend} {s s' : RestoreState} {l : RestoreLabel} {t : RangeTable}
  {i : Nat} {acc : Access} {f : TemplateFault}

/-- A running vCPU makes a new access, a woken one the access it has waited with. -/
theorem attempt_cases (ha : attempt b s l = some (i, acc)) :
    (l = .vcpu i acc ∧ s.vcpus[i]? = some .running ∧ Registered b acc.addr)
      ∨ (l = .retry i ∧ s.vcpus[i]? = some (.woken acc)) := by
  cases l with
  | vcpu j acc' =>
    rw [attempt] at ha
    split at ha
    · rename_i hj
      split at ha
      · rename_i hreg
        cases ha
        exact .inl ⟨rfl, hj, hreg⟩
      · cases ha
    · cases ha
  | retry j =>
    rw [attempt] at ha
    split at ha
    · rename_i acc' hj
      cases ha
      exact .inr ⟨rfl, hj⟩
    · cases ha
  | handler | vmm => cases ha

/-- The thread in `restore_by_uffd`. -/
def vmmStep (s : RestoreState) : Option RestoreState :=
  match s.phase, s.ready, s.pc with
  | .awaitReady, true, _ => some { s with phase := .checkResult }
  | .awaitReady, false, .exited => some { s with phase := .failed }
  | .checkResult, _, .exited => some { s with phase := .failed }
  | .checkResult, _, _ => some { s with phase := .running }
  | _, _, _ => none

/-- A step of the restore. -/
def restoreStep (b : TemplateRestoreBackend) (file : Nat → UInt8) (bufLen : Nat)
    (s : RestoreState) : RestoreLabel → Option RestoreState
  | .handler event out => handlerStep b file bufLen s event out
  | .vmm => vmmStep s
  | l =>
    if s.phase = .running then (attempt b s l).map fun p => access p.1 p.2 s else none

/-- The restore of a range table; the buffer is as long as the largest page. -/
def restore (t : RangeTable) (file : Nat → UInt8) (basePageSize : Nat) :
    RestoreState → RestoreLabel → Option RestoreState :=
  restoreStep t.backend file (t.backend.maxPageSize basePageSize)

/-- The access that takes effect with this label. -/
def performed (b : TemplateRestoreBackend) (s : RestoreState) (l : RestoreLabel) :
    Option Access :=
  if s.phase = .running then
    match attempt b s l with
    | some (_, acc) => if (s.memory.mapping acc.addr).allows acc then some acc else none
    | none => none
  else none

/-- A step is one of the handler, one of the thread in `restore_by_uffd`, or an access of
    a vCPU. -/
theorem restoreStep_cases {file : Nat → UInt8} {bufLen : Nat}
    (h : restoreStep b file bufLen s l = some s') :
    (∃ event out, l = .handler event out
        ∧ handlerStep b file bufLen s event out = some s')
      ∨ (l = .vmm ∧ vmmStep s = some s')
      ∨ ((∀ event out, l ≠ .handler event out) ∧ s.phase = .running
        ∧ ∃ i acc, attempt b s l = some (i, acc) ∧ s' = access i acc s) := by
  have haccess : (if s.phase = .running then (attempt b s l).map fun p => access p.1 p.2 s
        else none) = some s' →
      s.phase = .running ∧ ∃ i acc, attempt b s l = some (i, acc) ∧ s' = access i acc s := by
    intro h
    split at h
    · rename_i hphase
      obtain ⟨p, hp, hs'⟩ := Option.map_eq_some_iff.mp h
      exact ⟨hphase, p.1, p.2, hp, hs'.symm⟩
    · cases h
  cases l with
  | handler event out => exact .inl ⟨event, out, rfl, h⟩
  | vmm => exact .inr (.inl ⟨rfl, h⟩)
  | vcpu | retry => exact .inr (.inr ⟨by simp, haccess h⟩)

theorem vmmStep_frame (hs : vmmStep s = some s') : ∃ phase, s' = { s with phase := phase } := by
  rw [vmmStep] at hs
  split at hs
  all_goals first
    | exact ⟨_, (Option.some.inj hs).symm⟩
    | cases hs

/-- An access that takes effect is one the mapping allows. -/
theorem performed_eq_some (h : performed b s l = some acc) :
    (∃ i, attempt b s l = some (i, acc)) ∧ (s.memory.mapping acc.addr).allows acc = true := by
  rw [performed] at h
  split at h
  · split at h
    · rename_i i acc' ha
      split at h
      · rename_i hok
        cases h
        exact ⟨⟨i, ha⟩, hok⟩
      · cases h
    · cases h
  · cases h

/-- A vCPU changes no mapping. -/
theorem access_mapping (i : Nat) (acc : Access) (s : RestoreState) :
    (access i acc s).memory.mapping = s.memory.mapping := by
  rw [access]
  split
  · cases acc with
    | read | write => rfl
  · rfl

/-- `handler_loop` has returned an error. -/
def RestoreState.failed (s : RestoreState) : Bool :=
  match s.pc with
  | .exited => true
  | _ => false

/-- A backend read or a system call of this step fails. -/
def RestoreLabel.fails : RestoreLabel → Bool
  | .handler _ .fail => true
  | _ => false

/-! ## Faults and chunks the handler works on -/

/-- The chunk being replaced, from the copy into `snapshot` to the copy back. -/
def HandlerPc.window : HandlerPc → Option TemplateCowChunk
  | .unprotect ch _ _ => some ch
  | .remap ch _ _ => some ch
  | .copyBack ch _ _ => some ch
  | _ => none

/-- The chunk while it is mapped but still empty. -/
def HandlerPc.hole : HandlerPc → Option TemplateCowChunk
  | .copyBack ch _ _ => some ch
  | _ => none

/-- The address is in the chunk. -/
def Covers : Option TemplateCowChunk → Nat → Prop
  | some ch, a => Within ch.startAddr ch.len a
  | none, _ => False

instance : ∀ (o : Option TemplateCowChunk) (a : Nat), Decidable (Covers o a)
  | some ch, a => inferInstanceAs (Decidable (Within ch.startAddr ch.len a))
  | none, _ => inferInstanceAs (Decidable False)

/-- The fault is at a page of the table. -/
def Located (t : RangeTable) (f : TemplateFault) : Prop :=
  ∃ r ∈ t.backend.ranges, ∃ k < r.pageCount, f = r.page k

/-- The chunk lies in a range of the table. -/
def Chunked (t : RangeTable) (ch : TemplateCowChunk) : Prop :=
  ∃ r ∈ t.backend.ranges, ∃ base, IsChunk r base ch

/-- The page is in the chunk. -/
def InChunk (ch : TemplateCowChunk) (i : Nat) : Prop :=
  ch.firstPageIndex ≤ i ∧ i < ch.firstPageIndex + ch.pageCount

theorem located_of_registered {a : Nat} (ha : Registered t.backend a) :
    ∃ f, t.backend.locateFault a = some f ∧ Located t f := by
  obtain ⟨r, hr, hra⟩ := ha
  exact ⟨_, RangeTable.locateFault_of_contains hr hra, r, hr, _,
    (RangeTable.aligned_of_mem hr).page_index_lt hra, rfl⟩

theorem chunked_of_located (hf : Located t f) (basePageSize : Nat) :
    ∃ ch, t.backend.cowChunkForFault f = some ch ∧ Chunked t ch
      ∧ ch.pageSize ≤ t.backend.maxPageSize basePageSize := by
  obtain ⟨r, hr, k, hk, rfl⟩ := hf
  obtain ⟨base, ch, hfind, hch⟩ := RangeTable.cowChunkForFault_page hr hk
  refine ⟨ch, hfind, ⟨r, hr, base, hch⟩, ?_⟩
  rw [hch.size]
  exact TemplateRestoreBackend.pageSize_le_max hr basePageSize

/-- The buffer of a located fault is the snapshot of its page. -/
theorem readPage_located (hf : Located t f) (file : Nat → UInt8) :
    ∃ buf, readPage t.backend file f.pageIndex = some buf
      ∧ ∀ j < f.pageSize, buf j = t.image file (f.pageAddr + j) := by
  obtain ⟨r, hr, k, hk, rfl⟩ := hf
  refine ⟨fun j => file ((r.page k).backendOffset + j), ?_, fun j hj => ?_⟩
  · rw [readPage, RangeTable.pages_page hr hk]
    rfl
  · exact (RangeTable.image_page hr hk hj file).symm

/-- The same for the pages of a chunk. -/
theorem readPage_chunk {ch : TemplateCowChunk} (hch : Chunked t ch) (hi : InChunk ch i)
    (file : Nat → UInt8) :
    ∃ buf, readPage t.backend file i = some buf
      ∧ ∀ j < ch.pageSize, buf j = t.image file (chunkPageAddr ch i + j) := by
  obtain ⟨r, hr, base, hchunk⟩ := hch
  obtain ⟨hlo, hhi⟩ := hi
  have hpage := hchunk.page_eq (i - ch.firstPageIndex)
  have hfits := hchunk.fits
  have hloc : Located t (r.page (base + (i - ch.firstPageIndex))) := ⟨r, hr, _, by omega, rfl⟩
  obtain ⟨buf, hread, hbuf⟩ := readPage_located hloc file
  refine ⟨buf, ?_, fun j hj => ?_⟩
  · rw [← hread, ← hpage.2, Nat.add_sub_cancel' hlo]
  · rw [chunkPageAddr, hpage.1]
    exact hbuf j (by rw [hchunk.size] at hj; exact hj)

end RestoreHandler
