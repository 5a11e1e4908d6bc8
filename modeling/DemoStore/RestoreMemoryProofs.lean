import DemoStore.RestoreHostProofs

/-! # What guest memory holds during a lazy restore

    One invariant for every rule about bytes: outside the chunk that is mapped
    but not yet filled, each present address holds a byte that the rule allows,
    the page buffer is the snapshot of the page it is for, and `snapshot` holds
    allowed bytes of its chunk.  The handler's steps keep it under any rule;
    a write of a vCPU keeps it if the rule survives the write or the address
    is outside the chunk being replaced. -/

namespace RestoreMemory

open GuestMemory RestoreRange RestoreHandler RestoreHost MachineRun List

variable {R : ByteRule} {t : RangeTable} {file : Nat → UInt8} {basePageSize : Nat}
  {s s' : RestoreState}

/-! ## The invariant -/

/-- `snap` holds allowed bytes of the chunk. -/
def SavedOk (R : ByteRule) (image : Nat → UInt8) (m : Memory) (ch : TemplateCowChunk)
    (snap : Nat → UInt8) : Prop :=
  ∀ j < ch.len, R.good (m.writes (ch.startAddr + j)) (m.base image (ch.startAddr + j)) (snap j)

/-- What the handler's locals have to do with memory. -/
def PcOk (R : ByteRule) (t : RangeTable) (file : Nat → UInt8) (m : Memory) :
    HandlerPc → Prop
  | .claim f => Located t f
  | .readPage f => Located t f
  | .copyPage f buf => ∀ j < f.pageSize, buf j = t.image file (f.pageAddr + j)
  | .acquire _ ch _ acquired => Chunked t ch ∧ ∀ p ∈ acquired, InChunk ch p.1
  | .load ch _ todo => Chunked t ch ∧ ∀ i ∈ todo, InChunk ch i
  | .install ch _ i buf todo =>
    (Chunked t ch ∧ ∀ i ∈ todo, InChunk ch i)
      ∧ ∀ j < ch.pageSize, buf j = t.image file (chunkPageAddr ch i + j)
  | .unprotect ch _ snap => SavedOk R (t.image file) m ch snap
  | .remap ch _ snap => SavedOk R (t.image file) m ch snap
  | .copyBack ch _ snap => SavedOk R (t.image file) m ch snap
  | _ => True

/-- The access a vCPU has pending is to guest memory. -/
def VcpuOk (b : TemplateRestoreBackend) : Vcpu → Prop
  | .running => True
  | .blocked acc => Registered b acc.addr
  | .woken acc => Registered b acc.addr

/-- The invariant of a restore. -/
structure Sound (R : ByteRule) (t : RangeTable) (file : Nat → UInt8) (s : RestoreState) :
    Prop where
  valued : Valued R (t.image file) (Covers s.pc.hole) s.memory
  pcOk : PcOk R t file s.memory s.pc
  live : s.pc ≠ .exited → ∀ a, s.memory.lost a = false
  events : ∀ ev ∈ s.events, Registered t.backend ev.addr
  vcpus : ∀ v ∈ s.vcpus, VcpuOk t.backend v

/-- The invariant holds at the start. -/
theorem sound_start (n : Nat) : Sound R t file (start n) where
  valued := .start
  pcOk := trivial
  live _ _ := rfl
  events _ he := by cases he
  vcpus v hv := by
    rw [eq_of_mem_replicate hv]
    trivial

/-! ## Steps that leave memory alone -/

variable {b : TemplateRestoreBackend} {pc : HandlerPc} {ch : TemplateCowChunk} {acc : Access}
  {l : RestoreLabel} {addr len a i : Nat} {v : Vcpu} {snap : Nat → UInt8}

theorem vcpuOk_map {vs : List Vcpu} {g : Vcpu → Vcpu} (hg : ∀ v, VcpuOk b v → VcpuOk b (g v))
    (h : ∀ v ∈ vs, VcpuOk b v) : ∀ v ∈ vs.map g, VcpuOk b v := by
  intro v hv
  obtain ⟨u, hu, rfl⟩ := List.mem_map.mp hv
  exact hg u (h u hu)

theorem vcpuOk_wake (h : VcpuOk b v) : VcpuOk b (v.wake addr len) := by
  cases v with
  | running | woken => exact h
  | blocked acc =>
    rw [Vcpu.wake]
    split
    · exact h
    · exact h

theorem vcpuOk_resume (h : VcpuOk b v) : VcpuOk b v.resume := by
  cases v with
  | running | woken | blocked => exact h

theorem copyWp_pc (addr len : Nat) (buf : Nat → UInt8) (s : RestoreState) :
    (s.copyWp addr len buf).pc = s.pc := by
  rw [RestoreState.copyWp]
  split
  · rfl
  · rfl

theorem ne_exited_of_settled (h : Settled pc) : pc ≠ .exited := by
  rintro rfl
  exact h

theorem hole_of_settled (h : Settled pc) : pc.hole = none := by
  cases pc with
  | copyBack ch n snap => exact False.elim h
  | _ => rfl

namespace Sound

/-- Going on to a program counter whose locals are right. -/
theorem goto (h : Sound R t file s) (hset : Settled s.pc) (hpc : PcOk R t file s.memory pc)
    (hhole : pc.hole = none) : Sound R t file (s.goto pc) where
  valued := by
    have hv := h.valued
    rw [hole_of_settled hset] at hv
    show Valued R _ (Covers pc.hole) s.memory
    rw [hhole]
    exact hv
  pcOk := hpc
  live _ := h.live (ne_exited_of_settled hset)
  events := h.events
  vcpus := h.vcpus

/-- The page states do not matter. -/
theorem setState (h : Sound R t file s) (i : Nat) (p : PageState) :
    Sound R t file (s.setState i p) :=
  ⟨h.valued, h.pcOk, h.live, h.events, h.vcpus⟩

/-- The counters do not matter. -/
theorem serve (h : Sound R t file s) : Sound R t file s.serve :=
  ⟨h.valued, h.pcOk, h.live, h.events, h.vcpus⟩

/-- A wake does not matter. -/
theorem wake (h : Sound R t file s) (addr len : Nat) : Sound R t file (s.wake addr len) :=
  ⟨h.valued, h.pcOk, h.live, h.events, vcpuOk_map (fun _ => vcpuOk_wake) h.vcpus⟩

/-- A handler may end where nothing is under way. -/
theorem exit (h : Sound R t file s) (hset : Settled s.pc) : Sound R t file s.exit where
  valued := by
    have hv := h.valued
    rw [hole_of_settled hset] at hv
    exact Valued.release hv (h.live (ne_exited_of_settled hset))
  pcOk := trivial
  live hex := absurd rfl hex
  events := h.events
  vcpus := vcpuOk_map (fun _ => vcpuOk_resume) h.vcpus

/-- `copy_wp` of a buffer that is the snapshot of its page. -/
theorem copyWp (h : Sound R t file s) {buf : Nat → UInt8} (hset : Settled s.pc)
    (hok : ∀ m, PcOk R t file m s.pc) (hbuf : ∀ j < len, buf j = t.image file (addr + j)) :
    Sound R t file (s.copyWp addr len buf) ∧ Settled (s.copyWp addr len buf).pc := by
  refine ⟨?_, by rwa [copyWp_pc]⟩
  rw [RestoreState.copyWp]
  split
  · have hmem : Sound R t file (s.onMemory (Memory.copyWp addr len buf)) :=
      ⟨h.valued.copyWp (h.live (ne_exited_of_settled hset)) hbuf, hok _, h.live, h.events, h.vcpus⟩
    exact hmem.wake addr len
  · exact h

end Sound

/-! ## One step of the handler -/

theorem inChunk_append {acquired : List (Nat × PageState)} (h : ∀ p ∈ acquired, InChunk ch p.1)
    {k : Nat} (hk : k < ch.pageCount) (p : PageState) :
    ∀ q ∈ acquired ++ [(ch.firstPageIndex + k, p)], InChunk ch q.1 := by
  intro q hq
  rcases mem_append.mp hq with hq | hq
  · exact h q hq
  · rw [mem_singleton.mp hq]
    exact ⟨Nat.le_add_right _ _, Nat.add_lt_add_left hk _⟩

section Handler

variable {event : Nat} {out : Outcome} {ev : FaultEvent}

/-- An event taken from the queue. -/
theorem Sound.take (h : Sound R t file s) (hpc : s.pc = .waiting)
    (hok : PcOk R t file s.memory pc) (hhole : pc.hole = none) :
    Sound R t file { s with events := s.events.eraseIdx event, pc := pc } := by
  have hgoto : Sound R t file (s.goto pc) := h.goto (by rw [hpc]; trivial) hok hhole
  exact ⟨hgoto.valued, hgoto.pcOk, hgoto.live,
    fun e he => h.events e (mem_of_mem_eraseIdx he), h.vcpus⟩

/-- The page of an event of the queue. -/
theorem located_of_event (h : Sound R t file s) {f : TemplateFault}
    (hev : s.events[event]? = some ev) (hloc : t.backend.locateFault ev.addr = some f) :
    Located t f := by
  obtain ⟨g, hg, hlocated⟩ := located_of_registered (h.events ev (mem_of_getElem? hev))
  cases hg.symm.trans hloc
  exact hlocated

/-- A registered address has a chunk, and its pages fit the buffer. -/
theorem not_refused (h : Sound R t file s) (hev : s.events[event]? = some ev)
    (hno : ∀ f, t.backend.locateFault ev.addr = some f → ∀ ch,
      t.backend.cowChunkForFault f = some ch →
        t.backend.maxPageSize basePageSize < ch.pageSize) : False := by
  obtain ⟨f, hf, hloc⟩ := located_of_registered (h.events ev (mem_of_getElem? hev))
  obtain ⟨ch, hfind, -, hsize⟩ := chunked_of_located hloc basePageSize
  exact Nat.not_lt.mpr hsize (hno f hf ch hfind)

/-- The four steps that touch the chunk being replaced. -/
theorem chunk_sound (snap : Nat → UInt8) (h : Sound R t file s) {n : Nat} :
    (s.pc = .snapshot ch n → (∀ j < ch.len, s.memory.mapping (ch.startAddr + j) ≠ .absent) →
        Sound R t file (s.goto (.unprotect ch n fun j => s.memory.bytes (ch.startAddr + j))))
      ∧ (s.pc = .unprotect ch n snap → Sound R t file
        ((s.onMemory (Memory.unprotect ch.startAddr ch.len)).goto (.remap ch n snap)))
      ∧ (s.pc = .remap ch n snap → Sound R t file
        ((s.onMemory (Memory.mmapFixed ch.startAddr ch.len)).goto (.copyBack ch n snap)))
      ∧ (s.pc = .copyBack ch n snap → Sound R t file
        ((s.onMemory (Memory.copyIn ch.startAddr ch.len snap)).goto (.mark ch n 0))) := by
  have hval := h.valued
  have hok := h.pcOk
  have hlive := h.live
  refine ⟨fun hpc hall => ?_, fun hpc => ?_, fun hpc => ?_, fun hpc => ?_⟩
  all_goals rw [hpc] at hval hok hlive
  -- every address of the chunk is there and none is in a hole
  · exact ⟨hval, fun j hj => hval.right _ (hall j hj) id, fun _ => hlive (by simp), h.events,
      h.vcpus⟩
  · exact ⟨hval.unprotect, hok, fun _ => hlive (by simp), h.events, h.vcpus⟩
  -- from here on the chunk is a hole
  · exact ⟨hval.mmapFixed (hlive (by simp)), hok, fun _ => hlive (by simp), h.events, h.vcpus⟩
  · exact ⟨hval.copyIn (hlive (by simp)) hok, trivial, fun _ => hlive (by simp), h.events,
      h.vcpus⟩

/-- **THE HANDLER KEEPS MEMORY RIGHT**, under every rule. -/
theorem move_sound (h : Sound R t file s)
    (hmove : HandlerMove t.backend file (t.backend.maxPageSize basePageSize) s event out s') :
    Sound R t file s' := by
  have hok := h.pcOk
  cases hmove with
  | failed hset => exact h.exit hset
  | refused hpc hev hno => exact (not_refused h hev hno).elim
  | againPage | againChunk | spinning | yielded => exact h
  | ready hpc =>
    have hgoto : Sound R t file (s.goto .waiting) := h.goto (by rw [hpc]; trivial) trivial rfl
    exact ⟨hgoto.valued, hgoto.pcOk, hgoto.live, h.events, h.vcpus⟩
  | eventMissing hpc hev hloc hwp => exact h.take hpc (located_of_event h hev hloc) rfl
  | eventWp hpc hev hloc hwp hch =>
    obtain ⟨ch, hfind, hchunk, -⟩ := chunked_of_located (located_of_event h hev hloc) 0
    cases hfind.symm.trans hch
    exact h.take hpc ⟨hchunk, by simp⟩ rfl
  | claimed hpc =>
    rw [hpc] at hok
    exact (h.setState _ .loading).goto (by show Settled s.pc; rw [hpc]; trivial) hok rfl
  | contended hpc | claimReady hpc | spun hpc | allPrivate hpc | loaded hpc =>
    exact h.goto (by rw [hpc]; trivial) trivial rfl
  | read hpc hbuf =>
    rw [hpc] at hok
    obtain ⟨buf, hread, hright⟩ := readPage_located hok file
    cases hread.symm.trans hbuf
    exact h.goto (by rw [hpc]; trivial) hright rfl
  | copied hpc =>
    rw [hpc] at hok
    obtain ⟨hcopy, hset⟩ := h.copyWp (by rw [hpc]; trivial) (fun m => by rw [hpc]; exact hok) hok
    exact hcopy.goto hset trivial rfl
  | @stored f present hpc =>
    -- after `EEXIST` the waiters are still to be woken
    have hsound := (h.setState f.pageIndex .sharedReady).serve
    have hset : Settled s.pc := by rw [hpc]; trivial
    cases present with
    | true | false => exact hsound.goto hset trivial rfl
  | wakeFailed hpc => exact h.goto (by rw [hpc]; trivial) trivial rfl
  | wokePage hpc | wokeChunk hpc =>
    have hgoto : Sound R t file (s.goto .waiting) := h.goto (by rw [hpc]; trivial) trivial rfl
    exact hgoto.wake _ _
  | acquired hpc hk hst hp =>
    rw [hpc] at hok
    exact (h.setState _ .loading).goto (by show Settled s.pc; rw [hpc]; trivial)
      ⟨hok.1, inChunk_append hok.2 hk _⟩ rfl
  | skipped hpc => rw [hpc] at hok; exact h.goto (by rw [hpc]; trivial) hok rfl
  | allAcquired hpc =>
    -- the pages to load are among the acquired ones
    rw [hpc] at hok
    refine h.goto (by rw [hpc]; trivial) ⟨hok.1, fun i hi => ?_⟩ rfl
    obtain ⟨p, hp, rfl⟩ := List.mem_map.mp hi
    exact hok.2 p (mem_of_mem_filter hp)
  | readChunk hpc hbuf =>
    rw [hpc] at hok
    obtain ⟨hch, hin⟩ := hok
    obtain ⟨buf, hread, hright⟩ := readPage_chunk hch (hin _ mem_cons_self) file
    cases hread.symm.trans hbuf
    exact h.goto (by rw [hpc]; trivial)
      ⟨⟨hch, fun q hq => hin q (mem_cons_of_mem _ hq)⟩, hright⟩ rfl
  | installed hpc =>
    rw [hpc] at hok
    obtain ⟨hcopy, hset⟩ := h.copyWp (by rw [hpc]; trivial) (fun m => by rw [hpc]; exact hok)
      hok.2
    exact hcopy.serve.goto hset hok.1 rfl
  | saved hpc hall => exact (chunk_sound (fun _ => 0) h).1 hpc hall
  | unprotected hpc => exact (chunk_sound _ h).2.1 hpc
  | remapped hpc => exact (chunk_sound _ h).2.2.1 hpc
  | copiedBack hpc => exact (chunk_sound _ h).2.2.2 hpc
  | marked hpc =>
    exact (h.setState _ .privateDirty).goto (by show Settled s.pc; rw [hpc]; trivial) trivial rfl
  | @counted ch n k hpc =>
    have hgoto : Sound R t file (s.goto (.wakeChunk ch)) :=
      h.goto (by rw [hpc]; trivial) trivial rfl
    exact ⟨hgoto.valued, hgoto.pcOk, hgoto.live, h.events, h.vcpus⟩

/-- The handler stops only on an error. -/
theorem move_live (h : Sound R t file s) (hlive : s.pc ≠ .exited)
    (hmove : HandlerMove t.backend file (t.backend.maxPageSize basePageSize) s event out s')
    (hout : out ≠ .fail) : s'.pc ≠ .exited := by
  cases hmove with
  | failed hset hfail => exact absurd hfail hout
  | refused hpc hev hno => exact (not_refused h hev hno).elim
  | againPage | againChunk | spinning | yielded => exact hlive
  | @stored f present => cases present <;> exact HandlerPc.noConfusion
  | _ => exact HandlerPc.noConfusion

end Handler

/-! ## One step of the machine -/

/-- The rule outlives a write to an address of the chunk being replaced. -/
def Survives (R : ByteRule) (s : RestoreState) : Access → Prop
  | .read _ => True
  | .write a b => Covers s.pc.window a →
      ∀ ws x c, R.good ws x c → R.good (b :: ws) x c

/-- A write that survives keeps what is saved. -/
theorem savedOk_perform {image : Nat → UInt8} {m : Memory} (h : SavedOk R image m ch snap)
    {b : UInt8} (hsurv : Within ch.startAddr ch.len a →
      ∀ ws x c, R.good ws x c → R.good (b :: ws) x c) :
    SavedOk R image (m.perform (.write a b)) ch snap := by
  intro j hj
  show R.good (if ch.startAddr + j = a then _ else _) _ _
  split
  · rename_i heq
    exact hsurv (heq ▸ within_add hj) _ _ _ (h j hj)
  · exact h j hj

theorem pcOk_perform (h : PcOk R t file s.memory s.pc) (hsurv : Survives R s acc) :
    PcOk R t file (s.memory.perform acc) s.pc := by
  cases acc with
  | read a => exact h
  | write a b =>
    rw [Survives] at hsurv
    revert h hsurv
    cases s.pc with
    | unprotect ch n snap | remap ch n snap | copyBack ch n snap =>
      exact fun h hsurv => savedOk_perform h hsurv
    | _ => exact fun h _ => h

theorem perform_lost (m : Memory) (acc : Access) : (m.perform acc).lost = m.lost := by
  cases acc <;> rfl

/-- An access that survives keeps the invariant. -/
theorem access_sound (h : Sound R t file s) (hreg : Registered t.backend acc.addr)
    (hsurv : (s.memory.mapping acc.addr).allows acc = true → Survives R s acc) :
    Sound R t file (access i acc s) := by
  rw [access]
  split
  · rename_i hok
    refine ⟨h.valued.perform hok, pcOk_perform h.pcOk (hsurv hok), fun hne a => ?_,
      h.events, fun v hv => ?_⟩
    · show (s.memory.perform acc).lost a = false
      rw [perform_lost]
      exact h.live hne a
    · rcases mem_or_eq_of_mem_set hv with hv | rfl
      · exact h.vcpus v hv
      · trivial
  · refine ⟨h.valued, h.pcOk, h.live, fun ev hev => ?_, fun v hv => ?_⟩
    · rcases mem_append.mp hev with hev | hev
      · exact h.events ev hev
      · rw [mem_singleton.mp hev]
        exact hreg
    · rcases mem_or_eq_of_mem_set hv with hv | rfl
      · exact h.vcpus v hv
      · exact hreg

/-- A vCPU only touches registered memory. -/
theorem registered_of_attempt (h : Sound R t file s) (ha : attempt t.backend s l = some (i, acc)) :
    Registered t.backend acc.addr := by
  rcases attempt_cases ha with ⟨-, -, hreg⟩ | ⟨-, hwoken⟩
  · exact hreg
  · exact h.vcpus _ (mem_of_getElem? hwoken)

/-- **ONE STEP KEEPS MEMORY RIGHT**, as long as the rule outlives the vCPU's write. -/
theorem restore_sound (h : Sound R t file s) (hs : restore t file basePageSize s l = some s')
    (hsurv : ∀ acc, performed t.backend s l = some acc → Survives R s acc) : Sound R t file s' := by
  rcases restoreStep_cases hs with ⟨event, out, rfl, hhandler⟩ | ⟨rfl, hvmm⟩
    | ⟨-, hphase, i, acc, ha, rfl⟩
  · exact move_sound h (move_of_handlerStep hhandler)
  · obtain ⟨phase, rfl⟩ := vmmStep_frame hvmm
    exact ⟨h.valued, h.pcOk, h.live, h.events, h.vcpus⟩
  · refine access_sound h (registered_of_attempt h ha) fun hok => hsurv acc ?_
    rw [performed, if_pos hphase, ha]
    exact if_pos hok

/-- A read that takes effect outside the hole finds an allowed byte. -/
theorem read_good (h : Sound R t file s) (hread : performed t.backend s l = some (.read a))
    (hhole : ¬ Covers s.pc.hole a) :
    R.good (s.memory.writes a) (s.memory.base (t.image file) a) (s.memory.bytes a) := by
  obtain ⟨-, hok⟩ := performed_eq_some hread
  refine h.valued.right a ?_ hhole
  intro habsent
  rw [show s.memory.mapping (Access.read a).addr = .absent from habsent] at hok
  cases hok

end RestoreMemory
