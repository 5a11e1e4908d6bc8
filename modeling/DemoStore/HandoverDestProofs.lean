import DemoStore.HandoverProofs

/-! # The receiver of a live migration

    `Progress` is what a receiver is for: it collects file descriptors, a configuration and
    memory, builds a virtual machine from them and lets it run.  `vm_receive_migration` refines
    it (`destInv_move`): as long as it has not failed, the requests it has taken lead `Progress`
    to a state that its own state, its virtual machine and its locks show, and all of them have
    been answered with `Ok` but the one it works on.  This is an invariant of the receiver alone,
    whatever the other side sends. -/

namespace Handover

open SocketStream List

variable {job : Job}

/-! ## What a receiver is for -/

/-- How far a prefix of the requests brings a receiver. -/
inductive Progress where
  | established
  | started (files : List (UInt32 × Nat))
  | configured (data : Configured)
  | restored (image : Image)
  | completed (image : Image)
  deriving DecidableEq, Repr

namespace Progress

/-- The progress after one more request. -/
def take (a : Progress) (m : Message) : Option Progress :=
  match a with
  | .established => if m.request.command = .start then some (.started []) else none
  | .started files =>
    match m.request.command, m.body with
    | .memoryFd, some (.memoryFd slot file) => some (.started (files ++ [(slot, file)]))
    | .config, some (.config bytes) => some (.configured ⟨bytes, files, []⟩)
    | _, _ => none
  | .configured data =>
    match m.request.command, m.body with
    | .memory, some (.memory chunk) =>
      some (.configured { data with memory := data.memory ++ [chunk] })
    | .state, some (.state bytes) => some (.restored ⟨data, bytes⟩)
    | _, _ => none
  | .restored image => if m.request.command = .complete then some (.completed image) else none
  | .completed _ => none

/-- The state of the receiver's machine. -/
def state : Progress → ReceiveMigrationState
  | .established => .established
  | .started [] => .started
  | .started (f :: files) => .memoryFdsReceived (f :: files)
  | .configured data => .configured data
  | .restored _ => .stateReceived
  | .completed _ => .completed

/-- The virtual machine at this point. -/
def vm : Progress → Option DestVm
  | .restored image => some ⟨.paused, false, image⟩
  | .completed image => some ⟨.running, true, image⟩
  | _ => none

/-- The locks held at this point. -/
def locks (job : Job) : Progress → List Disk
  | .restored _ | .completed _ => job.disks
  | _ => []

end Progress

/-- The requests, taken one after the other, lead to `a`. -/
def Follows (got : List Message) (a : Progress) : Prop :=
  got.foldlM Progress.take .established = some a

theorem follows_nil : Follows [] .established := rfl

variable {got : List Message} {a' a : Progress} {d : Dest} {m : Message}

/-- A receiver takes the requests one by one. -/
theorem follows_concat : Follows (got ++ [m]) a' ↔ ∃ a, Follows got a ∧ a.take m = some a' := by
  simp [Follows, foldlM_append, Option.bind_eq_some_iff]

/-- The requests determine the progress. -/
theorem Follows.unique (h : Follows got a) (h' : Follows got a') : a = a' :=
  Option.some.inj (h.symm.trans h')

/-- It has followed every earlier request. -/
theorem Follows.of_prefix {got' : List Message} (h : Follows got' a') (hpre : got <+: got') :
    ∃ a, Follows got a := by
  obtain ⟨rest, rfl⟩ := hpre
  rw [Follows, foldlM_append] at h
  obtain ⟨a, ha, -⟩ := Option.bind_eq_some_iff.mp h
  exact ⟨a, ha⟩

/-- The commands of the receiver's diagram. -/
def expects : ReceiveMigrationState → Command → Bool
  | .established, .start => true
  | .started, .memoryFd | .started, .config => true
  | .memoryFdsReceived _, .memoryFd | .memoryFdsReceived _, .config => true
  | .configured _, .memory | .configured _, .state => true
  | .stateReceived, .complete => true
  | _, _ => false

/-- Only an expected request is taken. -/
theorem expects_of_take (h : a.take m = some a') : expects a.state m.request.command = true := by
  cases a with
  | established | restored image =>
    simp only [Progress.take, Option.ite_none_right_eq_some] at h
    rw [h.1]
    rfl
  | started files =>
    simp only [Progress.take] at h
    split at h
    · rename_i hc _
      rw [hc]
      cases files <;> rfl
    · rename_i hc _
      rw [hc]
      cases files <;> rfl
    · cases h
  | configured data =>
    simp only [Progress.take] at h
    split at h
    · rename_i hc _
      rw [hc]
      rfl
    · rename_i hc _
      rw [hc]
      rfl
    · cases h
  | completed image => cases h

/-- `Abandon` is expected nowhere. -/
theorem expects_abandon (st : ReceiveMigrationState) : expects st .abandon = false := by
  cases st <;> rfl

/-! ## The receiver's machine -/

/-- The virtual machine and the locks are those of `a`. -/
def Shows (job : Job) (a : Progress) (d : Dest) : Prop := d.vm = a.vm ∧ d.locks = a.locks job

/-- There may be a virtual machine, but its vCPUs do not run. -/
def Stopped (d : Dest) : Prop := ∀ vm, d.vm = some vm → vm.vcpus = false

/-- Until `Complete`, the receiver does not run. -/
theorem Shows.stopped (h : Shows job a d) (ha : a.state.finished = false) : Stopped d := by
  intro vm hvm
  rw [h.1] at hvm
  cases a with
  | restored image =>
    cases hvm
    rfl
  | completed image => cases ha
  | established | started _ | configured _ => cases hvm

section Serve

variable {files : List (UInt32 × Nat)} {data : Configured} {m : Message} {bytes : List UInt8}
  {held : List Disk}

theorem take_memoryFd {slot : UInt32} {file : Nat} (hc : m.request.command = .memoryFd)
    (hbody : m.body = some (.memoryFd slot file)) :
    (Progress.started files).take m = some (.started (files ++ [(slot, file)])) := by
  simp only [Progress.take, hc, hbody]

theorem take_config (hc : m.request.command = .config) (hbody : m.body = some (.config bytes)) :
    (Progress.started files).take m = some (.configured ⟨bytes, files, []⟩) := by
  simp only [Progress.take, hc, hbody]

theorem take_memory {chunk : Chunk} (hc : m.request.command = .memory)
    (hbody : m.body = some (.memory chunk)) :
    (Progress.configured data).take m =
      some (.configured { data with memory := data.memory ++ [chunk] }) := by
  simp only [Progress.take, hc, hbody]

theorem take_state (hc : m.request.command = .state) (hbody : m.body = some (.state bytes)) :
    (Progress.configured data).take m = some (.restored ⟨data, bytes⟩) := by
  simp only [Progress.take, hc, hbody]

/-- How a step of the receiver's machine can end: as a step of `Progress`, with an error, or with
    the answer to `Abandon`. -/
def Served (job : Job) (held : List Disk) (a : Progress) (m : Message) (d d' : Dest) : Prop :=
  (∃ a', a.take m = some a' ∧ d'.pc = .respond .ok a'.state ∧ Shows job a' d' ∧
    (d'.locks = d.locks ∨ Dest.lockable job held = true)) ∨
  (d' = d.refuse ∧
    (a.take m = none ∨
      Dest.lockable job held = false ∧ ∃ image, a.take m = some (.restored image))) ∨
  (m.request.command = .abandon ∧ d' = d.goto (.respond .ok .aborted))

theorem served_started (h : Shows job (.started files) d) (hab : m.request.command ≠ .abandon) :
    Served job held (.started files) m d (d.serve job held (Progress.started files).state m) := by
  cases files with
  | nil | cons =>
    simp only [Progress.state, Dest.serve, if_neg hab]
    split
    · rename_i hc hbody
      exact .inl ⟨_, take_memoryFd hc hbody, rfl, h, .inl rfl⟩
    · rename_i hc hbody
      exact .inl ⟨_, take_config hc hbody, rfl, h, .inl rfl⟩
    · rename_i hfd hconfig
      exact .inr (.inl ⟨rfl, .inl (by simp only [Progress.take])⟩)

theorem served_configured (h : Shows job (.configured data) d)
    (hab : m.request.command ≠ .abandon) :
    Served job held (.configured data) m d (d.serve job held (.configured data) m) := by
  simp only [Dest.serve, if_neg hab]
  split
  · rename_i hc hbody
    exact .inl ⟨_, take_memory hc hbody, rfl, h, .inl rfl⟩
  · rename_i hc hbody
    split
    · rename_i hlock
      exact .inl ⟨_, take_state hc hbody, rfl, ⟨rfl, rfl⟩, .inr hlock⟩
    · rename_i hlock
      exact .inr (.inl ⟨rfl, .inr ⟨by simpa using hlock, _, take_state hc hbody⟩⟩)
  · rename_i hmemory hstate
    exact .inr (.inl ⟨rfl, .inl (by simp only [Progress.take])⟩)

/-- A request is taken, or the receiver fails. -/
theorem served (held : List Disk) (m : Message) (h : Shows job a d)
    (ha : a.state.finished = false) : Served job held a m d (d.serve job held a.state m) := by
  by_cases hab : m.request.command = .abandon
  · exact .inr (.inr ⟨hab, if_pos hab⟩)
  cases a with
  | established =>
    simp only [Progress.state, Dest.serve, if_neg hab]
    split
    · rename_i hc
      exact .inl ⟨_, if_pos hc, rfl, h, .inl rfl⟩
    · rename_i hc
      exact .inr (.inl ⟨rfl, .inl (if_neg hc)⟩)
  | started files => exact served_started h hab
  | configured data => exact served_configured h hab
  | restored image =>
    obtain ⟨hvm, hlocks⟩ := h
    simp only [Progress.vm] at hvm
    simp only [Progress.state, Dest.serve, if_neg hab, hvm, VmState.validTransition]
    split
    · rename_i hc
      exact .inl ⟨.completed image, if_pos hc, rfl, ⟨rfl, hlocks⟩, .inl rfl⟩
    · rename_i hc
      exact .inr (.inl ⟨rfl, .inl (if_neg hc)⟩)
  | completed image => cases ha

end Serve

/-- What the receiver has read and answered, its virtual machine and its locks, by where it is. -/
def DestInv (job : Job) (d : Dest) (got : List Message) (answered : List Status) : Prop :=
  match d.pc with
  | .accept => got = [] ∧ answered = [] ∧ Shows job .established d
  | .idle st =>
    ∃ a, Follows got a ∧ Shows job a d ∧ a.state = st ∧ st.finished = false ∧
      answered = List.replicate got.length .ok
  | .serve st m =>
    ∃ g a, got = g ++ [m] ∧ Follows g a ∧ Shows job a d ∧ a.state = st ∧ st.finished = false ∧
      answered = List.replicate g.length .ok
  | .respond s st =>
    ∃ g m, got = g ++ [m] ∧ answered = List.replicate g.length .ok ∧
      ((s = .ok ∧ ∃ a, Follows got a ∧ Shows job a d ∧ a.state = st) ∨
        (st = .aborted ∧ Stopped d ∧ (s = .error ∨ m.request.command = .abandon)))
  | .returned true =>
    (∃ image, Follows got (.completed image) ∧ Shows job (.completed image) d ∧
      answered = List.replicate got.length .ok) ∨
    (d.vm = none ∧ d.locks = [] ∧ ∃ g m s, got = g ++ [m] ∧
      answered = List.replicate g.length .ok ++ [s] ∧
      (s = .error ∨ m.request.command = .abandon))
  | .returned false =>
    -- it has left while it waited for a request, or the answer could not be written
    (∃ a, Follows got a ∧ Shows job a d ∧ a.state.finished = false ∧
      answered = List.replicate got.length .ok) ∨
    (∃ g m, got = g ++ [m] ∧ answered = List.replicate g.length .ok ∧
      ((∃ a, Follows got a ∧ Shows job a d) ∨ Stopped d))
  | .panicked => False

/-- Behind the answer to a request that was served. -/
theorem afterAnswer_cases (a : Progress) (d : Dest) :
    (a.state.finished = false ∧ d.afterAnswer a.state = d.goto (.idle a.state)) ∨
    (∃ image, a = .completed image ∧ d.afterAnswer a.state = d.goto (.returned true)) := by
  cases a with
  | completed image => exact .inr ⟨image, rfl, rfl⟩
  | started files => cases files <;> exact .inl ⟨rfl, rfl⟩
  | established | configured _ | restored _ => exact .inl ⟨rfl, rfl⟩

/-- The receiver's steps keep to `DestInv`. -/
theorem destInv_move {w : World} {up : Stream Message} {down : Stream Status}
    (h : DestInv job w.dst w.up.seen w.down.items) (hmove : RecvMove job w d up down) :
    DestInv job d up.seen down.items := by
  unfold DestInv at h
  cases hmove with
  | accept hpc =>
    rw [hpc] at h
    obtain ⟨hgot, hans, hshows⟩ := h
    exact ⟨.established, by rw [hgot]; exact follows_nil, hshows, rfl, rfl, by simp [hgot, hans]⟩
  | take hpc hread =>
    rw [hpc] at h
    obtain ⟨a, hfollows, hshows, hst, hfin, hans⟩ := h
    exact ⟨_, a, Stream.seen_of_read hread, hfollows, hshows, hst, hfin, hans⟩
  | leave hpc =>
    rcases hpc with hpc | ⟨st, hpc⟩
    · rw [hpc] at h
      obtain ⟨hgot, hans, hshows⟩ := h
      exact .inl ⟨.established, by rw [hgot]; exact follows_nil, hshows, rfl, by simp [hgot, hans]⟩
    · rw [hpc] at h
      obtain ⟨a, hfollows, hshows, rfl, hfin, hans⟩ := h
      exact .inl ⟨a, hfollows, hshows, hfin, hans⟩
  | serve hpc =>
    rename_i st m
    rw [hpc] at h
    obtain ⟨g, a, hgot, hfollows, hshows, rfl, hfin, hans⟩ := h
    obtain ⟨a', htake, hpc', hshows', -⟩ | ⟨heq, -⟩ | ⟨hab, heq⟩ := served w.src.locks m hshows hfin
    · rw [DestInv, hpc']
      refine ⟨g, m, hgot, hans, .inl ⟨rfl, a', ?_, hshows', rfl⟩⟩
      rw [hgot]
      exact follows_concat.mpr ⟨a, hfollows, htake⟩
    · rw [heq]
      exact ⟨g, m, hgot, hans, .inr ⟨rfl, hshows.stopped hfin, .inl rfl⟩⟩
    · rw [heq]
      exact ⟨g, m, hgot, hans, .inr ⟨rfl, hshows.stopped hfin, .inr hab⟩⟩
  | fail hpc =>
    rename_i st m
    rw [hpc] at h
    obtain ⟨g, a, hgot, hfollows, hshows, rfl, hfin, hans⟩ := h
    exact ⟨g, m, hgot, hans, .inr ⟨rfl, hshows.stopped hfin, .inl rfl⟩⟩
  | answer hpc =>
    rw [hpc] at h
    obtain ⟨g, m, hgot, hans, ⟨rfl, a, hfollows, hshows, rfl⟩ | ⟨rfl, -, hs⟩⟩ := h
    · have hans' : w.down.items ++ [.ok] = List.replicate w.up.seen.length .ok := by
        rw [hans, hgot, length_append, length_singleton, List.replicate_succ']
      rcases afterAnswer_cases a w.dst with ⟨hfin, heq⟩ | ⟨image, rfl, heq⟩
      · rw [heq]
        exact ⟨a, hfollows, hshows, rfl, hfin, hans'⟩
      · rw [heq]
        exact .inl ⟨image, hfollows, hshows, hans'⟩
    · refine .inr ⟨rfl, rfl, g, m, _, hgot, ?_, hs⟩
      rw [Stream.items_write, hans]
  | answerFailed hpc =>
    rw [hpc] at h
    obtain ⟨g, m, hgot, hans, ⟨-, a, hfollows, hshows, -⟩ | ⟨-, hstopped, -⟩⟩ := h
    · exact .inr ⟨g, m, hgot, hans, .inl ⟨a, hfollows, hshows⟩⟩
    · exact .inr ⟨g, m, hgot, hans, .inr hstopped⟩

/-! ## What the answers say about the receiver -/

variable {d : Dest} {got : List Message} {answered : List Status}

/-- No request is answered before it is read. -/
theorem DestInv.answered_le (h : DestInv job d got answered) : answered.length ≤ got.length := by
  unfold DestInv at h
  split at h
  · simp [h.2.1]
  · obtain ⟨a, -, -, -, -, rfl⟩ := h
    simp
  · obtain ⟨g, a, rfl, -, -, -, -, rfl⟩ := h
    simp
  · obtain ⟨g, m, rfl, rfl, -⟩ := h
    simp
  · obtain ⟨image, -, -, rfl⟩ | ⟨-, -, g, m, s, rfl, rfl, -⟩ := h
    · simp
    · simp
  · obtain ⟨a, -, -, -, rfl⟩ | ⟨g, m, rfl, rfl, -⟩ := h
    · simp
    · simp
  · exact h.elim

/-- When every request has been answered with `Ok`, the receiver is where they lead. -/
theorem DestInv.caught_up (h : DestInv job d got answered)
    (hans : answered = List.replicate got.length .ok) (ha : Follows got a) :
    Shows job a d ∧ (d.pc = .accept ∨ d.pc = .idle a.state ∨ d.pc = .returned a.state.finished) := by
  -- a request that is still worked on has no answer
  have missing {g : List Message} {m : Message} (hgot : got = g ++ [m])
      (hans' : answered = List.replicate g.length .ok) : False := by
    have := congrArg List.length (hans.symm.trans hans')
    simp [hgot] at this
  unfold DestInv at h
  split at h
  · rename_i hpc
    obtain ⟨rfl, -, hshows⟩ := h
    rw [follows_nil.unique ha] at hshows
    exact ⟨hshows, .inl hpc⟩
  · rename_i st hpc
    obtain ⟨a', ha', hshows, rfl, -, -⟩ := h
    rw [ha'.unique ha] at hshows hpc
    exact ⟨hshows, .inr (.inl hpc)⟩
  · obtain ⟨g, a', hgot, -, -, -, -, hans'⟩ := h
    exact (missing hgot hans').elim
  · obtain ⟨g, m, hgot, hans', -⟩ := h
    exact (missing hgot hans').elim
  · rename_i hpc
    obtain ⟨image, ha', hshows, -⟩ | ⟨-, -, g, m, s, hgot, hans', hs⟩ := h
    · rw [ha'.unique ha] at hshows
      refine ⟨hshows, .inr (.inr ?_)⟩
      rw [hpc, ← ha'.unique ha]
      rfl
    · -- the last answer was an error, or the last request `Abandon`
      exfalso
      rw [hgot] at ha
      obtain ⟨a', -, htake⟩ := follows_concat.mp ha
      rcases hs with rfl | hab
      · have hmem : Status.error ∈ answered := by simp [hans']
        rw [hans] at hmem
        cases eq_of_mem_replicate hmem
      · have := expects_of_take htake
        rw [hab, expects_abandon] at this
        cases this
  · rename_i hpc
    obtain ⟨a', ha', hshows, hfin, -⟩ | ⟨g, m, hgot, hans', -⟩ := h
    · rw [ha'.unique ha] at hshows hfin
      refine ⟨hshows, .inr (.inr ?_)⟩
      rw [hpc, hfin]
    · exact (missing hgot hans').elim
  · exact h.elim

/-- A virtual machine runs behind `Complete` only, and nothing has been refused then. -/
theorem DestInv.of_running (h : DestInv job d got answered) (hrun : d.running) :
    (∃ image, Follows got (.completed image) ∧ Shows job (.completed image) d) ∧
      ∀ s ∈ answered, s = .ok := by
  obtain ⟨vm, hvm, hcpus⟩ := hrun
  have notStopped : ¬ Stopped d := by
    intro hstopped
    rw [hstopped vm hvm] at hcpus
    cases hcpus
  have isCompleted {a : Progress} (ha : Follows got a) (hshows : Shows job a d) :
      ∃ image, Follows got (.completed image) ∧ Shows job (.completed image) d := by
    cases a with
    | completed image => exact ⟨image, ha, hshows⟩
    | started files => cases files <;> exact (notStopped (hshows.stopped rfl)).elim
    | established | configured _ | restored _ => exact (notStopped (hshows.stopped rfl)).elim
  have allOk (n : Nat) : ∀ s ∈ List.replicate n Status.ok, s = .ok := fun s hs =>
    eq_of_mem_replicate hs
  unfold DestInv at h
  split at h
  · exact (notStopped (h.2.2.stopped rfl)).elim
  · obtain ⟨a, ha, hshows, rfl, hfin, -⟩ := h
    exact (notStopped (hshows.stopped hfin)).elim
  · obtain ⟨g, a, -, -, hshows, rfl, hfin, -⟩ := h
    exact (notStopped (hshows.stopped hfin)).elim
  · obtain ⟨g, m, -, rfl, ⟨-, a, ha, hshows, -⟩ | ⟨-, hstopped, -⟩⟩ := h
    · exact ⟨isCompleted ha hshows, allOk _⟩
    · exact (notStopped hstopped).elim
  · obtain ⟨image, ha, hshows, rfl⟩ | ⟨hnone, -⟩ := h
    · exact ⟨⟨image, ha, hshows⟩, allOk _⟩
    · rw [hnone] at hvm
      cases hvm
  · obtain ⟨a, ha, hshows, -, rfl⟩ | ⟨g, m, -, rfl, ⟨a, ha, hshows⟩ | hstopped⟩ := h
    · exact ⟨isCompleted ha hshows, allOk _⟩
    · exact ⟨isCompleted ha hshows, allOk _⟩
    · exact (notStopped hstopped).elim
  · exact h.elim

/-- A request that was refused was the last. -/
theorem DestInv.of_refusal (h : DestInv job d got answered) {s : Status} (hs : s ∈ answered)
    (hne : s ≠ .ok) : d.pc = .returned true ∧ ∃ n s', answered = List.replicate n .ok ++ [s'] := by
  have allOk {n : Nat} (hans : answered = List.replicate n .ok) : False := by
    rw [hans] at hs
    exact hne (eq_of_mem_replicate hs)
  unfold DestInv at h
  split at h
  · rw [h.2.1] at hs
    cases hs
  · obtain ⟨a, -, -, -, -, hans⟩ := h
    exact (allOk hans).elim
  · obtain ⟨g, a, -, -, -, -, -, hans⟩ := h
    exact (allOk hans).elim
  · obtain ⟨g, m, -, hans, -⟩ := h
    exact (allOk hans).elim
  · rename_i hpc
    obtain ⟨image, -, -, hans⟩ | ⟨-, -, g, m, s', -, hans, -⟩ := h
    · exact (allOk hans).elim
    · exact ⟨hpc, g.length, s', hans⟩
  · obtain ⟨a, -, -, -, hans⟩ | ⟨g, m, -, hans, -⟩ := h
    · exact (allOk hans).elim
    · exact (allOk hans).elim
  · exact h.elim

end Handover
