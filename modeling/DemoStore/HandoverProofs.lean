import DemoStore.MachineRunProofs
import DemoStore.DirtyLogProofs
import DemoStore.SocketStreamProofs

/-! # The live-migration protocol

    `vm_send_migration` of one process and `vm_receive_migration` of another hand a virtual
    machine over.  The sender asks (`Start`, the memory file descriptors of a local migration,
    `Config`, the memory, `State`, `Complete`) and waits for an answer each time; the receiver is
    a state machine that takes one request after the other.  Everything can fail: every local
    operation, every write, every read, and a request can be cut off behind its header.

    This module is the machine, with a step of either process for each operation that can
    fail, and `SendMove` and `RecvMove` say what a step can do. -/

namespace Handover

open MachineRun SocketStream DirtyLog Option

/-! ## Requests and answers -/

/-- The commands of the migration protocol. -/
inductive Command where
  | invalid
  | start
  | config
  | state
  | memory
  | complete
  | abandon
  | memoryFd
  deriving DecidableEq, Repr

/-- The answers of the receiver. -/
inductive Status where
  | invalid
  | ok
  | error
  deriving DecidableEq, Repr

/-- The header of a request. -/
structure Request where
  command : Command
  /-- of the payload -/
  length : Nat
  deriving DecidableEq, Repr

/-- A table of ranges and the bytes that follow it. -/
structure Chunk where
  ranges : MemoryRangeTable
  bytes : List UInt8
  deriving DecidableEq, Repr

/-- What follows a header. -/
inductive Payload where
  | memoryFd (slot : UInt32) (file : Nat)
  | config (bytes : List UInt8)
  | memory (chunk : Chunk)
  | state (bytes : List UInt8)
  deriving DecidableEq, Repr

/-- The length that the sender puts into the request. -/
def Payload.length : Payload → Nat
  | .memoryFd _ _ => 4
  | .config bytes => bytes.length
  | .memory chunk => 16 * chunk.ranges.length
  | .state bytes => bytes.length

/-- A request with what follows it on the stream; the payload is missing when there is none or
    when the stream was cut off before it. -/
structure Message where
  request : Request
  payload : Option Payload
  deriving DecidableEq, Repr

namespace Message

/-- A request without payload. -/
def bare (c : Command) : Message := ⟨⟨c, 0⟩, none⟩

/-- A request with its payload. -/
def carry (c : Command) (p : Payload) : Message := ⟨⟨c, p.length⟩, some p⟩

/-- `Request::start`. -/
def start : Message := bare .start

/-- A memory file, for a local migration. -/
def memoryFd (fd : UInt32 × Nat) : Message := carry .memoryFd (.memoryFd fd.1 fd.2)

/-- The configuration of the virtual machine. -/
def config (bytes : List UInt8) : Message := carry .config (.config bytes)

/-- A table of ranges and their bytes. -/
def memory (chunk : Chunk) : Message := carry .memory (.memory chunk)

/-- The snapshot of the virtual machine. -/
def state (bytes : List UInt8) : Message := carry .state (.state bytes)

/-- `Request::complete`. -/
def complete : Message := bare .complete

/-- `Request::abandon`. -/
def abandon : Message := bare .abandon

/-- What a reader gets who reads as many bytes as the request says. -/
def body (m : Message) : Option Payload := m.payload.filter fun p => p.length = m.request.length

theorem body_carry (c : Command) (p : Payload) : (carry c p).body = some p := by
  simp [body, carry]

end Message

/-! ## The two virtual machines -/

/-- The states of a virtual machine. -/
inductive VmState where
  | created
  | running
  | shutdown
  | paused
  | breakPoint
  deriving DecidableEq, Repr

/-- The transitions that `valid_transition` allows. -/
def VmState.validTransition : VmState → VmState → Bool
  | .created, .created => false
  | .created, _ => true
  | .running, .created | .running, .running => false
  | .running, _ => true
  | .shutdown, .running => true
  | .shutdown, _ => false
  | .paused, .running | .paused, .shutdown => true
  | .paused, _ => false
  | .breakPoint, .created | .breakPoint, .running => true
  | .breakPoint, _ => false

/-- A disk with its lock mode. -/
structure Disk where
  id : Nat
  readOnly : Bool
  deriving DecidableEq, Repr

/-- What `destination_url` begins with, if anything follows. -/
inductive Destination where
  | tcp
  | unix
  | other
  deriving DecidableEq, Repr

/-- `MAX_MIGRATION_CONNECTIONS`. -/
def maxMigrationConnections : Nat := 128

/-- `VmSendMigrationData` and what a migration reads of the virtual machine. -/
structure Job where
  destination : Destination
  isLocal : Bool
  connections : Nat
  /-- `backed_by_shared_memory` -/
  sharedMemory : Bool
  fds : List (UInt32 × Nat)
  config : List UInt8
  disks : List Disk
  deriving DecidableEq, Repr

/-- The checks of `VmSendMigrationData::validate`. -/
def Job.validate (job : Job) : Except String Unit :=
  if job.destination = .other then
    .error "destination_url must use tcp:<host>:<port> or unix:<path>."
  else if job.destination = .unix ∧ 1 < job.connections then
    .error "UNIX sockets and connections option cannot be used at the same time."
  else if maxMigrationConnections < job.connections then
    .error "connections must not exceed 128."
  else if job.isLocal ∧ job.destination ≠ .unix then
    .error "local option is only supported with UNIX sockets."
  else if job.isLocal ∧ 1 < job.connections then
    .error "local option and connections option cannot be used at the same time."
  else .ok ()

/-! ## The sender -/

/-- The operations of `send_migration` (with `do_memory_migration`) in their order. -/
inductive Phase where
  | connect
  | start
  | cpuid
  | fds (left : List (UInt32 × Nat))
  | config
  | startMigration
  | pauseLocal
  | connections
  | startLog
  /-- the table of an iteration and `is_precopy_converged` -/
  | collect
  | memory (chunk : Chunk)
  | pause (remaining : MemoryRangeTable)
  | lastLog (remaining : MemoryRangeTable)
  | last (chunk : Chunk)
  | cleanup
  | release (left : List Disk)
  | snapshot
  | state (bytes : List UInt8)
  | complete
  | stopLog
  | completeMigration
  deriving DecidableEq, Repr

/-- How `send_migration` can fail. -/
inductive Failure where
  /-- an operation fails, or the write of a request -/
  | op (p : Phase)
  /-- `pause` fails when the vCPUs have been stopped -/
  | halted (p : Phase)
  /-- the answer could not be read -/
  | answer (p : Phase)
  /-- the answer was not `Ok`; what `ok_or_abandon` returns is the error of its caller only if
      `Abandon` has been written and answered, and an error of the socket otherwise -/
  | refused (p : Phase) (answered : Bool)
  deriving DecidableEq, Repr

/-- The phase a failure comes from. -/
def Failure.phase : Failure → Phase
  | .op p | .halted p | .answer p | .refused p _ => p

/-- How `vm_send_migration` ends. -/
inductive Outcome where
  | ok
  /-- one of the checks of `vm_send_migration` -/
  | rejected
  | failed (f : Failure)
  /-- `send_migration` has failed and then `stop_dirty_log` -/
  | stopLogFailed (f : Failure)
  /-- `send_migration` has failed and then `resume` -/
  | resumeFailed (f : Failure)
  /-- the exit event could not be written -/
  | exitFailed
  deriving DecidableEq, Repr

/-- Where the sender is. -/
inductive SendPc where
  | check
  | doing (p : Phase)
  | answer (p : Phase)
  | abandon (p : Phase)
  | abandoned (p : Phase)
  /-- the closure of `map_err` in `vm_send_migration` -/
  | undo (f : Failure)
  | undoResume (f : Failure)
  | exit
  | returned (o : Outcome)
  deriving DecidableEq, Repr

/-- The sending side. -/
structure Source where
  pc : SendPc
  vm : VmState
  /-- the vCPU threads run guest code -/
  vcpus : Bool
  logging : Bool
  locks : List Disk
  deriving DecidableEq, Repr

/-- The request that is made in a phase.  A table without ranges is not sent, and with several
    connections the memory does not go over this one. -/
def ask (job : Job) : Phase → Option Message
  | .start => some .start
  | .fds (fd :: _) => some (.memoryFd fd)
  | .config => some (.config job.config)
  | .memory chunk | .last chunk =>
    if chunk.ranges = [] ∨ 1 < job.connections then none else some (.memory chunk)
  | .state bytes => some (.state bytes)
  | .complete => some .complete
  | _ => none

/-- What comes after a phase that brings no data with it. -/
def next (job : Job) : Phase → SendPc
  | .connect => .doing .start
  | .start => .doing .cpuid
  | .cpuid => .doing (if job.isLocal then .fds job.fds else .config)
  | .fds [] => .doing .config
  | .fds (_ :: left) => .doing (.fds left)
  | .config => .doing .startMigration
  | .startMigration => .doing (if job.isLocal then .pauseLocal else .connections)
  | .pauseLocal => .doing (.release job.disks)
  | .connections => .doing .startLog
  | .startLog => .doing .collect
  | .collect => .doing .collect
  | .memory _ => .doing .collect
  | .pause remaining => .doing (.lastLog remaining)
  | .lastLog remaining => .doing (.lastLog remaining)
  | .last _ => .doing .cleanup
  | .cleanup => .doing (.release job.disks)
  | .release [] => .doing .snapshot
  | .release (_ :: left) => .doing (.release left)
  | .snapshot => .doing .snapshot
  | .state _ => .doing .complete
  | .complete => .doing (if job.isLocal then .completeMigration else .stopLog)
  | .stopLog => .doing .completeMigration
  | .completeMigration => .exit

/-- What a step of the sender meets. -/
inductive SendEvent where
  /-- the next operation succeeds -/
  | ok
  | fail
  /-- the request is written but not its payload -/
  | cut
  /-- `pause` fails when the vCPUs have been stopped -/
  | halt
  /-- a table, the bytes that will be read for it, and whether pre-copy has converged -/
  | table (converged : Bool) (chunk : Chunk)
  | bytes (b : List UInt8)
  deriving DecidableEq, Repr

/-- Where a local operation that succeeds leads. -/
def flow (job : Job) (p : Phase) (e : SendEvent) : Option SendPc :=
  match p with
  | .collect =>
    match e with
    | .table converged chunk =>
      some (.doing (if converged then .pause chunk.ranges else .memory chunk))
    | _ => none
  | .lastLog remaining =>
    match e with
    | .table _ chunk => some (.doing (.last ⟨chunk.ranges ++ remaining, chunk.bytes⟩))
    | _ => none
  | .snapshot =>
    match e with
    | .bytes b => some (.doing (.state b))
    | _ => none
  | p => if e = .ok then some (next job p) else none

/-- What it does to the virtual machine. -/
def effect (p : Phase) (s : Source) : Source :=
  match p with
  | .startLog => { s with logging := true }
  | .pauseLocal | .pause _ => { s with vm := .paused, vcpus := false }
  | .release (d :: _) => { s with locks := s.locks.erase d }
  | .stopLog => { s with logging := false }
  | _ => s

/-- The checks an operation makes itself. -/
def allowed (job : Job) (p : Phase) (s : Source) : Bool :=
  match p with
  | .cpuid => !(job.isLocal && job.destination = .tcp)
  | .pauseLocal | .pause _ => s.vm.validTransition .paused
  | _ => true

/-- The sender moves on. -/
def Source.goto (s : Source) (pc : SendPc) : Source := { s with pc := pc }

/-- An operation that involves the virtual machine only. -/
def localStep (job : Job) (s : Source) (p : Phase) (e : SendEvent) : Option Source :=
  match e with
  | .fail => some (s.goto (.undo (.op p)))
  | .halt =>
    match p with
    | .pauseLocal | .pause _ => some { s with vcpus := false, pc := .undo (.halted p) }
    | _ => none
  | e =>
    if allowed job p s then (flow job p e).map fun pc => (effect p s).goto pc
    else some (s.goto (.undo (.op p)))

/-! ## The receiver -/

/-- What the receiver has after `Config`. -/
structure Configured where
  config : List UInt8
  files : List (UInt32 × Nat)
  memory : List Chunk
  deriving DecidableEq, Repr

/-- The states of the receiver's loop. -/
inductive ReceiveMigrationState where
  | established
  | started
  | memoryFdsReceived (files : List (UInt32 × Nat))
  | configured (data : Configured)
  | stateReceived
  | completed
  | aborted
  deriving DecidableEq, Repr

/-- The loop is left. -/
def ReceiveMigrationState.finished : ReceiveMigrationState → Bool
  | .completed | .aborted => true
  | _ => false

/-- What a virtual machine is built from. -/
structure Image where
  configured : Configured
  snapshot : List UInt8
  deriving DecidableEq, Repr

/-- The virtual machine of the receiver. -/
structure DestVm where
  state : VmState
  vcpus : Bool
  image : Image
  deriving DecidableEq, Repr

/-- Where the receiver is. -/
inductive RecvPc where
  | accept
  | idle (st : ReceiveMigrationState)
  | serve (st : ReceiveMigrationState) (m : Message)
  | respond (answer : Status) (st : ReceiveMigrationState)
  | returned (ok : Bool)
  | panicked
  deriving DecidableEq, Repr

/-- The receiving side. -/
structure Dest where
  pc : RecvPc
  vm : Option DestVm
  locks : List Disk
  deriving DecidableEq, Repr

/-- What a step of the receiver meets. -/
inductive RecvEvent where
  | ok
  | fail
  deriving DecidableEq, Repr

namespace Dest

/-- The receiver moves on. -/
def goto (d : Dest) (pc : RecvPc) : Dest := { d with pc := pc }

/-- The step was an error: the answer says so and the machine is `Aborted`. -/
def refuse (d : Dest) : Dest := d.goto (.respond .error .aborted)

/-- `try_lock_disks` of the new virtual machine. -/
def lockable (job : Job) (held : List Disk) : Bool :=
  job.disks.all fun disk => disk.readOnly || !held.contains disk

/-- `vm_receive_migration_step`, all operations of which succeed that can. -/
def serve (job : Job) (held : List Disk) (d : Dest) (st : ReceiveMigrationState) (m : Message) :
    Dest :=
  if m.request.command = .abandon then d.goto (.respond .ok .aborted)
  else
    match st with
    | .established =>
      if m.request.command = .start then d.goto (.respond .ok .started) else d.refuse
    | .started =>
      match m.request.command, m.body with
      | .memoryFd, some (.memoryFd slot file) =>
        d.goto (.respond .ok (.memoryFdsReceived [(slot, file)]))
      | .config, some (.config bytes) => d.goto (.respond .ok (.configured ⟨bytes, [], []⟩))
      | _, _ => d.refuse
    | .memoryFdsReceived files =>
      match m.request.command, m.body with
      | .memoryFd, some (.memoryFd slot file) =>
        d.goto (.respond .ok (.memoryFdsReceived (files ++ [(slot, file)])))
      | .config, some (.config bytes) => d.goto (.respond .ok (.configured ⟨bytes, files, []⟩))
      | _, _ => d.refuse
    | .configured data =>
      match m.request.command, m.body with
      | .memory, some (.memory chunk) =>
        d.goto (.respond .ok (.configured { data with memory := data.memory ++ [chunk] }))
      | .state, some (.state bytes) =>
        if lockable job held then
          { pc := .respond .ok .stateReceived, vm := some ⟨.paused, false, ⟨data, bytes⟩⟩,
            locks := job.disks }
        else d.refuse
      | _, _ => d.refuse
    | .stateReceived =>
      if m.request.command = .complete then
        match d.vm with
        -- the `unwrap`
        | none => d.goto .panicked
        | some vm =>
          if vm.state.validTransition .running then
            { d with pc := .respond .ok .completed,
                     vm := some { vm with state := .running, vcpus := true } }
          else d.refuse
      else d.refuse
    -- `unreachable!`
    | .completed | .aborted => d.goto .panicked

/-- Behind the answer: the next request, or the end of `vm_receive_migration`. -/
def afterAnswer (d : Dest) : ReceiveMigrationState → Dest
  | .completed => d.goto (.returned true)
  | .aborted => { pc := .returned true, vm := none, locks := [] }
  | st => d.goto (.idle st)

/-- The new virtual machine runs. -/
def running (d : Dest) : Prop := ∃ vm, d.vm = some vm ∧ vm.vcpus = true

end Dest

/-! ## The machine -/

/-- Both sides and the stream between them. -/
structure World where
  src : Source
  dst : Dest
  connected : Bool
  up : Stream Message
  down : Stream Status

/-- `send_migration` has returned, and its socket is closed. -/
def SendPc.closed : SendPc → Bool
  | .undo _ | .undoResume _ | .exit | .returned _ => true
  | _ => false

/-- The receiver has dropped its end of the stream. -/
def RecvPc.closed : RecvPc → Bool
  | .returned _ | .panicked => true
  | _ => false

/-- The checks before `send_migration`. -/
def accepts (job : Job) (s : Source) : Bool :=
  job.validate.isOk && (!job.isLocal || job.sharedMemory) && s.vm = .running

/-- A step of `vm_send_migration`. -/
def sendStep (job : Job) (w : World) (e : SendEvent) : Option World :=
  match w.src.pc with
  | .check =>
    if accepts job w.src then some { w with src := w.src.goto (.doing .connect) }
    else some { w with src := w.src.goto (.returned .rejected) }
  | .doing p =>
    match ask job p with
    | none =>
      (localStep job w.src p e).map fun s =>
        { w with src := s, connected := w.connected || (p = .connect && e = .ok) }
    | some m =>
      match e with
      | .ok => some { w with src := w.src.goto (.answer p), up := w.up.write m }
      | .cut =>
        if m.payload = none then none
        else some { w with src := w.src.goto (.undo (.op p)),
                           up := w.up.write ⟨m.request, none⟩ }
      | .fail => some { w with src := w.src.goto (.undo (.op p)) }
      | _ => none
  | .answer p =>
    match e with
    | .fail => some { w with src := w.src.goto (.undo (.answer p)) }
    | .ok =>
      match w.down.read with
      | some (.ok, down) => some { w with src := w.src.goto (next job p), down := down }
      | some (_, down) => some { w with src := w.src.goto (.abandon p), down := down }
      | none =>
        if w.dst.pc.closed then some { w with src := w.src.goto (.undo (.answer p)) }
        else none
    | _ => none
  | .abandon p =>
    match e with
    | .fail => some { w with src := w.src.goto (.undo (.refused p false)) }
    | .ok => some { w with src := w.src.goto (.abandoned p), up := w.up.write .abandon }
    | _ => none
  | .abandoned p =>
    match e with
    | .fail => some { w with src := w.src.goto (.undo (.refused p false)) }
    | .ok =>
      match w.down.read with
      | some (_, down) =>
        some { w with src := w.src.goto (.undo (.refused p true)), down := down }
      | none =>
        if w.dst.pc.closed then some { w with src := w.src.goto (.undo (.refused p false)) }
        else none
    | _ => none
  | .undo f =>
    if job.isLocal then some { w with src := w.src.goto (.undoResume f) }
    else
      match e with
      | .ok => some { w with src := { w.src with logging := false, pc := .undoResume f } }
      | .fail => some { w with src := w.src.goto (.returned (.stopLogFailed f)) }
      | _ => none
  | .undoResume f =>
    if w.src.vm = .paused then
      match e with
      | .ok =>
        some { w with src := { w.src with vm := .running, vcpus := true,
                                          pc := .returned (.failed f) } }
      | .fail => some { w with src := w.src.goto (.returned (.resumeFailed f)) }
      | _ => none
    else some { w with src := w.src.goto (.returned (.failed f)) }
  | .exit =>
    match e with
    | .ok => some { w with src := w.src.goto (.returned .ok) }
    | .fail => some { w with src := w.src.goto (.returned .exitFailed) }
    | _ => none
  | .returned _ => none

/-- A step of `vm_receive_migration`. -/
def recvStep (job : Job) (w : World) (e : RecvEvent) : Option World :=
  match w.dst.pc with
  | .accept =>
    match e with
    | .ok => if w.connected then some { w with dst := w.dst.goto (.idle .established) } else none
    | .fail => some { w with dst := w.dst.goto (.returned false) }
  | .idle st =>
    match e with
    | .ok =>
      match w.up.read with
      | some (m, up) => some { w with dst := w.dst.goto (.serve st m), up := up }
      | none =>
        if w.src.pc.closed then some { w with dst := w.dst.goto (.returned false) } else none
    | .fail => some { w with dst := w.dst.goto (.returned false) }
  | .serve st m =>
    match e with
    | .ok => some { w with dst := w.dst.serve job w.src.locks st m }
    | .fail => some { w with dst := w.dst.refuse }
  | .respond answer st =>
    match e with
    | .ok => some { w with dst := w.dst.afterAnswer st, down := w.down.write answer }
    -- the `?` leaves `self.vm` as it is
    | .fail => some { w with dst := w.dst.goto (.returned false) }
  | .returned _ | .panicked => none

/-- Whose step it is. -/
inductive Label where
  | send (e : SendEvent)
  | recv (e : RecvEvent)
  deriving DecidableEq, Repr

/-- A step of either side. -/
def step (job : Job) (w : World) : Label → Option World
  | .send e => sendStep job w e
  | .recv e => recvStep job w e

/-- Both calls have just been made; the state of the source is any. -/
def start (job : Job) (vm : VmState) : World where
  src := ⟨.check, vm, vm = .running, false, job.disks⟩
  dst := ⟨.accept, none, []⟩
  connected := false
  up := .empty
  down := .empty

/-! ## What a step can do -/

variable {job : Job}

variable {e : SendEvent} {p : Phase} {w w' : World}

/-- A step without a message fails, stops the vCPUs and fails, or moves on. -/
theorem localStep_cases {s s' : Source} (h : localStep job s p e = some s') :
    s' = s.goto (.undo (.op p)) ∨
    ((p = .pauseLocal ∨ ∃ r, p = .pause r) ∧
      s' = { s with vcpus := false, pc := .undo (.halted p) }) ∨
    ∃ pc, allowed job p s = true ∧ flow job p e = some pc ∧ s' = (effect p s).goto pc := by
  unfold localStep at h
  split at h
  · exact .inl (some.inj h).symm
  · split at h
    · exact .inr (.inl ⟨.inl rfl, (some.inj h).symm⟩)
    · exact .inr (.inl ⟨.inr ⟨_, rfl⟩, (some.inj h).symm⟩)
    · cases h
  · split at h
    · rename_i hallowed
      obtain ⟨pc, hflow, heq⟩ := map_eq_some_iff.mp h
      exact .inr (.inr ⟨pc, hallowed, hflow, heq.symm⟩)
    · exact .inl (some.inj h).symm

/-- Where a local operation leads. -/
theorem flow_cases {pc : SendPc} (h : flow job p e = some pc) :
    pc = next job p ∨
    (p = .collect ∧ ∃ chunk : Chunk,
      pc = .doing (.pause chunk.ranges) ∨ pc = .doing (.memory chunk)) ∨
    (∃ remaining chunk, p = .lastLog remaining ∧ pc = .doing (.last chunk)) ∨
    (p = .snapshot ∧ ∃ bytes, pc = .doing (.state bytes)) := by
  unfold flow at h
  split at h
  · split at h
    · rename_i converged chunk
      cases h
      cases converged
      · exact .inr (.inl ⟨rfl, chunk, .inr rfl⟩)
      · exact .inr (.inl ⟨rfl, chunk, .inl rfl⟩)
    · cases h
  · rename_i remaining
    split at h
    · cases h
      exact .inr (.inr (.inl ⟨remaining, _, rfl, rfl⟩))
    · cases h
  · split at h
    · rename_i bytes
      cases h
      exact .inr (.inr (.inr ⟨rfl, bytes, rfl⟩))
    · cases h
  · split at h
    · exact .inl (some.inj h).symm
    · cases h

/-- The steps of the sender. -/
inductive SendMove (job : Job) (w : World) : Source → Stream Message → Stream Status → Prop
  | check (h : w.src.pc = .check) (ha : accepts job w.src = true) :
      SendMove job w (w.src.goto (.doing .connect)) w.up w.down
  | reject (h : w.src.pc = .check) : SendMove job w (w.src.goto (.returned .rejected)) w.up w.down
  | flow {p : Phase} {e : SendEvent} {pc : SendPc} (h : w.src.pc = .doing p)
      (hask : ask job p = none) (hflow : flow job p e = some pc) :
      SendMove job w ((effect p w.src).goto pc) w.up w.down
  | fail {p : Phase} (h : w.src.pc = .doing p) :
      SendMove job w (w.src.goto (.undo (.op p))) w.up w.down
  | halt {p : Phase} (h : w.src.pc = .doing p) (hp : p = .pauseLocal ∨ ∃ r, p = .pause r) :
      SendMove job w { w.src with vcpus := false, pc := .undo (.halted p) } w.up w.down
  | write {p : Phase} {m : Message} (h : w.src.pc = .doing p) (hask : ask job p = some m) :
      SendMove job w (w.src.goto (.answer p)) (w.up.write m) w.down
  | cut {p : Phase} {m : Message} (h : w.src.pc = .doing p) (hask : ask job p = some m)
      (hm : m.payload ≠ none) :
      SendMove job w (w.src.goto (.undo (.op p))) (w.up.write ⟨m.request, none⟩) w.down
  | heard {p : Phase} {down : Stream Status} (h : w.src.pc = .answer p)
      (hread : w.down.read = some (.ok, down)) :
      SendMove job w (w.src.goto (next job p)) w.up down
  | refused {p : Phase} {st : Status} {down : Stream Status} (h : w.src.pc = .answer p)
      (hread : w.down.read = some (st, down)) (hst : st ≠ .ok) :
      SendMove job w (w.src.goto (.abandon p)) w.up down
  | lost {p : Phase} (h : w.src.pc = .answer p) :
      SendMove job w (w.src.goto (.undo (.answer p))) w.up w.down
  | abandon {p : Phase} (h : w.src.pc = .abandon p) :
      SendMove job w (w.src.goto (.abandoned p)) (w.up.write .abandon) w.down
  | giveUp {p : Phase} (h : w.src.pc = .abandon p ∨ w.src.pc = .abandoned p) :
      SendMove job w (w.src.goto (.undo (.refused p false))) w.up w.down
  | abandoned {p : Phase} {st : Status} {down : Stream Status} (h : w.src.pc = .abandoned p)
      (hread : w.down.read = some (st, down)) :
      SendMove job w (w.src.goto (.undo (.refused p true))) w.up down
  | stopLog {f : Failure} (logging : Bool) (h : w.src.pc = .undo f) :
      SendMove job w { w.src with logging := logging, pc := .undoResume f } w.up w.down
  | stopLogFailed {f : Failure} (h : w.src.pc = .undo f) :
      SendMove job w (w.src.goto (.returned (.stopLogFailed f))) w.up w.down
  | resume {f : Failure} (h : w.src.pc = .undoResume f) (hvm : w.src.vm = .paused) :
      SendMove job w { w.src with vm := .running, vcpus := true, pc := .returned (.failed f) }
        w.up w.down
  | resumeFailed {f : Failure} (h : w.src.pc = .undoResume f) (hvm : w.src.vm = .paused) :
      SendMove job w (w.src.goto (.returned (.resumeFailed f))) w.up w.down
  | noResume {f : Failure} (h : w.src.pc = .undoResume f) (hvm : w.src.vm ≠ .paused) :
      SendMove job w (w.src.goto (.returned (.failed f))) w.up w.down
  | exit {o : Outcome} (h : w.src.pc = .exit) (ho : o = .ok ∨ o = .exitFailed) :
      SendMove job w (w.src.goto (.returned o)) w.up w.down

/-- Each step of the sender is a move of it. -/
theorem sendMove_of_step (h : sendStep job w e = some w') :
    SendMove job w w'.src w'.up w'.down ∧ w'.dst = w.dst := by
  unfold sendStep at h
  split at h
  · rename_i hpc
    split at h
    · rename_i hacc
      cases h
      exact ⟨.check hpc hacc, rfl⟩
    · cases h
      exact ⟨.reject hpc, rfl⟩
  · rename_i p hpc
    split at h
    · rename_i hask
      obtain ⟨s, hlocal, rfl⟩ := map_eq_some_iff.mp h
      obtain rfl | ⟨hp, rfl⟩ | ⟨pc, -, hflow, rfl⟩ := localStep_cases hlocal
      · exact ⟨.fail hpc, rfl⟩
      · exact ⟨.halt hpc hp, rfl⟩
      · exact ⟨.flow hpc hask hflow, rfl⟩
    · rename_i m hask
      split at h
      · cases h
        exact ⟨.write hpc hask, rfl⟩
      · split at h
        · cases h
        · rename_i hm
          cases h
          exact ⟨.cut hpc hask hm, rfl⟩
      · cases h
        exact ⟨.fail hpc, rfl⟩
      · cases h
  · rename_i p hpc
    split at h
    · cases h
      exact ⟨.lost hpc, rfl⟩
    · split at h
      · rename_i down hread
        cases h
        exact ⟨.heard hpc hread, rfl⟩
      · rename_i st down hst hread
        cases h
        exact ⟨.refused hpc hread hst, rfl⟩
      · split at h
        · cases h
          exact ⟨.lost hpc, rfl⟩
        · cases h
    · cases h
  · rename_i p hpc
    split at h
    · cases h
      exact ⟨.giveUp (.inl hpc), rfl⟩
    · cases h
      exact ⟨.abandon hpc, rfl⟩
    · cases h
  · rename_i p hpc
    split at h
    · cases h
      exact ⟨.giveUp (.inr hpc), rfl⟩
    · split at h
      · rename_i st down hread
        cases h
        exact ⟨.abandoned hpc hread, rfl⟩
      · split at h
        · cases h
          exact ⟨.giveUp (.inr hpc), rfl⟩
        · cases h
    · cases h
  · rename_i f hpc
    split at h
    · cases h
      exact ⟨.stopLog w.src.logging hpc, rfl⟩
    · split at h
      · cases h
        exact ⟨.stopLog false hpc, rfl⟩
      · cases h
        exact ⟨.stopLogFailed hpc, rfl⟩
      · cases h
  · rename_i f hpc
    split at h
    · rename_i hvm
      split at h
      · cases h
        exact ⟨.resume hpc hvm, rfl⟩
      · cases h
        exact ⟨.resumeFailed hpc hvm, rfl⟩
      · cases h
    · rename_i hvm
      cases h
      exact ⟨.noResume hpc hvm, rfl⟩
  · rename_i hpc
    split at h
    · cases h
      exact ⟨.exit hpc (.inl rfl), rfl⟩
    · cases h
      exact ⟨.exit hpc (.inr rfl), rfl⟩
    · cases h
  · cases h

/-- The steps of the receiver. -/
inductive RecvMove (job : Job) (w : World) : Dest → Stream Message → Stream Status → Prop
  | accept (h : w.dst.pc = .accept) :
      RecvMove job w (w.dst.goto (.idle .established)) w.up w.down
  | take {st : ReceiveMigrationState} {m : Message} {up : Stream Message}
      (h : w.dst.pc = .idle st) (hread : w.up.read = some (m, up)) :
      RecvMove job w (w.dst.goto (.serve st m)) up w.down
  | leave (h : w.dst.pc = .accept ∨ ∃ st, w.dst.pc = .idle st) :
      RecvMove job w (w.dst.goto (.returned false)) w.up w.down
  | serve {st : ReceiveMigrationState} {m : Message} (h : w.dst.pc = .serve st m) :
      RecvMove job w (w.dst.serve job w.src.locks st m) w.up w.down
  | fail {st : ReceiveMigrationState} {m : Message} (h : w.dst.pc = .serve st m) :
      RecvMove job w w.dst.refuse w.up w.down
  | answer {s : Status} {st : ReceiveMigrationState} (h : w.dst.pc = .respond s st) :
      RecvMove job w (w.dst.afterAnswer st) w.up (w.down.write s)
  | answerFailed {s : Status} {st : ReceiveMigrationState} (h : w.dst.pc = .respond s st) :
      RecvMove job w (w.dst.goto (.returned false)) w.up w.down

/-- Each step of the receiver is a move of it. -/
theorem recvMove_of_step {e : RecvEvent} (h : recvStep job w e = some w') :
    RecvMove job w w'.dst w'.up w'.down ∧ w'.src = w.src := by
  unfold recvStep at h
  split at h
  · rename_i hpc
    split at h
    · split at h
      · cases h
        exact ⟨.accept hpc, rfl⟩
      · cases h
    · cases h
      exact ⟨.leave (.inl hpc), rfl⟩
  · rename_i st hpc
    split at h
    · split at h
      · rename_i m up hread
        cases h
        exact ⟨.take hpc hread, rfl⟩
      · split at h
        · cases h
          exact ⟨.leave (.inr ⟨st, hpc⟩), rfl⟩
        · cases h
    · cases h
      exact ⟨.leave (.inr ⟨st, hpc⟩), rfl⟩
  · rename_i st m hpc
    split at h
    · cases h
      exact ⟨.serve hpc, rfl⟩
    · cases h
      exact ⟨.fail hpc, rfl⟩
  · rename_i s st hpc
    split at h
    · cases h
      exact ⟨.answer hpc, rfl⟩
    · cases h
      exact ⟨.answerFailed hpc, rfl⟩
  · cases h
  · cases h

end Handover
