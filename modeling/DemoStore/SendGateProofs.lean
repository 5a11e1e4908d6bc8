import DemoStore.MachineRunProofs
import DemoStore.ThreadPoolProofs
import Mathlib.Data.List.Count

/-! # Sending memory over several connections

    `SendAdditionalConnections` has one thread for each connection.  The main thread hands
    chunks to them through a bounded channel; at the end of `send_memory` it puts one gate
    message for each thread behind the chunks and waits until all threads have reported that
    they are at the gate.  A thread that fails sets `worker_error`, reports and ends; the main
    thread then sends `Disconnect` to all threads and joins them.

    What a thread does with a chunk is a parameter (`Jobs`): the world it works on, its steps
    and when it has the acknowledgement.

    The safety theorem: `send_memory` returns `Ok` only when every chunk has been acknowledged
    and nothing is queued or under way, in every interleaving and with any thread failing at
    any point.  The progress theorem: joining the threads can only block if a `Disconnect` has
    been dropped because the channel was full. -/

namespace SendGate

open MachineRun ThreadPool List
open Function (update update_of_ne update_self)

variable {C J W L E : Type}

/-! ## The machine -/

/-- What happens to a chunk in a thread, and what else happens to the world. -/
structure Jobs (C J W L E : Type) where
  start : C → J
  step : L → J → W → Option (J × W)
  finished : J → Bool
  env : E → W → Option W

/-- `SendMemoryThreadMessage`. -/
inductive Msg (C : Type) where
  | memory (c : C)
  | gate (g : Nat)
  | disconnect
  deriving DecidableEq

/-- `SendMemoryThreadNotify`. -/
inductive Note where
  | gate
  | error
  deriving DecidableEq

/-- Where a thread is in `worker_send_memory`; `left` with the result of the thread. -/
inductive Worker (C J : Type) where
  | idle
  | job (c : C) (j : J)
  | atGate (g : Nat)
  | failing (noted : Bool)
  | left (ok : Bool)

/-- The worker has returned. -/
def Worker.hasLeft : Worker C J → Bool
  | .left _ => true
  | _ => false

/-- Who has called `cleanup`. -/
inductive Why (C : Type) where
  /-- `send_chunk` has seen `worker_error`; the chunks after this one -/
  | chunk (rest : List C)
  /-- an error is returned whatever the threads return -/
  | broken
  /-- `wait_for_pending_data` has seen an error -/
  | gate
  /-- the caller, after the last `send_memory` -/
  | final

/-- Where the main thread is. -/
inductive Pc (C J : Type) where
  /-- outside of `send_memory`, which has not returned an error so far -/
  | idle
  | chunks (rest : List C) (checked : Bool)
  | gates (k : Nat)
  | waiting (seen : Nat)
  | cleanup (why : Why C) (k : Nat)
  | joining (why : Why C) (i : Nat) (err : Bool)
  /-- one connection: the main thread sends -/
  | direct (c : C) (j : J)
  | failed
  | closed

/-- The pool: main thread, workers and queues. -/
structure State (C J W : Type) where
  workers : List (Worker C J)
  /-- `self.threads.len()` -/
  threads : Nat
  queue : List (Msg C)
  notes : List Note
  workerError : Bool
  gateNo : Nat
  isOpen : Nat → Bool
  pc : Pc C J
  world : W
  /-- the chunks that `send_memory` was called with -/
  asked : List C
  acked : List C
  /-- messages that `cleanup` could not send -/
  dropped : Nat

/-- `BUFFERED_REQUESTS_PER_THREAD` for each thread. -/
def State.capacity (s : State C J W) : Nat := 64 * s.workers.length

/-- Nobody is left to receive. -/
def State.allLeft (s : State C J W) : Bool := s.workers.all Worker.hasLeft

/-- The gate of this round opens. -/
def State.openGate (s : State C J W) : State C J W :=
  { s with isOpen := update s.isOpen s.gateNo true }

/-- What `send_memory` or its caller goes on with after `cleanup`. -/
def afterJoin (why : Why C) (err : Bool) : Pc C J :=
  match why, err with
  | .chunk rest, false => .chunks rest false
  | .gate, false => .idle
  | .final, false => .closed
  | _, _ => .failed

/-- The next step of the main thread. -/
def mainStep (s : State C J W) : Option (State C J W) :=
  match s.pc with
  | .chunks [] _ =>
    some { s with
      pc := .gates s.threads
      gateNo := s.gateNo + 1
      isOpen := update s.isOpen (s.gateNo + 1) false }
  | .chunks (c :: rest) false =>
    if s.workerError then some { s with pc := .cleanup (.chunk rest) s.threads }
    else some { s with pc := .chunks (c :: rest) true }
  | .chunks (c :: rest) true =>
    if s.allLeft then some { s with pc := .cleanup .broken s.threads }
    else if s.queue.length < s.capacity then
      some { s with queue := s.queue ++ [.memory c], pc := .chunks rest false }
    else some { s with pc := .chunks (c :: rest) false }
  | .gates 0 => some { s with pc := .waiting 0 }
  | .gates (k + 1) =>
    if s.allLeft then some { s with pc := .failed }
    else if s.queue.length < s.capacity then
      some { s with queue := s.queue ++ [.gate s.gateNo], pc := .gates k }
    else none
  | .waiting seen =>
    match s.notes with
    | .gate :: notes =>
      if seen + 1 = s.threads then some { s.openGate with notes := notes, pc := .idle }
      else some { s with notes := notes, pc := .waiting (seen + 1) }
    | .error :: notes =>
      some { s.openGate with notes := notes, pc := .cleanup .gate s.threads }
    | [] => if s.allLeft then some { s with pc := .failed } else none
  | .cleanup why 0 => some { s with pc := .joining why 0 false }
  | .cleanup why (k + 1) =>
    if s.allLeft then some { s with pc := .cleanup why k }
    else if s.queue.length < s.capacity then
      some { s with queue := s.queue ++ [.disconnect], pc := .cleanup why k }
    else some { s with dropped := s.dropped + 1, pc := .cleanup why k }
  | .joining why i err =>
    if i < s.threads then
      match s.workers[i]? with
      | some (.left ok) => some { s with pc := .joining why (i + 1) (err || !ok) }
      | _ => none
    else some { s with threads := 0, pc := afterJoin why err }
  | _ => none

/-- A thread takes the next message. -/
def takeMsg (jobs : Jobs C J W L E) (s : State C J W) (i : Nat) : Option (State C J W) :=
  match s.workers[i]?, s.queue with
  | some .idle, .memory c :: queue =>
    some { s with queue := queue, workers := s.workers.set i (.job c (jobs.start c)) }
  | some .idle, .gate g :: queue =>
    some { s with
      queue := queue
      notes := s.notes ++ [.gate]
      workers := s.workers.set i (.atGate g) }
  | some .idle, .disconnect :: queue =>
    some { s with queue := queue, workers := s.workers.set i (.left true) }
  | _, _ => none

/-- The steps of the pool. -/
inductive Label (C L E : Type) where
  /-- `send_memory` of a table and its chunks -/
  | call (whole : C) (chunks : List C)
  /-- the last `cleanup`, and the one after an error -/
  | close
  | abort
  | main
  | take (i : Nat)
  | work (i : Nat) (l : L)
  | finish (i : Nat)
  | fail (i : Nat)
  | notify (i : Nat)
  | leave (i : Nat)
  | pass (i : Nat)
  | directWork (l : L)
  | directFinish
  | directFail
  | env (e : E)

/-- A step of the pool. -/
def step (jobs : Jobs C J W L E) (s : State C J W) : Label C L E → Option (State C J W)
  | .call whole chunks =>
    match s.pc with
    | .idle =>
      if s.threads = 0 then
        some { s with pc := .direct whole (jobs.start whole), asked := s.asked ++ [whole] }
      else some { s with pc := .chunks chunks false, asked := s.asked ++ chunks }
    | _ => none
  | .close =>
    match s.pc with
    | .idle => some { s with pc := .cleanup .final s.threads }
    | _ => none
  | .abort =>
    match s.pc with
    | .failed => some { s with pc := .cleanup .broken s.threads }
    | _ => none
  | .main => mainStep s
  | .take i => takeMsg jobs s i
  | .work i l =>
    match s.workers[i]? with
    | some (.job c j) => (jobs.step l j s.world).map fun q =>
      { s with workers := s.workers.set i (.job c q.1), world := q.2 }
    | _ => none
  | .finish i =>
    match s.workers[i]? with
    | some (.job c j) =>
      if jobs.finished j then
        some { s with workers := s.workers.set i .idle, acked := s.acked ++ [c] }
      else none
    | _ => none
  | .fail i =>
    match s.workers[i]? with
    | some (.job _ _) =>
      some { s with workers := s.workers.set i (.failing false), workerError := true }
    | _ => none
  | .notify i =>
    match s.workers[i]? with
    | some (.failing false) =>
      some { s with workers := s.workers.set i (.failing true), notes := s.notes ++ [.error] }
    | _ => none
  | .leave i =>
    match s.workers[i]? with
    | some (.failing true) => some { s with workers := s.workers.set i (.left false) }
    | _ => none
  | .pass i =>
    match s.workers[i]? with
    | some (.atGate g) =>
      if s.isOpen g then some { s with workers := s.workers.set i .idle } else none
    | _ => none
  | .directWork l =>
    match s.pc with
    | .direct c j => (jobs.step l j s.world).map fun q =>
      { s with pc := .direct c q.1, world := q.2 }
    | _ => none
  | .directFinish =>
    match s.pc with
    | .direct c j =>
      if jobs.finished j then some { s with pc := .idle, acked := s.acked ++ [c] } else none
    | _ => none
  | .directFail =>
    match s.pc with
    | .direct _ _ => some { s with pc := .failed }
    | _ => none
  | .env e => (jobs.env e s.world).map fun w => { s with world := w }

/-- `SendAdditionalConnections::new` with `n` threads: none for one connection. -/
def start (n : Nat) (w : W) : State C J W where
  workers := List.replicate n .idle
  threads := n
  queue := []
  notes := []
  workerError := false
  gateNo := 0
  isOpen := fun _ => true
  pc := .idle
  world := w
  asked := []
  acked := []
  dropped := 0

/-! ## What a thread can do in one step -/

/-- The steps of the threads, with the state after them. -/
inductive WorkerMove (jobs : Jobs C J W L E) (s : State C J W) : State C J W → Prop where
  | memory {i : Nat} {c : C} {queue : List (Msg C)} (hw : s.workers[i]? = some .idle)
      (hq : s.queue = .memory c :: queue) :
      WorkerMove jobs s
        { s with queue := queue, workers := s.workers.set i (.job c (jobs.start c)) }
  | gate {i g : Nat} {queue : List (Msg C)} (hw : s.workers[i]? = some .idle)
      (hq : s.queue = .gate g :: queue) :
      WorkerMove jobs s
        { s with
          queue := queue
          notes := s.notes ++ [.gate]
          workers := s.workers.set i (.atGate g) }
  | disconnect {i : Nat} {queue : List (Msg C)} (hw : s.workers[i]? = some .idle)
      (hq : s.queue = .disconnect :: queue) :
      WorkerMove jobs s { s with queue := queue, workers := s.workers.set i (.left true) }
  | work {i : Nat} {c : C} {j j' : J} {w : W} (hw : s.workers[i]? = some (.job c j)) (l : L)
      (hj : jobs.step l j s.world = some (j', w)) :
      WorkerMove jobs s { s with workers := s.workers.set i (.job c j'), world := w }
  | finish {i : Nat} {c : C} {j : J} (hw : s.workers[i]? = some (.job c j))
      (hj : jobs.finished j = true) :
      WorkerMove jobs s { s with workers := s.workers.set i .idle, acked := s.acked ++ [c] }
  | fail {i : Nat} {c : C} {j : J} (hw : s.workers[i]? = some (.job c j)) :
      WorkerMove jobs s { s with workers := s.workers.set i (.failing false), workerError := true }
  | notify {i : Nat} (hw : s.workers[i]? = some (.failing false)) :
      WorkerMove jobs s
        { s with workers := s.workers.set i (.failing true), notes := s.notes ++ [.error] }
  | leave {i : Nat} (hw : s.workers[i]? = some (.failing true)) :
      WorkerMove jobs s { s with workers := s.workers.set i (.left false) }
  | pass {i g : Nat} (hw : s.workers[i]? = some (.atGate g)) (hg : s.isOpen g = true) :
      WorkerMove jobs s { s with workers := s.workers.set i .idle }
  | env {w : W} (e : E) (he : jobs.env e s.world = some w) :
      WorkerMove jobs s { s with world := w }

/-- The labels of the threads and of the rest of the world. -/
def Label.ofThread : Label C L E → Bool
  | .take _ => true
  | .work _ _ => true
  | .finish _ => true
  | .fail _ => true
  | .notify _ => true
  | .leave _ => true
  | .pass _ => true
  | .env _ => true
  | _ => false

variable {jobs : Jobs C J W L E} {s s' : State C J W} {l : Label C L E} {w : Worker C J} {i : Nat}
  {whole : C} {chunks : List C}

/-- Each step of a worker is a move. -/
theorem workerMove_of_step (hl : l.ofThread = true) (hs : step jobs s l = some s') :
    WorkerMove jobs s s' := by
  cases l with
  | take i =>
    rw [step, takeMsg] at hs
    split at hs
    · rename_i c queue hw hq
      cases hs
      exact .memory hw hq
    · rename_i g queue hw hq
      cases hs
      exact .gate hw hq
    · rename_i queue hw hq
      cases hs
      exact .disconnect hw hq
    · cases hs
  | work i l =>
    rw [step] at hs
    split at hs
    · rename_i c j hw
      obtain ⟨q, hq, rfl⟩ := Option.map_eq_some_iff.mp hs
      exact .work hw l hq
    · cases hs
  | finish i =>
    rw [step] at hs
    split at hs
    · rename_i c j hw
      split at hs
      · rename_i hj
        cases hs
        exact .finish hw hj
      · cases hs
    · cases hs
  | fail i =>
    rw [step] at hs
    split at hs
    · rename_i c j hw
      cases hs
      exact .fail hw
    · cases hs
  | notify i =>
    rw [step] at hs
    split at hs
    · rename_i hw
      cases hs
      exact .notify hw
    · cases hs
  | leave i =>
    rw [step] at hs
    split at hs
    · rename_i hw
      cases hs
      exact .leave hw
    · cases hs
  | pass i =>
    rw [step] at hs
    split at hs
    · rename_i g hw
      split at hs
      · rename_i hg
        cases hs
        exact .pass hw hg
      · cases hs
    · cases hs
  | env e =>
    obtain ⟨w, hw, rfl⟩ := Option.map_eq_some_iff.mp hs
    exact .env e hw
  | _ => cases hl

/-! ## What the main thread can do in one step -/

/-- The steps of the main thread, with the state after them. -/
inductive MainMove (jobs : Jobs C J W L E) (s : State C J W) : State C J W → Prop where
  | newGate {checked : Bool} (hpc : s.pc = .chunks [] checked) :
      MainMove jobs s
        { s with
          pc := .gates s.threads
          gateNo := s.gateNo + 1
          isOpen := update s.isOpen (s.gateNo + 1) false }
  | seeError {c : C} {rest : List C} (hpc : s.pc = .chunks (c :: rest) false)
      (herror : s.workerError = true) :
      MainMove jobs s { s with pc := .cleanup (.chunk rest) s.threads }
  | check {c : C} {rest : List C} (hpc : s.pc = .chunks (c :: rest) false) :
      MainMove jobs s { s with pc := .chunks (c :: rest) true }
  | noReceiver {c : C} {rest : List C} (hpc : s.pc = .chunks (c :: rest) true)
      (hall : s.allLeft = true) : MainMove jobs s { s with pc := .cleanup .broken s.threads }
  | pushChunk {c : C} {rest : List C} (hpc : s.pc = .chunks (c :: rest) true) :
      MainMove jobs s { s with queue := s.queue ++ [.memory c], pc := .chunks rest false }
  | retry {c : C} {rest : List C} (hpc : s.pc = .chunks (c :: rest) true) :
      MainMove jobs s { s with pc := .chunks (c :: rest) false }
  | gatesSent (hpc : s.pc = .gates 0) : MainMove jobs s { s with pc := .waiting 0 }
  | gateRefused {k : Nat} (hpc : s.pc = .gates (k + 1)) (hall : s.allLeft = true) :
      MainMove jobs s { s with pc := .failed }
  | pushGate {k : Nat} (hpc : s.pc = .gates (k + 1)) :
      MainMove jobs s { s with queue := s.queue ++ [.gate s.gateNo], pc := .gates k }
  | lastReport {seen : Nat} {notes : List Note} (hpc : s.pc = .waiting seen)
      (hnotes : s.notes = .gate :: notes) (hseen : seen + 1 = s.threads) :
      MainMove jobs s { s.openGate with notes := notes, pc := .idle }
  | report {seen : Nat} {notes : List Note} (hpc : s.pc = .waiting seen)
      (hnotes : s.notes = .gate :: notes) (hseen : seen + 1 ≠ s.threads) :
      MainMove jobs s { s with notes := notes, pc := .waiting (seen + 1) }
  | errorReport {seen : Nat} {notes : List Note} (hpc : s.pc = .waiting seen)
      (hnotes : s.notes = .error :: notes) :
      MainMove jobs s { s.openGate with notes := notes, pc := .cleanup .gate s.threads }
  | noSender {seen : Nat} (hpc : s.pc = .waiting seen) (hall : s.allLeft = true) :
      MainMove jobs s { s with pc := .failed }
  | allDisconnected {why : Why C} (hpc : s.pc = .cleanup why 0) :
      MainMove jobs s { s with pc := .joining why 0 false }
  | disconnectRefused {why : Why C} {k : Nat} (hpc : s.pc = .cleanup why (k + 1))
      (hall : s.allLeft = true) : MainMove jobs s { s with pc := .cleanup why k }
  | pushDisconnect {why : Why C} {k : Nat} (hpc : s.pc = .cleanup why (k + 1))
      (hall : ¬ s.allLeft = true) :
      MainMove jobs s { s with queue := s.queue ++ [.disconnect], pc := .cleanup why k }
  | dropDisconnect {why : Why C} {k : Nat} (hpc : s.pc = .cleanup why (k + 1))
      (hall : ¬ s.allLeft = true) :
      MainMove jobs s { s with dropped := s.dropped + 1, pc := .cleanup why k }
  | join {why : Why C} {i : Nat} {err ok : Bool} (hpc : s.pc = .joining why i err)
      (hok : s.workers[i]? = some (.left ok)) :
      MainMove jobs s { s with pc := .joining why (i + 1) (err || !ok) }
  | joined {why : Why C} {i : Nat} {err : Bool} (hpc : s.pc = .joining why i err)
      (hi : s.threads ≤ i) : MainMove jobs s { s with threads := 0, pc := afterJoin why err }
  | close (hpc : s.pc = .idle) : MainMove jobs s { s with pc := .cleanup .final s.threads }
  | abort (hpc : s.pc = .failed) : MainMove jobs s { s with pc := .cleanup .broken s.threads }
  | directWork {c : C} {j j' : J} {w : W} (hpc : s.pc = .direct c j) (l : L)
      (hj : jobs.step l j s.world = some (j', w)) :
      MainMove jobs s { s with pc := .direct c j', world := w }
  | directFinish {c : C} {j : J} (hpc : s.pc = .direct c j) (hj : jobs.finished j = true) :
      MainMove jobs s { s with pc := .idle, acked := s.acked ++ [c] }
  | directFail {c : C} {j : J} (hpc : s.pc = .direct c j) : MainMove jobs s { s with pc := .failed }

/-- `send_memory` is called. -/
inductive CallMove (jobs : Jobs C J W L E) (whole : C) (chunks : List C) (s : State C J W) :
    State C J W → Prop where
  | direct (hpc : s.pc = .idle) (hn : s.threads = 0) :
      CallMove jobs whole chunks s
        { s with pc := .direct whole (jobs.start whole), asked := s.asked ++ [whole] }
  | chunks (hpc : s.pc = .idle) (hn : s.threads ≠ 0) :
      CallMove jobs whole chunks s { s with pc := .chunks chunks false, asked := s.asked ++ chunks }

/-- So is each step of the main thread. -/
theorem mainMove_of_mainStep (jobs : Jobs C J W L E) (hs : mainStep s = some s') :
    MainMove jobs s s' := by
  rw [mainStep] at hs
  split at hs
  · rename_i hpc
    cases hs
    exact .newGate hpc
  · rename_i c rest hpc
    split at hs
    · rename_i herror
      cases hs
      exact .seeError hpc herror
    · cases hs
      exact .check hpc
  · rename_i c rest hpc
    split at hs
    · rename_i hall
      cases hs
      exact .noReceiver hpc hall
    · split at hs
      · cases hs
        exact .pushChunk hpc
      · cases hs
        exact .retry hpc
  · rename_i hpc
    cases hs
    exact .gatesSent hpc
  · rename_i k hpc
    split at hs
    · rename_i hall
      cases hs
      exact .gateRefused hpc hall
    · split at hs
      · cases hs
        exact .pushGate hpc
      · cases hs
  · rename_i seen hpc
    split at hs
    · rename_i notes hnotes
      split at hs
      · rename_i hseen
        cases hs
        exact .lastReport hpc hnotes hseen
      · rename_i hseen
        cases hs
        exact .report hpc hnotes hseen
    · rename_i notes hnotes
      cases hs
      exact .errorReport hpc hnotes
    · split at hs
      · rename_i hall
        cases hs
        exact .noSender hpc hall
      · cases hs
  · rename_i why hpc
    cases hs
    exact .allDisconnected hpc
  · rename_i why k hpc
    split at hs
    · rename_i hall
      cases hs
      exact .disconnectRefused hpc hall
    · rename_i hall
      split at hs
      · cases hs
        exact .pushDisconnect hpc hall
      · cases hs
        exact .dropDisconnect hpc hall
  · rename_i why i err hpc
    split at hs
    · split at hs
      · rename_i ok hok
        cases hs
        exact .join hpc hok
      · cases hs
    · rename_i hi
      cases hs
      exact .joined hpc (Nat.not_lt.mp hi)
  · cases hs

theorem callMove_of_step (hs : step jobs s (.call whole chunks) = some s') :
    CallMove jobs whole chunks s s' := by
  rw [step] at hs
  split at hs
  · rename_i hpc
    split at hs
    · rename_i hn
      cases hs
      exact .direct hpc hn
    · rename_i hn
      cases hs
      exact .chunks hpc hn
  · cases hs

/-- **THE STEPS**: of a thread, of the main thread, or a call. -/
theorem step_cases (hs : step jobs s l = some s') :
    WorkerMove jobs s s' ∨ MainMove jobs s s'
      ∨ ∃ whole chunks, l = .call whole chunks ∧ CallMove jobs whole chunks s s' := by
  by_cases hl : l.ofThread = true
  · exact .inl (workerMove_of_step hl hs)
  right
  cases l with
  | main => exact .inl (mainMove_of_mainStep jobs hs)
  | call whole chunks => exact .inr ⟨whole, chunks, rfl, callMove_of_step hs⟩
  | close =>
    rw [step] at hs
    split at hs
    · rename_i hpc
      cases hs
      exact .inl (.close hpc)
    · cases hs
  | abort =>
    rw [step] at hs
    split at hs
    · rename_i hpc
      cases hs
      exact .inl (.abort hpc)
    · cases hs
  | directWork l =>
    rw [step] at hs
    split at hs
    · rename_i c j hpc
      obtain ⟨q, hq, rfl⟩ := Option.map_eq_some_iff.mp hs
      exact .inl (.directWork hpc l hq)
    · cases hs
  | directFinish =>
    rw [step] at hs
    split at hs
    · rename_i c j hpc
      split at hs
      · rename_i hj
        cases hs
        exact .inl (.directFinish hpc hj)
      · cases hs
    · cases hs
  | directFail =>
    rw [step] at hs
    split at hs
    · rename_i c j hpc
      cases hs
      exact .inl (.directFail hpc)
    · cases hs
  | _ => exact absurd rfl hl

/-! ## Counting -/

/-- The gate it waits at. -/
def Worker.gateOf : Worker C J → Option Nat
  | .atGate g => some g
  | _ => none

/-- The chunk it sends. -/
def Worker.chunkOf : Worker C J → Option C
  | .job c _ => some c
  | _ => none

/-- The thread returns an error, now or later. -/
def Worker.bad : Worker C J → Bool
  | .failing _ => true
  | .left ok => !ok
  | _ => false

/-- The thread has nothing to do. -/
def Worker.resting : Worker C J → Bool
  | .idle => true
  | .atGate _ => true
  | _ => false

theorem Worker.chunkOf_of_resting (h : w.resting = true) : w.chunkOf = none := by
  cases w with
  | job c j => cases h
  | _ => rfl

theorem Worker.bad_of_resting (h : w.resting = true) : w.bad = false := by
  cases w with
  | idle | atGate => rfl
  | _ => cases h

/-- The message is a chunk. -/
def Msg.isMemory : Msg C → Bool
  | .memory _ => true
  | _ => false

/-- The threads at the current gate. -/
def State.here (s : State C J W) : Nat := holders Worker.gateOf s.workers s.gateNo

/-- `k` gate messages are still to be sent, `seen` reports have been received. -/
structure Arriving (s : State C J W) (k seen : Nat) : Prop where
  shape : ∃ ms q, s.queue = ms ++ List.replicate q (.gate s.gateNo)
    ∧ (∀ m ∈ ms, Msg.isMemory m = true) ∧ q + s.here + k = s.workers.length
    ∧ (0 < s.here → ms = [])
  notes : s.notes.count .gate + seen = s.here
  closed : s.isOpen s.gateNo = false

theorem Arriving.goto {k seen : Nat} (h : Arriving s k seen) (pc : Pc C J) :
    Arriving { s with pc := pc } k seen := ⟨h.shape, h.notes, h.closed⟩

/-- Chunks are sent and no gate is in use. -/
structure Filling (s : State C J W) : Prop where
  shape : ∀ m ∈ s.queue, Msg.isMemory m = true
  notes : s.notes.count .gate = 0
  opened : s.isOpen s.gateNo = true

theorem Filling.goto (h : Filling s) (pc : Pc C J) :
    Filling { s with pc := pc } := ⟨h.shape, h.notes, h.opened⟩

/-! ## One step of a thread -/

theorem any_set {P : Type} {f : P → Bool} {ws : List P} {w q : P} (hw : ws[i]? = some w)
    (hq : f q = f w) : (ws.set i q).any f = ws.any f := by
  obtain ⟨hi, rfl⟩ := List.getElem?_eq_some_iff.mp hw
  conv_rhs => rw [← set_getElem_self hi]
  rw [set_eq_take_append_cons_drop, set_eq_take_append_cons_drop, if_pos hi, if_pos hi,
    any_append, any_append, any_cons, any_cons, hq]

variable {jobs : Jobs C J W L E} {s s' : State C J W} {k seen : Nat}

/-- A worker leaves the main thread and the gates. -/
theorem WorkerMove.frame (m : WorkerMove jobs s s') :
    s'.pc = s.pc ∧ s'.threads = s.threads ∧ s'.gateNo = s.gateNo ∧ s'.isOpen = s.isOpen
      ∧ s'.workers.length = s.workers.length
      ∧ (s.workerError = true → s'.workerError = true) := by
  cases m with
  | fail hw => exact ⟨rfl, rfl, rfl, rfl, length_set, fun _ => rfl⟩
  | env e he => exact ⟨rfl, rfl, rfl, rfl, rfl, id⟩
  | _ => exact ⟨rfl, rfl, rfl, rfl, length_set, id⟩

/-- A thread that has ended stays as it is. -/
theorem WorkerMove.left (m : WorkerMove jobs s s') {j : Nat} {ok : Bool}
    (h : s.workers[j]? = some (.left ok)) : s'.workers[j]? = some (.left ok) := by
  have hset : ∀ {i : Nat} {w q : Worker C J}, s.workers[i]? = some w → w.hasLeft = false →
      (s.workers.set i q)[j]? = some (.left ok) := by
    intro i w q hw hl
    have hij : i ≠ j := by
      rintro rfl
      rw [h] at hw
      cases hw
      cases hl
    rw [getElem?_set_ne hij]
    exact h
  cases m with
  | env e he => exact h
  | memory hw | gate hw | disconnect hw | work hw | finish hw | fail hw | notify hw | leave hw
  | pass hw => exact hset hw rfl

/-- Workers keep to the filling phase. -/
theorem WorkerMove.filling (m : WorkerMove jobs s s') (h : Filling s) : Filling s' := by
  cases m with
  | memory hw hq => exact ⟨fun x hx => h.shape x (hq ▸ mem_cons_of_mem _ hx), h.notes, h.opened⟩
  | gate hw hq | disconnect hw hq => cases h.shape _ (hq ▸ mem_cons_self)
  | notify hw =>
    refine ⟨h.shape, ?_, h.opened⟩
    show (s.notes ++ [Note.error]).count .gate = 0
    rw [count_append, h.notes]
    rfl
  | _ => exact ⟨h.shape, h.notes, h.opened⟩

theorem Filling.not_gate (h : Filling s) {g : Nat} : .gate g ∉ s.queue := by
  intro hg
  cases h.shape _ hg

/-- A step that changes neither the queue nor who is at the gate. -/
theorem WorkerMove.arriving_of_same (m : WorkerMove jobs s s') (h : Arriving s k seen)
    (hqueue : s'.queue = s.queue) (hhere : s'.here = s.here)
    (hnotes : s'.notes.count .gate = s.notes.count .gate) : Arriving s' k seen := by
  obtain ⟨-, -, hgate, hopen, hlength, -⟩ := m.frame
  obtain ⟨ms, q, hshape⟩ := h.shape
  refine ⟨⟨ms, q, ?_⟩, ?_, ?_⟩
  · rw [hqueue, hhere, hgate, hlength]
    exact hshape
  · rw [hnotes, hhere]
    exact h.notes
  · rw [hopen, hgate]
    exact h.closed

theorem here_set {x : Worker C J} (hw : s.workers[i]? = some w) (hx : x.gateOf = w.gateOf) :
    holders Worker.gateOf (s.workers.set i x) s.gateNo = s.here :=
  congrFun (holders_set_same hw hx) _

/-- Workers keep to the gates. -/
theorem WorkerMove.arriving (m : WorkerMove jobs s s') (h : Arriving s k seen) :
    Arriving s' k seen := by
  obtain ⟨ms, n, hqueue, hms, hcount, hnone⟩ := h.shape
  have hnotes := h.notes
  have hmove := m
  cases m with
  | memory hw hq =>
    rename_i i c queue
    have hhere : holders Worker.gateOf (s.workers.set i (.job c (jobs.start c))) s.gateNo
      = s.here := here_set hw rfl
    cases ms with
    | nil =>
      -- only gate messages are queued
      have hmem : Msg.memory c ∈ List.replicate n (.gate s.gateNo) := by
        rw [← nil_append (List.replicate n _), ← hqueue, hq]
        exact mem_cons_self
      cases eq_of_mem_replicate hmem
    | cons x ms =>
      rw [hq] at hqueue
      obtain ⟨rfl, rfl⟩ := List.cons.inj hqueue
      refine ⟨⟨ms, n, rfl, fun y hy => hms y (mem_cons_of_mem _ hy), ?_, ?_⟩, ?_, h.closed⟩
      · show n + holders _ (s.workers.set i _) _ + k = (s.workers.set i _).length
        rw [hhere, length_set]
        exact hcount
      · intro hpos
        cases hnone (hhere ▸ hpos)
      · show _ = holders _ (s.workers.set i _) _
        rw [hhere]
        exact hnotes
  | gate hw hq =>
    rename_i i g queue
    cases ms with
    | cons x ms =>
      rw [hq] at hqueue
      obtain ⟨rfl, -⟩ := List.cons.inj hqueue
      cases hms _ mem_cons_self
    | nil =>
      cases n with
      | zero =>
        rw [hq] at hqueue
        cases hqueue
      | succ n =>
        rw [hq] at hqueue
        obtain ⟨hg, rfl⟩ := List.cons.inj hqueue
        cases hg
        have hhere : holders Worker.gateOf (s.workers.set i (.atGate s.gateNo)) s.gateNo
            = s.here + 1 := by
          rw [holders_set_take (f := Worker.gateOf) (k := s.gateNo) hw rfl rfl]
          exact update_self ..
        refine ⟨⟨[], n, rfl, hms, ?_, fun _ => rfl⟩, ?_, h.closed⟩
        · show n + holders _ (s.workers.set i _) _ + k = (s.workers.set i _).length
          rw [hhere, length_set]
          omega
        · show (s.notes ++ [Note.gate]).count .gate + seen = holders _ (s.workers.set i _) _
          rw [hhere, count_append, ← hnotes]
          show _ + 1 + seen = _
          omega
  | disconnect hw hq =>
    have hmem := hqueue ▸ hq ▸ mem_cons_self (a := Msg.disconnect)
    rcases mem_append.mp hmem with hmem | hmem
    · cases hms _ hmem
    · cases eq_of_mem_replicate hmem
  | work hw | finish hw | fail hw | leave hw =>
    exact hmove.arriving_of_same h rfl (here_set hw rfl) rfl
  | notify hw =>
    refine hmove.arriving_of_same h rfl (here_set hw rfl) ?_
    show (s.notes ++ [Note.error]).count .gate = _
    rw [count_append]
    rfl
  | pass hw hg =>
    rename_i i g
    -- the current gate is closed, so this is an older one
    have hold : s.gateNo ≠ g := by
      rintro rfl
      rw [h.closed] at hg
      cases hg
    refine hmove.arriving_of_same h rfl ?_ rfl
    show holders Worker.gateOf (s.workers.set i .idle) s.gateNo = s.here
    rw [holders_set_drop (f := Worker.gateOf) (k := g) hw rfl rfl, update_of_ne hold]
    rfl
  | env e he => exact hmove.arriving_of_same h rfl rfl rfl

/-- While nothing is queued and no thread is at work, nothing happens to a chunk. -/
theorem WorkerMove.quiet (m : WorkerMove jobs s s') (hqueue : s.queue = [])
    (hrest : ∀ w ∈ s.workers, w.resting = true) :
    s'.queue = [] ∧ (∀ w ∈ s'.workers, w.resting = true) ∧ s'.acked = s.acked
      ∧ s'.asked = s.asked := by
  have hbusy : ∀ {i : Nat} {w : Worker C J}, w.resting = false → s.workers[i]? ≠ some w := by
    intro i w hbusy hw
    rw [hrest _ (mem_of_getElem? hw)] at hbusy
    cases hbusy
  have hempty : ∀ {x : Msg C} {queue : List (Msg C)}, s.queue ≠ x :: queue := by
    intro x queue hq
    rw [hqueue] at hq
    cases hq
  cases m with
  | memory hw hq | gate hw hq | disconnect hw hq => exact absurd hq hempty
  | work hw | finish hw | fail hw | notify hw | leave hw => exact absurd hw (hbusy rfl)
  | pass hw hg =>
    refine ⟨hqueue, ?_, rfl, rfl⟩
    intro w hw
    rcases mem_or_eq_of_mem_set hw with hw | rfl
    · exact hrest w hw
    · rfl
  | env e he => exact ⟨hqueue, hrest, rfl, rfl⟩

/-- No chunk is with a thread. -/
theorem no_chunk_of_resting {ws : List (Worker C J)} [DecidableEq C]
    (h : ∀ w ∈ ws, w.resting = true) (c : C) : holders Worker.chunkOf ws c = 0 := by
  rw [holders_eq_zero]
  intro w hw hc
  rw [Worker.chunkOf_of_resting (h w hw)] at hc
  cases hc

/-! ## The invariant -/

section Count

variable [DecidableEq C] {rest : List C} {checked : Bool}

/-- Where the chunks are that `send_memory` was called with. -/
def Counted (s : State C J W) (rest : List C) : Prop :=
  ∀ c, s.asked.count c = s.acked.count c + s.queue.count (.memory c)
    + holders Worker.chunkOf s.workers c + rest.count c

/-- `cleanup` was called because of an error in a thread. -/
def Why.needsError : Why C → Bool
  | .chunk _ => true
  | .gate => true
  | _ => false

/-- What holds at each point of the main thread. -/
def Phase (s : State C J W) : Prop :=
  match s.pc with
  | .idle => s.threads = s.workers.length ∧ s.queue = [] ∧ Filling s
      ∧ (∀ w ∈ s.workers, w.resting = true) ∧ ∀ c, s.asked.count c = s.acked.count c
  | .chunks rest _ => s.threads = s.workers.length ∧ Filling s
      ∧ (s.workerError = true ∨ Counted s rest)
  | .gates k => s.threads = s.workers.length ∧ Arriving s k 0
      ∧ (s.workerError = true ∨ Counted s [])
  | .waiting seen => s.threads = s.workers.length ∧ Arriving s 0 seen
      ∧ (s.workerError = true ∨ Counted s [])
  | .cleanup why _ => why.needsError = true → s.workerError = true ∧ s.threads = s.workers.length
  | .joining why i err => why.needsError = true → s.workerError = true
      ∧ s.threads = s.workers.length
      ∧ ∀ j < i, ∃ ok, s.workers[j]? = some (.left ok) ∧ (ok = false → err = true)
  | .direct c _ => s.threads = 0 ∧ s.workers = [] ∧ s.queue = [] ∧ Filling s ∧ Counted s [c]
  | .failed => True
  | .closed => True

/-- The invariant of the pool. -/
structure Safe (s : State C J W) : Prop where
  phase : Phase s
  gateMsgs : ∀ g, .gate g ∈ s.queue → g = s.gateNo
  atGates : ∀ g, .atGate g ∈ s.workers → g ≤ s.gateNo ∧ (g = s.gateNo ∨ s.isOpen g = true)
  errorNote : .error ∈ s.notes → s.workerError = true
  bad : s.workers.any Worker.bad = s.workerError

theorem safe_start (n : Nat) (w : W) : Safe (start n w : State C J W) where
  phase := by
    refine ⟨(length_replicate ..).symm, rfl, ⟨?_, rfl, rfl⟩, ?_, ?_⟩
    · intro m hm
      cases hm
    · intro x hx
      rw [eq_of_mem_replicate hx]
      rfl
    · intro c
      rfl
  gateMsgs := by
    intro g hg
    cases hg
  atGates := by
    intro g hg
    cases eq_of_mem_replicate hg
  errorNote := by
    intro h
    cases h
  bad := by
    refine List.any_eq_false.mpr fun x hx => ?_
    rw [eq_of_mem_replicate hx]
    exact Bool.false_ne_true

/-- Workers lose no chunk without an error. -/
theorem WorkerMove.counted (m : WorkerMove jobs s s') (h : s.workerError = true ∨ Counted s rest) :
    s'.workerError = true ∨ Counted s' rest := by
  rcases h with herr | hcount
  · exact .inl (m.frame.2.2.2.2.2 herr)
  have hsame : ∀ {i : Nat} {w q : Worker C J}, s.workers[i]? = some w → q.chunkOf = w.chunkOf →
      ∀ c, s.asked.count c = s.acked.count c + s.queue.count (.memory c)
        + holders Worker.chunkOf (s.workers.set i q) c + rest.count c := by
    intro i w q hw hq c
    rw [holders_set_same hw hq]
    exact hcount c
  cases m with
  | memory hw hq =>
    rename_i i d queue
    right
    intro c
    have hold := hcount c
    show s.asked.count c = s.acked.count c + queue.count (.memory c)
      + holders Worker.chunkOf (s.workers.set i (.job d (jobs.start d))) c + rest.count c
    rw [holders_set_take (f := Worker.chunkOf) (k := d) hw rfl rfl, hold, hq, count_cons]
    by_cases hc : c = d
    · subst hc
      rw [update_self, if_pos (beq_self_eq_true _)]
      omega
    · rw [update_of_ne hc, if_neg (by simpa using fun h => hc h.symm)]
      omega
  | gate hw hq =>
    rename_i i g queue
    right
    intro c
    have hold := hsame (q := .atGate g) hw rfl c
    rw [hq, count_cons_of_ne (by simp)] at hold
    exact hold
  | disconnect hw hq =>
    right
    intro c
    have hold := hsame (q := .left true) hw rfl c
    rw [hq, count_cons_of_ne (by simp)] at hold
    exact hold
  | work hw l hj | notify hw | leave hw | pass hw => exact .inr (hsame hw rfl)
  | finish hw hj =>
    rename_i i d j
    right
    intro c
    have hold := hcount c
    show s.asked.count c = (s.acked ++ [d]).count c + s.queue.count (.memory c)
      + holders Worker.chunkOf (s.workers.set i .idle) c + rest.count c
    rw [holders_set_drop (f := Worker.chunkOf) (k := d) hw rfl rfl, hold, count_append, count_singleton]
    by_cases hc : c = d
    · subst hc
      have hpos := holders_pos (f := Worker.chunkOf) (k := c) hw rfl
      rw [update_self, if_pos (beq_self_eq_true _)]
      omega
    · rw [update_of_ne hc, if_neg (by simpa using fun h => hc h.symm)]
      omega
  | fail hw => exact .inl rfl
  | env e he => exact .inr hcount

/-- Workers keep to the phase of the main thread. -/
theorem WorkerMove.phase (m : WorkerMove jobs s s') (h : Phase s) : Phase s' := by
  obtain ⟨hpc, hthreads, -, -, hlength, herror⟩ := m.frame
  rw [Phase] at h ⊢
  rw [hpc, hthreads, hlength]
  cases hp : s.pc with
  | idle =>
    rw [hp] at h
    obtain ⟨hn, hqueue, hfill, hnone, hcount⟩ := h
    obtain ⟨hqueue', hnone', hacked, hasked⟩ := m.quiet hqueue hnone
    refine ⟨hn, hqueue', m.filling hfill, hnone', ?_⟩
    rw [hacked, hasked]
    exact hcount
  | chunks rest checked =>
    rw [hp] at h
    exact ⟨h.1, m.filling h.2.1, m.counted h.2.2⟩
  | gates | waiting =>
    rw [hp] at h
    exact ⟨h.1, m.arriving h.2.1, m.counted h.2.2⟩
  | cleanup why k =>
    rw [hp] at h
    exact fun hwhy => ⟨herror (h hwhy).1, (h hwhy).2⟩
  | joining why i err =>
    rw [hp] at h
    intro hwhy
    obtain ⟨herr, hn, hleft⟩ := h hwhy
    refine ⟨herror herr, hn, fun j hj => ?_⟩
    obtain ⟨ok, hok, hbad⟩ := hleft j hj
    exact ⟨ok, m.left hok, hbad⟩
  | direct c j =>
    rw [hp] at h
    obtain ⟨hn, hworkers, hqueue, hfill, hcount⟩ := h
    have hgone : ∀ {i : Nat} {w : Worker C J}, s.workers[i]? ≠ some w := by
      intro i w hw
      rw [hworkers] at hw
      cases hw
    cases m with
    | env e he => exact ⟨hn, hworkers, hqueue, ⟨hfill.shape, hfill.notes, hfill.opened⟩, hcount⟩
    | memory hw hq | gate hw hq | disconnect hw hq | work hw l hj | finish hw hj | fail hw
    | notify hw | leave hw | pass hw hg => exact absurd hw hgone
  | failed | closed => trivial

/-- Workers keep the invariant. -/
theorem WorkerMove.safe (m : WorkerMove jobs s s') (h : Safe s) : Safe s' := by
  have hphase := m.phase h.phase
  have hset : ∀ {i : Nat} {q : Worker C J}, q.gateOf = none →
      ∀ g, .atGate g ∈ s.workers.set i q → g ≤ s.gateNo ∧ (g = s.gateNo ∨ s.isOpen g = true) := by
    intro i q hq g hg
    rcases mem_or_eq_of_mem_set hg with hg | rfl
    · exact h.atGates g hg
    · cases hq
  have htail : ∀ {m : Msg C} {queue : List (Msg C)}, s.queue = m :: queue →
      ∀ g, .gate g ∈ queue → g = s.gateNo := by
    intro m queue hq g hg
    exact h.gateMsgs g (hq ▸ mem_cons_of_mem _ hg)
  have hbad : ∀ {i : Nat} {w q : Worker C J}, s.workers[i]? = some w → q.bad = w.bad →
      (s.workers.set i q).any Worker.bad = s.workerError :=
    fun hw hq => (any_set hw hq).trans h.bad
  cases m with
  | memory hw hq | disconnect hw hq =>
    exact ⟨hphase, htail hq, hset rfl, h.errorNote, hbad hw rfl⟩
  | gate hw hq =>
    rename_i i g queue
    refine ⟨hphase, htail hq, ?_, ?_, hbad hw rfl⟩
    · intro g' hg
      rcases mem_or_eq_of_mem_set hg with hg | hg
      · exact h.atGates g' hg
      · cases hg
        have hcur := h.gateMsgs g (hq ▸ mem_cons_self)
        exact ⟨Nat.le_of_eq hcur, .inl hcur⟩
    · intro he
      rcases mem_append.mp he with he | he
      · exact h.errorNote he
      · cases mem_singleton.mp he
  | work hw | finish hw | leave hw | pass hw =>
    exact ⟨hphase, h.gateMsgs, hset rfl, h.errorNote, hbad hw rfl⟩
  | fail hw =>
    refine ⟨hphase, h.gateMsgs, hset rfl, fun _ => rfl, ?_⟩
    exact List.any_eq_true.mpr ⟨.failing false, mem_set (List.getElem?_eq_some_iff.mp hw).1 _, rfl⟩
  | notify hw =>
    refine ⟨hphase, h.gateMsgs, hset rfl, fun _ => ?_, hbad hw rfl⟩
    rw [← h.bad]
    exact List.any_eq_true.mpr ⟨_, mem_of_getElem? hw, rfl⟩
  | env e he => exact ⟨hphase, h.gateMsgs, h.atGates, h.errorNote, h.bad⟩

/-! ## One step of the main thread -/

/-- The gate for the chunks before it. -/
theorem Safe.newGate (h : Safe s) (hpc : s.pc = .chunks [] checked) :
    Safe { s with
      pc := .gates s.threads
      gateNo := s.gateNo + 1
      isOpen := update s.isOpen (s.gateNo + 1) false } := by
  have hphase := h.phase
  rw [Phase, hpc] at hphase
  obtain ⟨hn, hfill, hcount⟩ := hphase
  have hhere : holders Worker.gateOf s.workers (s.gateNo + 1) = 0 := by
    rw [holders_eq_zero]
    intro w hw hg
    cases w with
    | atGate g =>
      cases hg
      exact absurd (h.atGates _ hw).1 (Nat.not_succ_le_self _)
    | _ => cases hg
  refine ⟨⟨hn, ⟨⟨s.queue, 0, (append_nil _).symm, hfill.shape, ?_, ?_⟩, ?_, ?_⟩, hcount⟩,
    ?_, ?_, h.errorNote, h.bad⟩
  · show 0 + holders Worker.gateOf s.workers (s.gateNo + 1) + s.threads = s.workers.length
    rw [hhere, hn]
    omega
  · intro hpos
    change 0 < holders Worker.gateOf s.workers (s.gateNo + 1) at hpos
    omega
  · show s.notes.count .gate + 0 = holders Worker.gateOf s.workers (s.gateNo + 1)
    rw [hhere, hfill.notes]
  · exact update_self ..
  · intro g hg
    exact absurd hg hfill.not_gate
  · intro g hg
    obtain ⟨hle, hopen⟩ := h.atGates g hg
    refine ⟨Nat.le_succ_of_le hle, .inr ?_⟩
    show update s.isOpen (s.gateNo + 1) false g = true
    rw [update_of_ne (by omega)]
    rcases hopen with rfl | hopen
    · exact hfill.opened
    · exact hopen

theorem Safe.pushChunk (h : Safe s) {c : C} (hpc : s.pc = .chunks (c :: rest) checked) :
    Safe { s with queue := s.queue ++ [.memory c], pc := .chunks rest false } := by
  have hphase := h.phase
  rw [Phase, hpc] at hphase
  obtain ⟨hn, hfill, hcount⟩ := hphase
  refine ⟨⟨hn, ⟨?_, hfill.notes, hfill.opened⟩, hcount.imp_right ?_⟩, ?_, h.atGates, h.errorNote,
    h.bad⟩
  · intro m hm
    rcases mem_append.mp hm with hm | hm
    · exact hfill.shape m hm
    · rw [mem_singleton.mp hm]
      rfl
  · intro hcount d
    have hold := hcount d
    show s.asked.count d = s.acked.count d + (s.queue ++ [Msg.memory c]).count (.memory d)
      + holders Worker.chunkOf s.workers d + rest.count d
    rw [count_append, count_singleton]
    rw [count_cons] at hold
    simp only [beq_iff_eq, Msg.memory.injEq] at hold ⊢
    omega
  · intro g hg
    rcases mem_append.mp hg with hg | hg
    · exact h.gateMsgs g hg
    · cases mem_singleton.mp hg

theorem Safe.pushGate (h : Safe s) (hpc : s.pc = .gates (k + 1)) :
    Safe { s with queue := s.queue ++ [.gate s.gateNo], pc := .gates k } := by
  have hphase := h.phase
  rw [Phase, hpc] at hphase
  obtain ⟨hn, harrive, hcount⟩ := hphase
  obtain ⟨ms, q, hqueue, hms, hsum, hnone⟩ := harrive.shape
  refine ⟨⟨hn, ⟨⟨ms, q + 1, ?_, hms, ?_, hnone⟩, harrive.notes, harrive.closed⟩,
    hcount.imp_right ?_⟩, ?_, h.atGates, h.errorNote, h.bad⟩
  · show s.queue ++ _ = _
    rw [hqueue, append_assoc, ← List.replicate_succ']
  · show q + 1 + s.here + k = s.workers.length
    omega
  · intro hcount d
    have hold := hcount d
    show s.asked.count d = s.acked.count d + (s.queue ++ [Msg.gate s.gateNo]).count (Msg.memory d)
      + holders Worker.chunkOf s.workers d + _
    rw [count_append, count_singleton]
    exact hold
  · intro g hg
    rcases mem_append.mp hg with hg | hg
    · exact h.gateMsgs g hg
    · cases mem_singleton.mp hg
      rfl

/-- Resting workers have met no error. -/
theorem Safe.no_error (h : Safe s) (hrest : ∀ w ∈ s.workers, w.resting = true) :
    s.workerError = false := by
  rw [← h.bad, List.any_eq_false]
  intro w hw
  rw [Worker.bad_of_resting (hrest w hw)]
  exact Bool.false_ne_true

/-- **ALL THREADS HAVE REPORTED**: nothing is queued, no thread is at work and none has failed. -/
theorem Safe.allSeen (h : Safe s) {notes : List Note} (hpc : s.pc = .waiting seen)
    (hnotes : s.notes = .gate :: notes) (hseen : seen + 1 = s.threads) :
    s.queue = [] ∧ notes.count .gate = 0 ∧ (∀ w ∈ s.workers, w.resting = true)
      ∧ ∀ c, s.asked.count c = s.acked.count c := by
  have hphase := h.phase
  rw [Phase, hpc] at hphase
  obtain ⟨hn, harrive, hcount⟩ := hphase
  obtain ⟨ms, q, hqueue, -, hsum, hnone⟩ := harrive.shape
  have hreports := harrive.notes
  rw [hnotes, count_cons_self] at hreports
  have hq : q = 0 := by omega
  have hms : ms = [] := hnone (by omega)
  have hempty : s.queue = [] := by
    rw [hqueue, hq, hms]
    rfl
  have hall : ∀ w ∈ s.workers, Worker.gateOf w = some s.gateNo := by
    have hlength : s.here = s.workers.length := by omega
    intro w hw
    exact of_decide_eq_true (countP_eq_length.mp hlength w hw)
  have hrest : ∀ w ∈ s.workers, w.resting = true := by
    intro w hw
    have hg := hall w hw
    cases w with
    | atGate g => rfl
    | _ => cases hg
  refine ⟨hempty, by omega, hrest, fun c => ?_⟩
  have hcounted := (hcount.resolve_left (by rw [h.no_error hrest]; exact Bool.false_ne_true)) c
  rw [hempty, no_chunk_of_resting hrest] at hcounted
  exact hcounted

theorem Safe.openGate (h : Safe s) : ∀ g, .atGate g ∈ s.workers →
    g ≤ s.gateNo ∧ (g = s.gateNo ∨ s.openGate.isOpen g = true) := by
  intro g hg
  obtain ⟨hle, hopen⟩ := h.atGates g hg
  refine ⟨hle, or_iff_not_imp_left.mpr fun hne => ?_⟩
  show update s.isOpen s.gateNo true g = true
  rw [update_of_ne hne]
  exact hopen.resolve_left hne

variable {why : Why C} {err : Bool}

/-- **A FAILED THREAD IS FOUND**: joining all threads after an error returns an error. -/
theorem Safe.joined (h : Safe s) (hpc : s.pc = .joining why i err) (hwhy : why.needsError = true)
    (hi : s.threads ≤ i) : err = true := by
  have hphase := h.phase
  rw [Phase, hpc] at hphase
  obtain ⟨herror, hn, hleft⟩ := hphase hwhy
  rw [← h.bad, List.any_eq_true] at herror
  obtain ⟨w, hw, hbad⟩ := herror
  obtain ⟨j, hj⟩ := getElem?_of_mem hw
  have hlt : j < i := by
    have := (List.getElem?_eq_some_iff.mp hj).1
    omega
  obtain ⟨ok, hok, hfound⟩ := hleft j hlt
  rw [hok] at hj
  cases hj
  exact hfound (Bool.not_eq_true' ok ▸ hbad)

/-- More chunks while nothing is under way. -/
theorem counted_append (hqueue : s.queue = []) (hrest : ∀ w ∈ s.workers, w.resting = true)
    (hcount : ∀ c, s.asked.count c = s.acked.count c) (cs : List C) (c : C) :
    (s.asked ++ cs).count c = s.acked.count c + s.queue.count (.memory c)
      + holders Worker.chunkOf s.workers c + cs.count c := by
  rw [count_append, hcount c, hqueue, no_chunk_of_resting hrest]
  rfl

/-- After the joins the pool is safe again. -/
theorem safe_afterJoin (h : Safe s) (hpc : s.pc = .joining why i err) (hi : s.threads ≤ i) :
    Safe { s with threads := 0, pc := afterJoin why err } := by
  refine ⟨?_, h.gateMsgs, h.atGates, h.errorNote, h.bad⟩
  cases herr : err with
  | true => cases why <;> trivial
  | false =>
    subst herr
    cases why with
    | broken | final => trivial
    | chunk rest | gate => cases h.joined hpc rfl hi

/-- A step that only changes the place of the main thread. -/
theorem Safe.goto (h : Safe s) (pc : Pc C J) (hphase : Phase { s with pc := pc }) :
    Safe { s with pc := pc } :=
  ⟨hphase, h.gateMsgs, h.atGates, h.errorNote, h.bad⟩

/-- The main thread keeps to the invariant. -/
theorem MainMove.safe (m : MainMove jobs s s') (h : Safe s) : Safe s' := by
  have hphase := h.phase
  rw [Phase] at hphase
  cases m with
  | newGate hpc => exact h.newGate hpc
  | seeError hpc herror =>
    rw [hpc] at hphase
    exact h.goto _ fun _ => ⟨herror, hphase.1⟩
  | check hpc | retry hpc | gatesSent hpc =>
    rw [hpc] at hphase
    exact h.goto _ ⟨hphase.1, hphase.2.1.goto _, hphase.2.2⟩
  | noReceiver hpc hall | close | abort => exact h.goto _ fun hwhy => Bool.noConfusion hwhy
  | pushChunk hpc => exact h.pushChunk hpc
  | gateRefused hpc hall | noSender hpc hall | directFail hpc => exact h.goto _ trivial
  | pushGate hpc => exact h.pushGate hpc
  | lastReport hpc hnotes hseen =>
    rw [hpc] at hphase
    obtain ⟨hqueue, hcount, hrest, hacked⟩ := h.allSeen hpc hnotes hseen
    refine ⟨⟨hphase.1, hqueue, ⟨?_, hcount, update_self ..⟩, hrest, hacked⟩,
      h.gateMsgs, h.openGate, ?_, h.bad⟩
    · intro m hm
      change m ∈ s.queue at hm
      rw [hqueue] at hm
      cases hm
    · exact fun he => h.errorNote (hnotes ▸ mem_cons_of_mem _ he)
  | report hpc hnotes hseen =>
    rename_i seen notes
    rw [hpc] at hphase
    obtain ⟨hn, harrive, hcount⟩ := hphase
    have hreports := harrive.notes
    rw [hnotes, count_cons_self] at hreports
    refine ⟨⟨hn, ⟨harrive.shape, ?_, harrive.closed⟩, hcount⟩, h.gateMsgs, h.atGates, ?_, h.bad⟩
    · show notes.count .gate + (seen + 1) = s.here
      omega
    · exact fun he => h.errorNote (hnotes ▸ mem_cons_of_mem _ he)
  | errorReport hpc hnotes =>
    rw [hpc] at hphase
    have herror : s.workerError = true := h.errorNote (hnotes ▸ mem_cons_self)
    exact ⟨fun _ => ⟨herror, hphase.1⟩, h.gateMsgs, h.openGate, fun _ => herror, h.bad⟩
  | allDisconnected hpc =>
    rw [hpc] at hphase
    refine h.goto _ fun hwhy => ⟨(hphase hwhy).1, (hphase hwhy).2, ?_⟩
    intro j hj
    exact absurd hj (Nat.not_lt_zero j)
  | disconnectRefused hpc hall =>
    rw [hpc] at hphase
    exact h.goto _ hphase
  | pushDisconnect hpc hall =>
    rw [hpc] at hphase
    refine ⟨hphase, ?_, h.atGates, h.errorNote, h.bad⟩
    intro g hg
    rcases mem_append.mp hg with hg | hg
    · exact h.gateMsgs g hg
    · cases mem_singleton.mp hg
  | dropDisconnect hpc hall =>
    rw [hpc] at hphase
    exact ⟨hphase, h.gateMsgs, h.atGates, h.errorNote, h.bad⟩
  | join hpc hok =>
    rename_i why i err ok
    rw [hpc] at hphase
    refine h.goto _ fun hwhy => ?_
    obtain ⟨herror, hn, hleft⟩ := hphase hwhy
    refine ⟨herror, hn, fun j hj => ?_⟩
    rcases Nat.lt_succ_iff_lt_or_eq.mp hj with hj | rfl
    · obtain ⟨ok', hok', hfound⟩ := hleft j hj
      refine ⟨ok', hok', fun hf => ?_⟩
      rw [hfound hf]
      rfl
    · refine ⟨ok, hok, fun hf => ?_⟩
      rw [hf]
      exact Bool.or_true err
  | joined hpc hi => exact safe_afterJoin h hpc hi
  | directWork hpc l hj =>
    rw [hpc] at hphase
    obtain ⟨hn, hworkers, hqueue, hfill, hcount⟩ := hphase
    exact ⟨⟨hn, hworkers, hqueue, ⟨hfill.shape, hfill.notes, hfill.opened⟩, hcount⟩,
      h.gateMsgs, h.atGates, h.errorNote, h.bad⟩
  | directFinish hpc hj =>
    rename_i c j
    rw [hpc] at hphase
    obtain ⟨hn, hworkers, hqueue, hfill, hcount⟩ := hphase
    refine ⟨⟨?_, hqueue, ⟨hfill.shape, hfill.notes, hfill.opened⟩, ?_, ?_⟩,
      h.gateMsgs, h.atGates, h.errorNote, h.bad⟩
    · show s.threads = s.workers.length
      rw [hn, hworkers]
      rfl
    · intro w hw
      rw [show s.workers = [] from hworkers] at hw
      cases hw
    · intro d
      have hold := hcount d
      show s.asked.count d = (s.acked ++ [c]).count d
      rw [hqueue, hworkers] at hold
      rw [hold, count_append]
      rfl

/-- So does a call. -/
theorem CallMove.safe (m : CallMove jobs whole chunks s s') (h : Safe s) : Safe s' := by
  have hphase := h.phase
  rw [Phase] at hphase
  cases m with
  | direct hpc hn =>
    rw [hpc] at hphase
    obtain ⟨hlength, hqueue, hfill, hrest, hcount⟩ := hphase
    have hworkers : s.workers = [] := eq_nil_of_length_eq_zero (hlength ▸ hn)
    exact ⟨⟨hn, hworkers, hqueue, ⟨hfill.shape, hfill.notes, hfill.opened⟩,
      counted_append hqueue hrest hcount _⟩, h.gateMsgs, h.atGates, h.errorNote, h.bad⟩
  | chunks hpc hn =>
    rw [hpc] at hphase
    obtain ⟨hlength, hqueue, hfill, hrest, hcount⟩ := hphase
    exact ⟨⟨hlength, ⟨hfill.shape, hfill.notes, hfill.opened⟩,
      .inr (counted_append hqueue hrest hcount _)⟩, h.gateMsgs, h.atGates, h.errorNote, h.bad⟩

/-- **ONE STEP** of the threads, the main thread or the rest of the world. -/
theorem safe_step (h : Safe s) (hs : step jobs s l = some s') : Safe s' := by
  rcases step_cases hs with m | m | ⟨whole, chunks, -, m⟩
  · exact m.safe h
  · exact m.safe h
  · exact m.safe h

/-- The invariant holds in every run. -/
theorem safe_reachable {n : Nat} {w : W} (h : Reachable (step jobs) (start n w) s) : Safe s :=
  inv_of_reachable h (safe_start n w) fun _ _ _ hs hstep => safe_step hs hstep

/-- **`send_memory` RETURNS `Ok` ONLY WHEN ALL MEMORY IS ACKNOWLEDGED**, in every interleaving
    of the threads and with any of them failing at any point; and a `cleanup` after the error
    of a thread finds that error when it has joined all threads. -/
theorem sent_when_idle {n : Nat} {w : W} (h : Reachable (step jobs) (start n w) s) :
    (s.pc = .idle → s.asked.Perm s.acked ∧ s.queue = [] ∧ (∀ w ∈ s.workers, w.resting = true)
        ∧ s.workerError = false)
      ∧ ∀ why i err, s.pc = .joining why i err → why.needsError = true → s.threads ≤ i →
        err = true := by
  have hsafe := safe_reachable h
  refine ⟨fun hpc => ?_, fun why i err hpc => hsafe.joined hpc⟩
  have hphase := hsafe.phase
  rw [Phase, hpc] at hphase
  obtain ⟨-, hqueue, -, hrest, hcount⟩ := hphase
  exact ⟨perm_iff_count.mpr hcount, hqueue, hrest, hsafe.no_error hrest⟩

end Count

/-- Chunks that take one step each. -/
def ticks : Jobs Nat Bool Nat Unit Unit where
  start := fun _ => false
  step := fun _ j w => if j then none else some (true, w + 1)
  finished := id
  env := fun _ _ => none

/-- Two threads, two chunks. -/
def twoChunks : List (Label Nat Unit Unit) :=
  [.call 0 [5, 6], .main, .main, .main, .main, .take 1, .take 0, .main, .work 0 (), .main,
    .finish 0, .main, .main, .take 0, .work 1 (), .main, .finish 1, .take 1, .main]

/-- The first thread fails with its chunk; the second one goes through the gates and leaves. -/
def oneFails : List (Label Nat Unit Unit) :=
  [.call 0 [5], .main, .main, .take 0, .fail 0, .notify 0, .leave 0] ++ List.replicate 9 .main
    ++ [.take 1, .pass 1, .take 1, .pass 1, .take 1, .main]

theorem twoChunks_sent :
    (∃ s : State Nat Bool Nat, Reachable (step ticks) (start 2 0) s
      ∧ s.pc = .idle ∧ s.acked = [6, 5] ∧ s.asked.Perm s.acked)
      ∧ ∃ (s : State Nat Bool Nat) (err : Bool), Reachable (step ticks) (start 2 0) s
        ∧ s.pc = .joining .gate 2 err ∧ err = true := by
  have hsent : Reachable (step ticks) (start 2 0) _ := ⟨twoChunks, rfl⟩
  have hfails : Reachable (step ticks) (start 2 0) _ := ⟨oneFails, rfl⟩
  exact ⟨⟨_, hsent, rfl, rfl, ((sent_when_idle hsent).1 rfl).1⟩,
    _, _, hfails, rfl, (sent_when_idle hfails).2 .gate 2 _ rfl rfl (Nat.le_refl 2)⟩

end SendGate
