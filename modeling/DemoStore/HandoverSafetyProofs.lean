import DemoStore.HandoverSourceProofs
import DemoStore.HandoverDestProofs

/-! # What a live migration guarantees

    The invariants of the two processes are put together.  They meet in two facts about the
    streams only: what has been read is a prefix of what has been written, in both directions.

    * `handed_over`: when `send_migration` has come to its end, the new virtual machine runs, it
      was built from what was sent, and the old one is paused;
    * `both_run_only_after`: both run at the same time only behind three failures, the lost
      answer to `Complete` and the two operations of the sender after it;
    * `locks_follow`: no disk is locked twice, the new virtual machine runs with all its locks,
      and the old one has them until it is paused or the migration fails;
    * `failed_source`: what a failure leaves at the source;
    * `never_confused`: no panic, no command that the receiver does not expect, and the errors
      that the callers of `ok_or_abandon` pass are never returned. -/

namespace Handover

open MachineRun SocketStream DirtyLog List Option

variable {job : Job} {w w' : World}

/-! ## Both processes -/

/-- A disk that is written to is locked by one of them at most. -/
def Exclusive (w : World) : Prop :=
  ∀ disk ∈ w.src.locks, disk.readOnly = false → disk ∉ w.dst.locks

/-- The sides agree with the stream, and no lock is held by both. -/
structure Inv (job : Job) (w : World) : Prop where
  wire : WireInv job w.up.items w.down.seen w.src.pc
  vm : VmInv job w.src
  dest : DestInv job w.dst w.up.seen w.down.items
  exclusive : Exclusive w

/-- Both sides start in the invariant. -/
theorem inv_start (job : Job) (vm : VmState) : Inv job (start job vm) where
  wire := ⟨rfl, rfl⟩
  vm := ⟨rfl, by simp [start]⟩
  dest := ⟨rfl, rfl, rfl, rfl⟩
  exclusive := by
    intro disk _ _ h
    cases h

variable {s : Source} {up : Stream Message} {down : Stream Status} {p : Phase}
  {sent g : List Message} {pc : SendPc} {a : Progress} {m : Message} {heard : List Status}
  {f : Failure} {disk : Disk} {d : Dest} {vm : VmState}

/-- The sender only gives locks back. -/
theorem locks_of_sendMove (hmove : SendMove job w s up down) (h : disk ∈ s.locks) :
    disk ∈ w.src.locks := by
  cases hmove with
  | flow hpc hask hflow =>
    rename_i p e pc
    simp only [Source.goto, effect] at h
    split at h
    · exact h
    · exact h
    · exact h
    · exact mem_of_mem_erase h
    · exact h
    · exact h
  | check | reject | fail | halt | write | cut | heard | refused | lost | abandon | giveUp
  | abandoned | stopLog | stopLogFailed | resume | resumeFailed | noResume | exit => exact h

/-- The streams as the other process leaves them. -/
theorem sendMove_streams (hmove : SendMove job w s up down) :
    up.seen = w.up.seen ∧ down.items = w.down.items := by
  cases hmove with
  | heard hpc hread | refused hpc hread hst | abandoned hpc hread =>
    exact ⟨rfl, Stream.items_of_read hread⟩
  | write | cut | abandon => exact ⟨Stream.seen_write _ _, rfl⟩
  | check | reject | flow | fail | halt | lost | giveUp | stopLog | stopLogFailed | resume
  | resumeFailed | noResume | exit => exact ⟨rfl, rfl⟩

theorem recvMove_streams (hmove : RecvMove job w d up down) :
    up.items = w.up.items ∧ down.seen = w.down.seen := by
  cases hmove with
  | take hpc hread => exact ⟨Stream.items_of_read hread, rfl⟩
  | answer hpc => exact ⟨rfl, Stream.seen_write _ _⟩
  | accept | leave | serve | fail | answerFailed => exact ⟨rfl, rfl⟩

/-- Only a new virtual machine takes locks, and it has to find them free. -/
theorem exclusive_of_recvMove (h : Inv job w) (hmove : RecvMove job w d up down)
    (hsrc : disk ∈ w.src.locks) (hrw : disk.readOnly = false) : disk ∉ d.locks := by
  have hold := h.exclusive disk hsrc hrw
  cases hmove with
  | serve hpc =>
    rename_i st m
    have hdest := h.dest
    rw [DestInv, hpc] at hdest
    obtain ⟨g, a, -, -, hshows, rfl, hfin, -⟩ := hdest
    obtain ⟨a', -, -, hshows', hlocks | hlock⟩ | ⟨heq, -⟩ | ⟨-, heq⟩ :=
      served w.src.locks m hshows hfin
    · rw [hlocks]
      exact hold
    · rw [hshows'.2]
      intro hin
      have hdisks : disk ∈ job.disks := by
        cases a' with
        | restored image | completed image => exact hin
        | established | started _ | configured _ => cases hin
      have := List.all_eq_true.mp hlock disk hdisks
      simp [hrw, hsrc] at this
    · rw [heq]
      exact hold
    · rw [heq]
      exact hold
  | answer hpc =>
    rename_i s st
    cases st with
    | aborted => exact not_mem_nil
    | established | started | memoryFdsReceived _ | configured _ | stateReceived
    | completed => exact hold
  | accept | take | leave | fail | answerFailed => exact hold

/-- Each step of either side keeps it. -/
theorem inv_step {l : Label} (h : Inv job w) (hs : step job w l = some w') : Inv job w' := by
  cases l with
  | send e =>
    obtain ⟨hmove, hdst⟩ := sendMove_of_step hs
    obtain ⟨hseen, hitems⟩ := sendMove_streams hmove
    refine ⟨wireInv_move h.wire hmove, vmInv_move h.wire h.vm hmove, ?_, ?_⟩
    · rw [hdst, hseen, hitems]
      exact h.dest
    · intro disk hdisk hrw
      rw [hdst]
      exact h.exclusive disk (locks_of_sendMove hmove hdisk) hrw
  | recv e =>
    obtain ⟨hmove, hsrc⟩ := recvMove_of_step hs
    obtain ⟨hitems, hseen⟩ := recvMove_streams hmove
    refine ⟨?_, ?_, destInv_move h.dest hmove, ?_⟩
    · rw [hsrc, hitems, hseen]
      exact h.wire
    · rw [hsrc]
      exact h.vm
    · intro disk hdisk hrw
      rw [hsrc] at hdisk
      exact exclusive_of_recvMove h hmove hdisk hrw

/-- So it holds in every run. -/
theorem inv_reachable (h : Reachable (step job) (start job vm) w) : Inv job w :=
  inv_of_reachable h (inv_start job vm) fun _ _ _ => inv_step

/-! ## The script leads to the virtual machine -/

/-- The file descriptors that are sent. -/
def sentFiles (job : Job) : List (UInt32 × Nat) := if job.isLocal then job.fds else []

/-- What the new virtual machine is built from. -/
def image (job : Job) (chunks : List Chunk) (bytes : List UInt8) : Image :=
  ⟨⟨job.config, sentFiles job, chunks⟩, bytes⟩

theorem take_memoryFd_msg (files : List (UInt32 × Nat)) (fd : UInt32 × Nat) :
    (Progress.started files).take (.memoryFd fd) = some (.started (files ++ [fd])) :=
  take_memoryFd rfl (Message.body_carry _ _)

theorem take_memory_msg (data : Configured) (chunk : Chunk) :
    (Progress.configured data).take (.memory chunk) =
      some (.configured { data with memory := data.memory ++ [chunk] }) :=
  take_memory rfl (Message.body_carry _ _)

theorem foldlM_memoryFd (fds files : List (UInt32 × Nat)) :
    (fds.map Message.memoryFd).foldlM Progress.take (.started files) =
      some (.started (files ++ fds)) := by
  induction fds generalizing files with
  | nil => simp
  | cons fd fds ih =>
    rw [map_cons, foldlM_cons, take_memoryFd_msg]
    simpa using ih (files ++ [fd])

theorem foldlM_memory (chunks : List Chunk) (data : Configured) :
    (chunks.map Message.memory).foldlM Progress.take (.configured data) =
      some (.configured { data with memory := data.memory ++ chunks }) := by
  induction chunks generalizing data with
  | nil => simp
  | cons chunk chunks ih =>
    rw [map_cons, foldlM_cons, take_memory_msg]
    simpa using ih { data with memory := data.memory ++ [chunk] }

theorem follows_fds (fds : List (UInt32 × Nat)) :
    Follows (.start :: fds.map .memoryFd) (.started fds) := by
  have htake : Progress.established.take .start = some (.started []) := rfl
  rw [Follows, foldlM_cons, htake]
  simpa using foldlM_memoryFd fds []

/-- The receiver follows the opening requests. -/
theorem follows_opening (job : Job) : Follows (opening job) (.started (sentFiles job)) := by
  unfold opening sentFiles
  split
  · exact follows_fds job.fds
  · exact follows_fds []

/-- A receiver that took every request before `State` has the configuration and all chunks. -/
theorem follows_upToState (job : Job) (chunks : List Chunk) :
    Follows (upToState job chunks) (.configured ⟨job.config, sentFiles job, chunks⟩) := by
  have hconfig : (Progress.started (sentFiles job)).take (.config job.config) =
      some (.configured ⟨job.config, sentFiles job, []⟩) :=
    take_config rfl (Message.body_carry _ _)
  have hopening := follows_opening job
  unfold Follows at hopening
  rw [upToState, Follows, foldlM_append, hopening, bind_eq_bind, bind_some, foldlM_cons, hconfig]
  simpa using foldlM_memory chunks ⟨job.config, sentFiles job, []⟩

/-- It has restored the image after `State`. -/
theorem follows_state (job : Job) (chunks : List Chunk) (bytes : List UInt8) :
    Follows (upToState job chunks ++ [.state bytes]) (.restored (image job chunks bytes)) :=
  follows_concat.mpr ⟨_, follows_upToState job chunks, take_state rfl (Message.body_carry _ _)⟩

/-- It has completed after `Complete`. -/
theorem follows_complete (job : Job) (chunks : List Chunk) (bytes : List UInt8) :
    Follows (upToState job chunks ++ [.state bytes, .complete])
      (.completed (image job chunks bytes)) := by
  have htake : (Progress.restored (image job chunks bytes)).take .complete =
      some (.completed (image job chunks bytes)) := rfl
  have h := follows_concat.mpr ⟨_, follows_state job chunks bytes, htake⟩
  rwa [append_assoc] at h

/-- What the sender sends, the receiver can follow. -/
theorem Script.follows (h : Script job p sent) : ∃ a, Follows sent a := by
  cases p with
  | connect | start =>
    cases h
    exact ⟨_, follows_nil⟩
  | cpuid =>
    cases h
    exact ⟨_, follows_fds []⟩
  | fds left =>
    obtain ⟨-, gone, -, rfl⟩ := h
    exact ⟨_, follows_fds gone⟩
  | config =>
    cases h
    exact ⟨_, follows_opening job⟩
  | complete =>
    obtain ⟨chunks, bytes, rfl⟩ := h
    exact ⟨_, follows_state job chunks bytes⟩
  | stopLog | completeMigration =>
    obtain ⟨chunks, bytes, rfl⟩ := h
    exact ⟨_, follows_complete job chunks bytes⟩
  | startMigration | pauseLocal | connections | startLog | collect | memory _ | pause _
  | lastLog _ | last _ | cleanup | release _ | snapshot | state _ =>
    obtain ⟨chunks, rfl⟩ := h
    exact ⟨_, follows_upToState job chunks⟩

theorem ScriptPc.follows (h : ScriptPc job pc sent) : ∃ a, Follows sent a := by
  cases pc with
  | doing p => exact Script.follows h
  | exit =>
    have h' : Script job .completeMigration sent := h
    exact h'.follows
  | check | answer _ | abandon _ | abandoned _ | undo _ | undoResume _ | returned _ => exact h.elim

/-! ## Success -/

/-- When the sender has heard `Ok` for everything it has sent, the receiver has done it. -/
theorem Inv.caught_up (h : Inv job w)
    (hheard : w.down.seen = List.replicate w.up.items.length .ok) (ha : Follows w.up.items a) :
    Shows job a w.dst ∧
      (w.dst.pc = .accept ∨ w.dst.pc = .idle a.state ∨ w.dst.pc = .returned a.state.finished) := by
  have hle := h.dest.answered_le
  have hheard_le := w.down.seen_prefix.length_le
  rw [hheard, length_replicate] at hheard_le
  have hgot : w.up.seen = w.up.items := w.up.seen_prefix.eq_of_length_le (by omega)
  have hans : w.down.seen = w.down.items := by
    refine w.down.seen_prefix.eq_of_length_le ?_
    rw [hheard, length_replicate, ← hgot]
    exact hle
  refine h.dest.caught_up ?_ (hgot.symm ▸ ha)
  rw [← hans, hheard, hgot]

/-- When the sender reports success, it is paused without locks, and the receiver runs the image
    it was sent, with the locks of all disks. -/
theorem handed_over {vm : VmState} (h : Reachable (step job) (start job vm) w)
    (hpc : w.src.pc = .returned .ok) :
    w.src.vm = .paused ∧ w.src.vcpus = false ∧ w.src.locks = [] ∧
    w.dst.pc = .returned true ∧ w.dst.locks = job.disks ∧
    ∃ chunks bytes, w.up.items = upToState job chunks ++ [.state bytes, .complete] ∧
      w.dst.vm = some ⟨.running, true, image job chunks bytes⟩ := by
  have hinv := inv_reachable h
  have hwire := hinv.wire
  have hvm := hinv.vm
  rw [hpc] at hwire
  rw [VmInv, hpc] at hvm
  obtain ⟨⟨hpaused, hcpus⟩, hlocks⟩ := hvm
  obtain ⟨⟨chunks, bytes, hsent⟩, hheard⟩ := hwire
  have hfollows : Follows w.up.items (.completed (image job chunks bytes)) := by
    rw [hsent]
    exact follows_complete job chunks bytes
  obtain ⟨⟨hnew, hheld⟩, hdst⟩ := hinv.caught_up hheard hfollows
  refine ⟨hpaused, hcpus, hlocks, ?_, hheld, chunks, bytes, hsent, hnew⟩
  rcases hdst with hacc | hidle | hret
  · have hdest := hinv.dest
    rw [DestInv, hacc] at hdest
    have := hdest.2.2.1
    rw [hnew] at this
    cases this
  · have hdest := hinv.dest
    rw [DestInv, hidle] at hdest
    obtain ⟨a, -, -, -, hfin, -⟩ := hdest
    cases hfin
  · exact hret

/-- A job with one disk. -/
def oneDisk : Job where
  destination := .tcp
  isLocal := false
  connections := 1
  sharedMemory := false
  fds := []
  config := [7]
  disks := [⟨1, false⟩]

/-- One page of memory. -/
def page : Chunk := ⟨[⟨4096, 1⟩], [42]⟩

/-- A request that is answered with `Ok`. -/
def request : List Label := [.send .ok, .recv .ok, .recv .ok, .recv .ok, .send .ok]

/-- One iteration of pre-copy and the last one, up to the snapshot. -/
def untilSnapshot : List Label :=
  [.send .ok, .send .ok, .recv .ok] ++ request ++ [.send .ok] ++ request ++
  [.send .ok, .send .ok, .send .ok, .send (.table false page)] ++ request ++
  [.send (.table true ⟨[], []⟩), .send .ok, .send (.table false page)] ++ request ++
  [.send .ok, .send .ok, .send .ok]

/-- A migration in which nothing fails. -/
def allWell : List Label :=
  untilSnapshot ++ [.send (.bytes [9])] ++ request ++ request ++ [.send .ok, .send .ok, .send .ok]

theorem oneDisk_handed_over :
    ∃ w, exec (step oneDisk) (start oneDisk .running) allWell = some w ∧
      w.src.vcpus = false ∧ w.dst.locks = [⟨1, false⟩] := by
  have hrun : (exec (step oneDisk) (start oneDisk .running) allWell).map (fun w => w.src.pc) =
      some (.returned .ok) := by decide
  obtain ⟨w, hw, hpc⟩ := map_eq_some_iff.mp hrun
  obtain ⟨-, hcpus, -, -, hlocks, -⟩ := handed_over ⟨allWell, hw⟩ hpc
  exact ⟨w, hw, hcpus, hlocks⟩

/-! ## Both virtual machines -/

/-- The failures behind which the new virtual machine may run: the answer to `Complete` is lost,
    or one of the two operations after it fails. -/
def Late (f : Failure) : Prop :=
  f = .answer .complete ∨ f = .op .stopLog ∨ f = .op .completeMigration

/-- The sender has sent `Complete`. -/
def Told (sent : List Message) : Prop := ∃ m ∈ sent, m.request.command = .complete

/-- A completed receiver was sent `Complete`. -/
theorem Follows.told {got : List Message} {image : Image} (h : Follows got (.completed image)) :
    Told got := by
  rcases eq_nil_or_concat got with rfl | ⟨g, m, rfl⟩
  · cases h
  · rw [concat_eq_append] at h ⊢
    obtain ⟨a, -, htake⟩ := follows_concat.mp h
    refine ⟨m, by simp, ?_⟩
    cases a with
    | restored image => exact (ite_none_right_eq_some.mp htake).1
    | established => exact absurd (ite_none_right_eq_some.mp htake).2 (by simp)
    | started | configured =>
      simp only [Progress.take] at htake
      split at htake <;> cases htake
    | completed image => cases htake

theorem not_told_upToState (chunks : List Chunk) : ¬ Told (upToState job chunks) := by
  rintro ⟨m, hm, hc⟩
  simp only [upToState, opening, mem_append, mem_cons, List.mem_map] at hm
  rcases hm with (rfl | hm) | rfl | ⟨chunk, -, rfl⟩
  · cases hc
  · split at hm
    · obtain ⟨fd, -, rfl⟩ := List.mem_map.mp hm
      cases hc
    · cases hm
  · cases hc
  · cases hc

/-- Behind `Complete` two phases are left. -/
theorem Script.late (h : Script job p sent) (htold : Told sent) :
    p = .stopLog ∨ p = .completeMigration := by
  cases p with
  | stopLog => exact .inl rfl
  | completeMigration => exact .inr rfl
  | connect | start | cpuid =>
    cases h
    simp [Told, Message.start, Message.bare] at htold
  | fds left =>
    obtain ⟨-, gone, -, rfl⟩ := h
    obtain ⟨m, hm, hc⟩ := htold
    rcases mem_cons.mp hm with rfl | hm
    · cases hc
    · obtain ⟨fd, -, rfl⟩ := List.mem_map.mp hm
      cases hc
  | config =>
    cases h
    obtain ⟨m, hm, hc⟩ := htold
    exact (not_told_upToState [] ⟨m, mem_append_left _ hm, hc⟩).elim
  | complete =>
    obtain ⟨chunks, bytes, rfl⟩ := h
    obtain ⟨m, hm, hc⟩ := htold
    rcases mem_append.mp hm with hm | hm
    · exact (not_told_upToState chunks ⟨m, hm, hc⟩).elim
    · cases mem_singleton.mp hm
      cases hc
  | startMigration | pauseLocal | connections | startLog | collect | memory _ | pause _
  | lastLog _ | last _ | cleanup | release _ | snapshot | state _ =>
    obtain ⟨chunks, rfl⟩ := h
    exact (not_told_upToState chunks htold).elim

/-- Only one phase sends `Complete`. -/
theorem ask_complete (hask : ask job p = some m) (hc : m.request.command = .complete) :
    p = .complete ∧ m.payload = none := by
  cases p with
  | complete =>
    cases hask
    exact ⟨rfl, rfl⟩
  | fds left =>
    cases left with
    | nil => cases hask
    | cons fd left =>
      cases hask
      cases hc
  | memory chunk | last chunk =>
    simp only [ask] at hask
    split at hask
    · cases hask
    · cases hask
      cases hc
  | start | config | state _ =>
    cases hask
    cases hc
  | connect | cpuid | startMigration | pauseLocal | connections | startLog | collect | pause _
  | lastLog _ | cleanup | release _ | snapshot | stopLog | completeMigration => cases hask

theorem Asked.late (h : Asked job p sent heard) (htold : Told sent) : p = .complete := by
  obtain ⟨asks, m, hask, ⟨hscript, -⟩, rfl⟩ := h
  obtain ⟨m', hm', hc⟩ := htold
  rcases mem_append.mp hm' with hm' | hm'
  · rcases hscript.late ⟨m', hm', hc⟩ with rfl | rfl <;> cases hask
  · cases mem_singleton.mp hm'
    exact (ask_complete hask hc).1

theorem CutOff.late (h : CutOff job p sent heard) (htold : Told sent) :
    p = .stopLog ∨ p = .completeMigration := by
  obtain ⟨asks, m, hask, hm, ⟨hscript, -⟩, rfl⟩ := h
  obtain ⟨m', hm', hc⟩ := htold
  rcases mem_append.mp hm' with hm' | hm'
  · exact hscript.late ⟨m', hm', hc⟩
  · cases mem_singleton.mp hm'
    exact (hm (ask_complete hask hc).2).elim

/-- Nothing has been refused. -/
def AllOk (heard : List Status) : Prop := ∀ s ∈ heard, s = .ok

/-- A refusal is an answer other than `Ok`. -/
theorem Refused.not_allOk (h : Refused job p sent heard) : ¬ AllOk heard := by
  obtain ⟨h, st, -, hst, rfl⟩ := h
  intro hall
  exact hst (hall st (by simp))

theorem Abandoned.not_allOk (h : Abandoned job p sent heard) : ¬ AllOk heard := by
  obtain ⟨s, h, -⟩ := h
  exact h.not_allOk

/-- Behind `Complete`, a failure is a late one. -/
theorem FailWire.late (h : FailWire job sent heard f) (htold : Told sent) (hok : AllOk heard) :
    Late f := by
  cases f with
  | op p =>
    rcases h with h | h
    · rcases h.1.late htold with rfl | rfl
      · exact .inr (.inl rfl)
      · exact .inr (.inr rfl)
    · rcases h.late htold with rfl | rfl
      · exact .inr (.inl rfl)
      · exact .inr (.inr rfl)
  | halted p =>
    obtain ⟨⟨hscript, -⟩, hquiet⟩ := h
    rcases hscript.late htold with rfl | rfl <;> cases hquiet
  | answer p =>
    have h' : Asked job p sent heard := h
    rw [h'.late htold]
    exact .inl rfl
  | refused p b =>
    cases b with
    | false =>
      rcases h with h | h
      · exact (h.not_allOk hok).elim
      · exact (h.not_allOk hok).elim
    | true =>
      obtain ⟨h', st, habandoned, rfl⟩ := h
      exact (habandoned.not_allOk fun s hs => hok s (by simp [hs])).elim

/-- When the new virtual machine runs, `Complete` was sent and nothing has been refused. -/
theorem Inv.of_running (h : Inv job w) (hrun : w.dst.running) :
    Told w.up.items ∧ AllOk w.down.seen ∧ w.dst.locks = job.disks := by
  obtain ⟨⟨image, hfollows, hshows⟩, hok⟩ := h.dest.of_running hrun
  obtain ⟨m, hm, hc⟩ := hfollows.told
  exact ⟨⟨m, w.up.seen_prefix.subset hm, hc⟩, fun s hs => hok s (w.down.seen_prefix.subset hs),
    hshows.2⟩

/-- A receiver runs only beside a sender that had come to `Complete`. -/
theorem Inv.late (h : Inv job w) (hrun : w.dst.running) (hf : w.src.pc.failure = some f) :
    Late f := by
  obtain ⟨htold, hok, -⟩ := h.of_running hrun
  exact (h.wire.failWire hf).late htold hok

theorem Late.quiet (h : Late f) : f.phase.quiet = true := by
  rcases h with rfl | rfl | rfl <;> rfl

/-- At a late failure the vCPUs are stopped. -/
theorem Late.stopped (h : Late f) (hat : FailAt job f s) : s.vcpus = false := (hat.paused h.quiet).2

/-- The sender behind `Complete`: its vCPUs are stopped until it fails. -/
theorem Inv.stopped (h : Inv job w) (hrun : w.dst.running)
    (hpc : ∀ f, w.src.pc ≠ .returned (.failed f)) : w.src.vcpus = false := by
  obtain ⟨htold, hok, -⟩ := h.of_running hrun
  have hlate := fun f => h.late (f := f) hrun
  have hwire := h.wire
  have hvm := h.vm
  unfold VmInv at hvm
  cases hsrc : w.src.pc with
  | check =>
    rw [hsrc] at hwire
    rw [hwire.1] at htold
    simp [Told] at htold
  | doing p =>
    rw [hsrc] at hwire hvm
    rcases hwire.1.late htold with rfl | rfl <;> exact hvm.1.2
  | answer p =>
    rw [hsrc] at hwire hvm
    have hasked : Asked job p w.up.items w.down.seen := hwire
    cases hasked.late htold
    exact hvm.1.2
  | abandon p =>
    rw [hsrc] at hwire
    exact (Refused.not_allOk hwire hok).elim
  | abandoned p =>
    rw [hsrc] at hwire
    exact (Abandoned.not_allOk hwire hok).elim
  | undo f | undoResume f =>
    rw [hsrc] at hvm
    exact (hlate f (by rw [hsrc]; rfl)).stopped hvm
  | exit =>
    rw [hsrc] at hvm
    exact hvm.1.2
  | returned o =>
    rw [hsrc] at hvm hwire
    cases o with
    | ok | exitFailed => exact hvm.1.2
    | rejected =>
      rw [hwire.1] at htold
      simp [Told] at htold
    | failed f => exact (hpc f hsrc).elim
    | stopLogFailed f => exact (hlate f (by rw [hsrc]; rfl)).stopped hvm
    | resumeFailed f => exact (hlate f (by rw [hsrc]; rfl)).stopped hvm.1

/-- Both machines run only when the sender failed after it had sent `Complete` and resumed; it
    then runs without locks. -/
theorem both_run_only_after {vm : VmState} (h : Reachable (step job) (start job vm) w)
    (hdst : w.dst.running) (hsrc : w.src.vcpus = true) :
    ∃ f, Late f ∧ w.src.pc = .returned (.failed f) ∧ w.src.locks = [] ∧
      w.dst.locks = job.disks := by
  have hinv := inv_reachable h
  by_cases hpc : ∃ f, w.src.pc = .returned (.failed f)
  · obtain ⟨f, hpc⟩ := hpc
    have hlate := hinv.late hdst (f := f) (by rw [hpc]; rfl)
    have hvm := hinv.vm
    rw [VmInv, hpc] at hvm
    refine ⟨f, hlate, hpc, ?_, (hinv.of_running hdst).2.2⟩
    rcases hlate with rfl | rfl | rfl <;> exact hvm.2.2
  · have := hinv.stopped hdst (not_exists.mp hpc)
    rw [hsrc] at this
    cases this

/-- The new virtual machine has been resumed, and the answer does not arrive. -/
def answerLost : List Label :=
  untilSnapshot ++ [.send (.bytes [9])] ++ request ++
    [.send .ok, .recv .ok, .recv .ok, .send .fail, .send .ok, .send .ok]

theorem oneDisk_answerLost :
    ∃ w, exec (step oneDisk) (start oneDisk .running) answerLost = some w ∧ w.dst.running ∧
      w.src.vcpus = true ∧ w.src.locks = [] := by
  have hrun : (exec (step oneDisk) (start oneDisk .running) answerLost).map
      (fun w => (w.src.vcpus, w.dst.vm.map DestVm.vcpus)) = some (true, some true) := by decide
  obtain ⟨w, hw, heq⟩ := map_eq_some_iff.mp hrun
  obtain ⟨hsrc, hvm⟩ := Prod.mk.inj heq
  have hdst : w.dst.running := map_eq_some_iff.mp hvm
  obtain ⟨f, -, -, hlocks, -⟩ := both_run_only_after ⟨answerLost, hw⟩ hdst hsrc
  exact ⟨w, hw, hdst, hsrc, hlocks⟩

/-! ## The locks -/

theorem heldAt_of_not_quiet (h : p.quiet = false) : heldAt job p = job.disks := by
  cases p with
  | lastLog _ | last _ | cleanup | release _ | snapshot | state _ | complete | stopLog
  | completeMigration => cases h
  | connect | start | cpuid | fds _ | config | startMigration | pauseLocal | connections
  | startLog | collect | memory _ | pause _ => rfl

/-- A sender that runs has all its locks. -/
theorem At.held (h : At job p s) (hcpus : s.vcpus = true) : s.locks = job.disks := by
  obtain ⟨hfits, hlocks⟩ := h
  unfold Fits at hfits
  split at hfits
  · rw [hfits.2] at hcpus
    cases hcpus
  · rename_i hquiet
    rw [hlocks]
    exact heldAt_of_not_quiet (by simpa using hquiet)

/-- As long as it has not failed, a sender whose vCPUs run has its locks. -/
theorem VmInv.held (h : VmInv job s) (hf : s.pc.failure = none) (hcpus : s.vcpus = true) :
    s.locks = job.disks := by
  unfold VmInv at h
  cases hpc : s.pc with
  | check =>
    rw [hpc] at h
    exact h.1
  | doing p | answer p | abandon p | abandoned p | exit =>
    rw [hpc] at h
    exact At.held h hcpus
  | undo f | undoResume f =>
    rw [hpc] at hf
    cases hf
  | returned o =>
    rw [hpc] at h hf
    cases o with
    | ok | exitFailed => exact At.held h hcpus
    | rejected => exact h.1
    | failed f | stopLogFailed f | resumeFailed f => cases hf

/-- No lock for writing is held by both sides; a receiver that runs has all locks, and so has a
    sender that runs and has not failed. -/
theorem locks_follow {vm : VmState} (h : Reachable (step job) (start job vm) w) :
    (∀ disk ∈ w.src.locks, disk.readOnly = false → disk ∉ w.dst.locks) ∧
    (w.dst.running → w.dst.locks = job.disks) ∧
    (w.src.pc.failure = none → w.src.vcpus = true → w.src.locks = job.disks) := by
  have hinv := inv_reachable h
  exact ⟨hinv.exclusive, fun hrun => (hinv.of_running hrun).2.2, hinv.vm.held⟩

theorem oneDisk_locks :
    ∃ w, exec (step oneDisk) (start oneDisk .running) allWell = some w ∧ w.dst.running ∧
      w.dst.locks = [⟨1, false⟩] := by
  have hrun : (exec (step oneDisk) (start oneDisk .running) allWell).map
      (fun w => w.dst.vm.map DestVm.vcpus) = some (some true) := by decide
  obtain ⟨w, hw, hvm⟩ := map_eq_some_iff.mp hrun
  have hdst : w.dst.running := map_eq_some_iff.mp hvm
  exact ⟨w, hw, hdst, (locks_follow ⟨allWell, hw⟩).2.1 hdst⟩

/-! ## Failure -/

/-- What a failure leaves at the sender: the locks of the phase it failed in, and a machine that
    is resumed, or still paused where the resume failed. -/
theorem failed_source {vm : VmState} {o : Outcome} {f : Failure}
    (h : Reachable (step job) (start job vm) w) (hpc : w.src.pc = .returned o)
    (hf : w.src.pc.failure = some f) :
    (w.dst.running → Late f) ∧ w.src.locks = heldAt job f.phase ∧
    (o = .failed f → w.src.vm = .running ∧ (w.src.vcpus = true ↔ ∀ p, f ≠ .halted p)) ∧
    (o ≠ .failed f → f.phase.quiet = true → w.src.vm = .paused ∧ w.src.vcpus = false) := by
  have hinv := inv_reachable h
  refine ⟨fun hrun => hinv.late hrun hf, ?_⟩
  have hvm := hinv.vm
  rw [VmInv, hpc] at hvm
  rw [hpc] at hf
  cases o with
  | failed f' =>
    cases hf
    obtain ⟨hrun, hcpus, hlocks⟩ := hvm
    exact ⟨hlocks, fun _ => ⟨hrun, hcpus⟩, fun hne => (hne rfl).elim⟩
  | stopLogFailed f' =>
    cases hf
    have hat : FailAt job f w.src := hvm
    exact ⟨hat.locks, by simp, fun _ => hat.paused⟩
  | resumeFailed f' =>
    cases hf
    obtain ⟨hat, -⟩ := hvm
    exact ⟨hat.locks, by simp, fun _ => hat.paused⟩
  | ok | rejected | exitFailed => cases hf

/-- The locks have been released when `snapshot` fails. -/
def snapshotFails : List Label := untilSnapshot ++ [.send .fail, .send .ok, .send .ok]

/-- The virtual machine runs again, without the lock on its disk. -/
theorem oneDisk_snapshotFails :
    ∃ w, exec (step oneDisk) (start oneDisk .running) snapshotFails = some w ∧
      w.src.vcpus = true ∧ w.src.locks = [] := by
  have hrun : (exec (step oneDisk) (start oneDisk .running) snapshotFails).map
      (fun w => w.src.pc) = some (.returned (.failed (.op .snapshot))) := by decide
  obtain ⟨w, hw, hpc⟩ := map_eq_some_iff.mp hrun
  have hf : w.src.pc.failure = some (.op .snapshot) := by rw [hpc]; rfl
  obtain ⟨-, hlocks, hfailed, -⟩ := failed_source ⟨snapshotFails, hw⟩ hpc hf
  exact ⟨w, hw, (hfailed rfl).2.mpr (by simp), hlocks⟩

/-! ## What the two never do -/

/-- What is on the stream as long as nothing has been refused: requests of the script, the last
    of them possibly cut off. -/
def Shape (job : Job) (sent : List Message) : Prop :=
  ∃ p asks, Script job p asks ∧
    (sent = asks ∨ ∃ m m', ask job p = some m ∧ m'.request = m.request ∧ sent = asks ++ [m'])

theorem Rest.shape (h : Rest job p sent heard) : Shape job sent := ⟨p, sent, h.1, .inl rfl⟩

theorem Asked.shape (h : Asked job p sent heard) : Shape job sent := by
  obtain ⟨asks, m, hask, hrest, hsent⟩ := h
  exact ⟨p, asks, hrest.1, .inr ⟨m, m, hask, rfl, hsent⟩⟩

/-- What was sent before a failure fits the script. -/
theorem FailWire.shape (h : FailWire job sent heard f) (hok : AllOk heard) : Shape job sent := by
  cases f with
  | op p =>
    rcases h with h | ⟨asks, m, hask, -, hrest, hsent⟩
    · exact h.shape
    · exact ⟨p, asks, hrest.1, .inr ⟨m, ⟨m.request, none⟩, hask, rfl, hsent⟩⟩
  | halted p => exact h.1.shape
  | answer p => exact Asked.shape h
  | refused p b =>
    cases b with
    | false =>
      rcases h with h | h
      · exact (h.not_allOk hok).elim
      · exact (h.not_allOk hok).elim
    | true =>
      obtain ⟨h', st, habandoned, rfl⟩ := h
      exact (habandoned.not_allOk fun s hs => hok s (by simp [hs])).elim

/-- Unless the receiver refused, what was sent is a part of the script. -/
theorem WireInv.shape (h : WireInv job sent heard pc) (hok : AllOk heard) : Shape job sent := by
  cases pc with
  | check => exact ⟨.connect, [], rfl, .inl h.1⟩
  | doing p | exit => exact Rest.shape h
  | answer p => exact Asked.shape h
  | abandon p => exact (Refused.not_allOk h hok).elim
  | abandoned p => exact (Abandoned.not_allOk h hok).elim
  | undo f | undoResume f => exact FailWire.shape h hok
  | returned o =>
    cases o with
    | ok | exitFailed => exact Rest.shape h
    | rejected => exact ⟨.connect, [], rfl, .inl h.1⟩
    | failed f | stopLogFailed f | resumeFailed f => exact FailWire.shape h hok

theorem Follows.expects {b : Progress} (h : Follows (g ++ [m]) b) (ha : Follows g a) :
    expects a.state m.request.command = true := by
  obtain ⟨a', ha', htake⟩ := follows_concat.mp h
  cases ha'.unique ha
  exact expects_of_take htake

/-- Each request of a script is one the receiver expects. -/
theorem Shape.expects (h : Shape job sent) (hpre : g ++ [m] <+: sent) (ha : Follows g a) :
    expects a.state m.request.command = true := by
  obtain ⟨p, asks, hscript, rfl | ⟨m₀, m', hask, hreq, rfl⟩⟩ := h
  · obtain ⟨b, hb⟩ := hscript.follows
    obtain ⟨b', hb'⟩ := hb.of_prefix hpre
    exact hb'.expects ha
  · rcases prefix_concat_iff.mp hpre with heq | hpre
    · -- the last one has the command that the script has there
      obtain ⟨rfl, hlast⟩ := List.append_inj' heq rfl
      cases hlast
      obtain ⟨b, hb⟩ := (script_next hask hscript).follows
      rw [hreq]
      exact hb.expects ha
    · obtain ⟨b, hb⟩ := hscript.follows
      obtain ⟨b', hb'⟩ := hb.of_prefix hpre
      exact hb'.expects ha

/-- After a refusal there is no further answer to be read. -/
theorem Inv.no_answer (h : Inv job w) (hwire : Refused job p sent w.down.seen) :
    w.down.read = none := by
  obtain ⟨h', st, -, hst, hheard⟩ := hwire
  have hmem : st ∈ w.down.seen := by simp [hheard]
  obtain ⟨-, n, s', hans⟩ := h.dest.of_refusal (w.down.seen_prefix.subset hmem) hst
  have hpre := w.down.seen_prefix
  rw [hans] at hpre
  rcases prefix_concat_iff.mp hpre with heq | hpre
  · cases hread : w.down.read with
    | none => rfl
    | some r =>
      obtain ⟨s, down⟩ := r
      have hlt := Stream.length_of_read hread
      rw [heq, hans] at hlt
      exact absurd hlt (Nat.lt_irrefl _)
  · exact absurd (eq_of_mem_replicate (hpre.subset hmem)) hst

/-- No `ok_or_abandon` has returned the error it was given. -/
def NoRefusal (s : Source) : Prop := ∀ p, s.pc.failure ≠ some (.refused p true)

theorem failure_next (job : Job) (p : Phase) : (next job p).failure = none := by
  cases p with
  | fds left | release left => cases left <;> rfl
  | connect | start | cpuid | config | startMigration | pauseLocal | connections | startLog
  | collect | memory _ | pause _ | lastLog _ | last _ | cleanup | snapshot | state _ | complete
  | stopLog | completeMigration => rfl

theorem failure_flow {e : SendEvent} (hflow : flow job p e = some pc) : pc.failure = none := by
  obtain rfl | ⟨-, chunk, rfl | rfl⟩ | ⟨remaining, chunk, -, rfl⟩ | ⟨-, bytes, rfl⟩ :=
    flow_cases hflow
  · exact failure_next job p
  · rfl
  · rfl
  · rfl
  · rfl

/-- The sender's steps return no such error. -/
theorem noRefusal_move (hinv : Inv job w) (h : NoRefusal w.src) (hmove : SendMove job w s up down) :
    NoRefusal s := by
  intro p
  have hold := h p
  cases hmove with
  | abandoned hpc hread =>
    -- the one that returns it would have to read a second answer
    have hwire := hinv.wire
    rw [hpc] at hwire
    obtain ⟨sent, hrefused, -⟩ := hwire
    rw [hinv.no_answer hrefused] at hread
    cases hread
  | flow hpc hask hflow => simp [Source.goto, failure_flow hflow]
  | heard hpc hread => simp [Source.goto, failure_next]
  | stopLog _ hpc | stopLogFailed hpc | resume hpc _ | resumeFailed hpc _ | noResume hpc _ =>
    rw [hpc] at hold
    exact hold
  | exit hpc ho =>
    rcases ho with rfl | rfl <;> simp [Source.goto, SendPc.failure]
  | check | reject | fail | halt | write | cut | refused | lost | abandon | giveUp =>
    simp [Source.goto, SendPc.failure]

theorem noRefusal_reachable (h : Reachable (step job) (start job vm) w) : NoRefusal w.src := by
  refine (inv_of_reachable (I := fun w => Inv job w ∧ NoRefusal w.src) h
    ⟨inv_start job vm, fun p => by simp [start, SendPc.failure]⟩ ?_).2
  rintro w l w' ⟨hinv, hno⟩ hs
  refine ⟨inv_step hinv hs, ?_⟩
  cases l with
  | recv e =>
    rw [(recvMove_of_step hs).2]
    exact hno
  | send e => exact noRefusal_move hinv hno (sendMove_of_step hs).1

/-- The receiver does not panic and expects each request that it serves, and no error that a
    caller of `ok_or_abandon` passes is returned. -/
theorem never_confused {vm : VmState} (h : Reachable (step job) (start job vm) w) :
    w.dst.pc ≠ .panicked ∧
    (∀ st m, w.dst.pc = .serve st m → expects st m.request.command = true) ∧
    ∀ p, w.src.pc.failure ≠ some (.refused p true) := by
  have hinv := inv_reachable h
  refine ⟨?_, ?_, ?_⟩
  · intro hpc
    have hdest := hinv.dest
    rw [DestInv, hpc] at hdest
    exact hdest
  · intro st m hpc
    have hdest := hinv.dest
    rw [DestInv, hpc] at hdest
    obtain ⟨g, a, hgot, hfollows, -, rfl, -, hans⟩ := hdest
    have hok : AllOk w.down.seen := by
      intro s hs
      have := w.down.seen_prefix.subset hs
      rw [hans] at this
      exact eq_of_mem_replicate this
    exact (hinv.wire.shape hok).expects (hgot ▸ w.up.seen_prefix) hfollows
  · exact noRefusal_reachable h

/-- The request is cut off behind its header. -/
def configCut : List Label :=
  [.send .ok, .send .ok, .recv .ok] ++ request ++ [.send .ok, .send .cut, .recv .ok]

theorem oneDisk_configCut :
    ∃ w st m, exec (step oneDisk) (start oneDisk .running) configCut = some w ∧
      w.dst.pc = .serve st m ∧ expects st m.request.command = true := by
  have hrun : (exec (step oneDisk) (start oneDisk .running) configCut).map (fun w => w.dst.pc) =
      some (.serve .started ⟨⟨.config, 1⟩, none⟩) := by decide
  obtain ⟨w, hw, hpc⟩ := map_eq_some_iff.mp hrun
  obtain ⟨-, hserve, -⟩ := never_confused ⟨configCut, hw⟩
  exact ⟨w, _, _, hw, hpc, hserve _ _ hpc⟩

end Handover
