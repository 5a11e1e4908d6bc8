import DemoStore.HandoverProofs

/-! # The sender of a live migration

    What `vm_send_migration` has written and heard determines where it is in its program
    (`wireInv_move`), and where it is determines whether its virtual machine runs and which
    disks it holds (`vmInv_move`).  Both are invariants of the sender alone: the receiver adds
    answers to the stream and the sender has not read them yet. -/

namespace Handover

open MachineRun SocketStream DirtyLog

variable {job : Job}

/-! ## The sender: what it has written and heard -/

/-- The requests before `Config`. -/
def opening (job : Job) : List Message :=
  .start :: if job.isLocal then job.fds.map .memoryFd else []

/-- The requests before `State`. -/
def upToState (job : Job) (chunks : List Chunk) : List Message :=
  opening job ++ .config job.config :: chunks.map .memory

/-- `sent` is a possible list of the requests that come before a phase. -/
def Script (job : Job) (p : Phase) (sent : List Message) : Prop :=
  match p with
  | .connect | .start => sent = []
  | .cpuid => sent = [.start]
  | .fds left =>
    job.isLocal = true ∧ ∃ gone, job.fds = gone ++ left ∧ sent = .start :: gone.map .memoryFd
  | .config => sent = opening job
  | .complete => ∃ chunks bytes, sent = upToState job chunks ++ [.state bytes]
  | .stopLog | .completeMigration =>
    ∃ chunks bytes, sent = upToState job chunks ++ [.state bytes, .complete]
  | _ => ∃ chunks, sent = upToState job chunks

/-- As `Script`, for the whole program. -/
def ScriptPc (job : Job) (pc : SendPc) (sent : List Message) : Prop :=
  match pc with
  | .doing p => Script job p sent
  | .exit => Script job .completeMigration sent
  | _ => False

variable {p : Phase} {pc : SendPc} {sent : List Message} {s : Source} {e : SendEvent} {m : Message}
  {w : World} {up : Stream Message} {down : Stream Status}

/-- A phase without a request keeps to the script. -/
theorem script_flow (hask : ask job p = none) (hflow : flow job p e = some pc)
    (h : Script job p sent) : ScriptPc job pc sent := by
  obtain rfl | ⟨rfl, chunk, rfl | rfl⟩ | ⟨remaining, chunk, rfl, rfl⟩ | ⟨rfl, bytes, rfl⟩ :=
    flow_cases hflow
  · cases p with
    | cpuid =>
      simp only [Script] at h
      by_cases hl : job.isLocal = true
      · simp [next, ScriptPc, Script, hl, h]
      · simp [next, ScriptPc, Script, opening, hl, h]
    | fds left =>
      cases left with
      | cons fd left => cases hask
      | nil =>
        obtain ⟨hl, gone, hgone, rfl⟩ := h
        simp [next, ScriptPc, Script, opening, hl, hgone]
    | startMigration =>
      simp only [next, ScriptPc]
      split <;> exact h
    | release left => cases left <;> exact h
    | start | config | state _ | complete => cases hask
    | connect | pauseLocal | connections | startLog | collect | memory _ | pause _ | lastLog _
    | last _ | cleanup | snapshot | stopLog | completeMigration => exact h
  · exact h
  · exact h
  · exact h
  · exact h

/-- So does a phase whose request was answered. -/
theorem script_next (hask : ask job p = some m) (h : Script job p sent) :
    ScriptPc job (next job p) (sent ++ [m]) := by
  cases p with
  | start =>
    cases hask
    cases h
    rfl
  | fds left =>
    cases left with
    | nil => cases hask
    | cons fd left =>
      cases hask
      obtain ⟨hl, gone, hgone, rfl⟩ := h
      exact ⟨hl, gone ++ [fd], by simp [hgone], by simp⟩
  | config =>
    cases hask
    cases h
    exact ⟨[], by simp [upToState]⟩
  | memory chunk | last chunk =>
    simp only [ask] at hask
    split at hask
    · cases hask
    · cases hask
      obtain ⟨chunks, rfl⟩ := h
      exact ⟨chunks ++ [chunk], by simp [upToState]⟩
  | state bytes =>
    cases hask
    obtain ⟨chunks, rfl⟩ := h
    exact ⟨chunks, bytes, rfl⟩
  | complete =>
    cases hask
    obtain ⟨chunks, bytes, rfl⟩ := h
    simp only [next, ScriptPc]
    split <;> exact ⟨chunks, bytes, by simp⟩
  | connect | cpuid | startMigration | pauseLocal | connections | startLog | collect | pause _
  | lastLog _ | cleanup | release _ | snapshot | stopLog | completeMigration => cases hask

/-- The phases behind `pause`. -/
def Phase.quiet : Phase → Bool
  | .lastLog _ | .last _ | .cleanup | .release _ | .snapshot | .state _ | .complete | .stopLog
  | .completeMigration => true
  | _ => false

section Wire

variable (job) (p : Phase) (sent : List Message) (heard : List Status)

/-- Before a phase: every request has been answered with `Ok`. -/
def Rest : Prop := Script job p sent ∧ heard = List.replicate sent.length .ok

/-- The request of the phase has been written. -/
def Asked : Prop := ∃ asks m, ask job p = some m ∧ Rest job p asks heard ∧ sent = asks ++ [m]

/-- It has been written without its payload. -/
def CutOff : Prop :=
  ∃ asks m, ask job p = some m ∧ m.payload ≠ none ∧ Rest job p asks heard ∧
    sent = asks ++ [⟨m.request, none⟩]

/-- Its answer was not `Ok`. -/
def Refused : Prop := ∃ h st, Asked job p sent h ∧ st ≠ .ok ∧ heard = h ++ [st]

/-- And then `Abandon` has been written. -/
def Abandoned : Prop := ∃ s, Refused job p s heard ∧ sent = s ++ [.abandon]

/-- What a failure leaves on the stream. -/
def FailWire : Failure → Prop
  | .op p => Rest job p sent heard ∨ CutOff job p sent heard
  | .halted p => Rest job p sent heard ∧ p.quiet = false
  | .answer p => Asked job p sent heard
  | .refused p false => Refused job p sent heard ∨ Abandoned job p sent heard
  | .refused p true => ∃ h st, Abandoned job p sent h ∧ heard = h ++ [st]

/-- What the sender has written and heard, by where it is. -/
def WireInv : SendPc → Prop
  | .check | .returned .rejected => sent = [] ∧ heard = []
  | .doing p => Rest job p sent heard
  | .answer p => Asked job p sent heard
  | .abandon p => Refused job p sent heard
  | .abandoned p => Abandoned job p sent heard
  | .undo f | .undoResume f | .returned (.failed f) | .returned (.stopLogFailed f)
  | .returned (.resumeFailed f) => FailWire job sent heard f
  | .exit | .returned .ok | .returned .exitFailed => Rest job .completeMigration sent heard

end Wire

/-- The failure that the sender is in or has returned with. -/
def SendPc.failure : SendPc → Option Failure
  | .undo f | .undoResume f | .returned (.failed f) | .returned (.stopLogFailed f)
  | .returned (.resumeFailed f) => some f
  | _ => none

variable {heard : List Status}

theorem WireInv.failWire {f : Failure} (h : WireInv job sent heard pc) (hf : pc.failure = some f) :
    FailWire job sent heard f := by
  cases pc with
  | undo f' | undoResume f' =>
    cases hf
    exact h
  | returned o =>
    cases o with
    | failed f' | stopLogFailed f' | resumeFailed f' =>
      cases hf
      exact h
    | ok | rejected | exitFailed => cases hf
  | check | doing _ | answer _ | abandon _ | abandoned _ | exit => cases hf

theorem wireInv_of_script (h : ScriptPc job pc sent)
    (heq : heard = List.replicate sent.length .ok) : WireInv job sent heard pc := by
  cases pc with
  | doing | exit => exact ⟨h, heq⟩
  | check | answer _ | abandon _ | abandoned _ | undo _ | undoResume _ | returned _ => exact h.elim

/-- The sender's steps keep to the wire invariant. -/
theorem wireInv_move (h : WireInv job w.up.items w.down.seen w.src.pc)
    (hmove : SendMove job w s up down) : WireInv job up.items down.seen s.pc := by
  cases hmove with
  | check hpc _ =>
    rw [hpc] at h
    exact ⟨h.1, by rw [h.1]; exact h.2⟩
  | reject hpc | lost hpc
  | stopLog _ hpc | stopLogFailed hpc | resume hpc _ | resumeFailed hpc _ | noResume hpc _ =>
    rw [hpc] at h
    exact h
  | flow hpc hask hflow =>
    rw [hpc] at h
    exact wireInv_of_script (script_flow hask hflow h.1) h.2
  | fail hpc =>
    rw [hpc] at h
    exact .inl h
  | halt hpc hp =>
    rw [hpc] at h
    exact ⟨h, by rcases hp with rfl | ⟨r, rfl⟩ <;> rfl⟩
  | write hpc hask =>
    rw [hpc] at h
    exact ⟨w.up.items, _, hask, h, rfl⟩
  | cut hpc hask hm =>
    rw [hpc] at h
    exact .inr ⟨w.up.items, _, hask, hm, h, rfl⟩
  | heard hpc hread =>
    rw [hpc] at h
    obtain ⟨asks, m, hask, ⟨hscript, hheard⟩, hsent⟩ := h
    -- one more request, one more `Ok`
    refine wireInv_of_script (hsent ▸ script_next hask hscript) ?_
    rw [Stream.seen_of_read hread, hheard, hsent, List.length_append, List.length_singleton,
      List.replicate_succ']
  | refused hpc hread hst =>
    rw [hpc] at h
    exact ⟨_, _, h, hst, Stream.seen_of_read hread⟩
  | abandon hpc =>
    rw [hpc] at h
    exact ⟨_, h, rfl⟩
  | giveUp hpc =>
    rcases hpc with hpc | hpc
    · rw [hpc] at h
      exact .inl h
    · rw [hpc] at h
      exact .inr h
  | abandoned hpc hread =>
    rw [hpc] at h
    exact ⟨_, _, h, Stream.seen_of_read hread⟩
  | exit hpc ho =>
    rw [hpc] at h
    rcases ho with rfl | rfl <;> exact h

/-! ## The sender: its virtual machine -/

/-- The disks that are locked before a phase. -/
def heldAt (job : Job) : Phase → List Disk
  | .release left => left
  | .snapshot | .state _ | .complete | .stopLog | .completeMigration => []
  | _ => job.disks

/-- Paused behind `pause`, running before it. -/
def Fits (quiet : Bool) (s : Source) : Prop :=
  if quiet then s.vm = .paused ∧ s.vcpus = false else s.vm = .running ∧ s.vcpus = true

/-- The virtual machine and the locks before a phase. -/
def At (job : Job) (p : Phase) (s : Source) : Prop := Fits p.quiet s ∧ s.locks = heldAt job p

/-- Both when `send_migration` has failed. -/
def FailAt (job : Job) (f : Failure) (s : Source) : Prop :=
  match f with
  | .halted p => p.quiet = false ∧ s.vm = .running ∧ s.vcpus = false ∧ s.locks = heldAt job p
  | f => At job f.phase s

/-- Both by where the sender is. -/
def VmInv (job : Job) (s : Source) : Prop :=
  match s.pc with
  | .check | .returned .rejected =>
    s.locks = job.disks ∧ (s.vcpus = true ↔ s.vm = .running)
  | .doing p | .answer p | .abandon p | .abandoned p => At job p s
  | .undo f | .undoResume f | .returned (.stopLogFailed f) => FailAt job f s
  | .returned (.resumeFailed f) => FailAt job f s ∧ s.vm = .paused
  | .returned (.failed f) =>
    s.vm = .running ∧ (s.vcpus = true ↔ ∀ p, f ≠ .halted p) ∧ s.locks = heldAt job f.phase
  | .exit | .returned .ok | .returned .exitFailed => At job .completeMigration s

/-- As `At`, for the whole program. -/
def AtPc (job : Job) (pc : SendPc) (s : Source) : Prop :=
  match pc with
  | .doing p => At job p s
  | .exit => At job .completeMigration s
  | _ => False

/-- The effect of a phase is what the next one expects. -/
theorem at_flow (hask : ask job p = none) (hflow : flow job p e = some pc) (h : At job p s) :
    AtPc job pc (effect p s) := by
  obtain rfl | ⟨rfl, chunk, rfl | rfl⟩ | ⟨remaining, chunk, rfl, rfl⟩ | ⟨rfl, bytes, rfl⟩ :=
    flow_cases hflow
  · cases p with
    | cpuid | startMigration =>
      simp only [next, AtPc]
      split <;> exact h
    | fds left => cases left <;> exact h
    | release left =>
      obtain ⟨hfits, hlocks⟩ := h
      cases left with
      | nil => exact ⟨hfits, hlocks⟩
      | cons d left =>
        simp only [heldAt] at hlocks
        exact ⟨hfits, by simp [effect, heldAt, hlocks]⟩
    | pauseLocal | pause _ => exact ⟨⟨rfl, rfl⟩, h.2⟩
    | start | config | state _ | complete => cases hask
    | connect | connections | startLog | collect | memory _ | lastLog _ | last _ | cleanup
    | snapshot | stopLog | completeMigration => exact h
  · exact h
  · exact h
  · exact h
  · exact h

theorem at_next (hask : ask job p = some m) (h : At job p s) : AtPc job (next job p) s := by
  cases p with
  | fds left =>
    cases left <;> exact h
  | complete =>
    simp only [next, AtPc]
    split <;> exact h
  | start | config | memory _ | last _ | state _ => exact h
  | connect | cpuid | startMigration | pauseLocal | connections | startLog | collect | pause _
  | lastLog _ | cleanup | release _ | snapshot | stopLog | completeMigration => cases hask

/-- A sender that has not failed meets `VmInv`. -/
theorem vmInv_of_at (h : AtPc job pc s) : VmInv job (s.goto pc) := by
  cases pc with
  | doing | exit => exact h
  | check | answer _ | abandon _ | abandoned _ | undo _ | undoResume _ | returned _ => exact h.elim

namespace FailAt

variable {f : Failure} {s : Source}

/-- A failed sender holds the locks of its phase. -/
theorem locks (h : FailAt job f s) : s.locks = heldAt job f.phase := by
  cases f with
  | halted p => exact h.2.2.2
  | op p | answer p | refused p b => exact h.2

/-- A failure after the pause finds the machine paused. -/
theorem paused (h : FailAt job f s) (hquiet : f.phase.quiet = true) :
    s.vm = .paused ∧ s.vcpus = false := by
  have plain (hat : At job f.phase s) : s.vm = .paused ∧ s.vcpus = false := by
    have hfits := hat.1
    rw [hquiet] at hfits
    exact hfits
  cases f with
  | halted p =>
    rw [Failure.phase, h.1] at hquiet
    cases hquiet
  | op p | answer p | refused p b => exact plain h

/-- A virtual machine that is not paused was not paused by this migration, unless `pause` has
    failed in the middle. -/
theorem running (h : FailAt job f s) (hvm : s.vm ≠ .paused) :
    s.vm = .running ∧ (s.vcpus = true ↔ ∀ p, f ≠ .halted p) := by
  have plain (hat : At job f.phase s) (hne : ∀ p, f ≠ .halted p) :
      s.vm = .running ∧ (s.vcpus = true ↔ ∀ p, f ≠ .halted p) := by
    have hfits := hat.1
    unfold Fits at hfits
    split at hfits
    · exact absurd hfits.1 hvm
    · exact ⟨hfits.1, iff_of_true hfits.2 hne⟩
  cases f with
  | halted p => exact ⟨h.2.1, by simp [h.2.2.1]⟩
  | op | answer | refused => exact plain h (by simp)

theorem not_halted (h : FailAt job f s) (hvm : s.vm = .paused) : ∀ p, f ≠ .halted p := by
  rintro p rfl
  rw [h.2.1] at hvm
  cases hvm

end FailAt

/-- The sender's steps keep to `VmInv`. -/
theorem vmInv_move (hwire : WireInv job w.up.items w.down.seen w.src.pc) (h : VmInv job w.src)
    (hmove : SendMove job w s up down) : VmInv job s := by
  unfold VmInv at h
  cases hmove with
  | check hpc hacc =>
    rw [hpc] at h
    simp only [accepts, Bool.and_eq_true, decide_eq_true_eq] at hacc
    exact ⟨⟨hacc.2, h.2.mpr hacc.2⟩, h.1⟩
  | reject hpc | fail hpc
  | write hpc _ | cut hpc _ _ | refused hpc _ _ | lost hpc | abandon hpc | abandoned hpc _
  | stopLog _ hpc | stopLogFailed hpc =>
    rw [hpc] at h
    exact h
  | flow hpc hask hflow =>
    rw [hpc] at h
    exact vmInv_of_at (at_flow hask hflow h)
  | halt hpc hp =>
    rw [hpc] at h
    obtain ⟨hfits, hlocks⟩ := h
    rcases hp with rfl | ⟨r, rfl⟩ <;> exact ⟨rfl, hfits.1, rfl, hlocks⟩
  | heard hpc hread =>
    rw [hpc] at h hwire
    obtain ⟨asks, m, hask, -, -⟩ := hwire
    exact vmInv_of_at (at_next hask h)
  | giveUp hpc =>
    rcases hpc with hpc | hpc <;> rw [hpc] at h <;> exact h
  | resume hpc hvm =>
    rw [hpc] at h
    rename_i f
    have hat : FailAt job f w.src := h
    exact ⟨rfl, iff_of_true rfl (hat.not_halted hvm), hat.locks⟩
  | resumeFailed hpc hvm =>
    rw [hpc] at h
    exact ⟨h, hvm⟩
  | noResume hpc hvm =>
    rw [hpc] at h
    obtain ⟨hrun, hcpus⟩ := FailAt.running h hvm
    exact ⟨hrun, hcpus, FailAt.locks h⟩
  | exit hpc ho =>
    rw [hpc] at h
    rcases ho with rfl | rfl <;> exact h

end Handover
