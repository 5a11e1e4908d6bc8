import DemoStore.LazyRestoreProofs

/-! # After the handler has failed

    When `handler_loop` returns an error the handler thread sends it on
    `result_tx`, drops the descriptor and ends.  `restore_by_uffd` looks at the
    channel once, before the vCPUs run; `exit_evt` is written only if the thread
    panics.  So a backend that fails later leaves the VM running, and pages that
    were still absent read as zeros.

    What such a read returns is known exactly: the vCPUs' own bytes, or the
    snapshot for what was present, or zero.  It is right unless the snapshot
    has something other than zero at an address that was absent and that nobody
    has written. -/

namespace HandlerFailure

open GuestMemory RestoreRange RestoreHandler RestoreMemory MachineRun

/-- The byte that the step reads from the memory of a failed handler, if any. -/
def readAfterFailure (b : TemplateRestoreBackend) (s : RestoreState) (l : RestoreLabel) :
    Option Nat :=
  match s.failed, performed b s l with
  | true, some (.read a) => some a
  | _, _ => none

/-- Once the handler has failed, a read returns the snapshot byte of its address or a
    byte that a vCPU has written there. -/
def ReadsKnown (b : TemplateRestoreBackend) (image : Nat → UInt8) (s : RestoreState)
    (l : RestoreLabel) (_ : RestoreState) : Prop :=
  ∀ a ∈ readAfterFailure b s l, s.memory.bytes a = image a ∨ s.memory.bytes a ∈ s.memory.writes a

/-- Once the handler has failed, a read is of an address that was present by then, or
    that a vCPU has written, or where the snapshot has a zero. -/
def ReadsServed (b : TemplateRestoreBackend) (image : Nat → UInt8) (s : RestoreState)
    (l : RestoreLabel) (_ : RestoreState) : Prop :=
  ∀ a ∈ readAfterFailure b s l, s.memory.lost a = false ∨ s.memory.writes a ≠ [] ∨ image a = 0

instance (b : TemplateRestoreBackend) (image : Nat → UInt8) (s : RestoreState)
    (l : RestoreLabel) (s' : RestoreState) : Decidable (ReadsKnown b image s l s') :=
  inferInstanceAs (Decidable (∀ a ∈ readAfterFailure b s l, _))

variable {t : RangeTable} {file : Nat → UInt8} {basePageSize a : Nat} {s : RestoreState}
  {l : RestoreLabel}

theorem readAfterFailure_eq_some {b : TemplateRestoreBackend}
    (h : readAfterFailure b s l = some a) : s.pc = .exited ∧ performed b s l = some (.read a) := by
  rw [readAfterFailure] at h
  split at h
  · rename_i hfail hp
    cases h
    refine ⟨?_, hp⟩
    rw [RestoreState.failed] at hfail
    split at hfail
    · assumption
    · cases hfail
  · cases h

/-- `known` outlives every write. -/
theorem survives_known (s : RestoreState) (acc : Access) : Survives known s acc := by
  cases acc with
  | read a => trivial
  | write a b =>
    rintro - ws x c (hx | hmem)
    · exact .inl hx
    · exact .inr (List.mem_cons_of_mem b hmem)

theorem sound_step (s : RestoreState) (l : RestoreLabel) (s' : RestoreState)
    (h : Sound known t file s) (hs : restore t file basePageSize s l = some s') :
    Sound known t file s' :=
  restore_sound h hs fun acc _ => survives_known s acc

/-- What a read of an address finds once the handler has failed. -/
theorem read_known_iff (h : Sound known t file s)
    (hread : readAfterFailure t.backend s l = some a) :
    (s.memory.lost a = false ∨ s.memory.writes a ≠ [] ∨ t.image file a = 0)
      ↔ (s.memory.bytes a = t.image file a ∨ s.memory.bytes a ∈ s.memory.writes a) := by
  obtain ⟨hpc, hp⟩ := readAfterFailure_eq_some hread
  have hgood := read_good h hp (by rw [hpc]; exact id)
  cases hlost : s.memory.lost a with
  | false =>
    rw [Memory.base, hlost] at hgood
    exact ⟨fun _ => hgood, fun _ => .inl rfl⟩
  | true =>
    have hzero := h.valued.zeroed a hlost
    cases hw : s.memory.writes a with
    | nil =>
      -- never written: the read returns zero
      rw [hw] at hzero
      rw [hzero]
      simp [eq_comm]
    | cons b ws =>
      rw [hw] at hzero
      rw [hzero]
      simp

/-- **AFTER A FAILURE.**  Along a run the reads after a failure return snapshot bytes
    or bytes of the vCPUs exactly when each of them is of an address that was
    present when the handler failed, or written by a vCPU, or zero in the
    snapshot. -/
theorem failed_handler_reads_iff (t : RangeTable) (file : Nat → UInt8)
    (basePageSize vcpus : Nat) (ls : List RestoreLabel) :
    Moves (restore t file basePageSize) (ReadsKnown t.backend (t.image file))
        (start vcpus) ls
      ↔ Moves (restore t file basePageSize) (ReadsServed t.backend (t.image file))
        (start vcpus) ls := by
  refine (moves_iff (I := Sound known t file) ?_ ?_ (sound_start vcpus)).symm
  · intro s l s' h _
    exact forall₂_congr fun a ha => read_known_iff h ha
  · exact fun s l s' h hs _ => sound_step s l s' h hs

/-- The backend read for the first fault fails after the VM was resumed: the vCPU's
    read returns zero where the snapshot has 7. -/
theorem failed_read_shows_zero :
    ¬ Moves (restore LazyRestore.onePageTable LazyRestore.onePageFile 4096)
      (ReadsKnown LazyRestore.onePageTable.backend
        (LazyRestore.onePageTable.image LazyRestore.onePageFile)) (start 1)
      [.handler 0 .ok, .vmm, .vmm, .vcpu 0 (.read 65544), .handler 0 .ok, .handler 0 .ok,
        .handler 0 .fail, .retry 0] := by
  decide +kernel

end HandlerFailure
