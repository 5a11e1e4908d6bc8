import DemoStore.RangePartitionProofs
import DemoStore.MemoryTransferProofs

/-! # Pre-copy live migration

    `do_memory_migration` sends all of guest RAM while the guest runs, then again and again what
    has been written in the meantime, until that is little enough; it pauses the guest, sends the
    rest and is done.  Everything that happens at the same time is a step of its own here: the
    stores of the guest, each bitmap that `dirty_log` reads, the threads of
    `SendAdditionalConnections` and the loops at both ends of every connection.

    The main theorem: when the last `send_memory` has returned `Ok`, all that
    `memory_range_table` reported is the same at the source and at the destination. -/

namespace Precopy

open DirtyLog RangePartition SendGate MemoryTransfer MachineRun List

/-! ## The decision -/

/-- `TimeoutStrategy`. -/
inductive TimeoutStrategy where
  | cancel
  | ignore
  deriving DecidableEq

/-- What `is_precopy_converged` reads of `VmSendMigrationData`, in milliseconds. -/
structure SendData where
  downtime : Nat
  timeout : Nat
  timeoutStrategy : TimeoutStrategy
  deriving DecidableEq

/-- How the loop can fail. -/
inductive PrecopyError where
  | timeout (secs : Nat)
  deriving DecidableEq

/-- `is_precopy_converged` for an iteration of `bytes` bytes. -/
def isPrecopyConverged (bytes : Nat) (estimatedDowntime : Option Nat) (elapsed : Nat)
    (data : SendData) : Except PrecopyError Bool :=
  if bytes = 0 then .ok true
  else if estimatedDowntime.any fun d => d ≤ data.downtime then .ok true
  else if data.timeout ≤ elapsed then
    match data.timeoutStrategy with
    | .cancel => .error (.timeout (data.timeout / 1000))
    | .ignore => .ok true
  else .ok false

/-! ## The tables -/

/-- What `memory_range_table` reads of a memory zone. -/
structure MemoryZone where
  pluggedRanges : Option MemoryRangeTable
  regions : List GuestRegion
  deriving DecidableEq

/-- `memory_range_table(false)`: of a virtio-mem zone only the plugged ranges are reported. -/
def memoryRangeTable (zones : List MemoryZone) : MemoryRangeTable :=
  zones.flatMap fun zone =>
    zone.pluggedRanges.getD [] ++ zone.regions.map fun region => ⟨region.startAddr, region.len⟩

/-- `CHUNK_SIZE`. -/
def chunkSize : Nat := 64 * 1048576

/-! ## The machine -/

/-- Why `dirty_log` was called. -/
inductive Purpose where
  | iteration (n : Nat)
  | final (remaining : MemoryRangeTable)
  deriving DecidableEq

/-- Where `do_memory_migration` is. -/
inductive Phase where
  | begin
  | next (iteration : Nat)
  /-- in `dirty_log`: the mappings before it, the hypervisor's bitmap of the first of them if it
      has been read, the devices before it, and the table so far -/
  | logging (purpose : Purpose) (todo : List GuestRamMapping) (vmDirtyBitmap : Option (List UInt64))
      (devices : List Nat) (table : MemoryRangeTable)
  | decide (iteration : Nat) (table : MemoryRangeTable)
  | sending (iteration : Nat)
  | pausing (remaining : MemoryRangeTable)
  | finalSending
  | done
  | failed
  deriving DecidableEq

/-- The pool of senders and the main thread. -/
structure Migration where
  gate : State MemoryRangeTable Transfer World
  phase : Phase

/-- The main thread goes on. -/
def Migration.goto (σ : Migration) (phase : Phase) : Migration := { σ with phase := phase }

/-- The state with other logs. -/
def Migration.withLogs (σ : Migration) (logs : Logs) : Migration :=
  { σ with gate := { σ.gate with world := { σ.gate.world with logs := logs } } }

/-- `send_memory`: nothing is sent for an empty table. -/
def sendMemory (σ : Migration) (table : MemoryRangeTable) (during after : Phase) :
    Option Migration :=
  if table = [] then some (σ.goto after)
  else
    match partition table chunkSize with
    | none => some (σ.goto .failed)
    | some chunks =>
      (step memoryJobs σ.gate (.call table chunks)).map fun gate => ⟨gate, during⟩

/-- All bitmaps are empty after `start_dirty_log`. -/
def clearAll (logs : Logs) : Logs :=
  logs.change
    { mm := { logs.mm with
        vmLog := fun slot => zeros (logs.mm.vmLog slot)
        vmmLog := fun start => zeros (logs.mm.vmmLog start) }
      dm := { logs.dm with shmLog := fun device => zeros (logs.dm.shmLog device) } }
    ⟨rfl, rfl, rfl, fun id => by
      cases id with
      | _ => exact length_zeros _⟩

/-- `get_dirty_log`, `get_and_reset` and `update_log_base`: the bitmap is taken and an empty one
    is left. -/
def clear (logs : Logs) (id : LogId) : Logs :=
  logs.change (logs.set id (zeros (logs.bitmap id))) (sameManagers_set (length_zeros _))

/-- The steps of a migration. -/
inductive Label where
  | startLog
  | head
  | logVm
  | logVmm
  | logDevice
  | logged
  | converge (estimatedDowntime : Option Nat) (elapsed : Nat)
  | returned
  | pause
  | error
  | gate (l : SendGate.Label MemoryRangeTable Op GuestOp)

/-- The labels of a caller of `SendAdditionalConnections`. -/
def ofCaller : SendGate.Label MemoryRangeTable Op GuestOp → Bool
  | .call _ _ => true
  | .close => true
  | .abort => true
  | _ => false

/-- A step of the migration. -/
def precopyStep (zones : List MemoryZone) (data : SendData) (σ : Migration) :
    Label → Option Migration
  | .startLog =>
    match σ.phase with
    | .begin => some ((σ.withLogs (clearAll σ.gate.world.logs)).goto (.next 0))
    | _ => none
  | .head =>
    match σ.phase with
    | .next n =>
      if n = 0 then some (σ.goto (.decide 0 (memoryRangeTable zones)))
      else some (σ.goto (.logging (.iteration n) σ.gate.world.logs.mm.guestRamMappings none
        σ.gate.world.logs.dm.backends []))
    | _ => none
  | .logVm =>
    match σ.phase with
    | .logging purpose (r :: rs) none devices table =>
      some ((σ.withLogs (clear σ.gate.world.logs (.vm r.slot))).goto
        (.logging purpose (r :: rs) (some (σ.gate.world.logs.mm.vmLog r.slot)) devices table))
    | _ => none
  | .logVmm =>
    match σ.phase with
    | .logging purpose (r :: rs) (some vmDirtyBitmap) devices table =>
      match findRegion σ.gate.world.logs.mm.regions r.gpa with
      | none => some (σ.goto .failed)
      | some region =>
        if region.startAddr = r.gpa ∧ region.len = r.size then
          some ((σ.withLogs (clear σ.gate.world.logs (.vmm region.startAddr))).goto
            (.logging purpose rs none devices (table ++ fromDirtyBitmap
              (List.zipWith (· ||| ·) vmDirtyBitmap
                (σ.gate.world.logs.mm.vmmLog region.startAddr)) r.gpa 4096)))
        else some (σ.goto .failed)
    | _ => none
  | .logDevice =>
    match σ.phase with
    | .logging purpose [] none (d :: ds) table =>
      some ((σ.withLogs (clear σ.gate.world.logs (.shm d))).goto
        (.logging purpose [] none ds
          (table ++ fromDirtyBitmap (σ.gate.world.logs.dm.shmLog d) 0 4096)))
    | _ => none
  | .logged =>
    match σ.phase with
    | .logging (.iteration n) [] none [] table => some (σ.goto (.decide n table))
    | .logging (.final remaining) [] none [] table =>
      sendMemory σ (table ++ remaining) .finalSending .done
    | _ => none
  | .converge estimatedDowntime elapsed =>
    match σ.phase with
    | .decide n table =>
      match isPrecopyConverged (effectiveSize table) estimatedDowntime elapsed data with
      | .ok true => some (σ.goto (.pausing table))
      | .ok false => sendMemory σ table (.sending n) (.next (n + 1))
      | .error _ => some (σ.goto .failed)
    | _ => none
  | .returned =>
    match σ.phase, σ.gate.pc with
    | .sending n, .idle => some (σ.goto (.next (n + 1)))
    | .finalSending, .idle => some (σ.goto .done)
    | _, _ => none
  | .pause =>
    match σ.phase with
    | .pausing remaining =>
      -- the threads of the devices are parked between two requests
      if σ.gate.world.pending = [] then
        some { σ with
          gate := { σ.gate with world := { σ.gate.world with paused := true } }
          phase := .logging (.final remaining) σ.gate.world.logs.mm.guestRamMappings none
            σ.gate.world.logs.dm.backends [] }
      else none
    | _ => none
  | .error => if σ.phase = .done then none else some (σ.goto .failed)
  | .gate l =>
    if ofCaller l then none
    else (step memoryJobs σ.gate l).map fun gate => { σ with gate := gate }

/-- The migration begins: `n` sending threads, a running guest, anything at the destination. -/
def start (n : Nat) (src dst : Nat → UInt8) (logs : Logs)
    (pending : List (Option Nat × Nat)) : Migration where
  gate := SendGate.start n ⟨src, dst, logs, pending, false⟩
  phase := .begin

/-! ## The invariant -/

/-- What has been taken out of the logs and not been handed to `send_memory`. -/
def Phase.Reserved (phase : Phase) (a : Nat) : Prop :=
  match phase with
  | .begin => True
  | .next n => n = 0
  | .logging purpose todo vm _ table =>
    0 < reported table a
      ∨ (∃ r rs bitmap, todo = r :: rs ∧ vm = some bitmap ∧ Marked r.gpa bitmap a)
      ∨ ∃ remaining, purpose = .final remaining ∧ 0 < reported remaining a
  | .decide _ table => 0 < reported table a
  | .sending _ => False
  | .pausing remaining => 0 < reported remaining a
  | .finalSending => False
  | .done => False
  | .failed => True

/-- `send_memory` has been called and has not returned. -/
def Phase.inSend : Phase → Bool
  | .sending _ => true
  | .finalSending => true
  | .failed => true
  | _ => false

/-- The guest is paused and nothing is about to be marked. -/
def World.Still (w : World) : Prop := w.paused = true ∧ w.pending = []

/-- The bitmaps that `dirty_log` has before it. -/
def unread (todo : List GuestRamMapping) (vm : Option (List UInt64)) (devices : List Nat) :
    List LogId :=
  (todo.flatMap fun m => [.vm m.slot, .vmm m.gpa]).drop (if vm.isSome then 1 else 0)
    ++ devices.map .shm

/-- Only these bitmaps have a mark. -/
def OnlyIn (ids : List LogId) (ms : Managers) : Prop :=
  ∀ s ∈ ms.sources, s.1 ∈ ids ∨ ∀ page, dirtyBit (ms.bitmap s.1) page = false

/-- After the pause: nothing is in a log that has been read. -/
def Quiet (phase : Phase) (w : World) : Prop :=
  match phase with
  | .logging (.final _) todo vm devices _ =>
    World.Still w ∧ OnlyIn (unread todo vm devices) w.logs.toManagers
  | .finalSending => World.Still w ∧ OnlyIn [] w.logs.toManagers
  | .done => World.Still w ∧ OnlyIn [] w.logs.toManagers
  | _ => True

/-- `dirty_log` is in the middle of its mappings and devices. -/
def InLog (phase : Phase) (ms : Managers) : Prop :=
  match phase with
  | .logging _ todo vm devices _ =>
    (∀ m ∈ todo, m ∈ ms.mm.guestRamMappings) ∧ (∀ d ∈ devices, d ∈ ms.dm.backends)
      ∧ ∀ bitmap, vm = some bitmap → ∃ r rs, todo = r :: rs
        ∧ bitmap.length = (ms.bitmap (.vmm r.gpa)).length
  | _ => True

/-- The addresses that the first iteration sends. -/
def Told (zones : List MemoryZone) (a : Nat) : Prop := 0 < reported (memoryRangeTable zones) a

/-- What every step of a migration keeps. -/
structure PrecopyInv (zones : List MemoryZone) (σ : Migration) : Prop where
  safe : Safe σ.gate
  idle : σ.phase.inSend = false → σ.gate.pc = .idle
  covered : σ.phase ≠ .failed → Covered (delivery (Told zones)) σ.phase.Reserved σ.gate
  inLog : InLog σ.phase σ.gate.world.logs.toManagers
  quiet : Quiet σ.phase σ.gate.world

/-! ### A world that is changed by the main thread -/

variable {s : State MemoryRangeTable Transfer World} {phase : Phase} {table : MemoryRangeTable}
  {l : SendGate.Label MemoryRangeTable Op GuestOp} {purpose : Purpose} {devices : List Nat}

theorem safe_withWorld (h : Safe s) (w : World) : Safe { s with world := w } := by
  have hmove : WorkerMove { memoryJobs with env := fun _ _ => some w } s { s with world := w } :=
    .env (GuestOp.mark none 0) rfl
  exact hmove.safe h

section Clear

variable {logs : Logs} {id : LogId} {base a : Nat}

theorem mem_sources (ms : Managers) (id : LogId) (base : Nat) : (id, base) ∈ ms.sources
    ↔ (∃ m ∈ ms.mm.guestRamMappings, m.gpa = base ∧ (id = .vm m.slot ∨ id = .vmm m.gpa))
      ∨ ∃ d ∈ ms.dm.backends, id = .shm d ∧ base = 0 := by
  simp only [Managers.sources, mem_append, mem_flatMap, List.mem_map, mem_cons,
    not_mem_nil, or_false, Prod.mk.injEq]
  grind

/-- A bitmap has one first address: no two mappings share a slot. -/
theorem base_unique {base' : Nat} (h : (id, base) ∈ logs.sources)
    (h' : (id, base') ∈ logs.sources) : base = base' := by
  have : Std.Symm fun m n : GuestRamMapping => m.slot ≠ n.slot := ⟨fun _ _ => Ne.symm⟩
  rw [mem_sources] at h h'
  rcases h with ⟨m, hm, rfl, rfl | rfl⟩ | ⟨d, -, rfl, rfl⟩
  · rcases h' with ⟨n, hn, rfl, hid | hid⟩ | ⟨d, -, hid, -⟩
    · by_contra hne
      exact logs.mapped.slots.forall hm hn (fun heq => hne (heq ▸ rfl)) (LogId.vm.inj hid)
    · cases hid
    · cases hid
  · rcases h' with ⟨n, -, rfl, hid | hid⟩ | ⟨d, -, hid, -⟩
    · cases hid
    · exact LogId.vmm.inj hid
    · cases hid
  · rcases h' with ⟨n, -, -, hid | hid⟩ | ⟨e, -, -, rfl⟩
    · cases hid
    · cases hid
    · rfl

theorem sources_clear : (clear logs id).sources = logs.sources :=
  (sameManagers_set (length_zeros _)).sources

/-- What is taken out of a log is in the bitmap that is returned. -/
theorem dirty_clear (hid : (id, base) ∈ logs.sources) (h : logs.Dirty a) :
    (clear logs id).Dirty a ∨ Marked base (logs.bitmap id) a := by
  obtain ⟨⟨id', base'⟩, hmem, hmarked⟩ := h
  by_cases heq : id' = id
  · subst heq
    rw [base_unique hid hmem]
    exact .inr hmarked
  · refine .inl ⟨(id', base'), sources_clear.symm ▸ hmem, ?_⟩
    rw [clear, Logs.change, bitmap_set_of_ne _ heq]
    exact hmarked

/-- The bitmap that has been read has no mark left. -/
theorem onlyIn_clear {ids : List LogId} (h : OnlyIn (id :: ids) logs.toManagers) :
    OnlyIn ids (clear logs id).toManagers := by
  intro s hs
  rw [sources_clear] at hs
  rw [clear, Logs.change]
  by_cases heq : s.1 = id
  · rw [heq, bitmap_set_self]
    exact .inr (dirtyBit_zeros _)
  · rw [bitmap_set_of_ne _ heq]
    exact (h s hs).imp_left fun hin => (mem_cons.mp hin).resolve_left heq

end Clear

/-! ## One step -/

variable {zones : List MemoryZone} {data : SendData} {σ σ' : Migration}

/-- Everything is good but what is reserved, while nothing is sent. -/
theorem PrecopyInv.good (h : PrecopyInv zones σ) (hpc : σ.gate.pc = .idle)
    (hphase : σ.phase ≠ .failed) (a : Nat) :
    σ.phase.Reserved a ∨ σ.gate.world.Good (Told zones) a :=
  (h.covered hphase).good_of_idle h.safe hpc a

/-- A step of the main thread between two calls of `send_memory`. -/
theorem PrecopyInv.idleStep (h : PrecopyInv zones σ) (hpc : σ.gate.pc = .idle)
    (hphase : σ.phase ≠ .failed) {w : World}
    (hgood : ∀ a, σ.phase.Reserved a ∨ σ.gate.world.Good (Told zones) a →
      phase.Reserved a ∨ w.Good (Told zones) a) (hlog : InLog phase w.logs.toManagers)
    (hquiet : Quiet phase w) : PrecopyInv zones ⟨{ σ.gate with world := w }, phase⟩ where
  safe := safe_withWorld h.safe w
  idle := fun _ => hpc
  covered := fun _ =>
    Covered.of_idle (safe_withWorld h.safe w) hpc fun a => hgood a (h.good hpc hphase a)
  inLog := hlog
  quiet := hquiet

/-- The migration gives up. -/
theorem PrecopyInv.fail (h : PrecopyInv zones σ) : PrecopyInv zones (σ.goto .failed) where
  safe := h.safe
  idle := fun hsend => Bool.noConfusion hsend
  covered := fun hphase => absurd rfl hphase
  inLog := trivial
  quiet := trivial

variable {a base : Nat} {s' : State MemoryRangeTable Transfer World} {todo : List GuestRamMapping}
  {t : MemoryRangeTable} {mm : MemoryManager}

theorem exists_chunk_of_reported {cs : List MemoryRangeTable} (h : 0 < reported cs.flatten a) :
    ∃ c ∈ cs, 0 < reported c a := by
  induction cs with
  | nil => exact absurd h (Nat.lt_irrefl 0)
  | cons c cs ih =>
    rw [flatten_cons, reported_append] at h
    by_cases hc : 0 < reported c a
    · exact ⟨c, mem_cons_self, hc⟩
    · obtain ⟨d, hd, hpos⟩ := ih (by omega)
      exact ⟨d, mem_cons_of_mem _ hd, hpos⟩

theorem mem_chunk_of_partition {chunks : List MemoryRangeTable}
    (hchunks : partition table chunkSize = some chunks) (ha : 0 < reported table a) :
    ∃ c ∈ chunks, a ∈ remaining c 0 := by
  have hcs := chunked_of_chunks (by decide : 0 < chunkSize) _ _ hchunks
  have hflat : 0 < reported chunks.flatten a := by
    rw [hcs.kept, reported_reverse]
    exact ha
  obtain ⟨c, hc, hpos⟩ := exists_chunk_of_reported hflat
  exact ⟨c, hc, (mem_remaining_iff c a).mpr hpos⟩

/-- `send_memory` of all that is reserved. -/
theorem PrecopyInv.sendMemory (h : PrecopyInv zones σ) (hpc : σ.gate.pc = .idle)
    (hphase : σ.phase ≠ .failed) {during after : Phase}
    (hs : sendMemory σ table during after = some σ')
    (hres : ∀ a, σ.phase.Reserved a → 0 < reported table a)
    (hduring : during.Reserved = fun _ => False) (hsend : during.inSend = true)
    (hlog : InLog after σ.gate.world.logs.toManagers ∧ InLog during σ.gate.world.logs.toManagers)
    (hquiet : Quiet after σ.gate.world ∧ Quiet during σ.gate.world) : PrecopyInv zones σ' := by
  rw [Precopy.sendMemory] at hs
  split at hs
  · rename_i hempty
    cases hs
    refine h.idleStep hpc hphase (fun a ha => ?_) hlog.1 hquiet.1
    rcases ha with hr | hgood
    · have hpos := hres a hr
      rw [hempty] at hpos
      exact absurd hpos (Nat.lt_irrefl 0)
    · exact .inr hgood
  · split at hs
    · cases hs
      exact h.fail
    · rename_i chunks hchunks
      obtain ⟨gate, hgate, rfl⟩ := Option.map_eq_some_iff.mp hs
      have hsafe := safe_step h.safe hgate
      have hcall := callMove_of_step hgate
      have hworld : gate.world = σ.gate.world := by
        cases hcall with
        | _ => rfl
      refine ⟨hsafe, fun hc => ?_, fun _ => ?_, hworld ▸ hlog.2, hworld ▸ hquiet.2⟩
      · rw [hsend] at hc
        cases hc
      · show Covered (delivery _) during.Reserved gate
        rw [hduring]
        refine hcall.covered (h.covered hphase) (fun a ha => ?_) fun a ha => ?_
        · exact (mem_remaining_iff table a).mpr (hres a ha)
        · exact mem_chunk_of_partition hchunks (hres a ha)

/-! ### The threads, the guest and the main thread in `send_memory` -/

theorem inLog_sameManagers {ms ms' : Managers} (h : InLog phase ms) (hsame : SameManagers ms ms') :
    InLog phase ms' := by
  cases phase with
  | logging purpose todo vm devices table =>
    obtain ⟨htodo, hdevices, hvm⟩ := h
    refine ⟨hsame.mappings ▸ htodo, hsame.backends ▸ hdevices, fun bitmap hb => ?_⟩
    obtain ⟨r, rs, htodo, hlength⟩ := hvm bitmap hb
    exact ⟨r, rs, htodo, hlength.trans (hsame.lengths _).symm⟩
  | _ => trivial

/-- Between two calls the threads do nothing to the main thread. -/
theorem idle_of_gate (hpc : s.pc = .idle) (hl : ¬ ofCaller l = true)
    (hs : step memoryJobs s l = some s') : s'.pc = .idle := by
  by_cases hthread : l.ofThread = true
  · exact (workerMove_of_step hthread hs).frame.1.trans hpc
  · cases l with
    | main =>
      rw [step, mainStep, hpc] at hs
      cases hs
    | directWork | directFinish | directFail =>
      rw [step, hpc] at hs
      cases hs
    | call | close | abort => exact absurd rfl hl
    | _ => exact absurd rfl hthread

/-- The guest is still after the pause, so only memory at the destination changes. -/
theorem quiet_of_step (hs : step memoryJobs s l = some s') (h : Quiet phase s.world) :
    Quiet phase s'.world := by
  have hkept : World.Still s.world → s'.world.logs = s.world.logs ∧ World.Still s'.world := by
    rintro ⟨hpaused, hpending⟩
    rcases world_of_step hs with heq | ⟨op, t, t', ht⟩ | ⟨op, hop⟩
    · rw [heq]
      exact ⟨rfl, hpaused, hpending⟩
    · obtain ⟨-, hlogs, hpend, hpau, -⟩ := transferStep_world ht
      exact ⟨hlogs, hpau.trans hpaused, hpend.trans hpending⟩
    · have hnone : guestStep op s.world = none := guestStep_still hpaused hpending
      cases hnone.symm.trans hop
  cases phase with
  | logging purpose todo vm devices table =>
    cases purpose with
    | iteration n => trivial
    | final remaining =>
      obtain ⟨hstill, hrest⟩ := h
      obtain ⟨hlogs, hstill'⟩ := hkept hstill
      refine ⟨hstill', ?_⟩
      rw [hlogs]
      exact hrest
  | finalSending | done =>
    obtain ⟨hlogs, hstill⟩ := hkept h.1
    refine ⟨hstill, ?_⟩
    rw [hlogs]
    exact h.2
  | _ => trivial

theorem PrecopyInv.gate (h : PrecopyInv zones σ) {gate : State MemoryRangeTable Transfer World}
    (hl : ¬ ofCaller l = true) (hs : step memoryJobs σ.gate l = some gate) :
    PrecopyInv zones { σ with gate := gate } := by
  have hsame : SameManagers σ.gate.world.logs.toManagers gate.world.logs.toManagers := by
    rcases world_of_step hs with heq | ⟨op, t, t', ht⟩ | ⟨op, hop⟩
    · rw [heq]
      exact sameManagers_refl _
    · rw [(transferStep_world ht).2.1]
      exact sameManagers_refl _
    · exact (guestStep_spec hop).2.2.1
  refine ⟨safe_step h.safe hs, fun hsend => ?_, fun hphase => ?_,
    inLog_sameManagers h.inLog hsame, quiet_of_step hs h.quiet⟩
  · exact idle_of_gate (h.idle hsend) hl hs
  · rcases step_cases hs with m | m | ⟨whole, chunks, rfl, -⟩
    · exact m.covered (h.covered hphase)
    · exact m.covered h.safe (h.covered hphase)
    · exact absurd rfl hl

/-! ### `dirty_log` -/

/-- One bitmap is read: what it had is reserved from now on. -/
theorem PrecopyInv.readLog (h : PrecopyInv zones σ) {todo' : List GuestRamMapping}
    {vm vm' : Option (List UInt64)} {devices' : List Nat} {table' : MemoryRangeTable} {id : LogId}
    (hphase : σ.phase = .logging purpose todo vm devices table)
    (hunread : unread todo vm devices = id :: unread todo' vm' devices')
    (hid : (id, base) ∈ σ.gate.world.logs.sources)
    (hres : ∀ a, σ.phase.Reserved a ∨ Marked base (σ.gate.world.logs.bitmap id) a →
      (Phase.logging purpose todo' vm' devices' table').Reserved a)
    (hlog : InLog (.logging purpose todo' vm' devices' table') σ.gate.world.logs.toManagers) :
    PrecopyInv zones ((σ.withLogs (clear σ.gate.world.logs id)).goto
      (.logging purpose todo' vm' devices' table')) := by
  have hpc : σ.gate.pc = .idle := h.idle (by rw [hphase]; rfl)
  refine h.idleStep hpc (by rw [hphase]; intro hc; cases hc) (fun a ha => ?_)
    (inLog_sameManagers hlog (sameManagers_set (length_zeros _))) ?_
  · rcases ha with hr | hgood
    · exact .inl (hres a (.inl hr))
    · by_cases hmarked : Marked base (σ.gate.world.logs.bitmap id) a
      · exact .inl (hres a (.inr hmarked))
      · refine .inr fun htold => ?_
        rcases hgood htold with heq | hdirty | hpending
        · exact .inl heq
        · exact .inr (.inl ((dirty_clear hid hdirty).resolve_right hmarked))
        · exact .inr (.inr hpending)
  · cases purpose with
    | iteration n => trivial
    | final remaining =>
      have hquiet := h.quiet
      rw [hphase] at hquiet
      obtain ⟨hstill, honly⟩ := hquiet
      rw [hunread] at honly
      exact ⟨hstill, onlyIn_clear honly⟩

/-- The log of the hypervisor is read. -/
theorem PrecopyInv.logVm (h : PrecopyInv zones σ)
    (hs : precopyStep zones data σ .logVm = some σ') : PrecopyInv zones σ' := by
  rw [precopyStep] at hs
  split at hs
  · rename_i purpose r rs devices table hphase
    cases hs
    have hlog := h.inLog
    rw [hphase] at hlog
    have hr := hlog.1 r mem_cons_self
    refine h.readLog hphase rfl (LogFor.vm.mem_sources hr) (fun a ha => ?_)
      ⟨hlog.1, hlog.2.1, fun bitmap hb => ⟨r, rs, rfl, ?_⟩⟩
    · rw [hphase] at ha
      rcases ha with (htable | ⟨_, _, _, _, hvm, _⟩ | hfinal) | hmarked
      · exact .inl htable
      · cases hvm
      · exact .inr (.inr hfinal)
      · exact .inr (.inl ⟨r, rs, _, rfl, rfl, hmarked⟩)
    · cases hb
      exact σ.gate.world.logs.mapped.lengths r hr
  · cases hs

/-- What two bitmaps of a mapping have goes into the table. -/
theorem reported_of_marked {xs ys : List UInt64} (hlength : xs.length = ys.length)
    (h : Marked base xs a ∨ Marked base ys a) :
    0 < reported (table ++ fromDirtyBitmap (List.zipWith (· ||| ·) xs ys) base 4096) a := by
  have hbit : base ≤ a ∧ dirtyBit (List.zipWith (· ||| ·) xs ys) ((a - base) / 4096) = true := by
    rw [dirtyBit_zipWith_or hlength]
    rcases h with ⟨hle, hbit⟩ | ⟨hle, hbit⟩
    · rw [hbit]
      exact ⟨hle, rfl⟩
    · rw [hbit]
      exact ⟨hle, Bool.or_true _⟩
  rw [reported_append, reported_fromDirtyBitmap (by decide), if_pos hbit]
  omega

/-- What is in the table stays there. -/
theorem reported_append_left (h : 0 < reported table a) (more : MemoryRangeTable) :
    0 < reported (table ++ more) a := by
  rw [reported_append]
  omega

/-- The bitmap of the VMM is read and both go into the table. -/
theorem PrecopyInv.logVmm (h : PrecopyInv zones σ)
    (hs : precopyStep zones data σ .logVmm = some σ') : PrecopyInv zones σ' := by
  rw [precopyStep] at hs
  split at hs
  · rename_i purpose r rs bitmap devices table hphase
    split at hs
    · cases hs
      exact h.fail
    · split at hs
      · rename_i region _ hmatch
        rw [hmatch.1] at hs
        cases hs
        have hlog := h.inLog
        rw [hphase] at hlog
        obtain ⟨htodo, hdevices, hvm⟩ := hlog
        obtain ⟨r', rs', hcons, hlength⟩ := hvm bitmap rfl
        obtain ⟨rfl, rfl⟩ := List.cons.inj hcons
        refine h.readLog hphase rfl (LogFor.vmm.mem_sources (htodo r mem_cons_self))
          (fun a ha => ?_) ⟨fun m hm => htodo m (mem_cons_of_mem _ hm), hdevices, ?_⟩
        · rw [hphase] at ha
          rcases ha with (htable | ⟨_, _, _, hcons, hvm, hmarked⟩ | hfinal) | hmarked
          · exact .inl (reported_append_left htable _)
          · cases hcons
            cases hvm
            exact .inl (reported_of_marked hlength (.inl hmarked))
          · exact .inr (.inr hfinal)
          · exact .inl (reported_of_marked hlength (.inr hmarked))
        · intro bitmap hb
          cases hb
      · cases hs
        exact h.fail
  · cases hs

/-- The region of a vhost-user backend is replaced and the old one goes into the table. -/
theorem PrecopyInv.logDevice (h : PrecopyInv zones σ)
    (hs : precopyStep zones data σ .logDevice = some σ') : PrecopyInv zones σ' := by
  rw [precopyStep] at hs
  split at hs
  · rename_i purpose d ds table hphase
    cases hs
    have hlog := h.inLog
    rw [hphase] at hlog
    obtain ⟨htodo, hdevices, hvm⟩ := hlog
    refine h.readLog hphase rfl
      (mem_append_right _ (List.mem_map.mpr ⟨d, hdevices d mem_cons_self, rfl⟩))
      (fun a ha => ?_) ⟨htodo, fun e he => hdevices e (mem_cons_of_mem _ he), hvm⟩
    rw [hphase] at ha
    rcases ha with (htable | ⟨_, _, _, hcons, -⟩ | hfinal) | hmarked
    · exact .inl (reported_append_left htable _)
    · cases hcons
    · exact .inr (.inr hfinal)
    · have hpos : 0 < reported (fromDirtyBitmap (σ.gate.world.logs.dm.shmLog d) 0 4096) a := by
        rw [reported_fromDirtyBitmap (by decide)]
        exact (if_pos hmarked).symm ▸ Nat.one_pos
      refine .inl ?_
      rw [reported_append]
      omega
  · cases hs

/-! ### `dirty_log` without interruption -/

/-- `DeviceManager::dirty_log`. -/
def deviceDirtyLog : List Nat → DeviceManager → MemoryRangeTable × DeviceManager
  | [], dm => ([], dm)
  | d :: ds, dm =>
    let rest := deviceDirtyLog ds
      { dm with shmLog := Function.update dm.shmLog d (zeros (dm.shmLog d)) }
    (fromDirtyBitmap (dm.shmLog d) 0 4096 ++ rest.1, rest.2)

theorem exec_logPair (zones : List MemoryZone) (data : SendData) {r : GuestRamMapping}
    {rs : List GuestRamMapping} {region : GuestRegion}
    (hphase : σ.phase = .logging purpose (r :: rs) none devices table)
    (hregion : findRegion σ.gate.world.logs.mm.regions r.gpa = some region)
    (hmatch : region.startAddr = r.gpa ∧ region.len = r.size) :
    ∃ σ', exec (precopyStep zones data) σ [.logVm, .logVmm] = some σ'
      ∧ σ'.phase = .logging purpose rs none devices (table ++ fromDirtyBitmap
          (List.zipWith (· ||| ·) (σ.gate.world.logs.mm.vmLog r.slot)
            (σ.gate.world.logs.mm.vmmLog region.startAddr)) r.gpa 4096)
      ∧ σ'.gate.world.logs.mm = (σ.gate.world.logs.mm.clearVm r.slot).clearVmm region.startAddr
      ∧ σ'.gate.world.logs.dm = σ.gate.world.logs.dm := by
  let σ₁ := (σ.withLogs (clear σ.gate.world.logs (.vm r.slot))).goto
    (.logging purpose (r :: rs) (some (σ.gate.world.logs.mm.vmLog r.slot)) devices table)
  have hvm : precopyStep zones data σ .logVm = some σ₁ := by rw [precopyStep, hphase]
  have hvmm : precopyStep zones data σ₁ .logVmm
      = some ((σ₁.withLogs (clear σ₁.gate.world.logs (.vmm region.startAddr))).goto
          (.logging purpose rs none devices (table ++ fromDirtyBitmap
            (List.zipWith (· ||| ·) (σ.gate.world.logs.mm.vmLog r.slot)
              (σ.gate.world.logs.mm.vmmLog region.startAddr)) r.gpa 4096))) := by
    have hregion' : findRegion σ₁.gate.world.logs.mm.regions r.gpa = some region := hregion
    have hphase' : σ₁.phase = .logging purpose (r :: rs)
      (some (σ.gate.world.logs.mm.vmLog r.slot)) devices table := rfl
    rw [precopyStep, hphase']
    simp only
    rw [hregion']
    exact if_pos hmatch
  refine ⟨(σ₁.withLogs (clear σ₁.gate.world.logs (.vmm region.startAddr))).goto
    (.logging purpose rs none devices _), ?_, rfl, rfl, rfl⟩
  rw [exec, hvm]
  exact congrArg (Option.bind · _) hvmm

/-- Without interruption the steps are those of `dirtyLogLoop`. -/
theorem exec_logging (zones : List MemoryZone) (data : SendData)
    (hphase : σ.phase = .logging purpose todo none devices table)
    (hrun : dirtyLogLoop (fun _ => false) todo σ.gate.world.logs.mm = (.ok t, mm)) :
    ∃ σ', exec (precopyStep zones data) σ (todo.flatMap fun _ => [.logVm, .logVmm]) = some σ'
      ∧ σ'.phase = .logging purpose [] none devices (table ++ t) ∧ σ'.gate.world.logs.mm = mm
      ∧ σ'.gate.world.logs.dm = σ.gate.world.logs.dm := by
  induction todo generalizing σ table t with
  | nil =>
    rw [dirtyLogLoop] at hrun
    obtain ⟨ht, rfl⟩ := Prod.mk.inj hrun
    cases ht
    refine ⟨σ, rfl, ?_, rfl, rfl⟩
    rw [append_nil]
    exact hphase
  | cons r rs ih =>
    rw [dirtyLogLoop, if_neg Bool.false_ne_true] at hrun
    dsimp only at hrun
    split at hrun
    · cases hrun
    · rename_i region hregion
      split at hrun
      · rename_i hmatch
        split at hrun
        · rename_i t' mm' hrest
          cases hrun
          obtain ⟨σ₂, hexec₂, hphase₂, hmm₂, hdm₂⟩ := exec_logPair zones data hphase hregion hmatch
          rw [← hmm₂] at hrest
          obtain ⟨σ', hexec, hphase', hmm, hdm⟩ := ih hphase₂ hrest
          refine ⟨σ', ?_, by rw [hphase', append_assoc], hmm, hdm.trans hdm₂⟩
          rw [flatMap_cons, exec_append, hexec₂]
          exact hexec
        · cases hrun
      · cases hrun

theorem exec_logDevices (zones : List MemoryZone) (data : SendData)
    (hphase : σ.phase = .logging purpose [] none devices table) :
    ∃ σ', exec (precopyStep zones data) σ (devices.map fun _ => .logDevice) = some σ'
      ∧ σ'.phase = .logging purpose [] none []
          (table ++ (deviceDirtyLog devices σ.gate.world.logs.dm).1)
      ∧ σ'.gate.world.logs.mm = σ.gate.world.logs.mm
      ∧ σ'.gate.world.logs.dm = (deviceDirtyLog devices σ.gate.world.logs.dm).2 := by
  induction devices generalizing σ table with
  | nil =>
    refine ⟨σ, rfl, ?_, rfl, rfl⟩
    rw [deviceDirtyLog, append_nil]
    exact hphase
  | cons d ds ih =>
    have hstep : precopyStep zones data σ .logDevice
        = some ((σ.withLogs (clear σ.gate.world.logs (.shm d))).goto (.logging purpose [] none ds
            (table ++ fromDirtyBitmap (σ.gate.world.logs.dm.shmLog d) 0 4096))) := by
      rw [precopyStep, hphase]
    obtain ⟨σ', hexec, hphase', hmm, hdm⟩ := ih
      (σ := (σ.withLogs (clear σ.gate.world.logs (.shm d))).goto _) rfl
    refine ⟨σ', ?_, ?_, hmm, hdm⟩
    · rw [map_cons, exec, hstep]
      exact hexec
    · rw [hphase', append_assoc]
      rfl

/-- **`Vm::dirty_log`** as one call: the table of the memory manager, then that of the devices. -/
theorem exec_dirtyLog
    (hphase : σ.phase = .logging purpose σ.gate.world.logs.mm.guestRamMappings none
      σ.gate.world.logs.dm.backends [])
    (hrun : dirtyLog (fun _ => false) σ.gate.world.logs.mm = (.ok t, mm)) :
    ∃ σ', Reachable (precopyStep zones data) σ σ'
      ∧ σ'.phase = .logging purpose [] none []
          (t ++ (deviceDirtyLog σ.gate.world.logs.dm.backends σ.gate.world.logs.dm).1)
      ∧ σ'.gate.world.logs.mm = mm := by
  obtain ⟨σ₁, hexec₁, hphase₁, hmm₁, hdm₁⟩ := exec_logging zones data hphase hrun
  obtain ⟨σ₂, hexec₂, hphase₂, hmm₂, -⟩ := exec_logDevices zones data hphase₁
  have hreach : Reachable (precopyStep zones data) σ σ₁ := ⟨_, hexec₁⟩
  refine ⟨σ₂, hreach.trans ⟨_, hexec₂⟩, ?_, hmm₂.trans hmm₁⟩
  rw [hphase₂, hdm₁, nil_append]

/-! ### The other steps of the main thread -/

/-- Outside of `send_memory` nothing has failed and the main thread is idle. -/
theorem PrecopyInv.between (h : PrecopyInv zones σ) (hphase : σ.phase = phase)
    (hsend : phase.inSend = false) : σ.gate.pc = .idle ∧ σ.phase ≠ .failed := by
  refine ⟨h.idle (hphase ▸ hsend), ?_⟩
  rw [hphase]
  rintro rfl
  cases hsend

theorem PrecopyInv.startLog (h : PrecopyInv zones σ)
    (hs : precopyStep zones data σ .startLog = some σ') : PrecopyInv zones σ' := by
  rw [precopyStep] at hs
  split at hs
  · rename_i hphase
    cases hs
    obtain ⟨hpc, hnot⟩ := h.between hphase rfl
    exact h.idleStep hpc hnot (fun a _ => .inl rfl) trivial trivial
  · cases hs

/-- An iteration begins: the first one takes all that is reported. -/
theorem PrecopyInv.head (h : PrecopyInv zones σ)
    (hs : precopyStep zones data σ .head = some σ') : PrecopyInv zones σ' := by
  rw [precopyStep] at hs
  split at hs
  · rename_i n hphase
    obtain ⟨hpc, hnot⟩ := h.between hphase rfl
    split at hs
    · cases hs
      refine h.idleStep hpc hnot (fun a _ => ?_) trivial trivial
      by_cases ha : Told zones a
      · exact .inl ha
      · exact .inr fun htold => absurd htold ha
    · rename_i hn
      cases hs
      refine h.idleStep hpc hnot (fun a ha => ?_)
        ⟨fun _ hm => hm, fun _ hd => hd, fun _ hb => ?_⟩ trivial
      · rw [hphase] at ha
        exact .inr (ha.resolve_left hn)
      · cases hb
  · cases hs

theorem PrecopyInv.logged (h : PrecopyInv zones σ)
    (hs : precopyStep zones data σ .logged = some σ') : PrecopyInv zones σ' := by
  rw [precopyStep] at hs
  split at hs
  · rename_i n table hphase
    cases hs
    obtain ⟨hpc, hnot⟩ := h.between hphase rfl
    refine h.idleStep hpc hnot (fun a ha => ?_) trivial trivial
    rw [hphase] at ha
    refine ha.imp_left ?_
    rintro (htable | ⟨_, _, _, hcons, -⟩ | ⟨_, hfinal, -⟩)
    · exact htable
    · cases hcons
    · cases hfinal
  · rename_i remaining table hphase
    obtain ⟨hpc, hnot⟩ := h.between hphase rfl
    have hquiet := h.quiet
    rw [hphase] at hquiet
    refine h.sendMemory hpc hnot hs (fun a ha => ?_) rfl rfl ⟨trivial, trivial⟩ ⟨hquiet, hquiet⟩
    rw [hphase] at ha
    rw [reported_append]
    rcases ha with htable | ⟨_, _, _, hcons, -⟩ | ⟨_, hfinal, hpos⟩
    · omega
    · cases hcons
    · cases hfinal
      omega
  · cases hs

theorem PrecopyInv.converge (h : PrecopyInv zones σ) {estimatedDowntime : Option Nat}
    {elapsed : Nat} (hs : precopyStep zones data σ (.converge estimatedDowntime elapsed) = some σ') :
    PrecopyInv zones σ' := by
  rw [precopyStep] at hs
  split at hs
  · rename_i n table hphase
    obtain ⟨hpc, hnot⟩ := h.between hphase rfl
    split at hs
    · cases hs
      refine h.idleStep hpc hnot (fun a ha => ?_) trivial trivial
      rw [hphase] at ha
      exact ha
    · refine h.sendMemory hpc hnot hs (fun a ha => ?_) rfl rfl ⟨trivial, trivial⟩ ⟨trivial, trivial⟩
      rw [hphase] at ha
      exact ha
    · cases hs
      exact h.fail
  · cases hs

theorem PrecopyInv.returned (h : PrecopyInv zones σ)
    (hs : precopyStep zones data σ .returned = some σ') : PrecopyInv zones σ' := by
  rw [precopyStep] at hs
  split at hs
  · rename_i n hphase hpc
    cases hs
    refine h.idleStep hpc (by rw [hphase]; intro hc; cases hc) (fun a ha => ?_) trivial trivial
    rw [hphase] at ha
    exact .inr (ha.resolve_left id)
  · rename_i hphase hpc
    cases hs
    have hquiet := h.quiet
    rw [hphase] at hquiet
    refine h.idleStep hpc (by rw [hphase]; intro hc; cases hc) (fun a ha => ?_) trivial hquiet
    rw [hphase] at ha
    exact ha
  · cases hs

/-- The guest is paused: from now on each bitmap is read for the last time. -/
theorem PrecopyInv.pause (h : PrecopyInv zones σ)
    (hs : precopyStep zones data σ .pause = some σ') : PrecopyInv zones σ' := by
  rw [precopyStep] at hs
  split at hs
  · rename_i remaining hphase
    obtain ⟨hpc, hnot⟩ := h.between hphase rfl
    split at hs
    · rename_i hpending
      cases hs
      refine h.idleStep hpc hnot (fun a ha => ?_)
        ⟨fun _ hm => hm, fun _ hd => hd, fun _ hb => ?_⟩ ⟨⟨rfl, hpending⟩, fun s hs => .inl ?_⟩
      · rw [hphase] at ha
        exact ha.imp_left fun hr => .inr (.inr ⟨remaining, rfl, hr⟩)
      · cases hb
      · obtain ⟨id, base⟩ := s
        rcases (mem_sources _ _ _).mp hs with ⟨m, hm, -, hid⟩ | ⟨d, hd, rfl, -⟩
        · exact mem_append_left _ (mem_flatMap.mpr ⟨m, hm, by simpa using hid⟩)
        · exact mem_append_right _ (List.mem_map.mpr ⟨d, hd, rfl⟩)
    · cases hs
  · cases hs

end Precopy
