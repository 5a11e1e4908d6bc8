import DemoStore.LazyRestoreProofs

/-! # A restored zone that other processes map

    A memory zone may be mapped shared from a file or memfd, so that a vhost-user
    backend or a device reads and writes the guest's pages through a mapping of its
    own.  The documentation of `restore_by_uffd` promises that a lazy restore leaves
    this kind of mapping as it is.

    `UFFDIO_COPY` on a shared mapping puts the page into the file, and what the vCPUs
    store there goes to the file.  `handle_wp_fault` then maps anonymous memory over
    the chunk it serves: from there on the guest and the file each have a page of
    their own, and neither sees what the other writes.  So the first write of a vCPU to
    a page that the handler has loaded is already one that the file never gets.

    The zone is a set of host addresses, and the file is given by the same addresses.
    An access through another mapping fills a hole of the file with zeros, after which
    the page does not fault in the restored process any more.  `replaced` has the
    addresses that are no longer mapped from the file. -/

namespace SharedZone

open GuestMemory RestoreRange RestoreHandler RestoreHost MachineRun Option

/-! ## The file behind the zone -/

/-- A restore, and the file behind a shared zone. -/
structure ZoneState where
  restore : RestoreState
  file : Nat → UInt8
  replaced : Nat → Bool

/-- A hole of the file reads as zeros. -/
def start (vcpus : Nat) : ZoneState where
  restore := RestoreHandler.start vcpus
  file := fun _ => 0
  replaced := fun _ => false

/-- The chunk over which this step maps anonymous memory. -/
def replaces (s : RestoreState) : RestoreLabel → Option TemplateCowChunk
  | .handler _ out =>
    match s.pc with
    | .remap ch _ _ => if out = .fail then none else some ch
    | _ => none
  | _ => none

/-- The restored process has made a step: the file has what the process has, wherever
    its mapping is still that of the file. -/
def ZoneState.follow (zone : Nat → Bool) (ch : Option TemplateCowChunk) (r : RestoreState)
    (s : ZoneState) : ZoneState where
  restore := r
  replaced := fun a => s.replaced a || decide (Covers ch a)
  file := fun a =>
    if zone a && !(s.replaced a || decide (Covers ch a)) then r.memory.bytes a else s.file a

/-- The address is in a hole of the file, and in the page that is touched. -/
def ZoneState.inHole (zone : Nat → Bool) (page len : Nat) (s : ZoneState) (a : Nat) : Bool :=
  zone a && decide (Within page len a) && decide (s.restore.memory.mapping a = .absent)

/-- The page is touched through another mapping. -/
def ZoneState.populate (zone : Nat → Bool) (page len : Nat) (s : ZoneState) : ZoneState :=
  { s with
    restore := s.restore.onMemory fun m =>
      { m with
        mapping := fun a => if s.inHole zone page len a then .writable else m.mapping a
        bytes := fun a => if s.inHole zone page len a then 0 else m.bytes a }
    file := fun a => if s.inHole zone page len a then 0 else s.file a }

/-- A byte is stored through another mapping. -/
def ZoneState.store (a : Nat) (b : UInt8) (s : ZoneState) : ZoneState :=
  { s with
    restore := s.restore.onMemory fun m =>
      { m with bytes := fun x => if x = a ∧ s.replaced a = false then b else m.bytes x }
    file := fun x => if x = a then b else s.file x }

/-- An access from another process. -/
def ZoneState.other (zone : Nat → Bool) (page len : Nat) (acc : Access) (s : ZoneState) :
    ZoneState :=
  match acc with
  | .read _ => s.populate zone page len
  | .write a b => (s.populate zone page len).store a b

/-- The steps on either side. -/
inductive ZoneLabel where
  | run (l : RestoreLabel)
  | other (page len : Nat) (acc : Access)

/-- The restored process, and accesses to the zone through other mappings. -/
def zoneStep (t : RangeTable) (image : Nat → UInt8) (basePageSize : Nat)
    (zone : Nat → Bool) (s : ZoneState) : ZoneLabel → Option ZoneState
  | .run l =>
    (restore t image basePageSize s.restore l).map fun r => s.follow zone (replaces s.restore l) r
  | .other page len acc =>
    if Within page len acc.addr ∧ zone acc.addr = true then
      some (s.other zone page len acc)
    else none

/-! ## What is promised -/

/-- The vCPUs and the other mappings have the same bytes in the zone. -/
def Coherent (zone : Nat → Bool) (s : ZoneState) : Prop :=
  ∀ a, zone a = true → s.restore.memory.mapping a ≠ .absent → s.file a = s.restore.memory.bytes a

/-- A byte that a vCPU writes is in the file, and a byte that another mapping writes is
    there for the vCPUs. -/
structure Visible (t : RangeTable) (zone : Nat → Bool) (s : ZoneState) (l : ZoneLabel)
    (s' : ZoneState) : Prop where
  vcpu : ∀ l' a b, l = .run l' → performed t.backend s.restore l' = some (.write a b) →
    zone a = true → s'.file a = b
  other : ∀ page len a b, l = .other page len (.write a b) →
    s'.restore.memory.mapping a ≠ .absent ∧ s'.restore.memory.bytes a = b

/-- The step does not map anonymous memory over a part of the zone. -/
def KeepsMapping (zone : Nat → Bool) (s : ZoneState) (l : ZoneLabel) (_ : ZoneState) :
    Prop :=
  ∀ l', l = .run l' → ∀ a, zone a = true → ¬ Covers (replaces s.restore l') a

/-- No write of either side goes to an address that was replaced, unless the other side
    has the same byte there. -/
structure WritesShared (t : RangeTable) (zone : Nat → Bool) (s : ZoneState) (l : ZoneLabel)
    (_ : ZoneState) : Prop where
  vcpu : ∀ l' a b, l = .run l' → performed t.backend s.restore l' = some (.write a b) →
    zone a = true → s.replaced a = true → s.file a = b
  other : ∀ page len a b, l = .other page len (.write a b) → s.replaced a = true →
    s.restore.memory.bytes a = b

/-! ## What the handler does to the memory -/

/-- The memory after a step of the handler, with the chunk that was replaced. -/
inductive MemoryMove (m : Memory) : Option TemplateCowChunk → Memory → Prop where
  | same : MemoryMove m none m
  | filled {addr len : Nat} {buf : Nat → UInt8} : MemoryMove m none (m.copyWp addr len buf)
  | unprotected {addr len : Nat} : MemoryMove m none (m.unprotect addr len)
  | remapped {ch : TemplateCowChunk} :
      MemoryMove m (some ch) (m.mmapFixed ch.startAddr ch.len)
  | copiedBack {addr len : Nat} {buf : Nat → UInt8} :
      MemoryMove m none (m.copyIn addr len buf)
  | released : MemoryMove m none m.release

variable {a len : Nat}

section Handler

variable {b : TemplateRestoreBackend} {image : Nat → UInt8} {bufLen : Nat}
  {s s' : RestoreState} {event : Nat} {out : Outcome}

theorem memoryMove_copyWp {addr : Nat} {buf : Nat → UInt8} :
    MemoryMove s.memory none (s.copyWp addr len buf).memory := by
  rw [RestoreState.copyWp]
  split
  · exact .filled
  · exact .same

/-- What each step of the handler does to the memory. -/
theorem memoryMove_of_move (h : HandlerMove b image bufLen s event out s') :
    MemoryMove s.memory (replaces s (.handler event out)) s'.memory := by
  -- a step at any other place replaces nothing
  have hnone : (∀ ch n snap, s.pc ≠ .remap ch n snap) → replaces s (.handler event out) = none := by
    intro hpc
    rw [replaces]
    split
    · rename_i hremap
      exact absurd hremap (hpc _ _ _)
    · rfl
  cases h with
  | failed hset hfail =>
    have hno : replaces s (.handler event out) = none := by
      rw [replaces]
      split
      · exact if_pos hfail
      · rfl
    rw [hno]
    exact .released
  | remapped hpc hout =>
    rw [replaces, hpc]
    dsimp only
    rw [if_neg hout]
    exact .remapped
  | refused hpc => rw [hnone (by simp [hpc])]; exact .released
  | copied hpc | installed hpc =>
    rw [hnone (by simp [hpc])]
    exact memoryMove_copyWp
  | unprotected hpc => rw [hnone (by simp [hpc])]; exact .unprotected
  | copiedBack hpc => rw [hnone (by simp [hpc])]; exact .copiedBack
  | againPage hpc | againChunk hpc | spinning hpc | yielded hpc | ready hpc | eventMissing hpc
  | eventWp hpc | claimed hpc | contended hpc | claimReady hpc | spun hpc | read hpc | stored hpc
  | wakeFailed hpc | wokePage hpc | acquired hpc | skipped hpc | allPrivate hpc
  | allAcquired hpc | loaded hpc | readChunk hpc | saved hpc | marked hpc | counted hpc
  | wokeChunk hpc =>
    rw [hnone (by simp [hpc])]
    exact .same

/-- Nothing takes an anonymous mapping away again, and a chunk that is replaced becomes
    one. -/
theorem anonymous_move {m m' : Memory} {ch : Option TemplateCowChunk} (hmove : MemoryMove m ch m')
    (h : m.mapping a = .anonymous ∨ Covers ch a) : m'.mapping a = .anonymous := by
  cases hmove with
  | same | copiedBack => exact h.resolve_right id
  | filled | unprotected =>
    have ha := h.resolve_right id
    exact (if_neg fun hin => by cases ha.symm.trans hin.2).trans ha
  | remapped =>
    show (if _ then Mapping.anonymous else m.mapping a) = .anonymous
    split
    · rfl
    · rename_i hout
      exact h.resolve_right hout
  | released => rfl

end Handler

/-! ## One step -/

variable {s s' : ZoneState}

section Steps

variable {t : RangeTable} {image : Nat → UInt8} {basePageSize : Nat} {zone : Nat → Bool}

/-- A replaced address is anonymous memory of the restored process, any other address of
    the zone is the file's. -/
structure ZoneInv (zone : Nat → Bool) (s : ZoneState) : Prop where
  anonymous : ∀ a, s.replaced a = true → s.restore.memory.mapping a = .anonymous
  shared : ∀ a, zone a = true → s.replaced a = false → s.file a = s.restore.memory.bytes a

theorem zoneInv_start (vcpus : Nat) : ZoneInv zone (start vcpus) where
  anonymous _ h := by cases h
  shared _ _ _ := rfl

variable {l : RestoreLabel} {r : RestoreState} {b : UInt8}

/-- Only the handler replaces anything. -/
theorem replaces_eq_none {s : RestoreState} (h : ∀ event out, l ≠ .handler event out) :
    replaces s l = none := by
  cases l with
  | handler event out => exact absurd rfl (h event out)
  | vmm | vcpu | retry => rfl

/-- Mappings stay anonymous, and the replaced chunk becomes so. -/
theorem anonymous_restore {s s' : RestoreState} (hs : restore t image basePageSize s l = some s')
    (h : s.memory.mapping a = .anonymous ∨ Covers (replaces s l) a) :
    s'.memory.mapping a = .anonymous := by
  rcases restoreStep_cases hs with ⟨event, out, rfl, hhandler⟩ | ⟨rfl, hvmm⟩
    | ⟨hno, -, i, acc, -, rfl⟩
  · exact anonymous_move (memoryMove_of_move (move_of_handlerStep hhandler)) h
  · obtain ⟨phase, rfl⟩ := vmmStep_frame hvmm
    exact h.resolve_right id
  · rw [access_mapping]
    rw [replaces_eq_none hno] at h
    exact h.resolve_right id

/-- A step of the restore keeps the invariant. -/
theorem zoneInv_follow (h : ZoneInv zone s)
    (hr : restore t image basePageSize s.restore l = some r) :
    ZoneInv zone (s.follow zone (replaces s.restore l) r) := by
  constructor
  · intro a ha
    refine anonymous_restore hr ?_
    rcases Bool.or_eq_true _ _ |>.mp ha with hold | hnew
    · exact .inl (h.anonymous a hold)
    · exact .inr (of_decide_eq_true hnew)
  · intro a hzone ha
    have ha' : (s.replaced a || decide (Covers (replaces s.restore l) a)) = false := ha
    show (if zone a && !(_) then r.memory.bytes a else s.file a) = r.memory.bytes a
    rw [ha', hzone]
    rfl

/-- Populating keeps the invariant. -/
theorem zoneInv_populate (h : ZoneInv zone s) (page len : Nat) :
    ZoneInv zone (s.populate zone page len) := by
  constructor
  · intro a ha
    have hanon := h.anonymous a ha
    have hhole : s.inHole zone page len a = false := by
      rw [ZoneState.inHole, hanon]
      exact Bool.and_false _
    show (if s.inHole zone page len a then Mapping.writable else _) = _
    rw [hhole]
    exact hanon
  · intro a hzone ha
    show (if s.inHole zone page len a then 0 else s.file a)
      = if s.inHole zone page len a then 0 else s.restore.memory.bytes a
    rw [h.shared a hzone ha]

/-- A store keeps the invariant. -/
theorem zoneInv_store (h : ZoneInv zone s) (a : Nat) (b : UInt8) : ZoneInv zone (s.store a b) := by
  refine ⟨h.anonymous, ?_⟩
  intro x hzone hx
  have hx' : s.replaced x = false := hx
  show (if x = a then b else s.file x)
    = if x = a ∧ s.replaced a = false then b else s.restore.memory.bytes x
  by_cases hxa : x = a
  · subst hxa
    rw [if_pos rfl, if_pos ⟨rfl, hx'⟩]
  · rw [if_neg hxa, if_neg fun hand => hxa hand.1]
    exact h.shared x hzone hx'

/-- Every step keeps the invariant. -/
theorem zoneInv_step (s : ZoneState) (l : ZoneLabel) (s' : ZoneState) (h : ZoneInv zone s)
    (hs : zoneStep t image basePageSize zone s l = some s') : ZoneInv zone s' := by
  cases l with
  | run l =>
    obtain ⟨r, hr, rfl⟩ := map_eq_some_iff.mp hs
    exact zoneInv_follow h hr
  | other page len acc =>
    rw [zoneStep] at hs
    split at hs
    · cases hs
      cases acc with
      | read a => exact zoneInv_populate h page len
      | write a b => exact zoneInv_store (zoneInv_populate h page len) a b
    · cases hs

/-- A write that takes effect puts its byte into the memory of the process and replaces
    nothing. -/
theorem performed_write {s s' : RestoreState} (hp : performed t.backend s l = some (.write a b))
    (hs : restore t image basePageSize s l = some s') :
    s'.memory.bytes a = b ∧ replaces s l = none := by
  obtain ⟨⟨i, ha⟩, hallows⟩ := performed_eq_some hp
  rcases restoreStep_cases hs with ⟨event, out, rfl, -⟩ | ⟨rfl, -⟩
    | ⟨hno, -, i', acc, ha', rfl⟩
  · cases ha
  · cases ha
  · cases ha.symm.trans ha'
    refine ⟨?_, replaces_eq_none hno⟩
    rw [access, if_pos hallows]
    exact if_pos rfl

/-- When the file has what a vCPU wrote. -/
theorem visible_vcpu_iff (hr : restore t image basePageSize s.restore l = some r)
    (hp : performed t.backend s.restore l = some (.write a b)) (hzone : zone a = true) :
    (s.follow zone (replaces s.restore l) r).file a = b ↔ (s.replaced a = true → s.file a = b) := by
  obtain ⟨hbyte, hnone⟩ := performed_write hp hr
  show (if zone a && !(s.replaced a || decide (Covers (replaces s.restore l) a)) then
    r.memory.bytes a else s.file a) = b ↔ _
  have hcovers : decide (Covers (replaces s.restore l) a) = false := by
    rw [hnone]
    exact decide_eq_false id
  rw [hcovers, hzone, hbyte]
  cases s.replaced a with
  | false | true => simp

/-- The page of the access is there for the vCPUs afterwards. -/
theorem present_other {page : Nat} (b : UInt8) (hin : Within page len a) (hzone : zone a = true) :
    (s.other zone page len (.write a b)).restore.memory.mapping a ≠ .absent := by
  show (if s.inHole zone page len a then Mapping.writable else _) ≠ _
  by_cases habsent : s.restore.memory.mapping a = .absent
  · have hhole : s.inHole zone page len a = true := by
      rw [ZoneState.inHole, hzone, habsent, decide_eq_true hin]
      rfl
    rw [hhole]
    simp
  · split
    · simp
    · exact habsent

/-- When the vCPUs have what another mapping wrote. -/
theorem visible_other_iff (h : ZoneInv zone s) (page len a : Nat) (b : UInt8) :
    (s.other zone page len (.write a b)).restore.memory.bytes a = b
      ↔ (s.replaced a = true → s.restore.memory.bytes a = b) := by
  show (if a = a ∧ s.replaced a = false then b
    else if s.inHole zone page len a then 0 else s.restore.memory.bytes a) = b ↔ _
  cases hrep : s.replaced a with
  | false => simp
  | true =>
    have hhole : s.inHole zone page len a = false := by
      rw [ZoneState.inHole, h.anonymous a hrep]
      exact Bool.and_false _
    simp [hhole]

/-- A write is visible unless it misses the file. -/
theorem visible_iff (s : ZoneState) (l : ZoneLabel) (s' : ZoneState) (h : ZoneInv zone s)
    (hs : zoneStep t image basePageSize zone s l = some s') :
    WritesShared t zone s l s' ↔ Visible t zone s l s' := by
  cases l with
  | run l =>
    obtain ⟨r, hr, rfl⟩ := map_eq_some_iff.mp hs
    constructor
    · rintro ⟨hvcpu, -⟩
      refine ⟨?_, fun _ _ _ _ hl => by cases hl⟩
      intro l' a b hl hp hzone
      cases hl
      exact (visible_vcpu_iff hr hp hzone).mpr (hvcpu l a b rfl hp hzone)
    · rintro ⟨hvcpu, -⟩
      refine ⟨?_, fun _ _ _ _ hl => by cases hl⟩
      intro l' a b hl hp hzone
      cases hl
      exact (visible_vcpu_iff hr hp hzone).mp (hvcpu l a b rfl hp hzone)
  | other page len acc =>
    rw [zoneStep] at hs
    split at hs
    · rename_i hin
      cases hs
      constructor
      · rintro ⟨-, hother⟩
        refine ⟨(fun _ _ _ hl => by cases hl), ?_⟩
        intro page' len' a b hl
        cases hl
        exact ⟨present_other b hin.1 hin.2,
          (visible_other_iff h page len a b).mpr (hother page len a b rfl)⟩
      · rintro ⟨-, hother⟩
        refine ⟨(fun _ _ _ hl => by cases hl), ?_⟩
        intro page' len' a b hl
        cases hl
        exact (visible_other_iff h page len a b).mp (hother page len a b rfl).2
    · cases hs

/-- Nothing of the zone has been replaced. -/
def Unreplaced (zone : Nat → Bool) (s : ZoneState) : Prop :=
  ∀ a, zone a = true → s.replaced a = false

/-- A step that keeps the mapping replaces nothing. -/
theorem unreplaced_step {l : ZoneLabel} (h : Unreplaced zone s)
    (hs : zoneStep t image basePageSize zone s l = some s') (hkeeps : KeepsMapping zone s l s') :
    Unreplaced zone s' := by
  cases l with
  | run l =>
    obtain ⟨r, -, rfl⟩ := map_eq_some_iff.mp hs
    intro a hzone
    show (s.replaced a || decide (Covers (replaces s.restore l) a)) = false
    rw [h a hzone, decide_eq_false (hkeeps l rfl a hzone)]
    rfl
  | other page len acc =>
    rw [zoneStep] at hs
    split at hs
    · cases hs
      cases acc with
      | read a | write a b => exact h
    · cases hs

/-- What was not replaced is coherent. -/
theorem coherent_of_unreplaced (h : ZoneInv zone s) (hun : Unreplaced zone s) : Coherent zone s :=
  fun a hzone _ => h.shared a hzone (hun a hzone)

theorem writesShared_of_unreplaced {l : ZoneLabel} (hun : Unreplaced zone s)
    (hs : zoneStep t image basePageSize zone s l = some s') : WritesShared t zone s l s' := by
  constructor
  · intro l' a b _ _ hzone hrep
    cases (hun a hzone).symm.trans hrep
  · rintro page len a b rfl hrep
    rw [zoneStep] at hs
    split at hs
    · rename_i hin
      cases (hun a hin.2).symm.trans hrep
    · cases hs

end Steps

/-- **THE SHARED ZONE.**  As long as the handler maps no anonymous memory over the zone,
    the vCPUs and the other mappings have the same bytes in every state, and every write
    is visible on the other side.  In any run, every write is visible on the other side
    when it is made exactly when no write goes to a part that was replaced, unless it
    writes the byte that the other side has there. -/
theorem zone_stays_shared (t : RangeTable) (image : Nat → UInt8) (basePageSize : Nat)
    (zone : Nat → Bool) (vcpus : Nat) (ls : List ZoneLabel) :
    (Moves (zoneStep t image basePageSize zone) (KeepsMapping zone) (start vcpus) ls →
        States (zoneStep t image basePageSize zone) (Coherent zone) (start vcpus) ls
          ∧ Moves (zoneStep t image basePageSize zone) (Visible t zone) (start vcpus) ls)
      ∧ (Moves (zoneStep t image basePageSize zone) (Visible t zone) (start vcpus) ls
        ↔ Moves (zoneStep t image basePageSize zone) (WritesShared t zone) (start vcpus) ls) := by
  have hiff : Moves (zoneStep t image basePageSize zone) (WritesShared t zone)
      (start vcpus) ls
      ↔ Moves (zoneStep t image basePageSize zone) (Visible t zone) (start vcpus) ls :=
    moves_iff (m := zoneStep t image basePageSize zone) (I := ZoneInv zone) visible_iff
      (fun s l s' h hs _ => zoneInv_step s l s' h hs) (zoneInv_start vcpus)
  refine ⟨fun hkeeps => ?_, hiff.symm⟩
  have hstart : ZoneInv zone (start vcpus) ∧ Unreplaced zone (start vcpus) :=
    ⟨zoneInv_start vcpus, fun _ _ => rfl⟩
  constructor
  · refine states_of_inv (I := fun s => ZoneInv zone s ∧ Unreplaced zone s)
      (fun s h => coherent_of_unreplaced h.1 h.2) ?_ hstart hkeeps
    intro s l s' h hs hk
    exact ⟨zoneInv_step s l s' h.1 hs, unreplaced_step h.2 hs hk⟩
  · rw [← hiff]
    refine moves_of_inv (I := fun s => ZoneInv zone s ∧ Unreplaced zone s) ?_ ls
      (start vcpus) hstart hkeeps
    intro s l s' h hs hk
    exact ⟨⟨zoneInv_step s l s' h.1 hs, unreplaced_step h.2 hs hk⟩,
      writesShared_of_unreplaced h.2 hs⟩

/-! ## One page -/

/-- All of the guest's one page. -/
def pageZone : Nat → Bool := fun a => decide (Within 65536 4096 a)

/-- The restore of the page, with its zone mapped elsewhere. -/
def pageStep : ZoneState → ZoneLabel → Option ZoneState :=
  zoneStep LazyRestore.onePageTable LazyRestore.onePageFile 4096 pageZone

/-- The step replaces no page. -/
def replacesNothing (s : ZoneState) : ZoneLabel → Bool
  | .run l => (replaces s.restore l).isNone
  | .other _ _ _ => true

theorem keepsMapping_of_nothing {zone : Nat → Bool} {l : ZoneLabel}
    (h : replacesNothing s l = true) : KeepsMapping zone s l s' := by
  rintro l' rfl a - hcovers
  rw [isNone_iff_eq_none.mp h] at hcovers
  exact hcovers

/-- The page is loaded for a read. -/
def loadPage : List RestoreLabel :=
  [.handler 0 .ok, .vmm, .vmm, .vcpu 0 (.read 65536)] ++ List.replicate 5 (.handler 0 .ok)
    ++ [.retry 0]

/-- Another mapping writes to the page, and the vCPU reads. -/
def readOnly : List ZoneLabel :=
  loadPage.map .run ++ [.other 65536 4096 (.write 65540 9), .run (.vcpu 0 (.read 65540))]

/-- While the vCPU only reads, it sees what the other mapping writes. -/
theorem readOnly_coherent :
    (exec pageStep (start 1) readOnly).map (fun s => s.restore.memory.bytes 65540) = some 9
      ∧ States pageStep (Coherent pageZone) (start 1) readOnly := by
  have hnothing : Moves pageStep (fun s l _ => replacesNothing s l = true) (start 1)
      readOnly := by
    decide +kernel
  have hkeeps : Moves pageStep (KeepsMapping pageZone) (start 1) readOnly :=
    moves_of_inv (I := fun _ => True)
      (fun s l s' _ _ h => ⟨trivial, keepsMapping_of_nothing h⟩) readOnly (start 1) trivial
      hnothing
  exact ⟨by decide +kernel,
    ((zone_stays_shared LazyRestore.onePageTable LazyRestore.onePageFile 4096 pageZone 1
      readOnly).1 hkeeps).1⟩

/-- A vCPU writes: the page is loaded and replaced, and the vCPU is woken. -/
def replacePage : List RestoreLabel :=
  LazyRestore.untilRemap ++ List.replicate 5 (.handler 0 .ok)

/-- The write takes effect. -/
def vcpuWrites : List ZoneLabel := replacePage.map .run ++ [.run (.retry 0)]

/-- The vCPU has written a 1, which the file does not have; a 9 written through another
    mapping is in the file and not there for the vCPU. -/
theorem writes_stay_on_their_side :
    (exec pageStep (start 2) vcpuWrites).map
        (fun s => (s.restore.memory.bytes 65536, s.file 65536)) = some (1, 0)
      ∧ (exec pageStep (start 2) (vcpuWrites ++ [.other 65536 4096 (.write 65540 9)])).map
        (fun s => (s.restore.memory.bytes 65540, s.file 65540)) = some (0, 9)
      ∧ ¬ Moves pageStep (Visible LazyRestore.onePageTable pageZone) (start 2)
        vcpuWrites := by
  have hbytes : (exec pageStep (start 2) vcpuWrites).map
      (fun s => (s.restore.memory.bytes 65536, s.file 65536)) = some (1, 0) := by
    decide +kernel
  refine ⟨hbytes, by decide +kernel, fun hmoves => ?_⟩
  have hwrites : ((exec pageStep (start 2) (replacePage.map .run)).bind fun s =>
      performed LazyRestore.onePageTable.backend s.restore (.retry 0))
      = some (.write 65536 1) := by
    decide +kernel
  obtain ⟨s, hs, hperformed⟩ := bind_eq_some_iff.mp hwrites
  obtain ⟨s', hs', hpair⟩ := map_eq_some_iff.mp hbytes
  rw [vcpuWrites, exec_append, hs] at hs'
  obtain ⟨s'', hstep, hend⟩ := exec_cons hs'
  cases hend
  -- the promise for this write is that the file has the 1
  have hfile := (moves_exec hmoves hs s' hstep).1.vcpu (.retry 0) 65536 1 rfl hperformed rfl
  rw [(Prod.mk.inj hpair).2] at hfile
  cases hfile

end SharedZone
