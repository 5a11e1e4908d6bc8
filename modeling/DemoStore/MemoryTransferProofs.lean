import DemoStore.DirtyLogProofs
import DemoStore.SendCoverProofs
import DemoStore.SendGateProgressProofs
import Mathlib.Data.List.MinMax

/-! # Guest memory on the wire

    `send_memory_ranges` and `receive_memory_ranges` are two loops over the same table, at the
    two ends of a connection, each with its own short transfers.  While they run the guest goes
    on writing: a vCPU store is in the hypervisor's log at once, a device first stores and then
    marks the bitmap of the VMM or, if it is a vhost-user backend, the region it shares with it.

    An address is good if both sides have the same byte, or the page is in a log or about to be
    marked.  The loops are a `Delivery`: what they put on the wire is the byte of the source, or
    the guest has written there since.  A transfer can always be finished
    (`transfer_finishes`), so `cleanup` can hang with these loops as with any others. -/

namespace MemoryTransfer

open DirtyLog SendGate MachineRun List Option
open Function (update update_of_ne update_self)

/-! ## The logs -/

/-- `slot_bitmap |= 1 << page`. -/
def setBit (bitmap : List UInt64) (page : Nat) : List UInt64 :=
  bitmap.modify (page / 64) fun w => w ||| (1 <<< UInt64.ofNat (page % 64))

theorem length_setBit (bitmap : List UInt64) (page : Nat) :
    (setBit bitmap page).length = bitmap.length :=
  length_modify ..

theorem getD_setBit (bitmap : List UInt64) (page i : Nat) :
    (setBit bitmap page).getD i 0 = if i < bitmap.length ∧ page / 64 = i then
          bitmap.getD i 0 ||| (1 <<< UInt64.ofNat (page % 64))
        else bitmap.getD i 0 := by
  rw [setBit, getD_eq_getElem?_getD, getD_eq_getElem?_getD, getElem?_modify]
  by_cases hi : i < bitmap.length
  · rw [getElem?_eq_getElem hi]
    by_cases hp : page / 64 = i
    · simp [hi, hp]
    · simp [hp]
  · rw [getElem?_eq_none (Nat.le_of_not_lt hi)]
    simp [hi]

theorem testBit_one_shift {k : Nat} (hk : k < 64) :
    ((1 : UInt64) <<< UInt64.ofNat k).toNat.testBit k = true := by
  have hof : (UInt64.ofNat k).toNat = k := UInt64.toNat_ofNat_of_lt' (Nat.lt_trans hk (by decide))
  rw [UInt64.toNat_shiftLeft, hof, Nat.mod_eq_of_lt hk, UInt64.toNat_one, Nat.testBit_mod_two_pow,
    Nat.testBit_shiftLeft]
  simp [hk]

variable {page addr : Nat} {α β : Type}

/-- The bit that was set is dirty. -/
theorem dirtyBit_setBit_self {bitmap : List UInt64} (h : page / 64 < bitmap.length) :
    dirtyBit (setBit bitmap page) page = true := by
  rw [dirtyBit, getD_setBit, if_pos ⟨h, rfl⟩, UInt64.toNat_or, Nat.testBit_or,
    testBit_one_shift (Nat.mod_lt _ (by decide)), Bool.or_true]

/-- A mark does not take another one away. -/
theorem dirtyBit_setBit_of {bitmap : List UInt64} {p : Nat} (h : dirtyBit bitmap p = true) :
    dirtyBit (setBit bitmap page) p = true := by
  rw [dirtyBit] at h ⊢
  rw [getD_setBit]
  split
  · rw [UInt64.toNat_or, Nat.testBit_or, h, Bool.true_or]
  · exact h

/-- What `DeviceManager::dirty_log` reads: the vhost-user devices and the region `shm_log` that
    each backend marks, one bit for each page from address 0 on. -/
structure DeviceManager where
  backends : List Nat
  shmLog : Nat → List UInt64

/-- The two halves of `Vm::dirty_log`. -/
structure Managers where
  mm : MemoryManager
  dm : DeviceManager

/-- A bitmap: of the hypervisor for a slot, of the VMM for a region, of a vhost-user backend. -/
inductive LogId where
  | vm (slot : Nat)
  | vmm (start : Nat)
  | shm (device : Nat)
  deriving DecidableEq

/-- The bitmap of a log. -/
def Managers.bitmap (ms : Managers) : LogId → List UInt64
  | .vm slot => ms.mm.vmLog slot
  | .vmm start => ms.mm.vmmLog start
  | .shm device => ms.dm.shmLog device

/-- The managers with another bitmap. -/
def Managers.set (ms : Managers) (id : LogId) (bitmap : List UInt64) : Managers :=
  match id with
  | .vm slot => { ms with mm.vmLog := update ms.mm.vmLog slot bitmap }
  | .vmm start => { ms with mm.vmmLog := update ms.mm.vmmLog start bitmap }
  | .shm device => { ms with dm.shmLog := update ms.dm.shmLog device bitmap }

@[simp] theorem bitmap_set_self (ms : Managers) (id : LogId) (bitmap : List UInt64) :
    (ms.set id bitmap).bitmap id = bitmap := by
  cases id with
  | _ => exact update_self ..

variable {ms : Managers} {m : GuestRamMapping} {s : LogId × Nat} {a : Nat} {v : UInt8}
  {q : Nat × List MemoryRange × Nat} {id : LogId}

theorem bitmap_set_of_ne {id' : LogId} (bitmap : List UInt64) (h : id' ≠ id) :
    (ms.set id bitmap).bitmap id' = ms.bitmap id' := by
  cases id <;> cases id' <;> first | rfl | exact update_of_ne (fun heq => h (by rw [heq])) ..

/-- The bitmaps with the first address of each. -/
def Managers.sources (ms : Managers) : List (LogId × Nat) :=
  ms.mm.guestRamMappings.flatMap (fun m => [(.vm m.slot, m.gpa), (.vmm m.gpa, m.gpa)])
    ++ ms.dm.backends.map fun d => (.shm d, 0)

/-- The bitmaps that have a bit for the pages of a mapping. -/
inductive LogFor (ms : Managers) (m : GuestRamMapping) : LogId × Nat → Prop
  | vm : LogFor ms m (.vm m.slot, m.gpa)
  | vmm : LogFor ms m (.vmm m.gpa, m.gpa)
  | shm {d : Nat} (hd : d ∈ ms.dm.backends) : LogFor ms m (.shm d, 0)

/-- The log of a mapping is one of those taken. -/
theorem LogFor.mem_sources (h : LogFor ms m s) (hm : m ∈ ms.mm.guestRamMappings) :
    s ∈ ms.sources := by
  cases h with
  | vm | vmm => exact mem_append_left _ (mem_flatMap.mpr ⟨m, hm, by simp⟩)
  | shm hd => exact mem_append_right _ (List.mem_map.mpr ⟨_, hd, rfl⟩)

/-- `last_addr` of guest memory. -/
def lastRamAddr (mm : MemoryManager) : Nat :=
  (mm.regions.map fun r => r.startAddr + r.len - 1).foldr max 0

/-- The words that `dirty_log` reads of a region of `update_log_base`: a byte has eight pages,
    and the division by the size of a word rounds down. -/
def shmWords (lastRamAddr : Nat) : Nat := (lastRamAddr / (4096 * 8) + 1) / 8

/-- The managers while dirty pages are logged: every mapping is a region of its own, and there
    is a bit for each page of it in each bitmap.  For a vhost-user backend this takes guest RAM
    that ends at a multiple of 256 KiB, or the last pages are lost in `shmWords`. -/
structure Logs extends Managers where
  mapped : Mapped mm.guestRamMappings mm
  sized : ∀ m ∈ mm.guestRamMappings, m.size ≤ 4096 * (64 * (mm.vmLog m.slot).length)
  shared : ∀ d ∈ dm.backends, (dm.shmLog d).length = shmWords (lastRamAddr mm)
    ∧ 2 ^ 18 ∣ lastRamAddr mm + 1

/-- No region ends after the last address. -/
theorem le_lastRamAddr {mm : MemoryManager} {r : GuestRegion} (h : r ∈ mm.regions) :
    r.startAddr + r.len ≤ lastRamAddr mm + 1 := by
  have hmem : r.startAddr + r.len - 1 ∈ mm.regions.map fun r => r.startAddr + r.len - 1 :=
    List.mem_map.mpr ⟨r, h, rfl⟩
  have hle : r.startAddr + r.len - 1 ≤ lastRamAddr mm := List.le_max_of_le' 0 hmem le_rfl
  omega

/-- The same layout, with marks that may differ. -/
structure SameManagers (ms ms' : Managers) : Prop where
  mappings : ms'.mm.guestRamMappings = ms.mm.guestRamMappings
  regions : ms'.mm.regions = ms.mm.regions
  backends : ms'.dm.backends = ms.dm.backends
  lengths : ∀ id, (ms'.bitmap id).length = (ms.bitmap id).length

theorem sameManagers_refl (ms : Managers) : SameManagers ms ms := ⟨rfl, rfl, rfl, fun _ => rfl⟩

theorem sameManagers_set {bitmap : List UInt64} (h : bitmap.length = (ms.bitmap id).length) :
    SameManagers ms (ms.set id bitmap) := by
  refine ⟨?_, ?_, ?_, fun id' => ?_⟩
  · cases id with
    | _ => rfl
  · cases id with
    | _ => rfl
  · cases id with
    | _ => rfl
  · by_cases hid : id' = id
    · rw [hid, bitmap_set_self, h]
    · rw [bitmap_set_of_ne _ hid]

theorem SameManagers.sources {ms' : Managers} (h : SameManagers ms ms') :
    ms'.sources = ms.sources := by
  rw [Managers.sources, Managers.sources, h.mappings, h.backends]

/-- Other marks in the same layout. -/
def Logs.change (logs : Logs) (ms : Managers) (h : SameManagers logs.toManagers ms) : Logs where
  toManagers := ms
  mapped := h.mappings.symm ▸ logs.mapped.of_sameLayout
    ⟨h.mappings, h.regions, fun s => h.lengths (.vm s), fun g => h.lengths (.vmm g)⟩
  sized := by
    intro m hm
    have hlength := h.lengths (.vm m.slot)
    rw [Managers.bitmap, Managers.bitmap] at hlength
    rw [hlength]
    exact logs.sized m (h.mappings ▸ hm)
  shared := by
    intro d hd
    have hlength := h.lengths (.shm d)
    rw [Managers.bitmap, Managers.bitmap] at hlength
    rw [hlength, lastRamAddr, h.regions]
    exact logs.shared d (h.backends ▸ hd)

/-- The mapping of an address of guest RAM. -/
def Managers.mappingOf (ms : Managers) (a : Nat) : Option GuestRamMapping :=
  ms.mm.guestRamMappings.find? fun m => decide (m.gpa ≤ a ∧ a < m.gpa + m.size)

/-- The mapping found has the address. -/
theorem mappingOf_spec (h : ms.mappingOf a = some m) :
    m ∈ ms.mm.guestRamMappings ∧ m.gpa ≤ a ∧ a < m.gpa + m.size := by
  have hfits := find?_some h
  rw [decide_eq_true_eq] at hfits
  exact ⟨mem_of_find?_eq_some h, hfits⟩

variable {logs : Logs}

/-- Each bitmap for the mapping has a bit for the address. -/
theorem LogFor.page_lt (h : LogFor logs.toManagers m s) (ha : logs.mappingOf a = some m) :
    s.2 ≤ a ∧ (a - s.2) / 4096 / 64 < (logs.bitmap s.1).length := by
  obtain ⟨hm, hle, hlt⟩ := mappingOf_spec ha
  have hsize := logs.sized m hm
  cases h with
  | vm =>
    refine ⟨hle, ?_⟩
    show (a - m.gpa) / 4096 / 64 < (logs.mm.vmLog m.slot).length
    omega
  | vmm =>
    have hlength := logs.mapped.lengths m hm
    refine ⟨hle, ?_⟩
    show (a - m.gpa) / 4096 / 64 < (logs.mm.vmmLog m.gpa).length
    omega
  | shm hd =>
    obtain ⟨hlength, hends⟩ := logs.shared _ hd
    have hlast := le_lastRamAddr (mem_of_find?_eq_some (logs.mapped.found m hm))
    refine ⟨Nat.zero_le a, ?_⟩
    show (a - 0) / 4096 / 64 < (logs.dm.shmLog _).length
    rw [hlength, shmWords]
    dsimp only at hlast
    omega

/-- The page of the address is in a bitmap that begins at `base`. -/
def Marked (base : Nat) (bitmap : List UInt64) (a : Nat) : Prop :=
  base ≤ a ∧ dirtyBit bitmap ((a - base) / 4096) = true

/-- The address is in a page that one of the bitmaps has. -/
def Managers.Dirty (ms : Managers) (a : Nat) : Prop :=
  ∃ s ∈ ms.sources, Marked s.2 (ms.bitmap s.1) a

/-- One bit is set. -/
def Logs.mark (logs : Logs) (s : LogId × Nat) (a : Nat) : Logs :=
  logs.change (logs.set s.1 (setBit (logs.bitmap s.1) ((a - s.2) / 4096)))
    (sameManagers_set (length_setBit _ _))

/-- A mark changes a bitmap and nothing else. -/
theorem sameManagers_mark (logs : Logs) (s : LogId × Nat) (a : Nat) :
    SameManagers logs.toManagers (logs.mark s a).toManagers :=
  sameManagers_set (length_setBit _ _)

/-- A marked address is dirty. -/
theorem dirty_mark_self (hs : LogFor logs.toManagers m s) (ha : logs.mappingOf a = some m) :
    (logs.mark s a).Dirty a := by
  obtain ⟨hle, hlt⟩ := hs.page_lt ha
  refine ⟨s, ?_, hle, ?_⟩
  · rw [(sameManagers_mark logs s a).sources]
    exact hs.mem_sources (mappingOf_spec ha).1
  · rw [Logs.mark, Logs.change, bitmap_set_self]
    exact dirtyBit_setBit_self hlt

/-- What was dirty stays so. -/
theorem dirty_mark_of {b : Nat} (h : logs.Dirty b) : (logs.mark s a).Dirty b := by
  obtain ⟨t, ht, hle, hbit⟩ := h
  refine ⟨t, ?_, hle, ?_⟩
  · rw [(sameManagers_mark logs s a).sources]
    exact ht
  · rw [Logs.mark, Logs.change]
    by_cases hid : t.1 = s.1
    · rw [hid, bitmap_set_self]
      exact dirtyBit_setBit_of (hid ▸ hbit)
    · rw [bitmap_set_of_ne _ hid]
      exact hbit

/-! ## The guest -/

/-- Guest memory at both ends; `pending` are the stores of devices that are not marked yet, with
    the backend that will mark them, `none` for the VMM itself. -/
structure World where
  src : Nat → UInt8
  dst : Nat → UInt8
  logs : Logs
  pending : List (Option Nat × Nat)
  paused : Bool

/-- What a vCPU or a device does to memory. -/
inductive GuestOp where
  | vcpu (a : Nat) (v : UInt8)
  | device (who : Option Nat) (a : Nat) (v : UInt8)
  | mark (who : Option Nat) (a : Nat)
  deriving DecidableEq

/-- Where a device marks its stores. -/
def deviceLog (m : GuestRamMapping) : Option Nat → LogId × Nat
  | none => (.vmm m.gpa, m.gpa)
  | some d => (.shm d, 0)

/-- What the guest and its devices do on their own. -/
def guestStep (op : GuestOp) (w : World) : Option World :=
  match op with
  | .vcpu a v =>
    if w.paused then none
    else (w.logs.mappingOf a).map fun m =>
      { w with src := update w.src a v, logs := w.logs.mark (.vm m.slot, m.gpa) a }
  | .device who a v =>
    if w.paused then none
    else (w.logs.mappingOf a).map fun _ =>
      { w with src := update w.src a v, pending := w.pending ++ [(who, a)] }
  | .mark who a =>
    if (who, a) ∈ w.pending ∧ who ∈ none :: w.logs.dm.backends.map some then
      (w.logs.mappingOf a).map fun m =>
        { w with
          logs := w.logs.mark (deviceLog m who) a
          pending := w.pending.erase (who, a) }
    else none

theorem logFor_deviceLog {who : Option Nat} (h : who ∈ none :: ms.dm.backends.map some)
    (m : GuestRamMapping) : LogFor ms m (deviceLog m who) := by
  rcases mem_cons.mp h with rfl | h
  · exact .vmm
  · obtain ⟨d, hd, rfl⟩ := List.mem_map.mp h
    exact .shm hd

/-- The page is in a log, or will be. -/
def World.Noted (w : World) (a : Nat) : Prop := w.logs.Dirty a ∨ ∃ who, (who, a) ∈ w.pending

/-- A byte of the source that may have been read. -/
def World.Fresh (w : World) (a : Nat) (v : UInt8) : Prop := v = w.src a ∨ w.Noted a

/-- An address that is to be sent is the same at both ends, or known not to be. -/
def World.Good (told : Nat → Prop) (w : World) (a : Nat) : Prop := told a → w.Fresh a (w.dst a)

variable {op : GuestOp} {w w' : World}

/-- **ONE STEP OF THE GUEST**: what was fresh stays fresh, and an address that is written is
    noted. -/
theorem guestStep_spec (h : guestStep op w = some w') :
    w'.dst = w.dst ∧ w'.paused = w.paused
      ∧ SameManagers w.logs.toManagers w'.logs.toManagers
      ∧ (∀ a, w.Noted a → w'.Noted a) ∧ ∀ a, w'.src a = w.src a ∨ w'.Noted a := by
  have hupdate : ∀ {a : Nat} {v : UInt8} (b : Nat), b ≠ a →
      update w.src a v b = w.src b := fun b hb => update_of_ne hb _ _
  cases op with
  | vcpu a v =>
    rw [guestStep] at h
    split at h
    · cases h
    · obtain ⟨m, hm, rfl⟩ := map_eq_some_iff.mp h
      refine ⟨rfl, rfl, sameManagers_mark _ _ _, fun b hb => hb.imp_left dirty_mark_of, fun b => ?_⟩
      by_cases hb : b = a
      · subst hb
        exact .inr (.inl (dirty_mark_self .vm hm))
      · exact .inl (hupdate b hb)
  | device who a v =>
    rw [guestStep] at h
    split at h
    · cases h
    · obtain ⟨m, hm, rfl⟩ := map_eq_some_iff.mp h
      refine ⟨rfl, rfl, sameManagers_refl _, fun b hb => hb.imp_right ?_, fun b => ?_⟩
      · rintro ⟨x, hx⟩
        exact ⟨x, mem_append_left _ hx⟩
      · by_cases hb : b = a
        · subst hb
          exact .inr (.inr ⟨who, mem_append_right _ mem_cons_self⟩)
        · exact .inl (hupdate b hb)
  | mark who a =>
    rw [guestStep] at h
    split at h
    · rename_i hmark
      obtain ⟨m, hm, rfl⟩ := map_eq_some_iff.mp h
      refine ⟨rfl, rfl, sameManagers_mark _ _ _, fun b hb => ?_, fun _ => .inl rfl⟩
      rcases hb with hb | ⟨x, hx⟩
      · exact .inl (dirty_mark_of hb)
      · by_cases heq : (x, b) = (who, a)
        · cases heq
          exact .inl (dirty_mark_self (logFor_deviceLog hmark.2 m) hm)
        · exact .inr ⟨x, (mem_erase_of_ne heq).mpr hx⟩
    · cases h

/-- A paused guest with nothing to mark does nothing. -/
theorem guestStep_still (hpaused : w.paused = true) (hpending : w.pending = []) :
    guestStep op w = none := by
  cases op with
  | vcpu | device => exact if_pos hpaused
  | mark who a =>
    refine if_neg fun hmark => ?_
    rw [hpending] at hmark
    exact not_mem_nil hmark.1

/-- Whatever the guest does, fresh bytes stay fresh. -/
theorem fresh_guestStep (h : guestStep op w = some w') (hv : w.Fresh a v) : w'.Fresh a v := by
  obtain ⟨-, -, -, hnoted, hsrc⟩ := guestStep_spec h
  rcases hv with hv | hv
  · rcases hsrc a with heq | hn
    · exact .inl (hv.trans heq.symm)
    · exact .inr hn
  · exact .inr (hnoted a hv)

/-! ## One connection -/

/-- A chunk on its connection: the loop of `send_memory_ranges` with its table and `offset`, the
    bytes on the wire, and the loop of `receive_memory_ranges`. -/
structure Transfer where
  toSend : List MemoryRange
  sent : Nat
  wire : List UInt8
  toStore : List MemoryRange
  stored : Nat
  answered : Bool
  deriving DecidableEq

/-- Nothing is sent yet. -/
def Transfer.start (table : MemoryRangeTable) : Transfer := ⟨table, 0, [], table, 0, false⟩

/-- One turn of either loop: `n` bytes at `range.gpa + offset`, all of them guest RAM. -/
def advance (ms : Managers) (ranges : List MemoryRange) (offset n : Nat) :
    Option (Nat × List MemoryRange × Nat) :=
  match ranges with
  | [] => none
  | r :: rs =>
    if n ≤ r.length - offset
        ∧ ∀ a ∈ List.range' (r.gpa + offset) n, (ms.mappingOf a).isSome then
      some (r.gpa + offset, if offset + n = r.length then (rs, 0) else (r :: rs, offset + n))
    else none

/-- The steps of a transfer. -/
inductive Op where
  | send (n : Nat)
  | store (n : Nat)
  | answer
  deriving DecidableEq

/-- Bytes stored from an address on. -/
def storeBytes (dst : Nat → UInt8) (addr : Nat) (bytes : List UInt8) : Nat → UInt8 := fun a =>
  if addr ≤ a ∧ a < addr + bytes.length then bytes.getD (a - addr) 0 else dst a

/-- A step of the sender or the receiver. -/
def transferStep (op : Op) (t : Transfer) (w : World) : Option (Transfer × World) :=
  match op with
  | .send n =>
    (advance w.logs.toManagers t.toSend t.sent n).map fun q =>
      ({ t with
        toSend := q.2.1
        sent := q.2.2
        wire := t.wire ++ (List.range' q.1 n).map w.src }, w)
  | .store n =>
    if n ≤ t.wire.length then
      (advance w.logs.toManagers t.toStore t.stored n).map fun q =>
        ({ t with toStore := q.2.1, stored := q.2.2, wire := t.wire.drop n },
          { w with dst := storeBytes w.dst q.1 (t.wire.take n) })
    else none
  | .answer =>
    -- `Response::ok` is sent after the last byte is stored and read after the last is sent
    if t.toSend = [] ∧ t.toStore = [] then some ({ t with answered := true }, w) else none

/-- The threads of `SendAdditionalConnections` at work. -/
def memoryJobs : Jobs MemoryRangeTable Transfer World Op GuestOp where
  start := Transfer.start
  step := transferStep
  finished := Transfer.answered
  env := guestStep

/-- The addresses that a loop has before it. -/
def remaining : List MemoryRange → Nat → List Nat
  | [], _ => []
  | r :: rs, offset => List.range' (r.gpa + offset) (r.length - offset) ++ remaining rs 0

/-- Advancing takes the next addresses. -/
theorem remaining_advance {ranges ranges' : List MemoryRange} {offset offset' n : Nat}
    (h : advance ms ranges offset n = some (addr, ranges', offset')) :
    remaining ranges offset = List.range' addr n ++ remaining ranges' offset' := by
  cases ranges with
  | nil => cases h
  | cons r rs =>
    rw [advance] at h
    split at h
    · rename_i hn
      obtain ⟨rfl, hrest⟩ := Prod.mk.inj (some.inj h)
      split at hrest
      · rename_i hend
        obtain ⟨rfl, rfl⟩ := Prod.mk.inj hrest
        have hlen : r.length - offset = n := by omega
        rw [remaining, hlen]
      · obtain ⟨rfl, rfl⟩ := Prod.mk.inj hrest
        have hlen : r.length - offset = n + (r.length - (offset + n)) := by omega
        rw [remaining, remaining, ← append_assoc, ← Nat.add_assoc, List.range'_append_1, ← hlen]
    · cases h

/-- The addresses of a table are those it reports. -/
theorem mem_remaining_iff (table : MemoryRangeTable) (a : Nat) :
    a ∈ remaining table 0 ↔ 0 < reported table a := by
  induction table with
  | nil => simp [remaining, reported]
  | cons r rs ih =>
    have hcons : reported (r :: rs) a = reported [r] a + reported rs a := reported_append [r] rs a
    rw [remaining, mem_append, ih, hcons, List.mem_range'_1]
    have hone : reported [r] a = if r.gpa ≤ a ∧ a < r.gpa + r.length then 1 else 0 :=
      ByteSpan.cover_singleton r.span a
    rw [hone]
    split
    · rename_i hin
      simp only [Nat.add_zero, Nat.sub_zero, hin, and_self, true_or, true_iff]
      omega
    · rename_i hout
      simp only [Nat.add_zero, Nat.sub_zero, hout, false_or]
      omega

/-- What is on the wire, with the address at which it will be stored. -/
def Transfer.onWire (t : Transfer) : List (Nat × UInt8) := (remaining t.toStore t.stored).zip t.wire

/-- The loops are at the same place of the table, and what lies between them is fresh. -/
structure InStep (t : Transfer) (w : World) : Prop where
  fits : t.wire.length ≤ (remaining t.toStore t.stored).length
  aligned : (remaining t.toStore t.stored).drop t.wire.length = remaining t.toSend t.sent
  fresh : ∀ x ∈ t.onWire, w.Fresh x.1 x.2
  done : t.answered = true → t.toSend = [] ∧ t.toStore = []

/-- The address is still to be sent, or its byte is on the wire. -/
def Owes (t : Transfer) (w : World) (a : Nat) : Prop :=
  a ∈ remaining t.toSend t.sent ∨ (a, w.src a) ∈ t.onWire

/-! ### The sender reads -/

theorem zip_append_left {xs zs : List α} {ys : List β} (h : xs.length = ys.length) :
    (xs ++ zs).zip ys = xs.zip ys := by
  have happend : (xs ++ zs).zip (ys ++ []) = xs.zip ys ++ zs.zip [] := zip_append h
  rw [append_nil, zip_nil_right, append_nil] at happend
  exact happend

theorem zip_map_self (f : α → β) (xs : List α) : xs.zip (xs.map f) = xs.map fun a => (a, f a) := by
  rw [zip_eq_zipWith, zipWith_map_right, zipWith_self]

variable {t t' : Transfer} {w w' : World} {n : Nat} {told : Nat → Prop}

theorem onWire_send (h : InStep t w) (hq : advance w.logs.toManagers t.toSend t.sent n = some q) :
    Transfer.onWire { t with
        toSend := q.2.1
        sent := q.2.2
        wire := t.wire ++ (List.range' q.1 n).map w.src }
      = t.onWire ++ (List.range' q.1 n).map fun a => (a, w.src a) := by
  have hsplit := take_append_drop t.wire.length (remaining t.toStore t.stored)
  have htake : ((remaining t.toStore t.stored).take t.wire.length).length = t.wire.length := by
    rw [length_take]
    exact Nat.min_eq_left h.fits
  show (remaining t.toStore t.stored).zip (t.wire ++ (List.range' q.1 n).map w.src)
    = (remaining t.toStore t.stored).zip t.wire ++ _
  rw [← hsplit, zip_append htake, zip_append_left htake, h.aligned, remaining_advance hq,
    zip_append_left (length_map ..).symm, zip_map_self]

/-- Sending keeps both ends in step. -/
theorem inStep_send (h : InStep t w) (hq : advance w.logs.toManagers t.toSend t.sent n = some q) :
    InStep { t with
        toSend := q.2.1
        sent := q.2.2
        wire := t.wire ++ (List.range' q.1 n).map w.src } w := by
  have hrem := remaining_advance hq
  have hlength : (t.wire ++ (List.range' q.1 n).map w.src).length = t.wire.length + n := by
    rw [length_append, length_map, List.length_range']
  have hdrop := congrArg List.length h.aligned
  rw [length_drop, hrem, length_append, List.length_range'] at hdrop
  have hfits := h.fits
  constructor
  · show (t.wire ++ _).length ≤ (remaining t.toStore t.stored).length
    rw [hlength]
    omega
  · show (remaining t.toStore t.stored).drop (t.wire ++ _).length = remaining q.2.1 q.2.2
    rw [hlength, ← drop_drop, h.aligned, hrem]
    exact List.drop_left' List.length_range'
  · intro x hx
    rw [onWire_send h hq] at hx
    rcases mem_append.mp hx with hx | hx
    · exact h.fresh x hx
    · obtain ⟨a, -, rfl⟩ := List.mem_map.mp hx
      exact .inl rfl
  · intro hdone
    rw [(h.done hdone).1] at hq
    cases hq

/-! ### The receiver stores -/

/-- What is stored was next on the wire. -/
theorem onWire_store (hn : n ≤ t.wire.length)
    (hq : advance w.logs.toManagers t.toStore t.stored n = some q) :
    t.onWire = (List.range' q.1 n).zip (t.wire.take n)
      ++ Transfer.onWire { t with toStore := q.2.1, stored := q.2.2, wire := t.wire.drop n } := by
  have hlength : (List.range' q.1 n).length = (t.wire.take n).length := by
    rw [List.length_range', length_take]
    exact (Nat.min_eq_left hn).symm
  show (remaining t.toStore t.stored).zip t.wire = _
  rw [remaining_advance hq]
  conv_lhs => rw [← take_append_drop n t.wire]
  exact zip_append hlength

/-- Storing bytes is storing each of them. -/
theorem storeBytes_of_mem {dst : Nat → UInt8} {bytes : List UInt8} (hn : bytes.length = n)
    (h : (a, v) ∈ (List.range' addr n).zip bytes) : storeBytes dst addr bytes a = v := by
  subst hn
  obtain ⟨i, hi⟩ := getElem?_of_mem h
  obtain ⟨ha, hv⟩ := getElem?_zip_eq_some.mp hi
  obtain ⟨hlt, rfl⟩ := List.getElem?_eq_some_iff.mp ha
  rw [List.length_range'] at hlt
  rw [List.getElem_range', storeBytes, if_pos ⟨by omega, by omega⟩]
  have hi' : addr + 1 * i - addr = i := by omega
  rw [hi', getD_eq_getElem?_getD, hv]
  rfl

/-- A byte is kept or comes from the wire. -/
theorem storeBytes_cases (dst : Nat → UInt8) (addr a : Nat) (bytes : List UInt8) :
    storeBytes dst addr bytes a = dst a
      ∨ (a, storeBytes dst addr bytes a) ∈ (List.range' addr bytes.length).zip bytes := by
  by_cases ha : addr ≤ a ∧ a < addr + bytes.length
  · right
    have hlt : a - addr < bytes.length := by omega
    have hget : ((List.range' addr bytes.length).zip bytes)[a - addr]?
        = some (a, storeBytes dst addr bytes a) := by
      refine getElem?_zip_eq_some.mpr ⟨?_, ?_⟩
      · rw [List.getElem?_range' (by omega)]
        congr 1
        omega
      · rw [storeBytes, if_pos ha, getD_eq_getElem?_getD, getElem?_eq_getElem hlt]
        rfl
    exact mem_of_getElem? hget
  · left
    exact if_neg ha

/-- Storing keeps both ends in step. -/
theorem inStep_store (h : InStep t w) (hn : n ≤ t.wire.length)
    (hq : advance w.logs.toManagers t.toStore t.stored n = some q) :
    InStep { t with toStore := q.2.1, stored := q.2.2, wire := t.wire.drop n }
      { w with dst := storeBytes w.dst q.1 (t.wire.take n) } := by
  have hrem := remaining_advance hq
  have hfits := h.fits
  rw [hrem, length_append, List.length_range'] at hfits
  constructor
  · show (t.wire.drop n).length ≤ (remaining q.2.1 q.2.2).length
    rw [length_drop]
    exact Nat.sub_le_iff_le_add'.mpr hfits
  · show (remaining q.2.1 q.2.2).drop (t.wire.drop n).length = remaining t.toSend t.sent
    rw [← h.aligned, hrem, length_drop]
    have hsum : t.wire.length = n + (t.wire.length - n) := by omega
    conv_rhs => rw [hsum, ← drop_drop]
    rw [List.drop_left' List.length_range']
  · intro x hx
    refine h.fresh x ?_
    rw [onWire_store hn hq]
    exact mem_append_right _ hx
  · intro hdone
    rw [(h.done hdone).2] at hq
    cases hq

/-! ### The delivery -/

/-- Every step of a transfer keeps both ends in step. -/
theorem inStep_transferStep {op : Op} (h : transferStep op t w = some (t', w'))
    (ht : InStep t w) : InStep t' w' := by
  cases op with
  | send n =>
    obtain ⟨q, hq, heq⟩ := map_eq_some_iff.mp h
    cases heq
    exact inStep_send ht hq
  | store n =>
    rw [transferStep] at h
    split at h
    · rename_i hn
      obtain ⟨q, hq, heq⟩ := map_eq_some_iff.mp h
      cases heq
      exact inStep_store ht hn hq
    · cases h
  | answer =>
    rw [transferStep] at h
    split at h
    · rename_i hdone
      cases h
      exact ⟨ht.fits, ht.aligned, ht.fresh, fun _ => hdone⟩
    · cases h

/-- A step of a transfer only changes what is stored at the destination, and only to what is on
    its wire. -/
theorem transferStep_world {op : Op} (h : transferStep op t w = some (t', w')) :
    w'.src = w.src ∧ w'.logs = w.logs ∧ w'.pending = w.pending ∧ w'.paused = w.paused
      ∧ ∀ a, w'.dst a = w.dst a ∨ (a, w'.dst a) ∈ t.onWire := by
  cases op with
  | send n =>
    obtain ⟨q, hq, heq⟩ := map_eq_some_iff.mp h
    cases heq
    exact ⟨rfl, rfl, rfl, rfl, fun _ => .inl rfl⟩
  | store n =>
    rw [transferStep] at h
    split at h
    · rename_i hn
      obtain ⟨q, hq, heq⟩ := map_eq_some_iff.mp h
      cases heq
      refine ⟨rfl, rfl, rfl, rfl, fun a => ?_⟩
      refine (storeBytes_cases w.dst q.1 a (t.wire.take n)).imp_right fun hmem => ?_
      rw [length_take, Nat.min_eq_left hn] at hmem
      rw [onWire_store hn hq]
      exact mem_append_left _ hmem
    · cases h
  | answer =>
    rw [transferStep] at h
    split at h
    · cases h
      exact ⟨rfl, rfl, rfl, rfl, fun _ => .inl rfl⟩
    · cases h

/-- A transfer keeps what is fresh. -/
theorem fresh_transferStep {op : Op} (h : transferStep op t w = some (t', w')) (hv : w.Fresh a v) :
    w'.Fresh a v := by
  obtain ⟨hsrc, hlogs, hpending, -, -⟩ := transferStep_world h
  rw [World.Fresh, World.Noted, hsrc, hlogs, hpending]
  exact hv

/-- A transfer keeps what is good. -/
theorem good_transferStep {op : Op} (h : transferStep op t w = some (t', w')) (ht : InStep t w)
    (hgood : w.Good told a) : w'.Good told a := by
  obtain ⟨-, -, -, -, hdst⟩ := transferStep_world h
  intro htold
  apply fresh_transferStep h
  rcases hdst a with heq | hmem
  · rw [heq]
    exact hgood htold
  · exact ht.fresh _ hmem

/-- What a transfer owes it still owes, or has delivered. -/
theorem owes_transferStep {op : Op} (h : transferStep op t w = some (t', w')) (ht : InStep t w)
    (howes : Owes t w a) : Owes t' w' a ∨ w'.Good told a := by
  cases op with
  | send n =>
    obtain ⟨q, hq, heq⟩ := map_eq_some_iff.mp h
    cases heq
    left
    rw [Owes, onWire_send ht hq]
    rcases howes with htodo | hwire
    · rw [remaining_advance hq] at htodo
      rcases mem_append.mp htodo with hread | htodo
      · exact .inr (mem_append_right _ (List.mem_map.mpr ⟨a, hread, rfl⟩))
      · exact .inl htodo
    · exact .inr (mem_append_left _ hwire)
  | store n =>
    rw [transferStep] at h
    split at h
    · rename_i hn
      obtain ⟨q, hq, heq⟩ := map_eq_some_iff.mp h
      cases heq
      rcases howes with htodo | hwire
      · exact .inl (.inl htodo)
      · rw [onWire_store hn hq] at hwire
        rcases mem_append.mp hwire with hstored | hwire
        · refine .inr fun _ => .inl ?_
          have hlength : (t.wire.take n).length = n := by
            rw [length_take]
            exact Nat.min_eq_left hn
          exact storeBytes_of_mem hlength hstored
        · exact .inl (.inr hwire)
    · cases h
  | answer =>
    rw [transferStep] at h
    split at h
    · cases h
      exact .inl howes
    · cases h

theorem inStep_start (table : MemoryRangeTable) (w : World) : InStep (Transfer.start table) w where
  fits := Nat.zero_le _
  aligned := rfl
  fresh := by
    intro x hx
    rw [Transfer.onWire, Transfer.start, zip_nil_right] at hx
    cases hx
  done := by
    intro hdone
    cases hdone

/-- Nothing is owed when the answer is there. -/
theorem not_owes_of_answered (h : InStep t w) (hdone : t.answered = true) (a : Nat) :
    ¬ Owes t w a := by
  obtain ⟨hsend, hstore⟩ := h.done hdone
  rw [Owes, Transfer.onWire, hsend, hstore]
  rintro (hmem | hmem)
  · cases hmem
  · cases hmem

theorem inStep_of_fresh (h : InStep t w) (hfresh : ∀ a v, w.Fresh a v → w'.Fresh a v) :
    InStep t w' :=
  ⟨h.fits, h.aligned, fun x hx => hfresh _ _ (h.fresh x hx), h.done⟩

/-- Whatever the guest does, good bytes stay good. -/
theorem good_guestStep (h : guestStep op w = some w') (hgood : w.Good told a) : w'.Good told a := by
  obtain ⟨hdst, -⟩ := guestStep_spec h
  intro htold
  rw [hdst]
  exact fresh_guestStep h (hgood htold)

/-- The guest overtakes what is on the wire only where it leaves a note. -/
theorem owes_guestStep (h : guestStep op w = some w') (howes : Owes t w a) :
    Owes t w' a ∨ w'.Good told a := by
  rcases howes with htodo | hwire
  · exact .inl (.inl htodo)
  · obtain ⟨-, -, -, -, hsrc⟩ := guestStep_spec h
    rcases hsrc a with heq | hnoted
    · left
      rw [Owes, heq]
      exact .inr hwire
    · exact .inr fun _ => .inr hnoted

/-- The memory of the guest as the threads deliver it. -/
def delivery (told : Nat → Prop) : Delivery memoryJobs Nat where
  asks := fun table a => a ∈ remaining table 0
  owes := Owes
  sound := InStep
  good := World.Good told
  start_owes := fun _ _ _ h => .inl h
  start_sound := inStep_start
  step_owes := fun _ _ _ _ _ _ h ht howes => owes_transferStep h ht howes
  step_sound := fun _ _ _ _ _ h ht => inStep_transferStep h ht
  step_good := fun _ _ _ _ _ _ h ht hgood => good_transferStep h ht hgood
  finished_good := fun _ _ a hdone ht howes => absurd howes (not_owes_of_answered ht hdone a)
  other_owes := by
    intro l j w j' w' i a h howes
    left
    rw [Owes, (transferStep_world h).1]
    exact howes
  other_sound := fun _ _ _ _ _ _ h hi => inStep_of_fresh hi fun _ _ => fresh_transferStep h
  env_owes := fun _ _ _ _ _ h howes => owes_guestStep h howes
  env_sound := fun _ _ _ _ h hj => inStep_of_fresh hj fun _ _ => fresh_guestStep h
  env_good := fun _ _ _ _ h hgood => good_guestStep h hgood

/-! ## A transfer that comes to its end -/

/-- Each range is sent and stored as a whole. -/
theorem transfer_sends (table : MemoryRangeTable) (w : World)
    (hram : ∀ a ∈ remaining table 0, (w.logs.mappingOf a).isSome) :
    ∃ w', w'.logs = w.logs
      ∧ Reachable memoryJobs.machine (Transfer.start table, w) (Transfer.start [], w') := by
  induction table generalizing w with
  | nil => exact ⟨w, rfl, .refl _⟩
  | cons r rs ih =>
    have hadvance : advance w.logs.toManagers (r :: rs) 0 r.length = some (r.gpa, rs, 0) := by
      rw [advance, if_pos ⟨Nat.le_refl _, fun a ha => hram a (mem_append_left _ ha)⟩,
        if_pos (Nat.zero_add _)]
      rfl
    have hlength : ((List.range' r.gpa r.length).map w.src).length = r.length := by simp
    obtain ⟨w', hlogs, hrest⟩ := ih { w with
      dst := storeBytes w.dst r.gpa (((List.range' r.gpa r.length).map w.src).take r.length) }
      fun a ha => hram a (mem_append_right _ ha)
    rw [Transfer.start, ← drop_of_length_le (Nat.le_of_eq hlength)] at hrest
    refine ⟨w', hlogs, .head (l := .send r.length) (congrArg (Option.map _) hadvance) ?_⟩
    refine .head (l := .store r.length) ?_ hrest
    exact (if_pos (Nat.le_of_eq hlength.symm)).trans (congrArg (Option.map _) hadvance)

/-- A transfer of guest memory can be finished. -/
theorem transfer_finishes {table : MemoryRangeTable}
    (hram : ∀ a ∈ remaining table 0, (logs.mappingOf a).isSome) :
    memoryJobs.Finishes (fun w => w.logs = logs) table := by
  intro w hw
  obtain ⟨w', hlogs, hsent⟩ := transfer_sends table w (hw ▸ hram)
  exact ⟨_, hsent.trans (.single (l := .answer) rfl), rfl, hlogs.trans hw⟩

/-- **`cleanup` CAN HANG**: with two threads or more, and more chunks of guest RAM than the
    channel and one thread hold, there is a run of one `send_memory` in which a thread fails,
    every `Disconnect` is lost, and the main thread joins a thread that waits for a message on
    an empty channel.  From there on only the guest goes on. -/
theorem cleanup_can_hang {n : Nat} (hn : 2 ≤ n) (w : World) (chunks : List MemoryRangeTable)
    (hram : ∀ c ∈ chunks, ∀ a, 0 < reported c a → (w.logs.mappingOf a).isSome)
    (hchunks : 64 * n + 2 ≤ chunks.length) :
    ∃ s, Reachable (step memoryJobs) (start n w) s ∧ s.asked = chunks ∧ s.dropped = n ∧ Hung s
      ∧ ∀ s', Reachable (step memoryJobs) s s' → s' = { s with world := s'.world } := by
  obtain ⟨s, hreach, hung, hasked, hdropped⟩ := hung_reachable hn
    (A := fun v : World => v.logs = w.logs) rfl chunks
    (fun c hc => transfer_finishes fun a ha => hram c hc a ((mem_remaining_iff c a).mp ha)) hchunks
  exact ⟨s, hreach, hasked, hdropped, hung, fun _ => hung.run⟩

/-- One page of RAM. -/
def idleGuest : World where
  src := fun _ => 7
  dst := fun _ => 0
  logs := {
    mm := ⟨[⟨0, 4096, 0⟩], [⟨0, 4096⟩], fun _ => [0], fun _ => [0]⟩
    dm := ⟨[], fun _ => []⟩
    mapped := ⟨by decide, pairwise_singleton _ _, pairwise_singleton _ _, fun _ _ => rfl⟩
    sized := by decide
    shared := by decide }
  pending := []
  paused := false

theorem idleGuest_hangs :
    ∃ s, Reachable (step memoryJobs) (start 2 idleGuest) s
      ∧ s.asked = List.replicate 130 [⟨0, 4096⟩] ∧ s.dropped = 2 ∧ Hung s
      ∧ ∀ s', Reachable (step memoryJobs) s s' → s' = { s with world := s'.world } := by
  refine cleanup_can_hang (Nat.le_refl 2) idleGuest _ (fun c hc a ha => ?_)
    (Nat.le_of_eq length_replicate.symm)
  rw [eq_of_mem_replicate hc, ← mem_remaining_iff, remaining, remaining, append_nil,
    List.mem_range'_1] at ha
  rw [Managers.mappingOf, find?_isSome]
  exact ⟨_, mem_cons_self, decide_eq_true ha⟩

end MemoryTransfer
