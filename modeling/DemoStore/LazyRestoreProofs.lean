import DemoStore.RestoreMemoryProofs
import DemoStore.ShortTransferProofs

/-! # Lazy restore against eager restore

    `fill_saved_regions` reads the whole snapshot before the guest runs;
    `restore_by_uffd` lets the handler bring in pages while it runs.  Both
    should give the vCPUs the same memory.

    They do as long as no vCPU touches a chunk while the handler replaces it.
    From the copy into `snapshot` to the copy back a write to the chunk is
    lost: `writeprotect_dontwake` has already let it through and the copy back
    overwrites it.  Between `mmap` and the copy back a read finds zeros. -/

namespace LazyRestore

open GuestMemory RestoreRange RestoreHandler RestoreHost RestoreMemory MachineRun ShortTransfer List

/-! ## Eager restore -/

/-- `read_volatile_from`: `n` bytes of the file, from the position `pos` on. -/
def readVolatileFrom (file : Nat → UInt8) (addr pos n : Nat) (mem : Nat → UInt8) :
    Nat → UInt8 :=
  fun a => if Within addr n a then file (pos + (a - addr)) else mem a

/-- One read of the loop of `fill_saved_regions`, on the file position and the memory. -/
def readOn (file : Nat → UInt8) (g : SavedRegion) (offset n : Nat) (p : Nat × (Nat → UInt8)) :
    Nat × (Nat → UInt8) :=
  (p.1 + n, readVolatileFrom file (g.hostAddr + offset) p.1 n p.2)

/-- The loop of `fill_saved_regions` on one region; `reads` has the bytes that the
    calls return.  The result has the file position after the region. -/
def fillRegion (file : Nat → UInt8) (g : SavedRegion) (reads : List Nat) (pos : Nat)
    (mem : Nat → UInt8) : Option (List Nat × Nat × (Nat → UInt8)) :=
  transfer (readOn file g) g.length reads 0 (pos, mem)

/-- `none` if the region is not complete after the given reads. -/
def fillSavedRegions (file : Nat → UInt8) :
    List SavedRegion → List Nat → Nat → (Nat → UInt8) → Option (Nat → UInt8)
  | [], _, _, mem => some mem
  | g :: gs, reads, pos, mem =>
    (fillRegion file g reads pos mem).bind fun p =>
      fillSavedRegions file gs p.1 p.2.1 p.2.2

variable {regions : List SavedRegion} {eager : Nat → UInt8} {R : ByteRule} {s : RestoreState}
  {l : RestoreLabel}

section Eager

variable {file : Nat → UInt8} {g : SavedRegion} {reads reads' : List Nat}
  {pos pos' : Nat} {mem mem' : Nat → UInt8}

/-- Two reads in a row are one longer read. -/
theorem readVolatileFrom_append (addr n k : Nat) :
    readVolatileFrom file (addr + n) (pos + n) k (readVolatileFrom file addr pos n mem)
      = readVolatileFrom file addr pos (n + k) mem := by
  funext a
  simp only [readVolatileFrom]
  by_cases hsnd : Within (addr + n) k a
  · -- both read the file at the distance of `a` from `addr`
    have hall : Within addr (n + k) a := by
      obtain ⟨hlo, hhi⟩ := hsnd
      exact ⟨by omega, by omega⟩
    have hlo := hsnd.1
    rw [if_pos hsnd, if_pos hall, show pos + n + (a - (addr + n)) = pos + (a - addr) by omega]
  · rw [if_neg hsnd]
    have hiff : Within addr n a ↔ Within addr (n + k) a := by
      simp only [Within] at hsnd ⊢
      omega
    by_cases hfst : Within addr n a
    · rw [if_pos hfst, if_pos (hiff.mp hfst)]
    · rw [if_neg hfst, if_neg (mt hiff.mpr hfst)]

theorem additive_readOn : Additive (readOn file g) := by
  intro offset n k p
  refine Prod.ext (Nat.add_assoc ..) ?_
  show readVolatileFrom file (g.hostAddr + (offset + n)) (p.1 + n) k _ = _
  rw [← Nat.add_assoc]
  exact readVolatileFrom_append ..

/-- However the reads are cut, the region ends up as one read of its length. -/
theorem fillRegion_spec (h : fillRegion file g reads pos mem = some (reads', pos', mem')) :
    pos' = pos + g.length ∧ mem' = readVolatileFrom file g.hostAddr pos g.length mem := by
  have hzero : readOn file g 0 0 (pos, mem) = (pos, mem) := by
    refine Prod.ext rfl (funext fun x => if_neg fun hx => absurd hx.2 ?_)
    have hlo := hx.1
    omega
  rw [fillRegion, ← hzero] at h
  exact Prod.mk.inj (transfer_eq additive_readOn (Nat.zero_le g.length) h)

/-- Eager restore puts every byte of the file where the range table says. -/
theorem fillSavedRegions_spec (hpair : (handlerRanges pos regions).Pairwise TemplateRange.Apart)
    (h : fillSavedRegions file regions reads pos mem = some mem') (a : Nat) :
    (∀ r ∈ handlerRanges pos regions, r.Contains a →
        mem' a = file (r.fileOffset + (a - r.hostAddr)))
      ∧ ((∀ r ∈ handlerRanges pos regions, ¬ r.Contains a) → mem' a = mem a) := by
  induction regions generalizing reads pos mem with
  | nil =>
    cases h
    exact ⟨(fun r hr => by cases hr), fun _ => rfl⟩
  | cons g gs ih =>
    rw [fillSavedRegions] at h
    cases hg : fillRegion file g reads pos mem with
    | none => rw [hg] at h; cases h
    | some p =>
      obtain ⟨reads', pos', mem₁⟩ := p
      obtain ⟨rfl, rfl⟩ := fillRegion_spec hg
      rw [hg] at h
      obtain ⟨hhead, htail⟩ := pairwise_cons.mp hpair
      obtain ⟨hin, hout⟩ := ih htail h
      rw [handlerRanges]
      refine ⟨fun r hr hra => ?_, fun hno => ?_⟩
      · rcases mem_cons.mp hr with rfl | hr
        · -- no later region touches what this one has filled
          rw [hout fun q hq hqa => ?_]
          · exact if_pos hra
          · obtain ⟨hlo, hhi⟩ := hra
            obtain ⟨hlo', hhi'⟩ := hqa
            rcases hhead q hq with hap | hap <;> omega
        · exact hin r hr hra
      · rw [hout fun q hq => hno q (mem_cons_of_mem _ hq)]
        exact if_neg (hno _ mem_cons_self)

end Eager

variable {t : RangeTable} {basePageSize : Nat} {file : Nat → UInt8}

theorem eager_eq_image {reads : List Nat} {mem : Nat → UInt8}
    (ht : restoreRanges basePageSize regions = some t.ranges)
    (h : fillSavedRegions file regions reads 0 mem = some eager) {a : Nat}
    (ha : Registered t.backend a) : eager a = t.image file a := by
  have hranges : t.ranges = handlerRanges 0 regions := by
    rw [restoreRanges] at ht
    split at ht
    · cases ht
    · exact (Option.some.inj ht).symm
  obtain ⟨r, hr, hra⟩ := ha
  rw [RangeTable.image_of_contains hr hra]
  obtain ⟨-, q, hq, hreq⟩ := mem_assignIndices hr
  rw [hreq] at hra ⊢
  exact (fillSavedRegions_spec (hranges ▸ t.disjoint) h a).1 q (hranges ▸ hq) hra

/-! ## The vCPUs' view -/

/-- A read that takes effect returns the byte last written at its address, or else
    the byte eager restore has put there. -/
def ReadsMatch (b : TemplateRestoreBackend) (eager : Nat → UInt8) (s : RestoreState)
    (l : RestoreLabel) (_ : RestoreState) : Prop :=
  match performed b s l with
  | some (.read a) => s.memory.bytes a = (s.memory.writes a).headD (eager a)
  | _ => True

instance (b : TemplateRestoreBackend) (eager : Nat → UInt8) (s : RestoreState)
    (l : RestoreLabel) (s' : RestoreState) : Decidable (ReadsMatch b eager s l s') :=
  match h : performed b s l with
  | some (.read a) =>
    decidable_of_iff (s.memory.bytes a = (s.memory.writes a).headD (eager a))
      (by rw [ReadsMatch, h])
  | some (.write _ _) => isTrue (by rw [ReadsMatch, h]; trivial)
  | none => isTrue (by rw [ReadsMatch, h]; trivial)

/-- An access stays clear of the chunk being replaced: no write from the copy into
    `snapshot` to the copy back, no read between `mmap` and the copy back. -/
def ClearOf (pc : HandlerPc) : Access → Prop
  | .read a => ¬ Covers pc.hole a
  | .write a _ => ¬ Covers pc.window a

instance (pc : HandlerPc) : ∀ acc, Decidable (ClearOf pc acc)
  | .read a => inferInstanceAs (Decidable (¬ Covers pc.hole a))
  | .write a _ => inferInstanceAs (Decidable (¬ Covers pc.window a))

/-- Nothing fails, and every access that takes effect stays clear of the chunk. -/
def KeepsClear (b : TemplateRestoreBackend) (s : RestoreState) (l : RestoreLabel)
    (_ : RestoreState) : Prop :=
  l.fails = false ∧ ∀ acc ∈ performed b s l, ClearOf s.pc acc

instance (b : TemplateRestoreBackend) (s : RestoreState) (l : RestoreLabel)
    (s' : RestoreState) : Decidable (KeepsClear b s l s') :=
  inferInstanceAs (Decidable (_ ∧ _))

theorem registered_of_performed (h : Sound R t file s) {acc : Access}
    (hp : performed t.backend s l = some acc) : Registered t.backend acc.addr := by
  obtain ⟨⟨i, ha⟩, -⟩ := performed_eq_some hp
  exact registered_of_attempt h ha

/-- Without an error the handler never exits. -/
theorem pc_ne_exited {s' : RestoreState} (h : Sound R t file s) (hne : s.pc ≠ .exited)
    (hl : l.fails = false) (hs : restore t file basePageSize s l = some s') : s'.pc ≠ .exited := by
  rcases restoreStep_cases hs with ⟨event, out, rfl, hhandler⟩ | ⟨rfl, hvmm⟩
    | ⟨-, -, i, acc, -, rfl⟩
  · refine move_live h hne (move_of_handlerStep hhandler) ?_
    rintro rfl
    cases hl
  · obtain ⟨phase, rfl⟩ := vmmStep_frame hvmm
    exact hne
  · rw [access]
    split
    · exact hne
    · exact hne

theorem readsMatch_step (heager : ∀ a, Registered t.backend a → eager a = t.image file a)
    (s : RestoreState) (l : RestoreLabel) (s' : RestoreState)
    (h : Sound latest t file s ∧ s.pc ≠ .exited) (hs : restore t file basePageSize s l = some s')
    (hclear : KeepsClear t.backend s l s') :
    (Sound latest t file s' ∧ s'.pc ≠ .exited) ∧ ReadsMatch t.backend eager s l s' := by
  obtain ⟨hsound, hne⟩ := h
  obtain ⟨hfail, haccess⟩ := hclear
  refine ⟨⟨restore_sound hsound hs fun acc hacc => ?_, pc_ne_exited hsound hne hfail hs⟩, ?_⟩
  · -- the guard keeps writes out of the window, where `latest` would not survive
    cases acc with
    | read a => trivial
    | write a b => exact fun hwin => absurd hwin (haccess _ hacc)
  · rw [ReadsMatch]
    split
    · rename_i a hread
      have hgood := read_good hsound hread (haccess _ hread)
      rw [Memory.base, hsound.live hne a] at hgood
      rw [heager a (registered_of_performed hsound hread)]
      exact hgood
    · trivial

/-- **LAZY IS EAGER.**  In every run in which nothing fails and no vCPU touches a
    chunk while it is replaced, each read returns the byte last written at its
    address, or else the byte that eager restore puts there. -/
theorem lazy_restore_matches_eager (t : RangeTable) (basePageSize : Nat)
    (regions : List SavedRegion)
    (ht : restoreRanges basePageSize regions = some t.ranges)
    (file : Nat → UInt8) (reads : List Nat) (mem eager : Nat → UInt8)
    (heager : fillSavedRegions file regions reads 0 mem = some eager)
    (vcpus : Nat) (ls : List RestoreLabel)
    (hclear : Moves (restore t file basePageSize) (KeepsClear t.backend) (start vcpus) ls) :
    Moves (restore t file basePageSize) (ReadsMatch t.backend eager) (start vcpus) ls :=
  moves_of_inv (readsMatch_step fun _ ha => eager_eq_image ht heager ha) ls (start vcpus)
    ⟨sound_start vcpus, by simp [start]⟩ hclear

/-! ## One page, two vCPUs -/

/-- A region of one page. -/
def onePage : SavedRegion where
  gpa := 0
  length := 4096
  hostAddr := 65536
  backingPageSize := 4096

/-- Its table. -/
def onePageTable : RangeTable where
  ranges := handlerRanges 0 [onePage]
  aligned r hr := by
    obtain rfl := mem_singleton.mp hr
    exact ⟨⟨12, by decide, by decide⟩, by decide, by decide, by decide⟩
  disjoint := pairwise_singleton _ _

/-- Its file. -/
def onePageFile : Nat → UInt8 := fun offset => if offset = 8 then 7 else 0

/-- Start, then vCPU 0 writes: the page is loaded, and the handler is about to place
    the anonymous mapping over the chunk. -/
def untilRemap : List RestoreLabel :=
  [.handler 0 .ok, .vmm, .vmm, .vcpu 0 (.write 65536 1)]
    ++ List.replicate 5 (.handler 0 .ok) ++ [.retry 0] ++ List.replicate 6 (.handler 0 .ok)

/-- The chunk is completed, then both vCPUs go on. -/
def throughCopyBack : List RestoreLabel :=
  untilRemap ++ List.replicate 5 (.handler 0 .ok)
    ++ [.retry 0, .vcpu 1 (.read 65536), .vcpu 1 (.read 65544)]

/-- The whole run can be taken, and the guest sees what eager restore gives it. -/
theorem one_page_matches_eager :
    (exec (restore onePageTable onePageFile 4096) (start 2) throughCopyBack).isSome = true
      ∧ Moves (restore onePageTable onePageFile 4096)
        (ReadsMatch onePageTable.backend
          (readVolatileFrom onePageFile 65536 0 4096 fun _ => 0)) (start 2)
        throughCopyBack :=
  ⟨by decide +kernel,
    lazy_restore_matches_eager onePageTable 4096 [onePage] rfl onePageFile [4096]
      (fun _ => 0) _ rfl 2 throughCopyBack (by decide +kernel)⟩

/-- vCPU 1 writes 5 to the chunk once it is unprotected; the copy back puts the
    snapshot byte 7 over it, and vCPU 1 reads 7 where it has just written 5. -/
theorem copy_back_loses_write :
    fillSavedRegions onePageFile [onePage] [4096] 0 (fun _ => 0)
        = some (readVolatileFrom onePageFile 65536 0 4096 fun _ => 0)
      ∧ ¬ Moves (restore onePageTable onePageFile 4096)
        (ReadsMatch onePageTable.backend
          (readVolatileFrom onePageFile 65536 0 4096 fun _ => 0)) (start 2)
        (untilRemap ++ [.vcpu 1 (.write 65544 5)] ++ List.replicate 2 (.handler 0 .ok)
          ++ [.vcpu 1 (.read 65544)]) :=
  ⟨rfl, by decide +kernel⟩

end LazyRestore
