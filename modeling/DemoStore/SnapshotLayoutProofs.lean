import DemoStore.LazyRestoreProofs

/-! # The layout of the snapshot file

    `MemoryManager::send` writes the ranges one after the other, with as many calls
    as the short counts need.  Two readers compute positions in that file in their
    own way: `fill_saved_regions` reads on from where it stopped, and
    `restore_by_uffd` adds up lengths and lets `TemplateRestoreBackend::new` count
    pages.

    All three agree: the file is the concatenation of the ranges, range `n` starts
    at the sum of the lengths before it, and both readers find every page there. -/

namespace SnapshotLayout

open GuestMemory RestoreRange LazyRestore ShortTransfer List

/-! ## Writing -/

/-- `n` bytes of guest memory from `gpa` on. -/
def bytesFrom (guest : Nat → UInt8) (gpa n : Nat) : List UInt8 :=
  (List.range n).map fun j => guest (gpa + j)

/-- `write_volatile_to` a file whose position is its end. -/
def writeVolatileTo (guest : Nat → UInt8) (gpa n : Nat) (file : List UInt8) : List UInt8 :=
  file ++ bytesFrom guest gpa n

/-- The loop of `send` on one range; `counts` has what the calls return. -/
def sendRange (guest : Nat → UInt8) (g : SavedRegion) (counts : List Nat)
    (file : List UInt8) : Option (List Nat × List UInt8) :=
  transfer (fun offset n => writeVolatileTo guest (g.gpa + offset) n) g.length counts 0 file

/-- All ranges, in the order of the table. -/
def sendRanges (guest : Nat → UInt8) :
    List SavedRegion → List Nat → List UInt8 → Option (List UInt8)
  | [], _, file => some file
  | g :: gs, counts, file =>
    (sendRange guest g counts file).bind fun p => sendRanges guest gs p.1 p.2

/-- `MemoryManager::send`: without ranges no file is created.  `none` if the calls do
    not complete a range. -/
def send (guest : Nat → UInt8) (regions : List SavedRegion) (counts : List Nat) :
    Option (Option (List UInt8)) :=
  if regions.isEmpty then some none else (sendRanges guest regions counts []).map some

/-- `fill_saved_regions` addresses guest memory by `gpa`. -/
def atGpa (g : SavedRegion) : SavedRegion := { g with hostAddr := g.gpa }

/-! ## Ranges -/

/-- The guest addresses do not overlap. -/
def GpaApart (g h : SavedRegion) : Prop :=
  g.gpa + g.length ≤ h.gpa ∨ h.gpa + h.length ≤ g.gpa

/-- The ranges of a snapshot, in any order, with where and in which page size they are
    restored. -/
structure MemoryRangeTable (basePageSize : Nat) where
  regions : List SavedRegion
  aligned : ∀ g ∈ regions, g.gpa % basePageSize = 0 ∧ g.length % basePageSize = 0
  disjoint : regions.Pairwise GpaApart
  paged : ∀ g ∈ regions, 0 < g.backingPageSize ∧ g.backingPageSize ∣ g.length
    ∧ g.backingPageSize ∣ g.hostAddr

/-- Positive counts, one for each byte and one more for each range. -/
def Enough (regions : List SavedRegion) (counts : List Nat) : Prop :=
  (∀ c ∈ counts, 0 < c) ∧ (regions.map fun g => g.length + 1).sum ≤ counts.length

/-- Where range `n` starts in the file. -/
def regionStart (regions : List SavedRegion) (n : Nat) : Nat :=
  ((regions.take n).map SavedRegion.length).sum

/-- What the file should hold. -/
def fileImage (guest : Nat → UInt8) (regions : List SavedRegion) : List UInt8 :=
  regions.flatMap fun g => bytesFrom guest g.gpa g.length

theorem fileImage_cons (guest : Nat → UInt8) (g : SavedRegion) (gs : List SavedRegion) :
    fileImage guest (g :: gs) = bytesFrom guest g.gpa g.length ++ fileImage guest gs := rfl

theorem regionStart_succ (g : SavedRegion) (gs : List SavedRegion) (n : Nat) :
    regionStart (g :: gs) (n + 1) = g.length + regionStart gs n := by
  rw [regionStart, take_succ_cons, map_cons, sum_cons, ← regionStart]

/-! ## The file -/

theorem length_bytesFrom (guest : Nat → UInt8) (gpa n : Nat) :
    (bytesFrom guest gpa n).length = n := by
  rw [bytesFrom, length_map, length_range]

variable {n j x k basePageSize : Nat} {g : SavedRegion} {counts reads : List Nat}
  {regions : List SavedRegion}

theorem getElem?_bytesFrom (guest : Nat → UInt8) (gpa : Nat) (hj : j < n) :
    (bytesFrom guest gpa n)[j]? = some (guest (gpa + j)) := by
  rw [bytesFrom, getElem?_map, getElem?_range hj]
  rfl

/-- Short writes add up. -/
theorem additive_write (guest : Nat → UInt8) (gpa : Nat) :
    Additive fun offset n => writeVolatileTo guest (gpa + offset) n := by
  intro offset n k file
  simp only [writeVolatileTo, bytesFrom, range_add, map_append, List.map_map,
    append_assoc, Nat.add_assoc]
  rfl

/-- One loop uses its share of the counts and leaves enough for the other ranges. -/
theorem enough_cons {A : Type} {gs : List SavedRegion} (h : Enough (g :: gs) counts)
    (f : Nat → Nat → A → A) (a : A) :
    ∃ cs b, transfer f g.length counts 0 a = some (cs, b) ∧ Enough gs cs := by
  obtain ⟨hpos, hlen⟩ := h
  rw [map_cons, sum_cons] at hlen
  obtain ⟨cs, b, hrun, hpos', hused⟩ := transfer_total f (Nat.zero_le g.length) hpos (by omega) a
  exact ⟨cs, b, hrun, hpos', by omega⟩

/-- **THE FILE IS THE CONCATENATION OF THE RANGES**, however the writes are cut. -/
theorem sendRanges_eq {guest : Nat → UInt8} (h : Enough regions counts) (file : List UInt8) :
    sendRanges guest regions counts file = some (file ++ fileImage guest regions) := by
  induction regions generalizing counts file with
  | nil => rw [sendRanges, fileImage, flatMap_nil, append_nil]
  | cons g gs ih =>
    obtain ⟨cs, b, hrun, henough⟩ :=
      enough_cons h (fun offset n => writeVolatileTo guest (g.gpa + offset) n) file
    have hzero : writeVolatileTo guest (g.gpa + 0) 0 file = file := append_nil file
    have hb := transfer_eq (additive_write guest g.gpa) (Nat.zero_le g.length) (hzero.symm ▸ hrun)
    rw [sendRanges, sendRange, hrun]
    show sendRanges guest gs cs b = _
    rw [ih henough b, hb, fileImage_cons, ← append_assoc]
    rfl

/-- The file is as long as the regions. -/
theorem length_fileImage (guest : Nat → UInt8) (regions : List SavedRegion) :
    (fileImage guest regions).length = (regions.map SavedRegion.length).sum := by
  rw [fileImage, length_flatMap]
  simp only [length_bytesFrom]

/-- Byte `x` of range `n`. -/
theorem getElem?_fileImage (guest : Nat → UInt8) (hg : regions[n]? = some g) (hx : x < g.length) :
    (fileImage guest regions)[regionStart regions n + x]? = some (guest (g.gpa + x)) := by
  induction regions generalizing n with
  | nil => cases hg
  | cons q qs ih =>
    rw [fileImage_cons]
    cases n with
    | zero =>
      obtain rfl := Option.some.inj hg
      rw [regionStart, take_zero, map_nil, sum_nil, Nat.zero_add,
        getElem?_append_left (by rw [length_bytesFrom]; exact hx)]
      exact getElem?_bytesFrom guest q.gpa hx
    | succ n =>
      rw [regionStart_succ, getElem?_append_right (by rw [length_bytesFrom]; omega),
        length_bytesFrom, Nat.add_assoc, Nat.add_sub_cancel_left]
      exact ih hg

/-! ## The readers -/

/-- Positive reads complete the eager restore. -/
theorem fillSavedRegions_total (file : Nat → UInt8) (h : Enough regions reads) (pos : Nat)
    (mem : Nat → UInt8) : ∃ eager, fillSavedRegions file regions reads pos mem = some eager := by
  induction regions generalizing reads pos mem with
  | nil => exact ⟨mem, rfl⟩
  | cons g gs ih =>
    obtain ⟨cs, ⟨pos', mem'⟩, hrun, henough⟩ := enough_cons h (readOn file g) (pos, mem)
    obtain ⟨eager, heager⟩ := ih henough pos' mem'
    refine ⟨eager, ?_⟩
    rw [fillSavedRegions, fillRegion, hrun]
    exact heager

/-- Each range starts where the one before it ends. -/
theorem getElem?_handlerRanges (hg : regions[n]? = some g) (offset : Nat) :
    (handlerRanges offset regions)[n]?
      = some (.new g.hostAddr g.length (offset + regionStart regions n) g.backingPageSize) := by
  induction regions generalizing n offset with
  | nil => cases hg
  | cons q qs ih =>
    cases n with
    | zero => cases hg; rfl
    | succ n =>
      rw [regionStart_succ, ← Nat.add_assoc]
      exact ih hg (offset + q.length)

theorem getElem?_assignIndices {rs : List TemplateRange} {q : TemplateRange}
    (hq : rs[n]? = some q) (first : Nat) :
    ∃ i, (assignIndices first rs)[n]? = some { q with firstPageIndex := i } := by
  induction rs generalizing n first with
  | nil => cases hq
  | cons p ps ih =>
    cases n with
    | zero => cases hq; exact ⟨first, rfl⟩
    | succ n => exact ih hq (first + p.pageCount)

/-- Each range is a region. -/
theorem mem_handlerRanges {offset : Nat} {r : TemplateRange}
    (h : r ∈ handlerRanges offset regions) :
    ∃ g ∈ regions, r.hostAddr = g.hostAddr ∧ r.length = g.length := by
  induction regions generalizing offset with
  | nil => cases h
  | cons g gs ih =>
    rcases mem_cons.mp h with rfl | h
    · exact ⟨g, mem_cons_self, rfl, rfl⟩
    · obtain ⟨q, hq, hr⟩ := ih h
      exact ⟨q, mem_cons_of_mem g hq, hr⟩

theorem apart_atGpa (h : regions.Pairwise GpaApart) (offset : Nat) :
    (handlerRanges offset (regions.map atGpa)).Pairwise TemplateRange.Apart := by
  induction regions generalizing offset with
  | nil => exact List.Pairwise.nil
  | cons g gs ih =>
    obtain ⟨hg, hgs⟩ := pairwise_cons.mp h
    refine pairwise_cons.mpr ⟨fun r hr => ?_, ih hgs _⟩
    obtain ⟨_, hmem, haddr, hlen⟩ := mem_handlerRanges hr
    obtain ⟨q, hq, rfl⟩ := List.mem_map.mp hmem
    have hapart := hg q hq
    rw [TemplateRange.Apart, haddr, hlen]
    exact hapart

/-- The offsets of all pages increase: each range has its own part of the file. -/
theorem offsets_increase (hpos : ∀ g ∈ regions, 0 < g.backingPageSize) (offset : Nat) :
    ((handlerRanges offset regions).flatMap TemplateRange.offsets).Pairwise (· < ·)
      ∧ ∀ o ∈ (handlerRanges offset regions).flatMap TemplateRange.offsets, offset ≤ o := by
  induction regions generalizing offset with
  | nil => exact ⟨List.Pairwise.nil, fun o ho => by cases ho⟩
  | cons g gs ih =>
    obtain ⟨hinc, hlow⟩ := ih (fun q hq => hpos q (mem_cons_of_mem g hq)) (offset + g.length)
    have hsize := hpos g mem_cons_self
    rw [handlerRanges, flatMap_cons]
    generalize hhead : (TemplateRange.new g.hostAddr g.length offset
      g.backingPageSize).offsets = head
    have hmem : ∀ o ∈ head, ∃ k, k * g.backingPageSize < g.length
        ∧ o = offset + k * g.backingPageSize := by
      intro o ho
      rw [← hhead] at ho
      obtain ⟨k, hk, rfl⟩ := List.mem_map.mp ho
      exact ⟨k, (lt_divCeil hsize).mp (mem_range.mp hk), rfl⟩
    refine ⟨pairwise_append.mpr ⟨?_, hinc, ?_⟩, ?_⟩
    · rw [← hhead, TemplateRange.offsets, pairwise_map]
      refine pairwise_lt_range.imp fun hlt => ?_
      exact Nat.add_lt_add_left ((Nat.mul_lt_mul_right hsize).mpr hlt) _
    · intro o ho o' ho'
      obtain ⟨k, hk, rfl⟩ := hmem o ho
      have := hlow o' ho'
      omega
    · intro o ho
      rcases mem_append.mp ho with ho | ho
      · obtain ⟨k, -, rfl⟩ := hmem o ho
        exact Nat.le_add_right _ _
      · have := hlow o ho
        omega

/-! ## The result -/

/-- Page `k` of a range lies in the range. -/
theorem page_in_region (hpos : 0 < g.backingPageSize) (hdvd : g.backingPageSize ∣ g.length)
    (hk : k < divCeil g.length g.backingPageSize) (hj : j < g.backingPageSize) :
    k * g.backingPageSize + j < g.length := by
  obtain ⟨m, hm⟩ := hdvd
  rw [Nat.mul_comm] at hm
  rw [hm, divCeil_mul hpos] at hk
  have hle : (k + 1) * g.backingPageSize ≤ m * g.backingPageSize := Nat.mul_le_mul_right _ hk
  rw [Nat.succ_mul] at hle
  omega

/-- Reading a page of the file at its place in the range. -/
theorem read_page (guest : Nat → UInt8) {size : Nat} (hg : regions[n]? = some g)
    (hin : ∀ j < size, k * size + j < g.length) :
    ((fileImage guest regions).drop (regionStart regions n + k * size)).take size
      = bytesFrom guest (g.gpa + k * size) size := by
  apply ext_getElem?
  intro j
  rw [getElem?_take]
  by_cases hj : j < size
  · rw [if_pos hj, getElem?_drop, Nat.add_assoc,
      getElem?_fileImage guest hg (hin j hj), getElem?_bytesFrom guest _ hj, Nat.add_assoc]
  · rw [if_neg hj, getElem?_eq_none]
    rw [length_bytesFrom]
    omega

/-- The ranges of the handler are those of the table. -/
theorem restoreRanges_eq (t : MemoryRangeTable basePageSize) :
    restoreRanges basePageSize t.regions = some (handlerRanges 0 t.regions) := by
  rw [restoreRanges, if_neg]
  rw [List.any_eq_true]
  rintro ⟨g, hg, hbad⟩
  obtain ⟨hgpa, hlen⟩ := t.aligned g hg
  simp [hgpa, hlen] at hbad

/-- Eager restore puts byte `x` of range `n` at its guest address. -/
theorem eager_byte (t : MemoryRangeTable basePageSize) {file : Nat → UInt8}
    {mem eager : Nat → UInt8}
    (h : fillSavedRegions file (t.regions.map atGpa) reads 0 mem = some eager)
    (hg : t.regions[n]? = some g) (hx : x < g.length) :
    eager (g.gpa + x) = file (regionStart t.regions n + x) := by
  have hget : (t.regions.map atGpa)[n]? = some (atGpa g) := by rw [getElem?_map, hg]; rfl
  have hr := mem_of_getElem? (getElem?_handlerRanges hget 0)
  have hstart : regionStart (t.regions.map atGpa) n = regionStart t.regions n := by
    rw [regionStart, ← map_take, List.map_map]
    rfl
  have hspec := (fillSavedRegions_spec (apart_atGpa t.disjoint 0) h (g.gpa + x)).1 _ hr
    ⟨Nat.le_add_right _ _, Nat.add_lt_add_left hx _⟩
  rw [hspec, hstart]
  show file (0 + regionStart t.regions n + (g.gpa + x - g.gpa)) = _
  rw [Nat.zero_add, Nat.add_sub_cancel_left]

/-- Every page of range `r` of the backend is, in the file and after eager restore, what
    the guest had in the region `g`. -/
def PagesAgree (guest eager : Nat → UInt8) (file : List UInt8) (b : TemplateRestoreBackend)
    (g : SavedRegion) (r : TemplateRange) : Prop :=
  ∀ k < r.pageCount, ∃ offset, b.pages[r.firstPageIndex + k]? = some offset
    ∧ (file.drop offset).take r.pageSize = bytesFrom guest (g.gpa + k * r.pageSize) r.pageSize
    ∧ ∀ j < r.pageSize, eager (g.gpa + k * r.pageSize + j) = guest (g.gpa + k * r.pageSize + j)

theorem enough_atGpa (h : Enough regions counts) : Enough (regions.map atGpa) counts := by
  refine ⟨h.1, ?_⟩
  rw [List.map_map]
  exact h.2

/-- **BOTH READERS FIND WHAT WAS WRITTEN.**  For every table of disjoint aligned ranges,
    every guest memory and all ways to cut the transfers, `send` completes a file that
    has every page at the offset the backend computes for it, eager restore completes
    and puts the same bytes there, and no two pages have the same offset. -/
theorem snapshot_read_back {basePageSize : Nat} (t : MemoryRangeTable basePageSize)
    (hne : t.regions ≠ []) (guest mem : Nat → UInt8) (writes reads : List Nat)
    (hwrites : Enough t.regions writes) (hreads : Enough t.regions reads) :
    ∃ file ranges eager, send guest t.regions writes = some (some file)
      ∧ restoreRanges basePageSize t.regions = some ranges
      ∧ fillSavedRegions (fun i => file.getD i 0) (t.regions.map atGpa) reads 0 mem = some eager
      ∧ file.length = (t.regions.map SavedRegion.length).sum
      ∧ (TemplateRestoreBackend.new ranges).pages.Nodup
      ∧ ∀ (n : Nat) (g : SavedRegion), t.regions[n]? = some g →
          ∃ r, (TemplateRestoreBackend.new ranges).ranges[n]? = some r
            ∧ r.pageCount * r.pageSize = g.length
            ∧ PagesAgree guest eager file (.new ranges) g r := by
  obtain ⟨eager, heager⟩ := fillSavedRegions_total
    (fun i => (fileImage guest t.regions).getD i 0) (enough_atGpa hreads) 0 mem
  refine ⟨fileImage guest t.regions, handlerRanges 0 t.regions, eager, ?_,
    restoreRanges_eq t, heager, length_fileImage guest t.regions, ?_, fun n g hg => ?_⟩
  · rw [send, if_neg (by simpa using hne), sendRanges_eq hwrites, nil_append]
    rfl
  · exact (offsets_increase (fun g hg => (t.paged g hg).1) 0).1.imp Nat.ne_of_lt
  · obtain ⟨hpos, hdvd, -⟩ := t.paged g (mem_of_getElem? hg)
    obtain ⟨i, hr⟩ := getElem?_assignIndices (getElem?_handlerRanges hg 0) 0
    refine ⟨_, hr, ?_, fun k hk => ?_⟩
    · obtain ⟨m, hm⟩ := hdvd
      rw [Nat.mul_comm] at hm
      show divCeil g.length g.backingPageSize * g.backingPageSize = g.length
      rw [hm, divCeil_mul hpos]
    · have hin : ∀ j < g.backingPageSize, k * g.backingPageSize + j < g.length :=
        fun j hj => page_in_region hpos hdvd hk hj
      have hoffset := getElem?_offsets (mem_of_getElem? hr) hk
      rw [Nat.sub_zero] at hoffset
      refine ⟨_, hoffset, ?_, fun j hj => ?_⟩
      · show ((fileImage guest t.regions).drop (0 + regionStart t.regions n
          + k * g.backingPageSize)).take g.backingPageSize = _
        rw [Nat.zero_add]
        exact read_page guest hg hin
      · show eager (g.gpa + k * g.backingPageSize + j) = _
        rw [Nat.add_assoc, eager_byte t heager hg (hin j hj), getD_eq_getElem?_getD,
          getElem?_fileImage guest hg (hin j hj), Nat.add_assoc]
        rfl

/-! ## Two ranges, the higher one first -/

/-- Two ranges, the higher one first. -/
def twoRanges : MemoryRangeTable 4 where
  regions := [⟨8, 8, 64, 4⟩, ⟨0, 4, 128, 4⟩]
  aligned := by decide
  disjoint := by
    refine pairwise_cons.mpr ⟨fun g hg => ?_, pairwise_singleton _ _⟩
    obtain rfl := mem_singleton.mp hg
    exact .inr (by decide)
  paged := by decide

/-- Every call transfers at most three bytes. -/
theorem twoRanges_read_back :
    ∃ file, send (fun a => UInt8.ofNat a) twoRanges.regions (List.replicate 14 3)
        = some (some file) ∧ file.length = 12 := by
  obtain ⟨file, _, _, hsend, -, -, hlen, -⟩ := snapshot_read_back twoRanges (by decide)
    (fun a => UInt8.ofNat a) (fun _ => 0) (List.replicate 14 3) (List.replicate 14 3)
    ⟨by decide, by decide⟩ ⟨by decide, by decide⟩
  exact ⟨file, hsend, hlen⟩

end SnapshotLayout
