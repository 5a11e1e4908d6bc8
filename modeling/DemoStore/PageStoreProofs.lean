import DemoStore.SparseFileProofs
import DemoStore.ProbeTableProofs

/-! # The page store — `pages.bin` and `page_table.bin`

    `pages.bin` is an open-addressing table of slots, each an 8-byte header
    with the page's `hash_idx` and the page; a header of zero is a free slot.
    `page_table.bin` is a list of 16-byte entries.  This file has the formats,
    the writer's probing loop (`write_page_to_slot`), the driver's probing loop
    (in `snapshot_vma_fault`), and what both are in terms of `ProbeTable`. -/

namespace PageStore

open SparseFile ProbeTable

/-- `PAGE_SIZE`. -/
def pageSize : Nat := 4096

/-- `HEADER_SIZE`. -/
def headerSize : Nat := 8

/-- `SLOT_SIZE`. -/
def slotSize : Nat := pageSize + 8

/-- `HASH_MODULUS` of the tool, `HASH_MODULUS_DEFAULT` of the driver. -/
def hashModulus : Nat := 2 ^ 12

/-- `MAX_PROBE_COUNT` of the tool, `MAX_PROBE_COUNT_DEFAULT` of the driver. -/
def maxProbeCount : Nat := 64

instance : NeZero hashModulus := ⟨by decide⟩

/-! ## The formats -/

/-- `struct page_table_entry`. -/
structure PageTableEntry where
  vaOffset : UInt64
  hashIdx : UInt64

/-- The bytes of an entry in `page_table.bin`. -/
def PageTableEntry.toBytes (e : PageTableEntry) : List UInt8 :=
  le64 e.vaOffset ++ le64 e.hashIdx

/-- An entry read from the start of a buffer. -/
def PageTableEntry.ofBytes (bs : List UInt8) : PageTableEntry :=
  ⟨word64 (bs.take 8), word64 ((bs.drop 8).take 8)⟩

/-- The buffer of `n` entries, as the driver casts it. -/
def entriesOf (buf : List UInt8) (n : Nat) : List PageTableEntry :=
  (List.range n).map fun i => PageTableEntry.ofBytes (buf.drop (16 * i))

/-- The header of slot `i`. -/
def headerAt (f : File) (i : Nat) : UInt64 := word64 (bytes f (i * slotSize) headerSize)

/-- The page of slot `i`. -/
def dataAt (f : File) (i : Nat) : List UInt8 :=
  bytes f (i * slotSize + headerSize) pageSize

/-- The slot a search for the hash starts at. -/
def home (h : UInt64) : ZMod hashModulus := (h.toNat : ZMod hashModulus)

/-- The table of hashes a file stands for. -/
def tableOf (f : File) : Table UInt64 hashModulus :=
  fun s => if headerAt f s.val = 0 then none else some (headerAt f s.val)

/-- Files written slot by slot end at a slot boundary. -/
def WholeSlots (f : File) : Prop := slotSize ∣ f.size

/-! ## The writer's and the driver's loops -/

/-- The two `pwrite`s that fill a slot. -/
def putSlot (f : File) (i : Nat) (hashIdx : UInt64) (data : List UInt8) : File :=
  pwrite (pwrite f (i * slotSize) (le64 hashIdx)) (i * slotSize + headerSize) data

/-- The probing loop of `write_page_to_slot`: the file after it, or `none` when
    the probes are used up. -/
def writeLoop (hashIdx : UInt64) (data : List UInt8) (f : File) :
    Nat → Nat → Option File
  | 0, _ => none
  | n + 1, fileIndex =>
    let header := pread f (fileIndex * slotSize) headerSize
    if header.length < headerSize ∨ word64 header = 0 then
      some (putSlot f fileIndex hashIdx data)
    else if word64 header = hashIdx then some f
    else writeLoop hashIdx data f n ((fileIndex + 1) % hashModulus)

/-- `write_page_to_slot`: the return value and `pages.bin` afterwards.  `pages`
    is `none` while the file does not exist; `opened` says whether `open`
    succeeded. -/
def writePageToSlot (opened : Bool) (pages : Option File) (hashIdx : UInt64)
    (data : List UInt8) : Int × Option File :=
  if opened then
    let f := pages.getD SparseFile.empty
    match writeLoop hashIdx data f maxProbeCount (hashIdx.toNat % hashModulus) with
    | some f' => (0, some f')
    | none => (-1, some f)
  else (-1, pages)

/-- How the driver's search for a page ends. -/
inductive Load where
  | found (data : List UInt8)
  | headerUnreadable
  | dataUnreadable
  | notFound
  | maxProbes
  deriving DecidableEq

/-- The probing loop of `snapshot_vma_fault`, with the `file_index` it ends at.  `kread`
    is `kernel_read` on the template's pages file. -/
def probeSlot (kread : Nat → Nat → List UInt8) (modulus : Nat) (hashIdx : UInt64) :
    Nat → Nat → Nat × Load
  | 0, fileIndex => (fileIndex, .maxProbes)
  | n + 1, fileIndex =>
    let header := kread (fileIndex * slotSize) 8
    if header.length ≠ 8 then (fileIndex, .headerUnreadable)
    else if word64 header = hashIdx then
      let data := kread (fileIndex * slotSize + 8) pageSize
      (fileIndex, if data.length ≠ pageSize then .dataUnreadable else .found data)
    else if word64 header = 0 then (fileIndex, .notFound)
    else probeSlot kread modulus hashIdx n ((fileIndex + 1) % modulus)

/-- What the loop finds. -/
def probePages (kread : Nat → Nat → List UInt8) (modulus : Nat) (hashIdx : UInt64)
    (n fileIndex : Nat) : Load :=
  (probeSlot kread modulus hashIdx n fileIndex).2

/-- One probe. -/
theorem probePages_succ (kread : Nat → Nat → List UInt8) (modulus : Nat) (h : UInt64)
    (n i : Nat) :
    probePages kread modulus h (n + 1) i
      = if (kread (i * slotSize) 8).length ≠ 8 then .headerUnreadable
        else if word64 (kread (i * slotSize) 8) = h then
          if (kread (i * slotSize + 8) pageSize).length ≠ pageSize then .dataUnreadable
          else .found (kread (i * slotSize + 8) pageSize)
        else if word64 (kread (i * slotSize) 8) = 0 then .notFound
        else probePages kread modulus h n ((i + 1) % modulus) := by
  rw [probePages, probeSlot, apply_ite Prod.snd, apply_ite Prod.snd, apply_ite Prod.snd]
  rfl

/-! ## Slots -/

section Slots

variable {f : File} {i j : Nat} {h : UInt64} {data : List UInt8}

/-- A header that is cut off by the end of the file reads as free. -/
theorem headerAt_of_short (hf : WholeSlots f)
    (hshort : f.size < i * slotSize + headerSize) : headerAt f i = 0 := by
  obtain ⟨c, hc⟩ := hf
  have hle : f.size ≤ i * slotSize := by
    rw [hc] at hshort ⊢
    rw [Nat.mul_comm]
    refine Nat.mul_le_mul_right _ ?_
    by_contra hlt
    have : (i + 1) * slotSize ≤ c * slotSize := Nat.mul_le_mul_right _ (by omega)
    have h8 : headerSize ≤ slotSize := by decide
    rw [Nat.add_mul, Nat.one_mul, Nat.mul_comm c] at this
    omega
  rw [headerAt, bytes_of_size_le hle, word64, leNat_replicate_zero]
  rfl

/-- A taken slot lies inside the file. -/
theorem slot_le_size (hf : WholeSlots f) (h : headerAt f i ≠ 0) : (i + 1) * slotSize ≤ f.size := by
  by_contra hlt
  refine h (headerAt_of_short hf ?_)
  obtain ⟨c, hc⟩ := hf
  rw [hc] at hlt ⊢
  have hci : c < i + 1 := by
    by_contra hge
    refine hlt ?_
    rw [Nat.mul_comm slotSize]
    exact Nat.mul_le_mul_right _ (by omega)
  have : slotSize * c ≤ slotSize * i := Nat.mul_le_mul_left _ (by omega)
  have h8 : 0 < headerSize := by decide
  rw [Nat.mul_comm i]
  omega

/-- The header of a slot in use. -/
theorem pread_header (hf : WholeSlots f) (h : headerAt f i ≠ 0) :
    pread f (i * slotSize) headerSize = bytes f (i * slotSize) headerSize := by
  refine pread_of_le ?_
  have := slot_le_size hf h
  have h8 : headerSize ≤ slotSize := by decide
  rw [Nat.add_mul, Nat.one_mul] at this
  omega

/-- The page of a slot in use. -/
theorem pread_data (hf : WholeSlots f) (h : headerAt f i ≠ 0) :
    pread f (i * slotSize + headerSize) pageSize = dataAt f i := by
  refine pread_of_le ?_
  have := slot_le_size hf h
  have h8 : headerSize + pageSize = slotSize := by decide
  rw [Nat.add_mul, Nat.one_mul] at this
  omega

/-- The writer sees a free slot exactly where the header is zero. -/
theorem free_iff (hf : WholeSlots f) :
    ((pread f (i * slotSize) headerSize).length < headerSize
        ∨ word64 (pread f (i * slotSize) headerSize) = 0)
      ↔ headerAt f i = 0 := by
  constructor
  · rintro (hlen | hz)
    · refine headerAt_of_short hf ?_
      rw [length_pread] at hlen
      omega
    · by_contra hne
      rw [pread_header hf hne] at hz
      exact hne hz
  · intro hz
    by_cases hlen : (pread f (i * slotSize) headerSize).length < headerSize
    · exact .inl hlen
    · refine .inr ?_
      rw [length_pread] at hlen
      have h8 : 0 < headerSize := by decide
      rw [pread_of_le (by omega)]
      exact hz

/-- Slots do not overlap. -/
theorem slots_apart (hij : i ≠ j) :
    i * slotSize + slotSize ≤ j * slotSize ∨ j * slotSize + slotSize ≤ i * slotSize := by
  rcases Nat.lt_or_gt_of_ne hij with hlt | hgt
  · left
    have := Nat.mul_le_mul_right slotSize (Nat.succ_le_of_lt hlt)
    rw [Nat.succ_mul] at this
    exact this
  · right
    have := Nat.mul_le_mul_right slotSize (Nat.succ_le_of_lt hgt)
    rw [Nat.succ_mul] at this
    exact this

theorem slotSize_eq : slotSize = headerSize + pageSize := by decide

theorem headerAt_putSlot_self : headerAt (putSlot f i h data) i = h := by
  rw [headerAt, putSlot, bytes_pwrite_of_disjoint (by left; omega)]
  have := bytes_pwrite_self f (i * slotSize) (le64 h)
  rw [length_le64] at this
  rw [show headerSize = 8 from rfl, this, word64_le64]

/-- Other slots keep their headers. -/
theorem headerAt_putSlot_of_ne (hdata : data.length = pageSize) (hij : j ≠ i) :
    headerAt (putSlot f i h data) j = headerAt f j := by
  have hs := slotSize_eq
  have h8 : headerSize = 8 := rfl
  have happ := slots_apart hij
  rw [headerAt, putSlot, bytes_pwrite_of_disjoint (by omega),
    bytes_pwrite_of_disjoint (by rw [length_le64]; omega)]
  rfl

theorem dataAt_putSlot_self (hdata : data.length = pageSize) :
    dataAt (putSlot f i h data) i = data := by
  rw [dataAt, putSlot, ← hdata]
  exact bytes_pwrite_self _ _ data

/-- Other slots keep their pages. -/
theorem dataAt_putSlot_of_ne (hdata : data.length = pageSize) (hij : j ≠ i) :
    dataAt (putSlot f i h data) j = dataAt f j := by
  have hs := slotSize_eq
  have h8 : headerSize = 8 := rfl
  have happ := slots_apart hij
  rw [dataAt, putSlot, bytes_pwrite_of_disjoint (by omega),
    bytes_pwrite_of_disjoint (by rw [length_le64]; omega)]
  rfl

/-- A slot is written as a whole. -/
theorem wholeSlots_putSlot (hf : WholeSlots f) (hdata : data.length = pageSize) :
    WholeSlots (putSlot f i h data) := by
  have hs := slotSize_eq
  have h8 : headerSize = 8 := rfl
  have hp : 0 < pageSize := by decide
  have hne : data ≠ [] := by
    intro he
    rw [he] at hdata
    rw [← hdata] at hp
    exact absurd hp (by decide)
  have hne' : le64 h ≠ [] := by
    intro he
    have := length_le64 h
    rw [he] at this
    exact absurd this (by decide)
  show slotSize ∣ (pwrite _ _ _).size
  rw [pwrite_size hne, pwrite_size hne', length_le64, hdata]
  rw [show max (max f.size (i * slotSize + 8)) (i * slotSize + headerSize + pageSize)
    = max f.size ((i + 1) * slotSize) by rw [Nat.add_mul, Nat.one_mul]; omega]
  rcases le_total f.size ((i + 1) * slotSize) with hle | hle
  · rw [max_eq_right hle]; exact Dvd.intro_left _ rfl
  · rw [max_eq_left hle]; exact hf

end Slots

/-! ## The loops are searches -/

section Loops

variable {f : File} {h : UInt64} {data : List UInt8} {s : ZMod hashModulus} {i : Nat}

/-- A zero header marks a free slot. -/
theorem tableOf_eq_none : tableOf f s = none ↔ headerAt f s.val = 0 := by
  rw [tableOf]
  by_cases hz : headerAt f s.val = 0
  · rw [if_pos hz]; exact ⟨fun _ => hz, fun _ => rfl⟩
  · rw [if_neg hz]
    constructor
    · intro h
      cases h
    · exact fun h => absurd h hz

theorem tableOf_eq_some {x : UInt64} : tableOf f s = some x ↔ headerAt f s.val = x ∧ x ≠ 0 := by
  rw [tableOf]
  by_cases hz : headerAt f s.val = 0
  · rw [if_pos hz]
    constructor
    · intro h
      cases h
    · rintro ⟨rfl, hx⟩
      exact absurd hz hx
  · rw [if_neg hz]
    constructor
    · intro h
      have := Option.some.inj h
      exact ⟨this, this ▸ hz⟩
    · rintro ⟨rfl, -⟩
      rfl

/-- A created file holds nothing. -/
theorem tableOf_empty : tableOf SparseFile.empty = fun _ => none := by
  funext s
  rw [tableOf_eq_none]
  exact headerAt_of_short ⟨0, rfl⟩ (Nat.lt_add_left _ (by decide))

theorem wholeSlots_empty : WholeSlots SparseFile.empty := ⟨0, rfl⟩

theorem val_index (hi : i < hashModulus) :
    ((i : Nat) : ZMod hashModulus).val = i := ZMod.val_cast_of_lt hi

theorem cast_next (i : Nat) :
    (((i + 1) % hashModulus : Nat) : ZMod hashModulus) = (i : ZMod hashModulus) + 1 := by
  rw [ZMod.natCast_mod]
  push_cast
  rfl

theorem cast_home (h : UInt64) :
    ((h.toNat % hashModulus : Nat) : ZMod hashModulus) = home h :=
  ZMod.natCast_mod _ _

/-- Filling a free slot is one update of the table. -/
theorem tableOf_putSlot (hi : i < hashModulus) (hh : h ≠ 0) (hdata : data.length = pageSize) :
    tableOf (putSlot f i h data) = Function.update (tableOf f) (i : ZMod hashModulus) (some h) := by
  funext s
  by_cases hs : s = (i : ZMod hashModulus)
  · rw [hs, Function.update_self, tableOf_eq_some, val_index hi]
    exact ⟨headerAt_putSlot_self, hh⟩
  · have hne : s.val ≠ i := by
      intro he
      refine hs ?_
      rw [← he, ZMod.natCast_zmod_val]
    rw [Function.update_of_ne hs, tableOf, tableOf, headerAt_putSlot_of_ne hdata hne]

theorem tableOf_free (hi : i < hashModulus) (hz : headerAt f i = 0) :
    tableOf f (i : ZMod hashModulus) = none := by
  rw [tableOf_eq_none, val_index hi]
  exact hz

theorem tableOf_taken (hi : i < hashModulus) (hz : headerAt f i ≠ 0) :
    tableOf f (i : ZMod hashModulus) = some (headerAt f i) := by
  rw [tableOf_eq_some, val_index hi]
  exact ⟨rfl, hz⟩

/-- **THE WRITER IS AN INSERTION.**  The writer's loop runs out of probes
    exactly when the search fails; else it leaves the file as it is where the
    hash is stored and fills the slot where it is free. -/
theorem writeLoop_eq (hf : WholeSlots f) (n i : Nat) (hi : i < hashModulus) :
    writeLoop h data f n i = (search (tableOf f) h n (i : ZMod hashModulus)).map fun t =>
          if tableOf f t = none then putSlot f t.val h data else f := by
  -- by the probes left; each goes on to the next slot
  induction n generalizing i with
  | zero => rfl
  | succ n ih =>
    rw [writeLoop, search]
    by_cases hz : headerAt f i = 0
    · have hnone := tableOf_free hi hz
      have hstop : Stops (tableOf f) h (i : ZMod hashModulus) := .inl hnone
      rw [if_pos ((free_iff hf).mpr hz), if_pos hstop, Option.map_some, if_pos hnone, val_index hi]
    · have hpr := pread_header hf hz
      have hsome := tableOf_taken hi hz
      rw [if_neg (fun hfree => hz ((free_iff hf).mp hfree)), hpr]
      by_cases hx : headerAt f i = h
      · -- stored already: the writer leaves the file alone
        have hstop : Stops (tableOf f) h (i : ZMod hashModulus) := .inr (hx ▸ hsome)
        rw [if_pos (show word64 (bytes f (i * slotSize) headerSize) = h from hx),
          if_pos hstop, Option.map_some,
          if_neg (by rw [hsome]; exact fun h => by cases h)]
      · have hpass : ¬ Stops (tableOf f) h (i : ZMod hashModulus) := not_stops_of_ne hsome hx
        rw [if_neg (show ¬ word64 (bytes f (i * slotSize) headerSize) = h from hx), if_neg hpass]
        rw [ih _ (Nat.mod_lt _ (by decide)), cast_next]

/-- **THE DRIVER IS A SEARCH.**  With full transfers, the driver's loop finds
    data exactly when the search for the hash stops at a slot holding it, and
    the data is that slot's page. -/
theorem probePages_eq_found (hf : WholeSlots f) (hh : h ≠ 0) (n i : Nat)
    (hi : i < hashModulus) :
    probePages (pread f) hashModulus h n i = .found data
      ↔ ∃ t, search (tableOf f) h n (i : ZMod hashModulus) = some t
          ∧ tableOf f t = some h ∧ dataAt f t.val = data := by
  induction n generalizing i with
  | zero =>
    constructor
    · intro he; cases he
    · rintro ⟨t, ht, -⟩; cases ht
  | succ n ih =>
    rw [probePages_succ, search]
    by_cases hz : headerAt f i = 0
    · -- a free slot, or the end of the file
      have hnone := tableOf_free hi hz
      have hstop : Stops (tableOf f) h (i : ZMod hashModulus) := .inl hnone
      rw [if_pos hstop]
      constructor
      · intro he
        exfalso
        by_cases hlen : (pread f (i * slotSize) 8).length ≠ 8
        · rw [if_pos hlen] at he; cases he
        · rw [if_neg hlen] at he
          rw [not_not, length_pread] at hlen
          have hw : word64 (pread f (i * slotSize) 8) = 0 := by
            rw [pread_of_le (by omega)]
            exact hz
          rw [hw, if_neg (Ne.symm hh), if_pos rfl] at he
          cases he
      · rintro ⟨t, ht, hsome, -⟩
        rw [← Option.some.inj ht, hnone] at hsome
        cases hsome
    · have hpr : pread f (i * slotSize) 8 = bytes f (i * slotSize) headerSize := pread_header hf hz
      have hsome := tableOf_taken hi hz
      rw [hpr, length_bytes, if_neg (fun hne => hne rfl)]
      by_cases hx : headerAt f i = h
      · have hpd : pread f (i * slotSize + 8) pageSize = dataAt f i := pread_data hf hz
        have hstop : Stops (tableOf f) h (i : ZMod hashModulus) := .inr (hx ▸ hsome)
        have hlen : ¬ (dataAt f i).length ≠ pageSize := by
          rw [dataAt, length_bytes]
          exact fun hne => hne rfl
        rw [if_pos (show word64 (bytes f (i * slotSize) headerSize) = h from hx),
          if_pos hstop, hpd, if_neg hlen]
        constructor
        · intro he
          refine ⟨_, rfl, hx ▸ hsome, ?_⟩
          rw [val_index hi]
          exact Load.found.inj he
        · rintro ⟨t, ht, -, hd⟩
          rw [← Option.some.inj ht, val_index hi] at hd
          rw [hd]
      · have hpass : ¬ Stops (tableOf f) h (i : ZMod hashModulus) := not_stops_of_ne hsome hx
        rw [if_neg (show ¬ word64 (bytes f (i * slotSize) headerSize) = h from hx),
          if_neg (show ¬ word64 (bytes f (i * slotSize) headerSize) = 0 from hz),
          if_neg hpass]
        rw [ih _ (Nat.mod_lt _ (by decide)), cast_next]

end Loops

end PageStore
