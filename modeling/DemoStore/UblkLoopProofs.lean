import DemoStore.SparseFileProofs

/-! # The ublk block device server

    The server answers block requests from a backend file.  The data buffers of all tags
    of a queue are one mapping, cut into slices of equal size; `get_io_buf` is the start
    of a tag's slice.  The mapping is addressed from its start here, and what lies behind
    its end is memory too.

    Sector numbers and sizes go through `unsigned int`, 32 bits wide.  A read is right as
    long as the byte offset fits into them, and it stays inside its slice as long as it
    is no longer than a slice, which is less than the device advertises. -/

namespace UblkLoop

open SparseFile List

/-- `UBLK_BLOCK_SIZE`. -/
def blockSize : Nat := 512

/-- `UBLK_QUEUE_DEPTH`. -/
def queueDepth : Nat := 32

/-- `io_buf_size` of `ublk_queue_setup`: 4096 bytes for each tag. -/
def ioBufSize : Nat := queueDepth * 4096

/-- `max_sectors` of the device parameters. -/
def maxSectors : Nat := 256

/-- `dev_sectors` for a backend file of this size. -/
def devSectors (devSize : Nat) : Nat := devSize / blockSize

/-- `get_io_buf`, relative to `io_buf`. -/
def getIoBuf (tag : Nat) : Nat := tag * ioBufSize / queueDepth

/-- The buffer of one tag. -/
def tagBufferSize : Nat := ioBufSize / queueDepth

theorem getIoBuf_eq (tag : Nat) : getIoBuf tag = tag * 4096 := by
  unfold getIoBuf ioBufSize queueDepth
  omega

/-! ## Memory -/

/-- Bytes written from `addr` on. -/
def store (addr : Nat) (data : List UInt8) (mem : Nat → UInt8) : Nat → UInt8 :=
  fun a => if addr ≤ a ∧ a < addr + data.length then data.getD (a - addr) 0 else mem a

/-- The `n` bytes from `addr` on. -/
def load (mem : Nat → UInt8) (addr n : Nat) : List UInt8 :=
  (List.range n).map fun i => mem (addr + i)

variable {mem : Nat → UInt8} {addr n i : Nat} {data : List UInt8} {readOk : Bool}

theorem load_congr {mem' : Nat → UInt8} (h : ∀ i < n, mem (addr + i) = mem' (addr + i)) :
    load mem addr n = load mem' addr n :=
  map_congr_left fun i hi => h i (mem_range.mp hi)

theorem store_of_outside {a : Nat} (h : a < addr ∨ addr + data.length ≤ a) :
    store addr data mem a = mem a :=
  if_neg (by omega)

theorem store_at (h : i < data.length) : store addr data mem (addr + i) = data.getD i 0 := by
  rw [store, if_pos (by omega), Nat.add_sub_cancel_left]

theorem load_store (addr : Nat) (data : List UInt8) (mem : Nat → UInt8) :
    load (store addr data mem) addr data.length = data := by
  refine ext_getElem (by simp [load]) ?_
  intro i h₁ h₂
  simp only [load, getElem_map, getElem_range]
  rw [store_at h₂, getD_eq_getElem _ _ h₂]

theorem store_nil (addr : Nat) (mem : Nat → UInt8) : store addr [] mem = mem := by
  funext a
  exact store_of_outside (by simp only [length_nil]; omega)

/-- A store and a second one right behind it are one store. -/
theorem store_append (addr : Nat) (xs ys : List UInt8) (mem : Nat → UInt8) :
    store (addr + xs.length) ys (store addr xs mem) = store addr (xs ++ ys) mem := by
  funext a
  by_cases hin : addr ≤ a ∧ a < addr + (xs ++ ys).length
  · obtain ⟨i, rfl⟩ := Nat.exists_eq_add_of_le hin.1
    rw [length_append] at hin
    rw [store_at (by rw [length_append]; omega)]
    by_cases hi : i < xs.length
    · rw [store_of_outside (by omega), store_at hi, getD_append _ _ _ _ hi]
    · obtain ⟨j, rfl⟩ := Nat.exists_eq_add_of_le (Nat.le_of_not_lt hi)
      rw [← Nat.add_assoc, store_at (by omega), getD_append_right _ _ _ _ (by omega),
        Nat.add_sub_cancel_left]
  · rw [length_append] at hin
    rw [store_of_outside (by omega), store_of_outside (by omega),
      store_of_outside (by rw [length_append]; omega)]

/-! ## The server -/

/-- What `ublksrv_get_op` gives. -/
inductive IoOp where
  | read
  | write
  | flush
  | discard
  | writeZeroes
  | unknown (op : UInt8)
  deriving DecidableEq

/-- The fields of `ublksrv_io_desc` that the server reads. -/
structure IoDesc where
  op : IoOp
  startSector : UInt64
  nrSectors : UInt32

/-- The results of `process_io_request`. -/
inductive IoResult where
  | ok
  | eio
  | erofs
  | einval
  deriving DecidableEq

/-- `handle_read_io`; `readOk` says whether `pread` succeeds. -/
def handleReadIo (f : File) (tag : Nat) (sector nrSectors : UInt32) (readOk : Bool)
    (mem : Nat → UInt8) : IoResult × (Nat → UInt8) :=
  let buf := getIoBuf tag
  let offset := (sector * 512).toNat
  let size := (nrSectors * 512).toNat
  if readOk then
    let data := pread f offset size
    let mem' := store buf data mem
    if data.length < size then
      (.ok, store (buf + data.length) (List.replicate (size - data.length) 0) mem')
    else (.ok, mem')
  else (.eio, mem)

/-- `process_io_request`: the start sector is cut to 32 bits. -/
def processIoRequest (f : File) (tag : Nat) (iod : IoDesc) (readOk : Bool)
    (mem : Nat → UInt8) : IoResult × (Nat → UInt8) :=
  let sector := iod.startSector.toUInt32
  match iod.op with
  | .read => handleReadIo f tag sector iod.nrSectors readOk mem
  | .write => (.erofs, mem)
  | .flush => (.ok, mem)
  | .discard => (.ok, mem)
  | .writeZeroes => (.ok, mem)
  | .unknown _ => (.einval, mem)

/-- The offset and the size that the server computes. -/
def byteOffset (iod : IoDesc) : Nat := (iod.startSector.toUInt32 * 512).toNat

/-- The bytes a request asks for. -/
def byteSize (iod : IoDesc) : Nat := (iod.nrSectors * 512).toNat

section Server

variable {f : File} {tag : Nat} {iod : IoDesc} {mem : Nat → UInt8}

/-- The offset wraps around at 4 GiB. -/
theorem byteOffset_eq (iod : IoDesc) : byteOffset iod = iod.startSector.toNat * 512 % 2 ^ 32 := by
  rw [byteOffset, UInt32.toNat_mul, UInt64.toNat_toUInt32]
  show iod.startSector.toNat % 2 ^ 32 * 512 % 2 ^ 32 = _
  omega

theorem byteSize_eq (h : iod.nrSectors.toNat ≤ maxSectors) :
    byteSize iod = iod.nrSectors.toNat * 512 := by
  rw [byteSize, UInt32.toNat_mul]
  show iod.nrSectors.toNat * 512 % 2 ^ 32 = _
  have hmax : maxSectors = 256 := rfl
  omega

/-- The bytes that exist and the zero fill are the bytes of the sparse file. -/
theorem pread_append_zeros (f : File) (off n : Nat) :
    pread f off n ++ List.replicate (n - (pread f off n).length) 0 = bytes f off n := by
  refine ext_getElem ?_ ?_
  · rw [length_append, length_replicate, length_bytes, length_pread]
    omega
  intro i h₁ h₂
  rw [length_bytes] at h₂
  by_cases hi : i < (pread f off n).length
  · rw [getElem_append_left hi]
    simp [pread, bytes]
  · rw [getElem_append_right (Nat.le_of_not_lt hi), getElem_replicate]
    rw [length_pread] at hi
    simp only [bytes, getElem_map, getElem_range]
    exact (f.hole _ (by omega)).symm

/-- **ONE READ** stores the bytes at the computed offset. -/
theorem processIoRequest_read (hop : iod.op = .read) :
    processIoRequest f tag iod true mem
      = (.ok, store (getIoBuf tag) (bytes f (byteOffset iod) (byteSize iod)) mem) := by
  rw [processIoRequest, hop]
  dsimp only
  rw [handleReadIo, ← byteOffset, ← byteSize, ← pread_append_zeros]
  dsimp only
  rw [if_pos rfl, ← store_append]
  split
  · rfl
  · rename_i hlen
    rw [Nat.sub_eq_zero_of_le (Nat.le_of_not_lt hlen)]
    show _ = (IoResult.ok, store _ [] _)
    rw [store_nil]

/-- Without a successful read the buffers stay as they are. -/
theorem processIoRequest_other (h : iod.op ≠ .read ∨ readOk = false) :
    (processIoRequest f tag iod readOk mem).2 = mem := by
  rw [processIoRequest]
  cases hop : iod.op with
  | read =>
    obtain rfl := h.resolve_left (fun hne => hne hop)
    rfl
  | _ => rfl

end Server

/-! ## The bytes of a read -/

/-- The request succeeds and leaves in the tag's buffer the bytes of the backend file from
    the start sector on, zeros behind its end. -/
def ReadsRight (f : File) (tag : Nat) (iod : IoDesc) (mem : Nat → UInt8) : Prop :=
  (processIoRequest f tag iod true mem).1 = .ok
    ∧ load (processIoRequest f tag iod true mem).2 (getIoBuf tag)
        (iod.nrSectors.toNat * 512)
      = bytes f (iod.startSector.toNat * 512) (iod.nrSectors.toNat * 512)

variable {f : File} {tag : Nat} {iod : IoDesc}

theorem readsRight_iff (hop : iod.op = .read) (hmax : iod.nrSectors.toNat ≤ maxSectors) :
    ReadsRight f tag iod mem
      ↔ bytes f (byteOffset iod) (iod.nrSectors.toNat * 512)
        = bytes f (iod.startSector.toNat * 512) (iod.nrSectors.toNat * 512) := by
  have hload := load_store (getIoBuf tag) (bytes f (byteOffset iod) (iod.nrSectors.toNat * 512)) mem
  rw [length_bytes] at hload
  rw [ReadsRight, processIoRequest_read hop, byteSize_eq hmax]
  dsimp only
  rw [hload]
  exact and_iff_right rfl

theorem getD_bytes {off : Nat} (h : i < n) : (bytes f off n).getD i 0 = f.byte (off + i) := by
  rw [getD_eq_getElem _ _ (by rw [length_bytes]; exact h)]
  simp [bytes]

/-- A file of the given size with a single byte that is not zero. -/
def markedFile (size pos : Nat) (h : pos < size) : File where
  size := size
  byte := fun i => if i = pos then 1 else 0
  hole := fun i hi => if_neg (by omega)

/-- **READS ARE RIGHT BELOW 4 GIB.**  A read inside the device that fits into the buffer of
    its tag returns the right bytes whatever the backend file holds, exactly when it is
    empty or its byte offset is below `2 ^ 32`. -/
theorem reads_right_iff {iod : IoDesc} (size tag : Nat) (hop : iod.op = .read)
    (hin : iod.startSector.toNat + iod.nrSectors.toNat ≤ devSectors size)
    (hfit : iod.nrSectors.toNat * 512 ≤ tagBufferSize) :
    (∀ f mem, f.size = size → ReadsRight f tag iod mem)
      ↔ iod.nrSectors = 0 ∨ iod.startSector.toNat * 512 < 2 ^ 32 := by
  have hbuf : tagBufferSize = 4096 := by decide
  have hmax : iod.nrSectors.toNat ≤ maxSectors := by
    have h256 : maxSectors = 256 := rfl
    omega
  rw [devSectors, show blockSize = 512 from rfl] at hin
  constructor
  · intro hright
    by_contra hno
    rw [not_or] at hno
    obtain ⟨hnz, hbig⟩ := hno
    have hpos : 0 < iod.nrSectors.toNat := by
      refine Nat.pos_of_ne_zero fun hz => hnz ?_
      exact UInt32.toNat_inj.mp hz
    -- a single byte at the start sector, which the wrapped offset misses
    have hlt : iod.startSector.toNat * 512 < size := by omega
    have hbytes := (readsRight_iff hop hmax).mp
      (hright (markedFile size (iod.startSector.toNat * 512) hlt) (fun _ => 0) rfl)
    have hfirst := congrArg (fun bs => bs.getD 0 0) hbytes
    have hoff := byteOffset_eq iod
    have hne : byteOffset iod ≠ iod.startSector.toNat * 512 := by omega
    rw [getD_bytes (by omega), getD_bytes (by omega)] at hfirst
    simp [markedFile, hne] at hfirst
  · rintro (hz | hsmall) f mem hsize
    · rw [readsRight_iff hop hmax, hz]
      rfl
    · rw [readsRight_iff hop hmax, byteOffset_eq, Nat.mod_eq_of_lt hsmall]

/-- Eight sectors across the 4 GiB line, on a device of 4 GiB and four sectors. -/
theorem sectors_across_4GiB_read_right :
    ReadsRight (markedFile (2 ^ 32 + 2048) (2 ^ 32 + 3) (by decide)) 5 ⟨.read, 8388604, 8⟩
      fun _ => 0 := by
  have hiff : (∀ f mem, f.size = 2 ^ 32 + 2048 → ReadsRight f 5 ⟨.read, 8388604, 8⟩ mem) ↔ _ :=
    reads_right_iff (2 ^ 32 + 2048) 5 rfl (by decide) (by decide)
  exact hiff.mpr (.inr (by decide)) _ _ rfl

/-- On a device of 4 GiB and one sector a read of the last sector returns the first one. -/
theorem read_wraps_at_4GiB :
    ¬ ReadsRight (markedFile (2 ^ 32 + 512) (2 ^ 32) (by decide)) 0 ⟨.read, 8388608, 1⟩
        fun _ => 0 := by
  rw [readsRight_iff rfl (by decide)]
  intro hbytes
  have hfirst := congrArg (fun bs => bs.getD 0 0) hbytes
  dsimp only at hfirst
  rw [getD_bytes (by decide), getD_bytes (by decide)] at hfirst
  exact absurd hfirst (by decide)

/-! ## The slices of the tags -/

/-- Nothing outside the slice of the tag has changed. -/
def OnlyOwnSlice (tag : Nat) (mem mem' : Nat → UInt8) : Prop :=
  ∀ a, a < getIoBuf tag ∨ getIoBuf (tag + 1) ≤ a → mem' a = mem a

/-- The request is no read, or a read of no more than a slice. -/
def FitsSlice (iod : IoDesc) : Prop :=
  iod.op = .read → iod.nrSectors.toNat * 512 ≤ tagBufferSize

theorem getIoBuf_succ (tag : Nat) : getIoBuf (tag + 1) = getIoBuf tag + tagBufferSize := by
  have hbuf : tagBufferSize = 4096 := by decide
  rw [getIoBuf_eq, getIoBuf_eq, hbuf]
  omega

theorem onlyOwnSlice_of_fits (hmax : iod.nrSectors.toNat ≤ maxSectors) (hfit : FitsSlice iod) :
    OnlyOwnSlice tag mem (processIoRequest f tag iod readOk mem).2 := by
  intro a ha
  by_cases hread : iod.op = .read ∧ readOk = true
  · obtain ⟨hop, rfl⟩ := hread
    rw [processIoRequest_read hop]
    refine store_of_outside ?_
    have hlen := hfit hop
    rw [getIoBuf_succ] at ha
    rw [length_bytes, byteSize_eq hmax]
    omega
  · rw [processIoRequest_other]
    rw [not_and_or, Bool.not_eq_true] at hread
    exact hread

/-- A request stays in its slice whatever the file and the memory hold exactly when it is no
    read longer than the slice. -/
theorem onlyOwnSlice_iff (hmax : iod.nrSectors.toNat ≤ maxSectors) :
    (∀ f mem readOk, OnlyOwnSlice tag mem (processIoRequest f tag iod readOk mem).2)
      ↔ FitsSlice iod := by
  refine ⟨fun h hop => ?_, fun hfit f mem readOk => onlyOwnSlice_of_fits hmax hfit⟩
  by_contra hbig
  -- zeros written over the first byte of the next slice
  have hsame := h SparseFile.empty (fun _ => 1) true (getIoBuf (tag + 1)) (.inr le_rfl)
  rw [processIoRequest_read hop, byteSize_eq hmax, getIoBuf_succ] at hsame
  dsimp only at hsame
  rw [store_at (by rw [length_bytes]; omega), getD_bytes (by omega)] at hsame
  cases hsame

/-! ## Sequences of requests -/

/-- A request on a tag, with the backend file as it is then. -/
structure TagRequest where
  file : File
  tag : Nat
  iod : IoDesc
  readOk : Bool

/-- What it does to the mapping. -/
def TagRequest.run (x : TagRequest) (mem : Nat → UInt8) : Nat → UInt8 :=
  (processIoRequest x.file x.tag x.iod x.readOk mem).2

/-- Requests one after the other. -/
def runRequests (xs : List TagRequest) (mem : Nat → UInt8) : Nat → UInt8 :=
  xs.foldl (fun m x => x.run m) mem

theorem runRequests_append (xs ys : List TagRequest) (mem : Nat → UInt8) :
    runRequests (xs ++ ys) mem = runRequests ys (runRequests xs mem) :=
  foldl_append ..

/-- The buffer of a tag. -/
def tagBuffer (mem : Nat → UInt8) (tag : Nat) : List UInt8 :=
  load mem (getIoBuf tag) tagBufferSize

/-- The slices of two tags have no byte in common. -/
theorem slices_apart {t u : Nat} (h : t ≠ u) :
    getIoBuf t + tagBufferSize ≤ getIoBuf u ∨ getIoBuf u + tagBufferSize ≤ getIoBuf t := by
  have hbuf : tagBufferSize = 4096 := by decide
  rw [getIoBuf_eq, getIoBuf_eq, hbuf]
  omega

/-- Requests on other tags leave the buffer of a tag alone. -/
theorem tagBuffer_runRequests {xs : List TagRequest}
    (hmax : ∀ x ∈ xs, x.iod.nrSectors.toNat ≤ maxSectors) (hfit : ∀ x ∈ xs, FitsSlice x.iod)
    (hother : ∀ x ∈ xs, x.tag ≠ tag) : tagBuffer (runRequests xs mem) tag = tagBuffer mem tag := by
  induction xs generalizing mem with
  | nil => rfl
  | cons x xs ih =>
    have hx : x ∈ x :: xs := mem_cons_self
    have hrest : tagBuffer (runRequests xs (x.run mem)) tag = tagBuffer (x.run mem) tag := ih
      (fun y hy => hmax y (mem_cons_of_mem x hy))
      (fun y hy => hfit y (mem_cons_of_mem x hy))
      (fun y hy => hother y (mem_cons_of_mem x hy))
    refine hrest.trans (load_congr fun i hi => ?_)
    refine onlyOwnSlice_of_fits (hmax x hx) (hfit x hx) _ ?_
    have hapart := slices_apart (hother x hx)
    rw [getIoBuf_succ]
    omega

/-- **TAGS DO NOT DISTURB EACH OTHER AS LONG AS READS FIT INTO A SLICE.**  For requests
    within the advertised size, each one stays in the slice of its tag, whatever the file
    and the memory hold, exactly when it is no read longer than the slice.  And after a
    sequence of requests that fit, the buffer of a tag holds what its last request left
    there. -/
theorem tags_apart {xs : List TagRequest}
    (hmax : ∀ x ∈ xs, x.tag < queueDepth ∧ x.iod.nrSectors.toNat ≤ maxSectors)
    (mem : Nat → UInt8) :
    (∀ x ∈ xs, (∀ f m readOk,
        OnlyOwnSlice x.tag m (processIoRequest f x.tag x.iod readOk m).2) ↔ FitsSlice x.iod)
      ∧ ((∀ x ∈ xs, FitsSlice x.iod) →
        ∀ before x rest, xs = before ++ x :: rest → (∀ y ∈ rest, y.tag ≠ x.tag) →
          tagBuffer (runRequests xs mem) x.tag
            = tagBuffer (runRequests (before ++ [x]) mem) x.tag) := by
  refine ⟨fun x hx => onlyOwnSlice_iff (hmax x hx).2, ?_⟩
  rintro hfit before x rest rfl hlast
  have hmem : ∀ y ∈ rest, y ∈ before ++ x :: rest := fun y hy =>
    mem_append_right _ (mem_cons_of_mem x hy)
  rw [← singleton_append, ← append_assoc, runRequests_append]
  exact tagBuffer_runRequests (fun y hy => (hmax y (hmem y hy)).2)
    (fun y hy => hfit y (hmem y hy)) hlast

/-- A whole slice read into tag 0, then one into tag 1. -/
def twoReads : List TagRequest :=
  [⟨SparseFile.empty, 0, ⟨.read, 0, 8⟩, true⟩, ⟨SparseFile.empty, 1, ⟨.read, 8, 8⟩, true⟩]

theorem twoReads_apart :
    tagBuffer (runRequests twoReads fun _ => 1) 0
      = tagBuffer (runRequests (twoReads.take 1) fun _ => 1) 0 := by
  have hmax : ∀ x ∈ twoReads, x.tag < queueDepth ∧ x.iod.nrSectors.toNat ≤ maxSectors := by
    intro x hx
    rcases mem_cons.mp hx with rfl | hx
    · decide
    · rw [mem_singleton.mp hx]
      decide
  have hfit : ∀ x ∈ twoReads, FitsSlice x.iod := by
    intro x hx _
    rcases mem_cons.mp hx with rfl | hx
    · decide
    · rw [mem_singleton.mp hx]
      decide
  exact (tags_apart hmax fun _ => 1).2 hfit [] ⟨SparseFile.empty, 0, ⟨.read, 0, 8⟩, true⟩ _ rfl
    (by simp)

/-- A read of nine sectors into tag 0, within the advertised 256, zeroes the first byte of the
    buffer of tag 1. -/
theorem long_read_overwrites_next_tag :
    (9 : UInt32).toNat ≤ maxSectors
      ∧ ¬ OnlyOwnSlice 0 (fun _ => 1)
        (processIoRequest SparseFile.empty 0 ⟨.read, 0, 9⟩ true fun _ => 1).2
      ∧ (tagBuffer (processIoRequest SparseFile.empty 0 ⟨.read, 0, 9⟩ true fun _ => 1).2
        1).getD 0 0 = 0 := by
  have hsize : byteSize ⟨.read, 0, 9⟩ = 4608 := by decide
  have hbyte : (processIoRequest SparseFile.empty 0 ⟨.read, 0, 9⟩ true fun _ => 1).2
      (0 + 4096) = 0 := by
    rw [processIoRequest_read rfl, hsize, getIoBuf_eq, Nat.zero_mul]
    dsimp only
    rw [store_at (by rw [length_bytes]; decide), getD_bytes (by decide)]
    rfl
  refine ⟨by decide, fun hown => ?_, ?_⟩
  · have hsame := hown (0 + 4096) (.inr (by decide))
    rw [hbyte] at hsame
    cases hsame
  · have hlen : 0 < tagBufferSize := by decide
    rw [tagBuffer, load, getD_eq_getElem _ _ (by simpa using hlen), getIoBuf_eq]
    simp only [getElem_map, getElem_range]
    exact hbyte

end UblkLoop
