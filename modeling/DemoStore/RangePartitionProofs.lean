import DemoStore.DirtyLogProofs

/-! # Chunks of a range table

    With several connections the memory of one iteration is cut into chunks that the
    workers take one by one.  `MemoryRangeTableIterator` takes ranges from the end of
    the table until a chunk is full and cuts the range that does not fit: its upper
    part goes into the chunk, its lower part back to the table.

    Nothing is lost and nothing is sent twice, no chunk is larger than the limit, only
    the last one may be smaller, and none of the assertions in the loop can fail. -/

namespace RangePartition

open ByteSpan DirtyLog List Option

/-- `effective_size`. -/
def effectiveSize (table : MemoryRangeTable) : Nat := total (table.map MemoryRange.span)

/-- The loop of `MemoryRangeTableIterator::next`.  The end of `data`, where `pop` and `push`
    work, is the head of the list.  It is `none` if an assertion fails or a sum does not fit
    into `u64`: there a debug build stops and a release build goes on with a wrong number. -/
def takeRanges (chunkSize : Nat) (data : List MemoryRange) (rangesSize : Nat) :
    Option (MemoryRangeTable × List MemoryRange) :=
  if _hfit : rangesSize ≤ chunkSize then
    if _hfull : rangesSize = chunkSize then some ([], data)
    else
      match data with
      | [] => some ([], [])
      | range :: rest =>
        if 2 ^ 64 ≤ rangesSize + range.length then none
        else if _hbig : chunkSize < rangesSize + range.length then
          let leftoverBytes := rangesSize + range.length - chunkSize
          let returnedBytes := range.length - leftoverBytes
          if leftoverBytes ≤ range.length ∧ returnedBytes ≤ range.length
              ∧ leftoverBytes + returnedBytes = range.length
              ∧ range.gpa + leftoverBytes < 2 ^ 64 then
            (takeRanges chunkSize (⟨range.gpa, leftoverBytes⟩ :: rest)
              (rangesSize + returnedBytes)).map fun p =>
                (⟨range.gpa + leftoverBytes, returnedBytes⟩ :: p.1, p.2)
          else none
        else
          (takeRanges chunkSize rest (rangesSize + range.length)).map fun p =>
            (range :: p.1, p.2)
  else none
termination_by data.length + (chunkSize - rangesSize)
decreasing_by
  · simp only [length_cons]
    omega
  · simp only [length_cons]
    omega

/-- `MemoryRangeTableIterator::next`: the chunk and what is left, the inner `none` at the
    end. -/
def next (chunkSize : Nat) (data : List MemoryRange) :
    Option (Option (MemoryRangeTable × List MemoryRange)) :=
  (takeRanges chunkSize data 0).map fun p => if p.1.isEmpty then none else some p

/-! ## One chunk -/

/-- The bytes and ranges that are left to hand out. -/
def load (data : List MemoryRange) : Nat := effectiveSize data + data.length

/-- What a run of the loop takes and leaves. -/
structure Taken (chunkSize rangesSize : Nat) (data chunk rest : List MemoryRange) : Prop where
  kept : ∀ a, reported data a = reported chunk a + reported rest a
  bytes : effectiveSize data = effectiveSize chunk + effectiveSize rest
  fits : rangesSize + effectiveSize chunk ≤ chunkSize
  full : rest ≠ [] → rangesSize + effectiveSize chunk = chunkSize
  moves : rangesSize < chunkSize → data ≠ [] → chunk ≠ []
  load_le : load rest ≤ load data
  load_lt : chunk ≠ [] → load rest < load data
  ends : (∀ r ∈ data, r.gpa + r.length ≤ 2 ^ 64) → ∀ r ∈ rest, r.gpa + r.length ≤ 2 ^ 64

@[simp] theorem reported_nil (a : Nat) : reported [] a = 0 := rfl

theorem reported_cons (r : MemoryRange) (rs : List MemoryRange) (a : Nat) :
    reported (r :: rs) a = reported [r] a + reported rs a :=
  reported_append [r] rs a

@[simp] theorem effectiveSize_nil : effectiveSize [] = 0 := rfl

@[simp] theorem effectiveSize_cons (r : MemoryRange) (rs : List MemoryRange) :
    effectiveSize (r :: rs) = r.length + effectiveSize rs := by
  rw [effectiveSize, map_cons, total_cons]
  rfl

variable {gpa n k : Nat}

/-- A range and its two parts. -/
theorem reported_cut (hk : k ≤ n) (a : Nat) :
    reported [⟨gpa, n⟩] a = reported [⟨gpa + k, n - k⟩] a + reported [⟨gpa, k⟩] a := by
  have hjoin := cover_joined (s := ⟨gpa, k⟩) (t := ⟨gpa + k, n - k⟩) rfl a
  dsimp only at hjoin
  rw [Nat.add_sub_cancel' hk] at hjoin
  show cover [⟨gpa, n⟩] a = _
  rw [hjoin, Nat.add_comm]
  rfl

section Taken

variable {chunkSize rangesSize : Nat} {data chunk rest left : List MemoryRange}

/-- A chunk that is full. -/
theorem taken_full (h : rangesSize = chunkSize) : Taken chunkSize rangesSize data [] data where
  kept := fun a => by rw [reported_nil, Nat.zero_add]
  bytes := by rw [effectiveSize_nil, Nat.zero_add]
  fits := h.le
  full := fun _ => h
  moves := fun hlt => absurd h (Nat.ne_of_lt hlt)
  load_le := le_rfl
  load_lt := fun h => absurd rfl h
  ends := id

/-- A table that is used up. -/
theorem taken_end (h : rangesSize ≤ chunkSize) : Taken chunkSize rangesSize [] [] [] where
  kept := fun _ => rfl
  bytes := rfl
  fits := h
  full := fun h => absurd rfl h
  moves := fun _ h => absurd rfl h
  load_le := le_rfl
  load_lt := fun h => absurd rfl h
  ends := id

/-- A range that fits as a whole. -/
theorem Taken.push {range : MemoryRange}
    (h : Taken chunkSize (rangesSize + range.length) rest chunk left) :
    Taken chunkSize rangesSize (range :: rest) (range :: chunk) left := by
  obtain ⟨kept, bytes, fits, full, -, hle, -, ends⟩ := h
  have hlt : load left < load (range :: rest) := by
    rw [load, load, effectiveSize_cons, length_cons]
    rw [load, load] at hle
    omega
  refine ⟨fun a => ?_, ?_, ?_, fun hleft => ?_, fun _ _ => cons_ne_nil _ _, hlt.le,
    fun _ => hlt, fun h => ends fun r hr => h r (mem_cons_of_mem _ hr)⟩
  · rw [reported_cons range rest, reported_cons range chunk, kept a, Nat.add_assoc]
  · rw [effectiveSize_cons, effectiveSize_cons, bytes, Nat.add_assoc]
  · rw [effectiveSize_cons]
    omega
  · have hfull := full hleft
    rw [effectiveSize_cons]
    omega

/-- A range of which the upper part fits. -/
theorem Taken.cut (hk : k < n)
    (h : Taken chunkSize (rangesSize + (n - k)) (⟨gpa, k⟩ :: rest) chunk left) :
    Taken chunkSize rangesSize (⟨gpa, n⟩ :: rest) (⟨gpa + k, n - k⟩ :: chunk) left := by
  obtain ⟨kept, bytes, fits, full, -, hle, -, ends⟩ := h
  rw [effectiveSize_cons] at bytes
  dsimp only at bytes
  have hlt : load left < load (⟨gpa, n⟩ :: rest) := by
    rw [load, load, effectiveSize_cons, length_cons] at hle ⊢
    dsimp only at hle ⊢
    omega
  refine ⟨fun a => ?_, ?_, ?_, fun hleft => ?_, fun _ _ => cons_ne_nil _ _, hlt.le,
    fun _ => hlt, fun h => ends fun r hr => ?_⟩
  · have hkept := kept a
    rw [reported_cons] at hkept
    rw [reported_cons _ rest, reported_cons _ chunk, reported_cut hk.le a]
    omega
  · rw [effectiveSize_cons, effectiveSize_cons]
    dsimp only
    omega
  · rw [effectiveSize_cons]
    dsimp only
    omega
  · have hfull := full hleft
    rw [effectiveSize_cons]
    dsimp only
    omega
  · rcases mem_cons.mp hr with rfl | hr
    · have hend := h ⟨gpa, n⟩ mem_cons_self
      dsimp only at hend ⊢
      omega
    · exact h r (mem_cons_of_mem _ hr)

end Taken

/-- What the loop takes and leaves, if it ends. -/
theorem takeRanges_taken (chunkSize : Nat) (data : List MemoryRange) (rangesSize : Nat) :
    ∀ p, takeRanges chunkSize data rangesSize = some p →
      Taken chunkSize rangesSize data p.1 p.2 := by
  fun_induction takeRanges chunkSize data rangesSize with
  | case1 =>
    rintro p ⟨⟩
    exact taken_full rfl
  | case2 rangesSize hfit _ =>
    rintro p ⟨⟩
    exact taken_end hfit
  | case4 rangesSize _ hfull range rest _ hbig leftoverBytes returnedBytes _ ih =>
    intro p h
    obtain ⟨q, hq, rfl⟩ := map_eq_some_iff.mp h
    exact (ih q hq).cut (by omega)
  | case6 _ _ _ _ _ _ _ ih =>
    intro p h
    obtain ⟨q, hq, rfl⟩ := map_eq_some_iff.mp h
    exact (ih q hq).push
  | case3 | case5 | case7 => rintro p ⟨⟩

/-- **ONE CHUNK.**  If the table has less than `2 ^ 64` bytes and no range passes the last
    address, the assertions hold and no sum overflows. -/
theorem takeRanges_isSome (chunkSize : Nat) (data : List MemoryRange) (rangesSize : Nat)
    (hfit : rangesSize ≤ chunkSize) (hsize : rangesSize + effectiveSize data < 2 ^ 64)
    (hends : ∀ r ∈ data, r.gpa + r.length ≤ 2 ^ 64) :
    ∃ p, takeRanges chunkSize data rangesSize = some p := by
  fun_induction takeRanges chunkSize data rangesSize with
  | case1 | case2 => exact ⟨_, rfl⟩
  | case3 _ _ _ range rest hover =>
    rw [effectiveSize_cons] at hsize
    omega
  | case4 rangesSize _ hfull range rest _ hbig leftoverBytes returnedBytes hassert ih =>
    rw [effectiveSize_cons] at hsize ih
    obtain ⟨p, hp⟩ := ih (by omega) (by dsimp only; omega) fun r hr => by
      rcases mem_cons.mp hr with rfl | hr
      · have hend := hends range mem_cons_self
        dsimp only
        omega
      · exact hends r (mem_cons_of_mem _ hr)
    exact ⟨_, by rw [hp]; rfl⟩
  | case5 rangesSize _ hfull range rest _ hbig leftoverBytes returnedBytes hassert =>
    have hend := hends range mem_cons_self
    exact absurd ⟨by omega, by omega, by omega, by omega⟩ hassert
  | case6 rangesSize _ _ range rest _ _ ih =>
    rw [effectiveSize_cons] at hsize
    obtain ⟨p, hp⟩ := ih (by omega) (by omega) fun r hr => hends r (mem_cons_of_mem _ hr)
    exact ⟨_, by rw [hp]; rfl⟩
  | case7 _ _ hno => exact absurd hfit hno

/-! ## All chunks -/

variable {chunkSize : Nat} {data chunk rest : List MemoryRange}

/-- A call that gives a chunk. -/
theorem taken_of_next (h : next chunkSize data = some (some (chunk, rest))) :
    chunk ≠ [] ∧ Taken chunkSize 0 data chunk rest := by
  obtain ⟨p, hrun, hp⟩ := map_eq_some_iff.mp h
  split at hp
  · cases hp
  · rename_i hne
    cases hp
    exact ⟨fun hnil => hne (by rw [hnil]; rfl), takeRanges_taken _ _ _ _ hrun⟩

theorem load_lt_of_next (h : next chunkSize data = some (some (chunk, rest))) :
    load rest < load data := by
  obtain ⟨hne, htaken⟩ := taken_of_next h
  exact htaken.load_lt hne

/-- The iterator only ends with the table. -/
theorem eq_nil_of_next (hchunk : 0 < chunkSize) (h : next chunkSize data = some none) :
    data = [] := by
  obtain ⟨p, hrun, hp⟩ := map_eq_some_iff.mp h
  split at hp
  · rename_i hempty
    by_contra hdata
    exact (takeRanges_taken _ _ _ _ hrun).moves hchunk hdata (List.isEmpty_iff.mp hempty)
  · cases hp

/-- The chunks an iterator gives until it ends. -/
def chunks (chunkSize : Nat) (data : List MemoryRange) : Option (List MemoryRangeTable) :=
  match _h : next chunkSize data with
  | none => none
  | some none => some []
  | some (some (chunk, rest)) => (chunks chunkSize rest).map (chunk :: ·)
termination_by load data
decreasing_by exact load_lt_of_next _h

/-- `MemoryRangeTable::partition`, with the end of the table as the head of `data`. -/
def partition (table : MemoryRangeTable) (chunkSize : Nat) : Option (List MemoryRangeTable) :=
  chunks chunkSize table.reverse

theorem chunks_nil (chunkSize : Nat) : chunks chunkSize [] = some [] := by
  have hnext : next chunkSize [] = some none := by
    rw [next, takeRanges, dif_pos (Nat.zero_le _)]
    split <;> rfl
  rw [chunks.eq_def]
  split <;> rename_i h <;> cases hnext.symm.trans h
  rfl

/-- What the chunks of a table are. -/
structure Chunked (chunkSize : Nat) (data : List MemoryRange) (cs : List MemoryRangeTable) :
    Prop where
  kept : ∀ a, reported cs.flatten a = reported data a
  bytes : (cs.map effectiveSize).sum = effectiveSize data
  fits : ∀ c ∈ cs, c ≠ [] ∧ effectiveSize c ≤ chunkSize
  full : ∀ c ∈ cs.dropLast, effectiveSize c = chunkSize

/-- What the chunks are, if the iterator comes to its end. -/
theorem chunked_of_chunks (hchunk : 0 < chunkSize) (data : List MemoryRange) :
    ∀ cs, chunks chunkSize data = some cs → Chunked chunkSize data cs := by
  fun_induction chunks chunkSize data with
  | case1 => rintro cs ⟨⟩
  | case2 data hnext =>
    rintro cs ⟨⟩
    rw [eq_nil_of_next hchunk hnext]
    exact ⟨fun _ => rfl, rfl, by simp, by simp⟩
  | case3 data chunk rest hnext ih =>
    intro cs h
    obtain ⟨cs, hrun, rfl⟩ := map_eq_some_iff.mp h
    obtain ⟨hne, htaken⟩ := taken_of_next hnext
    have hcs := ih cs hrun
    refine ⟨fun a => ?_, ?_, ?_, ?_⟩
    · rw [flatten_cons, reported_append, hcs.kept, htaken.kept]
    · rw [map_cons, sum_cons, hcs.bytes, htaken.bytes]
    · intro c hc
      rcases mem_cons.mp hc with rfl | hc
      · have hfits := htaken.fits
        exact ⟨hne, by omega⟩
      · exact hcs.fits c hc
    · intro c hc
      cases cs with
      | nil => cases hc
      | cons c' cs =>
        rw [dropLast_cons_of_ne_nil (cons_ne_nil _ _)] at hc
        rcases mem_cons.mp hc with rfl | hc
        · -- another chunk follows, so something was left
          have hrest : rest ≠ [] := by
            rintro rfl
            rw [chunks_nil] at hrun
            cases hrun
          have hfull := htaken.full hrest
          omega
        · exact hcs.full c hc

/-- Below the bounds the iterator comes to its end. -/
theorem chunks_isSome (chunkSize : Nat) (data : List MemoryRange)
    (hsize : effectiveSize data < 2 ^ 64) (hends : ∀ r ∈ data, r.gpa + r.length ≤ 2 ^ 64) :
    ∃ cs, chunks chunkSize data = some cs := by
  fun_induction chunks chunkSize data with
  | case1 data hnext =>
    obtain ⟨p, hrun⟩ := takeRanges_isSome chunkSize data 0 (Nat.zero_le _) (by omega) hends
    rw [next, hrun] at hnext
    cases hnext
  | case2 => exact ⟨[], rfl⟩
  | case3 data chunk rest hnext ih =>
    obtain ⟨-, htaken⟩ := taken_of_next hnext
    obtain ⟨cs, hcs⟩ := ih
      (Nat.lt_of_le_of_lt (htaken.bytes ▸ Nat.le_add_left _ _) hsize) (htaken.ends hends)
    exact ⟨chunk :: cs, by rw [hcs]; rfl⟩

theorem reported_reverse (table : MemoryRangeTable) (a : Nat) :
    reported table.reverse a = reported table a := by
  rw [reported, map_reverse, cover_reverse]
  rfl

theorem effectiveSize_reverse (table : MemoryRangeTable) :
    effectiveSize table.reverse = effectiveSize table := by
  rw [effectiveSize, effectiveSize, total, total, map_reverse, map_reverse, sum_reverse]

/-- **A PARTITION LOSES NOTHING AND DOUBLES NOTHING.**  For every chunk size but zero and
    every table that has less than `2 ^ 64` bytes and no range beyond the last address, no
    assertion fails, no sum overflows and the iterator ends; its chunks together report each
    address as often as the table does and have as many bytes; none is empty or larger than
    the chunk size, and all but the last are exactly that large. -/
theorem partition_exact (table : MemoryRangeTable) {chunkSize : Nat} (hchunk : 0 < chunkSize)
    (hsize : effectiveSize table < 2 ^ 64)
    (hends : ∀ r ∈ table, r.gpa + r.length ≤ 2 ^ 64) :
    ∃ cs, partition table chunkSize = some cs
      ∧ (∀ a, reported cs.flatten a = reported table a)
      ∧ (cs.map effectiveSize).sum = effectiveSize table
      ∧ (∀ c ∈ cs, c ≠ [] ∧ effectiveSize c ≤ chunkSize)
      ∧ ∀ c ∈ cs.dropLast, effectiveSize c = chunkSize := by
  -- `pop` takes from the end of the table, so the list is its reverse
  obtain ⟨cs, hrun⟩ := chunks_isSome chunkSize table.reverse
    (by rw [effectiveSize_reverse]; exact hsize) fun r hr => hends r (mem_reverse.mp hr)
  have hcs := chunked_of_chunks hchunk _ _ hrun
  refine ⟨cs, hrun, fun a => ?_, ?_, hcs.fits, hcs.full⟩
  · rw [hcs.kept, reported_reverse]
  · rw [hcs.bytes, effectiveSize_reverse]

/-- Two ranges of three bytes in chunks of four: the range at 10 is cut. -/
theorem cut_range_exact :
    ∃ cs, partition [⟨10, 3⟩, ⟨20, 3⟩] 4 = some cs ∧ reported cs.flatten 10 = 1
      ∧ reported cs.flatten 13 = 0 ∧ (cs.map effectiveSize).sum = 6 := by
  obtain ⟨cs, hrun, hkept, hbytes, -⟩ :=
    partition_exact [⟨10, 3⟩, ⟨20, 3⟩] (by decide : 0 < 4) (by decide) (by decide)
  exact ⟨cs, hrun, hkept 10, hkept 13, hbytes⟩

end RangePartition
