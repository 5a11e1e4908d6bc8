import DemoStore.SparseFileProofs

/-! # Exact reads

    `pread_exact` fills a slice from a file with as many `pread` calls as it takes;
    `pread_some` repeats a call that was interrupted.  A `Kernel` answers every call in
    any way the file allows: it may interrupt, fail, or transfer fewer bytes than asked
    for, but it reports 0 bytes at the end of the file only.

    The loop is unbounded, so the functions take the number of calls they may make; the
    headline `pread_exact_exact` says that enough of them give the result. -/

namespace PreadExact

open SparseFile List Option

/-! ## `pread` -/

/-- `EINTR`. -/
def eintr : Nat := 4

/-- What a call returns: `-1` with `errno`, or a number of bytes. -/
inductive Pread where
  | failed (errno : Nat)
  | transferred (count : Nat)
  deriving DecidableEq

/-- What may come of asking for `len` bytes at `pos`.  A negative position is an error,
    and no position of a file is beyond `off_t`. -/
def Legal (f : File) (len : Nat) (pos : Int) : Pread → Prop
  | .failed _ => True
  | .transferred n =>
    0 ≤ pos ∧ n ≤ len ∧ n ≤ f.size - pos.toNat ∧ pos.toNat + n < 2 ^ 63
      ∧ (n = 0 → f.size ≤ pos.toNat)

/-- `call k len pos` is what the `k`-th call returns if it asks for `len` bytes at
    `pos`.  No request is interrupted forever. -/
structure Kernel (f : File) where
  call : Nat → Nat → Int → Pread
  legal : ∀ k len pos, 0 < len → Legal f len pos (call k len pos)
  resumes : ∀ k len pos, ∃ j, k ≤ j ∧ call j len pos ≠ .failed eintr

/-! ## The loops -/

/-- The errors of `pread_exact`; the second is `ErrorKind::UnexpectedEof` with
    "unexpected EOF while reading backend". -/
inductive ReadError where
  | os (errno : Nat)
  | unexpectedEof
  deriving DecidableEq

/-- How `pread_exact` ends: its result, the destination, and the position and length of
    every transfer into it. -/
structure Done where
  result : Except ReadError Unit
  dst : List UInt8
  reads : List (UInt64 × Nat)

/-- A transfer of `n` bytes at `offset`, in front of what the rest of the loop does. -/
def Done.after (f : File) (offset : UInt64) (n : Nat) (r : Done) : Done where
  result := r.result
  dst := bytes f offset.toNat n ++ r.dst
  reads := (offset, n) :: r.reads

section Loops

variable {f : File} (K : Kernel f)

/-- `pread_some`, from call `k` on: what it returns and the number of the next call. -/
def preadSome (len : Nat) (offset : UInt64) : Nat → Nat → Option (Except Nat Nat × Nat)
  | 0, _ => none
  | fuel + 1, k =>
    match K.call k len offset.toInt64.toInt with
    | .failed errno =>
      if errno = eintr then preadSome len offset fuel (k + 1)
      else some (.error errno, k + 1)
    | .transferred n => some (.ok n, k + 1)

/-- `pread_exact`, from call `k` on. -/
def preadExact : Nat → Nat → List UInt8 → UInt64 → Option Done
  | 0, _, _, _ => none
  | fuel + 1, k, dst, offset =>
    if dst = [] then some ⟨.ok (), [], []⟩
    else
      match preadSome K dst.length offset fuel k with
      | none => none
      | some (.error errno, _) => some ⟨.error (.os errno), dst, []⟩
      | some (.ok n, k') =>
        if n = 0 then some ⟨.error .unexpectedEof, dst, []⟩
        else (preadExact fuel k' (dst.drop n) (offset + UInt64.ofNat n)).map
          (Done.after f offset n)

/-! ## `pread_some` returns -/

/-- What `pread_some` returns was reported by a call that was not interrupted. -/
def Reported (len : Nat) (offset : UInt64) : Except Nat Nat → Prop
  | .error errno => errno ≠ eintr ∧ ∃ j, K.call j len offset.toInt64.toInt = .failed errno
  | .ok n => ∃ j, K.call j len offset.toInt64.toInt = .transferred n

variable {K}

variable {len fuel k fuel' n : Nat} {offset : UInt64} {dst : List UInt8} {r : Done}

theorem preadSome_mono {r : Except Nat Nat × Nat} (h : preadSome K len offset fuel k = some r)
    (hle : fuel ≤ fuel') : preadSome K len offset fuel' k = some r := by
  induction fuel generalizing k fuel' with
  | zero => cases h
  | succ fuel ih =>
    obtain ⟨fuel', rfl⟩ : ∃ m, fuel' = m + 1 := ⟨fuel' - 1, by omega⟩
    rw [preadSome] at h ⊢
    cases hc : K.call k len offset.toInt64.toInt with
    | transferred n => rw [hc] at h; exact h
    | failed errno =>
      rw [hc] at h
      dsimp only at h ⊢
      by_cases he : errno = eintr
      · rw [if_pos he] at h ⊢
        exact ih h (by omega)
      · rw [if_neg he] at h ⊢
        exact h

theorem preadSome_reported {r : Except Nat Nat × Nat} (h : preadSome K len offset fuel k = some r) :
    Reported K len offset r.1 := by
  induction fuel generalizing k with
  | zero => cases h
  | succ fuel ih =>
    rw [preadSome] at h
    cases hc : K.call k len offset.toInt64.toInt with
    | transferred n =>
      rw [hc] at h
      cases h
      exact ⟨k, hc⟩
    | failed errno =>
      rw [hc] at h
      dsimp only at h
      by_cases he : errno = eintr
      · rw [if_pos he] at h
        exact ih h
      · rw [if_neg he] at h
        cases h
        exact ⟨he, k, hc⟩

/-- **INTERRUPTIONS END.**  The inner loop returns. -/
theorem preadSome_returns (len : Nat) (offset : UInt64) (k : Nat) :
    ∃ fuel r, preadSome K len offset fuel k = some r := by
  obtain ⟨j, hj, hne⟩ := K.resumes k len offset.toInt64.toInt
  -- by induction on the distance to the call that is not interrupted
  obtain ⟨d, rfl⟩ := Nat.exists_eq_add_of_le hj
  induction d generalizing k with
  | zero =>
    refine ⟨1, ?_⟩
    rw [preadSome]
    cases hc : K.call k len offset.toInt64.toInt with
    | transferred n => exact ⟨_, rfl⟩
    | failed errno =>
      have he : errno ≠ eintr := by
        rintro rfl
        exact hne hc
      dsimp only
      rw [if_neg he]
      exact ⟨_, rfl⟩
  | succ d ih =>
    have hne' : K.call (k + 1 + d) len offset.toInt64.toInt ≠ .failed eintr := by
      rwa [Nat.add_assoc, Nat.add_comm 1 d]
    obtain ⟨fuel, r, hr⟩ := ih (k + 1) (by omega) hne'
    refine ⟨fuel + 1, ?_⟩
    rw [preadSome]
    cases hc : K.call k len offset.toInt64.toInt with
    | transferred n => exact ⟨_, rfl⟩
    | failed errno =>
      dsimp only
      split
      · exact ⟨r, hr⟩
      · exact ⟨_, rfl⟩

/-! ## Positions -/

/-- The file positions of the transfers, in order. -/
def positions (reads : List (UInt64 × Nat)) : List Nat :=
  reads.flatMap fun t => (List.range t.2).map (t.1.toNat + ·)

theorem positions_cons (offset : UInt64) (n : Nat) (reads : List (UInt64 × Nat)) :
    positions ((offset, n) :: reads)
      = (List.range n).map (offset.toNat + ·) ++ positions reads :=
  flatMap_cons ..

/-- A position that a call accepts is the offset itself. -/
theorem toInt_of_nonneg (h : 0 ≤ offset.toInt64.toInt) : offset.toInt64.toInt = offset.toNat := by
  have hcast : offset.toInt64.toInt = offset.toBitVec.toInt := rfl
  have hnat : offset.toBitVec.toNat = offset.toNat := rfl
  have hlt := offset.toNat_lt
  rw [hcast, BitVec.toInt_eq_toNat_cond] at h ⊢
  split at h
  · rename_i hsmall
    rw [if_pos hsmall, hnat]
  · omega

/-- A transfer stays inside the file, and the offset moves on without wrapping. -/
theorem transferred_bounds (hlen : 0 < len) (h : Reported K len offset (.ok n)) :
    n ≤ len ∧ n ≤ f.size - offset.toNat ∧ (n = 0 → f.size ≤ offset.toNat)
      ∧ (offset + UInt64.ofNat n).toNat = offset.toNat + n := by
  obtain ⟨j, hj⟩ := h
  have hlegal := K.legal j len offset.toInt64.toInt hlen
  rw [hj] at hlegal
  obtain ⟨hpos, hle, hsize, hend, hzero⟩ := hlegal
  rw [toInt_of_nonneg hpos] at hsize hend hzero
  rw [Int.toNat_natCast] at hsize hend hzero
  refine ⟨hle, hsize, hzero, ?_⟩
  have hn : n % 2 ^ 64 = n := Nat.mod_eq_of_lt (by omega)
  rw [UInt64.toNat_add, UInt64.toNat_ofNat', hn]
  exact Nat.mod_eq_of_lt (by omega)

/-! ## `pread_exact` -/

/-- The first `filled` bytes of the destination are those of the file from `offset` on,
    each read once and in order; the others are as before. -/
structure Exact (f : File) (dst : List UInt8) (offset : UInt64) (filled : Nat) (r : Done) :
    Prop where
  le : filled ≤ dst.length
  inside : 0 < filled → offset.toNat + filled ≤ f.size
  content : r.dst = bytes f offset.toNat filled ++ dst.drop filled
  order : positions r.reads = (List.range filled).map (offset.toNat + ·)
  ok_iff : r.result = .ok () ↔ filled = dst.length

/-- A loop that stops before its first transfer. -/
theorem exact_error (hdst : dst ≠ []) (offset : UInt64) (e : ReadError) :
    Exact f dst offset 0 ⟨.error e, dst, []⟩ where
  le := Nat.zero_le _
  inside := fun h => absurd h (Nat.lt_irrefl 0)
  content := rfl
  order := rfl
  ok_iff := by
    constructor
    · intro h; cases h
    · intro h; exact absurd (length_eq_zero_iff.mp h.symm) hdst

/-- **ONE TRANSFER** in front of a loop that is exact on the rest. -/
theorem Exact.after {m : Nat} (hn : n ≤ dst.length) (hsize : offset.toNat + n ≤ f.size)
    (hoff : (offset + UInt64.ofNat n).toNat = offset.toNat + n)
    (h : Exact f (dst.drop n) (offset + UInt64.ofNat n) m r) :
    Exact f dst offset (n + m) (r.after f offset n) := by
  obtain ⟨hle, hin, hbytes, horder, hok⟩ := h
  rw [length_drop] at hle hok
  rw [hoff] at hin hbytes horder
  have hrange : (List.range (n + m)).map (offset.toNat + ·)
      = (List.range n).map (offset.toNat + ·) ++ (List.range m).map (offset.toNat + n + ·) := by
    simp [range_add, Nat.add_assoc]
  refine ⟨by omega, ?_, ?_, ?_, ?_⟩
  · intro _
    by_cases hm : 0 < m
    · have := hin hm
      omega
    · omega
  · show bytes f offset.toNat n ++ r.dst = _
    rw [hbytes, drop_drop, ← append_assoc]
    congr 1
    simp [bytes, range_add, Nat.add_assoc]
  · show positions ((offset, n) :: r.reads) = _
    rw [positions_cons, horder, hrange]
  · show r.result = .ok () ↔ n + m = dst.length
    rw [hok]
    omega

/-- More calls do not change a result. -/
theorem preadExact_mono (h : preadExact K fuel k dst offset = some r) (hle : fuel ≤ fuel') :
    preadExact K fuel' k dst offset = some r := by
  induction fuel generalizing fuel' k dst offset r with
  | zero => cases h
  | succ fuel ih =>
    obtain ⟨fuel', rfl⟩ : ∃ m, fuel' = m + 1 := ⟨fuel' - 1, by omega⟩
    rw [preadExact] at h ⊢
    by_cases hdst : dst = []
    · rw [if_pos hdst] at h ⊢
      exact h
    · rw [if_neg hdst] at h ⊢
      cases hsome : preadSome K dst.length offset fuel k with
      | none => rw [hsome] at h; cases h
      | some q =>
        rw [hsome] at h
        rw [preadSome_mono hsome (by omega)]
        obtain ⟨res, k'⟩ := q
        cases res with
        | error errno => exact h
        | ok n =>
          dsimp only at h ⊢
          by_cases hn : n = 0
          · rw [if_pos hn] at h ⊢
            exact h
          · rw [if_neg hn] at h ⊢
            obtain ⟨r', hr', rfl⟩ := map_eq_some_iff.mp h
            rw [ih hr' (by omega)]
            rfl

/-- The loop returns, and what it has done is exact. -/
theorem preadExact_returns (K : Kernel f) (k : Nat) (dst : List UInt8) (offset : UInt64) :
    ∃ fuel r filled, preadExact K fuel k dst offset = some r ∧ Exact f dst offset filled r := by
  -- every transfer makes the slice shorter
  induction hlen : dst.length using Nat.strong_induction_on generalizing k dst offset with
  | _ len ih =>
    subst hlen
    by_cases hdst : dst = []
    · subst hdst
      exact ⟨1, ⟨.ok (), [], []⟩, 0, rfl, Nat.le_refl 0, fun h => absurd h (Nat.lt_irrefl 0),
        rfl, rfl, by simp⟩
    · have hpos : 0 < dst.length := length_pos_iff.mpr hdst
      obtain ⟨fuel, ⟨res, k'⟩, hsome⟩ := preadSome_returns (K := K) dst.length offset k
      have hrep := preadSome_reported hsome
      cases res with
      | error errno =>
        refine ⟨fuel + 1, _, 0, ?_, exact_error hdst offset (.os errno)⟩
        rw [preadExact, if_neg hdst, hsome]
      | ok n =>
        obtain ⟨hn, hsize, _, hoff⟩ := transferred_bounds hpos hrep
        by_cases hzero : n = 0
        · refine ⟨fuel + 1, _, 0, ?_, exact_error hdst offset .unexpectedEof⟩
          rw [preadExact, if_neg hdst, hsome]
          exact if_pos hzero
        · obtain ⟨fuel', r, m, hr, hexact⟩ :=
            ih (dst.drop n).length (by rw [length_drop]; omega) k' (dst.drop n)
              (offset + UInt64.ofNat n) rfl
          refine ⟨max fuel fuel' + 1, r.after f offset n, n + m, ?_,
            hexact.after hn (by omega) hoff⟩
          rw [preadExact, if_neg hdst, preadSome_mono hsome (Nat.le_max_left _ _)]
          dsimp only
          rw [if_neg hzero, preadExact_mono hr (Nat.le_max_right _ _)]
          rfl

/-- Why `pread_exact` of `len` bytes fails: a call reported an error other than `EINTR`, or the
    file ends too early. -/
def HasCause (K : Kernel f) (len : Nat) (offset : UInt64) (e : ReadError) : Prop :=
  (∃ errno j n pos, e = .os errno ∧ errno ≠ eintr ∧ K.call j n pos = .failed errno)
    ∨ e = .unexpectedEof ∧ f.size < offset.toNat + len

/-- Every error has a cause. -/
theorem preadExact_error (h : preadExact K fuel k dst offset = some r) {e : ReadError}
    (he : r.result = .error e) : HasCause K dst.length offset e := by
  induction fuel generalizing k dst offset r with
  | zero => cases h
  | succ fuel ih =>
    rw [preadExact] at h
    by_cases hdst : dst = []
    · rw [if_pos hdst] at h
      cases h
      cases he
    · have hpos : 0 < dst.length := length_pos_iff.mpr hdst
      rw [if_neg hdst] at h
      cases hsome : preadSome K dst.length offset fuel k with
      | none => rw [hsome] at h; cases h
      | some q =>
        rw [hsome] at h
        have hrep := preadSome_reported hsome
        obtain ⟨res, k'⟩ := q
        cases res with
        | error errno =>
          cases h
          cases he
          obtain ⟨hne, j, hj⟩ := hrep
          exact .inl ⟨errno, j, _, _, rfl, hne, hj⟩
        | ok n =>
          obtain ⟨hn, _, hzero, hoff⟩ := transferred_bounds hpos hrep
          dsimp only at h
          split at h
          · rename_i hn0
            cases h
            cases he
            have := hzero hn0
            exact .inr ⟨rfl, by omega⟩
          · obtain ⟨r', hr', rfl⟩ := map_eq_some_iff.mp h
            have := ih hr' he
            rw [HasCause, hoff, length_drop] at this
            rcases this with hos | ⟨heof, hlt⟩
            · exact .inl hos
            · exact .inr ⟨heof, by omega⟩

/-- **EXACT OR AN ERROR.**  However the kernel answers, `pread_exact` returns.  It has
    filled a first part of the destination with the bytes of the file, each read once
    and in order; it succeeds exactly if that part is all of it, which a file that ends
    early cannot give; and every error has a cause. -/
theorem pread_exact_exact (K : Kernel f) {dst : List UInt8} (hdst : dst ≠ [])
    (offset : UInt64) :
    ∃ fuel r filled, (∀ n, fuel ≤ n → preadExact K n 0 dst offset = some r)
      ∧ Exact f dst offset filled r
      ∧ (f.size < offset.toNat + dst.length → r.result ≠ .ok ())
      ∧ ∀ e, r.result = .error e → HasCause K dst.length offset e := by
  obtain ⟨fuel, r, filled, hr, hexact⟩ := preadExact_returns K 0 dst offset
  refine ⟨fuel, r, filled, fun n hn => preadExact_mono hr hn, hexact, ?_,
    fun e he => preadExact_error hr he⟩
  intro hshort hok
  have hall := hexact.ok_iff.mp hok
  have hpos : 0 < dst.length := length_pos_iff.mpr hdst
  have hin := hexact.inside (by omega)
  omega

end Loops

/-- A kernel that interrupts the first call and then transfers one byte at a time. -/
def byteAtATime (f : File) : Kernel f where
  call k _ pos :=
    if k = 0 then .failed eintr
    else if pos < 0 ∨ 2 ^ 63 ≤ pos.toNat + 1 then .failed 22
    else .transferred (min 1 (f.size - pos.toNat))
  legal := by
    intro k len pos hlen
    split
    · trivial
    · split
      · trivial
      · refine ⟨?_, ?_, ?_, ?_, ?_⟩ <;> omega
  resumes := by
    intro k len pos
    refine ⟨k + 1, by omega, ?_⟩
    rw [if_neg (by omega)]
    split
    · decide
    · exact fun h => by cases h

/-- A file of three bytes. -/
def threeBytes : File := pwrite SparseFile.empty 0 [7, 8, 9]

/-- Two bytes from offset 1, after an interruption. -/
theorem two_bytes_exact :
    ([0, 0] : List UInt8) ≠ []
      ∧ ∃ fuel r filled,
        (∀ n, fuel ≤ n → preadExact (byteAtATime threeBytes) n 0 [0, 0] 1 = some r)
        ∧ Exact threeBytes [0, 0] 1 filled r
        ∧ (threeBytes.size < (1 : UInt64).toNat + ([0, 0] : List UInt8).length → r.result ≠ .ok ())
        ∧ ∀ e, r.result = .error e → HasCause (byteAtATime threeBytes) 2 1 e :=
  ⟨by decide, pread_exact_exact (byteAtATime threeBytes) (by decide) 1⟩

example : (preadExact (byteAtATime threeBytes) 4 0 [0, 0] 1).map Done.dst = some [8, 9] := by
  decide


end PreadExact
