import DemoStore.SplitSnapshotProofs

/-! # Three readings of one page store

    `write_page_to_slot` fills `pages.bin`, the driver's fault handler probes it, and
    the tool `query_snapshot` probes it once more.  Each has its own copy of the
    linear probing loop.

    `Agrees` compares the driver's loop with the tool's on any file of whole slots:
    they stop at the same slot and for the same reason.  `StoreInv` then says what a
    sequence of calls of the writer leaves behind, whichever of them return `-1`: the
    hashes stored are those of the calls that returned `0`, each with the page it was
    written with. -/

namespace PageQuery

open SparseFile PageStore ProbeTable SplitSnapshot List

/-! ## The query tool -/

/-- How `lookup_page_by_hash` ends, with `slot_out` and `probes_out`. -/
inductive Query where
  | cannotOpen
  | notFound (slot probes : Nat)
  | found (slot probes : Nat)
  | maxProbes (slot probes : Nat)
  deriving DecidableEq

/-- The return value. -/
def Query.code : Query → Int
  | .cannotOpen => -1
  | .notFound _ _ => 0
  | .found _ _ => 1
  | .maxProbes _ _ => -2

/-- The probes of `lookup_page_by_hash`. -/
def lookupLoop (hashIdx : UInt64) (f : File) : Nat → Nat → Nat → Query
  | 0, probe, fileIndex => .maxProbes fileIndex probe
  | n + 1, probe, fileIndex =>
    let header := pread f (fileIndex * slotSize) headerSize
    if header.length < headerSize then .notFound fileIndex probe
    else if word64 header = hashIdx then .found fileIndex probe
    else if word64 header = 0 then .notFound fileIndex probe
    else lookupLoop hashIdx f n (probe + 1) ((fileIndex + 1) % hashModulus)

/-- `lookup_page_by_hash`; `pages` is what `open` gives. -/
def lookupPageByHash (pages : Option File) (hashIdx : UInt64) : Query :=
  match pages with
  | none => .cannotOpen
  | some f => lookupLoop hashIdx f maxProbeCount 0 (hashIdx.toNat % hashModulus)

/-! ## The driver's slot -/

/-- The driver with its default modulus and probe count, on the pages file. -/
def driverProbe (f : File) (h : UInt64) : Nat × Load :=
  probeSlot (pread f) hashModulus h maxProbeCount (h.toNat % hashModulus)

/-! ## Driver and tool -/

/-- The driver and the tool stop at one slot, for the same reason.  At the end of the
    file the driver reports an unreadable header, the tool an empty slot. -/
inductive Agrees (h : UInt64) (f : File) : Nat × Load → Query → Prop where
  | found (slot probes : Nat) (hdr : headerAt f slot = h) :
      Agrees h f (slot, .found (dataAt f slot)) (.found slot probes)
  | free (slot probes : Nat) (load : Load) (hdr : headerAt f slot = 0)
      (hload : load = .headerUnreadable ∨ load = .notFound) :
      Agrees h f (slot, load) (.notFound slot probes)
  | full (slot probes : Nat) : Agrees h f (slot, .maxProbes) (.maxProbes slot probes)

variable {data : List UInt8}

section Agreement

variable {f : File} {h : UInt64}

/-- A header that is there in full belongs to a slot that is there in full. -/
theorem pread_slot (hf : WholeSlots f) {i : Nat}
    (hlen : (pread f (i * slotSize) 8).length = 8) :
    pread f (i * slotSize) 8 = bytes f (i * slotSize) headerSize
      ∧ pread f (i * slotSize + 8) pageSize = dataAt f i := by
  rw [length_pread] at hlen
  obtain ⟨c, hc⟩ := hf
  have hs : slotSize = 8 + pageSize := slotSize_eq
  have hlt : i < c := by
    by_contra hge
    have : slotSize * c ≤ slotSize * i := Nat.mul_le_mul_left _ (by omega)
    rw [Nat.mul_comm i] at hlen
    omega
  have hin : slotSize * (i + 1) ≤ slotSize * c := Nat.mul_le_mul_left _ hlt
  rw [Nat.mul_add, Nat.mul_one, Nat.mul_comm slotSize i] at hin
  exact ⟨pread_of_le (by omega), pread_of_le (by omega)⟩

theorem agrees_loops (hf : WholeSlots f) (n probe i : Nat) :
    Agrees h f (probeSlot (pread f) hashModulus h n i) (lookupLoop h f n probe i) := by
  induction n generalizing probe i with
  | zero => exact .full i probe
  | succ n ih =>
    rw [probeSlot, lookupLoop]
    dsimp only
    rw [show headerSize = 8 from rfl]
    by_cases hlen : (pread f (i * slotSize) 8).length = 8
    · obtain ⟨hhdr, hdata⟩ := pread_slot hf hlen
      have hword : word64 (pread f (i * slotSize) 8) = headerAt f i := by rw [hhdr]; rfl
      have hlong : ¬ (pread f (i * slotSize) 8).length < 8 := by omega
      rw [if_neg (not_not.mpr hlen), if_neg hlong, hword, hdata]
      by_cases heq : headerAt f i = h
      · have hfull : (dataAt f i).length = pageSize := length_bytes ..
        rw [if_pos heq, if_pos heq, if_neg (not_not.mpr hfull)]
        exact .found i probe heq
      · rw [if_neg heq, if_neg heq]
        by_cases hz : headerAt f i = 0
        · rw [if_pos hz, if_pos hz]
          exact .free i probe _ hz (.inr rfl)
        · rw [if_neg hz, if_neg hz]
          exact ih (probe + 1) _
    · have hshort : (pread f (i * slotSize) 8).length < 8 := by
        rw [length_pread] at hlen ⊢
        omega
      rw [if_pos hlen, if_pos hshort]
      refine .free i probe _ (headerAt_of_short hf ?_) (.inl rfl)
      rw [length_pread] at hshort
      show f.size < i * slotSize + 8
      omega

/-- **DRIVER AND TOOL AGREE** on every file of whole slots and every hash. -/
theorem agrees_driver (hf : WholeSlots f) (h : UInt64) :
    Agrees h f (driverProbe f h) (lookupPageByHash (some f) h) :=
  agrees_loops hf maxProbeCount 0 (h.toNat % hashModulus)

/-- Both find the hash in one slot, and the driver reads this page there. -/
def ReportFound (f : File) (h : UInt64) (data : List UInt8) : Prop :=
  ∃ slot probes, headerAt f slot = h ∧ driverProbe f h = (slot, .found data)
    ∧ lookupPageByHash (some f) h = .found slot probes

/-- The driver ends with `VM_FAULT_SIGBUS` before any page is read, and the tool with
    one of its `NOT_FOUND` results. -/
def ReportMissing (f : File) (h : UInt64) : Prop :=
  ((driverProbe f h).2 = .headerUnreadable ∨ (driverProbe f h).2 = .notFound
      ∨ (driverProbe f h).2 = .maxProbes)
    ∧ ((lookupPageByHash (some f) h).code = 0 ∨ (lookupPageByHash (some f) h).code = -2)

theorem reportFound_iff (hf : WholeSlots f) :
    ReportFound f h data ↔ (driverProbe f h).2 = .found data := by
  constructor
  · rintro ⟨slot, probes, -, hdriver, -⟩
    rw [hdriver]
  · intro hdriver
    have hagree := agrees_driver hf h
    revert hdriver hagree
    rw [ReportFound]
    generalize driverProbe f h = d
    generalize lookupPageByHash (some f) h = q
    intro hdriver hagree
    cases hagree with
    | found slot probes hdr =>
      obtain rfl := Load.found.inj hdriver
      exact ⟨slot, probes, hdr, rfl, rfl⟩
    | free slot probes load hdr hload =>
      dsimp only at hdriver
      rcases hload with rfl | rfl <;> cases hdriver
    | full slot probes => cases hdriver

theorem reportMissing_of_not_found (hf : WholeSlots f)
    (hno : ∀ data, (driverProbe f h).2 ≠ .found data) : ReportMissing f h := by
  have hagree := agrees_driver hf h
  revert hno hagree
  rw [ReportMissing]
  generalize driverProbe f h = d
  generalize lookupPageByHash (some f) h = q
  intro hno hagree
  cases hagree with
  | found slot probes hdr => exact absurd rfl (hno _)
  | free slot probes load hdr hload =>
    exact ⟨hload.elim .inl fun hl => .inr (.inl hl), .inl rfl⟩
  | full slot probes => exact ⟨.inr (.inr rfl), .inr rfl⟩

end Agreement

/-! ## Sequences of calls -/

/-- A call of `write_page_to_slot`: whether its `open` succeeds, and its arguments. -/
structure Call where
  opened : Bool
  hashIdx : UInt64
  data : List UInt8
  whole : data.length = pageSize

/-- `write_page_to_slot` with these arguments. -/
def Call.run (c : Call) (pages : Option File) : Int × Option File :=
  writePageToSlot c.opened pages c.hashIdx c.data

/-- `pages.bin` after the calls. -/
def pagesAfter (calls : List Call) (pages : Option File) : Option File :=
  calls.foldl (fun p c => (c.run p).2) pages

/-- A call of the sequence that returned `r`. -/
def Returned (calls : List Call) (pages : Option File) (c : Call) (r : Int) : Prop :=
  ∃ before rest, calls = before ++ c :: rest ∧ (c.run (pagesAfter before pages)).1 = r

/-- Equal hashes carry equal data. -/
def SameData (calls : List Call) : Prop :=
  ∀ c ∈ calls, ∀ d ∈ calls, c.hashIdx = d.hashIdx → c.data = d.data

theorem pagesAfter_snoc (calls : List Call) (c : Call) (pages : Option File) :
    pagesAfter (calls ++ [c]) pages = (c.run (pagesAfter calls pages)).2 :=
  foldl_append ..

variable {c : Call} {f : File} {calls : List Call} {pages : Option File} {r : Int}

theorem mem_of_returned (h : Returned calls pages c r) : c ∈ calls := by
  obtain ⟨before, rest, rfl, -⟩ := h
  exact mem_append_right _ mem_cons_self

theorem returned_snoc {x : Call} :
    Returned (calls ++ [c]) pages x r
      ↔ Returned calls pages x r ∨ (x = c ∧ (c.run (pagesAfter calls pages)).1 = r) := by
  constructor
  · rintro ⟨before, rest, heq, hr⟩
    -- the call is the last one, or it lies before
    rcases eq_nil_or_concat rest with rfl | ⟨rest', y, rfl⟩
    · obtain ⟨rfl, hc⟩ := List.append_inj' heq rfl
      cases hc
      exact .inr ⟨rfl, hr⟩
    · rw [concat_eq_append, ← cons_append, ← append_assoc] at heq
      obtain ⟨rfl, -⟩ := List.append_inj' heq rfl
      exact .inl ⟨before, rest', rfl, hr⟩
  · rintro (⟨before, rest, rfl, hr⟩ | ⟨rfl, hr⟩)
    · exact ⟨before, rest ++ [c], by simp, hr⟩
    · exact ⟨calls, [], rfl, hr⟩

/-! ## What the calls leave behind -/

section Calls

variable {pages : Option File} {calls : List Call}

theorem run_closed (hopen : c.opened = false) : c.run pages = (-1, pages) := by
  rw [Call.run, hopen]
  rfl

/-- The state of the store after the calls. -/
structure StoreInv (calls : List Call) (pages : Option File) (f : File) : Prop where
  file : (pagesAfter calls pages).getD SparseFile.empty = f
  whole : WholeSlots f
  layout : Layout home maxProbeCount (tableOf f)
  content : ∀ t x, tableOf f t = some x → ∃ c ∈ calls, c.hashIdx = x ∧ dataAt f t.val = c.data
  stored : ∀ x, Stored (tableOf f) x ↔ ∃ c, c.hashIdx = x ∧ Returned calls pages c 0

/-- An absent file or one without bytes. -/
def NoPages (pages : Option File) : Prop := pages.getD SparseFile.empty = SparseFile.empty

theorem storeInv_nil (hstart : NoPages pages) : StoreInv [] pages SparseFile.empty where
  file := hstart
  whole := wholeSlots_empty
  layout := by
    rw [tableOf_empty]
    exact layout_empty
  content t x hx := by
    rw [tableOf_empty] at hx
    cases hx
  stored x := by
    rw [tableOf_empty]
    constructor
    · rintro ⟨s, hs⟩
      cases hs
    · rintro ⟨c, -, hc⟩
      cases mem_of_returned hc

/-- A call that cannot open the file changes nothing and does not return `0`. -/
theorem storeInv_closed (h : StoreInv calls pages f) (hopen : c.opened = false) :
    StoreInv (calls ++ [c]) pages f where
  file := by
    rw [pagesAfter_snoc, run_closed hopen]
    exact h.file
  whole := h.whole
  layout := h.layout
  content t x hx := by
    obtain ⟨d, hd, hdx⟩ := h.content t x hx
    exact ⟨d, mem_append_left _ hd, hdx⟩
  stored x := by
    rw [h.stored]
    refine exists_congr fun d => and_congr_right fun _ => ?_
    rw [returned_snoc]
    refine ⟨.inl, fun hd => hd.resolve_right ?_⟩
    rintro ⟨rfl, hzero⟩
    rw [run_closed hopen] at hzero
    cases hzero

/-- A call that can open the file inserts its hash; nothing leaves its slot. -/
theorem storeInv_opened (h : StoreInv calls pages f) (hopen : c.opened = true)
    (hc : c.hashIdx ≠ 0) :
    ∃ f', StoreInv (calls ++ [c]) pages f'
      ∧ ∀ t x, tableOf f t = some x → tableOf f' t = some x := by
  obtain ⟨f', hf', hwhole', htable', hdata'⟩ := writePageToSlot_spec h.file h.whole hc c.whole
  have hret : (c.run (pagesAfter calls pages)).1
      = if search (tableOf f) c.hashIdx maxProbeCount (home c.hashIdx) = none
        then -1 else 0 := by
    rw [Call.run, hopen]
    exact writePageToSlot_ret h.file h.whole
  refine ⟨f', ⟨?_, hwhole', ?_, fun t x hx => ?_, fun x => ?_⟩, fun t x hx => ?_⟩
  · rw [pagesAfter_snoc, Call.run, hopen, hf']
    rfl
  · rw [htable']
    exact h.layout.insert (by decide)
  · rcases hdata' t x hx with ⟨hold, hd⟩ | ⟨rfl, hd⟩
    · obtain ⟨d, hmem, hdx, hcont⟩ := h.content t x hold
      exact ⟨d, mem_append_left _ hmem, hdx, hd.trans hcont⟩
    · exact ⟨c, mem_append_right _ mem_cons_self, rfl, hd⟩
  · rw [htable', stored_insert_iff, h.stored]
    constructor
    · rintro (⟨d, hdx, hd⟩ | ⟨rfl, hfound⟩)
      · exact ⟨d, hdx, returned_snoc.mpr (.inl hd)⟩
      · exact ⟨c, rfl, returned_snoc.mpr (.inr ⟨rfl, by rw [hret, if_neg hfound]⟩)⟩
    · rintro ⟨d, rfl, hd⟩
      rcases returned_snoc.mp hd with hold | ⟨rfl, hzero⟩
      · exact .inl ⟨d, rfl, hold⟩
      · refine .inr ⟨rfl, fun hnone => ?_⟩
        rw [hret, if_pos hnone] at hzero
        cases hzero
  · rw [htable']
    exact insert_keeps hx

/-- More calls keep the invariant, and every slot keeps the hash it has. -/
theorem storeInv_append (h : StoreInv calls pages f) (rest : List Call)
    (hne : ∀ c ∈ rest, c.hashIdx ≠ 0) :
    ∃ f', StoreInv (calls ++ rest) pages f'
      ∧ ∀ t x, tableOf f t = some x → tableOf f' t = some x := by
  induction rest generalizing calls f with
  | nil => exact ⟨f, by rwa [append_nil], fun _ _ hx => hx⟩
  | cons c rest ih =>
    have hone : ∃ f₁, StoreInv (calls ++ [c]) pages f₁
        ∧ ∀ t x, tableOf f t = some x → tableOf f₁ t = some x := by
      cases hopen : c.opened with
      | false => exact ⟨f, storeInv_closed h hopen, fun _ _ hx => hx⟩
      | true => exact storeInv_opened h hopen (hne c mem_cons_self)
    obtain ⟨f₁, h₁, hkeep₁⟩ := hone
    obtain ⟨f', h', hkeep'⟩ := ih h₁ fun d hd => hne d (mem_cons_of_mem c hd)
    rw [append_assoc] at h'
    exact ⟨f', h', fun t x hx => hkeep' t x (hkeep₁ t x hx)⟩

theorem storeInv_calls (hstart : NoPages pages) (calls : List Call)
    (hne : ∀ c ∈ calls, c.hashIdx ≠ 0) : ∃ f, StoreInv calls pages f := by
  obtain ⟨f, h, -⟩ := storeInv_append (storeInv_nil hstart) calls hne
  exact ⟨f, h⟩

/-! ## What is found -/

variable {f : File}

variable {x : UInt64}

/-- What the driver finds after the calls. -/
theorem found_iff (h : StoreInv calls pages f) (hx : x ≠ 0) :
    (driverProbe f x).2 = .found data ↔ ∃ t, tableOf f t = some x ∧ dataAt f t.val = data := by
  have hi : x.toNat % hashModulus < hashModulus := Nat.mod_lt _ (by decide)
  rw [driverProbe, ← probePages, probePages_eq_found h.whole hx _ _ hi, cast_home]
  constructor
  · rintro ⟨t, -, ht, hd⟩
    exact ⟨t, ht, hd⟩
  · rintro ⟨t, ht, hd⟩
    exact ⟨t, h.layout.search_stored ht, ht, hd⟩

theorem found_returned (h : StoreInv calls pages f) (hsame : SameData calls)
    (hc : Returned calls pages c 0) (hne : c.hashIdx ≠ 0) : ReportFound f c.hashIdx c.data := by
  rw [reportFound_iff h.whole, found_iff h hne]
  obtain ⟨t, ht⟩ := (h.stored c.hashIdx).mpr ⟨c, rfl, hc⟩
  obtain ⟨d, hd, hdx, hdata⟩ := h.content t _ ht
  exact ⟨t, ht, hdata.trans (hsame d hd c (mem_of_returned hc) hdx)⟩

theorem missing_not_returned (h : StoreInv calls pages f) (hx : x ≠ 0)
    (hno : ∀ c, Returned calls pages c 0 → c.hashIdx ≠ x) : ReportMissing f x := by
  refine reportMissing_of_not_found h.whole fun data hfound => ?_
  obtain ⟨t, ht, -⟩ := (found_iff h hx).mp hfound
  obtain ⟨c, hcx, hc⟩ := (h.stored x).mp ⟨t, ht⟩
  exact hno c hc hcx

/-- The slot a probe visits. -/
theorem val_probe (x : UInt64) (d : Nat) :
    (home x + (d : Nat) : ZMod hashModulus).val = (x.toNat % hashModulus + d) % hashModulus := by
  rw [home, ← Nat.cast_add, ZMod.val_natCast, Nat.mod_add_mod]

/-- A call that could open the file and returns `-1` has seen other hashes only. -/
theorem full_of_failed (h : StoreInv calls pages f) (hopen : c.opened = true)
    (hret : (c.run (pagesAfter calls pages)).1 = -1) {d : Nat} (hd : d < maxProbeCount) :
    headerAt f ((c.hashIdx.toNat % hashModulus + d) % hashModulus) ≠ 0
      ∧ headerAt f ((c.hashIdx.toNat % hashModulus + d) % hashModulus) ≠ c.hashIdx := by
  rw [Call.run, hopen, writePageToSlot_ret h.file h.whole] at hret
  split at hret
  · rename_i hnone
    have hfull := search_eq_none.mp hnone d hd
    rw [← val_probe]
    have htaken : headerAt f (home c.hashIdx + (d : Nat)).val ≠ 0 :=
      fun hz => hfull (.inl (tableOf_eq_none.mpr hz))
    exact ⟨htaken, fun heq => hfull (.inr (tableOf_eq_some.mpr ⟨heq, heq ▸ htaken⟩))⟩
  · cases hret

/-- What was found before more calls is found after them. -/
theorem found_append {f' : File} {rest : List Call} (h : StoreInv calls pages f)
    (h' : StoreInv (calls ++ rest) pages f') (hsame : SameData (calls ++ rest))
    (hne : ∀ c ∈ rest, c.hashIdx ≠ 0) (hx : x ≠ 0) (hfound : ReportFound f x data) :
    ReportFound f' x data := by
  rw [reportFound_iff h.whole, found_iff h hx] at hfound
  rw [reportFound_iff h'.whole, found_iff h' hx]
  obtain ⟨t, ht, hdata⟩ := hfound
  obtain ⟨f₂, h₂, hkeep⟩ := storeInv_append h rest hne
  obtain rfl : f₂ = f' := h₂.file.symm.trans h'.file
  have ht' := hkeep t x ht
  refine ⟨t, ht', ?_⟩
  -- both pages come from calls with this hash
  obtain ⟨c, hc, hcx, hcdata⟩ := h.content t x ht
  obtain ⟨d, hd, hdx, hddata⟩ := h'.content t x ht'
  rw [hddata, ← hdata, hcdata]
  exact hsame d hd c (mem_append_left _ hc) (hdx.trans hcx.symm)

/-- A file that stores something exists. -/
theorem exists_of_stored (h : StoreInv calls pages f) (hx : Stored (tableOf f) x) :
    pagesAfter calls pages = some f := by
  have hfile := h.file
  cases hp : pagesAfter calls pages with
  | some f' =>
    rw [hp] at hfile
    exact congrArg some hfile
  | none =>
    rw [hp] at hfile
    obtain rfl : SparseFile.empty = f := hfile
    rw [tableOf_empty] at hx
    obtain ⟨s, hs⟩ := hx
    cases hs

end Calls

/-- **WRITER, DRIVER AND TOOL AGREE.**  Calls with non-zero hashes, equal data for equal
    hashes, on an absent or empty `pages.bin`.  A hash for which a call returned `0` is
    found by the driver and the tool in one slot, with the data of the call; any other
    hash but `0` is reported missing by both.  A call that opened the file returns `-1`
    only on a full run of slots, and what is found after some of the calls is found
    after all of them. -/
theorem store_readings_agree {pages : Option File} {calls : List Call}
    (hstart : NoPages pages) (hne : ∀ c ∈ calls, c.hashIdx ≠ 0) (hsame : SameData calls) :
    (∀ c, Returned calls pages c 0 →
        ∃ f, pagesAfter calls pages = some f ∧ ReportFound f c.hashIdx c.data)
      ∧ (∀ f h, pagesAfter calls pages = some f → h ≠ 0 →
        (∀ c, Returned calls pages c 0 → c.hashIdx ≠ h) → ReportMissing f h)
      ∧ (∀ before c rest, calls = before ++ c :: rest → c.opened = true →
        (c.run (pagesAfter before pages)).1 = -1 → ∀ d < 64,
          let slot := (c.hashIdx.toNat % 4096 + d) % 4096
          let f := (pagesAfter before pages).getD SparseFile.empty
          headerAt f slot ≠ 0 ∧ headerAt f slot ≠ c.hashIdx)
      ∧ ∀ before rest f h data, calls = before ++ rest → h ≠ 0 →
        pagesAfter before pages = some f → ReportFound f h data →
        ∃ f', pagesAfter calls pages = some f' ∧ ReportFound f' h data := by
  obtain ⟨f, hinv⟩ := storeInv_calls hstart calls hne
  refine ⟨fun c hc => ?_, fun f₁ h hf₁ hh hno => ?_, ?_, ?_⟩
  · have hstored := (hinv.stored c.hashIdx).mpr ⟨c, rfl, hc⟩
    exact ⟨f, exists_of_stored hinv hstored,
      found_returned hinv hsame hc (hne c (mem_of_returned hc))⟩
  · obtain rfl : f₁ = f := by rw [← hinv.file, hf₁]; rfl
    exact missing_not_returned hinv hh hno
  · rintro before c rest rfl hopen hret d hd
    obtain ⟨f₁, hinv₁⟩ := storeInv_calls hstart before fun d hd => hne d (mem_append_left _ hd)
    dsimp only
    rw [hinv₁.file]
    exact full_of_failed hinv₁ hopen hret hd
  · rintro before rest f₁ h data rfl hh hf₁ hfound
    obtain ⟨f₂, hinv₂⟩ := storeInv_calls hstart before fun d hd => hne d (mem_append_left _ hd)
    obtain rfl : f₁ = f₂ := by rw [← hinv₂.file, hf₁]; rfl
    have hlater := found_append hinv₂ hinv hsame
      (fun d hd => hne d (mem_append_right _ hd)) hh hfound
    refine ⟨f, exists_of_stored (x := h) hinv ?_, hlater⟩
    rw [reportFound_iff hinv.whole, found_iff hinv hh] at hlater
    obtain ⟨t, ht, -⟩ := hlater
    exact ⟨t, ht⟩

/-- One page of zeros under the hash 5. -/
def zeroCall : Call := ⟨true, 5, List.replicate pageSize 0, length_replicate⟩

/-- Another page whose search starts at the same slot. -/
def collidingCall : Call := ⟨true, 4101, List.replicate pageSize 1, length_replicate⟩

theorem run_zeroCall :
    zeroCall.run none = (0, some (putSlot SparseFile.empty 5 5 zeroCall.data)) := by
  have hshort : (pread SparseFile.empty (5 * slotSize) headerSize).length < headerSize := by
    rw [length_pread]
    decide
  have hloop : writeLoop 5 zeroCall.data SparseFile.empty (63 + 1) 5
      = some (putSlot SparseFile.empty 5 5 zeroCall.data) := by
    rw [writeLoop, if_pos (.inl hshort)]
  show writePageToSlot true none 5 zeroCall.data = _
  rw [writePageToSlot, if_pos rfl]
  dsimp only
  rw [show writeLoop 5 zeroCall.data ((none : Option File).getD SparseFile.empty)
    maxProbeCount ((5 : UInt64).toNat % hashModulus) = _ from hloop]

/-- A call that writes a new hash while there are fewer of them than probes. -/
theorem second_returned : Returned [zeroCall, collidingCall] none collidingCall 0 := by
  have hnone : (none : Option File).getD SparseFile.empty = SparseFile.empty := rfl
  obtain ⟨f, hf, hwhole, htable, -⟩ :=
    writePageToSlot_spec (h := 5) hnone wholeSlots_empty (by decide) zeroCall.whole
  refine ⟨[zeroCall], [], rfl, ?_⟩
  have hpages : pagesAfter [zeroCall] none = some f := hf
  rw [hpages]
  refine (writePageToSlot_ret (f := f) rfl hwhole).trans (if_neg ?_)
  rw [htable, tableOf_empty]
  have hfits : Fits home maxProbeCount ∅ ([5] ++ 4101 :: []) :=
    fits_of_card_le (by decide) (by decide)
  exact search_fill_of_fits (by decide) hfits

/-- The page in the way and the page that had to go on are both found. -/
theorem collidingCall_found :
    (∃ f, pagesAfter [zeroCall, collidingCall] none = some f
        ∧ ReportFound f 5 zeroCall.data)
      ∧ ∃ f, pagesAfter [zeroCall, collidingCall] none = some f
        ∧ ReportFound f 4101 collidingCall.data := by
  have hsame : SameData [zeroCall, collidingCall] := by
    intro c hc d hd
    simp only [mem_cons, not_mem_nil, or_false] at hc hd
    rcases hc with rfl | rfl <;> rcases hd with rfl | rfl
    all_goals first
      | exact fun _ => rfl
      | exact fun h => absurd h (by decide)
  have hne : ∀ c ∈ [zeroCall, collidingCall], c.hashIdx ≠ 0 := by
    simp only [mem_cons, not_mem_nil, or_false]
    rintro c (rfl | rfl) <;> decide
  have hstart : NoPages none := rfl
  have hfound := (store_readings_agree hstart hne hsame).1
  refine ⟨hfound zeroCall ⟨[], [collidingCall], rfl, ?_⟩, hfound collidingCall second_returned⟩
  rw [pagesAfter, foldl_nil, run_zeroCall]

/-- A search for the hash `0` takes the header of a hole for a match. -/
theorem zero_hash_found (hf : WholeSlots f) (hsize : slotSize ≤ f.size) (hhole : headerAt f 0 = 0) :
    ReportFound f 0 (dataAt f 0) := by
  have hs : slotSize = 8 + pageSize := slotSize_eq
  have hlen : (pread f (0 * slotSize) 8).length = 8 := by
    rw [length_pread]
    omega
  obtain ⟨hhdr, hdata⟩ := pread_slot hf hlen
  have hword : word64 (pread f (0 * slotSize) 8) = 0 := by rw [hhdr]; exact hhole
  have hfull : (dataAt f 0).length = pageSize := length_bytes ..
  rw [reportFound_iff hf]
  show (probeSlot (pread f) hashModulus 0 (63 + 1) 0).2 = _
  rw [probeSlot]
  dsimp only
  rw [if_neg (not_not.mpr hlen), if_pos hword, hdata, if_neg (not_not.mpr hfull)]

/-- No call was made with the hash `0`, and both find a page of zeros for it; a call whose
    `open` fails returns `-1` with every slot free; and the tool cannot open a file
    that was never written. -/
theorem zero_hash_and_failed_open :
    (∃ f, pagesAfter [zeroCall] none = some f
        ∧ (∀ c, Returned [zeroCall] none c 0 → c.hashIdx ≠ 0)
        ∧ ReportFound f 0 (List.replicate pageSize 0))
      ∧ ({ zeroCall with opened := false } : Call).run none = (-1, none)
      ∧ (lookupPageByHash (pagesAfter [] none) 5).code = -1 := by
  refine ⟨⟨_, by rw [pagesAfter, foldl_cons, run_zeroCall]; rfl, ?_, ?_⟩, rfl, rfl⟩
  · intro c hc
    rw [mem_singleton.mp (mem_of_returned hc)]
    decide
  · have hne : (0 : Nat) ≠ 5 := by decide
    have hhole : headerAt (putSlot SparseFile.empty 5 5 zeroCall.data) 0 = 0 := by
      rw [headerAt_putSlot_of_ne zeroCall.whole hne]
      exact headerAt_of_short wholeSlots_empty (Nat.lt_add_left _ (by decide))
    have hzeros : dataAt (putSlot SparseFile.empty 5 5 zeroCall.data) 0
        = List.replicate pageSize 0 := by
      rw [dataAt_putSlot_of_ne zeroCall.whole hne, dataAt]
      exact bytes_of_size_le (Nat.zero_le _)
    have hwhole := wholeSlots_putSlot (i := 5) (h := 5) wholeSlots_empty zeroCall.whole
    have htaken : headerAt (putSlot SparseFile.empty 5 5 zeroCall.data) 5 ≠ 0 := by
      rw [headerAt_putSlot_self]
      decide
    have hsize := slot_le_size hwhole htaken
    rw [← hzeros]
    refine zero_hash_found hwhole ?_ hhole
    omega

end PageQuery
