import DemoStore.FirstSeenProofs
import DemoStore.MachineRunProofs
import DemoStore.TemplateServiceProofs
import Mathlib.Data.Finset.Union
import Mathlib.Order.Interval.Finset.Nat

/-! # The metrics of the template service

    Every thread of the service records under the lock of the metrics, so what the
    metrics say depends only on the recordings and on their order; `metrics_of_run`
    gives the recordings of a run of the service.  Three counters are counted where
    they are recorded, the pages are kept in a set, and `duplicate_requests` is no
    counter: it is `page_requests` less `unique_pages`, cut off at zero.

    The design document defines the duplicate ratio by repeated page requests.  A
    request for several pages adds several to `unique_pages` and one to
    `page_requests`, so a request that is repeated later goes unnoticed:
    `metrics_describe_requests` says for which requests the difference is the number
    of repeats. -/

namespace TemplateService

open MachineRun FirstSeen List Option

/-! ## What is reported -/

namespace TemplateServiceMetrics

/-- `unique_pages`. -/
def uniquePages (m : TemplateServiceMetrics) : UInt64 :=
  UInt64.ofNat m.uniquePagesSeen.length

/-- `saturating_sub`. -/
def duplicateRequests (m : TemplateServiceMetrics) : UInt64 :=
  if m.pageRequests < m.uniquePages then 0 else m.pageRequests - m.uniquePages

end TemplateServiceMetrics

/-! ## Recordings -/

/-- The critical sections on the metrics. -/
inductive Recording where
  | connection
  | request (offset len : Nat)
  | error (offset len : Nat)

/-- The offset and the length of a failed request only go to the log. -/
def Recording.apply (m : TemplateServiceMetrics) : Recording → TemplateServiceMetrics
  | .connection => m.recordConnection
  | .request offset len => m.recordPageRequest offset len
  | .error _ _ => m.recordPageRequestError

/-- The metrics after a list of recordings. -/
def metricsAfter (pageSize : Nat) (recs : List Recording) : TemplateServiceMetrics :=
  recs.foldl Recording.apply (start pageSize).metrics

/-- The offset and the length of a request that was served. -/
def Recording.served : Recording → Option (Nat × Nat)
  | .request offset len => some (offset, len)
  | .connection | .error _ _ => none

/-- It records an error. -/
def Recording.isError : Recording → Bool
  | .error _ _ => true
  | .connection | .request _ _ => false

/-- The requests that were served, in the order of their recordings. -/
def served (recs : List Recording) : List (Nat × Nat) :=
  recs.filterMap Recording.served

/-- The file has the range of the request. -/
def Recording.Inside (file : MemoryRanges) : Recording → Prop
  | .request offset len => (seekRead file offset len).isSome = true
  | .connection | .error _ _ => True

/-! ## What the metrics are for -/

/-- The pages with a byte of the range. -/
def touched (pageSize : Nat) (range : Nat × Nat) : Finset Nat :=
  (Finset.Ico range.1 (range.1 + range.2)).image (· / pageSize)

/-- The pages of each request that was served. -/
def pagesServed (pageSize : Nat) (recs : List Recording) : List (Finset Nat) :=
  (served recs).map (touched pageSize)

/-- The counters and the set of pages, in terms of the requests and not of their
    order. -/
structure Describes (file : MemoryRanges) (recs : List Recording)
    (m : TemplateServiceMetrics) : Prop where
  requests : m.pageRequests.toNat = (served recs).length
  errors : m.requestErrors.toNat = recs.countP Recording.isError
  bytes : m.bytesServed.toNat = ((served recs).map Prod.snd).sum
  pages : m.uniquePages.toNat = ((served recs).toFinset.biUnion (touched m.pageSize)).card
  bounded : m.uniquePages.toNat ≤ (file.bytes.length + m.pageSize - 1) / m.pageSize

/-! ## One recording -/

/-- The other counters are left. -/
theorem recordUniquePages_fields (offset len : Nat) (m : TemplateServiceMetrics) :
    (m.recordUniquePages offset len).pageSize = m.pageSize
      ∧ (m.recordUniquePages offset len).pageRequests = m.pageRequests
      ∧ (m.recordUniquePages offset len).requestErrors = m.requestErrors
      ∧ (m.recordUniquePages offset len).bytesServed = m.bytesServed := by
  rw [TemplateServiceMetrics.recordUniquePages]
  split
  · exact ⟨rfl, rfl, rfl, rfl⟩
  · exact ⟨rfl, rfl, rfl, rfl⟩

theorem toFinset_foldl_insert (pages seen : List Nat) :
    (pages.foldl (fun seen page => seen.insert page) seen).toFinset
      = seen.toFinset ∪ pages.toFinset := by
  induction pages generalizing seen with
  | nil => simp
  | cons page pages ih =>
    rw [foldl_cons, ih]
    ext x
    simp only [Finset.mem_union, List.mem_toFinset, mem_insert_iff, mem_cons]
    tauto

theorem nodup_foldl_insert (pages : List Nat) {seen : List Nat} (h : seen.Nodup) :
    (pages.foldl (fun seen page => seen.insert page) seen).Nodup := by
  induction pages generalizing seen with
  | nil => exact h
  | cons page pages ih => exact ih h.insert

variable {pageSize offset len : Nat} {recs : List Recording} {file : MemoryRanges}
  {s : ServiceState} {m : TemplateServiceMetrics} {c : Connection} {a : Act} {l : ServiceLabel}

/-- The loop from the page of the first byte to the page of the last one visits the
    pages with a byte of the range. -/
theorem toFinset_range_pages (hpage : 0 < pageSize) (hlen : 0 < len) :
    (List.range' (offset / pageSize)
        ((offset + len - 1) / pageSize + 1 - offset / pageSize)).toFinset
      = touched pageSize (offset, len) := by
  have hmono : offset / pageSize ≤ (offset + len - 1) / pageSize := Nat.div_le_div_right (by omega)
  ext page
  simp only [List.mem_toFinset, List.mem_range'_1, touched, Finset.mem_image, Finset.mem_Ico]
  constructor
  · rintro ⟨hfirst, hlast⟩
    have hlast : page * pageSize ≤ offset + len - 1 := (Nat.le_div_iff_mul_le hpage).mp (by omega)
    have hfirst : offset < (page + 1) * pageSize := (Nat.div_lt_iff_lt_mul hpage).mp (by omega)
    -- the first byte of the page, or of the range if the range starts inside the page
    refine ⟨max offset (page * pageSize), by omega, ?_⟩
    rw [Nat.succ_mul] at hfirst
    exact Nat.div_eq_of_lt_le (Nat.le_max_right _ _) (by rw [Nat.succ_mul]; omega)
  · rintro ⟨byte, ⟨hle, hlt⟩, rfl⟩
    have hfirst : offset / pageSize ≤ byte / pageSize := Nat.div_le_div_right hle
    have hlast : byte / pageSize ≤ (offset + len - 1) / pageSize := Nat.div_le_div_right (by omega)
    omega

/-- The pages of the range are added. -/
theorem recordUniquePages_pages (offset len : Nat) (m : TemplateServiceMetrics)
    (hpage : 0 < m.pageSize) :
    (m.recordUniquePages offset len).uniquePagesSeen.toFinset
      = m.uniquePagesSeen.toFinset ∪ touched m.pageSize (offset, len) := by
  rw [TemplateServiceMetrics.recordUniquePages]
  by_cases hlen : len = 0
  · subst hlen
    rw [if_pos (.inl rfl)]
    simp [touched]
  · rw [if_neg (by omega)]
    dsimp only
    rw [toFinset_foldl_insert, toFinset_range_pages hpage (Nat.pos_of_ne_zero hlen)]

theorem nodup_recordUniquePages (offset len : Nat) (h : m.uniquePagesSeen.Nodup) :
    (m.recordUniquePages offset len).uniquePagesSeen.Nodup := by
  rw [TemplateServiceMetrics.recordUniquePages]
  split
  · exact h
  · exact nodup_foldl_insert _ h

/-! ## All recordings -/

/-- The recordings with the totals they have to reach. -/
structure Totals (pageSize : Nat) (recs : List Recording) (m : TemplateServiceMetrics) :
    Prop where
  size : m.pageSize = pageSize
  requests : m.pageRequests = UInt64.ofNat (served recs).length
  errors : m.requestErrors = UInt64.ofNat (recs.countP Recording.isError)
  bytes : m.bytesServed = UInt64.ofNat ((served recs).map Prod.snd).sum
  pages : m.uniquePagesSeen.toFinset = cover ∅ (pagesServed pageSize recs)
  nodup : m.uniquePagesSeen.Nodup

theorem served_append (recs : List Recording) (r : Recording) :
    served (recs ++ [r]) = served recs ++ r.served.toList := by
  rw [served, filterMap_append]
  cases r with
  | connection | request | error => rfl

theorem countP_append (recs : List Recording) (r : Recording) :
    (recs ++ [r]).countP Recording.isError
      = recs.countP Recording.isError + if r.isError then 1 else 0 := by
  rw [List.countP_append, countP_singleton]

/-- Only a request that was served changes more than the counter of its own. -/
theorem Totals.append (hpage : 0 < pageSize) (h : Totals pageSize recs m) (r : Recording) :
    Totals pageSize (recs ++ [r]) (r.apply m) := by
  obtain ⟨rfl, hreq, herr, hbytes, hpages, hnodup⟩ := h
  have hserved := served_append recs r
  have hcount := countP_append recs r
  cases r with
  | connection =>
    rw [show Recording.served .connection = none from rfl, toList_none, append_nil] at hserved
    refine ⟨rfl, ?_, ?_, ?_, ?_, hnodup⟩
    · rw [hserved]; exact hreq
    · rw [hcount]; exact herr
    · rw [hserved]; exact hbytes
    · rw [pagesServed, hserved]; exact hpages
  | error offset len =>
    rw [show Recording.served (.error offset len) = none from rfl, toList_none,
      append_nil] at hserved
    refine ⟨rfl, ?_, ?_, ?_, ?_, hnodup⟩
    · rw [hserved]; exact hreq
    · rw [hcount, UInt64.ofNat_add, ← herr]; rfl
    · rw [hserved]; exact hbytes
    · rw [pagesServed, hserved]; exact hpages
  | request offset len =>
    rw [show Recording.served (.request offset len) = some (offset, len) from rfl,
      toList_some] at hserved
    obtain ⟨hsize, hreq', herr', hbytes'⟩ := recordUniquePages_fields offset len
      { m with
        pageRequests := m.pageRequests + 1
        bytesServed := m.bytesServed + UInt64.ofNat len }
    have hunion := recordUniquePages_pages offset len
      { m with
        pageRequests := m.pageRequests + 1
        bytesServed := m.bytesServed + UInt64.ofNat len } hpage
    refine ⟨hsize, hreq'.trans ?_, herr'.trans ?_, hbytes'.trans ?_, hunion.trans ?_, ?_⟩
    · rw [hserved, length_append, UInt64.ofNat_add, ← hreq]; rfl
    · rw [hcount]; exact herr
    · rw [hserved, map_append, sum_append, UInt64.ofNat_add, ← hbytes]
      rfl
    · rw [pagesServed, hserved, map_append, cover, foldl_append]
      exact congrArg (· ∪ touched m.pageSize (offset, len)) hpages
    · exact nodup_recordUniquePages offset len hnodup

/-- The counters are those of the recordings. -/
theorem totals_metricsAfter (hpage : 0 < pageSize) (recs : List Recording) :
    Totals pageSize recs (metricsAfter pageSize recs) := by
  induction recs using List.reverseRecOn with
  | nil => exact ⟨rfl, rfl, rfl, rfl, rfl, nodup_nil⟩
  | append_singleton recs r ih =>
    rw [metricsAfter, foldl_append]
    exact ih.append hpage r

/-! ## The pages -/

/-- The pages served are those of the ranges. -/
theorem cover_pagesServed (pageSize : Nat) (recs : List Recording) :
    cover ∅ (pagesServed pageSize recs) = (served recs).toFinset.biUnion (touched pageSize) := by
  ext page
  simp [mem_cover, pagesServed]

/-- A page with a byte of the file is one of its pages, the last one perhaps partial. -/
theorem touched_subset (hpage : 0 < pageSize) {range : Nat × Nat}
    (h : (seekRead file range.1 range.2).isSome = true) :
    touched pageSize range ⊆ Finset.range ((file.bytes.length + pageSize - 1) / pageSize) := by
  intro page hmem
  obtain ⟨byte, hbyte, rfl⟩ := Finset.mem_image.mp hmem
  obtain ⟨hle, hlt⟩ := Finset.mem_Ico.mp hbyte
  rw [Finset.mem_range]
  -- the byte is inside the file
  have hin : byte < file.bytes.length := by
    rw [seekRead] at h
    split at h
    · cases h
    · split at h
      · rename_i hfits
        rw [length_drop] at hfits
        omega
      · cases h
  rw [Nat.div_lt_iff_lt_mul hpage]
  have hround := Nat.div_add_mod (file.bytes.length + pageSize - 1) pageSize
  have hrest := Nat.mod_lt (file.bytes.length + pageSize - 1) hpage
  rw [Nat.mul_comm] at hround
  omega

/-- There are no more than the file has. -/
theorem card_pages_le (hpage : 0 < pageSize)
    (hin : ∀ range ∈ served recs, (seekRead file range.1 range.2).isSome = true) :
    ((served recs).toFinset.biUnion (touched pageSize)).card
      ≤ (file.bytes.length + pageSize - 1) / pageSize := by
  rw [← Finset.card_range ((file.bytes.length + pageSize - 1) / pageSize)]
  refine Finset.card_le_card (Finset.biUnion_subset.mpr ?_)
  intro range hmem
  exact touched_subset hpage (hin range (List.mem_toFinset.mp hmem))

/-- There are fewer pages than bytes, so their number is not cut off. -/
theorem toNat_uniquePages (hpage : 0 < pageSize)
    (hin : ∀ range ∈ served recs, (seekRead file range.1 range.2).isSome = true) :
    (metricsAfter pageSize recs).uniquePages.toNat
      = (cover ∅ (pagesServed pageSize recs)).card := by
  have htotals := totals_metricsAfter hpage recs
  have hcard : (metricsAfter pageSize recs).uniquePagesSeen.length
      = (cover ∅ (pagesServed pageSize recs)).card := by
    rw [← toFinset_card_of_nodup htotals.nodup, htotals.pages]
  have hle := card_pages_le hpage hin
  rw [← cover_pagesServed] at hle
  have hpages : (file.bytes.length + pageSize - 1) / pageSize ≤ file.bytes.length := by
    rw [← Nat.lt_succ_iff, Nat.div_lt_iff_lt_mul hpage, Nat.succ_mul]
    have := Nat.le_mul_of_pos_right file.bytes.length hpage
    omega
  have hfits := file.fits
  rw [TemplateServiceMetrics.uniquePages, UInt64.toNat_ofNat', hcard]
  exact Nat.mod_eq_of_lt (by omega)

theorem toNat_duplicateRequests (m : TemplateServiceMetrics) :
    m.duplicateRequests.toNat = m.pageRequests.toNat - m.uniquePages.toNat := by
  rw [TemplateServiceMetrics.duplicateRequests]
  split
  · rename_i hlt
    have : m.pageRequests.toNat < m.uniquePages.toNat := UInt64.lt_iff_toNat_lt.mp hlt
    show 0 = _
    omega
  · rename_i hle
    exact UInt64.toNat_sub_of_le _ _ (UInt64.not_lt.mp hle)

/-! ## The recordings of a run -/

/-- What a step of the service records. -/
def recording (s : ServiceState) : ServiceLabel → Option Recording
  | .connect => none
  | .act i a =>
    s.connections[i]?.bind fun c =>
      match a, c.server with
      | .accept, _ => some .connection
      | .server _, .record offset len true => some (.request offset len)
      | .server _, .record offset len false => some (.error offset len)
      | _, _ => none

/-- A thread that answers has read the file. -/
def ServerPc.HasRead (file : MemoryRanges) : ServerPc → Prop
  | .writing _ offset len ok => ok = (seekRead file offset len).isSome
  | .record offset len ok => ok = (seekRead file offset len).isSome
  | .backlog | .readRequest _ | .closed => True

/-- A server has read what it is going to record. -/
theorem hasRead_move {c' : Connection} (h : c.server.HasRead file) (hmove : ConnMove file c a c') :
    c'.server.HasRead file := by
  cases hmove with
  | accepted | serverGone | requestPart => trivial
  | gotRequest => rfl
  | answeredPart hpc | answeredAll hpc => rw [hpc] at h; exact h
  | recorded | recordedError => trivial
  -- the client's steps leave the server where it is
  | _ => exact h

/-- A step changes the counters by its recording. -/
theorem metrics_connStep {i : Nat}
    {p : Connection × (TemplateServiceMetrics → TemplateServiceMetrics)}
    (hc : s.connections[i]? = some c) (hp : connStep file c a = some p)
    (m : TemplateServiceMetrics) :
    p.2 m = (recording s (.act i a)).toList.foldl Recording.apply m := by
  rw [recording, hc, bind_some]
  cases a with
  | accept | call | hangUp =>
    rw [connStep] at hp
    split at hp
    · cases hp
      rfl
    · cases hp
  | client n =>
    rw [connStep] at hp
    cases hpc : c.client with
    | idle | gone => rw [hpc] at hp; cases hp
    | writing rest r =>
      rw [hpc] at hp
      cases hp
      rfl
    | readHeader got r | readPage got r =>
      rw [hpc] at hp
      obtain ⟨c', -, rfl⟩ := map_eq_some_iff.mp hp
      rfl
  | server n =>
    rw [connStep] at hp
    cases hpc : c.server with
    | backlog | closed => rw [hpc] at hp; cases hp
    | readRequest got =>
      rw [hpc] at hp
      obtain ⟨c', -, rfl⟩ := map_eq_some_iff.mp hp
      rfl
    | writing rest offset len ok =>
      rw [hpc] at hp
      cases hp
      rfl
    | record offset len ok =>
      rw [hpc] at hp
      cases ok with
      | true | false => cases hp; rfl

/-- A recorded range lies in the file. -/
theorem inside_recording {r : Recording} (hs : ∀ c ∈ s.connections, c.server.HasRead file)
    (hr : recording s l = some r) : r.Inside file := by
  cases l with
  | connect => cases hr
  | act i a =>
    obtain ⟨c, hc, hrec⟩ := bind_eq_some_iff.mp hr
    split at hrec
    · cases hrec
      trivial
    · rename_i hpc
      cases hrec
      have hread := hs c (mem_of_getElem? hc)
      rw [hpc] at hread
      exact hread.symm
    · cases hrec
      trivial
    · cases hrec

theorem hasRead_step {s' : ServiceState} (hs : ∀ c ∈ s.connections, c.server.HasRead file)
    (hl : serviceStep file s l = some s') : ∀ c ∈ s'.connections, c.server.HasRead file := by
  cases l with
  | connect =>
    cases hl
    intro c hc
    rcases mem_append.mp hc with hold | hnew
    · exact hs c hold
    · obtain rfl := mem_singleton.mp hnew
      trivial
  | act i a =>
    obtain ⟨c, hc, hl⟩ := bind_eq_some_iff.mp hl
    obtain ⟨p, hp, rfl⟩ := map_eq_some_iff.mp hl
    intro c' hc'
    rcases mem_or_eq_of_mem_set hc' with hold | rfl
    · exact hs c' hold
    · exact hasRead_move (hs c (mem_of_getElem? hc)) (connMove_of_step hp)

/-- The metrics of a run are its recordings, and every request it recorded as served
    was inside the file. -/
theorem metrics_of_run {ls : List ServiceLabel}
    (hs : exec (serviceStep file) (start pageSize) ls = some s) :
    s.metrics = metricsAfter pageSize
        (trace (serviceStep file) recording (start pageSize) ls)
      ∧ ∀ r ∈ trace (serviceStep file) recording (start pageSize) ls, r.Inside file := by
  constructor
  · refine exec_eq_foldl_trace (I := fun _ => True) (f := ServiceState.metrics) ?_ trivial hs
    intro s l s' _ hl
    refine ⟨trivial, ?_⟩
    cases l with
    | connect =>
      cases hl
      rfl
    | act i a =>
      obtain ⟨c, hc, hl⟩ := bind_eq_some_iff.mp hl
      obtain ⟨p, hp, rfl⟩ := map_eq_some_iff.mp hl
      exact metrics_connStep hc hp s.metrics
  · refine forall_mem_trace (I := fun s => ∀ c ∈ s.connections, c.server.HasRead file)
      (fun s l s' hread hl =>
        ⟨hasRead_step hread hl, fun r hr => inside_recording hread hr⟩) ?_ ls
    intro c hc
    cases hc

/-! ## The metrics and the requests -/

theorem inside_served (hin : ∀ r ∈ recs, r.Inside file) :
    ∀ range ∈ served recs, (seekRead file range.1 range.2).isSome = true := by
  intro range hmem
  obtain ⟨r, hr, hserved⟩ := mem_filterMap.mp hmem
  cases r with
  | connection | error => cases hserved
  | request offset len =>
    cases hserved
    exact hin _ hr

/-- **THE METRICS.**  Whatever is recorded in whatever order, the counters and the
    pages are those of the requests.  The duplicates are those of the requests exactly
    when every request adds at most one page to the pages served before it, or every
    request adds one at least. -/
theorem metrics_describe_requests (file : MemoryRanges) (pageSize : Nat)
    (recs : List Recording) (hpage : 0 < pageSize) (hin : ∀ r ∈ recs, r.Inside file)
    (hrequests : (served recs).length < 2 ^ 64)
    (herrors : recs.countP Recording.isError < 2 ^ 64)
    (hbytes : ((served recs).map Prod.snd).sum < 2 ^ 64) :
    Describes file recs (metricsAfter pageSize recs)
      ∧ ((metricsAfter pageSize recs).duplicateRequests.toNat
            = repeats ∅ (pagesServed pageSize recs)
          ↔ (∀ k ∈ gains ∅ (pagesServed pageSize recs), k ≤ 1)
            ∨ ∀ k ∈ gains ∅ (pagesServed pageSize recs), 0 < k) := by
  have htotals := totals_metricsAfter hpage recs
  have hserved := inside_served hin
  have hpages := toNat_uniquePages hpage hserved
  have hrequests : (metricsAfter pageSize recs).pageRequests.toNat = (served recs).length := by
    rw [htotals.requests, UInt64.toNat_ofNat', Nat.mod_eq_of_lt hrequests]
  constructor
  · refine ⟨hrequests, ?_, ?_, ?_, ?_⟩
    · rw [htotals.errors, UInt64.toNat_ofNat', Nat.mod_eq_of_lt herrors]
    · rw [htotals.bytes, UInt64.toNat_ofNat', Nat.mod_eq_of_lt hbytes]
    · rw [hpages, cover_pagesServed, htotals.size]
    · rw [hpages, cover_pagesServed, htotals.size]
      exact card_pages_le hpage hserved
  · rw [toNat_duplicateRequests, hpages, hrequests,
      ← length_sub_card_iff (pagesServed pageSize recs), pagesServed, length_map]

/-! ## A request that is repeated -/

/-- A template of two pages. -/
def twoPages : MemoryRanges := ⟨List.replicate 8192 0, by rw [length_replicate]; decide⟩

/-- One client reads the first page twice; the range of another is past the end. -/
def samePage : List Recording :=
  [.connection, .connection, .request 0 4096, .error 8192 4096, .request 0 4096]

/-- A huge page is read twice. -/
def sameTwoPages : List Recording := [.connection, .request 0 8192, .request 0 8192]

theorem pagesServed_samePage : pagesServed 4096 samePage = [{0}, {0}] := by
  have hpage : touched 4096 (0, 4096) = {0} := (toFinset_range_pages (by decide) (by decide)).symm
  exact congrArg₂ (fun first second => [first, second]) hpage hpage

theorem pagesServed_sameTwoPages : pagesServed 4096 sameTwoPages = [{0, 1}, {0, 1}] := by
  have hpages : touched 4096 (0, 8192) = {0, 1} :=
    (toFinset_range_pages (by decide) (by decide)).symm
  exact congrArg₂ (fun first second => [first, second]) hpages hpages

theorem inside_twoPages (h : offset + len ≤ 8192) :
    Recording.Inside twoPages (.request offset len) := by
  have hlen : twoPages.bytes.length = 8192 := length_replicate
  rw [Recording.Inside, seekRead, if_neg (by omega), length_drop, hlen,
    if_pos (by omega)]
  rfl

theorem samePage_inside : ∀ r ∈ samePage, r.Inside twoPages := by
  have hpage : Recording.Inside twoPages (.request 0 4096) := inside_twoPages (by decide)
  simp only [samePage, forall_mem_cons]
  exact ⟨trivial, trivial, hpage, trivial, hpage, forall_mem_nil _⟩

/-- The second request for the page is the only duplicate. -/
theorem samePage_described :
    Describes twoPages samePage (metricsAfter 4096 samePage)
      ∧ (metricsAfter 4096 samePage).duplicateRequests.toNat = repeats ∅ (pagesServed 4096 samePage)
      ∧ repeats ∅ (pagesServed 4096 samePage) = 1 := by
  obtain ⟨hdescribes, hduplicates⟩ := metrics_describe_requests twoPages 4096 samePage
    (by decide) samePage_inside (by decide) (by decide) (by decide)
  rw [pagesServed_samePage] at hduplicates ⊢
  exact ⟨hdescribes, hduplicates.mpr (.inl (by decide)), by decide⟩

/-- Both requests are for the same two pages; no duplicate is reported. -/
theorem repeated_request_not_counted :
    (∀ r ∈ sameTwoPages, r.Inside twoPages)
      ∧ repeats ∅ (pagesServed 4096 sameTwoPages) = 1
      ∧ (metricsAfter 4096 sameTwoPages).duplicateRequests = 0 := by
  refine ⟨?_, ?_, by decide⟩
  · have hpages : Recording.Inside twoPages (.request 0 8192) := inside_twoPages (by decide)
    simp only [sameTwoPages, forall_mem_cons]
    exact ⟨trivial, hpages, hpages, forall_mem_nil _⟩
  · rw [pagesServed_sameTwoPages]
    decide

end TemplateService
