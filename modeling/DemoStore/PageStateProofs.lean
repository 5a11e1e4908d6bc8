import DemoStore.PageLedgerProofs
import DemoStore.RestoreHostProofs

/-! # Page states of the restore handler

    The handler changes the states one page at a time, in the middle of work that
    the ledger of `PageLedger` does at once.  `inFlight L pc` is what the states
    and the counters look like at the program counter `pc` when the last finished
    operation left the ledger `L`; `Fits` is what the handler's locals have to do
    with `L`.  Every step either leaves `L` as it is or finishes one operation
    on it, so between two events the handler's own states are a tidy ledger.

    Along a run the backend is read for a page only while the page is fresh:
    never loaded and not yet read by the work in progress. -/

namespace PageStates

open RestoreRange RestoreHandler RestoreHost PageLedger MachineRun List Option

/-! ## The simulation -/

/-- The ledger a restore keeps. -/
def ledger (s : RestoreState) : Ledger := ⟨s.states, s.pagesServed, s.pagesDirtied⟩

/-- The ledger with some pages `LOADING` and `n` more pages served. -/
def hold (L : Ledger) (p : Nat → Prop) [DecidablePred p] (n : Nat) : Ledger where
  states := fun i => if p i then .loading else L.states i
  served := L.served + n
  dirtied := L.dirtied

/-- The pages the first loop of `handle_wp_fault` has taken after `k` rounds. -/
def Taken (L : Ledger) (ch : TemplateCowChunk) (k i : Nat) : Prop :=
  (ch.firstPageIndex ≤ i ∧ i < ch.firstPageIndex + k) ∧ L.states i ≠ .privateDirty

instance (L : Ledger) (ch : TemplateCowChunk) (k i : Nat) : Decidable (Taken L ch k i) :=
  inferInstanceAs (Decidable (_ ∧ _))

/-- The vector `acquired` after `k` rounds. -/
def acquiredAt (L : Ledger) (ch : TemplateCowChunk) (k : Nat) : List (Nat × PageState) :=
  ((List.range k).map fun j =>
    (ch.firstPageIndex + j, L.states (ch.firstPageIndex + j))).filter fun p => p.2 ≠ .privateDirty

/-- The chunk while its first `k` pages are marked. -/
def marking (L : Ledger) (ch : TemplateCowChunk) (k : Nat) : Ledger where
  states := fun i =>
    if InChunk ch i then if i < ch.firstPageIndex + k then .privateDirty else .loading
    else L.states i
  served := L.served + (L.unloaded ch).length
  dirtied := L.dirtied

/-- The ledger while pages are on their way. -/
def inFlight (L : Ledger) : HandlerPc → Ledger
  | .readPage f => hold L (· = f.pageIndex) 0
  | .copyPage f _ => hold L (· = f.pageIndex) 0
  | .storeShared f _ => hold L (· = f.pageIndex) 0
  | .acquire _ ch k _ => hold L (Taken L ch k) 0
  | .load ch _ todo => hold L (InChunk ch) ((L.unloaded ch).length - todo.length)
  | .install ch _ _ _ todo =>
    hold L (InChunk ch) ((L.unloaded ch).length - (todo.length + 1))
  | .snapshot ch _ => hold L (InChunk ch) (L.unloaded ch).length
  | .unprotect ch _ _ => hold L (InChunk ch) (L.unloaded ch).length
  | .remap ch _ _ => hold L (InChunk ch) (L.unloaded ch).length
  | .copyBack ch _ _ => hold L (InChunk ch) (L.unloaded ch).length
  | .mark ch _ k => marking L ch k
  | _ => L

/-- The chunk that `handle_wp_fault` has taken as a whole. -/
structure Held (b : TemplateRestoreBackend) (L : Ledger) (ch : TemplateCowChunk) (n : Nat) :
    Prop where
  chunk : CowChunk b ch
  clean : L.Clean ch
  count : n = ch.pageCount

/-- What the handler's locals have to do with the ledger.  No thread but the
    handler sets a page `LOADING`, so it never waits for one. -/
def Fits (b : TemplateRestoreBackend) (L : Ledger) : HandlerPc → Prop
  | .claim f => f.pageIndex < b.totalPages
  | .spin _ => False
  | .readPage f => f.pageIndex < b.totalPages ∧ L.states f.pageIndex = .unloaded
  | .copyPage f _ => f.pageIndex < b.totalPages ∧ L.states f.pageIndex = .unloaded
  | .storeShared f _ => f.pageIndex < b.totalPages ∧ L.states f.pageIndex = .unloaded
  | .acquire _ ch k acquired =>
    CowChunk b ch ∧ k ≤ ch.pageCount ∧ acquired = acquiredAt L ch k
  | .load ch n todo => Held b L ch n ∧ todo <:+ L.unloaded ch
  | .install ch n i _ todo => Held b L ch n ∧ (i :: todo) <:+ L.unloaded ch
  | .snapshot ch n => Held b L ch n
  | .unprotect ch n _ => Held b L ch n
  | .remap ch n _ => Held b L ch n
  | .copyBack ch n _ => Held b L ch n
  | .mark ch n k => Held b L ch n ∧ k ≤ ch.pageCount
  | .exited => False
  | _ => True

/-- `s` is the ledger `L` with the work of its program counter in flight. -/
structure Simulates (b : TemplateRestoreBackend) (L : Ledger) (s : RestoreState) : Prop where
  tidy : L.Tidy b
  fits : Fits b L s.pc
  ledger : ledger s = inFlight L s.pc

/-- While it runs, the handler follows a ledger. -/
def Accounted (b : TemplateRestoreBackend) (s : RestoreState) : Prop :=
  s.pc = .exited ∨ ∃ L, Simulates b L s

variable {pc : HandlerPc} {i : Nat} {p : PageState}

section Steps

variable {t : SizedRanges} {file : Nat → UInt8} {bufLen : Nat} {s s' : RestoreState}
  {L : Ledger} {event : Nat} {out : Outcome}

/-- The states are those of the ledger in flight. -/
theorem Simulates.states (h : Simulates t.backend L s) (hpc : s.pc = pc) (i : Nat) :
    s.states i = (inFlight L pc).states i := by
  rw [← hpc]
  exact congrFun (congrArg Ledger.states h.ledger) i

theorem Simulates.served (h : Simulates t.backend L s) (hpc : s.pc = pc) :
    s.pagesServed = (inFlight L pc).served := by
  rw [← hpc]
  exact congrArg Ledger.served h.ledger

theorem Simulates.dirtied (h : Simulates t.backend L s) (hpc : s.pc = pc) :
    s.pagesDirtied = (inFlight L pc).dirtied := by
  rw [← hpc]
  exact congrArg Ledger.dirtied h.ledger

/-! ### The first loop of `handle_wp_fault` -/

/-- One more page is acquired, unless it is private. -/
theorem acquiredAt_succ (L : Ledger) (ch : TemplateCowChunk) (k : Nat) :
    acquiredAt L ch (k + 1) = acquiredAt L ch k
      ++ if L.states (ch.firstPageIndex + k) = .privateDirty then []
         else [(ch.firstPageIndex + k, L.states (ch.firstPageIndex + k))] := by
  rw [acquiredAt, range_succ, map_append, filter_append]
  congr 1
  by_cases h : L.states (ch.firstPageIndex + k) = .privateDirty
  · simp [h]
  · simp [h]

theorem taken_succ (L : Ledger) (ch : TemplateCowChunk) (k i : Nat) :
    Taken L ch (k + 1) i ↔ Taken L ch k i
      ∨ (i = ch.firstPageIndex + k ∧ L.states i ≠ .privateDirty) := by
  simp only [Taken]
  constructor
  · rintro ⟨⟨hlo, hhi⟩, hst⟩
    by_cases hi : i = ch.firstPageIndex + k
    · exact .inr ⟨hi, hst⟩
    · exact .inl ⟨⟨hlo, by omega⟩, hst⟩
  · rintro (⟨⟨hlo, hhi⟩, hst⟩ | ⟨rfl, hst⟩)
    · exact ⟨⟨hlo, by omega⟩, hst⟩
    · exact ⟨⟨by omega, by omega⟩, hst⟩

theorem hold_none {p : Nat → Prop} [DecidablePred p] (h : ∀ i, ¬ p i) : hold L p 0 = L := by
  ext i
  · simp [hold, h]
  · rfl
  · rfl

variable {ch : TemplateCowChunk} {f : TemplateFault} {k n : Nat} {acquired : List (Nat × PageState)}

/-- Nothing was taken: the whole chunk is private. -/
theorem not_taken (h : acquiredAt L ch ch.pageCount = []) (i : Nat) :
    ¬ Taken L ch ch.pageCount i := by
  rintro ⟨⟨hlo, hhi⟩, hst⟩
  have hmem : (i, L.states i) ∈ acquiredAt L ch ch.pageCount := by
    rw [acquiredAt, mem_filter]
    refine ⟨List.mem_map.mpr ⟨i - ch.firstPageIndex, mem_range.mpr (by omega), ?_⟩,
      by simpa using hst⟩
    rw [Nat.add_sub_cancel' hlo]
  rw [h] at hmem
  cases hmem

/-- In a chunk with no private page every page is taken. -/
theorem acquiredAt_clean (h : L.Clean ch) :
    acquiredAt L ch ch.pageCount = (pagesOf ch).map fun i => (i, L.states i) := by
  rw [acquiredAt, pagesOf, List.map_map, filter_eq_self.mpr]
  · rfl
  · intro p hp
    obtain ⟨j, hj, rfl⟩ := List.mem_map.mp hp
    have hj := mem_range.mp hj
    simpa using h _ ⟨by omega, by omega⟩

theorem todo_clean (h : L.Clean ch) :
    ((acquiredAt L ch ch.pageCount).filter fun p => p.2 = .unloaded).map Prod.fst
      = L.unloaded ch := by
  rw [acquiredAt_clean h, List.filter_map, List.map_map, Ledger.unloaded]
  exact List.map_id _

/-- A taken page shows that the chunk has no private one. -/
theorem clean_of_acquired (hL : L.Tidy t.backend) (hch : CowChunk t.backend ch)
    (hne : acquiredAt L ch ch.pageCount ≠ []) : L.Clean ch := by
  rcases hL.uniform ch hch with hall | hclean
  · refine absurd ?_ hne
    rw [acquiredAt, filter_eq_nil_iff]
    intro p hp
    obtain ⟨j, hj, rfl⟩ := List.mem_map.mp hp
    have hj := mem_range.mp hj
    simpa using hall _ ⟨by omega, by omega⟩
  · exact hclean

theorem hold_taken (h : L.Clean ch) (n : Nat) :
    hold L (Taken L ch ch.pageCount) n = hold L (InChunk ch) n := by
  ext i
  · have hiff : Taken L ch ch.pageCount i ↔ InChunk ch i :=
      ⟨fun ht => ht.1, fun hin => ⟨hin, h i hin⟩⟩
    simp only [hold, hiff]
  · rfl
  · rfl

/-! ### One step -/

/-- Only the memory, the events, the threads or the program counter change, and
    the ledger reads the same at the new one. -/
theorem Simulates.move (h : Simulates t.backend L s)
    (hled : PageStates.ledger s' = PageStates.ledger s) (hfits : Fits t.backend L s'.pc) (hsame : inFlight L s'.pc = inFlight L s.pc) :
    Accounted t.backend s' :=
  .inr ⟨L, h.tidy, hfits, by rw [hled, h.ledger, hsame]⟩

theorem ledger_copyWp (addr len : Nat) (buf : Nat → UInt8) (s : RestoreState) :
    ledger (s.copyWp addr len buf) = ledger s := by
  rw [RestoreState.copyWp]
  split
  · rfl
  · rfl

/-- The page the loop looks at is as the last operation left it. -/
theorem Simulates.next_state (h : Simulates t.backend L s) (hpc : s.pc = .acquire f ch k acquired) :
    s.states (ch.firstPageIndex + k) = L.states (ch.firstPageIndex + k) := by
  have hno : ¬ Taken L ch k (ch.firstPageIndex + k) := by
    rintro ⟨⟨-, hlt⟩, -⟩
    omega
  rw [h.states hpc]
  exact if_neg hno

/-- The ledger follows an acquired page. -/
theorem accounted_acquired (h : Simulates t.backend L s) (hpc : s.pc = .acquire f ch k acquired)
    (hk : k < ch.pageCount) (hst : s.states (ch.firstPageIndex + k) = p)
    (hp : p = .unloaded ∨ p = .sharedReady) :
    Accounted t.backend ((s.setState (ch.firstPageIndex + k) .loading).goto
      (.acquire f ch (k + 1) (acquired ++ [(ch.firstPageIndex + k, p)]))) := by
  have hfits := h.fits
  rw [hpc] at hfits
  obtain ⟨hch, -, rfl⟩ := hfits
  rw [h.next_state hpc] at hst
  have hclean : L.states (ch.firstPageIndex + k) ≠ .privateDirty := by
    rw [hst]
    rcases hp with rfl | rfl <;> simp
  refine .inr ⟨L, h.tidy, ⟨hch, hk, ?_⟩, ?_⟩
  · rw [acquiredAt_succ, if_neg hclean, hst]
  · ext i
    · show (if i = ch.firstPageIndex + k then PageState.loading else s.states i)
        = if Taken L ch (k + 1) i then .loading else L.states i
      have hi : s.states i = if Taken L ch k i then .loading else L.states i := h.states hpc i
      rw [hi]
      by_cases hik : i = ch.firstPageIndex + k
      · rw [if_pos hik, if_pos ((taken_succ L ch k i).mpr (.inr ⟨hik, hik ▸ hclean⟩))]
      · rw [if_neg hik]
        simp only [taken_succ, hik, false_and, or_false]
    · exact (h.served hpc :)
    · exact (h.dirtied hpc :)

/-- A page that is private already is skipped. -/
theorem accounted_skipped (h : Simulates t.backend L s) (hpc : s.pc = .acquire f ch k acquired)
    (hk : k < ch.pageCount) (hst : s.states (ch.firstPageIndex + k) = .privateDirty) :
    Accounted t.backend (s.goto (.acquire f ch (k + 1) acquired)) := by
  have hfits := h.fits
  rw [hpc] at hfits
  obtain ⟨hch, -, rfl⟩ := hfits
  rw [h.next_state hpc] at hst
  refine h.move rfl ⟨hch, hk, ?_⟩ ?_
  · rw [acquiredAt_succ, if_pos hst, append_nil]
  · rw [hpc]
    ext i
    · have hiff : Taken L ch (k + 1) i ↔ Taken L ch k i := by
        rw [taken_succ]
        refine ⟨?_, .inl⟩
        rintro (ht | ⟨rfl, hne⟩)
        · exact ht
        · exact absurd hst hne
      show (if Taken L ch (k + 1) i then PageState.loading else L.states i)
        = if Taken L ch k i then .loading else L.states i
      simp only [hiff]
    · rfl
    · rfl

theorem marking_zero (L : Ledger) (ch : TemplateCowChunk) :
    marking L ch 0 = hold L (InChunk ch) (L.unloaded ch).length := by
  ext i
  · show (if InChunk ch i then if i < ch.firstPageIndex + 0 then PageState.privateDirty
      else .loading else L.states i) = if InChunk ch i then .loading else L.states i
    by_cases hi : InChunk ch i
    · rw [if_pos hi, if_pos hi, if_neg]
      exact Nat.not_lt.mpr hi.1
    · rw [if_neg hi, if_neg hi]
  · rfl
  · rfl

/-- The ledger follows a page that becomes private. -/
theorem accounted_marked (h : Simulates t.backend L s) (hpc : s.pc = .mark ch n k)
    (hk : k < ch.pageCount) :
    Accounted t.backend
      ((s.setState (ch.firstPageIndex + k) .privateDirty).goto (.mark ch n (k + 1))) := by
  have hfits := h.fits
  rw [hpc] at hfits
  refine .inr ⟨L, h.tidy, ⟨hfits.1, hk⟩, ?_⟩
  ext i
  · show (if i = ch.firstPageIndex + k then PageState.privateDirty else s.states i)
      = (marking L ch (k + 1)).states i
    rw [h.states hpc]
    simp only [inFlight, marking]
    by_cases hik : i = ch.firstPageIndex + k
    · have hin : InChunk ch i := ⟨by omega, by omega⟩
      rw [if_pos hik, if_pos hin, if_pos (by omega)]
    · have hiff : i < ch.firstPageIndex + (k + 1) ↔ i < ch.firstPageIndex + k := by omega
      rw [if_neg hik]
      simp only [hiff]
  · exact (h.served hpc :)
  · exact (h.dirtied hpc :)

/-- The last page is marked and the pages are counted: the operation is done. -/
theorem accounted_counted (h : Simulates t.backend L s) (hpc : s.pc = .mark ch n k)
    (hk : ¬ k < ch.pageCount) :
    Accounted t.backend { s with pc := .wakeChunk ch, pagesDirtied := s.pagesDirtied + n } := by
  have hfits := h.fits
  rw [hpc] at hfits
  obtain ⟨hheld, hle⟩ := hfits
  refine .inr ⟨L.cow ch, h.tidy.cow hheld.chunk hheld.clean, trivial, ?_⟩
  ext i
  · show s.states i = (L.cow ch).states i
    rw [h.states hpc]
    simp only [inFlight, marking, Ledger.cow]
    by_cases hin : InChunk ch i
    · have hlt := hin.2
      rw [if_pos hin, if_pos hin, if_pos (by omega)]
    · rw [if_neg hin, if_neg hin]
  · exact (h.served hpc :)
  · show s.pagesDirtied + n = L.dirtied + ch.pageCount
    rw [hheld.count, h.dirtied hpc]
    rfl

/-- The ledger follows a claim. -/
theorem accounted_claimed (h : Simulates t.backend L s) (hpc : s.pc = .claim f)
    (hst : s.states f.pageIndex = .unloaded) :
    Accounted t.backend ((s.setState f.pageIndex .loading).goto (.readPage f)) := by
  have hfits := h.fits
  rw [hpc] at hfits
  rw [h.states hpc] at hst
  refine .inr ⟨L, h.tidy, ⟨hfits, hst⟩, ?_⟩
  ext i
  · show (if i = f.pageIndex then PageState.loading else s.states i)
      = if i = f.pageIndex then .loading else L.states i
    rw [h.states hpc]
    rfl
  · exact (h.served hpc :)
  · exact (h.dirtied hpc :)

/-- The page is stored `SHARED_READY` and counted: the operation is done. -/
theorem accounted_stored (h : Simulates t.backend L s) {present : Bool}
    (hpc : s.pc = .storeShared f present) :
    Accounted t.backend ((s.setState f.pageIndex .sharedReady).serve.goto
      (if present then .wakePage f else .waiting)) := by
  have hfits := h.fits
  rw [hpc] at hfits
  have hled : ledger (s.setState f.pageIndex .sharedReady).serve = L.load f.pageIndex := by
    ext i
    · show (if i = f.pageIndex then PageState.sharedReady else s.states i)
        = if i = f.pageIndex then .sharedReady else L.states i
      by_cases hi : i = f.pageIndex
      · rw [if_pos hi, if_pos hi]
      · rw [if_neg hi, if_neg hi, h.states hpc]
        exact if_neg hi
    · exact congrArg (· + 1) (h.served hpc)
    · exact (h.dirtied hpc :)
  refine .inr ⟨L.load f.pageIndex, h.tidy.load hfits.1 hfits.2, ?_, ?_⟩
  · cases present <;> trivial
  · cases present <;> exact hled

/-- The ledger follows an installed page. -/
theorem accounted_installed (h : Simulates t.backend L s) {buf : Nat → UInt8} {todo : List Nat}
    (hpc : s.pc = .install ch n i buf todo) :
    Accounted t.backend
      ((s.copyWp (chunkPageAddr ch i) ch.pageSize buf).serve.goto (.load ch n todo)) := by
  have hfits := h.fits
  rw [hpc] at hfits
  obtain ⟨hheld, hsuf⟩ := hfits
  have hcopy := ledger_copyWp (chunkPageAddr ch i) ch.pageSize buf s
  rw [h.ledger, hpc] at hcopy
  refine .inr ⟨L, h.tidy, ⟨hheld, (suffix_cons i todo).trans hsuf⟩, ?_⟩
  ext j
  · exact congrFun (congrArg Ledger.states hcopy) j
  · -- one page less is left, one more is served
    have hlen := hsuf.length_le
    have hserved := congrArg Ledger.served hcopy
    change (s.copyWp _ _ buf).pagesServed
      = L.served + ((L.unloaded ch).length - (todo.length + 1)) at hserved
    show (s.copyWp _ _ buf).pagesServed + 1 = L.served + ((L.unloaded ch).length - todo.length)
    rw [length_cons] at hlen
    omega
  · exact (congrArg Ledger.dirtied hcopy :)

/-- **THE HANDLER KEEPS THE BOOKS.**  A step leaves the ledger in place or finishes
    one operation on it. -/
theorem accounted_move (h : Simulates t.backend L s)
    (hmove : HandlerMove t.backend file bufLen s event out s') :
    Accounted t.backend s' := by
  have hfits := h.fits
  cases hmove with
  | failed | refused => exact .inl rfl
  | againPage | againChunk | spinning | yielded => exact .inr ⟨L, h⟩
  | ready hpc | claimReady hpc hst | wakeFailed hpc | wokePage hpc | wokeChunk hpc =>
    exact h.move rfl trivial (by rw [hpc]; rfl)
  | eventMissing hpc hev hloc hwp =>
    exact h.move rfl (locateFault_lt hloc) (by rw [hpc]; rfl)
  | eventWp hpc hev hloc hwp hch =>
    refine h.move rfl ⟨⟨_, hch⟩, Nat.zero_le _, rfl⟩ ?_
    rw [hpc]
    refine hold_none fun i ht => ?_
    obtain ⟨⟨hlo, hhi⟩, -⟩ := ht
    omega
  | claimed hpc hst => exact accounted_claimed h hpc hst
  | contended hpc hst =>
    -- nobody else loads pages
    rw [h.states hpc] at hst
    exact absurd hst (h.tidy.settled _)
  | spun hpc hst => rw [hpc] at hfits; exact False.elim hfits
  | read hpc hbuf | readChunk hpc hbuf | saved hpc | unprotected hpc | remapped hpc =>
    rw [hpc] at hfits
    exact h.move rfl hfits (by rw [hpc]; rfl)
  | copied hpc =>
    rw [hpc] at hfits
    exact h.move (ledger_copyWp _ _ _ s) hfits (by rw [hpc]; rfl)
  | stored hpc => exact accounted_stored h hpc
  | acquired hpc hk hst hp => exact accounted_acquired h hpc hk hst hp
  | skipped hpc hk hst => exact accounted_skipped h hpc hk hst
  | allPrivate hpc hk =>
    rw [hpc] at hfits
    obtain ⟨-, hle, hnil⟩ := hfits
    obtain rfl := Nat.le_antisymm hle (Nat.not_lt.mp hk)
    refine h.move rfl trivial ?_
    rw [hpc]
    exact (hold_none (not_taken hnil.symm)).symm
  | allAcquired hpc hk hne =>
    rw [hpc] at hfits
    obtain ⟨hch, hle, hacq⟩ := hfits
    obtain rfl := Nat.le_antisymm hle (Nat.not_lt.mp hk)
    subst hacq
    have hclean := clean_of_acquired h.tidy hch hne
    have hlen : (acquiredAt L _ _).length = _ := congrArg List.length (acquiredAt_clean hclean)
    rw [length_map, pagesOf, length_map, length_range] at hlen
    refine h.move rfl ⟨⟨hch, hclean, hlen⟩, ?_⟩ ?_
    · rw [todo_clean hclean]
    · rw [hpc]
      show hold L _ ((L.unloaded _).length - List.length _) = hold L _ 0
      rw [todo_clean hclean, Nat.sub_self, hold_taken hclean]
  | loaded hpc =>
    rw [hpc] at hfits
    exact h.move rfl hfits.1 (by rw [hpc]; rfl)
  | installed hpc => exact accounted_installed h hpc
  | copiedBack hpc =>
    rw [hpc] at hfits
    refine h.move rfl ⟨hfits, Nat.zero_le _⟩ ?_
    rw [hpc]
    exact marking_zero L _
  | marked hpc hk => exact accounted_marked h hpc hk
  | counted hpc hk => exact accounted_counted h hpc hk

end Steps

/-! ## Runs -/

/-- The handler is in one of its two loops on `LOADING`. -/
def Spins (s : RestoreState) : Prop :=
  match s.pc with
  | .spin _ => True
  | .acquire _ ch k _ => k < ch.pageCount ∧ s.states (ch.firstPageIndex + k) = .loading
  | _ => False

/-- The page index of the backend read that comes next. -/
def readIndex : HandlerPc → Option Nat
  | .readPage f => some f.pageIndex
  | .load _ _ (i :: _) => some i
  | _ => none

/-- The page index a backend read of this step is for. -/
def reads (s : RestoreState) : HostLabel → Option Nat
  | .run (.handler _ _) => readIndex s.pc
  | _ => none

/-- A page that the work in progress will still read. -/
def Unread : HandlerPc → Nat → Prop
  | .readPage f, i => i = f.pageIndex
  | .acquire _ _ _ acquired, i => (i, .unloaded) ∈ acquired
  | .load _ _ todo, i => i ∈ todo
  | .install _ _ _ _ todo, i => i ∈ todo
  | _, _ => False

/-- The backend was not read for the page yet. -/
def Fresh (s : RestoreState) (i : Nat) : Prop :=
  s.states i = .unloaded ∨ Unread s.pc i

section Runs

variable {t : SizedRanges} {file : Nat → UInt8} {bufLen : Nat} {s s' : RestoreState}
  {event : Nat} {out : Outcome}

theorem accounted_start (n : Nat) : Accounted t.backend (start n) :=
  .inr ⟨.start, Ledger.tidy_start _, trivial, rfl⟩

/-- What leaves the handler alone leaves the ledger. -/
theorem Accounted.frame (h : Accounted t.backend s) (hframe : HandlerFrame s s') :
    Accounted t.backend s' := by
  have hled : ledger s' = ledger s := by
    simp only [ledger, hframe.states, hframe.served, hframe.dirtied]
  rcases h with hex | ⟨L, h⟩
  · exact .inl (hframe.pc.trans hex)
  · refine .inr ⟨L, h.tidy, ?_, ?_⟩
    · rw [hframe.pc]
      exact h.fits
    · rw [hled, hframe.pc]
      exact h.ledger

theorem simulates_of_handlerStep (h : Accounted t.backend s)
    (hstep : handlerStep t.backend file bufLen s event out = some s') :
    ∃ L, Simulates t.backend L s := by
  rcases h with hex | h
  · rw [handlerStep, hex] at hstep
    cases hstep
  · exact h

/-- Every step keeps the handler to a ledger. -/
theorem accounted_step {l : HostLabel} (h : Accounted t.backend s)
    (hstep : hostStep t.backend file bufLen s l = some s') : Accounted t.backend s' := by
  rcases hostStep_cases hstep with ⟨event, out, rfl, hh⟩ | ⟨-, hframe⟩
  · obtain ⟨L, hL⟩ := simulates_of_handlerStep h hh
    exact accounted_move hL (move_of_handlerStep hh)
  · exact h.frame hframe

/-- The handler meets no page being loaded. -/
theorem not_spins (h : Accounted t.backend s) : ¬ Spins s := by
  rcases h with hex | ⟨L, h⟩
  · rw [Spins, hex]
    exact id
  · have hfits := h.fits
    rw [Spins]
    cases hpc : s.pc with
    | spin f => rw [hpc] at hfits; exact fun _ => hfits
    | acquire f ch k acquired =>
      rintro ⟨-, hst⟩
      rw [h.next_state hpc] at hst
      exact h.tidy.settled _ hst
    | _ => exact id

/-- A handler that waits has a tidy ledger. -/
theorem tidy_of_waiting (h : Accounted t.backend s) (hpc : s.pc = .waiting) :
    (ledger s).Tidy t.backend := by
  rcases h with hex | ⟨L, h⟩
  · rw [hpc] at hex
    cases hex
  · have hled := h.ledger
    rw [hpc] at hled
    rw [hled]
    exact h.tidy

/-! ### Backend reads -/

theorem unloaded_of_setState {j : Nat} (hp : p ≠ .unloaded)
    (h : (s.setState i p).states j = .unloaded) : s.states j = .unloaded := by
  have key : (if j = i then p else s.states j) = .unloaded := h
  split at key
  · exact absurd key hp
  · exact key

theorem copyWp_states (addr len : Nat) (buf : Nat → UInt8) (s : RestoreState) :
    (s.copyWp addr len buf).states = s.states :=
  congrArg Ledger.states (ledger_copyWp addr len buf s)

/-- No step makes a page fresh. -/
theorem fresh_of_move (hmove : HandlerMove t.backend file bufLen s event out s') (hi : Fresh s' i) :
    Fresh s i := by
  cases hmove with
  | failed | refused => exact .inl (hi.resolve_right id)
  | againPage | againChunk | spinning | yielded => exact hi
  | claimed hpc hst =>
    rcases hi with hi | hi
    · exact .inl (unloaded_of_setState (by simp) hi)
    · exact .inl ((show i = _ from hi) ▸ hst)
  | stored hpc =>
    rcases hi with hi | hi
    · exact .inl (unloaded_of_setState (by simp) hi)
    · rename_i present
      cases present <;> exact False.elim hi
  | acquired hpc hk hst hp =>
    rcases hi with hi | hi
    · exact .inl (unloaded_of_setState (by simp) hi)
    · -- the new entry is unloaded only if the page was
      rcases mem_append.mp hi with hi | hi
      · exact .inr (by rw [hpc]; exact hi)
      · obtain ⟨rfl, rfl⟩ := Prod.mk.inj (mem_singleton.mp hi)
        exact .inl hst
  | allAcquired hpc hk hne =>
    rcases hi with hi | hi
    · exact .inl hi
    · obtain ⟨⟨j, p⟩, hp, rfl⟩ := List.mem_map.mp hi
      obtain ⟨hmem, hun⟩ := mem_filter.mp hp
      obtain rfl : p = .unloaded := of_decide_eq_true hun
      exact .inr (by rw [hpc]; exact hmem)
  | skipped hpc hk hst => exact hi.imp id fun hi => by rw [hpc]; exact hi
  | readChunk hpc hbuf =>
    exact hi.imp id fun hi => by rw [hpc]; exact mem_cons_of_mem _ hi
  | installed hpc =>
    rcases hi with hi | hi
    · refine .inl ?_
      rw [← hi]
      exact (congrFun (copyWp_states _ _ _ s) i).symm
    · exact .inr (by rw [hpc]; exact hi)
  | copied hpc =>
    rcases hi with hi | hi
    · refine .inl ?_
      rw [← hi]
      exact (congrFun (copyWp_states _ _ _ s) i).symm
    · exact False.elim hi
  | marked hpc hk =>
    rcases hi with hi | hi
    · exact .inl (unloaded_of_setState (by simp) hi)
    · exact False.elim hi
  | eventWp hpc hev hloc hwp hch => exact hi.imp id fun hi => absurd hi not_mem_nil
  | _ => exact hi.imp id False.elim

theorem readIndex_eq_some (h : readIndex pc = some i) :
    (∃ f, pc = .readPage f ∧ f.pageIndex = i) ∨ ∃ ch n todo, pc = .load ch n (i :: todo) := by
  cases pc with
  | readPage f => exact .inl ⟨f, rfl, some.inj h⟩
  | load ch n todo =>
    cases todo with
    | nil => cases h
    | cons j todo => cases h; exact .inr ⟨ch, n, todo, rfl⟩
  | _ => cases h

/-- A read is for a fresh page and uses it up. -/
theorem fresh_of_reads {L : Ledger} (h : Simulates t.backend L s)
    (hstep : handlerStep t.backend file bufLen s event out = some s')
    (hread : readIndex s.pc = some i) : Fresh s i ∧ ¬ Fresh s' i := by
  have hfits := h.fits
  rw [handlerStep] at hstep
  rcases readIndex_eq_some hread with ⟨f, hpc, rfl⟩ | ⟨ch, n, todo, hpc⟩
  · have hst : s.states f.pageIndex = .loading := by
      rw [h.states hpc]
      exact if_pos rfl
    rw [hpc] at hstep
    refine ⟨.inr (by rw [hpc]; exact rfl), ?_⟩
    dsimp only at hstep
    split at hstep
    · cases hstep
      rintro (hun | hun)
      · exact absurd (hst.symm.trans hun) (by simp)
      · exact hun
    · obtain ⟨buf, -, rfl⟩ := map_eq_some_iff.mp hstep
      rintro (hun | hun)
      · exact absurd (hst.symm.trans hun) (by simp)
      · exact hun
  · -- the pages to load are pages of the chunk, each once
    rw [hpc] at hfits hstep
    obtain ⟨hheld, hsuf⟩ := hfits
    obtain ⟨hin, -⟩ := Ledger.mem_unloaded.mp (hsuf.subset mem_cons_self)
    have hnodup := Ledger.nodup_unloaded.sublist hsuf.sublist
    have hst : s.states i = .loading := by
      rw [h.states hpc]
      exact if_pos hin
    refine ⟨.inr (by rw [hpc]; exact mem_cons_self), ?_⟩
    dsimp only at hstep
    split at hstep
    · cases hstep
      rintro (hun | hun)
      · exact absurd (hst.symm.trans hun) (by simp)
      · exact hun
    · obtain ⟨buf, -, rfl⟩ := map_eq_some_iff.mp hstep
      rintro (hun | hun)
      · exact absurd (hst.symm.trans hun) (by simp)
      · exact (nodup_cons.mp hnodup).1 hun

/-- No page is read twice. -/
theorem nodup_reads (n : Nat) (ls : List HostLabel) :
    (trace (hostStep t.backend file bufLen) reads (start n) ls).Nodup := by
  refine (trace_nodup (I := Accounted t.backend) (F := Fresh) ?_ ?_ (accounted_start n)
    (moves_true _ ls)).1
  · intro s l s' hs hl _
    refine ⟨accounted_step hs hl, fun i hi => ?_⟩
    rcases hostStep_cases hl with ⟨event, out, rfl, hh⟩ | ⟨-, hframe⟩
    · exact fresh_of_move (move_of_handlerStep hh) hi
    · rw [Fresh, hframe.states, hframe.pc] at hi
      exact hi
  · intro s l s' i hs hl _ hread
    rcases hostStep_cases hl with ⟨event, out, rfl, hh⟩ | ⟨hno, -⟩
    · obtain ⟨L, hL⟩ := simulates_of_handlerStep hs hh
      exact fresh_of_reads hL hh hread
    · -- other steps read nothing
      cases l with
      | run l =>
        cases l with
        | handler event out => exact absurd rfl (hno event out)
        | _ => cases hread
      | _ => cases hread

end Runs

/-- **PAGE STATES.**  Over any ranges with power-of-two page sizes, on any host and
    in any order of events, the handler never waits for a page it is loading,
    its books are tidy whenever it waits for an event, and it reads the backend
    at most once for each page. -/
theorem restore_pageStates (t : SizedRanges) (file : Nat → UInt8) (bufLen n : Nat)
    (ls : List HostLabel) :
    States (hostStep t.backend file bufLen)
        (fun s => ¬ Spins s ∧ (s.pc = .waiting →
          (ledger s).Tidy t.backend ∧ s.pagesServed ≤ t.backend.totalPages))
        (start n) ls
      ∧ (trace (hostStep t.backend file bufLen) reads (start n) ls).Nodup := by
  refine ⟨states_of_step ?_ (fun s l s' => accounted_step) (accounted_start n) ls, nodup_reads n ls⟩
  intro s hs
  refine ⟨not_spins hs, fun hpc => ?_⟩
  have htidy := tidy_of_waiting hs hpc
  exact ⟨htidy, htidy.served_le⟩

end PageStates
