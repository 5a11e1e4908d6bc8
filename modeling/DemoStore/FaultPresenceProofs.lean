import DemoStore.FaultSiteProofs
import DemoStore.LazyRestoreProofs
import DemoStore.PageStateProofs

/-! # Is the page there when the handler is done

    The handler decides from its page states, not from the page tables: for a page
    it has loaded once, a missing fault is answered with a wake.  That is right as
    long as a loaded page stays present.  A device that gives a loaded page back to
    the kernel makes it absent again and tells nobody: the next access faults, the
    handler wakes the vCPU, and it faults again, for ever.

    `Backed` ties the states to the page tables.  It holds along every run in which
    the pages given back were never loaded or are private already. -/

namespace FaultPresence

open GuestMemory RestoreRange RestoreHandler RestoreHost PageLedger PageStates FaultSite
open MachineRun LazyRestore

/-- The page of the fault is mapped. -/
def Present (m : Memory) (f : TemplateFault) : Prop :=
  ∀ a, Within f.pageAddr f.pageSize a → m.mapping a ≠ .absent

/-- A step that ends the work on a fault, and not by an error, leaves its page
    present. -/
def Resolved (s : RestoreState) (_ : HostLabel) (s' : RestoreState) : Prop :=
  ∀ f, (s.pc = .storeShared f false ∨ s.pc = .wakePage f) → s'.pc = .waiting → Present s'.memory f

/-- Pages given back to the kernel were never loaded, or are private. -/
def SparesLoaded (s : RestoreState) : HostLabel → RestoreState → Prop
  | .discard addr len, _ => ∀ a, Within addr len a →
      s.memory.mapping a = .absent ∨ s.memory.mapping a = .anonymous
  | _, _ => True

/-! ## The invariant -/

/-- The page needs no load any more. -/
def Done (p : PageState) : Prop := p = .sharedReady ∨ p = .privateDirty

/-- What the program counter says about presence. -/
def PresentAt (m : Memory) : HandlerPc → Prop
  | .storeShared f _ => Present m f
  | .wakePage f => Present m f
  | .copyBack ch _ _ => ∀ a, Within ch.startAddr ch.len a → m.mapping a ≠ .absent
  | .mark ch _ _ => ∀ a, Within ch.startAddr ch.len a → m.mapping a ≠ .absent
  | _ => True

/-- A page is present as a whole or not at all, and it is present if its state says
    that it was loaded. -/
structure Backed (t : RangeTable) (s : RestoreState) : Prop where
  uniform : ∀ f, Located t f → s.memory.mapping f.pageAddr ≠ .absent → Present s.memory f
  loaded : ∀ f, Located t f → Done (s.states f.pageIndex) → Present s.memory f
  atPc : PresentAt s.memory s.pc

variable {l : HostLabel}

section Steps

variable {t : RangeTable} {file : Nat → UInt8} {bufLen : Nat} {s s' : RestoreState}
  {event : Nat} {out : Outcome}

variable {m m' : Memory} {f g : TemplateFault} {addr len a n k : Nat} {ch : TemplateCowChunk}
  {L : Ledger}

theorem Present.mono (h : Present m f)
    (hkeep : ∀ a, m'.mapping a = .absent → m.mapping a = .absent) : Present m' f :=
  fun a ha habs => h a ha (hkeep a habs)

theorem PresentAt.mono {pc : HandlerPc} (h : PresentAt m pc)
    (hkeep : ∀ a, m'.mapping a = .absent → m.mapping a = .absent) : PresentAt m' pc := by
  cases pc with
  | storeShared | wakePage => exact Present.mono h hkeep
  | copyBack | mark => exact fun a ha habs => h a ha (hkeep a habs)
  | _ => trivial

theorem backed_start (n : Nat) : Backed t (start n) where
  uniform _ _ h := absurd rfl h
  loaded _ _ h := by rcases h with h | h <;> cases h
  atPc := trivial

/-- Nothing becomes absent or present, and no page is done that was not. -/
theorem Backed.move (h : Backed t s)
    (hmap : ∀ a, s'.memory.mapping a = .absent ↔ s.memory.mapping a = .absent)
    (hst : ∀ i, Done (s'.states i) → Done (s.states i)) (hpc : PresentAt s'.memory s'.pc) :
    Backed t s' where
  uniform f hf hne := (h.uniform f hf fun habs => hne ((hmap _).mpr habs)).mono fun a => (hmap a).mp
  loaded f hf hdone := (h.loaded f hf (hst _ hdone)).mono fun a => (hmap a).mp
  atPc := hpc

theorem done_of_loading {i j : Nat} (h : Done ((s.setState i .loading).states j)) :
    Done (s.states j) := by
  have key : Done (if j = i then .loading else s.states j) := h
  split at key
  · rcases key with h | h <;> cases h
  · exact key

/-! ### Operations on memory -/

theorem copyWp_keeps {buf : Nat → UInt8} (h : (m.copyWp addr len buf).mapping a = .absent) :
    m.mapping a = .absent := by
  have key : (if Within addr len a ∧ m.mapping a = .absent then .writeProtected
      else m.mapping a) = Mapping.absent := h
  split at key
  · cases key
  · exact key

/-- A copied page is there. -/
theorem copyWp_present (m : Memory) (f : TemplateFault) (buf : Nat → UInt8) :
    Present (m.copyWp f.pageAddr f.pageSize buf) f := by
  intro a ha habs
  have key : (if Within f.pageAddr f.pageSize a ∧ m.mapping a = .absent then .writeProtected
      else m.mapping a) = Mapping.absent := habs
  split at key
  · cases key
  · rename_i hno
    exact hno ⟨ha, key⟩

/-- Installing one page leaves the others as they are. -/
theorem copyWp_uniform (hg : Located t g) (buf : Nat → UInt8)
    (h : ∀ f, Located t f → m.mapping f.pageAddr ≠ .absent → Present m f) :
    ∀ f, Located t f → (m.copyWp g.pageAddr g.pageSize buf).mapping f.pageAddr ≠ .absent →
      Present (m.copyWp g.pageAddr g.pageSize buf) f := by
  intro f hf hne
  by_cases hfg : f = g
  · subst hfg
    exact copyWp_present m f buf
  · refine (h f hf fun habs => hne ?_).mono fun a => copyWp_keeps
    have hout : ¬ Within g.pageAddr g.pageSize f.pageAddr := fun hin =>
      hfg (located_meet hf hg (located_first hf) hin)
    show (if Within g.pageAddr g.pageSize f.pageAddr ∧ _ then _ else m.mapping f.pageAddr) = _
    rw [if_neg fun hin => hout hin.1]
    exact habs

/-- `copy_wp` leaves its page present: it installs it, or `EEXIST` says that it is
    there. -/
theorem backed_copyWp (h : Backed t s) (hg : Located t g) (buf : Nat → UInt8) :
    Present (s.copyWp g.pageAddr g.pageSize buf).memory g
      ∧ (∀ f, Located t f →
          (s.copyWp g.pageAddr g.pageSize buf).memory.mapping f.pageAddr ≠ .absent →
          Present (s.copyWp g.pageAddr g.pageSize buf).memory f)
      ∧ ∀ f, Located t f → Done (s.states f.pageIndex) →
          Present (s.copyWp g.pageAddr g.pageSize buf).memory f := by
  rw [RestoreState.copyWp]
  split
  · refine ⟨copyWp_present _ g buf, copyWp_uniform hg buf h.uniform, fun f hf hdone => ?_⟩
    exact (h.loaded f hf hdone).mono fun a => copyWp_keeps
  · rename_i hne
    exact ⟨h.uniform g hg hne, h.uniform, h.loaded⟩

theorem unprotect_absent (m : Memory) (addr len a : Nat) :
    (m.unprotect addr len).mapping a = .absent ↔ m.mapping a = .absent := by
  show (if Within addr len a ∧ m.mapping a = .writeProtected then Mapping.writable
    else m.mapping a) = .absent ↔ _
  split
  · rename_i h
    rw [h.2]
    simp
  · exact Iff.rfl

theorem mmapFixed_keeps (h : (m.mmapFixed addr len).mapping a = .absent) :
    m.mapping a = .absent ∧ ¬ Within addr len a := by
  have key : (if Within addr len a then Mapping.anonymous else m.mapping a) = .absent := h
  split at key
  · cases key
  · rename_i hout
    exact ⟨key, hout⟩

/-- A chunk is a run of whole pages, so its mapping replaces whole pages. -/
theorem backed_remapped (h : Backed t s) {snap : Nat → UInt8} (hch : CowChunk t.backend ch) :
    Backed t ((s.onMemory (Memory.mmapFixed ch.startAddr ch.len)).goto (.copyBack ch n snap)) where
  uniform f hf hne := by
    by_cases hin : Within ch.startAddr ch.len f.pageAddr
    · have hidx := inChunk_of_within hch hf (located_first hf) hin
      intro a ha habs
      exact (mmapFixed_keeps habs).2 (page_within_chunk hch hf hidx ha)
    · refine (h.uniform f hf fun habs => hne ?_).mono fun a ha => (mmapFixed_keeps ha).1
      show (if Within ch.startAddr ch.len f.pageAddr then _ else _) = _
      rw [if_neg hin]
      exact habs
  loaded f hf hdone := (h.loaded f hf hdone).mono fun a ha => (mmapFixed_keeps ha).1
  atPc a ha habs := (mmapFixed_keeps habs).2 ha

theorem discard_mapping
    (h : ∀ a, Within addr len a → m.mapping a = .absent ∨ m.mapping a = .anonymous) :
    (m.discard addr len).mapping = m.mapping := by
  funext a
  show (if Within addr len a ∧ m.mapping a ≠ .anonymous then Mapping.absent
    else m.mapping a) = _
  split
  · rename_i hin
    rcases h a hin.1 with habs | hanon
    · exact habs.symm
    · exact absurd hanon hin.2
  · rfl

/-! ### One step -/

/-- The ranges of a table, for the ledger. -/
def sizedRanges (t : RangeTable) : SizedRanges :=
  ⟨t.ranges, fun r hr => (t.aligned r hr).size⟩

/-- The loop took no page, so the page of the fault is private. -/
theorem done_of_allPrivate (h : Simulates (sizedRanges t).backend L s)
    (hpc : s.pc = .acquire f ch k []) (hk : ¬ k < ch.pageCount) (hin : InChunk ch f.pageIndex) :
    Done (s.states f.pageIndex) := by
  have hfits := h.fits
  rw [hpc] at hfits
  obtain ⟨-, hle, hnil⟩ := hfits
  obtain rfl := Nat.le_antisymm hle (Nat.not_lt.mp hk)
  have hno := not_taken hnil.symm f.pageIndex
  have hst : s.states f.pageIndex = L.states f.pageIndex := by
    rw [h.states hpc]
    exact if_neg hno
  right
  rw [hst]
  by_contra hne
  exact hno ⟨hin, hne⟩

/-- A page is stored once it is there. -/
theorem backed_stored (h : Backed t s) {present : Bool} (hpc : s.pc = .storeShared f present)
    (hf : Located t f) :
    Backed t ((s.setState f.pageIndex .sharedReady).serve.goto
      (if present then .wakePage f else .waiting)) := by
  have hpresent := h.atPc
  rw [hpc] at hpresent
  refine ⟨h.uniform, fun g hg hdone => ?_, ?_⟩
  · by_cases hidx : g.pageIndex = f.pageIndex
    · rw [located_unique hg hf hidx]
      exact hpresent
    · have key : Done (if g.pageIndex = f.pageIndex then .sharedReady
          else s.states g.pageIndex) := hdone
      rw [if_neg hidx] at key
      exact h.loaded g hg key
  · cases present with
    | true => exact hpresent
    | false => trivial

/-- A page becomes private once it is there. -/
theorem backed_marked (h : Backed t s) (hpc : s.pc = .mark ch n k) (hch : CowChunk t.backend ch)
    (hk : k < ch.pageCount) :
    Backed t ((s.setState (ch.firstPageIndex + k) .privateDirty).goto (.mark ch n (k + 1))) := by
  have hpresent := h.atPc
  rw [hpc] at hpresent
  refine ⟨h.uniform, fun g hg hdone => ?_, hpresent⟩
  by_cases hidx : g.pageIndex = ch.firstPageIndex + k
  · have hin : InChunk ch g.pageIndex := ⟨by omega, by omega⟩
    exact fun a ha => hpresent a (page_within_chunk hch hg hin ha)
  · have key : Done (if g.pageIndex = ch.firstPageIndex + k then .privateDirty
        else s.states g.pageIndex) := hdone
    rw [if_neg hidx] at key
    exact h.loaded g hg key

/-- Each move keeps done pages mapped. -/
theorem backed_move (h : Backed t s) (hsite : Sited t s.pc)
    (hL : Simulates (sizedRanges t).backend L s)
    (hmove : HandlerMove t.backend file bufLen s event out s') : s'.pc = .exited ∨ Backed t s' := by
  have hpresent := h.atPc
  cases hmove with
  | failed | refused => exact .inl rfl
  | againPage | againChunk | spinning | yielded => exact .inr h
  | claimed | acquired =>
    exact .inr (h.move (fun _ => Iff.rfl) (fun _ => done_of_loading) trivial)
  | claimReady hpc hst | spun hpc hst =>
    rw [hpc] at hsite
    exact .inr (h.move (fun _ => Iff.rfl) (fun _ => id) (h.loaded _ hsite hst))
  | copied hpc =>
    rename_i f buf
    rw [hpc] at hsite
    obtain ⟨hpage, huniform, hloaded⟩ := backed_copyWp h hsite buf
    refine .inr ⟨huniform, fun g hg hdone => hloaded g hg ?_, hpage⟩
    rw [← congrFun (copyWp_states f.pageAddr f.pageSize buf s) g.pageIndex]
    exact hdone
  | stored hpc =>
    rw [hpc] at hsite
    exact .inr (backed_stored h hpc hsite)
  | allPrivate hpc hk =>
    rw [hpc] at hsite
    have hdone := done_of_allPrivate hL hpc hk (inChunk_of_fault hsite.1 hsite.2)
    exact .inr (h.move (fun _ => Iff.rfl) (fun _ => id) (h.loaded _ hsite.1 hdone))
  | installed hpc =>
    -- the page to install is one of the chunk
    rename_i ch n i buf todo
    have hfits := hL.fits
    rw [hpc] at hfits
    obtain ⟨hin, -⟩ := Ledger.mem_unloaded.mp (hfits.2.subset List.mem_cons_self)
    obtain ⟨g, hg, -, haddr, hsize⟩ := located_of_inChunk hfits.1.chunk hin
    obtain ⟨-, huniform, hloaded⟩ := backed_copyWp h hg buf
    rw [haddr, hsize] at huniform hloaded
    refine .inr ⟨huniform, fun g hg hdone => hloaded g hg ?_, trivial⟩
    rw [← congrFun (copyWp_states (chunkPageAddr ch i) ch.pageSize buf s) g.pageIndex]
    exact hdone
  | unprotected hpc =>
    exact .inr (h.move (fun a => unprotect_absent _ _ _ a) (fun _ => id) trivial)
  | remapped hpc =>
    rw [hpc] at hsite
    exact .inr (backed_remapped h hsite)
  | copiedBack hpc =>
    rw [hpc] at hpresent
    exact .inr (h.move (fun _ => Iff.rfl) (fun _ => id) hpresent)
  | marked hpc hk =>
    rw [hpc] at hsite
    exact .inr (backed_marked h hpc hsite hk)
  | _ => exact .inr (h.move (fun _ => Iff.rfl) (fun _ => id) trivial)

/-- Outside the handler only a page that is given back can become absent. -/
theorem other_mapping (hno : ∀ event out, l ≠ .run (.handler event out))
    (hspare : SparesLoaded s l s') (hstep : hostStep t.backend file bufLen s l = some s') :
    s'.memory.mapping = s.memory.mapping := by
  cases l with
  | post ev => cases hstep; rfl
  | discard addr len =>
    cases hstep
    exact discard_mapping hspare
  | run l =>
    rcases restoreStep_cases hstep with ⟨event, out, rfl, -⟩ | ⟨rfl, hvmm⟩
      | ⟨-, -, j, a, -, rfl⟩
    · exact absurd rfl (hno event out)
    · obtain ⟨phase, rfl⟩ := vmmStep_frame hvmm
      rfl
    · exact access_mapping j a s

end Steps

/-! ## Runs -/

/-- Every page that is done is mapped. -/
structure Inv (t : RangeTable) (s : RestoreState) : Prop where
  sited : Sited t s.pc
  accounted : Accounted (sizedRanges t).backend s
  backed : s.pc = .exited ∨ Backed t s

variable {t : RangeTable} {file : Nat → UInt8} {bufLen : Nat} {s s' : RestoreState}

/-- Unless loaded pages are discarded, so does each step. -/
theorem inv_step (h : Inv t s) (hstep : hostStep t.backend file bufLen s l = some s')
    (hspare : SparesLoaded s l s') : Inv t s' := by
  refine ⟨sited_step h.sited hstep, accounted_step h.accounted hstep, ?_⟩
  rcases hostStep_cases hstep with ⟨event, out, rfl, hh⟩ | ⟨hno, hframe⟩
  · obtain ⟨L, hL⟩ := simulates_of_handlerStep h.accounted hh
    rcases h.backed with hex | hb
    · exact absurd hL.fits (by rw [hex]; exact id)
    · exact backed_move hb h.sited hL (move_of_handlerStep hh)
  · have hmap := other_mapping hno hspare hstep
    rcases h.backed with hex | hb
    · exact .inl (hframe.pc.trans hex)
    · refine .inr (hb.move (fun a => by rw [hmap]) (fun i => by rw [hframe.states]; exact id) ?_)
      rw [hframe.pc]
      exact hb.atPc.mono fun a habs => by rw [← hmap]; exact habs

/-- A handled fault leaves the page mapped. -/
theorem resolved_step (h : Inv t s) (hstep : hostStep t.backend file bufLen s l = some s') :
    Resolved s l s' := by
  intro f hpc hwait
  rcases hostStep_cases hstep with ⟨event, out, rfl, hh⟩ | ⟨-, hframe⟩
  · have hpresent : Present s.memory f := by
      rcases h.backed with hex | hb
      · rcases hpc with hpc | hpc <;> rw [hex] at hpc <;> cases hpc
      · have hat := hb.atPc
        rcases hpc with hpc | hpc <;> rw [hpc] at hat <;> exact hat
    rw [handlerStep] at hh
    rcases hpc with hpc | hpc
    · rw [hpc] at hh
      cases hh
      exact hpresent
    · rw [hpc] at hh
      cases hh
      split
      · exact hpresent
      · exact hpresent
  · -- other steps leave the handler where it is
    rw [hframe.pc] at hwait
    rcases hpc with hpc | hpc <;> rw [hwait] at hpc <;> cases hpc

/-- **FAULTS ARE RESOLVED WHERE LOADED PAGES STAY.**  In every run in which only pages
    that were never loaded or are private are given back to the kernel, a page is
    present whenever the work on its fault ends. -/
theorem faults_resolved (t : RangeTable) (file : Nat → UInt8) (basePageSize n : Nat)
    (ls : List HostLabel)
    (hspare : Moves (host t file basePageSize) SparesLoaded (start n) ls) :
    Moves (host t file basePageSize) Resolved (start n) ls :=
  moves_of_inv (I := Inv t)
    (fun _ _ _ h hl hs => ⟨inv_step h hl hs, resolved_step h hl⟩) ls (start n)
    ⟨trivial, accounted_start n, .inr (backed_start n)⟩ hspare

/-- Only devices give pages back. -/
theorem spares_of_run {basePageSize : Nat} {ls : List HostLabel} (h : ∀ l ∈ ls, ∃ r, l = .run r)
    (s : RestoreState) : Moves (host t file basePageSize) SparesLoaded s ls := by
  refine moves_of_inv (I := fun _ => True) ?_ ls s trivial (moves_of_forall h s)
  rintro s l s' - - ⟨r, rfl⟩
  exact ⟨trivial, trivial⟩

/-! ## One page, one vCPU -/

/-- The vCPU reads the page and the handler loads it. -/
def loadOnePage : List RestoreLabel :=
  [.handler 0 .ok, .vmm, .vmm, .vcpu 0 (.read 65536)]
    ++ List.replicate 5 (.handler 0 .ok) ++ [.retry 0]

/-- The balloon gives the page back before it was ever touched. -/
theorem early_discard_resolved :
    (exec (host onePageTable onePageFile 4096) (start 1)
        (.discard 65536 4096 :: loadOnePage.map .run)).isSome = true
      ∧ Moves (host onePageTable onePageFile 4096) Resolved (start 1)
        (.discard 65536 4096 :: loadOnePage.map .run) := by
  refine ⟨by decide +kernel, faults_resolved onePageTable onePageFile 4096 1 _ ?_⟩
  refine fun s' _ => ⟨fun _ _ => .inl rfl, spares_of_run ?_ s'⟩
  intro l hl
  obtain ⟨r, -, rfl⟩ := List.mem_map.mp hl
  exact ⟨r, rfl⟩

/-- The balloon gives the loaded page back and the vCPU reads it again; the handler is
    about to wake it. -/
def untilWake : List HostLabel :=
  loadOnePage.map .run ++ [.discard 65536 4096, .run (.vcpu 0 (.read 65536)),
    .run (.handler 0 .ok), .run (.handler 0 .ok)]

/-- The handler has found the page `SHARED_READY` and only wakes the vCPU, which faults
    on the same access again. -/
theorem discarded_page_unresolved :
    ¬ Moves (host onePageTable onePageFile 4096) Resolved (start 1)
        (untilWake ++ [.run (.handler 0 .ok)])
      ∧ (exec (host onePageTable onePageFile 4096) (start 1)
          (untilWake ++ [.run (.handler 0 .ok), .run (.retry 0)])).map RestoreState.vcpus
        = some [.blocked (.read 65536)] := by
  refine ⟨fun h => ?_, rfl⟩
  obtain ⟨hlast, -⟩ := moves_exec h rfl _ rfl
  exact hlast ⟨65536, 4096, 0, 0⟩ (.inr rfl) rfl 65536 (by decide) rfl

end FaultPresence
