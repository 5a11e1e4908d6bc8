import DemoStore.ChildSessionProofs
import DemoStore.TurnTakingProofs

/-! # The demo: a parent and a child on one template

    `run_demo` forks.  The child is a client of the template with its own fault handler; it
    reads page 0, then reads and writes pages 6, 8 and 11 and exports a checkpoint.  The
    parent has the same memfd mapped, but without a fault handler: where the memfd has no
    page it would find zeros, and leave them there for the child.  One byte tokens through
    two pipes keep the two apart.

    The tokens are those of `TurnTakingProofs`, so a run is a run of the accesses one after
    the other; the handler thread of the child runs beside them.  Whatever the schedule and
    whatever fails, the parent sees the backend's pages, no write of the child reaches them,
    and every access of the child sees the child's memory. -/

namespace DemoHandshake

open TemplateClient MachineRun TurnTaking ChildSession List Option
open ClientSession (Session sessionStep Consistent memory Written Settled store)
open ClientIsolation (Clean)
open ClientCheckpoint (Checkpoint exportCheckpoint DirtyPage)

/-! ## The scripts -/

/-- The bytes the two processes send. -/
inductive Token where
  | b
  | r
  | l
  | w
  | d
  | q
  deriving DecidableEq

/-- What a process does between two tokens. -/
inductive Act where
  /-- `log_before_read_fault` -/
  | beforeRead (p : Nat)
  /-- the child makes an access -/
  | access (acc : Access)
  /-- the access has completed -/
  | awaits
  /-- the parent reads a byte -/
  | peek (p j : Nat)
  | exports
  /-- `stop_handler` -/
  | stop

/-- `WRITE_PAGES`. -/
def writePages : List Nat := [6, 8, 11]

/-- `PREVIEW_LEN.min(page_size)`. -/
def previewLen (b : OverlayBackend) : Nat := min 48 b.pageSize

/-- The reads of `preview_from_mapping`. -/
def preview (b : OverlayBackend) (p : Nat) : List Access :=
  (List.range (previewLen b)).map (.read p)

/-- The three writes of the child: `b'X' + idx`. -/
def writes : List Access := writePages.zipIdx.map fun q => .write q.1 0 (0x58 + q.2.toUInt8)

/-- The accesses of the child after `W`. -/
def work (b : OverlayBackend) : List Access :=
  writePages.flatMap (fun p => .read p 0 :: preview b p) ++ writes ++ writePages.flatMap (preview b)

/-- All accesses of the child. -/
def accesses (b : OverlayBackend) : List Access := preview b 0 ++ work b

/-- The bytes the parent reads of a page. -/
def peeks (b : OverlayBackend) (p : Nat) : List (Nat × Nat) :=
  (List.range (previewLen b)).map fun j => (p, j)

/-- All bytes the parent reads. -/
def views (b : OverlayBackend) : List (Nat × Nat) := peeks b 0 ++ writePages.flatMap (peeks b)

/-- The child makes an access to its end. -/
def touch (acc : Access) : List Act := [.access acc, .awaits]

/-- The parent reads this byte. -/
def look (q : Nat × Nat) : Act := .peek q.1 q.2

/-- The turns of `run_demo` and `child_process`; the child has the first one. -/
def turns (b : OverlayBackend) : List (Turn Act Token) :=
  [([.beforeRead 0], .b), ([.beforeRead 0], .r), ((preview b 0).flatMap touch, .l),
    ((peeks b 0).map look, .w), ((work b).flatMap touch ++ [.exports], .d),
    ((writePages.flatMap (peeks b)).map look, .q)]

/-! ## What the actions do -/

/-- What both processes act on. -/
structure World where
  /-- the child -/
  session : Session
  /-- what the parent has read -/
  seen : List ((Nat × Nat) × Option UInt8)
  checkpoint : Option Checkpoint

/-- The parent reads a byte; where the memfd has no page the kernel puts one of zeros. -/
def peek (b : OverlayBackend) (w : World) (q : Nat × Nat) : World :=
  match w.session.shared.memfd q.1 with
  | some page => { w with seen := w.seen ++ [(q, page[q.2]?)] }
  | none =>
    { w with
      session := { w.session with
        shared := w.session.shared.setPage q.1 (List.replicate b.pageSize 0) }
      seen := w.seen ++ [(q, (List.replicate b.pageSize 0)[q.2]?)] }

/-- An act of the parent or the child. -/
def act (b : OverlayBackend) : Bool → Act → World → Option (Option World)
  | true, .beforeRead p, w =>
    if w.session.shared.states p = .sharedReady then
      ((preview b p).foldlM (fun σ acc => sessionStep b σ (.access 0 acc)) w.session).map
        fun σ => some { w with session := σ }
    else some (some w)
  | false, .beforeRead p, w =>
    if w.session.shared.states p = .sharedReady then some (some ((peeks b p).foldl (peek b) w))
    else some (some w)
  | true, .access acc, w =>
    (sessionStep b w.session (.access 0 acc)).map fun σ => some { w with session := σ }
  | true, .awaits, w =>
    match w.session.client.threads 0 with
    | .running => some (some w)
    | _ => none
  | false, .peek p j, w => some (some (peek b w (p, j)))
  | true, .exports, w =>
    (exportCheckpoint b w.session.shared w.session.client).map fun cp =>
      some { w with checkpoint := some cp }
  -- the error of the handler comes back from its thread
  | true, .stop, w => if w.session.client.pc = .exited then some none else some (some w)
  | _, _, _ => none

/-- The handler thread, and the main thread after a fault. -/
def env (b : OverlayBackend) : ClientLabel → World → Option World
  | .access _ _, _ => none
  | l, w => (sessionStep b w.session l).map fun σ => { w with session := σ }

/-- The acts and the steps beside them. -/
def meaning (b : OverlayBackend) : Meaning Act World ClientLabel where
  act := act b
  env := env b
  owner := fun _ => true

/-- After `Client::new` and `start_handler`. -/
def start : World where
  session := ClientSession.begin
  seen := []
  checkpoint := none

/-- Both scripts at their start. -/
def demo (b : OverlayBackend) : Duo Act Token World := begin true [.stop] (turns b) start

/-! ## The order of the accesses -/

/-- The accesses among the actions. -/
def accessesOf : List (Bool × Act) → List Access
  | [] => []
  | (_, .access acc) :: rest => acc :: accessesOf rest
  | _ :: rest => accessesOf rest

/-- The bytes still to be read. -/
def peeksOf : List (Bool × Act) → List (Nat × Nat)
  | [] => []
  | (_, .peek p j) :: rest => (p, j) :: peeksOf rest
  | _ :: rest => peeksOf rest

/-- The parent looks at pages only that the child has touched before, each access is waited
    for, and none comes after the export. -/
def Planned (b : OverlayBackend) : List Nat → List (Bool × Act) → Prop
  | _, [] => True
  | pages, (_, .beforeRead p) :: rest => p ∉ pages ∧ Planned b pages rest
  | pages, (x, .access acc) :: rest => x = true ∧ acc.page < b.pageCount ∧ acc.offset < b.pageSize
      ∧ rest.head?.map Prod.snd = some .awaits ∧ Planned b (acc.page :: pages) rest
  | pages, (x, .awaits) :: rest => x = true ∧ Planned b pages rest
  | pages, (x, .peek p _) :: rest => x = false ∧ p ∈ pages ∧ Planned b pages rest
  | pages, (x, .exports) :: rest => x = true ∧ accessesOf rest = [] ∧ Planned b pages rest
  | pages, (x, .stop) :: rest => x = true ∧ Planned b pages rest

section Plan

variable {b : OverlayBackend} {pages : List Nat} {rest : List (Bool × Act)}

theorem accessesOf_append (xs ys : List (Bool × Act)) :
    accessesOf (xs ++ ys) = accessesOf xs ++ accessesOf ys := by
  induction xs with
  | nil => rfl
  | cons a xs ih =>
    obtain ⟨x, a⟩ := a
    cases a <;> simp [accessesOf, ih]

theorem peeksOf_append (xs ys : List (Bool × Act)) :
    peeksOf (xs ++ ys) = peeksOf xs ++ peeksOf ys := by
  induction xs with
  | nil => rfl
  | cons a xs ih =>
    obtain ⟨x, a⟩ := a
    cases a <;> simp [peeksOf, ih]

theorem accessesOf_touches (x : Bool) (accs : List Access) :
    accessesOf ((accs.flatMap touch).map (x, ·)) = accs
      ∧ peeksOf ((accs.flatMap touch).map (x, ·)) = [] := by
  induction accs with
  | nil => exact ⟨rfl, rfl⟩
  | cons acc accs ih =>
    refine ⟨congrArg (acc :: ·) ih.1, ih.2⟩

theorem peeksOf_looks (x : Bool) (qs : List (Nat × Nat)) :
    accessesOf ((qs.map look).map (x, ·)) = [] ∧ peeksOf ((qs.map look).map (x, ·)) = qs := by
  induction qs with
  | nil => exact ⟨rfl, rfl⟩
  | cons q qs ih => exact ⟨ih.1, congrArg (q :: ·) ih.2⟩

theorem planned_touches {accs : List Access}
    (hin : ∀ acc ∈ accs, acc.page < b.pageCount ∧ acc.offset < b.pageSize)
    (hrest : Planned b ((accs.map Access.page).reverse ++ pages) rest) :
    Planned b pages ((accs.flatMap touch).map (true, ·) ++ rest) := by
  induction accs generalizing pages with
  | nil => exact hrest
  | cons acc accs ih =>
    obtain ⟨hp, hj⟩ := hin acc mem_cons_self
    refine ⟨rfl, hp, hj, rfl, rfl, ih (fun a ha => hin a (mem_cons_of_mem acc ha)) ?_⟩
    rw [map_cons, reverse_cons, append_assoc] at hrest
    exact hrest

theorem planned_looks {qs : List (Nat × Nat)} (hin : ∀ q ∈ qs, q.1 ∈ pages)
    (hrest : Planned b pages rest) : Planned b pages ((qs.map look).map (false, ·) ++ rest) := by
  induction qs with
  | nil => exact hrest
  | cons q qs ih =>
    exact ⟨rfl, hin q mem_cons_self, ih fun a ha => hin a (mem_cons_of_mem q ha)⟩

end Plan

variable {b : OverlayBackend} {acc : Access} {σ : Session}

/-- The pages and offsets of the demo. -/
theorem in_bounds (hsize : 0 < b.pageSize) (hcount : 11 < b.pageCount) :
    ∀ acc ∈ accesses b, acc.page < b.pageCount ∧ acc.offset < b.pageSize := by
  have hpreview : ∀ p, p ≤ 11 → ∀ acc ∈ preview b p,
      acc.page < b.pageCount ∧ acc.offset < b.pageSize := by
    intro p hp acc hacc
    obtain ⟨j, hj, rfl⟩ := List.mem_map.mp hacc
    rw [mem_range, previewLen] at hj
    exact ⟨show p < _ by omega, show j < _ by omega⟩
  have hpages : ∀ p ∈ writePages, p ≤ 11 := by decide
  intro acc hacc
  rcases mem_append.mp hacc with h | h
  · exact hpreview 0 (by omega) acc h
  rcases mem_append.mp h with h | h
  · rcases mem_append.mp h with h | h
    · obtain ⟨p, hp, hacc⟩ := mem_flatMap.mp h
      have hle := hpages p hp
      rcases mem_cons.mp hacc with rfl | hacc
      · exact ⟨show p < _ by omega, hsize⟩
      · exact hpreview p hle acc hacc
    · obtain ⟨q, hq, rfl⟩ := List.mem_map.mp h
      have hle := hpages q.1 (fst_mem_of_mem_zipIdx hq)
      exact ⟨show q.1 < _ by omega, hsize⟩
  · obtain ⟨p, hp, hacc⟩ := mem_flatMap.mp h
    exact hpreview p (hpages p hp) acc hacc

/-- The plan of the demo. -/
def plan (b : OverlayBackend) : List (Bool × Act) := order [.stop] true (turns b)

theorem plan_eq (b : OverlayBackend) :
    plan b = (true, .beforeRead 0) :: (false, .beforeRead 0) ::
      (((preview b 0).flatMap touch).map (true, ·)
        ++ (((peeks b 0).map look).map (false, ·)
          ++ (((work b).flatMap touch).map (true, ·)
            ++ ((true, .exports) :: (((writePages.flatMap (peeks b)).map look).map (false, ·)
              ++ [(true, .stop)]))))) := by
  simp [plan, turns, order]

/-- The plan has the accesses of the demo. -/
theorem accessesOf_plan (b : OverlayBackend) : accessesOf (plan b) = accesses b := by
  rw [plan_eq]
  simp only [accessesOf, accessesOf_append, (accessesOf_touches _ _).1, (peeksOf_looks _ _).1,
    nil_append, append_nil, accesses]

/-- The plan has the parent's reads. -/
theorem peeksOf_plan (b : OverlayBackend) : peeksOf (plan b) = views b := by
  rw [plan_eq]
  simp only [peeksOf, peeksOf_append, (accessesOf_touches _ _).2, (peeksOf_looks _ _).2,
    nil_append, append_nil, views]

/-- The plan reads only what was touched. -/
theorem planned_plan (hsize : 0 < b.pageSize) (hcount : 11 < b.pageCount) :
    Planned b [] (plan b) := by
  have hin := in_bounds hsize hcount
  rw [plan_eq]
  refine ⟨not_mem_nil, not_mem_nil, ?_⟩
  refine planned_touches (fun acc h => hin acc (mem_append_left _ h)) ?_
  refine planned_looks ?_ ?_
  · intro q hq
    obtain ⟨j, hj, rfl⟩ := List.mem_map.mp hq
    refine mem_append_left _ (mem_reverse.mpr (List.mem_map.mpr ⟨.read 0 j, ?_, rfl⟩))
    exact List.mem_map_of_mem hj
  refine planned_touches (fun acc h => hin acc (mem_append_right _ h)) ⟨rfl, ?_, ?_⟩
  · rw [accessesOf_append, (peeksOf_looks _ _).1]
    rfl
  refine planned_looks ?_ ⟨rfl, trivial⟩
  intro q hq
  obtain ⟨p, hp, hq⟩ := mem_flatMap.mp hq
  obtain ⟨j, hj, rfl⟩ := List.mem_map.mp hq
  refine mem_append_left _ (mem_reverse.mpr (List.mem_map.mpr ⟨.read p 0, ?_, rfl⟩))
  refine mem_append_left _ (mem_append_left _ (mem_flatMap.mpr ⟨p, hp, ?_⟩))
  exact mem_cons_self

/-! ## The checkpoint -/

/-- The access is a write. -/
def isWrite : Access → Bool
  | .read _ _ => false
  | .write _ _ _ => true

/-- What the export should have: the three pages, each with the byte that was written. -/
def Exported (b : OverlayBackend) (cp : Checkpoint) : Prop :=
  cp.dirtyPages
    = writes.map (fun acc => ⟨acc.page, acc.apply ((b.readPage acc.page).getD [])⟩)

section Export

variable {b : OverlayBackend} {log : List (Access × Option UInt8)}

theorem foldl_store_filter (accs : List Access) (M : Nat → Option (List UInt8)) :
    accs.foldl store M = (accs.filter isWrite).foldl store M := by
  induction accs generalizing M with
  | nil => rfl
  | cons acc accs ih =>
    cases acc with
    | read p j =>
      rw [foldl_cons, ClientSession.store_read, ih]
      rfl
    | write p j x => exact ih _

theorem filter_preview (b : OverlayBackend) (p : Nat) : (preview b p).filter isWrite = [] := by
  rw [filter_eq_nil_iff]
  intro acc hacc
  obtain ⟨j, -, rfl⟩ := List.mem_map.mp hacc
  simp [isWrite]

theorem filter_accesses (b : OverlayBackend) : (accesses b).filter isWrite = writes := by
  have hwrites : writes.filter isWrite = writes := by decide
  have hreads : ∀ f : Nat → List Access, (∀ p, (f p).filter isWrite = []) →
      (writePages.flatMap f).filter isWrite = [] := by
    intro f hf
    rw [filter_flatMap, flatMap_eq_nil_iff]
    exact fun p _ => hf p
  rw [accesses, work, filter_append, filter_append, filter_append, hwrites,
    filter_preview, hreads _ (filter_preview b), hreads, nil_append, nil_append,
    append_nil]
  intro p
  rw [filter_cons_of_neg (by simp [isWrite]), filter_preview]

/-- The memory of the child at the end. -/
theorem memory_end (hlog : log.map Prod.fst = accesses b) (hacc : acc ∈ writes) :
    memory b log acc.page = (b.readPage acc.page).map acc.apply := by
  have hfold : memory b log = writes.foldl store b.readPage := by
    rw [← filter_accesses b, ← foldl_store_filter, ← hlog, foldl_map]
    rfl
  rw [hfold]
  have hcases : acc = .write 6 0 0x58 ∨ acc = .write 8 0 0x59 ∨ acc = .write 11 0 0x5a := by
    revert hacc
    simp [writes, writePages]
  rcases hcases with rfl | rfl | rfl <;>
    simp [writes, writePages, store, Access.page, Function.update]

theorem written_end (hlog : log.map Prod.fst = accesses b) (p : Nat) :
    Written log p ↔ p ∈ writePages := by
  have hmem : Written log p ↔ ∃ j x, Access.write p j x ∈ writes := by
    rw [← filter_accesses b, ← hlog]
    constructor
    · rintro ⟨j, x, v, h⟩
      exact ⟨j, x, mem_filter.mpr ⟨List.mem_map.mpr ⟨_, h, rfl⟩, rfl⟩⟩
    · rintro ⟨j, x, h⟩
      obtain ⟨e, he, heq⟩ := List.mem_map.mp (mem_filter.mp h).1
      obtain ⟨acc, v⟩ := e
      cases heq
      exact ⟨j, x, v, he⟩
  have hpages : writes.map Access.page = writePages := by decide
  have hwrite : ∀ acc ∈ writes, isWrite acc = true := by decide
  rw [hmem, ← hpages]
  constructor
  · rintro ⟨j, x, h⟩
    exact List.mem_map.mpr ⟨_, h, rfl⟩
  · intro h
    obtain ⟨acc, hacc, rfl⟩ := List.mem_map.mp h
    cases acc with
    | read p j => cases hwrite _ hacc
    | write p j x => exact ⟨j, x, hacc⟩

/-- The pages that are found dirty, in order. -/
theorem filter_writePages {n : Nat} (hn : 11 < n) :
    (List.range n).filter (· ∈ writePages) = writePages := by
  obtain ⟨k, rfl⟩ := Nat.exists_eq_add_of_le (show 12 ≤ n from hn)
  rw [range_add, filter_append, show (List.range 12).filter (· ∈ writePages) = writePages
    by decide, filter_eq_nil_iff.mpr, append_nil]
  intro p hp
  obtain ⟨i, -, rfl⟩ := List.mem_map.mp hp
  have hlarge : ∀ q ∈ writePages, q < 12 := by decide
  rw [decide_eq_true_iff]
  intro hmem
  have hlt := hlarge _ hmem
  omega

/-- **THE EXPORT** between accesses has what the child has written. -/
theorem exports_of_idle (hcount : 11 < b.pageCount) (h : Child b σ) (hidle : busy σ.client = none)
    (hlog : σ.log.map Prod.fst = accesses b) :
    ∃ cp, exportCheckpoint b σ.shared σ.client = some cp ∧ Exported b cp := by
  have hsettled := fun p => settled_of_idle h.alone hidle h.live p
  have hdirty : ∀ p, σ.client.dirty p = true ↔ p ∈ writePages := fun p =>
    (hsettled p).2.trans (written_end hlog p)
  have hread : ∀ p, σ.client.dirty p = true →
      ∃ page, readView p σ.shared σ.client = some page ∧ memory b σ.log p = some page :=
    fun p hp => ClientCheckpoint.readView_of_dirty (hsettled p).1 hp
  refine ⟨_, ClientCheckpoint.exportCheckpoint_eq fun p hp => ?_, ?_⟩
  · obtain ⟨page, hpage, -⟩ := hread p hp
    rw [hpage]
    rfl
  · have hfilter : (List.range b.pageCount).filter σ.client.dirty = writePages := by
      rw [← filter_writePages hcount]
      refine filter_congr fun p _ => ?_
      rw [Bool.eq_iff_iff, hdirty p, decide_eq_true_iff]
    have hpages : writes.map Access.page = writePages := by decide
    rw [Exported, hfilter, ← hpages, List.map_map]
    refine map_congr_left fun acc hacc => ?_
    have hp : acc.page ∈ writePages := by
      rw [← hpages]
      exact List.mem_map_of_mem hacc
    obtain ⟨page, hpage, hmem⟩ := hread acc.page ((hdirty acc.page).mpr hp)
    rw [memory_end hlog hacc] at hmem
    obtain ⟨old, hold, rfl⟩ := map_eq_some_iff.mp hmem
    show ClientCheckpoint.dirtyPage σ.shared σ.client acc.page = _
    rw [ClientCheckpoint.dirtyPage, hpage, hold]
    rfl

end Export

/-! ## The invariant -/

/-- What is done and what is planned make up the demo. -/
structure DemoInv (b : OverlayBackend) (todo : List (Bool × Act)) (w : World) : Prop where
  child : Child b w.session
  waits : busy w.session.client ≠ none → todo.head?.map Prod.snd = some .awaits
  accesses : issued w.session ++ accessesOf todo = accesses b
  views : w.seen.map Prod.fst ++ peeksOf todo = views b
  right : ∀ q ∈ w.seen, ∃ page, b.readPage q.1.1 = some page ∧ q.2 = page[q.1.2]?
  planned : ∃ pages, Planned b pages todo ∧ ∀ p, p ∈ pages ↔ Touched w.session p
  exported : ∀ cp, w.checkpoint = some cp → Exported b cp
  unexported : w.checkpoint = none → (true, .exports) ∈ todo

theorem demoInv_start (hsize : 0 < b.pageSize) (hcount : 11 < b.pageCount) :
    DemoInv b (plan b) start where
  child := child_begin
  waits := fun h => absurd rfl h
  accesses := accessesOf_plan b
  views := peeksOf_plan b
  right := fun _ h => absurd h not_mem_nil
  planned := by
    refine ⟨[], planned_plan hsize hcount, fun p => ⟨fun h => absurd h not_mem_nil, ?_⟩⟩
    rintro ⟨acc, hacc, -⟩
    exact absurd hacc not_mem_nil
  exported := by
    intro cp h
    cases h
  unexported := by
    intro _
    rw [plan_eq]
    simp

/-! ## Steps -/

section Steps

variable {b : OverlayBackend} {w w' : World} {todo : List (Bool × Act)}

/-- A page the child has touched and left is the backend's in the memfd. -/
theorem peek_right (h : Child b w.session) (hidle : busy w.session.client = none) {q : Nat × Nat}
    (ht : Touched w.session q.1) :
    ∃ page, b.readPage q.1 = some page
      ∧ peek b w q = { w with seen := w.seen ++ [(q, page[q.2]?)] } := by
  obtain ⟨acc, hacc, hp⟩ := ht
  rw [issued, hidle, toList_none, append_nil] at hacc
  obtain ⟨e, he, rfl⟩ := List.mem_map.mp hacc
  have hmem := h.present e he
  rw [hp] at hmem
  obtain ⟨page, hpage⟩ := Option.ne_none_iff_exists'.mp hmem
  refine ⟨page, h.clean _ _ hpage, ?_⟩
  rw [peek, hpage]

variable {x : Bool} {a : Act} {p : Nat}

/-- Nothing but the actions to come changes. -/
theorem DemoInv.skip (h : DemoInv b ((x, a) :: todo) w) (hidle : busy w.session.client = none)
    (ha : accessesOf ((x, a) :: todo) = accessesOf todo)
    (hv : peeksOf ((x, a) :: todo) = peeksOf todo)
    (hplan : ∀ pages, Planned b pages ((x, a) :: todo) → Planned b pages todo)
    (hexp : (x, a) ≠ (true, .exports)) : DemoInv b todo w where
  child := h.child
  waits := fun hb => absurd hidle hb
  accesses := by
    rw [← ha]
    exact h.accesses
  views := by
    rw [← hv]
    exact h.views
  right := h.right
  planned := by
    obtain ⟨pages, hp, ht⟩ := h.planned
    exact ⟨pages, hplan pages hp, ht⟩
  exported := h.exported
  unexported := fun hnone =>
    (mem_cons.mp (h.unexported hnone)).resolve_left fun heq => hexp heq.symm

theorem DemoInv.idle (h : DemoInv b ((x, a) :: todo) w) (ha : a ≠ .awaits) :
    busy w.session.client = none := by
  by_contra hb
  exact ha (some.inj (h.waits hb))

/-- No page is loaded before the first access to it. -/
theorem DemoInv.unloaded (h : DemoInv b ((x, .beforeRead p) :: todo) w) :
    ¬ w.session.shared.states p = .sharedReady := by
  obtain ⟨pages, ⟨hp, -⟩, ht⟩ := h.planned
  rw [h.child.untouched.fresh p fun hc => hp ((ht p).mpr hc)]
  intro hc
  cases hc

theorem demoInv_access (h : DemoInv b ((true, .access acc) :: todo) w)
    (hs : sessionStep b w.session (.access 0 acc) = some σ) :
    DemoInv b todo { w with session := σ } := by
  have hidle := h.idle (fun hc => by cases hc)
  have hone : OneThread w.session (.access 0 acc) := by
    rintro i acc' heq
    cases heq
    exact ⟨rfl, hidle⟩
  obtain ⟨hchild, hissued⟩ := child_step h.child hone hs
  obtain ⟨pages, ⟨-, -, -, hhead, hplan⟩, ht⟩ := h.planned
  refine ⟨hchild, fun _ => hhead, ?_, h.views, h.right, ⟨acc.page :: pages, hplan, ?_⟩,
    h.exported, fun hnone => ?_⟩
  · show issued σ ++ accessesOf todo = _
    rw [hissued, append_assoc]
    exact h.accesses
  · intro p
    show _ ↔ Touched σ p
    rw [mem_cons, ht, Touched, Touched, hissued]
    constructor
    · rintro (rfl | ⟨a, ha, rfl⟩)
      · exact ⟨acc, mem_append_right _ (mem_singleton_self acc), rfl⟩
      · exact ⟨a, mem_append_left _ ha, rfl⟩
    · rintro ⟨a, ha, rfl⟩
      rcases mem_append.mp ha with ha | ha
      · exact .inr ⟨a, ha, rfl⟩
      · rw [mem_singleton.mp ha]
        exact .inl rfl
  · refine (mem_cons.mp (h.unexported hnone)).resolve_left ?_
    intro hc
    cases hc

theorem demoInv_peek {j : Nat} (h : DemoInv b ((false, .peek p j) :: todo) w) :
    DemoInv b todo (peek b w (p, j)) := by
  have hidle := h.idle (fun hc => by cases hc)
  obtain ⟨pages, ⟨-, hp, hplan⟩, ht⟩ := h.planned
  obtain ⟨page, hpage, heq⟩ := peek_right (q := (p, j)) h.child hidle ((ht p).mp hp)
  rw [heq]
  refine ⟨h.child, fun hb => absurd hidle hb, h.accesses, ?_, ?_, ⟨pages, hplan, ht⟩, h.exported,
    fun hnone => ?_⟩
  · show (w.seen ++ [((p, j), _)]).map Prod.fst ++ peeksOf todo = _
    rw [map_append, append_assoc]
    exact h.views
  · intro q hq
    rcases mem_append.mp hq with hold | hnew
    · exact h.right q hold
    · rw [mem_singleton.mp hnew]
      exact ⟨page, hpage, rfl⟩
  · refine (mem_cons.mp (h.unexported hnone)).resolve_left ?_
    intro hc
    cases hc

/-- The export returns the pages written. -/
theorem DemoInv.exports (hcount : 11 < b.pageCount)
    (h : DemoInv b ((true, .exports) :: todo) w) :
    ∃ cp, exportCheckpoint b w.session.shared w.session.client = some cp ∧ Exported b cp
      ∧ DemoInv b todo { w with checkpoint := some cp } := by
  have hidle := h.idle (fun hc => by cases hc)
  obtain ⟨pages, ⟨-, hnone, hplan⟩, ht⟩ := h.planned
  have hlog : w.session.log.map Prod.fst = DemoHandshake.accesses b := by
    have hall : issued w.session ++ accessesOf todo = _ := h.accesses
    rwa [issued, hidle, hnone, toList_none, append_nil, append_nil] at hall
  obtain ⟨cp, hcp, hexp⟩ := exports_of_idle hcount h.child hidle hlog
  refine ⟨cp, hcp, hexp, ⟨h.child, fun hb => absurd hidle hb, h.accesses, h.views, h.right,
    ⟨pages, hplan, ht⟩, ?_, ?_⟩⟩
  · intro cp' heq
    cases heq
    exact hexp
  · intro heq
    cases heq

/-- **ONE ACTION** of either process. -/
theorem demoInv_act (hcount : 11 < b.pageCount) (h : DemoInv b ((x, a) :: todo) w)
    (hs : act b x a w = some (some w')) : DemoInv b todo w' := by
  obtain ⟨pages, hplan, -⟩ := h.planned
  cases a with
  | beforeRead p =>
    have hstate := h.unloaded
    have hidle := h.idle (fun hc => by cases hc)
    have hnext : DemoInv b todo w :=
      h.skip hidle rfl rfl (fun _ hp => hp.2) (fun hc => by cases hc)
    cases x with
    | true | false =>
      rw [act, if_neg hstate] at hs
      cases hs
      exact hnext
  | access acc =>
    obtain ⟨rfl, -⟩ := hplan
    obtain ⟨σ, hσ, heq⟩ := map_eq_some_iff.mp hs
    cases heq
    exact demoInv_access h hσ
  | awaits =>
    obtain ⟨rfl, -⟩ := hplan
    rw [act] at hs
    split at hs
    · rename_i hrun
      cases hs
      exact h.skip (busy_eq_none.mpr hrun) rfl rfl (fun _ hp => hp.2) (fun hc => by cases hc)
    · cases hs
  | peek p j =>
    obtain ⟨rfl, -⟩ := hplan
    cases hs
    exact demoInv_peek h
  | exports =>
    obtain ⟨rfl, -⟩ := hplan
    obtain ⟨cp, hcp, -, hnext⟩ := h.exports hcount
    rw [act, hcp] at hs
    cases hs
    exact hnext
  | stop =>
    obtain ⟨rfl, -⟩ := hplan
    have hidle := h.idle (fun hc => by cases hc)
    rw [act] at hs
    split at hs
    · cases hs
    · cases hs
      exact h.skip hidle rfl rfl (fun _ hp => hp.2) (fun hc => by cases hc)

/-- **ONE STEP** of the handler, or of the thread that it has woken. -/
theorem demoInv_env {l : ClientLabel} (h : DemoInv b todo w) (hs : env b l w = some w') :
    DemoInv b todo w' := by
  have hne : ∀ i acc, l ≠ .access i acc := by
    rintro i acc rfl
    cases hs
  obtain ⟨σ, hσ, rfl⟩ : ∃ σ, sessionStep b w.session l = some σ ∧ { w with session := σ } = w' := by
    cases l with
    | access i acc => exact absurd rfl (hne i acc)
    | retry | handler => exact map_eq_some_iff.mp hs
  have hone : OneThread w.session l := fun i acc hl => absurd hl (hne i acc)
  have hnew : newAccess l = [] := by
    cases l with
    | access i acc => exact absurd rfl (hne i acc)
    | retry | handler => rfl
  obtain ⟨hchild, hissued⟩ := child_step h.child hone hσ
  rw [hnew, append_nil] at hissued
  refine ⟨hchild, fun hb => h.waits fun hidle => hb ?_, ?_, h.views, h.right, ?_, h.exported,
    h.unexported⟩
  · exact idle_step h.child.alone hone hnew hidle hσ
  · show issued σ ++ _ = _
    rw [hissued]
    exact h.accesses
  · obtain ⟨pages, hplan, ht⟩ := h.planned
    refine ⟨pages, hplan, fun p => ?_⟩
    rw [ht, Touched, Touched]
    show _ ↔ ∃ acc ∈ issued σ, acc.page = p
    rw [hissued]

/-- Each act keeps to the plan. -/
theorem demoInv_seq (hcount : 11 < b.pageCount) (s : List (Bool × Act) × World)
    (l : Option ClientLabel) (s' : List (Bool × Act) × World) (h : DemoInv b s.1 s.2)
    (hs : seqStep (meaning b) s l = some s') : DemoInv b s'.1 s'.2 := by
  obtain ⟨todo, w⟩ := s
  cases l with
  | none =>
    rw [seqStep] at hs
    cases todo with
    | nil => cases hs
    | cons xa rest =>
      obtain ⟨w', hw', rfl⟩ := map_eq_some_iff.mp hs
      exact demoInv_act hcount h (join_eq_some_iff.mp hw')
  | some l =>
    obtain ⟨w', hw', rfl⟩ := map_eq_some_iff.mp hs
    exact demoInv_env h hw'

/-- An action of the demo has to wait only for a fault. -/
theorem DemoInv.next (hcount : 11 < b.pageCount) (h : DemoInv b ((x, a) :: todo) w) :
    (act b x a w).isSome ∨ x = true ∧ ∃ acc, busy w.session.client = some acc := by
  obtain ⟨pages, hplan, -⟩ := h.planned
  cases a with
  | beforeRead p =>
    left
    cases x with
    | true | false => rw [act, if_neg h.unloaded]; rfl
  | access acc =>
    left
    obtain ⟨rfl, hp, hj, -⟩ := hplan
    have hrun := busy_eq_none.mp (h.idle fun hc => by cases hc)
    rw [act, isSome_map, sessionStep, isSome_map, clientStep, isSome_map,
      attempt, hrun]
    dsimp only
    rw [if_pos ⟨hp, hj⟩]
    rfl
    all_goals
      intro _ _ hc
      cases hc
  | awaits =>
    obtain ⟨rfl, -⟩ := hplan
    cases hb : busy w.session.client with
    | none =>
      left
      rw [act, busy_eq_none.mp hb]
      rfl
    | some acc => exact .inr ⟨rfl, acc, rfl⟩
  | peek p j =>
    obtain ⟨rfl, -⟩ := hplan
    exact .inl rfl
  | exports =>
    left
    obtain ⟨rfl, -⟩ := hplan
    obtain ⟨cp, hcp, -⟩ := h.exports hcount
    rw [act, hcp]
    rfl
  | stop =>
    left
    obtain ⟨rfl, -⟩ := hplan
    rw [act]
    split <;> rfl

/-- The steps in which a process or the fault handler fails. -/
def Failure : Label ClientLabel → Prop
  | .fail _ => True
  | .env (.handler _ .fail) => True
  | _ => False

/-- A fault is served, and the thread that was woken goes on. -/
theorem DemoInv.served (h : DemoInv b todo w) (hlive : w.session.client.pc ≠ .exited)
    (hb : busy w.session.client = some acc) : ∃ l, ¬ Failure (.env l) ∧ (env b l w).isSome := by
  cases ht : w.session.client.threads 0 with
  | running =>
    rw [busy_eq_none.mpr ht] at hb
    cases hb
  | woken acc' =>
    refine ⟨.retry 0, id, ?_⟩
    rw [env, isSome_map, sessionStep, isSome_map, clientStep, isSome_map,
      attempt, ht]
    · rfl
    all_goals
      intro _ _ hc
      cases hc
  | blocked acc' =>
    refine ⟨.handler 0 .ok, id, ?_⟩
    rcases h.child.live with ⟨hinv, -⟩ | hdead
    · rw [env, isSome_map, sessionStep, isSome_map]
      · exact handler_isSome hinv ht
      · intro _ _ hc
        cases hc
    · exact absurd hdead.pc hlive

end Steps

/-! ## Runs -/

theorem closer_turns (b : OverlayBackend) : closer true (turns b) = true := rfl

/-- The two scripts start in step. -/
theorem inStep_demo (b : OverlayBackend) : InStep [.stop] true (demo b) (plan b) := by
  have h := inStep_begin true [.stop] (turns b) start
  rw [closer_turns] at h
  exact h

/-- A run of the two processes is a run of the plan. -/
theorem demo_follows (hsize : 0 < b.pageSize) (hcount : 11 < b.pageCount)
    {ls : List (Label ClientLabel)} {d : Duo Act Token World}
    (hrun : exec (duoStep (meaning b)) (demo b) ls = some d) :
    d.confused = false ∧ ∃ todo, InStep [.stop] true d todo ∧ DemoInv b todo d.world := by
  obtain ⟨hconf, todo, sls, hstep, hexec⟩ := simulates (inStep_demo b) hrun
  refine ⟨hconf, todo, hstep, ?_⟩
  exact inv_of_reachable (I := fun s => DemoInv b s.1 s.2) ⟨sls, hexec⟩
    (demoInv_start hsize hcount) (demoInv_seq hcount)

/-- **THE PARENT SEES THE TEMPLATE, THE CHILD ITS OWN MEMORY**: in every run, with any process
    or handler failing at any point, no token is unexpected, the memfd has only the backend's
    pages, every byte the parent reads is the backend's, and every access of the child sees the
    backend with the child's own writes. -/
theorem demo_isolates (b : OverlayBackend) (hsize : 0 < b.pageSize) (hcount : 11 < b.pageCount)
    {ls : List (Label ClientLabel)} {d : Duo Act Token World}
    (hrun : exec (duoStep (meaning b)) (demo b) ls = some d) :
    d.confused = false ∧ Clean b d.world.session.shared
      ∧ (∀ q ∈ d.world.seen, ∃ page, b.readPage q.1.1 = some page ∧ q.2 = page[q.1.2]?)
      ∧ Consistent b d.world.session.log := by
  obtain ⟨hconf, todo, -, h⟩ := demo_follows hsize hcount hrun
  refine ⟨hconf, h.child.clean, h.right, ?_⟩
  rcases h.child.live with ⟨hinv, -⟩ | hdead
  · exact hinv.log
  · exact hdead.log

/-- Twelve pages of one byte. -/
def letters : OverlayBackend where
  pageSize := 1
  pageCount := 12
  layers := [⟨"base", ⟨12, fun i => if i < 12 then 0x41 + i.toUInt8 else 0, fun _ hi =>
    if_neg (Nat.not_lt.mpr hi)⟩, [0xfff]⟩]

/-- The first of these steps that can be taken, up to `n` times. -/
def greedy (b : OverlayBackend) : Nat → Duo Act Token World → List (Label ClientLabel)
  | 0, _ => []
  | n + 1, d =>
    match [.next true, .next false, .env (.handler 0 .ok), .env (.retry 0)].find?
        fun l => (duoStep (meaning b) d l).isSome with
    | none => []
    | some l => l :: (duoStep (meaning b) d l).elim [] (greedy b n)

/-- The demo on a store of letters. -/
def lettersRun : Option (Duo Act Token World) :=
  exec (duoStep (meaning letters)) (demo letters) (greedy letters 100 (demo letters))

theorem lettersRun_eq :
    lettersRun.map (fun d => (d.status false, d.world.seen.map Prod.snd))
      = some (.exited true, [some 0x41, some 0x47, some 0x49, some 0x4c]) := by rfl

/-- The parent reads `A`, `G`, `I` and `L`, although the child has written `X`, `Y` and `Z`. -/
theorem letters_isolates :
    ∃ d, lettersRun = some d
      ∧ d.world.seen.map Prod.snd = [some 0x41, some 0x47, some 0x49, some 0x4c]
      ∧ Clean letters d.world.session.shared ∧ Consistent letters d.world.session.log := by
  obtain ⟨d, hd, heq⟩ := map_eq_some_iff.mp lettersRun_eq
  obtain ⟨-, hclean, -, hlog⟩ := demo_isolates letters (by decide) (by decide) hd
  exact ⟨d, hd, (Prod.mk.inj heq).2, hclean, hlog⟩

end DemoHandshake
