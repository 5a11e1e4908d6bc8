import DemoStore.DriverFrameProofs
import DemoStore.PoolConcurrencyProofs

/-! # Calls of the driver at the same time

    Threads create templates, map them, fault, close their mappings and delete
    templates.  `snapshot_template_delete` takes four steps: it unlinks the template,
    looks whether the list is empty, destroys the pool and sets it up again, each under
    a lock of its own or none.  A create looks for its id in one section and lists its
    template in another; an `mmap` has found its template before it maps it; whoever
    drops the last reference of a template unlinks it a step later.  A fault and a close
    go through the sections of the pool that `PoolThreads` has, one at a time.

    VMAs are not duplicated here, so each has tracking data of its own.  The kernel does
    not close a VMA while a fault on it is being handled; `busy` says which those
    are. -/

namespace DriverThreads

open SparseFile ObjectHeap PageStore SnapshotDriver DriverFrame PoolSection PoolThreads

/-! ## The threads -/

/-- Where a thread is in the driver; `p` is the `vma_snapshot_data` of the VMA.  A create
    has a template `built`, an `mmap` has `found` one, and `dying` is between the last
    reference and the lock.  A fault goes from `lookup` to `map`, or to `undo` when the
    page could not be inserted.  A close takes the nodes of the tree one after the other,
    `release` is the unref of one.  The last three are the gaps of a delete. -/
inductive Call where
  | idle
  | built (x : Template)
  | found (t : Nat) (call : MmapCall)
  | dying (t : Nat)
  | lookup (p off : Nat) (h : UInt64) (f : File) (env : FaultEnv)
  | load (p off : Nat) (h : UInt64) (f : File) (env : FaultEnv)
  | add (p off : Nat) (h : UInt64) (data : List UInt8) (env : FaultEnv)
  | map (p off e : Nat) (env : FaultEnv)
  | undo (p e : Nat)
  | close (p : Nat)
  | release (p e : Nat)
  | unlinked
  | emptied
  | destroyed

/-- The calls, and `go` for the next step of one; its argument is the outcome of an
    allocation. -/
inductive Label where
  | create (args : IoctlCreateTemplate) (env : CreateEnv)
  | mmap (call : MmapCall)
  | fault (v address : Nat) (env : FaultEnv)
  | close (v : Nat)
  | delete (id : List UInt8)
  | go (ok : Bool)

/-- The driver, the threads inside the pool with the references they hold, and the
    threads inside the driver with the templates they have found. -/
structure CallState where
  d : DriverState
  pcs : Nat → Pc
  refs : List (Nat × Nat)
  calls : Nat → Call
  busy : List (Nat × Nat)
  finds : List (Nat × Nat)

/-- `snapshot_init`. -/
def start : CallState where
  d := initState
  pcs := fun _ => .idle
  refs := []
  calls := fun _ => .idle
  busy := []
  finds := []

namespace CallState

variable (s : CallState) (i : Nat)

/-- What the pool sees. -/
def threads : ThreadState := ⟨coreOf s.d, s.pcs, s.refs⟩

/-- The pool after a step of the threads. -/
def withThreads (w : ThreadState) : CallState :=
  { s with
    d := { s.d with pool := w.core.pool, entries := w.core.entries, oops := w.core.oops }
    pcs := w.pcs
    refs := w.refs }

/-- The driver after a call. -/
def withDriver (d : DriverState) : CallState := { s with d := d }

/-- Call `i` moves on. -/
def setCall (c : Call) : CallState := { s with calls := Function.update s.calls i c }

/-- A fault returns. -/
def endFault : CallState :=
  { s.setCall i .idle with busy := s.busy.filter fun r => r.1 ≠ i }

end CallState

/-! ## Calls of the pool -/

/-- The pool function that the thread is about to call or has called. -/
def Call.request : Call → Option Action
  | .lookup _ _ h _ _ => some (.lookup h)
  | .add _ _ h data _ => some (.add h data)
  | .undo _ e => some (.unref e)
  | .release _ e => some (.unref e)
  | _ => none

/-- The next step of the thread in the pool. -/
def nextAction (request : Action) (ok : Bool) : Pc → Action
  | .idle => request
  | _ => .go ok

/-- The steps that look into a bucket. -/
def usesBuckets : Pc → Bool
  | .idle => true
  | .filled _ _ => true
  | _ => false

/-- The entry that the call handed out. -/
def held (refs : List (Nat × Nat)) (i : Nat) : Option Nat :=
  (refs.find? fun r => r.1 == i).map Prod.snd

/-- The thread is back from the pool. -/
def resume (s : CallState) (i : Nat) : Call → Option Nat → CallState
  | .lookup p off _ _ env, some e => s.setCall i (.map p off e env)
  | .lookup p off h f env, none => s.setCall i (.load p off h f env)
  | .add p off _ _ env, some e => s.setCall i (.map p off e env)
  -- `VM_FAULT_OOM`
  | .add _ _ _ _ _, none => s.endFault i
  | .undo _ _, _ => s.endFault i
  | .release p _, _ => s.setCall i (.close p)
  | _, _ => s

/-- After a step in the pool. -/
def afterPool (s : CallState) (i : Nat) (c : Call) (w : ThreadState) : CallState :=
  match w.pcs i with
  | .idle => resume (s.withThreads w) i c (held w.refs i)
  | _ => s.withThreads w

/-- One step of a call of the pool; without buckets it does not return. -/
def poolCall (s : CallState) (i : Nat) (c : Call) (request : Action) (ok : Bool) :
    Option CallState :=
  if s.d.pool.allocated = false ∧ usesBuckets (s.pcs i) = true then
    some (s.withDriver { s.d with oops := true })
  else (poolStep s.threads (i, nextAction request ok (s.pcs i))).map (afterPool s i c)

/-! ## Calls of the driver -/

/-- `snapshot_template_create` without its last section, which lists the template. -/
def createTemplate (s : CallState) (i : Nat) (args : IoctlCreateTemplate) (env : CreateEnv) :
    CallState :=
  let r := snapshotTemplateCreate s.d args env
  if r.1 = 0 then s.setCall i (.built (r.2.templates.val s.d.templates.next))
  else s.withDriver r.2

/-- `snapshot_mmap` up to `snapshot_template_find_ref`. -/
def startMmap (s : CallState) (i : Nat) (call : MmapCall) : CallState :=
  match mmapTarget s.d call with
  | none => s
  | some t =>
    { (s.withDriver (addTemplateRef s.d t 1)).setCall i (.found t call) with
      finds := (i, t) :: s.finds }

/-- The `atomic_dec_and_test` of `snapshot_template_unref`. -/
def dropTemplate (s : CallState) (i t : Nat) : CallState :=
  let d := addTemplateRef s.d t (-1)
  (s.withDriver d).setCall i (if (d.templates.val t).refCount = 0 then .dying t else .idle)

/-- The rest of `snapshot_mmap`. -/
def finishMmap (s : CallState) (i t : Nat) (call : MmapCall) (kzalloc : Bool) : CallState :=
  let s := { s with finds := s.finds.erase (i, t) }
  let size := call.vmEnd - call.vmStart
  if size % pageSize ≠ 0 ∨ size > (s.d.templates.val t).totalSize then dropTemplate s i t
  else if kzalloc = false then dropTemplate s i t
  else (s.withDriver (addTemplateRef (addVma s.d call t) t 1)).setCall i .idle

/-- `snapshot_vma_fault` up to the lookup. -/
def startFault (s : CallState) (i : Nat) (x : Vma) (address : Nat) (env : FaultEnv) :
    CallState :=
  let template := s.d.templates.val (s.d.datas.val x.vmPrivateData).template
  let vaOffset := address - x.vmStart
  if vaOffset / pageSize ≥ template.pageCount then s
  else
    match template.pageTableCache[vaOffset / pageSize]? with
    | none => s
    | some pte =>
      { s.setCall i
          (.lookup x.vmPrivateData vaOffset pte.hashIdx template.pagesFile env) with
        busy := (i, x.vmPrivateData) :: s.busy }

/-- The page is read from the template's file. -/
def loadPage (s : CallState) (i p off : Nat) (h : UInt64) (f : File) (env : FaultEnv) :
    CallState :=
  if env.kmallocBuf = false then s.endFault i
  else
    match probePages (env.kernelRead f) hashModulus h maxProbeCount
        (h.toNat % hashModulus) with
    | .found data => s.setCall i (.add p off h data env)
    | _ => s.endFault i

/-- From `map_page` on.  What the thread held is the tree's afterwards, if the node got
    into the tree. -/
def mapEntry (s : CallState) (i p off e : Nat) (env : FaultEnv) : CallState :=
  let d := addPageRefs (trackNode s.d p off e env.kmallocNode) e 1
  if env.insertPage then ({ s with d := d, refs := s.refs.erase (i, e) } : CallState).endFault i
  else (s.withDriver (addPageRefs d e (-1))).setCall i (.undo p e)

/-- One turn of the loop in `snapshot_vma_close` up to the unref, or its end. -/
def closeNode (s : CallState) (i p : Nat) : CallState :=
  match (s.d.datas.val p).vaToPaMap with
  | [] => dropTemplate (s.withDriver (freeData s.d p)) i (s.d.datas.val p).template
  | n :: ns =>
    let d := { s.d with
      datas := s.d.datas.modify p (VmaSnapshotData.setMap ns)
      nodesFreed := s.d.nodesFreed + 1 }
    ({ s with
      d := addPageRefs d n.physEntry (-1)
      refs := (i, n.physEntry) :: s.refs } : CallState).setCall i (.release p n.physEntry)

/-- The first section of `snapshot_template_delete`. -/
def deleteTemplate (s : CallState) (i : Nat) (id : List UInt8) : CallState :=
  match findTemplate s.d id with
  | none => s
  | some t =>
    if (s.d.templates.val t).refCount.toInt > 0 then s
    else (s.withDriver (removeTemplate s.d t)).setCall i .unlinked

/-- One step of thread `i` in the given call. -/
def callStep (s : CallState) (i : Nat) : Call → Label → Option CallState
  | .idle, .create args env => some (createTemplate s i args env)
  | .built x, .go _ => some ((s.withDriver (created s.d x)).setCall i .idle)
  | .idle, .mmap call =>
    if call.vmStart < call.vmEnd then some (startMmap s i call) else none
  | .found t call, .go kzalloc => some (finishMmap s i t call kzalloc)
  | .dying t, .go _ => some ((s.withDriver (removeTemplate s.d t)).setCall i .idle)
  | .idle, .fault v address env =>
    (findVma s.d v).bind fun x =>
      if x.vmStart ≤ address ∧ address < x.vmEnd then some (startFault s i x address env)
      else none
  | .idle, .close v =>
    (findVma s.d v).bind fun x =>
      if ∀ r ∈ s.busy, r.2 ≠ x.vmPrivateData then
        some ((s.withDriver (dropVma s.d v)).setCall i (.close x.vmPrivateData))
      else none
  | .idle, .delete id => some (deleteTemplate s i id)
  | .unlinked, .go _ =>
    some (s.setCall i (if s.d.templateList = [] then .emptied else .idle))
  | .emptied, .go _ => some ((s.withDriver (snapshotPoolDestroy s.d)).setCall i .destroyed)
  | .destroyed, .go kvmalloc =>
    some ((s.withDriver (snapshotPoolInit s.d kvmalloc)).setCall i .idle)
  | .load p off h f env, .go _ => some (loadPage s i p off h f env)
  | .map p off e env, .go _ => some (mapEntry s i p off e env)
  | .close p, .go _ => some (closeNode s i p)
  | .lookup p off h f env, .go ok => poolCall s i (.lookup p off h f env) (.lookup h) ok
  | .add p off h data env, .go ok => poolCall s i (.add p off h data env) (.add h data) ok
  | .undo p e, .go ok => poolCall s i (.undo p e) (.unref e) ok
  | .release p e, .go ok => poolCall s i (.release p e) (.unref e) ok
  | _, _ => none

/-- Thread `l.1` takes the step `l.2`. -/
def threadStep (s : CallState) (l : Nat × Label) : Option CallState :=
  callStep s l.1 (s.calls l.1) l.2

/-! ## What each step does -/

/-- The steps, one constructor for each. -/
inductive CallMove (s : CallState) (i : Nat) : Label → CallState → Prop where
  | createFail (args : IoctlCreateTemplate) (env : CreateEnv) (d : DriverState)
      (hcall : s.calls i = .idle) (hd : d = s.d ∨ d = discardTemplate s.d) :
      CallMove s i (.create args env) (s.withDriver d)
  | build (args : IoctlCreateTemplate) (env : CreateEnv) (x : Template)
      (hcall : s.calls i = .idle) (hx : x.refCount = 0) :
      CallMove s i (.create args env) (s.setCall i (.built x))
  | list (ok : Bool) (x : Template) (hcall : s.calls i = .built x) :
      CallMove s i (.go ok) ((s.withDriver (created s.d x)).setCall i .idle)
  | notFound (call : MmapCall) (hcall : s.calls i = .idle) : CallMove s i (.mmap call) s
  | findRef (call : MmapCall) (t : Nat) (hcall : s.calls i = .idle)
      (ht : mmapTarget s.d call = some t) :
      CallMove s i (.mmap call)
        { (s.withDriver (addTemplateRef s.d t 1)).setCall i (.found t call) with
          finds := (i, t) :: s.finds }
  | mmapFail (ok : Bool) (t : Nat) (call : MmapCall) (hcall : s.calls i = .found t call) :
      CallMove s i (.go ok) (dropTemplate { s with finds := s.finds.erase (i, t) } i t)
  | mmap (ok : Bool) (t : Nat) (call : MmapCall) (hcall : s.calls i = .found t call) :
      CallMove s i (.go ok)
        { (s.withDriver (addTemplateRef (addVma s.d call t) t 1)).setCall i .idle with
          finds := s.finds.erase (i, t) }
  | die (ok : Bool) (t : Nat) (hcall : s.calls i = .dying t) :
      CallMove s i (.go ok) ((s.withDriver (removeTemplate s.d t)).setCall i .idle)
  | faultError (v address : Nat) (env : FaultEnv) (hcall : s.calls i = .idle) :
      CallMove s i (.fault v address env) s
  | fault (v address : Nat) (env : FaultEnv) (x : Vma) (h : UInt64) (f : File)
      (hcall : s.calls i = .idle) (hx : x ∈ s.d.vmas) :
      CallMove s i (.fault v address env)
        { s.setCall i (.lookup x.vmPrivateData (address - x.vmStart) h f env) with
          busy := (i, x.vmPrivateData) :: s.busy }
  | close (v : Nat) (x : Vma) (hcall : s.calls i = .idle) (hx : findVma s.d v = some x)
      (hfree : ∀ r ∈ s.busy, r.2 ≠ x.vmPrivateData) :
      CallMove s i (.close v) ((s.withDriver (dropVma s.d v)).setCall i (.close x.vmPrivateData))
  | refused (id : List UInt8) (hcall : s.calls i = .idle) : CallMove s i (.delete id) s
  | unlink (id : List UInt8) (t : Nat) (hcall : s.calls i = .idle)
      (hcount : ¬ (s.d.templates.val t).refCount.toInt > 0) :
      CallMove s i (.delete id) ((s.withDriver (removeTemplate s.d t)).setCall i .unlinked)
  | remain (ok : Bool) (hcall : s.calls i = .unlinked) :
      CallMove s i (.go ok) (s.setCall i .idle)
  | empty (ok : Bool) (hcall : s.calls i = .unlinked) (hnil : s.d.templateList = []) :
      CallMove s i (.go ok) (s.setCall i .emptied)
  | destroy (ok : Bool) (hcall : s.calls i = .emptied) :
      CallMove s i (.go ok) ((s.withDriver (snapshotPoolDestroy s.d)).setCall i .destroyed)
  | init (kvmalloc : Bool) (hcall : s.calls i = .destroyed) :
      CallMove s i (.go kvmalloc) ((s.withDriver (snapshotPoolInit s.d kvmalloc)).setCall i .idle)
  | oops (ok : Bool) : CallMove s i (.go ok) (s.withDriver { s.d with oops := true })
  | pool (ok : Bool) (c : Call) (request : Action) (w : ThreadState) (hcall : s.calls i = c)
      (hrequest : c.request = some request)
      (hstep : poolStep s.threads (i, nextAction request ok (s.pcs i)) = some w) :
      CallMove s i (.go ok) (afterPool s i c w)
  | loadFail (ok : Bool) (p off : Nat) (h : UInt64) (f : File) (env : FaultEnv)
      (hcall : s.calls i = .load p off h f env) : CallMove s i (.go ok) (s.endFault i)
  | loaded (ok : Bool) (p off : Nat) (h : UInt64) (f : File) (env : FaultEnv)
      (data : List UInt8) (hcall : s.calls i = .load p off h f env) :
      CallMove s i (.go ok) (s.setCall i (.add p off h data env))
  | map (ok : Bool) (p off e : Nat) (env : FaultEnv) (hcall : s.calls i = .map p off e env) :
      CallMove s i (.go ok) (mapEntry s i p off e env)
  | node (ok : Bool) (p : Nat) (n : VaToPaEntry) (ns : List VaToPaEntry)
      (hcall : s.calls i = .close p) (hmap : (s.d.datas.val p).vaToPaMap = n :: ns) :
      CallMove s i (.go ok) (closeNode s i p)
  | closed (ok : Bool) (p : Nat) (hcall : s.calls i = .close p)
      (hmap : (s.d.datas.val p).vaToPaMap = []) :
      CallMove s i (.go ok)
        (dropTemplate (s.withDriver (freeData s.d p)) i (s.d.datas.val p).template)

variable {s s' : CallState}

variable {i : Nat}

/-- A pool call of a fault is a move. -/
theorem move_of_poolCall {c : Call} {request : Action} {ok : Bool} (hcall : s.calls i = c)
    (hrequest : c.request = some request) (hstep : poolCall s i c request ok = some s') :
    CallMove s i (.go ok) s' := by
  rw [poolCall] at hstep
  split at hstep
  · cases hstep
    exact .oops ok
  · obtain ⟨w, hw, rfl⟩ := Option.map_eq_some_iff.mp hstep
    exact .pool ok c request w hcall hrequest hw

/-- The start of a fault is a move. -/
theorem move_of_startFault {v address : Nat} {env : FaultEnv} {x : Vma}
    (hcall : s.calls i = .idle) (hx : x ∈ s.d.vmas) :
    CallMove s i (.fault v address env) (startFault s i x address env) := by
  rw [startFault]
  dsimp only
  split
  · exact .faultError v address env hcall
  · split
    · exact .faultError v address env hcall
    · exact .fault v address env x _ _ hcall hx

/-- A create is a move. -/
theorem move_of_createTemplate (args : IoctlCreateTemplate) (env : CreateEnv)
    (hcall : s.calls i = .idle) :
    CallMove s i (.create args env) (createTemplate s i args env) := by
  rw [createTemplate]
  rcases snapshotTemplateCreate_cases s.d args env with
    ⟨r, hr, hfail | hfail⟩ | ⟨_, _, -, hdone⟩
  · rw [hfail]
    dsimp only
    rw [if_neg hr]
    exact .createFail args env s.d hcall (.inl rfl)
  · rw [hfail]
    dsimp only
    rw [if_neg hr]
    exact .createFail args env (discardTemplate s.d) hcall (.inr rfl)
  · rw [hdone]
    dsimp only
    rw [if_pos rfl]
    refine .build args env _ hcall ?_
    show ((s.d.templates.alloc _).val s.d.templates.next).refCount = 0
    rw [val_alloc_self]
    rfl

/-- The rest of an `mmap` is a move. -/
theorem move_of_finishMmap {t : Nat} {call : MmapCall} (kzalloc : Bool)
    (hcall : s.calls i = .found t call) :
    CallMove s i (.go kzalloc) (finishMmap s i t call kzalloc) := by
  rw [finishMmap]
  dsimp only
  split
  · exact .mmapFail kzalloc t call hcall
  · split
    · exact .mmapFail kzalloc t call hcall
    · exact .mmap kzalloc t call hcall

/-- **Inversion of a step**; no proof below takes `callStep` apart again. -/
theorem callMove_of_step {l : Nat × Label} (hstep : threadStep s l = some s') :
    CallMove s l.1 l.2 s' := by
  obtain ⟨i, a⟩ := l
  rw [threadStep] at hstep
  generalize hcall : s.calls i = c at hstep
  cases c with
  | idle =>
    cases a with
    | create args env =>
      cases hstep
      exact move_of_createTemplate args env hcall
    | mmap call =>
      rw [callStep] at hstep
      split at hstep
      · cases hstep
        rw [startMmap]
        cases ht : mmapTarget s.d call with
        | none => exact .notFound call hcall
        | some t => exact .findRef call t hcall ht
      · cases hstep
    | fault v address env =>
      obtain ⟨x, hx, hin⟩ := Option.bind_eq_some_iff.mp hstep
      split at hin
      · cases hin
        exact move_of_startFault hcall (mem_of_findVma hx).1
      · cases hin
    | close v =>
      obtain ⟨x, hx, hfree⟩ := Option.bind_eq_some_iff.mp hstep
      split at hfree
      · rename_i hbusy
        cases hfree
        exact .close v x hcall hx hbusy
      · cases hfree
    | delete id =>
      cases hstep
      show CallMove s i (.delete id) (deleteTemplate s i id)
      rw [deleteTemplate]
      split
      · exact .refused id hcall
      · split
        · exact .refused id hcall
        · rename_i hcount
          exact .unlink id _ hcall hcount
    | go ok => cases hstep
  | built x =>
    cases a with
    | go ok =>
      cases hstep
      exact .list ok x hcall
    | _ => cases hstep
  | found t call =>
    cases a with
    | go ok =>
      cases hstep
      exact move_of_finishMmap ok hcall
    | _ => cases hstep
  | dying t =>
    cases a with
    | go ok =>
      cases hstep
      exact .die ok t hcall
    | _ => cases hstep
  | unlinked =>
    cases a with
    | go ok =>
      cases hstep
      by_cases hnil : s.d.templateList = []
      · rw [if_pos hnil]
        exact .empty ok hcall hnil
      · rw [if_neg hnil]
        exact .remain ok hcall
    | _ => cases hstep
  | emptied =>
    cases a with
    | go ok =>
      cases hstep
      exact .destroy ok hcall
    | _ => cases hstep
  | destroyed =>
    cases a with
    | go ok =>
      cases hstep
      exact .init ok hcall
    | _ => cases hstep
  | load p off h f env =>
    cases a with
    | go ok =>
      cases hstep
      show CallMove s i (.go ok) (loadPage s i p off h f env)
      rw [loadPage]
      split
      · exact .loadFail ok p off h f env hcall
      · split
        · exact .loaded ok p off h f env _ hcall
        · exact .loadFail ok p off h f env hcall
    | _ => cases hstep
  | map p off e env =>
    cases a with
    | go ok =>
      cases hstep
      exact .map ok p off e env hcall
    | _ => cases hstep
  | close p =>
    cases a with
    | go ok =>
      cases hstep
      cases hmap : (s.d.datas.val p).vaToPaMap with
      | nil =>
        rw [closeNode, hmap]
        exact .closed ok p hcall hmap
      | cons n ns => exact .node ok p n ns hcall hmap
    | _ => cases hstep
  | lookup | add | undo | release =>
    cases a with
    | go ok => exact move_of_poolCall hcall rfl hstep
    | _ => cases hstep

end DriverThreads
