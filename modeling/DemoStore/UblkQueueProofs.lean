import DemoStore.MachineRunProofs
import DemoStore.UblkLoopProofs
import Mathlib.Data.List.Nodup
import Mathlib.Data.List.Perm.Subperm

/-! # The command queue of the ublk server

    The server owns 32 tags.  For each of them it hands a `FETCH_REQ` to the driver,
    starts the device, and from then on every completion of such a command is a
    request that it serves and answers with `COMMIT_AND_FETCH_REQ`, which at the same
    time asks for the next one.  Commands go through a submission ring of 64 entries;
    the server ignores what `io_uring_submit` returns, so an entry may stay in the
    ring until a later submission.

    The run theorem: whatever the driver, the block layer and the signals do, and
    whichever submissions fail, each request is answered at most once, on its tag, with
    the result and the bytes that belong to it; none is ever lost between the
    completion ring, the server and the submission ring; and the ring is never full. -/

namespace UblkQueue

open SparseFile UblkLoop MachineRun List
open Function (update update_of_ne update_self)

/-! ## The machine -/

/-- A request of the block layer. -/
structure Request where
  id : Nat
  iod : IoDesc

/-- What the driver knows about a tag: no command yet, a command that waits for a request, a
    request that is with the server, a command that has ended without one. -/
inductive TagState where
  | idle
  | armed
  | given (req : Request)
  | ended

/-- `res` of a completion. -/
inductive CqeRes where
  | ok
  | needGetData
  | abort
  | other (code : Int)
  deriving DecidableEq

/-- A submission queue entry. -/
inductive Sqe where
  | fetch (tag : Nat)
  | commit (tag : Nat) (result : IoResult)
  deriving DecidableEq

/-- The tag it is for. -/
def Sqe.tag : Sqe → Nat
  | .fetch tag => tag
  | .commit tag _ => tag

/-- What the block layer gets back. -/
structure Completion where
  tag : Nat
  req : Request
  result : IoResult
  data : List UInt8

/-- Where `main` and `io_loop` are. -/
inductive ServerPc where
  | fetch (i : Nat)
  | startDev
  | simulate
  | wait
  | serve (tag : Nat)
  | commit (tag : Nat) (result : IoResult)
  | exited
  deriving DecidableEq

/-- A queue: driver, rings and server. -/
structure QueueState where
  tags : Nat → TagState
  /-- `io_cmd_buf` -/
  desc : Nat → IoDesc
  /-- the mapping of `io_buf` and what lies behind it -/
  mem : Nat → UInt8
  sq : List Sqe
  cq : List (Nat × CqeRes)
  pc : ServerPc
  running : Bool
  live : Bool
  issued : List (Nat × Request)
  completed : List Completion
  /-- a command that the driver cannot accept -/
  misuse : Bool

/-- The submission ring: `io_uring_queue_init(q->depth * 2, ..)`. -/
def sqEntries : Nat := queueDepth * 2

/-- Changes the state of a tag. -/
def setTag (t : Nat) (x : TagState) (s : QueueState) : QueueState :=
  { s with tags := update s.tags t x }

/-- The bytes in the buffer of a tag that a request is about. -/
def dataOf (mem : Nat → UInt8) (t : Nat) (iod : IoDesc) : List UInt8 :=
  load mem (getIoBuf t) (byteSize iod)

/-- The driver ends a request with what the server answers. -/
def complete (t : Nat) (req : Request) (result : IoResult) (s : QueueState) : QueueState :=
  { s with
    tags := update s.tags t .armed
    completed := s.completed ++ [⟨t, req, result, dataOf s.mem t req.iod⟩] }

/-- One command reaches the driver. -/
def deliver (s : QueueState) : Sqe → QueueState
  | .fetch t =>
    match s.tags t with
    | .idle => setTag t .armed s
    | _ => { s with misuse := true }
  | .commit t result =>
    match s.tags t with
    | .given req => complete t req result s
    | _ => { s with misuse := true }

/-- The driver takes the entries of the ring in order. -/
def drain : List Sqe → QueueState → QueueState
  | [], s => { s with sq := [] }
  | e :: es, s => drain es (deliver { s with sq := es } e)

/-- `io_uring_submit`; what is not submitted stays in the ring. -/
def submit (ok : Bool) (s : QueueState) : QueueState :=
  if ok then drain s.sq s else s

/-- `io_uring_get_sqe`, the entry filled in, and `io_uring_submit`; `none` if the ring is
    full. -/
def push (e : Sqe) (ok : Bool) (s : QueueState) : Option QueueState :=
  if s.sq.length < sqEntries then some (submit ok { s with sq := s.sq ++ [e] }) else none

/-- The steps of a queue. -/
inductive Label where
  /-- the block layer sends a request on a tag; `data` is what a write brings along -/
  | post (tag : Nat) (iod : IoDesc) (data : List UInt8)
  /-- the driver ends a waiting command -/
  | refuse (tag : Nat) (res : CqeRes)
  | signal
  /-- the server submits at `fetch` or `commit` -/
  | submits (ok : Bool)
  | startDev (ok : Bool)
  | simulate (readOk : Bool)
  /-- `io_uring_wait_cqe` returns `-EINTR`, another error, a completion -/
  | interrupted
  | waitFails
  | reap
  | serve (readOk : Bool)

/-- A request reaches the server's rings and buffers. -/
def post (t : Nat) (iod : IoDesc) (data : List UInt8) (s : QueueState) : QueueState :=
  { setTag t (.given ⟨s.issued.length, iod⟩) s with
    desc := update s.desc t iod
    mem := store (getIoBuf t) data s.mem
    cq := s.cq ++ [(t, .ok)]
    issued := s.issued ++ [(t, ⟨s.issued.length, iod⟩)] }

/-- A step of the queue. -/
def queueStep (f : File) (s : QueueState) : Label → Option QueueState
  | .post t iod data =>
    match s.tags t with
    | .armed => if s.live then some (post t iod data s) else none
    | _ => none
  | .refuse t res =>
    match s.tags t with
    | .armed =>
      if res = .ok then none
      else some { setTag t .ended s with cq := s.cq ++ [(t, res)] }
    | _ => none
  | .signal => some { s with running := false }
  | .submits ok =>
    match s.pc with
    | .fetch i =>
      -- `issue_all_fetch_reqs`: one entry for each tag and a last `io_uring_submit`
      if i < queueDepth then
        match push (.fetch i) ok s with
        | some s' => some { s' with pc := .fetch (i + 1) }
        | none => some { s with pc := .exited }
      else some { submit ok s with pc := .startDev }
    | .commit t result =>
      match push (.commit t result) ok s with
      | some s' => some { s' with pc := .wait }
      | none => some { s with pc := .wait }
    | _ => none
  | .startDev ok =>
    match s.pc with
    | .startDev => some (if ok then { s with live := true, pc := .simulate }
        else { s with pc := .exited })
    | _ => none
  | .simulate readOk =>
    match s.pc with
    | .simulate => some { s with mem := (handleReadIo f 0 0 8 readOk s.mem).2, pc := .wait }
    | _ => none
  | .interrupted =>
    match s.pc with
    | .wait => some (if s.running then s else { s with pc := .exited })
    | _ => none
  | .waitFails =>
    match s.pc with
    | .wait => some { s with pc := .exited }
    | _ => none
  | .reap =>
    match s.pc, s.running, s.cq with
    | .wait, true, (t, .ok) :: rest => some { s with cq := rest, pc := .serve t }
    | .wait, true, (_, _) :: rest => some { s with cq := rest }
    | .wait, false, _ => some { s with pc := .exited }
    | _, _, _ => none
  | .serve readOk =>
    match s.pc with
    | .serve t =>
      let r := processIoRequest f t (s.desc t) readOk s.mem
      some { s with mem := r.2, pc := .commit t r.1 }
    | _ => none

/-- Before `issue_all_fetch_reqs`, with whatever the two mappings hold. -/
def start (desc : Nat → IoDesc) (mem : Nat → UInt8) : QueueState where
  tags := fun _ => .idle
  desc := desc
  mem := mem
  sq := []
  cq := []
  pc := .fetch 0
  running := true
  live := false
  issued := []
  completed := []
  misuse := false

/-! ## What belongs to a request -/

/-- The answer to a request: a result, and for a read that succeeds the bytes of the file from
    the start sector on, in the buffer of its tag. -/
def Answered (f : File) (iod : IoDesc) (result : IoResult) (data : List UInt8) : Prop :=
  match iod.op with
  | .read =>
    result = .eio ∨ result = .ok
      ∧ data = bytes f (iod.startSector.toNat * 512) (iod.nrSectors.toNat * 512)
  | .write => result = .erofs
  | .flush => result = .ok
  | .discard => result = .ok
  | .writeZeroes => result = .ok
  | .unknown _ => result = .einval

/-- A request fits into the buffer of its tag and starts below 4 GiB, where the server's offset
    wraps around. -/
structure FitsTag (iod : IoDesc) : Prop where
  size : iod.nrSectors.toNat * 512 ≤ tagBufferSize
  start : iod.startSector.toNat < 2 ^ 23

/-- The driver uses the tags of the queue, and requests fit. -/
def Label.Fits : Label → Prop
  | .post t iod data => t < queueDepth ∧ FitsTag iod ∧ data.length ≤ tagBufferSize
  | _ => True

theorem tagBufferSize_eq : tagBufferSize = 4096 := by decide

variable {iod : IoDesc} {t u i : Nat} {r : IoResult} {mem : Nat → UInt8} {req : Request}

theorem max_of_fits (h : FitsTag iod) : iod.nrSectors.toNat ≤ maxSectors := by
  have hmax : maxSectors = 256 := rfl
  have hsize := h.size
  rw [tagBufferSize_eq] at hsize
  omega

/-- The data of a request stays when nothing in the slice of its tag changes. -/
theorem dataOf_congr {mem' : Nat → UInt8} (hfit : FitsTag iod)
    (hsame : ∀ i < tagBufferSize, mem' (getIoBuf t + i) = mem (getIoBuf t + i)) :
    dataOf mem' t iod = dataOf mem t iod := by
  refine load_congr fun i hi => hsame i ?_
  rw [byteSize_eq (max_of_fits hfit)] at hi
  exact Nat.lt_of_lt_of_le hi hfit.size

/-- The server answers as the request asks. -/
theorem answered_processIoRequest (f : File) (t : Nat) (hfit : FitsTag iod) (readOk : Bool)
    (mem : Nat → UInt8) :
    Answered f iod (processIoRequest f t iod readOk mem).1
      (dataOf (processIoRequest f t iod readOk mem).2 t iod) := by
  unfold Answered
  cases hop : iod.op with
  | read =>
    dsimp only
    cases readOk with
    | false =>
      left
      rw [processIoRequest, hop]
      rfl
    | true =>
      right
      rw [processIoRequest_read hop]
      refine ⟨rfl, ?_⟩
      have hload := load_store (getIoBuf t) (bytes f (byteOffset iod) (byteSize iod)) mem
      have hstart := hfit.start
      rw [length_bytes] at hload
      rw [dataOf, hload, byteOffset_eq, byteSize_eq (max_of_fits hfit), Nat.mod_eq_of_lt (by omega)]
  | _ => rw [processIoRequest, hop]

/-- Serving one tag leaves the slices of the others alone. -/
theorem processIoRequest_other_slice {f : File} {readOk : Bool} (hfit : FitsTag iod) (hne : t ≠ u)
    (hi : i < tagBufferSize) :
    (processIoRequest f t iod readOk mem).2 (getIoBuf u + i) = mem (getIoBuf u + i) := by
  refine onlyOwnSlice_of_fits (max_of_fits hfit) (fun _ => hfit.size) _ ?_
  have hapart := slices_apart hne
  rw [getIoBuf_succ]
  omega

/-! ## Where a request is -/

/-- The entries of the submission ring for a tag. -/
def fetches (s : QueueState) (t : Nat) : Nat := s.sq.count (.fetch t)

/-- It commits this tag. -/
def Sqe.commits (t : Nat) : Sqe → Bool
  | .commit u _ => u == t
  | .fetch _ => false

/-- The commits in the ring. -/
def commits (s : QueueState) (t : Nat) : Nat := s.sq.countP (Sqe.commits t)

/-- The server works on the tag. -/
def ServerPc.serves (t : Nat) : ServerPc → Nat
  | .serve u => if u = t then 1 else 0
  | .commit u _ => if u = t then 1 else 0
  | _ => 0

/-- The places where the server has the request of a tag: the completion ring, its hands, the
    submission ring. -/
def held (s : QueueState) (t : Nat) : Nat :=
  s.cq.count (t, .ok) + s.pc.serves t + commits s t

/-- Before `io_loop` waits for the first time. -/
def ServerPc.early : ServerPc → Bool
  | .fetch _ => true
  | .startDev => true
  | .simulate => true
  | _ => false

/-- One while the server has a request. -/
def TagState.load : TagState → Nat
  | .given _ => 1
  | _ => 0

/-- A request that is with the server. -/
structure Pending (s : QueueState) (t : Nat) (req : Request) : Prop where
  tag : t < queueDepth
  desc : s.desc t = req.iod
  fits : FitsTag req.iod
  issued : (t, req) ∈ s.issued
  fresh : ∀ c ∈ s.completed, c.req.id ≠ req.id

/-- Each tag is in one place, with its request. -/
structure Inv (f : File) (s : QueueState) : Prop where
  held_eq : ∀ t, held s t = (s.tags t).load
  fetch_le : ∀ t, fetches s t ≤ 1
  fetch_idle : ∀ t, 0 < fetches s t → s.tags t = .idle ∧ t < queueDepth
  todo : ∀ i, s.pc = .fetch i → ∀ t, i ≤ t → s.tags t = .idle ∧ fetches s t = 0
  early : s.pc.early = true → ∀ t, commits s t = 0
  pending : ∀ t req, s.tags t = .given req → Pending s t req
  ids : ∀ k t (req : Request), s.issued[k]? = some (t, req) → req.id = k
  answers : ∀ t req r, s.tags t = .given req → (.commit t r ∈ s.sq ∨ s.pc = .commit t r) →
    Answered f req.iod r (dataOf s.mem t req.iod)
  done : ∀ c ∈ s.completed, (c.tag, c.req) ∈ s.issued ∧ Answered f c.req.iod c.result c.data
  once : (s.completed.map fun c => c.req.id).Nodup
  kept : ∀ x ∈ s.issued, s.tags x.1 = .given x.2 ∨ ∃ c ∈ s.completed, (c.tag, c.req) = x
  clean : s.misuse = false

section Counts

variable {s : QueueState} {t u : Nat} {x : TagState}

theorem load_eq_one (h : 0 < x.load) : ∃ req, x = .given req := by
  cases x with
  | given req => exact ⟨req, rfl⟩
  | idle | armed | ended => cases h

/-- A request is nowhere new when a tag gets a state without one. -/
theorem given_of_update {tags : Nat → TagState} (hx : x.load = 0)
    (h : update tags t x u = .given req) : u ≠ t ∧ tags u = .given req := by
  by_cases hut : u = t
  · rw [hut, update_self] at h
    rw [h] at hx
    cases hx
  · rw [update_of_ne hut] at h
    exact ⟨hut, h⟩

theorem commits_pos (h : .commit t r ∈ s.sq) : 0 < commits s t :=
  countP_pos_iff.mpr ⟨_, h, beq_self_eq_true t⟩

theorem fetches_pos (h : .fetch t ∈ s.sq) : 0 < fetches s t := count_pos_iff.mpr h

end Counts

/-! ## Commands that reach the driver -/

section Deliver

variable {f : File} {s : QueueState}

/-- Two tags do not have one request. -/
theorem Inv.tag_eq (h : Inv f s) {req' : Request} (ht : (t, req) ∈ s.issued)
    (hu : (u, req') ∈ s.issued) (hid : req.id = req'.id) : t = u := by
  obtain ⟨i, hi, hget⟩ := getElem_of_mem ht
  obtain ⟨j, hj, hget'⟩ := getElem_of_mem hu
  have hi' := h.ids i t req (by rw [getElem?_eq_getElem hi, hget])
  have hj' := h.ids j u req' (by rw [getElem?_eq_getElem hj, hget'])
  have hij : i = j := by omega
  subst hij
  exact congrArg Prod.fst (hget.symm.trans hget')

variable {es : List Sqe}

/-- The driver takes a fetch. -/
theorem inv_deliver_fetch (h : Inv f s) (hsq : s.sq = .fetch t :: es) :
    Inv f (deliver { s with sq := es } (.fetch t)) := by
  have hcount : ∀ u, fetches s u = es.count (.fetch u) + if t = u then 1 else 0 := by
    intro u
    rw [fetches, hsq, count_cons]
    simp
  have hcommits : ∀ u, commits s u = es.countP (Sqe.commits u) := by
    intro u
    rw [commits, hsq, countP_cons]
    simp [Sqe.commits]
  have hpos : 0 < fetches s t := by
    rw [hcount, if_pos rfl]
    omega
  obtain ⟨hidle, hlt⟩ := h.fetch_idle t hpos
  have hstep : deliver { s with sq := es } (.fetch t) = setTag t .armed { s with sq := es } := by
    rw [deliver]
    dsimp only
    rw [hidle]
  have hother : ∀ u, u ≠ t → update s.tags t .armed u = s.tags u := fun u hu => update_of_ne hu _ _
  have hgiven : ∀ u req, update s.tags t .armed u = .given req → s.tags u = .given req :=
    fun u req hu => (given_of_update rfl hu).2
  rw [hstep]
  have hle := h.fetch_le t
  rw [hcount, if_pos rfl] at hle
  refine { h with
    held_eq := ?_, fetch_le := ?_, fetch_idle := ?_, todo := ?_, early := ?_, pending := ?_,
    answers := ?_, kept := ?_ }
  · intro u
    have hheld := h.held_eq u
    rw [held, hcommits] at hheld
    show s.cq.count (u, .ok) + s.pc.serves u + es.countP (Sqe.commits u)
      = (update s.tags t .armed u).load
    rw [hheld]
    by_cases hut : u = t
    · rw [hut, update_self, hidle]
      rfl
    · rw [hother u hut]
  · intro u
    have := h.fetch_le u
    rw [hcount] at this
    exact Nat.le_trans (Nat.le_add_right _ _) this
  · intro u hu
    have hu' : 0 < es.count (.fetch u) := hu
    have hut : u ≠ t := by
      intro hut
      rw [hut] at hu'
      omega
    show update s.tags t .armed u = .idle ∧ _
    rw [hother u hut]
    refine h.fetch_idle u ?_
    rw [hcount]
    omega
  · intro i hpc u hu
    obtain ⟨hidle', hnone⟩ := h.todo i hpc u hu
    have hut : u ≠ t := by
      intro hut
      rw [hut] at hnone
      omega
    rw [hcount] at hnone
    refine ⟨?_, Nat.eq_zero_of_add_eq_zero_right hnone⟩
    show update s.tags t .armed u = .idle
    rw [hother u hut, hidle']
  · intro hpc u
    rw [← h.early hpc u, hcommits]
    rfl
  · intro u req hu
    exact { h.pending u req (hgiven u req hu) with }
  · intro u req r hu hr
    refine h.answers u req r (hgiven u req hu) (hr.imp_left fun hmem => ?_)
    rw [hsq]
    exact mem_cons_of_mem _ hmem
  · intro x hx
    refine (h.kept x hx).imp_left fun hx' => ?_
    have hxt : x.1 ≠ t := by
      intro hxt
      rw [hxt, hidle] at hx'
      cases hx'
    exact (hother x.1 hxt).trans hx'

/-- The driver takes a commit. -/
theorem inv_deliver_commit (h : Inv f s) (hsq : s.sq = .commit t r :: es) :
    Inv f (deliver { s with sq := es } (.commit t r)) := by
  have hcount : ∀ u, fetches s u = es.count (.fetch u) := by
    intro u
    rw [fetches, hsq, count_cons]
    simp
  have hcommits : ∀ u, commits s u = es.countP (Sqe.commits u) + if t = u then 1 else 0 := by
    intro u
    rw [commits, hsq, countP_cons]
    simp [Sqe.commits]
  have hheld := h.held_eq t
  rw [held, hcommits, if_pos rfl] at hheld
  obtain ⟨req, hreq⟩ := load_eq_one (x := s.tags t) (by omega)
  have hone : (s.tags t).load = 1 := by rw [hreq]; rfl
  have hstep : deliver { s with sq := es } (.commit t r)
      = complete t req r { s with sq := es } := by
    rw [deliver]
    dsimp only
    rw [hreq]
  have hpend := h.pending t req hreq
  have hother : ∀ u, u ≠ t → update s.tags t .armed u = s.tags u := fun u hu => update_of_ne hu _ _
  have hgiven : ∀ u req', update s.tags t .armed u = .given req' →
      u ≠ t ∧ s.tags u = .given req' := fun u req' hu => given_of_update rfl hu
  -- while the server still fetches, no commit is in the ring
  have hlate : ¬ s.pc.early = true := by
    intro hpc
    have hnone := h.early hpc t
    rw [hcommits, if_pos rfl] at hnone
    omega
  rw [hstep]
  constructor
  case held_eq =>
    intro u
    have hu := h.held_eq u
    rw [held, hcommits] at hu
    show s.cq.count (u, .ok) + s.pc.serves u + es.countP (Sqe.commits u)
      = (update s.tags t .armed u).load
    by_cases hut : u = t
    · rw [hut, update_self]
      show _ = 0
      omega
    · rw [if_neg (Ne.symm hut)] at hu
      rw [hother u hut]
      exact hu
  case fetch_le =>
    intro u
    have hu := h.fetch_le u
    rwa [hcount] at hu
  case fetch_idle =>
    intro u hu
    have hu' : 0 < es.count (.fetch u) := hu
    rw [← hcount] at hu'
    obtain ⟨hidle, hlt⟩ := h.fetch_idle u hu'
    have hut : u ≠ t := by
      intro hut
      rw [hut, hreq] at hidle
      cases hidle
    exact ⟨(hother u hut).trans hidle, hlt⟩
  case todo =>
    intro i hpc
    have hpc' : s.pc = .fetch i := hpc
    rw [hpc'] at hlate
    exact absurd rfl hlate
  case early =>
    intro hpc
    exact absurd hpc hlate
  case pending =>
    intro u req' hu
    obtain ⟨hut, hu'⟩ := hgiven u req' hu
    refine { h.pending u req' hu' with fresh := ?_ }
    intro c hc
    rcases mem_append.mp hc with hold | hnew
    · exact (h.pending u req' hu').fresh c hold
    · rw [mem_singleton.mp hnew]
      intro hid
      exact hut (h.tag_eq hpend.issued (h.pending u req' hu').issued hid).symm
  case ids => exact h.ids
  case answers =>
    intro u req' r' hu hr'
    obtain ⟨hut, hu'⟩ := hgiven u req' hu
    refine h.answers u req' r' hu' (hr'.imp_left fun hmem => ?_)
    rw [hsq]
    exact mem_cons_of_mem _ hmem
  case done =>
    intro c hc
    rcases mem_append.mp hc with hold | hnew
    · exact h.done c hold
    · rw [mem_singleton.mp hnew]
      refine ⟨hpend.issued, h.answers t req r hreq (.inl ?_)⟩
      rw [hsq]
      exact mem_cons_self
  case once =>
    -- the request was pending, so no completion has its id
    show (List.map (fun c : Completion => c.req.id) (s.completed ++ [_])).Nodup
    rw [map_append, nodup_append]
    refine ⟨h.once, pairwise_singleton _ _, ?_⟩
    intro x hx y hy
    obtain ⟨c, hc, rfl⟩ := List.mem_map.mp hx
    rw [mem_singleton.mp hy]
    exact hpend.fresh c hc
  case kept =>
    intro x hx
    by_cases hxt : x.1 = t
    · right
      rcases h.kept x hx with hx' | ⟨c, hc, hx'⟩
      · refine ⟨_, mem_append_right _ (mem_singleton_self _), ?_⟩
        rw [hxt, hreq] at hx'
        cases hx'
        exact congrArg (fun u => (u, x.2)) hxt.symm
      · exact ⟨c, mem_append_left _ hc, hx'⟩
    · rcases h.kept x hx with hx' | ⟨c, hc, hx'⟩
      · exact .inl ((hother x.1 hxt).trans hx')
      · exact .inr ⟨c, mem_append_left _ hc, hx'⟩
  case clean => exact h.clean

/-- Every command in the ring is one that the driver accepts. -/
theorem inv_drain (h : Inv f s) (hsq : s.sq = es) : Inv f (drain es s) := by
  induction es generalizing s with
  | nil =>
    rw [drain, ← hsq]
    exact h
  | cons e es ih =>
    rw [drain]
    cases e with
    | fetch t =>
      refine ih (inv_deliver_fetch h hsq) ?_
      unfold deliver
      dsimp only
      split <;> rfl
    | commit t r =>
      refine ih (inv_deliver_commit h hsq) ?_
      unfold deliver
      dsimp only
      split <;> rfl

/-- A submit keeps the invariant, failed or not. -/
theorem inv_submit (h : Inv f s) (ok : Bool) : Inv f (submit ok s) := by
  unfold submit
  split
  · exact inv_drain h rfl
  · exact h

end Deliver

/-! ## The steps of the server and of the driver -/

section Steps

variable {f : File} {s : QueueState} {res : CqeRes} {rest : List (Nat × CqeRes)}

/-- Nothing but the control moves. -/
theorem Inv.moved (h : Inv f s) {p : ServerPc} (hserves : ∀ t, p.serves t = s.pc.serves t)
    (hfetch : ∀ i, p ≠ .fetch i) (hcommit : ∀ t r, p ≠ .commit t r)
    (hearly : p.early = true → s.pc.early = true) : Inv f { s with pc := p } :=
  { h with
    held_eq := by
      intro t
      rw [← h.held_eq t, held, held, hserves]
      rfl
    todo := fun i hpc => absurd hpc (hfetch i)
    early := fun hpc => h.early (hearly hpc)
    pending := fun t req ht => { h.pending t req ht with }
    answers := fun t req r ht hr => h.answers t req r ht (.inl (hr.resolve_right (hcommit t r))) }

/-- `io_loop` is left. -/
theorem Inv.exits (h : Inv f s) (hpc : s.pc = .wait) : Inv f { s with pc := .exited } := by
  refine h.moved ?_ ?_ ?_ ?_
  · intro t
    rw [hpc]
    rfl
  · intro i hi
    cases hi
  · intro t r hr
    cases hr
  · intro hearly
    cases hearly

theorem Inv.flags (h : Inv f s) (running live : Bool) :
    Inv f { s with running := running, live := live } :=
  { h with pending := fun t req ht => { h.pending t req ht with } }

theorem deliver_pc (e : Sqe) (p : ServerPc) (s : QueueState) :
    deliver { s with pc := p } e = { deliver s e with pc := p } := by
  unfold deliver
  cases e <;> dsimp only <;> split <;> rfl

theorem drain_pc (es : List Sqe) (p : ServerPc) (s : QueueState) :
    drain es { s with pc := p } = { drain es s with pc := p } := by
  induction es generalizing s with
  | nil => rfl
  | cons e es ih =>
    rw [drain, drain, ← ih, ← deliver_pc]

theorem submit_pc (ok : Bool) (p : ServerPc) (s : QueueState) :
    submit ok { s with pc := p } = { submit ok s with pc := p } := by
  unfold submit
  split
  · exact drain_pc _ p s
  · rfl

/-- The next `FETCH_REQ` is put into the ring. -/
theorem inv_fetch (h : Inv f s) (hpc : s.pc = .fetch i) (hi : i < queueDepth) :
    Inv f { s with sq := s.sq ++ [.fetch i], pc := .fetch (i + 1) } := by
  obtain ⟨hidle, hnone⟩ := h.todo i hpc i (Nat.le_refl i)
  have hcount : ∀ u, (s.sq ++ [Sqe.fetch i]).count (Sqe.fetch u)
      = fetches s u + if i = u then 1 else 0 := by
    intro u
    rw [count_append, count_singleton]
    simp [fetches]
  have hcommits : ∀ u, (s.sq ++ [Sqe.fetch i]).countP (Sqe.commits u) = commits s u := by
    intro u
    rw [countP_append, countP_singleton]
    simp [Sqe.commits, commits]
  refine { h with
    held_eq := ?_, fetch_le := ?_, fetch_idle := ?_, todo := ?_, early := ?_,
    pending := fun t req ht => { h.pending t req ht with }, answers := ?_ }
  · intro u
    rw [← h.held_eq u, held, held, commits, hcommits, hpc]
    rfl
  · intro u
    rw [fetches, hcount]
    split
    · rename_i hu
      rw [← hu, hnone]
    · exact h.fetch_le u
  · intro u hu
    rw [fetches, hcount] at hu
    by_cases hiu : i = u
    · rw [← hiu]
      exact ⟨hidle, hi⟩
    · rw [if_neg hiu] at hu
      exact h.fetch_idle u hu
  · intro j hj u hu
    cases hj
    obtain ⟨hu', hnone'⟩ := h.todo i hpc u (by omega)
    refine ⟨hu', ?_⟩
    rw [fetches, hcount, hnone', if_neg (by omega)]
  · intro _ u
    rw [commits, hcommits]
    exact h.early (by rw [hpc]; rfl) u
  · intro t req r ht hr
    rcases hr with hmem | hpc'
    · refine h.answers t req r ht (.inl ?_)
      rcases mem_append.mp hmem with hold | hnew
      · exact hold
      · cases mem_singleton.mp hnew
    · cases hpc'

/-- The answer is put into the ring. -/
theorem inv_commit (h : Inv f s) (hpc : s.pc = .commit t r) :
    Inv f { s with sq := s.sq ++ [.commit t r], pc := .wait } := by
  have hcount : ∀ u, (s.sq ++ [Sqe.commit t r]).count (Sqe.fetch u) = fetches s u := by
    intro u
    rw [count_append, count_singleton]
    simp [fetches]
  have hcommits : ∀ u, (s.sq ++ [Sqe.commit t r]).countP (Sqe.commits u)
      = commits s u + if t = u then 1 else 0 := by
    intro u
    rw [countP_append, countP_singleton]
    simp [Sqe.commits, commits]
  refine { h with
    held_eq := ?_, fetch_le := ?_, fetch_idle := ?_, todo := ?_, early := ?_,
    pending := fun t req ht => { h.pending t req ht with }, answers := ?_ }
  · intro u
    rw [← h.held_eq u, held, held, commits, hcommits, hpc]
    show s.cq.count (u, .ok) + 0 + _ = s.cq.count (u, .ok) + (if t = u then 1 else 0) + _
    omega
  · intro u
    rw [fetches, hcount]
    exact h.fetch_le u
  · intro u hu
    rw [fetches, hcount] at hu
    exact h.fetch_idle u hu
  · intro i hi
    cases hi
  · intro hearly
    cases hearly
  · intro u req r' hu hr
    refine h.answers u req r' hu ?_
    rcases hr with hmem | hpc'
    · rcases mem_append.mp hmem with hold | hnew
      · exact .inl hold
      · cases mem_singleton.mp hnew
        exact .inr hpc
    · cases hpc'

/-- What is not given to the server is nowhere in its hands. -/
theorem Inv.nowhere (h : Inv f s) (ht : (s.tags t).load = 0) :
    s.cq.count (t, .ok) = 0 ∧ s.pc.serves t = 0 ∧ ∀ r, .commit t r ∉ s.sq := by
  have hheld := h.held_eq t
  rw [ht, held] at hheld
  refine ⟨by omega, by omega, fun r hr => ?_⟩
  have := commits_pos hr
  omega

/-- The block layer sends a request. -/
theorem inv_post (h : Inv f s) {data : List UInt8} (harmed : s.tags t = .armed)
    (ht : t < queueDepth) (hfit : FitsTag iod) (hdata : data.length ≤ tagBufferSize) :
    Inv f (post t iod data s) := by
  obtain ⟨hcq, hpc, hsq⟩ := h.nowhere (t := t) (by rw [harmed]; rfl)
  have hother : ∀ u, u ≠ t →
      update s.tags t (.given ⟨s.issued.length, iod⟩) u = s.tags u :=
    fun u hu => update_of_ne hu _ _
  -- the data of a write stays in the slice of its tag
  have hslice : ∀ u, u ≠ t → ∀ i < tagBufferSize,
      store (getIoBuf t) data s.mem (getIoBuf u + i) = s.mem (getIoBuf u + i) := by
    intro u hu i hi
    refine store_of_outside ?_
    have hapart := slices_apart hu
    omega
  constructor
  case held_eq =>
    intro u
    have hu := h.held_eq u
    show (s.cq ++ [(t, CqeRes.ok)]).count (u, CqeRes.ok) + s.pc.serves u + commits s u = _
    rw [count_append, count_singleton]
    by_cases hut : u = t
    · subst hut
      rw [held, hcq, harmed] at hu
      show _ = (update s.tags u (.given _) u).load
      rw [update_self, hcq, if_pos (beq_self_eq_true _)]
      change 0 + s.pc.serves u + commits s u = 0 at hu
      show 0 + 1 + s.pc.serves u + commits s u = 1
      omega
    · show _ = (update s.tags t _ u).load
      rw [hother u hut, ← hu, held, if_neg]
      · rfl
      · intro hb
        exact hut (congrArg Prod.fst (eq_of_beq hb)).symm
  case fetch_le => exact h.fetch_le
  case fetch_idle =>
    intro u hu
    obtain ⟨hidle, hlt⟩ := h.fetch_idle u hu
    refine ⟨(hother u ?_).trans hidle, hlt⟩
    intro hut
    rw [hut, harmed] at hidle
    cases hidle
  case todo =>
    intro i hi u hu
    obtain ⟨hidle, hnone⟩ := h.todo i hi u hu
    refine ⟨(hother u ?_).trans hidle, hnone⟩
    intro hut
    rw [hut, harmed] at hidle
    cases hidle
  case early => exact h.early
  case pending =>
    intro u req hu
    by_cases hut : u = t
    · subst hut
      change update s.tags u _ u = _ at hu
      rw [update_self] at hu
      cases hu
      refine ⟨ht, update_self _ _ _, hfit, mem_append_right _ (mem_singleton_self _), ?_⟩
      -- the new id is larger than that of any completion
      intro c hc hid
      obtain ⟨k, hk, hget⟩ := getElem_of_mem (h.done c hc).1
      have hk' := h.ids k c.tag c.req (by rw [getElem?_eq_getElem hk, hget])
      have hid' : c.req.id = s.issued.length := hid
      omega
    · change update s.tags t _ u = _ at hu
      rw [hother u hut] at hu
      have hp := h.pending u req hu
      exact ⟨hp.tag, (update_of_ne hut _ _).trans hp.desc, hp.fits,
        mem_append_left _ hp.issued, hp.fresh⟩
  case ids =>
    intro k u req hk
    change (s.issued ++ [(t, ⟨s.issued.length, iod⟩)])[k]? = _ at hk
    by_cases hlt : k < s.issued.length
    · rw [getElem?_append_left hlt] at hk
      exact h.ids k u req hk
    · rw [getElem?_append_right (Nat.le_of_not_lt hlt)] at hk
      rw [getElem?_singleton] at hk
      split at hk
      · cases hk
        show s.issued.length = k
        omega
      · cases hk
  case answers =>
    intro u req r hu hr
    by_cases hut : u = t
    · subst hut
      rcases hr with hr | hr
      · exact absurd hr (hsq r)
      · change s.pc = _ at hr
        rw [hr, ServerPc.serves, if_pos rfl] at hpc
        cases hpc
    · change update s.tags t _ u = _ at hu
      rw [hother u hut] at hu
      have hans := h.answers u req r hu hr
      show Answered f req.iod r (dataOf (store (getIoBuf t) data s.mem) u req.iod)
      rwa [dataOf_congr (h.pending u req hu).fits (hslice u hut)]
  case done =>
    intro c hc
    exact ⟨mem_append_left _ (h.done c hc).1, (h.done c hc).2⟩
  case once => exact h.once
  case kept =>
    intro x hx
    rcases mem_append.mp hx with hold | hnew
    · refine (h.kept x hold).imp_left fun hx' => ?_
      refine (hother x.1 ?_).trans hx'
      intro hxt
      rw [hxt, harmed] at hx'
      cases hx'
    · left
      rw [mem_singleton.mp hnew]
      exact update_self _ _ _
  case clean => exact h.clean

/-- The driver ends a command. -/
theorem inv_refuse (h : Inv f s) (harmed : s.tags t = .armed) (hres : res ≠ .ok) :
    Inv f { setTag t .ended s with cq := s.cq ++ [(t, res)] } := by
  have hother : ∀ u, u ≠ t → update s.tags t .ended u = s.tags u := fun u hu => update_of_ne hu _ _
  have hne : ∀ u x, s.tags u = x → x ≠ .armed → update s.tags t .ended u = x := by
    intro u x hu hx
    rw [hother u, hu]
    intro hut
    rw [hut, harmed] at hu
    exact hx hu.symm
  have hgiven : ∀ u req, update s.tags t .ended u = .given req → s.tags u = .given req :=
    fun u req hu => (given_of_update rfl hu).2
  refine { h with
    held_eq := ?_, fetch_idle := ?_, todo := ?_, pending := ?_, answers := ?_, kept := ?_ }
  · intro u
    have hu := h.held_eq u
    show (s.cq ++ [(t, res)]).count (u, .ok) + s.pc.serves u + commits s u
      = (update s.tags t .ended u).load
    rw [count_append, count_singleton, if_neg]
    · rw [Nat.add_zero, ← held, hu]
      by_cases hut : u = t
      · rw [hut, update_self, harmed]
        rfl
      · rw [hother u hut]
    · intro hb
      exact hres (congrArg Prod.snd (eq_of_beq hb))
  · intro u hu
    obtain ⟨hidle, hlt⟩ := h.fetch_idle u hu
    exact ⟨hne u .idle hidle (by intro hc; cases hc), hlt⟩
  · intro i hi u hu
    obtain ⟨hidle, hnone⟩ := h.todo i hi u hu
    exact ⟨hne u .idle hidle (by intro hc; cases hc), hnone⟩
  · intro u req hu
    exact { h.pending u req (hgiven u req hu) with }
  · intro u req r hu hr
    exact h.answers u req r (hgiven u req hu) hr
  · intro x hx
    exact (h.kept x hx).imp_left fun hx' => hne x.1 _ hx' (by intro hc; cases hc)

/-- The server takes a request from the completion ring. -/
theorem inv_reap (h : Inv f s) (hpc : s.pc = .wait) (hcq : s.cq = (t, .ok) :: rest) :
    Inv f { s with cq := rest, pc := .serve t } := by
  refine { h with
    held_eq := ?_, todo := ?_, early := ?_,
    pending := fun u req hu => { h.pending u req hu with }, answers := ?_ }
  · intro u
    have hu := h.held_eq u
    rw [held, hpc, hcq, count_cons] at hu
    show rest.count (u, .ok) + (if t = u then 1 else 0) + commits s u = _
    rw [← hu]
    show _ = rest.count (u, .ok) + _ + 0 + commits s u
    have hiff : ((t, CqeRes.ok) == (u, CqeRes.ok)) = decide (t = u) := by
      rw [Bool.eq_iff_iff]
      simp
    rw [hiff]
    by_cases htu : t = u
    · simp [htu]
    · simp [htu]
  · intro i hi
    cases hi
  · intro hearly
    cases hearly
  · intro u req r hu hr
    refine h.answers u req r hu (.inl (hr.resolve_right ?_))
    intro hc
    cases hc

/-- A completion without a request is dropped. -/
theorem inv_skip (h : Inv f s) (hcq : s.cq = (t, res) :: rest) (hres : res ≠ .ok) :
    Inv f { s with cq := rest } := by
  refine { h with held_eq := ?_, pending := fun u req hu => { h.pending u req hu with } }
  intro u
  have hu := h.held_eq u
  rw [held, hcq, count_cons, if_neg] at hu
  · exact hu
  · intro hb
    exact hres (congrArg Prod.snd (eq_of_beq hb))

/-- The server processes a request. -/
theorem inv_serve (h : Inv f s) (hpc : s.pc = .serve t) (readOk : Bool) :
    Inv f { s with
      mem := (processIoRequest f t (s.desc t) readOk s.mem).2
      pc := .commit t (processIoRequest f t (s.desc t) readOk s.mem).1 } := by
  have hheld := h.held_eq t
  rw [held, hpc] at hheld
  change _ + (if t = t then 1 else 0) + _ = _ at hheld
  rw [if_pos rfl] at hheld
  obtain ⟨req, hreq⟩ := load_eq_one (x := s.tags t) (by omega)
  have hone : (s.tags t).load = 1 := by rw [hreq]; rfl
  have hpend := h.pending t req hreq
  rw [hpend.desc]
  refine { h with
    held_eq := ?_, todo := ?_, early := ?_,
    pending := fun u req hu => { h.pending u req hu with }, answers := ?_ }
  · intro u
    rw [← h.held_eq u, held, held, hpc]
    rfl
  · intro i hi
    cases hi
  · intro hearly
    cases hearly
  · intro u req' r hu hr
    by_cases hut : t = u
    · subst hut
      rw [show s.tags t = .given req' from hu] at hreq
      cases hreq
      rcases hr with hmem | hr
      · -- the tag would be in two places
        have := commits_pos (s := s) hmem
        omega
      · cases hr
        exact answered_processIoRequest f t hpend.fits readOk s.mem
    · show Answered f req'.iod r (dataOf (processIoRequest f t req.iod readOk s.mem).2 u req'.iod)
      rw [dataOf_congr (h.pending u req' hu).fits
        fun i hi => processIoRequest_other_slice hpend.fits hut hi]
      refine h.answers u req' r hu (.inl (hr.resolve_right ?_))
      intro hc
      cases hc
      exact hut rfl

/-- `simulate_test_io` reads into the buffer of tag 0 while no answer is ready. -/
theorem inv_simulate (h : Inv f s) (hpc : s.pc = .simulate) (mem : Nat → UInt8) :
    Inv f { s with mem := mem, pc := .wait } := by
  refine { h with
    held_eq := ?_, todo := ?_, early := ?_,
    pending := fun u req hu => { h.pending u req hu with }, answers := ?_ }
  · intro u
    rw [← h.held_eq u, held, held, hpc]
    rfl
  · intro i hi
    cases hi
  · intro hearly
    cases hearly
  · intro u req r hu hr
    rcases hr with hmem | hr
    · have hpos := commits_pos (s := s) hmem
      have hnone := h.early (by rw [hpc]; rfl) u
      omega
    · cases hr

theorem count_tag (sq : List Sqe) (t : Nat) :
    (sq.map Sqe.tag).count t = sq.count (.fetch t) + sq.countP (Sqe.commits t) := by
  induction sq with
  | nil => rfl
  | cons e es ih =>
    rw [map_cons, count_cons, count_cons, countP_cons, ih]
    cases e with
    | fetch u | commit u r =>
      simp [Sqe.tag, Sqe.commits]
      omega

/-- **THE RING IS NEVER FULL**: no two entries of it have one tag. -/
theorem Inv.sq_le (h : Inv f s) : s.sq.length ≤ queueDepth := by
  have hone : ∀ t, (s.sq.map Sqe.tag).count t ≤ 1 := by
    intro t
    rw [count_tag, ← fetches, ← commits]
    have hfetch := h.fetch_le t
    have hheld := h.held_eq t
    rw [held] at hheld
    rcases Nat.eq_zero_or_pos (fetches s t) with hzero | hpos
    · have hle : (s.tags t).load ≤ 1 := by
        cases s.tags t <;> simp [TagState.load]
      omega
    · rw [(h.fetch_idle t hpos).1] at hheld
      change _ = 0 at hheld
      omega
  have hnodup : (s.sq.map Sqe.tag).Nodup := nodup_iff_count_le_one.mpr hone
  have hsub : s.sq.map Sqe.tag ⊆ List.range queueDepth := by
    intro t ht
    obtain ⟨e, he, rfl⟩ := List.mem_map.mp ht
    rw [mem_range]
    cases e with
    | fetch t => exact (h.fetch_idle t (fetches_pos he)).2
    | commit t r =>
      have hpos := commits_pos he
      have hheld := h.held_eq t
      rw [held] at hheld
      obtain ⟨req, hreq⟩ := load_eq_one (x := s.tags t) (by omega)
      exact (h.pending t req hreq).tag
  have hlen := (subperm_of_subset hnodup hsub).length_le
  rwa [length_map, length_range] at hlen

/-- The ring always has room. -/
theorem Inv.push_eq (h : Inv f s) (e : Sqe) (ok : Bool) :
    push e ok s = some (submit ok { s with sq := s.sq ++ [e] }) := by
  refine if_pos ?_
  have hle := h.sq_le
  have hdepth : sqEntries = queueDepth * 2 := rfl
  have hpos : queueDepth = 32 := rfl
  omega

/-- **ONE STEP** keeps the books. -/
theorem inv_queueStep (h : Inv f s) {l : Label} {s' : QueueState} (hfit : l.Fits)
    (hs : queueStep f s l = some s') : Inv f s' := by
  cases l with
  | post t iod data =>
    rw [queueStep] at hs
    split at hs
    · rename_i harmed
      split at hs
      · cases hs
        exact inv_post h harmed hfit.1 hfit.2.1 hfit.2.2
      · cases hs
    · cases hs
  | refuse t res =>
    rw [queueStep] at hs
    split at hs
    · rename_i harmed
      split at hs
      · cases hs
      · rename_i hres
        cases hs
        exact inv_refuse h harmed hres
    · cases hs
  | signal =>
    cases hs
    exact h.flags false s.live
  | submits ok =>
    rw [queueStep] at hs
    split at hs
    · rename_i i hpc
      split at hs
      · rename_i hi
        rw [h.push_eq] at hs
        cases hs
        rw [← submit_pc]
        exact inv_submit (inv_fetch h hpc hi) ok
      · cases hs
        rw [← submit_pc]
        refine inv_submit (h.moved ?_ ?_ ?_ ?_) ok
        · intro t
          rw [hpc]
          rfl
        · intro j hj
          cases hj
        · intro t r hr
          cases hr
        · intro _
          rw [hpc]
          rfl
    · rename_i t r hpc
      rw [h.push_eq] at hs
      cases hs
      rw [← submit_pc]
      exact inv_submit (inv_commit h hpc) ok
    · cases hs
  | startDev ok =>
    rw [queueStep] at hs
    split at hs
    · rename_i hpc
      cases hs
      have hmoved : ∀ p : ServerPc, p = .simulate ∨ p = .exited → Inv f { s with pc := p } := by
        intro p hp
        refine h.moved ?_ ?_ ?_ ?_
        · intro t
          rw [hpc]
          rcases hp with rfl | rfl <;> rfl
        · intro i hi
          rcases hp with rfl | rfl <;> cases hi
        · intro t r hr
          rcases hp with rfl | rfl <;> cases hr
        · intro _
          rw [hpc]
          rfl
      cases ok with
      | true => exact (hmoved .simulate (.inl rfl)).flags s.running true
      | false => exact hmoved .exited (.inr rfl)
    · cases hs
  | simulate readOk =>
    rw [queueStep] at hs
    split at hs
    · rename_i hpc
      cases hs
      exact inv_simulate h hpc _
    · cases hs
  | interrupted =>
    rw [queueStep] at hs
    split at hs
    · rename_i hpc
      cases hs
      split
      · exact h
      · exact h.exits hpc
    · cases hs
  | waitFails =>
    rw [queueStep] at hs
    split at hs
    · rename_i hpc
      cases hs
      exact h.exits hpc
    · cases hs
  | reap =>
    rw [queueStep] at hs
    split at hs
    · rename_i t rest hpc _ hcq
      cases hs
      exact inv_reap h hpc hcq
    · rename_i t res rest hres hpc _ hcq
      cases hs
      exact inv_skip h hcq fun hok => hres hok
    · rename_i hpc _
      cases hs
      exact h.exits hpc
    · cases hs
  | serve readOk =>
    rw [queueStep] at hs
    split at hs
    · rename_i t hpc
      cases hs
      exact inv_serve h hpc readOk
    · cases hs

end Steps

/-! ## Runs -/

/-- The invariant holds at the start. -/
theorem inv_start (f : File) (desc : Nat → IoDesc) (mem : Nat → UInt8) :
    Inv f (start desc mem) where
  held_eq := fun _ => rfl
  fetch_le := fun _ => Nat.zero_le _
  fetch_idle := fun t ht => absurd ht (Nat.lt_irrefl 0)
  todo := fun _ _ _ _ => ⟨rfl, rfl⟩
  early := fun _ _ => rfl
  pending := by
    intro t req ht
    cases ht
  ids := by
    intro k t req hk
    cases hk
  answers := by
    intro t req r ht
    cases ht
  done := fun c hc => absurd hc not_mem_nil
  once := nodup_nil
  kept := fun x hx => absurd hx not_mem_nil
  clean := rfl

/-- **THE QUEUE THEOREM**: in every run with requests that fit into the buffer of a tag and
    start below 4 GiB, the driver accepts every command, the ring has room, no request is
    answered twice, each answer belongs to its request, and a request without an answer is in
    one place. -/
theorem requests_answered_once (f : File) (desc : Nat → IoDesc) (mem : Nat → UInt8)
    {ls : List Label} {s : QueueState} (hfits : ∀ l ∈ ls, l.Fits)
    (hrun : exec (queueStep f) (start desc mem) ls = some s) :
    s.misuse = false ∧ s.sq.length ≤ queueDepth
      ∧ (s.completed.map fun c => c.req.id).Nodup
      ∧ (∀ c ∈ s.completed, (c.tag, c.req) ∈ s.issued ∧ Answered f c.req.iod c.result c.data)
      ∧ ∀ x ∈ s.issued, (s.tags x.1 = .given x.2 ∧ held s x.1 = 1)
        ∨ ∃ c ∈ s.completed, (c.tag, c.req) = x := by
  have hstates : States (queueStep f) (Inv f) (start desc mem) ls :=
    states_of_inv (G := fun _ l _ => l.Fits) (fun s hs => hs)
      (fun s l s' hs hl hfit => inv_queueStep hs hfit hl) (inv_start f desc mem)
      (moves_of_forall hfits _)
  have h := states_exec hstates hrun
  refine ⟨h.clean, h.sq_le, h.once, h.done, ?_⟩
  intro x hx
  refine (h.kept x hx).imp_left fun hgiven => ⟨hgiven, ?_⟩
  rw [h.held_eq, hgiven]
  rfl

/-- The first submission of all fails, a read comes in on tag 3 before the simulated one, and is
    answered. -/
def firstRead : List Label :=
  .submits false :: List.replicate 32 (.submits true)
    ++ [.startDev true, .post 3 ⟨.read, 8, 8⟩ [], .simulate true, .reap, .serve true, .submits true]

theorem firstRead_answered :
    ∃ s, exec (queueStep SparseFile.empty) (start (fun _ => ⟨.flush, 0, 0⟩) fun _ => 1) firstRead
        = some s
      ∧ s.completed.map (fun c => (c.tag, c.req.id, c.result)) = [(3, 0, .ok)]
      ∧ ∀ c ∈ s.completed, Answered SparseFile.empty c.req.iod c.result c.data := by
  have hfits : ∀ l ∈ firstRead, l.Fits := by
    intro l hl
    simp only [firstRead, mem_append, mem_cons, mem_replicate] at hl
    rcases hl with (rfl | ⟨_, rfl⟩) | rfl | rfl | rfl | rfl | rfl | rfl | hl
    · trivial
    · trivial
    · trivial
    · exact ⟨by decide, ⟨by decide, by decide⟩, by decide⟩
    · trivial
    · trivial
    · trivial
    · trivial
    · cases hl
  have hrun : (exec (queueStep SparseFile.empty) (start (fun _ => ⟨.flush, 0, 0⟩) fun _ => 1)
      firstRead).map (fun s => s.completed.map fun c => (c.tag, c.req.id, c.result))
        = some [(3, 0, .ok)] := by rfl
  obtain ⟨s, hs, hlen⟩ := Option.map_eq_some_iff.mp hrun
  exact ⟨s, hs, hlen, fun c hc =>
    ((requests_answered_once _ _ _ hfits hs).2.2.2.1 c hc).2⟩

end UblkQueue
