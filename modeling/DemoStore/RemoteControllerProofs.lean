import DemoStore.MachineRunProofs
import Mathlib.Logic.Function.Basic

/-! # The remote sandbox controller

    `controllerServer` keeps a map from sandbox ids to records.  A record lives on after
    it has left the map, as long as some RPC holds it, so records have addresses here
    and the map points to them.  The critical sections of the RPCs are functions on the
    server; a call that runs alone is the sequence of its sections.

    `Status` should tell the life cycle of a sandbox: ready from a successful `Start`
    until the next successful `Stop` or `Shutdown`.  `Since` states that over the history
    of the calls.  The latch in `stopRecord` runs once in the life of a record while
    `Start` may run again, and that is the only thing that can go wrong. -/

namespace RemoteController

open MachineRun List Option
open Function (update_eq_self update_idem update_injective update_of_ne update_self)

/-! ## Records and the server -/

/-- An instant, as `time.Now` gives it. -/
abbrev Time := Nat

/-- A Go map of strings. -/
abbrev StringMap := String → Option String

/-- An assignment to a key. -/
def StringMap.put (key value : String) (m : StringMap) : StringMap :=
  Function.update m key (some value)

/-- The state of a sandbox. -/
inductive SandboxState where
  | ready
  | notReady
  deriving DecidableEq

/-- The constants `stateReady` and `stateNotReady`. -/
def SandboxState.text : SandboxState → String
  | .ready => "SANDBOX_READY"
  | .notReady => "SANDBOX_NOTREADY"

/-- A `sync.Once`: its function has not been called, is running, or has returned. -/
inductive Once where
  | fresh
  | running
  | done
  deriving DecidableEq

/-- A time is `none` where Go has the zero time; `stopped` says that the channel is
    closed. -/
structure SandboxRecord where
  id : String
  sandboxer : String
  pid : UInt32
  state : SandboxState
  info : StringMap
  labels : StringMap
  createdAt : Option Time
  exitedAt : Option Time
  exitStatus : UInt32
  stopped : Bool
  stopOnce : Once

/-- The map of the controller and the records that were ever made, by address; `pid` is
    what `os.Getpid` returns. -/
structure ControllerServer where
  pid : UInt32
  sandboxes : String → Option Nat
  records : Nat → SandboxRecord
  next : Nat

/-- `len` of the mounts and of the annotations; `runtime` if a sandbox was sent. -/
structure CreateRequest where
  sandboxId : String
  sandboxer : String
  netnsPath : String
  rootfs : Nat
  annotations : Nat
  runtime : Option String

/-- The `info` of a new record. -/
def CreateRequest.info (req : CreateRequest) : StringMap :=
  let info : StringMap := ((StringMap.put "sandboxer" req.sandboxer fun _ => none).put
    "netns_path" req.netnsPath |>.put
    "rootfs" (toString req.rootfs ++ " mount(s)")).put
    "annotations" (toString req.annotations ++ " item(s)")
  match req.runtime with
  | some name => info.put "sandbox_runtime" name
  | none => info

/-- The record that `Create` makes. -/
def newRecord (req : CreateRequest) : SandboxRecord where
  id := req.sandboxId
  sandboxer := req.sandboxer
  pid := 0
  state := .notReady
  info := req.info
  labels := StringMap.put "oci_runtime_type" "remote-controller-demo" fun _ => none
  createdAt := none
  exitedAt := none
  exitStatus := 0
  stopped := false
  stopOnce := .fresh

/-- `newControllerServer`; what an address holds before a record is made there does not
    matter. -/
def newControllerServer (pid : UInt32) : ControllerServer where
  pid := pid
  sandboxes := fun _ => none
  records := fun _ => newRecord ⟨"", "", "", 0, 0, none⟩
  next := 0

/-! ## Errors and responses -/

/-- The errors of the server. -/
inductive RpcError where
  | idRequired
  | alreadyExists (id : String)
  | notFound (id : String)
  | contextDone

/-- Their codes. -/
inductive Code where
  | invalidArgument
  | alreadyExists
  | notFound
  | contextDone
  deriving DecidableEq

/-- The code of an error. -/
def RpcError.code : RpcError → Code
  | .idRequired => .invalidArgument
  | .alreadyExists _ => .alreadyExists
  | .notFound _ => .notFound
  | .contextDone => .contextDone

/-- The responses of the server. -/
inductive Response where
  | created (sandboxId : String)
  | started (sandboxId : String) (pid : UInt32) (createdAt : Option Time)
      (labels : StringMap)
  | stopped
  | waited (exitStatus : UInt32) (exitedAt : Option Time)
  | status (sandboxId : String) (pid : UInt32) (state : String)
      (createdAt exitedAt : Option Time) (info : Option StringMap)
  | shutdown
  | updated

/-- A response or an error. -/
abbrev Result := Except RpcError Response

/-! ## The critical sections -/

namespace SandboxRecord

/-- What `Start` does to a record. -/
def start (pid : UInt32) (now : Time) (rec : SandboxRecord) : SandboxRecord :=
  { rec with createdAt := some (rec.createdAt.getD now), pid := pid, state := .ready }

/-- The locked section of `stopRecord`. -/
def recordExit (exitStatus : UInt32) (now : Time) (rec : SandboxRecord) : SandboxRecord :=
  { rec with state := .notReady, exitStatus := exitStatus, exitedAt := some now }

/-- The channel of the record is closed. -/
def close (rec : SandboxRecord) : SandboxRecord := { rec with stopped := true }

/-- `stopRecord` without an interruption. -/
def stop (exitStatus : UInt32) (now : Time) (rec : SandboxRecord) : SandboxRecord :=
  match rec.stopOnce with
  | .done => rec
  | _ => { (rec.recordExit exitStatus now).close with stopOnce := .done }

/-- `fmt.Sprintf("%v", fields)` on a list of strings. -/
def update (fields : List String) (rec : SandboxRecord) : SandboxRecord :=
  { rec with
    info := rec.info.put "updated_fields" ("[" ++ " ".intercalate fields ++ "]") }

/-- What `Status` reads. -/
def statusResponse (verbose : Bool) (rec : SandboxRecord) : Response :=
  .status rec.id rec.pid rec.state.text rec.createdAt rec.exitedAt
    (if verbose then some rec.info else none)

end SandboxRecord

variable {req : CreateRequest} {r : Nat} {A : Type} {sh : String → Option SandboxState}

namespace ControllerServer

/-- `get`: the record of an identifier. -/
def get (id : String) (c : ControllerServer) : Except RpcError Nat :=
  if id = "" then .error .idRequired
  else
    match c.sandboxes id with
    | none => .error (.notFound id)
    | some r => .ok r

/-- A change of one record. -/
def modify (r : Nat) (g : SandboxRecord → SandboxRecord) (c : ControllerServer) :
    ControllerServer :=
  { c with records := Function.update c.records r (g (c.records r)) }

/-- A new record, entered in the map. -/
def add (req : CreateRequest) (c : ControllerServer) : ControllerServer :=
  { c with
    sandboxes := Function.update c.sandboxes req.sandboxId (some c.next)
    records := Function.update c.records c.next (newRecord req)
    next := c.next + 1 }

/-- `Create`. -/
def create (req : CreateRequest) (c : ControllerServer) : Result × ControllerServer :=
  if req.sandboxId = "" then (.error .idRequired, c)
  else
    match c.sandboxes req.sandboxId with
    | some _ => (.error (.alreadyExists req.sandboxId), c)
    | none => (.ok (.created req.sandboxId), c.add req)

/-- `delete(c.sandboxes, rec.id)`: by the id of the record. -/
def delete (r : Nat) (c : ControllerServer) : ControllerServer :=
  { c with sandboxes := Function.update c.sandboxes (c.records r).id none }

theorem sandboxes_add (req : CreateRequest) (c : ControllerServer) :
    (c.add req).sandboxes = Function.update c.sandboxes req.sandboxId (some c.next) := rfl

@[simp] theorem records_add_self (req : CreateRequest) (c : ControllerServer) :
    (c.add req).records c.next = newRecord req :=
  update_self ..

variable {q : Nat}

theorem records_add_of_ne {c : ControllerServer} (h : q ≠ c.next) :
    (c.add req).records q = c.records q :=
  update_of_ne h ..

theorem sandboxes_delete (r : Nat) (c : ControllerServer) :
    (c.delete r).sandboxes = Function.update c.sandboxes (c.records r).id none := rfl

@[simp] theorem records_modify_self (r : Nat) (g : SandboxRecord → SandboxRecord)
    (c : ControllerServer) : (c.modify r g).records r = g (c.records r) :=
  update_self ..

theorem records_modify_of_ne (h : q ≠ r) (g : SandboxRecord → SandboxRecord)
    (c : ControllerServer) : (c.modify r g).records q = c.records q :=
  update_of_ne h ..

end ControllerServer

open ControllerServer (records_modify_of_ne records_modify_self records_add_of_ne records_add_self
  sandboxes_add sandboxes_delete)

/-! ## Calls that run alone -/

/-- The RPCs that look a record up first. -/
inductive Rpc where
  | start
  | stop
  | wait
  | status (verbose : Bool)
  | update (fields : List String)
  | shutdown
  deriving DecidableEq

/-- A call with its arguments. -/
inductive Call where
  | create (req : CreateRequest)
  | on (id : String) (rpc : Rpc)

/-- The sandbox it names. -/
def Call.id : Call → String
  | .create req => req.sandboxId
  | .on id _ => id

/-- A call with what it meets: the time, and whether `Wait` gives up on its context. -/
structure Request where
  now : Time
  contextDone : Bool
  call : Call

/-- An RPC on the record it has found.  A `Wait` on an open channel does not return
    unless its context is done. -/
def serve (c : ControllerServer) (q : Request) (r : Nat) :
    Rpc → Option (Result × ControllerServer)
  | .start =>
    let c' := c.modify r (.start c.pid q.now)
    let rec' := c'.records r
    some (.ok (.started rec'.id rec'.pid rec'.createdAt rec'.labels), c')
  | .stop => some (.ok .stopped, c.modify r (.stop 0 q.now))
  | .wait =>
    if q.contextDone then some (.error .contextDone, c)
    else if (c.records r).stopped then
      some (.ok (.waited (c.records r).exitStatus (c.records r).exitedAt), c)
    else none
  | .status verbose => some (.ok ((c.records r).statusResponse verbose), c)
  | .update fields => some (.ok .updated, c.modify r (.update fields))
  | .shutdown => some (.ok .shutdown, (c.modify r (.stop 0 q.now)).delete r)

/-- A call from start to end. -/
def call (c : ControllerServer) (q : Request) : Option (Result × ControllerServer) :=
  match q.call with
  | .create req => some (c.create req)
  | .on id rpc =>
    match c.get id with
    | .error e => some (.error e, c)
    | .ok r => serve c q r rpc

/-! ## What Status shows -/

/-- The state that `Status` reports for the id. -/
def reportedState (c : ControllerServer) (id : String) : Option String :=
  match call c ⟨0, false, .on id (.status false)⟩ with
  | some (.ok (.status _ _ state _ _ _), _) => some state
  | _ => none

/-- The state of the record the id stands for. -/
def shown (c : ControllerServer) (id : String) : Option SandboxState :=
  (c.sandboxes id).map fun r => (c.records r).state

/-- The map points to records that were made, each under its own id. -/
structure Named (c : ControllerServer) : Prop where
  made : ∀ id r, c.sandboxes id = some r → r < c.next
  named : ∀ id r, c.sandboxes id = some r → (c.records r).id = id
  nonempty : c.sandboxes "" = none

section Shown

variable {c : ControllerServer} {id : String} {r : Nat}

/-- Each record of a new server is under its name. -/
theorem named_new (pid : UInt32) : Named (newControllerServer pid) :=
  ⟨(fun _ _ h => by cases h), (fun _ _ h => by cases h), rfl⟩

/-- `get` is the lookup in the map. -/
theorem get_eq_ok (hid : c.sandboxes "" = none) : c.get id = .ok r ↔ c.sandboxes id = some r := by
  rw [ControllerServer.get]
  split
  · rename_i he
    rw [he, hid]
    exact ⟨(fun h => by cases h), (fun h => by cases h)⟩
  · cases c.sandboxes id with
    | none => exact ⟨(fun h => by cases h), (fun h => by cases h)⟩
    | some q => simp

/-- What `Status` reports is what the server shows. -/
theorem reportedState_eq (h : Named c) (id : String) :
    reportedState c id = (shown c id).map SandboxState.text := by
  unfold reportedState call
  dsimp only
  by_cases he : id = ""
  · have hget : c.get id = .error .idRequired := by rw [ControllerServer.get, if_pos he]
    rw [hget, shown, he, h.nonempty]
    rfl
  · cases hs : c.sandboxes id with
    | none =>
      have hget : c.get id = .error (.notFound id) := by
        rw [ControllerServer.get, if_neg he, hs]
      rw [hget, shown, hs]
      rfl
    | some r =>
      rw [(get_eq_ok h.nonempty).mpr hs, shown, hs]
      rfl

/-- The id of a record decides which entry of the map shows it. -/
theorem shown_modify (h : Named c) (hr : c.sandboxes id = some r)
    (g : SandboxRecord → SandboxRecord) :
    shown (c.modify r g) = Function.update (shown c) id (some (g (c.records r)).state) := by
  funext i
  show ((c.sandboxes i).map fun q => ((c.modify r g).records q).state) = _
  by_cases hi : i = id
  · subst hi
    rw [update_self, hr, map_some, records_modify_self]
  · rw [update_of_ne hi, shown]
    cases hq : c.sandboxes i with
    | none => rfl
    | some q =>
      have hne : q ≠ r := by
        rintro rfl
        exact hi ((h.named i q hq).symm.trans (h.named id q hr))
      rw [map_some, map_some, records_modify_of_ne hne]

/-- A change of a record keeps its name. -/
theorem named_modify (h : Named c) {g : SandboxRecord → SandboxRecord}
    (hg : (g (c.records r)).id = (c.records r).id) : Named (c.modify r g) := by
  refine ⟨h.made, fun i q hq => ?_, h.nonempty⟩
  by_cases hqr : q = r
  · subst hqr
    rw [records_modify_self, hg]
    exact h.named i q hq
  · rw [records_modify_of_ne hqr]
    exact h.named i q hq

/-- A removed sandbox is no longer shown. -/
theorem shown_delete (hid : (c.records r).id = id) :
    shown (c.delete r) = Function.update (shown c) id none := by
  funext i
  rw [shown, sandboxes_delete, hid]
  by_cases hi : i = id
  · subst hi
    rw [update_self, update_self]
    rfl
  · rw [update_of_ne hi, update_of_ne hi]
    rfl

/-- A removal keeps the other names. -/
theorem named_delete (h : Named c) (r : Nat) : Named (c.delete r) := by
  have hold : ∀ i q, (c.delete r).sandboxes i = some q → c.sandboxes i = some q := by
    intro i q hq
    by_cases hi : i = (c.records r).id
    · rw [hi, sandboxes_delete, update_self] at hq
      cases hq
    · rwa [sandboxes_delete, update_of_ne hi] at hq
  refine ⟨fun i q hq => h.made i q (hold i q hq), fun i q hq => h.named i q (hold i q hq), ?_⟩
  cases hq : (c.delete r).sandboxes "" with
  | none => rfl
  | some q => exact (hold "" q hq).symm.trans h.nonempty

theorem stop_id (exitStatus : UInt32) (now : Time) (rec : SandboxRecord) :
    (rec.stop exitStatus now).id = rec.id := by
  rw [SandboxRecord.stop]
  split <;> rfl

end Shown

/-! ## The life cycle of a sandbox -/

/-- A call of the past and whether it succeeded. -/
structure Event where
  call : Call
  ok : Bool

namespace Event

/-- A `Start` that succeeded. -/
def starts (id : String) (e : Event) : Prop := e.ok = true ∧ e.call = .on id .start

/-- A `Create` that succeeded. -/
def creates (id : String) (e : Event) : Prop :=
  e.ok = true ∧ ∃ req, e.call = .create req ∧ req.sandboxId = id

/-- A `Stop` or `Shutdown` that succeeded. -/
def stops (id : String) (e : Event) : Prop :=
  e.ok = true ∧ (e.call = .on id .stop ∨ e.call = .on id .shutdown)

/-- A `Shutdown` that succeeded. -/
def removes (id : String) (e : Event) : Prop := e.ok = true ∧ e.call = .on id .shutdown

end Event

/-- Something in the list satisfies `p`, and nothing after it satisfies `q`. -/
def Since {A : Type} (p q : A → Prop) (xs : List A) : Prop :=
  ∃ before x after, xs = before ++ x :: after ∧ p x ∧ ∀ y ∈ after, ¬ q y

theorem since_nil {p q : A → Prop} : ¬ Since p q [] := by
  rintro ⟨before, x, after, h, -⟩
  simp at h

/-- One more event. -/
theorem since_snoc {p q : A → Prop} {xs : List A} {x : A} :
    Since p q (xs ++ [x]) ↔ p x ∨ (¬ q x ∧ Since p q xs) := by
  constructor
  · rintro ⟨before, y, after, heq, hy, hafter⟩
    rcases eq_nil_or_concat after with rfl | ⟨after', z, rfl⟩
    · obtain ⟨-, hxy⟩ := List.append_inj' heq rfl
      cases hxy
      exact .inl hy
    · rw [concat_eq_append, ← cons_append, ← append_assoc] at heq
      obtain ⟨rfl, hxz⟩ := List.append_inj' heq rfl
      cases hxz
      refine .inr ⟨hafter x (by simp), before, y, after', rfl, hy, fun w hw => ?_⟩
      exact hafter w (by simp [hw])
  · rintro (hx | ⟨hx, before, y, after, rfl, hy, hafter⟩)
    · exact ⟨xs, x, [], rfl, hx, (fun _ hw => by cases hw)⟩
    · refine ⟨before, y, after ++ [x], by simp, hy, fun w hw => ?_⟩
      rcases mem_append.mp hw with hw | hw
      · exact hafter w hw
      · rw [mem_singleton.mp hw]
        exact hx

/-- Since the last `Create` of the id a `Start` succeeded, and after it no `Stop` or
    `Shutdown` did. -/
def ReadySince (id : String) (history : List Event) : Prop :=
  Since (Event.starts id) (fun e => e.creates id ∨ e.stops id) history

/-- A `Create` of the id succeeded, and no `Shutdown` after it. -/
def CreatedSince (id : String) (history : List Event) : Prop :=
  Since (Event.creates id) (Event.removes id) history

/-- What a call should do to the states that are shown. -/
def lifeCycle (e : Event) (sh : String → Option SandboxState) :
    String → Option SandboxState :=
  if e.ok then
    match e.call with
    | .create req => Function.update sh req.sandboxId (some .notReady)
    | .on id .start => Function.update sh id (some .ready)
    | .on id .stop => Function.update sh id (some .notReady)
    | .on id .shutdown => Function.update sh id none
    | .on _ _ => sh
  else sh

/-- The states shown are those the history calls for. -/
def Tracks (sh : String → Option SandboxState) (history : List Event) : Prop :=
  ∀ id, (sh id = some .ready ↔ ReadySince id history) ∧ (sh id ≠ none ↔ CreatedSince id history)

variable {history : List Event}

/-- The history determines what is to be shown. -/
theorem Tracks.unique {sh' : String → Option SandboxState} (h : Tracks sh history)
    (h' : Tracks sh' history) : sh = sh' := by
  funext id
  have hready := (h id).1.trans (h' id).1.symm
  have hsome := (h id).2.trans (h' id).2.symm
  cases hs : sh id with
  | none =>
    rw [hs] at hsome
    by_contra hne
    exact hsome.mpr (Ne.symm hne) rfl
  | some st =>
    cases hs' : sh' id with
    | none =>
      rw [hs, hs'] at hsome
      exact absurd rfl (hsome.mp (by simp))
    | some st' =>
      rw [hs, hs'] at hready
      cases st <;> cases st' <;> simp_all

/-- The life cycle keeps track, as only sandboxes that exist are started or stopped. -/
theorem tracks_lifeCycle {e : Event} (h : Tracks sh history)
    (hexists : ∀ id, e.ok = true → e.call = .on id .start ∨ e.call = .on id .stop → sh id ≠ none) :
    Tracks (lifeCycle e sh) (history ++ [e]) := by
  obtain ⟨cl, ok⟩ := e
  intro i
  rw [ReadySince, CreatedSince, since_snoc, since_snoc, ← ReadySince, ← CreatedSince,
    ← (h i).1, ← (h i).2]
  cases ok with
  | false => simp [lifeCycle, Event.starts, Event.creates, Event.stops, Event.removes]
  | true =>
    cases cl with
    | create req =>
      by_cases hi : i = req.sandboxId
      · subst hi
        simp [lifeCycle, Event.starts, Event.creates, Event.stops, Event.removes]
      · simp [lifeCycle, Event.starts, Event.creates, Event.stops, Event.removes, hi, Ne.symm hi]
    | on id rpc =>
      have hex := hexists id rfl
      by_cases hi : i = id
      · subst hi
        cases rpc <;>
          simp_all [lifeCycle, Event.starts, Event.creates, Event.stops, Event.removes]
      · cases rpc <;>
          simp [lifeCycle, Event.starts, Event.creates, Event.stops, Event.removes, hi, Ne.symm hi]

/-! ## What a call does -/

/-- The outcomes of a call that runs alone. -/
inductive CallMove (c : ControllerServer) (q : Request) : Result → ControllerServer → Prop where
  | failed (e : RpcError) (hstop : ∀ id r, q.call = .on id .stop → c.sandboxes id ≠ some r) :
      CallMove c q (.error e) c
  | created (req : CreateRequest) (hcall : q.call = .create req)
      (hid : req.sandboxId ≠ "") (hnew : c.sandboxes req.sandboxId = none) :
      CallMove c q (.ok (.created req.sandboxId)) (c.add req)
  | started (id : String) (r : Nat) (resp : Response) (hcall : q.call = .on id .start)
      (hr : c.sandboxes id = some r) :
      CallMove c q (.ok resp) (c.modify r (.start c.pid q.now))
  | stopped (id : String) (r : Nat) (hcall : q.call = .on id .stop)
      (hr : c.sandboxes id = some r) :
      CallMove c q (.ok .stopped) (c.modify r (.stop 0 q.now))
  | waited (id : String) (resp : Response) (hcall : q.call = .on id .wait) :
      CallMove c q (.ok resp) c
  | status (id : String) (verbose : Bool) (resp : Response)
      (hcall : q.call = .on id (.status verbose)) : CallMove c q (.ok resp) c
  | updated (id : String) (r : Nat) (fields : List String)
      (hcall : q.call = .on id (.update fields)) (hr : c.sandboxes id = some r) :
      CallMove c q (.ok .updated) (c.modify r (.update fields))
  | shutdown (id : String) (r : Nat) (hcall : q.call = .on id .shutdown)
      (hr : c.sandboxes id = some r) :
      CallMove c q (.ok .shutdown) ((c.modify r (.stop 0 q.now)).delete r)

section Calls

variable {c : ControllerServer} {q : Request} {p : Result × ControllerServer}

theorem move_of_create (hcall : q.call = .create req) :
    CallMove c q (c.create req).1 (c.create req).2 := by
  rw [ControllerServer.create]
  by_cases hid : req.sandboxId = ""
  · rw [if_pos hid]
    exact .failed _ (by simp [hcall])
  · rw [if_neg hid]
    cases hnew : c.sandboxes req.sandboxId with
    | some r => exact .failed _ (by simp [hcall])
    | none => exact .created req hcall hid hnew

theorem move_of_serve {id : String} {rpc : Rpc} (hcall : q.call = .on id rpc)
    (hr : c.sandboxes id = some r) (hs : serve c q r rpc = some p) : CallMove c q p.1 p.2 := by
  cases rpc with
  | start =>
    cases hs
    exact .started id r _ hcall hr
  | stop =>
    cases hs
    exact .stopped id r hcall hr
  | wait =>
    rw [serve] at hs
    split at hs
    · cases hs
      exact .failed _ (by simp [hcall])
    · split at hs
      · cases hs
        exact .waited id _ hcall
      · cases hs
  | status verbose =>
    cases hs
    exact .status id verbose _ hcall
  | update fields =>
    cases hs
    exact .updated id r fields hcall hr
  | shutdown =>
    cases hs
    exact .shutdown id r hcall hr

/-- Each call is a move. -/
theorem move_of_call (h : Named c) (hc : call c q = some p) : CallMove c q p.1 p.2 := by
  rw [call] at hc
  cases hcall : q.call with
  | create req =>
    rw [hcall] at hc
    cases hc
    exact move_of_create hcall
  | on id rpc =>
    rw [hcall] at hc
    dsimp only at hc
    cases hget : c.get id with
    | error e =>
      rw [hget] at hc
      cases hc
      refine .failed e fun i r hi hr => ?_
      -- a `Stop` that finds its record does not fail
      cases hcall.symm.trans hi
      rw [(get_eq_ok h.nonempty).mpr hr] at hget
      cases hget
    | ok r =>
      rw [hget] at hc
      exact move_of_serve hcall ((get_eq_ok h.nonempty).mp hget) hc

/-- The id stands for a sandbox that was stopped and started again. -/
def Restarted (c : ControllerServer) (id : String) : Prop :=
  ∃ r, c.sandboxes id = some r ∧ (c.records r).stopOnce = .done ∧ (c.records r).state = .ready

/-- A stop leaves `ready` only behind a finished `Do`. -/
theorem stop_state (exitStatus : UInt32) (now : Time) (rec : SandboxRecord) :
    (rec.stop exitStatus now).state = .notReady
      ↔ ¬ (rec.stopOnce = .done ∧ rec.state = .ready) := by
  rw [SandboxRecord.stop]
  cases hst : rec.state <;> cases hon : rec.stopOnce <;>
    simp [SandboxRecord.close, SandboxRecord.recordExit, hst]

/-- A new record is under its own name. -/
theorem named_add (h : Named c) (hid : req.sandboxId ≠ "") : Named (c.add req) := by
  have hcases : ∀ i q, (c.add req).sandboxes i = some q →
      (i = req.sandboxId ∧ q = c.next) ∨ (c.sandboxes i = some q ∧ q ≠ c.next) := by
    intro i q hq
    rw [sandboxes_add] at hq
    by_cases hi : i = req.sandboxId
    · rw [hi, update_self] at hq
      exact .inl ⟨hi, (some.inj hq).symm⟩
    · rw [update_of_ne hi] at hq
      exact .inr ⟨hq, Nat.ne_of_lt (h.made i q hq)⟩
  refine ⟨fun i q hq => ?_, fun i q hq => ?_, ?_⟩
  · rcases hcases i q hq with ⟨-, rfl⟩ | ⟨hold, -⟩
    · exact Nat.lt_succ_self _
    · exact Nat.lt_succ_of_lt (h.made i q hold)
  · rcases hcases i q hq with ⟨rfl, rfl⟩ | ⟨hold, hne⟩
    · rw [records_add_self]
      rfl
    · rw [records_add_of_ne hne]
      exact h.named i q hold
  · rw [sandboxes_add, update_of_ne (Ne.symm hid)]
    exact h.nonempty

/-- A new one is shown as not ready. -/
theorem shown_add (h : Named c) (req : CreateRequest) :
    shown (c.add req) = Function.update (shown c) req.sandboxId (some .notReady) := by
  funext i
  rw [shown, sandboxes_add]
  by_cases hi : i = req.sandboxId
  · rw [hi, update_self, update_self, map_some, records_add_self]
    rfl
  · rw [update_of_ne hi, update_of_ne hi, shown]
    cases hq : c.sandboxes i with
    | none => rfl
    | some q =>
      rw [map_some, map_some, records_add_of_ne (Nat.ne_of_lt (h.made i q hq))]

/-- A call keeps the map in order. -/
theorem named_call (h : Named c) (hc : call c q = some p) : Named p.2 := by
  obtain ⟨res, c'⟩ := p
  have hmove : CallMove c q res c' := move_of_call h hc
  cases hmove with
  | failed e hstop | waited | status => exact h
  | created req hcall hid hnew => exact named_add h hid
  | started id r resp hcall hr | updated id r fields hcall hr => exact named_modify h rfl
  | stopped id r hcall hr => exact named_modify h (stop_id ..)
  | shutdown id r hcall hr => exact named_delete (named_modify h (stop_id ..)) r

/-- **A CALL FOLLOWS THE LIFE CYCLE** unless it stops a sandbox that was stopped and
    started again. -/
theorem shown_call (h : Named c) (hc : call c q = some p) :
    shown p.2 = lifeCycle ⟨q.call, p.1.isOk⟩ (shown c)
      ↔ ∀ id, q.call = .on id .stop → ¬ Restarted c id := by
  obtain ⟨res, c'⟩ := p
  have hmove : CallMove c q res c' := move_of_call h hc
  dsimp only
  -- every call but `Stop` does what the life cycle says
  have hother : shown c' = lifeCycle ⟨q.call, res.isOk⟩ (shown c) →
      (∀ id, q.call ≠ .on id .stop) →
      (shown c' = lifeCycle ⟨q.call, res.isOk⟩ (shown c)
        ↔ ∀ id, q.call = .on id .stop → ¬ Restarted c id) :=
    fun heq hno => ⟨fun _ id hid => absurd hid (hno id), fun _ => heq⟩
  cases hmove with
  | failed e hstop =>
    refine ⟨fun _ id hid hre => ?_, fun _ => rfl⟩
    obtain ⟨r, hr, -⟩ := hre
    exact hstop id r hid hr
  | created req hcall hid hnew =>
    refine hother ?_ (by simp [hcall])
    rw [hcall]
    exact shown_add h req
  | started id r resp hcall hr =>
    refine hother ?_ (by simp [hcall])
    rw [hcall, shown_modify h hr]
    rfl
  | stopped id r hcall hr =>
    rw [hcall, shown_modify h hr]
    show Function.update _ _ _ = Function.update _ _ _ ↔ _
    rw [(update_injective _ _).eq_iff, Option.some.injEq, stop_state]
    constructor
    · rintro hno i ⟨⟩ ⟨q', hq', hre⟩
      cases hr.symm.trans hq'
      exact hno hre
    · exact fun hno hre => hno id rfl ⟨r, hr, hre⟩
  | waited id resp hcall | status id verbose resp hcall =>
    refine hother ?_ (by simp [hcall])
    rw [hcall]
    rfl
  | updated id r fields hcall hr =>
    refine hother ?_ (by simp [hcall])
    rw [hcall, shown_modify h hr]
    show Function.update (shown c) id (some (c.records r).state) = shown c
    have hold : some (c.records r).state = shown c id := by rw [shown, hr]; rfl
    rw [hold, update_eq_self]
  | shutdown id r hcall hr =>
    refine hother ?_ (by simp [hcall])
    have hid : ((c.modify r (.stop 0 q.now)).records r).id = id := by
      rw [records_modify_self, stop_id]
      exact h.named id r hr
    rw [hcall, shown_delete hid, shown_modify h hr, update_idem]
    rfl

/-- Only a sandbox that exists is started or stopped. -/
theorem shown_of_ok (h : Named c) (hc : call c q = some p) {id : String}
    (hok : p.1.isOk = true) (hcall : q.call = .on id .start ∨ q.call = .on id .stop) :
    shown c id ≠ none := by
  obtain ⟨res, c'⟩ := p
  have hfound : ∃ r, c.sandboxes id = some r := by
    have hmove : CallMove c q res c' := move_of_call h hc
    cases hmove with
    | failed e hstop => cases hok
    | started i r resp hq hr | stopped i r hq hr =>
      rw [hq] at hcall
      rcases hcall with hi | hi <;> cases hi
      exact ⟨r, hr⟩
    | created req hq | waited i resp hq | status i verbose resp hq | updated i r fields hq
    | shutdown i r hq => rw [hq] at hcall; rcases hcall with hi | hi <;> cases hi
  obtain ⟨r, hr⟩ := hfound
  rw [shown, hr]
  simp

end Calls

/-! ## Sequences of calls -/

/-- The server with the calls it has served. -/
structure Session where
  server : ControllerServer
  history : List Event

/-- A new server, before any call. -/
def startSession (pid : UInt32) : Session := ⟨newControllerServer pid, []⟩

/-- A call, noted in the history. -/
def sessionStep (s : Session) (q : Request) : Option Session :=
  (call s.server q).map fun p => ⟨p.2, s.history ++ [⟨q.call, p.1.isOk⟩]⟩

/-- `Status` answers for the sandboxes that exist: `SANDBOX_READY` exactly since a
    successful `Start`, and otherwise `SANDBOX_NOTREADY`. -/
def StatusRight (s : Session) : Prop :=
  ∀ id, (reportedState s.server id ≠ none ↔ CreatedSince id s.history)
    ∧ (reportedState s.server id = some "SANDBOX_READY" ↔ ReadySince id s.history)
    ∧ (reportedState s.server id = some "SANDBOX_NOTREADY"
      ↔ CreatedSince id s.history ∧ ¬ ReadySince id s.history)

/-- The call does not stop a sandbox that was stopped before and has been started
    again. -/
def StopsOnce (s : Session) (q : Request) (_ : Session) : Prop :=
  ∀ id, q.call = .on id .stop → ¬ Restarted s.server id

variable {s s' : Session}

/-- The status is right when the server tracks the history. -/
theorem statusRight_iff (h : Named s.server) :
    StatusRight s ↔ Tracks (shown s.server) s.history := by
  refine forall_congr' fun id => ?_
  rw [reportedState_eq h]
  cases shown s.server id with
  | none =>
    simp only [map_none, ne_eq, not_true_eq_false, false_iff, reduceCtorEq]
    constructor
    · rintro ⟨hcreated, hready, -⟩
      exact ⟨hready, hcreated⟩
    · rintro ⟨hready, hcreated⟩
      exact ⟨hcreated, hready, fun hboth => hcreated hboth.1⟩
  | some st =>
    cases st with
    | ready | notReady => simp +contextual [SandboxState.text, and_comm]

/-- A step is a call that is noted. -/
theorem sessionStep_cases {q : Request} (hs : sessionStep s q = some s') :
    ∃ res, call s.server q = some (res, s'.server)
      ∧ s'.history = s.history ++ [⟨q.call, res.isOk⟩] := by
  obtain ⟨p, hp, rfl⟩ := map_eq_some_iff.mp hs
  exact ⟨p.1, hp, rfl⟩

/-- From a state in which `Status` is right, it is right after the call exactly when the
    call is no second `Stop` after a restart. -/
theorem statusRight_step {q : Request} (h : Named s.server) (hright : StatusRight s)
    (hs : sessionStep s q = some s') : StopsOnce s q s' ↔ StatusRight s' := by
  obtain ⟨res, hc, hhist⟩ := sessionStep_cases hs
  have hshould : Tracks (lifeCycle ⟨q.call, res.isOk⟩ (shown s.server))
      (s.history ++ [⟨q.call, res.isOk⟩]) :=
    tracks_lifeCycle ((statusRight_iff h).mp hright) fun id hok hcall => shown_of_ok h hc hok hcall
  rw [statusRight_iff (named_call h hc), hhist, StopsOnce, ← shown_call h hc]
  constructor
  · intro heq
    rw [heq]
    exact hshould
  · intro htracks
    exact htracks.unique hshould

/-- **STATUS FOLLOWS THE LIFE CYCLE EXACTLY IN THE RUNS WITHOUT A SECOND STOP.**  For
    every sequence of calls on any ids, `Status` is right after every call exactly when no
    call stops a sandbox that was stopped before and started again. -/
theorem status_right_iff (pid : UInt32) (qs : List Request) :
    States sessionStep StatusRight (startSession pid) qs
      ↔ Moves sessionStep StopsOnce (startSession pid) qs := by
  have hstart : StatusRight (startSession pid) := by
    rw [statusRight_iff (named_new pid)]
    intro id
    refine ⟨⟨(fun h => by cases h), fun h => absurd h since_nil⟩,
      ⟨fun h => absurd rfl h, fun h => absurd h since_nil⟩⟩
  have hkeep : ∀ s q s', Named s.server ∧ StatusRight s → sessionStep s q = some s' →
      StopsOnce s q s' → Named s'.server ∧ StatusRight s' := by
    intro s q s' h hs hok
    obtain ⟨res, hc, -⟩ := sessionStep_cases hs
    exact ⟨named_call h.1 hc, (statusRight_step h.1 h.2 hs).mp hok⟩
  have hiff : Moves sessionStep StopsOnce (startSession pid) qs
      ↔ Moves sessionStep (fun _ _ s' => StatusRight s') (startSession pid) qs :=
    moves_iff (m := sessionStep) (I := fun s => Named s.server ∧ StatusRight s)
      (fun s q s' h hs => statusRight_step h.1 h.2 hs) hkeep ⟨named_new pid, hstart⟩
  exact ⟨fun h => hiff.mpr h.2, fun h => ⟨hstart, hiff.mp h⟩⟩

/-- Create, start, stop, start, stop. -/
def restart : List Request :=
  [⟨0, false, .create ⟨"a", "", "", 0, 0, none⟩⟩, ⟨1, false, .on "a" .start⟩,
    ⟨2, false, .on "a" .stop⟩, ⟨3, false, .on "a" .start⟩, ⟨4, false, .on "a" .stop⟩]

/-- Every call succeeds, the last one is a `Stop`, and `Status` still reports
    `SANDBOX_READY`. -/
theorem stopped_twice_reports_ready :
    ∃ s, exec sessionStep (startSession 7) restart = some s
      ∧ (∀ e ∈ s.history, e.ok = true) ∧ reportedState s.server "a" = some "SANDBOX_READY"
      ∧ ¬ ReadySince "a" s.history ∧ ¬ StatusRight s := by
  have hhist : ((exec sessionStep (startSession 7) restart).getD (startSession 7)).history
      = restart.map fun q => ⟨q.call, true⟩ := rfl
  have hnot : ¬ ReadySince "a" (restart.map fun q => (⟨q.call, true⟩ : Event)) := by
    show ¬ Since _ _ ([_, _, _, _] ++ [_])
    rw [since_snoc]
    simp [Event.starts, Event.stops]
  refine ⟨(exec sessionStep (startSession 7) restart).getD (startSession 7), rfl, ?_, rfl, ?_,
    fun hright => ?_⟩
  · rw [hhist]
    simp
  · rw [hhist]
    exact hnot
  · have hready := (hright "a").2.1.mp rfl
    rw [hhist] at hready
    exact hnot hready

end RemoteController
