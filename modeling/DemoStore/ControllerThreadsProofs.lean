import DemoStore.RemoteControllerProofs

/-! # Concurrent calls of the sandbox controller

    Every RPC is a thread that looks its record up in one critical section and works on
    it in later ones.  `stopOnce.Do`, the locked section inside it, the closing of the
    channel and the return from `Do` are steps of their own; a caller that finds the
    function running waits until it has returned.

    `Move` lists what a thread can do in one step.  A call whose sections run without an
    interruption leaves the server as the sequential `call` does. -/

namespace ControllerThreads

open RemoteController MachineRun Option
open Function (update update_eq_self update_idem update_self)

/-! ## The machine -/

/-- Who called `stopRecord`. -/
inductive Stopper where
  | stop
  | shutdown
  deriving DecidableEq

/-- The call that stops. -/
def Stopper.rpc : Stopper → Rpc
  | .stop => .stop
  | .shutdown => .shutdown

/-- Where a thread is.  `found` has looked its record up; `inOnce`, `closing` and `leaving`
    are in `stopOnce.Do`, before the locked section, before the close and before the
    return. -/
inductive Pc where
  | idle
  | found (rpc : Rpc) (r : Nat)
  | inOnce (k : Stopper) (r : Nat)
  | closing (k : Stopper) (r : Nat)
  | leaving (k : Stopper) (r : Nat)
  | deleting (r : Nat)
  | received (r : Nat)
  deriving DecidableEq

/-- `bodies`, `closes`, `waits` and `stops` tell the past of each record: the exit data
    recorded by the bodies of `stopRecord`, how often the channel was closed, the responses
    of `Wait`, and whether a `Stop` has returned. -/
structure System where
  server : ControllerServer
  threads : Nat → Pc
  bodies : Nat → List (UInt32 × Option Time)
  closes : Nat → Nat
  waits : Nat → List (UInt32 × Option Time)
  stops : Nat → Bool

/-- A new server, every thread idle. -/
def start (pid : UInt32) : System where
  server := newControllerServer pid
  threads := fun _ => .idle
  bodies := fun _ => []
  closes := fun _ => 0
  waits := fun _ => []
  stops := fun _ => false

namespace System

/-- Thread `i` moves on. -/
def goto (i : Nat) (pc : Pc) (s : System) : System :=
  { s with threads := update s.threads i pc }

/-- A change of one record. -/
def modify (r : Nat) (g : SandboxRecord → SandboxRecord) (s : System) : System :=
  { s with server := s.server.modify r g }

end System

/-- The exit data of a record, as `Wait` reads it. -/
def exitData (rec : SandboxRecord) : UInt32 × Option Time := (rec.exitStatus, rec.exitedAt)

/-- After `stopRecord`: `Stop` returns, `Shutdown` goes on to delete. -/
def afterStop (i : Nat) (k : Stopper) (r : Nat) (s : System) : System :=
  match k with
  | .stop => { s.goto i .idle with stops := update s.stops r true }
  | .shutdown => s.goto i (.deleting r)

/-- Sets the state of `stopOnce`. -/
def setOnce (o : Once) (rec : SandboxRecord) : SandboxRecord := { rec with stopOnce := o }

/-- The first caller of `stopOnce.Do` runs the function. -/
def enterOnce (i : Nat) (k : Stopper) (r : Nat) (s : System) : System :=
  (s.modify r (setOnce .running)).goto i (.inOnce k r)

/-- The locked section of the function: state, exit status and exit time. -/
def recordBody (i : Nat) (k : Stopper) (r : Nat) (now : Time) (s : System) : System :=
  { (s.modify r (.recordExit 0 now)).goto i (.closing k r) with
    bodies := update s.bodies r (s.bodies r ++ [(0, some now)]) }

/-- `close(rec.stopped)`. -/
def closeChannel (i : Nat) (k : Stopper) (r : Nat) (s : System) : System :=
  { (s.modify r .close).goto i (.leaving k r) with
    closes := update s.closes r (s.closes r + 1) }

/-- The function returns, and so does `Do`. -/
def leaveOnce (i : Nat) (k : Stopper) (r : Nat) (s : System) : System :=
  afterStop i k r (s.modify r (setOnce .done))

/-- The call of `stopOnce.Do`. -/
def callOnce (i : Nat) (k : Stopper) (r : Nat) (s : System) : Option System :=
  match (s.server.records r).stopOnce with
  | .fresh => some (enterOnce i k r s)
  | .running => none
  | .done => some (afterStop i k r s)

/-- The last section of `Shutdown`. -/
def deleteRecord (i r : Nat) (s : System) : System :=
  { s.goto i .idle with server := s.server.delete r }

/-- The last section of `Wait`. -/
def returnWait (i r : Nat) (s : System) : System :=
  { s.goto i .idle with
    waits := update s.waits r (s.waits r ++ [exitData (s.server.records r)]) }

/-- The next section of a thread that is in an RPC; `now` is the time it reads. -/
def advance (s : System) (i : Nat) (now : Time) : Option System :=
  match s.threads i with
  | .idle => none
  | .found .start r => some ((s.modify r (.start s.server.pid now)).goto i .idle)
  | .found .stop r => callOnce i .stop r s
  | .found .wait r =>
    if (s.server.records r).stopped then some (s.goto i (.received r)) else none
  | .found (.status _) _ => some (s.goto i .idle)
  | .found (.update fields) r => some ((s.modify r (.update fields)).goto i .idle)
  | .found .shutdown r => callOnce i .shutdown r s
  | .inOnce k r => some (recordBody i k r now s)
  | .closing k r => some (closeChannel i k r s)
  | .leaving k r => some (leaveOnce i k r s)
  | .deleting r => some (deleteRecord i r s)
  | .received r => some (returnWait i r s)

/-- What a thread does. -/
inductive Action where
  | call (c : Call)
  | advance (now : Time)
  | contextDone

/-- A step of thread `i`. -/
def step (s : System) (l : Nat × Action) : Option System :=
  match l.2 with
  | .call c =>
    match s.threads l.1, c with
    | .idle, .create req => some { s with server := (s.server.create req).2 }
    | .idle, .on id rpc =>
      match s.server.get id with
      | .error _ => some s
      | .ok r => some (s.goto l.1 (.found rpc r))
    | _, _ => none
  | .advance now => advance s l.1 now
  | .contextDone =>
    match s.threads l.1 with
    | .found .wait _ => some (s.goto l.1 .idle)
    | _ => none

/-! ## What a thread can do in one step -/

/-- A change of a record that leaves its identity and its stopping alone. -/
structure Harmless (g : SandboxRecord → SandboxRecord) : Prop where
  id : ∀ rec, (g rec).id = rec.id
  exit : ∀ rec, exitData (g rec) = exitData rec
  stopped : ∀ rec, (g rec).stopped = rec.stopped
  stopOnce : ∀ rec, (g rec).stopOnce = rec.stopOnce

/-- The steps of thread `i`, with the state after them. -/
inductive Move (s : System) (i : Nat) : System → Prop where
  | failed (hpc : s.threads i = .idle) : Move s i s
  | created (req : CreateRequest) (hpc : s.threads i = .idle) (hid : req.sandboxId ≠ "")
      (hnew : s.server.sandboxes req.sandboxId = none) :
      Move s i { s with server := s.server.add req }
  | lookedUp (id : String) (rpc : Rpc) (r : Nat) (hpc : s.threads i = .idle)
      (hr : s.server.sandboxes id = some r) : Move s i (s.goto i (.found rpc r))
  | touched (rpc : Rpc) (r : Nat) (g : SandboxRecord → SandboxRecord)
      (hpc : s.threads i = .found rpc r) (hg : Harmless g) :
      Move s i ((s.modify r g).goto i .idle)
  | returned (rpc : Rpc) (r : Nat) (hpc : s.threads i = .found rpc r) :
      Move s i (s.goto i .idle)
  | received (r : Nat) (hpc : s.threads i = .found .wait r)
      (hst : (s.server.records r).stopped = true) : Move s i (s.goto i (.received r))
  | entered (k : Stopper) (rpc : Rpc) (r : Nat) (hpc : s.threads i = .found rpc r)
      (honce : (s.server.records r).stopOnce = .fresh) : Move s i (enterOnce i k r s)
  | passed (k : Stopper) (rpc : Rpc) (r : Nat) (hpc : s.threads i = .found rpc r)
      (honce : (s.server.records r).stopOnce = .done) : Move s i (afterStop i k r s)
  | recorded (k : Stopper) (r : Nat) (now : Time) (hpc : s.threads i = .inOnce k r) :
      Move s i (recordBody i k r now s)
  | closed (k : Stopper) (r : Nat) (hpc : s.threads i = .closing k r) :
      Move s i (closeChannel i k r s)
  | left (k : Stopper) (r : Nat) (hpc : s.threads i = .leaving k r) :
      Move s i (leaveOnce i k r s)
  | deleted (r : Nat) (hpc : s.threads i = .deleting r) : Move s i (deleteRecord i r s)
  | waited (r : Nat) (hpc : s.threads i = .received r) : Move s i (returnWait i r s)

variable {k : Stopper}

section Moves

variable {s s' : System} {i : Nat}

theorem harmless_start (pid : UInt32) (now : Time) : Harmless (.start pid now) :=
  ⟨fun _ => rfl, fun _ => rfl, fun _ => rfl, fun _ => rfl⟩

theorem harmless_update (fields : List String) : Harmless (.update fields) :=
  ⟨fun _ => rfl, fun _ => rfl, fun _ => rfl, fun _ => rfl⟩

/-- A thread at `Do` makes a move. -/
theorem move_of_callOnce {rpc : Rpc} {r : Nat} (hpc : s.threads i = .found rpc r)
    (hs : callOnce i k r s = some s') : Move s i s' := by
  rw [callOnce] at hs
  cases honce : (s.server.records r).stopOnce with
  | fresh =>
    rw [honce] at hs
    cases hs
    exact .entered k rpc r hpc honce
  | running => rw [honce] at hs; cases hs
  | done =>
    rw [honce] at hs
    cases hs
    exact .passed k rpc r hpc honce

/-- A thread that goes on makes a move. -/
theorem move_of_advance {now : Time} (hs : advance s i now = some s') : Move s i s' := by
  unfold advance at hs
  cases hpc : s.threads i with
  | idle => rw [hpc] at hs; cases hs
  | found rpc r =>
    rw [hpc] at hs
    cases rpc with
    | start =>
      cases hs
      exact .touched _ r _ hpc (harmless_start ..)
    | stop | shutdown => exact move_of_callOnce hpc hs
    | wait =>
      dsimp only at hs
      split at hs
      · rename_i hst
        cases hs
        exact .received r hpc hst
      · cases hs
    | status verbose =>
      cases hs
      exact .returned _ r hpc
    | update fields =>
      cases hs
      exact .touched _ r _ hpc (harmless_update fields)
  | inOnce k r =>
    rw [hpc] at hs
    cases hs
    exact .recorded k r now hpc
  | closing k r =>
    rw [hpc] at hs
    cases hs
    exact .closed k r hpc
  | leaving k r =>
    rw [hpc] at hs
    cases hs
    exact .left k r hpc
  | deleting r =>
    rw [hpc] at hs
    cases hs
    exact .deleted r hpc
  | received r =>
    rw [hpc] at hs
    cases hs
    exact .waited r hpc

/-- A create is a move. -/
theorem move_of_create {req : CreateRequest} (hpc : s.threads i = .idle) :
    Move s i { s with server := (s.server.create req).2 } := by
  rw [ControllerServer.create]
  by_cases hid : req.sandboxId = ""
  · rw [if_pos hid]
    exact .failed hpc
  · rw [if_neg hid]
    cases hnew : s.server.sandboxes req.sandboxId with
    | some r => exact .failed hpc
    | none => exact .created req hpc hid hnew

/-- Every step is a move. -/
theorem move_of_step {l : Nat × Action} (hname : s.server.sandboxes "" = none)
    (hs : step s l = some s') : Move s l.1 s' := by
  obtain ⟨i, act⟩ := l
  unfold step at hs
  cases act with
  | call c =>
    dsimp only at hs
    cases hpc : s.threads i with
    | idle =>
      rw [hpc] at hs
      cases c with
      | create req =>
        cases hs
        exact move_of_create hpc
      | on id rpc =>
        dsimp only at hs
        cases hget : s.server.get id with
        | error e =>
          rw [hget] at hs
          cases hs
          exact .failed hpc
        | ok r =>
          rw [hget] at hs
          cases hs
          exact .lookedUp id rpc r hpc ((get_eq_ok hname).mp hget)
    | _ => rw [hpc] at hs; cases hs
  | advance now => exact move_of_advance hs
  | contextDone =>
    dsimp only at hs
    cases hpc : s.threads i with
    | found rpc r =>
      rw [hpc] at hs
      cases rpc with
      | wait =>
        cases hs
        exact .returned _ r hpc
      | _ => cases hs
    | _ => rw [hpc] at hs; cases hs

end Moves

/-! ## A call that runs alone -/

section Alone

variable {s : System} {i r : Nat} {now : Time} {q : Request} {p : Result × ControllerServer}

theorem modify_modify (g g' : SandboxRecord → SandboxRecord) (c : ControllerServer) :
    (c.modify r g).modify r g' = c.modify r fun rec => g' (g rec) := by
  rw [ControllerServer.modify, ControllerServer.records_modify_self]
  show { c with records := update (update _ _ _) _ _ } = _
  rw [update_idem]
  rfl

/-- The state after the next sections of one thread. -/
def Alone (s : System) (i : Nat) (now : Time) (s' : System) : Prop :=
  ∃ n, exec step s (List.replicate n (i, .advance now)) = some s'

theorem Alone.one {s' : System} (h : advance s i now = some s') : Alone s i now s' := by
  refine ⟨1, ?_⟩
  show (advance s i now).bind _ = _
  rw [h]
  rfl

/-- Steps of one thread, in a row. -/
theorem Alone.trans {s₁ s₂ : System} (h₁ : Alone s i now s₁) (h₂ : Alone s₁ i now s₂) :
    Alone s i now s₂ := by
  obtain ⟨n, hn⟩ := h₁
  obtain ⟨m, hm⟩ := h₂
  refine ⟨n + m, ?_⟩
  rw [← List.replicate_append_replicate, exec_append, hn]
  exact hm

/-- `stopRecord` without an interruption is `SandboxRecord.stop`, and then the caller goes
    on. -/
theorem alone_stop (hpc : s.threads i = .found k.rpc r)
    (honce : (s.server.records r).stopOnce ≠ .running) :
    ∃ s', Alone s i now (afterStop i k r s') ∧ s'.server = s.server.modify r (.stop 0 now) := by
  have hcall : advance s i now = callOnce i k r s := by
    unfold advance
    rw [hpc]
    cases k <;> rfl
  cases hst : (s.server.records r).stopOnce with
  | running => exact absurd hst honce
  | done =>
    refine ⟨s, .one ?_, ?_⟩
    · rw [hcall, callOnce, hst]
    · have hstop : (s.server.records r).stop 0 now = s.server.records r := by
        rw [SandboxRecord.stop, hst]
      rw [ControllerServer.modify, hstop, update_eq_self]
  | fresh =>
    let s₁ := enterOnce i k r s
    let s₂ := recordBody i k r now s₁
    let s₃ := closeChannel i k r s₂
    have h₁ : advance s i now = some s₁ := by rw [hcall, callOnce, hst]
    have h₂ : advance s₁ i now = some s₂ := by
      unfold advance
      rw [show s₁.threads i = .inOnce k r from update_self ..]
    have h₃ : advance s₂ i now = some s₃ := by
      unfold advance
      rw [show s₂.threads i = .closing k r from update_self ..]
    have h₄ : advance s₃ i now = some (leaveOnce i k r s₃) := by
      unfold advance
      rw [show s₃.threads i = .leaving k r from update_self ..]
    refine ⟨s₃.modify r (setOnce .done), ((Alone.one h₁).trans (.one h₂)).trans
      ((Alone.one h₃).trans (.one h₄)), ?_⟩
    show (((s.server.modify r (setOnce .running)).modify r (.recordExit 0 now)).modify r
      .close).modify r (setOnce .done) = _
    rw [modify_modify, modify_modify, modify_modify, ControllerServer.modify,
      ControllerServer.modify, SandboxRecord.stop, hst]
    rfl

/-- The RPC on the record it has found runs to its end as `serve` says. -/
theorem serve_alone {rpc : Rpc} (hpc : s.threads i = .found rpc r)
    (honce : (s.server.records r).stopOnce ≠ .running) (hs : serve s.server q r rpc = some p) :
    ∃ ls s', (∀ l ∈ ls, l.1 = i) ∧ exec step s ls = some s' ∧ s'.threads i = .idle
      ∧ s'.server = p.2 := by
  -- a thread that advances alone takes steps of its own only
  have hrun : ∀ s', Alone s i q.now s' → s'.threads i = .idle → s'.server = p.2 →
      ∃ ls s', (∀ l ∈ ls, l.1 = i) ∧ exec step s ls = some s' ∧ s'.threads i = .idle
        ∧ s'.server = p.2 := by
    rintro s' ⟨n, hn⟩ hidle hserver
    refine ⟨_, s', fun l hl => ?_, hn, hidle, hserver⟩
    rw [List.eq_of_mem_replicate hl]
  cases rpc with
  | start =>
    cases hs
    have h₁ : advance s i q.now = some ((s.modify r (.start s.server.pid q.now)).goto i .idle) := by
      unfold advance
      rw [hpc]
    exact hrun _ (.one h₁) (update_self ..) rfl
  | stop =>
    cases hs
    obtain ⟨s', halone, hserver⟩ := alone_stop (k := .stop) hpc honce
    exact hrun _ halone (update_self ..) hserver
  | wait =>
    rw [serve] at hs
    split at hs
    · cases hs
      have h₁ : step s (i, .contextDone) = some (s.goto i .idle) := by
        unfold step
        dsimp only
        rw [hpc]
      refine ⟨[(i, .contextDone)], s.goto i .idle, by simp, ?_,
        update_self .., rfl⟩
      rw [exec, h₁]
      rfl
    · split at hs
      · rename_i hst
        cases hs
        have h₁ : advance s i q.now = some (s.goto i (.received r)) := by
          unfold advance
          rw [hpc]
          dsimp only
          rw [if_pos hst]
        have h₂ : advance (s.goto i (.received r)) i q.now
            = some (returnWait i r (s.goto i (.received r))) := by
          unfold advance
          rw [show (s.goto i (.received r)).threads i = .received r from
            update_self ..]
        exact hrun _ ((Alone.one h₁).trans (.one h₂)) (update_self ..) rfl
      · cases hs
  | status verbose =>
    cases hs
    have h₁ : advance s i q.now = some (s.goto i .idle) := by
      unfold advance
      rw [hpc]
    exact hrun _ (.one h₁) (update_self ..) rfl
  | update fields =>
    cases hs
    have h₁ : advance s i q.now = some ((s.modify r (.update fields)).goto i .idle) := by
      unfold advance
      rw [hpc]
    exact hrun _ (.one h₁) (update_self ..) rfl
  | shutdown =>
    cases hs
    obtain ⟨s', halone, hserver⟩ := alone_stop (k := .shutdown) hpc honce
    have hdel : advance (afterStop i .shutdown r s') i q.now
        = some (deleteRecord i r (afterStop i .shutdown r s')) := by
      unfold advance
      rw [show (afterStop i .shutdown r s').threads i = .deleting r from
        update_self ..]
    refine hrun _ (halone.trans (.one hdel)) (update_self ..) ?_
    show s'.server.delete r = _
    rw [hserver]

/-- **ALONE, A CALL IS THE SEQUENTIAL CALL.**  A thread that runs an RPC while nobody is in
    a `stopOnce.Do` leaves the server as `call` says. -/
theorem call_alone (hidle : s.threads i = .idle)
    (honce : ∀ r, (s.server.records r).stopOnce ≠ .running) (hc : call s.server q = some p) :
    ∃ ls s', (∀ l ∈ ls, l.1 = i) ∧ exec step s ls = some s' ∧ s'.threads i = .idle
      ∧ s'.server = p.2 := by
  unfold call at hc
  cases hcall : q.call with
  | create req =>
    rw [hcall] at hc
    cases hc
    have h₁ : step s (i, .call (.create req))
        = some { s with server := (s.server.create req).2 } := by
      unfold step
      dsimp only
      rw [hidle]
    refine ⟨[(i, .call (.create req))], { s with server := (s.server.create req).2 },
      by simp, ?_, hidle, rfl⟩
    rw [exec, h₁]
    rfl
  | on id rpc =>
    rw [hcall] at hc
    dsimp only at hc
    cases hget : s.server.get id with
    | error e =>
      rw [hget] at hc
      cases hc
      have h₁ : step s (i, .call (.on id rpc)) = some s := by
        unfold step
        dsimp only
        rw [hidle]
        dsimp only
        rw [hget]
      refine ⟨[(i, .call (.on id rpc))], s, by simp, ?_, hidle, rfl⟩
      rw [exec, h₁]
      rfl
    | ok r =>
      rw [hget] at hc
      have h₁ : step s (i, .call (.on id rpc)) = some (s.goto i (.found rpc r)) := by
        unfold step
        dsimp only
        rw [hidle]
        dsimp only
        rw [hget]
      obtain ⟨ls, s', hls, hexec, hdone, hserver⟩ :=
        serve_alone (s := s.goto i (.found rpc r)) (update_self ..) (honce r) hc
      refine ⟨(i, .call (.on id rpc)) :: ls, s', ?_, ?_, hdone, hserver⟩
      · intro l hl
        rcases List.mem_cons.mp hl with rfl | hl
        · rfl
        · exact hls l hl
      · rw [exec, h₁]
        exact hexec

end Alone

end ControllerThreads
