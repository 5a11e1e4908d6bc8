import DemoStore.MachineRunProofs
import Mathlib.Data.Bool.Basic
import Mathlib.Logic.Function.Basic

/-! # Two processes that take turns

    Two processes share a world and a pair of pipes.  One of them acts, passes the turn
    with a token and then waits for the answer; the other waits for the token, acts and
    passes the turn back.  In the end one of them exits and the other joins it.  Either
    process may fail at any point, and then the other finds its pipe closed.

    The scripts of both come from one list of turns (`speak`, `listen`).  Whatever the
    schedule and whoever fails, the actions on the world are those of the turns in their
    order: the pair refines the sequential machine `seqStep` (`simulates`).  So an
    invariant of the world is proved for one action after the other, and the tokens do
    not occur in it. -/

namespace TurnTaking

open MachineRun
open Function (update update_of_ne update_self)

variable {A T W E : Type}

/-! ## Scripts -/

/-- An instruction of a script. -/
inductive Instr (A T : Type) where
  | act (a : A)
  | send (t : T)
  | recv (t : T)
  | join

/-- What is done in a turn, and the token that ends it. -/
abbrev Turn (A T : Type) := List A × T

mutual

/-- The script of the process whose turn it is; `last` is done after the last turn. -/
def speak (last : List A) : List (Turn A T) → List (Instr A T)
  | [] => last.map .act
  | turn :: rest => turn.1.map .act ++ .send turn.2 :: listen last rest

/-- The script of the other one. -/
def listen (last : List A) : List (Turn A T) → List (Instr A T)
  | [] => [.join]
  | turn :: rest => .recv turn.2 :: speak last rest

end

/-- All actions in order, each with the process that does it. -/
def order (last : List A) : Bool → List (Turn A T) → List (Bool × A)
  | x, [] => last.map (x, ·)
  | x, turn :: rest => turn.1.map (x, ·) ++ order last (!x) rest

/-- The process that exits first. -/
def closer : Bool → List (Turn A T) → Bool
  | x, [] => x
  | x, _ :: rest => closer (!x) rest

/-! ## The machine -/

/-- Whether a process has exited. -/
inductive Status where
  | running
  | exited (ok : Bool)
  deriving DecidableEq

/-- Two processes with a pipe each way. -/
structure Duo (A T W : Type) where
  script : Bool → List (Instr A T)
  /-- the tokens on their way to a process -/
  pipe : Bool → List T
  status : Bool → Status
  world : W
  /-- somebody has read a token that it did not expect -/
  confused : Bool

/-- What the actions do, and what else happens to the world on behalf of a process.  An action
    may have to wait (`none`), and it may fail (`some none`). -/
structure Meaning (A W E : Type) where
  act : Bool → A → W → Option (Option W)
  env : E → W → Option W
  owner : E → Bool

/-- The steps of the two. -/
inductive Label (E : Type) where
  | next (x : Bool)
  | fail (x : Bool)
  | env (e : E)

namespace Duo

/-- Process `x` exits. -/
def exits (x ok : Bool) (d : Duo A T W) : Duo A T W :=
  { d with status := update d.status x (.exited ok) }

/-- Process `x` moves on. -/
def goto (x : Bool) (rest : List (Instr A T)) (d : Duo A T W) : Duo A T W :=
  { d with script := update d.script x rest }

end Duo

/-- The next instruction of a running process. -/
def instrStep [DecidableEq T] (sem : Meaning A W E) (x : Bool) (d : Duo A T W) :
    Option (Duo A T W) :=
  match d.script x with
  | [] => some (d.exits x true)
  | .act a :: rest =>
    match sem.act x a d.world with
    | none => none
    | some none => some (d.exits x false)
    | some (some w) => some { d.goto x rest with world := w }
  | .send t :: rest =>
    match d.status (!x) with
    | .running =>
      some { d.goto x rest with pipe := update d.pipe (!x) (d.pipe (!x) ++ [t]) }
    -- nobody is left to read
    | .exited _ => some (d.exits x false)
  | .recv t :: rest =>
    match d.pipe x with
    | t' :: ts =>
      if t' = t then some { d.goto x rest with pipe := update d.pipe x ts }
      else some { d.exits x false with confused := true }
    | [] =>
      match d.status (!x) with
      | .running => none
      -- end of file
      | .exited _ => some (d.exits x false)
  | .join :: rest =>
    match d.status (!x) with
    | .running => none
    | .exited true => some (d.goto x rest)
    | .exited false => some (d.exits x false)

/-- A step of the two. -/
def duoStep [DecidableEq T] (sem : Meaning A W E) (d : Duo A T W) : Label E → Option (Duo A T W)
  | .next x => if d.status x = .running then instrStep sem x d else none
  | .fail x => if d.status x = .running then some (d.exits x false) else none
  | .env e =>
    if d.status (sem.owner e) = .running then
      (sem.env e d.world).map fun w => { d with world := w }
    else none

/-- Both at the start; `x` has the first turn. -/
def begin (x : Bool) (last : List A) (turns : List (Turn A T)) (w : W) : Duo A T W where
  script := fun y => if y = x then speak last turns else listen last turns
  pipe := fun _ => []
  status := fun _ => .running
  world := w
  confused := false

/-! ## The sequential machine -/

/-- `none` is the next action, `some e` something else that happens. -/
def seqStep (sem : Meaning A W E) (s : List (Bool × A) × W) : Option E → Option (List (Bool × A) × W)
  | none =>
    match s.1 with
    | [] => none
    | xa :: rest => ((sem.act xa.1 xa.2 s.2).join).map fun w => (rest, w)
  | some e => (sem.env e s.2).map fun w => (s.1, w)

/-! ## How the scripts fit together -/

/-- Where the two are, with the actions that are still to come; `c` exits first. -/
inductive Synced (last : List A) (c : Bool) (d : Duo A T W) : List (Bool × A) → Prop where
  | turn (x : Bool) (todo : List A) (t : T) (rest : List (Turn A T))
      (hx : d.script x = todo.map .act ++ .send t :: listen last rest)
      (hy : d.script (!x) = .recv t :: speak last rest) (hp : ∀ z, d.pipe z = [])
      (hc : closer (!x) rest = c) :
      Synced last c d (todo.map (x, ·) ++ order last (!x) rest)
  | passed (x : Bool) (t : T) (rest : List (Turn A T)) (hx : d.script x = listen last rest)
      (hy : d.script (!x) = .recv t :: speak last rest) (hpx : d.pipe x = [])
      (hpy : d.pipe (!x) = [t]) (hc : closer (!x) rest = c) :
      Synced last c d (order last (!x) rest)
  | final (todo : List A) (hx : d.script c = todo.map .act)
      (hy : d.script (!c) = [.join]) (hp : ∀ z, d.pipe z = []) :
      Synced last c d (todo.map (c, ·))
  | joined (hx : d.script c = []) (hy : d.script (!c) = [])
      (hp : ∀ z, d.pipe z = []) (hexit : d.status c = .exited true) : Synced last c d []

/-- A process that exits without an error is through its script. -/
structure InStep (last : List A) (c : Bool) (d : Duo A T W) (todo : List (Bool × A)) : Prop where
  synced : Synced last c d todo
  done : ∀ x, d.status x = .exited true → d.script x = []

section Steps

variable {last : List A} {d d' : Duo A T W} {todo : List (Bool × A)} {x c : Bool}

/-- Two scripts at the start of a turn. -/
theorem synced_turns (x : Bool) (turns : List (Turn A T))
    (hx : d.script x = speak last turns) (hy : d.script (!x) = listen last turns)
    (hp : ∀ z, d.pipe z = []) : Synced last (closer x turns) d (order last x turns) := by
  cases turns with
  | nil => exact .final last hx hy hp
  | cons turn rest => exact .turn x turn.1 turn.2 rest hx hy hp rfl

theorem inStep_begin (x : Bool) (last : List A) (turns : List (Turn A T)) (w : W) :
    InStep last (closer x turns) (begin x last turns w) (order last x turns) where
  synced := by
    refine synced_turns x turns (if_pos rfl) (if_neg ?_) fun _ => rfl
    cases x <;> decide
  done := by
    intro y hy
    cases hy

theorem Synced.status (h : Synced last c d todo) {status : Bool → Status}
    (hkeep : ∀ x, d.status x = .exited true → status x = .exited true) :
    Synced last c { d with status := status } todo := by
  cases h with
  | turn x as t rest hx hy hp hc => exact .turn x as t rest hx hy hp hc
  | passed x t rest hx hy hpx hpy hc => exact .passed x t rest hx hy hpx hpy hc
  | final as hx hy hp => exact .final as hx hy hp
  | joined hx hy hp hexit => exact .joined hx hy hp (hkeep c hexit)

theorem Synced.world (h : Synced last c d todo) (w : W) : Synced last c { d with world := w } todo := by
  cases h with
  | turn x as t rest hx hy hp hc => exact .turn x as t rest hx hy hp hc
  | passed x t rest hx hy hpx hpy hc => exact .passed x t rest hx hy hpx hpy hc
  | final as hx hy hp => exact .final as hx hy hp
  | joined hx hy hp hexit => exact .joined hx hy hp hexit

/-- A process that gives up changes nothing for the other. -/
theorem InStep.exits (h : InStep last c d todo) (hrun : d.status x = .running) {ok : Bool}
    (hok : ok = true → d.script x = []) : InStep last c (d.exits x ok) todo where
  synced := by
    refine h.synced.status fun y hy => ?_
    rw [update_of_ne _, hy]
    rintro rfl
    rw [hrun] at hy
    cases hy
  done := by
    intro y hy
    by_cases hyx : y = x
    · subst hyx
      change update d.status y (.exited ok) y = _ at hy
      rw [update_self] at hy
      cases hy
      exact hok rfl
    · change update d.status x (.exited ok) y = _ at hy
      rw [update_of_ne hyx] at hy
      exact h.done y hy

/-! ### What the next instruction says about the turn -/

/-- The instructions of the process that has to wait. -/
def Instr.waits : Instr A T → Bool
  | .recv _ => true
  | .join => true
  | _ => false

variable {rest : List (Instr A T)} {i : Instr A T} {t : T}

/-- Whoever listens waits. -/
theorem listen_waits {turns : List (Turn A T)} (h : listen last turns = i :: rest) :
    i.waits = true := by
  cases turns with
  | nil | cons =>
    cases h
    rfl

/-- The process that acts or sends is the one whose turn it is. -/
theorem Synced.busy (h : Synced last c d todo) (hs : d.script x = i :: rest)
    (hi : i.waits = false) :
    (∃ (as : List A) (t : T) (turns : List (Turn A T)),
      d.script x = as.map .act ++ .send t :: listen last turns
      ∧ d.script (!x) = .recv t :: speak last turns ∧ (∀ z, d.pipe z = [])
      ∧ closer (!x) turns = c ∧ todo = as.map (x, ·) ++ order last (!x) turns)
    ∨ ∃ as : List A, x = c ∧ d.script x = as.map .act ∧ d.script (!x) = [.join]
      ∧ (∀ z, d.pipe z = []) ∧ todo = as.map (x, ·) := by
  cases h with
  | turn z as t turns hz hy hp hc =>
    rcases Bool.eq_or_eq_not x z with rfl | rfl
    · exact .inl ⟨as, t, turns, hz, hy, hp, hc, rfl⟩
    · rw [hs] at hy
      cases hy
      cases hi
  | passed z t turns hz hy hpx hpy hc =>
    rcases Bool.eq_or_eq_not x z with rfl | rfl
    · rw [listen_waits (hz.symm.trans hs)] at hi
      cases hi
    · rw [hs] at hy
      cases hy
      cases hi
  | final as hz hy hp =>
    rcases Bool.eq_or_eq_not x c with rfl | rfl
    · exact .inr ⟨as, rfl, hz, hy, hp, rfl⟩
    · rw [hs] at hy
      cases hy
      cases hi
  | joined hz hy hp hexit =>
    rcases Bool.eq_or_eq_not x c with rfl | rfl
    · rw [hs] at hz
      cases hz
    · rw [hs] at hy
      cases hy

/-- An act is the next one of the order. -/
theorem Synced.act {a : A} (h : Synced last c d todo) (hs : d.script x = .act a :: rest) :
    ∃ todo', todo = (x, a) :: todo' ∧ Synced last c (d.goto x rest) todo' := by
  have hother : (d.goto x rest).script (!x) = d.script (!x) :=
    update_of_ne (by cases x <;> decide) _ _
  rcases h.busy hs rfl with ⟨as, t, turns, hx, hy, hp, hc, rfl⟩ | ⟨as, rfl, hx, hy, hp, rfl⟩
  · rw [hs] at hx
    cases as with
    | nil => cases hx
    | cons b as =>
      cases hx
      exact ⟨_, rfl, .turn x as t turns (update_self ..) (hother.trans hy) hp hc⟩
  · rw [hs] at hx
    cases as with
    | nil => cases hx
    | cons b as =>
      cases hx
      exact ⟨_, rfl, .final as (update_self ..) (hother.trans hy) hp⟩

theorem Synced.send (h : Synced last c d todo) (hs : d.script x = .send t :: rest) :
    Synced last c { d.goto x rest with pipe := update d.pipe (!x) (d.pipe (!x) ++ [t]) }
      todo := by
  have hne : x ≠ !x := by cases x <;> decide
  rcases h.busy hs rfl with ⟨as, u, turns, hx, hy, hp, hc, rfl⟩ | ⟨as, rfl, hx, hy, hp, rfl⟩
  · rw [hs] at hx
    cases as with
    | nil =>
      cases hx
      refine .passed x t turns (update_self ..) ?_ ?_ ?_ hc
      · exact (update_of_ne hne.symm _ _).trans hy
      · exact (update_of_ne hne _ _).trans (hp x)
      · show update d.pipe (!x) _ (!x) = _
        rw [update_self, hp]
        rfl
    | cons b as => cases hx
  · rw [hs] at hx
    cases as with
    | nil | cons => cases hx

/-- **NO UNEXPECTED TOKEN**: what is in the pipe is what its reader expects. -/
theorem Synced.recv (h : Synced last c d todo) (hs : d.script x = .recv t :: rest) :
    d.pipe x = [] ∨ d.pipe x = [t]
      ∧ Synced last c { d.goto x rest with pipe := update d.pipe x [] } todo := by
  cases h with
  | turn z as u turns hz hy hp hc | final as hz hy hp | joined hz hy hp => exact .inl (hp x)
  | passed z u turns hz hy hpx hpy hc =>
    rcases Bool.eq_or_eq_not x z with rfl | rfl
    · exact .inl hpx
    · right
      rw [hs] at hy
      cases hy
      rw [← hc]
      refine ⟨hpy, synced_turns (!z) turns (update_self ..) ?_ ?_⟩
      · rw [Bool.not_not]
        exact (update_of_ne (by cases z <;> decide) _ _).trans hz
      · intro y
        show update d.pipe (!z) [] y = []
        rcases Bool.eq_or_eq_not y z with rfl | rfl
        · rw [update_of_ne (by cases y <;> decide), hpx]
        · rw [update_self]

/-- The process that joins is the one that has had all tokens. -/
theorem InStep.join (h : InStep last c d todo) (hs : d.script x = .join :: rest)
    (hexit : d.status (!x) = .exited true) : Synced last c (d.goto x rest) todo := by
  have hempty := h.done (!x) hexit
  cases h.synced with
  | turn z as u turns hz hy | passed z u turns hz hy =>
    rcases Bool.eq_or_eq_not x z with rfl | rfl
    · rw [hempty] at hy
      cases hy
    · rw [hs] at hy
      cases hy
  | final as hz hy hp =>
    rcases Bool.eq_or_eq_not x c with rfl | rfl
    · rw [hempty] at hy
      cases hy
    · rw [hs] at hy
      cases hy
      rw [Bool.not_not] at hempty hexit
      rw [hempty] at hz
      cases as with
      | nil =>
        refine .joined ?_ (update_self ..) hp hexit
        exact (update_of_ne (by cases c <;> decide) _ _).trans hempty
      | cons b as => cases hz
  | joined hz hy hp hexit' =>
    rcases Bool.eq_or_eq_not x c with rfl | rfl
    · rw [hs] at hz
      cases hz
    · rw [hs] at hy
      cases hy

/-! ### One step -/

theorem InStep.goto (h : InStep last c d todo) {todo' : List (Bool × A)} {pipe : Bool → List T}
    (hrun : d.status x = .running) (hs : Synced last c { d.goto x rest with pipe := pipe } todo') :
    InStep last c { d.goto x rest with pipe := pipe } todo' where
  synced := hs
  done := by
    intro y hy
    have hyx : y ≠ x := by
      rintro rfl
      change d.status y = _ at hy
      rw [hrun] at hy
      cases hy
    exact (update_of_ne hyx _ _).trans (h.done y hy)

/-- A step of one process is one action of the sequential machine or none. -/
def Follows (sem : Meaning A W E) (last : List A) (c : Bool) (d : Duo A T W) (todo : List (Bool × A))
    (d' : Duo A T W) : Prop :=
  d'.confused = d.confused ∧ ∃ todo', InStep last c d' todo'
    ∧ ((todo', d'.world) = (todo, d.world)
      ∨ ∃ l, seqStep sem (todo, d.world) l = some (todo', d'.world))

theorem Follows.idle {sem : Meaning A W E} (hc : d'.confused = d.confused)
    (hw : d'.world = d.world) (h : InStep last c d' todo) : Follows sem last c d todo d' :=
  ⟨hc, todo, h, .inl (by rw [hw])⟩

variable [DecidableEq T] {sem : Meaning A W E}

theorem follows_instr (h : InStep last c d todo) (hrun : d.status x = .running)
    (hs : instrStep sem x d = some d') : Follows sem last c d todo d' := by
  have hfail : Follows sem last c d todo (d.exits x false) :=
    .idle rfl rfl (h.exits hrun fun hc => by cases hc)
  rw [instrStep] at hs
  split at hs
  · rename_i hscript
    cases hs
    exact .idle rfl rfl (h.exits hrun fun _ => hscript)
  · rename_i a rest hscript
    split at hs
    · cases hs
    · cases hs
      exact hfail
    · rename_i w hw
      cases hs
      obtain ⟨todo', rfl, hsync⟩ := h.synced.act hscript
      refine ⟨rfl, todo', ⟨hsync.world w, (h.goto hrun hsync).done⟩, .inr ⟨none, ?_⟩⟩
      rw [seqStep]
      dsimp only
      rw [hw]
      rfl
  · rename_i t rest hscript
    split at hs
    · cases hs
      exact .idle rfl rfl (h.goto hrun (h.synced.send hscript))
    · cases hs
      exact hfail
  · rename_i t rest hscript
    rcases h.synced.recv hscript with hp | ⟨hp, hsync⟩
    · rw [hp] at hs
      dsimp only at hs
      split at hs
      · cases hs
      · cases hs
        exact hfail
    · rw [hp] at hs
      dsimp only at hs
      rw [if_pos rfl] at hs
      cases hs
      exact .idle rfl rfl (h.goto hrun hsync)
  · rename_i rest hscript
    split at hs
    · cases hs
    · rename_i hexit
      cases hs
      exact .idle rfl rfl (h.goto hrun (h.join hscript hexit))
    · cases hs
      exact hfail

/-- Each step is the next act, or nothing. -/
theorem follows_step {l : Label E} (h : InStep last c d todo) (hs : duoStep sem d l = some d') :
    Follows sem last c d todo d' := by
  cases l with
  | next x =>
    rw [duoStep] at hs
    split at hs
    · rename_i hrun
      exact follows_instr h hrun hs
    · cases hs
  | fail x =>
    rw [duoStep] at hs
    split at hs
    · rename_i hrun
      cases hs
      exact .idle rfl rfl (h.exits hrun fun hc => by cases hc)
    · cases hs
  | env e =>
    rw [duoStep] at hs
    split at hs
    · obtain ⟨w, hw, rfl⟩ := Option.map_eq_some_iff.mp hs
      refine ⟨rfl, todo, ⟨h.synced.world w, h.done⟩, .inr ⟨some e, ?_⟩⟩
      rw [seqStep]
      dsimp only
      rw [hw]
      rfl
    · cases hs

/-! ### Runs -/

/-- **THE REFINEMENT**: every run of the pair is a run of the sequential machine on the world,
    and nobody reads a token it did not expect. -/
theorem simulates {ls : List (Label E)} (h : InStep last c d todo)
    (hrun : exec (duoStep sem) d ls = some d') :
    d'.confused = d.confused ∧ ∃ todo' sls, InStep last c d' todo'
      ∧ exec (seqStep sem) (todo, d.world) sls = some (todo', d'.world) := by
  induction ls generalizing d todo with
  | nil =>
    cases hrun
    exact ⟨rfl, todo, [], h, rfl⟩
  | cons l ls ih =>
    obtain ⟨d₁, hl, hrest⟩ := exec_cons hrun
    obtain ⟨hc, todo₁, h₁, hstep⟩ := follows_step h hl
    obtain ⟨hc', todo', sls, h', hexec⟩ := ih h₁ hrest
    refine ⟨hc'.trans hc, todo', ?_⟩
    rcases hstep with heq | ⟨sl, hsl⟩
    · rw [heq] at hexec
      exact ⟨sls, h', hexec⟩
    · refine ⟨sl :: sls, h', ?_⟩
      rw [exec, hsl]
      exact hexec

omit [DecidableEq T] in
/-- **THE END**: when either process exits without an error, all actions have been done; the
    one that joins does so only after the other. -/
theorem InStep.finished (h : InStep last c d todo) (hexit : d.status x = .exited true) :
    todo = [] ∧ d.status c = .exited true := by
  have hempty := h.done x hexit
  cases h.synced with
  | turn z as u turns hz hy hp hc =>
    rcases Bool.eq_or_eq_not x z with rfl | rfl
    · rw [hempty] at hz
      cases as <;> cases hz
    · rw [hempty] at hy
      cases hy
  | passed z u turns hz hy hpx hpy hc =>
    rcases Bool.eq_or_eq_not x z with rfl | rfl
    · rw [hempty] at hz
      cases turns <;> cases hz
    · rw [hempty] at hy
      cases hy
  | final as hz hy hp =>
    rcases Bool.eq_or_eq_not x c with rfl | rfl
    · rw [hempty] at hz
      cases as with
      | nil => exact ⟨rfl, hexit⟩
      | cons b as => cases hz
    · rw [hempty] at hy
      cases hy
  | joined hz hy hp hexit' => exact ⟨rfl, hexit'⟩

end Steps

end TurnTaking
