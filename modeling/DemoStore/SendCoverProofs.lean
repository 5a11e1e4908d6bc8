import DemoStore.SendGateProofs

/-! # What sending is for

    A chunk asks for items; a thread at work on it owes them until they have arrived.  A
    `Delivery` says when an item is good in a world, and what the steps of one chunk do to the
    items and to the chunks of the other threads.

    `Covered`: every item is good, or reserved by the caller, or asked for by a chunk that is
    waiting or under way.  Every step of the threads keeps it, as long as no thread has failed;
    when `send_memory` has returned `Ok`, only the reserved items are left. -/

namespace SendGate

open MachineRun ThreadPool List

variable {C J W L E K : Type}

/-- What chunks and the work on them mean for items. -/
structure Delivery (jobs : Jobs C J W L E) (K : Type) where
  asks : C → K → Prop
  owes : J → W → K → Prop
  /-- what is under way does no harm -/
  sound : J → W → Prop
  good : W → K → Prop
  start_owes : ∀ c w k, asks c k → owes (jobs.start c) w k
  start_sound : ∀ c w, sound (jobs.start c) w
  step_owes : ∀ l j w j' w' k, jobs.step l j w = some (j', w') → sound j w → owes j w k →
    owes j' w' k ∨ good w' k
  step_sound : ∀ l j w j' w', jobs.step l j w = some (j', w') → sound j w → sound j' w'
  step_good : ∀ l j w j' w' k, jobs.step l j w = some (j', w') → sound j w → good w k → good w' k
  finished_good : ∀ j w k, jobs.finished j = true → sound j w → owes j w k → good w k
  other_owes : ∀ l j w j' w' i k, jobs.step l j w = some (j', w') → owes i w k →
    owes i w' k ∨ good w' k
  other_sound : ∀ l j w j' w' i, jobs.step l j w = some (j', w') → sound i w → sound i w'
  env_owes : ∀ e w w' j k, jobs.env e w = some w' → owes j w k → owes j w' k ∨ good w' k
  env_sound : ∀ e w w' j, jobs.env e w = some w' → sound j w → sound j w'
  env_good : ∀ e w w' k, jobs.env e w = some w' → good w k → good w' k

variable {jobs : Jobs C J W L E}

/-- The chunks that the main thread has not handed over. -/
def Pc.rest : Pc C J → List C
  | .chunks rest _ => rest
  | _ => []

/-- The work under way, in the threads or in the main thread. -/
def State.UnderWay (s : State C J W) (j : J) : Prop :=
  (∃ c, .job c j ∈ s.workers) ∨ ∃ c, s.pc = .direct c j

/-- Somebody will see to the item. -/
def State.Seen (D : Delivery jobs K) (s : State C J W) (k : K) : Prop :=
  D.good s.world k ∨ (∃ c ∈ s.pc.rest, D.asks c k) ∨ (∃ c, .memory c ∈ s.queue ∧ D.asks c k)
    ∨ ∃ j, s.UnderWay j ∧ D.owes j s.world k

/-- The places of the main thread from which `send_memory` may still return `Ok`. -/
def Pc.hopeful : Pc C J → Bool
  | .idle => true
  | .chunks _ _ => true
  | .gates _ => true
  | .waiting _ => true
  | .direct _ _ => true
  | _ => false

/-- All that was asked for is in some job. -/
structure Covered (D : Delivery jobs K) (reserved : K → Prop) (s : State C J W) : Prop where
  sound : ∀ j, s.UnderWay j → D.sound j s.world
  seen : s.pc.hopeful = true → s.workerError = false → ∀ k, reserved k ∨ s.Seen D k

variable {D : Delivery jobs K} {reserved : K → Prop} {s s' : State C J W} {k : K}

/-! ## One thread moves -/

variable {i : Nat} {j j' : J} {c : C} {w : W} {q : Worker C J} {queue : List (Msg C)} {l : L}

theorem underWay_of_set (h : .job c j ∈ s.workers.set i q) : q = .job c j ∨ s.UnderWay j := by
  rcases mem_or_eq_of_mem_set h with h | h
  · exact .inr (.inl ⟨c, h⟩)
  · exact .inl h.symm

/-- The work of the other threads stays where it is. -/
theorem underWay_set {w : Worker C J} (hw : s.workers[i]? = some w) (h : s.UnderWay j)
    (q : Worker C J) :
    (∃ c, w = .job c j) ∨ (∃ c, .job c j ∈ s.workers.set i q) ∨ ∃ c, s.pc = .direct c j := by
  rcases h with ⟨c, hc⟩ | h
  · obtain ⟨n, hn⟩ := getElem?_of_mem hc
    by_cases hin : i = n
    · subst hin
      rw [hw] at hn
      cases hn
      exact .inl ⟨c, rfl⟩
    · refine .inr (.inl ⟨c, mem_of_getElem? (i := n) ?_⟩)
      rw [getElem?_set_ne hin]
      exact hn
  · exact .inr (.inr h)

/-- A thread that does not end its work on a chunk, in a world that stays. -/
theorem Covered.setWorker (h : Covered D reserved s) {w : Worker C J}
    (hw : s.workers[i]? = some w) (hold : w.chunkOf = none) (hnew : q.chunkOf = none)
    (hqueue : ∀ c, .memory c ∈ s.queue → .memory c ∈ queue) (hs : s'.workers = s.workers.set i q)
    (hpc : s'.pc = s.pc) (hworld : s'.world = s.world) (hq : s'.queue = queue)
    (herror : s'.workerError = s.workerError) : Covered D reserved s' := by
  constructor
  · rintro j (⟨c, hc⟩ | ⟨c, hc⟩)
    · rw [hs] at hc
      rw [hworld]
      rcases underWay_of_set hc with rfl | hj
      · cases hnew
      · exact h.sound j hj
    · rw [hworld]
      exact h.sound j (.inr ⟨c, hpc ▸ hc⟩)
  · intro hhope hok k
    rw [hpc] at hhope
    rw [herror] at hok
    refine (h.seen hhope hok k).imp_right ?_
    rintro (hgood | hrest | ⟨c, hc, hasks⟩ | ⟨j, hj, howes⟩)
    · exact .inl (hworld ▸ hgood)
    · exact .inr (.inl (hpc ▸ hrest))
    · exact .inr (.inr (.inl ⟨c, hq ▸ hqueue c hc, hasks⟩))
    · refine .inr (.inr (.inr ⟨j, ?_, hworld ▸ howes⟩))
      rcases underWay_set hw hj q with ⟨c, rfl⟩ | hset | hdirect
      · cases hold
      · exact .inl (hs ▸ hset)
      · exact .inr (hpc ▸ hdirect)

/-- The job of one thread takes a step. -/
theorem Covered.work (h : Covered D reserved s) (hw : s.workers[i]? = some (.job c j))
    (hj : jobs.step l j s.world = some (j', w)) :
    Covered D reserved { s with workers := s.workers.set i (.job c j'), world := w } := by
  have hsound : D.sound j s.world := h.sound j (.inl ⟨c, mem_of_getElem? hw⟩)
  constructor
  · rintro j₁ (⟨c₁, hc⟩ | hdirect)
    · rcases underWay_of_set hc with hq | hj₁
      · cases hq
        exact D.step_sound _ _ _ _ _ hj hsound
      · exact D.other_sound _ _ _ _ _ _ hj (h.sound j₁ hj₁)
    · exact D.other_sound _ _ _ _ _ _ hj (h.sound j₁ (.inr hdirect))
  · intro hhope hok k
    refine (h.seen hhope hok k).imp_right ?_
    -- where `k` is: at its place, still to be queued, in the queue or in a job
    rintro (hgood | hrest | hqueue | ⟨j₁, hj₁, howes⟩)
    · exact .inl (D.step_good _ _ _ _ _ _ hj hsound hgood)
    · exact .inr (.inl hrest)
    · exact .inr (.inr (.inl hqueue))
    · rcases underWay_set hw hj₁ (.job c j') with ⟨c₁, hown⟩ | hother
      · cases hown
        rcases D.step_owes _ _ _ _ _ _ hj hsound howes with howes' | hgood
        · refine .inr (.inr (.inr ⟨j', .inl ⟨c, ?_⟩, howes'⟩))
          exact mem_set (List.getElem?_eq_some_iff.mp hw).1 _
        · exact .inl hgood
      · rcases D.other_owes _ _ _ _ _ _ _ hj howes with howes' | hgood
        · exact .inr (.inr (.inr ⟨j₁, hother, howes'⟩))
        · exact .inl hgood

/-- A thread takes a chunk. -/
theorem Covered.memory (h : Covered D reserved s) (hw : s.workers[i]? = some .idle)
    (hq : s.queue = .memory c :: queue) :
    Covered D reserved
      { s with queue := queue, workers := s.workers.set i (.job c (jobs.start c)) } := by
  constructor
  · rintro j (⟨c₁, hc⟩ | hdirect)
    · rcases underWay_of_set hc with hq | hj
      · cases hq
        exact D.start_sound c s.world
      · exact h.sound j hj
    · exact h.sound j (.inr hdirect)
  · intro hhope hok k
    refine (h.seen hhope hok k).imp_right ?_
    rintro (hgood | hrest | ⟨c₁, hc₁, hasks⟩ | ⟨j, hj, howes⟩)
    · exact .inl hgood
    · exact .inr (.inl hrest)
    · rw [hq] at hc₁
      rcases mem_cons.mp hc₁ with hhead | htail
      · cases hhead
        refine .inr (.inr (.inr ⟨jobs.start c, .inl ⟨c, ?_⟩, D.start_owes _ _ _ hasks⟩))
        exact mem_set (List.getElem?_eq_some_iff.mp hw).1 _
      · exact .inr (.inr (.inl ⟨c₁, htail, hasks⟩))
    · refine .inr (.inr (.inr ⟨j, ?_, howes⟩))
      rcases underWay_set hw hj (.job c (jobs.start c)) with ⟨c₁, hown⟩ | hother
      · cases hown
      · exact hother

/-- A chunk is acknowledged. -/
theorem Covered.finish (h : Covered D reserved s) (hw : s.workers[i]? = some (.job c j))
    (hj : jobs.finished j = true) :
    Covered D reserved { s with workers := s.workers.set i .idle, acked := s.acked ++ [c] } := by
  constructor
  · rintro j₁ (⟨c₁, hc⟩ | hdirect)
    · rcases underWay_of_set hc with hq | hj₁
      · cases hq
      · exact h.sound j₁ hj₁
    · exact h.sound j₁ (.inr hdirect)
  · intro hhope hok k
    refine (h.seen hhope hok k).imp_right ?_
    rintro (hgood | hrest | hqueue | ⟨j₁, hj₁, howes⟩)
    · exact .inl hgood
    · exact .inr (.inl hrest)
    · exact .inr (.inr (.inl hqueue))
    · rcases underWay_set hw hj₁ .idle with ⟨c₁, hown⟩ | hother
      · cases hown
        exact .inl (D.finished_good _ _ _ hj (h.sound j hj₁) howes)
      · exact .inr (.inr (.inr ⟨j₁, hother, howes⟩))

theorem Covered.env (h : Covered D reserved s) {e : E} (he : jobs.env e s.world = some w) :
    Covered D reserved { s with world := w } := by
  constructor
  · intro j hj
    exact D.env_sound _ _ _ _ he (h.sound j hj)
  · intro hhope hok k
    refine (h.seen hhope hok k).imp_right ?_
    rintro (hgood | hrest | hqueue | ⟨j, hj, howes⟩)
    · exact .inl (D.env_good _ _ _ _ he hgood)
    · exact .inr (.inl hrest)
    · exact .inr (.inr (.inl hqueue))
    · rcases D.env_owes _ _ _ _ _ he howes with howes' | hgood
      · exact .inr (.inr (.inr ⟨j, hj, howes'⟩))
      · exact .inl hgood

theorem WorkerMove.covered (m : WorkerMove jobs s s') (h : Covered D reserved s) :
    Covered D reserved s' := by
  have htail : ∀ {x : Msg C} {queue : List (Msg C)}, s.queue = x :: queue → x.isMemory = false →
      ∀ c, .memory c ∈ s.queue → .memory c ∈ queue := by
    intro x queue hq hx c hc
    rw [hq] at hc
    rcases mem_cons.mp hc with rfl | hc
    · cases hx
    · exact hc
  cases m with
  | memory hw hq => exact h.memory hw hq
  | gate hw hq | disconnect hw hq => exact h.setWorker hw rfl rfl (htail hq rfl) rfl rfl rfl rfl rfl
  | work hw l hj => exact h.work hw hj
  | finish hw hj => exact h.finish hw hj
  | fail hw =>
    constructor
    · rintro j (⟨c, hc⟩ | hdirect)
      · rcases underWay_of_set hc with hq | hj
        · cases hq
        · exact h.sound j hj
      · exact h.sound j (.inr hdirect)
    · intro _ hok
      cases hok
  | notify hw | leave hw | pass hw =>
    exact h.setWorker hw rfl rfl (fun _ hc => hc) rfl rfl rfl rfl rfl
  | env e he => exact h.env he

/-! ## The main thread moves -/

/-- A step of the main thread that leaves the threads and the world alone. -/
theorem Covered.main (h : Covered D reserved s) (hworkers : s'.workers = s.workers)
    (hworld : s'.world = s.world) (hdirect : ∀ c j, s'.pc ≠ .direct c j)
    (hseen : s'.pc.hopeful = true → s.pc.hopeful = true ∧ s'.workerError = s.workerError
      ∧ (∀ c j, s.pc ≠ .direct c j)
      ∧ (∀ c, .memory c ∈ s.queue → .memory c ∈ s'.queue)
      ∧ ∀ c ∈ s.pc.rest, c ∈ s'.pc.rest ∨ .memory c ∈ s'.queue) :
    Covered D reserved s' := by
  constructor
  · rintro j (⟨c, hc⟩ | ⟨c, hc⟩)
    · rw [hworld]
      exact h.sound j (.inl ⟨c, hworkers ▸ hc⟩)
    · exact absurd hc (hdirect c j)
  · intro hhope hok k
    obtain ⟨hhope', herror, hnot, hqueue, hrest⟩ := hseen hhope
    rw [herror] at hok
    refine (h.seen hhope' hok k).imp_right ?_
    rintro (hgood | ⟨c, hc, hasks⟩ | ⟨c, hc, hasks⟩ | ⟨j, ⟨c, hc⟩ | ⟨c, hc⟩, howes⟩)
    · exact .inl (hworld ▸ hgood)
    · rcases hrest c hc with hc | hc
      · exact .inr (.inl ⟨c, hc, hasks⟩)
      · exact .inr (.inr (.inl ⟨c, hc, hasks⟩))
    · exact .inr (.inr (.inl ⟨c, hqueue c hc, hasks⟩))
    · exact .inr (.inr (.inr ⟨j, .inl ⟨c, hworkers ▸ hc⟩, hworld ▸ howes⟩))
    · exact absurd hc (hnot c j)

/-- A place from which `send_memory` does not return `Ok`. -/
theorem Covered.lose (h : Covered D reserved s) (hworkers : s'.workers = s.workers)
    (hworld : s'.world = s.world) (hpc : s'.pc.hopeful = false) : Covered D reserved s' := by
  refine h.main hworkers hworld ?_ ?_
  · intro c j hdirect
    rw [hdirect] at hpc
    cases hpc
  · intro hhope
    rw [hpc] at hhope
    cases hhope

theorem afterJoin_hopeful {why : Why C} {err : Bool}
    (h : (afterJoin why err : Pc C J).hopeful = true) :
    why.needsError = true ∧ err = false := by
  cases err with
  | true => cases why <;> cases h
  | false =>
    cases why with
    | chunk rest | gate => exact ⟨rfl, rfl⟩
    | broken | final => cases h

/-- The main thread sends the table itself. -/
theorem Covered.direct (h : Covered D reserved s) (hpc : s.pc = .direct c j)
    (hj : jobs.step l j s.world = some (j', w)) :
    Covered D reserved { s with pc := .direct c j', world := w } := by
  have hsound : D.sound j s.world := h.sound j (.inr ⟨c, hpc⟩)
  constructor
  · rintro j₁ (hworker | ⟨c₁, hc⟩)
    · exact D.other_sound _ _ _ _ _ _ hj (h.sound j₁ (.inl hworker))
    · cases hc
      exact D.step_sound _ _ _ _ _ hj hsound
  · intro _ hok k
    refine (h.seen (by rw [hpc]; rfl) hok k).imp_right ?_
    rintro (hgood | ⟨c₁, hc₁, hasks⟩ | hqueue | ⟨j₁, hworker | ⟨c₁, hc⟩, howes⟩)
    · exact .inl (D.step_good _ _ _ _ _ _ hj hsound hgood)
    · rw [hpc] at hc₁
      cases hc₁
    · exact .inr (.inr (.inl hqueue))
    · rcases D.other_owes _ _ _ _ _ _ _ hj howes with howes' | hgood
      · exact .inr (.inr (.inr ⟨j₁, .inl hworker, howes'⟩))
      · exact .inl hgood
    · rw [hpc] at hc
      cases hc
      rcases D.step_owes _ _ _ _ _ _ hj hsound howes with howes' | hgood
      · exact .inr (.inr (.inr ⟨j', .inr ⟨c, rfl⟩, howes'⟩))
      · exact .inl hgood

theorem Covered.directFinish (h : Covered D reserved s) (hpc : s.pc = .direct c j)
    (hj : jobs.finished j = true) :
    Covered D reserved { s with pc := .idle, acked := s.acked ++ [c] } := by
  constructor
  · rintro j₁ (hworker | ⟨c₁, hc⟩)
    · exact h.sound j₁ (.inl hworker)
    · cases hc
  · intro _ hok k
    refine (h.seen (by rw [hpc]; rfl) hok k).imp_right ?_
    rintro (hgood | ⟨c₁, hc₁, hasks⟩ | hqueue | ⟨j₁, hworker | ⟨c₁, hc⟩, howes⟩)
    · exact .inl hgood
    · rw [hpc] at hc₁
      cases hc₁
    · exact .inr (.inr (.inl hqueue))
    · exact .inr (.inr (.inr ⟨j₁, .inl hworker, howes⟩))
    · rw [hpc] at hc
      cases hc
      exact .inl (D.finished_good _ _ _ hj (h.sound j (.inr ⟨c, hpc⟩)) howes)

/-- The caller hands over what it has reserved. -/
theorem CallMove.covered {whole : C} {chunks : List C} (m : CallMove jobs whole chunks s s')
    (h : Covered D reserved s) (hwhole : ∀ k, reserved k → D.asks whole k)
    (hchunks : ∀ k, reserved k → ∃ c ∈ chunks, D.asks c k) :
    Covered D (fun _ => False) s' := by
  cases m with
  | direct hpc hn =>
    constructor
    · rintro j (hworker | ⟨c, hc⟩)
      · exact h.sound j (.inl hworker)
      · cases hc
        exact D.start_sound _ _
    · intro _ hok k
      right
      rcases h.seen (by rw [hpc]; rfl) hok k with hres | hgood | ⟨c, hc, -⟩ | hqueue
          | ⟨j, hworker | ⟨c, hc⟩, howes⟩
      · exact .inr (.inr (.inr ⟨_, .inr ⟨whole, rfl⟩, D.start_owes _ _ _ (hwhole k hres)⟩))
      · exact .inl hgood
      · rw [hpc] at hc
        cases hc
      · exact .inr (.inr (.inl hqueue))
      · exact .inr (.inr (.inr ⟨j, .inl hworker, howes⟩))
      · rw [hpc] at hc
        cases hc
  | chunks hpc hn =>
    constructor
    · rintro j (hworker | ⟨c, hc⟩)
      · exact h.sound j (.inl hworker)
      · cases hc
    · intro _ hok k
      right
      rcases h.seen (by rw [hpc]; rfl) hok k with hres | hgood | ⟨c, hc, -⟩ | hqueue
          | ⟨j, hworker | ⟨c, hc⟩, howes⟩
      · exact .inr (.inl (hchunks k hres))
      · exact .inl hgood
      · rw [hpc] at hc
        cases hc
      · exact .inr (.inr (.inl hqueue))
      · exact .inr (.inr (.inr ⟨j, .inl hworker, howes⟩))
      · rw [hpc] at hc
        cases hc

/-- The world changes by a step of one chunk, or on its own. -/
theorem world_of_step {l : Label C L E} (hs : step jobs s l = some s') :
    s'.world = s.world ∨ (∃ l j j', jobs.step l j s.world = some (j', s'.world))
      ∨ ∃ e, jobs.env e s.world = some s'.world := by
  rcases step_cases hs with m | m | ⟨whole, chunks, -, m⟩
  · cases m with
    | work hw l hj => exact .inr (.inl ⟨l, _, _, hj⟩)
    | env e he => exact .inr (.inr ⟨e, he⟩)
    | _ => exact .inl rfl
  · cases m with
    | directWork hpc l hj => exact .inr (.inl ⟨l, _, _, hj⟩)
    | _ => exact .inl rfl
  · cases m with
    | _ => exact .inl rfl

variable [DecidableEq C]

theorem MainMove.covered (m : MainMove jobs s s') (hsafe : Safe s) (h : Covered D reserved s) :
    Covered D reserved s' := by
  cases m with
  | newGate hpc | check hpc | retry hpc | gatesSent hpc | lastReport hpc | report hpc =>
    refine h.main rfl rfl (fun c j hc => by cases hc) fun _ => ?_
    rw [hpc]
    exact ⟨rfl, rfl, (fun c j hc => by cases hc), fun c hc => hc, fun c hc => .inl hc⟩
  | seeError hpc herror | noReceiver hpc hall | gateRefused hpc hall => exact h.lose rfl rfl rfl
  | pushChunk hpc =>
    refine h.main rfl rfl (fun c j hc => by cases hc) fun _ => ?_
    rw [hpc]
    refine ⟨rfl, rfl, (fun c j hc => by cases hc), fun c hc => mem_append_left _ hc, ?_⟩
    intro c hc
    rcases mem_cons.mp hc with rfl | hc
    · exact .inr (mem_append_right _ mem_cons_self)
    · exact .inl hc
  | pushGate hpc =>
    refine h.main rfl rfl (fun c j hc => by cases hc) fun _ => ?_
    rw [hpc]
    exact ⟨rfl, rfl, (fun c j hc => by cases hc), fun c hc => mem_append_left _ hc,
      fun c hc => .inl hc⟩
  | errorReport | noSender | allDisconnected | disconnectRefused | pushDisconnect
  | dropDisconnect | join | close | abort | directFail hpc => exact h.lose rfl rfl rfl
  | joined hpc hi =>
    rename_i why i err
    refine h.lose rfl rfl (Bool.eq_false_iff.mpr fun hhope => ?_)
    obtain ⟨hwhy, herr⟩ := afterJoin_hopeful hhope
    rw [hsafe.joined hpc hwhy hi] at herr
    cases herr
  | directWork hpc l hj => exact h.direct hpc hj
  | directFinish hpc hj => exact h.directFinish hpc hj

/-- **WHEN `send_memory` HAS RETURNED `Ok`**, all items are good but those that the caller has
    reserved since. -/
theorem Covered.good_of_idle (h : Covered D reserved s) (hsafe : Safe s) (hpc : s.pc = .idle) (k : K) :
    reserved k ∨ D.good s.world k := by
  have hphase := hsafe.phase
  rw [Phase, hpc] at hphase
  obtain ⟨-, hqueue, -, hrest, -⟩ := hphase
  refine (h.seen (by rw [hpc]; rfl) (hsafe.no_error hrest) k).imp_right ?_
  rintro (hgood | ⟨c, hc, -⟩ | ⟨c, hc, -⟩ | ⟨j, ⟨c, hc⟩ | ⟨c, hc⟩, -⟩)
  · exact hgood
  · rw [hpc] at hc
    cases hc
  · rw [hqueue] at hc
    cases hc
  · cases hrest _ hc
  · rw [hpc] at hc
    cases hc

/-- A caller that has everything under control while nothing is sent. -/
theorem Covered.of_idle (hsafe : Safe s) (hpc : s.pc = .idle)
    (h : ∀ k, reserved k ∨ D.good s.world k) : Covered D reserved s := by
  have hphase := hsafe.phase
  rw [Phase, hpc] at hphase
  obtain ⟨-, -, -, hrest, -⟩ := hphase
  refine ⟨?_, fun _ _ k => (h k).imp_right .inl⟩
  rintro j (⟨c, hc⟩ | ⟨c, hc⟩)
  · cases hrest _ hc
  · rw [hpc] at hc
    cases hc

end SendGate
