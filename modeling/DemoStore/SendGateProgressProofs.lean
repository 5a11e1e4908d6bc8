import DemoStore.SendGateProofs

/-! # Joining the sending threads

    When the main thread of `SendAdditionalConnections` waits, there is somebody who can go on:
    a thread at work on a chunk, a thread with a message to take, a report to send or an open
    gate to pass, or the main thread itself.  The argument follows the messages: behind the
    gate messages nothing is queued, every thread that has ended has reported its error, and
    `cleanup` accounts for one `Disconnect` for each thread.

    `cleanup` sends with `try_send` and ignores the answer, so a `Disconnect` is lost when the
    channel is full.  This is the one way to wait for ever (`blocked_only_by_dropped`), and there
    are runs that go it (`hung_reachable`). -/

namespace SendGate

open MachineRun ThreadPool List

variable {C J W L E : Type} {jobs : Jobs C J W L E} {s s' : State C J W} {k seen : Nat}

/-! ## Threads that end -/

/-- The thread has ended because of a `Disconnect`. -/
def Worker.quitOf : Worker C J → Option Unit
  | .left true => some ()
  | _ => none

/-- The thread has reported its error. -/
def Worker.noted : Worker C J → Bool
  | .failing noted => noted
  | .left ok => !ok
  | _ => false

/-- Before `cleanup`: a thread ends only because of an error, and its report is still there. -/
structure Unquiet (s : State C J W) : Prop where
  noQuit : holders Worker.quitOf s.workers () = 0
  reported : s.workers.any Worker.noted = true → .error ∈ s.notes
  sent : s.dropped = 0

theorem WorkerMove.allLeft (m : WorkerMove jobs s s') (h : s.allLeft = true) :
    s'.allLeft = true := by
  have hgone : ∀ {i : Nat} {w : Worker C J}, w.hasLeft = false → s.workers[i]? ≠ some w := by
    intro i w hstay hw
    rw [List.all_eq_true.mp h w (mem_of_getElem? hw)] at hstay
    cases hstay
  cases m with
  | env e he => exact h
  | memory hw | gate hw | disconnect hw | work hw | finish hw | fail hw | notify hw | leave hw
  | pass hw => exact absurd hw (hgone rfl)

theorem WorkerMove.dropped (m : WorkerMove jobs s s') : s'.dropped = s.dropped := by
  cases m with
  | _ => rfl

/-- A worker that ends has reported. -/
theorem WorkerMove.unquiet (m : WorkerMove jobs s s') (hd : .disconnect ∉ s.queue)
    (h : Unquiet s) : Unquiet s' := by
  have hquit : ∀ {i : Nat} {w q : Worker C J}, s.workers[i]? = some w → q.quitOf = w.quitOf →
      holders Worker.quitOf (s.workers.set i q) () = 0 := by
    intro i w q hw hq
    rw [holders_set_same hw hq]
    exact h.noQuit
  have hnoted : ∀ {i : Nat} {w q : Worker C J}, s.workers[i]? = some w → q.noted = w.noted →
      (s.workers.set i q).any Worker.noted = true → .error ∈ s.notes := by
    intro i w q hw hq hany
    rw [any_set hw hq] at hany
    exact h.reported hany
  cases m with
  | memory hw hq | work hw | finish hw | fail hw | leave hw | pass hw =>
    exact ⟨hquit hw rfl, hnoted hw rfl, h.sent⟩
  | gate hw hq =>
    refine ⟨hquit hw rfl, fun hany => mem_append_left _ ?_, h.sent⟩
    exact hnoted (q := .atGate _) hw rfl hany
  | disconnect hw hq => exact absurd (hq ▸ mem_cons_self) hd
  | notify hw =>
    exact ⟨hquit hw rfl, fun _ => mem_append_right _ mem_cons_self, h.sent⟩
  | env e he => exact ⟨h.noQuit, h.reported, h.sent⟩

theorem Unquiet.goto (h : Unquiet s) (pc : Pc C J) : Unquiet { s with pc := pc } :=
  ⟨h.noQuit, h.reported, h.sent⟩

theorem no_quit_of_resting (h : ∀ w ∈ s.workers, w.resting = true) :
    holders Worker.quitOf s.workers () = 0 := by
  rw [holders_eq_zero]
  intro w hw hq
  have hrest := h w hw
  cases w with
  | left ok => cases hrest
  | _ => cases hq

variable {i : Nat} {l : Label C L E}

/-- Joining is done. -/
theorem allLeft_of_joined (hn : s.threads = s.workers.length) (hi : s.threads ≤ i)
    (h : ∀ j < i, ∃ ok, s.workers[j]? = some (.left ok)) : s.allLeft = true := by
  refine List.all_eq_true.mpr fun w hw => ?_
  obtain ⟨j, hj⟩ := getElem?_of_mem hw
  have hlt := (List.getElem?_eq_some_iff.mp hj).1
  obtain ⟨ok, hok⟩ := h j (by omega)
  rw [hok] at hj
  cases hj
  rfl

/-! ## When somebody can go on -/

theorem threads_le_step (h : s.threads ≤ s.workers.length) (hs : step jobs s l = some s') :
    s'.threads ≤ s'.workers.length := by
  rcases step_cases hs with m | m | ⟨whole, chunks, -, m⟩
  · obtain ⟨-, hthreads, -, -, hlength, -⟩ := m.frame
    rw [hthreads, hlength]
    exact h
  · cases m with
    | joined hpc hi => exact Nat.zero_le _
    | _ => exact h
  · cases m with
    | _ => exact h

/-- The steps of the main thread and of the threads that wait for nobody outside. -/
def Label.own : Label C L E → Bool
  | .main => true
  | .take _ => true
  | .notify _ => true
  | .leave _ => true
  | .pass _ => true
  | _ => false

/-- In `send_memory` with several connections, or in `cleanup`. -/
def Pc.inside : Pc C J → Bool
  | .chunks _ _ => true
  | .gates _ => true
  | .waiting _ => true
  | .cleanup _ _ => true
  | .joining _ _ _ => true
  | _ => false

/-- A chunk is being sent, or one of the threads can go on. -/
def GoesOn (jobs : Jobs C J W L E) (s : State C J W) : Prop :=
  (∃ w ∈ s.workers, w.chunkOf ≠ none) ∨ ∃ l, l.own = true ∧ (step jobs s l).isSome

/-- A worker with work can go on. -/
theorem goesOn_of_worker {w : Worker C J} (hw : s.workers[i]? = some w)
    (hleft : w.hasLeft = false) (hidle : w = .idle → s.queue ≠ [])
    (hgate : ∀ g, w = .atGate g → s.isOpen g = true) : GoesOn jobs s := by
  cases w with
  | idle =>
    refine .inr ⟨.take i, rfl, ?_⟩
    rw [step, takeMsg, hw]
    cases hq : s.queue with
    | nil => exact absurd hq (hidle rfl)
    | cons m queue => cases m <;> rfl
  | job c j => exact .inl ⟨_, mem_of_getElem? hw, Option.some_ne_none c⟩
  | atGate g =>
    refine .inr ⟨.pass i, rfl, ?_⟩
    rw [step, hw]
    simp only
    rw [if_pos (hgate g rfl)]
    rfl
  | failing noted =>
    cases noted with
    | false =>
      refine .inr ⟨.notify i, rfl, ?_⟩
      rw [step, hw]
      rfl
    | true =>
      refine .inr ⟨.leave i, rfl, ?_⟩
      rw [step, hw]
      rfl
  | left ok => cases hleft

theorem goesOn_of_main (h : (mainStep s).isSome) : GoesOn jobs s := .inr ⟨.main, rfl, h⟩

/-- Chunks can always be sent. -/
theorem goesOn_chunks {rest : List C} {checked : Bool} (hpc : s.pc = .chunks rest checked) :
    GoesOn jobs s := by
  apply goesOn_of_main
  rw [mainStep, hpc]
  cases rest with
  | nil => rfl
  | cons c rest =>
    cases checked with
    | false => cases s.workerError <;> rfl
    | true =>
      simp only
      split_ifs <;> rfl

theorem exists_not_left (h : ¬ s.allLeft = true) :
    ∃ (i : Nat) (w : Worker C J), s.workers[i]? = some w ∧ w.hasLeft = false := by
  rw [State.allLeft, List.all_eq_true] at h
  push Not at h
  obtain ⟨w, hw, hleft⟩ := h
  obtain ⟨i, hi⟩ := getElem?_of_mem hw
  exact ⟨i, w, hi, Bool.eq_false_iff.mpr hleft⟩

/-! ## The messages of `cleanup` -/

section Count

variable [DecidableEq C] {rest : List C} {checked : Bool}

/-- In `cleanup`: one `Disconnect` for each thread, wherever it is. -/
structure Ending (s : State C J W) (k : Nat) : Prop where
  threads : s.threads = s.workers.length
  opened : s.isOpen s.gateNo = true
  count : s.queue.count .disconnect + holders Worker.quitOf s.workers () + k + s.dropped
    = s.workers.length

theorem Ending.goto (h : Ending s k) (pc : Pc C J) : Ending { s with pc := pc } k :=
  ⟨h.threads, h.opened, h.count⟩

/-- What the main thread counts on at each point. -/
def Tidy (s : State C J W) : Prop :=
  match s.pc with
  | .idle => s.dropped = 0
  | .chunks _ _ => 0 < s.threads ∧ Unquiet s
  | .gates _ => 0 < s.threads ∧ Unquiet s
  | .waiting seen => seen < s.threads ∧ Unquiet s
  | .cleanup _ k => s.allLeft = true ∨ Ending s k
  | .joining _ i _ => s.allLeft = true
      ∨ Ending s 0 ∧ ∀ j < i, ∃ ok, s.workers[j]? = some (.left ok)
  | .direct _ _ => s.allLeft = true ∧ s.dropped = 0
  | .failed => s.allLeft = true
  | .closed => s.allLeft = true

/-- Before the end nobody is told to leave. -/
theorem no_disconnect (h : Phase s)
    (hpc : (∃ rest checked, s.pc = .chunks rest checked) ∨ (∃ k, s.pc = .gates k)
      ∨ ∃ seen, s.pc = .waiting seen) : .disconnect ∉ s.queue := by
  have harrive : ∀ {k seen : Nat}, Arriving s k seen → .disconnect ∉ s.queue := by
    intro k seen h hd
    obtain ⟨ms, q, hqueue, hms, -⟩ := h.shape
    rw [hqueue] at hd
    rcases mem_append.mp hd with hd | hd
    · cases hms _ hd
    · cases eq_of_mem_replicate hd
  rw [Phase] at h
  rcases hpc with ⟨rest, checked, hpc⟩ | ⟨k, hpc⟩ | ⟨seen, hpc⟩
  · rw [hpc] at h
    intro hd
    cases h.2.1.shape _ hd
  · rw [hpc] at h
    exact harrive h.2.1
  · rw [hpc] at h
    exact harrive h.2.1

theorem WorkerMove.ending (m : WorkerMove jobs s s') (h : Ending s k) : Ending s' k := by
  have hcount := h.count
  have hquit : ∀ {i : Nat} {w q : Worker C J}, s.workers[i]? = some w → q.quitOf = w.quitOf →
      s.queue.count .disconnect + holders Worker.quitOf (s.workers.set i q) () + k + s.dropped
        = (s.workers.set i q).length := by
    intro i w q hw hq
    rw [holders_set_same hw hq, length_set]
    exact hcount
  have hthreads : s'.threads = s'.workers.length := by
    rw [m.frame.2.1, m.frame.2.2.2.2.1]
    exact h.threads
  cases m with
  | memory hw hq =>
    rename_i i c queue
    refine ⟨hthreads, h.opened, ?_⟩
    have hsum := hquit (q := .job c (jobs.start c)) hw rfl
    rw [hq, count_cons_of_ne (by simp)] at hsum
    exact hsum
  | gate hw hq =>
    rename_i i g queue
    refine ⟨hthreads, h.opened, ?_⟩
    have hsum := hquit (q := .atGate g) hw rfl
    rw [hq, count_cons_of_ne (by simp)] at hsum
    exact hsum
  | disconnect hw hq =>
    rename_i i queue
    refine ⟨hthreads, h.opened, ?_⟩
    show queue.count .disconnect + holders Worker.quitOf (s.workers.set i (.left true)) () + k
      + s.dropped = (s.workers.set i (.left true)).length
    rw [hq, count_cons_self] at hcount
    rw [holders_set_take (f := Worker.quitOf) (k := ()) hw rfl rfl, Function.update_self,
      length_set]
    omega
  | work hw | finish hw | fail hw | notify hw | leave hw | pass hw =>
    exact ⟨hthreads, h.opened, hquit hw rfl⟩
  | env e he => exact ⟨hthreads, h.opened, hcount⟩

/-- Workers keep the pool tidy. -/
theorem WorkerMove.tidy (m : WorkerMove jobs s s') (hsafe : Phase s) (h : Tidy s) : Tidy s' := by
  rw [Tidy] at h ⊢
  rw [m.frame.1, m.frame.2.1]
  cases hp : s.pc with
  | idle =>
    rw [hp] at h
    exact m.dropped.trans h
  | chunks rest checked =>
    rw [hp] at h
    exact ⟨h.1, m.unquiet (no_disconnect hsafe (.inl ⟨rest, checked, hp⟩)) h.2⟩
  | gates k =>
    rw [hp] at h
    exact ⟨h.1, m.unquiet (no_disconnect hsafe (.inr (.inl ⟨k, hp⟩))) h.2⟩
  | waiting seen =>
    rw [hp] at h
    exact ⟨h.1, m.unquiet (no_disconnect hsafe (.inr (.inr ⟨seen, hp⟩))) h.2⟩
  | cleanup why k =>
    rw [hp] at h
    exact h.imp m.allLeft m.ending
  | joining why i err =>
    rw [hp] at h
    refine h.imp m.allLeft fun hjoin => ⟨m.ending hjoin.1, fun j hj => ?_⟩
    obtain ⟨ok, hok⟩ := hjoin.2 j hj
    exact ⟨ok, m.left hok⟩
  | direct c j =>
    rw [hp] at h
    exact ⟨m.allLeft h.1, m.dropped.trans h.2⟩
  | failed | closed =>
    rw [hp] at h
    exact m.allLeft h

theorem tidy_start (n : Nat) (w : W) : Tidy (start n w : State C J W) := rfl

/-- `cleanup` begins. -/
theorem ending_of_unquiet (hn : s.threads = s.workers.length) (hopen : s.isOpen s.gateNo = true)
    (hd : .disconnect ∉ s.queue) (hquit : holders Worker.quitOf s.workers () = 0)
    (hsent : s.dropped = 0) : Ending s s.threads := by
  refine ⟨hn, hopen, ?_⟩
  rw [count_eq_zero.mpr hd, hquit, hsent, hn]
  omega

variable {why : Why C} {err : Bool}

theorem tidy_afterJoin (hsafe : Safe s) (h : s.allLeft = true) (hpc : s.pc = .joining why i err)
    (hi : s.threads ≤ i) : Tidy { s with threads := 0, pc := afterJoin why err } := by
  cases herr : err with
  | true => cases why <;> exact h
  | false =>
    subst herr
    cases why with
    | broken | final => exact h
    | chunk rest | gate => cases hsafe.joined hpc rfl hi

/-- The main thread keeps the pool tidy. -/
theorem MainMove.tidy (m : MainMove jobs s s') (hsafe : Safe s) (h : Tidy s) : Tidy s' := by
  have hphase := hsafe.phase
  rw [Phase] at hphase
  rw [Tidy] at h
  cases m with
  | newGate hpc | pushChunk hpc | pushGate hpc =>
    rw [hpc] at h
    exact ⟨h.1, h.2.noQuit, h.2.reported, h.2.sent⟩
  | seeError hpc herror =>
    have hd := no_disconnect hsafe.phase (.inl ⟨_, _, hpc⟩)
    rw [hpc] at h hphase
    exact .inr ((ending_of_unquiet hphase.1 hphase.2.1.opened hd h.2.noQuit h.2.sent).goto _)
  | check hpc | retry hpc | gatesSent hpc =>
    rw [hpc] at h
    exact ⟨h.1, h.2.goto _⟩
  | noReceiver hpc hall | disconnectRefused hpc hall => exact .inl hall
  | gateRefused hpc hall | noSender hpc hall => exact hall
  | lastReport hpc hnotes hseen =>
    rw [hpc] at h
    exact h.2.sent
  | report hpc hnotes hseen =>
    rw [hpc] at h
    refine ⟨Nat.lt_of_le_of_ne h.1 hseen, h.2.noQuit, fun hany => ?_, h.2.sent⟩
    have hmem := h.2.reported hany
    rw [hnotes] at hmem
    exact (mem_cons.mp hmem).resolve_left (fun hc => by cases hc)
  | errorReport hpc hnotes =>
    have hd := no_disconnect hsafe.phase (.inr (.inr ⟨_, hpc⟩))
    rw [hpc] at h hphase
    have hend : Ending s.openGate s.threads :=
      ending_of_unquiet hphase.1 (Function.update_self ..) hd h.2.noQuit h.2.sent
    exact .inr ⟨hend.threads, hend.opened, hend.count⟩
  | allDisconnected hpc =>
    rw [hpc] at h
    refine h.imp_right fun hend => ⟨hend.goto _, fun j hj => ?_⟩
    exact absurd hj (Nat.not_lt_zero j)
  | pushDisconnect hpc hall =>
    rename_i why k
    rw [hpc] at h
    have hend := h.resolve_left hall
    have hcount := hend.count
    refine .inr ⟨hend.threads, hend.opened, ?_⟩
    show (s.queue ++ [Msg.disconnect]).count Msg.disconnect + holders Worker.quitOf s.workers ()
      + k + s.dropped = s.workers.length
    rw [count_append, count_singleton_self]
    omega
  | dropDisconnect hpc hall =>
    rename_i why k
    rw [hpc] at h
    have hend := h.resolve_left hall
    have hcount := hend.count
    refine .inr ⟨hend.threads, hend.opened, ?_⟩
    show s.queue.count .disconnect + holders Worker.quitOf s.workers () + k + (s.dropped + 1)
      = s.workers.length
    omega
  | join hpc hok =>
    rename_i why i err ok
    rw [hpc] at h
    refine h.imp_right fun hjoin => ⟨hjoin.1.goto _, fun j hj => ?_⟩
    rcases Nat.lt_succ_iff_lt_or_eq.mp hj with hj | rfl
    · exact hjoin.2 j hj
    · exact ⟨ok, hok⟩
  | joined hpc hi =>
    rw [hpc] at h
    refine tidy_afterJoin hsafe ?_ hpc hi
    rcases h with hall | ⟨hend, hleft⟩
    · exact hall
    · exact allLeft_of_joined hend.threads hi hleft
  | close hpc =>
    rw [hpc] at hphase h
    obtain ⟨hn, hqueue, hfill, hrest, -⟩ := hphase
    have hd : .disconnect ∉ s.queue := by
      rw [hqueue]
      exact not_mem_nil
    exact .inr ((ending_of_unquiet hn hfill.opened hd (no_quit_of_resting hrest) h).goto _)
  | abort hpc =>
    rw [hpc] at h
    exact .inl h
  | directWork hpc l hj =>
    rw [hpc] at h
    exact h
  | directFinish hpc hj =>
    rw [hpc] at h
    exact h.2
  | directFail hpc =>
    rw [hpc] at h
    exact h.1

/-- A call keeps the pool tidy. -/
theorem CallMove.tidy {whole : C} {chunks : List C} (m : CallMove jobs whole chunks s s')
    (hsafe : Safe s) (h : Tidy s) : Tidy s' := by
  have hphase := hsafe.phase
  rw [Phase] at hphase
  rw [Tidy] at h
  cases m with
  | direct hpc hn =>
    rw [hpc] at hphase h
    have hworkers : s.workers = [] := eq_nil_of_length_eq_zero (hphase.1 ▸ hn)
    refine ⟨?_, h⟩
    show s.workers.all Worker.hasLeft = true
    rw [hworkers]
    rfl
  | chunks hpc hn =>
    rw [hpc] at hphase h
    obtain ⟨-, -, -, hrest, -⟩ := hphase
    refine ⟨Nat.pos_of_ne_zero hn, no_quit_of_resting hrest, fun hany => ?_, h⟩
    obtain ⟨w, hw, hnoted⟩ := List.any_eq_true.mp hany
    have hresting := hrest w hw
    cases w with
    | failing noted | left ok => cases hresting
    | _ => cases hnoted

/-- Every step keeps the pool tidy. -/
theorem tidy_step (hsafe : Safe s) (h : Tidy s) (hs : step jobs s l = some s') : Tidy s' := by
  rcases step_cases hs with m | m | ⟨whole, chunks, -, m⟩
  · exact m.tidy hsafe.phase h
  · exact m.tidy hsafe h
  · exact m.tidy hsafe h

/-! ## Nobody waits for ever, unless a `Disconnect` was dropped -/

/-- A gate message that finds the channel full. -/
theorem goesOn_gates (hsafe : Safe s) (hpc : s.pc = .gates k) : GoesOn jobs s := by
  have hphase := hsafe.phase
  rw [Phase, hpc] at hphase
  cases k with
  | zero =>
    apply goesOn_of_main
    rw [mainStep, hpc]
    rfl
  | succ k =>
    by_cases hall : s.allLeft = true
    · apply goesOn_of_main
      rw [mainStep, hpc]
      simp only
      rw [if_pos hall]
      rfl
    by_cases hfull : s.queue.length < s.capacity
    · apply goesOn_of_main
      rw [mainStep, hpc]
      simp only
      rw [if_neg hall, if_pos hfull]
      rfl
    obtain ⟨i, w, hw, hleft⟩ := exists_not_left hall
    obtain ⟨ms, q, hqueue, -, hsum, hnone⟩ := hphase.2.1.shape
    rw [State.capacity] at hfull
    refine goesOn_of_worker hw hleft ?_ ?_
    · intro _ hempty
      rw [hempty] at hfull
      exact hfull (by simp only [length_nil]; omega)
    · rintro g rfl
      -- nobody is at the new gate: the channel would hold gate messages only
      refine (hsafe.atGates g (mem_of_getElem? hw)).2.resolve_left ?_
      rintro rfl
      have hpos : 0 < s.here := holders_pos (f := Worker.gateOf) hw rfl
      rw [hqueue, hnone hpos, nil_append, length_replicate] at hfull
      omega

/-- While the main thread waits, somebody can go on. -/
theorem goesOn_waiting (hsafe : Safe s) (htidy : Tidy s) (hpc : s.pc = .waiting seen) :
    GoesOn jobs s := by
  have hphase := hsafe.phase
  rw [Phase, hpc] at hphase
  rw [Tidy, hpc] at htidy
  obtain ⟨hn, harrive, -⟩ := hphase
  obtain ⟨hseen, hunquiet⟩ := htidy
  cases hnotes : s.notes with
  | cons note notes =>
    apply goesOn_of_main
    rw [mainStep, hpc]
    simp only
    rw [hnotes]
    cases note with
    | gate =>
      simp only
      split_ifs <;> rfl
    | error => rfl
  | nil =>
    obtain ⟨ms, q, hqueue, -, hsum, -⟩ := harrive.shape
    have hreports := harrive.notes
    rw [hnotes, count_nil] at hreports
    -- a thread that is not at this gate
    have hless : s.here < s.workers.length := by omega
    have hex : ∃ w ∈ s.workers, ¬ decide (Worker.gateOf w = some s.gateNo) = true := by
      by_contra hc
      push Not at hc
      exact absurd (countP_eq_length.mpr hc) (Nat.ne_of_lt hless)
    obtain ⟨w, hmem, haway⟩ := hex
    rw [decide_eq_true_iff] at haway
    obtain ⟨i, hw⟩ := getElem?_of_mem hmem
    refine goesOn_of_worker hw ?_ ?_ ?_
    · cases w with
      | left ok =>
        cases ok with
        | true =>
          have hpos : 0 < holders Worker.quitOf s.workers () := holders_pos hw rfl
          rw [hunquiet.noQuit] at hpos
          cases hpos
        | false =>
          have hmem' := hunquiet.reported (List.any_eq_true.mpr ⟨_, hmem, rfl⟩)
          rw [hnotes] at hmem'
          cases hmem'
      | _ => rfl
    · rintro - hempty
      rw [hempty] at hqueue
      obtain ⟨-, hq⟩ := append_eq_nil_iff.mp hqueue.symm
      rw [replicate_eq_nil_iff] at hq
      omega
    · rintro g rfl
      refine (hsafe.atGates g hmem).2.resolve_left ?_
      rintro rfl
      exact haway rfl

/-- A join can end, or a message was dropped. -/
theorem goesOn_joining (hsafe : Safe s) (htidy : Tidy s) (hle : s.threads ≤ s.workers.length)
    (hpc : s.pc = .joining why i err) : GoesOn jobs s ∨ 0 < s.dropped ∧ s.queue = [] := by
  rw [Tidy, hpc] at htidy
  by_cases hi : i < s.threads
  · obtain ⟨w, hw⟩ : ∃ w, s.workers[i]? = some w :=
      ⟨_, getElem?_eq_getElem (Nat.lt_of_lt_of_le hi hle)⟩
    by_cases hleft : w.hasLeft = true
    · left
      apply goesOn_of_main
      rw [mainStep, hpc]
      simp only
      rw [if_pos hi, hw]
      cases w with
      | left ok => rfl
      | _ => cases hleft
    · have hstay : ¬ s.allLeft = true := fun hall =>
        hleft (List.all_eq_true.mp hall w (mem_of_getElem? hw))
      obtain ⟨hend, -⟩ := htidy.resolve_left hstay
      by_cases hqueue : s.queue = []
      · -- an idle thread waits for a message that does not come
        by_cases hidle : w = .idle
        · right
          refine ⟨?_, hqueue⟩
          have hcount := hend.count
          have hquit : holders Worker.quitOf s.workers () < s.workers.length := by
            refine countP_lt_length_iff.mpr ⟨w, mem_of_getElem? hw, ?_⟩
            rw [hidle]
            rfl
          rw [hqueue, count_nil] at hcount
          omega
        · left
          refine goesOn_of_worker hw (Bool.eq_false_iff.mpr hleft) (absurd · hidle) ?_
          rintro g rfl
          rcases (hsafe.atGates g (mem_of_getElem? hw)).2 with rfl | hopen
          · exact hend.opened
          · exact hopen
      · left
        refine goesOn_of_worker hw (Bool.eq_false_iff.mpr hleft) (fun _ => hqueue) ?_
        rintro g rfl
        rcases (hsafe.atGates g (mem_of_getElem? hw)).2 with rfl | hopen
        · exact hend.opened
        · exact hopen
  · left
    apply goesOn_of_main
    rw [mainStep, hpc]
    simp only
    rw [if_neg hi]
    rfl

/-- **NOBODY WAITS FOR EVER** in `send_memory` and `cleanup`: a chunk is being sent or somebody
    can go on, in every reachable state.  The one exception is joining the threads after a
    `Disconnect` found the channel full. -/
theorem blocked_only_by_dropped {n : Nat} {w : W} (h : Reachable (step jobs) (start n w) s)
    (hin : s.pc.inside = true) :
    GoesOn jobs s ∨ (∃ why i err, s.pc = .joining why i err) ∧ 0 < s.dropped ∧ s.queue = [] := by
  have hall : Safe s ∧ Tidy s ∧ s.threads ≤ s.workers.length := by
    refine inv_of_reachable (I := fun s => Safe s ∧ Tidy s ∧ s.threads ≤ s.workers.length) h
      ⟨safe_start n w, tidy_start n w, Nat.le_of_eq (length_replicate ..).symm⟩ ?_
    rintro s l s' ⟨hsafe, htidy, hle⟩ hs
    exact ⟨safe_step hsafe hs, tidy_step hsafe htidy hs, threads_le_step hle hs⟩
  obtain ⟨hsafe, htidy, hle⟩ := hall
  cases hpc : s.pc with
  | chunks rest checked => exact .inl (goesOn_chunks hpc)
  | gates k => exact .inl (goesOn_gates hsafe hpc)
  | waiting seen => exact .inl (goesOn_waiting hsafe htidy hpc)
  | cleanup why k =>
    left
    apply goesOn_of_main
    rw [mainStep, hpc]
    cases k with
    | zero => rfl
    | succ k =>
      simp only
      split_ifs <;> rfl
  | joining why i err =>
    exact (goesOn_joining hsafe htidy hle hpc).imp_right fun hd => ⟨⟨why, i, err, rfl⟩, hd⟩
  | _ =>
    rw [hpc] at hin
    cases hin

/-- The main thread waits for two threads at work. -/
theorem ticks_goOn : ∃ s : State Nat Bool Nat, Reachable (step ticks) (start 2 0) s
    ∧ s.pc = .waiting 0 ∧ mainStep s = none
    ∧ (GoesOn ticks s
      ∨ (∃ why i err, s.pc = .joining why i err) ∧ 0 < s.dropped ∧ s.queue = []) := by
  have hreach : Reachable (step ticks) (start 2 0) _ := ⟨twoChunks.take 13, rfl⟩
  exact ⟨_, hreach, rfl, rfl, blocked_only_by_dropped hreach rfl⟩

end Count

/-! ## A `Disconnect` that is lost -/

section Hang

/-- The steps of one chunk. -/
def Jobs.machine (jobs : Jobs C J W L E) (q : J × W) (l : L) : Option (J × W) :=
  jobs.step l q.1 q.2

variable (jobs) (ws : List (Worker C J))

variable {w : W}

theorem second_finishes (x : Worker C J) {c : C} {j : J} {q : J × W}
    (hjob : Reachable jobs.machine (j, w) q) (hdone : jobs.finished q.1 = true) :
    Reachable (step jobs) { s with workers := x :: .job c j :: ws, world := w }
      { s with workers := x :: .idle :: ws, world := q.2, acked := s.acked ++ [c] } := by
  obtain ⟨ls, hls⟩ := hjob
  induction ls generalizing j w with
  | nil =>
    cases hls
    exact .single (l := .finish 1) (if_pos hdone)
  | cons l ls ih =>
    obtain ⟨⟨j', w'⟩, hl, hrest⟩ := exec_cons hls
    exact .head (l := .work 1 l) (congrArg (Option.map _) hl) (ih hrest)

/-- The chunk can be finished from every world of `A`, and in `A`. -/
def Jobs.Finishes (jobs : Jobs C J W L E) (A : W → Prop) (c : C) : Prop :=
  ∀ w, A w → ∃ q, Reachable jobs.machine (jobs.start c, w) q ∧ jobs.finished q.1 = true ∧ A q.2

variable {A : W → Prop}

/-- The second thread does all that is queued. -/
theorem second_drains (x : Worker C J) (cs : List C) (hjobs : ∀ c ∈ cs, jobs.Finishes A c)
    (hworld : A s.world) :
    ∃ w acked, Reachable (step jobs)
      { s with workers := x :: .idle :: ws, queue := cs.map .memory }
      { s with workers := x :: .idle :: ws, queue := [], world := w, acked := acked } := by
  induction cs generalizing s with
  | nil => exact ⟨s.world, s.acked, .refl _⟩
  | cons c cs ih =>
    obtain ⟨q, hjob, hdone, hq⟩ := hjobs c mem_cons_self s.world hworld
    obtain ⟨w, acked, hrest⟩ := ih (s := { s with world := q.2, acked := s.acked ++ [c] })
      (fun c' hc' => hjobs c' (mem_cons_of_mem _ hc')) hq
    have hfirst := second_finishes (s := { s with queue := cs.map .memory }) (c := c) jobs ws x
      hjob hdone
    exact ⟨w, acked, .head (l := .take 1) rfl (hfirst.trans hrest)⟩

/-- `send_chunk` while no error is seen and the channel has room. -/
theorem chunks_fill (cs rest : List C) (queue : List (Msg C))
    (herror : s.workerError = false) (hall : ¬ s.allLeft = true)
    (hroom : queue.length + cs.length ≤ s.capacity) :
    Reachable (step jobs) { s with queue := queue, pc := .chunks (cs ++ rest) false }
      { s with queue := queue ++ cs.map .memory, pc := .chunks rest false } := by
  induction cs generalizing queue with
  | nil =>
    rw [map_nil, append_nil]
    exact .refl _
  | cons c cs ih =>
    rw [length_cons] at hroom
    have hrest := ih (queue ++ [.memory c]) (by
      rw [length_append, length_singleton]
      omega)
    rw [append_assoc] at hrest
    refine .head (l := .main) (if_neg ?_) ?_
    · rw [herror]
      exact Bool.false_ne_true
    refine .head (l := .main) ((if_neg hall).trans (if_pos ?_)) hrest
    show queue.length < s.capacity
    omega

/-- `cleanup` with a full channel. -/
theorem disconnects_lost (why : Why C) (k dropped : Nat) (hall : ¬ s.allLeft = true)
    (hfull : s.capacity ≤ s.queue.length) :
    Reachable (step jobs) { s with dropped := dropped, pc := .cleanup why k }
      { s with dropped := dropped + k, pc := .cleanup why 0 } := by
  induction k generalizing dropped with
  | zero => exact .refl _
  | succ k ih =>
    have hrest := ih (dropped + 1)
    rw [Nat.add_right_comm] at hrest
    exact .head (l := .main) ((if_neg hall).trans (if_neg (Nat.not_lt.mpr hfull))) hrest

/-- The first thread fails while the channel is full, and is joined. -/
theorem joining_reached (c d : C) (rest : List C) (j : J)
    (hfull : 64 * (ws.length + 2) ≤ s.queue.length) (hpos : 0 < s.threads) :
    Reachable (step jobs)
      { s with workers := .job d j :: .idle :: ws, pc := .chunks (c :: rest) false }
      { s with
        workers := .left false :: .idle :: ws
        workerError := true
        notes := s.notes ++ [.error]
        dropped := s.dropped + s.threads
        pc := .joining (.chunk rest) 1 true } := by
  have hlost := disconnects_lost jobs (.chunk rest)
    (s := { s with workers := .failing false :: .idle :: ws, workerError := true })
    s.threads s.dropped Bool.false_ne_true hfull
  -- `send_chunk` sees the error; the thread reports it only after `cleanup`
  refine .head (l := .fail 0) rfl (.head (l := .main) rfl (hlost.trans ?_))
  refine .head (l := .main) rfl (.head (l := .notify 0) rfl (.head (l := .leave 0) rfl ?_))
  exact .single (l := .main) (if_pos hpos)

variable {jobs}

/-- The main thread joins the second thread, which waits for a message, as all others do. -/
structure Hung (s : State C J W) : Prop where
  pc_eq : ∃ why err, s.pc = .joining why 1 err
  awaited : 1 < s.threads
  queue_eq : s.queue = []
  workers_eq : ∃ ws, s.workers = .left false :: .idle :: ws ∧ ∀ w ∈ ws, w = .idle

/-- Only the world outside may take a step. -/
theorem Hung.move (h : Hung s) (hs : step jobs s l = some s') :
    s' = { s with world := s'.world } := by
  obtain ⟨why, err, hpc⟩ := h.pc_eq
  obtain ⟨ws, hworkers, hws⟩ := h.workers_eq
  have hrest {i : Nat} {w : Worker C J} (hw : s.workers[i]? = some w) :
      w = .left false ∨ w = .idle := by
    have hmem := mem_of_getElem? hw
    rw [hworkers, mem_cons, mem_cons] at hmem
    exact hmem.imp_right fun h => h.elim id (hws w)
  by_cases hl : l.ofThread = true
  · cases workerMove_of_step hl hs with
    | env e he => rfl
    | memory hw hq | gate hw hq | disconnect hw hq => cases h.queue_eq.symm.trans hq
    | work hw | finish hw | fail hw | notify hw | leave hw | pass hw =>
      rcases hrest hw with heq | heq <;> cases heq
  · cases l with
    | main =>
      rw [step, mainStep, hpc] at hs
      simp only [h.awaited, hworkers] at hs
      cases hs
    | call | close | abort | directWork | directFinish | directFail =>
      rw [step, hpc] at hs
      cases hs
    | _ => exact absurd rfl hl

/-- A pool that hangs does so for ever. -/
theorem Hung.run (h : Hung s) (hs : Reachable (step jobs) s s') :
    s' = { s with world := s'.world } := by
  refine inv_of_reachable (I := fun t => t = { s with world := t.world }) hs rfl ?_
  intro t l t' ht hstep
  have hung : Hung t := by
    rw [ht]
    exact ⟨h.pc_eq, h.awaited, h.queue_eq, h.workers_eq⟩
  rw [hung.move hstep, ht]

/-- The first thread takes `c`, the chunks `cs` fill the channel, and the error is seen with `d`. -/
theorem hung_of_chunks (c d : C) (cs rest : List C) (hjobs : ∀ c ∈ cs, jobs.Finishes A c)
    (hworld : A s.world) (hthreads : s.threads = ws.length + 2)
    (herror : s.workerError = false) (hws : ∀ w ∈ ws, w = .idle)
    (hcs : cs.length = 64 * (ws.length + 2)) :
    ∃ s', Reachable (step jobs)
        { s with
          workers := .idle :: .idle :: ws
          queue := []
          pc := .chunks ([c] ++ (cs ++ d :: rest)) false } s'
      ∧ Hung s' ∧ s'.asked = s.asked ∧ s'.dropped = s.dropped + s.threads := by
  have hone := chunks_fill jobs [c] (cs ++ d :: rest) []
    (s := { s with workers := .idle :: .idle :: ws }) herror Bool.false_ne_true (by
      show 1 ≤ 64 * (ws.length + 2)
      omega)
  have hfill := chunks_fill jobs cs (d :: rest) []
    (s := { s with workers := .job c (jobs.start c) :: .idle :: ws }) herror
    Bool.false_ne_true (by
      show 0 + cs.length ≤ 64 * (ws.length + 2)
      omega)
  have hjoin := joining_reached jobs ws d c rest (jobs.start c)
    (s := { s with queue := cs.map .memory })
    (Nat.le_of_eq (hcs.symm.trans (length_map _).symm)) (by
      show 0 < s.threads
      omega)
  obtain ⟨v, acked, hdrain⟩ := second_drains jobs ws (.left false) cs
    (s := { s with
      workerError := true
      notes := s.notes ++ [.error]
      dropped := s.dropped + s.threads
      pc := .joining (.chunk rest) 1 true }) hjobs hworld
  refine ⟨_, hone.trans (.head (l := .take 0) rfl (hfill.trans (hjoin.trans hdrain))),
    ⟨⟨_, _, rfl⟩, ?_, rfl, ⟨ws, rfl, hws⟩⟩, rfl, rfl⟩
  show 1 < s.threads
  omega

/-- With two threads and more chunks than the channel holds, there is a run of one `send_memory`
    in which a thread fails, every `Disconnect` is lost, and the main thread joins a thread that
    waits for a message. -/
theorem hung_reachable {n : Nat} (hn : 2 ≤ n) (hworld : A w) (chunks : List C)
    (hjobs : ∀ c ∈ chunks, jobs.Finishes A c) (hchunks : 64 * n + 2 ≤ chunks.length) :
    ∃ s, Reachable (step jobs) (start n w) s ∧ Hung s ∧ s.asked = chunks ∧ s.dropped = n := by
  obtain ⟨k, rfl⟩ := Nat.exists_eq_add_of_le' hn
  obtain ⟨c, cs, d, rest, rfl, hcs⟩ : ∃ c cs d rest, chunks = [c] ++ (cs ++ d :: rest)
      ∧ cs.length = 64 * (k + 2) := by
    cases chunks with
    | nil =>
      rw [length_nil] at hchunks
      omega
    | cons c chunks =>
      rw [length_cons] at hchunks
      have hlt : 64 * (k + 2) < chunks.length := by omega
      refine ⟨c, chunks.take (64 * (k + 2)), chunks[64 * (k + 2)],
        chunks.drop (64 * (k + 2) + 1), ?_, length_take_of_le (Nat.le_of_lt hlt)⟩
      rw [getElem_cons_drop, take_append_drop]
      rfl
  obtain ⟨s, hreach, hung, hasked, hdropped⟩ := hung_of_chunks (.replicate k .idle) c d
    cs rest (s := { start (k + 2) w with asked := [c] ++ (cs ++ d :: rest) })
    (fun c' hc' => hjobs c' (by simp [hc'])) hworld (by rw [length_replicate]; rfl) rfl (fun _ => eq_of_mem_replicate)
    (by rw [length_replicate, hcs])
  refine ⟨s, .head (l := .call c _) rfl hreach, hung, hasked, ?_⟩
  rw [hdropped]
  exact Nat.zero_add _

end Hang

end SendGate
