import DemoStore.ControllerThreadsProofs

/-! # Stopping and removing sandboxes under concurrency

    One invariant serves two results.  Every `Wait` of a record sees the exit data of the
    one body of `stopRecord` that ran for it.  And a record leaves the map only after it
    was stopped, by a `Shutdown` that had found it, exactly as long as no `Shutdown`
    deletes an id that belongs to another record by then. -/

namespace ControllerThreads

open RemoteController MachineRun Option
open Function (update_idem update_of_ne update_self)
open ControllerServer (records_modify_of_ne records_modify_self records_add_of_ne sandboxes_add
  sandboxes_delete)

/-! ## The invariant -/

/-- The record whose `stopOnce.Do` the thread is running. -/
def inStop : Pc → Option Nat
  | .inOnce _ r => some r
  | .closing _ r => some r
  | .leaving _ r => some r
  | _ => none

/-- What a thread knows about its record. -/
def PcOk (s : System) : Pc → Prop
  | .idle => True
  | .found _ r => r < s.server.next
  | .inOnce _ r => r < s.server.next ∧ (s.server.records r).stopOnce = .running
      ∧ (s.server.records r).stopped = false ∧ s.bodies r = []
  | .closing _ r => r < s.server.next ∧ (s.server.records r).stopOnce = .running
      ∧ (s.server.records r).stopped = false
      ∧ s.bodies r = [exitData (s.server.records r)]
  | .leaving _ r => r < s.server.next ∧ (s.server.records r).stopOnce = .running
      ∧ (s.server.records r).stopped = true
  | .deleting r => r < s.server.next ∧ (s.server.records r).stopped = true
  | .received r => r < s.server.next ∧ (s.server.records r).stopped = true

/-- What a record and its past have to do with each other. -/
structure RecordOk (s : System) (r : Nat) : Prop where
  fresh : (s.server.records r).stopOnce = .fresh →
    (s.server.records r).stopped = false ∧ s.bodies r = []
  done : (s.server.records r).stopOnce = .done → (s.server.records r).stopped = true
  published : (s.server.records r).stopped = true → s.bodies r = [exitData (s.server.records r)]
  closes : s.closes r = if (s.server.records r).stopped then 1 else 0
  waits : ∀ v ∈ s.waits r, (s.server.records r).stopped = true ∧ v = exitData (s.server.records r)
  stops : s.stops r = true → (s.server.records r).stopped = true
  single : (s.bodies r).length ≤ 1

/-- The invariant of the server. -/
structure Inv (s : System) : Prop where
  named : Named s.server
  threads : ∀ i, PcOk s (s.threads i)
  unique : ∀ i j r, inStop (s.threads i) = some r → inStop (s.threads j) = some r → i = j
  records : ∀ r, RecordOk s r
  unborn : ∀ r, s.server.next ≤ r → (s.server.records r).stopOnce = .fresh
    ∧ s.waits r = [] ∧ s.stops r = false

theorem inv_start (pid : UInt32) : Inv (start pid) where
  named := named_new pid
  threads _ := trivial
  unique _ _ _ h := by cases h
  records _ := ⟨fun _ => ⟨rfl, rfl⟩, (fun h => by cases h), (fun h => by cases h), rfl,
    (fun _ h => by cases h), (fun h => by cases h), Nat.zero_le _⟩
  unborn _ _ := ⟨rfl, rfl, rfl⟩

/-! ## Steps on one record -/

/-- The record and its past are the same in both states. -/
structure SameAt (s s' : System) (r : Nat) : Prop where
  record : s'.server.records r = s.server.records r
  bodies : s'.bodies r = s.bodies r
  closes : s'.closes r = s.closes r
  waits : s'.waits r = s.waits r
  stops : s'.stops r = s.stops r

/-- Thread `i` has worked on record `r` and on nothing else. -/
structure WorksOn (s s' : System) (i r : Nat) : Prop where
  next : s'.server.next = s.server.next
  named : Named s'.server
  others : ∀ q, q ≠ r → SameAt s s' q
  threads : ∀ j, j ≠ i → s'.threads j = s.threads j
  stopped : (s.server.records r).stopped = true → (s'.server.records r).stopped = true

variable {s s' : System} {r : Nat} {pc : Pc} {g : SandboxRecord → SandboxRecord} {l : Nat × Action}
  {rpc : Rpc} {id : String}

theorem RecordOk.same (h : RecordOk s r) (hsame : SameAt s s' r) : RecordOk s' r := by
  obtain ⟨hrec, hbod, hclo, hwai, hsto⟩ := hsame
  refine ⟨?_, ?_, ?_, ?_, ?_, ?_, ?_⟩
  · rw [hrec, hbod]; exact h.fresh
  · rw [hrec]; exact h.done
  · rw [hrec, hbod]; exact h.published
  · rw [hrec, hclo]; exact h.closes
  · rw [hrec, hwai]; exact h.waits
  · rw [hrec, hsto]; exact h.stops
  · rw [hbod]; exact h.single

/-- The record a thread works on. -/
def about : Pc → Option Nat
  | .idle => none
  | .found _ r => some r
  | .inOnce _ r => some r
  | .closing _ r => some r
  | .leaving _ r => some r
  | .deleting r => some r
  | .received r => some r

theorem PcOk.about_lt (h : PcOk s pc) (hr : about pc = some r) : r < s.server.next := by
  cases pc with
  | idle => cases hr
  | found rpc q => cases hr; exact h
  | inOnce | closing | leaving | deleting | received => cases hr; exact h.1

/-- The stopping of the record is the same in both states. -/
structure StopSame (s s' : System) (r : Nat) : Prop where
  once : (s'.server.records r).stopOnce = (s.server.records r).stopOnce
  stopped : (s'.server.records r).stopped = (s.server.records r).stopped
  exit : exitData (s'.server.records r) = exitData (s.server.records r)
  bodies : s'.bodies r = s.bodies r

theorem SameAt.stopSame (h : SameAt s s' r) : StopSame s s' r :=
  ⟨by rw [h.record], by rw [h.record], by rw [h.record], h.bodies⟩

theorem PcOk.same (h : PcOk s pc) (hnext : s.server.next ≤ s'.server.next)
    (hsame : ∀ r, about pc = some r → StopSame s s' r) : PcOk s' pc := by
  cases pc with
  | idle => trivial
  | found rpc r => exact Nat.lt_of_lt_of_le h hnext
  | inOnce k r =>
    obtain ⟨honce, hst, -, hbod⟩ := hsame r rfl
    rw [PcOk, honce, hst, hbod]
    exact ⟨Nat.lt_of_lt_of_le h.1 hnext, h.2⟩
  | closing k r =>
    obtain ⟨honce, hst, hexit, hbod⟩ := hsame r rfl
    rw [PcOk, honce, hst, hexit, hbod]
    exact ⟨Nat.lt_of_lt_of_le h.1 hnext, h.2⟩
  | leaving k r =>
    obtain ⟨honce, hst, -, -⟩ := hsame r rfl
    rw [PcOk, honce, hst]
    exact ⟨Nat.lt_of_lt_of_le h.1 hnext, h.2⟩
  | deleting r | received r =>
    rw [PcOk, (hsame r rfl).stopped]
    exact ⟨Nat.lt_of_lt_of_le h.1 hnext, h.2⟩

/-- A thread outside `stopOnce.Do` only needs a stopped record to stay stopped. -/
theorem PcOk.outside (h : PcOk s pc) (hnext : s'.server.next = s.server.next)
    (hout : inStop pc ≠ some r) (habout : about pc = some r)
    (hstopped : (s.server.records r).stopped = true →
      (s'.server.records r).stopped = true) : PcOk s' pc := by
  cases pc with
  | idle => trivial
  | found rpc q => rw [PcOk, hnext]; exact h
  | inOnce | closing | leaving => exact absurd habout hout
  | deleting | received =>
    cases habout
    rw [PcOk, hnext]
    exact ⟨h.1, hstopped h.2⟩

/-- **THE STEP RULE.**  A step of thread `i` on record `r` keeps the invariant if it keeps
    the record in order, leaves the thread where it knows what it needs, and either no
    other thread is in the `Do` of the record or its stopping is left alone. -/
theorem Inv.update {i : Nat} (h : Inv s) (hw : WorksOn s s' i r) (hlt : r < s.server.next)
    (hpc : PcOk s' (s'.threads i))
    (hin : inStop (s'.threads i) = none ∨ (inStop (s'.threads i) = some r
      ∧ ∀ j, j ≠ i → inStop (s.threads j) ≠ some r))
    (hcalm : (∀ j, j ≠ i → inStop (s.threads j) ≠ some r) ∨ StopSame s s' r) (hok : RecordOk s' r) :
    Inv s' where
  named := hw.named
  threads j := by
    by_cases hj : j = i
    · subst hj
      exact hpc
    · rw [hw.threads j hj]
      have hold := h.threads j
      by_cases habout : about (s.threads j) = some r
      · rcases hcalm with hnone | hsame
        · exact hold.outside hw.next (hnone j hj) habout hw.stopped
        · refine hold.same (Nat.le_of_eq hw.next.symm) fun q hq => ?_
          cases habout.symm.trans hq
          exact hsame
      · refine hold.same (Nat.le_of_eq hw.next.symm) fun q hq => (hw.others q ?_).stopSame
        rintro rfl
        exact habout hq
  unique j k q hj hk := by
    -- nobody else is in the `Do` that thread `i` is in
    have hone : ∀ m, m ≠ i → inStop (s'.threads i) = some q → inStop (s.threads m) ≠ some q := by
      intro m hm hq
      rcases hin with hnone | ⟨hr, hothers⟩
      · rw [hnone] at hq
        cases hq
      · cases hr.symm.trans hq
        exact hothers m hm
    by_cases hji : j = i
    · by_cases hki : k = i
      · rw [hji, hki]
      · rw [hw.threads k hki] at hk
        exact absurd hk (hone k hki (hji ▸ hj))
    · rw [hw.threads j hji] at hj
      by_cases hki : k = i
      · exact absurd hj (hone j hji (hki ▸ hk))
      · rw [hw.threads k hki] at hk
        exact h.unique j k q hj hk
  records q := by
    by_cases hq : q = r
    · subst hq
      exact hok
    · exact (h.records q).same (hw.others q hq)
  unborn q hq := by
    rw [hw.next] at hq
    have hsame := hw.others q (by omega)
    rw [hsame.record, hsame.waits, hsame.stops]
    exact h.unborn q hq

/-! ## The steps -/

section Steps

variable {s s' : System} {i r : Nat}

/-- A record that was found has been made. -/
theorem Inv.found_lt (h : Inv s) (hpc : s.threads i = .found rpc r) : r < s.server.next := by
  have hok := h.threads i
  rw [hpc] at hok
  exact hok

theorem Inv.others_outside (h : Inv s) (hin : inStop (s.threads i) = some r) (j : Nat)
    (hj : j ≠ i) : inStop (s.threads j) ≠ some r :=
  fun hjr => hj (h.unique j i r hjr hin)

/-- Whoever is in the `Do` of a record has set it running. -/
theorem Inv.running_of_inStop (h : Inv s) {j : Nat} (hj : inStop (s.threads j) = some r) :
    (s.server.records r).stopOnce = .running := by
  have hok := h.threads j
  cases hpc : s.threads j with
  | inOnce | closing | leaving =>
    rw [hpc] at hj hok
    cases hj
    exact hok.2.1
  | _ => rw [hpc] at hj; cases hj

/-- Only the thread moves on. -/
theorem Inv.goto (h : Inv s) (hlt : r < s.server.next) (hpc : PcOk s pc) (hin : inStop pc = none) :
    Inv (s.goto i pc) := by
  have hself : (s.goto i pc).threads i = pc := update_self ..
  have hsame : ∀ q, SameAt s (s.goto i pc) q := fun _ => ⟨rfl, rfl, rfl, rfl, rfl⟩
  refine h.update (i := i) (r := r)
    ⟨rfl, h.named, fun q _ => hsame q, fun j hj => update_of_ne hj .., id⟩ hlt ?_ ?_
    (.inr (hsame r).stopSame) ((h.records r).same (hsame r))
  · rw [hself]
    exact hpc.same (Nat.le_refl _) fun q _ => (hsame q).stopSame
  · rw [hself]
    exact .inl hin

/-- A thread changes its record and moves on; `hstop` says what becomes of stopping. -/
theorem worksOn_modify (h : Inv s) (hid : (g (s.server.records r)).id = (s.server.records r).id)
    (hstopped : (s.server.records r).stopped = true →
      (g (s.server.records r)).stopped = true) : WorksOn s ((s.modify r g).goto i pc) i r where
  next := rfl
  named := named_modify h.named hid
  others q hq := ⟨records_modify_of_ne hq .., rfl, rfl, rfl, rfl⟩
  threads j hj := update_of_ne hj ..
  stopped := by
    show _ → ((s.server.modify r g).records r).stopped = true
    rw [records_modify_self]
    exact hstopped

theorem Inv.touch (h : Inv s) (hg : Harmless g) (hlt : r < s.server.next) :
    Inv ((s.modify r g).goto i .idle) := by
  have hself : ((s.modify r g).goto i .idle).threads i = .idle := update_self ..
  have hrec : ((s.modify r g).goto i .idle).server.records r = g (s.server.records r) :=
    records_modify_self ..
  have hsame : StopSame s ((s.modify r g).goto i .idle) r :=
    ⟨by rw [hrec, hg.stopOnce], by rw [hrec, hg.stopped], by rw [hrec, hg.exit], rfl⟩
  have hold := h.records r
  refine h.update (worksOn_modify h (hg.id _) (fun hst => by rw [hg.stopped, hst])) hlt ?_ ?_
    (.inr hsame) ⟨?_, ?_, ?_, ?_, ?_, ?_, hold.single⟩
  · rw [hself]
    trivial
  · rw [hself]
    exact .inl rfl
  · rw [hsame.once, hsame.stopped]
    exact hold.fresh
  · rw [hsame.once, hsame.stopped]
    exact hold.done
  · rw [hsame.stopped, hsame.exit]
    exact hold.published
  · rw [hsame.stopped]
    exact hold.closes
  · rw [hsame.stopped, hsame.exit]
    exact hold.waits
  · rw [hsame.stopped]
    exact hold.stops

variable {k : Stopper}

/-- The first caller of `Do` sets the latch running. -/
theorem Inv.enter (h : Inv s) (hlt : r < s.server.next)
    (honce : (s.server.records r).stopOnce = .fresh) : Inv (enterOnce i k r s) := by
  have hold := h.records r
  obtain ⟨hst, hbod⟩ := hold.fresh honce
  have hnone : ∀ j, j ≠ i → inStop (s.threads j) ≠ some r := by
    intro j _ hj
    have hrun := h.running_of_inStop hj
    rw [honce] at hrun
    cases hrun
  have hself : (enterOnce i k r s).threads i = .inOnce k r := update_self ..
  have hrec : (enterOnce i k r s).server.records r
      = setOnce .running (s.server.records r) :=
    records_modify_self ..
  refine h.update (worksOn_modify h rfl fun hs => hs) hlt ?_ ?_ (.inl hnone)
    ⟨?_, ?_, ?_, ?_, ?_, ?_, hold.single⟩
  · rw [hself, PcOk, hrec]
    exact ⟨hlt, rfl, hst, hbod⟩
  · rw [hself]
    exact .inr ⟨rfl, hnone⟩
  · rw [hrec]
    exact fun hf => by cases hf
  · rw [hrec]
    exact fun hd => by cases hd
  · rw [hrec]
    exact hold.published
  · rw [hrec]
    exact hold.closes
  · rw [hrec]
    exact hold.waits
  · rw [hrec]
    exact hold.stops

/-- The locked section is the only one to write exit data, before the channel is
    closed. -/
theorem Inv.record (h : Inv s) (now : Time) (hpc : s.threads i = .inOnce k r) :
    Inv (recordBody i k r now s) := by
  have hold := h.records r
  have hmine := h.threads i
  rw [hpc] at hmine
  obtain ⟨hlt, honce, hst, hbod⟩ := hmine
  have hnone := h.others_outside (i := i) (r := r) (by rw [hpc]; rfl)
  have hself : (recordBody i k r now s).threads i = .closing k r := update_self ..
  have hrec : (recordBody i k r now s).server.records r
      = (s.server.records r).recordExit 0 now := records_modify_self ..
  have hbod' : (recordBody i k r now s).bodies r = [(0, some now)] := by
    show Function.update s.bodies r _ r = _
    rw [update_self, hbod]
    rfl
  have hw : WorksOn s (recordBody i k r now s) i r := by
    obtain ⟨hnext, hnamed, hothers, hthreads, hstopped⟩ :=
      worksOn_modify (i := i) (r := r) (g := .recordExit 0 now) h rfl fun hs => hs
    refine ⟨hnext, hnamed, fun q hq => ?_, hthreads, hstopped⟩
    obtain ⟨hrq, -, hcq, hwq, hsq⟩ := hothers q hq
    exact ⟨hrq, update_of_ne hq .., hcq, hwq, hsq⟩
  refine h.update hw hlt ?_ ?_ (.inl hnone) ⟨?_, ?_, ?_, ?_, ?_, ?_, by simp [hbod']⟩
  · rw [hself, PcOk, hrec, hbod']
    exact ⟨hlt, honce, hst, rfl⟩
  · rw [hself]
    exact .inr ⟨rfl, hnone⟩
  · rw [hrec]
    exact fun hf => by cases honce.symm.trans hf
  · rw [hrec]
    exact fun hd => by cases honce.symm.trans hd
  · rw [hrec]
    exact fun hs => by cases hst.symm.trans hs
  · rw [hrec]
    exact hold.closes
  · rw [hrec]
    -- nobody has returned from `Wait` while the channel is open
    exact fun v hv => by cases hst.symm.trans (hold.waits v hv).1
  · rw [hrec]
    exact hold.stops

theorem Inv.close (h : Inv s) (hpc : s.threads i = .closing k r) : Inv (closeChannel i k r s) := by
  have hold := h.records r
  have hmine := h.threads i
  rw [hpc] at hmine
  obtain ⟨hlt, honce, hst, hbod⟩ := hmine
  have hnone := h.others_outside (i := i) (r := r) (by rw [hpc]; rfl)
  have hself : (closeChannel i k r s).threads i = .leaving k r := update_self ..
  have hrec : (closeChannel i k r s).server.records r = (s.server.records r).close :=
    records_modify_self ..
  have hw : WorksOn s (closeChannel i k r s) i r := by
    obtain ⟨hnext, hnamed, hothers, hthreads, hstopped⟩ :=
      worksOn_modify (i := i) (r := r) (g := .close) h rfl fun _ => rfl
    refine ⟨hnext, hnamed, fun q hq => ?_, hthreads, hstopped⟩
    obtain ⟨hrq, hbq, -, hwq, hsq⟩ := hothers q hq
    exact ⟨hrq, hbq, update_of_ne hq .., hwq, hsq⟩
  refine h.update hw hlt ?_ ?_ (.inl hnone) ⟨?_, ?_, ?_, ?_, ?_, ?_, hold.single⟩
  · rw [hself, PcOk, hrec]
    exact ⟨hlt, honce, rfl⟩
  · rw [hself]
    exact .inr ⟨rfl, hnone⟩
  · rw [hrec]
    exact fun hf => by cases honce.symm.trans hf
  · rw [hrec]
    exact fun _ => rfl
  · rw [hrec]
    exact fun _ => hbod
  · show Function.update s.closes r _ r = _
    have hclosed : (s.server.records r).close.stopped = true := rfl
    rw [update_self, hrec, hclosed, hold.closes, hst]
    rfl
  · rw [hrec]
    exact fun v hv => ⟨rfl, (hold.waits v hv).2⟩
  · rw [hrec]
    exact fun _ => rfl

/-- Whoever returns from `stopRecord` has a closed channel. -/
theorem Inv.afterStop (h : Inv s) (hlt : r < s.server.next)
    (hst : (s.server.records r).stopped = true) : Inv (afterStop i k r s) := by
  cases k with
  | shutdown => exact h.goto hlt ⟨hlt, hst⟩ rfl
  | stop =>
    have hold := h.records r
    have hself : (ControllerThreads.afterStop i .stop r s).threads i = .idle := update_self ..
    refine h.update (i := i) (r := r)
      ⟨rfl, h.named, fun q hq => ?_, fun j hj => update_of_ne hj .., fun hs => hs⟩
      hlt ?_ ?_ (.inr ⟨rfl, rfl, rfl, rfl⟩)
      ⟨hold.fresh, hold.done, hold.published, hold.closes, hold.waits, fun _ => hst, hold.single⟩
    · exact ⟨rfl, rfl, rfl, rfl, update_of_ne hq ..⟩
    · rw [hself]
      trivial
    · rw [hself]
      exact .inl rfl

theorem afterStop_goto (k : Stopper) (pc : Pc) :
    ControllerThreads.afterStop i k r (s.goto i pc) = ControllerThreads.afterStop i k r s := by
  have hthreads : Function.update (Function.update s.threads i pc) i
      = Function.update s.threads i := by
    funext pc'
    exact update_idem ..
  cases k with
  | stop | shutdown => simp only [ControllerThreads.afterStop, System.goto, hthreads]

/-- The latch is done; the thread that set it goes on. -/
theorem Inv.leave (h : Inv s) (hpc : s.threads i = .leaving k r) : Inv (leaveOnce i k r s) := by
  have hold := h.records r
  have hmine := h.threads i
  rw [hpc] at hmine
  obtain ⟨hlt, honce, hst⟩ := hmine
  have hnone := h.others_outside (i := i) (r := r) (by rw [hpc]; rfl)
  have hrec : ((s.modify r (setOnce .done)).goto i .idle).server.records r
      = setOnce .done (s.server.records r) := records_modify_self ..
  have hself : ((s.modify r (setOnce .done)).goto i .idle).threads i = .idle := update_self ..
  -- first the latch is set and the thread is out of `Do`, then it goes on
  have hmid : Inv ((s.modify r (setOnce .done)).goto i .idle) := by
    refine h.update (worksOn_modify h rfl fun hs => hs) hlt ?_ ?_ (.inl hnone)
      ⟨?_, ?_, ?_, ?_, ?_, ?_, hold.single⟩
    · rw [hself]
      trivial
    · rw [hself]
      exact .inl rfl
    · rw [hrec]
      exact fun hf => by cases hf
    · rw [hrec]
      exact fun _ => hst
    · rw [hrec]
      exact hold.published
    · rw [hrec]
      exact hold.closes
    · rw [hrec]
      exact hold.waits
    · rw [hrec]
      exact hold.stops
  rw [leaveOnce, ← afterStop_goto k .idle]
  exact hmid.afterStop hlt (by rw [hrec]; exact hst)

theorem Inv.delete (h : Inv s) (hpc : s.threads i = .deleting r) : Inv (deleteRecord i r s) := by
  have hold := h.records r
  have hmine := h.threads i
  rw [hpc] at hmine
  have hself : (deleteRecord i r s).threads i = .idle := update_self ..
  refine h.update (i := i) (r := r) ⟨rfl, named_delete h.named r, fun _ _ => ⟨rfl, rfl, rfl, rfl, rfl⟩,
    fun j hj => update_of_ne hj .., fun hs => hs⟩ hmine.1 ?_ ?_
    (.inr ⟨rfl, rfl, rfl, rfl⟩)
    ⟨hold.fresh, hold.done, hold.published, hold.closes, hold.waits, hold.stops, hold.single⟩
  · rw [hself]
    trivial
  · rw [hself]
    exact .inl rfl

/-- A `Wait` that returns reads the exit data of a stopped record. -/
theorem Inv.returnWait (h : Inv s) (hpc : s.threads i = .received r) : Inv (returnWait i r s) := by
  have hold := h.records r
  have hmine := h.threads i
  rw [hpc] at hmine
  have hself : (ControllerThreads.returnWait i r s).threads i = .idle := update_self ..
  refine h.update (i := i) (r := r) ⟨rfl, h.named, fun q hq => ?_,
    fun j hj => update_of_ne hj .., fun hs => hs⟩ hmine.1 ?_ ?_
    (.inr ⟨rfl, rfl, rfl, rfl⟩)
    ⟨hold.fresh, hold.done, hold.published, hold.closes, ?_, hold.stops, hold.single⟩
  · exact ⟨rfl, rfl, rfl, update_of_ne hq .., rfl⟩
  · rw [hself]
    trivial
  · rw [hself]
    exact .inl rfl
  · intro v hv
    have hv' : v ∈ Function.update s.waits r _ r := hv
    rw [update_self] at hv'
    rcases List.mem_append.mp hv' with hv' | hv'
    · exact hold.waits v hv'
    · rw [List.mem_singleton.mp hv']
      exact ⟨hmine.2, rfl⟩

/-- A new record gets an address that nobody holds. -/
theorem Inv.create (h : Inv s) {req : CreateRequest} (hid : req.sandboxId ≠ "") :
    Inv { s with server := s.server.add req } := by
  obtain ⟨hfresh, hwaits, hstops⟩ := h.unborn s.server.next (Nat.le_refl _)
  obtain ⟨hst, hbod⟩ := (h.records s.server.next).fresh hfresh
  have hclo := (h.records s.server.next).closes
  rw [hst] at hclo
  have hsame : ∀ r, r ≠ s.server.next → SameAt s { s with server := s.server.add req } r :=
    fun r hr => ⟨records_add_of_ne hr, rfl, rfl, rfl, rfl⟩
  refine ⟨named_add h.named hid, fun j => ?_, h.unique, fun r => ?_, fun r hr => ?_⟩
  · refine (h.threads j).same (Nat.le_succ _) fun r hr => (hsame r ?_).stopSame
    exact Nat.ne_of_lt ((h.threads j).about_lt hr)
  · by_cases hr : r = s.server.next
    · subst hr
      have hrec : (s.server.add req).records s.server.next = newRecord req :=
        ControllerServer.records_add_self ..
      refine ⟨?_, ?_, ?_, ?_, ?_, ?_, (h.records s.server.next).single⟩
      · exact fun _ => ⟨by rw [hrec]; rfl, hbod⟩
      · rw [hrec]
        exact fun hd => by cases hd
      · rw [hrec]
        exact fun hs => by cases hs
      · rw [hrec]
        exact hclo
      · dsimp only
        rw [hwaits]
        exact fun v hv => by cases hv
      · dsimp only
        rw [hstops]
        exact fun hs => by cases hs
    · exact (h.records r).same (hsame r hr)
  · have hlt : s.server.next < r := hr
    rw [(hsame r (Nat.ne_of_gt hlt)).record]
    exact h.unborn r (Nat.le_of_lt hlt)

theorem inv_step (h : Inv s) (hs : step s l = some s') : Inv s' := by
  have hmove := move_of_step h.named.nonempty hs
  cases hmove with
  | failed hpc => exact h
  | created req hpc hid hnew => exact h.create hid
  | lookedUp id rpc r hpc hr =>
    have hlt := h.named.made id r hr
    exact h.goto hlt hlt rfl
  | touched rpc r g hpc hg => exact h.touch hg (h.found_lt hpc)
  | returned rpc r hpc => exact h.goto (h.found_lt hpc) trivial rfl
  | received r hpc hst => exact h.goto (h.found_lt hpc) ⟨h.found_lt hpc, hst⟩ rfl
  | entered k rpc r hpc honce => exact h.enter (h.found_lt hpc) honce
  | passed k rpc r hpc honce =>
    exact h.afterStop (h.found_lt hpc) ((h.records r).done honce)
  | recorded k r now hpc => exact h.record now hpc
  | closed k r hpc => exact h.close hpc
  | left k r hpc => exact h.leave hpc
  | deleted r hpc => exact h.delete hpc
  | waited r hpc => exact h.returnWait hpc

end Steps

/-! ## Records leave the map -/

/-- A record that leaves the map was stopped before, and the thread that removes it is a
    `Shutdown` that had found it. -/
def RemovedByFinder (s : System) (l : Nat × Action) (s' : System) : Prop :=
  ∀ id r, s.server.sandboxes id = some r → s'.server.sandboxes id ≠ some r →
    (s.server.records r).stopped = true ∧ s.threads l.1 = .deleting r

/-- A `Shutdown` deletes an id only while the map has, under that id, the record it had
    found, or nothing. -/
def DeletesOwn (s : System) (l : Nat × Action) (_ : System) : Prop :=
  ∀ r, s.threads l.1 = .deleting r →
    s.server.sandboxes (s.server.records r).id = some r
      ∨ s.server.sandboxes (s.server.records r).id = none

section Removal

variable {s s' : System} {i : Nat}

/-- Only the last section of `Shutdown` takes something out of the map. -/
theorem removed_cases (hmove : Move s i s') {q : Nat} (hq : s.server.sandboxes id = some q)
    (hgone : s'.server.sandboxes id ≠ some q) :
    ∃ r, s.threads i = .deleting r ∧ (s.server.records r).id = id := by
  cases hmove with
  | created req hpc hid hnew =>
    refine absurd ?_ hgone
    show (s.server.add req).sandboxes id = some q
    rw [sandboxes_add, update_of_ne ?_]
    · exact hq
    · rintro rfl
      cases hnew.symm.trans hq
  | deleted r hpc =>
    refine ⟨r, hpc, ?_⟩
    by_contra hne
    refine hgone ?_
    show (s.server.delete r).sandboxes id = some q
    rw [sandboxes_delete, update_of_ne (Ne.symm hne)]
    exact hq
  | passed k | left k => cases k <;> exact absurd hq hgone
  | _ => exact absurd hq hgone

/-- The section of `Shutdown` leaves nothing under the id. -/
theorem deleted_of_deleting (hmove : Move s i s') (hpc : s.threads i = .deleting r) :
    s'.server.sandboxes (s.server.records r).id = none := by
  cases hmove with
  | deleted q hq =>
    cases hpc.symm.trans hq
    show (s.server.delete r).sandboxes _ = none
    rw [sandboxes_delete, update_self]
  | failed hq | created req hq | lookedUp id rpc q hq | touched rpc q g hq | returned rpc q hq
  | received q hq | entered k rpc q hq | passed k rpc q hq | recorded k q now hq | closed k q hq
  | left k q hq | waited q hq => cases hpc.symm.trans hq

theorem removed_iff (h : Inv s) (hs : step s l = some s') :
    RemovedByFinder s l s' ↔ DeletesOwn s l s' := by
  have hmove := move_of_step h.named.nonempty hs
  constructor
  · intro hrem r hpc
    cases hq : s.server.sandboxes (s.server.records r).id with
    | none => exact .inr rfl
    | some q =>
      have hgone : s'.server.sandboxes (s.server.records r).id ≠ some q := by
        rw [deleted_of_deleting hmove hpc]
        simp
      cases hpc.symm.trans (hrem _ q hq hgone).2
      exact .inl rfl
  · intro hown id q hq hgone
    obtain ⟨r, hpc, rfl⟩ := removed_cases hmove hq hgone
    have hqr : q = r := by
      rcases hown r hpc with hr | hnone
      · exact some.inj (hq.symm.trans hr)
      · cases hq.symm.trans hnone
    subst hqr
    have hok := h.threads l.1
    rw [hpc] at hok
    exact ⟨hok.2, hpc⟩

end Removal

/-! ## Which calls overlap -/

/-- What a step does to the map, or that its thread looks a record up. -/
inductive MapEvent where
  | lookedUp (i : Nat)
  | created (id : String)
  | removed (id : String)

/-- The observer of a run. -/
def mapEvent (s : System) (l : Nat × Action) : Option MapEvent :=
  match l.2 with
  | .call (.create req) =>
    if req.sandboxId ≠ "" ∧ s.server.sandboxes req.sandboxId = none then
      some (.created req.sandboxId)
    else none
  | .call (.on _ _) => some (.lookedUp l.1)
  | .advance _ =>
    match s.threads l.1 with
    | .deleting r => some (.removed (s.server.records r).id)
    | _ => none
  | .contextDone => none

/-- Since thread `i` has looked its record up, a `Create` of the id has succeeded, and no
    delete under the id has followed it. -/
def createdSince (i : Nat) (id : String) : List MapEvent → Bool
  | [] => false
  | .lookedUp j :: seen => if j = i then false else createdSince i id seen
  | .created id' :: seen => if id' = id then true else createdSince i id seen
  | .removed id' :: seen => if id' = id then false else createdSince i id seen

/-- No `Create` of the same id comes between the lookup of a `Shutdown` and its delete,
    unless its sandbox is gone again by then. -/
def NoCreateBetween (q : System × List MapEvent) (l : Nat × Action)
    (_ : System × List MapEvent) : Prop :=
  ∀ r, q.1.threads l.1 = .deleting r → createdSince l.1 (q.1.server.records r).id q.2 = false

/-- For the threads in an RPC the past says whether the id has another record by now. -/
def PastKnown (s : System) (seen : List MapEvent) : Prop :=
  ∀ i r, about (s.threads i) = some r →
    (createdSince i (s.server.records r).id seen = true
      ↔ ∃ q, q ≠ r ∧ s.server.sandboxes (s.server.records r).id = some q)

section Overlap

variable {s s' : System} {i : Nat} {seen : List MapEvent}

theorem PastKnown.keep (h : PastKnown s seen)
    (hmap : s'.server.sandboxes = s.server.sandboxes)
    (hid : ∀ r, (s'.server.records r).id = (s.server.records r).id)
    (habout : ∀ j r, about (s'.threads j) = some r → about (s.threads j) = some r) :
    PastKnown s' seen := by
  intro j r hj
  rw [hmap, hid]
  exact h j r (habout j r hj)

/-- A thread goes on with its record, or is done with it. -/
theorem about_goto (hpc : about pc = none ∨ about pc = about (s.threads i)) :
    ∀ j r, about (Function.update s.threads i pc j) = some r → about (s.threads j) = some r := by
  intro j r hj
  by_cases hji : j = i
  · rw [hji, update_self] at hj
    rcases hpc with hnone | hsame
    · cases hnone.symm.trans hj
    · rw [hji]
      exact hsame.symm.trans hj
  · rwa [update_of_ne hji] at hj

theorem id_modify (hg : ∀ rec, (g rec).id = rec.id) (q : Nat) :
    ((s.server.modify r g).records q).id = (s.server.records q).id := by
  by_cases hq : q = r
  · rw [hq, records_modify_self, hg]
  · rw [records_modify_of_ne hq]

/-- The sections of an RPC before its delete leave the map and the ids alone. -/
theorem PastKnown.advance (h : PastKnown s seen) (hmove : Move s i s')
    (hbusy : s.threads i ≠ .idle) (hdel : ∀ r, s.threads i ≠ .deleting r) :
    PastKnown s' seen := by
  have hleave := fun pc (hpc : about pc = none) => about_goto (s := s) (i := i) (.inl hpc)
  have hstay := fun pc (hpc : about pc = about (s.threads i)) =>
    about_goto (s := s) (i := i) (.inr hpc)
  cases hmove with
  | failed hpc | created req hpc | lookedUp id rpc r hpc => exact absurd hpc hbusy
  | deleted r hpc => exact absurd hpc (hdel r)
  | touched rpc r g hpc hg => exact h.keep rfl (id_modify hg.id) (hleave _ rfl)
  | returned rpc r hpc | waited r hpc => exact h.keep rfl (fun _ => rfl) (hleave _ rfl)
  | received r hpc hst => exact h.keep rfl (fun _ => rfl) (hstay _ (by rw [hpc]; rfl))
  | entered k rpc r hpc | recorded k r now hpc | closed k r hpc =>
    exact h.keep rfl (id_modify fun _ => rfl) (hstay _ (by rw [hpc]; rfl))
  | passed k rpc r hpc honce =>
    cases k with
    | stop => exact h.keep rfl (fun _ => rfl) (hleave _ rfl)
    | shutdown => exact h.keep rfl (fun _ => rfl) (hstay _ (by rw [hpc]; rfl))
  | left k r hpc =>
    cases k with
    | stop => exact h.keep rfl (id_modify fun _ => rfl) (hleave _ rfl)
    | shutdown => exact h.keep rfl (id_modify fun _ => rfl) (hstay _ (by rw [hpc]; rfl))

/-- A successful `Create` is a new record for whoever works on an older one of the id. -/
theorem PastKnown.add (h : PastKnown s seen) (hinv : Inv s) (req : CreateRequest) :
    PastKnown { s with server := s.server.add req } (.created req.sandboxId :: seen) := by
  intro j r hj
  have hlt : r < s.server.next := (hinv.threads j).about_lt hj
  show createdSince j ((s.server.add req).records r).id _ = true
    ↔ ∃ q, q ≠ r ∧ (s.server.add req).sandboxes ((s.server.add req).records r).id = some q
  rw [records_add_of_ne (Nat.ne_of_lt hlt), sandboxes_add,
    createdSince]
  by_cases hid : req.sandboxId = (s.server.records r).id
  · rw [if_pos hid, hid, update_self]
    exact ⟨fun _ => ⟨_, Nat.ne_of_gt hlt, rfl⟩, fun _ => rfl⟩
  · rw [if_neg hid, update_of_ne (Ne.symm hid)]
    exact h j r hj

/-- After a lookup the id has the record that was found. -/
theorem PastKnown.lookup (h : PastKnown s seen) (hinv : Inv s)
    (hr : s.server.sandboxes id = some r) :
    PastKnown (s.goto i (.found rpc r)) (.lookedUp i :: seen) := by
  intro j q hj
  rw [createdSince]
  by_cases hji : j = i
  · subst hji
    obtain rfl : r = q := by
      change about (Function.update s.threads j (.found rpc r) j) = some q at hj
      rw [update_self] at hj
      exact some.inj hj
    show _ ↔ ∃ q, q ≠ r ∧ s.server.sandboxes (s.server.records r).id = some q
    rw [if_pos rfl, hinv.named.named id r hr, hr]
    simp [eq_comm]
  · rw [if_neg (Ne.symm hji)]
    exact h j q ((congrArg about (update_of_ne hji ..)).symm.trans hj)

/-- A delete leaves nothing under the id. -/
theorem PastKnown.delete (h : PastKnown s seen) (r : Nat) :
    PastKnown (deleteRecord i r s) (.removed (s.server.records r).id :: seen) := by
  intro j q hj
  have hold : about (s.threads j) = some q := about_goto (.inl rfl) j q hj
  show createdSince j (s.server.records q).id _ = true
    ↔ ∃ x, x ≠ q ∧ (s.server.delete r).sandboxes (s.server.records q).id = some x
  rw [createdSince, sandboxes_delete]
  by_cases hid : (s.server.records r).id = (s.server.records q).id
  · rw [if_pos hid, hid, update_self]
    simp
  · rw [if_neg hid, update_of_ne (Ne.symm hid)]
    exact h j q hold

theorem pastKnown_step (h : PastKnown s seen) (hinv : Inv s) (hs : step s l = some s') :
    PastKnown s' ((mapEvent s l).toList ++ seen) := by
  obtain ⟨i, act⟩ := l
  unfold step at hs
  cases act with
  | call c =>
    cases hpc : s.threads i with
    | idle =>
      -- a failed lookup changes nothing, and its thread works on no record
      have hidle : PastKnown s (.lookedUp i :: seen) := by
        intro j r hj
        have hji : i ≠ j := by
          rintro rfl
          rw [hpc] at hj
          cases hj
        rw [createdSince, if_neg hji]
        exact h j r hj
      rw [hpc] at hs
      cases c with
      | create req =>
        cases hs
        rw [mapEvent]
        dsimp only
        by_cases hok : req.sandboxId ≠ "" ∧ s.server.sandboxes req.sandboxId = none
        · rw [if_pos hok, ControllerServer.create, if_neg hok.1, hok.2]
          exact h.add hinv req
        · rw [if_neg hok, ControllerServer.create]
          split
          · exact h
          · split
            · exact h
            · rename_i hid _ hnew
              exact absurd ⟨hid, hnew⟩ hok
      | on id rpc =>
        dsimp only at hs
        cases hget : s.server.get id with
        | error e =>
          rw [hget] at hs
          cases hs
          exact hidle
        | ok r =>
          rw [hget] at hs
          cases hs
          exact h.lookup hinv ((get_eq_ok hinv.named.nonempty).mp hget)
    | _ => rw [hpc] at hs; cases hs
  | advance now =>
    have hmove : Move s i s' := move_of_advance hs
    cases hpc : s.threads i with
    | deleting r =>
      rw [mapEvent]
      dsimp only
      rw [hpc]
      cases hmove with
      | deleted q hq =>
        cases hpc.symm.trans hq
        exact h.delete r
      | failed hq | created req hq | lookedUp id rpc q hq | touched rpc q g hq
      | returned rpc q hq | received q hq | entered k rpc q hq | passed k rpc q hq
      | recorded k q now hq | closed k q hq | left k q hq | waited q hq =>
        cases hpc.symm.trans hq
    | idle =>
      unfold advance at hs
      rw [hpc] at hs
      cases hs
    | found | inOnce | closing | leaving | received =>
      rw [mapEvent]
      dsimp only
      rw [hpc]
      exact h.advance hmove (by rw [hpc]; simp) (by rw [hpc]; simp)
  | contextDone =>
    dsimp only at hs
    split at hs
    · cases hs
      exact h.keep rfl (fun _ => rfl) (about_goto (.inl rfl))
    · cases hs

/-- A `Shutdown` deletes its own record or nothing exactly if no `Create` came between. -/
theorem noCreateBetween_iff {q q' : System × List MapEvent} (h : PastKnown q.1 q.2) :
    NoCreateBetween q l q' ↔ DeletesOwn q.1 l q'.1 := by
  refine forall₂_congr fun r hpc => ?_
  have hiff := h l.1 r (by rw [hpc]; rfl)
  rw [← Bool.not_eq_true, hiff]
  cases q.1.server.sandboxes (q.1.server.records r).id with
  | none => simp
  | some x => simp [eq_comm]

theorem deletesOwn_moves_iff (pid : UInt32) (ls : List (Nat × Action)) :
    Moves step DeletesOwn (start pid) ls
      ↔ Moves (recorded step mapEvent) NoCreateBetween (start pid, []) ls := by
  rw [← moves_recorded (o := mapEvent) []]
  refine moves_iff (I := fun q : System × List MapEvent => Inv q.1 ∧ PastKnown q.1 q.2)
    (fun q l q' h _ => (noCreateBetween_iff h.2).symm) (fun q l q' h hs _ => ?_)
    ⟨inv_start pid, fun _ _ hi => by cases hi⟩
  obtain ⟨s', hstep, rfl⟩ := map_eq_some_iff.mp hs
  exact ⟨inv_step h.1 hstep, pastKnown_step h.2 h.1 hstep⟩

end Overlap

/-- **RECORDS ARE REMOVED BY THE SHUTDOWN THAT FOUND THEM** in exactly the runs in which no
    `Shutdown` deletes an id that has another record by then, for any number of threads
    and any interleaving; and those are the runs in which no `Create` of the id comes between
    the lookup of a `Shutdown` and its delete and leaves its sandbox there. -/
theorem removed_by_finder_iff (pid : UInt32) (ls : List (Nat × Action)) :
    (Moves step RemovedByFinder (start pid) ls ↔ Moves step DeletesOwn (start pid) ls)
      ∧ (Moves step DeletesOwn (start pid) ls
        ↔ Moves (recorded step mapEvent) NoCreateBetween (start pid, []) ls) := by
  refine ⟨?_, deletesOwn_moves_iff pid ls⟩
  exact moves_iff (m := step) (I := Inv) (fun _ _ _ h hs => removed_iff h hs)
    (fun _ _ _ h hs _ => inv_step h hs) (inv_start pid)

/-- Two `Shutdown`s find one sandbox.  One of them finishes, the sandbox is created anew, and
    then the other one finishes. -/
def lateDelete : List (Nat × Action) :=
  [(2, .call (.create ⟨"a", "", "", 0, 0, none⟩)), (0, .call (.on "a" .shutdown)),
    (1, .call (.on "a" .shutdown)), (1, .advance 1), (1, .advance 2), (1, .advance 3),
    (1, .advance 4), (1, .advance 5), (2, .call (.create ⟨"a", "", "", 0, 0, none⟩)),
    (0, .advance 6)]

/-- The second sandbox is in the map and was never stopped; the next step of the late
    `Shutdown` removes it. -/
theorem late_delete_removes_new_sandbox :
    ∃ s s', exec step (start 7) lateDelete = some s ∧ s.server.sandboxes "a" = some 1
      ∧ s.threads 0 = .deleting 0 ∧ (s.server.records 1).stopped = false
      ∧ step s (0, .advance 7) = some s' ∧ s'.server.sandboxes "a" = none
      ∧ ¬ RemovedByFinder s (0, .advance 7) s' := by
  refine ⟨(exec step (start 7) lateDelete).getD (start 7),
    ((exec step (start 7) lateDelete).bind fun s => step s (0, .advance 7)).getD (start 7),
    rfl, rfl, rfl, rfl, rfl, rfl, fun h => ?_⟩
  have hstopped := (h "a" 1 rfl (fun heq => by cases heq)).1
  cases hstopped

/-! ## All waiters agree -/

/-- A thread in a `Wait` on the record. -/
def waiting : Pc → Option Nat
  | .found .wait r => some r
  | .received r => some r
  | _ => none

/-- What holds of every record: its channel is closed at most once; the responses of `Wait`
    are all the exit data of the one body of `stopRecord` that ran, and the channel is
    closed by then; and after a `Stop` has returned every `Wait` can return, by its own
    steps. -/
structure WaitersAgree (s : System) : Prop where
  closedOnce : ∀ r, s.closes r ≤ 1
  oneBody : ∀ r, (s.bodies r).length ≤ 1
  agree : ∀ r v, v ∈ s.waits r → (s.server.records r).stopped = true ∧ s.bodies r = [v]
  released : ∀ i r, s.stops r = true → waiting (s.threads i) = some r →
    ∃ n s', exec step s (List.replicate n (i, .advance 0)) = some s' ∧ s'.threads i = .idle
      ∧ s'.waits r = s.waits r ++ [exitData (s.server.records r)]

/-- A `Wait` returns a response only when the channel is closed. -/
def ReturnsAfterClose (s : System) (_ : Nat × Action) (s' : System) : Prop :=
  ∀ r, s'.waits r ≠ s.waits r → s.closes r = 1 ∧ (s.server.records r).stopped = true

section Waiters

variable {s s' : System} {i r : Nat}

theorem Inv.closes_of_stopped (h : Inv s) (hst : (s.server.records r).stopped = true) :
    s.closes r = 1 := by
  rw [(h.records r).closes, hst]
  rfl

/-- Only the last section of `Wait` makes a response. -/
theorem waits_cases (hmove : Move s i s') (hne : s'.waits r ≠ s.waits r) :
    s.threads i = .received r := by
  cases hmove with
  | waited q hpc =>
    have hqr : r = q := by
      by_contra hrq
      exact hne (update_of_ne hrq ..)
    rw [hqr]
    exact hpc
  | passed k | left k => cases k <;> exact absurd rfl hne
  | _ => exact absurd rfl hne

theorem returns_after_close (h : Inv s) (hs : step s l = some s') : ReturnsAfterClose s l s' := by
  intro r hne
  have hpc := waits_cases (move_of_step h.named.nonempty hs) hne
  have hok := h.threads l.1
  rw [hpc] at hok
  exact ⟨h.closes_of_stopped hok.2, hok.2⟩

/-- A `Wait` past its `select` returns in one step. -/
theorem return_received (hpc : s.threads i = .received r) :
    ∃ s', Alone s i 0 s' ∧ s'.threads i = .idle
      ∧ s'.waits r = s.waits r ++ [exitData (s.server.records r)] := by
  refine ⟨returnWait i r s, .one ?_, update_self .., update_self ..⟩
  unfold advance
  rw [hpc]

/-- A `Wait` on a stopped record can return. -/
theorem can_return (hst : (s.server.records r).stopped = true)
    (hwait : waiting (s.threads i) = some r) :
    ∃ s', Alone s i 0 s' ∧ s'.threads i = .idle
      ∧ s'.waits r = s.waits r ++ [exitData (s.server.records r)] := by
  cases hpc : s.threads i with
  | received q =>
    rw [hpc] at hwait
    cases hwait
    exact return_received hpc
  | found rpc q =>
    rw [hpc] at hwait
    cases rpc with
    | wait =>
      cases hwait
      have hgo : advance s i 0 = some (s.goto i (.received r)) := by
        unfold advance
        rw [hpc]
        dsimp only
        rw [if_pos hst]
      obtain ⟨s', halone, hidle, hwaits⟩ :=
        return_received (s := s.goto i (.received r)) (i := i) (update_self ..)
      exact ⟨s', (Alone.one hgo).trans halone, hidle, hwaits⟩
    | _ => cases hwait
  | _ => rw [hpc] at hwait; cases hwait

theorem Inv.waitersAgree (h : Inv s) : WaitersAgree s where
  closedOnce r := by
    rw [(h.records r).closes]
    split <;> simp
  oneBody r := (h.records r).single
  agree r v hv := by
    obtain ⟨hst, rfl⟩ := (h.records r).waits v hv
    exact ⟨hst, (h.records r).published hst⟩
  released i r hstop hwait := by
    obtain ⟨s', ⟨n, hn⟩, hidle, hwaits⟩ := can_return ((h.records r).stops hstop) hwait
    exact ⟨n, s', hn, hidle, hwaits⟩

end Waiters

/-- **ALL WAITERS AGREE.**  For any number of threads and any interleaving of their steps,
    in every state and at every step of every run. -/
theorem waiters_agree (pid : UInt32) (ls : List (Nat × Action)) :
    States step WaitersAgree (start pid) ls ∧ Moves step ReturnsAfterClose (start pid) ls := by
  refine ⟨states_of_step (I := Inv) (fun _ h => h.waitersAgree)
    (fun _ _ _ h hs => inv_step h hs) (inv_start pid) ls, ?_⟩
  exact moves_of_inv (I := Inv) (G := fun _ _ _ => True)
    (fun _ _ _ h hs _ => ⟨inv_step h hs, returns_after_close h hs⟩) ls (start pid)
    (inv_start pid) (moves_true (start pid) ls)

end ControllerThreads
