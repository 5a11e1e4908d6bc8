import DemoStore.PoolThreadsProofs

/-! # What the page pool is at every moment

    The invariant of the threads read as what the pool is for: one entry for a hash, a
    count that is the number of references that are out, and nothing freed that anyone
    holds.  Alone, a thread does what the sequential functions do; the last section
    shows where the machine words end. -/

namespace PoolThreads

open ObjectHeap SnapshotDriver PoolSection MachineRun List Option
open Function (update update_idem update_of_ne update_self)

variable {s s' : ThreadState}

/-! ## The pool at every moment -/

/-- The references of an entry that the threads hold. -/
def outstanding (s : ThreadState) (e : Nat) : Nat := s.refs.countP fun r => r.2 == e

/-- The counts fit their machine words. -/
def Within (s : ThreadState) : Prop :=
  (∀ e, outstanding s e < 2 ^ 31) ∧ (linkedEntries s.core).card < 2 ^ 64

/-- What holds at every moment.  An entry that is neither linked nor in the hands of a
    running call is freed, and so is its page. -/
structure PoolCorrect (s : ThreadState) : Prop where
  onePerHash : ∀ b b' e e', e ∈ s.core.pool.buckets b → e' ∈ s.core.pool.buckets b' →
    (s.core.entries.val e).hashIdx = (s.core.entries.val e').hashIdx → e = e'
  linkedOnce : ∀ b, (s.core.pool.buckets b).Nodup
  inBucket : ∀ b, ∀ e ∈ s.core.pool.buckets b,
    (s.core.entries.val e).hashIdx.toNat % poolBucketCount = b
  total : s.core.pool.totalPages.toNat = (linkedEntries s.core).card
  counted : ∀ b, ∀ e ∈ s.core.pool.buckets b, 0 < (s.core.entries.val e).refCount.toInt
    ∧ (s.core.entries.val e).refCount.toInt = outstanding s e
  handedOut : ∀ i e, (i, e) ∈ s.refs →
    Linked s.core e ∧ s.core.entries.live e = true ∧ (s.core.entries.val e).pageRefs = 1
  freed : ∀ e < s.core.entries.next, ¬ Linked s.core e →
    (∀ i n, (s.pcs i).owned ≠ some (e, n)) →
    s.core.entries.live e = false ∧ (s.core.entries.val e).pageRefs = 0
  goesOn : ∀ i, s.pcs i ≠ .idle → ∀ ok, ∃ s', poolStep s (i, .go ok) = some s'

/-- The hash that a step looks for under the lock. -/
def Wants (s : ThreadState) (l : Nat × Action) (h : UInt64) : Prop :=
  l.2 = .lookup h ∨ (∃ data, l.2 = .add h data) ∨ ∃ e, s.pcs l.1 = .filled h e

/-- What a step does.  A thread that wants a hash of which another one holds the entry
    obtains that entry; if it has built an entry of its own, that one and its page are
    freed before its call returns. -/
structure StepCorrect (s : ThreadState) (l : Nat × Action) (s' : ThreadState) : Prop where
  noWrap : s'.core.pool.totalPages.toNat = s.core.pool.totalPages.toNat
    ∨ s'.core.pool.totalPages.toNat = s.core.pool.totalPages.toNat + 1
    ∨ s'.core.pool.totalPages.toNat + 1 = s.core.pool.totalPages.toNat
  stays : ∀ e, Linked s.core e → Linked s'.core e ∨ (l.2 = .unref e ∧ outstanding s e = 1)
  sameEntry : ∀ h, Wants s l h → ∀ j x, (j, x) ∈ s.refs →
    (s.core.entries.val x).hashIdx = h → s'.refs = (l.1, x) :: s.refs
  lost : ∀ h e, s.pcs l.1 = .filled h e →
    (Linked s'.core e ∧ s'.refs = (l.1, e) :: s.refs ∧ s'.pcs l.1 = .idle)
      ∨ ∃ x, s'.refs = (l.1, x) :: s.refs ∧ s'.pcs l.1 = .lost e x
  pageFreed : ∀ e x, s.pcs l.1 = .lost e x →
    (s'.core.entries.val e).pageRefs = 0 ∧ s'.pcs l.1 = .lostPage e x
  entryFreed : ∀ e x, s.pcs l.1 = .lostPage e x →
    s'.core.entries.live e = false ∧ (s'.core.entries.val e).pageRefs = 0
      ∧ (l.1, x) ∈ s'.refs ∧ s'.pcs l.1 = .idle

variable {i e n : Nat} {a : Action} {h : UInt64} {d : DriverState}

/-- How a step moves the references. -/
theorem refs_of_move (hmove : PoolMove s i a s') :
    s'.refs = s.refs ∨ (∃ x, s'.refs = (i, x) :: s.refs)
      ∨ ∃ x, a = .unref x ∧ (i, x) ∈ s.refs ∧ s'.refs = s.refs.erase (i, x) := by
  cases hmove with
  | hit a h e ha hpc hfind | win ok h e hpc hfind => exact .inr (.inl ⟨e, rfl⟩)
  | lose ok h e x hpc hfind => exact .inr (.inl ⟨x, rfl⟩)
  | unref e hpc hmem | unrefLast e hpc hmem => exact .inr (.inr ⟨e, rfl, hmem, rfl⟩)
  | _ => exact .inl rfl

theorem count_zero (s : ThreadState) : count s.refs (fun _ => 0) = outstanding s :=
  funext fun _ => Nat.add_zero _

/-- The linked entries are those with references. -/
theorem Inv.mem_linkedEntries {extra : Nat → Nat} (h : Inv s extra) (e : Nat) :
    e ∈ linkedEntries s.core ↔ 0 < count s.refs extra e := by
  rw [linkedEntries, Finset.mem_filter, Finset.mem_range]
  constructor
  · rintro ⟨-, he⟩
    exact (h.pool.counts e he).2
  · intro hpos
    have he := h.pool.linked_of_pos hpos
    exact ⟨h.pool.below e he, he⟩

/-- A call in progress can take its next step. -/
theorem go_enabled (s : ThreadState) (hpc : s.pcs i ≠ .idle) (ok : Bool) :
    ∃ s', poolStep s (i, .go ok) = some s' := by
  rw [poolStep]
  dsimp only
  cases hp : s.pcs i with
  | idle => exact absurd hp hpc
  | checked | gotEntry => cases ok <;> exact ⟨_, rfl⟩
  | filled h e =>
    rw [pcStep]
    cases find s.core h <;> exact ⟨_, rfl⟩
  | _ => exact ⟨_, rfl⟩

/-- **The invariant says what the pool has to be.** -/
theorem Inv.correct (h : Inv s fun _ => 0) (hwithin : Within s) : PoolCorrect s := by
  obtain ⟨hrefs, hcard⟩ := hwithin
  have hlinked : ∀ b, ∀ e ∈ s.core.pool.buckets b, Linked s.core e :=
    fun b e he => h.pool.linked_iff.mpr ⟨b, he⟩
  refine ⟨?_, h.pool.nodup, h.pool.inPlace, ?_, ?_, ?_, ?_, fun i => go_enabled s⟩
  · intro b b' e e' he he' hhash
    exact h.pool.unique e e' (hlinked b e he) (hlinked b' e' he') hhash
  · rw [h.pool.total, BitVec.toNat_ofNat]
    exact Nat.mod_eq_of_lt hcard
  · intro b e he
    obtain ⟨hcount, hpos⟩ := h.pool.counts e (hlinked b e he)
    rw [count_zero] at hcount hpos
    have hlt := hrefs e
    have hint : (s.core.entries.val e).refCount.toInt = outstanding s e := by
      rw [BitVec.toInt_eq_toNat_cond, hcount, if_pos (by omega)]
    rw [hint]
    exact ⟨by omega, rfl⟩
  · intro i e hmem
    have he := h.pool.linked_of_pos (count_pos (fun _ => 0) hmem)
    refine ⟨he, h.pool.live e he, ?_⟩
    rw [h.pages e he]
    rfl
  · intro e hlt hnot hown
    have hdead : s.core.entries.live e = false := by
      by_contra hlive
      rcases h.accounted e hlt (Bool.eq_true_of_not_eq_false hlive) with hl | ⟨i, n, hn⟩
      · exact hnot hl
      · exact hown i n hn
    exact ⟨hdead, h.freed e hlt hdead⟩

/-- The re-check of `snapshot_pool_add`. -/
theorem step_filled (hpc : s.pcs i = .filled h e) (hstep : poolStep s (i, a) = some s') :
    (∃ x, find s.core h = some x ∧ s' = s.take i x (.lost e x) (incRef s.core x))
      ∨ (find s.core h = none ∧ s' = s.take i e .idle (link s.core e)) := by
  rw [poolStep] at hstep
  dsimp only at hstep
  rw [hpc] at hstep
  cases a with
  | go ok =>
    rw [pcStep] at hstep
    cases hfind : find s.core h with
    | none =>
      rw [hfind] at hstep
      exact .inr ⟨rfl, (some.inj hstep).symm⟩
    | some x =>
      rw [hfind] at hstep
      exact .inl ⟨x, rfl, (some.inj hstep).symm⟩
  | _ => cases hstep

section StepLemmas

variable {i : Nat} {a : Action}

/-- **The sets of linked entries before and after a step** differ in one entry at
    most. -/
theorem Inv.card_step (h : Inv s fun _ => 0) (h' : Inv s' fun _ => 0)
    (hmove : PoolMove s i a s') :
    (linkedEntries s'.core).card = (linkedEntries s.core).card
      ∨ (linkedEntries s'.core).card = (linkedEntries s.core).card + 1
      ∨ (linkedEntries s'.core).card + 1 = (linkedEntries s.core).card := by
  have hmem := h.mem_linkedEntries
  have hmem' := h'.mem_linkedEntries
  rcases refs_of_move hmove with hsame | ⟨x, hcons⟩ | ⟨x, -, hin, herase⟩
  · refine .inl (congrArg Finset.card ?_)
    ext e
    rw [hmem', hmem, hsame]
  · have hset : linkedEntries s'.core = insert x (linkedEntries s.core) := by
      ext e
      rw [Finset.mem_insert, hmem', hmem, hcons, count_cons]
      by_cases hex : e = x
      · rw [hex, update_self]
        simp
      · rw [update_of_ne hex]
        simp [hex]
    rw [hset]
    by_cases hx : x ∈ linkedEntries s.core
    · exact .inl (by rw [Finset.insert_eq_of_mem hx])
    · exact .inr (.inl (Finset.card_insert_of_notMem hx))
  · have hx : x ∈ linkedEntries s.core := (hmem x).mpr (count_pos _ hin)
    have hother : ∀ e, e ≠ x → (e ∈ linkedEntries s'.core ↔ e ∈ linkedEntries s.core) := by
      intro e hex
      rw [hmem', hmem, herase, count_erase _ hin, update_of_ne hex]
    by_cases hx' : x ∈ linkedEntries s'.core
    · refine .inl (congrArg Finset.card ?_)
      ext e
      by_cases hex : e = x
      · rw [hex]
        exact iff_of_true hx' hx
      · exact hother e hex
    · have hset : linkedEntries s'.core = (linkedEntries s.core).erase x := by
        ext e
        rw [Finset.mem_erase]
        by_cases hex : e = x
        · rw [hex]
          exact iff_of_false hx' (fun hboth => hboth.1 rfl)
        · rw [hother e hex]
          exact ⟨fun he => ⟨hex, he⟩, And.right⟩
      rw [hset]
      exact .inr (.inr (Finset.card_erase_add_one hx))

/-- **A linked entry stays linked** but for its last reference. -/
theorem Inv.stays (h : Inv s fun _ => 0) (h' : Inv s' fun _ => 0) (hmove : PoolMove s i a s')
    (he : Linked s.core e) : Linked s'.core e ∨ (a = .unref e ∧ outstanding s e = 1) := by
  have hpos := (h.pool.counts e he).2
  rw [count_zero] at hpos
  rcases refs_of_move hmove with hsame | ⟨x, hcons⟩ | ⟨x, ha, hin, herase⟩
  · refine .inl (h'.pool.linked_of_pos ?_)
    rw [hsame, count_zero]
    exact hpos
  · refine .inl (h'.pool.linked_of_pos ?_)
    rw [hcons, count_cons, count_zero]
    by_cases hex : e = x
    · rw [hex, update_self]
      exact Nat.succ_pos _
    · rw [update_of_ne hex]
      exact hpos
  · by_cases hex : e = x
    · subst hex
      by_cases hone : outstanding s e = 1
      · exact .inr ⟨ha, hone⟩
      · refine .inl (h'.pool.linked_of_pos ?_)
        rw [herase, count_erase _ hin, count_zero, update_self]
        omega
    · refine .inl (h'.pool.linked_of_pos ?_)
      rw [herase, count_erase _ hin, count_zero, update_of_ne hex]
      exact hpos

/-- **Who wants a hash that is out obtains that entry.** -/
theorem Inv.sameEntry (h : Inv s fun _ => 0) (hstep : poolStep s (i, a) = some s')
    {k : UInt64} (hwants : Wants s (i, a) k) {j x : Nat} (hin : (j, x) ∈ s.refs)
    (hhash : (s.core.entries.val x).hashIdx = k) : s'.refs = (i, x) :: s.refs := by
  have hmove := move_of_step hstep
  have hfind := h.pool.find_of_linked (h.pool.linked_of_pos (count_pos (fun _ => 0) hin))
  rw [hhash] at hfind
  rcases hwants with ha | ⟨data, ha⟩ | ⟨e, hpc⟩
  · replace ha : a = .lookup k := ha
    subst ha
    cases hmove with
    | miss k hpc hnone => cases hfind.symm.trans hnone
    | hit a k' e ha hpc hsome =>
      rcases ha with ha | ⟨data, ha⟩
      · cases ha
        cases hfind.symm.trans hsome
        rfl
      · cases ha
  · replace ha : a = .add k data := ha
    subst ha
    cases hmove with
    | check k data hpc hnone => cases hfind.symm.trans hnone
    | hit a k' e ha hpc hsome =>
      rcases ha with ha | ⟨data', ha⟩
      · cases ha
      · cases ha
        cases hfind.symm.trans hsome
        rfl
  · rcases step_filled hpc hstep with ⟨y, hsome, rfl⟩ | ⟨hnone, -⟩
    · cases hfind.symm.trans hsome
      rfl
    · cases hfind.symm.trans hnone

end StepLemmas

/-- **The step says what the calls have to do.** -/
theorem Inv.stepCorrect {l : Nat × Action} (h : Inv s fun _ => 0) (h' : Inv s' fun _ => 0)
    (hstep : poolStep s l = some s') (hwithin : Within s) (hwithin' : Within s') :
    StepCorrect s l s' := by
  obtain ⟨i, a⟩ := l
  have hmove := move_of_step hstep
  have hnow : ∀ p, (s.moveTo i p s.core).pcs i = p := fun p => update_self ..
  refine ⟨?_, fun e he => h.stays h' hmove he,
    fun k hwants j x hin hhash => h.sameEntry hstep hwants hin hhash, ?_, ?_, ?_⟩
  · rw [(h.correct hwithin).total, (h'.correct hwithin').total]
    exact h.card_step h' hmove
  · intro k e hpc
    rcases step_filled hpc hstep with ⟨x, -, rfl⟩ | ⟨-, rfl⟩
    · exact .inr ⟨x, rfl, hnow _⟩
    · exact .inl ⟨(linked_link s.core e e).mpr (.inl rfl), rfl, hnow _⟩
  · intro e x hpc
    replace hpc : s.pcs i = .lost e x := hpc
    rw [poolStep] at hstep
    dsimp only at hstep
    rw [hpc] at hstep
    cases a with
    | go ok =>
      cases hstep
      have hown := h'.owned i e 0 (congrArg Pc.owned (hnow (.lostPage e x)))
      exact ⟨hown.pages, hnow _⟩
    | _ => cases hstep
  · intro e x hpc
    replace hpc : s.pcs i = .lostPage e x := hpc
    have hown := h.owned i e 0 (congrArg Pc.owned hpc)
    have hknown := h.known i
    rw [hpc] at hknown
    rw [poolStep] at hstep
    dsimp only at hstep
    rw [hpc] at hstep
    cases a with
    | go ok =>
      cases hstep
      exact ⟨live_free_self _ _, hown.pages, hknown, hnow _⟩
    | _ => cases hstep

theorem inv_start : Inv start fun _ => 0 := by
  have hnone : ∀ e, ¬ Linked start.core e := fun e he => by cases he
  refine ⟨⟨?_, ?_, ?_, ?_, ?_, ?_, ?_, ?_⟩, ?_, ?_, ?_, ?_, ?_, ?_⟩
  · exact fun _ _ he => by cases he
  · exact fun _ => nodup_nil
  · exact fun e _ he => absurd he (hnone e)
  · exact fun e he => absurd he (hnone e)
  · exact fun e he => absurd he (hnone e)
  · exact fun e he => absurd he (hnone e)
  · exact fun _ _ => rfl
  · rfl
  · exact fun _ _ _ hown => by cases hown
  · exact fun _ _ _ _ _ hown => by cases hown
  · exact fun _ => trivial
  · exact fun e hlt => absurd hlt (Nat.not_lt_zero e)
  · exact fun e he => absurd he (hnone e)
  · exact fun e hlt => absurd hlt (Nat.not_lt_zero e)

theorem within_start : Within start := ⟨fun _ => Nat.two_pow_pos 31, by decide⟩

/-- A step brings at most one reference and one entry. -/
theorem sizes_of_move (hmove : PoolMove s i a s') :
    s'.refs.length ≤ s.refs.length + 1 ∧ s'.core.entries.next ≤ s.core.entries.next + 1 := by
  constructor
  · rcases refs_of_move hmove with hsame | ⟨x, hcons⟩ | ⟨x, -, -, herase⟩
    · rw [hsame]
      exact Nat.le_succ _
    · rw [hcons]
      exact Nat.le_refl _
    · rw [herase]
      exact Nat.le_succ_of_le length_erase_le
  · cases hmove with
    | kzalloc h data hpc => exact Nat.le_refl _
    | _ => exact Nat.le_succ _

/-- The words are large enough for every run of fewer than `2 ^ 31` steps. -/
theorem within_of_short (ls : List (Nat × Action)) (hshort : ls.length < 2 ^ 31) :
    Moves poolStep (fun _ _ s' => Within s') start ls := by
  -- what is left of the run bounds what can still be added
  have key : ∀ (ls : List (Nat × Action)) (s : ThreadState),
      s.refs.length + ls.length < 2 ^ 31 → s.core.entries.next + ls.length < 2 ^ 31 →
      Moves poolStep (fun _ _ s' => Within s') s ls := by
    intro ls
    induction ls with
    | nil => exact fun _ _ _ => trivial
    | cons l ls ih =>
      intro s hrefs hnext s' hstep
      obtain ⟨hrefs', hnext'⟩ := sizes_of_move (move_of_step hstep)
      rw [length_cons] at hrefs hnext
      refine ⟨⟨fun e => ?_, ?_⟩, ih s' (by omega) (by omega)⟩
      · have hle : outstanding s' e ≤ s'.refs.length := countP_le_length
        omega
      · have hle : (linkedEntries s'.core).card ≤ s'.core.entries.next := by
          refine (Finset.card_filter_le _ _).trans ?_
          rw [Finset.card_range]
        omega
  refine key ls start ?_ ?_
  · show 0 + ls.length < 2 ^ 31
    omega
  · show 0 + ls.length < 2 ^ 31
    omega

/-- **THE PAGE POOL UNDER CONCURRENCY.**  For any number of threads and any order of
    their sections, allocations and releases, as long as the counts fit their words: the
    pool is right at every moment and every step does what the calls have to do. -/
theorem pool_invariant (ls : List (Nat × Action))
    (h : Moves poolStep (fun _ _ s' => Within s') start ls) :
    States poolStep PoolCorrect start ls ∧ Moves poolStep StepCorrect start ls := by
  have hstep : ∀ s l s', (Inv s fun _ => 0) ∧ Within s → poolStep s l = some s' → Within s' →
      ((Inv s' fun _ => 0) ∧ Within s') ∧ PoolCorrect s' ∧ StepCorrect s l s' := by
    rintro s l s' ⟨hinv, hwithin⟩ hl hwithin'
    have hinv' := hinv.move (move_of_step hl) fun e => by
      rw [count_zero]
      exact hwithin'.1 e
    exact ⟨⟨hinv', hwithin'⟩, hinv'.correct hwithin', hinv.stepCorrect hinv' hl hwithin hwithin'⟩
  have hboth : (Inv start fun _ => 0) ∧ Within start := ⟨inv_start, within_start⟩
  refine ⟨⟨inv_start.correct within_start, ?_⟩, ?_⟩
  · exact moves_of_inv (fun s l s' hs hl hw => ⟨(hstep s l s' hs hl hw).1,
      (hstep s l s' hs hl hw).2.1⟩) ls start hboth h
  · exact moves_of_inv (fun s l s' hs hl hw => ⟨(hstep s l s' hs hl hw).1,
      (hstep s l s' hs hl hw).2.2⟩) ls start hboth h

/-- Two threads add the hash 5 at the same time. -/
def race : List (Nat × Action) :=
  [(0, .add 5 [1]), (1, .add 5 [2]), (0, .go true), (1, .go true), (0, .go true),
    (1, .go true), (0, .go true), (1, .go true), (1, .go true), (1, .go true)]

/-- Both obtain the entry of the first, and the page of the second is freed. -/
theorem race_shares_entry :
    ∃ s, exec poolStep start race = some s ∧ s.refs = [(1, 0), (0, 0)]
      ∧ (s.core.entries.val 1).pageRefs = 0 ∧ s.core.entries.live 1 = false
      ∧ PoolCorrect s := by
  have hexec : exec poolStep start race = some ((exec poolStep start race).getD start) := rfl
  have hcorrect := (pool_invariant race (within_of_short race (by decide))).1
  exact ⟨_, hexec, rfl, rfl, rfl, states_exec hcorrect hexec⟩

/-! ## A thread that runs alone

    Without interruption the sections in a row are the functions of the sequential
    model. -/

/-- The calls of an add that finds nothing and has its allocations. -/
def addCalls (i : Nat) (h : UInt64) (data : List UInt8) : List (Nat × Action) :=
  [(i, .add h data), (i, .go true), (i, .go true), (i, .go true)]

/-- A thread goes on where its last step left it. -/
theorem poolStep_moveTo (s : ThreadState) (i : Nat) (p : Pc) (core : PoolState) (a : Action) :
    poolStep (s.moveTo i p core) (i, a) = pcStep (s.moveTo i p core) i p a := by
  have hpc : (s.moveTo i p core).pcs i = p := update_self ..
  rw [poolStep]
  dsimp only
  rw [hpc]

theorem moveTo_moveTo (s : ThreadState) (i : Nat) (p q : Pc) (core core' : PoolState) :
    (s.moveTo i p core).moveTo i q core' = s.moveTo i q core' := by
  rw [ThreadState.moveTo, ThreadState.moveTo, ThreadState.moveTo, update_idem]

/-- **An add without interruption.** -/
theorem exec_add (data : List UInt8) (hpc : s.pcs i = .idle) (hfind : find s.core h = none)
    (hbelow : ∀ b, ∀ e ∈ s.core.pool.buckets b, e < s.core.entries.next) :
    exec poolStep s (addCalls i h data)
      = some (s.take i s.core.entries.next .idle (added s.core h data)) := by
  let core := fillEntry (allocEntry s.core) s.core.entries.next h data
  have hstill : find core h = none := by
    refine find?_eq_none.mpr fun e he => ?_
    have hne : e ≠ s.core.entries.next := Nat.ne_of_lt (hbelow _ e he)
    have hval : core.entries.val e = s.core.entries.val e := by
      show ((allocEntry s.core).entries.modify s.core.entries.next
        fun _ => ⟨h, data, 1, 1⟩).val e = _
      rw [val_modify_of_ne _ _ hne]
      exact val_alloc_of_ne _ _ hne
    rw [hval]
    exact find?_eq_none.mp hfind e he
  have hcheck : poolStep s (i, .add h data) = some (s.moveTo i (.checked h data) s.core) := by
    rw [poolStep]
    dsimp only
    rw [hpc, pcStep, hfind]
  have hentry : poolStep (s.moveTo i (.checked h data) s.core) (i, .go true)
      = some (s.moveTo i (.gotEntry h data s.core.entries.next) (allocEntry s.core)) := by
    rw [poolStep_moveTo, pcStep, if_pos rfl, moveTo_moveTo]
    rfl
  have hfill : poolStep (s.moveTo i (.gotEntry h data s.core.entries.next)
      (allocEntry s.core)) (i, .go true)
        = some (s.moveTo i (.filled h s.core.entries.next) core) := by
    rw [poolStep_moveTo, pcStep, if_pos rfl, moveTo_moveTo]
    rfl
  have hlink : poolStep (s.moveTo i (.filled h s.core.entries.next) core) (i, .go true)
      = some (s.take i s.core.entries.next .idle (added s.core h data)) := by
    have hnone : find (s.moveTo i (.filled h s.core.entries.next) core).core h = none := hstill
    rw [poolStep_moveTo, pcStep, hnone]
    dsimp only
    rw [ThreadState.take, moveTo_moveTo]
    rfl
  rw [addCalls, exec, hcheck, bind_some, exec, hentry, bind_some, exec, hfill,
    bind_some, exec, hlink]
  rfl

/-- **`snapshot_pool_add` alone.** -/
theorem add_alone {d' : DriverState} {data : List UInt8} (hcore : s.core = coreOf d)
    (hpc : s.pcs i = .idle) (hbelow : ∀ b, ∀ e ∈ d.pool.buckets b, e < d.entries.next)
    (hadd : snapshotPoolAdd d h data true true = (some e, d')) :
    ∃ ls, (∀ l ∈ ls, l.1 = i) ∧ exec poolStep s ls = some (s.take i e .idle (coreOf d')) := by
  have hfind : find s.core h = poolFind d h := by
    rw [hcore]
    rfl
  rw [snapshotPoolAdd] at hadd
  cases hpool : poolFind d h with
  | some e' =>
    rw [hpool] at hadd hfind
    cases hadd
    refine ⟨[(i, .add h data)], fun l hl => by rw [mem_singleton.mp hl], ?_⟩
    have hstep : poolStep s (i, .add h data) = some (s.take i e .idle (incRef s.core e)) := by
      rw [poolStep]
      dsimp only
      rw [hpc, pcStep, hfind]
    rw [exec, hstep, hcore]
    rfl
  | none =>
    rw [hpool] at hadd hfind
    cases hadd
    refine ⟨addCalls i h data, fun l hl => ?_, ?_⟩
    · simp only [addCalls, mem_cons, not_mem_nil, or_false] at hl
      rcases hl with rfl | rfl | rfl | rfl <;> rfl
    · have hexec := exec_add data hpc hfind (by rw [hcore]; exact hbelow)
      rw [hcore, added_coreOf] at hexec
      exact hexec

/-- **`snapshot_pool_unref` alone.** -/
theorem unref_alone (hcore : s.core = coreOf d) (hpc : s.pcs i = .idle) (hmem : (i, e) ∈ s.refs)
    (hlive : d.entries.live e = true) :
    ∃ ls, (∀ l ∈ ls, l.1 = i)
      ∧ exec poolStep s ls = some (s.drop i e .idle (coreOf (snapshotPoolUnref d e))) := by
  have htouch : touchEntry e d = d := if_pos hlive
  have hdec : (decRef s.core e).entries = d.entries.modify e (PhysPageEntry.addRef (-1)) := by
    rw [hcore]
    rfl
  have hstart : poolStep s (i, .unref e) = pcStep s i .idle (.unref e) := by
    rw [poolStep]
    dsimp only
    rw [hpc]
  rw [snapshotPoolUnref, htouch]
  by_cases hzero : ((d.entries.modify e (PhysPageEntry.addRef (-1))).val e).refCount = 0
  · refine ⟨[(i, .unref e), (i, .go true), (i, .go true)], fun l hl => ?_, ?_⟩
    · simp only [mem_cons, not_mem_nil, or_false] at hl
      rcases hl with rfl | rfl | rfl <;> rfl
    · let w : ThreadState := { s with refs := s.refs.erase (i, e) }
      let core := unlink (decRef s.core e) e
      have hdrop : poolStep s (i, .unref e) = some (w.moveTo i (.last e) core) := by
        rw [hstart, pcStep, if_pos hmem, hdec, if_pos hzero]
        rfl
      have hpage : poolStep (w.moveTo i (.last e) core) (i, .go true)
          = some (w.moveTo i (.lastPage e) (freePage core e)) := by
        rw [poolStep_moveTo, pcStep, moveTo_moveTo]
        rfl
      have hfree : poolStep (w.moveTo i (.lastPage e) (freePage core e)) (i, .go true)
          = some (w.moveTo i .idle (freeEntry (freePage core e) e)) := by
        rw [poolStep_moveTo, pcStep, moveTo_moveTo]
        rfl
      have hend : freeEntry (freePage core e) e = coreOf (dropEntry { d with
          entries := d.entries.modify e (PhysPageEntry.addRef (-1)) } e) := by
        rw [coreOf_dropEntry, ← hcore]
      rw [exec, hdrop, bind_some, exec, hpage, bind_some, exec, hfree, hend]
      dsimp only
      rw [if_pos hzero]
      rfl
  · refine ⟨[(i, .unref e)], fun l hl => by rw [mem_singleton.mp hl], ?_⟩
    have hdrop : poolStep s (i, .unref e) = some (s.drop i e .idle (decRef s.core e)) := by
      rw [hstart, pcStep, if_pos hmem, hdec, if_neg hzero]
    rw [exec, hdrop, hcore]
    dsimp only
    rw [if_neg hzero]
    rfl

/-! ## Where the words end -/

theorem find_incRef (core : PoolState) (e : Nat) (h : UInt64) :
    find (incRef core e) h = find core h := by
  have hhash : ∀ e', ((incRef core e).entries.val e').hashIdx = (core.entries.val e').hashIdx := by
    intro e'
    show ((core.entries.modify e _).val e').hashIdx = _
    by_cases he : e' = e
    · rw [he, val_modify_self, hashIdx_addRef]
    · rw [val_modify_of_ne _ _ he]
  rw [find, find]
  simp only [hhash]
  rfl

/-- Every lookup adds one to the word and to the references. -/
theorem exec_lookups (n : Nat) (s : ThreadState) (hpc : s.pcs i = .idle)
    (hfind : find s.core h = some e) :
    ∃ s', exec poolStep s (List.replicate n (i, .lookup h)) = some s'
      ∧ find s'.core h = some e
      ∧ (s'.core.entries.val e).refCount = (s.core.entries.val e).refCount + BitVec.ofNat 32 n
      ∧ outstanding s' e = outstanding s e + n := by
  induction n generalizing s with
  | zero => exact ⟨s, rfl, hfind, (BitVec.add_zero _).symm, rfl⟩
  | succ n ih =>
    have hstep : poolStep s (i, .lookup h) = some (s.take i e .idle (incRef s.core e)) := by
      rw [poolStep]
      dsimp only
      rw [hpc, pcStep, hfind]
    obtain ⟨s', hexec, hfind', hcount, hout⟩ := ih (s.take i e .idle (incRef s.core e))
      (update_self ..) ((find_incRef _ _ _).trans hfind)
    refine ⟨s', ?_, hfind', ?_, ?_⟩
    · rw [replicate_succ, exec, hstep]
      exact hexec
    · have hinc : ((incRef s.core e).entries.val e).refCount
          = (s.core.entries.val e).refCount + 1 := by
        show ((s.core.entries.modify e _).val e).refCount = _
        rw [val_modify_self, refCount_addRef]
      rw [hcount]
      show ((incRef s.core e).entries.val e).refCount + _ = _
      rw [hinc, BitVec.add_assoc, Nat.add_comm n 1, BitVec.ofNat_add]
      rfl
    · have hcons : outstanding (s.take i e .idle (incRef s.core e)) e = outstanding s e + 1 := by
        show List.countP _ ((i, e) :: s.refs) = _
        rw [countP_cons, if_pos (beq_self_eq_true e)]
        rfl
      rw [hout, hcons]
      omega

/-- The hashes `0` to `n - 1` are linked, in this order. -/
structure Sequence (s : ThreadState) (n : Nat) : Prop where
  idle : s.pcs 0 = .idle
  next : s.core.entries.next = n
  below : ∀ b, ∀ e ∈ s.core.pool.buckets b, e < n
  linked : ∀ e < n, Linked s.core e ∧ (s.core.entries.val e).hashIdx = UInt64.ofNat e
  total : s.core.pool.totalPages = BitVec.ofNat 64 n

theorem ofNat_ne (he : e < n) (hn : n < 2 ^ 64) : UInt64.ofNat e ≠ UInt64.ofNat n := by
  intro heq
  have htoNat := congrArg UInt64.toNat heq
  rw [UInt64.toNat_ofNat_of_lt' (Nat.lt_trans he hn), UInt64.toNat_ofNat_of_lt' hn] at htoNat
  exact Nat.ne_of_lt he htoNat

/-- One more hash. -/
theorem Sequence.add (h : Sequence s n) (hn : n < 2 ^ 64) :
    ∃ s', exec poolStep s (addCalls 0 (UInt64.ofNat n) []) = some s' ∧ Sequence s' (n + 1) := by
  have hfind : find s.core (UInt64.ofNat n) = none := by
    refine find?_eq_none.mpr fun e he => ?_
    have hlt := h.below _ e he
    rw [(h.linked e hlt).2, beq_iff_eq]
    exact ofNat_ne hlt hn
  have hexec := exec_add [] h.idle hfind (h.next.symm ▸ h.below)
  rw [h.next] at hexec
  refine ⟨_, hexec, ?_⟩
  let core := fillEntry (allocEntry s.core) n (UInt64.ofNat n) []
  have hadded : added s.core (UInt64.ofNat n) [] = link core n := by
    rw [added, h.next]
  have hself : core.entries.val n = ⟨UInt64.ofNat n, [], 1, 1⟩ :=
    val_modify_self (allocEntry s.core).entries n
      fun _ => (⟨UInt64.ofNat n, [], 1, 1⟩ : PhysPageEntry)
  have hval : ∀ e, e < n → core.entries.val e = s.core.entries.val e := by
    intro e he
    have hne : e ≠ s.core.entries.next := h.next.symm ▸ Nat.ne_of_lt he
    show ((allocEntry s.core).entries.modify n fun _ => ⟨UInt64.ofNat n, [], 1, 1⟩).val e = _
    rw [val_modify_of_ne _ _ (Nat.ne_of_lt he)]
    exact val_alloc_of_ne _ _ hne
  constructor
  case idle =>
    show update s.pcs 0 .idle 0 = _
    rw [update_self]
  case next => exact congrArg Nat.succ h.next
  case below =>
    intro b e he
    replace he : e ∈ (added s.core (UInt64.ofNat n) []).pool.buckets b := he
    rw [hadded, mem_buckets_link] at he
    rcases he with ⟨rfl, -⟩ | he
    · exact Nat.lt_succ_self _
    · exact Nat.lt_succ_of_lt (h.below b e he)
  case linked =>
    intro e he
    show Linked (added s.core _ []) e ∧ ((added s.core _ []).entries.val e).hashIdx = _
    rw [hadded, linked_link]
    show _ ∧ (core.entries.val e).hashIdx = _
    by_cases hen : e = n
    · rw [hen, hself]
      exact ⟨.inl rfl, rfl⟩
    · have hlt : e < n := by omega
      obtain ⟨hlinked, hhash⟩ := h.linked e hlt
      rw [hval e hlt]
      refine ⟨.inr ?_, hhash⟩
      rw [Linked, hval e hlt]
      exact hlinked
  case total =>
    show s.core.pool.totalPages + 1 = _
    rw [h.total, BitVec.ofNat_add]
    rfl

/-- Adds of the hashes `0` to `n - 1`. -/
def manyAdds (n : Nat) : List (Nat × Action) :=
  (List.range n).flatMap fun k => addCalls 0 (UInt64.ofNat k) []

theorem exec_manyAdds (n : Nat) (hn : n ≤ 2 ^ 64) :
    ∃ s, exec poolStep start (manyAdds n) = some s ∧ Sequence s n := by
  induction n with
  | zero =>
    exact ⟨start, rfl, rfl, rfl, (fun _ _ he => by cases he),
      fun e he => absurd he (Nat.not_lt_zero e), rfl⟩
  | succ n ih =>
    obtain ⟨s, hexec, hs⟩ := ih (Nat.le_of_succ_le hn)
    obtain ⟨s', hadd, hs'⟩ := hs.add hn
    refine ⟨s', ?_, hs'⟩
    have hcalls : manyAdds (n + 1) = manyAdds n ++ addCalls 0 (UInt64.ofNat n) [] := by
      rw [manyAdds, range_succ, flatMap_append, flatMap_singleton]
      rfl
    rw [hcalls, exec_append, hexec]
    exact hadd

theorem Sequence.card (h : Sequence s n) : (linkedEntries s.core).card = n := by
  have hall : linkedEntries s.core = Finset.range n := by
    rw [linkedEntries, h.next]
    exact Finset.filter_true_of_mem fun e he => (h.linked e (Finset.mem_range.mp he)).1
  rw [hall, Finset.card_range]

/-- One add and `n` lookups of its hash. -/
theorem exec_addLookups (n : Nat) :
    ∃ s, exec poolStep start (addCalls 0 0 [] ++ List.replicate n (0, .lookup 0)) = some s
      ∧ Linked s.core 0 ∧ outstanding s 0 = n + 1
      ∧ (s.core.entries.val 0).refCount = 1 + BitVec.ofNat 32 n := by
  let s₁ := (exec poolStep start (addCalls 0 0 [])).getD start
  have hadd : exec poolStep start (addCalls 0 0 []) = some s₁ := rfl
  have hone : outstanding s₁ 0 = 1 := rfl
  obtain ⟨s, hexec, hfind, hcount, hout⟩ := exec_lookups (i := 0) (h := 0) (e := 0) n s₁ rfl rfl
  refine ⟨s, ?_, ?_, ?_, hcount⟩
  · rw [exec_append, hadd]
    exact hexec
  · have hbeq := find?_some hfind
    have hmem := mem_of_find?_eq_some hfind
    rw [Linked, eq_of_beq hbeq]
    exact hmem
  · rw [hout, hone, Nat.add_comm]

/-- `2 ^ 31` references of one entry make its count negative, and `2 ^ 64` entries make
    `total_pages` zero. -/
theorem counts_overflow :
    (∃ ls s e, exec poolStep start ls = some s ∧ Linked s.core e
        ∧ outstanding s e = 2 ^ 31 ∧ (s.core.entries.val e).refCount.toInt = -2 ^ 31)
      ∧ ∃ ls s, exec poolStep start ls = some s ∧ (linkedEntries s.core).card = 2 ^ 64
        ∧ s.core.pool.totalPages = 0 := by
  constructor
  · obtain ⟨s, hexec, hlinked, hout, hcount⟩ := exec_addLookups (2 ^ 31 - 1)
    refine ⟨_, s, 0, hexec, hlinked, hout.trans (by decide), ?_⟩
    rw [hcount]
    decide
  · obtain ⟨s, hexec, hs⟩ := exec_manyAdds (2 ^ 64) (Nat.le_refl _)
    refine ⟨_, s, hexec, hs.card, ?_⟩
    rw [hs.total]
    decide

end PoolThreads
