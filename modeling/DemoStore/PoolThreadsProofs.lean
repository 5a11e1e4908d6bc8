import DemoStore.MachineRunProofs
import DemoStore.PoolSectionProofs
import DemoStore.ThreadPoolProofs

/-! # The page pool under concurrency

    Any number of threads call `snapshot_pool_lookup`, `snapshot_pool_add` and
    `snapshot_pool_unref`.  One step is one section under the lock, one allocation or
    one release; the program counter says where a thread is between two steps.  The
    ghost field `refs` has a pair of thread and entry for every reference that is out,
    and a thread gives back only what it holds.

    An entry is reachable for others while it is linked; before and after it belongs to
    exactly one thread.  That is the invariant: a section moves an entry from one side
    to the other, and everything outside the lock happens to a thread's own entry.

    The counts are machine words, so the invariant holds as long as an entry has fewer
    than `2 ^ 31` references. -/

namespace PoolThreads

open ObjectHeap SnapshotDriver PoolSection MachineRun List
open Function (update update_eq_self update_idem update_of_ne update_self)

/-! ## The threads -/

/-- Where a thread is.  The steps from `checked` to `lostPage` are those of
    `snapshot_pool_add` after its first check, the last two those of
    `snapshot_pool_unref` after the lock. -/
inductive Pc where
  | idle
  | checked (h : UInt64) (data : List UInt8)
  | gotEntry (h : UInt64) (data : List UInt8) (e : Nat)
  | noPage (e : Nat)
  | filled (h : UInt64) (e : Nat)
  | lost (e existing : Nat)
  | lostPage (e existing : Nat)
  | last (e : Nat)
  | lastPage (e : Nat)

/-- The calls, and `go` for the next step of one; its argument is the outcome of an
    allocation. -/
inductive Action where
  | lookup (h : UInt64)
  | add (h : UInt64) (data : List UInt8)
  | unref (e : Nat)
  | go (ok : Bool)

/-- The pool, its threads and their references. -/
structure ThreadState where
  core : PoolState
  pcs : Nat → Pc
  refs : List (Nat × Nat)

/-- The pool after `snapshot_pool_init`. -/
def start : ThreadState where
  core := ⟨initState.pool, initState.entries, initState.oops⟩
  pcs := fun _ => .idle
  refs := []

namespace ThreadState

/-- Thread `i` moves on. -/
def moveTo (s : ThreadState) (i : Nat) (p : Pc) (core : PoolState) : ThreadState :=
  { s with core := core, pcs := update s.pcs i p }

/-- The thread has one more reference of `e`. -/
def take (s : ThreadState) (i e : Nat) (p : Pc) (core : PoolState) : ThreadState :=
  { s.moveTo i p core with refs := (i, e) :: s.refs }

/-- The thread has one reference of `e` less. -/
def drop (s : ThreadState) (i e : Nat) (p : Pc) (core : PoolState) : ThreadState :=
  { s.moveTo i p core with refs := s.refs.erase (i, e) }

end ThreadState

/-- One step of thread `i` at the given program counter. -/
def pcStep (s : ThreadState) (i : Nat) : Pc → Action → Option ThreadState
  | .idle, .lookup h =>
    match find s.core h with
    | some e => some (s.take i e .idle (incRef s.core e))
    | none => some s
  | .idle, .add h data =>
    match find s.core h with
    | some e => some (s.take i e .idle (incRef s.core e))
    | none => some (s.moveTo i (.checked h data) s.core)
  | .checked h data, .go kzalloc =>
    if kzalloc then
      some (s.moveTo i (.gotEntry h data s.core.entries.next) (allocEntry s.core))
    else some (s.moveTo i .idle s.core)
  | .gotEntry h data e, .go allocPage =>
    -- the copy and the stores after `alloc_page` go to memory no other thread has
    if allocPage then some (s.moveTo i (.filled h e) (fillEntry s.core e h data))
    else some (s.moveTo i (.noPage e) s.core)
  | .noPage e, .go _ => some (s.moveTo i .idle (freeEntry s.core e))
  | .filled h e, .go _ =>
    match find s.core h with
    | some x => some (s.take i x (.lost e x) (incRef s.core x))
    | none => some (s.take i e .idle (link s.core e))
  | .lost e x, .go _ => some (s.moveTo i (.lostPage e x) (freePage s.core e))
  | .lostPage e _, .go _ => some (s.moveTo i .idle (freeEntry s.core e))
  | .idle, .unref e =>
    if (i, e) ∈ s.refs then
      if ((decRef s.core e).entries.val e).refCount = 0 then
        some (s.drop i e (.last e) (unlink (decRef s.core e) e))
      else some (s.drop i e .idle (decRef s.core e))
    else none
  | .last e, .go _ => some (s.moveTo i (.lastPage e) (freePage s.core e))
  | .lastPage e, .go _ => some (s.moveTo i .idle (freeEntry s.core e))
  | _, _ => none

/-- Thread `l.1` takes the action `l.2`. -/
def poolStep (s : ThreadState) (l : Nat × Action) : Option ThreadState :=
  pcStep s l.1 (s.pcs l.1) l.2

/-! ## What each step does -/

/-- The steps, one constructor for each. -/
inductive PoolMove (s : ThreadState) (i : Nat) : Action → ThreadState → Prop where
  | miss (h : UInt64) (hpc : s.pcs i = .idle) (hfind : find s.core h = none) :
      PoolMove s i (.lookup h) s
  | hit (a : Action) (h : UInt64) (e : Nat) (ha : a = .lookup h ∨ ∃ data, a = .add h data)
      (hpc : s.pcs i = .idle) (hfind : find s.core h = some e) :
      PoolMove s i a (s.take i e .idle (incRef s.core e))
  | check (h : UInt64) (data : List UInt8) (hpc : s.pcs i = .idle)
      (hfind : find s.core h = none) :
      PoolMove s i (.add h data) (s.moveTo i (.checked h data) s.core)
  | kzalloc (h : UInt64) (data : List UInt8) (hpc : s.pcs i = .checked h data) :
      PoolMove s i (.go true)
        (s.moveTo i (.gotEntry h data s.core.entries.next) (allocEntry s.core))
  | kzallocFail (h : UInt64) (data : List UInt8) (hpc : s.pcs i = .checked h data) :
      PoolMove s i (.go false) (s.moveTo i .idle s.core)
  | fill (h : UInt64) (data : List UInt8) (e : Nat) (hpc : s.pcs i = .gotEntry h data e) :
      PoolMove s i (.go true) (s.moveTo i (.filled h e) (fillEntry s.core e h data))
  | pageFail (h : UInt64) (data : List UInt8) (e : Nat) (hpc : s.pcs i = .gotEntry h data e) :
      PoolMove s i (.go false) (s.moveTo i (.noPage e) s.core)
  | freeNew (ok : Bool) (e : Nat) (hpc : s.pcs i = .noPage e) :
      PoolMove s i (.go ok) (s.moveTo i .idle (freeEntry s.core e))
  | lose (ok : Bool) (h : UInt64) (e x : Nat) (hpc : s.pcs i = .filled h e)
      (hfind : find s.core h = some x) :
      PoolMove s i (.go ok) (s.take i x (.lost e x) (incRef s.core x))
  | win (ok : Bool) (h : UInt64) (e : Nat) (hpc : s.pcs i = .filled h e)
      (hfind : find s.core h = none) :
      PoolMove s i (.go ok) (s.take i e .idle (link s.core e))
  | losePage (ok : Bool) (e x : Nat) (hpc : s.pcs i = .lost e x) :
      PoolMove s i (.go ok) (s.moveTo i (.lostPage e x) (freePage s.core e))
  | loseEntry (ok : Bool) (e x : Nat) (hpc : s.pcs i = .lostPage e x) :
      PoolMove s i (.go ok) (s.moveTo i .idle (freeEntry s.core e))
  | unref (e : Nat) (hpc : s.pcs i = .idle) (hmem : (i, e) ∈ s.refs)
      (hmore : ((decRef s.core e).entries.val e).refCount ≠ 0) :
      PoolMove s i (.unref e) (s.drop i e .idle (decRef s.core e))
  | unrefLast (e : Nat) (hpc : s.pcs i = .idle) (hmem : (i, e) ∈ s.refs)
      (hzero : ((decRef s.core e).entries.val e).refCount = 0) :
      PoolMove s i (.unref e) (s.drop i e (.last e) (unlink (decRef s.core e) e))
  | dropPage (ok : Bool) (e : Nat) (hpc : s.pcs i = .last e) :
      PoolMove s i (.go ok) (s.moveTo i (.lastPage e) (freePage s.core e))
  | dropEntry (ok : Bool) (e : Nat) (hpc : s.pcs i = .lastPage e) :
      PoolMove s i (.go ok) (s.moveTo i .idle (freeEntry s.core e))

variable {s s' : ThreadState}

/-- **Inversion of a step**; no proof below takes `pcStep` apart again. -/
theorem move_of_step {l : Nat × Action} (hstep : poolStep s l = some s') :
    PoolMove s l.1 l.2 s' := by
  obtain ⟨i, a⟩ := l
  rw [poolStep] at hstep
  generalize hpc : s.pcs i = p at hstep
  cases p with
  | idle =>
    cases a with
    | lookup h =>
      rw [pcStep] at hstep
      cases hfind : find s.core h with
      | none =>
        rw [hfind] at hstep
        cases hstep
        exact .miss h hpc hfind
      | some e =>
        rw [hfind] at hstep
        cases hstep
        exact .hit _ h e (.inl rfl) hpc hfind
    | add h data =>
      rw [pcStep] at hstep
      cases hfind : find s.core h with
      | none =>
        rw [hfind] at hstep
        cases hstep
        exact .check h data hpc hfind
      | some e =>
        rw [hfind] at hstep
        cases hstep
        exact .hit _ h e (.inr ⟨data, rfl⟩) hpc hfind
    | unref e =>
      rw [pcStep] at hstep
      split at hstep
      · rename_i hmem
        split at hstep
        · rename_i hzero
          cases hstep
          exact .unrefLast e hpc hmem hzero
        · rename_i hmore
          cases hstep
          exact .unref e hpc hmem hmore
      · cases hstep
    | go ok => cases hstep
  | checked h data =>
    cases a with
    | go ok =>
      cases ok with
      | true =>
        cases hstep
        exact .kzalloc h data hpc
      | false =>
        cases hstep
        exact .kzallocFail h data hpc
    | _ => cases hstep
  | gotEntry h data e =>
    cases a with
    | go ok =>
      cases ok with
      | true =>
        cases hstep
        exact .fill h data e hpc
      | false =>
        cases hstep
        exact .pageFail h data e hpc
    | _ => cases hstep
  | noPage e =>
    cases a with
    | go ok =>
      cases hstep
      exact .freeNew ok e hpc
    | _ => cases hstep
  | filled h e =>
    cases a with
    | go ok =>
      rw [pcStep] at hstep
      cases hfind : find s.core h with
      | none =>
        rw [hfind] at hstep
        cases hstep
        exact .win ok h e hpc hfind
      | some x =>
        rw [hfind] at hstep
        cases hstep
        exact .lose ok h e x hpc hfind
    | _ => cases hstep
  | lost e x =>
    cases a with
    | go ok =>
      cases hstep
      exact .losePage ok e x hpc
    | _ => cases hstep
  | lostPage e x =>
    cases a with
    | go ok =>
      cases hstep
      exact .loseEntry ok e x hpc
    | _ => cases hstep
  | last e =>
    cases a with
    | go ok =>
      cases hstep
      exact .dropPage ok e hpc
    | _ => cases hstep
  | lastPage e =>
    cases a with
    | go ok =>
      cases hstep
      exact .dropEntry ok e hpc
    | _ => cases hstep

/-! ## References -/

/-- The references of an entry that are out: those of the threads, and `extra` for
    those that something else keeps. -/
def count (refs : List (Nat × Nat)) (extra : Nat → Nat) (e : Nat) : Nat :=
  refs.countP (fun r => r.2 == e) + extra e

theorem count_cons (refs : List (Nat × Nat)) (extra : Nat → Nat) (i e : Nat) :
    count ((i, e) :: refs) extra = update (count refs extra) e (count refs extra e + 1) := by
  funext e'
  rw [count, countP_cons]
  by_cases he : e' = e
  · rw [he, update_self, if_pos (beq_self_eq_true e), count]
    omega
  · rw [update_of_ne he, if_neg (by simpa using Ne.symm he), count]
    omega

variable {refs : List (Nat × Nat)} {i e : Nat} {extra extra' : Nat → Nat}

theorem count_erase (extra : Nat → Nat) (hmem : (i, e) ∈ refs) :
    count (refs.erase (i, e)) extra = update (count refs extra) e (count refs extra e - 1) := by
  have hcons := count_cons (refs.erase (i, e)) extra i e
  have hperm : count ((i, e) :: refs.erase (i, e)) extra = count refs extra := by
    funext e'
    rw [count, count, (perm_cons_erase hmem).symm.countP_eq]
  rw [hperm] at hcons
  rw [hcons, update_self, Nat.add_sub_cancel, update_idem, update_eq_self]

theorem count_pos (extra : Nat → Nat) (hmem : (i, e) ∈ refs) : 0 < count refs extra e := by
  have hpos : 0 < refs.countP fun r => r.2 == e :=
    countP_pos_iff.mpr ⟨(i, e), hmem, beq_self_eq_true e⟩
  exact Nat.lt_of_lt_of_le hpos (Nat.le_add_right _ _)

/-! ## Whose an entry is -/

/-- The entry that only this thread has, and the references of its page. -/
def Pc.owned : Pc → Option (Nat × Int)
  | .gotEntry _ _ e => some (e, 0)
  | .noPage e => some (e, 0)
  | .filled _ e => some (e, 1)
  | .lost e _ => some (e, 1)
  | .lostPage e _ => some (e, 0)
  | .last e => some (e, 1)
  | .lastPage e => some (e, 0)
  | _ => none

/-- An entry outside the pool. -/
structure Private (s : PoolState) (e : Nat) (n : Int) : Prop where
  below : e < s.entries.next
  live : s.entries.live e = true
  unlinked : ¬ Linked s e
  pages : (s.entries.val e).pageRefs = n

/-- What a thread knows about its entry besides. -/
def Known (core : PoolState) (refs : List (Nat × Nat)) (i : Nat) : Pc → Prop
  | .filled h e => (core.entries.val e).hashIdx = h ∧ (core.entries.val e).refCount = 1
  | .lost _ x => (i, x) ∈ refs
  | .lostPage _ x => (i, x) ∈ refs
  | _ => True

/-- Every entry is linked, or one thread's own, or freed. -/
structure Inv (s : ThreadState) (extra : Nat → Nat) : Prop where
  pool : PoolInv s.core (count s.refs extra)
  owned : ∀ i e n, (s.pcs i).owned = some (e, n) → Private s.core e n
  apart : ∀ i j e n m, (s.pcs i).owned = some (e, n) → (s.pcs j).owned = some (e, m) → i = j
  known : ∀ i, Known s.core s.refs i (s.pcs i)
  accounted : ∀ e < s.core.entries.next, s.core.entries.live e = true →
    Linked s.core e ∨ ∃ i n, (s.pcs i).owned = some (e, n)
  pages : ∀ e, Linked s.core e → (s.core.entries.val e).pageRefs = 1 + extra e
  freed : ∀ e < s.core.entries.next, s.core.entries.live e = false →
    (s.core.entries.val e).pageRefs = 0

/-- **What one thread does to its own entries and to linked ones** leaves the other
    threads alone. -/
theorem Inv.frame (h : Inv s extra) {p : Pc} {core : PoolState}
    (hpool : PoolInv core (count refs extra')) (hnext : s.core.entries.next ≤ core.entries.next)
    (hother : ∀ j, j ≠ i → ∀ e n, (s.pcs j).owned = some (e, n) →
      core.entries.val e = s.core.entries.val e
        ∧ core.entries.live e = s.core.entries.live e ∧ ¬ Linked core e)
    (hrefs : ∀ j, j ≠ i → ∀ x, (j, x) ∈ s.refs → (j, x) ∈ refs)
    (hmine : ∀ e n, p.owned = some (e, n) →
      Private core e n ∧ ∀ j, j ≠ i → ∀ m, (s.pcs j).owned ≠ some (e, m))
    (hknown : Known core refs i p)
    (haccounted : ∀ e < core.entries.next, core.entries.live e = true →
      Linked core e ∨ (∃ n, p.owned = some (e, n))
        ∨ ∃ j, j ≠ i ∧ ∃ n, (s.pcs j).owned = some (e, n))
    (hpages : ∀ e, Linked core e → (core.entries.val e).pageRefs = 1 + extra' e)
    (hfreed : ∀ e < core.entries.next, core.entries.live e = false →
      (core.entries.val e).pageRefs = 0) : Inv ⟨core, update s.pcs i p, refs⟩ extra' where
  pool := hpool
  owned j e n hj := by
    replace hj : (update s.pcs i p j).owned = some (e, n) := hj
    by_cases hji : j = i
    · rw [hji, update_self] at hj
      exact (hmine e n hj).1
    · rw [update_of_ne hji] at hj
      obtain ⟨hval, hlive, hunlinked⟩ := hother j hji e n hj
      have hold := h.owned j e n hj
      refine ⟨Nat.lt_of_lt_of_le hold.below hnext, hlive.trans hold.live, hunlinked, ?_⟩
      show (core.entries.val e).pageRefs = n
      rw [hval]
      exact hold.pages
  apart j k e n m hj hk := by
    refine ThreadPool.unique_update (Q := fun pc : Pc => ∃ n, pc.owned = some (e, n)) ?_ ?_ j k
      ⟨n, hj⟩ ⟨m, hk⟩
    · rintro j k ⟨n, hj⟩ ⟨m, hk⟩
      exact h.apart j k e n m hj hk
    · rintro ⟨n, hn⟩ j hji ⟨m, hm⟩
      exact (hmine e n hn).2 j hji m hm
  known j := by
    show Known core refs j (update s.pcs i p j)
    by_cases hji : j = i
    · rw [hji, update_self]
      exact hknown
    · rw [update_of_ne hji]
      have hold := h.known j
      cases hpc : s.pcs j with
      | filled k e =>
        rw [hpc] at hold
        have hval := (hother j hji e 1 (by rw [hpc]; rfl)).1
        show (core.entries.val e).hashIdx = k ∧ (core.entries.val e).refCount = 1
        rw [hval]
        exact hold
      | lost e x | lostPage e x =>
        rw [hpc] at hold
        exact hrefs j hji x hold
      | _ => trivial
  accounted e hlt hlive := by
    rcases haccounted e hlt hlive with hl | ⟨n, hn⟩ | ⟨j, hji, n, hn⟩
    · exact .inl hl
    · refine .inr ⟨i, n, ?_⟩
      show (update s.pcs i p i).owned = _
      rw [update_self]
      exact hn
    · refine .inr ⟨j, n, ?_⟩
      show (update s.pcs i p j).owned = _
      rw [update_of_ne hji]
      exact hn
  pages := hpages
  freed := hfreed

/-! ## The steps -/

section Steps

variable {extra : Nat → Nat} {i : Nat} {p : Pc}

/-- Where a live entry is, seen from thread `i`. -/
theorem Inv.place (h : Inv s extra) (i : Nat) (hlt : e < s.core.entries.next)
    (hlive : s.core.entries.live e = true) :
    Linked s.core e ∨ (∃ n, (s.pcs i).owned = some (e, n))
      ∨ ∃ j, j ≠ i ∧ ∃ n, (s.pcs j).owned = some (e, n) := by
  rcases h.accounted e hlt hlive with hl | ⟨j, n, hn⟩
  · exact .inl hl
  · by_cases hji : j = i
    · exact .inr (.inl ⟨n, hji ▸ hn⟩)
    · exact .inr (.inr ⟨j, hji, n, hn⟩)

variable {n : Int} {x : Nat} {g : PhysPageEntry → PhysPageEntry}

/-- A thread's own entry is nobody else's. -/
theorem Inv.sole (h : Inv s extra) (hown : (s.pcs i).owned = some (e, n)) :
    ∀ j, j ≠ i → ∀ m, (s.pcs j).owned ≠ some (e, m) :=
  fun j hji m hj => hji (h.apart j i e m n hj hown)

/-- A thread that goes on without touching the pool. -/
theorem Inv.goes (h : Inv s extra) (hown : p.owned = (s.pcs i).owned)
    (hknown : Known s.core s.refs i p) : Inv (s.moveTo i p s.core) extra := by
  refine h.frame h.pool (Nat.le_refl _) (fun j _ e n hj => ⟨rfl, rfl, ?_⟩) (fun _ _ _ hx => hx)
    (fun e n he => ?_) hknown (fun e hlt hlive => ?_) h.pages h.freed
  · exact (h.owned j e n hj).unlinked
  · rw [hown] at he
    exact ⟨h.owned i e n he, h.sole he⟩
  · rw [hown]
    exact h.place i hlt hlive

/-- A change of the count of a linked entry. -/
theorem Inv.counted (h : Inv s extra) (hx : Linked s.core x)
    (hg : ∀ y, (g y).pageRefs = y.pageRefs)
    (hpool : PoolInv (modify s.core x g) (count refs extra)
      ∧ ∀ e, Linked (modify s.core x g) e ↔ Linked s.core e)
    (hrefs : ∀ j, j ≠ i → ∀ y, (j, y) ∈ s.refs → (j, y) ∈ refs) (hown : p.owned = (s.pcs i).owned)
    (hknown : Known (modify s.core x g) refs i p) :
    Inv ⟨modify s.core x g, update s.pcs i p, refs⟩ extra := by
  obtain ⟨hpool, hlinked⟩ := hpool
  have hval : ∀ e, e ≠ x → (modify s.core x g).entries.val e = s.core.entries.val e :=
    fun e he => val_modify_of_ne _ _ he
  have hpage : ∀ e, ((modify s.core x g).entries.val e).pageRefs
      = (s.core.entries.val e).pageRefs := by
    intro e
    by_cases he : e = x
    · rw [he]
      show ((s.core.entries.modify x g).val x).pageRefs = _
      rw [val_modify_self, hg]
    · rw [hval e he]
  -- the entry is linked, so it is no thread's own
  have hne : ∀ j e n, (s.pcs j).owned = some (e, n) → e ≠ x :=
    fun j e n hj he => (h.owned j e n hj).unlinked (he ▸ hx)
  refine h.frame hpool (Nat.le_refl _) (fun j _ e n hj => ⟨hval e (hne j e n hj), rfl, ?_⟩) hrefs
    (fun e n he => ?_) hknown (fun e hlt hlive => ?_) (fun e he => ?_) (fun e hlt hdead => ?_)
  · exact fun hl => (h.owned j e n hj).unlinked ((hlinked e).mp hl)
  · rw [hown] at he
    have hold := h.owned i e n he
    refine ⟨⟨hold.below, hold.live, fun hl => hold.unlinked ((hlinked e).mp hl), ?_⟩, h.sole he⟩
    rw [hpage]
    exact hold.pages
  · rw [hown, hlinked]
    exact h.place i hlt hlive
  · rw [hpage]
    exact h.pages e ((hlinked e).mp he)
  · rw [hpage]
    exact h.freed e hlt hdead

/-- **A reference is taken** on a linked entry. -/
theorem Inv.takes (h : Inv s extra) (hx : Linked s.core x)
    (hbound : count s.refs extra x + 1 < 2 ^ 32) (hown : p.owned = (s.pcs i).owned)
    (hknown : Known (incRef s.core x) ((i, x) :: s.refs) i p) :
    Inv (s.take i x p (incRef s.core x)) extra := by
  have hpool := poolInv_incRef h.pool hx hbound
  rw [← count_cons s.refs extra i x] at hpool
  exact h.counted hx (fun y => pageRefs_addRef y 1) hpool
    (fun _ _ _ hy => mem_cons_of_mem _ hy) hown hknown

/-- **A reference is given back** that is not the last one. -/
theorem Inv.drops (h : Inv s extra) (hmem : (i, x) ∈ s.refs) (hpc : s.pcs i = .idle)
    (hmore : ((decRef s.core x).entries.val x).refCount ≠ 0) :
    Inv (s.drop i x .idle (decRef s.core x)) extra := by
  have hx := h.pool.linked_of_pos (count_pos extra hmem)
  have hne : count s.refs extra x ≠ 1 := fun hone =>
    hmore ((h.pool.dec_zero_iff hx).mpr hone)
  have hpool := poolInv_decRef h.pool hx hne
  rw [← count_erase extra hmem] at hpool
  refine h.counted hx (fun y => pageRefs_addRef y (-1)) hpool (fun j hji y hy => ?_)
    (by rw [hpc]) trivial
  exact (mem_erase_of_ne (fun heq => hji (congrArg Prod.fst heq))).mpr hy

/-- **The last reference is given back**: the entry becomes the thread's own. -/
theorem Inv.dropsLast (h : Inv s extra) (hmem : (i, x) ∈ s.refs) (hpc : s.pcs i = .idle)
    (hzero : ((decRef s.core x).entries.val x).refCount = 0) :
    Inv (s.drop i x (.last x) (unlink (decRef s.core x) x)) extra := by
  have hx := h.pool.linked_of_pos (count_pos extra hmem)
  have hone := (h.pool.dec_zero_iff hx).mp hzero
  have hlinked : ∀ e, Linked (unlink (decRef s.core x) x) e ↔ e ≠ x ∧ Linked s.core e :=
    fun e => (linked_unlink h.pool x e).2
  have hval : ∀ e, e ≠ x → (unlink (decRef s.core x) x).entries.val e = s.core.entries.val e :=
    fun e he => val_modify_of_ne _ _ he
  have hpage : ((unlink (decRef s.core x) x).entries.val x).pageRefs
      = (s.core.entries.val x).pageRefs := by
    show ((s.core.entries.modify x _).val x).pageRefs = _
    rw [val_modify_self, pageRefs_addRef]
  have hextra : extra x = 0 := by
    have hpos : 0 < s.refs.countP fun r => r.2 == x :=
      countP_pos_iff.mpr ⟨(i, x), hmem, beq_self_eq_true x⟩
    rw [count] at hone
    omega
  have hne : ∀ j e n, (s.pcs j).owned = some (e, n) → e ≠ x :=
    fun j e n hj he => (h.owned j e n hj).unlinked (he ▸ hx)
  have hpool := poolInv_unlink h.pool hx
  have hcount := count_erase extra hmem
  rw [hone] at hcount
  rw [← hcount] at hpool
  show Inv ⟨unlink (decRef s.core x) x, update s.pcs i (.last x), s.refs.erase (i, x)⟩ extra
  refine h.frame hpool (Nat.le_refl _) (fun j _ e n hj => ⟨hval e (hne j e n hj), rfl, ?_⟩)
    (fun j hji y hy => ?_) (fun e n he => ?_) trivial (fun e hlt hlive => ?_) (fun e he => ?_)
    (fun e hlt hdead => ?_)
  · exact fun hl => (h.owned j e n hj).unlinked ((hlinked e).mp hl).2
  · exact (mem_erase_of_ne (fun heq => hji (congrArg Prod.fst heq))).mpr hy
  · cases he
    refine ⟨⟨h.pool.below x hx, h.pool.live x hx, fun hl => ((hlinked x).mp hl).1 rfl, ?_⟩,
      fun j _ m hj => hne j x m hj rfl⟩
    rw [hpage, h.pages x hx, hextra]
    rfl
  · by_cases hex : e = x
    · exact .inr (.inl ⟨1, by rw [hex]; rfl⟩)
    · rcases h.place i hlt hlive with hl | ⟨n, hn⟩ | hj
      · exact .inl ((hlinked e).mpr ⟨hex, hl⟩)
      · rw [hpc] at hn
        cases hn
      · exact .inr (.inr hj)
  · obtain ⟨hex, hl⟩ := (hlinked e).mp he
    rw [hval e hex]
    exact h.pages e hl
  · have hex : e ≠ x := fun heq => by
      rw [heq] at hdead
      exact Bool.noConfusion ((h.pool.live x hx).symm.trans hdead)
    rw [hval e hex]
    exact h.freed e hlt hdead

/-- **A thread changes its own entry.** -/
theorem Inv.changesOwn (h : Inv s extra) {m : Int} (hown : (s.pcs i).owned = some (e, n))
    (hp : p.owned = some (e, m)) (hg : (g (s.core.entries.val e)).pageRefs = m)
    (hknown : Known (modify s.core e g) s.refs i p) :
    Inv (s.moveTo i p (modify s.core e g)) extra := by
  have hmine := h.owned i e n hown
  have hval : ∀ e', e' ≠ e → (modify s.core e g).entries.val e' = s.core.entries.val e' :=
    fun e' he => val_modify_of_ne _ _ he
  have hne : ∀ e', Linked s.core e' → e' ≠ e := fun e' hl he => hmine.unlinked (he ▸ hl)
  obtain ⟨hpool, hlinked⟩ := h.pool.outside (w := modify s.core e g) rfl (Nat.le_refl _)
    (fun e' he' => ⟨hval e' (hne e' he'), rfl⟩)
  show Inv ⟨modify s.core e g, update s.pcs i p, s.refs⟩ extra
  refine h.frame hpool (Nat.le_refl _) (fun j hji e' k hj => ⟨hval e' (fun he => ?_), rfl, ?_⟩)
    (fun _ _ _ hx => hx) (fun e' k he' => ?_) hknown (fun e' hlt hlive => ?_) (fun e' he' => ?_)
    (fun e' hlt hdead => ?_)
  · exact h.sole hown j hji k (he ▸ hj)
  · exact fun hl => (h.owned j e' k hj).unlinked ((hlinked e').mp hl)
  · cases hp.symm.trans he'
    refine ⟨⟨hmine.below, hmine.live, fun hl => hmine.unlinked ((hlinked e).mp hl), ?_⟩,
      h.sole hown⟩
    show ((s.core.entries.modify e g).val e).pageRefs = m
    rw [val_modify_self]
    exact hg
  · rcases h.place i hlt hlive with hl | ⟨k, hk⟩ | hj
    · exact .inl ((hlinked e').mpr hl)
    · cases hown.symm.trans hk
      exact .inr (.inl ⟨m, hp⟩)
    · exact .inr (.inr hj)
  · have hl := (hlinked e').mp he'
    rw [hval e' (hne e' hl)]
    exact h.pages e' hl
  · have he : e' ≠ e := fun heq => by
      rw [heq] at hdead
      exact Bool.noConfusion (hmine.live.symm.trans hdead)
    rw [hval e' he]
    exact h.freed e' hlt hdead

/-- **A thread frees its own entry**, whose page is gone. -/
theorem Inv.freesOwn (h : Inv s extra) (hown : (s.pcs i).owned = some (e, 0)) :
    Inv (s.moveTo i .idle (freeEntry s.core e)) extra := by
  have hmine := h.owned i e 0 hown
  have hlive : ∀ e', e' ≠ e → (freeEntry s.core e).entries.live e' = s.core.entries.live e' :=
    fun e' he => live_free_of_ne _ he
  have hdead : (freeEntry s.core e).entries.live e = false := live_free_self _ _
  have hne : ∀ e', Linked s.core e' → e' ≠ e := fun e' hl he => hmine.unlinked (he ▸ hl)
  obtain ⟨hpool, hlinked⟩ := h.pool.outside (w := freeEntry s.core e) rfl (Nat.le_refl _)
    (fun e' he' => ⟨rfl, hlive e' (hne e' he')⟩)
  refine h.frame hpool (Nat.le_refl _) (fun j hji e' k hj => ⟨rfl, hlive e' (fun he => ?_), ?_⟩)
    (fun _ _ _ hx => hx) (fun e' k he' => by cases he') trivial (fun e' hlt hl' => ?_)
    (fun e' he' => h.pages e' ((hlinked e').mp he')) (fun e' hlt hd => ?_)
  · exact h.sole hown j hji k (he ▸ hj)
  · exact fun hl => (h.owned j e' k hj).unlinked ((hlinked e').mp hl)
  · have he : e' ≠ e := fun heq => by
      rw [heq] at hl'
      exact Bool.noConfusion (hdead.symm.trans hl')
    rcases h.place i hlt ((hlive e' he).symm.trans hl') with hl | ⟨k, hk⟩ | hj
    · exact .inl ((hlinked e').mpr hl)
    · cases hown.symm.trans hk
      exact absurd rfl he
    · exact .inr (.inr hj)
  · by_cases he : e' = e
    · rw [he]
      exact hmine.pages
    · exact h.freed e' hlt ((hlive e' he).symm.trans hd)

/-- **`kzalloc`** gives a thread an entry of its own. -/
theorem Inv.allocates (h : Inv s extra) (hown : (s.pcs i).owned = none)
    (hp : p.owned = some (s.core.entries.next, 0))
    (hknown : Known (allocEntry s.core) s.refs i p) :
    Inv (s.moveTo i p (allocEntry s.core)) extra := by
  have hval : ∀ e, e < s.core.entries.next →
      (allocEntry s.core).entries.val e = s.core.entries.val e
        ∧ (allocEntry s.core).entries.live e = s.core.entries.live e :=
    fun e he => ⟨val_alloc_of_ne _ _ (Nat.ne_of_lt he), live_alloc_of_ne _ _ (Nat.ne_of_lt he)⟩
  have hself : (allocEntry s.core).entries.val s.core.entries.next = ⟨0, [], 0, 0⟩ :=
    val_alloc_self _ _
  obtain ⟨hpool, hlinked⟩ := h.pool.outside (w := allocEntry s.core) rfl (Nat.le_succ _)
    (fun e he => hval e (h.pool.below e he))
  show Inv ⟨allocEntry s.core, update s.pcs i p, s.refs⟩ extra
  have hfresh : ∀ j m, (s.pcs j).owned ≠ some (s.core.entries.next, m) :=
    fun j m hj => Nat.lt_irrefl _ (h.owned j _ m hj).below
  -- an entry below the new bound is old or the new one
  have hold : ∀ e, e < s.core.entries.next + 1 → e ≠ s.core.entries.next →
      e < s.core.entries.next := fun e hlt hne => by omega
  refine h.frame hpool (Nat.le_succ _) (fun j _ e n hj => ?_) (fun _ _ _ hx => hx)
    (fun e n he => ?_) hknown (fun e hlt hlive => ?_) (fun e he => ?_) (fun e hlt hdead => ?_)
  · have hlt := (h.owned j e n hj).below
    exact ⟨(hval e hlt).1, (hval e hlt).2,
      fun hl => (h.owned j e n hj).unlinked ((hlinked e).mp hl)⟩
  · cases hp.symm.trans he
    refine ⟨⟨Nat.lt_succ_self _, live_alloc_self _ _, fun hl => ?_, ?_⟩, fun j _ m => hfresh j m⟩
    · exact Nat.lt_irrefl _ (h.pool.below _ ((hlinked _).mp hl))
    · rw [hself]
  · by_cases hnew : e = s.core.entries.next
    · exact .inr (.inl ⟨0, by rw [hnew]; exact hp⟩)
    · have hlt' := hold e hlt hnew
      rcases h.place i hlt' ((hval e hlt').2.symm.trans hlive) with hl | ⟨k, hk⟩ | hj
      · exact .inl ((hlinked e).mpr hl)
      · cases hown.symm.trans hk
      · exact .inr (.inr hj)
  · have hl := (hlinked e).mp he
    rw [(hval e (h.pool.below e hl)).1]
    exact h.pages e hl
  · by_cases hnew : e = s.core.entries.next
    · rw [hnew, hself]
    · have hlt' := hold e hlt hnew
      rw [(hval e hlt').1]
      exact h.freed e hlt' ((hval e hlt').2.symm.trans hdead)

/-- **A thread links its own entry.** -/
theorem Inv.links (h : Inv s extra) {k : UInt64} (hpc : s.pcs i = .filled k e)
    (hfind : find s.core k = none) : Inv (s.take i e .idle (link s.core e)) extra := by
  have hmine := h.owned i e 1 (by rw [hpc]; rfl)
  have hknown := h.known i
  rw [hpc] at hknown
  obtain ⟨hhash, hone⟩ := hknown
  have hzero := h.pool.uncounted e hmine.unlinked
  have hextra : extra e = 0 := by
    rw [count] at hzero
    omega
  have hpool := poolInv_link h.pool hmine.unlinked hmine.below hmine.live hone
    (fun e' he' => hhash ▸ find_none hfind he')
  have hcount := count_cons s.refs extra i e
  rw [hzero] at hcount
  rw [← hcount] at hpool
  refine h.frame hpool (Nat.le_refl _) (fun j hji e' n hj => ⟨rfl, rfl, fun hl => ?_⟩)
    (fun _ _ _ hx => mem_cons_of_mem _ hx) (fun e' n he' => by cases he') trivial
    (fun e' hlt hlive => ?_) (fun e' he' => ?_) h.freed
  · rcases (linked_link s.core e e').mp hl with rfl | hl
    · exact h.sole (by rw [hpc]; rfl) j hji n hj
    · exact (h.owned j e' n hj).unlinked hl
  · rcases h.place i hlt hlive with hl | ⟨n, hn⟩ | hj
    · exact .inl ((linked_link s.core e e').mpr (.inr hl))
    · rw [hpc] at hn
      cases hn
      exact .inl ((linked_link s.core e e).mpr (.inl rfl))
    · exact .inr (.inr hj)
  · show (s.core.entries.val e').pageRefs = _
    rcases (linked_link s.core e e').mp he' with rfl | hl
    · rw [hmine.pages, hextra]
      rfl
    · exact h.pages e' hl

/-- **References change hands** between a thread and something else, together with the
    references of the page that come with the latter. -/
theorem Inv.shift (h : Inv s extra) (hpc : s.pcs i = .idle) (hx : Linked s.core x)
    (hcount : count refs extra' = count s.refs extra) (hextra : ∀ e, e ≠ x → extra' e = extra e)
    (hn : (extra x : Int) + n = extra' x)
    (hrefs : ∀ j, j ≠ i → ∀ y, (j, y) ∈ s.refs → (j, y) ∈ refs) :
    Inv ⟨modify s.core x (PhysPageEntry.addPageRefs n), s.pcs, refs⟩ extra' := by
  have hpool := h.pool.counted hx (g := PhysPageEntry.addPageRefs n) rfl (h.pool.counts x hx)
  rw [update_eq_self, ← hcount] at hpool
  obtain ⟨hpool, hlinked⟩ := hpool
  have hval : ∀ e, e ≠ x → (modify s.core x (PhysPageEntry.addPageRefs n)).entries.val e
      = s.core.entries.val e := fun e he => val_modify_of_ne _ _ he
  have hself : (modify s.core x (PhysPageEntry.addPageRefs n)).entries.val x
      = (s.core.entries.val x).addPageRefs n := val_modify_self _ _ _
  have hne : ∀ j e m, (s.pcs j).owned = some (e, m) → e ≠ x :=
    fun j e m hj he => (h.owned j e m hj).unlinked (he ▸ hx)
  have hpcs : update s.pcs i .idle = s.pcs := by
    rw [← hpc, update_eq_self]
  rw [← hpcs]
  refine h.frame hpool (Nat.le_refl _) (fun j _ e m hj => ⟨hval e (hne j e m hj), rfl, ?_⟩) hrefs
    (fun e m he => by cases he) trivial (fun e hlt hlive => ?_) (fun e he => ?_)
    (fun e hlt hdead => ?_)
  · exact fun hl => (h.owned j e m hj).unlinked ((hlinked e).mp hl)
  · rcases h.place i hlt hlive with hl | ⟨m, hm⟩ | hj
    · exact .inl ((hlinked e).mpr hl)
    · rw [hpc] at hm
      cases hm
    · exact .inr (.inr hj)
  · by_cases hex : e = x
    · rw [hex, hself]
      show (s.core.entries.val x).pageRefs + n = _
      rw [h.pages x hx, ← hn]
      omega
    · rw [hval e hex, h.pages e ((hlinked e).mp he), hextra e hex]
  · have hex : e ≠ x := fun heq => by
      rw [heq] at hdead
      exact Bool.noConfusion ((h.pool.live x hx).symm.trans hdead)
    rw [hval e hex]
    exact h.freed e hlt hdead

end Steps

/-- **The step.**  A step keeps the invariant as long as no count overflows. -/
theorem Inv.move {a : Action} (h : Inv s extra) (hmove : PoolMove s i a s')
    (hbound : ∀ e, count s'.refs extra e < 2 ^ 31) : Inv s' extra := by
  have hinc : ∀ x, count ((i, x) :: s.refs) extra x < 2 ^ 31 →
      count s.refs extra x + 1 < 2 ^ 32 := by
    intro x hx
    rw [count_cons, update_self] at hx
    omega
  cases hmove with
  | miss k hpc hfind => exact h
  | hit a k e ha hpc hfind =>
    have hx := (h.pool.find_some hfind).1
    exact h.takes hx (hinc e (hbound e)) (by rw [hpc]) trivial
  | check k data hpc hfind | kzallocFail k data hpc | pageFail k data e hpc =>
    exact h.goes (by rw [hpc]; rfl) trivial
  | kzalloc k data hpc => exact h.allocates (by rw [hpc]; rfl) rfl trivial
  | fill k data e hpc =>
    have hval : (fillEntry s.core e k data).entries.val e = ⟨k, data, 1, 1⟩ :=
      val_modify_self s.core.entries e fun _ => (⟨k, data, 1, 1⟩ : PhysPageEntry)
    refine h.changesOwn (n := 0) (m := 1) (by rw [hpc]; rfl) rfl rfl ?_
    show ((fillEntry s.core e k data).entries.val e).hashIdx = k
      ∧ ((fillEntry s.core e k data).entries.val e).refCount = 1
    rw [hval]
    exact ⟨rfl, rfl⟩
  | freeNew ok e hpc | loseEntry ok e x hpc | dropEntry ok e hpc =>
    exact h.freesOwn (by rw [hpc]; rfl)
  | lose ok k e x hpc hfind =>
    have hx := (h.pool.find_some hfind).1
    exact h.takes hx (hinc x (hbound x)) (by rw [hpc]; rfl) (mem_cons_self ..)
  | win ok k e hpc hfind => exact h.links hpc hfind
  | losePage ok e x hpc =>
    have hown : (s.pcs i).owned = some (e, 1) := by
      rw [hpc]
      rfl
    have hknown := h.known i
    rw [hpc] at hknown
    refine h.changesOwn (m := 0) hown rfl ?_ hknown
    show (s.core.entries.val e).pageRefs + -1 = 0
    rw [(h.owned i e 1 hown).pages]
    rfl
  | unref e hpc hmem hmore => exact h.drops hmem hpc hmore
  | unrefLast e hpc hmem hzero => exact h.dropsLast hmem hpc hzero
  | dropPage ok e hpc =>
    have hown : (s.pcs i).owned = some (e, 1) := by
      rw [hpc]
      rfl
    refine h.changesOwn (m := 0) hown rfl ?_ trivial
    show (s.core.entries.val e).pageRefs + -1 = 0
    rw [(h.owned i e 1 hown).pages]
    rfl

end PoolThreads
