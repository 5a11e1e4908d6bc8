import Mathlib.Logic.Function.Basic
import Mathlib.Data.List.Basic

/-! # A pool of threads — counting what the threads hold

    The program counters of the threads are a list, and a step of thread `i`
    replaces one of them.  `f` says which object, if any, a thread at a given
    program counter holds; `holders f ts k` is how many threads hold `k`.  A
    step takes an object, drops one or changes nothing, and the three lemmas
    about `set` say how the counts follow.  Where the program counters are a
    function of the thread, `unique_update` keeps two threads from one place. -/

namespace ThreadPool

open Function (update update_of_ne update_self)

variable {P K : Type} [DecidableEq K] {f : P → Option K} {ts : List P} {i : Nat} {p q : P} {k : K}

/-- How many threads hold `k`. -/
def holders (f : P → Option K) (ts : List P) (k : K) : Nat :=
  ts.countP fun p => f p = some k

/-- The count of one object after a step. -/
theorem holders_set (h : ts[i]? = some p) (k : K) :
    holders f (ts.set i q) k
      = holders f ts k - (if f p = some k then 1 else 0) + (if f q = some k then 1 else 0) := by
  obtain ⟨hi, hp⟩ := List.getElem?_eq_some_iff.mp h
  rw [holders, holders, List.countP_set hi, hp]
  simp only [decide_eq_true_eq]

theorem holders_pos (h : ts[i]? = some p) (hp : f p = some k) : 0 < holders f ts k :=
  List.countP_pos_iff.mpr ⟨p, List.mem_of_getElem? h, decide_eq_true hp⟩

theorem holders_eq_zero : holders f ts k = 0 ↔ ∀ p ∈ ts, f p ≠ some k := by
  rw [holders, List.countP_eq_zero]
  simp only [decide_eq_true_eq, ne_eq]

/-- A step that holds the same afterwards. -/
theorem holders_set_same (h : ts[i]? = some p) (hq : f q = f p) :
    holders f (ts.set i q) = holders f ts := by
  funext k
  rw [holders_set h, hq]
  by_cases hk : f p = some k
  · have hpos := holders_pos h hk
    rw [if_pos hk]
    omega
  · rw [if_neg hk]
    omega

/-- A step that takes an object. -/
theorem holders_set_take (h : ts[i]? = some p) (hp : f p = none) (hq : f q = some k) :
    holders f (ts.set i q) = update (holders f ts) k (holders f ts k + 1) := by
  funext k'
  rw [holders_set h, hp, hq]
  by_cases hk : k' = k
  · rw [hk, update_self, if_neg (by simp), if_pos rfl]
    rfl
  · rw [update_of_ne hk, if_neg (by simp), if_neg (by simpa using Ne.symm hk)]
    rfl

/-- A step that drops one. -/
theorem holders_set_drop (h : ts[i]? = some p) (hp : f p = some k) (hq : f q = none) :
    holders f (ts.set i q) = update (holders f ts) k (holders f ts k - 1) := by
  funext k'
  rw [holders_set h, hp, hq]
  by_cases hk : k' = k
  · rw [hk, update_self, if_pos rfl, if_neg (by simp)]
    rfl
  · rw [update_of_ne hk, if_neg (by simpa using Ne.symm hk), if_neg (by simp)]
    rfl

omit [DecidableEq K] in
/-- A place where at most one thread is, after thread `i` has moved: it is not there,
    or no other thread was. -/
theorem unique_update {pcs : Nat → P} {Q : P → Prop}
    (h : ∀ j k, Q (pcs j) → Q (pcs k) → j = k) (hnew : Q p → ∀ j, j ≠ i → ¬ Q (pcs j))
    (j k : Nat) (hj : Q (update pcs i p j)) (hk : Q (update pcs i p k)) :
    j = k := by
  by_cases hji : j = i <;> by_cases hki : k = i
  · exact hji.trans hki.symm
  · rw [hji, update_self] at hj
    rw [update_of_ne hki] at hk
    exact absurd hk (hnew hj k hki)
  · rw [update_of_ne hji] at hj
    rw [hki, update_self] at hk
    exact absurd hj (hnew hk j hji)
  · rw [update_of_ne hji] at hj
    rw [update_of_ne hki] at hk
    exact h j k hj hk

end ThreadPool
