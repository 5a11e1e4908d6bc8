import Mathlib.Data.ZMod.Basic
import Mathlib.Data.Finset.Card
import Mathlib.Order.Interval.Finset.Nat
import Mathlib.Tactic.Ring

/-! # Bounded linear probing — when a key finds a place

    A table of `m` slots, taken modulo `m`.  A key is searched from its home
    slot on, for at most `P` slots, up to the first slot that is empty or holds
    the key; insertion puts the key there and nothing is ever removed.

    The occupied slots depend only on the set of keys stored, not on the order
    they came in (`occupied_iff`): a slot is taken exactly when some interval
    ending at it is the home of at least as many keys as it has slots.  Hence
    the question whether a list of keys can be stored in full has an answer
    in terms of their homes alone (`all_stored_iff`). -/

namespace ProbeTable

open List Option
open Function (update update_eq_self update_of_ne update_self)

variable {K : Type} {m : Nat}

/-- A slot is empty or holds a key. -/
abbrev Table (K : Type) (m : Nat) := ZMod m → Option K

/-- The search stops at `s`: the slot is empty or holds the key. -/
def Stops (T : Table K m) (k : K) (s : ZMod m) : Prop :=
  T s = none ∨ T s = some k

instance [DecidableEq K] (T : Table K m) (k : K) (s : ZMod m) : Decidable (Stops T k s) :=
  inferInstanceAs (Decidable (_ ∨ _))

/-- The first stop among the `n` slots from `s` on. -/
def search [DecidableEq K] (T : Table K m) (k : K) : Nat → ZMod m → Option (ZMod m)
  | 0, _ => none
  | n + 1, s => if Stops T k s then some s else search T k n (s + 1)

/-- Store `k` at the first stop of its search; without a stop nothing
    changes. -/
def insert [DecidableEq K] (home : K → ZMod m) (P : Nat) (T : Table K m)
    (k : K) : Table K m :=
  match search T k P (home k) with
  | none => T
  | some s => update T s (some k)

/-- Insert the keys of a list in order. -/
def fill [DecidableEq K] (home : K → ZMod m) (P : Nat) :
    Table K m → List K → Table K m
  | T, [] => T
  | T, k :: ks => fill home P (insert home P T k) ks

/-- `k` is in the table. -/
def Stored (T : Table K m) (k : K) : Prop := ∃ s, T s = some k

/-- What insertion keeps: no key is stored twice, every key lies less than `P`
    slots after its home, and no slot on the way is empty. -/
structure Layout (home : K → ZMod m) (P : Nat) (T : Table K m) : Prop where
  once : ∀ s t k, T s = some k → T t = some k → s = t
  near : ∀ s k, T s = some k → (s - home k).val < P
  path : ∀ s k, T s = some k → ∀ d : Nat, d ≤ (s - home k).val → T (home k + d) ≠ none

/-- The interval of `L` slots ending at `t` is home to at least `L` keys of
    `S`, for some `L`. -/
def Crowded (home : K → ZMod m) (S : Finset K) (t : ZMod m) : Prop :=
  ∃ L, 1 ≤ L ∧ L ≤ m ∧ L ≤ (S.filter fun k => (t - home k).val < L).card

/-- Every slot the search for `k` may visit is crowded by the keys of `S`. -/
def Saturated (home : K → ZMod m) (P : Nat) (S : Finset K) (k : K) : Prop :=
  ∀ d < P, Crowded home S (home k + (d : Nat))

/-! ## The search -/

variable {T : Table K m} {k x : K} {s t : ZMod m}

/-- A slot with another key does not stop the search. -/
theorem not_stops_of_ne (hx : T s = some x) (hne : x ≠ k) : ¬ Stops T k s := by
  rintro (hn | hk)
  · rw [hx] at hn; cases hn
  · rw [hx] at hk; exact hne (some.inj hk)

section Search

variable [DecidableEq K]

private theorem add_succ_cast (s : ZMod m) (d : Nat) :
    s + ((d + 1 : Nat) : ZMod m) = s + 1 + (d : Nat) := by
  push_cast
  ring

variable {n : Nat}

/-- The search returns the nearest stop. -/
theorem search_eq_some (h : search T k n s = some t) :
    ∃ d < n, t = s + (d : Nat) ∧ Stops T k t ∧ ∀ e < d, ¬ Stops T k (s + (e : Nat)) := by
  induction n generalizing s with
  | zero => cases h
  | succ n ih =>
    rw [search] at h
    by_cases hs : Stops T k s
    · rw [if_pos hs] at h
      refine ⟨0, Nat.succ_pos n, by simpa using (some.inj h).symm,
        some.inj h ▸ hs, ?_⟩
      intro e he
      exact absurd he (Nat.not_lt_zero e)
    · rw [if_neg hs] at h
      obtain ⟨d, hd, ht, hstop, hbefore⟩ := ih h
      refine ⟨d + 1, by omega, by rw [ht, add_succ_cast], hstop, ?_⟩
      intro e he
      cases e with
      | zero => simpa using hs
      | succ e =>
        rw [add_succ_cast]
        exact hbefore e (by omega)

/-- The search fails exactly when no slot it may visit is a stop. -/
theorem search_eq_none : search T k n s = none ↔ ∀ d < n, ¬ Stops T k (s + (d : Nat)) := by
  induction n generalizing s with
  | zero => exact ⟨fun _ d hd => absurd hd (Nat.not_lt_zero d), fun _ => rfl⟩
  | succ n ih =>
    rw [search]
    by_cases hs : Stops T k s
    · rw [if_pos hs]
      constructor
      · intro h; cases h
      · intro h
        exact absurd (by simpa using hs) (h 0 (Nat.succ_pos n))
    · rw [if_neg hs, ih]
      constructor
      · intro h d hd
        cases d with
        | zero => simpa using hs
        | succ d =>
          rw [add_succ_cast]
          exact h d (by omega)
      · intro h d hd
        have := h (d + 1) (by omega)
        rw [add_succ_cast] at this
        exact this

/-- The first stop, given by its distance, is what the search returns. -/
theorem search_of_first {d : Nat} (hd : d < n) (hstop : Stops T k (s + (d : Nat)))
    (hbefore : ∀ e < d, ¬ Stops T k (s + (e : Nat))) : search T k n s = some (s + (d : Nat)) := by
  cases hs : search T k n s with
  | none => exact absurd hstop (search_eq_none.mp hs d hd)
  | some t =>
    obtain ⟨d', _, ht, hstop', hbefore'⟩ := search_eq_some hs
    have hdd : d' = d := by
      rcases Nat.lt_trichotomy d' d with h | h | h
      · exact absurd (ht ▸ hstop') (hbefore d' h)
      · exact h
      · exact absurd hstop (hbefore' d h)
    rw [ht, hdd]

end Search

/-! ## Insertion keeps the layout -/

section Insert

variable {home : K → ZMod m} {P : Nat} {T : Table K m} {k : K}

/-- The empty table is laid out. -/
theorem layout_empty : Layout home P (fun _ => none : Table K m) := by
  constructor
  · intro _ _ _ h
    cases h
  · intro _ _ h
    cases h
  · intro _ _ h
    cases h

variable [DecidableEq K]

theorem insert_of_none (h : search T k P (home k) = none) : insert home P T k = T := by
  rw [insert, h]

theorem insert_of_some (h : search T k P (home k) = some s) :
    insert home P T k = update T s (some k) := by
  rw [insert, h]

/-- A taken slot keeps its key. -/
theorem insert_keeps (h : T s = some x) : insert home P T k s = some x := by
  cases hs : search T k P (home k) with
  | none => rw [insert_of_none hs]; exact h
  | some t =>
    rw [insert_of_some hs]
    obtain ⟨_, _, _, hstop, _⟩ := search_eq_some hs
    by_cases hst : s = t
    · subst hst
      rcases hstop with hn | hk
      · rw [hn] at h; cases h
      · rw [update_self, ← hk]; exact h
    · rw [update_of_ne hst]; exact h

theorem stored_insert (h : Stored T x) : Stored (insert home P T k) x := by
  obtain ⟨s, hs⟩ := h
  exact ⟨s, insert_keeps hs⟩

/-- The keys stored afterwards are those stored before, and the new key if
    its search found a stop. -/
theorem stored_insert_iff :
    Stored (insert home P T k) x ↔ Stored T x ∨ (x = k ∧ search T k P (home k) ≠ none) := by
  cases hs : search T k P (home k) with
  | none =>
    rw [insert_of_none hs]
    exact ⟨.inl, fun h => h.elim id fun h => absurd rfl h.2⟩
  | some t =>
    constructor
    · rintro ⟨s, hsx⟩
      rw [insert_of_some hs] at hsx
      by_cases hst : s = t
      · subst hst
        rw [update_self] at hsx
        exact .inr ⟨(some.inj hsx).symm, fun h => by cases h⟩
      · rw [update_of_ne hst] at hsx
        exact .inl ⟨s, hsx⟩
    · rintro (h | ⟨rfl, -⟩)
      · exact stored_insert h
      · refine ⟨t, ?_⟩
        rw [insert_of_some hs, update_self]

/-- A search that failed fails in every later table, so the key is never
    stored. -/
theorem search_none_insert (h : search T x P (home x) = none) :
    search (insert home P T k) x P (home x) = none := by
  rw [search_eq_none] at h ⊢
  intro d hd
  have hfull := h d hd
  cases hT : T (home x + (d : Nat)) with
  | none => exact absurd (.inl hT) hfull
  | some y =>
    exact not_stops_of_ne (insert_keeps hT) fun e => hfull (.inr (e ▸ hT))

variable [NeZero m]

/-- A stored key is where its search stops. -/
theorem Layout.search_stored (hT : Layout home P T) (h : T s = some k) :
    search T k P (home k) = some s := by
  have hs : home k + (((s - home k).val : Nat) : ZMod m) = s := by
    rw [ZMod.natCast_zmod_val]; ring
  have := search_of_first (T := T) (k := k) (s := home k) (hT.near s k h) (.inr (hs.symm ▸ h)) ?_
  · rw [this, hs]
  · intro e he hstop
    rcases hstop with hn | hk
    · exact hT.path s k h e he.le hn
    · -- a second copy of the key would lie at a smaller distance
      have heq := hT.once _ _ _ hk h
      have hlt : e < m := he.trans (ZMod.val_lt _)
      have hval : (s - home k).val = e := by
        rw [← heq, add_sub_cancel_left, ZMod.val_cast_of_lt hlt]
      omega

/-- Insertion keeps the layout. -/
theorem Layout.insert (hT : Layout home P T) (hP : P ≤ m) : Layout home P (insert home P T k) := by
  cases hs : search T k P (home k) with
  | none => rw [insert_of_none hs]; exact hT
  | some t =>
    obtain ⟨d, hd, ht, hstop, hbefore⟩ := search_eq_some hs
    rw [insert_of_some hs]
    rcases hstop with hn | hk
    · have hnot : ∀ s, T s ≠ some k := by
        intro s hsk
        have hst := hT.search_stored hsk
        rw [hs] at hst
        rw [← some.inj hst, hn] at hsk
        cases hsk
      have hval : (t - home k).val = d := by
        rw [ht, add_sub_cancel_left, ZMod.val_cast_of_lt (by omega)]
      have htaken : ∀ s : ZMod m, T s ≠ none → update T t (some k) s ≠ none := by
        intro s hsn
        by_cases hst : s = t
        · rw [hst, update_self]; exact fun h => by cases h
        · rw [update_of_ne hst]; exact hsn
      refine ⟨?_, ?_, ?_⟩
      · intro a b x ha hb
        by_cases hat : a = t <;> by_cases hbt : b = t
        · rw [hat, hbt]
        · rw [hat, update_self] at ha
          rw [update_of_ne hbt, ← ha] at hb
          exact absurd hb (hnot b)
        · rw [hbt, update_self] at hb
          rw [update_of_ne hat, ← hb] at ha
          exact absurd ha (hnot a)
        · rw [update_of_ne hat] at ha
          rw [update_of_ne hbt] at hb
          exact hT.once a b x ha hb
      · intro a x ha
        by_cases hat : a = t
        · rw [hat, update_self] at ha
          rw [← some.inj ha, hat, hval]
          exact hd
        · rw [update_of_ne hat] at ha
          exact hT.near a x ha
      · intro a x ha e he
        by_cases hat : a = t
        · rw [hat, update_self] at ha
          rw [← some.inj ha] at he ⊢
          rw [hat, hval] at he
          rcases Nat.lt_or_eq_of_le he with hlt | heq
          · refine htaken _ ?_
            intro hnone
            exact hbefore e hlt (.inl hnone)
          · rw [heq, ← ht, update_self]
            exact fun h => by cases h
        · rw [update_of_ne hat] at ha
          exact htaken _ (hT.path a x ha e he)
    · rw [← hk, update_eq_self]
      exact hT

end Insert

/-! ## Which slots are taken -/

section Occupied

variable [NeZero m] {home : K → ZMod m} {P : Nat} {T : Table K m} {S : Finset K}

variable {L : Nat}

/-- Below an empty slot the keys at home in an interval ending there have all
    found a place inside the interval, and the slot itself is free. -/
theorem card_lt_of_empty (hT : Layout home P T) (hS : ∀ k, k ∈ S ↔ Stored T k) (ht : T t = none)
    (hL : 1 ≤ L) : (S.filter fun k => (t - home k).val < L).card < L := by
  classical
  -- the slot of each stored key, and its distance to `t`
  have hslot : ∀ k ∈ S, ∃ s, T s = some k := fun k hk => (hS k).mp hk
  choose! slot hslot using hslot
  have hdist : ∀ k ∈ S.filter (fun k => (t - home k).val < L),
      (t - slot k).val ∈ Finset.Ico 1 L := by
    intro k hk
    obtain ⟨hkS, hkL⟩ := Finset.mem_filter.mp hk
    have hs := hslot k hkS
    have hlt : (slot k - home k).val < (t - home k).val := by
      by_contra hge
      have := hT.path _ _ hs (t - home k).val (by omega)
      rw [ZMod.natCast_zmod_val] at this
      exact this (by rw [add_sub_cancel]; exact ht)
    have hsub : (t - slot k).val = (t - home k).val - (slot k - home k).val := by
      rw [← ZMod.val_sub hlt.le]
      congr 1
      ring
    rw [Finset.mem_Ico]
    omega
  have hinj : Set.InjOn (fun k => (t - slot k).val) (S.filter fun k => (t - home k).val < L) := by
    intro a ha b hb hab
    have haS := (Finset.mem_filter.mp (Finset.mem_coe.mp ha)).1
    have hbS := (Finset.mem_filter.mp (Finset.mem_coe.mp hb)).1
    have hsl : slot a = slot b := by
      have := ZMod.val_injective m hab
      exact sub_right_injective this
    have h1 := hslot a haS
    have h2 := hslot b hbS
    rw [hsl, h2] at h1
    exact (some.inj h1).symm
  have hcard := Finset.card_le_card_of_injOn _ hdist hinj
  rw [Nat.card_Ico] at hcard
  omega

/-- The taken slots below `t` reach down to an empty slot, or around the
    whole table. -/
theorem exists_run (T : Table K m) (t : ZMod m) (ht : T t ≠ none) :
    ∃ L, 1 ≤ L ∧ L ≤ m ∧ (∀ j < L, T (t - (j : Nat)) ≠ none) ∧
      (L = m ∨ T (t - (L : Nat)) = none) := by
  by_cases hall : ∀ j < m, T (t - (j : Nat)) ≠ none
  · exact ⟨m, Nat.pos_of_ne_zero (NeZero.ne m), le_refl m, hall, .inl rfl⟩
  · push Not at hall
    classical
    let L := Nat.find hall
    obtain ⟨hLm, hLnone⟩ : L < m ∧ T (t - (L : Nat)) = none := Nat.find_spec hall
    refine ⟨L, ?_, hLm.le, ?_, .inr hLnone⟩
    · rcases Nat.eq_zero_or_pos L with h0 | hpos
      · rw [h0] at hLnone
        exact absurd (by simpa using hLnone) ht
      · exact hpos
    · intro j hj hnone
      exact Nat.find_min hall hj ⟨hj.trans hLm, hnone⟩

/-- The keys of a run of taken slots are all at home inside it. -/
theorem home_in_run (hT : Layout home P T) {j : Nat}
    (hL : L = m ∨ (L ≤ m ∧ T (t - (L : Nat)) = none)) (hj : j < L)
    (hk : T (t - (j : Nat)) = some k) : (t - home k).val < L := by
  rcases hL with rfl | ⟨hLm, hnone⟩
  · exact ZMod.val_lt _
  · by_contra hge
    have hjm : ((j : Nat) : ZMod m).val = j := ZMod.val_cast_of_lt (by omega)
    have hval : (t - (j : Nat) - home k).val = (t - home k).val - j := by
      rw [show t - (j : Nat) - home k = (t - home k) - (j : Nat) by ring]
      rw [ZMod.val_sub (by rw [hjm]; omega), hjm]
    have hpath := hT.path _ _ hk ((t - home k).val - L) (by rw [hval]; omega)
    refine hpath ?_
    rw [Nat.cast_sub (by omega), ZMod.natCast_zmod_val]
    rw [show home k + (t - home k - (L : Nat)) = t - (L : Nat) by ring]
    exact hnone

/-- **WHICH SLOTS ARE TAKEN.**  In a table with the layout, a slot is taken
    exactly when it is crowded by the keys stored. -/
theorem occupied_iff (hT : Layout home P T)
    (hS : ∀ k, k ∈ S ↔ Stored T k) (t : ZMod m) :
    T t ≠ none ↔ Crowded home S t := by
  constructor
  · intro ht
    obtain ⟨L, hL1, hLm, hrun, hend⟩ := exists_run T t ht
    refine ⟨L, hL1, hLm, ?_⟩
    have hend' : L = m ∨ (L ≤ m ∧ T (t - (L : Nat)) = none) := hend.imp id fun h => ⟨hLm, h⟩
    obtain ⟨k₀, -⟩ := Option.ne_none_iff_exists'.mp ht
    -- the key of the slot `j` below `t`
    have hkey : ∀ j < L, T (t - (j : Nat)) = some ((T (t - (j : Nat))).getD k₀) := by
      intro j hj
      obtain ⟨k, hk⟩ := Option.ne_none_iff_exists'.mp (hrun j hj)
      rw [hk]; rfl
    refine Finset.le_card_of_inj_on_range (fun j => (T (t - (j : Nat))).getD k₀) ?_ ?_
    · intro j hj
      refine Finset.mem_filter.mpr ⟨(hS _).mpr ⟨_, hkey j hj⟩, ?_⟩
      exact home_in_run hT hend' hj (hkey j hj)
    · intro i hi j hj hij
      have h1 := hkey i hi
      have h2 := hkey j hj
      rw [hij] at h1
      have hslot := sub_right_injective (hT.once _ _ _ h1 h2)
      have hi' : ((i : Nat) : ZMod m).val = i := ZMod.val_cast_of_lt (by omega)
      have hj' : ((j : Nat) : ZMod m).val = j := ZMod.val_cast_of_lt (by omega)
      rw [← hi', ← hj', hslot]
  · rintro ⟨L, hL1, -, hcard⟩ hnone
    have := card_lt_of_empty hT hS hnone hL1
    omega

/-- A key not stored yet finds a place exactly when its search is not
    saturated. -/
theorem search_none_iff [DecidableEq K] (hT : Layout home P T) (hS : ∀ k, k ∈ S ↔ Stored T k)
    (hk : k ∉ S) : search T k P (home k) = none ↔ Saturated home P S k := by
  rw [search_eq_none]
  refine forall_congr' fun d => forall_congr' fun _ => ?_
  rw [← occupied_iff hT hS]
  constructor
  · exact fun h hn => h (.inl hn)
  · rintro h (hn | hx)
    · exact h hn
    · exact hk ((hS k).mpr ⟨_, hx⟩)

end Occupied

/-! ## Filling a table -/

section Fill

variable [DecidableEq K] {home : K → ZMod m} {P : Nat} {T : Table K m} {S : Finset K}

theorem fill_append (ks ks' : List K) :
    fill home P T (ks ++ ks') = fill home P (fill home P T ks) ks' := by
  induction ks generalizing T with
  | nil => rfl
  | cons k ks ih => exact ih

/-- Only keys of the list are added. -/
theorem mem_of_stored_fill (ks : List K) (h : Stored (fill home P T ks) x) :
    Stored T x ∨ x ∈ ks := by
  induction ks generalizing T with
  | nil => exact .inl h
  | cons k ks ih =>
    rcases ih h with hT | hx
    · rw [stored_insert_iff] at hT
      rcases hT with hT | ⟨rfl, -⟩
      · exact .inl hT
      · exact .inr (mem_cons_self ..)
    · exact .inr (mem_cons_of_mem _ hx)

theorem stored_fill (ks : List K) (h : Stored T x) : Stored (fill home P T ks) x := by
  induction ks generalizing T with
  | nil => exact h
  | cons k ks ih => exact ih (stored_insert h)

/-- A key whose search fails once is not stored later on either. -/
theorem not_stored_fill (ks : List K) (hnone : search T x P (home x) = none) (hx : ¬ Stored T x) :
    ¬ Stored (fill home P T ks) x := by
  induction ks generalizing T with
  | nil => exact hx
  | cons k ks ih =>
    refine ih (search_none_insert hnone) ?_
    rw [stored_insert_iff]
    rintro (h | ⟨rfl, hne⟩)
    · exact hx h
    · exact hne hnone

/-- Every key of the list finds a place when its turn comes, given the keys
    `S` stored before. -/
def Fits (home : K → ZMod m) (P : Nat) (S : Finset K) (ks : List K) : Prop :=
  ∀ pre k post, ks = pre ++ k :: post →
    k ∈ S ∪ pre.toFinset ∨ ¬ Saturated home P (S ∪ pre.toFinset) k

variable {ks : List K}

theorem fits_cons :
    Fits home P S (k :: ks) ↔
      (k ∈ S ∨ ¬ Saturated home P S k) ∧ Fits home P (Insert.insert k S) ks := by
  have hset : ∀ pre : List K, S ∪ (k :: pre).toFinset = Insert.insert k S ∪ pre.toFinset := by
    intro pre
    ext x
    simp only [toFinset_cons, Finset.mem_union, Finset.mem_insert]
    tauto
  constructor
  · intro h
    refine ⟨by simpa using h [] k ks rfl, ?_⟩
    intro pre x post hks
    have := h (k :: pre) x post (by rw [hks]; rfl)
    rwa [hset] at this
  · rintro ⟨h0, h⟩ pre x post hks
    cases pre with
    | nil =>
      obtain ⟨rfl, -⟩ := List.cons.inj hks
      simpa using h0
    | cons y pre =>
      obtain ⟨rfl, hrest⟩ := List.cons.inj hks
      rw [hset]
      exact h pre x post hrest

variable [NeZero m]

theorem Layout.fill (hP : P ≤ m) (ks : List K) (hT : Layout home P T) :
    Layout home P (fill home P T ks) := by
  induction ks generalizing T with
  | nil => exact hT
  | cons k ks ih => exact ih (hT.insert hP)

/-- **WHEN A LIST OF KEYS IS STORED IN FULL.**  Filling a laid-out table stores
    every key of the list exactly when each key fits when its turn comes. -/
theorem all_stored_iff (hP : P ≤ m) (ks : List K) (hT : Layout home P T)
    (hS : ∀ k, k ∈ S ↔ Stored T k) :
    (∀ k ∈ ks, Stored (fill home P T ks) k) ↔ Fits home P S ks := by
  induction ks generalizing T S with
  | nil =>
    refine ⟨fun _ pre k post h => ?_, fun _ k hk => by cases hk⟩
    cases pre <;> cases h
  | cons k ks ih =>
    have hplaced : (k ∈ S ∨ ¬ Saturated home P S k) ↔ Stored (insert home P T k) k := by
      by_cases hkS : k ∈ S
      · exact ⟨fun _ => stored_insert ((hS k).mp hkS), fun _ => .inl hkS⟩
      · rw [← search_none_iff hT hS hkS, stored_insert_iff, ← hS k]
        exact ⟨fun h => h.imp id fun h => ⟨rfl, h⟩, fun h => h.imp id fun h => h.2⟩
    -- once `k` is stored, the stored keys are `k` and those of `S`
    have hnext : Stored (insert home P T k) k →
        ∀ x, x ∈ Insert.insert k S ↔ Stored (insert home P T k) x := by
      intro hk x
      rw [Finset.mem_insert, hS x, stored_insert_iff]
      constructor
      · rintro (rfl | hx)
        · exact stored_insert_iff.mp hk
        · exact .inl hx
      · rintro (hx | ⟨rfl, -⟩)
        · exact .inr hx
        · exact .inl rfl
    rw [fits_cons, hplaced]
    constructor
    · intro h
      have hk : Stored (insert home P T k) k := by
        by_contra hno
        have hno' := hno
        rw [stored_insert_iff] at hno
        push Not at hno
        have hnone := hno.2 rfl
        exact not_stored_fill ks (search_none_insert hnone) hno' (h k (mem_cons_self ..))
      exact ⟨hk, (ih (hT.insert hP) (hnext hk)).mp fun x hx =>
        h x (mem_cons_of_mem _ hx)⟩
    · rintro ⟨hk, hfits⟩ x hx
      rcases mem_cons.mp hx with rfl | hx
      · exact stored_fill ks hk
      · exact (ih (hT.insert hP) (hnext hk)).mpr hfits x hx

/-- All keys inserted into an empty table are stored exactly if the list fits. -/
theorem all_stored_fill_iff (hP : P ≤ m) (ks : List K) :
    (∀ k ∈ ks, Stored (fill home P (fun _ => none) ks) k) ↔ Fits home P ∅ ks := by
  refine all_stored_iff hP ks layout_empty ?_
  intro k
  constructor
  · intro h; exact absurd h (Finset.notMem_empty k)
  · rintro ⟨_, h⟩; cases h

/-- Keys that are no more than the probes of a search always fit. -/
theorem fits_of_card_le (hP : P ≤ m) (hcard : ks.toFinset.card ≤ P) : Fits home P ∅ ks := by
  refine (all_stored_fill_iff hP ks).mp fun k hk => ?_
  obtain ⟨pre, post, rfl⟩ := append_of_mem hk
  rw [fill_append]
  by_cases hpre : Stored (fill home P (fun _ => none) pre) k
  · exact stored_fill _ hpre
  refine stored_fill post (stored_insert_iff.mpr (.inr ⟨rfl, fun hnone => ?_⟩))
  -- the slots of the search hold different keys, and none of them is `k`
  have hslot : ∀ d : Fin P, ∃ x, fill home P (fun _ => none) pre (home k + (d.val : Nat))
      = some x := fun d =>
    Option.ne_none_iff_exists'.mp fun h => search_eq_none.mp hnone d d.isLt (.inl h)
  choose key hkey using hslot
  have hmem : ∀ d, key d ∈ (pre ++ k :: post).toFinset.erase k := by
    intro d
    refine Finset.mem_erase.mpr ⟨fun h => hpre ⟨_, h ▸ hkey d⟩, ?_⟩
    rcases mem_of_stored_fill pre ⟨_, hkey d⟩ with ⟨_, h⟩ | h
    · cases h
    · exact List.mem_toFinset.mpr (mem_append_left _ h)
  have hinj : Function.Injective key := by
    intro d e h
    have hs := (Layout.fill hP pre layout_empty).once _ _ _ (hkey d) (h ▸ hkey e)
    have hval := congrArg ZMod.val (add_left_cancel hs)
    rw [ZMod.val_natCast_of_lt (d.isLt.trans_le hP), ZMod.val_natCast_of_lt
      (e.isLt.trans_le hP)] at hval
    exact Fin.ext hval
  have hle := Finset.card_le_card_of_injOn key (fun d (_ : d ∈ Finset.univ) => hmem d) hinj.injOn
  rw [Finset.card_univ, Fintype.card_fin,
    Finset.card_erase_of_mem (List.mem_toFinset.mpr hk)] at hle
  have hpos := Finset.card_pos.mpr ⟨k, List.mem_toFinset.mpr hk⟩
  omega

/-- Keys with one home that fit are no more than the probes of a search. -/
theorem card_le_of_fits (hP : P ≤ m) (hhome : ∀ k ∈ ks, home k = t) (h : Fits home P ∅ ks) :
    ks.toFinset.card ≤ P := by
  have hlayout : Layout home P _ := Layout.fill hP ks layout_empty
  have hstored := (all_stored_fill_iff hP ks).mpr h
  choose! slot hslot using hstored
  refine (Finset.card_le_card_of_injOn (fun k => (slot k - t).val) ?_ ?_).trans_eq
    (Finset.card_range P)
  · intro k hk
    have hk := List.mem_toFinset.mp hk
    refine Finset.mem_coe.mpr (Finset.mem_range.mpr ?_)
    rw [← hhome k hk]
    exact hlayout.near _ _ (hslot k hk)
  · intro a ha b hb hab
    have hsame : slot a = slot b := sub_left_injective (ZMod.val_injective m hab)
    have hkey := hslot a (List.mem_toFinset.mp ha)
    rw [hsame, hslot b (List.mem_toFinset.mp hb)] at hkey
    exact (some.inj hkey).symm

/-- In a list that fits, no search fails when its turn comes. -/
theorem search_fill_of_fits (hP : P ≤ m) {pre post : List K}
    (hfits : Fits home P ∅ (pre ++ k :: post)) :
    search (fill home P (fun _ => none) pre) k P (home k) ≠ none := by
  intro hnone
  have hstored := (all_stored_fill_iff hP _).mpr hfits k (by simp)
  rw [fill_append] at hstored
  by_cases hk : Stored (fill home P (fun _ => none) pre) k
  · obtain ⟨s, hs⟩ := hk
    rw [(Layout.fill hP pre layout_empty).search_stored hs] at hnone
    cases hnone
  · exact not_stored_fill (k :: post) hnone hk hstored

end Fill

end ProbeTable
