import Mathlib.Logic.Basic

/-! # Runs of a labelled machine — the inductions every safety result uses

    A machine is a partial step function: `m s l = none` says that the label
    `l` cannot be taken in `s`.  Every outside choice (a schedule, an
    allocation that fails, the result of a read) is part of the label, so a
    run is a list of labels and the states it passes are determined.

    `Moves` quantifies over the steps of a run.  The rules below are the only
    inductions over runs: `moves_of_inv` derives what every step does from an
    invariant, `moves_iff` compares two properties of steps that agree as long
    as the invariant holds, and `inv_of_reachable` is the state version.
    `passes_of_owed` is for what a run has to do before it ends,
    `states_of_last` for what it cannot have lost on the way, and
    `trace_nodup` for what it does at most once; `mem_trace_of_exec` finds where
    something came from, `forall_mem_trace` says what everything seen is, and
    `exec_eq_foldl_trace` is for a part of the state that only changes by what is
    seen.  `recorded` keeps what was seen beside the state, for conditions on a step that
    depend on the past. -/

namespace MachineRun

open List Option

variable {S L : Type}

/-- The state after a run, if every label of it can be taken. -/
def exec (m : S → L → Option S) : S → List L → Option S
  | s, [] => some s
  | s, l :: ls => (m s l).bind fun s' => exec m s' ls

/-- `Q` holds of every step taken along the run. -/
def Moves (m : S → L → Option S) (Q : S → L → S → Prop) : S → List L → Prop
  | _, [] => True
  | s, l :: ls => ∀ s', m s l = some s' → Q s l s' ∧ Moves m Q s' ls

/-- `P` holds in every state the run passes, the first included. -/
def States (m : S → L → Option S) (P : S → Prop) (s : S) (ls : List L) : Prop :=
  P s ∧ Moves m (fun _ _ s' => P s') s ls

/-- `P` holds in some state the run passes after its first step. -/
def Passes (m : S → L → Option S) (P : S → Prop) : S → List L → Prop
  | _, [] => False
  | s, l :: ls => ∃ s', m s l = some s' ∧ (P s' ∨ Passes m P s' ls)

/-- What the observer `o` sees along the run, in order. -/
def trace {A : Type} (m : S → L → Option S) (o : S → L → Option A) : S → List L → List A
  | _, [] => []
  | s, l :: ls =>
    match m s l with
    | none => []
    | some s' => (o s l).toList ++ trace m o s' ls

/-- The machine with a record of what the observer `o` has seen, the last first. -/
def recorded {A : Type} (m : S → L → Option S) (o : S → L → Option A) (q : S × List A)
    (l : L) : Option (S × List A) :=
  (m q.1 l).map fun s' => (s', (o q.1 l).toList ++ q.2)

/-- `s` is passed by some run from `s₀`. -/
def Reachable (m : S → L → Option S) (s₀ s : S) : Prop :=
  ∃ ls, exec m s₀ ls = some s

variable {m : S → L → Option S}

/-- A run is checked by taking it. -/
instance decidableMoves {Q : S → L → S → Prop} [∀ s l s', Decidable (Q s l s')] :
    ∀ (s : S) (ls : List L), Decidable (Moves m Q s ls)
  | _, [] => isTrue trivial
  | s, l :: ls =>
    match h : m s l with
    | none => isTrue fun _ hl => by cases h.symm.trans hl
    | some s' =>
      have : Decidable (Moves m Q s' ls) := decidableMoves s' ls
      decidable_of_iff (Q s l s' ∧ Moves m Q s' ls)
        ⟨fun hq _ hl => some.inj (h.symm.trans hl) ▸ hq, fun hq => hq s' h⟩

variable {s t u : S} {l : L} {ls ls' : List L} {Q G : S → L → S → Prop} {I P : S → Prop}
  {A B : Type} {a : A} {o : S → L → Option A}

theorem exec_cons (h : exec m s (l :: ls) = some t) :
    ∃ s', m s l = some s' ∧ exec m s' ls = some t := by
  cases hl : m s l with
  | none => rw [exec, hl] at h; cases h
  | some s' => rw [exec, hl] at h; exact ⟨s', rfl, h⟩

theorem exec_append (s : S) (ls ls' : List L) :
    exec m s (ls ++ ls') = (exec m s ls).bind fun s' => exec m s' ls' := by
  induction ls generalizing s with
  | nil => rfl
  | cons l ls ih =>
    show (m s l).bind (fun s' => exec m s' (ls ++ ls')) = _
    rw [exec]
    cases m s l with
    | none => rfl
    | some s' => exact ih s'

theorem Reachable.refl (s : S) : Reachable m s s := ⟨[], rfl⟩

theorem Reachable.trans (h : Reachable m s t) (h' : Reachable m t u) : Reachable m s u := by
  obtain ⟨ls, hls⟩ := h
  obtain ⟨ls', hls'⟩ := h'
  refine ⟨ls ++ ls', ?_⟩
  rw [exec_append, hls]
  exact hls'

theorem Reachable.single (h : m s l = some t) : Reachable m s t :=
  ⟨[l], congrArg (Option.bind · _) h⟩

theorem Reachable.head (h : m s l = some t) (h' : Reachable m t u) :
    Reachable m s u := (Reachable.single h).trans h'

/-- One step of a run whose outcome is known. -/
theorem moves_cons (hl : m s l = some t) (hq : Q s l t) (hrest : Moves m Q t ls) :
    Moves m Q s (l :: ls) := by
  intro s' hs'
  cases hl.symm.trans hs'
  exact ⟨hq, hrest⟩

/-- **The invariant rule.**  A predicate that holds at the start and that every
    step keeps holds in every reachable state. -/
theorem inv_of_reachable {s₀ : S} (h : Reachable m s₀ s) (h₀ : I s₀)
    (hstep : ∀ s l s', I s → m s l = some s' → I s') : I s := by
  obtain ⟨ls, hls⟩ := h
  induction ls generalizing s₀ with
  | nil => exact some.inj hls ▸ h₀
  | cons l ls ih =>
    obtain ⟨s', hl, hrest⟩ := exec_cons hls
    exact ih (hstep s₀ l s' h₀ hl) hrest

/-- Who has done what, after a step of `a`. -/
theorem mem_record {o : Option B} {c : A} {p : B} {seen : List (A × B)} :
    (c, p) ∈ (o.map fun p => (a, p)).toList ++ seen ↔ (c = a ∧ o = some p) ∨ (c, p) ∈ seen := by
  rw [mem_append, mem_toList, map_eq_some_iff]
  refine or_congr ⟨?_, ?_⟩ Iff.rfl
  · rintro ⟨p', hp', heq⟩
    cases heq
    exact ⟨rfl, hp'⟩
  · rintro ⟨rfl, hp⟩
    exact ⟨p, hp, rfl⟩

/-- A record leaves the runs as they are. -/
theorem moves_recorded (seen : List A) :
    Moves (recorded m o) (fun q l q' => Q q.1 l q'.1) (s, seen) ls ↔ Moves m Q s ls := by
  induction ls generalizing s seen with
  | nil => exact Iff.rfl
  | cons l ls ih =>
    constructor
    · intro h s' hl
      obtain ⟨hq, hrest⟩ := h (s', (o s l).toList ++ seen) (by rw [recorded, hl]; rfl)
      exact ⟨hq, (ih _).mp hrest⟩
    · intro h q' hl
      obtain ⟨s', hl', rfl⟩ := map_eq_some_iff.mp hl
      obtain ⟨hq, hrest⟩ := h s' hl'
      exact ⟨hq, (ih _).mpr hrest⟩

/-- A step that may fail, and what follows if it does not. -/
theorem of_failable {c : Prop} [Decidable c] {q : A} {next : Option A} {P : A → Prop}
    (hs : (if c then some a else next) = some q) (hfail : c → P a)
    (hnext : ¬ c → next = some q → P q) : P q := by
  split at hs
  · rename_i hc
    exact some.inj hs ▸ hfail hc
  · rename_i hc
    exact hnext hc hs

/-- **The guarded run rule.**  Steps that meet `G` keep the invariant and do
    `Q`; then every step of a run that meets `G` throughout does `Q`. -/
theorem moves_of_inv (hstep : ∀ s l s', I s → m s l = some s' → G s l s' →
      I s' ∧ Q s l s') : ∀ (ls : List L) (s : S), I s → Moves m G s ls → Moves m Q s ls := by
  intro ls
  induction ls with
  | nil => intro s _ _; trivial
  | cons l ls ih =>
    intro s hs hG s' hl
    obtain ⟨hg, hrest⟩ := hG s' hl
    obtain ⟨hs', hq⟩ := hstep s l s' hs hl hg
    exact ⟨hq, ih s' hs' hrest⟩

/-- The guarded run rule for the states of a run. -/
theorem states_of_inv (hP : ∀ s, I s → P s)
    (hstep : ∀ s l s', I s → m s l = some s' → G s l s' → I s') (hs : I s) (hG : Moves m G s ls) :
    States m P s ls := by
  refine ⟨hP s hs, moves_of_inv (I := I) (G := G) ?_ ls s hs hG⟩
  intro s l s' hs hl hg
  have hs' := hstep s l s' hs hl hg
  exact ⟨hs', hP s' hs'⟩

/-- Two properties of every step of a run. -/
theorem moves_and {P : S → L → S → Prop} :
    Moves m (fun s l s' => P s l s' ∧ Q s l s') s ls ↔ Moves m P s ls ∧ Moves m Q s ls := by
  induction ls generalizing s with
  | nil => exact ⟨fun _ => ⟨trivial, trivial⟩, fun _ => trivial⟩
  | cons l ls ih =>
    constructor
    · intro h
      refine ⟨fun s' hl => ?_, fun s' hl => ?_⟩
      · exact ⟨(h s' hl).1.1, (ih.mp (h s' hl).2).1⟩
      · exact ⟨(h s' hl).1.2, (ih.mp (h s' hl).2).2⟩
    · rintro ⟨hP, hQ⟩ s' hl
      exact ⟨⟨(hP s' hl).1, (hQ s' hl).1⟩, ih.mpr ⟨(hP s' hl).2, (hQ s' hl).2⟩⟩

theorem moves_true (s : S) (ls : List L) : Moves m (fun _ _ _ => True) s ls := by
  induction ls generalizing s with
  | nil => trivial
  | cons l ls ih => exact fun s' _ => ⟨trivial, ih s'⟩

/-- The rule without a guard: every step keeps the invariant. -/
theorem states_of_step (hP : ∀ s, I s → P s) (hstep : ∀ s l s', I s → m s l = some s' → I s')
    (hs : I s) (ls : List L) : States m P s ls :=
  states_of_inv hP (fun s l s' h hl _ => hstep s l s' h hl) hs (moves_true s ls)

/-- The last state of a run is one of its states. -/
theorem states_exec (h : States m P s ls) (ht : exec m s ls = some t) : P t := by
  induction ls generalizing s with
  | nil => exact some.inj ht ▸ h.1
  | cons l ls ih =>
    obtain ⟨s', hl, hrest⟩ := exec_cons ht
    obtain ⟨hs', hmoves⟩ := h.2 s' hl
    exact ih ⟨hs', hmoves⟩ hrest

/-- **The debt rule.**  What is owed stays owed until a step pays it with `P`; then
    a run that ends without the debt has passed `P`. -/
theorem passes_of_owed {O : S → Prop} (hstep : ∀ s l s', I s → m s l = some s' → G s l s' → O s →
      I s' ∧ (P s' ∨ O s')) (hs : I s) (hG : Moves m G s ls) (ht : exec m s ls = some t)
    (ho : O s) (hpaid : ¬ O t) : Passes m P s ls := by
  induction ls generalizing s with
  | nil =>
    cases ht
    exact absurd ho hpaid
  | cons l ls ih =>
    obtain ⟨s', hl, hrest⟩ := exec_cons ht
    obtain ⟨hg, hmoves⟩ := hG s' hl
    obtain ⟨hs', hP | ho'⟩ := hstep s l s' hs hl hg ho
    · exact ⟨s', hl, .inl hP⟩
    · exact ⟨s', hl, .inr (ih hs' hmoves hrest ho')⟩

theorem passes_append_left (ls' : List L) (h : Passes m P s ls) : Passes m P s (ls ++ ls') := by
  induction ls generalizing s with
  | nil => cases h
  | cons l ls ih =>
    obtain ⟨s', hl, hP | hrest⟩ := h
    · exact ⟨s', hl, .inl hP⟩
    · exact ⟨s', hl, .inr (ih hrest)⟩

theorem passes_append_right (hls : exec m s ls = some t) (h : Passes m P t ls') :
    Passes m P s (ls ++ ls') := by
  induction ls generalizing s with
  | nil => exact some.inj hls ▸ h
  | cons l ls ih =>
    obtain ⟨s', hl, hrest⟩ := exec_cons hls
    exact ⟨s', hl, .inr (ih hrest)⟩

theorem moves_exec (h : Moves m Q s (ls ++ ls')) (hls : exec m s ls = some t) :
    Moves m Q t ls' := by
  induction ls generalizing s with
  | nil => exact some.inj hls ▸ h
  | cons l ls ih =>
    obtain ⟨s', hl, hrest⟩ := exec_cons hls
    exact ih (h s' hl).2 hrest

theorem moves_append (h : Moves m Q s ls) (ht : exec m s ls = some t) (h' : Moves m Q t ls') :
    Moves m Q s (ls ++ ls') := by
  induction ls generalizing s with
  | nil => exact some.inj ht ▸ h'
  | cons l ls ih =>
    intro s' hl
    obtain ⟨s₁, hl₁, hrest⟩ := exec_cons ht
    cases hl.symm.trans hl₁
    obtain ⟨hq, hmoves⟩ := h s' hl
    exact ⟨hq, ih hmoves hrest⟩

/-- **The backward rule.**  What is lost for good when it is lost held all along if it
    holds at the end. -/
theorem states_of_last (hback : ∀ s l s', m s l = some s' → G s l s' → P s' → P s)
    (hG : Moves m G s ls) (ht : exec m s ls = some t) (hP : P t) : States m P s ls := by
  induction ls generalizing s with
  | nil => exact ⟨some.inj ht ▸ hP, trivial⟩
  | cons l ls ih =>
    obtain ⟨s', hl, hrest⟩ := exec_cons ht
    obtain ⟨hg, hmoves⟩ := hG s' hl
    obtain ⟨hs', hstates⟩ := ih hmoves hrest
    exact ⟨hback s l s' hl hg hs', moves_cons hl hs' hstates⟩

theorem moves_of_forall {p : L → Prop} (h : ∀ l ∈ ls, p l) (s : S) :
    Moves m (fun _ l _ => p l) s ls := by
  induction ls generalizing s with
  | nil => trivial
  | cons l ls ih =>
    exact fun s' _ => ⟨h l mem_cons_self, ih (fun l' hl' => h l' (mem_cons_of_mem l hl')) s'⟩

/-- **The once rule.**  If what a step shows was fresh before it and is not after it,
    and nothing becomes fresh again, a run shows nothing twice. -/
theorem trace_nodup {F : S → A → Prop}
    (hkeep : ∀ s l s', I s → m s l = some s' → G s l s' → I s' ∧ ∀ a, F s' a → F s a)
    (honce : ∀ s l s' a, I s → m s l = some s' → G s l s' → o s l = some a →
      F s a ∧ ¬ F s' a) (hs : I s) (hG : Moves m G s ls) :
    (trace m o s ls).Nodup ∧ ∀ a ∈ trace m o s ls, F s a := by
  induction ls generalizing s with
  | nil =>
    rw [trace]
    exact ⟨nodup_nil, fun a ha => absurd ha not_mem_nil⟩
  | cons l ls ih =>
    rw [trace]
    cases hl : m s l with
    | none => exact ⟨nodup_nil, fun a ha => absurd ha not_mem_nil⟩
    | some s' =>
      obtain ⟨hg, hrest⟩ := hG s' hl
      obtain ⟨hs', hback⟩ := hkeep s l s' hs hl hg
      obtain ⟨hnodup, hfresh⟩ := ih hs' hrest
      show ((o s l).toList ++ trace m o s' ls).Nodup
        ∧ ∀ a ∈ (o s l).toList ++ trace m o s' ls, F s a
      cases ho : o s l with
      | none => exact ⟨hnodup, fun a ha => hback a (hfresh a ha)⟩
      | some a =>
        obtain ⟨hnew, hold⟩ := honce s l s' a hs hl hg ho
        refine ⟨nodup_cons.mpr ⟨fun ha => hold (hfresh a ha), hnodup⟩, ?_⟩
        intro x hx
        rcases mem_cons.mp hx with rfl | hx
        · exact hnew
        · exact hback x (hfresh x hx)

/-- **The origin rule.**  What holds at the end of a run held at its start, or was
    seen on the way. -/
theorem mem_trace_of_exec {H : S → A → Prop} (hstep : ∀ s l s', I s → m s l = some s' → G s l s' →
      I s' ∧ ∀ a, H s' a → H s a ∨ o s l = some a) (hs : I s) (hG : Moves m G s ls)
    (ht : exec m s ls = some t) (ha : H t a) : H s a ∨ a ∈ trace m o s ls := by
  induction ls generalizing s with
  | nil => exact .inl (some.inj ht ▸ ha)
  | cons l ls ih =>
    obtain ⟨s', hl, hrest⟩ := exec_cons ht
    rw [trace, hl]
    show H s a ∨ a ∈ (o s l).toList ++ trace m o s' ls
    obtain ⟨hg, hG'⟩ := hG s' hl
    obtain ⟨hs', hback⟩ := hstep s l s' hs hl hg
    rcases ih hs' hG' hrest with ha' | hmem
    · rcases hback a ha' with hold | ho
      · exact .inl hold
      · exact .inr (mem_append_left _ (by rw [ho]; exact mem_cons_self))
    · exact .inr (mem_append_right _ hmem)

/-- What every step shows from a state of the invariant, every run shows. -/
theorem forall_mem_trace {P : A → Prop}
    (hstep : ∀ s l s', I s → m s l = some s' → I s' ∧ ∀ a, o s l = some a → P a) (hs : I s)
    (ls : List L) : ∀ a ∈ trace m o s ls, P a := by
  induction ls generalizing s with
  | nil => intro a ha; cases ha
  | cons l ls ih =>
    intro a ha
    rw [trace] at ha
    cases hl : m s l with
    | none => rw [hl] at ha; cases ha
    | some s' =>
      rw [hl] at ha
      obtain ⟨hs', hP⟩ := hstep s l s' hs hl
      rcases mem_append.mp ha with hnow | hlater
      · exact hP a (mem_toList.mp hnow)
      · exact ih hs' a hlater

/-- **The replay rule.**  If, as long as the invariant holds, every step changes `f` by what
    it shows and by nothing else, then `f` at the end of a run is `f` at its start changed
    by the trace. -/
theorem exec_eq_foldl_trace {f : S → B} {apply : B → A → B}
    (hstep : ∀ s l s', I s → m s l = some s' →
      I s' ∧ f s' = (o s l).toList.foldl apply (f s)) (hs : I s) (ht : exec m s ls = some t) :
    f t = (trace m o s ls).foldl apply (f s) := by
  induction ls generalizing s with
  | nil => rw [some.inj ht]; rfl
  | cons l ls ih =>
    obtain ⟨s', hl, hrest⟩ := exec_cons ht
    obtain ⟨hs', hf⟩ := hstep s l s' hs hl
    rw [ih hs' hrest, hf, ← foldl_append, trace, hl]

/-- **The exactness rule.**  If, as long as the invariant holds, a step meets
    `G` exactly when it does `Q`, and the steps that meet `G` keep the
    invariant, then `G` holds along a run exactly when `Q` does: the first
    step that misses `G` also misses `Q`. -/
theorem moves_iff (hiff : ∀ s l s', I s → m s l = some s' → (G s l s' ↔ Q s l s'))
    (hkeep : ∀ s l s', I s → m s l = some s' → G s l s' → I s') (hs : I s) :
    Moves m G s ls ↔ Moves m Q s ls := by
  induction ls generalizing s with
  | nil => exact Iff.rfl
  | cons l ls ih =>
    constructor
    · intro hG s' hl
      obtain ⟨hg, hrest⟩ := hG s' hl
      exact ⟨(hiff s l s' hs hl).mp hg, (ih (hkeep s l s' hs hl hg)).mp hrest⟩
    · -- as long as the steps do `Q` they meet `G`, so the invariant goes on
      intro hQ s' hl
      obtain ⟨hq, hrest⟩ := hQ s' hl
      have hg := (hiff s l s' hs hl).mpr hq
      exact ⟨hg, (ih (hkeep s l s' hs hl hg)).mpr hrest⟩

end MachineRun
