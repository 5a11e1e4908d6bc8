import DemoStore.TemplateClientProofs

/-! # Isolation of the clients of a template

    A page of the memfd should hold the backend's content for ever: a client
    writes only to its private copy.  The write protection that enforces this
    is a mark in one process.  A page that another client has loaded is mapped
    without it, and while `handle_wp_fault` replaces a page the mark is gone
    for the other threads of the client.  Either way the write goes to the
    memfd.

    No other step touches a loaded page, so the memfd stays clean exactly as
    long as no such write changes a byte. -/

namespace ClientIsolation

open TemplateClient MachineRun Option
open Function (forall_update_iff update update_eq_self update_of_ne update_self)

variable {b : OverlayBackend} {s s' : ServiceState} {sh sh' : Shared} {cl cl' : ClientState}

/-! ## What isolation says -/

/-- Every page of the memfd is the backend's. -/
def Clean (b : OverlayBackend) (sh : Shared) : Prop := PagesOf b.readPage sh.memfd

/-- The access that this label makes on a page of the memfd, with the page. -/
def throughAccess (b : OverlayBackend) (sh : Shared) (cl : ClientState)
    (l : ClientLabel) : Option (Access × List UInt8) :=
  seenBy Effect.inMemfd cl.views sh.memfd (attempt b cl l)

/-- A step of a client leaves the memfd clean and the other clients alone, and what
    it reads from the memfd is the backend's. -/
structure Isolated (b : OverlayBackend) (s : ServiceState) (l : Nat × ClientLabel)
    (s' : ServiceState) : Prop where
  clean : Clean b s'.shared
  others : ∀ d, d ≠ l.1 → s'.clients d = s.clients d
  reads : ∀ p j page, throughAccess b s.shared (s.clients l.1) l.2 = some (.read p j, page) →
    b.readPage p = some page

/-- The access leaves the byte as it is. -/
def Harmless (acc : Access) (page : List UInt8) : Prop :=
  match acc with
  | .read _ _ => True
  | .write _ j x => page[j]? = some x

instance (page : List UInt8) : ∀ acc, Decidable (Harmless acc page)
  | .read _ _ => inferInstanceAs (Decidable True)
  | .write _ j x => inferInstanceAs (Decidable (page[j]? = some x))

/-- No write takes effect on a page of the memfd, unless it writes the byte that is
    already there. -/
def NoSharedWrite (b : OverlayBackend) (s : ServiceState) (l : Nat × ClientLabel)
    (_ : ServiceState) : Prop :=
  ∀ q ∈ throughAccess b s.shared (s.clients l.1) l.2, Harmless q.1 q.2

instance (b : OverlayBackend) (s : ServiceState) (l : Nat × ClientLabel)
    (s' : ServiceState) : Decidable (NoSharedWrite b s l s') :=
  inferInstanceAs (Decidable (∀ q ∈ throughAccess b s.shared (s.clients l.1) l.2, _))

/-! ## The invariant -/

/-- The page a handler is about to copy is the backend's; pending accesses are inside
    their page. -/
structure ClientOk (b : OverlayBackend) (cl : ClientState) : Prop where
  buffer : ∀ p page, cl.pc = .copyPage p page → b.readPage p = some page
  pending : ∀ i acc, cl.threads i = .blocked acc ∨ cl.threads i = .woken acc →
    acc.offset < b.pageSize

/-- The memory file and all clients are clean. -/
structure Inv (b : OverlayBackend) (s : ServiceState) : Prop where
  clean : Clean b s.shared
  clients : ∀ c, ClientOk b (s.clients c)

theorem inv_start : Inv b start where
  clean _ _ h := by cases h
  clients _ := ⟨(fun _ _ h => by cases h), fun _ _ h => by rcases h with h | h <;> cases h⟩

/-! ## Accesses -/

variable {l : ClientLabel} {i p : Nat} {acc : Access} {page : List UInt8}

/-- An access lies in its page. -/
theorem offset_of_attempt (h : ClientOk b cl) (ha : attempt b cl l = some (i, acc)) :
    acc.offset < b.pageSize := by
  rcases attempt_cases ha with ⟨-, -, hin⟩ | ⟨-, hwoken⟩
  · exact hin.2
  · exact h.pending i acc (.inr hwoken)

theorem pending_setThread (h : ClientOk b cl) {t : Thread}
    (ht : ∀ acc, t = .blocked acc ∨ t = .woken acc → acc.offset < b.pageSize) (k : Nat)
    (acc : Access) (hk : update cl.threads i t k = .blocked acc
      ∨ update cl.threads i t k = .woken acc) : acc.offset < b.pageSize := by
  revert k acc
  exact (forall_update_iff cl.threads fun _ t => ∀ acc,
    t = .blocked acc ∨ t = .woken acc → acc.offset < b.pageSize).mpr ⟨ht, fun k _ => h.pending k⟩

/-- An access keeps a client in order. -/
theorem clientOk_access (h : ClientOk b cl) (hacc : acc.offset < b.pageSize) :
    ClientOk b (access sh cl i acc).2 := by
  rw [access]
  split
  · refine ⟨h.buffer, pending_setThread h fun acc' ht => ?_⟩
    rcases ht with ht | ht <;> cases ht
  · refine ⟨h.buffer, pending_setThread h fun acc' ht => ?_⟩
    rcases ht with ht | ht <;> cases ht
  · refine ⟨h.buffer, pending_setThread h fun acc' ht => ?_⟩
    rcases ht with ht | ht
    · cases ht
      exact hacc
    · cases ht

/-- A write leaves a page as it is if it writes the byte that is there. -/
theorem apply_eq_iff (hoff : acc.offset < page.length) :
    acc.apply page = page ↔ Harmless acc page := by
  cases acc with
  | read p j => exact ⟨fun _ => trivial, fun _ => rfl⟩
  | write p j x =>
    have hj : j < page.length := hoff
    show page.set j x = page ↔ page[j]? = some x
    constructor
    · intro hset
      rw [← hset, List.getElem?_set_self hj]
    · intro hget
      apply List.ext_getElem?
      intro k
      by_cases hk : j = k
      · subst hk
        rw [List.getElem?_set_self hj, hget]
      · rw [List.getElem?_set_ne hk]

/-- An access leaves the memfd clean exactly if it is harmless there. -/
theorem clean_access_iff (h : Clean b sh) (hacc : acc.offset < b.pageSize) :
    Clean b (access sh cl i acc).1
      ↔ ∀ page, effect (cl.views acc.page) (sh.memfd acc.page) acc = .through page →
        Harmless acc page := by
  rw [access]
  split
  · rename_i he
    exact ⟨(fun _ _ he' => by cases he.symm.trans he'), fun _ => h⟩
  · rename_i page he
    -- the page was the backend's, so it stays so exactly if it stays the same
    have hpage := h acc.page page (memfd_of_through he)
    have hlen := OverlayBackend.length_readPage hpage
    show PagesOf b.readPage (update sh.memfd acc.page (some (acc.apply page))) ↔ _
    rw [pagesOf_update_iff h, hpage, Option.some.injEq, eq_comm, apply_eq_iff (hlen ▸ hacc)]
    refine ⟨fun hh page' he' => ?_, fun hh => hh page he⟩
    cases he.symm.trans he'
    exact hh
  · rename_i he
    exact ⟨(fun _ _ he' => by cases he.symm.trans he'), fun _ => h⟩

/-! ## The handler -/

theorem pending_wake (h : ClientOk b cl) (p : Nat) (i : Nat) (acc : Access)
    (hi : (cl.wake p).threads i = .blocked acc ∨ (cl.wake p).threads i = .woken acc) :
    acc.offset < b.pageSize :=
  h.pending i acc (Thread.of_wake hi)

/-- A client that goes on to anything but a copy. -/
theorem ClientOk.goto (h : ClientOk b cl) {pc : HandlerPc}
    (hpc : ∀ p page, pc ≠ .copyPage p page) : ClientOk b (cl.goto pc) :=
  ⟨fun p page hp => absurd hp (hpc p page), h.pending⟩

theorem ClientOk.setView (h : ClientOk b cl) (p : Nat) (v : View) :
    ClientOk b (cl.setView p v) :=
  ⟨h.buffer, h.pending⟩

theorem ClientOk.wake (h : ClientOk b cl) (p : Nat) : ClientOk b (cl.wake p) :=
  ⟨h.buffer, pending_wake h p⟩

theorem Clean.setState (h : Clean b sh) (p : Nat) (st : TemplatePageState) :
    Clean b (sh.setState p st) := h

/-- The handlers never spoil the memfd: the one page they put there is the backend's. -/
theorem handlerMove_ok (hclean : Clean b sh) (h : ClientOk b cl) {event : Nat}
    {out : Outcome} (hmove : ClientMove b sh cl (.handler event out) sh' cl') :
    Clean b sh' ∧ ClientOk b cl' := by
  cases hmove with
  | own ha | through ha | fault ha => cases ha
  | event hpc hev =>
    rename_i ev
    refine ⟨hclean, ⟨fun p page hp => ?_, h.pending⟩⟩
    cases hwp : ev.2 <;> simp [hwp] at hp
  | claimed hpc hst => exact ⟨hclean.setState _ .loading, h.goto (by simp)⟩
  | read hpc hpage =>
    -- the buffer is what `read_page` returned
    refine ⟨hclean, ⟨fun p page hp => ?_, h.pending⟩⟩
    cases hp
    exact hpage
  | copied hpc hmem =>
    -- the one place where a handler puts a page into the memfd
    exact ⟨(pagesOf_update_iff hclean).mpr (h.buffer _ _ hpc),
      ((h.setView _ _).wake _).goto (by simp)⟩
  | wokePresent hpc | woke hpc => exact ⟨hclean, (h.wake _).goto (by simp)⟩
  | stored hpc => exact ⟨hclean.setState _ .sharedReady, h.goto (by simp)⟩
  | spinning hpc => exact ⟨hclean, h⟩
  | snapshotCopied | unprotected | remapped | copiedBack =>
    exact ⟨hclean, (h.setView _ _).goto (by simp)⟩
  | marked hpc => exact ⟨hclean, ⟨by simp, h.pending⟩⟩
  | _ => exact ⟨hclean, h.goto (by simp)⟩

/-! ## One step of a client -/

/-- The harmful steps are the writes to the memfd that change a byte; every other
    step keeps the memfd clean, and all steps keep the client as it should be. -/
theorem clientStep_ok (hclean : Clean b sh) (h : ClientOk b cl) {q : Shared × ClientState}
    (hs : clientStep b sh cl l = some q) :
    ClientOk b q.2 ∧ (Clean b q.1 ↔ ∀ r ∈ throughAccess b sh cl l, Harmless r.1 r.2) := by
  have haccess : ∀ i acc, attempt b cl l = some (i, acc) → q = access sh cl i acc →
      ClientOk b q.2 ∧ (Clean b q.1 ↔ ∀ r ∈ throughAccess b sh cl l, Harmless r.1 r.2) := by
    rintro i acc ha rfl
    have hoff := offset_of_attempt h ha
    refine ⟨clientOk_access h hoff, ?_⟩
    rw [clean_access_iff hclean hoff]
    constructor
    · rintro hh ⟨acc', page⟩ hr
      obtain ⟨i', ha', hfound⟩ := seenBy_eq_some hr
      cases ha.symm.trans ha'
      exact hh page (through_of_inMemfd hfound)
    · intro hh page he
      refine hh (acc, page) ?_
      rw [throughAccess, ha, seenBy, bind_some, he]
      rfl
  cases l with
  | handler event out =>
    obtain ⟨hclean', hok'⟩ := handlerMove_ok hclean h (move_of_handlerStep hs)
    exact ⟨hok', ⟨(fun _ r hr => by cases hr), fun _ => hclean'⟩⟩
  | access | retry =>
    obtain ⟨r, hr, rfl⟩ := map_eq_some_iff.mp hs
    exact haccess r.1 r.2 hr rfl

/-- A clean memory file reads as the backend. -/
theorem reads_of_clean (hclean : Clean b sh) {j : Nat}
    (h : throughAccess b sh cl l = some (.read p j, page)) : b.readPage p = some page := by
  obtain ⟨i, -, hfound⟩ := seenBy_eq_some h
  exact hclean p page (memfd_of_through (through_of_inMemfd hfound))

/-- A step isolates unless it writes to the memory file. -/
theorem isolated_iff (s : ServiceState) (l : Nat × ClientLabel) (s' : ServiceState)
    (h : Inv b s) (hs : serviceStep b s l = some s') :
    NoSharedWrite b s l s' ↔ Isolated b s l s' := by
  obtain ⟨q, hq, rfl⟩ := map_eq_some_iff.mp hs
  have hiff := (clientStep_ok h.clean (h.clients l.1) hq).2
  constructor
  · intro hno
    exact ⟨hiff.mpr hno, fun d hd => update_of_ne hd _ _,
      fun p j page hp => reads_of_clean h.clean hp⟩
  · exact fun hi => hiff.mp hi.clean

/-- Such a step keeps the invariant. -/
theorem inv_step (s : ServiceState) (l : Nat × ClientLabel) (s' : ServiceState)
    (h : Inv b s) (hs : serviceStep b s l = some s') (hno : NoSharedWrite b s l s') :
    Inv b s' := by
  have hclean := ((isolated_iff s l s' h hs).mp hno).clean
  obtain ⟨q, hq, rfl⟩ := map_eq_some_iff.mp hs
  refine ⟨hclean, fun c => ?_⟩
  by_cases hc : c = l.1
  · subst hc
    show ClientOk b (update s.clients l.1 q.2 l.1)
    rw [update_self]
    exact (clientStep_ok h.clean (h.clients l.1) hq).1
  · show ClientOk b (update s.clients l.1 q.2 c)
    rw [update_of_ne hc]
    exact h.clients c

/-! ## Who has loaded a page -/

/-- The page that this step of the handler puts into the memfd.  `UFFDIO_COPY` protects it,
    but in this client only. -/
def loadedPage (sh : Shared) (cl : ClientState) : ClientLabel → Option Nat
  | .handler _ out =>
    match cl.pc with
    | .copyPage p _ => if out = .ok ∧ sh.memfd p = none then some p else none
    | _ => none
  | .access _ _ | .retry _ => none

/-- The client and the page, for the record of a run. -/
def loads (s : ServiceState) (l : Nat × ClientLabel) : Option (Nat × Nat) :=
  (loadedPage s.shared (s.clients l.1) l.2).map fun p => (l.1, p)

/-- A write that would change a page of the memfd is made only where the page is private
    already, or to a page that this client has loaded itself and while the handler has not
    taken the protection off: never to a page that another client has loaded. -/
def WritesOwnLoads (b : OverlayBackend) (q : ServiceState × List (Nat × Nat))
    (l : Nat × ClientLabel) (_ : ServiceState × List (Nat × Nat)) : Prop :=
  ∀ i p j x page, attempt b (q.1.clients l.1) l.2 = some (i, .write p j x) →
    q.1.shared.memfd p = some page → page[j]? ≠ some x →
    (∃ own, (q.1.clients l.1).views p = .anonymous own)
      ∨ ((l.1, p) ∈ q.2 ∧ (q.1.clients l.1).views p ≠ .shared false)

/-- The views of a client against the pages it has loaded. -/
structure LoadsKnown (cl : ClientState) (loaded : Nat → Prop) : Prop where
  marked : ∀ p, cl.views p = .shared true → loaded p
  mapped : ∀ p, loaded p → cl.views p ≠ .unmapped

section Loads

variable {loaded : Nat → Prop} {l : ClientLabel}

/-- A page comes to be mapped in another way, not protected. -/
theorem LoadsKnown.setView (h : LoadsKnown cl loaded) {v : View}
    (hviews : cl'.views = update cl.views p v) (hv : v ≠ .shared true)
    (hv' : v ≠ .unmapped) : LoadsKnown cl' loaded := by
  constructor <;> rw [hviews]
  · exact (forall_update_iff cl.views fun q w => w = .shared true → loaded q).mpr
      ⟨fun hw => absurd hw hv, fun q _ => h.marked q⟩
  · exact (forall_update_iff cl.views fun q w => loaded q → w ≠ .unmapped).mpr
      ⟨fun _ => hv', fun q _ => h.mapped q⟩

/-- The kernel maps a page on first access, without protection. -/
theorem LoadsKnown.access (h : LoadsKnown cl loaded)
    (hviews : cl'.views = update cl.views p (cl.views p).mapped) :
    LoadsKnown cl' loaded := by
  cases hview : cl.views p with
  | unmapped =>
    rw [hview] at hviews
    exact h.setView hviews (by simp [View.mapped]) (by simp [View.mapped])
  | shared | anonymous =>
    rw [hview, View.mapped, ← hview, update_eq_self] at hviews
    · exact ⟨hviews ▸ h.marked, hviews ▸ h.mapped⟩
    · simp

/-- **ONE STEP** of a client: it has loaded what it had, and the page of this step. -/
theorem loadsKnown_move (h : LoadsKnown cl loaded) (hmove : ClientMove b sh cl l sh' cl') :
    LoadsKnown cl' fun p => loadedPage sh cl l = some p ∨ loaded p := by
  -- a page that is loaded now was not protected before
  have hmore : LoadsKnown cl' loaded → loadedPage sh cl l = none →
      LoadsKnown cl' fun p => loadedPage sh cl l = some p ∨ loaded p := by
    intro hnext hnone
    simpa [hnone] using hnext
  have haccess : ∀ i acc, attempt b cl l = some (i, acc) → loadedPage sh cl l = none := by
    intro i acc ha
    rcases attempt_cases ha with ⟨rfl, -⟩ | ⟨rfl, -⟩ <;> rfl
  cases hmove with
  | own ha he => exact hmore (h.setView rfl (by simp) (by simp)) (haccess _ _ ha)
  | through ha he => exact hmore (h.access rfl) (haccess _ _ ha)
  | fault ha he => exact hmore ⟨h.marked, h.mapped⟩ (haccess _ _ ha)
  | failed hwhy =>
    refine hmore ⟨h.marked, h.mapped⟩ ?_
    rcases hwhy with rfl | ⟨p, hpc, -⟩ | ⟨p, raw, hpc, -⟩ | ⟨p, snap, page, hpc, -⟩
    · rw [loadedPage]
      split <;> simp
    · simp [loadedPage, hpc]
    · simp [loadedPage, hpc]
    · simp [loadedPage, hpc]
  | copied hpc hnone =>
    rename_i event p page
    have hnew : loadedPage sh cl (.handler event .ok) = some p := by
      simp [loadedPage, hpc, hnone]
    rw [hnew]
    refine ⟨fun q hq => ?_, fun q hq => ?_⟩
    · by_cases hqp : q = p
      · exact .inl (congrArg some hqp.symm)
      · exact .inr (h.marked q ((ClientState.views_setView_of_ne hqp ..).symm.trans hq))
    · show (cl.setView p (.shared true)).views q ≠ .unmapped
      by_cases hqp : q = p
      · rw [hqp, ClientState.views_setView_self]
        simp
      · rw [ClientState.views_setView_of_ne hqp]
        exact h.mapped q (hq.resolve_left fun he => hqp (some.inj he).symm)
  | loaded hpc hst | woke hpc =>
    refine hmore ⟨h.marked, h.mapped⟩ ?_
    rcases hpc with hpc | hpc <;> simp [loadedPage, hpc]
  | present hpc hpage => exact hmore ⟨h.marked, h.mapped⟩ (by simp [loadedPage, hpc, hpage])
  | snapshotCopied hpc => exact hmore (h.access rfl) (by simp [loadedPage, hpc])
  | unprotected hpc | remapped hpc | copiedBack hpc =>
    exact hmore (h.setView rfl (by simp) (by simp)) (by simp [loadedPage, hpc])
  | event hpc | claimed hpc | contended hpc | spinning hpc | read hpc | wokePresent hpc
  | stored hpc | snapshotMapped hpc | unprotectedUnmapped hpc | marked hpc =>
    exact hmore ⟨h.marked, h.mapped⟩ (by simp [loadedPage, hpc])

/-- A write goes to the memfd exactly where the page is neither protected nor private. -/
theorem writes_iff (h : LoadsKnown cl loaded) (l : ClientLabel) :
    (∀ q ∈ throughAccess b sh cl l, Harmless q.1 q.2)
      ↔ ∀ i p j x page, attempt b cl l = some (i, .write p j x) → sh.memfd p = some page →
        page[j]? ≠ some x → (∃ own, cl.views p = .anonymous own)
          ∨ (loaded p ∧ cl.views p ≠ .shared false) := by
  constructor
  · intro hharm i p j x page ha hpage hchange
    have hgone : effect (cl.views p) (sh.memfd p) (.write p j x) ≠ .through page := by
      intro he
      refine hchange (hharm (.write p j x, page) ?_)
      rw [throughAccess, seenBy, ha, bind_some]
      show (effect (cl.views p) (sh.memfd p) (.write p j x)).inMemfd.map _ = _
      rw [he]
      rfl
    rw [hpage] at hgone
    cases hview : cl.views p with
    | anonymous own => exact .inl ⟨own, rfl⟩
    | unmapped => rw [hview] at hgone; exact absurd rfl hgone
    | shared wp =>
      cases wp with
      | true => exact .inr ⟨h.marked p hview, by simp⟩
      | false => rw [hview] at hgone; exact absurd rfl hgone
  · rintro hown ⟨acc, page⟩ hq
    obtain ⟨i, ha, hfound⟩ := seenBy_eq_some hq
    have he := through_of_inMemfd hfound
    cases acc with
    | read p j => trivial
    | write p j x =>
      have hpage : sh.memfd p = some page := memfd_of_through he
      by_contra hchange
      change effect (cl.views p) (sh.memfd p) _ = _ at he
      rw [hpage] at he
      rcases hown i p j x page ha hpage hchange with ⟨own, hview⟩ | ⟨hl, hoff⟩
      · rw [hview] at he; cases he
      · cases hview : cl.views p with
        | unmapped => exact h.mapped p hl hview
        | anonymous own => rw [hview] at he; cases he
        | shared wp =>
          cases wp with
          | true => rw [hview] at he; cases he
          | false => exact hoff hview

end Loads

/-- What a run keeps of all clients and what they have loaded. -/
structure LoadsInv (b : OverlayBackend) (q : ServiceState × List (Nat × Nat)) : Prop where
  inv : Inv b q.1
  loads : ∀ c, LoadsKnown (q.1.clients c) fun p => (c, p) ∈ q.2

theorem loadsInv_start : LoadsInv b (start, []) where
  inv := inv_start
  loads _ := ⟨(fun _ h => by cases h), fun _ h => by cases h⟩

/-- A step isolates when its writes are to own loads. -/
theorem writesOwnLoads_iff (q : ServiceState × List (Nat × Nat)) (l : Nat × ClientLabel)
    (q' : ServiceState × List (Nat × Nat)) (h : LoadsInv b q)
    (hs : recorded (serviceStep b) loads q l = some q') :
    WritesOwnLoads b q l q' ↔ Isolated b q.1 l q'.1 := by
  obtain ⟨s', hstep, rfl⟩ := map_eq_some_iff.mp hs
  rw [← isolated_iff q.1 l s' h.inv hstep]
  exact (writes_iff (h.loads l.1) l.2).symm

/-- The loads recorded stay known. -/
theorem loadsInv_step (q : ServiceState × List (Nat × Nat)) (l : Nat × ClientLabel)
    (q' : ServiceState × List (Nat × Nat)) (h : LoadsInv b q)
    (hs : recorded (serviceStep b) loads q l = some q') (hown : WritesOwnLoads b q l q') :
    LoadsInv b q' := by
  have hiso := (writesOwnLoads_iff q l q' h hs).mp hown
  obtain ⟨s', hstep, rfl⟩ := map_eq_some_iff.mp hs
  refine ⟨inv_step q.1 l s' h.inv hstep ((isolated_iff q.1 l s' h.inv hstep).mpr hiso), ?_⟩
  obtain ⟨cl', hmove, hclients⟩ := service_cases hstep
  intro c
  show LoadsKnown (s'.clients c) _
  simp only [loads, mem_record, hclients]
  by_cases hc : c = l.1
  · subst hc
    rw [update_self]
    simpa using loadsKnown_move (h.loads l.1) hmove
  · rw [update_of_ne hc]
    simpa [hc] using h.loads c

/-- **ISOLATION.**  Along a run of any number of clients the memfd keeps the backend's
    content, every client is untouched by the steps of the others and reads only
    backend bytes from the memfd, exactly when no write that changes a byte takes
    effect on a page of the memfd; and that is so exactly when every such write is to a
    private page or to one that the client has loaded itself and still protects. -/
theorem isolation_iff (b : OverlayBackend) (ls : List (Nat × ClientLabel)) :
    (Moves (serviceStep b) (Isolated b) start ls
        ↔ Moves (serviceStep b) (NoSharedWrite b) start ls)
      ∧ (Moves (serviceStep b) (Isolated b) start ls
        ↔ Moves (recorded (serviceStep b) loads) (WritesOwnLoads b) (start, []) ls) := by
  refine ⟨(moves_iff isolated_iff inv_step inv_start).symm, ?_⟩
  rw [← moves_recorded (o := loads) []]
  exact (moves_iff writesOwnLoads_iff loadsInv_step loadsInv_start).symm

/-! ## Two clients -/

/-- A backend of one page: one layer whose file has 4096 zero bytes. -/
def onePageBackend : OverlayBackend where
  pageSize := 4096
  pageCount := 1
  layers := [⟨"base", .zeros 4096, [1]⟩]

/-- Client 0 reads page 0 and loads it; then client 1 writes to it. -/
def loadThenWrite : List (Nat × ClientLabel) :=
  [(0, .access 0 (.read 0 0))] ++ List.replicate 5 (0, .handler 0 .ok)
    ++ [(1, .access 0 (.write 0 0 5))]

/-- Client 1 has no write-protect mark on the page that client 0 has loaded, so its
    write changes the memfd, where the backend has a zero. -/
theorem second_client_writes_template :
    (onePageBackend.readPage 0).map (fun page => page[0]?) = some (some 0)
      ∧ ((exec (serviceStep onePageBackend) start loadThenWrite).bind
          fun s => s.shared.memfd 0).map (fun page => page[0]?) = some (some 5)
      ∧ ¬ Moves (serviceStep onePageBackend) (Isolated onePageBackend) start
        loadThenWrite := by
  refine ⟨by decide +kernel, by decide +kernel, ?_⟩
  rw [← moves_iff isolated_iff inv_step inv_start]
  decide +kernel

end ClientIsolation
