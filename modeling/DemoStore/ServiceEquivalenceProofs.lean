import DemoStore.MachineRunProofs
import DemoStore.TemplateServiceProofs

/-! # Reading through the service is reading the file

    As long as every call on a connection has succeeded, its two ends are in step:
    what the server has read of the request, what is under way and what the client
    has not written yet are together the request; and the same for the response on
    its way back.  After a call that failed the server never writes again and closes,
    so every later call fails.

    A connection's state is its own: other connections only share the metrics.  While
    a call is in progress one of the connection's own steps can be taken, and each of
    them lowers `work`. -/

namespace ServiceEquivalence

open SparseFile TemplateService MachineRun List Option

/-! ## The invariant of one connection -/

/-- Every call so far has succeeded. -/
def Succeeded (results : List (PageRequest × Option (List UInt8))) : Prop :=
  ∀ p ∈ results, p.2.isSome = true

instance (results : List (PageRequest × Option (List UInt8))) :
    Decidable (Succeeded results) :=
  List.decidableBAll _ results

/-- The `k`-th call returned what the file page source returns, or failed because an
    earlier one did. -/
def Faithful (file : MemoryRanges) (results : List (PageRequest × Option (List UInt8))) :
    Prop :=
  ∀ k r out, results[k]? = some (r, out) →
    out = if Succeeded (results.take k) then fileReadPage file r else none

/-- The server will take the next request, of which it has read `got`. -/
def Ready : ServerPc → List UInt8 → Prop
  | .backlog, got => got = []
  | .readRequest request, got => request = got ∧ request.length < 12
  | .writing _ _ _ _, _ => False
  | .record _ _ ok, got => ok = true ∧ got = []
  | .closed, _ => False

/-- The server has the request `r`, and `out` is what it has still to write. -/
def Answering (file : MemoryRanges) (r : PageRequest) : ServerPc → List UInt8 → Prop
  | .backlog, _ => False
  | .readRequest request, out =>
    request = [] ∧ out = [] ∧ (seekRead file r.offset r.len).isSome = true
  | .writing rest _ _ ok, out =>
    rest = out ∧ rest ≠ [] ∧ ok = (seekRead file r.offset r.len).isSome
  | .record _ _ ok, out => out = [] ∧ ok = (seekRead file r.offset r.len).isSome
  | .closed, out => out = [] ∧ (seekRead file r.offset r.len).isSome = false

/-- Both ends before the first failure, by where the client is. -/
def InStepAt (file : MemoryRanges) (server : ServerPc) (toServer toClient : List UInt8) :
    ClientPc → Prop
  | .idle => toServer = [] ∧ toClient = [] ∧ Ready server []
  | .writing rest r =>
    rest ≠ [] ∧ toClient = [] ∧ ∃ got, Ready server got ∧ got ++ toServer ++ rest = encodeRequest r
  | .readHeader got r =>
    got.length < 8
      ∧ ((got = [] ∧ toClient = []
          ∧ ∃ request, Ready server request ∧ request ++ toServer = encodeRequest r)
        ∨ (toServer = [] ∧ ∃ out, Answering file r server out
          ∧ got ++ toClient ++ out = response file r.offset r.len))
  | .readPage got r =>
    got.length < r.len ∧ toServer = []
      ∧ ∃ out, Answering file r server out
        ∧ seekRead file r.offset r.len = some (got ++ toClient ++ out)
  | .gone => True

/-- Client and server agree on what is on its way. -/
def InStep (file : MemoryRanges) (c : Connection) : Prop :=
  InStepAt file c.server c.toServer c.toClient c.client

/-- What a client can still be doing after a failure. -/
def BrokenAt : ClientPc → Prop
  | .writing rest _ => rest ≠ []
  | .readHeader got _ => got = []
  | .readPage _ _ => False
  | _ => True

/-- Both ends after a failure: nothing comes back any more. -/
def Broken (c : Connection) : Prop :=
  c.toClient = []
    ∧ (c.server.isClosed = true ∨ ∃ offset len, c.server = .record offset len false)
    ∧ BrokenAt c.client

/-- The answers are right, and both sides in step. -/
structure Ok (file : MemoryRanges) (c : Connection) : Prop where
  faithful : Faithful file c.results
  inStep : Succeeded c.results → InStep file c
  broken : ¬ Succeeded c.results → Broken c

variable {results : List (PageRequest × Option (List UInt8))} {a : Act}

section Connections

variable {file : MemoryRanges} {c c' : Connection} {r : PageRequest}

/-! ### Results -/

variable {out : Option (List UInt8)} {got toServer toClient under header rest page : List UInt8}
  {server' : ServerPc} {client : ClientPc} {n k size len : Nat}

theorem succeeded_append :
    Succeeded (results ++ [(r, out)]) ↔ Succeeded results ∧ out.isSome = true := by
  rw [Succeeded, Succeeded]
  constructor
  · intro h
    exact ⟨fun p hp => h p (mem_append_left _ hp), h (r, out) (mem_append_right _ mem_cons_self)⟩
  · rintro ⟨h, hout⟩ p hp
    rcases mem_append.mp hp with hp | hp
    · exact h p hp
    · rw [mem_singleton.mp hp]
      exact hout

theorem faithful_append (h : Faithful file results)
    (hout : out = if Succeeded results then fileReadPage file r else none) :
    Faithful file (results ++ [(r, out)]) := by
  intro k r' out' hk
  by_cases hlt : k < results.length
  · rw [getElem?_append_left hlt] at hk
    rw [take_append_of_le_length (Nat.le_of_lt hlt)]
    exact h k r' out' hk
  · have hlen := (List.getElem?_eq_some_iff.mp hk).1
    rw [length_append, length_singleton] at hlen
    obtain rfl : k = results.length := by omega
    rw [getElem?_concat_length] at hk
    obtain ⟨rfl, rfl⟩ := Prod.mk.inj (some.inj hk)
    rw [take_left]
    exact hout

/-- A call returns the page. -/
theorem Ok.finish_some (h : Ok file c) (hall : Succeeded c.results)
    (hpage : fileReadPage file r = some page) (hstep : InStep file (c'.finish r (some page)))
    (hres : c'.results = c.results) : Ok file (c'.finish r (some page)) where
  faithful := by
    show Faithful file (c'.results ++ _)
    rw [hres]
    exact faithful_append h.faithful (by rw [if_pos hall, hpage])
  inStep _ := hstep
  broken hno := by
    refine absurd ?_ hno
    show Succeeded (c'.results ++ _)
    rw [hres]
    exact succeeded_append.mpr ⟨hall, rfl⟩

/-- A call fails. -/
theorem Ok.finish_none (h : Ok file c)
    (hnone : Succeeded c.results → fileReadPage file r = none)
    (hbroken : Broken (c'.finish r none)) (hres : c'.results = c.results) :
    Ok file (c'.finish r none) where
  faithful := by
    show Faithful file (c'.results ++ _)
    rw [hres]
    refine faithful_append h.faithful ?_
    by_cases hall : Succeeded c.results
    · rw [if_pos hall, hnone hall]
    · rw [if_neg hall]
  inStep hall := by
    have key : Succeeded (c'.results ++ [(r, none)]) := hall
    exact absurd (succeeded_append.mp key).2 (by simp)
  broken _ := hbroken

/-- A step within a call. -/
theorem Ok.within (h : Ok file c) (hres : c'.results = c.results)
    (hstep : InStep file c → InStep file c') (hbroken : Broken c → Broken c') :
    Ok file c' where
  faithful := hres ▸ h.faithful
  inStep hall := hstep (h.inStep (hres ▸ hall))
  broken hno := hbroken (h.broken (hres ▸ hno))

theorem Ok.alive (h : Ok file c) (hall : Succeeded c.results) (hres : c'.results = c.results)
    (hstep : InStep file c') : Ok file c' :=
  ⟨hres ▸ h.faithful, fun _ => hstep, fun hno => absurd (hres ▸ hall) hno⟩

theorem Ready.not_closed {server : ServerPc} (h : Ready server got) : server.isClosed = false := by
  cases server with
  | closed => exact False.elim h
  | _ => rfl

/-- A closed server has written everything, and it was a refusal. -/
theorem Answering.of_closed {server : ServerPc} {out : List UInt8}
    (h : Answering file r server out) (hclosed : server.isClosed = true) :
    out = [] ∧ (seekRead file r.offset r.len).isSome = false := by
  cases server with
  | closed => exact h
  | _ => cases hclosed

/-- Once a refusal is written the server ends. -/
theorem Answering.refused {server : ServerPc} (h : Answering file r server [])
    (hno : (seekRead file r.offset r.len).isSome = false) :
    server.isClosed = true ∨ ∃ offset len, server = .record offset len false := by
  cases server with
  | closed => exact .inl rfl
  | record offset len ok =>
    obtain ⟨-, rfl⟩ := h
    exact .inr ⟨offset, len, by rw [hno]⟩
  | writing rest offset len ok => exact absurd h.1 h.2.1
  | readRequest request => rw [h.2.2] at hno; cases hno
  | backlog => exact False.elim h

/-- Once a page is written the server takes the next request. -/
theorem Answering.ready {server : ServerPc} (h : Answering file r server [])
    (hyes : (seekRead file r.offset r.len).isSome = true) : Ready server [] := by
  cases server with
  | closed => rw [h.2] at hyes; cases hyes
  | record offset len ok => exact ⟨h.2.trans hyes, rfl⟩
  | writing rest offset len ok => exact absurd h.1 h.2.1
  | readRequest request => exact ⟨h.1, by rw [h.1]; exact Nat.zero_lt_succ 11⟩
  | backlog => exact False.elim h

/-- A server that still reads or writes has refused nothing. -/
theorem Ok.succeeded (h : Ok file c) (hopen : c.server.isClosed = false)
    (hrec : ∀ offset len, c.server ≠ .record offset len false) : Succeeded c.results := by
  by_contra hno
  rcases (h.broken hno).2.1 with hclosed | ⟨offset, len, hserver⟩
  · rw [hopen] at hclosed
    cases hclosed
  · exact hrec offset len hserver

/-- The client sees a server that goes on without reading or writing as before. -/
theorem InStepAt.server {server : ServerPc} (h : InStepAt file server toServer toClient client)
    (hready : ∀ got, Ready server got → Ready server' got)
    (hans : ∀ r out, Answering file r server out → Answering file r server' out) :
    InStepAt file server' toServer toClient client := by
  cases client with
  | idle => exact ⟨h.1, h.2.1, hready _ h.2.2⟩
  | gone => trivial
  | writing rest r =>
    obtain ⟨hrest, hempty, got, hr, hreq⟩ := h
    exact ⟨hrest, hempty, got, hready got hr, hreq⟩
  | readHeader got r =>
    obtain ⟨hlt, ⟨hgot, hempty, request, hr, hreq⟩ | ⟨hsent, out, ha, hresp⟩⟩ := h
    · exact ⟨hlt, .inl ⟨hgot, hempty, request, hready request hr, hreq⟩⟩
    · exact ⟨hlt, .inr ⟨hsent, out, hans r out ha, hresp⟩⟩
  | readPage got r =>
    obtain ⟨hlt, hsent, out, ha, hfile⟩ := h
    exact ⟨hlt, hsent, out, hans r out ha, hfile⟩

/-- A read that gets fewer bytes than it asks for leaves the rest under way. -/
theorem take_rest {out whole : List UInt8} (h : got ++ under ++ out = whole) (k : Nat) :
    got ++ under.take k ++ (under.drop k ++ out) = whole := by
  rw [← h, append_assoc got, ← append_assoc (under.take k), take_append_drop, append_assoc]

theorem length_take_le (h : got.length < size) :
    (got ++ under.take (min (n + 1) (size - got.length))).length ≤ size := by
  rw [length_append, length_take]
  omega

/-- The fields of a header, and what follows it. -/
theorem header_fields {tail : List UInt8} {status : Nat} (hlen : header.length = 8)
    (h : header ++ tail = leBytes 4 status ++ leBytes 4 len ++ page) :
    leNat (header.take 4) = status % 256 ^ 4
      ∧ leNat ((header.drop 4).take 4) = len % 256 ^ 4 ∧ tail = page := by
  have hlen' : (leBytes 4 status ++ leBytes 4 len).length = 8 := by
    rw [length_append, length_leBytes, length_leBytes]
  obtain ⟨rfl, rfl⟩ := append_inj h (hlen.trans hlen'.symm)
  refine ⟨?_, ?_, rfl⟩
  · rw [List.take_left' (length_leBytes 4 _), leNat_leBytes]
  · rw [List.drop_left' (length_leBytes 4 _),
      take_of_length_le (by rw [length_leBytes]), leNat_leBytes]

/-! ### The client's steps -/

/-- The stream ended: only after an earlier failure. -/
theorem endOfStream_ok (h : Ok file c) (hempty : c.toClient = [])
    (hclosed : c.server.isClosed = true) (hlive : InStep file c → False) :
    Ok file (c.finish r none) :=
  h.finish_none (fun hall => False.elim (hlive (h.inStep hall))) ⟨hempty, .inl hclosed, trivial⟩ rfl

theorem brokenPipe_ok (h : Ok file c) (hpc : c.client = .writing rest r)
    (hclosed : c.server.isClosed = true) : Ok file (c.finish r none) := by
  have hlive : InStep file c → False := by
    intro hin
    rw [InStep, hpc] at hin
    obtain ⟨-, -, got, hready, -⟩ := hin
    rw [hready.not_closed] at hclosed
    cases hclosed
  exact endOfStream_ok h (h.broken fun hall => hlive (h.inStep hall)).1 hclosed hlive

theorem write_inStep (hin : InStep file c) (hpc : c.client = .writing rest r) (k : Nat) :
    c.toClient = [] ∧ ∃ got, Ready c.server got
      ∧ got ++ (c.toServer ++ rest.take k) ++ rest.drop k = encodeRequest r := by
  rw [InStep, hpc] at hin
  obtain ⟨-, hempty, got, hready, hreq⟩ := hin
  refine ⟨hempty, got, hready, ?_⟩
  rw [← hreq]
  simp only [append_assoc, take_append_drop]

theorem endOfHeader_ok (h : Ok file c) (hpc : c.client = .readHeader got r)
    (hempty : c.toClient = []) (hclosed : c.server.isClosed = true) :
    Ok file (c.finish r none) := by
  refine endOfStream_ok h hempty hclosed fun hin => ?_
  rw [InStep, hpc] at hin
  obtain ⟨hlt, ⟨-, -, request, hready, -⟩ | ⟨-, out, hans, hresp⟩⟩ := hin
  · rw [hready.not_closed] at hclosed
    cases hclosed
  · -- the whole response would have been read
    have hlen := length_response file r.offset r.len
    rw [← hresp, hempty, (hans.of_closed hclosed).1, append_nil, append_nil] at hlen
    omega

/-- Bytes that come back are a response under way. -/
theorem readHeader_inStep (h : Ok file c) (hpc : c.client = .readHeader got r)
    (hne : c.toClient ≠ []) :
    Succeeded c.results ∧ got.length < 8 ∧ c.toServer = []
      ∧ ∃ out, Answering file r c.server out
        ∧ got ++ c.toClient ++ out = response file r.offset r.len := by
  have hall : Succeeded c.results := by
    by_contra hno
    exact hne (h.broken hno).1
  have hin := h.inStep hall
  rw [InStep, hpc] at hin
  obtain ⟨hlt, ⟨-, hempty, -⟩ | hback⟩ := hin
  · exact absurd hempty hne
  · exact ⟨hall, hlt, hback⟩

/-- A complete header is the start of the response. -/
theorem header_cases {out : List UInt8} (hlt : got.length < 8)
    (hresp : got ++ under ++ out = response file r.offset r.len)
    (hheader : header = got ++ under.take (min (n + 1) (8 - got.length)))
    (hfull : ¬ header.length < 8) :
    (seekRead file r.offset r.len = none ∧ leNat (header.take 4) = 1
        ∧ under.drop (min (n + 1) (8 - got.length)) = [] ∧ out = [])
      ∨ (leNat (header.take 4) = 0 ∧ leNat ((header.drop 4).take 4) = r.len
        ∧ seekRead file r.offset r.len
          = some (under.drop (min (n + 1) (8 - got.length)) ++ out)) := by
  have hlen : header.length = 8 := by
    have hle : (got ++ under.take (min (n + 1) (8 - got.length))).length ≤ 8 := length_take_le hlt
    rw [← hheader] at hle
    omega
  have hrest := take_rest hresp (min (n + 1) (8 - got.length))
  rw [← hheader] at hrest
  cases hfile : seekRead file r.offset r.len with
  | none =>
    rw [response_none hfile, ← append_nil (leBytes 4 1 ++ leBytes 4 0)] at hrest
    obtain ⟨hstatus, -, hnil⟩ := header_fields hlen hrest
    exact .inl ⟨rfl, hstatus, append_eq_nil_iff.mp hnil⟩
  | some page =>
    rw [response_some hfile] at hrest
    obtain ⟨hstatus, hcount, htail⟩ := header_fields hlen hrest
    exact .inr ⟨hstatus, hcount.trans (Nat.mod_eq_of_lt r.len_lt), by rw [htail]⟩

theorem headerPart_ok (h : Ok file c) (hpc : c.client = .readHeader got r) (hne : c.toClient ≠ [])
    (hlt : (got ++ c.toClient.take k).length < 8) :
    Ok file { c with
      toClient := c.toClient.drop k, client := .readHeader (got ++ c.toClient.take k) r } := by
  obtain ⟨hall, -, hsent, out, hans, hresp⟩ := readHeader_inStep h hpc hne
  refine h.alive hall rfl ⟨hlt, .inr ⟨hsent, out, hans, ?_⟩⟩
  rw [append_assoc]
  exact take_rest hresp k

theorem refused_ok (h : Ok file c) (hpc : c.client = .readHeader got r) (hne : c.toClient ≠ [])
    (hheader : header = got ++ c.toClient.take (min (n + 1) (8 - got.length)))
    (hfull : ¬ header.length < 8)
    (hbad : leNat (header.take 4) ≠ 0 ∨ leNat ((header.drop 4).take 4) ≠ r.len) :
    Ok file (Connection.finish r none
      { c with toClient := c.toClient.drop (min (n + 1) (8 - got.length)) }) := by
  obtain ⟨hall, hlt, hsent, out, hans, hresp⟩ := readHeader_inStep h hpc hne
  rcases header_cases hlt hresp hheader hfull with ⟨hfile, -, hempty, rfl⟩ | ⟨hs, hc, -⟩
  · exact h.finish_none (fun _ => hfile)
      ⟨hempty, hans.refused (by rw [hfile]; rfl), trivial⟩ rfl
  · rcases hbad with hbad | hbad
    · exact absurd hs hbad
    · exact absurd hc hbad

theorem granted_ok (h : Ok file c) (hpc : c.client = .readHeader got r) (hne : c.toClient ≠ [])
    (hheader : header = got ++ c.toClient.take (min (n + 1) (8 - got.length)))
    (hfull : ¬ header.length < 8) (hstatus : leNat (header.take 4) = 0) :
    Ok file { c with
      toClient := c.toClient.drop (min (n + 1) (8 - got.length)), client := .readPage [] r } := by
  obtain ⟨hall, hlt, hsent, out, hans, hresp⟩ := readHeader_inStep h hpc hne
  rcases header_cases hlt hresp hheader hfull with ⟨-, hone, -⟩ | ⟨-, -, hfile⟩
  · rw [hone] at hstatus
    cases hstatus
  · exact h.alive hall rfl ⟨r.len_pos, hsent, out, hans, hfile⟩

theorem readPage_inStep (h : Ok file c) (hpc : c.client = .readPage got r) :
    Succeeded c.results ∧ got.length < r.len ∧ c.toServer = []
      ∧ ∃ out, Answering file r c.server out
        ∧ seekRead file r.offset r.len = some (got ++ c.toClient ++ out) := by
  have hall : Succeeded c.results := by
    by_contra hno
    have hbroken := (h.broken hno).2.2
    rw [hpc] at hbroken
    exact hbroken
  have hin := h.inStep hall
  rw [InStep, hpc] at hin
  exact ⟨hall, hin⟩

theorem endOfPage_ok (h : Ok file c) (hpc : c.client = .readPage got r)
    (hclosed : c.server.isClosed = true) : Ok file (c.finish r none) := by
  -- the server closes after a refusal only
  obtain ⟨-, -, -, out, hans, hfile⟩ := readPage_inStep h hpc
  have hno := (hans.of_closed hclosed).2
  rw [hfile] at hno
  cases hno

theorem pagePart_ok (h : Ok file c) (hpc : c.client = .readPage got r)
    (hlt : (got ++ c.toClient.take k).length < r.len) :
    Ok file { c with
      toClient := c.toClient.drop k, client := .readPage (got ++ c.toClient.take k) r } := by
  obtain ⟨hall, -, hsent, out, hans, hfile⟩ := readPage_inStep h hpc
  refine h.alive hall rfl ⟨hlt, hsent, out, hans, ?_⟩
  rw [← take_rest rfl k, ← append_assoc] at hfile
  exact hfile

theorem gotPage_ok (h : Ok file c) (hpc : c.client = .readPage got r)
    (hfull : ¬ (got ++ c.toClient.take k).length < r.len) :
    Ok file (Connection.finish r (some (got ++ c.toClient.take k))
      { c with toClient := c.toClient.drop k }) := by
  obtain ⟨hall, hlt, hsent, out, hans, hfile⟩ := readPage_inStep h hpc
  rw [← take_rest rfl k] at hfile
  -- the page is complete, so nothing is left under way
  have hsize := length_of_seekRead hfile
  rw [length_append] at hsize
  have hnil : c.toClient.drop k ++ out = [] := eq_nil_of_length_eq_zero (by omega)
  rw [hnil, append_nil] at hfile
  obtain ⟨hempty, rfl⟩ := append_eq_nil_iff.mp hnil
  exact h.finish_some hall hfile ⟨hsent, hempty, hans.ready (by rw [hfile]; rfl)⟩ rfl

/-! ### The server's steps -/

theorem requestPart_ok (h : Ok file c) (hpc : c.server = .readRequest got) (hne : c.toServer ≠ [])
    (hlt : (got ++ c.toServer.take k).length < 12) :
    Ok file { c with
      toServer := c.toServer.drop k, server := .readRequest (got ++ c.toServer.take k) } := by
  have hall : Succeeded c.results := h.succeeded (by rw [hpc]; rfl) (by simp [hpc])
  have hin := h.inStep hall
  rw [InStep, hpc] at hin
  refine h.alive hall rfl ?_
  show InStepAt file _ _ _ c.client
  cases hclient : c.client with
  | idle => rw [hclient] at hin; exact absurd hin.1 hne
  | readPage g r => rw [hclient] at hin; exact absurd hin.2.1 hne
  | gone => trivial
  | writing rest r =>
    rw [hclient] at hin
    obtain ⟨hrest, hempty, g, ⟨rfl, -⟩, hreq⟩ := hin
    refine ⟨hrest, hempty, _, ⟨rfl, hlt⟩, ?_⟩
    rw [append_assoc]
    exact take_rest hreq k
  | readHeader g r =>
    rw [hclient] at hin
    obtain ⟨hg, ⟨hgot, hempty, request, ⟨rfl, -⟩, hreq⟩ | ⟨hsent, -⟩⟩ := hin
    · refine ⟨hg, .inl ⟨hgot, hempty, _, ⟨rfl, hlt⟩, ?_⟩⟩
      rw [append_assoc, take_append_drop]
      exact hreq
    · exact absurd hsent hne

/-- A complete request is the one the client waits on, unless the client is gone. -/
theorem gotRequest_cases (h : Ok file c) {request : List UInt8}
    (hpc : c.server = .readRequest got) (hne : c.toServer ≠ [])
    (hrequest : request = got ++ c.toServer.take k) (hfull : ¬ request.length < 12) :
    c.client = .gone
      ∨ ∃ r, c.client = .readHeader [] r ∧ request = encodeRequest r
        ∧ c.toServer.drop k = [] ∧ c.toClient = [] := by
  have hin := h.inStep (h.succeeded (by rw [hpc]; rfl) (by simp [hpc]))
  rw [InStep, hpc] at hin
  cases hclient : c.client with
  | idle => rw [hclient] at hin; exact absurd hin.1 hne
  | readPage g r => rw [hclient] at hin; exact absurd hin.2.1 hne
  | gone => exact .inl rfl
  | writing rest r =>
    -- the client has not written everything
    rw [hclient] at hin
    obtain ⟨hrest, -, g, ⟨rfl, hg⟩, hreq⟩ := hin
    have hlen := congrArg List.length (take_rest hreq k)
    rw [← hrequest, length_encodeRequest, length_append, length_append] at hlen
    have hpos := length_pos_iff.mpr hrest
    omega
  | readHeader g r =>
    rw [hclient] at hin
    obtain ⟨hg, ⟨rfl, hempty, request', ⟨rfl, hlt⟩, hreq⟩ | ⟨hsent, -⟩⟩ := hin
    · have hwhole : request ++ c.toServer.drop k = encodeRequest r := by
        rw [hrequest, append_assoc, take_append_drop]
        exact hreq
      have hlen := congrArg List.length hwhole
      rw [length_encodeRequest, length_append] at hlen
      have hnil : c.toServer.drop k = [] := eq_nil_of_length_eq_zero (by omega)
      rw [hnil, append_nil] at hwhole
      exact .inr ⟨r, rfl, hwhole, hnil, hempty⟩
    · exact absurd hsent hne

/-- The server decodes what the client encoded. -/
theorem gotRequest_ok (h : Ok file c) {request : List UInt8} (hpc : c.server = .readRequest got)
    (hne : c.toServer ≠ []) (hrequest : request = got ++ c.toServer.take k)
    (hfull : ¬ request.length < 12) :
    Ok file { c with
      toServer := c.toServer.drop k
      server := .writing
        (response file (leNat (request.take 8)) (leNat ((request.drop 8).take 4)))
        (leNat (request.take 8)) (leNat ((request.drop 8).take 4))
        (seekRead file (leNat (request.take 8)) (leNat ((request.drop 8).take 4))).isSome } := by
  have hall : Succeeded c.results := h.succeeded (by rw [hpc]; rfl) (by simp [hpc])
  refine h.alive hall rfl ?_
  show InStepAt file _ _ _ c.client
  rcases gotRequest_cases h hpc hne hrequest hfull with hgone | ⟨r, hcl, rfl, hnil, hempty⟩
  · rw [hgone]
    trivial
  · rw [hcl, decode_offset, decode_len, hempty]
    refine ⟨Nat.zero_lt_succ 7, .inr ⟨hnil, _, ⟨rfl, ?_, rfl⟩, rfl⟩⟩
    intro hno
    have hresp := length_response file r.offset r.len
    rw [hno] at hresp
    cases hresp

/-- Part of the response goes out; `server'` is where the server is then. -/
theorem answered_ok (h : Ok file c) {offset : Nat} {ok : Bool}
    (hpc : c.server = .writing rest offset len ok)
    (hans : ∀ r, ok = (seekRead file r.offset r.len).isSome →
      Answering file r server' (rest.drop k)) :
    Ok file { c with toClient := c.toClient ++ rest.take k, server := server' } := by
  have hall : Succeeded c.results := h.succeeded (by rw [hpc]; rfl) (by simp [hpc])
  have hin := h.inStep hall
  rw [InStep, hpc] at hin
  refine h.alive hall rfl ?_
  show InStepAt file _ _ _ c.client
  cases hclient : c.client with
  | idle => rw [hclient] at hin; exact False.elim hin.2.2
  | gone => trivial
  | writing out r =>
    rw [hclient] at hin
    obtain ⟨-, -, g, hready, -⟩ := hin
    exact False.elim hready
  | readHeader g r =>
    rw [hclient] at hin
    obtain ⟨hg, ⟨-, -, request, hready, -⟩ | ⟨hsent, out, ⟨rfl, -, hok⟩, hresp⟩⟩ := hin
    · exact False.elim hready
    · refine ⟨hg, .inr ⟨hsent, rest.drop k, hans r hok, ?_⟩⟩
      rw [← hresp]
      simp only [append_assoc, take_append_drop]
  | readPage g r =>
    rw [hclient] at hin
    obtain ⟨hg, hsent, out, ⟨rfl, -, hok⟩, hfile⟩ := hin
    refine ⟨hg, hsent, rest.drop k, hans r hok, ?_⟩
    rw [hfile]
    simp only [append_assoc, take_append_drop]

/-! ### Every step -/

theorem ok_new : Ok file .new where
  faithful k r out hk := by simp [Connection.new] at hk
  inStep _ := ⟨rfl, rfl, rfl⟩
  broken hno := absurd (fun p hp => by simp [Connection.new] at hp) hno

/-- **IN STEP.**  Every step of a connection keeps its two ends in step. -/
theorem ok_move (h : Ok file c) (hmove : ConnMove file c a c') : Ok file c' := by
  cases hmove with
  | accepted hpc =>
    have hall : Succeeded c.results := h.succeeded (by rw [hpc]; rfl) (by simp [hpc])
    have hin := h.inStep hall
    rw [InStep, hpc] at hin
    refine h.alive hall rfl (hin.server ?_ ?_)
    · rintro got rfl
      exact ⟨rfl, Nat.zero_lt_succ 11⟩
    · exact fun r out hans => False.elim hans
  | called hpc =>
    rename_i r
    have hne : encodeRequest r ≠ [] := by
      intro hno
      have := length_encodeRequest r
      rw [hno] at this
      cases this
    refine h.within rfl (fun hin => ?_) (fun hb => ⟨hb.1, hb.2.1, hne⟩)
    rw [InStep, hpc] at hin
    obtain ⟨hsent, hempty, hready⟩ := hin
    refine ⟨hne, hempty, [], hready, ?_⟩
    show [] ++ c.toServer ++ encodeRequest r = _
    rw [hsent]
    rfl
  | hungUp hpc => exact h.within rfl (fun _ => trivial) (fun hb => ⟨hb.1, hb.2.1, trivial⟩)
  | brokenPipe hpc hclosed => exact brokenPipe_ok h hpc hclosed
  | wrotePart hpc hk hmore =>
    refine h.within rfl (fun hin => ?_) (fun hb => ⟨hb.1, hb.2.1, hmore⟩)
    obtain ⟨hempty, got, hready, hsplit⟩ := write_inStep hin hpc _
    exact ⟨hmore, hempty, got, hready, hsplit⟩
  | wroteAll hpc hk hdone =>
    refine h.within rfl (fun hin => ?_) (fun hb => ⟨hb.1, hb.2.1, rfl⟩)
    obtain ⟨hempty, got, hready, hsplit⟩ := write_inStep hin hpc _
    rw [hdone, append_nil] at hsplit
    exact ⟨Nat.zero_lt_succ 7, .inl ⟨rfl, hempty, got, hready, hsplit⟩⟩
  | endOfHeader hpc hempty hclosed => exact endOfHeader_ok h hpc hempty hclosed
  | endOfPage hpc hempty hclosed => exact endOfPage_ok h hpc hclosed
  | headerPart hpc hk hne hlt => exact headerPart_ok h hpc hne hlt
  | refused hpc hk hne hheader hfull hbad =>
    subst hk
    exact refused_ok h hpc hne hheader hfull hbad
  | granted hpc hk hne hheader hfull hstatus hcount =>
    subst hk
    exact granted_ok h hpc hne hheader hfull hstatus
  | pagePart hpc hk hne hlt => exact pagePart_ok h hpc hlt
  | gotPage hpc hk hne hfull => exact gotPage_ok h hpc hfull
  | serverGone hgone hopen hrec =>
    refine h.alive (h.succeeded hopen hrec) rfl ?_
    show InStepAt file _ _ _ c.client
    cases hclient : c.client with
    | gone => trivial
    | _ => rw [hclient] at hgone; cases hgone
  | requestPart hpc hk hne hlt => exact requestPart_ok h hpc hne hlt
  | gotRequest hpc hk hne hrequest hfull =>
    exact gotRequest_ok h hpc hne hrequest hfull
  | answeredPart hpc hk hmore => exact answered_ok h hpc fun r hok => ⟨rfl, hmore, hok⟩
  | answeredAll hpc hk hdone => exact answered_ok h hpc fun r hok => ⟨hdone, hok⟩
  | recorded hpc =>
    have hall : Succeeded c.results := h.succeeded (by rw [hpc]; rfl) (by simp [hpc])
    have hin := h.inStep hall
    rw [InStep, hpc] at hin
    refine h.alive hall rfl (hin.server ?_ ?_)
    · rintro got ⟨-, rfl⟩
      exact ⟨rfl, Nat.zero_lt_succ 11⟩
    · rintro r out ⟨rfl, hok⟩
      exact ⟨rfl, rfl, hok.symm⟩
  | recordedError hpc =>
    refine h.within rfl (fun hin => ?_) (fun hb => ⟨hb.1, .inl rfl, hb.2.2⟩)
    rw [InStep, hpc] at hin
    refine hin.server ?_ ?_
    · rintro got ⟨hok, -⟩
      cases hok
    · rintro r out ⟨rfl, hok⟩
      exact ⟨rfl, hok.symm⟩

/-! ## A call returns -/

/-- A call of `read_page` is in progress. -/
def Busy : ClientPc → Prop
  | .idle => False
  | .gone => False
  | _ => True

/-- Steps of the connection's own threads; the rest is the caller's choice. -/
def Act.isOwn : Act → Bool
  | .accept => true
  | .client _ => true
  | .server _ => true
  | _ => false

/-- The steps the client has left. -/
def clientWork : ClientPc → Nat
  | .writing rest _ => 2 * rest.length + 2
  | .readHeader _ _ => 1
  | .readPage _ _ => 1
  | _ => 0

/-- The steps the server has left. -/
def serverWork : ServerPc → Nat
  | .backlog => 1
  | .readRequest _ => 0
  | .writing rest _ _ _ => 2 * rest.length + 2
  | .record _ _ _ => 1
  | .closed => 0

/-- The server has nothing of the request. -/
def untouched : ServerPc → Bool
  | .readRequest (_ :: _) => false
  | _ => true

/-- The work of answering, as long as the server has not taken the request. -/
def answerWork (file : MemoryRanges) (server : ServerPc) (toServer : List UInt8) :
    ClientPc → Nat
  | .writing _ r => 2 * (response file r.offset r.len).length + 3
  | .readHeader _ r =>
    if toServer = [] ∧ untouched server = true then 0
    else 2 * (response file r.offset r.len).length + 3
  | _ => 0

/-- A bound on the steps of the connection's threads until the call returns. -/
def work (file : MemoryRanges) (c : Connection) : Nat :=
  clientWork c.client + c.toServer.length + c.toClient.length + serverWork c.server
    + answerWork file c.server c.toServer c.client

theorem answerWork_le {server : ServerPc} {toServer' : List UInt8}
    (h : toServer = [] ∧ untouched server = true →
      toServer' = [] ∧ untouched server' = true) (client : ClientPc) :
    answerWork file server' toServer' client ≤ answerWork file server toServer client := by
  cases client with
  | readHeader got r =>
    rw [answerWork, answerWork]
    split
    · exact Nat.zero_le _
    · rename_i hno
      rw [if_neg fun hyes => hno (h hyes)]
  | _ => exact Nat.le_refl _

/-- Reading takes at least one byte off the stream. -/
theorem length_drop_lt (hne : under ≠ []) (hsize : 0 < size) :
    (under.drop (min (n + 1) size)).length < under.length := by
  have hpos := length_pos_iff.mpr hne
  rw [length_drop]
  omega

/-- Writing moves at least one byte of what is left. -/
theorem length_take_add_drop (rest : List UInt8) (k : Nat) :
    (rest.take k).length + (rest.drop k).length = rest.length := by
  rw [← length_append, take_append_drop]

theorem length_drop_pos_lt (hk : 0 < k) (hne : rest ≠ []) : (rest.drop k).length < rest.length := by
  have hpos := length_pos_iff.mpr hne
  rw [length_drop]
  omega

theorem clientWork_pos (h : Busy client) : 0 < clientWork client := by
  cases client with
  | idle | gone => cases h
  | _ => exact Nat.zero_lt_succ _

/-- A call that returns has no work left. -/
theorem finish_lt (hbusy : Busy c.client) (hle : toClient.length ≤ c.toClient.length) :
    work file (Connection.finish r out { c with toClient := toClient }) < work file c := by
  have hpos := clientWork_pos hbusy
  have hidle : clientWork .idle = 0 := rfl
  have hans : answerWork file c.server c.toServer .idle = 0 := rfl
  simp only [work, Connection.finish]
  omega

/-- A client that reads and goes on. -/
theorem read_lt (hlt : toClient.length < c.toClient.length) (hpos : 0 < clientWork c.client)
    (hone : clientWork client = 1) (hans : answerWork file c.server c.toServer client
      ≤ answerWork file c.server c.toServer c.client) :
    work file { c with toClient := toClient, client := client } < work file c := by
  simp only [work]
  omega

/-- A step of the server, with what it moves between the streams. -/
theorem server_lt {server : ServerPc} (hlt : toServer.length + toClient.length + serverWork server
      < c.toServer.length + c.toClient.length + serverWork c.server)
    (hans : c.toServer = [] ∧ untouched c.server = true → toServer = [] ∧ untouched server = true) :
    work file { c with server := server, toServer := toServer, toClient := toClient }
      < work file c := by
  have hle : answerWork file server toServer c.client
      ≤ answerWork file c.server c.toServer c.client := answerWork_le hans c.client
  simp only [work]
  omega

/-- Taking the request turns the work of answering into what the server writes. -/
theorem gotRequest_lt (h : Ok file c) (hbusy : Busy c.client) {request : List UInt8}
    (hpc : c.server = .readRequest got) (hne : c.toServer ≠ [])
    (hrequest : request = got ++ c.toServer.take k) (hfull : ¬ request.length < 12) :
    work file { c with
        toServer := c.toServer.drop k
        server := .writing
          (response file (leNat (request.take 8)) (leNat ((request.drop 8).take 4)))
          (leNat (request.take 8)) (leNat ((request.drop 8).take 4))
          (seekRead file (leNat (request.take 8)) (leNat ((request.drop 8).take 4))).isSome }
      < work file c := by
  rcases gotRequest_cases h hpc hne hrequest hfull with hgone | ⟨r, hcl, rfl, hnil, -⟩
  · rw [hgone] at hbusy
    cases hbusy
  · have hpos := length_pos_iff.mpr hne
    simp only [work, hcl, hnil, decode_offset, decode_len, serverWork, answerWork, hpc,
      untouched, and_self, if_true, if_neg (fun hno => hne (And.left hno)), length_nil]
    omega

/-- **PROGRESS.**  While a call is in progress every step of the connection's own
    threads lowers the work left. -/
theorem own_lt (h : Ok file c) (hbusy : Busy c.client) (hown : Act.isOwn a = true)
    (hmove : ConnMove file c a c') : work file c' < work file c := by
  have hpos := clientWork_pos hbusy
  cases hmove with
  | accepted hpc | recorded hpc | recordedError hpc =>
    refine server_lt ?_ (fun he => ⟨he.1, rfl⟩)
    rw [hpc]
    exact Nat.lt_succ_self _
  | called | hungUp => cases hown
  | brokenPipe hpc hclosed | endOfHeader | endOfPage => exact finish_lt hbusy (Nat.le_refl _)
  | wrotePart hpc hk hmore =>
    rename_i n k rest r
    have hsplit := length_take_add_drop rest k
    have hlt : (rest.drop k).length < rest.length :=
      length_drop_pos_lt hk (fun hno => hmore (by rw [hno, drop_nil]))
    simp only [work, hpc, clientWork, answerWork, length_append]
    omega
  | wroteAll hpc hk hdone =>
    rename_i n k rest r
    have hlen := length_take_add_drop rest k
    simp only [work, hpc, clientWork, answerWork, length_append]
    split <;> omega
  | headerPart hpc hk hne hlt =>
    rw [length_append] at hlt
    refine read_lt (hk ▸ length_drop_lt hne (by omega)) hpos rfl ?_
    rw [hpc, answerWork, answerWork]
  | refused hpc hk hne hheader hfull hbad | gotPage hpc hk hne hfull =>
    exact finish_lt hbusy (by rw [length_drop]; exact Nat.sub_le _ _)
  | granted hpc hk hne hheader hfull hstatus hcount =>
    obtain ⟨-, hlt, -⟩ := readHeader_inStep h hpc hne
    exact read_lt (hk ▸ length_drop_lt hne (by omega)) hpos rfl (Nat.zero_le _)
  | pagePart hpc hk hne hlt =>
    rw [length_append] at hlt
    exact read_lt (hk ▸ length_drop_lt hne (by omega)) hpos rfl (Nat.zero_le _)
  | serverGone hgone hopen hrec =>
    cases hclient : c.client with
    | gone => rw [hclient] at hbusy; cases hbusy
    | _ => rw [hclient] at hgone; cases hgone
  | requestPart hpc hk hne hlt =>
    rw [length_append] at hlt
    rename_i n k got
    have hless : (c.toServer.drop (min (n + 1) (12 - got.length))).length
        < c.toServer.length := length_drop_lt hne (by omega)
    refine server_lt ?_ (fun he => absurd he.1 hne)
    rw [hpc, serverWork, serverWork, hk]
    omega
  | gotRequest hpc hk hne hrequest hfull =>
    exact gotRequest_lt h hbusy hpc hne hrequest hfull
  | answeredPart hpc hk hmore =>
    rename_i n k rest offset len ok
    have hsplit := length_take_add_drop rest k
    have hlt : (rest.drop k).length < rest.length :=
      length_drop_pos_lt hk (fun hno => hmore (by rw [hno, drop_nil]))
    refine server_lt ?_ (fun he => ⟨he.1, rfl⟩)
    rw [hpc, serverWork, serverWork, length_append]
    omega
  | answeredAll hpc hk hdone =>
    rename_i n k rest offset len ok
    have hsplit := length_take_add_drop rest k
    refine server_lt ?_ (fun he => ⟨he.1, rfl⟩)
    rw [hpc, serverWork, serverWork, length_append]
    omega

/-- A client that waits with nothing under way has a server that can go on. -/
theorem server_enabled (hopen : c.server.isClosed = false)
    (hread : ∀ got, c.server = .readRequest got → c.toServer ≠ []) :
    ∃ a, Act.isOwn a = true ∧ (connStep file c a).isSome = true := by
  cases hserver : c.server with
  | backlog => exact ⟨.accept, rfl, by rw [connStep, hserver]; rfl⟩
  | closed => rw [hserver] at hopen; cases hopen
  | readRequest got =>
    refine ⟨.server 0, rfl, ?_⟩
    simp only [connStep, hserver, serverRead, if_neg (hread got hserver)]
    split <;> rfl
  | writing rest offset len ok => exact ⟨.server 0, rfl, by rw [connStep, hserver]; rfl⟩
  | record offset len ok =>
    refine ⟨.server 0, rfl, ?_⟩
    rw [connStep, hserver]
    cases ok <;> rfl

/-- While a call is in progress the connection is not stuck. -/
theorem own_enabled (h : Ok file c) (hbusy : Busy c.client) :
    ∃ a, Act.isOwn a = true ∧ (connStep file c a).isSome = true := by
  cases hclient : c.client with
  | idle | gone => rw [hclient] at hbusy; cases hbusy
  | writing rest r => exact ⟨.client 0, rfl, by rw [connStep, hclient]; rfl⟩
  | readHeader got r =>
    by_cases hempty : c.toClient = []
    · cases hclosed : c.server.isClosed with
      | true =>
        refine ⟨.client 0, rfl, ?_⟩
        simp only [connStep, hclient, clientReadHeader, if_pos hempty, hclosed, if_true,
          map_some, isSome_some]
      | false =>
        refine server_enabled hclosed fun request hserver => ?_
        have hin := h.inStep (h.succeeded hclosed (by simp [hserver]))
        rw [InStep, hclient, hserver] at hin
        obtain ⟨hlt, ⟨-, -, g, ⟨rfl, hg⟩, hreq⟩ | ⟨-, out, ⟨-, rfl, -⟩, hresp⟩⟩ := hin
        · -- the rest of the request is under way
          intro hno
          have hlen := length_encodeRequest r
          rw [← hreq, hno, append_nil] at hlen
          omega
        · have hlen := length_response file r.offset r.len
          rw [← hresp, hempty, append_nil, append_nil] at hlen
          omega
    · refine ⟨.client 0, rfl, ?_⟩
      simp only [connStep, hclient, clientReadHeader, if_neg hempty]
      split_ifs <;> rfl
  | readPage got r =>
    by_cases hempty : c.toClient = []
    · cases hclosed : c.server.isClosed with
      | true =>
        refine ⟨.client 0, rfl, ?_⟩
        simp only [connStep, hclient, clientReadPage, if_pos hempty, hclosed, if_true,
          map_some, isSome_some]
      | false =>
        refine server_enabled hclosed fun request hserver => ?_
        -- a server that waits for the next request has sent the whole page
        obtain ⟨-, hlt, -, out, hans, hfile⟩ := readPage_inStep h hclient
        rw [hserver] at hans
        have hlen := length_of_seekRead hfile
        rw [hempty, hans.2.1, append_nil, append_nil] at hlen
        omega
    · refine ⟨.client 0, rfl, ?_⟩
      simp only [connStep, hclient, clientReadPage, if_neg hempty]
      split_ifs <;> rfl

/-! ### The calls -/

/-- The request of the call in progress. -/
def ClientPc.request : ClientPc → Option PageRequest
  | .idle => none
  | .writing _ r => some r
  | .readHeader _ r => some r
  | .readPage _ r => some r
  | .gone => none

/-- The calls that were made on the connection, in order. -/
def Connection.calls (c : Connection) : List PageRequest :=
  c.results.map Prod.fst ++ (ClientPc.request c.client).toList

/-- The request, if this is the step of a new call. -/
def Act.request : Act → Option PageRequest
  | .call r => some r
  | _ => none

theorem calls_move (h : ConnMove file c a c') :
    Connection.calls c' = Connection.calls c ++ (Act.request a).toList := by
  cases h <;> simp_all [Connection.calls, Connection.finish, ClientPc.request, Act.request]

end Connections

/-! ## Any number of connections -/

section Service

variable {file : MemoryRanges} {s s' : ServiceState} {l : ServiceLabel}

variable {i : Nat} {ls : List ServiceLabel} {c : Connection}

/-- A connection changes by its own steps only; the others keep everything. -/
theorem act_cases (h : serviceStep file s (.act i a) = some s') :
    ∃ c c', s.connections[i]? = some c ∧ ConnMove file c a c'
      ∧ s'.connections = s.connections.set i c' := by
  rw [serviceStep] at h
  obtain ⟨c, hc, hstep⟩ := bind_eq_some_iff.mp h
  obtain ⟨p, hp, rfl⟩ := map_eq_some_iff.mp hstep
  exact ⟨c, p.1, hc, connMove_of_step hp, rfl⟩

theorem ok_step (hok : ∀ c ∈ s.connections, Ok file c)
    (h : serviceStep file s l = some s') : ∀ c ∈ s'.connections, Ok file c := by
  intro c hc
  cases l with
  | connect =>
    cases h
    rcases mem_append.mp hc with hc | hc
    · exact hok c hc
    · rw [mem_singleton.mp hc]
      exact ok_new
  | act i a =>
    obtain ⟨c₀, c₁, hc₀, hmove, hs'⟩ := act_cases h
    rw [hs'] at hc
    rcases mem_or_eq_of_mem_set hc with hc | rfl
    · exact hok c hc
    · exact ok_move (hok c₀ (mem_of_getElem? hc₀)) hmove

theorem ok_reachable {pageSize : Nat} (h : exec (serviceStep file) (start pageSize) ls = some s) :
    ∀ c ∈ s.connections, Ok file c :=
  inv_of_reachable ⟨ls, h⟩ (fun c hc => by cases hc) fun _ _ _ => ok_step

/-- The steps of other connections change nothing here. -/
theorem other_unchanged (hc : s.connections[i]? = some c) (hother : ∀ a, l ≠ .act i a)
    (h : serviceStep file s l = some s') : s'.connections[i]? = some c := by
  cases l with
  | connect =>
    cases h
    show (s.connections ++ [.new])[i]? = _
    rw [getElem?_append_left (List.getElem?_eq_some_iff.mp hc).1]
    exact hc
  | act j a =>
    obtain ⟨c₀, c₁, -, -, hs'⟩ := act_cases h
    rw [hs', getElem?_set_ne]
    · exact hc
    · rintro rfl
      exact hother a rfl

theorem own_step_lt (hok : ∀ c ∈ s.connections, Ok file c) (hc : s.connections[i]? = some c)
    (hbusy : Busy c.client) (hown : Act.isOwn a = true)
    (h : serviceStep file s (.act i a) = some s') :
    ∃ c', s'.connections[i]? = some c' ∧ work file c' < work file c := by
  obtain ⟨c₀, c₁, hc₀, hmove, hs'⟩ := act_cases h
  rw [hc] at hc₀
  cases hc₀
  refine ⟨c₁, ?_, own_lt (hok c (mem_of_getElem? hc)) hbusy hown hmove⟩
  rw [hs', getElem?_set_self (List.getElem?_eq_some_iff.mp hc).1]

/-- The request of a new call on connection `i`. -/
def callOn (i : Nat) : ServiceLabel → Option PageRequest
  | .connect => none
  | .act j a => if j = i then Act.request a else none

/-- The calls on connection `i`, none before it is opened. -/
def callsOn (s : ServiceState) (i : Nat) : List PageRequest :=
  (s.connections[i]?.map Connection.calls).getD []

theorem callsOn_step (h : serviceStep file s l = some s') (i : Nat) :
    callsOn s' i = callsOn s i ++ (callOn i l).toList := by
  cases l with
  | connect =>
    cases h
    rw [callsOn, callsOn, callOn, toList_none, append_nil]
    show ((s.connections ++ [.new])[i]?.map _).getD [] = _
    rw [getElem?_append]
    split
    · rfl
    · rename_i hlen
      rw [getElem?_eq_none (Nat.le_of_not_lt hlen), getElem?_singleton]
      split <;> rfl
  | act j a =>
    obtain ⟨c₀, c₁, hc₀, hmove, hs'⟩ := act_cases h
    rw [callsOn, callsOn, callOn, hs']
    by_cases hj : j = i
    · subst hj
      rw [getElem?_set_self (List.getElem?_eq_some_iff.mp hc₀).1, hc₀, if_pos rfl]
      exact calls_move hmove
    · rw [getElem?_set_ne hj, if_neg hj, toList_none, append_nil]

/-- The calls on a connection are those of the run. -/
theorem callsOn_exec (h : exec (serviceStep file) s ls = some s') (i : Nat) :
    callsOn s' i = callsOn s i ++ ls.filterMap (callOn i) := by
  induction ls generalizing s with
  | nil =>
    cases h
    exact (append_nil _).symm
  | cons l ls ih =>
    obtain ⟨s₁, hl, hrest⟩ := exec_cons h
    rw [ih hrest, callsOn_step hl, append_assoc]
    cases hcall : callOn i l with
    | none => rw [filterMap_cons_none hcall]; rfl
    | some r => rw [filterMap_cons_some hcall]; rfl

/-- The results are a function of the file and the requests. -/
theorem faithful_ext {results' : List (PageRequest × Option (List UInt8))}
    (h : Faithful file results) (h' : Faithful file results')
    (hreq : results.map Prod.fst = results'.map Prod.fst) : results = results' := by
  have hfst : ∀ k : Nat, results[k]?.map Prod.fst = results'[k]?.map Prod.fst := by
    intro k
    rw [← getElem?_map, ← getElem?_map, hreq]
  have htake : ∀ k, results.take k = results'.take k := by
    intro k
    induction k with
    | zero => rfl
    | succ k ih =>
      rw [take_add_one, take_add_one, ih]
      have hk := hfst k
      cases hres : results[k]? with
      | none =>
        rw [hres] at hk
        rw [map_eq_none_iff.mp hk.symm]
      | some p =>
        rw [hres] at hk
        obtain ⟨p', hp', hfst'⟩ := map_eq_some_iff.mp hk.symm
        rw [hp']
        have hout := h k p.1 p.2 hres
        have hout' := h' k p'.1 p'.2 hp'
        rw [← ih, hfst', ← hout] at hout'
        rw [Prod.ext hfst' hout']
  have hlen : results.length = results'.length := by
    have := congrArg List.length hreq
    rwa [length_map, length_map] at this
  have hall := htake results.length
  rwa [take_length, hlen, take_length] at hall

end Service

/-- **THE SERVICE IS THE FILE.**  For any connections, requests, interleaving and
    fragmentation, each call returns what the file page source returns until the
    first failure on its connection, and fails after it; both ends stay in step.
    An idle client may call, and the results with the call in progress are the calls that
    were made, in order.  A call in progress can always go on, and each step of its own threads brings it
    nearer to its return, while other connections change nothing.  Two connections
    with the same requests, in whatever company, have the same results. -/
theorem service_reads_file (file : MemoryRanges) (pageSize : Nat)
    (ls : List ServiceLabel) :
    States (serviceStep file)
        (fun s => ∀ i c, s.connections[i]? = some c →
          Faithful file c.results ∧ (Succeeded c.results → InStep file c)
            ∧ (c.client = .idle → ∀ r, (serviceStep file s (.act i (.call r))).isSome = true)
            ∧ (Busy c.client → ∃ a, Act.isOwn a = true
                ∧ (serviceStep file s (.act i a)).isSome = true))
        (start pageSize) ls
      ∧ (∀ s, exec (serviceStep file) (start pageSize) ls = some s →
          ∀ i c, s.connections[i]? = some c →
            c.results.map Prod.fst ++ (ClientPc.request c.client).toList = ls.filterMap (callOn i))
      ∧ Moves (serviceStep file)
        (fun s l s' => ∀ i c, s.connections[i]? = some c →
          ((∀ a, l ≠ .act i a) → s'.connections[i]? = some c)
            ∧ ∀ a, l = .act i a → Busy c.client → Act.isOwn a = true →
              ∃ c', s'.connections[i]? = some c' ∧ work file c' < work file c)
        (start pageSize) ls
      ∧ (∀ s, exec (serviceStep file) (start pageSize) ls = some s →
          ∀ pageSize' ls' s', exec (serviceStep file) (start pageSize') ls' = some s' →
          ∀ c ∈ s.connections, ∀ c' ∈ s'.connections,
            c.results.map Prod.fst = c'.results.map Prod.fst → c.results = c'.results)
      ∧ ∀ r, fileReadPage file r = slice file r := by
  have hstart : ∀ c ∈ (start pageSize).connections, Ok file c := by
    intro c hc
    cases hc
  refine ⟨?_, ?_, ?_, ?_, fileReadPage_eq_slice file⟩
  · refine states_of_step (I := fun s => ∀ c ∈ s.connections, Ok file c) ?_
      (fun s l s' => ok_step) hstart ls
    intro s hok i c hc
    have h := hok c (mem_of_getElem? hc)
    refine ⟨h.faithful, h.inStep, fun hidle r => ?_, fun hbusy => ?_⟩
    · rw [serviceStep, hc]
      simp [connStep, hidle]
    obtain ⟨a, hown, hstep⟩ := own_enabled h hbusy
    refine ⟨a, hown, ?_⟩
    rw [serviceStep, hc]
    simpa using hstep
  · intro s hs i c hc
    have hcalls := callsOn_exec hs i
    rw [callsOn, hc] at hcalls
    exact hcalls
  · refine moves_of_inv (I := fun s => ∀ c ∈ s.connections, Ok file c) ?_ ls _ hstart
      (moves_true _ ls)
    intro s l s' hok hl _
    refine ⟨ok_step hok hl, fun i c hc => ⟨fun hother => other_unchanged hc hother hl, ?_⟩⟩
    rintro a rfl hbusy hown
    exact own_step_lt hok hc hbusy hown hl
  · intro s hs pageSize' ls' s' hs' c hc c' hc' hreq
    exact faithful_ext (ok_reachable hs c hc).faithful (ok_reachable hs' c' hc').faithful hreq

end ServiceEquivalence
