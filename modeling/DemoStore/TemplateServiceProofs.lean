import DemoStore.SparseFileProofs

/-! # The template service and its clients

    `serve_template` gives every connection a thread of its own; the thread reads
    12-byte requests and answers each with an 8-byte header and, if the file has the
    range, the bytes.  `TemplateServiceClient::read_page` is the other end.

    A connection is two program counters and the bytes that are under way in each
    direction.  A label says which thread goes on and how many bytes its call
    transfers at most, so every fragmentation of the streams is a run.  Two
    `write_all` calls in a row are one, with one list of bytes still to be written.
    The threads share the metrics; a critical section is one step.

    Calls on the sockets and on the log fail only when the other end is gone. -/

namespace TemplateService

open SparseFile List Option

/-! ## The file -/

/-- `memory-ranges`; the size of a file is a non-negative `i64`. -/
structure MemoryRanges where
  bytes : List UInt8
  fits : bytes.length < 2 ^ 63

/-- The arguments of `read_page`: the `offset` and the length of `dst`. -/
structure PageRequest where
  offset : Nat
  len : Nat
  offset_lt : offset < 2 ^ 64
  len_pos : 0 < len
  len_lt : len < 2 ^ 32

/-- `seek(SeekFrom::Start(offset))` and `read_exact`; `lseek` refuses offsets above
    `i64::MAX`. -/
def seekRead (file : MemoryRanges) (offset len : Nat) : Option (List UInt8) :=
  if 2 ^ 63 ≤ offset then none
  else if len ≤ (file.bytes.drop offset).length then some ((file.bytes.drop offset).take len)
  else none

/-- `TemplateRestoreBackend::read_page` with the page source `File`. -/
def fileReadPage (file : MemoryRanges) (r : PageRequest) : Option (List UInt8) :=
  seekRead file r.offset r.len

/-- The range of the request, if the file has it. -/
def slice (file : MemoryRanges) (r : PageRequest) : Option (List UInt8) :=
  if r.offset + r.len ≤ file.bytes.length then some ((file.bytes.drop r.offset).take r.len)
  else none

/-! ## Messages -/

/-- The bytes of a request: offset and length. -/
def encodeRequest (r : PageRequest) : List UInt8 := leBytes 8 r.offset ++ leBytes 4 r.len

/-- What the server writes for a request it has decoded. -/
def response (file : MemoryRanges) (offset len : Nat) : List UInt8 :=
  match seekRead file offset len with
  | some page => leBytes 4 0 ++ leBytes 4 len ++ page
  | none => leBytes 4 1 ++ leBytes 4 0

/-! ## Metrics -/

/-- The counters of the service. -/
structure TemplateServiceMetrics where
  pageSize : Nat
  pageRequests : UInt64
  requestErrors : UInt64
  bytesServed : UInt64
  connections : UInt64
  uniquePagesSeen : List Nat

namespace TemplateServiceMetrics

/-- `record_unique_pages`. -/
def recordUniquePages (offset len : Nat) (m : TemplateServiceMetrics) :
    TemplateServiceMetrics :=
  if len = 0 ∨ m.pageSize = 0 then m
  else
    let firstPage := offset / m.pageSize
    let lastPage := (offset + len - 1) / m.pageSize
    { m with
      uniquePagesSeen := (List.range' firstPage (lastPage + 1 - firstPage)).foldl
        (fun seen page => seen.insert page) m.uniquePagesSeen }

/-- `record_connection`. -/
def recordConnection (m : TemplateServiceMetrics) : TemplateServiceMetrics :=
  { m with connections := m.connections + 1 }

/-- `record_page_request`. -/
def recordPageRequest (offset len : Nat) (m : TemplateServiceMetrics) :
    TemplateServiceMetrics :=
  recordUniquePages offset len
    { m with
      pageRequests := m.pageRequests + 1
      bytesServed := m.bytesServed + UInt64.ofNat len }

/-- `record_page_request_error`. -/
def recordPageRequestError (m : TemplateServiceMetrics) : TemplateServiceMetrics :=
  { m with requestErrors := m.requestErrors + 1 }

end TemplateServiceMetrics

/-! ## One connection -/

/-- Where the caller of `read_page` is.  `gone` is a client that was dropped. -/
inductive ClientPc where
  | idle
  | writing (rest : List UInt8) (r : PageRequest)
  | readHeader (got : List UInt8) (r : PageRequest)
  | readPage (got : List UInt8) (r : PageRequest)
  | gone

/-- Where `serve_template_connection` is; a connection in the `backlog` has no thread
    yet.  `ok` is the result of reading the file. -/
inductive ServerPc where
  | backlog
  | readRequest (got : List UInt8)
  | writing (rest : List UInt8) (offset len : Nat) (ok : Bool)
  | record (offset len : Nat) (ok : Bool)
  | closed

/-- The server has closed its end. -/
def ServerPc.isClosed : ServerPc → Bool
  | .closed => true
  | _ => false

/-- The client has closed its end. -/
def ClientPc.isGone : ClientPc → Bool
  | .gone => true
  | _ => false

/-- `results` has the calls of `read_page` that have returned, in order. -/
structure Connection where
  client : ClientPc
  server : ServerPc
  toServer : List UInt8
  toClient : List UInt8
  results : List (PageRequest × Option (List UInt8))

/-- A connection that waits to be accepted. -/
def Connection.new : Connection := ⟨.idle, .backlog, [], [], []⟩

/-- `read_page` returns. -/
def Connection.finish (r : PageRequest) (result : Option (List UInt8)) (c : Connection) :
    Connection :=
  { c with client := .idle, results := c.results ++ [(r, result)] }

/-- What happens on a connection. -/
inductive Act where
  | accept
  | call (r : PageRequest)
  | client (n : Nat)
  | server (n : Nat)
  | hangUp

/-- `write_all` of the request. -/
def clientWrite (n : Nat) (rest : List UInt8) (r : PageRequest) (c : Connection) :
    Connection :=
  if c.server.isClosed then c.finish r none
  else
    { c with
      toServer := c.toServer ++ rest.take (n + 1)
      client :=
        if rest.drop (n + 1) = [] then .readHeader [] r else .writing (rest.drop (n + 1)) r }

/-- `read_exact` of the header, and the two checks. -/
def clientReadHeader (n : Nat) (got : List UInt8) (r : PageRequest) (c : Connection) :
    Option Connection :=
  if c.toClient = [] then if c.server.isClosed then some (c.finish r none) else none
  else
    let k := min (n + 1) (8 - got.length)
    let header := got ++ c.toClient.take k
    let c := { c with toClient := c.toClient.drop k }
    if header.length < 8 then some { c with client := .readHeader header r }
    else if leNat (header.take 4) ≠ 0 then some (c.finish r none)
    else if leNat ((header.drop 4).take 4) ≠ r.len then some (c.finish r none)
    else some { c with client := .readPage [] r }

/-- `read_exact` of the page. -/
def clientReadPage (n : Nat) (got : List UInt8) (r : PageRequest) (c : Connection) :
    Option Connection :=
  if c.toClient = [] then if c.server.isClosed then some (c.finish r none) else none
  else
    let k := min (n + 1) (r.len - got.length)
    let page := got ++ c.toClient.take k
    let c := { c with toClient := c.toClient.drop k }
    if page.length < r.len then some { c with client := .readPage page r }
    else some (c.finish r (some page))

/-- `read_exact` of a request; then the file is read. -/
def serverRead (file : MemoryRanges) (n : Nat) (got : List UInt8) (c : Connection) :
    Option Connection :=
  if c.toServer = [] then if c.client.isGone then some { c with server := .closed } else none
  else
    let k := min (n + 1) (12 - got.length)
    let request := got ++ c.toServer.take k
    let c := { c with toServer := c.toServer.drop k }
    if request.length < 12 then some { c with server := .readRequest request }
    else
      let offset := leNat (request.take 8)
      let len := leNat ((request.drop 8).take 4)
      some { c with
        server := .writing (response file offset len) offset len (seekRead file offset len).isSome }

/-- `write_all` of the response. -/
def serverWrite (n : Nat) (rest : List UInt8) (offset len : Nat) (ok : Bool)
    (c : Connection) : Connection :=
  if c.client.isGone then { c with server := .closed }
  else
    { c with
      toClient := c.toClient ++ rest.take (n + 1)
      server :=
        if rest.drop (n + 1) = [] then .record offset len ok
        else .writing (rest.drop (n + 1)) offset len ok }

/-- One step of one connection, and what it does to the metrics. -/
def connStep (file : MemoryRanges) (c : Connection) :
    Act → Option (Connection × (TemplateServiceMetrics → TemplateServiceMetrics))
  | .accept =>
    match c.server with
    | .backlog => some ({ c with server := .readRequest [] }, .recordConnection)
    | _ => none
  | .call r =>
    match c.client with
    | .idle => some ({ c with client := .writing (encodeRequest r) r }, id)
    | _ => none
  | .hangUp =>
    match c.client with
    | .idle => some ({ c with client := .gone }, id)
    | _ => none
  | .client n =>
    match c.client with
    | .idle => none
    | .writing rest r => some (clientWrite n rest r c, id)
    | .readHeader got r => (clientReadHeader n got r c).map fun c => (c, id)
    | .readPage got r => (clientReadPage n got r c).map fun c => (c, id)
    | .gone => none
  | .server n =>
    match c.server with
    | .backlog => none
    | .readRequest got => (serverRead file n got c).map fun c => (c, id)
    | .writing rest offset len ok => some (serverWrite n rest offset len ok c, id)
    | .record offset len true =>
      some ({ c with server := .readRequest [] }, .recordPageRequest offset len)
    | .record _ _ false =>
      some ({ c with server := .closed }, .recordPageRequestError)
    | .closed => none

/-! ## The service -/

/-- The service with all its connections. -/
structure ServiceState where
  metrics : TemplateServiceMetrics
  connections : List Connection

/-- A service without connections. -/
def start (pageSize : Nat) : ServiceState := ⟨⟨pageSize, 0, 0, 0, 0, []⟩, []⟩

/-- A new connection, or an act on one. -/
inductive ServiceLabel where
  | connect
  | act (i : Nat) (a : Act)

/-- A step of the service. -/
def serviceStep (file : MemoryRanges) (s : ServiceState) :
    ServiceLabel → Option ServiceState
  | .connect => some { s with connections := s.connections ++ [.new] }
  | .act i a =>
    s.connections[i]?.bind fun c => (connStep file c a).map fun p =>
      { metrics := p.2 s.metrics, connections := s.connections.set i p.1 }

/-! ## Reading the file -/

/-- Reading locally succeeds exactly on the ranges inside the file. -/
theorem fileReadPage_eq_slice (file : MemoryRanges) (r : PageRequest) :
    fileReadPage file r = slice file r := by
  have hfits := file.fits
  have hpos := r.len_pos
  rw [fileReadPage, seekRead, slice, length_drop]
  by_cases hseek : 2 ^ 63 ≤ r.offset
  · rw [if_pos hseek, if_neg (by omega)]
  · rw [if_neg hseek]
    by_cases hin : r.offset + r.len ≤ file.bytes.length
    · rw [if_pos hin, if_pos (by omega)]
    · rw [if_neg hin, if_neg (by omega)]

variable {file : MemoryRanges} {offset len : Nat} {page : List UInt8}

/-- A page read has the length asked for. -/
theorem length_of_seekRead (h : seekRead file offset len = some page) : page.length = len := by
  rw [seekRead] at h
  split at h
  · cases h
  · split at h
    · rename_i hle
      cases h
      rw [length_take]
      omega
    · cases h

/-! ## Decoding -/

/-- A request takes 12 bytes. -/
theorem length_encodeRequest (r : PageRequest) : (encodeRequest r).length = 12 := by
  rw [encodeRequest, length_append, length_leBytes, length_leBytes]

/-- The server reads the offset that was sent. -/
theorem decode_offset (r : PageRequest) : leNat ((encodeRequest r).take 8) = r.offset := by
  rw [encodeRequest, List.take_left' (length_leBytes 8 _), leNat_leBytes]
  exact Nat.mod_eq_of_lt r.offset_lt

/-- It reads the length that was sent. -/
theorem decode_len (r : PageRequest) : leNat (((encodeRequest r).drop 8).take 4) = r.len := by
  rw [encodeRequest, List.drop_left' (length_leBytes 8 _),
    take_of_length_le (by rw [length_leBytes]), leNat_leBytes]
  exact Nat.mod_eq_of_lt r.len_lt

/-- The answer to a range that exists. -/
theorem response_some (h : seekRead file offset len = some page) :
    response file offset len = leBytes 4 0 ++ leBytes 4 len ++ page := by
  rw [response, h]

/-- The answer to any other range. -/
theorem response_none (h : seekRead file offset len = none) :
    response file offset len = leBytes 4 1 ++ leBytes 4 0 := by
  rw [response, h]

/-- An answer has at least its header. -/
theorem length_response (file : MemoryRanges) (offset len : Nat) :
    8 ≤ (response file offset len).length := by
  cases h : seekRead file offset len with
  | none => rw [response_none h]; decide
  | some page =>
    rw [response_some h, length_append, length_append, length_leBytes, length_leBytes]
    omega

/-! ## What a connection can do in one step -/

/-- The steps of `connStep`, from `c`; `k` is the number of bytes a call asks for. -/
inductive ConnMove (file : MemoryRanges) (c : Connection) : Act → Connection → Prop where
  | accepted (hpc : c.server = .backlog) :
      ConnMove file c .accept { c with server := .readRequest [] }
  | called {r : PageRequest} (hpc : c.client = .idle) :
      ConnMove file c (.call r) { c with client := .writing (encodeRequest r) r }
  | hungUp (hpc : c.client = .idle) : ConnMove file c .hangUp { c with client := .gone }
  | brokenPipe {n : Nat} {rest : List UInt8} {r : PageRequest}
      (hpc : c.client = .writing rest r) (hclosed : c.server.isClosed = true) :
      ConnMove file c (.client n) (c.finish r none)
  | wrotePart {n k : Nat} {rest : List UInt8} {r : PageRequest}
      (hpc : c.client = .writing rest r) (hk : 0 < k) (hmore : rest.drop k ≠ []) :
      ConnMove file c (.client n)
        { c with toServer := c.toServer ++ rest.take k, client := .writing (rest.drop k) r }
  | wroteAll {n k : Nat} {rest : List UInt8} {r : PageRequest}
      (hpc : c.client = .writing rest r) (hk : 0 < k) (hdone : rest.drop k = []) :
      ConnMove file c (.client n)
        { c with toServer := c.toServer ++ rest.take k, client := .readHeader [] r }
  | endOfHeader {n : Nat} {got : List UInt8} {r : PageRequest}
      (hpc : c.client = .readHeader got r) (hempty : c.toClient = [])
      (hclosed : c.server.isClosed = true) : ConnMove file c (.client n) (c.finish r none)
  | endOfPage {n : Nat} {got : List UInt8} {r : PageRequest}
      (hpc : c.client = .readPage got r) (hempty : c.toClient = [])
      (hclosed : c.server.isClosed = true) : ConnMove file c (.client n) (c.finish r none)
  | headerPart {n k : Nat} {got : List UInt8} {r : PageRequest}
      (hpc : c.client = .readHeader got r) (hk : k = min (n + 1) (8 - got.length))
      (hne : c.toClient ≠ []) (hlt : (got ++ c.toClient.take k).length < 8) :
      ConnMove file c (.client n)
        { c with
          toClient := c.toClient.drop k, client := .readHeader (got ++ c.toClient.take k) r }
  | refused {n k : Nat} {got header : List UInt8} {r : PageRequest}
      (hpc : c.client = .readHeader got r) (hk : k = min (n + 1) (8 - got.length))
      (hne : c.toClient ≠ []) (hheader : header = got ++ c.toClient.take k)
      (hfull : ¬ header.length < 8)
      (hbad : leNat (header.take 4) ≠ 0 ∨ leNat ((header.drop 4).take 4) ≠ r.len) :
      ConnMove file c (.client n)
        (Connection.finish r none { c with toClient := c.toClient.drop k })
  | granted {n k : Nat} {got header : List UInt8} {r : PageRequest}
      (hpc : c.client = .readHeader got r) (hk : k = min (n + 1) (8 - got.length))
      (hne : c.toClient ≠ []) (hheader : header = got ++ c.toClient.take k)
      (hfull : ¬ header.length < 8) (hstatus : leNat (header.take 4) = 0)
      (hcount : leNat ((header.drop 4).take 4) = r.len) :
      ConnMove file c (.client n) { c with toClient := c.toClient.drop k, client := .readPage [] r }
  | pagePart {n k : Nat} {got : List UInt8} {r : PageRequest}
      (hpc : c.client = .readPage got r) (hk : k = min (n + 1) (r.len - got.length))
      (hne : c.toClient ≠ []) (hlt : (got ++ c.toClient.take k).length < r.len) :
      ConnMove file c (.client n)
        { c with
          toClient := c.toClient.drop k, client := .readPage (got ++ c.toClient.take k) r }
  | gotPage {n k : Nat} {got : List UInt8} {r : PageRequest}
      (hpc : c.client = .readPage got r) (hk : k = min (n + 1) (r.len - got.length))
      (hne : c.toClient ≠ []) (hfull : ¬ (got ++ c.toClient.take k).length < r.len) :
      ConnMove file c (.client n)
        (Connection.finish r (some (got ++ c.toClient.take k))
          { c with toClient := c.toClient.drop k })
  | serverGone {n : Nat} (hgone : c.client.isGone = true)
      (hopen : c.server.isClosed = false)
      (hrec : ∀ offset len, c.server ≠ .record offset len false) :
      ConnMove file c (.server n) { c with server := .closed }
  | requestPart {n k : Nat} {got : List UInt8} (hpc : c.server = .readRequest got)
      (hk : k = min (n + 1) (12 - got.length)) (hne : c.toServer ≠ [])
      (hlt : (got ++ c.toServer.take k).length < 12) :
      ConnMove file c (.server n)
        { c with
          toServer := c.toServer.drop k, server := .readRequest (got ++ c.toServer.take k) }
  | gotRequest {n k : Nat} {got request : List UInt8} (hpc : c.server = .readRequest got)
      (hk : k = min (n + 1) (12 - got.length)) (hne : c.toServer ≠ [])
      (hrequest : request = got ++ c.toServer.take k) (hfull : ¬ request.length < 12) :
      ConnMove file c (.server n)
        { c with
          toServer := c.toServer.drop k
          server := .writing
            (response file (leNat (request.take 8)) (leNat ((request.drop 8).take 4)))
            (leNat (request.take 8)) (leNat ((request.drop 8).take 4))
            (seekRead file (leNat (request.take 8)) (leNat ((request.drop 8).take 4))).isSome }
  | answeredPart {n k : Nat} {rest : List UInt8} {offset len : Nat} {ok : Bool}
      (hpc : c.server = .writing rest offset len ok) (hk : 0 < k) (hmore : rest.drop k ≠ []) :
      ConnMove file c (.server n)
        { c with
          toClient := c.toClient ++ rest.take k
          server := .writing (rest.drop k) offset len ok }
  | answeredAll {n k : Nat} {rest : List UInt8} {offset len : Nat} {ok : Bool}
      (hpc : c.server = .writing rest offset len ok) (hk : 0 < k) (hdone : rest.drop k = []) :
      ConnMove file c (.server n)
        { c with toClient := c.toClient ++ rest.take k, server := .record offset len ok }
  | recorded {n offset len : Nat} (hpc : c.server = .record offset len true) :
      ConnMove file c (.server n) { c with server := .readRequest [] }
  | recordedError {n offset len : Nat} (hpc : c.server = .record offset len false) :
      ConnMove file c (.server n) { c with server := .closed }

section Moves

variable {file : MemoryRanges} {c c' : Connection} {r : PageRequest} {rest : List UInt8}

/-- A client's write is a move of it. -/
theorem move_clientWrite (n : Nat) (hpc : c.client = .writing rest r) :
    ConnMove file c (.client n) (clientWrite n rest r c) := by
  rw [clientWrite]
  split
  · rename_i hclosed
    exact .brokenPipe hpc hclosed
  · by_cases hdone : rest.drop (n + 1) = []
    · rw [if_pos hdone]
      exact .wroteAll hpc (Nat.zero_lt_succ n) hdone
    · rw [if_neg hdone]
      exact .wrotePart hpc (Nat.zero_lt_succ n) hdone

variable {got : List UInt8} {n : Nat}

/-- So is its read of a header. -/
theorem move_clientReadHeader (hpc : c.client = .readHeader got r)
    (h : clientReadHeader n got r c = some c') : ConnMove file c (.client n) c' := by
  rw [clientReadHeader] at h
  split at h
  · rename_i hempty
    split at h
    · rename_i hclosed
      cases h
      exact .endOfHeader hpc hempty hclosed
    · cases h
  · rename_i hne
    dsimp only at h
    split at h
    · rename_i hlt
      cases h
      exact .headerPart hpc rfl hne hlt
    · rename_i hfull
      split at h
      · rename_i hbad
        cases h
        exact .refused hpc rfl hne rfl hfull (.inl hbad)
      · rename_i hstatus
        split at h
        · rename_i hbad
          cases h
          exact .refused hpc rfl hne rfl hfull (.inr hbad)
        · rename_i hcount
          cases h
          exact .granted hpc rfl hne rfl hfull (not_not.mp hstatus) (not_not.mp hcount)

/-- So is its read of a page. -/
theorem move_clientReadPage (hpc : c.client = .readPage got r)
    (h : clientReadPage n got r c = some c') : ConnMove file c (.client n) c' := by
  rw [clientReadPage] at h
  split at h
  · rename_i hempty
    split at h
    · rename_i hclosed
      cases h
      exact .endOfPage hpc hempty hclosed
    · cases h
  · rename_i hne
    dsimp only at h
    split at h
    · rename_i hlt
      cases h
      exact .pagePart hpc rfl hne hlt
    · rename_i hfull
      cases h
      exact .gotPage hpc rfl hne hfull

/-- The server's read is a move of it. -/
theorem move_serverRead (hpc : c.server = .readRequest got)
    (h : serverRead file n got c = some c') : ConnMove file c (.server n) c' := by
  rw [serverRead] at h
  split at h
  · split at h
    · rename_i hgone
      cases h
      exact .serverGone hgone (by rw [hpc]; rfl) (by simp [hpc])
    · cases h
  · rename_i hne
    dsimp only at h
    split at h
    · rename_i hlt
      cases h
      exact .requestPart hpc rfl hne hlt
    · rename_i hfull
      cases h
      exact .gotRequest hpc rfl hne rfl hfull

/-- So is its write. -/
theorem move_serverWrite {ok : Bool} (n : Nat) (hpc : c.server = .writing rest offset len ok) :
    ConnMove file c (.server n) (serverWrite n rest offset len ok c) := by
  rw [serverWrite]
  split
  · rename_i hgone
    exact .serverGone hgone (by rw [hpc]; rfl) (by simp [hpc])
  · by_cases hdone : rest.drop (n + 1) = []
    · rw [if_pos hdone]
      exact .answeredAll hpc (Nat.zero_lt_succ n) hdone
    · rw [if_neg hdone]
      exact .answeredPart hpc (Nat.zero_lt_succ n) hdone

/-- Each step of a connection is a move. -/
theorem connMove_of_step {a : Act}
    {p : Connection × (TemplateServiceMetrics → TemplateServiceMetrics)}
    (h : connStep file c a = some p) : ConnMove file c a p.1 := by
  cases a with
  | accept =>
    rw [connStep] at h
    split at h
    · rename_i hpc
      cases h
      exact .accepted hpc
    · cases h
  | call r =>
    rw [connStep] at h
    split at h
    · rename_i hpc
      cases h
      exact .called hpc
    · cases h
  | hangUp =>
    rw [connStep] at h
    split at h
    · rename_i hpc
      cases h
      exact .hungUp hpc
    · cases h
  | client n =>
    rw [connStep] at h
    cases hpc : c.client with
    | idle | gone => rw [hpc] at h; cases h
    | writing rest r =>
      rw [hpc] at h
      cases h
      exact move_clientWrite n hpc
    | readHeader got r =>
      rw [hpc] at h
      obtain ⟨c', hc', rfl⟩ := map_eq_some_iff.mp h
      exact move_clientReadHeader hpc hc'
    | readPage got r =>
      rw [hpc] at h
      obtain ⟨c', hc', rfl⟩ := map_eq_some_iff.mp h
      exact move_clientReadPage hpc hc'
  | server n =>
    rw [connStep] at h
    cases hpc : c.server with
    | backlog | closed => rw [hpc] at h; cases h
    | readRequest got =>
      rw [hpc] at h
      obtain ⟨c', hc', rfl⟩ := map_eq_some_iff.mp h
      exact move_serverRead hpc hc'
    | writing rest offset len ok =>
      rw [hpc] at h
      cases h
      exact move_serverWrite n hpc
    | record offset len ok =>
      rw [hpc] at h
      cases ok with
      | true =>
        cases h
        exact .recorded hpc
      | false =>
        cases h
        exact .recordedError hpc

end Moves

end TemplateService
