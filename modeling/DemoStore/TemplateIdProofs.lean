import Mathlib.Data.List.TakeWhile
import DemoStore.TemplateLifeCycleProofs

/-! # Template ids — from the ioctl field to the device name and back

    A template id travels through four conventions: `strncpy` of 64 bytes into the
    template, `"snapshot_%s"` for the device, `strncpy` of 63 bytes and a terminator in
    `snapshot_mmap`, and `strncmp` over 64 bytes in every lookup.

    `strncmpEq_iff` says what the comparison compares, and with it each convention is a
    statement about the bytes before the first zero.  They agree on ids of up to 63 bytes.
    A field without a terminator is an id of 64 bytes for the list, but its device cannot
    be mapped (`template_id_survives_iff`). -/

namespace TemplateId

open SnapshotDriver DriverFrame TemplateLifeCycle MachineRun ObjectHeap List

/-! ## C strings -/

section Strings

variable {n : Nat} {a b bs c : List UInt8}

theorem cstr_cons (x : UInt8) (bs : List UInt8) :
    cstr (x :: bs) = if x = 0 then [] else x :: cstr bs := by
  rw [cstr, takeWhile_cons]
  by_cases hx : x = 0
  · simp [hx]
  · simp [hx, cstr]

theorem ne_zero_of_mem_cstr {x : UInt8} (h : x ∈ cstr bs) : x ≠ 0 := by
  have hx := mem_takeWhile_imp h
  exact of_decide_eq_true hx

/-- Bytes without a terminator are a string as they are. -/
theorem cstr_of_ne_zero (h : ∀ x ∈ c, x ≠ 0) : cstr c = c :=
  takeWhile_eq_self_iff.mpr fun x hx => decide_eq_true (h x hx)

theorem length_cstr_le (bs : List UInt8) : (cstr bs).length ≤ bs.length :=
  (List.takeWhile_prefix _).length_le

/-- Behind a terminator nothing is read. -/
theorem cstr_append_of_mem (h : 0 ∈ a) (b : List UInt8) : cstr (a ++ b) = cstr a := by
  induction a with
  | nil => cases h
  | cons x a ih =>
    rw [cons_append, cstr_cons, cstr_cons]
    by_cases hx : x = 0
    · rw [if_pos hx, if_pos hx]
    · have hmem : 0 ∈ a := (mem_cons.mp h).resolve_left fun h0 => hx h0.symm
      rw [if_neg hx, if_neg hx, ih hmem]

/-- Without one the reader goes on. -/
theorem cstr_append_of_notMem (h : 0 ∉ a) (b : List UInt8) : cstr (a ++ b) = a ++ cstr b := by
  induction a with
  | nil => rfl
  | cons x a ih =>
    have hx : x ≠ 0 := fun h0 => h (h0 ▸ mem_cons_self)
    rw [cons_append, cstr_cons, if_neg hx, ih fun hmem => h (mem_cons_of_mem _ hmem), cons_append]

/-- A terminated string is shorter than its buffer. -/
theorem length_cstr_lt (h : 0 ∈ a) : (cstr a).length < a.length := by
  refine Nat.lt_of_le_of_ne (length_cstr_le a) ?_
  intro heq
  have hself : cstr a = a := (List.takeWhile_prefix _).eq_of_length heq
  rw [← hself] at h
  exact ne_zero_of_mem_cstr h rfl

/-- **WHAT `strncmp` COMPARES**: the strings in the first `n` bytes. -/
theorem strncmpEq_iff : strncmpEq n a b = true ↔ cstr (a.take n) = cstr (b.take n) := by
  induction n generalizing a b with
  | zero => simp [strncmpEq]
  | succ n ih =>
    -- a buffer that has ended reads like a terminator
    have hcut : ∀ c : List UInt8,
        cstr (c.take (n + 1)) = if c.headD 0 = 0 then [] else c.headD 0 :: cstr (c.tail.take n) := by
      intro c
      cases c with
      | nil => rfl
      | cons x c => rw [take_succ_cons, cstr_cons]; rfl
    rw [strncmpEq, hcut a, hcut b, Bool.and_eq_true, Bool.or_eq_true, beq_iff_eq, beq_iff_eq, ih]
    generalize a.headD 0 = x
    generalize b.headD 0 = y
    by_cases hx : x = 0
    · by_cases hy : y = 0
      · simp [hx, hy]
      · simp [hx, hy, Ne.symm hy]
    · by_cases hy : y = 0
      · simp [hx, hy]
      · simp [hx, hy]

theorem length_strncpy (n : Nat) (bs : List UInt8) : (strncpy n bs).length = n := by
  have hlen : (cstr (bs.take n)).length ≤ n := (length_cstr_le _).trans (length_take_le n bs)
  rw [strncpy, length_append, length_replicate]
  omega

/-- The padding is not part of the string. -/
theorem cstr_append_replicate (h : ∀ x ∈ c, x ≠ 0) (n : Nat) :
    cstr (c ++ List.replicate n 0) = c := by
  cases n with
  | zero => rw [replicate_zero, append_nil, cstr_of_ne_zero h]
  | succ n =>
    rw [cstr_append_of_notMem (fun h0 => h 0 h0 rfl), replicate_succ, cstr_cons,
      if_pos rfl, append_nil]

theorem cstr_strncpy (n : Nat) (bs : List UInt8) : cstr (strncpy n bs) = cstr (bs.take n) :=
  cstr_append_replicate (fun _ hx => ne_zero_of_mem_cstr hx) _

theorem cstr_strncpy_append (n : Nat) (bs : List UInt8) :
    cstr (strncpy n bs ++ [0]) = cstr (bs.take n) := by
  rw [strncpy, append_assoc, ← List.replicate_succ',
    cstr_append_replicate fun _ hx => ne_zero_of_mem_cstr hx]

/-- Of a string that may run on behind its field, the field's own part. -/
theorem take_cstr_append (a b : List UInt8) : (cstr (a ++ b)).take a.length = cstr a := by
  by_cases h : 0 ∈ a
  · rw [cstr_append_of_mem h, take_of_length_le (Nat.le_of_lt (length_cstr_lt h))]
  · rw [cstr_append_of_notMem h, take_left, cstr_of_ne_zero]
    intro x hx h0
    exact h (h0 ▸ hx)

/-- One byte less is still all of it exactly if the field has a terminator. -/
theorem take_pred_cstr_append (ha : a.length = n + 1) (b : List UInt8) :
    (cstr (a ++ b)).take n = cstr a ↔ 0 ∈ a := by
  constructor
  · intro h
    by_contra h0
    have hself : cstr a = a := cstr_of_ne_zero fun x hx hz => h0 (hz ▸ hx)
    have hlen := congrArg List.length h
    rw [hself, ha] at hlen
    have hle := length_take_le n (cstr (a ++ b))
    omega
  · intro h
    have hlt := length_cstr_lt h
    rw [cstr_append_of_mem h, take_of_length_le (by omega)]

end Strings

/-! ## Lookups -/

/-- The part of an id that a lookup compares. -/
def idText (id : List UInt8) : List UInt8 := cstr (id.take templateIdMaxLen)

/-- `"snapshot_%s"` of a create. -/
def deviceName (args : IoctlCreateTemplate) (stackTail : List UInt8) : List UInt8 :=
  devicePrefix ++ cstr (args.tail stackTail)

variable {s s' : DriverState} {t : Nat} {id : List UInt8} {args : IoctlCreateTemplate}

theorem idText_strncpy (id : List UInt8) : idText (strncpy templateIdMaxLen id) = idText id := by
  rw [idText, take_of_length_le (Nat.le_of_eq (length_strncpy _ _)), cstr_strncpy]
  rfl

/-- What `snapshot_mmap` looks for. -/
theorem idText_mmapTemplateId (args : IoctlCreateTemplate) (stackTail : List UInt8) :
    idText (mmapTemplateId (deviceName args stackTail)) = (cstr (args.tail stackTail)).take 63 := by
  have hdrop : (deviceName args stackTail).drop 9 = cstr (args.tail stackTail) :=
    List.drop_left' rfl
  have hlen : (mmapTemplateId (deviceName args stackTail)).length = templateIdMaxLen := by
    rw [mmapTemplateId, length_append, length_strncpy]
    rfl
  rw [idText, take_of_length_le (Nat.le_of_eq hlen), mmapTemplateId, hdrop, cstr_strncpy_append]
  exact cstr_of_ne_zero fun x hx => ne_zero_of_mem_cstr (mem_of_mem_take hx)

/-- The listed templates have different ids. -/
structure Named (s : DriverState) : Prop where
  below : ListBelow s
  distinct : ∀ t ∈ s.templateList, ∀ u ∈ s.templateList,
    idText (s.templates.val t).templateId = idText (s.templates.val u).templateId → t = u

theorem idText_of_findTemplate (h : findTemplate s id = some t) :
    idText (s.templates.val t).templateId = idText id := by
  have hcmp := find?_some h
  exact strncmpEq_iff.mp hcmp

theorem findTemplate_eq_none :
    findTemplate s id = none
      ↔ ∀ t ∈ s.templateList, idText (s.templates.val t).templateId ≠ idText id := by
  rw [findTemplate, searchList, find?_eq_none]
  exact forall_congr' fun t => forall_congr' fun _ => not_congr strncmpEq_iff

/-- **A LOOKUP** finds a listed template exactly by its own id. -/
theorem Named.findTemplate_iff (hs : Named s) (ht : t ∈ s.templateList) :
    findTemplate s id = some t ↔ idText (s.templates.val t).templateId = idText id := by
  constructor
  · exact idText_of_findTemplate
  · intro h
    cases hfind : findTemplate s id with
    | none => exact absurd h (findTemplate_eq_none.mp hfind t ht)
    | some u =>
      have hu := idText_of_findTemplate hfind
      rw [hs.distinct t ht u (mem_of_findTemplate hfind) (h.trans hu.symm)]

theorem named_of_names (h : NamesKept s s') (hs : Named s) : Named s' where
  below := listBelow_of_names h hs.below
  distinct := by
    intro t ht u hu heq
    have ht' := h.listed t ht
    have hu' := h.listed u hu
    rw [h.templateId t (hs.below t ht'), h.templateId u (hs.below u hu')] at heq
    exact hs.distinct t ht' u hu' heq

theorem named_created (hs : Named s) (hfind : findTemplate s args.templateId = none)
    (env : CreateEnv) (pages : SparseFile.File) (buf : List UInt8) :
    Named (created s (newTemplate args env pages buf)) where
  below := listBelow_created hs.below _
  distinct := by
    -- a listed template does not have the id of the new one
    have hnew : ∀ t ∈ s.templateList,
        idText (s.templates.val t).templateId ≠ idText (strncpy templateIdMaxLen args.templateId) := by
      rw [idText_strncpy]
      exact findTemplate_eq_none.mp hfind
    have hold : ∀ t ∈ s.templateList,
        (created s (newTemplate args env pages buf)).templates.val t = s.templates.val t :=
      fun t ht => val_alloc_of_ne _ _ (Nat.ne_of_lt (hs.below t ht))
    have hself : ((created s (newTemplate args env pages buf)).templates.val
        s.templates.next).templateId = strncpy templateIdMaxLen args.templateId := by
      rw [created, val_alloc_self]
      rfl
    intro t ht u hu heq
    rcases mem_append.mp ht with ht | ht
    · rcases mem_append.mp hu with hu | hu
      · rw [hold t ht, hold u hu] at heq
        exact hs.distinct t ht u hu heq
      · rw [mem_singleton.mp hu, hold t ht, hself] at heq
        exact absurd heq (hnew t ht)
    · rw [mem_singleton.mp ht] at heq ⊢
      rcases mem_append.mp hu with hu | hu
      · rw [hold u hu, hself] at heq
        exact absurd heq.symm (hnew u hu)
      · exact (mem_singleton.mp hu).symm

theorem named_step (s : DriverState) (op : DriverOp) (s' : DriverState) (hs : Named s)
    (h : driver s op = some s') : Named s' := by
  rcases namesKept_or_created h with hkept | ⟨args, env, out, pages, buf, -, hfind, rfl⟩
  · exact named_of_names hkept hs
  · exact named_created hs hfind env pages buf

theorem named_of_reachable (hs : Reachable driver initState s) : Named s :=
  inv_of_reachable hs ⟨(fun _ ht => by cases ht), (fun _ ht => by cases ht)⟩ named_step

/-! ## The names of one template along a run -/

/-- Template `t` is allocated and has these names. -/
structure Names (t : Nat) (id name : List UInt8) (s : DriverState) : Prop where
  below : t < s.templates.next
  templateId : (s.templates.val t).templateId = id
  mdevName : (s.templates.val t).mdevName = name

theorem names_created (s : DriverState) (args : IoctlCreateTemplate) (env : CreateEnv)
    (pages : SparseFile.File) (buf : List UInt8) :
    Names s.templates.next (strncpy templateIdMaxLen args.templateId)
      (deviceName args env.stackTail) (created s (newTemplate args env pages buf)) := by
  refine ⟨Nat.lt_succ_self _, ?_, ?_⟩
  · rw [created, val_alloc_self]
    rfl
  · rw [created, val_alloc_self]
    rfl

theorem names_step {name : List UInt8} (s : DriverState) (op : DriverOp) (s' : DriverState)
    (hs : Names t id name s) (h : driver s op = some s') : Names t id name s' := by
  obtain ⟨hbelow, hid, hname⟩ := hs
  rcases namesKept_or_created h with hkept | ⟨args, env, out, pages, buf, -, -, rfl⟩
  · exact ⟨Nat.lt_of_lt_of_le hbelow hkept.next, (hkept.templateId t hbelow).trans hid,
      (hkept.mdevName t hbelow).trans hname⟩
  · have hval : (created s (newTemplate args env pages buf)).templates.val t
        = s.templates.val t := val_alloc_of_ne _ _ (Nat.ne_of_lt hbelow)
    exact ⟨Nat.lt_succ_of_lt hbelow, hval ▸ hid, hval ▸ hname⟩

/-! ## The trip -/

/-- `mmap` on the device of template `t`, with a size that `t` has and memory for the data,
    succeeds and makes a VMA of `t`. -/
def MapsItself (s : DriverState) (t : Nat) : Prop :=
  ∀ call : MmapCall, call.devName = (s.templates.val t).mdevName → SizeOk s call t →
    snapshotMmap s call true = (0, addTemplateRef (addVma (addTemplateRef s t 1) call t) t 1)

/-- A successful `mmap` is of the template that the name gives. -/
theorem snapshotMmap_iff {call : MmapCall} (hsize : SizeOk s call t) :
    snapshotMmap s call true = (0, addTemplateRef (addVma (addTemplateRef s t 1) call t) t 1)
      ↔ mmapTarget s call = some t := by
  rcases snapshotMmap_cases s call true with ⟨hnone, hrun⟩ | ⟨u, r, hu, hfail, hr, hrun⟩
      | ⟨u, hu, -, -, hrun⟩
  · rw [hnone, hrun]
    constructor
    · intro h
      exact absurd (congrArg Prod.fst h) (by decide : -eInval ≠ 0)
    · intro h
      cases h
  · rw [hu, hrun]
    refine ⟨fun h => absurd (congrArg Prod.fst h) hr, fun h => ?_⟩
    cases h
    exact (hfail.resolve_right Bool.noConfusion hsize).elim
  · rw [hu, hrun]
    constructor
    · intro h
      -- the data of the new VMA says whose it is
      have hdata := congrArg (fun q : Int × DriverState => (q.2.datas.val s.datas.next).template) h
      have htemplate : ∀ v, ((addTemplateRef (addVma (addTemplateRef s v 1) call v) v 1).datas.val
          s.datas.next).template = v := fun v => congrArg _ (val_alloc_self _ _)
      dsimp only at hdata
      rw [htemplate, htemplate] at hdata
      rw [hdata]
    · intro h
      rw [Option.some.inj h]

/-- The requests by the field `id` reach `t`, and the name of its device is taken. -/
structure Administered (s : DriverState) (id : List UInt8) (t : Nat) : Prop where
  found : findTemplate s id = some t
  status : snapshotTemplateStatus s id
    = (0, (s.templates.val t).refCount.signExtend 64, s.pool.totalPages)
  delete : ∀ kvmalloc, snapshotTemplateDelete s id kvmalloc
    = if (s.templates.val t).refCount.toInt > 0 then (-eBusy, s)
      else (0, clearPool (removeTemplate s t) kvmalloc)
  refused : ∀ (args : IoctlCreateTemplate) (env : CreateEnv),
    args.templateId.length = templateIdMaxLen →
    deviceName args env.stackTail = (s.templates.val t).mdevName →
    snapshotTemplateCreate s args env = (-eExist, s)

theorem idText_field (args : IoctlCreateTemplate) (stackTail : List UInt8)
    (hfield : args.templateId.length = templateIdMaxLen) :
    idText args.templateId = (cstr (args.tail stackTail)).take templateIdMaxLen := by
  rw [idText, take_of_length_le (Nat.le_of_eq hfield), IoctlCreateTemplate.tail,
    append_assoc, append_assoc, append_assoc, ← hfield, take_cstr_append]

/-- A name that starts with the prefix passes the check of `snapshot_mmap`. -/
theorem mmapTarget_deviceName (s : DriverState) (call : MmapCall) (args : IoctlCreateTemplate)
    (stackTail : List UInt8) (h : call.devName = deviceName args stackTail) :
    mmapTarget s call = findTemplate s (mmapTemplateId (deviceName args stackTail)) := by
  have hprefix : strncmpEq 9 (deviceName args stackTail) devicePrefix = true := by
    have htake : (devicePrefix ++ cstr (args.tail stackTail)).take 9 = devicePrefix :=
      List.take_left' rfl
    rw [strncmpEq_iff, deviceName, htake]
    rfl
  rw [mmapTarget, h, if_pos hprefix]

/-- **THE ID OF A LISTED TEMPLATE.**  Requests reach it by its field, and the device maps it
    exactly if the field has a terminator. -/
theorem administered_and_mapsItself_iff (hs : Named s) (ht : t ∈ s.templateList)
    {stackTail : List UInt8} (hfield : args.templateId.length = templateIdMaxLen)
    (hnames : Names t (strncpy templateIdMaxLen args.templateId) (deviceName args stackTail) s) :
    Administered s args.templateId t ∧ (MapsItself s t ↔ 0 ∈ args.templateId) := by
  have hid : idText (s.templates.val t).templateId = idText args.templateId := by
    rw [hnames.templateId, idText_strncpy]
  have hfound := (hs.findTemplate_iff ht).mpr hid
  refine ⟨⟨hfound, ?_, ?_, ?_⟩, ?_⟩
  · rw [snapshotTemplateStatus, hfound]
  · intro kvmalloc
    rw [snapshotTemplateDelete, hfound]
  · intro args' env hfield' hname
    -- the two fields have the same string
    have htails : cstr (args'.tail env.stackTail) = cstr (args.tail stackTail) :=
      append_cancel_left (hname.trans hnames.mdevName)
    have hfound' : findTemplate s args'.templateId = some t := by
      rw [hs.findTemplate_iff ht, hid, idText_field args stackTail hfield, ← htails,
        ← idText_field args' env.stackTail hfield']
    rw [snapshotTemplateCreate, hfound', if_pos Option.isSome_some]
  · have hmaps : MapsItself s t
        ↔ findTemplate s (mmapTemplateId (deviceName args stackTail)) = some t := by
      rw [MapsItself, hnames.mdevName]
      constructor
      · intro h
        have hsize : SizeOk s ⟨deviceName args stackTail, 0, 0, 0⟩ t := ⟨rfl, Nat.zero_le _⟩
        have hcall := (snapshotMmap_iff hsize).mp (h _ rfl hsize)
        rwa [mmapTarget_deviceName s _ args stackTail rfl] at hcall
      · intro h call hcall hsize
        rw [snapshotMmap_iff hsize, mmapTarget_deviceName s call args stackTail hcall, h]
    rw [hmaps, hs.findTemplate_iff ht, hid, idText_mmapTemplateId, eq_comm, idText,
      take_of_length_le (Nat.le_of_eq hfield), IoctlCreateTemplate.tail,
      append_assoc, append_assoc, append_assoc]
    exact take_pred_cstr_append hfield _

/-- **TEMPLATE IDS AND DEVICE NAMES.**  Let a create with a field of 64 bytes succeed in any
    reachable state.  As long as the template is listed, status and delete by the field reach
    it, and a create for the same device is refused; `mmap` on the device finds the template
    exactly if the field has a terminator. -/
theorem template_id_survives_iff (ops ops' : List DriverOp) (s s₁ s' : DriverState)
    (args : IoctlCreateTemplate) (env : CreateEnv) (out : Bool)
    (hs : exec driver initState ops = some s)
    (hfield : args.templateId.length = templateIdMaxLen)
    (hcreate : driverStep s (.ioctl (.create args env) true out) = some (.ret 0, s₁))
    (hrun : exec driver s₁ ops' = some s') (hlisted : s.templates.next ∈ s'.templateList) :
    Administered s' args.templateId s.templates.next
      ∧ (MapsItself s' s.templates.next ↔ 0 ∈ args.templateId) := by
  have hstep : driver s (.ioctl (.create args env) true out) = some s₁ := by
    rw [driver, hcreate]
    rfl
  have hnames : Names s.templates.next (strncpy templateIdMaxLen args.templateId)
      (deviceName args env.stackTail) s₁ := by
    rcases snapshotTemplateCreate_cases s args env with
      ⟨r, hr, hc | hc⟩ | ⟨pages, buf, -, hc⟩
    · rw [driverStep, snapshotIoctl, hc] at hcreate
      cases hcreate
      exact absurd rfl hr
    · rw [driverStep, snapshotIoctl, hc] at hcreate
      cases hcreate
      exact absurd rfl hr
    · rw [driverStep, snapshotIoctl, hc] at hcreate
      cases hcreate
      exact names_created s args env pages buf
  have hs₁ : Named s₁ := named_step s _ s₁ (named_of_reachable ⟨ops, hs⟩) hstep
  exact administered_and_mapsItself_iff (inv_of_reachable ⟨ops', hrun⟩ hs₁ named_step) hlisted
    hfield (inv_of_reachable ⟨ops', hrun⟩ hnames names_step)

/-- The sample template with another identifier field. -/
def fieldCreate (field : List UInt8) : DriverOp :=
  .ioctl (.create (sampleArgs field) sampleEnv) true true

/-- The device of a template, mapped from its start. -/
def deviceCall (s : DriverState) (t : Nat) : MmapCall :=
  ⟨(s.templates.val t).mdevName, 0, 4096, 0⟩

/-- The id `a`, with its terminator, is found again. -/
theorem short_id_survives :
    Administered (afterRun [fieldCreate sampleId]) sampleId 0
      ∧ MapsItself (afterRun [fieldCreate sampleId]) 0 := by
  have h := template_id_survives_iff [] [] initState (afterRun [fieldCreate sampleId])
    (afterRun [fieldCreate sampleId]) (sampleArgs sampleId) sampleEnv true
    rfl (by decide) rfl rfl (by decide)
  exact ⟨h.1, h.2.mpr (by decide)⟩

/-- The field that is 64 times the letter `a`. -/
def longField : List UInt8 := List.replicate 64 97

/-- The field that is 63 times the letter `a` and a terminator. -/
def cutField : List UInt8 := List.replicate 63 97 ++ [0]

/-- **A FIELD WITHOUT A TERMINATOR.**  The create succeeds, and `mmap` on its device fails
    with `EINVAL`; with a template of the 63 first bytes in the list it maps that one. -/
theorem long_id_not_found :
    longField.length = templateIdMaxLen
    ∧ driverStep initState (fieldCreate longField) = some (.ret 0, afterRun [fieldCreate longField])
    ∧ snapshotMmap (afterRun [fieldCreate longField])
        (deviceCall (afterRun [fieldCreate longField]) 0) true
        = (-eInval, afterRun [fieldCreate longField])
    ∧ driverStep (afterRun [fieldCreate cutField]) (fieldCreate longField)
        = some (.ret 0, afterRun [fieldCreate cutField, fieldCreate longField])
    ∧ (snapshotMmap (afterRun [fieldCreate cutField, fieldCreate longField])
        (deviceCall (afterRun [fieldCreate cutField, fieldCreate longField]) 1) true).1 = 0
    ∧ ((snapshotMmap (afterRun [fieldCreate cutField, fieldCreate longField])
        (deviceCall (afterRun [fieldCreate cutField, fieldCreate longField]) 1)
        true).2.datas.val 0).template = 0 := by
  refine ⟨by decide, ?_, ?_, ?_, ?_, ?_⟩
  · rfl
  · rfl
  · rfl
  · decide +kernel
  · decide +kernel

end TemplateId
