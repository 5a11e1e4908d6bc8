import Mathlib.Logic.Basic

/-! # Memory behind a userfaultfd

    What the kernel does to an address range that is registered for missing and
    write-protect faults: `UFFDIO_COPY` with write protection, removal of the
    protection, an anonymous mapping placed over a part, stores, pages given back
    to the kernel, and the release of the whole range when the descriptor is
    closed.  The `writes` are a ghost:
    the bytes stored at each address, the last one first; `lost` marks what was
    absent when the range was released.

    A `ByteRule` says which byte an address may hold, given what was written
    there and what the image has.  `Valued` says that every present address
    outside a hole follows the rule, and each operation keeps it. -/

namespace GuestMemory

/-- How an address is mapped. -/
inductive Mapping where
  | absent
  | writeProtected
  | writable
  | anonymous
  deriving DecidableEq

/-- A read or a write of one byte. -/
inductive Access where
  | read (addr : Nat)
  | write (addr : Nat) (byte : UInt8)
  deriving DecidableEq

/-- The address it touches. -/
def Access.addr : Access → Nat
  | .read a => a
  | .write a _ => a

/-- The mapped bytes and the writes so far. -/
structure Memory where
  mapping : Nat → Mapping
  bytes : Nat → UInt8
  writes : Nat → List UInt8
  lost : Nat → Bool

/-- A range in which no page is present. -/
def Memory.start : Memory where
  mapping := fun _ => .absent
  bytes := fun _ => 0
  writes := fun _ => []
  lost := fun _ => false

/-- The access takes effect at once; otherwise it faults. -/
def Mapping.allows : Mapping → Access → Bool
  | .absent, _ => false
  | .writeProtected, .read _ => true
  | .writeProtected, .write _ _ => false
  | .writable, _ => true
  | .anonymous, _ => true

/-- `addr ≤ a < addr + len`. -/
def Within (addr len a : Nat) : Prop := addr ≤ a ∧ a < addr + len

instance (addr len a : Nat) : Decidable (Within addr len a) :=
  inferInstanceAs (Decidable (_ ∧ _))

variable {len : Nat}

theorem within_add {addr j : Nat} (h : j < len) : Within addr len (addr + j) :=
  ⟨Nat.le_add_right addr j, Nat.add_lt_add_left h addr⟩

theorem exists_of_within {addr a : Nat} (h : Within addr len a) : ∃ j < len, a = addr + j :=
  ⟨a - addr, Nat.sub_lt_left_of_lt_add h.1 h.2, (Nat.add_sub_cancel' h.1).symm⟩

namespace Memory

/-- `UFFDIO_COPY` with `UFFDIO_COPY_MODE_WP`: only absent addresses are filled. -/
def copyWp (addr len : Nat) (buf : Nat → UInt8) (m : Memory) : Memory :=
  { m with
    mapping := fun a =>
      if Within addr len a ∧ m.mapping a = .absent then .writeProtected else m.mapping a
    bytes := fun a =>
      if Within addr len a ∧ m.mapping a = .absent then buf (a - addr) else m.bytes a }

/-- `UFFDIO_WRITEPROTECT` without the `WP` mode. -/
def unprotect (addr len : Nat) (m : Memory) : Memory :=
  { m with
    mapping := fun a =>
      if Within addr len a ∧ m.mapping a = .writeProtected then .writable
      else m.mapping a }

/-- `mmap` with `MAP_FIXED | MAP_PRIVATE | MAP_ANONYMOUS`. -/
def mmapFixed (addr len : Nat) (m : Memory) : Memory :=
  { m with
    mapping := fun a => if Within addr len a then .anonymous else m.mapping a
    bytes := fun a => if Within addr len a then 0 else m.bytes a }

/-- `copy_nonoverlapping` into the range. -/
def copyIn (addr len : Nat) (buf : Nat → UInt8) (m : Memory) : Memory :=
  { m with bytes := fun a => if Within addr len a then buf (a - addr) else m.bytes a }

/-- `MADV_DONTNEED`, on file memory after a hole was punched.  A page placed by
    `mmapFixed` is not registered any more: it is replaced by zeros and stays
    accessible. -/
def discard (addr len : Nat) (m : Memory) : Memory :=
  { m with
    mapping := fun a =>
      if Within addr len a ∧ m.mapping a ≠ .anonymous then .absent else m.mapping a
    bytes := fun a =>
      if Within addr len a ∧ m.mapping a = .anonymous then 0 else m.bytes a }

/-- An access that takes effect. -/
def perform : Access → Memory → Memory
  | .read _, m => m
  | .write a b, m =>
    { m with
      bytes := fun x => if x = a then b else m.bytes x
      writes := fun x => if x = a then b :: m.writes x else m.writes x }

/-- The descriptor is closed: nothing faults to user space any more, and what was
    absent reads as zeros. -/
def release (m : Memory) : Memory :=
  { m with
    mapping := fun _ => .anonymous
    bytes := fun a => if m.mapping a = .absent then 0 else m.bytes a
    lost := fun a => decide (m.mapping a = .absent) }

end Memory

/-! ## Which bytes are right -/

/-- `good ws x b`: with the writes `ws` over the image byte `x`, `b` is a byte to
    find there. -/
structure ByteRule where
  good : List UInt8 → UInt8 → UInt8 → Prop
  nil : ∀ x, good [] x x
  cons : ∀ b ws x, good (b :: ws) x b

/-- The last byte written, or else the image. -/
def latest : ByteRule where
  good ws x b := b = ws.headD x
  nil _ := rfl
  cons _ _ _ := rfl

/-- The image or any byte written. -/
def known : ByteRule where
  good ws x b := b = x ∨ b ∈ ws
  nil _ := .inl rfl
  cons _ _ _ := .inr List.mem_cons_self

/-- What an address holds when nobody has written it. -/
def Memory.base (image : Nat → UInt8) (m : Memory) (a : Nat) : UInt8 :=
  if m.lost a then 0 else image a

/-- Each mapped byte is as the rule has it. -/
structure Valued (R : ByteRule) (image : Nat → UInt8) (hole : Nat → Prop) (m : Memory) :
    Prop where
  fresh : ∀ a, m.mapping a = .absent → m.writes a = []
  right : ∀ a, m.mapping a ≠ .absent → ¬ hole a → R.good (m.writes a) (m.base image a) (m.bytes a)
  zeroed : ∀ a, m.lost a = true → m.bytes a = (m.writes a).headD 0

namespace Valued

variable {R : ByteRule} {image buf : Nat → UInt8} {hole : Nat → Prop} {m : Memory}

theorem start : Valued R image hole .start :=
  ⟨fun _ _ => rfl, fun _ h => absurd rfl h, (fun _ h => by cases h)⟩

/-- Nothing is lost before the descriptor is closed. -/
theorem zeroed_of_live (hlost : ∀ a, m.lost a = false) (a : Nat) (h : m.lost a = true) :
    m.bytes a = (m.writes a).headD 0 :=
  by cases (hlost a).symm.trans h

/-- `UFFDIO_COPY` of the image keeps the rule. -/
theorem copyWp {addr : Nat} (h : Valued R image hole m) (hlost : ∀ a, m.lost a = false)
    (hbuf : ∀ j < len, buf j = image (addr + j)) : Valued R image hole (m.copyWp addr len buf) := by
  refine ⟨fun a ha => ?_, fun a ha hhole => ?_, zeroed_of_live hlost⟩
  · by_cases hin : Within addr len a ∧ m.mapping a = .absent
    · exact h.fresh a hin.2
    · exact h.fresh a (by simpa only [Memory.copyWp, if_neg hin] using ha)
  · show R.good (m.writes a) (m.base image a) (if _ then _ else _)
    by_cases hin : Within addr len a ∧ m.mapping a = .absent
    · -- the address was absent, so nobody has written it
      obtain ⟨j, hj, rfl⟩ := exists_of_within hin.1
      rw [if_pos hin, h.fresh _ hin.2, Nat.add_sub_cancel_left, hbuf j hj, Memory.base, hlost]
      exact R.nil _
    · rw [if_neg hin]
      exact h.right a (by simpa only [Memory.copyWp, if_neg hin] using ha) hhole

/-- Dropping the protection keeps the rule. -/
theorem unprotect {addr : Nat} (h : Valued R image hole m) :
    Valued R image hole (m.unprotect addr len) := by
  have habsent : ∀ a, (m.unprotect addr len).mapping a = .absent ↔ m.mapping a = .absent := by
    intro a
    show (if _ then _ else _) = _ ↔ _
    split
    · rename_i hin
      rw [hin.2]
      exact ⟨by simp, by simp⟩
    · exact Iff.rfl
  exact ⟨fun a ha => h.fresh a ((habsent a).mp ha),
    fun a ha hhole => h.right a (mt (habsent a).mpr ha) hhole, h.zeroed⟩

/-- The new mapping is a hole until its contents are copied back. -/
theorem mmapFixed {addr : Nat} (h : Valued R image (fun _ => False) m)
    (hlost : ∀ a, m.lost a = false) : Valued R image (Within addr len) (m.mmapFixed addr len) := by
  refine ⟨fun a ha => ?_, fun a ha hhole => ?_, zeroed_of_live hlost⟩
  · by_cases hin : Within addr len a
    · simp only [Memory.mmapFixed, if_pos hin] at ha
      cases ha
    · exact h.fresh a (by simpa only [Memory.mmapFixed, if_neg hin] using ha)
  · show R.good (m.writes a) (m.base image a) (if _ then _ else _)
    rw [if_neg hhole]
    exact h.right a (by simpa only [Memory.mmapFixed, if_neg hhole] using ha) id

/-- The copy back fills the hole. -/
theorem copyIn {addr : Nat} (h : Valued R image (Within addr len) m)
    (hlost : ∀ a, m.lost a = false)
    (hbuf : ∀ j < len, R.good (m.writes (addr + j)) (m.base image (addr + j)) (buf j)) :
    Valued R image (fun _ => False) (m.copyIn addr len buf) := by
  refine ⟨h.fresh, fun a ha _ => ?_, zeroed_of_live hlost⟩
  show R.good (m.writes a) (m.base image a) (if _ then _ else _)
  by_cases hin : Within addr len a
  · obtain ⟨j, hj, rfl⟩ := exists_of_within hin
    rw [if_pos hin, Nat.add_sub_cancel_left]
    exact hbuf j hj
  · rw [if_neg hin]
    exact h.right a ha hin

/-- An allowed access keeps the rule. -/
theorem perform {acc : Access} (h : Valued R image hole m)
    (hok : (m.mapping acc.addr).allows acc = true) :
    Valued R image hole (m.perform acc) := by
  cases acc with
  | read a => exact h
  | write a b =>
    refine ⟨fun x hx => ?_, fun x hx hhole => ?_, fun x hx => ?_⟩
    · have hne : x ≠ a := by
        rintro rfl
        have hx' : m.mapping x = .absent := hx
        rw [Access.addr, hx'] at hok
        cases hok
      show (if x = a then _ else _) = []
      rw [if_neg hne]
      exact h.fresh x hx
    · show R.good (if x = a then _ else _) (m.base image x) (if x = a then _ else _)
      by_cases hxa : x = a
      · rw [if_pos hxa, if_pos hxa]
        exact R.cons _ _ _
      · rw [if_neg hxa, if_neg hxa]
        exact h.right x hx hhole
    · show (if x = a then _ else _) = List.headD (if x = a then _ else _) 0
      split
      · rfl
      · exact h.zeroed x hx

/-- Closing the descriptor turns the absent addresses into zeros. -/
theorem release (h : Valued R image (fun _ => False) m)
    (hlost : ∀ a, m.lost a = false) : Valued R image hole m.release := by
  refine ⟨(fun a ha => by cases ha), fun a _ _ => ?_, fun a ha => ?_⟩
  · show R.good (m.writes a) (if decide (m.mapping a = .absent) then 0 else image a)
      (if m.mapping a = .absent then 0 else m.bytes a)
    by_cases ha : m.mapping a = .absent
    · rw [if_pos ha, if_pos (decide_eq_true ha), h.fresh a ha]
      exact R.nil 0
    · have hright := h.right a ha id
      rw [Memory.base, hlost] at hright
      rw [if_neg ha, if_neg (by simpa using ha)]
      exact hright
  · have habsent : m.mapping a = .absent := of_decide_eq_true ha
    show (if m.mapping a = .absent then 0 else m.bytes a) = (m.writes a).headD 0
    rw [if_pos habsent, h.fresh a habsent]
    rfl

end Valued

end GuestMemory
