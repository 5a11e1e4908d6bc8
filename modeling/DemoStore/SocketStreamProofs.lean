import Mathlib.Data.List.Basic
import Mathlib.Order.Basic

/-! # One direction of a connection

    A stream keeps everything that has been written to it and how far the reader has come.
    So what a process has written and what the other one has read are both there to be spoken
    about, and each process has invariants of its own over them: writing does not change what
    has been read (`seen_write`), reading does not change what has been written
    (`items_of_read`), and the two sides meet in `seen_prefix` only. -/

namespace SocketStream

open List

variable {M : Type}

/-- All that was written, and how much was read. -/
structure Stream (M : Type) where
  items : List M
  /-- how many of them have been read -/
  pos : Nat
  pos_le : pos ≤ items.length

namespace Stream

/-- Nothing was written. -/
def empty : Stream M := ⟨[], 0, Nat.le_refl 0⟩

/-- One more message. -/
def write (c : Stream M) (m : M) : Stream M where
  items := c.items ++ [m]
  pos := c.pos
  pos_le := by
    have := c.pos_le
    simp only [length_append, length_singleton]
    omega

/-- The next item and the stream behind it; `none` when all has been read. -/
def read (c : Stream M) : Option (M × Stream M) :=
  if h : c.pos < c.items.length then some (c.items[c.pos], ⟨c.items, c.pos + 1, h⟩) else none

/-- What has been read. -/
def seen (c : Stream M) : List M := c.items.take c.pos

variable {c c' : Stream M} {m : M}

/-- A write appends to what was sent. -/
@[simp] theorem items_write (c : Stream M) (m : M) : (c.write m).items = c.items ++ [m] := rfl

/-- A write is not yet seen. -/
@[simp] theorem seen_write (c : Stream M) (m : M) : (c.write m).seen = c.seen :=
  take_append_of_le_length c.pos_le

/-- What was seen was sent, in this order. -/
theorem seen_prefix (c : Stream M) : c.seen <+: c.items := take_prefix c.pos c.items

/-- A read sends nothing. -/
theorem items_of_read (h : c.read = some (m, c')) : c'.items = c.items := by
  unfold read at h
  split at h
  · cases h
    rfl
  · cases h

/-- A read sees the next message. -/
theorem seen_of_read (h : c.read = some (m, c')) : c'.seen = c.seen ++ [m] := by
  unfold read at h
  split at h
  · cases h
    exact take_succ_eq_append_getElem _
  · cases h

/-- Only what was sent can be read. -/
theorem length_of_read (h : c.read = some (m, c')) : c.seen.length < c.items.length := by
  have hle := c'.seen_prefix.length_le
  rw [seen_of_read h, items_of_read h, length_append, length_singleton] at hle
  exact hle

end Stream

end SocketStream
