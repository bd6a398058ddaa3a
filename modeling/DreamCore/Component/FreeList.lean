import DreamCore.Component.Fifo
import Mathlib.Data.Option.Basic

/-!
# The free list of physical registers

`free_list.h` is a `fifo` of register ids next to a plain set, `free_list_set`.
The set is not a `dff`: it changes at once, and the class uses it only to check
itself. A failing check is a failing `verify`, which the model renders as `none`.

What the rest of the core relies on is that `restore` rewinds the read pointer:
a popped id stays in its slot until the write pointer comes round again.
-/

namespace DreamCore

open Ring

/-- `free_list` of `free_list.h`. -/
structure FreeList (n : Nat) where
  ring : Fifo n Nat
  freeListSet : List Nat

namespace FreeList

variable {n : Nat}

/-- `verify_only(new_get_used_space() == free_list_set.size())`. -/
def sizeOk (new : FreeList n) : Bool :=
  new.ring.newGetUsedSpace == new.freeListSet.length

/-- `push`. The flag is the result the callers ignore. -/
def push (cur new : FreeList n) (data : Nat) : Option (FreeList n × Bool) := do
  guard (data < n)
  guard (data ∉ new.freeListSet)
  match Fifo.push cur.ring new.ring data with
  | some ring =>
      let new' : FreeList n := ⟨ring, data :: new.freeListSet⟩
      guard (sizeOk new')
      return (new', true)
  | none =>
      guard (sizeOk new)
      return (new, false)

/-- `pop`. An empty list gives `none` inside the result. -/
def pop (cur new : FreeList n) : Option (Option Nat × FreeList n) :=
  match Fifo.pop cur.ring new.ring with
  | some (data, ring) => do
      guard (data < n)
      guard (data ∈ new.freeListSet)
      let new' : FreeList n := ⟨ring, new.freeListSet.erase data⟩
      guard (sizeOk new')
      return (some data, new')
  | none => do
      guard (sizeOk new)
      return (none, new)

/-- `save`: the read pointer as the stages of this cycle have left it. -/
def save (new : FreeList n) : Ptr := new.ring.rptr

/-- The loop of `restore`: every slot from `p` up to the old read pointer goes back into
the set. The walk never needs more than one turn of the ring. -/
def restoreLoop (cur : FreeList n) : Nat → Ptr → List Nat → Option (List Nat)
  | 0, p, set => if p == cur.ring.rptr then some set else none
  | fuel + 1, p, set =>
      if p == cur.ring.rptr then some set
      else do
        guard (cur.ring.buffer p.id ∉ set)
        restoreLoop cur fuel (p.next n) (cur.ring.buffer p.id :: set)

/-- `restore`. -/
def restore (cur new : FreeList n) (p : Ptr) : Option (FreeList n) := do
  guard (p.id < n)
  guard (Fifo.producerGetUsedSpace cur.ring new.ring == new.freeListSet.length)
  let set ← restoreLoop cur (2 * n) p new.freeListSet
  let new' : FreeList n := ⟨{ new.ring with rptr := p }, set⟩
  guard (sizeOk new')
  return new'

/-- `reset`: every id is pushed, in order. -/
def reset (n : Nat) : FreeList n :=
  { ring := { buffer := id, rptr := ⟨0, false⟩, wptr := ⟨0, true⟩ }
    freeListSet := List.range n }

/-- The free ids, in the order they will be popped. -/
def contents (f : FreeList n) : List Nat := f.ring.contents

variable {cur new f' : FreeList n} {data : Nat}

/-- What a push that did not abort did to the ring. -/
theorem push_eq_some {ok : Bool} (h : push cur new data = some (f', ok)) :
    (Fifo.push cur.ring new.ring data = some f'.ring ∧ ok = true) ∨
    (Fifo.push cur.ring new.ring data = none ∧ f' = new ∧ ok = false) := by
  simp only [push, Option.bind_eq_bind, Option.bind_eq_some_iff] at h
  obtain ⟨-, -, -, -, h⟩ := h
  split at h
  · rename_i ring hr
    obtain ⟨-, -, h⟩ := Option.bind_eq_some_iff.mp h
    cases h
    exact .inl ⟨hr, rfl⟩
  · rename_i hr
    obtain ⟨-, -, h⟩ := Option.bind_eq_some_iff.mp h
    cases h
    exact .inr ⟨hr, rfl, rfl⟩

/-- What a pop that returned an id did to the ring. -/
theorem pop_eq_some (h : pop cur new = some (some data, f')) :
    Fifo.pop cur.ring new.ring = some (data, f'.ring) ∧ data < n := by
  unfold pop at h
  split at h
  · rename_i d ring hp
    simp only [Option.bind_eq_bind, Option.bind_eq_some_iff] at h
    obtain ⟨_, hd, _, -, _, -, h⟩ := h
    cases h
    exact ⟨hp, by simpa [guard] using hd⟩
  · simp only [Option.bind_eq_bind, Option.bind_eq_some_iff] at h
    obtain ⟨-, -, h⟩ := h
    cases h

/-- **A restore that did not abort moved the read pointer and nothing else.** -/
theorem restore_eq_some {p : Ptr} (h : restore cur new p = some f') :
    f'.ring = { new.ring with rptr := p } := by
  simp only [restore, Option.bind_eq_bind, Option.bind_eq_some_iff] at h
  obtain ⟨-, -, -, -, set, -, -, -, h⟩ := h
  cases h
  rfl

end FreeList

end DreamCore
