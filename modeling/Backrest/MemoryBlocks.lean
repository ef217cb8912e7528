import Mathlib.Data.List.Basic
import Mathlib.Logic.Function.Basic

/-!
# Blocks of memory

Blocks are allocated, resized and released by the pointer to their start. What is read or written
must lie inside a block that is live. Content is moved inside a block by reading all of it first,
and copied only to a place apart from it.
-/

namespace MemoryBlocks

abbrev Bytes := List UInt8

/-- A place inside a block. -/
structure Pointer where
  block : Nat
  offset : Nat
  deriving DecidableEq

def Pointer.add (p : Pointer) (size : Nat) : Pointer := ⟨p.block, p.offset + size⟩

/-- The bytes at the one place are not among those at the other. -/
def Pointer.Apart (p : Pointer) (size : Nat) (q : Pointer) (size' : Nat) : Prop :=
  p.block ≠ q.block ∨ p.offset + size ≤ q.offset ∨ q.offset + size' ≤ p.offset

instance (p q : Pointer) (size size' : Nat) : Decidable (p.Apart size q size') :=
  inferInstanceAs (Decidable (_ ∨ _))

inductive Fault
  | notAllocated
  | outside
  | overlap
  deriving DecidableEq

/-- The live blocks, and what memory holds before it is written. -/
structure Heap where
  block : Nat → Option Bytes
  next : Nat
  fill : Nat → UInt8

namespace Heap

def empty (fill : Nat → UInt8) : Heap := ⟨fun _ => none, 0, fill⟩

def fresh (heap : Heap) (size : Nat) : Bytes := (List.range size).map heap.fill

def set (heap : Heap) (id : Nat) (bytes : Bytes) : Heap :=
  { heap with block := Function.update heap.block id (some bytes) }

def alloc (heap : Heap) (size : Nat) : Pointer × Heap :=
  (⟨heap.next, 0⟩, { heap.set heap.next (heap.fresh size) with next := heap.next + 1 })

def release (heap : Heap) (id : Nat) : Heap :=
  { heap with block := Function.update heap.block id none }

def free (heap : Heap) : Option Pointer → Except Fault Heap
  | some ⟨id, 0⟩ =>
    match heap.block id with
    | none => .error .notAllocated
    | some _ => .ok (heap.release id)
  | _ => .error .notAllocated

def resize (heap : Heap) (size : Nat) : Option Pointer → Except Fault (Pointer × Heap)
  | some ⟨id, 0⟩ =>
    match heap.block id with
    | none => .error .notAllocated
    | some bytes =>
      let kept := bytes.take size ++ (heap.fresh size).drop bytes.length
      .ok (⟨heap.next, 0⟩, { (heap.release id).set heap.next kept with next := heap.next + 1 })
  | _ => .error .notAllocated

def read (heap : Heap) (p : Option Pointer) (size : Nat) : Except Fault Bytes :=
  match p with
  | none => .error .outside
  | some ptr =>
    match heap.block ptr.block with
    | none => .error .outside
    | some bytes =>
      if ptr.offset + size ≤ bytes.length then .ok ((bytes.drop ptr.offset).take size)
      else .error .outside

def write (heap : Heap) (p : Option Pointer) (content : Bytes) : Except Fault Heap :=
  match p with
  | none => .error .outside
  | some ptr =>
    match heap.block ptr.block with
    | none => .error .outside
    | some bytes =>
      if ptr.offset + content.length ≤ bytes.length then
        .ok (heap.set ptr.block
          (bytes.take ptr.offset ++ content ++ bytes.drop (ptr.offset + content.length)))
      else .error .outside

/-- The two places may overlap. -/
def move (heap : Heap) (target source : Option Pointer) (size : Nat) : Except Fault Heap :=
  match heap.read source size with
  | .ok content => heap.write target content
  | .error fault => .error fault

/-- The two places must not overlap. -/
def copy (heap : Heap) (target : Option Pointer) (source : Pointer) (size : Nat) :
    Except Fault Heap :=
  match target with
  | none => .error .outside
  | some target =>
    if target.Apart size source size then heap.move (some target) (some source) size
    else .error .overlap

variable {heap : Heap} {id size : Nat} {front middle back bytes : Bytes}

@[simp] theorem set_block_self : (heap.set id bytes).block id = some bytes :=
  Function.update_self ..

@[simp] theorem length_fresh : (heap.fresh size).length = size := by
  rw [fresh, List.length_map, List.length_range]

theorem alloc_block : (heap.alloc size).2.block heap.next = some (heap.fresh size) :=
  set_block_self

theorem free_start (live : heap.block id = some bytes) :
    heap.free (some ⟨id, 0⟩) = .ok (heap.release id) := by
  simp only [free, live]

theorem resize_start (live : heap.block id = some bytes) (grows : bytes.length ≤ size) :
    ∃ added heap', heap.resize size (some ⟨id, 0⟩) = .ok (⟨heap.next, 0⟩, heap') ∧
      added.length = size - bytes.length ∧ heap'.block heap.next = some (bytes ++ added) := by
  refine ⟨(heap.fresh size).drop bytes.length, _, by simp only [resize, live]; rfl, ?_, ?_⟩
  · rw [List.length_drop, length_fresh]
  · rw [List.take_of_length_le grows]
    exact set_block_self

theorem read_append (live : heap.block id = some (front ++ middle ++ back)) :
    heap.read (some ⟨id, front.length⟩) middle.length = .ok middle := by
  rw [read]
  dsimp only
  rw [live]
  dsimp only
  rw [if_pos (by simp), List.append_assoc, List.drop_left, List.take_left]

theorem write_append {content : Bytes} (live : heap.block id = some (front ++ middle ++ back))
    (same : content.length = middle.length) :
    heap.write (some ⟨id, front.length⟩) content = .ok (heap.set id (front ++ content ++ back)) := by
  rw [write]
  dsimp only
  rw [live]
  dsimp only
  have kept : (front ++ middle ++ back).drop (front.length + content.length) = back := by
    rw [same, ← List.length_append, List.drop_left]
  have before : (front ++ middle ++ back).take front.length = front := by
    rw [List.append_assoc, List.take_left]
  rw [if_pos (by simp [same]), kept, before]

section Apart
variable {heap' : Heap} {p q : Pointer} {content : Bytes}

theorem length_read {source : Option Pointer} (got : heap.read source size = .ok content) :
    content.length = size := by
  cases source with
  | none => cases got
  | some ptr =>
    rw [read] at got
    split at got
    · cases got
    · split at got
      next inside =>
        cases got
        rw [List.length_take, List.length_drop]
        omega
      next => cases got

theorem take_drop_written (bytes content : Bytes) {offset start : Nat}
    (inside : offset + content.length ≤ bytes.length)
    (apart : offset + content.length ≤ start ∨ start + size ≤ offset) :
    ((bytes.take offset ++ content ++ bytes.drop (offset + content.length)).drop start).take size =
      (bytes.drop start).take size := by
  have before : (bytes.take offset ++ content).length = offset + content.length := by
    rw [List.length_append, List.length_take]
    omega
  rcases apart with behind | ahead
  · rw [List.drop_append, List.drop_of_length_le (by omega), before, List.nil_append,
      List.drop_drop, Nat.add_sub_cancel' behind]
  · have room : (bytes.take offset).length = offset := by
      rw [List.length_take]
      omega
    rw [List.append_assoc, List.drop_append_of_le_length (by omega),
      List.take_append_of_le_length (by rw [List.length_drop]; omega), List.drop_take,
      List.take_take, Nat.min_eq_left (by omega)]

theorem read_write (written : heap.write (some p) content = .ok heap')
    (apart : p.Apart content.length q size) : heap'.read (some q) size = heap.read (some q) size := by
  rw [write] at written
  split at written
  · cases written
  next bytes live =>
    split at written
    next inside =>
      cases written
      by_cases same : p.block = q.block
      · have length : (bytes.take p.offset ++ content ++
            bytes.drop (p.offset + content.length)).length = bytes.length := by
          rw [List.length_append, List.length_append, List.length_take, List.length_drop]
          omega
        have kept := take_drop_written bytes content inside
          (apart.resolve_left (not_not_intro same))
        rw [read, read, ← same, set_block_self, live]
        dsimp only
        rw [length, kept]
      · have other : (heap.set p.block (bytes.take p.offset ++ content ++
            bytes.drop (p.offset + content.length))).block q.block = heap.block q.block :=
          Function.update_of_ne (Ne.symm same) ..
        rw [read, read, other]
    next => cases written

theorem read_move {source : Option Pointer} {moved : Nat}
    (done : heap.move (some p) source moved = .ok heap') (apart : p.Apart moved q size) :
    heap'.read (some q) size = heap.read (some q) size := by
  rw [move] at done
  split at done
  next content got =>
    rw [← length_read got] at apart
    exact read_write done apart
  next => cases done

theorem copy_eq (got : heap.read (some q) size = .ok content) (apart : p.Apart size q size) :
    heap.copy (some p) q size = heap.write (some p) content := by
  rw [copy, if_pos apart, move, got]

end Apart

section Move
variable {gap content : Bytes}

theorem move_up (live : heap.block id = some (front ++ content ++ gap ++ back)) :
    ∃ left, left.length = gap.length ∧
      heap.move (some ⟨id, front.length + gap.length⟩) (some ⟨id, front.length⟩) content.length =
        .ok (heap.set id (front ++ left ++ content ++ back)) := by
  have length : (content ++ gap).length = gap.length + content.length := by
    rw [List.length_append, Nat.add_comm]
  have left : ((content ++ gap).take gap.length).length = gap.length := by
    rw [List.length_take]
    omega
  have right : content.length = ((content ++ gap).drop gap.length).length := by
    rw [List.length_drop]
    omega
  refine ⟨(content ++ gap).take gap.length, left, ?_⟩
  have source := live
  rw [List.append_assoc _ gap] at source
  have target : heap.block id = some ((front ++ (content ++ gap).take gap.length) ++
      (content ++ gap).drop gap.length ++ back) := by
    rw [live, List.append_assoc front _ (List.drop _ _), List.take_append_drop,
      List.append_assoc front]
  have written := write_append target right
  rw [List.length_append, left] at written
  rw [move, read_append source]
  exact written

theorem move_down (live : heap.block id = some (front ++ gap ++ content ++ back)) :
    ∃ left, left.length = gap.length ∧
      heap.move (some ⟨id, front.length⟩) (some ⟨id, front.length + gap.length⟩) content.length =
        .ok (heap.set id (front ++ content ++ left ++ back)) := by
  have length : (gap ++ content).length = content.length + gap.length := by
    rw [List.length_append, Nat.add_comm]
  have left : content.length = ((gap ++ content).take content.length).length := by
    rw [List.length_take]
    omega
  have right : ((gap ++ content).drop content.length).length = gap.length := by
    rw [List.length_drop]
    omega
  refine ⟨(gap ++ content).drop content.length, right, ?_⟩
  have source := read_append live
  rw [List.length_append] at source
  have target : heap.block id = some (front ++ (gap ++ content).take content.length ++
      ((gap ++ content).drop content.length ++ back)) := by
    rw [live, ← List.append_assoc (front ++ _), List.append_assoc front _ (List.drop _ _),
      List.take_append_drop, List.append_assoc front]
  have written := write_append target left
  rw [← List.append_assoc (front ++ content)] at written
  rw [move, source]
  exact written

end Move

end Heap

end MemoryBlocks
