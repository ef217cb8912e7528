import Backrest.MemoryBlocks
import Backrest.SortSearch
import Backrest.Text

/-!
# The list type

A list keeps its items in one block of memory. The start of the items moves up when the first one
is removed, and back to the start of the block when an item has to go behind the end. A new item is
copied after the others were moved, also when it lies in the block itself.
-/

namespace TypeList

open SortSearch MemoryBlocks
open Text (Error lstGetError)

/-- An `unsigned int`. -/
def uint (n : Nat) : Nat := n % 2 ^ 32

/-- A `size_t`. -/
def sizeT (n : Nat) : Nat := n % 2 ^ 64

def listInitialSize : Nat := 8

inductive SortOrder
  | sortOrderNone
  | sortOrderAsc
  | sortOrderDesc
  deriving DecidableEq

inductive Failure
  | fault (fault : Fault)
  | thrown (error : Error)

/-- What a pointer to an item points to: memory of the caller, or a place in the block of the
list. -/
inductive Item
  | outside (item : Bytes)
  | inside (item : Pointer)

structure CList where
  listSize : Nat := 0
  itemSize : Nat
  positive : 0 < itemSize
  listSizeMax : Nat := 0
  sortOrder : SortOrder := .sortOrderNone
  listAlloc : Option Pointer := none
  list : Option Pointer := none
  comparator : Comparator Bytes
  heap : Heap

section Code
variable (std : StandardLibrary Bytes) (this : CList)

def lstNew (itemSize : Nat) (positive : 0 < itemSize) (comparator : Comparator Bytes)
    (sortOrder : SortOrder) (heap : Heap) : CList :=
  { itemSize := itemSize, positive := positive, comparator := comparator, sortOrder := sortOrder,
    heap := heap }

def itemPtr (listIdx : Nat) : Option Pointer := this.list.map (·.add (listIdx * this.itemSize))

def withBlock (listSizeMax : Nat) (list : Pointer) (heap : Heap) : CList :=
  { this with
    listSizeMax := listSizeMax, list := some list, listAlloc := some list, heap := heap }

/-- Allocate more space. -/
def extend : Except Fault CList :=
  -- If nothing has been allocated yet
  if this.listSizeMax = 0 then
    let (list, heap) := this.heap.alloc (sizeT (listInitialSize * this.itemSize))
    .ok (withBlock this listInitialSize list heap)
  else
    let listSizeMax := uint (this.listSizeMax * 2)
    match this.heap.resize (sizeT (listSizeMax * this.itemSize)) this.list with
    | .error fault => .error fault
    | .ok (list, heap) => .ok (withBlock this listSizeMax list heap)

/-- The items that fit before the beginning of the list. -/
def skippedItems : Nat :=
  match this.list, this.listAlloc with
  | some list, some listAlloc => (list.offset - listAlloc.offset) / this.itemSize
  | _, _ => 0

def moveDown : Except Fault CList :=
  match this.heap.move this.listAlloc this.list (this.listSize * this.itemSize) with
  | .error fault => .error fault
  | .ok heap => .ok { this with list := this.listAlloc, heap := heap }

/-- There is space before the beginning of the list, and none behind its end. -/
def SpaceBefore : Prop :=
  this.list ≠ this.listAlloc ∧ this.listSize + skippedItems this = this.listSizeMax

instance : Decidable (SpaceBefore this) := inferInstanceAs (Decidable (_ ∧ _))

def makeSpace : Except Fault CList :=
  if this.listSize = this.listSizeMax then extend this
  else if SpaceBefore this then moveDown this
  else .ok this

/-- If not inserting at the end then move items down to make space. -/
def openItem (listIdx : Nat) : Except Fault Heap :=
  if listIdx = this.listSize then .ok this.heap
  else this.heap.move (itemPtr this (listIdx + 1)) (itemPtr this listIdx)
    ((this.listSize - listIdx) * this.itemSize)

def copyItem (heap : Heap) (itemPtr : Option Pointer) (itemSize : Nat) : Item → Except Fault Heap
  | .outside item => heap.write itemPtr item
  | .inside item => heap.copy itemPtr item itemSize

def placeItem (listIdx : Nat) (item : Item) : Except Fault CList :=
  match openItem this listIdx with
  | .error fault => .error fault
  | .ok heap =>
    match copyItem heap (itemPtr this listIdx) this.itemSize item with
    | .error fault => .error fault
    | .ok heap => .ok { this with
        sortOrder := .sortOrderNone, listSize := uint (this.listSize + 1), heap := heap }

def lstInsert (listIdx : Nat) (item : Item) : Except Fault CList :=
  match makeSpace this with
  | .error fault => .error fault
  | .ok this => placeItem this listIdx item

def lstAdd (item : Item) : Except Fault CList := lstInsert this this.listSize item

/-- The capacity of a list to which so many items were added and from which none was removed. -/
def capacity : Nat → Nat
  | 0 => 0
  | listSize + 1 =>
    if listSize = capacity listSize then
      if capacity listSize = 0 then listInitialSize else uint (capacity listSize * 2)
    else capacity listSize

/-- Such a list gets one more item in front. -/
def lstInsertFirst {α : Type} (items : List α) (item : α) : Except Fault (List α) :=
  if items.length < capacity (items.length + 1) then .ok (item :: items) else .error .outside

def lstRemoveIdx (listIdx : Nat) : Except Fault CList :=
  let listSize := uint (this.listSize + (2 ^ 32 - 1))
  if listIdx = 0 then .ok { this with listSize := listSize, list := itemPtr this 1 }
  else
    match this.heap.move (itemPtr this listIdx) (itemPtr this (listIdx + 1))
        ((listSize - listIdx) * this.itemSize) with
    | .error fault => .error fault
    | .ok heap => .ok { this with listSize := listSize, heap := heap }

def readItems (heap : Heap) (itemSize : Nat) : Nat → Option Pointer → Except Fault (List Bytes)
  | 0, _ => .ok []
  | count + 1, ptr =>
    match heap.read ptr itemSize, readItems heap itemSize count (ptr.map (·.add itemSize)) with
    | .ok item, .ok items => .ok (item :: items)
    | _, _ => .error .outside

def items : Except Fault (List Bytes) := readItems this.heap this.itemSize this.listSize this.list

def lstFind (item : Bytes) : Except Fault (Option Nat) :=
  match items this with
  | .error fault => .error fault
  | .ok items =>
    match this.sortOrder with
    | .sortOrderAsc => .ok (std.bsearch this.comparator.compare item items)
    | .sortOrderDesc => .ok (std.bsearch this.comparator.desc.compare item items)
    -- Fall back on an iterative search
    | .sortOrderNone => .ok (linearSearch this.comparator.compare item items)

def lstRemove (item : Bytes) : Except Fault (Bool × CList) :=
  match lstFind std this item with
  | .error fault => .error fault
  | .ok none => .ok (false, this)
  | .ok (some listIdx) => (lstRemoveIdx this listIdx).map fun this => (true, this)

def lstGet (listIdx : Nat) : Except Failure Bytes :=
  if this.listSize ≤ listIdx then .error (.thrown (lstGetError listIdx this.listSize))
  else (this.heap.read (itemPtr this listIdx) this.itemSize).mapError .fault

/-- The items sorted as `compare` says. -/
def sortItems (compare : Bytes → Bytes → Int) : Except Fault CList :=
  match items this with
  | .error fault => .error fault
  | .ok [] => .ok this
  | .ok items =>
    match this.heap.write this.list (std.qsort compare items).flatten with
    | .error fault => .error fault
    | .ok heap => .ok { this with heap := heap }

def lstSort (sortOrder : SortOrder) : Except Fault CList :=
  let sorted := match sortOrder with
    | .sortOrderAsc => sortItems std this this.comparator.compare
    | .sortOrderDesc => sortItems std this this.comparator.desc.compare
    | .sortOrderNone => .ok this
  sorted.map fun this => { this with sortOrder := sortOrder }

def lstClear : Except Fault CList :=
  if this.list = none then .ok this
  else
    match this.heap.free this.list with
    | .error fault => .error fault
    | .ok heap => .ok { this with listSize := 0, listSizeMax := 0, heap := heap }

def lstComparatorSet (comparator : Comparator Bytes) : CList :=
  { this with comparator := comparator, sortOrder := .sortOrderNone }

end Code

section Calls

inductive Call
  | lstInsert (listIdx : Nat) (item : Item)
  | lstAdd (item : Item)
  | lstRemoveIdx (listIdx : Nat)
  | lstRemove (item : Bytes)
  | lstSort (sortOrder : SortOrder)
  | lstClear
  | lstGet (listIdx : Nat)
  | lstFind (item : Bytes)
  | lstComparatorSet (comparator : Comparator Bytes)

inductive Reply
  | nothing
  | item (item : Bytes)
  | removed (removed : Bool)
  | found (listIdx : Option Nat)

variable (std : StandardLibrary Bytes) (this : CList)

def call : Call → Except Failure (Reply × CList)
  | .lstInsert listIdx item => ((lstInsert this listIdx item).map (.nothing, ·)).mapError .fault
  | .lstAdd item => ((lstAdd this item).map (.nothing, ·)).mapError .fault
  | .lstRemoveIdx listIdx => ((lstRemoveIdx this listIdx).map (.nothing, ·)).mapError .fault
  | .lstRemove item =>
    ((lstRemove std this item).map fun (removed, this) => (.removed removed, this)).mapError .fault
  | .lstSort sortOrder => ((lstSort std this sortOrder).map (.nothing, ·)).mapError .fault
  | .lstClear => ((lstClear this).map (.nothing, ·)).mapError .fault
  | .lstGet listIdx => (lstGet this listIdx).map (.item ·, this)
  | .lstFind item => ((lstFind std this item).map (.found ·, this)).mapError .fault
  | .lstComparatorSet comparator => .ok (.nothing, lstComparatorSet this comparator)

def Item.Holds (item : Item) (bytes : Bytes) : Prop :=
  bytes.length = this.itemSize ∧
    match item with
    | .outside item => item = bytes
    | .inside item => this.listAlloc.map (·.block) = some item.block ∧
        this.heap.read (some item) this.itemSize = .ok bytes

/-- The indexes are in range, and an item is as long as the list was made for. -/
def InRange : Call → Prop
  | .lstInsert listIdx item => listIdx ≤ this.listSize ∧ ∃ bytes, item.Holds this bytes
  | .lstAdd item => ∃ bytes, item.Holds this bytes
  | .lstRemoveIdx listIdx => listIdx < this.listSize
  | .lstGet listIdx => listIdx < this.listSize
  | _ => True

end Calls

section Claimed
variable (std : StandardLibrary Bytes)

def Sequence (this : CList) (items : List Bytes) : Call → Reply → List Bytes → Prop
  | .lstInsert listIdx item, _, items' => ∃ bytes, item.Holds this bytes ∧
    items' = items.take listIdx ++ bytes :: items.drop listIdx
  | .lstAdd item, _, items' => ∃ bytes, item.Holds this bytes ∧ items' = items ++ [bytes]
  | .lstRemoveIdx listIdx, _, items' => items' = items.eraseIdx listIdx
  | .lstRemove item, .removed true, items' =>
    ∃ listIdx, Finds this.comparator item items (some listIdx) ∧ items' = items.eraseIdx listIdx
  | .lstRemove item, .removed false, items' =>
    Finds this.comparator item items none ∧ items' = items
  | .lstSort .sortOrderAsc, _, items' => items'.Perm items ∧ this.comparator.Sorted items'
  | .lstSort .sortOrderDesc, _, items' => items'.Perm items ∧ this.comparator.desc.Sorted items'
  | .lstSort .sortOrderNone, _, items' => items' = items
  | .lstClear, _, items' => items' = []
  | .lstGet listIdx, .item item, items' => items[listIdx]? = some item ∧ items' = items
  | .lstFind item, .found listIdx, items' =>
    Finds this.comparator item items listIdx ∧ items' = items
  | .lstComparatorSet _, _, items' => items' = items
  | _, _, _ => False

structure Represents (this : CList) (items : List Bytes) : Prop where
  size : this.listSize = items.length
  lengths : ∀ item ∈ items, item.length = this.itemSize
  inside : items ≠ [] → ∃ ptr bytes, this.list = some ptr ∧ this.heap.block ptr.block = some bytes ∧
    ptr.offset + this.listSize * this.itemSize ≤ bytes.length ∧
    (bytes.drop ptr.offset).take (this.listSize * this.itemSize) = items.flatten

/-- The list holds the items, and each call in range returns and does what it does to a sequence. A
call that passes a pointer to be freed or resized that is not the start of a live block, or that
reads or writes outside of one, does not return. -/
def Behaves : CList → List Bytes → List Call → Prop
  | this, items, [] => Represents this items
  | this, items, request :: requests => Represents this items ∧ (InRange this request →
      ∃ reply next items', call std this request = .ok (reply, next) ∧
        Sequence this items request reply items' ∧ Behaves next items' requests)

/-- A full list can double its capacity. -/
def Growable (this : CList) : Prop :=
  this.listSize = this.listSizeMax → this.listSizeMax * 2 < 2 ^ 32 ∧
    max listInitialSize (this.listSizeMax * 2) * this.itemSize < 2 ^ 64

/-- Where in its block the items from `listIdx` on start when there is space for one more. -/
def placeOf (this : CList) (listIdx : Nat) : Nat :=
  if SpaceBefore this then listIdx * this.itemSize
  else (skippedItems this + listIdx) * this.itemSize

/-- An item in the block stays there while the others are moved: the block is not resized, and the
item is not among those that are moved nor where they are moved to. -/
def Stays (this : CList) (listIdx : Nat) : Item → Prop
  | .outside _ => True
  | .inside item => this.listSize ≠ this.listSizeMax ∧
      (placeOf this (this.listSize + 1) ≤ item.offset ∨
        ¬ SpaceBefore this ∧ item.offset + this.itemSize ≤ placeOf this listIdx)

/-- The list is not cleared while its start is moved or once it was cleared, does not grow beyond
what its size and the size of the block can hold, and an item in its block stays there until it is
copied. -/
def Safe (this : CList) : Call → Prop
  | .lstInsert listIdx item => Growable this ∧ Stays this listIdx item
  | .lstAdd item => Growable this ∧ Stays this this.listSize item
  | .lstClear => this.list = none ∨ (this.list = this.listAlloc ∧ 0 < this.listSizeMax)
  | _ => True

def SafeRun : CList → List Call → Prop
  | _, [] => True
  | this, request :: requests => InRange this request → Safe this request ∧
      ∀ reply next, call std this request = .ok (reply, next) → SafeRun next requests

end Claimed

section Invariant

def Ordered (comparator : Comparator Bytes) (items : List Bytes) : SortOrder → Prop
  | .sortOrderNone => True
  | .sortOrderAsc => comparator.Sorted items
  | .sortOrderDesc => comparator.desc.Sorted items

structure Placement (this : CList) (items : List Bytes) (skipped spare : Nat) (id : Nat)
    (front back : Bytes) : Prop where
  alloc : this.listAlloc = some ⟨id, 0⟩
  list : this.list = some ⟨id, front.length⟩
  block : this.heap.block id = some (front ++ items.flatten ++ back)
  front : front.length = skipped * this.itemSize
  back : back.length = spare * this.itemSize
  total : skipped + items.length + spare = this.listSizeMax

/-- The items are in a live block. -/
def Placed (this : CList) (items : List Bytes) (skipped spare : Nat) : Prop :=
  ∃ id front back, Placement this items skipped spare id front back

/-- Nothing is allocated, or the items are placed. -/
def Located (this : CList) (items : List Bytes) : Prop :=
  (this.listSizeMax = 0 ∧ items = []) ∨
    (0 < this.listSizeMax ∧ ∃ skipped spare, Placed this items skipped spare)

structure Inv (this : CList) (items : List Bytes) : Prop where
  size : this.listSize = items.length
  lengths : ∀ item ∈ items, item.length = this.itemSize
  max : this.listSizeMax < 2 ^ 32
  ordered : Ordered this.comparator items this.sortOrder
  placed : Located this items

variable {this next : CList} {items : List Bytes} {item : Bytes} {skipped spare id listIdx : Nat}
  {front back : Bytes}

/-- Where the items are depends on neither the size, the order nor the comparator. -/
theorem Located.congr (located : Located this items) (alloc : next.listAlloc = this.listAlloc)
    (list : next.list = this.list) (heap : next.heap = this.heap)
    (itemSize : next.itemSize = this.itemSize) (max : next.listSizeMax = this.listSizeMax) :
    Located next items := by
  rw [Located, max]
  rcases located with none | ⟨some, skipped, spare, id, front, back, placement⟩
  · exact Or.inl none
  · exact Or.inr ⟨some, skipped, spare, id, front, back, alloc ▸ placement.alloc,
      list ▸ placement.list, heap ▸ placement.block, itemSize ▸ placement.front,
      itemSize ▸ placement.back, max ▸ placement.total⟩

theorem length_flatten {itemSize : Nat} (lengths : ∀ item ∈ items, item.length = itemSize) :
    items.flatten.length = items.length * itemSize := by
  induction items with
  | nil => exact (Nat.zero_mul itemSize).symm
  | cons item items ih =>
    rw [List.forall_mem_cons] at lengths
    rw [List.flatten_cons, List.length_append, lengths.1, ih lengths.2, List.length_cons,
      Nat.add_mul, Nat.one_mul, Nat.add_comm]

theorem ordered_sublist {comparator : Comparator Bytes} {items' : List Bytes} {order : SortOrder}
    (ordered : Ordered comparator items order) (sub : List.Sublist items' items) :
    Ordered comparator items' order := by
  cases order with
  | sortOrderNone => trivial
  | sortOrderAsc => exact ordered.sublist sub
  | sortOrderDesc => exact ordered.sublist sub

theorem Inv.represents (inv : Inv this items) : Represents this items := by
  refine ⟨inv.size, inv.lengths, ?_⟩
  intro some
  obtain ⟨-, empty⟩ | ⟨-, skipped, spare, id, front, back, placement⟩ := inv.placed
  · exact absurd empty some
  · have length := length_flatten inv.lengths
    rw [← inv.size] at length
    refine ⟨_, _, placement.list, placement.block, ?_, ?_⟩
    · rw [List.length_append, List.length_append, length]
      exact Nat.le_add_right _ _
    · rw [List.append_assoc, List.drop_left, ← length, List.take_left]

theorem inv_new {itemSize : Nat} (positive : 0 < itemSize) (comparator : Comparator Bytes)
    (sortOrder : SortOrder) (heap : Heap) :
    Inv (lstNew itemSize positive comparator sortOrder heap) [] where
  size := rfl
  lengths := by simp
  max := by
    change 0 < 2 ^ 32
    decide
  ordered := by
    cases sortOrder with
    | sortOrderNone => trivial
    | sortOrderAsc => exact comparator.sorted_nil
    | sortOrderDesc => exact comparator.desc.sorted_nil
  placed := Or.inl ⟨rfl, rfl⟩

end Invariant

section Insert
variable {this next : CList} {items : List Bytes} {item : Bytes} {skipped spare id listIdx : Nat}
  {front back : Bytes} {passed : Item}

/-- What making space leaves: the same items with room for one more. -/
structure Spacious (this next : CList) (items : List Bytes) : Prop where
  size : next.listSize = this.listSize
  itemSize : next.itemSize = this.itemSize
  comparator : next.comparator = this.comparator
  max : next.listSizeMax < 2 ^ 32
  room : ∃ skipped spare, Placed next items skipped (spare + 1)

theorem withBlock_placed {listSizeMax : Nat} {heap : Heap}
    (block : heap.block id = some (items.flatten ++ back))
    (room : back.length = spare * this.itemSize) (total : items.length + spare = listSizeMax) :
    Placed (withBlock this listSizeMax ⟨id, 0⟩ heap) items 0 spare :=
  ⟨id, [], back, rfl, rfl, block, (Nat.zero_mul _).symm, room, by rw [Nat.zero_add]; exact total⟩

theorem extend_new (inv : Inv this items) (none : this.listSizeMax = 0)
    (fits : listInitialSize * this.itemSize < 2 ^ 64) :
    ∃ next, extend this = .ok next ∧ Spacious this next items := by
  have empty : items = [] := by
    obtain ⟨-, empty⟩ | ⟨some, -⟩ := inv.placed
    · exact empty
    · omega
  have size : sizeT (listInitialSize * this.itemSize) = 8 * this.itemSize := Nat.mod_eq_of_lt fits
  refine ⟨withBlock this listInitialSize (this.heap.alloc _).1 (this.heap.alloc _).2,
    by rw [extend, if_pos none], rfl, rfl, rfl, (by decide : listInitialSize < 2 ^ 32), 0, 7, ?_⟩
  subst empty
  refine withBlock_placed Heap.alloc_block ?_ rfl
  rw [← size]
  exact Heap.length_fresh

/-- A list without room starts at the start of its block and fills it. -/
theorem placement_full (placement : Placement this items skipped spare id front back)
    (full : items.length = this.listSizeMax) :
    this.list = some ⟨id, 0⟩ ∧ this.heap.block id = some items.flatten := by
  have total := placement.total
  have noFront : front = [] := by
    apply List.eq_nil_of_length_eq_zero
    rw [placement.front, (by omega : skipped = 0), Nat.zero_mul]
  have noBack : back = [] := by
    apply List.eq_nil_of_length_eq_zero
    rw [placement.back, (by omega : spare = 0), Nat.zero_mul]
  have list := placement.list
  have block := placement.block
  rw [noFront] at list
  rw [noFront, noBack, List.nil_append, List.append_nil] at block
  exact ⟨list, block⟩

theorem extend_full (inv : Inv this items) (full : this.listSize = this.listSizeMax)
    (some : 0 < this.listSizeMax) (counts : this.listSizeMax * 2 < 2 ^ 32)
    (fits : this.listSizeMax * 2 * this.itemSize < 2 ^ 64) :
    ∃ next, extend this = .ok next ∧ Spacious this next items := by
  obtain ⟨none, -⟩ | ⟨-, skipped, spare, id, front, back, placement⟩ := inv.placed
  · omega
  obtain ⟨list, block⟩ := placement_full placement (inv.size.symm.trans full)
  have length := length_flatten inv.lengths
  rw [← inv.size, full] at length
  have double : this.listSizeMax * 2 * this.itemSize =
      this.listSizeMax * this.itemSize + this.listSizeMax * this.itemSize := by
    rw [Nat.mul_right_comm, Nat.mul_two]
  have count : uint (this.listSizeMax * 2) = this.listSizeMax * 2 := Nat.mod_eq_of_lt counts
  have size : sizeT (this.listSizeMax * 2 * this.itemSize) = this.listSizeMax * 2 * this.itemSize :=
    Nat.mod_eq_of_lt fits
  have grows : items.flatten.length ≤ this.listSizeMax * 2 * this.itemSize := by omega
  obtain ⟨added, heap, resized, room, grown⟩ := Heap.resize_start block grows
  refine ⟨withBlock this (this.listSizeMax * 2) ⟨this.heap.next, 0⟩ heap, ?_, rfl, rfl, rfl, counts,
    0, this.listSizeMax - 1, ?_⟩
  · rw [extend, if_neg (by omega)]
    dsimp only
    rw [count, size, list, resized]
  · have spares : this.listSizeMax - 1 + 1 = this.listSizeMax := by omega
    rw [spares]
    apply withBlock_placed grown
    · omega
    · have size := inv.size
      omega

theorem skippedItems_eq (placement : Placement this items skipped spare id front back) :
    skippedItems this = skipped := by
  rw [skippedItems, placement.list, placement.alloc]
  dsimp only
  rw [Nat.sub_zero, placement.front, Nat.mul_div_cancel _ this.positive]

theorem list_eq_alloc_iff (placement : Placement this items skipped spare id front back) :
    this.list = this.listAlloc ↔ skipped = 0 := by
  rw [placement.list, placement.alloc, Option.some.injEq, Pointer.mk.injEq, placement.front,
    Nat.mul_eq_zero]
  have positive := this.positive
  omega

/-- The space before the beginning of the list becomes spare space. -/
theorem moveDown_spec (inv : Inv this items)
    (placement : Placement this items skipped spare id front back) :
    ∃ next, moveDown this = .ok next ∧ next.listSize = this.listSize ∧
      next.itemSize = this.itemSize ∧ next.comparator = this.comparator ∧
      next.listSizeMax = this.listSizeMax ∧ Placed next items 0 (skipped + spare) := by
  have block := placement.block
  rw [← List.nil_append front] at block
  obtain ⟨left, same, moved⟩ := Heap.move_down block
  rw [length_flatten inv.lengths, ← inv.size, List.length_nil, Nat.zero_add] at moved
  refine ⟨{ this with list := some ⟨id, 0⟩
                      heap := this.heap.set id ([] ++ items.flatten ++ left ++ back) }, ?_,
    rfl, rfl, rfl, rfl, id, [], left ++ back, placement.alloc, rfl, ?_, (Nat.zero_mul _).symm, ?_, ?_⟩
  · rw [moveDown, placement.list, placement.alloc, moved]
  · rw [← List.append_assoc]
    exact Heap.set_block_self
  · rw [List.length_append, same, placement.front, placement.back, Nat.add_mul]
  · have total := placement.total
    change 0 + items.length + (skipped + spare) = this.listSizeMax
    omega

theorem makeSpace_spec (inv : Inv this items) (growable : Growable this) :
    ∃ next, makeSpace this = .ok next ∧ Spacious this next items := by
  rw [makeSpace]
  by_cases full : this.listSize = this.listSizeMax
  · rw [if_pos full]
    obtain ⟨counts, fits⟩ := growable full
    by_cases none : this.listSizeMax = 0
    · apply extend_new inv none
      rw [none] at fits
      exact fits
    · have larger : this.listSizeMax * 2 * this.itemSize ≤
          max listInitialSize (this.listSizeMax * 2) * this.itemSize :=
        Nat.mul_le_mul_right _ (le_max_right _ _)
      exact extend_full inv full (by omega) counts (by omega)
  · rw [if_neg full]
    obtain ⟨none, empty⟩ | ⟨some, skipped, spare, id, front, back, placement⟩ := inv.placed
    · rw [inv.size, empty, none] at full
      exact absurd rfl full
    · have total := placement.total
      have size := inv.size
      have start := list_eq_alloc_iff placement
      have skips := skippedItems_eq placement
      split
      next atEnd =>
        have moved := mt start.mpr atEnd.1
        have filled := skips ▸ atEnd.2
        obtain ⟨next, moved, sizes, item, comparator, maxes, placed⟩ := moveDown_spec inv placement
        have split : skipped + spare = skipped - 1 + 1 := by omega
        rw [split] at placed
        exact ⟨next, moved, sizes, item, comparator, maxes ▸ inv.max, 0, skipped - 1, placed⟩
      next inside =>
        have room : skipped = 0 ∨ this.listSize + skipped ≠ this.listSizeMax := by
          by_contra none
          rw [not_or, not_ne_iff] at none
          exact inside ⟨mt start.mp none.1, skips ▸ none.2⟩
        have split : spare = spare - 1 + 1 := by omega
        rw [split] at placement
        exact ⟨this, rfl, rfl, rfl, rfl, inv.max, skipped, spare - 1, id, front, back, placement⟩

theorem length_before {itemSize : Nat} (lengths : ∀ item ∈ items, item.length = itemSize)
    (inside : listIdx ≤ items.length) :
    (front ++ (items.take listIdx).flatten).length = front.length + listIdx * itemSize := by
  rw [List.length_append, length_flatten fun item mem => lengths item (List.mem_of_mem_take mem),
    List.length_take_of_le inside]

theorem itemPtr_eq (placement : Placement this items skipped spare id front back) (idx : Nat) :
    itemPtr this idx = some ⟨id, front.length + idx * this.itemSize⟩ := by
  rw [itemPtr, placement.list]
  rfl

theorem placement_split (placement : Placement this items skipped spare id front back)
    (idx : Nat) : this.heap.block id =
      some (front ++ (items.take idx).flatten ++ (items.drop idx).flatten ++ back) := by
  have whole : items.flatten = (items.take idx).flatten ++ (items.drop idx).flatten := by
    rw [← List.flatten_append, List.take_append_drop]
  rw [placement.block, whole, ← List.append_assoc front]

theorem openItem_spec (placement : Placement this items skipped (spare + 1) id front back)
    (lengths : ∀ item ∈ items, item.length = this.itemSize) (size : this.listSize = items.length)
    (inside : listIdx ≤ items.length) :
    ∃ left rest heap, openItem this listIdx = .ok heap ∧ left.length = this.itemSize ∧
      rest.length = spare * this.itemSize ∧
      heap.block id = some (front ++ (items.take listIdx).flatten ++ left ++
        ((items.drop listIdx).flatten ++ rest)) := by
  have room := placement.back
  rw [Nat.add_mul, Nat.one_mul] at room
  have gap : (back.take this.itemSize).length = this.itemSize := by
    rw [List.length_take]
    omega
  have rest : (back.drop this.itemSize).length = spare * this.itemSize := by
    rw [List.length_drop]
    omega
  have block := placement_split placement listIdx
  rw [← List.take_append_drop this.itemSize back, ← List.append_assoc] at block
  rw [openItem]
  split
  next atEnd =>
    have none : items.drop listIdx = [] := by
      rw [List.drop_eq_nil_iff]
      omega
    rw [none, List.flatten_nil, List.append_nil] at block
    refine ⟨_, _, _, rfl, gap, rest, ?_⟩
    rw [none]
    exact block
  next before =>
    obtain ⟨left, same, moved⟩ := Heap.move_up block
    have behind : (items.drop listIdx).flatten.length =
        (this.listSize - listIdx) * this.itemSize := by
      rw [length_flatten fun item mem => lengths item (List.mem_of_mem_drop mem), List.length_drop,
        size]
    rw [gap, behind, length_before lengths inside, Nat.add_assoc, ← Nat.add_one_mul,
      ← itemPtr_eq placement, ← itemPtr_eq placement] at moved
    refine ⟨left, _, _, moved, same.trans gap, rest, ?_⟩
    rw [← List.append_assoc]
    exact Heap.set_block_self

/-- The item that is passed is still there, apart from where it is copied to and from the items
behind that place. -/
def Ready (this : CList) (listIdx : Nat) (passed : Item) (item : Bytes) : Prop :=
  match passed with
  | .outside bytes => bytes = item
  | .inside ptr => this.heap.read (some ptr) this.itemSize = .ok item ∧
      ((skippedItems this + (this.listSize + 1)) * this.itemSize ≤ ptr.offset ∨
        ptr.offset + this.itemSize ≤ (skippedItems this + listIdx) * this.itemSize)

theorem makeSpace_ready (inv : Inv this items) (holds : passed.Holds this item)
    (stays : Stays this listIdx passed) (made : makeSpace this = .ok next) :
    Ready next listIdx passed item := by
  cases passed with
  | outside bytes => exact holds.2
  | inside ptr =>
    obtain ⟨room, apart⟩ := stays
    obtain ⟨none, empty⟩ | ⟨some, skipped, spare, id, front, back, placement⟩ := inv.placed
    · rw [inv.size, empty, none] at room
      exact absurd rfl room
    rw [makeSpace, if_neg room] at made
    by_cases before : SpaceBefore this
    · -- What is moved down ends before the item.
      have behind := apart.resolve_right fun inside => inside.1 before
      rw [placeOf, if_pos before] at behind
      rw [if_pos before, moveDown] at made
      split at made
      · cases made
      next heap moved =>
        cases made
        rw [placement.alloc] at moved
        have clear : (Pointer.mk id 0).Apart (this.listSize * this.itemSize) ptr this.itemSize := by
          right
          left
          rw [Nat.add_one_mul] at behind
          dsimp only
          omega
        refine ⟨(Heap.read_move moved clear).trans holds.2.2, Or.inl ?_⟩
        rw [skippedItems, placement.alloc]
        dsimp only
        rw [Nat.sub_self, Nat.zero_div, Nat.zero_add]
        exact behind
    · rw [if_neg before] at made
      cases made
      rw [placeOf, if_neg before, placeOf, if_neg before] at apart
      exact ⟨holds.2.2, apart.imp_right And.right⟩

/-- What is copied into the opened space are the bytes of the item. -/
theorem copyItem_eq (placement : Placement this items skipped spare id front back)
    (ready : Ready this listIdx passed item) (inside : listIdx ≤ this.listSize) {heap : Heap}
    (opened : openItem this listIdx = .ok heap) :
    copyItem heap (itemPtr this listIdx) this.itemSize passed =
      heap.write (itemPtr this listIdx) item := by
  cases passed with
  | outside bytes =>
    cases ready
    rfl
  | inside ptr =>
    obtain ⟨read, apart⟩ := ready
    rw [skippedItems_eq placement, Nat.add_mul skipped, Nat.add_mul skipped, ← placement.front] at apart
    have shifted : (listIdx + 1) * this.itemSize + (this.listSize - listIdx) * this.itemSize =
        (this.listSize + 1) * this.itemSize := by
      rw [← Nat.add_mul]
      congr 1
      omega
    have same : heap.read (some ptr) this.itemSize = .ok item := by
      rw [openItem] at opened
      split at opened
      · cases opened
        exact read
      · rw [itemPtr_eq placement] at opened
        refine (Heap.read_move opened (Or.inr ?_)).trans read
        rw [Nat.add_one_mul] at shifted ⊢
        dsimp only
        omega
    have upTo : (listIdx + 1) * this.itemSize ≤ (this.listSize + 1) * this.itemSize :=
      Nat.mul_le_mul_right _ (Nat.succ_le_succ inside)
    rw [copyItem, itemPtr_eq placement]
    refine Heap.copy_eq same (Or.inr ?_)
    rw [Nat.add_one_mul] at upTo
    dsimp only
    omega

theorem placeItem_spec (placed : Placed this items skipped (spare + 1))
    (lengths : ∀ item ∈ items, item.length = this.itemSize) (size : this.listSize = items.length)
    (max : this.listSizeMax < 2 ^ 32) (inside : listIdx ≤ items.length)
    (length : item.length = this.itemSize) (ready : Ready this listIdx passed item) :
    ∃ next, placeItem this listIdx passed = .ok next ∧ next.comparator = this.comparator ∧
      Inv next (items.take listIdx ++ item :: items.drop listIdx) := by
  obtain ⟨id, front, back, placement⟩ := placed
  obtain ⟨left, rest, heap, opened, gap, spares, block⟩ :=
    openItem_spec placement lengths size inside
  have copied := copyItem_eq placement ready (size ▸ inside) opened
  have written := Heap.write_append block (length.trans gap.symm)
  rw [length_before lengths inside, ← itemPtr_eq placement, ← copied] at written
  have total := placement.total
  have count : uint (this.listSize + 1) = items.length + 1 := by
    rw [size]
    exact Nat.mod_eq_of_lt (by omega)
  have added : (items.take listIdx ++ item :: items.drop listIdx).length = items.length + 1 := by
    rw [List.length_append, List.length_cons, List.length_take, List.length_drop]
    omega
  refine ⟨{ this with sortOrder := .sortOrderNone, listSize := uint (this.listSize + 1),
                      heap := heap.set id (front ++ (items.take listIdx).flatten ++ item ++
                        ((items.drop listIdx).flatten ++ rest)) }, ?_, rfl, ?_⟩
  · rw [placeItem, opened]
    dsimp only
    rw [written]
  refine ⟨count.trans added.symm, ?_, max, trivial, Or.inr ⟨?_, skipped, spare, id, front, rest,
    placement.alloc, placement.list, ?_, placement.front, spares, ?_⟩⟩
  · intro other mem
    rcases List.mem_append.mp mem with before | mem
    · exact lengths other (List.mem_of_mem_take before)
    · rcases List.mem_cons.mp mem with rfl | behind
      · exact length
      · exact lengths other (List.mem_of_mem_drop behind)
  · change 0 < this.listSizeMax
    omega
  · rw [List.flatten_append, List.flatten_cons]
    simp only [List.append_assoc]
    exact Heap.set_block_self
  · rw [added]
    change _ = this.listSizeMax
    omega

theorem lstInsert_spec (inv : Inv this items) (growable : Growable this)
    (stays : Stays this listIdx passed) (inside : listIdx ≤ this.listSize)
    (holds : passed.Holds this item) :
    ∃ next, lstInsert this listIdx passed = .ok next ∧ next.comparator = this.comparator ∧
      Inv next (items.take listIdx ++ item :: items.drop listIdx) := by
  obtain ⟨ready, space, size, itemSize, comparator, max, skipped, spare, placed⟩ :=
    makeSpace_spec inv growable
  obtain ⟨next, added, same, inv'⟩ := placeItem_spec placed (itemSize ▸ inv.lengths)
    (size.trans inv.size) max (inv.size ▸ inside) (holds.1.trans itemSize.symm)
    (makeSpace_ready inv holds stays space)
  exact ⟨next, by rw [lstInsert, space]; exact added, same.trans comparator, inv'⟩

end Insert

section Capacity
variable {this next : CList} {items : List Bytes} {item : Bytes} {passed : Item}

theorem capacity_small {listSize : Nat} (small : listSize ≤ 2 ^ 31) :
    listSize = 0 ∧ capacity listSize = 0 ∨
      ∃ power, power ≤ 31 ∧ capacity listSize = 2 ^ power ∧ listSize ≤ 2 ^ power := by
  induction listSize with
  | zero => exact Or.inl ⟨rfl, rfl⟩
  | succ listSize ih =>
    right
    rw [capacity]
    rcases ih (by omega) with ⟨none, empty⟩ | ⟨power, bound, isPower, inside⟩
    · rw [empty, none]
      exact ⟨3, by decide, rfl, by decide⟩
    · rw [isPower]
      by_cases full : listSize = 2 ^ power
      · have below : power < 31 := by
          apply (Nat.pow_lt_pow_iff_right (by decide : 1 < 2)).mp
          omega
        have larger : 2 ^ power < 2 ^ 31 := by omega
        have positive : 0 < 2 ^ power := Nat.two_pow_pos power
        rw [if_pos full, if_neg (by omega), uint, Nat.mod_eq_of_lt (by omega), ← Nat.pow_succ]
        refine ⟨power + 1, below, rfl, ?_⟩
        rw [Nat.pow_succ]
        omega
      · rw [if_neg full]
        exact ⟨power, bound, rfl, by omega⟩

/-- Doubled once more the capacity is no `unsigned int`. -/
theorem capacity_full {listSize : Nat} (full : listSize = 2 ^ 31) :
    capacity listSize = 2 ^ 31 ∧ capacity (listSize + 1) = 0 := by
  have max : capacity listSize = listSize := by
    rcases capacity_small full.le with ⟨none, -⟩ | ⟨power, bound, isPower, inside⟩
    · omega
    · have upTo : 2 ^ power ≤ 2 ^ 31 := Nat.pow_le_pow_right (by decide) bound
      omega
  refine ⟨max.trans full, ?_⟩
  rw [capacity, max, if_pos rfl, if_neg (by omega), full]
  rfl

theorem lstInsertFirst_eq {α : Type} {items : List α} (item : α) (room : items.length < 2 ^ 31) :
    lstInsertFirst items item = .ok (item :: items) := by
  rw [lstInsertFirst, if_pos]
  rcases capacity_small (Nat.succ_le_of_lt room) with ⟨none, -⟩ | ⟨power, -, isPower, inside⟩
  · omega
  · rw [isPower]
    omega

theorem lstInsertFirst_full {α : Type} {items : List α} (item : α) (full : items.length = 2 ^ 31) :
    lstInsertFirst items item = .error .outside := by
  rw [lstInsertFirst, (capacity_full full).2, if_neg (Nat.not_lt_zero _)]

theorem foldlM_lstInsertFirst {α : Type} {entries items : List α}
    (fits : entries.length + items.length ≤ 2 ^ 31) :
    entries.foldlM lstInsertFirst items = .ok (entries.reverse ++ items) := by
  induction entries generalizing items with
  | nil => rfl
  | cons entry entries ih =>
    rw [List.length_cons] at fits
    have rest := @ih (entry :: items) (by rw [List.length_cons]; omega)
    rw [List.foldlM_cons, lstInsertFirst_eq entry (by omega), List.reverse_cons, List.append_assoc]
    exact rest

end Capacity

section Remove
variable {this : CList} {items : List Bytes} {skipped spare id listIdx : Nat} {front back : Bytes}

theorem uint_pred {n : Nat} (some : 0 < n) (small : n < 2 ^ 32) :
    uint (n + (2 ^ 32 - 1)) = n - 1 := by
  rw [uint]
  omega

theorem remove_first (placement : Placement this items skipped spare id front back)
    (lengths : ∀ item ∈ items, item.length = this.itemSize) {first : Bytes} {rest : List Bytes}
    (shape : items = first :: rest) (listSize : Nat) :
    Placed { this with listSize := listSize, list := itemPtr this 1 } rest (skipped + 1) spare := by
  subst shape
  have length : first.length = this.itemSize := lengths first List.mem_cons_self
  have total := placement.total
  have block := placement.block
  rw [List.flatten_cons, ← List.append_assoc front] at block
  refine ⟨id, front ++ first, back, placement.alloc, ?_, block, ?_, placement.back, ?_⟩
  · change itemPtr this 1 = _
    rw [itemPtr_eq placement, Nat.one_mul, List.length_append, length]
  · rw [List.length_append, length, placement.front]
    exact (Nat.add_one_mul _ _).symm
  · rw [List.length_cons] at total
    change _ = this.listSizeMax
    omega

/-- The items behind the removed one are moved down. -/
theorem remove_later (placement : Placement this items skipped spare id front back)
    (lengths : ∀ item ∈ items, item.length = this.itemSize) (inside : listIdx < items.length)
    (listSize : Nat) :
    ∃ heap, this.heap.move (itemPtr this listIdx) (itemPtr this (listIdx + 1))
        ((items.length - 1 - listIdx) * this.itemSize) = .ok heap ∧
      Placed { this with listSize := listSize, heap := heap } (items.eraseIdx listIdx) skipped
        (spare + 1) := by
  have length : items[listIdx].length = this.itemSize := lengths _ (List.getElem_mem inside)
  have behind : (items.drop (listIdx + 1)).flatten.length =
      (items.length - 1 - listIdx) * this.itemSize := by
    rw [length_flatten fun item mem => lengths item (List.mem_of_mem_drop mem), List.length_drop,
      Nat.sub_sub, Nat.add_comm 1]
  have block := placement_split placement listIdx
  rw [List.drop_eq_getElem_cons inside, List.flatten_cons, ← List.append_assoc] at block
  obtain ⟨left, same, moved⟩ := Heap.move_down block
  rw [behind, length, length_before lengths inside.le, Nat.add_assoc, ← Nat.add_one_mul,
    ← itemPtr_eq placement, ← itemPtr_eq placement] at moved
  refine ⟨_, moved, id, front, left ++ back, placement.alloc, placement.list, ?_, placement.front,
    ?_, ?_⟩
  · rw [List.eraseIdx_eq_take_drop_succ, List.flatten_append, ← List.append_assoc,
      ← List.append_assoc]
    exact Heap.set_block_self
  · rw [List.length_append, same, length, placement.back, Nat.add_one_mul, Nat.add_comm]
  · have total := placement.total
    rw [List.length_eraseIdx_of_lt inside]
    change _ = this.listSizeMax
    omega

theorem lstRemoveIdx_spec (inv : Inv this items) (inside : listIdx < this.listSize) :
    ∃ next, lstRemoveIdx this listIdx = .ok next ∧ next.comparator = this.comparator ∧
      Inv next (items.eraseIdx listIdx) := by
  obtain ⟨-, empty⟩ | ⟨some, skipped, spare, id, front, back, placement⟩ := inv.placed
  · rw [inv.size, empty] at inside
    cases inside
  have total := placement.total
  have size := inv.size
  have max := inv.max
  rw [size] at inside
  have count : uint (this.listSize + (2 ^ 32 - 1)) = items.length - 1 := by
    rw [uint_pred (by omega) (by omega), size]
  have left : items.length - 1 = (items.eraseIdx listIdx).length :=
    (List.length_eraseIdx_of_lt inside).symm
  have sub := List.eraseIdx_sublist items listIdx
  have lengths : ∀ item ∈ items.eraseIdx listIdx, item.length = this.itemSize :=
    fun item mem => inv.lengths item (sub.subset mem)
  have ordered := ordered_sublist inv.ordered sub
  rw [lstRemoveIdx, count]
  by_cases first : listIdx = 0
  · subst first
    obtain ⟨item, rest, shape⟩ := List.exists_cons_of_length_pos inside
    have placed := remove_first placement inv.lengths shape (items.length - 1)
    have erased : items.eraseIdx 0 = rest := by rw [shape, List.eraseIdx_cons_zero]
    rw [erased] at left lengths ordered ⊢
    rw [if_pos rfl]
    exact ⟨_, rfl, rfl, left, lengths, max, ordered, Or.inr ⟨some, _, _, placed⟩⟩
  · obtain ⟨heap, moved, placed⟩ :=
      remove_later placement inv.lengths inside (items.length - 1)
    rw [if_neg first, moved]
    exact ⟨_, rfl, rfl, left, lengths, max, ordered, Or.inr ⟨some, _, _, placed⟩⟩

end Remove

section Read
variable {this : CList} {items : List Bytes} {item : Bytes} {id listIdx : Nat} {back : Bytes}

theorem readItems_eq {heap : Heap} {itemSize : Nat} {front : Bytes}
    (lengths : ∀ item ∈ items, item.length = itemSize)
    (block : heap.block id = some (front ++ items.flatten ++ back)) :
    readItems heap itemSize items.length (some ⟨id, front.length⟩) = .ok items := by
  induction items generalizing front with
  | nil => rfl
  | cons item items ih =>
    rw [List.forall_mem_cons] at lengths
    rw [List.flatten_cons, ← List.append_assoc] at block
    have rest := ih lengths.2 block
    rw [List.append_assoc _ items.flatten] at block
    have first := Heap.read_append block
    rw [List.length_append] at rest
    rw [lengths.1] at first rest
    rw [List.length_cons, readItems, first]
    have next : (some (Pointer.mk id front.length)).map (·.add itemSize) =
        some ⟨id, front.length + itemSize⟩ := rfl
    rw [next, rest]

theorem items_eq (inv : Inv this items) : TypeList.items this = .ok items := by
  rw [TypeList.items, inv.size]
  obtain ⟨-, empty⟩ | ⟨-, skipped, spare, id, front, back, placement⟩ := inv.placed
  · rw [empty]
    rfl
  · rw [placement.list]
    exact readItems_eq inv.lengths placement.block

theorem lstFind_spec (std : StandardLibrary Bytes) (inv : Inv this items) (item : Bytes) :
    ∃ listIdx, lstFind std this item = .ok listIdx ∧ Finds this.comparator item items listIdx := by
  have ordered := inv.ordered
  rw [lstFind, items_eq inv]
  cases order : this.sortOrder with
  | sortOrderNone => exact ⟨_, rfl, linearSearch_finds this.comparator item items⟩
  | sortOrderAsc =>
    rw [order] at ordered
    exact ⟨_, rfl, std.bsearch_finds this.comparator item items ordered⟩
  | sortOrderDesc =>
    rw [order] at ordered
    exact ⟨_, rfl, finds_desc (std.bsearch_finds this.comparator.desc item items ordered)⟩

theorem lstGet_spec (inv : Inv this items) (inside : listIdx < this.listSize) :
    ∃ item, lstGet this listIdx = .ok item ∧ items[listIdx]? = some item := by
  obtain ⟨-, empty⟩ | ⟨some, skipped, spare, id, front, back, placement⟩ := inv.placed
  · rw [inv.size, empty] at inside
    cases inside
  have place : listIdx < items.length := inv.size ▸ inside
  have length : items[listIdx].length = this.itemSize := inv.lengths _ (List.getElem_mem place)
  have block := placement_split placement listIdx
  rw [List.drop_eq_getElem_cons place, List.flatten_cons, ← List.append_assoc,
    List.append_assoc _ (List.flatten _) back] at block
  have read := Heap.read_append block
  rw [length_before inv.lengths place.le, ← itemPtr_eq placement, length] at read
  refine ⟨items[listIdx], ?_, List.getElem?_eq_getElem place⟩
  rw [lstGet, if_neg (by omega), read]
  rfl

end Read

section Sorting
variable {this : CList} {items : List Bytes}

theorem sortItems_spec (std : StandardLibrary Bytes) (inv : Inv this items)
    (comparator : Comparator Bytes) :
    ∃ heap items', sortItems std this comparator.compare = .ok { this with heap := heap } ∧
      items'.Perm items ∧ comparator.Sorted items' ∧ Located { this with heap := heap } items' := by
  rw [sortItems, items_eq inv]
  cases shape : items with
  | nil =>
    have placed := inv.placed
    rw [shape] at placed
    exact ⟨this.heap, [], rfl, .refl _, comparator.sorted_nil, placed⟩
  | cons item rest =>
    obtain ⟨-, empty⟩ | ⟨some, skipped, spare, id, front, back, placement⟩ := inv.placed
    · rw [shape] at empty
      cases empty
    rw [← shape]
    have perm := std.qsort_perm comparator items
    have lengths : ∀ item ∈ std.qsort comparator.compare items, item.length = this.itemSize :=
      fun item mem => inv.lengths item (perm.mem_iff.mp mem)
    have same : (std.qsort comparator.compare items).flatten.length = items.flatten.length := by
      rw [length_flatten lengths, length_flatten inv.lengths, perm.length_eq]
    have written := Heap.write_append placement.block same
    refine ⟨this.heap.set id (front ++ (std.qsort comparator.compare items).flatten ++ back),
      std.qsort comparator.compare items, ?_, perm, std.qsort_sorted comparator items,
      Or.inr ⟨some, skipped, spare, id, front, back, placement.alloc, placement.list,
        Heap.set_block_self, placement.front, placement.back, ?_⟩⟩
    · rw [← placement.list] at written
      rw [shape] at written ⊢
      dsimp only
      rw [written]
    · rw [perm.length_eq]
      exact placement.total

theorem inv_sorted (inv : Inv this items) {items' : List Bytes} {heap : Heap}
    (perm : items'.Perm items) (order : SortOrder) (ordered : Ordered this.comparator items' order)
    (placed : Located { this with heap := heap } items') :
    Inv { this with heap := heap, sortOrder := order } items' :=
  ⟨inv.size.trans perm.length_eq.symm, fun item mem => inv.lengths item (perm.mem_iff.mp mem),
    inv.max, ordered, placed.congr rfl rfl rfl rfl rfl⟩

theorem lstSort_spec (std : StandardLibrary Bytes) (inv : Inv this items) (order : SortOrder) :
    ∃ next items', lstSort std this order = .ok next ∧ next.comparator = this.comparator ∧
      Sequence this items (.lstSort order) .nothing items' ∧ Inv next items' := by
  cases order with
  | sortOrderNone =>
    exact ⟨_, items, rfl, rfl, rfl, inv_sorted inv (.refl _) .sortOrderNone trivial inv.placed⟩
  | sortOrderAsc =>
    obtain ⟨heap, items', sorted, perm, ordered, placed⟩ := sortItems_spec std inv this.comparator
    refine ⟨{ this with heap := heap, sortOrder := .sortOrderAsc }, items', ?_, rfl,
      ⟨perm, ordered⟩, inv_sorted inv perm .sortOrderAsc ordered placed⟩
    rw [lstSort, sorted]
    rfl
  | sortOrderDesc =>
    obtain ⟨heap, items', sorted, perm, ordered, placed⟩ :=
      sortItems_spec std inv this.comparator.desc
    refine ⟨{ this with heap := heap, sortOrder := .sortOrderDesc }, items', ?_, rfl,
      ⟨perm, ordered⟩, inv_sorted inv perm .sortOrderDesc ordered placed⟩
    rw [lstSort, sorted]
    rfl

theorem lstClear_spec (inv : Inv this items) (safe : Safe this .lstClear) :
    ∃ next, lstClear this = .ok next ∧ next.comparator = this.comparator ∧ Inv next [] := by
  have ordered := ordered_sublist inv.ordered (List.nil_sublist items)
  obtain ⟨none, empty⟩ | ⟨some, skipped, spare, id, front, back, placement⟩ := inv.placed
  · rcases safe with null | ⟨-, some⟩
    · rw [empty] at inv
      exact ⟨this, by rw [lstClear, if_pos null], rfl, inv⟩
    · omega
  · have start : this.list = Option.some ⟨id, 0⟩ := by
      rcases safe with null | ⟨start, -⟩
      · rw [placement.list] at null
        cases null
      · exact start.trans placement.alloc
    have freed := Heap.free_start placement.block
    refine ⟨{ this with listSize := 0, listSizeMax := 0, heap := this.heap.release id }, ?_, rfl,
      rfl, by simp, (by decide : 0 < 2 ^ 32), ordered, Or.inl ⟨rfl, rfl⟩⟩
    rw [lstClear, start, if_neg (by simp), freed]

end Sorting

section Run
variable {std : StandardLibrary Bytes} {this : CList} {items : List Bytes}

theorem call_spec (inv : Inv this items) (request : Call) (inRange : InRange this request)
    (safe : Safe this request) :
    ∃ reply next items', call std this request = .ok (reply, next) ∧
      Sequence this items request reply items' ∧ Inv next items' := by
  cases request with
  | lstInsert listIdx item =>
    obtain ⟨inside, bytes, holds⟩ := inRange
    obtain ⟨next, run, -, inv'⟩ := lstInsert_spec inv safe.1 safe.2 inside holds
    exact ⟨.nothing, next, _, by rw [call, run]; rfl, ⟨bytes, holds, rfl⟩, inv'⟩
  | lstAdd item =>
    obtain ⟨bytes, holds⟩ := inRange
    obtain ⟨next, run, -, inv'⟩ := lstInsert_spec inv safe.1 safe.2 le_rfl holds
    rw [inv.size, List.take_length, List.drop_length] at inv'
    exact ⟨.nothing, next, _, by rw [call, lstAdd, run]; rfl, ⟨bytes, holds, rfl⟩, inv'⟩
  | lstRemoveIdx listIdx =>
    obtain ⟨next, run, -, inv'⟩ := lstRemoveIdx_spec inv inRange
    exact ⟨.nothing, next, _, by rw [call, run]; rfl, rfl, inv'⟩
  | lstRemove item =>
    obtain ⟨found, run, finds⟩ := lstFind_spec std inv item
    cases found with
    | none =>
      exact ⟨.removed false, this, items, by rw [call, lstRemove, run]; rfl, ⟨finds, rfl⟩, inv⟩
    | some listIdx =>
      have inside : listIdx < this.listSize := by
        obtain ⟨other, place, -⟩ := finds
        rw [inv.size]
        exact (List.getElem?_eq_some_iff.mp place).1
      obtain ⟨next, removed, -, inv'⟩ := lstRemoveIdx_spec inv inside
      refine ⟨.removed true, next, _, ?_, ⟨listIdx, finds, rfl⟩, inv'⟩
      rw [call, lstRemove, run]
      dsimp only
      rw [removed]
      rfl
  | lstSort sortOrder =>
    obtain ⟨next, items', run, -, sequence, inv'⟩ := lstSort_spec std inv sortOrder
    exact ⟨.nothing, next, items', by rw [call, run]; rfl, sequence, inv'⟩
  | lstClear =>
    obtain ⟨next, run, -, inv'⟩ := lstClear_spec inv safe
    exact ⟨.nothing, next, [], by rw [call, run]; rfl, rfl, inv'⟩
  | lstGet listIdx =>
    obtain ⟨item, run, place⟩ := lstGet_spec inv inRange
    exact ⟨.item item, this, items, by rw [call, run]; rfl, ⟨place, rfl⟩, inv⟩
  | lstFind item =>
    obtain ⟨found, run, finds⟩ := lstFind_spec std inv item
    exact ⟨.found found, this, items, by rw [call, run]; rfl, ⟨finds, rfl⟩, inv⟩
  | lstComparatorSet comparator =>
    exact ⟨.nothing, _, items, rfl, rfl, inv.size, inv.lengths, inv.max, trivial,
      inv.placed.congr rfl rfl rfl rfl rfl⟩

theorem behaves_of_inv {requests : List Call} (inv : Inv this items)
    (safe : SafeRun std this requests) : Behaves std this items requests := by
  induction requests generalizing this items with
  | nil => exact inv.represents
  | cons request requests ih =>
    refine ⟨inv.represents, fun inRange => ?_⟩
    obtain ⟨now, later⟩ := safe inRange
    obtain ⟨reply, next, items', run, sequence, inv'⟩ := call_spec inv request inRange now
    exact ⟨reply, next, items', run, sequence, ih inv' (later reply next run)⟩

/-- A list whose calls are safe behaves as a sequence in its block. -/
theorem list_behaves (std : StandardLibrary Bytes) (itemSize : Nat) (positive : 0 < itemSize)
    (comparator : Comparator Bytes) (sortOrder : SortOrder) (heap : Heap) (requests : List Call)
    (safe : SafeRun std (lstNew itemSize positive comparator sortOrder heap) requests) :
    Behaves std (lstNew itemSize positive comparator sortOrder heap) [] requests :=
  behaves_of_inv (inv_new positive comparator sortOrder heap) safe

end Run

section Instance

def firstByte (item : Bytes) : Int := (item.headD 0).toNat

def byteComparator : Comparator Bytes where
  compare a b := firstByte a - firstByte b
  swap a b := by omega
  trans first second := by omega

def byteList : CList := lstNew 1 Nat.one_pos byteComparator .sortOrderNone (Heap.empty fun _ => 0)

theorem byteList_behaves : Behaves (mergeLibrary Bytes) byteList []
    [.lstAdd (.outside [2]), .lstAdd (.inside ⟨0, 0⟩), .lstInsert 1 (.outside [1]), .lstFind [1],
      .lstRemoveIdx 1, .lstClear] := by
  apply list_behaves
  intro _
  refine ⟨⟨fun _ => by decide, trivial⟩, ?_⟩
  intro reply next run
  cases run
  intro _
  refine ⟨⟨fun full => absurd full (by decide), by decide, Or.inr ⟨by decide, by decide⟩⟩, ?_⟩
  intro reply next run
  cases run
  intro _
  refine ⟨⟨fun full => absurd full (by decide), trivial⟩, ?_⟩
  intro reply next run
  cases run
  intro _
  refine ⟨trivial, ?_⟩
  intro reply next run
  cases run
  intro _
  refine ⟨trivial, ?_⟩
  intro reply next run
  cases run
  intro _
  exact ⟨Or.inr ⟨rfl, by decide⟩, fun _ _ _ => trivial⟩

theorem Behaves.next {std : StandardLibrary Bytes} {this next : CList} {items : List Bytes}
    {request : Call} {requests : List Call} {reply : Reply}
    (behaves : Behaves std this items (request :: requests)) (inRange : InRange this request)
    (run : call std this request = .ok (reply, next)) :
    ∃ items', Sequence this items request reply items' ∧ Behaves std next items' requests := by
  obtain ⟨reply', next', items', run', sequence, later⟩ := behaves.2 inRange
  rw [run] at run'
  cases run'
  exact ⟨items', sequence, later⟩

theorem inRange_lstAdd {this : CList} {byte : UInt8} (one : this.itemSize = 1) :
    InRange this (.lstAdd (.outside [byte])) :=
  ⟨[byte], one.symm, rfl⟩

/-- The list is cleared after its first item was removed, or it is cleared again, or an item of the
list is inserted before itself, or added when the list is full. -/
theorem byteList_faults :
    ¬ Behaves (mergeLibrary Bytes) byteList []
      [.lstAdd (.outside [1]), .lstRemoveIdx 0, .lstClear] ∧
    ¬ Behaves (mergeLibrary Bytes) byteList [] [.lstAdd (.outside [1]), .lstClear, .lstClear] ∧
    ¬ Behaves (mergeLibrary Bytes) byteList []
      [.lstAdd (.outside [1]), .lstAdd (.outside [2]), .lstInsert 0 (.inside ⟨0, 1⟩)] ∧
    ¬ Behaves (mergeLibrary Bytes) byteList []
      (List.replicate 8 (.lstAdd (.outside [1])) ++ [.lstAdd (.inside ⟨0, 0⟩)]) := by
  refine ⟨?_, ?_, ?_, ?_⟩
  · intro behaves
    obtain ⟨items, -, behaves⟩ := behaves.next (inRange_lstAdd rfl) rfl
    obtain ⟨items, -, behaves⟩ := behaves.next (by decide : 0 < 1) rfl
    obtain ⟨reply, next, items, run, -⟩ := behaves.2 trivial
    cases run
  · intro behaves
    obtain ⟨items, -, behaves⟩ := behaves.next (inRange_lstAdd rfl) rfl
    obtain ⟨items, -, behaves⟩ := behaves.next trivial rfl
    obtain ⟨reply, next, items, run, -⟩ := behaves.2 trivial
    cases run
  · intro behaves
    obtain ⟨items, -, behaves⟩ := behaves.next (inRange_lstAdd rfl) rfl
    obtain ⟨items, -, behaves⟩ := behaves.next (inRange_lstAdd rfl) rfl
    obtain ⟨items, ⟨bytes, holds, inserted⟩, behaves⟩ :=
      behaves.next ⟨Nat.zero_le _, [2], rfl, rfl, rfl⟩ rfl
    -- The item that is passed is 2, and the block holds 1, 1 and 2.
    have passed := holds.2.2
    cases passed
    obtain ⟨ptr, block, list, live, -, stored⟩ := behaves.inside (inserted ▸ by simp)
    cases list
    cases live
    rw [inserted] at stored
    cases stored
  · intro behaves
    iterate 8 obtain ⟨items, -, behaves⟩ := behaves.next (inRange_lstAdd rfl) rfl
    -- The block was resized before the item is copied.
    obtain ⟨reply, next, items, run, -⟩ := behaves.2 ⟨[1], rfl, rfl, rfl⟩
    cases run

end Instance

end TypeList
