import TestLinux.Library.Runs
import TestLinux.Library.LinkedList
import TestLinux.Library.CString
import Mathlib.Data.List.FinRange

/-!
# The contact book of `test2/contacts.cpp`

`Node.insert`, `Node.remove`, `Node.search` and `Node.contains` are the static member functions of
`Node<T>`, on a heap of nodes; they are given the reference parameter `first` and return its new
value. `Person` is a pair of arrays of sixteen bytes, and the functions that compare such arrays go
through `strcmp`. `insertEntry`, `deleteEntry`, `searchEntry` and `loadEntry` are the functions of
the menu, given the lines that they read from `std::cin` and the contents of the file they open.

Every function is partial: it has no result when the source would follow a pointer to a node that is
not live, read behind the end of an array, or walk around a cycle. `new` returns the address that an
`Allocator` chooses, any address without a live node; each call brings its own, so that a run over
calls covers every choice of addresses.

The counter is a natural number, since a book of `2 ^ 64` nodes does not fit into memory. The checks
of `cts` against null are left out, since the menu passes the one book that it has created.
-/

set_option autoImplicit false
set_option relaxedAutoImplicit false

namespace TestLinux.ContactBook

open TestLinux.LinkedList TestLinux.CString

/-! ### `Node<T>` -/

section Node

variable {α : Type}

/-- `Node<T>::insert`: the return value, the new `first` and the heap. -/
def Node.insert (item first : Option ℕ) (heap : Heap α) : Option (ℤ × Option ℕ × Heap α) :=
  match item with
  | none => some (-1, first, heap)
  | some addr =>
    match first with
    | none => do
      let heap ← heap.setNext addr none
      let heap ← heap.setPrev addr none
      return (0, some addr, heap)
    | some front => do
      let heap ← heap.setNext addr (some front)
      let heap ← heap.setPrev addr none
      let heap ← heap.setPrev front (some addr)
      return (0, some addr, heap)

/-- `Node<T>::contains`. -/
def Node.contains (item first : Option ℕ) (heap : Heap α) : Option Bool :=
  if first = none ∨ item = none then some false
  else (walk heap (fun addr _ ↦ some (some addr == item)) heap.size first).map Option.isSome

/-- `Node<T>::search`, given the comparison of the data. -/
def Node.search (equal : α → α → Option Bool) (target : α) (first : Option ℕ) (heap : Heap α) :
    Option Bool :=
  if first = none then some false
  else (walk heap (fun _ data ↦ equal target data) heap.size first).map Option.isSome

/-- `Node<T>::remove` behind the test for membership. Each access to a field of the node reads the
heap as the assignments before have left it. -/
def Node.unlink (addr : ℕ) (first : Option ℕ) (heap : Heap α) : Option (ℤ × Option ℕ × Heap α) := do
  let node ← heap.get addr
  let heap ← heap.linkNext node.prev node.next
  let node ← heap.get addr
  let heap ← heap.linkPrev node.next node.prev
  let node ← heap.get addr
  let first := if some addr = first then node.next else first
  let heap ← heap.setNext addr none
  let heap ← heap.setPrev addr none
  return (0, first, heap)

/-- `Node<T>::remove`: the return value, the new `first` and the heap. -/
def Node.remove (item first : Option ℕ) (heap : Heap α) : Option (ℤ × Option ℕ × Heap α) :=
  (Node.contains item first heap).bind fun found ↦
    match found, item with
    | true, some addr => Node.unlink addr first heap
    | _, _ => some (-1, first, heap)

end Node

/-! ### Persons -/

/-- An array of `LENGTH_NAME` or `LENGTH_PHONE` bytes. -/
structure Field where
  bytes : List UInt8
  length_eq : bytes.length = 16
  deriving DecidableEq

/-- `strncpy` of a typed line into a field, and the terminator behind it. -/
def Field.typed (text : List UInt8) : Field where
  bytes := strncpy text 15 ++ [0]
  length_eq := by rw [List.length_append, length_strncpy]; rfl

/-- `Person`. -/
structure Person where
  name : Field
  phone : Field
  deriving DecidableEq

/-- `Person::operator==`. -/
def Person.equal (person other : Person) : Option Bool :=
  (strcmp person.name.bytes other.name.bytes).bind fun names ↦
    if names = 0 then
      (strcmp person.phone.bytes other.phone.bytes).map fun phones ↦ phones == 0
    else some false

/-- The person in the 32 bytes of a record. -/
def Person.ofBytes (bytes : List UInt8) (hlength : bytes.length = 32) : Person where
  name := ⟨bytes.take 16, by rw [List.length_take, hlength]; rfl⟩
  phone := ⟨bytes.drop 16, by rw [List.length_drop, hlength]⟩

/-- `person_insert`. -/
def personInsert (item first : Option ℕ) (heap : Heap Person) :
    Option (ℤ × Option ℕ × Heap Person) :=
  if item = none then some (-1, first, heap) else Node.insert item first heap

/-- `person_delete`. -/
def personDelete (item first : Option ℕ) (heap : Heap Person) :
    Option (ℤ × Option ℕ × Heap Person) :=
  if item = none then some (-1, first, heap) else Node.remove item first heap

/-- `person_name_search`. -/
def personNameSearch (name : Field) (first : Option ℕ) (heap : Heap Person) :
    Option (Option ℕ) :=
  walk heap (fun _ person ↦ (strcmp person.name.bytes name.bytes).map fun order ↦ order == 0)
    heap.size first

/-! ### The book -/

/-- `Contacts`. -/
structure Contacts where
  data : Option ℕ
  count : ℕ

/-- The book and the live nodes. -/
structure World where
  cts : Contacts
  heap : Heap Person

/-- `new Contacts()`. -/
def World.empty : World := ⟨⟨none, 0⟩, .empty⟩

/-- What `new PNode()` returns: an address without a live node. -/
structure Allocator where
  choose : Heap Person → ℕ
  fresh : ∀ heap : Heap Person, heap.get (choose heap) = none

/-- `insert_entry` with the two lines typed. -/
def insertEntry (alloc : Allocator) (nameTmp phoneTmp : List UInt8) (world : World) :
    Option (ℤ × World) := do
  let person : Person := ⟨.typed nameTmp, .typed phoneTmp⟩
  let item := alloc.choose world.heap
  let heap := world.heap.set item ⟨person, none, none⟩
  if ← Node.search Person.equal person world.cts.data heap then
    return (-4, ⟨world.cts, heap.free item⟩)
  else
    let (flag, first, heap) ← personInsert (some item) world.cts.data heap
    if flag ≠ 0 then return (-3, ⟨world.cts, heap.free item⟩)
    else return (0, ⟨⟨first, world.cts.count + 1⟩, heap⟩)

/-- `delete_entry` with the line typed. -/
def deleteEntry (nameTmp : List UInt8) (world : World) : Option (ℤ × World) := do
  match ← personNameSearch (.typed nameTmp) world.cts.data world.heap with
  | none => return (-2, world)
  | some addr =>
    let (flag, first, heap) ← personDelete (some addr) world.cts.data world.heap
    if flag ≠ 0 then return (-3, ⟨⟨first, world.cts.count⟩, heap⟩)
    else return (0, ⟨⟨first, world.cts.count - 1⟩, heap.free addr⟩)

/-- `search_entry` with the line typed. -/
def searchEntry (nameTmp : List UInt8) (world : World) : Option (ℤ × World) := do
  match ← personNameSearch (.typed nameTmp) world.cts.data world.heap with
  | none => return (-2, world)
  | some _ => return (0, world)

/-! ### Files -/

/-- The whole records of a file. -/
def records (bytes : List UInt8) : List Person :=
  (List.finRange (bytes.length / 32)).map fun i : Fin (bytes.length / 32) ↦
    Person.ofBytes ((bytes.drop (32 * i.val)).take 32) (by
      have hindex := i.isLt
      rw [List.length_take, List.length_drop]
      omega)

/-- What the calls of `fread` in `load_file` deliver, up to the one that delivers nothing: 64
records at a time, and the rest. -/
def freadBatches (people : List Person) : List (List Person) :=
  (List.range ((people.length + 63) / 64)).map fun i ↦ (people.drop (64 * i)).take 64

/-- The inner loop of `load_file`, over the records of one `fread`. -/
def loadBatch (alloc : Allocator) : List Person → World → Option World
  | [], world => some world
  | person :: rest, world => do
    let item := alloc.choose world.heap
    let heap := world.heap.set item ⟨person, none, none⟩
    let (flag, first, heap) ← personInsert (some item) world.cts.data heap
    if flag = 0 then loadBatch alloc rest ⟨⟨first, world.cts.count + 1⟩, heap⟩
    else loadBatch alloc rest ⟨⟨first, world.cts.count⟩, heap.free item⟩

/-- The outer loop of `load_file`, over the calls of `fread`; it ends with a call that delivers
nothing. -/
def loadBatches (alloc : Allocator) : List (List Person) → World → Option World
  | [], world => some world
  | batch :: rest, world =>
    if batch.length = 0 then some world
    else (loadBatch alloc batch world).bind (loadBatches alloc rest)

/-- `load_file`. There are no contents when `fopen` fails. -/
def loadFile (alloc : Allocator) (file : Option (List UInt8)) (world : World) :
    Option (ℤ × World) :=
  match file with
  | none => some (-1, world)
  | some bytes =>
    (loadBatches alloc (freadBatches (records bytes)) world).map fun loaded ↦ (0, loaded)

/-- `load_entry`. -/
def loadEntry (alloc : Allocator) (file : Option (List UInt8)) (world : World) :
    Option (ℤ × World) := do
  let (flag, world) ← loadFile alloc file world
  if flag ≠ 0 then return (-2, world) else return (0, world)

/-! ### Runs -/

/-- The calls that the menu makes on the book, with what they read. -/
inductive Call
  | insertEntry (alloc : Allocator) (nameTmp phoneTmp : List UInt8)
  | deleteEntry (nameTmp : List UInt8)
  | searchEntry (nameTmp : List UInt8)
  | loadEntry (alloc : Allocator) (file : Option (List UInt8))

/-- The return value of a call, and the book after it. -/
def call (world : World) : Call → Option (ℤ × World)
  | .insertEntry alloc nameTmp phoneTmp => insertEntry alloc nameTmp phoneTmp world
  | .deleteEntry nameTmp => deleteEntry nameTmp world
  | .searchEntry nameTmp => searchEntry nameTmp world
  | .loadEntry alloc file => loadEntry alloc file world

/-- One call of a run. -/
def step (world : World) (event : Call) : Option World := (call world event).map Prod.snd

end TestLinux.ContactBook
