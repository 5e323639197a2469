import TestLinux.ContactBook.Files

/-!
# Equal entries in the contact book

Of the functions that add entries only `insert_entry` looks for an equal one first. `DuplicateFree`
says that no two persons of a list are equal for `Person::operator==`, and `duplicateFree_iff` that
this is a book of pairwise different pairs of strings. `Book.call_nodup` is then a fact about such
books: the functions other than `load_entry` keep them free of duplicates, and `nodup_load_iff` says
when `load_entry` does.

`contacts_duplicate_free` brings both back to the nodes, for runs in which the book is also saved.
-/

set_option autoImplicit false
set_option relaxedAutoImplicit false

namespace TestLinux.ContactBook

open TestLinux.Runs TestLinux.LinkedList

/-! ### Saving between the calls -/

/-- The calls of the menu, with `save_entry`. -/
inductive Operation
  | call (event : Call)
  | saveEntry (disk : Disk)

/-- One operation of a run; saving leaves the book as it is. -/
def operate (world : World) : Operation → Option World
  | .call event => step world event
  | .saveEntry disk => (saveEntry disk world).map fun _ ↦ world

/-- The operations other than `load_entry`. -/
def Operation.KeepsFilesOut : Operation → Prop
  | .call (.loadEntry _ _) => False
  | .call _ => True
  | .saveEntry _ => True

/-- The loop of `save_file` comes to an end on every list, whatever `fwrite` does. -/
theorem exists_saveLoop_eq {disk : Disk} {heap : Heap Person} {previous first last : Option ℕ}
    {nodes : List (ℕ × Person)} {fuel : ℕ} {writer : Writer}
    (hsegment : Segment heap previous first nodes last none) (hfuel : nodes.length ≤ fuel) :
    ∃ result, saveLoop disk heap fuel first writer = some result := by
  induction nodes generalizing previous first fuel writer with
  | nil =>
    obtain ⟨-, rfl⟩ := hsegment
    rw [saveLoop]
    dsimp only
    split_ifs with hpending hcount
    · exact ⟨_, rfl⟩
    · exact ⟨_, rfl⟩
    · exact ⟨_, rfl⟩
  | cons node rest ih =>
    obtain ⟨rfl, next, hnode, hrest⟩ := hsegment
    obtain ⟨fuel, rfl⟩ : ∃ less, fuel = less + 1 :=
      Nat.exists_eq_succ_of_ne_zero (Nat.ne_of_gt (Nat.lt_of_lt_of_le (Nat.succ_pos _) hfuel))
    rw [saveLoop, hnode, Option.bind_some]
    dsimp only
    split_ifs with hfull hcount
    · exact ⟨_, rfl⟩
    · exact ih hrest (Nat.le_of_succ_le_succ hfuel)
    · exact ih hrest (Nat.le_of_succ_le_succ hfuel)

theorem Stores.operate_saveEntry {world : World} {nodes : List (ℕ × Person)} {book : Book}
    (hworld : Stores world nodes book) (disk : Disk) :
    operate world (.saveEntry disk) = some world := by
  obtain ⟨last, hsegment⟩ := hworld.linked.segment
  have hsize := Heap.length_le_size hworld.linked.nodup fun _ haddr ↦
    hworld.linked.get_ne_none haddr
  rw [addresses, List.length_map] at hsize
  obtain ⟨result, hsave⟩ : ∃ result,
      saveLoop disk world.heap world.heap.size world.cts.data ⟨[], 0, []⟩ = some result :=
    exists_saveLoop_eq hsegment hsize
  rw [operate, saveEntry, saveFile]
  split_ifs with hopens
  · rw [hsave]
    rfl
  · rfl

/-! ### Books without duplicates -/

/-- `Person::operator==` finds the two different. -/
def Person.Unequal (person other : Person) : Prop := person.equal other = some false
  deriving Decidable

/-- No two persons of the list are equal. -/
def DuplicateFree (people : List Person) : Prop := people.Pairwise Person.Unequal

theorem Person.unequal_iff {person other : Person} (hperson : person.Terminated)
    (hother : other.Terminated) : person.Unequal other ↔ person.entry ≠ other.entry := by
  rw [Person.Unequal, Person.equal_eq hperson hother, Option.some.injEq, beq_eq_false_iff_ne]
  exact ne_comm

/-- Persons with terminated arrays differ pairwise if their entries do. -/
theorem duplicateFree_iff {people : List Person}
    (hpeople : ∀ person ∈ people, person.Terminated) :
    DuplicateFree people ↔ (people.map Person.entry).Nodup := by
  rw [DuplicateFree, List.Nodup, List.pairwise_map]
  exact List.Pairwise.iff_of_mem fun hperson hother ↦
    Person.unequal_iff (hpeople _ hperson) (hpeople _ hother)

theorem Stores.duplicateFree_iff_nodup {world : World} {nodes : List (ℕ × Person)} {book : Book}
    (hworld : Stores world nodes book) : DuplicateFree (nodes.map Prod.snd) ↔ book.Nodup := by
  have hpeople : ∀ person ∈ nodes.map Prod.snd, person.Terminated := by
    intro person hmem
    obtain ⟨node, hnode, rfl⟩ := List.mem_map.mp hmem
    exact hworld.terminated node hnode
  rw [duplicateFree_iff hpeople, List.map_map, ← hworld.entries]
  rfl

/-- The calls other than `load_entry` keep a book free of duplicates. -/
theorem Book.call_nodup {book : Book} {event : Call} (hbook : book.Nodup)
    (hevent : (Operation.call event).KeepsFilesOut) : (book.call event).2.Nodup := by
  cases event with
  | insertEntry alloc nameTmp phoneTmp =>
    rw [Book.call]
    split_ifs with hmem
    · exact hbook
    · exact List.nodup_cons.mpr ⟨hmem, hbook⟩
  | deleteEntry nameTmp =>
    rw [Book.call]
    split_ifs with hany
    · exact hbook.sublist List.eraseP_sublist
    · exact hbook
  | searchEntry nameTmp =>
    rw [Book.call]
    split_ifs with hany
    · exact hbook
    · exact hbook
  | loadEntry alloc file => exact absurd hevent id

theorem Book.load_eq (book : Book) (people : List Person) :
    book.load people = (people.map Person.entry).reverse ++ book := by
  induction people generalizing book with
  | nil => rfl
  | cons person rest ih =>
    rw [Book.load, List.foldl_cons, ← Book.load, ih, List.map_cons, List.reverse_cons,
      List.append_assoc, List.singleton_append]

/-- Loading keeps a book free of duplicates exactly if the records are, and none of them is in the
book. -/
theorem Book.nodup_load_iff {book : Book} (hbook : book.Nodup) (people : List Person) :
    (book.load people).Nodup ↔
      (people.map Person.entry).Nodup ∧ ∀ person ∈ people, person.entry ∉ book := by
  rw [Book.load_eq, List.nodup_append', List.nodup_reverse, List.disjoint_reverse_left]
  constructor
  · rintro ⟨hpeople, -, hdisjoint⟩
    exact ⟨hpeople, fun person hperson ↦ hdisjoint (List.mem_map_of_mem hperson)⟩
  · rintro ⟨hpeople, hdisjoint⟩
    refine ⟨hpeople, hbook, fun entry hentry ↦ ?_⟩
    obtain ⟨person, hperson, rfl⟩ := List.mem_map.mp hentry
    exact hdisjoint person hperson

/-! ### The nodes -/

/-- The nodes are a list of persons with terminated arrays, no two of them equal. -/
def NoDuplicates (world : World) : Prop :=
  ∃ nodes book, Stores world nodes book ∧ DuplicateFree (nodes.map Prod.snd)

theorem operate_noDuplicates (world : World) (operation : Operation)
    (hworld : NoDuplicates world) (hoperation : operation.KeepsFilesOut) :
    ∃ next, operate world operation = some next ∧ NoDuplicates next := by
  obtain ⟨nodes, book, hstores, hfree⟩ := hworld
  cases operation with
  | saveEntry disk =>
    exact ⟨world, hstores.operate_saveEntry disk, nodes, book, hstores, hfree⟩
  | call event =>
    have hterminated : event.Terminated := by
      cases event with
      | loadEntry alloc file => exact absurd hoperation id
      | _ => trivial
    obtain ⟨next, nodes', hcall, hnext, -⟩ := call_spec hstores hterminated
    refine ⟨next, ?_, nodes', _, hnext, ?_⟩
    · rw [operate, step, hcall, Option.map_some]
    · rw [hnext.duplicateFree_iff_nodup]
      exact Book.call_nodup (hstores.duplicateFree_iff_nodup.mp hfree) hoperation

/-- When `load_entry` keeps the persons different. Assumes: each record of the file holds a NUL in
its name and in its phone number. -/
theorem loadEntry_noDuplicates_iff {world : World} {people : List Person} (alloc : Allocator)
    {bytes : List UInt8} (hworld : NoDuplicates world) (hpeople : Holds world people)
    (hrecords : ∀ person ∈ records bytes, person.Terminated) :
    ∃ loaded, loadEntry alloc (some bytes) world = some (0, loaded) ∧
      (NoDuplicates loaded ↔ DuplicateFree (records bytes) ∧
        ∀ person ∈ records bytes, ∀ other ∈ people, person.Unequal other) := by
  obtain ⟨nodes, book, hstores, hfree⟩ := hworld
  obtain ⟨nodes', hlist, rfl⟩ := hpeople
  obtain rfl := hstores.linked.nodes_unique hlist
  have hbook := hstores.duplicateFree_iff_nodup.mp hfree
  obtain ⟨loaded, nodes', hload, hloaded, -⟩ := loadEntry_spec alloc (some bytes) hstores hrecords
  have hiff : NoDuplicates loaded ↔ (book.load (records bytes)).Nodup := by
    constructor
    · rintro ⟨others, book', hstores', hfree'⟩
      obtain rfl := hloaded.linked.nodes_unique hstores'.linked
      exact hloaded.duplicateFree_iff_nodup.mp hfree'
    · intro hnodup
      exact ⟨nodes', _, hloaded, hloaded.duplicateFree_iff_nodup.mpr hnodup⟩
  have hapart (person : Person) (hperson : person ∈ records bytes) :
      person.entry ∉ book ↔ ∀ other ∈ nodes.map Prod.snd, person.Unequal other := by
    rw [← hstores.entries, List.mem_map, List.forall_mem_map]
    push Not
    refine forall₂_congr fun node hnode ↦ ?_
    rw [Person.unequal_iff (hrecords person hperson) (hstores.terminated node hnode)]
    exact ne_comm
  refine ⟨loaded, hload, ?_⟩
  rw [hiff, Book.nodup_load_iff hbook, duplicateFree_iff hrecords]
  exact and_congr_right fun _ ↦ forall₂_congr hapart

/-- From every book without two equal persons, every run of `insert_entry`, `delete_entry`,
`search_entry` and `save_entry` goes through and leaves such a book; and `load_entry` of a file of
terminated records leaves one exactly if the records are pairwise different and none of them is
equal to a person in the book. -/
theorem contacts_duplicate_free :
    (∀ (start : World) (operations : List Operation), NoDuplicates start →
      (∀ operation ∈ operations, operation.KeepsFilesOut) →
      ∃ final, run operate start operations = some final ∧ NoDuplicates final) ∧
      ∀ (world : World) (people : List Person) (alloc : Allocator) (bytes : List UInt8),
        NoDuplicates world → Holds world people →
        (∀ person ∈ records bytes, person.Terminated) →
        ∃ loaded, loadEntry alloc (some bytes) world = some (0, loaded) ∧
          (NoDuplicates loaded ↔ DuplicateFree (records bytes) ∧
            ∀ person ∈ records bytes, ∀ other ∈ people, person.Unequal other) := by
  constructor
  · intro start operations hstart hoperations
    exact exists_run operate_noDuplicates hstart hoperations
  · intro world people alloc bytes hworld hpeople hrecords
    exact loadEntry_noDuplicates_iff alloc hworld hpeople hrecords

theorem noDuplicates_empty : NoDuplicates .empty := ⟨[], [], stores_empty, List.Pairwise.nil⟩

/-- An entry typed twice, with the book saved in between, and a file with one record of zeros loaded
into the empty book. -/
theorem contacts_duplicate_free_typed_twice :
    (∃ final, run operate .empty [.call (.insertEntry .above [65] [49]), .saveEntry .ample,
        .call (.insertEntry .above [65] [49])] = some final ∧ NoDuplicates final) ∧
      ∃ loaded, loadEntry .above (some (List.replicate 32 0)) .empty = some (0, loaded) ∧
        NoDuplicates loaded := by
  constructor
  · refine contacts_duplicate_free.1 .empty _ noDuplicates_empty ?_
    simp [Operation.KeepsFilesOut]
  · have hempty : Holds .empty [] := ⟨[], .nil _, rfl⟩
    obtain ⟨loaded, hload, hiff⟩ := contacts_duplicate_free.2 .empty [] .above
      (List.replicate 32 0) noDuplicates_empty hempty (by decide +kernel)
    refine ⟨loaded, hload, hiff.mpr ⟨?_, fun _ _ _ hmem ↦ absurd hmem List.not_mem_nil⟩⟩
    exact List.pairwise_singleton _ _

end TestLinux.ContactBook
