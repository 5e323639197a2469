import TestLinux.ContactBook.Model

/-!
# The contact book is a list of pairs of strings

`Book` is what the contact book is for: a list of names and phone numbers, the last one entered
first. `Book.call` gives the effect of each function of the menu on such a list and its return
value, without nodes, arrays or a counter. `Stores world nodes book` relates the two levels: the
nodes reachable from `cts->data` form a doubly linked list, each of their arrays holds a NUL, the
counter is their number, and the strings in them are the book.

`insert_spec` and `remove_spec` are the pointer surgery on a list: what `Node<T>::insert` and
`Node<T>::remove` do, at the front, in the middle and at the end. Each function of the menu is then
followed through its searches and insertions (`insertEntry_spec`, `deleteEntry_spec`,
`searchEntry_spec`, `loadEntry_spec`), and `call_spec` collects them.

`contacts_refine_book` is the result over whole runs: no call leaves the live nodes, the arrays or
the list, each returns what the book says, and a call that fails leaves everything as it was.
-/

set_option autoImplicit false
set_option relaxedAutoImplicit false

namespace TestLinux.ContactBook

open TestLinux.Runs TestLinux.LinkedList TestLinux.CString

/-! ### The abstract book -/

/-- Names and phone numbers, the last one entered first. -/
abbrev Book := List (List UInt8 × List UInt8)

/-- The string that a typed line becomes: its first 15 bytes, and no more than `c_str` shows of it.
-/
def truncated (text : List UInt8) : List UInt8 := (upToNul text).take 15

/-- The strings in the arrays of a person. -/
def Person.entry (person : Person) : List UInt8 × List UInt8 :=
  (upToNul person.name.bytes, upToNul person.phone.bytes)

/-- A name that matches a typed line. -/
def matchesName (nameTmp : List UInt8) (entry : List UInt8 × List UInt8) : Bool :=
  entry.1 == truncated nameTmp

/-- The entries of the records of a file, each put in front of the ones before. -/
def Book.load (book : Book) (people : List Person) : Book :=
  people.foldl (fun book person ↦ person.entry :: book) book

/-- The return value of a call and its effect. -/
def Book.call (book : Book) : Call → ℤ × Book
  | .insertEntry _ nameTmp phoneTmp =>
    if (truncated nameTmp, truncated phoneTmp) ∈ book then (-4, book)
    else (0, (truncated nameTmp, truncated phoneTmp) :: book)
  | .deleteEntry nameTmp =>
    if book.any (matchesName nameTmp) then (0, book.eraseP (matchesName nameTmp)) else (-2, book)
  | .searchEntry nameTmp => if book.any (matchesName nameTmp) then (0, book) else (-2, book)
  | .loadEntry _ none => (-2, book)
  | .loadEntry _ (some bytes) => (0, book.load (records bytes))

/-- The book after a list of calls. -/
def Book.after (calls : List Call) : Book := calls.foldl (fun book event ↦ (book.call event).2) []

/-- Both arrays of a person hold a NUL. -/
def Person.Terminated (person : Person) : Prop :=
  0 ∈ person.name.bytes ∧ 0 ∈ person.phone.bytes
  deriving Decidable

/-- The records that a call loads hold a NUL in each array. -/
def Call.Terminated : Call → Prop
  | .insertEntry _ _ _ => True
  | .deleteEntry _ => True
  | .searchEntry _ => True
  | .loadEntry _ none => True
  | .loadEntry _ (some bytes) => ∀ person ∈ records bytes, person.Terminated

/-- The nodes reachable from `cts->data` are a list of the entries of the book. -/
structure Stores (world : World) (nodes : List (ℕ × Person)) (book : Book) : Prop where
  linked : DoublyLinked world.heap world.cts.data nodes
  count : world.cts.count = nodes.length
  terminated : ∀ node ∈ nodes, node.2.Terminated
  entries : nodes.map (fun node ↦ node.2.entry) = book

theorem stores_empty : Stores .empty [] [] where
  linked := .nil _
  count := rfl
  terminated := fun _ hmem ↦ absurd hmem List.not_mem_nil
  entries := rfl

/-! ### Strings -/

theorem upToNul_typed (text : List UInt8) : upToNul (Field.typed text).bytes = truncated text := by
  have hzero : 0 ∈ (Field.typed text).bytes := List.mem_append_right _ List.mem_cons_self
  have hstring := cstring_of_zero_mem hzero
  rw [Field.typed, cstring_strncpy] at hstring
  exact (Option.some.inj hstring).symm

theorem zero_mem_typed (text : List UInt8) : 0 ∈ (Field.typed text).bytes :=
  List.mem_append_right _ List.mem_cons_self

/-- `strcmp` on arrays that hold a NUL. -/
theorem strcmp_map_eq {lefts rights : List UInt8} (hleft : 0 ∈ lefts) (hright : 0 ∈ rights) :
    (strcmp lefts rights).map (fun order ↦ order == 0) =
      some (upToNul lefts == upToNul rights) := by
  obtain ⟨order, horder, hiff⟩ :=
    strcmp_eq_zero_iff (cstring_of_zero_mem hleft) (cstring_of_zero_mem hright)
  rw [horder, Option.map_some, Option.some.injEq, Bool.eq_iff_iff, beq_iff_eq, beq_iff_eq]
  exact hiff

theorem Person.equal_eq {person other : Person} (hperson : person.Terminated)
    (hother : other.Terminated) : person.equal other = some (other.entry == person.entry) := by
  obtain ⟨order, horder, hiff⟩ :=
    strcmp_eq_zero_iff (cstring_of_zero_mem hperson.1) (cstring_of_zero_mem hother.1)
  rw [Person.equal, horder, Option.bind_some]
  split_ifs with hzero
  · rw [strcmp_map_eq hperson.2 hother.2, Option.some.injEq, Bool.eq_iff_iff, beq_iff_eq,
      beq_iff_eq, Person.entry, Person.entry, Prod.mk.injEq, hiff.mp hzero]
    exact ⟨fun hphone ↦ ⟨rfl, hphone.symm⟩, fun hentry ↦ hentry.2.symm⟩
  · rw [Option.some.injEq, eq_comm, beq_eq_false_iff_ne]
    exact fun hentry ↦ hzero (hiff.mpr (congrArg Prod.fst hentry).symm)

/-! ### Insertion and removal of nodes -/

section Surgery

variable {α : Type}

/-- `Node<T>::insert` puts a node that is not in the list in front of it. -/
theorem insert_spec {heap : Heap α} {first : Option ℕ} {nodes : List (ℕ × α)} {addr : ℕ}
    {node : Node α} (hlist : DoublyLinked heap first nodes) (hnode : heap.get addr = some node)
    (haddr : addr ∉ addresses nodes) :
    ∃ heap', Node.insert (some addr) first heap = some (0, some addr, heap') ∧
      DoublyLinked heap' (some addr) ((addr, node.data) :: nodes) := by
  obtain ⟨last, hsegment⟩ := hlist.segment
  have hnodup : (addresses ((addr, node.data) :: nodes)).Nodup :=
    List.nodup_cons.mpr ⟨haddr, hlist.nodup⟩
  have hnext := Heap.setNext_eq first hnode
  have hprev := Heap.setPrev_eq none
    (heap.get_set_self addr { node with next := first })
  have hframed := (hsegment.frame { node with next := first } haddr).frame
    ⟨node.data, none, first⟩ haddr
  obtain ⟨heap', last', hlink, hrest, hsame⟩ := hframed.linkPrev hlist.nodup (some addr)
  have hget := (hsame addr haddr).trans (Heap.get_set_self _ _ _)
  refine ⟨heap', ?_, ⟨last', rfl, first, hget, hrest⟩, hnodup⟩
  cases first with
  | none =>
    obtain rfl := Option.some.inj hlink
    simp only [Node.insert, hnext, hprev, Option.bind_eq_bind, Option.bind_some]
    rfl
  | some front =>
    rw [Heap.linkPrev] at hlink
    simp only [Node.insert, hnext, hprev, hlink, Option.bind_eq_bind, Option.bind_some]
    rfl

/-- `Node<T>::contains` finds the nodes of the list. -/
theorem contains_spec {heap : Heap α} {first : Option ℕ} {nodes : List (ℕ × α)} {addr : ℕ}
    (hlist : DoublyLinked heap first nodes) (haddr : addr ∈ addresses nodes) :
    Node.contains (some addr) first heap = some true := by
  have hwalk : walk heap (fun other _ ↦ some (some other == some addr)) heap.size first =
      some ((nodes.find? fun node ↦ some node.1 == some addr).map Prod.fst) :=
    hlist.walk_eq fun _ _ ↦ rfl
  have hfirst : first ≠ none := by
    rintro rfl
    rw [hlist.eq_nil_of_null] at haddr
    exact absurd haddr List.not_mem_nil
  have hfound : (nodes.find? fun node ↦ some node.1 == some addr).isSome = true := by
    obtain ⟨node, hmem, rfl⟩ := List.mem_map.mp haddr
    exact List.find?_isSome.mpr ⟨node, hmem, beq_self_eq_true _⟩
  rw [Node.contains, if_neg (by simp [hfirst]), hwalk, Option.map_some, Option.isSome_map, hfound]

/-- The assignments of `Node<T>::remove` join the neighbours of a node. -/
theorem unlink_spec {heap : Heap α} {first : Option ℕ} {front back : List (ℕ × α)} {addr : ℕ}
    {data : α} (hlist : DoublyLinked heap first (front ++ (addr, data) :: back)) :
    ∃ first' heap', Node.unlink addr first heap = some (0, first', heap') ∧
      DoublyLinked (heap'.free addr) first' (front ++ back) ∧
      heap'.get addr = some ⟨data, none, none⟩ := by
  obtain ⟨last, hsegment⟩ := hlist.segment
  obtain ⟨before, next, hfront, rfl, behind, hnode, hback⟩ := Segment.append_iff.mp hsegment
  have hnodup := hlist.nodup
  rw [addresses_append, addresses_cons, List.nodup_append, List.nodup_cons] at hnodup
  obtain ⟨hnodupFront, ⟨haddrBack, hnodupBack⟩, hdisjoint⟩ := hnodup
  have haddrFront : addr ∉ addresses front := fun hmem ↦
    hdisjoint addr hmem addr List.mem_cons_self rfl
  have hapart : ∀ other ∈ addresses front, other ∉ addresses back := fun other hmem hmem' ↦
    hdisjoint other hmem other (List.mem_cons_of_mem addr hmem') rfl
  -- the neighbour in front, then the one behind; neither assignment touches the node itself
  obtain ⟨heap₁, hlink₁, hfront₁, hsame₁⟩ := hfront.linkNext hnodupFront behind
  have hnode₁ := (hsame₁ addr haddrFront).trans hnode
  have hback₁ := hback.congr fun other hmem ↦ hsame₁ other fun hmem' ↦ hapart other hmem' hmem
  obtain ⟨heap₂, last', hlink₂, hback₂, hsame₂⟩ := hback₁.linkPrev hnodupBack before
  have hnode₂ := (hsame₂ addr haddrBack).trans hnode₁
  have hfront₂ := hfront₁.congr fun other hmem ↦ hsame₂ other (hapart other hmem)
  have hnext := Heap.setNext_eq none hnode₂
  have hprev := Heap.setPrev_eq none (heap₂.get_set_self addr ⟨data, before, none⟩)
  have hfirst : (if some addr = first then behind else first) =
      if front = [] then behind else first := by
    cases front with
    | nil => rw [if_pos hfront.2, if_pos rfl]
    | cons node rest =>
      obtain ⟨rfl, -⟩ := hfront
      have hne : some addr ≠ some node.1 := fun heq ↦
        haddrFront (Option.some.inj heq ▸ List.mem_cons_self)
      rw [if_neg hne, if_neg (List.cons_ne_nil _ _)]
  refine ⟨if some addr = first then behind else first,
    (heap₂.set addr ⟨data, before, none⟩).set addr ⟨data, none, none⟩, ?_, ⟨⟨last', ?_⟩, ?_⟩,
    Heap.get_set_self _ _ _⟩
  · simp only [Node.unlink, hnode, hlink₁, hnode₁, hlink₂, hnode₂, hnext, hprev,
      Option.bind_eq_bind, Option.bind_some]
    rfl
  · rw [hfirst]
    refine (Segment.append_iff.mpr ⟨before, behind, hfront₂, hback₂⟩).congr fun other hmem ↦ ?_
    have hne : other ≠ addr := by
      rintro rfl
      rw [addresses_append] at hmem
      exact (List.mem_append.mp hmem).elim haddrFront haddrBack
    rw [Heap.get_free_of_ne _ hne, Heap.get_set_of_ne _ _ hne, Heap.get_set_of_ne _ _ hne]
  · rw [addresses_append, List.nodup_append]
    exact ⟨hnodupFront, hnodupBack, fun other hmem same hmem' ↦
      hdisjoint other hmem same (List.mem_cons_of_mem addr hmem')⟩

/-- `Node<T>::remove` takes a node out of the list and leaves its data. -/
theorem remove_spec {heap : Heap α} {first : Option ℕ} {front back : List (ℕ × α)} {addr : ℕ}
    {data : α} (hlist : DoublyLinked heap first (front ++ (addr, data) :: back)) :
    ∃ first' heap', Node.remove (some addr) first heap = some (0, first', heap') ∧
      DoublyLinked (heap'.free addr) first' (front ++ back) ∧
      heap'.get addr = some ⟨data, none, none⟩ := by
  obtain ⟨first', heap', hunlink, hlinked⟩ := unlink_spec hlist
  refine ⟨first', heap', ?_, hlinked⟩
  have hmem : addr ∈ addresses (front ++ (addr, data) :: back) := by
    rw [addresses_append]
    exact List.mem_append_right _ List.mem_cons_self
  rw [Node.remove, contains_spec hlist hmem, Option.bind_some]
  exact hunlink

end Surgery

/-- `person_delete` takes a node out of the list and leaves its data. -/
theorem personDelete_spec {heap : Heap Person} {first : Option ℕ} {front back : List (ℕ × Person)}
    {addr : ℕ} {person : Person}
    (hlist : DoublyLinked heap first (front ++ (addr, person) :: back)) :
    ∃ first' heap', personDelete (some addr) first heap = some (0, first', heap') ∧
      DoublyLinked (heap'.free addr) first' (front ++ back) ∧
      heap'.get addr = some ⟨person, none, none⟩ := by
  obtain ⟨first', heap', hremove, hlinked⟩ := remove_spec hlist
  refine ⟨first', heap', ?_, hlinked⟩
  rw [personDelete, if_neg (Option.some_ne_none _)]
  exact hremove

/-! ### Searches -/

/-- `Node<T>::search` finds a person whose strings are in the list. -/
theorem search_spec {heap : Heap Person} {first : Option ℕ} {nodes : List (ℕ × Person)}
    {target : Person} (hlist : DoublyLinked heap first nodes)
    (hnodes : ∀ node ∈ nodes, node.2.Terminated) (htarget : target.Terminated) :
    Node.search Person.equal target first heap =
      some (decide (target.entry ∈ nodes.map fun node ↦ node.2.entry)) := by
  have hwalk : walk heap (fun _ data ↦ target.equal data) heap.size first =
      some ((nodes.find? fun node ↦ node.2.entry == target.entry).map Prod.fst) :=
    hlist.walk_eq fun node hmem ↦ Person.equal_eq htarget (hnodes node hmem)
  have hfound : (nodes.find? fun node ↦ node.2.entry == target.entry).isSome =
      decide (target.entry ∈ nodes.map fun node ↦ node.2.entry) := by
    rw [Bool.eq_iff_iff, List.find?_isSome, decide_eq_true_eq, List.mem_map]
    simp only [beq_iff_eq]
  rw [Node.search]
  split_ifs with hfirst
  · subst hfirst
    rw [hlist.eq_nil_of_null]
    rfl
  · rw [hwalk, Option.map_some, Option.isSome_map, hfound]

/-- `person_name_search` finds the first node whose name matches the typed line. -/
theorem personNameSearch_spec {heap : Heap Person} {first : Option ℕ}
    {nodes : List (ℕ × Person)} (nameTmp : List UInt8) (hlist : DoublyLinked heap first nodes)
    (hnodes : ∀ node ∈ nodes, node.2.Terminated) :
    personNameSearch (.typed nameTmp) first heap =
      some ((nodes.find? fun node ↦ matchesName nameTmp node.2.entry).map Prod.fst) := by
  refine hlist.walk_eq fun node hmem ↦ ?_
  rw [strcmp_map_eq (hnodes node hmem).1 (zero_mem_typed nameTmp), upToNul_typed]
  rfl

/-! ### The functions of the menu -/

/-- What a call should do: it has a result, which is that of the book, and a failure changes
nothing. -/
def Refines (world : World) (result : Option (ℤ × World)) (expected : ℤ × Book) : Prop :=
  ∃ world' nodes', result = some (expected.1, world') ∧ Stores world' nodes' expected.2 ∧
    (expected.1 ≠ 0 → world' = world)

/-- A new node is not in the list. -/
theorem Stores.fresh {world : World} {nodes : List (ℕ × Person)} {book : Book}
    (hworld : Stores world nodes book) (alloc : Allocator) :
    alloc.choose world.heap ∉ addresses nodes := fun hmem ↦
  hworld.linked.get_ne_none hmem (alloc.fresh world.heap)

/-- `person_insert` puts a new node in front of the list. -/
theorem personInsert_linked {heap : Heap Person} {first : Option ℕ} {nodes : List (ℕ × Person)}
    (alloc : Allocator) (person : Person) (hlist : DoublyLinked heap first nodes) :
    ∃ heap', personInsert (some (alloc.choose heap)) first
        (heap.set (alloc.choose heap) ⟨person, none, none⟩) =
          some (0, some (alloc.choose heap), heap') ∧
      DoublyLinked heap' (some (alloc.choose heap)) ((alloc.choose heap, person) :: nodes) := by
  have hfresh : alloc.choose heap ∉ addresses nodes := fun hmem ↦
    hlist.get_ne_none hmem (alloc.fresh heap)
  obtain ⟨heap', hinsert, hlinked⟩ := insert_spec (hlist.frame ⟨person, none, none⟩ hfresh)
    (Heap.get_set_self _ _ _) hfresh
  refine ⟨heap', ?_, hlinked⟩
  rw [personInsert, if_neg (Option.some_ne_none _)]
  exact hinsert

/-- A new node with a person goes to the front of the book. -/
theorem personInsert_spec {world : World} {nodes : List (ℕ × Person)} {book : Book}
    {person : Person} (alloc : Allocator) (hworld : Stores world nodes book)
    (hperson : person.Terminated) :
    ∃ heap', personInsert (some (alloc.choose world.heap)) world.cts.data
        (world.heap.set (alloc.choose world.heap) ⟨person, none, none⟩) =
          some (0, some (alloc.choose world.heap), heap') ∧
      Stores ⟨⟨some (alloc.choose world.heap), world.cts.count + 1⟩, heap'⟩
        ((alloc.choose world.heap, person) :: nodes) (person.entry :: book) := by
  obtain ⟨heap', hinsert, hlist⟩ := personInsert_linked alloc person hworld.linked
  refine ⟨heap', hinsert, hlist, ?_, ?_, ?_⟩
  · rw [List.length_cons, hworld.count]
  · intro node hmem
    rcases List.mem_cons.mp hmem with rfl | hrest
    · exact hperson
    · exact hworld.terminated node hrest
  · rw [List.map_cons, hworld.entries]

theorem insertEntry_spec {world : World} {nodes : List (ℕ × Person)} {book : Book}
    (alloc : Allocator) (nameTmp phoneTmp : List UInt8) (hworld : Stores world nodes book) :
    Refines world (insertEntry alloc nameTmp phoneTmp world)
      (book.call (.insertEntry alloc nameTmp phoneTmp)) := by
  have hperson : (Person.mk (.typed nameTmp) (.typed phoneTmp)).Terminated :=
    ⟨zero_mem_typed nameTmp, zero_mem_typed phoneTmp⟩
  have hentry : (Person.mk (.typed nameTmp) (.typed phoneTmp)).entry =
      (truncated nameTmp, truncated phoneTmp) := by
    rw [Person.entry, upToNul_typed, upToNul_typed]
  have hsearch := search_spec
    (hworld.linked.frame ⟨⟨.typed nameTmp, .typed phoneTmp⟩, none, none⟩ (hworld.fresh alloc))
    hworld.terminated hperson
  rw [hworld.entries, hentry] at hsearch
  by_cases hmem : (truncated nameTmp, truncated phoneTmp) ∈ book
  · have hfree := Heap.free_set_of_get_eq_none
      ⟨⟨.typed nameTmp, .typed phoneTmp⟩, none, none⟩ (alloc.fresh world.heap)
    rw [Book.call, if_pos hmem]
    refine ⟨world, nodes, ?_, hworld, fun _ ↦ rfl⟩
    simp only [insertEntry, hsearch, hmem, hfree, Option.bind_eq_bind, Option.bind_some,
      decide_true, if_true]
    rfl
  · obtain ⟨heap', hinsert, hstores⟩ := personInsert_spec alloc hworld hperson
    rw [hentry] at hstores
    rw [Book.call, if_neg hmem]
    refine ⟨_, _, ?_, hstores, fun hfailed ↦ absurd rfl hfailed⟩
    simp only [insertEntry, hsearch, hmem, hinsert, Option.bind_eq_bind, Option.bind_some,
      decide_false, Bool.false_eq_true, if_false]
    rfl

/-- `person_name_search` on a stored book: no name matches, or the first node with a matching name
is found. -/
theorem Stores.personNameSearch_cases {world : World} {nodes : List (ℕ × Person)} {book : Book}
    (hworld : Stores world nodes book) (nameTmp : List UInt8) :
    book.any (matchesName nameTmp) = false ∧
        personNameSearch (.typed nameTmp) world.cts.data world.heap = some none ∨
      book.any (matchesName nameTmp) = true ∧ ∃ front addr person back,
        nodes = front ++ (addr, person) :: back ∧
        (∀ node ∈ front, matchesName nameTmp node.2.entry = false) ∧
        matchesName nameTmp person.entry = true ∧
        personNameSearch (.typed nameTmp) world.cts.data world.heap = some (some addr) := by
  have hsearch := personNameSearch_spec nameTmp hworld.linked hworld.terminated
  rw [← hworld.entries, List.any_map]
  cases hfind : nodes.find? fun node ↦ matchesName nameTmp node.2.entry with
  | none =>
    rw [hfind] at hsearch
    refine Or.inl ⟨?_, hsearch⟩
    rw [List.any_eq_false]
    exact List.find?_eq_none.mp hfind
  | some node =>
    rw [hfind] at hsearch
    obtain ⟨hmatches, front, back, hnodes, hbefore⟩ := List.find?_eq_some_iff_append.mp hfind
    refine Or.inr ⟨?_, front, node.1, node.2, back, hnodes, fun other hmem ↦ ?_, hmatches, hsearch⟩
    · rw [List.any_eq_true]
      exact ⟨node, List.mem_of_find?_eq_some hfind, hmatches⟩
    · have hother := hbefore other hmem
      rwa [Bool.not_eq_true'] at hother

theorem searchEntry_spec {world : World} {nodes : List (ℕ × Person)} {book : Book}
    (nameTmp : List UInt8) (hworld : Stores world nodes book) :
    Refines world (searchEntry nameTmp world) (book.call (.searchEntry nameTmp)) := by
  rcases hworld.personNameSearch_cases nameTmp with
    ⟨hany, hsearch⟩ | ⟨hany, _, addr, _, _, _, _, _, hsearch⟩
  · rw [Book.call, if_neg (by simp [hany])]
    refine ⟨world, nodes, ?_, hworld, fun _ ↦ rfl⟩
    rw [searchEntry, hsearch]
    rfl
  · rw [Book.call, if_pos hany]
    refine ⟨world, nodes, ?_, hworld, fun _ ↦ rfl⟩
    rw [searchEntry, hsearch]
    rfl

theorem deleteEntry_spec {world : World} {nodes : List (ℕ × Person)} {book : Book}
    (nameTmp : List UInt8) (hworld : Stores world nodes book) :
    Refines world (deleteEntry nameTmp world) (book.call (.deleteEntry nameTmp)) := by
  rcases hworld.personNameSearch_cases nameTmp with
    ⟨hany, hsearch⟩ | ⟨hany, front, addr, person, back, rfl, hbefore, hmatches, hsearch⟩
  · rw [Book.call, if_neg (by simp [hany])]
    refine ⟨world, nodes, ?_, hworld, fun _ ↦ rfl⟩
    rw [deleteEntry, hsearch]
    rfl
  · obtain ⟨first', heap', hdelete, hlinked, -⟩ := personDelete_spec hworld.linked
    have hcount := hworld.count
    rw [List.length_append, List.length_cons] at hcount
    rw [Book.call, if_pos hany]
    refine ⟨⟨⟨first', world.cts.count - 1⟩, heap'.free addr⟩, front ++ back, ?_,
      ⟨hlinked, ?_, ?_, ?_⟩, fun hfailed ↦ absurd rfl hfailed⟩
    · simp only [deleteEntry, hsearch, hdelete, Option.bind_eq_bind, Option.bind_some]
      rfl
    · rw [List.length_append]
      change world.cts.count - 1 = front.length + back.length
      omega
    · intro node hmem
      apply hworld.terminated
      rcases List.mem_append.mp hmem with hfront | hback
      · exact List.mem_append_left _ hfront
      · exact List.mem_append_right _ (List.mem_cons_of_mem _ hback)
    · have hkept : ∀ entry ∈ front.map (fun node ↦ node.2.entry),
          ¬ matchesName nameTmp entry = true := by
        intro entry hmem
        obtain ⟨node, hnode, rfl⟩ := List.mem_map.mp hmem
        rw [hbefore node hnode]
        exact Bool.false_ne_true
      rw [← hworld.entries, List.map_append, List.map_append, List.map_cons,
        List.eraseP_append_right _ hkept, List.eraseP_cons_of_pos hmatches]

/-! ### Loading -/

/-- The batches of `fread` are the records of the file, in order. -/
theorem flatten_freadBatches (people : List Person) : (freadBatches people).flatten = people := by
  have hfront : ∀ count, ((List.range count).map fun i ↦ (people.drop (64 * i)).take 64).flatten =
      people.take (64 * count) := by
    intro count
    induction count with
    | zero => rw [Nat.mul_zero, List.take_zero]; rfl
    | succ count ih =>
      rw [List.range_succ, List.map_append, List.flatten_append, ih, Nat.mul_succ, List.take_add]
      simp
  rw [freadBatches, hfront]
  exact List.take_of_length_le (by omega)

theorem ne_nil_of_mem_freadBatches {people batch : List Person}
    (hbatch : batch ∈ freadBatches people) : batch.length ≠ 0 := by
  obtain ⟨i, hi, rfl⟩ := List.mem_map.mp hbatch
  rw [List.mem_range] at hi
  rw [List.length_take, List.length_drop]
  omega

theorem loadBatch_spec {world : World} {nodes : List (ℕ × Person)} {book : Book}
    (alloc : Allocator) {people : List Person} (hworld : Stores world nodes book)
    (hpeople : ∀ person ∈ people, person.Terminated) :
    ∃ world' nodes', loadBatch alloc people world = some world' ∧
      Stores world' nodes' (book.load people) := by
  induction people generalizing world nodes book with
  | nil => exact ⟨world, nodes, rfl, hworld⟩
  | cons person rest ih =>
    obtain ⟨heap', hinsert, hstores⟩ :=
      personInsert_spec alloc hworld (hpeople person List.mem_cons_self)
    obtain ⟨world', nodes', hload, hloaded⟩ :=
      ih hstores fun other hmem ↦ hpeople other (List.mem_cons_of_mem person hmem)
    refine ⟨world', nodes', ?_, hloaded⟩
    simp only [loadBatch, hinsert, Option.bind_eq_bind, Option.bind_some, if_true]
    exact hload

theorem loadBatch_append (alloc : Allocator) (first second : List Person) (world : World) :
    loadBatch alloc (first ++ second) world =
      (loadBatch alloc first world).bind (loadBatch alloc second) := by
  induction first generalizing world with
  | nil => rfl
  | cons person rest ih =>
    simp only [List.cons_append, loadBatch, Option.bind_eq_bind, Option.bind_assoc]
    congr 1
    funext inserted
    split_ifs with hflag
    · exact ih _
    · exact ih _

/-- The batches of `fread` do not matter: the outer loop does what the inner one does on all records
at once. Assumes: no batch is empty. -/
theorem loadBatches_eq (alloc : Allocator) {batches : List (List Person)}
    (hbatches : ∀ batch ∈ batches, batch.length ≠ 0) (world : World) :
    loadBatches alloc batches world = loadBatch alloc batches.flatten world := by
  induction batches generalizing world with
  | nil => rfl
  | cons batch rest ih =>
    have hrest := ih fun other hmem ↦ hbatches other (List.mem_cons_of_mem batch hmem)
    rw [loadBatches, if_neg (hbatches batch List.mem_cons_self), List.flatten_cons,
      loadBatch_append]
    congr 1
    funext loaded
    exact hrest loaded

theorem loadFile_eq (alloc : Allocator) (bytes : List UInt8) (world : World) :
    loadFile alloc (some bytes) world =
      (loadBatch alloc (records bytes) world).map fun loaded ↦ (0, loaded) := by
  rw [loadFile, loadBatches_eq alloc (fun _ hmem ↦ ne_nil_of_mem_freadBatches hmem),
    flatten_freadBatches]

theorem loadEntry_spec {world : World} {nodes : List (ℕ × Person)} {book : Book}
    (alloc : Allocator) (file : Option (List UInt8)) (hworld : Stores world nodes book)
    (hfile : (Call.loadEntry alloc file).Terminated) :
    Refines world (loadEntry alloc file world) (book.call (.loadEntry alloc file)) := by
  cases file with
  | none => exact ⟨world, nodes, rfl, hworld, fun _ ↦ rfl⟩
  | some bytes =>
    obtain ⟨world', nodes', hload, hstores⟩ := loadBatch_spec alloc hworld hfile
    refine ⟨world', nodes', ?_, hstores, fun hfailed ↦ absurd rfl hfailed⟩
    rw [loadEntry, loadFile_eq, hload]
    rfl

/-! ### Runs -/

theorem call_spec {world : World} {nodes : List (ℕ × Person)} {book : Book} {event : Call}
    (hworld : Stores world nodes book) (hevent : event.Terminated) :
    Refines world (call world event) (book.call event) := by
  cases event with
  | insertEntry alloc nameTmp phoneTmp => exact insertEntry_spec alloc nameTmp phoneTmp hworld
  | deleteEntry nameTmp => exact deleteEntry_spec nameTmp hworld
  | searchEntry nameTmp => exact searchEntry_spec nameTmp hworld
  | loadEntry alloc file => exact loadEntry_spec alloc file hworld hevent

/-- Every list of calls runs, and leaves the book of the abstract calls. -/
theorem run_spec {world : World} {nodes : List (ℕ × Person)} {book : Book} {calls : List Call}
    (hworld : Stores world nodes book) (hcalls : ∀ event ∈ calls, event.Terminated) :
    ∃ world' nodes', run step world calls = some world' ∧
      Stores world' nodes' (calls.foldl (fun book event ↦ (book.call event).2) book) := by
  induction calls generalizing world nodes book with
  | nil => exact ⟨world, nodes, rfl, hworld⟩
  | cons event rest ih =>
    obtain ⟨world₁, nodes₁, hcall, hstores, -⟩ := call_spec hworld (hcalls event List.mem_cons_self)
    obtain ⟨world₂, nodes₂, hrun, hfinal⟩ := ih hstores fun later hmem ↦
      hcalls later (List.mem_cons_of_mem event hmem)
    have hstep : step world event = some world₁ := by rw [step, hcall, Option.map_some]
    exact ⟨world₂, nodes₂, run_cons_eq_some.mpr ⟨world₁, hstep, hrun⟩, hfinal⟩

/-- From an empty book every list of calls runs to a doubly linked list of the entries of the
abstract book, with their number in the counter. One more call returns what the abstract book
returns and leaves the list of the next abstract book; if it fails, it leaves the book and all nodes
as they were. Assumes: each record of a loaded file holds a NUL in its name and in its phone number.
-/
theorem contacts_refine_book (calls : List Call) (last : Call)
    (hcalls : ∀ event ∈ calls ++ [last], event.Terminated) :
    ∃ world nodes, run step .empty calls = some world ∧ Stores world nodes (Book.after calls) ∧
      ∃ world' nodes', call world last = some (((Book.after calls).call last).1, world') ∧
        Stores world' nodes' (Book.after (calls ++ [last])) ∧
        (((Book.after calls).call last).1 ≠ 0 → world' = world) := by
  obtain ⟨world, nodes, hrun, hworld⟩ := run_spec stores_empty fun event hmem ↦
    hcalls event (List.mem_append_left _ hmem)
  obtain ⟨world', nodes', hcall, hworld', hfailed⟩ := call_spec hworld
    (hcalls last (List.mem_append_right _ List.mem_cons_self))
  refine ⟨world, nodes, hrun, hworld, world', nodes', hcall, ?_, hfailed⟩
  rw [Book.after, List.foldl_append]
  exact hworld'

/-- Takes the address above all live ones. -/
def Allocator.above : Allocator where
  choose := fun heap ↦ heap.cells.keys.foldr max 0 + 1
  fresh := fun heap ↦ by
    have hle : ∀ (keys : List ℕ), ∀ addr ∈ keys, addr ≤ keys.foldr max 0 := by
      intro keys
      induction keys with
      | nil => exact fun addr hmem ↦ absurd hmem List.not_mem_nil
      | cons key rest ih =>
        intro addr hmem
        rcases List.mem_cons.mp hmem with rfl | hrest
        · exact Nat.le_max_left _ _
        · exact Nat.le_trans (ih addr hrest) (Nat.le_max_right _ _)
    refine AList.lookup_eq_none.mpr fun hmem ↦ ?_
    exact absurd (hle _ _ (AList.mem_keys.mp hmem)) (by omega)

/-- Two entries, the first of them typed again, a file of one record and a half, and a deletion. -/
def sampleCalls : List Call :=
  [.insertEntry .above [65] [49], .insertEntry .above [66] [50], .insertEntry .above [65] [49],
    .loadEntry .above (some (List.replicate 48 0)), .deleteEntry [66]]

theorem contacts_refine_book_sampleCalls :
    ∃ world nodes, run step .empty sampleCalls = some world ∧
      Stores world nodes [([], []), ([65], [49])] ∧
      ∃ world', call world (.searchEntry [66]) = some (-2, world') ∧ world' = world := by
  have hcalls : ∀ event ∈ sampleCalls ++ [.searchEntry [66]], event.Terminated := by
    simp only [sampleCalls, List.cons_append, List.nil_append, List.forall_mem_cons,
      Call.Terminated, true_and]
    exact ⟨by decide +kernel, fun _ hmem ↦ absurd hmem List.not_mem_nil⟩
  have hbook : Book.after sampleCalls = [([], []), ([65], [49])] := by decide +kernel
  obtain ⟨world, nodes, hrun, hworld, world', nodes', hcall, -, hfailed⟩ :=
    contacts_refine_book sampleCalls (.searchEntry [66]) hcalls
  rw [hbook] at hworld hcall hfailed
  have hcode : (Book.call [([], []), ([65], [49])] (.searchEntry [66])).1 = -2 := by
    decide +kernel
  rw [hcode] at hcall hfailed
  exact ⟨world, nodes, hrun, hworld, world', hcall, hfailed (by decide)⟩

end TestLinux.ContactBook
