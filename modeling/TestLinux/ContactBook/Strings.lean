import TestLinux.ContactBook.Files

/-!
# Strings in the arrays of the contact book

The functions of `test2/contacts.cpp` print the two arrays of a node with `%s`. `printPerson` is
such a line, without a result when an array holds no NUL and `%s` runs on behind it; `printEntry`,
`searchEntryLine` and `deleteEntryLine` are what `print_entry`, `search_entry` and `delete_entry`
print of the nodes.

Typed lines are cut to 15 bytes and ended by a NUL, but `load_file` copies the 32 bytes of a record
as they are. `stored_strings_terminated` says that in every run whose loaded records hold their NULs
all arrays of all nodes do, so that no comparison and no line leaves its array. After a file with a
phone number of 16 letters, `search_entry` and `print_entry` do (`loaded_phone_unterminated`).
-/

set_option autoImplicit false
set_option relaxedAutoImplicit false

namespace TestLinux.ContactBook

open TestLinux.Runs TestLinux.LinkedList TestLinux.CString

/-! ### Lines printed with `%s` -/

/-- The name and the phone number of a line. -/
def printPerson (person : Person) : Option (List UInt8 × List UInt8) :=
  (cstring person.name.bytes).bind fun name ↦
    (cstring person.phone.bytes).map fun phone ↦ (name, phone)

/-- `person_traversal`. -/
def personTraversal (heap : Heap Person) :
    (fuel : ℕ) → Option ℕ → Option (List (List UInt8 × List UInt8))
  | _, none => some []
  | 0, some _ => none
  | fuel + 1, some addr =>
    (heap.get addr).bind fun node ↦ (printPerson node.data).bind fun line ↦
      (personTraversal heap fuel node.next).map fun lines ↦ line :: lines

/-- `print_entry`. -/
def printEntry (world : World) : Option (List (List UInt8 × List UInt8)) :=
  personTraversal world.heap world.heap.size world.cts.data

/-- The node that `search_entry` prints. -/
def searchEntryLine (nameTmp : List UInt8) (world : World) :
    Option (Option (List UInt8 × List UInt8)) :=
  (personNameSearch (.typed nameTmp) world.cts.data world.heap).bind fun found ↦
    match found with
    | none => some none
    | some addr => (world.heap.get addr).bind fun node ↦ (printPerson node.data).map some

/-- The node that `delete_entry` prints, after it has been taken out of the list. -/
def deleteEntryLine (nameTmp : List UInt8) (world : World) :
    Option (Option (List UInt8 × List UInt8)) :=
  (personNameSearch (.typed nameTmp) world.cts.data world.heap).bind fun found ↦
    match found with
    | none => some none
    | some addr =>
      (personDelete (some addr) world.cts.data world.heap).bind fun (flag, _, heap) ↦
        if flag ≠ 0 then some none
        else (heap.get addr).bind fun node ↦ (printPerson node.data).map some

/-! ### Terminated arrays -/

theorem printPerson_eq {person : Person} (hperson : person.Terminated) :
    printPerson person = some person.entry := by
  rw [printPerson, cstring_of_zero_mem hperson.1, cstring_of_zero_mem hperson.2]
  rfl

theorem personTraversal_eq {heap : Heap Person} {previous first last : Option ℕ}
    {nodes : List (ℕ × Person)} {fuel : ℕ}
    (hsegment : Segment heap previous first nodes last none) (hfuel : nodes.length ≤ fuel)
    (hnodes : ∀ node ∈ nodes, node.2.Terminated) :
    personTraversal heap fuel first = some (nodes.map fun node ↦ node.2.entry) := by
  induction nodes generalizing previous first fuel with
  | nil =>
    obtain ⟨-, rfl⟩ := hsegment
    rw [personTraversal]
    rfl
  | cons node rest ih =>
    obtain ⟨rfl, next, hnode, hrest⟩ := hsegment
    obtain ⟨fuel, rfl⟩ : ∃ less, fuel = less + 1 :=
      Nat.exists_eq_succ_of_ne_zero (Nat.ne_of_gt (Nat.lt_of_lt_of_le (Nat.succ_pos _) hfuel))
    have htail := ih hrest (Nat.le_of_succ_le_succ hfuel) fun other hmem ↦
      hnodes other (List.mem_cons_of_mem node hmem)
    rw [personTraversal, hnode, Option.bind_some, printPerson_eq (hnodes node List.mem_cons_self),
      Option.bind_some, htail]
    rfl

/-- A stored book is printed as it is. -/
theorem Stores.printEntry_eq {world : World} {nodes : List (ℕ × Person)} {book : Book}
    (hworld : Stores world nodes book) : printEntry world = some book := by
  obtain ⟨last, hsegment⟩ := hworld.linked.segment
  have hsize := Heap.length_le_size hworld.linked.nodup fun _ haddr ↦
    hworld.linked.get_ne_none haddr
  rw [addresses, List.length_map] at hsize
  rw [printEntry, personTraversal_eq hsegment hsize hworld.terminated, hworld.entries]

theorem Stores.searchEntryLine_ne {world : World} {nodes : List (ℕ × Person)} {book : Book}
    (hworld : Stores world nodes book) (nameTmp : List UInt8) :
    searchEntryLine nameTmp world ≠ none := by
  rcases hworld.personNameSearch_cases nameTmp with
    ⟨-, hsearch⟩ | ⟨-, front, addr, person, back, rfl, -, -, hsearch⟩
  · rw [searchEntryLine, hsearch]
    exact Option.some_ne_none _
  · obtain ⟨last, hsegment⟩ := hworld.linked.segment
    obtain ⟨before, next, -, -, behind, hnode, -⟩ := Segment.append_iff.mp hsegment
    have hperson := hworld.terminated (addr, person)
      (List.mem_append_right _ List.mem_cons_self)
    rw [searchEntryLine, hsearch, Option.bind_some]
    simp only
    rw [hnode, Option.bind_some, printPerson_eq hperson]
    exact Option.some_ne_none _

theorem Stores.deleteEntryLine_ne {world : World} {nodes : List (ℕ × Person)} {book : Book}
    (hworld : Stores world nodes book) (nameTmp : List UInt8) :
    deleteEntryLine nameTmp world ≠ none := by
  rcases hworld.personNameSearch_cases nameTmp with
    ⟨-, hsearch⟩ | ⟨-, front, addr, person, back, rfl, -, -, hsearch⟩
  · rw [deleteEntryLine, hsearch]
    exact Option.some_ne_none _
  · obtain ⟨first', heap', hdelete, -, hget⟩ := personDelete_spec hworld.linked
    have hperson := hworld.terminated (addr, person)
      (List.mem_append_right _ List.mem_cons_self)
    rw [deleteEntryLine, hsearch, Option.bind_some]
    simp only
    rw [hdelete, Option.bind_some]
    simp only [ne_eq, not_true_eq_false, if_false]
    rw [hget, Option.bind_some, printPerson_eq hperson]
    exact Option.some_ne_none _

/-- In every state that is reached, the arrays of all nodes hold a NUL, every further call stays
inside the arrays it compares, and every line stays inside the arrays it prints. Assumes: each
record of a loaded file holds a NUL in its name and in its phone number. -/
theorem stored_strings_terminated {calls : List Call} {world : World}
    (hcalls : ∀ event ∈ calls, event.Terminated) (hrun : run step .empty calls = some world) :
    (∃ nodes, DoublyLinked world.heap world.cts.data nodes ∧
      ∀ node ∈ nodes, node.2.Terminated) ∧
      (∀ event : Call, event.Terminated → call world event ≠ none) ∧
      printEntry world ≠ none ∧
      ∀ nameTmp, searchEntryLine nameTmp world ≠ none ∧ deleteEntryLine nameTmp world ≠ none := by
  obtain ⟨reached, nodes, hreached, hworld⟩ := run_spec stores_empty hcalls
  obtain rfl := Option.some.inj (hrun.symm.trans hreached)
  refine ⟨⟨nodes, hworld.linked, hworld.terminated⟩, ?_, ?_, ?_⟩
  · intro event hevent
    obtain ⟨world', nodes', hcall, -⟩ := call_spec hworld hevent
    rw [hcall]
    exact Option.some_ne_none _
  · rw [hworld.printEntry_eq]
    exact Option.some_ne_none _
  · intro nameTmp
    exact ⟨hworld.searchEntryLine_ne nameTmp, hworld.deleteEntryLine_ne nameTmp⟩

/-- Typed entries and a file of one record of zeros. -/
theorem stored_strings_terminated_sampleCalls :
    ∃ world, run step .empty sampleCalls = some world ∧
      (∃ nodes, DoublyLinked world.heap world.cts.data nodes ∧
        ∀ node ∈ nodes, node.2.Terminated) ∧ printEntry world ≠ none := by
  have hcalls : ∀ event ∈ sampleCalls, event.Terminated := by
    simp only [sampleCalls, List.forall_mem_cons, Call.Terminated, true_and]
    exact ⟨by decide +kernel, fun _ hmem ↦ absurd hmem List.not_mem_nil⟩
  obtain ⟨world, nodes, hrun, -⟩ := run_spec stores_empty hcalls
  have hterminated := stored_strings_terminated hcalls hrun
  exact ⟨world, hrun, hterminated.1, hterminated.2.2.1⟩

/-- The record of a person called `A` with a phone number of 16 letters. -/
def unterminatedPerson : Person :=
  ⟨.typed [65], ⟨List.replicate 16 66, List.length_replicate⟩⟩

/-- The failure: after a file with such a record is loaded, a node holds a phone number without a
NUL, and printing the list or the search for `A` runs on behind it. -/
theorem loaded_phone_unterminated :
    ∃ world nodes, run step .empty [.loadEntry .above (some unterminatedPerson.bytes)] =
        some world ∧
      DoublyLinked world.heap world.cts.data nodes ∧
      (∃ node ∈ nodes, ¬ node.2.Terminated) ∧ printEntry world = none ∧
      searchEntryLine [65] world = none := by
  have hempty : Holds .empty [] := ⟨[], .nil _, rfl⟩
  obtain ⟨world, hload, ⟨nodes, hlist, hnodes⟩, -⟩ :=
    loadBatch_linked .above [unterminatedPerson] hempty
  have hrun : run step .empty [.loadEntry .above (some unterminatedPerson.bytes)] =
      some world := by
    have hrecords := records_flatMap_bytes [unterminatedPerson]
    rw [List.flatMap_singleton] at hrecords
    rw [run, step, call, loadEntry, loadFile_eq, hrecords, hload]
    rfl
  have hview : (run step .empty [.loadEntry .above (some unterminatedPerson.bytes)]).map
      (fun world ↦ (printEntry world).isNone && (searchEntryLine [65] world).isNone) =
        some true := by
    decide +kernel
  rw [hrun, Option.map_some, Option.some.injEq, Bool.and_eq_true, Option.isNone_iff_eq_none,
    Option.isNone_iff_eq_none] at hview
  refine ⟨world, nodes, hrun, hlist, ?_, hview⟩
  have hmem : unterminatedPerson ∈ nodes.map Prod.snd := by
    rw [hnodes]
    exact List.mem_cons_self
  obtain ⟨node, hnode, hperson⟩ := List.mem_map.mp hmem
  refine ⟨node, hnode, ?_⟩
  rw [hperson]
  decide

end TestLinux.ContactBook
