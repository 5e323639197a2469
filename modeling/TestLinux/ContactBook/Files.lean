import TestLinux.ContactBook.Refinement

/-!
# Files of contacts

`saveFile` is `save_file` of `test2/contacts.cpp`: it follows the list, collects records in a buffer
of 64 and hands the buffer to `fwrite` whenever it is full and once more at the end. A `Disk` says
what the calls of the library do: whether `fopen` succeeds, and for each `fwrite` how many bytes it
takes when it does not take all of them.

`saveLoop_spec` is the invariant of the loop: what is in the file and what is in the buffer are
together the images of the records behind the pointer. Reading goes the other way: the images are
cut into the same records again (`records_flatMap_bytes`), in whatever batches `fread` delivers them
(`loadBatches_eq`), and each record is put in front of the ones before (`loadBatch_linked`).
`contacts_file_round_trip` puts the two together.
-/

set_option autoImplicit false
set_option relaxedAutoImplicit false

namespace TestLinux.ContactBook

open TestLinux.LinkedList

/-! ### `save_file` -/

/-- The 32 bytes of a record. -/
def Person.bytes (person : Person) : List UInt8 := person.name.bytes ++ person.phone.bytes

/-- The calls of `save_file` to the library. `short` gives, for each call of `fwrite`, the number of
bytes that it takes, or `none` if it takes all of them. -/
structure Disk where
  opens : Bool
  short : ℕ → Option ℕ

/-- The locals of `save_file`: the part of `buffer_p` that is in use, the number of calls of
`fwrite` so far, and what they have written. -/
structure Writer where
  buffer : List Person
  calls : ℕ
  file : List UInt8

/-- `fwrite` of the buffer: the number of whole records written, and the file. -/
def Writer.fwrite (disk : Disk) (writer : Writer) : ℕ × Writer :=
  let bytes := writer.buffer.flatMap Person.bytes
  let taken := match disk.short writer.calls with
    | none => bytes
    | some count => bytes.take count
  (taken.length / 32, { writer with calls := writer.calls + 1, file := writer.file ++ taken })

/-- The loop of `save_file` and what follows it: the return value and the locals. -/
def saveLoop (disk : Disk) (heap : Heap Person) :
    (fuel : ℕ) → (item : Option ℕ) → Writer → Option (ℤ × Writer)
  | _, none, writer =>
    if writer.buffer.length > 0 then
      let (wriitemNum, written) := writer.fwrite disk
      if wriitemNum ≠ writer.buffer.length then some (-2, written) else some (0, written)
    else some (0, writer)
  | 0, some _, _ => none
  | fuel + 1, some addr, writer =>
    (heap.get addr).bind fun node ↦
      let writer := { writer with buffer := writer.buffer ++ [node.data] }
      if writer.buffer.length = 64 then
        let (wriitemNum, written) := writer.fwrite disk
        if wriitemNum ≠ 64 then some (-2, written)
        else saveLoop disk heap fuel node.next { written with buffer := [] }
      else saveLoop disk heap fuel node.next writer

/-- `save_file`: the return value and the file, if there is one. -/
def saveFile (disk : Disk) (world : World) : Option (ℤ × Option (List UInt8)) :=
  if disk.opens then
    (saveLoop disk world.heap world.heap.size world.cts.data ⟨[], 0, []⟩).map
      fun (returned, writer) ↦ (returned, some writer.file)
  else some (-1, none)

/-- `save_entry`. -/
def saveEntry (disk : Disk) (world : World) : Option (ℤ × Option (List UInt8)) :=
  (saveFile disk world).map fun (flag, file) ↦ if flag ≠ 0 then (-2, file) else (0, file)

/-! ### What is written -/

/-- The records reachable from `cts->data`, in order. -/
def Holds (world : World) (people : List Person) : Prop :=
  ∃ nodes, DoublyLinked world.heap world.cts.data nodes ∧ nodes.map Prod.snd = people

/-- `fopen` succeeds, and so do the writes of `count` records. -/
structure Disk.Saves (disk : Disk) (count : ℕ) : Prop where
  opens : disk.opens = true
  writes : ∀ call < (count + 63) / 64, disk.short call = none

theorem Person.length_bytes (person : Person) : person.bytes.length = 32 := by
  rw [Person.bytes, List.length_append, person.name.length_eq, person.phone.length_eq]

theorem length_flatMap_bytes (people : List Person) :
    (people.flatMap Person.bytes).length = 32 * people.length := by
  induction people with
  | nil => rfl
  | cons person rest ih =>
    rw [List.flatMap_cons, List.length_append, ih, person.length_bytes, List.length_cons]
    omega

/-- A call of `fwrite` that takes everything. -/
theorem Writer.fwrite_of_none {disk : Disk} {writer : Writer}
    (hshort : disk.short writer.calls = none) :
    writer.fwrite disk = (writer.buffer.length, { writer with
      calls := writer.calls + 1
      file := writer.file ++ writer.buffer.flatMap Person.bytes }) := by
  have hcount : (writer.buffer.flatMap Person.bytes).length / 32 = writer.buffer.length := by
    rw [length_flatMap_bytes]
    omega
  simp only [Writer.fwrite, hshort, hcount]

/-- The writer with one more record in its buffer. -/
def Writer.add (writer : Writer) (person : Person) : Writer :=
  { writer with buffer := writer.buffer ++ [person] }

/-- The writer behind a complete `fwrite` of its buffer. -/
def Writer.flushed (writer : Writer) : Writer where
  buffer := []
  calls := writer.calls + 1
  file := writer.file ++ writer.buffer.flatMap Person.bytes

section Rounds

variable {disk : Disk} {heap : Heap Person} {fuel addr : ℕ} {node : Node Person} {writer : Writer}

/-- What is left in the buffer is written at the end of the list. -/
theorem saveLoop_end (hshort : 0 < writer.buffer.length → disk.short writer.calls = none) :
    ∃ written, saveLoop disk heap fuel none writer = some (0, written) ∧
      written.file = writer.file ++ writer.buffer.flatMap Person.bytes := by
  rw [saveLoop]
  split_ifs with hpending
  · rw [Writer.fwrite_of_none (hshort hpending)]
    simp only [ne_eq, not_true_eq_false, if_false]
    exact ⟨_, rfl, rfl⟩
  · have hempty : writer.buffer = [] :=
      List.length_eq_zero_iff.mp (Nat.eq_zero_of_not_pos hpending)
    refine ⟨writer, rfl, ?_⟩
    rw [hempty, List.flatMap_nil, List.append_nil]

/-- A record that fills the buffer sends it to the file. -/
theorem saveLoop_full (hnode : heap.get addr = some node) (hfull : writer.buffer.length + 1 = 64)
    (hshort : disk.short writer.calls = none) :
    saveLoop disk heap (fuel + 1) (some addr) writer =
      saveLoop disk heap fuel node.next (writer.add node.data).flushed := by
  have hlength : (writer.add node.data).buffer.length = 64 := by
    rw [Writer.add, List.length_append, List.length_singleton, hfull]
  have hround : saveLoop disk heap (fuel + 1) (some addr) writer =
      if ((writer.add node.data).fwrite disk).1 ≠ 64 then
        some (-2, ((writer.add node.data).fwrite disk).2)
      else saveLoop disk heap fuel node.next
        { ((writer.add node.data).fwrite disk).2 with buffer := [] } := by
    rw [saveLoop, hnode, Option.bind_some]
    exact if_pos hlength
  rw [hround, Writer.fwrite_of_none (show disk.short (writer.add node.data).calls = none from
    hshort), if_neg (not_not.mpr hlength)]
  rfl

theorem saveLoop_add (hnode : heap.get addr = some node)
    (hroom : writer.buffer.length + 1 ≠ 64) :
    saveLoop disk heap (fuel + 1) (some addr) writer =
      saveLoop disk heap fuel node.next (writer.add node.data) := by
  rw [saveLoop, hnode, Option.bind_some]
  simp only [List.length_append, List.length_singleton]
  exact if_neg hroom

end Rounds

/-- The loop writes what is in the buffer and the records behind the pointer. Assumes: the calls of
`fwrite` that this takes succeed. -/
theorem saveLoop_spec {disk : Disk} {heap : Heap Person} {previous first last : Option ℕ}
    {nodes : List (ℕ × Person)} {fuel : ℕ} {writer : Writer}
    (hsegment : Segment heap previous first nodes last none) (hfuel : nodes.length ≤ fuel)
    (hbuffer : writer.buffer.length < 64)
    (hwrites : ∀ call, writer.calls ≤ call →
      call < writer.calls + (writer.buffer.length + nodes.length + 63) / 64 →
      disk.short call = none) :
    ∃ written, saveLoop disk heap fuel first writer = some (0, written) ∧
      written.file =
        writer.file ++ (writer.buffer ++ nodes.map Prod.snd).flatMap Person.bytes := by
  induction nodes generalizing previous first fuel writer with
  | nil =>
    obtain ⟨-, rfl⟩ := hsegment
    rw [List.map_nil, List.append_nil]
    refine saveLoop_end fun hpending ↦ hwrites _ (Nat.le_refl _) ?_
    rw [List.length_nil]
    omega
  | cons node rest ih =>
    obtain ⟨rfl, next, hnode, hrest⟩ := hsegment
    obtain ⟨fuel, rfl⟩ : ∃ less, fuel = less + 1 :=
      Nat.exists_eq_succ_of_ne_zero (Nat.ne_of_gt (Nat.lt_of_lt_of_le (Nat.succ_pos _) hfuel))
    have hfuel' : rest.length ≤ fuel := Nat.le_of_succ_le_succ hfuel
    rw [List.length_cons] at hwrites
    by_cases hfull : writer.buffer.length + 1 = 64
    -- the buffer is full: it goes to the file, and the rest starts with an empty one
    · have hwrites' : ∀ call, writer.calls + 1 ≤ call →
          call < writer.calls + 1 + (0 + rest.length + 63) / 64 → disk.short call = none := by
        intro call hlower hupper
        exact hwrites call (by omega) (by omega)
      obtain ⟨written, hsave, hfile⟩ :=
        @ih _ _ _ (writer.add node.2).flushed hrest hfuel' (Nat.succ_pos 63) hwrites'
      refine ⟨written, ?_, ?_⟩
      · rw [saveLoop_full hnode hfull (hwrites _ (Nat.le_refl _) (by omega))]
        exact hsave
      · rw [hfile]
        simp [Writer.flushed, Writer.add]
    · have hlength : (writer.add node.2).buffer.length = writer.buffer.length + 1 := by
        rw [Writer.add, List.length_append, List.length_singleton]
      have hwrites' : ∀ call, writer.calls ≤ call →
          call < writer.calls + ((writer.add node.2).buffer.length + rest.length + 63) / 64 →
            disk.short call = none := by
        intro call hlower hupper
        rw [hlength] at hupper
        exact hwrites call hlower (by omega)
      obtain ⟨written, hsave, hfile⟩ :=
        @ih _ _ _ (writer.add node.2) hrest hfuel' (by omega) hwrites'
      refine ⟨written, ?_, ?_⟩
      · rw [saveLoop_add hnode hfull]
        exact hsave
      · rw [hfile]
        simp [Writer.add]

/-- `save_file` writes the images of the records in the order of the list. -/
theorem saveFile_spec {disk : Disk} {world : World} {people : List Person}
    (hworld : Holds world people) (hdisk : disk.Saves people.length) :
    saveFile disk world = some (0, some (people.flatMap Person.bytes)) := by
  obtain ⟨nodes, hlist, rfl⟩ := hworld
  obtain ⟨last, hsegment⟩ := hlist.segment
  have hsize := Heap.length_le_size hlist.nodup fun _ haddr ↦ hlist.get_ne_none haddr
  rw [addresses, List.length_map] at hsize
  have hbuffer : (⟨[], 0, []⟩ : Writer).buffer.length < 64 := by decide
  obtain ⟨written, hsave, hfile⟩ := saveLoop_spec hsegment hsize hbuffer (by
    intro call _ hcall
    apply hdisk.writes
    rw [List.length_map]
    simp only [List.length_nil] at hcall
    omega)
  rw [saveFile, if_pos hdisk.opens, hsave, Option.map_some]
  dsimp only
  rw [hfile]
  rfl

/-! ### What is read -/

theorem Person.ofBytes_bytes (person : Person) :
    Person.ofBytes person.bytes person.length_bytes = person := by
  have hname : person.bytes.take 16 = person.name.bytes :=
    List.take_left' person.name.length_eq
  have hphone : person.bytes.drop 16 = person.phone.bytes :=
    List.drop_left' person.name.length_eq
  simp only [Person.ofBytes, hname, hphone]

theorem Person.ofBytes_congr {bytes bytes' : List UInt8} (heq : bytes = bytes')
    (hlength : bytes.length = 32) (hlength' : bytes'.length = 32) :
    Person.ofBytes bytes hlength = Person.ofBytes bytes' hlength' := by
  subst heq
  rfl

/-- The image of a record stands in the file at its place. -/
theorem take_drop_flatMap_bytes (people : List Person) {index : ℕ}
    (hindex : index < people.length) :
    ((people.flatMap Person.bytes).drop (32 * index)).take 32 =
      (people.get ⟨index, hindex⟩).bytes := by
  induction people generalizing index with
  | nil => exact absurd hindex (Nat.not_lt_zero _)
  | cons person rest ih =>
    cases index with
    | zero => exact List.take_left' person.length_bytes
    | succ index =>
      have hlength := person.length_bytes
      rw [List.flatMap_cons, List.drop_append, List.drop_of_length_le (by omega), List.nil_append,
        hlength, show 32 * (index + 1) - 32 = 32 * index by omega]
      exact ih (Nat.lt_of_succ_lt_succ hindex)

/-- A file of images is cut into the same records again. -/
theorem records_flatMap_bytes (people : List Person) :
    records (people.flatMap Person.bytes) = people := by
  have hcount : (people.flatMap Person.bytes).length / 32 = people.length := by
    rw [length_flatMap_bytes]
    omega
  apply List.ext_getElem
  · rw [records, List.length_map, List.length_finRange, hcount]
  · intro index hindex hindex'
    simp only [records, List.getElem_map, List.getElem_finRange, Fin.val_cast]
    rw [Person.ofBytes_congr (take_drop_flatMap_bytes people hindex') _ (Person.length_bytes _),
      Person.ofBytes_bytes]
    rfl

/-- Loaded records are put in front one after the other. -/
theorem loadBatch_linked (alloc : Allocator) (people : List Person) {world : World}
    {existing : List Person} (hworld : Holds world existing) :
    ∃ world', loadBatch alloc people world = some world' ∧
      Holds world' (people.reverse ++ existing) ∧
      world'.cts.count = world.cts.count + people.length := by
  induction people generalizing world existing with
  | nil => exact ⟨world, rfl, hworld, rfl⟩
  | cons person rest ih =>
    obtain ⟨nodes, hlist, rfl⟩ := hworld
    obtain ⟨heap', hinsert, hlinked⟩ := personInsert_linked alloc person hlist
    have hfront : Holds ⟨⟨some (alloc.choose world.heap), world.cts.count + 1⟩, heap'⟩
        (person :: nodes.map Prod.snd) := ⟨_, hlinked, rfl⟩
    obtain ⟨world', hload, hholds, hcount⟩ := ih hfront
    refine ⟨world', ?_, ?_, ?_⟩
    · simp only [loadBatch, hinsert, Option.bind_eq_bind, Option.bind_some, if_true]
      exact hload
    · rw [List.reverse_cons, List.append_assoc]
      exact hholds
    · rw [hcount, List.length_cons]
      change world.cts.count + 1 + rest.length = world.cts.count + (rest.length + 1)
      omega

theorem loadFile_spec (alloc : Allocator) (people : List Person) {world : World}
    {existing : List Person} (hworld : Holds world existing) :
    ∃ world', loadFile alloc (some (people.flatMap Person.bytes)) world = some (0, world') ∧
      loadBatch alloc people world = some world' ∧
      Holds world' (people.reverse ++ existing) ∧
      world'.cts.count = world.cts.count + people.length := by
  obtain ⟨world', hload, hholds, hcount⟩ := loadBatch_linked alloc people hworld
  refine ⟨world', ?_, hload, hholds, hcount⟩
  rw [loadFile_eq, records_flatMap_bytes, hload]
  rfl

/-! ### Round trips -/

/-- Saving a list writes the images of its records in order. Loading this file turns every book into
the reversed list in front of the book, with the counter raised by the length of the list, whatever
the batches in which `fread` delivers the records. Saved and loaded twice, each time into an empty
book, the list is back in its order. Assumes: the files can be opened and written. -/
theorem contacts_file_round_trip {world : World} {people : List Person} {disk disk' : Disk}
    (hworld : Holds world people) (hdisk : disk.Saves people.length)
    (hdisk' : disk'.Saves people.length) (alloc alloc' : Allocator) :
    saveFile disk world = some (0, some (people.flatMap Person.bytes)) ∧
      (∀ book existing, Holds book existing → ∃ book',
        loadFile alloc (some (people.flatMap Person.bytes)) book = some (0, book') ∧
        Holds book' (people.reverse ++ existing) ∧
        book'.cts.count = book.cts.count + people.length ∧
        ∀ batches : List (List Person), batches.flatten = people →
          (∀ batch ∈ batches, 1 ≤ batch.length ∧ batch.length ≤ 64) →
          loadBatches alloc batches book = some book') ∧
      ∀ empty empty', Holds empty [] → Holds empty' [] → ∃ middle file final,
        loadFile alloc (some (people.flatMap Person.bytes)) empty = some (0, middle) ∧
        saveFile disk' middle = some (0, some file) ∧
        loadFile alloc' (some file) empty' = some (0, final) ∧ Holds final people := by
  refine ⟨saveFile_spec hworld hdisk, ?_, ?_⟩
  · intro book existing hbook
    obtain ⟨book', hload, hbatch, hholds, hcount⟩ := loadFile_spec alloc people hbook
    refine ⟨book', hload, hholds, hcount, ?_⟩
    intro batches hflatten hbatches
    rw [loadBatches_eq alloc (fun batch hmem ↦ Nat.ne_of_gt (hbatches batch hmem).1), hflatten]
    exact hbatch
  · intro empty empty' hempty hempty'
    obtain ⟨middle, hload, -, hmiddle, -⟩ := loadFile_spec alloc people hempty
    obtain ⟨final, hload', -, hfinal, -⟩ := loadFile_spec alloc' people.reverse hempty'
    rw [List.append_nil] at hmiddle
    rw [List.reverse_reverse, List.append_nil] at hfinal
    refine ⟨middle, people.reverse.flatMap Person.bytes, final, hload, ?_, hload', hfinal⟩
    apply saveFile_spec hmiddle
    rw [List.length_reverse]
    exact hdisk'

/-- A disk on which nothing fails. -/
def Disk.ample : Disk := ⟨true, fun _ ↦ none⟩

/-- A record of 32 equal bytes. -/
def Person.filled (byte : UInt8) : Person :=
  Person.ofBytes (List.replicate 32 byte) List.length_replicate

theorem contacts_file_round_trip_filled :
    ∃ world, loadBatch .above [.filled 65, .filled 66] .empty = some world ∧
      saveFile .ample world =
        some (0, some (List.replicate 32 66 ++ List.replicate 32 65)) := by
  have hempty : Holds .empty [] := ⟨[], .nil _, rfl⟩
  obtain ⟨world, hload, hholds, -⟩ := loadBatch_linked .above [.filled 65, .filled 66] hempty
  have hdisk : Disk.ample.Saves 2 := ⟨rfl, fun _ _ ↦ rfl⟩
  refine ⟨world, hload, ?_⟩
  rw [(contacts_file_round_trip hholds hdisk hdisk .above .above).1]
  decide +kernel

end TestLinux.ContactBook
