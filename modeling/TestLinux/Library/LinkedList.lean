import Mathlib.Data.List.AList

/-!
# Doubly linked lists in a heap

A `Heap` maps addresses to live nodes; a pointer is an optional address, and `none` is the null
pointer. Reading or writing a node that is not live has no result.

`Segment heap previous first nodes last after` says that the nodes are laid out one behind the
other: the first is at `first` and points back to `previous`, each points to its neighbours, the
last one is at `last` and points to `after`. A whole list is a segment between null pointers whose
addresses are distinct (`DoublyLinked`). `Segment.append_iff` cuts a segment in two, `Segment.frame`
carries it over a write elsewhere, and `Segment.linkNext` and `Segment.linkPrev` change what its
ends point to. `DoublyLinked.walk_eq` is the search from the front of a list: it ends, and finds the
first node that passes the test.

`Stacked` is a list whose nodes point forward only: every back pointer is null. It is what pushing
nodes at the front without touching the old front leaves.
-/

set_option autoImplicit false
set_option relaxedAutoImplicit false

namespace TestLinux.LinkedList

variable {α : Type*}

/-! ### Nodes and heaps -/

/-- A node of a doubly linked list. -/
structure Node (α : Type*) where
  data : α
  prev : Option ℕ
  next : Option ℕ

/-- The live nodes by address. -/
structure Heap (α : Type*) where
  cells : AList fun _ : ℕ ↦ Node α

/-- The heap without live nodes. -/
def Heap.empty : Heap α := ⟨∅⟩

/-- The node at an address. -/
def Heap.get (heap : Heap α) (addr : ℕ) : Option (Node α) := heap.cells.lookup addr

/-- Writes a node, live or new. -/
def Heap.set (heap : Heap α) (addr : ℕ) (node : Node α) : Heap α := ⟨heap.cells.insert addr node⟩

/-- Ends the life of a node. -/
def Heap.free (heap : Heap α) (addr : ℕ) : Heap α := ⟨heap.cells.erase addr⟩

/-- The number of live nodes. -/
def Heap.size (heap : Heap α) : ℕ := heap.cells.keys.length

@[simp] theorem Heap.get_set_self (heap : Heap α) (addr : ℕ) (node : Node α) :
    (heap.set addr node).get addr = some node :=
  AList.lookup_insert heap.cells

theorem Heap.get_set_of_ne (heap : Heap α) {addr other : ℕ} (node : Node α) (hne : other ≠ addr) :
    (heap.set addr node).get other = heap.get other :=
  AList.lookup_insert_ne hne

theorem Heap.get_free_of_ne (heap : Heap α) {addr other : ℕ} (hne : other ≠ addr) :
    (heap.free addr).get other = heap.get other :=
  AList.lookup_erase_ne hne

/-- Two nodes with different data lie at different addresses. -/
theorem Heap.ne_of_data_ne {heap : Heap α} {addr other : ℕ} {node node' : Node α}
    (hnode : heap.get addr = some node) (hnode' : heap.get other = some node')
    (hdata : node'.data ≠ node.data) : other ≠ addr := by
  rintro rfl
  rw [hnode, Option.some.injEq] at hnode'
  exact hdata (hnode' ▸ rfl)

/-- Writing a new node and freeing it again changes nothing. -/
theorem Heap.free_set_of_get_eq_none {heap : Heap α} {addr : ℕ} (node : Node α)
    (hnew : heap.get addr = none) : (heap.set addr node).free addr = heap := by
  have hcells : (heap.cells.insert addr node).erase addr = heap.cells := by
    refine AList.ext ?_
    change List.kerase addr (heap.cells.insert addr node).entries = heap.cells.entries
    rw [AList.entries_insert_of_notMem (AList.lookup_eq_none.mp hnew)]
    exact List.kerase_cons_eq rfl
  rw [Heap.set, Heap.free, hcells]

theorem Heap.length_le_size {heap : Heap α} {addrs : List ℕ} (hnodup : addrs.Nodup)
    (hlive : ∀ addr ∈ addrs, heap.get addr ≠ none) : addrs.length ≤ heap.size := by
  have hsubset : addrs ⊆ heap.cells.keys := fun addr haddr ↦
    AList.mem_keys.mp (not_not.mp fun hmem ↦ hlive addr haddr (AList.lookup_eq_none.mpr hmem))
  exact (List.subperm_of_subset hnodup hsubset).length_le

/-- Assigns to the `next` field of a live node. -/
def Heap.setNext (heap : Heap α) (addr : ℕ) (next : Option ℕ) : Option (Heap α) :=
  (heap.get addr).map fun node ↦ heap.set addr { node with next := next }

/-- Assigns to the `prev` field of a live node. -/
def Heap.setPrev (heap : Heap α) (addr : ℕ) (prev : Option ℕ) : Option (Heap α) :=
  (heap.get addr).map fun node ↦ heap.set addr { node with prev := prev }

/-- Assigns to the `next` field of a node unless the pointer to it is null. -/
def Heap.linkNext (heap : Heap α) (pointer next : Option ℕ) : Option (Heap α) :=
  match pointer with
  | none => some heap
  | some addr => heap.setNext addr next

/-- Assigns to the `prev` field of a node unless the pointer to it is null. -/
def Heap.linkPrev (heap : Heap α) (pointer prev : Option ℕ) : Option (Heap α) :=
  match pointer with
  | none => some heap
  | some addr => heap.setPrev addr prev

theorem Heap.setNext_eq {heap : Heap α} {addr : ℕ} {node : Node α} (next : Option ℕ)
    (hnode : heap.get addr = some node) :
    heap.setNext addr next = some (heap.set addr { node with next := next }) := by
  rw [Heap.setNext, hnode, Option.map_some]

theorem Heap.setPrev_eq {heap : Heap α} {addr : ℕ} {node : Node α} (prev : Option ℕ)
    (hnode : heap.get addr = some node) :
    heap.setPrev addr prev = some (heap.set addr { node with prev := prev }) := by
  rw [Heap.setPrev, hnode, Option.map_some]

/-! ### Segments -/

/-- The addresses of the nodes of a list. -/
def addresses (nodes : List (ℕ × α)) : List ℕ := nodes.map Prod.fst

@[simp] theorem addresses_cons (node : ℕ × α) (nodes : List (ℕ × α)) :
    addresses (node :: nodes) = node.1 :: addresses nodes := rfl

@[simp] theorem addresses_append (nodes more : List (ℕ × α)) :
    addresses (nodes ++ more) = addresses nodes ++ addresses more := List.map_append

/-- The nodes lie one behind the other between `previous` and `after`, from `first` to `last`. -/
def Segment (heap : Heap α) :
    (previous first : Option ℕ) → List (ℕ × α) → (last after : Option ℕ) → Prop
  | previous, first, [], last, after => last = previous ∧ after = first
  | previous, first, (addr, data) :: rest, last, after =>
    first = some addr ∧ ∃ next, heap.get addr = some ⟨data, previous, next⟩ ∧
      Segment heap (some addr) next rest last after

theorem Segment.append_iff {heap : Heap α} {previous first last after : Option ℕ}
    {nodes more : List (ℕ × α)} :
    Segment heap previous first (nodes ++ more) last after ↔
      ∃ middle next, Segment heap previous first nodes middle next ∧
        Segment heap middle next more last after := by
  induction nodes generalizing previous first with
  | nil =>
    constructor
    · intro hmore
      exact ⟨previous, first, ⟨rfl, rfl⟩, hmore⟩
    · rintro ⟨middle, next, ⟨rfl, rfl⟩, hmore⟩
      exact hmore
  | cons node rest ih =>
    constructor
    · rintro ⟨hfirst, next, hnode, hrest⟩
      obtain ⟨middle, inner, hnodes, hmore⟩ := ih.mp hrest
      exact ⟨middle, inner, ⟨hfirst, next, hnode, hnodes⟩, hmore⟩
    · rintro ⟨middle, inner, ⟨hfirst, next, hnode, hnodes⟩, hmore⟩
      exact ⟨hfirst, next, hnode, ih.mpr ⟨middle, inner, hnodes, hmore⟩⟩

/-- A heap that agrees on the addresses of a segment contains it as well. -/
theorem Segment.congr {heap heap' : Heap α} {previous first last after : Option ℕ}
    {nodes : List (ℕ × α)} (hsegment : Segment heap previous first nodes last after)
    (hsame : ∀ addr ∈ addresses nodes, heap'.get addr = heap.get addr) :
    Segment heap' previous first nodes last after := by
  induction nodes generalizing previous first with
  | nil => exact hsegment
  | cons node rest ih =>
    obtain ⟨hfirst, next, hnode, hrest⟩ := hsegment
    refine ⟨hfirst, next, ?_, ih hrest fun addr haddr ↦ hsame addr (List.mem_cons_of_mem _ haddr)⟩
    rw [hsame node.1 List.mem_cons_self]
    exact hnode

/-- A write elsewhere keeps a segment. -/
theorem Segment.frame {heap : Heap α} {previous first last after : Option ℕ}
    {nodes : List (ℕ × α)} {addr : ℕ} (hsegment : Segment heap previous first nodes last after)
    (node : Node α) (haddr : addr ∉ addresses nodes) :
    Segment (heap.set addr node) previous first nodes last after :=
  hsegment.congr fun _ hother ↦ heap.get_set_of_ne node fun heq ↦ haddr (heq ▸ hother)

/-- The nodes of a segment are live. -/
theorem Segment.get_of_mem {heap : Heap α} {previous first last after : Option ℕ}
    {nodes : List (ℕ × α)} (hsegment : Segment heap previous first nodes last after) {addr : ℕ}
    (haddr : addr ∈ addresses nodes) : heap.get addr ≠ none := by
  induction nodes generalizing previous first with
  | nil => exact absurd haddr List.not_mem_nil
  | cons node rest ih =>
    obtain ⟨-, next, hnode, hrest⟩ := hsegment
    rcases List.mem_cons.mp haddr with rfl | hmem
    · rw [hnode]
      exact Option.some_ne_none _
    · exact ih hrest hmem

/-- Makes the last node of a segment point to something else. A segment without nodes starts there
instead. -/
theorem Segment.linkNext {heap : Heap α} {first last after : Option ℕ} {nodes : List (ℕ × α)}
    (hsegment : Segment heap none first nodes last after) (hnodup : (addresses nodes).Nodup)
    (after' : Option ℕ) :
    ∃ heap', heap.linkNext last after' = some heap' ∧
      Segment heap' none (if nodes = [] then after' else first) nodes last after' ∧
      ∀ other ∉ addresses nodes, heap'.get other = heap.get other := by
  rcases List.eq_nil_or_concat' nodes with rfl | ⟨rest, ⟨addr, data⟩, rfl⟩
  · obtain ⟨rfl, rfl⟩ := hsegment
    exact ⟨heap, rfl, ⟨rfl, rfl⟩, fun _ _ ↦ rfl⟩
  · obtain ⟨middle, next, hrest, rfl, behind, hnode, rfl, rfl⟩ := Segment.append_iff.mp hsegment
    have haddr : addr ∉ addresses rest := by
      rw [addresses_append, List.nodup_append] at hnodup
      exact fun hmem ↦ hnodup.2.2 addr hmem addr List.mem_cons_self rfl
    refine ⟨_, Heap.setNext_eq after' hnode, ?_, fun other hother ↦ ?_⟩
    · rw [if_neg (by simp)]
      exact Segment.append_iff.mpr ⟨middle, some addr, hrest.frame _ haddr, rfl, after',
        Heap.get_set_self _ _ _, rfl, rfl⟩
    · refine Heap.get_set_of_ne _ _ fun heq ↦ hother ?_
      rw [heq, addresses_append]
      exact List.mem_append_right _ List.mem_cons_self

/-- Makes the first node of a segment point back to something else. -/
theorem Segment.linkPrev {heap : Heap α} {previous first last : Option ℕ} {nodes : List (ℕ × α)}
    (hsegment : Segment heap previous first nodes last none) (hnodup : (addresses nodes).Nodup)
    (previous' : Option ℕ) :
    ∃ heap' last', heap.linkPrev first previous' = some heap' ∧
      Segment heap' previous' first nodes last' none ∧
      ∀ other ∉ addresses nodes, heap'.get other = heap.get other := by
  cases nodes with
  | nil =>
    obtain ⟨rfl, rfl⟩ := hsegment
    exact ⟨heap, previous', rfl, ⟨rfl, rfl⟩, fun _ _ ↦ rfl⟩
  | cons node rest =>
    obtain ⟨rfl, next, hnode, hrest⟩ := hsegment
    refine ⟨_, last, Heap.setPrev_eq previous' hnode, ⟨rfl, next, Heap.get_set_self _ _ _, ?_⟩,
      fun other hother ↦ ?_⟩
    · exact hrest.frame _ (List.nodup_cons.mp hnodup).1
    · exact Heap.get_set_of_ne _ _ fun heq ↦ hother (heq ▸ List.mem_cons_self)

/-! ### Lists -/

/-- A list from `first` on: the first node points back to null and the last one forward to null, the
neighbours of a node point to it, every node is live and none is met twice. -/
structure DoublyLinked (heap : Heap α) (first : Option ℕ) (nodes : List (ℕ × α)) : Prop where
  segment : ∃ last, Segment heap none first nodes last none
  nodup : (addresses nodes).Nodup

theorem DoublyLinked.nil (heap : Heap α) : DoublyLinked heap none [] :=
  ⟨⟨none, rfl, rfl⟩, List.nodup_nil⟩

theorem DoublyLinked.eq_nil_of_null {heap : Heap α} {nodes : List (ℕ × α)}
    (hlist : DoublyLinked heap none nodes) : nodes = [] := by
  obtain ⟨last, hsegment⟩ := hlist.segment
  cases nodes with
  | nil => rfl
  | cons node rest => exact absurd hsegment.1.symm (Option.some_ne_none _)

theorem DoublyLinked.get_ne_none {heap : Heap α} {first : Option ℕ} {nodes : List (ℕ × α)}
    (hlist : DoublyLinked heap first nodes) {addr : ℕ} (haddr : addr ∈ addresses nodes) :
    heap.get addr ≠ none := by
  obtain ⟨last, hsegment⟩ := hlist.segment
  exact hsegment.get_of_mem haddr

theorem Segment.nodes_unique {heap : Heap α} {previous first last last' : Option ℕ}
    {nodes nodes' : List (ℕ × α)} (hsegment : Segment heap previous first nodes last none)
    (hsegment' : Segment heap previous first nodes' last' none) : nodes = nodes' := by
  induction nodes generalizing previous first nodes' with
  | nil =>
    obtain ⟨-, rfl⟩ := hsegment
    cases nodes' with
    | nil => rfl
    | cons node' rest' => exact absurd hsegment'.1.symm (Option.some_ne_none _)
  | cons node rest ih =>
    obtain ⟨rfl, next, hget, hrest⟩ := hsegment
    cases nodes' with
    | nil => exact absurd hsegment'.2.symm (Option.some_ne_none _)
    | cons node' rest' =>
      obtain ⟨haddr, next', hget', hrest'⟩ := hsegment'
      rw [← Option.some.inj haddr, hget, Option.some.injEq, Node.mk.injEq] at hget'
      obtain ⟨hdata, -, rfl⟩ := hget'
      rw [← Option.some.inj haddr] at hrest'
      rw [ih hrest hrest', Prod.ext (Option.some.inj haddr) hdata]

/-- The heap and the first pointer determine the list. -/
theorem DoublyLinked.nodes_unique {heap : Heap α} {first : Option ℕ} {nodes nodes' : List (ℕ × α)}
    (hlist : DoublyLinked heap first nodes) (hlist' : DoublyLinked heap first nodes') :
    nodes = nodes' := by
  obtain ⟨last, hsegment⟩ := hlist.segment
  obtain ⟨last', hsegment'⟩ := hlist'.segment
  exact hsegment.nodes_unique hsegment'

/-- A write elsewhere keeps a list. -/
theorem DoublyLinked.frame {heap : Heap α} {first : Option ℕ} {nodes : List (ℕ × α)} {addr : ℕ}
    (hlist : DoublyLinked heap first nodes) (node : Node α) (haddr : addr ∉ addresses nodes) :
    DoublyLinked (heap.set addr node) first nodes := by
  obtain ⟨last, hsegment⟩ := hlist.segment
  exact ⟨⟨last, hsegment.frame node haddr⟩, hlist.nodup⟩

/-! ### Searching -/

/-- Follows the `next` pointers up to a node that passes the test. A walk of more steps than `fuel`
has no result. -/
def walk (heap : Heap α) (test : ℕ → α → Option Bool) : (fuel : ℕ) → Option ℕ → Option (Option ℕ)
  | _, none => some none
  | 0, some _ => none
  | fuel + 1, some addr =>
    (heap.get addr).bind fun node ↦ (test addr node.data).bind fun passed ↦
      if passed then some (some addr) else walk heap test fuel node.next

/-- The walk over a segment that ends at null stops at its first node that passes the test. Assumes:
the test has a result on every node. -/
theorem walk_segment {heap : Heap α} {test : ℕ → α → Option Bool} {passes : ℕ × α → Bool}
    {previous first last : Option ℕ} {nodes : List (ℕ × α)} {fuel : ℕ}
    (hsegment : Segment heap previous first nodes last none)
    (htest : ∀ node ∈ nodes, test node.1 node.2 = some (passes node))
    (hfuel : nodes.length ≤ fuel) :
    walk heap test fuel first = some ((nodes.find? passes).map Prod.fst) := by
  induction nodes generalizing previous first fuel with
  | nil =>
    obtain ⟨-, rfl⟩ := hsegment
    rw [walk]
    rfl
  | cons node rest ih =>
    obtain ⟨rfl, next, hnode, hrest⟩ := hsegment
    obtain ⟨fuel, rfl⟩ : ∃ less, fuel = less + 1 :=
      Nat.exists_eq_succ_of_ne_zero (Nat.ne_of_gt (Nat.lt_of_lt_of_le (Nat.succ_pos _) hfuel))
    have htail := ih hrest (fun other hother ↦ htest other (List.mem_cons_of_mem node hother))
      (Nat.le_of_succ_le_succ hfuel)
    rw [walk, hnode, Option.bind_some, htest node List.mem_cons_self, Option.bind_some]
    cases hpasses : passes node with
    | true => rw [List.find?_cons_of_pos hpasses]; rfl
    | false => rw [List.find?_cons_of_neg (by simp [hpasses]), ← htail]; rfl

theorem DoublyLinked.walk_eq {heap : Heap α} {test : ℕ → α → Option Bool} {passes : ℕ × α → Bool}
    {first : Option ℕ} {nodes : List (ℕ × α)} (hlist : DoublyLinked heap first nodes)
    (htest : ∀ node ∈ nodes, test node.1 node.2 = some (passes node)) :
    walk heap test heap.size first = some ((nodes.find? passes).map Prod.fst) := by
  obtain ⟨last, hsegment⟩ := hlist.segment
  have hsize := Heap.length_le_size hlist.nodup fun _ haddr ↦ hlist.get_ne_none haddr
  rw [addresses, List.length_map] at hsize
  exact walk_segment hsegment htest hsize

/-! ### Lists without back pointers -/

/-- The nodes lie one behind the other from `first` to null, and none of them points back. -/
def Stacked (heap : Heap α) : (first : Option ℕ) → List (ℕ × α) → Prop
  | first, [] => first = none
  | first, (addr, data) :: rest =>
    first = some addr ∧ ∃ next, heap.get addr = some ⟨data, none, next⟩ ∧ Stacked heap next rest

theorem Stacked.congr {heap heap' : Heap α} {first : Option ℕ} {nodes : List (ℕ × α)}
    (hstacked : Stacked heap first nodes)
    (hsame : ∀ addr ∈ addresses nodes, heap'.get addr = heap.get addr) :
    Stacked heap' first nodes := by
  induction nodes generalizing first with
  | nil => exact hstacked
  | cons node rest ih =>
    obtain ⟨hfirst, next, hnode, hrest⟩ := hstacked
    refine ⟨hfirst, next, ?_, ih hrest fun addr haddr ↦ hsame addr (List.mem_cons_of_mem _ haddr)⟩
    rw [hsame node.1 List.mem_cons_self]
    exact hnode

/-- The nodes of a stack are live, with their data. -/
theorem Stacked.get_of_mem {heap : Heap α} {first : Option ℕ} {nodes : List (ℕ × α)}
    (hstacked : Stacked heap first nodes) {addr : ℕ} {data : α} (hnode : (addr, data) ∈ nodes) :
    ∃ next, heap.get addr = some ⟨data, none, next⟩ := by
  induction nodes generalizing first with
  | nil => exact absurd hnode List.not_mem_nil
  | cons node rest ih =>
    obtain ⟨-, next, hlive, hrest⟩ := hstacked
    rcases List.mem_cons.mp hnode with rfl | hmem
    · exact ⟨next, hlive⟩
    · exact ih hrest hmem

end TestLinux.LinkedList
