import TestLinux.ContactBook.Duplicates
import TestLinux.Library.Chains
import TestLinux.Library.TextInput

/-!
# The menu of the contact book

`menuStep` is one round of the loop of `menu_function`: it extracts a selection from `std::cin` and
calls the function for it, which skips the rest of the line and reads one or two lines. The menu
does not look at what the function returns, so that the next round depends on the stream and on the
variable `select` only. `serve` names the call that is made, and `requests_run` follows the calls on
the book.

A stream that has failed stays as it is, and the menu never clears it. `Answers text` says in terms
of the text alone that every selection that is asked for is an integer, up to a 7, and
`menuFunction_returns_iff` that the menu returns for such texts and for no others: a round either
shortens the unread text or leads to a state that is repeated forever.
-/

set_option autoImplicit false
set_option relaxedAutoImplicit false

namespace TestLinux.ContactBook

open TestLinux.Runs TestLinux.Chains TestLinux.TextInput StateTransition Relation

/-! ### The loop -/

/-- `FUNCTION`. -/
inductive Function
  | optionInsert
  | optionPrint
  | optionDelete
  | optionSearch
  | optionSave
  | optionLoad
  | optionExit
  deriving DecidableEq, Repr

/-- The cases of the `switch`; there is none for the other values. -/
def Function.ofSelect (select : ℤ) : Option Function :=
  if select = 1 then some .optionInsert
  else if select = 2 then some .optionPrint
  else if select = 3 then some .optionDelete
  else if select = 4 then some .optionSearch
  else if select = 5 then some .optionSave
  else if select = 6 then some .optionLoad
  else if select = 7 then some .optionExit
  else none

/-- A call with the lines that it has read. -/
inductive Request
  | insertEntry (nameTmp phoneTmp : List UInt8)
  | printEntry
  | deleteEntry (nameTmp : List UInt8)
  | searchEntry (nameTmp : List UInt8)
  | saveEntry (filename : List UInt8)
  | loadEntry (filename : List UInt8)
  deriving DecidableEq, Repr

/-- The input of `delete_entry`, `search_entry`, `save_entry` and `load_entry`. -/
def readLine (request : List UInt8 → Request) (cin : Istream) : Option Request × Istream :=
  let (line, cin) := cin.ignoreLine.getline
  (some (request line), cin)

/-- The call that is made for a selection, and the stream behind its input. -/
def serve (function : Option Function) (cin : Istream) : Option Request × Istream :=
  match function with
  | some .optionInsert =>
    let (nameTmp, cin) := cin.ignoreLine.getline
    let (phoneTmp, cin) := cin.getline
    (some (.insertEntry nameTmp phoneTmp), cin)
  | some .optionPrint => (some .printEntry, cin)
  | some .optionDelete => readLine .deleteEntry cin
  | some .optionSearch => readLine .searchEntry cin
  | some .optionSave => readLine .saveEntry cin
  | some .optionLoad => readLine .loadEntry cin
  | some .optionExit => (none, cin)
  | none => (none, cin)

/-- What the loop keeps from one round to the next. -/
structure Menu where
  cin : Istream
  select : ℤ
  deriving DecidableEq, Repr

/-- One round of the loop. There is no next state behind `return 0`. -/
def menuStep (menu : Menu) : Option Menu :=
  let (select, cin) := menu.cin.readInt menu.select
  if Function.ofSelect select = some .optionExit then none
  else some ⟨(serve (Function.ofSelect select) cin).2, select⟩

/-- The state before the loop. -/
def Menu.start (text : List UInt8) : Menu := ⟨.ofText text, 0⟩

/-- `menu_function` returns on this input. -/
def MenuFunctionReturns (text : List UInt8) : Prop := (eval menuStep (.start text)).Dom

/-! ### The calls on the book -/

/-- The call that a round makes. -/
def Menu.request (menu : Menu) : Option Request :=
  let (select, cin) := menu.cin.readInt menu.select
  (serve (Function.ofSelect select) cin).1

/-- What a call does to the book, given what `new`, `fwrite` and `fopen` do. -/
def Request.operation (alloc : Allocator) (disk : Disk)
    (files : List UInt8 → Option (List UInt8)) : Request → Option Operation
  | .insertEntry nameTmp phoneTmp => some (.call (.insertEntry alloc nameTmp phoneTmp))
  | .printEntry => none
  | .deleteEntry nameTmp => some (.call (.deleteEntry nameTmp))
  | .searchEntry nameTmp => some (.call (.searchEntry nameTmp))
  | .saveEntry _ => some (.saveEntry disk)
  | .loadEntry filename => some (.call (.loadEntry alloc (files filename)))

/-- The calls of the first rounds. -/
def Menu.requests : (rounds : ℕ) → Menu → List Request
  | 0, _ => []
  | rounds + 1, menu =>
    match menuStep menu with
    | none => []
    | some next => menu.request.toList ++ next.requests rounds

/-- The records that an operation loads hold a NUL in each array. -/
def Operation.Terminated : Operation → Prop
  | .call event => event.Terminated
  | .saveEntry _ => True

theorem operate_stores (world : World) (operation : Operation)
    (hworld : ∃ nodes book, Stores world nodes book) (hoperation : operation.Terminated) :
    ∃ next, operate world operation = some next ∧ ∃ nodes book, Stores next nodes book := by
  obtain ⟨nodes, book, hstores⟩ := hworld
  cases operation with
  | call event =>
    obtain ⟨next, nodes', hcall, hnext, -⟩ := call_spec hstores hoperation
    exact ⟨next, by rw [operate, step, hcall, Option.map_some], nodes', _, hnext⟩
  | saveEntry disk => exact ⟨world, hstores.operate_saveEntry disk, nodes, book, hstores⟩

/-- Whatever is typed, the calls of the menu go through and leave a list of terminated entries.
Assumes: each record of the files that can be loaded holds a NUL in its name and in its phone
number. -/
theorem requests_run (alloc : Allocator) (disk : Disk) {files : List UInt8 → Option (List UInt8)}
    (hfiles : ∀ filename, (Call.loadEntry alloc (files filename)).Terminated) (text : List UInt8)
    (rounds : ℕ) :
    ∃ world, run operate .empty
        (((Menu.start text).requests rounds).filterMap (Request.operation alloc disk files)) =
          some world ∧ ∃ nodes book, Stores world nodes book := by
  have hoperations : ∀ operation ∈ ((Menu.start text).requests rounds).filterMap
      (Request.operation alloc disk files), operation.Terminated := by
    intro operation hmem
    obtain ⟨request, -, hrequest⟩ := List.mem_filterMap.mp hmem
    cases request with
    | printEntry => exact absurd hrequest.symm (Option.some_ne_none _)
    | loadEntry filename =>
      obtain rfl := Option.some.inj hrequest
      exact hfiles filename
    | _ =>
      obtain rfl := Option.some.inj hrequest
      trivial
  exact exists_run operate_stores ⟨[], [], stores_empty⟩ hoperations

/-! ### Texts that answer the menu -/

/-- The text behind the input of a call: the rest of the line of the selection and one or two lines,
or nothing at all. -/
def passOver : Option Function → List UInt8 → List UInt8
  | some .optionInsert, rest => dropLine (dropLine (dropLine rest))
  | some .optionPrint, rest => rest
  | some .optionDelete, rest => dropLine (dropLine rest)
  | some .optionSearch, rest => dropLine (dropLine rest)
  | some .optionSave, rest => dropLine (dropLine rest)
  | some .optionLoad, rest => dropLine (dropLine rest)
  | some .optionExit, rest => rest
  | none, rest => rest

/-- Where a selection is asked for, the text goes on with an integer that fits an `int`, and one of
these integers is a 7. -/
inductive Answers : List UInt8 → Prop
  | exit {text rest : List UInt8} : leadingInt text = some (7, rest) → Answers text
  | again {text rest : List UInt8} {select : ℤ} : leadingInt text = some (select, rest) →
      select ≠ 7 → Answers (passOver (Function.ofSelect select) rest) → Answers text

/-- The line 7 comes up while a selection is asked for, for a reader who takes the text line by
line: the lines 1 to 6 are selections and are followed by the lines that their functions read, and
any other line is not a selection and is passed over. -/
inductive SevenAsked : List UInt8 → Prop
  | seven {text : List UInt8} : takeLine text = [0x37] → SevenAsked text
  | selection {text : List UInt8} {digit : UInt8} : takeLine text = [digit] → 0x31 ≤ digit →
      digit ≤ 0x36 → SevenAsked (passOver (Function.ofSelect (digit.toNat - 0x30 : ℤ))
        (text.drop 1)) → SevenAsked text
  | other {text : List UInt8} : text ≠ [] →
      (∀ digit : UInt8, 0x31 ≤ digit → digit ≤ 0x37 → takeLine text ≠ [digit]) →
      SevenAsked (dropLine text) → SevenAsked text

theorem ofSelect_eq_exit_iff {select : ℤ} :
    Function.ofSelect select = some .optionExit ↔ select = 7 := by
  rw [Function.ofSelect]
  split_ifs with h₁ h₂ h₃ h₄ h₅ h₆ h₇ <;> simp_all

theorem length_passOver_le (function : Option Function) (rest : List UInt8) :
    (passOver function rest).length ≤ rest.length := by
  have htwo := (length_dropLine_le (dropLine rest)).trans (length_dropLine_le rest)
  rcases function with - | function
  · exact Nat.le_refl _
  · cases function with
    | optionInsert => exact (length_dropLine_le _).trans htwo
    | optionPrint => exact Nat.le_refl _
    | optionExit => exact Nat.le_refl _
    | optionDelete => exact htwo
    | optionSearch => exact htwo
    | optionSave => exact htwo
    | optionLoad => exact htwo

/-! ### Rounds -/

theorem serve_of_fail (function : Option Function) {cin : Istream} (hfail : cin.fail = true) :
    (serve function cin).2 = cin := by
  have hignore := Istream.ignoreLine_of_fail hfail
  have hgetline := Istream.getline_of_fail hfail
  rcases function with - | function
  · rfl
  · cases function <;> simp [serve, readLine, hignore, hgetline]

/-- The functions take the lines of their input off the text. -/
theorem serve_of_ready (function : Option Function) {cin : Istream} (hready : cin.Ready) :
    (serve function cin).2.Ready ∧
      (serve function cin).2.unread = passOver function cin.unread := by
  obtain ⟨hready₁, hunread₁⟩ := hready.ignoreLine
  obtain ⟨hready₂, hunread₂⟩ := hready₁.getline
  obtain ⟨hready₃, hunread₃⟩ := hready₂.getline
  rw [hunread₁] at hunread₂
  rw [hunread₂] at hunread₃
  rcases function with - | function
  · exact ⟨hready, rfl⟩
  · cases function with
    | optionInsert => exact ⟨hready₃, hunread₃⟩
    | optionPrint => exact ⟨hready, rfl⟩
    | optionExit => exact ⟨hready, rfl⟩
    | optionDelete => exact ⟨hready₂, hunread₂⟩
    | optionSearch => exact ⟨hready₂, hunread₂⟩
    | optionSave => exact ⟨hready₂, hunread₂⟩
    | optionLoad => exact ⟨hready₂, hunread₂⟩

theorem menuStep_of_ne {menu : Menu} {select : ℤ} {cin : Istream}
    (hread : menu.cin.readInt menu.select = (select, cin)) (hselect : select ≠ 7) :
    menuStep menu = some ⟨(serve (Function.ofSelect select) cin).2, select⟩ := by
  rw [menuStep, hread]
  exact if_neg (mt ofSelect_eq_exit_iff.mp hselect)

/-- The loop goes on forever on a stream that has failed. -/
theorem not_dom_of_fail {menu : Menu} (hfail : menu.cin.fail = true) (hselect : menu.select ≠ 7) :
    ¬ (eval menuStep menu).Dom := by
  have hself : menuStep menu = some menu := by
    rw [menuStep_of_ne (Istream.readInt_of_fail hfail _) hselect, serve_of_fail _ hfail]
  exact not_dom_of_cycle ReflTransGen.refl (TransGen.single hself)

/-- A round that finds no integer lets the stream fail. -/
theorem not_dom_of_leadingInt {menu : Menu} (hleading : leadingInt menu.cin.unread = none)
    (hselect : menu.select ≠ 7) : ¬ (eval menuStep menu).Dom := by
  obtain ⟨hfail, hvalue⟩ := Istream.readInt_of_none hleading menu.select
  have hne : (menu.cin.readInt menu.select).1 ≠ 7 := by
    intro heq
    rw [heq] at hvalue
    simp only [List.mem_cons, List.not_mem_nil, or_false] at hvalue
    rcases hvalue with hkept | hzero | hmin | hmax
    · exact hselect hkept.symm
    · exact absurd hzero (by decide)
    · exact absurd hmin (by decide)
    · exact absurd hmax (by decide)
  have hstep := menuStep_of_ne (Prod.mk.eta).symm hne
  rw [serve_of_fail _ hfail] at hstep
  rw [reaches_eval (ReflTransGen.single hstep)]
  exact not_dom_of_fail hfail hne

theorem not_answers_of_none {text : List UInt8} (hleading : leadingInt text = none) :
    ¬ Answers text := by
  intro hanswers
  cases hanswers with
  | exit hsome => exact absurd (hleading.symm.trans hsome) (Option.some_ne_none _).symm
  | again hsome => exact absurd (hleading.symm.trans hsome) (Option.some_ne_none _).symm

/-- A text that begins with an answer other than 7 goes on behind what the function takes. -/
theorem answers_iff_of_some {text rest : List UInt8} {select : ℤ}
    (hleading : leadingInt text = some (select, rest)) (hselect : select ≠ 7) :
    Answers text ↔ Answers (passOver (Function.ofSelect select) rest) := by
  refine ⟨fun hanswers ↦ ?_, fun hanswers ↦ .again hleading hselect hanswers⟩
  cases hanswers with
  | exit hsome =>
    rw [hleading, Option.some.injEq, Prod.mk.injEq] at hsome
    exact absurd hsome.1 hselect
  | again hsome _ hrest =>
    rw [hleading, Option.some.injEq, Prod.mk.injEq] at hsome
    obtain ⟨rfl, rfl⟩ := hsome
    exact hrest

/-- The menu returns on the rest of the input exactly if it answers all that is asked. -/
theorem dom_iff_answers {menu : Menu} (hready : menu.cin.Ready) (hselect : menu.select ≠ 7) :
    (eval menuStep menu).Dom ↔ Answers menu.cin.unread := by
  induction hlength : menu.cin.unread.length using Nat.strong_induction_on generalizing menu with
  | _ length ih =>
    cases hleading : leadingInt menu.cin.unread with
    | none =>
      exact iff_of_false (not_dom_of_leadingInt hleading hselect) (not_answers_of_none hleading)
    | some read =>
      obtain ⟨select, rest⟩ := read
      have hshorter := length_lt_of_leadingInt hleading
      have hgood : menu.cin.good = true := hready.resolve_right fun hempty ↦ by
        rw [hempty] at hshorter
        exact Nat.not_lt_zero _ hshorter
      have hread := Istream.readInt_of_some hgood hleading menu.select
      by_cases hseven : select = 7
      · subst hseven
        have hstop : menuStep menu = none := by
          rw [menuStep, hread]
          rfl
        refine iff_of_true ?_ (.exit hleading)
        exact Part.dom_iff_mem.mpr ⟨menu, mem_eval.mpr ⟨ReflTransGen.refl, hstop⟩⟩
      · obtain ⟨hready', hunread⟩ :=
          serve_of_ready (Function.ofSelect select) (Istream.ready_mk rest)
        have hlt : (passOver (Function.ofSelect select) rest).length < length :=
          Nat.lt_of_le_of_lt (length_passOver_le _ _) (hlength ▸ hshorter)
        rw [reaches_eval (ReflTransGen.single (menuStep_of_ne hread hseven)),
          ih _ hlt hready' hseven (congrArg List.length hunread),
          answers_iff_of_some hleading hseven]
        dsimp only
        rw [hunread]

/-- For every text, `menu_function` returns exactly if the text answers the menu: each selection
that is asked for, up to a 7, is an integer that fits an `int`. -/
theorem menuFunction_returns_iff (text : List UInt8) :
    MenuFunctionReturns text ↔ Answers text :=
  dom_iff_answers (Or.inl (Istream.good_ofText text)) (show (0 : ℤ) ≠ 7 by decide)

/-- The line `x` and then the line `7`. -/
def wordThenSeven : List UInt8 := [0x78, 0x0A, 0x37, 0x0A]

/-- The failure: behind a line that is not a number, the line 7 comes up while a selection is asked
for, and the menu does not return. -/
theorem menu_stuck_on_word :
    SevenAsked wordThenSeven ∧ ¬ MenuFunctionReturns wordThenSeven := by
  constructor
  · refine .other (by decide) ?_ (.seven (by decide))
    intro digit hlower hupper heq
    obtain rfl : (0x78 : UInt8) = digit := (List.cons.inj heq).1
    exact absurd hupper (by decide)
  · exact not_dom_of_leadingInt (by decide) (by decide)

end TestLinux.ContactBook
