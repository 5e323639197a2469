import TestLinux.AsyncDns.Response

/-!
# Compressed names

`NameAt` are the names of RFC 1035: labels of 1 to 63 bytes, ended by a zero byte or by a pointer
with a 14-bit offset to an earlier name. The texts that `Spells` finds agree with them until a
pointer with an offset of 256 or more is met, of which the parser takes the low byte only.
`decodes_iff` says that the parser decodes a name exactly if it meets no such pointer, or finds by
accident the text of the name at the low byte of the offset.
-/

set_option autoImplicit false
set_option relaxedAutoImplicit false

namespace TestLinux.AsyncDns

open TestLinux.Wire TestLinux.Dns

/-! ### Names of RFC 1035 -/

/-- A label stands at a position. -/
structure LabelAt (message : List UInt8) (ptr : ℕ) (label : List UInt8) : Prop where
  sized : 1 ≤ label.length ∧ label.length ≤ 63
  length : message[ptr]? = some (UInt8.ofNat label.length)
  bytes : (message.drop (ptr + 1)).take label.length = label

/-- A pointer stands at a position. -/
structure PointerAt (message : List UInt8) (ptr target : ℕ) : Prop where
  offset : target < 16384
  high : message[ptr]? = some (UInt8.ofNat (192 + target / 256))
  low : message[ptr + 1]? = some (UInt8.ofNat (target % 256))

/-- A name stands at a position. It has at least one label. -/
inductive NameAt (message : List UInt8) : ℕ → List (List UInt8) → Prop where
  | last (ptr : ℕ) (label : List UInt8) (hlabel : LabelAt message ptr label)
      (hend : message[ptr + 1 + label.length]? = some 0) : NameAt message ptr [label]
  | label (ptr : ℕ) (label : List UInt8) (labels : List (List UInt8))
      (hlabel : LabelAt message ptr label)
      (hrest : NameAt message (ptr + 1 + label.length) labels) :
      NameAt message ptr (label :: labels)
  | pointer (ptr target : ℕ) (labels : List (List UInt8))
      (hpointer : PointerAt message ptr target) (hearlier : target < ptr)
      (hname : NameAt message target labels) : NameAt message ptr labels

/-- From a position, over labels and pointers with offsets below 256, a pointer with an offset of
256 or more is met, to a name. -/
inductive MeetsFar (message : List UInt8) : ℕ → ℕ → List (List UInt8) → Prop where
  | here (ptr target : ℕ) (labels : List (List UInt8)) (hpointer : PointerAt message ptr target)
      (hfar : 256 ≤ target) (hname : NameAt message target labels) :
      MeetsFar message ptr target labels
  | label (ptr target : ℕ) (label : List UInt8) (labels : List (List UInt8))
      (hlabel : LabelAt message ptr label)
      (hrest : MeetsFar message (ptr + 1 + label.length) target labels) :
      MeetsFar message ptr target labels
  | pointer (ptr near target : ℕ) (labels : List (List UInt8))
      (hpointer : PointerAt message ptr near) (hnear : near < 256)
      (hrest : MeetsFar message near target labels) : MeetsFar message ptr target labels

section Unique

variable {message : List UInt8} {ptr : ℕ}

theorem LabelAt.announceable {label : List UInt8} (hlabel : LabelAt message ptr label) :
    Announceable label :=
  ⟨hlabel.sized.1, Nat.lt_of_le_of_lt hlabel.sized.2 (by decide)⟩

theorem LabelAt.unique {label other : List UInt8} (hlabel : LabelAt message ptr label)
    (hother : LabelAt message ptr other) : other = label := by
  have hbyte := Option.some.inj (hother.length.symm.trans hlabel.length)
  have hlength : other.length = label.length := by
    rw [← toNat_length_byte hother.announceable, hbyte, toNat_length_byte hlabel.announceable]
  rw [← hother.bytes, hlength, hlabel.bytes]

theorem PointerAt.toNat_high {target : ℕ} (hpointer : PointerAt message ptr target) :
    (UInt8.ofNat (192 + target / 256)).toNat = 192 + target / 256 := by
  have hoffset := hpointer.offset
  rw [UInt8.toNat_ofNat']
  exact Nat.mod_eq_of_lt (by omega)

theorem PointerAt.toNat_low (target : ℕ) : (UInt8.ofNat (target % 256)).toNat = target % 256 := by
  rw [UInt8.toNat_ofNat']
  exact Nat.mod_eq_of_lt (Nat.mod_lt target (by decide))

theorem PointerAt.unique {target other : ℕ} (hpointer : PointerAt message ptr target)
    (hother : PointerAt message ptr other) : other = target := by
  have hhigh := Option.some.inj (hother.high.symm.trans hpointer.high)
  have hlow := Option.some.inj (hother.low.symm.trans hpointer.low)
  have hquotient : 192 + other / 256 = 192 + target / 256 := by
    rw [← hother.toNat_high, hhigh, hpointer.toNat_high]
  have hremainder : other % 256 = target % 256 := by
    rw [← PointerAt.toNat_low other, hlow, PointerAt.toNat_low]
  omega

/-- A pointer is recognised as one. -/
theorem PointerAt.isPointer {target : ℕ} (hpointer : PointerAt message ptr target) :
    AsyncDns.isPointer (UInt8.ofNat (192 + target / 256)) := by
  have hall : ∀ high < 64, AsyncDns.isPointer (UInt8.ofNat (192 + high)) := by decide
  exact hall (target / 256) (Nat.div_lt_of_lt_mul hpointer.offset)

theorem LabelAt.not_pointerAt {label : List UInt8} (hlabel : LabelAt message ptr label)
    {target : ℕ} (hpointer : PointerAt message ptr target) : False := by
  have hbyte := Option.some.inj (hlabel.length.symm.trans hpointer.high)
  have hrecognised := hpointer.isPointer
  rw [← hbyte, not_isPointer hlabel.sized.2] at hrecognised
  exact Bool.false_ne_true hrecognised

/-- A name begins with a byte that is not zero. -/
theorem NameAt.flag {labels : List (List UInt8)} (hname : NameAt message ptr labels) :
    ∃ flag, message[ptr]? = some flag ∧ flag ≠ 0 := by
  cases hname with
  | last _ label hlabel hend =>
    exact ⟨_, hlabel.length, length_byte_ne_zero hlabel.announceable⟩
  | label _ label labels hlabel hrest =>
    exact ⟨_, hlabel.length, length_byte_ne_zero hlabel.announceable⟩
  | pointer _ target _ hpointer hearlier hname =>
    exact ⟨_, hpointer.high, ne_zero_of_isPointer hpointer.isPointer⟩

theorem NameAt.ne_nil {labels : List (List UInt8)} (hname : NameAt message ptr labels) :
    labels ≠ [] := by
  induction hname with
  | last ptr label hlabel hend => exact List.cons_ne_nil label []
  | label ptr label labels hlabel hrest ih => exact List.cons_ne_nil label labels
  | pointer ptr target labels hpointer hearlier hname ih => exact ih

/-- At most one name stands at a position. -/
theorem NameAt.unique {labels others : List (List UInt8)} (hname : NameAt message ptr labels)
    (hother : NameAt message ptr others) : others = labels := by
  induction hname generalizing others with
  | last ptr label hlabel hend =>
    cases hother with
    | last _ other hother hend' => rw [hlabel.unique hother]
    | label _ other others hother hrest =>
      obtain ⟨flag, hflag, hzero⟩ := hrest.flag
      rw [hlabel.unique hother, hend] at hflag
      exact absurd (Option.some.inj hflag).symm hzero
    | pointer _ target _ hpointer hearlier hname => exact (hlabel.not_pointerAt hpointer).elim
  | label ptr label labels hlabel hrest ih =>
    cases hother with
    | last _ other hother hend =>
      obtain ⟨flag, hflag, hzero⟩ := hrest.flag
      rw [← hlabel.unique hother, hend] at hflag
      exact absurd (Option.some.inj hflag).symm hzero
    | label _ other others hother hrest' =>
      obtain rfl := hlabel.unique hother
      rw [ih hrest']
    | pointer _ target _ hpointer hearlier hname => exact (hlabel.not_pointerAt hpointer).elim
  | pointer ptr target labels hpointer hearlier hname ih =>
    cases hother with
    | last _ other hother hend => exact (hother.not_pointerAt hpointer).elim
    | label _ other others hother hrest => exact (hother.not_pointerAt hpointer).elim
    | pointer _ target' _ hpointer' hearlier' hname' =>
      rw [hpointer.unique hpointer'] at hname'
      exact ih hname'

/-! ### Pointers that are met -/

theorem not_meetsFar_of_zero (hend : message[ptr]? = some 0) {target : ℕ}
    {labels : List (List UInt8)} : ¬ MeetsFar message ptr target labels := by
  have hpointer : ∀ other, ¬ PointerAt message ptr other := by
    intro other hother
    exact ne_zero_of_isPointer hother.isPointer (Option.some.inj (hother.high.symm.trans hend))
  intro hmeets
  cases hmeets with
  | here _ _ _ hother => exact hpointer _ hother
  | label _ _ label _ hlabel hrest =>
    exact length_byte_ne_zero hlabel.announceable
      (Option.some.inj (hend.symm.trans hlabel.length)).symm
  | pointer _ near _ _ hother => exact hpointer _ hother

theorem meetsFar_label_iff {label : List UInt8} (hlabel : LabelAt message ptr label) {target : ℕ}
    {labels : List (List UInt8)} :
    MeetsFar message ptr target labels ↔
      MeetsFar message (ptr + 1 + label.length) target labels := by
  refine ⟨fun hmeets ↦ ?_, fun hrest ↦ .label ptr target label labels hlabel hrest⟩
  cases hmeets with
  | here _ _ _ hpointer => exact (hlabel.not_pointerAt hpointer).elim
  | label _ _ other _ hother hrest =>
    rw [hlabel.unique hother] at hrest
    exact hrest
  | pointer _ near _ _ hpointer => exact (hlabel.not_pointerAt hpointer).elim

theorem meetsFar_near_iff {near : ℕ} (hpointer : PointerAt message ptr near) (hnear : near < 256)
    {target : ℕ} {labels : List (List UInt8)} :
    MeetsFar message ptr target labels ↔ MeetsFar message near target labels := by
  refine ⟨fun hmeets ↦ ?_, fun hrest ↦ .pointer ptr near target labels hpointer hnear hrest⟩
  cases hmeets with
  | here _ _ _ hother hfar =>
    rw [hpointer.unique hother] at hfar
    exact absurd hnear (Nat.not_lt.mpr hfar)
  | label _ _ label _ hlabel hrest => exact (hlabel.not_pointerAt hpointer).elim
  | pointer _ other _ _ hother hnear' hrest =>
    rw [hpointer.unique hother] at hrest
    exact hrest

theorem meetsFar_far_iff {far : ℕ} (hpointer : PointerAt message ptr far) (hfar : 256 ≤ far)
    {target : ℕ} {labels : List (List UInt8)} :
    MeetsFar message ptr target labels ↔ target = far ∧ NameAt message far labels := by
  constructor
  · intro hmeets
    cases hmeets with
    | here _ _ _ hother _ hname =>
      obtain rfl := hpointer.unique hother
      exact ⟨rfl, hname⟩
    | label _ _ label _ hlabel hrest => exact (hlabel.not_pointerAt hpointer).elim
    | pointer _ near _ _ hother hnear =>
      rw [hpointer.unique hother] at hnear
      exact absurd hnear (Nat.not_lt.mpr hfar)
  · rintro ⟨rfl, hname⟩
    exact .here ptr target labels hpointer hfar hname

end Unique

/-! ### One step of the parser -/

section Steps

variable {chunk : List UInt8} {ptr : ℕ} {text : List UInt8}

theorem spells_pointer_iff {target : ℕ} (hpointer : PointerAt chunk ptr target) :
    Spells chunk ptr text ↔ Spells chunk (target % 256) text := by
  constructor
  · intro hspells
    cases hspells with
    | ended _ hend =>
      exact absurd (Option.some.inj (hpointer.high.symm.trans hend))
        (ne_zero_of_isPointer hpointer.isPointer)
    | pointer _ flag n _ hflag _ hn htext =>
      rw [Option.some.inj (hn.symm.trans hpointer.low), PointerAt.toNat_low] at htext
      exact htext
    | label _ flag next _ hflag _ hlabel =>
      rw [Option.some.inj (hflag.symm.trans hpointer.high)] at hlabel
      exact absurd hpointer.isPointer hlabel
  · intro htext
    rw [← PointerAt.toNat_low target] at htext
    exact .pointer ptr _ _ text hpointer.high hpointer.isPointer hpointer.low htext

/-- Behind a label a dot is written unless the name ends there. -/
theorem spells_label_iff {label : List UInt8} (hlabel : LabelAt chunk ptr label) {next : UInt8}
    (hnext : chunk[ptr + 1 + label.length]? = some next) :
    Spells chunk ptr (label ++ ((if next = 0 then [] else [dot]) ++ text)) ↔
      Spells chunk (ptr + 1 + label.length) text := by
  have hlength := toNat_length_byte hlabel.announceable
  have hzero := length_byte_ne_zero hlabel.announceable
  have hpointer : ¬ isPointer (UInt8.ofNat label.length) := by
    rw [not_isPointer hlabel.sized.2]
    exact Bool.false_ne_true
  constructor
  · intro hspells
    generalize hall : label ++ ((if next = 0 then [] else [dot]) ++ text) = all at hspells
    cases hspells with
    | ended _ hend => exact absurd (Option.some.inj (hlabel.length.symm.trans hend)) hzero
    | pointer _ flag n _ hflag hrecognised =>
      rw [← Option.some.inj (hlabel.length.symm.trans hflag)] at hrecognised
      exact absurd hrecognised hpointer
    | label _ flag other rest hflag _ _ hother hrest =>
      obtain rfl := Option.some.inj (hlabel.length.symm.trans hflag)
      rw [hlength] at hall hother hrest
      obtain rfl := Option.some.inj (hnext.symm.trans hother)
      rw [hlabel.bytes, List.append_cancel_left_eq, List.append_cancel_left_eq] at hall
      rw [hall]
      exact hrest
  · intro htext
    rw [← hlength] at hnext htext
    have hspells := Spells.label ptr _ next text hlabel.length hzero hpointer hnext htext
    rw [hlength, hlabel.bytes] at hspells
    exact hspells

end Steps

/-! ### Names in the buffer -/

section Buffer

variable {message : List UInt8} (hmessage : message.length ≤ 1024)

include hmessage

theorem getElem?_buffered {ptr : ℕ} {byte : UInt8} (hbyte : message[ptr]? = some byte) :
    (buffered message)[ptr]? = some byte := by
  obtain ⟨hinside, -⟩ := List.getElem?_eq_some_iff.mp hbyte
  rw [buffered_of_length hmessage, List.getElem?_append_left hinside, hbyte]

theorem LabelAt.in_buffer {ptr : ℕ} {label : List UInt8} (hlabel : LabelAt message ptr label) :
    LabelAt (buffered message) ptr label := by
  refine ⟨hlabel.sized, getElem?_buffered hmessage hlabel.length, ?_⟩
  have hlength := congrArg List.length hlabel.bytes
  rw [List.length_take, List.length_drop] at hlength
  have hpositive := hlabel.sized.1
  rw [buffered_of_length hmessage, List.drop_append_of_le_length (by omega),
    List.take_append_of_le_length (by rw [List.length_drop]; omega), hlabel.bytes]

theorem PointerAt.in_buffer {ptr target : ℕ} (hpointer : PointerAt message ptr target) :
    PointerAt (buffered message) ptr target :=
  ⟨hpointer.offset, getElem?_buffered hmessage hpointer.high,
    getElem?_buffered hmessage hpointer.low⟩

/-- The parser reads a name unless a far pointer leads it to another text. -/
theorem spells_iff {ptr : ℕ} {labels : List (List UInt8)} (hname : NameAt message ptr labels) :
    Spells (buffered message) ptr (dotted labels) ↔
      ∀ target others, MeetsFar message ptr target others →
        Spells (buffered message) (target % 256) (dotted others) := by
  induction hname with
  | last ptr label hlabel hend =>
    have hnext := getElem?_buffered hmessage hend
    have htext : dotted [label] = label ++ ((if (0 : UInt8) = 0 then [] else [dot]) ++ []) := by
      rw [if_pos rfl, List.append_nil, List.append_nil]
      exact List.intercalate_singleton
    refine iff_of_true ?_ fun target others hmeets ↦ ?_
    · rw [htext, spells_label_iff (hlabel.in_buffer hmessage) hnext]
      exact .ended _ hnext
    · rw [meetsFar_label_iff hlabel] at hmeets
      exact absurd hmeets (not_meetsFar_of_zero hend)
  | label ptr label labels hlabel hrest ih =>
    obtain ⟨flag, hflag, hzero⟩ := hrest.flag
    have htext : dotted (label :: labels) =
        label ++ ((if flag = 0 then [] else [dot]) ++ dotted labels) := by
      rw [if_neg hzero, dotted_cons hrest.ne_nil]
    rw [htext, spells_label_iff (hlabel.in_buffer hmessage) (getElem?_buffered hmessage hflag), ih]
    simp only [meetsFar_label_iff hlabel]
  | pointer ptr target labels hpointer hearlier hname ih =>
    rw [spells_pointer_iff (hpointer.in_buffer hmessage)]
    rcases Nat.lt_or_ge target 256 with hnear | hfar
    · rw [Nat.mod_eq_of_lt hnear, ih]
      simp only [meetsFar_near_iff hpointer hnear]
    · simp only [meetsFar_far_iff hpointer hfar]
      constructor
      · rintro hspells _ others ⟨rfl, hother⟩
        rw [hname.unique hother]
        exact hspells
      · intro hothers
        exact hothers target labels ⟨rfl, hname⟩

end Buffer

/-- `dns_parse_name`, started at the position with `*len = 0`, writes the labels joined by dots, and
`*len` is the length of what it has written. -/
def Decodes (message : List UInt8) (ptr : ℕ) (labels : List (List UInt8)) : Prop :=
  ∃ bound, ∀ fuel ≥ bound, dnsParseName (buffered message) fuel ptr [] = some (dotted labels)

theorem decodes_iff_spells {message : List UInt8} {ptr : ℕ} {labels : List (List UInt8)}
    (hshort : (dotted labels).length ≤ 127) :
    Decodes message ptr labels ↔ Spells (buffered message) ptr (dotted labels) := by
  constructor
  · rintro ⟨bound, hdecodes⟩
    obtain ⟨text, hspells, htext⟩ := spells_of_dnsParseName (hdecodes bound (Nat.le_refl bound))
    rw [htext]
    exact hspells
  · intro hspells
    obtain ⟨bound, hbound⟩ := dnsParseName_of_spells hspells
    refine ⟨bound, fun fuel hfuel ↦ hbound [] ?_ fuel hfuel⟩
    rw [List.length_nil, Nat.zero_add]
    exact Nat.le_succ_of_le hshort

/-- For every message of at most 1024 bytes and every position that holds a name of at most 127
characters, `dns_parse_name` decodes the name exactly if it meets no pointer with an offset of 256
or more, or the bytes at the low byte of the offset happen to spell the name that the offset is
for. -/
theorem decodes_iff {message : List UInt8} (hmessage : message.length ≤ 1024) {ptr : ℕ}
    {labels : List (List UInt8)} (hname : NameAt message ptr labels)
    (hshort : (dotted labels).length ≤ 127) :
    Decodes message ptr labels ↔ ∀ target others, MeetsFar message ptr target others →
      Spells (buffered message) (target % 256) (dotted others) := by
  rw [decodes_iff_spells hshort, spells_iff hmessage hname]

/-- The name `a`, and the name `b.a` that ends with a pointer to it. -/
def nearName : List UInt8 := [1, 97, 0, 1, 98, 192, 0]

theorem decodes_iff_nearName :
    NameAt nearName 3 [[98], [97]] ∧ Decodes nearName 3 [[98], [97]] := by
  have hfirst : LabelAt nearName 0 [97] := ⟨by decide, rfl, rfl⟩
  have hsecond : LabelAt nearName 3 [98] := ⟨by decide, rfl, rfl⟩
  have hpointer : PointerAt nearName 5 0 := ⟨by decide, rfl, rfl⟩
  have htarget : NameAt nearName 0 [[97]] := .last 0 [97] hfirst rfl
  have hname : NameAt nearName 3 [[98], [97]] :=
    .label 3 [98] [[97]] hsecond (.pointer 5 0 [[97]] hpointer (by decide) htarget)
  refine ⟨hname, (decodes_iff (by decide) hname (by decide)).mpr fun target others hmeets ↦ ?_⟩
  have hnear := (meetsFar_near_iff hpointer (by decide)).mp ((meetsFar_label_iff hsecond).mp hmeets)
  exact absurd ((meetsFar_label_iff hfirst).mp hnear) (not_meetsFar_of_zero rfl)

/-- The name `a` at 260, and a pointer to it. -/
def farName : List UInt8 := List.replicate 260 0 ++ [1, 97, 0, 193, 4]

/-- The failure: of the offset 260 the parser takes the low byte, and reads the empty name at 4. -/
theorem far_name_missed :
    farName.length ≤ 1024 ∧ NameAt farName 263 [[97]] ∧
      dnsParseName (buffered farName) 2 263 [] = some [] ∧ ¬ Decodes farName 263 [[97]] := by
  have hlabel : LabelAt farName 260 [97] := ⟨by decide, by decide +kernel, by decide +kernel⟩
  have hpointer : PointerAt farName 263 260 := ⟨by decide, by decide +kernel, by decide +kernel⟩
  have hempty : dnsParseName (buffered farName) 2 263 [] = some [] := by decide +kernel
  refine ⟨by decide +kernel, .pointer 263 260 [[97]] hpointer (by decide)
    (.last 260 [97] hlabel (by decide +kernel)), hempty, ?_⟩
  rintro ⟨bound, hdecodes⟩
  have hname := hdecodes (max bound 2) (le_max_left bound 2)
  rw [dnsParseName_mono hempty (le_max_right bound 2)] at hname
  exact absurd hname (by decide)

end TestLinux.AsyncDns
