import TestLinux.Kcp.Session
import TestLinux.Library.Serial

/-!
# Segments of `ikcp.c`

`Ikcpseg` is `IKCPSEG`; a segment is as long as its data, so that `len` is not stored. `encodeSeg`
writes the header of a segment, the low byte of each word first, and `decodeHeader` reads it into
the variables of `ikcp_input`. The command and the fragment number take one byte and the window two
on the wire, so that `header` is what arrives of a segment.
-/

set_option autoImplicit false
set_option relaxedAutoImplicit false

namespace TestLinux.Ikcp

open TestLinux.Kcp (decode32u)

/-! ### Words -/

/-- `ikcp_encode8u`. -/
def encode8u (c : UInt8) : List UInt8 := [c]

/-- `ikcp_encode16u`. -/
def encode16u (w : UInt16) : List UInt8 :=
  [UInt8.ofNat (w.toNat % 256), UInt8.ofNat (w.toNat / 256)]

/-- `ikcp_encode32u`. -/
def encode32u (l : UInt32) : List UInt8 :=
  [UInt8.ofNat (l.toNat % 256), UInt8.ofNat (l.toNat / 256 % 256),
    UInt8.ofNat (l.toNat / 65536 % 256), UInt8.ofNat (l.toNat / 16777216)]

/-- `ikcp_decode8u`: the value and what follows. -/
def decode8u (data : List UInt8) : UInt8 × List UInt8 := (data.getD 0 0, data.drop 1)

/-- `ikcp_decode16u`. -/
def decode16u (data : List UInt8) : UInt16 × List UInt8 :=
  (UInt16.ofNat ((data.getD 0 0).toNat + 256 * (data.getD 1 0).toNat), data.drop 2)

/-- `ikcp_decode32u`. -/
def decodeWord (data : List UInt8) : UInt32 × List UInt8 :=
  (UInt32.ofNat (decode32u data), data.drop 4)

theorem decode8u_encode8u (c : UInt8) (rest : List UInt8) :
    decode8u (encode8u c ++ rest) = (c, rest) := rfl

theorem decode16u_encode16u (w : UInt16) (rest : List UInt8) :
    decode16u (encode16u w ++ rest) = (w, rest) := by
  have hw := w.toNat_lt
  have hlow : (UInt8.ofNat (w.toNat % 256)).toNat = w.toNat % 256 :=
    UInt8.toNat_ofNat_of_lt' (Nat.mod_lt _ (by decide))
  have hhigh : (UInt8.ofNat (w.toNat / 256)).toNat = w.toNat / 256 :=
    UInt8.toNat_ofNat_of_lt' (Nat.div_lt_of_lt_mul hw)
  change (UInt16.ofNat ((UInt8.ofNat (w.toNat % 256)).toNat +
    256 * (UInt8.ofNat (w.toNat / 256)).toNat), rest) = (w, rest)
  rw [hlow, hhigh, Nat.mod_add_div, UInt16.ofNat_toNat]

theorem decode32u_encode32u (l : UInt32) (rest : List UInt8) :
    decode32u (encode32u l ++ rest) = l.toNat := by
  have hl := l.toNat_lt
  have hfirst : (UInt8.ofNat (l.toNat % 256)).toNat = l.toNat % 256 :=
    UInt8.toNat_ofNat_of_lt' (Nat.mod_lt _ (by decide))
  have hsecond : (UInt8.ofNat (l.toNat / 256 % 256)).toNat = l.toNat / 256 % 256 :=
    UInt8.toNat_ofNat_of_lt' (Nat.mod_lt _ (by decide))
  have hthird : (UInt8.ofNat (l.toNat / 65536 % 256)).toNat = l.toNat / 65536 % 256 :=
    UInt8.toNat_ofNat_of_lt' (Nat.mod_lt _ (by decide))
  have hfourth : (UInt8.ofNat (l.toNat / 16777216)).toNat = l.toNat / 16777216 :=
    UInt8.toNat_ofNat_of_lt' (Nat.div_lt_of_lt_mul hl)
  change (UInt8.ofNat (l.toNat % 256)).toNat + 256 * ((UInt8.ofNat (l.toNat / 256 % 256)).toNat +
    256 * ((UInt8.ofNat (l.toNat / 65536 % 256)).toNat +
      256 * (UInt8.ofNat (l.toNat / 16777216)).toNat)) = l.toNat
  rw [hfirst, hsecond, hthird, hfourth]
  omega

theorem decodeWord_encode32u (l : UInt32) (rest : List UInt8) :
    decodeWord (encode32u l ++ rest) = (l, rest) := by
  rw [decodeWord, decode32u_encode32u, UInt32.ofNat_toNat]
  rfl

/-! ### Segments -/

/-- `IKCPSEG`, with the data. -/
structure Ikcpseg where
  conv : UInt32
  cmd : UInt32
  frg : UInt32
  wnd : UInt32
  ts : UInt32
  sn : UInt32
  una : UInt32
  resendts : UInt32
  rto : UInt32
  fastack : UInt32
  xmit : UInt32
  data : List UInt8
  deriving DecidableEq

/-- The member `len`. -/
def Ikcpseg.len (seg : Ikcpseg) : UInt32 := UInt32.ofNat seg.data.length

/-- `ikcp_encode_seg`: the bytes of the header. -/
def encodeSeg (seg : Ikcpseg) : List UInt8 :=
  encode32u seg.conv ++ (encode8u seg.cmd.toUInt8 ++ (encode8u seg.frg.toUInt8 ++
    (encode16u seg.wnd.toUInt16 ++ (encode32u seg.ts ++ (encode32u seg.sn ++
      (encode32u seg.una ++ encode32u seg.len))))))

/-- A segment on the wire: the header and the data. -/
def Ikcpseg.bytes (seg : Ikcpseg) : List UInt8 := encodeSeg seg ++ seg.data

@[simp] theorem length_encodeSeg (seg : Ikcpseg) : (encodeSeg seg).length = 24 := rfl

@[simp] theorem length_bytes (seg : Ikcpseg) : seg.bytes.length = 24 + seg.data.length := by
  rw [Ikcpseg.bytes, List.length_append, length_encodeSeg]

/-- The variables of `ikcp_input` that a header is decoded into. -/
structure Header where
  conv : UInt32
  cmd : UInt8
  frg : UInt8
  wnd : UInt16
  ts : UInt32
  sn : UInt32
  una : UInt32
  len : UInt32
  deriving DecidableEq

/-- The decoding of a header in `ikcp_input`, with what follows it. -/
def decodeHeader (data : List UInt8) : Header × List UInt8 :=
  let (conv, data) := decodeWord data
  let (cmd, data) := decode8u data
  let (frg, data) := decode8u data
  let (wnd, data) := decode16u data
  let (ts, data) := decodeWord data
  let (sn, data) := decodeWord data
  let (una, data) := decodeWord data
  let (len, data) := decodeWord data
  (⟨conv, cmd, frg, wnd, ts, sn, una, len⟩, data)

/-- What arrives of the header of a segment. -/
def Ikcpseg.header (seg : Ikcpseg) : Header where
  conv := seg.conv
  cmd := seg.cmd.toUInt8
  frg := seg.frg.toUInt8
  wnd := seg.wnd.toUInt16
  ts := seg.ts
  sn := seg.sn
  una := seg.una
  len := seg.len

theorem decodeHeader_encodeSeg (seg : Ikcpseg) (rest : List UInt8) :
    decodeHeader (encodeSeg seg ++ rest) = (seg.header, rest) := by
  simp only [decodeHeader, encodeSeg, List.append_assoc, decodeWord_encode32u, decode8u_encode8u,
    decode16u_encode16u]
  rfl

end TestLinux.Ikcp
