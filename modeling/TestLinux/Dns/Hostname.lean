import TestLinux.Dns.Commit

/-!
# Which hostnames `encode_hostname` accepts

`ValidHostname` is what the format allows: labels of 1 to 63 bytes, and at most 255 bytes for the
whole encoding. `encode_hostname` checks every label against `domain_len >= 63`, which takes the
longest legal label for an illegal one, and it never adds up the lengths.

The encoding has two bytes more than the hostname without its trailing dot
(`length_encoding`), so the second limit is one of 253 bytes on the string. `encodes_valid_iff`
compares the two notions: below that limit they differ on the valid hostnames with a label of 63
bytes, and above it on the hostnames whose labels all pass the check.
-/

set_option autoImplicit false
set_option relaxedAutoImplicit false

namespace TestLinux.Dns

open TestLinux.Wire

/-- The encoding of a hostname: its labels, each preceded by its length, and the zero byte. -/
def encoding (hostname : List UInt8) : List UInt8 := writeLabels (labels hostname) ++ [0]

/-- A label of 1 to 63 bytes. -/
def ValidLabel (label : List UInt8) : Prop := 1 ≤ label.length ∧ label.length ≤ 63
  deriving Decidable

/-- A hostname within the limits of the format. Its labels are those of the string without one
trailing dot; a string of which nothing is left has one empty label. -/
def ValidHostname (hostname : List UInt8) : Prop :=
  (∀ label ∈ labels hostname, ValidLabel label) ∧ (encoding hostname).length ≤ 255
  deriving Decidable

/-- The encoder accepts the hostname exactly if it is valid, and then it writes its encoding. -/
def EncodesValid (hostname previous : List UInt8) : Prop :=
  ((encodeHostname hostname previous).1 = 0 ↔ ValidHostname hostname) ∧
    ((encodeHostname hostname previous).1 = 0 →
      (encodeHostname hostname previous).2 = encoding hostname)

theorem length_encoding (hostname : List UInt8) :
    (encoding hostname).length = (stripDot hostname).length + 2 := by
  have hlabels : labels hostname ≠ [] := List.splitOn_ne_nil _ _
  have hjoined : [dot].intercalate (labels hostname) = stripDot hostname :=
    List.intercalate_splitOn dot
  rw [encoding, List.length_append, length_writeLabels hlabels dot, hjoined, List.length_singleton]

theorem length_lt_encoding {hostname label : List UInt8} (hlabel : label ∈ labels hostname) :
    label.length < (encoding hostname).length := by
  have hlength := length_lt_writeLabels hlabel
  rw [encoding, List.length_append]
  omega

/-- The labels of a hostname of at most 253 bytes are not affected by the narrowing. -/
theorem length_lt_of_short {hostname label : List UInt8}
    (hshort : (stripDot hostname).length ≤ 253) (hlabel : label ∈ labels hostname) :
    label.length < 2 ^ 32 := by
  have hlength := length_lt_encoding hlabel
  rw [length_encoding] at hlength
  omega

/-- A label of 1 to 62 bytes is a valid one that does not have 63 bytes. -/
theorem sized_iff {label : List UInt8} : Sized label ↔ ValidLabel label ∧ label.length ≠ 63 := by
  rw [Sized, ValidLabel]
  omega

/-- Without an overlong string, the encoder accepts labels of 1 to 62 bytes. -/
theorem encodeHostname_eq_zero_iff_sized {hostname : List UInt8} (previous : List UInt8)
    (hshort : (stripDot hostname).length ≤ 253) :
    (encodeHostname hostname previous).1 = 0 ↔ ∀ label ∈ labels hostname, Sized label := by
  rw [encodeHostname_eq_zero_iff]
  constructor
  · intro haccepted label hlabel
    exact sized_of_accepted (haccepted label hlabel) (length_lt_of_short hshort hlabel)
  · intro hsized label hlabel
    exact (hsized label hlabel).accepted

theorem validHostname_iff (hostname : List UInt8) :
    ValidHostname hostname ↔
      (∀ label ∈ labels hostname, ValidLabel label) ∧ (stripDot hostname).length ≤ 253 := by
  rw [ValidHostname, length_encoding]
  refine and_congr_right fun _ ↦ ?_
  omega

/-- What the encoder writes for an accepted hostname of at most 253 bytes. -/
theorem encodeHostname_eq_encoding {hostname previous : List UInt8}
    (hshort : (stripDot hostname).length ≤ 253)
    (hzero : (encodeHostname hostname previous).1 = 0) :
    (encodeHostname hostname previous).2 = encoding hostname := by
  obtain ⟨hwritten, haccepted⟩ := encodeHostname_spec
    (show encodeHostname hostname previous = (0, (encodeHostname hostname previous).2) from
      Prod.ext hzero rfl)
  rw [hwritten, encoding, writtenLabels_eq_writeLabels haccepted fun label hlabel ↦
    length_lt_of_short hshort hlabel]

/-- The encoder accepts exactly the valid hostnames, and writes their encoding, with two kinds of
exceptions: the valid hostnames with a label of 63 bytes, and the hostnames of more than 253 bytes
all of whose labels pass its check. -/
theorem encodes_valid_iff (hostname previous : List UInt8) :
    EncodesValid hostname previous ↔
      ((stripDot hostname).length ≤ 253 → (∀ label ∈ labels hostname, ValidLabel label) →
        ∀ label ∈ labels hostname, label.length ≠ 63) ∧
      (253 < (stripDot hostname).length → ∃ label ∈ labels hostname, ¬ Accepted label) := by
  constructor
  · rintro ⟨hiff, -⟩
    refine ⟨fun hshort hvalid label hlabel ↦ ?_, fun hlong ↦ ?_⟩
    · have hzero := hiff.mpr ((validHostname_iff hostname).mpr ⟨hvalid, hshort⟩)
      have hsized := (encodeHostname_eq_zero_iff_sized previous hshort).mp hzero label hlabel
      exact (sized_iff.mp hsized).2
    · by_contra hnone
      have haccepted : ∀ label ∈ labels hostname, Accepted label := fun label hlabel ↦
        not_not.mp fun hrejected ↦ hnone ⟨label, hlabel, hrejected⟩
      have hvalid := hiff.mp ((encodeHostname_eq_zero_iff hostname previous).mpr haccepted)
      have hshort := ((validHostname_iff hostname).mp hvalid).2
      omega
  · rintro ⟨hboundary, hlong⟩
    -- An accepted hostname is short enough for the narrowing of lengths not to matter.
    have hshort : (encodeHostname hostname previous).1 = 0 → (stripDot hostname).length ≤ 253 := by
      intro hzero
      by_contra hover
      obtain ⟨label, hlabel, hrejected⟩ := hlong (Nat.not_le.mp hover)
      exact hrejected ((encodeHostname_eq_zero_iff hostname previous).mp hzero label hlabel)
    refine ⟨⟨fun hzero ↦ ?_, fun hvalid ↦ ?_⟩, fun hzero ↦
      encodeHostname_eq_encoding (hshort hzero) hzero⟩
    · have hsized := (encodeHostname_eq_zero_iff_sized previous (hshort hzero)).mp hzero
      exact (validHostname_iff hostname).mpr
        ⟨fun label hlabel ↦ (sized_iff.mp (hsized label hlabel)).1, hshort hzero⟩
    · obtain ⟨hlabels, hlength⟩ := (validHostname_iff hostname).mp hvalid
      refine (encodeHostname_eq_zero_iff_sized previous hlength).mpr fun label hlabel ↦ ?_
      exact sized_iff.mpr ⟨hlabels label hlabel, hboundary hlength hlabels label hlabel⟩

/-- A hostname of one label with the 63 bytes that the format allows. -/
def longestLabel : List UInt8 := List.replicate 63 97

/-- Five labels of 62 bytes. -/
def overlongHostname : List UInt8 :=
  [dot].intercalate (List.replicate 5 (List.replicate 62 97))

/-- The failures: a valid hostname with a label of 63 bytes is rejected, and a hostname whose
encoding has 316 bytes is accepted. -/
theorem limits_missed :
    (ValidHostname longestLabel ∧ (encodeHostname longestLabel []).1 = -1 ∧
      ¬ EncodesValid longestLabel []) ∧
    ((encoding overlongHostname).length = 316 ∧ (encodeHostname overlongHostname []).1 = 0 ∧
      ¬ EncodesValid overlongHostname []) := by
  have hvalid : ValidHostname longestLabel := by decide +kernel
  have hrejected : (encodeHostname longestLabel []).1 = -1 := by decide +kernel
  have hlength : (encoding overlongHostname).length = 316 := by decide +kernel
  have haccepted : (encodeHostname overlongHostname []).1 = 0 := by decide +kernel
  refine ⟨⟨hvalid, hrejected, fun hencodes ↦ ?_⟩, hlength, haccepted, fun hencodes ↦ ?_⟩
  · have hzero := hencodes.1.mpr hvalid
    rw [hrejected] at hzero
    exact absurd hzero (by decide)
  · have hlimit := (hencodes.1.mp haccepted).2
    rw [hlength] at hlimit
    exact absurd hlimit (by decide)

end TestLinux.Dns
