import TestLinux.Library.Ranges
import TestLinux.Library.Wire

/-!
# Blobs in pieces

`mysql_write` and `mysql_read` of `test4/sqltest.cpp` pass a blob to the database in pieces of at
most 1024 bytes. `chunkLoop` is the loop that both have: the offsets and the lengths that it goes
through, in the arithmetic of `size_t`, or nothing when the fuel is used up before. The two differ
in the bound of the offset. `mysql_write` compares it with the size of the buffer. `mysql_read`
compares it with the length as an `int`, which the comparison turns into a `size_t` again.

The calls of the library are parameters: `WriteAnswers` and `ReadAnswers` say what they return.
`chunkLoop_exact` is the loop with the right bound, and `chunkLoop_forever` the loop with a bound
behind the end, which comes to pieces of length zero. `blob_exact_iff` puts the two functions
together.
-/

set_option autoImplicit false
set_option relaxedAutoImplicit false

namespace TestLinux.SqlTest

open TestLinux.Ranges TestLinux.Wire

/-! ### The functions -/

/-- The conversion to a 64-bit `size_t`. -/
def toSize (value : ℤ) : ℕ := (value % 18446744073709551616).toNat

/-- `chunk_size`. -/
def chunkSize : ℕ := 1024

/-- `write_num` and `read_num`. -/
def chunkNum (length offset : ℕ) : ℕ :=
  if toSize (length - offset) > chunkSize then chunkSize else toSize (length - offset)

/-- The loop over the pieces: the offset and the length of each. -/
def chunkLoop (bound length : ℕ) : (fuel offset : ℕ) → Option (List (ℕ × ℕ))
  | 0, offset => if offset < bound then none else some []
  | fuel + 1, offset =>
    if offset < bound then
      (chunkLoop bound length fuel (toSize (offset + chunkNum length offset))).map
        fun rest ↦ (offset, chunkNum length offset) :: rest
    else some []

/-- What the library returns to `mysql_write`. -/
structure WriteAnswers where
  init : Bool
  prepare : ℤ
  bindParam : ℤ
  execute : ℤ

/-- `mysql_write`: the return value and the data of the calls of `mysql_stmt_send_long_data`. -/
def mysqlWrite (answers : WriteAnswers) (buffer : List UInt8) (fuel : ℕ) :
    Option (ℤ × List (List UInt8)) :=
  if answers.init = false then some (-1, [])
  else if answers.prepare ≠ 0 then some (-2, [])
  else if answers.bindParam ≠ 0 then some (-3, [])
  else
    (chunkLoop buffer.length buffer.length fuel 0).map fun ranges ↦
      (if answers.execute ≠ 0 then -4 else 0, ranges.map (slice buffer))

/-- `MYSQL_DATA_TRUNCATED`. -/
def mysqlDataTruncated : ℤ := 101

/-- What the library returns to `mysql_read`: `len` is the length that `mysql_stmt_fetch` stores,
and `fetchColumn` what `mysql_stmt_fetch_column` writes for an offset and a length. -/
structure ReadAnswers where
  init : Bool
  prepare : ℤ
  execute : ℤ
  bindResult : ℤ
  fetch : ℤ
  len : ℕ
  fetchColumn : ℕ × ℕ → List UInt8

/-- The bound of the loop of `mysql_read`: `(int)len` compared with a `size_t`. -/
def readBound (len : ℕ) : ℕ := toSize (toInt32 len)

/-- `mysql_read`: the return value and the buffer, if the function gets as far as clearing it. -/
def mysqlRead (answers : ReadAnswers) (fuel : ℕ) : Option (ℤ × Option (List UInt8)) :=
  if answers.init = false then some (-1, none)
  else if answers.prepare ≠ 0 then some (-2, none)
  else if answers.execute ≠ 0 then some (-3, none)
  else if answers.bindResult ≠ 0 then some (-4, none)
  else if answers.fetch ≠ 0 ∧ answers.fetch ≠ mysqlDataTruncated then some (-5, some [])
  else
    (chunkLoop (readBound answers.len) answers.len fuel 0).map fun ranges ↦
      (0, some (fill answers.fetchColumn (List.replicate answers.len 0) ranges))

/-! ### The loop -/

/-- The pieces are neither empty nor larger than `chunk_size`, and follow each other from `start` to
`stop`. -/
def Chunked (ranges : List (ℕ × ℕ)) (start stop : ℕ) : Prop :=
  Adjoining ranges start stop ∧ ∀ range ∈ ranges, 0 < range.2 ∧ range.2 ≤ chunkSize

theorem toSize_of_lt {value : ℕ} (hvalue : value < 2 ^ 64) : toSize value = value := by
  rw [toSize]
  omega

theorem chunkNum_eq {length offset : ℕ} (hlength : length < 2 ^ 64) (hoffset : offset ≤ length) :
    chunkNum length offset = min chunkSize (length - offset) := by
  have hrest : toSize (length - offset) = length - offset := by
    rw [← Int.ofNat_sub hoffset]
    exact toSize_of_lt (Nat.lt_of_le_of_lt (Nat.sub_le _ _) hlength)
  rw [chunkNum, hrest]
  split_ifs with hmore
  · omega
  · omega

/-- One round of the loop goes on behind its piece. -/
theorem toSize_add_chunkNum {length offset : ℕ} (hlength : length < 2 ^ 64)
    (hoffset : offset ≤ length) :
    toSize (offset + chunkNum length offset) = offset + min chunkSize (length - offset) := by
  rw [chunkNum_eq hlength hoffset, ← Int.natCast_add]
  exact toSize_of_lt (by omega)

/-- The loop that compares the offset with the length cuts all of it into pieces. -/
theorem chunkLoop_exact {length fuel offset : ℕ} (hlength : length < 2 ^ 64)
    (hoffset : offset ≤ length) (hfuel : length - offset ≤ fuel) :
    ∃ ranges, chunkLoop length length fuel offset = some ranges ∧
      Chunked ranges offset length := by
  have hsize : chunkSize = 1024 := rfl
  induction fuel generalizing offset with
  | zero =>
    obtain rfl : offset = length := by omega
    exact ⟨[], by rw [chunkLoop, if_neg (Nat.lt_irrefl _)], rfl, by simp⟩
  | succ fuel ih =>
    rw [chunkLoop]
    split_ifs with hmore
    · rw [toSize_add_chunkNum hlength hoffset, chunkNum_eq hlength hoffset]
      obtain ⟨ranges, hloop, hadjoining, hnums⟩ :=
        @ih (offset + min chunkSize (length - offset)) (by omega) (by omega)
      refine ⟨(offset, min chunkSize (length - offset)) :: ranges, ?_, ⟨rfl, hadjoining⟩, ?_⟩
      · rw [hloop, Option.map_some]
      · rw [List.forall_mem_cons]
        exact ⟨⟨by dsimp only; omega, Nat.min_le_left _ _⟩, hnums⟩
    · obtain rfl : offset = length := by omega
      exact ⟨[], rfl, rfl, by simp⟩

/-- A loop whose bound lies behind the end of the data never ends: from there on the pieces are
empty. -/
theorem chunkLoop_forever {bound length fuel offset : ℕ} (hlength : length < 2 ^ 64)
    (hoffset : offset ≤ length) (hbound : length < bound) :
    chunkLoop bound length fuel offset = none := by
  have hmore : offset < bound := Nat.lt_of_le_of_lt hoffset hbound
  induction fuel generalizing offset with
  | zero => rw [chunkLoop, if_pos hmore]
  | succ fuel ih =>
    rw [chunkLoop, if_pos hmore, toSize_add_chunkNum hlength hoffset, ih (by omega) (by omega)]
    rfl

/-- More fuel does not change what the loop has gone through. -/
theorem chunkLoop_mono {bound length fuel fuel' offset : ℕ} {ranges : List (ℕ × ℕ)}
    (hfuel : fuel ≤ fuel') (hloop : chunkLoop bound length fuel offset = some ranges) :
    chunkLoop bound length fuel' offset = some ranges := by
  induction fuel generalizing fuel' offset ranges with
  | zero =>
    obtain ⟨hend, heq⟩ := Option.ite_none_left_eq_some.mp hloop
    cases fuel' with
    | zero => exact hloop
    | succ fuel' => rw [chunkLoop, if_neg hend, heq]
  | succ fuel ih =>
    obtain ⟨fuel', rfl⟩ : ∃ less, fuel' = less + 1 :=
      Nat.exists_eq_succ_of_ne_zero (Nat.ne_of_gt (Nat.lt_of_lt_of_le (Nat.succ_pos _) hfuel))
    rw [chunkLoop] at hloop ⊢
    split_ifs at hloop ⊢ with hmore
    · obtain ⟨rest, hrest, rfl⟩ := Option.map_eq_some_iff.mp hloop
      rw [ih (Nat.le_of_succ_le_succ hfuel) hrest, Option.map_some]
    · exact hloop

theorem readBound_eq {len : ℕ} (hlen : len < 2 ^ 31) : readBound len = len := by
  rw [readBound, toInt32_of_lt (by omega) (by omega)]
  exact toSize_of_lt (by omega)

/-- The sign that the conversion to `int` makes of a large length. -/
theorem lt_readBound {len : ℕ} (hlower : 2 ^ 31 ≤ len) (hupper : len < 2 ^ 32) :
    len < readBound len := by
  rw [readBound, toInt32_eq_ite, toSize]
  split_ifs with hsmall
  · omega
  · omega

/-- The loop of `mysql_read` ends for small lengths only. -/
theorem lt_of_chunkLoop {len fuel : ℕ} {ranges : List (ℕ × ℕ)} (hlen : len < 2 ^ 32)
    (hloop : chunkLoop (readBound len) len fuel 0 = some ranges) : len < 2 ^ 31 := by
  by_contra hlarge
  rw [chunkLoop_forever (by omega) (Nat.zero_le _)
    (lt_readBound (Nat.le_of_not_lt hlarge) hlen)] at hloop
  exact Option.some_ne_none _ hloop.symm

/-! ### Round trips -/

/-- Every call of `mysql_write` to the library succeeds. -/
def WriteAnswers.success : WriteAnswers := ⟨true, 0, 0, 0⟩

/-- Every call of `mysql_read` to the library succeeds, for a blob that is stored. -/
def ReadAnswers.success (stored : List UInt8) : ReadAnswers where
  init := true
  prepare := 0
  execute := 0
  bindResult := 0
  fetch := mysqlDataTruncated
  len := stored.length
  fetchColumn := slice stored

/-- `mysql_write` passes the buffer on in pieces that are neither empty nor too large. -/
def WritesInChunks (buffer : List UInt8) : Prop :=
  ∃ fuel chunks, mysqlWrite .success buffer fuel = some (0, chunks) ∧
    (∀ chunk ∈ chunks, chunk ≠ [] ∧ chunk.length ≤ chunkSize) ∧ chunks.flatten = buffer

/-- The loop of `mysql_read` ends, and has asked for all of the length in pieces that are neither
empty nor too large. -/
def FetchesInChunks (len : ℕ) : Prop :=
  ∃ fuel ranges, chunkLoop (readBound len) len fuel 0 = some ranges ∧ Chunked ranges 0 len

/-- `mysql_read` returns the buffer where the database has stored what `mysql_write` sends. -/
def ReadsBack (buffer : List UInt8) : Prop :=
  ∃ fuel fuel' chunks, mysqlWrite .success buffer fuel = some (0, chunks) ∧
    mysqlRead (.success chunks.flatten) fuel' = some (0, some buffer)

theorem mysqlWrite_success (buffer : List UInt8) (fuel : ℕ) :
    mysqlWrite .success buffer fuel =
      (chunkLoop buffer.length buffer.length fuel 0).map fun ranges ↦
        (0, ranges.map (slice buffer)) := rfl

theorem mysqlRead_success (stored : List UInt8) (fuel : ℕ) :
    mysqlRead (.success stored) fuel =
      (chunkLoop (readBound stored.length) stored.length fuel 0).map fun ranges ↦
        (0, some (fill (slice stored) (List.replicate stored.length 0) ranges)) := rfl

/-- All that `mysql_write` can pass on is the buffer in such pieces. -/
theorem chunks_of_mysqlWrite {buffer : List UInt8} {fuel : ℕ} {code : ℤ}
    {chunks : List (List UInt8)} (hlength : buffer.length < 2 ^ 32)
    (hwrite : mysqlWrite .success buffer fuel = some (code, chunks)) :
    (∀ chunk ∈ chunks, chunk ≠ [] ∧ chunk.length ≤ chunkSize) ∧ chunks.flatten = buffer := by
  rw [mysqlWrite_success] at hwrite
  obtain ⟨ranges, hranges, heq⟩ := Option.map_eq_some_iff.mp hwrite
  obtain ⟨rfl, rfl⟩ := Prod.mk.inj heq
  obtain ⟨ranges', hexact, hadjoining, hnums⟩ := @chunkLoop_exact buffer.length
    (max fuel buffer.length) 0 (by omega) (Nat.zero_le _) (Nat.le_max_right _ _)
  rw [chunkLoop_mono (Nat.le_max_left fuel buffer.length) hranges, Option.some.injEq] at hexact
  subst hexact
  constructor
  · intro chunk hchunk
    obtain ⟨range, hrange, rfl⟩ := List.mem_map.mp hchunk
    obtain ⟨hpositive, hsmall⟩ := hnums range hrange
    have hnum := length_slice (hadjoining.range_le range hrange)
    refine ⟨fun hempty ↦ ?_, hnum ▸ hsmall⟩
    rw [hempty, List.length_nil] at hnum
    exact Nat.ne_of_lt hpositive hnum
  · rw [flatten_slices hadjoining, List.drop_zero, Nat.sub_zero, List.take_length]

theorem writesInChunks {buffer : List UInt8} (hlength : buffer.length < 2 ^ 32) :
    WritesInChunks buffer := by
  obtain ⟨ranges, hloop, -⟩ :=
    @chunkLoop_exact buffer.length buffer.length 0 (by omega) (Nat.zero_le _) (Nat.sub_le _ _)
  have hwrite : mysqlWrite .success buffer buffer.length =
      some (0, ranges.map (slice buffer)) := by
    rw [mysqlWrite_success, hloop, Option.map_some]
  exact ⟨buffer.length, ranges.map (slice buffer), hwrite, chunks_of_mysqlWrite hlength hwrite⟩

theorem fetchesInChunks_iff {len : ℕ} (hlen : len < 2 ^ 32) :
    FetchesInChunks len ↔ len < 2 ^ 31 := by
  constructor
  · rintro ⟨fuel, ranges, hloop, -⟩
    exact lt_of_chunkLoop hlen hloop
  · intro hsmall
    rw [FetchesInChunks, readBound_eq hsmall]
    exact ⟨len, chunkLoop_exact (by omega) (Nat.zero_le _) (Nat.sub_le _ _)⟩

/-- Reading a stored blob below the limit. -/
theorem exists_mysqlRead_eq {stored : List UInt8} (hlength : stored.length < 2 ^ 31) :
    ∃ fuel, mysqlRead (.success stored) fuel = some (0, some stored) := by
  obtain ⟨ranges, hloop, hadjoining, -⟩ := @chunkLoop_exact stored.length stored.length 0
    (by omega) (Nat.zero_le _) (Nat.sub_le _ _)
  have hcleared : (List.replicate stored.length (0 : UInt8)).length = stored.length :=
    List.length_replicate
  obtain ⟨htake, hfilled⟩ := fill_slices hadjoining hcleared (Nat.le_refl _) rfl
  rw [List.take_length, List.take_of_length_le (Nat.le_of_eq hfilled)] at htake
  refine ⟨stored.length, ?_⟩
  rw [mysqlRead_success, readBound_eq hlength, hloop, Option.map_some, htake]

theorem readsBack_iff {buffer : List UInt8} (hlength : buffer.length < 2 ^ 32) :
    ReadsBack buffer ↔ buffer.length < 2 ^ 31 := by
  constructor
  · rintro ⟨fuel, fuel', chunks, hwrite, hread⟩
    rw [(chunks_of_mysqlWrite hlength hwrite).2, mysqlRead_success] at hread
    obtain ⟨ranges, hloop, -⟩ := Option.map_eq_some_iff.mp hread
    exact lt_of_chunkLoop hlength hloop
  · intro hsmall
    obtain ⟨fuel, chunks, hwrite, -, hflatten⟩ := writesInChunks hlength
    obtain ⟨fuel', hread⟩ := exists_mysqlRead_eq hsmall
    exact ⟨fuel, fuel', chunks, hwrite, by rw [hflatten]; exact hread⟩

/-- For every buffer of fewer than `2 ^ 32` bytes: `mysql_write` passes it on in pieces of 1 to 1024
bytes, and `mysql_read` asks for the whole of it in such pieces and returns it, exactly if the
buffer has fewer than `2 ^ 31` bytes. -/
theorem blob_exact_iff (buffer : List UInt8) (hlength : buffer.length < 2 ^ 32) :
    WritesInChunks buffer ∧ FetchesInChunks buffer.length ∧ ReadsBack buffer ↔
      buffer.length < 2 ^ 31 := by
  rw [fetchesInChunks_iff hlength, readsBack_iff hlength, and_self]
  exact and_iff_right (writesInChunks hlength)

/-- Three bytes are written and read in one piece. -/
theorem blob_exact_of_three_bytes :
    WritesInChunks [1, 2, 3] ∧ FetchesInChunks 3 ∧ ReadsBack [1, 2, 3] :=
  (blob_exact_iff [1, 2, 3] (by decide)).mpr (by decide)

/-- The failure: of a blob of `2 ^ 31` bytes all is written, but the loop that reads it does not
end. -/
theorem blob_read_loops :
    WritesInChunks (List.replicate (2 ^ 31) 0) ∧ ¬ FetchesInChunks (2 ^ 31) ∧
      ¬ ReadsBack (List.replicate (2 ^ 31) 0) := by
  have hlength : (List.replicate (2 ^ 31) (0 : UInt8)).length = 2 ^ 31 := List.length_replicate
  have hbound : (List.replicate (2 ^ 31) (0 : UInt8)).length < 2 ^ 32 := by omega
  refine ⟨writesInChunks hbound, ?_, ?_⟩
  · rw [fetchesInChunks_iff (by omega)]
    exact Nat.lt_irrefl _
  · rw [readsBack_iff hbound, hlength]
    exact Nat.lt_irrefl _

end TestLinux.SqlTest
