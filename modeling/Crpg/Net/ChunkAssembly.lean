import Crpg.Lib.Result
import Crpg.Net.ReassemblyAccounting
import Mathlib.Data.Nat.Bitwise

/-!
# Assembling a transfer in any order

`TransferAssembly` of `crpg-net/src/reassembly.rs` over whole sequences of chunks. `acceptChecked`
is `accept` with the panics of its indexing, its shift and its counters; `answer` says what a chunk
gets from the chunks first stored before it, without a buffer. The buffer holds the first chunk of
every index in its place (`Holds`), so the two agree at every step, and a complete assembly is the
byte string its chunks were cut from.
-/

set_option autoImplicit false

namespace Crpg.Net

open Crpg.Core Crpg.Lib
open List (append_assoc ext_getElem? length_append length_map length_singleton mem_append mem_map
  mem_singleton mem_toFinset nil_append)

/-! ### The code with its panics -/

namespace TransferAssembly

/-- `&buffer[start..stop]`; `none` is a range that is not inside the buffer. -/
def sliceChecked (buffer : List UInt8) (start stop : ℕ) : Option (List UInt8) :=
  if start ≤ stop ∧ stop ≤ buffer.length then some (slice buffer start (stop - start)) else none

/-- `accept` with its panics: the shift of a `u32`, the two ranges, and the `u8` count. -/
def acceptChecked (assembly : TransferAssembly) (chunk : TransferChunk) :
    Result AssemblyError (ChunkOutcome × TransferAssembly) :=
  if chunk.epoch ≠ assembly.header.epoch ∨ chunk.transfer ≠ assembly.header.transfer then
    .err .wrongTransfer
  else if assembly.header.chunkCount ≤ chunk.index then .err .outOfRange
  else
    match assembly.header.chunkLen chunk.index with
    | none => .err .outOfRange
    | some expected =>
      if chunk.bytes.length ≠ expected then .err .wrongLength
      else (Result.panicIf (32 ≤ chunk.index)).bind fun _ ↦
        let start := chunk.index * assembly.header.chunkSize
        (Result.expect (sliceChecked assembly.buffer start (start + expected))).bind fun stored ↦
          if assembly.bitmap.testBit chunk.index then
            if stored = chunk.bytes then .ok (.duplicate, assembly) else .err .conflict
          else (Result.panicIf (255 < assembly.received + 1)).bind fun _ ↦
            let next : TransferAssembly :=
              { assembly with
                buffer := splice assembly.buffer start chunk.bytes
                bitmap := assembly.bitmap ||| 2 ^ chunk.index
                received := assembly.received + 1 }
            .ok (if next.received = assembly.header.chunkCount then .complete else .stored, next)

/-- The number of bits set in a `u32`. -/
def bitCount (bitmap : ℕ) : ℕ := ((Finset.range 32).filter fun index ↦ bitmap.testBit index).card

end TransferAssembly

structure Assembling where
  assembly : TransferAssembly
  answers : List (Except AssemblyError ChunkOutcome)

def Assembling.step (state : Assembling) (chunk : TransferChunk) : Option Assembling :=
  match state.assembly.acceptChecked chunk with
  | .panic => none
  | .err error => some ⟨state.assembly, state.answers ++ [.error error]⟩
  | .ok (outcome, next) => some ⟨next, state.answers ++ [.ok outcome]⟩

/-! ### What a chunk should get -/

namespace BeginTransfer

def Matches (header : BeginTransfer) (chunk : TransferChunk) : Prop :=
  chunk.epoch = header.epoch ∧ chunk.transfer = header.transfer ∧
    header.chunkLen chunk.index = some chunk.bytes.length

instance (header : BeginTransfer) (chunk : TransferChunk) : Decidable (header.Matches chunk) :=
  inferInstanceAs (Decidable (_ ∧ _ ∧ _))

def Stored (kept : List TransferChunk) (index : ℕ) : Prop := ∃ first ∈ kept, first.index = index

instance (kept : List TransferChunk) (index : ℕ) : Decidable (Stored kept index) :=
  inferInstanceAs (Decidable (∃ first ∈ kept, first.index = index))

def keep (header : BeginTransfer) (kept : List TransferChunk) (chunk : TransferChunk) :
    List TransferChunk :=
  if header.Matches chunk ∧ ¬Stored kept chunk.index then kept ++ [chunk] else kept

/-- The first chunk of every index that arrived, in order of arrival. -/
def firsts (header : BeginTransfer) (chunks : List TransferChunk) : List TransferChunk :=
  chunks.foldl header.keep []

def Covered (header : BeginTransfer) (kept : List TransferChunk) : Prop :=
  ∀ index < header.chunkCount, Stored kept index

instance (header : BeginTransfer) (kept : List TransferChunk) : Decidable (header.Covered kept) :=
  inferInstanceAs (Decidable (∀ index < header.chunkCount, Stored kept index))

/-- The answer a chunk should get after others. -/
def answer (header : BeginTransfer) (kept : List TransferChunk) (chunk : TransferChunk) :
    Except AssemblyError ChunkOutcome :=
  if chunk.epoch ≠ header.epoch ∨ chunk.transfer ≠ header.transfer then .error .wrongTransfer
  else if header.chunkLen chunk.index = none then .error .outOfRange
  else if header.chunkLen chunk.index ≠ some chunk.bytes.length then .error .wrongLength
  else
    match kept.find? fun first ↦ first.index = chunk.index with
    | some first => if first.bytes = chunk.bytes then .ok .duplicate else .error .conflict
    | none => if header.Covered (kept ++ [chunk]) then .ok .complete else .ok .stored

/-- The answers a sequence of chunks should get after others. -/
def answers (header : BeginTransfer) : List TransferChunk → List TransferChunk →
    List (Except AssemblyError ChunkOutcome)
  | _, [] => []
  | kept, chunk :: rest => header.answer kept chunk :: header.answers (header.keep kept chunk) rest

/-- The piece of a byte string at an index. -/
def cut (header : BeginTransfer) (data : List UInt8) (index : ℕ) : List UInt8 :=
  (data.drop (index * header.chunkSize)).take header.chunkSize

end BeginTransfer

theorem BeginTransfer.answer_matches {header : BeginTransfer} {kept : List TransferChunk}
    {chunk : TransferChunk} (hmatches : header.Matches chunk) : header.answer kept chunk =
      match kept.find? fun first ↦ first.index = chunk.index with
      | some first => if first.bytes = chunk.bytes then .ok .duplicate else .error .conflict
      | none => if header.Covered (kept ++ [chunk]) then .ok .complete else .ok .stored := by
  have hnames : ¬(chunk.epoch ≠ header.epoch ∨ chunk.transfer ≠ header.transfer) := by
    rw [not_or, not_not, not_not]
    exact ⟨hmatches.1, hmatches.2.1⟩
  unfold answer
  rw [if_neg hnames, hmatches.2.2, if_neg (Option.some_ne_none _), if_neg (not_not.mpr rfl)]

/-- Where nothing panics, the checked code is the code of the pool. -/
theorem TransferAssembly.acceptChecked_eq {assembly : TransferAssembly} {chunk : TransferChunk}
    (hreturns : (assembly.acceptChecked chunk).Returns) :
    assembly.acceptChecked chunk = Result.ofExcept (assembly.accept chunk) := by
  unfold Result.Returns at hreturns
  unfold acceptChecked at hreturns ⊢
  unfold accept
  by_cases hnames : chunk.epoch ≠ assembly.header.epoch ∨ chunk.transfer ≠ assembly.header.transfer
  · rw [if_pos hnames, if_pos hnames]
    rfl
  rw [if_neg hnames] at hreturns ⊢
  rw [if_neg hnames]
  by_cases hindex : assembly.header.chunkCount ≤ chunk.index
  · rw [if_pos hindex, if_pos hindex]
    rfl
  rw [if_neg hindex] at hreturns ⊢
  rw [if_neg hindex]
  cases hlen : assembly.header.chunkLen chunk.index with
  | none => rfl
  | some expected =>
    rw [hlen] at hreturns
    simp only at hreturns ⊢
    by_cases hlength : chunk.bytes.length ≠ expected
    · rw [if_pos hlength, if_pos hlength]
      rfl
    rw [if_neg hlength] at hreturns ⊢
    rw [if_neg hlength]
    unfold Result.panicIf sliceChecked at hreturns ⊢
    by_cases hshift : 32 ≤ chunk.index
    · rw [if_pos hshift] at hreturns
      exact absurd rfl hreturns
    rw [if_neg hshift] at hreturns ⊢
    simp only [Result.ok_bind, Nat.add_sub_cancel_left] at hreturns ⊢
    by_cases hrange : chunk.index * assembly.header.chunkSize ≤
        chunk.index * assembly.header.chunkSize + expected ∧
        chunk.index * assembly.header.chunkSize + expected ≤ assembly.buffer.length
    · rw [if_pos hrange] at hreturns ⊢
      simp only [Result.expect, Result.ok_bind] at hreturns ⊢
      by_cases hbit : assembly.bitmap.testBit chunk.index = true
      · rw [if_pos hbit, if_pos hbit]
        split_ifs <;> rfl
      · rw [if_neg hbit] at hreturns ⊢
        rw [if_neg hbit]
        by_cases hbyte : 255 < assembly.received + 1
        · rw [if_pos hbyte] at hreturns
          exact absurd rfl hreturns
        · rw [if_neg hbyte, Result.ok_bind]
          split_ifs <;> rfl
    · rw [if_neg hrange] at hreturns
      exact absurd rfl hreturns

/-! ### Ranges of a buffer -/

namespace TransferAssembly

theorem getElem?_slice (buffer : List UInt8) (start len position : ℕ) :
    (slice buffer start len)[position]? =
      if position < len then buffer[start + position]? else none := by
  rw [slice, List.getElem?_take, List.getElem?_drop]

theorem getElem?_splice {buffer bytes : List UInt8} {start : ℕ}
    (hfits : start + bytes.length ≤ buffer.length) (position : ℕ) :
    (splice buffer start bytes)[position]? =
      if start ≤ position ∧ position < start + bytes.length then bytes[position - start]?
      else buffer[position]? := by
  have htake : (buffer.take start).length = start := by
    rw [List.length_take]
    omega
  unfold splice
  by_cases hbefore : position < start
  · rw [if_neg (by omega), append_assoc, List.getElem?_append_left (by omega),
      List.getElem?_take, if_pos hbefore]
  · by_cases hinside : position < start + bytes.length
    · rw [if_pos ⟨not_lt.mp hbefore, hinside⟩, append_assoc,
        List.getElem?_append_right (by omega), htake, List.getElem?_append_left (by omega)]
    · rw [if_neg (by omega), append_assoc, List.getElem?_append_right (by omega), htake,
        List.getElem?_append_right (by omega), List.getElem?_drop]
      congr 1
      omega

/-- A range that was written. -/
theorem slice_splice_self {buffer bytes : List UInt8} {start : ℕ}
    (hfits : start + bytes.length ≤ buffer.length) :
    slice (splice buffer start bytes) start bytes.length = bytes := by
  apply ext_getElem?
  intro position
  rw [getElem?_slice, getElem?_splice hfits]
  by_cases hinside : position < bytes.length
  · rw [if_pos hinside, if_pos (by omega), Nat.add_sub_cancel_left]
  · rw [if_neg hinside, List.getElem?_eq_none (not_lt.mp hinside)]

/-- A range apart from the one that was written. -/
theorem slice_splice_of_disjoint {buffer bytes : List UInt8} {start other len : ℕ}
    (hfits : start + bytes.length ≤ buffer.length)
    (hapart : other + len ≤ start ∨ start + bytes.length ≤ other) :
    slice (splice buffer start bytes) other len = slice buffer other len := by
  apply ext_getElem?
  intro position
  rw [getElem?_slice, getElem?_slice, getElem?_splice hfits]
  by_cases hinside : position < len
  · rw [if_pos hinside, if_pos hinside, if_neg (by omega)]
  · rw [if_neg hinside, if_neg hinside]

end TransferAssembly

/-! ### Headers -/

namespace BeginTransfer

variable {header : BeginTransfer} {kept : List TransferChunk} {chunk : TransferChunk}

theorem bounds_of_validate (hvalid : header.validate = .ok ()) :
    (0 < header.chunkCount ∧ header.chunkCount ≤ 32) ∧ 0 < header.chunkSize ∧
      header.totalBytes ≤ header.chunkCount * header.chunkSize ∧
      header.chunkCount * header.chunkSize < header.totalBytes + header.chunkSize := by
  unfold validate at hvalid
  split_ifs at hvalid with h1 h2 h3 h4 h5 h6 h7 h8 h9
  have hsize : 0 < header.chunkSize := by
    unfold chunkSize maxSegmentBytes
    omega
  rw [not_not] at h9
  have hdiv := Nat.div_add_mod (header.totalBytes + (header.chunkSize - 1)) header.chunkSize
  have hmod := Nat.mod_lt (header.totalBytes + (header.chunkSize - 1)) hsize
  rw [h9, Nat.mul_comm] at hdiv
  refine ⟨⟨Nat.pos_of_ne_zero h7, not_lt.mp h8⟩, hsize, ?_, ?_⟩
  · omega
  · omega

theorem chunkLen_eq (hvalid : header.validate = .ok ()) {index : ℕ}
    (hindex : index < header.chunkCount) : header.chunkLen index = some
      (min ((index + 1) * header.chunkSize) header.totalBytes - index * header.chunkSize) := by
  obtain ⟨-, -, -, hover⟩ := bounds_of_validate hvalid
  unfold chunkLen
  rw [if_neg (not_le.mpr hindex), hvalid]
  simp only
  rw [if_neg]
  have hmul := Nat.mul_le_mul_right header.chunkSize (Nat.succ_le_of_lt hindex)
  rw [Nat.succ_mul] at hmul
  omega

theorem lt_chunkCount_of_chunkLen {index len : ℕ} (hlen : header.chunkLen index = some len) :
    index < header.chunkCount := by
  by_contra hindex
  unfold chunkLen at hlen
  rw [if_pos (not_lt.mp hindex)] at hlen
  exact nomatch hlen

theorem chunkLen_le_chunkSize {index len : ℕ} (hlen : header.chunkLen index = some len) :
    len ≤ header.chunkSize := by
  have hindex := lt_chunkCount_of_chunkLen hlen
  unfold chunkLen at hlen
  rw [if_neg (not_le.mpr hindex)] at hlen
  cases hvalid : header.validate with
  | error defect =>
    rw [hvalid] at hlen
    exact nomatch hlen
  | ok _ =>
    simp only [hvalid] at hlen
    split_ifs at hlen
    rw [Option.some.injEq, Nat.succ_mul] at hlen
    omega

theorem ranges_apart {index other len size : ℕ} (hne : index ≠ other) (hlen : len ≤ size)
    {otherLen : ℕ} (hother : otherLen ≤ size) :
    other * size + otherLen ≤ index * size ∨ index * size + len ≤ other * size := by
  rcases Nat.lt_or_gt_of_ne hne with hlt | hlt
  · right
    have hmul := Nat.mul_le_mul_right size (Nat.succ_le_of_lt hlt)
    rw [Nat.succ_mul] at hmul
    omega
  · left
    have hmul := Nat.mul_le_mul_right size (Nat.succ_le_of_lt hlt)
    rw [Nat.succ_mul] at hmul
    omega

theorem covered_iff_length (hnodup : (kept.map TransferChunk.index).Nodup)
    (hbelow : ∀ first ∈ kept, first.index < header.chunkCount) :
    header.Covered kept ↔ kept.length = header.chunkCount := by
  have hsubset : (kept.map TransferChunk.index).toFinset ⊆ Finset.range header.chunkCount := by
    intro index hindex
    rw [mem_toFinset, mem_map] at hindex
    obtain ⟨first, hfirst, hindex⟩ := hindex
    rw [Finset.mem_range, ← hindex]
    exact hbelow first hfirst
  have hcard : (kept.map TransferChunk.index).toFinset.card = kept.length := by
    rw [List.toFinset_card_of_nodup hnodup, length_map]
  have hcovered : header.Covered kept ↔
      (kept.map TransferChunk.index).toFinset = Finset.range header.chunkCount := by
    constructor
    · intro hall
      apply hsubset.antisymm
      intro index hindex
      obtain ⟨first, hfirst, hindex⟩ := hall index (Finset.mem_range.mp hindex)
      rw [mem_toFinset, mem_map]
      exact ⟨first, hfirst, hindex⟩
    · intro heq index hindex
      rw [← Finset.mem_range, ← heq, mem_toFinset, mem_map] at hindex
      exact hindex
  rw [hcovered]
  constructor
  · intro heq
    rw [← hcard, heq, Finset.card_range]
  · intro hlength
    apply Finset.eq_of_subset_of_card_le hsubset
    rw [hcard, hlength, Finset.card_range]

end BeginTransfer

/-! ### The buffer holds the first chunks -/

open BeginTransfer TransferAssembly

structure Holds (header : BeginTransfer) (kept : List TransferChunk)
    (assembly : TransferAssembly) : Prop where
  header_eq : assembly.header = header
  length_eq : assembly.buffer.length = header.totalBytes
  nodup : (kept.map TransferChunk.index).Nodup
  matched : ∀ first ∈ kept, header.Matches first
  bit_iff : ∀ index, assembly.bitmap.testBit index = true ↔ Stored kept index
  received_eq : assembly.received = kept.length
  piece : ∀ first ∈ kept,
    TransferAssembly.slice assembly.buffer (first.index * header.chunkSize) first.bytes.length =
      first.bytes

namespace Holds

variable {header : BeginTransfer} {kept : List TransferChunk} {assembly : TransferAssembly}
  {chunk : TransferChunk}

section

variable (hholds : Holds header kept assembly)
include hholds

theorem below : ∀ first ∈ kept, first.index < header.chunkCount :=
  fun first hfirst ↦ lt_chunkCount_of_chunkLen (hholds.matched first hfirst).2.2

theorem length_le : kept.length ≤ header.chunkCount := by
  have hsubset : (kept.map TransferChunk.index).toFinset ⊆ Finset.range header.chunkCount := by
    intro index hindex
    rw [mem_toFinset, mem_map] at hindex
    obtain ⟨first, hfirst, hindex⟩ := hindex
    rw [Finset.mem_range, ← hindex]
    exact hholds.below first hfirst
  have hcard := Finset.card_le_card hsubset
  rwa [List.toFinset_card_of_nodup hholds.nodup, length_map, Finset.card_range] at hcard

theorem range_le (hmatches : header.Matches chunk) :
    chunk.index * header.chunkSize + chunk.bytes.length ≤ assembly.buffer.length := by
  rw [hholds.length_eq]
  exact chunkLen_le hmatches.2.2

theorem store (hmatches : header.Matches chunk) (hnew : ¬Stored kept chunk.index) :
    Holds header (kept ++ [chunk]) { assembly with
        buffer := splice assembly.buffer (chunk.index * header.chunkSize) chunk.bytes
        bitmap := assembly.bitmap ||| 2 ^ chunk.index
        received := assembly.received + 1 } := by
  have hrange := hholds.range_le hmatches
  constructor
  · exact hholds.header_eq
  · exact (length_splice hrange).trans hholds.length_eq
  · rw [List.map_append, List.map_cons, List.map_nil, List.nodup_append]
    refine ⟨hholds.nodup, List.nodup_singleton _, ?_⟩
    intro index hindex other hother heq
    rw [mem_singleton] at hother
    rw [mem_map] at hindex
    obtain ⟨first, hfirst, hindex⟩ := hindex
    exact hnew ⟨first, hfirst, hindex.trans (heq.trans hother)⟩
  · intro first hfirst
    rcases mem_append.mp hfirst with hfirst | hfirst
    · exact hholds.matched first hfirst
    · rw [mem_singleton.mp hfirst]
      exact hmatches
  · intro index
    rw [Nat.testBit_or, Bool.or_eq_true, hholds.bit_iff, Nat.testBit_two_pow, decide_eq_true_eq]
    simp [Stored]
  · show assembly.received + 1 = (kept ++ [chunk]).length
    rw [hholds.received_eq, length_append, length_singleton]
  · intro first hfirst
    rcases mem_append.mp hfirst with hfirst | hfirst
    · have hne : chunk.index ≠ first.index := fun heq ↦ hnew ⟨first, hfirst, heq.symm⟩
      have hapart := ranges_apart hne (chunkLen_le_chunkSize hmatches.2.2)
        (chunkLen_le_chunkSize (hholds.matched first hfirst).2.2)
      exact (slice_splice_of_disjoint hrange hapart).trans (hholds.piece first hfirst)
    · rw [mem_singleton.mp hfirst]
      exact slice_splice_self hrange

end

theorem find_of_stored {index : ℕ} (hstored : Stored kept index) :
    ∃ first ∈ kept, first.index = index ∧
      kept.find? (fun first ↦ first.index = index) = some first := by
  cases hfind : kept.find? fun first ↦ first.index = index with
  | none =>
    obtain ⟨first, hfirst, hindex⟩ := hstored
    rw [List.find?_eq_none] at hfind
    exact absurd (decide_eq_true hindex) (hfind first hfirst)
  | some first =>
    have hindex := List.find?_some hfind
    exact ⟨first, List.mem_of_find?_eq_some hfind, of_decide_eq_true hindex, rfl⟩

theorem find_of_new {index : ℕ} (hnew : ¬Stored kept index) :
    kept.find? (fun first ↦ first.index = index) = none := by
  rw [List.find?_eq_none]
  intro first hfirst hindex
  exact hnew ⟨first, hfirst, of_decide_eq_true hindex⟩

section

variable (hvalid : header.validate = .ok ())
include hvalid

section

variable (hholds : Holds header kept assembly)
include hholds

theorem step_refused (hmatches : ¬header.Matches chunk)
    (log : List (Except AssemblyError ChunkOutcome)) : Assembling.step ⟨assembly, log⟩ chunk =
      some ⟨assembly, log ++ [header.answer kept chunk]⟩ := by
  unfold Assembling.step acceptChecked answer
  rw [hholds.header_eq]
  by_cases hwrong : chunk.epoch ≠ header.epoch ∨ chunk.transfer ≠ header.transfer
  · rw [if_pos hwrong, if_pos hwrong]
  · rw [if_neg hwrong, if_neg hwrong]
    by_cases hindex : header.chunkCount ≤ chunk.index
    · have hnone : header.chunkLen chunk.index = none := by
        unfold chunkLen
        rw [if_pos hindex]
      rw [if_pos hindex, if_pos hnone]
    · rw [if_neg hindex, chunkLen_eq hvalid (not_le.mp hindex), if_neg (Option.some_ne_none _)]
      have hlen : chunk.bytes.length ≠
          min ((chunk.index + 1) * header.chunkSize) header.totalBytes -
            chunk.index * header.chunkSize := by
        intro hlen
        rw [not_or, not_not, not_not] at hwrong
        exact hmatches ⟨hwrong.1, hwrong.2, by rw [chunkLen_eq hvalid (not_le.mp hindex), hlen]⟩
      simp only [hlen, ne_eq, not_false_eq_true, ite_true, Option.some.injEq, Ne.symm hlen]

theorem acceptChecked_matches (hmatches : header.Matches chunk) : assembly.acceptChecked chunk =
      if assembly.bitmap.testBit chunk.index then
        if TransferAssembly.slice assembly.buffer (chunk.index * header.chunkSize)
            chunk.bytes.length = chunk.bytes then .ok (.duplicate, assembly) else .err .conflict
      else (Result.panicIf (255 < assembly.received + 1)).bind fun _ ↦
        .ok (if assembly.received + 1 = header.chunkCount then .complete else .stored,
          { assembly with
            buffer := splice assembly.buffer (chunk.index * header.chunkSize) chunk.bytes
            bitmap := assembly.bitmap ||| 2 ^ chunk.index
            received := assembly.received + 1 }) := by
  have hindex := lt_chunkCount_of_chunkLen hmatches.2.2
  have hcount := (bounds_of_validate hvalid).1.2
  have hshift : ¬32 ≤ chunk.index := by omega
  have hslice : sliceChecked assembly.buffer (chunk.index * header.chunkSize)
      (chunk.index * header.chunkSize + chunk.bytes.length) =
        some (TransferAssembly.slice assembly.buffer (chunk.index * header.chunkSize)
          chunk.bytes.length) := by
    unfold sliceChecked
    rw [if_pos ⟨Nat.le_add_right _ _, hholds.range_le hmatches⟩, Nat.add_sub_cancel_left]
  have hnames : ¬(chunk.epoch ≠ header.epoch ∨ chunk.transfer ≠ header.transfer) := by
    rw [not_or, not_not, not_not]
    exact ⟨hmatches.1, hmatches.2.1⟩
  unfold acceptChecked
  rw [hholds.header_eq, if_neg hnames, if_neg (not_le.mpr hindex), hmatches.2.2]
  simp only [ne_eq, not_true_eq_false, ite_false, Result.panicIf, hshift, Result.ok_bind, hslice,
    Result.expect]

/-- Each chunk gets the answer it should, never panics, and leaves what the assembly should hold. -/
theorem step (chunk : TransferChunk) (log : List (Except AssemblyError ChunkOutcome)) :
    ∃ next, Assembling.step ⟨assembly, log⟩ chunk = some ⟨next, log ++ [header.answer kept chunk]⟩ ∧
      Holds header (header.keep kept chunk) next ∧
      (header.keep kept chunk = kept → next = assembly) := by
  by_cases hmatches : header.Matches chunk
  · have hanswer := @answer_matches header kept chunk hmatches
    by_cases hstored : Stored kept chunk.index
    · have hkeep : header.keep kept chunk = kept := if_neg fun hboth ↦ hboth.2 hstored
      obtain ⟨first, hfirst, hindex, hfind⟩ := find_of_stored hstored
      have hlength : first.bytes.length = chunk.bytes.length := by
        have hlen := (hholds.matched first hfirst).2.2
        rw [hindex, hmatches.2.2, Option.some.injEq] at hlen
        exact hlen.symm
      have hpiece := hholds.piece first hfirst
      rw [hindex, hlength] at hpiece
      refine ⟨assembly, ?_, hkeep.symm ▸ hholds, fun _ ↦ rfl⟩
      unfold Assembling.step
      rw [hanswer, hfind, acceptChecked_matches hvalid hholds hmatches,
        if_pos ((hholds.bit_iff chunk.index).mpr hstored), hpiece]
      by_cases hsame : first.bytes = chunk.bytes
      · simp only [hsame, ite_true]
      · simp only [hsame, ite_false]
    · have hkeep : header.keep kept chunk = kept ++ [chunk] := if_pos ⟨hmatches, hstored⟩
      have hnext := hholds.store hmatches hstored
      have hbit : ¬assembly.bitmap.testBit chunk.index = true :=
        fun hbit ↦ hstored ((hholds.bit_iff chunk.index).mp hbit)
      have hlength := hnext.length_le
      rw [length_append, length_singleton, ← hholds.received_eq] at hlength
      have hcount := (bounds_of_validate hvalid).1.2
      have hbyte : ¬255 < assembly.received + 1 := by omega
      have hcovered : header.Covered (kept ++ [chunk]) ↔
          assembly.received + 1 = header.chunkCount := by
        rw [covered_iff_length hnext.nodup hnext.below, length_append, length_singleton,
          hholds.received_eq]
      refine ⟨_, ?_, hkeep.symm ▸ hnext, fun hsame ↦ ?_⟩
      · unfold Assembling.step
        rw [hanswer, find_of_new hstored, acceptChecked_matches hvalid hholds hmatches, if_neg hbit]
        simp only [Result.panicIf, hbyte, ite_false, Result.ok_bind, hcovered]
        by_cases hlast : assembly.received + 1 = header.chunkCount
        · simp only [hlast, ite_true]
        · simp only [hlast, ite_false]
      · rw [hkeep] at hsame
        have hlonger := congrArg List.length hsame
        rw [length_append, length_singleton] at hlonger
        omega
  · have hkeep : header.keep kept chunk = kept := if_neg fun hboth ↦ hmatches hboth.1
    exact ⟨assembly, step_refused hvalid hholds hmatches log, hkeep.symm ▸ hholds, fun _ ↦ rfl⟩

theorem returns (chunk : TransferChunk) : (assembly.acceptChecked chunk).Returns := by
  intro hpanic
  obtain ⟨next, hstep, -⟩ := hholds.step hvalid chunk []
  unfold Assembling.step at hstep
  rw [hpanic] at hstep
  exact nomatch hstep

end

theorem run (chunks : List TransferChunk) (hholds : Holds header kept assembly)
    (log : List (Except AssemblyError ChunkOutcome)) :
    ∃ final, Lib.run Assembling.step ⟨assembly, log⟩ chunks =
        some ⟨final, log ++ header.answers kept chunks⟩ ∧
      Holds header (chunks.foldl header.keep kept) final := by
  induction chunks generalizing kept assembly log with
  | nil => exact ⟨assembly, by rw [answers, List.append_nil, run_nil], hholds⟩
  | cons chunk rest ih =>
    obtain ⟨next, hstep, hnext, -⟩ := hholds.step hvalid chunk log
    obtain ⟨final, hrun, hfinal⟩ := ih hnext (log ++ [header.answer kept chunk])
    refine ⟨final, ?_, hfinal⟩
    rw [run_cons_eq_some]
    refine ⟨_, hstep, ?_⟩
    rw [hrun, append_assoc, answers]
    rfl

theorem new : ∃ start, TransferAssembly.new header = .ok start ∧ Holds header [] start := by
  refine ⟨⟨header, List.replicate header.totalBytes 0, 0, 0⟩, ?_, ?_⟩
  · unfold TransferAssembly.new
    rw [hvalid]
  · refine ⟨rfl, List.length_replicate, List.nodup_nil, nofun, fun index ↦ ?_, rfl, nofun⟩
    rw [Nat.zero_testBit]
    simp [Stored]

theorem bitCount_eq (hholds : Holds header kept assembly) :
    bitCount assembly.bitmap = assembly.received := by
  have hcount := (bounds_of_validate hvalid).1.2
  have hbits : ((Finset.range 32).filter fun index ↦ assembly.bitmap.testBit index) =
      (kept.map TransferChunk.index).toFinset := by
    ext index
    rw [Finset.mem_filter, hholds.bit_iff, Finset.mem_range, mem_toFinset, mem_map]
    constructor
    · exact fun hboth ↦ hboth.2
    · intro hstored
      obtain ⟨first, hfirst, hindex⟩ := hstored
      have hbelow := hholds.below first hfirst
      exact ⟨by omega, first, hfirst, hindex⟩
  rw [bitCount, hbits, List.toFinset_card_of_nodup hholds.nodup, length_map, hholds.received_eq]

theorem buffer_eq (hholds : Holds header kept assembly) (hcovered : header.Covered kept)
    {data : List UInt8} (hdata : data.length = header.totalBytes)
    (hcut : ∀ first ∈ kept, first.bytes = header.cut data first.index) :
    assembly.buffer = data := by
  obtain ⟨-, hsize, hover, -⟩ := bounds_of_validate hvalid
  apply ext_getElem?
  intro position
  by_cases hinside : position < header.totalBytes
  · have hindex : position / header.chunkSize < header.chunkCount := by
      rw [Nat.div_lt_iff_lt_mul hsize]
      omega
    obtain ⟨first, hfirst, hfirstIndex⟩ := hcovered _ hindex
    have hpiece := hholds.piece first hfirst
    have hlen := (hholds.matched first hfirst).2.2
    rw [hfirstIndex, chunkLen_eq hvalid hindex, Option.some.injEq, Nat.succ_mul] at hlen
    have hmod := Nat.div_add_mod position header.chunkSize
    have hmodLt := Nat.mod_lt position hsize
    rw [Nat.mul_comm] at hmod
    have hwithin : position % header.chunkSize < first.bytes.length := by omega
    have hbuffer : assembly.buffer[position]? = first.bytes[position % header.chunkSize]? := by
      rw [← hpiece, getElem?_slice, if_pos hwithin, hfirstIndex, hmod]
    rw [hbuffer, hcut first hfirst, hfirstIndex, cut, List.getElem?_take, if_pos hmodLt,
      List.getElem?_drop, hmod]
  · rw [List.getElem?_eq_none (by rw [hholds.length_eq]; exact not_lt.mp hinside),
      List.getElem?_eq_none (by rw [hdata]; exact not_lt.mp hinside)]

end

end Holds

/-! ### The last distinct index -/

namespace BeginTransfer

variable {header : BeginTransfer} {kept : List TransferChunk} {chunk : TransferChunk}

/-- The answer says that the transfer is complete. -/
def Completes : Except AssemblyError ChunkOutcome → Bool
  | .ok .complete => true
  | _ => false

theorem completes_answer_iff : Completes (header.answer kept chunk) = true ↔
      header.Matches chunk ∧ ¬Stored kept chunk.index ∧ header.Covered (kept ++ [chunk]) := by
  by_cases hmatches : header.Matches chunk
  · rw [answer_matches hmatches]
    by_cases hstored : Stored kept chunk.index
    · obtain ⟨first, -, -, hfind⟩ := Holds.find_of_stored hstored
      rw [hfind]
      by_cases hsame : first.bytes = chunk.bytes
      · simp only [hsame, ite_true, Completes, Bool.false_eq_true, hstored, not_true_eq_false,
          false_and, and_false]
      · simp only [hsame, ite_false, Completes, Bool.false_eq_true, hstored, not_true_eq_false,
          false_and, and_false]
    · rw [Holds.find_of_new hstored]
      by_cases hcovered : header.Covered (kept ++ [chunk])
      · simp only [hcovered, ite_true, Completes, hmatches, hstored, not_false_eq_true, and_self]
      · simp only [hcovered, ite_false, Completes, Bool.false_eq_true, and_false]
  · have hrefused : Completes (header.answer kept chunk) = false := by
      unfold answer
      by_cases hnames : chunk.epoch ≠ header.epoch ∨ chunk.transfer ≠ header.transfer
      · rw [if_pos hnames]
        rfl
      · rw [if_neg hnames]
        by_cases hindex : header.chunkLen chunk.index = none
        · rw [if_pos hindex]
          rfl
        · have hlen : header.chunkLen chunk.index ≠ some chunk.bytes.length := by
            intro hlen
            rw [not_or, not_not, not_not] at hnames
            exact hmatches ⟨hnames.1, hnames.2, hlen⟩
          rw [if_neg hindex, if_pos hlen]
          rfl
    rw [hrefused]
    exact iff_of_false Bool.false_ne_true fun hall ↦ hmatches hall.1

theorem Covered.keep (hcovered : header.Covered kept) (chunk : TransferChunk) :
    header.Covered (header.keep kept chunk) := by
  intro index hindex
  obtain ⟨first, hfirst, heq⟩ := hcovered index hindex
  refine ⟨first, ?_, heq⟩
  unfold BeginTransfer.keep
  split_ifs
  · exact List.mem_append_left _ hfirst
  · exact hfirst

theorem countP_answers (chunks : List TransferChunk) (kept : List TransferChunk) :
    (header.answers kept chunks).countP Completes + (if header.Covered kept then 1 else 0) =
      if header.Covered (chunks.foldl header.keep kept) then 1 else 0 := by
  induction chunks generalizing kept with
  | nil =>
    rw [answers, List.countP_nil, List.foldl_nil, Nat.zero_add]
  | cons chunk rest ih =>
    rw [answers, List.countP_cons, List.foldl_cons, ← ih (header.keep kept chunk)]
    by_cases hcompletes : Completes (header.answer kept chunk) = true
    · obtain ⟨hmatches, hnew, hall⟩ := completes_answer_iff.mp hcompletes
      have hbefore : ¬header.Covered kept :=
        fun hcovered ↦ hnew (hcovered _ (lt_chunkCount_of_chunkLen hmatches.2.2))
      have hkeep : header.keep kept chunk = kept ++ [chunk] := if_pos ⟨hmatches, hnew⟩
      rw [if_pos hcompletes, if_neg hbefore, hkeep, if_pos hall, Nat.add_zero]
    · have hsame : header.Covered (header.keep kept chunk) ↔ header.Covered kept := by
        refine ⟨fun hafter ↦ ?_, fun hbefore ↦ hbefore.keep chunk⟩
        by_contra hbefore
        unfold BeginTransfer.keep at hafter
        split_ifs at hafter with hboth
        · exact hcompletes (completes_answer_iff.mpr ⟨hboth.1, hboth.2, hafter⟩)
        · exact hbefore hafter
      rw [if_neg hcompletes, Nat.add_zero]
      simp only [hsame]

theorem mem_of_mem_keep {first : TransferChunk} (hfirst : first ∈ header.keep kept chunk) :
    first ∈ kept ∨ first = chunk := by
  unfold keep at hfirst
  split_ifs at hfirst
  · rcases mem_append.mp hfirst with hfirst | hfirst
    · exact .inl hfirst
    · exact .inr (mem_singleton.mp hfirst)
  · exact .inl hfirst

theorem mem_of_mem_foldl_keep {first : TransferChunk} (chunks : List TransferChunk)
    (hfirst : first ∈ chunks.foldl header.keep kept) : first ∈ kept ∨ first ∈ chunks := by
  induction chunks generalizing kept with
  | nil => exact .inl hfirst
  | cons chunk rest ih =>
    rw [List.foldl_cons] at hfirst
    rcases ih hfirst with hfirst | hfirst
    · rcases mem_of_mem_keep hfirst with hfirst | hfirst
      · exact .inl hfirst
      · exact .inr (hfirst ▸ List.mem_cons_self)
    · exact .inr (List.mem_cons_of_mem _ hfirst)

end BeginTransfer

/-! ### Any order -/

structure Assembled (header : BeginTransfer) (chunks : List TransferChunk) (final : Assembling) :
    Prop where
  -- Every chunk got its answer, the last distinct index the only `complete`.
  answers_eq : final.answers = header.answers [] chunks
  complete_once : final.answers.countP Completes =
    if header.Covered (header.firsts chunks) then 1 else 0
  -- The count is the bits set, one for each index that arrived.
  received_eq : final.assembly.received = (header.firsts chunks).length
  bits_eq : bitCount final.assembly.bitmap = final.assembly.received
  bit_iff : ∀ index, final.assembly.bitmap.testBit index = true ↔
    ∃ chunk ∈ header.firsts chunks, chunk.index = index
  -- What a further chunk gets.
  completes_iff : ∀ chunk next, final.assembly.acceptChecked chunk = .ok (.complete, next) →
    header.Matches chunk ∧ final.assembly.bitmap.testBit chunk.index = false ∧
      ∀ index < header.chunkCount, index ≠ chunk.index →
        final.assembly.bitmap.testBit index = true
  repeated : ∀ first ∈ header.firsts chunks, ∀ chunk, header.Matches chunk →
    chunk.index = first.index → final.assembly.acceptChecked chunk =
      if chunk.bytes = first.bytes then .ok (.duplicate, final.assembly) else .err .conflict
  returns : ∀ chunk, (final.assembly.acceptChecked chunk).Returns
  accept_eq : ∀ chunk, final.assembly.acceptChecked chunk =
    Result.ofExcept (final.assembly.accept chunk)
  -- The bytes.
  bytes : ∀ data : List UInt8, data.length = header.totalBytes →
    (∀ chunk ∈ chunks, header.Matches chunk → chunk.bytes = header.cut data chunk.index) →
    final.assembly.intoBytes =
      if header.Covered (header.firsts chunks) then some data else none

/-- Chunks of a valid transfer assemble in any order: no chunk panics, each gets the answer it
should, the last distinct index completes the transfer, and the bytes are those the chunks were cut
from. -/
theorem assembled_in_any_order (header : BeginTransfer) (hvalid : header.validate = .ok ())
    (chunks : List TransferChunk) : ∃ start final, TransferAssembly.new header = .ok start ∧
      run Assembling.step ⟨start, []⟩ chunks = some final ∧ Assembled header chunks final := by
  obtain ⟨start, hnew, hstart⟩ := Holds.new hvalid
  obtain ⟨final, hrun, hfinal⟩ := hstart.run hvalid chunks []
  refine ⟨start, ⟨final, _⟩, hnew, hrun, ?_⟩
  rw [nil_append]
  have hcovered : header.Covered (header.firsts chunks) ↔ final.received = header.chunkCount := by
    rw [hfinal.received_eq]
    exact covered_iff_length hfinal.nodup hfinal.below
  constructor
  · rfl
  · have hcount := @countP_answers header chunks []
    have hpositive : ¬header.Covered [] := by
      intro hall
      obtain ⟨first, hfirst, -⟩ := hall 0 (bounds_of_validate hvalid).1.1
      exact List.not_mem_nil hfirst
    rw [if_neg hpositive, Nat.add_zero] at hcount
    exact hcount
  · exact hfinal.received_eq
  · exact hfinal.bitCount_eq hvalid
  · exact hfinal.bit_iff
  · intro chunk next haccept
    obtain ⟨found, hstep, -⟩ := hfinal.step hvalid chunk []
    unfold Assembling.step at hstep
    rw [haccept, Option.some.injEq, Assembling.mk.injEq, nil_append, nil_append, List.cons.injEq]
      at hstep
    have hanswer : Completes (header.answer (header.firsts chunks) chunk) = true := by
      rw [firsts, ← hstep.2.1]
      rfl
    obtain ⟨hmatches, hnew, hall⟩ := completes_answer_iff.mp hanswer
    refine ⟨hmatches, Bool.eq_false_iff.mpr (mt (hfinal.bit_iff chunk.index).mp hnew), ?_⟩
    intro index hindex hne
    obtain ⟨first, hfirst, heq⟩ := hall index hindex
    rw [mem_append, mem_singleton] at hfirst
    rcases hfirst with hfirst | hfirst
    · exact (hfinal.bit_iff index).mpr ⟨first, hfirst, heq⟩
    · rw [hfirst] at heq
      exact absurd heq.symm hne
  · intro first hfirst chunk hmatches hindex
    have hstored : Stored (header.firsts chunks) chunk.index := ⟨first, hfirst, hindex.symm⟩
    have hlength : first.bytes.length = chunk.bytes.length := by
      have hlen := (hfinal.matched first hfirst).2.2
      rw [← hindex, hmatches.2.2, Option.some.injEq] at hlen
      exact hlen.symm
    have hpiece := hfinal.piece first hfirst
    rw [← hindex, hlength] at hpiece
    rw [hfinal.acceptChecked_matches hvalid hmatches, if_pos ((hfinal.bit_iff chunk.index).mpr hstored),
      hpiece]
    simp only [eq_comm]
  · exact hfinal.returns hvalid
  · exact fun chunk ↦ acceptChecked_eq (hfinal.returns hvalid chunk)
  · intro data hdata hcut
    unfold intoBytes
    rw [hfinal.header_eq]
    by_cases hall : header.Covered (header.firsts chunks)
    · rw [if_neg (not_not.mpr (hcovered.mp hall)), if_pos hall]
      congr 1
      refine hfinal.buffer_eq hvalid hall hdata fun first hfirst ↦ ?_
      rcases mem_of_mem_foldl_keep chunks hfirst with hnone | hmem
      · exact absurd hnone List.not_mem_nil
      · exact hcut first hmem (hfinal.matched first hfirst)
    · rw [if_pos (mt hcovered.mpr hall), if_neg hall]

/-- A transfer of a full chunk and one byte, its tail first and then twice. -/
theorem assembled_in_any_order_tail :
    let header : BeginTransfer := ⟨Vector.replicate 16 7, ⟨1, by decide⟩, 4, 9, 4097, 1, 1, 2⟩
    let head : TransferChunk := ⟨header.epoch, header.transfer, 0, List.replicate 4096 3⟩
    let tail : TransferChunk := ⟨header.epoch, header.transfer, 1, [5]⟩
    ∃ start final, TransferAssembly.new header = .ok start ∧
      run Assembling.step ⟨start, []⟩ [tail, tail, head] = some final ∧
        Assembled header [tail, tail, head] final :=
  assembled_in_any_order _ (by decide) _

end Crpg.Net
