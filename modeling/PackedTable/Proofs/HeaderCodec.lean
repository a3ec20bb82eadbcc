import PackedTable.Header.Codec
import PackedTable.Proofs.Transfer

/-!
Encoding a header and decoding it again. A field of the encoding is read back by the step of the
decoder that stands at it, whatever follows the field and however the source splits its bytes; the
whole round trip is the fields one after the other.
-/

namespace PackedTable

namespace LittleEndian

theorem decode_encode_of_lt {width n : Nat} (small : n < 256 ^ width) :
    decode (encode width n) = n := by
  rw [decode_encode, Nat.mod_eq_of_lt small]

theorem encode_byte (byte : UInt8) : encode 1 byte.toNat = [byte] := by
  rw [encode, encode, UInt8.ofNat_toNat]

end LittleEndian

namespace Checksum

theorem ofNat_toNat (checksum : Checksum) : ofNat checksum.toNat = checksum := by
  obtain ⟨high, low⟩ := checksum
  have bound := low.toNat_lt
  have whole : (high.toNat * 2 ^ 64 + low.toNat) / 2 ^ 64 = high.toNat := by omega
  simp only [ofNat, toNat, whole, UInt64.ofNat_toNat]
  congr 1
  apply UInt64.toNat.inj
  rw [UInt64.toNat_ofNat']
  omega

theorem toNat_lt (checksum : Checksum) : checksum.toNat < 256 ^ 16 := by
  have high := checksum.high.toNat_lt
  have low := checksum.low.toNat_lt
  unfold toNat
  omega

theorem toNat_shortened_lt (checksum : Checksum) : checksum.shortened.toNat < 256 ^ 4 := by
  have low := checksum.low.toUInt32.toNat_lt
  have high : (0 : UInt64).toNat = 0 := rfl
  simp only [toNat, shortened, UInt32.toNat_toUInt64, high]
  omega

end Checksum

namespace Geometry

theorem mask_lt (geometry : Geometry) : geometry.mask < 256 ^ 8 := by
  have bound : geometry.groupCount ≤ 2 ^ 63 :=
    Nat.pow_le_pow_right Nat.two_pos (Nat.le_of_lt_succ geometry.scale.isLt)
  unfold mask
  omega

theorem ofMask_mask (geometry : Geometry) :
    ofMask geometry.shift geometry.mask = .ok geometry := by
  have scale : (2 ^ geometry.scale.val).log2 = geometry.scale.val := Nat.log2_two_pow
  have valid : geometry.groupCount.log2 < 64 ∧
      2 ^ geometry.groupCount.log2 = geometry.groupCount := by
    rw [groupCount, scale]
    exact ⟨geometry.scale.isLt, rfl⟩
  rw [ofMask, mask_succ, scaleOf?, dif_pos valid]
  refine congrArg (fun scale => Except.ok (Geometry.mk geometry.shift scale)) ?_
  exact Fin.ext scale

end Geometry

open Transfer

namespace Header

/-- Where a reading stands: the bytes that have passed, and those that are left. -/
structure Position where
  passed : List UInt8
  left : List UInt8

/-- A stream at a position that gives a byte with every read. -/
structure Position.Of (position : Position) (stream : Checksummed Source) : Prop where
  steady : stream.inner.Steady
  passed : stream.passed = position.passed.toArray
  left : stream.inner.left = position.left

namespace Reading

/-- From the one position to the other a reading yields the value, whatever the stream. -/
def Yields {α : Type} (reading : Reading α) (start : Position) (value : α) (finish : Position) :
    Prop :=
  ∀ stream, start.Of stream →
    ∃ after, (ExceptT.run reading).run stream = (.ok value, after) ∧ finish.Of after

namespace Yields

variable {α β : Type} {start middle finish : Position}

theorem pure (value : α) : Yields (Pure.pure value) start value start :=
  fun stream stands => ⟨stream, rfl, stands⟩

theorem bind {reading : Reading α} {next : α → Reading β} {value : α} {value' : β}
    (first : Yields reading start value middle)
    (second : Yields (next value) middle value' finish) :
    Yields (reading >>= next) start value' finish := by
  intro stream stands
  obtain ⟨between, read, stands'⟩ := first stream stands
  obtain ⟨after, further, last⟩ := second between stands'
  refine ⟨after, ?_, last⟩
  rw [ExceptT.run_bind, StateT.run_bind, read]
  exact further

end Yields

theorem take_yields (passed : List UInt8) {bytes rest : List UInt8} {count : Nat}
    (long : bytes.length = count) :
    Yields (take count) ⟨passed, bytes ++ rest⟩ bytes ⟨passed ++ bytes, rest⟩ := by
  rintro stream ⟨steady, same, there⟩
  subst long
  obtain ⟨turn, read⟩ := Checksummed.readExact_eq_ok steady there
  refine ⟨⟨⟨rest, stream.inner.pace, turn⟩, stream.passed ++ bytes⟩, ?_, steady, ?_, rfl⟩
  · simp only [take, ExceptT.run_mk, StateT.run, read]
  · rw [same]
    apply Array.ext'
    rw [Array.toList_appendList]

theorem number_yields (passed : List UInt8) {rest : List UInt8} {width n : Nat}
    (small : n < 256 ^ width) :
    Yields (number width) ⟨passed, LittleEndian.encode width n ++ rest⟩ n
      ⟨passed ++ LittleEndian.encode width n, rest⟩ := by
  apply Yields.bind (take_yields passed (LittleEndian.length_encode width n))
  rw [LittleEndian.decode_encode_of_lt small]
  exact Yields.pure n

theorem covered_yields (digest : Checksum.Rule) (passed left : List UInt8) :
    Yields (covered digest) ⟨passed, left⟩ (digest passed.toArray) ⟨passed, left⟩ := by
  rintro stream stands
  refine ⟨stream, ?_, stands⟩
  simp only [covered, ExceptT.run_mk, StateT.run, Checksummed.checksum, stands.passed]

theorem uncovered_yields (passed : List UInt8) {rest : List UInt8} {width n : Nat}
    (small : n < 256 ^ width) :
    Yields (uncovered width) ⟨passed, LittleEndian.encode width n ++ rest⟩ n ⟨passed, rest⟩ := by
  rintro stream ⟨steady, same, there⟩
  obtain ⟨turn, read⟩ := Source.readExact_eq_ok steady there
  rw [LittleEndian.length_encode] at read
  refine ⟨⟨⟨rest, stream.inner.pace, turn⟩, stream.passed⟩, ?_, steady, same, rfl⟩
  simp only [uncovered, ExceptT.run_mk, StateT.run, read,
    LittleEndian.decode_encode_of_lt small]

end Reading

/-- What the decoder requires of a header beyond an intact encoding. -/
structure Decodable (header : Header) : Prop where
  slots : 2 ≤ header.slotsPerGroup ∧ header.slotsPerGroup ≤ 15
  keyed : header.keySize ≠ 0

/-! ### The parts of the encoding -/

def fields (header : Header) : Fields :=
  { header with shift := header.geometry.shift, mask := header.geometry.mask }

theorem header_fields {header : Header} (decodable : header.Decodable) :
    header.fields.header = .ok header := by
  obtain ⟨⟨slotsLow, slotsHigh⟩, keyed⟩ := decodable
  have slots : ¬(header.fields.slotsPerGroup < 2 ∨ 15 < header.fields.slotsPerGroup) := by
    rw [not_or, UInt8.not_lt, UInt8.not_lt]
    exact ⟨slotsLow, slotsHigh⟩
  have geometry : Geometry.ofMask header.fields.shift header.fields.mask = .ok header.geometry :=
    header.geometry.ofMask_mask
  rw [Fields.header, if_neg slots, if_neg (show ¬header.fields.keySize = 0 from keyed), geometry]
  rfl

def numbers (header : Header) : List UInt8 :=
  LittleEndian.encode 1 header.slotsPerGroup.toNat ++
  LittleEndian.encode 4 header.keySize.toNat ++
  LittleEndian.encode 4 header.keyAlign.toNat ++
  LittleEndian.encode 4 header.valueSize.toNat ++
  LittleEndian.encode 4 header.valueAlign.toNat ++
  LittleEndian.encode 8 header.geometry.shift.toNat ++
  LittleEndian.encode 8 header.geometry.mask ++
  LittleEndian.encode 8 header.size.toNat ++
  LittleEndian.encode 8 header.maxLoad.toNat ++
  LittleEndian.encode 16 header.checksum.toNat

theorem flatten_runs (header : Header) :
    header.runs.flatten = magic ++ LittleEndian.encode 1 version.toNat ++ header.numbers := by
  simp only [runs, numbers, LittleEndian.encode_byte, List.flatten_cons, List.flatten_nil,
    List.append_nil, List.append_assoc]

namespace Reading

theorem opening_yields (rest : List UInt8) :
    Yields opening ⟨[], magic ++ (LittleEndian.encode 1 version.toNat ++ rest)⟩ ()
      ⟨magic ++ LittleEndian.encode 1 version.toNat, rest⟩ := by
  apply Yields.bind (take_yields [] rfl)
  rw [if_neg (not_not_intro rfl)]
  apply Yields.bind (number_yields _ version.toNat_lt)
  rw [UInt8.ofNat_toNat, if_neg (not_not_intro rfl)]
  exact Yields.pure ()

theorem fields_yields (header : Header) (passed rest : List UInt8) :
    Yields fields ⟨passed, header.numbers ++ rest⟩ header.fields
      ⟨passed ++ header.numbers, rest⟩ := by
  have byte (value : UInt8) : value.toNat < 256 ^ 1 := value.toNat_lt
  have half (value : UInt32) : value.toNat < 256 ^ 4 := value.toNat_lt
  have word (value : UInt64) : value.toNat < 256 ^ 8 := value.toNat_lt
  simp only [numbers, List.append_assoc]
  apply Yields.bind (number_yields _ (byte _))
  apply Yields.bind (number_yields _ (half _))
  apply Yields.bind (number_yields _ (half _))
  apply Yields.bind (number_yields _ (half _))
  apply Yields.bind (number_yields _ (half _))
  apply Yields.bind (number_yields _ (word _))
  apply Yields.bind (number_yields _ header.geometry.mask_lt)
  apply Yields.bind (number_yields _ (word _))
  apply Yields.bind (number_yields _ (word _))
  apply Yields.bind (number_yields _ header.checksum.toNat_lt)
  simp only [UInt8.ofNat_toNat, UInt32.ofNat_toNat, UInt64.ofNat_toNat, Checksum.ofNat_toNat,
    List.append_assoc]
  exact Yields.pure header.fields

theorem intact_yields (digest : Checksum.Rule) (passed rest : List UInt8) :
    Yields (intact digest) ⟨passed, closing (digest passed.toArray) ++ rest⟩ ()
      ⟨passed, rest⟩ := by
  apply Yields.bind (covered_yields digest passed _)
  apply Yields.bind (uncovered_yields passed (Checksum.toNat_shortened_lt _))
  rw [Checksum.ofNat_toNat, if_neg (not_not_intro rfl)]
  exact Yields.pure ()

/-- The decoder comes to the header that was encoded, and leaves what is behind it. -/
theorem header_yields (digest : Checksum.Rule) {header : Header} (decodable : header.Decodable)
    (rest : List UInt8) :
    Yields (Reading.header digest) ⟨[], header.encode digest ++ rest⟩ header
      ⟨header.runs.flatten, rest⟩ := by
  have split (run : List UInt8) : header.runs.flatten ++ run =
      magic ++ (LittleEndian.encode 1 version.toNat ++ (header.numbers ++ run)) := by
    rw [flatten_runs, List.append_assoc, List.append_assoc]
  rw [encode, List.append_assoc, split]
  refine (opening_yields _).bind ((fields_yields header _ _).bind ?_)
  rw [← flatten_runs]
  refine (intact_yields digest _ rest).bind ?_
  rw [header_fields decodable]
  exact Yields.pure header

end Reading

/-! ### Both ways -/

theorem length_encode (digest : Checksum.Rule) (header : Header) :
    (header.encode digest).length = encodedLength := by
  rw [encode, List.length_append, closing, flatten_runs, numbers, LittleEndian.length_encode]
  simp only [List.length_append, LittleEndian.length_encode]
  rfl

theorem encodeInto_eq_ok (digest : Checksum.Rule) (header : Header) {sink : Sink}
    (opened : sink.Open) :
    ∃ turn, header.encodeInto digest sink =
      (.ok (), ⟨sink.taken ++ header.encode digest, none, sink.pace, turn⟩) := by
  unfold encodeInto encode
  -- what is written depends on the header through its runs alone
  generalize header.runs = runs
  have start : (Checksummed.start sink).inner.Open := opened
  obtain ⟨turn, written⟩ := Checksummed.writeRuns_eq_ok start runs
  have passed : (Checksummed.start sink).passed ++ runs.flatten = runs.flatten.toArray :=
    empty_append runs.flatten
  rw [passed] at written
  have opened' : Sink.Open ⟨sink.taken ++ runs.flatten, none, sink.pace, turn⟩ :=
    ⟨rfl, opened.pace⟩
  obtain ⟨turn', closed⟩ :=
    Sink.writeAll_eq_ok opened' (closing (digest runs.flatten.toArray))
  refine ⟨turn', ?_⟩
  rw [append_runs] at closed
  rw [written]
  simp only [Checksummed.start, Checksummed.checksum, closed]

theorem decode_eq_ok (digest : Checksum.Rule) {header : Header} (decodable : header.Decodable)
    {source : Source} (steady : source.Steady) {rest : List UInt8}
    (there : source.left = header.encode digest ++ rest) :
    ∃ after, decode digest source = (.ok header, after) ∧ after.Steady ∧ after.left = rest := by
  have start : Position.Of ⟨[], header.encode digest ++ rest⟩ (Checksummed.start source) :=
    ⟨steady, rfl, there⟩
  obtain ⟨stream, read, last⟩ := Reading.header_yields digest decodable rest _ start
  refine ⟨stream.inner, ?_, last.steady, last.left⟩
  rw [decode, read]

/-- Decoding undoes encoding: a header with a valid number of slots and a key is written as 74
bytes, and whoever reads on from these has the header, with all that is behind them unread. -/
theorem round_trip (digest : Checksum.Rule) {header : Header} (decodable : header.Decodable) :
    ((header.encode digest).length = encodedLength ∧ encodedLength = 74) ∧
    (∀ sink : Sink, sink.Open → ∃ after, header.encodeInto digest sink = (.ok (), after) ∧
      after.taken = sink.taken ++ header.encode digest) ∧
    ∀ (source : Source) (rest : List UInt8), source.Steady →
      source.left = header.encode digest ++ rest →
      ∃ after, decode digest source = (.ok header, after) ∧ after.left = rest := by
  refine ⟨⟨header.length_encode digest, rfl⟩, ?_, ?_⟩
  · intro sink opened
    obtain ⟨turn, encoded⟩ := header.encodeInto_eq_ok digest opened
    exact ⟨_, encoded, rfl⟩
  · intro source rest steady there
    obtain ⟨after, decoded, -, left⟩ := decode_eq_ok digest decodable steady there
    exact ⟨after, decoded, left⟩

/-- A header with the largest number in every field that has one. -/
def largest : Header where
  slotsPerGroup := 15
  keySize := 0xFFFFFFFF
  keyAlign := 0xFFFFFFFF
  valueSize := 0xFFFFFFFF
  valueAlign := 0xFFFFFFFF
  geometry := ⟨0xFFFFFFFFFFFFFFFF, Fin.last 63⟩
  size := 0xFFFFFFFFFFFFFFFF
  maxLoad := 0xFFFFFFFFFFFFFFFF
  checksum := ⟨0xFFFFFFFFFFFFFFFF, 0xFFFFFFFFFFFFFFFF⟩

/-- The largest header is read byte by byte, up to two further bytes. -/
theorem largest_round_trip :
    let encoded := largest.encode Checksum.of
    largest.Decodable ∧ encoded.length = 74 ∧
    (largest.encodeInto Checksum.of (.limited none 1)).2.taken = encoded.toArray ∧
    ∃ after, decode Checksum.of (.ofBytes (encoded ++ [7, 7]) 1) = (.ok largest, after) ∧
      after.left = [7, 7] := by
  intro encoded
  have decodable : largest.Decodable := ⟨by decide, by decide⟩
  obtain ⟨⟨length, -⟩, writing, reading⟩ := round_trip Checksum.of decodable
  have opened : (Sink.limited none 1).Open := ⟨rfl, fun _ => Nat.one_pos⟩
  obtain ⟨sink, written, taken⟩ := writing _ opened
  refine ⟨decodable, length, ?_, ?_⟩
  · rw [written, taken]
    apply Array.ext'
    rw [Array.toList_appendList]
    rfl
  · exact reading (.ofBytes _ 1) [7, 7] (fun _ => Nat.one_pos) rfl

end Header

end PackedTable
