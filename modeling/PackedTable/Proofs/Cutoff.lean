import PackedTable.Proofs.HeaderFormat
import PackedTable.Proofs.Streaming

/-!
Encoding a header into a sink that becomes full. A sink with a limit takes the first bytes of what
is written, run by run and piece by piece, up to its limit and no further. So a header leaves the
first bytes of its encoding, and the encoding succeeds exactly if there is room for all of it.
-/

namespace PackedTable

open Transfer

namespace Transfer

theorem written_take (bytes : List UInt8) (room : Nat) :
    written bytes (bytes.take room) =
      if bytes.length ≤ room then .ok () else .error .writing := by
  unfold written
  rw [List.length_take]
  by_cases enough : bytes.length ≤ room
  · rw [if_neg (by omega), if_pos enough]
  · rw [if_pos (by omega), if_neg enough]

namespace Sink

/-- A sink that takes so many bytes and then no more, and before that a byte in every write. -/
structure Limited (sink : Sink) (room : Nat) : Prop where
  room : sink.room = some room
  pace : ∀ turn, 0 < sink.pace turn

/-- What becomes of a sink with so much room when the bytes are written into it. -/
structure Filled (sink : Sink) (room : Nat) (bytes : List UInt8) (last : Sink) : Prop where
  taken : last.taken = sink.taken ++ bytes.take room
  limited : last.Limited (room - bytes.length)

theorem Limited.filled_nil {sink : Sink} {room : Nat} (limited : sink.Limited room) :
    sink.Filled room [] sink where
  taken := by rw [List.take_nil, Array.appendList_nil]
  limited := limited

theorem Filled.append {sink between last : Sink} {room : Nat} {first second : List UInt8}
    (before : sink.Filled room first between)
    (after : between.Filled (room - first.length) second last) :
    sink.Filled room (first ++ second) last where
  taken := by rw [after.taken, before.taken, append_runs, List.take_append]
  limited := by
    rw [List.length_append, ← Nat.sub_sub]
    exact after.limited

theorem Filled.full {sink last : Sink} {room : Nat} {bytes : List UInt8}
    (filled : sink.Filled room bytes last) (full : room ≤ bytes.length) (more : List UInt8) :
    sink.Filled room (bytes ++ more) last where
  taken := by rw [filled.taken, List.take_append_of_le_length full]
  limited := by
    have none : room - (bytes ++ more).length = room - bytes.length := by
      rw [List.length_append]
      omega
    rw [none]
    exact filled.limited

theorem Limited.write_take {sink : Sink} {room : Nat} (limited : sink.Limited room)
    {bytes : List UInt8} (some : bytes ≠ []) :
    ∃ taken between, plain write sink bytes = (.moved taken, between) ∧
      (bytes.take taken).length = taken ∧ taken ≤ room ∧ (taken = 0 → room = 0) ∧
      sink.Filled room (bytes.take taken) between := by
  have long := List.length_pos_iff.2 some
  have positive := limited.pace sink.turn
  generalize amount : min (min bytes.length (sink.pace sink.turn)) room = taken
  have size : (bytes.take taken).length = taken := by
    rw [List.length_take]
    omega
  have within : taken ≤ room := by omega
  refine ⟨taken,
    ⟨sink.taken ++ bytes.take taken, .some (room - taken), sink.pace, sink.turn + 1⟩,
    ?answer, size, within, by omega, ?taken, ?limited⟩
  case answer => simp only [plain, write, limited.room, amount, Option.map_some]
  case taken => rw [List.take_take, Nat.min_eq_right within]
  case limited =>
    rw [size]
    exact ⟨rfl, limited.pace⟩

theorem Limited.carry_take {sink : Sink} {room turns : Nat} (limited : sink.Limited room)
    {bytes : List UInt8} (enough : bytes.length ≤ turns) :
    let carried := carry .writing (plain write) turns bytes sink
    carried.1.moved = bytes.take room ∧ sink.Filled room bytes carried.2 := by
  induction turns generalizing bytes sink room with
  | zero =>
    obtain rfl := List.length_eq_zero_iff.1 (Nat.le_zero.1 enough)
    rw [carry_done 0 rfl, List.take_nil]
    exact ⟨rfl, limited.filled_nil⟩
  | succ turns ih =>
    by_cases none : bytes = []
    · subst none
      rw [carry_done _ rfl, List.take_nil]
      exact ⟨rfl, limited.filled_nil⟩
    · obtain ⟨taken, between, answer, size, within, full, first⟩ := limited.write_take none
      have some : Way.writing.size bytes ≠ 0 := fun short =>
        none (List.length_eq_zero_iff.1 short)
      by_cases stops : taken = 0
      · obtain rfl := full stops
        subst stops
        rw [carry_ended turns some answer rfl]
        exact ⟨rfl, first.full (Nat.zero_le _) bytes⟩
      · have part : bytes.take taken ≠ [] := List.ne_nil_of_length_pos (by omega)
        have bound : (bytes.drop taken).length ≤ turns := by
          rw [List.length_drop]
          omega
        obtain ⟨moved, filled⟩ := ih first.limited bound
        have rest := first.append filled
        have whole : bytes.take taken ++ (bytes.drop taken).take (room - taken) =
            bytes.take room := by rw [← List.take_add, Nat.add_sub_cancel' within]
        rw [List.take_append_drop] at rest
        simp only [size] at moved rest
        simp only [carry_moved turns some answer part, Way.part_writing, Way.rest_writing, size,
          Progress.after, moved, whole]
        exact ⟨trivial, rest⟩

theorem Limited.writeAll_take {sink : Sink} {room : Nat} (limited : sink.Limited room)
    (bytes : List UInt8) :
    ∃ last, sink.writeAll bytes = (written bytes (bytes.take room), last) ∧
      sink.Filled room bytes last := by
  obtain ⟨moved, filled⟩ := limited.carry_take (Nat.le_refl bytes.length)
  exact ⟨_, by simp only [writeAll_eq, moved], filled⟩

end Sink

namespace Checksummed

theorem writeAll_take {stream : Checksummed Sink} {room : Nat}
    (limited : stream.inner.Limited room) (bytes : List UInt8) :
    ∃ last, stream.writeAll bytes =
      (written bytes (bytes.take room), ⟨last, stream.passed ++ bytes.take room⟩) ∧
      stream.inner.Filled room bytes last := by
  obtain ⟨moved, filled⟩ := limited.carry_take (Nat.le_refl bytes.length)
  exact ⟨_, by simp only [writeAll_eq, moved], filled⟩

theorem writeRuns_take {stream : Checksummed Sink} {room : Nat}
    (limited : stream.inner.Limited room) (runs : List (List UInt8)) :
    ∃ last, stream.writeRuns runs = (written runs.flatten (runs.flatten.take room),
        ⟨last, stream.passed ++ runs.flatten.take room⟩) ∧
      stream.inner.Filled room runs.flatten last := by
  induction runs generalizing stream room with
  | nil =>
    refine ⟨stream.inner, ?_, limited.filled_nil⟩
    rw [List.flatten_nil, List.take_nil, Array.appendList_nil]
    rfl
  | cons bytes rest ih =>
    obtain ⟨between, wrote, first⟩ := writeAll_take limited bytes
    rw [written_take] at wrote
    rw [List.flatten_cons, written_take, List.length_append, writeRuns, wrote]
    by_cases enough : bytes.length ≤ room
    · let after : Checksummed Sink := ⟨between, stream.passed ++ bytes.take room⟩
      have limited' : after.inner.Limited (room - bytes.length) := first.limited
      obtain ⟨last, others, second⟩ := ih limited'
      refine ⟨last, ?_, first.append second⟩
      have fits : rest.flatten.length ≤ room - bytes.length ↔
          bytes.length + rest.flatten.length ≤ room := by omega
      simp only [if_pos enough, others, after, written_take, fits, append_runs, List.take_append]
    · refine ⟨between, ?_, first.full (by omega) rest.flatten⟩
      rw [if_neg enough, if_neg (by omega), List.take_append_of_le_length (by omega)]

end Checksummed

end Transfer

namespace Header

theorem length_closing (covered : Checksum) : (closing covered).length = 4 :=
  LittleEndian.length_encode 4 _

section

variable (digest : Checksum.Rule)

theorem encodeInto_take (header : Header) {sink : Sink} {limit : Nat}
    (limited : sink.Limited limit) :
    ∃ last, header.encodeInto digest sink =
        (if encodedLength ≤ limit then .ok () else .error (.stream .writing), last) ∧
      sink.Filled limit (header.encode digest) last := by
  have start : (Checksummed.start sink).inner.Limited limit := limited
  obtain ⟨between, wrote, first⟩ := Checksummed.writeRuns_take start header.runs
  have length := header.length_encode digest
  rw [encode, List.length_append, length_closing] at length
  unfold encodeInto encode
  generalize header.runs.flatten = covered at *
  rw [wrote, written_take]
  by_cases enough : covered.length ≤ limit
  · obtain ⟨last, closed, second⟩ :=
      first.limited.writeAll_take (closing (digest covered.toArray))
    rw [written_take, length_closing] at closed
    refine ⟨last, ?_, first.append second⟩
    have fits : 4 ≤ limit - covered.length ↔ encodedLength ≤ limit := by omega
    simp only [if_pos enough, List.take_of_length_le enough, Checksummed.start,
      Checksummed.checksum, empty_append, closed, fits]
    by_cases whole : encodedLength ≤ limit
    · simp only [if_pos whole]
    · simp only [if_neg whole]
  · refine ⟨between, ?_, first.full (by omega) _⟩
    rw [if_neg enough, if_neg (by omega)]

/-- A header is encoded into a sink that takes so many bytes in all, and of a write at least one
until then. The encoding has the magic, the version and every number of the header at its place, and
closes with the checksum of what is before. The sink takes the first bytes of it, in order and as
many as it can, up to all 74; the encoding succeeds exactly if it takes them all, and else the error
is that of a write that takes nothing. These are the bytes that a sink without a limit would have
taken first, the closing checksum included, however the writes were split. -/
theorem cut_off (header : Header) {sink : Sink} {limit : Nat} (limited : sink.Limited limit) :
    let cut := header.encodeInto digest sink
    header.Written digest (header.encode digest) ∧
      cut.2.taken = sink.taken ++ (header.encode digest).take (min limit 74) ∧
      (cut.1 = .ok () ↔ 74 ≤ limit) ∧ (¬74 ≤ limit → cut.1 = .error (.stream .writing)) ∧
      ∀ opened : Sink, opened.Open → opened.taken = sink.taken →
        let whole := header.encodeInto digest opened
        whole.1 = .ok () ∧ whole.2.taken = sink.taken ++ header.encode digest ∧
          cut.2.taken = whole.2.taken.extract 0 (sink.taken.size + limit) := by
  intro cut
  obtain ⟨last, encoded, filled⟩ := header.encodeInto_take digest limited
  have length : (header.encode digest).length = 74 := header.length_encode digest
  have taken : cut.2.taken = sink.taken ++ (header.encode digest).take limit := by
    simp only [cut, encoded, filled.taken]
  have result : cut.1 = if 74 ≤ limit then .ok () else .error (.stream .writing) :=
    congrArg Prod.fst encoded
  refine ⟨header.written_encode digest, ?_, ?_, ?_, ?_⟩
  · rw [taken, List.take_eq_take_min, length]
  · rw [result]
    by_cases enough : 74 ≤ limit
    · rw [if_pos enough]
      exact iff_of_true rfl enough
    · rw [if_neg enough]
      exact iff_of_false nofun enough
  · intro short
    rw [result, if_neg short]
  · intro opened unlimited same whole
    obtain ⟨turn, encoded'⟩ := header.encodeInto_eq_ok digest unlimited
    have all : whole = _ := encoded'
    rw [taken, all, same]
    exact ⟨rfl, rfl, (extract_append_run sink.taken (header.encode digest) limit).symm⟩

end

/-- The largest header in a sink that takes five bytes at a time: with room for 72 bytes half of the
closing checksum is missing, with room for 74 nothing is. -/
theorem largest_cut_off :
    let five (limit : Nat) : Sink := .limited (some limit) 5
    (∀ limit, (five limit).Limited limit) ∧
      (largest.encodeInto Checksum.of (five 72)).1 = .error (.stream .writing) ∧
      (largest.encodeInto Checksum.of (five 72)).2.taken =
        ((largest.encode Checksum.of).take 72).toArray ∧
      (largest.encodeInto Checksum.of (five 74)).1 = .ok () ∧
      (largest.encodeInto Checksum.of (five 74)).2.taken =
        (largest.encodeInto Checksum.of (.limited none 9)).2.taken := by
  intro five
  have limited (limit : Nat) : (five limit).Limited limit := ⟨rfl, fun _ => Nat.succ_pos 4⟩
  have opened : (Sink.limited none 9).Open := ⟨rfl, fun _ => Nat.succ_pos 8⟩
  obtain ⟨-, taken, -, refused, -⟩ := cut_off Checksum.of largest (limited 72)
  obtain ⟨written, taken', accepted, -, open'⟩ := cut_off Checksum.of largest (limited 74)
  obtain ⟨-, all, -⟩ := open' (.limited none 9) opened rfl
  refine ⟨limited, refused (by decide), ?_, accepted.2 (Nat.le_refl 74), ?_⟩
  · exact taken.trans (empty_append _)
  · rw [all, taken', Nat.min_self, List.take_of_length_le (Nat.le_of_eq written.length)]

end Header

end PackedTable
