import PackedTable.Transfer.Checksummed

/-!
Transfers that go through, and reads that are cut short. A source that always moves on gives every
run of bytes it has and refuses a longer one, and a sink without a limit takes every run, however
the bytes are split on the way. A checksummed stream moves the same bytes as the stream inside, and
remembers them.
-/

namespace PackedTable.Transfer

variable {σ : Type}

theorem fill_zero (read : σ → Nat → List UInt8 × σ) (turns : Nat) (stream : σ) :
    fill read turns 0 stream = (.ok [], stream) := by
  cases turns <;> rfl

theorem drain_nil (write : σ → List UInt8 → Nat × σ) (turns : Nat) (stream : σ) :
    drain write turns [] stream = (.ok (), stream) := by
  cases turns <;> rfl

theorem fill_step {read : σ → Nat → List UInt8 × σ} {turns wanted : Nat} {stream after : σ}
    {part : List UInt8} (given : read stream (wanted + 1) = (part, after)) (some : part ≠ []) :
    fill read (turns + 1) (wanted + 1) stream =
      match fill read turns (wanted + 1 - part.length) after with
      | (.ok rest, last) => (.ok (part ++ rest), last)
      | (.error cut, last) => (.error cut, last) := by
  cases part with
  | nil => exact absurd rfl some
  | cons first others =>
    cases further : fill read turns (wanted + 1 - (first :: others).length) after with
    | mk outcome last => cases outcome <;> simp only [fill, given, further]

theorem append_runs (bytes : Array UInt8) (first rest : List UInt8) :
    bytes ++ first ++ rest = bytes ++ (first ++ rest) := by
  apply Array.ext'
  simp only [Array.toList_appendList, List.append_assoc]

theorem empty_append (run : List UInt8) : (#[] : Array UInt8) ++ run = run.toArray := by
  apply Array.ext'
  rw [Array.toList_appendList, List.nil_append]

theorem extract_append_run (bytes : Array UInt8) (run : List UInt8) (count : Nat) :
    (bytes ++ run).extract 0 (bytes.size + count) = bytes ++ run.take count := by
  apply Array.ext'
  rw [Array.toList_extract, Array.toList_appendList, Array.toList_appendList,
    List.extract_eq_take_drop, List.drop_zero, Nat.sub_zero, ← Array.length_toList,
    List.take_length_add_append]

theorem take_append_drop_cons (byte : UInt8) (rest : List UInt8) (moved : Nat) :
    (byte :: rest).take (moved + 1) ++ rest.drop moved = byte :: rest := by
  rw [List.take_succ_cons, List.cons_append, List.take_append_drop]

namespace Source

/-- Every read gives a byte, as long as there is one. -/
def Steady (source : Source) : Prop := ∀ turn, 0 < source.pace turn

theorem fill_read {source : Source} (steady : source.Steady) {turns wanted : Nat}
    (enough : wanted ≤ turns) (there : wanted ≤ source.left.length) :
    ∃ turn, fill read turns wanted source =
      (.ok (source.left.take wanted), ⟨source.left.drop wanted, source.pace, turn⟩) := by
  induction turns generalizing wanted source with
  | zero =>
    obtain rfl := Nat.le_zero.1 enough
    exact ⟨source.turn, fill_zero read 0 source⟩
  | succ turns ih =>
    cases wanted with
    | zero => exact ⟨source.turn, fill_zero read _ source⟩
    | succ wanted =>
      have positive := steady source.turn
      generalize amount : min (wanted + 1) (source.pace source.turn) = given at *
      have size : (source.left.take given).length = given := by
        rw [List.length_take]
        omega
      have some : source.left.take given ≠ [] := by
        intro none
        rw [none, List.length_nil] at size
        omega
      have first : read source (wanted + 1) =
          (source.left.take given, ⟨source.left.drop given, source.pace, source.turn + 1⟩) := by
        simp only [read, amount]
      have further : wanted + 1 - given ≤ (source.left.drop given).length := by
        rw [List.length_drop]
        omega
      have steady' : Steady ⟨source.left.drop given, source.pace, source.turn + 1⟩ := steady
      have bound : wanted + 1 - given ≤ turns := by omega
      obtain ⟨turn, rest⟩ := ih steady' bound further
      refine ⟨turn, ?_⟩
      rw [fill_step first some, size, rest]
      have whole : given + (wanted + 1 - given) = wanted + 1 := by omega
      rw [List.drop_drop, whole]
      simp only [← List.take_add, whole]

theorem readExact_eq_ok {source : Source} (steady : source.Steady) {bytes rest : List UInt8}
    (there : source.left = bytes ++ rest) :
    ∃ turn, source.readExact bytes.length = (.ok bytes, ⟨rest, source.pace, turn⟩) := by
  have long : bytes.length ≤ source.left.length := by
    rw [there, List.length_append]
    exact Nat.le_add_right _ _
  obtain ⟨turn, filled⟩ := fill_read steady (Nat.le_refl bytes.length) long
  rw [there, List.take_left, List.drop_left] at filled
  exact ⟨turn, filled⟩

theorem fill_read_short {source : Source} (steady : source.Steady) {turns wanted : Nat}
    (enough : wanted ≤ turns) (few : source.left.length < wanted) :
    ∃ turn, fill read turns wanted source = (.error .reading, ⟨[], source.pace, turn⟩) := by
  induction turns generalizing wanted source with
  | zero => omega
  | succ turns ih =>
    obtain ⟨wanted, rfl⟩ := Nat.exists_eq_succ_of_ne_zero (show wanted ≠ 0 by omega)
    have positive := steady source.turn
    generalize amount : min (wanted + 1) (source.pace source.turn) = given at *
    have first : read source (wanted + 1) =
        (source.left.take given, ⟨source.left.drop given, source.pace, source.turn + 1⟩) := by
      simp only [read, amount]
    cases there : source.left with
    | nil =>
      refine ⟨source.turn + 1, ?_⟩
      rw [there, List.take_nil, List.drop_nil] at first
      rw [Nat.succ_eq_add_one, fill, first]
    | cons byte rest =>
      rw [there, List.length_cons] at few
      have some : source.left.take given ≠ [] := by
        rw [there]
        intro none
        have size := congrArg List.length none
        rw [List.length_take, List.length_cons, List.length_nil] at size
        omega
      have fewer : (source.left.drop given).length <
          wanted + 1 - (source.left.take given).length := by
        rw [List.length_drop, List.length_take, there, List.length_cons]
        omega
      have bound : wanted + 1 - (source.left.take given).length ≤ turns := by
        have moved := List.length_pos_iff.2 some
        omega
      have steady' : Steady ⟨source.left.drop given, source.pace, source.turn + 1⟩ := steady
      obtain ⟨turn, cut⟩ := ih steady' bound fewer
      refine ⟨turn, ?_⟩
      rw [Nat.succ_eq_add_one, fill_step first some, cut]

theorem readExact_short {source : Source} (steady : source.Steady) {count : Nat}
    (few : source.left.length < count) :
    ∃ turn, source.readExact count = (.error .reading, ⟨[], source.pace, turn⟩) :=
  fill_read_short steady (Nat.le_refl count) few

end Source

namespace Sink

/-- A sink without a limit, where every write takes a byte. -/
structure Open (sink : Sink) : Prop where
  room : sink.room = none
  pace : ∀ turn, 0 < sink.pace turn

theorem Open.eq_self {sink : Sink} (opened : sink.Open) :
    sink = ⟨sink.taken ++ ([] : List UInt8), none, sink.pace, sink.turn⟩ := by
  obtain ⟨taken, room, pace, turn⟩ := sink
  obtain ⟨rfl, -⟩ := opened
  rw [Array.appendList_nil]

theorem drain_write {sink : Sink} (opened : sink.Open) {turns : Nat} {bytes : List UInt8}
    (enough : bytes.length ≤ turns) :
    ∃ turn, drain write turns bytes sink =
      (.ok (), ⟨sink.taken ++ bytes, none, sink.pace, turn⟩) := by
  induction turns generalizing bytes sink with
  | zero =>
    obtain rfl := List.length_eq_zero_iff.1 (Nat.le_zero.1 enough)
    exact ⟨sink.turn, by rw [drain_nil, ← opened.eq_self]⟩
  | succ turns ih =>
    cases bytes with
    | nil => exact ⟨sink.turn, by rw [drain_nil, ← opened.eq_self]⟩
    | cons byte rest =>
      have positive := opened.pace sink.turn
      obtain ⟨moved, amount⟩ : ∃ moved,
          min (byte :: rest).length (sink.pace sink.turn) = moved + 1 :=
        Nat.exists_eq_succ_of_ne_zero (by rw [List.length_cons]; omega)
      let after : Sink :=
        ⟨sink.taken ++ (byte :: rest).take (moved + 1), none, sink.pace, sink.turn + 1⟩
      have first : write sink (byte :: rest) = (moved + 1, after) := by
        simp only [write, opened.room, amount, Option.map_none, after]
      have bound : (rest.drop moved).length ≤ turns := by
        rw [List.length_drop]
        rw [List.length_cons] at enough
        omega
      obtain ⟨turn, drained⟩ := ih (show after.Open from ⟨rfl, opened.pace⟩) bound
      refine ⟨turn, ?_⟩
      rw [drain, first]
      simp only [drained, after, append_runs, take_append_drop_cons]

theorem writeAll_eq_ok {sink : Sink} (opened : sink.Open) (bytes : List UInt8) :
    ∃ turn, sink.writeAll bytes = (.ok (), ⟨sink.taken ++ bytes, none, sink.pace, turn⟩) :=
  drain_write opened (Nat.le_refl bytes.length)

end Sink

namespace Checksummed

theorem fill_read {read : σ → Nat → List UInt8 × σ} {turns wanted : Nat} {inner after : σ}
    {bytes : List UInt8} (filled : fill read turns wanted inner = (.ok bytes, after))
    (passed : Array UInt8) :
    fill (Checksummed.read read) turns wanted ⟨inner, passed⟩ =
      (.ok bytes, ⟨after, passed ++ bytes⟩) := by
  induction turns generalizing wanted inner bytes passed with
  | zero =>
    cases wanted with
    | zero =>
      rw [fill_zero] at filled
      cases filled
      rw [fill_zero, Array.appendList_nil]
    | succ wanted => cases filled
  | succ turns ih =>
    cases wanted with
    | zero =>
      rw [fill_zero] at filled
      cases filled
      rw [fill_zero, Array.appendList_nil]
    | succ wanted =>
      cases given : read inner (wanted + 1) with
      | mk part last =>
        cases part with
        | nil =>
          rw [fill, given] at filled
          cases filled
        | cons first others =>
          have some : first :: others ≠ [] := List.cons_ne_nil _ _
          have given' : Checksummed.read read ⟨inner, passed⟩ (wanted + 1) =
              (first :: others, ⟨last, passed ++ (first :: others)⟩) := by
            rw [Checksummed.read, given]
          rw [fill_step given some] at filled
          rw [fill_step given' some]
          split at filled
          case h_1 rest final further =>
            cases filled
            rw [ih further, append_runs]
          case h_2 => cases filled

theorem drain_write {write : σ → List UInt8 → Nat × σ} {turns : Nat} {bytes : List UInt8}
    {inner after : σ} (drained : drain write turns bytes inner = (.ok (), after))
    (passed : Array UInt8) :
    drain (Checksummed.write write) turns bytes ⟨inner, passed⟩ =
      (.ok (), ⟨after, passed ++ bytes⟩) := by
  induction turns generalizing bytes inner passed with
  | zero =>
    cases bytes with
    | nil =>
      rw [drain_nil] at drained
      cases drained
      rw [drain_nil, Array.appendList_nil]
    | cons byte rest => cases drained
  | succ turns ih =>
    cases bytes with
    | nil =>
      rw [drain_nil] at drained
      cases drained
      rw [drain_nil, Array.appendList_nil]
    | cons byte rest =>
      rw [drain] at drained
      cases given : write inner (byte :: rest) with
      | mk moved last =>
        rw [given] at drained
        cases moved with
        | zero => cases drained
        | succ moved =>
          have further := ih drained (passed ++ (byte :: rest).take (moved + 1))
          rw [append_runs, take_append_drop_cons] at further
          rw [drain, Checksummed.write, given]
          exact further

/-- A transfer that is cut short in the stream inside is cut short in the same place. -/
theorem fill_read_error {read : σ → Nat → List UInt8 × σ} {turns wanted : Nat} {inner after : σ}
    {cut : StreamEnd} (failed : fill read turns wanted inner = (.error cut, after))
    (passed : Array UInt8) :
    ∃ moved : List UInt8, fill (Checksummed.read read) turns wanted ⟨inner, passed⟩ =
      (.error cut, ⟨after, passed ++ moved⟩) := by
  induction turns generalizing wanted inner passed with
  | zero =>
    cases wanted with
    | zero => cases failed
    | succ wanted =>
      cases failed
      exact ⟨[], by rw [Array.appendList_nil]; rfl⟩
  | succ turns ih =>
    cases wanted with
    | zero => cases failed
    | succ wanted =>
      cases given : read inner (wanted + 1) with
      | mk part last =>
        have given' : Checksummed.read read ⟨inner, passed⟩ (wanted + 1) =
            (part, ⟨last, passed ++ part⟩) := by
          rw [Checksummed.read, given]
        cases part with
        | nil =>
          rw [fill, given] at failed
          cases failed
          exact ⟨[], by rw [fill, given']⟩
        | cons first others =>
          have some : first :: others ≠ [] := List.cons_ne_nil _ _
          rw [fill_step given some] at failed
          rw [fill_step given' some]
          split at failed
          case h_1 => cases failed
          case h_2 cut' final further =>
            cases failed
            obtain ⟨moved, rest⟩ := ih further (passed ++ (first :: others))
            refine ⟨first :: others ++ moved, ?_⟩
            rw [rest, append_runs]

theorem readExact_eq_ok {stream : Checksummed Source} (steady : stream.inner.Steady)
    {bytes rest : List UInt8} (there : stream.inner.left = bytes ++ rest) :
    ∃ turn, stream.readExact bytes.length =
      (.ok bytes, ⟨⟨rest, stream.inner.pace, turn⟩, stream.passed ++ bytes⟩) := by
  obtain ⟨turn, filled⟩ := Source.readExact_eq_ok steady there
  exact ⟨turn, fill_read filled stream.passed⟩

theorem readExact_short {stream : Checksummed Source} (steady : stream.inner.Steady) {count : Nat}
    (few : stream.inner.left.length < count) :
    ∃ after, stream.readExact count = (.error .reading, after) := by
  obtain ⟨turn, cut⟩ := Source.readExact_short steady few
  obtain ⟨moved, failed⟩ := fill_read_error cut stream.passed
  exact ⟨_, failed⟩

theorem writeRuns_eq_ok {stream : Checksummed Sink} (opened : stream.inner.Open)
    (runs : List (List UInt8)) :
    ∃ turn, stream.writeRuns runs =
      (.ok (), ⟨⟨stream.inner.taken ++ runs.flatten, none, stream.inner.pace, turn⟩,
        stream.passed ++ runs.flatten⟩) := by
  induction runs generalizing stream with
  | nil =>
    refine ⟨stream.inner.turn, ?_⟩
    rw [List.flatten_nil, ← opened.eq_self, Array.appendList_nil]
    rfl
  | cons bytes rest ih =>
    obtain ⟨turn, drained⟩ := Sink.writeAll_eq_ok opened bytes
    let after : Checksummed Sink :=
      ⟨⟨stream.inner.taken ++ bytes, none, stream.inner.pace, turn⟩, stream.passed ++ bytes⟩
    have written : stream.writeAll bytes = (.ok (), after) := drain_write drained stream.passed
    obtain ⟨turn', others⟩ := ih (show after.inner.Open from ⟨rfl, opened.pace⟩)
    refine ⟨turn', ?_⟩
    rw [writeRuns, written]
    simp only [others, after, List.flatten_cons, append_runs]

end Checksummed

end PackedTable.Transfer
