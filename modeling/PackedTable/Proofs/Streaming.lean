import Mathlib.Algebra.Ring.Nat
import PackedTable.Proofs.Calls

/-!
Transfers through a checksummed stream. They move the same bytes as those over the stream inside,
end in the same way and leave that stream in the same state; and the checksum is, after each of
them, that of all bytes that were moved, also where a transfer stopped short.
-/

namespace PackedTable.Transfer

variable {ε σ ρ α : Type}

namespace Checksummed

/-- A call on a checksummed stream: the bytes that the call inside has moved are counted, and none
if it was interrupted or has failed. -/
def call (way : Way ρ α) (inner : σ → ρ → Answer ε α × σ) (stream : Checksummed σ) (request : ρ) :
    Answer ε α × Checksummed σ :=
  match inner stream.inner request with
  | (.moved amount, last) => (.moved amount, ⟨last, stream.passed ++ way.part request amount⟩)
  | (.interrupted, last) => (.interrupted, ⟨last, stream.passed⟩)
  | (.failed cause, last) => (.failed cause, ⟨last, stream.passed⟩)

variable (way : Way ρ α) (inner : σ → ρ → Answer ε α × σ)

/-- A checksummed transfer is the transfer of the stream inside, and counts what this moves. -/
theorem carry_call (turns : Nat) (request : ρ) (stream : Checksummed σ) :
    let alone := carry way inner turns request stream.inner
    carry way (call way inner) turns request stream =
      (alone.1, ⟨alone.2, stream.passed ++ alone.1.moved⟩) := by
  induction turns generalizing request stream with
  | zero =>
    by_cases none : way.size request = 0
    · simp only [carry_done _ none, Array.appendList_nil]
    · simp only [carry_zero none, Array.appendList_nil]
  | succ turns ih =>
    by_cases none : way.size request = 0
    · simp only [carry_done _ none, Array.appendList_nil]
    · cases given : inner stream.inner request with
      | mk answer last =>
        cases answer with
        | moved amount =>
          have given' : call way inner stream request =
              (.moved amount, ⟨last, stream.passed ++ way.part request amount⟩) := by
            rw [call, given]
          by_cases empty : way.part request amount = []
          · rw [empty] at given'
            simp only [carry_ended _ none given empty, carry_ended _ none given' empty]
          · simp only [carry_moved _ none given empty, carry_moved _ none given' empty, ih,
              Progress.after, append_runs]
        | interrupted =>
          have given' : call way inner stream request =
              (.interrupted, ⟨last, stream.passed⟩) := by rw [call, given]
          simp only [carry_interrupted _ none given, carry_interrupted _ none given', ih]
        | failed cause =>
          have given' : call way inner stream request =
              (.failed cause, ⟨last, stream.passed⟩) := by rw [call, given]
          simp only [carry_failed _ none given, carry_failed _ none given', Array.appendList_nil]

theorem inTurn_call (turns : ρ → Nat) (requests : List ρ) (stream : Checksummed σ) :
    let alone := inTurn (fun request => carry way inner (turns request) request) requests
      stream.inner
    inTurn (fun request => carry way (call way inner) (turns request) request) requests stream =
      (alone.1, ⟨alone.2, stream.passed ++ allMoved alone.1⟩) := by
  induction requests generalizing stream with
  | nil => simp only [inTurn, allMoved, List.map_nil, List.flatten_nil, Array.appendList_nil]
  | cons request rest ih =>
    simp only [inTurn, carry_call, ih, allMoved, List.map_cons, List.flatten_cons, append_runs]

end Checksummed

/-! ### Streams that are never interrupted and never fail -/

def plain (call : σ → ρ → α × σ) (stream : σ) (request : ρ) : Answer Empty α × σ :=
  (.moved (call stream request).1, (call stream request).2)

def written (bytes part : List UInt8) : Except StreamEnd Unit :=
  if part.length < bytes.length then .error .writing else .ok ()

def given (count : Nat) (part : List UInt8) : Except StreamEnd (List UInt8) :=
  if part.length < count then .error .reading else .ok part

theorem drop_length_take (count : Nat) (bytes : List UInt8) :
    bytes.drop (bytes.take count).length = bytes.drop count := by
  rw [List.length_take]
  rcases Nat.le_total count bytes.length with few | many
  · rw [Nat.min_eq_left few]
  · rw [Nat.min_eq_right many, List.drop_length, List.drop_of_length_le many]

theorem given_append (count : Nat) (part more : List UInt8) :
    given count (part ++ more) =
      (given (count - part.length) more).map fun rest => part ++ rest := by
  unfold given
  rw [List.length_append]
  by_cases few : more.length < count - part.length
  · rw [if_pos few, if_pos (by omega)]
    rfl
  · rw [if_neg few, if_neg (by omega)]
    rfl

theorem written_append {bytes : List UInt8} (taken : Nat) (part : List UInt8) :
    written bytes (bytes.take taken ++ part) = written (bytes.drop taken) part := by
  unfold written
  rw [List.length_append, List.length_take, List.length_drop]
  refine if_congr ?_ rfl rfl
  omega

theorem drain_eq_carry (write : σ → List UInt8 → Nat × σ) (turns : Nat) (bytes : List UInt8)
    (stream : σ) :
    let carried := carry .writing (plain write) turns bytes stream
    drain write turns bytes stream = (written bytes carried.1.moved, carried.2) := by
  induction turns generalizing bytes stream with
  | zero =>
    cases bytes with
    | nil => rfl
    | cons byte rest => rfl
  | succ turns ih =>
    cases bytes with
    | nil => rfl
    | cons byte rest =>
      have some : Way.writing.size (byte :: rest) ≠ 0 := Nat.succ_ne_zero _
      cases answer : write stream (byte :: rest) with
      | mk taken last =>
        have answer' : plain write stream (byte :: rest) = (.moved taken, last) := by
          rw [plain, answer]
        cases taken with
        | zero =>
          simp only [drain, answer, carry_ended turns some answer' rfl]
          rfl
        | succ taken =>
          cases further : carry .writing (plain write) turns (rest.drop taken) last with
          | mk progress final =>
            have carried : carry .writing (plain write) (turns + 1) (byte :: rest) stream =
                (progress.after ((byte :: rest).take (taken + 1)), final) := by
              rw [carry_moved turns some answer' (List.cons_ne_nil _ _)]
              simp only [Way.part_writing, Way.rest_writing, drop_length_take, List.drop_succ_cons,
                further]
            simp only [drain, answer, ih, further, carried, Progress.after, written_append,
              List.drop_succ_cons]

theorem fill_eq_carry (read : σ → Nat → List UInt8 × σ) (turns wanted : Nat) (stream : σ) :
    let carried := carry .reading (plain read) turns wanted stream
    fill read turns wanted stream = (given wanted carried.1.moved, carried.2) := by
  induction turns generalizing wanted stream with
  | zero =>
    cases wanted with
    | zero => rfl
    | succ wanted => rfl
  | succ turns ih =>
    cases wanted with
    | zero => rfl
    | succ wanted =>
      have some : Way.reading.size (wanted + 1) ≠ 0 := Nat.succ_ne_zero _
      cases answer : read stream (wanted + 1) with
      | mk part last =>
        have answer' : plain read stream (wanted + 1) = (.moved part, last) := by
          rw [plain, answer]
        by_cases empty : part = []
        · subst empty
          simp only [fill, answer, carry_ended turns some answer' rfl]
          rfl
        · cases further : carry .reading (plain read) turns (wanted + 1 - part.length) last with
          | mk progress final =>
            have carried : carry .reading (plain read) (turns + 1) (wanted + 1) stream =
                (progress.after part, final) := by
              rw [carry_moved turns some answer' empty]
              simp only [Way.part_reading, Way.rest_reading, further]
            simp only [fill_step answer empty, ih, further, carried, Progress.after, given_append]
            cases given (wanted + 1 - part.length) progress.moved <;> rfl

theorem inTurn_result {γ : Type} (way : Way ρ α) (inner : σ → ρ → Answer ε α × σ)
    (result : ρ → List UInt8 → γ) (turns : ρ → Nat) (requests : List ρ) (stream : σ) :
    let alone := inTurn (fun request => carry way inner (turns request) request) requests stream
    inTurn (fun request stream =>
      let carried := carry way inner (turns request) request stream
      (result request carried.1.moved, carried.2)) requests stream =
      (List.zipWith result requests (alone.1.map Progress.moved), alone.2) := by
  intro alone
  rw [List.zipWith_map_right]
  exact inTurn_map (fun request (progress : Progress ε) => result request progress.moved) requests
    stream

namespace Sink

theorem writeAll_eq (bytes : List UInt8) (sink : Sink) :
    let carried := carry .writing (plain write) bytes.length bytes sink
    sink.writeAll bytes = (written bytes carried.1.moved, carried.2) :=
  drain_eq_carry write bytes.length bytes sink

/-- What a sink takes of one run after the other. -/
def takes (runs : List (List UInt8)) (sink : Sink) : List (Progress Empty) × Sink :=
  inTurn (fun bytes => carry .writing (plain write) bytes.length bytes) runs sink

theorem inTurn_writeAll (runs : List (List UInt8)) (sink : Sink) :
    inTurn (fun bytes (sink : Sink) => sink.writeAll bytes) runs sink =
      (List.zipWith written runs ((takes runs sink).1.map Progress.moved),
        (takes runs sink).2) := by
  simp only [writeAll_eq]
  exact inTurn_result .writing (plain write) written List.length runs sink

/-- What was taken is what the sink holds more. -/
def Took (sink : Sink) (run : List UInt8) (last : Sink) : Prop := last.taken = sink.taken ++ run

theorem composes_took : Composes Took where
  nothing _ := Array.appendList_nil.symm
  together before after := by rw [Took] at *; rw [after, before, append_runs]

theorem took_carry (turns : Nat) (bytes : List UInt8) (sink : Sink) :
    let carried := carry .writing (plain write) turns bytes sink
    Took sink carried.1.moved carried.2 :=
  carry_effect .writing (plain write) composes_took (fun _ _ => rfl) turns bytes sink

theorem took_takes (runs : List (List UInt8)) (sink : Sink) :
    Took sink (allMoved (takes runs sink).1) (takes runs sink).2 :=
  inTurn_effect composes_took (fun bytes sink => took_carry bytes.length bytes sink) runs sink

/-- The parts that a sink takes. -/
theorem isPrefix_takes (runs : List (List UInt8)) (sink : Sink) :
    List.Forall₂ (fun part bytes => part <+: bytes)
      ((takes runs sink).1.map Progress.moved) runs := by
  rw [List.forall₂_map_left_iff]
  have parts := forall₂_writing (plain write) List.length runs sink
  exact (parts.imp fun bytes progress part => part.1).flip

/-- An open sink takes all of a run, and stays open. -/
theorem Open.carry_all {sink : Sink} (opened : sink.Open) (bytes : List UInt8) :
    let carried := carry .writing (plain write) bytes.length bytes sink
    carried.1.moved = bytes ∧ carried.2.Open := by
  intro carried
  obtain ⟨turn, drained⟩ := drain_write opened (Nat.le_refl bytes.length)
  rw [drain_eq_carry] at drained
  obtain ⟨whole, last⟩ := Prod.ext_iff.1 drained
  constructor
  · have enough : bytes.length ≤ carried.1.moved.length := by
      by_contra few
      rw [written, if_pos (Nat.lt_of_not_le few)] at whole
      cases whole
    exact (carry_writing_isPrefix (plain write) bytes.length bytes sink).eq_of_length_le enough
  · change carried.2 = _ at last
    rw [last]
    exact ⟨rfl, opened.pace⟩

theorem Open.takes_all {sink : Sink} (opened : sink.Open) (runs : List (List UInt8)) :
    (takes runs sink).1.map Progress.moved = runs := by
  have whole : List.Forall₂ (fun bytes progress => progress.moved = bytes) runs
      (takes runs sink).1 :=
    forall₂_inTurn Open (fun bytes _ opened => opened.carry_all bytes) runs opened
  rw [← List.forall₂_eq_eq_eq, List.forall₂_map_left_iff]
  exact whole.flip

end Sink

namespace Source

theorem readExact_eq (count : Nat) (source : Source) :
    let carried := carry .reading (plain read) count count source
    source.readExact count = (given count carried.1.moved, carried.2) :=
  fill_eq_carry read count count source

/-- What a source gives for one count after the other. -/
def gives (counts : List Nat) (source : Source) : List (Progress Empty) × Source :=
  inTurn (fun count => carry .reading (plain read) count count) counts source

theorem inTurn_readExact (counts : List Nat) (source : Source) :
    inTurn (fun count (source : Source) => source.readExact count) counts source =
      (List.zipWith given counts ((gives counts source).1.map Progress.moved),
        (gives counts source).2) := by
  simp only [readExact_eq]
  exact inTurn_result .reading (plain read) given id counts source

/-- What was given is what the source had in front of what it has left. -/
def Gave (source : Source) (run : List UInt8) (last : Source) : Prop :=
  source.left = run ++ last.left

theorem composes_gave : Composes Gave where
  nothing _ := rfl
  together before after := by rw [Gave] at *; rw [before, after, List.append_assoc]

theorem gave_carry (turns count : Nat) (source : Source) :
    let carried := carry .reading (plain read) turns count source
    Gave source carried.1.moved carried.2 :=
  carry_effect .reading (plain read) composes_gave (fun _ _ => (List.take_append_drop _ _).symm)
    turns count source

theorem gave_gives (counts : List Nat) (source : Source) :
    Gave source (allMoved (gives counts source).1) (gives counts source).2 :=
  inTurn_effect composes_gave (fun count source => gave_carry count count source) counts source

theorem Steady.carry_take {source : Source} (steady : source.Steady) (count : Nat) :
    let carried := carry .reading (plain read) count count source
    carried.1.moved = source.left.take count ∧ carried.2.left = source.left.drop count ∧
      carried.2.Steady := by
  intro carried
  have rest : carried.2.left = source.left.drop count ∧ carried.2.Steady := by
    have filled := fill_eq_carry read count count source
    by_cases there : count ≤ source.left.length
    · obtain ⟨turn, read⟩ := fill_read steady (Nat.le_refl count) there
      have last : carried.2 = ⟨source.left.drop count, source.pace, turn⟩ :=
        congrArg Prod.snd (filled.symm.trans read)
      rw [last]
      exact ⟨rfl, steady⟩
    · have few : source.left.length < count := Nat.lt_of_not_le there
      obtain ⟨turn, short⟩ := fill_read_short steady (Nat.le_refl count) few
      have last : carried.2 = ⟨[], source.pace, turn⟩ :=
        congrArg Prod.snd (filled.symm.trans short)
      rw [last, List.drop_of_length_le (Nat.le_of_lt few)]
      exact ⟨rfl, steady⟩
  refine ⟨?_, rest⟩
  have whole : source.left = carried.1.moved ++ carried.2.left := gave_carry count count source
  rw [rest.1] at whole
  have split := List.take_append_drop count source.left
  exact List.append_cancel_right (whole.symm.trans split.symm)

theorem Steady.gives_take {source : Source} (steady : source.Steady) (counts : List Nat) :
    allMoved (gives counts source).1 = source.left.take counts.sum := by
  induction counts generalizing source with
  | nil => rfl
  | cons count rest ih =>
    obtain ⟨first, left, steady'⟩ := steady.carry_take count
    have others := ih steady'
    rw [left] at others
    rw [List.sum_cons, List.take_add, ← first, ← others]
    rfl

theorem bounded_read : Bounded .reading (plain read) := by
  intro source wanted
  exact Nat.le_trans (List.length_take_le _ _) (Nat.min_le_left _ _)

theorem length_gives (counts : List Nat) (source : Source) :
    List.Forall₂ (fun part count => part.length ≤ count)
      ((gives counts source).1.map Progress.moved) counts := by
  rw [List.forall₂_map_left_iff]
  have parts := forall₂_reading bounded_read id counts source
  exact (parts.imp fun count progress part => part.1).flip

end Source

namespace Checksummed

theorem inTurn_result_call {γ : Type} (way : Way ρ α) (inner : σ → ρ → Answer ε α × σ)
    (result : ρ → List UInt8 → γ) (turns : ρ → Nat) (requests : List ρ) (stream : Checksummed σ) :
    let alone := inTurn (fun request => carry way inner (turns request) request) requests
      stream.inner
    inTurn (fun request stream =>
      let carried := carry way (call way inner) (turns request) request stream
      (result request carried.1.moved, carried.2)) requests stream =
      (List.zipWith result requests (alone.1.map Progress.moved),
        ⟨alone.2, stream.passed ++ allMoved alone.1⟩) := by
  rw [inTurn_result, inTurn_call]

theorem writeAll_eq_call (bytes : List UInt8) (stream : Checksummed Sink) :
    let carried := carry .writing (call .writing (plain Sink.write)) bytes.length bytes stream
    stream.writeAll bytes = (written bytes carried.1.moved, carried.2) :=
  drain_eq_carry (write Sink.write) bytes.length bytes stream

theorem writeAll_eq (bytes : List UInt8) (stream : Checksummed Sink) :
    let alone := carry .writing (plain Sink.write) bytes.length bytes stream.inner
    stream.writeAll bytes =
      (written bytes alone.1.moved, ⟨alone.2, stream.passed ++ alone.1.moved⟩) := by
  rw [writeAll_eq_call, carry_call]

theorem readExact_eq_call (count : Nat) (stream : Checksummed Source) :
    let carried := carry .reading (call .reading (plain Source.read)) count count stream
    stream.readExact count = (given count carried.1.moved, carried.2) :=
  fill_eq_carry (read Source.read) count count stream

theorem inTurn_writeAll (runs : List (List UInt8)) (stream : Checksummed Sink) :
    let alone := Sink.takes runs stream.inner
    inTurn (fun bytes (stream : Checksummed Sink) => stream.writeAll bytes) runs stream =
      (List.zipWith written runs (alone.1.map Progress.moved),
        ⟨alone.2, stream.passed ++ allMoved alone.1⟩) := by
  simp only [writeAll_eq_call]
  exact inTurn_result_call .writing (plain Sink.write) written List.length runs stream

theorem inTurn_readExact (counts : List Nat) (stream : Checksummed Source) :
    let alone := Source.gives counts stream.inner
    inTurn (fun count (stream : Checksummed Source) => stream.readExact count) counts stream =
      (List.zipWith given counts (alone.1.map Progress.moved),
        ⟨alone.2, stream.passed ++ allMoved alone.1⟩) := by
  simp only [readExact_eq_call]
  exact inTurn_result_call .reading (plain Source.read) given id counts stream

/-- Through a checksummed stream it came to the same as over the stream alone, which is left as it
would be, and the checksum is that of the run of bytes moved. -/
structure Mirrors {β : Type} (through : β × Checksummed σ) (alone : β × σ) (run : List UInt8) :
    Prop where
  result : through.1 = alone.1
  inner : through.2.inner = alone.2
  checksum : ∀ digest : Checksum.Rule, through.2.checksum digest = digest run.toArray

theorem mirrors_of_eq {β : Type} {through : β × Checksummed σ} {result : β} {inner last : σ}
    {run : List UInt8} (same : through = (result, ⟨last, (start inner).passed ++ run⟩)) :
    Mirrors through (result, last) run := by
  subst same
  exact ⟨rfl, rfl, fun digest => congrArg digest (empty_append run)⟩

/-- A checksummed stream is as good as the stream inside, and its checksum is that of the bytes
moved so far, however the bytes are cut into transfers and the transfers into calls.
* Over any stream, whose calls may be short, interrupted or failing, and after any number of calls,
  every transfer comes to the same as without the checksum, and leaves the same stream.
* A writing transfer delivers the first bytes of its run, all of them exactly if it goes through; a
  reading transfer pulls no more than it was asked for, and goes through exactly if it is that many.
* Transfers end if the stream does not interrupt for ever, and go through if it never refuses.
* A sink takes parts of the runs in order, a cut run being an error of writing, and an open sink
  takes all; a source hands out its bytes in order, a cut run being an error of reading, and a
  steady source gives the bytes that were asked for up to its end. -/
theorem transparent :
    (∀ {ε σ ρ α : Type} (way : Way ρ α) (inner : σ → ρ → Answer ε α × σ) (turns : Nat)
      (requests : List ρ) (stream : σ),
      let alone := inTurn (carry way inner turns) requests stream
      let through := inTurn (carry way (call way inner) turns) requests (start stream)
      Mirrors through alone (allMoved alone.1)) ∧
    (∀ {ε σ : Type} (write : σ → List UInt8 → Answer ε Nat × σ) (turns : Nat)
      (runs : List (List UInt8)) (sink : σ),
      List.Forall₂ (fun bytes progress => progress.moved <+: bytes ∧
          (progress.outcome = some (.ok ()) ↔ progress.moved = bytes)) runs
        (inTurn (carry .writing write turns) runs sink).1) ∧
    (∀ {ε σ : Type} (read : σ → Nat → Answer ε (List UInt8) × σ), Bounded .reading read →
      ∀ (turns : Nat) (counts : List Nat) (source : σ),
      List.Forall₂ (fun count progress => progress.moved.length ≤ count ∧
          (progress.outcome = some (.ok ()) ↔ progress.moved.length = count)) counts
        (inTurn (carry .reading read turns) counts source).1) ∧
    (∀ {ε σ ρ α : Type} (way : Way ρ α) (inner : σ → ρ → Answer ε α × σ), Settles inner →
      ∀ (requests : List ρ) (stream : σ), ∃ enough, ∀ turns, enough ≤ turns →
        ∀ progress ∈ (inTurn (carry way inner turns) requests stream).1,
          progress.outcome ≠ none ∧
            (Willing way inner → progress.outcome = some (.ok ()))) ∧
    (∀ (sink : Sink) (runs : List (List UInt8)),
      let alone := inTurn (fun bytes (sink : Sink) => sink.writeAll bytes) runs sink
      let through := inTurn (fun bytes (stream : Checksummed Sink) => stream.writeAll bytes) runs
        (start sink)
      ∃ parts : List (List UInt8), List.Forall₂ (fun part bytes => part <+: bytes) parts runs ∧
        alone.1 = List.zipWith written runs parts ∧
        alone.2.taken = sink.taken ++ parts.flatten ∧ (sink.Open → parts = runs) ∧
        Mirrors through alone parts.flatten) ∧
    ∀ (source : Source) (counts : List Nat),
      let alone := inTurn (fun count (source : Source) => source.readExact count) counts source
      let through := inTurn (fun count (stream : Checksummed Source) => stream.readExact count)
        counts (start source)
      ∃ parts : List (List UInt8),
        List.Forall₂ (fun part count => part.length ≤ count) parts counts ∧
        alone.1 = List.zipWith given counts parts ∧
        source.left = parts.flatten ++ alone.2.left ∧
        (source.Steady → parts.flatten = source.left.take counts.sum) ∧
        Mirrors through alone parts.flatten := by
  refine ⟨?any, ?writing, ?reading, ?ending, ?sinks, ?sources⟩
  case any =>
    intro ε σ ρ α way inner turns requests stream alone through
    exact mirrors_of_eq (inTurn_call way inner (fun _ => turns) requests (start stream))
  case writing => exact fun write turns => forall₂_writing write fun _ => turns
  case reading => exact fun read bounded turns => forall₂_reading bounded fun _ => turns
  case ending =>
    intro ε σ ρ α way inner settles requests stream
    obtain ⟨enough, ended⟩ := exists_inTurn_ended way inner settles requests stream
    refine ⟨enough, fun turns many progress inside => ?_⟩
    have stops := ended turns many progress inside
    refine ⟨stops, fun willing => ?_⟩
    obtain ⟨request, between, rfl⟩ := exists_of_mem_inTurn inside
    exact carry_willing way inner willing turns request between stops
  case sinks =>
    intro sink runs alone through
    have plainly : alone = _ := Sink.inTurn_writeAll runs sink
    refine ⟨(Sink.takes runs sink).1.map Progress.moved, Sink.isPrefix_takes runs sink, ?_⟩
    rw [plainly]
    exact ⟨rfl, Sink.took_takes runs sink, fun opened => opened.takes_all runs,
      mirrors_of_eq (inTurn_writeAll runs (start sink))⟩
  case sources =>
    intro source counts alone through
    have plainly : alone = _ := Source.inTurn_readExact counts source
    refine ⟨(Source.gives counts source).1.map Progress.moved,
      Source.length_gives counts source, ?_⟩
    rw [plainly]
    exact ⟨rfl, Source.gave_gives counts source, fun steady => steady.gives_take counts,
      mirrors_of_eq (inTurn_readExact counts (start source))⟩

/-- A sink that answers by a script, and fails behind it. -/
def scripted : List (Answer Unit Nat) → List UInt8 → Answer Unit Nat × List (Answer Unit Nat)
  | [], _ => (.failed (), [])
  | answer :: rest, _ => (answer, rest)

/-- A sink that is interrupted every other time, and else takes a byte. -/
def drowsy : Bool → List UInt8 → Answer Empty Nat × Bool
  | true, _ => (.interrupted, false)
  | false, _ => (.moved 1, true)

theorem settles_drowsy : Settles drowsy := by
  intro bytes
  have awake : Acc (fun after before => drowsy before bytes = (.interrupted, after)) false :=
    ⟨_, fun _ given => by cases given⟩
  refine ⟨fun state => ?_⟩
  cases state with
  | false => exact awake
  | true => exact ⟨_, fun _ given => by cases given; exact awake⟩

theorem willing_drowsy : Willing .writing drowsy := by
  intro state bytes some none
  cases state with
  | true => rfl
  | false =>
    cases bytes with
    | nil => exact absurd rfl some
    | cons byte rest => cases none

/-- Two runs of together five bytes: into a sink that fails at the fifth byte, into one that is only
ever interrupted, into one that is full at the fifth byte, and into one that takes them all. Then
seven bytes are asked for where there are five. -/
theorem short_transparent :
    let runs : List (List UInt8) := [[1, 2, 3], [4, 5]]
    let script : List (Answer Unit Nat) := [.moved 2, .interrupted, .moved 1, .moved 1]
    let into (sink : Sink) :=
      inTurn (fun bytes (stream : Checksummed Sink) => stream.writeAll bytes) runs (start sink)
    let full := into (.limited (some 4) 2)
    let source : Source := .ofBytes [1, 2, 3, 4, 5] 2
    let few := inTurn (fun count (stream : Checksummed Source) => stream.readExact count) [3, 4]
      (start source)
    (inTurn (carry .writing scripted 9) runs script).1 =
        [⟨[1, 2, 3], some (.ok ())⟩, ⟨[4], some (.error (.failed ()))⟩] ∧
      (inTurn (carry .writing (call .writing scripted) 9) runs (start script)).2.checksum
        Checksum.of = Checksum.of #[1, 2, 3, 4] ∧
      (∃ turns, ∀ progress ∈ (inTurn (carry .writing drowsy turns) runs true).1,
        progress.outcome = some (.ok ())) ∧
      (full.1 = [.ok (), .error .writing] ∧ full.2.inner.taken = #[1, 2, 3, 4] ∧
        full.2.checksum Checksum.of = Checksum.of #[1, 2, 3, 4]) ∧
      (into (.limited none 2)).2.checksum Checksum.of = Checksum.of #[1, 2, 3, 4, 5] ∧
      List.Forall₂ (fun count progress => progress.moved.length ≤ count) [3, 4]
        (inTurn (carry .reading (plain Source.read) 3) [3, 4] source).1 ∧
      few.1 = [.ok [1, 2, 3], .error .reading] ∧
      few.2.checksum Checksum.of = Checksum.of #[1, 2, 3, 4, 5] := by
  intro runs script into full source few
  obtain ⟨any, -, reading, ending, sinks, sources⟩ := transparent
  refine
    ⟨rfl, (any .writing scripted 9 runs script).checksum _, ?drowsy, ?full, ?all, ?bounded, ?few⟩
  case drowsy =>
    obtain ⟨enough, through⟩ := ending .writing drowsy settles_drowsy runs true
    exact ⟨enough, fun progress inside =>
      (through enough (Nat.le_refl enough) progress inside).2 willing_drowsy⟩
  case full =>
    obtain ⟨parts, -, -, taken, -, ⟨-, inner, checksum⟩⟩ := sinks (.limited (some 4) 2) runs
    have held : full.2.inner.taken = #[1, 2, 3, 4] := by decide
    rw [← inner] at taken
    have same : parts.flatten.toArray = #[1, 2, 3, 4] := by
      rw [← empty_append, ← held]
      exact taken.symm
    rw [same] at checksum
    exact ⟨by decide, held, checksum _⟩
  case all =>
    have opened : (Sink.limited none 2).Open := ⟨rfl, fun _ => Nat.two_pos⟩
    obtain ⟨parts, -, -, -, whole, ⟨-, -, checksum⟩⟩ := sinks (.limited none 2) runs
    rw [whole opened] at checksum
    exact checksum _
  case bounded =>
    have parts := reading (plain Source.read) Source.bounded_read 3 [3, 4] source
    exact parts.imp fun _ _ part => part.1
  case few =>
    have steady : source.Steady := fun _ => Nat.two_pos
    obtain ⟨parts, -, -, -, whole, ⟨-, -, checksum⟩⟩ := sources source [3, 4]
    rw [whole steady] at checksum
    exact ⟨by decide, checksum _⟩

end Checksummed

end PackedTable.Transfer
