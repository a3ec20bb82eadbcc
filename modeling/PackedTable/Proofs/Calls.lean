import Mathlib.Data.List.Forall2
import PackedTable.Proofs.Transfer

/-!
Transfers over streams of any kind. A call on a stream moves as many bytes as it likes, or is
interrupted before it moves one, or fails. A transfer goes on after a short call, asks again after
an interrupted one, and stops when a call moves nothing or fails. The loop is the same for reading
and for writing, so there is one, for each way of moving bytes.
-/

namespace PackedTable.Transfer

inductive Answer (ε α : Type) where
  | moved (amount : α)
  | interrupted
  | failed (cause : ε)

inductive Halt (ε : Type) where
  | ended (cut : StreamEnd)
  | failed (cause : ε)

/-- A way of moving bytes: how many a request asks for, which ones the answer to it stands for, and
what to ask for when so many have been moved. -/
structure Way (ρ α : Type) where
  size : ρ → Nat
  part : ρ → α → List UInt8
  rest : ρ → Nat → ρ
  cut : StreamEnd
  size_rest : ∀ request count, size (rest request count) = size request - count

namespace Way

/-- A write offers bytes, and the answer is how many of them were taken. -/
def writing : Way (List UInt8) Nat where
  size := List.length
  part bytes taken := bytes.take taken
  rest bytes count := bytes.drop count
  cut := .writing
  size_rest _ _ := List.length_drop

/-- A read has room for a number of bytes, and the answer is the bytes that were given. -/
def reading : Way Nat (List UInt8) where
  size wanted := wanted
  part _ given := given
  rest wanted count := wanted - count
  cut := .reading
  size_rest _ _ := rfl

@[simp] theorem part_writing (bytes : List UInt8) (taken : Nat) :
    writing.part bytes taken = bytes.take taken := rfl

@[simp] theorem rest_writing (bytes : List UInt8) (count : Nat) :
    writing.rest bytes count = bytes.drop count := rfl

@[simp] theorem part_reading (wanted : Nat) (given : List UInt8) :
    reading.part wanted given = given := rfl

@[simp] theorem rest_reading (wanted count : Nat) :
    reading.rest wanted count = wanted - count := rfl

end Way

/-- What has come of a transfer: the bytes moved so far, and how it ended unless it goes on. -/
structure Progress (ε : Type) where
  moved : List UInt8
  outcome : Option (Except (Halt ε) Unit)

def Progress.after {ε : Type} (part : List UInt8) (progress : Progress ε) : Progress ε :=
  ⟨part ++ progress.moved, progress.outcome⟩

variable {ε σ ρ α β : Type}

def Answer.part (way : Way ρ α) (request : ρ) : Answer ε α → List UInt8
  | .moved amount => way.part request amount
  | .interrupted => []
  | .failed _ => []

/-- Calls until everything has been moved, but at most `turns` times. -/
def carry (way : Way ρ α) (call : σ → ρ → Answer ε α × σ) : Nat → ρ → σ → Progress ε × σ
  | 0, request, stream => (⟨[], if way.size request = 0 then some (.ok ()) else none⟩, stream)
  | turns + 1, request, stream =>
    if way.size request = 0 then (⟨[], some (.ok ())⟩, stream)
    else
      match call stream request with
      | (.moved amount, last) =>
        let part := way.part request amount
        if part = [] then (⟨[], some (.error (.ended way.cut))⟩, last)
        else
          let further := carry way call turns (way.rest request part.length) last
          (further.1.after part, further.2)
      | (.interrupted, last) => carry way call turns request last
      | (.failed cause, last) => (⟨[], some (.error (.failed cause))⟩, last)

/-- Transfers one after the other, each from where the one before has left the stream, however it
ended. -/
def inTurn (transfer : ρ → σ → β × σ) : List ρ → σ → List β × σ
  | [], stream => ([], stream)
  | request :: rest, stream =>
    let first := transfer request stream
    let others := inTurn transfer rest first.2
    (first.1 :: others.1, others.2)

def allMoved (transfers : List (Progress ε)) : List UInt8 :=
  (transfers.map Progress.moved).flatten

/-! ### One turn of the loop -/

section Turns

variable {way : Way ρ α} {call : σ → ρ → Answer ε α × σ} {request : ρ} {stream last : σ}

theorem carry_done (turns : Nat) (none : way.size request = 0) :
    carry way call turns request stream = (⟨[], some (.ok ())⟩, stream) := by
  cases turns with
  | zero => rw [carry, if_pos none]
  | succ turns => rw [carry, if_pos none]

theorem carry_zero (some : way.size request ≠ 0) :
    carry way call 0 request stream = (⟨[], none⟩, stream) := by
  rw [carry, if_neg some]

theorem carry_ended (turns : Nat) (some : way.size request ≠ 0) {amount : α}
    (answer : call stream request = (.moved amount, last)) (none : way.part request amount = []) :
    carry way call (turns + 1) request stream =
      (⟨[], .some (.error (.ended way.cut))⟩, last) := by
  rw [carry, if_neg some, answer]
  exact if_pos none

theorem carry_moved (turns : Nat) (some : way.size request ≠ 0) {amount : α}
    (answer : call stream request = (.moved amount, last)) (some' : way.part request amount ≠ []) :
    carry way call (turns + 1) request stream =
      let further := carry way call turns
        (way.rest request (way.part request amount).length) last
      (further.1.after (way.part request amount), further.2) := by
  rw [carry, if_neg some, answer]
  exact if_neg some'

theorem carry_interrupted (turns : Nat) (some : way.size request ≠ 0)
    (answer : call stream request = (.interrupted, last)) :
    carry way call (turns + 1) request stream = carry way call turns request last := by
  rw [carry, if_neg some, answer]

theorem carry_failed (turns : Nat) (some : way.size request ≠ 0) {cause : ε}
    (answer : call stream request = (.failed cause, last)) :
    carry way call (turns + 1) request stream =
      (⟨[], .some (.error (.failed cause))⟩, last) := by
  rw [carry, if_neg some, answer]

end Turns

/-- A property of all transfers: it holds where there is nothing to move, where the calls are used
up and where a call stops the transfer, and it is kept by a call that was made before. -/
theorem carry_induction (way : Way ρ α) (call : σ → ρ → Answer ε α × σ)
    {motive : ρ → σ → Progress ε → σ → Prop}
    (done : ∀ request stream, way.size request = 0 →
      motive request stream ⟨[], some (.ok ())⟩ stream)
    (paused : ∀ request stream, way.size request ≠ 0 → motive request stream ⟨[], none⟩ stream)
    (stopped : ∀ request stream answer last halt, way.size request ≠ 0 →
      call stream request = (answer, last) → answer.part way request = [] →
      answer ≠ .interrupted → motive request stream ⟨[], some (.error halt)⟩ last)
    (moved : ∀ request stream answer between progress last, way.size request ≠ 0 →
      call stream request = (answer, between) → answer.part way request ≠ [] →
      motive (way.rest request (answer.part way request).length) between progress last →
      motive request stream (progress.after (answer.part way request)) last)
    (interrupted : ∀ request stream between progress last, way.size request ≠ 0 →
      call stream request = (.interrupted, between) → motive request between progress last →
      motive request stream progress last)
    (turns : Nat) (request : ρ) (stream : σ) :
    motive request stream (carry way call turns request stream).1
      (carry way call turns request stream).2 := by
  induction turns generalizing request stream with
  | zero =>
    by_cases none : way.size request = 0
    · rw [carry_done 0 none]
      exact done request stream none
    · rw [carry_zero none]
      exact paused request stream none
  | succ turns ih =>
    by_cases none : way.size request = 0
    · rw [carry_done _ none]
      exact done request stream none
    · cases given : call stream request with
      | mk answer last =>
        cases answer with
        | moved amount =>
          by_cases empty : way.part request amount = []
          · rw [carry_ended turns none given empty]
            exact stopped request stream _ last _ none given empty nofun
          · rw [carry_moved turns none given empty]
            exact moved request stream _ last _ _ none given empty (ih _ last)
        | interrupted =>
          rw [carry_interrupted turns none given]
          exact interrupted request stream last _ _ none given (ih request last)
        | failed cause =>
          rw [carry_failed turns none given]
          exact stopped request stream _ last _ none given rfl nofun

/-! ### What a transfer has moved -/

/-- What moving bytes does to a stream, if moving them in parts does the same. -/
structure Composes (effect : σ → List UInt8 → σ → Prop) : Prop where
  nothing : ∀ stream, effect stream [] stream
  together : ∀ {stream between last first second}, effect stream first between →
    effect between second last → effect stream (first ++ second) last

section Moved

variable (way : Way ρ α) (call : σ → ρ → Answer ε α × σ)

theorem carry_effect {effect : σ → List UInt8 → σ → Prop} (composes : Composes effect)
    (calls : ∀ stream request,
      effect stream ((call stream request).1.part way request) (call stream request).2)
    (turns : Nat) (request : ρ) (stream : σ) :
    effect stream (carry way call turns request stream).1.moved
      (carry way call turns request stream).2 := by
  refine carry_induction way call
    (motive := fun _ stream progress last => effect stream progress.moved last)
    ?done ?paused ?stopped ?moved ?interrupted turns request stream
  case done => exact fun _ stream _ => composes.nothing stream
  case paused => exact fun _ stream _ => composes.nothing stream
  case stopped =>
    intro request stream answer last _ _ given none _
    have one := calls stream request
    rw [given, none] at one
    exact one
  case moved =>
    intro request stream answer between progress last _ given _ rest
    have one := calls stream request
    rw [given] at one
    exact composes.together one rest
  case interrupted =>
    intro request stream between progress last _ given rest
    have one := calls stream request
    rw [given] at one
    exact composes.together one rest

def Bounded : Prop :=
  ∀ stream request, ((call stream request).1.part way request).length ≤ way.size request

theorem carry_bounded (bounded : Bounded way call) (turns : Nat) (request : ρ) (stream : σ) :
    let progress := (carry way call turns request stream).1
    progress.moved.length ≤ way.size request ∧
      (progress.outcome = some (.ok ()) ↔ progress.moved.length = way.size request) := by
  refine carry_induction way call
    (motive := fun request _ progress _ => progress.moved.length ≤ way.size request ∧
      (progress.outcome = some (.ok ()) ↔ progress.moved.length = way.size request))
    ?done ?paused ?stopped ?moved ?interrupted turns request stream
  case done =>
    intro request _ none
    simp only [List.length_nil, none, Nat.le_refl, and_self]
  case paused =>
    intro request _ some
    simp only [List.length_nil, Nat.zero_le, reduceCtorEq, some.symm, and_self]
  case stopped =>
    intro request _ _ _ halt some _ _ _
    simp only [List.length_nil, Nat.zero_le, Option.some.injEq, reduceCtorEq, some.symm, and_self]
  case moved =>
    intro request stream answer between progress last some given _ ⟨few, whole⟩
    have one : (answer.part way request).length ≤ way.size request := by
      have one := bounded stream request
      rwa [given] at one
    rw [way.size_rest] at few whole
    simp only [Progress.after, List.length_append]
    exact ⟨by omega, whole.trans (by omega)⟩
  case interrupted => exact fun _ _ _ _ _ _ _ kept => kept

theorem bounded_writing (write : σ → List UInt8 → Answer ε Nat × σ) : Bounded .writing write := by
  intro stream bytes
  cases (write stream bytes).1 with
  | moved taken => exact List.length_take_le' taken bytes
  | interrupted => exact Nat.zero_le _
  | failed cause => exact Nat.zero_le _

theorem carry_writing_isPrefix (write : σ → List UInt8 → Answer ε Nat × σ) (turns : Nat)
    (bytes : List UInt8) (stream : σ) :
    (carry .writing write turns bytes stream).1.moved <+: bytes := by
  refine carry_induction .writing write
    (motive := fun bytes _ progress _ => progress.moved <+: bytes)
    ?done ?paused ?stopped ?moved ?interrupted turns bytes stream
  case done => exact fun bytes _ _ => List.nil_prefix
  case paused => exact fun bytes _ _ => List.nil_prefix
  case stopped => exact fun bytes _ _ _ _ _ _ _ _ => List.nil_prefix
  case moved =>
    rintro bytes stream answer between progress last some given some' rest
    cases answer with
    | moved taken =>
      obtain ⟨left, whole⟩ := rest
      refine ⟨left, ?_⟩
      rw [Progress.after, List.append_assoc, whole]
      exact List.prefix_iff_eq_append.1 (List.take_prefix taken bytes)
    | interrupted => exact absurd rfl some'
    | failed cause => exact absurd rfl some'
  case interrupted => exact fun _ _ _ _ _ _ _ kept => kept

end Moved

/-! ### How many calls are needed -/

section Turns

variable (way : Way ρ α) (call : σ → ρ → Answer ε α × σ)

/-- A stream does not interrupt the same request for ever. -/
def Settles : Prop :=
  ∀ request, WellFounded fun after before => call before request = (.interrupted, after)

/-- Every call that asks for a byte moves one, or is interrupted. -/
def Willing : Prop :=
  ∀ stream request, way.size request ≠ 0 → (call stream request).1.part way request = [] →
    (call stream request).1 = .interrupted

/-- Once a transfer has ended, more calls than it has made change nothing. -/
theorem carry_stable {turns : Nat} {request : ρ} {stream : σ}
    (ended : (carry way call turns request stream).1.outcome ≠ none) (extra : Nat) :
    carry way call (turns + extra) request stream = carry way call turns request stream := by
  induction turns generalizing request stream with
  | zero =>
    by_cases none : way.size request = 0
    · rw [carry_done _ none, carry_done _ none]
    · rw [carry_zero none] at ended
      exact absurd rfl ended
  | succ turns ih =>
    rw [Nat.succ_add]
    by_cases none : way.size request = 0
    · rw [carry_done _ none, carry_done _ none]
    · cases given : call stream request with
      | mk answer last =>
        cases answer with
        | moved amount =>
          by_cases empty : way.part request amount = []
          · rw [carry_ended _ none given empty, carry_ended _ none given empty]
          · rw [carry_moved _ none given empty] at ended ⊢
            rw [carry_moved _ none given empty, ih ended]
        | interrupted =>
          rw [carry_interrupted _ none given] at ended ⊢
          rw [carry_interrupted _ none given, ih ended]
        | failed cause => rw [carry_failed _ none given, carry_failed _ none given]

theorem exists_carry_ended (settles : Settles call) (request : ρ) (stream : σ) :
    ∃ turns, (carry way call turns request stream).1.outcome ≠ none := by
  induction long : way.size request using Nat.strongRecOn generalizing request stream with
  | ind size ih =>
    by_cases none : way.size request = 0
    · exact ⟨0, by rw [carry_done 0 none]; exact Option.some_ne_none _⟩
    · -- the request stays the same until a call is not interrupted
      induction stream using (settles request).induction with
      | h stream ih' =>
        cases given : call stream request with
        | mk answer last =>
          cases answer with
          | moved amount =>
            by_cases empty : way.part request amount = []
            · exact ⟨1, by rw [carry_ended 0 none given empty]; exact Option.some_ne_none _⟩
            · have some := List.length_pos_iff.2 empty
              have less : way.size request - (way.part request amount).length < size := by omega
              obtain ⟨turns, ended⟩ := ih _ less _ last (way.size_rest _ _)
              exact ⟨turns + 1, by rw [carry_moved turns none given empty]; exact ended⟩
          | interrupted =>
            obtain ⟨turns, ended⟩ := ih' last given
            exact ⟨turns + 1, by rw [carry_interrupted turns none given]; exact ended⟩
          | failed cause =>
            exact ⟨1, by rw [carry_failed 0 none given]; exact Option.some_ne_none _⟩

theorem carry_willing (willing : Willing way call) (turns : Nat) (request : ρ) (stream : σ) :
    (carry way call turns request stream).1.outcome ≠ none →
      (carry way call turns request stream).1.outcome = some (.ok ()) := by
  refine carry_induction way call
    (motive := fun _ _ progress _ => progress.outcome ≠ none → progress.outcome = some (.ok ()))
    ?done ?paused ?stopped ?moved ?interrupted turns request stream
  case done => exact fun _ _ _ _ => rfl
  case paused => exact fun _ _ _ ended => absurd rfl ended
  case stopped =>
    intro request stream answer last halt some given none other
    have refused := willing stream request some
    rw [given] at refused
    exact absurd (refused none) other
  case moved => exact fun _ _ _ _ _ _ _ _ _ kept => kept
  case interrupted => exact fun _ _ _ _ _ _ _ kept => kept

end Turns

/-! ### Transfers one after the other -/

section Sequences

variable {transfer : ρ → σ → β × σ}

theorem forall₂_inTurn (kept : σ → Prop) {property : ρ → β → Prop}
    (each : ∀ request stream, kept stream →
      property request (transfer request stream).1 ∧ kept (transfer request stream).2)
    (requests : List ρ) {stream : σ} (start : kept stream) :
    List.Forall₂ property requests (inTurn transfer requests stream).1 := by
  induction requests generalizing stream with
  | nil => exact .nil
  | cons request rest ih =>
    obtain ⟨first, after⟩ := each request stream start
    exact .cons first (ih after)

theorem exists_of_mem_inTurn {requests : List ρ} {stream : σ} {answer : β}
    (inside : answer ∈ (inTurn transfer requests stream).1) :
    ∃ request between, answer = (transfer request between).1 := by
  induction requests generalizing stream with
  | nil => exact absurd inside List.not_mem_nil
  | cons request rest ih =>
    rcases List.mem_cons.1 inside with here | later
    · exact ⟨request, stream, here⟩
    · exact ih later

theorem inTurn_effect {effect : σ → List UInt8 → σ → Prop} (composes : Composes effect)
    {run : β → List UInt8} (each : ∀ request stream,
      effect stream (run (transfer request stream).1) (transfer request stream).2)
    (requests : List ρ) (stream : σ) :
    effect stream ((inTurn transfer requests stream).1.map run).flatten
      (inTurn transfer requests stream).2 := by
  induction requests generalizing stream with
  | nil => exact composes.nothing stream
  | cons request rest ih => exact composes.together (each request stream) (ih _)

theorem forall₂_writing (write : σ → List UInt8 → Answer ε Nat × σ) (turns : List UInt8 → Nat)
    (runs : List (List UInt8)) (sink : σ) :
    List.Forall₂ (fun bytes progress => progress.moved <+: bytes ∧
        (progress.outcome = some (.ok ()) ↔ progress.moved = bytes)) runs
      (inTurn (fun bytes => carry .writing write (turns bytes) bytes) runs sink).1 := by
  refine forall₂_inTurn (fun _ => True) (fun bytes sink _ => ?_) runs trivial
  have first := carry_writing_isPrefix write (turns bytes) bytes sink
  have whole := (carry_bounded .writing write (bounded_writing write) (turns bytes) bytes sink).2
  exact ⟨⟨first, whole.trans ⟨first.eq_of_length, congrArg List.length⟩⟩, trivial⟩

theorem forall₂_reading {read : σ → Nat → Answer ε (List UInt8) × σ}
    (bounded : Bounded .reading read) (turns : Nat → Nat) (counts : List Nat) (source : σ) :
    List.Forall₂ (fun count progress => progress.moved.length ≤ count ∧
        (progress.outcome = some (.ok ()) ↔ progress.moved.length = count)) counts
      (inTurn (fun count => carry .reading read (turns count) count) counts source).1 :=
  forall₂_inTurn (fun _ => True) (fun count source _ =>
    ⟨carry_bounded .reading read bounded (turns count) count source, trivial⟩) counts trivial

theorem inTurn_map {γ : Type} (answer : ρ → β → γ) (requests : List ρ) (stream : σ) :
    inTurn (fun request stream =>
      (answer request (transfer request stream).1, (transfer request stream).2)) requests stream =
      (List.zipWith answer requests (inTurn transfer requests stream).1,
        (inTurn transfer requests stream).2) := by
  induction requests generalizing stream with
  | nil => rfl
  | cons request rest ih => simp only [inTurn, ih, List.zipWith_cons_cons]

theorem exists_inTurn_ended (way : Way ρ α) (call : σ → ρ → Answer ε α × σ)
    (settles : Settles call) (requests : List ρ) (stream : σ) :
    ∃ enough, ∀ turns, enough ≤ turns →
      ∀ progress ∈ (inTurn (carry way call turns) requests stream).1, progress.outcome ≠ none := by
  induction requests generalizing stream with
  | nil => exact ⟨0, fun _ _ _ inside => absurd inside List.not_mem_nil⟩
  | cons request rest ih =>
    obtain ⟨first, ended⟩ := exists_carry_ended way call settles request stream
    obtain ⟨others, ended'⟩ := ih (carry way call first request stream).2
    refine ⟨max first others, fun turns enough progress inside => ?_⟩
    obtain ⟨extra, rfl⟩ := Nat.exists_eq_add_of_le (Nat.max_le.1 enough).1
    rw [inTurn, carry_stable way call ended] at inside
    rcases List.mem_cons.1 inside with rfl | later
    · exact ended
    · exact ended' _ (Nat.max_le.1 enough).2 progress later

end Sequences

end PackedTable.Transfer
