import PackedTable.Proofs.Abandonment

/-!
What a refusal leaves behind. The threshold is looked at after the search and before anything else:
no value is asked for, no group is marked, and the table is the one it was. A list of pairs is
therefore refused as its first refused pair is, and leaves what the pairs in front of it leave.
-/

namespace PackedTable

variable {shape : Shape} {length : Nat} {binding : Binding shape length} {σ : Type}

namespace Table

variable {table : Table binding}

/-- A list is taken up to a pair that is refused. What comes after that pair is not looked at. -/
theorem extend_eq_error {pairs : List (shape.Key × shape.Value)} {fault : Fault}
    (refused : (table.extend pairs).outcome = .error fault) :
    ∃ before key value after, pairs = before ++ (key, value) :: after ∧
      (table.extend before).outcome = .ok () ∧
      let last := (table.extend before).table.insertNew key value
      last.outcome = .error fault ∧ (table.extend pairs).table = last.table := by
  induction pairs generalizing table with
  | nil => cases refused
  | cons pair rest ih =>
    obtain ⟨key, value⟩ := pair
    rw [extend_cons] at refused ⊢
    cases first : (table.insertNew key value).outcome with
    | error cause =>
      simp only [first] at refused ⊢
      cases Except.error.inj refused
      exact ⟨[], key, value, rest, rfl, rfl, first, rfl⟩
    | ok stored =>
      simp only [first] at refused ⊢
      obtain ⟨before, key', value', after, rfl, accepted, last⟩ := ih refused
      refine ⟨(key, value) :: before, key', value', after, rfl, ?_⟩
      simp only [extend_cons, first]
      exact ⟨accepted, last⟩

theorem written_insertNew (table : Table binding) (key : shape.Key) (value : shape.Value) :
    (table.insertNew key value).written id = (table.insertNew key value).table := by
  unfold insertNew Attempt.written Attempt.stored
  cases (table.insert key value).outcome with
  | ok stored => exact setValue_value _ _
  | error fault => rfl

namespace Searchable

theorem attempt_refused (searchable : table.Searchable) {insertion : Insertion shape σ} {state : σ}
    {fault : Fault} (refused : (insertion.attempt table state).1.outcome = .error fault) :
    ¬table.Has insertion.key ∧ table.size = table.maxLoad ∧
      fault = .tableFull table.size table.maxLoad ∧
      (insertion.attempt table state).1.table = table := by
  rcases table.attempt_cases insertion state with
    ⟨slot, -, comes⟩ | ⟨missed, full, comes⟩ | ⟨slot, -, -, -, comes⟩ | ⟨-, room, exhausted, -⟩
  · rw [comes] at refused
    cases refused
  · rw [comes] at refused ⊢
    have bound := searchable.ordered.bounded
    exact ⟨searchable.findWithHash_eq_none.1 missed, by omega, (Except.error.inj refused).symm, rfl⟩
  · rw [comes] at refused
    cases refused
  · have lands := searchable.landing?_isSome room (table.hash insertion.key)
    rw [exhausted] at lands
    cases lands

end Searchable

end Table

def Step.insertEach (pairs : List (shape.Key × shape.Value)) : List (Step shape σ) :=
  pairs.map fun (key, value) => .act (.ask (.put (.first key value) id))

/-- The reply to an insertion that is not refused. -/
def Reply.IsStored (reply : Reply shape) : Prop := ∃ value isNew, reply = .stored value isNew

namespace Mounted

/-- Pairs that are taken as a list are taken one by one as well, and come to the same table. -/
theorem follow_insertEach {table : Table binding} {pairs : List (shape.Key × shape.Value)}
    (accepted : (table.extend pairs).outcome = .ok ()) (state : σ) :
    ∃ replies, follow ⟨binding, table⟩ (Step.insertEach pairs) state =
        (⟨binding, (table.extend pairs).table⟩, state, replies) ∧
      ∀ reply ∈ replies, reply.IsStored := by
  induction pairs generalizing table with
  | nil => exact ⟨[], rfl, fun _ member => absurd member List.not_mem_nil⟩
  | cons pair rest ih =>
    obtain ⟨key, value⟩ := pair
    rw [Table.extend_cons] at accepted ⊢
    cases first : (table.insertNew key value).outcome with
    | error fault =>
      simp only [first] at accepted
      cases accepted
    | ok stored =>
      simp only [first] at accepted ⊢
      obtain ⟨replies, later, answered⟩ := ih accepted
      have turn : Mounted.step ⟨binding, table⟩
          (.act (.ask (.put (.first key value) id)) : Step shape σ) state =
          ⟨⟨binding, (table.insertNew key value).table⟩, state,
            .stored stored.value stored.isNew⟩ := by
        simp only [Mounted.step, act, Table.serve, Insertion.attempt, Attempt.reply, first,
          table.written_insertNew key value]
      refine ⟨.stored stored.value stored.isNew :: replies, ?_, ?_⟩
      · change Mounted.follow _ (_ :: Step.insertEach rest) state = _
        rw [Mounted.follow, turn]
        simp only [later]
      · intro reply member
        rcases List.mem_cons.1 member with rfl | behind
        · exact ⟨_, _, rfl⟩
        · exact answered reply behind

/-- Whichever way a key is put in, and whatever its caller would supply or write, the table is said
to be full and nothing else happens: neither to the table nor to the caller's state. -/
structure Refuses (mounted : Mounted shape) (key : shape.Key) : Prop where
  supplied : ∀ {σ : Type} (supply : σ → shape.Value × σ) (state : σ),
    mounted.table.findOrInsertWith key supply state =
      (⟨mounted.table, .error (.tableFull mounted.table.size mounted.table.maxLoad)⟩, state)
  inserted : ∀ value : shape.Value, mounted.table.insert key value =
    ⟨mounted.table, .error (.tableFull mounted.table.size mounted.table.maxLoad)⟩
  asked : ∀ {σ : Type} (insertion : Insertion shape σ) (write : shape.Value → shape.Value)
    (state : σ), insertion.key = key → mounted.act (.ask (.put insertion write)) state =
      ⟨mounted, state,
        .refused (.fault (.tableFull mounted.table.size mounted.table.maxLoad))⟩
  told : (Fault.tableFull mounted.table.size mounted.table.maxLoad).message =
    "table is full (" ++ toString mounted.table.size ++ " elements, max_load=" ++
      toString mounted.table.maxLoad ++ "), rehashing is not supported"

theorem refuses_of_full {mounted : Mounted shape} (searchable : mounted.table.Searchable)
    {key : shape.Key} (absent : ¬mounted.table.Has key)
    (full : mounted.table.size = mounted.table.maxLoad) : mounted.Refuses key := by
  have missed := searchable.findWithHash_eq_none.2 absent
  have closed : ¬mounted.table.size < mounted.table.maxLoad := by omega
  constructor
  case supplied => exact fun supply state =>
    Table.findOrInsertWith_of_full missed closed supply state
  case inserted =>
    intro value
    rw [Table.insert, Table.findOrInsertWith_of_full missed closed]
  case asked =>
    rintro σ insertion write state rfl
    simp only [act, Table.serve, Table.attempt_of_full missed closed, Attempt.written,
      Attempt.reply]
  case told => rfl

/-- A refused insertion does nothing. In every table that some session leads to, abandoned passes
included, a new key is refused when the table is full; and a list of pairs that is refused leaves
the table and the caller as the pairs in front of the first refused one leave them when they are
inserted one by one, so that whatever follows goes on from there. -/
theorem Attained.refusal_atomic {mounted : Mounted shape} (attained : mounted.Attained) :
    (∀ key, ¬mounted.table.Has key → mounted.table.size = mounted.table.maxLoad →
      mounted.Refuses key) ∧
    ∀ (pairs : List (shape.Key × shape.Value)) (fault : Fault),
      (mounted.table.extend pairs).outcome = .error fault →
      ∃ before key value after, pairs = before ++ (key, value) :: after ∧
        ∀ {σ : Type} (state : σ),
          let reached := mounted.follow (Step.insertEach before) state
          (∀ reply ∈ reached.2.2, reply.IsStored) ∧
          ¬reached.1.table.Has key ∧ reached.1.table.size = reached.1.table.maxLoad ∧
          reached.1.Refuses key ∧
          fault = .tableFull reached.1.table.size reached.1.table.maxLoad ∧
          mounted.act (.ask (.extend pairs)) state = ⟨reached.1, state, .refused (.fault fault)⟩ ∧
          ∀ steps : List (Step shape σ),
            let later := reached.1.follow steps state
            mounted.follow (.act (.ask (.extend pairs)) :: steps) state =
              (later.1, later.2.1, .refused (.fault fault) :: later.2.2) := by
  have searchable := attained.searchable
  refine ⟨fun key absent full => refuses_of_full searchable absent full, ?_⟩
  intro pairs fault refused
  obtain ⟨before, key, value, after, parts, accepted, last, left⟩ :=
    Table.extend_eq_error refused
  have between : (mounted.table.extend before).table.Searchable := searchable.extend before
  have first : ((Insertion.first key value : Insertion shape Unit).attempt
      (mounted.table.extend before).table ()).1.outcome = .error fault := last
  obtain ⟨absent, full, fault_eq, unchanged⟩ := between.attempt_refused first
  refine ⟨before, key, value, after, parts, fun {σ} state => ?_⟩
  obtain ⟨replies, followed, answered⟩ := follow_insertEach accepted state
  have same : (mounted.table.extend pairs).table = (mounted.table.extend before).table :=
    left.trans unchanged
  have turn : mounted.act (.ask (.extend pairs)) state =
      ⟨⟨mounted.binding, (mounted.table.extend before).table⟩, state,
        .refused (.fault fault)⟩ := by
    simp only [act, Table.serve, refused, same]
  change Mounted.follow mounted _ _ = _ at followed
  rw [followed]
  refine ⟨answered, absent, full, refuses_of_full between absent full, fault_eq, turn, ?_⟩
  intro steps
  rw [Mounted.follow, Mounted.step, turn]

/-- Three elements fill the small table. A list with a key that is there twice and one key too many
comes as far as the third new key. -/
theorem small_refusal_atomic :
    let pairs := ([1, 2, 1, 3, 4, 5] : List UInt8).map fun byte =>
      (Shape.byteKey byte, Shape.byteValue byte)
    (small.table.extend pairs).outcome = .error (.tableFull 3 3) ∧
    (∃ before key value after, pairs = before ++ (key, value) :: after ∧
      small.act (.ask (.extend pairs)) () =
        ⟨(small.follow (Step.insertEach before) ()).1, (), .refused (.fault (.tableFull 3 3))⟩) ∧
    filled.Refuses (Shape.byteKey 4) := by
  intro pairs
  have refused : (small.table.extend pairs).outcome = .error (.tableFull 3 3) := by decide +kernel
  have created : small.Attained := .create create_small
  obtain ⟨before, key, value, after, parts, follows⟩ :=
    created.refusal_atomic.2 pairs _ refused
  obtain ⟨-, -, -, -, -, turn, -⟩ := follows ()
  exact ⟨refused, ⟨before, key, value, after, parts, turn⟩,
    reachable_filled.attained.refusal_atomic.1 _ (by decide +kernel) (by decide +kernel)⟩

end Mounted

end PackedTable
