import Mathlib.Data.Finmap
import PackedTable.Proofs.Session

/-!
What a table should answer: a finite map from keys to values, with the greatest number of keys
that it takes. It knows nothing of slots, hashes or bytes. Only the order in which it goes over its
elements is left open, and given from outside as a list that enumerates them.
-/

namespace PackedTable

variable {shape : Shape} {σ : Type}

abbrev Contents (shape : Shape) : Type := Finmap fun _ : shape.Key => shape.Value

namespace Contents

def Enumerates (order : List (shape.Key × shape.Value)) (contents : Contents shape) : Prop :=
  (order.map Prod.fst).Nodup ∧
    ∀ key value, (key, value) ∈ order ↔ contents.lookup key = some value

def visit (judge : σ → shape.Key → shape.Value → Bool × shape.Value × σ)
    (swept : Contents shape × σ) (element : shape.Key × shape.Value) : Contents shape × σ :=
  let (keeps, left, next) := judge swept.2 element.1 element.2
  (if keeps then swept.1.insert element.1 left else swept.1.erase element.1, next)

end Contents

structure Ideal (shape : Shape) where
  contents : Contents shape
  limit : Nat

/-- A finite map after a request, the caller's state, and the reply. -/
structure Answer (shape : Shape) (σ : Type) where
  ideal : Ideal shape
  state : σ
  reply : Reply shape

/-- What a caller does who names keys only. -/
inductive KeyedAction (shape : Shape) (σ : Type) where
  | ask (request : Request shape σ)
  | reopen (address : Nat) (rest : Array UInt8) (maxLoad : Nat)

def KeyedAction.action : KeyedAction shape σ → Action shape σ
  | ask request => .ask request
  | reopen address rest maxLoad => .reopen address rest maxLoad

namespace Ideal

def size (ideal : Ideal shape) : Nat := ideal.contents.keys.card

def withValue (ideal : Ideal shape) (key : shape.Key) (value : shape.Value) : Ideal shape :=
  { ideal with contents := ideal.contents.insert key value }

def without (ideal : Ideal shape) (key : shape.Key) : Ideal shape :=
  { ideal with contents := ideal.contents.erase key }

/-- Inserts new keys one after the other. A key that finds the map full is refused, and nothing
behind it is looked at. -/
def extend (ideal : Ideal shape) : List (shape.Key × shape.Value) → Ideal shape × Reply shape
  | [] => (ideal, .done)
  | (key, value) :: rest =>
    match ideal.contents.lookup key with
    | some _ => extend ideal rest
    | none =>
      if ideal.size < ideal.limit then extend (ideal.withValue key value) rest
      else (ideal, .refused (.fault (.tableFull ideal.size ideal.limit)))

/-- The answer of a finite map that goes over its elements in the given order. -/
def serve (ideal : Ideal shape) (order : List (shape.Key × shape.Value)) :
    Request shape σ → σ → Answer shape σ
  | .put insertion write, state =>
    match ideal.contents.lookup insertion.key with
    | some old =>
      let kept := insertion.keep old
      ⟨ideal.withValue insertion.key (write kept), state, .stored kept false⟩
    | none =>
      if ideal.size < ideal.limit then
        let (value, next) := insertion.offer state
        ⟨ideal.withValue insertion.key (write value), next, .stored value true⟩
      else ⟨ideal, state, .refused (.fault (.tableFull ideal.size ideal.limit))⟩
  | .update key write, state =>
    match ideal.contents.lookup key with
    | some old => ⟨ideal.withValue key (write old), state, .value (some old)⟩
    | none => ⟨ideal, state, .value none⟩
  | .get key, state => ⟨ideal, state, .value (ideal.contents.lookup key)⟩
  | .getEntry key, state =>
    ⟨ideal, state, .entry ((ideal.contents.lookup key).map fun value => (key, value))⟩
  | .contains key, state => ⟨ideal, state, .present (ideal.contents.lookup key).isSome⟩
  | .require key, state =>
    ⟨ideal, state, .required
      (match ideal.contents.lookup key with
      | some value => .ok value
      | none => .error .keyNotFound)⟩
  | .erase key, state =>
    ⟨ideal.without key, state, .count (if (ideal.contents.lookup key).isSome then 1 else 0)⟩
  | .remove key, state => ⟨ideal.without key, state, .value (ideal.contents.lookup key)⟩
  | .removeEntry key, state =>
    ⟨ideal.without key, state,
      .entry ((ideal.contents.lookup key).map fun value => (key, value))⟩
  | .retain judge, state =>
    let (contents, last) := order.foldl (Contents.visit judge) (ideal.contents, state)
    ⟨{ ideal with contents }, last, .done⟩
  | .extend pairs, state =>
    let (after, reply) := ideal.extend pairs
    ⟨after, state, reply⟩
  | .revise change, state =>
    let contents := order.foldl (fun contents (key, value) =>
      contents.insert key (change key value)) ideal.contents
    ⟨{ ideal with contents }, state, .done⟩
  | .clear, state => ⟨{ ideal with contents := ∅ }, state, .done⟩
  | .size, state => ⟨ideal, state, .count ideal.size⟩
  | .list, state => ⟨ideal, state, .entries order⟩

/-- As `serve`. A move to another place needs an aligned address, and a threshold from the size up
to the given capacity. -/
def act (capacity : Nat) (ideal : Ideal shape) (order : List (shape.Key × shape.Value)) :
    KeyedAction shape σ → σ → Answer shape σ
  | .ask request, state => ideal.serve order request state
  | .reopen address _ maxLoad, state =>
    if address % shape.entry.align = 0 then
      if ideal.size ≤ maxLoad ∧ maxLoad ≤ capacity then
        ⟨{ ideal with limit := maxLoad }, state, .done⟩
      else
        ⟨ideal, state,
          .refused (.error (.invalidSizeControl ideal.size maxLoad capacity))⟩
    else ⟨ideal, state, .refused (.error (.misalignedBuffer shape.entry.align))⟩

/-- A session of a finite map that chooses an order of its elements anew for each action: where it
ends, and the replies on the way. -/
inductive Runs (capacity : Nat) :
    Ideal shape → σ → List (KeyedAction shape σ) → Ideal shape → σ → List (Reply shape) → Prop
  | nil (ideal : Ideal shape) (state : σ) : Runs capacity ideal state [] ideal state []
  | cons {ideal : Ideal shape} {state : σ} {action : KeyedAction shape σ}
      {rest : List (KeyedAction shape σ)} {final : Ideal shape} {last : σ}
      {replies : List (Reply shape)} (order : List (shape.Key × shape.Value))
      (enumerates : ideal.contents.Enumerates order)
      (further : Runs capacity (ideal.act capacity order action state).ideal
        (ideal.act capacity order action state).state rest final last replies) :
      Runs capacity ideal state (action :: rest) final last
        ((ideal.act capacity order action state).reply :: replies)

end Ideal

end PackedTable
