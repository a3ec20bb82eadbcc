import PackedTable.Mounted
import PackedTable.Table.Map

/-!
A table in use. A caller makes requests one after the other, each of which is answered by a reply
and leaves a table behind; what a caller brings along for its own functions is a state that goes
through the whole session. In between, the bytes of the table may be moved to another place and
opened there again.
-/

namespace PackedTable

variable {shape : Shape} {length : Nat} {binding : Binding shape length} {σ : Type}

/-- The ways to put a key into a table. -/
inductive Insertion (shape : Shape) (σ : Type) where
  | first (key : shape.Key) (value : shape.Value)
  | last (key : shape.Key) (value : shape.Value)
  | supplied (key : shape.Key) (supply : σ → shape.Value × σ)
  | defaulted (key : shape.Key) (default : shape.Value)

namespace Insertion

def key : Insertion shape σ → shape.Key
  | first key _ => key
  | last key _ => key
  | supplied key _ => key
  | defaulted key _ => key

/-- The value that a new key gets. -/
def offer : Insertion shape σ → σ → shape.Value × σ
  | first _ value, state => (value, state)
  | last _ value, state => (value, state)
  | supplied _ supply, state => supply state
  | defaulted _ default, state => (default, state)

/-- What becomes of the value of a present key. -/
def keep : Insertion shape σ → shape.Value → shape.Value
  | last _ value, _ => value
  | _, old => old

def attempt (table : Table binding) :
    Insertion shape σ → σ → Attempt binding (Stored binding) × σ
  | first key value, state => (table.insertNew key value, state)
  | last key value, state => (table.assign key value, state)
  | supplied key supply, state => table.getOrInsertWith key supply state
  | defaulted key default, state => (table.getOrInsertDefault key default, state)

end Insertion

/-- What can be asked of a table as a map. Where a request hands out a place to write to, `write`
is what its caller does there. -/
inductive Request (shape : Shape) (σ : Type) where
  | put (insertion : Insertion shape σ) (write : shape.Value → shape.Value)
  | update (key : shape.Key) (write : shape.Value → shape.Value)
  | get (key : shape.Key)
  | getEntry (key : shape.Key)
  | contains (key : shape.Key)
  | require (key : shape.Key)
  | erase (key : shape.Key)
  | remove (key : shape.Key)
  | removeEntry (key : shape.Key)
  | retain (judge : σ → shape.Key → shape.Value → Bool × shape.Value × σ)
  | extend (pairs : List (shape.Key × shape.Value))
  | revise (change : shape.Key → shape.Value → shape.Value)
  | clear
  | size
  | list

instance decidableEqExcept {ε α : Type} [DecidableEq ε] [DecidableEq α] :
    DecidableEq (Except ε α)
  | .ok a, .ok b => decidable_of_iff (a = b) ⟨congrArg Except.ok, Except.ok.inj⟩
  | .error a, .error b => decidable_of_iff (a = b) ⟨congrArg Except.error, Except.error.inj⟩
  | .ok _, .error _ => isFalse nofun
  | .error _, .ok _ => isFalse nofun

inductive Reply (shape : Shape) where
  | stored (value : shape.Value) (isNew : Bool)
  | value (found : Option shape.Value)
  | entry (found : Option (shape.Key × shape.Value))
  | present (answer : Bool)
  | required (answer : Except Error shape.Value)
  | count (n : Nat)
  | slot (found : Option Nat)
  | entries (elements : List (shape.Key × shape.Value))
  | done
  | refused (cause : Failure)
deriving DecidableEq

/-- A table after a request, the caller's state, and the reply. -/
structure Served (binding : Binding shape length) (σ : Type) where
  table : Table binding
  state : σ
  reply : Reply shape

/-- A visitor that never abandons its visit. -/
def Visitor.ofJudge (judge : σ → shape.Key → shape.Value → Bool × shape.Value × σ) :
    Visitor shape σ := fun state key value =>
  let (keeps, left, next) := judge state key value
  (if keeps then .keep else .drop, left, next)

namespace Attempt

/-- An insertion whose caller writes to the place it gets. -/
def written (attempt : Attempt binding (Stored binding)) (write : shape.Value → shape.Value) :
    Table binding :=
  match attempt.outcome with
  | .ok stored => attempt.table.setValue stored.slot (write stored.value)
  | .error _ => attempt.table

def reply (attempt : Attempt binding (Stored binding)) : Reply shape :=
  match attempt.outcome with
  | .ok stored => .stored stored.value stored.isNew
  | .error fault => .refused (.fault fault)

end Attempt

namespace Table

/-- Writes to the value of a present key. -/
def update (table : Table binding) (key : shape.Key) (write : shape.Value → shape.Value) :
    Option shape.Value × Table binding :=
  match table.get? key with
  | some old => table.replace key (write old)
  | none => (none, table)

def serve (table : Table binding) : Request shape σ → σ → Served binding σ
  | .put insertion write, state =>
    let (attempt, next) := insertion.attempt table state
    ⟨attempt.written write, next, attempt.reply⟩
  | .update key write, state =>
    let (found, after) := table.update key write
    ⟨after, state, .value found⟩
  | .get key, state => ⟨table, state, .value (table.get? key)⟩
  | .getEntry key, state => ⟨table, state, .entry (table.getEntry? key)⟩
  | .contains key, state => ⟨table, state, .present (table.contains key)⟩
  | .require key, state => ⟨table, state, .required (table.get key)⟩
  | .erase key, state =>
    let (count, after) := table.eraseCount key
    ⟨after, state, .count count⟩
  | .remove key, state =>
    let (found, after) := table.removeValue key
    ⟨after, state, .value found⟩
  | .removeEntry key, state =>
    let (found, after) := table.remove key
    ⟨after, state, .entry found⟩
  | .retain judge, state =>
    let retention := table.retain (Visitor.ofJudge judge) state
    ⟨retention.table, retention.state, .done⟩
  | .extend pairs, state =>
    let attempt := table.extend pairs
    ⟨attempt.table, state,
      match attempt.outcome with
      | .ok () => .done
      | .error fault => .refused (.fault fault)⟩
  | .revise change, state => ⟨table.updateValues change, state, .done⟩
  | .clear, state => ⟨table.clear, state, .done⟩
  | .size, state => ⟨table, state, .count table.size⟩
  | .list, state => ⟨table, state, .entries table.entries⟩

/-- The slot of a given number if it holds an element, as callers that name slots promise. -/
def held? (table : Table binding) (number : Nat) : Option binding.Slot :=
  (binding.slot number).toOption.filter fun slot => table.buffer.isOccupied slot

end Table

/-- A request, a request that names slots, or a move of the bytes to another address, with other
bytes behind them and another threshold. -/
inductive Action (shape : Shape) (σ : Type) where
  | ask (request : Request shape σ)
  | find (key : shape.Key)
  | entryAt (number : Nat)
  | updateAt (number : Nat) (write : shape.Value → shape.Value)
  | removeAt (number : Nat)
  | reopen (address : Nat) (rest : Array UInt8) (maxLoad : Nat)

/-- A table after an action, the caller's state, and the reply. -/
structure Turn (shape : Shape) (σ : Type) where
  mounted : Mounted shape
  state : σ
  reply : Reply shape

namespace Mounted

/-- The table in a copy of its bytes at another address. -/
def reopen (mounted : Mounted shape) (address : Nat) (rest : Array UInt8) (maxLoad : Nat) :
    Except Failure (Mounted shape) :=
  attach mounted.binding.width mounted.binding.geometry
    ⟨address, mounted.table.buffer.used ++ rest⟩ mounted.table.hash mounted.table.size maxLoad

def act (mounted : Mounted shape) : Action shape σ → σ → Turn shape σ
  | .ask request, state =>
    let served := mounted.table.serve request state
    ⟨⟨mounted.binding, served.table⟩, served.state, served.reply⟩
  | .find key, state => ⟨mounted, state, .slot ((mounted.table.find key).map Fin.val)⟩
  | .entryAt number, state =>
    ⟨mounted, state, .entry ((mounted.table.held? number).map mounted.table.buffer.entry)⟩
  | .updateAt number write, state =>
    match mounted.table.held? number with
    | some slot =>
      let (key, old) := mounted.table.buffer.entry slot
      ⟨⟨mounted.binding, mounted.table.setValue slot (write old)⟩, state, .entry (some (key, old))⟩
    | none => ⟨mounted, state, .entry none⟩
  | .removeAt number, state =>
    match mounted.table.held? number with
    | some slot =>
      let (entry, after) := mounted.table.removeSlot slot
      ⟨⟨mounted.binding, after⟩, state, .entry (some entry)⟩
    | none => ⟨mounted, state, .entry none⟩
  | .reopen address rest maxLoad, state =>
    match mounted.reopen address rest maxLoad with
    | .ok moved => ⟨moved, state, .done⟩
    | .error cause => ⟨mounted, state, .refused cause⟩

/-- A whole session: where it ends, and the replies on the way. -/
def run (mounted : Mounted shape) :
    List (Action shape σ) → σ → Mounted shape × σ × List (Reply shape)
  | [], state => (mounted, state, [])
  | action :: rest, state =>
    let turn := mounted.act action state
    let (last, final, replies) := turn.mounted.run rest turn.state
    (last, final, turn.reply :: replies)

/-- A table that some session leads to. -/
inductive Reachable : Mounted shape → Prop
  | create {width : Width} {geometry : Geometry} {region : Region} {hash : shape.Key → UInt64}
      {factor : LoadFactor} {opened : Mounted shape}
      (created : Mounted.create width geometry region hash factor = .ok opened) : Reachable opened
  | act {σ : Type} {mounted : Mounted shape} (before : Reachable mounted)
      (action : Action shape σ) (state : σ) : Reachable (mounted.act action state).mounted

end Mounted

/-! ### A small table

Keys and values of one byte, two groups of two slots, and a hash that goes by the byte of a key. The
keys one and nine start at the first group with the same tag, and the keys two and three at the
second one, which has room for one of them.
-/

/-- Multiplication keeps the low bits of the first byte, which choose the tag, and repeats them at
the top, where they choose the group. -/
def Shape.byteHash {shape : Shape} (key : shape.Key) : UInt64 :=
  (key.toArray.getD 0 0).toUInt64 * 0x4000000000000001

def Shape.bytes : Shape where
  key := ⟨1, 1, ⟨0, rfl⟩, by decide⟩
  value := ⟨1, 1, ⟨0, rfl⟩, by decide⟩
  addressable := by decide

theorem Shape.bytes_keyed : 0 < Shape.bytes.key.size := by decide

def Shape.byteKey (byte : UInt8) : Shape.bytes.Key := #v[byte]

def Shape.byteValue (byte : UInt8) : Shape.bytes.Value := #v[byte]

def Width.narrow : Width := ⟨2, by decide, Width.standard.two_le⟩

/-- Thirteen bytes, one more than the small table needs. -/
def Region.small : Region := ⟨64, Array.replicate 13 0xAA⟩

def Binding.small : Binding Shape.bytes Region.small.bytes.size where
  width := .narrow
  geometry := ⟨63, 1⟩
  address := 64
  keyed := Shape.bytes_keyed
  addressable := by decide
  fits := by decide
  aligned := by decide

/-- The small table before the first request. It takes three elements. -/
def Mounted.small : Mounted Shape.bytes :=
  ⟨Binding.small, Table.create Binding.small Region.small.bytes.toVector Shape.byteHash .standard⟩

theorem Mounted.create_small :
    Mounted.create .narrow ⟨63, 1⟩ Region.small Shape.byteHash .standard = .ok Mounted.small := rfl

def Action.insertByte (key value : UInt8) : Action Shape.bytes Unit :=
  .ask (.put (.first (Shape.byteKey key) (Shape.byteValue value)) id)

/-- The small table with three elements. The third one lies in the first group, behind the second
one, which was full. -/
def Mounted.filled : Mounted Shape.bytes :=
  (Mounted.small.run [.insertByte 1 10, .insertByte 2 20, .insertByte 3 30] ()).1

theorem Mounted.reachable_filled : Mounted.filled.Reachable :=
  .act (.act (.act (.create create_small) _ ()) _ ()) (.insertByte 3 30) ()

end PackedTable
