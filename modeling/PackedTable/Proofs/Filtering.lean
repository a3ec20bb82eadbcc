import PackedTable.Proofs.Abandonment
import PackedTable.Proofs.Effects

/-!
A filtering pass is a stateful filter. What a pass over the slots does, while it takes elements out
and writes values, is told by a visitor that hears the list of the elements as they were at the
start: it is shown each of them once, in the order of the slots, with the key and the value that
stand there; and what the pass leaves is what the visitor has left of that list, in the same slots.
-/

namespace PackedTable

variable {shape : Shape} {length : Nat} {binding : Binding shape length} {σ : Type}

structure Element (binding : Binding shape length) where
  slot : binding.Slot
  key : shape.Key
  value : shape.Value
deriving DecidableEq

namespace Buffer

variable {buffer before after : Buffer binding} {slot : binding.Slot}
  {rest slots : List binding.Slot}

def element (buffer : Buffer binding) (slot : binding.Slot) : Element binding :=
  ⟨slot, buffer.key slot, buffer.value slot⟩

def elementsIn (buffer : Buffer binding) (slots : List binding.Slot) : List (Element binding) :=
  (slots.filter buffer.isOccupied).map buffer.element

def elements (buffer : Buffer binding) : List (Element binding) :=
  buffer.elementsIn binding.allSlots

theorem elementsIn_cons_of_occupied (held : buffer.isOccupied slot = true) :
    buffer.elementsIn (slot :: rest) = buffer.element slot :: buffer.elementsIn rest := by
  rw [elementsIn, List.filter_cons_of_pos held]
  rfl

theorem elementsIn_cons_of_free (free : buffer.isOccupied slot = false) :
    buffer.elementsIn (slot :: rest) = buffer.elementsIn rest := by
  rw [elementsIn, List.filter_cons_of_neg (by rw [free]; exact Bool.false_ne_true)]
  rfl

theorem mem_elements {element : Element binding} :
    element ∈ buffer.elements ↔
      buffer.isOccupied element.slot = true ∧ buffer.key element.slot = element.key ∧
        buffer.value element.slot = element.value := by
  rw [elements, elementsIn, List.mem_map]
  constructor
  · rintro ⟨slot, member, rfl⟩
    exact ⟨(List.mem_filter.1 member).2, rfl, rfl⟩
  · obtain ⟨slot, key, value⟩ := element
    rintro ⟨held, sameKey, sameValue⟩
    dsimp only at held sameKey sameValue
    subst sameKey sameValue
    exact ⟨slot, List.mem_filter.2 ⟨Binding.mem_allSlots slot, held⟩, rfl⟩

theorem element_mem_elements (held : buffer.isOccupied slot = true) :
    buffer.element slot ∈ buffer.elements :=
  mem_elements.2 ⟨held, rfl, rfl⟩

theorem slots_elements (buffer : Buffer binding) :
    buffer.elements.map Element.slot = binding.allSlots.filter buffer.isOccupied := by
  rw [elements, elementsIn, List.map_map]
  exact List.map_id' _

namespace SameSlot

theorem isOccupied (same : before.SameSlot after slot) :
    after.isOccupied slot = before.isOccupied slot :=
  congrArg Tag.isOccupied same.tag

theorem element (same : before.SameSlot after slot) : after.element slot = before.element slot :=
  congrArg (fun entry : shape.Key × shape.Value => Element.mk slot entry.1 entry.2) same.entry

end SameSlot

theorem elementsIn_congr (same : ∀ slot ∈ slots, before.SameSlot after slot) :
    after.elementsIn slots = before.elementsIn slots := by
  rw [elementsIn, elementsIn,
    List.filter_congr fun slot member => (same slot member).isOccupied]
  exact List.map_congr_left fun slot member => (same slot (List.mem_of_mem_filter member)).element

/-! #### Writing to one slot -/

theorem element_setValue (buffer : Buffer binding) (slot : binding.Slot) (value : shape.Value) :
    (buffer.setValue slot value).element slot = ⟨slot, buffer.key slot, value⟩ := by
  rw [element, key_setValue, value_setValue, if_pos rfl]

theorem elementsIn_setValue (fresh : slot ∉ rest) (buffer : Buffer binding) (value : shape.Value) :
    (buffer.setValue slot value).elementsIn rest = buffer.elementsIn rest :=
  elementsIn_congr fun _ member => .setValue buffer (ne_of_mem_of_not_mem member fresh) value

theorem elementsIn_release (fresh : slot ∉ rest) (buffer : Buffer binding) :
    (buffer.release slot).elementsIn rest = buffer.elementsIn rest :=
  elementsIn_congr fun _ member => .release buffer (ne_of_mem_of_not_mem member fresh)

theorem isOccupied_release_self (buffer : Buffer binding) (slot : binding.Slot) :
    (buffer.release slot).isOccupied slot = false := by
  rw [Bool.eq_false_iff, ne_eq, isOccupied_release]
  exact fun kept => kept.1 rfl

end Buffer

/-! ### Visitors that hear a list -/

/-- What a visitor has decided about an element that it was shown, and the value that it left. -/
structure Ruling (binding : Binding shape length) where
  element : Element binding
  verdict : Verdict
  left : shape.Value
deriving DecidableEq

def Ruling.remains? (ruling : Ruling binding) : Option (Element binding) :=
  match ruling.verdict with
  | .drop => none
  | _ => some ⟨ruling.element.slot, ruling.element.key, ruling.left⟩

theorem Ruling.remains?_eq_some {ruling : Ruling binding} {element : Element binding} :
    ruling.remains? = some element ↔ ruling.verdict ≠ .drop ∧
      ⟨ruling.element.slot, ruling.element.key, ruling.left⟩ = element := by
  unfold remains?
  cases ruling.verdict <;> simp

structure Hearing (binding : Binding shape length) (σ : Type) where
  rulings : List (Ruling binding)
  state : σ
  finished : Bool

namespace Hearing

def dropped (hearing : Hearing binding σ) : Nat :=
  hearing.rulings.countP fun ruling => ruling.verdict = .drop

/-- What is left of a list of elements when those that were not shown stay as they are. -/
def remaining (hearing : Hearing binding σ) (elements : List (Element binding)) :
    List (Element binding) :=
  hearing.rulings.filterMap Ruling.remains? ++ elements.drop hearing.rulings.length

/-- A hearing that begins with this ruling and goes on as the other one. -/
def after (ruling : Ruling binding) (further : Hearing binding σ) : Hearing binding σ :=
  { further with rulings := ruling :: further.rulings }

theorem dropped_after (ruling : Ruling binding) (further : Hearing binding σ) :
    (after ruling further).dropped = further.dropped + if ruling.verdict = .drop then 1 else 0 := by
  simp only [dropped, after, List.countP_cons, decide_eq_true_eq]

theorem remaining_after (ruling : Ruling binding) (further : Hearing binding σ)
    (element : Element binding) (rest : List (Element binding)) :
    (after ruling further).remaining (element :: rest) =
      ruling.remains?.toList ++ further.remaining rest := by
  simp only [remaining, after, List.length_cons, List.drop_succ_cons, List.filterMap_cons]
  cases ruling.remains? <;> rfl

end Hearing

namespace Visitor

/-- Shows the elements to the visitor one after the other, until it abandons its visit. -/
def hear (visit : Visitor shape σ) : List (Element binding) → σ → Hearing binding σ
  | [], state => ⟨[], state, true⟩
  | element :: rest, state =>
    let (verdict, left, next) := visit state element.key element.value
    match verdict with
    | .abandon => ⟨[⟨element, .abandon, left⟩], next, false⟩
    | _ => .after ⟨element, verdict, left⟩ (visit.hear rest next)

def noting (visit : Visitor shape σ) : Visitor shape (σ × List (shape.Key × shape.Value)) :=
  fun (state, notes) key value =>
    let (verdict, left, next) := visit state key value
    (verdict, left, next, notes ++ [(key, value)])

theorem hear_noting (visit : Visitor shape σ) (elements : List (Element binding)) (state : σ)
    (notes : List (shape.Key × shape.Value)) :
    let hearing := visit.hear elements state
    visit.noting.hear elements (state, notes) =
      ⟨hearing.rulings, (hearing.state, notes ++ hearing.rulings.map fun ruling =>
        (ruling.element.key, ruling.element.value)), hearing.finished⟩ := by
  induction elements generalizing state notes with
  | nil => simp [hear]
  | cons element rest ih =>
    simp only [hear, noting]
    generalize visit state element.key element.value = decision
    obtain ⟨verdict, left, next⟩ := decision
    cases verdict with
    | abandon => rfl
    | keep => simp [ih, Hearing.after]
    | drop => simp [ih, Hearing.after]

theorem hear_ofJudge (judge : σ → shape.Key → shape.Value → Bool × shape.Value × σ)
    (elements : List (Element binding)) (state : σ) :
    let hearing := (ofJudge judge).hear elements state
    hearing.finished = true ∧ hearing.rulings.map Ruling.element = elements ∧
      ∀ ruling ∈ hearing.rulings, ruling.verdict = .keep ∨ ruling.verdict = .drop := by
  induction elements generalizing state with
  | nil => exact ⟨rfl, rfl, nofun⟩
  | cons element rest ih =>
    simp only [hear, ofJudge]
    generalize judge state element.key element.value = decision
    obtain ⟨keeps, left, next⟩ := decision
    obtain ⟨finished, shown, ruled⟩ := ih next
    cases keeps with
    | true => exact ⟨finished, congrArg _ shown, List.forall_mem_cons.2 ⟨Or.inl rfl, ruled⟩⟩
    | false => exact ⟨finished, congrArg _ shown, List.forall_mem_cons.2 ⟨Or.inr rfl, ruled⟩⟩

theorem remaining_hear_ofJudge (judge : σ → shape.Key → shape.Value → Bool × shape.Value × σ)
    (elements : List (Element binding)) (state : σ) :
    let hearing := (ofJudge judge).hear elements state
    hearing.remaining elements = hearing.rulings.filterMap Ruling.remains? := by
  obtain ⟨-, shown, -⟩ := hear_ofJudge judge elements state
  have whole := congrArg List.length shown
  rw [List.length_map] at whole
  dsimp only
  rw [Hearing.remaining, List.drop_of_length_le (Nat.le_of_eq whole.symm), List.append_nil]

end Visitor

/-! ### The pass -/

namespace Sweep

/-- Whatever no value that is written and no slot that is given up changes, no pass changes. -/
theorem run_keeps {α : Type} (read : Buffer binding → α) {slots : List binding.Slot}
    (written : ∀ slot ∈ slots, ∀ buffer value, read (buffer.setValue slot value) = read buffer)
    (released : ∀ slot ∈ slots, ∀ buffer, read (buffer.release slot) = read buffer)
    (visit : Visitor shape σ) (buffer : Buffer binding) (dropped : Nat) (state : σ) :
    read (run visit slots buffer dropped state).buffer = read buffer := by
  induction slots generalizing buffer dropped state with
  | nil => rfl
  | cons slot rest ih =>
    obtain ⟨writes, written⟩ := List.forall_mem_cons.1 written
    obtain ⟨releases, released⟩ := List.forall_mem_cons.1 released
    rw [run]
    split
    case isFalse => exact ih written released buffer dropped state
    case isTrue =>
      generalize visit state (buffer.key slot) (buffer.value slot) = decision
      obtain ⟨verdict, value, next⟩ := decision
      cases verdict with
      | keep => exact (ih written released _ _ _).trans (writes buffer value)
      | drop =>
        exact (ih written released _ _ _).trans ((releases _).trans (writes buffer value))
      | abandon => exact writes buffer value

theorem run_sameSlot {slot : binding.Slot} {slots : List binding.Slot} (fresh : slot ∉ slots)
    (visit : Visitor shape σ) (buffer : Buffer binding) (dropped : Nat) (state : σ) :
    buffer.SameSlot (run visit slots buffer dropped state).buffer slot := by
  have apart : ∀ other ∈ slots, slot ≠ other := fun other member same => fresh (same ▸ member)
  have written : ∀ other ∈ slots, ∀ (buffer : Buffer binding) value,
      buffer.SameSlot (buffer.setValue other value) slot :=
    fun other member buffer value => .setValue buffer (apart other member) value
  have released : ∀ other ∈ slots, ∀ buffer : Buffer binding,
      buffer.SameSlot (buffer.release other) slot :=
    fun other member buffer => .release buffer (apart other member)
  constructor
  · exact run_keeps (·.slotTag slot) (fun other member buffer value =>
      (written other member buffer value).tag) (fun other member buffer =>
      (released other member buffer).tag) visit buffer dropped state
  · exact run_keeps (·.entry slot) (fun other member buffer value =>
      (written other member buffer value).entry) (fun other member buffer =>
      (released other member buffer).entry) visit buffer dropped state

/-- What a pass over these slots has done is what its visitor has decided about the elements that
stood there. -/
structure Follows (sweep : Sweep binding σ) (hearing : Hearing binding σ)
    (slots : List binding.Slot) (elements : List (Element binding)) (dropped : Nat) : Prop where
  left : sweep.buffer.elementsIn slots = hearing.remaining elements
  dropped : sweep.dropped = dropped + hearing.dropped
  state : sweep.state = hearing.state
  finished : sweep.finished = hearing.finished

theorem Follows.cons {sweep : Sweep binding σ} {hearing : Hearing binding σ}
    {ruling : Ruling binding} {slot : binding.Slot} {rest : List binding.Slot}
    {element : Element binding} {elements : List (Element binding)} {dropped counted : Nat}
    (further : sweep.Follows hearing rest elements counted)
    (first : sweep.buffer.elementsIn (slot :: rest) =
      ruling.remains?.toList ++ sweep.buffer.elementsIn rest)
    (count : counted = dropped + if ruling.verdict = .drop then 1 else 0) :
    sweep.Follows (.after ruling hearing) (slot :: rest) (element :: elements) dropped where
  left := by rw [first, further.left, Hearing.remaining_after]
  dropped := by
    rw [further.dropped, count, Hearing.dropped_after]
    omega
  state := further.state
  finished := further.finished

theorem run_follows (visit : Visitor shape σ) {slots : List binding.Slot} (nodup : slots.Nodup)
    (buffer : Buffer binding) (dropped : Nat) (state : σ) :
    let elements := buffer.elementsIn slots
    (run visit slots buffer dropped state).Follows (visit.hear elements state) slots elements
      dropped := by
  -- what stands in the later slots is not touched before the pass comes to them, and what stands in
  -- the first one is not touched afterwards
  induction slots generalizing buffer dropped state with
  | nil => exact ⟨rfl, rfl, rfl, rfl⟩
  | cons slot rest ih =>
    obtain ⟨fresh, nodup⟩ := List.nodup_cons.1 nodup
    dsimp only
    cases held : buffer.isOccupied slot with
    | false =>
      have same := run_sameSlot fresh visit buffer dropped state
      obtain ⟨left, count, final, finished⟩ := ih nodup buffer dropped state
      rw [run, held, if_neg Bool.false_ne_true, Buffer.elementsIn_cons_of_free held]
      refine ⟨?_, count, final, finished⟩
      rw [Buffer.elementsIn_cons_of_free (same.isOccupied.trans held)]
      exact left
    | true =>
      rw [run, if_pos held, Buffer.elementsIn_cons_of_occupied held, Visitor.hear]
      dsimp only [Buffer.element]
      generalize visit state (buffer.key slot) (buffer.value slot) = decision
      obtain ⟨verdict, value, next⟩ := decision
      have still : (buffer.setValue slot value).isOccupied slot = true :=
        (Buffer.isOccupied_setValue _ _ _ _).trans held
      cases verdict with
      | abandon =>
        refine ⟨?_, rfl, rfl, rfl⟩
        rw [Buffer.elementsIn_cons_of_occupied still, Buffer.elementsIn_setValue fresh,
          Buffer.element_setValue]
        rfl
      | keep =>
        have same := run_sameSlot fresh visit (buffer.setValue slot value) dropped next
        have further := ih nodup (buffer.setValue slot value) dropped next
        rw [Buffer.elementsIn_setValue fresh] at further
        refine further.cons ?_ rfl
        rw [Buffer.elementsIn_cons_of_occupied (same.isOccupied.trans still), same.element,
          Buffer.element_setValue]
        rfl
      | drop =>
        have released := (buffer.setValue slot value).isOccupied_release_self slot
        have same := run_sameSlot fresh visit ((buffer.setValue slot value).release slot)
          (dropped + 1) next
        have further := ih nodup ((buffer.setValue slot value).release slot) (dropped + 1) next
        rw [Buffer.elementsIn_release fresh, Buffer.elementsIn_setValue fresh] at further
        exact further.cons (Buffer.elementsIn_cons_of_free (same.isOccupied.trans released)) rfl

theorem run_noting (visit : Visitor shape σ) (slots : List binding.Slot) (buffer : Buffer binding)
    (dropped : Nat) (state : σ) (notes : List (shape.Key × shape.Value)) :
    let sweep := run visit slots buffer dropped state
    let noted := run visit.noting slots buffer dropped (state, notes)
    noted.buffer = sweep.buffer ∧ noted.dropped = sweep.dropped := by
  induction slots generalizing buffer dropped state notes with
  | nil => exact ⟨rfl, rfl⟩
  | cons slot rest ih =>
    cases held : buffer.isOccupied slot with
    | false =>
      simp only [run, held, Bool.false_eq_true, ↓reduceIte]
      exact ih buffer dropped state notes
    | true =>
      simp only [run, held, ↓reduceIte, Visitor.noting]
      generalize visit state (buffer.key slot) (buffer.value slot) = decision
      obtain ⟨verdict, value, next⟩ := decision
      cases verdict with
      | keep => exact ih _ dropped next _
      | drop => exact ih _ (dropped + 1) next _
      | abandon => exact ⟨rfl, rfl⟩

end Sweep

namespace Table

variable {table : Table binding}

def hearing (table : Table binding) (visit : Visitor shape σ) (state : σ) : Hearing binding σ :=
  visit.hear table.buffer.elements state

theorem sweep_follows (table : Table binding) (visit : Visitor shape σ) (state : σ) :
    (table.sweep visit state).Follows (table.hearing visit state) binding.allSlots
      table.buffer.elements 0 :=
  Sweep.run_follows visit binding.allSlots_nodup table.buffer 0 state

theorem dropped_sweep (table : Table binding) (visit : Visitor shape σ) (state : σ) :
    (table.sweep visit state).dropped = (table.hearing visit state).dropped :=
  (table.sweep_follows visit state).dropped.trans (Nat.zero_add _)

theorem elements_ascending (table : Table binding) :
    (table.buffer.elements.map Element.slot).Pairwise (· < ·) := by
  rw [Buffer.slots_elements]
  exact List.Pairwise.filter _ (List.pairwise_lt_finRange _)

theorem length_elements (table : Table binding) :
    table.buffer.elements.length = table.buffer.occupied.card := by
  have slots :
      (binding.allSlots.filter table.buffer.isOccupied).toFinset = table.buffer.occupied := by
    ext slot
    rw [List.mem_toFinset, List.mem_filter, Buffer.mem_occupied]
    exact and_iff_right (Binding.mem_allSlots slot)
  rw [← slots, List.toFinset_card_of_nodup (binding.allSlots_nodup.filter _),
    ← table.buffer.slots_elements, List.length_map]

/-- Filtering by a judge, told by what the judge decides about the list of the elements. -/
structure Filters (table : Table binding)
    (judge : σ → shape.Key → shape.Value → Bool × shape.Value × σ) (state : σ)
    (hearing : Hearing binding σ) (after : Retention binding σ) : Prop where
  /-- The list has every element, in the order of the slots. -/
  ascending : (table.buffer.elements.map Element.slot).Pairwise (· < ·)
  complete : ∀ element, element ∈ table.buffer.elements ↔
    table.buffer.isOccupied element.slot = true ∧
      table.buffer.key element.slot = element.key ∧ table.buffer.value element.slot = element.value
  /-- The judge is called for each of them once, in this order, and never again. -/
  shown : hearing.rulings.map Ruling.element = table.buffer.elements
  ruled : ∀ ruling ∈ hearing.rulings, ruling.verdict = .keep ∨ ruling.verdict = .drop
  noted : ∀ notes, table.retain (Visitor.ofJudge judge).noting (state, notes) =
    ⟨after.table, (after.state, notes ++ table.buffer.elements.map fun element =>
      (element.key, element.value)), true⟩
  finished : after.finished = true
  state : after.state = hearing.state
  /-- What the judge keeps stays in its slot, with the value that it has left there. -/
  left : after.table.buffer.elements = hearing.rulings.filterMap Ruling.remains?
  size : after.table.size + hearing.dropped = table.size
  found : ∀ ruling ∈ hearing.rulings, ruling.verdict = .keep →
    after.table.find ruling.element.key = some ruling.element.slot ∧
      after.table.get? ruling.element.key = some ruling.left
  missed : ∀ ruling ∈ hearing.rulings, ruling.verdict = .drop →
    after.table.find ruling.element.key = none
  overflow : ∀ group, after.table.buffer.overflow group = table.buffer.overflow group
  sentinel : table.buffer.tag binding.lastGroup binding.lastPlace = Tag.sentinel ∧
    after.table.buffer.tag binding.lastGroup binding.lastPlace = Tag.sentinel
  maxLoad : after.table.maxLoad = table.maxLoad

theorem finished_retain (table : Table binding) (visit : Visitor shape σ) (state : σ) :
    (table.retain visit state).finished = (table.hearing visit state).finished :=
  (table.sweep_follows visit state).finished

theorem state_retain (table : Table binding) (visit : Visitor shape σ) (state : σ) :
    (table.retain visit state).state = (table.hearing visit state).state :=
  (table.sweep_follows visit state).state

theorem elements_retain (table : Table binding) (visit : Visitor shape σ) (state : σ) :
    (table.retain visit state).table.buffer.elements =
      (table.hearing visit state).remaining table.buffer.elements :=
  (table.sweep_follows visit state).left

theorem overflow_retain (table : Table binding) (visit : Visitor shape σ) (state : σ)
    (group : binding.GroupIndex) :
    (table.retain visit state).table.buffer.overflow group = table.buffer.overflow group :=
  Sweep.run_keeps (·.overflow group) (fun slot _ buffer value =>
    buffer.overflow_setValue slot value group) (fun _ _ buffer =>
    buffer.overflow_setTag _ group _ _) visit table.buffer 0 state

theorem retain_noting (table : Table binding) (visit : Visitor shape σ) (state : σ)
    (notes : List (shape.Key × shape.Value)) :
    let after := table.retain visit state
    table.retain visit.noting (state, notes) =
      ⟨after.table, (after.state, notes ++ (table.hearing visit state).rulings.map fun ruling =>
        (ruling.element.key, ruling.element.value)), after.finished⟩ := by
  obtain ⟨buffer, dropped⟩ := Sweep.run_noting visit binding.allSlots table.buffer 0 state notes
  have heard := Visitor.hear_noting visit table.buffer.elements state notes
  have finished : (table.retain visit.noting (state, notes)).finished =
      (table.retain visit state).finished := by
    rw [finished_retain, finished_retain, hearing, heard]
    rfl
  have final : (table.retain visit.noting (state, notes)).state =
      ((table.retain visit state).state, notes ++ (table.hearing visit state).rulings.map
        fun ruling => (ruling.element.key, ruling.element.value)) := by
    rw [state_retain, state_retain, hearing, heard]
    rfl
  have left :
      (table.retain visit.noting (state, notes)).table = (table.retain visit state).table := by
    simp only [retain] at finished ⊢
    rw [buffer, dropped, finished]
  exact congr (congr (congrArg Retention.mk left) final) finished

namespace Searchable

theorem find_element (searchable : table.Searchable) {element : Element binding}
    (stands : element ∈ table.buffer.elements) :
    table.find element.key = some element.slot ∧ table.get? element.key = some element.value := by
  obtain ⟨held, same, value⟩ := Buffer.mem_elements.1 stands
  have found := searchable.find_eq_some.2 ⟨held, same⟩
  refine ⟨found, ?_⟩
  rw [get?, getEntry?, found]
  exact congrArg some value

theorem element_inj (searchable : table.Searchable) {element other : Element binding}
    (stands : element ∈ table.buffer.elements) (otherStands : other ∈ table.buffer.elements)
    (same : element.key = other.key) : element = other := by
  obtain ⟨slot, key, value⟩ := element
  obtain ⟨slot', key', value'⟩ := other
  cases same
  obtain ⟨found, got⟩ := searchable.find_element stands
  obtain ⟨found', got'⟩ := searchable.find_element otherStands
  cases found.symm.trans found'
  cases got.symm.trans got'
  rfl

theorem tag_last (searchable : table.Searchable) :
    table.buffer.tag binding.lastGroup binding.lastPlace = Tag.sentinel :=
  (searchable.recount.sentinel _ _).2 ⟨rfl, rfl⟩

section

variable (searchable : table.Searchable) (visit : Visitor shape σ) (state : σ)
include searchable

theorem find_of_remains {ruling : Ruling binding}
    (left : (table.retain visit state).table.buffer.elements =
      (table.hearing visit state).rulings.filterMap Ruling.remains?)
    (member : ruling ∈ (table.hearing visit state).rulings) (keeps : ruling.verdict = .keep) :
    let after := (table.retain visit state).table
    after.find ruling.element.key = some ruling.element.slot ∧
      after.get? ruling.element.key = some ruling.left := by
  have remains := Ruling.remains?_eq_some.2 ⟨ne_of_eq_of_ne keeps nofun, rfl⟩
  have stands := List.mem_filterMap.2 ⟨ruling, member, remains⟩
  rw [← left] at stands
  exact (searchable.retain visit state).find_element stands

theorem find_of_dropped {ruling : Ruling binding}
    (left : (table.retain visit state).table.buffer.elements =
      (table.hearing visit state).rulings.filterMap Ruling.remains?)
    (shown : (table.hearing visit state).rulings.map Ruling.element = table.buffer.elements)
    (member : ruling ∈ (table.hearing visit state).rulings) (drops : ruling.verdict = .drop) :
    (table.retain visit state).table.find ruling.element.key = none := by
  refine Option.eq_none_iff_forall_ne_some.2 fun slot found => ?_
  obtain ⟨held, same⟩ := (searchable.retain visit state).find_eq_some.1 found
  have stands := Buffer.element_mem_elements held
  rw [left, List.mem_filterMap] at stands
  obtain ⟨other, otherMember, remains⟩ := stands
  obtain ⟨stays, equal⟩ := Ruling.remains?_eq_some.1 remains
  -- the ruling that has left the key in its slot is about the same element
  have keys : other.element.key = ruling.element.key := (congrArg Element.key equal).trans same
  have heard : ∀ ruling ∈ (table.hearing visit state).rulings,
      ruling.element ∈ table.buffer.elements := fun _ here => shown ▸ List.mem_map_of_mem here
  have elements := searchable.element_inj (heard other otherMember) (heard ruling member) keys
  have nodup := table.elements_ascending.nodup.of_map
  rw [← shown] at nodup
  exact stays (List.inj_on_of_nodup_map nodup otherMember member elements ▸ drops)

end

theorem filters (searchable : table.Searchable)
    (judge : σ → shape.Key → shape.Value → Bool × shape.Value × σ) (state : σ) :
    table.Filters judge state (table.hearing (Visitor.ofJudge judge) state)
      (table.retain (Visitor.ofJudge judge) state) := by
  have still := searchable.retain (Visitor.ofJudge judge) state
  obtain ⟨finished, shown, ruled⟩ := Visitor.hear_ofJudge judge table.buffer.elements state
  have ended := (table.finished_retain (Visitor.ofJudge judge) state).trans finished
  have left : (table.retain (Visitor.ofJudge judge) state).table.buffer.elements =
      (table.hearing (Visitor.ofJudge judge) state).rulings.filterMap Ruling.remains? :=
    (table.elements_retain (Visitor.ofJudge judge) state).trans
      (Visitor.remaining_hear_ofJudge judge table.buffer.elements state)
  refine
    { ascending := table.elements_ascending
      complete := fun _ => Buffer.mem_elements
      shown
      ruled
      noted := ?_
      finished := ended
      state := table.state_retain _ state
      left
      size := ?_
      found := fun _ => searchable.find_of_remains _ state left
      missed := fun _ => searchable.find_of_dropped _ state left shown
      overflow := table.overflow_retain _ state
      sentinel := ⟨searchable.tag_last, still.tag_last⟩
      maxLoad := rfl }
  · intro notes
    rw [retain_noting, ended, ← shown, List.map_map]
    rfl
  · have fits := searchable.backed.sweep_le (Visitor.ofJudge judge) state
    rw [size_retain searchable.ordered ended fits, ← dropped_sweep]
    omega

end Searchable

end Table

namespace Mounted

/-- A filtering pass in any table that a session leads to, abandoned passes included. Where none was
abandoned, the size is the number of the elements that are left. -/
theorem Attained.filtering {mounted : Mounted shape} (attained : mounted.Attained)
    (judge : σ → shape.Key → shape.Value → Bool × shape.Value × σ) (state : σ) :
    let after := mounted.table.retain (Visitor.ofJudge judge) state
    mounted.table.Filters judge state (mounted.table.hearing (Visitor.ofJudge judge) state) after ∧
      (mounted.Reachable → after.table.size = after.table.buffer.elements.length) := by
  refine ⟨attained.searchable.filters judge state, fun reachable => ?_⟩
  have sound := reachable.sound.serve (.retain judge) state
  exact sound.counted.symm.trans (Table.length_elements _).symm

def keepSecond (calls : Nat) (_ : Shape.bytes.Key) (_ : Shape.bytes.Value) :
    Bool × Shape.bytes.Value × Nat :=
  (calls == 1, Shape.byteValue calls.toUInt8, calls + 1)

/-- The second group is emptied. The third key lies behind it, and it is still found. -/
theorem filled_filtering :
    let after := filled.table.retain (Visitor.ofJudge keepSecond) 0
    filled.Attained ∧ filled.Reachable ∧ after.finished = true ∧ after.table.size = 1 ∧
      after.table.buffer.elements = [⟨⟨1, by decide⟩, Shape.byteKey 3, Shape.byteValue 1⟩] ∧
      after.table.find (Shape.byteKey 1) = none ∧
      after.table.find (Shape.byteKey 3) = some ⟨1, by decide⟩ ∧
      after.table.buffer.overflow ⟨1, by decide⟩ = 8 := by
  intro after
  have attained := reachable_filled.attained
  obtain ⟨filters, counted⟩ := attained.filtering keepSecond 0
  have rulings : (filled.table.hearing (Visitor.ofJudge keepSecond) 0).rulings =
      [⟨⟨⟨0, by decide⟩, Shape.byteKey 1, Shape.byteValue 10⟩, .drop, Shape.byteValue 0⟩,
        ⟨⟨⟨1, by decide⟩, Shape.byteKey 3, Shape.byteValue 30⟩, .keep, Shape.byteValue 1⟩,
        ⟨⟨⟨2, by decide⟩, Shape.byteKey 2, Shape.byteValue 20⟩, .drop, Shape.byteValue 2⟩] := by
    decide +kernel
  have left := filters.left
  have missed := filters.missed
  have found := filters.found
  rw [rulings] at left missed found
  have size := counted reachable_filled
  rw [left] at size
  have first := missed _ List.mem_cons_self rfl
  have third := (found _ (List.mem_cons_of_mem _ List.mem_cons_self) rfl).1
  have marked : filled.table.buffer.overflow ⟨1, by decide⟩ = 8 := by decide +kernel
  exact ⟨attained, reachable_filled, filters.finished, size, left, first, third,
    (filters.overflow _).trans marked⟩

end Mounted

end PackedTable
