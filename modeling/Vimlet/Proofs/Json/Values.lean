import Vimlet.Format
import Vimlet.Proofs.Json.RoundTrip
import Vimlet.Proofs.Value.Copies
import Vimlet.Proofs.Value.Documents

/-!
# Values in JSON

Functions are written as their names and numbers that are not finite as their texts. But for these,
a value without cycles that holds no finite Numbers is equal to what is read from its JSON text, in
both layouts.
-/

namespace Vimlet

open List Heap Value Mem

variable {value : Value} {items : List Document} {cell : Nat}

/-! ### Plain values -/

/-- The value that plain data holds in place of a value: the name of a function, or the text of a
number that is not finite. -/
def Value.plain : Value → Value
  | .number x => if x.isFinite then .number x else .str (specialText x)
  | .function ref => .str ref.name
  | value => value

/-- The heap with every value in it replaced by a plain one. -/
def Heap.plain (heap : Heap) : Heap where
  lists := heap.lists.map fun cell => { cell with items := cell.items.map Value.plain }
  objects := heap.objects.map fun table =>
    ⟨table.entries.map fun entry => (entry.1, entry.2.plain)⟩
  nextSerial := heap.nextSerial

theorem Value.handle?_plain (value : Value) : value.plain.handle? = value.handle? := by
  cases value with
  | number x =>
    rw [plain]
    split <;> rfl
  | nil | bool | integer | str | list | object | function => rfl

namespace Heap

variable (heap : Heap)

theorem list_plain (cell : Nat) : heap.plain.list cell = (heap.list cell).map Value.plain := by
  simp only [list, listCell, plain, Array.getElem?_map]
  cases heap.lists[cell]? <;> simp

theorem object_plain (cell : Nat) :
    (heap.plain.object cell).entries =
      (heap.object cell).entries.map fun entry => (entry.1, entry.2.plain) := by
  simp only [object, plain, Array.getElem?_map]
  cases heap.objects[cell]? <;> simp

theorem keys_plain (cell : Nat) : (heap.plain.object cell).keys = (heap.object cell).keys := by
  rw [Table.keys, object_plain, map_map]
  rfl

theorem contents_plain (handle : Handle) :
    heap.plain.contents handle = (heap.contents handle).map Value.plain := by
  cases handle with
  | list cell => exact heap.list_plain cell
  | object cell =>
    rw [contents, contents, Table.values, Table.values, object_plain, map_map, map_map]
    rfl

theorem in_plain (handle : Handle) : handle.In heap.plain ↔ handle.In heap := by
  cases handle <;> simp [Handle.In, plain]

variable {heap}

theorem plain_in (valid : value.In heap) : value.plain.In heap.plain := by
  intro handle handle_eq
  rw [handle?_plain] at handle_eq
  exact (heap.in_plain handle).mpr (valid handle handle_eq)

theorem Closed.plain (closed : heap.Closed) : heap.plain.Closed := by
  intro handle inner mem
  rw [contents_plain] at mem
  obtain ⟨original, original_mem, rfl⟩ := mem_map.mp mem
  exact plain_in (closed handle original original_mem)

end Heap

/-! ### Data of values -/

/-- New containers made of data are a copy of a value of a heap. -/
def Document.Builds (base : Heap) (value : Value) (document : Document) : Prop :=
  ∀ start : Heap, start.Closed → ∃ copy later, ofDocument document start = .ok copy later ∧
    start.Grows later ∧ later.Closed ∧ Copies base later value copy

theorem Mem.bind_ok {α β : Type} {act} {next : α → Mem β} {value heap later}
    (first : act heap = .ok value later) : (act >>= next) heap = next value later := by
  simp only [bind, EStateM.bind, first]

section Building

variable {base : Heap}

theorem Document.builds_scalar {document} (scalar : value.handle? = none)
    (made : ofDocument document = pure value) : document.Builds base value := by
  intro start closed
  refine ⟨value, start, ?_, .refl start, closed, .of_scalar scalar⟩
  rw [made]
  rfl

/-- The items of a sequence are made one by one. -/
theorem ofItems_builds {values} (builds : Forall₂ (Document.Builds base) values items) {start}
    (closed : start.Closed) :
    ∃ copies later, ofItems items start = .ok copies later ∧ start.Grows later ∧
      later.Closed ∧ Forall₂ (Copies base later) values copies := by
  induction builds generalizing start with
  | nil =>
    refine ⟨[], start, ?_, .refl start, closed, .nil⟩
    rw [ofItems]
    rfl
  | cons head _ ih =>
    obtain ⟨copy, between, made, grows, between_closed, copies⟩ := head start closed
    obtain ⟨others, later, made_others, more_grows, later_closed, others_copies⟩ :=
      ih between_closed
    refine ⟨copy :: others, later, ?_, grows.trans more_grows, later_closed,
      .cons (copies.grow between_closed more_grows) others_copies⟩
    rw [ofItems, bind_ok made, bind_ok made_others]
    rfl

theorem ofEntries_eq (entries : List (String × Document)) :
    ofEntries entries = (do
      let values ← ofItems (entries.map (·.2))
      return (entries.map (·.1)).zip values) := by
  induction entries with
  | nil =>
    rw [ofEntries, map_nil, ofItems, pure_bind]
    rfl
  | cons entry rest ih =>
    rw [ofEntries, ih, map_cons, map_cons, ofItems]
    simp only [bind_assoc, pure_bind, zip_cons_cons]

theorem Document.builds_sequence
    (builds : Forall₂ (Document.Builds base) (base.list cell) items) :
    (Document.sequence items).Builds base (.list cell) := by
  intro start closed
  obtain ⟨copies, between, made, grows, between_closed, same⟩ := ofItems_builds builds closed
  have adds := AddsCopy.pushList same
  refine ⟨_, _, ?_, grows.trans adds.grows, adds.later_closed between_closed,
    adds.copies between_closed⟩
  rw [ofDocument, bind_ok made]
  rfl

theorem Document.builds_mapping {documents} (distinct : (base.object cell).keys.Nodup)
    (builds : Forall₂ (Document.Builds base) (base.object cell).values documents) :
    (Document.mapping ((base.object cell).keys.zip documents)).Builds base (.object cell) := by
  intro start closed
  obtain ⟨copies, between, made, grows, between_closed, same⟩ := ofItems_builds builds closed
  have lengths : (base.object cell).keys.length = (base.object cell).values.length := by
    rw [Table.keys, Table.values, length_map, length_map]
  have documents_length := lengths.trans builds.length_eq
  have copies_length := lengths.trans same.length_eq
  let copied : List (String × Value) := (base.object cell).keys.zip copies
  have copied_keys : copied.map (·.1) = (base.object cell).keys :=
    map_fst_zip copies_length.le
  have copied_values : copied.map (·.2) = copies := map_snd_zip copies_length.ge
  have entries_same : Forall₂ (SameEntry (Copies base between)) (base.object cell).entries
      copied := forall₂_sameEntry copied_keys.symm (copied_values.symm ▸ same)
  have adds := AddsCopy.pushObject ⟨copied⟩ entries_same
  refine ⟨_, _, ?_, grows.trans adds.grows, adds.later_closed between_closed,
    adds.copies between_closed⟩
  rw [ofDocument, ofEntries_eq, map_fst_zip documents_length.le,
    map_snd_zip documents_length.ge, bind_assoc, bind_ok made, pure_bind,
    Table.ofList_of_nodup (by rw [copied_keys]; exact distinct)]
  rfl

end Building

/-- A value of JSON, but for what it holds: no finite Number, and no Object with a key twice. -/
def Heap.Portable (heap : Heap) : Value → Prop
  | .number x => x.isFinite = false
  | .object cell => (heap.object cell).keys.Nodup
  | _ => True

instance (heap : Heap) : (value : Value) → Decidable (heap.Portable value)
  | .number x => inferInstanceAs (Decidable (x.isFinite = false))
  | .object cell => inferInstanceAs (Decidable (heap.object cell).keys.Nodup)
  | .nil | .bool _ | .integer _ | .str _ | .list _ | .function _ => .isTrue trivial

/-- The data of a tree without marks is determined by its JSON text and stands for the plain value,
if all in it is portable. -/
theorem Heap.Unfolds.represented {heap : Heap} {around tree}
    (unfolds : heap.Unfolds around value tree) (unmarked : tree.marks = [])
    (portable : heap.Throughout heap.Portable value) :
    tree.document.Exact ∧ tree.document.Builds heap.plain value.plain := by
  refine unfolds.unmarked_induct (motive := fun value tree => heap.Throughout heap.Portable value →
    tree.document.Exact ∧ tree.document.Builds heap.plain value.plain) ?leaf ?node unmarked portable
  case leaf =>
    intro value scalar portable
    have own := portable.self
    rw [Tree.document]
    cases value with
    | nil => exact ⟨.null, Document.builds_scalar rfl (by rw [datum, ofDocument]; rfl)⟩
    | bool b => exact ⟨.bool b, Document.builds_scalar rfl (by rw [datum, ofDocument]; rfl)⟩
    | integer n =>
      exact ⟨.integer n, Document.builds_scalar rfl (by rw [datum, ofDocument]; rfl)⟩
    | str text =>
      exact ⟨.text text, Document.builds_scalar rfl (by rw [datum, ofDocument]; rfl)⟩
    | function ref =>
      exact ⟨.text _, Document.builds_scalar rfl (by rw [datum, ofDocument]; rfl)⟩
    | number x =>
      have infinite : ¬x.isFinite = true := by rw [show x.isFinite = false from own]; simp
      rw [datum, if_neg infinite, Value.plain, if_neg infinite]
      exact ⟨.text _, Document.builds_scalar rfl (by rw [ofDocument])⟩
    | list | object => cases scalar
  case node =>
    intro handle branches inside portable
    have held := inside.imp fun _ _ good => good.2 (portable.held (.of_mem good.1))
    have held_exact : ∀ document ∈ branches.map Tree.document, document.Exact :=
      forall_mem_map.mpr (forall_of_forall₂ held fun _ _ good => good.1)
    have held_builds : Forall₂ (Document.Builds heap.plain) (heap.plain.contents handle)
        (branches.map Tree.document) := by
      rw [Heap.contents_plain]
      exact forall₂_map_left_iff.mpr (forall₂_map_right_iff.mpr
        (held.imp fun _ _ good => good.2))
    cases handle with
    | list cell =>
      rw [keys, Tree.document]
      exact ⟨.sequence held_exact, Document.builds_sequence held_builds⟩
    | object cell =>
      have distinct : (heap.object cell).keys.Nodup := portable.self
      rw [keys, Tree.document]
      refine ⟨.mapping ?_ ?_, ?_⟩
      · rw [map_fst_zip (by simpa [contents, Table.keys, Table.values] using held.length_eq.le)]
        exact distinct
      · exact fun entry mem => held_exact _ (of_mem_zip mem).2
      · rw [← heap.keys_plain] at distinct ⊢
        exact Document.builds_mapping distinct held_builds

/-! ### Plain values without cycles -/

section Reaching

variable {heap : Heap} {outer inner : Value}

theorem Heap.holds_plain (holds : heap.plain.Holds outer.plain inner) :
    ∃ original, inner = original.plain ∧ heap.Holds outer original := by
  obtain ⟨handle, handle_eq, mem⟩ := holds
  rw [handle?_plain] at handle_eq
  rw [Heap.contents_plain] at mem
  obtain ⟨original, original_mem, rfl⟩ := mem_map.mp mem
  exact ⟨original, rfl, handle, handle_eq, original_mem⟩

theorem Heap.reaches_plain (reaches : Relation.ReflTransGen heap.plain.Holds outer.plain inner) :
    ∃ original, inner = original.plain ∧ Relation.ReflTransGen heap.Holds outer original := by
  induction reaches with
  | refl => exact ⟨outer, rfl, .refl⟩
  | tail _ last ih =>
    obtain ⟨between, rfl, reaches⟩ := ih
    obtain ⟨original, rfl, holds⟩ := holds_plain last
    exact ⟨original, rfl, reaches.tail holds⟩

theorem Heap.throughout_plain {property plain_property : Value → Prop}
    (throughout : heap.Throughout property value)
    (imp : ∀ inner, property inner → plain_property inner.plain) :
    heap.plain.Throughout plain_property value.plain := by
  intro inner reaches
  obtain ⟨original, rfl, original_reaches⟩ := reaches_plain reaches
  exact imp original (throughout original original_reaches)

theorem Heap.Acyclic.plain (acyclic : heap.Acyclic value) : heap.plain.Acyclic value.plain := by
  refine throughout_plain acyclic fun inner no_cycle cycle => no_cycle ?_
  obtain ⟨next, first, rest⟩ := Relation.TransGen.head'_iff.mp cycle
  obtain ⟨next, rfl, holds⟩ := holds_plain first
  obtain ⟨last, last_eq, reaches⟩ := reaches_plain rest
  -- a container is not changed, so the walk comes back to the same one
  obtain ⟨handle, handle_eq, mem⟩ := holds
  have last_handle : last.handle? = some handle := by
    rw [← handle?_plain, ← last_eq, handle?_plain, handle_eq]
  obtain rfl : inner = last :=
    (eq_of_handle? handle_eq).trans (eq_of_handle? last_handle).symm
  exact .head' ⟨handle, handle_eq, mem⟩ reaches

theorem Heap.Portable.definite (portable : heap.Portable value) :
    heap.plain.Definite value.plain := by
  cases value with
  | number x =>
    rw [Value.plain, if_neg (by rw [show x.isFinite = false from portable]; simp)]
    trivial
  | object cell =>
    change (heap.plain.object cell).keys.Nodup
    rw [Heap.keys_plain]
    exact portable
  | nil | bool | integer | str | list | function => trivial

end Reaching

/-- A value without cycles and without finite Numbers is written as JSON, in each layout, and read
back as an equal value, with functions as their names and numbers as their texts. -/
theorem deserialize_serialize_json {heap : Heap} {value : Value} (closed : heap.Closed)
    (valid : value.In heap) (acyclic : heap.Acyclic value)
    (portable : heap.Throughout heap.Portable value) (pretty : Bool) :
    ∃ text, serialize heap value "json" pretty = .ok text ∧
      ∀ start : Heap, start.Closed → ∃ copy later, deserialize text "json" start = .ok copy later ∧
        start.Grows later ∧
        (∀ depth, later.unfold depth copy = heap.plain.unfold depth value.plain) ∧
        (heap.plain.Grows start → later.equal? value.plain copy = some true) := by
  obtain ⟨tree, unfolds⟩ := Unfolds.exists_tree heap [] value
  have unmarked := unfolds.marks_eq_nil_iff.mpr acyclic
  obtain ⟨exact_document, builds⟩ := unfolds.represented unmarked portable
  refine ⟨Json.write (if pretty then .pretty else .compact) tree.document, ?_,
    fun start start_closed => ?_⟩
  · rw [serialize, unfolds.document_eq, unmarked]
    rfl
  obtain ⟨copy, later, made, grows, later_closed, copies⟩ := builds start start_closed
  refine ⟨copy, later, ?_, grows, copies.unfold_eq, fun plain_grows => ?_⟩
  · have read : Format.json.read (Json.write (if pretty then .pretty else .compact) tree.document) =
        .ok tree.document := by
      rw [Format.read, Json.read, Json.readChars_write exact_document]
    refine (bind_ok (rfl : ofExcept (Format.ofName "json") start = .ok .json start)).trans ?_
    rw [read]
    exact made
  · have plain_later := plain_grows.trans grows
    have plain_closed := closed.plain
    have plain_valid := Heap.plain_in valid
    refine equal?_of_unfold_eq (plain_later.acyclic plain_closed plain_valid acyclic.plain) ?_ ?_
    · exact plain_later.throughout plain_closed plain_valid
        (fun _ inner_valid definite => plain_later.definite inner_valid definite)
        (throughout_plain portable fun _ => Portable.definite)
    · intro depth
      rw [plain_later.unfold_eq plain_closed plain_valid, copies.unfold_eq]

/-- A heap with an Object that holds a List and an empty Object. -/
def Heap.mixed : Heap where
  lists := #[{ items := #[.integer (-7), .number notANumber, .function ⟨"Len", none, 0⟩] }]
  objects := #[⟨[("a\"b\n", .list 0), ("é", .number (-infinity)), ("", .object 1)]⟩, ⟨[]⟩]

def Value.mixedRank : Value → Nat
  | .object 0 => 2
  | .list _ | .object _ => 1
  | _ => 0

/-- Keys with a quote, a line break and an accent, an empty key, a function, and numbers that are
not finite. -/
theorem deserialize_serialize_json_mixed :
    let heap := Heap.mixed
    heap.Closed ∧ In heap (.object 0) ∧ heap.Acyclic (.object 0) ∧
      heap.Throughout heap.Portable (.object 0) ∧ heap.plain.Closed ∧
      ∃ text, serialize heap (.object 0) "json" false = .ok text ∧
        text = "\x7b\"a\\\"b\\n\":[-7,\"nan\",\"Len\"],\"é\":\"-inf\",\"\":\x7b\x7d\x7d" ∧
        ∃ copy later, deserialize text "json" heap.plain = .ok copy later ∧
          later.equal? (.object 0) copy = some true := by
  have closed : Heap.mixed.Closed := forall_contents (by decide) (by decide)
  have valid : In Heap.mixed (.object 0) := by decide
  have acyclic : Heap.mixed.Acyclic (.object 0) :=
    acyclic_of_rank mixedRank (forall_contents (by decide) (by decide)) _
  have portable : Heap.mixed.Throughout Heap.mixed.Portable (.object 0) :=
    .of_forall (by decide) (forall_contents (by decide +kernel) (by decide +kernel))
  obtain ⟨text, written, read⟩ := deserialize_serialize_json closed valid acyclic portable false
  obtain ⟨copy, later, read_copy, _, _, equal⟩ := read Heap.mixed.plain closed.plain
  refine ⟨closed, valid, acyclic, portable, closed.plain, text, written, ?_, copy, later, read_copy,
    equal (.refl _)⟩
  have spelled : (serialize Heap.mixed (.object 0) "json" false).toOption =
      some "\x7b\"a\\\"b\\n\":[-7,\"nan\",\"Len\"],\"é\":\"-inf\",\"\":\x7b\x7d\x7d" := by
    decide +kernel
  rw [written] at spelled
  exact Option.some.inj spelled

end Vimlet
