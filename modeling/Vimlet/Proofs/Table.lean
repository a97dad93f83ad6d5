import Vimlet.Table

/-!
# Laws of tables

What a table finds under a key after another one was bound or removed, the entries of a table whose
keys are distinct, and where the values of a table come from.
-/

namespace Vimlet.Table

open List

variable {κ α : Type} [DecidableEq κ]
variable {value : α} {property : α → Prop}

theorem lookup_entry (name : κ) (entry : κ × α) (rest : List (κ × α)) :
    (entry :: rest).lookup name = if name = entry.1 then some entry.2 else rest.lookup name := by
  rw [lookup_cons]
  by_cases same : name = entry.1
  · rw [if_pos same, beq_iff_eq.mpr same]
  · rw [if_neg same, beq_eq_false_iff_ne.mpr same]

theorem lookup_put (key name : κ) (value : α) (entries : List (κ × α)) :
    (put key value entries).lookup name =
      if name = key then some value else entries.lookup name := by
  induction entries with
  | nil => exact lookup_entry name (key, value) []
  | cons entry rest ih =>
    rw [put, lookup_entry]
    by_cases found : entry.1 = key
    · rw [if_pos found, lookup_entry, found]
      by_cases same : name = key <;> simp [same]
    · rw [if_neg found, lookup_entry, ih]
      by_cases first : name = entry.1 <;> simp [first, found]

theorem get?_insert (table : Table κ α) (key name : κ) (value : α) :
    (table.insert key value).get? name = if name = key then some value else table.get? name :=
  lookup_put key name value table.entries

theorem get?_erase (table : Table κ α) (key name : κ) :
    (table.erase key).get? name = if name = key then none else table.get? name := by
  obtain ⟨entries⟩ := table
  simp only [erase, get?]
  induction entries with
  | nil => simp
  | cons entry rest ih =>
    rw [filter_cons, lookup_entry]
    by_cases found : entry.1 = key
    · rw [if_neg (by simp [found]), ih, found]
      split <;> rfl
    · rw [if_pos (by simp [found]), lookup_entry, ih]
      by_cases first : name = entry.1 <;> simp [first, found]

variable {table : Table κ α} {key : κ} {entries : List (κ × α)}

theorem contains_iff : table.contains key = true ↔ key ∈ table.keys := by
  rw [contains, get?, lookup_isSome_iff]
  simp [keys]

theorem get?_eq_none (absent : key ∉ table.keys) : table.get? key = none := by
  rw [← Option.not_isSome_iff_eq_none]
  exact fun bound => absent (contains_iff.mp bound)

/-! ### Distinct keys -/

theorem get?_of_mem (distinct : table.keys.Nodup) {entry} (mem : entry ∈ table.entries) :
    table.get? entry.1 = some entry.2 := by
  obtain ⟨entries⟩ := table
  induction entries with
  | nil => cases mem
  | cons first rest ih =>
    obtain ⟨first_new, rest_distinct⟩ := nodup_cons.mp distinct
    rw [get?, lookup_entry]
    obtain rfl | mem := mem_cons.mp mem
    · rw [if_pos rfl]
    · have different : entry.1 ≠ first.1 := fun same =>
        first_new (mem_map.mpr ⟨entry, mem, same⟩)
      rw [if_neg different]
      exact ih rest_distinct mem

theorem get?_eq_some_iff (distinct : table.keys.Nodup) :
    table.get? key = some value ↔ (key, value) ∈ table.entries := by
  constructor
  · intro found
    obtain ⟨before, after, same, _⟩ := lookup_eq_some_iff.mp found
    simp [same]
  · exact fun mem => get?_of_mem distinct mem

theorem put_of_notMem (fresh : key ∉ entries.map (·.1)) (value : α) :
    put key value entries = entries ++ [(key, value)] := by
  induction entries with
  | nil => rfl
  | cons entry rest ih =>
    rw [map_cons, mem_cons, not_or] at fresh
    rw [put, if_neg (Ne.symm fresh.1), ih fresh.2, cons_append]

theorem put_of_mem (distinct : (entries.map (·.1)).Nodup) (bound : key ∈ entries.map (·.1))
    (value : α) :
    put key value entries =
      entries.map fun entry => (entry.1, if entry.1 = key then value else entry.2) := by
  induction entries with
  | nil => cases bound
  | cons entry rest ih =>
    obtain ⟨entry_new, rest_distinct⟩ := nodup_cons.mp distinct
    rw [put, map_cons]
    by_cases found : entry.1 = key
    · have others : ∀ other ∈ rest,
          (other.1, if other.1 = key then value else other.2) = other := by
        intro other mem
        have different : other.1 ≠ key := fun same =>
          entry_new (mem_map.mpr ⟨other, mem, same.trans found.symm⟩)
        rw [if_neg different]
      rw [if_pos found, if_pos found, found, map_congr_left others, map_id']
    · have later := (mem_cons.mp bound).resolve_left (Ne.symm found)
      rw [if_neg found, if_neg found, ih rest_distinct later]

theorem nodup_keys_insert (distinct : table.keys.Nodup) (key : κ) (value : α) :
    (table.insert key value).keys.Nodup := by
  rw [keys, insert]
  by_cases bound : key ∈ table.keys
  · rw [put_of_mem distinct bound, map_map]
    exact distinct
  · rw [put_of_notMem bound, map_append, nodup_append]
    refine ⟨distinct, by simp, fun old old_mem new new_mem same => ?_⟩
    obtain rfl : old = key := same.trans (mem_singleton.mp new_mem)
    exact bound old_mem

theorem nodup_keys_erase (distinct : table.keys.Nodup) (key : κ) : (table.erase key).keys.Nodup :=
  distinct.sublist (filter_sublist.map _)

theorem exists_erase_eq (distinct : table.keys.Nodup) (found : table.get? key = some value) :
    ∃ front back, table.entries = front ++ (key, value) :: back ∧
      (table.erase key).entries = front ++ back := by
  obtain ⟨front, back, split, front_others⟩ := lookup_eq_some_iff.mp found
  rw [keys, split, map_append, map_cons, nodup_append, nodup_cons] at distinct
  have front_kept : ∀ entry ∈ front, decide (entry.1 ≠ key) = true := fun entry mem =>
    decide_eq_true (Ne.symm (bne_iff_ne.mp (front_others entry mem)))
  have back_kept : ∀ entry ∈ back, decide (entry.1 ≠ key) = true := fun entry mem =>
    decide_eq_true fun same => distinct.2.1.1 (mem_map.mpr ⟨entry, mem, same⟩)
  refine ⟨front, back, split, ?_⟩
  rw [erase, split, filter_append, filter_cons_of_neg (by simp),
    filter_eq_self.mpr front_kept, filter_eq_self.mpr back_kept]

theorem ofList_of_nodup (distinct : (entries.map (·.1)).Nodup) : ofList entries = ⟨entries⟩ := by
  suffices goal : ∀ earlier : List (κ × α), ((earlier ++ entries).map (·.1)).Nodup →
      entries.foldl (fun table entry => table.insert entry.1 entry.2) ⟨earlier⟩ =
        (⟨earlier ++ entries⟩ : Table κ α) from goal [] distinct
  clear distinct
  induction entries with
  | nil => simp
  | cons entry rest ih =>
    intro earlier distinct
    have fresh : entry.1 ∉ earlier.map (·.1) := by
      rw [map_append, nodup_append] at distinct
      exact fun mem => distinct.2.2 entry.1 mem entry.1 mem_cons_self rfl
    rw [foldl_cons, insert, put_of_notMem fresh, ih (earlier ++ [entry])]
    · rw [append_assoc]; rfl
    · simpa using distinct

/-! ### One table over another -/

/-- A table with the entries of another one laid over it, or under it if the old ones are kept. New
keys come last. -/
def overlay (keep : Bool) (table added : Table κ α) : Table κ α :=
  ⟨table.entries.map (fun entry =>
      (entry.1, if keep then entry.2 else (added.get? entry.1).getD entry.2)) ++
    added.entries.filter fun entry => !table.contains entry.1⟩

theorem overlay_nil (keep : Bool) (table : Table κ α) : table.overlay keep ⟨[]⟩ = table := by
  simp [overlay, get?]

theorem overlay_self (distinct : table.keys.Nodup) : table.overlay false table = table := by
  have same : ∀ entry ∈ table.entries,
      (entry.1, if false then entry.2 else (table.get? entry.1).getD entry.2) = entry := by
    intro entry mem
    rw [get?_of_mem distinct mem]
    rfl
  have none_new : ∀ entry ∈ table.entries, ¬(!table.contains entry.1) = true := by
    intro entry mem
    rw [contains_iff.mpr (mem_map_of_mem mem)]
    decide
  rw [overlay, map_congr_left same, map_id', filter_eq_nil_iff.mpr none_new, append_nil]

theorem get?_cons (key name : κ) (value : α) (rest : List (κ × α)) :
    (⟨(key, value) :: rest⟩ : Table κ α).get? name =
      if name = key then some value else (⟨rest⟩ : Table κ α).get? name :=
  lookup_entry name (key, value) rest

theorem contains_insert (table : Table κ α) (key name : κ) (value : α) :
    (table.insert key value).contains name = (decide (name = key) || table.contains name) := by
  rw [contains, contains, get?_insert]
  by_cases same : name = key <;> simp [same]

theorem overlay_cons (distinct : table.keys.Nodup) {rest} (fresh : key ∉ rest.map (·.1))
    (keep : Bool) (value : α) :
    table.overlay keep ⟨(key, value) :: rest⟩ =
      (if keep && table.contains key then table else table.insert key value).overlay keep
        ⟨rest⟩ := by
  have rest_none : (⟨rest⟩ : Table κ α).get? key = none := get?_eq_none fresh
  have others : ∀ entry ∈ rest,
      (!(table.insert key value).contains entry.1) = !table.contains entry.1 := by
    intro entry mem
    have apart : entry.1 ≠ key := fun same => fresh (mem_map.mpr ⟨entry, mem, same⟩)
    rw [contains_insert, decide_eq_false apart, Bool.false_or]
  by_cases bound : key ∈ table.keys
  · have contained := contains_iff.mpr bound
    cases keep with
    | true => simp [overlay, contained]
    | false =>
      have inserted : (table.insert key value).entries = _ := put_of_mem distinct bound value
      rw [Bool.false_and, if_neg Bool.false_ne_true, overlay, overlay, filter_congr others,
        inserted, map_map, filter_cons_of_neg (by simp [contained])]
      congr 2
      refine map_congr_left fun entry _ => ?_
      by_cases same : entry.1 = key
      · simp [get?_cons, same, rest_none]
      · simp [get?_cons, same]
  · have not_contained : table.contains key = false := by simpa using mt contains_iff.mp bound
    have inserted : (table.insert key value).entries = _ := put_of_notMem bound value
    have revised : ∀ entry ∈ table.entries,
        (entry.1, if keep then entry.2
          else ((⟨(key, value) :: rest⟩ : Table κ α).get? entry.1).getD entry.2) =
        (entry.1, if keep then entry.2 else ((⟨rest⟩ : Table κ α).get? entry.1).getD entry.2) := by
      intro entry mem
      have apart : entry.1 ≠ key := fun same => bound (mem_map.mpr ⟨entry, mem, same⟩)
      rw [get?_cons, if_neg apart]
    rw [not_contained, Bool.and_false, if_neg Bool.false_ne_true, overlay, overlay,
      filter_congr others, inserted, map_congr_left revised,
      filter_cons_of_pos (by simp [not_contained]), map_append, append_assoc]
    simp [rest_none]

theorem overlay_singleton (distinct : table.keys.Nodup) (key : κ) (value : α) :
    table.overlay false ⟨[(key, value)]⟩ = table.insert key value := by
  have fresh : key ∉ ([] : List (κ × α)).map (·.1) := not_mem_nil
  rw [overlay_cons distinct fresh, overlay_nil]
  rfl

/-! ### Values -/

theorem mem_values_of_get? (found : table.get? key = some value) : value ∈ table.values := by
  obtain ⟨before, after, same, _⟩ := lookup_eq_some_iff.mp found
  rw [values, same]
  simp

theorem mem_put {entry} (mem : entry ∈ put key value entries) :
    entry = (key, value) ∨ entry ∈ entries := by
  induction entries with
  | nil => exact .inl (mem_singleton.mp mem)
  | cons first rest ih =>
    rw [put] at mem
    split at mem
    · obtain new | old := mem_cons.mp mem
      · exact .inl new
      · exact .inr (mem_cons_of_mem first old)
    · obtain rfl | later := mem_cons.mp mem
      · exact .inr mem_cons_self
      · exact (ih later).imp_right (mem_cons_of_mem first)

theorem forall_values_insert (own : property value)
    (others : ∀ other ∈ table.values, property other) (key : κ) :
    ∀ other ∈ (table.insert key value).values, property other := by
  intro other mem
  obtain ⟨entry, listed, rfl⟩ := mem_map.mp mem
  obtain rfl | old := mem_put listed
  · exact own
  · exact others _ (mem_map_of_mem old)

theorem forall_values_erase (all : ∀ other ∈ table.values, property other) (key : κ) :
    ∀ other ∈ (table.erase key).values, property other := by
  intro other mem
  obtain ⟨entry, listed, rfl⟩ := mem_map.mp mem
  exact all _ (mem_map_of_mem (mem_filter.mp listed).1)

theorem forall_values_ofList (all : ∀ entry ∈ entries, property entry.2) :
    ∀ other ∈ (ofList entries).values, property other := by
  refine foldlRecOn entries _ (motive := fun table : Table κ α =>
    ∀ other ∈ table.values, property other) nofun fun table so_far entry mem => ?_
  exact forall_values_insert (all entry mem) so_far entry.1

end Vimlet.Table
