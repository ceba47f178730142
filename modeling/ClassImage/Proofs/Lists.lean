import Mathlib.Data.Fintype.Card
import Mathlib.Data.List.Nodup
import Mathlib.Tactic

/-!
Lists and arrays, whatever they hold: entries that are put in, dropped or
changed, the place of an entry, and how many different entries there can be.
-/

namespace ClassImage

section Lists

theorem length_le_of_nodup {ids : List ι} {index : ι → Nat} {bound : Nat}
    (injective : Function.Injective index) (distinct : ids.Nodup)
    (inside : ∀ id ∈ ids, index id < bound) : ids.length ≤ bound := by
  have within : ids.map index ⊆ List.range bound := by
    intro place member
    obtain ⟨id, listed, rfl⟩ := List.mem_map.mp member
    exact List.mem_range.mpr (inside id listed)
  simpa using ((distinct.map injective).subperm within).length_le

theorem notMem_of_split {list done rest : List α} {entry : α} (distinct : list.Nodup)
    (whole : list = done ++ entry :: rest) : entry ∈ list ∧ (done ++ [entry]).Nodup ∧ entry ∉ done := by
  rw [whole, ← List.singleton_append, ← List.append_assoc] at distinct
  have short := (List.nodup_append.mp distinct).1
  refine ⟨by rw [whole]; simp, short, ?_⟩
  intro member
  exact (List.nodup_append.mp short).2.2 entry member entry (List.mem_singleton_self _) rfl

theorem place_of_zipIdx {list : List α} {done rest : List (α × Nat)} {source : α × Nat}
    (whole : list.zipIdx = done ++ source :: rest) : source.2 = done.length ∧ source.1 ∈ list := by
  have here : list.zipIdx[done.length]? = some source := by
    rw [whole, List.getElem?_append_right le_rfl, Nat.sub_self]
    rfl
  rw [List.getElem?_zipIdx] at here
  obtain ⟨entry, found, rfl⟩ := Option.map_eq_some_iff.mp here
  exact ⟨Nat.zero_add _, List.mem_of_getElem? found⟩

theorem filter_ne_of_not_mem [DecidableEq α] {list : List α} {entry : α} (absent : entry ∉ list) :
    list.filter (· ≠ entry) = list := by
  rw [List.filter_eq_self]
  intro other member
  exact decide_eq_true fun same => absent (same ▸ member)

theorem insertIdx_length_append (front rest : List α) (entry : α) :
    (front ++ rest).insertIdx front.length entry = front ++ entry :: rest := by
  induction front with
  | nil => rfl
  | cons first front ih => rw [List.cons_append, List.length_cons, List.insertIdx_succ_cons, ih, List.cons_append]

end Lists

section Arrays

theorem Array.getD_modify (table : Array α) (place : Nat) (change : α → α) (index : Nat) (blank : α) :
    (table.modify place change).getD index blank =
      if place = index ∧ index < table.size then change (table.getD index blank)
      else table.getD index blank := by
  simp only [Array.getD_eq_getD_getElem?, Array.getElem?_modify]
  by_cases here : place = index
  · by_cases inside : index < table.size
    · simp [here, inside]
    · simp [here, inside]
  · simp [here]

theorem Array.getD_push (table : Array α) (entry : α) (index : Nat) (blank : α) :
    (table.push entry).getD index blank =
      if index = table.size then entry else table.getD index blank := by
  simp only [Array.getD_eq_getD_getElem?, Array.getElem?_push]
  by_cases last : index = table.size <;> simp [last]

theorem Array.mapIdx_modify (table : Array α) (place : Nat) (change : α → α) (label : Nat → α → α)
    (commute : ∀ index entry, label index (change entry) = change (label index entry)) :
    (table.modify place change).mapIdx label = (table.mapIdx label).modify place change := by
  apply Array.ext_getElem?
  intro index
  simp only [Array.getElem?_mapIdx, Array.getElem?_modify]
  split
  · cases table[index]? with
    | none => rfl
    | some entry => exact congrArg some (commute index entry)
  · rfl

theorem Array.prefix_push (table : Array α) (entry : α) : table.toList <+: (table.push entry).toList := by
  rw [Array.toList_push]
  exact List.prefix_append _ _

theorem Array.nodup_push {table : Array α} {entry : α} (distinct : table.toList.Nodup)
    (absent : entry ∉ table) : (table.push entry).toList.Nodup := by
  rw [Array.toList_push, ← List.concat_eq_append]
  exact distinct.concat fun member => absent (Array.mem_toList_iff.mp member)

theorem Array.idxOf?_split [DecidableEq α] {table : Array α} {entry : α} {index : Nat}
    (found : table.idxOf? entry = some index) :
    ∃ front rest, table.toList = front ++ entry :: rest ∧ front.length = index ∧ entry ∉ front := by
  obtain ⟨list⟩ := table
  rw [List.idxOf?_toArray] at found
  obtain ⟨inside, here, earlier⟩ := List.idxOf?_eq_some_iff.mp found
  refine ⟨list.take index, list.drop (index + 1), ?_, ?_, ?_⟩
  · rw [← here, List.getElem_cons_drop, List.take_append_drop]
  · exact List.length_take_of_le inside.le
  · intro member
    obtain ⟨place, bound, same⟩ := List.mem_take_iff_getElem.mp member
    exact earlier place (by omega) same

theorem Array.idxOf?_lt [DecidableEq α] {table : Array α} {entry : α} {index : Nat}
    (found : table.idxOf? entry = some index) : index < table.size := by
  obtain ⟨front, rest, split, rfl, -⟩ := Array.idxOf?_split found
  rw [← Array.length_toList, split, List.length_append, List.length_cons]
  omega

theorem Array.idxOf?_push [DecidableEq α] (table : Array α) (added entry : α) :
    (table.push added).idxOf? entry =
      (table.idxOf? entry).or (if entry = added then some table.size else none) := by
  obtain ⟨list⟩ := table
  rw [List.push_toArray, List.idxOf?_toArray, List.idxOf?_toArray, List.idxOf?, List.findIdx?_append,
    List.findIdx?_singleton]
  by_cases same : entry = added
  · simp [same]
  · simp [same, Ne.symm same]

/-- What stands before an entry stays when the entry is dropped. -/
theorem Array.idxOf?_le_filter [DecidableEq α] {table : Array α} {entry : α} {index : Nat}
    (found : table.idxOf? entry = some index) : index ≤ (table.filter (· ≠ entry)).size := by
  obtain ⟨front, rest, split, rfl, absent⟩ := Array.idxOf?_split found
  rw [← Array.length_toList, Array.toList_filter, split, List.filter_append, List.length_append,
    filter_ne_of_not_mem absent]
  omega

theorem perm_insertIdxIfInBounds {table : Array α} {position : Nat} (entry : α)
    (place : position ≤ table.size) :
    (table.insertIdxIfInBounds position entry).toList.Perm (entry :: table.toList) := by
  rw [Array.insertIdxIfInBounds, dif_pos place, Array.toList_insertIdx]
  exact List.perm_insertIdx entry _ (by simpa using place)

theorem insertIdxIfInBounds_size (table : Array α) (entry : α) :
    table.insertIdxIfInBounds table.size entry = table.push entry := by
  apply Array.ext'
  rw [Array.insertIdxIfInBounds, dif_pos le_rfl, Array.toList_insertIdx, ← Array.length_toList,
    List.insertIdx_length_self, Array.toList_push]

/-- One entry is dropped and another put in its place: the others keep theirs. -/
theorem insertIdx_filter [DecidableEq α] {table : Array α} {old : α} {position : Nat}
    (found : table.idxOf? old = some position) (distinct : table.toList.Nodup) (new : α) :
    (table.filter (· ≠ old)).insertIdxIfInBounds position new =
      table.map fun other => if other = old then new else other := by
  have place : position ≤ (table.filter (· ≠ old)).size := Array.idxOf?_le_filter found
  obtain ⟨front, rest, split, rfl, absent⟩ := Array.idxOf?_split found
  have later : old ∉ rest := by
    rw [split, List.nodup_middle, List.nodup_cons, List.mem_append, not_or] at distinct
    exact distinct.1.2
  have kept : ∀ {list : List α}, old ∉ list →
      (list.map fun other => if other = old then new else other) = list := by
    intro list absent
    have differs : ∀ entry ∈ list, entry ≠ old := fun entry member same => absent (same ▸ member)
    rw [List.map_congr_left fun entry member => if_neg (differs entry member), List.map_id']
  apply Array.ext'
  rw [Array.insertIdxIfInBounds, dif_pos place, Array.toList_insertIdx, Array.toList_filter, Array.toList_map,
    split, List.filter_append, List.filter_cons_of_neg (by simp), List.map_append, List.map_cons, if_pos rfl,
    filter_ne_of_not_mem absent, filter_ne_of_not_mem later, kept absent, kept later, insertIdx_length_append]

end Arrays

/-- There are no more places than indices if each place has an index of its own. -/
theorem count_le_of_indices {count bound : Nat} {source : Nat → UInt32 → Prop}
    (each : ∀ place < count, ∃ index : UInt32, index.toNat < bound ∧ source place index)
    (distinct : ∀ {one other index}, source one index → source other index → one = other) :
    count ≤ bound := by
  choose index inside found using each
  have injective : Function.Injective fun place : Fin count =>
      (⟨(index place place.isLt).toNat, inside place place.isLt⟩ : Fin bound) := by
    intro one other same
    have there := found other other.isLt
    rw [← UInt32.toNat_inj.mp (Fin.mk.inj same)] at there
    exact Fin.ext (distinct (found one one.isLt) there)
  simpa using Fintype.card_le_of_injective _ injective

end ClassImage
