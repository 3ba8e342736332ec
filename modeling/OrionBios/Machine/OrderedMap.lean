import Mathlib.Data.List.Sort
import Mathlib.Logic.Function.Basic

/-!
# Maps in order

A finite map kept as the list of its entries, with the keys in increasing order. The list tells no
more than the map does.
-/

namespace OrionBios.Machine

universe u v

structure OrderedMap (Key : Type u) (Value : Type v) [LinearOrder Key] where
  entries : List (Key × Value)
  ascending : entries.Pairwise fun first second => first.1 < second.1

namespace OrderedMap

variable {Key : Type u} {Value : Type v} {key : Key} {value : Option Value} {entry : Key × Value}

def entryOf (key : Key) (value : Option Value) : List (Key × Value) :=
  value.toList.map (Prod.mk key)

theorem mem_entryOf : entry ∈ entryOf key value ↔ entry.1 = key ∧ value = some entry.2 := by
  obtain ⟨k, v⟩ := entry
  rw [entryOf, List.mem_map]
  constructor
  · rintro ⟨w, new, same⟩
    obtain ⟨rfl, rfl⟩ := Prod.mk.inj same
    exact ⟨rfl, Option.mem_toList.mp new⟩
  · rintro ⟨rfl, new⟩
    exact ⟨v, Option.mem_toList.mpr new, rfl⟩

variable [LinearOrder Key]

def empty : OrderedMap Key Value := ⟨[], .nil⟩

def below (key : Key) (entries : List (Key × Value)) : List (Key × Value) :=
  entries.filter fun entry => entry.1 < key

def beyond (key : Key) (entries : List (Key × Value)) : List (Key × Value) :=
  entries.filter fun entry => key < entry.1

def lookup (map : OrderedMap Key Value) (key : Key) : Option Value :=
  (map.entries.find? fun entry => entry.1 = key).map Prod.snd

/-- The entry of a key, if it has any, in the place of the one before. -/
def placed (key : Key) (value : Option Value) (entries : List (Key × Value)) : List (Key × Value) :=
  below key entries ++ (entryOf key value ++ beyond key entries)

variable {entries : List (Key × Value)}

theorem mem_below : entry ∈ below key entries ↔ entry ∈ entries ∧ entry.1 < key := by
  rw [below, List.mem_filter, decide_eq_true_eq]

theorem mem_beyond : entry ∈ beyond key entries ↔ entry ∈ entries ∧ key < entry.1 := by
  rw [beyond, List.mem_filter, decide_eq_true_eq]

theorem mem_placed : entry ∈ placed key value entries ↔
    (entry.1 = key ∧ value = some entry.2) ∨ (entry.1 ≠ key ∧ entry ∈ entries) := by
  rw [placed, List.mem_append, List.mem_append, mem_below, mem_beyond, mem_entryOf]
  constructor
  · rintro (⟨among, less⟩ | new | ⟨among, less⟩)
    · exact .inr ⟨less.ne, among⟩
    · exact .inl new
    · exact .inr ⟨less.ne', among⟩
  · rintro (new | ⟨other, among⟩)
    · exact .inr (.inl new)
    · rcases lt_or_gt_of_ne other with less | greater
      · exact .inl ⟨among, less⟩
      · exact .inr (.inr ⟨among, greater⟩)

theorem ascending_placed (ascending : entries.Pairwise fun first second => first.1 < second.1) :
    (placed key value entries).Pairwise fun first second => first.1 < second.1 := by
  have single : (entryOf key value).Pairwise fun first second => first.1 < second.1 := by
    cases value with
    | none => exact .nil
    | some v => exact List.pairwise_singleton _ _
  refine List.pairwise_append.mpr ⟨ascending.filter _, ?_, ?_⟩
  · refine List.pairwise_append.mpr ⟨single, ascending.filter _, fun first one second two => ?_⟩
    rw [(mem_entryOf.mp one).1]
    exact (mem_beyond.mp two).2
  · intro first one second two
    have less := (mem_below.mp one).2
    rcases List.mem_append.mp two with two | two
    · rw [(mem_entryOf.mp two).1]
      exact less
    · exact less.trans (mem_beyond.mp two).2

def put (map : OrderedMap Key Value) (key : Key) (value : Option Value) : OrderedMap Key Value :=
  ⟨placed key value map.entries, ascending_placed map.ascending⟩

variable (map : OrderedMap Key Value)

theorem entry_unique {first second : Key × Value} (one : first ∈ map.entries)
    (two : second ∈ map.entries) (same : first.1 = second.1) : first = second := by
  have apart : (map.entries.map Prod.fst).Nodup :=
    List.pairwise_map.mpr (map.ascending.imp fun less => less.ne)
  exact List.inj_on_of_nodup_map apart one two same

theorem lookup_eq_some {v : Value} : map.lookup key = some v ↔ (key, v) ∈ map.entries := by
  unfold lookup
  cases found : map.entries.find? fun entry => entry.1 = key with
  | none =>
      have absent := List.find?_eq_none.mp found (key, v)
      rw [Option.map_none]
      constructor
      · exact fun none => absurd none.symm (Option.some_ne_none v)
      · exact fun among => absurd (decide_eq_true rfl) (absent among)
  | some entry =>
      have among := List.mem_of_find?_eq_some found
      have same : entry.1 = key := by simpa using List.find?_some found
      obtain ⟨k, w⟩ := entry
      obtain rfl : k = key := same
      rw [Option.map_some, Option.some_inj]
      constructor
      · rintro rfl
        exact among
      · exact fun other => congrArg Prod.snd (map.entry_unique among other rfl)

theorem lookup_put (key : Key) (value : Option Value) :
    (map.put key value).lookup = Function.update map.lookup key value := by
  funext other
  apply Option.ext
  intro v
  rw [lookup_eq_some, put, mem_placed]
  by_cases same : other = key
  · subst same
    rw [Function.update_self]
    constructor
    · rintro (new | others)
      · exact new.2
      · exact absurd rfl others.1
    · exact fun new => .inl ⟨rfl, new⟩
  · rw [Function.update_of_ne same, lookup_eq_some]
    constructor
    · rintro (new | others)
      · exact absurd new.1 same
      · exact others.2
    · exact fun among => .inr ⟨same, among⟩

variable {map}

theorem ext_entries {other : OrderedMap Key Value} (same : map.entries = other.entries) :
    map = other := by
  cases map
  cases other
  congr

theorem ext_lookup {other : OrderedMap Key Value} (same : map.lookup = other.lookup) :
    map = other := by
  have members : ∀ entry, entry ∈ map.entries ↔ entry ∈ other.entries := by
    rintro ⟨k, v⟩
    rw [← lookup_eq_some, ← lookup_eq_some, same]
  have nodup (some : OrderedMap Key Value) : some.entries.Nodup :=
    some.ascending.imp fun less equal => less.ne (congrArg Prod.fst equal)
  have perm : map.entries.Perm other.entries :=
    (List.perm_ext_iff_of_nodup (nodup map) (nodup other)).mpr members
  exact ext_entries (perm.eq_of_pairwise (fun _ _ _ _ less more => absurd less more.asymm)
    map.ascending other.ascending)

variable (map)

theorem entries_split (key : Key) :
    map.entries =
      below key map.entries ++ (entryOf key (map.lookup key) ++ beyond key map.entries) := by
  have again : map.put key (map.lookup key) = map :=
    ext_lookup (by rw [lookup_put, Function.update_eq_self])
  exact (congrArg entries again).symm

end OrderedMap

end OrionBios.Machine
