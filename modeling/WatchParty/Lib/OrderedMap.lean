import Mathlib.Data.List.Induction
import Mathlib.Data.List.Nodup

/-!
# Maps that remember the order of insertion

A key that is set again keeps its place, a new key comes last.

- `OrderedMap`, with `get`, `set` and `delete`; `mem_set` and `mem_delete` say what is in the map afterwards, and
  `get_set` and `get_delete` what a key then has;
- `byKey` is the last value of each key;
- `getIn`, `setIn` and `deleteIn` are the same operations on a map of maps that keeps no empty map (`Full`).
-/

/-- A map with its entries in order. -/
structure OrderedMap (K V : Type) where
  entries : List (K × V)
  nodup : (entries.map Prod.fst).Nodup

namespace OrderedMap

variable {K V : Type}

def empty : OrderedMap K V := ⟨[], List.nodup_nil⟩

def keys (m : OrderedMap K V) : List K := m.entries.map Prod.fst

def values (m : OrderedMap K V) : List V := m.entries.map Prod.snd

def isEmpty (m : OrderedMap K V) : Bool := m.entries.isEmpty

variable [DecidableEq K]

def get (m : OrderedMap K V) (k : K) : Option V := (m.entries.find? fun e => e.1 = k).map Prod.snd

def has (m : OrderedMap K V) (k : K) : Bool := (m.get k).isSome

omit [DecidableEq K] in
/-- A key has one value. -/
theorem eq_of_mem {m : OrderedMap K V} {k : K} {v v' : V} (h : (k, v) ∈ m.entries) (h' : (k, v') ∈ m.entries) :
    v = v' := by
  have hinj := List.inj_on_of_nodup_map m.nodup h h' rfl
  exact congrArg Prod.snd hinj

theorem get_eq_some {m : OrderedMap K V} {k : K} {v : V} : m.get k = some v ↔ (k, v) ∈ m.entries := by
  constructor
  · intro h
    obtain ⟨e, he, rfl⟩ := Option.map_eq_some_iff.mp h
    have hk := List.find?_some he
    simp only [decide_eq_true_eq] at hk
    exact hk ▸ List.mem_of_find?_eq_some he
  · intro h
    cases hf : m.entries.find? fun e => e.1 = k with
    | none => simpa using List.find?_eq_none.mp hf _ h
    | some e =>
      have hk := List.find?_some hf
      simp only [decide_eq_true_eq] at hk
      subst hk
      rw [get, hf, Option.map_some, eq_of_mem h (List.mem_of_find?_eq_some hf)]

theorem has_iff {m : OrderedMap K V} {k : K} : m.has k = true ↔ k ∈ m.keys := by
  rw [has, Option.isSome_iff_exists, keys]
  simp only [get_eq_some, List.mem_map, Prod.exists, exists_and_right, exists_eq_right]

@[simp] theorem get_empty (k : K) : (empty : OrderedMap K V).get k = none := rfl

omit [DecidableEq K] in
theorem isEmpty_iff {m : OrderedMap K V} : m.isEmpty = true ↔ ∀ k v, (k, v) ∉ m.entries := by
  rw [isEmpty, List.isEmpty_iff, List.eq_nil_iff_forall_not_mem]
  exact Prod.forall

/-- The entries when a key is set. -/
def setEntries (k : K) (v : V) (l : List (K × V)) : List (K × V) :=
  if k ∈ l.map Prod.fst then l.map fun e => if e.1 = k then (k, v) else e else l ++ [(k, v)]

theorem mem_setEntries {k k' : K} {v v' : V} {l : List (K × V)} :
    (k', v') ∈ setEntries k v l ↔ (k' = k ∧ v' = v) ∨ (k' ≠ k ∧ (k', v') ∈ l) := by
  unfold setEntries
  split
  · rename_i hk
    obtain ⟨e, he, rfl⟩ := List.mem_map.mp hk
    simp only [List.mem_map]
    constructor
    · rintro ⟨x, hx, h⟩
      split at h
      · cases h
        exact Or.inl ⟨rfl, rfl⟩
      · rename_i hne
        subst h
        exact Or.inr ⟨hne, hx⟩
    · rintro (⟨rfl, rfl⟩ | ⟨hne, hx⟩)
      · exact ⟨e, he, if_pos rfl⟩
      · exact ⟨_, hx, if_neg hne⟩
  · rename_i hk
    rw [List.mem_append, List.mem_singleton, Prod.mk.injEq, or_comm]
    refine or_congr_right ⟨fun h => ⟨?_, h⟩, And.right⟩
    rintro rfl
    exact hk (List.mem_map_of_mem h)

theorem nodup_setEntries {k : K} {v : V} {l : List (K × V)} (h : (l.map Prod.fst).Nodup) :
    ((setEntries k v l).map Prod.fst).Nodup := by
  unfold setEntries
  split
  · have hsame : (l.map fun e => if e.1 = k then (k, v) else e).map Prod.fst = l.map Prod.fst := by
      rw [List.map_map]
      refine List.map_congr_left fun e _ => ?_
      simp only [Function.comp]
      split
      · rename_i he
        exact he.symm
      · rfl
    rwa [hsame]
  · rename_i hk
    rw [List.map_append, List.map_singleton]
    refine List.nodup_append.mpr ⟨h, List.nodup_singleton k, fun k' hk' k'' hk'' he => hk ?_⟩
    have hnew : k' = k := he.trans (List.mem_singleton.mp hk'')
    exact hnew ▸ hk'

/-- A key is set. -/
def set (m : OrderedMap K V) (k : K) (v : V) : OrderedMap K V := ⟨setEntries k v m.entries, nodup_setEntries m.nodup⟩

/-- A key is deleted. -/
def delete (m : OrderedMap K V) (k : K) : OrderedMap K V where
  entries := m.entries.filter fun e => ¬e.1 = k
  nodup := m.nodup.sublist (List.filter_sublist.map _)

theorem mem_set {m : OrderedMap K V} {k k' : K} {v v' : V} :
    (k', v') ∈ (m.set k v).entries ↔ (k' = k ∧ v' = v) ∨ (k' ≠ k ∧ (k', v') ∈ m.entries) := mem_setEntries

theorem mem_delete {m : OrderedMap K V} {k k' : K} {v : V} :
    (k', v) ∈ (m.delete k).entries ↔ k' ≠ k ∧ (k', v) ∈ m.entries := by
  simp [delete, and_comm]

theorem get_set (m : OrderedMap K V) (k k' : K) (v : V) : (m.set k v).get k' = if k' = k then some v else m.get k' := by
  ext v'
  rw [get_eq_some, mem_set]
  by_cases h : k' = k
  · simp [h, eq_comm]
  · simp [h, get_eq_some]

@[simp] theorem get_set_self (m : OrderedMap K V) (k : K) (v : V) : (m.set k v).get k = some v := by
  simp [get_set]

theorem get_delete (m : OrderedMap K V) (k k' : K) : (m.delete k).get k' = if k' = k then none else m.get k' := by
  ext v'
  rw [get_eq_some, mem_delete]
  by_cases h : k' = k
  · simp [h]
  · simp [h, get_eq_some]

@[simp] theorem get_delete_self (m : OrderedMap K V) (k : K) : (m.delete k).get k = none := by
  simp [get_delete]

theorem get_eq_none_of_isEmpty {m : OrderedMap K V} (h : m.isEmpty = true) (k : K) : m.get k = none := by
  cases hg : m.get k with
  | none => rfl
  | some v => exact absurd (get_eq_some.mp hg) (isEmpty_iff.mp h k v)

theorem mem_keys_set {m : OrderedMap K V} {k k' : K} {v : V} : k' ∈ (m.set k v).keys ↔ k' = k ∨ k' ∈ m.keys := by
  rw [← has_iff, ← has_iff, has, has, get_set]
  split <;> simp_all

theorem mem_values {m : OrderedMap K V} {v : V} : v ∈ m.values ↔ ∃ k, m.get k = some v := by
  simp [values, get_eq_some]

/-- The last value of each key. -/
def byKey (f : V → K) (vs : List V) : OrderedMap K V := vs.foldl (fun m v => m.set (f v) v) empty

/-- Every value is one of those given, under its own key. -/
theorem mem_byKey {f : V → K} {vs : List V} {k : K} {v : V} (h : (k, v) ∈ (byKey f vs).entries) : v ∈ vs ∧ f v = k := by
  induction vs using List.reverseRecOn with
  | nil => cases h
  | append_singleton vs x ih =>
    rw [byKey, List.foldl_append] at h
    rcases mem_set.mp h with ⟨rfl, rfl⟩ | ⟨-, h⟩
    · exact ⟨by simp, rfl⟩
    · obtain ⟨hv, hk⟩ := ih h
      exact ⟨List.mem_append_left _ hv, hk⟩

/-- Every value given has its key. -/
theorem byKey_covers {f : V → K} {vs : List V} {v : V} (h : v ∈ vs) : f v ∈ (byKey f vs).keys := by
  induction vs using List.reverseRecOn with
  | nil => cases h
  | append_singleton vs x ih =>
    rw [byKey, List.foldl_append]
    apply mem_keys_set.mpr
    rcases List.mem_append.mp h with h | h
    · exact Or.inr (ih h)
    · exact Or.inl (congrArg f (List.mem_singleton.mp h))

section Nested

variable {K' : Type} [DecidableEq K']

/-- The value at two keys of a map of maps. -/
def getIn (m : OrderedMap K (OrderedMap K' V)) (k : K) (k' : K') : Option V := (m.get k).bind fun n => n.get k'

/-- A value is set at two keys; where the first is new it gets a new map. -/
def setIn (m : OrderedMap K (OrderedMap K' V)) (k : K) (k' : K') (v : V) : OrderedMap K (OrderedMap K' V) :=
  m.set k (((m.get k).getD empty).set k' v)

/-- The second key is deleted from the map of the first, and that map when it is then empty. -/
def deleteIn (m : OrderedMap K (OrderedMap K' V)) (k : K) (k' : K') : OrderedMap K (OrderedMap K' V) :=
  match m.get k with
  | none => m
  | some n => if (n.delete k').isEmpty then m.delete k else m.set k (n.delete k')

theorem getIn_setIn (m : OrderedMap K (OrderedMap K' V)) (k j : K) (k' j' : K') (v : V) :
    (m.setIn k k' v).getIn j j' = if j = k ∧ j' = k' then some v else m.getIn j j' := by
  unfold getIn setIn
  rw [get_set]
  by_cases hj : j = k
  · subst hj
    rw [if_pos rfl, Option.bind_some, get_set]
    cases hm : m.get j <;> simp
  · simp [hj]

theorem getIn_deleteIn (m : OrderedMap K (OrderedMap K' V)) (k j : K) (k' j' : K') :
    (m.deleteIn k k').getIn j j' = if j = k ∧ j' = k' then none else m.getIn j j' := by
  unfold getIn deleteIn
  cases hm : m.get k with
  | none =>
    by_cases hj : j = k
    · subst hj
      simp [hm]
    · simp [hj]
  | some n =>
    by_cases hj : j = k
    · subst hj
      have hdel := get_delete n k' j'
      by_cases he : (n.delete k').isEmpty = true
      · rw [get_eq_none_of_isEmpty he] at hdel
        simp [he, hm, ← hdel]
      · simp [he, hm, hdel]
    · by_cases he : (n.delete k').isEmpty = true
      · simp [he, hj, get_delete]
      · simp [he, hj, get_set]

/-- No map of the map is empty. -/
def Full (m : OrderedMap K (OrderedMap K' V)) : Prop := ∀ k n, m.get k = some n → n.isEmpty = false

theorem full_setIn {m : OrderedMap K (OrderedMap K' V)} (h : m.Full) (k : K) (k' : K') (v : V) :
    (m.setIn k k' v).Full := by
  intro j n hn
  unfold setIn at hn
  rw [get_set] at hn
  split at hn
  · obtain rfl := Option.some.inj hn
    rw [Bool.eq_false_iff]
    intro he
    have hget := get_eq_none_of_isEmpty he k'
    rw [get_set_self] at hget
    cases hget
  · exact h j n hn

theorem full_deleteIn {m : OrderedMap K (OrderedMap K' V)} (h : m.Full) (k : K) (k' : K') : (m.deleteIn k k').Full := by
  intro j n hn
  unfold deleteIn at hn
  split at hn
  · exact h j n hn
  · split at hn
    · rw [get_delete] at hn
      split at hn
      · cases hn
      · exact h j n hn
    · rename_i he
      rw [get_set] at hn
      split at hn
      · obtain rfl := Option.some.inj hn
        exact Bool.eq_false_iff.mpr he
      · exact h j n hn

theorem getIn_eq_some {m : OrderedMap K (OrderedMap K' V)} {k : K} {k' : K'} {v : V} :
    m.getIn k k' = some v ↔ ∃ n, m.get k = some n ∧ n.get k' = some v := Option.bind_eq_some_iff

end Nested

end OrderedMap
