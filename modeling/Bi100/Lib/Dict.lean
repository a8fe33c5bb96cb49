import Mathlib.Data.List.Nodup
import Mathlib.Tactic.Common

/-!
# Insertion-ordered dictionaries

`Dict K V` is Python's `dict` (and `OrderedDict`): a finite map that remembers the order in which
its keys were inserted. An assignment to a present key keeps the key's place, an assignment to a
new key appends it, and deletion keeps the order of the others.

- `mem_entries`: the entries are the graph of `get?`.
- `get?_set`, `get?_erase`, `mem_set`, `mem_erase`: a lookup after an update.
- `keys_set`, `keys_erase`: the order after an update.
-/

namespace Py

/-- An insertion-ordered dictionary. A key has one entry. -/
structure Dict (K V : Type) where
  entries : List (K × V)
  nodup : (entries.map Prod.fst).Nodup

namespace Dict

variable {K V : Type}

/-! ## Operations -/

/-- `{}`. -/
def empty : Dict K V := ⟨[], List.nodup_nil⟩

instance : EmptyCollection (Dict K V) := ⟨empty⟩
instance : Inhabited (Dict K V) := ⟨empty⟩

/-- `d.keys()`, in order. -/
def keys (d : Dict K V) : List K := d.entries.map Prod.fst

/-- `d.values()`, in order. -/
def values (d : Dict K V) : List V := d.entries.map Prod.snd

/-- `len(d)`. -/
def size (d : Dict K V) : Nat := d.entries.length

/-- `k in d`. -/
instance : Membership K (Dict K V) := ⟨fun d k => k ∈ d.keys⟩

@[ext] theorem ext {d d' : Dict K V} (h : d.entries = d'.entries) : d = d' := by
  cases d; cases d'; cases h; rfl

theorem mem_def {d : Dict K V} {k : K} : k ∈ d ↔ k ∈ d.keys := Iff.rfl

theorem nodup_keys (d : Dict K V) : d.keys.Nodup := d.nodup

@[simp] theorem length_keys (d : Dict K V) : d.keys.length = d.size := List.length_map _

@[simp] theorem length_values (d : Dict K V) : d.values.length = d.size := List.length_map _

@[simp] theorem not_mem_empty (k : K) : k ∉ (∅ : Dict K V) := List.not_mem_nil
@[simp] theorem keys_empty : (∅ : Dict K V).keys = [] := rfl
@[simp] theorem values_empty : (∅ : Dict K V).values = [] := rfl
@[simp] theorem entries_empty : (∅ : Dict K V).entries = [] := rfl
@[simp] theorem size_empty : (∅ : Dict K V).size = 0 := rfl

variable [DecidableEq K]

/-- `d.get(k)`. -/
def get? (d : Dict K V) (k : K) : Option V := d.entries.lookup k

instance (d : Dict K V) (k : K) : Decidable (k ∈ d) := inferInstanceAs (Decidable (k ∈ d.keys))

/-- Replace the value of the entry of `k`, in place. -/
def update (l : List (K × V)) (k : K) (v : V) : List (K × V) :=
  l.map fun p => if p.1 = k then (k, v) else p

theorem map_fst_update (l : List (K × V)) (k : K) (v : V) :
    (update l k v).map Prod.fst = l.map Prod.fst := by
  rw [update, List.map_map]
  apply List.map_congr_left
  intro p _
  simp only [Function.comp_apply]
  split
  · simp_all
  · rfl

/-- `d[k] = v`. -/
def set (d : Dict K V) (k : K) (v : V) : Dict K V :=
  if h : k ∈ d.keys then
    ⟨update d.entries k v, by rw [map_fst_update]; exact d.nodup⟩
  else
    ⟨d.entries ++ [(k, v)], by
      rw [List.map_append, List.nodup_append]
      refine ⟨d.nodup, by simp, ?_⟩
      simp only [List.map_cons, List.map_nil, List.mem_singleton, forall_eq]
      intro a ha hak
      exact h (hak ▸ ha)⟩

/-- `d.pop(k, None)`. -/
def erase (d : Dict K V) (k : K) : Dict K V :=
  ⟨d.entries.filter fun p => p.1 ≠ k, (List.filter_sublist.map Prod.fst).nodup d.nodup⟩

/-- What `d.popitem(last=False)` leaves: the first entry is removed. -/
def tail (d : Dict K V) : Dict K V :=
  ⟨d.entries.tail, ((List.tail_sublist _).map Prod.fst).nodup d.nodup⟩

/-- The values are replaced in place. -/
def mapValues {W : Type} (d : Dict K V) (f : V → W) : Dict K W :=
  ⟨d.entries.map fun p => (p.1, f p.2), by rw [List.map_map]; exact d.nodup⟩

/-! ## Entries and lookups -/

private theorem lookup_eq_some {l : List (K × V)} (h : (l.map Prod.fst).Nodup) {k : K} {v : V} :
    l.lookup k = some v ↔ (k, v) ∈ l := by
  induction l with
  | nil => simp
  | cons p l ih =>
    obtain ⟨k', v'⟩ := p
    simp only [List.map_cons, List.nodup_cons] at h
    rw [List.lookup_cons]
    by_cases hk : k = k'
    · subst hk
      simp only [BEq.rfl, Option.some.injEq, List.mem_cons, Prod.mk.injEq, true_and]
      constructor
      · rintro rfl; exact .inl rfl
      · rintro (rfl | hm)
        · rfl
        · exact absurd (List.mem_map_of_mem (f := Prod.fst) hm) h.1
    · rw [beq_false_of_ne hk]
      simp [hk, ih h.2]

/-- The entries are the graph of `get?`. -/
theorem mem_entries {d : Dict K V} {k : K} {v : V} : (k, v) ∈ d.entries ↔ d.get? k = some v :=
  (lookup_eq_some d.nodup).symm

theorem mem_iff {d : Dict K V} {k : K} : k ∈ d ↔ ∃ v, d.get? k = some v := by
  simp only [mem_def, keys, List.mem_map, ← mem_entries]
  constructor
  · rintro ⟨⟨k, v⟩, h, rfl⟩; exact ⟨v, h⟩
  · rintro ⟨v, h⟩; exact ⟨(k, v), h, rfl⟩

theorem mem_of_get? {d : Dict K V} {k : K} {v : V} (h : d.get? k = some v) : k ∈ d :=
  mem_iff.mpr ⟨v, h⟩

theorem get?_eq_none {d : Dict K V} {k : K} : d.get? k = none ↔ k ∉ d := by
  rw [mem_iff, Option.eq_none_iff_forall_ne_some, not_exists]

theorem mem_values {d : Dict K V} {v : V} : v ∈ d.values ↔ ∃ k, d.get? k = some v := by
  simp only [values, List.mem_map, ← mem_entries]
  constructor
  · rintro ⟨⟨k, v⟩, h, rfl⟩; exact ⟨k, h⟩
  · rintro ⟨k, h⟩; exact ⟨(k, v), h, rfl⟩

/-- With distinct values, a value has one key. -/
theorem key_unique {d : Dict K V} (h : d.values.Nodup) {k k' : K} {v : V}
    (hk : d.get? k = some v) (hk' : d.get? k' = some v) : k = k' := by
  have hi := List.inj_on_of_nodup_map h (mem_entries.mpr hk) (mem_entries.mpr hk') rfl
  exact congrArg Prod.fst hi

@[simp] theorem get?_empty (k : K) : (∅ : Dict K V).get? k = none := rfl

/-! ## Assignment -/

theorem entries_set_of_mem {d : Dict K V} {k : K} (h : k ∈ d) (v : V) :
    (d.set k v).entries = update d.entries k v := by
  rw [set, dif_pos (mem_def.mp h)]

theorem entries_set_of_not_mem {d : Dict K V} {k : K} (h : k ∉ d) (v : V) :
    (d.set k v).entries = d.entries ++ [(k, v)] := by
  rw [set, dif_neg (mem_def.not.mp h)]

theorem keys_set_of_mem {d : Dict K V} {k : K} (h : k ∈ d) (v : V) :
    (d.set k v).keys = d.keys := by
  rw [keys, entries_set_of_mem h, map_fst_update]; rfl

theorem keys_set_of_not_mem {d : Dict K V} {k : K} (h : k ∉ d) (v : V) :
    (d.set k v).keys = d.keys ++ [k] := by
  rw [keys, entries_set_of_not_mem h, List.map_append]; rfl

theorem values_set_of_not_mem {d : Dict K V} {k : K} (h : k ∉ d) (v : V) :
    (d.set k v).values = d.values ++ [v] := by
  rw [values, entries_set_of_not_mem h, List.map_append]; rfl

theorem size_set_of_mem {d : Dict K V} {k : K} (h : k ∈ d) (v : V) :
    (d.set k v).size = d.size := by
  rw [← length_keys, keys_set_of_mem h, length_keys]

theorem size_set_of_not_mem {d : Dict K V} {k : K} (h : k ∉ d) (v : V) :
    (d.set k v).size = d.size + 1 := by
  rw [← length_keys, keys_set_of_not_mem h, List.length_append, length_keys]; rfl

private theorem mem_update {l : List (K × V)} {k k' : K} {v v' : V} :
    (k', v') ∈ update l k v ↔
      (k' = k ∧ v' = v ∧ k ∈ l.map Prod.fst) ∨ (k' ≠ k ∧ (k', v') ∈ l) := by
  simp only [update, List.mem_map]
  constructor
  · rintro ⟨⟨a, b⟩, hab, heq⟩
    by_cases ha : a = k
    · simp only [ha, ↓reduceIte, Prod.mk.injEq] at heq
      exact .inl ⟨heq.1.symm, heq.2.symm, (a, b), hab, ha⟩
    · simp only [ha, ↓reduceIte, Prod.mk.injEq] at heq
      obtain ⟨rfl, rfl⟩ := heq
      exact .inr ⟨ha, hab⟩
  · rintro (⟨rfl, rfl, p, hp, hpk⟩ | ⟨hk, hm⟩)
    · exact ⟨p, hp, by simp [hpk]⟩
    · exact ⟨(k', v'), hm, by simp [hk]⟩

theorem get?_set (d : Dict K V) (k k' : K) (v : V) :
    (d.set k v).get? k' = if k' = k then some v else d.get? k' := by
  apply Option.ext
  intro v'
  rw [← mem_entries]
  by_cases hm : k ∈ d
  · rw [entries_set_of_mem hm, mem_update]
    have hm' : k ∈ d.entries.map Prod.fst := hm
    by_cases hk : k' = k
    · simp [hk, hm', eq_comm]
    · simp [hk, mem_entries]
  · rw [entries_set_of_not_mem hm, List.mem_append, mem_entries]
    by_cases hk : k' = k
    · subst hk
      simp [get?_eq_none.mpr hm, eq_comm]
    · simp [hk]

@[simp] theorem get?_set_self (d : Dict K V) (k : K) (v : V) : (d.set k v).get? k = some v := by
  rw [get?_set, if_pos rfl]

theorem get?_set_of_ne {k k' : K} (h : k' ≠ k) (d : Dict K V) (v : V) :
    (d.set k v).get? k' = d.get? k' := by
  rw [get?_set, if_neg h]

@[simp] theorem mem_set {d : Dict K V} {k k' : K} {v : V} :
    k' ∈ d.set k v ↔ k' = k ∨ k' ∈ d := by
  rw [mem_iff, mem_iff]
  by_cases hk : k' = k
  · simp [hk]
  · simp [hk, get?_set_of_ne hk]

/-! ## Deletion -/

theorem get?_erase (d : Dict K V) (k k' : K) :
    (d.erase k).get? k' = if k' = k then none else d.get? k' := by
  apply Option.ext
  intro v
  rw [← mem_entries]
  simp only [erase, List.mem_filter, decide_eq_true_eq, mem_entries]
  by_cases hk : k' = k
  · simp [hk]
  · simp [hk]

@[simp] theorem get?_erase_self (d : Dict K V) (k : K) : (d.erase k).get? k = none := by
  rw [get?_erase, if_pos rfl]

theorem get?_erase_of_ne {k k' : K} (h : k' ≠ k) (d : Dict K V) :
    (d.erase k).get? k' = d.get? k' := by
  rw [get?_erase, if_neg h]

@[simp] theorem mem_erase {d : Dict K V} {k k' : K} : k' ∈ d.erase k ↔ k' ≠ k ∧ k' ∈ d := by
  rw [mem_iff, mem_iff]
  by_cases hk : k' = k
  · simp [hk]
  · simp [hk, get?_erase_of_ne hk]

theorem keys_erase (d : Dict K V) (k : K) : (d.erase k).keys = d.keys.filter (· ≠ k) := by
  rw [keys, keys, erase, List.filter_map]; rfl

theorem erase_of_not_mem {d : Dict K V} {k : K} (h : k ∉ d) : d.erase k = d := by
  ext1
  rw [erase, List.filter_eq_self]
  intro p hp
  simp only [ne_eq, decide_eq_true_eq]
  rintro rfl
  exact h (List.mem_map_of_mem hp)

theorem size_erase_of_mem {d : Dict K V} {k : K} (h : k ∈ d) :
    (d.erase k).size + 1 = d.size := by
  rw [← length_keys, ← length_keys, keys_erase]
  have hf : d.keys.filter (· ≠ k) = d.keys.erase k := by
    rw [(nodup_keys d).erase_eq_filter]; congr; ext a; simp [bne, Bool.beq_eq_decide_eq]
  rw [hf, List.length_erase_of_mem (mem_def.mp h)]
  have : 0 < d.keys.length := List.length_pos_of_mem (mem_def.mp h)
  omega

omit [DecidableEq K] in
theorem keys_tail (d : Dict K V) : d.tail.keys = d.keys.tail := by
  rw [keys, keys, tail, List.map_tail]

omit [DecidableEq K] in
@[simp] theorem size_tail (d : Dict K V) : d.tail.size = d.size - 1 := List.length_tail

/-- `d.pop(k); d[k] = v`: the key moves to the end. -/
theorem keys_erase_set (d : Dict K V) (k : K) (v : V) :
    ((d.erase k).set k v).keys = d.keys.filter (· ≠ k) ++ [k] := by
  rw [keys_set_of_not_mem (by simp), keys_erase]

/-! ## Mapped values -/

omit [DecidableEq K] in
@[simp] theorem keys_mapValues {W : Type} (d : Dict K V) (f : V → W) :
    (d.mapValues f).keys = d.keys := by
  rw [keys, keys, mapValues, List.map_map]
  rfl

omit [DecidableEq K] in
@[simp] theorem values_mapValues {W : Type} (d : Dict K V) (f : V → W) :
    (d.mapValues f).values = d.values.map f := by
  rw [values, values, mapValues, List.map_map, List.map_map]
  rfl

@[simp] theorem get?_mapValues {W : Type} (d : Dict K V) (f : V → W) (k : K) :
    (d.mapValues f).get? k = (d.get? k).map f := by
  apply Option.ext
  intro w
  simp only [← mem_entries, Option.map_eq_some_iff, mapValues, List.mem_map, Prod.mk.injEq,
    Prod.exists]
  constructor
  · rintro ⟨a, b, hab, rfl, rfl⟩
    exact ⟨b, hab, rfl⟩
  · rintro ⟨v, hv, rfl⟩
    exact ⟨k, v, hv, rfl, rfl⟩

end Dict

end Py
