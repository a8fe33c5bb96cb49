import Mathlib.Data.List.Nodup
import Mathlib.Tactic.Common

/-!
# LRU indexes and their mirrors

A recency list holds distinct keys, the least recently used first. `touch` moves or adds a key to
the end; admission then evicts from the front what exceeds the capacity.

- `Recent n l x`: at most `n - 1` keys of `l` are more recent than `x`. A key stays resident
  through `m` admissions if it is among the `cap - m` most recent (`admitAll_recent`).
- **Mirror** (`admitAll_mirror`): a second store that drops the evicted keys and then adds the
  admitted ones holds the same keys as the index, as long as one message admits at most `cap` keys.
-/

namespace Py.Lru

variable {K : Type} [DecidableEq K]

/-- `move_to_end`, or the insertion of a new key. -/
def touch (l : List K) (k : K) : List K := l.filter (· ≠ k) ++ [k]

/-- The keys beyond the capacity, and the rest. -/
def overflow (cap : Nat) (l : List K) : List K × List K :=
  (l.take (l.length - cap), l.drop (l.length - cap))

/-- Touch the keys in order, evicting after each; the evicted keys and the resident ones. -/
def admitAll (cap : Nat) : List K → List K → List K × List K
  | l, [] => ([], l)
  | l, k :: ks =>
    let (e, l') := overflow cap (touch l k)
    let (e', l'') := admitAll cap l' ks
    (e ++ e', l'')

/-- `x` is among the `n` most recent keys. -/
def Recent (n : Nat) (l : List K) (x : K) : Prop := ∃ a b, l = a ++ x :: b ∧ b.length < n

@[simp] theorem mem_touch {l : List K} {k x : K} : x ∈ touch l k ↔ x ∈ l ∨ x = k := by
  simp only [touch, List.mem_append, List.mem_filter, decide_eq_true_eq, List.mem_singleton]
  by_cases hx : x = k <;> simp [hx]

theorem nodup_touch {l : List K} (h : l.Nodup) (k : K) : (touch l k).Nodup := by
  rw [touch, List.nodup_append]
  refine ⟨h.filter _, List.nodup_singleton k, ?_⟩
  intro a ha b hb
  rw [List.mem_singleton] at hb
  subst hb
  simpa using (List.mem_filter.mp ha).2

omit [DecidableEq K] in
theorem Recent.mem {n : Nat} {l : List K} {x : K} (h : Recent n l x) : x ∈ l := by
  obtain ⟨a, b, rfl, -⟩ := h
  simp

omit [DecidableEq K] in
theorem Recent.mono {n m : Nat} {l : List K} {x : K} (h : Recent n l x) (hnm : n ≤ m) :
    Recent m l x := by
  obtain ⟨a, b, rfl, hb⟩ := h
  exact ⟨a, b, rfl, Nat.lt_of_lt_of_le hb hnm⟩

theorem recent_touch_self (l : List K) (k : K) : Recent 1 (touch l k) k :=
  ⟨l.filter (· ≠ k), [], rfl, Nat.zero_lt_one⟩

/-- A touch makes one more key more recent. -/
theorem Recent.touch {n : Nat} {l : List K} {x : K} (h : Recent n l x) (k : K) :
    Recent (n + 1) (touch l k) x := by
  by_cases hx : x = k
  · subst hx
    exact (recent_touch_self l x).mono (by omega)
  · obtain ⟨a, b, rfl, hb⟩ := h
    refine ⟨a.filter (· ≠ k), b.filter (· ≠ k) ++ [k], ?_, ?_⟩
    · simp [Lru.touch, List.filter_append, hx]
    · have := List.length_filter_le (· ≠ k) b
      simp only [List.length_append, List.length_singleton]
      omega

omit [DecidableEq K] in
/-- An eviction does not reach the `cap` most recent keys. -/
theorem Recent.overflow {n cap : Nat} {l : List K} {x : K} (h : Recent n l x) (hn : n ≤ cap) :
    Recent n (overflow cap l).2 x := by
  obtain ⟨a, b, rfl, hb⟩ := h
  refine ⟨a.drop ((a ++ x :: b).length - cap), b, ?_, hb⟩
  rw [Lru.overflow, List.drop_append_of_le_length]
  simp only [List.length_append, List.length_cons]
  omega

omit [DecidableEq K] in
theorem nodup_overflow {cap : Nat} {l : List K} (h : l.Nodup) : (overflow cap l).2.Nodup :=
  h.sublist (List.drop_sublist _ _)

omit [DecidableEq K] in
theorem length_overflow {cap : Nat} (l : List K) : (overflow cap l).2.length ≤ cap := by
  rw [overflow, List.length_drop]
  omega

omit [DecidableEq K] in
/-- What is evicted is gone, and nothing else is. -/
theorem mem_overflow {cap : Nat} {l : List K} (h : l.Nodup) {x : K} :
    x ∈ (overflow cap l).2 ↔ x ∈ l ∧ x ∉ (overflow cap l).1 := by
  have hsplit : l = (overflow cap l).1 ++ (overflow cap l).2 := (List.take_append_drop _ _).symm
  have hd : List.Disjoint (overflow cap l).1 (overflow cap l).2 :=
    List.disjoint_of_nodup_append (hsplit ▸ h)
  constructor
  · intro hx
    exact ⟨List.mem_of_mem_drop hx, fun he => hd he hx⟩
  · rintro ⟨hx, he⟩
    rw [hsplit, List.mem_append] at hx
    exact hx.resolve_left he

theorem nodup_admitAll {cap : Nat} {l : List K} (h : l.Nodup) (ks : List K) :
    (admitAll cap l ks).2.Nodup := by
  induction ks generalizing l with
  | nil => exact h
  | cons k ks ih => exact ih (nodup_overflow (nodup_touch h k))

theorem length_admitAll {cap : Nat} {l : List K} (h : l.length ≤ cap) (ks : List K) :
    (admitAll cap l ks).2.length ≤ cap := by
  induction ks generalizing l with
  | nil => exact h
  | cons k ks ih => exact ih (length_overflow _)

/-- A recent key stays resident and is not evicted. -/
theorem admitAll_recent {n cap : Nat} {l : List K} (hl : l.Nodup) {x : K} {ks : List K}
    (h : Recent n l x) (hn : n + ks.length ≤ cap) :
    x ∈ (admitAll cap l ks).2 ∧ x ∉ (admitAll cap l ks).1 := by
  induction ks generalizing l n with
  | nil => exact ⟨h.mem, by simp [admitAll]⟩
  | cons k ks ih =>
    rw [List.length_cons] at hn
    have hr : Recent n.succ (overflow cap (touch l k)).2 x := (h.touch k).overflow (by omega)
    obtain ⟨hm, he⟩ := ih (nodup_overflow (nodup_touch hl k)) hr (by omega)
    refine ⟨hm, ?_⟩
    simp only [admitAll, List.mem_append, not_or]
    exact ⟨((mem_overflow (nodup_touch hl k)).mp hr.mem).2, he⟩

/-- The mirror rule: drop the evicted keys, then add the admitted ones. -/
theorem admitAll_mirror {cap : Nat} {l : List K} (hl : l.Nodup) {ks : List K}
    (hk : ks.length ≤ cap) (x : K) :
    x ∈ (admitAll cap l ks).2 ↔ (x ∈ l ∧ x ∉ (admitAll cap l ks).1) ∨ x ∈ ks := by
  induction ks generalizing l with
  | nil => simp [admitAll]
  | cons k ks ih =>
    rw [List.length_cons] at hk
    have hn := nodup_touch hl k
    have hrest := @ih (overflow cap (touch l k)).2 (nodup_overflow hn) (by omega)
    have hself : Recent 1 (overflow cap (touch l k)).2 k :=
      (recent_touch_self l k).overflow (by omega)
    -- the key admitted first is still resident after the others
    have hkeep : k ∈ (admitAll cap (overflow cap (touch l k)).2 ks).2 :=
      (admitAll_recent (nodup_overflow hn) hself (by omega)).1
    simp only [admitAll, List.mem_append, List.mem_cons, not_or]
    by_cases hx : x = k
    · subst hx
      simp [hkeep]
    · rw [hrest, mem_overflow hn, mem_touch]
      simp only [hx, or_false, false_or, and_assoc]

end Py.Lru
