import Bi100.Namespace.Stream
import Mathlib.Logic.Relation

/-!
# Values of a multimodal payload

- `Plain`: built from the types that the encoding has a tag of its own for, without tensors and
  images; the keys of a mapping are hashable. Keys need not differ as values: two NaN objects
  are two keys.
- `Same`: equal up to `bytes`/`bytearray` and the order of mapping entries.
-/

namespace Bi100

namespace Obj

/-- The values that a value holds directly: the items, or the keys and values of the entries. -/
def children : Obj → List Obj
  | .list items => items
  | .tuple items => items
  | .map entries => entries.flatMap fun p => [p.1, p.2]
  | _ => []

/-- `P` holds of a value and of all values nested in it. -/
def Everywhere (P : Obj → Prop) (v : Obj) : Prop :=
  ∀ u, Relation.ReflTransGen (fun u c => c ∈ u.children) v u → P u

theorem everywhere_iff {P : Obj → Prop} {v : Obj} :
    v.Everywhere P ↔ P v ∧ ∀ c ∈ v.children, c.Everywhere P := by
  constructor
  · intro h
    exact ⟨h v .refl, fun c hc u hu => h u (.head hc hu)⟩
  · rintro ⟨hv, hchild⟩ u hu
    rcases Relation.ReflTransGen.cases_head hu with rfl | ⟨c, hc, hcu⟩
    · exact hv
    · exact hchild c hc u hcu

theorem Everywhere.self {P : Obj → Prop} {v : Obj} (h : v.Everywhere P) : P v :=
  (everywhere_iff.mp h).1

theorem Everywhere.child {P : Obj → Prop} {v c : Obj} (h : v.Everywhere P)
    (hc : c ∈ v.children) : c.Everywhere P :=
  (everywhere_iff.mp h).2 c hc

theorem everywhere_leaf {P : Obj → Prop} {v : Obj} (h : v.children = []) :
    v.Everywhere P ↔ P v := by
  rw [everywhere_iff, h]
  exact and_iff_left fun c hc => absurd hc List.not_mem_nil

@[simp]
theorem everywhere_none {P : Obj → Prop} : (none).Everywhere P ↔ P (none) :=
  everywhere_leaf rfl

@[simp]
theorem everywhere_bool {P : Obj → Prop} {b : Bool} : (bool b).Everywhere P ↔ P (bool b) :=
  everywhere_leaf rfl

@[simp]
theorem everywhere_int {P : Obj → Prop} {n : Int} : (int n).Everywhere P ↔ P (int n) :=
  everywhere_leaf rfl

@[simp]
theorem everywhere_float {P : Obj → Prop} {bits : UInt64} : (float bits).Everywhere P ↔ P (float bits) :=
  everywhere_leaf rfl

@[simp]
theorem everywhere_str {P : Obj → Prop} {s : String} : (str s).Everywhere P ↔ P (str s) :=
  everywhere_leaf rfl

@[simp]
theorem everywhere_bytes {P : Obj → Prop} {b : Bytes} : (bytes b).Everywhere P ↔ P (bytes b) :=
  everywhere_leaf rfl

@[simp]
theorem everywhere_bytearray {P : Obj → Prop} {b : Bytes} : (bytearray b).Everywhere P ↔ P (bytearray b) :=
  everywhere_leaf rfl

@[simp]
theorem everywhere_list {P : Obj → Prop} {items : List Obj} :
    (list items).Everywhere P ↔ P (list items) ∧ ∀ c ∈ items, c.Everywhere P :=
  everywhere_iff

@[simp]
theorem everywhere_tuple {P : Obj → Prop} {items : List Obj} :
    (tuple items).Everywhere P ↔ P (tuple items) ∧ ∀ c ∈ items, c.Everywhere P :=
  everywhere_iff

@[simp]
theorem everywhere_map {P : Obj → Prop} {entries : List (Obj × Obj)} :
    (map entries).Everywhere P ↔
      P (map entries) ∧ ∀ p ∈ entries, p.1.Everywhere P ∧ p.2.Everywhere P := by
  rw [everywhere_iff]
  refine and_congr_right fun _ => ?_
  simp only [children, List.mem_flatMap, List.mem_cons, List.not_mem_nil, or_false]
  constructor
  · intro h p hp
    exact ⟨h p.1 ⟨p, hp, .inl rfl⟩, h p.2 ⟨p, hp, .inr rfl⟩⟩
  · rintro h c ⟨p, hp, rfl | rfl⟩
    · exact (h p hp).1
    · exact (h p hp).2

theorem sizeOf_child {v c : Obj} (hc : c ∈ v.children) : sizeOf c < sizeOf v := by
  cases v with
  | list items | tuple items =>
    have hlt : sizeOf c < sizeOf items := List.sizeOf_lt_of_mem hc
    simp only [list.sizeOf_spec, tuple.sizeOf_spec]
    omega
  | map entries =>
    obtain ⟨⟨k, w⟩, hp, hc⟩ := List.mem_flatMap.mp hc
    have := List.sizeOf_lt_of_mem hp
    simp only [map.sizeOf_spec, Prod.mk.sizeOf_spec] at this ⊢
    simp only [List.mem_cons, List.not_mem_nil, or_false] at hc
    rcases hc with rfl | rfl <;> omega
  | _ => exact absurd hc List.not_mem_nil

/-- Induction on the nesting. -/
theorem nested {P : Obj → Prop} (h : ∀ v, (∀ c ∈ v.children, P c) → P v) (v : Obj) : P v :=
  h v fun c hc =>
    have := sizeOf_child hc
    nested h c
termination_by sizeOf v

theorem key_mem_children {entries : List (Obj × Obj)} {p : Obj × Obj} (hp : p ∈ entries) :
    p.1 ∈ (map entries).children :=
  List.mem_flatMap.mpr ⟨p, hp, List.mem_cons_self⟩

theorem value_mem_children {entries : List (Obj × Obj)} {p : Obj × Obj} (hp : p ∈ entries) :
    p.2 ∈ (map entries).children :=
  List.mem_flatMap.mpr ⟨p, hp, List.mem_cons_of_mem _ List.mem_cons_self⟩

/-- The types with an unhashable value. -/
def hashableType : Obj → Bool
  | .list _ => false
  | .map _ => false
  | .bytearray _ => false
  | _ => true

def Hashable : Obj → Prop := Everywhere fun v => v.hashableType = true

/-- What a value is made of, one level of it. -/
def PlainType : Obj → Prop
  | .map entries => ∀ p ∈ entries, p.1.Hashable
  | .tensor .. => False
  | .image .. => False
  | .other => False
  | _ => True

def Plain : Obj → Prop := Everywhere PlainType

/-- In every mapping, the keys have distinct `repr`. -/
def ReprDistinct (repr : Obj → String) : Obj → Prop := Everywhere fun v =>
  match v with
  | .map entries => (entries.map fun p => repr p.1).Nodup
  | _ => True

/-- The content of `bytes` and of a `bytearray`. -/
def rawBytes? : Obj → Option Bytes
  | .bytes b => some b
  | .bytearray b => some b
  | _ => Option.none

/-- Equal up to `bytes`/`bytearray` and the order of mapping entries. Keys are equal as they
are: no hashable value holds a `bytearray`. -/
inductive Same : Obj → Obj → Prop
  | none : Same .none .none
  | bool (b : Bool) : Same (.bool b) (.bool b)
  | int (n : Int) : Same (.int n) (.int n)
  | float (bits : UInt64) : Same (.float bits) (.float bits)
  | str (s : String) : Same (.str s) (.str s)
  | bytes {v w : Obj} {b : Bytes} : v.rawBytes? = some b → w.rawBytes? = some b → Same v w
  | list {xs ys : List Obj} : xs.length = ys.length →
      (∀ v w, (v, w) ∈ xs.zip ys → Same v w) → Same (.list xs) (.list ys)
  | tuple {xs ys : List Obj} : xs.length = ys.length →
      (∀ v w, (v, w) ∈ xs.zip ys → Same v w) → Same (.tuple xs) (.tuple ys)
  | map {es fs g : List (Obj × Obj)} : es.length = g.length →
      (∀ p q, (p, q) ∈ es.zip g → p.1 = q.1) →
      (∀ p q, (p, q) ∈ es.zip g → Same p.2 q.2) → g.Perm fs → Same (.map es) (.map fs)

/-- Hashable values that are the same are equal. -/
theorem Same.eq_of_hashable {v w : Obj} (h : Same v w) (hv : v.Hashable) (hw : w.Hashable) :
    v = w := by
  induction h with
  | none | bool | int | float | str => rfl
  | @bytes v w b hbv hbw =>
    have hbytes : ∀ u : Obj, u.hashableType = true → u.rawBytes? = some b → u = .bytes b := by
      intro u hu hb
      cases u with
      | bytes c => exact congrArg Obj.bytes (Option.some.inj hb)
      | bytearray c => exact absurd hu Bool.false_ne_true
      | _ => exact nomatch hb
    rw [hbytes v hv.self hbv, hbytes w hw.self hbw]
  | list => exact absurd hv.self Bool.false_ne_true
  | map => exact absurd hv.self Bool.false_ne_true
  | @tuple xs ys hlen _ ih =>
    congr 1
    refine List.ext_getElem hlen fun i hi hj => ?_
    have hmem : (xs[i], ys[i]) ∈ xs.zip ys := by
      have hz : i < (xs.zip ys).length := by
        rw [List.length_zip]
        omega
      exact List.getElem_zip (h := hz) ▸ List.getElem_mem hz
    exact ih _ _ hmem (hv.child (List.getElem_mem hi)) (hw.child (List.getElem_mem hj))

end Obj

end Bi100
