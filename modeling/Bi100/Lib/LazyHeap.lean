import Mathlib.Algebra.BigOperators.Group.List.Basic
import Mathlib.Tactic.Common
import Mathlib.Algebra.Order.Ring.Int

/-!
# Heaps with lazy deletion

A priority queue whose entries are not touched when what they stand for changes. An entry is
judged when it comes out: a stale one is dropped, one with an outdated priority is pushed back
under its refreshed form, and a current one is the result.

- `popMin`: the least entry (`popMin_spec`), which a nonempty heap has (`exists_popMin`).
- `settle`: pop until an entry is current. If refreshing an entry never makes it smaller, then the
  result has the least refreshed entry (`settle_spec`): neither the stale entries nor the outdated
  priorities have a say.
- `settle_isSome`: it ends, and finds an entry if one of the heap is not stale.
-/

namespace Py

namespace LazyHeap

variable {α κ : Type} [LE κ]

/-! ## Entries -/

/-- What an entry turns out to be when it comes out. -/
inductive Verdict (α : Type) where
  | stale
  | outdated (refreshed : α)
  | current

/-- The entry that an entry stands for, if any. -/
def refresh (judge : α → Verdict α) (x : α) : Option α :=
  match judge x with
  | .stale => none
  | .outdated y => some y
  | .current => some x

/-- How many times an entry can come out. -/
def pops (judge : α → Verdict α) (x : α) : Nat :=
  match judge x with
  | .outdated _ => 2
  | _ => 1

/-- Refreshing an entry of the heap is done once, and does not make it smaller. -/
structure Refreshes (key : α → κ) (judge : α → Verdict α) (heap : List α) : Prop where
  le : ∀ {x y}, x ∈ heap → judge x = .outdated y → key x ≤ key y
  current : ∀ {x y}, x ∈ heap → judge x = .outdated y → judge y = .current

/-- An entry of the heap stands for `y`. -/
def Represents (judge : α → Verdict α) (heap : List α) (y : α) : Prop :=
  ∃ x ∈ heap, refresh judge x = some y

/-- The entry that comes out of `heap`, and what is left. -/
structure Settled (key : α → κ) (judge : α → Verdict α) (heap : List α) (x : α)
    (rest : List α) : Prop where
  represents : Represents judge heap x
  least : ∀ y, Represents judge heap y → key x ≤ key y
  others : ∀ y, Represents judge heap y → y = x ∨ Represents judge rest y
  kept : ∀ z ∈ rest, z ∈ heap ∨ Represents judge heap z

variable {key : α → κ} {judge : α → Verdict α} {heap rest : List α} {x y z : α}

theorem refresh_of_current (h : judge x = .current) : refresh judge x = some x := by
  rw [refresh, h]

theorem refresh_of_outdated (h : judge x = .outdated y) : refresh judge x = some y := by
  rw [refresh, h]

theorem refresh_of_stale (h : judge x = .stale) : refresh judge x = none := by
  rw [refresh, h]

theorem Refreshes.current_of_refresh (hr : Refreshes key judge heap) (hx : x ∈ heap)
    (h : refresh judge x = some y) : judge y = .current := by
  cases hv : judge x with
  | stale =>
    rw [refresh_of_stale hv] at h
    cases h
  | outdated x' =>
    rw [refresh_of_outdated hv] at h
    cases h
    exact hr.current hx hv
  | current =>
    rw [refresh_of_current hv] at h
    cases h
    exact hv

/-- What comes out of a heap that stands for the same entries comes out of this one. -/
theorem Settled.of_heap {heap' : List α} (h : Settled key judge heap' x rest)
    (hsame : ∀ y, Represents judge heap' y ↔ Represents judge heap y)
    (hkept : ∀ z ∈ heap', z ∈ heap ∨ Represents judge heap z) :
    Settled key judge heap x rest := by
  refine ⟨(hsame x).mp h.represents, ?_, ?_, ?_⟩
  · exact fun y hy => h.least y ((hsame y).mpr hy)
  · exact fun y hy => h.others y ((hsame y).mpr hy)
  · intro z hz
    rcases h.kept z hz with hz | hz
    · exact hkept z hz
    · exact .inr ((hsame z).mp hz)

theorem length_le_sum_pops (judge : α → Verdict α) (heap : List α) : heap.length ≤ (heap.map (pops judge)).sum := by
  induction heap with
  | nil => exact Nat.zero_le _
  | cons a heap ih =>
    have ha : 1 ≤ pops judge a := by
      unfold pops
      split <;> omega
    rw [List.length_cons, List.map_cons, List.sum_cons]
    omega

theorem sum_pops_le (heap : List α) : (heap.map (pops judge)).sum ≤ 2 * heap.length := by
  induction heap with
  | nil => exact Nat.zero_le _
  | cons a heap ih =>
    have ha : pops judge a ≤ 2 := by
      unfold pops
      split <;> omega
    rw [List.length_cons, List.map_cons, List.sum_cons]
    omega

section

variable [DecidableEq α]

theorem Refreshes.erase (hr : Refreshes key judge heap) (x : α) :
    Refreshes key judge (heap.erase x) :=
  ⟨fun hz => hr.le (List.mem_of_mem_erase hz), fun hz => hr.current (List.mem_of_mem_erase hz)⟩

theorem Refreshes.push (hr : Refreshes key judge heap) (hx : x ∈ heap)
    (hv : judge x = .outdated y) : Refreshes key judge (y :: heap.erase x) := by
  have hy : judge y = .current := hr.current hx hv
  constructor
  · intro z w hz hzw
    rcases List.mem_cons.mp hz with rfl | hz
    · rw [hy] at hzw
      cases hzw
    · exact hr.le (List.mem_of_mem_erase hz) hzw
  · intro z w hz hzw
    rcases List.mem_cons.mp hz with rfl | hz
    · rw [hy] at hzw
      cases hzw
    · exact hr.current (List.mem_of_mem_erase hz) hzw

/-- Dropping a stale entry. -/
theorem represents_erase_of_stale (hv : judge x = .stale) :
    Represents judge (heap.erase x) y ↔ Represents judge heap y := by
  constructor
  · rintro ⟨z, hz, hzy⟩
    exact ⟨z, List.mem_of_mem_erase hz, hzy⟩
  · rintro ⟨z, hz, hzy⟩
    refine ⟨z, (List.mem_erase_of_ne ?_).mpr hz, hzy⟩
    rintro rfl
    rw [refresh_of_stale hv] at hzy
    cases hzy

/-- Pushing back the refreshed form of an outdated entry. -/
theorem represents_push_of_outdated (hr : Refreshes key judge heap) (hx : x ∈ heap)
    (hv : judge x = .outdated z) :
    Represents judge (z :: heap.erase x) y ↔ Represents judge heap y := by
  constructor
  · rintro ⟨w, hw, hwy⟩
    rcases List.mem_cons.mp hw with rfl | hw
    · rw [refresh_of_current (hr.current hx hv)] at hwy
      exact ⟨x, hx, by rw [refresh_of_outdated hv, hwy]⟩
    · exact ⟨w, List.mem_of_mem_erase hw, hwy⟩
  · rintro ⟨w, hw, hwy⟩
    by_cases hwx : w = x
    · rw [hwx, refresh_of_outdated hv] at hwy
      exact ⟨z, List.mem_cons_self, by rw [refresh_of_current (hr.current hx hv), hwy]⟩
    · exact ⟨w, List.mem_cons_of_mem _ ((List.mem_erase_of_ne hwx).mpr hw), hwy⟩

end

variable [Std.IsLinearPreorder κ]

/-- An entry is not greater than the one it stands for. -/
theorem Refreshes.key_le (hr : Refreshes key judge heap) (hx : x ∈ heap)
    (h : refresh judge x = some y) : key x ≤ key y := by
  cases hv : judge x with
  | stale =>
    rw [refresh_of_stale hv] at h
    cases h
  | outdated x' =>
    rw [refresh_of_outdated hv] at h
    cases h
    exact hr.le hx hv
  | current =>
    rw [refresh_of_current hv] at h
    cases h
    exact Std.le_refl _

/-! ## The least entry -/

theorem exists_least (key : α → κ) {heap : List α} (h : heap ≠ []) :
    ∃ x ∈ heap, ∀ y ∈ heap, key x ≤ key y := by
  induction heap with
  | nil => exact absurd rfl h
  | cons a heap ih =>
    by_cases hne : heap = []
    · refine ⟨a, List.mem_cons_self, ?_⟩
      intro y hy
      rw [hne, List.mem_singleton] at hy
      rw [hy]
      exact Std.le_refl _
    · obtain ⟨x, hx, hmin⟩ := ih hne
      rcases Std.le_total (a := key a) (b := key x) with hax | hxa
      · refine ⟨a, List.mem_cons_self, ?_⟩
        intro y hy
        rcases List.mem_cons.mp hy with rfl | hy
        · exact Std.le_refl _
        · exact Std.le_trans hax (hmin y hy)
      · refine ⟨x, List.mem_cons_of_mem _ hx, ?_⟩
        intro y hy
        rcases List.mem_cons.mp hy with rfl | hy
        · exact hxa
        · exact hmin y hy

variable [DecidableEq α]

/-- A current entry that comes out of the heap is the least that the heap stands for. -/
theorem settled_of_current (hr : Refreshes key judge heap) (hx : x ∈ heap)
    (hmin : ∀ y ∈ heap, key x ≤ key y) (hv : judge x = .current) :
    Settled key judge heap x (heap.erase x) := by
  refine ⟨⟨x, hx, refresh_of_current hv⟩, ?_, ?_, fun z hz => .inl (List.mem_of_mem_erase hz)⟩
  · rintro y ⟨z, hz, hzy⟩
    exact Std.le_trans (hmin z hz) (hr.key_le hz hzy)
  · rintro y ⟨z, hz, hzy⟩
    by_cases hzx : z = x
    · rw [hzx, refresh_of_current hv] at hzy
      exact .inl (Option.some.inj hzy).symm
    · exact .inr ⟨z, (List.mem_erase_of_ne hzx).mpr hz, hzy⟩

/-! ## The loop -/

variable [DecidableLE κ]

/-- The least entry, and the others. -/
def popMin (key : α → κ) (heap : List α) : Option (α × List α) :=
  (heap.find? fun x => heap.all fun y => key x ≤ key y).map fun x => (x, heap.erase x)

/-- Pop until an entry is current. -/
def settle (key : α → κ) (judge : α → Verdict α) : Nat → List α → Option (α × List α)
  | 0, _ => none
  | fuel + 1, heap =>
    match popMin key heap with
    | none => none
    | some (x, rest) =>
      match judge x with
      | .stale => settle key judge fuel rest
      | .outdated y => settle key judge fuel (y :: rest)
      | .current => some (x, rest)

omit [Std.IsLinearPreorder κ] in
theorem popMin_spec {key : α → κ} {heap rest : List α} {x : α}
    (h : popMin key heap = some (x, rest)) :
    x ∈ heap ∧ (∀ y ∈ heap, key x ≤ key y) ∧ rest = heap.erase x := by
  obtain ⟨x', hx, heq⟩ := Option.map_eq_some_iff.mp h
  cases heq
  have hall := List.find?_some hx
  exact ⟨List.mem_of_find?_eq_some hx, by simpa using hall, rfl⟩

theorem exists_popMin (key : α → κ) {heap : List α} (h : heap ≠ []) :
    ∃ x rest, popMin key heap = some (x, rest) := by
  obtain ⟨x, hx, hmin⟩ := exists_least key h
  have hsome : (heap.find? fun x => heap.all fun y => key x ≤ key y).isSome := by
    rw [List.find?_isSome]
    exact ⟨x, hx, by simpa using hmin⟩
  obtain ⟨y, hy⟩ := Option.isSome_iff_exists.mp hsome
  exact ⟨y, heap.erase y, by rw [popMin, hy]; rfl⟩

/-- The induction is on the number of pops: each keeps what the heap stands for. -/
theorem settle_spec (hr : Refreshes key judge heap) {fuel : Nat}
    (h : settle key judge fuel heap = some (x, rest)) : Settled key judge heap x rest := by
  induction fuel generalizing heap with
  | zero => cases h
  | succ fuel ih =>
    cases hp : popMin key heap with
    | none =>
      rw [settle, hp] at h
      cases h
    | some p =>
      obtain ⟨a, heap'⟩ := p
      obtain ⟨ha, hmin, rfl⟩ := popMin_spec hp
      rw [settle, hp] at h
      dsimp only at h
      cases hv : judge a with
      | stale =>
        rw [hv] at h
        refine (ih (hr.erase a) h).of_heap (fun y => represents_erase_of_stale hv) ?_
        exact fun z hz => .inl (List.mem_of_mem_erase hz)
      | outdated b =>
        rw [hv] at h
        refine (ih (hr.push ha hv) h).of_heap (fun y => represents_push_of_outdated hr ha hv) ?_
        intro z hz
        rcases List.mem_cons.mp hz with rfl | hz
        · exact .inr ⟨a, ha, refresh_of_outdated hv⟩
        · exact .inl (List.mem_of_mem_erase hz)
      | current =>
        rw [hv] at h
        cases h
        exact settled_of_current hr ha hmin hv

/-- A heap that stands for some entry has a result, after at most as many pops as its entries can
take. -/
theorem settle_isSome (hr : Refreshes key judge heap) {fuel : Nat}
    (hfuel : (heap.map (pops judge)).sum ≤ fuel) (h : Represents judge heap y) :
    ∃ x rest, settle key judge fuel heap = some (x, rest) := by
  have hne : heap ≠ [] := by
    obtain ⟨z, hz, -⟩ := h
    exact List.ne_nil_of_mem hz
  have hpos : 0 < heap.length := List.length_pos_iff.mpr hne
  induction fuel generalizing heap with
  | zero =>
    have := length_le_sum_pops judge heap
    omega
  | succ fuel ih =>
    obtain ⟨a, heap', hp⟩ := exists_popMin key hne
    obtain ⟨ha, -, rfl⟩ := popMin_spec hp
    have hsum := List.sum_map_erase (pops judge) ha
    rw [settle, hp]
    dsimp only
    cases hv : judge a with
    | stale =>
      have hone : pops judge a = 1 := by rw [pops, hv]
      have hrep := (represents_erase_of_stale hv).mpr h
      have hne' : heap.erase a ≠ [] := by
        obtain ⟨z, hz, -⟩ := hrep
        exact List.ne_nil_of_mem hz
      exact ih (hr.erase a) (by omega) hrep hne' (List.length_pos_iff.mpr hne')
    | outdated b =>
      have htwo : pops judge a = 2 := by rw [pops, hv]
      have hone : pops judge b = 1 := by rw [pops, hr.current ha hv]
      refine ih (hr.push ha hv) ?_ ((represents_push_of_outdated hr ha hv).mpr h)
        (List.cons_ne_nil _ _) (Nat.succ_pos _)
      rw [List.map_cons, List.sum_cons]
      omega
    | current => exact ⟨a, heap.erase a, rfl⟩

end LazyHeap

end Py
