import Bi100.Mamba.Cache
import Bi100.Mamba.States
import Mathlib.Data.Finset.Card
import Mathlib.Data.List.Range
import Mathlib.Algebra.Order.Ring.Int

/-!
# The slots of the recurrent state cache

- `index?`, `livePairs`: where a sequence is, and the live sequences.
- `Inv`: every live sequence has its own slot, in range.
- The `*_run` lemmas: under `Inv`, what the operations on one slot do. They do not raise.
- `Assigned`: what one assignment of the batch loop does (`assignSeqId_run`).
-/

set_option linter.unusedSectionVars false

namespace Bi100.MambaCacheManager

open Py

variable {R Q S : Type} [DecidableEq R] [DecidableEq Q] [Zero S]

/-- The slot of a live sequence. -/
def index? (m : MambaCacheManager R Q S) (r : R) (q : Q) : Option Nat :=
  (m.mapping.get? r).bind fun d => d.get? q

/-- The live sequences. -/
def livePairs (m : MambaCacheManager R Q S) : List (R × Q) := m.items.map fun e => (e.1, e.2.1)

/-- The abstract map that the cache holds. -/
def states (m : MambaCacheManager R Q S) : SeqStates R Q S where
  first r := (m.mapping.get? r).bind fun d => d.keys.head?
  state r q := (m.index? r q).map m.slot

structure Inv (m : MambaCacheManager R Q S) : Prop where
  lt : ∀ r q i, m.index? r q = some i → i < m.maxBatchSize
  inj : ∀ r q r' q' i, m.index? r q = some i → m.index? r' q' = some i → r = r' ∧ q = q'
  nonempty : ∀ r d, m.mapping.get? r = some d → d.keys ≠ []

variable {m m' : MambaCacheManager R Q S}

/-! ## Live sequences and occupied slots -/

theorem mem_items {r : R} {q : Q} {i : Nat} : (r, q, i) ∈ m.items ↔ m.index? r q = some i := by
  simp only [items, List.mem_flatMap, List.mem_map, Prod.mk.injEq, index?, Option.bind_eq_some_iff]
  constructor
  · rintro ⟨⟨r', d⟩, hd, ⟨q', i'⟩, he, rfl, rfl, rfl⟩
    exact ⟨d, Dict.mem_entries.mp hd, Dict.mem_entries.mp he⟩
  · rintro ⟨d, hd, he⟩
    exact ⟨(r, d), Dict.mem_entries.mpr hd, (q, i), Dict.mem_entries.mpr he, rfl, rfl, rfl⟩

theorem mem_allOccupiedIndices {i : Nat} :
    i ∈ m.allOccupiedIndices ↔ ∃ r q, m.index? r q = some i := by
  simp only [allOccupiedIndices, List.mem_map, Prod.exists, mem_items]
  constructor
  · rintro ⟨r, q, j, h, rfl⟩; exact ⟨r, q, h⟩
  · rintro ⟨r, q, h⟩; exact ⟨r, q, i, h, rfl⟩

theorem mem_livePairs {r : R} {q : Q} : (r, q) ∈ m.livePairs ↔ ∃ i, m.index? r q = some i := by
  simp only [livePairs, List.mem_map, Prod.exists, mem_items, Prod.mk.injEq]
  constructor
  · rintro ⟨r', q', i, h, rfl, rfl⟩; exact ⟨i, h⟩
  · rintro ⟨i, h⟩; exact ⟨r, q, i, h, rfl, rfl⟩

theorem nodup_livePairs (m : MambaCacheManager R Q S) : m.livePairs.Nodup := by
  have hmap : m.livePairs =
      m.mapping.entries.flatMap fun p => p.2.keys.map fun q => (p.1, q) := by
    simp only [livePairs, items, List.map_flatMap, List.map_map, Dict.keys]
    rfl
  rw [hmap, List.nodup_flatMap]
  refine ⟨fun p _ => ?_, ?_⟩
  · exact (Dict.nodup_keys p.2).map fun a b h => (Prod.mk.inj h).2
  · refine (List.pairwise_map.mp m.mapping.nodup).imp ?_
    rintro ⟨r, d⟩ ⟨r', d'⟩ hne
    show List.Disjoint _ _
    rw [List.disjoint_left]
    intro x hx hx'
    obtain ⟨_, -, rfl⟩ := List.mem_map.mp hx
    obtain ⟨_, -, he⟩ := List.mem_map.mp hx'
    exact hne (Prod.mk.inj he).1.symm

theorem length_allOccupiedIndices (m : MambaCacheManager R Q S) :
    m.allOccupiedIndices.length = m.livePairs.length := by
  rw [allOccupiedIndices, livePairs, List.length_map, List.length_map]

/-- A new live sequence counts. -/
theorem length_livePairs_of_new {r : R} {q : Q} (hn : m.index? r q = none)
    (h : ∀ r' q', (r', q') ∈ m'.livePairs ↔ (r', q') ∈ m.livePairs ∨ (r', q') = (r, q)) :
    m'.livePairs.length = m.livePairs.length + 1 := by
  have hnd : ((r, q) :: m.livePairs).Nodup := by
    refine List.nodup_cons.mpr ⟨?_, nodup_livePairs m⟩
    rw [mem_livePairs, hn]
    simp
  have hperm : m'.livePairs.Perm ((r, q) :: m.livePairs) := by
    refine (List.perm_ext_iff_of_nodup (nodup_livePairs m') hnd).mpr ?_
    rintro ⟨r', q'⟩
    rw [h r' q', List.mem_cons, or_comm]
  rw [hperm.length_eq, List.length_cons]

/-! ## Operations on one slot -/

theorem zeroSlot_run {i : Nat} (hi : i < m.maxBatchSize) :
    (zeroSlot i).run m = .ok () { m with slot := Function.update m.slot i 0 } := by
  rw [zeroSlot, requireIndex]
  simp only [bind_assoc]
  rw [run_get_bind, run_raiseUnless_bind, if_pos hi]
  rfl

theorem requireIndex_run {i : Nat} (hi : i < m.maxBatchSize) :
    (requireIndex i).run m = .ok () m := by
  rw [requireIndex, run_get_bind, raiseUnless, if_pos hi]
  rfl

theorem copyMambaCache_run {i j : Nat} (hi : i < m.maxBatchSize) (hj : j < m.maxBatchSize) :
    (copyMambaCache i j).run m =
      .ok () { m with slot := Function.update m.slot j (m.slot i) } := by
  rw [copyMambaCache, run_bind_of_ok (requireIndex_run hi), run_bind_of_ok (requireIndex_run hj)]
  rfl

theorem swapMambaCache_run {i j : Nat} (hi : i < m.maxBatchSize) (hj : j < m.maxBatchSize) :
    (swapMambaCache i j).run m = .ok () { m with
      slot := Function.update (Function.update m.slot j (m.slot i)) i (m.slot j) } := by
  rw [swapMambaCache, run_bind_of_ok (requireIndex_run hi), run_bind_of_ok (requireIndex_run hj)]
  rfl

theorem updateMappingIndex_run (h : Inv m) {r : R} {q : Q} {i j : Nat}
    (hi : m.index? r q = some i) :
    (updateMappingIndex i j).run m = .ok () (m.setIndex r q j) := by
  rw [updateMappingIndex, run_get_bind]
  cases hf : m.items.find? (·.2.2 = i) with
  | none =>
    rw [List.find?_eq_none] at hf
    exact absurd (hf (r, q, i) (mem_items.mpr hi)) (by simp)
  | some e =>
    obtain ⟨r', q', i'⟩ := e
    have hi' : i' = i := by simpa using List.find?_some hf
    have hm := mem_items.mp (List.mem_of_find?_eq_some hf)
    obtain ⟨rfl, rfl⟩ := h.inj r q r' q' i hi (hi' ▸ hm)
    rfl

theorem firstFreeIndex_ok {l : List Nat} {i : Nat} (h : (firstFreeIndex l).run m = .ok i m') :
    m' = m ∧ i ∈ l ∧ i ∉ m.allOccupiedIndices := by
  rw [firstFreeIndex, run_get_bind, run_getOrRaise_ok] at h
  exact ⟨h.2, List.mem_of_find?_eq_some h.1, by simpa using List.find?_some h.1⟩

/-- `dest` is free, or its occupant has somewhere to go. -/
def CanClear (m : MambaCacheManager R Q S) (dest : Nat) : Prop :=
  dest ∈ m.allOccupiedIndices → ∃ f, (firstFreeIndex (List.range m.maxBatchSize)).run m = .ok f m

/-- With fewer live sequences than slots, a slot is free. -/
theorem firstFreeIndex_run (hl : m.livePairs.length < m.maxBatchSize) (dest : Nat) :
    CanClear m dest := by
  intro _
  cases hf : (List.range m.maxBatchSize).find? (· ∉ m.allOccupiedIndices) with
  | none =>
    exfalso
    rw [List.find?_eq_none] at hf
    have hsub : List.range m.maxBatchSize ⊆ m.allOccupiedIndices := by
      intro i hi
      simpa using hf i hi
    have hle := (List.nodup_range.subperm hsub).length_le
    rw [List.length_range, length_allOccupiedIndices] at hle
    omega
  | some i =>
    refine ⟨i, ?_⟩
    rw [firstFreeIndex, run_get_bind, hf]
    rfl

/-! ## The mapping -/

theorem index?_setIndex {r : R} {q : Q} {i : Nat} (r' : R) (q' : Q) :
    (m.setIndex r q i).index? r' q' =
      if r' = r ∧ q' = q then some i else m.index? r' q' := by
  simp only [index?, setIndex, Dict.get?_set]
  by_cases hr : r' = r
  · subst hr
    simp only [↓reduceIte, Option.bind_some, Dict.get?_set, true_and]
    split
    · rfl
    · cases m.mapping.get? r' <;> rfl
  · simp [hr]

theorem first_setIndex {r : R} {q : Q} {i : Nat} {d : Dict Q Nat}
    (hd : m.mapping.get? r = some d) (hne : d.keys ≠ []) (r' : R) :
    (((m.setIndex r q i).mapping.get? r').bind fun d => d.keys.head?) =
      (m.mapping.get? r').bind fun d => d.keys.head? := by
  simp only [setIndex, Dict.get?_set]
  by_cases hr : r' = r
  · subst hr
    rw [if_pos rfl, hd, Option.getD_some, Option.bind_some, Option.bind_some]
    by_cases hq : q ∈ d
    · rw [Dict.keys_set_of_mem hq]
    · rw [Dict.keys_set_of_not_mem hq, List.head?_append_of_ne_nil _ hne]
  · rw [if_neg hr]

theorem nonempty_setIndex (h : Inv m) {r : R} {q : Q} {i : Nat} (r' : R) (d : Dict Q Nat)
    (hd : (m.setIndex r q i).mapping.get? r' = some d) : d.keys ≠ [] := by
  rw [setIndex, Dict.get?_set] at hd
  split at hd
  · obtain rfl := Option.some.inj hd
    exact List.ne_nil_of_mem (Dict.mem_def.mp (Dict.mem_set.mpr (.inl rfl)))
  · exact h.nonempty r' d hd

/-- The index after the swap of `i` and `j`. -/
def swapIndex (i j k : Nat) : Nat := if i = k then j else if j = k then i else k

theorem swapIndex_inj {i j k k' : Nat} (h : swapIndex i j k = swapIndex i j k') : k = k' := by
  unfold swapIndex at h
  split_ifs at h <;> omega

/-- The state in which every sequence's index is renamed by a swap. -/
def swapped (m : MambaCacheManager R Q S) (i j : Nat) : MambaCacheManager R Q S :=
  { m with
    slot := Function.update (Function.update m.slot j (m.slot i)) i (m.slot j)
    mapping := m.mapping.mapValues fun d => d.mapValues (swapIndex i j) }

theorem swapPair_run {i j : Nat} (hi : i < m.maxBatchSize) (hj : j < m.maxBatchSize) :
    (swapPairIndicesAndMappings i j).run m = .ok () (m.swapped i j) := by
  rw [swapPairIndicesAndMappings, run_bind_of_ok (swapMambaCache_run hi hj)]
  rfl

theorem index?_swapped (i j : Nat) (r : R) (q : Q) :
    (m.swapped i j).index? r q = (m.index? r q).map (swapIndex i j) := by
  simp only [index?, swapped, Dict.get?_mapValues]
  cases m.mapping.get? r with
  | none => rfl
  | some d => simp

/-! ## One assignment -/

theorem index?_eq_none_of_new {r : R} (hn : m.mapping.get? r = none) (q : Q) :
    m.index? r q = none := by
  rw [index?, hn]; rfl

/-- The outcome of moving the occupant out of slot `dest`: it is elsewhere, the rest is in place. -/
structure MovedOut (m m' : MambaCacheManager R Q S) (dest : Nat) : Prop where
  inv : Inv m'
  size : m'.maxBatchSize = m.maxBatchSize
  free : dest ∉ m'.allOccupiedIndices
  known : ∀ r, m'.mapping.get? r = none ↔ m.mapping.get? r = none
  live : ∀ r q, m'.index? r q = none ↔ m.index? r q = none
  keep : ∀ r q i, m.index? r q = some i → i ≠ dest → m'.index? r q = some i
  states : m'.states = m.states

theorem moveOut_run (h : Inv m) {dest : Nat} (hd : dest < m.maxBatchSize)
    (hl : CanClear m dest) :
    ∃ m', (moveOutIfAlreadyOccupied dest m.allOccupiedIndices).run m = .ok () m' ∧
      MovedOut m m' dest := by
  by_cases hocc : dest ∈ m.allOccupiedIndices
  · obtain ⟨r, q, hrq⟩ := mem_allOccupiedIndices.mp hocc
    obtain ⟨f, hrun⟩ := hl hocc
    obtain ⟨-, hf, hfree⟩ := firstFreeIndex_ok hrun
    rw [List.mem_range] at hf
    have hfd : f ≠ dest := fun he => hfree (he ▸ hocc)
    let m₁ : MambaCacheManager R Q S := { m with slot := Function.update m.slot f (m.slot dest) }
    have hinv₁ : Inv m₁ := ⟨h.lt, h.inj, h.nonempty⟩
    have hidx : ∀ r' q', (m₁.setIndex r q f).index? r' q' =
        if r' = r ∧ q' = q then some f else m.index? r' q' := index?_setIndex
    have hother : ∀ r' q' i, m.index? r' q' = some i → ¬ (r' = r ∧ q' = q) → i ≠ dest := by
      rintro r' q' i hi hne rfl
      obtain ⟨h₁, h₂⟩ := h.inj r q r' q' _ hrq hi
      exact hne ⟨h₁.symm, h₂.symm⟩
    have hnf : ∀ r' q' i, m.index? r' q' = some i → i ≠ f := by
      rintro r' q' i hi rfl
      exact hfree (mem_allOccupiedIndices.mpr ⟨r', q', hi⟩)
    refine ⟨m₁.setIndex r q f, ?_, ?_⟩
    · rw [moveOutIfAlreadyOccupied, if_pos hocc, run_get_bind, run_bind_of_ok hrun,
        moveCacheIndexAndMappings, run_bind_of_ok (copyMambaCache_run hd hf)]
      exact updateMappingIndex_run hinv₁ hrq
    · refine ⟨⟨fun r' q' i hi => ?_, fun r₁ q₁ r₂ q₂ i h₁ h₂ => ?_, nonempty_setIndex hinv₁⟩, rfl,
        ?_, fun r' => ?_, fun r' q' => ?_, fun r' q' i hi hne => ?_, ?_⟩
      · rw [hidx] at hi
        split at hi
        · exact Option.some.inj hi ▸ hf
        · exact h.lt r' q' i hi
      · rw [hidx] at h₁ h₂
        split at h₁ <;> split at h₂
        · next e₁ e₂ => exact ⟨e₁.1.trans e₂.1.symm, e₁.2.trans e₂.2.symm⟩
        · exact absurd (Option.some.inj h₁).symm (hnf r₂ q₂ i h₂)
        · exact absurd (Option.some.inj h₂).symm (hnf r₁ q₁ i h₁)
        · exact h.inj r₁ q₁ r₂ q₂ i h₁ h₂
      · rw [mem_allOccupiedIndices]
        rintro ⟨r', q', hi⟩
        rw [hidx] at hi
        split at hi
        · exact hfd (Option.some.inj hi)
        · next hne => exact hother r' q' dest hi hne rfl
      · obtain ⟨d, hd', -⟩ := Option.bind_eq_some_iff.mp hrq
        simp only [setIndex, Dict.get?_set, m₁]
        by_cases hr : r' = r
        · subst hr
          rw [if_pos rfl, hd']
          simp
        · rw [if_neg hr]
      · rw [hidx]
        split
        · next he =>
          obtain ⟨rfl, rfl⟩ := he
          rw [hrq]
          simp
        · exact Iff.rfl
      · rw [hidx, if_neg]
        · exact hi
        · rintro ⟨rfl, rfl⟩
          exact hne (Option.some.inj (hi.symm.trans hrq))
      · obtain ⟨d, hd', -⟩ := Option.bind_eq_some_iff.mp hrq
        ext1
        · funext r'
          exact first_setIndex (m := m₁) hd' (h.nonempty r d hd') r'
        · funext r' q'
          simp only [MambaCacheManager.states, hidx]
          split
          · next he =>
            obtain ⟨rfl, rfl⟩ := he
            simp [setIndex, m₁, hrq]
          · cases hi : m.index? r' q' with
            | none => rfl
            | some i => simp [setIndex, m₁, hnf r' q' i hi]
  · refine ⟨m, ?_, h, rfl, hocc, fun _ => Iff.rfl, fun _ _ => Iff.rfl, fun _ _ _ hi _ => hi, rfl⟩
    rw [moveOutIfAlreadyOccupied, if_neg hocc]
    rfl

/-- The outcome of assigning `(r, q)` to slot `dest`. -/
structure Assigned (m m' : MambaCacheManager R Q S) (r : R) (q : Q) (dest : Nat) : Prop where
  inv : Inv m'
  size : m'.maxBatchSize = m.maxBatchSize
  here : m'.index? r q = some dest
  live : ∀ r' q', (r', q') ∈ m'.livePairs ↔ (r', q') ∈ m.livePairs ∨ (r', q') = (r, q)
  keep : ∀ r' q' i, m.index? r' q' = some i → i ≠ dest → (r', q') ≠ (r, q) →
    m'.index? r' q' = some i
  states : m'.states = m.states.assign r q

/-- Placing a new sequence with state `s` in the free slot `dest`. -/
theorem Assigned.of_new {m₁ : MambaCacheManager R Q S} {r : R} {q : Q} {dest : Nat} {s : S}
    (hd : dest < m.maxBatchSize) (hm : MovedOut m m₁ dest) (hn : m.index? r q = none)
    (hsize : m'.maxBatchSize = m₁.maxBatchSize) (hslot : m'.slot = Function.update m₁.slot dest s)
    (hidx : ∀ r' q', m'.index? r' q' = if r' = r ∧ q' = q then some dest else m₁.index? r' q')
    (hne : ∀ r' d, m'.mapping.get? r' = some d → d.keys ≠ [])
    (hfirst : m'.states.first = (m.states.assign r q).first) (hs : s = m.states.start r) :
    Assigned m m' r q dest := by
  have hfree : ∀ r' q' i, m₁.index? r' q' = some i → i ≠ dest := by
    rintro r' q' i hi rfl
    exact hm.free (mem_allOccupiedIndices.mpr ⟨r', q', hi⟩)
  refine ⟨⟨fun r' q' i hi => ?_, fun r₁ q₁ r₂ q₂ i h₁ h₂ => ?_, hne⟩, hsize.trans hm.size, ?_,
    fun r' q' => ?_, fun r' q' i hi hne' hpair => ?_, ?_⟩
  · rw [hidx] at hi
    rw [hsize]
    split at hi
    · rw [← Option.some.inj hi, hm.size]
      exact hd
    · exact hm.inv.lt r' q' i hi
  · rw [hidx] at h₁ h₂
    split at h₁ <;> split at h₂
    · next e₁ e₂ => exact ⟨e₁.1.trans e₂.1.symm, e₁.2.trans e₂.2.symm⟩
    · exact absurd (Option.some.inj h₁).symm (hfree r₂ q₂ i h₂)
    · exact absurd (Option.some.inj h₂).symm (hfree r₁ q₁ i h₁)
    · exact hm.inv.inj r₁ q₁ r₂ q₂ i h₁ h₂
  · rw [hidx, if_pos ⟨rfl, rfl⟩]
  · rw [mem_livePairs, mem_livePairs, hidx]
    by_cases he : r' = r ∧ q' = q
    · simp [he]
    · have hlive := hm.live r' q'
      simp only [he, ↓reduceIte, Prod.mk.injEq, or_false]
      rw [← Option.isSome_iff_exists, ← Option.isSome_iff_exists, Option.isSome_iff_ne_none,
        Option.isSome_iff_ne_none, ne_eq, ne_eq, hlive]
  · rw [hidx, if_neg fun he => hpair (Prod.ext he.1 he.2)]
    exact hm.keep r' q' i hi hne'
  · ext1
    · exact hfirst
    · funext r' q'
      have hstate : m₁.states.state r' q' = m.states.state r' q' := by rw [hm.states]
      have hnone : m.states.state r q = none := by simp [MambaCacheManager.states, hn]
      simp only [SeqStates.assign, hnone, Option.getD_none, ← hs]
      simp only [MambaCacheManager.states, hidx, hslot] at hstate ⊢
      split
      · simp
      · rw [← hstate]
        cases hi : m₁.index? r' q' with
        | none => rfl
        | some i => simp [hfree r' q' i hi]

theorem assignNewRequest_run (h : Inv m) {r : R} {q : Q} {dest : Nat} (hd : dest < m.maxBatchSize)
    (hl : CanClear m dest) (hn : m.mapping.get? r = none) :
    ∃ m', (assignNewRequest r q dest).run m = .ok () m' ∧ Assigned m m' r q dest := by
  obtain ⟨m₁, hrun, hm⟩ := moveOut_run h hd hl
  have hd₁ : dest < m₁.maxBatchSize := hm.size ▸ hd
  have hn₁ : m₁.mapping.get? r = none := (hm.known r).mpr hn
  have hone : (∅ : Dict Q Nat).set q dest = ⟨[(q, dest)], by simp⟩ := rfl
  refine ⟨{ m₁ with
      slot := Function.update m₁.slot dest 0
      mapping := m₁.mapping.set r ((∅ : Dict Q Nat).set q dest) }, ?_, ?_⟩
  · rw [assignNewRequest, run_get_bind, run_bind_of_ok hrun, run_bind_of_ok (zeroSlot_run hd₁)]
    rfl
  · refine .of_new (s := 0) hd hm (index?_eq_none_of_new hn q) rfl rfl (fun r' q' => ?_)
      (fun r' d hd' => ?_) ?_ ?_
    · simp only [index?, Dict.get?_set]
      by_cases hr : r' = r
      · subst hr
        simp [hn₁, Dict.get?_set]
      · simp [hr]
    · rw [Dict.get?_set] at hd'
      split at hd'
      · obtain rfl := Option.some.inj hd'
        simp [hone, Dict.keys]
      · exact hm.inv.nonempty r' d hd'
    · funext r'
      have hf : m₁.states.first r' = m.states.first r' := by rw [hm.states]
      simp only [SeqStates.assign, MambaCacheManager.states, Dict.get?_set] at hf ⊢
      by_cases hr : r' = r
      · subst hr
        simp [hn, hone, Dict.keys]
      · simp only [hr, ↓reduceIte, hf]
    · simp [SeqStates.start, MambaCacheManager.states, hn]

theorem assignSibling_run (h : Inv m) {r : R} {q : Q} {dest : Nat} {d : Dict Q Nat}
    (hd : dest < m.maxBatchSize) (hl : CanClear m dest)
    (hr : m.mapping.get? r = some d) (hn : d.get? q = none) :
    ∃ m', (assignSibling r q dest).run m = .ok () m' ∧ Assigned m m' r q dest := by
  obtain ⟨m₁, hrun, hm⟩ := moveOut_run h hd hl
  have hd₁ : dest < m₁.maxBatchSize := hm.size ▸ hd
  -- the request's first sequence, and where it is after the move
  obtain ⟨d₁, hr₁⟩ : ∃ d₁, m₁.mapping.get? r = some d₁ := by
    rw [← Option.ne_none_iff_exists', ne_eq, hm.known r, hr]
    simp
  obtain ⟨⟨q₀, i₀⟩, rest, hcons⟩ := List.exists_cons_of_ne_nil
    (show d₁.entries ≠ [] from fun he => hm.inv.nonempty r d₁ hr₁ (by simp [Dict.keys, he]))
  have hi₀ : m₁.index? r q₀ = some i₀ := by
    rw [index?, hr₁, Option.bind_some, ← Dict.mem_entries, hcons]
    exact List.mem_cons_self
  have hval : ((m₁.mapping.get? r).getD ∅).values.head? = some i₀ := by
    simp [hr₁, Dict.values, hcons]
  have hnone : m.index? r q = none := by rw [index?, hr]; exact hn
  refine ⟨{ m₁ with slot := Function.update m₁.slot dest (m₁.slot i₀) }.setIndex r q dest, ?_, ?_⟩
  · rw [assignSibling, run_get_bind, run_bind_of_ok hrun, run_get_bind, hval, getOrRaise,
      pure_bind, run_bind_of_ok (copyMambaCache_run (hm.inv.lt r q₀ i₀ hi₀) hd₁)]
    rfl
  · have hstart : m₁.slot i₀ = m.states.start r := by
      rw [← hm.states]
      simp [SeqStates.start, MambaCacheManager.states, hr₁, Dict.keys, hcons, hi₀]
    refine .of_new (s := m₁.slot i₀) hd hm hnone rfl rfl index?_setIndex
      (nonempty_setIndex ⟨hm.inv.lt, hm.inv.inj, hm.inv.nonempty⟩) ?_ hstart
    funext r'
    have hf : m₁.states.first r' = m.states.first r' := by rw [hm.states]
    have hset := first_setIndex (m := { m₁ with
      slot := Function.update m₁.slot dest (m₁.slot i₀) }) (q := q) (i := dest) hr₁
      (hm.inv.nonempty r d₁ hr₁) r'
    refine hset.trans (hf.trans ?_)
    simp only [SeqStates.assign]
    by_cases he : r' = r
    · subst he
      rw [if_pos rfl, ← hf]
      simp [MambaCacheManager.states, hr₁, Dict.keys, hcons]
    · rw [if_neg he]

theorem assignSwap_run (h : Inv m) {r : R} {q : Q} {i dest : Nat} (hd : dest < m.maxBatchSize)
    (hi : m.index? r q = some i) :
    ∃ m', (swapPairIndicesAndMappings i dest).run m = .ok () m' ∧ Assigned m m' r q dest := by
  have hlt := h.lt r q i hi
  have hidx := index?_swapped (m := m) i dest
  refine ⟨m.swapped i dest, swapPair_run hlt hd, ⟨fun r' q' j hj => ?_,
    fun r₁ q₁ r₂ q₂ j h₁ h₂ => ?_, fun r' d hd' => ?_⟩, rfl, ?_, fun r' q' => ?_,
    fun r' q' j hj hne hpair => ?_, ?_⟩
  · rw [hidx] at hj
    obtain ⟨k, hk, rfl⟩ := Option.map_eq_some_iff.mp hj
    have := h.lt r' q' k hk
    simp only [swapped, swapIndex]
    split_ifs
    · exact hd
    · exact hlt
    · exact this
  · rw [hidx] at h₁ h₂
    obtain ⟨k₁, hk₁, rfl⟩ := Option.map_eq_some_iff.mp h₁
    obtain ⟨k₂, hk₂, heq⟩ := Option.map_eq_some_iff.mp h₂
    obtain rfl := swapIndex_inj heq
    exact h.inj r₁ q₁ r₂ q₂ k₂ hk₁ hk₂
  · simp only [swapped, Dict.get?_mapValues, Option.map_eq_some_iff] at hd'
    obtain ⟨d₀, hd₀, rfl⟩ := hd'
    rw [Dict.keys_mapValues]
    exact h.nonempty r' d₀ hd₀
  · rw [hidx, hi]
    simp [swapIndex]
  · rw [mem_livePairs, mem_livePairs, hidx]
    by_cases he : r' = r ∧ q' = q
    · obtain ⟨rfl, rfl⟩ := he
      simp [hi]
    · simp [he]
  · have hji : j ≠ i := by
      rintro rfl
      obtain ⟨rfl, rfl⟩ := h.inj r' q' r q j hj hi
      exact hpair rfl
    rw [hidx, hj, Option.map_some, swapIndex, if_neg (Ne.symm hji), if_neg (Ne.symm hne)]
  · ext1
    · funext r'
      simp only [SeqStates.assign, MambaCacheManager.states, swapped, Dict.get?_mapValues]
      have hsame : ((m.mapping.get? r').map fun d => d.mapValues (swapIndex i dest)).bind
          (fun d => d.keys.head?) = (m.mapping.get? r').bind fun d => d.keys.head? := by
        cases m.mapping.get? r' <;> simp
      rw [hsame]
      by_cases hr : r' = r
      · subst hr
        obtain ⟨d, hd', -⟩ := Option.bind_eq_some_iff.mp hi
        obtain ⟨q₀, ks, hks⟩ := List.exists_cons_of_ne_nil (h.nonempty r' d hd')
        simp [hd', hks]
      · simp [hr]
    · funext r' q'
      simp only [SeqStates.assign, MambaCacheManager.states, hidx, hi]
      by_cases he : r' = r ∧ q' = q
      · obtain ⟨rfl, rfl⟩ := he
        simp only [hi, Option.map_some, and_self, ↓reduceIte, Option.getD_some, swapIndex, swapped]
        by_cases hid : dest = i
        · simp [hid]
        · simp [hid]
      · rw [if_neg he]
        cases hk : m.index? r' q' with
        | none => rfl
        | some k =>
          have hki : i ≠ k := by
            rintro rfl
            obtain ⟨rfl, rfl⟩ := h.inj r' q' r q i hk hi
            exact he ⟨rfl, rfl⟩
          simp only [Option.map_some, Option.some.injEq, swapIndex, swapped, if_neg hki]
          split
          · next hdk => simp [hdk]
          · next hdk => simp [Ne.symm hki, Ne.symm hdk]

/-- One iteration of the batch loop does not raise while a new sequence finds a free slot. -/
theorem assignSeqId_run (h : Inv m) {r : R} {q : Q} {dest : Nat} (hd : dest < m.maxBatchSize)
    (hl : m.index? r q = none → CanClear m dest) :
    ∃ m', (assignSeqId r q dest).run m = .ok () m' ∧ Assigned m m' r q dest := by
  rw [assignSeqId, run_get_bind]
  split
  · next hn => exact assignNewRequest_run h hd (hl (index?_eq_none_of_new hn q)) hn
  · next d hr =>
    split
    · next hn => exact assignSibling_run h hd (hl (by rw [index?, hr]; exact hn)) hr hn
    · next i hi =>
      have hidx : m.index? r q = some i := by rw [index?, hr]; exact hi
      by_cases hne : i = dest
      · subst hne
        refine ⟨m, by rw [if_neg (by simp)]; rfl, h, rfl, hidx, fun r' q' => ?_,
          fun _ _ _ hj _ _ => hj, ?_⟩
        · refine ⟨.inl, fun h => h.elim id fun he => ?_⟩
          obtain ⟨rfl, rfl⟩ := Prod.mk.inj he
          exact mem_livePairs.mpr ⟨_, hidx⟩
        · obtain ⟨q₀, ks, hks⟩ := List.exists_cons_of_ne_nil (h.nonempty r d hr)
          ext1
          · funext r'
            simp only [SeqStates.assign, MambaCacheManager.states]
            split
            · next he => subst he; simp [hr, hks]
            · rfl
          · funext r' q'
            simp only [SeqStates.assign, MambaCacheManager.states]
            split
            · next he => obtain ⟨rfl, rfl⟩ := he; simp [hidx]
            · rfl
      · rw [if_pos hne]
        exact assignSwap_run h hd hidx

/-! ## Successful assignments -/

theorem requireIndex_ok {i : Nat} {u : Unit} (h : (requireIndex i).run m = .ok u m') :
    i < m.maxBatchSize ∧ m' = m := by
  rwa [requireIndex, run_get_bind, run_raiseUnless_ok] at h

theorem moveOut_ok {dest : Nat} {u : Unit}
    (h : (moveOutIfAlreadyOccupied dest m.allOccupiedIndices).run m = .ok u m') :
    CanClear m dest ∧ m'.maxBatchSize = m.maxBatchSize := by
  rw [moveOutIfAlreadyOccupied] at h
  split at h
  · rw [run_get_bind, run_bind_ok] at h
    obtain ⟨f, m₁, hf, h⟩ := h
    obtain ⟨rfl, -, -⟩ := firstFreeIndex_ok hf
    rw [moveCacheIndexAndMappings, run_bind_ok] at h
    obtain ⟨_, m₂, hcopy, h⟩ := h
    rw [copyMambaCache, run_bind_ok] at hcopy
    obtain ⟨_, m₃, h₃, hcopy⟩ := hcopy
    obtain ⟨-, rfl⟩ := requireIndex_ok h₃
    rw [run_bind_ok] at hcopy
    obtain ⟨_, m₄, h₄, hcopy⟩ := hcopy
    obtain ⟨-, rfl⟩ := requireIndex_ok h₄
    obtain rfl := run_modify_ok.mp hcopy
    refine ⟨fun _ => ⟨f, hf⟩, ?_⟩
    rw [updateMappingIndex, run_get_bind] at h
    split at h
    · rw [run_set_ok.mp h]
      rfl
    · rw [(run_pure_ok.mp h).2]
  · next hn =>
    obtain ⟨-, rfl⟩ := run_pure_ok.mp h
    exact ⟨fun hm => absurd hm hn, rfl⟩

/-- An assignment that does not raise does what it should. -/
theorem assignSeqId_ok (h : Inv m) {r : R} {q : Q} {dest : Nat} {u : Unit}
    (hrun : (assignSeqId r q dest).run m = .ok u m') : Assigned m m' r q dest := by
  suffices hpre : dest < m.maxBatchSize ∧ (m.index? r q = none → CanClear m dest) by
    obtain ⟨m₁, hrun₁, ha⟩ := assignSeqId_run h (r := r) (q := q) hpre.1 hpre.2
    obtain ⟨-, rfl⟩ := EStateM.Result.ok.inj (hrun.symm.trans hrun₁)
    exact ha
  rw [assignSeqId, run_get_bind] at hrun
  split at hrun
  · rw [assignNewRequest, run_get_bind, run_bind_ok] at hrun
    obtain ⟨_, m₁, hmove, hrun⟩ := hrun
    obtain ⟨hclear, hsize⟩ := moveOut_ok hmove
    rw [run_bind_ok] at hrun
    obtain ⟨_, m₂, hzero, -⟩ := hrun
    rw [zeroSlot, run_bind_ok] at hzero
    obtain ⟨_, m₃, hreq, -⟩ := hzero
    exact ⟨hsize ▸ (requireIndex_ok hreq).1, fun _ => hclear⟩
  · next d hr =>
    split at hrun
    · rw [assignSibling, run_get_bind, run_bind_ok] at hrun
      obtain ⟨_, m₁, hmove, hrun⟩ := hrun
      obtain ⟨hclear, hsize⟩ := moveOut_ok hmove
      rw [run_get_bind, run_bind_ok] at hrun
      obtain ⟨i, m₂, hget, hrun⟩ := hrun
      obtain ⟨-, rfl⟩ := run_getOrRaise_ok.mp hget
      rw [run_bind_ok] at hrun
      obtain ⟨_, m₃, hcopy, -⟩ := hrun
      rw [copyMambaCache, run_bind_ok] at hcopy
      obtain ⟨_, m₄, h₄, hcopy⟩ := hcopy
      obtain ⟨-, rfl⟩ := requireIndex_ok h₄
      rw [run_bind_ok] at hcopy
      obtain ⟨_, m₅, h₅, -⟩ := hcopy
      exact ⟨hsize ▸ (requireIndex_ok h₅).1, fun _ => hclear⟩
    · next i hi =>
      have hidx : m.index? r q = some i := by rw [index?, hr]; exact hi
      refine ⟨?_, fun hn => by rw [hidx] at hn; cases hn⟩
      split at hrun
      · rw [swapPairIndicesAndMappings, run_bind_ok] at hrun
        obtain ⟨_, m₁, hswap, -⟩ := hrun
        rw [swapMambaCache, run_bind_ok] at hswap
        obtain ⟨_, m₂, h₂, hswap⟩ := hswap
        obtain ⟨-, rfl⟩ := requireIndex_ok h₂
        rw [run_bind_ok] at hswap
        obtain ⟨_, m₃, h₃, -⟩ := hswap
        exact (requireIndex_ok h₃).1
      · next hne => exact not_not.mp hne ▸ h.lt r q i hidx

end Bi100.MambaCacheManager
