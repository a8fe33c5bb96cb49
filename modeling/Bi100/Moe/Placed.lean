import Bi100.Lib.Segments
import Bi100.Moe.Pipeline

/-!
# Where the indices are placed

`Placed`: after some of the increments, an index is at the start of its expert's segment plus the
number of indices of the expert that were placed before it.
-/

namespace Bi100.Moe

open Py Segments

variable {ids order : List Nat} {numExperts e : Nat}

theorem read_ok {α : Type} {buffer : List α} {i : Nat} {x : α} (h : buffer[i]? = some x) :
    read buffer i = .ok x := by
  rw [read, h]
  rfl

theorem read_error {α : Type} {buffer : List α} {i : Nat} (h : buffer.length ≤ i) :
    read buffer i = .error .outOfBounds := by
  rw [read, List.getElem?_eq_none h]
  rfl

theorem write_ok {α : Type} {buffer : List α} {i : Nat} (x : α) (h : i < buffer.length) :
    write buffer i x = .ok (buffer.set i x) := if_pos h

theorem exclusiveScan_below (ids : List Nat) (e n : Nat) :
    exclusiveScan (below ids e) ((List.range' e n).map fun e => ids.count e) =
      (List.range' e n).map (below ids) := by
  induction n generalizing e with
  | zero => rfl
  | succ n ih =>
    rw [List.range'_succ, List.map_cons, List.map_cons, exclusiveScan, ← below_succ, ih]

/-- The buffers after the increments of `placed`. -/
structure Placed (ids : List Nat) (numExperts : Nat) (placed : List Nat) (p : Placement) : Prop where
  offsets_length : p.expertOffsets.length = numExperts
  srcDst_length : p.srcDst.length = ids.length
  dstSrc_length : p.dstSrc.length = ids.length
  offsets : ∀ e < numExperts, p.expertOffsets[e]? = some (below ids e + countAt ids placed e)
  at_place : ∀ pre idx post e, placed = pre ++ idx :: post → ids[idx]? = some e →
    p.srcDst[idx]? = some (below ids e + countAt ids pre e) ∧
      p.dstSrc[below ids e + countAt ids pre e]? = some idx

/-- Two indices that are placed one after the other have different places. -/
theorem place_ne {pre post : List Nat} {idx idx' : Nat} {e e' : Nat} (he : ids[idx]? = some e)
    (he' : ids[idx']? = some e')
    (hcount : ∀ e, countAt ids (pre ++ idx :: post ++ [idx']) e ≤ ids.count e) :
    below ids e + countAt ids pre e ≠ below ids e' + countAt ids (pre ++ idx :: post) e' := by
  have hfirst := hcount e
  have hlast := hcount e'
  rw [countAt_append, countAt_append, countAt_cons_self _ he] at hfirst
  rw [countAt_append, countAt_cons_self _ he'] at hlast
  rcases Nat.lt_trichotomy e e' with hlt | rfl | hlt
  · exact (segment_lt hlt (by omega)).ne
  · rw [countAt_append, countAt_cons_self _ he]
    omega
  · exact (segment_lt hlt (by omega)).ne'

/-- The places after one more increment. -/
theorem at_place_concat {β : Type} (f : Nat → β) {srcDst dstSrc : List β} {placed : List Nat}
    {idx : Nat} (hat : ∀ pre idx post e, placed = pre ++ idx :: post → ids[idx]? = some e →
      srcDst[idx]? = some (f (below ids e + countAt ids pre e)) ∧
        dstSrc[below ids e + countAt ids pre e]? = some (f idx))
    (hnodup : (placed ++ [idx]).Nodup)
    (hcount : ∀ e, countAt ids (placed ++ [idx]) e ≤ ids.count e) (he : ids[idx]? = some e)
    (hsrc : idx < srcDst.length) (hdst : below ids e + countAt ids placed e < dstSrc.length)
    {pre post : List Nat} {idx' e' : Nat} (hsplit : placed ++ [idx] = pre ++ idx' :: post)
    (he' : ids[idx']? = some e') :
    (srcDst.set idx (f (below ids e + countAt ids placed e)))[idx']? =
        some (f (below ids e' + countAt ids pre e')) ∧
      (dstSrc.set (below ids e + countAt ids placed e) (f idx))[below ids e' + countAt ids pre e']? =
        some (f idx') := by
  rcases List.eq_nil_or_concat post with rfl | ⟨post, last, rfl⟩
  · obtain ⟨rfl, hlast⟩ := List.append_inj' hsplit rfl
    obtain rfl := List.singleton_inj.mp hlast
    obtain rfl := Option.some.inj (he.symm.trans he')
    exact ⟨List.getElem?_set_self hsrc, List.getElem?_set_self hdst⟩
  · rw [List.concat_eq_append, ← List.cons_append, ← List.append_assoc] at hsplit
    obtain ⟨rfl, hlast⟩ := List.append_inj' hsplit rfl
    obtain rfl := List.singleton_inj.mp hlast
    obtain ⟨hsrcAt, hdstAt⟩ := hat pre idx' post e' rfl he'
    have hne : idx ≠ idx' := by
      rintro rfl
      rw [List.append_assoc] at hnodup
      have hmem := (List.nodup_append.mp hnodup).2.1
      rw [List.cons_append, List.nodup_cons] at hmem
      exact hmem.1 (List.mem_append_right _ (List.mem_singleton_self idx))
    have hplace := place_ne he' he hcount
    exact ⟨(List.getElem?_set_ne hne).trans hsrcAt, (List.getElem?_set_ne hplace.symm).trans hdstAt⟩

/-- The next place is in range. -/
theorem place_lt {placed : List Nat} {idx : Nat}
    (hcount : ∀ e, countAt ids (placed ++ [idx]) e ≤ ids.count e) (he : ids[idx]? = some e) :
    below ids e + countAt ids placed e < ids.length := by
  have h := hcount e
  have hsucc := below_succ ids e
  have hle := below_le ids (e + 1)
  rw [countAt_append, countAt_cons_self _ he] at h
  omega

/-- One increment. -/
theorem placeIndex_ok {placed : List Nat} {idx : Nat} {p : Placement}
    (hp : Placed ids numExperts placed p) (hids : ∀ id ∈ ids, id < numExperts)
    (hnodup : (placed ++ [idx]).Nodup) (hlt : ∀ i ∈ placed ++ [idx], i < ids.length) :
    ∃ p', placeIndex ids p idx = .ok p' ∧ Placed ids numExperts (placed ++ [idx]) p' := by
  have hidx : idx < ids.length := hlt idx (List.mem_append_right _ (List.mem_singleton_self idx))
  have he : ids[idx]? = some ids[idx] := List.getElem?_eq_getElem hidx
  generalize hid : ids[idx] = e at he
  have hE : e < numExperts := hid ▸ hids _ (List.getElem_mem hidx)
  have hcount := countAt_le hnodup hlt
  have hpos := place_lt hcount he
  have hsrc := hp.srcDst_length ▸ hidx
  have hdst := hp.dstSrc_length ▸ hpos
  refine ⟨_, bind_eq_ok.mpr ⟨e, read_ok he, bind_eq_ok.mpr ⟨_, read_ok (hp.offsets e hE),
    bind_eq_ok.mpr ⟨_, write_ok _ hsrc, bind_eq_ok.mpr ⟨_, write_ok _ hdst, rfl⟩⟩⟩⟩, ?_⟩
  refine ⟨(List.length_set ..).trans hp.offsets_length, (List.length_set ..).trans hp.srcDst_length,
    (List.length_set ..).trans hp.dstSrc_length, fun e' he' => ?_, fun pre idx' post e' hsplit he' =>
      at_place_concat id hp.at_place hnodup hcount he hsrc hdst hsplit he'⟩
  dsimp only
  by_cases heq : e = e'
  · subst heq
    rw [List.getElem?_set_self (hp.offsets_length ▸ he'), countAt_append, countAt_cons_self _ he]
    rfl
  · have hother : ¬ ids[idx]? = some e' := fun h => heq (Option.some.inj (he.symm.trans h))
    rw [List.getElem?_set_ne heq, hp.offsets e' he', countAt_append, countAt_cons_other _ hother]
    rfl

/-- All increments, in any order. -/
theorem placeIndices_ok {placed : List Nat} {p : Placement}
    (hp : Placed ids numExperts placed p) (hids : ∀ id ∈ ids, id < numExperts)
    (hnodup : (placed ++ order).Nodup) (hlt : ∀ i ∈ placed ++ order, i < ids.length) :
    ∃ p', placeIndices ids order p = .ok p' ∧ Placed ids numExperts (placed ++ order) p' := by
  induction order generalizing placed p with
  | nil => exact ⟨p, rfl, (List.append_nil placed).symm ▸ hp⟩
  | cons idx rest ih =>
    rw [← List.singleton_append, ← List.append_assoc] at hnodup hlt ⊢
    obtain ⟨p₁, hstep, hp₁⟩ := placeIndex_ok hp hids (List.nodup_append.mp hnodup).1
      fun i hi => hlt i (List.mem_append_left rest hi)
    obtain ⟨p₂, hrest, hp₂⟩ := ih hp₁ hnodup hlt
    exact ⟨p₂, bind_eq_ok.mpr ⟨p₁, hstep, hrest⟩, hp₂⟩

theorem moeGenIdx_ok (hids : ∀ id ∈ ids, id < numExperts)
    (horder : order.Perm (List.range ids.length)) :
    ∃ p, moeGenIdx ids numExperts order = .ok (p, histogramKernel ids numExperts) ∧
      Placed ids numExperts order p := by
  have hscan : exclusiveScan 0 (histogramKernel ids numExperts) =
      (List.range numExperts).map (below ids) := by
    have h := exclusiveScan_below ids 0 numExperts
    rw [below_zero] at h
    rw [histogramKernel, List.range_eq_range']
    exact h
  have hp : Placed ids numExperts [] ⟨exclusiveScan 0 (histogramKernel ids numExperts),
      List.replicate ids.length 0, List.replicate ids.length 0⟩ := by
    refine ⟨?_, List.length_replicate, List.length_replicate, fun e he => ?_,
      fun pre idx post e hsplit => absurd hsplit (by simp)⟩
    · rw [hscan, List.length_map, List.length_range]
    · dsimp only
      rw [hscan, List.getElem?_map, List.getElem?_range he]
      rfl
  obtain ⟨p, hrun, hplaced⟩ := placeIndices_ok hp hids
    (horder.nodup_iff.mpr List.nodup_range) fun i hi => List.mem_range.mp (horder.mem_iff.mp hi)
  exact ⟨p, bind_eq_ok.mpr ⟨p, hrun, rfl⟩, hplaced⟩

/-- The place of an index. -/
theorem Placed.exists_place {p : Placement} (hp : Placed ids numExperts order p)
    (horder : order.Perm (List.range ids.length)) {idx : Nat} (h : ids[idx]? = some e) :
    ∃ pre post, order = pre ++ idx :: post ∧
      p.dstSrc[below ids e + countAt ids pre e]? = some idx := by
  have hmem : idx ∈ order :=
    horder.mem_iff.mpr (List.mem_range.mpr (List.getElem?_eq_some_iff.mp h).1)
  obtain ⟨pre, post, hsplit⟩ := List.append_of_mem hmem
  exact ⟨pre, post, hsplit, (hp.at_place pre idx post e hsplit h).2⟩

end Bi100.Moe
