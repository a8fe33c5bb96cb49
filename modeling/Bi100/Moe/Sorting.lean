import Bi100.Moe.Grouped
import Bi100.Moe.Correct

/-!
# The index sorts the assignments

- `Sorts`: an index puts the expert ids in order.
- `moeComputeIndex_sorts`: for every order of the increments, and whatever the buffers hold before.
- `argsortIndex_sorts`: the stable sort.
-/

namespace Bi100.Moe

open Py Segments

variable {ids order : List Nat} {numExperts : Nat} {α β : Type}

/-- An index that puts the ids in order, and the sizes. -/
structure Sorts (ids : List Nat) (numExperts : Nat) (index : List Nat × List Nat) : Prop where
  perm : index.1.Perm (List.range ids.length)
  keys : (index.1.map fun i => ids.getD i 0) = byKey ids numExperts
  sizes : index.2 = histogramKernel ids numExperts

theorem map_getD_range (ids : List Nat) :
    ((List.range ids.length).map fun i => ids.getD i 0) = ids := by
  refine List.ext_getElem (by simp) fun i _ hi => ?_
  simp [hi]

/-- An order of the indices that is sorted by the ids. -/
theorem Sorts.of_pairwise (hids : ∀ id ∈ ids, id < numExperts)
    (hperm : order.Perm (List.range ids.length))
    (hs : (order.map fun i => ids.getD i 0).Pairwise (· ≤ ·)) :
    Sorts ids numExperts (order, histogramKernel ids numExperts) := by
  refine ⟨hperm, ?_, rfl⟩
  have hkeys : (order.map fun i => ids.getD i 0).Perm (byKey ids numExperts) := by
    refine (hperm.map _).trans ?_
    rw [map_getD_range]
    exact (byKey_perm hids).symm
  exact hkeys.eq_of_pairwise (fun _ _ _ _ => Nat.le_antisymm) hs byKey_sorted

theorem argsortIndex_sorts (hids : ∀ id ∈ ids, id < numExperts) :
    Sorts ids numExperts (argsortIndex ids numExperts) := by
  refine Sorts.of_pairwise hids (List.mergeSort_perm _ _) ?_
  refine List.pairwise_map.mpr ((List.pairwise_mergeSort (fun i j k hij hjk => ?_)
    (fun i j => ?_) _).imp fun h => of_decide_eq_true h)
  · exact decide_eq_true ((of_decide_eq_true hij).trans (of_decide_eq_true hjk))
  · rw [Bool.or_eq_true, decide_eq_true_iff, decide_eq_true_iff]
    exact Nat.le_total _ _

/-! ## `moe_compute_index` -/

/-- Places in order have experts in order. -/
theorem Placed.sorted {p : Placement} (hp : Placed ids numExperts order p)
    (horder : order.Perm (List.range ids.length)) :
    (p.dstSrc.map fun i => ids.getD i 0).Pairwise (· ≤ ·) := by
  have hperm := hp.perm horder
  have hnodup : p.dstSrc.Nodup := hperm.nodup_iff.mpr List.nodup_range
  have hplace : ∀ i (hi : i < p.dstSrc.length), ∃ c < ids.count (ids.getD p.dstSrc[i] 0),
      i = below ids (ids.getD p.dstSrc[i] 0) + c := by
    intro i hi
    have hlt : p.dstSrc[i] < ids.length :=
      List.mem_range.mp (hperm.mem_iff.mp (List.getElem_mem hi))
    have he : ids[p.dstSrc[i]]? = some (ids.getD p.dstSrc[i] 0) := by simp [hlt]
    obtain ⟨pre, post, hsplit, hat⟩ := hp.exists_place horder he
    have hcount := countAt_le (horder.nodup_iff.mpr List.nodup_range)
      (fun j hj => List.mem_range.mp (horder.mem_iff.mp hj)) (ids.getD p.dstSrc[i] 0)
    rw [hsplit, countAt_append, countAt_cons_self _ he] at hcount
    refine ⟨countAt ids pre (ids.getD p.dstSrc[i] 0), by omega, ?_⟩
    obtain ⟨hj, heq⟩ := List.getElem?_eq_some_iff.mp hat
    exact ((hnodup.getElem_inj_iff).mp heq).symm
  refine List.pairwise_map.mpr (List.pairwise_iff_getElem.mpr fun i j hi hj hij => ?_)
  obtain ⟨c, hc, hplacei⟩ := hplace i hi
  obtain ⟨c', hc', hplacej⟩ := hplace j hj
  by_contra hgt
  have hseg : below ids (ids.getD p.dstSrc[j] 0) + c' < below ids (ids.getD p.dstSrc[i] 0) + c :=
    segment_lt (Nat.lt_of_not_le hgt) hc'
  omega

theorem moePrefixSum_eq (ids : List Nat) {uninit : List Nat} (hE : numExperts ≤ kMoeIndexBlock)
    (hlen : uninit.length = numExperts) :
    moePrefixSum (histogramKernel ids numExperts) uninit =
      (List.range numExperts).map (below ids) := by
  have hsizes : (histogramKernel ids numExperts).take kMoeIndexBlock =
      histogramKernel ids numExperts := List.take_of_length_le (by simp [histogramKernel, hE])
  have hscan := exclusiveScan_below ids 0 numExperts
  rw [below_zero, ← List.range_eq_range'] at hscan
  rw [moePrefixSum, hsizes, List.drop_eq_nil_of_le (by omega), List.append_nil]
  exact hscan

/-- **The order of the increments does not matter.** -/
theorem moeComputeIndex_sorts (hids : ∀ id ∈ ids, id < numExperts)
    (hE : numExperts ≤ kMoeIndexBlock) (launch : Launch ids.length numExperts) :
    ∃ index, moeComputeIndex ids numExperts launch = .ok index ∧ Sorts ids numExperts index := by
  have hoffsets := moePrefixSum_eq ids hE launch.offsets_length
  have hinit : Placed ids numExperts [] ⟨moePrefixSum (histogramKernel ids numExperts)
      launch.uninit.expertOffsets, launch.uninit.srcDst, launch.uninit.dstSrc⟩ := by
    refine ⟨?_, launch.srcDst_length, launch.dstSrc_length, fun e he => ?_,
      fun pre idx post e hsplit => absurd hsplit (by simp)⟩
    · rw [hoffsets, List.length_map, List.length_range]
    · rw [hoffsets, List.getElem?_map, List.getElem?_range he]
      rfl
  obtain ⟨p, hrun, hp⟩ := placeIndices_ok hinit hids
    (launch.order_perm.nodup_iff.mpr List.nodup_range)
    fun i hi => List.mem_range.mp (launch.order_perm.mem_iff.mp hi)
  refine ⟨_, bind_eq_ok.mpr ⟨p, hrun, rfl⟩, ?_⟩
  exact Sorts.of_pairwise hids (hp.perm launch.order_perm) (hp.sorted launch.order_perm)

theorem groupIndex_sorts (hids : ∀ id ∈ ids, id < numExperts) (hE : numExperts ≤ kMoeIndexBlock)
    (flags : MoeFlags) (launch : Launch ids.length numExperts) :
    ∃ index, groupIndex flags ids numExperts launch = .ok index ∧ Sorts ids numExperts index := by
  unfold groupIndex
  split
  · exact moeComputeIndex_sorts hids hE launch
  · exact ⟨_, rfl, argsortIndex_sorts hids⟩

/-! ## The selection by an index -/

theorem indexSelect_ok (xs : List α) (indices : List Nat) (h : ∀ i ∈ indices, i < xs.length) :
    ∃ ys, indexSelect xs indices = .ok ys ∧ ys.map some = indices.map fun i => xs[i]? := by
  unfold indexSelect
  induction indices with
  | nil => exact ⟨[], rfl, rfl⟩
  | cons i indices ih =>
    obtain ⟨ys, hrun, hys⟩ := ih fun j hj => h j (List.mem_cons_of_mem i hj)
    obtain ⟨x, hi⟩ : ∃ x, xs[i]? = some x := ⟨_, List.getElem?_eq_getElem (h i List.mem_cons_self)⟩
    refine ⟨x :: ys, ?_, ?_⟩
    · rw [List.mapM_cons]
      exact bind_eq_ok.mpr ⟨_, read_ok hi, bind_eq_ok.mpr ⟨ys, hrun, rfl⟩⟩
    · rw [List.map_cons, List.map_cons, hys, hi]

/-- The selection of a function of the entries. -/
theorem indexSelect_map (f : α → β) {xs ys : List α} {indices : List Nat}
    (h : indexSelect xs indices = .ok ys) : indexSelect (xs.map f) indices = .ok (ys.map f) := by
  unfold indexSelect at *
  induction indices generalizing ys with
  | nil =>
    obtain rfl := Except.ok.inj h
    rfl
  | cons i indices ih =>
    rw [List.mapM_cons] at h
    obtain ⟨y, hy, h⟩ := bind_eq_ok.mp h
    obtain ⟨zs, hzs, h⟩ := bind_eq_ok.mp h
    obtain rfl := Except.ok.inj h
    have hread : read (xs.map f) i = .ok (f y) := by
      refine read_ok ?_
      rw [List.getElem?_map]
      cases hi : xs[i]? with
      | none => simp [read, hi, throw, throwThe, MonadExceptOf.throw] at hy
      | some x =>
        have hyx := (read_ok hi).symm.trans hy
        exact congrArg (fun x => some (f x)) (Except.ok.inj hyx)
    rw [List.mapM_cons]
    exact bind_eq_ok.mpr ⟨_, hread, bind_eq_ok.mpr ⟨_, ih hzs, rfl⟩⟩

/-- All entries, in another order. -/
theorem indexSelect_perm (xs : List α) {indices : List Nat}
    (h : indices.Perm (List.range xs.length)) :
    ∃ ys, indexSelect xs indices = .ok ys ∧ ys.Perm xs ∧
      ys.map some = indices.map fun i => xs[i]? := by
  obtain ⟨ys, hrun, hys⟩ := indexSelect_ok xs indices
    fun i hi => List.mem_range.mp (h.mem_iff.mp hi)
  refine ⟨ys, hrun, ?_, hys⟩
  refine (List.map_perm_map_iff (Option.some_injective α)).mp ?_
  rw [hys, ← range_map_getElem?]
  exact h.map _

/-- The entries that `mask.nonzero()` finds. -/
theorem indexSelect_filter (xs : List α) (p : α → Bool) (mask : Nat → Bool)
    (h : ∀ i < xs.length, mask i = xs[i]?.any p) :
    indexSelect xs ((List.range xs.length).filter mask) = .ok (xs.filter p) := by
  obtain ⟨ys, hrun, hys⟩ := indexSelect_ok xs ((List.range xs.length).filter mask)
    fun i hi => List.mem_range.mp (List.mem_of_mem_filter hi)
  have hmask : (List.range xs.length).filter mask =
      (List.range xs.length).filter ((Option.any p) ∘ fun i => xs[i]?) :=
    List.filter_congr fun i hi => h i (List.mem_range.mp hi)
  rw [hmask, ← List.filter_map, range_map_getElem?, List.filter_map] at hys
  rw [hrun, List.map_injective_iff.mpr (Option.some_injective α) hys]
  rfl

end Bi100.Moe
