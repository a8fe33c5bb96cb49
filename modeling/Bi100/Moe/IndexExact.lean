import Bi100.Moe.Index
import Mathlib.Data.List.Perm.Subperm

/-!
# When the index is right

- `moeHistogram_ok`, `moePrefixSum_ok`, `moePlaceIndices_ok`: what each kernel leaves, where a counter
  holds the cast of the exact count.
- `moeComputeIndex_indexes_iff`: the exact condition.
-/

namespace Bi100.Moe.Index

open Py Segments

variable {ids : List Nat} {numExperts e : Nat} {E : Int}

theorem read_eq_ok {α : Type} {buffer : List α} {i : Nat} {x : α} (h : read buffer i = .ok x) :
    buffer[i]? = some x := by
  unfold read at h
  cases hget : buffer[i]? with
  | none => rw [hget] at h; cases h
  | some y => rw [hget] at h; exact congrArg some (Except.ok.inj h)

theorem bind_ok {α β : Type} {x : Except Fault α} {f : α → Except Fault β} {a : α}
    (h : x = .ok a) : x >>= f = f a := by
  rw [h]
  rfl

/-! ## The histogram -/

theorem read_cast {i : Nat} (h : ids[i]? = some e) : read (ids.map (Nat.cast : Nat → Int)) i =
    .ok (e : Int) := read_ok (by rw [List.getElem?_map, h]; rfl)

theorem atomicIncrement_ok {buffer : List Int} {i : Nat} {x : Int} (h : buffer[i]? = some x) :
    atomicIncrement buffer i = .ok (x, buffer.set i (toInt32 (x + 1))) :=
  bind_eq_ok.mpr ⟨x, read_ok h, rfl⟩

theorem histogramThread_ok {sizes : List Int} {tid : Nat} {x : Int} (he : ids[tid]? = some e)
    (hlt : (e : Int) < E) (hsize : sizes[e]? = some x) :
    histogramThread (ids.map Nat.cast) E sizes tid = .ok (sizes.set e (toInt32 (x + 1))) := by
  unfold histogramThread
  rw [bind_ok (read_cast he), if_pos ⟨Int.natCast_nonneg e, hlt⟩, Int.toNat_natCast,
    bind_ok (atomicIncrement_ok hsize)]
  rfl

/-- A counter after its increments: what is left of the count. -/
theorem moeHistogram_ok (hE : ∀ id ∈ ids, (id : Int) < E) (hids : ∀ id ∈ ids, id < numExperts)
    {order done : List Nat} {sizes : List Int} (horder : ∀ i ∈ order, i < ids.length)
    (hlen : sizes.length = numExperts)
    (hsizes : ∀ e < numExperts, sizes[e]? = some (toInt32 (countAt ids done e))) :
    ∃ sizes', moeHistogram (ids.map Nat.cast) E order sizes = .ok sizes' ∧
      sizes'.length = numExperts ∧
      ∀ e < numExperts, sizes'[e]? = some (toInt32 (countAt ids (done ++ order) e)) := by
  induction order generalizing done sizes with
  | nil => exact ⟨sizes, rfl, hlen, by rw [List.append_nil]; exact hsizes⟩
  | cons tid order ih =>
    have htid := horder tid List.mem_cons_self
    have hget : ids[tid]? = some ids[tid] := List.getElem?_eq_getElem htid
    have hmem := List.getElem_mem htid
    generalize ids[tid] = e at hget hmem
    have hstep := histogramThread_ok hget (hE e hmem) (hsizes e (hids e hmem))
    have hnext : ∀ e' < numExperts,
        (sizes.set e (toInt32 (toInt32 (countAt ids done e) + 1)))[e']? =
          some (toInt32 (countAt ids (done ++ [tid]) e')) := by
      intro e' he'
      by_cases heq : e = e'
      · subst heq
        rw [List.getElem?_set_self (hlen ▸ he'), countAt_append, countAt_cons_self _ hget,
          toInt32_add]
        simp [countAt]
      · have hother : ¬ ids[tid]? = some e' := fun h => heq (Option.some.inj (hget.symm.trans h))
        rw [List.getElem?_set_ne heq, hsizes e' he', countAt_append, countAt_cons_other _ hother]
        simp [countAt]
    obtain ⟨sizes', hrun, hlen', hsizes'⟩ := ih
      (fun i hi => horder i (List.mem_cons_of_mem tid hi)) ((List.length_set ..).trans hlen) hnext
    refine ⟨sizes', ?_, hlen', by simpa using hsizes'⟩
    unfold moeHistogram at hrun ⊢
    rw [List.foldlM_cons, bind_ok hstep]
    exact hrun

theorem countAt_perm {order : List Nat} (h : order.Perm (List.range ids.length)) (e : Nat) :
    countAt ids order e = ids.count e := h.countP_eq _ |>.trans countAt_range

/-- The sizes, in any order of the increments. -/
theorem moeHistogram_eq (hE : ∀ id ∈ ids, (id : Int) < E) (hids : ∀ id ∈ ids, id < numExperts)
    {order : List Nat} (horder : order.Perm (List.range ids.length)) :
    moeHistogram (ids.map Nat.cast) E order (List.replicate numExperts 0) =
      .ok ((List.range numExperts).map fun e => toInt32 (ids.count e)) := by
  have hzero : ∀ e < numExperts,
      (List.replicate numExperts (0 : Int))[e]? = some (toInt32 (countAt ids [] e)) :=
    fun e he => by simp [he, countAt]
  obtain ⟨sizes, hrun, hlen, hsizes⟩ := moeHistogram_ok hE hids
    (fun i hi => List.mem_range.mp (horder.mem_iff.mp hi)) List.length_replicate hzero
  rw [hrun]
  refine congrArg _ (List.ext_getElem? fun e => ?_)
  rcases Nat.lt_or_ge e numExperts with he | he
  · rw [hsizes e he, List.nil_append, countAt_perm horder, List.getElem?_map,
      List.getElem?_range he]
    rfl
  · rw [List.getElem?_eq_none (hlen ▸ he), List.getElem?_eq_none (by simpa using he)]

/-- An id from `num_experts` on is not counted. -/
theorem moeHistogram_frame {expertId : List Int} {order : List Nat} {sizes sizes' : List Int}
    (he : ¬ (e : Int) < E) (h : moeHistogram expertId E order sizes = .ok sizes') :
    sizes'[e]? = sizes[e]? := by
  induction order generalizing sizes with
  | nil => rw [Except.ok.inj h]
  | cons tid order ih =>
    unfold moeHistogram at h
    rw [List.foldlM_cons] at h
    obtain ⟨next, hstep, hrest⟩ := bind_eq_ok.mp h
    rw [ih hrest]
    obtain ⟨eid, -, hstep⟩ := bind_eq_ok.mp hstep
    split at hstep
    · next hvalid =>
      obtain ⟨⟨old, buffer⟩, hinc, hnext⟩ := bind_eq_ok.mp hstep
      obtain ⟨x, -, hinc⟩ := bind_eq_ok.mp hinc
      obtain rfl : buffer = next := Except.ok.inj hnext
      obtain ⟨rfl, rfl⟩ := Prod.mk.inj (Except.ok.inj hinc)
      exact List.getElem?_set_ne (by omega)
    · rw [Except.ok.inj hstep]

/-! ## The scan -/

theorem exclusiveSum_getElem? {vals : List Int} {i : Nat} (hi : i < vals.length)
    (hvals : ∀ j < i, vals[j]? = some (toInt32 (ids.count (e + j)))) :
    (exclusiveSum (toInt32 (below ids e)) vals)[i]? = some (toInt32 (below ids (e + i))) := by
  induction i generalizing e vals with
  | zero =>
    cases vals with
    | nil => exact absurd hi (Nat.not_lt_zero _)
    | cons val vals => rfl
  | succ i ih =>
    cases vals with
    | nil => exact absurd hi (Nat.not_lt_zero _)
    | cons val vals =>
      obtain rfl := Option.some.inj (hvals 0 (Nat.succ_pos i))
      rw [exclusiveSum, List.getElem?_cons_succ, toInt32_add_toInt32, ← Int.natCast_add, Nat.add_zero,
        ← below_succ, ih (Nat.lt_of_succ_lt_succ hi) fun j hj => ?_, Nat.add_right_comm, Nat.add_assoc]
      rw [Nat.add_right_comm, Nat.add_assoc]
      exact hvals (j + 1) (Nat.succ_lt_succ hj)

/-- Every thread writes its own element. -/
theorem foldlM_write {p : Nat → Bool} (f : Nat → Int) {threads : List Nat} (buffer : List Int)
    (hnodup : threads.Nodup) (h : ∀ t ∈ threads, p t = true → t < buffer.length) :
    ∃ buffer', threads.foldlM (fun buffer t => if p t = true then write buffer t (f t)
        else pure buffer) buffer = .ok buffer' ∧ buffer'.length = buffer.length ∧
      (∀ t ∈ threads, p t = true → buffer'[t]? = some (f t)) ∧
      ∀ i, i ∉ threads → buffer'[i]? = buffer[i]? := by
  induction threads generalizing buffer with
  | nil => exact ⟨buffer, rfl, rfl, fun t ht => absurd ht List.not_mem_nil, fun _ _ => rfl⟩
  | cons t threads ih =>
    obtain ⟨hnot, hnodup⟩ := List.nodup_cons.mp hnodup
    obtain ⟨next, hstep, hlen, hat, hother⟩ : ∃ next,
        (if p t = true then write buffer t (f t) else pure buffer) = .ok next ∧
        next.length = buffer.length ∧ (p t = true → next[t]? = some (f t)) ∧
        ∀ i ≠ t, next[i]? = buffer[i]? := by
      cases hp : p t with
      | true =>
        have hlt := h t List.mem_cons_self hp
        exact ⟨_, (if_pos rfl).trans (write_ok _ hlt), List.length_set .., fun _ =>
          List.getElem?_set_self hlt, fun i hi => List.getElem?_set_ne hi.symm⟩
      | false => exact ⟨buffer, if_neg Bool.false_ne_true, rfl, nofun, fun _ _ => rfl⟩
    have hnext : ∀ s ∈ threads, p s = true → s < next.length :=
      fun s hs hp => hlen ▸ h s (List.mem_cons_of_mem t hs) hp
    obtain ⟨buffer', hrun, hlen', hat', hother'⟩ := ih next hnodup hnext
    refine ⟨buffer', ?_, hlen'.trans hlen, fun s hs hp => ?_, fun i hi => ?_⟩
    · rw [List.foldlM_cons, bind_ok hstep]
      exact hrun
    · rcases List.mem_cons.mp hs with rfl | hs
      · exact (hother' s hnot).trans (hat hp)
      · exact hat' s hs hp
    · obtain ⟨hne, hi⟩ := not_or.mp (mt List.mem_cons.mpr hi)
      exact (hother' i hi).trans (hother i hne)

/-- The comparison with the number of experts. -/
theorem lt_of_hasExpert {t : Nat} (h : hasExpert (toInt32 numExperts) t = true) :
    t < numExperts := by
  have hmod : toInt32 numExperts % 2 ^ 32 = (numExperts : Int) % 2 ^ 32 := by
    unfold toInt32
    exact Int.bmod_emod
  have hlt := of_decide_eq_true h
  rw [hmod] at hlt
  omega

theorem hasExpert_of_lt {t : Nat} (h : (t : Int) < toInt32 numExperts) :
    hasExpert (toInt32 numExperts) t = true := by
  have hlt := toInt32_lt numExperts
  refine decide_eq_true ?_
  omega

/-- The block writes the starts of its 256 experts, and leaves the others. -/
theorem moePrefixSum_ok (ids : List Nat) {offsets : List Int} (hlen : offsets.length = numExperts) :
    ∃ offsets', moePrefixSum ((List.range numExperts).map fun e => toInt32 (ids.count e))
        (toInt32 numExperts) offsets = .ok offsets' ∧ offsets'.length = numExperts ∧
      (∀ e < kMoeIndexBlock, (e : Int) < toInt32 numExperts →
        offsets'[e]? = some (toInt32 (below ids e))) ∧
      ∀ e, kMoeIndexBlock ≤ e → offsets'[e]? = offsets[e]? := by
  have hvals : ((List.range kMoeIndexBlock).mapM fun thread =>
      if hasExpert (toInt32 numExperts) thread = true then
        read ((List.range numExperts).map fun e => toInt32 (ids.count e)) thread
      else pure 0) = .ok ((List.range kMoeIndexBlock).map fun thread =>
        if hasExpert (toInt32 numExperts) thread = true then toInt32 (ids.count thread) else 0) := by
    refine mapM_eq_ok_map fun thread _ => ?_
    split
    · next h =>
      refine read_ok ?_
      rw [List.getElem?_map, List.getElem?_range (lt_of_hasExpert h)]
      rfl
    · rfl
  unfold moePrefixSum
  dsimp only
  rw [bind_ok hvals]
  generalize hv : (List.range kMoeIndexBlock).map _ = vals
  obtain ⟨offsets', hrun, hlen', hat, hother⟩ := foldlM_write (p := hasExpert (toInt32 numExperts))
    (fun thread => (exclusiveSum 0 vals).getD thread 0) offsets
    (List.nodup_range (n := kMoeIndexBlock)) fun t _ ht => hlen.symm ▸ lt_of_hasExpert ht
  refine ⟨offsets', hrun, hlen'.trans hlen, fun e he hlt => ?_, fun e he => ?_⟩
  · rw [hat e (List.mem_range.mpr he) (hasExpert_of_lt hlt)]
    have hbelow : ∀ j < e, vals[j]? = some (toInt32 (ids.count (0 + j))) := by
      intro j hj
      have hlt' : (j : Int) < toInt32 numExperts := by omega
      rw [← hv, List.getElem?_map, List.getElem?_range (hj.trans he), Option.map_some,
        if_pos (hasExpert_of_lt hlt'), Nat.zero_add]
    have hsum : (exclusiveSum (toInt32 (below ids 0)) vals)[e]? =
        some (toInt32 (below ids (0 + e))) :=
      exclusiveSum_getElem? (by rw [← hv]; simpa using he) hbelow
    rw [below_zero, Nat.cast_zero, toInt32_zero, Nat.zero_add] at hsum
    rw [List.getD_eq_getElem?_getD, hsum, Option.getD_some]
  · exact hother e (by simpa using he)

/-! ## The placement -/

/-- The buffers after the increments of `placed`. -/
structure Counted (ids placed : List Nat) (b : Buffers) : Prop where
  dstSrc_length : b.dstSrc.length = ids.length
  srcDst_length : b.srcDst.length = ids.length
  offsets : ∀ e ∈ ids,
    b.expertOffsets[e]? = some (toInt32 (below ids e + countAt ids placed e : Nat))
  at_place : ∀ (pre : List Nat) (idx : Nat) (post : List Nat) (e : Nat),
    placed = pre ++ idx :: post → ids[idx]? = some e →
    b.srcDst[idx]? = some ((below ids e + countAt ids pre e : Nat) : Int) ∧
      b.dstSrc[below ids e + countAt ids pre e]? = some (idx : Int)

theorem store_ok {buffer : List Int} {i : Nat} (x : Int) (h : i < buffer.length) :
    store buffer i x = .ok (buffer.set i x) := by
  unfold store
  rw [offset?_natCast h]
  rfl

theorem placeThread_ok (hE : ∀ id ∈ ids, (id : Int) < E) (hN : ids.length ≤ 2 ^ 31)
    {placed : List Nat} {idx : Nat} {b : Buffers} (hb : Counted ids placed b)
    (hnodup : (placed ++ [idx]).Nodup) (hlt : ∀ i ∈ placed ++ [idx], i < ids.length) :
    ∃ b', placeThread (ids.map Nat.cast) E b idx = .ok b' ∧ Counted ids (placed ++ [idx]) b' := by
  have hidx : idx < ids.length := hlt idx (List.mem_append_right _ (List.mem_singleton_self idx))
  have he : ids[idx]? = some ids[idx] := List.getElem?_eq_getElem hidx
  have hmem := List.getElem_mem hidx
  generalize ids[idx] = e at he hmem
  have hcount := countAt_le hnodup hlt
  have hpos := place_lt hcount he
  have hsrc := hb.srcDst_length ▸ hidx
  have hdst := hb.dstSrc_length ▸ hpos
  have hoffset := hb.offsets e hmem
  rw [toInt32_natCast (by omega)] at hoffset
  have hlen := (List.getElem?_eq_some_iff.mp hoffset).1
  refine ⟨⟨b.expertOffsets.set e (toInt32 (((below ids e + countAt ids placed e : Nat) : Int) + 1)),
    b.dstSrc.set (below ids e + countAt ids placed e) (idx : Int),
    b.srcDst.set idx ((below ids e + countAt ids placed e : Nat) : Int)⟩, ?_, ?_⟩
  · unfold placeThread
    rw [bind_ok (read_cast he), if_neg (by have hlt := hE e hmem; omega), Int.toNat_natCast,
      bind_ok (atomicIncrement_ok hoffset), toInt32_natCast (show idx < 2 ^ 31 by omega)]
    dsimp only
    rw [bind_ok (store_ok _ hdst), bind_ok (write_ok _ hsrc)]
    rfl
  · refine ⟨(List.length_set ..).trans hb.dstSrc_length,
      (List.length_set ..).trans hb.srcDst_length, fun e' he' => ?_,
      fun pre idx' post e' hsplit he' =>
        at_place_concat (Nat.cast : Nat → Int) hb.at_place hnodup hcount he hsrc hdst hsplit he'⟩
    dsimp only
    by_cases heq : e = e'
    · subst heq
      rw [List.getElem?_set_self hlen, countAt_append, countAt_cons_self _ he]
      simp [countAt, Int.add_assoc]
    · have hother : ¬ ids[idx]? = some e' := fun h => heq (Option.some.inj (he.symm.trans h))
      rw [List.getElem?_set_ne heq, hb.offsets e' he', countAt_append, countAt_cons_other _ hother]
      simp [countAt]

/-- All increments, in any order. -/
theorem moePlaceIndices_ok (hE : ∀ id ∈ ids, (id : Int) < E) (hN : ids.length ≤ 2 ^ 31)
    {placed order : List Nat} {b : Buffers} (hb : Counted ids placed b)
    (hnodup : (placed ++ order).Nodup) (hlt : ∀ i ∈ placed ++ order, i < ids.length) :
    ∃ b', moePlaceIndices (ids.map Nat.cast) E order b = .ok b' ∧
      Counted ids (placed ++ order) b' := by
  induction order generalizing placed b with
  | nil => exact ⟨b, rfl, (List.append_nil placed).symm ▸ hb⟩
  | cons idx rest ih =>
    rw [← List.singleton_append, ← List.append_assoc] at hnodup hlt ⊢
    obtain ⟨b₁, hstep, hb₁⟩ := placeThread_ok hE hN hb (List.nodup_append.mp hnodup).1
      fun i hi => hlt i (List.mem_append_left rest hi)
    obtain ⟨b₂, hrest, hb₂⟩ := ih hb₁ hnodup hlt
    refine ⟨b₂, ?_, hb₂⟩
    unfold moePlaceIndices at hrest ⊢
    rw [List.singleton_append, List.foldlM_cons, bind_ok hstep]
    exact hrest

/-! ## The results -/

/-- The placement, as natural numbers. -/
def Counted.placement (ids : List Nat) (numExperts : Nat) (order : List Nat) (b : Buffers) :
    Placement :=
  ⟨(List.range numExperts).map fun (e : Nat) => below ids e + countAt ids order e,
    b.srcDst.map Int.toNat, b.dstSrc.map Int.toNat⟩

theorem Counted.placed {order : List Nat} {b : Buffers} (h : Counted ids order b)
    (numExperts : Nat) :
    Placed ids numExperts order (Counted.placement ids numExperts order b) where
  offsets_length := by simp [Counted.placement]
  srcDst_length := (List.length_map _).trans h.srcDst_length
  dstSrc_length := (List.length_map _).trans h.dstSrc_length
  offsets e he := by simp [Counted.placement, he]
  at_place pre idx post e hsplit he := by
    obtain ⟨hsrc, hdst⟩ := h.at_place pre idx post e hsplit he
    simp only [Counted.placement, List.getElem?_map, hsrc, hdst, Option.map_some,
      Int.toNat_natCast, and_self]

/-- A list with every index is a permutation of them. -/
theorem perm_of_mem {xs : List Int} {n : Nat} (hlen : xs.length = n)
    (hmem : ∀ i < n, (i : Int) ∈ xs) : xs.Perm ((List.range n).map Nat.cast) := by
  have hsub : (List.range n).map Nat.cast ⊆ xs := fun x hx => by
    obtain ⟨i, hi, rfl⟩ := List.mem_map.mp hx
    exact hmem i (List.mem_range.mp hi)
  have hnodup : ((List.range n).map (Nat.cast : Nat → Int)).Nodup :=
    List.nodup_range.map Nat.cast_injective
  refine ((List.subperm_of_subset hnodup hsub).perm_of_length_le ?_).symm
  rw [List.length_map, List.length_range, hlen]

section Results

variable {order : List Nat} {b : Buffers} (h : Counted ids order b)
  (horder : order.Perm (List.range ids.length))

include h horder

/-- The place of an index. -/
theorem Counted.exists_place {i : Nat} (hi : i < ids.length) : ∃ j : Nat,
    b.srcDst[i]? = some (j : Int) ∧ b.dstSrc[j]? = some (i : Int) := by
  obtain ⟨pre, post, hsplit⟩ :=
    List.append_of_mem (horder.mem_iff.mpr (List.mem_range.mpr hi))
  exact ⟨_, h.at_place pre i post _ hsplit (List.getElem?_eq_getElem hi)⟩

theorem Counted.dstSrc_perm : b.dstSrc.Perm ((List.range ids.length).map Nat.cast) :=
  perm_of_mem h.dstSrc_length fun _ hi =>
    let ⟨_, _, hat⟩ := h.exists_place horder hi
    List.mem_of_getElem? hat

theorem Counted.inverse (i j : Nat) :
    b.srcDst[i]? = some (j : Int) ↔ b.dstSrc[j]? = some (i : Int) := by
  constructor
  · intro hi
    have hlt := h.srcDst_length ▸ (List.getElem?_eq_some_iff.mp hi).1
    obtain ⟨j', hsrc, hdst⟩ := h.exists_place horder hlt
    obtain rfl : j = j' := Int.ofNat_inj.mp (Option.some.inj (hi.symm.trans hsrc))
    exact hdst
  · intro hj
    have hperm := h.dstSrc_perm horder
    obtain ⟨i', hi', heq⟩ := List.mem_map.mp (hperm.mem_iff.mp (List.mem_of_getElem? hj))
    obtain rfl : i' = i := Int.ofNat_inj.mp heq
    obtain ⟨j', hsrc, hdst⟩ := h.exists_place horder (List.mem_range.mp hi')
    have hnodup : b.dstSrc.Nodup :=
      hperm.nodup_iff.mpr (List.nodup_range.map Nat.cast_injective)
    obtain rfl := (List.getElem?_inj (List.getElem?_eq_some_iff.mp hj).1 hnodup).mp
      (hj.trans hdst.symm)
    exact hsrc

theorem Counted.srcDst_perm : b.srcDst.Perm ((List.range ids.length).map Nat.cast) := by
  refine perm_of_mem h.srcDst_length fun j hj => ?_
  have hget := List.getElem?_eq_getElem (h.dstSrc_length.symm ▸ hj)
  have hmem := (h.dstSrc_perm horder).mem_iff.mp (List.mem_of_getElem? hget)
  obtain ⟨i, -, heq⟩ := List.mem_map.mp hmem
  rw [← heq] at hget
  exact List.mem_of_getElem? ((h.inverse horder i j).mpr hget)

theorem Counted.indexes (hids : ∀ id ∈ ids, id < numExperts) : Indexes ids numExperts b.srcDst
    b.dstSrc ((List.range numExperts).map fun e => ((ids.count e : Nat) : Int)) := by
  have hplaced := h.placed numExperts
  have hperm : (b.dstSrc.map Int.toNat).Perm (List.range ids.length) := hplaced.perm horder
  have hkeys := (Sorts.of_pairwise hids hperm (hplaced.sorted horder)).keys
  refine ⟨h.srcDst_perm horder, h.dstSrc_perm horder, h.inverse horder, rfl, ?_⟩
  rw [List.map_map] at hkeys
  refine hkeys.trans (List.flatMap_congr fun e he => ?_)
  have he := List.mem_range.mp he
  simp [he]

end Results

/-! ## Ids that fit -/

/-- The ids keep their values. -/
theorem map_toInt32 (hE : ∀ id ∈ ids, (id : Int) < toInt32 numExperts) :
    (ids.map (Nat.cast : Nat → Int)).map toInt32 = ids.map Nat.cast := by
  rw [List.map_map]
  refine List.map_congr_left fun id hid => ?_
  have hlt := hE id hid
  have hbound := toInt32_lt numExperts
  rw [Function.comp_apply]
  exact toInt32_natCast (by omega)

theorem alwaysIndexes_of_small (hids : ∀ id ∈ ids, id < numExperts)
    (hsmall : ∀ id ∈ ids, id < kMoeIndexBlock ∧ (id : Int) < toInt32 numExperts)
    (hN : ids.length ≤ 2 ^ 31) (hcounts : ∀ e, ids.count e < 2 ^ 31) :
    AlwaysIndexes ids numExperts := by
  intro launch
  have hE : ∀ id ∈ ids, (id : Int) < toInt32 numExperts := fun id hid => (hsmall id hid).2
  have hlen : (ids.map (Nat.cast : Nat → Int)).length = ids.length := List.length_map _
  have hplace := launch.place_perm.trans (.of_eq (congrArg List.range hlen))
  have hhistogram := moeHistogram_eq hE hids
    (launch.histogram_perm.trans (.of_eq (congrArg List.range hlen)))
  obtain ⟨offsets, hscan, -, hat, -⟩ := moePrefixSum_ok ids launch.offsets_length
  have hinit : Counted ids [] { launch.uninit with expertOffsets := offsets } := by
    refine ⟨launch.dstSrc_length.trans hlen, launch.srcDst_length.trans hlen, fun e he => ?_,
      fun pre idx post e hsplit => absurd hsplit (by simp)⟩
    obtain ⟨hblock, hlt⟩ := hsmall e he
    exact hat e hblock hlt
  have hnodup : ([] ++ launch.place).Nodup := hplace.nodup_iff.mpr List.nodup_range
  obtain ⟨b, hrun, hb⟩ := moePlaceIndices_ok hE hN hinit hnodup
    fun i hi => List.mem_range.mp (hplace.mem_iff.mp hi)
  refine ⟨b.srcDst, b.dstSrc, _, ?_, hb.indexes hplace hids⟩
  unfold moeComputeIndex
  dsimp only
  rw [map_toInt32 hE, bind_ok hhistogram, bind_ok hscan, bind_ok hrun]
  refine congrArg (fun sizes => Except.ok (b.srcDst, b.dstSrc, sizes)) ?_
  exact List.map_congr_left fun e _ => toInt32_natCast (hcounts e)

/-! ## The converse -/

/-- The threads in their order, and buffers that hold `-1`. -/
def freshLaunch (n numExperts : Nat) : IndexLaunch n numExperts where
  histogram := List.range n
  histogram_perm := List.Perm.refl _
  place := List.range n
  place_perm := List.Perm.refl _
  uninit := ⟨List.replicate numExperts (-1), List.replicate n (-1), List.replicate n (-1)⟩
  offsets_length := List.length_replicate
  dstSrc_length := List.length_replicate
  srcDst_length := List.length_replicate

/-- A step of the placement. -/
theorem placeThread_cases {expertId : List Int} {b b' : Buffers} {idx : Nat}
    (h : placeThread expertId E b idx = .ok b') :
    (b' = b ∧ ∃ eid, expertId[idx]? = some eid ∧ (eid < 0 ∨ E ≤ eid)) ∨ ∃ eid pos : Nat,
      expertId[idx]? = some (eid : Int) ∧ b.expertOffsets[eid]? = some (pos : Int) ∧
      b'.expertOffsets = b.expertOffsets.set eid (toInt32 (pos + 1)) ∧
      b'.dstSrc = b.dstSrc.set pos (toInt32 idx) := by
  obtain ⟨eid, heid, h⟩ := bind_eq_ok.mp h
  have heid := read_eq_ok heid
  split at h
  · next hout => exact .inl ⟨(Except.ok.inj h).symm, eid, heid, hout⟩
  · next hin =>
    obtain ⟨⟨pos, offsets⟩, hinc, h⟩ := bind_eq_ok.mp h
    obtain ⟨dstSrc, hstore, h⟩ := bind_eq_ok.mp h
    obtain ⟨srcDst, -, h⟩ := bind_eq_ok.mp h
    obtain rfl := Except.ok.inj h
    obtain ⟨old, hold, hinc⟩ := bind_eq_ok.mp hinc
    obtain ⟨rfl, rfl⟩ := Prod.mk.inj (Except.ok.inj hinc)
    have hold := read_eq_ok hold
    unfold store at hstore
    cases hj : offset? b.dstSrc.length old with
    | none => rw [hj] at hstore; cases hstore
    | some j =>
      rw [hj] at hstore
      obtain rfl := Except.ok.inj hstore
      obtain rfl := offset?_eq_some hj
      refine .inr ⟨eid.toNat, j, ?_, hold, rfl, rfl⟩
      rw [heid, Int.toNat_of_nonneg (by omega)]

/-- An expert without an offset has no index. -/
theorem placed_of_unset {order : List Nat} {b b' : Buffers}
    (hunset : b.expertOffsets[e]? = some (-1)) (hE : ∀ id ∈ ids, (id : Int) < E)
    (h : moePlaceIndices (ids.map Nat.cast) E order b = .ok b') :
    ∀ i ∈ order, ids[i]? ≠ some e := by
  induction order generalizing b with
  | nil => exact fun i hi => absurd hi List.not_mem_nil
  | cons idx order ih =>
    unfold moePlaceIndices at h
    rw [List.foldlM_cons] at h
    obtain ⟨next, hstep, hrest⟩ := bind_eq_ok.mp h
    rcases placeThread_cases hstep with ⟨-, eid, heid, hout⟩ | ⟨eid, pos, heid, hpos, hoffsets, -⟩
    · -- Every id is placed.
      rw [List.getElem?_map] at heid
      obtain ⟨id, hid, rfl⟩ := Option.map_eq_some_iff.mp heid
      have hlt := hE id (List.mem_of_getElem? hid)
      omega
    · rw [List.getElem?_map] at heid
      obtain ⟨id, hid, heq⟩ := Option.map_eq_some_iff.mp heid
      obtain rfl : id = eid := Int.ofNat_inj.mp heq
      have hne : id ≠ e := by
        rintro rfl
        have hneg := Option.some.inj (hunset.symm.trans hpos)
        omega
      have hnext : next.expertOffsets[e]? = some (-1) := by
        rw [hoffsets, List.getElem?_set_ne hne, hunset]
      intro i hi
      rcases List.mem_cons.mp hi with rfl | hi
      · rw [hid]
        exact fun heq => hne (Option.some.inj heq)
      · exact ih hnext hrest i hi

/-- The elements of `dst_src` are `int32_t`s. -/
theorem dstSrc_lt {expertId : List Int} {order : List Nat} {b b' : Buffers}
    (hb : ∀ x ∈ b.dstSrc, x < 2 ^ 31) (h : moePlaceIndices expertId E order b = .ok b') :
    ∀ x ∈ b'.dstSrc, x < 2 ^ 31 := by
  induction order generalizing b with
  | nil => exact Except.ok.inj h ▸ hb
  | cons idx order ih =>
    unfold moePlaceIndices at h
    rw [List.foldlM_cons] at h
    obtain ⟨next, hstep, hrest⟩ := bind_eq_ok.mp h
    refine ih (fun x hx => ?_) hrest
    rcases placeThread_cases hstep with ⟨rfl, -⟩ | ⟨eid, pos, -, -, -, hdst⟩
    · exact hb x hx
    · rw [hdst] at hx
      rcases List.mem_or_eq_of_mem_set hx with hx | rfl
      · exact hb x hx
      · exact toInt32_lt _

theorem small_of_alwaysIndexes (hids : ∀ id ∈ ids, id < numExperts)
    (h : AlwaysIndexes ids numExperts) :
    (∀ id ∈ ids, id < kMoeIndexBlock ∧ (id : Int) < toInt32 numExperts) ∧
      ids.length ≤ 2 ^ 31 ∧ ∀ e, ids.count e < 2 ^ 31 := by
  have hlen : (ids.map (Nat.cast : Nat → Int)).length = ids.length := List.length_map _
  obtain ⟨srcDst, dstSrc, sizes, hrun, hindexes⟩ := h (freshLaunch _ numExperts)
  unfold moeComputeIndex at hrun
  obtain ⟨sizes', hhistogram, hrun⟩ := bind_eq_ok.mp hrun
  obtain ⟨offsets, hscan, hrun⟩ := bind_eq_ok.mp hrun
  obtain ⟨b, hplace, hrun⟩ := bind_eq_ok.mp hrun
  obtain ⟨rfl, hrest⟩ := Prod.mk.inj (Except.ok.inj hrun)
  obtain ⟨rfl, rfl⟩ := Prod.mk.inj hrest
  -- An id from `num_experts` on would have the size 0.
  have hE : ∀ id ∈ ids, (id : Int) < toInt32 numExperts := by
    intro id hid
    by_contra hge
    have hsize := moeHistogram_frame hge hhistogram
    have hcount := List.count_pos_iff.mpr hid
    rw [hindexes.sizes, List.getElem?_map, List.getElem?_range (hids id hid),
      List.getElem?_replicate, if_pos (hids id hid)] at hsize
    have hzero : ((ids.count id : Nat) : Int) = 0 := Option.some.inj hsize
    omega
  rw [map_toInt32 hE] at hhistogram hplace
  have hcount := moeHistogram_eq hE hids (.of_eq (congrArg List.range hlen))
  obtain rfl := Except.ok.inj (hcount.symm.trans hhistogram)
  have hcounts : ∀ e, ids.count e < 2 ^ 31 := by
    intro e
    by_cases he : e < numExperts
    · have hsize := congrArg (fun sizes : List Int => sizes[e]?) hindexes.sizes
      rw [List.getElem?_map, List.getElem?_map, List.getElem?_range he] at hsize
      exact lt_of_toInt32_eq (Option.some.inj hsize)
    · rw [List.count_eq_zero.mpr fun hmem => he (hids e hmem)]
      decide
  refine ⟨fun id hid => ⟨?_, hE id hid⟩, ?_, hcounts⟩
  · by_contra hge
    obtain ⟨offsets', hscan', -, -, hframe⟩ := moePrefixSum_ok ids
      (freshLaunch (ids.map (Nat.cast : Nat → Int)).length numExperts).offsets_length
    obtain rfl := Except.ok.inj (hscan.symm.trans hscan')
    have hunset := hframe id (Nat.le_of_not_lt hge)
    rw [show (freshLaunch (ids.map (Nat.cast : Nat → Int)).length numExperts).uninit.expertOffsets =
      List.replicate numExperts (-1) from rfl, List.getElem?_replicate, if_pos (hids id hid)]
      at hunset
    obtain ⟨i, hi, heq⟩ := List.getElem_of_mem hid
    refine placed_of_unset hunset hE hplace i ?_ (by rw [List.getElem?_eq_getElem hi, heq])
    exact List.mem_range.mpr (hlen.symm ▸ hi)
  · by_contra hgt
    have hlast : ((ids.length - 1 : Nat) : Int) ∈ b.dstSrc := by
      refine hindexes.dstSrc_perm.mem_iff.mpr (List.mem_map_of_mem (List.mem_range.mpr ?_))
      omega
    have hlt := dstSrc_lt (fun x hx => ?_) hplace _ hlast
    · omega
    · obtain rfl : x = -1 := (List.mem_replicate.mp hx).2
      decide

/-- **The index is right for every launch** exactly when the ids are below the 256 threads of the
scan and below the cast of `num_experts`, and nothing is lost of the indices and the counts. -/
theorem moeComputeIndex_indexes_iff (ids : List Nat) (numExperts : Nat)
    (hids : ∀ id ∈ ids, id < numExperts) : AlwaysIndexes ids numExperts ↔
      (∀ id ∈ ids, id < kMoeIndexBlock ∧ (id : Int) < toInt32 numExperts) ∧
        ids.length ≤ 2 ^ 31 ∧ ∀ e, ids.count e < 2 ^ 31 :=
  ⟨small_of_alwaysIndexes hids, fun ⟨hsmall, hN, hcounts⟩ =>
    alwaysIndexes_of_small hids hsmall hN hcounts⟩

/-- Three assignments to two experts. -/
theorem index_two_experts : AlwaysIndexes [1, 0, 1] 2 := by
  refine (moeComputeIndex_indexes_iff [1, 0, 1] 2 (by decide)).mpr ⟨fun id hid => ?_, by decide,
    fun e => List.count_le_length.trans_lt (by decide)⟩
  have htwo : toInt32 ((2 : Nat) : Int) = 2 := toInt32_natCast (by decide)
  have hlt : ∀ id ∈ [1, 0, 1], id < kMoeIndexBlock ∧ (id : Int) < 2 := by decide
  rw [htwo]
  exact hlt id hid

/-- Expert 256 has no thread of the scan. -/
theorem expert_without_thread : ¬ AlwaysIndexes [256] 257 := by
  intro h
  have hlt := ((small_of_alwaysIndexes (by decide) h).1 256 (List.mem_singleton_self 256)).1
  exact absurd hlt (Nat.lt_irrefl 256)

end Bi100.Moe.Index
