import Bi100.Moe.Sorting
import Mathlib.Algebra.BigOperators.Pi

/-!
# The paths agree

The assignments of the experts to the tokens are selected in the order of an index, so the experts
get consecutive slices of them (`Sliced`). Every path adds the same weighted rows to the tokens.

- `expertLoop_eq`, `moeGroupGemm_eq`: the loop over the experts, and the grouped products.
- `scattered_eq`: the rows that the tokens get, in any order.
- `moe_paths_agree`: every path returns the weighted sum.
-/

namespace Bi100.Moe

open Py Segments Scatter

variable {α β K : Type} [CommRing K] {T topK E I H m n : Nat}

/-- One selected expert of a token. -/
structure Assignment (K : Type) (T E : Nat) where
  token : Fin T
  eid : Fin E
  weight : K

/-! ## The flat tensors -/

omit [CommRing K] in
theorem map_flatten (f : α → β) (x : Fin T → Fin topK → α) :
    (flatten x).map f = flatten fun t k => f (x t k) := by
  simp [flatten, List.map_flatMap, List.map_ofFn, Function.comp_def]

theorem tokenIndex_eq : tokenIndex T topK = flatten fun (t : Fin T) (_ : Fin topK) => t := by
  simp [flatten, tokenIndex, List.ofFn_const]

theorem range_eq_map_val (n : Nat) : List.range n = (List.finRange n).map Fin.val :=
  List.ext_getElem (by simp) fun i _ _ => by simp

/-- The assignments of all tokens. -/
def assignments (topkIds : Fin T → Fin topK → Fin E) (topkWeights : Fin T → Fin topK → K) :
    List (Assignment K T E) := flatten fun t k => ⟨t, topkIds t k, topkWeights t k⟩

section Flat

variable (topkIds : Fin T → Fin topK → Fin E) (topkWeights : Fin T → Fin topK → K)

omit [CommRing K] in
theorem assignments_token : (assignments topkIds topkWeights).map (·.token) = tokenIndex T topK := by
  rw [assignments, map_flatten, tokenIndex_eq]

omit [CommRing K] in
theorem assignments_eid : (assignments topkIds topkWeights).map (·.eid) = flatten topkIds := by
  rw [assignments, map_flatten]

omit [CommRing K] in
theorem assignments_weight :
    (assignments topkIds topkWeights).map (·.weight) = flatten topkWeights := by
  rw [assignments, map_flatten]

end Flat

/-! ## Slices of the sorted assignments -/

/-- From `start` on, every expert has the slice of its size. -/
def Sliced (sorted : List (Assignment K T E)) (experts : List (Fin E × Nat)) (start : Nat) : Prop :=
  (sorted.drop start).map (·.eid) = experts.flatMap fun p => List.replicate p.2 p.1

section Sliced

variable {sorted : List (Assignment K T E)} {experts : List (Fin E × Nat)} {e : Fin E}
  {start count : Nat}

omit [CommRing K] in
/-- The slice of the first expert, and the others. -/
theorem Sliced.cons (h : Sliced sorted ((e, count) :: experts) start) :
    (slice sorted start (start + count)).map (·.eid) = List.replicate count e ∧
      (0 < count → start + count ≤ sorted.length) ∧ Sliced sorted experts (start + count) := by
  unfold Sliced at *
  rw [List.flatMap_cons] at h
  have hfirst := congrArg (List.take count) h
  have hrest := congrArg (List.drop count) h
  have hlen := congrArg List.length h
  rw [List.take_left' List.length_replicate, ← List.map_take] at hfirst
  rw [List.drop_left' List.length_replicate, ← List.map_drop, List.drop_drop] at hrest
  rw [List.length_map, List.length_drop, List.length_append, List.length_replicate] at hlen
  refine ⟨?_, fun hpos => by omega, hrest⟩
  rw [slice, List.drop_take, Nat.add_sub_cancel_left, hfirst]

omit [CommRing K] in
theorem Sliced.eid_eq (h : Sliced sorted ((e, count) :: experts) start) {a : Assignment K T E}
    (ha : a ∈ slice sorted start (start + count)) : a.eid = e := by
  have hmem := List.mem_map_of_mem (f := (·.eid)) ha
  rw [h.cons.1] at hmem
  exact List.eq_of_mem_replicate hmem

theorem slice_append_drop (l : List α) (a n : Nat) :
    slice l a (a + n) ++ l.drop (a + n) = l.drop a := by
  rw [slice, List.drop_take, Nat.add_sub_cancel_left, ← List.drop_drop, List.take_append_drop]

theorem slice_map (f : α → β) (l : List α) (a b : Nat) :
    slice (l.map f) a b = (slice l a b).map f := by
  rw [slice, slice, ← List.map_take, ← List.map_drop]

/-! ## The loops -/

section Loops

variable (sigmoid : K → K) (w : ExpertWeights K E I H) (hidden : Fin T → Fin H → K)

/-- The weighted row of an assignment. -/
def weightedRow (a : Assignment K T E) : Fin T × (Fin H → K) :=
  (a.token, fun h => w.apply sigmoid a.eid (hidden a.token) h * a.weight)

theorem indexAdd_map (out : Fin T → Fin H → K) (l : List (Assignment K T E))
    (f : Assignment K T E → Fin H → K) :
    indexAdd out (l.map (·.token))
        (List.zipWith (fun (x : Fin H → K) (weight : K) h => x h * weight) (l.map f)
          (l.map (·.weight))) =
      scatter out (l.map fun a => (a.token, fun h => f a h * a.weight)) := by
  rw [indexAdd, List.zipWith_map, List.zipWith_self, List.zip_map']

/-- The rows of one expert. -/
theorem expertRows_eq {l : List (Assignment K T E)} (h : ∀ a ∈ l, a.eid = e)
    (out : Fin T → Fin H → K) :
    indexAdd out (l.map (·.token))
        (List.zipWith (fun (x : Fin H → K) (weight : K) h => x h * weight)
          (((((l.map (·.token)).map hidden).map fun x => linear x (w.w13 e)).map
            (siluMul sigmoid)).map fun x => linear x (w.w2 e)) (l.map (·.weight))) =
      scatter out (l.map (weightedRow sigmoid w hidden)) := by
  simp only [List.map_map]
  rw [indexAdd_map]
  refine congrArg (scatter out) (List.map_congr_left fun a ha => ?_)
  rw [weightedRow, h a ha]
  rfl

/-- **The loop adds the rows of the assignments from `start` on.** -/
theorem expertLoop_eq (h : Sliced sorted experts start) (out : Fin T → Fin H → K) :
    expertLoop sigmoid w hidden (sorted.map (·.token)) (sorted.map (·.weight)) experts start out =
      scatter out ((sorted.drop start).map (weightedRow sigmoid w hidden)) := by
  induction experts generalizing start out with
  | nil =>
    rw [List.map_eq_nil_iff.mp h]
    rfl
  | cons p experts ih =>
    obtain ⟨e, count⟩ := p
    obtain ⟨-, -, hrest⟩ := h.cons
    rw [← slice_append_drop sorted start count, List.map_append, scatter_append]
    by_cases hc : count = 0
    · subst hc
      rw [expertLoop, if_pos rfl, ih hrest, Nat.add_zero, slice_nil_of_le (Nat.le_refl start)]
      rfl
    · rw [expertLoop, if_neg hc, slice_map, slice_map]
      dsimp only
      rw [expertRows_eq sigmoid w hidden (fun a => h.eid_eq) out, ih hrest]

/-- The rows from an offset on are computed. -/
theorem groupGemmLoop_eq (w : Fin E → Fin n → Fin m → K) (f : Assignment K T E → Fin m → K)
    (h : Sliced sorted experts start) {output : List (Fin n → K)}
    (hlen : output.length = sorted.length) :
    groupGemmLoop w (sorted.map f) experts start output =
      output.take start ++ (sorted.drop start).map fun a => linear (f a) (w a.eid) := by
  induction experts generalizing start output with
  | nil =>
    have hnil := List.map_eq_nil_iff.mp h
    rw [hnil, groupGemmLoop, List.map_nil, List.append_nil]
    exact (List.take_of_length_le (hlen ▸ List.drop_eq_nil_iff.mp hnil)).symm
  | cons p experts ih =>
    obtain ⟨e, count⟩ := p
    obtain ⟨-, hle, hrest⟩ := h.cons
    by_cases hc : count = 0
    · subst hc
      rw [groupGemmLoop, if_pos rfl, ih hrest hlen, Nat.add_zero]
    · have hle := hle (Nat.pos_of_ne_zero hc)
      have hrows : ((slice (sorted.map f) start (start + count)).map fun x => linear x (w e)) =
          (slice sorted start (start + count)).map fun a => linear (f a) (w a.eid) := by
        rw [slice_map, List.map_map]
        exact List.map_congr_left fun a ha => by rw [h.eid_eq ha]; rfl
      have hdone : (output.take start ++
          (slice sorted start (start + count)).map fun a => linear (f a) (w a.eid)).length =
            start + count := by
        rw [List.length_append, List.length_map, length_slice hle, List.length_take]
        omega
      rw [groupGemmLoop, if_neg hc, hrows, ih hrest, List.take_left' hdone,
        ← slice_append_drop sorted start count, List.map_append, List.append_assoc]
      rw [List.length_append, hdone, List.length_drop]
      omega

theorem moeGroupGemm_eq (w : Fin E → Fin n → Fin m → K) (f : Assignment K T E → Fin m → K)
    {counts : List Nat} (h : Sliced sorted ((List.finRange E).zip counts) 0) :
    moeGroupGemm w (sorted.map f) counts = sorted.map fun a => linear (f a) (w a.eid) := by
  rw [moeGroupGemm, groupGemmLoop_eq w f h (by rw [List.length_replicate, List.length_map])]
  rfl

end Loops

end Sliced

/-! ## The grouped paths -/

section Tokens

variable (sigmoid : K → K) (w : ExpertWeights K E I H) (hidden : Fin T → Fin H → K)
  (topkIds : Fin T → Fin topK → Fin E) (topkWeights : Fin T → Fin topK → K)

omit [CommRing K] in
/-- The sizes are those of the slices. -/
theorem sliced_of_sorts {index : List Nat × List Nat} {sorted : List (Assignment K T E)}
    (h : Sorts ((flatten topkIds).map Fin.val) E index)
    (hsorted : sorted.map some = index.1.map fun i => (assignments topkIds topkWeights)[i]?) :
    Sliced sorted ((List.finRange E).zip index.2) 0 := by
  have hkey : sorted.map (fun a => a.eid.val) =
      index.1.map fun i => ((flatten topkIds).map Fin.val).getD i 0 := by
    have heid : ((flatten topkIds).map Fin.val) =
        (assignments topkIds topkWeights).map fun a => a.eid.val := by
      rw [← assignments_eid topkIds topkWeights, List.map_map]
      rfl
    have h := congrArg (List.map fun o : Option (Assignment K T E) => (o.map fun a => a.eid.val).getD 0)
      hsorted
    rw [List.map_map, List.map_map] at h
    refine h.trans (List.map_congr_left fun i _ => ?_)
    rw [heid, List.getD_eq_getElem?_getD, List.getElem?_map]
    rfl
  have hzip : (List.finRange E).zip index.2 =
      (List.finRange E).map fun e => (e, ((flatten topkIds).map Fin.val).count e.val) := by
    rw [h.sizes, histogramKernel, range_eq_map_val, List.map_map]
    have hzip := List.zip_map' (f := id) (l := List.finRange E)
      (g := fun e => ((flatten topkIds).map Fin.val).count e.val)
    rw [List.map_id] at hzip
    exact hzip
  unfold Sliced
  refine List.map_injective_iff.mpr Fin.val_injective ?_
  rw [List.drop_zero, hzip, List.flatMap_map, List.map_flatMap, List.map_map]
  refine hkey.trans (h.keys.trans ?_)
  rw [byKey, range_eq_map_val, List.flatMap_map]
  exact List.flatMap_congr fun e _ => by simp

/-- The rows of all assignments, in any order. -/
theorem scattered_eq {pairs : List (Fin T × (Fin H → K))}
    (h : pairs.Perm ((assignments topkIds topkWeights).map (weightedRow sigmoid w hidden)))
    (t : Fin T) : scatter (fun _ _ => 0) pairs t =
      weightedExperts sigmoid w hidden topkIds topkWeights t := by
  have hflat : (assignments topkIds topkWeights).map (weightedRow sigmoid w hidden) =
      (List.finRange T).flatMap fun t => (List.ofFn fun k h =>
        w.apply sigmoid (topkIds t k) (hidden t) h * topkWeights t k).map fun m => (t, m) := by
    rw [assignments, map_flatten, flatten]
    exact List.flatMap_congr fun t _ => by simp [List.map_ofFn, Function.comp_def, weightedRow]
  have hrow := received_flatMap (List.nodup_finRange T) (List.mem_finRange t) fun t =>
    List.ofFn fun k h => w.apply sigmoid (topkIds t k) (hidden t) h * topkWeights t k
  rw [scatter_apply, received_perm h, hflat, hrow, List.sum_ofFn]
  funext h
  rw [Pi.add_apply, Finset.sum_apply, zero_add, weightedExperts]
  exact Finset.sum_congr rfl fun k _ => mul_comm _ _

/-- The general branch, by either index and with either products. -/
theorem groupedExperts_eq (hE : E ≤ kMoeIndexBlock) (flags : MoeFlags)
    (launch : Launch ((flatten topkIds).map Fin.val).length E) :
    groupedExperts sigmoid w hidden topkIds topkWeights flags launch =
      .ok (weightedExperts sigmoid w hidden topkIds topkWeights) := by
  have hids : ∀ id ∈ (flatten topkIds).map Fin.val, id < E := fun id hid => by
    obtain ⟨e, -, rfl⟩ := List.mem_map.mp hid
    exact e.isLt
  obtain ⟨⟨order, counts⟩, hrun, hsorts⟩ := groupIndex_sorts hids hE flags launch
  have hlen : ((flatten topkIds).map Fin.val).length =
      (assignments topkIds topkWeights).length := by
    rw [← assignments_eid topkIds topkWeights, List.length_map, List.length_map]
  obtain ⟨sorted, hselect, hperm, hsorted⟩ :=
    indexSelect_perm (assignments topkIds topkWeights) (hlen ▸ hsorts.perm)
  have htokens : indexSelect (tokenIndex T topK) order = .ok (sorted.map (·.token)) :=
    assignments_token topkIds topkWeights ▸ indexSelect_map _ hselect
  have hweights : indexSelect (flatten topkWeights) order = .ok (sorted.map (·.weight)) :=
    assignments_weight topkIds topkWeights ▸ indexSelect_map _ hselect
  have hsliced := sliced_of_sorts topkIds topkWeights hsorts hsorted
  have hout := fun t =>
    scattered_eq sigmoid w hidden topkIds topkWeights (hperm.map (weightedRow sigmoid w hidden)) t
  refine bind_eq_ok.mpr ⟨(order, counts), hrun, bind_eq_ok.mpr ⟨_, htokens, bind_eq_ok.mpr ⟨_, hweights, ?_⟩⟩⟩
  dsimp only
  split
  · -- The grouped products give the rows of the sorted assignments.
    have hgemm1 := moeGroupGemm_eq w.w13 (fun a => hidden a.token) hsliced
    have hgemm2 := moeGroupGemm_eq w.w2
      (fun a => siluMul sigmoid (linear (hidden a.token) (w.w13 a.eid))) hsliced
    have hact : (sorted.map fun a => linear (hidden a.token) (w.w13 a.eid)).map (siluMul sigmoid) =
        sorted.map fun a => siluMul sigmoid (linear (hidden a.token) (w.w13 a.eid)) := List.map_map
    have hhidden : (sorted.map (·.token)).map hidden = sorted.map fun a => hidden a.token :=
      List.map_map
    rw [hhidden, hgemm1, hact, hgemm2, indexAdd_map]
    exact congrArg Except.ok (funext hout)
  · rw [expertLoop_eq sigmoid w hidden hsliced]
    exact congrArg Except.ok (funext hout)

/-- One expert of `moe_prefill` adds the rows of its assignments. -/
theorem prefillExpert_eq (result : Fin T → Fin H → K) (eid : Fin E) :
    prefillExpert sigmoid w hidden topkIds topkWeights result eid =
      .ok (scatter result (((assignments topkIds topkWeights).filter fun a => a.eid = eid).map
        (weightedRow sigmoid w hidden))) := by
  have hmask : ∀ i < (assignments topkIds topkWeights).length,
      decide ((flatten topkIds)[i]? = some eid) =
        (assignments topkIds topkWeights)[i]?.any fun a => a.eid = eid := by
    intro i hi
    rw [← assignments_eid topkIds topkWeights, List.getElem?_map, List.getElem?_eq_getElem hi]
    simp
  have hlen : (flatten topkIds).length = (assignments topkIds topkWeights).length := by
    rw [← assignments_eid topkIds topkWeights, List.length_map]
  have hselect := indexSelect_filter _ _ _ hmask
  have htokens := indexSelect_map (fun a : Assignment K T E => a.token) hselect
  have hweights := indexSelect_map (fun a : Assignment K T E => a.weight) hselect
  rw [assignments_token] at htokens
  rw [assignments_weight] at hweights
  unfold prefillExpert
  dsimp only
  rw [hlen]
  split
  · next hnone =>
    have hempty : ((assignments topkIds topkWeights).filter fun a => a.eid = eid) = [] := by
      rw [List.length_eq_zero_iff.mp hnone] at hselect
      exact (Except.ok.inj hselect).symm
    rw [hempty]
    rfl
  · refine bind_eq_ok.mpr ⟨_, htokens, bind_eq_ok.mpr ⟨_, hweights, ?_⟩⟩
    refine congrArg Except.ok (expertRows_eq sigmoid w hidden (fun a ha => ?_) result)
    exact of_decide_eq_true (List.mem_filter.mp ha).2

/-- `moe_prefill` -/
theorem moePrefill_eq : moePrefill sigmoid w hidden topkIds topkWeights =
    .ok (weightedExperts sigmoid w hidden topkIds topkWeights) := by
  have hloop : ∀ (eids : List (Fin E)) (result : Fin T → Fin H → K),
      eids.foldlM (prefillExpert sigmoid w hidden topkIds topkWeights) result =
        .ok (scatter result ((eids.flatMap fun e => (assignments topkIds topkWeights).filter
          fun a => a.eid = e).map (weightedRow sigmoid w hidden))) := by
    intro eids
    induction eids with
    | nil => exact fun _ => rfl
    | cons e eids ih =>
      intro result
      rw [List.foldlM_cons, prefillExpert_eq, List.flatMap_cons, List.map_append, scatter_append]
      exact ih _
  have hperm := perm_filter (fun a : Assignment K T E => a.eid) (assignments topkIds topkWeights)
    (List.nodup_finRange E)
  have hall : ((assignments topkIds topkWeights).filter fun a => a.eid ∈ List.finRange E) =
      assignments topkIds topkWeights := List.filter_eq_self.mpr fun a _ => by simp
  rw [hall] at hperm
  rw [moePrefill, hloop]
  exact congrArg Except.ok (funext (scattered_eq sigmoid w hidden topkIds topkWeights (hperm.map _)))

end Tokens

/-! ## One token -/

/-- An accumulating loop. -/
theorem foldl_add {κ M : Type} [AddCommMonoid M] (f : κ → M) (l : List κ) (init : M) :
    l.foldl (fun sum k => sum + f k) init = init + (l.map f).sum := by
  induction l generalizing init with
  | nil => simp
  | cons k l ih => rw [List.foldl_cons, ih, List.map_cons, List.sum_cons, add_assoc]

theorem foldl_finRange {M : Type} [AddCommMonoid M] (f : Fin n → M) :
    (List.finRange n).foldl (fun sum k => sum + f k) 0 = ∑ k, f k := by
  rw [foldl_add, zero_add, Fin.sum_univ_def]

section OneToken

variable (sigmoid : K → K) (w : ExpertWeights K E I H) (hidden : Fin H → K)
  (eids : Fin topK → Fin E) (ws : Fin topK → K)

theorem directRouted_eq : directRouted sigmoid w hidden eids ws =
    fun h => ∑ k, ws k * w.apply sigmoid (eids k) hidden h := funext fun _ => foldl_finRange _

theorem moeDecode_eq : moeDecode sigmoid w hidden eids ws =
    fun h => ∑ k, ws k * w.apply sigmoid (eids k) hidden h := by
  refine (foldl_finRange fun k h => ws k * w.apply sigmoid (eids k) hidden h).trans ?_
  funext h
  exact Finset.sum_apply h _ _

theorem moeDecodeFused_eq :
    moeDecodeFused sigmoid hidden ws (fun k => w.w13 (eids k)) (fun k => w.w2 (eids k)) =
      fun h => ∑ k, ws k * w.apply sigmoid (eids k) hidden h := by
  funext h
  refine Finset.sum_congr rfl fun k _ => ?_
  rw [mul_comm]
  refine congrArg (ws k * ·) (Finset.sum_congr rfl fun i _ => ?_)
  refine congrArg (· * _) ?_
  show sigmoid _ * _ * _ = _ * sigmoid _ * _
  rw [mul_comm (sigmoid _)]
  rfl

/-- With at least one expert for a token. -/
theorem selectedLinear_eq (htopK : 0 < topK) (flags : MoeFlags) :
    selectedLinear sigmoid w hidden eids ws flags =
      .ok fun h => ∑ k, ws k * w.apply sigmoid (eids k) hidden h := by
  have hview : ∀ (k : Fin topK) (j : Fin (2 * I)),
      (finProdFinEquiv (k, j)).divNat = k ∧ (finProdFinEquiv (k, j)).modNat = j := fun k j =>
    Prod.ext_iff.mp (finProdFinEquiv.symm_apply_apply (k, j))
  have hgateUp : ∀ k : Fin topK, (fun j : Fin (2 * I) =>
      linear hidden (fun p => w.w13 (eids p.divNat) p.modNat) (finProdFinEquiv (k, j))) =
        linear hidden (w.w13 (eids k)) := by
    intro k
    funext j
    show ∑ h, hidden h * w.w13 (eids (finProdFinEquiv (k, j)).divNat)
      (finProdFinEquiv (k, j)).modNat h = _
    rw [(hview k j).1, (hview k j).2]
    rfl
  have hout : ∀ (k : Fin topK) (h : Fin H), bmm (fun k => w.w2 (eids k))
      (fun k i (_ : Fin 1) => siluMul sigmoid (linear hidden (w.w13 (eids k))) i) k h 0 =
        w.apply sigmoid (eids k) hidden h := fun k h =>
    Finset.sum_congr rfl fun i _ => mul_comm _ _
  have hsum : ∀ h, ∑ k, w.apply sigmoid (eids k) hidden h * ws k =
      ∑ k, ws k * w.apply sigmoid (eids k) hidden h := fun h =>
    Finset.sum_congr rfl fun k _ => mul_comm _ _
  unfold selectedLinear
  rw [guardNot_bind, if_neg (Nat.ne_of_gt htopK)]
  simp only [hgateUp, hout, foldl_finRange, hsum]
  split <;> rfl

theorem decodeToken_eq (htopK : 0 < topK) (flags : MoeFlags) :
    decodeToken sigmoid w hidden eids ws flags =
      .ok fun h => ∑ k, ws k * w.apply sigmoid (eids k) hidden h := by
  unfold decodeToken
  dsimp only
  split
  · rw [directRouted_eq]
    rfl
  · split
    · rw [moeDecodeFused_eq]
      rfl
    · exact selectedLinear_eq sigmoid w hidden eids ws htopK flags

end OneToken

/-! ## The paths -/

section Paths

variable (sigmoid : K → K) (w : ExpertWeights K E I H) (hidden : Fin T → Fin H → K)
  (topkIds : Fin T → Fin topK → Fin E) (topkWeights : Fin T → Fin topK → K)

theorem purePytorchExperts_eq (hE : E ≤ kMoeIndexBlock) (htopK : 0 < topK) (flags : MoeFlags)
    (launch : Launch ((flatten topkIds).map Fin.val).length E) :
    purePytorchExperts sigmoid w hidden topkIds topkWeights flags launch =
      .ok (weightedExperts sigmoid w hidden topkIds topkWeights) := by
  unfold purePytorchExperts
  split
  · next hT =>
    subst hT
    refine bind_eq_ok.mpr ⟨_, decodeToken_eq sigmoid w _ _ _ htopK flags, ?_⟩
    refine congrArg Except.ok (funext fun t => ?_)
    rw [Subsingleton.elim t ⟨0, Nat.one_pos⟩]
    rfl
  · exact groupedExperts_eq sigmoid w hidden topkIds topkWeights hE flags launch

/-- **The paths agree.** For any number of tokens, the grouped branch and `moe_prefill` give a token
what `moe_decode` and the branch for one token give it alone: the weighted sum of the outputs of its
experts. The branch for one token needs an expert for the token. -/
theorem moe_paths_agree (hE : E ≤ kMoeIndexBlock) (flags : MoeFlags)
    (launch : Launch ((flatten topkIds).map Fin.val).length E) :
    ∃ out, (∀ t h, out t h = ∑ k, topkWeights t k * w.apply sigmoid (topkIds t k) (hidden t) h) ∧
      groupedExperts sigmoid w hidden topkIds topkWeights flags launch = .ok out ∧
      moePrefill sigmoid w hidden topkIds topkWeights = .ok out ∧
      (∀ t, moeDecode sigmoid w (hidden t) (topkIds t) (topkWeights t) = out t) ∧
      (0 < topK →
        purePytorchExperts sigmoid w hidden topkIds topkWeights flags launch = .ok out ∧
        ∀ t (flags : MoeFlags) launch, purePytorchExperts sigmoid w (fun (_ : Fin 1) => hidden t)
          (fun _ => topkIds t) (fun _ => topkWeights t) flags launch = .ok fun _ => out t) := by
  refine ⟨weightedExperts sigmoid w hidden topkIds topkWeights, fun t h => rfl,
    groupedExperts_eq sigmoid w hidden topkIds topkWeights hE flags launch,
    moePrefill_eq sigmoid w hidden topkIds topkWeights,
    fun t => moeDecode_eq sigmoid w (hidden t) (topkIds t) (topkWeights t), fun htopK => ⟨?_, ?_⟩⟩
  · exact purePytorchExperts_eq sigmoid w hidden topkIds topkWeights hE htopK flags launch
  · exact fun t flags launch => purePytorchExperts_eq sigmoid w _ _ _ hE htopK flags launch

end Paths

/-- The increments in reverse. -/
def reverseLaunch (n numExperts : Nat) : Launch n numExperts where
  order := (List.range n).reverse
  order_perm := List.reverse_perm _
  uninit := ⟨List.replicate numExperts 7, List.replicate n 7, List.replicate n 7⟩
  offsets_length := List.length_replicate
  srcDst_length := List.length_replicate
  dstSrc_length := List.length_replicate

/-- Two tokens: the first one selects an expert twice, and an expert is selected by no token. -/
theorem moe_paths_agree_two :
    let w : ExpertWeights Int 3 1 1 := ⟨fun e _ _ => e.val + 1, fun e _ _ => e.val + 2⟩
    let hidden : Fin 2 → Fin 1 → Int := fun t _ => t.val + 1
    let topkIds : Fin 2 → Fin 2 → Fin 3 := fun t k => if t = 0 then 2 else if k = 0 then 2 else 0
    let topkWeights : Fin 2 → Fin 2 → Int := fun t k => t.val + 3 * k.val + 1
    let flags : MoeFlags := ⟨false, false, false, true, true, true⟩
    groupedExperts id w hidden topkIds topkWeights flags (reverseLaunch _ _) =
      moePrefill id w hidden topkIds topkWeights := by
  intro w hidden topkIds topkWeights flags
  obtain ⟨out, -, hgrouped, hprefill, -⟩ := moe_paths_agree id w hidden topkIds topkWeights
    (by decide) flags (reverseLaunch _ _)
  exact hgrouped.trans hprefill.symm

end Bi100.Moe
