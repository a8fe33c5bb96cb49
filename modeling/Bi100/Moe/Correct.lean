import Bi100.Moe.Placed
import Mathlib.Algebra.Order.Ring.Int
import Mathlib.Algebra.Ring.Int.Defs

/-!
# When the pipeline is right

- `groupGemm_ok`: the rows are processed by the experts of the sorted routing.
- `fusedMoeForward_one_ok`: with one expert for each token, token `t` gets the row of the token whose
  index was placed at `t`. Nothing undoes the placement.
- With more experts for each token, the index of a routed pair is used as the index of a token
  (`fusedMoeForward_many`).
-/

namespace Bi100.Moe

open Py Segments

variable {ids order : List Nat} {numExperts e : Nat} {α β : Type}

/-! ## The expert products -/

theorem mapM_segment (f : Nat → α → β) {xs : List α} {offset count : Nat}
    (h : offset + count ≤ xs.length) :
    ((List.range count).mapM fun (i : Nat) => do
      let row ← read xs (offset + i)
      pure (f e row)) = .ok (((xs.drop offset).take count).map (f e)) := by
  have hlen : (((xs.drop offset).take count).map (f e)).length = count := by
    rw [List.length_map, List.length_take, List.length_drop]
    omega
  refine Eq.trans (congrArg (fun n => (List.range n).mapM _) hlen.symm)
    (mapM_range_eq_ok _ fun i b hb => ?_)
  have hi : i < count := hlen ▸ (List.getElem?_eq_some_iff.mp hb).1
  rw [List.getElem?_map, List.getElem?_take_of_lt hi, List.getElem?_drop] at hb
  obtain ⟨row, hrow, rfl⟩ := Option.map_eq_some_iff.mp hb
  exact bind_eq_ok.mpr ⟨row, read_ok hrow, rfl⟩

theorem zipWith_replicate_map (f : Nat → α → β) {count : Nat} {xs : List α}
    (h : xs.length = count) : List.zipWith f (List.replicate count e) xs = xs.map (f e) := by
  induction xs generalizing count with
  | nil => simp
  | cons x xs ih =>
    subst h
    rw [List.length_cons, List.replicate_succ, List.zipWith_cons_cons, ih rfl, List.map_cons]

theorem groupGemmFrom_ok (f : Nat → α → β) {xs : List α} (n : Nat)
    (h : below ids (e + n) ≤ xs.length) :
    groupGemmFrom f xs e (below ids e) ((List.range' e n).map fun e => ids.count e) =
      .ok (List.zipWith f ((List.range' e n).flatMap fun e => List.replicate (ids.count e) e)
        (xs.drop (below ids e))) := by
  induction n generalizing e with
  | zero => rfl
  | succ n ih =>
    have hnext := below_succ ids e
    have hmono : below ids (e + 1) ≤ below ids (e + (n + 1)) := below_mono (by omega)
    have hrest := ih (e := e + 1) (by rwa [Nat.add_assoc, Nat.add_comm 1])
    rw [List.range'_succ, List.map_cons, List.flatMap_cons, groupGemmFrom,
      mapM_segment f (by omega), ← hnext]
    refine bind_eq_ok.mpr ⟨_, rfl, bind_eq_ok.mpr ⟨_, hrest, ?_⟩⟩
    have hlen : ((xs.drop (below ids e)).take (ids.count e)).length = ids.count e := by
      rw [List.length_take, List.length_drop]
      omega
    have hsplit : xs.drop (below ids e) = (xs.drop (below ids e)).take (ids.count e) ++
        xs.drop (below ids (e + 1)) := by
      rw [hnext, ← List.drop_drop, List.take_append_drop]
    conv_rhs => rw [hsplit, List.zipWith_append (List.length_replicate.trans hlen.symm),
      zipWith_replicate_map f hlen]
    rfl

/-- The rows of the experts, one expert after the other. -/
theorem groupGemm_ok (f : Nat → α → β) {xs : List α}
    (hlen : xs.length = ids.length) :
    groupGemm f xs (histogramKernel ids numExperts) =
      .ok (List.zipWith f (byKey ids numExperts) xs) := by
  have h := groupGemmFrom_ok (e := 0) f numExperts (hlen ▸ below_le ids _)
  rw [below_zero, ← List.range_eq_range'] at h
  exact h

/-! ## One expert for each token -/

variable {K : Type} [Ring K] {H : Nat}

/-- Every place has an index. -/
theorem Placed.perm {p : Placement} (hp : Placed ids numExperts order p)
    (horder : order.Perm (List.range ids.length)) : p.dstSrc.Perm (List.range ids.length) := by
  have hsub : List.range ids.length ⊆ p.dstSrc := fun idx hidx => by
    have he := List.getElem?_eq_getElem (List.mem_range.mp hidx)
    obtain ⟨pre, post, -, hplace⟩ := hp.exists_place horder he
    exact List.mem_of_getElem? hplace
  refine ((List.subperm_of_subset List.nodup_range hsub).perm_of_length_le ?_).symm
  rw [hp.dstSrc_length, List.length_range]

/-- The row that token `t` gets, for the places of the indices. -/
def gathered (hidden : List (Fin H → K)) (dstSrc : List Nat) : List (Fin H → K) :=
  dstSrc.map fun s => hidden.getD s 0

theorem expand_ok {hidden : List (Fin H → K)} {dstSrc : List Nat}
    (h : ∀ s ∈ dstSrc, s < hidden.length) :
    moeExpandInput hidden dstSrc dstSrc.length = .ok (gathered hidden dstSrc) := by
  have hlen : (gathered hidden dstSrc).length = dstSrc.length := List.length_map _
  refine Eq.trans (congrArg (fun n => (List.range n).mapM _) hlen.symm)
    (mapM_range_eq_ok _ fun i row hrow => ?_)
  rw [gathered, List.getElem?_map] at hrow
  obtain ⟨s, hs, rfl⟩ := Option.map_eq_some_iff.mp hrow
  have hlt := h s (List.mem_of_getElem? hs)
  refine bind_eq_ok.mpr ⟨s, read_ok hs, read_ok ?_⟩
  rw [List.getElem?_eq_getElem hlt, List.getD_eq_getElem?_getD, List.getElem?_eq_getElem hlt]
  rfl

theorem combine_one_ok {rows : List (Fin H → K)} {weights : List K}
    (h : weights.length = rows.length) :
    moeCombineResult rows weights 1 = .ok (List.zipWith (fun w row h => w * row h) weights rows) := by
  have hlen : (List.zipWith (fun w (row : Fin H → K) h => w * row h) weights rows).length =
      rows.length / 1 := by
    rw [List.length_zipWith, h, Nat.min_self, Nat.div_one]
  rw [moeCombineResult, guardNot_bind, if_neg Nat.one_ne_zero]
  refine Eq.trans (congrArg (fun n => (List.range n).mapM _) hlen.symm)
    (mapM_range_eq_ok _ fun t out hout => ?_)
  obtain ⟨w, row, hw, hrow, rfl⟩ := List.getElem?_zipWith_eq_some.mp hout
  rw [combineToken, List.range_one, List.foldlM_cons, Nat.mul_one]
  refine bind_eq_ok.mpr ⟨_, bind_eq_ok.mpr ⟨w, read_ok hw, bind_eq_ok.mpr ⟨row, read_ok hrow, rfl⟩⟩, ?_⟩
  refine congrArg Except.ok (funext fun h => ?_)
  exact zero_add _

theorem zipWith_map_zipWith {γ δ : Type} (f : Nat → γ → δ) (g : β → γ) (k : Nat → α → β)
    {keys : List Nat} {xs : List α} : List.zipWith f keys ((List.zipWith k keys xs).map g) =
      List.zipWith (fun e x => f e (g (k e x))) keys xs := by
  induction keys generalizing xs with
  | nil => rfl
  | cons e keys ih =>
    cases xs with
    | nil => rfl
    | cons x xs => exact congrArg (_ :: ·) ih

/-- With one expert for each token. -/
theorem fusedMoeForward_one_ok (x : Experts K H) {hidden : List (Fin H → K)} {weights : List K}
    {p : Placement} (hids : ∀ id ∈ ids, id < numExperts) (hhidden : hidden.length = ids.length)
    (hweights : weights.length = ids.length) (horder : order.Perm (List.range ids.length))
    (hrun : moeGenIdx ids numExperts order = .ok (p, histogramKernel ids numExperts))
    (hp : Placed ids numExperts order p) :
    fusedMoeForward x hidden ids weights 1 numExperts order =
      .ok (List.zipWith (fun w row h => w * row h) weights
        (List.zipWith x.apply (byKey ids numExperts) (gathered hidden p.dstSrc))) := by
  have hperm := hp.perm horder
  have hlen : (gathered hidden p.dstSrc).length = ids.length :=
    (List.length_map _).trans hp.dstSrc_length
  have hkeys : (byKey ids numExperts).length = ids.length := (byKey_perm hids).length_eq
  have hexpand : moeExpandInput hidden p.dstSrc (hidden.length * 1) =
      .ok (gathered hidden p.dstSrc) := by
    rw [Nat.mul_one, hhidden, ← hp.dstSrc_length]
    refine expand_ok fun s hs => ?_
    rw [hhidden]
    exact List.mem_range.mp (hperm.mem_iff.mp hs)
  have hrows : ∀ {γ : Type} (f : Nat → (Fin H → K) → γ),
      (List.zipWith f (byKey ids numExperts) (gathered hidden p.dstSrc)).length = ids.length := by
    intro γ f
    rw [List.length_zipWith, hkeys, hlen, Nat.min_self]
  have hdown : groupGemm x.down _ (histogramKernel ids numExperts) = .ok _ :=
    groupGemm_ok x.down ((List.length_map x.siluAndMul).trans (hrows x.gateUp))
  rw [zipWith_map_zipWith] at hdown
  refine bind_eq_ok.mpr ⟨_, hrun, bind_eq_ok.mpr ⟨_, hexpand,
    bind_eq_ok.mpr ⟨_, groupGemm_ok x.gateUp hlen, bind_eq_ok.mpr ⟨_, hdown, ?_⟩⟩⟩⟩
  exact combine_one_ok (hweights.trans (hrows x.apply).symm)

/-- What the pipeline should compute for one expert for each token. -/
theorem moeForward_one (x : Experts K H) {hidden : List (Fin H → K)} {weights : List K}
    (hhidden : hidden.length = ids.length) (hweights : weights.length = ids.length) :
    moeForward x hidden ids weights 1 =
      List.zipWith (fun w row h => w * row h) weights (List.zipWith x.apply ids hidden) := by
  refine List.ext_getElem? fun t => ?_
  rw [moeForward, List.getElem?_mapIdx, List.getElem?_zipWith, List.getElem?_zipWith]
  by_cases ht : t < ids.length
  · have hh : t < hidden.length := hhidden.symm ▸ ht
    have hw : t < weights.length := hweights.symm ▸ ht
    rw [List.getElem?_eq_getElem ht, List.getElem?_eq_getElem hh, List.getElem?_eq_getElem hw]
    refine congrArg some (funext fun h => ?_)
    simp [moeToken, ht, hw]
  · rw [List.getElem?_eq_none (by omega), List.getElem?_eq_none (by omega : weights.length ≤ t)]
    rfl

/-- Strictly increasing experts are placed at their own tokens. -/
theorem gathered_sorted {hidden : List (Fin H → K)} {p : Placement}
    (hp : Placed ids numExperts order p) (horder : order.Perm (List.range ids.length))
    (hs : ids.Pairwise (· < ·)) (hhidden : hidden.length = ids.length) :
    gathered hidden p.dstSrc = hidden := by
  refine List.ext_getElem? fun t => ?_
  rw [gathered, List.getElem?_map]
  by_cases ht : t < ids.length
  · have he := List.getElem?_eq_getElem ht
    obtain ⟨pre, post, hsplit, hplace⟩ := hp.exists_place horder he
    have hcount := countAt_le (horder.nodup_iff.mpr List.nodup_range)
      (fun i hi => List.mem_range.mp (horder.mem_iff.mp hi)) ids[t]
    have hone := List.nodup_iff_count_le_one.mp (hs.imp fun h => Nat.ne_of_lt h) ids[t]
    rw [hsplit, countAt_append, countAt_cons_self _ he] at hcount
    have hpre : countAt ids pre ids[t] = 0 := by omega
    rw [hpre, Nat.add_zero, below_of_sorted hs he] at hplace
    have hh : t < hidden.length := hhidden.symm ▸ ht
    rw [hplace, Option.map_some, List.getElem?_eq_getElem hh]
    simp [hh]
  · have hlen := hp.dstSrc_length
    rw [List.getElem?_eq_none (by omega), List.getElem?_eq_none (by omega)]
    rfl

theorem moeCorrect_sorted (hids : ∀ id ∈ ids, id < numExperts) (hs : ids.Pairwise (· < ·)) :
    MoeCorrect K H ids.length 1 numExperts ids := by
  intro x hidden weights order hhidden hweights horder
  rw [Nat.mul_one] at hweights
  obtain ⟨p, hrun, hp⟩ := moeGenIdx_ok hids horder
  rw [fusedMoeForward_one_ok x hids hhidden hweights horder hrun hp, byKey_of_sorted hids (hs.imp Nat.le_of_lt), gathered_sorted hp horder hs hhidden,
    moeForward_one x hhidden hweights]

/-- Experts that change nothing. -/
def passThrough (K : Type) [Ring K] (H : Nat) : Experts K H :=
  ⟨fun _ row => List.ofFn row, id, fun _ row h => row.getD h 0⟩

theorem passThrough_apply (e : Nat) (row : Fin H → K) : (passThrough K H).apply e row = row := by
  funext h
  simp [passThrough, Experts.apply]

theorem zipWith_passThrough {keys : List Nat} {rows : List (Fin H → K)}
    (h : rows.length = keys.length) : List.zipWith (passThrough K H).apply keys rows = rows := by
  refine List.ext_getElem? fun t => ?_
  rw [List.getElem?_zipWith]
  by_cases ht : t < rows.length
  · rw [List.getElem?_eq_getElem ht, List.getElem?_eq_getElem (h ▸ ht)]
    exact congrArg some (passThrough_apply _ _)
  · rw [List.getElem?_eq_none (by omega), List.getElem?_eq_none (by omega)]

/-- If the pipeline is right, every index is placed at its token. -/
theorem MoeCorrect.places [Nontrivial K] (hH : 0 < H) (hids : ∀ id ∈ ids, id < numExperts)
    (hc : MoeCorrect K H ids.length 1 numExperts ids)
    (horder : order.Perm (List.range ids.length)) {p : Placement}
    (hrun : moeGenIdx ids numExperts order = .ok (p, histogramKernel ids numExperts))
    (hp : Placed ids numExperts order p) {t s : Nat} (hs : p.dstSrc[t]? = some s) : s = t := by
  -- Only the row of token `s` is not zero.
  let hidden : List (Fin H → K) := (List.range ids.length).map fun i _ => if i = s then 1 else 0
  let weights : List K := List.replicate ids.length 1
  have hhidden : hidden.length = ids.length := by simp [hidden]
  have hweights : weights.length = ids.length := List.length_replicate
  have hgathered : (gathered hidden p.dstSrc).length = ids.length :=
    (List.length_map _).trans hp.dstSrc_length
  have heq := hc (passThrough K H) hidden weights order hhidden (by rw [hweights, Nat.mul_one]) horder
  rw [fusedMoeForward_one_ok _ hids hhidden hweights horder hrun hp, moeForward_one _ hhidden hweights,
    zipWith_passThrough (hgathered.trans (byKey_perm hids).length_eq.symm),
    zipWith_passThrough hhidden] at heq
  have ht : t < ids.length := hp.dstSrc_length ▸ (List.getElem?_eq_some_iff.mp hs).1
  have hslt : s < ids.length :=
    List.mem_range.mp ((hp.perm horder).mem_iff.mp (List.mem_of_getElem? hs))
  have hg : (gathered hidden p.dstSrc)[t]? = some fun _ => 1 := by
    rw [gathered, List.getElem?_map, hs]
    simp [hidden, hslt]
  have hh : hidden[t]? = some fun _ => if t = s then 1 else 0 := by simp [hidden, ht]
  have hw : weights[t]? = some 1 := by simp [weights, ht]
  have hrow := List.ext_getElem?_iff.mp (Except.ok.inj heq) t
  rw [List.getElem?_zipWith, List.getElem?_zipWith, hw, hg, hh] at hrow
  have hvalue := congrFun (Option.some.inj hrow) ⟨0, hH⟩
  by_contra hne
  rw [if_neg (Ne.symm hne), mul_one, mul_zero] at hvalue
  exact one_ne_zero hvalue

theorem range'_split {i j n : Nat} (hij : i ≤ j) (hj : j < n) : List.range' i (n - i) =
    List.range' i (j - i) ++ j :: List.range' (j + 1) (n - (j + 1)) := by
  have hlen : n - i = (j - i) + (n - j) := by omega
  have hrest : n - j = n - (j + 1) + 1 := by omega
  have hstart : i + 1 * (j - i) = j := by omega
  rw [hlen, ← List.range'_append, hstart, hrest, List.range'_succ]

/-- The indices from a place on come before it in reverse order. -/
theorem reverse_range_split {i n : Nat} (h : i < n) : (List.range n).reverse =
    (List.range' (i + 1) (n - (i + 1))).reverse ++ i :: (List.range' 0 (i - 0)).reverse := by
  have hsplit := range'_split (Nat.zero_le i) h
  rw [Nat.sub_zero n] at hsplit
  rw [List.range_eq_range', hsplit, List.reverse_append, List.reverse_cons, List.append_assoc,
    List.singleton_append]

/-- If the pipeline is right, the experts increase. -/
theorem MoeCorrect.sorted [Nontrivial K] (hH : 0 < H) (hids : ∀ id ∈ ids, id < numExperts)
    (hc : MoeCorrect K H ids.length 1 numExperts ids) : ids.Pairwise (· < ·) := by
  have horder := List.reverse_perm (List.range ids.length)
  obtain ⟨p, hrun, hp⟩ := moeGenIdx_ok hids horder
  have hplace : ∀ i e, ids[i]? = some e →
      below ids e + countAt ids (List.range' (i + 1) (ids.length - (i + 1))) e = i := by
    intro i e he
    obtain ⟨-, hdst⟩ := hp.at_place _ i _ e
      (reverse_range_split (List.getElem?_eq_some_iff.mp he).1) he
    rw [countAt, List.countP_reverse] at hdst
    exact (hc.places hH hids horder hrun hp hdst).symm
  refine List.pairwise_iff_getElem.mpr fun i j hi hj hij => ?_
  have hei := List.getElem?_eq_getElem hi
  have hej := List.getElem?_eq_getElem hj
  have hpi := hplace i _ hei
  have hpj := hplace j _ hej
  by_contra hge
  rcases Nat.lt_or_eq_of_le (Nat.le_of_not_lt hge) with hlt | heq
  · -- The segment of the smaller expert comes first.
    have hnodup : (j :: List.range' (j + 1) (ids.length - (j + 1))).Nodup := by
      rw [← List.range'_succ]
      exact List.nodup_range'
    have hmem : ∀ k ∈ j :: List.range' (j + 1) (ids.length - (j + 1)), k < ids.length := by
      intro k hk
      rw [← List.range'_succ, List.mem_range'_1] at hk
      omega
    have hcount := countAt_le hnodup hmem ids[j]
    rw [countAt_cons_self _ hej] at hcount
    have hseg : below ids ids[j] + countAt ids (List.range' (j + 1) (ids.length - (j + 1))) ids[j] <
        below ids ids[i] + countAt ids (List.range' (i + 1) (ids.length - (i + 1))) ids[i] :=
      segment_lt hlt hcount
    omega
  · -- The later token of one expert is placed first.
    rw [range'_split hij hj, countAt_append, ← heq, countAt_cons_self _ hej] at hpi
    omega

/-! ## More experts for each token -/

/-- The index of the last pair is not the index of a token. -/
theorem fusedMoeForward_many (x : Experts K H) {hidden : List (Fin H → K)} {weights : List K}
    {topk : Nat} (hids : ∀ id ∈ ids, id < numExperts) (hlen : ids.length = hidden.length * topk)
    (hpos : 0 < hidden.length) (htopk : 2 ≤ topk) (horder : order.Perm (List.range ids.length)) :
    fusedMoeForward x hidden ids weights topk numExperts order = .error .outOfBounds := by
  obtain ⟨p, hrun, hp⟩ := moeGenIdx_ok hids horder
  have hmany : hidden.length < ids.length := by
    rw [hlen]
    exact Nat.lt_of_lt_of_le (by omega) (Nat.mul_le_mul_left hidden.length htopk)
  have hperm := hp.perm horder
  have hread : ∀ t, t < ids.length → ∃ s, p.dstSrc[t]? = some s := fun t ht =>
    ⟨_, List.getElem?_eq_getElem (hp.dstSrc_length.symm ▸ ht)⟩
  have hexpand : moeExpandInput hidden p.dstSrc (hidden.length * topk) = .error .outOfBounds := by
    refine mapM_eq_error (fun t ht => ?_) ?_
    · obtain ⟨s, hs⟩ := hread t (hlen.symm ▸ List.mem_range.mp ht)
      rw [read_ok hs]
      by_cases hlt : s < hidden.length
      · exact .inr ⟨_, read_ok (List.getElem?_eq_getElem hlt)⟩
      · exact .inl (read_error (Nat.le_of_not_lt hlt))
    · have hmem : ids.length - 1 ∈ p.dstSrc := hperm.mem_iff.mpr (List.mem_range.mpr (by omega))
      obtain ⟨t, ht⟩ := List.mem_iff_getElem?.mp hmem
      have hlt := (List.getElem?_eq_some_iff.mp ht).1
      refine ⟨t, List.mem_range.mpr (hlen ▸ hp.dstSrc_length ▸ hlt), ?_⟩
      rw [read_ok ht]
      exact read_error (by omega)
  rw [fusedMoeForward, hrun]
  show (moeExpandInput hidden p.dstSrc _ >>= _) = _
  rw [hexpand]
  rfl

theorem moeCorrect_empty {topk : Nat} (htopk : 0 < topk) : MoeCorrect K H 0 topk numExperts [] := by
  intro x hidden weights order hhidden hweights horder
  obtain rfl := List.length_eq_zero_iff.mp hhidden
  have hids : ∀ id ∈ [], id < numExperts := fun id hid => absurd hid List.not_mem_nil
  obtain ⟨p, hrun, -⟩ := moeGenIdx_ok hids horder
  have hgemm : ∀ {γ δ : Type} (f : Nat → γ → δ),
      groupGemm f [] (histogramKernel [] numExperts) = .ok [] := by
    intro γ δ f
    rw [groupGemm_ok f rfl, List.zipWith_nil_right]
  have hexpand : moeExpandInput ([] : List (Fin H → K)) p.dstSrc (0 * topk) = .ok [] := by
    rw [Nat.zero_mul]
    rfl
  refine bind_eq_ok.mpr ⟨_, hrun, bind_eq_ok.mpr ⟨_, hexpand, bind_eq_ok.mpr ⟨_, hgemm x.gateUp,
    bind_eq_ok.mpr ⟨_, hgemm x.down, ?_⟩⟩⟩⟩
  rw [moeCombineResult, guardNot_bind, if_neg htopk.ne', List.length_nil, Nat.zero_div]
  rfl

/-- The pipeline is right exactly when there is nothing to route, or every token has one expert and
the experts increase with the tokens. -/
theorem moe_correct_iff {K : Type} [Ring K] [Nontrivial K] {H numTokens topk numExperts : Nat}
    {topkIds : List Nat} (hH : 0 < H) (hlen : topkIds.length = numTokens * topk)
    (hids : ∀ id ∈ topkIds, id < numExperts) :
    MoeCorrect K H numTokens topk numExperts topkIds ↔
      0 < topk ∧ numTokens = 0 ∨ topk = 1 ∧ topkIds.Pairwise (· < ·) := by
  constructor
  · intro hc
    have htopk : 0 < topk := by
      by_contra h0
      obtain rfl := Nat.eq_zero_of_not_pos h0
      -- The view of the rows fails.
      have hrun := hc (passThrough K H) (List.replicate numTokens 0) [] (List.range topkIds.length)
        List.length_replicate rfl (List.Perm.refl _)
      obtain ⟨⟨p, sizes⟩, -, hrun⟩ := bind_eq_ok.mp hrun
      obtain ⟨expanded, -, hrun⟩ := bind_eq_ok.mp hrun
      obtain ⟨gateUp, -, hrun⟩ := bind_eq_ok.mp hrun
      obtain ⟨down, -, hrun⟩ := bind_eq_ok.mp hrun
      exact (guardNot_bind_eq_ok.mp hrun).1 rfl
    by_cases hzero : numTokens = 0
    · exact .inl ⟨htopk, hzero⟩
    have hone : topk = 1 := by
      by_contra hne
      have hrun := hc (passThrough K H) (List.replicate numTokens 0)
        (List.replicate (numTokens * topk) 0) (List.range topkIds.length) List.length_replicate
        List.length_replicate (List.Perm.refl _)
      rw [fusedMoeForward_many _ hids (by rw [List.length_replicate, hlen])
        (by rw [List.length_replicate]; omega) (by omega) (List.Perm.refl _)] at hrun
      cases hrun
    subst hone
    rw [Nat.mul_one] at hlen
    subst hlen
    exact .inr ⟨rfl, hc.sorted hH hids⟩
  · rintro (⟨htopk, rfl⟩ | ⟨rfl, hs⟩)
    · rw [Nat.zero_mul, List.length_eq_zero_iff] at hlen
      subst hlen
      exact moeCorrect_empty htopk
    · rw [Nat.mul_one] at hlen
      subst hlen
      exact moeCorrect_sorted hids hs

/-- Two tokens of two experts. -/
theorem moe_correct_iff_two : MoeCorrect ℤ 1 2 1 2 [0, 1] :=
  (moe_correct_iff (by decide) rfl (by decide)).mpr (.inr ⟨rfl, by decide⟩)

/-- One token with two experts is read out of bounds in every order, and two tokens whose experts
decrease get the rows of each other. -/
theorem moe_faults :
    (∀ order : List Nat, order.Perm (List.range 2) →
      fusedMoeForward (passThrough ℤ 1) [fun _ => 5] [0, 1] [1, 1] 2 2 order = .error .outOfBounds) ∧
    ¬ MoeCorrect ℤ 1 2 1 2 [1, 0] :=
  ⟨fun _ horder => fusedMoeForward_many _ (by decide) rfl (by decide) (Nat.le_refl 2) horder,
    fun hc => absurd (MoeCorrect.sorted (show 0 < 1 by decide) (show ∀ id ∈ [1, 0], id < 2 by decide)
      hc) (by decide)⟩

end Bi100.Moe
