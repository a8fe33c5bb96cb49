import Bi100.Attention.HeadSelection
import Mathlib.Logic.Nontrivial.Basic

/-!
# Every query head attends to its own group

- `new_eq_ok`: the layers that the constructor makes.
- `attend_packed`, `attend_sharded`: what the query heads of a rank attend to.
- `attends_iff`: the query heads attend to the KV heads of their groups exactly if `GroupCond` holds:
  replicated KV heads need all query heads of the rank in one group.
-/

namespace Bi100.Attention.HeadSelection

open Py

variable {R : Type} {cfg : TextConfig} {tpSize : Nat}

namespace TextConfig

/-- The query heads of a rank. -/
def localNumHeads (cfg : TextConfig) (tpSize : Nat) : Nat := cfg.numAttentionHeads / tpSize

/-- The query heads of a KV head. -/
def groupSize (cfg : TextConfig) : Nat := cfg.numAttentionHeads / cfg.numKeyValueHeads

end TextConfig

/-- Query head `head` with KV head `kvHead`. -/
def Checkpoint.attended (ck : Checkpoint R cfg) (head kvHead : Nat) : Attended R where
  query := (headAt ck.qProj (cfg.headDim * 2) head).take cfg.headDim
  key := headAt ck.kProj cfg.headDim kvHead
  value := headAt ck.vProj cfg.headDim kvHead

/-- Whatever the weights, the query heads of the rank attend to the KV heads of their groups. -/
def AttendsOwnGroup (R : Type) (cfg : TextConfig) (tpSize tpRank : Nat) : Prop :=
  ∀ (ck : Checkpoint R cfg) (fresh : Nat → R), ∀ i < cfg.localNumHeads tpSize,
    let head := tpRank * cfg.localNumHeads tpSize + i
    ∃ attended, attend cfg tpSize tpRank ck fresh = .ok attended ∧
      attended[i]? = some (ck.attended head (head / cfg.groupSize))

/-- The ranks divide the query heads, and either they divide the KV heads too, or the first and the
last query head of the rank are of one KV head. -/
def GroupCond (cfg : TextConfig) (tpSize tpRank : Nat) : Prop :=
  let first := tpRank * cfg.localNumHeads tpSize
  cfg.localNumHeads tpSize = 0 ∨ tpSize ∣ cfg.numAttentionHeads ∧
    if cfg.numKeyValueHeads < tpSize then
      (first + cfg.localNumHeads tpSize - 1) / cfg.groupSize = first / cfg.groupSize ∧
        first / cfg.groupSize < cfg.numKeyValueHeads
    else tpSize ∣ cfg.numKeyValueHeads

instance (cfg : TextConfig) (tpSize tpRank : Nat) : Decidable (GroupCond cfg tpSize tpRank) := by
  unfold GroupCond
  infer_instance

/-! ## The constructor -/

/-- The layer with replicated KV heads. -/
def packedLayer (cfg : TextConfig) (tpSize : Nat) : FullAttention where
  localNumHeads := cfg.localNumHeads tpSize
  headDim := cfg.headDim
  usePackedLocalQgkv := true
  projKvHeads := cfg.numKeyValueHeads
  localNumKvHeads := 1
  qPerKvGlobal := some cfg.groupSize

/-- The layer with its own part of the KV heads. -/
def shardedLayer (cfg : TextConfig) (tpSize : Nat) : FullAttention where
  localNumHeads := cfg.localNumHeads tpSize
  headDim := cfg.headDim
  usePackedLocalQgkv := false
  projKvHeads := cfg.numKeyValueHeads / tpSize
  localNumKvHeads := cfg.numKeyValueHeads / tpSize
  qPerKvGlobal := none

theorem divide_eq_ok {numerator denominator n : Nat} :
    divide numerator denominator = .ok n ↔ denominator ∣ numerator ∧ n = numerator / denominator := by
  unfold divide
  rw [guardNot_bind_eq_ok, not_not, pure_eq_ok, Nat.dvd_iff_mod_eq_zero]

theorem checkBackend_eq_ok {numHeads numKvHeads : Nat} :
    checkBackend numHeads numKvHeads = .ok () ↔ numKvHeads ∣ numHeads := by
  unfold checkBackend guardNot
  rw [Nat.dvd_iff_mod_eq_zero]
  split
  · next h => exact ⟨nofun, fun h' => absurd h' h⟩
  · next h => exact ⟨fun _ => not_not.mp h, fun _ => rfl⟩

/-- The constructor makes one of two layers. -/
theorem new_eq_ok {attn : FullAttention} (h : FullAttention.new cfg tpSize = .ok attn) :
    0 < cfg.headDim ∧ tpSize ∣ cfg.numAttentionHeads * cfg.headDim ∧
      ((cfg.numKeyValueHeads < tpSize ∧ 0 < cfg.numKeyValueHeads ∧
          attn = packedLayer cfg tpSize) ∨
        (tpSize ≤ cfg.numKeyValueHeads ∧ tpSize ∣ cfg.numKeyValueHeads * cfg.headDim ∧
          cfg.numKeyValueHeads / tpSize ∣ cfg.localNumHeads tpSize ∧
          attn = shardedLayer cfg tpSize)) := by
  unfold FullAttention.new at h
  dsimp only at h
  rw [guardNot_bind_eq_ok] at h
  obtain ⟨hdim, h⟩ := h
  refine ⟨Nat.pos_of_ne_zero hdim, ?_⟩
  by_cases hkv : cfg.numKeyValueHeads < tpSize
  · rw [if_pos hkv, guardNot_bind_eq_ok] at h
    obtain ⟨hpos, h⟩ := h
    obtain ⟨_, ho, h⟩ := bind_eq_ok.mp h
    obtain ⟨⟨⟩, -, h⟩ := bind_eq_ok.mp h
    exact ⟨(divide_eq_ok.mp ho).1, .inl ⟨hkv, Nat.pos_of_ne_zero hpos, pure_eq_ok.mp h⟩⟩
  · rw [if_neg hkv] at h
    obtain ⟨_, hk, h⟩ := bind_eq_ok.mp h
    obtain ⟨_, -, h⟩ := bind_eq_ok.mp h
    obtain ⟨_, ho, h⟩ := bind_eq_ok.mp h
    obtain ⟨⟨⟩, hheads, h⟩ := bind_eq_ok.mp h
    exact ⟨(divide_eq_ok.mp ho).1, .inr ⟨Nat.le_of_not_lt hkv, (divide_eq_ok.mp hk).1,
      checkBackend_eq_ok.mp hheads, pure_eq_ok.mp h⟩⟩

/-! ## The loaded weights -/

theorem narrowRows_ok {l : List R} {start length : Nat} (h : start + length ≤ l.length) :
    narrowRows l start length = .ok (slice l start (start + length)) := by
  unfold narrowRows
  rw [guardNot_bind, if_neg (Nat.not_lt.mpr h)]
  rfl

theorem copyRows_eq_ok {param loaded param' : List R} {offset : Nat}
    (h : copyRows param offset loaded = .ok param') : param'.length = param.length ∧
      (offset + loaded.length ≤ param.length ∨ loaded.length = 0) := by
  unfold copyRows at h
  rw [guardNot_bind_eq_ok, not_not, slice, List.length_drop, List.length_take] at h
  obtain ⟨hlen, h⟩ := h
  obtain rfl := pure_eq_ok.mp h
  refine ⟨?_, by omega⟩
  rw [List.length_append, List.length_append, List.length_take, List.length_drop]
  omega

theorem copyRows_append (pre old post loaded : List R) (h : old.length = loaded.length) :
    copyRows (pre ++ (old ++ post)) pre.length loaded = .ok (pre ++ (loaded ++ post)) := by
  unfold copyRows
  have hdrop : (pre ++ (old ++ post)).drop (pre.length + loaded.length) = post := by
    rw [← List.drop_drop, List.drop_left, List.drop_left' h]
  rw [guardNot_bind, if_neg]
  · rw [List.take_left, hdrop, List.append_assoc]
    rfl
  · rw [not_not, slice, List.length_drop, List.length_take]
    simp only [List.length_append, h]
    omega

section Loaded

variable {tpRank : Nat} (hrank : tpRank < tpSize) (ck : Checkpoint R cfg) (fresh : Nat → R)

/-- The rows of a rank, if each has `size` of them. -/
def shardRows (l : List R) (tpRank size : Nat) : List R :=
  slice l (tpRank * size) (tpRank * size + size)

/-- The rows of the query heads of a rank, with their gates. -/
def TextConfig.localQgDim (cfg : TextConfig) (tpSize : Nat) : Nat :=
  cfg.localNumHeads tpSize * cfg.headDim * 2

def TextConfig.kvDim (cfg : TextConfig) : Nat := cfg.numKeyValueHeads * cfg.headDim

theorem shardRows_fit {n : Nat} (h : tpSize ∣ n) (hrank : tpRank < tpSize) (d : Nat) :
    tpRank * (n / tpSize * d) + n / tpSize * d ≤ n * d := by
  obtain ⟨m, rfl⟩ := h
  rw [Nat.mul_div_cancel_left m (Nat.zero_lt_of_lt hrank), ← Nat.succ_mul, Nat.mul_assoc]
  exact Nat.mul_le_mul_right _ hrank

theorem shardRows_length {l : List R} {size : Nat} (h : tpRank * size + size ≤ l.length) :
    (shardRows l tpRank size).length = size := by
  unfold shardRows
  rw [length_slice h, Nat.add_sub_cancel_left]

theorem localQgDim_eq (h : tpSize ∣ cfg.numAttentionHeads) :
    cfg.numAttentionHeads * cfg.headDim * 2 / tpSize = cfg.localQgDim tpSize := by
  rw [Nat.mul_assoc, ← Nat.div_mul_right_comm h, ← Nat.mul_assoc]
  rfl

theorem qg_mod (h : tpSize ∣ cfg.numAttentionHeads) :
    ¬ cfg.numAttentionHeads * cfg.headDim * 2 % tpSize ≠ 0 :=
  not_not.mpr (Nat.dvd_iff_mod_eq_zero.mp ((h.mul_right _).mul_right _))

include hrank in
theorem shardRows_qProj (h : tpSize ∣ cfg.numAttentionHeads) :
    tpRank * cfg.localQgDim tpSize + cfg.localQgDim tpSize ≤ ck.qProj.length := by
  rw [ck.length_qProj, TextConfig.localQgDim, Nat.mul_assoc, Nat.mul_assoc]
  exact shardRows_fit h hrank (cfg.headDim * 2)

include hrank in
theorem load_q (h : tpSize ∣ cfg.numAttentionHeads) {old : List R} (rest : List R)
    (hold : old.length = cfg.localQgDim tpSize) :
    loadFullAttentionQgkvWeight cfg tpSize tpRank "q_proj" ck.qProj (old ++ rest) =
      .ok (shardRows ck.qProj tpRank (cfg.localQgDim tpSize) ++ rest) := by
  have hfit := shardRows_qProj hrank ck h
  unfold loadFullAttentionQgkvWeight
  dsimp only
  rw [guardNot_bind, if_neg (qg_mod h), guardNot_bind, if_neg (by rw [ck.length_qProj]; simp),
    if_pos rfl, localQgDim_eq h, narrowRows_ok hfit]
  exact copyRows_append [] old rest _ (hold.trans (shardRows_length hfit).symm)

theorem load_k (h : tpSize ∣ cfg.numAttentionHeads) {q old : List R} (rest : List R)
    (hq : q.length = cfg.localQgDim tpSize) (hold : old.length = cfg.kvDim) :
    loadFullAttentionQgkvWeight cfg tpSize tpRank "k_proj" ck.kProj (q ++ (old ++ rest)) =
      .ok (q ++ (ck.kProj ++ rest)) := by
  unfold loadFullAttentionQgkvWeight
  dsimp only
  rw [guardNot_bind, if_neg (qg_mod h), guardNot_bind, if_neg (by rw [ck.length_kProj]; simp),
    if_neg (by decide), if_pos rfl, localQgDim_eq h, ← hq]
  exact copyRows_append q old rest _ (hold.trans ck.length_kProj.symm)

theorem load_v (h : tpSize ∣ cfg.numAttentionHeads) {q k old : List R}
    (hq : q.length = cfg.localQgDim tpSize) (hk : k.length = cfg.kvDim)
    (hold : old.length = cfg.kvDim) :
    loadFullAttentionQgkvWeight cfg tpSize tpRank "v_proj" ck.vProj (q ++ (k ++ old)) =
      .ok (q ++ (k ++ ck.vProj)) := by
  unfold loadFullAttentionQgkvWeight
  dsimp only
  rw [guardNot_bind, if_neg (qg_mod h), guardNot_bind, if_neg (by rw [ck.length_vProj]; simp),
    if_neg (by decide), if_neg (by decide), localQgDim_eq h, ← hq]
  have hcopy := copyRows_append (q ++ k) old [] ck.vProj (hold.trans ck.length_vProj.symm)
  rw [List.length_append, List.append_nil, List.append_nil, List.append_assoc, List.append_assoc,
    hk] at hcopy
  exact hcopy

include hrank in
/-- `qgkv_proj`: the rows of the rank's query heads, and all rows of the KV heads. -/
theorem load_packed (h : tpSize ∣ cfg.numAttentionHeads) :
    (packedLayer cfg tpSize).load cfg tpSize tpRank ck fresh = .ok (.packed
      (shardRows ck.qProj tpRank (cfg.localQgDim tpSize) ++ (ck.kProj ++ ck.vProj))) := by
  have hrun : ∀ param : List R, param.length = cfg.localQgDim tpSize + 2 * cfg.kvDim →
      (do
        let param ← loadFullAttentionQgkvWeight cfg tpSize tpRank "q_proj" ck.qProj param
        let param ← loadFullAttentionQgkvWeight cfg tpSize tpRank "k_proj" ck.kProj param
        let param ← loadFullAttentionQgkvWeight cfg tpSize tpRank "v_proj" ck.vProj param
        pure (.packed param) : Call (Weights R)) = .ok (.packed
          (shardRows ck.qProj tpRank (cfg.localQgDim tpSize) ++ (ck.kProj ++ ck.vProj))) := by
    intro param hlen
    -- The memory before, cut as the three stores cut it.
    obtain ⟨a, rest, rfl, ha⟩ : ∃ a rest, param = a ++ rest ∧ a.length = cfg.localQgDim tpSize :=
      ⟨param.take (cfg.localQgDim tpSize), param.drop (cfg.localQgDim tpSize),
        (List.take_append_drop _ param).symm, by rw [List.length_take]; omega⟩
    rw [List.length_append] at hlen
    obtain ⟨b, c, rfl, hb⟩ : ∃ b c, rest = b ++ c ∧ b.length = cfg.kvDim :=
      ⟨rest.take cfg.kvDim, rest.drop cfg.kvDim, (List.take_append_drop _ rest).symm, by
        rw [List.length_take]
        omega⟩
    rw [List.length_append] at hlen
    have hq := shardRows_length (shardRows_qProj hrank ck h)
    rw [load_q hrank ck h (b ++ c) ha]
    show (loadFullAttentionQgkvWeight _ _ _ _ _ _ >>= _) = _
    rw [load_k ck h c hq hb]
    show (loadFullAttentionQgkvWeight _ _ _ _ _ _ >>= _) = _
    rw [load_v ck h hq ck.length_kProj (by omega)]
    rfl
  exact hrun _ (by rw [List.length_map, List.length_range]; rfl)

/-- If the weights are loaded, the ranks divide the query heads: the rows of the values are the last
ones that fit. -/
theorem dvd_of_load_packed {weights : Weights R} (hdim : 0 < cfg.headDim)
    (hkv : 0 < cfg.numKeyValueHeads)
    (h : (packedLayer cfg tpSize).load cfg tpSize tpRank ck fresh = .ok weights) :
    tpSize ∣ cfg.numAttentionHeads := by
  have hstore : ∀ (source : String) (loaded param param' : List R),
      loadFullAttentionQgkvWeight cfg tpSize tpRank source loaded param = .ok param' →
        param'.length = param.length ∧ tpSize ∣ cfg.numAttentionHeads * cfg.headDim * 2 ∧
          (source = "v_proj" → cfg.numAttentionHeads * cfg.headDim * 2 / tpSize + cfg.kvDim +
            loaded.length ≤ param.length ∨ loaded.length = 0) := by
    intro source loaded param param' hload
    unfold loadFullAttentionQgkvWeight at hload
    dsimp only at hload
    rw [guardNot_bind_eq_ok, not_not, guardNot_bind_eq_ok] at hload
    obtain ⟨hmod, -, hload⟩ := hload
    have hdvd := Nat.dvd_iff_mod_eq_zero.mpr hmod
    by_cases hq : source = "q_proj"
    · rw [if_pos hq] at hload
      obtain ⟨narrowed, -, hload⟩ := bind_eq_ok.mp hload
      refine ⟨(copyRows_eq_ok hload).1, hdvd, fun hv => ?_⟩
      rw [hq] at hv
      exact absurd hv (by decide)
    · rw [if_neg hq] at hload
      by_cases hk : source = "k_proj"
      · rw [if_pos hk] at hload
        refine ⟨(copyRows_eq_ok hload).1, hdvd, fun hv => ?_⟩
        rw [hk] at hv
        exact absurd hv (by decide)
      · rw [if_neg hk] at hload
        exact ⟨(copyRows_eq_ok hload).1, hdvd, fun _ => (copyRows_eq_ok hload).2⟩
  unfold FullAttention.load at h
  obtain ⟨p₁, h₁, h⟩ := bind_eq_ok.mp (h : _ = Except.ok weights)
  obtain ⟨p₂, h₂, h⟩ := bind_eq_ok.mp h
  obtain ⟨p₃, h₃, -⟩ := bind_eq_ok.mp h
  have hlen₁ := (hstore _ _ _ _ h₁).1
  have hlen₂ := (hstore _ _ _ _ h₂).1
  obtain ⟨-, hdvd, hfit⟩ := hstore _ _ _ _ h₃
  have hvpos : 0 < ck.vProj.length := by
    rw [ck.length_vProj]
    exact Nat.mul_pos hkv hdim
  have hfit := (hfit rfl).resolve_right hvpos.ne'
  rw [hlen₂, hlen₁, List.length_map, List.length_range, ck.length_vProj] at hfit
  have hqg : cfg.numAttentionHeads * cfg.headDim * 2 / tpSize ≤
      cfg.numAttentionHeads / tpSize * cfg.headDim * 2 := by
    have hkvDim : cfg.kvDim = cfg.numKeyValueHeads * cfg.headDim := rfl
    have hlocal : (packedLayer cfg tpSize).localNumHeads * (packedLayer cfg tpSize).headDim * 2 =
        cfg.numAttentionHeads / tpSize * cfg.headDim * 2 := rfl
    have hdim' : (packedLayer cfg tpSize).headDim = cfg.headDim := rfl
    rw [hlocal, hdim'] at hfit
    omega
  have hle : cfg.numAttentionHeads * (cfg.headDim * 2) ≤
      tpSize * (cfg.numAttentionHeads / tpSize) * (cfg.headDim * 2) := by
    calc cfg.numAttentionHeads * (cfg.headDim * 2)
        = tpSize * (cfg.numAttentionHeads * cfg.headDim * 2 / tpSize) := by
          rw [Nat.mul_div_cancel' hdvd, Nat.mul_assoc]
      _ ≤ tpSize * (cfg.numAttentionHeads / tpSize * cfg.headDim * 2) :=
          Nat.mul_le_mul_left _ hqg
      _ = _ := by rw [Nat.mul_assoc, Nat.mul_assoc]
  have hheads := Nat.le_of_mul_le_mul_right hle (by omega)
  exact ⟨_, Nat.le_antisymm hheads (Nat.mul_div_le _ _)⟩

/-- The rows of the rank, for the layer with its own part of the KV heads. -/
theorem load_sharded (hrank : tpRank < tpSize) (hq : tpSize ∣ cfg.numAttentionHeads * cfg.headDim)
    (hk : tpSize ∣ cfg.numKeyValueHeads * cfg.headDim) :
    (shardedLayer cfg tpSize).load cfg tpSize tpRank ck fresh = .ok (.sharded
      (shardRows ck.qProj tpRank (cfg.numAttentionHeads * cfg.headDim * 2 / tpSize))
      (shardRows ck.kProj tpRank (cfg.kvDim / tpSize))
      (shardRows ck.vProj tpRank (cfg.kvDim / tpSize))) := by
  have hcolumn : ∀ (l : List R) (n : Nat), tpSize ∣ n → l.length = n →
      columnParallelWeight n tpSize tpRank l = .ok (shardRows l tpRank (n / tpSize)) := by
    intro l n hn hl
    have hfit := shardRows_fit hn hrank 1
    rw [Nat.mul_one, Nat.mul_one, ← hl] at hfit
    unfold columnParallelWeight
    rw [divide_eq_ok.mpr ⟨hn, rfl⟩, ← hl]
    exact narrowRows_ok hfit
  unfold FullAttention.load
  show (columnParallelWeight _ _ _ _ >>= _) = _
  rw [hcolumn ck.kProj _ hk ck.length_kProj]
  show (columnParallelWeight _ _ _ _ >>= _) = _
  rw [hcolumn ck.vProj _ hk ck.length_vProj]
  show (columnParallelWeight _ _ _ _ >>= _) = _
  rw [hcolumn ck.qProj _ (hq.mul_right 2) ck.length_qProj]
  rfl

end Loaded

/-! ## The heads -/

section Heads

variable {tpRank : Nat}

theorem headAt_shardRows (l : List R) {n i : Nat} (d : Nat) (hi : i < n) :
    headAt (shardRows l tpRank (n * d)) d i = headAt l d (tpRank * n + i) := by
  have hfit : i * d + d ≤ n * d := by
    rw [← Nat.succ_mul]
    exact Nat.mul_le_mul_right d hi
  unfold headAt shardRows
  rw [slice_slice l (Nat.add_le_add_left hfit _), Nat.add_mul, Nat.mul_assoc, Nat.add_assoc]

theorem headAt_zero (l : List R) (d i : Nat) : headAt (headAt l d i) d 0 = headAt l d i := by
  unfold headAt
  rw [Nat.zero_mul, Nat.zero_add, slice_slice l (Nat.le_refl _), Nat.add_zero]

theorem length_headAt {l : List R} {n d i : Nat} (hl : l.length = n * d) (hi : i < n) :
    (headAt l d i).length = d := by
  have hfit : i * d + d ≤ n * d := by
    rw [← Nat.succ_mul]
    exact Nat.mul_le_mul_right d hi
  unfold headAt
  rw [length_slice (hfit.trans_eq hl.symm), Nat.add_sub_cancel_left]

/-- Three pieces are split again. -/
theorem split_append (q k v : List R) : slice (q ++ (k ++ v)) 0 q.length = q ∧
    slice (q ++ (k ++ v)) q.length (q.length + k.length) = k ∧
    slice (q ++ (k ++ v)) (q.length + k.length) (q.length + k.length + v.length) = v := by
  refine ⟨?_, ?_, ?_⟩
  · unfold slice
    rw [List.take_left, List.drop_zero]
  · unfold slice
    rw [List.take_append, Nat.add_sub_cancel_left, List.take_left, List.take_of_length_le (by omega),
      List.drop_left]
  · unfold slice
    rw [List.take_of_length_le (by simp only [List.length_append]; omega), ← List.drop_drop,
      List.drop_left, List.drop_left]

/-- With replicated KV heads all query heads of the rank attend to one KV head. -/
theorem forward_packed (ck : Checkpoint R cfg) (hrank : tpRank < tpSize)
    (h : tpSize ∣ cfg.numAttentionHeads) :
    (packedLayer cfg tpSize).forward tpRank (.packed
        (shardRows ck.qProj tpRank (cfg.localQgDim tpSize) ++ (ck.kProj ++ ck.vProj))) =
      if cfg.groupSize = 0 then .error .zeroDivision
      else if cfg.numKeyValueHeads ≤ tpRank * cfg.localNumHeads tpSize / cfg.groupSize then
        .error .index
      else .ok ((List.range (cfg.localNumHeads tpSize)).map fun i =>
        ck.attended (tpRank * cfg.localNumHeads tpSize + i)
          (tpRank * cfg.localNumHeads tpSize / cfg.groupSize)) := by
  have hq := shardRows_length (shardRows_qProj hrank ck h)
  obtain ⟨hsplitQ, hsplitK, hsplitV⟩ := split_append
    (shardRows ck.qProj tpRank (cfg.localQgDim tpSize)) ck.kProj ck.vProj
  rw [hq, ck.length_kProj] at hsplitK hsplitV
  rw [hq] at hsplitQ
  rw [ck.length_vProj] at hsplitV
  have hproject : (packedLayer cfg tpSize).project (.packed
      (shardRows ck.qProj tpRank (cfg.localQgDim tpSize) ++ (ck.kProj ++ ck.vProj))) =
      .ok (shardRows ck.qProj tpRank (cfg.localQgDim tpSize), ck.kProj, ck.vProj) := by
    show (guardNot (_ ≠ cfg.localQgDim tpSize + cfg.kvDim + cfg.kvDim) _ >>= _) = _
    rw [guardNot_bind, if_neg]
    · exact congrArg Except.ok (Prod.ext hsplitQ (Prod.ext hsplitK hsplitV))
    · rw [not_not, List.length_append, List.length_append, hq, ck.length_kProj, ck.length_vProj,
        Nat.add_assoc]
      rfl
  have hview : ¬ (shardRows ck.qProj tpRank (cfg.localQgDim tpSize)).length ≠
      cfg.localNumHeads tpSize * (cfg.headDim * 2) := by
    rw [not_not, hq, ← Nat.mul_assoc]
    rfl
  have hkvIdx : (packedLayer cfg tpSize).kvIdx tpRank cfg.groupSize =
      if cfg.groupSize = 0 then .error .zeroDivision
      else .ok (tpRank * cfg.localNumHeads tpSize / cfg.groupSize) := by
    unfold FullAttention.kvIdx
    rw [guardNot_bind]
    rfl
  have hselect : ∀ (l : List R) (i : Nat), l.length = cfg.kvDim →
      (packedLayer cfg tpSize).selectHead l i =
        if cfg.numKeyValueHeads ≤ i then .error .index else .ok (headAt l cfg.headDim i) := by
    intro l i hl
    have hview : ¬ l.length ≠ (packedLayer cfg tpSize).projKvHeads *
        (packedLayer cfg tpSize).headDim := not_not.mpr hl
    unfold FullAttention.selectHead
    rw [guardNot_bind, if_neg hview, guardNot_bind]
    rfl
  unfold FullAttention.forward
  rw [hproject]
  show (guardNot (_ ≠ cfg.localNumHeads tpSize * (cfg.headDim * 2)) _ >>= _) = _
  rw [guardNot_bind, if_neg hview]
  show ((packedLayer cfg tpSize).kvIdx tpRank cfg.groupSize >>= _) = _
  rw [hkvIdx]
  by_cases hgroup : cfg.groupSize = 0
  · rw [if_pos hgroup, if_pos hgroup]
    rfl
  · rw [if_neg hgroup, if_neg hgroup]
    show ((packedLayer cfg tpSize).selectHead ck.kProj _ >>= _) = _
    rw [hselect _ _ ck.length_kProj]
    by_cases hidx : cfg.numKeyValueHeads ≤ tpRank * cfg.localNumHeads tpSize / cfg.groupSize
    · rw [if_pos hidx, if_pos hidx]
      rfl
    · rw [if_neg hidx, if_neg hidx]
      show ((packedLayer cfg tpSize).selectHead ck.vProj _ >>= _) = _
      rw [hselect _ _ ck.length_vProj, if_neg hidx]
      have hlt := Nat.lt_of_not_le hidx
      have hlen : ∀ l : List R, l.length = cfg.kvDim →
          ¬ (headAt l cfg.headDim (tpRank * cfg.localNumHeads tpSize / cfg.groupSize)).length ≠
            1 * cfg.headDim := fun l hl => by
        rw [not_not, length_headAt hl hlt, Nat.one_mul]
      show (guardNot (_ ≠ 1 * cfg.headDim) _ >>= _) = _
      rw [guardNot_bind, if_neg (hlen _ ck.length_kProj)]
      show (guardNot (_ ≠ 1 * cfg.headDim) _ >>= _) = _
      rw [guardNot_bind, if_neg (hlen _ ck.length_vProj)]
      refine congrArg Except.ok (List.map_congr_left fun i hi => ?_)
      have hi : i < cfg.localNumHeads tpSize := List.mem_range.mp hi
      have hzero : i / (cfg.localNumHeads tpSize / 1) = 0 := by
        rw [Nat.div_one]
        exact Nat.div_eq_of_lt hi
      have hquery : headAt (shardRows ck.qProj tpRank (cfg.localQgDim tpSize)) (cfg.headDim * 2) i =
          headAt ck.qProj (cfg.headDim * 2) (tpRank * cfg.localNumHeads tpSize + i) := by
        unfold TextConfig.localQgDim
        rw [Nat.mul_assoc, headAt_shardRows _ _ hi]
      refine Attended.mk.injEq .. |>.mpr ⟨congrArg (List.take cfg.headDim) hquery, ?_, ?_⟩
      · show headAt _ _ (i / (cfg.localNumHeads tpSize / 1)) = _
        rw [hzero]
        exact headAt_zero _ _ _
      · show headAt _ _ (i / (cfg.localNumHeads tpSize / 1)) = _
        rw [hzero]
        exact headAt_zero _ _ _

/-- A rank that is loaded with its own part of the KV heads runs if the ranks divide both kinds of
heads. -/
theorem dvd_of_forward_sharded {q k v : List R} {attended : List (Attended R)}
    (hdim : 0 < cfg.headDim) (hdvdQ : tpSize ∣ cfg.numAttentionHeads * cfg.headDim)
    (hdvdK : tpSize ∣ cfg.numKeyValueHeads * cfg.headDim)
    (hq : q.length = cfg.numAttentionHeads * cfg.headDim * 2 / tpSize)
    (hk : k.length = cfg.kvDim / tpSize)
    (h : (shardedLayer cfg tpSize).forward tpRank (.sharded q k v) = .ok attended) :
    tpSize ∣ cfg.numAttentionHeads ∧ tpSize ∣ cfg.numKeyValueHeads := by
  have hview : ∀ {n d : Nat}, 0 < d → tpSize ∣ n * d → n * d / tpSize = n / tpSize * d →
      tpSize ∣ n := by
    intro n d hd hdvd heq
    refine ⟨n / tpSize, Nat.eq_of_mul_eq_mul_right hd ?_⟩
    rw [Nat.mul_assoc, ← heq, Nat.mul_div_cancel' hdvd]
  unfold FullAttention.forward at h
  replace h : (guardNot (q.length ≠ cfg.localNumHeads tpSize * (cfg.headDim * 2)) _ >>= _) =
    Except.ok attended := h
  rw [guardNot_bind_eq_ok, not_not] at h
  obtain ⟨hlenQ, h⟩ := h
  replace h : (guardNot (k.length ≠ cfg.numKeyValueHeads / tpSize * cfg.headDim) _ >>= _) =
    Except.ok attended := h
  rw [guardNot_bind_eq_ok, not_not] at h
  refine ⟨hview (d := cfg.headDim * 2) (by omega) ?_ ?_, hview hdim hdvdK (hk.symm.trans h.1)⟩
  · rw [← Nat.mul_assoc]
    exact hdvdQ.mul_right 2
  · rw [← Nat.mul_assoc, ← hq, hlenQ]
    rfl

theorem forward_sharded (ck : Checkpoint R cfg) (hrank : tpRank < tpSize)
    (hq : tpSize ∣ cfg.numAttentionHeads) (hk : tpSize ∣ cfg.numKeyValueHeads)
    (hheads : cfg.numKeyValueHeads / tpSize ∣ cfg.localNumHeads tpSize)
    (hpos : 0 < cfg.numKeyValueHeads / tpSize) :
    (shardedLayer cfg tpSize).forward tpRank (.sharded
        (shardRows ck.qProj tpRank (cfg.numAttentionHeads * cfg.headDim * 2 / tpSize))
        (shardRows ck.kProj tpRank (cfg.kvDim / tpSize))
        (shardRows ck.vProj tpRank (cfg.kvDim / tpSize))) =
      .ok ((List.range (cfg.localNumHeads tpSize)).map fun i =>
        ck.attended (tpRank * cfg.localNumHeads tpSize + i)
          ((tpRank * cfg.localNumHeads tpSize + i) / cfg.groupSize)) := by
  have hkvDim : cfg.kvDim / tpSize = cfg.numKeyValueHeads / tpSize * cfg.headDim :=
    (Nat.div_mul_right_comm hk _).symm
  have hfit := shardRows_fit hk hrank cfg.headDim
  have hlen : ∀ l : List R, l.length = cfg.kvDim →
      ¬ (shardRows l tpRank (cfg.numKeyValueHeads / tpSize * cfg.headDim)).length ≠
        cfg.numKeyValueHeads / tpSize * cfg.headDim := fun l hl =>
    not_not.mpr (shardRows_length (hfit.trans_eq hl.symm))
  have hlenQ : ¬ (shardRows ck.qProj tpRank (cfg.localQgDim tpSize)).length ≠
      cfg.localNumHeads tpSize * (cfg.headDim * 2) := by
    rw [not_not, shardRows_length (shardRows_qProj hrank ck hq), TextConfig.localQgDim,
      Nat.mul_assoc]
  rw [localQgDim_eq hq, hkvDim]
  unfold FullAttention.forward
  show (guardNot (_ ≠ cfg.localNumHeads tpSize * (cfg.headDim * 2)) _ >>= _) = _
  rw [guardNot_bind, if_neg hlenQ]
  show (guardNot (_ ≠ cfg.numKeyValueHeads / tpSize * cfg.headDim) _ >>= _) = _
  rw [guardNot_bind, if_neg (hlen _ ck.length_kProj)]
  show (guardNot (_ ≠ cfg.numKeyValueHeads / tpSize * cfg.headDim) _ >>= _) = _
  rw [guardNot_bind, if_neg (hlen _ ck.length_vProj)]
  refine congrArg Except.ok (List.map_congr_left fun i hi => ?_)
  have hi : i < cfg.localNumHeads tpSize := List.mem_range.mp hi
  obtain ⟨g, hg⟩ := hheads
  have hgpos : 0 < g := Nat.pos_of_ne_zero fun h0 => by
    rw [h0, Nat.mul_zero] at hg
    omega
  have hper : cfg.localNumHeads tpSize / (cfg.numKeyValueHeads / tpSize) = g := by
    rw [hg, Nat.mul_div_cancel_left g hpos]
  have hgroup : cfg.groupSize = g := by
    have hn : cfg.numAttentionHeads = cfg.numKeyValueHeads * g := by
      rw [← Nat.mul_div_cancel' hq, ← Nat.mul_div_cancel' hk, Nat.mul_assoc, ← hg]
      rfl
    unfold TextConfig.groupSize
    rw [hn, Nat.mul_div_cancel_left g (Nat.pos_of_ne_zero fun h0 => by
      rw [h0, Nat.zero_div] at hpos
      exact absurd hpos (Nat.lt_irrefl 0))]
  -- The group among the KV heads of the rank.
  have hdiv : (tpRank * cfg.localNumHeads tpSize + i) / cfg.groupSize =
      tpRank * (cfg.numKeyValueHeads / tpSize) + i / g := by
    rw [hgroup, hg, ← Nat.mul_assoc, Nat.add_comm, Nat.add_mul_div_right _ _ hgpos, Nat.add_comm]
  have hlt : i / g < cfg.numKeyValueHeads / tpSize := by
    rw [Nat.div_lt_iff_lt_mul hgpos, ← hg]
    exact hi
  have hquery : headAt (shardRows ck.qProj tpRank (cfg.localQgDim tpSize)) (cfg.headDim * 2) i =
      headAt ck.qProj (cfg.headDim * 2) (tpRank * cfg.localNumHeads tpSize + i) := by
    unfold TextConfig.localQgDim
    rw [Nat.mul_assoc, headAt_shardRows _ _ hi]
  refine Attended.mk.injEq .. |>.mpr ⟨congrArg (List.take cfg.headDim) hquery, ?_, ?_⟩
  · show headAt _ cfg.headDim (i / (cfg.localNumHeads tpSize / (cfg.numKeyValueHeads / tpSize))) = _
    rw [hper, headAt_shardRows _ _ hlt, hdiv]
  · show headAt _ cfg.headDim (i / (cfg.localNumHeads tpSize / (cfg.numKeyValueHeads / tpSize))) = _
    rw [hper, headAt_shardRows _ _ hlt, hdiv]

end Heads

/-! ## The groups -/

/-- A checkpoint with given rows of the keys. -/
def keyedCheckpoint (cfg : TextConfig) (row : Nat → R) : Checkpoint R cfg where
  qProj := (List.range (cfg.numAttentionHeads * cfg.headDim * 2)).map row
  kProj := (List.range (cfg.numKeyValueHeads * cfg.headDim)).map row
  vProj := (List.range (cfg.numKeyValueHeads * cfg.headDim)).map row
  length_qProj := by rw [List.length_map, List.length_range]
  length_kProj := by rw [List.length_map, List.length_range]
  length_vProj := by rw [List.length_map, List.length_range]

/-- A head that has its own rows is found only at its place. -/
theorem head_eq_of_mark {a b : R} (hab : a ≠ b) {n d i j : Nat} (hd : 0 < d) (hi : i < n)
    (h : headAt ((List.range (n * d)).map fun r => if r / d = i then a else b) d i =
      headAt ((List.range (n * d)).map fun r => if r / d = i then a else b) d j) : j = i := by
  have hget : ∀ k, (headAt ((List.range (n * d)).map fun r => if r / d = i then a else b) d k)[0]? =
      if k < n then some (if k = i then a else b) else none := by
    intro k
    unfold headAt
    rw [getElem?_slice, Nat.add_zero, if_pos (Nat.lt_add_of_pos_right hd), List.getElem?_map]
    by_cases hk : k < n
    · rw [if_pos hk, List.getElem?_range (Nat.mul_lt_mul_of_pos_right hk hd), Option.map_some,
        Nat.mul_div_cancel k hd]
    · have hle := Nat.mul_le_mul_right d (Nat.le_of_not_lt hk)
      rw [if_neg hk, List.getElem?_eq_none (by rw [List.length_range]; exact hle), Option.map_none]
  have hfirst := congrArg (·[0]?) h
  simp only [hget, if_pos hi, if_true] at hfirst
  by_contra hne
  rw [if_neg hne] at hfirst
  split at hfirst
  · exact hab (Option.some.inj hfirst)
  · cases hfirst

theorem groupSize_pos (hkv : cfg.numKeyValueHeads < tpSize) (hpos : 0 < cfg.numKeyValueHeads)
    (hlocal : cfg.localNumHeads tpSize ≠ 0) : 0 < cfg.groupSize := by
  have hle : tpSize ≤ cfg.numAttentionHeads :=
    Nat.le_of_not_lt fun hlt => hlocal (Nat.div_eq_of_lt hlt)
  exact Nat.div_pos (by omega) hpos

theorem attends_packed_iff [Nontrivial R] {tpRank : Nat} (hrank : tpRank < tpSize)
    (hdim : 0 < cfg.headDim) (hkv : cfg.numKeyValueHeads < tpSize)
    (hpos : 0 < cfg.numKeyValueHeads)
    (hnew : FullAttention.new cfg tpSize = .ok (packedLayer cfg tpSize)) :
    AttendsOwnGroup R cfg tpSize tpRank ↔ GroupCond cfg tpSize tpRank := by
  have hattend : ∀ (ck : Checkpoint R cfg) (fresh : Nat → R), attend cfg tpSize tpRank ck fresh =
      ((packedLayer cfg tpSize).load cfg tpSize tpRank ck fresh >>=
        (packedLayer cfg tpSize).forward tpRank) := by
    intro ck fresh
    unfold attend
    rw [hnew]
    rfl
  unfold AttendsOwnGroup GroupCond
  dsimp only
  rw [if_pos hkv]
  generalize hfirst : tpRank * cfg.localNumHeads tpSize = first
  by_cases hlocal : cfg.localNumHeads tpSize = 0
  · rw [hlocal]
    exact ⟨fun _ => .inl rfl, fun _ _ _ i hi => absurd hi (Nat.not_lt_zero i)⟩
  have hgroup := groupSize_pos hkv hpos hlocal
  constructor
  · intro h
    refine .inr ?_
    obtain ⟨a, b, hab⟩ := exists_pair_ne R
    obtain ⟨attended, hrun, hget⟩ := h (keyedCheckpoint cfg fun r =>
      if r / cfg.headDim = first / cfg.groupSize then a else b) (fun _ => a)
      (cfg.localNumHeads tpSize - 1) (by omega)
    rw [hattend] at hrun
    obtain ⟨weights, hload, hforward⟩ := bind_eq_ok.mp hrun
    have hdvd := dvd_of_load_packed _ _ hdim hpos hload
    rw [load_packed hrank _ _ hdvd] at hload
    obtain rfl := Except.ok.inj hload
    rw [forward_packed _ hrank hdvd, if_neg hgroup.ne', hfirst] at hforward
    by_cases hidx : cfg.numKeyValueHeads ≤ first / cfg.groupSize
    · rw [if_pos hidx] at hforward
      cases hforward
    rw [if_neg hidx] at hforward
    obtain rfl := Except.ok.inj hforward
    rw [List.getElem?_map, List.getElem?_range (by omega), Option.map_some] at hget
    have hkey := congrArg Attended.key (Option.some.inj hget)
    have hsame := head_eq_of_mark hab hdim (Nat.lt_of_not_le hidx) hkey
    refine ⟨hdvd, ?_, Nat.lt_of_not_le hidx⟩
    rwa [Nat.add_sub_assoc (by omega)]
  · rintro (h | ⟨hdvd, hsame, hidx⟩)
    · exact absurd h hlocal
    intro ck fresh i hi
    refine ⟨(List.range (cfg.localNumHeads tpSize)).map fun i =>
      ck.attended (first + i) (first / cfg.groupSize), ?_, ?_⟩
    · rw [hattend, load_packed hrank ck fresh hdvd]
      show (packedLayer cfg tpSize).forward tpRank _ = _
      rw [forward_packed ck hrank hdvd, if_neg hgroup.ne', hfirst, if_neg (Nat.not_le.mpr hidx)]
    · -- All heads of the rank are between the first and the last.
      have hle := Nat.div_le_div_right (c := cfg.groupSize) (Nat.le_add_right first i)
      have hge := Nat.div_le_div_right (c := cfg.groupSize)
        (show first + i ≤ first + cfg.localNumHeads tpSize - 1 by omega)
      have heq : (first + i) / cfg.groupSize = first / cfg.groupSize :=
        Nat.le_antisymm (hge.trans_eq hsame) hle
      rw [List.getElem?_map, List.getElem?_range hi, Option.map_some, heq]

theorem attends_sharded_iff [Nontrivial R] {tpRank : Nat} (hrank : tpRank < tpSize)
    (hdim : 0 < cfg.headDim) (hdvdQ : tpSize ∣ cfg.numAttentionHeads * cfg.headDim)
    (hkv : tpSize ≤ cfg.numKeyValueHeads) (hdvdK : tpSize ∣ cfg.numKeyValueHeads * cfg.headDim)
    (hheads : cfg.numKeyValueHeads / tpSize ∣ cfg.localNumHeads tpSize)
    (hnew : FullAttention.new cfg tpSize = .ok (shardedLayer cfg tpSize)) :
    AttendsOwnGroup R cfg tpSize tpRank ↔ GroupCond cfg tpSize tpRank := by
  have hattend : ∀ (ck : Checkpoint R cfg) (fresh : Nat → R), attend cfg tpSize tpRank ck fresh =
      (shardedLayer cfg tpSize).forward tpRank (.sharded
        (shardRows ck.qProj tpRank (cfg.numAttentionHeads * cfg.headDim * 2 / tpSize))
        (shardRows ck.kProj tpRank (cfg.kvDim / tpSize))
        (shardRows ck.vProj tpRank (cfg.kvDim / tpSize))) := by
    intro ck fresh
    unfold attend
    rw [hnew]
    show ((shardedLayer cfg tpSize).load cfg tpSize tpRank ck fresh >>= _) = _
    rw [load_sharded ck fresh hrank hdvdQ hdvdK]
    rfl
  unfold AttendsOwnGroup GroupCond
  dsimp only
  rw [if_neg (Nat.not_lt.mpr hkv)]
  by_cases hlocal : cfg.localNumHeads tpSize = 0
  · rw [hlocal]
    exact ⟨fun _ => .inl rfl, fun _ _ _ i hi => absurd hi (Nat.not_lt_zero i)⟩
  have hpos : 0 < cfg.numKeyValueHeads / tpSize := Nat.div_pos hkv (Nat.zero_lt_of_lt hrank)
  constructor
  · intro h
    obtain ⟨a, -⟩ := exists_pair_ne R
    obtain ⟨attended, hrun, -⟩ := h (keyedCheckpoint cfg fun _ => a) (fun _ => a) 0 (by omega)
    rw [hattend] at hrun
    have hfit : ∀ {l : List R} {n : Nat}, tpSize ∣ n → l.length = n →
        (shardRows l tpRank (n / tpSize)).length = n / tpSize := by
      intro l n hn hl
      have hfit := shardRows_fit hn hrank 1
      rw [Nat.mul_one, Nat.mul_one, ← hl] at hfit
      exact hl ▸ shardRows_length hfit
    exact .inr (dvd_of_forward_sharded hdim hdvdQ hdvdK
      (hfit (hdvdQ.mul_right 2) (Checkpoint.length_qProj _))
      (hfit hdvdK (Checkpoint.length_kProj _)) hrun)
  · rintro (h | ⟨hq, hk⟩)
    · exact absurd h hlocal
    intro ck fresh i hi
    refine ⟨_, (hattend ck fresh).trans (forward_sharded ck hrank hq hk hheads hpos), ?_⟩
    rw [List.getElem?_map, List.getElem?_range hi, Option.map_some]

/-- **The query heads of a rank attend to the KV heads of their groups exactly if `GroupCond`
holds.** -/
theorem attends_iff [Nontrivial R] (tpRank : Fin tpSize) {attn : FullAttention}
    (hnew : FullAttention.new cfg tpSize = .ok attn) :
    AttendsOwnGroup R cfg tpSize tpRank ↔ GroupCond cfg tpSize tpRank := by
  obtain ⟨hdim, hdvdQ, ⟨hkv, hpos, rfl⟩ | ⟨hkv, hdvdK, hheads, rfl⟩⟩ := new_eq_ok hnew
  · exact attends_packed_iff tpRank.2 hdim hkv hpos hnew
  · exact attends_sharded_iff tpRank.2 hdim hdvdQ hkv hdvdK hheads hnew

/-- 16 query heads and 2 KV heads on 4 ranks. -/
theorem attends_iff_ranks :
    AttendsOwnGroup Bool ⟨16, 2, 256⟩ 4 1 ∧ AttendsOwnGroup Bool ⟨16, 2, 256⟩ 4 3 := by
  have hnew : FullAttention.new ⟨16, 2, 256⟩ 4 = .ok (packedLayer ⟨16, 2, 256⟩ 4) := by decide
  exact ⟨(attends_iff (1 : Fin 4) hnew).mpr (by decide),
    (attends_iff (3 : Fin 4) hnew).mpr (by decide)⟩

/-- 12 query heads and 3 KV heads on 4 ranks: the heads 3, 4 and 5 of rank 1 all attend to KV head
0, but the heads 4 and 5 are of the group of KV head 1. -/
theorem head_of_another_group :
    FullAttention.new ⟨12, 3, 256⟩ 4 = .ok (packedLayer ⟨12, 3, 256⟩ 4) ∧
      ¬ AttendsOwnGroup Bool ⟨12, 3, 256⟩ 4 1 := by
  have hnew : FullAttention.new ⟨12, 3, 256⟩ 4 = .ok (packedLayer ⟨12, 3, 256⟩ 4) := by decide
  refine ⟨hnew, fun h => ?_⟩
  have hcond := (attends_packed_iff (by decide) (by decide) (by decide) (by decide) hnew).mp h
  revert hcond
  decide

end Bi100.Attention.HeadSelection
