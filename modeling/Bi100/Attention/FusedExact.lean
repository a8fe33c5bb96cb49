import Bi100.Attention.QueryTiled

/-!
# What the fused prefill path is compared with

- `Admits`: the segments of `_is_supported_corex_fused_paged_prefill_segment`, with any smallest
  query length.
- `checks_ok`: the checks of the entry points on these segments.
- `entryAt`: the score and the value of a token, read from the storage of the tensors.
- `plain_eq`: the plain path, as an average of these entries.
-/

namespace Bi100.Attention

open Py OnlineSoftmax

variable {K : Type}

namespace SegmentArgs

/-- The segments that are admitted, for queries of at least `least` tokens. -/
structure Admits (a : SegmentArgs K) (least : Nat) : Prop where
  least_le : least ≤ a.query.size 0
  query_le : a.query.size 0 ≤ 8192
  context_nonneg : 0 ≤ a.blockContextLen
  context_aligned : a.blockContextLen % 16 = 0
  total_le : a.blockContextLen + a.query.size 0 ≤ 262144
  headDim : a.headDim = 256
  gqaRatio : a.gqaRatio = 4
  blockSize : a.blockSize = 16
  prefixKey : a.prefixKey.size 0 = 0
  prefixValue : a.prefixValue.size 0 = 0
  query : a.query.shape = [a.query.size 0, 4, 256]
  key : a.key.shape = [a.query.size 0, 1, 256]
  value : a.value.shape = [a.query.size 0, 1, 256]
  keyCache : a.keyCache.shape = [a.keyCache.size 0, 1, 32, 16, 8]
  valueCache : a.valueCache.shape = [a.keyCache.size 0, 1, 256, 16]
  seqIndex : a.seqIndex = 0
  table : a.blockContextLen / 16 ≤ a.blockTables.size 1
  half : ∀ t ∈ [a.query.toTensorMeta, a.key.toTensorMeta, a.value.toTensorMeta,
    a.keyCache.toTensorMeta, a.valueCache.toTensorMeta],
    t.dtype = .float16 ∧ t.isCuda = true ∧ t.device = a.query.device ∧ t.contiguous = true
  blockTables : a.blockTables.dtype = .int32 ∧ a.blockTables.isCuda = true ∧
    a.blockTables.device = a.query.device

/-- The block ids of the context are rows of the cache. -/
def BlocksValid (a : SegmentArgs K) : Prop :=
  ∀ j : Nat, (j : Int) < a.blockContextLen / 16 →
    0 ≤ a.blockTables.elem [a.seqIndex.toNat, j] ∧
      a.blockTables.elem [a.seqIndex.toNat, j] < a.keyCache.size 0

theorem ite_false_eq_true {p : Prop} [Decidable p] {b : Bool} :
    (if p then false else b) = true ↔ ¬ p ∧ b = true := by
  by_cases h : p <;> simp [h]

theorem shape_of_tail {t : TensorMeta} {n : Nat} {rest : List Nat} (hdim : t.dim = n + 1)
    (htail : t.shape.tail = rest) : t.shape = t.size 0 :: rest := by
  cases hs : t.shape with
  | nil => simp [TensorMeta.dim, hs] at hdim
  | cons m ms => simp_all [TensorMeta.size]

theorem admits_of_isSupported {a : SegmentArgs K} (h : a.isSupported = true) : a.Admits 17 := by
  unfold isSupported at h
  dsimp only at h
  simp only [ite_false_eq_true] at h
  obtain ⟨hlens, hdims, hprefix, hshapes, hcache, htable, hhalf, hint, hcuda, hdevice, hcont, -⟩ := h
  simp only [not_or, not_le, not_lt, ne_eq, not_not, gt_iff_lt, ge_iff_le] at hlens
  simp only [not_or, not_le, not_lt, ne_eq, not_not, ge_iff_le] at hprefix hshapes hcache htable
  simp only [not_not, ne_eq, Prod.mk.injEq] at hdims hint
  obtain ⟨-, -, hhead, hgqa, hblock⟩ := hdims
  obtain ⟨hkdim, hktail, hvdim, hvtail, hblocks⟩ := hcache
  obtain ⟨-, hrows, hseq, hseqlt, htab⟩ := htable
  have hmeta : ∀ t ∈ [a.query.toTensorMeta, a.key.toTensorMeta, a.value.toTensorMeta,
      a.keyCache.toTensorMeta, a.valueCache.toTensorMeta] ++ [a.blockTables.toTensorMeta],
      t.isCuda = true ∧ t.device = a.query.device ∧ t.contiguous = true := by
    intro t ht
    simp only [List.any_eq_true, not_exists, not_and, Bool.not_eq_true', Bool.not_eq_false,
      decide_eq_true_eq, not_not, ne_eq] at hcuda hdevice hcont
    exact ⟨hcuda t ht, hdevice t ht, hcont t ht⟩
  rw [hblock] at htab
  exact {
    least_le := by omega
    query_le := by omega
    context_nonneg := by omega
    context_aligned := by omega
    total_le := by omega
    headDim := hhead
    gqaRatio := hgqa
    blockSize := hblock
    prefixKey := hprefix.1
    prefixValue := hprefix.2
    query := hshapes.1
    key := hshapes.2.1
    value := hshapes.2.2
    keyCache := shape_of_tail hkdim hktail
    valueCache := by rw [hblocks]; exact shape_of_tail hvdim hvtail
    seqIndex := by omega
    table := htab
    half := by
      intro t ht
      simp only [List.any_eq_true, not_exists, not_and, decide_eq_true_eq, not_not, ne_eq] at hhalf
      exact ⟨hhalf t ht, hmeta t (List.mem_append_left _ ht)⟩
    blockTables := by
      have h := hmeta a.blockTables.toTensorMeta (List.mem_append_right _ (List.mem_singleton_self _))
      exact ⟨hint, h.1, h.2.1⟩ }

theorem Admits.mono {a : SegmentArgs K} {m n : Nat} (h : a.Admits n) (hmn : m ≤ n) : a.Admits m :=
  { h with least_le := hmn.trans h.least_le }

/-! ## The checks -/

theorem checkHalf_bind_ok {α : Type} {t : TensorMeta} {name : String} {f : Unit → Except String α}
    {x : α} : (checkHalfCudaContiguous t name >>= f) = .ok x ↔
      (t.isCuda = true ∧ t.dtype = .float16 ∧ t.contiguous = true) ∧ f () = .ok x := by
  unfold checkHalfCudaContiguous
  rw [bind_assoc, torchCheck_bind_ok, bind_assoc, torchCheck_bind_ok, torchCheck_bind_ok]
  simp only [and_assoc]

theorem shape3 {t : TensorMeta} {n m d : Nat} (h : t.shape = [n, m, d]) :
    t.dim = 3 ∧ t.size 1 = m ∧ t.size 2 = d := by
  rw [TensorMeta.dim, TensorMeta.size, TensorMeta.size, h]
  exact ⟨rfl, rfl, rfl⟩

/-- The checks of the entry points pass. -/
theorem checks_ok [OrderedExpField K] {a : SegmentArgs K} (h : a.Admits 1) (hblocks : a.BlocksValid)
    (hscale : 0 < a.scale) : a.entryArgs.checks (a.blockContextLen / 16) = .ok () := by
  have hhalf := h.half
  simp only [List.mem_cons, List.not_mem_nil, or_false, forall_eq_or_imp, forall_eq] at hhalf
  obtain ⟨hq, hk, hv, hkc, hvc⟩ := hhalf
  have hleast := h.least_le
  have hquery := h.query_le
  have hnonneg := h.context_nonneg
  have haligned := h.context_aligned
  have htotal := h.total_le
  have hsize : a.entryArgs.blockTable.size 0 = (a.blockContextLen / 16).toNat := by
    show (a.blockContextLen / (a.blockSize : Nat)).toNat = _
    rw [h.blockSize]
    rfl
  unfold EntryArgs.checks
  simp only [checkHalf_bind_ok, torchCheck_bind_ok, torchCheck_ok]
  have hcache2 : a.valueCache.size 0 = a.keyCache.size 0 := by
    show a.valueCache.shape.getD 0 0 = _
    rw [h.valueCache]
    rfl
  have hkeys : a.key.size 0 = a.query.size 0 := by
    show a.key.shape.getD 0 0 = _
    rw [h.key]
    rfl
  refine ⟨⟨hq.2.1, hq.1, hq.2.2.2⟩, ⟨hk.2.1, hk.1, hk.2.2.2⟩, ⟨hv.2.1, hv.1, hv.2.2.2⟩,
    ⟨hkc.2.1, hkc.1, hkc.2.2.2⟩, ⟨hvc.2.1, hvc.1, hvc.2.2.2⟩, h.blockTables.2.1, h.blockTables.1, rfl,
    rfl, shape3 h.query, shape3 h.key, h.value.trans h.key.symm, hkeys, ?_, ?_, hcache2.symm,
    ⟨hk.2.2.1.symm, hv.2.2.1.symm, hkc.2.2.1.symm, hvc.2.2.1.symm, h.blockTables.2.2.symm⟩,
    ⟨hnonneg, ?_⟩, haligned, ⟨hleast, hquery⟩, htotal, ?_, ?_, hscale⟩
  · show a.keyCache.shape.length = 5 ∧ a.keyCache.shape.getD 1 0 = _ ∧ a.keyCache.shape.getD 2 0 = _ ∧
      a.keyCache.shape.getD 3 0 = _ ∧ a.keyCache.shape.getD 4 0 = _
    rw [h.keyCache]
    exact ⟨rfl, rfl, rfl, rfl, rfl⟩
  · show a.valueCache.shape.length = 4 ∧ a.valueCache.shape.getD 1 0 = _ ∧
      a.valueCache.shape.getD 2 0 = _ ∧ a.valueCache.shape.getD 3 0 = _
    rw [h.valueCache]
    exact ⟨rfl, rfl, rfl, rfl⟩
  · show a.blockContextLen ≤ 262144
    omega
  · rw [hsize]
    omega
  · intro j hj
    exact hblocks j (by omega)

/-! ## The logical tokens -/

/-- The context length. -/
def contextLen (a : SegmentArgs K) : Nat := a.blockContextLen.toNat

/-- The query length. -/
def queryLen (a : SegmentArgs K) : Nat := a.query.size 0

section Storage

variable [OrderedExpField K]

/-- An element of a key, as the kernels read it. -/
def keyAt (a : SegmentArgs K) (p dim : Nat) : K :=
  QueryTiled.loadKv a.key.data a.keyCache.data Split4.keyIndex a.activeBlockTable.data p a.contextLen
    dim

/-- An element of a value, as the kernels read it. -/
def valueAt (a : SegmentArgs K) (p dim : Nat) : K :=
  QueryTiled.loadKv a.value.data a.valueCache.data Split4.valueIndex a.activeBlockTable.data p
    a.contextLen dim

/-- An element of a query, as the kernels read it. -/
def queryAt (a : SegmentArgs K) (t head dim : Nat) : K :=
  a.query.data ((t * kNumQueryHeads + head) * kHeadDim + dim)

/-- The score and the value of token `p` for query token `t`. -/
def entryAt (a : SegmentArgs K) (head t p : Nat) : Entry K (Fin 256) :=
  ((∑ c : Fin 256, a.queryAt t head c * a.scale * a.keyAt p c : K), fun c => a.valueAt p c)

end Storage

variable {a : SegmentArgs K}

theorem contiguous (h : a.Admits 1) : a.query.contiguous = true ∧ a.key.contiguous = true ∧
    a.value.contiguous = true ∧ a.keyCache.contiguous = true ∧ a.valueCache.contiguous = true := by
  have hhalf := h.half
  simp only [List.mem_cons, List.not_mem_nil, or_false, forall_eq_or_imp, forall_eq] at hhalf
  obtain ⟨hq, hk, hv, hkc, hvc⟩ := hhalf
  exact ⟨hq.2.2.2, hk.2.2.2, hv.2.2.2, hkc.2.2.2, hvc.2.2.2⟩

theorem query_elem (h : a.Admits 1) {t head dim : Nat} (ht : t < a.queryLen) (hhead : head < 4)
    (hdim : dim < 256) : a.query.elem [t, head, dim] =
      a.query.data ((t * kNumQueryHeads + head) * kHeadDim + dim) := by
  rw [a.query.layout (contiguous h).1 [t, head, dim] (by rw [h.query]; simp [hhead, hdim]; exact ht),
    h.query]
  simp [ravel, kNumQueryHeads, kHeadDim]

theorem new_elem {tensor : Tensor K} (hcont : tensor.contiguous = true) {n t dim : Nat}
    (hshape : tensor.shape = [n, 1, 256]) (ht : t < n) (hdim : dim < 256) :
    tensor.elem [t, 0, dim] = tensor.data (t * kHeadDim + dim) := by
  rw [tensor.layout hcont [t, 0, dim] (by rw [hshape]; simp [ht, hdim]), hshape]
  simp [ravel, kHeadDim]

theorem keyCache_elem (h : a.Admits 1) {b o dim : Nat} (hb : b < a.keyCache.size 0) (ho : o < 16)
    (hdim : dim < 256) : a.keyCache.elem [b, 0, dim / 8, o, dim % 8] =
      a.keyCache.data (Split4.keyIndex b o dim) := by
  have hpack : dim / 8 < 32 := by omega
  have hmod : dim % 8 < 8 := Nat.mod_lt _ (by decide)
  rw [a.keyCache.layout (contiguous h).2.2.2.1 [b, 0, dim / 8, o, dim % 8]
    (by rw [h.keyCache]; simp [hb, ho, hpack, hmod]), h.keyCache]
  simp [ravel, Split4.keyIndex, kNumKvHeads, kHeadDim, kKeyPack, kBlockSize]

theorem valueCache_elem (h : a.Admits 1) {b o dim : Nat} (hb : b < a.keyCache.size 0) (ho : o < 16)
    (hdim : dim < 256) : a.valueCache.elem [b, 0, dim, o] =
      a.valueCache.data (Split4.valueIndex b o dim) := by
  rw [a.valueCache.layout (contiguous h).2.2.2.2 [b, 0, dim, o]
    (by rw [h.valueCache]; simp [hb, ho, hdim]), h.valueCache]
  simp [ravel, Split4.valueIndex, kNumKvHeads, kHeadDim, kBlockSize]

/-- The block id of a context token. -/
theorem block_spec (h : a.Admits 1) (hblocks : a.BlocksValid) {p : Nat} (hp : p < a.contextLen) :
    (((List.range (a.blockTables.size 1)).map fun j =>
      (a.blockTables.elem [a.seqIndex.toNat, j]).toNat).getD (p / 16) 0) =
      (a.activeBlockTable.data (p / 16)).toNat ∧
    (a.activeBlockTable.data (p / 16)).toNat < a.keyCache.size 0 := by
  have haligned := h.context_aligned
  have htable := h.table
  have hlt : ((p / 16 : Nat) : Int) < a.blockContextLen / 16 := by
    unfold contextLen at hp
    omega
  obtain ⟨hpos, hsize⟩ := hblocks _ hlt
  refine ⟨?_, ?_⟩
  · rw [List.getD_eq_getElem?_getD, List.getElem?_map, List.getElem?_range (by omega)]
    rfl
  · show (a.blockTables.elem [a.seqIndex.toNat, p / 16]).toNat < _
    omega

section Plain

variable [OrderedExpField K]

/-- The key of a token, in the form of the plain path. -/
def plainKey (a : SegmentArgs K) (p : Nat) : Row K 256 :=
  if p < a.contextLen then fun head c =>
    a.keyCache.elem [((a.segment 256).blockTable.getD (p / a.blockSize) 0), head,
      c / a.keyCache.size 4, p % a.blockSize, c % a.keyCache.size 4]
  else fun head c => a.key.elem [p - a.contextLen, head, c]

/-- The value of a token, in the form of the plain path. -/
def plainValue (a : SegmentArgs K) (p : Nat) : Row K 256 :=
  if p < a.contextLen then fun head c =>
    a.valueCache.elem [((a.segment 256).blockTable.getD (p / a.blockSize) 0), head, c,
      p % a.blockSize]
  else fun head c => a.value.elem [p - a.contextLen, head, c]

omit [OrderedExpField K] in
theorem range_append {first second : Nat → Row K 256} (m n : Nat) :
    (List.range m).map first ++ (List.range n).map second = (List.range (m + n)).map fun p =>
      if p < m then first p else second (p - m) := by
  rw [List.range_add, List.map_append, List.map_map]
  refine congrArg₂ (· ++ ·) (List.map_congr_left fun p hp => ?_) (List.map_congr_left fun j _ => ?_)
  · rw [if_pos (List.mem_range.mp hp)]
  · rw [Function.comp_apply, if_neg (by omega), Nat.add_sub_cancel_left]

theorem plainKeys (h : a.Admits 1) : (a.segment 256).contextK ++ (a.segment 256).key =
    (List.range (a.contextLen + a.queryLen)).map a.plainKey := by
  have hprefix : (a.segment 256).prefixKey = [] := by
    show tokens a.prefixKey 256 = []
    rw [tokens, h.prefixKey]
    rfl
  have hkey : a.key.size 0 = a.queryLen := by
    show a.key.shape.getD 0 0 = _
    rw [h.key]
    rfl
  rw [Segment.contextK, hprefix, List.append_nil]
  show _ ++ tokens a.key 256 = _
  rw [tokens, hkey, PagedCache.contextKeys]
  exact range_append _ _

theorem plainValues (h : a.Admits 1) : (a.segment 256).contextV ++ (a.segment 256).value =
    (List.range (a.contextLen + a.queryLen)).map a.plainValue := by
  have hprefix : (a.segment 256).prefixValue = [] := by
    show tokens a.prefixValue 256 = []
    rw [tokens, h.prefixValue]
    rfl
  have hvalue : a.value.size 0 = a.queryLen := by
    show a.value.shape.getD 0 0 = _
    rw [h.value]
    rfl
  rw [Segment.contextV, hprefix, List.append_nil]
  show _ ++ tokens a.value 256 = _
  rw [tokens, hvalue, PagedCache.contextValues]
  exact range_append _ _

/-- The plain path reads what the kernels read. -/
theorem plainKey_eq (h : a.Admits 1) (hblocks : a.BlocksValid) {p : Nat}
    (hp : p < a.contextLen + a.queryLen) (c : Fin 256) : a.plainKey p 0 c = a.keyAt p c := by
  unfold plainKey keyAt QueryTiled.loadKv
  by_cases hctx : p < a.contextLen
  · obtain ⟨htable, hlt⟩ := block_spec h hblocks hctx
    have hsize : a.keyCache.size 4 = 8 := by
      show a.keyCache.shape.getD 4 0 = _
      rw [h.keyCache]
      rfl
    rw [if_pos hctx, if_pos hctx, h.blockSize, hsize]
    show a.keyCache.elem [(List.map _ _).getD _ _, _, _, _, _] = _
    rw [htable]
    exact keyCache_elem h hlt (Nat.mod_lt _ (by decide)) c.isLt
  · rw [if_neg hctx, if_neg hctx]
    exact new_elem (contiguous h).2.1 h.key (by unfold queryLen at hp; omega) c.isLt

theorem plainValue_eq (h : a.Admits 1) (hblocks : a.BlocksValid) {p : Nat}
    (hp : p < a.contextLen + a.queryLen) (c : Fin 256) : a.plainValue p 0 c = a.valueAt p c := by
  unfold plainValue valueAt QueryTiled.loadKv
  by_cases hctx : p < a.contextLen
  · obtain ⟨htable, hlt⟩ := block_spec h hblocks hctx
    rw [if_pos hctx, if_pos hctx, h.blockSize]
    show a.valueCache.elem [(List.map _ _).getD _ _, _, _, _] = _
    rw [htable]
    exact valueCache_elem h hlt (Nat.mod_lt _ (by decide)) c.isLt
  · rw [if_neg hctx, if_neg hctx]
    exact new_elem (contiguous h).2.2.1 h.value (by unfold queryLen at hp; omega) c.isLt

theorem segment_valid (h : a.Admits 1) (htile : 0 < a.tileSz) : (a.segment 256).Valid where
  blockSize := by
    show 0 < a.blockSize
    rw [h.blockSize]
    decide
  tileSz := htile
  table := by
    have hctx := h.context_nonneg
    have haligned := h.context_aligned
    have htable := h.table
    show a.blockContextLen.toNat ≤ ((List.range (a.blockTables.size 1)).map _).length * a.blockSize
    rw [List.length_map, List.length_range, h.blockSize]
    omega
  key := by
    show (tokens a.key 256).length = (tokens a.query 256).length
    rw [tokens, tokens, List.length_map, List.length_map, TensorMeta.size, h.key]
    rfl
  value := by
    show (tokens a.value 256).length = (tokens a.query 256).length
    rw [tokens, tokens, List.length_map, List.length_map, TensorMeta.size, h.value]
    rfl
  prefixes := by
    show (tokens a.prefixValue 256).length = (tokens a.prefixKey 256).length
    rw [tokens, tokens, h.prefixKey, h.prefixValue]
    rfl

/-- **The plain path**, from the storage of the tensors. -/
theorem plain_eq (h : a.Admits 1) (hblocks : a.BlocksValid) (htile : 0 < a.tileSz) :
    ∃ rows, forwardPrefixSegmentPytorch (a.segment 256) = .ok rows ∧
      ∀ t < a.queryLen, ∀ head < 4, ∀ c, rows[t]?.bind (fun row => row head c) =
        some (average ((List.range (a.contextLen + t + 1)).map (a.entryAt head t)) c) := by
  refine ⟨_, Segment.forwardPrefixSegment_exact (segment_valid h htile), fun t ht head hhead c => ?_⟩
  have hlen : (a.segment 256).contextK.length = a.contextLen := by
    rw [Segment.length_contextK]
    show a.contextLen + (tokens a.prefixKey 256).length = _
    rw [tokens, h.prefixKey]
    rfl
  have hquery : (a.segment 256).query[t]? = some fun head (c : Fin 256) => a.query.elem [t, head, c] := by
    show (tokens a.query 256)[t]? = _
    have ht' : t < a.query.size 0 := ht
    rw [tokens, List.getElem?_map, List.getElem?_range ht']
    rfl
  have hentries : (entries a.scale a.gqaRatio head (fun head (c : Fin 256) => a.query.elem [t, head, c])
      ((List.range (a.contextLen + a.queryLen)).map a.plainKey)
      ((List.range (a.contextLen + a.queryLen)).map a.plainValue)).take (a.contextLen + t + 1) =
      (List.range (a.contextLen + t + 1)).map (a.entryAt head t) := by
    rw [entries, List.take_zipWith, ← List.map_take, ← List.map_take, List.take_range,
      Nat.min_eq_left (by omega), List.zipWith_map, List.zipWith_self]
    refine List.map_congr_left fun p hp => ?_
    have hp' : p < a.contextLen + a.queryLen := by
      rw [List.mem_range] at hp
      omega
    have hhead' : head / a.gqaRatio = 0 := by
      rw [h.gqaRatio]
      exact Nat.div_eq_of_lt hhead
    have hscore : (∑ d : Fin 256, a.query.elem [t, head, d] * a.scale * a.plainKey p 0 d) =
        ∑ d : Fin 256, a.queryAt t head d * a.scale * a.keyAt p d :=
      Finset.sum_congr rfl fun d _ => by
        rw [plainKey_eq h hblocks hp', query_elem h ht hhead d.isLt]
        rfl
    unfold entry entryAt
    rw [hhead', hscore]
    exact congrArg _ (funext fun d => plainValue_eq h hblocks hp' d)
  rw [List.getElem?_mapIdx, hquery, Option.map_some, Option.bind_some, plainKeys h, plainValues h, hlen]
  exact congrArg (fun l => some (average l c)) hentries

end Plain

end SegmentArgs

end Bi100.Attention
