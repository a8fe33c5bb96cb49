import Bi100.Scheduler.Boundary
import Bi100.Scheduler.Segmentation

/-!
# Where a run of steps is cut

The positions of one step (`StepCut`) depend on its start and its end only. A step ends where the
budget ends or at the capture target (`stepEnd`); the first step of a resumed run ends where the
step of a cold run would (`resumedEnd`).

- `prefillCuts_cold`, `prefillCuts_resumed`: both runs end, and where they are cut.
-/

namespace Bi100.Scheduler

open Py

variable {D : Type} {bs S n : Nat}

/-! ## Boundaries -/

/-- The complete blocks of which at least two tokens are left to replay. -/
def replayBlocks (bs e : Nat) : Nat :=
  if 0 < (e - 1) / bs ∧ e - (e - 1) / bs * bs < 2 then (e - 1) / bs - 1 else (e - 1) / bs

theorem replayBlocks_le (bs e : Nat) : replayBlocks bs e ≤ (e - 1) / bs := by
  unfold replayBlocks
  split
  · exact Nat.sub_le _ _
  · exact le_rfl

theorem replayBlocks_mul_lt (bs : Nat) {e : Nat} (he : 0 < e) : replayBlocks bs e * bs < e := by
  have hle := Nat.mul_le_mul_right bs (replayBlocks_le bs e)
  have hdiv := Nat.div_mul_le_self (e - 1) bs
  omega

/-- At most a block and a token are left. -/
theorem le_replayBlocks_mul (hbs : 0 < bs) {e : Nat} : e ≤ replayBlocks bs e * bs + bs + 1 := by
  have hmod := Nat.lt_div_mul_add (a := e - 1) hbs
  unfold replayBlocks
  split
  · next h =>
    obtain ⟨q, hq⟩ := Nat.exists_eq_succ_of_ne_zero h.1.ne'
    rw [hq, Nat.succ_sub_one]
    rw [hq, Nat.succ_mul] at h
    omega
  · omega

/-- What `restore_key_is_eligible` asks for: two tokens are left. -/
theorem le_replayBlocks (hbs : 0 < bs) {b e : Nat} (h : b * bs + 2 ≤ e) : b ≤ replayBlocks bs e := by
  have hb : b ≤ (e - 1) / bs := (Nat.le_div_iff_mul_le hbs).mpr (by omega)
  unfold replayBlocks
  split
  · next hreplay =>
    have hne : b ≠ (e - 1) / bs := fun heq => by
      rw [← heq] at hreplay
      omega
    omega
  · exact hb

theorem keyOfBlockCount_ok {blockHashes : List D} {c : Nat} (hc : c ≤ blockHashes.length) :
    ∃ o, keyOfBlockCount blockHashes c = .ok o ∧
      ((o = none ∧ c = 0) ∨ ∃ d, o = some (c, d) ∧ 0 < c ∧ blockHashes[c - 1]? = some d) := by
  unfold keyOfBlockCount
  by_cases hzero : c = 0
  · exact ⟨none, by rw [if_pos hzero]; rfl, .inl ⟨rfl, hzero⟩⟩
  · rw [if_neg hzero]
    have hlt : c - 1 < blockHashes.length := by omega
    rw [List.getElem?_eq_getElem hlt]
    refine ⟨some (c, blockHashes[c - 1]), ?_, .inr ⟨_, rfl, by omega, rfl⟩⟩
    dsimp only
    unfold makePrefixKey
    rw [guardNot_bind, if_neg hzero]
    rfl

theorem strict_le_length {blockHashes : List D} {e : Nat} (hlen : blockHashes.length = n / bs)
    (he : e ≤ n) : (e - 1) / bs ≤ blockHashes.length :=
  hlen ▸ Nat.div_le_div_right (by omega)

/-- The final key of the first `e` tokens of a prompt. -/
theorem finalCaptureKey_eq {blockHashes : List D} {e alignment : Nat} {mode : GdnRestoreMode}
    (hmode : mode = .direct ∨ mode = .hybrid64) (hbs : 0 < bs)
    (hcover : (e - 1) / bs ≤ blockHashes.length) :
    finalCaptureKey blockHashes e bs mode alignment =
      keyOfBlockCount blockHashes (replayBlocks bs e) := by
  have hstrict : (if e ≤ 1 then 0 else (e - 1) / bs) = (e - 1) / bs := by
    split
    · next hone => rw [Nat.sub_eq_zero_of_le hone, Nat.zero_div]
    · rfl
  have hmin : min blockHashes.length ((e - 1) / bs) = (e - 1) / bs := Nat.min_eq_right hcover
  unfold finalCaptureKey
  rw [if_pos hmode]
  unfold strictPrefixBlockCount
  rw [guardNot_bind, if_neg (by omega)]
  show keyOfBlockCount blockHashes _ = _
  rw [hstrict, hmin]
  rfl

theorem replayBlocks_le_length {blockHashes : List D} {e : Nat}
    (hlen : blockHashes.length = n / bs) (he : e ≤ n) :
    replayBlocks bs e ≤ blockHashes.length :=
  (replayBlocks_le bs e).trans (strict_le_length hlen he)

theorem segmentBoundary_ok {blockHashes : List D} {e : Nat} (hbs : 0 < bs)
    (hlen : blockHashes.length = n / bs) (he : e ≤ n) :
    ∃ b, segmentBoundary blockHashes bs e = .ok b ∧
      ∀ x, x ∈ b ↔ 0 < replayBlocks bs e ∧ x = replayBlocks bs e * bs := by
  obtain ⟨o, ho, hcase⟩ := keyOfBlockCount_ok (replayBlocks_le_length hlen he)
  unfold segmentBoundary
  rw [finalCaptureKey_eq (.inl rfl) hbs (strict_le_length hlen he), ho]
  rcases hcase with ⟨rfl, hzero⟩ | ⟨d, rfl, hpos, -⟩
  · exact ⟨∅, rfl, fun x => ⟨fun hx => absurd hx (Finset.notMem_empty x), fun hx => by omega⟩⟩
  · exact ⟨_, rfl, fun x => ⟨fun hx => ⟨hpos, Finset.mem_singleton.mp hx⟩,
      fun hx => Finset.mem_singleton.mpr hx.2⟩⟩

theorem foldlM_segmentBoundary_ok {blockHashes : List D} (hbs : 0 < bs)
    (hlen : blockHashes.length = n / bs) {ends : List Nat} (hends : ∀ e ∈ ends, e ≤ n)
    (acc : Finset Nat) :
    ∃ u, ends.foldlM (fun acc stepEnd => (acc ∪ ·) <$> segmentBoundary blockHashes bs stepEnd)
        acc = .ok u ∧ ∀ x, x ∈ u ↔ x ∈ acc ∨
          ∃ e ∈ ends, 0 < replayBlocks bs e ∧ x = replayBlocks bs e * bs := by
  induction ends generalizing acc with
  | nil => exact ⟨acc, rfl, fun x => by simp⟩
  | cons e ends ih =>
    obtain ⟨b, hb, hmem⟩ := segmentBoundary_ok hbs hlen (hends e List.mem_cons_self)
    obtain ⟨u, hu, humem⟩ := ih (fun e' he' => hends e' (List.mem_cons_of_mem e he')) (acc ∪ b)
    refine ⟨u, ?_, fun x => ?_⟩
    · rw [List.foldlM_cons, hb]
      exact hu
    · rw [humem, Finset.mem_union, hmem]
      simp only [List.mem_cons, exists_eq_or_imp, or_assoc]

theorem mem_pyRange_multiples {e x : Nat} (hS : 0 < S) :
    x ∈ pyRange S e S ↔ 0 < x ∧ x < e ∧ S ∣ x := by
  unfold pyRange
  have hcount : (e - S + S - 1) / S = (e - 1) / S := by
    by_cases hle : S ≤ e
    · rw [Nat.sub_add_cancel hle]
    · rw [Nat.div_eq_of_lt (by omega), Nat.div_eq_of_lt (by omega)]
  rw [hcount, List.mem_map]
  constructor
  · rintro ⟨i, hi, rfl⟩
    have hle := (Nat.le_div_iff_mul_le hS).mp (List.mem_range.mp hi)
    rw [Nat.succ_mul] at hle
    exact ⟨by omega, by omega, dvd_add (dvd_refl S) (Dvd.intro_left i rfl)⟩
  · rintro ⟨hpos, hlt, k, rfl⟩
    obtain ⟨i, rfl⟩ := Nat.exists_eq_succ_of_ne_zero (Nat.pos_of_mul_pos_left hpos).ne'
    refine ⟨i, List.mem_range.mpr ((Nat.le_div_iff_mul_le hS).mpr ?_), ?_⟩
    · rw [Nat.mul_comm]
      omega
    · rw [Nat.mul_succ, Nat.mul_comm S i, Nat.add_comm]

/-- A canonical boundary of a step that ends at `e`. -/
def CanonicalBoundary (bs S e x : Nat) : Prop :=
  S ∣ x ∨ ∃ t, (t = e ∨ 0 < t ∧ t < e ∧ S ∣ t) ∧ x = replayBlocks bs t * bs

theorem canonicalDirectSegmentOffsets_ok {blockHashes : List D} {p e : Nat} (hbs : 0 < bs)
    (hS : 0 < S) (hdvd : S % bs = 0) (hlen : blockHashes.length = n / bs) (he : e ≤ n)
    (hpe : p < e) :
    ∃ l, canonicalDirectSegmentOffsets blockHashes p e bs S = .ok l ∧
      ∀ x, x ∈ l ↔ ∃ y, p < y ∧ y < e ∧ CanonicalBoundary bs S e y ∧ x = y - p := by
  have hends : ∀ t ∈ pyRange S e S ++ [e], t ≤ n := by
    intro t ht
    rcases List.mem_append.mp ht with ht | ht
    · have hlt := ((mem_pyRange_multiples hS).mp ht).2.1
      omega
    · obtain rfl := List.mem_singleton.mp ht
      exact he
  obtain ⟨u, hu, hmem⟩ := foldlM_segmentBoundary_ok hbs hlen hends ∅
  unfold canonicalDirectSegmentOffsets
  rw [guardNot_bind, if_neg (by omega), guardNot_bind, if_neg (by omega), if_neg (by omega)]
  dsimp only
  rw [hu]
  refine ⟨_, rfl, fun x => ?_⟩
  simp only [List.mem_map, List.mem_filter, Finset.mem_sort, Finset.mem_union, List.mem_toFinset,
    decide_eq_true_eq, hmem, mem_pyRange_multiples hS, Finset.notMem_empty, false_or,
    List.mem_append, List.mem_singleton]
  constructor
  · rintro ⟨y, ⟨hy, hpy, hye⟩, rfl⟩
    refine ⟨y, hpy, hye, ?_, rfl⟩
    rcases hy with ⟨t, ht, -, hyt⟩ | ⟨-, -, hSy⟩
    · exact .inr ⟨t, ht.symm, hyt⟩
    · exact .inl hSy
  · rintro ⟨y, hpy, hye, hy, rfl⟩
    refine ⟨y, ⟨?_, hpy, hye⟩, rfl⟩
    rcases hy with hSy | ⟨t, ht, hyt⟩
    · exact .inr ⟨by omega, hye, hSy⟩
    · exact .inl ⟨t, ht.symm, Nat.pos_of_ne_zero fun hz => by rw [hyt, hz] at hpy; omega, hyt⟩

/-! ## The cuts of a step -/

variable {cfg : Config} {choice : GdnChoice D} {chunkSize : Nat}

/-- Prefix caching, no multi-step, hybrid restores. -/
structure Canonical (cfg : Config) : Prop where
  caching : cfg.enablePrefixCaching = true
  singleStep : cfg.isMultiStep = false
  hybrid : cfg.gdn.restoreMode = .hybrid64
  alignment : gdnRestoreAlignment .hybrid64 cfg.gdn.blockSize cfg.gdn.maxNumBatchedTokens =
    .ok cfg.gdn.replayAlignment
  budget_pos : 0 < cfg.gdn.maxNumBatchedTokens
  budget_dvd : cfg.gdn.maxNumBatchedTokens % cfg.gdn.blockSize = 0

theorem Canonical.blockSize_pos (h : Canonical cfg) : 0 < cfg.gdn.blockSize := by
  have halign := h.alignment
  unfold gdnRestoreAlignment at halign
  obtain ⟨hne, -⟩ := guardNot_bind_eq_ok.mp halign
  omega

/-- The positions at which the step from `p` to `e` is cut. -/
def StepCut (bs S chunkSize p e x : Nat) : Prop :=
  p < x ∧ (x = e ∨ x < e ∧ (chunkSize ∣ x - p ∨ CanonicalBoundary bs S e x))

theorem mem_gdnSegmentEnds {len x : Nat} {offsets : List Nat} (hchunk : 0 < chunkSize) :
    x ∈ Gdn.gdnSegmentEnds len chunkSize offsets ↔
      (0 < x ∧ x < len ∧ chunkSize ∣ x) ∨ x = len ∨ (x ∈ offsets ∧ 0 < x ∧ x < len) := by
  have hrange : x ∈ List.range' chunkSize ((len - 1) / chunkSize) chunkSize ↔
      0 < x ∧ x < len ∧ chunkSize ∣ x := by
    rw [List.mem_range']
    constructor
    · rintro ⟨i, hi, rfl⟩
      have hle := (Nat.le_div_iff_mul_le hchunk).mp hi
      rw [Nat.succ_mul, Nat.mul_comm] at hle
      exact ⟨by omega, by omega, dvd_add (dvd_refl _) (Dvd.intro i rfl)⟩
    · rintro ⟨hpos, hlt, k, rfl⟩
      obtain ⟨i, rfl⟩ := Nat.exists_eq_succ_of_ne_zero (Nat.pos_of_mul_pos_left hpos).ne'
      refine ⟨i, (Nat.le_div_iff_mul_le hchunk).mpr ?_, ?_⟩
      · rw [Nat.mul_comm]
        omega
      · rw [Nat.mul_succ, Nat.add_comm]
  unfold Gdn.gdnSegmentEnds
  simp only [Finset.mem_sort, List.mem_toFinset, List.mem_append, hrange, List.mem_singleton,
    List.mem_filter, decide_eq_true_eq, or_assoc]

/-- With at most one target, the capture points are the targets in the step. -/
theorem capturePointsForStep_ok [DecidableEq D] (bs : Nat) {targets : List (GdnPrefixKey D)} {p e : Nat}
    (hone : targets.length ≤ 1) (hpos : ∀ t ∈ targets, 0 < t.1) (hpe : p < e) :
    ∃ points, capturePointsForStep targets p e bs = .ok points ∧
      ∀ o ∈ points.map Prod.fst, ∃ t ∈ targets, p < t.1 * bs ∧ t.1 * bs ≤ e ∧ o = t.1 * bs - p := by
  unfold capturePointsForStep
  rw [if_neg (by omega)]
  match targets, hone with
  | [], _ => exact ⟨[], rfl, fun o ho => absurd ho List.not_mem_nil⟩
  | [t], _ =>
    have hne : t.1 ≠ 0 := (hpos t (List.mem_singleton_self t)).ne'
    have hselect : selectCapture p e bs (∅ : Dict Nat (GdnPrefixKey D)) t =
        .ok (if p < t.1 * bs ∧ t.1 * bs ≤ e then Dict.set ∅ (t.1 * bs - p) t else ∅) := by
      unfold selectCapture makePrefixKey
      rw [guardNot_bind, if_neg hne]
      rfl
    rw [List.foldlM_cons, hselect]
    by_cases hin : p < t.1 * bs ∧ t.1 * bs ≤ e
    · rw [if_pos hin]
      refine ⟨[(t.1 * bs - p, t)], rfl, fun o ho => ?_⟩
      obtain rfl := List.mem_singleton.mp ho
      exact ⟨t, List.mem_singleton_self t, hin.1, hin.2, rfl⟩
    · rw [if_neg hin]
      exact ⟨[], rfl, fun o ho => absurd ho List.not_mem_nil⟩

variable [DecidableEq D]

theorem stepCuts_ok {r : GdnPrefill D} {p e : Nat} (h : Canonical cfg) (hchunk : 0 < chunkSize)
    (hpolicy : choice.policy.policy = .admission64)
    (hlen : r.blockHashes.length = n / cfg.gdn.blockSize) (he : r.logicalEndTokens = e)
    (hp : r.physicalContextTokens cfg.gdn.blockSize = p) (hen : e ≤ n) (hpe : p < e)
    (hone : r.captureTargets.length ≤ 1) (hpos : ∀ t ∈ r.captureTargets, 0 < t.1)
    (hcap : ∀ t ∈ r.captureTargets, ¬ (p < t.1 * cfg.gdn.blockSize ∧ t.1 * cfg.gdn.blockSize < e)) :
    ∃ l, stepCuts cfg chunkSize choice r = .ok l ∧ ∀ x, x ∈ l ↔
      StepCut cfg.gdn.blockSize cfg.gdn.maxNumBatchedTokens chunkSize p e x := by
  obtain ⟨segments, hseg, hsegmem⟩ := canonicalDirectSegmentOffsets_ok (p := p) h.blockSize_pos
    h.budget_pos h.budget_dvd hlen hen hpe
  obtain ⟨points, hpts, hptsmem⟩ := capturePointsForStep_ok cfg.gdn.blockSize hone hpos hpe
  unfold stepCuts segmentOffsets
  dsimp only
  rw [he, hp, if_pos ⟨h.hybrid, hpolicy⟩, hseg]
  show ∃ l, (capturePointsForStep r.captureTargets p e cfg.gdn.blockSize >>= _) = _ ∧ _
  rw [hpts]
  refine ⟨_, rfl, fun x => ?_⟩
  rw [List.mem_map]
  simp only [mem_gdnSegmentEnds hchunk, List.mem_append]
  constructor
  · rintro ⟨o, ho, rfl⟩
    rcases ho with ⟨hpos, hlt, hdvd⟩ | rfl | ⟨ho | ho, hpos, hlt⟩
    · exact ⟨by omega, .inr ⟨by omega, .inl (by rwa [Nat.add_sub_cancel_left])⟩⟩
    · exact ⟨by omega, .inl (by omega)⟩
    · obtain ⟨t, ht, hpt, hte, rfl⟩ := hptsmem o ho
      exact absurd ⟨hpt, by omega⟩ (hcap t ht)
    · obtain ⟨y, hpy, hye, hy, rfl⟩ := (hsegmem o).mp ho
      have hxy : p + (y - p) = y := by omega
      rw [hxy]
      exact ⟨hpy, .inr ⟨hye, .inr hy⟩⟩
  · rintro ⟨hpx, rfl | ⟨hxe, hdvd | hcanon⟩⟩
    · exact ⟨x - p, .inr (.inl rfl), by omega⟩
    · exact ⟨x - p, .inl ⟨by omega, by omega, hdvd⟩, by omega⟩
    · exact ⟨x - p, .inr (.inr ⟨.inr ((hsegmem _).mpr ⟨x, hpx, hxe, hcanon, rfl⟩), by omega,
        by omega⟩), by omega⟩

/-! ## The ends of the steps -/

/-- The capture targets of a step that starts at `p`: the position `f`, or nothing that is left. -/
def FinalTarget (bs f p : Nat) (targets : List (GdnPrefixKey D)) : Prop :=
  targets = [] ∧ f ≤ p ∨ ∃ t, targets = [t] ∧ 0 < t.1 ∧ t.1 * bs = f

/-- The end `e` of a step from `p`, capped at `f`. -/
def cappedEnd (f p e : Nat) : Nat := if p < f ∧ f < e then f else e

theorem lt_cappedEnd {f p e : Nat} (h : p < e) : p < cappedEnd f p e := by
  unfold cappedEnd
  split <;> omega

theorem cappedEnd_le {f p e : Nat} : cappedEnd f p e ≤ e := by
  unfold cappedEnd
  split <;> omega

omit [DecidableEq D] in
theorem FinalTarget.length_le {f p : Nat} {targets : List (GdnPrefixKey D)}
    (h : FinalTarget bs f p targets) : targets.length ≤ 1 := by
  rcases h with ⟨rfl, -⟩ | ⟨t, rfl, -⟩
  · exact Nat.zero_le 1
  · exact le_rfl

omit [DecidableEq D] in
theorem FinalTarget.pos {f p : Nat} {targets : List (GdnPrefixKey D)}
    (h : FinalTarget bs f p targets) : ∀ t ∈ targets, 0 < t.1 := by
  intro t ht
  rcases h with ⟨rfl, -⟩ | ⟨t', rfl, hpos, -⟩
  · exact absurd ht List.not_mem_nil
  · obtain rfl := List.mem_singleton.mp ht
    exact hpos

omit [DecidableEq D] in
/-- No target is inside a step that ends where it is capped. -/
theorem FinalTarget.not_inside {f p e : Nat} {targets : List (GdnPrefixKey D)}
    (h : FinalTarget bs f p targets) :
    ∀ t ∈ targets, ¬ (p < t.1 * bs ∧ t.1 * bs < cappedEnd f p e) := by
  intro t ht
  rcases h with ⟨rfl, -⟩ | ⟨t', rfl, -, rfl⟩
  · exact absurd ht List.not_mem_nil
  · obtain rfl := List.mem_singleton.mp ht
    unfold cappedEnd
    split <;> omega

omit [DecidableEq D] in
theorem capPrefillEnd_final {f p e : Nat} {t : GdnPrefixKey D} (hbs : 0 < bs) (hpos : 0 < t.1)
    (hf : t.1 * bs = f) (hpe : p < e) :
    capPrefillEndAtCaptureBoundary p e [t] bs = .ok (cappedEnd f p e) := by
  unfold capPrefillEndAtCaptureBoundary
  rw [guardNot_bind, if_neg (by omega), guardNot_bind, if_neg (by omega), List.foldlM_cons]
  unfold capAtKey makePrefixKey
  rw [guardNot_bind, if_neg hpos.ne', ← hf]
  rfl

omit [DecidableEq D] in
/-- The cap of a step from `p` to `e` whose sequence is computed up to `c`. -/
theorem capGdnCaptureBoundary_alone {len c p e f : Nat} {targets : List (GdnPrefixKey D)}
    (hbs : 0 < bs) (ht : FinalTarget bs f p targets) (hcp : c ≤ p) (hpe : p < e) :
    capGdnCaptureBoundary bs .admission64 targets (aloneGroup len c .running) (e - c) (e - p) =
      .ok ((cappedEnd f p e : Int) - c, (cappedEnd f p e : Int) - p) := by
  have hlt := lt_cappedEnd (f := f) hpe
  rcases ht with ⟨rfl, hle⟩ | ⟨t, rfl, hpos, hf⟩
  · unfold capGdnCaptureBoundary cappedEnd
    rw [if_pos (.inr rfl), if_neg (by omega)]
    rfl
  · have hseqs : (aloneGroup len c .running).seqs = [⟨len, c, .prefill, .running⟩] := rfl
    have hpre : (aloneGroup len c .running).isPrefill = true := rfl
    unfold capGdnCaptureBoundary
    rw [if_neg (by simp), guardNot_bind, if_neg (by omega), hseqs, hpre]
    dsimp only
    have hstart : ((c : Int) + (e - c) - (e - p)).toNat = p := by omega
    have hend : ((c : Int) + (e - c)).toNat = e := by omega
    rw [guardNot_bind, if_neg (by decide), guardNot_bind, if_neg (by omega), guardNot_bind,
      if_neg (by omega), hstart, hend, capPrefillEnd_final hbs hpos hf hpe]
    show (if ((cappedEnd f p e : Nat) : Int) = c + (e - c) then _ else _) = _
    split
    · next heq =>
      have heq : cappedEnd f p e = e := by omega
      rw [heq]
      rfl
    · rw [guardNot_bind, if_neg (by omega)]
      show Except.ok _ = Except.ok _
      congr 2
      omega

/-- The nominal chunk of a request that is alone. -/
theorem getNumNewTokens_alone (h : Canonical cfg) {len c : Nat} {status : SequenceStatus}
    (hlt : c < len) :
    getNumNewTokens cfg (aloneGroup len c status) status true (stepBudget cfg) =
      .ok ((min (c + cfg.gdn.maxNumBatchedTokens) len : Nat) - c) := by
  have hbs := h.blockSize_pos
  have hmod := h.budget_dvd
  have hseqs : (aloneGroup len c status).getSeqs status = [⟨len, c, .prefill, status⟩] := by
    simp [aloneGroup, SeqGroup.getSeqs]
  have hrem : (stepBudget cfg).remainingTokenBudget = cfg.gdn.maxNumBatchedTokens := by
    simp [stepBudget, SchedulingBudget.fresh, SchedulingBudget.remainingTokenBudget]
  have hbudget : (stepBudget cfg).tokenBudget = cfg.gdn.maxNumBatchedTokens := rfl
  have hround : (cfg.gdn.maxNumBatchedTokens : Int) / cfg.gdn.blockSize * cfg.gdn.blockSize =
      cfg.gdn.maxNumBatchedTokens :=
    Int.ediv_mul_cancel (Int.natCast_dvd_natCast.mpr (Nat.dvd_of_mod_eq_zero h.budget_dvd))
  unfold getNumNewTokens
  rw [hseqs]
  simp only [List.map_singleton, List.sum_singleton, Seq.getNumNewTokens, List.length_singleton,
    hrem, hbudget, h.singleStep, h.caching, hround]
  rw [if_neg (by decide), guardNot_bind, if_neg (by omega), if_neg (by simp), if_neg (by simp),
    if_pos trivial, guardNot_bind, if_neg (by omega), guardNot_bind, if_neg (by omega)]
  show Except.ok _ = Except.ok _
  congr 1
  split <;> omega

variable {prompt : Prompt D cfg.gdn.blockSize} {f : Nat}

/-- Where a step from `c` with the whole budget ends. -/
def stepEnd (S len f c : Nat) : Nat := cappedEnd f c (min (c + S) len)

omit [DecidableEq D] in
theorem laterChunk_ok (h : Canonical cfg) (hpolicy : choice.policy.policy = .admission64) {c : Nat}
    (ht : FinalTarget cfg.gdn.blockSize f c choice.captureTargets) (hlt : c < prompt.len) :
    laterChunk cfg prompt choice c =
      .ok ((stepEnd cfg.gdn.maxNumBatchedTokens prompt.len f c : Int) - c) := by
  have hpos := h.budget_pos
  unfold laterChunk
  dsimp only
  rw [getNumNewTokens_alone h hlt, hpolicy]
  show Prod.fst <$> capGdnCaptureBoundary _ _ _ _ _ _ = _
  rw [capGdnCaptureBoundary_alone h.blockSize_pos ht le_rfl (by omega)]
  rfl

omit [DecidableEq D] in
theorem gdnChunk_of_plan {g : SeqGroup} {seq : Seq} {nominal remaining chunk query : Int}
    (h : planGdnPrefixFastForward choice.restoreKey seq.numComputedTokens seq.len nominal remaining
      cfg.gdn.blockSize cfg.logicalChunkAlignment = .ok (chunk, query)) :
    gdnChunk cfg choice g seq nominal remaining =
      capGdnCaptureBoundary cfg.gdn.blockSize choice.policy.policy choice.captureTargets g chunk
        query := by
  unfold gdnChunk
  rw [← Config.logicalChunkAlignment, h]
  rfl

omit [DecidableEq D] in
theorem firstChunk_cold (h : Canonical cfg) (hpolicy : choice.policy.policy = .admission64)
    (hkey : choice.restoreKey = none)
    (ht : FinalTarget cfg.gdn.blockSize f 0 choice.captureTargets) (hlt : 0 < prompt.len) :
    firstChunk cfg prompt choice =
      .ok ((stepEnd cfg.gdn.maxNumBatchedTokens prompt.len f 0 : Int) - (0 : Nat)) := by
  have hpos := h.budget_pos
  unfold firstChunk
  rw [getNumNewTokens_alone h hlt]
  show Prod.fst <$> gdnChunk _ _ _ _ _ _ = _
  rw [gdnChunk_of_plan (by rw [hkey]; rfl), hpolicy,
    capGdnCaptureBoundary_alone h.blockSize_pos ht le_rfl (by omega)]
  rfl

/-- Where the first step of a resumed run ends. -/
def resumedEnd (S len f r : Nat) : Nat := cappedEnd f r (min len ((r / S + 1) * S))

omit [DecidableEq D] in
theorem firstChunk_resumed (h : Canonical cfg) (hpolicy : choice.policy.policy = .admission64)
    {key : GdnPrefixKey D} (hkey : choice.restoreKey = some key) {r : Nat}
    (hr : key.1 * cfg.gdn.blockSize = r) (hpos : 0 < r) (hlt : r < prompt.len)
    (ht : FinalTarget cfg.gdn.blockSize f r choice.captureTargets) :
    firstChunk cfg prompt choice =
      .ok (resumedEnd cfg.gdn.maxNumBatchedTokens prompt.len f r : Int) := by
  have hbs := h.blockSize_pos
  have hS := h.budget_pos
  have hnext := Nat.lt_div_mul_add (a := r) hS
  have hbelow := Nat.div_mul_le_self r cfg.gdn.maxNumBatchedTokens
  have hsucc := Nat.succ_mul (r / cfg.gdn.maxNumBatchedTokens) cfg.gdn.maxNumBatchedTokens
  rw [Nat.succ_eq_add_one] at hsucc
  have hrem : (stepBudget cfg).remainingTokenBudget = cfg.gdn.maxNumBatchedTokens := by
    simp [stepBudget, SchedulingBudget.fresh, SchedulingBudget.remainingTokenBudget]
  -- the end of the fast-forward, before the cap
  have hend : fastForwardEnd r prompt.len cfg.gdn.maxNumBatchedTokens
      (some cfg.gdn.maxNumBatchedTokens) =
      (min prompt.len ((r / cfg.gdn.maxNumBatchedTokens + 1) * cfg.gdn.maxNumBatchedTokens) : Nat) := by
    unfold fastForwardEnd
    dsimp only
    omega
  have hplan : ∀ nominal : Int, nominal = ((min (0 + cfg.gdn.maxNumBatchedTokens) prompt.len : Nat) : Int)
      - (0 : Nat) →
      planGdnPrefixFastForward (some key) 0 prompt.len nominal cfg.gdn.maxNumBatchedTokens
        cfg.gdn.blockSize (some cfg.gdn.maxNumBatchedTokens) =
      .ok (((min prompt.len ((r / cfg.gdn.maxNumBatchedTokens + 1) * cfg.gdn.maxNumBatchedTokens) :
          Nat) : Int) - (0 : Nat),
        ((min prompt.len ((r / cfg.gdn.maxNumBatchedTokens + 1) * cfg.gdn.maxNumBatchedTokens) :
          Nat) : Int) - r) := by
    intro nominal hnominal
    have hmod := h.budget_dvd
    unfold planGdnPrefixFastForward
    dsimp only
    rw [if_neg (by omega), guardNot_bind, if_neg (by simp; omega), hr, hend, if_neg (by omega),
      if_neg (by simp; omega)]
    show Except.ok _ = Except.ok _
    congr 2
  have halign : cfg.logicalChunkAlignment = some cfg.gdn.maxNumBatchedTokens := if_pos h.hybrid
  unfold firstChunk
  rw [getNumNewTokens_alone h (by omega)]
  show Prod.fst <$> gdnChunk _ _ _ _ _ _ = _
  rw [gdnChunk_of_plan (by rw [hkey, halign, hrem]; exact hplan _ rfl), hpolicy,
    capGdnCaptureBoundary_alone h.blockSize_pos ht (by omega) (by omega)]
  exact congrArg Except.ok (Int.sub_zero _)

/-! ## The cuts of a run -/

/-- The positions at which the steps from `c` on are cut, in a prompt of `len` tokens whose steps
are capped at `f`. -/
def CutFrom (bs S chunkSize len f : Nat) : Nat → Nat → Nat → Prop
  | 0, _, _ => False
  | fuel + 1, c, x => c < len ∧
      (StepCut bs S chunkSize c (stepEnd S len f c) x ∨
        CutFrom bs S chunkSize len f fuel (stepEnd S len f c) x)

theorem lt_stepEnd {S len f c : Nat} (hS : 0 < S) (h : c < len) : c < stepEnd S len f c :=
  lt_cappedEnd (by omega)

theorem stepEnd_le {S len f c : Nat} : stepEnd S len f c ≤ len :=
  cappedEnd_le.trans (Nat.min_le_right _ _)

/-- More fuel than tokens changes nothing. -/
theorem cutFrom_fuel {chunkSize len f : Nat} (hS : 0 < S) {fuel c : Nat} (fuel' : Nat)
    (h : len - c < fuel) (h' : len - c < fuel') (x : Nat) :
    CutFrom bs S chunkSize len f fuel c x ↔ CutFrom bs S chunkSize len f fuel' c x := by
  induction fuel generalizing fuel' c with
  | zero => omega
  | succ fuel ih =>
    obtain ⟨fuel', rfl⟩ := Nat.exists_eq_succ_of_ne_zero (n := fuel') (by omega)
    unfold CutFrom
    by_cases hlt : c < len
    · have hnext := lt_stepEnd (f := f) hS hlt
      rw [ih fuel' (by omega) (by omega)]
    · exact ⟨fun hx => absurd hx.1 hlt, fun hx => absurd hx.1 hlt⟩

theorem lt_of_cutFrom {chunkSize len f : Nat} (hS : 0 < S) {fuel c x : Nat}
    (h : CutFrom bs S chunkSize len f fuel c x) : c < x := by
  induction fuel generalizing c with
  | zero => exact h.elim
  | succ fuel ih =>
    obtain ⟨hlt, hx | hx⟩ := h
    · exact hx.1
    · exact (lt_stepEnd hS hlt).trans (ih hx)

/-- One step of a run, and the rest of it. -/
theorem prefillCuts_step (h : Canonical cfg) (hchunk : 0 < chunkSize)
    (hpolicy : choice.policy.policy = .admission64) {fuel c p e : Nat} {rest : Nat → Prop}
    (halone : aloneChunk cfg prompt choice c = .ok ((e : Int) - c)) (hcp : c ≤ p) (hpe : p < e)
    (hle : e ≤ prompt.len)
    (hcontext : ∀ n, (GdnPrefill.mk prompt.blockHashes prompt.len c n choice.restoreKey
      choice.captureTargets).physicalContextTokens cfg.gdn.blockSize = p)
    (ht : FinalTarget cfg.gdn.blockSize f p choice.captureTargets)
    (hcap : ∀ t ∈ choice.captureTargets,
      ¬ (p < t.1 * cfg.gdn.blockSize ∧ t.1 * cfg.gdn.blockSize < e))
    (hrest : ∃ l, prefillCuts cfg chunkSize prompt choice fuel e = .ok l ∧ ∀ x, x ∈ l ↔ rest x) :
    ∃ l, prefillCuts cfg chunkSize prompt choice (fuel + 1) c = .ok l ∧ ∀ x, x ∈ l ↔
      StepCut cfg.gdn.blockSize cfg.gdn.maxNumBatchedTokens chunkSize p e x ∨ rest x := by
  obtain ⟨l, hl, hmem⟩ := hrest
  have hend : c + ((e : Int) - c).toNat = e := by omega
  have hlogical : (GdnPrefill.mk prompt.blockHashes prompt.len c ((e : Int) - c).toNat
      choice.restoreKey choice.captureTargets).logicalEndTokens = e := by
    show min prompt.len (c + ((e : Int) - c).toNat) = e
    omega
  obtain ⟨cuts, hcuts, hcutsmem⟩ := stepCuts_ok h hchunk hpolicy prompt.length_blockHashes hlogical
    (hcontext _) hle hpe ht.length_le ht.pos hcap
  refine ⟨cuts ++ l, ?_, fun x => by rw [List.mem_append, hcutsmem, hmem]⟩
  rw [prefillCuts, if_neg (by omega), halone]
  show (stepCuts cfg chunkSize choice _ >>= _) = _
  rw [hcuts]
  show (prefillCuts cfg chunkSize prompt choice fuel (c + ((e : Int) - c).toNat) >>= _) = _
  rw [hend, hl]
  rfl

/-- A run from a position that is computed. -/
theorem prefillCuts_later (h : Canonical cfg) (hchunk : 0 < chunkSize)
    (hpolicy : choice.policy.policy = .admission64) (fuel : Nat) {c : Nat} (hc : 0 < c)
    (hf : ∀ p, c ≤ p → FinalTarget cfg.gdn.blockSize f p choice.captureTargets)
    (hfuel : prompt.len - c < fuel) :
    ∃ l, prefillCuts cfg chunkSize prompt choice fuel c = .ok l ∧ ∀ x, x ∈ l ↔
      CutFrom cfg.gdn.blockSize cfg.gdn.maxNumBatchedTokens chunkSize prompt.len f fuel c x := by
  induction fuel generalizing c with
  | zero => omega
  | succ fuel ih =>
    by_cases hlen : prompt.len ≤ c
    · refine ⟨[], by rw [prefillCuts, if_pos hlen]; rfl, fun x => ?_⟩
      exact ⟨fun hx => absurd hx List.not_mem_nil, fun hx => absurd hx.1 (Nat.not_lt.mpr hlen)⟩
    · have hlt := Nat.not_le.mp hlen
      have hnext := lt_stepEnd (f := f) h.budget_pos hlt
      have halone : aloneChunk cfg prompt choice c =
          .ok ((stepEnd cfg.gdn.maxNumBatchedTokens prompt.len f c : Int) - c) := by
        unfold aloneChunk
        rw [if_neg hc.ne', laterChunk_ok h hpolicy (hf c le_rfl) hlt]
      have hrest := ih (c := stepEnd cfg.gdn.maxNumBatchedTokens prompt.len f c) (by omega)
        (fun p hp => hf p (by omega)) (by omega)
      obtain ⟨l, hl, hmem⟩ := prefillCuts_step h hchunk hpolicy halone le_rfl hnext stepEnd_le
        (fun n => if_neg (by simp [GdnPrefill.isFirstPrefill, hc.ne'])) (hf c le_rfl)
        (hf c le_rfl).not_inside hrest
      exact ⟨l, hl, fun x => by rw [hmem, CutFrom, and_iff_right hlt]⟩

/-- A run with nothing to restore. -/
theorem prefillCuts_cold (h : Canonical cfg) (hchunk : 0 < chunkSize)
    (hpolicy : choice.policy.policy = .admission64) (hkey : choice.restoreKey = none)
    (hf : ∀ p, FinalTarget cfg.gdn.blockSize f p choice.captureTargets) (hlt : 0 < prompt.len) :
    ∃ l, prefillCuts cfg chunkSize prompt choice (prompt.len + 1) 0 = .ok l ∧ ∀ x, x ∈ l ↔
      CutFrom cfg.gdn.blockSize cfg.gdn.maxNumBatchedTokens chunkSize prompt.len f
        (prompt.len + 1) 0 x := by
  have hnext := lt_stepEnd (f := f) h.budget_pos hlt
  have halone : aloneChunk cfg prompt choice 0 =
      .ok ((stepEnd cfg.gdn.maxNumBatchedTokens prompt.len f 0 : Int) - (0 : Nat)) := by
    unfold aloneChunk
    rw [if_pos rfl, firstChunk_cold h hpolicy hkey (hf 0) hlt]
  have hcontext : ∀ n, (GdnPrefill.mk prompt.blockHashes prompt.len 0 n choice.restoreKey
      choice.captureTargets).physicalContextTokens cfg.gdn.blockSize = 0 := by
    intro n
    rw [hkey]
    rfl
  obtain ⟨l, hl, hmem⟩ := prefillCuts_step h hchunk hpolicy halone le_rfl hnext stepEnd_le hcontext
    (hf 0) (hf 0).not_inside
    (prefillCuts_later h hchunk hpolicy prompt.len hnext (fun p _ => hf p) (by omega))
  exact ⟨l, hl, fun x => by rw [hmem, CutFrom, and_iff_right hlt]⟩

/-- A run that restores a state. -/
theorem prefillCuts_resumed (h : Canonical cfg) (hchunk : 0 < chunkSize)
    (hpolicy : choice.policy.policy = .admission64) {key : GdnPrefixKey D}
    (hkey : choice.restoreKey = some key) {r : Nat} (hr : key.1 * cfg.gdn.blockSize = r)
    (hpos : 0 < r) (hlt : r < prompt.len)
    (hf : ∀ p, r ≤ p → FinalTarget cfg.gdn.blockSize f p choice.captureTargets) :
    ∃ l, prefillCuts cfg chunkSize prompt choice (prompt.len + 1) 0 = .ok l ∧ ∀ x, x ∈ l ↔
      StepCut cfg.gdn.blockSize cfg.gdn.maxNumBatchedTokens chunkSize r
          (resumedEnd cfg.gdn.maxNumBatchedTokens prompt.len f r) x ∨
        CutFrom cfg.gdn.blockSize cfg.gdn.maxNumBatchedTokens chunkSize prompt.len f prompt.len
          (resumedEnd cfg.gdn.maxNumBatchedTokens prompt.len f r) x := by
  have hnext : r < resumedEnd cfg.gdn.maxNumBatchedTokens prompt.len f r := by
    have hgrid := Nat.lt_div_mul_add (a := r) h.budget_pos
    refine lt_cappedEnd (lt_min hlt ?_)
    rw [Nat.succ_mul]
    exact hgrid
  have halone : aloneChunk cfg prompt choice 0 =
      .ok ((resumedEnd cfg.gdn.maxNumBatchedTokens prompt.len f r : Int) - (0 : Nat)) := by
    unfold aloneChunk
    rw [if_pos rfl, firstChunk_resumed h hpolicy hkey hr hpos hlt (hf r le_rfl)]
    exact congrArg Except.ok (Int.sub_zero _).symm
  have hcontext : ∀ n, (GdnPrefill.mk prompt.blockHashes prompt.len 0 n choice.restoreKey
      choice.captureTargets).physicalContextTokens cfg.gdn.blockSize = r := by
    intro n
    rw [hkey]
    exact hr
  exact prefillCuts_step h hchunk hpolicy halone (Nat.zero_le r) hnext
    (cappedEnd_le.trans (Nat.min_le_left _ _)) hcontext (hf r le_rfl) (hf r le_rfl).not_inside
    (prefillCuts_later h hchunk hpolicy prompt.len (by omega) (fun p hp => hf p (by omega))
      (by omega))

end Bi100.Scheduler
