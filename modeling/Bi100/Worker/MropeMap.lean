import Bi100.Lib.Slices
import Bi100.Worker.Mrope

/-!
# The map of a well-formed sequence

- `Span`: text, `vision_start`, and the tokens of an image or a video.
- `segments`: the positions of some spans; after them the positions go on from `endIndex`.
- `getInputPositions_eq`: the map of a sequence of spans and text. The text after the spans has the
  positions from `endIndex` on, so a longer text changes neither the positions before nor the delta.
-/

namespace Bi100.Mrope

open Py
open Vision (Grid)

/-! ## Well-formed sequences -/

structure HfConfig.Distinct (cfg : HfConfig) : Prop where
  image_ne_video : cfg.imageTokenId ≠ cfg.videoTokenId
  image_ne_start : cfg.imageTokenId ≠ cfg.visionStartTokenId
  video_ne_start : cfg.videoTokenId ≠ cfg.visionStartTokenId

/-- No vision token. -/
def HfConfig.Plain (cfg : HfConfig) (token : Nat) : Prop :=
  token ≠ cfg.imageTokenId ∧ token ≠ cfg.videoTokenId ∧ token ≠ cfg.visionStartTokenId

inductive Modality where
  | image
  | video
deriving DecidableEq, Repr

def HfConfig.tokenId (cfg : HfConfig) : Modality → Nat
  | .image => cfg.imageTokenId
  | .video => cfg.videoTokenId

/-- The tokens of a grid. -/
def HfConfig.numTokens (cfg : HfConfig) (grid : Grid) : Nat :=
  grid.t * (grid.h / cfg.spatialMergeSize) * (grid.w / cfg.spatialMergeSize)

/-- Text, and an image or a video with at least one token. -/
structure Span (cfg : HfConfig) where
  text : List Nat
  modality : Modality
  grid : Grid
  plain : ∀ token ∈ text, cfg.Plain token
  pos : 0 < cfg.numTokens grid

variable {cfg : HfConfig}

/-- The tokens up to the first vision token after `vision_start`. -/
def Span.front (s : Span cfg) : List Nat := s.text ++ [cfg.visionStartTokenId]

def Span.tokens (s : Span cfg) : List Nat :=
  s.front ++ List.replicate (cfg.numTokens s.grid) (cfg.tokenId s.modality)

def render (spans : List (Span cfg)) : List Nat := spans.flatMap Span.tokens

theorem render_cons (s : Span cfg) (rest : List (Span cfg)) :
    render (s :: rest) = s.tokens ++ render rest := List.flatMap_cons

/-- The grids of the images, or of the videos. -/
def grids (modality : Modality) (spans : List (Span cfg)) : List Grid :=
  (spans.filter (·.modality = modality)).map (·.grid)

/-! ## The positions of the spans -/

def entries (columns : Columns) : List Nat := columns.flatMap fun c => [c.1, c.2.1, c.2.2]

/-- The columns of the image or video of a span. -/
def Span.vision (s : Span cfg) (stIdx : Nat) : Columns :=
  gridSegment s.grid.t (s.grid.h / cfg.spatialMergeSize) (s.grid.w / cfg.spatialMergeSize)
    (s.front.length + stIdx)

/-- The first position after a span. -/
def Span.next (s : Span cfg) (stIdx : Nat) : Nat := ((entries (s.vision stIdx)).max?.getD 0) + 1

def segments : List (Span cfg) → Nat → List Columns
  | [], _ => []
  | s :: rest, stIdx => textSegment s.front.length stIdx :: s.vision stIdx :: segments rest (s.next stIdx)

def endIndex : List (Span cfg) → Nat → Nat
  | [], stIdx => stIdx
  | s :: rest, stIdx => endIndex rest (s.next stIdx)

/-- The columns of spans with `textLen` tokens of text after them. -/
def fullColumns (spans : List (Span cfg)) (textLen : Nat) : Columns :=
  (segments spans 0).flatten ++ textSegment textLen (endIndex spans 0)

theorem mem_entries {columns : Columns} {x : Nat} :
    x ∈ entries columns ↔ ∃ c ∈ columns, x = c.1 ∨ x = c.2.1 ∨ x = c.2.2 := by
  unfold entries
  simp only [List.mem_flatMap, List.mem_cons, List.not_mem_nil, or_false]

theorem entries_append (a b : Columns) : entries (a ++ b) = entries a ++ entries b :=
  List.flatMap_append

theorem mem_entries_textSegment {textLen stIdx x : Nat} :
    x ∈ entries (textSegment textLen stIdx) ↔ stIdx ≤ x ∧ x < stIdx + textLen := by
  rw [mem_entries]
  constructor
  · rintro ⟨c, hc, hx⟩
    obtain ⟨i, hi, rfl⟩ := List.mem_map.mp hc
    rw [List.mem_range] at hi
    simp only [or_self] at hx
    omega
  · rintro ⟨hle, hlt⟩
    refine ⟨_, List.mem_map.mpr ⟨x - stIdx, List.mem_range.mpr (by omega), rfl⟩, .inl ?_⟩
    dsimp only
    omega

theorem length_gridSegment (t h w offset : Nat) : (gridSegment t h w offset).length = t * h * w := by
  rw [Nat.mul_assoc]
  refine (length_flatMap_rows (fun ti => ?_) _).trans (by rw [List.length_range])
  refine (length_flatMap_rows (fun hi => ?_) _).trans (by rw [List.length_range])
  rw [List.length_map, List.length_range]

theorem offset_le_gridSegment {t h w offset x : Nat} (hx : x ∈ entries (gridSegment t h w offset)) :
    offset ≤ x := by
  obtain ⟨c, hc, hx⟩ := mem_entries.mp hx
  obtain ⟨ti, -, hc⟩ := List.mem_flatMap.mp hc
  obtain ⟨hi, -, hc⟩ := List.mem_flatMap.mp hc
  obtain ⟨wi, -, rfl⟩ := List.mem_map.mp hc
  dsimp only at hx
  omega

theorem Span.length_vision (s : Span cfg) (stIdx : Nat) :
    (s.vision stIdx).length = cfg.numTokens s.grid := length_gridSegment _ _ _ _

/-- The greatest position of a span is that before `next`. -/
theorem Span.max?_vision (s : Span cfg) (stIdx : Nat) :
    (entries (s.vision stIdx)).max? = some (s.next stIdx - 1) := by
  have hne : entries (s.vision stIdx) ≠ [] := by
    intro hnil
    have hpos := s.pos
    rw [← s.length_vision stIdx] at hpos
    obtain ⟨c, hc⟩ := List.exists_mem_of_length_pos hpos
    have hmem := mem_entries.mpr ⟨c, hc, .inl rfl⟩
    rw [hnil] at hmem
    cases hmem
  unfold Span.next
  cases hmax : (entries (s.vision stIdx)).max? with
  | none => exact absurd (List.max?_eq_none_iff.mp hmax) hne
  | some m => rfl

theorem maxEntry_eq {columns : Columns} {m : Nat} (h : (entries columns).max? = some m) :
    maxEntry columns = .ok m := by
  unfold maxEntry
  rw [show columns.flatMap _ = entries columns from rfl, h]
  rfl

theorem Span.lt_next {s : Span cfg} {stIdx x : Nat} (hx : x ∈ entries (s.vision stIdx)) :
    x < s.next stIdx := by
  have hle := (List.max?_eq_some_iff.mp (s.max?_vision stIdx)).2 x hx
  unfold Span.next at hle ⊢
  omega

theorem Span.front_lt_next (s : Span cfg) (stIdx : Nat) : s.front.length + stIdx < s.next stIdx := by
  obtain ⟨hmem, -⟩ := List.max?_eq_some_iff.mp (s.max?_vision stIdx)
  have hle := offset_le_gridSegment hmem
  unfold Span.next at hle ⊢
  omega

theorem le_endIndex (spans : List (Span cfg)) (stIdx : Nat) : stIdx ≤ endIndex spans stIdx := by
  induction spans generalizing stIdx with
  | nil => exact Nat.le_refl _
  | cons s rest ih =>
    have hnext := s.front_lt_next stIdx
    have hle := ih (s.next stIdx)
    rw [endIndex]
    omega

/-- The positions of the spans are below those after them. -/
theorem lt_endIndex {spans : List (Span cfg)} {stIdx x : Nat}
    (hx : x ∈ entries (segments spans stIdx).flatten) : x < endIndex spans stIdx := by
  induction spans generalizing stIdx with
  | nil => cases hx
  | cons s rest ih =>
    rw [segments, List.flatten_cons, List.flatten_cons, entries_append, entries_append,
      List.mem_append, List.mem_append] at hx
    have hle := le_endIndex rest (s.next stIdx)
    rw [endIndex]
    rcases hx with hx | hx | hx
    · have hlt := (mem_entries_textSegment.mp hx).2
      have hnext := s.front_lt_next stIdx
      omega
    · exact (Span.lt_next hx).trans_le hle
    · exact ih hx

theorem length_segments (spans : List (Span cfg)) (stIdx : Nat) :
    (segments spans stIdx).flatten.length = (render spans).length := by
  induction spans generalizing stIdx with
  | nil => rfl
  | cons s rest ih =>
    rw [segments, List.flatten_cons, List.flatten_cons, List.length_append, List.length_append, ih,
      s.length_vision, render_cons, List.length_append, Span.tokens, List.length_append,
      List.length_replicate, textSegment, List.length_map, List.length_range, Nat.add_assoc]

/-! ## The vision tokens -/

theorem visionTokens_cons (cfg : HfConfig) (token : Nat) (rest : List Nat) :
    visionTokens cfg (token :: rest) =
      if token = cfg.visionStartTokenId then do
        let first ← tokenAt rest 0
        let others ← visionTokens cfg rest
        pure (first :: others)
      else visionTokens cfg rest := by
  have hfilter : (List.range (token :: rest).length).filter
      (fun i => (token :: rest)[i]? = some cfg.visionStartTokenId) =
      (if token = cfg.visionStartTokenId then [0] else []) ++
        ((List.range rest.length).filter fun i => rest[i]? = some cfg.visionStartTokenId).map
          (· + 1) := by
    rw [List.length_cons, List.range_succ_eq_map, List.filter_cons, List.filter_map]
    by_cases h : token = cfg.visionStartTokenId
    · simp [h, Function.comp_def]
    · simp [h, Function.comp_def]
  unfold visionTokens
  dsimp only
  rw [hfilter]
  split
  · rw [List.singleton_append, List.mapM_cons, List.mapM_map]
    rfl
  · rw [List.nil_append, List.mapM_map]
    rfl

theorem visionTokens_skip {part : List Nat} (h : ∀ token ∈ part, token ≠ cfg.visionStartTokenId)
    (rest : List Nat) : visionTokens cfg (part ++ rest) = visionTokens cfg rest := by
  induction part with
  | nil => rfl
  | cons token part ih =>
    rw [List.cons_append, visionTokens_cons, if_neg (h token List.mem_cons_self)]
    exact ih fun t ht => h t (List.mem_cons_of_mem token ht)

theorem HfConfig.Distinct.tokenId_ne_start (hcfg : cfg.Distinct) (modality : Modality) :
    cfg.tokenId modality ≠ cfg.visionStartTokenId := by
  cases modality
  · exact hcfg.image_ne_start
  · exact hcfg.video_ne_start

theorem HfConfig.Distinct.tokenId_inj (hcfg : cfg.Distinct) {a b : Modality}
    (h : cfg.tokenId a = cfg.tokenId b) : a = b := by
  cases a <;> cases b
  · rfl
  · exact absurd h hcfg.image_ne_video
  · exact absurd h.symm hcfg.image_ne_video
  · rfl

/-- Each span has one vision token after its `vision_start`. -/
theorem visionTokens_render (hcfg : cfg.Distinct) (spans : List (Span cfg)) {tail : List Nat}
    (htail : ∀ token ∈ tail, cfg.Plain token) :
    visionTokens cfg (render spans ++ tail) = .ok (spans.map fun s => cfg.tokenId s.modality) := by
  induction spans with
  | nil =>
    have hskip := visionTokens_skip (fun token ht => (htail token ht).2.2) []
    rw [List.append_nil] at hskip
    exact hskip
  | cons s rest ih =>
    obtain ⟨n, hn⟩ := Nat.exists_eq_succ_of_ne_zero s.pos.ne'
    have hvision : ∀ token ∈ List.replicate (cfg.numTokens s.grid) (cfg.tokenId s.modality),
        token ≠ cfg.visionStartTokenId := by
      intro token ht
      rw [List.eq_of_mem_replicate ht]
      exact hcfg.tokenId_ne_start s.modality
    rw [render_cons, Span.tokens, Span.front, List.append_assoc, List.append_assoc, List.append_assoc,
      visionTokens_skip fun token ht => (s.plain token ht).2.2, List.singleton_append,
      visionTokens_cons, if_pos rfl, visionTokens_skip hvision, ih, hn, List.replicate_succ]
    rfl

theorem count_vision (hcfg : cfg.Distinct) (modality : Modality) (spans : List (Span cfg)) :
    (spans.map fun s => cfg.tokenId s.modality).count (cfg.tokenId modality) =
      (grids modality spans).length := by
  rw [grids, List.length_map, ← List.countP_eq_length_filter, List.count, List.countP_map]
  refine List.countP_congr fun s _ => ?_
  simp only [Function.comp_apply, beq_iff_eq, decide_eq_true_iff]
  exact ⟨hcfg.tokenId_inj, congrArg _⟩

/-! ## The loop -/

/-- The next vision token, after a part without it. -/
theorem nextVision_eq {pre part rest : List Nat} {token remain : Nat} (hpart : token ∉ part)
    (hremain : 0 < remain) :
    nextVision (pre ++ (part ++ token :: rest)) token remain pre.length =
      .ok (pre.length + part.length) := by
  have hmem : token ∈ part ++ token :: rest := List.mem_append_right part List.mem_cons_self
  unfold nextVision indexFrom
  rw [if_pos ⟨List.mem_append_right pre hmem, hremain⟩, List.drop_left, if_pos hmem,
    List.idxOf_append_of_notMem hpart, List.idxOf_cons_self, Nat.add_zero]
  rfl

/-- The tokens of the other kind are behind a part without them. -/
theorem le_nextVision (pre : List Nat) {part rest : List Nat} {token remain : Nat} (hpart : token ∉ part)
    (hrest : 0 < remain → token ∈ rest) :
    ∃ e, nextVision (pre ++ (part ++ rest)) token remain pre.length = .ok e ∧
      pre.length + part.length ≤ e := by
  unfold nextVision
  split
  · next h =>
    have hmem : token ∈ part ++ rest := List.mem_append_right part (hrest h.2)
    unfold indexFrom
    rw [List.drop_left, if_pos hmem, List.idxOf_append_of_notMem hpart]
    exact ⟨_, rfl, by omega⟩
  · refine ⟨_, rfl, ?_⟩
    simp only [List.length_append]
    omega

theorem mem_render {modality : Modality} {spans : List (Span cfg)}
    (h : 0 < (grids modality spans).length) : cfg.tokenId modality ∈ render spans := by
  obtain ⟨grid, hgrid⟩ := List.exists_mem_of_length_pos h
  obtain ⟨s, hs, -⟩ := List.mem_map.mp hgrid
  obtain ⟨hmem, hmodality⟩ := List.mem_filter.mp hs
  obtain rfl := of_decide_eq_true hmodality
  refine List.mem_flatMap.mpr ⟨s, hmem, List.mem_append_right _ ?_⟩
  exact List.mem_replicate.mpr ⟨s.pos.ne', rfl⟩

theorem gridAt_eq {gridThw : Option (List Grid)} {index : Nat} {grid : Grid}
    (h : (gridThw.getD [])[index]? = some grid) : gridAt gridThw index = .ok grid := by
  unfold gridAt
  cases gridThw with
  | none => cases h
  | some grids =>
    rw [Option.getD_some] at h
    dsimp only
    rw [h]
    rfl

/-- The multi-modal data has the grids of the spans. -/
structure MultiModalKwargs.Matches (kwargs : MultiModalKwargs) (spans : List (Span cfg)) : Prop where
  given : ¬ (kwargs.imageGridThw = none ∧ kwargs.videoGridThw = none)
  image : kwargs.imageGridThw.getD [] = grids .image spans
  video : kwargs.videoGridThw.getD [] = grids .video spans

/-- The state of the loop between two spans. -/
def loopState (done rest : List (Span cfg)) : LoopState where
  llmPosIdsList := segments done 0
  st := (render done).length
  remainImages := (grids .image rest).length
  remainVideos := (grids .video rest).length
  imageIndex := (grids .image done).length
  videoIndex := (grids .video done).length

theorem grids_append (modality : Modality) (a b : List (Span cfg)) :
    grids modality (a ++ b) = grids modality a ++ grids modality b := by
  rw [grids, List.filter_append, List.map_append]
  rfl

theorem grids_cons_self (s : Span cfg) (rest : List (Span cfg)) :
    grids s.modality (s :: rest) = s.grid :: grids s.modality rest := by
  have hself : decide (s.modality = s.modality) = true := decide_eq_true rfl
  rw [grids, List.filter_cons, if_pos hself, List.map_cons]
  rfl

theorem grids_cons_other {s : Span cfg} {modality : Modality} (h : s.modality ≠ modality)
    (rest : List (Span cfg)) : grids modality (s :: rest) = grids modality rest := by
  have hother : ¬ decide (s.modality = modality) = true := fun hd => h (of_decide_eq_true hd)
  rw [grids, List.filter_cons, if_neg hother]
  rfl

theorem render_append (a b : List (Span cfg)) : render (a ++ b) = render a ++ render b :=
  List.flatMap_append

theorem segments_append (a b : List (Span cfg)) (stIdx : Nat) :
    segments (a ++ b) stIdx = segments a stIdx ++ segments b (endIndex a stIdx) := by
  induction a generalizing stIdx with
  | nil => rfl
  | cons s rest ih => rw [List.cons_append, segments, ih, segments, endIndex]; rfl

theorem endIndex_append (a b : List (Span cfg)) (stIdx : Nat) :
    endIndex (a ++ b) stIdx = endIndex b (endIndex a stIdx) := by
  induction a generalizing stIdx with
  | nil => rfl
  | cons s rest ih => rw [List.cons_append, endIndex, ih, endIndex]

/-- The positions after the spans begin at `endIndex`. -/
theorem nextIndex_segments (spans : List (Span cfg)) :
    nextIndex (segments spans 0) = .ok (endIndex spans 0) := by
  rcases List.eq_nil_or_concat spans with rfl | ⟨done, s, rfl⟩
  · rfl
  · rw [List.concat_eq_append, segments_append, endIndex_append, nextIndex, segments, segments,
      List.getLast?_append]
    show (maxEntry (s.vision (endIndex done 0)) >>= _) = _
    rw [maxEntry_eq (s.max?_vision _)]
    rfl

theorem not_mem_front (hcfg : cfg.Distinct) (modality : Modality) (s : Span cfg) :
    cfg.tokenId modality ∉ s.front := by
  intro h
  rcases List.mem_append.mp h with h | h
  · cases modality
    · exact (s.plain _ h).1 rfl
    · exact (s.plain _ h).2.1 rfl
  · exact hcfg.tokenId_ne_start modality (List.mem_singleton.mp h)

section Step

variable (hcfg : cfg.Distinct) (done rest : List (Span cfg)) (s : Span cfg) (tail : List Nat)

theorem tokens_split : render (done ++ s :: rest) ++ tail = render done ++ (s.front ++
    (List.replicate (cfg.numTokens s.grid) (cfg.tokenId s.modality) ++ (render rest ++ tail))) := by
  rw [render_append, render_cons, Span.tokens, List.append_assoc, List.append_assoc, List.append_assoc]

include hcfg

theorem nextVision_this :
    nextVision (render (done ++ s :: rest) ++ tail) (cfg.tokenId s.modality)
      (grids s.modality (s :: rest)).length (render done).length =
        .ok ((render done).length + s.front.length) := by
  obtain ⟨n, hn⟩ := Nat.exists_eq_succ_of_ne_zero s.pos.ne'
  rw [tokens_split, hn, List.replicate_succ, List.cons_append, grids_cons_self]
  exact nextVision_eq (not_mem_front hcfg _ s) (Nat.succ_pos _)

theorem nextVision_other {modality : Modality} (hne : s.modality ≠ modality) :
    ∃ e, nextVision (render (done ++ s :: rest) ++ tail) (cfg.tokenId modality)
        (grids modality (s :: rest)).length (render done).length = .ok e ∧
      (render done).length + s.front.length < e := by
  have hpart : cfg.tokenId modality ∉
      s.front ++ List.replicate (cfg.numTokens s.grid) (cfg.tokenId s.modality) := by
    intro h
    rcases List.mem_append.mp h with h | h
    · exact not_mem_front hcfg modality s h
    · exact hne (hcfg.tokenId_inj (List.eq_of_mem_replicate h).symm)
  have hrest : 0 < (grids modality rest).length → cfg.tokenId modality ∈ render rest ++ tail :=
    fun h => List.mem_append_left tail (mem_render h)
  rw [tokens_split, ← List.append_assoc s.front, grids_cons_other hne]
  obtain ⟨e, he, hle⟩ := le_nextVision (render done) hpart hrest
  have hpos := s.pos
  rw [List.length_append, List.length_replicate] at hle
  exact ⟨e, he, by omega⟩

omit hcfg

theorem push_eq (remainImages remainVideos imageIndex videoIndex : Nat) :
    LoopState.push cfg
      ⟨segments done 0, (render done).length, remainImages, remainVideos, imageIndex, videoIndex⟩
      s.grid ((render done).length + s.front.length) =
    .ok ⟨segments (done ++ [s]) 0, (render (done ++ [s])).length, remainImages, remainVideos,
      imageIndex, videoIndex⟩ := by
  have hmerge : cfg.spatialMergeSize ≠ 0 := by
    intro h0
    have hpos := s.pos
    rw [HfConfig.numTokens, h0, Nat.div_zero, Nat.mul_zero, Nat.zero_mul] at hpos
    exact Nat.lt_irrefl 0 hpos
  have hlen : (render (done ++ [s])).length =
      (render done).length + s.front.length + cfg.numTokens s.grid := by
    rw [render_append, render_cons, List.length_append, List.length_append, Span.tokens,
      List.length_append, List.length_replicate, Nat.add_assoc, Nat.add_assoc]
    rfl
  rw [LoopState.push, guardNot_bind, if_neg hmerge, guardNot_bind, if_neg (by dsimp only; omega)]
  dsimp only
  rw [nextIndex_segments, hlen, segments_append, Nat.add_sub_cancel_left]
  rfl

end Step

/-- One iteration takes one span. -/
theorem visionStep_eq (hcfg : cfg.Distinct) {kwargs : MultiModalKwargs} {done rest : List (Span cfg)}
    {s : Span cfg} (hkwargs : kwargs.Matches (done ++ s :: rest)) (tail : List Nat) :
    visionStep cfg (render (done ++ s :: rest) ++ tail) kwargs (loopState done (s :: rest)) =
      .ok (loopState (done ++ [s]) rest) := by
  have hthis := nextVision_this hcfg done rest s tail
  have hgrid : (grids s.modality (done ++ s :: rest))[(grids s.modality done).length]? =
      some s.grid := by
    rw [grids_append, grids_cons_self, List.getElem?_append_right (Nat.le_refl _), Nat.sub_self]
    rfl
  have hself := grids_cons_self s rest
  have hone := grids_cons_self s []
  unfold visionStep loopState
  cases hmodality : s.modality with
  | image =>
    have hne : s.modality ≠ .video := by
      rw [hmodality]
      decide
    obtain ⟨edVideo, hvideo, hlt⟩ := nextVision_other hcfg done rest s tail hne
    rw [hmodality] at hthis hgrid hself hone
    rw [← hkwargs.image] at hgrid
    dsimp only
    rw [show nextVision _ cfg.imageTokenId _ _ = _ from hthis,
      show nextVision _ cfg.videoTokenId _ _ = _ from hvideo]
    show (if _ then _ else _) = _
    rw [if_pos hlt, gridAt_eq hgrid, hself, grids_cons_other hne, grids_append, grids_append, hone,
      grids_cons_other hne [], List.length_append, List.length_append]
    exact push_eq done s _ _ _ _
  | video =>
    have hne : s.modality ≠ .image := by
      rw [hmodality]
      decide
    obtain ⟨edImage, himage, hlt⟩ := nextVision_other hcfg done rest s tail hne
    rw [hmodality] at hthis hgrid hself hone
    rw [← hkwargs.video] at hgrid
    dsimp only
    rw [show nextVision _ cfg.videoTokenId _ _ = _ from hthis,
      show nextVision _ cfg.imageTokenId _ _ = _ from himage]
    show (if _ then _ else _) = _
    rw [if_neg (Nat.not_lt.mpr hlt.le), gridAt_eq hgrid, hself, grids_cons_other hne, grids_append,
      grids_append, hone, grids_cons_other hne [], List.length_append, List.length_append]
    exact push_eq done s _ _ _ _

theorem visionLoop_eq (hcfg : cfg.Distinct) {kwargs : MultiModalKwargs} (done rest : List (Span cfg))
    (hkwargs : kwargs.Matches (done ++ rest)) (tail : List Nat) :
    visionLoop cfg (render (done ++ rest) ++ tail) kwargs rest.length (loopState done rest) =
      .ok (loopState (done ++ rest) []) := by
  induction rest generalizing done with
  | nil => rw [List.append_nil]; rfl
  | cons s rest ih =>
    have hsplit : done ++ s :: rest = done ++ [s] ++ rest := by rw [List.append_assoc]; rfl
    rw [List.length_cons, visionLoop, visionStep_eq hcfg hkwargs]
    rw [hsplit] at hkwargs ⊢
    exact ih (done ++ [s]) hkwargs

/-! ## The map -/

theorem length_grids (spans : List (Span cfg)) :
    (grids .image spans).length + (grids .video spans).length = spans.length := by
  induction spans with
  | nil => rfl
  | cons s rest ih =>
    have hself := grids_cons_self s rest
    cases hmodality : s.modality with
    | image =>
      rw [hmodality] at hself
      rw [hself, grids_cons_other (by rw [hmodality]; decide), List.length_cons, List.length_cons]
      omega
    | video =>
      rw [hmodality] at hself
      rw [hself, grids_cons_other (by rw [hmodality]; decide), List.length_cons, List.length_cons]
      omega

/-- The delta of some spans, whatever text comes after them. -/
def delta (spans : List (Span cfg)) : Int := (endIndex spans 0 : Int) - (render spans).length

theorem appendText_eq (spans : List (Span cfg)) {tail : List Nat}
    (hne : render spans ++ tail ≠ []) :
    ∃ columns, appendText (render spans ++ tail) (loopState spans []) = .ok columns ∧
      columns ≠ [] ∧ columns.flatten = fullColumns spans tail.length := by
  unfold appendText loopState fullColumns
  dsimp only
  rw [List.length_append, nextIndex_segments, Nat.add_sub_cancel_left]
  by_cases htail : tail = []
  · subst htail
    rw [if_neg (by simp)]
    refine ⟨_, rfl, fun hnil => hne ?_, (List.append_nil _).symm⟩
    have hlen := length_segments spans 0
    rw [hnil, List.flatten_nil, List.length_nil] at hlen
    rw [List.append_nil]
    exact List.length_eq_zero_iff.mp hlen.symm
  · have hpos := List.length_pos_iff.mpr htail
    rw [if_pos (by omega)]
    refine ⟨_, rfl, by simp, ?_⟩
    rw [List.flatten_append, List.flatten_singleton]

theorem last_mem_segments {spans : List (Span cfg)} (hne : spans ≠ []) :
    endIndex spans 0 - 1 ∈ entries (segments spans 0).flatten := by
  rcases List.eq_nil_or_concat spans with rfl | ⟨done, s, rfl⟩
  · exact absurd rfl hne
  · rw [List.concat_eq_append, segments_append, endIndex_append, List.flatten_append, entries_append]
    refine List.mem_append_right _ ?_
    have hlast := (List.max?_eq_some_iff.mp (s.max?_vision (endIndex done 0))).1
    rw [segments, List.flatten_cons, entries_append, segments, List.flatten_cons, entries_append]
    exact List.mem_append_right _ (List.mem_append_left _ hlast)

/-- The greatest position is the last one. -/
theorem max?_fullColumns (spans : List (Span cfg)) {textLen : Nat}
    (hne : 0 < (render spans).length + textLen) :
    (entries (fullColumns spans textLen)).max? = some (endIndex spans 0 + textLen - 1) := by
  rw [List.max?_eq_some_iff, fullColumns, entries_append]
  constructor
  · rcases Nat.eq_zero_or_pos textLen with rfl | htext
    · refine List.mem_append_left _ (last_mem_segments fun hnil => ?_)
      subst hnil
      exact Nat.lt_irrefl 0 hne
    · exact List.mem_append_right _ (mem_entries_textSegment.mpr (by omega))
  · intro x hx
    rcases List.mem_append.mp hx with hx | hx
    · have hlt := lt_endIndex hx
      omega
    · have hlt := (mem_entries_textSegment.mp hx).2
      omega

/-- **The map of a sequence.** -/
theorem getInputPositions_eq (hcfg : cfg.Distinct) {kwargs : MultiModalKwargs}
    {spans : List (Span cfg)} (hkwargs : kwargs.Matches spans) {tail : List Nat}
    (htail : ∀ token ∈ tail, cfg.Plain token) (hne : render spans ++ tail ≠ []) :
    getInputPositions cfg (render spans ++ tail) kwargs 0 =
      .ok (toAxes (fullColumns spans tail.length), delta spans) := by
  have himage := count_vision hcfg .image spans
  have hvideo := count_vision hcfg .video spans
  obtain ⟨columns, hcolumns, hnil, hflat⟩ := appendText_eq spans hne
  have hpos : 0 < (render spans).length + tail.length := by
    rw [← List.length_append]
    exact List.length_pos_iff.mpr hne
  have hloop := visionLoop_eq hcfg [] spans hkwargs tail
  have hstart : loopState [] spans =
    ⟨[], 0, (grids .image spans).length, (grids .video spans).length, 0, 0⟩ := rfl
  rw [List.nil_append, ← length_grids, hstart] at hloop
  have hend : 0 < endIndex spans 0 + tail.length := by
    cases spans with
    | nil => exact Nat.add_pos_right _ (List.length_pos_iff.mpr hne)
    | cons s rest =>
      have hnext := s.front_lt_next 0
      have hle := le_endIndex rest (s.next 0)
      rw [endIndex]
      omega
  unfold getInputPositions
  rw [visionTokens_render hcfg spans htail]
  show (visionLoop _ _ _ _ _ >>= _) = _
  rw [show (spans.map fun s => cfg.tokenId s.modality).count cfg.imageTokenId = _ from himage,
    show (spans.map fun s => cfg.tokenId s.modality).count cfg.videoTokenId = _ from hvideo,
    hloop]
  show (appendText _ _ >>= _) = _
  rw [hcolumns]
  show (guardNot _ _ >>= _) = _
  rw [guardNot_bind, if_neg hnil]
  show (maxEntry (columns.flatten.drop 0) >>= _) = _
  rw [List.drop_zero, hflat, maxEntry_eq (max?_fullColumns spans hpos)]
  refine congrArg Except.ok (Prod.ext rfl ?_)
  show ((endIndex spans 0 + tail.length - 1 : Nat) : Int) + 1 -
    (render spans ++ tail).length = delta spans
  rw [List.length_append, delta]
  omega

end Bi100.Mrope
