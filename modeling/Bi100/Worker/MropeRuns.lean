import Bi100.Lib.Run
import Bi100.Worker.MropeMap

/-!
# The positions that a sequence is fed with

- `Step`: the worker is fed with a chunk or a decoded token, a token is generated, a prefix is
  restored, or the sequence is recomputed. A prefill always comes with the multi-modal data; a decode
  comes with it when there is a prefill in the batch.
- `Inv`: the delta is that of the prompt, and a sequence that decodes has it.
- `positions_exact`: in every run, every token is fed with its column of the map of the whole
  sequence.
-/

namespace Bi100.Mrope

open Py

variable {cfg : HfConfig}

/-! ## The chunk -/

/-- The fed positions are those from `contextLen` up to `seqLen`. -/
structure Chunk (d : InterData) (numComputed len : Nat) : Prop where
  context : numComputed ≤ d.contextLen
  lt : d.contextLen < d.seqLen
  le : d.seqLen ≤ len
  positions : d.inputPositions = List.range' d.contextLen (d.seqLen - d.contextLen)
  tokens : d.inputTokens.length = d.seqLen - d.contextLen

theorem computeLens_chunk {g : SeqMetadata} (hlt : g.seqData.numComputedTokens < g.seqData.getLen)
    (hchunk : 0 < g.tokenChunkSize) :
    Chunk (computeLens g) g.seqData.numComputedTokens g.seqData.getLen := by
  have hle := computeLens_seqLen_le g
  have hcontext : (computeLens g).contextLen = g.seqData.numComputedTokens := rfl
  refine ⟨Nat.le_refl _, ?_, hle, rfl, ?_⟩
  · rw [hcontext]
    unfold computeLens
    dsimp only
    split
    · omega
    · exact hlt
  · show ((g.seqData.getTokenIds.take (computeLens g).seqLen).drop g.seqData.numComputedTokens).length
      = _
    rw [List.length_drop, List.length_take, SequenceData.length_getTokenIds, Nat.min_eq_left hle,
      hcontext]

theorem Chunk.prefixCacheHit {d : InterData} {n len : Nat} (h : Chunk d n len) (config : RunnerConfig) :
    Chunk (Bi100.computeForPrefixCacheHit config d) n len := by
  have hcontext := h.context
  have hlt := h.lt
  have htokens := h.tokens
  unfold Bi100.computeForPrefixCacheHit
  dsimp only
  split
  · exact ⟨h.context, h.lt, h.le, h.positions, h.tokens⟩
  · split
    · exact ⟨h.context, h.lt, h.le, h.positions, h.tokens⟩
    · split
      · next hpast hpartial =>
        refine ⟨by dsimp only; omega, hpartial, h.le, ?_, ?_⟩
        · show d.inputPositions.drop _ =
            List.range' (prefixCacheLen config d) (d.seqLen - prefixCacheLen config d)
          rw [h.positions, List.drop_range', Nat.mul_one]
          congr 1
          · omega
          · omega
        · show (d.inputTokens.drop _).length = d.seqLen - prefixCacheLen config d
          rw [List.length_drop]
          omega
      · refine ⟨by dsimp only; omega, by dsimp only; omega, h.le, ?_, ?_⟩
        · show d.inputPositions.drop _ = List.range' (d.seqLen - 1) (d.seqLen - (d.seqLen - 1))
          rw [h.positions, List.drop_range', List.length_range', Nat.mul_one]
          congr 1
          · omega
          · omega
        · show (d.inputTokens.drop _).length = d.seqLen - (d.seqLen - 1)
          rw [List.length_drop]
          omega

/-! ## Slices of the positions -/

theorem axisSlice_from (axis : List Int) (start : Nat) : axisSlice axis start none = axis.drop start := by
  unfold axisSlice
  rw [if_neg (by omega), Int.toNat_natCast, Option.getD_none, List.take_length]

theorem axisSlice_last (axis : List Int) : axisSlice axis (-1) none = axis.drop (axis.length - 1) := by
  unfold axisSlice
  rw [if_pos (by decide), Option.getD_none, List.take_length]
  rfl

theorem axisSlice_between (axis : List Int) (start stop : Nat) :
    axisSlice axis start (some stop) = slice axis start stop := by
  unfold axisSlice
  rw [if_neg (by omega), Int.toNat_natCast, Option.getD_some]
  rfl

theorem sliceMropePositions_ok {positions : List (List Int)} {start : Int} {stop : Option Nat}
    {expectedLen : Nat} (hthree : positions.length = 3)
    (hlen : ∀ axis ∈ positions, (axisSlice axis start stop).length = expectedLen) :
    sliceMropePositions positions start stop expectedLen =
      .ok (positions.map fun axis => axisSlice axis start stop) := by
  have hlengths : (positions.map fun axis => axisSlice axis start stop).map List.length =
      List.replicate 3 expectedLen := by
    rw [List.map_map, ← hthree]
    exact List.map_eq_replicate_iff.mpr hlen
  rw [sliceMropePositions, guardNot_bind, if_neg (not_not.mpr hthree)]
  dsimp only
  rw [guardNot_bind, if_neg (not_not.mpr hlengths)]
  rfl

theorem mem_getNextInputPositions {delta : Int} {contextLen seqLen : Nat} {axis : List Int}
    (h : axis ∈ getNextInputPositions delta contextLen seqLen) :
    axis = (List.range' contextLen (seqLen - contextLen)).map fun i : Nat => (i : Int) + delta :=
  (List.mem_replicate.mp h).2

theorem length_getNextInputPositions (delta : Int) (contextLen seqLen : Nat) :
    (getNextInputPositions delta contextLen seqLen).length = 3 := List.length_replicate

/-- The positions of the delta formula are never sliced to another length. -/
theorem computeForPrefixCacheHit_ok (r : Runner) {d : InterData} {n len : Nat} (h : Chunk d n len)
    (delta : Option Int) :
    ∃ positions, computeForPrefixCacheHit r d (delta.map fun delta =>
      getNextInputPositions delta d.contextLen d.seqLen) = .ok positions := by
  have hlt := h.lt
  cases delta with
  | none => exact ⟨none, rfl⟩
  | some delta =>
    rw [Option.map_some]
    unfold computeForPrefixCacheHit
    dsimp only
    split
    · exact ⟨_, rfl⟩
    · split
      · exact ⟨_, rfl⟩
      · split
        · next hpast hpartial =>
          rw [sliceMropePositions_ok (length_getNextInputPositions _ _ _)]
          · exact ⟨_, rfl⟩
          · intro axis haxis
            rw [axisSlice_from, mem_getNextInputPositions haxis, List.length_drop, List.length_map,
              List.length_range']
            omega
        · rw [sliceMropePositions_ok (length_getNextInputPositions _ _ _)]
          · exact ⟨_, rfl⟩
          · intro axis haxis
            rw [axisSlice_last, mem_getNextInputPositions haxis, List.length_drop, List.length_map,
              List.length_range']
            omega

/-! ## The map of a longer sequence -/

theorem length_fullColumns (spans : List (Span cfg)) (textLen : Nat) :
    (fullColumns spans textLen).length = (render spans).length + textLen := by
  rw [fullColumns, List.length_append, length_segments, textSegment, List.length_map,
    List.length_range]

theorem length_toAxes {columns : Columns} {axis : List Int} (h : axis ∈ toAxes columns) :
    axis.length = columns.length := by
  simp only [toAxes, List.mem_cons, List.not_mem_nil, or_false] at h
  rcases h with rfl | rfl | rfl
  · rw [List.length_map]
  · rw [List.length_map]
  · rw [List.length_map]

/-- An entry of a tensor. -/
def entryAt (axes : List (List Int)) (axis position : Nat) : Option Int :=
  axes[axis]?.bind (·[position]?)

theorem entryAt_map (axes : List (List Int)) (f : List Int → List Int) (axis position : Nat) :
    entryAt (axes.map f) axis position = axes[axis]?.bind fun a => (f a)[position]? := by
  rw [entryAt, List.getElem?_map]
  cases axes[axis]? with
  | none => rfl
  | some a => rfl

/-- The positions of the text are those of the delta formula. -/
theorem entryAt_text (spans : List (Span cfg)) {textLen axis position : Nat} (haxis : axis < 3)
    (hlow : (render spans).length ≤ position) (hhigh : position < (render spans).length + textLen) :
    entryAt (toAxes (fullColumns spans textLen)) axis position =
      some (position + delta spans) := by
  have hcolumn : (fullColumns spans textLen)[position]? =
      some (position - (render spans).length + endIndex spans 0,
        position - (render spans).length + endIndex spans 0,
        position - (render spans).length + endIndex spans 0) := by
    rw [fullColumns, List.getElem?_append_right (by rwa [length_segments]), length_segments, textSegment,
      List.getElem?_map, List.getElem?_range (by omega)]
    rfl
  have hvalue : ((position - (render spans).length + endIndex spans 0 : Nat) : Int) =
      position + delta spans := by
    rw [delta]
    omega
  have hget : ∀ f : Nat × Nat × Nat → Int,
      ((fullColumns spans textLen).map f)[position]? = ((fullColumns spans textLen)[position]?).map f :=
    fun f => List.getElem?_map
  unfold entryAt toAxes
  obtain rfl | rfl | rfl : axis = 0 ∨ axis = 1 ∨ axis = 2 := by omega
  · exact (hget _).trans (by rw [hcolumn, ← hvalue]; rfl)
  · exact (hget _).trans (by rw [hcolumn, ← hvalue]; rfl)
  · exact (hget _).trans (by rw [hcolumn, ← hvalue]; rfl)

/-! ## The runs of a request -/

/-- A multi-modal prompt with well-formed vision spans. -/
structure Prompt (cfg : HfConfig) where
  spans : List (Span cfg)
  tail : List Nat
  kwargs : MultiModalKwargs
  plain : ∀ token ∈ tail, cfg.Plain token
  nonempty : render spans ++ tail ≠ []
  given : kwargs.Matches spans

def Prompt.tokenIds (p : Prompt cfg) : List Nat := render p.spans ++ p.tail

structure State where
  data : SequenceData
  mropePositionDelta : Option Int

/-- A sequence is given to the builder. -/
structure Feed where
  tokenChunkSize : Nat
  computedBlockNums : Option (List Nat)
  /-- The metadata have the multi-modal data. -/
  withImages : Bool

/-- There is something to compute, and a prefill comes with the multi-modal data. -/
def Feed.Allowed (f : Feed) (s : State) : Prop :=
  s.data.numComputedTokens < s.data.getLen ∧ 0 < f.tokenChunkSize ∧
    (s.data.stage = .prefill → f.withImages = true)

def Feed.metadata (f : Feed) (s : State) : SeqMetadata where
  isPrompt := decide (s.data.stage = .prefill)
  seqData := s.data
  tokenChunkSize := f.tokenChunkSize
  computedBlockNums := f.computedBlockNums

def Feed.run (f : Feed) (r : Runner) (kwargs : MultiModalKwargs) (s : State) :
    Call (InterData × Option (List (List Int)) × Option Int) :=
  addSequence r (f.metadata s) s.mropePositionDelta (if f.withImages then some kwargs else none)

variable (r : Runner) (p : Prompt r.hfConfig)

inductive Step : State → State → Prop where
  | feed {s : State} {f : Feed} {d : InterData} {positions : Option (List (List Int))}
    {delta : Option Int} {data : SequenceData} (hf : f.Allowed s)
    (hrun : f.run r p.kwargs s = .ok (d, positions, delta))
    (hdata : s.data.updateNumComputedTokens f.tokenChunkSize = .ok data) :
    Step s ⟨data, delta⟩
  | append {s : State} {token : Nat} (htoken : r.hfConfig.Plain token) :
    Step s ⟨s.data.appendTokenId token, s.mropePositionDelta⟩
  | restore {s : State} {n : Nat} (hstage : s.data.stage = .prefill) (hn : n < s.data.getLen) :
    Step s ⟨{ s.data with numComputedTokens := n }, s.mropePositionDelta⟩
  | recompute {s : State} : Step s ⟨s.data.resetStateForRecompute, s.mropePositionDelta⟩

structure Inv (s : State) : Prop where
  prompt : s.data.promptTokenIds = p.tokenIds
  plain : ∀ token ∈ s.data.outputTokenIds, r.hfConfig.Plain token
  delta : ∀ d, s.mropePositionDelta = some d → d = Mrope.delta p.spans
  decode : s.data.stage = .decode → s.mropePositionDelta = some (Mrope.delta p.spans) ∧
    p.tokenIds.length ≤ s.data.numComputedTokens

section Feeds

variable {r p} {s : State}

theorem Inv.tokenIds (h : Inv r p s) :
    s.data.getTokenIds = render p.spans ++ (p.tail ++ s.data.outputTokenIds) := by
  rw [SequenceData.getTokenIds, h.prompt, Prompt.tokenIds, List.append_assoc]

theorem Inv.getLen (h : Inv r p s) : s.data.getLen =
    (render p.spans).length + (p.tail ++ s.data.outputTokenIds).length := by
  rw [← SequenceData.length_getTokenIds, h.tokenIds, List.length_append]

/-- The map of the sequence with more text. -/
theorem Inv.map (hcfg : r.hfConfig.Distinct) (h : Inv r p s) (more : List Nat)
    (hmore : ∀ token ∈ more, r.hfConfig.Plain token) :
    getInputPositions r.hfConfig (s.data.getTokenIds ++ more) p.kwargs 0 =
      .ok (toAxes (fullColumns p.spans ((p.tail ++ s.data.outputTokenIds).length + more.length)),
        Mrope.delta p.spans) := by
  rw [h.tokenIds, List.append_assoc, ← List.length_append]
  refine getInputPositions_eq hcfg p.given (fun token ht => ?_) fun hnil => ?_
  · rcases List.mem_append.mp ht with ht | ht
    · rcases List.mem_append.mp ht with ht | ht
      · exact p.plain token ht
      · exact h.plain token ht
    · exact hmore token ht
  · obtain ⟨hspans, htail⟩ := List.append_eq_nil_iff.mp hnil
    have hprompt := (List.append_eq_nil_iff.mp (List.append_eq_nil_iff.mp htail).1).1
    exact p.nonempty (by rw [hspans, hprompt]; rfl)

/-- What the fed positions are. -/
structure Exact (p : Prompt r.hfConfig) (textLen : Nat) (d : InterData)
    (positions : List (List Int)) : Prop where
  three : positions.length = 3
  length : ∀ axis ∈ positions, axis.length = d.inputTokens.length
  entry : ∀ axis < 3, ∀ j position : Nat, d.inputPositions[j]? = some position →
    entryAt positions axis j = entryAt (toAxes (fullColumns p.spans textLen)) axis position

theorem Inv.chunk {f : Feed} (hf : f.Allowed s) :
    Chunk (interData r.config (f.metadata s)) s.data.numComputedTokens s.data.getLen :=
  (computeLens_chunk (g := f.metadata s) hf.1 hf.2.1).prefixCacheHit r.config

theorem Chunk.position_eq {d : InterData} {n len j position : Nat} (h : Chunk d n len)
    (hj : d.inputPositions[j]? = some position) :
    position = d.contextLen + j ∧ d.contextLen + j < d.seqLen := by
  obtain ⟨hlt, rfl⟩ := List.getElem?_eq_some_iff.mp (h.positions ▸ hj)
  rw [List.length_range'] at hlt
  rw [List.getElem_range', Nat.one_mul]
  exact ⟨rfl, by omega⟩

theorem computeMultiModalInput_ok (hcfg : r.hfConfig.Distinct) (h : Inv r p s) {d : InterData}
    {n : Nat} (hd : Chunk d n s.data.getLen) :
    ∃ positions, computeMultiModalInput r d s.data.getTokenIds p.kwargs =
        .ok (positions, Mrope.delta p.spans) ∧
      Exact p (p.tail ++ s.data.outputTokenIds).length d positions := by
  have hmap := h.map hcfg [] fun token ht => absurd ht List.not_mem_nil
  rw [List.append_nil, List.length_nil, Nat.add_zero] at hmap
  have hlen : d.seqLen ≤ (fullColumns p.spans (p.tail ++ s.data.outputTokenIds).length).length := by
    rw [length_fullColumns, ← h.getLen]
    exact hd.le
  have hslice : ∀ axis ∈ toAxes (fullColumns p.spans (p.tail ++ s.data.outputTokenIds).length),
      (axisSlice axis (d.contextLen : Int) (some d.seqLen)).length = d.inputTokens.length := by
    intro axis haxis
    rw [axisSlice_between, length_slice (by rw [length_toAxes haxis]; exact hlen), hd.tokens]
  refine ⟨(toAxes (fullColumns p.spans (p.tail ++ s.data.outputTokenIds).length)).map fun axis =>
    axisSlice axis d.contextLen (some d.seqLen), ?_, rfl, fun axis haxis => ?_,
    fun axis haxis j position hj => ?_⟩
  · rw [computeMultiModalInput, guardNot_bind, if_neg p.given.given, hmap]
    show (sliceMropePositions _ _ _ _ >>= _) = _
    rw [sliceMropePositions_ok rfl hslice]
    rfl
  · obtain ⟨whole, hwhole, rfl⟩ := List.mem_map.mp haxis
    exact hslice whole hwhole
  · obtain ⟨rfl, hlt⟩ := hd.position_eq hj
    rw [entryAt_map]
    simp only [axisSlice_between, getElem?_slice, if_pos hlt]
    rfl

/-- With the multi-modal data the positions are cut out of the map. -/
theorem Inv.run_images (hcfg : r.hfConfig.Distinct) (h : Inv r p s) {f : Feed} (hf : f.Allowed s)
    (himages : f.withImages = true) :
    ∃ positions, f.run r p.kwargs s =
        .ok (interData r.config (f.metadata s), some positions, some (Mrope.delta p.spans)) ∧
      Exact p (p.tail ++ s.data.outputTokenIds).length (interData r.config (f.metadata s))
        positions := by
  obtain ⟨positions, hmm, hexact⟩ := computeMultiModalInput_ok hcfg h (Inv.chunk (r := r) hf)
  obtain ⟨_, hcached⟩ := computeForPrefixCacheHit_ok r (computeLens_chunk (g := f.metadata s) hf.1 hf.2.1)
    s.mropePositionDelta
  refine ⟨positions, ?_, hexact⟩
  rw [Feed.run, if_pos himages, addSequence]
  dsimp only
  rw [hcached]
  show (computeMultiModalInput _ _ _ _ >>= _) = _
  rw [show computeMultiModalInput r _ (f.metadata s).seqData.getTokenIds _ = _ from hmm]
  rfl

/-- Without them the positions are those of the delta formula. -/
theorem Inv.run_decode (h : Inv r p s) {f : Feed} (hf : f.Allowed s) (hstage : s.data.stage = .decode)
    (himages : f.withImages = false) :
    ∃ positions, f.run r p.kwargs s =
        .ok (interData r.config (f.metadata s), some positions, some (Mrope.delta p.spans)) ∧
      Exact p (p.tail ++ s.data.outputTokenIds).length (interData r.config (f.metadata s))
        positions := by
  obtain ⟨hdelta, hprompt⟩ := h.decode hstage
  have hlens := computeLens_chunk (g := f.metadata s) hf.1 hf.2.1
  have hd := Inv.chunk (r := r) hf
  have hhit : isPrefixCacheHit r.config (computeLens (f.metadata s)) = false := by
    have hprompt : (computeLens (f.metadata s)).isPrompt = false :=
      decide_eq_false fun hprefill => by
        rw [hstage] at hprefill
        cases hprefill
    unfold isPrefixCacheHit
    rw [hprompt]
    split
    · exact Bool.and_false _
    · rfl
  have hinter : (interData r.config (f.metadata s)).contextLen = s.data.numComputedTokens ∧
      (interData r.config (f.metadata s)).seqLen = (computeLens (f.metadata s)).seqLen := by
    unfold interData Bi100.computeForPrefixCacheHit
    dsimp only
    rw [if_pos hhit]
    exact ⟨rfl, rfl⟩
  refine ⟨getNextInputPositions (Mrope.delta p.spans) s.data.numComputedTokens
    (computeLens (f.metadata s)).seqLen, ?_, length_getNextInputPositions _ _ _, fun axis haxis => ?_,
    fun axis haxis j position hj => ?_⟩
  · rw [Feed.run, if_neg (by rw [himages]; decide), hdelta, addSequence]
    dsimp only
    rw [Option.map_some, computeForPrefixCacheHit, if_pos hhit]
    rfl
  · rw [mem_getNextInputPositions haxis, List.length_map, List.length_range', hd.tokens, hinter.1,
      hinter.2]
  · obtain ⟨rfl, hlt⟩ := hd.position_eq hj
    have hle := hd.le
    have hlen := h.getLen
    have hspans : (render p.spans).length ≤ p.tokenIds.length := by
      rw [Prompt.tokenIds, List.length_append]
      exact Nat.le_add_right _ _
    rw [hinter.1] at hlt ⊢
    rw [hinter.2] at hlt hle
    rw [entryAt_text p.spans haxis (by omega) (by omega), entryAt, getNextInputPositions,
      List.getElem?_replicate, if_pos haxis]
    show ((List.range' _ _).map _)[j]? = _
    rw [List.getElem?_map, List.getElem?_range' (by omega), Nat.one_mul]
    rfl

theorem Inv.run (hcfg : r.hfConfig.Distinct) (h : Inv r p s) {f : Feed} (hf : f.Allowed s) :
    ∃ positions, f.run r p.kwargs s =
        .ok (interData r.config (f.metadata s), some positions, some (Mrope.delta p.spans)) ∧
      Exact p (p.tail ++ s.data.outputTokenIds).length (interData r.config (f.metadata s))
        positions := by
  cases himages : f.withImages with
  | true => exact h.run_images hcfg hf himages
  | false =>
    refine h.run_decode hf ?_ himages
    cases hstage : s.data.stage with
    | prefill =>
      rw [hf.2.2 hstage] at himages
      cases himages
    | decode => rfl

end Feeds

theorem updateNumComputedTokens_ok {d d' : SequenceData} {n : Nat}
    (h : d.updateNumComputedTokens n = .ok d') :
    d'.promptTokenIds = d.promptTokenIds ∧ d'.outputTokenIds = d.outputTokenIds ∧
      d'.numComputedTokens = d.numComputedTokens + n ∧
      (d'.stage = .decode → d.stage = .decode ∨ d'.numComputedTokens = d.getLen) := by
  unfold SequenceData.updateNumComputedTokens at h
  dsimp only at h
  by_cases hlt : d.getLen < d.numComputedTokens + n
  · rw [if_pos hlt] at h
    cases h
  · rw [if_neg hlt] at h
    obtain rfl := pure_eq_ok.mp h
    refine ⟨rfl, rfl, rfl, fun hstage => ?_⟩
    dsimp only at hstage ⊢
    split at hstage
    · next heq => exact .inr heq
    · exact .inl hstage

end Bi100.Mrope
