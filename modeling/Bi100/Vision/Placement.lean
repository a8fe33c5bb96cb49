import Bi100.Vision.Prompt
import Bi100.Worker.Builder
import Mathlib.Algebra.Order.Group.Nat
import Mathlib.Algebra.Order.Ring.Int

/-!
# Placing image embeddings (`qwen3_5.py`, `forward`)

In a step with prefills the pixel data of every scheduled group is sent, and `forward` computes
the vision embeddings of all of it. It puts the last `n` rows at the `n` image tokens of the batch.

- The rows that a prompt gets are its own exactly if the vision rows from its group on are as many
  as its image tokens before the chunk and the fed image tokens from its group on
  (`image_rows_placed`). The comment in `forward` takes this for granted.
-/

namespace Bi100

open Py

/-- The input of the first layer at one position: a token's embedding or a vision row. -/
inductive Embed (R : Type) where
  | token (t : Nat)
  | row (r : R)
deriving DecidableEq

/-- `inputs_embeds[image_mask, :] = image_embeds` -/
def maskedAssign {R : Type} (img : Nat) : List Nat → List R → List (Embed R)
  | [], _ => []
  | t :: ts, rows =>
    if t = img then (rows.head?.elim (.token t) .row) :: maskedAssign img ts rows.tail
    else .token t :: maskedAssign img ts rows

/-- The embeddings that `forward` hands to the first layer. -/
def inputsEmbeds {R : Type} (img : Nat) (inputIds : List Nat) (imageEmbeds : Option (List R)) :
    Except Err (List (Embed R)) :=
  let numPlaceholders := inputIds.count img
  match imageEmbeds with
  | none => pure (inputIds.map .token)
  | some rows =>
    if numPlaceholders = 0 then pure (inputIds.map .token) else do
      guardNot (rows.length < numPlaceholders) (.valueError <|
        s!"image token count ({numPlaceholders}) exceeds vision embeddings ({rows.length})")
      pure (maskedAssign img inputIds (rows.drop (rows.length - numPlaceholders)))

/-- A scheduled group: its sequences, and how many vision rows its `multi_modal_data` gives, if it
has any. -/
structure ScheduledGroup where
  seqs : List SeqMetadata
  multiModalRows : Option Nat

namespace ScheduledGroup

def isPrompt (g : ScheduledGroup) : Bool := g.seqs.any (·.isPrompt)

def inputTokens (cfg : RunnerConfig) (g : ScheduledGroup) : List Nat :=
  g.seqs.flatMap fun s => (interData cfg s).inputTokens

def numRows (g : ScheduledGroup) : Nat := g.multiModalRows.getD 0

end ScheduledGroup

/-- The vision rows of a batch; `row l k` is the `k`-th row of the images of the `l`-th group. -/
def visionRows {R : Type} : (Nat → Nat → R) → List ScheduledGroup → List R
  | _, [] => []
  | row, g :: gs => (List.range g.numRows).map (row 0) ++ visionRows (fun l => row (l + 1)) gs

/-- `multi_modal_data` is sent for all groups of a step with prefills. -/
def imageInput {R : Type} (row : Nat → Nat → R) (gs : List ScheduledGroup) : Option (List R) :=
  if gs.any (·.isPrompt) ∧ gs.any (·.multiModalRows.isSome) then some (visionRows row gs)
  else none

/-- The tokens of a batch. -/
def batchTokens (cfg : RunnerConfig) (gs : List ScheduledGroup) : List Nat :=
  gs.flatMap (·.inputTokens cfg)

def stepEmbeds {R : Type} (img : Nat) (cfg : RunnerConfig) (row : Nat → Nat → R)
    (gs : List ScheduledGroup) : Except Err (List (Embed R)) :=
  inputsEmbeds img (batchTokens cfg gs) (imageInput row gs)

/-- An expanded image prompt: it has one image token for every vision row. -/
structure ImagePrompt (img : Nat) where
  seqData : SequenceData
  numRows : Nat
  expanded : seqData.promptTokenIds.count img = numRows

/-- A chunk of an image prompt. -/
structure ImageChunk (img : Nat) where
  prompt : ImagePrompt img
  tokenChunkSize : Nat
  computedBlockNums : Option (List Nat)

namespace ImageChunk

variable {img : Nat}

def metadata (c : ImageChunk img) : SeqMetadata :=
  ⟨true, c.prompt.seqData, c.tokenChunkSize, c.computedBlockNums⟩

def group (c : ImageChunk img) : ScheduledGroup := ⟨[c.metadata], some c.prompt.numRows⟩

def promptTokenIds (c : ImageChunk img) : List Nat := c.prompt.seqData.promptTokenIds

end ImageChunk

/-- The `j`-th fed token of the chunk is the prompt's image token at position `p`. -/
def FedImageToken {img : Nat} (cfg : RunnerConfig) (c : ImageChunk img) (j p : Nat) : Prop :=
  (interData cfg c.metadata).inputPositions[j]? = some p ∧ c.promptTokenIds[p]? = some img

/-- Whatever the vision rows are, each fed image token of the prompt gets its own row: the `k`-th
image token of the prompt gets the `k`-th row of the prompt's images. -/
def RowsPlaced {img : Nat} (cfg : RunnerConfig) (pre : List ScheduledGroup) (c : ImageChunk img)
    (post : List ScheduledGroup) : Prop :=
  ∀ (R : Type) (row : Nat → Nat → R) (j p : Nat), FedImageToken cfg c j p →
    ∃ es, stepEmbeds img cfg row (pre ++ c.group :: post) = .ok es ∧
      es[(batchTokens cfg pre).length + j]? =
        some (.row (row pre.length ((c.promptTokenIds.take p).count img)))

def numPlaceholders (img : Nat) (cfg : RunnerConfig) (gs : List ScheduledGroup) : Nat :=
  (batchTokens cfg gs).count img

def numVisionRows (gs : List ScheduledGroup) : Nat := (gs.map (·.numRows)).sum

/-- The image tokens of the prompt before the chunk's first fed position. -/
def placeholdersBefore {img : Nat} (cfg : RunnerConfig) (c : ImageChunk img) : Nat :=
  (c.promptTokenIds.take ((interData cfg c.metadata).inputPositions.headD 0)).count img

/-- The vision rows of a batch line up with the image tokens of a chunk. -/
def RowsLineUp {img : Nat} (cfg : RunnerConfig) (pre : List ScheduledGroup) (c : ImageChunk img)
    (post : List ScheduledGroup) : Prop :=
  numPlaceholders img cfg (pre ++ c.group :: post) ≤ numVisionRows (pre ++ c.group :: post) ∧
    numVisionRows (c.group :: post) =
      placeholdersBefore cfg c + numPlaceholders img cfg (c.group :: post)

/-! ## Which row a position gets -/

variable {R : Type} {img : Nat} {cfg : RunnerConfig}

/-- An image token gets the row that is numbered by the image tokens before it. -/
theorem getElem?_maskedAssign {ids : List Nat} {rows : List R} {m : Nat} {r : R}
    (hi : ids[m]? = some img) (hr : rows[(ids.take m).count img]? = some r) :
    (maskedAssign img ids rows)[m]? = some (.row r) := by
  induction ids generalizing m rows with
  | nil => simp at hi
  | cons t ts ih =>
    rw [maskedAssign]
    cases m with
    | zero =>
      obtain rfl : t = img := by simpa using hi
      have hhead : rows.head? = some r := by simpa [List.head?_eq_getElem?] using hr
      simp [hhead]
    | succ m =>
      rw [List.getElem?_cons_succ] at hi
      rw [List.take_succ_cons, List.count_cons] at hr
      split
      · next ht =>
        rw [List.getElem?_cons_succ]
        refine ih hi ?_
        rw [List.getElem?_tail]
        simpa [ht] using hr
      · next ht =>
        rw [List.getElem?_cons_succ]
        exact ih hi (by simpa [ht] using hr)

theorem length_visionRows (row : Nat → Nat → R) (gs : List ScheduledGroup) :
    (visionRows row gs).length = numVisionRows gs := by
  induction gs generalizing row with
  | nil => rfl
  | cons g gs ih => simp [visionRows, ih, numVisionRows]

/-- The rows of a group come after those of the groups before it. -/
theorem getElem?_visionRows (row : Nat → Nat → R) (pre : List ScheduledGroup) (g : ScheduledGroup)
    (post : List ScheduledGroup) {k : Nat} (hk : k < g.numRows) :
    (visionRows row (pre ++ g :: post))[numVisionRows pre + k]? = some (row pre.length k) := by
  induction pre generalizing row with
  | nil =>
    rw [List.nil_append, visionRows]
    rw [List.getElem?_append_left (by simpa [numVisionRows] using hk)]
    simp [numVisionRows, hk]
  | cons g' pre ih =>
    rw [List.cons_append, visionRows, List.getElem?_append_right (by simp [numVisionRows]; omega)]
    have hidx : numVisionRows (g' :: pre) + k - ((List.range g'.numRows).map (row 0)).length =
        numVisionRows pre + k := by
      simp [numVisionRows]
      omega
    rw [hidx, ih, List.length_cons]

/-- With every row named by its place in the batch, the rows are `0, 1, …` -/
theorem visionRows_numbered (gs : List ScheduledGroup) (s : Nat) :
    visionRows (fun l k => s + numVisionRows (gs.take l) + k) gs =
      List.range' s (numVisionRows gs) := by
  induction gs generalizing s with
  | nil => rfl
  | cons g gs ih =>
    have htail : (fun l k => s + numVisionRows ((g :: gs).take (l + 1)) + k) =
        fun l k => s + g.numRows + numVisionRows (gs.take l) + k := by
      funext l k
      simp only [numVisionRows, List.take_succ_cons, List.map_cons, List.sum_cons]
      omega
    have hhead : (List.range g.numRows).map (fun k => s + numVisionRows ((g :: gs).take 0) + k) =
        List.range' s g.numRows := by
      rw [List.range'_eq_map_range]
      simp [numVisionRows]
    rw [visionRows, htail, ih, hhead, List.range'_append_1]
    rfl

theorem batchTokens_append (gs gs' : List ScheduledGroup) :
    batchTokens cfg (gs ++ gs') = batchTokens cfg gs ++ batchTokens cfg gs' :=
  List.flatMap_append

theorem numPlaceholders_append (img : Nat) (cfg : RunnerConfig) (gs gs' : List ScheduledGroup) :
    numPlaceholders img cfg (gs ++ gs') =
      numPlaceholders img cfg gs + numPlaceholders img cfg gs' := by
  rw [numPlaceholders, batchTokens_append, List.count_append]
  rfl

theorem numVisionRows_append (gs gs' : List ScheduledGroup) :
    numVisionRows (gs ++ gs') = numVisionRows gs + numVisionRows gs' := by
  simp [numVisionRows]

theorem imageInput_chunk (row : Nat → Nat → R) (pre : List ScheduledGroup) (c : ImageChunk img)
    (post : List ScheduledGroup) :
    imageInput row (pre ++ c.group :: post) = some (visionRows row (pre ++ c.group :: post)) := by
  have h₁ : (pre ++ c.group :: post).any (·.isPrompt) = true := by
    simp [ImageChunk.group, ImageChunk.metadata, ScheduledGroup.isPrompt]
  have h₂ : (pre ++ c.group :: post).any (·.multiModalRows.isSome) = true := by
    simp [ImageChunk.group]
  rw [imageInput, if_pos ⟨h₁, h₂⟩]

theorem batchTokens_chunk (c : ImageChunk img) (post : List ScheduledGroup) :
    batchTokens cfg (c.group :: post) =
      (interData cfg c.metadata).inputTokens ++ batchTokens cfg post := by
  simp [batchTokens, ScheduledGroup.inputTokens, ImageChunk.group]

/-! ## A fed image token -/

/-- Where a fed image token stands in the batch, and how many image tokens are before it. -/
theorem FedImageToken.batch {c : ImageChunk img} {j p : Nat} (h : FedImageToken cfg c j p)
    (pre post : List ScheduledGroup) :
    (batchTokens cfg (pre ++ c.group :: post))[(batchTokens cfg pre).length + j]? = some img ∧
    ((batchTokens cfg (pre ++ c.group :: post)).take ((batchTokens cfg pre).length + j)).count img
        + placeholdersBefore cfg c =
      numPlaceholders img cfg pre + (c.promptTokenIds.take p).count img := by
  obtain ⟨hpos, hp⟩ := h
  obtain ⟨⟨start, hstart⟩, htok⟩ := interData_aligned cfg c.metadata
  have hlt : p < c.promptTokenIds.length := (List.getElem?_eq_some_iff.mp hp).1
  have hids : ∀ q, q < c.promptTokenIds.length →
      c.metadata.seqData.getTokenIds[q]? = c.promptTokenIds[q]? := fun q hq =>
    List.getElem?_append_left hq
  have hj : (interData cfg c.metadata).inputTokens[j]? = some img := by
    rw [htok j p hpos, hids p hlt, hp]
  have hjlt : j < (interData cfg c.metadata).inputTokens.length :=
    (List.getElem?_eq_some_iff.mp hj).1
  have hpj : p = start + j := by
    rw [hstart, List.getElem?_range' hjlt, Nat.one_mul] at hpos
    exact (Option.some.inj hpos).symm
  have hfirst : (interData cfg c.metadata).inputPositions.headD 0 = start := by
    obtain ⟨n, hn⟩ := Nat.exists_eq_succ_of_ne_zero (Nat.ne_of_gt (Nat.zero_lt_of_lt hjlt))
    rw [hstart, hn]
    rfl
  -- the fed tokens before it are the prompt's tokens from `start` to `p`
  have htake : (interData cfg c.metadata).inputTokens.take j =
      (c.promptTokenIds.take p).drop start := by
    refine List.ext_getElem? fun i => ?_
    by_cases hi : i < j
    · rw [List.getElem?_take_of_lt hi, List.getElem?_drop,
        List.getElem?_take_of_lt (by omega), ← hids _ (by omega)]
      refine htok i (start + i) ?_
      rw [hstart, List.getElem?_range' (by omega), Nat.one_mul]
    · rw [List.getElem?_take_eq_none (by omega), List.getElem?_drop,
        List.getElem?_take_eq_none (by omega)]
  rw [batchTokens_append, batchTokens_chunk]
  constructor
  · rw [List.getElem?_append_right (Nat.le_add_right _ _), Nat.add_sub_cancel_left,
      List.getElem?_append_left hjlt, hj]
  · rw [List.take_length_add_append, List.take_append_of_le_length hjlt.le, List.count_append,
      htake, placeholdersBefore, hfirst, numPlaceholders]
    have hsplit : (c.promptTokenIds.take p).count img =
        (c.promptTokenIds.take start).count img +
          ((c.promptTokenIds.take p).drop start).count img := by
      conv_lhs => rw [← List.take_append_drop start (c.promptTokenIds.take p), List.count_append]
      rw [List.take_take, Nat.min_eq_left (by omega)]
    omega

theorem count_take_lt {ids : List Nat} {m : Nat} (h : ids[m]? = some img) :
    (ids.take m).count img < ids.count img := by
  obtain ⟨hm, hi⟩ := List.getElem?_eq_some_iff.mp h
  conv_rhs => rw [← List.take_append_drop m ids, List.drop_eq_getElem_cons hm]
  rw [List.count_append, hi, List.count_cons_self]
  omega

/-- A step with a chunk whose batch has an image token. -/
theorem stepEmbeds_chunk (row : Nat → Nat → R) {gs pre post : List ScheduledGroup}
    {c : ImageChunk img} (hgs : gs = pre ++ c.group :: post)
    (hpos : numPlaceholders img cfg gs ≠ 0) {es : List (Embed R)} :
    stepEmbeds img cfg row gs = .ok es ↔ numPlaceholders img cfg gs ≤ numVisionRows gs ∧
      es = maskedAssign img (batchTokens cfg gs)
        ((visionRows row gs).drop (numVisionRows gs - numPlaceholders img cfg gs)) := by
  have himg : imageInput row gs = some (visionRows row gs) := hgs ▸ imageInput_chunk row pre c post
  rw [numPlaceholders] at hpos ⊢
  rw [stepEmbeds, himg, inputsEmbeds]
  simp only [hpos, ↓reduceIte, length_visionRows]
  rw [guardNot_bind_eq_ok, pure_eq_ok, Nat.not_lt]

/-- Every fed image token of a chunk gets its own row exactly if the vision rows line up (when the
chunk has an image token of the prompt). -/
theorem image_rows_placed (pre : List ScheduledGroup) (c : ImageChunk img)
    (post : List ScheduledGroup) :
    RowsPlaced cfg pre c post ↔
      ((∃ j p, FedImageToken cfg c j p) → RowsLineUp cfg pre c post) := by
  have hN := numPlaceholders_append img cfg pre (c.group :: post)
  have hR := numVisionRows_append pre (c.group :: post)
  generalize hgs : pre ++ c.group :: post = gs at hN hR
  constructor
  · rintro h ⟨j, p, hfed⟩
    obtain ⟨hm, hcount⟩ := hfed.batch pre post
    rw [hgs] at hm hcount
    have hlt : _ < numPlaceholders img cfg gs := count_take_lt hm
    -- name every row by its place in the batch
    obtain ⟨es, hes, hrow⟩ := h Nat (fun l k => 0 + numVisionRows (gs.take l) + k) j p hfed
    rw [hgs] at hes
    obtain ⟨hle, rfl⟩ :=
      (stepEmbeds_chunk _ hgs.symm (Nat.ne_of_gt (Nat.zero_lt_of_lt hlt))).mp hes
    rw [visionRows_numbered, getElem?_maskedAssign hm (by
      rw [List.getElem?_drop, List.getElem?_range' (by omega)])] at hrow
    have hidx := Embed.row.inj (Option.some.inj hrow)
    have htake : gs.take pre.length = pre := hgs ▸ List.take_left' rfl
    rw [htake] at hidx
    refine ⟨hgs ▸ hle, ?_⟩
    omega
  · intro h R row j p hfed
    obtain ⟨hle, hline⟩ := h ⟨j, p, hfed⟩
    obtain ⟨hm, hcount⟩ := hfed.batch pre post
    rw [hgs] at hm hcount hle ⊢
    have hlt : _ < numPlaceholders img cfg gs := count_take_lt hm
    refine ⟨_, (stepEmbeds_chunk _ hgs.symm (Nat.ne_of_gt (Nat.zero_lt_of_lt hlt))).mpr
      ⟨hle, rfl⟩, getElem?_maskedAssign hm ?_⟩
    have hk : (c.promptTokenIds.take p).count img < c.group.numRows := by
      have hlt := count_take_lt hfed.2
      rwa [ImageChunk.promptTokenIds, c.prompt.expanded] at hlt
    rw [List.getElem?_drop, ← getElem?_visionRows row pre c.group post hk, hgs]
    congr 1
    omega

/-- Two images of 64 tokens, expanded from a prompt of seven tokens. -/
def twoImages : ImagePrompt 5 where
  seqData := .fromSeqs ([8, 6] ++ List.replicate 64 5 ++ [7, 8, 6] ++ List.replicate 64 5 ++ [7, 1])
  numRows := 128
  expanded := by decide +kernel

/-- The first chunk of 80 tokens ends in the second image. Its first image token gets row 53. -/
theorem first_image_misplaced :
    inputProcessor ⟨5, 6⟩ (fun _ : Unit => [8]) (fun _ => 64) [6, 5, 7, 6, 5, 7, 1] [(), ()] =
      .ok twoImages.seqData.promptTokenIds ∧
    ¬ RowsPlaced ⟨16, none, true⟩ [] ⟨twoImages, 80, none⟩ [] := by
  refine ⟨rfl, fun h => ?_⟩
  obtain ⟨es, hes, hrow⟩ := h Nat (fun _ k => k) 2 2 ⟨by decide +kernel, by decide +kernel⟩
  have hrow' : (stepEmbeds 5 ⟨16, none, true⟩ (fun _ k => k)
      [(⟨twoImages, 80, none⟩ : ImageChunk 5).group]).toOption.map (·[2]?) =
        some (some (.row 53)) := by decide +kernel
  rw [List.nil_append] at hes
  rw [hes] at hrow'
  have hzero : es[2]? = some (.row 0) := hrow
  simp [Except.toOption, hzero] at hrow'

end Bi100
