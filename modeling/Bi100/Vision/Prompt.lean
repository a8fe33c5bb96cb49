import Bi100.Lib.Except
import Bi100.Base
import Mathlib.Data.List.Basic
import Mathlib.Algebra.Order.Ring.Int

/-!
# Expanding image prompts (`input_processor_for_qwen36`)

Every image token of the prompt is replaced by as many image tokens as the image has vision
embeddings, and the image's cache marker is put in front of its `vision_start`. The marker and the
token count of an image are parameters: they come from the image's bytes.

- An expanded prompt has exactly one image token for every vision embedding
  (`count_inputProcessor`).
-/

namespace Bi100

open Py

structure VisionConfig where
  imageTokenId : Nat
  visionStartTokenId : Nat

variable {I : Type}

/-- `image_indices` -/
def imageIndices (cfg : VisionConfig) (promptTokenIds : List Nat) : List Nat :=
  (List.range promptTokenIds.length).filter fun i => promptTokenIds[i]? = some cfg.imageTokenId

/-- The loop over the images; `previous` is the first prompt token that is not yet copied. -/
def expandImages (cfg : VisionConfig) (marker : I → List Nat) (tokenCount : I → Nat)
    (promptTokenIds : List Nat) : List (Nat × I) → Nat → List Nat → Except Err (List Nat)
  | [], previous, expanded => pure (expanded ++ promptTokenIds.drop previous)
  | (index, image) :: rest, previous, expanded => do
    guardNot (index < previous + 1 ∨ promptTokenIds[index - 1]? ≠ some cfg.visionStartTokenId)
      (.valueError "image token is not preceded by vision_start")
    let visionStart := index - 1
    expandImages cfg marker tokenCount promptTokenIds rest (index + 1)
      (expanded ++ (promptTokenIds.take visionStart).drop previous ++ marker image ++
        (promptTokenIds.take index).drop visionStart ++
        List.replicate (tokenCount image) cfg.imageTokenId)

/-- `input_processor_for_qwen36`, for a prompt with images. -/
def inputProcessor (cfg : VisionConfig) (marker : I → List Nat) (tokenCount : I → Nat)
    (promptTokenIds : List Nat) (images : List I) : Except Err (List Nat) := do
  let indices := imageIndices cfg promptTokenIds
  guardNot (indices.length ≠ images.length)
    (.valueError s!"found {indices.length} image placeholders for {images.length} image(s)")
  expandImages cfg marker tokenCount promptTokenIds (indices.zip images) 0 []

/-! ## The image tokens of an expanded prompt -/

variable {cfg : VisionConfig} {marker : I → List Nat} {tokenCount : I → Nat}

theorem mem_imageIndices {prompt : List Nat} {i : Nat} :
    i ∈ imageIndices cfg prompt ↔ prompt[i]? = some cfg.imageTokenId := by
  simp only [imageIndices, List.mem_filter, List.mem_range, decide_eq_true_eq,
    and_iff_right_iff_imp]
  intro h
  exact (List.getElem?_eq_some_iff.mp h).1

/-- A part of the prompt without an index of an image token has no image token. -/
theorem count_slice_eq_zero (cfg : VisionConfig) (prompt : List Nat) (a b : Nat)
    (h : ∀ i, a ≤ i → i < b → prompt[i]? ≠ some cfg.imageTokenId) :
    ((prompt.take b).drop a).count cfg.imageTokenId = 0 := by
  rw [List.count_eq_zero]
  intro hm
  obtain ⟨j, hj⟩ := List.mem_iff_getElem?.mp hm
  rw [List.getElem?_drop] at hj
  have hlt : a + j < b := by
    by_contra hge
    rw [List.getElem?_take_eq_none (Nat.not_lt.mp hge)] at hj
    exact absurd hj (by simp)
  rw [List.getElem?_take_of_lt hlt] at hj
  exact h (a + j) (Nat.le_add_right a j) hlt hj

/-- The loop adds the images' tokens, when `rest` holds every image token from `previous` on. -/
theorem count_expandImages (hm : ∀ image, cfg.imageTokenId ∉ marker image)
    {prompt : List Nat} {rest : List (Nat × I)} {previous : Nat} {expanded result : List Nat}
    (hall : ∀ i, previous ≤ i → prompt[i]? = some cfg.imageTokenId → i ∈ rest.map Prod.fst)
    (hsorted : (rest.map Prod.fst).Pairwise (· < ·))
    (h : expandImages cfg marker tokenCount prompt rest previous expanded = .ok result) :
    result.count cfg.imageTokenId =
      expanded.count cfg.imageTokenId + (rest.map fun p => tokenCount p.2).sum := by
  induction rest generalizing previous expanded with
  | nil =>
    rw [expandImages] at h
    obtain rfl := pure_eq_ok.mp h
    have hz := count_slice_eq_zero cfg prompt previous prompt.length fun i hi _ hp => by simpa using hall i hi hp
    rw [List.take_length] at hz
    rw [List.count_append, hz, List.map_nil, List.sum_nil]
  | cons p rest ih =>
    obtain ⟨index, image⟩ := p
    rw [expandImages] at h
    obtain ⟨hguard, h⟩ := guardNot_bind_eq_ok.mp h
    have hidx : previous < index := by omega
    rw [List.map_cons, List.pairwise_cons] at hsorted
    have hfirst : ∀ i, previous ≤ i → i < index → prompt[i]? ≠ some cfg.imageTokenId := by
      intro i hi hlt hp
      rcases List.mem_cons.mp (hall i hi hp) with rfl | hmem
      · exact absurd hlt (Nat.lt_irrefl _)
      · exact absurd (hsorted.1 i hmem) (by omega)
    have hrest := fun hall' => @ih (index + 1) _ hall' hsorted.2 h
    rw [hrest]
    · have h₁ := count_slice_eq_zero cfg prompt previous (index - 1) fun i hi hlt =>
        hfirst i hi (by omega)
      have h₂ := count_slice_eq_zero cfg prompt (index - 1) index fun i hi hlt =>
        hfirst i (by omega) hlt
      have h₃ : (marker image).count cfg.imageTokenId = 0 := List.count_eq_zero.mpr (hm image)
      simp only [List.count_append, h₁, h₂, h₃, List.count_replicate_self, List.map_cons,
        List.sum_cons]
      omega
    · intro i hi hp
      rcases List.mem_cons.mp (hall i (by omega) hp) with rfl | hmem
      · exact absurd hi (Nat.not_succ_le_self _)
      · exact hmem

/-- An expanded prompt has one image token for every vision embedding of its images. -/
theorem count_inputProcessor (hm : ∀ image, cfg.imageTokenId ∉ marker image)
    {prompt result : List Nat} {images : List I}
    (h : inputProcessor cfg marker tokenCount prompt images = .ok result) :
    result.count cfg.imageTokenId = (images.map tokenCount).sum := by
  rw [inputProcessor] at h
  obtain ⟨hlen, h⟩ := guardNot_bind_eq_ok.mp h
  have hlen' : (imageIndices cfg prompt).length = images.length := not_not.mp hlen
  have hfst : ((imageIndices cfg prompt).zip images).map Prod.fst = imageIndices cfg prompt :=
    List.map_fst_zip (Nat.le_of_eq hlen')
  have hsnd : ((imageIndices cfg prompt).zip images).map Prod.snd = images :=
    List.map_snd_zip (Nat.le_of_eq hlen'.symm)
  rw [count_expandImages hm ?_ ?_ h, List.count_nil, Nat.zero_add]
  · rw [← hsnd, List.map_map, hsnd]
    rfl
  · intro i _ hp
    rw [hfst]
    exact mem_imageIndices.mpr hp
  · rw [hfst]
    exact List.pairwise_lt_range.filter _

end Bi100
