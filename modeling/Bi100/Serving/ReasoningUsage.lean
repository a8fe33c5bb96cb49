import Bi100.Lib.Nesting
import Bi100.Serving.ReasoningAgree

/-!
# Reasoning: the counted tokens and the extracted text

`count_reasoning_tokens` counts by token ids, and `extract_reasoning` cuts the text. Here the tags
occur only as the think tokens (`OnlyAsToken`).

- `reasoningTokens`: the tokens that the extracted reasoning is made of.
- `baseCount_eq`: the loop of the base class counts the tokens inside brackets.
- `usage_agrees_iff`: when the count is the number of the extracted tokens.
-/

namespace Bi100

open Py Nesting

namespace Qwen3ReasoningParser

/-- The text of the token occurs only where the token is. -/
def OnlyAsToken (decode : Nat → Text) (id : Nat) (tokenIds : List Nat) : Prop :=
  ∀ a b, render decode tokenIds = a ++ decode id ++ b →
    ∃ x y, tokenIds = x ++ id :: y ∧ render decode x = a

section Definitions

variable (p : Qwen3ReasoningParser) (decode : Nat → Text) (tokenIds : List Nat)

/-- A token that is no think token. -/
abbrev Ordinary (t : Nat) : Prop := t ≠ p.startTokenId ∧ t ≠ p.endTokenId

/-- What follows the first start token, if there is one. -/
def body : List Nat :=
  if p.startTokenId ∈ tokenIds then tokenIds.drop (tokenIds.idxOf p.startTokenId + 1) else tokenIds

/-- The tokens of the reasoning part. -/
def reasoningTokens : List Nat := (p.body tokenIds).takeWhile (· ≠ p.endTokenId)

/-- The count is that of the ordinary tokens of the given reasoning. -/
def CountsOf : Option Text → Prop
  | none => p.countReasoningTokens tokenIds = 0
  | some reasoning => reasoning = render decode (p.reasoningTokens tokenIds) ∧
      p.countReasoningTokens tokenIds = (p.reasoningTokens tokenIds).countP fun t => p.Ordinary t

instance : ∀ reasoning, Decidable (CountsOf p decode tokenIds reasoning)
  | none => inferInstanceAs (Decidable (_ = _))
  | some _ => inferInstanceAs (Decidable (_ ∧ _))

/-- The count is that of the ordinary tokens of the reasoning that is extracted. -/
def UsageAgrees : Prop :=
  CountsOf p decode tokenIds (p.extractReasoning (render decode tokenIds)).1

/-- No ordinary token after `n` tokens follows a stretch with more start than end tokens. -/
def ClosedFrom (n : Nat) : Prop :=
  ∀ x t y, tokenIds = x ++ t :: y → n ≤ x.length → p.Ordinary t →
    ¬ Open p.startTokenId p.endTokenId x

/-- When the count is that of the extracted reasoning: with thinking disabled no token is counted;
with thinking enabled the reasoning has a text unless it has no token, and after it no start token
opens it again. -/
def UsageCond : Prop :=
  if p.thinkingEnabled = false then
    if p.startTokenId ∈ tokenIds then p.ClosedFrom tokenIds 0
    else p.endTokenId ∈ tokenIds → tokenIds.head? = some p.endTokenId
  else
    (render decode (p.reasoningTokens tokenIds) = [] → p.reasoningTokens tokenIds = []) ∧
      (p.startTokenId ∈ tokenIds → p.ClosedFrom tokenIds
        (tokenIds.idxOf p.startTokenId + 1 + (p.reasoningTokens tokenIds).length))

end Definitions

/-! ## Tags and tokens -/

section Tokens

variable {decode : Nat → Text} {id : Nat} {x y : List Nat}

theorem OnlyAsToken.not_infix {tokenIds : List Nat} (h : OnlyAsToken decode id tokenIds)
    (hid : id ∉ tokenIds) : ¬ decode id <:+: render decode tokenIds := by
  rintro ⟨a, b, hab⟩
  obtain ⟨x, y, rfl, -⟩ := h a b hab.symm
  exact hid (List.mem_append_right _ List.mem_cons_self)

/-- The first occurrence of the text is the first token. -/
theorem OnlyAsToken.cut_eq (h : OnlyAsToken decode id (x ++ id :: y)) (hx : id ∉ x) :
    Text.cut (decode id) (render decode (x ++ id :: y)) =
      some (render decode x, render decode y) := by
  have hwhole : render decode (x ++ id :: y) =
      render decode x ++ decode id ++ render decode y := by
    rw [render_append, List.append_assoc]
    rfl
  have hinfix : decode id <:+: render decode (x ++ id :: y) :=
    infix_decode (List.mem_append_right x List.mem_cons_self)
  obtain ⟨a, b, hcut⟩ := Text.exists_cut hinfix
  have hsplit := Text.cut_eq hcut
  have hle : a.length ≤ (render decode x).length := Text.cut_le hcut hwhole
  obtain ⟨x', y', hxy, hx'⟩ := h a b hsplit
  have hge : (render decode x).length ≤ a.length := by
    rw [← hx']
    rcases List.append_eq_append_iff.mp hxy with ⟨z, rfl, -⟩ | ⟨z, rfl, hz⟩
    · rw [render_append, List.length_append]
      exact Nat.le_add_right _ _
    · cases z with
      | nil => rw [List.append_nil]
      | cons t z =>
        obtain rfl := (List.cons.inj hz).1
        exact absurd (List.mem_append_right x' List.mem_cons_self) hx
  have heq := hwhole.symm.trans hsplit
  rw [List.append_assoc, List.append_assoc] at heq
  obtain ⟨rfl, hrest⟩ := List.append_inj heq (Nat.le_antisymm hge hle)
  rw [hcut, List.append_cancel_left hrest]

/-- What follows a token that has a text. -/
theorem OnlyAsToken.after {t : Nat} (h : OnlyAsToken decode id (x ++ t :: y)) (ht : decode t ≠ []) :
    OnlyAsToken decode id y := by
  intro a b hab
  have hwhole : render decode (x ++ t :: y) =
      render decode (x ++ [t]) ++ a ++ decode id ++ b := by
    rw [List.append_cons, render_append, hab]
    simp only [List.append_assoc]
  obtain ⟨x', y', hxy, hx'⟩ := h _ b hwhole
  rw [List.append_cons] at hxy
  rcases List.append_eq_append_iff.mp hxy with ⟨z, rfl, hz⟩ | ⟨z, hxz, hz⟩
  · refine ⟨z, y', hz, ?_⟩
    rw [render_append] at hx'
    exact List.append_cancel_left hx'
  · rcases List.eq_nil_or_concat z with rfl | ⟨z, t', rfl⟩
    · refine ⟨[], y', by simpa using hz.symm, ?_⟩
      rw [List.append_nil] at hxz
      rw [hxz] at hx'
      exact (List.append_cancel_left (hx'.symm.trans (List.append_nil _).symm)).symm
    · -- The token found would be before `t`, but its text is behind that of `t`.
      rw [List.concat_eq_append, ← List.append_assoc] at hxz
      obtain ⟨rfl, -⟩ := List.append_inj' hxz rfl
      have hlen := congrArg List.length hx'
      have hpos := List.length_pos_iff.mpr ht
      simp only [render_append, List.length_append] at hlen
      have hone : (render decode [t]).length = (decode t).length := by simp [render]
      omega

end Tokens

/-! ## The extracted reasoning -/

theorem takeWhile_ne_append {c : Nat} {r post : List Nat} (hr : c ∉ r) :
    (r ++ c :: post).takeWhile (· ≠ c) = r := by
  have hpos : ∀ a ∈ r, decide (a ≠ c) = true := fun a ha => decide_eq_true (ne_of_mem_of_not_mem ha hr)
  rw [List.takeWhile_append_of_pos hpos, List.takeWhile_cons_of_neg (by simp), List.append_nil]

theorem takeWhile_ne_of_not_mem {c : Nat} {l : List Nat} (hl : c ∉ l) :
    l.takeWhile (· ≠ c) = l :=
  List.takeWhile_eq_self_iff.mpr fun _ ha => decide_eq_true (ne_of_mem_of_not_mem ha hl)

section Extracted

variable {p : Qwen3ReasoningParser} {decode : Nat → Text} {tokenIds : List Nat}

theorem extractReasoning_fst (p : Qwen3ReasoningParser) (text : Text) :
    (p.extractReasoning text).1 = if p.thinkingEnabled = false then none else
      Text.orNone ((Text.cut endToken (bodyText text)).getD (bodyText text, [])).1 := by
  have hbody : (if (Text.partition text startToken).2.1 ≠ [] then
      (Text.partition text startToken).2.2 else (Text.partition text startToken).1) =
      bodyText text := partition_start text
  rw [extractReasoning]
  simp only [hbody]
  rw [Text.contains_eq, Text.partition]
  cases Text.cut endToken (bodyText text) with
  | none => cases p.thinkingEnabled <;> rfl
  | some ab => cases p.thinkingEnabled <;> rfl

theorem body_append {x y : List Nat} (hx : p.startTokenId ∉ x) :
    p.body (x ++ p.startTokenId :: y) = y := by
  unfold body
  rw [if_pos (List.mem_append_right x List.mem_cons_self), List.idxOf_append_of_notMem hx,
    List.idxOf_cons_self, Nat.add_zero, ← List.drop_drop, List.drop_left]
  rfl

theorem reasoningTokens_append {x y : List Nat} (hx : p.startTokenId ∉ x) :
    p.reasoningTokens (x ++ p.startTokenId :: y) = y.takeWhile (· ≠ p.endTokenId) := by
  unfold reasoningTokens
  rw [body_append hx]

theorem bodyText_render (hdec : Decodes p decode)
    (hstart : OnlyAsToken decode p.startTokenId tokenIds) :
    bodyText (render decode tokenIds) = render decode (p.body tokenIds) := by
  unfold bodyText
  by_cases hmem : p.startTokenId ∈ tokenIds
  · obtain ⟨x, y, rfl, hx⟩ := List.eq_append_cons_of_mem hmem
    have hcut := hstart.cut_eq hx
    rw [hdec.start] at hcut
    rw [hcut, body_append hx]
    rfl
  · have hcut := Text.cut_eq_none_iff.mpr (hstart.not_infix hmem)
    rw [hdec.start] at hcut
    rw [hcut, body, if_neg hmem]
    rfl

/-- The end token occurs only as a token after the first start token too. -/
theorem onlyAsToken_body (hdec : Decodes p decode)
    (hstop : OnlyAsToken decode p.endTokenId tokenIds) :
    OnlyAsToken decode p.endTokenId (p.body tokenIds) := by
  by_cases hmem : p.startTokenId ∈ tokenIds
  · obtain ⟨x, y, rfl, hx⟩ := List.eq_append_cons_of_mem hmem
    rw [body_append hx]
    exact hstop.after (hdec.start ▸ startToken_ne_nil)
  · rwa [body, if_neg hmem]

/-- **The extracted reasoning is the text of the tokens between the tags.** -/
theorem extractReasoning_eq (hdec : Decodes p decode) (h : p.thinkingEnabled = true)
    (hstart : OnlyAsToken decode p.startTokenId tokenIds)
    (hstop : OnlyAsToken decode p.endTokenId tokenIds) :
    (p.extractReasoning (render decode tokenIds)).1 =
      Text.orNone (render decode (p.reasoningTokens tokenIds)) := by
  have hbody := onlyAsToken_body hdec hstop
  rw [extractReasoning_fst, if_neg (by rw [h]; decide), bodyText_render hdec hstart,
    reasoningTokens]
  by_cases hmem : p.endTokenId ∈ p.body tokenIds
  · obtain ⟨r, post, hsplit, hr⟩ := List.eq_append_cons_of_mem hmem
    rw [hsplit] at hbody ⊢
    have hcut := hbody.cut_eq hr
    rw [hdec.stop] at hcut
    rw [hcut, takeWhile_ne_append hr]
    rfl
  · have hcut := Text.cut_eq_none_iff.mpr (hbody.not_infix hmem)
    rw [hdec.stop] at hcut
    rw [hcut, takeWhile_ne_of_not_mem hmem]
    rfl

end Extracted

/-! ## The counted tokens -/

section Counted

variable {p : Qwen3ReasoningParser} {decode : Nat → Text} {tokenIds : List Nat}

theorem foldl_countStep (s : Nat × Nat) (tokenIds : List Nat) :
    tokenIds.foldl p.countStep s = (s.1 + inside p.startTokenId p.endTokenId s.2 tokenIds,
      depth p.startTokenId p.endTokenId s.2 tokenIds) := by
  induction tokenIds generalizing s with
  | nil => rfl
  | cons t tokenIds ih =>
    have hstep : p.countStep s t =
        (s.1 + (if t ≠ p.startTokenId ∧ t ≠ p.endTokenId ∧ 0 < s.2 then 1 else 0),
          step p.startTokenId p.endTokenId s.2 t) := by
      obtain ⟨count, d⟩ := s
      unfold countStep step
      dsimp only
      by_cases hs : t = p.startTokenId
      · simp [hs]
      · by_cases he : t = p.endTokenId
        · have hdepth : (if 0 < d then d - 1 else d) = d - 1 := by split <;> omega
          have hnot : ¬ (t ≠ p.startTokenId ∧ t ≠ p.endTokenId ∧ 0 < d) := fun h => h.2.1 he
          rw [if_neg hs, if_pos he, if_neg hnot, if_neg hs, if_pos he, hdepth, Nat.add_zero]
        · by_cases hd : 0 < d <;> simp [hs, he, hd]
    rw [List.foldl_cons, ih, hstep, inside, Nat.add_assoc]
    rfl

/-- The loop of the base class counts the ordinary tokens inside brackets. -/
theorem baseCount_eq (tokenIds : List Nat) : p.baseCountReasoningTokens tokenIds =
    inside p.startTokenId p.endTokenId 0 tokenIds := by
  unfold baseCountReasoningTokens
  rw [foldl_countStep]
  exact Nat.zero_add _

theorem closedFrom_iff (hne : p.startTokenId ≠ p.endTokenId) (l l' : List Nat) :
    p.ClosedFrom (l ++ l') l.length ↔
      inside p.startTokenId p.endTokenId (depth p.startTokenId p.endTokenId 0 l) l' = 0 := by
  rw [inside_eq_zero_iff hne]
  constructor
  · rintro h x t y rfl hs he
    exact h (l ++ x) t y (List.append_assoc ..).symm (by simp) ⟨hs, he⟩
  · rintro h x t y hsplit hlen ⟨hs, he⟩
    rcases List.append_eq_append_iff.mp hsplit with ⟨z, rfl, hz⟩ | ⟨z, rfl, hz⟩
    · exact h z t y hz hs he
    · rw [List.length_append] at hlen
      obtain rfl : z = [] := List.length_eq_zero_iff.mp (by omega)
      simpa using h [] t y hz.symm hs he

theorem start_ne_end (hdec : Decodes p decode) : p.startTokenId ≠ p.endTokenId := by
  intro h
  have htags := hdec.start.symm.trans ((congrArg decode h).trans hdec.stop)
  have hlen := congrArg List.length htags
  rw [startToken_length, endToken_length] at hlen
  exact absurd hlen (by decide)

/-- A start token in the output: the ordinary tokens up to the end token are counted, and those
after it that are inside brackets. -/
theorem count_with_start {x y : List Nat} (hx : p.startTokenId ∉ x) :
    ∃ rest, x ++ p.startTokenId :: y =
        (x ++ p.startTokenId :: y.takeWhile (· ≠ p.endTokenId)) ++ rest ∧
      p.countReasoningTokens (x ++ p.startTokenId :: y) =
        (y.takeWhile (· ≠ p.endTokenId)).countP (fun t => p.Ordinary t) +
          inside p.startTokenId p.endTokenId (depth p.startTokenId p.endTokenId 0
            (x ++ p.startTokenId :: y.takeWhile (· ≠ p.endTokenId))) rest := by
  have hr : p.endTokenId ∉ y.takeWhile (· ≠ p.endTokenId) := fun h => by
    simpa using List.mem_takeWhile_imp h
  obtain ⟨rest, hrest⟩ := List.takeWhile_prefix (l := y) (· ≠ p.endTokenId)
  refine ⟨rest, by rw [List.append_assoc, List.cons_append, hrest], ?_⟩
  have hdepth : depth p.startTokenId p.endTokenId 0 [p.startTokenId] = 1 := if_pos rfl
  have hone : inside p.startTokenId p.endTokenId 0 [p.startTokenId] = 0 := by
    simp [inside]
  unfold countReasoningTokens
  rw [if_pos (List.mem_append_right x List.mem_cons_self), baseCount_eq]
  conv_lhs => rw [← hrest]
  rw [← List.cons_append, ← List.append_assoc, inside_append, List.append_cons x, inside_append,
    inside_append, inside_zero_of_not_mem hx, depth_append, depth_zero_of_not_mem hx, hone, hdepth,
    inside_of_not_mem Nat.one_pos hr, Nat.zero_add]

/-- Without a start token, everything up to the end token is counted. -/
theorem count_without_start (h : p.startTokenId ∉ tokenIds) : p.countReasoningTokens tokenIds =
    if p.endTokenId ∈ tokenIds ∨ p.thinkingEnabled = true then
      (tokenIds.takeWhile (· ≠ p.endTokenId)).length
    else 0 := by
  unfold countReasoningTokens
  rw [if_neg h]
  by_cases he : p.endTokenId ∈ tokenIds
  · obtain ⟨r, post, rfl, hr⟩ := List.eq_append_cons_of_mem he
    rw [if_pos he, if_pos (.inl he), takeWhile_ne_append hr, List.idxOf_append_of_notMem hr,
      List.idxOf_cons_self, Nat.add_zero]
  · rw [if_neg he, takeWhile_ne_of_not_mem he]
    simp only [he, false_or]

theorem countP_ordinary {l : List Nat} (hs : p.startTokenId ∉ l) (he : p.endTokenId ∉ l) :
    l.countP (fun t => p.Ordinary t) = l.length :=
  List.countP_eq_length.mpr fun _ ht =>
    decide_eq_true ⟨ne_of_mem_of_not_mem ht hs, ne_of_mem_of_not_mem ht he⟩

end Counted

/-! ## When they agree -/

section Agreement

variable {p : Qwen3ReasoningParser} {decode : Nat → Text} {tokenIds : List Nat}

theorem end_not_mem_reasoningTokens : p.endTokenId ∉ p.reasoningTokens tokenIds := fun h => by
  simpa using List.mem_takeWhile_imp h

theorem usage_agrees_disabled (hdec : Decodes p decode) (h : p.thinkingEnabled = false) :
    UsageAgrees p decode tokenIds ↔ p.UsageCond decode tokenIds := by
  unfold UsageAgrees UsageCond
  rw [extractReasoning_fst, if_pos h, if_pos h]
  by_cases hs : p.startTokenId ∈ tokenIds
  · rw [if_pos hs, CountsOf]
    rw [countReasoningTokens, if_pos hs, baseCount_eq]
    exact (closedFrom_iff (start_ne_end hdec) [] tokenIds).symm
  · rw [if_neg hs, CountsOf]
    rw [count_without_start hs, h]
    by_cases he : p.endTokenId ∈ tokenIds
    · obtain ⟨r, post, rfl, hr⟩ := List.eq_append_cons_of_mem he
      rw [if_pos (.inl he), takeWhile_ne_append hr, List.length_eq_zero_iff]
      cases r with
      | nil => simp
      | cons t r =>
        rw [List.mem_cons, not_or] at hr
        simp [Ne.symm hr.1]
    · simp [he]

/-- The text of the reasoning is missing although it has tokens, or only its tokens are counted. -/
theorem count_with_start_iff (hdec : Decodes p decode) {x y : List Nat}
    (hx : p.startTokenId ∉ x) :
    p.countReasoningTokens (x ++ p.startTokenId :: y) =
        (p.reasoningTokens (x ++ p.startTokenId :: y)).countP (fun t => p.Ordinary t) ↔
      p.ClosedFrom (x ++ p.startTokenId :: y) ((x ++ p.startTokenId :: y).idxOf p.startTokenId + 1 +
        (p.reasoningTokens (x ++ p.startTokenId :: y)).length) := by
  obtain ⟨rest, hsplit, hcount⟩ := count_with_start (p := p) (y := y) hx
  have hclosed := closedFrom_iff (start_ne_end hdec)
    (x ++ p.startTokenId :: y.takeWhile (· ≠ p.endTokenId)) rest
  have hlen : (x ++ p.startTokenId :: y).idxOf p.startTokenId + 1 +
      (y.takeWhile (· ≠ p.endTokenId)).length =
      (x ++ p.startTokenId :: y.takeWhile (· ≠ p.endTokenId)).length := by
    rw [List.idxOf_append_of_notMem hx, List.idxOf_cons_self, List.length_append, List.length_cons]
    omega
  rw [← hsplit, ← hlen] at hclosed
  rw [reasoningTokens_append hx, hcount, hclosed]
  omega

theorem usage_agrees_enabled (hdec : Decodes p decode) (h : p.thinkingEnabled = true)
    (hstart : OnlyAsToken decode p.startTokenId tokenIds)
    (hstop : OnlyAsToken decode p.endTokenId tokenIds) :
    UsageAgrees p decode tokenIds ↔ p.UsageCond decode tokenIds := by
  have hcond : p.UsageCond decode tokenIds ↔
      (render decode (p.reasoningTokens tokenIds) = [] → p.reasoningTokens tokenIds = []) ∧
        (p.startTokenId ∈ tokenIds → p.ClosedFrom tokenIds
          (tokenIds.idxOf p.startTokenId + 1 + (p.reasoningTokens tokenIds).length)) := by
    rw [UsageCond, if_neg (by rw [h]; decide)]
  -- The count is that of the reasoning's tokens exactly if no later token is counted.
  have hcount : p.countReasoningTokens tokenIds =
      (p.reasoningTokens tokenIds).countP (fun t => p.Ordinary t) ↔
      (p.startTokenId ∈ tokenIds → p.ClosedFrom tokenIds
        (tokenIds.idxOf p.startTokenId + 1 + (p.reasoningTokens tokenIds).length)) := by
    by_cases hs : p.startTokenId ∈ tokenIds
    · obtain ⟨x, y, rfl, hx⟩ := List.eq_append_cons_of_mem hs
      rw [count_with_start_iff hdec hx]
      exact ⟨fun hclosed _ => hclosed, fun hclosed => hclosed hs⟩
    · refine ⟨fun _ hs' => absurd hs' hs, fun _ => ?_⟩
      rw [count_without_start hs, if_pos (.inr h), countP_ordinary _ end_not_mem_reasoningTokens]
      · rw [reasoningTokens, body, if_neg hs]
      · intro hmem
        rw [reasoningTokens, body, if_neg hs] at hmem
        exact hs (List.takeWhile_subset _ hmem)
  have hle : (p.reasoningTokens tokenIds).countP (fun t => p.Ordinary t) ≤
      p.countReasoningTokens tokenIds := by
    by_cases hs : p.startTokenId ∈ tokenIds
    · obtain ⟨x, y, rfl, hx⟩ := List.eq_append_cons_of_mem hs
      obtain ⟨rest, -, hsum⟩ := count_with_start (p := p) (y := y) hx
      rw [hsum, reasoningTokens_append hx]
      exact Nat.le_add_right _ _
    · exact (hcount.mpr fun hs' => absurd hs' hs).ge
  rw [hcond, ← hcount]
  unfold UsageAgrees
  rw [extractReasoning_eq hdec h hstart hstop, Text.orNone]
  by_cases hnil : render decode (p.reasoningTokens tokenIds) = []
  · rw [if_pos hnil, CountsOf]
    -- Tokens without a text are no start tokens.
    have hs : p.startTokenId ∉ p.reasoningTokens tokenIds := fun hmem => by
      have hin : decode p.startTokenId <:+: render decode (p.reasoningTokens tokenIds) :=
        infix_decode hmem
      rw [hnil, hdec.start] at hin
      exact startToken_ne_nil (List.infix_nil.mp hin)
    rw [countP_ordinary hs end_not_mem_reasoningTokens] at hle ⊢
    constructor
    · intro hzero
      have hempty := List.length_eq_zero_iff.mp (Nat.le_zero.mp (hle.trans_eq hzero))
      exact ⟨fun _ => hempty, by rw [hzero, hempty, List.length_nil]⟩
    · rintro ⟨hempty, hlen⟩
      rw [hlen, hempty hnil, List.length_nil]
  · rw [if_neg hnil, CountsOf]
    exact ⟨fun hagrees => ⟨fun hempty => absurd hempty hnil, hagrees.2⟩,
      fun hcount => ⟨rfl, hcount.2⟩⟩

/-- **The count is that of the extracted reasoning exactly if `UsageCond` holds.** -/
theorem usage_agrees_iff (hdec : Decodes p decode)
    (hstart : OnlyAsToken decode p.startTokenId tokenIds)
    (hstop : OnlyAsToken decode p.endTokenId tokenIds) :
    UsageAgrees p decode tokenIds ↔ p.UsageCond decode tokenIds := by
  cases h : p.thinkingEnabled with
  | false => exact usage_agrees_disabled hdec h
  | true => exact usage_agrees_enabled hdec h hstart hstop

end Agreement

/-! ## Runs -/

section Runs

variable {p : Qwen3ReasoningParser} {decode : Nat → Text} {tokenIds : List Nat}

/-- A `<` in a tag is its first character. -/
theorem bracket_in_tag {tag a z : Text} (htag : tag = startToken ∨ tag = endToken)
    (h : tag = a ++ '<' :: z) : a = [] := by
  cases a with
  | nil => rfl
  | cons x a =>
    have hmem : '<' ∈ tag.tail := by
      rw [h]
      simp
    rcases htag with rfl | rfl
    · rw [startToken_eq] at hmem
      exact absurd hmem (by decide)
    · rw [endToken_eq] at hmem
      exact absurd hmem (by decide)

/-- If no ordinary token has a `<`, each `<` begins the tag of a think token. -/
theorem bracket_render (hdec : Decodes p decode)
    (hplain : ∀ t ∈ tokenIds, p.Ordinary t → '<' ∉ decode t) {a z : Text}
    (h : render decode tokenIds = a ++ '<' :: z) : ∃ x t y, tokenIds = x ++ t :: y ∧
      render decode x = a ∧ (t = p.startTokenId ∨ t = p.endTokenId) := by
  induction tokenIds generalizing a with
  | nil => exact absurd (congrArg List.length h) (by simp [render])
  | cons t tokenIds ih =>
    have hrest := fun a' (h' : render decode tokenIds = a' ++ '<' :: z) =>
      ih (fun t' ht => hplain t' (List.mem_cons_of_mem _ ht)) h'
    have hsplit : decode t ++ render decode tokenIds = a ++ '<' :: z := h
    rcases List.append_eq_append_iff.mp hsplit with ⟨a', rfl, h'⟩ | ⟨c, hc, h'⟩
    · obtain ⟨x, t', y, rfl, rfl, ht'⟩ := hrest a' h'
      exact ⟨t :: x, t', y, rfl, rfl, ht'⟩
    · cases c with
      | nil =>
        obtain ⟨x, t', y, rfl, hx, ht'⟩ := hrest [] (by simpa using h'.symm)
        rw [List.append_nil] at hc
        refine ⟨t :: x, t', y, rfl, ?_, ht'⟩
        rw [← hc]
        exact (congrArg (decode t ++ ·) hx).trans (List.append_nil _)
      | cons b c =>
        obtain ⟨rfl, -⟩ := List.cons.inj h'
        have hthink : t = p.startTokenId ∨ t = p.endTokenId := by
          by_contra hno
          rw [not_or] at hno
          exact hplain t List.mem_cons_self hno (hc ▸ by simp)
        have htag : decode t = startToken ∨ decode t = endToken := by
          rcases hthink with rfl | rfl
          · exact .inl hdec.start
          · exact .inr hdec.stop
        exact ⟨[], t, tokenIds, rfl, (bracket_in_tag htag hc).symm, hthink⟩

theorem onlyAsToken_of_plain (tokenIds : List Nat) (hdec : Decodes p decode)
    (hplain : ∀ t ∈ tokenIds, p.Ordinary t → '<' ∉ decode t) :
    OnlyAsToken decode p.startTokenId tokenIds ∧ OnlyAsToken decode p.endTokenId tokenIds := by
  -- The tags differ in their second character.
  have hdiff : ∀ u v : Text, startToken ++ u ≠ endToken ++ v := fun u v h => by
    rw [startToken_eq, endToken_eq] at h
    simp at h
  constructor
  · intro a b hab
    rw [hdec.start, List.append_assoc, startToken_cons, List.cons_append] at hab
    obtain ⟨x, t, y, rfl, rfl, rfl | rfl⟩ := bracket_render hdec hplain hab
    · exact ⟨x, y, rfl, rfl⟩
    · rw [render_append] at hab
      have htail : decode p.endTokenId ++ render decode y = startToken ++ b := by
        rw [startToken_cons]
        exact List.append_cancel_left hab
      rw [hdec.stop] at htail
      exact absurd htail.symm (hdiff _ _)
  · intro a b hab
    rw [hdec.stop, List.append_assoc, endToken_cons, List.cons_append] at hab
    obtain ⟨x, t, y, rfl, rfl, rfl | rfl⟩ := bracket_render hdec hplain hab
    · rw [render_append] at hab
      have htail : decode p.startTokenId ++ render decode y = endToken ++ b := by
        rw [endToken_cons]
        exact List.append_cancel_left hab
      rw [hdec.start] at htail
      exact absurd htail (hdiff _ _)
    · exact ⟨x, y, rfl, rfl⟩

/-- `<think>a</think>b` -/
theorem usage_agrees_iff_letters : UsageAgrees ⟨0, 1, true⟩ letters [0, 2, 1, 3] ↔
    UsageCond ⟨0, 1, true⟩ letters [0, 2, 1, 3] := by
  have honly := onlyAsToken_of_plain [0, 2, 1, 3] (letters_decodes true) (by decide)
  exact usage_agrees_iff (letters_decodes true) honly.1 honly.2

/-- With thinking disabled no reasoning is extracted from `a</think>`, and one token is counted; with
thinking enabled the `b` of `<think>a</think><think>b` is counted and not extracted. -/
theorem usage_differs :
    (Decodes ⟨0, 1, false⟩ letters ∧ OnlyAsToken letters 0 [2, 1] ∧ OnlyAsToken letters 1 [2, 1] ∧
      ¬ UsageAgrees ⟨0, 1, false⟩ letters [2, 1]) ∧
    Decodes ⟨0, 1, true⟩ letters ∧ OnlyAsToken letters 0 [0, 2, 1, 0, 3] ∧
      OnlyAsToken letters 1 [0, 2, 1, 0, 3] ∧ ¬ UsageAgrees ⟨0, 1, true⟩ letters [0, 2, 1, 0, 3] := by
  have honly := onlyAsToken_of_plain [2, 1] (letters_decodes false) (by decide)
  have honly' := onlyAsToken_of_plain [0, 2, 1, 0, 3] (letters_decodes true)
    (by decide)
  refine ⟨⟨letters_decodes false, honly.1, honly.2, ?_⟩, letters_decodes true, honly'.1, honly'.2,
    ?_⟩ <;>
  · unfold UsageAgrees
    decide +kernel

end Runs

end Qwen3ReasoningParser

end Bi100
