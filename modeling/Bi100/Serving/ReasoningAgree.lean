import Bi100.Serving.ReasoningStream

/-!
# When the stream agrees with the whole text

The cases of `StreamCond`, and the two templates for which it is exact: the start tag is in the
prompt and not in the output, or the output begins with it and does not repeat it.
-/

namespace Bi100

open Py

namespace Qwen3ReasoningParser

variable {p : Qwen3ReasoningParser} {decode : Nat → Text}

/-- With thinking disabled the two agree on texts without tags. -/
theorem agrees_disabled (h : p.thinkingEnabled = false) (deltas : List (List Nat)) :
    StreamAgrees p decode deltas ↔ ¬ startToken <:+: render decode deltas.flatten ∧
      ¬ endToken <:+: render decode deltas.flatten := by
  have hne : startToken ≠ [] ∧ endToken ≠ [] := ⟨startToken_ne_nil, endToken_ne_nil⟩
  rw [StreamAgrees, extractReasoning_texts, if_pos h, streamTexts_disabled h, Prod.mk.injEq, bodyText,
    ← Text.cut_eq_none_iff, ← Text.cut_eq_none_iff]
  generalize render decode deltas.flatten = text
  constructor
  · rintro ⟨-, htext⟩
    cases hstart : Text.cut startToken text with
    | some ab =>
      -- The whole text loses the start tag, the stream does not.
      exfalso
      have hlen := congrArg List.length (Text.cut_eq hstart)
      rw [hstart, Option.map_some, Option.getD_some] at htext
      rw [List.length_append, List.length_append, startToken_length] at hlen
      cases hend : Text.cut endToken ab.2 with
      | none =>
        rw [hend, Option.map_none, Option.getD_none] at htext
        have := congrArg List.length htext
        omega
      | some cd =>
        have hlen' := length_of_cut_end hend
        rw [hend, Option.map_some, Option.getD_some] at htext
        have := congrArg List.length htext
        omega
    | none =>
      refine ⟨rfl, ?_⟩
      rw [hstart, Option.map_none, Option.getD_none] at htext
      cases hend : Text.cut endToken text with
      | none => rfl
      | some cd =>
        have hlen' := length_of_cut_end hend
        rw [hend, Option.map_some, Option.getD_some] at htext
        have := congrArg List.length htext
        omega
  · rintro ⟨hstart, hend⟩
    rw [hstart, Option.map_none, Option.getD_none, hend, Option.map_none, Option.getD_none]
    exact ⟨rfl, rfl⟩

theorem infix_start (hdec : Decodes p decode) {d : List Nat} (h : p.startTokenId ∈ d) :
    startToken <:+: render decode d := by
  have hin : decode p.startTokenId <:+: render decode d := infix_decode h
  rwa [hdec.start] at hin

theorem infix_end (hdec : Decodes p decode) {d : List Nat} (h : p.endTokenId ∈ d) :
    endToken <:+: render decode d := by
  have hin : decode p.endTokenId <:+: render decode d := infix_decode h
  rwa [hdec.stop] at hin

theorem pieceOf_tag (hdec : Decodes p decode) (d : List Nat)
    (h : (p.pieceOf decode d).hasEnd = true) : endToken <:+: (p.pieceOf decode d).text :=
  infix_end hdec (of_decide_eq_true h)

theorem join_pieceOf (deltas : List (List Nat)) :
    Piece.join (deltas.map (p.pieceOf decode)) = render decode deltas.flatten := by
  induction deltas with
  | nil => rfl
  | cons d ds ih =>
    rw [List.map_cons, Piece.join_cons, ih, List.flatten_cons, render_append]
    rfl

/-- Without a start tag in the text, no delta has the start token. -/
theorem not_flagged (hdec : Decodes p decode) {deltas : List (List Nat)}
    (hstart : ¬ startToken <:+: render decode deltas.flatten) :
    ∀ d ∈ deltas, p.startTokenId ∉ d := fun _ hd hmem =>
  hstart ((infix_start hdec hmem).trans (infix_render hd))

theorem agrees_without_start (hdec : Decodes p decode) (h : p.thinkingEnabled = true)
    {deltas : List (List Nat)} (hstart : ¬ startToken <:+: render decode deltas.flatten) :
    StreamAgrees p decode deltas ↔ EndFound (deltas.map (p.pieceOf decode)) := by
  have htag : ∀ x ∈ deltas.map (p.pieceOf decode), x.hasEnd = true → endToken <:+: x.text := by
    intro x hx
    obtain ⟨d, _, rfl⟩ := List.mem_map.mp hx
    exact pieceOf_tag hdec d
  have hbody : bodyText (render decode deltas.flatten) = Piece.join (deltas.map (p.pieceOf decode)) := by
    rw [bodyText, Text.cut_eq_none_iff.mpr hstart, Option.map_none, Option.getD_none, join_pieceOf]
  rw [StreamAgrees, extractReasoning_texts, if_neg (by rw [h]; decide), hbody,
    streamTexts_eq_split h _ _ (not_flagged hdec hstart), decide_eq_false List.not_mem_nil]
  exact ⟨endFound_of_splitPieces htag, fun he =>
    splitPieces_of_endFound htag he false fun hf => by cases hf⟩

/-- The deltas from the first start tag on are split as pieces. -/
theorem streamTexts_of_start (h : p.thinkingEnabled = true) {pre post : List (List Nat)}
    {d : List Nat} {u v : Text} (hd : p.startTokenId ∈ d)
    (hcut : Text.cut startToken (render decode d) = some (u, v))
    (hpre : ∀ x ∈ pre, p.Silent decode x) (hpost : ∀ x ∈ post, p.startTokenId ∉ x)
    (hlost : p.endTokenId ∈ d → ¬ endToken <:+: v → v = []) :
    streamTexts p decode [] (pre ++ d :: post) =
      splitPieces (p.endTokenId ∈ pre.flatten ∨ (p.endTokenId ∈ d ∧ ¬ endToken <:+: v))
        (⟨v, p.endTokenId ∈ d ∧ endToken <:+: v⟩ :: post.map (p.pieceOf decode)) := by
  have hsame : (⟨v, p.endTokenId ∈ d⟩ : Piece).split (p.endTokenId ∈ pre.flatten) =
      (⟨v, p.endTokenId ∈ d ∧ endToken <:+: v⟩ : Piece).split
        (p.endTokenId ∈ pre.flatten ∨ (p.endTokenId ∈ d ∧ ¬ endToken <:+: v)) := by
    by_cases hed : p.endTokenId ∈ d
    · by_cases hev : endToken <:+: v
      · simp [Piece.split, hed, hev]
      · have hnil := cut_endToken_nil
        simp [Piece.split, hed, hlost hed hev, hnil]
    · simp [Piece.split, hed]
  have hseen : (p.endTokenId ∈ pre.flatten ++ d) ↔
      (p.endTokenId ∈ pre.flatten ∨ (p.endTokenId ∈ d ∧ ¬ endToken <:+: v)) ∨
        (p.endTokenId ∈ d ∧ endToken <:+: v) := by
    rw [List.mem_append]
    tauto
  rw [streamTexts_append, streamTexts_silent h _ _ hpre, List.nil_append, streamTexts,
    texts_enabled h, stripStart_of_cut hd hcut, streamTexts_eq_split h _ _ hpost, splitPieces]
  simp only [List.nil_append, ← Bool.decide_or]
  rw [hsame, decide_eq_decide.mpr hseen]

theorem body_tag (hdec : Decodes p decode) (v : Text) (d : List Nat) (post : List (List Nat)) :
    ∀ x ∈ (⟨v, p.endTokenId ∈ d ∧ endToken <:+: v⟩ : Piece) :: post.map (p.pieceOf decode),
      x.hasEnd = true → endToken <:+: x.text := by
  intro x hx he
  rcases List.mem_cons.mp hx with rfl | hx
  · exact (of_decide_eq_true he).2
  · obtain ⟨y, _, rfl⟩ := List.mem_map.mp hx
    exact pieceOf_tag hdec y he

theorem agrees_of_startFound (hdec : Decodes p decode) (h : p.thinkingEnabled = true)
    {pre post : List (List Nat)} {d : List Nat} {u v : Text}
    (hfound : p.StartFound decode pre d post u v) :
    StreamAgrees p decode (pre ++ d :: post) := by
  have hbody : bodyText (render decode (pre ++ d :: post).flatten) = Piece.join
      ((⟨v, p.endTokenId ∈ d ∧ endToken <:+: v⟩ : Piece) :: post.map (p.pieceOf decode)) := by
    rw [bodyText, hfound.first, Piece.join_cons, join_pieceOf]
    rfl
  have hlost : p.endTokenId ∈ d → ¬ endToken <:+: v → v = [] := by
    intro hed hev
    refine hfound.seen (.inr ⟨hed, hev⟩) ⟨v, p.endTokenId ∈ d ∧ endToken <:+: v⟩ ?_
    rw [List.takeWhile_cons_of_pos (by simp [hev])]
    exact List.mem_cons_self
  rw [StreamAgrees, extractReasoning_texts, if_neg (by rw [h]; decide), hbody,
    streamTexts_of_start h hfound.flagged hfound.inDelta hfound.silent hfound.once hlost]
  exact splitPieces_of_endFound (body_tag hdec v d post) hfound.ends _ fun hs =>
    hfound.seen (of_decide_eq_true hs)

/-- An output that begins with the start tag and does not repeat it. -/
theorem startFound_of_agrees (hdec : Decodes p decode) (h : p.thinkingEnabled = true)
    {deltas : List (List Nat)} {y : Text}
    (htext : render decode deltas.flatten = startToken ++ y) (hy : ¬ startToken <:+: y)
    (hagrees : StreamAgrees p decode deltas) :
    ∃ pre d post u v, deltas = pre ++ d :: post ∧ p.StartFound decode pre d post u v := by
  have hbody : bodyText (render decode deltas.flatten) = y := by
    rw [htext, bodyText, cut_start_append]
    rfl
  rw [StreamAgrees, extractReasoning_texts, if_neg (by rw [h]; decide), hbody] at hagrees
  obtain ⟨d, hd, hflag⟩ : ∃ d ∈ deltas, p.startTokenId ∈ d := by
    by_contra hno
    -- The stream would keep the start tag, and end tags have another length.
    have hnone : ∀ d ∈ deltas, p.startTokenId ∉ d := fun d hd hf => hno ⟨d, hd, hf⟩
    have htag : ∀ x ∈ deltas.map (p.pieceOf decode), x.hasEnd = true → endToken <:+: x.text := by
      intro x hx
      obtain ⟨d, _, rfl⟩ := List.mem_map.mp hx
      exact pieceOf_tag hdec d
    have hlen := splitPieces_length htag (p.endTokenId ∈ [])
    rw [← streamTexts_eq_split h _ _ hnone, hagrees, join_pieceOf, htext, List.length_append,
      startToken_length] at hlen
    cases hcut : Text.cut endToken y with
    | none =>
      rw [hcut, Option.getD_none] at hlen
      dsimp only [List.length_nil] at hlen
      omega
    | some ab =>
      have hlen' := length_of_cut_end hcut
      rw [hcut, Option.getD_some] at hlen
      omega
  obtain ⟨pre, post, rfl⟩ := List.append_of_mem hd
  obtain ⟨u, v, hcut⟩ := Text.exists_cut (infix_start hdec hflag)
  -- The start tag of `d` is the one at the beginning.
  have hsplit : startToken ++ y =
      (render decode pre.flatten ++ u) ++ startToken ++ (v ++ render decode post.flatten) := by
    rw [← htext, List.flatten_append, List.flatten_cons, render_append, render_append,
      Text.cut_eq hcut]
    simp only [List.append_assoc]
  obtain ⟨hnil, hv⟩ := start_unique hy hsplit
  obtain ⟨hpre, rfl⟩ := List.append_eq_nil_iff.mp hnil
  have hempty : ∀ x ∈ pre, render decode x = [] := fun x hx =>
    List.infix_nil.mp (hpre ▸ infix_render hx)
  have hstart_ne : startToken ≠ [] ∧ endToken ≠ [] := ⟨startToken_ne_nil, endToken_ne_nil⟩
  have hsilent : ∀ x ∈ pre, p.Silent decode x := fun x hx =>
    ⟨fun hf => hstart_ne.1 (List.infix_nil.mp (hempty x hx ▸ infix_start hdec hf)),
      .inl (hempty x hx)⟩
  have hnoend : p.endTokenId ∉ pre.flatten := fun he =>
    hstart_ne.2 (List.infix_nil.mp (hpre ▸ infix_end hdec he))
  have honce : ∀ x ∈ post, p.startTokenId ∉ x := fun x hx hf =>
    hy (hv ▸ ((infix_start hdec hf).trans (infix_render hx)).trans (List.suffix_append _ _).isInfix)
  have hend : p.endTokenId ∈ d → endToken <:+: v := by
    intro he
    have hin := infix_end hdec he
    rw [Text.cut_eq hcut, List.nil_append] at hin
    exact end_infix_of_start_append hin
  have hjoin : y = Piece.join
      ((⟨v, p.endTokenId ∈ d ∧ endToken <:+: v⟩ : Piece) :: post.map (p.pieceOf decode)) := by
    rw [Piece.join_cons, join_pieceOf, hv]
  refine ⟨pre, d, post, [], v, rfl, hflag, hcut, ?_, hsilent, honce, ?_, ?_⟩
  · rw [htext, cut_start_append, hpre, hv]
    rfl
  · rw [streamTexts_of_start h hflag hcut hsilent honce fun he hv => absurd (hend he) hv,
      decide_eq_false (by tauto), hjoin] at hagrees
    exact endFound_of_splitPieces (body_tag hdec v d post) hagrees
  · rintro (he | ⟨he, hv⟩)
    · exact absurd he hnoend
    · exact absurd (hend he) hv

/-- Thinking is disabled, or the output has no start tag, or it begins with the only one. -/
def UsualOutput (p : Qwen3ReasoningParser) (text : Text) : Prop :=
  p.thinkingEnabled = false ∨ ¬ startToken <:+: text ∨
    ∃ y, text = startToken ++ y ∧ ¬ startToken <:+: y

/-- The stream gives what the whole text gives if `StreamCond` holds; for the usual outputs, only
if it holds. -/
theorem reasoning_stream_agrees (hdec : Decodes p decode) (deltas : List (List Nat)) :
    (StreamCond p decode deltas → StreamAgrees p decode deltas) ∧
      (p.UsualOutput (render decode deltas.flatten) →
        (StreamAgrees p decode deltas ↔ StreamCond p decode deltas)) := by
  rw [StreamCond]
  cases h : p.thinkingEnabled with
  | false =>
    rw [if_pos rfl]
    exact ⟨(agrees_disabled h deltas).mpr, fun _ => agrees_disabled h deltas⟩
  | true =>
    rw [if_neg (by decide)]
    by_cases hstart : startToken <:+: render decode deltas.flatten
    · rw [if_pos hstart]
      have hmp : (∃ pre d post u v, deltas = pre ++ d :: post ∧
          p.StartFound decode pre d post u v) → StreamAgrees p decode deltas := by
        rintro ⟨pre, d, post, u, v, rfl, hfound⟩
        exact agrees_of_startFound hdec h hfound
      refine ⟨hmp, ?_⟩
      rintro (hdis | hno | ⟨y, htext, hy⟩)
      · rw [h] at hdis
        exact nomatch hdis
      · exact absurd hstart hno
      · exact ⟨startFound_of_agrees hdec h htext hy, hmp⟩
    · rw [if_neg hstart]
      have hiff := agrees_without_start hdec h hstart
      exact ⟨hiff.mpr, fun _ => hiff⟩

/-! ## Runs -/

/-- A vocabulary of the two think tokens and of letters. -/
def letters (tokenId : Nat) : Text :=
  if tokenId = 0 then startToken else if tokenId = 1 then endToken else [Char.ofNat (95 + tokenId)]

theorem letters_decodes (thinkingEnabled : Bool) : Decodes ⟨0, 1, thinkingEnabled⟩ letters :=
  ⟨rfl, rfl⟩

/-- `<think>a</think>b` in three deltas. -/
theorem reasoning_stream_agrees_letters :
    StreamAgrees ⟨0, 1, true⟩ letters [[0, 2], [1], [3]] := by
  refine ((reasoning_stream_agrees (letters_decodes true) _).1 ?_)
  have hin : startToken <:+: render letters [[0, 2], [1], [3]].flatten :=
    show letters 0 <:+: _ from infix_decode (by decide)
  rw [StreamCond, if_neg (by decide), if_pos hin]
  refine ⟨[], [0, 2], [[1], [3]], [], ['a'], rfl, by decide, ?_, ?_,
    fun x hx => absurd hx List.not_mem_nil, by decide, .inr ⟨[⟨['a'], false⟩], ⟨endToken, true⟩,
      [⟨['b'], false⟩], [], [], ?_, rfl, by decide, ?_, ?_⟩, ?_⟩ <;>
  · simp only [startToken_eq, endToken_eq]
    decide

/-- With thinking disabled the stream keeps an end tag that the whole text is cut at; with thinking
enabled it loses the second one, which the whole text keeps. -/
theorem reasoning_stream_differs :
    (Decodes ⟨0, 1, false⟩ letters ∧ ¬ StreamAgrees ⟨0, 1, false⟩ letters [[1], [2]]) ∧
      Decodes ⟨0, 1, true⟩ letters ∧ ¬ StreamAgrees ⟨0, 1, true⟩ letters [[2], [1], [3], [1]] := by
  refine ⟨⟨letters_decodes false, ?_⟩, letters_decodes true, ?_⟩ <;>
  · rw [StreamAgrees]
    decide +kernel

end Qwen3ReasoningParser

end Bi100
