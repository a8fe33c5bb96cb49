import Bi100.Serving.Reasoning
import Mathlib.Data.List.TakeWhile

/-!
# Reasoning: the stream and the whole text

`extract_reasoning` cuts the text at the tags; the stream decides by the token ids of each delta.
A token id is decoded to any text; the two think tokens are decoded to their tags.

- `splitPieces`: what the stream does with deltas that it does not strip.
- `StreamCond`: when the stream meets no tag that the whole text would treat differently.
- `reasoning_stream_agrees`: then the pieces of the stream are those of the whole text; and only
  then, if thinking is disabled or the start tag is absent, or at the beginning and nowhere else.
-/

namespace Bi100

open Py

namespace Qwen3ReasoningParser

/-- The think tokens are decoded to their tags. -/
structure Decodes (p : Qwen3ReasoningParser) (decode : Nat → Text) : Prop where
  start : decode p.startTokenId = startToken
  stop : decode p.endTokenId = endToken

variable (p : Qwen3ReasoningParser) (decode : Nat → Text)

/-- The text of some tokens. -/
def render (tokenIds : List Nat) : Text := tokenIds.flatMap decode

/-- The reasoning and the content of an answer, where absent is empty. -/
def texts (o : Option ReasoningDelta) : Text × Text :=
  o.elim ([], []) fun d => (d.reasoningContent.getD [], d.content.getD [])

/-- The reasoning and the content of the answers for some deltas, after the tokens `prev`. -/
def streamTexts (prev : List Nat) : List (List Nat) → Text × Text
  | [] => ([], [])
  | d :: ds =>
    let a := texts (p.extractReasoningStreaming (render decode d) prev d)
    let b := streamTexts (prev ++ d) ds
    (a.1 ++ b.1, a.2 ++ b.2)

/-- The stream gives what the whole text gives. -/
def StreamAgrees (deltas : List (List Nat)) : Prop :=
  let full := p.extractReasoning (render decode deltas.flatten)
  streamTexts p decode [] deltas = (full.1.getD [], full.2.getD [])

/-- A delta that is not stripped: its text, and whether it has the end token. -/
structure Piece where
  text : Text
  hasEnd : Bool
deriving DecidableEq

/-- The text of some pieces. -/
def Piece.join (xs : List Piece) : Text := xs.flatMap Piece.text

/-- One piece, after the end token or not. -/
def Piece.split (x : Piece) (seen : Bool) : Text × Text :=
  if x.hasEnd then (Text.cut endToken x.text).getD ([], [])
  else if seen then ([], x.text)
  else (x.text, [])

def splitPieces (seen : Bool) : List Piece → Text × Text
  | [] => ([], [])
  | x :: xs =>
    ((x.split seen).1 ++ (splitPieces (seen || x.hasEnd) xs).1,
      (x.split seen).2 ++ (splitPieces (seen || x.hasEnd) xs).2)

/-- There is no end tag, or one piece has the end token and the first end tag of the text is the
first of that piece. -/
def EndFound (xs : List Piece) : Prop :=
  Text.cut endToken (Piece.join xs) = none ∨
    ∃ m x l r c, xs = m ++ x :: l ∧ x.hasEnd = true ∧ (∀ y ∈ m ++ l, y.hasEnd = false) ∧
      Text.cut endToken x.text = some (r, c) ∧
      Text.cut endToken (Piece.join xs) = some (Piece.join m ++ r, c ++ Piece.join l)

def pieceOf (d : List Nat) : Piece := ⟨render decode d, p.endTokenId ∈ d⟩

/-- A delta for which the stream answers nothing. -/
def Silent (d : List Nat) : Prop :=
  p.startTokenId ∉ d ∧
    (render decode d = [] ∨ (p.endTokenId ∈ d ∧ render decode d = endToken))

/-- The delta `d` has the first start tag of the text, with `v` after it. Before `d` there is
nothing to answer, and after it no start token. If an end token precedes the start tag, no text
that belongs to the reasoning comes in a delta without the end token. -/
structure StartFound (pre : List (List Nat)) (d : List Nat) (post : List (List Nat))
    (u v : Text) : Prop where
  flagged : p.startTokenId ∈ d
  inDelta : Text.cut startToken (render decode d) = some (u, v)
  first : Text.cut startToken (render decode (pre ++ d :: post).flatten) =
    some (render decode pre.flatten ++ u, v ++ render decode post.flatten)
  silent : ∀ x ∈ pre, p.Silent decode x
  once : ∀ x ∈ post, p.startTokenId ∉ x
  ends : EndFound (⟨v, p.endTokenId ∈ d ∧ endToken <:+: v⟩ :: post.map (p.pieceOf decode))
  seen : (p.endTokenId ∈ pre.flatten ∨ (p.endTokenId ∈ d ∧ ¬ endToken <:+: v)) →
    ∀ x ∈ (⟨v, p.endTokenId ∈ d ∧ endToken <:+: v⟩ :: post.map (p.pieceOf decode)).takeWhile
      (fun x => !x.hasEnd), x.text = []

/-- When the stream gives what the whole text gives. -/
def StreamCond (deltas : List (List Nat)) : Prop :=
  let text := render decode deltas.flatten
  if p.thinkingEnabled = false then ¬ startToken <:+: text ∧ ¬ endToken <:+: text
  else if startToken <:+: text then
    ∃ pre d post u v, deltas = pre ++ d :: post ∧ p.StartFound decode pre d post u v
  else EndFound (deltas.map (p.pieceOf decode))

/-! ## Pieces -/

theorem startToken_eq : startToken = ['<', 't', 'h', 'i', 'n', 'k', '>'] :=
  String.toList_ofList

theorem endToken_eq : endToken = ['<', '/', 't', 'h', 'i', 'n', 'k', '>'] :=
  String.toList_ofList

theorem startToken_length : startToken.length = 7 := by rw [startToken_eq]; rfl

theorem endToken_length : endToken.length = 8 := by rw [endToken_eq]; rfl

theorem startToken_ne_nil : startToken ≠ [] := by simp [startToken_eq]

theorem endToken_ne_nil : endToken ≠ [] := by simp [endToken_eq]

theorem startToken_cons : startToken = '<' :: startToken.tail := by rw [startToken_eq]; rfl

theorem endToken_cons : endToken = '<' :: endToken.tail := by rw [endToken_eq]; rfl

theorem cut_endToken_nil : Text.cut endToken [] = none :=
  Text.cut_eq_none_iff.mpr fun h => endToken_ne_nil (List.infix_nil.mp h)

theorem length_of_cut_end {s a b : Text} (h : Text.cut endToken s = some (a, b)) :
    s.length = a.length + 8 + b.length := by
  have hlen := congrArg List.length (Text.cut_eq h)
  rwa [List.length_append, List.length_append, endToken_length] at hlen

theorem Piece.join_append (xs ys : List Piece) :
    Piece.join (xs ++ ys) = Piece.join xs ++ Piece.join ys :=
  List.flatMap_append

theorem Piece.join_cons (x : Piece) (xs : List Piece) :
    Piece.join (x :: xs) = x.text ++ Piece.join xs :=
  List.flatMap_cons

/-- Without an end token all text goes to one side. -/
theorem splitPieces_of_none {xs : List Piece} (h : ∀ x ∈ xs, x.hasEnd = false) (seen : Bool) :
    splitPieces seen xs = if seen then ([], Piece.join xs) else (Piece.join xs, []) := by
  induction xs with
  | nil => cases seen <;> rfl
  | cons x xs ih =>
    have hx := h x List.mem_cons_self
    rw [splitPieces, hx, Bool.or_false, ih fun y hy => h y (List.mem_cons_of_mem _ hy),
      Piece.split, hx, Piece.join_cons]
    cases seen <;> rfl

theorem splitPieces_append (xs ys : List Piece) (seen : Bool) :
    splitPieces seen (xs ++ ys) =
      ((splitPieces seen xs).1 ++ (splitPieces (seen || xs.any (·.hasEnd)) ys).1,
        (splitPieces seen xs).2 ++ (splitPieces (seen || xs.any (·.hasEnd)) ys).2) := by
  induction xs generalizing seen with
  | nil => simp [splitPieces]
  | cons x xs ih =>
    simp only [List.cons_append, splitPieces, ih, List.any_cons, List.append_assoc, Bool.or_assoc]

/-- With one end token the text is split there. -/
theorem splitPieces_of_one {m l : List Piece} {x : Piece} {r c : Text} (hx : x.hasEnd = true)
    (hml : ∀ y ∈ m ++ l, y.hasEnd = false) (hcut : Text.cut endToken x.text = some (r, c))
    (seen : Bool) (hm : seen = true → Piece.join m = []) :
    splitPieces seen (m ++ x :: l) = (Piece.join m ++ r, c ++ Piece.join l) := by
  have hm_none := splitPieces_of_none (fun y hy => hml y (List.mem_append_left _ hy)) seen
  have hl_none := splitPieces_of_none (fun y hy => hml y (List.mem_append_right _ hy)) true
  rw [splitPieces_append, hm_none, splitPieces, hx, Bool.or_true, hl_none, Piece.split, hx, hcut]
  cases seen with
  | false => simp
  | true => simp [hm rfl]

/-- The stream loses the end tag of every piece with an end token. -/
theorem splitPieces_length {xs : List Piece}
    (h : ∀ x ∈ xs, x.hasEnd = true → endToken <:+: x.text) (seen : Bool) :
    (splitPieces seen xs).1.length + (splitPieces seen xs).2.length +
      8 * xs.countP Piece.hasEnd = (Piece.join xs).length := by
  induction xs generalizing seen with
  | nil => rfl
  | cons x xs ih =>
    have ih := ih (fun y hy => h y (List.mem_cons_of_mem _ hy)) (seen || x.hasEnd)
    rw [splitPieces, Piece.join_cons]
    simp only [List.length_append]
    cases hx : x.hasEnd with
    | false =>
      rw [List.countP_cons_of_neg (by simp [hx])]
      rw [hx] at ih
      cases seen <;> simp [Piece.split, hx] at ih ⊢ <;> omega
    | true =>
      obtain ⟨a, b, hab⟩ := Text.exists_cut (h x List.mem_cons_self hx)
      have hlen := length_of_cut_end hab
      have hsplit : x.split seen = (a, b) := by rw [Piece.split, hx, hab]; rfl
      rw [List.countP_cons_of_pos hx, hsplit]
      rw [hx] at ih
      dsimp only
      omega

/-- The pieces before the first end token. -/
theorem join_takeWhile_nil {m l : List Piece} {x : Piece} (hm : ∀ y ∈ m, y.hasEnd = false)
    (h : ∀ y ∈ (m ++ x :: l).takeWhile (fun y => !y.hasEnd), y.text = []) :
    Piece.join m = [] := by
  refine List.flatMap_eq_nil_iff.mpr fun y hy => h y ?_
  rw [List.takeWhile_append_of_pos fun z hz => by simp [hm z hz]]
  exact List.mem_append_left _ hy

/-- If the end token is found once, the pieces are split at the first end tag. -/
theorem splitPieces_of_endFound {xs : List Piece}
    (htag : ∀ x ∈ xs, x.hasEnd = true → endToken <:+: x.text) (h : EndFound xs) (seen : Bool)
    (hseen : seen = true → ∀ x ∈ xs.takeWhile (fun x => !x.hasEnd), x.text = []) :
    splitPieces seen xs = (Text.cut endToken (Piece.join xs)).getD (Piece.join xs, []) := by
  rcases h with hnone | ⟨m, x, l, r, c, rfl, hx, hml, hcut, hcut'⟩
  · have hno : ∀ x ∈ xs, x.hasEnd = false := by
      intro x hx
      refine Bool.eq_false_iff.mpr fun he => Text.cut_eq_none_iff.mp hnone ?_
      refine (htag x hx he).trans ?_
      obtain ⟨a, b, rfl⟩ := List.append_of_mem hx
      rw [Piece.join_append, Piece.join_cons]
      exact ⟨Piece.join a, Piece.join b, by simp⟩
    rw [splitPieces_of_none hno, hnone]
    cases seen with
    | false => rfl
    | true =>
      have hall : Piece.join xs = [] := by
        refine List.flatMap_eq_nil_iff.mpr fun y hy => hseen rfl y ?_
        rw [List.takeWhile_eq_self_iff.mpr fun z hz => by simp [hno z hz]]
        exact hy
      simp [hall]
  · have hm := fun y hy => hml y (List.mem_append_left _ hy)
    rw [splitPieces_of_one hx hml hcut seen fun he => join_takeWhile_nil hm (hseen he), hcut']
    rfl

/-- And only then. -/
theorem endFound_of_splitPieces {xs : List Piece}
    (htag : ∀ x ∈ xs, x.hasEnd = true → endToken <:+: x.text)
    (h : splitPieces false xs = (Text.cut endToken (Piece.join xs)).getD (Piece.join xs, [])) :
    EndFound xs := by
  cases hcut : Text.cut endToken (Piece.join xs) with
  | none => exact .inl hcut
  | some ab =>
    obtain ⟨a, b⟩ := ab
    rw [hcut, Option.getD_some] at h
    have hlen := splitPieces_length htag false
    have hlen' := length_of_cut_end hcut
    rw [h] at hlen
    dsimp only at hlen
    have hone : xs.countP Piece.hasEnd = 1 := by omega
    obtain ⟨x, hx, he⟩ := List.countP_pos_iff.mp (by omega : 0 < xs.countP Piece.hasEnd)
    obtain ⟨m, l, rfl⟩ := List.append_of_mem hx
    rw [List.countP_append, List.countP_cons_of_pos he] at hone
    have hml : ∀ y ∈ m ++ l, y.hasEnd = false := by
      intro y hy
      have hzero : (m ++ l).countP Piece.hasEnd = 0 := by
        rw [List.countP_append]
        omega
      exact Bool.eq_false_iff.mpr (List.countP_eq_zero.mp hzero y hy)
    obtain ⟨r, c, hrc⟩ := Text.exists_cut (htag x hx he)
    have hsplit := splitPieces_of_one he hml hrc false (fun h => nomatch h)
    rw [hsplit] at h
    refine .inr ⟨m, x, l, r, c, rfl, he, hml, hrc, ?_⟩
    rw [hcut, h]

/-! ## One delta -/

section

variable {p : Qwen3ReasoningParser} {decode : Nat → Text}

theorem render_append (a b : List Nat) : render decode (a ++ b) = render decode a ++ render decode b :=
  List.flatMap_append

/-- A token's text is in the text. -/
theorem infix_decode {d : List Nat} {t : Nat} (ht : t ∈ d) : decode t <:+: render decode d := by
  obtain ⟨a, b, rfl⟩ := List.append_of_mem ht
  exact ⟨render decode a, render decode b, by simp [render]⟩

theorem infix_render {d : List Nat} {deltas : List (List Nat)} (hd : d ∈ deltas) :
    render decode d <:+: render decode deltas.flatten := by
  obtain ⟨a, b, rfl⟩ := List.append_of_mem hd
  rw [List.flatten_append, List.flatten_cons, render_append, render_append]
  exact ⟨render decode a.flatten, render decode b.flatten, by simp⟩

theorem stripStart_of_cut {T u v : Text} {d : List Nat} (hd : p.startTokenId ∈ d)
    (h : Text.cut startToken T = some (u, v)) : p.stripStart T d = v := by
  obtain ⟨i, hi, huv⟩ := Option.map_eq_some_iff.mp h
  rw [stripStart, if_pos hd, hi]
  exact (Prod.mk.inj huv).2

theorem stripStart_of_not_mem {T : Text} {d : List Nat} (hd : p.startTokenId ∉ d) :
    p.stripStart T d = T := by
  rw [stripStart, if_neg hd]

/-- With thinking disabled the text goes through as it is. -/
theorem texts_disabled (h : p.thinkingEnabled = false) (T : Text) (prev d : List Nat) :
    texts (p.extractReasoningStreaming T prev d) = ([], T) := by
  rw [extractReasoningStreaming, if_pos h]
  by_cases hT : T = []
  · rw [if_neg (not_not.mpr hT), hT]
    rfl
  · rw [if_pos hT]
    rfl

/-- What is answered for a delta, by its stripped text. -/
theorem texts_enabled (h : p.thinkingEnabled = true) (T : Text) (prev d : List Nat) :
    texts (p.extractReasoningStreaming T prev d) =
      (⟨p.stripStart T d, p.endTokenId ∈ d⟩ : Piece).split (p.endTokenId ∈ prev) := by
  rw [extractReasoningStreaming, if_neg (by rw [h]; decide), Piece.split]
  by_cases hd : p.endTokenId ∈ d
  · simp only [hd, if_true, decide_true, Text.cut]
    cases hf : Text.find endToken (p.stripStart T d) with
    | none => rfl
    | some i =>
      simp only [Option.map_some, Option.getD_some]
      split
      · next hnil =>
        rw [hnil.1, hnil.2]
        rfl
      · simp [texts]
  · simp only [hd, if_false, decide_false, Bool.false_eq_true]
    by_cases hT : p.stripStart T d = []
    · rw [if_pos hT, hT]
      split <;> rfl
    · rw [if_neg hT]
      by_cases hprev : p.endTokenId ∈ prev
      · simp only [hprev, if_true, decide_true]
        rfl
      · simp only [hprev, if_false, decide_false, Bool.false_eq_true]
        rfl

/-! ## The stream -/

theorem streamTexts_append (prev : List Nat) (a b : List (List Nat)) :
    streamTexts p decode prev (a ++ b) =
      ((streamTexts p decode prev a).1 ++ (streamTexts p decode (prev ++ a.flatten) b).1,
        (streamTexts p decode prev a).2 ++ (streamTexts p decode (prev ++ a.flatten) b).2) := by
  induction a generalizing prev with
  | nil => simp [streamTexts]
  | cons d a ih =>
    simp only [List.cons_append, streamTexts, ih, List.flatten_cons, List.append_assoc]

theorem streamTexts_disabled (h : p.thinkingEnabled = false) (prev : List Nat)
    (deltas : List (List Nat)) :
    streamTexts p decode prev deltas = ([], render decode deltas.flatten) := by
  induction deltas generalizing prev with
  | nil => rfl
  | cons d ds ih =>
    rw [streamTexts, ih, texts_disabled h, List.flatten_cons, render_append]
    rfl

/-- Deltas without a start token are split as pieces. -/
theorem streamTexts_eq_split (h : p.thinkingEnabled = true) (prev : List Nat)
    (deltas : List (List Nat)) (hstart : ∀ d ∈ deltas, p.startTokenId ∉ d) :
    streamTexts p decode prev deltas =
      splitPieces (p.endTokenId ∈ prev) (deltas.map (p.pieceOf decode)) := by
  induction deltas generalizing prev with
  | nil => rfl
  | cons d ds ih =>
    have hd := hstart d List.mem_cons_self
    rw [streamTexts, ih _ fun x hx => hstart x (List.mem_cons_of_mem _ hx), texts_enabled h,
      stripStart_of_not_mem hd, List.map_cons, splitPieces]
    simp only [pieceOf, List.mem_append, Bool.decide_or]

/-- Silent deltas are answered by nothing. -/
theorem streamTexts_silent (h : p.thinkingEnabled = true) (prev : List Nat)
    (pre : List (List Nat)) (hpre : ∀ x ∈ pre, p.Silent decode x) :
    streamTexts p decode prev pre = ([], []) := by
  induction pre generalizing prev with
  | nil => rfl
  | cons d ds ih =>
    obtain ⟨hd, hsilent⟩ := hpre d List.mem_cons_self
    have hone : texts (p.extractReasoningStreaming (render decode d) prev d) = ([], []) := by
      rw [texts_enabled h, stripStart_of_not_mem hd, Piece.split]
      rcases hsilent with hnil | ⟨he, htext⟩
      · rw [hnil, cut_endToken_nil]
        split
        · rfl
        · split <;> rfl
      · have hcut : Text.cut endToken endToken = some ([], []) := by
          rw [endToken_eq]
          decide
        rw [htext, hcut, if_pos (decide_eq_true he)]
        rfl
    rw [streamTexts, ih _ fun x hx => hpre x (List.mem_cons_of_mem _ hx), hone]
    rfl

/-! ## The whole text -/

/-- The text after the first start tag, or the whole text. -/
def bodyText (text : Text) : Text := ((Text.cut startToken text).map Prod.snd).getD text

theorem partition_start (text : Text) : (if (Text.partition text startToken).2.1 ≠ [] then
      (Text.partition text startToken).2.2 else (Text.partition text startToken).1) =
      bodyText text := by
  rw [Text.partition, bodyText]
  cases hcut : Text.cut startToken text with
  | none => rfl
  | some ab =>
    have hne := startToken_ne_nil
    exact if_pos hne

theorem extractReasoning_texts (text : Text) :
    ((p.extractReasoning text).1.getD [], (p.extractReasoning text).2.getD []) =
      if p.thinkingEnabled = false then
        ([], ((Text.cut endToken (bodyText text)).map Prod.snd).getD (bodyText text))
      else (Text.cut endToken (bodyText text)).getD (bodyText text, []) := by
  have hbody : (if (Text.partition text startToken).2.1 ≠ [] then
      (Text.partition text startToken).2.2 else (Text.partition text startToken).1) =
      bodyText text := partition_start text
  rw [extractReasoning]
  simp only [hbody]
  rw [Text.contains_eq, Text.partition]
  cases hcut : Text.cut endToken (bodyText text) with
  | none => cases p.thinkingEnabled <;> simp
  | some ab => cases p.thinkingEnabled <;> simp

/-! ## Tags do not overlap -/

/-- A `<` after a start tag is behind all of it. -/
theorem bracket_after_start {y a z : Text} (h : startToken ++ y = a ++ '<' :: z) :
    a = [] ∨ ∃ a', a = startToken ++ a' ∧ y = a' ++ '<' :: z := by
  rcases List.append_eq_append_iff.mp h with ⟨a', rfl, hy⟩ | ⟨c, hstart, hz⟩
  · exact .inr ⟨a', rfl, hy⟩
  · cases c with
    | nil => exact .inr ⟨[], by simpa using hstart.symm, by simpa using hz.symm⟩
    | cons x c =>
      obtain rfl : '<' = x := (List.cons.inj hz).1
      cases a with
      | nil => exact .inl rfl
      | cons x a =>
        have hmem : '<' ∈ startToken.tail := by
          rw [hstart]
          simp
        rw [startToken_eq] at hmem
        exact absurd hmem (by decide)

/-- A text that begins with the only start tag. -/
theorem start_unique {y a b : Text} (hy : ¬ startToken <:+: y)
    (h : startToken ++ y = a ++ startToken ++ b) : a = [] ∧ y = b := by
  have h' := h
  rw [List.append_assoc, startToken_cons, List.cons_append, ← startToken_cons] at h'
  rcases bracket_after_start (startToken_cons ▸ h') with rfl | ⟨a', rfl, hy'⟩
  · exact ⟨rfl, List.append_cancel_left h⟩
  · refine absurd ⟨a', b, ?_⟩ hy
    rw [hy', List.append_assoc]
    congr 1

theorem end_infix_of_start_append {y : Text} (h : endToken <:+: startToken ++ y) :
    endToken <:+: y := by
  obtain ⟨a, b, hab⟩ := h
  have h' : startToken ++ y = a ++ '<' :: (endToken.tail ++ b) := by
    rw [← hab, List.append_assoc, ← List.cons_append, ← endToken_cons]
  rcases bracket_after_start h' with rfl | ⟨a', rfl, hy⟩
  · -- The two tags differ in their second character.
    rw [startToken_eq, endToken_eq] at hab
    simp at hab
  · refine ⟨a', b, ?_⟩
    rw [hy, List.append_assoc, ← List.cons_append, ← endToken_cons]

theorem cut_start_append (y : Text) : Text.cut startToken (startToken ++ y) = some ([], y) := by
  have hfind : Text.find startToken (startToken ++ y) = some 0 := by
    have hp : startToken.isPrefixOf (startToken ++ y) = true :=
      List.isPrefixOf_iff_prefix.mpr (List.prefix_append _ _)
    rw [startToken_cons] at hp ⊢
    rw [List.cons_append] at hp ⊢
    rw [Text.find, if_pos hp]
  rw [Text.cut, hfind, Option.map_some, Nat.zero_add, List.take_zero, List.drop_left]

end

end Qwen3ReasoningParser

end Bi100
