import Bi100.Base
import Mathlib.Data.List.DropRight
import Mathlib.Algebra.Order.Ring.Int

/-!
# The convolution state of a GatedDeltaNet layer (`qwen3_5.py`)

The causal convolution of a sequence needs the last `kernel - 1` columns before a chunk. The prefill
branch of `GatedDeltaNet.forward` saves them after each chunk, `_torch_causal_conv1d_update` after
each decoded token.

- `window`: the last columns of a state and the stream after it.
- `captured_eq_window`, `decodeTokens_eq`: a captured state and the decode path's state are windows.
- `prefill_window_iff`: the prefill branch fills up a chunk that is shorter than the state with
  zeros, so its state is the window if and only if it carries no other columns than zeros.

A column is a value of a type `C`, with one entry for each channel.
-/

namespace Bi100.Gdn

variable {C : Type} {stateLen : Nat}

/-- The conv state of a sequence: `stateLen` columns. -/
@[ext] structure ConvState (C : Type) (stateLen : Nat) where
  columns : List C
  width : columns.length = stateLen
deriving DecidableEq

/-- `x[..., -n:]`. As `-0` is `0`, the slice of the last `0` columns has them all. -/
def lastColumns (n : Nat) (x : List C) : List C := if n = 0 then x else x.rtake n

/-- `copy_` to `width` columns. A single column is repeated; any other number of columns has to
fit. -/
def copyColumns (width : Nat) (src : List C) : Option (ConvState C width) :=
  if h : src.length = width then some ⟨src, h⟩
  else
    match src with
    | [x] => some ⟨List.replicate width x, List.length_replicate⟩
    | _ => none

/-- The prefill branch of `GatedDeltaNet.forward` saves the conv state after a chunk
`mixed_qkv`. -/
def saveConvState [Zero C] (_convState : ConvState C stateLen) (mixedQkv : List C) :
    Option (ConvState C stateLen) :=
  if h : stateLen ≤ mixedQkv.length then copyColumns stateLen (lastColumns stateLen mixedQkv)
  else some ⟨List.replicate (stateLen - mixedQkv.length) 0 ++ mixedQkv, by
    rw [List.length_append, List.length_replicate]
    omega⟩

/-- The state that `_torch_causal_conv1d_update` leaves. -/
def causalConv1dUpdate (convState : ConvState C stateLen) (hiddenState : C) :
    Option (ConvState C stateLen) :=
  copyColumns stateLen (lastColumns stateLen (convState.columns ++ [hiddenState]))

/-- The chunks of a stream, one after another. -/
def prefillChunks [Zero C] (convState : ConvState C stateLen) (chunks : List (List C)) :
    Option (ConvState C stateLen) := chunks.foldlM saveConvState convState

/-- The tokens of a stream, one after another. -/
def decodeTokens (convState : ConvState C stateLen) (tokens : List C) :
    Option (ConvState C stateLen) := tokens.foldlM causalConv1dUpdate convState

/-! ## The window -/

/-- The last columns of a concatenation are those of its parts. -/
theorem rtake_append (n : Nat) (l₁ l₂ : List C) :
    (l₁ ++ l₂).rtake n = l₁.rtake (n - l₂.length) ++ l₂.rtake n := by
  unfold List.rtake
  rw [List.length_append, List.drop_append]
  have hright : l₁.length + l₂.length - n - l₁.length = l₂.length - n := by omega
  rw [hright]
  congr 1
  by_cases h : n ≤ l₂.length
  · rw [List.drop_eq_nil_of_le (by omega : l₁.length ≤ l₁.length + l₂.length - n),
      List.drop_eq_nil_of_le (by omega)]
  · congr 1
    omega

theorem length_rtake (n : Nat) (l : List C) : (l.rtake n).length = min n l.length := by
  rw [List.rtake, List.length_drop]
  omega

/-- What was dropped once does not come back. -/
theorem rtake_rtake_append (n : Nat) (l₁ l₂ : List C) :
    (l₁.rtake n ++ l₂).rtake n = (l₁ ++ l₂).rtake n := by
  rw [rtake_append, rtake_append n l₁]
  congr 1
  unfold List.rtake
  rw [List.length_drop, List.drop_drop]
  congr 1
  omega

/-- The last columns of a state followed by a stream. -/
def window (convState : ConvState C stateLen) (stream : List C) : ConvState C stateLen where
  columns := (convState.columns ++ stream).rtake stateLen
  width := by
    rw [length_rtake, List.length_append, convState.width]
    omega

theorem window_nil (state : ConvState C stateLen) : window state [] = state := by
  refine ConvState.ext ?_
  show (state.columns ++ []).rtake stateLen = state.columns
  rw [List.append_nil, List.rtake, state.width, Nat.sub_self, List.drop_zero]

theorem window_append (state : ConvState C stateLen) (s₁ s₂ : List C) :
    window (window state s₁) s₂ = window state (s₁ ++ s₂) := by
  refine ConvState.ext ?_
  show ((state.columns ++ s₁).rtake stateLen ++ s₂).rtake stateLen =
    (state.columns ++ (s₁ ++ s₂)).rtake stateLen
  rw [rtake_rtake_append, List.append_assoc]

/-- There is one state without columns. -/
theorem ConvState.eq_of_zero (s t : ConvState C 0) : s = t := by
  refine ConvState.ext ?_
  rw [List.length_eq_zero_iff.mp s.width, List.length_eq_zero_iff.mp t.width]

/-! ## What the paths save -/

/-- A decoded token shifts the state by a column. -/
theorem causalConv1dUpdate_eq (state : ConvState C stateLen) (x : C) :
    causalConv1dUpdate state x = some (window state [x]) := by
  unfold causalConv1dUpdate lastColumns copyColumns
  cases stateLen with
  | zero =>
    have hnil : state.columns = [] := List.length_eq_zero_iff.mp state.width
    rw [if_pos rfl, hnil, List.nil_append, dif_neg (by simp)]
    exact congrArg some (ConvState.eq_of_zero _ _)
  | succ n =>
    have hwidth : ((state.columns ++ [x]).rtake (n + 1)).length = n + 1 := (window state [x]).width
    rw [if_neg (Nat.succ_ne_zero n), dif_pos hwidth]
    rfl

theorem decodeTokens_eq (state : ConvState C stateLen) (tokens : List C) :
    decodeTokens state tokens = some (window state tokens) := by
  unfold decodeTokens
  induction tokens generalizing state with
  | nil => exact congrArg some (window_nil state).symm
  | cons x rest ih =>
    rw [List.foldlM_cons, causalConv1dUpdate_eq]
    show rest.foldlM causalConv1dUpdate (window state [x]) = _
    rw [ih, window_append, List.singleton_append]

variable [Zero C]

/-- A saved state has the last columns of the chunk alone. -/
theorem saveConvState_eq (hpos : 0 < stateLen) (state : ConvState C stateLen) (chunk : List C) :
    (saveConvState state chunk).map ConvState.columns =
      some (List.replicate (stateLen - chunk.length) 0 ++ chunk.rtake stateLen) := by
  unfold saveConvState lastColumns copyColumns
  split
  · next h =>
    have hlen : (chunk.rtake stateLen).length = stateLen := by
      rw [length_rtake]
      omega
    rw [if_neg hpos.ne', dif_pos hlen, Nat.sub_eq_zero_of_le h]
    rfl
  · next h =>
    have hall : chunk.rtake stateLen = chunk := by
      rw [List.rtake, Nat.sub_eq_zero_of_le (by omega : chunk.length ≤ stateLen), List.drop_zero]
    rw [hall]
    rfl

/-- Without columns, a chunk of several tokens does not fit. -/
theorem saveConvState_zero (state : ConvState C 0) (chunk : List C) :
    saveConvState state chunk = if chunk.length ≤ 1 then some state else none := by
  unfold saveConvState lastColumns copyColumns
  rw [dif_pos (Nat.zero_le _), if_pos rfl]
  match chunk with
  | [] => exact congrArg some (ConvState.eq_of_zero _ _)
  | [x] => exact congrArg some (ConvState.eq_of_zero _ _)
  | x :: y :: rest => rfl

theorem prefillChunks_zero (state : ConvState C 0) (chunks : List (List C)) :
    prefillChunks state chunks =
      if ∀ chunk ∈ chunks, chunk.length ≤ 1 then some state else none := by
  unfold prefillChunks
  induction chunks with
  | nil => rw [if_pos fun chunk h => absurd h List.not_mem_nil]; rfl
  | cons chunk rest ih =>
    rw [List.foldlM_cons, saveConvState_zero]
    by_cases h : chunk.length ≤ 1
    · rw [if_pos h]
      show rest.foldlM saveConvState state = _
      rw [ih]
      refine if_congr ?_ rfl rfl
      rw [List.forall_mem_cons, and_iff_right h]
    · rw [if_neg h, if_neg fun hall => h (hall chunk List.mem_cons_self)]
      rfl

/-- Only the last chunk counts. -/
theorem prefillChunks_concat (hpos : 0 < stateLen) (state : ConvState C stateLen)
    (chunks : List (List C)) (chunk : List C) :
    (prefillChunks state (chunks ++ [chunk])).map ConvState.columns =
      some (List.replicate (stateLen - chunk.length) 0 ++ chunk.rtake stateLen) := by
  have hok : ∃ s, prefillChunks state chunks = some s := by
    unfold prefillChunks
    induction chunks generalizing state with
    | nil => exact ⟨state, rfl⟩
    | cons c rest ih =>
      obtain ⟨s, hs, -⟩ := Option.map_eq_some_iff.mp (saveConvState_eq hpos state c)
      rw [List.foldlM_cons, hs]
      exact ih s
  obtain ⟨s, hs⟩ := hok
  unfold prefillChunks at hs ⊢
  rw [List.foldlM_append, hs]
  show (([chunk] : List (List C)).foldlM saveConvState s).map ConvState.columns = _
  rw [List.foldlM_cons]
  show ((saveConvState s chunk).bind some).map ConvState.columns = _
  rw [Option.bind_fun_some]
  exact saveConvState_eq hpos s chunk

/-! ## When the chunks do not matter -/

/-- The columns that the last chunk leaves in the window are zero. Without a convolution window no
chunk has several tokens. -/
def CarriesZeros (state : ConvState C stateLen) (chunks : List (List C)) : Prop :=
  (stateLen = 0 → ∀ chunk ∈ chunks, chunk.length ≤ 1) ∧
  ∀ chunk ∈ chunks.getLast?, ∀ x ∈ (state.columns ++ chunks.dropLast.flatten).rtake
    (stateLen - chunk.length), x = 0

/-- **The conv state after the last chunk is the window that decoding the stream token by token
leaves**, if and only if that window has only zeros before the last chunk. -/
theorem prefill_window_iff (state : ConvState C stateLen) (chunks : List (List C)) :
    (prefillChunks state chunks = some (window state chunks.flatten) ∧
      decodeTokens state chunks.flatten = some (window state chunks.flatten)) ↔
      CarriesZeros state chunks := by
  rw [and_iff_left (decodeTokens_eq state _)]
  unfold CarriesZeros
  rcases Nat.eq_zero_or_pos stateLen with rfl | hpos
  · rw [prefillChunks_zero]
    constructor
    · intro h
      by_cases hall : ∀ chunk ∈ chunks, chunk.length ≤ 1
      · refine ⟨fun _ => hall, fun chunk _ x hx => absurd hx ?_⟩
        rw [Nat.zero_sub, List.rtake_zero]
        exact List.not_mem_nil
      · rw [if_neg hall] at h
        cases h
    · intro h
      rw [if_pos (h.1 rfl)]
      exact congrArg some (ConvState.eq_of_zero _ _)
  · rw [and_iff_right fun h => absurd h hpos.ne']
    rcases List.eq_nil_or_concat' chunks with rfl | ⟨front, last, rfl⟩
    · refine iff_of_true ?_ fun chunk h => nomatch h
      show some state = some (window state [])
      rw [window_nil]
    · have hlast : (front ++ [last]).getLast? = some last := List.getLast?_concat
      have hwindow : (window state (front ++ [last]).flatten).columns =
          (state.columns ++ front.flatten).rtake (stateLen - last.length) ++
            last.rtake stateLen := by
        show (state.columns ++ (front ++ [last]).flatten).rtake stateLen = _
        rw [List.flatten_append, List.flatten_singleton, ← List.append_assoc, rtake_append]
      have hlen : ((state.columns ++ front.flatten).rtake (stateLen - last.length)).length =
          stateLen - last.length := by
        rw [length_rtake, List.length_append, state.width]
        omega
      have hsaved := prefillChunks_concat hpos state front last
      obtain ⟨s, hs, hcols⟩ := Option.map_eq_some_iff.mp hsaved
      rw [hs, hlast, List.dropLast_concat, Option.some.injEq, ConvState.ext_iff, hcols, hwindow,
        List.append_cancel_right_eq]
      constructor
      · rintro heq chunk h
        obtain rfl := Option.some.inj h
        rw [← heq]
        exact fun x hx => List.eq_of_mem_replicate hx
      · intro h
        exact (List.eq_replicate_of_mem (h last rfl)).trans (by rw [hlen]) |>.symm

/-- A chunk of one token forgets the two columns before it. -/
theorem prefill_forgets : prefillChunks (⟨[1, 2, 3], rfl⟩ : ConvState Nat 3) [[4]] ≠
    some (window ⟨[1, 2, 3], rfl⟩ [4]) := by decide

end Bi100.Gdn
