import Bi100.Scheduler.ResumeCuts

/-!
# Captured keys are eligible (`final_capture_key`, `restore_key_is_eligible`)

- `finalCaptureKey_boundary`: where the state of a captured key ends.
- `restoreKeyIsEligible_eq`: what is asked of a key.
- `captured_is_eligible`: the scheduler may restore the final key that an identical prompt captured.
- `replay_le_of_eligible`: a restored key leaves something to replay: two tokens in the modes
  that restore a state inside a kernel chunk, one in the modes that replay whole chunks.
-/

namespace Bi100.Scheduler

open Py

variable {D : Type} {blockHashes : List D} {key : GdnPrefixKey D} {n bs alignment : Nat}
  {mode : GdnRestoreMode}

/-- The `direct_final_key` that the scheduler passes. -/
def directFinalKey (blockHashes : List D) (promptTokens blockSize : Nat) (mode : GdnRestoreMode) :
    Except Err (Option (GdnPrefixKey D)) := do
  let final ← finalCaptureKey blockHashes promptTokens blockSize .direct blockSize
  return if mode = .hybrid64 then final else none

/-- The tokens that a restored key has to leave. -/
def minReplayTokens : GdnRestoreMode → Nat
  | .direct | .hybrid64 => gdnDirectMinReplayTokens
  | .chunk64 | .aligned => 1

/-! ## Captured keys -/

theorem keyOfBlockCount_eq_some {c : Nat} (h : keyOfBlockCount blockHashes c = .ok (some key)) :
    key.1 = c ∧ 0 < c := by
  unfold keyOfBlockCount at h
  split at h
  · cases h
  · next hc =>
    split at h
    · next digest _ =>
      rw [makePrefixKey, guardNot_bind, if_neg hc] at h
      cases h
      exact ⟨rfl, Nat.pos_of_ne_zero hc⟩
    · cases h

/-- A key that is stepped back for leaves two tokens. -/
theorem replayBlocks_replay (hbs : 0 < bs) (h : 0 < replayBlocks bs n) :
    replayBlocks bs n * bs + gdnDirectMinReplayTokens ≤ n := by
  have htwo : gdnDirectMinReplayTokens = 2 := rfl
  have hle := Nat.mul_le_mul_right bs (replayBlocks_le bs n)
  have hdiv := Nat.div_mul_le_self (n - 1) bs
  have hblock := Nat.mul_le_mul_right bs h
  unfold replayBlocks at h hle hblock ⊢
  split_ifs at h hle hblock ⊢ with hback
  · obtain ⟨q, hq⟩ := Nat.exists_eq_succ_of_ne_zero hback.1.ne'
    rw [hq, Nat.succ_mul] at hback hdiv
    rw [hq, Nat.succ_sub_one]
    omega
  · omega

/-- Where the state of a captured key ends: with two tokens to go, or at the last boundary before
the end of the prompt. -/
def CapturedAt (n bs : Nat) (mode : GdnRestoreMode) (alignment c : Nat) : Prop :=
  match mode with
  | .direct | .hybrid64 => c = replayBlocks bs n
  | .chunk64 | .aligned => 0 < alignment ∧ 1 < n ∧ c * bs = (n - 1) / alignment * alignment

/-- `hcover`: the hashes cover the complete blocks of the prompt. -/
theorem finalCaptureKey_boundary (hcover : n / bs ≤ blockHashes.length)
    (h : finalCaptureKey blockHashes n bs mode alignment = .ok (some key)) :
    0 < bs ∧ 0 < key.1 ∧ CapturedAt n bs mode alignment key.1 := by
  by_cases hmode : mode = .direct ∨ mode = .hybrid64
  · have hbs : 0 < bs := by
      unfold finalCaptureKey strictPrefixBlockCount at h
      rw [if_pos hmode] at h
      obtain ⟨_, hstrict, -⟩ := bind_eq_ok.mp h
      exact Nat.pos_of_ne_zero (guardNot_bind_eq_ok.mp hstrict).1
    have hstrict : (n - 1) / bs ≤ blockHashes.length :=
      (Nat.div_le_div_right (Nat.sub_le n 1)).trans hcover
    rw [finalCaptureKey_eq hmode hbs hstrict] at h
    obtain ⟨hkey, hpos⟩ := keyOfBlockCount_eq_some h
    refine ⟨hbs, hkey ▸ hpos, ?_⟩
    rcases hmode with rfl | rfl <;> exact hkey
  · unfold finalCaptureKey at h
    rw [if_neg hmode] at h
    split at h
    · cases h
    · next halign =>
      obtain ⟨hbs, h⟩ := guardNot_bind_eq_ok.mp h
      split at h
      · cases h
      · next hok =>
        rw [not_or, not_not] at hok
        obtain ⟨hkey, hpos⟩ := keyOfBlockCount_eq_some h
        refine ⟨Nat.pos_of_ne_zero hbs, hkey ▸ hpos, ?_⟩
        have hle : (n - 1) / alignment * alignment / bs ≤ blockHashes.length := by
          refine le_trans (Nat.div_le_div_right ?_) hcover
          exact (Nat.div_mul_le_self _ _).trans (Nat.sub_le _ _)
        have hboundary : key.1 * bs = (n - 1) / alignment * alignment := by
          rw [hkey, Nat.min_eq_right hle]
          exact Nat.div_mul_cancel ((Nat.dvd_of_mod_eq_zero hok.1).mul_left _)
        have hcaptured := And.intro (Nat.pos_of_ne_zero halign)
          (And.intro (Nat.lt_of_not_le hok.2) hboundary)
        cases mode with
        | direct => exact absurd (.inl rfl) hmode
        | hybrid64 => exact absurd (.inr rfl) hmode
        | chunk64 => exact hcaptured
        | aligned => exact hcaptured

/-! ## Eligible keys -/

/-- What `restore_key_is_eligible` asks of a key that leaves something to replay. -/
def MayRestore [DecidableEq D] (key : GdnPrefixKey D) (n bs : Nat) (mode : GdnRestoreMode)
    (alignment : Nat) (final : Option (GdnPrefixKey D)) : Prop :=
  match mode with
  | .direct => key.1 * bs + gdnDirectMinReplayTokens ≤ n
  | .hybrid64 => key.1 * bs + gdnDirectMinReplayTokens ≤ n ∧ 0 < alignment ∧
    (key.1 * bs % alignment = 0 ∨ some key = final)
  | .chunk64 | .aligned => key.1 * bs < n ∧ 0 < alignment ∧ key.1 * bs % alignment = 0

variable [DecidableEq D] {final : Option (GdnPrefixKey D)}

/-- A key of at least one block is eligible or not. -/
theorem restoreKeyIsEligible_eq (hbs : 0 < bs) (hkey : 0 < key.1)
    (hfinal : mode = .hybrid64 → ∀ k ∈ final, 0 < k.1) :
    ∃ b, restoreKeyIsEligible key n bs mode alignment final = .ok b ∧
      (b = true ↔ MayRestore key n bs mode alignment final) := by
  have htwo : gdnDirectMinReplayTokens = 2 := rfl
  unfold restoreKeyIsEligible makePrefixKey
  rw [guardNot_bind, if_neg hkey.ne']
  show ∃ b, (guardNot (bs = 0) _ >>= _) = Except.ok b ∧ _
  rw [guardNot_bind, if_neg hbs.ne']
  dsimp only
  split_ifs with hzero
  · refine ⟨false, rfl, ?_⟩
    unfold MayRestore
    cases mode <;> simp <;> omega
  cases mode with
  | direct =>
    refine ⟨_, rfl, ?_⟩
    rw [decide_eq_true_eq]
    show _ ↔ key.1 * bs + gdnDirectMinReplayTokens ≤ n
    omega
  | chunk64 =>
    refine ⟨_, rfl, ?_⟩
    rw [decide_eq_true_eq]
    show _ ↔ key.1 * bs < n ∧ _
    omega
  | aligned =>
    refine ⟨_, rfl, ?_⟩
    rw [decide_eq_true_eq]
    show _ ↔ key.1 * bs < n ∧ _
    omega
  | hybrid64 =>
    have hiff : gdnDirectMinReplayTokens ≤ n - key.1 * bs ∧ 0 < alignment ∧
        (key.1 * bs % alignment = 0 ∨ some key = final) ↔
          MayRestore key n bs .hybrid64 alignment final := by
      show _ ↔ key.1 * bs + gdnDirectMinReplayTokens ≤ n ∧ _
      rw [Nat.le_sub_iff_add_le' (by omega)]
    cases final with
    | none => exact ⟨_, rfl, by rw [decide_eq_true_eq]; exact hiff⟩
    | some k =>
      dsimp only
      rw [guardNot_bind, if_neg (hfinal rfl k rfl).ne']
      exact ⟨_, rfl, by rw [decide_eq_true_eq]; exact hiff⟩

/-- The checks that a key has passed. -/
theorem checked_of_eligible
    (h : restoreKeyIsEligible key n bs mode alignment final = .ok true) :
    0 < bs ∧ 0 < key.1 ∧ (mode = .hybrid64 → ∀ k ∈ final, 0 < k.1) := by
  unfold restoreKeyIsEligible makePrefixKey at h
  obtain ⟨_, hkey, h⟩ := bind_eq_ok.mp h
  obtain ⟨hbs, h⟩ := guardNot_bind_eq_ok.mp h
  refine ⟨Nat.pos_of_ne_zero hbs, Nat.pos_of_ne_zero (guardNot_bind_eq_ok.mp hkey).1, ?_⟩
  rintro rfl k rfl
  dsimp only at h
  split_ifs at h
  · cases h
  · obtain ⟨_, hk, -⟩ := bind_eq_ok.mp h
    exact Nat.pos_of_ne_zero (guardNot_bind_eq_ok.mp hk).1

theorem mayRestore_of_eligible
    (h : restoreKeyIsEligible key n bs mode alignment final = .ok true) :
    MayRestore key n bs mode alignment final := by
  obtain ⟨hbs, hkey, hfinal⟩ := checked_of_eligible h
  have hchecked : ∃ b, restoreKeyIsEligible key n bs mode alignment final = .ok b ∧
    (b = true ↔ MayRestore key n bs mode alignment final) :=
      restoreKeyIsEligible_eq hbs hkey hfinal
  obtain ⟨b, hb, hiff⟩ := hchecked
  rw [h] at hb
  cases hb
  exact hiff.mp rfl

/-- An eligible key leaves the tokens that its mode asks for. -/
theorem replay_le_of_eligible
    (h : restoreKeyIsEligible key n bs mode alignment final = .ok true) :
    key.1 * bs + minReplayTokens mode ≤ n := by
  have hmay := mayRestore_of_eligible h
  cases mode with
  | direct => exact hmay
  | hybrid64 => exact hmay.1
  | chunk64 => exact hmay.1
  | aligned => exact hmay.1

/-! ## Reuse -/

omit [DecidableEq D] in
theorem directFinalKey_ok (hbs : 0 < bs) (hcover : n / bs ≤ blockHashes.length)
    (mode : GdnRestoreMode) : ∃ final, directFinalKey blockHashes n bs mode = .ok final := by
  have hstrict : (n - 1) / bs ≤ blockHashes.length :=
    (Nat.div_le_div_right (Nat.sub_le n 1)).trans hcover
  obtain ⟨o, ho, -⟩ := keyOfBlockCount_ok ((replayBlocks_le bs n).trans hstrict)
  exact ⟨_, by rw [directFinalKey, finalCaptureKey_eq (.inl rfl) hbs hstrict, ho]; rfl⟩

omit [DecidableEq D] in
/-- In `hybrid64` mode the scheduler passes the key that the same prompt captures. -/
theorem directFinalKey_hybrid64 (blockHashes : List D) (n bs alignment : Nat) :
    directFinalKey blockHashes n bs .hybrid64 =
      finalCaptureKey blockHashes n bs .hybrid64 alignment := by
  rw [directFinalKey]
  unfold finalCaptureKey
  rw [if_pos (.inl rfl), if_pos (.inr rfl)]
  exact bind_pure _

/-- The final key of a prompt may be restored for the same prompt. -/
theorem captured_is_eligible (hcover : n / bs ≤ blockHashes.length)
    (halign : mode = .hybrid64 → 0 < alignment)
    (h : finalCaptureKey blockHashes n bs mode alignment = .ok (some key)) :
    ∃ final, directFinalKey blockHashes n bs mode = .ok final ∧
      restoreKeyIsEligible key n bs mode alignment final = .ok true := by
  obtain ⟨hbs, hkey, hat⟩ := finalCaptureKey_boundary hcover h
  obtain ⟨final, hfinal⟩ := directFinalKey_ok hbs hcover mode
  have hsame : mode = .hybrid64 → final = some key := by
    rintro rfl
    rw [directFinalKey_hybrid64 blockHashes n bs alignment, h] at hfinal
    exact (Except.ok.inj hfinal).symm
  refine ⟨final, hfinal, ?_⟩
  have hpos : mode = .hybrid64 → ∀ k ∈ final, 0 < k.1 := by
    intro hm k hk
    rw [hsame hm] at hk
    exact Option.some.inj hk ▸ hkey
  have hchecked : ∃ b, restoreKeyIsEligible key n bs mode alignment final = .ok b ∧
    (b = true ↔ MayRestore key n bs mode alignment final) := restoreKeyIsEligible_eq hbs hkey hpos
  obtain ⟨b, hb, hiff⟩ := hchecked
  rw [hb, hiff.mpr]
  unfold MayRestore
  cases mode with
  | direct =>
    have hc : key.1 = replayBlocks bs n := hat
    show key.1 * bs + gdnDirectMinReplayTokens ≤ n
    rw [hc]
    exact replayBlocks_replay hbs (hc ▸ hkey)
  | hybrid64 =>
    have hc : key.1 = replayBlocks bs n := hat
    refine ⟨?_, halign rfl, .inr (hsame rfl).symm⟩
    rw [hc]
    exact replayBlocks_replay hbs (hc ▸ hkey)
  | chunk64 =>
    obtain ⟨hpos, hn, hc⟩ : 0 < alignment ∧ 1 < n ∧ key.1 * bs = _ := hat
    have := Nat.div_mul_le_self (n - 1) alignment
    exact ⟨by omega, hpos, by rw [hc, Nat.mul_mod_left]⟩
  | aligned =>
    obtain ⟨hpos, hn, hc⟩ : 0 < alignment ∧ 1 < n ∧ key.1 * bs = _ := hat
    have := Nat.div_mul_le_self (n - 1) alignment
    exact ⟨by omega, hpos, by rw [hc, Nat.mul_mod_left]⟩

/-- For every prompt whose complete blocks are hashed: the final key that it captured may be
restored, and a key that may be restored leaves something to replay. -/
theorem final_key_reusable (blockHashes : List D) (n bs alignment : Nat) (mode : GdnRestoreMode)
    (key : GdnPrefixKey D) (hcover : n / bs ≤ blockHashes.length) :
    ((mode = .hybrid64 → 0 < alignment) →
      finalCaptureKey blockHashes n bs mode alignment = .ok (some key) →
      ∃ final, directFinalKey blockHashes n bs mode = .ok final ∧
        restoreKeyIsEligible key n bs mode alignment final = .ok true) ∧
    ∀ final, restoreKeyIsEligible key n bs mode alignment final = .ok true →
      key.1 * bs + minReplayTokens mode ≤ n :=
  ⟨fun halign h => captured_is_eligible hcover halign h, fun _ h => replay_le_of_eligible h⟩

/-- A prompt of 33 tokens in two blocks of 16. -/
theorem final_key_reusable_two :
    ((GdnRestoreMode.hybrid64 = .hybrid64 → 0 < 64) →
      finalCaptureKey [7, 8] 33 16 .hybrid64 64 = .ok (some (1, 7)) →
      ∃ final, directFinalKey [7, 8] 33 16 .hybrid64 = .ok final ∧
        restoreKeyIsEligible (1, 7) 33 16 .hybrid64 64 final = .ok true) ∧
    ∀ final, restoreKeyIsEligible (1, 7) 33 16 .hybrid64 64 final = .ok true →
      1 * 16 + minReplayTokens .hybrid64 ≤ 33 :=
  final_key_reusable [7, 8] 33 16 64 .hybrid64 (1, 7) (by decide)

/-- In `hybrid64` mode a captured key is refused if the alignment is not positive; in `chunk64`
mode a key is accepted that leaves one token. -/
theorem final_key_not_reusable :
    (¬ ∀ (blockHashes : List Nat) (n bs alignment : Nat) (mode : GdnRestoreMode)
      (key : GdnPrefixKey Nat), n / bs ≤ blockHashes.length →
      finalCaptureKey blockHashes n bs mode alignment = .ok (some key) →
      ∃ final, directFinalKey blockHashes n bs mode = .ok final ∧
        restoreKeyIsEligible key n bs mode alignment final = .ok true) ∧
    ¬ ∀ (n bs alignment : Nat) (mode : GdnRestoreMode) (key : GdnPrefixKey Nat)
      (final : Option (GdnPrefixKey Nat)),
      restoreKeyIsEligible key n bs mode alignment final = .ok true →
      key.1 * bs + gdnDirectMinReplayTokens ≤ n := by
  constructor
  · intro h
    obtain ⟨final, hfinal, heligible⟩ := h [7, 8] 33 16 0 .hybrid64 (1, 7) (by decide) (by rfl)
    exact absurd (mayRestore_of_eligible heligible).2.1 (by decide)
  · intro h
    exact absurd (h 65 16 64 .chunk64 (4, 7) none (by rfl)) (by decide)

end Bi100.Scheduler
