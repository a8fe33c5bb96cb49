import Bi100.Scheduler.Reuse

/-!
# Cold and resumed runs of a prompt

From the end of the first resumed step on, both runs take the same steps. In that step they differ:
the worker counts its chunks from the restore point, where the cold run counts from the start of the
step that holds it.

- `resumed_eq_cold_iff`: when both are cut at the same positions.
- `resumed_differs`: a worker chunk of 128 tokens in steps of 256.
-/

namespace Bi100.Scheduler

open Py

variable {bs S n chunkSize r f : Nat}

/-! ## The steps of both runs -/

/-- What is cut after the end of the first step is cut by the later steps. -/
theorem cutFrom_next {fuel c x : Nat} (fuel' : Nat) (hS : 0 < S) (hlt : c < n) (hfuel : n - c < fuel)
    (hfuel' : n - stepEnd S n f c < fuel') (hx : stepEnd S n f c < x) :
    CutFrom bs S chunkSize n f fuel c x ↔
      CutFrom bs S chunkSize n f fuel' (stepEnd S n f c) x := by
  obtain ⟨fuel, rfl⟩ := Nat.exists_eq_succ_of_ne_zero (n := fuel) (by omega)
  have hnext := lt_stepEnd (f := f) hS hlt
  rw [CutFrom, and_iff_right hlt, cutFrom_fuel hS fuel' (by omega) hfuel']
  refine or_iff_right fun hcut => ?_
  obtain ⟨-, rfl | ⟨hxe, -⟩⟩ := hcut
  · exact lt_irrefl _ hx
  · exact lt_asymm hx hxe

theorem cutFrom_end (fuel x : Nat) : ¬ CutFrom bs S chunkSize n f fuel n x := by
  cases fuel with
  | zero => exact id
  | succ fuel => exact fun h => lt_irrefl n h.1

/-- Up to the capture target the steps of a cold run end at multiples of the budget. -/
theorem stepEnd_grid {k : Nat} (hf : f < n) (hk : (k + 1) * S ≤ f) :
    stepEnd S n f (k * S) = (k + 1) * S := by
  unfold stepEnd cappedEnd
  rw [Nat.succ_mul] at hk ⊢
  split <;> omega

theorem cutFrom_grid {k : Nat} (hS : 0 < S) (hf : f < n) (hk : k * S ≤ f) (fuel : Nat) {x : Nat}
    (hfuel : n - k * S < fuel) (hx : k * S < x) :
    CutFrom bs S chunkSize n f (n + 1) 0 x ↔ CutFrom bs S chunkSize n f fuel (k * S) x := by
  induction k generalizing fuel with
  | zero =>
    rw [Nat.zero_mul] at hfuel ⊢
    exact cutFrom_fuel hS fuel (by omega) hfuel x
  | succ k ih =>
    have hgrid := stepEnd_grid hf hk
    have hprev := Nat.succ_mul k S
    rw [Nat.succ_eq_add_one] at hprev
    rw [ih (by omega) (n + 1) (by omega) (by omega), ← hgrid]
    exact cutFrom_next fuel hS (by omega) (by omega) (by rwa [hgrid]) (by rwa [hgrid])

/-! ## The first resumed step -/

/-- The end of the first worker chunk of the cold run after the restore point. -/
def nextWorkerCut (S chunkSize r : Nat) : Nat :=
  r / S * S + ((r - r / S * S) / chunkSize + 1) * chunkSize

/-- When the worker cuts the first resumed step where it cuts the cold step: the restore point is
the final one or starts a worker chunk, or the step is too short for either run to be cut, or its
only cut is the boundary before its end. -/
def WorkerAligned (bs S chunkSize n r : Nat) : Prop :=
  let f := replayBlocks bs n * bs
  let e := resumedEnd S n f r
  let nextCut := nextWorkerCut S chunkSize r
  r = f ∨ chunkSize ∣ r - r / S * S ∨ e ≤ nextCut ∨
    (nextCut = replayBlocks bs e * bs ∧ e ≤ r + chunkSize)

/-- No multiple is between two that follow each other. -/
theorem multiple_le {c e t : Nat} (hc : S ∣ c) (he : e ≤ c + S) (ht : S ∣ t) (hte : t < e) :
    t ≤ c := by
  obtain ⟨k, rfl⟩ := hc
  obtain ⟨j, rfl⟩ := ht
  have hjk : j < k + 1 := by
    by_contra hge
    have hle := Nat.mul_le_mul_left S (Nat.not_lt.mp hge)
    rw [Nat.mul_succ] at hle
    omega
  exact Nat.mul_le_mul_left S (Nat.lt_succ_iff.mp hjk)

/-- Between two multiples of the budget only the boundary before the end is canonical. -/
theorem canonicalBoundary_iff {c e x : Nat} (hc : S ∣ c) (he : e ≤ c + S)
    (hcx : c < x) (hxe : x < e) :
    CanonicalBoundary bs S e x ↔ x = replayBlocks bs e * bs := by
  constructor
  · rintro (hdvd | ⟨t, rfl | ⟨hpos, hlt, hdvd⟩, hx⟩)
    · have hle := multiple_le hc he hdvd hxe
      omega
    · exact hx
    · have hle := multiple_le hc he hdvd hlt
      have hbelow := replayBlocks_mul_lt bs hpos
      omega
  · exact fun hx => .inr ⟨e, .inl rfl, hx⟩

/-- Two steps with one end are cut at the same positions after the later start. -/
theorem stepCut_iff {c e b : Nat} (hW : 0 < chunkSize) (hcr : c ≤ r) (hre : r < e)
    (hcanon : ∀ x, r < x → x < e → (CanonicalBoundary bs S e x ↔ x = b)) :
    (∀ x, StepCut bs S chunkSize r e x ↔ StepCut bs S chunkSize c e x ∧ r < x) ↔
      (chunkSize ∣ r - c ∨ e ≤ c + ((r - c) / chunkSize + 1) * chunkSize ∨
        (c + ((r - c) / chunkSize + 1) * chunkSize = b ∧ e ≤ r + chunkSize)) := by
  have hlow := Nat.div_mul_le_self (r - c) chunkSize
  have hhigh := Nat.lt_div_mul_add (a := r - c) hW
  have hsucc := Nat.succ_mul ((r - c) / chunkSize) chunkSize
  rw [Nat.succ_eq_add_one] at hsucc
  generalize hnext : ((r - c) / chunkSize + 1) * chunkSize = next at hsucc ⊢
  have hdvdnext : chunkSize ∣ next := hnext ▸ dvd_mul_left _ _
  -- a later multiple is not before the next one
  have hmultiple : ∀ x, r < x → chunkSize ∣ x - c → next ≤ x - c := by
    intro x hx hdvd
    obtain ⟨k, hk⟩ := hdvd
    rw [← hnext, hk, Nat.mul_comm chunkSize k]
    refine Nat.mul_le_mul_right chunkSize ?_
    refine Nat.succ_le_of_lt (Nat.div_lt_of_lt_mul ?_)
    rw [← hk]
    omega
  have hfrom : ∀ x, r < x → chunkSize ∣ x - r → r + chunkSize ≤ x := by
    intro x hx hdvd
    have hle := Nat.le_of_dvd (by omega) hdvd
    omega
  constructor
  · intro hall
    by_contra hnot
    obtain ⟨haligned, hnot⟩ := not_or.mp hnot
    obtain ⟨hlong, hnot⟩ := not_or.mp hnot
    have hcold : StepCut bs S chunkSize c e (c + next) :=
      ⟨by omega, .inr ⟨by omega, .inl (by rwa [Nat.add_sub_cancel_left])⟩⟩
    obtain ⟨-, heq | ⟨-, hdvd | hcb⟩⟩ := (hall (c + next)).mpr ⟨hcold, by omega⟩
    · omega
    · refine haligned ((Nat.dvd_sub hdvdnext hdvd).trans ?_)
      rw [show next - (c + next - r) = r - c by omega]
    · have hb := (hcanon (c + next) (by omega) (by omega)).mp hcb
      have hfar : r + chunkSize < e := by
        by_contra hge
        exact hnot ⟨hb, Nat.not_lt.mp hge⟩
      have hres : StepCut bs S chunkSize r e (r + chunkSize) :=
        ⟨by omega, .inr ⟨hfar, .inl (by rw [Nat.add_sub_cancel_left])⟩⟩
      obtain ⟨⟨-, heq | ⟨-, hdvd | hcb'⟩⟩, -⟩ := (hall (r + chunkSize)).mp hres
      · omega
      · rw [show r + chunkSize - c = r - c + chunkSize by omega] at hdvd
        exact haligned ((Nat.dvd_add_left (dvd_refl chunkSize)).mp hdvd)
      · have hb' := (hcanon (r + chunkSize) (by omega) hfar).mp hcb'
        rw [show next = r - c + chunkSize by omega] at hdvdnext
        exact haligned ((Nat.dvd_add_left (dvd_refl chunkSize)).mp hdvdnext)
  · intro hok x
    have hsame : r < x → x < e → ((chunkSize ∣ x - r ∨ CanonicalBoundary bs S e x) ↔
        (chunkSize ∣ x - c ∨ CanonicalBoundary bs S e x)) := by
      intro hrx hxe
      rcases hok with hdvd | hlong | ⟨hb, hshort⟩
      · have hsplit : x - c = x - r + (r - c) := by omega
        rw [hsplit, Nat.dvd_add_left hdvd]
      · refine or_congr_left' fun _ => ⟨fun hx => ?_, fun hx => ?_⟩
        · have hle := hfrom x hrx hx
          omega
        · have hle := hmultiple x hrx hx
          omega
      · rw [hcanon x hrx hxe]
        refine or_congr_left' fun hne => ⟨fun hx => ?_, fun hx => ?_⟩
        · have hle := hfrom x hrx hx
          omega
        · have hle := hmultiple x hrx hx
          -- the next multiple is the boundary, the one after it is too far
          have hfar : next + chunkSize ≤ x - c := by
            obtain ⟨k, hk⟩ := hdvdnext
            obtain ⟨j, hj⟩ := hx
            have hkj : k < j := by
              by_contra hge
              have := Nat.mul_le_mul_left chunkSize (Nat.not_lt.mp hge)
              omega
            have hmul := Nat.mul_le_mul_left chunkSize (Nat.succ_le_of_lt hkj)
            rw [Nat.mul_succ] at hmul
            omega
          omega
    unfold StepCut
    constructor
    · rintro ⟨hrx, rfl | ⟨hxe, hcut⟩⟩
      · exact ⟨⟨by omega, .inl rfl⟩, hrx⟩
      · exact ⟨⟨by omega, .inr ⟨hxe, (hsame hrx hxe).mp hcut⟩⟩, hrx⟩
    · rintro ⟨⟨-, rfl | ⟨hxe, hcut⟩⟩, hrx⟩
      · exact ⟨hrx, .inl rfl⟩
      · exact ⟨hrx, .inr ⟨hxe, (hsame hrx hxe).mpr hcut⟩⟩

/-- Up to the end of the first resumed step the positions of the later steps do not matter. -/
theorem firstStep_iff {e fuel : Nat} {cold : Nat → Prop} (hS : 0 < S) (hre : r < e)
    (hcold : ∀ x, r < x → (cold x ↔ StepCut bs S chunkSize (r / S * S) e x ∨
      CutFrom bs S chunkSize n f fuel e x)) :
    (∀ x, (StepCut bs S chunkSize r e x ∨ CutFrom bs S chunkSize n f fuel e x) ↔ cold x ∧ r < x) ↔
      ∀ x, StepCut bs S chunkSize r e x ↔ StepCut bs S chunkSize (r / S * S) e x ∧ r < x := by
  have hend : ∀ c x, StepCut bs S chunkSize c e x → x ≤ e := by
    rintro c x ⟨-, rfl | ⟨hlt, -⟩⟩
    · exact le_rfl
    · exact hlt.le
  have hlater : ∀ x, CutFrom bs S chunkSize n f fuel e x → e < x := fun x => lt_of_cutFrom hS
  constructor
  · intro hall x
    by_cases hxe : x ≤ e
    · have hno : ¬ CutFrom bs S chunkSize n f fuel e x := fun h =>
        absurd (hlater x h) (Nat.not_lt.mpr hxe)
      constructor
      · intro h
        obtain ⟨hx, hrx⟩ := (hall x).mp (.inl h)
        exact ⟨((hcold x hrx).mp hx).resolve_right hno, hrx⟩
      · rintro ⟨h, hrx⟩
        exact ((hall x).mpr ⟨(hcold x hrx).mpr (.inl h), hrx⟩).resolve_right hno
    · exact ⟨fun h => absurd (hend _ _ h) hxe, fun h => absurd (hend _ _ h.1) hxe⟩
  · intro hall x
    constructor
    · rintro (h | h)
      · obtain ⟨hx, hrx⟩ := (hall x).mp h
        exact ⟨(hcold x hrx).mpr (.inl hx), hrx⟩
      · have hex := hlater x h
        exact ⟨(hcold x (hre.trans hex)).mpr (.inr h), hre.trans hex⟩
    · rintro ⟨hx, hrx⟩
      rcases (hcold x hrx).mp hx with h | h
      · exact .inl ((hall x).mpr ⟨h, hrx⟩)
      · exact .inr h

/-- A restore point before the final one: the cold step that holds it ends where the first resumed
step does. -/
theorem cuts_eq_iff_of_lt (hS : 0 < S) (hW : 0 < chunkSize) (hrf : r < f) (hf : f < n) :
    (∀ x, (StepCut bs S chunkSize r (resumedEnd S n f r) x ∨
        CutFrom bs S chunkSize n f n (resumedEnd S n f r) x) ↔
      CutFrom bs S chunkSize n f (n + 1) 0 x ∧ r < x) ↔
      (chunkSize ∣ r - r / S * S ∨ resumedEnd S n f r ≤ nextWorkerCut S chunkSize r ∨
        (nextWorkerCut S chunkSize r = replayBlocks bs (resumedEnd S n f r) * bs ∧
          resumedEnd S n f r ≤ r + chunkSize)) := by
  have hlow := Nat.div_mul_le_self r S
  have hhigh := Nat.lt_div_mul_add (a := r) hS
  have hsucc := Nat.succ_mul (r / S) S
  rw [Nat.succ_eq_add_one] at hsucc
  have hend : stepEnd S n f (r / S * S) = resumedEnd S n f r := by
    unfold stepEnd resumedEnd cappedEnd
    rw [hsucc]
    split <;> split <;> omega
  have hre : r < resumedEnd S n f r := by
    unfold resumedEnd
    refine lt_cappedEnd ?_
    omega
  have hle : resumedEnd S n f r ≤ r / S * S + S := by
    unfold resumedEnd
    refine cappedEnd_le.trans ?_
    omega
  have hlen : resumedEnd S n f r ≤ n := by
    unfold resumedEnd
    exact cappedEnd_le.trans (Nat.min_le_left _ _)
  rw [firstStep_iff hS hre fun x hrx => ?_]
  · exact stepCut_iff hW hlow hre fun x hrx hxe =>
      canonicalBoundary_iff (Dvd.intro_left _ rfl) hle (by omega) hxe
  · rw [cutFrom_grid hS hf (k := r / S) (by omega) (n + 1) (by omega) (by omega), CutFrom,
      and_iff_right (by omega), hend]

/-- The last token after a multiple of the budget is a step of its own, or not: the positions are
the same. -/
theorem stepCut_split {m : Nat} (hm : f < m) (hS : S ∣ m) (hW : ∀ x, f < x → x < m →
    ¬ CanonicalBoundary bs S (m + 1) x ∧ ¬ CanonicalBoundary bs S m x) (x : Nat) :
    (StepCut bs S chunkSize f m x ∨ StepCut bs S chunkSize m (m + 1) x) ↔
      StepCut bs S chunkSize f (m + 1) x := by
  unfold StepCut
  constructor
  · rintro (⟨hfx, rfl | ⟨hlt, hdvd | hcb⟩⟩ | ⟨hmx, rfl | ⟨hlt, -⟩⟩)
    · exact ⟨hfx, .inr ⟨Nat.lt_succ_self x, .inr (.inl hS)⟩⟩
    · exact ⟨hfx, .inr ⟨by omega, .inl hdvd⟩⟩
    · exact absurd hcb (hW x hfx hlt).2
    · exact ⟨by omega, .inl rfl⟩
    · omega
  · rintro ⟨hfx, rfl | ⟨hlt, hcut⟩⟩
    · exact .inr ⟨Nat.lt_succ_self m, .inl rfl⟩
    · by_cases hxm : x = m
      · exact .inl ⟨hfx, .inl hxm⟩
      · have hxm : x < m := by omega
        exact .inl ⟨hfx, .inr ⟨hxm, .inl (hcut.resolve_right (hW x hfx hxm).1)⟩⟩

/-- The final restore point: both runs are cut at the same positions. -/
theorem cuts_eq_of_final (hbs : 0 < bs) (hS : 0 < S) (hdvd : bs ∣ S) (hpos : 0 < n)
    (hf : replayBlocks bs n * bs = f) (x : Nat) :
    (StepCut bs S chunkSize f (resumedEnd S n f f) x ∨
        CutFrom bs S chunkSize n f n (resumedEnd S n f f) x) ↔
      CutFrom bs S chunkSize n f (n + 1) 0 x ∧ f < x := by
  have hfn : f < n := hf ▸ replayBlocks_mul_lt bs hpos
  have hnear : n ≤ f + bs + 1 := hf ▸ le_replayBlocks_mul hbs
  have hlow := Nat.div_mul_le_self f S
  have hhigh := Nat.lt_div_mul_add (a := f) hS
  have hsucc := Nat.succ_mul (f / S) S
  rw [Nat.succ_eq_add_one] at hsucc
  have hnext := lt_stepEnd (f := f) hS hfn
  -- the cold run has a step that starts at the final boundary
  have hcold : f < x → (CutFrom bs S chunkSize n f (n + 1) 0 x ↔
      StepCut bs S chunkSize f (stepEnd S n f f) x ∨
        CutFrom bs S chunkSize n f n (stepEnd S n f f) x) := by
    intro hfx
    have hfrom : CutFrom bs S chunkSize n f (n + 1) 0 x ↔
        CutFrom bs S chunkSize n f (n + 1) f x := by
      by_cases hgrid : f / S * S = f
      · rw [cutFrom_grid hS hfn (k := f / S) hlow (n + 1) (by omega) (by omega), hgrid]
      · have hcap : stepEnd S n f (f / S * S) = f := by
          unfold stepEnd cappedEnd
          rw [if_pos (by omega)]
        rw [cutFrom_grid hS hfn (k := f / S) hlow (n + 1) (by omega) (by omega),
          cutFrom_next (f := f) (n + 1) hS (by omega) (by omega) (by omega) (by omega), hcap]
    rw [hfrom, CutFrom, and_iff_right hfn]
  have hafter : (StepCut bs S chunkSize f (stepEnd S n f f) x ∨
      CutFrom bs S chunkSize n f n (stepEnd S n f f) x) → f < x := by
    rintro (h | h)
    · exact h.1
    · exact hnext.trans (lt_of_cutFrom hS h)
  have hresult : (CutFrom bs S chunkSize n f (n + 1) 0 x ∧ f < x) ↔
      (StepCut bs S chunkSize f (stepEnd S n f f) x ∨
        CutFrom bs S chunkSize n f n (stepEnd S n f f) x) :=
    ⟨fun h => (hcold h.2).mp h.1, fun h => ⟨(hcold (hafter h)).mpr h, hafter h⟩⟩
  rw [hresult]
  by_cases hsame : resumedEnd S n f f = stepEnd S n f f
  · rw [hsame]
  -- the first resumed step ends at a multiple of the budget, one token before the prompt does
  have hres : resumedEnd S n f f = min n ((f / S + 1) * S) := by
    unfold resumedEnd cappedEnd
    rw [if_neg (by omega)]
  have hstep : stepEnd S n f f = min (f + S) n := by
    unfold stepEnd cappedEnd
    rw [if_neg (by omega)]
  have hgrid : f / S * S < f := by omega
  have hdvdf : bs ∣ f := hf ▸ Dvd.intro_left _ rfl
  have hdvdm : bs ∣ (f / S + 1) * S := hdvd.mul_left _
  have hdvdc : bs ∣ f / S * S := hdvd.mul_left _
  have hleft : bs ≤ f - f / S * S := Nat.le_of_dvd (by omega) (Nat.dvd_sub hdvdf hdvdc)
  have hright : bs ≤ (f / S + 1) * S - f := Nat.le_of_dvd (by omega) (Nat.dvd_sub hdvdm hdvdf)
  generalize hm : (f / S + 1) * S = m at hsucc hres hdvdm hright
  have hn : n = m + 1 := by omega
  have hmend : resumedEnd S n f f = m := by omega
  have hnend : stepEnd S n f f = m + 1 := by omega
  have hstepm : stepEnd S n f m = m + 1 := by
    unfold stepEnd cappedEnd
    rw [if_neg (by omega)]
    omega
  subst hn
  rw [hmend, hnend, CutFrom, hstepm, and_iff_right (Nat.lt_succ_self m),
    or_iff_left (cutFrom_end _ _), or_iff_left (cutFrom_end _ _)]
  have hbelow := replayBlocks_mul_lt bs (e := m) (by omega)
  have hlast : bs ≤ m - replayBlocks bs m * bs :=
    Nat.le_of_dvd (by omega) (Nat.dvd_sub hdvdm (Dvd.intro_left _ rfl))
  -- an earlier multiple is before the step, the last one has its boundary before it
  have hmultiple : ∀ t, 0 < t → t ≤ m → S ∣ t → replayBlocks bs t * bs ≤ f := by
    intro t ht htm hdvdt
    by_cases htm' : t = m
    · rw [htm']
      omega
    · have hle := multiple_le (Dvd.intro_left _ rfl) (by omega : m ≤ f / S * S + S) hdvdt (by omega)
      have hlt := replayBlocks_mul_lt bs ht
      omega
  refine stepCut_split (by omega) (hm ▸ dvd_mul_left _ _) (fun y hfy hym => ⟨?_, ?_⟩) x
  · rintro (hdvdy | ⟨t, rfl | ⟨ht, htm, hdvdt⟩, hy⟩)
    · have hle := multiple_le (Dvd.intro_left _ rfl) (by omega : m ≤ f / S * S + S) hdvdy hym
      omega
    · omega
    · have hle := hmultiple t ht (by omega) hdvdt
      omega
  · rintro (hdvdy | ⟨t, rfl | ⟨ht, htm, hdvdt⟩, hy⟩)
    · have hle := multiple_le (Dvd.intro_left _ rfl) (by omega : m ≤ f / S * S + S) hdvdy hym
      omega
    · omega
    · have hle := hmultiple t ht (by omega) hdvdt
      omega

/-! ## What the requests restore and capture -/

variable {D : Type} [DecidableEq D] {cfg : Config} {key : GdnPrefixKey D}

/-- The capture targets of a request whose deepest live key, if any, is resident. -/
theorem requestCaptureTargets_ok (policy : GdnPrefixStatePolicy D) {blockHashes : List D}
    (live : List (GdnPrefixKey D)) {len : Nat} (h : Canonical cfg)
    (hpolicy : policy.policy = .admission64)
    (hbranch : policy.repeatedBranchCandidate live live.length = none)
    (hlen : blockHashes.length = len / cfg.gdn.blockSize) :
    ∃ targets, requestCaptureTargets cfg policy blockHashes live len = .ok targets ∧
      ((targets = [] ∧ (replayBlocks cfg.gdn.blockSize len = 0 ∨
        ∃ d, blockHashes[replayBlocks cfg.gdn.blockSize len - 1]? = some d ∧
          (replayBlocks cfg.gdn.blockSize len, d) ∈ policy.resident)) ∨
      ∃ d, targets = [(replayBlocks cfg.gdn.blockSize len, d)] ∧
        0 < replayBlocks cfg.gdn.blockSize len) := by
  obtain ⟨o, ho, hcase⟩ := keyOfBlockCount_ok (replayBlocks_le_length hlen (le_refl len))
  unfold requestCaptureTargets
  rw [hbranch, finalCaptureKey_eq (.inr h.hybrid) h.blockSize_pos (strict_le_length hlen (le_refl len)), ho]
  rcases hcase with ⟨rfl, hzero⟩ | ⟨d, rfl, hpos, hd⟩
  · exact ⟨[], rfl, .inl ⟨rfl, .inl hzero⟩⟩
  · have hcapture : policy.shouldCaptureFinal (replayBlocks cfg.gdn.blockSize len, d) =
        .ok (decide ((replayBlocks cfg.gdn.blockSize len, d) ∉ policy.resident)) := by
      unfold GdnPrefixStatePolicy.shouldCaptureFinal makePrefixKey
      rw [guardNot_bind, if_neg hpos.ne', hpolicy]
      rfl
    show ∃ targets, (policy.shouldCaptureFinal (replayBlocks cfg.gdn.blockSize len, d) >>= _) = _ ∧ _
    rw [hcapture]
    by_cases hres : (replayBlocks cfg.gdn.blockSize len, d) ∈ policy.resident
    · refine ⟨[], ?_, .inl ⟨rfl, .inr ⟨d, hd, hres⟩⟩⟩
      rw [decide_eq_false (not_not.mpr hres)]
      rfl
    · refine ⟨_, ?_, .inr ⟨d, rfl, hpos⟩⟩
      rw [decide_eq_true hres]
      rfl

/-- With an empty cache nothing is restored, and the final state is captured. -/
theorem chooseKeys_cold (h : Canonical cfg) (prompt : Prompt D cfg.gdn.blockSize) :
    ∃ c, chooseKeys cfg prompt.blockHashes 0 (.init .admission64) prompt.len = .ok c ∧
      c.restoreKey = none ∧ c.policy.policy = .admission64 ∧
      ∀ p, FinalTarget cfg.gdn.blockSize
        (replayBlocks cfg.gdn.blockSize prompt.len * cfg.gdn.blockSize) p c.captureTargets := by
  obtain ⟨final, hfinal, -⟩ := keyOfBlockCount_ok
    (replayBlocks_le_length prompt.length_blockHashes (le_refl prompt.len))
  have hlive : liveKeys cfg prompt.blockHashes 0 prompt.len = .ok [] := by
    unfold liveKeys strictPrefixBlockCount
    rw [guardNot_bind, if_neg h.blockSize_pos.ne',
      finalCaptureKey_eq (.inl rfl) h.blockSize_pos
        (strict_le_length prompt.length_blockHashes (le_refl _)), hfinal]
    simp only [Nat.zero_min, List.take_zero]
    rfl
  obtain ⟨targets, htargets, hcase⟩ := requestCaptureTargets_ok (.init .admission64) [] h
    rfl rfl prompt.length_blockHashes
  refine ⟨⟨none, targets, .init .admission64⟩, ?_, rfl, rfl, fun p => ?_⟩
  · unfold chooseKeys
    rw [hlive]
    show (requestCaptureTargets cfg (.init .admission64) prompt.blockHashes [] prompt.len >>= _) = _
    rw [htargets]
    rfl
  · rcases hcase with ⟨rfl, hzero | ⟨d, -, hres⟩⟩ | ⟨d, rfl, hpos⟩
    · exact .inl ⟨rfl, by rw [hzero, Nat.zero_mul]; exact Nat.zero_le p⟩
    · exact absurd hres (Dict.not_mem_empty _)
    · exact .inr ⟨_, rfl, hpos, rfl⟩

omit [DecidableEq D] in
/-- The keys of a prompt's first blocks end with the key of the last of them. -/
theorem keysFromBlockHashes_take {blockHashes : List D} (hmem : key ∈ keysFromBlockHashes blockHashes) :
    0 < key.1 ∧ key.1 ≤ blockHashes.length ∧ blockHashes[key.1 - 1]? = some key.2 ∧
      keysFromBlockHashes (blockHashes.take key.1) =
        keysFromBlockHashes (blockHashes.take (key.1 - 1)) ++ [key] := by
  unfold keysFromBlockHashes at hmem
  obtain ⟨i, hi, rfl⟩ := List.mem_mapIdx.mp hmem
  refine ⟨Nat.succ_pos i, hi, List.getElem?_eq_getElem hi, ?_⟩
  unfold keysFromBlockHashes
  dsimp only
  rw [Nat.add_sub_cancel, List.take_succ_eq_append_getElem hi, List.mapIdx_append]
  have hlen : (blockHashes.take i).length = i := List.length_take_of_le hi.le
  rw [hlen, List.mapIdx_cons, List.mapIdx_nil, Nat.zero_add]

/-- An eligible key leaves two tokens to replay. -/
theorem replay_of_eligible {len alignment : Nat} {final : Option (GdnPrefixKey D)}
    (h : restoreKeyIsEligible key len bs .hybrid64 alignment final = .ok true) :
    key.1 * bs + 2 ≤ len := replay_le_of_eligible h

/-- The live keys of a prompt whose computed blocks end with an eligible key. -/
theorem liveKeys_resumed (h : Canonical cfg) {prompt : Prompt D cfg.gdn.blockSize}
    (hmem : key ∈ keysFromBlockHashes prompt.blockHashes) {final : Option (GdnPrefixKey D)}
    (hfinal : finalCaptureKey prompt.blockHashes prompt.len cfg.gdn.blockSize .direct
      cfg.gdn.blockSize = .ok final)
    (heligible : restoreKeyIsEligible key prompt.len cfg.gdn.blockSize .hybrid64
      cfg.gdn.replayAlignment final = .ok true) :
    ∃ before, liveKeys cfg prompt.blockHashes key.1 prompt.len = .ok (before ++ [key]) := by
  obtain ⟨hpos, hle, -, hkeys⟩ := keysFromBlockHashes_take hmem
  have hbs := h.blockSize_pos
  have hreplay := replay_of_eligible heligible
  have hstrict : key.1 ≤ (prompt.len - 1) / cfg.gdn.blockSize :=
    (Nat.le_div_iff_mul_le hbs).mpr (by omega)
  have hmin : min (min key.1 prompt.blockHashes.length) ((prompt.len - 1) / cfg.gdn.blockSize) =
      key.1 := by omega
  have hfinalpos : ∀ k ∈ final, 0 < k.1 := by
    intro k hk
    rw [finalCaptureKey_eq (.inl rfl) hbs
      (strict_le_length prompt.length_blockHashes (le_refl _))] at hfinal
    obtain ⟨o, ho, hcase⟩ := keyOfBlockCount_ok
      (replayBlocks_le_length prompt.length_blockHashes (le_refl prompt.len))
    obtain rfl : o = final := Except.ok.inj (ho.symm.trans hfinal)
    rcases hcase with ⟨rfl, -⟩ | ⟨d, rfl, hpos, -⟩
    · cases hk
    · obtain rfl := Option.some.inj hk
      exact hpos
  let eligible : GdnPrefixKey D → Bool := fun k =>
    (restoreKeyIsEligible k prompt.len cfg.gdn.blockSize .hybrid64 cfg.gdn.replayAlignment
      final).toOption.getD false
  have hall : ∀ k ∈ keysFromBlockHashes (prompt.blockHashes.take key.1),
      restoreKeyIsEligible k prompt.len cfg.gdn.blockSize .hybrid64 cfg.gdn.replayAlignment final =
        .ok (eligible k) := by
    intro k hk
    obtain ⟨i, hi, rfl⟩ := List.mem_mapIdx.mp hk
    have hi0 : 0 < ((i + 1, (prompt.blockHashes.take key.1)[i]) : GdnPrefixKey D).1 := Nat.succ_pos i
    obtain ⟨b, hb, -⟩ := restoreKeyIsEligible_eq (n := prompt.len) hbs hi0 fun _ => hfinalpos
    show restoreKeyIsEligible _ _ _ _ _ _ = .ok (Option.getD (Except.toOption _) false)
    rw [hb]
    rfl
  have hfilter := filterM_eq_ok hall
  have hkey : eligible key = true := by
    show Option.getD (Except.toOption _) false = true
    rw [heligible]
    rfl
  refine ⟨(keysFromBlockHashes (prompt.blockHashes.take (key.1 - 1))).filter eligible, ?_⟩
  unfold liveKeys strictPrefixBlockCount
  rw [guardNot_bind, if_neg hbs.ne']
  show (finalCaptureKey prompt.blockHashes prompt.len cfg.gdn.blockSize .direct
    cfg.gdn.blockSize >>= _) = _
  rw [hfinal]
  show (List.filterM _ (keysFromBlockHashes (prompt.blockHashes.take (min (min key.1
    prompt.blockHashes.length) (if prompt.len ≤ 1 then 0 else (prompt.len - 1) /
      cfg.gdn.blockSize)))) : Except Err _) = _
  rw [h.hybrid, if_pos rfl, if_neg (by omega), hmin, hfilter, hkeys, List.filter_append,
    List.filter_cons, if_pos hkey, List.filter_nil]

/-- With the blocks and the state of one key in the cache, that state is restored, and the final
state is captured if it is another one. -/
theorem chooseKeys_resumed (h : Canonical cfg) (prompt : Prompt D cfg.gdn.blockSize)
    (hmem : key ∈ keysFromBlockHashes prompt.blockHashes) {final : Option (GdnPrefixKey D)}
    (hfinal : finalCaptureKey prompt.blockHashes prompt.len cfg.gdn.blockSize .direct
      cfg.gdn.blockSize = .ok final)
    (heligible : restoreKeyIsEligible key prompt.len cfg.gdn.blockSize .hybrid64
      cfg.gdn.replayAlignment final = .ok true) :
    ∃ c, chooseKeys cfg prompt.blockHashes key.1
        { policy := .admission64, resident := Dict.set ∅ key () } prompt.len = .ok c ∧
      c.restoreKey = some key ∧ c.policy.policy = .admission64 ∧
      ∀ p, key.1 * cfg.gdn.blockSize ≤ p → FinalTarget cfg.gdn.blockSize
        (replayBlocks cfg.gdn.blockSize prompt.len * cfg.gdn.blockSize) p c.captureTargets := by
  obtain ⟨hpos, -, hdigest, -⟩ := keysFromBlockHashes_take hmem
  obtain ⟨before, hlive⟩ := liveKeys_resumed h hmem hfinal heligible
  have hreplay := le_replayBlocks h.blockSize_pos (replay_of_eligible heligible)
  let touched : GdnPrefixStatePolicy D :=
    { policy := .admission64, resident := ((Dict.set ∅ key ()).erase key).set key () }
  have hselect : (GdnPrefixStatePolicy.selectRestore (before ++ [key])
      (before ++ [key]).length).run { policy := .admission64, resident := Dict.set ∅ key () } =
        .ok (some key) touched := by
    unfold GdnPrefixStatePolicy.selectRestore
    have hne : ¬ ((⟨.admission64, Dict.set ∅ key ()⟩ : GdnPrefixStatePolicy D).capacity = 0 ∨
        (before ++ [key]).length = 0) := by
      simp [GdnPrefixStatePolicy.capacity, GdnCachePolicy.capacity]
    have hfind : (before ++ [key]).reverse.find? (fun k =>
        decide (k ∈ (Dict.set ∅ key () : Dict (GdnPrefixKey D) Unit))) = some key := by
      simp
    rw [run_get_bind, if_neg hne, List.take_length, hfind]
    rfl
  have hbranch : touched.repeatedBranchCandidate (before ++ [key]) (before ++ [key]).length =
      none := by
    have hlast : (before ++ [key])[min (before ++ [key]).length (before ++ [key]).length - 1]? =
        some key := by simp
    have hres : key ∈ touched.resident := Dict.mem_set.mpr (.inl rfl)
    unfold GdnPrefixStatePolicy.repeatedBranchCandidate
    rw [if_neg (by simp [touched]), hlast]
    exact if_pos hres
  obtain ⟨targets, htargets, hcase⟩ := requestCaptureTargets_ok touched (before ++ [key]) h rfl
    hbranch prompt.length_blockHashes
  refine ⟨⟨some key, targets, touched⟩, ?_, rfl, rfl, fun p hp => ?_⟩
  · unfold chooseKeys
    rw [hlive]
    dsimp only [bind, Except.bind]
    rw [hselect]
    show (requestCaptureTargets cfg touched prompt.blockHashes (before ++ [key]) prompt.len >>= _) = _
    rw [htargets]
    rfl
  · rcases hcase with ⟨rfl, hzero | ⟨d, -, hres⟩⟩ | ⟨d, rfl, hq⟩
    · omega
    · have hkey : (replayBlocks cfg.gdn.blockSize prompt.len, d) = key := by
        rcases Dict.mem_set.mp hres with heq | hmem
        · exact heq
        · exact absurd ((Dict.mem_erase.mp hmem).1) (not_not.mpr
            ((Dict.mem_set.mp (Dict.mem_erase.mp hmem).2).resolve_right (Dict.not_mem_empty _)))
      exact .inl ⟨rfl, by rw [← hkey] at hp; exact hp⟩
    · exact .inr ⟨_, rfl, hq, rfl⟩

/-! ## Cold and resumed runs agree -/

/-- A resumed run is cut after its restore point where the cold run is. -/
def ResumeIndependent (cfg : Config) (chunkSize : Nat) (prompt : Prompt D cfg.gdn.blockSize)
    (key : GdnPrefixKey D) : Prop :=
  ∃ cold resumed, coldCuts cfg chunkSize prompt = .ok cold ∧
    resumedCuts cfg chunkSize prompt key = .ok resumed ∧
    ∀ x, x ∈ resumed ↔ x ∈ cold ∧ key.1 * cfg.gdn.blockSize < x

/-- A restore point that the source admits. -/
structure Admitted (cfg : Config) (prompt : Prompt D cfg.gdn.blockSize) (key : GdnPrefixKey D) :
    Prop where
  mem : key ∈ keysFromBlockHashes prompt.blockHashes
  eligible : ∃ final, finalCaptureKey prompt.blockHashes prompt.len cfg.gdn.blockSize .direct
      cfg.gdn.blockSize = .ok final ∧
    restoreKeyIsEligible key prompt.len cfg.gdn.blockSize cfg.gdn.restoreMode
      cfg.gdn.replayAlignment final = .ok true

/-- Both runs end, so what is left is where their steps are cut. -/
theorem resumeIndependent_iff_cuts (h : Canonical cfg) (hchunk : 0 < chunkSize)
    {prompt : Prompt D cfg.gdn.blockSize} (ha : Admitted cfg prompt key) :
    ResumeIndependent cfg chunkSize prompt key ↔
      ∀ x, (StepCut cfg.gdn.blockSize cfg.gdn.maxNumBatchedTokens chunkSize
            (key.1 * cfg.gdn.blockSize) (resumedEnd cfg.gdn.maxNumBatchedTokens prompt.len
              (replayBlocks cfg.gdn.blockSize prompt.len * cfg.gdn.blockSize)
              (key.1 * cfg.gdn.blockSize)) x ∨
          CutFrom cfg.gdn.blockSize cfg.gdn.maxNumBatchedTokens chunkSize prompt.len
            (replayBlocks cfg.gdn.blockSize prompt.len * cfg.gdn.blockSize) prompt.len
            (resumedEnd cfg.gdn.maxNumBatchedTokens prompt.len
              (replayBlocks cfg.gdn.blockSize prompt.len * cfg.gdn.blockSize)
              (key.1 * cfg.gdn.blockSize)) x) ↔
        CutFrom cfg.gdn.blockSize cfg.gdn.maxNumBatchedTokens chunkSize prompt.len
            (replayBlocks cfg.gdn.blockSize prompt.len * cfg.gdn.blockSize) (prompt.len + 1) 0 x ∧
          key.1 * cfg.gdn.blockSize < x := by
  obtain ⟨hmem, final, hfinal, heligible⟩ := ha
  rw [h.hybrid] at heligible
  have hbs := h.blockSize_pos
  obtain ⟨hpos, -, -, -⟩ := keysFromBlockHashes_take hmem
  have htwo := replay_of_eligible heligible
  have hr : 0 < key.1 * cfg.gdn.blockSize := Nat.mul_pos hpos hbs
  obtain ⟨coldChoice, hcoldChoice, hcoldKey, hcoldPolicy, hcoldTargets⟩ := chooseKeys_cold h prompt
  obtain ⟨choice, hchoice, hkey, hpolicy, htargets⟩ := chooseKeys_resumed h prompt hmem hfinal
    heligible
  obtain ⟨cold, hcold, hcoldmem⟩ := prefillCuts_cold h hchunk hcoldPolicy hcoldKey hcoldTargets
    (show 0 < prompt.len by omega)
  obtain ⟨resumed, hresumed, hresumedmem⟩ := prefillCuts_resumed h hchunk hpolicy hkey rfl hr
    (show key.1 * cfg.gdn.blockSize < prompt.len by omega) htargets
  have hcoldCuts : coldCuts cfg chunkSize prompt = .ok cold := by
    show (chooseKeys cfg prompt.blockHashes 0 (.init .admission64) prompt.len >>= _) = _
    rw [hcoldChoice]
    exact hcold
  have hresumedCuts : resumedCuts cfg chunkSize prompt key = .ok resumed := by
    show (chooseKeys cfg prompt.blockHashes key.1 _ prompt.len >>= _) = _
    rw [hchoice]
    exact hresumed
  simp only [← hcoldmem, ← hresumedmem]
  constructor
  · rintro ⟨cold', resumed', hc, hs, hall⟩
    obtain rfl := Except.ok.inj (hcoldCuts.symm.trans hc)
    obtain rfl := Except.ok.inj (hresumedCuts.symm.trans hs)
    exact hall
  · exact fun hall => ⟨cold, resumed, hcoldCuts, hresumedCuts, hall⟩

/-- The runs agree exactly when the worker is aligned. -/
theorem resumed_eq_cold_iff (h : Canonical cfg) (hchunk : 0 < chunkSize)
    (prompt : Prompt D cfg.gdn.blockSize) (ha : Admitted cfg prompt key) :
    ResumeIndependent cfg chunkSize prompt key ↔
      WorkerAligned cfg.gdn.blockSize cfg.gdn.maxNumBatchedTokens chunkSize prompt.len
        (key.1 * cfg.gdn.blockSize) := by
  obtain ⟨-, final, -, heligible⟩ := id ha
  rw [h.hybrid] at heligible
  have hbs := h.blockSize_pos
  have htwo := replay_of_eligible heligible
  have hrf := Nat.mul_le_mul_right cfg.gdn.blockSize (le_replayBlocks hbs htwo)
  have hfn := replayBlocks_mul_lt cfg.gdn.blockSize (e := prompt.len) (by omega)
  rw [resumeIndependent_iff_cuts h hchunk ha]
  unfold WorkerAligned
  dsimp only
  rcases Nat.lt_or_eq_of_le hrf with hlt | heq
  · rw [cuts_eq_iff_of_lt h.budget_pos hchunk hlt hfn, or_iff_right hlt.ne]
  · refine iff_of_true (fun x => ?_) (.inl heq)
    rw [heq]
    exact cuts_eq_of_final hbs h.budget_pos (Nat.dvd_of_mod_eq_zero h.budget_dvd) (by omega) rfl x

/-- Blocks of 16 tokens in steps of 256. -/
def hybridConfig : Config where
  gdn := ⟨.hybrid64, 64, 16, 256⟩
  enablePrefixCaching := true
  maxNumSeqs := 4
  maxModelLen := 4096
  isMultiStep := false
  numLookaheadSlots := 0
  loraEnabled := false
  maxLoras := 0
  useAsyncOutputProc := false

theorem hybridConfig_canonical : Canonical hybridConfig :=
  ⟨rfl, rfl, rfl, rfl, by decide, by decide⟩

/-- 250 tokens, of which 15 blocks are complete. -/
def shortPrompt : Prompt Nat 16 := ⟨250, List.range 15, rfl⟩

theorem shortPrompt_admitted : Admitted hybridConfig shortPrompt (4, 3) :=
  ⟨by decide, some (15, 14), rfl, rfl⟩

/-- Worker chunks of 64 tokens: the restore point starts one. -/
theorem resumed_eq_cold_at_64 : ResumeIndependent hybridConfig 64 shortPrompt (4, 3) :=
  (resumed_eq_cold_iff hybridConfig_canonical (by decide) shortPrompt shortPrompt_admitted).mpr
    (.inr (.inl ⟨1, rfl⟩))

/-- Worker chunks of 128 tokens: the restore point 64 is admitted, but the cold run is cut at 128
and the resumed run is not. -/
theorem resumed_differs :
    Admitted hybridConfig shortPrompt (4, 3) ∧
      ¬ ResumeIndependent hybridConfig 128 shortPrompt (4, 3) := by
  refine ⟨shortPrompt_admitted, fun hclaim => ?_⟩
  have hcuts := (resumeIndependent_iff_cuts hybridConfig_canonical (by decide)
    shortPrompt_admitted).mp hclaim 128
  have hcold : StepCut 16 256 128 0 240 128 := ⟨by decide, .inr ⟨by decide, .inl ⟨1, rfl⟩⟩⟩
  rcases hcuts.mpr ⟨⟨by decide, .inl hcold⟩, by decide⟩ with ⟨-, heq | ⟨-, hdvd | hcb⟩⟩ | hlater
  · exact absurd heq (by decide)
  · exact absurd hdvd (by decide)
  · rcases hcb with hdvd | ⟨t, rfl | ⟨hpos, hlt, k, rfl⟩, hx⟩
    · exact absurd hdvd (by decide)
    · exact absurd hx (by decide)
    · have hpos' : 0 < 256 * k := hpos
      have hend : 256 * k < 240 := hlt
      omega
  · exact absurd (lt_of_cutFrom (by decide) hlater) (by decide)

end Bi100.Scheduler
