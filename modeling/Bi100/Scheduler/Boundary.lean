import Bi100.Scheduler.ChunkedPrefill

/-!
# Where the chunks of a prompt end

A chunk that does not complete its prompt should end at a block.

- **One chunk**: rounding keeps the end of a running group's chunk at a block
  (`runningChunk_endsOnBlock`). A fast-forwarded prefill starts at its checkpoint and takes what is
  left of the budget, which is not rounded: `gdnChunk_endsOnBlock_iff` says when it ends at a block.
- **All runs** (`chunkedPrefillSys`): `EndsOnBlock` holds of everything that is scheduled if every
  fast-forward meets that condition (`AlignedAdmission`). Every iteration of a pass keeps `PassInv`.
-/

namespace Bi100.Scheduler

open Py

variable {M D : Type} {cfg : Config} {g : SeqGroup} {status : SequenceStatus} {n chunk : Int}

/-! ## Chunks -/

/-- The first sequence of the group, if it is being prefilled, is computed up to a block. -/
def HeadAligned (blockSize : Nat) (g : SeqGroup) : Prop :=
  ∀ seq ∈ g.seqs.head?, seq.stage = .prefill → (blockSize : Int) ∣ seq.numComputedTokens

/-- A prefill chunk completes the prompt or ends at a block. -/
def EndsOnBlock (blockSize : Nat) (sg : ScheduledSequenceGroup) : Prop :=
  sg.seqGroup.isPrefill → ∀ seq, sg.seqGroup.seqs = [seq] →
    seq.numComputedTokens + sg.tokenChunkSize < seq.len →
    (blockSize : Int) ∣ seq.numComputedTokens + sg.tokenChunkSize

theorem stage_of_isPrefill {seq : Seq} (hseqs : g.seqs = [seq]) (h : g.isPrefill = true) :
    seq.stage = .prefill := by
  unfold SeqGroup.isPrefill at h
  rw [hseqs] at h
  simpa using h

theorem HeadAligned.dvd {blockSize : Nat} {seq : Seq} (h : HeadAligned blockSize g)
    (hseqs : g.seqs = [seq]) (hpre : g.isPrefill = true) :
    (blockSize : Int) ∣ seq.numComputedTokens :=
  h seq (by rw [hseqs]; rfl) (stage_of_isPrefill hseqs hpre)

/-- Of a group with one sequence, the rest of the prompt or complete blocks. -/
theorem getNumNewTokens_single {seq : Seq} {enableChunking : Bool} {budget : SchedulingBudget}
    (hc : cfg.enablePrefixCaching = true) (hseqs : g.seqs = [seq]) (hpre : g.isPrefill = true)
    (h : getNumNewTokens cfg g status enableChunking budget = .ok n) :
    n = seq.len - seq.numComputedTokens ∨ (cfg.gdn.blockSize : Int) ∣ n := by
  obtain ⟨hpos, hcase⟩ := getNumNewTokens_cases hc h
  refine hcase.imp_left fun hn => ?_
  rw [hn]
  unfold SeqGroup.getSeqs at hpos ⊢
  rw [hseqs, List.filter_cons, List.filter_nil] at hpos ⊢
  split at hpos
  · next hst =>
    rw [if_pos hst, List.map_singleton, List.sum_singleton]
    unfold Seq.getNumNewTokens
    rw [if_neg (by rw [stage_of_isPrefill hseqs hpre]; decide)]
  · exact absurd hpos (lt_irrefl 0)

/-- A chunk of the nominal size. -/
theorem nominal_endsOnBlock {enableChunking : Bool} {budget : SchedulingBudget} {g' : SeqGroup}
    (hc : cfg.enablePrefixCaching = true) (hg : HeadAligned cfg.gdn.blockSize g)
    (h : getNumNewTokens cfg g status enableChunking budget = .ok n)
    (hpre : g'.isPrefill = g.isPrefill)
    (hsame : ∀ seq', g'.seqs = [seq'] → ∃ seq, g.seqs = [seq] ∧ seq'.len = seq.len ∧
      seq'.numComputedTokens = seq.numComputedTokens) :
    EndsOnBlock cfg.gdn.blockSize ⟨g', n⟩ := by
  intro hpre' seq' hseqs' hlt
  obtain ⟨seq, hseqs, hlen, hcomp⟩ := hsame seq' hseqs'
  have hp : g.isPrefill = true := hpre ▸ hpre'
  dsimp only at hlt ⊢
  rw [hlen, hcomp] at hlt
  rw [hcomp]
  rcases getNumNewTokens_single hc hseqs hp h with rfl | hdvd
  · omega
  · exact Int.dvd_add (hg.dvd hseqs hp) hdvd

/-- The chunk of a running group: rounding, and then the cap at a capture target. -/
theorem runningChunk_endsOnBlock {p : Pass M D} {c : Int} {budget : SchedulingBudget}
    (hc : cfg.enablePrefixCaching = true) (hg : HeadAligned cfg.gdn.blockSize g)
    (h : getNumNewTokens cfg g .running true budget = .ok n)
    (hchunk : runningChunk cfg g p n = .ok c) : EndsOnBlock cfg.gdn.blockSize ⟨g, c⟩ := by
  have hn : EndsOnBlock cfg.gdn.blockSize ⟨g, n⟩ :=
    nominal_endsOnBlock hc hg h rfl fun seq hseqs => ⟨seq, hseqs, rfl, rfl⟩
  intro hpre seq hseqs hlt
  unfold runningChunk at hchunk
  rw [if_pos hpre] at hchunk
  cases hcap : capGdnCaptureBoundary cfg.gdn.blockSize p.gdnPrefixPolicy.policy
      ((p.gdnRequestCaptureTargets.get? g.requestId).getD []) g n n with
  | error e =>
    rw [hcap] at hchunk
    cases hchunk
  | ok cq =>
    rw [hcap] at hchunk
    obtain rfl : cq.1 = c := Except.ok.inj hchunk
    rcases capGdnCaptureBoundary_cases hcap with ⟨hsame, -⟩ | ⟨-, seq', hseqs', t, -, hend, -⟩
    · rw [hsame] at hlt ⊢
      exact hn hpre seq hseqs hlt
    · obtain rfl : seq' = seq := List.singleton_inj.mp (hseqs'.symm.trans hseqs)
      exact ⟨t.1, by rw [hend]; push_cast; ring⟩

/-! ## Fast-forwarded chunks -/

/-- When a fast-forwarded prefill ends at a block or completes its prompt: what is left of the
budget is complete blocks or enough, or an aligned boundary or a capture target is in reach. -/
def FastForwardAligned (blockSize : Nat) (policy : GdnCachePolicy) (alignment : Option Nat)
    (checkpointTokens promptLen : Nat) (remaining : Int) (targets : List (GdnPrefixKey D)) : Prop :=
  (blockSize : Int) ∣ remaining ∨ (promptLen : Int) ≤ checkpointTokens + remaining ∨
  (∃ a ∈ alignment, (((checkpointTokens / a + 1) * a : Nat) : Int) ≤ checkpointTokens + remaining) ∨
  (policy = .admission64 ∧ ∃ t ∈ targets, checkpointTokens < t.1 * blockSize ∧
    ((t.1 * blockSize : Nat) : Int) < checkpointTokens + remaining)

/-- The logical alignment of a fast-forward. -/
def Config.logicalChunkAlignment (cfg : Config) : Option Nat :=
  if cfg.gdn.restoreMode = .hybrid64 then some cfg.gdn.maxNumBatchedTokens else none

variable {c : GdnChoice D} {seq : Seq} {key : GdnPrefixKey D} {remaining query : Int}

/-- The end of a fast-forward: the prompt's end, an aligned boundary or as far as the budget goes. -/
theorem fastForwardEnd_cases {blockSize checkpoint promptLen : Nat} {alignment : Option Nat}
    (ha : ∀ a ∈ alignment, a % blockSize = 0)
    {e : Int} (he : e = fastForwardEnd checkpoint promptLen remaining alignment) :
    (promptLen : Int) ≤ e ∨ (blockSize : Int) ∣ e ∨
      (e = checkpoint + remaining ∧ e < promptLen ∧
        ∀ a ∈ alignment, e < ((checkpoint / a + 1) * a : Nat)) := by
  unfold fastForwardEnd at he
  cases alignment with
  | none =>
    dsimp only at he
    by_cases hlt : (checkpoint : Int) + remaining < promptLen
    · exact .inr (.inr ⟨by omega, by omega, fun a ha => absurd ha (by simp)⟩)
    · exact .inl (by omega)
  | some a =>
    dsimp only at he
    have hdvd : (blockSize : Int) ∣ (((checkpoint / a + 1) * a : Nat) : Int) :=
      Int.natCast_dvd_natCast.mpr ((Nat.dvd_of_mod_eq_zero (ha a rfl)).mul_left _)
    generalize hb : (checkpoint / a + 1) * a = b at he hdvd
    by_cases hlen : (promptLen : Int) ≤ e
    · exact .inl hlen
    by_cases hbe : e = b
    · exact .inr (.inl (hbe ▸ hdvd))
    · refine .inr (.inr ⟨by omega, by omega, fun a' ha' => ?_⟩)
      obtain rfl : a = a' := Option.some.inj ha'
      rw [hb]
      omega

/-- A prefill whose plan meets the condition ends at a block. -/
theorem gdnChunk_endsOnBlock {seq' : Seq} (hseqs : g.seqs = [seq'])
    (hsame : seq'.numComputedTokens = seq.numComputedTokens)
    (hn : n = seq.len - seq.numComputedTokens ∨ (cfg.gdn.blockSize : Int) ∣ n)
    (hcomp : (cfg.gdn.blockSize : Int) ∣ seq.numComputedTokens)
    (hok : seq.numComputedTokens = 0 → 0 < n → ∀ key ∈ c.restoreKey,
      FastForwardAligned cfg.gdn.blockSize c.policy.policy cfg.logicalChunkAlignment
        (key.1 * cfg.gdn.blockSize) seq.len remaining c.captureTargets)
    (h : gdnChunk cfg c g seq n remaining = .ok (chunk, query))
    (hlt : seq.numComputedTokens + chunk < seq.len) :
    (cfg.gdn.blockSize : Int) ∣ seq.numComputedTokens + chunk := by
  unfold gdnChunk at h
  obtain ⟨⟨c₁, q₁⟩, hplan, hcap⟩ := bind_eq_ok.mp h
  rcases capGdnCaptureBoundary_cases hcap with ⟨rfl, hfree⟩ | ⟨-, s, hs, t, -, hend, -⟩
  · rcases planGdnPrefixFastForward_cases hplan with
      rfl | ⟨key, hkey, hzero, hpos, halign, hc₁, hq₁⟩
    · rcases hn with rfl | hdvd
      · omega
      · exact Int.dvd_add hcomp hdvd
    · rw [hzero, zero_add] at hlt ⊢
      rcases fastForwardEnd_cases halign hc₁ with
        hge | hdvd | ⟨hend, -, hshort⟩
      · omega
      · exact hdvd
      · rcases hok hzero hpos key hkey with hdvd | hlen | ⟨a, ha, hle⟩ | ⟨hp, t, ht, hstart, hin⟩
        · rw [hend]
          exact Int.dvd_add (Int.natCast_dvd_natCast.mpr (Nat.dvd_mul_left _ _)) hdvd
        · omega
        · have hgt := hshort a ha
          omega
        · have hno := hfree hp seq' (by rw [hseqs]; exact List.mem_singleton_self seq') t ht
          omega
  · obtain rfl : s = seq' := List.singleton_inj.mp (hs.symm.trans hseqs)
    rw [← hsame, hend]
    exact Int.natCast_dvd_natCast.mpr (Nat.dvd_mul_left _ _)

/-- A plan that neither the prompt's end nor an aligned boundary limits. -/
theorem planGdnPrefixFastForward_short {nominal c q : Int} {promptLen blockSize : Nat}
    {alignment : Option Nat} (hbs : 0 < blockSize) (hpos : 0 < key.1) (hn : 0 < nominal)
    (hle : nominal ≤ remaining)
    (hlen : ((key.1 * blockSize : Nat) : Int) + remaining < promptLen)
    (halign : ∀ a ∈ alignment, ((key.1 * blockSize : Nat) : Int) + remaining <
      ((key.1 * blockSize / a + 1) * a : Nat))
    (h : planGdnPrefixFastForward (some key) 0 promptLen nominal remaining blockSize alignment =
      .ok (c, q)) : c = (key.1 * blockSize : Nat) + remaining ∧ q = remaining := by
  have hck : 0 < key.1 * blockSize := Nat.mul_pos hpos hbs
  have hend : fastForwardEnd (key.1 * blockSize) promptLen remaining alignment =
      (key.1 * blockSize : Nat) + remaining := by
    unfold fastForwardEnd
    cases alignment with
    | none =>
      dsimp only
      omega
    | some a =>
      dsimp only
      have := halign a rfl
      omega
  unfold planGdnPrefixFastForward at h
  dsimp only at h
  rw [if_neg (by omega)] at h
  obtain ⟨-, h⟩ := guardNot_bind_eq_ok.mp h
  rw [hend, if_neg (by omega), if_neg (by omega)] at h
  obtain ⟨rfl, rfl⟩ := Prod.mk.inj (pure_eq_ok.mp h)
  exact ⟨rfl, by omega⟩

/-- The condition is exact: else the chunk ends where the budget ends, inside a block. -/
theorem gdnChunk_endsOnBlock_iff (hbs : 0 < cfg.gdn.blockSize) (hkey : c.restoreKey = some key)
    (hpos : 0 < key.1) (hseqs : g.seqs = [seq]) (hzero : seq.numComputedTokens = 0)
    (hn : 0 < n) (hle : n ≤ remaining) (hcase : n = seq.len ∨ (cfg.gdn.blockSize : Int) ∣ n)
    (h : gdnChunk cfg c g seq n remaining = .ok (chunk, query)) :
    (chunk < seq.len → (cfg.gdn.blockSize : Int) ∣ chunk) ↔
      FastForwardAligned cfg.gdn.blockSize c.policy.policy cfg.logicalChunkAlignment
        (key.1 * cfg.gdn.blockSize) seq.len remaining c.captureTargets := by
  constructor
  · intro hdvd
    by_contra hna
    obtain ⟨hrem, hna⟩ := not_or.mp hna
    obtain ⟨hlen, hna⟩ := not_or.mp hna
    obtain ⟨halign, htarget⟩ := not_or.mp hna
    have hdvdck : (cfg.gdn.blockSize : Int) ∣ (key.1 * cfg.gdn.blockSize : Nat) :=
      Int.natCast_dvd_natCast.mpr (Nat.dvd_mul_left _ _)
    unfold gdnChunk at h
    obtain ⟨⟨c₁, q₁⟩, hplan, hcap⟩ := bind_eq_ok.mp h
    rw [hkey, hzero] at hplan
    obtain ⟨rfl, rfl⟩ := planGdnPrefixFastForward_short hbs hpos hn hle (by omega)
      (fun a ha => Int.not_le.mp fun hge => halign ⟨a, ha, hge⟩) hplan
    rcases capGdnCaptureBoundary_cases hcap with ⟨rfl, -⟩ | ⟨hp, seq', hseqs', t, ht, -, hs, he⟩
    · exact hrem ((Int.dvd_add_right hdvdck).mp (hdvd (by omega)))
    · obtain rfl : seq' = seq := List.singleton_inj.mp (hseqs'.symm.trans hseqs)
      exact htarget ⟨hp, t, ht, by omega, by omega⟩
  · intro hok hlt
    have hdvd := gdnChunk_endsOnBlock hseqs rfl (hcase.imp_left fun hn => by omega)
      (hzero ▸ Int.dvd_zero _)
      (fun _ _ key' hkey' => by
        obtain rfl : key = key' := Option.some.inj (hkey.symm.trans hkey')
        exact hok) h (by omega)
    rwa [hzero, zero_add] at hdvd

/-! ## One pass -/

variable {blockSize : Nat} {ops : BlockManagerOps M D} {mode : Option PreemptionMode}
  {p p' : Pass M D}

/-- A change of the sequences that starts prefills from the beginning, if at all. -/
theorem HeadAligned.map (h : HeadAligned blockSize g) {f : Seq → Seq}
    (hf : ∀ s, (f s).stage = .prefill → (f s).numComputedTokens = 0 ∨
      (s.stage = .prefill ∧ (f s).numComputedTokens = s.numComputedTokens)) :
    HeadAligned blockSize { g with seqs := g.seqs.map f } := by
  intro seq' hseq' hstage
  rw [List.head?_map] at hseq'
  obtain ⟨seq, hseq, rfl⟩ := Option.mem_map.mp hseq'
  rcases hf seq hstage with hzero | ⟨hpre, hsame⟩
  · rw [hzero]
    exact Int.dvd_zero _
  · rw [hsame]
    exact h seq hseq hpre

theorem HeadAligned.setStatus (h : HeadAligned blockSize g) (old new : SequenceStatus) :
    HeadAligned blockSize (g.setStatus old new) :=
  h.map fun s hs => .inr (by split at hs <;> exact ⟨hs, by split <;> rfl⟩)

theorem HeadAligned.kept {g' : SeqGroup} (h : HeadAligned blockSize g) (hk : g.Kept g') :
    HeadAligned blockSize g' := by
  intro seq' hseq' hstage
  obtain ⟨seq, hseq, hpre, -, hsame⟩ := hk seq' hseq' hstage
  rw [hsame]
  exact h seq hseq hpre

theorem isPrefill_setStatus (g : SeqGroup) (old new : SequenceStatus) :
    (g.setStatus old new).isPrefill = g.isPrefill := by
  unfold SeqGroup.isPrefill SeqGroup.setStatus
  dsimp only
  rw [List.head?_map, Option.any_map]
  congr 1
  funext s
  show decide ((if s.status = old then { s with status := new } else s).stage = _) = _
  split <;> rfl

/-- The only sequence of a group before its status was changed. -/
theorem seqs_setStatus {old new : SequenceStatus} {seq' : Seq}
    (h : (g.setStatus old new).seqs = [seq']) : ∃ seq, g.seqs = [seq] ∧
      seq'.len = seq.len ∧ seq'.numComputedTokens = seq.numComputedTokens := by
  obtain ⟨seq, hseq, rfl⟩ := List.map_eq_singleton_iff.mp h
  exact ⟨seq, hseq, by split <;> rfl, by split <;> rfl⟩

/-- A scheduled group: it is aligned, and so is the end of its chunk. -/
def Scheduled (blockSize : Nat) (sg : ScheduledSequenceGroup) : Prop :=
  HeadAligned blockSize sg.seqGroup ∧ EndsOnBlock blockSize sg

/-- The invariant of a pass. -/
structure PassInv (blockSize : Nat) (p : Pass M D) : Prop where
  waiting : ∀ g ∈ p.waiting, HeadAligned blockSize g
  running : ∀ g ∈ p.running, HeadAligned blockSize g
  swapped : ∀ g ∈ p.swapped, HeadAligned blockSize g
  preempted : ∀ g ∈ p.preempted, HeadAligned blockSize g
  swappedOut : ∀ g ∈ p.swappedOut, HeadAligned blockSize g
  leftoverSwapped : ∀ g ∈ p.leftoverSwapped, HeadAligned blockSize g
  leftoverWaiting : ∀ g ∈ p.leftoverWaiting, HeadAligned blockSize g
  runningDecodes : ∀ sg ∈ p.runningDecodes, Scheduled blockSize sg
  runningPrefills : ∀ sg ∈ p.runningPrefills, Scheduled blockSize sg
  swappedInDecodes : ∀ sg ∈ p.swappedInDecodes, Scheduled blockSize sg
  swappedInPrefills : ∀ sg ∈ p.swappedInPrefills, Scheduled blockSize sg
  prefills : ∀ sg ∈ p.prefills, Scheduled blockSize sg

/-- A list that gets one more element. -/
theorem forall_mem_concat {α : Type} {P : α → Prop} {l : List α} {a : α} (h : ∀ x ∈ l, P x)
    (ha : P a) : ∀ x ∈ l ++ [a], P x := by
  intro x hx
  rcases List.mem_append.mp hx with hx | hx
  · exact h x hx
  · obtain rfl := List.mem_singleton.mp hx
    exact ha

theorem preempt_inv (hg : HeadAligned blockSize g) (hp : PassInv blockSize p)
    (h : preempt ops mode g p = .ok p') : PassInv blockSize p' := by
  unfold preempt at h
  cases hmode : preemptionMode mode g with
  | recompute =>
    rw [hmode] at h
    unfold preemptByRecompute at h
    obtain ⟨-, h⟩ := guardNot_bind_eq_ok.mp h
    obtain ⟨m, -, h⟩ := bind_eq_ok.mp h
    obtain rfl := pure_eq_ok.mp h
    refine { hp with preempted := forall_mem_concat hp.preempted (hg.map fun s hs => ?_) }
    split at hs
    · next hrun => exact .inl (by rw [if_pos hrun]; rfl)
    · next hrun => exact .inr ⟨hs, by rw [if_neg hrun]⟩
  | swap =>
    rw [hmode] at h
    unfold preemptBySwap at h
    obtain ⟨-, h⟩ := guardNot_bind_eq_ok.mp h
    obtain ⟨m, -, h⟩ := bind_eq_ok.mp h
    obtain rfl := pure_eq_ok.mp h
    exact { hp with swappedOut := forall_mem_concat hp.swappedOut (hg.setStatus _ _) }

theorem preemptVictim_inv (hg : HeadAligned blockSize g) (hp : PassInv blockSize p)
    (h : preemptVictim cfg ops mode g p = .ok p') : PassInv blockSize p' := by
  unfold preemptVictim at h
  split at h
  · obtain ⟨⟨m, g'⟩, hcb, h⟩ := bind_eq_ok.mp h
    have hm : PassInv blockSize { p with blockManager := m } := { hp with }
    dsimp only at h
    split at h
    · obtain ⟨m', -, h⟩ := bind_eq_ok.mp h
      obtain rfl := pure_eq_ok.mp h
      exact { hp with }
    · exact preempt_inv (hg.kept (ops.outputProcCallback_kept hcb)) hm h
  · exact preempt_inv hg hp h

theorem makeRoom_inv {queue : List SeqGroup} {hasRoom : Bool} (hg : HeadAligned blockSize g)
    (hq : ∀ v ∈ queue, HeadAligned blockSize v) (hp : PassInv blockSize p)
    (h : makeRoom cfg ops mode g n queue p = .ok (p', hasRoom)) : PassInv blockSize p' := by
  induction queue generalizing p with
  | nil =>
    unfold makeRoom at h
    split at h
    · obtain ⟨rfl, -⟩ := Prod.mk.inj (pure_eq_ok.mp h)
      exact { hp with running := fun v hv => absurd hv List.not_mem_nil }
    · have hu : PassInv blockSize (uncount g n p) := { hp with }
      obtain ⟨p₁, h₁, h⟩ := bind_eq_ok.mp h
      obtain ⟨rfl, -⟩ := Prod.mk.inj (pure_eq_ok.mp h)
      exact { preemptVictim_inv hg hu h₁ with running := fun v hv => absurd hv List.not_mem_nil }
  | cons victim queue ih =>
    unfold makeRoom at h
    split at h
    · obtain ⟨rfl, -⟩ := Prod.mk.inj (pure_eq_ok.mp h)
      exact { hp with running := fun v hv => hq v (List.mem_reverse.mp hv) }
    · have hu : PassInv blockSize (uncount g n p) := { hp with }
      obtain ⟨p₁, h₁, h⟩ := bind_eq_ok.mp h
      exact ih (fun v hv => hq v (List.mem_cons_of_mem _ hv))
        (preemptVictim_inv (hq victim List.mem_cons_self) hu h₁) h

theorem scheduleRunning_inv (hg : Scheduled blockSize ⟨g, n⟩) (hp : PassInv blockSize p)
    (h : scheduleRunning cfg ops g n p = .ok p') : PassInv blockSize p' := by
  unfold scheduleRunning at h
  obtain ⟨m, -, h⟩ := bind_eq_ok.mp h
  obtain rfl := pure_eq_ok.mp h
  split
  · exact { hp with runningPrefills := forall_mem_concat hp.runningPrefills hg }
  · next hdec =>
    have hone : Scheduled blockSize ⟨g, 1⟩ := ⟨hg.1, fun hpre => absurd hpre hdec⟩
    exact { hp with runningDecodes := forall_mem_concat hp.runningDecodes hone }

theorem runningStep_inv (hc : cfg.enablePrefixCaching = true)
    (hp : PassInv cfg.gdn.blockSize p) (h : runningStep cfg ops mode p = .ok (some p')) :
    PassInv cfg.gdn.blockSize p' := by
  unfold runningStep at h
  cases hrun : p.running with
  | nil =>
    rw [hrun] at h
    cases pure_eq_ok.mp h
  | cons g queue =>
    rw [hrun] at h
    have hall := hp.running
    rw [hrun] at hall
    have hg : HeadAligned cfg.gdn.blockSize g := hall g List.mem_cons_self
    have hqueue : ∀ v ∈ queue, HeadAligned cfg.gdn.blockSize v := fun v hv =>
      hall v (List.mem_cons_of_mem g hv)
    obtain ⟨n, hn, h⟩ := bind_eq_ok.mp h
    split at h
    · cases pure_eq_ok.mp h
    obtain ⟨c, hchunk, h⟩ := bind_eq_ok.mp h
    split at h
    · obtain rfl := Option.some.inj (pure_eq_ok.mp h)
      exact { hp with running := hqueue }
    obtain ⟨⟨p₁, hasRoom⟩, hroom, h⟩ := bind_eq_ok.mp h
    have hp₁ : PassInv cfg.gdn.blockSize p₁ :=
      makeRoom_inv hg (fun v hv => hqueue v (List.mem_reverse.mp hv)) hp hroom
    dsimp only at h
    split at h
    · cases hsched : scheduleRunning cfg ops g c p₁ with
      | error e =>
        rw [hsched] at h
        cases h
      | ok p₂ =>
        rw [hsched] at h
        obtain rfl := Option.some.inj (Except.ok.inj h)
        exact scheduleRunning_inv ⟨hg, runningChunk_endsOnBlock hc hg hn hchunk⟩ hp₁ hsched
    · obtain rfl := Option.some.inj (pure_eq_ok.mp h)
      exact hp₁

theorem scheduleSwapped_inv {queue : List SeqGroup}
    (hg : Scheduled blockSize ⟨g.setStatus .swapped .running, n⟩)
    (hqueue : ∀ v ∈ queue, HeadAligned blockSize v) (hp : PassInv blockSize p)
    (h : scheduleSwapped cfg ops g queue n p = .ok p') : PassInv blockSize p' := by
  unfold scheduleSwapped at h
  obtain ⟨m₁, -, h⟩ := bind_eq_ok.mp h
  obtain ⟨m₂, -, h⟩ := bind_eq_ok.mp h
  obtain rfl := pure_eq_ok.mp h
  split
  · exact { hp with
      swapped := hqueue, swappedInPrefills := forall_mem_concat hp.swappedInPrefills hg }
  · next hdec =>
    have hone : Scheduled blockSize ⟨g.setStatus .swapped .running, 1⟩ :=
      ⟨hg.1, fun hpre => absurd hpre hdec⟩
    exact { hp with
      swapped := hqueue, swappedInDecodes := forall_mem_concat hp.swappedInDecodes hone }

theorem swappedStep_inv (hc : cfg.enablePrefixCaching = true)
    (hp : PassInv cfg.gdn.blockSize p) (h : swappedStep cfg ops p = .ok (some p')) :
    PassInv cfg.gdn.blockSize p' := by
  unfold swappedStep at h
  cases hsw : p.swapped with
  | nil =>
    rw [hsw] at h
    cases pure_eq_ok.mp h
  | cons g queue =>
    rw [hsw] at h
    have hall := hp.swapped
    rw [hsw] at hall
    have hg : HeadAligned cfg.gdn.blockSize g := hall g List.mem_cons_self
    have hqueue : ∀ v ∈ queue, HeadAligned cfg.gdn.blockSize v := fun v hv =>
      hall v (List.mem_cons_of_mem g hv)
    dsimp only at h
    cases hcan : ops.canSwapIn p.blockManager g (getNumLookaheadSlots cfg g.isPrefill false) with
    | later =>
      rw [hcan] at h
      cases pure_eq_ok.mp h
    | never =>
      rw [hcan] at h
      obtain rfl := Option.some.inj (pure_eq_ok.mp h)
      exact { hp with swapped := hqueue }
    | ok =>
      rw [hcan] at h
      dsimp only at h
      split at h
      · obtain rfl := Option.some.inj (pure_eq_ok.mp h)
        refine { hp with swapped := hqueue, leftoverSwapped := fun v hv => ?_ }
        rcases List.mem_cons.mp hv with rfl | hv
        · exact hg
        · exact hp.leftoverSwapped v hv
      obtain ⟨n, hn, h⟩ := bind_eq_ok.mp h
      split at h
      · cases pure_eq_ok.mp h
      cases hsched : scheduleSwapped cfg ops g queue n p with
      | error e =>
        rw [hsched] at h
        cases h
      | ok p₂ =>
        rw [hsched] at h
        obtain rfl := Option.some.inj (Except.ok.inj h)
        have hend : EndsOnBlock cfg.gdn.blockSize ⟨g.setStatus .swapped .running, n⟩ :=
          nominal_endsOnBlock hc hg hn (isPrefill_setStatus g _ _) fun _ h => seqs_setStatus h
        exact scheduleSwapped_inv ⟨hg.setStatus _ _, hend⟩ hqueue hp hsched

variable [DecidableEq D]

/-- A fast-forward that the next iteration of `_schedule_prefills` makes ends at a block. -/
def AlignedAdmission (cfg : Config) (ops : BlockManagerOps M D) (p : Pass M D) : Prop :=
  ∀ g queue, p.waiting = g :: queue → ∀ seq, g.getSeqs .waiting = [seq] →
    seq.numComputedTokens = 0 →
    ∀ n, getNumNewTokens cfg g .waiting true p.budget = .ok n → 0 < n →
    p.budget.canSchedule n g.getMaxNumRunningSeqs = true →
    ∀ m, ops.allocate p.blockManager g = .ok m →
    ∀ c, chooseGdnKeys cfg ops m p.gdnPrefixPolicy (g.setStatus .waiting .running) seq.len = .ok c →
    ∀ key ∈ c.restoreKey,
      FastForwardAligned cfg.gdn.blockSize c.policy.policy cfg.logicalChunkAlignment
        (key.1 * cfg.gdn.blockSize) seq.len p.budget.remainingTokenBudget c.captureTargets

/-- The iteration that admits a group. -/
theorem schedulePrefill_inv {queue : List SeqGroup} (hc : cfg.enablePrefixCaching = true)
    (hok : AlignedAdmission cfg ops p) (hw : p.waiting = g :: queue)
    (hseq : g.getSeqs .waiting = [seq])
    (hn : getNumNewTokens cfg g .waiting true p.budget = .ok n)
    (hcan : p.budget.canSchedule n g.getMaxNumRunningSeqs = true)
    (hp : PassInv cfg.gdn.blockSize p) (h : schedulePrefill cfg ops g seq queue n p = .ok p') :
    PassInv cfg.gdn.blockSize p' := by
  have hall := hp.waiting
  rw [hw] at hall
  have hg : HeadAligned cfg.gdn.blockSize g := hall g List.mem_cons_self
  have hqueue : ∀ v ∈ queue, HeadAligned cfg.gdn.blockSize v := fun v hv =>
    hall v (List.mem_cons_of_mem g hv)
  unfold schedulePrefill at h
  obtain ⟨m, hm, h⟩ := bind_eq_ok.mp h
  obtain ⟨⟨p₁, chunk, query⟩, hchunk, h⟩ := bind_eq_ok.mp h
  unfold prefillChunk at hchunk
  rw [if_pos hc] at hchunk
  obtain ⟨c, hchoose, hchunk⟩ := bind_eq_ok.mp hchunk
  obtain ⟨⟨chunk', query'⟩, hgdn, hchunk⟩ := bind_eq_ok.mp hchunk
  obtain ⟨rfl, hq⟩ := Prod.mk.inj (pure_eq_ok.mp hchunk)
  obtain ⟨rfl, rfl⟩ := Prod.mk.inj hq
  -- the chunk of the admitted group ends at a block
  have hend : EndsOnBlock cfg.gdn.blockSize ⟨g.setStatus .waiting .running, chunk⟩ := by
    intro hpre seq' hseqs' hlt
    dsimp only at hpre hseqs' hlt ⊢
    obtain ⟨seq₀, hseqs, hlen, hcomp⟩ := seqs_setStatus hseqs'
    have hpre : g.isPrefill = true := isPrefill_setStatus g _ _ ▸ hpre
    obtain rfl : seq₀ = seq := by
      have hmem : seq ∈ g.getSeqs .waiting := hseq ▸ List.mem_singleton_self seq
      have hmem := (List.mem_filter.mp hmem).1
      rw [hseqs] at hmem
      exact (List.mem_singleton.mp hmem).symm
    rw [hlen, hcomp] at hlt
    rw [hcomp]
    exact gdnChunk_endsOnBlock hseqs' hcomp (getNumNewTokens_single hc hseqs hpre hn)
      (hg.dvd hseqs hpre)
      (fun hzero hpos => hok g queue hw seq₀ hseq hzero n hn hpos hcan m hm c hchoose) hgdn hlt
  have hsched : Scheduled cfg.gdn.blockSize ⟨g.setStatus .waiting .running, chunk⟩ :=
    ⟨hg.setStatus _ _, hend⟩
  obtain ⟨p₂, hslots, h⟩ := bind_eq_ok.mp h
  obtain rfl := pure_eq_ok.mp h
  unfold appendMultiStepSlots at hslots
  split at hslots
  · obtain ⟨m', -, hslots⟩ := bind_eq_ok.mp hslots
    obtain rfl := pure_eq_ok.mp hslots
    exact { hp with waiting := hqueue, prefills := forall_mem_concat hp.prefills hsched }
  · obtain rfl := pure_eq_ok.mp hslots
    exact { hp with waiting := hqueue, prefills := forall_mem_concat hp.prefills hsched }

theorem prefillStep_inv (hc : cfg.enablePrefixCaching = true) (hok : AlignedAdmission cfg ops p)
    (hp : PassInv cfg.gdn.blockSize p) (h : prefillStep cfg ops p = .ok (some p')) :
    PassInv cfg.gdn.blockSize p' := by
  unfold prefillStep at h
  cases hw : p.waiting with
  | nil =>
    rw [hw] at h
    cases pure_eq_ok.mp h
  | cons g queue =>
    rw [hw] at h
    have hall := hp.waiting
    rw [hw] at hall
    have hqueue : ∀ v ∈ queue, HeadAligned cfg.gdn.blockSize v := fun v hv =>
      hall v (List.mem_cons_of_mem g hv)
    have hignore : PassInv cfg.gdn.blockSize (ignoreWaiting g queue p) :=
      { hp with waiting := hqueue }
    dsimp only at h
    split at h
    · next seq hseq =>
      obtain ⟨n, hn, h⟩ := bind_eq_ok.mp h
      obtain ⟨limit, -, h⟩ := bind_eq_ok.mp h
      split at h
      · obtain rfl := Option.some.inj (pure_eq_ok.mp h)
        exact hignore
      split at h
      · cases pure_eq_ok.mp h
      · obtain rfl := Option.some.inj (pure_eq_ok.mp h)
        exact hignore
      split at h
      · obtain rfl := Option.some.inj (pure_eq_ok.mp h)
        refine { hp with waiting := hqueue, leftoverWaiting := fun v hv => ?_ }
        rcases List.mem_cons.mp hv with rfl | hv
        · exact hall v List.mem_cons_self
        · exact hp.leftoverWaiting v hv
      split at h
      · cases pure_eq_ok.mp h
      · next hgo =>
        obtain ⟨-, hcan⟩ := not_or.mp hgo
        cases hsched : schedulePrefill cfg ops g seq queue n p with
        | error e =>
          rw [hsched] at h
          cases h
        | ok p₂ =>
          rw [hsched] at h
          obtain rfl := Option.some.inj (Except.ok.inj h)
          exact schedulePrefill_inv hc hok hw hseq hn (by simpa using hcan) hp hsched
    · exact (throw_eq_ok.mp h).elim

end Bi100.Scheduler
