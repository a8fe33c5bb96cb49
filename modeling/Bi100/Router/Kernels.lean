import Bi100.Lib.ExpField
import Bi100.Router.Selection
import Mathlib.Data.List.TakeWhile

/-!
# The top-k kernels for 64 experts (`factor_moe_topk_softmax.cu`, `moe_topk_softmax_v3.cu`)

The softmax and the selection of one row. The kernel of the factor uses one warp, where a lane has two
experts; that of v3 a block of 64 threads, whose order between two barriers is a part of the schedule.
Arithmetic is exact, so the check for NaN and infinity never applies.

In v3 `block_reduce_max` returns `smem[0]`, and `block_reduce_sum` writes `smem[tid]` without a
barrier between them; the same holds of `block_reduce_sum` and `block_argmax`. A thread that runs
after thread 0 reads what thread 0 has written.
-/

namespace Bi100.Router

open BlockReduce Selection ExpField

variable {K : Type}

/-- The threads of a row in the kernel of the factor. -/
def kWarpBits : Nat := 5

def kVpt : Nat := 2

section Factor

variable [ExpOrderedField K]

/-! ## The kernel of the factor -/

/-- The argmax of a lane. -/
def laneArgmax (rowChunk : Nat → Nat → K) (lane : Nat) : K × Nat :=
  if rowChunk lane 0 < rowChunk lane 1 then (rowChunk lane 1, lane * kVpt + 1)
  else (rowChunk lane 0, lane * kVpt)

/-- The lower index wins ties. -/
def better (mine other : K × Nat) : K × Nat :=
  if mine.1 < other.1 ∨ other.1 = mine.1 ∧ other.2 < mine.2 then other else mine

/-- The selection; every lane suppresses by its own result, and lane 0 writes. -/
def warpTopk : Nat → (Nat → Nat → K) → List (K × Nat)
  | 0, _ => []
  | n + 1, rowChunk =>
    let winner := butterfly better kWarpBits (laneArgmax rowChunk)
    winner 0 :: warpTopk n fun lane i =>
      if lane = (winner lane).2 / kVpt ∧ i = (winner lane).2 % kVpt then -1 else rowChunk lane i

/-- `topk_gating_softmax_kernel` of the factor. -/
def topkGatingSoftmaxFactor (input : Nat → K) (k : Nat) : List (K × Nat) :=
  let rowChunk := fun lane i => input (lane * kVpt + i)
  let threadMax := fun lane => max (rowChunk lane 0) (rowChunk lane 1)
  let rowMax := butterfly max kWarpBits threadMax
  let rowChunk := fun lane i => exp (rowChunk lane i - rowMax lane)
  let threadSum := fun lane => 0 + rowChunk lane 0 + rowChunk lane 1
  let rowSum := butterfly (· + ·) kWarpBits threadSum
  warpTopk k fun lane i => rowChunk lane i * (1 / rowSum lane)

/-! ## The kernel of v3 -/

/-- The threads of a row in the kernel of v3. -/
def kBlockBits : Nat := 6

/-- The orders of the threads of a block, between each two barriers. -/
structure Schedule where
  maxRounds : Nat → List Nat
  softmax : List Nat
  sumRounds : Nat → List Nat
  normalize : List Nat
  argmax : Nat → Nat → List Nat
  maxRounds_perm : ∀ b, (maxRounds b).Perm (List.range (2 ^ kBlockBits))
  softmax_perm : softmax.Perm (List.range (2 ^ kBlockBits))
  sumRounds_perm : ∀ b, (sumRounds b).Perm (List.range (2 ^ kBlockBits))
  normalize_perm : normalize.Perm (List.range (2 ^ kBlockBits))
  argmax_perm : ∀ n b, (argmax n b).Perm (List.range (2 ^ kBlockBits))

/-- A thread reads the result of a reduction in `smem[0]`, and writes its value for the next one. -/
def reuseThread (f : K → K → K) (m : (Nat → K) × (Nat → K)) (tid : Nat) :
    (Nat → K) × (Nat → K) :=
  let val := f (m.2 tid) (m.1 0)
  (Function.update m.1 tid val, Function.update m.2 tid val)

/-- `topk_gating_softmax_kernel` of v3; its selection loop is that of `moe_ops_impl.cu`. -/
def topkGatingSoftmaxV3 (input : Nat → K) (k : Nat) (sched : Schedule) : List (K × Nat) :=
  let smem := orderedRounds max kBlockBits sched.maxRounds input
  let m := sched.softmax.foldl (reuseThread fun val rowMax => exp (val - rowMax)) (smem, input)
  let smem := orderedRounds (· + ·) kBlockBits sched.sumRounds m.1
  let m := sched.normalize.foldl (reuseThread fun val rowSum => val * (1 / rowSum)) (smem, m.2)
  selectionLoop kBlockBits sched.argmax k m.2

end Factor

/-! ## Reading after thread 0 -/

/-- Thread 0 runs before thread `tid`. -/
def RunsLate (order : List Nat) (tid : Nat) : Prop := 0 ∈ order.takeWhile (· ≠ tid)

instance (order : List Nat) : DecidablePred (RunsLate order) := fun _ =>
  inferInstanceAs (Decidable (0 ∈ List.takeWhile _ _))

theorem not_runsLate_zero (order : List Nat) : ¬ RunsLate order 0 := fun h => by
  have hne := List.mem_takeWhile_imp h
  exact absurd rfl (of_decide_eq_true hne)

theorem reuse_spec (f : K → K → K) {order : List Nat} (hnodup : order.Nodup)
    (m : (Nat → K) × (Nat → K)) :
    (∀ t ∈ order, (order.foldl (reuseThread f) m).2 t =
      f (m.2 t) (if RunsLate order t then f (m.2 0) (m.1 0) else m.1 0)) ∧
    (∀ t ∈ order, (order.foldl (reuseThread f) m).1 t = (order.foldl (reuseThread f) m).2 t) ∧
    ∀ t, t ∉ order → (order.foldl (reuseThread f) m).2 t = m.2 t ∧
      (order.foldl (reuseThread f) m).1 t = m.1 t := by
  induction order generalizing m with
  | nil => exact ⟨nofun, nofun, fun t _ => ⟨rfl, rfl⟩⟩
  | cons u order ih =>
    obtain ⟨hu, hnodup⟩ := List.nodup_cons.mp hnodup
    obtain ⟨hval, hsmem, hother⟩ := ih hnodup (reuseThread f m u)
    rw [List.foldl_cons]
    have hself : (reuseThread f m u).2 u = f (m.2 u) (m.1 0) := Function.update_self _ _ _
    have hself' : (reuseThread f m u).1 u = f (m.2 u) (m.1 0) := Function.update_self _ _ _
    have hne : ∀ {t}, t ≠ u → (reuseThread f m u).2 t = m.2 t ∧ (reuseThread f m u).1 t = m.1 t :=
      fun ht => ⟨Function.update_of_ne ht _ _, Function.update_of_ne ht _ _⟩
    refine ⟨fun t ht => ?_, fun t ht => ?_, fun t ht => ?_⟩
    · by_cases htu : t = u
      · subst htu
        have hearly : ¬ RunsLate (t :: order) t := by simp [RunsLate]
        rw [(hother t hu).1, hself, if_neg hearly]
      · have hmem := (List.mem_cons.mp ht).resolve_left htu
        have hcons : RunsLate (u :: order) t ↔ 0 = u ∨ RunsLate order t := by
          simp [RunsLate, Ne.symm htu]
        rw [hval t hmem, (hne htu).1]
        by_cases hu0 : u = 0
        · -- Thread 0 has just run.
          subst hu0
          have hlate : ¬ RunsLate order t := fun h => hu (List.takeWhile_sublist _ |>.mem h)
          rw [if_neg hlate, if_pos (hcons.mpr (.inl rfl)), hself']
        · rw [(hne (Ne.symm hu0)).1, (hne (Ne.symm hu0)).2]
          refine congrArg _ (if_congr ?_ rfl rfl)
          rw [hcons]
          exact (or_iff_right fun h => hu0 h.symm).symm
    · by_cases htu : t = u
      · subst htu
        rw [(hother t hu).1, (hother t hu).2, hself, hself']
      · exact hsmem t ((List.mem_cons.mp ht).resolve_left htu)
    · obtain ⟨htu, hmem⟩ := not_or.mp (mt List.mem_cons.mpr ht)
      exact ⟨(hother t hmem).1.trans (hne htu).1, (hother t hmem).2.trans (hne htu).2⟩

end Bi100.Router
