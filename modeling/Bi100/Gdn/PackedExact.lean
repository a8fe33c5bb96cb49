import Bi100.Gdn.PackedDecode

/-!
# What the packed decode kernel computes

- `raceFree`: a thread has access to its own column of its head's state only.
- `thread_spec`: the column that a thread leaves alone, and what it writes to the output.
- `packedDecode_spec`: a launch leaves what the threads do alone, whatever its orders.
-/

namespace Bi100.Gdn.PackedDecode

open BlockReduce ExpField Threads

variable {K : Type} [ExpField K]

/-- The element of the state is in the thread's column, and that of the output is the thread's. -/
def Owns (t : Thread) : Cell → Prop
  | .state i => i / (kHeadDim * kHeadDim) = t.1 ∧ i % kHeadDim = t.2
  | .output i => i = vectorOffset t.1 + t.2

theorem stateIndex_owned (t : Thread) {row : Nat} (h : row < kHeadDim) :
    Owns t (.state (stateIndex t row)) := by
  have hcolumn := t.2.2
  unfold Owns stateIndex stateOffset
  unfold kHeadDim at h hcolumn ⊢
  omega

theorem output_owned (t : Thread) : Owns t (.output (vectorOffset t.1 + t.2)) := rfl

theorem stateIndex_inj (t : Thread) {i j : Nat} (h : stateIndex t i = stateIndex t j) : i = j := by
  unfold stateIndex kHeadDim at h
  omega

section Thread

variable (args : Args K) (block : Nat → Block K)

theorem raceFree : RaceFree (access args block) Owns where
  owned t phase cell := by
    intro hcell
    cases phase <;> simp only [access] at hcell
    case memory row memory =>
      split at hcell
      · next hrow =>
        obtain rfl := Option.some.inj hcell
        exact stateIndex_owned t hrow
      · cases hcell
    case load row delta result =>
      split at hcell
      · next hrow =>
        obtain rfl := Option.some.inj hcell
        exact stateIndex_owned t hrow
      · cases hcell
    case store row delta result updated =>
      split at hcell
      · next hrow =>
        obtain rfl := Option.some.inj hcell
        exact stateIndex_owned t hrow
      · cases hcell
    case result result =>
      obtain rfl := Option.some.inj hcell
      rfl
    case done => cases hcell
  disjoint t u cell ht hu := by
    cases cell with
    | state i => exact Prod.ext (Fin.ext (ht.1.symm.trans hu.1)) (Fin.ext (ht.2.symm.trans hu.2))
    | output i =>
      have heq : vectorOffset t.1 + t.2 = vectorOffset u.1 + u.2 := ht.symm.trans hu
      have hcolumn := t.2.2
      have hcolumn' := u.2.2
      unfold vectorOffset kHeadDim at heq
      unfold kHeadDim at hcolumn hcolumn'
      exact Prod.ext (Fin.ext (by omega)) (Fin.ext (by omega))

/-! ## A thread alone -/

variable (t : Thread) (column : Nat → K)

/-- `memory` at the end of the first loop. -/
def memoryOf (n : Nat) : K :=
  ∑ row ∈ Finset.range n, (block t.1).normalizedKey row * (column row * (block t.1).decay)

def deltaOf : K :=
  (args.mixedQkv (valueOffset t.1 + t.2) - memoryOf block t column kHeadDim) * (block t.1).beta

/-- The column after the kernel. -/
def updatedOf (row : Nat) : K :=
  column row * (block t.1).decay + (block t.1).normalizedKey row * deltaOf args block t column

def resultOf (n : Nat) : K :=
  ∑ row ∈ Finset.range n, (block t.1).normalizedQuery row * updatedOf args block t column row

variable {c : Config Thread Cell K (Phase K)}

/-- The first loop. -/
theorem solo_memory (hc : c.locals t = .memory 0 0)
    (hcolumn : ∀ row < kHeadDim, c.mem (.state (stateIndex t row)) = column row) {n : Nat}
    (hn : n < kHeadDim) :
    (solo (access args block) n t c).locals t = .memory n (memoryOf block t column n) ∧
      (solo (access args block) n t c).mem = c.mem := by
  induction n with
  | zero => exact ⟨hc, rfl⟩
  | succ n ih =>
    obtain ⟨hlocals, hmem⟩ := ih (Nat.lt_of_succ_lt hn)
    rw [solo_succ]
    unfold step
    rw [hlocals]
    simp only [access, if_pos (Nat.lt_of_succ_lt hn), if_pos hn, Function.update_self, hmem,
      hcolumn n (Nat.lt_of_succ_lt hn), and_true]
    unfold memoryOf
    rw [Finset.sum_range_succ]

/-- The end of the first loop. -/
theorem solo_delta (hc : c.locals t = .memory 0 0)
    (hcolumn : ∀ row < kHeadDim, c.mem (.state (stateIndex t row)) = column row) :
    (solo (access args block) kHeadDim t c).locals t = .load 0 (deltaOf args block t column) 0 ∧
      (solo (access args block) kHeadDim t c).mem = c.mem := by
  have hlast : 127 < kHeadDim := by decide
  obtain ⟨hlocals, hmem⟩ := solo_memory args block t column hc hcolumn hlast
  have hsum : memoryOf block t column kHeadDim = memoryOf block t column 127 +
      (block t.1).normalizedKey 127 * (column 127 * (block t.1).decay) :=
    Finset.sum_range_succ _ 127
  have hsteps : solo (access args block) kHeadDim t c =
      step (access args block) (solo (access args block) 127 t c) t :=
    (congrArg (fun n => solo (access args block) n t c)
      (by decide : kHeadDim = 127 + 1)).trans (solo_succ 127 t c)
  rw [hsteps]
  unfold step
  rw [hlocals]
  simp only [access, if_pos hlast, if_neg (show ¬ 127 + 1 < kHeadDim by decide),
    Function.update_self, hmem, hcolumn _ hlast, and_true]
  unfold deltaOf
  rw [hsum]

/-- What the second loop has left of the column and the output. -/
structure Written (n : Nat) (mem mem' : Cell → K) : Prop where
  updated : ∀ row < n, mem' (.state (stateIndex t row)) = updatedOf args block t column row
  old : ∀ row, n ≤ row → mem' (.state (stateIndex t row)) = mem (.state (stateIndex t row))

/-- Two accesses: an iteration of the second loop. -/
theorem step_iteration {n : Nat} (hn : n < kHeadDim) {c' : Config Thread Cell K (Phase K)}
    (hlocals : c'.locals t =
      .load n (deltaOf args block t column) (resultOf args block t column n))
    (hmem : Written args block t column n c.mem c'.mem)
    (hcolumn : c.mem (.state (stateIndex t n)) = column n) :
    (step (access args block) (step (access args block) c' t) t).locals t =
      (if n + 1 < kHeadDim then
        .load (n + 1) (deltaOf args block t column) (resultOf args block t column (n + 1))
      else .result (resultOf args block t column (n + 1))) ∧
    Written args block t column (n + 1) c.mem
      (step (access args block) (step (access args block) c' t) t).mem := by
  have hload : step (access args block) c' t =
      { c' with locals := Function.update c'.locals t (.store n (deltaOf args block t column)
        (resultOf args block t column n) (updatedOf args block t column n)) } := by
    unfold step
    rw [hlocals]
    simp only [access, if_pos hn, hmem.old n (Nat.le_refl n), hcolumn]
    rfl
  have hstore : step (access args block) (step (access args block) c' t) t =
      { locals := Function.update (step (access args block) c' t).locals t
          (if n + 1 < kHeadDim then
            .load (n + 1) (deltaOf args block t column) (resultOf args block t column (n + 1))
          else .result (resultOf args block t column (n + 1)))
        mem := Function.update c'.mem (.state (stateIndex t n)) (updatedOf args block t column n) } := by
    have hresult : resultOf args block t column (n + 1) = resultOf args block t column n +
        (block t.1).normalizedQuery n * updatedOf args block t column n :=
      Finset.sum_range_succ _ n
    rw [hload]
    unfold step
    simp only [Function.update_self, access, if_pos hn, hresult]
  rw [hstore]
  refine ⟨Function.update_self .., ⟨fun row hrow => ?_, fun row hrow => ?_⟩⟩
  · rcases Nat.lt_succ_iff_lt_or_eq.mp hrow with hlt | rfl
    · refine (Function.update_of_ne (fun h => ?_) _ _).trans (hmem.updated row hlt)
      have hrow' := stateIndex_inj t (Cell.state.inj h)
      omega
    · exact Function.update_self ..
  · refine (Function.update_of_ne (fun h => ?_) _ _).trans (hmem.old row (Nat.le_of_succ_le hrow))
    have hrow' := stateIndex_inj t (Cell.state.inj h)
    omega

/-- The second loop. -/
theorem solo_result (hc : c.locals t = .memory 0 0)
    (hcolumn : ∀ row < kHeadDim, c.mem (.state (stateIndex t row)) = column row) {n : Nat}
    (hn : n ≤ kHeadDim) :
    (solo (access args block) (kHeadDim + 2 * n) t c).locals t =
      (if n < kHeadDim then
        .load n (deltaOf args block t column) (resultOf args block t column n)
      else .result (resultOf args block t column n)) ∧
    Written args block t column n c.mem (solo (access args block) (kHeadDim + 2 * n) t c).mem := by
  induction n with
  | zero =>
    obtain ⟨hlocals, hmem⟩ := solo_delta args block t column hc hcolumn
    rw [Nat.mul_zero, Nat.add_zero, hlocals, hmem, if_pos (by decide)]
    exact ⟨rfl, fun row hrow => absurd hrow (Nat.not_lt_zero row), fun _ _ => rfl⟩
  | succ n ih =>
    have hlt : n < kHeadDim := hn
    obtain ⟨hlocals, hmem⟩ := ih (Nat.le_of_succ_le hn)
    rw [if_pos hlt] at hlocals
    rw [Nat.mul_succ, ← Nat.add_assoc, solo_succ, solo_succ]
    exact step_iteration args block t column hlt hlocals hmem (hcolumn n hlt)

/-- **What a thread leaves alone.** -/
theorem thread_spec (hc : c.locals t = .memory 0 0)
    (hcolumn : ∀ row < kHeadDim, c.mem (.state (stateIndex t row)) = column row) :
    access args block t ((solo (access args block) kAccesses t c).locals t) = .finished ∧
    (∀ row < kHeadDim, (solo (access args block) kAccesses t c).mem (.state (stateIndex t row)) =
      updatedOf args block t column row) ∧
    (solo (access args block) kAccesses t c).mem (.output (vectorOffset t.1 + t.2)) =
      resultOf args block t column kHeadDim := by
  obtain ⟨hlocals, hmem⟩ := solo_result args block t column hc hcolumn (Nat.le_refl kHeadDim)
  rw [if_neg (Nat.lt_irrefl _)] at hlocals
  unfold kAccesses
  rw [solo_succ]
  unfold step
  rw [hlocals]
  simp only [access, Function.update_self, true_and, and_true]
  intro row hrow
  have hne : Cell.state (stateIndex t row) ≠ Cell.output (vectorOffset t.1 + t.2) := by simp
  rw [Function.update_of_ne hne]
  exact hmem.updated row hrow

end Thread

/-! ## A launch -/

/-- The reductions of a block give the sums of squares, in any order of the threads. -/
theorem normalized_eq (o : Arith K) (args : Args K) {order : Nat → List Nat}
    (horder : ∀ round, (order round).Perm (List.range kHeadDim)) (batchHead column : Nat) :
    (normalized o args order batchHead).1 column =
      args.mixedQkv (queryOffset batchHead + column) * o.rsqrt ((∑ i ∈ Finset.range kHeadDim,
        args.mixedQkv (queryOffset batchHead + i) * args.mixedQkv (queryOffset batchHead + i)) +
          o.eps) * o.scale ∧
    (normalized o args order batchHead).2 column =
      args.mixedQkv (keyOffset batchHead + column) * o.rsqrt ((∑ i ∈ Finset.range kHeadDim,
        args.mixedQkv (keyOffset batchHead + i) * args.mixedQkv (keyOffset batchHead + i)) +
          o.eps) := by
  have hsum : ∀ r : Nat → K × K, orderedRounds (· + ·) 7 order r 0 =
      ∑ i ∈ Finset.range kHeadDim, r i := by
    intro r
    rw [orderedRounds_eq horder (by decide), treeRounds_zero (α := K × K) (· + ·) 0]
    exact fold_add_eq_sum r kHeadDim
  unfold normalized
  simp only [hsum, Prod.fst_sum, Prod.snd_sum, and_self]

/-- **The kernel computes what its threads do alone.** -/
theorem packedDecode_spec (o : Arith K) (args : Args K) (state : Nat → K) (launch : Launch K)
    (t : Thread) :
    (packedDecode o args state launch).1 (vectorOffset t.1 + t.2) =
      resultOf args (blocks o args launch.order) t (fun row => state (stateIndex t row)) kHeadDim ∧
    ∀ row < kHeadDim, (packedDecode o args state launch).2 (stateIndex t row) =
      updatedOf args (blocks o args launch.order) t (fun row => state (stateIndex t row)) row := by
  obtain ⟨hfinished, hstate, houtput⟩ := thread_spec args (blocks o args launch.order) t
    (fun row => state (stateIndex t row)) (c := start state launch.uninit) rfl fun _ _ => rfl
  have hsame := run_of_finished (raceFree args (blocks o args launch.order)) launch.complete
    hfinished
  refine ⟨(hsame.mem _ (output_owned t)).trans houtput, fun row hrow => ?_⟩
  exact (hsame.mem _ (stateIndex_owned t hrow)).trans (hstate row hrow)

end Bi100.Gdn.PackedDecode
