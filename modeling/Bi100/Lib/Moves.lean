import Bi100.Lib.Streams

/-!
# Batches of copies

The memory is a function from cells to values, with an error flag. A batch copies cells or sets the
flag.

- `Parallel`: a batch of copies whose order does not matter, and what it leaves (`Parallel.cell_fst`,
  `cell_of_not_mem`).
- `independent_of_within`: batches on disjoint sets of cells.
-/

namespace Py.Streams

variable {L V : Type} [DecidableEq L]

structure Memory (L V : Type) where
  cell : L → V
  error : Bool

inductive Op (L : Type) where
  | move (dst src : L)
  | clear
  | raise
deriving DecidableEq

namespace Op

def run : Op L → Memory L V → Memory L V
  | .move dst src, mem => { mem with cell := Function.update mem.cell dst (mem.cell src) }
  | .clear, mem => { mem with error := false }
  | .raise, mem => { mem with error := true }

/-- Only cells of `A` are read and written. -/
def Within (A : L → Prop) : Op L → Prop
  | .move dst src => A dst ∧ A src
  | .clear => True
  | .raise => True

end Op

def runs (ops : List (Op L)) : Batch (Memory L V) := ops.map Op.run

/-- Copies `(destination, source)`. -/
def moves (ms : List (L × L)) : List (Op L) := ms.map fun m => .move m.1 m.2

/-- The destinations are distinct, and none is a source. -/
structure Parallel (ms : List (L × L)) : Prop where
  distinct : (ms.map Prod.fst).Nodup
  apart : ∀ m ∈ ms, ∀ m' ∈ ms, m.1 ≠ m'.2

theorem commute_move {dst src dst' src' : L} (hd : dst ≠ dst') (hs : dst ≠ src')
    (hs' : src ≠ dst') :
    Function.Commute (Op.run (V := V) (.move dst src)) (Op.run (.move dst' src')) := by
  intro mem
  show Memory.mk _ _ = Memory.mk _ _
  simp only [Op.run, Function.update_of_ne hs', Function.update_of_ne hs.symm]
  rw [Function.update_comm hd]

theorem independent_of_within {A B : L → Prop} (hAB : ∀ x, A x → ¬ B x) {ms : List (L × L)}
    (hA : ∀ m ∈ ms, A m.1 ∧ A m.2) {ops : List (Op L)} (hB : ∀ op ∈ ops, op.Within B) :
    Independent (runs (V := V) (moves ms)) (runs ops) := by
  intro f hf g hg
  obtain ⟨op, hop, rfl⟩ := List.mem_map.mp hf
  obtain ⟨⟨dst, src⟩, hm, rfl⟩ := List.mem_map.mp hop
  obtain ⟨op', hop', rfl⟩ := List.mem_map.mp hg
  obtain ⟨hdst, hsrc⟩ := hA _ hm
  cases op' with
  | move dst' src' =>
    obtain ⟨hdst', hsrc'⟩ := hB _ hop'
    exact commute_move (fun h => hAB _ hdst (h ▸ hdst')) (fun h => hAB _ hdst (h ▸ hsrc'))
      fun h => hAB _ hsrc (h ▸ hdst')
  | clear => exact fun mem => rfl
  | raise => exact fun mem => rfl

theorem Parallel.unordered {ms : List (L × L)} (h : Parallel ms) :
    Unordered (runs (V := V) (moves ms)) := by
  unfold Unordered runs moves
  rw [List.map_map, List.pairwise_map]
  have hd : ms.Pairwise fun m m' => m.1 ≠ m'.1 := List.pairwise_map.mp h.distinct
  refine hd.imp_of_mem fun {m m'} hm hm' hne => ?_
  exact commute_move hne (h.apart m hm m' hm') (h.apart m' hm' m hm).symm

theorem cell_of_not_mem {ms : List (L × L)} {mem : Memory L V} {x : L}
    (h : x ∉ ms.map Prod.fst) : (runBatch (runs (moves ms)) mem).cell x = mem.cell x := by
  induction ms generalizing mem with
  | nil => rfl
  | cons m ms ih =>
    rw [List.map_cons, List.mem_cons, not_or] at h
    show (runBatch (runs (moves ms)) (Op.run (.move m.1 m.2) mem)).cell x = mem.cell x
    rw [ih h.2]
    exact Function.update_of_ne h.1 ..

theorem error_moves {ms : List (L × L)} {mem : Memory L V} :
    (runBatch (runs (moves ms)) mem).error = mem.error := by
  induction ms generalizing mem with
  | nil => rfl
  | cons m ms ih => exact @ih (Op.run (.move m.1 m.2) mem)

/-- Every destination holds what its source held. -/
theorem Parallel.cell_fst {ms : List (L × L)} (h : Parallel ms) {mem : Memory L V} {m : L × L}
    (hm : m ∈ ms) : (runBatch (runs (moves ms)) mem).cell m.1 = mem.cell m.2 := by
  induction ms generalizing mem with
  | nil => exact absurd hm List.not_mem_nil
  | cons m₀ ms ih =>
    obtain ⟨hnot, hdistinct⟩ := List.nodup_cons.mp h.distinct
    show (runBatch (runs (moves ms)) (Op.run (.move m₀.1 m₀.2) mem)).cell m.1 = mem.cell m.2
    rcases List.mem_cons.mp hm with rfl | hm
    · rw [cell_of_not_mem hnot]
      exact Function.update_self ..
    · have hrest : Parallel ms := ⟨hdistinct, fun a ha b hb =>
        h.apart a (List.mem_cons_of_mem _ ha) b (List.mem_cons_of_mem _ hb)⟩
      rw [ih hrest hm]
      refine Function.update_of_ne ?_ ..
      exact (h.apart m₀ List.mem_cons_self m (List.mem_cons_of_mem _ hm)).symm

end Py.Streams
