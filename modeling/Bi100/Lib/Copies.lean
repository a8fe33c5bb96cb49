import Mathlib.Data.List.Nodup
import Mathlib.Logic.Function.Basic
import Mathlib.Tactic.Common

/-!
# Block copies between two memories

A memory is a function from block numbers to contents. `copies l src dst` is `dst` after the
copies `(source, destination)` of `l`, in order. With distinct destinations every destination
ends up with its source's content, whatever the order.
-/

namespace Py

variable {D : Type}

def copies (l : List (Nat × Nat)) (src dst : Nat → D) : Nat → D :=
  l.foldl (fun m p => Function.update m p.2 (src p.1)) dst

theorem copies_append (l l' : List (Nat × Nat)) (src dst : Nat → D) :
    copies (l ++ l') src dst = copies l' src (copies l src dst) := List.foldl_append

/-- Only what was in `x` matters for `x`. -/
theorem copies_congr {l : List (Nat × Nat)} {src dst dst' : Nat → D} {x : Nat}
    (h : dst x = dst' x) : copies l src dst x = copies l src dst' x := by
  induction l generalizing dst dst' with
  | nil => exact h
  | cons p l ih =>
    refine ih ?_
    show Function.update dst p.2 (src p.1) x = Function.update dst' p.2 (src p.1) x
    by_cases hx : x = p.2
    · rw [hx, Function.update_self, Function.update_self]
    · rw [Function.update_of_ne hx, Function.update_of_ne hx, h]

theorem copies_of_not_mem {l : List (Nat × Nat)} {src dst : Nat → D} {x : Nat}
    (h : x ∉ l.map Prod.snd) : copies l src dst x = dst x := by
  induction l generalizing dst with
  | nil => rfl
  | cons p l ih =>
    simp only [List.map_cons, List.mem_cons, not_or] at h
    rw [copies, List.foldl_cons]
    exact (ih h.2).trans (Function.update_of_ne h.1 ..)

theorem copies_of_mem {l : List (Nat × Nat)} {src dst : Nat → D} {a x : Nat}
    (hn : (l.map Prod.snd).Nodup) (h : (a, x) ∈ l) : copies l src dst x = src a := by
  induction l generalizing dst with
  | nil => simp at h
  | cons p l ih =>
    rw [List.map_cons, List.nodup_cons] at hn
    rw [copies, List.foldl_cons]
    rcases List.mem_cons.mp h with rfl | h
    · exact (copies_of_not_mem hn.1).trans (Function.update_self ..)
    · exact ih hn.2 h

end Py
