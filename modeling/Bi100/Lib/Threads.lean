import Mathlib.Data.List.Count
import Mathlib.Logic.Function.Basic

/-!
# Threads that own their cells

A thread makes one access to the memory at a time, and a schedule says which thread is next. If no
two threads have access to a cell, a thread ends as it does alone, whatever the schedule
(`run_eq_solo`).

- `trace`: the accesses of a run, with their threads.
- `run_of_finished`: a schedule with enough steps for a thread takes it to its end.
-/

namespace Bi100.Threads

variable {T A V L : Type}

/-- What a thread does next. -/
inductive Access (A V L : Type) where
  | read (cell : A) (next : V → L)
  | write (cell : A) (value : V) (next : L)
  | finished

def Access.cell? : Access A V L → Option A
  | .read cell _ => some cell
  | .write cell _ _ => some cell
  | .finished => none

/-- The local states of the threads, and the memory. -/
@[ext] structure Config (T A V L : Type) where
  locals : T → L
  mem : A → V

variable [DecidableEq T] [DecidableEq A] {prog : T → L → Access A V L} {own : T → A → Prop}

def step (prog : T → L → Access A V L) (c : Config T A V L) (t : T) : Config T A V L :=
  match prog t (c.locals t) with
  | .read cell next => { c with locals := Function.update c.locals t (next (c.mem cell)) }
  | .write cell value next =>
    { locals := Function.update c.locals t next, mem := Function.update c.mem cell value }
  | .finished => c

def run (prog : T → L → Access A V L) (sched : List T) (c : Config T A V L) : Config T A V L :=
  sched.foldl (step prog) c

/-- The accesses of a run. -/
def trace (prog : T → L → Access A V L) : List T → Config T A V L → List (T × A)
  | [], _ => []
  | t :: sched, c =>
    ((prog t (c.locals t)).cell?.map fun cell => (t, cell)).toList ++ trace prog sched (step prog c t)

/-- Every thread has `n` steps. -/
def Enough (n : Nat) (sched : List T) : Prop := ∀ t, n ≤ sched.count t

/-- `n` steps of a thread alone. -/
def solo (prog : T → L → Access A V L) (n : Nat) (t : T) (c : Config T A V L) : Config T A V L :=
  run prog (List.replicate n t) c

/-- Every access of a thread is to a cell it owns, and no two threads own a cell. -/
structure RaceFree (prog : T → L → Access A V L) (own : T → A → Prop) : Prop where
  owned : ∀ (t : T) (l : L) (cell : A), (prog t l).cell? = some cell → own t cell
  disjoint : ∀ (t u : T) (cell : A), own t cell → own u cell → t = u

/-- Two configurations that a thread cannot tell apart. -/
structure Same (own : T → A → Prop) (t : T) (c d : Config T A V L) : Prop where
  locals : c.locals t = d.locals t
  mem : ∀ cell, own t cell → c.mem cell = d.mem cell

omit [DecidableEq T] [DecidableEq A] in
theorem Same.trans {t : T} {c d e : Config T A V L} (h : Same own t c d) (h' : Same own t d e) :
    Same own t c e :=
  ⟨h.locals.trans h'.locals, fun cell hcell => (h.mem cell hcell).trans (h'.mem cell hcell)⟩

/-- A step of another thread. -/
theorem step_other (h : RaceFree prog own) {t u : T} (hne : u ≠ t) (c : Config T A V L) :
    Same own t (step prog c u) c := by
  unfold step
  split
  · exact ⟨Function.update_of_ne hne.symm _ _, fun _ _ => rfl⟩
  · next cell value next haccess =>
    refine ⟨Function.update_of_ne hne.symm _ _, fun cell' hcell' => Function.update_of_ne ?_ _ _⟩
    rintro rfl
    exact hne (h.disjoint u t cell' (h.owned u _ _ (congrArg Access.cell? haccess)) hcell')
  · exact ⟨rfl, fun _ _ => rfl⟩

/-- A step of the thread. -/
theorem step_self (h : RaceFree prog own) {t : T} {c d : Config T A V L} (hsame : Same own t c d) :
    Same own t (step prog c t) (step prog d t) := by
  unfold step
  rw [← hsame.locals]
  cases haccess : prog t (c.locals t) with
  | read cell next =>
    have hcell := hsame.mem cell (h.owned t _ _ (congrArg Access.cell? haccess))
    refine ⟨?_, hsame.mem⟩
    simp only [Function.update_self, hcell]
  | write cell value next =>
    refine ⟨by simp only [Function.update_self], fun cell' hcell' => ?_⟩
    simp only [Function.update_apply, hsame.mem cell' hcell']
  | finished => exact hsame

/-- **A thread ends as it does alone**, after as many steps as it has in the schedule. -/
theorem run_eq_solo (h : RaceFree prog own) (sched : List T) (t : T) (c : Config T A V L) :
    Same own t (run prog sched c) (solo prog (sched.count t) t c) := by
  have hgeneral : ∀ c d : Config T A V L, Same own t c d →
      Same own t (run prog sched c) (solo prog (sched.count t) t d) := by
    induction sched with
    | nil => exact fun c d hsame => hsame
    | cons u sched ih =>
      intro c d hsame
      by_cases hut : u = t
      · subst hut
        rw [List.count_cons_self]
        exact ih _ _ (step_self h hsame)
      · rw [List.count_cons_of_ne hut]
        exact ih _ _ ((step_other h hut c).trans hsame)
  exact hgeneral c c ⟨rfl, fun _ _ => rfl⟩

theorem solo_succ (n : Nat) (t : T) (c : Config T A V L) :
    solo prog (n + 1) t c = step prog (solo prog n t c) t := by
  unfold solo run
  rw [List.replicate_succ', List.foldl_append]
  rfl

theorem solo_add (m n : Nat) (t : T) (c : Config T A V L) :
    solo prog (m + n) t c = solo prog n t (solo prog m t c) := by
  unfold solo run
  rw [← List.replicate_append_replicate, List.foldl_append]

/-- A finished thread stays as it is. -/
theorem solo_finished {t : T} {c : Config T A V L} (hfinished : prog t (c.locals t) = .finished)
    (n : Nat) : solo prog n t c = c := by
  induction n with
  | zero => rfl
  | succ n ih =>
    rw [solo_succ, ih]
    unfold step
    rw [hfinished]

/-- A schedule with enough steps for every thread. -/
theorem run_of_finished (h : RaceFree prog own) {sched : List T} {t : T} {c : Config T A V L}
    {n : Nat} (hn : Enough n sched)
    (hfinished : prog t ((solo prog n t c).locals t) = .finished) :
    Same own t (run prog sched c) (solo prog n t c) := by
  have hrun := run_eq_solo h sched t c
  rw [← Nat.add_sub_cancel' (hn t), solo_add, solo_finished hfinished] at hrun
  exact hrun

/-- Every access of a run is to a cell of its thread. -/
theorem own_of_mem_trace (h : RaceFree prog own) {sched : List T} {c : Config T A V L} {p : T × A}
    (hp : p ∈ trace prog sched c) : own p.1 p.2 := by
  induction sched generalizing c with
  | nil => exact absurd hp List.not_mem_nil
  | cons t sched ih =>
    rcases List.mem_append.mp hp with hp | hp
    · obtain ⟨cell, hcell, rfl⟩ := Option.map_eq_some_iff.mp (Option.mem_toList.mp hp)
      exact h.owned t _ cell hcell
    · exact ih hp

/-- The threads one after the other. -/
theorem enough_flatMap {threads : List T} (hall : ∀ t, t ∈ threads) (n : Nat) :
    Enough n (threads.flatMap (List.replicate n)) := by
  intro t
  obtain ⟨before, after, rfl⟩ := List.append_of_mem (hall t)
  rw [List.flatMap_append, List.flatMap_cons, List.count_append, List.count_append,
    List.count_replicate_self]
  omega

end Bi100.Threads
