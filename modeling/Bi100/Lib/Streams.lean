import Bi100.Lib.Run
import Mathlib.Logic.Function.Conjugate
import Mathlib.Logic.Function.Basic
import Mathlib.Data.List.Forall2
import Mathlib.Algebra.Order.Ring.Int

/-!
# A host and an in-order stream

The host executes a program; some of its instructions launch a batch of work on a stream, which
works on the batches in order while the host goes on. A batch is done in any order, element by
element. The host waits for the stream at events: `record` marks the batches launched so far, and
`wait` blocks until these are finished.

- `streamSys`: all interleavings.
- `seq`: every batch at once, when it is launched.
- `RaceFree`: the host's own work commutes with every batch that may still be pending.
- `RaceFree.ends`: every run of a race-free program ends, and then it has done what `seq` does.
-/

namespace Py.Streams

variable {σ : Type}

/-- Changes of the memory, to be done in any order. -/
abbrev Batch (σ : Type) := List (σ → σ)

inductive Instr (σ : Type) where
  /-- The host works itself. -/
  | host (batch : Batch σ)
  | launch (batch : Batch σ)
  | record (event : Nat)
  | wait (event : Nat)
  /-- Wait for the whole stream. -/
  | finish

structure Machine (σ : Type) where
  mem : σ
  /-- What is left of the host's own batch. -/
  running : Batch σ
  todo : List (Instr σ)
  /-- The batches that are not finished. The first one may have begun. -/
  queue : List (Batch σ)
  launched : Nat
  /-- For each event, how many batches had been launched when it was recorded. -/
  events : Nat → Nat

/-- A batch, in the order of the list. -/
def runBatch (batch : Batch σ) (mem : σ) : σ := batch.foldl (fun mem f => f mem) mem

def runQueue (queue : List (Batch σ)) (mem : σ) : σ :=
  queue.foldl (fun mem batch => runBatch batch mem) mem

/-- Every batch at once. -/
def seq : List (Instr σ) → σ → σ
  | [], mem => mem
  | .host batch :: prog, mem => seq prog (runBatch batch mem)
  | .launch batch :: prog, mem => seq prog (runBatch batch mem)
  | .record _ :: prog, mem => seq prog mem
  | .wait _ :: prog, mem => seq prog mem
  | .finish :: prog, mem => seq prog mem

namespace Machine

def start (prog : List (Instr σ)) (mem : σ) : Machine σ := ⟨mem, [], prog, [], 0, fun _ => 0⟩

def Done (m : Machine σ) : Prop := m.running = [] ∧ m.todo = [] ∧ m.queue = []

end Machine

inductive Step : Machine σ → Machine σ → Prop where
  | hostWork {mem todo queue n ev} {before after : Batch σ} {f : σ → σ} :
    Step ⟨mem, before ++ f :: after, todo, queue, n, ev⟩
      ⟨f mem, before ++ after, todo, queue, n, ev⟩
  | streamWork {mem running todo queue n ev} {before after : Batch σ} {f : σ → σ} :
    Step ⟨mem, running, todo, (before ++ f :: after) :: queue, n, ev⟩
      ⟨f mem, running, todo, (before ++ after) :: queue, n, ev⟩
  | streamNext {mem running todo queue n ev} :
    Step ⟨mem, running, todo, [] :: queue, n, ev⟩ ⟨mem, running, todo, queue, n, ev⟩
  | host {mem batch todo queue n ev} :
    Step ⟨mem, [], .host batch :: todo, queue, n, ev⟩ ⟨mem, batch, todo, queue, n, ev⟩
  | launch {mem batch todo queue n ev} :
    Step ⟨mem, [], .launch batch :: todo, queue, n, ev⟩
      ⟨mem, [], todo, queue ++ [batch], n + 1, ev⟩
  | record {mem e todo queue n ev} :
    Step ⟨mem, [], .record e :: todo, queue, n, ev⟩
      ⟨mem, [], todo, queue, n, Function.update ev e n⟩
  | wait {mem e todo queue n ev} (reached : ev e + queue.length ≤ n) :
    Step ⟨mem, [], .wait e :: todo, queue, n, ev⟩ ⟨mem, [], todo, queue, n, ev⟩
  | finish {mem todo n ev} :
    Step ⟨mem, [], .finish :: todo, [], n, ev⟩ ⟨mem, [], todo, [], n, ev⟩

def streamSys (prog : List (Instr σ)) (mem : σ) : Sys (Machine σ) :=
  ⟨fun m => m = .start prog mem, Step⟩

/-! ## Batches -/

theorem runBatch_append (b c : Batch σ) (mem : σ) :
    runBatch (b ++ c) mem = runBatch c (runBatch b mem) := List.foldl_append

theorem runQueue_append (p q : List (Batch σ)) (mem : σ) :
    runQueue (p ++ q) mem = runQueue q (runQueue p mem) := List.foldl_append

theorem seq_append (p q : List (Instr σ)) (mem : σ) : seq (p ++ q) mem = seq q (seq p mem) := by
  induction p generalizing mem with
  | nil => rfl
  | cons i p ih => cases i <;> exact ih _

/-- The elements of a batch do not depend on their order. -/
def Unordered (batch : Batch σ) : Prop := batch.Pairwise Function.Commute

/-- No element of one batch depends on being done before one of the other. -/
def Independent (b c : Batch σ) : Prop := ∀ f ∈ b, ∀ g ∈ c, Function.Commute f g

theorem runBatch_commute {batch : Batch σ} {f : σ → σ}
    (h : ∀ g ∈ batch, Function.Commute f g) (mem : σ) :
    runBatch batch (f mem) = f (runBatch batch mem) := by
  induction batch generalizing mem with
  | nil => rfl
  | cons g batch ih =>
    show runBatch batch (g (f mem)) = f (runBatch batch (g mem))
    rw [← h g List.mem_cons_self mem, ih fun g' hg' => h g' (List.mem_cons_of_mem g hg')]

theorem runQueue_commute {queue : List (Batch σ)} {f : σ → σ}
    (h : ∀ batch ∈ queue, ∀ g ∈ batch, Function.Commute f g) (mem : σ) :
    runQueue queue (f mem) = f (runQueue queue mem) := by
  induction queue generalizing mem with
  | nil => rfl
  | cons batch queue ih =>
    show runQueue queue (runBatch batch (f mem)) = f (runQueue queue (runBatch batch mem))
    rw [runBatch_commute (h batch List.mem_cons_self),
      ih fun b hb => h b (List.mem_cons_of_mem batch hb)]

/-- An element may be done first. -/
theorem runBatch_first {before after : Batch σ} {f : σ → σ}
    (h : Unordered (before ++ f :: after)) (mem : σ) :
    runBatch (before ++ after) (f mem) = runBatch (before ++ f :: after) mem := by
  have hf : ∀ g ∈ before, Function.Commute f g := fun g hg =>
    ((List.pairwise_append.mp h).2.2 g hg f List.mem_cons_self).symm
  rw [runBatch_append, runBatch_append, runBatch_commute hf]
  rfl

theorem Unordered.remove {before after : Batch σ} {f : σ → σ}
    (h : Unordered (before ++ f :: after)) : Unordered (before ++ after) :=
  h.sublist ((List.sublist_cons_self f after).append_left before)

theorem mem_of_mem_remove {before after : Batch σ} {f g : σ → σ} (h : g ∈ before ++ after) :
    g ∈ before ++ f :: after :=
  ((List.sublist_cons_self f after).append_left before).subset h

/-! ## Race-free programs -/

/-- `issued` are the batches launched so far; the first `n` of them are known to be finished. -/
def RaceFree : List (Instr σ) → List (Batch σ) → Nat → (Nat → Nat) → Prop
  | [], _, _, _ => True
  | .host batch :: prog, issued, n, ev =>
    Unordered batch ∧ (∀ c ∈ issued.drop n, Independent batch c) ∧ RaceFree prog issued n ev
  | .launch batch :: prog, issued, n, ev =>
    Unordered batch ∧ RaceFree prog (issued ++ [batch]) n ev
  | .record e :: prog, issued, n, ev =>
    RaceFree prog issued n (Function.update ev e issued.length)
  | .wait e :: prog, issued, n, ev => RaceFree prog issued (max n (ev e)) ev
  | .finish :: prog, issued, _, ev => RaceFree prog issued issued.length ev

/-- `left` is what is left of the last batches of `issued`. -/
def Pending (left issued : List (Batch σ)) : Prop :=
  ∃ finished rest, issued = finished ++ rest ∧ List.Forall₂ (· ⊆ ·) left rest

/-- What holds in every interleaving: to do what is left, in order, gives `result`. -/
structure Good (result : σ) (m : Machine σ) (issued : List (Batch σ)) (n : Nat) : Prop where
  launched : m.launched = issued.length
  known : n + m.queue.length ≤ issued.length
  pending : Pending m.queue issued
  unordered : ∀ batch ∈ m.queue, Unordered batch
  running : Unordered m.running
  independent : ∀ batch ∈ m.queue, Independent m.running batch
  raceFree : RaceFree m.todo issued n m.events
  result : seq m.todo (runBatch m.running (runQueue m.queue m.mem)) = result

private theorem exists_mem_superset {left rest : List (Batch σ)}
    (h : List.Forall₂ (· ⊆ ·) left rest) {batch : Batch σ} (hb : batch ∈ left) :
    ∃ c ∈ rest, batch ⊆ c := by
  induction h with
  | nil => exact absurd hb List.not_mem_nil
  | cons hsub _ ih =>
    rcases List.mem_cons.mp hb with rfl | hb
    · exact ⟨_, List.mem_cons_self, hsub⟩
    · obtain ⟨c, hc, hbc⟩ := ih hb
      exact ⟨c, List.mem_cons_of_mem _ hc, hbc⟩

/-- The batches that are left are among those not known to be finished. -/
theorem Pending.subset {left issued : List (Batch σ)} {n : Nat} (h : Pending left issued)
    (hn : n + left.length ≤ issued.length) {batch : Batch σ} (hb : batch ∈ left) :
    ∃ c ∈ issued.drop n, batch ⊆ c := by
  obtain ⟨finished, rest, rfl, hrest⟩ := h
  obtain ⟨c, hc, hsub⟩ := exists_mem_superset hrest hb
  refine ⟨c, ?_, hsub⟩
  have hle : n ≤ finished.length := by
    rw [List.length_append, hrest.length_eq] at hn
    omega
  rw [List.drop_append_of_le_length hle]
  exact List.mem_append_right _ hc

theorem Pending.shrink {b c : Batch σ} {left issued : List (Batch σ)}
    (h : Pending (b :: left) issued) (hsub : c ⊆ b) : Pending (c :: left) issued := by
  obtain ⟨finished, rest, rfl, hrest⟩ := h
  cases hrest with
  | cons hb hrest => exact ⟨finished, _, rfl, .cons (List.Subset.trans hsub hb) hrest⟩

theorem Pending.next {b : Batch σ} {left issued : List (Batch σ)}
    (h : Pending (b :: left) issued) : Pending left issued := by
  obtain ⟨finished, rest, rfl, hrest⟩ := h
  cases hrest with
  | @cons _ c _ rest _ hrest =>
    exact ⟨finished ++ [c], rest, (List.append_assoc finished [c] rest).symm, hrest⟩

theorem Pending.launch {left issued : List (Batch σ)} (h : Pending left issued) (b : Batch σ) :
    Pending (left ++ [b]) (issued ++ [b]) := by
  obtain ⟨finished, rest, rfl, hrest⟩ := h
  refine ⟨finished, rest ++ [b], List.append_assoc .., ?_⟩
  exact List.rel_append hrest (.cons (List.Subset.refl b) .nil)

/-- The step lemma. -/
theorem Good.step {result : σ} {m m' : Machine σ} {issued : List (Batch σ)} {n : Nat}
    (h : Good result m issued n) (hs : Step m m') : ∃ issued n, Good result m' issued n := by
  obtain ⟨hlaunched, hknown, hpending, hunordered, hrunning, hindep, hfree, hresult⟩ := h
  cases hs with
  | @hostWork mem todo queue _ ev before after f =>
    refine ⟨issued, n, hlaunched, hknown, hpending, hunordered, hrunning.remove,
      fun batch hb g hg => hindep batch hb g (mem_of_mem_remove hg), hfree, ?_⟩
    show seq todo (runBatch (before ++ after) (runQueue queue (f mem))) = result
    have hcomm : ∀ batch ∈ queue, ∀ g ∈ batch, Function.Commute f g := fun batch hb g hg =>
      hindep batch hb f (List.mem_append_right _ List.mem_cons_self) g hg
    rw [runQueue_commute hcomm, runBatch_first hrunning]
    exact hresult
  | @streamWork mem running todo queue _ ev before after f =>
    have hhead := hunordered _ List.mem_cons_self
    have hsub : before ++ after ⊆ before ++ f :: after := fun g hg => mem_of_mem_remove hg
    refine ⟨issued, n, hlaunched, hknown, hpending.shrink hsub, ?_, hrunning, ?_, hfree, ?_⟩
    · intro batch hb
      rcases List.mem_cons.mp hb with rfl | hb
      · exact hhead.remove
      · exact hunordered batch (List.mem_cons_of_mem _ hb)
    · intro batch hb
      rcases List.mem_cons.mp hb with rfl | hb
      · exact fun g hg g' hg' => hindep _ List.mem_cons_self g hg g' (hsub hg')
      · exact hindep batch (List.mem_cons_of_mem _ hb)
    · show seq todo (runBatch running (runQueue queue (runBatch (before ++ after) (f mem)))) = _
      rw [runBatch_first hhead]
      exact hresult
  | streamNext =>
    refine ⟨issued, n, hlaunched, ?_, hpending.next,
      fun b hb => hunordered b (List.mem_cons_of_mem _ hb), hrunning,
      fun b hb => hindep b (List.mem_cons_of_mem _ hb), hfree, hresult⟩
    rw [List.length_cons] at hknown
    exact Nat.le_of_succ_le hknown
  | host =>
    obtain ⟨hbatch, happart, hfree⟩ := hfree
    refine ⟨issued, n, hlaunched, hknown, hpending, hunordered, hbatch, ?_, hfree, hresult⟩
    intro b hb f hf g hg
    obtain ⟨c, hc, hsub⟩ := hpending.subset hknown hb
    exact happart c hc f hf g (hsub hg)
  | @launch mem batch todo queue _ ev =>
    obtain ⟨hbatch, hfree⟩ := hfree
    refine ⟨issued ++ [batch], n, ?_, ?_, hpending.launch batch, ?_, hrunning,
      fun b hb f hf => absurd hf List.not_mem_nil, hfree, ?_⟩
    · rw [List.length_append, ← hlaunched]
      rfl
    · show n + (queue ++ [batch]).length ≤ _
      rw [List.length_append, List.length_append]
      exact Nat.add_le_add_right hknown 1
    · intro b hb
      rcases List.mem_append.mp hb with hb | hb
      · exact hunordered b hb
      · exact List.mem_singleton.mp hb ▸ hbatch
    · show seq todo (runQueue (queue ++ [batch]) mem) = result
      rw [runQueue_append]
      exact hresult
  | @record mem e todo queue launched ev =>
    refine ⟨issued, n, hlaunched, hknown, hpending, hunordered, hrunning, hindep, ?_, hresult⟩
    have hevent : launched = issued.length := hlaunched
    show RaceFree todo issued n (Function.update ev e launched)
    rw [hevent]
    exact hfree
  | @wait mem e todo queue _ ev reached =>
    refine ⟨issued, max n (ev e), hlaunched, ?_, hpending, hunordered, hrunning, hindep, hfree,
      hresult⟩
    have hmax : max n (ev e) = n ∨ max n (ev e) = ev e := by omega
    show max n (ev e) + queue.length ≤ issued.length
    rcases hmax with h | h
    · rw [h]
      exact hknown
    · rw [h, ← hlaunched]
      exact reached
  | finish =>
    exact ⟨issued, issued.length, hlaunched, Nat.le_refl _, hpending, hunordered, hrunning,
      hindep, hfree, hresult⟩

theorem Good.of_reachable {prog : List (Instr σ)} {mem : σ} {m : Machine σ}
    (hfree : RaceFree prog [] 0 fun _ => 0) (h : (streamSys prog mem).Reachable m) :
    ∃ issued n, Good (seq prog mem) m issued n := by
  refine h.invariant (I := fun m => ∃ issued n, Good (seq prog mem) m issued n) ?_
    fun s s' _ hgood hs => ?_
  · rintro s rfl
    exact ⟨[], 0, rfl, Nat.le_refl 0, ⟨[], [], rfl, .nil⟩,
      fun b hb => absurd hb List.not_mem_nil, List.Pairwise.nil,
      fun b hb => absurd hb List.not_mem_nil, hfree, rfl⟩
  · obtain ⟨issued, n, hgood⟩ := hgood
    exact hgood.step hs

/-- A race-free program that is finished has done what `seq` does. -/
theorem RaceFree.mem_eq {prog : List (Instr σ)} {mem : σ} {m : Machine σ}
    (hfree : RaceFree prog [] 0 fun _ => 0) (h : (streamSys prog mem).Reachable m)
    (hdone : m.Done) : m.mem = seq prog mem := by
  obtain ⟨issued, n, hgood⟩ := Good.of_reachable hfree h
  have hresult := hgood.result
  rw [hdone.1, hdone.2.1, hdone.2.2] at hresult
  exact hresult

/-! ## Every run ends -/

def Instr.work : Instr σ → Nat
  | .host batch => batch.length + 1
  | .launch batch => batch.length + 2
  | .record _ => 1
  | .wait _ => 1
  | .finish => 1

def Machine.work (m : Machine σ) : Nat :=
  m.running.length + (m.todo.map Instr.work).sum + (m.queue.map fun b => b.length + 1).sum

theorem step_work {m m' : Machine σ} (h : Step m m') : m'.work < m.work := by
  cases h <;> simp only [Machine.work, Instr.work, List.map_cons, List.map_append, List.map_nil,
    List.sum_cons, List.sum_append, List.sum_nil, List.length_append, List.length_cons,
    List.length_nil] <;> omega

/-- No event waits for a batch that was not launched. -/
theorem events_le {prog : List (Instr σ)} {mem : σ} {m : Machine σ}
    (h : (streamSys prog mem).Reachable m) : ∀ e, m.events e ≤ m.launched := by
  refine h.invariant (I := fun m => ∀ e, m.events e ≤ m.launched) ?_ fun s s' _ hle hs => ?_
  · rintro s rfl e
    exact Nat.le_refl 0
  · cases hs with
    | launch => exact fun e => Nat.le_succ_of_le (hle e)
    | @record mem e todo queue n ev =>
      intro e'
      show Function.update ev e n e' ≤ n
      by_cases he : e' = e
      · simp [he]
      · rw [Function.update_of_ne he]
        exact hle e'
    | hostWork => exact hle
    | streamWork => exact hle
    | streamNext => exact hle
    | host => exact hle
    | wait => exact hle
    | finish => exact hle

/-- A machine that is not finished can go on: the stream does while it has work. -/
theorem step_of_not_done {m : Machine σ} (hle : ∀ e, m.events e ≤ m.launched)
    (h : ¬ m.Done) : ∃ m', Step m m' := by
  obtain ⟨mem, running, todo, queue, n, ev⟩ := m
  cases queue with
  | cons batch queue =>
    cases batch with
    | nil => exact ⟨_, .streamNext⟩
    | cons f batch => exact ⟨_, @Step.streamWork σ mem running todo queue n ev [] batch f⟩
  | nil =>
    cases running with
    | cons f running => exact ⟨_, @Step.hostWork σ mem todo [] n ev [] running f⟩
    | nil =>
      cases todo with
      | nil => exact absurd ⟨rfl, rfl, rfl⟩ h
      | cons i todo =>
        cases i with
        | host batch => exact ⟨_, .host⟩
        | launch batch => exact ⟨_, .launch⟩
        | record e => exact ⟨_, .record⟩
        | wait e => exact ⟨_, .wait (hle e)⟩
        | finish => exact ⟨_, .finish⟩

theorem RaceFree.ends {prog : List (Instr σ)} {mem : σ}
    (hfree : RaceFree prog [] 0 fun _ => 0) :
    (streamSys prog mem).Ends fun m => m.mem = seq prog mem := by
  refine Sys.Ends.of_measure Machine.work (fun s s' hs => step_work hs) ?_ ?_
  · exact ⟨(Machine.start prog mem).work, fun s hs => Nat.le_of_eq (congrArg Machine.work hs)⟩
  · intro m hm
    by_cases hdone : m.Done
    · exact .inr (hfree.mem_eq hm hdone)
    · exact .inl (step_of_not_done (events_le hm) hdone)

end Py.Streams
