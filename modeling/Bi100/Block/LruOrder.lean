import Bi100.Block.Evictor

/-!
# The order of eviction of `LRUEvictor` (`evictor_v2.py`)

Its documentation promises the least recently used block, and among the blocks with the lowest
timestamp one with the most hashed tokens (`Promised`). `evict` takes for granted that the table
is sorted by timestamp. A table is in the order in which blocks were added, `add` takes any
timestamp, and `update` leaves the block in its place.

- `scan_spec`: what the loop finds: the block with the most tokens of the blocks it reads.
- `ReachesBest`, `evict_promised_iff`: when the block is a promised one.
- `evictions_promised_iff`: the same for all evictions of a run.
- `out_of_order`: two blocks are enough for the wrong one to be evicted.
-/

namespace Bi100

open Py

namespace LRUEvictor

variable {H : Type}

/-- The block that the documentation promises: none of the table was accessed earlier, and none
that was accessed as early has more hashed tokens. -/
def Promised (table : Dict Nat (BlockMetaData H)) (id : Nat) : Prop :=
  ∃ best, (id, best) ∈ table.entries ∧ ∀ p ∈ table.entries,
    best.lastAccessed ≤ p.2.lastAccessed ∧
      (p.2.lastAccessed = best.lastAccessed → p.2.numHashedTokens ≤ best.numHashedTokens)

/-! ## What the loop reads -/

/-- `m` is the first of the blocks with the most tokens. -/
def FirstMost (l : List (Nat × BlockMetaData H)) (m : Nat × BlockMetaData H) : Prop :=
  ∃ before after, l = before ++ m :: after ∧
    (∀ x ∈ before, x.2.numHashedTokens < m.2.numHashedTokens) ∧
    ∀ x ∈ after, x.2.numHashedTokens ≤ m.2.numHashedTokens

/-- No block stops the loop: none is later than the first with the most tokens before it. -/
def Unstopped (l : List (Nat × BlockMetaData H)) : Prop :=
  ∀ before x after m, l = before ++ x :: after → FirstMost before m →
    x.2.lastAccessed ≤ m.2.lastAccessed

/-- The loop comes to the first promised block and takes it. -/
def ReachesBest (table : Dict Nat (BlockMetaData H)) : Prop :=
  ∃ before best after, table.entries = before ++ best :: after ∧ Promised table best.1 ∧
    Unstopped before ∧ ∀ x ∈ before, x.2.numHashedTokens < best.2.numHashedTokens

variable {l before after : List (Nat × BlockMetaData H)} {x m best : Nat × BlockMetaData H}

theorem firstMost_singleton : FirstMost [x] x :=
  ⟨[], [], rfl, nofun, nofun⟩

theorem FirstMost.mem (h : FirstMost l m) : m ∈ l := by
  obtain ⟨p, q, rfl, -, -⟩ := h
  exact List.mem_append_right _ List.mem_cons_self

theorem FirstMost.le (h : FirstMost l m) (hx : x ∈ l) :
    x.2.numHashedTokens ≤ m.2.numHashedTokens := by
  obtain ⟨p, q, rfl, hp, hq⟩ := h
  rcases List.mem_append.mp hx with hx | hx
  · exact Nat.le_of_lt (hp x hx)
  · rcases List.mem_cons.mp hx with rfl | hx
    · exact Nat.le_refl _
    · exact hq x hx

/-- The loop keeps its block. -/
theorem FirstMost.keep (h : FirstMost l m)
    (hx : ¬ m.2.numHashedTokens < x.2.numHashedTokens) : FirstMost (l ++ [x]) m := by
  obtain ⟨p, q, rfl, hp, hq⟩ := h
  refine ⟨p, q ++ [x], by simp, hp, ?_⟩
  intro y hy
  rcases List.mem_append.mp hy with hy | hy
  · exact hq y hy
  · rw [List.mem_singleton.mp hy]
    omega

/-- The loop takes the next block. -/
theorem FirstMost.take (h : FirstMost l m)
    (hx : m.2.numHashedTokens < x.2.numHashedTokens) : FirstMost (l ++ [x]) x := by
  refine ⟨l, [], rfl, ?_, nofun⟩
  intro y hy
  have := h.le hy
  omega

theorem FirstMost.unique {m' : Nat × BlockMetaData H} (h : FirstMost l m) (h' : FirstMost l m') :
    m = m' := by
  have hle := h.le h'.mem
  have hge := h'.le h.mem
  obtain ⟨p, q, hl, hp, hq⟩ := h
  obtain ⟨p', q', hl', hp', hq'⟩ := h'
  rw [hl] at hl'
  rcases List.append_eq_append_iff.mp hl' with ⟨r, rfl, hr⟩ | ⟨r, rfl, hr⟩
  · rcases List.cons_eq_append_iff.mp hr with ⟨rfl, hcons⟩ | ⟨r', rfl, -⟩
    · exact (List.cons.inj hcons).1.symm
    · have := hp' m (by simp)
      omega
  · rcases List.cons_eq_append_iff.mp hr with ⟨rfl, hcons⟩ | ⟨r', rfl, -⟩
    · exact (List.cons.inj hcons).1
    · have := hp m' (by simp)
      omega

theorem unstopped_singleton : Unstopped [x] := by
  intro p y q m' hl hm
  rcases List.append_eq_singleton_iff.mp hl.symm with ⟨rfl, -⟩ | ⟨-, h⟩
  · exact absurd hm.mem List.not_mem_nil
  · cases h

theorem Unstopped.of_append (h : Unstopped (before ++ after)) : Unstopped before := by
  intro p y q m' hl
  exact h p y (q ++ after) m' (by rw [hl, List.append_assoc, List.cons_append])

theorem Unstopped.snoc (h : Unstopped l) (hm : FirstMost l m)
    (hx : x.2.lastAccessed ≤ m.2.lastAccessed) : Unstopped (l ++ [x]) := by
  intro p y q m' hl hm'
  rcases List.eq_nil_or_concat q with rfl | ⟨q', z, rfl⟩
  · obtain ⟨rfl, hxy⟩ := List.append_inj' hl rfl
    rw [← (List.cons.inj hxy).1, ← hm.unique hm']
    exact hx
  · rw [List.concat_eq_append, ← List.cons_append, ← List.append_assoc] at hl
    exact h p y q' m' (List.append_inj' hl rfl).1 hm'

/-! ## The loop -/

/-- The block of the loop is the first with the most tokens of the blocks it has read. The
induction is on the blocks to come. -/
theorem scan_spec {read : List (Nat × BlockMetaData H)} (hu : Unstopped read)
    (hm : FirstMost read m) : ∃ read' rest, read ++ l = read' ++ rest ∧ Unstopped read' ∧
      FirstMost read' (scan l m) := by
  induction l generalizing read m with
  | nil => exact ⟨read, [], rfl, hu, hm⟩
  | cons x l ih =>
    rw [scan]
    split_ifs with hlater hmore
    · exact ⟨read, x :: l, rfl, hu, hm⟩
    · obtain ⟨read', rest, heq, hu', hm'⟩ := ih (hu.snoc hm (by omega)) (hm.take hmore)
      exact ⟨read', rest, by rw [← heq, List.append_assoc]; rfl, hu', hm'⟩
    · obtain ⟨read', rest, heq, hu', hm'⟩ := ih (hu.snoc hm (by omega)) (hm.keep hmore)
      exact ⟨read', rest, by rw [← heq, List.append_assoc]; rfl, hu', hm'⟩

/-- Nothing stops the loop before `best`, which has more tokens than what it has read. -/
theorem scan_reaches {read : List (Nat × BlockMetaData H)} (hm : FirstMost read m)
    (hu : Unstopped (read ++ l))
    (htokens : ∀ x ∈ read ++ l, x.2.numHashedTokens < best.2.numHashedTokens)
    (hfirst : ∀ x ∈ read ++ l, best.2.lastAccessed ≤ x.2.lastAccessed) :
    scan (l ++ best :: after) m = scan after best := by
  induction l generalizing read m with
  | nil =>
    have hmem : m ∈ read ++ [] := List.mem_append_left _ hm.mem
    rw [List.nil_append, scan, if_neg (by have := hfirst m hmem; omega), if_pos (htokens m hmem)]
  | cons x l ih =>
    have heq : read ++ x :: l = (read ++ [x]) ++ l := by rw [List.append_assoc]; rfl
    have hx : ¬ m.2.lastAccessed < x.2.lastAccessed := by
      have := hu read x l m rfl hm
      omega
    rw [List.cons_append, scan, if_neg hx]
    rw [heq] at hu htokens hfirst
    split_ifs with hmore
    · exact ih (hm.take hmore) hu htokens hfirst
    · exact ih (hm.keep hmore) hu htokens hfirst

/-- The loop does not leave a promised block. -/
theorem scan_of_best (h : ∀ x ∈ l, best.2.lastAccessed ≤ x.2.lastAccessed ∧
      (x.2.lastAccessed = best.2.lastAccessed →
        x.2.numHashedTokens ≤ best.2.numHashedTokens)) :
    scan l best = best := by
  induction l with
  | nil => rfl
  | cons x l ih =>
    obtain ⟨hle, htokens⟩ := h x List.mem_cons_self
    rw [scan]
    split_ifs with hlater hmore
    · rfl
    · have := htokens (by omega)
      omega
    · exact ih fun y hy => h y (List.mem_cons_of_mem _ hy)

/-! ## The evicted block -/

theorem entry_unique {table : Dict Nat (BlockMetaData H)} {id : Nat} {b b' : BlockMetaData H}
    (h : (id, b) ∈ table.entries) (h' : (id, b') ∈ table.entries) : b = b' := by
  rw [Dict.mem_entries] at h h'
  exact Option.some.inj (h.symm.trans h')

theorem evict_eq {e e' : LRUEvictor H} {id : Nat} {h : H} (hr : e.evict = .ok ((id, h), e')) :
    ∃ first rest, e.freeTable.entries = first :: rest ∧ (scan rest first).1 = id := by
  rw [evict] at hr
  split at hr
  · cases hr
  · next first rest hentries =>
    cases hr
    exact ⟨first, rest, hentries, rfl⟩

/-- The evicted block is a promised one exactly when the loop reaches the first promised one. -/
theorem evict_promised_iff {e e' : LRUEvictor H} {id : Nat} {h : H}
    (hr : e.evict = .ok ((id, h), e')) : Promised e.freeTable id ↔ ReachesBest e.freeTable := by
  obtain ⟨first, rest, hentries, rfl⟩ := evict_eq hr
  constructor
  · intro hp
    obtain ⟨read, tail, heq, hu, p, q, hread, htokens, -⟩ :=
      scan_spec (l := rest) (unstopped_singleton (x := first)) firstMost_singleton
    rw [hread] at heq hu
    refine ⟨p, scan rest first, q ++ tail, ?_, hp, hu.of_append, htokens⟩
    rw [hentries, ← List.singleton_append, heq, List.append_assoc, List.cons_append]
  · rintro ⟨before, best, after, heq, hp, hu, htokens⟩
    have hmem : best ∈ e.freeTable.entries := by
      rw [heq]
      exact List.mem_append_right _ List.mem_cons_self
    obtain ⟨b, hb, hbest⟩ := hp
    have hsame : b = best.2 := entry_unique hb hmem
    have hafter : scan after best = best := by
      refine scan_of_best fun x hx => ?_
      rw [← hsame]
      exact hbest x (by rw [heq]; exact List.mem_append_right _ (List.mem_cons_of_mem _ hx))
    have hscan : scan rest first = best := by
      rw [hentries] at heq
      cases before with
      | nil =>
        obtain ⟨rfl, rfl⟩ := List.cons.inj heq
        exact hafter
      | cons y before =>
        obtain ⟨rfl, rfl⟩ := List.cons.inj heq
        rw [List.append_eq, scan_reaches firstMost_singleton hu htokens ?_, hafter]
        intro x hx
        rw [← hsame]
        refine (hbest x ?_).1
        rw [hentries, heq]
        exact List.mem_append_left _ hx
    rw [hscan]
    exact ⟨b, hb, hbest⟩

end LRUEvictor

/-! ## Runs -/

/-- A call of an evictor. -/
inductive EvictorCall (H : Type) where
  | add (blockId : Nat) (contentHash : H) (numHashedTokens : Nat) (lastAccessed : Int)
  | update (blockId : Nat) (lastAccessed : Int)
  | remove (blockId : Nat)
  | evict

namespace EvictorCall

variable {H : Type} [DecidableEq H]

/-- The evictor after the call, which a call that raises leaves as it was. -/
def run (e : Evictor H) : EvictorCall H → Evictor H
  | .add blockId contentHash numHashedTokens lastAccessed =>
    e.add blockId contentHash numHashedTokens lastAccessed
  | .update blockId lastAccessed => (e.update blockId lastAccessed).toOption.getD e
  | .remove blockId => (e.remove blockId).toOption.getD e
  | .evict => (e.evict.toOption.map Prod.snd).getD e

/-- The block that the call evicts, and the table it was chosen from. -/
def eviction (e : Evictor H) : EvictorCall H → Option (Dict Nat (BlockMetaData H) × Nat)
  | .evict => e.evict.toOption.map fun p => (e.freeTable, p.1.1)
  | _ => none

/-- The evictions of a sequence of calls. -/
def evictions (e : Evictor H) : List (EvictorCall H) → List (Dict Nat (BlockMetaData H) × Nat)
  | [] => []
  | call :: calls => (call.eviction e).toList ++ evictions (call.run e) calls

theorem run_lru (e : LRUEvictor H) (call : EvictorCall H) : ∃ e', call.run (.lru e) = .lru e' := by
  cases call with
  | add id h n t => exact ⟨_, rfl⟩
  | update id t =>
    unfold run Evictor.update
    dsimp only
    split <;> exact ⟨_, rfl⟩
  | remove id =>
    unfold run Evictor.remove
    dsimp only
    split <;> exact ⟨_, rfl⟩
  | evict =>
    unfold run Evictor.evict LRUEvictor.evict
    dsimp only
    split <;> exact ⟨_, rfl⟩

theorem eviction_lru {e : LRUEvictor H} {call : EvictorCall H}
    {p : Dict Nat (BlockMetaData H) × Nat} (h : call.eviction (.lru e) = some p) :
    p.1 = e.freeTable ∧ ∃ hash e', e.evict = .ok ((p.2, hash), e') := by
  cases call with
  | evict =>
    unfold eviction Evictor.evict at h
    dsimp only at h
    cases hr : e.evict with
    | error err =>
      rw [hr] at h
      cases h
    | ok r =>
      obtain ⟨⟨id, hash⟩, e'⟩ := r
      rw [hr] at h
      cases h
      exact ⟨rfl, hash, e', rfl⟩
  | add | update | remove => cases h

theorem evictions_lru {e : LRUEvictor H} {calls : List (EvictorCall H)}
    {p : Dict Nat (BlockMetaData H) × Nat} (h : p ∈ evictions (.lru e) calls) :
    ∃ e₁ e₂ : LRUEvictor H, ∃ hash, p.1 = e₁.freeTable ∧ e₁.evict = .ok ((p.2, hash), e₂) := by
  induction calls generalizing e with
  | nil => cases h
  | cons call calls ih =>
    rcases List.mem_append.mp h with h | h
    · obtain ⟨htable, hash, e', hr⟩ := eviction_lru (Option.mem_toList.mp h)
      exact ⟨e, e', hash, htable, hr⟩
    · obtain ⟨e', he'⟩ := run_lru e call
      rw [he'] at h
      exact ih h

end EvictorCall

open EvictorCall in
/-- Every eviction of a run takes a promised block exactly when every table that a block is
evicted from lets the loop reach it. -/
theorem LRUEvictor.evictions_promised_iff {H : Type} [DecidableEq H]
    (calls : List (EvictorCall H)) :
    (∀ p ∈ evictions (.make .lru) calls, Promised p.1 p.2) ↔
      ∀ p ∈ evictions (.make .lru) calls, ReachesBest p.1 := by
  refine forall₂_congr fun p hp => ?_
  obtain ⟨e, e', hash, htable, hr⟩ := evictions_lru hp
  rw [htable]
  exact evict_promised_iff hr

open EvictorCall in
/-- Block 1 was added first, block 2 was accessed first, and block 1 is evicted. -/
theorem LRUEvictor.out_of_order : ¬ ∀ calls : List (EvictorCall Nat),
    ∀ p ∈ evictions (.make .lru) calls, Promised p.1 p.2 := by
  intro h
  obtain ⟨b, hb, hbest⟩ := h [.add 1 11 16 10, .add 2 12 16 5, .evict] _ (List.mem_singleton_self _)
  have hlater := (hbest (2, ⟨12, 16, 5⟩) (by decide)).1
  have hfirst : b = ⟨11, 16, 10⟩ := entry_unique hb (by decide)
  rw [hfirst] at hlater
  exact absurd hlater (by decide)

end Bi100
