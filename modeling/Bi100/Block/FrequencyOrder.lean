import Bi100.Block.Evictor
import Bi100.Lib.LazyHeap
import Bi100.Lib.Run
import Mathlib.Data.Finmap

/-!
# The order of eviction of `FrequencyAwareEvictor` (`evictor_v2.py`)

- `FrequencySpec`: what the evictor is for: the present blocks, how often each content was added,
  and the order of eviction (`rank`, `FrequencySpec.Least`).
- `evictLoop_eq`: the loop of `evict` settles a lazily invalidated heap (`Py.LazyHeap.settle`). An
  entry is stale, outdated or current according to the table (`judge`).
- `Tracks`: the evictor represents the specification. Each call keeps it (`Tracks.add`,
  `Tracks.update`, `Tracks.remove`, `Tracks.evict`).
- `frequencySys`: the runs of the evictor next to its specification.
- `evictor_refines`: in every reachable state, both agree.
-/

namespace Bi100

open Py

variable {H : Type}

/-! ## The specification -/

/-- The present blocks, and how often each content was added. -/
structure FrequencySpec (H : Type) where
  blocks : Finmap fun _ : Nat => BlockMetaData H
  accesses : H → Nat

namespace FrequencySpec

def empty : FrequencySpec H := ⟨∅, fun _ => 0⟩

def add [DecidableEq H] (s : FrequencySpec H) (id : Nat) (h : H) (n : Nat) (t : Int) : FrequencySpec H :=
  ⟨s.blocks.insert id ⟨h, n, t⟩, fun h' => if h' = h then s.accesses h + 1 else s.accesses h'⟩

def update (s : FrequencySpec H) (id : Nat) (b : BlockMetaData H) (t : Int) : FrequencySpec H :=
  { s with blocks := s.blocks.insert id { b with lastAccessed := t } }

def remove (s : FrequencySpec H) (id : Nat) : FrequencySpec H :=
  { s with blocks := s.blocks.erase id }

/-- The order of eviction: rarely added content first, then the least recently used, then the
longest prefix, then the lowest id. -/
def rank (s : FrequencySpec H) (id : Nat) (b : BlockMetaData H) : List Int :=
  [s.accesses b.contentHash, b.lastAccessed, -(b.numHashedTokens : Int), id]

/-- The next block to evict. -/
def Least (s : FrequencySpec H) (id : Nat) (b : BlockMetaData H) : Prop :=
  s.blocks.lookup id = some b ∧
    ∀ id' b', s.blocks.lookup id' = some b' → s.rank id b ≤ s.rank id' b'

variable {s : FrequencySpec H}

theorem lex_append {l l' : List Int} (h : l < l') (hlength : l.length = l'.length)
    (r r' : List Int) : l ++ r < l' ++ r' := by
  have hlex : List.Lex (· < ·) l l' := h
  show List.Lex (· < ·) (l ++ r) (l' ++ r')
  clear h
  induction hlex with
  | nil => cases hlength
  | rel hlt => exact .rel hlt
  | cons _ ih => exact .cons (ih (Nat.succ.inj hlength))

/-- Generations only break ties. -/
theorem rank_le_of_key_le {id id' : Nat} {b b' : BlockMetaData H} {g g' : Int}
    (h : s.rank id b ++ [g] ≤ s.rank id' b' ++ [g']) : s.rank id b ≤ s.rank id' b' := by
  refine not_lt.mp fun hlt => ?_
  have hkey : s.rank id' b' ++ [g'] < s.rank id b ++ [g] := lex_append hlt rfl [g'] [g]
  exact absurd hkey (not_lt.mpr h)

theorem rank_inj {id id' : Nat} {b b' : BlockMetaData H} (h : s.rank id b = s.rank id' b') :
    id = id' := by
  unfold rank at h
  simp only [List.cons.injEq] at h
  exact Int.ofNat_inj.mp h.2.2.2.1

/-- One block is the next to evict. -/
theorem least_unique {id id' : Nat} {b b' : BlockMetaData H} (h : s.Least id b) (h' : s.Least id' b') :
    id = id' ∧ b = b' := by
  have hid : id = id' := rank_inj (le_antisymm (h.2 id' b' h'.1) (h'.2 id b h.1))
  subst hid
  exact ⟨rfl, Option.some.inj (h.1.symm.trans h'.1)⟩

end FrequencySpec

variable [DecidableEq H]

/-! ## The loop of `evict` -/

namespace FrequencyAwareEvictor

open LazyHeap

/-- What an entry turns out to be. -/
def judge (e : FrequencyAwareEvictor H) (entry : HeapEntry) : Verdict HeapEntry :=
  match e.freeTable.get? entry.blockId with
  | none => .stale
  | some block =>
    if e.generations.get? entry.blockId ≠ some entry.generation then .stale
    else if e.frequencyByHash.get? block.contentHash ≠ some entry.frequency then
      .outdated (e.heapKey entry.blockId block entry.generation)
    else .current

/-- The evictor after `entry` came out as current. -/
def evicted (e : FrequencyAwareEvictor H) (entry : HeapEntry) (heap : List HeapEntry) :
    FrequencyAwareEvictor H :=
  compactIfNeeded { e with
    heap := heap
    freeTable := e.freeTable.erase entry.blockId
    generations := e.generations.erase entry.blockId }

/-- The hash of the block of a current entry. -/
theorem judge_current {e : FrequencyAwareEvictor H} {entry : HeapEntry}
    (h : e.judge entry = .current) : ∃ block, e.freeTable.get? entry.blockId = some block ∧
      e.generations.get? entry.blockId = some entry.generation ∧
      e.frequencyByHash.get? block.contentHash = some entry.frequency := by
  unfold judge at h
  split at h
  · cases h
  · next block hb =>
    split_ifs at h with hg hf
    exact ⟨block, hb, not_not.mp hg, not_not.mp hf⟩

theorem judge_outdated {e : FrequencyAwareEvictor H} {entry entry' : HeapEntry}
    (h : e.judge entry = .outdated entry') : ∃ block,
      e.freeTable.get? entry.blockId = some block ∧
      e.generations.get? entry.blockId = some entry.generation ∧
      e.frequencyByHash.get? block.contentHash ≠ some entry.frequency ∧
      entry' = e.heapKey entry.blockId block entry.generation := by
  unfold judge at h
  split at h
  · cases h
  · next block hb =>
    split_ifs at h with hg hf
    cases h
    exact ⟨block, hb, not_not.mp hg, hf, rfl⟩

/-- The loop of `evict` settles the heap. -/
theorem evictLoop_eq (fuel : Nat) (e : FrequencyAwareEvictor H) :
    (settle HeapEntry.key e.judge fuel e.heap = none ∧
      evictLoop fuel e = .error (.runtimeError "Evictor heap has no usable entry")) ∨
    ∃ entry heap block, settle HeapEntry.key e.judge fuel e.heap = some (entry, heap) ∧
      e.freeTable.get? entry.blockId = some block ∧
      evictLoop fuel e = .ok ((entry.blockId, block.contentHash), e.evicted entry heap) := by
  induction fuel generalizing e with
  | zero => exact .inl ⟨rfl, rfl⟩
  | succ fuel ih =>
    have hpop : heappop e.heap = popMin HeapEntry.key e.heap := rfl
    rw [evictLoop, settle, hpop]
    cases hp : popMin HeapEntry.key e.heap with
    | none => exact .inl ⟨rfl, rfl⟩
    | some p =>
      obtain ⟨entry, heap⟩ := p
      dsimp only
      unfold judge
      cases hb : e.freeTable.get? entry.blockId with
      | none => exact ih { e with heap := heap }
      | some block =>
        dsimp only
        by_cases hg : e.generations.get? entry.blockId ≠ some entry.generation
        · rw [if_pos hg, if_pos hg]
          exact ih { e with heap := heap }
        · rw [if_neg hg, if_neg hg]
          by_cases hf : e.frequencyByHash.get? block.contentHash ≠ some entry.frequency
          · rw [if_pos hf, if_pos hf]
            exact ih { e with heap := e.heapKey entry.blockId block entry.generation :: heap }
          · rw [if_neg hf, if_neg hf]
            exact .inr ⟨entry, heap, block, rfl, hb, rfl⟩

/-! ## The evictor and its specification -/

/-- An entry of a present block with its current generation has the block's timestamp and tokens,
and a frequency that it had. -/
structure EntryOk (e : FrequencyAwareEvictor H) (entry : HeapEntry) : Prop where
  older : entry.generation ≤ e.nextGeneration
  live : ∀ block, e.freeTable.get? entry.blockId = some block →
    e.generations.get? entry.blockId = some entry.generation →
      entry.lastAccessed = block.lastAccessed ∧
      entry.negHashedTokens = -(block.numHashedTokens : Int) ∧
      entry.frequency ≤ (e.frequencyByHash.get? block.contentHash).getD 0

/-- The heap has an entry of block `id` with its current generation. -/
def Numbered (e : FrequencyAwareEvictor H) (id : Nat) : Prop :=
  ∃ entry ∈ e.heap, entry.blockId = id ∧ e.generations.get? id = some entry.generation

/-- The evictor represents the specification. -/
structure Tracks (e : FrequencyAwareEvictor H) (s : FrequencySpec H) : Prop where
  blocks : ∀ id, s.blocks.lookup id = e.freeTable.get? id
  accesses : ∀ h, s.accesses h = (e.frequencyByHash.get? h).getD 0
  counted : ∀ {id b}, e.freeTable.get? id = some b → b.contentHash ∈ e.frequencyByHash
  numbered : ∀ {id b}, e.freeTable.get? id = some b → e.Numbered id
  entries : ∀ entry ∈ e.heap, e.EntryOk entry

variable {e : FrequencyAwareEvictor H} {s : FrequencySpec H} {entry entry' : HeapEntry}
  {id : Nat} {b : BlockMetaData H}

theorem Tracks.heapKey_key (h : Tracks e s) (id : Nat) (b : BlockMetaData H) (g : Nat) :
    (e.heapKey id b g).key = s.rank id b ++ [(g : Int)] := by
  rw [FrequencySpec.rank, h.accesses]
  rfl

/-! ### What an entry stands for -/

/-- An entry with the current generation stands for the block as it is in the table. -/
theorem EntryOk.refresh_live (hok : e.EntryOk entry) (hb : e.freeTable.get? entry.blockId = some b)
    (hg : e.generations.get? entry.blockId = some entry.generation) :
    refresh e.judge entry = some (e.heapKey entry.blockId b entry.generation) := by
  by_cases hf : e.frequencyByHash.get? b.contentHash = some entry.frequency
  · have hv : e.judge entry = .current := by
      rw [judge, hb]
      dsimp only
      rw [if_neg (not_not.mpr hg), if_neg (not_not.mpr hf)]
    obtain ⟨hlast, hneg, -⟩ := hok.live b hb hg
    rw [refresh_of_current hv, heapKey, hf, ← hlast, ← hneg]
    rfl
  · have hv : e.judge entry = .outdated (e.heapKey entry.blockId b entry.generation) := by
      rw [judge, hb]
      dsimp only
      rw [if_neg (not_not.mpr hg), if_pos hf]
    rw [refresh_of_outdated hv]

theorem EntryOk.of_refresh (hok : e.EntryOk entry) (h : refresh e.judge entry = some entry') :
    ∃ b, e.freeTable.get? entry.blockId = some b ∧
      e.generations.get? entry.blockId = some entry.generation ∧
      entry' = e.heapKey entry.blockId b entry.generation := by
  cases hv : e.judge entry with
  | stale =>
    rw [refresh_of_stale hv] at h
    cases h
  | outdated y =>
    rw [refresh_of_outdated hv] at h
    cases h
    obtain ⟨b, hb, hg, -, rfl⟩ := judge_outdated hv
    exact ⟨b, hb, hg, rfl⟩
  | current =>
    obtain ⟨b, hb, hg, -⟩ := judge_current hv
    rw [hok.refresh_live hb hg] at h
    exact ⟨b, hb, hg, (Option.some.inj h).symm⟩

theorem Tracks.refreshes (h : Tracks e s) : Refreshes HeapEntry.key e.judge e.heap := by
  constructor
  · intro x y hx hv
    obtain ⟨b, hb, hg, -, rfl⟩ := judge_outdated hv
    obtain ⟨hlast, hneg, hfreq⟩ := (h.entries x hx).live b hb hg
    rcases Nat.lt_or_eq_of_le hfreq with hlt | heq
    · exact le_of_lt (List.Lex.rel (Int.ofNat_lt.mpr hlt))
    · refine le_of_eq ?_
      rw [HeapEntry.key, HeapEntry.key, heq, hlast, hneg]
      rfl
  · intro x y hx hv
    obtain ⟨b, hb, hg, -, rfl⟩ := judge_outdated hv
    obtain ⟨f, hf⟩ := Dict.mem_iff.mp (h.counted hb)
    unfold judge heapKey
    dsimp only
    rw [hb]
    dsimp only
    rw [if_neg (not_not.mpr hg), if_neg (not_not.mpr (by rw [hf]; rfl))]

/-- Every present block has an entry. -/
theorem Tracks.represents (h : Tracks e s) (hb : e.freeTable.get? id = some b) :
    ∃ g, e.generations.get? id = some g ∧ Represents e.judge e.heap (e.heapKey id b g) := by
  obtain ⟨entry, hmem, rfl, hg⟩ := h.numbered hb
  exact ⟨entry.generation, hg, entry, hmem,
    (h.entries entry hmem).refresh_live hb hg⟩

/-! ## What the calls do -/

/-- `_heap_key` only reads the frequencies. -/
theorem entryOk_heapKey (hb : e.freeTable.get? id = some b) (hold : entry.generation ≤ e.nextGeneration) :
    e.EntryOk (e.heapKey id b entry.generation) := by
  refine ⟨hold, ?_⟩
  intro block hblock _
  have heq : b = block := Option.some.inj (hb.symm.trans hblock)
  rw [← heq]
  exact ⟨rfl, rfl, Nat.le_refl _⟩

/-- Compaction. -/
theorem Tracks.compact (h : Tracks e s) : Tracks e.compactIfNeeded s := by
  unfold compactIfNeeded
  dsimp only
  split_ifs with hshort
  · exact h
  refine ⟨h.blocks, h.accesses, h.counted, ?_, ?_⟩
  · intro id b hb
    obtain ⟨entry, hentry, rfl, hg⟩ := h.numbered hb
    refine ⟨e.heapKey entry.blockId b entry.generation, ?_, rfl, hg⟩
    refine List.mem_map.mpr ⟨(entry.blockId, b), Dict.mem_entries.mpr hb, ?_⟩
    rw [hg]
    rfl
  · intro x hx
    obtain ⟨⟨id, b⟩, hp, rfl⟩ := List.mem_map.mp hx
    have hb : e.freeTable.get? id = some b := Dict.mem_entries.mp hp
    obtain ⟨entry, hentry, rfl, hg⟩ := h.numbered hb
    dsimp only
    rw [hg]
    have hok := entryOk_heapKey hb (h.entries entry hentry).older
    exact ⟨hok.older, hok.live⟩

theorem compact_short (e : FrequencyAwareEvictor H) :
    e.compactIfNeeded.heap.length ≤ 2 * e.compactIfNeeded.freeTable.size + 1 := by
  rw [Evictor.freeTable_compactIfNeeded]
  unfold compactIfNeeded
  dsimp only
  split_ifs with hshort
  · exact hshort
  · rw [List.length_map]
    have hsize : e.freeTable.entries.length = e.freeTable.size := rfl
    omega

/-- `add` and `update` enter a block under a new generation. -/
theorem Tracks.enter (h : Tracks e s) {frequencies : Dict H Nat} {accesses : H → Nat}
    (haccesses : ∀ h, accesses h = (frequencies.get? h).getD 0)
    (hmono : ∀ h, s.accesses h ≤ accesses h)
    (hcounted : ∀ h, h = b.contentHash ∨ h ∈ e.frequencyByHash → h ∈ frequencies) :
    Tracks (push { e with
      frequencyByHash := frequencies, freeTable := e.freeTable.set id b } id b)
      ⟨s.blocks.insert id b, accesses⟩ := by
  refine ⟨?_, haccesses, ?_, ?_, ?_⟩
  · intro id'
    show (s.blocks.insert id b).lookup id' = (e.freeTable.set id b).get? id'
    by_cases hid : id' = id
    · rw [hid, Finmap.lookup_insert, Dict.get?_set_self]
    · rw [Finmap.lookup_insert_of_ne _ hid, Dict.get?_set_of_ne hid, h.blocks]
  · intro id' b' hb'
    have hset : (e.freeTable.set id b).get? id' = some b' := hb'
    rw [Dict.get?_set] at hset
    split_ifs at hset with hid
    · cases hset
      exact hcounted _ (.inl rfl)
    · exact hcounted _ (.inr (h.counted hset))
  · intro id' b' hb'
    have hset : (e.freeTable.set id b).get? id' = some b' := hb'
    by_cases hid : id' = id
    · subst hid
      exact ⟨_, List.mem_cons_self, rfl, Dict.get?_set_self _ _ _⟩
    · rw [Dict.get?_set_of_ne hid] at hset
      obtain ⟨entry, hentry, heq, hg⟩ := h.numbered hset
      exact ⟨entry, List.mem_cons_of_mem _ hentry, heq, (Dict.get?_set_of_ne hid _ _).trans hg⟩
  · intro entry hentry
    rcases List.mem_cons.mp hentry with rfl | hentry
    · refine ⟨Nat.le_refl _, ?_⟩
      intro block hblock _
      have hset : (e.freeTable.set id b).get? id = some block := hblock
      rw [Dict.get?_set_self] at hset
      cases hset
      exact ⟨rfl, rfl, Nat.le_refl _⟩
    · have hok := h.entries entry hentry
      refine ⟨Nat.le_succ_of_le hok.older, ?_⟩
      intro block hblock hg
      have hset : (e.freeTable.set id b).get? entry.blockId = some block := hblock
      have hnext : (e.generations.set id (e.nextGeneration + 1)).get? entry.blockId =
        some entry.generation := hg
      by_cases hid : entry.blockId = id
      · -- an older entry of the block does not have the new generation
        rw [hid, Dict.get?_set_self] at hnext
        have := hok.older
        have := Option.some.inj hnext
        omega
      · rw [Dict.get?_set_of_ne hid] at hset hnext
        obtain ⟨hlast, hneg, hfreq⟩ := hok.live block hset hnext
        refine ⟨hlast, hneg, hfreq.trans ?_⟩
        have := hmono block.contentHash
        rw [h.accesses, haccesses] at this
        exact this

/-- `remove` and `evict` delete a block and its generation. -/
theorem Tracks.delete (h : Tracks e s) {heap : List HeapEntry}
    (hentries : ∀ entry ∈ heap, e.EntryOk entry)
    (hnumbered : ∀ id' b, id' ≠ id → e.freeTable.get? id' = some b →
      ({ e with heap := heap } : FrequencyAwareEvictor H).Numbered id') :
    Tracks { e with
      heap := heap, freeTable := e.freeTable.erase id, generations := e.generations.erase id }
      (s.remove id) := by
  refine ⟨?_, h.accesses, ?_, ?_, ?_⟩
  · intro id'
    show (s.blocks.erase id).lookup id' = (e.freeTable.erase id).get? id'
    by_cases hid : id' = id
    · rw [hid, Finmap.lookup_erase, Dict.get?_erase_self]
    · rw [Finmap.lookup_erase_ne hid, Dict.get?_erase_of_ne hid, h.blocks]
  · intro id' b hb
    have herase : (e.freeTable.erase id).get? id' = some b := hb
    rw [Dict.get?_erase] at herase
    split_ifs at herase
    exact h.counted herase
  · intro id' b hb
    have herase : (e.freeTable.erase id).get? id' = some b := hb
    rw [Dict.get?_erase] at herase
    split_ifs at herase with hid
    obtain ⟨entry, hentry, heq, hg⟩ := hnumbered id' b hid herase
    exact ⟨entry, hentry, heq, (Dict.get?_erase_of_ne hid _).trans hg⟩
  · intro entry hentry
    refine ⟨(hentries entry hentry).older, ?_⟩
    intro block hblock hg
    have herase : (e.freeTable.erase id).get? entry.blockId = some block := hblock
    have hgen : (e.generations.erase id).get? entry.blockId = some entry.generation := hg
    rw [Dict.get?_erase] at herase hgen
    split_ifs at herase hgen
    exact (hentries entry hentry).live block herase hgen

/-! ### The block that `evict` takes -/

/-- What comes out of the heap is the entry of the least block, and the others stay numbered. -/
theorem Tracks.settled (h : Tracks e s) {heap : List HeapEntry}
    (hs : Settled HeapEntry.key e.judge e.heap entry heap)
    (hb : e.freeTable.get? entry.blockId = some b) :
    s.Least entry.blockId b ∧ (∀ x ∈ heap, e.EntryOk x) ∧
      ∀ id' b', id' ≠ entry.blockId → e.freeTable.get? id' = some b' →
        ({ e with heap := heap } : FrequencyAwareEvictor H).Numbered id' := by
  have hok : ∀ y, Represents e.judge e.heap y → ∃ id b g, e.freeTable.get? id = some b ∧
      e.generations.get? id = some g ∧ y = e.heapKey id b g ∧ e.EntryOk y := by
    rintro y ⟨x, hx, hxy⟩
    obtain ⟨b, hb, hg, rfl⟩ := (h.entries x hx).of_refresh hxy
    exact ⟨_, b, _, hb, hg, rfl, entryOk_heapKey hb (h.entries x hx).older⟩
  have hkept : ∀ x ∈ heap, e.EntryOk x := by
    intro x hx
    rcases hs.kept x hx with hx | hx
    · exact h.entries x hx
    · obtain ⟨-, -, -, -, -, -, hx⟩ := hok x hx
      exact hx
  obtain ⟨id, b₀, g, hb₀, hg, hentry, -⟩ := hok entry hs.represents
  have hid : entry.blockId = id := by rw [hentry]; rfl
  rw [hid, hb₀] at hb
  cases hb
  refine ⟨⟨(h.blocks _).trans (hid ▸ hb₀), ?_⟩, hkept, ?_⟩
  · intro id' b' hb'
    rw [h.blocks] at hb'
    obtain ⟨g', -, hrep⟩ := h.represents hb'
    have hle := hs.least _ hrep
    rw [hentry, h.heapKey_key, h.heapKey_key] at hle
    rw [hid]
    exact FrequencySpec.rank_le_of_key_le hle
  · intro id' b' hne hb'
    obtain ⟨g', hg', hrep⟩ := h.represents hb'
    rcases hs.others _ hrep with heq | ⟨x, hx, hxy⟩
    · rw [hid] at hne
      rw [hentry] at heq
      exact absurd (congrArg HeapEntry.blockId heq) hne
    · obtain ⟨b'', -, hgx, heq⟩ := (hkept x hx).of_refresh hxy
      have hidx : id' = x.blockId := congrArg HeapEntry.blockId heq
      exact ⟨x, hx, hidx.symm, by rw [hidx]; exact hgx⟩

theorem Tracks.evictLoop_spec (h : Tracks e s) {fuel : Nat} (hfuel : 2 * e.heap.length ≤ fuel)
    (hne : ∃ id b, e.freeTable.get? id = some b) : ∃ id b e',
      evictLoop fuel e = .ok ((id, b.contentHash), e') ∧ s.Least id b ∧
      Tracks e' (s.remove id) ∧ e'.heap.length ≤ 2 * e'.freeTable.size + 1 := by
  obtain ⟨id, b, hb⟩ := hne
  obtain ⟨g, -, hrep⟩ := h.represents hb
  obtain ⟨x, rest, hsettle⟩ := settle_isSome h.refreshes
    ((sum_pops_le e.heap).trans hfuel) hrep
  rcases evictLoop_eq fuel e with ⟨hnone, -⟩ | ⟨entry, heap, block, hsome, hblock, hloop⟩
  · rw [hsettle] at hnone
    cases hnone
  · obtain ⟨hleast, hentries, hnumbered⟩ := h.settled (settle_spec h.refreshes hsome) hblock
    refine ⟨entry.blockId, block, _, hloop, hleast, ?_, compact_short _⟩
    exact (h.delete hentries hnumbered).compact

/-! ## Runs -/

/-- The evictor of a new allocator. -/
def new : FrequencyAwareEvictor H := ⟨∅, ∅, [], ∅, 0⟩

/-- An entry of a present block with its current generation. -/
def Live (e : FrequencyAwareEvictor H) (entry : HeapEntry) : Prop :=
  entry.blockId ∈ e.freeTable ∧ e.generations.get? entry.blockId = some entry.generation

instance (e : FrequencyAwareEvictor H) (entry : HeapEntry) : Decidable (e.Live entry) :=
  inferInstanceAs (Decidable (_ ∧ _))

/-- A call that respects the preconditions: an added block is absent, an updated or removed one is
present. -/
inductive FrequencyStep :
    FrequencyAwareEvictor H × FrequencySpec H → FrequencyAwareEvictor H × FrequencySpec H → Prop
  | add {e e' s id h n t} (habsent : s.blocks.lookup id = none)
      (hr : (Evictor.frequencyAware e).add id h n t = .frequencyAware e') :
      FrequencyStep (e, s) (e', s.add id h n t)
  | update {e e' s id b t} (hpresent : s.blocks.lookup id = some b)
      (hr : (Evictor.frequencyAware e).update id t = .ok (.frequencyAware e')) :
      FrequencyStep (e, s) (e', s.update id b t)
  | remove {e e' s id b} (hpresent : s.blocks.lookup id = some b)
      (hr : (Evictor.frequencyAware e).remove id = .ok (.frequencyAware e')) :
      FrequencyStep (e, s) (e', s.remove id)
  | evict {e e' s id h}
      (hr : (Evictor.frequencyAware e).evict = .ok ((id, h), .frequencyAware e')) :
      FrequencyStep (e, s) (e', s.remove id)

/-- The evictor next to its specification. -/
def frequencySys : Sys (FrequencyAwareEvictor H × FrequencySpec H) where
  init p := p = (new, .empty)
  step := FrequencyStep

/-- What the evictor shows of the specification. -/
structure Refines (e : FrequencyAwareEvictor H) (s : FrequencySpec H) : Prop where
  mem : ∀ id, id ∈ e.freeTable ↔ id ∈ s.blocks
  numBlocks : (Evictor.frequencyAware e).numBlocks = s.blocks.keys.card
  update : ∀ id t, id ∈ s.blocks → ∃ e', (Evictor.frequencyAware e).update id t = .ok e'
  remove : ∀ id, id ∈ s.blocks → ∃ e', (Evictor.frequencyAware e).remove id = .ok e'
  /-- A present block is evicted, the least one. -/
  evict : s.blocks ≠ ∅ → ∃ id b e', s.Least id b ∧
    (Evictor.frequencyAware e).evict = .ok ((id, b.contentHash), e')
  /-- Without its stale entries, the evictor chooses the same block. -/
  stale : ∀ id h e', (Evictor.frequencyAware e).evict = .ok ((id, h), e') → ∃ e'',
    (Evictor.frequencyAware { e with heap := e.heap.filter fun x => e.Live x }).evict =
      .ok ((id, h), e'')
  heap : e.heap.length ≤ 2 * s.blocks.keys.card + 1

theorem Tracks.mem (h : Tracks e s) (id : Nat) : id ∈ e.freeTable ↔ id ∈ s.blocks := by
  rw [Finmap.mem_iff, Dict.mem_iff]
  exact exists_congr fun b => by rw [h.blocks]

theorem Tracks.size (h : Tracks e s) : e.freeTable.size = s.blocks.keys.card := by
  have hkeys : s.blocks.keys = e.freeTable.keys.toFinset := by
    ext id
    rw [Finmap.mem_keys, ← h.mem, List.mem_toFinset]
    rfl
  rw [hkeys, List.toFinset_card_of_nodup e.freeTable.nodup_keys, Dict.length_keys]

/-- The evictor without its stale entries. -/
theorem Tracks.live (h : Tracks e s) :
    Tracks { e with heap := e.heap.filter fun x => e.Live x } s := by
  refine ⟨h.blocks, h.accesses, h.counted, ?_, ?_⟩
  · intro id b hb
    obtain ⟨entry, hentry, rfl, hg⟩ := h.numbered hb
    refine ⟨entry, List.mem_filter.mpr ⟨hentry, ?_⟩, rfl, hg⟩
    exact decide_eq_true ⟨Dict.mem_of_get? hb, hg⟩
  · intro entry hentry
    have hok := h.entries entry (List.mem_filter.mp hentry).1
    exact ⟨hok.older, hok.live⟩

theorem Tracks.evict_spec (h : Tracks e s) (hne : e.freeTable.size ≠ 0) : ∃ id b e',
    (Evictor.frequencyAware e).evict = .ok ((id, b.contentHash), .frequencyAware e') ∧
      s.Least id b ∧ Tracks e' (s.remove id) ∧ e'.heap.length ≤ 2 * e'.freeTable.size + 1 := by
  have hentry : ∃ id b, e.freeTable.get? id = some b := by
    obtain ⟨p, hp⟩ := List.exists_mem_of_length_pos (Nat.pos_of_ne_zero hne)
    exact ⟨p.1, p.2, Dict.mem_entries.mp hp⟩
  have hfuel : 2 * e.heap.length ≤ 2 * e.heap.length + 1 := Nat.le_succ _
  obtain ⟨id, b, e', hr, hrest⟩ := h.evictLoop_spec hfuel hentry
  refine ⟨id, b, e', ?_, hrest⟩
  unfold Evictor.evict evict
  dsimp only
  rw [if_neg hne, hr]
  rfl

theorem tracks_new : Tracks (new : FrequencyAwareEvictor H) .empty := by
  refine ⟨?_, fun _ => rfl, ?_, ?_, ?_⟩
  · intro id
    exact Finmap.lookup_empty id
  · intro id b hb
    cases hb
  · intro id b hb
    cases hb
  · intro entry hentry
    cases hentry

/-- `add` -/
theorem Tracks.add (h : Tracks e s) (id : Nat) (hash : H) (n : Nat) (t : Int)
    {e' : FrequencyAwareEvictor H}
    (hr : (Evictor.frequencyAware e).add id hash n t = .frequencyAware e') :
    Tracks e' (s.add id hash n t) ∧ e'.heap.length ≤ 2 * e'.freeTable.size + 1 := by
  cases hr
  refine ⟨(h.enter ?_ ?_ ?_).compact, compact_short _⟩
  · intro h'
    rw [Dict.get?_set]
    split_ifs
    · rw [Option.getD_some, h.accesses]
    · exact h.accesses h'
  · intro h'
    show s.accesses h' ≤ if h' = hash then _ else _
    split_ifs with heq
    · rw [heq]
      exact Nat.le_succ _
    · exact Nat.le_refl _
  · intro h' hmem
    rw [Dict.mem_set]
    exact hmem

/-- `update` -/
theorem Tracks.update (h : Tracks e s) (hb : s.blocks.lookup id = some b) (t : Int) :
    ∃ e', (Evictor.frequencyAware e).update id t = .ok (.frequencyAware e') ∧
      Tracks e' (s.update id b t) ∧ e'.heap.length ≤ 2 * e'.freeTable.size + 1 := by
  rw [h.blocks] at hb
  have hget : (Evictor.frequencyAware e).freeTable.get? id = some b := hb
  unfold Evictor.update
  rw [hget]
  refine ⟨_, rfl, (h.enter h.accesses (fun _ => Nat.le_refl _) ?_).compact, compact_short _⟩
  rintro h' (rfl | hmem)
  · have hcounted := h.counted hb
    exact hcounted
  · exact hmem

/-- `remove` -/
theorem Tracks.remove (h : Tracks e s) (hb : s.blocks.lookup id = some b) :
    ∃ e', (Evictor.frequencyAware e).remove id = .ok (.frequencyAware e') ∧
      Tracks e' (s.remove id) ∧ e'.heap.length ≤ 2 * e'.freeTable.size + 1 := by
  rw [h.blocks] at hb
  have hmem : id ∈ (Evictor.frequencyAware e).freeTable := Dict.mem_of_get? hb
  unfold Evictor.remove
  rw [if_pos hmem]
  have hdelete := h.delete h.entries fun id' b' (_ : id' ≠ id) hb' => h.numbered hb'
  exact ⟨_, rfl, hdelete.compact, compact_short _⟩

/-- What every call keeps. -/
theorem step_tracks {p p' : FrequencyAwareEvictor H × FrequencySpec H}
    (h : Tracks p.1 p.2) (hstep : FrequencyStep p p') :
    Tracks p'.1 p'.2 ∧ p'.1.heap.length ≤ 2 * p'.1.freeTable.size + 1 := by
  cases hstep with
  | add habsent hr => exact h.add _ _ _ _ hr
  | update hpresent hr =>
    obtain ⟨e', hr', hrest⟩ := h.update hpresent _
    rw [hr] at hr'
    cases hr'
    exact hrest
  | remove hpresent hr =>
    obtain ⟨e', hr', hrest⟩ := h.remove hpresent
    rw [hr] at hr'
    cases hr'
    exact hrest
  | @evict e e' s id hash hr =>
    have hne : e.freeTable.size ≠ 0 := by
      intro hzero
      unfold Evictor.evict FrequencyAwareEvictor.evict at hr
      dsimp only at hr
      rw [if_pos hzero] at hr
      cases hr
    obtain ⟨id', b, e₁, hr', -, hrest⟩ := h.evict_spec hne
    rw [hr] at hr'
    cases hr'
    exact hrest

theorem tracks_of_reachable {p : FrequencyAwareEvictor H × FrequencySpec H}
    (h : frequencySys.Reachable p) :
    Tracks p.1 p.2 ∧ p.1.heap.length ≤ 2 * p.1.freeTable.size + 1 := by
  induction h with
  | init h =>
    rw [h]
    exact ⟨tracks_new, Nat.zero_le _⟩
  | step _ hs ih => exact step_tracks ih.1 hs

/-- Whatever calls were made before, the evictor shows what the specification says. -/
theorem evictor_refines {e : FrequencyAwareEvictor H} {s : FrequencySpec H}
    (h : frequencySys.Reachable (e, s)) : Refines e s := by
  obtain ⟨ht, hshort⟩ := tracks_of_reachable h
  refine ⟨ht.mem, ht.size, ?_, ?_, ?_, ?_, ?_⟩
  · intro id t hid
    obtain ⟨b, hb⟩ := Finmap.mem_iff.mp hid
    obtain ⟨e', hr, -⟩ := ht.update hb t
    exact ⟨_, hr⟩
  · intro id hid
    obtain ⟨b, hb⟩ := Finmap.mem_iff.mp hid
    obtain ⟨e', hr, -⟩ := ht.remove hb
    exact ⟨_, hr⟩
  · intro hne
    have hsize : e.freeTable.size ≠ 0 := by
      intro hzero
      rw [ht.size, Finset.card_eq_zero] at hzero
      refine hne (Finmap.ext_lookup fun id => ?_)
      rw [Finmap.lookup_empty, Finmap.lookup_eq_none, ← Finmap.mem_keys, hzero]
      exact Finset.notMem_empty id
    obtain ⟨id, b, e', hr, hleast, -⟩ := ht.evict_spec hsize
    exact ⟨id, b, _, hleast, hr⟩
  · intro id hash e' hr
    have hsize : e.freeTable.size ≠ 0 := by
      intro hzero
      unfold Evictor.evict evict at hr
      dsimp only at hr
      rw [if_pos hzero] at hr
      cases hr
    obtain ⟨id₁, b₁, e₁, hr₁, hleast₁, -⟩ := ht.evict_spec hsize
    obtain ⟨id₂, b₂, e₂, hr₂, hleast₂, -⟩ := ht.live.evict_spec hsize
    obtain ⟨rfl, rfl⟩ := FrequencySpec.least_unique hleast₁ hleast₂
    rw [hr] at hr₁
    cases hr₁
    exact ⟨_, hr₂⟩
  · rw [← ht.size]
    exact hshort

/-- After a content was added twice under two ids and one of the blocks was removed. -/
theorem evictor_refines_two : ∃ (e : FrequencyAwareEvictor Nat) (s : FrequencySpec Nat), Refines e s ∧
    s.blocks.lookup 2 ≠ none ∧ e.heap.length = 2 := by
  have h₀ : frequencySys.Reachable ((new : FrequencyAwareEvictor Nat), .empty) := .init rfl
  have h₁ := h₀.step (@FrequencyStep.add Nat _ new _ .empty 1 7 16 3 (Finmap.lookup_empty 1) rfl)
  have h₂ := h₁.step (@FrequencyStep.add Nat _ _ _ _ 2 7 16 2 (by decide) rfl)
  exact ⟨_, _, evictor_refines h₂, by decide, by decide⟩

end FrequencyAwareEvictor

end Bi100
