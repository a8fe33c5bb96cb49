import Bi100.Block.Content

/-!
# Where a block id is

Every block id is in the hashless free list, in the evictor, or in use. `IdInv` says so for the
containers of ids, without the blocks that hold them. Each lemma below is about one way an id
moves.
-/

namespace Bi100

open Py

variable {H : Type} [DecidableEq H]

/-- The containers of ids agree. -/
structure IdInv (s : AllocState H) : Prop where
  free_nodup : s.freeBlockIndices.Nodup
  free : ∀ id ∈ s.freeBlockIndices, id ∈ s.allBlockIds ∧ s.refcounts id = 0 ∧
    id ∉ s.evictor.freeTable ∧ ∀ h, s.cachedBlocks.get? h ≠ some id
  evictable : ∀ id m, s.evictor.freeTable.get? id = some m → id ∈ s.allBlockIds ∧
    s.refcounts id = 0 ∧ s.cachedBlocks.get? m.contentHash = some id
  used : ∀ id, 0 < s.refcounts id → id ∈ s.allBlockIds
  active : ∀ id ∈ s.allBlockIds, (s.blockTracker id).active = true ↔ 0 < s.refcounts id
  cover : ∀ id ∈ s.allBlockIds, s.refcounts id = 0 →
    id ∈ s.freeBlockIndices ∨ id ∈ s.evictor.freeTable
  cached_inj : ∀ h h' id, s.cachedBlocks.get? h = some id → s.cachedBlocks.get? h' = some id →
    h = h'
  cached_mem : ∀ h id, s.cachedBlocks.get? h = some id → id ∈ s.allBlockIds

namespace IdInv

variable {s : AllocState H} {id : Nat} {h : H}

/-- The containers alone matter. -/
theorem congr {s' : AllocState H} (hs : IdInv s) (hall : s'.allBlockIds = s.allBlockIds)
    (hfree : s'.freeBlockIndices = s.freeBlockIndices) (href : s'.refcounts = s.refcounts)
    (hev : s'.evictor = s.evictor) (hcached : s'.cachedBlocks = s.cachedBlocks)
    (htracker : s'.blockTracker = s.blockTracker) : IdInv s' := by
  constructor
  · rw [hfree]
    exact hs.free_nodup
  · rw [hfree, hall, href, hev, hcached]
    exact hs.free
  · rw [hall, href, hev, hcached]
    exact hs.evictable
  · rw [hall, href]
    exact hs.used
  · rw [hall, href, htracker]
    exact hs.active
  · rw [hall, href, hfree, hev]
    exact hs.cover
  · rw [hcached]
    exact hs.cached_inj
  · rw [hall, hcached]
    exact hs.cached_mem

/-- A cached id that nobody uses is in the evictor, under its hash. -/
theorem evictable_of_cached (hs : IdInv s) (hc : s.cachedBlocks.get? h = some id)
    (h0 : s.refcounts id = 0) : ∃ m, s.evictor.freeTable.get? id = some m ∧ m.contentHash = h := by
  rcases hs.cover id (hs.cached_mem h id hc) h0 with hf | he
  · exact absurd hc ((hs.free id hf).2.2.2 h)
  · obtain ⟨m, hm⟩ := Dict.mem_iff.mp he
    exact ⟨m, hm, hs.cached_inj _ _ id (hs.evictable id m hm).2.2 hc⟩

/-- `s` with a reference count and a tracker changed. -/
def withCount (s : AllocState H) (id n : Nat) (t : BlockTracker) : AllocState H :=
  { s with
    refcounts := Function.update s.refcounts id n
    blockTracker := Function.update s.blockTracker id t }

/-- The front of the free list is taken. -/
theorem takeFree (hs : IdInv s) {rest : List Nat} (hf : s.freeBlockIndices = id :: rest)
    (t : BlockTracker) (ht : t.active = true) :
    IdInv { withCount s id (s.refcounts id + 1) t with freeBlockIndices := rest } := by
  have hid := hs.free id (hf ▸ List.mem_cons_self)
  have hnd : id ∉ rest ∧ rest.Nodup := List.nodup_cons.mp (hf ▸ hs.free_nodup)
  constructor
  · exact hnd.2
  · intro x hx
    have hne : x ≠ id := fun he => hnd.1 (he ▸ hx)
    simp only [withCount, Function.update_of_ne hne]
    exact hs.free x (hf ▸ List.mem_cons_of_mem _ hx)
  · intro x m hm
    have hne : x ≠ id := fun he => hid.2.2.1 (he ▸ Dict.mem_of_get? hm)
    simp only [withCount, Function.update_of_ne hne]
    exact hs.evictable x m hm
  · intro x hx
    by_cases hne : x = id
    · exact hne ▸ hid.1
    · simp only [withCount, Function.update_of_ne hne] at hx
      exact hs.used x hx
  · intro x hx
    by_cases hne : x = id
    · subst hne
      simp [withCount, ht]
    · simp only [withCount, Function.update_of_ne hne]
      exact hs.active x hx
  · intro x hx h0
    by_cases hne : x = id
    · subst hne
      simp [withCount] at h0
    · simp only [withCount, Function.update_of_ne hne] at h0
      rcases hs.cover x hx h0 with h' | h'
      · rw [hf] at h'
        exact .inl ((List.mem_cons.mp h').resolve_left hne)
      · exact .inr h'
  · exact hs.cached_inj
  · exact hs.cached_mem

/-- A block is evicted and taken. -/
theorem takeEvicted (hs : IdInv s) {e : Evictor H} (he : s.evictor.evict = .ok ((id, h), e))
    (t : BlockTracker) (ht : t.active = true) :
    IdInv { withCount s id (s.refcounts id + 1) t with
      evictor := e, cachedBlocks := s.cachedBlocks.erase h } ∧
      s.cachedBlocks.get? h = some id := by
  obtain ⟨⟨m, hm, rfl⟩, htab⟩ := Evictor.evict_ok he
  obtain ⟨hall, h0, hc⟩ := hs.evictable id m hm
  refine ⟨?_, hc⟩
  have hget : ∀ x h', (s.cachedBlocks.erase m.contentHash).get? h' = some x →
      s.cachedBlocks.get? h' = some x := by
    intro x h' hx
    rw [Dict.get?_erase] at hx
    split at hx
    · cases hx
    · exact hx
  constructor
  · exact hs.free_nodup
  · intro x hx
    have hne : x ≠ id := fun hxe => (hs.free x hx).2.2.1 (hxe ▸ Dict.mem_of_get? hm)
    obtain ⟨h₁, h₂, h₃, h₄⟩ := hs.free x hx
    simp only [withCount, Function.update_of_ne hne, htab]
    refine ⟨h₁, h₂, fun hmem => h₃ (Dict.mem_erase.mp hmem).2, fun h' hx' => h₄ h' ?_⟩
    exact hget x h' hx'
  · intro x m' hm'
    simp only [htab, Dict.get?_erase] at hm'
    split at hm'
    · cases hm'
    · next hne =>
      obtain ⟨h₁, h₂, h₃⟩ := hs.evictable x m' hm'
      simp only [withCount, Function.update_of_ne hne]
      refine ⟨h₁, h₂, ?_⟩
      rw [Dict.get?_erase, if_neg]
      · exact h₃
      · intro heq
        rw [heq, hc] at h₃
        exact hne (Option.some.inj h₃).symm
  · intro x hx
    by_cases hne : x = id
    · exact hne ▸ hall
    · simp only [withCount, Function.update_of_ne hne] at hx
      exact hs.used x hx
  · intro x hx
    by_cases hne : x = id
    · subst hne
      simp [withCount, ht]
    · simp only [withCount, Function.update_of_ne hne]
      exact hs.active x hx
  · intro x hx h0'
    by_cases hne : x = id
    · subst hne
      simp [withCount] at h0'
    · simp only [withCount, Function.update_of_ne hne] at h0'
      simp only [htab, Dict.mem_erase]
      exact (hs.cover x hx h0').imp_right fun h' => ⟨hne, h'⟩
  · intro h₁ h₂ x hx₁ hx₂
    exact hs.cached_inj h₁ h₂ x (hget x h₁ hx₁) (hget x h₂ hx₂)
  · intro h' x hx
    exact hs.cached_mem h' x (hget x h' hx)

/-- A used id gets one more or one less reference and stays in use. -/
theorem recount (hs : IdInv s) (h0 : 0 < s.refcounts id) {n : Nat} (hn : 0 < n) :
    IdInv { s with refcounts := Function.update s.refcounts id n } := by
  have hrc : ∀ x, Function.update s.refcounts id n x = 0 ↔ s.refcounts x = 0 := by
    intro x
    by_cases hne : x = id
    · subst hne
      simp only [Function.update_self]
      omega
    · simp [Function.update_of_ne hne]
  have hpos : ∀ x, 0 < Function.update s.refcounts id n x ↔ 0 < s.refcounts x := fun x => by
    have := hrc x
    omega
  constructor
  · exact hs.free_nodup
  · intro x hx
    obtain ⟨h₁, h₂, h₃⟩ := hs.free x hx
    exact ⟨h₁, (hrc x).mpr h₂, h₃⟩
  · intro x m hm
    obtain ⟨h₁, h₂, h₃⟩ := hs.evictable x m hm
    exact ⟨h₁, (hrc x).mpr h₂, h₃⟩
  · exact fun x hx => hs.used x ((hpos x).mp hx)
  · exact fun x hx => (hs.active x hx).trans (hpos x).symm
  · exact fun x hx h0 => hs.cover x hx ((hrc x).mp h0)
  · exact hs.cached_inj
  · exact hs.cached_mem

/-- A cached block is taken out of the evictor. -/
theorem acquireEvicted (hs : IdInv s) (hc : s.cachedBlocks.get? h = some id)
    (h0 : s.refcounts id = 0) {e : Evictor H}
    (he : e.freeTable = s.evictor.freeTable.erase id) (t : BlockTracker)
    (ht : t.active = true) :
    IdInv { withCount s id (s.refcounts id + 1) t with evictor := e } := by
  constructor
  · exact hs.free_nodup
  · intro x hx
    obtain ⟨h₁, h₂, h₃, h₄⟩ := hs.free x hx
    have hne : x ≠ id := fun hxe => h₄ h (hxe ▸ hc)
    simp only [withCount, Function.update_of_ne hne, he]
    exact ⟨h₁, h₂, fun hmem => h₃ (Dict.mem_erase.mp hmem).2, h₄⟩
  · intro x m hm
    simp only [he, Dict.get?_erase] at hm
    split at hm
    · cases hm
    · next hne =>
      simp only [withCount, Function.update_of_ne hne]
      exact hs.evictable x m hm
  · intro x hx
    by_cases hne : x = id
    · exact hne ▸ hs.cached_mem h id hc
    · simp only [withCount, Function.update_of_ne hne] at hx
      exact hs.used x hx
  · intro x hx
    by_cases hne : x = id
    · subst hne
      simp [withCount, ht]
    · simp only [withCount, Function.update_of_ne hne]
      exact hs.active x hx
  · intro x hx h0'
    by_cases hne : x = id
    · subst hne
      simp [withCount] at h0'
    · simp only [withCount, Function.update_of_ne hne] at h0'
      simp only [he, Dict.mem_erase]
      exact (hs.cover x hx h0').imp_right fun h' => ⟨hne, h'⟩
  · exact hs.cached_inj
  · exact hs.cached_mem

/-- The last reference to a cached block is dropped. -/
theorem releaseCached (hs : IdInv s) (hc : s.cachedBlocks.get? h = some id)
    (h1 : s.refcounts id = 1) (n : Nat) (a : Int) (t : BlockTracker) (ht : t.active = false) :
    IdInv { withCount s id 0 t with evictor := s.evictor.add id h n a } := by
  constructor
  · exact hs.free_nodup
  · intro x hx
    obtain ⟨h₁, h₂, h₃, h₄⟩ := hs.free x hx
    have hne : x ≠ id := fun hxe => h₄ h (hxe ▸ hc)
    simp only [withCount, Function.update_of_ne hne, Evictor.freeTable_add, Dict.mem_set]
    exact ⟨h₁, h₂, fun hmem => hmem.elim hne h₃, h₄⟩
  · intro x m hm
    simp only [Evictor.freeTable_add, Dict.get?_set] at hm
    split at hm
    · next he =>
      obtain rfl := Option.some.inj hm
      subst he
      exact ⟨hs.cached_mem h x hc, by simp [withCount], hc⟩
    · next hne =>
      simp only [withCount, Function.update_of_ne hne]
      exact hs.evictable x m hm
  · intro x hx
    by_cases hne : x = id
    · exact hne ▸ hs.cached_mem h id hc
    · simp only [withCount, Function.update_of_ne hne] at hx
      exact hs.used x hx
  · intro x hx
    by_cases hne : x = id
    · subst hne
      simp [withCount, ht]
    · simp only [withCount, Function.update_of_ne hne]
      exact hs.active x hx
  · intro x hx h0
    simp only [Evictor.freeTable_add, Dict.mem_set]
    by_cases hne : x = id
    · exact .inr (.inl hne)
    · simp only [withCount, Function.update_of_ne hne] at h0
      exact (hs.cover x hx h0).imp_right .inr
  · exact hs.cached_inj
  · exact hs.cached_mem

/-- The last reference to a block that is not cached is dropped. -/
theorem releaseFree (hs : IdInv s) (hc : ∀ h, s.cachedBlocks.get? h ≠ some id)
    (h1 : s.refcounts id = 1) (t : BlockTracker) (ht : t.active = false) :
    IdInv { withCount s id 0 t with freeBlockIndices := id :: s.freeBlockIndices } := by
  have hfree : id ∉ s.freeBlockIndices := fun hm => by
    have := (hs.free id hm).2.1
    omega
  have hev : id ∉ s.evictor.freeTable := fun hm => by
    obtain ⟨m, hm⟩ := Dict.mem_iff.mp hm
    have := (hs.evictable id m hm).2.1
    omega
  constructor
  · exact List.nodup_cons.mpr ⟨hfree, hs.free_nodup⟩
  · intro x hx
    by_cases hne : x = id
    · subst hne
      exact ⟨hs.used x (by omega), by simp [withCount], hev, hc⟩
    · simp only [withCount, Function.update_of_ne hne]
      exact hs.free x ((List.mem_cons.mp hx).resolve_left hne)
  · intro x m hm
    have hne : x ≠ id := fun he => hev (he ▸ Dict.mem_of_get? hm)
    simp only [withCount, Function.update_of_ne hne]
    exact hs.evictable x m hm
  · intro x hx
    by_cases hne : x = id
    · exact hs.used x (by rw [hne]; omega)
    · simp only [withCount, Function.update_of_ne hne] at hx
      exact hs.used x hx
  · intro x hx
    by_cases hne : x = id
    · subst hne
      simp [withCount, ht]
    · simp only [withCount, Function.update_of_ne hne]
      exact hs.active x hx
  · intro x hx h0
    by_cases hne : x = id
    · exact .inl (hne ▸ List.mem_cons_self)
    · simp only [withCount, Function.update_of_ne hne] at h0
      exact (hs.cover x hx h0).imp_left (List.mem_cons_of_mem _)
  · exact hs.cached_inj
  · exact hs.cached_mem

/-- A used block that is not cached is cached under a new hash. -/
theorem cache (hs : IdInv s) (hc : ∀ h, s.cachedBlocks.get? h ≠ some id)
    (hh : s.cachedBlocks.get? h = none) (h0 : 0 < s.refcounts id) :
    IdInv { s with cachedBlocks := s.cachedBlocks.set h id } := by
  have hget : ∀ x h', (s.cachedBlocks.set h id).get? h' = some x →
      (h' = h ∧ x = id) ∨ s.cachedBlocks.get? h' = some x := by
    intro x h' hx
    rw [Dict.get?_set] at hx
    split at hx
    · next he => exact .inl ⟨he, (Option.some.inj hx).symm⟩
    · exact .inr hx
  constructor
  · exact hs.free_nodup
  · intro x hx
    obtain ⟨h₁, h₂, h₃, h₄⟩ := hs.free x hx
    refine ⟨h₁, h₂, h₃, fun h' hx' => ?_⟩
    rcases hget x h' hx' with ⟨-, rfl⟩ | hx'
    · omega
    · exact h₄ h' hx'
  · intro x m hm
    obtain ⟨h₁, h₂, h₃⟩ := hs.evictable x m hm
    refine ⟨h₁, h₂, ?_⟩
    rw [Dict.get?_set, if_neg]
    · exact h₃
    · intro heq
      rw [heq, hh] at h₃
      cases h₃
  · exact hs.used
  · exact hs.active
  · exact hs.cover
  · intro h₁ h₂ x hx₁ hx₂
    rcases hget x h₁ hx₁ with ⟨rfl, rfl⟩ | hold₁
    · rcases hget x h₂ hx₂ with ⟨rfl, -⟩ | hold₂
      · rfl
      · exact absurd hold₂ (hc h₂)
    · rcases hget x h₂ hx₂ with ⟨rfl, rfl⟩ | hold₂
      · exact absurd hold₁ (hc h₁)
      · exact hs.cached_inj h₁ h₂ x hold₁ hold₂
  · intro h' x hx
    rcases hget x h' hx with ⟨-, rfl⟩ | hx
    · exact hs.used x h0
    · exact hs.cached_mem h' x hx

end IdInv

end Bi100
