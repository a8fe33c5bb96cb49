import Bi100.Gdn.Prefix
import Bi100.Lib.Lru

/-!
# The scheduler's index of GDN prefix states (`GdnPrefixStatePolicy`)

An `OrderedDict` of the keys whose states the workers hold, the least recently used first. The
index decides what a request restores and what the workers evict; the workers follow.

`admit_run` and `selectRestore_run` give the two mutating methods in terms of recency lists
(`Lib/Lru.lean`).
-/

namespace Bi100

open Py

variable {D : Type} [DecidableEq D]

/-- The capacity of a policy. -/
def GdnCachePolicy.capacity : GdnCachePolicy → Nat
  | .fine32 => 32
  | .admission64 => 64
  | .off => 0

structure GdnPrefixStatePolicy (D : Type) where
  policy : GdnCachePolicy
  /-- An `OrderedDict` from key to `None`. -/
  resident : Dict (GdnPrefixKey D) Unit

namespace GdnPrefixStatePolicy

/-- `__init__`. -/
def init (policy : GdnCachePolicy) : GdnPrefixStatePolicy D := ⟨policy, ∅⟩

def capacity (p : GdnPrefixStatePolicy D) : Nat := p.policy.capacity

/-- `resident_keys`. -/
def residentKeys (p : GdnPrefixStatePolicy D) : List (GdnPrefixKey D) := p.resident.keys

/-- `should_capture_final`. -/
def shouldCaptureFinal (p : GdnPrefixStatePolicy D) (key : GdnPrefixKey D) : Except Err Bool := do
  let _ ← makePrefixKey key.1 key.2
  match p.policy with
  | .off => return false
  | .admission64 => return decide (key ∉ p.resident)
  | .fine32 => return true

/-- `OrderedDict.move_to_end`. -/
def moveToEnd (key : GdnPrefixKey D) : EStateM Err (GdnPrefixStatePolicy D) Unit :=
  modify fun p => { p with resident := (p.resident.erase key).set key () }

/-- `select_restore`: the deepest resident key of the live prefix, which becomes the most recently
used. -/
def selectRestore (livePrefixKeys : List (GdnPrefixKey D)) (maxBlocks : Nat) :
    EStateM Err (GdnPrefixStatePolicy D) (Option (GdnPrefixKey D)) := do
  let p ← get
  if p.capacity = 0 ∨ maxBlocks = 0 then
    return none
  match (livePrefixKeys.take maxBlocks).reverse.find? (· ∈ p.resident) with
  | none => return none
  | some best =>
    moveToEnd best
    return some best

/-- `repeated_branch_candidate`. -/
def repeatedBranchCandidate (p : GdnPrefixStatePolicy D) (livePrefixKeys : List (GdnPrefixKey D))
    (maxBlocks : Nat) : Option (GdnPrefixKey D) :=
  if p.policy ≠ .admission64 ∨ maxBlocks = 0 then
    none
  else
    match livePrefixKeys[min livePrefixKeys.length maxBlocks - 1]? with
    | none => none
    | some candidate => if candidate ∈ p.resident then none else some candidate

/-- `while len(d) > capacity: d.popitem(last=False)`, for at most `fuel` iterations. -/
def popOver (capacity : Nat) : Nat → Dict (GdnPrefixKey D) Unit →
    List (GdnPrefixKey D) × Dict (GdnPrefixKey D) Unit
  | 0, d => ([], d)
  | fuel + 1, d =>
    if capacity < d.size then
      let (evicted, rest) := popOver capacity fuel d.tail
      (d.keys.head?.toList ++ evicted, rest)
    else ([], d)

/-- A resident key becomes the most recently used, a new one is added. -/
def touchKey (key : GdnPrefixKey D) : EStateM Err (GdnPrefixStatePolicy D) Unit := do
  let p ← get
  if key ∈ p.resident then
    moveToEnd key
  else
    set { p with resident := p.resident.set key () }

/-- The `while` loop of `admit`. -/
def evictOver : EStateM Err (GdnPrefixStatePolicy D) (List (GdnPrefixKey D)) := do
  let p ← get
  let popped := popOver p.capacity p.resident.size p.resident
  set { p with resident := popped.2 }
  return popped.1

/-- One iteration of the loop in `admit`. -/
def admitKey (key : GdnPrefixKey D) :
    EStateM Err (GdnPrefixStatePolicy D) (List (GdnPrefixKey D)) := do
  let _ ← lift (makePrefixKey key.1 key.2)
  touchKey key
  evictOver

def admitKeys : List (GdnPrefixKey D) →
    EStateM Err (GdnPrefixStatePolicy D) (List (GdnPrefixKey D))
  | [] => return []
  | key :: keys => do
    let evicted ← admitKey key
    let rest ← admitKeys keys
    return evicted ++ rest

/-- `admit`. -/
def admitCaptures (keys : List (GdnPrefixKey D)) :
    EStateM Err (GdnPrefixStatePolicy D) (List (GdnPrefixKey D)) := do
  let p ← get
  if p.capacity = 0 then
    return []
  admitKeys keys

/-! ## The methods as operations on recency lists -/

omit [DecidableEq D] in
/-- The loop ends with what fits: enough fuel is the size. -/
theorem popOver_eq {capacity fuel : Nat} {d : Dict (GdnPrefixKey D) Unit} (h : d.size ≤ fuel) :
    ((popOver capacity fuel d).1, (popOver capacity fuel d).2.keys) =
      Lru.overflow capacity d.keys := by
  induction fuel generalizing d with
  | zero =>
    have hnil : d.keys = [] := List.length_eq_zero_iff.mp (by rw [Dict.length_keys]; omega)
    simp [popOver, Lru.overflow, hnil]
  | succ fuel ih =>
    rw [popOver]
    split
    · next hlt =>
      have hlen := Dict.length_keys d
      obtain ⟨k, ks, hks⟩ : ∃ k ks, d.keys = k :: ks :=
        List.exists_cons_of_ne_nil fun hn => by rw [hn] at hlen; simp at hlen; omega
      have hrec := ih (d := d.tail) (by rw [Dict.size_tail]; omega)
      rw [Prod.mk.injEq] at hrec
      simp only [hrec.1, hrec.2, Dict.keys_tail, hks, List.tail_cons, List.head?_cons,
        Option.toList_some, List.singleton_append, Lru.overflow, List.length_cons]
      rw [hks, List.length_cons] at hlen
      have hsub : ks.length + 1 - capacity = (ks.length - capacity) + 1 := by omega
      rw [hsub, List.take_succ_cons, List.drop_succ_cons]
    · next hge =>
      have hz : d.size - capacity = 0 := by omega
      simp [Lru.overflow, hz]

theorem keys_touch (d : Dict (GdnPrefixKey D) Unit) (key : GdnPrefixKey D) :
    ((d.erase key).set key ()).keys = Lru.touch d.keys key := Dict.keys_erase_set d key ()

theorem selectRestore_ok {live : List (GdnPrefixKey D)} {maxBlocks : Nat}
    {p p' : GdnPrefixStatePolicy D} {r : Option (GdnPrefixKey D)}
    (h : (selectRestore live maxBlocks).run p = .ok r p') :
    p'.policy = p.policy ∧
    ((r = none ∧ p' = p) ∨ ∃ key, r = some key ∧ key ∈ live ∧ key ∈ p.resident ∧
      p'.resident.keys = Lru.touch p.resident.keys key) := by
  rw [selectRestore, run_get_bind] at h
  split at h
  · obtain ⟨rfl, rfl⟩ := run_pure_ok.mp h
    exact ⟨rfl, .inl ⟨rfl, rfl⟩⟩
  · split at h
    · obtain ⟨rfl, rfl⟩ := run_pure_ok.mp h
      exact ⟨rfl, .inl ⟨rfl, rfl⟩⟩
    · next best hbest =>
      rw [moveToEnd, run_modify_bind] at h
      obtain ⟨rfl, rfl⟩ := run_pure_ok.mp h
      have hm := List.mem_reverse.mp (List.mem_of_find?_eq_some hbest)
      exact ⟨rfl, .inr ⟨best, rfl, List.mem_of_mem_take hm,
        by simpa using List.find?_some hbest, keys_touch _ _⟩⟩

theorem touchKey_ok {key : GdnPrefixKey D} {p p' : GdnPrefixStatePolicy D} {u : Unit}
    (h : (touchKey key).run p = .ok u p') :
    p'.policy = p.policy ∧ p'.resident.keys = Lru.touch p.resident.keys key := by
  rw [touchKey, run_get_bind] at h
  split at h
  · obtain rfl := run_modify_ok.mp h
    exact ⟨rfl, keys_touch _ _⟩
  · next hn =>
    obtain rfl := run_set_ok.mp h
    exact ⟨rfl, by rw [← keys_touch, Dict.erase_of_not_mem hn]⟩

theorem admitKey_ok {key : GdnPrefixKey D} {p p' : GdnPrefixStatePolicy D}
    {evicted : List (GdnPrefixKey D)} (h : (admitKey key).run p = .ok evicted p') :
    p'.policy = p.policy ∧
      (evicted, p'.resident.keys) =
        Lru.overflow p.capacity (Lru.touch p.resident.keys key) := by
  rw [admitKey, run_bind_ok] at h
  obtain ⟨_, p₀, hkey, h⟩ := h
  obtain ⟨-, rfl⟩ := run_lift_ok.mp hkey
  obtain ⟨_, p₁, htouch, h⟩ := run_bind_ok.mp h
  obtain ⟨hp, hk⟩ := touchKey_ok htouch
  rw [evictOver, run_get_bind, run_set_bind] at h
  obtain ⟨rfl, rfl⟩ := run_pure_ok.mp h
  refine ⟨hp, ?_⟩
  rw [← hk, show p₀.capacity = p₁.capacity by rw [capacity, capacity, hp]]
  exact popOver_eq (Nat.le_refl _)

theorem admitKeys_ok {keys : List (GdnPrefixKey D)} {p p' : GdnPrefixStatePolicy D}
    {evicted : List (GdnPrefixKey D)} (h : (admitKeys keys).run p = .ok evicted p') :
    p'.policy = p.policy ∧
      (evicted, p'.resident.keys) = Lru.admitAll p.capacity p.resident.keys keys := by
  induction keys generalizing p evicted with
  | nil =>
    obtain ⟨rfl, rfl⟩ := run_pure_ok.mp h
    exact ⟨rfl, rfl⟩
  | cons key keys ih =>
    rw [admitKeys, run_bind_ok] at h
    obtain ⟨e, p₁, h₁, h⟩ := h
    obtain ⟨e', p₂, h₂, h⟩ := run_bind_ok.mp h
    obtain ⟨rfl, rfl⟩ := run_pure_ok.mp h
    obtain ⟨hp₁, hk₁⟩ := admitKey_ok h₁
    obtain ⟨hp₂, hk₂⟩ := ih h₂
    refine ⟨hp₂.trans hp₁, ?_⟩
    rw [capacity, hp₁, ← capacity, Prod.mk.injEq] at hk₂
    rw [Prod.mk.injEq] at hk₁
    simp only [Lru.admitAll, ← hk₁.1, ← hk₁.2, ← hk₂.1, ← hk₂.2]

theorem admitCaptures_ok {keys : List (GdnPrefixKey D)} {p p' : GdnPrefixStatePolicy D}
    {evicted : List (GdnPrefixKey D)} (h : (admitCaptures keys).run p = .ok evicted p') :
    p'.policy = p.policy ∧
    ((p.capacity = 0 ∧ evicted = [] ∧ p' = p) ∨ (p.capacity ≠ 0 ∧
      (evicted, p'.resident.keys) = Lru.admitAll p.capacity p.resident.keys keys)) := by
  rw [admitCaptures, run_get_bind] at h
  split at h
  · next hz =>
    obtain ⟨rfl, rfl⟩ := run_pure_ok.mp h
    exact ⟨rfl, .inl ⟨hz, rfl, rfl⟩⟩
  · next hz =>
    obtain ⟨hp, hk⟩ := admitKeys_ok h
    exact ⟨hp, .inr ⟨hz, hk⟩⟩

end GdnPrefixStatePolicy

end Bi100
