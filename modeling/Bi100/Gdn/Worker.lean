import Bi100.Gdn.Actions

/-!
# The worker's cache of GDN prefix states (`qwen3_5.py`, `forward`)

The scheduler sends the actions of a prefill with its metadata; the worker's forward evicts,
restores, runs the model and saves, in this order. A saved state is a value of type `S`.
-/

namespace Bi100

open Py

variable {D S : Type} [DecidableEq D]

namespace GdnWorker

/-- `_validate_gdn_prefix_key`. -/
def validateGdnPrefixKey (key : GdnPrefixKey D) : Except Err (GdnPrefixKey D) := do
  guardNot (key.1 = 0) (.runtimeError "invalid GDN prefix key")
  return key

/-- One iteration over `gdn_evict_keys`. -/
def evictKey (key : GdnPrefixKey D) : EStateM Err (Dict (GdnPrefixKey D) S) Unit := do
  let key ← lift (validateGdnPrefixKey key)
  modify fun cache => cache.erase key

/-- The saved state that `gdn_restore_key` names. -/
def restoreState (restoreKey : Option (GdnPrefixKey D)) :
    EStateM Err (Dict (GdnPrefixKey D) S) (Option S) := do
  match restoreKey with
  | none => return none
  | some key =>
    let key ← lift (validateGdnPrefixKey key)
    let cache ← get
    let saved ← getOrRaise (cache.get? key)
      (.runtimeError s!"scheduler requested a missing GDN prefix state: blocks={key.1}")
    return some saved

/-- One iteration over `gdn_capture_points`. -/
def validateCapture (queryLen : Nat) (captureKeys : Dict Nat (GdnPrefixKey D))
    (point : GdnCapturePoint D) : Except Err (Dict Nat (GdnPrefixKey D)) := do
  guardNot (point.1 = 0 ∨ queryLen < point.1 ∨ point.1 ∈ captureKeys) (.runtimeError
    s!"invalid GDN capture offset: {point.1} for query_len={queryLen}")
  let key ← validateGdnPrefixKey point.2
  return captureKeys.set point.1 key

/-- `capture_keys`. -/
def validateCaptures (points : List (GdnCapturePoint D)) (queryLen : Nat) :
    Except Err (Dict Nat (GdnPrefixKey D)) := do
  let captureKeys ← points.foldlM (validateCapture queryLen) ∅
  guardNot (2 < captureKeys.size)
    (.runtimeError "at most two GDN capture points are supported")
  return captureKeys

/-- One iteration over `gdn_segment_offsets`. -/
def validateSegment (queryLen : Nat) (segmentOffsets : Finset Nat) (offset : Nat) :
    Except Err (Finset Nat) := do
  guardNot (offset = 0 ∨ queryLen ≤ offset) (.runtimeError
    s!"invalid GDN segment offset: {offset} for query_len={queryLen}")
  return insert offset segmentOffsets

/-- `segment_offsets`. -/
def validateSegments (offsets : List Nat) (queryLen : Nat) : Except Err (Finset Nat) := do
  let segmentOffsets ← offsets.foldlM (validateSegment queryLen) ∅
  guardNot (128 < segmentOffsets.card)
    (.runtimeError "at most 128 GDN segment offsets are supported")
  return segmentOffsets

/-- The GDN part of a single-sequence prefill of `queryLen` tokens. `run saved offset` is the
state after `offset` tokens of the model's run from the restored state, if one is restored. -/
def forward (actions : GdnActions D) (queryLen : Nat) (run : Option S → Nat → S) :
    EStateM Err (Dict (GdnPrefixKey D) S) Unit := do
  forM actions.evictKeys evictKey
  let saved ← restoreState actions.restoreKey
  let captureKeys ← lift (validateCaptures actions.capturePoints queryLen)
  let _ ← lift (validateSegments actions.segmentOffsets queryLen)
  forM captureKeys.entries fun p => modify fun cache => cache.set p.2 (run saved p.1)

/-! ## What the parts do -/

omit [DecidableEq D] in
theorem validateGdnPrefixKey_ok {key key' : GdnPrefixKey D}
    (h : validateGdnPrefixKey key = .ok key') : key' = key ∧ key.1 ≠ 0 := by
  obtain ⟨hn, h⟩ := guardNot_bind_eq_ok.mp h
  exact ⟨pure_eq_ok.mp h, hn⟩

theorem evictKeys_ok {keys : List (GdnPrefixKey D)} {c c' : Dict (GdnPrefixKey D) S} {u : PUnit}
    (h : (forM keys (evictKey (S := S))).run c = .ok u c') (x : GdnPrefixKey D) :
    c'.get? x = if x ∈ keys then none else c.get? x := by
  induction keys generalizing c with
  | nil =>
    obtain ⟨-, rfl⟩ := run_pure_ok.mp h
    simp
  | cons key keys ih =>
    rw [List.forM_cons, run_bind_ok] at h
    obtain ⟨_, c₁, h₁, h⟩ := h
    rw [evictKey, run_lift_bind_ok] at h₁
    obtain ⟨key', hk, h₁⟩ := h₁
    obtain ⟨rfl, -⟩ := validateGdnPrefixKey_ok hk
    obtain rfl := run_modify_ok.mp h₁
    rw [ih h, Dict.get?_erase]
    simp only [List.mem_cons]
    split_ifs <;> simp_all

theorem restoreState_ok {key : Option (GdnPrefixKey D)} {c c' : Dict (GdnPrefixKey D) S}
    {r : Option S} (h : (restoreState key).run c = .ok r c') :
    c' = c ∧ r = key.bind c.get? ∧ ∀ k ∈ key, k ∈ c := by
  cases key with
  | none =>
    obtain ⟨rfl, rfl⟩ := run_pure_ok.mp h
    exact ⟨rfl, rfl, by simp⟩
  | some key =>
    rw [restoreState, run_lift_bind_ok] at h
    obtain ⟨key', hk, h⟩ := h
    obtain ⟨rfl, -⟩ := validateGdnPrefixKey_ok hk
    rw [run_get_bind, run_bind_ok] at h
    obtain ⟨saved, c₂, hs, h⟩ := h
    obtain ⟨hs, rfl⟩ := run_getOrRaise_ok.mp hs
    obtain ⟨rfl, rfl⟩ := run_pure_ok.mp h
    refine ⟨rfl, hs.symm, fun k hk => ?_⟩
    cases hk
    exact Dict.mem_of_get? hs

omit [DecidableEq D] in
theorem validateCapture_ok {queryLen : Nat} {d d' : Dict Nat (GdnPrefixKey D)}
    {point : GdnCapturePoint D} (h : validateCapture queryLen d point = .ok d') :
    d' = d.set point.1 point.2 ∧ 0 < point.1 ∧ point.1 ≤ queryLen ∧ point.1 ∉ d ∧
      point.2.1 ≠ 0 := by
  obtain ⟨hn, h⟩ := guardNot_bind_eq_ok.mp h
  obtain ⟨key, hk, h⟩ := bind_eq_ok.mp h
  obtain ⟨rfl, hz⟩ := validateGdnPrefixKey_ok hk
  rw [not_or, not_or, Nat.not_lt] at hn
  exact ⟨pure_eq_ok.mp h, Nat.pos_of_ne_zero hn.1, hn.2.1, hn.2.2, hz⟩

omit [DecidableEq D] in
/-- The accepted capture points, in order. -/
theorem foldlM_validateCapture_ok {queryLen : Nat} {points : List (GdnCapturePoint D)}
    {d d' : Dict Nat (GdnPrefixKey D)}
    (h : points.foldlM (validateCapture queryLen) d = .ok d') :
    d'.entries = d.entries ++ points ∧ ∀ p ∈ points, 0 < p.1 ∧ p.1 ≤ queryLen := by
  induction points generalizing d with
  | nil =>
    obtain rfl := pure_eq_ok.mp h
    simp
  | cons point points ih =>
    rw [List.foldlM_cons] at h
    obtain ⟨d₁, h₁, h⟩ := bind_eq_ok.mp h
    obtain ⟨rfl, hpos, hle, hn, -⟩ := validateCapture_ok h₁
    obtain ⟨he, hp⟩ := ih h
    refine ⟨?_, fun p hm => ?_⟩
    · rw [he, Dict.entries_set_of_not_mem hn, List.append_assoc]
      rfl
    · rcases List.mem_cons.mp hm with rfl | hm
      · exact ⟨hpos, hle⟩
      · exact hp p hm

omit [DecidableEq D] in
theorem validateCaptures_ok {queryLen : Nat} {points : List (GdnCapturePoint D)}
    {d : Dict Nat (GdnPrefixKey D)} (h : validateCaptures points queryLen = .ok d) :
    d.entries = points ∧ points.length ≤ 2 ∧ ∀ p ∈ points, 0 < p.1 ∧ p.1 ≤ queryLen := by
  obtain ⟨d₁, h₁, h⟩ := bind_eq_ok.mp h
  obtain ⟨hn, h⟩ := guardNot_bind_eq_ok.mp h
  obtain rfl := pure_eq_ok.mp h
  obtain ⟨he, hp⟩ := foldlM_validateCapture_ok h₁
  rw [Dict.entries_empty, List.nil_append] at he
  refine ⟨he, ?_, hp⟩
  rw [← he]
  exact Nat.not_lt.mp hn

/-- Saving the captured states adds their keys. -/
theorem mem_saveCaptures {points : List (GdnCapturePoint D)} {c c' : Dict (GdnPrefixKey D) S}
    {state : Nat → S} {u : PUnit}
    (h : (forM points fun p => (modify fun cache => cache.set p.2 (state p.1) :
      EStateM Err (Dict (GdnPrefixKey D) S) PUnit)).run c = .ok u c') (x : GdnPrefixKey D) :
    x ∈ c' ↔ x ∈ c ∨ x ∈ points.map Prod.snd := by
  induction points generalizing c with
  | nil =>
    obtain ⟨-, rfl⟩ := run_pure_ok.mp h
    simp
  | cons p points ih =>
    rw [List.forM_cons, run_bind_ok] at h
    obtain ⟨_, c₁, h₁, h⟩ := h
    obtain rfl := run_modify_ok.mp h₁
    rw [ih h, Dict.mem_set, List.map_cons, List.mem_cons]
    tauto

/-- The keys after an executed prefill: the evicted ones go, the captured ones come. -/
theorem forward_ok {actions : GdnActions D} {queryLen : Nat} {run : Option S → Nat → S}
    {c c' : Dict (GdnPrefixKey D) S} {u : Unit}
    (h : (forward actions queryLen run).run c = .ok u c') (x : GdnPrefixKey D) :
    x ∈ c' ↔ (x ∈ c ∧ x ∉ actions.evictKeys) ∨ x ∈ actions.capturePoints.map Prod.snd := by
  rw [forward, run_bind_ok] at h
  obtain ⟨_, c₁, h₁, h⟩ := h
  rw [run_bind_ok] at h
  obtain ⟨saved, c₂, h₂, h⟩ := h
  obtain ⟨rfl, -, -⟩ := restoreState_ok h₂
  simp only [run_lift_bind_ok] at h
  obtain ⟨keys, h₃, -, -, h⟩ := h
  rw [(validateCaptures_ok h₃).1] at h
  rw [mem_saveCaptures h, Dict.mem_iff, evictKeys_ok h₁, Dict.mem_iff]
  by_cases hx : x ∈ actions.evictKeys <;> simp [hx]

end GdnWorker

end Bi100
