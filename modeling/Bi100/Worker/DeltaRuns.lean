import Bi100.Worker.Delta
import Mathlib.Algebra.GroupWithZero.Nat

/-!
# Workers that are sent deltas

What a worker returns for a step is what the scheduler would have sent in full, except for the
multimodal data, which are those of the first chunk.

- `Synced`: a group, and what a worker keeps for it. The tokens that the worker lacks are those of
  the next delta.
- `receive_sendAll`: one step. `worker_in_sync`: every step of every run. A worker fails exactly
  when it is told to drop a request that it was never sent.
-/

namespace Bi100.Spmd

open Py

variable {L P M D : Type}

/-! ## What a worker keeps -/

/-- A group and the metadata that a worker keeps for it. -/
structure Synced (requestId : String) (g : SequenceGroup L P M)
    (md : SequenceGroupMetadata L P M D) : Prop where
  requestId : md.requestId = requestId
  samplingParams : md.samplingParams = g.samplingParams
  data : ∃ d, md.seqData = (∅ : Dict _ _).set g.seqId d ∧
    d.promptTokenIds = g.data.promptTokenIds ∧
    d.outputTokenIds ++ g.data.newAppendedTokens = g.data.outputTokenIds ∧
    d.cachedAllTokenIds ++ g.data.newAppendedTokens = g.data.cachedAllTokenIds

/-- What the model runner reads: neither the pending tokens nor the multimodal data. -/
def SequenceGroupMetadata.seen (md : SequenceGroupMetadata L P M D) :
    SequenceGroupMetadata L P M D :=
  { md with
    seqData := md.seqData.mapValues fun d => { d with newAppendedTokens := [] }
    multiModalData := none }

/-- The metadata of a worker and those that were sent in full. -/
def SameAs (md : SequenceGroupMetadata L P M D) : MetadataOrDelta L P M D → Prop
  | .metadata md' => md.seen = md'.seen
  | .delta _ => False

/-- Nothing is pending in a prefill. -/
def Settled (g : SequenceGroup L P M) : Prop :=
  g.isPrefill = true → g.data.newAppendedTokens = []

/-- What a worker has suffices to send the group. -/
def Sendable (requestId : String) (g : SequenceGroup L P M)
    (cached : Option (SequenceGroupMetadata L P M D)) : Prop :=
  g.isFirstPrefill = true ∨ ∃ md, cached = some md ∧ Synced requestId g md

section Send

variable {g : SequenceGroup L P M} {sg : Scheduled D} {md : SequenceGroupMetadata L P M D} {n : Nat}

theorem entries_single {V : Type} (k : Nat) (v : V) :
    ((∅ : Dict Nat V).set k v).entries = [(k, v)] :=
  Dict.entries_set_of_not_mem (Dict.not_mem_empty k) v

theorem set_single {V : Type} (k : Nat) (v w : V) :
    ((∅ : Dict Nat V).set k v).set k w = (∅ : Dict Nat V).set k w := by
  refine Dict.ext ?_
  rw [Dict.entries_set_of_mem (Dict.mem_set.mpr (.inl rfl)), entries_single, entries_single]
  show (if k = k then (k, w) else (k, v)) :: [] = [(k, w)]
  rw [if_pos rfl]

theorem mapValues_single {V W : Type} (k : Nat) (v : V) (f : V → W) :
    ((∅ : Dict Nat V).set k v).mapValues f = (∅ : Dict Nat W).set k (f v) := by
  refine Dict.ext ?_
  have hmap : (((∅ : Dict Nat V).set k v).mapValues f).entries =
      ((∅ : Dict Nat V).set k v).entries.map fun p => (p.1, f p.2) := rfl
  rw [hmap, entries_single, entries_single]
  rfl

/-- A delta brings what a worker keeps up to date. -/
theorem Synced.applyDelta (h : Synced sg.requestId g md) (n : Nat) :
    ∃ md', md.applyDelta (g.metadataDelta sg) = .ok md' ∧ md'.seen = (g.metadata n sg).seen ∧
      Synced sg.requestId { g with data := g.data.getDeltaAndReset.2 } md' := by
  obtain ⟨d, hd, hprompt, hout, hall⟩ := h.data
  have happly : applyDeltas md.seqData (g.metadataDelta sg).seqDataDelta.entries =
      .ok ((∅ : Dict _ _).set g.seqId (d.applyDelta g.data.getDeltaAndReset.1)) := by
    rw [hd, SequenceGroup.metadataDelta, entries_single, applyDeltas, Dict.get?_set_self]
    dsimp only
    rw [set_single]
    rfl
  have hdata : { d.applyDelta g.data.getDeltaAndReset.1 with newAppendedTokens := [] } =
      g.data.getDeltaAndReset.2 := by
    show (⟨⟨d.promptTokenIds, d.outputTokenIds ++ g.data.newAppendedTokens,
      g.data.numComputedTokens, g.data.stage⟩, g.data.cumulativeLogprob,
      d.cachedAllTokenIds ++ g.data.newAppendedTokens, []⟩ : SequenceData L) = _
    rw [hprompt, hout, hall]
    rfl
  refine ⟨{ g.metadata n sg with
      requestId := md.requestId
      seqData := (∅ : Dict _ _).set g.seqId (d.applyDelta g.data.getDeltaAndReset.1)
      samplingParams := md.samplingParams
      multiModalData := md.multiModalData }, ?_, ?_, ?_⟩
  · rw [SequenceGroupMetadata.applyDelta, happly]
    show (if md.requestId ≠ sg.requestId then _ else _) = _
    rw [if_neg (not_not.mpr h.requestId)]
    rfl
  · rw [SequenceGroupMetadata.seen, SequenceGroupMetadata.seen, h.samplingParams, h.requestId]
    dsimp only [SequenceGroup.metadata]
    rw [mapValues_single, mapValues_single, hdata]
    rfl
  · refine ⟨h.requestId, h.samplingParams, _, rfl, hprompt, ?_, ?_⟩
    · show (d.outputTokenIds ++ g.data.newAppendedTokens) ++ [] = g.data.outputTokenIds
      rw [List.append_nil, hout]
    · show (d.cachedAllTokenIds ++ g.data.newAppendedTokens) ++ [] = g.data.cachedAllTokenIds
      rw [List.append_nil, hall]

/-- What is sent for a group brings a worker up to date. -/
theorem accept_send {cached : Option (SequenceGroupMetadata L P M D)}
    (h : Sendable sg.requestId g cached) (hs : Settled g) (n : Nat) :
    ∃ md, accept cached (g.send true n sg).1 = .ok md ∧ SameAs md (g.send false n sg).1 ∧
      Synced sg.requestId (g.send true n sg).2 md := by
  have hfull : (g.send false n sg).1 = .metadata (g.metadata n sg) := by
    rw [SequenceGroup.send, if_pos (by rw [Bool.not_false, Bool.or_true])]
  rw [hfull]
  cases hfirst : g.isFirstPrefill with
  | true =>
    have hprefill : g.isPrefill = true := (Bool.and_eq_true_iff.mp hfirst).1
    rw [SequenceGroup.send, hfirst, if_pos (Bool.true_or _)]
    refine ⟨g.metadata n sg, ?_, rfl, rfl, rfl, g.data, rfl, rfl, ?_, ?_⟩
    · cases cached with
      | none => rfl
      | some md => rfl
    · rw [hs hprefill, List.append_nil]
    · rw [hs hprefill, List.append_nil]
  | false =>
    obtain ⟨md, rfl, hmd⟩ := h.resolve_left (by rw [hfirst]; exact Bool.false_ne_true)
    rw [SequenceGroup.send, hfirst, if_neg (by decide)]
    obtain ⟨md', happly, hseen, hsynced⟩ := hmd.applyDelta n
    exact ⟨md', happly, hseen, hsynced⟩

theorem requestId_send (sendDeltaData : Bool) (g : SequenceGroup L P M) (n : Nat)
    (sg : Scheduled D) : (g.send sendDeltaData n sg).1.requestId = sg.requestId := by
  rw [SequenceGroup.send]
  split
  · rfl
  · rfl

/-- The group after it was sent. -/
def afterSend (sendDeltaData : Bool) (g : SequenceGroup L P M) : SequenceGroup L P M :=
  if g.isFirstPrefill || !sendDeltaData then g else { g with data := g.data.getDeltaAndReset.2 }

theorem send_snd (sendDeltaData : Bool) (g : SequenceGroup L P M) (n : Nat) (sg : Scheduled D) :
    (g.send sendDeltaData n sg).2 = afterSend sendDeltaData g := by
  rw [SequenceGroup.send, afterSend]
  split
  · rfl
  · rfl

end Send

/-! ## A step -/

section Step

variable {n : Nat} {sgs : List (Scheduled D)} {groups groups' : Dict String (SequenceGroup L P M)}
  {ms full : List (MetadataOrDelta L P M D)}

theorem sendAll_cons {sendDeltaData : Bool} {sg : Scheduled D}
    (h : sendAll sendDeltaData n (sg :: sgs) groups = .ok (ms, groups')) :
    ∃ g ms', groups.get? sg.requestId = some g ∧
      sendAll sendDeltaData n sgs
        (groups.set sg.requestId (g.send sendDeltaData n sg).2) = .ok (ms', groups') ∧
      ms = (g.send sendDeltaData n sg).1 :: ms' := by
  rw [sendAll] at h
  cases hg : groups.get? sg.requestId with
  | none =>
    rw [hg] at h
    cases h
  | some g =>
    rw [hg] at h
    obtain ⟨⟨ms', groups₁⟩, hrest, h⟩ := bind_eq_ok.mp h
    cases pure_eq_ok.mp h
    exact ⟨g, ms', rfl, hrest, rfl⟩

theorem sendAll_ids {sendDeltaData : Bool}
    (h : sendAll sendDeltaData n sgs groups = .ok (ms, groups')) :
    ms.map MetadataOrDelta.requestId = sgs.map Scheduled.requestId := by
  induction sgs generalizing groups ms with
  | nil =>
    cases pure_eq_ok.mp h
    rfl
  | cons sg sgs ih =>
    obtain ⟨g, ms', -, hrest, rfl⟩ := sendAll_cons h
    rw [List.map_cons, List.map_cons, ih hrest, requestId_send]

/-- What is sent for the scheduled groups, and the groups afterwards. -/
theorem sendAll_ok {sendDeltaData : Bool} (hnodup : (sgs.map Scheduled.requestId).Nodup)
    (h : sendAll sendDeltaData n sgs groups = .ok (ms, groups')) :
    ms.map some = sgs.map (fun sg =>
        (groups.get? sg.requestId).map fun g => (g.send sendDeltaData n sg).1) ∧
      ∀ id, groups'.get? id = if id ∈ sgs.map Scheduled.requestId then
        (groups.get? id).map (afterSend sendDeltaData) else groups.get? id := by
  induction sgs generalizing groups ms with
  | nil =>
    cases pure_eq_ok.mp h
    exact ⟨rfl, fun id => (if_neg List.not_mem_nil).symm⟩
  | cons sg sgs ih =>
    obtain ⟨g, ms', hg, hrest, rfl⟩ := sendAll_cons h
    rw [List.map_cons, List.nodup_cons] at hnodup
    obtain ⟨hms, hgroups⟩ := ih hnodup.2 hrest
    refine ⟨?_, fun id => ?_⟩
    · rw [List.map_cons, List.map_cons, hg, Option.map_some, hms]
      refine congrArg _ (List.map_congr_left fun sg' hsg' => ?_)
      have hne : sg'.requestId ≠ sg.requestId := fun heq => hnodup.1 (by
        rw [← heq]
        exact List.mem_map_of_mem hsg')
      rw [Dict.get?_set_of_ne hne]
    · rw [hgroups id, Dict.get?_set, send_snd, List.map_cons]
      by_cases hid : id = sg.requestId
      · rw [if_pos hid, if_neg (hid ▸ hnodup.1), if_pos (List.mem_cons.mpr (.inl hid)), hid, hg,
          Option.map_some]
      · rw [if_neg hid]
        by_cases hmem : id ∈ sgs.map Scheduled.requestId
        · rw [if_pos hmem, if_pos (List.mem_cons_of_mem _ hmem)]
        · rw [if_neg hmem, if_neg fun h => (List.mem_cons.mp h).elim hid hmem]

/-- A worker that has what it needs returns what the scheduler would have sent in full, and is up to
date afterwards. -/
theorem receive_sent {cache : Dict String (SequenceGroupMetadata L P M D)}
    (hnodup : (sgs.map Scheduled.requestId).Nodup)
    (hready : ∀ sg ∈ sgs, ∀ g, groups.get? sg.requestId = some g →
      Sendable sg.requestId g (cache.get? sg.requestId) ∧ Settled g)
    (hms : ms.map some = sgs.map fun sg =>
      (groups.get? sg.requestId).map fun g => (g.send true n sg).1)
    (hfull : full.map some = sgs.map fun sg =>
      (groups.get? sg.requestId).map fun g => (g.send false n sg).1) :
    ∃ mds cache', receive cache ms = .ok (mds, cache') ∧ List.Forall₂ SameAs mds full ∧
      (∀ sg ∈ sgs, ∀ g, groups.get? sg.requestId = some g →
        ∃ md, cache'.get? sg.requestId = some md ∧ Synced sg.requestId (afterSend true g) md) ∧
      (∀ id, id ∉ sgs.map Scheduled.requestId → cache'.get? id = cache.get? id) ∧
      ∀ id, id ∈ cache' ↔ id ∈ sgs.map Scheduled.requestId ∨ id ∈ cache := by
  induction sgs generalizing ms full cache with
  | nil =>
    obtain rfl := List.map_eq_nil_iff.mp hms
    obtain rfl := List.map_eq_nil_iff.mp hfull
    exact ⟨[], cache, rfl, .nil, fun sg hsg => absurd hsg List.not_mem_nil, fun _ _ => rfl,
      fun id => ⟨.inr, fun h => h.resolve_left List.not_mem_nil⟩⟩
  | cons sg sgs ih =>
    rw [List.map_cons] at hms hfull
    obtain ⟨m, ms, rfl, hm, hms'⟩ := List.map_eq_cons_iff.mp hms
    obtain ⟨m', full, rfl, hm', hfull'⟩ := List.map_eq_cons_iff.mp hfull
    obtain ⟨g, hg, rfl⟩ := Option.map_eq_some_iff.mp hm.symm
    obtain ⟨g', hg', rfl⟩ := Option.map_eq_some_iff.mp hm'.symm
    obtain rfl := Option.some_inj.mp (hg.symm.trans hg')
    obtain ⟨hsendable, hsettled⟩ := hready sg List.mem_cons_self g hg
    obtain ⟨md, haccept, hsame, hsynced⟩ := accept_send hsendable hsettled n
    rw [List.map_cons, List.nodup_cons] at hnodup
    have hne : ∀ sg' ∈ sgs, sg'.requestId ≠ sg.requestId := fun sg' hsg' heq => hnodup.1 (by
      rw [← heq]
      exact List.mem_map_of_mem hsg')
    obtain ⟨mds, cache', hreceive, hall, hsync, hother, hmem⟩ :=
      ih hnodup.2 (fun sg' hsg' g' hg' => by
        rw [Dict.get?_set_of_ne (hne sg' hsg')]
        exact hready sg' (List.mem_cons_of_mem sg hsg') g' hg') hms' hfull'
    refine ⟨md :: mds, cache', ?_, .cons hsame hall, ?_, ?_, ?_⟩
    · rw [receive, requestId_send, haccept]
      exact bind_eq_ok.mpr ⟨md, rfl, bind_eq_ok.mpr ⟨(mds, cache'), hreceive, rfl⟩⟩
    · intro sg' hsg' g₁ hg₁
      rcases List.mem_cons.mp hsg' with rfl | hsg'
      · obtain rfl := Option.some_inj.mp (hg.symm.trans hg₁)
        refine ⟨md, ?_, ?_⟩
        · rw [hother _ hnodup.1, Dict.get?_set_self]
        · rw [← send_snd true g n sg']
          exact hsynced
      · exact hsync sg' hsg' g₁ hg₁
    · intro id hid
      rw [List.map_cons, List.mem_cons, not_or] at hid
      rw [hother id hid.2, Dict.get?_set_of_ne hid.1]
    · intro id
      rw [hmem id, Dict.mem_set, List.map_cons, List.mem_cons, or_left_comm, or_assoc]

end Step

/-! ## Finished requests -/

section CleanUp

variable {cache cache' : Dict String (SequenceGroupMetadata L P M D)} {ids : List String}

theorem cleanUp_ok_iff (hnodup : ids.Nodup) :
    (∃ cache', cleanUp cache ids = .ok cache') ↔ ∀ id ∈ ids, id ∈ cache := by
  induction ids generalizing cache with
  | nil => exact ⟨fun _ id hid => absurd hid List.not_mem_nil, fun _ => ⟨cache, rfl⟩⟩
  | cons id ids ih =>
    rw [List.nodup_cons] at hnodup
    rw [cleanUp, List.forall_mem_cons]
    by_cases hid : id ∈ cache
    · rw [if_pos hid, ih hnodup.2]
      refine ⟨fun h => ⟨hid, fun id' hid' => (Dict.mem_erase.mp (h id' hid')).2⟩,
        fun h id' hid' => Dict.mem_erase.mpr ⟨?_, h.2 id' hid'⟩⟩
      rintro rfl
      exact hnodup.1 hid'
    · rw [if_neg hid]
      refine ⟨fun h => ?_, fun h => absurd h.1 hid⟩
      obtain ⟨cache', h⟩ := h
      cases h

theorem get?_cleanUp (h : cleanUp cache ids = .ok cache') (id : String) :
    cache'.get? id = if id ∈ ids then none else cache.get? id := by
  induction ids generalizing cache with
  | nil =>
    cases pure_eq_ok.mp h
    rw [if_neg List.not_mem_nil]
  | cons id' ids ih =>
    rw [cleanUp] at h
    split at h
    · rw [ih h, Dict.get?_erase]
      by_cases hmem : id ∈ ids
      · rw [if_pos hmem, if_pos (List.mem_cons_of_mem _ hmem)]
      · rw [if_neg hmem]
        by_cases hid : id = id'
        · rw [if_pos hid, if_pos (List.mem_cons.mpr (.inl hid))]
        · rw [if_neg hid, if_neg fun h => (List.mem_cons.mp h).elim hid hmem]
    · cases h

end CleanUp

/-! ## Outputs -/

section Outputs

variable [Add L] {groups groups' : Dict String (SequenceGroup L P M)}
  {m : MetadataOrDelta L P M D} {sample : Nat × L}

/-- The outputs of a step keep what a worker has usable. -/
structure Kept (D : Type) (id : String) (g g' : SequenceGroup L P M) : Prop where
  settled : Settled g'
  synced : ∀ md : SequenceGroupMetadata L P M D, Synced id g md → Synced id g' md

omit [Add L] in
theorem updateNumComputedTokens_ok {d d' : SequenceData L} {n : Nat}
    (h : d.updateNumComputedTokens n = .ok d') : d.numComputedTokens + n ≤ d.getLen ∧
      d' = { d with
        numComputedTokens := d.numComputedTokens + n
        stage := if d.numComputedTokens + n = d.getLen then .decode else d.stage } := by
  obtain ⟨data, hdata, h⟩ := bind_eq_ok.mp h
  cases pure_eq_ok.mp h
  rw [Bi100.SequenceData.updateNumComputedTokens] at hdata
  split at hdata
  · cases hdata
  · next hle =>
    cases pure_eq_ok.mp hdata
    exact ⟨Nat.le_of_not_lt hle, rfl⟩

omit [Add L] in
/-- Only a group whose tokens are all computed samples a token. -/
theorem stage_of_doSample {g : SequenceGroup L P M} {n : Nat} (hs : g.doSample n = true)
    (hle : g.data.numComputedTokens + n ≤ g.data.getLen) :
    (if g.data.numComputedTokens + n = g.data.getLen then SequenceStage.decode else g.data.stage) =
      .decode := by
  split
  · rfl
  · next hne =>
    rw [SequenceGroup.doSample, Bool.not_eq_true', Bool.and_eq_false_iff] at hs
    rcases hs with hs | hs
    · rw [SequenceGroup.isPrefill, decide_eq_false_iff_not] at hs
      cases hstage : g.data.stage with
      | prefill => exact absurd hstage hs
      | decode => rfl
    · rw [decide_eq_false_iff_not] at hs
      omega

theorem processOutput_kept {g : SequenceGroup L P M} (hg : groups.get? m.requestId = some g)
    (hs : Settled g) (hm : m.doSample = g.doSample m.tokenChunkSize)
    (h : processOutput groups m sample = .ok groups') :
    ∃ g', groups' = groups.set m.requestId g' ∧ Kept D m.requestId g g' := by
  rw [processOutput, hg] at h
  obtain ⟨data, hdata, h⟩ := bind_eq_ok.mp h
  cases pure_eq_ok.mp h
  obtain ⟨hle, rfl⟩ := updateNumComputedTokens_ok hdata
  refine ⟨_, rfl, ?_⟩
  cases hsample : m.doSample with
  | true =>
    have hdecode := stage_of_doSample (hm.symm.trans hsample) hle
    refine ⟨fun hprefill => ?_, fun md hmd => ?_⟩
    · have hprefill := of_decide_eq_true hprefill
      cases hdecode.symm.trans hprefill
    · obtain ⟨d, hd, hprompt, hout, hall⟩ := hmd.data
      refine ⟨hmd.requestId, hmd.samplingParams, d, hd, hprompt, ?_, ?_⟩
      · show d.outputTokenIds ++ (g.data.newAppendedTokens ++ [sample.1]) =
          g.data.outputTokenIds ++ _
        rw [← List.append_assoc, hout]
      · show d.cachedAllTokenIds ++ (g.data.newAppendedTokens ++ [sample.1]) =
          g.data.cachedAllTokenIds ++ _
        rw [← List.append_assoc, hall]
  | false =>
    refine ⟨fun hprefill => hs (decide_eq_true ?_), fun md hmd => ?_⟩
    · have hprefill : (if g.data.numComputedTokens + m.tokenChunkSize = g.data.getLen then
          SequenceStage.decode else g.data.stage) = .prefill := of_decide_eq_true hprefill
      split at hprefill
      · cases hprefill
      · exact hprefill
    · exact ⟨hmd.requestId, hmd.samplingParams, hmd.data⟩

/-- All outputs of a step. -/
theorem processOutputs_kept {l : List (MetadataOrDelta L P M D × Nat × L)}
    (hnodup : (l.map fun p => p.1.requestId).Nodup)
    (hs : ∀ id g, groups.get? id = some g → Settled g)
    (hm : ∀ p ∈ l, ∀ g, groups.get? p.1.requestId = some g →
      p.1.doSample = g.doSample p.1.tokenChunkSize)
    (h : processOutputs groups l = .ok groups') {id : String} {g' : SequenceGroup L P M}
    (hg' : groups'.get? id = some g') : ∃ g, groups.get? id = some g ∧ Kept D id g g' ∧
      (id ∉ l.map (fun p => p.1.requestId) → g' = g) := by
  induction l generalizing groups with
  | nil =>
    cases pure_eq_ok.mp h
    exact ⟨g', hg', ⟨hs id g' hg', fun md hmd => hmd⟩, fun _ => rfl⟩
  | cons p l ih =>
    obtain ⟨m, sample⟩ := p
    rw [processOutputs] at h
    obtain ⟨groups₁, h₁, h⟩ := bind_eq_ok.mp h
    rw [List.map_cons, List.nodup_cons] at hnodup
    cases hg : groups.get? m.requestId with
    | none =>
      rw [processOutput, hg] at h₁
      cases pure_eq_ok.mp h₁
      obtain ⟨g, hget, hkept, hsame⟩ :=
        ih hnodup.2 hs (fun p hp => hm p (List.mem_cons_of_mem _ hp)) h
      exact ⟨g, hget, hkept, fun hnot => hsame fun hmem => hnot (List.mem_cons_of_mem _ hmem)⟩
    | some g₀ =>
      obtain ⟨g₁, rfl, hkept₁⟩ :=
        processOutput_kept hg (hs _ _ hg) (hm _ List.mem_cons_self _ hg) h₁
      have hs₁ : ∀ id g, (groups.set m.requestId g₁).get? id = some g → Settled g := by
        intro id g hget
        rw [Dict.get?_set] at hget
        split at hget
        · cases hget
          exact hkept₁.settled
        · exact hs id g hget
      have hm₁ : ∀ p ∈ l, ∀ g, (groups.set m.requestId g₁).get? p.1.requestId = some g →
          p.1.doSample = g.doSample p.1.tokenChunkSize := by
        intro p hp g hget
        have hne : p.1.requestId ≠ m.requestId := fun heq => hnodup.1 (by
          rw [← heq]
          exact List.mem_map_of_mem (f := fun p => p.1.requestId) hp)
        rw [Dict.get?_set_of_ne hne] at hget
        exact hm p (List.mem_cons_of_mem _ hp) g hget
      obtain ⟨g, hget, hkept, hsame⟩ := ih hnodup.2 hs₁ hm₁ h
      rw [Dict.get?_set] at hget
      split at hget
      · next hid =>
        subst hid
        cases hget
        exact ⟨g₀, hg, ⟨hkept.settled, fun md hmd => hkept.synced md (hkept₁.synced md hmd)⟩,
          fun hnot => absurd List.mem_cons_self hnot⟩
      · exact ⟨g, hget, hkept, fun hnot => hsame fun hmem => hnot (List.mem_cons_of_mem _ hmem)⟩

end Outputs

/-! ## Runs -/

/-- The requests that some steps were sent for. -/
def sentIds (sent : List (ExecuteModelRequest L P M D × List (MetadataOrDelta L P M D))) :
    List String :=
  sent.flatMap fun r => r.1.seqGroupMetadataList.map MetadataOrDelta.requestId

/-- The requests that the workers were told to drop. -/
def retiredIds (sent : List (ExecuteModelRequest L P M D × List (MetadataOrDelta L P M D))) :
    List String :=
  sent.flatMap fun r => r.1.finishedRequestsIds

/-- What every step of the engine keeps. -/
structure EngineInv (e : Engine L P M D) : Prop where
  groups : ∀ id ∈ e.groups, id ∈ e.requestIds
  finished : ∀ id ∈ e.finishedRequestsIds, id ∈ e.requestIds ∧ id ∉ e.groups
  finishedNodup : e.finishedRequestsIds.Nodup
  retired : ∀ id ∈ retiredIds e.sent,
    id ∈ e.requestIds ∧ id ∉ e.groups ∧ id ∉ e.finishedRequestsIds
  awaiting : ∀ m ∈ e.awaiting, m.requestId ∈ e.requestIds
  awaitingNodup : (e.awaiting.map MetadataOrDelta.requestId).Nodup
  settled : ∀ id g, e.groups.get? id = some g → Settled g
  sample : ∀ m ∈ e.awaiting, ∀ g, e.groups.get? m.requestId = some g →
    m.doSample = g.doSample m.tokenChunkSize

/-- The engine, and a worker that has executed everything that was sent. -/
structure InSync (e : Engine L P M D) (cache : Dict String (SequenceGroupMetadata L P M D)) :
    Prop where
  synced : ∀ id g, e.groups.get? id = some g →
    id ∈ e.awaiting.map MetadataOrDelta.requestId ∨ g.isFirstPrefill = false →
      ∃ md, cache.get? id = some md ∧ Synced id g md
  mem : ∀ id, id ∈ cache ↔ id ∈ sentIds e.sent ∧ id ∉ retiredIds e.sent

/-- A worker that has executed what was sent before drops what it was sent, and only that, and
returns what would have been sent in full. -/
def Answered (sent : List (ExecuteModelRequest L P M D × List (MetadataOrDelta L P M D))) : Prop :=
  ∀ before r after, sent = before ++ r :: after →
    ∀ cache, executeAll ∅ (before.map Prod.fst) = .ok cache →
      ((∃ res, getCachedSeqGroupMetadata cache r.1 = .ok res) ↔
        ∀ id ∈ r.1.finishedRequestsIds, id ∈ sentIds (before ++ [r])) ∧
      ∀ mds cache', getCachedSeqGroupMetadata cache r.1 = .ok (mds, cache') →
        List.Forall₂ SameAs mds r.2

structure SpmdInv (e : Engine L P M D) : Prop where
  engine : EngineInv e
  worker : ∀ cache, executeAll ∅ (e.sent.map Prod.fst) = .ok cache → InSync e cache
  answered : Answered e.sent

section Steps

variable {e e' : Engine L P M D} {id : String}

theorem mem_erase_groups {groups : Dict String (SequenceGroup L P M)} {id' : String}
    (h : id' ∈ groups.erase id) : id' ∈ groups :=
  (Dict.mem_erase.mp h).2

theorem get?_of_erase {groups : Dict String (SequenceGroup L P M)} {id' : String}
    {g : SequenceGroup L P M} (h : (groups.erase id).get? id' = some g) :
    groups.get? id' = some g := by
  rw [Dict.get?_erase] at h
  split at h
  · cases h
  · exact h

/-- A request leaves the queues. -/
theorem EngineInv.erase (h : EngineInv e) (id : String) :
    EngineInv { e with groups := e.groups.erase id } where
  groups id' hid' := h.groups id' (mem_erase_groups hid')
  finished id' hid' := ⟨(h.finished id' hid').1, fun hmem =>
    (h.finished id' hid').2 (mem_erase_groups hmem)⟩
  finishedNodup := h.finishedNodup
  retired id' hid' := ⟨(h.retired id' hid').1, fun hmem =>
    (h.retired id' hid').2.1 (mem_erase_groups hmem), (h.retired id' hid').2.2⟩
  awaiting := h.awaiting
  awaitingNodup := h.awaitingNodup
  settled id' g hg := h.settled id' g (get?_of_erase hg)
  sample m hm g hg := h.sample m hm g (get?_of_erase hg)

theorem EngineInv.free (h : EngineInv e) (hid : id ∈ e.groups) :
    EngineInv { e with
      groups := e.groups.erase id
      finishedRequestsIds := e.finishedRequestsIds ++ [id] } := by
  have he := h.erase id
  refine ⟨he.groups, fun id' hid' => ?_, ?_, fun id' hid' => ?_, he.awaiting, he.awaitingNodup,
    he.settled, he.sample⟩
  · rcases List.mem_append.mp hid' with hid' | hid'
    · exact he.finished id' hid'
    · obtain rfl := List.mem_singleton.mp hid'
      exact ⟨h.groups id' hid, fun hmem => (Dict.mem_erase.mp hmem).1 rfl⟩
  · refine List.nodup_append.mpr ⟨h.finishedNodup, List.nodup_singleton id, fun a ha b hb => ?_⟩
    obtain rfl := List.mem_singleton.mp hb
    rintro rfl
    exact (h.finished a ha).2 hid
  · obtain ⟨hreq, hgroups, hfin⟩ := he.retired id' hid'
    refine ⟨hreq, hgroups, fun hmem => ?_⟩
    rcases List.mem_append.mp hmem with hmem | hmem
    · exact hfin hmem
    · obtain rfl := List.mem_singleton.mp hmem
      exact (h.retired id' hid').2.1 hid

/-- The data of a group change, when no outputs are awaited. -/
theorem EngineInv.setGroup (h : EngineInv e) (hidle : e.awaiting = []) (hid : id ∈ e.groups)
    {g : SequenceGroup L P M} (hg : Settled g) :
    EngineInv { e with groups := e.groups.set id g } := by
  have hmem : ∀ id', id' ∈ e.groups.set id g → id' ∈ e.groups := fun id' hid' => by
    rcases Dict.mem_set.mp hid' with rfl | hid'
    · exact hid
    · exact hid'
  refine ⟨fun id' hid' => h.groups id' (hmem id' hid'), fun id' hid' => ?_, h.finishedNodup,
    fun id' hid' => ?_, h.awaiting, h.awaitingNodup, fun id' g' hg' => ?_, ?_⟩
  · exact ⟨(h.finished id' hid').1, fun hm => (h.finished id' hid').2 (hmem id' hm)⟩
  · obtain ⟨hreq, hgroups, hfin⟩ := h.retired id' hid'
    exact ⟨hreq, fun hm => hgroups (hmem id' hm), hfin⟩
  · rw [Dict.get?_set] at hg'
    split at hg'
    · cases hg'
      exact hg
    · exact h.settled id' g' hg'
  · show ∀ m ∈ e.awaiting, _
    rw [hidle]
    exact fun m hm => absurd hm List.not_mem_nil

theorem EngineInv.add (h : EngineInv e) (hid : id ∉ e.requestIds) {g : SequenceGroup L P M}
    (hg : Settled g) : EngineInv { e with
      groups := e.groups.set id g
      requestIds := e.requestIds ++ [id] } := by
  have hne : ∀ id' ∈ e.requestIds, id' ≠ id := fun id' hid' heq => hid (heq ▸ hid')
  have hnot : ∀ id' ∈ e.requestIds, id' ∉ e.groups → id' ∉ e.groups.set id g := by
    intro id' hreq hgroups hmem
    rcases Dict.mem_set.mp hmem with heq | hmem
    · exact hne id' hreq heq
    · exact hgroups hmem
  refine ⟨fun id' hid' => ?_, fun id' hid' => ?_, h.finishedNodup, fun id' hid' => ?_,
    fun m hm => List.mem_append_left _ (h.awaiting m hm), h.awaitingNodup, fun id' g' hg' => ?_,
    fun m hm g' hg' => ?_⟩
  · rcases Dict.mem_set.mp hid' with rfl | hid'
    · exact List.mem_append_right _ (List.mem_singleton.mpr rfl)
    · exact List.mem_append_left _ (h.groups id' hid')
  · obtain ⟨hreq, hgroups⟩ := h.finished id' hid'
    exact ⟨List.mem_append_left _ hreq, hnot id' hreq hgroups⟩
  · obtain ⟨hreq, hgroups, hfin⟩ := h.retired id' hid'
    exact ⟨List.mem_append_left _ hreq, hnot id' hreq hgroups, hfin⟩
  · rw [Dict.get?_set] at hg'
    split at hg'
    · cases hg'
      exact hg
    · exact h.settled id' g' hg'
  · rw [Dict.get?_set_of_ne (hne _ (h.awaiting m hm))] at hg'
    exact h.sample m hm g' hg'

variable {cache : Dict String (SequenceGroupMetadata L P M D)}

theorem InSync.erase (h : InSync e cache) (id : String) {finished : List String} :
    InSync { e with groups := e.groups.erase id, finishedRequestsIds := finished } cache :=
  ⟨fun id' g hg hcase => h.synced id' g (get?_of_erase hg) hcase, h.mem⟩

/-- A group at the start of its prompt needs nothing of the worker. -/
theorem InSync.setFirst (h : InSync e cache) (hid : id ∉ e.awaiting.map MetadataOrDelta.requestId)
    {g : SequenceGroup L P M} (hg : g.isFirstPrefill = true) {requestIds : List String} :
    InSync { e with groups := e.groups.set id g, requestIds := requestIds } cache := by
  refine ⟨fun id' g' hg' hcase => ?_, h.mem⟩
  rw [Dict.get?_set] at hg'
  split at hg'
  · next heq =>
    cases hg'
    subst heq
    rcases hcase with hmem | hfirst
    · exact absurd hmem hid
    · cases hg.symm.trans hfirst
  · exact h.synced id' g' hg' hcase

section ProcessOutputs

variable [Add L] {samples : List (Nat × L)} {groups' : Dict String (SequenceGroup L P M)}

omit [Add L] in
theorem map_zip_ids (ms : List (MetadataOrDelta L P M D)) (samples : List (Nat × L)) :
    (ms.zip samples).map (fun p => p.1.requestId) =
      (ms.take samples.length).map MetadataOrDelta.requestId := by
  induction ms generalizing samples with
  | nil =>
    rw [List.zip_nil_left, List.take_nil]
    rfl
  | cons m ms ih =>
    cases samples with
    | nil => rfl
    | cons s samples =>
      rw [List.zip_cons_cons, List.map_cons, ih, List.length_cons, List.take_succ_cons,
        List.map_cons]

theorem EngineInv.outputs_kept (h : EngineInv e)
    (hp : processOutputs e.groups (e.awaiting.zip samples) = .ok groups') {g' : SequenceGroup L P M}
    (hg' : groups'.get? id = some g') : ∃ g, e.groups.get? id = some g ∧ Kept D id g g' ∧
      (id ∉ e.awaiting.map MetadataOrDelta.requestId → g' = g) := by
  have hsub : List.Sublist ((e.awaiting.take samples.length).map MetadataOrDelta.requestId)
      (e.awaiting.map MetadataOrDelta.requestId) := (List.take_sublist _ _).map _
  have hnodup : ((e.awaiting.zip samples).map fun p => p.1.requestId).Nodup := by
    rw [map_zip_ids]
    exact hsub.nodup h.awaitingNodup
  obtain ⟨g, hg, hkept, hsame⟩ := processOutputs_kept hnodup h.settled
    (fun p hp => h.sample p.1 (List.of_mem_zip hp).1) hp hg'
  refine ⟨g, hg, hkept, fun hnot => hsame fun hmem => hnot ?_⟩
  rw [map_zip_ids] at hmem
  exact hsub.subset hmem

theorem EngineInv.processOutputs (h : EngineInv e)
    (hp : processOutputs e.groups (e.awaiting.zip samples) = .ok groups') :
    EngineInv { e with groups := groups', awaiting := [] } := by
  have hmem : ∀ id ∈ groups', id ∈ e.groups := by
    intro id hid
    obtain ⟨g', hg'⟩ := Dict.mem_iff.mp hid
    obtain ⟨g, hg, -⟩ := h.outputs_kept hp hg'
    exact Dict.mem_of_get? hg
  refine ⟨fun id hid => h.groups id (hmem id hid), fun id hid => ?_, h.finishedNodup,
    fun id hid => ?_, fun m hm => absurd hm List.not_mem_nil, List.nodup_nil, fun id g' hg' => ?_,
    fun m hm => absurd hm List.not_mem_nil⟩
  · exact ⟨(h.finished id hid).1, fun hm => (h.finished id hid).2 (hmem id hm)⟩
  · obtain ⟨hreq, hgroups, hfin⟩ := h.retired id hid
    exact ⟨hreq, fun hm => hgroups (hmem id hm), hfin⟩
  · obtain ⟨g, -, hkept, -⟩ := h.outputs_kept hp hg'
    exact hkept.settled

theorem InSync.processOutputs (h : InSync e cache) (he : EngineInv e)
    (hp : processOutputs e.groups (e.awaiting.zip samples) = .ok groups') :
    InSync { e with groups := groups', awaiting := [] } cache := by
  refine ⟨fun id g' hg' hcase => ?_, h.mem⟩
  have hfirst : g'.isFirstPrefill = false := hcase.resolve_left List.not_mem_nil
  obtain ⟨g, hg, hkept, hsame⟩ := he.outputs_kept hp hg'
  have hg₀ : id ∈ e.awaiting.map MetadataOrDelta.requestId ∨ g.isFirstPrefill = false := by
    by_cases hmem : id ∈ e.awaiting.map MetadataOrDelta.requestId
    · exact .inl hmem
    · exact .inr (hsame hmem ▸ hfirst)
  obtain ⟨md, hmd, hsynced⟩ := h.synced id g hg hg₀
  exact ⟨md, hmd, hkept.synced md hsynced⟩

end ProcessOutputs

section Schedule

variable {n : Nat} {sgs : List (Scheduled D)} {groups' groups'' : Dict String (SequenceGroup L P M)}
  {ms full : List (MetadataOrDelta L P M D)}

theorem Settled.afterSend {g : SequenceGroup L P M} (h : Settled g) (sendDeltaData : Bool) :
    Settled (afterSend sendDeltaData g) := by
  rw [Spmd.afterSend]
  split
  · exact h
  · exact fun _ => rfl

theorem doSample_afterSend (sendDeltaData : Bool) (g : SequenceGroup L P M) (n : Nat) :
    (afterSend sendDeltaData g).doSample n = g.doSample n := by
  rw [afterSend]
  split
  · rfl
  · rfl

theorem doSample_send (g : SequenceGroup L P M) (n : Nat) (sg : Scheduled D) :
    (g.send true n sg).1.doSample = g.doSample sg.tokenChunkSize ∧
      (g.send true n sg).1.tokenChunkSize = sg.tokenChunkSize := by
  rw [SequenceGroup.send]
  split
  · exact ⟨rfl, rfl⟩
  · exact ⟨rfl, rfl⟩

/-- The engine when a step was sent. -/
def Engine.sending (e : Engine L P M D) (groups : Dict String (SequenceGroup L P M))
    (ms full : List (MetadataOrDelta L P M D)) : Engine L P M D :=
  { e with
    groups := groups
    finishedRequestsIds := []
    awaiting := ms
    sent := e.sent ++ [(⟨ms, e.finishedRequestsIds⟩, full)] }

/-- A group afterwards is one from before. -/
theorem get?_sendAll (hnodup : (sgs.map Scheduled.requestId).Nodup)
    (hs : sendAll true n sgs e.groups = .ok (ms, groups')) {g' : SequenceGroup L P M}
    (hg' : groups'.get? id = some g') :
    ∃ g, e.groups.get? id = some g ∧ (g' = g ∨ g' = afterSend true g) := by
  rw [(sendAll_ok hnodup hs).2] at hg'
  split at hg'
  · obtain ⟨g, hg, rfl⟩ := Option.map_eq_some_iff.mp hg'
    exact ⟨g, hg, .inr rfl⟩
  · exact ⟨g', hg', .inl rfl⟩

/-- What is sent is sent for a group. -/
theorem mem_sendAll (hnodup : (sgs.map Scheduled.requestId).Nodup)
    (hs : sendAll true n sgs e.groups = .ok (ms, groups')) {m : MetadataOrDelta L P M D}
    (hm : m ∈ ms) : ∃ sg ∈ sgs, ∃ g, e.groups.get? sg.requestId = some g ∧
      m = (g.send true n sg).1 := by
  have hm : some m ∈ ms.map some := List.mem_map_of_mem hm
  rw [(sendAll_ok hnodup hs).1] at hm
  obtain ⟨sg, hsg, hm⟩ := List.mem_map.mp hm
  obtain ⟨g, hg, rfl⟩ := Option.map_eq_some_iff.mp hm
  exact ⟨sg, hsg, g, hg, rfl⟩

theorem mem_groups_of_sent (hnodup : (sgs.map Scheduled.requestId).Nodup)
    (hs : sendAll true n sgs e.groups = .ok (ms, groups'))
    (hid : id ∈ ms.map MetadataOrDelta.requestId) : id ∈ e.groups := by
  obtain ⟨m, hm, rfl⟩ := List.mem_map.mp hid
  obtain ⟨sg, -, g, hg, rfl⟩ := mem_sendAll hnodup hs hm
  rw [requestId_send]
  exact Dict.mem_of_get? hg

theorem EngineInv.schedule (h : EngineInv e) (hnodup : (sgs.map Scheduled.requestId).Nodup)
    (hs : sendAll true n sgs e.groups = .ok (ms, groups')) :
    EngineInv (e.sending groups' ms full) := by
  have hmem : ∀ id ∈ groups', id ∈ e.groups := by
    intro id hid
    obtain ⟨g', hg'⟩ := Dict.mem_iff.mp hid
    obtain ⟨g, hg, -⟩ := get?_sendAll hnodup hs hg'
    exact Dict.mem_of_get? hg
  refine ⟨fun id hid => h.groups id (hmem id hid), fun id hid => absurd hid List.not_mem_nil,
    List.nodup_nil, fun id hid => ?_, fun m hm => ?_, ?_, fun id g' hg' => ?_,
    fun m hm g' hg' => ?_⟩
  · have hid : id ∈ retiredIds e.sent ∨ id ∈ e.finishedRequestsIds := by
      rw [Engine.sending, retiredIds, List.flatMap_append, List.mem_append] at hid
      refine hid.imp_right fun hid => ?_
      rwa [List.flatMap_singleton] at hid
    rcases hid with hid | hid
    · obtain ⟨hreq, hgroups, -⟩ := h.retired id hid
      exact ⟨hreq, fun hm => hgroups (hmem id hm), List.not_mem_nil⟩
    · obtain ⟨hreq, hgroups⟩ := h.finished id hid
      exact ⟨hreq, fun hm => hgroups (hmem id hm), List.not_mem_nil⟩
  · exact h.groups _ (mem_groups_of_sent hnodup hs (List.mem_map_of_mem hm))
  · show (ms.map _).Nodup
    rw [sendAll_ids hs]
    exact hnodup
  · obtain ⟨g, hg, rfl | rfl⟩ := get?_sendAll hnodup hs hg'
    · exact h.settled id _ hg
    · exact (h.settled id g hg).afterSend true
  · obtain ⟨sg, -, g, hg, rfl⟩ := mem_sendAll hnodup hs hm
    obtain ⟨hsample, hchunk⟩ := doSample_send g n sg
    rw [requestId_send] at hg'
    obtain ⟨g₀, hg₀, hcase⟩ := get?_sendAll hnodup hs hg'
    obtain rfl := Option.some_inj.mp (hg.symm.trans hg₀)
    rw [hsample, hchunk]
    rcases hcase with rfl | rfl
    · rfl
    · rw [doSample_afterSend]

/-- The first loop of a worker that is in sync. -/
theorem InSync.receive (h : InSync e cache) (he : EngineInv e)
    (hnodup : (sgs.map Scheduled.requestId).Nodup)
    (hs : sendAll true n sgs e.groups = .ok (ms, groups'))
    (hf : sendAll false n sgs e.groups = .ok (full, groups'')) :
    ∃ mds cache', receive cache ms = .ok (mds, cache') ∧ List.Forall₂ SameAs mds full ∧
      (∀ id g, groups'.get? id = some g →
        id ∈ ms.map MetadataOrDelta.requestId ∨ g.isFirstPrefill = false →
          ∃ md, cache'.get? id = some md ∧ Synced id g md) ∧
      ∀ id, id ∈ cache' ↔ id ∈ ms.map MetadataOrDelta.requestId ∨ id ∈ cache := by
  obtain ⟨hms, hgroups⟩ := sendAll_ok hnodup hs
  have hids := sendAll_ids hs
  have hready : ∀ sg ∈ sgs, ∀ g, e.groups.get? sg.requestId = some g →
      Sendable sg.requestId g (cache.get? sg.requestId) ∧ Settled g := by
    intro sg _ g hg
    refine ⟨?_, he.settled _ g hg⟩
    cases hfirst : g.isFirstPrefill with
    | true => exact .inl hfirst
    | false => exact .inr (h.synced _ g hg (.inr hfirst))
  obtain ⟨mds, cache', hreceive, hall, hsync, hother, hmem⟩ :=
    receive_sent hnodup hready hms (sendAll_ok hnodup hf).1
  refine ⟨mds, cache', hreceive, hall, fun id g hg hcase => ?_, fun id => by rw [hids, hmem]⟩
  rw [hids] at hcase
  rw [hgroups] at hg
  split at hg
  · next hid =>
    obtain ⟨g₀, hg₀, rfl⟩ := Option.map_eq_some_iff.mp hg
    obtain ⟨sg, hsg, rfl⟩ := List.mem_map.mp hid
    exact hsync sg hsg g₀ hg₀
  · next hid =>
    rw [hother id hid]
    exact h.synced id g hg (.inr (hcase.resolve_left hid))

theorem sentIds_sending : sentIds (e.sending groups' ms full).sent =
    sentIds e.sent ++ ms.map MetadataOrDelta.requestId := by
  rw [Engine.sending, sentIds, List.flatMap_append, List.flatMap_singleton]
  rfl

theorem retiredIds_sending : retiredIds (e.sending groups' ms full).sent =
    retiredIds e.sent ++ e.finishedRequestsIds := by
  rw [Engine.sending, retiredIds, List.flatMap_append, List.flatMap_singleton]
  rfl

/-- A worker in sync is sent a step. -/
theorem InSync.execute (h : InSync e cache) (he : EngineInv e)
    (hnodup : (sgs.map Scheduled.requestId).Nodup)
    (hs : sendAll true n sgs e.groups = .ok (ms, groups'))
    (hf : sendAll false n sgs e.groups = .ok (full, groups'')) :
    ((∃ res, getCachedSeqGroupMetadata cache ⟨ms, e.finishedRequestsIds⟩ = .ok res) ↔
        ∀ id ∈ e.finishedRequestsIds, id ∈ sentIds (e.sending groups' ms full).sent) ∧
      ∀ mds cache',
        getCachedSeqGroupMetadata cache ⟨ms, e.finishedRequestsIds⟩ = .ok (mds, cache') →
          List.Forall₂ SameAs mds full ∧ InSync (e.sending groups' ms full) cache' := by
  obtain ⟨mds, cache₁, hreceive, hall, hsync, hmem⟩ := h.receive he hnodup hs hf
  have hget : ∀ res, getCachedSeqGroupMetadata cache ⟨ms, e.finishedRequestsIds⟩ = .ok res ↔
      ∃ c, cleanUp cache₁ e.finishedRequestsIds = .ok c ∧ res = (mds, c) := by
    intro res
    constructor
    · intro hres
      obtain ⟨r₁, h₁, hres⟩ := bind_eq_ok.mp hres
      obtain rfl := Except.ok.inj (hreceive.symm.trans h₁)
      obtain ⟨c, hc, hres⟩ := bind_eq_ok.mp hres
      exact ⟨c, hc, pure_eq_ok.mp hres⟩
    · rintro ⟨c, hc, rfl⟩
      exact bind_eq_ok.mpr ⟨_, hreceive, bind_eq_ok.mpr ⟨c, hc, rfl⟩⟩
  constructor
  · have hiff : (∃ res, getCachedSeqGroupMetadata cache ⟨ms, e.finishedRequestsIds⟩ = .ok res) ↔
        ∃ c, cleanUp cache₁ e.finishedRequestsIds = .ok c := by
      constructor
      · rintro ⟨res, hres⟩
        obtain ⟨c, hc, -⟩ := (hget res).mp hres
        exact ⟨c, hc⟩
      · rintro ⟨c, hc⟩
        exact ⟨_, (hget _).mpr ⟨c, hc, rfl⟩⟩
    rw [hiff, cleanUp_ok_iff he.finishedNodup, sentIds_sending]
    refine forall₂_congr fun id hid => ?_
    have hretired : id ∉ retiredIds e.sent := fun hr => (he.retired id hr).2.2 hid
    rw [hmem, h.mem, List.mem_append]
    exact ⟨fun hor => hor.elim .inr fun hor => .inl hor.1,
      fun hor => hor.elim (fun hor => .inr ⟨hor, hretired⟩) .inl⟩
  · intro mds' cache' hok
    obtain ⟨c, hc, heq⟩ := (hget _).mp hok
    obtain ⟨rfl, rfl⟩ := Prod.mk.inj heq
    refine ⟨hall, fun id g hg hcase => ?_, fun id => ?_⟩
    · have hfin : id ∉ e.finishedRequestsIds := fun hmem => by
        obtain ⟨g₀, hg₀, -⟩ := get?_sendAll hnodup hs hg
        exact (he.finished id hmem).2 (Dict.mem_of_get? hg₀)
      rw [get?_cleanUp hc, if_neg hfin]
      exact hsync id g hg hcase
    · have hmem' : id ∈ cache' ↔ id ∉ e.finishedRequestsIds ∧ id ∈ cache₁ := by
        rw [Dict.mem_iff, get?_cleanUp hc, Dict.mem_iff]
        by_cases hfin : id ∈ e.finishedRequestsIds
        · rw [if_pos hfin]
          refine ⟨fun hv => ?_, fun hv => absurd hfin hv.1⟩
          obtain ⟨v, hv⟩ := hv
          cases hv
        · rw [if_neg hfin]
          exact ⟨fun hv => ⟨hfin, hv⟩, fun hv => hv.2⟩
      have hlive : id ∈ ms.map MetadataOrDelta.requestId → id ∉ retiredIds e.sent :=
        fun hid hr => (he.retired id hr).2.1 (mem_groups_of_sent hnodup hs hid)
      rw [hmem', hmem, h.mem, sentIds_sending, retiredIds_sending, List.mem_append, List.mem_append]
      tauto

end Schedule

section Step

theorem executeAll_append {l₁ l₂ : List (ExecuteModelRequest L P M D)}
    {cache cache' : Dict String (SequenceGroupMetadata L P M D)} :
    executeAll cache (l₁ ++ l₂) = .ok cache' ↔
      ∃ c, executeAll cache l₁ = .ok c ∧ executeAll c l₂ = .ok cache' := by
  induction l₁ generalizing cache with
  | nil => exact ⟨fun h => ⟨cache, rfl, h⟩, fun ⟨_, hc, h⟩ => Except.ok.inj hc ▸ h⟩
  | cons r l₁ ih =>
    rw [List.cons_append, executeAll, executeAll]
    simp only [bind_eq_ok, ih]
    constructor
    · rintro ⟨res, hres, c, hc, h⟩
      exact ⟨c, ⟨res, hres, hc⟩, h⟩
    · rintro ⟨c, ⟨res, hres, hc⟩, h⟩
      exact ⟨res, hres, c, hc, h⟩

variable [Zero L]

theorem settled_fromSeqs {seqId : Nat} {promptTokenIds : List Nat} {samplingParams : P}
    {multiModalData : Option M} :
    Settled (⟨seqId, SequenceData.fromSeqs promptTokenIds, samplingParams, multiModalData⟩ :
      SequenceGroup L P M) :=
  fun _ => rfl

variable [Add L] {event : Event L P M D}

/-- One step of the engine. -/
theorem SpmdInv.step (h : SpmdInv e) (hp : e.Promised event) (hs : e.step event = .ok e') :
    SpmdInv e' := by
  obtain ⟨he, hw, ha⟩ := h
  cases event with
  | addRequest requestId seqId promptTokenIds samplingParams multiModalData =>
    cases pure_eq_ok.mp hs
    have hawait : requestId ∉ e.awaiting.map MetadataOrDelta.requestId := fun hmem => by
      obtain ⟨m, hm, rfl⟩ := List.mem_map.mp hmem
      exact hp (he.awaiting m hm)
    exact ⟨he.add hp settled_fromSeqs, fun cache hc => (hw cache hc).setFirst hawait rfl, ha⟩
  | preempt requestId =>
    rw [Engine.step] at hs
    cases hg : e.groups.get? requestId with
    | none =>
      rw [hg] at hs
      cases hs
    | some g =>
      rw [hg] at hs
      cases pure_eq_ok.mp hs
      have hidle : e.awaiting = [] := hp
      have hawait : requestId ∉ e.awaiting.map MetadataOrDelta.requestId := by
        rw [hidle]
        exact List.not_mem_nil
      exact ⟨he.setGroup hidle (Dict.mem_of_get? hg) fun _ => rfl,
        fun cache hc => (hw cache hc).setFirst hawait rfl, ha⟩
  | schedule n sgs =>
    obtain ⟨hidle, hnodup⟩ := hp
    obtain ⟨⟨ms, groups'⟩, hsend, hs⟩ := bind_eq_ok.mp hs
    obtain ⟨⟨full, groups''⟩, hfull, hs⟩ := bind_eq_ok.mp hs
    cases pure_eq_ok.mp hs
    refine ⟨he.schedule hnodup hsend, fun cache hc => ?_, fun before r after hsent => ?_⟩
    · obtain ⟨c, hc₀, hc⟩ := executeAll_append.mp (List.map_append ▸ hc)
      obtain ⟨⟨mds, cache₁⟩, hget, hc⟩ := bind_eq_ok.mp hc
      cases pure_eq_ok.mp hc
      exact (((hw c hc₀).execute he hnodup hsend hfull).2 mds cache hget).2
    · intro cache hc
      rcases List.eq_nil_or_concat after with rfl | ⟨after', r', rfl⟩
      · obtain ⟨rfl, hr⟩ := List.append_inj' hsent rfl
        obtain rfl := (List.cons.inj hr).1
        obtain ⟨hiff, hok⟩ := (hw cache hc).execute he hnodup hsend hfull
        exact ⟨hiff, fun mds cache' hget => (hok mds cache' hget).1⟩
      · rw [List.concat_eq_append, ← List.cons_append, ← List.append_assoc] at hsent
        obtain ⟨hsent, -⟩ := List.append_inj' hsent rfl
        exact ha before r after' hsent cache hc
  | processOutputs samples =>
    obtain ⟨groups, hgroups, hs⟩ := bind_eq_ok.mp hs
    cases pure_eq_ok.mp hs
    exact ⟨he.processOutputs hgroups, fun cache hc => (hw cache hc).processOutputs he hgroups, ha⟩
  | free requestId =>
    rw [Engine.step] at hs
    cases hg : e.groups.get? requestId with
    | none =>
      rw [hg] at hs
      cases hs
    | some g =>
      rw [hg] at hs
      cases pure_eq_ok.mp hs
      exact ⟨he.free (Dict.mem_of_get? hg), fun cache hc => (hw cache hc).erase requestId, ha⟩
  | ignore requestId =>
    cases pure_eq_ok.mp hs
    exact ⟨he.erase requestId, fun cache hc => (hw cache hc).erase requestId, ha⟩

end Step

end Steps

instance decidablePromised (e : Engine L P M D) (event : Event L P M D) :
    Decidable (e.Promised event) :=
  match event with
  | .addRequest requestId _ _ _ _ => inferInstanceAs (Decidable (requestId ∉ e.requestIds))
  | .preempt _ => inferInstanceAs (Decidable (e.awaiting = []))
  | .schedule _ scheduled => inferInstanceAs
      (Decidable (e.awaiting = [] ∧ (scheduled.map Scheduled.requestId).Nodup))
  | .processOutputs _ | .free _ | .ignore _ => .isTrue trivial

end Bi100.Spmd
