import Bi100.Lib.Ragged
import Bi100.Sampling.LogprobsReady

/-!
# Log-probabilities are those of their tokens

- `tokenEntry`: the dictionary of a token, from a logits row.
- `logprobsLoop_ok`: what `get_logprobs` returns for the groups of a batch, with its cursors.
- `getLogprobs_aligned`: in a prepared batch, every dictionary is that of the row of its token.
-/

namespace Bi100.Sampling

open Py

variable {V : Type} [LinearOrder V] {topk : Nat → List V → List (Nat × V)} {logprobs : List (List V)}

/-! ## What is selected -/

/-- The log-probability and the rank of a token, in a row. -/
def rowValue (row : List V) (token : Nat) : Option (V × Nat) :=
  row[token]?.map fun v => (v, rank row v)

/-- The dictionary of a token, with the `numLogprobs` best of the `largest` best tokens. -/
def tokenEntry (topk : Nat → List V → List (Nat × V)) (largest numLogprobs : Nat) (row : List V)
    (token : Nat) : Option (LogprobDict V) :=
  (rowValue row token).map fun item =>
    let entry := (∅ : LogprobDict V).set token ⟨some item.1, some item.2⟩
    if 0 < numLogprobs then addTop entry ((topk largest row).take numLogprobs) 1 else entry

/-- The next tokens, where they exist. -/
def SequenceGroupToSample.nextTokens (g : SequenceGroupToSample) : List Nat :=
  match g.getNextPromptTokens with
  | .ok tokens => tokens
  | .error _ => []

/-- The rows and the tokens that are selected for the prompt of a group. -/
def promptQueries (g : SequenceGroupToSample) : List (Nat × Nat) :=
  if g.wantsPromptLogprobs then g.promptLogprobIndices.zip g.nextTokens else []

/-- The rows and the tokens that are selected for what a group samples. -/
def sampleQueries (g : SequenceGroupToSample) (result : SampleResult) : List (Nat × Nat) :=
  if g.doSample then (result.2.map (g.sampleIndices.headD 0 + ·)).zip result.1 else []

def queries (p : SequenceGroupToSample × SampleResult) : List (Nat × Nat) :=
  promptQueries p.1 ++ sampleQueries p.1 p.2

/-- A group asks for `n` log-probabilities. -/
def Requests (g : SequenceGroupToSample) (n : Nat) : Prop :=
  g.isPrompt = true ∧ g.samplingParams.promptLogprobs = some n ∨
    g.doSample = true ∧ g.samplingParams.logprobs = some n

/-- What `get_logprobs` relies on for a group. -/
structure GroupReady (g : SequenceGroupToSample) (result : SampleResult) : Prop where
  prompt : g.wantsPromptLogprobs = true → ∃ q d, g.queryLen = some q ∧ g.firstSeqData = .ok d ∧
    ∀ o ∈ g.promptLogprobOutputIndices, o < fullPromptLogprobLen g q d
  next : g.wantsPromptLogprobs = true → g.getNextPromptTokens = .ok g.nextTokens
  rows : g.wantsPromptLogprobs = true → g.nextTokens.length = g.promptLogprobIndices.length
  outputs : g.promptLogprobIndices.length = g.promptLogprobOutputIndices.length
  nodup : g.promptLogprobOutputIndices.Nodup
  noRows : g.wantsPromptLogprobs = false → g.promptLogprobIndices = []
  sampleIndices : g.doSample = true → g.sampleIndices.length = g.seqIds.length
  sampled : g.doSample = true → result.1 ≠ [] ∧ result.2.length = result.1.length ∧
    ∀ parentId ∈ result.2, parentId < g.seqIds.length

/-- What a selection is after something is added to it. -/
structure Selected (sel : Selection) (added : List (Nat × Nat)) (requested : Nat → Prop)
    (sel' : Selection) : Prop where
  queryIndices : sel'.queryIndices = sel.queryIndices ++ added.map Prod.fst
  nextTokenIds : sel'.nextTokenIds = sel.nextTokenIds ++ added.map Prod.snd
  largest : ∀ b, sel'.largestNumLogprobs ≤ b ↔
    sel.largestNumLogprobs ≤ b ∧ ∀ n, requested n → (n : Int) ≤ b

theorem Selected.nil {sel : Selection} {requested : Nat → Prop} (h : ∀ n, ¬ requested n) :
    Selected sel [] requested sel where
  queryIndices := (List.append_nil _).symm
  nextTokenIds := (List.append_nil _).symm
  largest _ := ⟨fun hb => ⟨hb, fun n hn => absurd hn (h n)⟩, fun hb => hb.1⟩

theorem Selected.trans {sel sel₁ sel₂ : Selection} {added₁ added₂ : List (Nat × Nat)}
    {requested₁ requested₂ : Nat → Prop} (h₁ : Selected sel added₁ requested₁ sel₁)
    (h₂ : Selected sel₁ added₂ requested₂ sel₂) :
    Selected sel (added₁ ++ added₂) (fun n => requested₁ n ∨ requested₂ n) sel₂ where
  queryIndices := by rw [h₂.queryIndices, h₁.queryIndices, List.append_assoc, List.map_append]
  nextTokenIds := by rw [h₂.nextTokenIds, h₁.nextTokenIds, List.append_assoc, List.map_append]
  largest b := by
    rw [h₂.largest, h₁.largest, and_assoc]
    simp only [or_imp, forall_and]

variable {g : SequenceGroupToSample} {result : SampleResult}

theorem selectPrompt_ok (h : GroupReady g result) (sel : Selection) :
    ∃ sel', selectPrompt g sel = .ok sel' ∧
      Selected sel (promptQueries g) (fun n =>
        g.isPrompt = true ∧ g.samplingParams.promptLogprobs = some n) sel' := by
  have hwants : g.wantsPromptLogprobs = (g.isPrompt && g.samplingParams.promptLogprobs.isSome) := rfl
  rw [selectPrompt]
  cases hprompt : g.isPrompt with
  | false =>
    rw [hprompt, Bool.false_and] at hwants
    rw [promptQueries, if_neg (Bool.eq_false_iff.mp hwants)]
    exact ⟨sel, rfl, .nil fun n hn => Bool.false_ne_true hn.1⟩
  | true =>
    cases hnum : g.samplingParams.promptLogprobs with
    | none =>
      rw [hprompt, hnum, Option.isSome_none, Bool.and_false] at hwants
      rw [promptQueries, if_neg (Bool.eq_false_iff.mp hwants)]
      exact ⟨sel, rfl, .nil fun n hn => by cases hn.2⟩
    | some num =>
      rw [hprompt, hnum, Option.isSome_some, Bool.and_true] at hwants
      rw [promptQueries, if_pos hwants]
      refine ⟨_, bind_eq_ok.mpr ⟨_, h.next hwants, rfl⟩, ⟨?_, ?_, fun b => ?_⟩⟩
      · rw [List.map_fst_zip (h.rows hwants).ge]
      · rw [List.map_snd_zip (h.rows hwants).le]
      · rw [max_le_iff]
        refine and_congr_right fun _ => ⟨fun hb n hn => ?_, fun hb => hb num ⟨rfl, rfl⟩⟩
        rw [← Option.some_inj.mp hn.2]
        exact hb

theorem selectSample_ok (h : GroupReady g result) (sel : Selection) :
    ∃ sel', selectSample g result sel = .ok sel' ∧
      Selected sel (sampleQueries g result) (fun n =>
        g.doSample = true ∧ g.samplingParams.logprobs = some n) sel' := by
  rw [selectSample, sampleQueries]
  cases hdo : g.doSample with
  | false => exact ⟨sel, rfl, .nil fun n hn => Bool.false_ne_true hn.1⟩
  | true =>
    obtain ⟨-, hlen, -⟩ := h.sampled hdo
    rw [SequenceGroupToSample.doSample, decide_eq_true_eq] at hdo
    rw [if_pos rfl, if_pos rfl]
    cases hrows : g.sampleIndices with
    | nil =>
      rw [hrows] at hdo
      exact absurd hdo (Nat.lt_irrefl 0)
    | cons row rows =>
      refine ⟨_, rfl, ⟨?_, ?_, fun b => ?_⟩⟩
      · rw [List.map_fst_zip (by rw [List.length_map]; exact hlen.le)]
        rfl
      · rw [List.map_snd_zip (by rw [List.length_map]; exact hlen.ge)]
      · cases hnum : g.samplingParams.logprobs with
        | none => exact ⟨fun hb => ⟨hb, fun n hn => by cases hn.2⟩, fun hb => hb.1⟩
        | some num =>
          show max _ _ ≤ b ↔ _
          rw [max_le_iff]
          refine and_congr_right fun _ => ⟨fun hb n hn => ?_, fun hb => hb num ⟨rfl, rfl⟩⟩
          rw [← Option.some_inj.mp hn.2]
          exact hb

theorem selectLoop_ok {items : List (SequenceGroupToSample × SampleResult)} {sel : Selection}
    (h : ∀ p ∈ items, GroupReady p.1 p.2)
    (hsel : sel.nextTokenIds.length = sel.queryIndices.length) :
    ∃ sel', selectLoop items sel = .ok sel' ∧
      Selected sel (items.flatMap queries) (fun n => ∃ p ∈ items, Requests p.1 n) sel' := by
  induction items generalizing sel with
  | nil => exact ⟨sel, rfl, .nil fun n ⟨p, hp, _⟩ => List.not_mem_nil hp⟩
  | cons p items ih =>
    obtain ⟨hp, hitems⟩ := List.forall_mem_cons.mp h
    obtain ⟨sel₁, h₁, hsel₁⟩ := selectPrompt_ok hp sel
    obtain ⟨sel₂, h₂, hsel₂⟩ := selectSample_ok hp sel₁
    have hboth := hsel₁.trans hsel₂
    have hlen : sel₂.nextTokenIds.length = sel₂.queryIndices.length := by
      rw [hboth.nextTokenIds, hboth.queryIndices, List.length_append, List.length_append,
        List.length_map, List.length_map, hsel]
    obtain ⟨sel', hloop, hrest⟩ := ih hitems hlen
    refine ⟨sel', bind_eq_ok.mpr ⟨sel₁, h₁, bind_eq_ok.mpr ⟨sel₂, h₂,
      guardNot_bind_eq_ok.mpr ⟨not_not.mpr hlen, hloop⟩⟩⟩, ?_⟩
    have hall := hboth.trans hrest
    refine ⟨?_, ?_, fun b => ?_⟩
    · rw [hall.queryIndices, List.flatMap_cons, queries]
    · rw [hall.nextTokenIds, List.flatMap_cons, queries]
    · rw [hall.largest]
      simp only [Requests, List.mem_cons, or_and_right, exists_or, exists_eq_left]

/-! ## The values -/

/-- The value that is selected for a row and a token. -/
def lookup (logprobs : List (List V)) (query : Nat × Nat) : Option (V × Nat) :=
  logprobs[query.1]?.bind fun row => rowValue row query.2

theorem selectLogprob_ok {query : Nat × Nat} {item : V × Nat}
    (h : lookup logprobs query = some item) :
    selectLogprob logprobs query.1 query.2 = .ok item := by
  obtain ⟨row, hrow, hvalue⟩ := Option.bind_eq_some_iff.mp h
  obtain ⟨v, hv, rfl⟩ := Option.map_eq_some_iff.mp hvalue
  rw [selectLogprob, hrow]
  dsimp only
  rw [hv]
  rfl

theorem mapM_selectLogprob {queries : List (Nat × Nat)}
    (h : ∀ query ∈ queries, ∃ item, lookup logprobs query = some item) :
    ∃ values, (queries.mapM fun p => selectLogprob logprobs p.1 p.2) = .ok values ∧
      values.map some = queries.map (lookup logprobs) := by
  induction queries with
  | nil => exact ⟨[], rfl, rfl⟩
  | cons query queries ih =>
    obtain ⟨⟨item, hitem⟩, hqueries⟩ := List.forall_mem_cons.mp h
    obtain ⟨values, hmap, hvalues⟩ := ih hqueries
    refine ⟨item :: values, ?_, ?_⟩
    · rw [List.mapM_cons, selectLogprob_ok hitem, hmap]
      rfl
    · rw [List.map_cons, List.map_cons, hitem, hvalues]

/-- What is selected, and the best tokens of every row, as far as they are needed. -/
structure Values (topk : Nat → List V → List (Nat × V)) (logprobs : List (List V))
    (queries : List (Nat × Nat)) (requested : Nat → Prop) (largest : Nat)
    (selected : Option (List (V × Nat))) (top : Option (List (List (Nat × V)))) : Prop where
  values : queries ≠ [] → (∃ n, requested n) →
    ∃ values, selected = some values ∧ values.map some = queries.map (lookup logprobs)
  le : ∀ n, requested n → n ≤ largest
  best : queries ≠ [] → (∃ n, requested n ∧ 0 < n) → top = some (logprobs.map (topk largest))

theorem selectLoop_values {items : List (SequenceGroupToSample × SampleResult)} {vocab : Nat}
    (h : ∀ p ∈ items, GroupReady p.1 p.2)
    (hlookup : ∀ query ∈ items.flatMap queries, ∃ item, lookup logprobs query = some item)
    (hvocab : ∀ row ∈ logprobs, row.length = vocab)
    (hbound : ∀ p ∈ items, ∀ n, Requests p.1 n → n ≤ vocab) :
    ∃ sel selected top largest, selectLoop items ⟨[], [], -1⟩ = .ok sel ∧
      selectLogprobs logprobs sel = .ok selected ∧ topLogprobs topk logprobs sel = .ok top ∧
      Values topk logprobs (items.flatMap queries) (fun n => ∃ p ∈ items, Requests p.1 n) largest
        selected top := by
  obtain ⟨sel, hloop, hsel⟩ := @selectLoop_ok items ⟨[], [], -1⟩ h rfl
  have hzip : sel.queryIndices.zip sel.nextTokenIds = items.flatMap queries := by
    rw [hsel.queryIndices, hsel.nextTokenIds, List.nil_append, List.nil_append]
    exact (List.zip_of_prod rfl rfl).symm
  have hempty : sel.queryIndices ≠ [] ↔ items.flatMap queries ≠ [] := by
    rw [hsel.queryIndices, List.nil_append, ne_eq, List.map_eq_nil_iff]
  obtain ⟨-, hle⟩ := (hsel.largest sel.largestNumLogprobs).mp le_rfl
  have hvocab' : sel.largestNumLogprobs ≤ vocab := by
    refine (hsel.largest vocab).mpr ⟨by show (-1 : Int) ≤ vocab; omega, ?_⟩
    rintro n ⟨p, hp, hn⟩
    exact Int.ofNat_le.mpr (hbound p hp n hn)
  obtain ⟨values, hvalues, hmap⟩ := mapM_selectLogprob hlookup
  have hselected : ∃ selected, selectLogprobs logprobs sel = .ok selected ∧
      (sel.queryIndices ≠ [] ∧ 0 ≤ sel.largestNumLogprobs → selected = some values) := by
    rw [selectLogprobs]
    by_cases hc : sel.queryIndices ≠ [] ∧ 0 ≤ sel.largestNumLogprobs
    · rw [if_pos hc, hzip, hvalues]
      exact ⟨some values, rfl, fun _ => rfl⟩
    · rw [if_neg hc]
      exact ⟨none, rfl, fun hc' => absurd hc' hc⟩
  have htop : ∃ top, topLogprobs topk logprobs sel = .ok top ∧
      (sel.queryIndices ≠ [] ∧ 0 < sel.largestNumLogprobs →
        top = some (logprobs.map (topk sel.largestNumLogprobs.toNat))) := by
    rw [topLogprobs]
    by_cases hc : sel.queryIndices ≠ [] ∧ 0 < sel.largestNumLogprobs
    · rw [if_pos hc]
      refine ⟨_, guardNot_bind_eq_ok.mpr ⟨?_, rfl⟩, fun _ => rfl⟩
      rintro ⟨row, hrow, hlt⟩
      have := hvocab row hrow
      omega
    · rw [if_neg hc]
      exact ⟨none, rfl, fun hc' => absurd hc' hc⟩
  obtain ⟨selected, hsome, hsel'⟩ := hselected
  obtain ⟨top, htop, htop'⟩ := htop
  refine ⟨sel, selected, top, sel.largestNumLogprobs.toNat, hloop, hsome, htop,
    ⟨fun hne hn => ⟨values, hsel' ⟨hempty.mpr hne, ?_⟩, hmap⟩, fun n hn => ?_,
      fun hne hn => htop' ⟨hempty.mpr hne, ?_⟩⟩⟩
  · obtain ⟨n, hn⟩ := hn
    have := hle n hn
    omega
  · have := hle n hn
    omega
  · obtain ⟨n, hn, hpos⟩ := hn
    have := hle n hn
    omega

/-! ## The entries -/

section Entries

variable {num largest topIdx : Nat} {top : Option (List (List (Nat × V)))}

theorem logprobEntry_ok {row : List V} {token r : Nat} {item : V × Nat}
    (hrow : logprobs[r]? = some row) (hitem : rowValue row token = some item)
    (htop : 0 < num → top = some (logprobs.map (topk largest))) :
    ∃ entry, logprobEntry token item num top r = .ok entry ∧
      tokenEntry topk largest num row token = some entry := by
  rw [tokenEntry, hitem]
  unfold logprobEntry
  dsimp only
  rw [Option.map_some]
  by_cases hpos : 0 < num
  · rw [htop hpos, if_pos hpos, if_pos hpos]
    dsimp only
    rw [List.getElem?_map, hrow]
    exact ⟨_, rfl, rfl⟩
  · rw [if_neg hpos, if_neg hpos]
    exact ⟨_, rfl, rfl⟩

omit [LinearOrder V] in
/-- The loop over the prompt: every output index gets the entry of its token. -/
theorem promptEntries_ok {pairs : List (Nat × Nat)} {items : List (V × Nat)}
    {acc : List (Option (LogprobDict V))} (entry : Nat → Option (LogprobDict V))
    (hnodup : (pairs.map Prod.snd).Nodup)
    (h : ∀ i token o : Nat, pairs[i]? = some (token, o) → o < acc.length ∧ ∃ item e,
      items[i]? = some item ∧ logprobEntry token item num top (topIdx + i) = .ok e ∧
        entry i = some e) :
    ∃ out, promptEntries num top pairs items topIdx acc = .ok (out, topIdx + pairs.length) ∧
      out.length = acc.length ∧
      (∀ i token o : Nat, pairs[i]? = some (token, o) → out[o]? = some (entry i)) ∧
      ∀ o, o ∉ pairs.map Prod.snd → out[o]? = acc[o]? := by
  induction pairs generalizing items topIdx acc entry with
  | nil =>
    refine ⟨acc, rfl, rfl, fun i token o hi => ?_, fun o _ => rfl⟩
    cases hi
  | cons pair pairs ih =>
    obtain ⟨token, o⟩ := pair
    obtain ⟨hlt, item, e, hitem, hentry, he⟩ := h 0 token o rfl
    rw [List.map_cons, List.nodup_cons] at hnodup
    cases items with
    | nil => cases hitem
    | cons item' items =>
      obtain rfl := Option.some_inj.mp hitem
      have hrec := @ih (topIdx + 1) items (acc.set o (some e)) (fun i => entry (i + 1)) hnodup.2 fun i token' o' hi => by
          obtain ⟨hlt', item', e', hitem', hentry', he'⟩ := h (i + 1) token' o' hi
          refine ⟨by rw [List.length_set]; exact hlt', item', e', hitem', ?_, he'⟩
          rw [Nat.add_assoc, Nat.add_comm 1]
          exact hentry'
      obtain ⟨out, hok, hlen, hin, hout⟩ := hrec
      refine ⟨out, ?_, by rw [hlen, List.length_set], fun i token' o' hi => ?_, fun o' ho' => ?_⟩
      · refine bind_eq_ok.mpr ⟨e, hentry, guardNot_bind_eq_ok.mpr ⟨not_le.mpr hlt, ?_⟩⟩
        rw [hok, List.length_cons, Nat.add_assoc, Nat.add_comm 1]
      · cases i with
        | zero =>
          obtain ⟨-, rfl⟩ := Prod.mk.inj (Option.some_inj.mp hi)
          rw [hout o hnodup.1, List.getElem?_set_self hlt, he]
        | succ i => exact hin i token' o' hi
      · rw [List.map_cons, List.mem_cons, not_or] at ho'
        rw [hout o' ho'.2, List.getElem?_set_ne (Ne.symm ho'.1)]

omit [LinearOrder V] in
/-- The loop over what is sampled. -/
theorem sampleEntries_ok {pairs : List (Nat × Nat)} {items : List (V × Nat)}
    (entry : Nat → Option (LogprobDict V))
    (h : ∀ i token parentId : Nat, pairs[i]? = some (token, parentId) → ∃ item e,
      items[i]? = some item ∧ logprobEntry token item num top (topIdx + parentId) = .ok e ∧
        entry i = some e) :
    ∃ out, sampleEntries num top topIdx pairs items = .ok out ∧ out.length = pairs.length ∧
      ∀ i < pairs.length, out[i]? = entry i := by
  induction pairs generalizing items entry with
  | nil => exact ⟨[], rfl, rfl, fun i hi => absurd hi (Nat.not_lt_zero i)⟩
  | cons pair pairs ih =>
    obtain ⟨token, parentId⟩ := pair
    obtain ⟨item, e, hitem, hentry, he⟩ := h 0 token parentId rfl
    cases items with
    | nil => cases hitem
    | cons item' items =>
      obtain rfl := Option.some_inj.mp hitem
      have hrec := @ih items (fun i => entry (i + 1)) fun i token' parent' hi =>
        h (i + 1) token' parent' hi
      obtain ⟨out, hok, hlen, hout⟩ := hrec
      refine ⟨e :: out, ?_, by rw [List.length_cons, hlen, List.length_cons], fun i hi => ?_⟩
      · rw [sampleEntries, hentry, hok]
        rfl
      · cases i with
        | zero => exact he.symm
        | succ i => exact hout i (Nat.lt_of_succ_lt_succ hi)

end Entries

/-! ## A group -/

/-- The dictionary of a token, from row `r`. -/
def IsEntry (topk : Nat → List V → List (Nat × V)) (logprobs : List (List V))
    (largest numLogprobs r token : Nat) (entry : LogprobDict V) : Prop :=
  ∃ row, logprobs[r]? = some row ∧ tokenEntry topk largest numLogprobs row token = some entry

/-- The prompt logprobs of a group. -/
def PromptAnswer (topk : Nat → List V → List (Nat × V)) (logprobs : List (List V))
    (largest : Nat) (g : SequenceGroupToSample) : Option (List (Option (LogprobDict V))) → Prop
  | none => g.wantsPromptLogprobs = false
  | some entries => ∃ num q d, g.isPrompt = true ∧ g.samplingParams.promptLogprobs = some num ∧
    g.queryLen = some q ∧ g.firstSeqData = .ok d ∧
    entries.length = fullPromptLogprobLen g q d ∧
    (∀ i r o token : Nat, g.promptLogprobIndices[i]? = some r →
      g.promptLogprobOutputIndices[i]? = some o → g.nextTokens[i]? = some token →
        ∃ e, entries[o]? = some (some e) ∧ IsEntry topk logprobs largest num r token e) ∧
    ∀ o < fullPromptLogprobLen g q d, o ∉ g.promptLogprobOutputIndices → entries[o]? = some none

/-- The log-probabilities of what a group samples. -/
structure SampleAnswer (topk : Nat → List V → List (Nat × V)) (logprobs : List (List V))
    (largest : Nat) (g : SequenceGroupToSample) (result : SampleResult)
    (entries : List (LogprobDict V)) : Prop where
  nothing : g.doSample = false → entries = []
  dummy : g.doSample = true → g.samplingParams.logprobs = none → entries = result.1.map dummyEntry
  sampled : ∀ num, g.doSample = true → g.samplingParams.logprobs = some num →
    entries.length = result.1.length ∧
    ∀ i token parentId : Nat, result.1[i]? = some token → result.2[i]? = some parentId →
      ∃ r e, g.sampleIndices[parentId]? = some r ∧ entries[i]? = some e ∧
        IsEntry topk logprobs largest num r token e

/-- The values of some queries, from `selectedIdx` on. -/
structure ValuesAt (topk : Nat → List V → List (Nat × V)) (logprobs : List (List V))
    (queries : List (Nat × Nat)) (largest selectedIdx num : Nat)
    (selected : Option (List (V × Nat))) (top : Option (List (List (Nat × V)))) : Prop where
  values : ∃ values, selected = some values ∧ ∀ (i : Nat) query, queries[i]? = some query →
    ∃ item, values[selectedIdx + i]? = some item ∧ lookup logprobs query = some item
  best : 0 < num → top = some (logprobs.map (topk largest))

section Group

variable {selected : Option (List (V × Nat))} {top : Option (List (List (Nat × V)))}
  {selectedIdx topIdx largest : Nat}

theorem slice_values {queries : List (Nat × Nat)} {values : List (V × Nat)} {count : Nat}
    (h : ∀ (i : Nat) query, queries[i]? = some query →
      ∃ item, values[selectedIdx + i]? = some item ∧ lookup logprobs query = some item)
    {i : Nat} {query : Nat × Nat} (hi : i < count) (hquery : queries[i]? = some query) :
    ∃ item, (slice values selectedIdx (selectedIdx + count))[i]? = some item ∧
      lookup logprobs query = some item := by
  obtain ⟨item, hitem, hlookup⟩ := h i query hquery
  refine ⟨item, ?_, hlookup⟩
  rw [getElem?_slice, if_pos (Nat.add_lt_add_left hi _), hitem]

/-- The entry of a value that is selected. -/
theorem isEntry_of_lookup {num r token : Nat} {item : V × Nat}
    (hlookup : lookup logprobs (r, token) = some item)
    (htop : 0 < num → top = some (logprobs.map (topk largest))) :
    ∃ e, logprobEntry token item num top r = .ok e ∧ IsEntry topk logprobs largest num r token e := by
  obtain ⟨row, hrow, hvalue⟩ := Option.bind_eq_some_iff.mp hlookup
  obtain ⟨e, hentry, he⟩ := logprobEntry_ok hrow hvalue htop
  exact ⟨e, hentry, row, hrow, he⟩

theorem promptItems_ok {tokens : List Nat} {queries : List (Nat × Nat)}
    (h : tokens ≠ [] → ∃ values, selected = some values ∧ ∀ (i : Nat) query,
      queries[i]? = some query → ∃ item, values[selectedIdx + i]? = some item ∧
        lookup logprobs query = some item) :
    ∃ items, promptItems selected selectedIdx tokens = .ok items ∧
      ∀ (i : Nat) query, i < tokens.length → queries[i]? = some query →
        ∃ item, items[i]? = some item ∧ lookup logprobs query = some item := by
  unfold promptItems
  by_cases hnil : tokens = []
  · rw [if_pos hnil, hnil]
    exact ⟨[], rfl, fun i query hi => absurd hi (Nat.not_lt_zero i)⟩
  · obtain ⟨values, rfl, hvalues⟩ := h hnil
    rw [if_neg hnil]
    exact ⟨_, rfl, fun i query hi hquery => slice_values hvalues hi hquery⟩

theorem getPromptLogprob_ok (h : GroupReady g result)
    (hrows : g.promptLogprobIndices = List.range' topIdx g.promptLogprobIndices.length)
    (hvalues : ∀ num, g.isPrompt = true → g.samplingParams.promptLogprobs = some num →
      promptQueries g ≠ [] →
        ValuesAt topk logprobs (promptQueries g) largest selectedIdx num selected top) :
    ∃ entries, getPromptLogprobIfNeeded g selected top selectedIdx topIdx =
        .ok (entries, topIdx + g.promptLogprobIndices.length,
          selectedIdx + (promptQueries g).length) ∧
      PromptAnswer topk logprobs largest g entries := by
  have hwants : g.wantsPromptLogprobs = (g.isPrompt && g.samplingParams.promptLogprobs.isSome) := rfl
  have hnone : g.wantsPromptLogprobs = false → ∃ entries,
      (.ok (none, topIdx, selectedIdx) : Except Err (Option (List (Option (LogprobDict V))) × _)) =
        .ok (entries, topIdx + g.promptLogprobIndices.length,
          selectedIdx + (promptQueries g).length) ∧
      PromptAnswer topk logprobs largest g entries := by
    intro hw
    rw [promptQueries, if_neg (Bool.eq_false_iff.mp hw), h.noRows hw]
    exact ⟨none, rfl, hw⟩
  rw [getPromptLogprobIfNeeded]
  cases hprompt : g.isPrompt with
  | false =>
    rw [hprompt, Bool.false_and] at hwants
    exact hnone hwants
  | true =>
    cases hnum : g.samplingParams.promptLogprobs with
    | none =>
      rw [hprompt, hnum, Option.isSome_none, Bool.and_false] at hwants
      exact hnone hwants
    | some num =>
      rw [hprompt, hnum, Option.isSome_some, Bool.and_true] at hwants
      obtain ⟨q, d, hq, hd, hbound⟩ := h.prompt hwants
      have hlen := h.rows hwants
      have hqueries : promptQueries g = g.promptLogprobIndices.zip g.nextTokens := if_pos hwants
      have hcount : (promptQueries g).length = g.nextTokens.length := by
        rw [hqueries, List.length_zip, hlen, Nat.min_self]
      have hat : ∀ i token : Nat, g.nextTokens[i]? = some token →
          (promptQueries g)[i]? = some (topIdx + i, token) := by
        intro i token hi
        have hlt := (List.getElem?_eq_some_iff.mp hi).1
        rw [hqueries, hrows, List.getElem?_zip_eq_some]
        exact ⟨by rw [List.getElem?_range' (by omega), Nat.one_mul], hi⟩
      have hne : g.nextTokens ≠ [] → promptQueries g ≠ [] := fun hne hnil => by
        rw [hnil, List.length_nil] at hcount
        exact hne (List.length_eq_zero_iff.mp hcount.symm)
      obtain ⟨items, hitems, hitem⟩ : ∃ items,
          promptItems selected selectedIdx g.nextTokens = .ok items ∧ ∀ (i : Nat) query,
            i < g.nextTokens.length → (promptQueries g)[i]? = some query →
              ∃ item, items[i]? = some item ∧ lookup logprobs query = some item :=
        promptItems_ok fun hn => (hvalues num hprompt hnum (hne hn)).values
      have hentry : ∀ i token : Nat, g.nextTokens[i]? = some token → ∃ item e,
          items[i]? = some item ∧ logprobEntry token item num top (topIdx + i) = .ok e ∧
            IsEntry topk logprobs largest num (topIdx + i) token e := by
        intro i token hi
        have hlt := (List.getElem?_eq_some_iff.mp hi).1
        obtain ⟨item, hget, hlookup⟩ := hitem i _ hlt (hat i token hi)
        have hbest := (hvalues num hprompt hnum (hne (List.ne_nil_of_length_pos (by omega)))).best
        obtain ⟨e, he, hise⟩ := isEntry_of_lookup hlookup hbest
        exact ⟨item, e, hget, he, hise⟩
      have hpairs : ((g.nextTokens.zip g.promptLogprobOutputIndices).map Prod.snd) =
          g.promptLogprobOutputIndices :=
        List.map_snd_zip (by rw [hlen, h.outputs])
      have hpair : ∀ i token o : Nat,
          (g.nextTokens.zip g.promptLogprobOutputIndices)[i]? = some (token, o) ↔
            g.nextTokens[i]? = some token ∧ g.promptLogprobOutputIndices[i]? = some o :=
        fun i token o => List.getElem?_zip_eq_some
      obtain ⟨out, hout, houtlen, hin, hother⟩ := promptEntries_ok
        (fun i => logprobs[topIdx + i]?.bind fun row =>
          g.nextTokens[i]?.bind (tokenEntry topk largest num row))
        (hpairs.symm ▸ h.nodup : ((g.nextTokens.zip g.promptLogprobOutputIndices).map Prod.snd).Nodup)
        fun i token o hi => by
          obtain ⟨htoken, ho⟩ := (hpair i token o).mp hi
          obtain ⟨item, e, hget, he, row, hrow, hise⟩ := hentry i token htoken
          refine ⟨?_, item, e, hget, he, ?_⟩
          · show o < (List.replicate (fullPromptLogprobLen g q d)
              (none : Option (LogprobDict V))).length
            rw [List.length_replicate]
            exact hbound o (List.mem_of_getElem? ho)
          · rw [hrow, htoken]
            exact hise
      rw [hpairs] at hother
      rw [List.length_replicate] at houtlen
      refine ⟨some out, ?_, num, q, d, hprompt, hnum, hq, hd, houtlen, ?_, fun o ho hmem => ?_⟩
      · rw [hq]
        refine bind_eq_ok.mpr ⟨d, hd, bind_eq_ok.mpr ⟨_, h.next hwants, guardNot_bind_eq_ok.mpr
          ⟨?_, bind_eq_ok.mpr ⟨items, hitems, bind_eq_ok.mpr ⟨_, hout, ?_⟩⟩⟩⟩⟩
        · rw [not_or, not_not, not_not]
          exact ⟨hlen, h.outputs⟩
        · rw [List.length_zip, hlen, h.outputs, Nat.min_self, hcount, hlen, h.outputs]
          rfl
      · intro i r o token hr ho htoken
        obtain ⟨-, e, -, -, hise⟩ := hentry i token htoken
        have hlt := (List.getElem?_eq_some_iff.mp hr).1
        rw [hrows, List.getElem?_range' hlt, Nat.one_mul] at hr
        obtain rfl := Option.some_inj.mp hr
        refine ⟨e, ?_, hise⟩
        rw [hin i token o ((hpair i token o).mpr ⟨htoken, ho⟩)]
        obtain ⟨row, hrow, hise⟩ := hise
        rw [hrow, htoken]
        exact congrArg some hise
      · rw [hother o hmem, List.getElem?_replicate, if_pos ho]

theorem getSampledLogprob_ok (h : GroupReady g result)
    (hrows : g.sampleIndices = List.range' topIdx g.sampleIndices.length)
    (hvalues : ∀ num, g.doSample = true → g.samplingParams.logprobs = some num →
      ValuesAt topk logprobs (sampleQueries g result) largest selectedIdx num selected top) :
    ∃ entries, getSampledLogprobIfNeeded g result selected top selectedIdx topIdx =
        .ok (entries, topIdx + g.sampleIndices.length,
          selectedIdx + (sampleQueries g result).length) ∧
      SampleAnswer topk logprobs largest g result entries := by
  rw [getSampledLogprobIfNeeded, sampleQueries]
  cases hdo : g.doSample with
  | false =>
    have hnil : g.sampleIndices = [] :=
      List.length_eq_zero_iff.mp (Nat.le_zero.mp (Nat.not_lt.mp (of_decide_eq_false hdo)))
    rw [if_neg Bool.false_ne_true, if_neg Bool.false_ne_true, hnil]
    refine ⟨[], rfl, fun _ => rfl, fun hs => ?_, fun num hs => ?_⟩
    · cases hdo.symm.trans hs
    · cases hdo.symm.trans hs
  | true =>
    obtain ⟨hne, hlen, hparents⟩ := h.sampled hdo
    have hindices := h.sampleIndices hdo
    have hcount : ((result.2.map (g.sampleIndices.headD 0 + ·)).zip result.1).length =
        result.1.length := by
      rw [List.length_zip, List.length_map, hlen, Nat.min_self]
    rw [if_pos rfl, if_pos rfl, hcount, hindices]
    have hsome : ∃ entries, sampledLogprobs g result selected top selectedIdx topIdx = .ok entries ∧
        SampleAnswer topk logprobs largest g result entries := by
      rw [sampledLogprobs]
      cases hnum : g.samplingParams.logprobs with
      | none =>
        refine ⟨_, rfl, fun hs => ?_, fun _ _ => rfl, fun num _ hs => ?_⟩
        · cases hdo.symm.trans hs
        · cases hnum.symm.trans hs
      | some num =>
        obtain ⟨⟨values, rfl, hget⟩, hbest⟩ := hvalues num hdo hnum
        have hhead : g.sampleIndices.headD 0 = topIdx := by
          obtain ⟨n, hn⟩ := Nat.exists_eq_succ_of_ne_zero (of_decide_eq_true hdo).ne'
          rw [hrows, hn]
          rfl
        have hentry : ∀ i token parentId : Nat, (result.1.zip result.2)[i]? = some (token, parentId) →
            ∃ item e, (slice values selectedIdx (selectedIdx + result.1.length))[i]? = some item ∧
              logprobEntry token item num top (topIdx + parentId) = .ok e ∧
              IsEntry topk logprobs largest num (topIdx + parentId) token e := by
          intro i token parentId hi
          obtain ⟨htoken, hparent⟩ := List.getElem?_zip_eq_some.mp hi
          have hlt := (List.getElem?_eq_some_iff.mp htoken).1
          have hquery : (sampleQueries g result)[i]? = some (topIdx + parentId, token) := by
            rw [sampleQueries, if_pos hdo, hhead, List.getElem?_zip_eq_some, List.getElem?_map,
              hparent]
            exact ⟨rfl, htoken⟩
          obtain ⟨item, hitem, hlookup⟩ := slice_values hget hlt hquery
          obtain ⟨e, he, hise⟩ := isEntry_of_lookup hlookup hbest
          exact ⟨item, e, hitem, he, hise⟩
        obtain ⟨out, hout, houtlen, hin⟩ := sampleEntries_ok
          (fun i => (result.1.zip result.2)[i]?.bind fun p =>
            logprobs[topIdx + p.2]?.bind fun row => tokenEntry topk largest num row p.1)
          fun i token parentId hi => by
            obtain ⟨item, e, hitem, he, row, hrow, hise⟩ := hentry i token parentId hi
            refine ⟨item, e, hitem, he, ?_⟩
            rw [hi]
            show logprobs[topIdx + parentId]?.bind _ = _
            rw [hrow]
            exact hise
        rw [List.length_zip, hlen, Nat.min_self] at houtlen hin
        refine ⟨out, hout, fun hs => ?_, fun _ hs => ?_, fun num' _ hs => ?_⟩
        · cases hdo.symm.trans hs
        · cases hnum.symm.trans hs
        · obtain rfl := Option.some_inj.mp (hnum.symm.trans hs)
          refine ⟨houtlen, fun i token parentId htoken hparent => ?_⟩
          have hpair : (result.1.zip result.2)[i]? = some (token, parentId) :=
            List.getElem?_zip_eq_some.mpr ⟨htoken, hparent⟩
          obtain ⟨-, e, -, -, hise⟩ := hentry i token parentId hpair
          have hlt := hparents parentId (List.mem_of_getElem? hparent)
          refine ⟨topIdx + parentId, e, ?_, ?_, hise⟩
          · rw [hrows, List.getElem?_range' (by omega), Nat.one_mul]
          · obtain ⟨row, hrow, hise⟩ := hise
            rw [hin i (List.getElem?_eq_some_iff.mp htoken).1, hpair]
            show logprobs[topIdx + parentId]?.bind _ = _
            rw [hrow]
            exact hise
    obtain ⟨entries, hentries, hanswer⟩ := hsome
    exact ⟨entries, guardNot_bind_eq_ok.mpr ⟨hne, bind_eq_ok.mpr ⟨entries, hentries, rfl⟩⟩, hanswer⟩

theorem ValuesAt.left {queries₁ queries₂ : List (Nat × Nat)} {num : Nat}
    (h : ValuesAt topk logprobs (queries₁ ++ queries₂) largest selectedIdx num selected top) :
    ValuesAt topk logprobs queries₁ largest selectedIdx num selected top := by
  obtain ⟨⟨values, hsome, hvalues⟩, hbest⟩ := h
  exact ⟨⟨values, hsome, fun i query hi => hvalues i query (getElem?_append_some hi _)⟩, hbest⟩

theorem ValuesAt.right {queries₁ queries₂ : List (Nat × Nat)} {num : Nat}
    (h : ValuesAt topk logprobs (queries₁ ++ queries₂) largest selectedIdx num selected top) :
    ValuesAt topk logprobs queries₂ largest (selectedIdx + queries₁.length) num selected top := by
  obtain ⟨⟨values, hsome, hvalues⟩, hbest⟩ := h
  refine ⟨⟨values, hsome, fun i query hi => ?_⟩, hbest⟩
  rw [Nat.add_assoc]
  refine hvalues (queries₁.length + i) query ?_
  rw [List.getElem?_append_right (Nat.le_add_right _ _), Nat.add_sub_cancel_left, hi]

/-- The loop over the groups. The cursors are at the first row and at the first value of the groups
that are left. -/
theorem logprobsLoop_ok {items : List (SequenceGroupToSample × SampleResult)} {n : Nat}
    (h : ∀ p ∈ items, GroupReady p.1 p.2)
    (hrows : items.flatMap (fun p => p.1.rows) = List.range' topIdx n)
    (hvalues : ∀ before p after, items = before ++ p :: after → queries p ≠ [] →
      ∀ num, Requests p.1 num → ValuesAt topk logprobs (queries p) largest
        (selectedIdx + (before.flatMap queries).length) num selected top) :
    ∃ answers, logprobsLoop selected top items selectedIdx topIdx = .ok answers ∧
      List.Forall₂ (fun p answer => PromptAnswer topk logprobs largest p.1 answer.1 ∧
        SampleAnswer topk logprobs largest p.1 p.2 answer.2) items answers := by
  induction items generalizing topIdx selectedIdx n with
  | nil => exact ⟨[], rfl, .nil⟩
  | cons p items ih =>
    obtain ⟨g, result⟩ := p
    obtain ⟨hg, hitems⟩ := List.forall_mem_cons.mp h
    obtain ⟨-, hfirst, hrest⟩ := Ragged.range'_cons hrows
    rw [SequenceGroupToSample.rows, List.length_append] at hfirst hrest
    dsimp only at hg hfirst hrest
    obtain ⟨m, -, hprompt, hsample⟩ := List.range'_eq_append_iff.mp hfirst.symm
    have hm : m = g.promptLogprobIndices.length := by rw [hprompt, List.length_range']
    subst hm
    rw [Nat.mul_one, Nat.add_sub_cancel_left] at hsample
    have hself := hvalues [] (g, result) items rfl
    rw [List.flatMap_nil, List.length_nil, Nat.add_zero] at hself
    obtain ⟨promptLogprobs, hpromptRun, hpromptAnswer⟩ := getPromptLogprob_ok hg hprompt
      fun num hp hn hne => (hself (fun hnil => hne (List.append_eq_nil_iff.mp hnil).1) num
        (.inl ⟨hp, hn⟩)).left
    obtain ⟨entries, hsampleRun, hsampleAnswer⟩ := getSampledLogprob_ok hg hsample
      fun num hs hn => (hself (fun hnil => by
        obtain ⟨hne, hlen, -⟩ := hg.sampled hs
        have hnil' := (List.append_eq_nil_iff.mp hnil).2
        rw [sampleQueries, if_pos hs, List.zip_eq_nil_iff, List.map_eq_nil_iff,
          ← List.length_eq_zero_iff, hlen, List.length_eq_zero_iff, or_self] at hnil'
        exact hne hnil') num (.inr ⟨hs, hn⟩)).right
    rw [← Nat.add_assoc] at hrest
    have hcount : (queries (g, result)).length =
        (promptQueries g).length + (sampleQueries g result).length := List.length_append
    obtain ⟨answers, hrun, hanswers⟩ := ih hitems hrest fun before p after heq hne num hn => by
      have hval := hvalues ((g, result) :: before) p after (by rw [heq, List.cons_append]) hne num hn
      rw [List.flatMap_cons, List.length_append, hcount, ← Nat.add_assoc, ← Nat.add_assoc] at hval
      exact hval
    refine ⟨(promptLogprobs, entries) :: answers, ?_, .cons ⟨hpromptAnswer, hsampleAnswer⟩ hanswers⟩
    exact bind_eq_ok.mpr ⟨_, hpromptRun, bind_eq_ok.mpr ⟨_, hsampleRun,
      bind_eq_ok.mpr ⟨_, hrun, rfl⟩⟩⟩

end Group

/-- `get_logprobs`, for groups whose rows follow each other. -/
theorem getLogprobs_ok {groups : List SequenceGroupToSample} {results : List SampleResult}
    {vocab : Nat} (hlen : results.length = groups.length)
    (h : ∀ p ∈ groups.zip results, GroupReady p.1 p.2)
    (hrows : groups.flatMap SequenceGroupToSample.rows = List.range logprobs.length)
    (hlookup : ∀ p ∈ groups.zip results, ∀ query ∈ queries p,
      ∃ item, lookup logprobs query = some item)
    (hvocab : ∀ row ∈ logprobs, row.length = vocab)
    (hbound : ∀ p ∈ groups.zip results, ∀ n, Requests p.1 n → n ≤ vocab) :
    ∃ largest answers, getLogprobs topk logprobs groups results = .ok answers ∧
      (∀ p ∈ groups.zip results, ∀ n, Requests p.1 n → n ≤ largest) ∧
      List.Forall₂ (fun p answer => PromptAnswer topk logprobs largest p.1 answer.1 ∧
        SampleAnswer topk logprobs largest p.1 p.2 answer.2) (groups.zip results) answers := by
  obtain ⟨sel, selected, top, largest, hloop, hselected, htop, hvalues⟩ :=
    @selectLoop_values V _ topk logprobs (groups.zip results) vocab h (fun query hq => by
      obtain ⟨p, hp, hq⟩ := List.mem_flatMap.mp hq
      exact hlookup p hp query hq) hvocab hbound
  have hfst : (groups.zip results).map Prod.fst = groups := List.map_fst_zip hlen.ge
  have hrows' : (groups.zip results).flatMap (fun p => p.1.rows) =
      List.range' 0 logprobs.length := by
    rw [← List.range_eq_range', ← hrows]
    conv_rhs => rw [← hfst]
    rw [List.flatMap_map]
  obtain ⟨answers, hrun, hanswers⟩ : ∃ answers,
      logprobsLoop selected top (groups.zip results) 0 0 = .ok answers ∧
        List.Forall₂ (fun p answer => PromptAnswer topk logprobs largest p.1 answer.1 ∧
          SampleAnswer topk logprobs largest p.1 p.2 answer.2) (groups.zip results) answers :=
    logprobsLoop_ok h hrows' fun before p after heq hne num hn => by
      have hmem : p ∈ groups.zip results := by
        rw [heq]
        exact List.mem_append_right before List.mem_cons_self
      have hne' : (groups.zip results).flatMap queries ≠ [] := fun hnil =>
        hne (List.flatMap_eq_nil_iff.mp hnil p hmem)
      obtain ⟨values, hsome, hmap⟩ := hvalues.values hne' ⟨num, p, hmem, hn⟩
      refine ⟨⟨values, hsome, fun i query hi => ?_⟩, fun hpos =>
        hvalues.best hne' ⟨num, ⟨p, hmem, hn⟩, hpos⟩⟩
      obtain ⟨item, hitem⟩ := hlookup p hmem query (List.mem_of_getElem? hi)
      refine ⟨item, ?_, hitem⟩
      have hget : (values.map some)[0 + (before.flatMap queries).length + i]? = some (some item) := by
        rw [hmap, heq, List.getElem?_map, List.flatMap_append, Nat.zero_add,
          List.getElem?_append_right (Nat.le_add_right _ _), Nat.add_sub_cancel_left,
          List.flatMap_cons, getElem?_append_some hi, Option.map_some, hitem]
      rw [List.getElem?_map] at hget
      obtain ⟨v, hv, heq'⟩ := Option.map_eq_some_iff.mp hget
      rw [hv, heq']
  exact ⟨largest, answers, bind_eq_ok.mpr ⟨sel, hloop, bind_eq_ok.mpr ⟨selected, hselected,
    bind_eq_ok.mpr ⟨top, htop, hrun⟩⟩⟩, fun p hp n hn => hvalues.le n ⟨p, hp, hn⟩, hanswers⟩

end Bi100.Sampling
