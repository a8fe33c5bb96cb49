import Bi100.Namespace.Unambiguous
import Mathlib.Data.List.Perm.Basic

/-!
# Streams are equal if and only if the values are

- `stream_splits`: a stream determines its value, whatever follows.
- `stream_congr`: values that are the same have the same stream if `repr` tells the keys of a
  mapping apart. Without that the order of the entries shows: `nan_keys_order`.
-/

namespace Bi100

open Py Obj

variable {repr : Obj → String}

/-! ## From the stream to the value -/

theorem tag_eq_of_streams {v w : Obj} {s t x y : Bytes} (hv : v.PlainType) (hw : w.PlainType)
    (hs : hashMultiModalObj repr v = .ok s) (ht : hashMultiModalObj repr w = .ok t)
    (h : s ++ x = t ++ y) :
    v.tag = w.tag ∧ ∃ r r', payload repr v = .ok r ∧ payload repr w = .ok r' ∧
      r ++ x = r' ++ y := by
  obtain ⟨r, hr, rfl⟩ := stream_ok repr hv hs
  obtain ⟨r', hr', rfl⟩ := stream_ok repr hw ht
  rw [List.append_assoc, List.append_assoc] at h
  obtain ⟨htag, hrest⟩ := tag_prefix h
  exact ⟨htag, r, r', hr, hr', hrest⟩

theorem encodeStr_injective {a b : String} (h : encodeStr a = encodeStr b) : a = b := by
  apply String.toByteArray_inj.mp
  apply ByteArray.ext
  exact Array.toList_inj.mp h

/-- A packed length and as many bytes. -/
theorem sized_prefix {a b r r' x y : Bytes}
    (hr : (do let n ← packUnsigned 8 a.length; pure (n ++ a)) = .ok r)
    (hr' : (do let n ← packUnsigned 8 b.length; pure (n ++ b)) = .ok r')
    (h : r ++ x = r' ++ y) : a = b ∧ x = y := by
  obtain ⟨n, hn, hr⟩ := bind_eq_ok.mp hr
  obtain ⟨m, hm, hr'⟩ := bind_eq_ok.mp hr'
  obtain rfl := pure_eq_ok.mp hr
  obtain rfl := pure_eq_ok.mp hr'
  rw [List.append_assoc, List.append_assoc] at h
  obtain ⟨hlen, hrest⟩ := packUnsigned_prefix hn hm h
  exact List.append_inj hrest hlen

/-- A packed number of parts and the parts. -/
theorem counted_prefix {α : Type} {R : α → α → Prop} {f : α → Except Err Bytes} {xs ys : List α}
    {k l : Nat} {r r' x y : Bytes} (hk : xs.length = k) (hl : ys.length = l)
    (hxs : ∀ a ∈ xs, Begins (f a)) (hys : ∀ b ∈ ys, Begins (f b))
    (hsplits : ∀ a ∈ xs, ∀ b ∈ ys, Splits R f a b)
    (hr : (do let n ← packUnsigned 8 k; let d ← concatParts (xs.map f); pure (n ++ d)) = .ok r)
    (hr' : (do let n ← packUnsigned 8 l; let d ← concatParts (ys.map f); pure (n ++ d)) = .ok r')
    (hx : Ends x) (hy : Ends y) (h : r ++ x = r' ++ y) : List.Forall₂ R xs ys ∧ x = y := by
  obtain ⟨n, hn, hr⟩ := bind_eq_ok.mp hr
  obtain ⟨d, hd, hr⟩ := bind_eq_ok.mp hr
  obtain ⟨m, hm, hr'⟩ := bind_eq_ok.mp hr'
  obtain ⟨e, he, hr'⟩ := bind_eq_ok.mp hr'
  obtain rfl := pure_eq_ok.mp hr
  obtain rfl := pure_eq_ok.mp hr'
  rw [List.append_assoc, List.append_assoc] at h
  obtain ⟨hlen, hrest⟩ := packUnsigned_prefix hn hm h
  exact concat_splits (by rw [hk, hl, hlen]) hxs hys hsplits d e x y hd he hx hy hrest

/-- The entries in stream order are matched one by one; in the order of `es` they are matched
with a permutation of `fs`. -/
theorem same_map_of_sorted {es fs : List (Obj × Obj)} (hes : (map es).PlainType)
    (hfs : (map fs).PlainType)
    (h : List.Forall₂ (fun p q : Obj × Obj => Same p.1 q.1 ∧ Same p.2 q.2)
      (sortedEntries repr es) (sortedEntries repr fs)) : Same (.map es) (.map fs) := by
  obtain ⟨gs, hgs, hperm⟩ := List.perm_comp_forall₂ (sortedEntries_perm repr es).symm h
  have hperm := hperm.trans (sortedEntries_perm repr fs)
  obtain ⟨hlen, hzip⟩ := List.forall₂_iff_zip.mp hgs
  refine Same.map hlen (fun p q hpq => ?_) (fun p q hpq => (hzip hpq).2) hperm
  have hq := hperm.mem_iff.mp (List.of_mem_zip hpq).2
  exact (hzip hpq).1.eq_of_hashable (hes p (List.of_mem_zip hpq).1) (hfs q hq)

theorem same_of_forall₂ {xs ys : List Obj} (h : List.Forall₂ Same xs ys) :
    xs.length = ys.length ∧ ∀ v w, (v, w) ∈ xs.zip ys → Same v w := by
  obtain ⟨hlen, hzip⟩ := List.forall₂_iff_zip.mp h
  exact ⟨hlen, fun v w hvw => hzip hvw⟩

/-- The stream of a plain value determines the value, whatever does not continue an integer
follows. -/
theorem stream_splits (v w : Obj) (hv : v.Plain) (hw : w.Plain) :
    Splits Same (hashMultiModalObj repr) v w := by
  induction v using Obj.nested generalizing w with
  | h v ih =>
  intro s t x y hs ht hx hy heq
  obtain ⟨htag, r, r', hr, hr', heq⟩ := tag_eq_of_streams hv.self hw.self hs ht heq
  have hbegins : ∀ u : Obj, u.Plain → Begins (hashMultiModalObj repr u) :=
    fun u hu => stream_begins repr hu.self
  cases v with
  | tensor | image | other => exact hv.self.elim
  | none =>
    cases w with
    | none =>
      obtain rfl := pure_eq_ok.mp hr
      obtain rfl := pure_eq_ok.mp hr'
      exact ⟨.none, heq⟩
    | other => exact hw.self.elim
    | _ => exact nomatch htag
  | bool b =>
    cases w with
    | bool c =>
      obtain rfl := pure_eq_ok.mp hr
      obtain rfl := pure_eq_ok.mp hr'
      cases b <;> cases c
      · exact ⟨.bool false, List.append_cancel_left heq⟩
      · exact absurd (List.cons.inj heq).1 (by decide)
      · exact absurd (List.cons.inj heq).1 (by decide)
      · exact ⟨.bool true, List.append_cancel_left heq⟩
    | _ => exact nomatch htag
  | int n =>
    cases w with
    | int m =>
      obtain rfl := pure_eq_ok.mp hr
      obtain rfl := pure_eq_ok.mp hr'
      obtain ⟨rfl, hxy⟩ := digits_prefix hx hy heq
      exact ⟨.int n, hxy⟩
    | _ => exact nomatch htag
  | float a =>
    cases w with
    | float b =>
      obtain rfl := pure_eq_ok.mp hr
      obtain rfl := pure_eq_ok.mp hr'
      obtain ⟨hab, hxy⟩ := List.append_inj heq (by rw [bigEndian_length, bigEndian_length])
      have hbits := bigEndian_injective a.toNat_lt b.toNat_lt hab
      obtain rfl := UInt64.toNat.inj hbits
      exact ⟨.float a, hxy⟩
    | _ => exact nomatch htag
  | str a =>
    cases w with
    | str b =>
      obtain ⟨hab, hxy⟩ := sized_prefix hr hr' heq
      obtain rfl := encodeStr_injective hab
      exact ⟨.str a, hxy⟩
    | _ => exact nomatch htag
  | bytes a | bytearray a =>
    cases w with
    | bytes b | bytearray b =>
      obtain ⟨rfl, hxy⟩ := sized_prefix hr hr' heq
      exact ⟨.bytes rfl rfl, hxy⟩
    | _ => exact nomatch htag
  | list xs =>
    cases w with
    | list ys =>
      obtain ⟨hsame, hxy⟩ := counted_prefix rfl rfl (fun a ha => hbegins a (hv.child ha))
        (fun b hb => hbegins b (hw.child hb))
        (fun a ha b hb => ih a ha b (hv.child ha) (hw.child hb)) hr hr' hx hy heq
      obtain ⟨hlen, hzip⟩ := same_of_forall₂ hsame
      exact ⟨.list hlen hzip, hxy⟩
    | _ => exact nomatch htag
  | tuple xs =>
    cases w with
    | tuple ys =>
      obtain ⟨hsame, hxy⟩ := counted_prefix rfl rfl (fun a ha => hbegins a (hv.child ha))
        (fun b hb => hbegins b (hw.child hb))
        (fun a ha b hb => ih a ha b (hv.child ha) (hw.child hb)) hr hr' hx hy heq
      obtain ⟨hlen, hzip⟩ := same_of_forall₂ hsame
      exact ⟨.tuple hlen hzip, hxy⟩
    | _ => exact nomatch htag
  | map es =>
    cases w with
    | map fs =>
      have hperm := sortedEntries_perm repr es
      have hperm' := sortedEntries_perm repr fs
      have hsplits : ∀ p ∈ sortedEntries repr es, ∀ q ∈ sortedEntries repr fs,
          Splits (fun p q => Same p.1 q.1 ∧ Same p.2 q.2) (entryStream repr) p q := by
        intro p hp q hq
        have hp := hperm.mem_iff.mp hp
        have hq := hperm'.mem_iff.mp hq
        exact entry_splits repr
          (ih _ (key_mem_children hp) _ (hv.child (key_mem_children hp))
            (hw.child (key_mem_children hq)))
          (ih _ (value_mem_children hp) _ (hv.child (value_mem_children hp))
            (hw.child (value_mem_children hq)))
      obtain ⟨hsorted, hxy⟩ := counted_prefix hperm.length_eq hperm'.length_eq
        (fun p _ => entry_begins repr p) (fun q _ => entry_begins repr q) hsplits hr hr' hx hy heq
      exact ⟨same_map_of_sorted hv.self hw.self hsorted, hxy⟩
    | _ => exact nomatch htag

/-! ## From the value to the stream -/

theorem sorted_reprs (es : List (Obj × Obj)) :
    (sortedEntries repr es).map (fun p => repr p.1) =
      (es.map fun p => repr p.1).insertionSort (· ≤ ·) :=
  List.map_insertionSort (r := fun p q : Obj × Obj => repr p.1 ≤ repr q.1) (s := (· ≤ ·))
    (fun p : Obj × Obj => repr p.1) es fun _ _ _ _ => Iff.rfl

/-- The sorted entries of two mappings with the same keys match one by one. -/
theorem sorted_match {es fs : List (Obj × Obj)} (hkeys : (es.map Prod.fst).Perm (fs.map Prod.fst))
    (hrepr : (es.map fun p => repr p.1).Nodup) :
    List.Forall₂ (fun p q => p ∈ es ∧ q ∈ fs ∧ p.1 = q.1)
      (sortedEntries repr es) (sortedEntries repr fs) := by
  have hreprs : (sortedEntries repr es).map (fun p => repr p.1) =
      (sortedEntries repr fs).map fun p => repr p.1 := by
    rw [sorted_reprs, sorted_reprs]
    have hperm : (es.map fun p => repr p.1).Perm (fs.map fun p => repr p.1) := by
      have := hkeys.map repr
      rwa [List.map_map, List.map_map] at this
    refine List.Perm.eq_of_pairwise' (List.pairwise_insertionSort _ _)
      (List.pairwise_insertionSort _ _) ?_
    exact (List.perm_insertionSort _ _).trans (hperm.trans (List.perm_insertionSort _ _).symm)
  rw [← List.forall₂_eq_eq_eq, List.forall₂_map_left_iff, List.forall₂_map_right_iff] at hreprs
  obtain ⟨hlen, hzip⟩ := List.forall₂_iff_zip.mp hreprs
  refine List.forall₂_iff_zip.mpr ⟨hlen, fun {p q} hpq => ?_⟩
  obtain ⟨hp, hq⟩ := List.of_mem_zip hpq
  have hp := (sortedEntries_perm repr es).mem_iff.mp hp
  have hq := (sortedEntries_perm repr fs).mem_iff.mp hq
  refine ⟨hp, hq, ?_⟩
  -- the key of `q` is that of an entry of `es`, whose `repr` is the same
  obtain ⟨p', hp', hkey⟩ := List.mem_map.mp (hkeys.mem_iff.mpr (List.mem_map_of_mem hq))
  have hrepr' : repr p.1 = repr p'.1 := by rw [hzip hpq, hkey]
  obtain rfl := List.inj_on_of_nodup_map hrepr hp hp' hrepr'
  exact hkey

theorem map_streams_eq {xs ys : List Obj} (hlen : xs.length = ys.length)
    (h : ∀ v w, (v, w) ∈ xs.zip ys → hashMultiModalObj repr v = hashMultiModalObj repr w) :
    xs.map (hashMultiModalObj repr) = ys.map (hashMultiModalObj repr) := by
  rw [← List.forall₂_eq_eq_eq, List.forall₂_map_left_iff, List.forall₂_map_right_iff]
  exact List.forall₂_iff_zip.mpr ⟨hlen, fun hvw => h _ _ hvw⟩

theorem mem_zip_of_mem {α : Type} {xs ys : List α} {a : α} (hlen : xs.length = ys.length)
    (ha : a ∈ xs) : ∃ b, (a, b) ∈ xs.zip ys := by
  obtain ⟨i, hi, rfl⟩ := List.getElem_of_mem ha
  have hz : i < (xs.zip ys).length := by
    rw [List.length_zip]
    omega
  exact ⟨ys[i], List.getElem_zip (h := hz) ▸ List.getElem_mem hz⟩

/-- Values that are the same have the same stream. -/
theorem stream_congr {v w : Obj} (h : Same v w) (hv : v.Plain) (hw : w.Plain)
    (hrepr : v.ReprDistinct repr) : hashMultiModalObj repr v = hashMultiModalObj repr w := by
  induction h with
  | none | bool | int | float | str => rfl
  | @bytes v w b hbv hbw =>
    have hbytes : ∀ u : Obj, u.rawBytes? = some b →
        hashMultiModalObj repr u = sized .bytes b.length b := by
      intro u hb
      cases u with
      | bytes c =>
        obtain rfl := Option.some.inj hb
        rw [hashMultiModalObj]
      | bytearray c =>
        obtain rfl := Option.some.inj hb
        rw [hashMultiModalObj]
      | _ => cases hb
    rw [hbytes v hbv, hbytes w hbw]
  | @list xs ys hlen _ ih | @tuple xs ys hlen _ ih =>
    have heq := map_streams_eq hlen fun v w hvw => ih v w hvw (hv.child (List.of_mem_zip hvw).1)
      (hw.child (List.of_mem_zip hvw).2) (hrepr.child (List.of_mem_zip hvw).1)
    rw [hashMultiModalObj, hashMultiModalObj, hashItems_eq, hashItems_eq, heq, hlen]
  | @map es fs gs hlen hzip _ hperm ih =>
    have hkeys : es.map Prod.fst = gs.map Prod.fst := by
      rw [← List.forall₂_eq_eq_eq, List.forall₂_map_left_iff, List.forall₂_map_right_iff]
      exact List.forall₂_iff_zip.mpr ⟨hlen, fun hpq => hzip _ _ hpq⟩
    have hnodup : (gs.map Prod.fst).Nodup := by
      rw [← hkeys]
      exact List.Nodup.of_map repr (by rw [List.map_map]; exact hrepr.self)
    have hentries : (sortedEntries repr es).map (entryStream repr) =
        (sortedEntries repr fs).map (entryStream repr) := by
      rw [← List.forall₂_eq_eq_eq, List.forall₂_map_left_iff, List.forall₂_map_right_iff]
      refine (sorted_match (hkeys ▸ hperm.map _) hrepr.self).imp ?_
      rintro p q ⟨hp, hq, hkey⟩
      -- the partner of `p` in `gs` has its key, and so has `q`
      obtain ⟨q', hpq⟩ := mem_zip_of_mem hlen hp
      obtain rfl := List.inj_on_of_nodup_map hnodup (hperm.mem_iff.mpr hq) (List.of_mem_zip hpq).2
        (hkey.symm.trans (hzip p q' hpq))
      have hvalue := ih p q hpq (hv.child (value_mem_children hp))
        (hw.child (value_mem_children hq)) (hrepr.child (value_mem_children hp))
      rw [entryStream, entryStream, hkey, hvalue]
    rw [hashMultiModalObj, hashMultiModalObj, sorted_hashEntries, sorted_hashEntries, hentries,
      hlen, hperm.length_eq]

/-! ## Injectivity -/

/-- `hrepr` is needed from the values to the streams only. -/
theorem stream_injective {repr : Obj → String} {v w : Obj} (hv : v.Plain) (hw : w.Plain)
    {s t : Bytes} (hs : hashMultiModalObj repr v = .ok s)
    (ht : hashMultiModalObj repr w = .ok t) :
    (s = t → Same v w) ∧ (v.ReprDistinct repr → Same v w → s = t) := by
  constructor
  · rintro rfl
    exact (stream_splits v w hv hw s s [] [] hs ht Ends.nil Ends.nil rfl).1
  · intro hrepr hsame
    have heq := stream_congr hsame hv hw hrepr
    rw [hs, ht] at heq
    exact Except.ok.inj heq

/-- `repr` of the keys below: plain strings, integers and NaN. -/
def keyRepr : Obj → String
  | .str s => "'" ++ s ++ "'"
  | .int n => toString n
  | .float _ => "nan"
  | _ => ""

/-- A payload with an image's bytes, its size and no caption. -/
def payloadBytes : Obj :=
  .map [(.str "size", .tuple [.int 64, .int 48]), (.str "image", .list [.bytes [1, 2], .none])]

/-- The same payload, filled in another order and with a `bytearray`. -/
def payloadBytearray : Obj :=
  .map [(.str "image", .list [.bytearray [1, 2], .none]), (.str "size", .tuple [.int 64, .int 48])]

theorem stream_of_isOk (v : Obj) (h : (hashMultiModalObj keyRepr v).isOk = true) :
    ∃ s, hashMultiModalObj keyRepr v = .ok s := by
  cases hv : hashMultiModalObj keyRepr v with
  | ok s => exact ⟨s, rfl⟩
  | error e =>
    rw [hv] at h
    exact absurd h Bool.false_ne_true

theorem payload_plain : payloadBytes.Plain ∧ payloadBytearray.Plain := by
  simp [Plain, Obj.Hashable, PlainType, hashableType, payloadBytes, payloadBytearray]

theorem payload_reprDistinct : payloadBytes.ReprDistinct keyRepr := by
  have hkeys : keyRepr (.str "size") ≠ keyRepr (.str "image") := by decide +kernel
  simp [ReprDistinct, payloadBytes, hkeys]

theorem stream_injective_payload :
    ∃ s, hashMultiModalObj keyRepr payloadBytes = .ok s ∧
      hashMultiModalObj keyRepr payloadBytearray = .ok s ∧
      Same payloadBytes payloadBytearray := by
  obtain ⟨s, hs⟩ := stream_of_isOk payloadBytes (by decide +kernel)
  have ht : hashMultiModalObj keyRepr payloadBytearray = .ok s := by
    rw [← hs]
    decide +kernel
  have h := stream_injective payload_plain.1 payload_plain.2 hs ht
  have hsame := h.1 rfl
  exact ⟨s, hs, h.2 payload_reprDistinct hsame ▸ ht, hsame⟩

/-- Two mappings whose keys are two NaN values, in two orders. -/
def nanKeys : Obj :=
  .map [(.float 0x7ff8000000000000, .int 1), (.float 0xfff8000000000000, .int 2)]

def nanKeysSwapped : Obj :=
  .map [(.float 0xfff8000000000000, .int 2), (.float 0x7ff8000000000000, .int 1)]

theorem nan_keys_order :
    nanKeys.Plain ∧ nanKeysSwapped.Plain ∧ Same nanKeys nanKeysSwapped ∧
      ∃ s t, hashMultiModalObj keyRepr nanKeys = .ok s ∧
        hashMultiModalObj keyRepr nanKeysSwapped = .ok t ∧ s ≠ t := by
  refine ⟨?_, ?_, ?_, ?_⟩
  · simp [Plain, Obj.Hashable, PlainType, hashableType, nanKeys]
  · simp [Plain, Obj.Hashable, PlainType, hashableType, nanKeysSwapped]
  · refine .map (g := [(.float 0x7ff8000000000000, .int 1), (.float 0xfff8000000000000, .int 2)])
      rfl ?_ ?_ (.swap _ _ _)
    · rintro p q hpq
      simp only [List.zip_cons_cons, List.zip_nil_right, List.mem_cons, Prod.mk.injEq,
        List.not_mem_nil, or_false] at hpq
      rcases hpq with ⟨rfl, rfl⟩ | ⟨rfl, rfl⟩ <;> rfl
    · rintro p q hpq
      simp only [List.zip_cons_cons, List.zip_nil_right, List.mem_cons, Prod.mk.injEq,
        List.not_mem_nil, or_false] at hpq
      rcases hpq with ⟨rfl, rfl⟩ | ⟨rfl, rfl⟩
      · exact .int 1
      · exact .int 2
  · obtain ⟨s, hs⟩ := stream_of_isOk nanKeys (by decide +kernel)
    obtain ⟨t, ht⟩ := stream_of_isOk nanKeysSwapped (by decide +kernel)
    have hne : hashMultiModalObj keyRepr nanKeys ≠ hashMultiModalObj keyRepr nanKeysSwapped := by
      decide +kernel
    refine ⟨s, t, hs, ht, ?_⟩
    rintro rfl
    exact hne (hs.trans ht.symm)

end Bi100
