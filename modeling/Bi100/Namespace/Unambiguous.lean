import Bi100.Namespace.Same
import Mathlib.Data.List.Forall2

/-!
# The stream determines the value

The parts of a stream are tagged or have a packed length, but the digits of an integer have
neither: they end where the next tag begins, or at the end of the stream. So the parsing lemmas
are about two streams with rests that do not begin with a digit (`Ends`).

- `stream_prefix`: two streams with such rests are equal only if the values and the rests are.
- `stream_eq_of_same`: values that differ only in the order of mapping entries and in
  `bytes`/`bytearray` have the same stream, if `repr` tells the keys of each mapping apart.
-/

namespace Bi100

open Py

/-! ## Packed numbers, tags and digits -/

theorem bigEndian_length (width n : Nat) : (bigEndian width n).length = width := by
  simp [bigEndian]

/-- The packed number is read back as a positional number. -/
theorem bigEndian_injective {width n m : Nat} (hn : n < 256 ^ width) (hm : m < 256 ^ width)
    (h : bigEndian width n = bigEndian width m) : n = m := by
  induction width generalizing n m with
  | zero =>
    simp only [pow_zero, Nat.lt_one_iff] at hn hm
    omega
  | succ width ih =>
    have hdrop : ∀ k, bigEndian (width + 1) k =
        UInt8.ofNat (k / 256 ^ width) :: bigEndian width k := by
      intro k
      simp [bigEndian, List.range_succ]
    have hmod : ∀ k, bigEndian width k = bigEndian width (k % 256 ^ width) := by
      intro k
      refine List.map_congr_left fun i hi => ?_
      have hi : i < width := by simpa using hi
      apply UInt8.toNat.inj
      simp only [UInt8.toNat_ofNat']
      rw [show 256 ^ width = 256 ^ i * 256 ^ (width - i) by rw [← pow_add]; congr 1; omega,
        Nat.mod_mul_right_div_self]
      exact (Nat.mod_mod_of_dvd _ ⟨256 ^ (width - i - 1), by rw [← pow_succ']; congr 1; omega⟩).symm
    rw [hdrop, hdrop, List.cons.injEq] at h
    obtain ⟨hhead, htail⟩ := h
    rw [hmod n, hmod m] at htail
    have hpos : 0 < 256 ^ width := Nat.pow_pos (by decide)
    have hlow := ih (Nat.mod_lt _ hpos) (Nat.mod_lt _ hpos) htail
    have hq : ∀ k, k < 256 ^ (width + 1) → k / 256 ^ width < 256 := fun k hk =>
      Nat.div_lt_of_lt_mul (by rw [pow_succ] at hk; exact hk)
    have hhigh : n / 256 ^ width = m / 256 ^ width := by
      have := congrArg UInt8.toNat hhead
      simp only [UInt8.toNat_ofNat'] at this
      rwa [Nat.mod_eq_of_lt (hq n hn), Nat.mod_eq_of_lt (hq m hm)] at this
    rw [← Nat.div_add_mod n (256 ^ width), ← Nat.div_add_mod m (256 ^ width), hhigh, hlow]

theorem packUnsigned_ok {width n : Nat} {b : Bytes} :
    packUnsigned width n = .ok b ↔ n < 256 ^ width ∧ b = bigEndian width n := by
  rw [packUnsigned]
  split
  · next h => simp [pure_eq_ok, h]
  · next h => simp [throw_eq_ok, h]

theorem packUnsigned_prefix {width n m : Nat} {a b x y : Bytes}
    (ha : packUnsigned width n = .ok a) (hb : packUnsigned width m = .ok b)
    (h : a ++ x = b ++ y) : n = m ∧ x = y := by
  obtain ⟨hn, rfl⟩ := packUnsigned_ok.mp ha
  obtain ⟨hm, rfl⟩ := packUnsigned_ok.mp hb
  obtain ⟨hab, hxy⟩ := List.append_inj h (by rw [bigEndian_length, bigEndian_length])
  exact ⟨bigEndian_injective hn hm hab, hxy⟩

/-- No tag is the beginning of another. -/
theorem tag_prefix {t t' : Tag} {x y : Bytes} (h : t.text ++ x = t'.text ++ y) :
    t = t' ∧ x = y := by
  have hall : ∀ t ∈ [Tag.none, .map, .list, .tuple, .str, .bytes, .bool, .int, .float, .tensor,
      .image], ∀ t' ∈ [Tag.none, .map, .list, .tuple, .str, .bytes, .bool, .int, .float, .tensor,
      .image], t.text.isPrefixOf t'.text = true → t = t' := by
    decide +kernel
  have hmem : ∀ t : Tag, t ∈ [Tag.none, .map, .list, .tuple, .str, .bytes, .bool, .int, .float,
      .tensor, .image] := by
    intro t
    cases t <;> decide
  have heq : t = t' := by
    rcases List.prefix_or_prefix_of_prefix (List.prefix_append t.text x)
      (h ▸ List.prefix_append t'.text y) with hp | hp
    · exact hall t (hmem t) t' (hmem t') (List.isPrefixOf_iff_prefix.mpr hp)
    · exact (hall t' (hmem t') t (hmem t) (List.isPrefixOf_iff_prefix.mpr hp)).symm
  subst heq
  exact ⟨rfl, List.append_cancel_left h⟩

/-- A rest of the stream that does not continue an integer. -/
def Ends (x : Bytes) : Prop := ∀ b ∈ x.head?, ¬ (b = 45 ∨ (48 ≤ b ∧ b ≤ 57))

theorem Ends.nil : Ends [] := fun _ h => nomatch h

theorem letter_ends {b : UInt8} {l : Bytes} (hb : 97 ≤ b) : Ends (b :: l) := by
  intro c hc
  obtain rfl := Option.some.inj hc
  rintro (rfl | ⟨-, hle⟩)
  · exact absurd hb (by decide)
  · exact absurd (UInt8.le_trans hb hle) (by decide)

theorem tag_ends (t : Tag) (x : Bytes) : Ends (t.text ++ x) := by
  cases t <;> exact letter_ends (by decide +kernel)

/-- ASCII characters are read back from their bytes. -/
theorem ascii_injective {cs ds : List Char} (hc : ∀ c ∈ cs, c.toNat < 128)
    (hd : ∀ d ∈ ds, d.toNat < 128) (h : ascii cs = ascii ds) : cs = ds := by
  have hback : ∀ l : List Char, (∀ c ∈ l, c.toNat < 128) →
      (ascii l).map (fun b => Char.ofNat b.toNat) = l := by
    intro l hl
    rw [ascii, List.map_map]
    refine (List.map_congr_left fun c hc => ?_).trans (List.map_id l)
    have := hl c hc
    simp only [Function.comp_apply, UInt8.toNat_ofNat', id_eq]
    rw [Nat.mod_eq_of_lt (by omega), Char.ofNat_toNat]
  rw [← hback cs hc, h, hback ds hd]

/-- The characters of a number. -/
theorem toList_nonneg (m : Nat) : (toString (Int.ofNat m)).toList = Nat.toDigits 10 m :=
  Nat.toList_repr

theorem toList_neg (m : Nat) :
    (toString (Int.negSucc m)).toList = '-' :: Nat.toDigits 10 (m + 1) := by
  show ("-" ++ Nat.repr (m + 1)).toList = _
  rw [String.toList_append, Nat.toList_repr]
  rfl

theorem minus_not_digit (m : Nat) : '-' ∉ Nat.toDigits 10 m := fun h =>
  absurd (Nat.isDigit_of_mem_toDigits (by decide) (by decide) h) (by decide)

theorem toDigits_injective {n m : Nat} (h : Nat.toDigits 10 n = Nat.toDigits 10 m) : n = m := by
  have := congrArg (Nat.ofDigitChars 10 · 0) h
  simpa [Nat.ofDigitChars_ten_toDigits] using this

theorem digits_injective {n m : Int} (h : (toString n).toList = (toString m).toList) : n = m := by
  cases n with
  | ofNat n =>
    cases m with
    | ofNat m =>
      rw [toList_nonneg, toList_nonneg] at h
      exact congrArg Int.ofNat (toDigits_injective h)
    | negSucc m =>
      rw [toList_nonneg, toList_neg] at h
      exact absurd (h ▸ List.mem_cons_self) (minus_not_digit n)
  | negSucc n =>
    cases m with
    | ofNat m =>
      rw [toList_nonneg, toList_neg] at h
      exact absurd (h ▸ List.mem_cons_self) (minus_not_digit m)
    | negSucc m =>
      rw [toList_neg, toList_neg, List.cons.injEq] at h
      have := toDigits_injective h.2
      omega

theorem digit_range {c : Char} (h : c.isDigit = true) : 48 ≤ c.toNat ∧ c.toNat ≤ 57 := by
  rw [Char.isDigit, Bool.and_eq_true, decide_eq_true_iff, decide_eq_true_iff] at h
  exact ⟨h.1, h.2⟩

theorem ofNat_range {k : Nat} (h : 48 ≤ k ∧ k ≤ 57) :
    48 ≤ UInt8.ofNat k ∧ UInt8.ofNat k ≤ 57 := by
  rw [UInt8.le_iff_toNat_le, UInt8.le_iff_toNat_le, UInt8.toNat_ofNat']
  rw [Nat.mod_eq_of_lt (by omega)]
  exact h

/-- The bytes of a number are digits and the minus sign. -/
theorem digit_bytes (n : Int) :
    ∀ b ∈ ascii (toString n).toList, b = 45 ∨ (48 ≤ b ∧ b ≤ 57) := by
  intro b hb
  obtain ⟨c, hc, rfl⟩ := List.mem_map.mp hb
  have hdigit : ∀ m, c ∈ Nat.toDigits 10 m → 48 ≤ c.toNat ∧ c.toNat ≤ 57 := fun m hm =>
    digit_range (Nat.isDigit_of_mem_toDigits (by decide) (by decide) hm)
  cases n with
  | ofNat m =>
    rw [toList_nonneg] at hc
    exact .inr (ofNat_range (hdigit m hc))
  | negSucc m =>
    rw [toList_neg, List.mem_cons] at hc
    rcases hc with rfl | hc
    · exact .inl (by decide)
    · exact .inr (ofNat_range (hdigit (m + 1) hc))

theorem ascii_digits_injective {n m : Int}
    (h : ascii (toString n).toList = ascii (toString m).toList) : n = m := by
  have hsmall : ∀ (k : Int), ∀ c ∈ (toString k).toList, c.toNat < 128 := by
    intro k c hc
    cases k with
    | ofNat k =>
      rw [toList_nonneg] at hc
      have := digit_range (Nat.isDigit_of_mem_toDigits (by decide) (by decide) hc)
      omega
    | negSucc k =>
      rw [toList_neg, List.mem_cons] at hc
      rcases hc with rfl | hc
      · decide
      · have := digit_range (Nat.isDigit_of_mem_toDigits (by decide) (by decide) hc)
        omega
  exact digits_injective (ascii_injective (hsmall n) (hsmall m) h)

/-- A number ends where the rest does not continue it. -/
theorem digits_prefix {n m : Int} {x y : Bytes} (hx : Ends x) (hy : Ends y)
    (h : ascii (toString n).toList ++ x = ascii (toString m).toList ++ y) : n = m ∧ x = y := by
  have htake : ∀ (k : Int) (z : Bytes), Ends z →
      (ascii (toString k).toList ++ z).takeWhile (fun b => b = 45 ∨ (48 ≤ b ∧ b ≤ 57)) =
        ascii (toString k).toList := by
    intro k z hz
    rw [List.takeWhile_append_of_pos fun b hb => decide_eq_true (digit_bytes k b hb)]
    cases z with
    | nil => simp
    | cons b z =>
      rw [List.takeWhile_cons_of_neg (by simpa using hz b rfl), List.append_nil]
  have hdigits := congrArg (List.takeWhile (fun b => b = 45 ∨ (48 ≤ b ∧ b ≤ 57))) h
  rw [htake n x hx, htake m y hy] at hdigits
  rw [hdigits] at h
  exact ⟨ascii_digits_injective hdigits, List.append_cancel_left h⟩

/-! ## The parts of a value -/

section

variable (repr : Obj → String)

/-- The stream of a mapping entry. -/
def entryStream (p : Obj × Obj) : Except Err Bytes := do
  let k ← hashMultiModalObj repr p.1
  let v ← hashMultiModalObj repr p.2
  pure (ascii "k|".toList ++ k ++ ascii "v|".toList ++ v)

/-- The entries in the order of the stream. -/
def sortedEntries (entries : List (Obj × Obj)) : List (Obj × Obj) :=
  entries.insertionSort fun p q => repr p.1 ≤ repr q.1

theorem hashItems_eq (items : List Obj) :
    hashItems repr items = items.map (hashMultiModalObj repr) := by
  induction items with
  | nil => rfl
  | cons item rest ih => rw [hashItems, ih, List.map_cons]

theorem hashEntries_eq (entries : List (Obj × Obj)) :
    hashEntries repr entries = entries.map fun p => (repr p.1, entryStream repr p) := by
  induction entries with
  | nil => rfl
  | cons p rest ih => rw [hashEntries, ih, List.map_cons, entryStream]

theorem sorted_hashEntries (entries : List (Obj × Obj)) :
    ((hashEntries repr entries).insertionSort keyLe).map Prod.snd =
      (sortedEntries repr entries).map (entryStream repr) := by
  have hsort := List.map_insertionSort (r := fun p q => repr p.1 ≤ repr q.1) (s := keyLe)
    (fun p : Obj × Obj => (repr p.1, entryStream repr p)) entries fun a _ b _ => Iff.rfl
  rw [hashEntries_eq, ← hsort, List.map_map]
  rfl

theorem sortedEntries_perm (entries : List (Obj × Obj)) :
    (sortedEntries repr entries).Perm entries :=
  List.perm_insertionSort _ entries

/-- The tag that begins the stream of a plain value. -/
def Obj.tag : Obj → Tag
  | .none => .none
  | .bool _ => .bool
  | .int _ => .int
  | .float _ => .float
  | .str _ => .str
  | .bytes _ => .bytes
  | .bytearray _ => .bytes
  | .list _ => .list
  | .tuple _ => .tuple
  | .map _ => .map
  | .tensor .. => .tensor
  | .image .. => .image
  | .other => .none

/-- What follows the tag of a plain value. -/
def payload : Obj → Except Err Bytes
  | .none => pure []
  | .bool b => pure (ascii (if b then ['1'] else ['0']))
  | .int n => pure (ascii (toString n).toList)
  | .float bits => pure (bigEndian 8 bits.toNat)
  | .str s => do
    let n ← packUnsigned 8 (encodeStr s).length
    pure (n ++ encodeStr s)
  | .bytes b | .bytearray b => do
    let n ← packUnsigned 8 b.length
    pure (n ++ b)
  | .list items | .tuple items => do
    let n ← packUnsigned 8 items.length
    let data ← concatParts (items.map (hashMultiModalObj repr))
    pure (n ++ data)
  | .map entries => do
    let n ← packUnsigned 8 entries.length
    let data ← concatParts ((sortedEntries repr entries).map (entryStream repr))
    pure (n ++ data)
  | _ => throw .structError

theorem stream_eq_payload {v : Obj} (hv : v.PlainType) :
    hashMultiModalObj repr v = (payload repr v).map (v.tag.text ++ ·) := by
  cases v with
  | tensor | image | other => exact hv.elim
  | list items | tuple items =>
    rw [hashMultiModalObj, payload, hashItems_eq]
    rcases packUnsigned 8 items.length with _ | n
    · rfl
    rcases concatParts (items.map (hashMultiModalObj repr)) with _ | data
    · rfl
    · show Except.ok _ = Except.ok _
      rw [List.append_assoc]
      rfl
  | map entries =>
    rw [hashMultiModalObj, payload, sorted_hashEntries]
    rcases packUnsigned 8 entries.length with _ | n
    · rfl
    rcases concatParts ((sortedEntries repr entries).map (entryStream repr)) with _ | data
    · rfl
    · show Except.ok _ = Except.ok _
      rw [List.append_assoc]
      rfl
  | str s =>
    rw [hashMultiModalObj, payload, sized]
    rcases packUnsigned 8 (encodeStr s).length with _ | n
    · rfl
    · show Except.ok _ = Except.ok _
      rw [List.append_assoc]
      rfl
  | bytes b | bytearray b =>
    rw [hashMultiModalObj, payload, sized]
    rcases packUnsigned 8 b.length with _ | n
    · rfl
    · show Except.ok _ = Except.ok _
      rw [List.append_assoc]
      rfl
  | none => rw [hashMultiModalObj, payload]; rfl
  | bool | int | float => rw [hashMultiModalObj, payload]; rfl

/-! ## Two streams with rests -/

/-- If the streams with two rests are equal, the values are related and the rests are equal. -/
def Splits {α : Type} (R : α → α → Prop) (f : α → Except Err Bytes) (a b : α) : Prop :=
  ∀ s t x y, f a = .ok s → f b = .ok t → Ends x → Ends y → s ++ x = t ++ y → R a b ∧ x = y

/-- Whatever follows it, the stream does not continue an integer before it. -/
def Begins (e : Except Err Bytes) : Prop := ∀ s x, e = .ok s → Ends (s ++ x)

theorem concat_ends {α : Type} {f : α → Except Err Bytes} {xs : List α} {s x : Bytes}
    (hf : ∀ a ∈ xs, Begins (f a)) (hs : concatParts (xs.map f) = .ok s) (hx : Ends x) :
    Ends (s ++ x) := by
  cases xs with
  | nil =>
    obtain rfl := pure_eq_ok.mp hs
    exact hx
  | cons a xs =>
    obtain ⟨s₁, hs₁, h⟩ := bind_eq_ok.mp hs
    obtain ⟨s₂, hs₂, h⟩ := bind_eq_ok.mp h
    obtain rfl := pure_eq_ok.mp h
    rw [List.append_assoc]
    exact hf a List.mem_cons_self s₁ _ hs₁

/-- Part by part: the rest of a part begins with the next part or is the rest of all. -/
theorem concat_splits {α : Type} {R : α → α → Prop} {f : α → Except Err Bytes} {xs ys : List α}
    (hlen : xs.length = ys.length) (hxs : ∀ a ∈ xs, Begins (f a)) (hys : ∀ b ∈ ys, Begins (f b))
    (h : ∀ a ∈ xs, ∀ b ∈ ys, Splits R f a b) :
    Splits (List.Forall₂ R) (fun l => concatParts (l.map f)) xs ys := by
  induction xs generalizing ys with
  | nil =>
    obtain rfl := List.length_eq_zero_iff.mp hlen.symm
    intro s t x y hs ht _ _ heq
    obtain rfl := pure_eq_ok.mp hs
    obtain rfl := pure_eq_ok.mp ht
    exact ⟨.nil, heq⟩
  | cons a xs ih =>
    obtain ⟨b, ys, rfl⟩ := List.exists_cons_of_length_eq_add_one hlen.symm
    intro s t x y hs ht hx hy heq
    obtain ⟨s₁, hs₁, hs⟩ := bind_eq_ok.mp hs
    obtain ⟨s₂, hs₂, hs⟩ := bind_eq_ok.mp hs
    obtain ⟨t₁, ht₁, ht⟩ := bind_eq_ok.mp ht
    obtain ⟨t₂, ht₂, ht⟩ := bind_eq_ok.mp ht
    obtain rfl := pure_eq_ok.mp hs
    obtain rfl := pure_eq_ok.mp ht
    have hxs' := fun c hc => hxs c (List.mem_cons_of_mem _ hc)
    have hys' := fun c hc => hys c (List.mem_cons_of_mem _ hc)
    rw [List.append_assoc, List.append_assoc] at heq
    obtain ⟨hab, hrest⟩ := h a List.mem_cons_self b List.mem_cons_self s₁ t₁ _ _ hs₁ ht₁
      (concat_ends hxs' hs₂ hx) (concat_ends hys' ht₂ hy) heq
    obtain ⟨htail, hxy⟩ := ih (Nat.succ.inj hlen) hxs' hys'
      (fun c hc d hd => h c (List.mem_cons_of_mem _ hc) d (List.mem_cons_of_mem _ hd))
      s₂ t₂ x y hs₂ ht₂ hx hy hrest
    exact ⟨.cons hab htail, hxy⟩

theorem stream_ok {v : Obj} {s : Bytes} (hv : v.PlainType)
    (hs : hashMultiModalObj repr v = .ok s) :
    ∃ r, payload repr v = .ok r ∧ s = v.tag.text ++ r := by
  rw [stream_eq_payload repr hv] at hs
  cases hp : payload repr v with
  | error e => rw [hp] at hs; exact nomatch hs
  | ok r =>
    rw [hp] at hs
    exact ⟨r, rfl, (Except.ok.inj hs).symm⟩

theorem stream_begins {v : Obj} (hv : v.PlainType) : Begins (hashMultiModalObj repr v) := by
  intro s x hs
  obtain ⟨r, _, rfl⟩ := stream_ok repr hv hs
  rw [List.append_assoc]
  exact tag_ends _ _

theorem entry_ok {p : Obj × Obj} {s : Bytes} (hs : entryStream repr p = .ok s) :
    ∃ k v, hashMultiModalObj repr p.1 = .ok k ∧ hashMultiModalObj repr p.2 = .ok v ∧
      s = ascii "k|".toList ++ (k ++ (ascii "v|".toList ++ v)) := by
  obtain ⟨k, hk, hs⟩ := bind_eq_ok.mp hs
  obtain ⟨v, hv, hs⟩ := bind_eq_ok.mp hs
  refine ⟨k, v, hk, hv, ?_⟩
  rw [pure_eq_ok.mp hs, List.append_assoc, List.append_assoc]

theorem entry_begins (p : Obj × Obj) : Begins (entryStream repr p) := by
  intro s x hs
  obtain ⟨k, v, _, _, rfl⟩ := entry_ok repr hs
  exact letter_ends (by decide)

theorem entry_splits {R : Obj → Obj → Prop} {p q : Obj × Obj}
    (hkey : Splits R (hashMultiModalObj repr) p.1 q.1)
    (hvalue : Splits R (hashMultiModalObj repr) p.2 q.2) :
    Splits (fun p q => R p.1 q.1 ∧ R p.2 q.2) (entryStream repr) p q := by
  intro s t x y hs ht hx hy heq
  obtain ⟨k, v, hk, hv, rfl⟩ := entry_ok repr hs
  obtain ⟨k', v', hk', hv', rfl⟩ := entry_ok repr ht
  simp only [List.append_assoc, List.append_cancel_left_eq] at heq
  have hv_ends : ∀ z, Ends (ascii "v|".toList ++ z) := fun z => letter_ends (by decide)
  obtain ⟨hkk, heq⟩ := hkey k k' _ _ hk hk' (hv_ends _) (hv_ends _) heq
  obtain ⟨hvv, hxy⟩ := hvalue v v' x y hv hv' hx hy (List.append_cancel_left heq)
  exact ⟨⟨hkk, hvv⟩, hxy⟩

end

end Bi100
