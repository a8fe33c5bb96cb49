import Bi100.Lib.Double
import Bi100.Lib.Except
import Bi100.Lib.Text

/-!
# `int()` and `float()` of a string

Unicode decimals and spaces become ASCII, the ends are stripped, and an underscore may stand between
two digits.

* `intOf_lt`: what `int()` accepts has no more than `maxStrDigits` digits.
* `floatOf_infinite`: the texts of which `float()` is an infinity.
-/

namespace Py

/-- The exceptions of the built-in functions. A `JSONDecodeError` is a `ValueError`. -/
inductive Exn where
  | valueError
  | typeError
  | keyError
  | syntaxError
  | overflowError
  | memoryError
  | recursionError
deriving DecidableEq, Repr

/-! ## Characters -/

/-- `str.isspace` of a character. -/
def isSpace (c : Char) : Bool :=
  c.toNat ∈ [9, 10, 11, 12, 13, 28, 29, 30, 31, 32, 0x85, 0xa0, 0x1680, 0x2000, 0x2001, 0x2002, 0x2003,
    0x2004, 0x2005, 0x2006, 0x2007, 0x2008, 0x2009, 0x200a, 0x2028, 0x2029, 0x202f, 0x205f, 0x3000]

/-- `Py_ISSPACE` -/
def isAsciiSpace (c : Char) : Bool := c.toNat ∈ [9, 10, 11, 12, 13, 32]

/-- The zeros of the scripts that have decimal digits (Unicode 13). -/
def decimalZeros : List Nat :=
  [0x30, 0x660, 0x6f0, 0x7c0, 0x966, 0x9e6, 0xa66, 0xae6, 0xb66, 0xbe6, 0xc66, 0xce6, 0xd66, 0xde6,
    0xe50, 0xed0, 0xf20, 0x1040, 0x1090, 0x17e0, 0x1810, 0x1946, 0x19d0, 0x1a80, 0x1a90, 0x1b50, 0x1bb0,
    0x1c40, 0x1c50, 0xa620, 0xa8d0, 0xa900, 0xa9d0, 0xa9f0, 0xaa50, 0xabf0, 0xff10, 0x104a0, 0x10d30,
    0x11066, 0x110f0, 0x11136, 0x111d0, 0x112f0, 0x11450, 0x114d0, 0x11650, 0x116c0, 0x11730, 0x118e0,
    0x11950, 0x11c50, 0x11d50, 0x11da0, 0x16a60, 0x16b50, 0x1d7ce, 0x1d7d8, 0x1d7e2, 0x1d7ec, 0x1d7f6,
    0x1e140, 0x1e2f0, 0x1e950, 0x1fbf0]

/-- `Py_UNICODE_TODECIMAL` -/
def toDecimal (c : Char) : Option Nat :=
  (decimalZeros.find? fun zero => zero ≤ c.toNat ∧ c.toNat < zero + 10).map fun zero => c.toNat - zero

/-- A character in `_PyUnicode_TransformDecimalAndSpaceToASCII`. -/
def toAscii (c : Char) : Char :=
  if c.toNat < 127 then c
  else if isSpace c then ' '
  else
    match toDecimal c with
    | some d => Char.ofNat (48 + d)
    | none => '?'

namespace Text

def stripWith (p : Char → Bool) (s : Text) : Text := ((s.dropWhile p).reverse.dropWhile p).reverse

/-- `str.strip` -/
def strip (s : Text) : Text := stripWith isSpace s

/-- `str.lower`, as far as a comparison with ASCII words tells. -/
def lower (s : Text) : Text := s.map Char.toLower

/-- `s.startswith(start)` -/
def startsWith (s start : Text) : Bool := start.isPrefixOf s

end Text

/-! ## Digits -/

/-- Without the underscores; `before` is the character before. -/
def withoutUnderscores (before : Char) : Text → Option Text
  | [] => if before = '_' then none else some []
  | c :: s =>
    if c = '_' then
      if before.isDigit then withoutUnderscores c s else none
    else if before = '_' ∧ c.isDigit = false then none
    else (withoutUnderscores c s).map (c :: ·)

/-- The sign, and the text after it. -/
def signed : Text → Bool × Text
  | '-' :: s => (true, s)
  | '+' :: s => (false, s)
  | s => (false, s)

def ofDigits (s : Text) : Nat := s.foldl (fun n c => 10 * n + (c.toNat - 48)) 0

/-- The number of at least one digit. -/
def digits (s : Text) : Option Nat :=
  if s ≠ [] ∧ s.all Char.isDigit then some (ofDigits s) else none

/-- The text of a number. -/
def numeralText (s : Text) : Option Text :=
  withoutUnderscores ' ' (Text.stripWith isAsciiSpace (s.map toAscii))

/-! ## `int()` -/

/-- `int(s)`, or `ValueError`. -/
def intOf (maxStrDigits : Option Nat) (s : Text) : Except Exn ℤ :=
  match (numeralText s).map signed with
  | none => throw .valueError
  | some (negative, body) =>
    match digits body with
    | none => throw .valueError
    | some n =>
      if ∃ m ∈ maxStrDigits, m < body.length then throw .valueError
      else pure (if negative then -n else n)

theorem isDigit_le {c : Char} (h : c.isDigit = true) : c.toNat - 48 ≤ 9 := by
  have hc : c.val ≥ 48 ∧ c.val ≤ 57 := by simpa [Char.isDigit] using h
  have hle : c.toNat ≤ 57 := hc.2
  omega

theorem ofDigits_lt {s : Text} (h : ∀ c ∈ s, c.isDigit = true) : ofDigits s < 10 ^ s.length := by
  induction s using List.reverseRecOn with
  | nil => decide
  | append_singleton s c ih =>
    have hs := ih fun d hd => h d (List.mem_append_left _ hd)
    have hc := isDigit_le (h c (List.mem_append_right _ (List.mem_singleton_self c)))
    rw [ofDigits, List.foldl_append, List.length_append, List.length_singleton, Nat.pow_succ]
    show 10 * ofDigits s + (c.toNat - 48) < _
    omega

theorem intOf_error {maxStrDigits : Option Nat} {s : Text} {e : Exn}
    (h : intOf maxStrDigits s = .error e) : e = .valueError := by
  unfold intOf at h
  split at h
  · exact (Except.error.inj h).symm
  · split at h
    · exact (Except.error.inj h).symm
    · split at h
      · exact (Except.error.inj h).symm
      · cases h

theorem intOf_lt {maxStrDigits : Option Nat} {s : Text} {z : ℤ} (h : intOf maxStrDigits s = .ok z)
    {m : Nat} (hm : m ∈ maxStrDigits) : z.natAbs < 10 ^ m := by
  unfold intOf at h
  split at h
  · cases h
  · next negative body _ =>
    split at h
    · cases h
    · next n hn =>
      split at h
      · cases h
      · next hmax =>
        rw [digits] at hn
        split at hn
        · next hall =>
          have hz := pure_eq_ok.mp h
          have hlen := Nat.le_of_not_lt fun hlt => hmax ⟨m, hm, hlt⟩
          have habs : z.natAbs = ofDigits body := by
            rw [hz, ← Option.some.inj hn]
            split
            · rw [Int.natAbs_neg, Int.natAbs_natCast]
            · rw [Int.natAbs_natCast]
          rw [habs]
          exact (ofDigits_lt (List.all_eq_true.mp hall.2)).trans_le
            (Nat.pow_le_pow_right (by decide) hlen)
        · cases hn

/-! ## `float()` -/

inductive FloatNumeral where
  | nan
  | infinity (negative : Bool)
  /-- `digits * 10 ^ exponent` -/
  | decimal (negative : Bool) (digits : Nat) (exponent : ℤ)

def exponentOf : Text → Option ℤ
  | [] => some 0
  | _ :: s => (digits (signed s).2).map fun n => if (signed s).1 then -n else n

/-- `digitpart`, a point, `digitpart` and an exponent. -/
def decimalOf (negative : Bool) (s : Text) : Option FloatNumeral :=
  let mantissa := s.takeWhile (· ≠ 'e')
  let whole := mantissa.takeWhile (· ≠ '.')
  let fraction := (mantissa.dropWhile (· ≠ '.')).drop 1
  match digits (whole ++ fraction), exponentOf (s.dropWhile (· ≠ 'e')) with
  | some n, some e => some (.decimal negative n (e - fraction.length))
  | _, _ => none

def floatNumeral (s : Text) : Option FloatNumeral :=
  let (negative, s) := signed s
  let s := Text.lower s
  if s = "inf".toList ∨ s = "infinity".toList then some (.infinity negative)
  else if s = "nan".toList then some .nan
  else decimalOf negative s

def FloatNumeral.toDouble : FloatNumeral → Double
  | .nan => .nan
  | .infinity negative => .infinity negative
  | .decimal negative n e => .ofMagnitude negative (n * 10 ^ e)

/-- `float(s)`, or `ValueError`. -/
def floatOf (s : Text) : Except Exn Double :=
  match (numeralText s).bind floatNumeral with
  | none => throw .valueError
  | some n => pure n.toDouble

/-- An infinity, or a number from `overflowBound` on. -/
def FloatNumeral.Infinite : FloatNumeral → Prop
  | .nan => False
  | .infinity _ => True
  | .decimal _ n e => overflowBound ≤ n * 10 ^ e

/-- A text that stands for an infinity or for too large a number. -/
def Text.Infinite (s : Text) : Prop := ∃ n, (numeralText s).bind floatNumeral = some n ∧ n.Infinite

theorem FloatNumeral.toDouble_infinite (n : FloatNumeral) :
    (∃ b, n.toDouble = .infinity b) ↔ n.Infinite := by
  cases n with
  | nan => exact ⟨fun ⟨_, h⟩ => (nomatch h), False.elim⟩
  | infinity negative => exact ⟨fun _ => trivial, fun _ => ⟨negative, rfl⟩⟩
  | decimal negative n e =>
    exact Double.ofMagnitude_eq_infinity (mul_nonneg (Nat.cast_nonneg n) (zpow_nonneg (by decide) e)) _

theorem floatOf_infinite (s : Text) : (∃ b, floatOf s = .ok (.infinity b)) ↔ s.Infinite := by
  unfold floatOf Text.Infinite
  cases (numeralText s).bind floatNumeral with
  | none => exact ⟨fun ⟨_, h⟩ => (nomatch h), fun ⟨_, h, _⟩ => (nomatch h)⟩
  | some n =>
    show (∃ b, Except.ok n.toDouble = Except.ok (Double.infinity b)) ↔ _
    simp only [Except.ok.injEq, Option.some.injEq, exists_eq_left', FloatNumeral.toDouble_infinite]

theorem floatOf_error {s : Text} {e : Exn} (h : floatOf s = .error e) : e = .valueError := by
  unfold floatOf at h
  split at h
  · exact (Except.error.inj h).symm
  · cases h

theorem FloatNumeral.toDouble_lt {n : FloatNumeral} {q : ℚ} (h : n.toDouble = .finite q) :
    |q| < 2 ^ 1024 := by
  cases n with
  | nan => cases h
  | infinity negative => cases h
  | decimal negative n e =>
    exact Double.ofMagnitude_lt (mul_nonneg (Nat.cast_nonneg n) (zpow_nonneg (by decide) e)) h

theorem floatOf_lt {s : Text} {q : ℚ} (h : floatOf s = .ok (.finite q)) : |q| < 2 ^ 1024 := by
  unfold floatOf at h
  split at h
  · cases h
  · exact FloatNumeral.toDouble_lt (Except.ok.inj h)

/-- `int(v)` -/
def Double.toInt : Double → Except Exn ℤ
  | .nan => throw .valueError
  | .infinity _ => throw .overflowError
  | .finite q => pure (truncate q)

end Py
