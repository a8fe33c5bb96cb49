import Bi100.Lib.Numeral

/-!
# Values, `ast.literal_eval` and `json.dumps`

- `Json`: what `json.loads` returns, and the data of a request.
- `Expr`: the expressions that `ast.literal_eval` tells apart; `convert` is its `_convert`.
- `Interpreter`: the parsers of Python and JSON and the texts of floats.
- `dumps_ok`: `json.dumps` writes what is made of `None`, booleans, printable integers, floats, strings,
  lists, tuples and dictionaries with such keys, and nothing else.
-/

namespace Py

/-! ## Values -/

inductive Constant where
  | none
  | bool (b : Bool)
  | int (z : ℤ)
  | float (v : Double)
  | complex (re im : Double)
  | str (s : Text)
  | bytes (s : List UInt8)
  | ellipsis
deriving DecidableEq

inductive Value where
  | const (c : Constant)
  | list (vs : List Value)
  | tuple (vs : List Value)
  | set (vs : List Value)
  | dict (items : List (Value × Value))

/-- Real and imaginary part. -/
def Constant.number : Constant → Option (Double × Double)
  | .bool b => some (.finite (if b then 1 else 0), .finite 0)
  | .int z => some (.finite z, .finite 0)
  | .float v => some (v, .finite 0)
  | .complex re im => some (re, im)
  | _ => Option.none

/-- `a == b` -/
def Constant.same (a b : Constant) : Bool :=
  match a.number, b.number with
  | some x, some y => decide (x = y)
  | _, _ => decide (a = b)

mutual
/-- `a == b` of hashable values. -/
def Value.same : Value → Value → Bool
  | .const a, .const b => a.same b
  | .tuple as, .tuple bs => sameAll as bs
  | _, _ => false

def sameAll : List Value → List Value → Bool
  | [], [] => true
  | a :: as, b :: bs => a.same b && sameAll as bs
  | _, _ => false
end

mutual
def Value.hashable : Value → Bool
  | .const _ => true
  | .tuple vs => hashableAll vs
  | _ => false

def hashableAll : List Value → Bool
  | [] => true
  | v :: vs => v.hashable && hashableAll vs
end

/-- `set.add` -/
def setAdd (vs : List Value) (v : Value) : Except Exn (List Value) :=
  if v.hashable then pure (if vs.any (·.same v) then vs else vs ++ [v])
  else throw .typeError

/-- `items[k] = v` -/
def dictSet (items : List (Value × Value)) (k v : Value) : Except Exn (List (Value × Value)) :=
  if k.hashable then
    pure (if items.any (·.1.same k) then items.map fun p => if p.1.same k then (p.1, v) else p
      else items ++ [(k, v)])
  else throw .typeError

/-! ## `ast.literal_eval` -/

inductive Sign where
  | add
  | sub

/-- An expression, as far as `ast.literal_eval` tells it apart. -/
inductive Expr where
  | constant (c : Constant)
  | tuple (elts : List Expr)
  | list (elts : List Expr)
  | set (elts : List Expr)
  /-- `set()` -/
  | emptySet
  | dict (items : List (Expr × Expr))
  | unaryOp (op : Sign) (operand : Expr)
  | binOp (op : Sign) (left right : Expr)
  /-- All others; also the key of `**items`. -/
  | other

def Double.neg : Double → Double
  | .nan => .nan
  | .infinity negative => .infinity !negative
  | .finite q => .finite (-q)

/-- `float(z)` of an integer. -/
def Double.ofInt (z : ℤ) : Except Exn Double :=
  match ofMagnitude (z < 0) z.natAbs with
  | .infinity _ => throw .overflowError
  | v => pure v

/-- `_convert_num` -/
def convertNum : Expr → Except Exn Constant
  | .constant (.int z) => pure (.int z)
  | .constant (.float v) => pure (.float v)
  | .constant (.complex re im) => pure (.complex re im)
  | _ => throw .valueError

/-- `- operand` -/
def Constant.neg : Constant → Constant
  | .int z => .int (-z)
  | .float v => .float v.neg
  | .complex re im => .complex re.neg im.neg
  | c => c

/-- `_convert_signed_num` -/
def convertSignedNum : Expr → Except Exn Constant
  | .unaryOp .add operand => convertNum operand
  | .unaryOp .sub operand => do
    let c ← convertNum operand
    pure c.neg
  | e => convertNum e

/-- `left + right`, `left - right`: a literal complex number is imaginary. -/
def addImaginary (op : Sign) (left : Double) (im : Double) : Constant :=
  .complex left (match op with
    | .add => im
    | .sub => im.neg)

/-- A `BinOp` in `_convert`. -/
def convertBinOp (op : Sign) (left right : Expr) : Except Exn Constant := do
  let left ← convertSignedNum left
  let right ← convertNum right
  match left, right with
  | .int z, .complex _ im => do
    let v ← Double.ofInt z
    pure (addImaginary op v im)
  | .float v, .complex _ im => pure (addImaginary op v im)
  | _, _ => throw .valueError

mutual
/-- `_convert` -/
def convert : Expr → Except Exn Value
  | .constant c => pure (.const c)
  | .tuple elts => do
    let vs ← convertAll elts
    pure (.tuple vs)
  | .list elts => do
    let vs ← convertAll elts
    pure (.list vs)
  | .set elts => do
    let vs ← convertSet [] elts
    pure (.set vs)
  | .emptySet => pure (.set [])
  | .dict items => do
    let items ← convertDict [] items
    pure (.dict items)
  | .unaryOp op operand => do
    let c ← convertSignedNum (.unaryOp op operand)
    pure (.const c)
  | .binOp op left right => do
    let c ← convertBinOp op left right
    pure (.const c)
  | .other => throw .valueError

def convertAll : List Expr → Except Exn (List Value)
  | [] => pure []
  | e :: es => do
    let v ← convert e
    let vs ← convertAll es
    pure (v :: vs)

def convertSet (vs : List Value) : List Expr → Except Exn (List Value)
  | [] => pure vs
  | e :: es => do
    let v ← convert e
    let vs ← setAdd vs v
    convertSet vs es

def convertDict (items : List (Value × Value)) :
    List (Expr × Expr) → Except Exn (List (Value × Value))
  | [] => pure items
  | (k, v) :: es => do
    let k ← convert k
    let v ← convert v
    let items ← dictSet items k v
    convertDict items es
end

/-! ## JSON -/

/-- The data of JSON. -/
inductive Json where
  | null
  | bool (b : Bool)
  | int (z : ℤ)
  | float (v : Double)
  | str (s : Text)
  | list (vs : List Json)
  | dict (items : List (Text × Json))

mutual
def Json.toValue : Json → Value
  | .null => .const .none
  | .bool b => .const (.bool b)
  | .int z => .const (.int z)
  | .float v => .const (.float v)
  | .str s => .const (.str s)
  | .list vs => .list (toValueAll vs)
  | .dict items => .dict (toValueItems items)

def toValueAll : List Json → List Value
  | [] => []
  | v :: vs => v.toValue :: toValueAll vs

def toValueItems : List (Text × Json) → List (Value × Value)
  | [] => []
  | (k, v) :: items => (.const (.str k), v.toValue) :: toValueItems items
end

/-- An integer that `int.__repr__` writes. -/
def Prints (maxStrDigits : Option Nat) (z : ℤ) : Prop := ∀ m ∈ maxStrDigits, z.natAbs < 10 ^ m

instance (maxStrDigits : Option Nat) (z : ℤ) : Decidable (Prints maxStrDigits z) :=
  inferInstanceAs (Decidable (∀ m ∈ maxStrDigits, z.natAbs < 10 ^ m))

mutual
/-- All its integers can be written. -/
def Json.Prints (maxStrDigits : Option Nat) : Json → Prop
  | .int z => Py.Prints maxStrDigits z
  | .list vs => PrintsAll maxStrDigits vs
  | .dict items => PrintsItems maxStrDigits items
  | _ => True

def PrintsAll (maxStrDigits : Option Nat) : List Json → Prop
  | [] => True
  | v :: vs => v.Prints maxStrDigits ∧ PrintsAll maxStrDigits vs

def PrintsItems (maxStrDigits : Option Nat) : List (Text × Json) → Prop
  | [] => True
  | (_, v) :: items => v.Prints maxStrDigits ∧ PrintsItems maxStrDigits items
end

/-- What the interpreter brings: its parsers and the texts of its values. -/
structure Interpreter where
  /-- `sys.get_int_max_str_digits()` -/
  maxStrDigits : Option Nat
  /-- `sys.int_info.str_digits_check_threshold` -/
  threshold : ∀ m ∈ maxStrDigits, 640 ≤ m
  /-- `float.__repr__` of a finite float. -/
  reprFloat : ℚ → Text
  /-- `str()` of a value that is no string. -/
  strOf : Json → Text
  /-- `json.loads` -/
  loads : Text → Except Exn Json
  /-- It reads integers with `int()`. -/
  loads_prints : ∀ {s v}, loads s = .ok v → v.Prints maxStrDigits
  /-- `ast.parse(…, mode='eval')` -/
  parse : Text → Except Exn Expr

/-- `ast.literal_eval` -/
def literalEval (I : Interpreter) (s : Text) : Except Exn Value := do
  let e ← I.parse (s.dropWhile fun c => c = ' ' ∨ c = '\t')
  convert e

/-! ## `json.dumps` -/

def hexDigits (n : Nat) : Text := [Nat.digitChar (n / 16), Nat.digitChar (n % 16)]

/-- `ESCAPE_DCT` -/
def escapeChar (c : Char) : Text :=
  if c = '\\' then ['\\', '\\']
  else if c = '"' then ['\\', '"']
  else if c = '\n' then ['\\', 'n']
  else if c = '\r' then ['\\', 'r']
  else if c = '\t' then ['\\', 't']
  else if c.toNat = 12 then ['\\', 'f']
  else if c.toNat = 8 then ['\\', 'b']
  else if c.toNat < 32 then "\\u00".toList ++ hexDigits c.toNat
  else [c]

/-- `encode_basestring` -/
def quote (s : Text) : Text := ['"'] ++ s.flatMap escapeChar ++ ['"']

def boolText (b : Bool) : Text := if b then "true".toList else "false".toList

/-- `floatstr` -/
def floatText (I : Interpreter) : Double → Text
  | .nan => "NaN".toList
  | .infinity negative => if negative then "-Infinity".toList else "Infinity".toList
  | .finite q => I.reprFloat q

/-- `int.__repr__` -/
def intText (I : Interpreter) (z : ℤ) : Except Exn Text :=
  if Prints I.maxStrDigits z then pure (toString z).toList else throw .valueError

def dumpsConstant (I : Interpreter) : Constant → Except Exn Text
  | .none => pure "null".toList
  | .bool b => pure (boolText b)
  | .int z => intText I z
  | .float v => pure (floatText I v)
  | .str s => pure (quote s)
  | .complex _ _ => throw .typeError
  | .bytes _ => throw .typeError
  | .ellipsis => throw .typeError

/-- The key of an item. -/
def dumpsKey (I : Interpreter) : Value → Except Exn Text
  | .const (.str s) => pure (quote s)
  | .const c => do
    let s ← dumpsConstant I c
    pure (quote s)
  | _ => throw .typeError

def joinComma (texts : List Text) : Text := ", ".toList.intercalate texts

mutual
/-- `json.dumps(v, ensure_ascii=False)` -/
def dumps (I : Interpreter) : Value → Except Exn Text
  | .const c => dumpsConstant I c
  | .list vs => do
    let texts ← dumpsAll I vs
    pure (['['] ++ joinComma texts ++ [']'])
  | .tuple vs => do
    let texts ← dumpsAll I vs
    pure (['['] ++ joinComma texts ++ [']'])
  | .set _ => throw .typeError
  | .dict items => do
    let texts ← dumpsItems I items
    pure ("\x7b".toList ++ joinComma texts ++ "\x7d".toList)

def dumpsAll (I : Interpreter) : List Value → Except Exn (List Text)
  | [] => pure []
  | v :: vs => do
    let text ← dumps I v
    let texts ← dumpsAll I vs
    pure (text :: texts)

def dumpsItems (I : Interpreter) : List (Value × Value) → Except Exn (List Text)
  | [] => pure []
  | (k, v) :: items => do
    let key ← dumpsKey I k
    let text ← dumps I v
    let texts ← dumpsItems I items
    pure ((key ++ ": ".toList ++ text) :: texts)
end

/-! ## What `json.dumps` writes -/

/-- `None`, a boolean, an integer that can be written, a float or a string. -/
def Constant.Jsonable (maxStrDigits : Option Nat) : Constant → Prop
  | .int z => Prints maxStrDigits z
  | .complex _ _ => False
  | .bytes _ => False
  | .ellipsis => False
  | _ => True

mutual
/-- Made of lists, tuples and dictionaries whose keys are constants. -/
def Value.Jsonable (maxStrDigits : Option Nat) : Value → Prop
  | .const c => c.Jsonable maxStrDigits
  | .list vs => JsonableAll maxStrDigits vs
  | .tuple vs => JsonableAll maxStrDigits vs
  | .set _ => False
  | .dict items => JsonableItems maxStrDigits items

def JsonableAll (maxStrDigits : Option Nat) : List Value → Prop
  | [] => True
  | v :: vs => v.Jsonable maxStrDigits ∧ JsonableAll maxStrDigits vs

def JsonableItems (maxStrDigits : Option Nat) : List (Value × Value) → Prop
  | [] => True
  | (k, v) :: items =>
    (∃ c, k = .const c ∧ c.Jsonable maxStrDigits) ∧ v.Jsonable maxStrDigits ∧
      JsonableItems maxStrDigits items
end

section Dumps

theorem bind_succeeds {ε α β : Type} {x : Except ε α} {f : α → Except ε β} :
    (∃ b, (x >>= f) = .ok b) ↔ ∃ a, x = .ok a ∧ ∃ b, f a = .ok b := by
  simp only [bind_eq_ok]
  constructor
  · rintro ⟨b, a, ha, hb⟩
    exact ⟨a, ha, b, hb⟩
  · rintro ⟨a, ha, b, hb⟩
    exact ⟨b, a, ha, hb⟩

theorem bind_pure_succeeds {ε α β : Type} {x : Except ε α} (f : α → β) :
    (∃ b, (x >>= fun a => pure (f a)) = .ok b) ↔ ∃ a, x = .ok a := by
  rw [bind_succeeds]
  exact ⟨fun ⟨a, ha, _⟩ => ⟨a, ha⟩, fun ⟨a, ha⟩ => ⟨a, ha, f a, rfl⟩⟩

variable (I : Interpreter)

theorem dumpsConstant_ok (c : Constant) :
    (∃ s, dumpsConstant I c = .ok s) ↔ c.Jsonable I.maxStrDigits := by
  cases c with
  | none => exact ⟨fun _ => trivial, fun _ => ⟨_, rfl⟩⟩
  | bool b => exact ⟨fun _ => trivial, fun _ => ⟨_, rfl⟩⟩
  | float v => exact ⟨fun _ => trivial, fun _ => ⟨_, rfl⟩⟩
  | str s => exact ⟨fun _ => trivial, fun _ => ⟨_, rfl⟩⟩
  | complex re im => exact ⟨fun ⟨_, h⟩ => (nomatch h), False.elim⟩
  | bytes s => exact ⟨fun ⟨_, h⟩ => (nomatch h), False.elim⟩
  | ellipsis => exact ⟨fun ⟨_, h⟩ => (nomatch h), False.elim⟩
  | int z =>
    show (∃ s, intText I z = .ok s) ↔ Prints I.maxStrDigits z
    unfold intText
    split
    · next h => exact ⟨fun _ => h, fun _ => ⟨_, rfl⟩⟩
    · next h => exact ⟨fun ⟨_, h'⟩ => (nomatch h'), fun h' => absurd h' h⟩

theorem dumpsKey_ok (k : Value) :
    (∃ s, dumpsKey I k = .ok s) ↔ ∃ c, k = .const c ∧ c.Jsonable I.maxStrDigits := by
  cases k with
  | const c =>
    have hkey : (∃ s, dumpsKey I (.const c) = .ok s) ↔ ∃ s, dumpsConstant I c = .ok s := by
      cases c with
      | str s => exact ⟨fun _ => ⟨_, rfl⟩, fun _ => ⟨_, rfl⟩⟩
      | _ => exact bind_pure_succeeds quote
    rw [hkey, dumpsConstant_ok]
    simp only [Value.const.injEq, exists_eq_left']
  | _ => exact ⟨fun ⟨_, h⟩ => (nomatch h), fun ⟨_, h, _⟩ => (nomatch h)⟩

mutual
theorem dumps_ok : ∀ v : Value, (∃ s, dumps I v = .ok s) ↔ v.Jsonable I.maxStrDigits
  | .const c => by
    rw [dumps, Value.Jsonable]
    exact dumpsConstant_ok I c
  | .list vs => by
    rw [dumps, Value.Jsonable, bind_pure_succeeds]
    exact dumpsAll_ok vs
  | .tuple vs => by
    rw [dumps, Value.Jsonable, bind_pure_succeeds]
    exact dumpsAll_ok vs
  | .set vs => by
    rw [dumps, Value.Jsonable]
    exact ⟨fun ⟨_, h⟩ => (nomatch h), False.elim⟩
  | .dict items => by
    rw [dumps, Value.Jsonable, bind_pure_succeeds]
    exact dumpsItems_ok items

theorem dumpsAll_ok : ∀ vs : List Value,
    (∃ texts, dumpsAll I vs = .ok texts) ↔ JsonableAll I.maxStrDigits vs
  | [] => by
    rw [dumpsAll, JsonableAll]
    exact ⟨fun _ => trivial, fun _ => ⟨_, rfl⟩⟩
  | v :: vs => by
    rw [dumpsAll, JsonableAll, bind_succeeds, ← dumps_ok v, ← dumpsAll_ok vs]
    simp only [bind_pure_succeeds, exists_and_right]

theorem dumpsItems_ok : ∀ items : List (Value × Value),
    (∃ texts, dumpsItems I items = .ok texts) ↔ JsonableItems I.maxStrDigits items
  | [] => by
    rw [dumpsItems, JsonableItems]
    exact ⟨fun _ => trivial, fun _ => ⟨_, rfl⟩⟩
  | (k, v) :: items => by
    rw [dumpsItems, JsonableItems, bind_succeeds, ← dumpsKey_ok, ← dumps_ok v, ← dumpsItems_ok items]
    simp only [bind_succeeds (x := dumps I v), bind_pure_succeeds, exists_and_right]
end

end Dumps

theorem jsonableItems_iff {maxStrDigits : Option Nat} {items : List (Value × Value)} :
    JsonableItems maxStrDigits items ↔ ∀ p ∈ items,
      (∃ c, p.1 = .const c ∧ c.Jsonable maxStrDigits) ∧ p.2.Jsonable maxStrDigits := by
  induction items with
  | nil =>
    rw [JsonableItems]
    exact ⟨fun _ p hp => absurd hp List.not_mem_nil, fun _ => trivial⟩
  | cons p items ih =>
    obtain ⟨k, v⟩ := p
    rw [JsonableItems, ih, List.forall_mem_cons, and_assoc]

/-- Setting an item with a string key. -/
theorem dictSet_str {maxStrDigits : Option Nat} {items : List (Value × Value)}
    (h : JsonableItems maxStrDigits items) (k : Text) {v : Value} (hv : v.Jsonable maxStrDigits) :
    ∃ items', dictSet items (.const (.str k)) v = .ok items' ∧ JsonableItems maxStrDigits items' := by
  have hitems := jsonableItems_iff.mp h
  refine ⟨_, if_pos (by rw [Value.hashable]), jsonableItems_iff.mpr ?_⟩
  split
  · intro p hp
    obtain ⟨q, hq, rfl⟩ := List.mem_map.mp hp
    split
    · exact ⟨(hitems q hq).1, hv⟩
    · exact hitems q hq
  · intro p hp
    rcases List.mem_append.mp hp with hp | hp
    · exact hitems p hp
    · obtain rfl := List.mem_singleton.mp hp
      exact ⟨⟨.str k, rfl, trivial⟩, hv⟩

mutual
/-- What `json.loads` returns can be written. -/
theorem Json.Prints.jsonable {maxStrDigits : Option Nat} : ∀ {v : Json}, v.Prints maxStrDigits →
    v.toValue.Jsonable maxStrDigits
  | .null, _ => by
    rw [Json.toValue, Value.Jsonable]
    trivial
  | .bool _, _ => by
    rw [Json.toValue, Value.Jsonable]
    trivial
  | .int _, h => by
    rw [Json.Prints] at h
    rw [Json.toValue, Value.Jsonable]
    exact h
  | .float _, _ => by
    rw [Json.toValue, Value.Jsonable]
    trivial
  | .str _, _ => by
    rw [Json.toValue, Value.Jsonable]
    trivial
  | .list _, h => by
    rw [Json.Prints] at h
    rw [Json.toValue, Value.Jsonable]
    exact toValueAll_jsonable h
  | .dict _, h => by
    rw [Json.Prints] at h
    rw [Json.toValue, Value.Jsonable]
    exact toValueItems_jsonable h

theorem toValueAll_jsonable {maxStrDigits : Option Nat} : ∀ {vs : List Json},
    PrintsAll maxStrDigits vs → JsonableAll maxStrDigits (toValueAll vs)
  | [], _ => by
    rw [toValueAll, JsonableAll]
    trivial
  | _ :: _, h => by
    rw [PrintsAll] at h
    rw [toValueAll, JsonableAll]
    exact ⟨h.1.jsonable, toValueAll_jsonable h.2⟩

theorem toValueItems_jsonable {maxStrDigits : Option Nat} : ∀ {items : List (Text × Json)},
    PrintsItems maxStrDigits items → JsonableItems maxStrDigits (toValueItems items)
  | [], _ => by
    rw [toValueItems, JsonableItems]
    trivial
  | (k, _) :: _, h => by
    rw [PrintsItems] at h
    rw [toValueItems, JsonableItems]
    exact ⟨⟨.str k, rfl, trivial⟩, h.1.jsonable, toValueItems_jsonable h.2⟩
end

end Py
