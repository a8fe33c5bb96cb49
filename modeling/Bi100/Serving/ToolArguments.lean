import Bi100.Lib.Value

/-!
# Arguments of tool calls (`qwen3coder_tool_parser.py`)

`_convert_param_value` makes a value of the text of a parameter, by the type that the tool declares.

* `converts_iff`: for which texts, names and tools it returns a value that `json.dumps` writes. An
  infinity as a number and a literal that is not JSON are left out.
* `callArguments_ok`: a call whose parameters fit has its arguments.
-/

namespace Bi100.Qwen3CoderToolParser

open Py

/-! ## Tools -/

structure FunctionDefinition where
  name : Text
  /-- A dictionary or `None`. -/
  parameters : Option (List (Text × Json))

/-- `ChatCompletionToolsParam` -/
structure Tool where
  type : Text
  function : FunctionDefinition

/-- `_get_arguments_config` -/
def getArgumentsConfig (funcName : Text) (tools : Option (List Tool)) : Json :=
  match tools with
  | none => .dict []
  | some tools =>
    match tools.find? fun config => config.type = "function".toList ∧ config.function.name = funcName with
    | none => .dict []
    | some config =>
      match config.function.parameters with
      | none => .dict []
      | some params => (params.lookup "properties".toList).getD (.dict params)

/-- `param_name in param_config` -/
def contains (paramConfig : Json) (paramName : Text) : Except Exn Bool :=
  match paramConfig with
  | .dict items => pure (items.lookup paramName).isSome
  | .list vs => pure (vs.any fun
    | .str s => s = paramName
    | _ => false)
  | .str s => pure (s.contains paramName)
  | _ => throw .typeError

/-- `param_config[param_name]` of a name in it. -/
def getItem (paramConfig : Json) (paramName : Text) : Except Exn Json :=
  match paramConfig with
  | .dict items =>
    match items.lookup paramName with
    | some entry => pure entry
    | none => throw .keyError
  | _ => throw .typeError

/-- `str(…)` -/
def str (I : Interpreter) : Json → Text
  | .str s => s
  | v => I.strOf v

/-- `param_type` -/
def paramType (I : Interpreter) (entry : Json) : Text :=
  match entry with
  | .dict items =>
    match items.lookup "type".toList with
    | some type => Text.lower (Text.strip (str I type))
    | none => "string".toList
  | _ => "string".toList

/-! ## Types -/

def isString (paramType : Text) : Bool :=
  paramType ∈ ["string".toList, "str".toList, "text".toList, "varchar".toList, "char".toList, "enum".toList]

def isInteger (paramType : Text) : Bool :=
  ["int".toList, "uint".toList, "long".toList, "short".toList, "unsigned".toList].any
    (Text.startsWith paramType)

def isNumber (paramType : Text) : Bool :=
  ["num".toList, "float".toList].any (Text.startsWith paramType)

def isBoolean (paramType : Text) : Bool :=
  paramType ∈ ["boolean".toList, "bool".toList, "binary".toList]

def isContainer (paramType : Text) : Bool :=
  paramType ∈ ["object".toList, "array".toList, "arr".toList] ∨
    ["dict".toList, "list".toList].any (Text.startsWith paramType)

/-! ## Conversion -/

/-- `try: … except …: return param_value` -/
def orText (x : Except Exn Value) (caught : List Exn) (paramValue : Text) : Except Exn Value :=
  match x with
  | .ok v => pure v
  | .error e => if e ∈ caught then pure (.const (.str paramValue)) else throw e

def toInteger (I : Interpreter) (paramValue : Text) : Except Exn Value := do
  let z ← intOf I.maxStrDigits paramValue
  pure (.const (.int z))

/-- `v = float(…); int(v) if v - int(v) == 0 else v` -/
def toNumber (paramValue : Text) : Except Exn Value := do
  let v ← floatOf paramValue
  let z ← v.toInt
  pure (.const (if v = .finite z then .int z else .float v))

/-- What `json.loads` rejects goes on to `ast.literal_eval`. -/
def toLiteral (I : Interpreter) (paramType paramValue : Text) : Except Exn Value :=
  let literal := orText (literalEval I paramValue) [.valueError, .syntaxError, .typeError] paramValue
  if isContainer paramType then
    match I.loads paramValue with
    | .ok v => pure v.toValue
    | .error e => if e ∈ [Exn.typeError, Exn.valueError] then literal else throw e
  else literal

/-- The branches on `param_type`. -/
def convertAs (I : Interpreter) (paramType paramValue : Text) : Except Exn Value :=
  if isString paramType then pure (.const (.str paramValue))
  else if isInteger paramType then
    orText (toInteger I paramValue) [.valueError, .typeError] paramValue
  else if isNumber paramType then orText (toNumber paramValue) [.valueError, .typeError] paramValue
  else if isBoolean paramType then
    pure (.const (.bool (decide (Text.lower paramValue = "true".toList))))
  else toLiteral I paramType paramValue

/-- `_convert_param_value` -/
def convertParamValue (I : Interpreter) (paramValue paramName : Text) (paramConfig : Json) :
    Except Exn Value :=
  if Text.lower paramValue = "null".toList then pure (.const .none)
  else do
    if ← contains paramConfig paramName then do
      let entry ← getItem paramConfig paramName
      convertAs I (paramType I entry) paramValue
    else pure (.const (.str paramValue))

/-! ## What can be converted -/

/-- A literal of JSON, or a text that `ast.literal_eval` rejects as no literal. -/
def FitsLiteral (I : Interpreter) (paramValue : Text) : Prop :=
  match literalEval I paramValue with
  | .ok v => v.Jsonable I.maxStrDigits
  | .error e => e ∈ [Exn.valueError, .syntaxError, .typeError]

def FitsType (I : Interpreter) (paramType paramValue : Text) : Prop :=
  if isString paramType ∨ isInteger paramType then True
  else if isNumber paramType then ¬ Text.Infinite paramValue
  else if isBoolean paramType then True
  else if isContainer paramType then
    match I.loads paramValue with
    | .ok _ => True
    | .error e => e ∈ [Exn.typeError, .valueError] ∧ FitsLiteral I paramValue
  else FitsLiteral I paramValue

/-- `null`, a name that the tool does not declare, or a text that fits the declared type. -/
def Fits (I : Interpreter) (paramValue paramName : Text) (paramConfig : Json) : Prop :=
  Text.lower paramValue = "null".toList ∨ contains paramConfig paramName = .ok false ∨
    ∃ items entry, paramConfig = .dict items ∧ items.lookup paramName = some entry ∧
      FitsType I (paramType I entry) paramValue

section Conversion

variable (I : Interpreter)

/-- A value that `json.dumps` writes. -/
def Serialises (x : Except Exn Value) : Prop := ∃ v, x = .ok v ∧ v.Jsonable I.maxStrDigits

theorem serialises_iff (x : Except Exn Value) :
    (∃ v, x = .ok v ∧ ∃ s, dumps I v = .ok s) ↔ Serialises I x := by
  simp only [Serialises, dumps_ok]

theorem serialises_ok (v : Value) : Serialises I (.ok v) ↔ v.Jsonable I.maxStrDigits :=
  ⟨fun ⟨_, h, hv⟩ => Except.ok.inj h ▸ hv, fun h => ⟨v, rfl, h⟩⟩

theorem serialises_error (e : Exn) : ¬ Serialises I (.error e) := fun ⟨_, h, _⟩ => nomatch h

theorem serialises_str (s : Text) : Serialises I (.ok (.const (.str s))) := by
  rw [serialises_ok, Value.Jsonable]
  trivial

theorem serialises_orText (x : Except Exn Value) (caught : List Exn) (paramValue : Text) :
    Serialises I (orText x caught paramValue) ↔
      match x with
      | .ok v => v.Jsonable I.maxStrDigits
      | .error e => e ∈ caught := by
  cases x with
  | ok v => exact serialises_ok I v
  | error e =>
    unfold orText
    dsimp only
    split
    · next h => exact ⟨fun _ => h, fun _ => serialises_str I paramValue⟩
    · next h => exact ⟨fun h' => absurd h' (serialises_error I e), fun h' => absurd h' h⟩

theorem serialises_toInteger (paramValue : Text) :
    Serialises I (orText (toInteger I paramValue) [.valueError, .typeError] paramValue) := by
  rw [serialises_orText, toInteger]
  cases h : intOf I.maxStrDigits paramValue with
  | error e =>
    show e ∈ _
    rw [intOf_error h]
    decide
  | ok z =>
    show (Value.const (.int z)).Jsonable I.maxStrDigits
    rw [Value.Jsonable]
    exact fun m hm => intOf_lt h hm

theorem prints_of_lt {z : ℤ} (h : |(z : ℚ)| < 2 ^ 1024) : Prints I.maxStrDigits z := by
  intro m hm
  have hz : z.natAbs < 2 ^ 1024 := by
    rw [← Int.cast_abs, Int.abs_eq_natAbs, Int.cast_natCast] at h
    exact_mod_cast h
  calc z.natAbs < 2 ^ 1024 := hz
    _ ≤ 10 ^ 640 := by decide +kernel
    _ ≤ 10 ^ m := Nat.pow_le_pow_right (by decide) (I.threshold m hm)

/-- Only an infinity is not converted: `int` of it raises an `OverflowError`. -/
theorem serialises_toNumber (paramValue : Text) :
    Serialises I (orText (toNumber paramValue) [.valueError, .typeError] paramValue) ↔
      ¬ Text.Infinite paramValue := by
  rw [serialises_orText, toNumber, ← floatOf_infinite]
  cases h : floatOf paramValue with
  | error e =>
    refine ⟨fun _ ⟨_, hinf⟩ => (nomatch hinf), fun _ => ?_⟩
    show e ∈ _
    rw [floatOf_error h]
    decide
  | ok v =>
    cases v with
    | nan =>
      refine ⟨fun _ ⟨_, hinf⟩ => (nomatch hinf), fun _ => ?_⟩
      show Exn.valueError ∈ [Exn.valueError, .typeError]
      decide
    | infinity b =>
      refine ⟨fun hcaught => ?_, fun hinf => absurd ⟨b, rfl⟩ hinf⟩
      have : Exn.overflowError ∈ [Exn.valueError, .typeError] := hcaught
      exact absurd this (by decide)
    | finite q =>
      refine ⟨fun _ ⟨_, hinf⟩ => (nomatch hinf), fun _ => ?_⟩
      show (Value.const (if _ then _ else _)).Jsonable I.maxStrDigits
      rw [Value.Jsonable]
      split
      · next heq =>
        have hq : q = truncate q := Double.finite.inj heq
        exact prints_of_lt I (hq ▸ floatOf_lt h)
      · trivial

theorem serialises_literal (paramValue : Text) :
    Serialises I (orText (literalEval I paramValue) [.valueError, .syntaxError, .typeError] paramValue) ↔
      FitsLiteral I paramValue :=
  serialises_orText I _ _ _

theorem serialises_toLiteral (paramType paramValue : Text) :
    Serialises I (toLiteral I paramType paramValue) ↔
      if isContainer paramType then
        match I.loads paramValue with
        | .ok _ => True
        | .error e => e ∈ [Exn.typeError, .valueError] ∧ FitsLiteral I paramValue
      else FitsLiteral I paramValue := by
  unfold toLiteral
  dsimp only
  split
  · cases h : I.loads paramValue with
    | ok v => exact ⟨fun _ => trivial, fun _ => (serialises_ok I _).mpr (I.loads_prints h).jsonable⟩
    | error e =>
      dsimp only
      split
      · next hcaught =>
        rw [serialises_literal]
        exact ⟨fun hfits => ⟨hcaught, hfits⟩, fun hfits => hfits.2⟩
      · next hcaught =>
        exact ⟨fun hs => absurd hs (serialises_error I e), fun hfits => absurd hfits.1 hcaught⟩
  · exact serialises_literal I paramValue

theorem serialises_convertAs (paramType paramValue : Text) :
    Serialises I (convertAs I paramType paramValue) ↔ FitsType I paramType paramValue := by
  unfold convertAs FitsType
  by_cases hstring : isString paramType = true
  · rw [if_pos hstring, if_pos (.inl hstring)]
    exact ⟨fun _ => trivial, fun _ => serialises_str I paramValue⟩
  by_cases hinteger : isInteger paramType = true
  · rw [if_neg hstring, if_pos hinteger, if_pos (.inr hinteger)]
    exact ⟨fun _ => trivial, fun _ => serialises_toInteger I paramValue⟩
  rw [if_neg hstring, if_neg hinteger, if_neg (not_or.mpr ⟨hstring, hinteger⟩)]
  by_cases hnumber : isNumber paramType = true
  · rw [if_pos hnumber, if_pos hnumber]
    exact serialises_toNumber I paramValue
  rw [if_neg hnumber, if_neg hnumber]
  by_cases hboolean : isBoolean paramType = true
  · rw [if_pos hboolean, if_pos hboolean]
    refine ⟨fun _ => trivial, fun _ => ?_⟩
    show Serialises I (.ok _)
    rw [serialises_ok, Value.Jsonable]
    trivial
  · rw [if_neg hboolean, if_neg hboolean]
    exact serialises_toLiteral I paramType paramValue

/-- The branch of a declared name: only a dictionary can be subscripted with it. -/
theorem serialises_declared {paramConfig : Json} {paramName : Text}
    (h : contains paramConfig paramName = .ok true) (paramValue : Text) :
    Serialises I (getItem paramConfig paramName >>= fun entry =>
        convertAs I (paramType I entry) paramValue) ↔
      ∃ items entry, paramConfig = .dict items ∧ items.lookup paramName = some entry ∧
        FitsType I (paramType I entry) paramValue := by
  cases paramConfig with
  | dict items =>
    have hsome : (items.lookup paramName).isSome = true := Except.ok.inj h
    obtain ⟨entry, hentry⟩ := Option.isSome_iff_exists.mp hsome
    have hget : getItem (.dict items) paramName = .ok entry := by
      unfold getItem
      dsimp only
      rw [hentry]
      rfl
    rw [hget]
    show Serialises I (convertAs I _ _) ↔ _
    rw [serialises_convertAs]
    constructor
    · intro hfits
      exact ⟨items, entry, rfl, hentry, hfits⟩
    · rintro ⟨_, entry', hitems, hentry', hfits⟩
      obtain rfl := Json.dict.inj hitems
      obtain rfl := Option.some.inj (hentry.symm.trans hentry')
      exact hfits
  | list vs => exact ⟨fun ⟨_, hok, _⟩ => (nomatch hok), fun ⟨_, _, hitems, _⟩ => (nomatch hitems)⟩
  | str s => exact ⟨fun ⟨_, hok, _⟩ => (nomatch hok), fun ⟨_, _, hitems, _⟩ => (nomatch hitems)⟩
  | _ => cases h

theorem serialises_convertParamValue (paramValue paramName : Text) (paramConfig : Json) :
    Serialises I (convertParamValue I paramValue paramName paramConfig) ↔
      Fits I paramValue paramName paramConfig := by
  unfold convertParamValue Fits
  by_cases hnull : Text.lower paramValue = "null".toList
  · rw [if_pos hnull]
    refine ⟨fun _ => .inl hnull, fun _ => ?_⟩
    show Serialises I (.ok _)
    rw [serialises_ok, Value.Jsonable]
    trivial
  rw [if_neg hnull, or_iff_right hnull]
  cases h : contains paramConfig paramName with
  | error e =>
    refine ⟨fun hs => absurd hs (serialises_error I e), ?_⟩
    rintro (hfalse | ⟨items, entry, rfl, hentry, -⟩)
    · cases hfalse
    · cases h
  | ok found =>
    cases found with
    | false => exact ⟨fun _ => .inl rfl, fun _ => serialises_str I paramValue⟩
    | true =>
      rw [or_iff_right (by simp)]
      exact serialises_declared I h paramValue

end Conversion

/-- **The conversion returns a value that `json.dumps` writes exactly for the parameters that fit.** -/
theorem converts_iff (I : Interpreter) (paramValue paramName funcName : Text)
    (tools : Option (List Tool)) :
    (∃ v, convertParamValue I paramValue paramName (getArgumentsConfig funcName tools) = .ok v ∧
        ∃ s, dumps I v = .ok s) ↔
      Fits I paramValue paramName (getArgumentsConfig funcName tools) := by
  rw [serialises_iff]
  exact serialises_convertParamValue I paramValue paramName _

/-- An interpreter whose parsers know `[1]` and `inf`. -/
def interpreter : Interpreter where
  maxStrDigits := some 4300
  threshold := by decide
  reprFloat _ := "0.5".toList
  strOf _ := "None".toList
  loads s := if s = "[1]".toList then .ok (.list [.int 1]) else .error .valueError
  loads_prints := by
    intro s v h
    split at h
    · obtain rfl := Except.ok.inj h
      simp only [Json.Prints, PrintsAll]
      decide +kernel
    · cases h
  parse s :=
    if s = "[1]".toList then .ok (.list [.constant (.int 1)])
    else if s = "inf".toList then .ok .other
    else .error .syntaxError

/-- A tool whose one parameter has a type. -/
def tool (type : Text) : Tool where
  type := "function".toList
  function :=
    ⟨"f".toList, some [("properties".toList,
      .dict [("x".toList, .dict [("type".toList, .str type)])])]⟩

theorem converts_iff_array : ∃ v, convertParamValue interpreter "[1]".toList "x".toList
      (getArgumentsConfig "f".toList (some [tool "array".toList])) = .ok v ∧
    ∃ s, dumps interpreter v = .ok s := by
  refine (converts_iff interpreter _ _ _ _).mpr (.inr (.inr ⟨_, _, rfl, rfl, ?_⟩))
  rw [FitsType, if_neg (by decide), if_neg (by decide), if_neg (by decide), if_pos (by decide)]
  trivial

/-- `int(inf)` raises an `OverflowError`, which is not caught. -/
theorem infinity_raises : convertParamValue interpreter "inf".toList "x".toList
    (getArgumentsConfig "f".toList (some [tool "number".toList])) = .error .overflowError := by
  rfl

/-! ## The arguments of a call -/

/-- The text without a newline at either end. -/
def trimNewline (s : Text) : Text :=
  let s := if Text.startsWith s ['\n'] then s.drop 1 else s
  if ['\n'].isSuffixOf s then s.dropLast else s

/-- A match of a parameter: its name, `>` and its text. -/
def setParameter (I : Interpreter) (paramConfig : Json) (paramDict : List (Value × Value))
    (matchText : Text) : Except Exn (List (Value × Value)) :=
  match Text.cut ['>'] matchText with
  | none => throw .valueError
  | some (paramName, paramValue) => do
    let v ← convertParamValue I (trimNewline paramValue) paramName paramConfig
    dictSet paramDict (.const (.str paramName)) v

/-- `arguments` of `_parse_xml_function_call` -/
def callArguments (I : Interpreter) (paramConfig : Json) (matchTexts : List Text) : Except Exn Text := do
  let paramDict ← matchTexts.foldlM (setParameter I paramConfig) []
  dumps I (.dict paramDict)

/-- A call whose parameters fit has its arguments. -/
theorem callArguments_ok (I : Interpreter) {paramConfig : Json} {matchTexts : List Text}
    (h : ∀ m ∈ matchTexts, ∃ name value, Text.cut ['>'] m = some (name, value) ∧
      Fits I (trimNewline value) name paramConfig) :
    ∃ s, callArguments I paramConfig matchTexts = .ok s := by
  have hstep : ∀ items, ∀ m ∈ matchTexts, JsonableItems I.maxStrDigits items →
      ∃ items', setParameter I paramConfig items m = .ok items' ∧
        JsonableItems I.maxStrDigits items' := by
    intro items m hm hitems
    obtain ⟨name, value, hcut, hfits⟩ := h m hm
    obtain ⟨v, hv, hjson⟩ := (serialises_convertParamValue I _ name paramConfig).mpr hfits
    obtain ⟨items', hset, hitems'⟩ := dictSet_str hitems name hjson
    refine ⟨items', ?_, hitems'⟩
    unfold setParameter
    rw [hcut]
    dsimp only
    rw [hv]
    exact hset
  obtain ⟨items, hfold, hitems⟩ := foldlM_ok (JsonableItems I.maxStrDigits) hstep
    (show JsonableItems I.maxStrDigits [] by
      rw [JsonableItems]
      trivial)
  have hdumps : ∃ s, dumps I (.dict items) = .ok s := by
    rw [dumps_ok, Value.Jsonable]
    exact hitems
  obtain ⟨s, hs⟩ := hdumps
  refine ⟨s, ?_⟩
  unfold callArguments
  rw [hfold]
  exact hs

end Bi100.Qwen3CoderToolParser
