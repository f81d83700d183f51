import Mathlib.Data.List.DropRight
import Pydsh.Python.Value

/-!
# Operations on Python values

What code does to a value it does not check: `v.get(key)`, `for x in v`, `v or default`, a lookup in a dict, `-`. An operation
raises, with Python's text, on a value that has no such operation.
-/

namespace Pydsh

/-- A Python dict. -/
abbrev PyDict : Type := List (PyKey × PyValue)

/-- `d.get(key)`. -/
def PyDict.get? (d : PyDict) (key : String) : Option PyValue := (d.find? (fun kv => kv.1 == .str key)).map (·.2)

/-- A key as dicts compare keys: `1`, `1.0` and `True` are one key. The NaN of a parse is one object, and so one key. -/
inductive HashKey where
  | none
  | number (q : Rat)
  | inf (negative : Bool)
  | nan
  | str (s : String)
  deriving DecidableEq

/-- The white space `str.strip` removes. -/
def isSpace (c : Char) : Bool :=
  c.val ∈ [0x09, 0x0a, 0x0b, 0x0c, 0x0d, 0x1c, 0x1d, 0x1e, 0x1f, 0x20, 0x85, 0xa0, 0x1680, 0x2000, 0x2001, 0x2002, 0x2003,
    0x2004, 0x2005, 0x2006, 0x2007, 0x2008, 0x2009, 0x200a, 0x2028, 0x2029, 0x202f, 0x205f, 0x3000]

/-- `str.strip()`. -/
def pyStrip (s : String) : String :=
  String.ofList ((s.toList.dropWhile isSpace).reverse.dropWhile isSpace).reverse

/-- A stripped string stays as it is: what is left at the front was not removed with the end. -/
theorem pyStrip_pyStrip (s : String) : pyStrip (pyStrip s) = pyStrip s := by
  let front := s.toList.dropWhile isSpace
  have hfront : (front.rdropWhile isSpace).dropWhile isSpace = front.rdropWhile isSpace := by
    rw [List.dropWhile_eq_self_iff]
    intro hpos
    have hprefix : front.rdropWhile isSpace <+: front := List.rdropWhile_prefix isSpace front
    have hlen : 0 < front.length := Nat.lt_of_lt_of_le hpos hprefix.length_le
    have hkept : ¬isSpace front[0] = true := List.dropWhile_eq_self_iff.mp (List.dropWhile_idempotent isSpace s.toList) hlen
    have hhead : (front.rdropWhile isSpace)[0] = front[0] := hprefix.getElem hpos
    exact fun hspace => hkept (hhead ▸ hspace)
  have hlist : (pyStrip s).toList = front.rdropWhile isSpace := by simp [pyStrip, front, List.rdropWhile]
  unfold pyStrip at hlist ⊢
  rw [hlist, hfront]
  exact congrArg String.ofList (List.rdropWhile_idempotent isSpace front)

namespace PyValue

/-- `type(v).__name__`; a dataclass does not say its own. -/
def typeName : PyValue → String
  | .none => "NoneType"
  | .bool _ => "bool"
  | .int _ => "int"
  | .float _ => "float"
  | .str _ => "str"
  | .list _ => "list"
  | .tuple _ => "tuple"
  | .dict _ => "dict"
  | .textBlock _ => "TextBlock"
  | .reasoningBlock _ => "ReasoningBlock"
  | .toolCallBlock .. => "ToolCallBlock"
  | .toolResultBlock .. => "ToolResultBlock"
  | .messageSource .. => "MessageSource"
  | .message .. => "Message"
  | .dataclass _ | .object => "object"

/-- `bool(v)`. -/
def truthy : PyValue → Bool
  | .none => false
  | .bool b => b
  | .int i => i != 0
  | .float (.finite q) => q != 0
  | .str s => s != ""
  | .list xs | .tuple xs => !xs.isEmpty
  | .dict kvs => !kvs.isEmpty
  | _ => true

/-- `v or default`. -/
def orElse (v default : PyValue) : PyValue := if v.truthy then v else default

/-- `v is None`. -/
def isNone : PyValue → Bool
  | .none => true
  | _ => false

/-- `v.get(key, default)`. -/
def getAttr (v : PyValue) (key : String) (default : PyValue := .none) : Except String PyValue :=
  match v with
  | .dict kvs => .ok ((PyDict.get? kvs key).getD default)
  | v => .error ("AttributeError: '" ++ v.typeName ++ "' object has no attribute 'get'")

/-- The elements of `for x in v`: those of a list, the characters of a string, the keys of a dict. -/
def elements : PyValue → Except String (List PyValue)
  | .list xs | .tuple xs => .ok xs
  | .str s => .ok (s.toList.map (fun c => .str (String.singleton c)))
  | .dict kvs => .ok (kvs.map (fun kv =>
      match kv.1 with
      | .str s => .str s
      | _ => .object))
  | v => .error ("TypeError: '" ++ v.typeName ++ "' object is not iterable")

/-- The key a value is looked up by. -/
def hashKey : PyValue → Except String HashKey
  | .none => .ok .none
  | .bool b => .ok (.number b.toInt)
  | .int i => .ok (.number i)
  | .float (.finite q) => .ok (.number q)
  | .float (.inf negative) => .ok (.inf negative)
  | .float .nan => .ok .nan
  | .str s => .ok (.str s)
  | v => .error ("TypeError: unhashable type: '" ++ v.typeName ++ "'")

/-- The text of `was += v`, where `was` is a string. -/
def fragment : PyValue → Except String String
  | .str s => .ok s
  | v => .error ("TypeError: can only concatenate str (not \"" ++ v.typeName ++ "\") to str")

/-- The integer that a number is computed with as an int. -/
def asInt? : PyValue → Option Int
  | .bool b => some b.toInt
  | .int i => some i
  | _ => Option.none

/-- Whether the value is a number. -/
def isNumber : PyValue → Bool
  | .bool _ | .int _ | .float _ => true
  | _ => false

/-- `v - w`; the difference of two numbers that are not both integers is computed in floats. -/
def minus (floats : PyValue → PyValue → Except String PyValue) (v w : PyValue) : Except String PyValue :=
  match v.asInt?, w.asInt? with
  | some i, some k => .ok (.int (i - k))
  | _, _ =>
    if v.isNumber && w.isNumber then floats v w
    else .error ("TypeError: unsupported operand type(s) for -: '" ++ v.typeName ++ "' and '" ++ w.typeName ++ "'")

end PyValue

end Pydsh
