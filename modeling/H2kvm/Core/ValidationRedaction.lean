import H2kvm.Core.ValidationSuite

namespace H2kvm.Core.Validation

/-- A key of a dict: a string, or an object told by its text. -/
inductive Key where
  | str (text : String)
  | other (text : String)
  deriving DecidableEq

/-- What a check may return. A scalar is told by its text, and the class of a named tuple by its name, its fields and
the defaults of the last of these. All generators of one run are at one address: only those of two runs are compared. -/
inductive Obj where
  | scalar (text : String)
  | str (text : String)
  | list (items : List Obj)
  | tuple (items : List Obj)
  | named (cls : String) (fields : List String) (defaults items : List Obj)
  | dict (entries : List (Key × Obj))
  | generator (address : Nat)

/-- `str.lower`, and `repr` of a string. -/
structure Texts where
  lower : String → String
  quote : String → String

/-- The safety controls of a check. -/
structure Safety where
  maxDepth : Int := 5
  maxListItems : Int := 50
  maxDictItems : Int := 50
  maxStringLen : Int := 4000
  maxResultReprLen : Int := 20000
  redactKeys : List String := []

/-- How many items `seq[:n]` has. -/
def keeps (n : Int) (length : Nat) : Nat := if n < 0 then length - n.natAbs else min n.toNat length

/-- `text[:n]`. -/
def cut (n : Int) (text : String) : String := String.ofList (text.toList.take (keeps n text.toList.length))

namespace Key

def text : Key → String
  | str text | other text => text

def repr (texts : Texts) : Key → String
  | str text => texts.quote text
  | other text => text

end Key

section repr

variable (texts : Texts)

def hex (address : Nat) : String := "0x" ++ String.ofList (Nat.toDigits 16 address)

mutual

/-- `repr`. -/
def Obj.repr : Obj → String
  | .scalar text => text
  | .str text => texts.quote text
  | .list items => "[" ++ ", ".intercalate (reprAll items) ++ "]"
  | .tuple items => "(" ++ ", ".intercalate (reprAll items) ++ (if items.length = 1 then ",)" else ")")
  | .named cls fields _ items => cls ++ "(" ++ ", ".intercalate (reprFields fields items) ++ ")"
  | .dict entries => "\x7b" ++ ", ".intercalate (reprEntries entries) ++ "\x7d"
  | .generator address => "<generator object _redact_in_obj.<locals>.<genexpr> at " ++ hex address ++ ">"

def reprAll : List Obj → List String
  | [] => []
  | x :: xs => x.repr :: reprAll xs

def reprFields : List String → List Obj → List String
  | field :: fields, x :: xs => (field ++ "=" ++ x.repr) :: reprFields fields xs
  | _, _ => []

def reprEntries : List (Key × Obj) → List String
  | [] => []
  | (key, x) :: entries => (key.repr texts ++ ": " ++ x.repr) :: reprEntries entries

end

/-- `repr(obj)[:200]`. -/
def hint (obj : Obj) : String := cut 200 (obj.repr texts)

/-- `cls(x)` of a named tuple: the fields but the first must have defaults. -/
def construct (cls : String) (fields : List String) (defaults : List Obj) (x : Obj) : Option Obj :=
  if fields ≠ [] ∧ fields.length ≤ defaults.length + 1 then
    some (.named cls fields defaults (x :: defaults.drop (defaults.length + 1 - fields.length)))
  else none

end repr

section redaction

variable (texts : Texts) (tokens : List String) (address : Nat)

/-- A token occurs in the key. -/
def redacts (key : Key) : Bool := tokens.any fun token => token.toList <:+: (texts.lower key.text).toList

mutual

/-- `_redact_in_obj`. A named tuple is given a generator; where that raises, it stays as it is. -/
def redactInObj : Obj → Obj
  | .dict entries => .dict (redactEntries entries)
  | .list items => .list (redactAll items)
  | .tuple items => .tuple (redactAll items)
  | .named cls fields defaults items =>
    (construct cls fields defaults (.generator address)).getD (.named cls fields defaults items)
  | .scalar text => .scalar text
  | .str text => .str text
  | .generator address => .generator address

def redactAll : List Obj → List Obj
  | [] => []
  | x :: xs => redactInObj x :: redactAll xs

def redactEntries : List (Key × Obj) → List (Key × Obj)
  | [] => []
  | (key, x) :: entries =>
    (key, if redacts texts tokens key then .str "***REDACTED***" else redactInObj x) :: redactEntries entries

end

end redaction

section shrinking

variable (texts : Texts) (safety : Safety)

/-- `out[key] = value`. -/
def setKey (key : Key) (value : Obj) (entries : List (Key × Obj)) : List (Key × Obj) :=
  if entries.any (·.1 == key) then entries.map fun entry => if entry.1 == key then (key, value) else entry
  else entries ++ [(key, value)]

def truncatedHint (obj : Obj) : Obj :=
  .dict [(.str "_truncated", .scalar "True"), (.str "_repr", .str (hint texts obj))]

/-- Items are left out. -/
def exceeds (max : Int) (length : Nat) : Bool := max < length

/-- How many items are kept. -/
def shows (max : Int) (length : Nat) : Nat := if exceeds max length then keeps max length else length

/-- The items of a sequence, marked when some of them are not shown whole. -/
def markSeq (beyond : Bool) (shrunk : List Obj × Bool) : List Obj × Bool :=
  if beyond || shrunk.2 then (shrunk.1 ++ [.dict [(.str "_truncated_list_items", .scalar "True")]], true)
  else (shrunk.1, false)

def markDict (beyond : Bool) (shrunk : List (Key × Obj) × Bool) : List (Key × Obj) × Bool :=
  if beyond || shrunk.2 then (setKey (.str "_truncated_dict_items") (.scalar "True") shrunk.1, true)
  else (shrunk.1, false)

/-- A named tuple is made of the list. -/
def remake (obj : Obj) (cls : String) (fields : List String) (defaults : List Obj) (shrunk : List Obj × Bool) : Obj × Bool :=
  match construct cls fields defaults (.list shrunk.1) with
  | some made => (made, shrunk.2)
  | none => (truncatedHint texts obj, true)

mutual

/-- `_shrink_obj`, at a depth. A named tuple that cannot be made of a list becomes a hint. -/
def shrinkObj (depth : Nat) (obj : Obj) : Obj × Bool :=
  if safety.maxDepth ≤ depth then (truncatedHint texts obj, true)
  else match obj with
    | .str text =>
      if safety.maxStringLen < text.toList.length then (.str (cut (safety.maxStringLen - 3) text ++ "..."), true)
      else (.str text, false)
    | .dict entries =>
      let beyond := exceeds safety.maxDictItems entries.length
      (markDict beyond (shrinkEntries (depth + 1) (shows safety.maxDictItems entries.length) entries)).map .dict id
    | .list items =>
      let beyond := exceeds safety.maxListItems items.length
      (markSeq beyond (shrinkAll (depth + 1) (shows safety.maxListItems items.length) items)).map .list id
    | .tuple items =>
      let beyond := exceeds safety.maxListItems items.length
      (markSeq beyond (shrinkAll (depth + 1) (shows safety.maxListItems items.length) items)).map .tuple id
    | .named cls fields defaults items =>
      let beyond := exceeds safety.maxListItems items.length
      remake texts (.named cls fields defaults items) cls fields defaults
        (markSeq beyond (shrinkAll (depth + 1) (shows safety.maxListItems items.length) items))
    | .scalar text => (.scalar text, false)
    | .generator address => (.generator address, false)

def shrinkAll (depth : Nat) : (kept : Nat) → List Obj → List Obj × Bool
  | kept + 1, x :: xs =>
    let first := shrinkObj depth x
    let others := shrinkAll depth kept xs
    (first.1 :: others.1, first.2 || others.2)
  | _, _ => ([], false)

def shrinkEntries (depth : Nat) : (kept : Nat) → List (Key × Obj) → List (Key × Obj) × Bool
  | kept + 1, (key, x) :: entries =>
    let first := shrinkObj depth x
    let others := shrinkEntries depth kept entries
    ((key, first.1) :: others.1, first.2 || others.2)
  | _, _ => ([], false)

end

/-- `_cap_repr`. -/
def capRepr (obj : Obj) : Obj × Bool :=
  if safety.maxResultReprLen ≤ 0 then (obj, false)
  else
    let s := obj.repr texts
    if s.toList.length ≤ safety.maxResultReprLen then (obj, false)
    else (.dict [(.str "_truncated_repr", .str (cut (safety.maxResultReprLen - 3) s ++ "..."))], true)

end shrinking

/-- An entry of the payload. An error of `none` is an unknown one. -/
structure Entry where
  passed : Bool
  critical : Bool
  skipped : Bool
  skipReason : Option SkipReason
  tags : List String
  timedOut : Bool
  terminated : Bool
  mode : Mode
  attempts : Nat
  resultTruncated : Bool
  result : Option Obj
  error : Option (Option CheckError)

section post

variable (texts : Texts) (safety : Safety) (contextKeys : List String) (address : Nat) (check : CheckResult)

/-- `_effective_redact_tokens`. -/
def effectiveRedactTokens : List String :=
  contextKeys.map texts.lower ++ safety.redactKeys.map texts.lower ++
    ["password", "passwd", "token", "secret", "apikey", "api_key", "authorization", "bearer", "cookie", "session"]

/-- `_postprocess_result`: the result, and whether it is truncated. -/
def postprocessResult (result : Obj) : Obj × Bool :=
  if check.skipped || !check.passed then (result, false)
  else
    let redacted := redactInObj texts (effectiveRedactTokens texts safety contextKeys) address result
    let shrunk := shrinkObj texts safety 0 redacted
    let capped := capRepr texts safety shrunk.1
    (capped.1, shrunk.2 || capped.2)

/-- `_result_to_json`. -/
def resultToJson (result : Obj × Bool) : Entry where
  passed := check.passed && !check.skipped
  critical := check.critical
  skipped := check.skipped
  skipReason := check.skipReason
  tags := check.tags
  timedOut := check.timedOut
  terminated := check.terminated
  mode := check.mode
  attempts := max 1 check.attempts
  resultTruncated := result.2
  result := if !check.skipped && check.passed then some result.1 else none
  error :=
    if !check.skipped && !check.passed then some (check.error.filter (· ≠ .message "")) else none

/-- The entry of a check in the payload of a run. -/
def entryOf (result : Obj) : Entry :=
  resultToJson check (postprocessResult texts safety contextKeys address check result)

end post

end H2kvm.Core.Validation
