/-
**Structured values as text.**

A value shown as text is an atom or a bracketed group of shown items. It can be written on one line,
or with every item on a line of its own, indented by four spaces.

* `Shown.compact`, `Shown.pretty`: the two ways of writing;
* `Shown.list`, `Shown.map`, `Shown.tuple`, `Shown.record`: the groups in use.
-/

namespace RadixLog

/-- A value in the form in which it is shown. -/
inductive Shown where
  /-- A text of its own. -/
  | atom (text : String)
  /-- Items between brackets, with `padding` between a bracket and the items on one line. -/
  | group (opening closing padding : String) (items : List Shown)
  /-- Two items with a colon between them. -/
  | pair (key value : Shown)

namespace Shown

/-- Items between square brackets. -/
def list (items : List Shown) : Shown := .group "[" "]" "" items

/-- Keys and values between braces. -/
def map (entries : List (Shown × Shown)) : Shown :=
  .group "\x7b" "\x7d" "" (entries.map fun (key, value) => .pair key value)

/-- Items between parentheses, after a name or none. -/
def tuple (name : String) (items : List Shown) : Shown := .group (name ++ "(") ")" "" items

/-- Named fields between braces, after a name. -/
def record (name : String) (fields : List (String × Shown)) : Shown :=
  .group (name ++ " \x7b") "\x7d" " " (fields.map fun (field, value) => .pair (.atom field) value)

/-- A number in decimal. -/
def number (value : Nat) : Shown := .atom (toString value)

/-- Bytes as a list of numbers. -/
def bytes (bytes : List UInt8) : Shown := list (bytes.map fun byte => number byte.toNat)

/-- A value or none. -/
def option : Option Shown → Shown
  | none => .atom "None"
  | some value => tuple "Some" [value]

mutual

/-- On one line, items separated by commas. -/
def compact : Shown → String
  | .atom text => text
  | .group opening closing _ [] => opening ++ closing
  | .group opening closing padding (item :: items) =>
    opening ++ padding ++ ", ".intercalate (compactAll (item :: items)) ++ padding ++ closing
  | .pair key value => compact key ++ ": " ++ compact value

/-- Each item on one line. -/
def compactAll : List Shown → List String
  | [] => []
  | item :: items => compact item :: compactAll items

end

/-- Lines with a text added to the last one. -/
def appendLast (lines : List String) (text : String) : List String :=
  match lines with
  | [] => [text]
  | [line] => [line ++ text]
  | line :: lines => line :: appendLast lines text

/-- Two blocks of lines, the second going on where the first ends. -/
def joinLines (before : List String) (link : String) (after : List String) : List String :=
  match after with
  | [] => appendLast before link
  | line :: lines => appendLast before (link ++ line) ++ lines

mutual

/-- The lines of a value written with every item on lines of its own, each followed by a comma. -/
def lines : Shown → List String
  | .atom text => [text]
  | .group opening closing _ [] => [opening ++ closing]
  | .group opening closing _ (item :: items) => opening :: itemLines (item :: items) ++ [closing]
  | .pair key value => joinLines (lines key) ": " (lines value)

/-- The indented lines of the items of a group. -/
def itemLines : List Shown → List String
  | [] => []
  | item :: items => (appendLast (lines item) ",").map ("    " ++ ·) ++ itemLines items

end

/-- With every item on lines of its own. -/
def pretty (shown : Shown) : String := "\n".intercalate shown.lines

end Shown

end RadixLog
