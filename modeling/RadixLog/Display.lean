/-
**What readers see.**

The form in which values are shown, and the log line of each event. Changes of shape are traced;
decisions of a journal are there for debugging.
-/

import RadixLog.Journal
import RadixLog.Text.Shown

namespace RadixLog

/-! ### Values -/

/-- An identifier in the form in which it is shown. -/
def EntryId.shown (id : EntryId) : Shown :=
  .record "StreamId" [("ms", .number id.ms.toNat), ("seq", .number id.seq.toNat)]

/-- An entry in the form in which it is shown. -/
def Entry.shown (entry : Entry) : Shown :=
  .record "Entry" [("fields", .list (entry.fields.map fun (name, value) =>
    .tuple "" [.bytes name, .bytes value]))]

/-- A setup in the form in which it is shown. -/
def JournalOptions.shown (options : JournalOptions) : Shown :=
  .record "StreamConfig"
    [("tree", .record "TreeConfig" [("initial_capacity", .number options.tree.capacity)]),
     ("max_len", .option (options.maxSize.map .number)),
     ("on_sequence_overflow", .atom options.overflow.name)]

/-- The entries of a tree in order, in the form in which they are shown. -/
def Tree.shown {α : Type} (tree : Tree α) (value : α → Shown) : Except Fault Shown := do
  return .map ((← tree.entries).map fun entry => (.bytes entry.1, value entry.2))

/-! ### Log lines -/

/-- A node in a log line. -/
def nodeText (id : NodeRef) : String := "NodeId(" ++ toString id ++ ")"

/-- The log line of a change of shape. -/
def Reshape.logLine : Reshape → String
  | .split node cut parent =>
    "TRACE split " ++ nodeText node ++ " at " ++ toString cut ++ ", new parent " ++ nodeText parent
  | .merged child node => "TRACE merged " ++ nodeText child ++ " into " ++ nodeText node
  | .pruned length => "TRACE pruned leaf for key of " ++ toString length ++ " bytes"

/-- The log line of a journal event. -/
def JournalEvent.logLine : JournalEvent → String
  | .reshaped reshape => reshape.logLine
  | .rejected id last => "DEBUG rejected explicit id " ++ id.text ++ ", last id is " ++ last.text
  | .clockBehind now last =>
    "DEBUG clock at " ++ toString now.toNat ++ " is behind last id " ++ last.text
      ++ ", reusing its millisecond"
  | .advanced ms next =>
    "DEBUG sequence exhausted at " ++ toString ms.toNat ++ ", advancing to " ++ toString next.toNat
  | .trimmed count maxSize =>
    "DEBUG trimmed " ++ toString count ++ " entries to max length " ++ toString maxSize

end RadixLog
