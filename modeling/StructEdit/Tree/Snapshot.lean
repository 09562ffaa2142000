import StructEdit.Json.Basic
import StructEdit.Parser
import StructEdit.Tree.Record

namespace StructEdit

structure Snapshot where
  text : Text
  tree : Tree

namespace Snapshot

/-- A node is listed by kind, start, end, one or zero for missing, and parent. -/
def recordOfJson? : Json → Option NodeRecord
  | .array [kind, start, stop, missing, parent] => do
    let parent ← parent.int?
    return {
      kind := ← kind.string?
      span := ⟨← start.nat?, ← stop.nat?⟩
      missing := (← missing.nat?) != 0
      parent := if parent < 0 then none else some parent.toNat }
  | _ => none

def spanOfJson? : Json → Option Span
  | .array [start, stop] => do return ⟨← start.nat?, ← stop.nat?⟩
  | _ => none

def ofTreeJson? (j : Json) : Option Snapshot := do
  let text := (← (← j.get? "source").string?).toList
  let records ← (← (← j.get? "tree").array?).mapM recordOfJson?
  return ⟨text, ← Tree.ofRecords? records⟩

def ofErrorsJson? (j : Json) : Option Snapshot := do
  let text := (← (← j.get? "source").string?).toList
  let spans ← (← (← j.get? "errors").array?).mapM spanOfJson?
  return ⟨text, Tree.ofErrors (Text.size .utf8 text) spans⟩

end Snapshot

/-- The parser that looks a text up; of two records of one text the first counts. -/
def Parser.ofSnapshots (snapshots : List Snapshot) : Parser := fun t =>
  (snapshots.find? (·.text == t)).map Snapshot.tree

def Parser.ofJson? (j : Json) : Option Parser := do
  let trees ← ((j.get? "trees").getD (.array [])).array?
  let checks ← ((j.get? "checks").getD (.array [])).array?
  return ofSnapshots
    ((← trees.mapM Snapshot.ofTreeJson?) ++ (← checks.mapM Snapshot.ofErrorsJson?))

end StructEdit
