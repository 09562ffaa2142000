import StructEdit.Fault
import StructEdit.Location
import StructEdit.Text.Encoding
import StructEdit.Text.Lines
import StructEdit.Text.Position
import StructEdit.Text.Blank
import StructEdit.Text.Indent
import StructEdit.Json.Basic
import StructEdit.Json.Reader
import StructEdit.Json.Writer
import StructEdit.Tree.Basic
import StructEdit.Tree.Cursor
import StructEdit.Tree.Errors
import StructEdit.Tree.Lookup
import StructEdit.Tree.Record
import StructEdit.Document
import StructEdit.Error
import StructEdit.Parser
import StructEdit.Scope
import StructEdit.Language.Tables
import StructEdit.Edit.Replacement
import StructEdit.Edit.Split
import StructEdit.Edit.Barf
import StructEdit.Edit.Raise
import StructEdit.Descriptor
import StructEdit.Text.Similarity
import StructEdit.Language.Grammar
import StructEdit.Language.Definition
import StructEdit.Language.Builtin
import StructEdit.Language.Registry
import StructEdit.Language.Session
import StructEdit.Command
import StructEdit.Files
import StructEdit.Config.Entry
import StructEdit.Config.Validation
import StructEdit.Config.Decode
import StructEdit.Config.Load
import StructEdit.Text.Diff
import StructEdit.Wire
import StructEdit.Tree.Snapshot
import StructEdit.Cli.Arguments
import StructEdit.Cli.Run
import StructEdit.Main
import StructEdit.Proofs.Text.Reading
import StructEdit.Proofs.Text.Boundary
import StructEdit.Proofs.Text.Translation
import StructEdit.Proofs.Tree.WellFormed
import StructEdit.Proofs.Tree.Lineage
import StructEdit.Proofs.Tree.Descent
import StructEdit.Proofs.Document
import StructEdit.Proofs.Parser
import StructEdit.Proofs.Offset
import StructEdit.Proofs.Scope
import StructEdit.Proofs.Lookup
import StructEdit.Proofs.Edit.Region
import StructEdit.Proofs.Edit.Insertion
import StructEdit.Proofs.Edit.Reparse
import StructEdit.Proofs.Fault
import StructEdit.Proofs.Command
import StructEdit.Proofs.Text.Name
import StructEdit.Proofs.Language.Registry
import StructEdit.Proofs.Language.Session
import StructEdit.Proofs.Config.Overlay
import StructEdit.Proofs.Config.Validation
import StructEdit.Proofs.Edit.Target
import StructEdit.Proofs.Outside
import StructEdit.Proofs.Edit.Elements
import StructEdit.Proofs.Edit.Reorder
import StructEdit.Proofs.Text.Clamp
import StructEdit.Proofs.Edit.Points
import StructEdit.Proofs.Closing
import StructEdit.Proofs.Text.Indent
import StructEdit.Proofs.Config.Acceptance
import StructEdit.Proofs.Descriptor
import StructEdit.Proofs.Tree.Preorder
import StructEdit.Proofs.Text.Lines
import StructEdit.Proofs.Text.Units
import StructEdit.Proofs.Word.Text
import StructEdit.Proofs.Word.Edit
import StructEdit.Proofs.Word.Command
