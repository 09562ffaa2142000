import StructEdit.Language.Grammar
import StructEdit.Language.Tables

namespace StructEdit

structure Definition where
  /-- The name it is registered under, as `nameKey` gives it. -/
  name : String
  displayName : String
  grammar : Grammar
  tables : Tables
deriving DecidableEq

end StructEdit
