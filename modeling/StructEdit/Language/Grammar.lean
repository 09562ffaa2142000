import StructEdit.Text.Blank

namespace StructEdit

inductive Grammar where
  | bash
  | c
  | cpp
  | cSharp
  | css
  | elixir
  | go
  | haskell
  | hcl
  | html
  | java
  | javaScript
  | json
  | kotlin
  | lua
  | nix
  | php
  | python
  | ruby
  | rust
  | scala
  | solidity
  | swift
  | typeScript
  | tsx
  | yaml
deriving DecidableEq, Repr

namespace Grammar

def all : List Grammar :=
  [.bash, .c, .cpp, .cSharp, .css, .elixir, .go, .haskell, .hcl, .html, .java, .javaScript,
    .json, .kotlin, .lua, .nix, .php, .python, .ruby, .rust, .scala, .solidity, .swift,
    .typeScript, .tsx, .yaml]

def label : Grammar → String
  | .bash => "Bash"
  | .c => "C"
  | .cpp => "Cpp"
  | .cSharp => "CSharp"
  | .css => "Css"
  | .elixir => "Elixir"
  | .go => "Go"
  | .haskell => "Haskell"
  | .hcl => "Hcl"
  | .html => "Html"
  | .java => "Java"
  | .javaScript => "JavaScript"
  | .json => "Json"
  | .kotlin => "Kotlin"
  | .lua => "Lua"
  | .nix => "Nix"
  | .php => "Php"
  | .python => "Python"
  | .ruby => "Ruby"
  | .rust => "Rust"
  | .scala => "Scala"
  | .solidity => "Solidity"
  | .swift => "Swift"
  | .typeScript => "TypeScript"
  | .tsx => "Tsx"
  | .yaml => "Yaml"

def names : Grammar → List String
  | .bash => ["bash"]
  | .c => ["c"]
  | .cpp => ["cc", "c++", "cpp", "cxx"]
  | .cSharp => ["cs", "csharp"]
  | .css => ["css"]
  | .elixir => ["ex", "elixir"]
  | .go => ["go", "golang"]
  | .haskell => ["hs", "haskell"]
  | .hcl => ["hcl"]
  | .html => ["html"]
  | .java => ["java"]
  | .javaScript => ["javascript", "js", "jsx"]
  | .json => ["json"]
  | .kotlin => ["kotlin", "kt"]
  | .lua => ["lua"]
  | .nix => ["nix"]
  | .php => ["php"]
  | .python => ["py", "python"]
  | .ruby => ["rb", "ruby"]
  | .rust => ["rs", "rust"]
  | .scala => ["scala"]
  | .solidity => ["sol", "solidity"]
  | .swift => ["swift"]
  | .typeScript => ["ts", "typescript"]
  | .tsx => ["tsx"]
  | .yaml => ["yaml", "yml"]

/-- The grammar of a name, whatever the case of its ASCII letters. -/
def ofName? (name : String) : Option Grammar :=
  all.find? fun g => g.names.contains (lowerName name)

end Grammar

end StructEdit
