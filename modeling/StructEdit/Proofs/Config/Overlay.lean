import StructEdit.Config.Entry
import StructEdit.Proofs.Language.Registry

namespace StructEdit

theorem Delimiters.lookup_overlay (own base : Delimiters) (kind : String) :
    (own.overlay base).lookup kind = (own.lookup kind).or (base.lookup kind) := by
  rw [overlay, List.lookup_append]
  cases hown : own.lookup kind with
  | some delimiter => rfl
  | none =>
    rw [Option.none_or, Option.none_or]
    induction base with
    | nil => rfl
    | cons entry base ih =>
      obtain ⟨other, delimiter⟩ := entry
      by_cases h : kind = other
      · subst h
        simp [hown]
      · have hne : (kind == other) = false := by simpa using h
        rw [List.filter_cons]
        split
        · rw [List.lookup_cons, List.lookup_cons, hne, ih]
        · rw [List.lookup_cons, hne, ih]

namespace Entry

variable {e : Entry} {d : Definition}

/-- The table of a definition is the one that is given, or else that of the base language. -/
def Inherits (given : Option (List String)) (base : Option Definition)
    (table : Tables → List String)
    (d : Definition) : Prop :=
  match given with
  | some kinds => table d.tables = kinds
  | none => ∃ b, base = some b ∧ table d.tables = table b.tables

theorem inherits_iff {given : Option (List String)} {base : Option Definition}
    {table : Tables → List String} :
    Inherits given base table d ↔
      (given <|> base.map fun b => table b.tables) = some (table d.tables) := by
  cases given with
  | some kinds => simp [Inherits, eq_comm]
  | none => cases base <;> simp [Inherits, eq_comm]

structure Resolves (e : Entry) (d : Definition) : Prop where
  named : e.key ≠ ""
  name : d.name = e.key
  displayName : d.displayName = (e.displayName <|>
    (Builtin.find? e.key).map (·.displayName)).getD (trimName e.name)
  grammar : e.grammar? = some d.grammar
  scopes : Inherits e.scopes (Builtin.find? e.key) Tables.scopes d
  splittable : Inherits e.splittable (Builtin.find? e.key) Tables.splittable d
  units : Inherits e.units (Builtin.find? e.key) Tables.units d
  delimiters : d.tables.delimiters =
    e.delimiters.overlay (((Builtin.find? e.key).map (·.tables.delimiters)).getD [])

theorem definition?_eq_some_iff : e.definition? = some d ↔ e.Resolves d := by
  constructor
  · intro h
    rw [definition?] at h
    split at h
    · cases h
    · next hkey =>
      obtain ⟨grammar, hgrammar, h⟩ := Option.bind_eq_some_iff.mp h
      obtain ⟨scopes, hscopes, h⟩ := Option.bind_eq_some_iff.mp h
      obtain ⟨splittable, hsplittable, h⟩ := Option.bind_eq_some_iff.mp h
      obtain ⟨units, hunits, h⟩ := Option.bind_eq_some_iff.mp h
      obtain rfl := Option.some.inj h
      exact ⟨hkey, rfl, rfl, hgrammar, inherits_iff.mpr hscopes, inherits_iff.mpr hsplittable,
        inherits_iff.mpr hunits, rfl⟩
  · rintro ⟨hkey, hname, hdisplayName, hgrammar, hscopes, hsplittable, hunits, hdelimiters⟩
    obtain ⟨name, displayName, grammar, scopes, splittable, units, delimiters⟩ := d
    dsimp only at hname hdisplayName hdelimiters
    subst hname hdisplayName hdelimiters
    rw [definition?, if_neg hkey, hgrammar]
    simp only [inherits_iff.mp hscopes, inherits_iff.mp hsplittable, inherits_iff.mp hunits,
      Option.bind_eq_bind, Option.bind_some]
    rfl

theorem name_of_definition? (h : e.definition? = some d) : d.name = e.key :=
  (definition?_eq_some_iff.mp h).name

theorem Resolves.delimiterFor (h : e.Resolves d) (kind : String) :
    d.tables.delimiterFor kind = ((e.delimiters.lookup kind).or
      ((Builtin.find? e.key).bind fun b => b.tables.delimiters.lookup kind)).getD " " := by
  rw [Tables.delimiterFor, h.delimiters, Delimiters.lookup_overlay]
  cases Builtin.find? e.key with
  | none => rfl
  | some b => rfl

end Entry

namespace Config

variable {config earlier later : Config} {e : Entry} {d : Definition} {k name : String}

theorem name_ne_of_mem_definitions (h : ∀ e ∈ config, e.key = k → e.definition? = none)
    (hd : d ∈ config.definitions) : d.name ≠ k := by
  obtain ⟨e, he, hdefinition⟩ := List.mem_filterMap.mp hd
  intro hname
  have hnone := h e he ((Entry.name_of_definition? hdefinition).symm.trans hname)
  rw [hnone] at hdefinition
  cases hdefinition

theorem find?_reverse_definitions_eq_none (h : ∀ e ∈ config, e.key = k → e.definition? = none) :
    config.definitions.reverse.find? (·.name == k) = none := by
  apply List.find?_eq_none.mpr
  intro d hd
  simpa using name_ne_of_mem_definitions h (List.mem_reverse.mp hd)

theorem find?_reverse_definitions (hkey : e.key = k) (hdefinition : e.definition? = some d)
    (hlater : ∀ e' ∈ later, e'.key = k → e'.definition? = none) :
    (definitions (earlier ++ e :: later)).reverse.find? (·.name == k) = some d := by
  have hname : d.name = k := (Entry.name_of_definition? hdefinition).trans hkey
  have hsplit : definitions (earlier ++ e :: later) =
      earlier.definitions ++ d :: later.definitions := by
    rw [definitions, List.filterMap_append, List.filterMap_cons_some hdefinition]
    rfl
  rw [hsplit, List.reverse_append, List.reverse_cons, List.append_assoc, List.find?_append,
    find?_reverse_definitions_eq_none hlater, Option.none_or]
  simp [hname]

theorem listed?_registry (config : Config) (k : String) :
    config.registry.listed? k = (config.definitions.reverse.find? (·.name == k)).or
      (Builtin.definitions.find? (·.name == k)) := by
  have hreverse : Builtin.definitions.reverse.find? (·.name == k) =
      Builtin.definitions.find? (·.name == k) := by
    have hpairwise := List.pairwise_reverse.mpr
      (Builtin.pairwise_definitions.imp fun h => Ne.symm h)
    ext d
    rw [Registry.find?_name_eq_some_iff hpairwise,
      Registry.find?_name_eq_some_iff Builtin.pairwise_definitions, List.mem_reverse]
  rw [registry, Registry.listed?_ofDefinitions, List.reverse_append, List.find?_append,
    hreverse]

theorem find?_registry (config : Config) (name : String) :
    config.registry.find? name =
      (config.definitions.reverse.find? (·.name == nameKey name)).or (Builtin.find? name) :=
  listed?_registry config (nameKey name)

theorem find?_registry_of_last (hkey : e.key = nameKey name)
    (hdefinition : e.definition? = some d)
    (hlater : ∀ e' ∈ later, e'.key = nameKey name → e'.definition? = none) :
    (registry (earlier ++ e :: later)).find? name = some d := by
  rw [find?_registry, find?_reverse_definitions hkey hdefinition hlater, Option.some_or]

theorem find?_registry_of_none (h : ∀ e ∈ config, e.key = nameKey name → e.definition? = none) :
    config.registry.find? name = Builtin.find? name := by
  rw [find?_registry, find?_reverse_definitions_eq_none h, Option.none_or]

theorem find?_registry_of_mem (hd : d ∈ config.registry.definitions) :
    config.registry.find? d.name = some d := by
  have hlisted : config.registry.listed? d.name = some d := Registry.listed?_name_of_mem hd
  have hname : nameKey d.name = d.name := by
    rw [listed?_registry, Option.or_eq_some_iff] at hlisted
    rcases hlisted with hentry | ⟨_, hbuiltin⟩
    · obtain ⟨e, _, he⟩ := List.mem_filterMap.mp (List.mem_reverse.mp
        (List.mem_of_find?_eq_some hentry))
      rw [Entry.name_of_definition? he]
      exact nameKey_nameKey e.name
    · exact Builtin.nameKey_name d (List.mem_of_find?_eq_some hbuiltin)
  rw [Registry.find?_eq_listed?, hname]
  exact hlisted

/-- Under every name the last entry that defines a language counts, over the builtin one. -/
theorem registry_overlays_builtins (config : Config) (name : String) :
    (∀ (earlier : Config) (e : Entry) (later : Config) (d : Definition),
      config = earlier ++ e :: later → e.key = nameKey name → e.definition? = some d →
      (∀ e' ∈ later, e'.key = nameKey name → e'.definition? = none) →
      config.registry.find? name = some d ∧
        Entry.Inherits e.scopes (Builtin.find? name) Tables.scopes d ∧
        Entry.Inherits e.splittable (Builtin.find? name) Tables.splittable d ∧
        Entry.Inherits e.units (Builtin.find? name) Tables.units d ∧
        ∀ kind, d.tables.delimiterFor kind = ((e.delimiters.lookup kind).or
          ((Builtin.find? name).bind fun b => b.tables.delimiters.lookup kind)).getD " ") ∧
    ((∀ e ∈ config, e.key = nameKey name → e.definition? = none) →
      config.registry.find? name = Builtin.find? name) ∧
    (∀ b ∈ Builtin.definitions, (∀ e ∈ config, e.key = b.name → e.definition? = none) →
      config.registry.find? b.name = some b) ∧
    ∀ d ∈ config.registry.definitions, config.registry.find? d.name = some d := by
  refine ⟨?_, find?_registry_of_none, ?_, fun d hd => find?_registry_of_mem hd⟩
  · rintro earlier e later d rfl hkey hdefinition hlater
    have hresolves := Entry.definition?_eq_some_iff.mp hdefinition
    have hbase : Builtin.find? e.key = Builtin.find? name := by
      rw [hkey, Builtin.find?_nameKey]
    rw [← hbase]
    exact ⟨find?_registry_of_last hkey hdefinition hlater, hresolves.scopes,
      hresolves.splittable, hresolves.units, hresolves.delimiterFor⟩
  · intro b hb hnone
    have hname := Builtin.nameKey_name b hb
    rw [find?_registry_of_none (by rwa [hname])]
    exact Builtin.find?_name hb

theorem registry_overlays_rust :
    let earlier : Config := [{ name := " RUST", units := some ["block"] }, { name := "go" }]
    let e : Entry := { name := "Rust\t", scopes := some [], delimiters := [("use_list", ";")] }
    let later : Config := [{ name := "ruST", grammarGiven := some "oxide" }]
    let config := earlier ++ e :: later
    let d : Definition := ⟨"rust", "Rust", .rust, { Builtin.rustTables with
      scopes := [], delimiters := .overlay [("use_list", ";")] Builtin.rustTables.delimiters }⟩
    e.key = nameKey "rUst" ∧ e.definition? = some d ∧
      (∀ e' ∈ later, e'.key = nameKey "rUst" → e'.definition? = none) ∧
      config.registry.find? "rUst" = some d ∧
      Entry.Inherits e.scopes (Builtin.find? "rUst") Tables.scopes d ∧
      Entry.Inherits e.units (Builtin.find? "rUst") Tables.units d ∧
      (∀ kind, d.tables.delimiterFor kind = ((e.delimiters.lookup kind).or
        ((Builtin.find? "rUst").bind fun b => b.tables.delimiters.lookup kind)).getD " ") ∧
      config.registry.find? "Go" = Builtin.find? "Go" := by
  intro earlier e later config d
  have hdefinition : e.definition? = some d := by decide
  have hlater : ∀ e' ∈ later, e'.key = nameKey "rUst" → e'.definition? = none := by decide
  obtain ⟨hfind, hscopes, _, hunits, hdelimiters⟩ :=
    (registry_overlays_builtins config "rUst").1 earlier e later d rfl (by decide) hdefinition
      hlater
  exact ⟨by decide, hdefinition, hlater, hfind, hscopes, hunits, hdelimiters,
    (registry_overlays_builtins config "Go").2.1 (by decide)⟩

end Config

end StructEdit
