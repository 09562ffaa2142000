import StructEdit.Config.Validation
import StructEdit.Proofs.Config.Overlay
import StructEdit.Proofs.Language.Session

namespace StructEdit

/-- Whether the entry that the issue is about defines no language. -/
def Issue.isBlocking : Issue → Bool
  | .missingField _ _ => true
  | .unknownGrammar _ _ => true
  | _ => false

namespace Entry

variable {e : Entry}

theorem any_isBlocking_tableIssues (e : Entry) (field : Field) (given : Option (List String)) :
    (e.tableIssues field given).any Issue.isBlocking =
      (given.isNone && (Builtin.find? e.key).isNone) := by
  cases given with
  | none =>
    rw [tableIssues]
    split
    · next h => rw [h]; rfl
    · next h => rw [Bool.eq_false_iff.mpr h]; rfl
  | some kinds =>
    rw [tableIssues]
    split <;> rfl

theorem any_isBlocking_grammarIssues (e : Entry) :
    e.grammarIssues.any Issue.isBlocking = e.grammar?.isNone := by
  rw [grammarIssues]
  split
  · next h => rw [h]; rfl
  · next h => rw [Bool.eq_false_iff.mpr h]; rfl

theorem any_isBlocking_delimiterIssues (e : Entry) :
    e.delimiterIssues.any Issue.isBlocking = false := by
  rw [delimiterIssues]
  split <;> rfl

theorem inherited_eq_none_iff (given : Option (List String)) (base : Option Definition)
    (table : Definition → List String) :
    (given <|> base.map table) = none ↔ given = none ∧ base = none := by
  cases given <;> simp

theorem definition?_eq_none_iff : e.definition? = none ↔ e.key = "" ∨ e.grammar? = none ∨
    (e.scopes = none ∧ Builtin.find? e.key = none) ∨
    (e.splittable = none ∧ Builtin.find? e.key = none) ∨
    (e.units = none ∧ Builtin.find? e.key = none) := by
  rw [definition?, ← inherited_eq_none_iff e.scopes _ (·.tables.scopes),
    ← inherited_eq_none_iff e.splittable _ (·.tables.splittable),
    ← inherited_eq_none_iff e.units _ (·.tables.units)]
  split
  · next hkey => simp [hkey]
  · next hkey =>
    simp only [hkey, false_or, Option.bind_eq_bind]
    generalize e.grammar? = grammar
    generalize (e.scopes <|> (Builtin.find? e.key).map (·.tables.scopes)) = scopes
    generalize (e.splittable <|> (Builtin.find? e.key).map (·.tables.splittable)) = splittable
    generalize (e.units <|> (Builtin.find? e.key).map (·.tables.units)) = units
    cases grammar with
    | none => simp
    | some grammar =>
      cases scopes with
      | none => simp
      | some scopes =>
        cases splittable with
        | none => simp
        | some splittable => cases units <;> simp

/-- An entry defines no language exactly if it has an issue that blocks it. -/
theorem any_isBlocking_issues (e : Entry) :
    e.issues.any Issue.isBlocking = e.definition?.isNone := by
  rw [Bool.eq_iff_iff, Option.isNone_iff_eq_none, definition?_eq_none_iff, issues]
  split
  · next hkey => simp [hkey, Issue.isBlocking]
  · next hkey =>
    simp [any_isBlocking_grammarIssues, any_isBlocking_tableIssues,
      any_isBlocking_delimiterIssues, hkey]

def report (seen : List String) (e : Entry) : List Issue :=
  (if e.key ≠ "" ∧ e.key ∈ seen then [.duplicateLanguage e.key] else []) ++ e.issues

def addKey (seen : List String) (e : Entry) : List String :=
  if e.key = "" then seen else e.key :: seen

theorem any_isBlocking_report (seen : List String) (e : Entry) :
    (e.report seen).any Issue.isBlocking = e.definition?.isNone := by
  rw [report, List.any_append, any_isBlocking_issues]
  split <;> simp [Issue.isBlocking]

theorem key_ne_of_issues_eq_nil (h : e.issues = []) : e.key ≠ "" := by
  intro hkey
  rw [issues, if_pos hkey] at h
  cases h

theorem report_eq_nil_iff {seen : List String} :
    e.report seen = [] ↔ e.issues = [] ∧ e.key ∉ seen := by
  rw [report, List.append_eq_nil_iff]
  constructor
  · rintro ⟨hduplicate, hissues⟩
    refine ⟨hissues, fun hseen => ?_⟩
    rw [if_pos ⟨key_ne_of_issues_eq_nil hissues, hseen⟩] at hduplicate
    cases hduplicate
  · rintro ⟨hissues, hseen⟩
    exact ⟨if_neg fun h => hseen h.2, hissues⟩

end Entry

namespace Config

variable {config earlier later : Config} {e : Entry} {d : Definition} {seen : List String}

theorem issuesAfter_cons (seen : List String) (e : Entry) (rest : Config) :
    issuesAfter seen (e :: rest) = e.report seen ++ issuesAfter (e.addKey seen) rest := by
  rw [issuesAfter, Entry.report, Entry.addKey]
  by_cases hkey : e.key = ""
  · simp [hkey]
  · simp [hkey]

theorem issuesAfter_append (seen : List String) (earlier later : Config) :
    issuesAfter seen (earlier ++ later) =
      issuesAfter seen earlier ++ issuesAfter (earlier.foldl Entry.addKey seen) later := by
  induction earlier generalizing seen with
  | nil => rfl
  | cons e earlier ih =>
    rw [List.cons_append, issuesAfter_cons, issuesAfter_cons, ih, List.append_assoc,
      List.foldl_cons]

theorem issuesAfter_concat (seen : List String) (earlier : Config) (e : Entry) :
    issuesAfter seen (earlier ++ [e]) =
      issuesAfter seen earlier ++ e.report (earlier.foldl Entry.addKey seen) := by
  rw [issuesAfter_append, issuesAfter_cons, issuesAfter, List.append_nil]

theorem issues_of_ne_nil (h : config ≠ []) : config.issues = issuesAfter [] config := by
  rw [issues, if_neg (by simpa using h), List.nil_append]

theorem issuesAfter_eq_nil_iff : issuesAfter seen config = [] ↔
    (∀ e ∈ config, e.issues = [] ∧ e.key ∉ seen) ∧ (config.map Entry.key).Nodup := by
  induction config generalizing seen with
  | nil =>
    exact ⟨fun _ => ⟨fun e he => absurd he List.not_mem_nil, List.nodup_nil⟩, fun _ => rfl⟩
  | cons e rest ih =>
    rw [issuesAfter_cons, List.append_eq_nil_iff, Entry.report_eq_nil_iff, ih,
      List.forall_mem_cons, List.map_cons, List.nodup_cons]
    constructor
    · rintro ⟨⟨hissues, hseen⟩, hrest, hnodup⟩
      rw [Entry.addKey, if_neg (Entry.key_ne_of_issues_eq_nil hissues)] at hrest
      refine ⟨⟨⟨hissues, hseen⟩, fun e' he' => ?_⟩, fun hmem => ?_, hnodup⟩
      · obtain ⟨hissues', hseen'⟩ := hrest e' he'
        exact ⟨hissues', fun hmem => hseen' (List.mem_cons_of_mem _ hmem)⟩
      · obtain ⟨e', he', heq⟩ := List.mem_map.mp hmem
        apply (hrest e' he').2
        rw [heq]
        exact List.mem_cons_self
    · rintro ⟨⟨⟨hissues, hseen⟩, hrest⟩, hkey, hnodup⟩
      rw [Entry.addKey, if_neg (Entry.key_ne_of_issues_eq_nil hissues)]
      refine ⟨⟨hissues, hseen⟩, fun e' he' => ⟨(hrest e' he').1, fun hmem => ?_⟩, hnodup⟩
      rcases List.mem_cons.mp hmem with heq | hmem
      · apply hkey
        rw [← heq]
        exact List.mem_map_of_mem he'
      · exact (hrest e' he').2 hmem

theorem of_issuesAfter_eq_nil (h : issuesAfter seen config = []) :
    (∀ e ∈ config, e.key ∉ seen ∧ e.definition? ≠ none) ∧ (config.map Entry.key).Nodup := by
  obtain ⟨hentries, hnodup⟩ := issuesAfter_eq_nil_iff.mp h
  refine ⟨fun e he => ⟨(hentries e he).2, fun hnone => ?_⟩, hnodup⟩
  have hany := e.any_isBlocking_issues
  rw [(hentries e he).1, hnone] at hany
  cases hany

theorem map_some_definitions (h : ∀ e ∈ config, e.definition? ≠ none) :
    config.definitions.map some = config.map Entry.definition? := by
  rw [definitions, List.map_filterMap_some_eq_filter_map_isSome, List.filter_eq_self]
  intro definition hdefinition
  obtain ⟨e, he, rfl⟩ := List.mem_map.mp hdefinition
  exact Option.isSome_iff_ne_none.mpr (h e he)

theorem map_name_definitions (h : ∀ e ∈ config, e.definition? ≠ none) :
    config.definitions.map (·.name) = config.map Entry.key := by
  rw [definitions, List.map_filterMap, ← List.filterMap_eq_map]
  apply List.filterMap_congr
  intro e he
  obtain ⟨d, hd⟩ := Option.ne_none_iff_exists'.mp (h e he)
  rw [hd, Option.map_some, Entry.name_of_definition? hd, Function.comp_apply]

theorem find?_registry_of_nodup (hnodup : (config.map Entry.key).Nodup) (he : e ∈ config)
    (hdefinition : e.definition? = some d) {name : String} (hname : nameKey name = e.key) :
    config.registry.find? name = some d := by
  obtain ⟨earlier, later, rfl⟩ := List.append_of_mem he
  apply find?_registry_of_last hname.symm hdefinition
  intro e' he' hkey
  rw [hname] at hkey
  rw [List.map_append, List.map_cons] at hnodup
  have hlater : e.key ∉ later.map Entry.key :=
    (List.nodup_cons.mp (List.nodup_append.mp hnodup).2.1).1
  exact absurd (List.mem_map.mpr ⟨e', he', hkey⟩) hlater

/-- If nothing is reported, every entry defines a language that can be had by its name. -/
theorem check_agrees_with_definitions (config : Config) :
    (∀ (earlier : Config) (e : Entry) (later : Config), config = earlier ++ e :: later →
      ∃ found rest, config.issues = issuesAfter [] earlier ++ found ++ rest ∧
        issuesAfter [] (earlier ++ [e]) = issuesAfter [] earlier ++ found ∧
        (e.definition? = none ↔ ∃ issue ∈ found, issue.isBlocking)) ∧
    (config.issues = [] →
      config.definitions.map some = config.map Entry.definition? ∧
      (config.definitions.map (·.name)).Nodup ∧ (∀ d ∈ config.definitions, d.name ≠ "") ∧
      ∀ e ∈ config, ∀ spelling, IsSpelling spelling e.name → ∀ names, ∃ p,
        ((Session.run { registry := config.registry } names).2.get spelling).1 = .ok p ∧
          e.definition? = some p.definition) := by
  constructor
  · rintro earlier e later rfl
    have hconcat := issuesAfter_concat [] earlier e
    refine ⟨e.report (earlier.foldl Entry.addKey []),
      issuesAfter ((earlier ++ [e]).foldl Entry.addKey []) later, ?_, hconcat, ?_⟩
    · rw [issues_of_ne_nil (by simp), ← hconcat, ← issuesAfter_append, List.append_assoc,
        List.singleton_append]
    · rw [← List.any_eq_true, Entry.any_isBlocking_report, Option.isNone_iff_eq_none]
  · intro hissues
    obtain ⟨hentries, hnodup⟩ := of_issuesAfter_eq_nil (List.append_eq_nil_iff.mp hissues).2
    have hdefinitions : ∀ e ∈ config, e.definition? ≠ none := fun e he => (hentries e he).2
    refine ⟨map_some_definitions hdefinitions, ?_, ?_, ?_⟩
    · rw [map_name_definitions hdefinitions]
      exact hnodup
    · intro d hd
      obtain ⟨e, _, he⟩ := List.mem_filterMap.mp hd
      rw [Entry.name_of_definition? he]
      exact (Entry.definition?_eq_some_iff.mp he).named
    · intro e he spelling hspelling names
      obtain ⟨d, hd⟩ := Option.ne_none_iff_exists'.mp (hdefinitions e he)
      have hfind : config.registry.find? spelling = some d :=
        find?_registry_of_nodup hnodup he hd hspelling.nameKey_eq
      have hrun := (Session.memoizes_start config.registry).run names
      have hregistered : config.registry.isRegistered spelling := by
        rw [Registry.isRegistered, hfind]
        rfl
      obtain ⟨p, hp⟩ := hrun.exists_get_iff.mpr hregistered
      refine ⟨p, hp, ?_⟩
      rw [hd, ← hfind, hrun.find?_of_get hp]

theorem check_agrees_on_rust :
    let go : Entry := {
      name := " Go"
      scopes := some ["block"]
      splittable := some []
      units := some ["identifier"] }
    let rust : Entry := { name := "RUST" }
    let again : Entry := { name := "rust ", units := some [""] }
    let valid : Config := [go, rust]
    let config : Config := [rust] ++ again :: []
    valid.issues = [] ∧ IsSpelling "\t gO " go.name ∧
      (∃ p, ((Session.run { registry := valid.registry } ["rust"]).2.get "\t gO ").1 = .ok p ∧
        go.definition? = some p.definition) ∧
      config.issues = [.duplicateLanguage "rust", .blankCategory "rust" .units] ∧
      ∃ found rest, config.issues = issuesAfter [] [rust] ++ found ++ rest ∧
        issuesAfter [] ([rust] ++ [again]) = issuesAfter [] [rust] ++ found ∧
        (again.definition? = none ↔ ∃ issue ∈ found, issue.isBlocking) := by
  intro go rust again valid config
  have hvalid : valid.issues = [] := by decide
  have hspelling : IsSpelling "\t gO " go.name :=
    ⟨['\t'], [' ', 'g', 'O'], [' '], by decide, List.forall_mem_singleton.mpr (by decide),
      List.forall_mem_singleton.mpr (by decide), by decide⟩
  obtain ⟨_, _, _, hfetched⟩ := (check_agrees_with_definitions valid).2 hvalid
  exact ⟨hvalid, hspelling, hfetched go List.mem_cons_self _ hspelling ["rust"], by decide,
    (check_agrees_with_definitions config).1 [rust] again [] rfl⟩

end Config

end StructEdit
