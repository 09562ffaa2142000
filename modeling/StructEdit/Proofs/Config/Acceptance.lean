import StructEdit.Proofs.Config.Validation

namespace StructEdit

theorem Grammar.mem_all (g : Grammar) : g ∈ all := by
  cases g <;> decide

theorem Grammar.ofName?_eq_none_iff (name : String) :
    ofName? name = none ↔ ∀ g : Grammar, lowerName name ∉ g.names := by
  rw [ofName?, List.find?_eq_none]
  constructor
  · intro h g hg
    exact h g g.mem_all (List.contains_iff_mem.mpr hg)
  · intro h g _ hg
    exact h g (List.contains_iff_mem.mp hg)

theorem Builtin.find?_eq_none_iff (name : String) :
    find? name = none ↔ ∀ b ∈ definitions, b.name ≠ nameKey name := by
  rw [find?, List.find?_eq_none]
  simp only [beq_iff_eq, ne_eq]

namespace Entry

variable {e : Entry} {seen : List String} {key : String}

def tables (e : Entry) : List (Option (List String)) := [e.scopes, e.splittable, e.units]

/-- What an entry has to be like. -/
structure Acceptable (e : Entry) : Prop where
  named : ¬isBlankName e.name
  grammar : ∃ g : Grammar, nameKey (e.grammarGiven.getD e.name) ∈ g.names
  complete : (∀ b ∈ Builtin.definitions, b.name ≠ e.key) → none ∉ e.tables
  kinds : ∀ kinds, some kinds ∈ e.tables → ∀ kind ∈ kinds, ¬isBlankName kind
  delimiters : ∀ entry ∈ e.delimiters, ¬isBlankName entry.1

theorem key_eq_empty_iff : e.key = "" ↔ isBlankName e.name := nameKey_eq_empty_iff e.name

theorem find?_key_eq_none_iff :
    Builtin.find? e.key = none ↔ ∀ b ∈ Builtin.definitions, b.name ≠ e.key := by
  rw [Builtin.find?_eq_none_iff, key, nameKey_nameKey]

theorem grammarIssues_eq_nil_iff : e.grammarIssues = [] ↔
    ∃ g : Grammar, nameKey (e.grammarGiven.getD e.name) ∈ g.names := by
  have hgrammar : e.grammar? = none ↔
      ∀ g : Grammar, nameKey (e.grammarGiven.getD e.name) ∉ g.names :=
    Grammar.ofName?_eq_none_iff e.grammarName
  rw [grammarIssues]
  simp [hgrammar]

/-- A table is left out for a builtin language only, and has no blank kind. -/
def TableFits (e : Entry) (given : Option (List String)) : Prop :=
  ((∀ b ∈ Builtin.definitions, b.name ≠ e.key) → given ≠ none) ∧
    ∀ kinds, given = some kinds → ∀ kind ∈ kinds, ¬isBlankName kind

theorem tableIssues_eq_nil_iff {field : Field} {given : Option (List String)} :
    e.tableIssues field given = [] ↔ e.TableFits given := by
  rw [TableFits, ← find?_key_eq_none_iff]
  cases given with
  | none =>
    rw [tableIssues]
    simp
  | some kinds =>
    rw [tableIssues]
    simp

theorem delimiterIssues_eq_nil_iff :
    e.delimiterIssues = [] ↔ ∀ entry ∈ e.delimiters, ¬isBlankName entry.1 := by
  rw [delimiterIssues]
  simp

theorem issues_eq_nil_iff : e.issues = [] ↔ e.Acceptable := by
  by_cases hkey : e.key = ""
  · constructor
    · intro h
      exact absurd hkey (key_ne_of_issues_eq_nil h)
    · intro h
      exact absurd (key_eq_empty_iff.mp hkey) h.named
  · rw [issues, if_neg hkey]
    simp only [List.append_eq_nil_iff, grammarIssues_eq_nil_iff, tableIssues_eq_nil_iff,
      delimiterIssues_eq_nil_iff]
    constructor
    · rintro ⟨⟨⟨⟨hgrammar, hscopes⟩, hsplittable⟩, hunits⟩, hdelimiters⟩
      have htables : ∀ given ∈ e.tables, e.TableFits given := List.forall_mem_cons.mpr
        ⟨hscopes, List.forall_mem_cons.mpr ⟨hsplittable, List.forall_mem_singleton.mpr hunits⟩⟩
      exact ⟨mt key_eq_empty_iff.mpr hkey, hgrammar,
        fun hbuiltin hnone => (htables none hnone).1 hbuiltin rfl,
        fun kinds hkinds => (htables (some kinds) hkinds).2 kinds rfl, hdelimiters⟩
    · intro h
      have htables : ∀ given ∈ e.tables, e.TableFits given := by
        intro given hgiven
        refine ⟨?_, ?_⟩
        · rintro hbuiltin rfl
          exact h.complete hbuiltin hgiven
        · rintro kinds rfl
          exact h.kinds kinds hgiven
      simp only [tables, List.forall_mem_cons] at htables
      obtain ⟨hscopes, hsplittable, hunits, _⟩ := htables
      exact ⟨⟨⟨⟨h.grammar, hscopes⟩, hsplittable⟩, hunits⟩, h.delimiters⟩

theorem duplicateLanguage_not_mem_tableIssues (e : Entry) (field : Field)
    (given : Option (List String)) : .duplicateLanguage key ∉ e.tableIssues field given := by
  cases given with
  | none =>
    rw [tableIssues]
    split <;> simp
  | some kinds =>
    rw [tableIssues]
    split <;> simp

theorem duplicateLanguage_not_mem_issues (e : Entry) : .duplicateLanguage key ∉ e.issues := by
  have hgrammar : .duplicateLanguage key ∉ e.grammarIssues := by
    rw [grammarIssues]
    split <;> simp
  have hdelimiters : .duplicateLanguage key ∉ e.delimiterIssues := by
    rw [delimiterIssues]
    split <;> simp
  rw [issues]
  split
  · simp
  · simp [hgrammar, hdelimiters, duplicateLanguage_not_mem_tableIssues]

theorem count_duplicateLanguage_report (hkey : key ≠ "") :
    (e.report seen).count (.duplicateLanguage key) =
      if e.key = key ∧ key ∈ seen then 1 else 0 := by
  rw [report, List.count_append,
    List.count_eq_zero_of_not_mem e.duplicateLanguage_not_mem_issues, Nat.add_zero]
  by_cases hsame : e.key = key
  · subst hsame
    by_cases hseen : e.key ∈ seen
    · simp [hkey, hseen]
    · simp [hseen]
  · have hnot : ¬(e.key = key ∧ key ∈ seen) := fun h => hsame h.1
    rw [if_neg hnot]
    split
    · simp [hsame]
    · rfl

theorem mem_addKey_iff (hkey : key ≠ "") : key ∈ e.addKey seen ↔ e.key = key ∨ key ∈ seen := by
  rw [addKey]
  split
  · next hempty => simp [hempty, hkey.symm]
  · rw [List.mem_cons, eq_comm]

end Entry

namespace Config

variable {config earlier : Config} {e : Entry} {seen : List String} {key : String}

theorem issues_eq_nil_iff : config.issues = [] ↔
    config ≠ [] ∧ (∀ e ∈ config, e.Acceptable) ∧ (config.map Entry.key).Nodup := by
  rw [issues, List.append_eq_nil_iff, issuesAfter_eq_nil_iff]
  simp [Entry.issues_eq_nil_iff]

theorem mem_foldl_addKey_iff (hkey : key ≠ "") :
    key ∈ config.foldl Entry.addKey seen ↔ key ∈ seen ∨ key ∈ config.map Entry.key := by
  induction config generalizing seen with
  | nil => simp
  | cons e rest ih =>
    rw [List.foldl_cons, ih, Entry.mem_addKey_iff hkey, List.map_cons, List.mem_cons, or_assoc,
      or_left_comm, @eq_comm _ key]

/-- Every entry with a key but the first is reported for having it. -/
theorem count_duplicateLanguage_issuesAfter (hkey : key ≠ "") (seen : List String)
    (config : Config) :
    (issuesAfter seen config).count (.duplicateLanguage key) =
      (config.map Entry.key).count key - if key ∈ seen then 0 else 1 := by
  induction config generalizing seen with
  | nil => rw [issuesAfter, List.map_nil, List.count_nil, List.count_nil, Nat.zero_sub]
  | cons e rest ih =>
    rw [issuesAfter_cons, List.count_append, Entry.count_duplicateLanguage_report hkey, ih,
      List.map_cons]
    simp only [Entry.mem_addKey_iff hkey]
    -- an entry with the key either is noted or makes the key a used one
    by_cases hsame : e.key = key
    · by_cases hseen : key ∈ seen
      · simp [hsame, hseen, Nat.add_comm]
      · simp [hsame, hseen]
    · simp [hsame]

theorem count_duplicateLanguage_issues (hkey : key ≠ "") (config : Config) :
    config.issues.count (.duplicateLanguage key) = (config.map Entry.key).count key - 1 := by
  have hcount := count_duplicateLanguage_issuesAfter hkey [] config
  rw [if_neg List.not_mem_nil] at hcount
  rw [issues, List.count_append, hcount]
  split <;> simp

theorem issues_append_cons (earlier : Config) (e : Entry) (later : Config) :
    issues (earlier ++ e :: later) =
      issuesAfter [] earlier ++ e.report (earlier.foldl Entry.addKey []) ++
        issuesAfter ((earlier ++ [e]).foldl Entry.addKey []) later := by
  rw [issues_of_ne_nil (by simp), ← issuesAfter_concat, ← issuesAfter_append, List.append_assoc,
    List.singleton_append]

theorem issues_singleton (e : Entry) : issues [e] = e.issues := by
  rw [issues_of_ne_nil (List.cons_ne_nil e []), issuesAfter_cons, Entry.report,
    if_neg fun h => List.not_mem_nil h.2, issuesAfter, List.append_nil, List.nil_append]

theorem report_of_named (h : ¬isBlankName e.name) (earlier : Config) :
    e.report (earlier.foldl Entry.addKey []) =
      (if e.key ∈ earlier.map Entry.key then [.duplicateLanguage e.key] else []) ++
        issues [e] := by
  have hkey : e.key ≠ "" := mt Entry.key_eq_empty_iff.mp h
  have hseen : e.key ∈ earlier.foldl Entry.addKey [] ↔ e.key ∈ earlier.map Entry.key := by
    rw [mem_foldl_addKey_iff hkey]
    simp
  rw [Entry.report, issues_singleton]
  simp only [hseen, ne_eq, hkey, not_false_eq_true, true_and]

/-- A configuration is accepted exactly if all entries are acceptable and no key comes twice. -/
theorem check_accepts_and_reports (config : Config) :
    (config.issues = [] ↔
      config ≠ [] ∧ (∀ e ∈ config, e.Acceptable) ∧ (config.map Entry.key).Nodup) ∧
    (∀ key, key ≠ "" →
      config.issues.count (.duplicateLanguage key) = (config.map Entry.key).count key - 1) ∧
    ∀ (earlier : Config) (e : Entry) (later : Config), config = earlier ++ e :: later →
      ¬isBlankName e.name →
      ∃ found rest, config.issues = issuesAfter [] earlier ++ found ++ rest ∧
        issuesAfter [] (earlier ++ [e]) = issuesAfter [] earlier ++ found ∧
        found =
          (if e.key ∈ earlier.map Entry.key then [.duplicateLanguage e.key] else []) ++
            issues [e] := by
  refine ⟨issues_eq_nil_iff, fun key hkey => count_duplicateLanguage_issues hkey config, ?_⟩
  rintro earlier e later rfl hname
  exact ⟨e.report (earlier.foldl Entry.addKey []), _, issues_append_cons earlier e later,
    issuesAfter_concat [] earlier e, report_of_named hname earlier⟩

theorem check_accepts_go_and_reports_rust :
    let go : Entry := {
      name := " Go"
      scopes := some ["block"]
      splittable := some []
      units := some ["identifier"] }
    let rust : Entry := { name := "rust" }
    let nameless : Entry := { name := " \t" }
    let again : Entry := { name := " RUST", units := some ["\u3000"] }
    let unknown : Entry := { name := "rusT\n", grammarGiven := some " oxide " }
    let valid : Config := [go, rust]
    let earlier : Config := [rust, nameless]
    let config : Config := earlier ++ again :: [unknown]
    valid.issues = [] ∧ (∀ e ∈ valid, e.Acceptable) ∧
      config.issues = [.missingField none .name, .duplicateLanguage "rust",
        .blankCategory "rust" .units, .duplicateLanguage "rust",
        .unknownGrammar "rust" "oxide"] ∧
      "rust" ≠ "" ∧ config.issues.count (.duplicateLanguage "rust") = 2 ∧
      ¬isBlankName again.name ∧ issues [again] = [.blankCategory "rust" .units] ∧
      ∃ found rest, config.issues = issuesAfter [] earlier ++ found ++ rest ∧
        issuesAfter [] (earlier ++ [again]) = issuesAfter [] earlier ++ found ∧
        found = [.duplicateLanguage "rust"] ++ issues [again] := by
  intro go rust nameless again unknown valid earlier config
  have hvalid : valid.issues = [] := by decide
  have hname : ¬isBlankName again.name := by decide
  have hkey : again.key = "rust" := by decide
  have hseen : again.key ∈ earlier.map Entry.key := by decide
  have htwo : (config.map Entry.key).count "rust" - 1 = 2 := by decide
  obtain ⟨_, hcount, hreport⟩ := check_accepts_and_reports config
  obtain ⟨found, rest, hissues, hconcat, hfound⟩ := hreport earlier again [unknown] rfl hname
  rw [if_pos hseen, hkey] at hfound
  exact ⟨hvalid, ((check_accepts_and_reports valid).1.mp hvalid).2.1, by decide +kernel,
    by decide, (hcount "rust" (by decide)).trans htwo, hname, by decide, found, rest, hissues,
    hconcat, hfound⟩

end Config

end StructEdit
