import Mathlib.Data.Finset.Card
import StructEdit.Language.Session
import StructEdit.Proofs.Language.Registry

namespace StructEdit

theorem Registry.isRegistered_iff {r : Registry} {name : String} :
    r.isRegistered name ↔ ∃ d ∈ r.definitions, d.name = nameKey name := by
  rw [isRegistered, find?, List.find?_isSome]
  simp

namespace Session

variable {r : Registry} {s : Session} {name : String} {p q : Profile}

/-- A call finds a profile, builds one, or fails; only building one changes the session. -/
theorem get_cases (s : Session) (name : String) :
    (∃ p ∈ s.built, p.definition.name = nameKey name ∧ s.get name = (.ok p, s)) ∨
    (∃ d, (∀ p ∈ s.built, p.definition.name ≠ nameKey name) ∧ s.registry.find? name = some d ∧
      s.get name = (.ok ⟨d, s.built.length⟩,
        { s with built := s.built ++ [⟨d, s.built.length⟩] })) ∨
    (∃ error, (∀ p ∈ s.built, p.definition.name ≠ nameKey name) ∧ s.registry.find? name = none ∧
      s.get name = (.error error, s)) := by
  rw [get]
  cases hlookup : s.lookup? name with
  | some p =>
    have hname : p.definition.name = nameKey name := by simpa using List.find?_some hlookup
    exact .inl ⟨p, List.mem_of_find?_eq_some hlookup, hname, rfl⟩
  | none =>
    have hbuilt : ∀ p ∈ s.built, p.definition.name ≠ nameKey name := by
      intro p hp
      simpa using List.find?_eq_none.mp hlookup p hp
    cases hfind : s.registry.find? name with
    | some d => exact .inr (.inl ⟨d, hbuilt, rfl, rfl⟩)
    | none => exact .inr (.inr ⟨_, hbuilt, rfl, rfl⟩)

abbrev Call := String × Except EngineError Profile

/-- Asks for the names one after the other. -/
def run (s : Session) : List String → List Call × Session
  | [] => ([], s)
  | name :: rest =>
    let (answer, next) := s.get name
    let (calls, last) := next.run rest
    ((name, answer) :: calls, last)

def fetchedKeys (calls : List Call) : List String :=
  calls.filterMap fun
    | (name, .ok _) => some (nameKey name)
    | (_, .error _) => none

theorem mem_fetchedKeys {calls : List Call} {k : String} :
    k ∈ fetchedKeys calls ↔ ∃ name p, (name, .ok p) ∈ calls ∧ nameKey name = k := by
  rw [fetchedKeys, List.mem_filterMap]
  constructor
  · rintro ⟨⟨name, answer⟩, hcall, hk⟩
    cases answer with
    | error error => cases hk
    | ok p => exact ⟨name, p, hcall, Option.some.inj hk⟩
  · rintro ⟨name, p, hcall, hk⟩
    exact ⟨(name, .ok p), hcall, congrArg some hk⟩

/-- The profiles are numbered as they were built, one for each name that got one. -/
structure Memoizes (r : Registry) (calls : List Call) (s : Session) : Prop where
  registry : s.registry = r
  numbered : s.built.map (·.serial) = List.range s.built.length
  distinct : (s.built.map (·.definition.name)).Nodup
  held : ∀ p ∈ s.built, r.listed? p.definition.name = some p.definition
  answered : ∀ name p, (name, .ok p) ∈ calls → p ∈ s.built ∧ p.definition.name = nameKey name
  asked : ∀ p ∈ s.built, ∃ name, (name, .ok p) ∈ calls

variable {calls : List Call}

theorem memoizes_start (r : Registry) : Memoizes r [] { registry := r } where
  registry := rfl
  numbered := rfl
  distinct := List.nodup_nil
  held _ hp := absurd hp List.not_mem_nil
  answered _ _ hcall := absurd hcall List.not_mem_nil
  asked _ hp := absurd hp List.not_mem_nil

namespace Memoizes

variable {answer : Except EngineError Profile} {d : Definition}

theorem call_unchanged (h : Memoizes r calls s)
    (hanswer : ∀ p, answer = .ok p → p ∈ s.built ∧ p.definition.name = nameKey name) :
    Memoizes r (calls ++ [(name, answer)]) s where
  registry := h.registry
  numbered := h.numbered
  distinct := h.distinct
  held := h.held
  answered := by
    intro m p hcall
    rcases List.mem_append.mp hcall with hcall | hcall
    · exact h.answered m p hcall
    · obtain ⟨rfl, hp⟩ := Prod.mk.inj (List.mem_singleton.mp hcall)
      exact hanswer p hp.symm
  asked := by
    intro p hp
    obtain ⟨m, hm⟩ := h.asked p hp
    exact ⟨m, List.mem_append_left _ hm⟩

theorem call_built (h : Memoizes r calls s)
    (hnew : ∀ p ∈ s.built, p.definition.name ≠ nameKey name) (hfind : r.find? name = some d) :
    Memoizes r (calls ++ [(name, .ok ⟨d, s.built.length⟩)])
      { s with built := s.built ++ [⟨d, s.built.length⟩] } := by
  have hname : d.name = nameKey name := Registry.name_of_listed? hfind
  refine ⟨h.registry, ?_, ?_, ?_, ?_, ?_⟩
  · rw [List.map_append, h.numbered, List.length_append]
    exact List.range_succ.symm
  · rw [List.map_append, List.map_singleton]
    refine List.nodup_append.mpr ⟨h.distinct, List.nodup_singleton _, ?_⟩
    intro k hk _ hk'
    obtain ⟨p, hp, rfl⟩ := List.mem_map.mp hk
    rw [List.mem_singleton.mp hk', hname]
    exact hnew p hp
  · refine List.forall_mem_append.mpr ⟨h.held, List.forall_mem_singleton.mpr ?_⟩
    rw [hname]
    exact hfind
  · intro m p hcall
    rcases List.mem_append.mp hcall with hcall | hcall
    · obtain ⟨hp, hm⟩ := h.answered m p hcall
      exact ⟨List.mem_append_left _ hp, hm⟩
    · obtain ⟨rfl, hp⟩ := Prod.mk.inj (List.mem_singleton.mp hcall)
      cases hp
      exact ⟨List.mem_append_right _ List.mem_cons_self, hname⟩
  · refine List.forall_mem_append.mpr ⟨?_, List.forall_mem_singleton.mpr ?_⟩
    · intro p hp
      obtain ⟨m, hm⟩ := h.asked p hp
      exact ⟨m, List.mem_append_left _ hm⟩
    · exact ⟨name, List.mem_append_right _ List.mem_cons_self⟩

theorem get (h : Memoizes r calls s) (name : String) :
    Memoizes r (calls ++ [(name, (s.get name).1)]) (s.get name).2 := by
  rcases get_cases s name with ⟨p, hp, hname, heq⟩ | ⟨d, hnew, hfind, heq⟩ | ⟨error, _, _, heq⟩
  · rw [heq]
    apply h.call_unchanged
    rintro _ ⟨⟩
    exact ⟨hp, hname⟩
  · rw [heq]
    rw [h.registry] at hfind
    exact h.call_built hnew hfind
  · rw [heq]
    apply h.call_unchanged
    rintro _ ⟨⟩

theorem run (h : Memoizes r calls s) (names : List String) :
    Memoizes r (calls ++ (s.run names).1) (s.run names).2 := by
  induction names generalizing s calls with
  | nil =>
    rw [Session.run, List.append_nil]
    exact h
  | cons name names ih =>
    have hrest := ih (h.get name)
    rw [List.append_assoc] at hrest
    exact hrest

theorem serial_eq_iff (h : Memoizes r calls s) (hp : p ∈ s.built) (hq : q ∈ s.built) :
    p.serial = q.serial ↔ p.definition.name = q.definition.name := by
  have hserials : (s.built.map (·.serial)).Nodup := by
    rw [h.numbered]
    exact List.nodup_range
  constructor
  · intro heq
    rw [List.inj_on_of_nodup_map hserials hp hq heq]
  · intro heq
    rw [List.inj_on_of_nodup_map h.distinct hp hq heq]

theorem cached_eq (h : Memoizes r calls s) : s.cached = (fetchedKeys calls).toFinset.card := by
  have hkeys : (fetchedKeys calls).toFinset = (s.built.map (·.definition.name)).toFinset := by
    ext k
    rw [List.mem_toFinset, List.mem_toFinset, mem_fetchedKeys, List.mem_map]
    constructor
    · rintro ⟨name, p, hcall, rfl⟩
      exact ⟨p, h.answered name p hcall⟩
    · rintro ⟨p, hp, rfl⟩
      obtain ⟨name, hcall⟩ := h.asked p hp
      exact ⟨name, p, hcall, (h.answered name p hcall).2.symm⟩
  rw [hkeys, List.toFinset_card_of_nodup h.distinct, List.length_map]
  rfl

theorem find?_of_get (h : Memoizes r calls s) (hget : (s.get name).1 = .ok p) :
    r.find? name = some p.definition := by
  obtain ⟨hp, hname⟩ := (h.get name).answered name p (by simp [hget])
  rw [Registry.find?_eq_listed?, ← hname]
  exact (h.get name).held p hp

theorem exists_get_iff (h : Memoizes r calls s) :
    (∃ p, (s.get name).1 = .ok p) ↔ r.isRegistered name := by
  constructor
  · rintro ⟨p, hget⟩
    rw [Registry.isRegistered, h.find?_of_get hget]
    rfl
  · intro hregistered
    rcases get_cases s name with ⟨p, _, _, heq⟩ | ⟨d, _, _, heq⟩ | ⟨_, _, hfind, _⟩
    · exact ⟨p, by rw [heq]⟩
    · exact ⟨_, by rw [heq]⟩
    · rw [Registry.isRegistered, ← h.registry, hfind] at hregistered
      cases hregistered

end Memoizes

theorem get_of_error {error : EngineError} (h : (s.get name).1 = .error error) :
    (s.get name).2 = s := by
  rcases get_cases s name with ⟨_, _, _, heq⟩ | ⟨_, _, _, heq⟩ | ⟨_, _, _, heq⟩
  · rw [heq]
  · rw [heq] at h
    cases h
  · rw [heq]

/-- After any run all spellings of a registered name share one profile. -/
theorem run_memoizes (r : Registry) (names : List String) :
    let calls := (run { registry := r } names).1
    let s := (run { registry := r } names).2
    s.registry = r ∧
    (∀ name, ((∃ p, (s.get name).1 = .ok p) ↔ r.isRegistered name) ∧
      (r.isRegistered name ↔ ∃ d ∈ r.definitions, d.name = nameKey name)) ∧
    (∀ name p, (s.get name).1 = .ok p → r.find? name = some p.definition) ∧
    (∀ m p n q, (m, .ok p) ∈ calls → (n, .ok q) ∈ calls →
      (p.serial = q.serial ↔ nameKey m = nameKey n)) ∧
    s.cached = (fetchedKeys calls).toFinset.card ∧
    ∀ name error, (s.get name).1 = .error error → (s.get name).2 = s := by
  intro calls s
  have h : Memoizes r calls s := (memoizes_start r).run names
  refine ⟨h.registry, ?_, ?_, ?_, h.cached_eq, ?_⟩
  · intro name
    exact ⟨h.exists_get_iff, Registry.isRegistered_iff⟩
  · intro name p hget
    exact h.find?_of_get hget
  · intro m p n q hm hn
    obtain ⟨hp, hpname⟩ := h.answered m p hm
    obtain ⟨hq, hqname⟩ := h.answered n q hn
    rw [h.serial_eq_iff hp hq, hpname, hqname]
  · intro name error hget
    exact get_of_error hget

theorem run_shares_profile :
    let own : Definition := ⟨"typescript", "Own", .tsx, { units := ["object"] }⟩
    let rust : Definition := ⟨"rust", "Rust", .rust, Builtin.rustTables⟩
    let r := Registry.ofDefinitions (Builtin.definitions ++ [own])
    let names := ["TypeScript", "cobol", " typescript\n", "RUST"]
    let calls := (run { registry := r } names).1
    let s := (run { registry := r } names).2
    ("TypeScript", .ok ⟨own, 0⟩) ∈ calls ∧ (" typescript\n", .ok ⟨own, 0⟩) ∈ calls ∧
      ("RUST", .ok ⟨rust, 1⟩) ∈ calls ∧
      (0 = 0 ↔ nameKey "TypeScript" = nameKey " typescript\n") ∧
      (0 = 1 ↔ nameKey "TypeScript" = nameKey "RUST") ∧ s.cached = 2 ∧
      (¬∃ p, (s.get "cobol").1 = .ok p) ∧ ∃ p, (s.get "TSX").1 = .ok p := by
  intro own rust r names calls s
  obtain ⟨_, hsucceeds, _, hshared, hcached, _⟩ := run_memoizes r names
  have hfirst : ("TypeScript", .ok ⟨own, 0⟩) ∈ calls := by decide
  have hsecond : (" typescript\n", .ok ⟨own, 0⟩) ∈ calls := by decide
  have hrust : ("RUST", .ok ⟨rust, 1⟩) ∈ calls := by decide
  exact ⟨hfirst, hsecond, hrust, hshared _ _ _ _ hfirst hsecond, hshared _ _ _ _ hfirst hrust,
    hcached.trans (by decide), fun h => absurd ((hsucceeds "cobol").1.mp h) (by decide),
    (hsucceeds "TSX").1.mpr (by decide)⟩

end Session

end StructEdit
