import InstrumentBus.Catalog.Definition

/-!
# Signal catalogs

A catalog is a versioned list of definitions with an index by name and one by
identity. No name and no identity occurs twice.
-/

namespace InstrumentBus
namespace Catalog

open Signal

/-- What a catalog may hold and how lists are loaded into it. -/
structure Limits where
  maxSignals : Nat
  maxFileSize : Nat
  /-- Whether a list is checked against the schema before it is read. -/
  checkSchema : Bool
  deriving DecidableEq, Repr

def Limits.standard : Limits := ⟨4096, 1024 * 1024, true⟩

inductive Error where
  /-- A version must be positive and fit 32 bits. -/
  | invalidVersion (version : Int)
  | duplicateName (name : String)
  | duplicateIdentity (identity : Identity) (first second : String)
  | invalidDefinition (name : String) (fault : DefinitionFault)
  | tooManySignals (count limit : Nat)
  deriving DecidableEq

def Error.message : Error → String
  | .invalidVersion version => s!"signal list version must be > 0 (got {version})"
  | .duplicateName name => s!"duplicate signal name: {name}"
  | .duplicateIdentity identity first second =>
    s!"signals {first} and {second} share identity {identity.text}"
  | .invalidDefinition name fault => s!"invalid definition for {name}: {fault.message}"
  | .tooManySignals count limit => s!"signal count exceeds configured max ({limit}): {count}"

end Catalog

/-- A registry of definitions, in the order in which they were added. Each index gives the place
of a definition among them, the one by identity in ascending order. -/
structure Catalog where
  version : UInt32
  limits : Catalog.Limits
  entries : Array Catalog.Definition
  /-- The first entry of a name counts. -/
  byName : List (String × Nat)
  byIdentity : List (Signal.Identity × Nat)

namespace Catalog

open Signal

/-- A catalog without definitions. -/
def blank (version : UInt32) (limits : Limits) : Catalog := ⟨version, limits, #[], [], []⟩

/-- The empty catalog of a version. -/
def new (version : UInt32) (limits : Limits) : Except Error Catalog :=
  if version = 0 then .error (.invalidVersion 0) else .ok (blank version limits)

def size (c : Catalog) : Nat := c.entries.size

/-- The definition an index gives for a key. -/
def find {κ : Type} [BEq κ] (index : List (κ × Nat)) (entries : Array Definition) (key : κ) :
    Option Definition :=
  (index.lookup key).bind fun place => entries[place]?

/-- The definition with a given name. -/
def get? (c : Catalog) (name : String) : Option Definition := find c.byName c.entries name

/-- The definition of a given identity. -/
def definition? (c : Catalog) (identity : Identity) : Option Definition :=
  find c.byIdentity c.entries identity

def identityFor? (c : Catalog) (name : String) : Option Identity :=
  (c.get? name).map (·.identity)

def nameFor? (c : Catalog) (identity : Identity) : Option String :=
  (c.definition? identity).map (·.name)

/-- The definitions in ascending order of identity. -/
def definitions (c : Catalog) : List Definition :=
  c.byIdentity.filterMap fun entry => c.entries[entry.2]?

/-- An index by identity with one more place. It replaces the place the identity had. -/
def enter (identity : Identity) (place : Nat) : List (Identity × Nat) → List (Identity × Nat)
  | [] => [(identity, place)]
  | entry :: rest =>
    if identity < entry.1 then (identity, place) :: entry :: rest
    else if identity = entry.1 then (identity, place) :: rest
    else entry :: enter identity place rest

/-- Add a definition without a check. -/
def push (c : Catalog) (d : Definition) : Catalog :=
  { c with
    entries := c.entries.push d
    byName := (d.name, c.size) :: c.byName
    byIdentity := enter d.identity c.size c.byIdentity }

/-- Add a definition. A fault of the definition itself counts first, then a name
in use, then an identity in use, then the number of signals. -/
def add (c : Catalog) (d : Definition) : Except Error Unit × Catalog :=
  match d.fault? with
  | some fault => (.error (.invalidDefinition d.name fault), c)
  | none =>
    if (c.byName.lookup d.name).isSome then (.error (.duplicateName d.name), c)
    else
      match c.byIdentity.lookup d.identity with
      | some place =>
        let first := (c.entries[place]?.map (·.name)).getD ""
        (.error (.duplicateIdentity d.identity first d.name), c)
      | none =>
        if c.limits.maxSignals < c.size + 1 then
          (.error (.tooManySignals (c.size + 1) c.limits.maxSignals), c)
        else (.ok (), c.push d)

/-- The catalog with one more definition, if it can be added. -/
def insert (c : Catalog) (d : Definition) : Except Error Catalog :=
  match c.add d with
  | (.error e, _) => .error e
  | (.ok (), c) => .ok c

theorem new_eq_ok_iff {version : UInt32} {limits : Limits} {c : Catalog} :
    new version limits = .ok c ↔ version ≠ 0 ∧ c = blank version limits := by
  unfold new
  split
  · next h => simp [h]
  · next h => simp [h, eq_comm]

/-- A definition is refused and nothing changes, or it is sound, its name and its identity are
not in use, there is room for it, and it is added. -/
theorem add_cases (c : Catalog) (d : Definition) :
    (∃ e, c.add d = (.error e, c)) ∨
      (d.fault? = none ∧ c.byName.lookup d.name = none ∧ c.byIdentity.lookup d.identity = none ∧
        c.size < c.limits.maxSignals ∧ c.add d = (.ok (), c.push d)) := by
  unfold add
  split
  · exact Or.inl ⟨_, rfl⟩
  · next hfault =>
    split
    · exact Or.inl ⟨_, rfl⟩
    · next hname =>
      split
      · exact Or.inl ⟨_, rfl⟩
      · next hidentity =>
        split
        · exact Or.inl ⟨_, rfl⟩
        · next hroom =>
          exact Or.inr ⟨hfault, Option.not_isSome_iff_eq_none.1 hname, hidentity, by omega, rfl⟩

theorem add_of_free {c : Catalog} {d : Definition} (hfault : d.fault? = none)
    (hname : c.byName.lookup d.name = none) (hidentity : c.byIdentity.lookup d.identity = none)
    (hroom : c.size < c.limits.maxSignals) : c.add d = (.ok (), c.push d) := by
  have hcount : ¬ c.limits.maxSignals < c.size + 1 := by omega
  simp [add, hfault, hname, hidentity, hcount]

theorem add_of_error {c : Catalog} {d : Definition} {e : Error} (h : (c.add d).1 = .error e) :
    (c.add d).2 = c := by
  rcases c.add_cases d with ⟨e', he'⟩ | ⟨-, -, -, -, hadd⟩
  · rw [he']
  · rw [hadd] at h
    cases h

end Catalog
end InstrumentBus
