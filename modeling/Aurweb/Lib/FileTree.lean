/-
Directories of named entries.

A directory lists names, none of them twice, and what each of them stands for: a file, a
directory, or something that is neither.  Directories are told by an id, so nothing is nested
here and `At` is what leads from one down a path.  `lookup` finds what is there, and nothing
else, because names do not repeat.
-/
import Mathlib.Data.List.Nodup

namespace FileTree

variable {φ δ : Type*}

/-- What a name stands for. -/
inductive Item (φ δ : Type*)
  | file (f : φ)
  | dir (id : δ)
  | foreign
  deriving DecidableEq, Repr

namespace Item

def isFile : Item φ δ → Bool
  | file _ => true
  | _ => false

def isDir : Item φ δ → Bool
  | dir _ => true
  | _ => false

@[simp] theorem isFile_iff {item : Item φ δ} : item.isFile = true ↔ ∃ f, item = file f := by
  cases item <;> simp [isFile]

@[simp] theorem isDir_iff {item : Item φ δ} : item.isDir = true ↔ ∃ id, item = dir id := by
  cases item <;> simp [isDir]

end Item

structure Dir (φ δ : Type*) where
  entries : List (String × Item φ δ)
  nodup : (entries.map (·.1)).Nodup

def Dir.item? (d : Dir φ δ) (name : String) : Option (Item φ δ) :=
  (d.entries.find? (·.1 == name)).map (·.2)

variable {dirs : δ → Dir φ δ} {d : Dir φ δ} {name : String} {path : List String}
  {item item' : Item φ δ}

/-- What is found down a path. -/
def lookup (dirs : δ → Dir φ δ) (d : Dir φ δ) : List String → Option (Item φ δ)
  | [] => none
  | [name] => d.item? name
  | name :: path =>
      match d.item? name with
      | some (.dir id) => lookup dirs (dirs id) path
      | _ => none

/-- What is down a path. -/
inductive At (dirs : δ → Dir φ δ) : Dir φ δ → List String → Item φ δ → Prop
  | entry {d : Dir φ δ} {name : String} {item : Item φ δ} (h : (name, item) ∈ d.entries) :
      At dirs d [name] item
  | inside {d : Dir φ δ} {name : String} {id : δ} {path : List String} {item : Item φ δ}
      (h : (name, .dir id) ∈ d.entries) (hpath : At dirs (dirs id) path item) :
      At dirs d (name :: path) item

/-! ### One directory -/

theorem item?_eq_some : d.item? name = some item ↔ (name, item) ∈ d.entries := by
  unfold Dir.item?
  rw [Option.map_eq_some_iff]
  constructor
  · rintro ⟨e, hfind, rfl⟩
    have hname : e.1 = name := by simpa using List.find?_some hfind
    rw [← hname]
    exact List.mem_of_find?_eq_some hfind
  · intro hmem
    cases hfind : d.entries.find? (·.1 == name) with
    | none =>
        have hno := List.find?_eq_none.mp hfind _ hmem
        exact absurd (beq_self_eq_true name) hno
    | some e =>
        have hname : e.1 = name := by simpa using List.find?_some hfind
        have heq := List.inj_on_of_nodup_map d.nodup (List.mem_of_find?_eq_some hfind) hmem hname
        exact ⟨e, rfl, congrArg Prod.snd heq⟩

/-! ### Paths -/

theorem not_at_nil : ¬At dirs d [] item := by
  intro h
  cases h

theorem at_cons :
    At dirs d (name :: path) item ↔ (path = [] ∧ (name, item) ∈ d.entries) ∨
      ∃ id, (name, .dir id) ∈ d.entries ∧ At dirs (dirs id) path item := by
  constructor
  · intro h
    cases h with
    | entry hentry => exact Or.inl ⟨rfl, hentry⟩
    | inside hdir hpath => exact Or.inr ⟨_, hdir, hpath⟩
  · rintro (⟨rfl, hentry⟩ | ⟨id, hdir, hpath⟩)
    · exact .entry hentry
    · exact .inside hdir hpath

theorem at_singleton : At dirs d [name] item ↔ (name, item) ∈ d.entries := by
  rw [at_cons]
  simp [not_at_nil]

/-- The look-up finds what is there. -/
theorem lookup_eq_some : lookup dirs d path = some item ↔ At dirs d path item := by
  induction path generalizing d with
  | nil => simp [lookup, not_at_nil]
  | cons name path ih =>
      cases path with
      | nil => rw [at_singleton, ← item?_eq_some, lookup]
      | cons name' path =>
          rw [at_cons]
          simp only [lookup, List.cons_ne_nil, false_and, false_or, ← item?_eq_some]
          cases hitem : d.item? name with
          | none => simp
          | some item' =>
              cases item' with
              | dir id => simp [ih]
              | file f => simp
              | foreign => simp

/-- Nothing is below a directory that has no directories. -/
theorem at_of_flat (hflat : ∀ e ∈ d.entries, e.2.isDir = false) (h : At dirs d path item) :
    ∃ name, path = [name] ∧ (name, item) ∈ d.entries := by
  cases h with
  | entry hentry => exact ⟨_, rfl, hentry⟩
  | inside hdir hpath =>
      have hnot := hflat _ hdir
      cases hnot

end FileTree
