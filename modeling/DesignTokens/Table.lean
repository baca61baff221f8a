/-!
# Tables

Finite maps that keep the order in which their keys first came: objects of a document, the tokens of
a context, the rules of a stylesheet.

* `Table`, `Table.get?`, `Table.contains`, `Table.keys`, `Table.values`;
* `Table.insert`: a present key keeps its place and takes the new value, an absent one comes last;
* `Table.alter`, `Table.ofList`, `Table.append`;
* `get?_insert_self`, `get?_insert_of_ne`: what an insertion shows afterwards.
-/

namespace DesignTokens

/-- A finite map with its entries in order. -/
structure Table (κ : Type u) (α : Type v) where
  entries : List (κ × α)
  deriving DecidableEq, Repr

namespace Table

variable {κ : Type u} {α : Type v} {β : Type w}

/-- The table without entries. -/
def empty : Table κ α := ⟨[]⟩

instance : Inhabited (Table κ α) := ⟨empty⟩

/-- The number of entries. -/
def size (t : Table κ α) : Nat := t.entries.length

/-- Whether there is no entry. -/
def isEmpty (t : Table κ α) : Bool := t.entries.isEmpty

/-- The keys in order. -/
def keys (t : Table κ α) : List κ := t.entries.map (·.1)

/-- The values in the order of their keys. -/
def values (t : Table κ α) : List α := t.entries.map (·.2)

/-- The table with every value replaced by a function of it. -/
def mapValues (f : α → β) (t : Table κ α) : Table κ β := ⟨t.entries.map fun e => (e.1, f e.2)⟩

/-! ## Looking up -/

section Keyed

variable [DecidableEq κ]

/-- The value of the first entry with the key. -/
def find? (k : κ) : List (κ × α) → Option α
  | [] => none
  | (k', a) :: rest => if k' = k then some a else find? k rest

/-- The value at a key. -/
def get? (t : Table κ α) (k : κ) : Option α := find? k t.entries

/-- Whether the key has a value. -/
def contains (t : Table κ α) (k : κ) : Bool := (t.get? k).isSome

/-! ## Changing -/

/-- The entries with the value at a key changed in place, or put at the end if the key is new. -/
def alterEntries (k : κ) (f : Option α → α) : List (κ × α) → List (κ × α)
  | [] => [(k, f none)]
  | (k', a) :: rest => if k' = k then (k', f (some a)) :: rest else (k', a) :: alterEntries k f rest

/-- The table with the value at a key computed from the former one. -/
def alter (t : Table κ α) (k : κ) (f : Option α → α) : Table κ α := ⟨alterEntries k f t.entries⟩

/-- The table with a value at a key. -/
def insert (t : Table κ α) (k : κ) (a : α) : Table κ α := t.alter k fun _ => a

/-- The table of a list of entries; a repeated key keeps its first place and its last value. -/
def ofList (l : List (κ × α)) : Table κ α := l.foldl (fun t e => t.insert e.1 e.2) empty

/-- All entries of `s` inserted into `t`. -/
def append (t s : Table κ α) : Table κ α := s.entries.foldl (fun t e => t.insert e.1 e.2) t

/-! ## What a change shows -/

theorem find?_alterEntries_self (k : κ) (f : Option α → α) (l : List (κ × α)) :
    find? k (alterEntries k f l) = some (f (find? k l)) := by
  induction l with
  | nil => simp [alterEntries, find?]
  | cons e rest ih =>
    obtain ⟨k', a⟩ := e
    by_cases h : k' = k <;> simp [alterEntries, find?, h, ih]

theorem find?_alterEntries_of_ne {k k' : κ} (h : k' ≠ k) (f : Option α → α) (l : List (κ × α)) :
    find? k' (alterEntries k f l) = find? k' l := by
  induction l with
  | nil => simp [alterEntries, find?, Ne.symm h]
  | cons e rest ih =>
    obtain ⟨k₀, a⟩ := e
    by_cases h₀ : k₀ = k
    · subst h₀; simp [alterEntries, find?, Ne.symm h]
    · by_cases h₁ : k₀ = k'
      · subst h₁; simp [alterEntries, find?, h]
      · simp [alterEntries, find?, h₀, h₁, ih]

@[simp] theorem get?_insert_self (t : Table κ α) (k : κ) (a : α) :
    (t.insert k a).get? k = some a :=
  find?_alterEntries_self k (fun _ => a) t.entries

theorem get?_insert_of_ne {k k' : κ} (h : k' ≠ k) (t : Table κ α) (a : α) :
    (t.insert k a).get? k' = t.get? k' :=
  find?_alterEntries_of_ne h (fun _ => a) t.entries

@[simp] theorem get?_empty (k : κ) : (empty : Table κ α).get? k = none := rfl

theorem mem_of_find?_eq_some {k : κ} {a : α} {l : List (κ × α)} (h : find? k l = some a) :
    (k, a) ∈ l := by
  induction l with
  | nil => simp [find?] at h
  | cons e rest ih =>
    obtain ⟨k', a'⟩ := e
    by_cases hk : k' = k
    · simp [find?, hk] at h; simp [hk, h]
    · simp [find?, hk] at h; exact List.mem_cons_of_mem _ (ih h)

theorem mem_values_of_get?_eq_some {t : Table κ α} {k : κ} {a : α} (h : t.get? k = some a) :
    a ∈ t.values :=
  List.mem_map.2 ⟨(k, a), mem_of_find?_eq_some h, rfl⟩

theorem mem_keys_of_get?_eq_some {t : Table κ α} {k : κ} {a : α} (h : t.get? k = some a) :
    k ∈ t.keys :=
  List.mem_map.2 ⟨(k, a), mem_of_find?_eq_some h, rfl⟩

end Keyed

end Table

end DesignTokens
