import DesignTokens.Resolution
import Mathlib.Logic.Relation

/-!
# The graph of references

What it means for a token to have a value, said without a walk: tokens are vertices, the references
inside their values are edges, and every path is looked up from one viewing context.

* `Use`, `Json.uses`: the references inside a value with the object keys around them;
* `Json.substitute`: a value with other values in place of its references;
* `Refers`, `Reaches`: edges and paths of the graph;
* `HasType`: the type of a token, through references if it has none of its own;
* `Sound`: nothing missing, no cycle and no type that does not fit, as far as a token reaches;
* `Denotes`: the value and the type of a token, by recursion along its references.

**`Denotes.sound`**: a token with a value is sound. `Denotes.unique`, `HasType.unique`: there is at
most one value and at most one type.
-/

namespace DesignTokens

open Relation

/-! ## References inside values -/

/-- A reference inside a value; `property` is the innermost object key around it. -/
structure Use where
  reference : Reference
  property : Option String
  deriving DecidableEq, Repr

namespace Json

mutual

/-- The references inside a value, in order, with the object keys around them. -/
def uses (property : Option String) : Json → List Use
  | .str s => (Reference.parse? s).toList.map (⟨·, property⟩)
  | .arr items => itemUses property items
  | .obj members => memberUses members
  | _ => []

/-- The references inside items. -/
def itemUses (property : Option String) : List Json → List Use
  | [] => []
  | j :: rest => uses property j ++ itemUses property rest

/-- The references inside members. -/
def memberUses : List (String × Json) → List Use
  | [] => []
  | (key, j) :: rest => uses (some key) j ++ memberUses rest

end

mutual

/-- The value with a value in place of every string that is a reference. -/
def substitute (σ : Reference → Json) : Json → Json
  | .str s => match Reference.parse? s with
    | some r => σ r
    | none => .str s
  | .arr items => .arr (substituteItems σ items)
  | .obj members => .obj (substituteMembers σ members)
  | .null => .null
  | .bool b => .bool b
  | .num n => .num n

/-- Items with their references replaced. -/
def substituteItems (σ : Reference → Json) : List Json → List Json
  | [] => []
  | j :: rest => substitute σ j :: substituteItems σ rest

/-- Members with the references in their values replaced. -/
def substituteMembers (σ : Reference → Json) : List (String × Json) → List (String × Json)
  | [] => []
  | (key, j) :: rest => (key, substitute σ j) :: substituteMembers σ rest

end

end Json

/-- The references inside the value of a token. -/
def FlatToken.uses (t : FlatToken) : List Use := t.value.uses none

theorem FlatToken.uses_of_alias {t : FlatToken} {r : Reference}
    (h : Reference.ofJson? t.value = some r) : t.uses = [⟨r, none⟩] := by
  unfold FlatToken.uses
  cases hv : t.value with
  | str s => rw [hv] at h; simp [Json.uses, show Reference.parse? s = some r from h]
  | null | bool _ | num _ | arr _ | obj _ => rw [hv] at h; cases h

/-! ## Edges, paths and types -/

section Graph

variable (all : Contexts Flat) (view : Context)

/-- The value of `t` has a reference to `u`. -/
def Refers (t u : FlatToken) : Prop :=
  ∃ o ∈ t.uses, lookup? all view o.reference.path = some u

/-- References lead from one token to another, or the two are one. -/
def Reaches : FlatToken → FlatToken → Prop := ReflTransGen (Refers all view)

/-- The type of a token: its own, or that of the token that its whole value refers to. -/
inductive HasType : FlatToken → Option TokenType → Prop
  | own {t : FlatToken} {type : TokenType} (h : t.type = some type) : HasType t (some type)
  | plain {t : FlatToken} (h : t.type = none) (plain : Reference.ofJson? t.value = none) :
    HasType t none
  | through {t u : FlatToken} {r : Reference} {type : Option TokenType} (h : t.type = none)
    (whole : Reference.ofJson? t.value = some r) (seen : lookup? all view r.path = some u)
    (target : HasType u type) : HasType t type

/-- A type that is found fits the one that is asked for, where both are given. -/
def Compatible (expected found : Option TokenType) : Prop :=
  ∀ e ∈ expected, ∀ f ∈ found, f.fits e = true

/-- Nothing is wrong with the references of a token, however far they lead. -/
structure Sound (t : FlatToken) : Prop where
  /-- Every reference leads to a visible token. -/
  present : ∀ u, Reaches all view t u → ∀ o ∈ u.uses, (lookup? all view o.reference.path).isSome
  /-- No reference leads back to its own token. -/
  acyclic : ∀ u, Reaches all view t u → ¬ TransGen (Refers all view) u u
  /-- Every reference leads to a token of a type that may stand there. -/
  compatible : ∀ u, Reaches all view t u → ∀ o ∈ u.uses, ∀ w,
    lookup? all view o.reference.path = some w → ∀ type, HasType all view w type →
      Compatible (expectedType? u o.property) type

/-- The type of a token, given what its references stand for. -/
def settledType (t : FlatToken) (found : Reference → Resolved) : Option TokenType :=
  match Reference.ofJson? t.value with
  | some r => t.type <|> (found r).type
  | none => t.type

/-- The value of a token and its type, given those of the tokens that it refers to: its value as
written, with the value of its target in place of every reference and all else as it is. -/
inductive Denotes : FlatToken → Resolved → Prop
  | intro {t : FlatToken} (target : Reference → FlatToken) (found : Reference → Resolved)
    (seen : ∀ o ∈ t.uses, lookup? all view o.reference.path = some (target o.reference))
    (denotes : ∀ o ∈ t.uses, Denotes (target o.reference) (found o.reference))
    (compatible : ∀ o ∈ t.uses,
      Compatible (expectedType? t o.property) (found o.reference).type) :
    Denotes t ⟨t.value.substitute fun r => (found r).value, settledType t found⟩

end Graph

variable {all : Contexts Flat} {view : Context}

theorem HasType.unique {t : FlatToken} {a b : Option TokenType} (ha : HasType all view t a)
    (hb : HasType all view t b) : a = b := by
  induction ha generalizing b with
  | own h => cases hb <;> simp_all
  | plain h plain => cases hb <;> simp_all
  | through h whole seen _ ih =>
    cases hb with
    | own h' => simp_all
    | plain _ plain => simp_all
    | through _ whole' seen' target' =>
      obtain rfl : _ = _ := Option.some.inj (whole.symm.trans whole')
      obtain rfl : _ = _ := Option.some.inj (seen.symm.trans seen')
      exact ih target'

theorem Denotes.hasType {t : FlatToken} {R : Resolved} (h : Denotes all view t R) :
    HasType all view t R.type := by
  induction h with
  | @intro t target found seen _ _ ih =>
    show HasType all view t (settledType t found)
    unfold settledType
    cases hr : Reference.ofJson? t.value with
    | none =>
      cases ht : t.type with
      | none => exact .plain ht hr
      | some type => exact .own ht
    | some r =>
      cases ht : t.type with
      | some type => exact .own ht
      | none =>
        have hu : (⟨r, none⟩ : Use) ∈ t.uses := by simp [FlatToken.uses_of_alias hr]
        exact .through ht hr (seen _ hu) (ih _ hu)

/-! ## Substitution -/

mutual

theorem Json.substitute_congr {σ τ : Reference → Json} : ∀ (property : Option String) (j : Json),
    (∀ o ∈ j.uses property, σ o.reference = τ o.reference) → j.substitute σ = j.substitute τ
  | property, .str s, h => by
    unfold Json.substitute
    cases hs : Reference.parse? s with
    | none => rfl
    | some r => exact h ⟨r, property⟩ (by simp [Json.uses, hs])
  | property, .arr items, h => by
    rw [Json.substitute, Json.substitute, Json.substituteItems_congr property items h]
  | _, .obj members, h => by
    rw [Json.substitute, Json.substitute, Json.substituteMembers_congr members h]
  | _, .null, _ => rfl
  | _, .bool _, _ => rfl
  | _, .num _, _ => rfl

theorem Json.substituteItems_congr {σ τ : Reference → Json} :
    ∀ (property : Option String) (items : List Json),
    (∀ o ∈ Json.itemUses property items, σ o.reference = τ o.reference) →
      Json.substituteItems σ items = Json.substituteItems τ items
  | _, [], _ => rfl
  | property, j :: rest, h => by
    simp only [Json.itemUses, List.mem_append] at h
    rw [Json.substituteItems, Json.substituteItems,
      Json.substitute_congr property j fun o ho => h o (.inl ho),
      Json.substituteItems_congr property rest fun o ho => h o (.inr ho)]

theorem Json.substituteMembers_congr {σ τ : Reference → Json} :
    ∀ (members : List (String × Json)),
    (∀ o ∈ Json.memberUses members, σ o.reference = τ o.reference) →
      Json.substituteMembers σ members = Json.substituteMembers τ members
  | [], _ => rfl
  | (key, j) :: rest, h => by
    simp only [Json.memberUses, List.mem_append] at h
    rw [Json.substituteMembers, Json.substituteMembers,
      Json.substitute_congr (some key) j fun o ho => h o (.inl ho),
      Json.substituteMembers_congr rest fun o ho => h o (.inr ho)]

end

theorem settledType_congr {t : FlatToken} {σ τ : Reference → Resolved}
    (h : ∀ o ∈ t.uses, σ o.reference = τ o.reference) : settledType t σ = settledType t τ := by
  unfold settledType
  cases hr : Reference.ofJson? t.value with
  | none => rfl
  | some r =>
    have := h ⟨r, none⟩ (by simp [FlatToken.uses_of_alias hr])
    simp_all

/-- **A token has at most one value.** -/
theorem Denotes.unique {t : FlatToken} {R S : Resolved} (hR : Denotes all view t R)
    (hS : Denotes all view t S) : R = S := by
  induction hR generalizing S with
  | @intro t target found seen _ _ ih =>
    cases hS with
    | intro target' found' seen' denotes' _ =>
      have same : ∀ o ∈ t.uses, found o.reference = found' o.reference := fun o ho => by
        have ht : target o.reference = target' o.reference :=
          Option.some.inj ((seen o ho).symm.trans (seen' o ho))
        exact ih o ho (ht ▸ denotes' o ho)
      have values : (t.value.substitute fun r => (found r).value) =
          t.value.substitute fun r => (found' r).value :=
        Json.substitute_congr none t.value fun o ho => congrArg Resolved.value (same o ho)
      rw [settledType_congr same, values]

theorem Denotes.of_alias {t u : FlatToken} {r : Reference} {R : Resolved} (untyped : t.type = none)
    (whole : Reference.ofJson? t.value = some r) (seen : lookup? all view r.path = some u)
    (denotes : Denotes all view u R) : Denotes all view t R := by
  have uses : ∀ o ∈ t.uses, o = ⟨r, none⟩ := by simp [FlatToken.uses_of_alias whole]
  have value : (t.value.substitute fun _ => R.value) = R.value := by
    cases hv : t.value with
    | str s =>
      rw [hv] at whole
      simp [Json.substitute, show Reference.parse? s = some r from whole]
    | null | bool _ | num _ | arr _ | obj _ => rw [hv] at whole; cases whole
  have type : settledType t (fun _ => R) = R.type := by simp [settledType, whole, untyped]
  have := Denotes.intro (t := t) (fun _ => u) (fun _ => R) (fun o ho => uses o ho ▸ seen)
    (fun _ _ => denotes) fun o ho => by simp [uses o ho, Compatible, expectedType?, untyped]
  rwa [value, type] at this

/-! ## Values and soundness -/

theorem Reaches.cases_head {t u : FlatToken} (h : Reaches all view t u) :
    t = u ∨ ∃ w, Refers all view t w ∧ Reaches all view w u :=
  ReflTransGen.cases_head h

theorem Sound.of_reaches {t u : FlatToken} (h : Sound all view t) (r : Reaches all view t u) :
    Sound all view u :=
  ⟨fun w hw => h.present w (r.trans hw), fun w hw => h.acyclic w (r.trans hw),
    fun w hw => h.compatible w (r.trans hw)⟩

/-- **A token with a value is sound.** -/
theorem Denotes.sound {t : FlatToken} {R : Resolved} (h : Denotes all view t R) :
    Sound all view t := by
  induction h with
  | @intro t target found seen denotes compatible ih =>
    -- a token one step further is the target of a reference, and sound by the induction
    have step : ∀ w, Refers all view t w → ∃ o ∈ t.uses, target o.reference = w ∧
        Sound all view w := by
      rintro w ⟨o, ho, hw⟩
      obtain rfl : target o.reference = w := Option.some.inj ((seen o ho).symm.trans hw)
      exact ⟨o, ho, rfl, ih o ho⟩
    refine ⟨fun u hu => ?_, fun u hu => ?_, fun u hu => ?_⟩
    · rcases hu.cases_head with rfl | ⟨w, hw, hwu⟩
      · intro o ho
        simp [seen o ho]
      · obtain ⟨_, _, _, sound⟩ := step w hw
        exact sound.present u hwu
    · rcases hu.cases_head with rfl | ⟨w, hw, hwu⟩
      · intro cycle
        obtain ⟨w, hw, hwt⟩ := TransGen.head'_iff.1 cycle
        obtain ⟨_, _, _, sound⟩ := step w hw
        exact sound.acyclic w .refl (TransGen.tail' hwt hw)
      · obtain ⟨_, _, _, sound⟩ := step w hw
        exact sound.acyclic u hwu
    · rcases hu.cases_head with rfl | ⟨w, hw, hwu⟩
      · intro o ho w hw type htype
        obtain rfl : target o.reference = w := Option.some.inj ((seen o ho).symm.trans hw)
        rw [htype.unique (denotes o ho).hasType]
        exact compatible o ho
      · obtain ⟨_, _, _, sound⟩ := step w hw
        exact sound.compatible u hwu

end DesignTokens
