import DesignTokens.Proofs.Css.Composed

/-!
# Where the uses in a text come from

A converted text uses custom properties where the value has references, and where it only seems to have
one: a part without a text of its own is written as a JSON text, whose own braces may be around a path,
and a family name stands in quotes, with its quotation marks escaped.

* `Closed`: an opening brace has a closing one behind it; **`Closed.clear`**; `closed_compact`: a JSON
  text is like that;
* `Json.Reads`: a custom property that the text of a value may use;
* `ReadFrom`: a text whose uses are those of a value; `ReadFrom.append`;
* `readFrom_brings`: a text that the value brings along; `readFrom_composed`: what is put together from
  such texts;
* **`readFrom_convert?`**: what a value of any type is converted to.
-/

namespace DesignTokens

/-! ## Braces that are closed -/

/-- Every opening brace has a closing one behind it. -/
def Closed (cs : List Char) : Prop := ∀ before after, cs = before ++ '{' :: after → '}' ∈ after

theorem closed_of_notMem {cs : List Char} (h : '{' ∉ cs) : Closed cs := by
  rintro before after rfl
  exact absurd (by simp) h

theorem Closed.append {cs ds : List Char} (hc : Closed cs) (hd : Closed ds) : Closed (cs ++ ds) := by
  intro before after h
  rcases List.append_eq_append_iff.1 h with ⟨mid, rfl, hmid⟩ | ⟨mid, rfl, hmid⟩
  · exact hd mid after hmid
  · cases mid with
    | nil => exact hd [] after hmid.symm
    | cons c mid =>
      obtain ⟨rfl, rfl⟩ := List.cons.inj hmid
      exact List.mem_append_left _ (hc before mid rfl)

theorem closed_append_brace (cs : List Char) {rest : List Char} (h : '{' ∉ rest) :
    Closed (cs ++ '}' :: rest) := by
  intro before after same
  rcases List.append_eq_append_iff.1 same with ⟨mid, rfl, hmid⟩ | ⟨mid, rfl, hmid⟩
  · have opening : '{' ∈ '}' :: rest := by simp [hmid]
    rcases List.mem_cons.1 opening with here | there
    · exact absurd here (by decide)
    · exact absurd there h
  · cases mid with
    | nil => exact absurd (List.cons.inj hmid).1 (by decide)
    | cons c mid =>
      obtain ⟨rfl, rfl⟩ := List.cons.inj hmid
      simp

theorem Closed.of_append (cs : List Char) {ds : List Char} (h : Closed (cs ++ ds)) : Closed ds := by
  rintro before after rfl
  exact h (cs ++ before) after (List.append_assoc cs before _).symm

theorem pieces_brace (cs : List Char) :
    Name.pieces ('{' :: cs) =
      match Name.braced? cs with
      | some (inner, after) =>
        if Reference.isPath inner then .reference ⟨String.ofList inner⟩ :: Name.pieces after
        else .plain '{' :: Name.pieces cs
      | none => .plain '{' :: Name.pieces cs := by
  cases hb : Name.braced? cs with
  | none => exact pieces_brace_of_braced?_eq_none hb
  | some p =>
    rw [Name.pieces, if_pos rfl]
    split
    · rename_i hb'
      cases hb.symm.trans hb'
      rfl
    · rename_i hb'
      cases hb.symm.trans hb'

theorem eq_of_braced?_eq_some {cs inner after : List Char}
    (h : Name.braced? cs = some (inner, after)) : cs = inner ++ '}' :: after := by
  induction cs generalizing inner with
  | nil => cases h
  | cons c cs ih =>
    unfold Name.braced? at h
    split at h
    · rename_i closing
      cases h
      rw [closing]
      rfl
    · split at h
      · obtain ⟨⟨i, a⟩, hb, he⟩ := Option.map_eq_some_iff.1 h
        cases he
        rw [ih hb]
        rfl
      · cases h

theorem braced?_append_of_mem {cs : List Char} (h : '}' ∈ cs) (more : List Char) :
    Name.braced? (cs ++ more) = (Name.braced? cs).map fun p => (p.1, p.2 ++ more) := by
  induction cs with
  | nil => cases h
  | cons c cs ih =>
    rw [List.cons_append, Name.braced?, Name.braced?]
    by_cases closing : c = '}'
    · rw [if_pos closing, if_pos closing]
      rfl
    · rw [if_neg closing, if_neg closing, ih ((List.mem_cons.1 h).resolve_left (Ne.symm closing))]
      split
      · cases Name.braced? cs <;> rfl
      · rfl

theorem pieces_append_of_closed : ∀ cs : List Char, Closed cs → ∀ more : List Char,
    Name.pieces (cs ++ more) = Name.pieces cs ++ Name.pieces more
  | [], _, more => by rw [List.nil_append, Name.pieces, List.nil_append]
  | c :: cs, closed, more => by
    have behind : Closed cs := Closed.of_append [c] closed
    have rest := pieces_append_of_closed cs behind more
    by_cases opening : c = '{'
    · subst opening
      rw [List.cons_append, pieces_brace, pieces_brace, braced?_append_of_mem (closed [] cs rfl), rest]
      cases hb : Name.braced? cs with
      | none => rfl
      | some p =>
        obtain ⟨inner, after⟩ := p
        have shorter := Name.length_braced? hb
        have closed' : Closed after := by
          refine Closed.of_append ('{' :: inner ++ ['}']) ?_
          rw [eq_of_braced?_eq_some hb] at closed
          simpa using closed
        have further := pieces_append_of_closed after closed' more
        simp only [Option.map_some]
        split
        · rw [further]
          rfl
        · rfl
    · rw [List.cons_append, pieces_cons_of_ne opening, pieces_cons_of_ne opening, rest]
      rfl
termination_by cs => cs.length

/-- **A text whose braces are closed** has every reference to its end. -/
theorem Closed.clear {text : String} (h : Closed text.toList) : Clear text := fun more => by
  unfold fragments
  rw [String.toList_append, pieces_append_of_closed _ h, List.map_append]

namespace Json

theorem closed_quote {s : String} (exact : (str s).Exact) : Closed (quote s).toList := by
  cases hs : Reference.parse? s with
  | some r =>
    obtain ⟨rfl, -⟩ := parse?_eq_some_iff.1 hs
    rw [toList_quote, toList_text, List.flatMap_append, ← List.cons_append, List.append_assoc]
    exact closed_append_brace _ (by decide)
  | none => exact closed_of_notMem (notMem_quote (b := '\x7b') (by simp) (exact.braceFree hs))

mutual

/-- **The braces of a JSON text are closed**: those of an object by its end. -/
theorem closed_compact : ∀ {j : Json}, j.Exact → Closed j.compact.toList
  | .null, _ => closed_of_notMem (by decide)
  | .bool b, _ => closed_of_notMem (by cases b <;> decide)
  | .num n, _ => closed_of_notMem (by
      cases n with
      | integer i => exact (numeral_toString_int i).notMem rfl
      | double x => exact (numeral_layout Number.layout x).notMem rfl)
  | .str _, exact => closed_quote exact
  | .arr items, exact => by
    unfold compact
    rw [String.toList_append, String.toList_append]
    have start : Closed "[".toList := closed_of_notMem (by decide)
    have stop : Closed "]".toList := closed_of_notMem (by decide)
    refine (start.append ?_).append stop
    refine Text.join_induction (P := fun t => Closed t.toList) (closed_of_notMem (by decide)) ?_
      (closed_of_notMem (by decide)) (closed_compactItems exact)
    intro a b ha hb
    rw [String.toList_append]
    exact ha.append hb
  | .obj members, _ => by
    unfold compact
    rw [String.toList_append]
    exact closed_append_brace _ (by decide)

theorem closed_compactItems : ∀ {items : List Json}, ItemsAllStrings BracesRefer items →
    ∀ t ∈ compactItems items, Closed t.toList
  | [], _, _, ht => by cases ht
  | _ :: _, exact, _, ht => by
    rcases List.mem_cons.1 ht with rfl | ht
    · exact closed_compact exact.1
    · exact closed_compactItems exact.2 _ ht

end

/-! ## Uses in the text of a value -/

/-- The custom property may be used in a text of the value: it is that of a reference in it, or of what
looks like one in a JSON text or in a family name. -/
inductive Reads (n : String) : Json → Prop
  | reference {j : Json} {r : Reference} (whole : Reference.ofJson? j = some r)
    (name : n = Name.customProperty r.path) : Reads n j
  | json {j : Json} (kind : ¬ j.IsScalar) (use : .use n ∈ fragments j.compact) : Reads n j
  | family {s : String} (use : .use n ∈ fragments (quoteFamily s)) : Reads n (.str s)
  | item {j : Json} {items : List Json} (h : j ∈ items) (inside : Reads n j) : Reads n (.arr items)
  | member {m : String × Json} {members : List (String × Json)} (h : m ∈ members)
    (inside : Reads n m.2) : Reads n (.obj members)

theorem Reads.of_inside {n : String} {part j : Json} (h : part.Reads n) (inside : part.Inside j) :
    j.Reads n := by
  induction inside with
  | here => exact h
  | item mem _ ih => exact .item mem ih
  | member mem _ ih => exact .member mem ih

end Json

/-- Every reference that begins in the text ends in it, and every use in it is one that the value
reads. -/
structure ReadFrom (j : Json) (text : String) : Prop where
  clear : Clear text
  reads : ∀ n, .use n ∈ fragments text → j.Reads n

theorem BraceFree.readFrom {text : String} (h : BraceFree text) (j : Json) : ReadFrom j text := by
  refine ⟨h.clear, fun n hn => ?_⟩
  rw [fragments_of_braceFree h] at hn
  simp at hn

namespace ReadFrom

variable {j : Json}

theorem append {a b : String} (ha : ReadFrom j a) (hb : ReadFrom j b) : ReadFrom j (a ++ b) := by
  refine ⟨ha.clear.append hb.clear, fun n hn => ?_⟩
  rw [ha.clear, List.mem_append] at hn
  exact hn.elim (ha.reads n) (hb.reads n)

theorem of_inside {part : Json} {text : String} (h : ReadFrom part text) (inside : part.Inside j) :
    ReadFrom j text :=
  ⟨h.clear, fun n hn => (h.reads n hn).of_inside inside⟩

end ReadFrom

/-! ## Texts that a value brings along -/

theorem readFrom_str {s : String} (exact : (Json.str s).Exact) : ReadFrom (.str s) s := by
  cases hs : Reference.parse? s with
  | none => exact (exact.braceFree hs).readFrom _
  | some r =>
    obtain ⟨rfl, valid⟩ := parse?_eq_some_iff.1 hs
    refine ⟨clear_reference valid, fun n hn => .reference (j := .str r.text) hs ?_⟩
    rw [fragments_reference valid, List.mem_singleton] at hn
    exact Fragment.use.inj hn

theorem readFrom_quoteFamily {s : String} (exact : (Json.str s).Exact) :
    ReadFrom (.str s) (quoteFamily s) := by
  cases hs : Reference.parse? s with
  | none => exact (braceFree_quoteFamily (exact.braceFree hs)).readFrom _
  | some r =>
    obtain ⟨rfl, -⟩ := parse?_eq_some_iff.1 hs
    refine ⟨Closed.clear ?_, fun n hn => .family hn⟩
    rw [quoteFamily_text, String.toList_ofList, toList_text, escapeQuotes, List.flatMap_append,
      ← List.cons_append, List.append_assoc]
    exact closed_append_brace _ (by decide)

/-- Every brace in a value belongs to a reference, and none is left when they are replaced. -/
structure Json.Settles (σ : Reference → Json) (j : Json) : Prop where
  exact : j.Exact
  plain : (j.substitute σ).Plain

section Values

variable {transforms : Transforms} {σ : Reference → Json} {j : Json} {path : String}

namespace Json.Settles

theorem member (h : j.Settles σ) {key : String} {part : Json} (hp : j.member? key = some part) :
    part.Settles σ :=
  ⟨h.exact.member? hp, h.plain.member? (member?_resolved σ (whole_of_member? hp) hp)⟩

theorem item {items : List Json} (h : (arr items).Settles σ) {part : Json} (hp : part ∈ items) :
    part.Settles σ := by
  refine ⟨AllStrings.of_mem h.exact hp, ?_⟩
  have plain := h.plain
  rw [substitute_arr] at plain
  exact AllStrings.of_mem plain (List.mem_map_of_mem hp)

end Json.Settles

theorem readFrom_brings (h : j.Settles σ) {text : String} (brings : (j.operand σ).Brings text) :
    ReadFrom j text := by
  have exact {s : String} (hs : j.Holds s) : (Json.str s).Exact := Json.allStrings_iff.1 h.exact s hs
  cases brings with
  | string hs =>
    rcases hs with hs | hs
    · exact (readFrom_str (exact hs)).of_inside (Json.inside_of_holds hs)
    · exact BraceFree.readFrom (Json.allStrings_iff.1 h.plain text hs) j
  | family hs => exact (readFrom_quoteFamily (exact hs)).of_inside (Json.inside_of_holds hs)
  | json inside kind =>
    exact ReadFrom.of_inside ⟨(Json.closed_compact (h.exact.of_inside inside)).clear,
      fun n hn => .json kind hn⟩ inside

/-- **What is put together** from such texts. -/
theorem readFrom_composed (h : j.Settles σ) {text : String} (composed : Composed (j.operand σ) text) :
    ReadFrom j text := by
  induction composed with
  | inert h => exact h.braceFree.readFrom j
  | slash => exact BraceFree.readFrom (by decide) j
  | brought brings => exact readFrom_brings h brings
  | append _ _ iha ihb => exact iha.append ihb
  | call opens _ closes ih =>
    exact ((opens.braceFree.readFrom j).append ih).append (closes.braceFree.readFrom j)

/-- **What a value is converted to** uses what it reads, unless it is a reference to a text style. -/
theorem readFrom_convert? {type : TokenType} (h : j.Settles σ) {v : CssValue}
    (style : type = .typography → Reference.ofJson? j = none)
    (conv : convert? transforms path type (j.operand σ) = .ok (some v)) :
    ∀ t ∈ v.texts, ReadFrom j t :=
  fun t ht => readFrom_composed h (composed_convert? style conv t ht)

end Values

end DesignTokens
