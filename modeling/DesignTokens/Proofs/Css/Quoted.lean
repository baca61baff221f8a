import DesignTokens.Proofs.Css.Operands

/-!
# References between quotation marks

Two texts quote what they hold: the JSON text of a value, and a family name. A reference in a JSON text
is inside an object whose own brace stays for ever; a reference in quotes comes to a value in quotes.

* `Json.Quotable`: a value whose braces are those of references, and whose references have no quotation
  marks;
* `Led`: no closing brace before an opening one; `led_compact`: a JSON text is like that;
* **`stuck_compact`**: the brace of an object with a reference stays;
* **`quoteFamily_reference`**: a reference as a family name stands in quotes.
-/

namespace DesignTokens

namespace Json

mutual

/-- Every string with a brace, keys included, is a reference, and no reference has a quotation mark. -/
def Quotable : Json → Prop
  | .str s => ('{' ∈ s.toList ∨ '}' ∈ s.toList → (Reference.parse? s).isSome) ∧
      ((Reference.parse? s).isSome → '"' ∉ s.toList)
  | .arr items => ItemsQuotable items
  | .obj members => MembersQuotable members
  | _ => True

/-- Every string with a brace in the items is a reference without quotation marks. -/
def ItemsQuotable : List Json → Prop
  | [] => True
  | j :: rest => Quotable j ∧ ItemsQuotable rest

/-- Every key and every string with a brace in the members is a reference. -/
def MembersQuotable : List (String × Json) → Prop
  | [] => True
  | (key, j) :: rest => ('{' ∈ key.toList ∨ '}' ∈ key.toList → (Reference.parse? key).isSome) ∧
      Quotable j ∧ MembersQuotable rest

end

theorem ItemsQuotable.of_mem {items : List Json} (h : ItemsQuotable items) {j : Json}
    (hj : j ∈ items) : j.Quotable := by
  induction items with
  | nil => cases hj
  | cons i rest ih =>
    rcases List.mem_cons.1 hj with rfl | hj
    · exact h.1
    · exact ih h.2 hj

theorem MembersQuotable.of_mem {members : List (String × Json)} (h : MembersQuotable members)
    {m : String × Json} (hm : m ∈ members) : m.2.Quotable := by
  induction members with
  | nil => cases hm
  | cons i rest ih =>
    rcases List.mem_cons.1 hm with rfl | hm
    · exact h.2.1
    · exact ih h.2.2 hm

theorem Quotable.member? {j part : Json} (h : j.Quotable) {key : String}
    (hp : j.member? key = some part) : part.Quotable := by
  cases j with
  | obj members => exact MembersQuotable.of_mem h (Table.mem_of_find?_eq_some hp)
  | null | bool _ | num _ | str _ | arr _ => cases hp

end Json

/-! ## Braces in order -/

/-- Every closing brace has an opening one before it. -/
def Led (cs : List Char) : Prop := ∀ before after, cs = before ++ '}' :: after → '{' ∈ before

theorem led_of_notMem {cs : List Char} (h : '}' ∉ cs) : Led cs := by
  rintro before after rfl
  exact absurd (by simp) h

theorem Led.append {cs ds : List Char} (hc : Led cs) (hd : Led ds) : Led (cs ++ ds) := by
  intro before after h
  rcases List.append_eq_append_iff.1 h with ⟨mid, rfl, hmid⟩ | ⟨mid, rfl, hmid⟩
  · exact List.mem_append_right _ (hd mid after hmid)
  · cases mid with
    | nil =>
      have := hd [] after hmid.symm
      cases this
    | cons c mid =>
      obtain ⟨rfl, -⟩ := List.cons.inj hmid
      exact hc before mid rfl

theorem led_of_brace (cs : List Char) (h : '}' ∉ cs) (rest : List Char) :
    Led (cs ++ '{' :: rest) := by
  intro before after same
  rcases List.append_eq_append_iff.1 same with ⟨mid, rfl, hmid⟩ | ⟨mid, rfl, hmid⟩
  · cases mid with
    | nil =>
      have := (List.cons.inj hmid).1
      exact absurd this (by decide)
    | cons c mid =>
      obtain ⟨rfl, -⟩ := List.cons.inj hmid
      simp
  · cases mid with
    | nil =>
      have := (List.cons.inj hmid).1
      exact absurd this (by decide)
    | cons c mid =>
      obtain ⟨rfl, -⟩ := List.cons.inj hmid
      exact absurd (by simp) h

theorem braced?_eq_none {cs : List Char} (led : Led cs) (brace : '{' ∈ cs) (more : List Char) :
    Name.braced? (cs ++ more) = none := by
  induction cs with
  | nil => cases brace
  | cons c rest ih =>
    have hc : c ≠ '}' := by
      rintro rfl
      have := led [] rest rfl
      cases this
    rw [List.cons_append, Name.braced?, if_neg hc]
    by_cases open' : c = '{'
    · rw [open', if_neg (by decide)]
    · have led' : Led rest := by
        rintro before after rfl
        have := led (c :: before) after rfl
        exact (List.mem_cons.1 this).resolve_left (Ne.symm open')
      rw [ih led' ((List.mem_cons.1 brace).resolve_left (Ne.symm open'))]
      split <;> rfl

/-! ## JSON texts -/

namespace Json

theorem hexDigit_ne : ∀ n < 16, hexDigit n ∉ ['\x7b', '\x7d'] := by decide

theorem notMem_escape {b c : Char} (brace : b ∈ ['\x7b', '\x7d']) (h : c ≠ b) : b ∉ escape c := by
  have control : c.toNat < 0x20 → b ∉
      ['\\', 'u', '0', '0', hexDigit (c.toNat / 16), hexDigit (c.toNat % 16)] := by
    intro low mem
    have high : hexDigit (c.toNat / 16) ≠ b := fun same => hexDigit_ne _ (by omega) (same ▸ brace)
    have low : hexDigit (c.toNat % 16) ≠ b := fun same => hexDigit_ne _ (by omega) (same ▸ brace)
    rcases List.mem_cons.1 brace with rfl | brace
    · simp [Ne.symm high, Ne.symm low] at mem
    · obtain rfl := List.mem_singleton.1 brace
      simp [Ne.symm high, Ne.symm low] at mem
  have fixed : ∀ b ∈ ['\x7b', '\x7d'], ∀ e ∈ ['"', '\\', 'b', 'f', 'n', 'r', 't'], b ∉ ['\\', e] := by
    simp
  unfold escape
  repeat' split
  all_goals first | exact fixed b brace _ (by decide) | skip
  · exact control (by assumption)
  · simpa using Ne.symm h

theorem notMem_quote {s : String} {b : Char} (brace : b ∈ ['\x7b', '\x7d']) (h : b ∉ s.toList) :
    b ∉ (quote s).toList := by
  have mark : ∀ b ∈ ['\x7b', '\x7d'], b ≠ '"' := by simp
  intro mem
  rw [toList_quote] at mem
  rcases List.mem_append.1 mem with mem | mem
  · rcases List.mem_cons.1 mem with mem | mem
    · exact mark b brace mem
    · obtain ⟨c, hc, mem⟩ := List.mem_flatMap.1 mem
      exact notMem_escape brace (fun same => h (same ▸ hc)) mem
  · exact mark b brace (List.mem_singleton.1 mem)

theorem led_quote {s : String}
    (h : '{' ∈ s.toList ∨ '}' ∈ s.toList → (Reference.parse? s).isSome) : Led (quote s).toList := by
  cases hs : Reference.parse? s with
  | some r =>
    obtain ⟨rfl, -⟩ := parse?_eq_some_iff.1 hs
    rw [toList_quote, toList_text]
    exact led_of_brace ['"'] (by decide) _
  | none =>
    have closing : '}' ∉ s.toList := by
      intro mem
      have := h (.inr mem)
      rw [hs] at this
      cases this
    exact led_of_notMem (notMem_quote (b := '\x7d') (by simp) closing)

theorem led_intercalate {texts : List String} (h : ∀ t ∈ texts, Led t.toList) :
    Led (",".intercalate texts).toList := by
  refine Text.join_induction (P := fun t => Led t.toList) (led_of_notMem (by decide)) ?_
    (led_of_notMem (by decide)) h
  intro a b ha hb
  rw [String.toList_append]
  exact ha.append hb

mutual

/-- **The braces of a JSON text are in order.** -/
theorem led_compact : ∀ {j : Json}, j.Quotable → Led j.compact.toList
  | .null, _ => led_of_notMem (by decide)
  | .bool b, _ => led_of_notMem (by cases b <;> decide)
  | .num n, _ => led_of_notMem (by
      cases n with
      | integer i => exact (numeral_toString_int i).notMem rfl
      | double x => exact (numeral_layout Number.layout x).notMem rfl)
  | .str s, h => led_quote h.1
  | .arr items, h => by
    unfold compact
    rw [String.toList_append, String.toList_append]
    have start : Led "[".toList := led_of_notMem (by decide)
    have stop : Led "]".toList := led_of_notMem (by decide)
    exact (start.append (led_intercalate (led_compactItems h))).append stop
  | .obj members, _ => by
    unfold compact
    rw [String.append_assoc, String.toList_append]
    exact led_of_brace [] (by decide) _

theorem led_compactItems : ∀ {items : List Json}, ItemsQuotable items →
    ∀ t ∈ compactItems items, Led t.toList
  | [], _, _, ht => by cases ht
  | _ :: _, h, _, ht => by
    rcases List.mem_cons.1 ht with rfl | ht
    · exact led_compact h.1
    · exact led_compactItems h.2 _ ht

end

theorem led_compactMembers {members : List (String × Json)} (h : MembersQuotable members) :
    ∀ t ∈ compactMembers members, Led t.toList := by
  induction members with
  | nil =>
    intro t ht
    cases ht
  | cons m rest ih =>
    obtain ⟨key, j⟩ := m
    intro t ht
    rcases List.mem_cons.1 ht with rfl | ht
    · rw [String.toList_append, String.toList_append]
      have colon : Led ":".toList := led_of_notMem (by decide)
      exact ((led_quote h.1).append colon).append (led_compact h.2.1)
    · exact ih h.2.2 t ht

theorem mem_compactMembers {members : List (String × Json)} {m : String × Json} (hm : m ∈ members) :
    quote m.1 ++ ":" ++ m.2.compact ∈ compactMembers members := by
  induction members with
  | nil => cases hm
  | cons n rest ih =>
    rcases List.mem_cons.1 hm with rfl | hm
    · exact List.mem_cons_self
    · exact List.mem_cons_of_mem _ (ih hm)

/-- **The brace of an object with a reference stays.** -/
theorem stuck_compact {members : List (String × Json)} (h : MembersQuotable members)
    {key : String} {part : Json} (hp : (obj members).member? key = some part) {r : Reference}
    (whole : Reference.ofJson? part = some r) : Stuck (obj members).compact := by
  obtain ⟨rfl, -⟩ := ofJson?_eq_some_iff.1 whole
  have brace : '{' ∈ (",".intercalate (compactMembers members)).toList := by
    refine Text.mem_join (mem_compactMembers (Table.mem_of_find?_eq_some hp)) ?_
    rw [String.toList_append]
    refine List.mem_append_right _ ?_
    show '{' ∈ (quote r.text).toList
    rw [toList_quote, toList_text]
    simp [escape]
  intro more
  unfold compact fragments
  have none := braced?_eq_none (led_intercalate (led_compactMembers h)) brace ("\x7d" ++ more).toList
  rw [String.append_assoc, String.append_assoc, String.toList_append, String.toList_append]
  have opens : Name.pieces ("\x7b".toList ++ ((",".intercalate (compactMembers members)).toList ++
      ("\x7d" ++ more).toList)) = .plain '{' :: Name.pieces _ :=
    pieces_brace_of_braced?_eq_none none
  rw [opens]
  exact List.mem_cons_self

end Json

/-! ## Family names -/

theorem trim_reference {r : Reference} : Text.trim r.text = r.text := by
  have opening : Text.isBlank '{' = false := by decide
  have closing : Text.isBlank '}' = false := by decide
  apply String.toList_injective
  unfold Text.trim
  rw [String.toList_ofList, toList_text, List.cons_append, List.dropWhile_cons_of_neg (by simp [opening]),
    ← List.cons_append, List.reverse_append, List.reverse_singleton, List.singleton_append,
    List.dropWhile_cons_of_neg (by simp [closing])]
  simp

theorem head?_toList_text (r : Reference) : r.text.toList.head? = some '{' := by
  rw [toList_text]
  rfl

theorem lowerAscii_reference_ne {r : Reference} {word : String} (h : word.toList.head? ≠ some '{') :
    Text.lowerAscii r.text ≠ word := by
  rintro rfl
  refine h ?_
  unfold Text.lowerAscii
  rw [String.toList_map, List.head?_map, head?_toList_text]
  rfl

theorem fontWeight?_reference (r : Reference) : fontWeight? r.text = none := by
  unfold fontWeight?
  simp (disch := decide) only [List.mem_cons, List.not_mem_nil, lowerAscii_reference_ne, or_self,
    if_false]

theorem quoteFamily_text (r : Reference) :
    quoteFamily r.text = String.ofList ('"' :: escapeQuotes r.text.toList ++ ['"']) := by
  have keyword : Text.lowerAscii r.text ∉ genericFamilies := by
    have none : ∀ name ∈ genericFamilies, name.toList.head? ≠ some '{' := by decide
    exact fun mem => lowerAscii_reference_ne (none _ mem) rfl
  have special : r.text.toList.any (!isFamilyChar ·) = true := by
    have brace : isFamilyChar '{' = false := by decide +kernel
    refine List.any_eq_true.2 ⟨'{', by simp [toList_text], ?_⟩
    rw [brace]
    rfl
  unfold quoteFamily
  simp only [trim_reference, head?_toList_text]
  rw [if_neg (by decide), if_neg keyword, special, Bool.true_or, if_pos rfl]

/-- **A reference as a family name stands in quotes.** -/
theorem quoteFamily_reference {r : Reference} (h : '"' ∉ r.text.toList) :
    quoteFamily r.text = "\"" ++ r.text ++ "\"" := by
  have escaped : escapeQuotes r.text.toList = r.text.toList := by
    unfold escapeQuotes
    generalize r.text.toList = cs at h
    induction cs with
    | nil => rfl
    | cons c cs ih =>
      rw [List.mem_cons, not_or] at h
      rw [List.flatMap_cons, if_neg (Ne.symm h.1), ih h.2]
      rfl
  rw [quoteFamily_text, escaped]
  apply String.toList_injective
  simp

end DesignTokens
