import DesignTokens.Css.Sheet
import DesignTokens.Proofs.Css.Scan

/-!
# Reading stylesheets

A stylesheet is a list of rules, some of them in the block of a query. A rule is a selector and a block of
declarations, and a declaration is a name, a colon, a blank, a value and a semicolon. What a selector, a query
or a value is made of is read to the first brace or semicolon outside of brackets, quotation marks and
comments.

* `Spot`, `Reader`, `Reader.next?`: a reader of stylesheets; `Sheet.read?`: the rules that a text is read as;
* `CssRule.isClean`: a selector, a query, names and values that are whole;
* `Reader.run_declaration`, `Reader.run_rule`: clean rules are read as they are written;
* `Reader.Sound`, `Reader.sound_of_next?`: what is read is clean, step by step; **`isClean_of_read?`**;
* **`read?_text_iff`**: the rules of a stylesheet are read back exactly if they are clean.
-/

namespace DesignTokens

/-! ## Parts of rules -/

/-- Whether the character may stand between rules and declarations. -/
def isLayout (c : Char) : Bool := c ∈ [' ', '\t', '\n', '\r', '\x0c']

/-- Whether the character may stand in the name of a property. -/
def isNameChar (c : Char) : Bool := c.isAlphanum || c = '-' || c = '_' || 128 ≤ c.toNat

/-- What ends a selector or a query. -/
def preludeStops : List Char := ['{', ';']

/-- What ends a value. -/
def valueStops : List Char := [';']

/-- Whether the text is a selector, or a query if it is to begin with an at sign. -/
def isPrelude (query : Bool) (cs : List Char) : Bool :=
  isWhole preludeStops cs && cs.head?.any fun c => !isLayout c && (c == '@') == query

/-- Whether the text is the name of a property. -/
def isPropertyName (cs : List Char) : Bool := !cs.isEmpty && cs.all isNameChar

/-- Whether the rule has a selector, a query if it has one, names and values. -/
def CssRule.isClean (r : CssRule) : Bool :=
  isPrelude false r.selector.toList && r.query.all (fun q => isPrelude true q.toList) &&
    r.properties.all fun d => isPropertyName d.1.toList && isWhole valueStops d.2.toList

/-! ## The reader -/

/-- A block whose declarations are being read. -/
structure Block where
  selector : String
  properties : List (String × String)
  deriving DecidableEq, Repr

/-- Where a reader stands in a stylesheet. -/
inductive Spot where
  /-- Before a rule, or at the end of the sheet or of the block of a query. -/
  | between
  /-- In a selector or a query. -/
  | prelude (scan : Scan) (text : List Char)
  /-- Before a declaration, or at the end of a block. -/
  | block (b : Block)
  /-- In the name of a property. -/
  | name (b : Block) (text : List Char)
  /-- Behind the colon. -/
  | colon (b : Block) (name : String)
  /-- In a value. -/
  | value (b : Block) (name : String) (scan : Scan) (text : List Char)
  deriving DecidableEq, Repr

/-- A reader of stylesheets. -/
structure Reader where
  /-- The rules read so far. -/
  rules : List CssRule
  /-- The query whose block is open. -/
  query : Option String
  spot : Spot
  deriving DecidableEq, Repr

namespace Reader

/-- Nothing is read. -/
def start : Reader := ⟨[], none, .between⟩

/-- One more character of a selector or a query. -/
def extend? (r : Reader) (scan : Scan) (text : List Char) (c : Char) : Option Reader :=
  if scan.isTop && c ∈ preludeStops then none
  else (scan.next? c).map fun scan => { r with spot := .prelude scan (text ++ [c]) }

/-- The block behind a selector or a query, of which the last blank is no part. -/
def enter? (r : Reader) (text : List Char) : Option Reader :=
  if text.getLast? = some ' ' then
    let front := text.dropLast
    if isPrelude false front then some { r with spot := .block ⟨String.ofList front, []⟩ }
    else if isPrelude true front && r.query.isNone then
      some { r with query := some (String.ofList front), spot := .between }
    else none
  else none

/-- The reader behind a character, if the character may stand there. -/
def next? (r : Reader) (c : Char) : Option Reader :=
  match r.spot with
  | .between =>
    if isLayout c then some r
    else if c = '}' then r.query.map fun _ => { r with query := none }
    else r.extend? .start [] c
  | .prelude scan text =>
    if scan.isTop && c = '{' then r.enter? text else r.extend? scan text c
  | .block b =>
    if isLayout c then some r
    else if c = '}' then
      some { r with rules := r.rules ++ [⟨b.selector, b.properties, r.query⟩], spot := .between }
    else if isNameChar c then some { r with spot := .name b [c] }
    else none
  | .name b text =>
    if c = ':' then some { r with spot := .colon b (String.ofList text) }
    else if isNameChar c then some { r with spot := .name b (text ++ [c]) }
    else none
  | .colon b name => if c = ' ' then some { r with spot := .value b name .start [] } else none
  | .value b name scan text =>
    if scan.isTop && c ∈ valueStops then
      some { r with spot := .block { b with properties := b.properties ++ [(name, String.ofList text)] } }
    else (scan.next? c).map fun scan => { r with spot := .value b name scan (text ++ [c]) }

/-- The reader behind some characters. -/
def run (r : Reader) (cs : List Char) : Option Reader := cs.foldlM next? r

end Reader

/-- The rules that a text is read as. -/
def Sheet.read? (text : String) : Option (List CssRule) :=
  match Reader.start.run text.toList with
  | some ⟨rules, none, .between⟩ => some rules
  | _ => none

/-! ## Reading what is written -/

namespace Reader

variable {r : Reader} {b : Block} {scan scan' : Scan} {cs text : List Char}

theorem run_cons {c : Char} : r.run (c :: cs) = (r.next? c).bind fun r => r.run cs :=
  List.foldlM_cons

theorem run_append {ds : List Char} : r.run (cs ++ ds) = (r.run cs).bind fun r => r.run ds :=
  List.foldlM_append

theorem run_layout (spot : r.spot = .between ∨ ∃ b, r.spot = .block b)
    (h : ∀ c ∈ cs, isLayout c = true) : r.run cs = some r := by
  induction cs with
  | nil => rfl
  | cons c cs ih =>
    obtain ⟨layout, rest⟩ := List.forall_mem_cons.1 h
    have stays : r.next? c = some r := by
      rcases spot with spot | ⟨b, spot⟩
      · rw [next?, spot]
        exact if_pos layout
      · rw [next?, spot]
        exact if_pos layout
    rw [run_cons, stays]
    exact ih rest

theorem run_prelude (h : pass preludeStops scan cs = some scan') :
    run { r with spot := .prelude scan text } cs =
      some { r with spot := .prelude scan' (text ++ cs) } := by
  induction cs generalizing scan text with
  | nil =>
    cases h
    rw [List.append_nil]
    rfl
  | cons c cs ih =>
    rw [pass_cons] at h
    split_ifs at h with ends
    obtain ⟨mid, hmid, h⟩ := Option.bind_eq_some_iff.1 h
    have brace : ¬ (scan.isTop && c = '{') = true := fun same => by
      simp only [Bool.and_eq_true, decide_eq_true_eq] at same ends
      exact ends ⟨same.1, same.2 ▸ List.mem_cons_self⟩
    rw [run_cons, next?]
    simp only [brace, Bool.false_eq_true, if_false, extend?, if_neg ends, hmid, Option.map_some,
      Option.bind_some]
    rw [ih h, List.append_assoc, List.singleton_append]

theorem run_value {name : String} (h : pass valueStops scan cs = some scan') :
    run { r with spot := .value b name scan text } cs =
      some { r with spot := .value b name scan' (text ++ cs) } := by
  induction cs generalizing scan text with
  | nil =>
    cases h
    rw [List.append_nil]
    rfl
  | cons c cs ih =>
    rw [pass_cons] at h
    split_ifs at h with ends
    obtain ⟨mid, hmid, h⟩ := Option.bind_eq_some_iff.1 h
    rw [run_cons, next?]
    simp only [if_neg ends, hmid, Option.map_some, Option.bind_some]
    rw [ih h, List.append_assoc, List.singleton_append]

theorem run_name (h : ∀ c ∈ cs, isNameChar c = true) :
    run { r with spot := .name b text } cs = some { r with spot := .name b (text ++ cs) } := by
  induction cs generalizing text with
  | nil =>
    rw [List.append_nil]
    rfl
  | cons c cs ih =>
    obtain ⟨letter, rest⟩ := List.forall_mem_cons.1 h
    have colon : c ≠ ':' := by
      rintro rfl
      exact absurd letter (by decide)
    rw [run_cons, next?]
    simp only [if_neg colon, letter, if_true, Option.bind_some]
    rw [ih rest, List.append_assoc, List.singleton_append]

theorem next?_blank (h : scan.isTop = true) : scan.next? ' ' = some .start := by
  obtain ⟨awaited, lexis⟩ := scan
  simp only [Scan.isTop, Bool.and_eq_true, List.isEmpty_iff, Bool.or_eq_true, decide_eq_true_eq] at h
  obtain ⟨rfl, rfl | rfl⟩ := h
  · rfl
  · rfl

theorem run_front {query : Bool} {front : List Char} (h : isPrelude query front = true)
    (spot : r.spot = .between) : r.run (front ++ [' ', '{']) = r.enter? (front ++ [' ']) := by
  obtain ⟨whole, head⟩ := Bool.and_eq_true_iff.1 h
  obtain ⟨scan, passed, top⟩ := isWhole_iff.1 whole
  cases front with
  | nil => cases head
  | cons c rest =>
    have layout : isLayout c = false := by
      have := (Bool.and_eq_true_iff.1 head).1
      simpa using this
    have going : ¬ c ∈ preludeStops := fun stop => by
      rw [pass_cons, if_pos (by simp [stop, Scan.isTop, Scan.start])] at passed
      cases passed
    have closing : c ≠ '}' := by
      rintro rfl
      cases passed
    have begins : r.run (c :: (rest ++ [' ', '{'])) =
        run { r with spot := .prelude .start [] } (c :: (rest ++ [' ', '{'])) := by
      have brace : c ≠ '{' := fun same => going (same ▸ List.mem_cons_self)
      rw [run_cons, run_cons, next?, next?, spot]
      simp only [layout, Bool.false_eq_true, if_false, closing, brace, decide_false, Bool.and_false]
      rfl
    rw [List.cons_append, begins, ← List.cons_append, run_append, run_prelude passed, Option.bind_some,
      List.nil_append, run_cons, next?]
    simp only [extend?, next?_blank top, preludeStops]
    rw [if_neg (by simp), if_neg (by simp), Option.map_some, Option.bind_some, run_cons, next?]
    simp only [Scan.isTop, Scan.start]
    rw [if_pos (by simp)]
    show (r.enter? (c :: rest ++ [' '])).bind (fun r => r.run []) = _
    cases r.enter? (c :: rest ++ [' ']) <;> rfl

theorem enter?_selector {front : List Char} (h : isPrelude false front = true) :
    r.enter? (front ++ [' ']) = some { r with spot := .block ⟨String.ofList front, []⟩ } := by
  unfold enter?
  rw [if_pos (by simp), List.dropLast_concat]
  exact if_pos h

theorem enter?_query {front : List Char} (h : isPrelude true front = true) (none : r.query = none) :
    r.enter? (front ++ [' ']) =
      some { r with query := some (String.ofList front), spot := .between } := by
  have other : ¬ isPrelude false front = true := fun selector => by
    have first := (Bool.and_eq_true_iff.1 h).2
    have first' := (Bool.and_eq_true_iff.1 selector).2
    cases front with
    | nil => cases first
    | cons c rest =>
      have sign : (c == '@') = true := by simpa using (Bool.and_eq_true_iff.1 first).2
      have letter : (c == '@') = false := by simpa using (Bool.and_eq_true_iff.1 first').2
      exact Bool.false_ne_true (letter.symm.trans sign)
  unfold enter?
  rw [if_pos (by simp), List.dropLast_concat]
  simp [other, h, none]

/-- **A declaration** with a name and a value. -/
theorem run_declaration {indent : String} (layout : ∀ c ∈ indent.toList, isLayout c = true)
    {d : String × String} (name : isPropertyName d.1.toList = true)
    (value : isWhole valueStops d.2.toList = true) :
    run { r with spot := .block b } (declarationText indent d).toList =
      some { r with spot := .block { b with properties := b.properties ++ [d] } } := by
  obtain ⟨name', value'⟩ := d
  obtain ⟨filled, letters⟩ := Bool.and_eq_true_iff.1 name
  obtain ⟨scan, passed, top⟩ := isWhole_iff.1 value
  unfold declarationText
  simp only [String.toList_append, List.append_assoc] at filled letters passed ⊢
  rw [run_append, run_layout (.inr ⟨b, rfl⟩) layout, Option.bind_some]
  cases hname : name'.toList with
  | nil => simp [hname] at filled
  | cons c rest =>
    rw [hname] at letters
    obtain ⟨letter, letters⟩ := List.forall_mem_cons.1 (List.all_eq_true.1 letters)
    have names : ∀ c ∈ [' ', '\t', '\n', '\r', '\x0c'], isNameChar c = false :=
      List.all_iff_forall_prop.1 (by decide)
    have blank : isLayout c = false := by
      refine decide_eq_false fun layout => ?_
      rw [names c layout] at letter
      cases letter
    have closing : c ≠ '}' := by
      rintro rfl
      exact absurd letter (by decide)
    rw [List.cons_append, run_cons, next?]
    simp only [blank, Bool.false_eq_true, if_false, closing, letter, if_true, Option.bind_some]
    rw [run_append, run_name letters, Option.bind_some]
    show run { r with spot := .name b _ } (':' :: ' ' :: (value'.toList ++ [';', '\n'])) = _
    rw [run_cons, next?]
    simp only [if_true, Option.bind_some]
    rw [run_cons, next?]
    simp only [if_true, Option.bind_some]
    rw [run_append, run_value passed, Option.bind_some, run_cons, next?]
    simp only [top, valueStops, List.mem_singleton, decide_true, Bool.and_true, if_true,
      Option.bind_some]
    rw [run_layout (.inr ⟨_, rfl⟩) (by simp [isLayout]), List.singleton_append, List.nil_append, ← hname,
      String.ofList_toList, String.ofList_toList]

theorem run_declarations {indent : String} (layout : ∀ c ∈ indent.toList, isLayout c = true)
    {ds : List (String × String)}
    (clean : ∀ d ∈ ds, isPropertyName d.1.toList = true ∧ isWhole valueStops d.2.toList = true) :
    run { r with spot := .block b } (String.join (ds.map (declarationText indent))).toList =
      some { r with spot := .block { b with properties := b.properties ++ ds } } := by
  induction ds generalizing b with
  | nil => simp [run]
  | cons d ds ih =>
    obtain ⟨⟨name, value⟩, rest⟩ := List.forall_mem_cons.1 clean
    rw [List.map_cons, String.join_cons, String.toList_append, run_append,
      run_declaration layout name value, Option.bind_some, ih rest, List.append_assoc,
      List.singleton_append]

theorem run_body (spot : r.spot = .between) {rule : CssRule} (clean : rule.isClean = true)
    {indent : String} (layout : ∀ c ∈ indent.toList, isLayout c = true) :
    r.run (rule.selector ++ " \x7b\n" ++
        String.join (rule.properties.map (declarationText indent))).toList =
      some { r with spot := .block ⟨rule.selector, rule.properties⟩ } := by
  simp only [CssRule.isClean, Bool.and_eq_true, List.all_eq_true] at clean
  obtain ⟨⟨selector, -⟩, properties⟩ := clean
  have opening : (" \x7b\n" : String).toList = [' ', '{'] ++ ['\n'] := by decide
  rw [String.toList_append, String.toList_append, opening, ← List.append_assoc, run_append, run_append,
    run_front selector spot, enter?_selector selector, Option.bind_some,
    run_layout (.inr ⟨_, rfl⟩) (by simp [isLayout]), Option.bind_some, run_declarations layout properties,
    String.ofList_toList, List.nil_append]

/-- **A clean rule** is read as it is written. -/
theorem run_rule {rules : List CssRule} {rule : CssRule} (clean : rule.isClean = true) :
    run ⟨rules, none, .between⟩ rule.text.toList = some ⟨rules ++ [rule], none, .between⟩ := by
  obtain ⟨selector, properties, query⟩ := rule
  unfold CssRule.text
  cases query with
  | none =>
    have closing : ("\x7d\n\n" : String).toList = ['}', '\n', '\n'] := by decide
    simp only
    rw [String.toList_append, run_append,
      run_body rfl clean (by simp [isLayout]), Option.bind_some, closing]
    rfl
  | some query =>
    have whole : isPrelude true query.toList = true := by
      simp only [CssRule.isClean, Bool.and_eq_true] at clean
      exact clean.1.2
    have opening : (" \x7b\n  " : String).toList = [' ', '{'] ++ ['\n', ' ', ' '] := by decide
    have closing : ("  \x7d\n\x7d\n\n" : String).toList =
        [' ', ' ', '}', '\n', '}', '\n', '\n'] := by decide
    simp only
    rw [String.toList_append, String.toList_append, String.toList_append, opening, ← List.append_assoc,
      List.append_assoc, List.append_assoc, run_append, run_front whole rfl, enter?_query whole rfl,
      Option.bind_some, String.ofList_toList, run_append, run_layout (.inl rfl) (by simp [isLayout]),
      Option.bind_some, run_append,
      run_body rfl clean (by simp [isLayout]), Option.bind_some,
      closing]
    rfl

/-- **Clean rules** one after the other. -/
theorem run_rules {rules : List CssRule} (clean : ∀ r ∈ rules, r.isClean = true) (before : List CssRule) :
    run ⟨before, none, .between⟩ (Sheet.text ⟨rules⟩).toList =
      some ⟨before ++ rules, none, .between⟩ := by
  unfold Sheet.text
  induction rules generalizing before with
  | nil => simp [run]
  | cons rule rules ih =>
    obtain ⟨first, rest⟩ := List.forall_mem_cons.1 clean
    rw [List.map_cons, String.join_cons, String.toList_append, run_append, run_rule first,
      Option.bind_some, ih rest, List.append_assoc, List.singleton_append]

end Reader

/-! ## What is read is clean -/

/-- The selector and the declarations of a block are clean. -/
def Block.Sound (b : Block) : Prop :=
  isPrelude false b.selector.toList = true ∧
    ∀ d ∈ b.properties, isPropertyName d.1.toList = true ∧ isWhole valueStops d.2.toList = true

/-- What is read so far of a rule is clean. -/
def Spot.Sound : Spot → Prop
  | .between => True
  | .prelude _ _ => True
  | .block b => b.Sound
  | .name b text => b.Sound ∧ isPropertyName text = true
  | .colon b property => b.Sound ∧ isPropertyName property.toList = true
  | .value b property scan text =>
    b.Sound ∧ isPropertyName property.toList = true ∧ pass valueStops .start text = some scan

theorem Block.Sound.concat {b : Block} (h : b.Sound) {name : String} {text : List Char}
    (named : isPropertyName name.toList = true) (whole : isWhole valueStops text = true) :
    Block.Sound { b with properties := b.properties ++ [(name, String.ofList text)] } := by
  refine ⟨h.1, List.forall_mem_append.2 ⟨h.2, ?_⟩⟩
  rw [List.forall_mem_singleton, String.toList_ofList]
  exact ⟨named, whole⟩

namespace Reader

/-- What is read so far is clean. -/
structure Sound (r : Reader) : Prop where
  rules : ∀ rule ∈ r.rules, rule.isClean = true
  query : ∀ q ∈ r.query, isPrelude true q.toList = true
  spot : r.spot.Sound

variable {r r' : Reader}

theorem sound_of_extend? (sound : r.Sound) {scan : Scan} {text : List Char} {c : Char}
    (h : r.extend? scan text c = some r') : r'.Sound := by
  unfold extend? at h
  split_ifs at h
  obtain ⟨scan', -, rfl⟩ := Option.map_eq_some_iff.1 h
  exact ⟨sound.rules, sound.query, trivial⟩

theorem sound_of_enter? (sound : r.Sound) {text : List Char} (h : r.enter? text = some r') :
    r'.Sound := by
  unfold enter? at h
  simp only at h
  split_ifs at h with blank selector query
  · cases h
    refine ⟨sound.rules, sound.query, ?_, by simp⟩
    rwa [String.toList_ofList]
  · cases h
    refine ⟨sound.rules, ?_, trivial⟩
    intro q hq
    obtain rfl := Option.some.inj hq
    rw [String.toList_ofList]
    exact (Bool.and_eq_true_iff.1 query).1

theorem Sound.isClean (sound : r.Sound) {b : Block} (here : b.Sound) :
    CssRule.isClean ⟨b.selector, b.properties, r.query⟩ = true := by
  simp only [CssRule.isClean, Bool.and_eq_true, List.all_eq_true]
  exact ⟨⟨here.1, by cases hq : r.query <;> simp [sound.query, hq]⟩, here.2⟩

theorem isPropertyName_concat {text : List Char} {c : Char} (h : text = [] ∨ isPropertyName text = true)
    (letter : isNameChar c = true) : isPropertyName (text ++ [c]) = true := by
  rcases h with rfl | h
  · simp [isPropertyName, letter]
  · simp only [isPropertyName, Bool.and_eq_true] at h ⊢
    simp [h.2, letter]

/-- **A step of the reader** keeps it clean. -/
theorem sound_of_next? (sound : r.Sound) {c : Char} (h : r.next? c = some r') : r'.Sound := by
  have here := sound.spot
  unfold next? at h
  cases spot : r.spot with
  | between =>
    rw [spot] at h
    simp only at h
    split_ifs at h
    · cases h
      exact sound
    · obtain ⟨-, -, rfl⟩ := Option.map_eq_some_iff.1 h
      exact ⟨sound.rules, by simp, trivial⟩
    · exact sound_of_extend? sound h
  | prelude scan text =>
    rw [spot] at h
    simp only at h
    split_ifs at h
    · exact sound_of_enter? sound h
    · exact sound_of_extend? sound h
  | block b =>
    rw [spot] at h here
    simp only at h
    split_ifs at h with layout closing letter
    · cases h
      exact sound
    · cases h
      refine ⟨List.forall_mem_append.2 ⟨sound.rules, ?_⟩, sound.query, trivial⟩
      exact List.forall_mem_singleton.2 (sound.isClean here)
    · cases h
      exact ⟨sound.rules, sound.query, here, isPropertyName_concat (.inl rfl) letter⟩
  | name b text =>
    rw [spot] at h here
    simp only at h
    split_ifs at h with colon letter
    · cases h
      refine ⟨sound.rules, sound.query, here.1, ?_⟩
      rw [String.toList_ofList]
      exact here.2
    · cases h
      exact ⟨sound.rules, sound.query, here.1, isPropertyName_concat (.inr here.2) letter⟩
  | colon b property =>
    rw [spot] at h here
    simp only at h
    split_ifs at h
    cases h
    exact ⟨sound.rules, sound.query, here.1, here.2, rfl⟩
  | value b property scan text =>
    rw [spot] at h here
    obtain ⟨block, name, passed⟩ := here
    simp only at h
    split_ifs at h with ends
    · cases h
      have whole : isWhole valueStops text = true :=
        isWhole_iff.2 ⟨scan, passed, (Bool.and_eq_true_iff.1 ends).1⟩
      exact ⟨sound.rules, sound.query, block.concat name whole⟩
    · obtain ⟨scan', next, rfl⟩ := Option.map_eq_some_iff.1 h
      refine ⟨sound.rules, sound.query, block, name, ?_⟩
      rw [pass_append, passed, Option.bind_some, pass_cons, if_neg ends, next]
      rfl

/-- **A run of the reader** keeps it clean. -/
theorem sound_of_run (sound : r.Sound) {cs : List Char} (h : r.run cs = some r') : r'.Sound := by
  induction cs generalizing r with
  | nil =>
    cases h
    exact sound
  | cons c cs ih =>
    rw [run_cons] at h
    obtain ⟨mid, hmid, h⟩ := Option.bind_eq_some_iff.1 h
    exact ih (sound_of_next? sound hmid) h

end Reader

/-- **What is read is clean**, whatever the text. -/
theorem isClean_of_read? {text : String} {rules : List CssRule} (h : Sheet.read? text = some rules) :
    ∀ r ∈ rules, r.isClean = true := by
  unfold Sheet.read? at h
  split at h
  · rename_i read _
    cases h
    have start : Reader.start.Sound := ⟨by simp [Reader.start], by simp [Reader.start], trivial⟩
    exact (Reader.sound_of_run start ‹_›).rules
  · cases h

/-- **The rules of a stylesheet** are read back exactly if they are clean. -/
theorem read?_text_iff {rules : List CssRule} :
    Sheet.read? (Sheet.text ⟨rules⟩) = some rules ↔ ∀ r ∈ rules, r.isClean = true := by
  refine ⟨isClean_of_read?, fun clean => ?_⟩
  unfold Sheet.read?
  rw [show Reader.start.run (Sheet.text ⟨rules⟩).toList = some ⟨rules, none, .between⟩ from
    Reader.run_rules clean []]

end DesignTokens
