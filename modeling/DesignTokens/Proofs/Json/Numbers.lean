import DesignTokens.Json.Compact
import DesignTokens.Proofs.Json.Reads
import Mathlib.Data.List.TakeWhile

/-!
# Reading numbers

A number in front of a text ends where no number can go on. A whole number of 64 bits is read back from
its digits.

* `signed`, `unsigned`: a number behind its sign; `signedDigits_cons`, `literal_cons`: with a sign or
  none;
* `Ends`: what no number goes on with; **`literal_append`**, `Reads.num_append`: reading stops there;
* `Written`: a text that is read as a tree, whatever ends it; `written_of_parse?`: a number that is one
  by itself;
* **`parse?_integer`**: whole numbers.
-/

namespace DesignTokens.Json.Raw

variable {cs rest : List Char}

/-! ## The parts of a number -/

theorem fractionDigits_cons (c : Char) (cs : List Char) : fractionDigits (c :: cs) =
    if c = '.' then if (digits cs).1 = [] then none else some (some (digits cs).1, (digits cs).2)
    else some (none, c :: cs) := by
  unfold fractionDigits
  split
  · rename_i later same
    cases same
    rw [if_pos rfl]
    split
    · rename_i empty
      have none : (digits cs).1 = [] := congrArg Prod.fst empty
      rw [if_pos none]
    · rename_i some found
      rw [found, if_neg some]
  · rename_i other
    exact (if_neg fun point => other cs (congrArg (· :: cs) point)).symm

/-- Digits as a number with a sign. -/
def signed (negative : Bool) (cs : List Char) : Option (Int × List Char) :=
  if (digits cs).1 = [] then none
  else some (if negative then -(ofDigits (digits cs).1 : Int) else ofDigits (digits cs).1, (digits cs).2)

theorem signedDigits_cons (c : Char) (cs : List Char) : signedDigits (c :: cs) =
    if c = '-' then signed true cs else if c = '+' then signed false cs else signed false (c :: cs) := by
  unfold signedDigits
  split
  rename_i negative body front
  refine Eq.trans (b := signed negative body) ?_ ?_
  · unfold signed
    split
    · rename_i empty
      have none : (digits body).1 = [] := congrArg Prod.fst empty
      rw [if_pos none]
    · rename_i some found
      rw [found, if_neg some]
  · split at front
    · rename_i same
      cases same
      cases front
      rfl
    · rename_i same
      cases same
      cases front
      rfl
    · rename_i minus plus
      cases front
      have noMinus : c ≠ '-' := fun first => minus cs (congrArg (· :: cs) first)
      have noPlus : c ≠ '+' := fun first => plus cs (congrArg (· :: cs) first)
      rw [if_neg noMinus, if_neg noPlus]

/-- The parts of a number behind its sign. -/
def unsigned (negative : Bool) (cs : List Char) : Option (Literal × List Char) :=
  (wholeDigits cs).bind fun w => (fractionDigits w.2).bind fun f => (exponent f.2).bind fun e =>
    some (⟨negative, w.1, f.1.getD [], e.1, f.1.isSome⟩, e.2)

theorem literal_cons (c : Char) (cs : List Char) :
    literal (c :: cs) = if c = '-' then unsigned true cs else unsigned false (c :: cs) := by
  unfold literal
  split
  rename_i negative body front
  refine Eq.trans (b := unsigned negative body) rfl ?_
  split at front
  · rename_i same
    cases same
    cases front
    rfl
  · rename_i minus
    cases front
    have noMinus : c ≠ '-' := fun first => minus cs (congrArg (· :: cs) first)
    rw [if_neg noMinus]

/-! ## Where a number ends -/

/-- A number in front ends before these characters. -/
def Ends (rest : List Char) : Prop :=
  ∀ c ∈ rest.head?, c.isDigit = false ∧ c ≠ '.' ∧ c ≠ 'e' ∧ c ≠ 'E'

section Append

variable (ends : Ends rest)

include ends

theorem Ends.takeWhile_eq_nil : rest.takeWhile Char.isDigit = [] := by
  cases rest with
  | nil => rfl
  | cons c _ => exact List.takeWhile_cons_of_neg (by simp [(ends c rfl).1])

theorem digits_append (cs : List Char) :
    digits (cs ++ rest) = ((digits cs).1, (digits cs).2 ++ rest) := by
  have all : rest.dropWhile Char.isDigit = rest := by
    have split := List.takeWhile_append_dropWhile (p := Char.isDigit) (l := rest)
    rwa [ends.takeWhile_eq_nil, List.nil_append] at split
  unfold digits
  rw [List.takeWhile_append, List.dropWhile_append, ends.takeWhile_eq_nil, all, List.append_nil]
  congr 2
  · split
    · rename_i same
      rw [(List.takeWhile_prefix _).eq_of_length same]
    · rfl
  · split
    · rename_i empty
      rw [List.isEmpty_iff.1 empty, List.nil_append]
    · rfl

theorem wholeDigits_append {ds : List Nat} {r : List Char} (h : wholeDigits cs = some (ds, r)) :
    wholeDigits (cs ++ rest) = some (ds, r ++ rest) := by
  unfold wholeDigits at h
  split at h
  · cases h
    rfl
  · rename_i other
    have long : digits cs = (ds, r) ∧ ds ≠ [] := by
      split at h
      · cases h
      · rename_i ds' r' some found
        cases h
        exact ⟨found, some⟩
    unfold wholeDigits
    split
    · rename_i r' same
      cases cs with
      | nil => exact absurd (congrArg Prod.fst long.1).symm long.2
      | cons c later =>
        rw [List.cons_append, List.cons.injEq] at same
        exact absurd (same.1 ▸ rfl) (other later)
    · rw [digits_append ends, long.1]
      split
      · rename_i empty
        exact absurd (congrArg Prod.fst empty) long.2
      · rename_i found
        rw [← found]

theorem fractionDigits_append {f : Option (List Nat)} {r : List Char}
    (h : fractionDigits cs = some (f, r)) : fractionDigits (cs ++ rest) = some (f, r ++ rest) := by
  cases cs with
  | nil =>
    cases h
    cases rest with
    | nil => rfl
    | cons c later =>
      obtain ⟨-, point, -⟩ := ends c rfl
      exact (fractionDigits_cons c later).trans (if_neg point)
  | cons c later =>
    rw [fractionDigits_cons] at h
    rw [List.cons_append, fractionDigits_cons]
    split at h
    · rename_i point
      split at h
      · cases h
      · rename_i some
        cases h
        simp [point, digits_append ends, some]
    · rename_i other
      cases h
      exact if_neg other

theorem signed_append {negative : Bool} {e : Int} {r : List Char}
    (h : signed negative cs = some (e, r)) : signed negative (cs ++ rest) = some (e, r ++ rest) := by
  unfold signed at h ⊢
  split at h
  · cases h
  · rename_i some
    cases h
    simp [digits_append ends, some]

theorem signedDigits_append {e : Int} {r : List Char} (h : signedDigits cs = some (e, r)) :
    signedDigits (cs ++ rest) = some (e, r ++ rest) := by
  cases cs with
  | nil => cases h
  | cons c later =>
    rw [signedDigits_cons] at h
    rw [List.cons_append, signedDigits_cons]
    by_cases minus : c = '-'
    · rw [if_pos minus] at h ⊢
      exact signed_append ends h
    by_cases plus : c = '+'
    · rw [if_neg minus, if_pos plus] at h ⊢
      exact signed_append ends h
    · rw [if_neg minus, if_neg plus] at h ⊢
      exact signed_append ends h

theorem exponent_append {e : Option Int} {r : List Char} (h : exponent cs = some (e, r)) :
    exponent (cs ++ rest) = some (e, r ++ rest) := by
  cases cs with
  | nil =>
    cases h
    cases rest with
    | nil => rfl
    | cons c later =>
      obtain ⟨-, -, small, great⟩ := ends c rfl
      simp [exponent, small, great]
  | cons c later =>
    unfold exponent at h ⊢
    rw [List.cons_append]
    dsimp only at h ⊢
    split at h
    · rename_i letter
      obtain ⟨⟨e', r'⟩, signed, same⟩ := Option.map_eq_some_iff.1 h
      cases same
      rw [if_pos letter, signedDigits_append ends signed]
      rfl
    · rename_i letter
      cases h
      rw [if_neg letter]
      rfl

theorem unsigned_append {negative : Bool} {l : Literal} {r : List Char}
    (h : unsigned negative cs = some (l, r)) : unsigned negative (cs ++ rest) = some (l, r ++ rest) := by
  obtain ⟨⟨ds, r₁⟩, whole, h⟩ := Option.bind_eq_some_iff.1 h
  obtain ⟨⟨f, r₂⟩, fraction, h⟩ := Option.bind_eq_some_iff.1 h
  obtain ⟨⟨e, r₃⟩, exponent, h⟩ := Option.bind_eq_some_iff.1 h
  cases h
  unfold unsigned
  rw [wholeDigits_append ends whole, Option.bind_some, fractionDigits_append ends fraction, Option.bind_some,
    exponent_append ends exponent, Option.bind_some]

/-- **A number ends before what it cannot go on with.** -/
theorem literal_append {l : Literal} {r : List Char} (h : literal cs = some (l, r)) :
    literal (cs ++ rest) = some (l, r ++ rest) := by
  cases cs with
  | nil => cases h
  | cons c later =>
    rw [literal_cons] at h
    rw [List.cons_append, literal_cons]
    by_cases minus : c = '-'
    · rw [if_pos minus] at h ⊢
      exact unsigned_append ends h
    · rw [if_neg minus] at h ⊢
      exact unsigned_append ends h

end Append

/-! ## Numbers in front -/

theorem number_of_tree {n : Option Number} {r : { r : List Char // r.length < cs.length }}
    (h : tree cs = some (.num n, r)) : number cs = some (n, r) ∧
      ∃ c later, cs = c :: later ∧ ∀ first ∈ ['"', '[', '\x7b', 'n', 't', 'f'], c ≠ first := by
  have word : ∀ {w : List Char} {t : Raw} (cs : List Char) {r},
      word w t cs = some (.num n, r) → t = .num n := by
    intro w t cs r h
    unfold Raw.word at h
    split at h
    · cases h
      rfl
    · cases h
  unfold tree at h
  split at h
  · cases h
  · obtain ⟨s, -, h⟩ := Option.bind_eq_some_iff.1 h
    cases h
  · split at h
    · cases h
    · obtain ⟨s, -, h⟩ := Option.bind_eq_some_iff.1 h
      cases h
  · split at h
    · cases h
    · obtain ⟨s, -, h⟩ := Option.bind_eq_some_iff.1 h
      cases h
  · rename_i c later quote bracket brace
    split at h
    · cases word _ h
    split at h
    · cases word _ h
    split at h
    · cases word _ h
    rename_i null true false
    obtain ⟨⟨n', r'⟩, read, same⟩ := Option.map_eq_some_iff.1 h
    cases same
    exact ⟨read, c, later, rfl, by simp [null, true, false]; exact ⟨quote, bracket, brace⟩⟩

theorem Reads.num {c : Char} {later r : List Char} {l : Literal}
    (other : ∀ first ∈ ['"', '[', '\x7b', 'n', 't', 'f'], c ≠ first)
    (front : literal (c :: later) = some (l, r)) (shorter : r.length < (c :: later).length) :
    Reads (c :: later) (.num l.value?) r := by
  have read : number (c :: later) = some (l.value?, ⟨r, shorter⟩) := by
    unfold number
    rw [front]
    exact dif_pos shorter
  simp only [List.forall_mem_cons, List.not_mem_nil, false_imp_iff, implies_true, and_true] at other
  obtain ⟨quote, bracket, brace, null, true, false⟩ := other
  refine ⟨shorter, ?_⟩
  rw [tree.eq_5 c _ quote bracket brace, if_neg null, if_neg true, if_neg false, read]
  rfl

theorem Reads.num_append (ends : Ends rest) {n : Option Number} {r : List Char}
    (h : Reads cs (.num n) r) : Reads (cs ++ rest) (.num n) (r ++ rest) := by
  obtain ⟨shorter, h⟩ := h
  obtain ⟨read, c, later, rfl, other⟩ := number_of_tree h
  obtain ⟨⟨l, r'⟩, front, read⟩ := Option.bind_eq_some_iff.1 read
  dsimp only at read
  split at read
  · cases read
    have shorter' : (r ++ rest).length < (c :: (later ++ rest)).length := by
      simp only [List.length_append, List.length_cons] at shorter ⊢
      omega
    exact .num other (literal_append ends front) shorter'
  · cases read

/-- A text that is read as a tree, whatever ends it. -/
def Written (text : List Char) (t : Raw) : Prop :=
  ∀ rest, Ends rest → ∃ r, Reads (skip (text ++ rest)) t r ∧ skip r = skip rest

/-- **A text that is a number by itself** is one whatever ends it. -/
theorem written_of_parse? {text : String} {n : Number} (h : parse? text = some (.num n)) :
    Written text.toList (.num (some n)) := by
  intro rest ends
  obtain ⟨t, read, value⟩ := Option.bind_eq_some_iff.1 h
  obtain rfl : t = .num (some n) := by
    rcases value?_cases value with ⟨-, same⟩ | ⟨_, -, same⟩ | ⟨_, rfl, same⟩ | ⟨_, -, same⟩ |
      ⟨_, _, _, -, -, -, same⟩ | ⟨_, _, _, -, -, -, same⟩ <;> cases same
    rfl
  obtain ⟨⟨t, r, shorter⟩, front, closed⟩ := Option.bind_eq_some_iff.1 read
  dsimp only at closed
  split at closed
  · rename_i blank
    cases closed
    have reads : Reads (skip text.toList) (.num (some n)) r := ⟨shorter, front⟩
    have more : (skip text.toList).isEmpty = false := by
      obtain ⟨-, c, later, some, -⟩ := number_of_tree front
      rw [some]
      rfl
    refine ⟨r ++ rest, ?_, ?_⟩
    · have whole : skip (text.toList ++ rest) = skip text.toList ++ rest := by
        unfold skip at more ⊢
        rw [List.dropWhile_append, if_neg (by simp [more])]
      exact whole ▸ reads.num_append ends
    · unfold skip at blank ⊢
      rw [List.dropWhile_append, if_pos blank]
  · cases closed

/-! ## Whole numbers -/

theorem le_foldl_digits (w : Nat) (ds : List Nat) : w ≤ ds.foldl (fun n d => n * 10 + d) w := by
  induction ds generalizing w with
  | nil => exact le_rfl
  | cons d ds ih =>
    have := ih (w * 10 + d)
    rw [List.foldl_cons]
    omega

theorem absorb_eq {w : Nat} {ds : List Nat} (fits : ds.foldl (fun n d => n * 10 + d) w < Nat.pow 2 64) :
    absorb w ds = (ds.foldl (fun n d => n * 10 + d) w, ds.length, 0) := by
  induction ds generalizing w with
  | nil => rfl
  | cons d ds ih =>
    rw [List.foldl_cons] at fits ⊢
    have first := (le_foldl_digits (w * 10 + d) ds).trans_lt fits
    rw [absorb, if_pos first, ih fits]
    rfl

theorem head?_toDigits {n : Nat} (h : n ≠ 0) : (Nat.toDigits 10 n).head? ≠ some '0' := by
  induction n using Nat.strongRecOn with
  | ind n ih =>
    have one : ∀ d, d < 10 → d ≠ 0 → Nat.digitChar d ≠ '0' := by decide
    by_cases small : n < 10
    · rw [Nat.toDigits_of_lt_base small, List.head?_cons]
      exact fun same => one n small h (Option.some.inj same)
    · rw [Nat.toDigits_of_base_le (by decide) (Nat.le_of_not_lt small)]
      have former := ih (n / 10) (by omega) (by omega)
      cases digits : Nat.toDigits 10 (n / 10) with
      | nil => exact absurd digits Nat.toDigits_ne_nil
      | cons c later => rwa [digits] at former

theorem digits_toDigits (n : Nat) : ∃ ds, digits (Nat.toDigits 10 n) = (ds, []) ∧ ds ≠ [] ∧
    ofDigits ds = n := by
  have all : ∀ c ∈ Nat.toDigits 10 n, c.isDigit = true :=
    fun c hc => Nat.isDigit_of_mem_toDigits (by decide) (by decide) hc
  refine ⟨(Nat.toDigits 10 n).map fun c => c.toNat - '0'.toNat, ?_, by simp, ?_⟩
  · unfold digits
    rw [List.takeWhile_eq_self_iff.2 all, List.dropWhile_eq_nil_iff.2 all]
  · unfold ofDigits
    rw [List.foldl_map]
    have value := Nat.ofDigitChars_ten_toDigits (n := n)
    rw [Nat.ofDigitChars_eq_foldl] at value
    simpa [Nat.mul_comm] using value

theorem wholeDigits_toDigits (n : Nat) : ∃ ds, wholeDigits (Nat.toDigits 10 n) = some (ds, []) ∧
    ofDigits ds = n := by
  by_cases zero : n = 0
  · subst zero
    exact ⟨[0], by decide, rfl⟩
  · obtain ⟨ds, read, some, value⟩ := digits_toDigits n
    refine ⟨ds, ?_, value⟩
    unfold wholeDigits
    split
    · rename_i digits
      exact absurd (by rw [digits]; rfl) (head?_toDigits zero)
    · rw [read]
      split
      · rename_i empty
        exact absurd (congrArg Prod.fst empty) some
      · rename_i same
        cases same
        rfl

theorem literal_toDigits (n : Nat) : ∃ ds, ofDigits ds = n ∧
    literal (Nat.toDigits 10 n) = some (⟨false, ds, [], none, false⟩, []) ∧
    literal ('-' :: Nat.toDigits 10 n) = some (⟨true, ds, [], none, false⟩, []) := by
  obtain ⟨ds, whole, value⟩ := wholeDigits_toDigits n
  have read : ∀ negative, unsigned negative (Nat.toDigits 10 n) =
      some (⟨negative, ds, [], none, false⟩, []) := by
    intro negative
    unfold unsigned
    rw [whole]
    rfl
  refine ⟨ds, value, ?_, (literal_cons _ _).trans ((if_pos rfl).trans (read true))⟩
  rw [← read false]
  cases digits : Nat.toDigits 10 n with
  | nil => exact absurd digits Nat.toDigits_ne_nil
  | cons c later =>
    have digit := Nat.isDigit_of_mem_toDigits (b := 10) (n := n) (c := c) (by decide) (by decide)
      (digits ▸ List.mem_cons_self)
    have noMinus : c ≠ '-' := fun minus => absurd (minus ▸ digit) (by decide)
    rw [literal_cons, if_neg noMinus]

theorem value?_whole {negative : Bool} {ds : List Nat} (fits : ofDigits ds < Nat.pow 2 64) :
    Literal.value? ⟨negative, ds, [], none, false⟩ =
      if !negative then some (.integer (ofDigits ds))
      else if 0 < ofDigits ds && ofDigits ds ≤ Nat.pow 2 63 then some (.integer (-(ofDigits ds : Int)))
      else some (.double (-(UInt64.ofNat (ofDigits ds)).toFloat)) := by
  unfold Literal.value?
  rw [absorb_eq fits]
  rfl

theorem other_of_digit {c : Char} (h : c.isDigit = true ∨ c = '-') :
    ∀ first ∈ ['"', '[', '\x7b', 'n', 't', 'f'], c ≠ first := by
  rintro _ among rfl
  simp only [List.mem_cons, List.not_mem_nil, or_false] at among
  rcases among with rfl | rfl | rfl | rfl | rfl | rfl
  all_goals exact absurd h (by decide)

theorem parse?_of_literal {text : String} {c : Char} {later : List Char} (chars : text.toList = c :: later)
    (h : c.isDigit = true ∨ c = '-') {l : Literal} (front : literal (c :: later) = some (l, []))
    {n : Number} (value : l.value? = some n) : parse? text = some (.num n) := by
  have blank : isBlank c = false := by
    by_contra blank
    rw [Bool.not_eq_false, isBlank] at blank
    simp only [Bool.or_eq_true, decide_eq_true_eq, or_assoc] at blank
    rcases blank with rfl | rfl | rfl | rfl
    all_goals exact absurd h (by decide)
  have reads : Reads (skip text.toList) (.num l.value?) [] := by
    rw [chars, skip, List.dropWhile_cons_of_neg (by simp [blank])]
    exact .num (other_of_digit h) front (by simp)
  unfold parse?
  rw [read_of_reads reads rfl, value]
  rfl

/-- **A whole number of 64 bits is read back from its digits.** -/
theorem parse?_integer {n : Int} (lower : -Nat.pow 2 63 ≤ n) (upper : n < Nat.pow 2 64) :
    parse? (Number.integer n).text = some (.num (.integer n)) := by
  have text : (Number.integer n).text = toString n := rfl
  rw [Int.toString_eq_repr] at text
  cases n with
  | ofNat m =>
    obtain ⟨ds, value, front, -⟩ := literal_toDigits m
    have chars : (Number.integer (.ofNat m)).text.toList = Nat.toDigits 10 m := by
      rw [text, show (Int.ofNat m).repr = m.repr from rfl, Nat.repr_eq_ofList_toDigits, String.toList_ofList]
    have digit : ∀ c ∈ Nat.toDigits 10 m, c.isDigit = true :=
      fun c hc => Nat.isDigit_of_mem_toDigits (by decide) (by decide) hc
    cases digits : Nat.toDigits 10 m with
    | nil => exact absurd digits Nat.toDigits_ne_nil
    | cons c later =>
      rw [digits] at chars front digit
      refine parse?_of_literal chars (.inl (digit c List.mem_cons_self)) front ?_
      have fits : ofDigits ds < Nat.pow 2 64 := value.symm ▸ Int.ofNat_lt.1 upper
      rw [value?_whole fits, value]
      rfl
  | negSucc m =>
    obtain ⟨ds, value, -, front⟩ := literal_toDigits (m + 1)
    have chars : (Number.integer (.negSucc m)).text.toList = '-' :: Nat.toDigits 10 (m + 1) := by
      rw [text, show (Int.negSucc m).repr = "-" ++ (m + 1).repr from rfl, Nat.repr_eq_ofList_toDigits,
        String.toList_append, String.toList_ofList, String.toList_ofList]
      rfl
    refine parse?_of_literal chars (.inr rfl) front ?_
    have small : m + 1 ≤ Nat.pow 2 63 := by
      rw [Int.negSucc_eq] at lower
      omega
    have fits : ofDigits ds < Nat.pow 2 64 := value.symm ▸ small.trans_lt (by decide)
    -- the digits may fit 64 bits where the negative number does not
    have within : (decide (0 < m + 1) && decide (m + 1 ≤ Nat.pow 2 63)) = true := by simp [small]
    rw [value?_whole fits, value, if_neg (by decide), if_pos within]
    rfl

end DesignTokens.Json.Raw
