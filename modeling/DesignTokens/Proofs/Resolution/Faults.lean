import DesignTokens.Proofs.Resolution.Graph
import Mathlib.Data.List.Cycle
import Mathlib.Logic.Relator

/-!
# Why a token has no value

The first reference of a token that leads to no fitting value is to blame. Following it from token to
token there is one way only: it ends at a reference to a missing token or to one of another type, or
it runs into a cycle.

* `Fine`, `FirstFault`: a reference that stands for a value, and the first one that does not;
* `Blames`: the first fault of a token leads to another token without a value; **`blames_unique`**:
  to one only;
* `Fails`: the error of a token, read off the end of that way; `Fails.unsound`: there is no other
  reason;
* `SameError`: equal errors, where the chain of a cycle may begin anywhere on it;
* **`Fails.same`**: a token has one error.
-/

namespace DesignTokens

open Relation

/-! ## Cycles of a function -/

section Functional

variable {α : Type u} {r : α → α → Prop} {C D : Cycle α} {a b : α}

theorem exists_cons_of_mem (h : a ∈ C) : ∃ l : List α, C = (a :: l : List α) := by
  induction C using Quotient.inductionOn with
  | h l =>
    obtain ⟨s, t, rfl⟩ := List.append_of_mem (Cycle.mem_coe_iff.1 h)
    exact ⟨t ++ s, Cycle.coe_eq_coe.2 List.isRotated_append⟩

theorem exists_next (h : C.Chain r) (ha : a ∈ C) : ∃ b ∈ C, r a b := by
  obtain ⟨l, rfl⟩ := exists_cons_of_mem ha
  rw [Cycle.chain_coe_cons] at h
  cases l with
  | nil => exact ⟨a, ha, by simpa using h⟩
  | cons b rest => exact ⟨b, by simp, (List.isChain_cons_cons.1 h).1⟩

variable (unique : Relator.RightUnique r)

include unique

theorem mem_of_reflTransGen (h : C.Chain r) (ha : a ∈ C) (ab : ReflTransGen r a b) : b ∈ C := by
  induction ab with
  | refl => exact ha
  | tail _ bc ih =>
    obtain ⟨d, hd, bd⟩ := exists_next h ih
    rwa [unique bc bd]

theorem eq_of_isChain : ∀ {l l' : List α} {a : α}, List.IsChain r (a :: (l ++ [b])) →
    List.IsChain r (a :: (l' ++ [b])) → b ∉ l → b ∉ l' → l = l'
  | [], [], _, _, _, _, _ => rfl
  | [], c :: _, _, h, h', _, hb => by
    obtain rfl : b = c := unique (by simpa using h) (List.isChain_cons_cons.1 h').1
    exact absurd List.mem_cons_self hb
  | c :: _, [], _, h, h', hb, _ => by
    obtain rfl : b = c := unique (by simpa using h') (List.isChain_cons_cons.1 h).1
    exact absurd List.mem_cons_self hb
  | c :: rest, c' :: rest', _, h, h', hb, hb' => by
    obtain rfl : c = c' := unique (List.isChain_cons_cons.1 h).1 (List.isChain_cons_cons.1 h').1
    rw [eq_of_isChain (List.isChain_cons_cons.1 h).2 (List.isChain_cons_cons.1 h').2
      (fun hc => hb (List.mem_cons_of_mem _ hc)) fun hc => hb' (List.mem_cons_of_mem _ hc)]

/-- **Two cycles with a common element are the same.** -/
theorem cycle_unique (hC : C.Chain r) (hD : D.Chain r) (nodupC : C.Nodup) (nodupD : D.Nodup)
    (ha : a ∈ C) (ha' : a ∈ D) : C = D := by
  obtain ⟨l, rfl⟩ := exists_cons_of_mem ha
  obtain ⟨l', rfl⟩ := exists_cons_of_mem ha'
  rw [Cycle.nodup_coe_iff, List.nodup_cons] at nodupC nodupD
  rw [Cycle.chain_coe_cons] at hC hD
  rw [eq_of_isChain unique hC hD nodupC.1 nodupD.1]

end Functional

/-! ## The first fault -/

section Faults

variable (all : Contexts Flat) (view : Context)

/-- A reference in `t` leads to a token with a value of a fitting type. -/
def Fine (t : FlatToken) (o : Use) : Prop :=
  ∃ u R, lookup? all view o.reference.path = some u ∧ Denotes all view u R ∧
    Compatible (expectedType? t o.property) R.type

/-- The first reference of a token that is not fine. -/
def FirstFault (t : FlatToken) (o : Use) : Prop :=
  ∃ before after, t.uses = before ++ o :: after ∧ (∀ w ∈ before, Fine all view t w) ∧
    ¬ Fine all view t o

/-- The first fault of `t` is a reference to `u`, which has no value itself. -/
def Blames (t u : FlatToken) : Prop :=
  ∃ o, FirstFault all view t o ∧ lookup? all view o.reference.path = some u ∧
    ∀ R, ¬ Denotes all view u R

/-- The error of a token: what is at the end of the way along first faults. -/
inductive Fails (t : FlatToken) : ResolutionError → Prop
  | missing {w : FlatToken} {o : Use} (leads : ReflTransGen (Blames all view) t w)
    (first : FirstFault all view w o) (absent : lookup? all view o.reference.path = none) :
    Fails t (.missing t.path o.reference.path o.property t.origin)
  | mismatch {w u : FlatToken} {o : Use} {R : Resolved} {expected found : TokenType}
    (leads : ReflTransGen (Blames all view) t w) (first : FirstFault all view w o)
    (seen : lookup? all view o.reference.path = some u) (denotes : Denotes all view u R)
    (expects : expectedType? w o.property = some expected) (finds : R.type = some found) :
    Fails t (.typeMismatch t.path o.reference.path o.property expected found t.origin)
  | circular {u : FlatToken} {rest : List FlatToken} (leads : ReflTransGen (Blames all view) t u)
    (chain : Cycle.Chain (Blames all view) (u :: rest : List FlatToken))
    (nodup : (u :: rest).Nodup) :
    Fails t (.circular t.path ((u :: rest).map FlatToken.path ++ [u.path]) t.origin)

/-- Equal errors, where the chain of a cycle may begin anywhere on it. -/
inductive SameError : ResolutionError → ResolutionError → Prop
  | refl (e : ResolutionError) : SameError e e
  | circular {path first first' : String} {rest rest' : List String} {origin : Origin}
    (rotated : (first :: rest).IsRotated (first' :: rest')) :
    SameError (.circular path (first :: rest ++ [first]) origin)
      (.circular path (first' :: rest' ++ [first']) origin)

variable {all view} {t u w : FlatToken} {e e' : ResolutionError}

theorem Denotes.fine {R : Resolved} (h : Denotes all view t R) {o : Use} (ho : o ∈ t.uses) :
    Fine all view t o := by
  cases h with
  | intro target found seen denotes compatible =>
    exact ⟨_, _, seen o ho, denotes o ho, compatible o ho⟩

theorem FirstFault.mem_uses {o : Use} (h : FirstFault all view t o) : o ∈ t.uses := by
  obtain ⟨before, after, uses, -, -⟩ := h
  simp [uses]

theorem FirstFault.unique {o o' : Use} (h : FirstFault all view t o) (h' : FirstFault all view t o') :
    o = o' := by
  obtain ⟨before, after, uses, fine, fault⟩ := h
  obtain ⟨before', after', uses', fine', fault'⟩ := h'
  -- where the uses part, one of the two faults stands among the fine ones of the other
  rcases List.append_eq_append_iff.1 (uses.symm.trans uses') with ⟨l, rfl, h⟩ | ⟨l, rfl, h⟩
  · cases l with
    | nil =>
      obtain ⟨rfl, -⟩ := List.cons.inj h
      rfl
    | cons x l =>
      obtain ⟨rfl, -⟩ := List.cons.inj h
      exact absurd (fine' _ (by simp)) fault
  · cases l with
    | nil =>
      obtain ⟨rfl, -⟩ := List.cons.inj h
      rfl
    | cons x l =>
      obtain ⟨rfl, -⟩ := List.cons.inj h
      exact absurd (fine _ (by simp)) fault'

theorem Blames.refers (h : Blames all view t u) : Refers all view t u := by
  obtain ⟨o, first, seen, -⟩ := h
  exact ⟨o, first.mem_uses, seen⟩

/-- **The first fault leads to one token.** -/
theorem blames_unique : Relator.RightUnique (Blames all view) := by
  rintro t u w ⟨o, first, seen, -⟩ ⟨o', first', seen', -⟩
  obtain rfl := first.unique first'
  exact Option.some.inj (seen.symm.trans seen')

theorem eq_of_leads {w' : FlatToken} (leads : ReflTransGen (Blames all view) t w)
    (leads' : ReflTransGen (Blames all view) t w') (ends : ∀ u, ¬ Blames all view w u)
    (ends' : ∀ u, ¬ Blames all view w' u) : w = w' := by
  have stays : ∀ {x y}, (∀ u, ¬ Blames all view x u) → ReflTransGen (Blames all view) x y → x = y := by
    intro x y ends h
    rcases h.cases_head with rfl | ⟨z, hz, -⟩
    · rfl
    · exact absurd hz (ends z)
  rcases ReflTransGen.total_of_right_unique blames_unique leads leads' with h | h
  · exact stays ends h
  · exact (stays ends' h).symm

theorem FirstFault.ends_of_absent {o : Use} (first : FirstFault all view w o)
    (absent : lookup? all view o.reference.path = none) (u : FlatToken) : ¬ Blames all view w u := by
  rintro ⟨o', first', seen, -⟩
  obtain rfl := first.unique first'
  simp [absent] at seen

theorem FirstFault.ends_of_denotes {o : Use} (first : FirstFault all view w o)
    (seen : lookup? all view o.reference.path = some u) {R : Resolved} (denotes : Denotes all view u R)
    (v : FlatToken) : ¬ Blames all view w v := by
  rintro ⟨o', first', seen', noValue⟩
  obtain rfl := first.unique first'
  obtain rfl := Option.some.inj (seen.symm.trans seen')
  exact noValue R denotes

/-! ## Errors -/

theorem Fails.path (h : Fails all view t e) : e.path = t.path := by cases h <;> rfl

theorem Fails.origin (h : Fails all view t e) : e.origin = t.origin := by cases h <;> rfl

theorem Fails.forToken (blames : Blames all view t u) (h : Fails all view u e) :
    Fails all view t (e.forToken t) := by
  cases h with
  | missing leads first absent => exact .missing (.head blames leads) first absent
  | mismatch leads first seen denotes expects finds =>
    exact .mismatch (.head blames leads) first seen denotes expects finds
  | circular leads chain nodup => exact .circular (.head blames leads) chain nodup

theorem not_sound_of_chain {C : Cycle FlatToken} (chain : C.Chain (Refers all view)) (ht : t ∈ C) :
    ¬ Sound all view t := by
  have cycle : C.Chain (TransGen (Refers all view)) := chain.imp fun _ _ => TransGen.single
  exact fun sound => sound.acyclic t .refl (Cycle.chain_iff_pairwise.1 cycle t ht t ht)

/-- **A token with an error is not sound.** -/
theorem Fails.unsound (h : Fails all view t e) : ¬ Sound all view t := by
  intro sound
  have reaches : ∀ {w}, ReflTransGen (Blames all view) t w → Sound all view w := fun leads =>
    sound.of_reaches (ReflTransGen.mono (fun _ _ => Blames.refers) _ _ leads)
  cases h with
  | @missing w o leads first absent =>
    have present := (reaches leads).present w .refl o first.mem_uses
    simp [absent] at present
  | @mismatch w u o R expected found leads first seen denotes expects finds =>
    obtain ⟨before, after, uses, fine, fault⟩ := first
    have compatible := (reaches leads).compatible w .refl o (by simp [uses]) u seen R.type
      denotes.hasType
    exact fault ⟨u, R, seen, denotes, compatible⟩
  | @circular u rest leads chain nodup =>
    exact not_sound_of_chain (chain.imp fun _ _ => Blames.refers) List.mem_cons_self (reaches leads)

theorem not_chain_of_ends {C : Cycle FlatToken} (leads : ReflTransGen (Blames all view) t w)
    (ends : ∀ v, ¬ Blames all view w v) (leads' : ReflTransGen (Blames all view) t u) (hu : u ∈ C) :
    ¬ C.Chain (Blames all view) := by
  intro chain
  have hw : w ∈ C := by
    rcases ReflTransGen.total_of_right_unique blames_unique leads leads' with h | h
    · rcases h.cases_head with rfl | ⟨v, hv, -⟩
      · exact hu
      · exact absurd hv (ends v)
    · exact mem_of_reflTransGen blames_unique chain hu h
  obtain ⟨v, -, hv⟩ := exists_next chain hw
  exact ends v hv

theorem isRotated_of_leads {u u' : FlatToken} {rest rest' : List FlatToken}
    (leads : ReflTransGen (Blames all view) t u)
    (chain : Cycle.Chain (Blames all view) (u :: rest : List FlatToken)) (nodup : (u :: rest).Nodup)
    (leads' : ReflTransGen (Blames all view) t u')
    (chain' : Cycle.Chain (Blames all view) (u' :: rest' : List FlatToken))
    (nodup' : (u' :: rest').Nodup) : (u :: rest).IsRotated (u' :: rest') := by
  rw [← Cycle.coe_eq_coe]
  rcases ReflTransGen.total_of_right_unique blames_unique leads leads' with h | h
  · have common := mem_of_reflTransGen blames_unique chain (by simp) h
    exact cycle_unique blames_unique chain chain' nodup nodup' common (by simp)
  · have common := mem_of_reflTransGen blames_unique chain' (by simp) h
    exact cycle_unique blames_unique chain chain' nodup nodup' (by simp) common

/-- **A token has one error**, up to where the chain of a cycle begins. -/
theorem Fails.same (h : Fails all view t e) (h' : Fails all view t e') : SameError e e' := by
  cases h with
  | missing leads first absent =>
    have ends := first.ends_of_absent absent
    cases h' with
    | missing leads' first' absent' =>
      obtain rfl := eq_of_leads leads leads' ends (first'.ends_of_absent absent')
      obtain rfl := first.unique first'
      exact .refl _
    | mismatch leads' first' seen' denotes' =>
      obtain rfl := eq_of_leads leads leads' ends (first'.ends_of_denotes seen' denotes')
      obtain rfl := first.unique first'
      simp [absent] at seen'
    | circular leads' chain' => exact absurd chain' (not_chain_of_ends leads ends leads' (by simp))
  | mismatch leads first seen denotes expects finds =>
    have ends := first.ends_of_denotes seen denotes
    cases h' with
    | missing leads' first' absent' =>
      obtain rfl := eq_of_leads leads leads' ends (first'.ends_of_absent absent')
      obtain rfl := first.unique first'
      simp [absent'] at seen
    | mismatch leads' first' seen' denotes' expects' finds' =>
      obtain rfl := eq_of_leads leads leads' ends (first'.ends_of_denotes seen' denotes')
      obtain rfl := first.unique first'
      obtain rfl := Option.some.inj (seen.symm.trans seen')
      obtain rfl := denotes.unique denotes'
      obtain rfl := Option.some.inj (expects.symm.trans expects')
      obtain rfl := Option.some.inj (finds.symm.trans finds')
      exact .refl _
    | circular leads' chain' => exact absurd chain' (not_chain_of_ends leads ends leads' (by simp))
  | circular leads chain nodup =>
    cases h' with
    | missing leads' first' absent' =>
      exact absurd chain (not_chain_of_ends leads' (first'.ends_of_absent absent') leads (by simp))
    | mismatch leads' first' seen' denotes' =>
      have ends' := first'.ends_of_denotes seen' denotes'
      exact absurd chain (not_chain_of_ends leads' ends' leads (by simp))
    | circular leads' chain' nodup' =>
      exact .circular ((isRotated_of_leads leads chain nodup leads' chain' nodup').map FlatToken.path)

end Faults

end DesignTokens
