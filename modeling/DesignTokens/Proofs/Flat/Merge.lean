import DesignTokens.Proofs.Flat.Place
import Mathlib.Data.List.Induction

/-!
# Merging entries

Entries are merged one by one, and a contradiction is noted when it first shows. What is known after
some entries is nevertheless a function of the entries at each path, whatever their order.

* `tokensOf`, `groupAmong`: the tokens at a path among entries, and whether a group is there;
* `Agree`, `Clash`: the types of tokens agree; tokens that contradict a group or each other;
* `commonType?`, `mergedToken?`: the last of some tokens with the type that they give;
* `Merged`: what is known after some entries;
* **`Merged.add`**: one entry more; **`merged_foldl`**: any list of entries.
-/

namespace DesignTokens

/-! ## Entries at a path -/

/-- The token of an entry at a path. -/
def Entry.tokenAt? (path : String) : Entry → Option FlatToken
  | .token t => if t.path = path then some t else none
  | .group .. => none

/-- Whether the entry is a group at the path. -/
def Entry.isGroupAt (path : String) : Entry → Bool
  | .group path' .. => path' = path
  | .token _ => false

/-- The path of an entry that is a token. -/
def Entry.tokenPath? : Entry → Option String
  | .token t => some t.path
  | .group .. => none

/-- The tokens at a path, in order. -/
def tokensOf (es : List Entry) (path : String) : List FlatToken := es.filterMap (·.tokenAt? path)

/-- Whether a group is at a path. -/
def groupAmong (es : List Entry) (path : String) : Bool := es.any (·.isGroupAt path)

/-- No two of the tokens have different types. -/
def Agree (ts : List FlatToken) : Prop :=
  ∀ a ∈ ts, ∀ b ∈ ts, ∀ x ∈ a.type, ∀ y ∈ b.type, x = y

instance (ts : List FlatToken) : Decidable (Agree ts) :=
  inferInstanceAs (Decidable (∀ a ∈ ts, ∀ b ∈ ts, ∀ x ∈ a.type, ∀ y ∈ b.type, x = y))

/-- The tokens at a path contradict a group there or each other. -/
def Clash (es : List Entry) (path : String) : Prop :=
  tokensOf es path ≠ [] ∧ (groupAmong es path = true ∨ ¬ Agree (tokensOf es path))

/-- The first type that tokens give. -/
def commonType? (ts : List FlatToken) : Option TokenType := ts.findSome? (·.type)

/-- The last token with the type that the tokens give. -/
def mergedToken? (ts : List FlatToken) : Option FlatToken :=
  ts.getLast?.map fun t => { t with type := commonType? ts }

theorem mergedToken?_eq_none_iff {ts : List FlatToken} : mergedToken? ts = none ↔ ts = [] := by
  simp [mergedToken?]

theorem commonType?_append (ts : List FlatToken) (x : FlatToken) :
    commonType? (ts ++ [x]) = (commonType? ts).or x.type := by
  simp [commonType?, List.findSome?_append]

theorem mergedToken?_append (ts : List FlatToken) (x : FlatToken) :
    mergedToken? (ts ++ [x]) = some { x with type := (commonType? ts).or x.type } := by
  simp [mergedToken?, commonType?_append]

theorem commonType?_eq_none_iff {ts : List FlatToken} :
    commonType? ts = none ↔ ∀ t ∈ ts, t.type = none := by
  simp [commonType?]

theorem Agree.commonType?_eq {ts : List FlatToken} (h : Agree ts) {t : FlatToken} (ht : t ∈ ts)
    {type : TokenType} (htype : t.type = some type) : commonType? ts = some type := by
  cases hc : commonType? ts with
  | none => rw [commonType?_eq_none_iff.1 hc t ht] at htype; cases htype
  | some first =>
    obtain ⟨u, hu, hut⟩ := List.exists_of_findSome?_eq_some hc
    rw [h u hu t ht first hut type htype]

theorem agree_append {ts : List FlatToken} (h : Agree ts) (x : FlatToken) :
    Agree (ts ++ [x]) ↔ ∀ a ∈ commonType? ts, ∀ b ∈ x.type, a = b := by
  constructor
  · intro agree a ha b hb
    obtain ⟨u, hu, hut⟩ := List.exists_of_findSome?_eq_some ha
    exact agree u (by simp [hu]) x (by simp) a hut b hb
  · intro same a ha b hb y hy z hz
    rcases List.mem_append.1 ha with ha | ha <;> rcases List.mem_append.1 hb with hb | hb
    · exact h a ha b hb y hy z hz
    · rw [List.mem_singleton.1 hb] at hz
      exact same y (h.commonType?_eq ha hy) z hz
    · rw [List.mem_singleton.1 ha] at hy
      exact (same z (h.commonType?_eq hb hz) y hy).symm
    · rw [List.mem_singleton.1 ha] at hy
      rw [List.mem_singleton.1 hb] at hz
      exact Option.some.inj (hy.symm.trans hz)

/-! ## One entry more -/

theorem mem_tokensOf {es : List Entry} {path : String} {t : FlatToken} :
    t ∈ tokensOf es path ↔ .token t ∈ es ∧ t.path = path := by
  simp only [tokensOf, List.mem_filterMap]
  constructor
  · rintro ⟨e, he, hte⟩
    cases e with
    | group _ _ _ _ => cases hte
    | token u =>
      simp only [Entry.tokenAt?] at hte
      split at hte
      · cases hte
        exact ⟨he, ‹_›⟩
      · cases hte
  · rintro ⟨he, rfl⟩
    exact ⟨_, he, by simp [Entry.tokenAt?]⟩

theorem tokensOf_append (es : List Entry) (e : Entry) (path : String) :
    tokensOf (es ++ [e]) path = tokensOf es path ++ (e.tokenAt? path).toList := by
  cases h : e.tokenAt? path <;> simp [tokensOf, h]

theorem groupAmong_append (es : List Entry) (e : Entry) (path : String) :
    groupAmong (es ++ [e]) path = (groupAmong es path || e.isGroupAt path) := by
  simp [groupAmong]

theorem Entry.tokenAt?_of_ne {e : Entry} {path : String} (h : path ≠ e.path) :
    e.tokenAt? path = none := by
  cases e with
  | group _ _ _ _ => rfl
  | token t => simp [Entry.tokenAt?, show t.path ≠ path from Ne.symm h]

theorem Entry.isGroupAt_of_ne {e : Entry} {path : String} (h : path ≠ e.path) :
    e.isGroupAt path = false := by
  cases e with
  | group path' _ _ _ => simp [Entry.isGroupAt, show path' ≠ path from Ne.symm h]
  | token _ => rfl

theorem clash_append_of_ne {es : List Entry} {e : Entry} {path : String} (h : path ≠ e.path) :
    Clash (es ++ [e]) path ↔ Clash es path := by
  simp [Clash, tokensOf_append, groupAmong_append, Entry.tokenAt?_of_ne h, Entry.isGroupAt_of_ne h]

theorem Clash.append {es : List Entry} {path : String} (h : Clash es path) (e : Entry) :
    Clash (es ++ [e]) path := by
  refine ⟨by simp [tokensOf_append, h.1], ?_⟩
  rcases h.2 with group | disagree
  · exact .inl (by simp [groupAmong_append, group])
  · refine .inr fun agree => disagree ?_
    rw [tokensOf_append] at agree
    exact fun a ha b hb => agree a (by simp [ha]) b (by simp [hb])

theorem Flat.conflicted_eq_true_iff {f : Flat} {path : String} :
    f.conflicted path = true ↔ path ∈ f.errors.map MergeError.path := by
  simp [Flat.conflicted]

/-! ## What is known after some entries -/

/-- What is known after some entries: the paths with groups, the contradictions, each noted once, and
at every other path the merged token; these are in the order in which their paths first came. -/
structure Merged (es : List Entry) (f : Flat) : Prop where
  groups : ∀ path, (f.groups.get? path).isSome = groupAmong es path
  clash : ∀ path, f.conflicted path = true ↔ Clash es path
  token : ∀ path, ¬ Clash es path → f.tokens.get? path = mergedToken? (tokensOf es path)
  once : (f.errors.map MergeError.path).Nodup
  order : f.tokens.keys.filter (!f.conflicted ·) =
    (es.filterMap Entry.tokenPath?).eraseDups.filter (!f.conflicted ·)

theorem merged_nil : Merged [] .empty where
  groups _ := rfl
  clash _ := by simp [Clash, tokensOf, Flat.empty, Flat.conflicted]
  token _ _ := rfl
  once := List.nodup_nil
  order := rfl

theorem Merged.not_clash {es : List Entry} {f : Flat} (h : Merged es f) {path : String}
    (fresh : f.conflicted path = false) : ¬ Clash es path := fun clash => by
  rw [(h.clash path).2 clash] at fresh
  cases fresh

theorem filter_eq_filter_mono {ks ls : List String} {p q : String → Bool}
    (h : ks.filter p = ls.filter p) (hq : ∀ k, q k = true → p k = true) :
    ks.filter q = ls.filter q := by
  have both : ∀ l : List String, l.filter q = (l.filter p).filter q := fun l => by
    rw [List.filter_filter]
    refine List.filter_congr fun k _ => ?_
    cases hk : q k
    · simp
    · simp [hq k hk]
  rw [both ks, both ls, h]

theorem eraseDups_append_singleton (l : List String) (path : String) :
    (l ++ [path]).eraseDups = l.eraseDups ++ if path ∈ l then [] else [path] := by
  rw [List.eraseDups_append]
  by_cases h : path ∈ l <;> simp [List.removeAll, h, List.eraseDups_cons]

theorem filter_tokenPaths_append (es : List Entry) (e : Entry) {p : String → Bool}
    (h : e.tokenPath? = none ∨ p e.path = false) :
    ((es ++ [e]).filterMap Entry.tokenPath?).eraseDups.filter p =
      (es.filterMap Entry.tokenPath?).eraseDups.filter p := by
  cases e with
  | group path info file first =>
    rw [List.filterMap_append,
      show [Entry.group path info file first].filterMap Entry.tokenPath? = [] from rfl, List.append_nil]
  | token t =>
    have hp : p t.path = false := h.resolve_left (by simp [Entry.tokenPath?])
    rw [List.filterMap_append, show [Entry.token t].filterMap Entry.tokenPath? = [t.path] from rfl,
      eraseDups_append_singleton, List.filter_append]
    split <;> simp [hp]

section Step

variable {es : List Entry} {f f' : Flat} (h : Merged es f) (e : Entry)
  (groups : ∀ path, (f'.groups.get? path).isSome = groupAmong (es ++ [e]) path)

include h groups

theorem Merged.same (tokens : f'.tokens = f.tokens) (errors : f'.errors = f.errors)
    (quiet : e.tokenPath? = none ∨ f.conflicted e.path = true)
    (here : Clash (es ++ [e]) e.path → Clash es e.path)
    (token : ¬ Clash es e.path → tokensOf (es ++ [e]) e.path = tokensOf es e.path) :
    Merged (es ++ [e]) f' := by
  have conflicted : ∀ path, f'.conflicted path = f.conflicted path := fun path => by
    rw [Flat.conflicted, errors, ← Flat.conflicted]
  have clash : ∀ path, Clash (es ++ [e]) path ↔ Clash es path := fun path => by
    by_cases hp : path = e.path
    · subst hp
      exact ⟨here, fun c => c.append e⟩
    · exact clash_append_of_ne hp
  refine ⟨groups, fun path => ?_, fun path hc => ?_, errors ▸ h.once, ?_⟩
  · rw [conflicted, h.clash, clash]
  · rw [clash] at hc
    rw [tokens, h.token path hc]
    by_cases hp : path = e.path
    · subst hp
      rw [token hc]
    · rw [tokensOf_append, Entry.tokenAt?_of_ne hp]
      simp
  · have quiet' : e.tokenPath? = none ∨ (!f'.conflicted e.path) = false := by
      rw [conflicted]
      exact quiet.imp_right (by simp)
    rw [filter_tokenPaths_append es e quiet', tokens]
    simpa only [conflicted] using h.order

theorem Merged.conflict (err : MergeError) (path : err.path = e.path)
    (fresh : f.conflicted e.path = false) (tokens : f'.tokens = f.tokens)
    (errors : f'.errors = f.errors ++ [err]) (here : Clash (es ++ [e]) e.path) :
    Merged (es ++ [e]) f' := by
  have conflicted : ∀ p, f'.conflicted p = (f.conflicted p || p = e.path) := fun p => by
    simp [Flat.conflicted, errors, path, eq_comm]
  refine ⟨groups, fun p => ?_, fun p hc => ?_, ?_, ?_⟩
  · rw [conflicted]
    by_cases hp : p = e.path
    · simp [hp, here]
    · simp [hp, h.clash, clash_append_of_ne hp]
  · have hp : p ≠ e.path := by
      rintro rfl
      exact hc here
    rw [clash_append_of_ne hp] at hc
    rw [tokens, h.token p hc, tokensOf_append, Entry.tokenAt?_of_ne hp]
    simp
  · have hn : e.path ∉ f.errors.map MergeError.path := fun hm => by
      rw [Flat.conflicted_eq_true_iff.2 hm] at fresh
      cases fresh
    rw [errors, List.map_append, List.map_singleton, path, List.nodup_append]
    exact ⟨h.once, by simp, fun x hx y hy hxy => hn (List.mem_singleton.1 hy ▸ hxy ▸ hx)⟩
  · rw [filter_tokenPaths_append es e (.inr (by simp [conflicted])), tokens]
    exact filter_eq_filter_mono h.order fun k hk => by simp_all

end Step

theorem Merged.insert {es : List Entry} {f f' : Flat} (h : Merged es f) {t u : FlatToken}
    (groups : f'.groups = f.groups) (fresh : f.conflicted t.path = false)
    (tokens : f'.tokens = f.tokens.insert t.path u) (errors : f'.errors = f.errors)
    (value : mergedToken? (tokensOf es t.path ++ [t]) = some u)
    (here : ¬ Clash (es ++ [.token t]) t.path) : Merged (es ++ [.token t]) f' := by
  have conflicted : ∀ path, f'.conflicted path = f.conflicted path := fun path => by
    rw [Flat.conflicted, errors, ← Flat.conflicted]
  have clash : ∀ path, Clash (es ++ [.token t]) path ↔ Clash es path := fun path => by
    by_cases hp : path = t.path
    · subst hp
      exact ⟨fun c => absurd c here, fun c => absurd c (h.not_clash fresh)⟩
    · exact clash_append_of_ne hp
  refine ⟨fun path => ?_, fun path => ?_, fun path hc => ?_, errors ▸ h.once, ?_⟩
  · rw [groups, h.groups, groupAmong_append]
    simp [Entry.isGroupAt]
  · rw [conflicted, h.clash, clash]
  · by_cases hp : path = t.path
    · subst hp
      rw [tokens, Table.get?_insert_self, tokensOf_append]
      simp [Entry.tokenAt?, value]
    · have hp' : path ≠ (Entry.token t).path := hp
      rw [tokens, Table.get?_insert_of_ne hp, h.token path ((not_congr (clash path)).1 hc), tokensOf_append,
        Entry.tokenAt?_of_ne hp']
      simp
  · -- the path is new among the keys exactly if it is new among the token paths
    have mem : t.path ∈ f.tokens.keys ↔ t.path ∈ es.filterMap Entry.tokenPath? := by
      have : t.path ∈ f.tokens.keys.filter (!f.conflicted ·) ↔
          t.path ∈ (es.filterMap Entry.tokenPath?).eraseDups.filter (!f.conflicted ·) := by
        rw [h.order]
      simpa [fresh] using this
    simp only [conflicted]
    rw [List.filterMap_append, show [Entry.token t].filterMap Entry.tokenPath? = [t.path] from rfl,
      eraseDups_append_singleton, List.filter_append, ← h.order, tokens, Table.keys_insert]
    by_cases hk : t.path ∈ f.tokens.keys
    · simp [hk, mem.1 hk]
    · simp [hk, mt mem.2 hk]

/-! ## Groups and tokens -/

theorem Flat.groups_addGroup (f : Flat) (path : String) (info : GroupInfo) (file first : Path) :
    (f.addGroup path info file first).groups = f.groups.alter path (Flat.metaOf info file) := by
  unfold Flat.addGroup Flat.conflict
  split
  · split <;> rfl
  · rfl

theorem Merged.addGroup {es : List Entry} {f : Flat} (h : Merged es f) (path : String)
    (info : GroupInfo) (file first : Path) :
    Merged (es ++ [.group path info file first]) (f.addGroup path info file first) := by
  have groups : ∀ p, ((f.addGroup path info file first).groups.get? p).isSome =
      groupAmong (es ++ [.group path info file first]) p := fun p => by
    rw [Flat.groups_addGroup, groupAmong_append, ← h.groups]
    by_cases hp : p = path
    · subst hp
      simp [Table.get?_alter_self, Entry.isGroupAt]
    · simp [Table.get?_alter_of_ne hp, Entry.isGroupAt, Ne.symm hp]
  have tokens : ∀ p, tokensOf (es ++ [.group path info file first]) p = tokensOf es p := fun p => by
    simp [tokensOf_append, Entry.tokenAt?]
  cases hc : f.conflicted path with
  | true =>
    have same : f.addGroup path info file first =
        { f with groups := f.groups.alter path (Flat.metaOf info file) } := by
      unfold Flat.addGroup
      cases f.tokens.get? path <;> simp [hc]
    exact h.same _ groups (by rw [same]) (by rw [same]) (.inr hc) (fun _ => (h.clash path).1 hc)
      fun _ => tokens path
  | false =>
    have value := h.token path (h.not_clash hc)
    cases ht : f.tokens.get? path with
    | none =>
      -- no token is at the path, so the group contradicts nothing
      have none : tokensOf es path = [] := mergedToken?_eq_none_iff.1 (value ▸ ht)
      have same : f.addGroup path info file first =
          { f with groups := f.groups.alter path (Flat.metaOf info file) } := by
        simp [Flat.addGroup, ht]
      exact h.same _ groups (by rw [same]) (by rw [same]) (.inl rfl)
        (fun c => absurd ((tokens path).trans none) c.1) fun _ => tokens path
    | some t =>
      have some : tokensOf es path ≠ [] := fun hn => by
        rw [mergedToken?_eq_none_iff.2 hn, ht] at value
        cases value
      have new : f.addGroup path info file first =
          { f.conflict (.tokenAndGroup path t.origin.file first) with
            groups := f.groups.alter path (Flat.metaOf info file) } := by
        simp [Flat.addGroup, ht, hc, Flat.conflict]
      refine h.conflict _ groups (.tokenAndGroup path t.origin.file first) rfl hc (by rw [new]; rfl)
        (by rw [new]; rfl) ⟨?_, .inl ?_⟩
      · exact (tokens path).symm ▸ some
      · simp [groupAmong_append, Entry.isGroupAt, Entry.path]

section Token

variable {es : List Entry} {f : Flat} (h : Merged es f) {t : FlatToken}

include h

theorem Merged.groups_token (p : String) :
    (f.groups.get? p).isSome = groupAmong (es ++ [.token t]) p := by
  simp [groupAmong_append, Entry.isGroupAt, h.groups]

omit h in
theorem tokensOf_append_token :
    tokensOf (es ++ [.token t]) t.path = tokensOf es t.path ++ [t] := by
  simp [tokensOf_append, Entry.tokenAt?]

theorem Merged.keep (hc : f.conflicted t.path = false) (noGroup : f.groups.get? t.path = none)
    (agree : Agree (tokensOf es t.path))
    (same : ∀ a ∈ commonType? (tokensOf es t.path), ∀ b ∈ t.type, a = b) (u : FlatToken)
    (hu : u = { t with type := (commonType? (tokensOf es t.path)).or t.type })
    (hf : f.addToken t = { f with tokens := f.tokens.insert t.path u }) :
    Merged (es ++ [.token t]) (f.addToken t) := by
  rw [hf]
  refine h.insert rfl hc rfl rfl (by rw [mergedToken?_append, hu]) fun clash => ?_
  rcases clash.2 with group | disagree
  · rw [← h.groups_token, noGroup] at group
    cases group
  · rw [tokensOf_append_token] at disagree
    exact disagree ((agree_append agree t).2 same)

theorem Merged.addToken_of_agree (hc : f.conflicted t.path = false)
    (noGroup : f.groups.get? t.path = none) (agree : Agree (tokensOf es t.path)) :
    Merged (es ++ [.token t]) (f.addToken t) := by
  have value := h.token t.path (h.not_clash hc)
  cases hf : f.tokens.get? t.path with
  | none =>
    have none : tokensOf es t.path = [] := mergedToken?_eq_none_iff.1 (value ▸ hf)
    exact h.keep hc noGroup agree (by simp [none, commonType?]) t (by simp [none, commonType?])
      (by simp [Flat.addToken, hc, noGroup, hf])
  | some former =>
    have type : former.type = commonType? (tokensOf es t.path) := by
      rw [hf] at value
      obtain ⟨last, -, rfl⟩ := Option.map_eq_some_iff.1 value.symm
      rfl
    cases ha : commonType? (tokensOf es t.path) with
    | none =>
      rw [ha] at type
      exact h.keep hc noGroup agree (by simp [ha]) t (by simp [ha])
        (by simp [Flat.addToken, hc, noGroup, hf, type])
    | some a =>
      rw [ha] at type
      cases hb : t.type with
      | none =>
        exact h.keep hc noGroup agree (by simp [hb]) { t with type := some a } (by simp [ha])
          (by simp [Flat.addToken, hc, noGroup, hf, type, hb])
      | some b =>
        by_cases hab : a = b
        · subst hab
          exact h.keep hc noGroup agree (by simp [ha, hb]) t (by simp [ha, ← hb])
            (by simp [Flat.addToken, hc, noGroup, hf, type, hb])
        · have new : f.addToken t = f.conflict
              (.types t.path a b former.origin.file t.origin.file) := by
            simp [Flat.addToken, hc, noGroup, hf, type, hb, hab]
          rw [new]
          refine h.conflict _ h.groups_token (.types t.path a b former.origin.file t.origin.file) rfl
            hc rfl rfl ⟨?_, .inr ?_⟩
          · simp [Entry.path, tokensOf_append_token]
          · show ¬ Agree (tokensOf (es ++ [.token t]) t.path)
            rw [tokensOf_append_token, agree_append agree]
            exact fun same => hab (same a ha b hb)

theorem Merged.addToken (t : FlatToken) : Merged (es ++ [.token t]) (f.addToken t) := by
  cases hc : f.conflicted t.path with
  | true =>
    have same : f.addToken t = f := by simp [Flat.addToken, hc]
    rw [same]
    exact h.same _ h.groups_token rfl rfl (.inr hc) (fun _ => (h.clash t.path).1 hc)
      fun clean => absurd ((h.clash t.path).1 hc) clean
  | false =>
    have clean := h.not_clash hc
    cases hg : f.groups.get? t.path with
    | some g =>
      have new : f.addToken t = f.conflict (.tokenAndGroup t.path t.origin.file g.file) := by
        simp [Flat.addToken, hc, hg]
      rw [new]
      refine h.conflict _ h.groups_token (.tokenAndGroup t.path t.origin.file g.file) rfl hc rfl rfl
        ⟨?_, .inl ?_⟩
      · simp [Entry.path, tokensOf_append_token]
      · rw [← h.groups_token]
        simp [Entry.path, hg]
    | none =>
      refine h.addToken_of_agree hc hg ?_
      by_cases hts : tokensOf es t.path = []
      · simp [hts, Agree]
      · exact Classical.not_not.1 fun disagree => clean ⟨hts, .inr disagree⟩

end Token

/-- **One entry more.** -/
theorem Merged.add {es : List Entry} {f : Flat} (h : Merged es f) (e : Entry) :
    Merged (es ++ [e]) (f.add e) := by
  cases e with
  | group path info file first => exact h.addGroup path info file first
  | token t => exact h.addToken t

/-- **Any list of entries**, merged one by one. -/
theorem merged_foldl (es : List Entry) : Merged es (es.foldl Flat.add .empty) := by
  induction es using List.reverseRecOn with
  | nil => exact merged_nil
  | append_singleton es e ih =>
    rw [List.foldl_append]
    exact ih.add e

end DesignTokens
