import ModelForms.Proofs.Document.KeyLists
import ModelForms.Proofs.Document.RegroupedDocuments
import ModelForms.Proofs.Expr.Embedding

/-!
# Regrouping

Parentheses around a part of a chain of `|` or `&` make no difference to what a document is lowered
to, wherever the chain stands, except among the keys of `Omit` and `Pick`
(`Document.lower_of_regrouped`).  There a group is refused, although it says the same
(`Document.not_forall_lowers_iff_of_regrouped`).
-/

namespace ModelForms

/-- The type that a model is lowered to. -/
def Lowered.body? (lowered : Lowered) (name : String) : Option TypeId := do
  let definition ← lowered.models.lookup name
  lowered.catalog.models.body? definition

namespace Document

variable {document other : Document} {inKeys : Bool}

/-- In the values of the models there are no groups among the keys of `Omit` and `Pick`. -/
def HasReadableKeys (document : Document) : Prop :=
  ∀ name value, document.models.lookup name = some value → TypeExpr.AreReadable value.keyLists

/-- Where there are no groups among keys, documents differ in groups elsewhere only. -/
theorem Rewritten.regroups (rewritten : Document.Rewritten (Regrouped inKeys) document other)
    (readable : document.HasReadableKeys) (readable' : other.HasReadableKeys) :
    document.Regroups other where
  keys := rewritten.models.keys_eq
  glossaries := {
    values := fun name => by
      rcases rewritten.models.lookup name with none | ⟨value, value', is, is', rewritten⟩
      · exact .inl none
      · exact .inr ⟨value, value', is, is', rewritten.of_areReadable (readable name value is)
          (readable' name value' is')⟩
    leaves := rewritten.leaves }
  hints := rewritten.hints
  mode := rewritten.mode

theorem hasReadableKeys_of_lower {lowered : Lowered} (h : document.lower = .ok lowered) :
    document.HasReadableKeys := by
  intro name value is
  obtain ⟨term, means⟩ := exists_means_of_lower h (Entries.mem_keys_of_lookup is)
  exact means.areReadable is

theorem exists_body?_of_means {lowered : Lowered} (h : document.lower = .ok lowered) {name : String}
    {term : NamedTerm} (means : document.glossary.Means name term) :
    ∃ id, lowered.body? name = some id ∧ lowered.catalog.types.Knows id
      ∧ lowered.catalog.namedTerm id = term := by
  have ⟨value, is, _⟩ := means
  obtain ⟨definition, id, found, defined, means'⟩ :=
    exists_body_of_lower h (Entries.mem_keys_of_lookup is)
  obtain ⟨_, ground, state, _, faithful, catalog⟩ := faithful_of_lower h
  refine ⟨id, by simp [Lowered.body?, found, defined], ?_, means'.unique means⟩
  rw [← catalog] at defined ⊢
  exact faithful.closed.wellFormed.bodies definition id defined

/-- Models of a lowered document with the same meaning are lowered to the same type. -/
theorem exists_body?_of_means_both {lowered : Lowered} (h : document.lower = .ok lowered)
    {name name' : String} {term : NamedTerm} (means : document.glossary.Means name term)
    (means' : document.glossary.Means name' term) :
    ∃ id, lowered.body? name = some id ∧ lowered.body? name' = some id := by
  obtain ⟨_, ground, state, _, faithful, catalog⟩ := faithful_of_lower h
  obtain ⟨id, is, known, same⟩ := exists_body?_of_means h means
  obtain ⟨id', is', known', same'⟩ := exists_body?_of_means h means'
  rw [← catalog] at known known' same same'
  cases Catalog.namedTerm_injective faithful.closed faithful.distinct known known'
    (same.trans same'.symm)
  exact ⟨id, is, is'⟩

/-- Documents that differ in how chains in their expressions are grouped, at any depth and in any
place, are both lowered or both refused, unless keys of `Omit` or `Pick` are grouped in one of them
so that they are not read: then it is refused.  Where both are lowered, each model has the same
structure in both.  In one document, models that differ in grouping are lowered to the same type. -/
theorem lower_of_regrouped (rewritten : Document.Rewritten (Regrouped true) document other) :
    ((document.HasReadableKeys ↔ other.HasReadableKeys) →
      ((∃ lowered, document.lower = .ok lowered) ↔ ∃ result, other.lower = .ok result))
    ∧ ∀ lowered, document.lower = .ok lowered →
      document.HasReadableKeys
      ∧ (∀ result, other.lower = .ok result → ∀ name ∈ document.models.keys,
        ∃ term, lowered.structure? name = some term ∧ result.structure? name = some term)
      ∧ ∀ name name' value value', document.models.lookup name = some value →
        document.models.lookup name' = some value' →
        Json.Rewritten (Regrouped true) value value' →
        ∃ id, lowered.body? name = some id ∧ lowered.body? name' = some id := by
  refine ⟨fun alike => ⟨?_, ?_⟩, fun lowered h => ?_⟩
  · rintro ⟨lowered, h⟩
    have readable := hasReadableKeys_of_lower h
    exact (rewritten.regroups readable (alike.1 readable)).lowers_iff.2 ⟨lowered, h⟩
  · rintro ⟨result, h⟩
    have readable := hasReadableKeys_of_lower h
    exact (rewritten.regroups (alike.2 readable) readable).lowers_iff.1 ⟨result, h⟩
  · have readable := hasReadableKeys_of_lower h
    refine ⟨readable, fun result h' name declared => ?_, ?_⟩
    · have regroups := rewritten.regroups readable (hasReadableKeys_of_lower h')
      exact regroups.exists_structure? h h' declared
    · intro name name' value value' is is' rewritten
      have rewritten :=
        rewritten.of_areReadable (readable name value is) (readable name' value' is')
      obtain ⟨term, _, is'', means⟩ := exists_means_of_lower h (Entries.mem_keys_of_lookup is)
      cases is.symm.trans is''
      exact exists_body?_of_means_both h ⟨value, is, means⟩ ⟨value', is',
        ((Glossary.Regroups.refl document.glossary).valueMeans_iff rewritten).2 means⟩

end Document

/-! ## Groups -/

section

open TypeExpr Grammar

variable {levels : Nat} {text : String} {before inner after : List TypeExpr}

/-- A text and the same text with parentheses around a part of its chain of alternatives. -/
theorem exists_regrouped_of_bars (inKeys : Bool) (room : levels + 2 ≤ Limits.expressionDepth)
    (several : 2 ≤ inner.length)
    (chain : Separated .bar (IntersectionChain (Derives levels)) (sentence text)
      (before ++ (inner ++ after))) :
    ∃ first part last, sentence text = first ++ (part ++ last)
      ∧ ∀ other, sentence other = first ++ (parenthesized part ++ last) →
        Regrouped inKeys (.string text) (.string other) := by
  obtain ⟨first, part, last, same, grouped⟩ := exists_group_of_unionChain several chain
  refine ⟨first, part, last, same, fun other same' => ?_⟩
  have parses := parse_eq_of_derives
    ((UnionChain.intro chain).mono fun _ _ => Derives.mono (by omega))
  have parses' := @parse_eq_of_derives other _
    (same' ▸ (UnionChain.intro grouped).mono fun _ _ => Derives.mono (by omega))
  refine .texts parses parses' ?_
  rw [chainTree_of_several (by simp only [List.length_append]; omega),
    ungroup_chainTree fun _ _ _ => ungroup_union_group]

/-- A text and the same text with parentheses around a part of its chain of operands of `&`. -/
theorem exists_regrouped_of_ampersands (inKeys : Bool) (room : levels + 2 ≤ Limits.expressionDepth)
    (several : 2 ≤ inner.length)
    (chain : Separated .ampersand (Bracketed (Derives levels)) (sentence text)
      (before ++ (inner ++ after))) :
    ∃ first part last, sentence text = first ++ (part ++ last)
      ∧ ∀ other, sentence other = first ++ (parenthesized part ++ last) →
        Regrouped inKeys (.string text) (.string other) := by
  obtain ⟨first, part, last, same, grouped⟩ := exists_group_of_intersectionChain several chain
  refine ⟨first, part, last, same, fun other same' => ?_⟩
  have parses := parse_eq_of_derives
    ((UnionChain.intro (.one (.intro chain))).mono fun _ _ => Derives.mono (by omega))
  have parses' := @parse_eq_of_derives other _
    (same' ▸ (UnionChain.intro (.one (.intro grouped))).mono fun _ _ => Derives.mono (by omega))
  refine .texts parses parses' ?_
  rw [chainTree, chainTree, chainTree_of_several (by simp only [List.length_append]; omega),
    ungroup_chainTree fun _ _ _ => ungroup_intersection_group]

end

namespace TypeExpr

open Grammar

theorem parse_eq_of_sentence {text : String} {expr : TypeExpr} {tokens : List Token}
    (same : sentence text = tokens)
    (derives : UnionChain (Derives (Limits.expressionDepth - 1)) tokens expr) :
    parse text = .ok expr :=
  parse_eq_of_derives (same ▸ derives)

end TypeExpr

namespace Document

open TypeExpr Grammar

/-- Three models, and what two texts make of them. -/
def combining (all any : String) : Document :=
  { Document.empty with
    models := [("A", .object [("a", .string "string")]), ("B", .object [("b", .string "number")]),
      ("C", .object [("a", .string "boolean")]), ("All", .string all), ("Any", .string any)] }

theorem lower_of_regrouped_combining :
    Document.Rewritten (Regrouped true) (combining "A & (B & C)" "A | (B | C)")
        (combining "(A & B) & C" "A | B | C")
      ∧ ∃ lowered result, (combining "A & (B & C)" "A | (B | C)").lower = .ok lowered
        ∧ (combining "(A & B) & C" "A | B | C").lower = .ok result
        ∧ ∀ name ∈ ["A", "B", "C", "All", "Any"],
          ∃ term, lowered.structure? name = some term ∧ result.structure? name = some term := by
  have a {type : List Token → TypeExpr → Prop} : Bracketed type [.name "A"] (.reference "A" []) :=
    .primary (.bare ⟨by decide, by decide, by decide⟩)
  have b {type : List Token → TypeExpr → Prop} : Bracketed type [.name "B"] (.reference "B" []) :=
    .primary (.bare ⟨by decide, by decide, by decide⟩)
  have c {type : List Token → TypeExpr → Prop} : Bracketed type [.name "C"] (.reference "C" []) :=
    .primary (.bare ⟨by decide, by decide, by decide⟩)
  have group {tokens : List Token} {expr : TypeExpr}
      (inner : UnionChain (Derives (Limits.expressionDepth - 2)) tokens expr) :
      Bracketed (Derives (Limits.expressionDepth - 1)) (parenthesized tokens) expr :=
    .primary (.parentheses inner)
  have all := @parse_eq_of_sentence "A & (B & C)" _ _ (by decide +kernel)
    (.intro (.one (.intro (.more a (.one (group (.intro (.one (.intro (.more b (.one c)))))))))))
  have all' := @parse_eq_of_sentence "(A & B) & C" _ _ (by decide +kernel)
    (.intro (.one (.intro (.more (group (.intro (.one (.intro (.more a (.one b)))))) (.one c)))))
  have any := @parse_eq_of_sentence "A | (B | C)" _ _ (by decide +kernel)
    (.intro (.more (.intro (.one a)) (.one (.intro (.one (group
      (.intro (.more (.intro (.one b)) (.one (.intro (.one c)))))))))))
  have any' := @parse_eq_of_sentence "A | B | C" _ _ (by decide +kernel)
    (.intro (.more (.intro (.one a)) (.more (.intro (.one b)) (.one (.intro (.one c))))))
  have rewritten : Document.Rewritten (Regrouped true) (combining "A & (B & C)" "A | (B | C)")
      (combining "(A & B) & C" "A | B | C") :=
    ⟨rfl, .cons _ (.refl _ _) (.cons _ (.refl _ _) (.cons _ (.refl _ _)
      (.cons _ (.here (.texts all all' rfl)) (.cons _ (.here (.texts any any' rfl)) .nil)))),
      rfl, rfl, rfl⟩
  have ⟨lowers, lowers'⟩ : (combining "A & (B & C)" "A | (B | C)").lower.toOption.isSome = true
      ∧ (combining "(A & B) & C" "A | B | C").lower.toOption.isSome = true := by decide +kernel
  refine ⟨rewritten, ?_⟩
  cases h : (combining "A & (B & C)" "A | (B | C)").lower with
  | error error =>
    rw [h] at lowers
    cases lowers
  | ok lowered =>
    cases h' : (combining "(A & B) & C" "A | B | C").lower with
    | error error =>
      rw [h'] at lowers'
      cases lowers'
    | ok result =>
      exact ⟨lowered, result, rfl, rfl, ((lower_of_regrouped rewritten).2 lowered h).2.1 result h'⟩

/-- A model without some properties of another, which a text lists. -/
def omitting (rest : String) : Document :=
  { Document.empty with
    models := [("A", .object [("x", .string "string"), ("y", .string "string"),
      ("z", .string "string")]), ("Rest", .string rest)] }

/-- A group among the keys of `Omit` is refused. -/
theorem not_forall_lowers_iff_of_regrouped :
    ¬ ∀ document other : Document, Document.Rewritten (Regrouped true) document other →
      ((∃ lowered, document.lower = .ok lowered) ↔ ∃ result, other.lower = .ok result) := by
  intro same
  have a {type : List Token → TypeExpr → Prop} : Bracketed type [.name "A"] (.reference "A" []) :=
    .primary (.bare ⟨by decide, by decide, by decide⟩)
  have key {type : List Token → TypeExpr → Prop} (value : String) :
      IntersectionChain type [.string value] (.string value) :=
    .intro (.one (.primary (.string value)))
  have generic {tokens : List Token} {keys : TypeExpr}
      (inner : Derives (Limits.expressionDepth - 1) tokens keys) :
      UnionChain (Derives (Limits.expressionDepth - 1))
        (.name "Omit" :: .punctuation .less :: ([.name "A"] ++ .punctuation .comma :: tokens)
          ++ [.punctuation .greater]) (.reference "Omit" [.reference "A" [], keys]) :=
    .intro (.one (.intro (.one (.primary (.generic ⟨by decide, by decide, by decide⟩
      (.more (.intro (.one (.intro (.one a)))) (.one inner)))))))
  have flat := @parse_eq_of_sentence "Omit<A, 'x' | 'y' | 'z'>" _ _ (by decide +kernel)
    (generic (.intro (.more (key "x") (.more (key "y") (.one (key "z"))))))
  have nested := @parse_eq_of_sentence "Omit<A, 'x' | ('y' | 'z')>" _ _ (by decide +kernel)
    (generic (.intro (.more (key "x") (.one (.intro (.one (.primary (.parentheses
      (.intro (.more (key "y") (.one (key "z"))))))))))))
  have rewritten : Document.Rewritten (Regrouped true) (omitting "Omit<A, 'x' | 'y' | 'z'>")
      (omitting "Omit<A, 'x' | ('y' | 'z')>") :=
    ⟨rfl, .cons _ (.refl _ _) (.cons _ (.here (.texts flat nested rfl)) .nil), rfl, rfl, rfl⟩
  have ⟨lowers, refused⟩ : (omitting "Omit<A, 'x' | 'y' | 'z'>").lower.toOption.isSome = true
      ∧ (omitting "Omit<A, 'x' | ('y' | 'z')>").lower.toOption.isSome = false := by decide +kernel
  cases h : (omitting "Omit<A, 'x' | 'y' | 'z'>").lower with
  | error error =>
    rw [h] at lowers
    cases lowers
  | ok lowered =>
    obtain ⟨result, h'⟩ := (same _ _ rewritten).1 ⟨lowered, h⟩
    rw [h'] at refused
    cases refused

end Document

end ModelForms
