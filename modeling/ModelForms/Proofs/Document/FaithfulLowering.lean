import ModelForms.Proofs.Document.Outcomes

/-!
# Lowering is faithful

The type that lowering gives for a value is of the structure that the value means, and where it
gives none it fails for a reason (`Lowering.settles_typeOfValue`).  The induction is on the values
and the expressions in them.  That the models which compositions demand are defined is a hypothesis
here (`Lowering.Defines`): it is what an induction around this one proves, on the number of models
that may be under way.
-/

namespace ModelForms

namespace Lowering

open Relation Glossary

variable {ground : Groundwork} {ensureModel : String → Lowering Unit} {keys : List ModelId}
  {demanded : String → Prop} {before : LoweringState}

/-- All models are demanded that some operands name. -/
def Demands (ground : Groundwork) (operands : List TypeExpr) (demanded : String → Prop) : Prop :=
  ∀ operand ∈ operands, ∀ name, ground.glossary.Names operand name → demanded name

theorem demands_append_iff {operands more : List TypeExpr} :
    Demands ground (operands ++ more) demanded
      ↔ Demands ground operands demanded ∧ Demands ground more demanded :=
  List.forall_mem_append

theorem demands_cons_iff {operand : TypeExpr} {more : List TypeExpr} :
    Demands ground (operand :: more) demanded
      ↔ (∀ name, ground.glossary.Names operand name → demanded name)
        ∧ Demands ground more demanded :=
  List.forall_mem_cons

/-- What the operands of an intersection demand, the first one and the rest. -/
theorem demands_operands_cons_iff {operand : TypeExpr} {rest : List TypeExpr} :
    Demands ground (operand :: rest ++ operandsOfExprs (operand :: rest)) demanded
      ↔ (∀ name, ground.glossary.Names operand name → demanded name)
        ∧ Demands ground (operandsOfExpr operand) demanded
        ∧ Demands ground (rest ++ operandsOfExprs rest) demanded := by
  rw [operandsOfExprs, demands_append_iff, demands_cons_iff, demands_append_iff,
    demands_append_iff, and_assoc, and_left_comm (a := Demands ground rest demanded)]

/-- Types of several structures, made one after another. -/
theorem settles_cons {first : Lowering TypeId} {others : Lowering (List TypeId)}
    {meaning : Listing → Option NamedTerm} {meanings whole : Listing → Option (List NamedTerm)}
    (means_iff : ∀ terms, ground.glossary.Yields whole terms
      ↔ ∃ term rest, ground.glossary.Yields meaning term
        ∧ ground.glossary.Yields meanings rest ∧ terms = term :: rest)
    (lowers : Settles first before (Denotes ground before meaning)
      (ground.glossary.Fails meaning))
    (lowersOthers : ∀ middle, before.Advances ground middle →
      Settles others middle (DenotesAll ground middle meanings)
        (ground.glossary.Fails meanings)) :
    Settles (first >>= fun id => others >>= fun ids => pure (id :: ids)) before
      (DenotesAll ground before whole) (ground.glossary.Fails whole) := by
  refine lowers.bind (fun error fails => fails.imp fun terms means => ?_) fun id middle made => ?_
  · obtain ⟨term, _, means, _⟩ := (means_iff terms).1 means
    exact ⟨term, means⟩
  · refine (lowersOthers middle made.toAdvances).bind
      (fun error fails => fails.imp fun terms means => ?_) fun ids after more => ?_
    · obtain ⟨_, rest, _, means, _⟩ := (means_iff terms).1 means
      exact ⟨rest, means⟩
    · refine settles_pure ⟨made.toAdvances.trans more.toAdvances, ?_, ?_⟩
      · exact List.forall_mem_cons.2 ⟨more.types.knows made.knows, more.knows⟩
      · refine (means_iff _).2 ⟨_, _, made.means, more.means, ?_⟩
        rw [List.map_cons, made.faithful.namedTerm_eq more.toAdvances made.knows]

/-- The array type of a type that was made. -/
theorem settles_arrayOf {action : Lowering TypeId} {meaning whole : Listing → Option NamedTerm}
    (means_iff : ∀ term, ground.glossary.Yields whole term
      ↔ ∃ element, ground.glossary.Yields meaning element ∧ term = .array element)
    (lowers : Settles action before (Denotes ground before meaning)
      (ground.glossary.Fails meaning)) :
    Settles (action >>= fun element => interning (Interning.array element)) before
      (Denotes ground before whole) (ground.glossary.Fails whole) := by
  refine lowers.bind (fun error fails => fails.imp fun term means => ?_) fun id middle made => ?_
  · obtain ⟨element, means, _⟩ := (means_iff term).1 means
    exact ⟨element, means⟩
  · exact settles_array made.toAdvances made.knows ((means_iff _).2 ⟨_, made.means, rfl⟩)

/-- The union of types that were made. -/
theorem settles_unionOf {action : Lowering (List TypeId)}
    {meanings : Listing → Option (List NamedTerm)} {whole : Listing → Option NamedTerm}
    (means_iff : ∀ term, ground.glossary.Yields whole term
      ↔ ∃ terms, ground.glossary.Yields meanings terms ∧ term = .unionOf terms)
    (lowers : Settles action before (DenotesAll ground before meanings)
      (ground.glossary.Fails meanings)) :
    Settles (action >>= fun members => interning (Interning.union members)) before
      (Denotes ground before whole) (ground.glossary.Fails whole) := by
  refine lowers.bind (fun error fails => fails.imp fun term means => ?_) fun ids middle made => ?_
  · obtain ⟨terms, means, _⟩ := (means_iff term).1 means
    exact ⟨terms, means⟩
  · exact settles_union made.toAdvances made.knows ((means_iff _).2 ⟨_, made.means, rfl⟩)

/-! ## Type expressions -/

/-- A type composed of one operand. -/
theorem settles_ofOperand {action : Lowering TypeId} {compose : TypeId → Lowering TypeId}
    {operand : TypeExpr} {composed : NamedTerm → Listing → Option NamedTerm}
    {whole : Listing → Option NamedTerm}
    (means_iff : ∀ term, ground.glossary.Yields whole term
      ↔ ∃ part, ground.glossary.ExprMeans operand part
        ∧ ground.glossary.Yields (composed part) term)
    (defines : Defines ground ensureModel keys demanded) (same : before.underway.keys = keys)
    (demands : ∀ name, ground.glossary.Names operand name → demanded name)
    (lowers : Settles action before
      (Denotes ground before fun listing => ground.glossary.exprMeaning listing operand)
      (ground.glossary.Fails fun listing => ground.glossary.exprMeaning listing operand))
    (composes : ∀ id middle, before.Advances ground middle → middle.catalog.types.Knows id →
      middle.Prepared ground id → Settles (compose id) middle
        (Denotes ground middle (composed (middle.catalog.namedTerm id)))
        (ground.glossary.Fails (composed (middle.catalog.namedTerm id)))) :
    Settles (action >>= fun id => prepareOperand ensureModel id >>= fun _ => compose id) before
      (Denotes ground before whole) (ground.glossary.Fails whole) := by
  refine settles_operand defines same demands lowers
    (fun error fails => fails.imp fun term means => ?_) fun id middle made prepared => ?_
  · obtain ⟨part, means, _⟩ := (means_iff term).1 means
    exact ⟨part, means⟩
  · refine (composes id middle made.toAdvances made.knows prepared).imp
      (fun id after whole => ?_) fun error fails => fails.imp fun term means => ?_
    · exact ⟨made.toAdvances.trans whole.toAdvances, whole.knows,
        (means_iff _).2 ⟨_, made.means, whole.means⟩⟩
    · obtain ⟨part, means', means⟩ := (means_iff term).1 means
      cases means'.unique (steady_exprMeaning operand) made.means
      exact ⟨term, means⟩

/-- The names of a selection are read before its properties are selected. -/
theorem settles_selection {site : ExprSite} {name : String} {keyed : TypeExpr} {id : TypeId}
    (faithful : before.Faithful ground) (known : before.catalog.types.Knows id)
    (prepared : before.Prepared ground id) :
    Settles (keyNames site keyed >>= fun names => selectionOf site name id names) before
      (Denotes ground before (selectionMeaning name keyed (before.catalog.namedTerm id)))
      (ground.glossary.Fails (selectionMeaning name keyed (before.catalog.namedTerm id))) := by
  refine (settles_keyNames faithful keyed).bind ?_ ?_
  · rintro error ⟨unlike, none⟩
    refine .unmeant unlike fun term means => ?_
    obtain ⟨names, is, _⟩ := yields_selectionMeaning_iff.1 means
    cases none.symm.trans is
  · rintro names later ⟨advances, is⟩
    have same : later.catalog.namedTerm id = before.catalog.namedTerm id :=
      faithful.namedTerm_eq advances known
    refine (settles_selectionOf advances.faithful (advances.types.knows known)
      (prepared.advances faithful known advances)).imp
        (fun id after composed => ?_) fun error fails => fails.imp fun term means => ?_
    · exact ⟨advances.trans composed.toAdvances, composed.knows,
        yields_selectionMeaning_iff.2 ⟨names, is, same ▸ composed.means⟩⟩
    · obtain ⟨names', is', means⟩ := yields_selectionMeaning_iff.1 means
      cases is.symm.trans is'
      exact ⟨term, same ▸ means⟩

theorem settles_refuseArguments {site : ExprSite} {name : String} {args : List TypeExpr}
    {good : TypeId → LoweringState → Prop}
    (none : ∀ term, ¬ ground.glossary.ExprMeans (.reference name args) term) :
    Settles (refuseArguments site name args.length) before good
      (ground.glossary.Fails fun listing =>
        ground.glossary.exprMeaning listing (.reference name args)) := by
  unfold refuseArguments
  split <;> exact settles_throw (.unmeant (by simp) none)

section

variable {site : ExprSite}

mutual

theorem settles_typeOfExpr (defines : Defines ground ensureModel keys demanded)
    (sameLeaves : site.leaves = ground.leaves) : ∀ (expr : TypeExpr) {before : LoweringState},
    Grammar.Proper expr → before.Faithful ground → before.underway.keys = keys →
    Demands ground (operandsOfExpr expr) demanded →
    Settles (typeOfExpr ensureModel site expr) before
      (Denotes ground before fun listing => ground.glossary.exprMeaning listing expr)
      (ground.glossary.Fails fun listing => ground.glossary.exprMeaning listing expr)
  | .keyword k, _, _, faithful, _, _ => by
    rw [typeOfExpr]
    refine settles_pure ⟨.refl faithful, TypeTable.knows_intrinsic _ k, ?_⟩
    exact exprMeans_keyword_iff.2 (Catalog.namedTerm_ofIntrinsic faithful.wellFormed k)
  | .string _, _, _, faithful, _, _ => by
    rw [typeOfExpr]
    exact settles_literal (.refl faithful) (exprMeans_string_iff.2 rfl)
  | .number _, _, _, faithful, _, _ => by
    rw [typeOfExpr]
    exact settles_literal (.refl faithful) (exprMeans_number_iff.2 rfl)
  | .boolean _, _, _, faithful, _, _ => by
    rw [typeOfExpr]
    exact settles_literal (.refl faithful) (exprMeans_boolean_iff.2 rfl)
  | .array element, _, proper, faithful, same, demands => by
    cases proper with
    | array proper =>
      rw [typeOfExpr]
      exact settles_arrayOf (fun term => exprMeans_array_iff)
        (settles_typeOfExpr defines sameLeaves element proper faithful same demands)
  | .union members, _, proper, faithful, same, demands => by
    cases proper with
    | union _ proper =>
      rw [typeOfExpr]
      exact settles_unionOf (fun term => exprMeans_union_iff)
        (settles_typesOfExprs defines sameLeaves members proper faithful same demands)
  | .intersection [], _, proper, _, _, _ => by
    cases proper with
    | intersection several => simp at several
  | .intersection (first :: rest), _, proper, faithful, same, demands => by
    cases proper with
    | intersection _ proper =>
      obtain ⟨properFirst, proper⟩ := List.forall_mem_cons.1 proper
      simp only [operandsOfExpr] at demands
      obtain ⟨demandsFirst, insideFirst, demandsRest⟩ := demands_operands_cons_iff.1 demands
      rw [typeOfExpr]
      refine settles_ofOperand (fun term => exprMeans_intersection_iff) defines same demandsFirst
        (settles_typeOfExpr defines sameLeaves first properFirst faithful same insideFirst)
        fun base middle advances known prepared => ?_
      exact settles_intersectionOf defines sameLeaves rest proper advances.faithful
        (advances.keys.trans same) known prepared demandsRest
  | .reference name [], _, _, faithful, _, _ => by
    rw [typeOfExpr]
    cases generic : genericArity? name with
    | some arity =>
      refine settles_throw (.unmeant (by simp) fun term means => ?_)
      have means := exprMeans_name_iff.1 means
      simp [nameMeaning, generic] at means
    | none => exact settles_lookupName sameLeaves faithful generic
  | .reference name [operand], _, proper, faithful, same, demands => by
    cases proper with
    | reference proper =>
      have proper := proper operand (List.mem_singleton_self operand)
      simp only [operandsOfExpr] at demands
      rw [typeOfExpr]
      split
      next is =>
        subst is
        rw [if_neg (by decide)] at demands
        exact settles_arrayOf (fun term => exprMeans_Array_iff)
          (settles_typeOfExpr defines sameLeaves operand proper faithful same demands)
      next notArray =>
        split
        next is =>
          subst is
          rw [if_pos rfl] at demands
          obtain ⟨demandsOperand, demands⟩ := demands_cons_iff.1 demands
          exact settles_ofOperand (fun term => exprMeans_Partial_iff) defines same demandsOperand
            (settles_typeOfExpr defines sameLeaves operand proper faithful same demands)
            fun id middle advances known prepared =>
              settles_partialOf advances.faithful known prepared
        next notPartial =>
          exact settles_refuseArguments fun _ => not_exprMeans_of_unary notArray notPartial
  | .reference name [operand, keyed], _, proper, faithful, same, demands => by
    cases proper with
    | reference proper =>
      have proper := proper operand List.mem_cons_self
      simp only [operandsOfExpr] at demands
      obtain ⟨demandsOperand, demands⟩ := demands_cons_iff.1 demands
      rw [typeOfExpr]
      split
      next selects =>
        exact settles_ofOperand (fun term => exprMeans_selection_iff selects) defines same
          demandsOperand
          (settles_typeOfExpr defines sameLeaves operand proper faithful same demands)
          fun id middle advances known prepared =>
            settles_selection advances.faithful known prepared
      next other =>
        exact settles_refuseArguments fun _ => not_exprMeans_of_binary other
  | .reference name (_ :: _ :: _ :: _), _, _, _, _, _ => by
    rw [typeOfExpr]
    · exact settles_refuseArguments fun _ => not_exprMeans_of_more
    all_goals simp

theorem settles_typesOfExprs (defines : Defines ground ensureModel keys demanded)
    (sameLeaves : site.leaves = ground.leaves) : ∀ (exprs : List TypeExpr) {before : LoweringState},
    (∀ expr ∈ exprs, Grammar.Proper expr) → before.Faithful ground →
    before.underway.keys = keys → Demands ground (operandsOfExprs exprs) demanded →
    Settles (typesOfExprs ensureModel site exprs) before
      (DenotesAll ground before fun listing => ground.glossary.exprMeanings listing exprs)
      (ground.glossary.Fails fun listing => ground.glossary.exprMeanings listing exprs)
  | [], _, _, faithful, _, _ => by
    rw [typesOfExprs]
    exact settles_pure ⟨.refl faithful, by simp, exprsMean_nil_iff.2 rfl⟩
  | expr :: rest, _, proper, faithful, same, demands => by
    obtain ⟨properFirst, proper⟩ := List.forall_mem_cons.1 proper
    rw [operandsOfExprs] at demands
    obtain ⟨demandsFirst, demandsRest⟩ := demands_append_iff.1 demands
    rw [typesOfExprs]
    exact settles_cons (fun terms => exprsMean_cons_iff)
      (settles_typeOfExpr defines sameLeaves expr properFirst faithful same demandsFirst)
      fun middle advances => settles_typesOfExprs defines sameLeaves rest proper advances.faithful
        (advances.keys.trans same) demandsRest

theorem settles_intersectionOf (defines : Defines ground ensureModel keys demanded)
    (sameLeaves : site.leaves = ground.leaves) : ∀ (exprs : List TypeExpr) {base : TypeId}
    {before : LoweringState}, (∀ expr ∈ exprs, Grammar.Proper expr) → before.Faithful ground →
    before.underway.keys = keys → before.catalog.types.Knows base → before.Prepared ground base →
    Demands ground (exprs ++ operandsOfExprs exprs) demanded →
    Settles (intersectionOf ensureModel site base exprs) before
      (Denotes ground before fun listing =>
        ground.glossary.intersectionMeaning listing (before.catalog.namedTerm base) exprs)
      (ground.glossary.Fails fun listing =>
        ground.glossary.intersectionMeaning listing (before.catalog.namedTerm base) exprs)
  | [], _, _, _, faithful, _, known, _, _ => by
    rw [intersectionOf]
    exact settles_pure ⟨.refl faithful, known, intersectionMeans_nil_iff.2 rfl⟩
  | expr :: rest, base, _, proper, faithful, same, known, prepared, demands => by
    obtain ⟨properFirst, proper⟩ := List.forall_mem_cons.1 proper
    obtain ⟨demandsFirst, insideFirst, demandsRest⟩ := demands_operands_cons_iff.1 demands
    rw [intersectionOf]
    refine settles_operand defines same demandsFirst
      (settles_typeOfExpr defines sameLeaves expr properFirst faithful same insideFirst)
      (fun error fails => fails.imp fun term means => ?_) fun extra middle made preparedExtra => ?_
    · obtain ⟨operand, means, _⟩ := intersectionMeans_cons_iff.1 means
      exact ⟨operand, means⟩
    · have sameBase : middle.catalog.namedTerm base = _ :=
        faithful.namedTerm_eq made.toAdvances known
      refine (settles_extensionOf made.faithful (made.types.knows known)
        (prepared.advances faithful known made.toAdvances) made.knows preparedExtra).bind
          (fun error fails => fails.imp fun term means => ?_) fun merged later composed => ?_
      · obtain ⟨operand, means', merged, yields, _⟩ := intersectionMeans_cons_iff.1 means
        cases means'.unique (steady_exprMeaning expr) made.means
        exact ⟨merged, sameBase ▸ yields⟩
      · obtain ⟨_, _, _, _, object⟩ := yields_mergedMeaning_iff.1 composed.means
        refine (settles_intersectionOf defines sameLeaves rest proper composed.faithful
          (composed.keys.trans (made.keys.trans same)) composed.knows
          (composed.faithful.prepared_of_namedTerm composed.knows object) demandsRest).imp
            (fun id after whole => ?_) fun error fails => fails.imp fun term means => ?_
        · refine ⟨made.toAdvances.trans (composed.toAdvances.trans whole.toAdvances), whole.knows,
            intersectionMeans_cons_iff.2 ⟨_, made.means, _, ?_, whole.means⟩⟩
          exact sameBase ▸ composed.means
        · obtain ⟨operand, means', merged, yields, means⟩ := intersectionMeans_cons_iff.1 means
          cases means'.unique (steady_exprMeaning expr) made.means
          rw [← sameBase] at yields
          cases yields.unique (steady_mergedMeaning _ _) composed.means
          exact ⟨term, means⟩

end

end

/-! ## Values -/

theorem settles_nullable {origin : LoweringState} {id : TypeId}
    {meaning : Listing → Option NamedTerm} {bad : DocumentError → Prop}
    (advances : origin.Advances ground before)
    (known : before.catalog.types.Knows id)
    (means : ground.glossary.Yields meaning
      (.unionOf [before.catalog.namedTerm id, .intrinsic .null])) :
    Settles (interning (Interning.nullable id)) before (Denotes ground origin meaning) bad := by
  refine settles_union advances ?_ ?_
  · simpa using ⟨known, TypeTable.knows_intrinsic _ .null⟩
  · rwa [List.map_cons, List.map_singleton, TypeId.null,
      Catalog.namedTerm_ofIntrinsic advances.faithful.wellFormed]

theorem settles_typeOfText (defines : Defines ground ensureModel keys demanded)
    {location : Location} {text : String} (faithful : before.Faithful ground)
    (same : before.underway.keys = keys)
    (demands : Demands ground (operandsOfValue (.string text)) demanded) :
    Settles (typeOfText ensureModel ground.leaves location text) before
      (Denotes ground before fun listing => ground.glossary.valueMeaning listing (.string text))
      (ground.glossary.Fails fun listing =>
        ground.glossary.valueMeaning listing (.string text)) := by
  unfold operandsOfValue at demands
  unfold typeOfText
  cases parses : TypeExpr.parse text with
  | error error =>
    refine settles_throw (.unmeant (by simp) fun term means => ?_)
    obtain ⟨expr, parses', _⟩ := valueMeans_text_iff.1 means
    cases parses.symm.trans parses'
  | ok expr =>
    rw [parses] at demands
    have proper := TypeExpr.proper_of_parse parses
    refine (settles_typeOfExpr defines rfl expr proper faithful same demands).imp
      (fun id after made => ?_) fun error fails => fails.imp fun term means => ?_
    · exact ⟨made.toAdvances, made.knows, valueMeans_text_iff.2 ⟨expr, parses, made.means⟩⟩
    · obtain ⟨expr', parses', means⟩ := valueMeans_text_iff.1 means
      cases parses.symm.trans parses'
      exact ⟨term, means⟩

/-- An object of the properties that are listed. -/
theorem settles_members {members : List (String × Json)} {action : Lowering (List Property)}
    (plain : ∀ key inner, members = [(key, inner)] → isDirective key = false)
    (lists : Settles action before
      (DenotesProperties ground before [] fun listing =>
        ground.glossary.memberMeanings listing [] members)
      (ground.glossary.Fails fun listing => ground.glossary.memberMeanings listing [] members)) :
    Settles (action >>= fun properties => interning (Interning.object properties)) before
      (Denotes ground before fun listing =>
        ground.glossary.valueMeaning listing (.object members))
      (ground.glossary.Fails fun listing =>
        ground.glossary.valueMeaning listing (.object members)) := by
  refine lists.bind (fun error fails => fails.imp fun term means => ?_)
    fun properties middle made => ?_
  · obtain ⟨listed, means, _⟩ := (valueMeans_members_iff plain).1 means
    exact ⟨listed, means⟩
  · exact settles_object made.toAdvances made.knows made.distinct
      ((valueMeans_members_iff plain).2 ⟨_, made.means, rfl⟩)

mutual

/-- Lowering a value gives a type of the structure that it means, or it fails for a reason. -/
theorem settles_typeOfValue (defines : Defines ground ensureModel keys demanded) :
    ∀ (value : Json) {location : Location} {before : LoweringState}, before.Faithful ground →
    before.underway.keys = keys → Demands ground (operandsOfValue value) demanded →
    Settles (typeOfValue ensureModel ground.leaves location value) before
      (Denotes ground before fun listing => ground.glossary.valueMeaning listing value)
      (ground.glossary.Fails fun listing => ground.glossary.valueMeaning listing value)
  | .null, _, _, _, _, _ | .bool _, _, _, _, _, _ | .number _, _, _, _, _, _
  | .array _, _, _, _, _, _ => by
    rw [typeOfValue]
    exact settles_throw (.unmeant (by simp) fun _ =>
      not_valueMeans_of_scalar (by simp) (by simp))
  | .string text, _, _, faithful, same, demands => by
    rw [typeOfValue]
    exact settles_typeOfText defines faithful same demands
  | .object [], _, _, faithful, same, demands => by
    unfold operandsOfValue at demands
    rw [typeOfValue_members (by simp)]
    exact settles_members (by simp) (settles_propertiesOfMembers defines [] faithful same demands)
  | .object [(key, inner)], _, _, faithful, same, demands => by
    unfold operandsOfValue at demands
    have inside : Demands ground (operandsOfValue inner) demanded := by
      unfold operandsOfMembers at demands
      exact (demands_append_iff.1 demands).1
    cases keyForm key with
    | array is =>
      subst is
      rw [typeOfValue_array]
      exact settles_arrayOf (fun term => valueMeans_array_iff)
        (settles_typeOfValue defines inner faithful same inside)
    | nullable is =>
      subst is
      rw [typeOfValue_nullable]
      refine (settles_typeOfValue defines inner faithful same inside).bind
        (fun error fails => fails.imp fun term means => ?_) fun id middle made => ?_
      · obtain ⟨proper, means, _⟩ := valueMeans_nullable_iff.1 means
        exact ⟨proper, means⟩
      · exact settles_nullable made.toAdvances made.knows
          (valueMeans_nullable_iff.2 ⟨_, made.means, rfl⟩)
    | union is =>
      subst is
      match inner with
      | .array items =>
        unfold operandsOfValue at inside
        rw [typeOfValue_union]
        exact settles_unionOf (fun term => valueMeans_union_iff)
          (settles_typesOfItems defines items faithful same inside)
      | .null | .bool _ | .number _ | .string _ | .object _ =>
        rw [typeOfValue_union_of_ne (by simp)]
        exact settles_throw (.unmeant (by simp) fun _ => not_valueMeans_union (by simp))
    | unknown directive unknown =>
      rw [typeOfValue_unknown directive unknown]
      exact settles_throw (.unmeant (by simp) fun _ => not_valueMeans_directive directive unknown)
    | name plain =>
      have plain := plain_of_name plain inner
      rw [typeOfValue_members plain]
      exact settles_members plain
        (settles_propertiesOfMembers defines [(key, inner)] faithful same demands)
  | .object (first :: second :: rest), _, _, faithful, same, demands => by
    unfold operandsOfValue at demands
    rw [typeOfValue_members (by simp)]
    exact settles_members (by simp)
      (settles_propertiesOfMembers defines (first :: second :: rest) faithful same demands)

theorem settles_typesOfItems (defines : Defines ground ensureModel keys demanded) :
    ∀ (items : List Json) {location : Location} {index : Nat} {before : LoweringState},
    before.Faithful ground → before.underway.keys = keys →
    Demands ground (operandsOfItems items) demanded →
    Settles (typesOfItems ensureModel ground.leaves location index items) before
      (DenotesAll ground before fun listing => ground.glossary.itemMeanings listing items)
      (ground.glossary.Fails fun listing => ground.glossary.itemMeanings listing items)
  | [], _, _, _, faithful, _, _ => by
    rw [typesOfItems]
    exact settles_pure ⟨.refl faithful, by simp, itemsMean_nil_iff.2 rfl⟩
  | item :: rest, _, _, _, faithful, same, demands => by
    unfold operandsOfItems at demands
    obtain ⟨demandsFirst, demandsRest⟩ := demands_append_iff.1 demands
    rw [typesOfItems]
    exact settles_cons (fun terms => itemsMean_cons_iff)
      (settles_typeOfValue defines item faithful same demandsFirst)
      fun middle advances => settles_typesOfItems defines rest advances.faithful
        (advances.keys.trans same) demandsRest

theorem settles_propertiesOfMembers (defines : Defines ground ensureModel keys demanded) :
    ∀ (members : List (String × Json)) {location : Location} {seen : List String}
      {before : LoweringState}, before.Faithful ground → before.underway.keys = keys →
    Demands ground (operandsOfMembers members) demanded →
    Settles (propertiesOfMembers ensureModel ground.leaves location seen members) before
      (DenotesProperties ground before seen fun listing =>
        ground.glossary.memberMeanings listing seen members)
      (ground.glossary.Fails fun listing => ground.glossary.memberMeanings listing seen members)
  | [], _, _, _, faithful, _, _ => by
    rw [propertiesOfMembers]
    exact settles_pure ⟨.refl faithful, by simp, membersMean_nil_iff.2 rfl, .nil, by simp⟩
  | (key, value) :: rest, _, seen, _, faithful, same, demands => by
    unfold operandsOfMembers at demands
    obtain ⟨demandsFirst, demandsRest⟩ := demands_append_iff.1 demands
    cases labelForm key seen with
    | empty empty =>
      rw [propertiesOfMembers_of_empty empty]
      exact settles_throw (.unmeant (by simp) fun _ => not_membersMean_of_not_new (.inl empty))
    | taken named taken =>
      rw [propertiesOfMembers_of_taken named taken]
      exact settles_throw (.unmeant (by simp) fun _ => not_membersMean_of_not_new (.inr taken))
    | new named new =>
      rw [propertiesOfMembers_of_new named new]
      have means_iff {listed : NamedProperties} :=
        @membersMean_cons_iff ground.glossary listed seen key value rest named new
      refine (settles_typeOfValue defines value faithful same demandsFirst).bind
        (fun error fails => fails.imp fun listed means => ?_) fun id middle made => ?_
      · obtain ⟨term, _, means, _⟩ := means_iff.1 means
        exact ⟨term, means⟩
      · refine (settles_propertiesOfMembers defines rest made.faithful (made.keys.trans same)
          demandsRest).bind (fun error fails => fails.imp fun listed means => ?_)
            fun properties after more => ?_
        · obtain ⟨_, others, _, means, _⟩ := means_iff.1 means
          exact ⟨others, means⟩
        · refine settles_pure ⟨made.toAdvances.trans more.toAdvances, List.forall_mem_cons.2
            ⟨more.types.knows made.knows, more.knows⟩, means_iff.2
              ⟨_, _, made.means, more.means, ?_⟩, List.nodup_cons.2 ⟨fun mem => ?_,
                more.distinct⟩, List.forall_mem_cons.2 ⟨new, fun p mem among =>
                  more.new p mem (List.mem_cons_of_mem _ among)⟩⟩
          · rw [List.map_cons, Catalog.namedProperty,
              made.faithful.namedTerm_eq more.toAdvances made.knows]
          · obtain ⟨p, among, is⟩ := List.mem_map.1 mem
            exact more.new p among (by simp [is])

end

end Lowering

end ModelForms
