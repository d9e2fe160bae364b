import ModelForms.Document.Basic
import ModelForms.Proofs.Text.Cutting

/-!
# Spellings of a mode

A mode is written as a list of words or as a text of words with separators between them.  Cutting
such a text gives the words back, so the two mean the same, an error included
(`WrittenMode.mode_eq_of_joined`).

A list of words comes to a set of flags, or to the first word of it that is no flag
(`ModeFlags.ofWords_eq`).  In the set there is neither an order nor a number of times, so a list of
flags means no more than which flags are in it.
-/

namespace ModelForms

namespace ModeFlags

variable {words others : List String}

/-- Whether a word is no flag. -/
def isUnknown (word : String) : Bool := (ModeFlag.parse? word).isNone

/-- A set together with the flags that some words name. -/
def withWords (words : List String) (flags : ModeFlags) : ModeFlags :=
  ⟨fun flag => flags.has flag || words.any fun word => ModeFlag.parse? word = some flag⟩

theorem withWords_nil (flags : ModeFlags) : flags.withWords [] = flags := by
  simp [withWords]

theorem withWords_cons {word : String} {flag : ModeFlag} (names : ModeFlag.parse? word = some flag)
    (flags : ModeFlags) :
    (flags.insert flag).withWords words = flags.withWords (word :: words) := by
  refine congrArg ModeFlags.mk (funext fun other => ?_)
  have turned : decide (other = flag) = decide (flag = other) := decide_eq_decide.2 eq_comm
  simp only [insert, List.any_cons, names, Option.some.injEq]
  rw [turned, Bool.or_comm (decide (flag = other)), Bool.or_assoc]

/-- Words come to the set of the flags that they name, or to the first of them that is no flag. -/
theorem ofWords_eq (words : List String) :
    ofWords words = match words.find? isUnknown with
      | some word => .error (.unknownFlag word)
      | Option.none => .ok (none.withWords words) := by
  unfold ofWords
  generalize none = flags
  induction words generalizing flags with
  | nil => exact congrArg Except.ok (withWords_nil flags).symm
  | cons word rest ih =>
    rw [List.foldlM_cons, List.find?_cons]
    cases names : ModeFlag.parse? word with
    | none =>
      have unknown : isUnknown word = true := by rw [isUnknown, names]; rfl
      rw [unknown]
      rfl
    | some flag =>
      have known : isUnknown word = false := by rw [isUnknown, names]; rfl
      rw [known, ← withWords_cons names]
      exact ih (flags.insert flag)

/-- Which flags words name depends on nothing but which words there are. -/
theorem withWords_congr (same : ∀ word, word ∈ others ↔ word ∈ words) (flags : ModeFlags) :
    flags.withWords others = flags.withWords words := by
  refine congrArg ModeFlags.mk (funext fun flag => congrArg (flags.has flag || ·) ?_)
  rw [Bool.eq_iff_iff, List.any_eq_true, List.any_eq_true]
  exact exists_congr fun word => and_congr_left fun _ => same word

/-- An expression is cut into the words that it is made of. -/
theorem parse_of_joined {text : String}
    (plain : ∀ word ∈ words, Text.IsPlain isSeparator word.toList)
    (joined : Text.Joined isSeparator (words.map String.toList) text.toList) :
    parse text = ofWords words := by
  have pieces := Text.nonemptyPieces_of_joined joined (List.forall_mem_map.2 plain)
  rw [parse, pieces, List.map_map]
  simp [Function.comp_def]

end ModeFlags

/-- A set of flags is no word that is unknown. -/
theorem Mode.ofFlags_ne_unknownFlag (flags : ModeFlags) (word : String) :
    Mode.ofFlags flags ≠ .error (.unknownFlag word) := by
  unfold ofFlags
  split
  next => nofun
  next =>
    split
    next => nofun
    next => nofun

namespace WrittenMode

variable {words : List String} {text : String}

theorem mode_flags (words : List String) :
    (flags words).mode = match words.find? ModeFlags.isUnknown with
      | some word => .error (.unknownFlag word)
      | none => Mode.ofFlags (ModeFlags.none.withWords words) := by
  show ModeFlags.ofWords words >>= Mode.ofFlags = _
  rw [ModeFlags.ofWords_eq]
  cases words.find? ModeFlags.isUnknown with
  | some word => rfl
  | none => rfl

theorem mode_expression (plain : ∀ word ∈ words, Text.IsPlain ModeFlags.isSeparator word.toList)
    (joined : Text.Joined ModeFlags.isSeparator (words.map String.toList) text.toList) :
    (expression text).mode = (flags words).mode := by
  show ModeFlags.parse text >>= Mode.ofFlags = ModeFlags.ofWords words >>= Mode.ofFlags
  rw [ModeFlags.parse_of_joined plain joined]

/-- A text of words with separators between them means what the list of the words means, and if
some of the words are no flags, the first of these is the error.  If all words are flags, it does
not matter in which order they come and how often. -/
theorem mode_eq_of_joined (plain : ∀ word ∈ words, Text.IsPlain ModeFlags.isSeparator word.toList)
    (joined : Text.Joined ModeFlags.isSeparator (words.map String.toList) text.toList) :
    (expression text).mode = (flags words).mode
      ∧ (∀ word, (flags words).mode = .error (.unknownFlag word)
        ↔ words.find? ModeFlags.isUnknown = some word)
      ∧ ((∀ word ∈ words, ModeFlags.isUnknown word = false) →
        ∀ others : List String, (∀ word, word ∈ others ↔ word ∈ words) →
          (flags others).mode = (flags words).mode
            ∧ ∀ other : String,
              Text.Joined ModeFlags.isSeparator (others.map String.toList) other.toList →
                (expression other).mode = (flags words).mode) := by
  refine ⟨mode_expression plain joined, fun word => ?_, fun known others same => ?_⟩
  · rw [mode_flags]
    cases words.find? ModeFlags.isUnknown with
    | some first => simp
    | none => simp [Mode.ofFlags_ne_unknownFlag]
  · have none_unknown {list : List String}
        (known : ∀ word ∈ list, ModeFlags.isUnknown word = false) :
        list.find? ModeFlags.isUnknown = none :=
      List.find?_eq_none.2 fun word mem unknown => by simp [known word mem] at unknown
    have reordered : (flags others).mode = (flags words).mode := by
      rw [mode_flags, mode_flags, none_unknown known,
        none_unknown fun word mem => known word ((same word).1 mem), ModeFlags.withWords_congr same]
    refine ⟨reordered, fun other joinedOthers => ?_⟩
    rw [← reordered]
    exact mode_expression (fun word mem => plain word ((same word).1 mem)) joinedOthers

/-- Two flags, spelled in different ways, with two separators between them. -/
theorem mode_eq_of_joined_fromModel :
    (∀ word ∈ ["InferModeFromModel", "non-nullable"],
        Text.IsPlain ModeFlags.isSeparator word.toList)
      ∧ Text.Joined ModeFlags.isSeparator
        (["InferModeFromModel", "non-nullable"].map String.toList)
        "InferModeFromModel&\tnon-nullable".toList
      ∧ (expression "InferModeFromModel&\tnon-nullable").mode = .ok ⟨.never, .declared⟩
      ∧ (flags ["non-nullable", "InferModeFromModel", "non-nullable"]).mode
        = .ok ⟨.never, .declared⟩ := by
  have plain : ∀ word ∈ ["InferModeFromModel", "non-nullable"],
      Text.IsPlain ModeFlags.isSeparator word.toList := by
    decide +kernel
  have joined : Text.Joined ModeFlags.isSeparator
      (["InferModeFromModel", "non-nullable"].map String.toList)
      "InferModeFromModel&\tnon-nullable".toList :=
    @Text.Joined.more _ _ _ ['&', '\t'] _ _ (by decide) (List.all_eq_true.1 rfl) (.one _)
  obtain ⟨agree, _, reordered⟩ := mode_eq_of_joined plain joined
  have means : (flags ["InferModeFromModel", "non-nullable"]).mode = .ok ⟨.never, .declared⟩ :=
    rfl
  have again :=
    (reordered (by decide +kernel) ["non-nullable", "InferModeFromModel", "non-nullable"]
      (by simp)).1
  exact ⟨plain, joined, agree.trans means, again.trans means⟩

end WrittenMode

end ModelForms
