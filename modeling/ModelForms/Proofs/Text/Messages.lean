import ModelForms.Proofs.Text.Filling

/-!
# Messages of diagnostics

In the templates of the codes there is something around each slot that keeps it apart
(`Diagnostic.Fenced`).  So when the arguments are filled in one after the other, a placeholder can
only come from inside an argument, and the message is the template with all slots filled at once,
each argument with the later ones filled into it (`Diagnostic.message_ofCode`).
-/

namespace ModelForms.Diagnostic

open Text

variable {text front rest : List Char} {start : Nat} {c : Char} {template : String}
  {args : List String}

/-! ## Fenced slots -/

/-- A character that is in no placeholder. -/
def isFence (c : Char) : Bool := c != '\x7b' && c != '\x7d' && !c.isDigit

/-- Between the characters that are in no placeholder there are single placeholders and nothing
else. -/
def Fenced (text : List Char) : Prop :=
  ∀ piece ∈ pieces isFence text, piece = [] ∨ ∃ index, piece = placeholder index

theorem notMem_placeholder (fence : isFence c = true) (index : Nat) : c ∉ placeholder index := by
  simp only [isFence, Bool.and_eq_true, bne_iff_ne, Bool.not_eq_true'] at fence
  obtain ⟨⟨noOpening, noClosing⟩, noDigit⟩ := fence
  intro mem
  rcases List.mem_cons.1 mem with same | mem
  · exact noOpening same
  · rcases List.mem_append.1 mem with digit | last
    · have := Nat.isDigit_of_mem_toDigits (by omega) (by omega) digit
      rw [noDigit] at this
      cases this
    · exact noClosing (List.mem_singleton.1 last)

/-- Filling in never reaches across a fence. -/
theorem fillFrom_append_cons (fence : isFence c = true) :
    fillFrom start args (front ++ c :: rest)
      = fillFrom start args front ++ c :: fillFrom start args rest := by
  induction args generalizing start front rest with
  | nil => rfl
  | cons arg later ih =>
    rw [fillFrom, replaceAll_append_cons (notMem_placeholder fence start) placeholder_ne_nil, ih]
    rfl

theorem leading?_append_cons (fence : isFence c = true) :
    leading? (front ++ c :: rest) = leading? front := by
  ext index
  rw [leading?_eq_some_iff, leading?_eq_some_iff,
    prefix_append_cons_iff (notMem_placeholder fence index)]

/-- A fence is a part of its own. -/
theorem parts_append_cons (fence : isFence c = true) :
    parts (front ++ c :: rest) = parts front ++ .char c :: parts rest := by
  induction front using text_induction with
  | nil =>
    have plain : leading? (c :: rest) = none := @leading?_append_cons [] rest c fence
    exact parts_cons plain
  | slot index front ih =>
    rw [List.append_assoc, parts_placeholder_append, ih, parts_placeholder_append, List.cons_append]
  | char d front plain ih =>
    have plain' : leading? (d :: (front ++ c :: rest)) = none :=
      (@leading?_append_cons (d :: front) rest c fence).trans plain
    rw [List.cons_append, parts_cons plain', ih, parts_cons plain, List.cons_append]

theorem fillFrom_nil (start : Nat) (args : List String) : fillFrom start args [] = [] := by
  induction args generalizing start with
  | nil => rfl
  | cons arg later ih => exact ih (start + 1)

/-- In a placeholder of its own, an argument is filled in with the later ones filled into it. -/
theorem fillFrom_placeholder (start offset : Nat) (args : List String) :
    fillFrom start args (placeholder (start + offset))
      = (args[offset]?.map fun arg =>
          fillFrom (start + offset + 1) (args.drop (offset + 1)) arg.toList).getD
        (placeholder (start + offset)) := by
  induction args generalizing start offset with
  | nil => rfl
  | cons arg later ih =>
    rw [fillFrom]
    cases offset with
    | zero =>
      show fillFrom (start + 1) later (replaceAll _ _ (placeholder start)) = _
      rw [replaceAll_placeholder_self]
      rfl
    | succ offset =>
      have absent : occurrences (placeholder start) (placeholder (start + (offset + 1))) = 0 :=
        occurrences_placeholder_of_ne (by omega)
      rw [replaceAll_of_occurrences_eq_zero absent, ← Nat.add_assoc, Nat.add_right_comm, ih]
      rfl

/-- Each argument with the later ones filled into it. -/
def refilled (args : List String) : List String :=
  args.mapIdx fun index arg =>
    String.ofList (fillFrom (index + 1) (args.drop (index + 1)) arg.toList)

/-- A text without the placeholders of the arguments stays as it is. -/
theorem fillFrom_of_absent
    (absent : ∀ offset < args.length, occurrences (placeholder (start + offset)) text = 0) :
    fillFrom start args text = text := by
  induction args generalizing start with
  | nil => rfl
  | cons arg later ih =>
    have first : occurrences (placeholder start) text = 0 := absent 0 (Nat.succ_pos _)
    rw [fillFrom, replaceAll_of_occurrences_eq_zero first]
    refine ih fun offset below => ?_
    rw [Nat.add_assoc, Nat.add_comm 1]
    exact absent (offset + 1) (Nat.succ_lt_succ below)

/-- Arguments without placeholders of later ones stay as they are. -/
theorem refilled_of_absent
    (absent : ∀ index (below : index < args.length), ∀ later < args.length, index < later →
      occurrences (placeholder later) args[index].toList = 0) :
    refilled args = args := by
  unfold refilled
  refine List.ext_getElem List.length_mapIdx fun index _ below => ?_
  have kept : fillFrom (index + 1) (args.drop (index + 1)) args[index].toList
      = args[index].toList := by
    refine fillFrom_of_absent fun offset within => absent index below _ ?_ (by omega)
    rw [List.length_drop] at within
    omega
  rw [List.getElem_mapIdx, kept, String.ofList_toList]

theorem filled_refilled (index : Nat) :
    (Part.slot index).filled (refilled args) = fillFrom 0 args (placeholder index) := by
  have direct := fillFrom_placeholder 0 index args
  rw [Nat.zero_add] at direct
  rw [Part.filled, refilled, List.getElem?_mapIdx, Option.map_map, direct]
  congr 2
  funext arg
  exact String.toList_ofList

/-- A template with fences around its slots is filled as if all arguments had been filled in at
once, each with the later ones filled into it. -/
theorem Fenced.fill_eq (fenced : Fenced text) (args : List String) :
    fillFrom 0 args text = (parts text).flatMap (Part.filled (refilled args)) := by
  have single {piece : List Char} (is : piece = [] ∨ ∃ index, piece = placeholder index) :
      fillFrom 0 args piece = (parts piece).flatMap (Part.filled (refilled args)) := by
    rcases is with rfl | ⟨index, rfl⟩
    · exact fillFrom_nil 0 args
    · rw [parts_placeholder, List.flatMap_singleton, filled_refilled]
  induction text using pieces_induction isFence with
  | plain text noFence =>
    exact single (fenced text (by rw [pieces_of_plain noFence]; exact List.mem_singleton_self text))
  | cut front c rest noFence fence ih =>
    rw [Fenced, pieces_append_cons noFence fence] at fenced
    obtain ⟨first, others⟩ := List.forall_mem_cons.1 fenced
    rw [fillFrom_append_cons fence, parts_append_cons fence, List.flatMap_append,
      List.flatMap_cons, single first, ih others]
    rfl

/-! ## Codes -/

/-- For few indexes it can be decided whether the slots of a text are fenced. -/
theorem fenced_of_lt (bound : Nat)
    (few : ∀ piece ∈ pieces isFence text, piece = [] ∨ ∃ index < bound, piece = placeholder index) :
    Fenced text :=
  fun piece mem => (few piece mem).imp_right fun ⟨index, _, is⟩ => ⟨index, is⟩

theorem fenced_template (topic : Topic) : Fenced topic.template.toList := by
  refine fenced_of_lt 3 ?_
  cases topic <;> decide +kernel

/-- A code without a template shows its first argument. -/
theorem fenced_default : Fenced "\x7b0\x7d".toList :=
  fenced_of_lt 1 (by decide +kernel)

/-- The message of a code is its template with each slot filled by an argument into which the later
ones are filled. -/
theorem message_ofCode (location : String) (code : Nat) (args : List String) :
    (ofCode location code args).message
      = substitute ((template? code).getD "\x7b0\x7d") (refilled args) := by
  have fenced : Fenced ((template? code).getD "\x7b0\x7d").toList := by
    cases known : template? code with
    | none => exact fenced_default
    | some template =>
      obtain ⟨topic, _, rfl⟩ := Option.map_eq_some_iff.1 known
      exact fenced_template topic
  exact congrArg String.ofList (fenced.fill_eq args)

/-! ## Arguments as they are -/

instance : Decidable (AddsNoSlot template args) :=
  inferInstanceAs (Decidable (∀ index < args.length, _ = _))

/-- Filling the arguments in one after the other is filling them in at once if no argument brings in
a placeholder of a later one, and if it is so whatever the next argument is, then none does.  A
diagnostic of a code shows each argument with the later ones filled into it, so it shows them as
they are if they have no placeholders of later ones. -/
theorem fill_args (template : String) (args : List String) :
    (AddsNoSlot template args → fill template args = substitute template args)
      ∧ ((∀ index < args.length, ∀ text, fill template (args.take index ++ [text])
          = substitute template (args.take index ++ [text])) → AddsNoSlot template args)
      ∧ (∀ location code, (ofCode location code args).message
          = substitute ((template? code).getD "\x7b0\x7d") (refilled args))
      ∧ ((∀ index (below : index < args.length), ∀ later < args.length, index < later →
          occurrences (placeholder later) args[index].toList = 0) → refilled args = args) :=
  ⟨AddsNoSlot.fill_eq, addsNoSlot_of_fill_eq,
    fun location code => message_ofCode location code args, refilled_of_absent⟩

/-- An argument may have its own placeholder. -/
theorem fill_args_own :
    AddsNoSlot "Invalid type expression '\x7b0\x7d': \x7b1\x7d." ["\x7b0\x7d", "unexpected brace"]
      ∧ fill "Invalid type expression '\x7b0\x7d': \x7b1\x7d." ["\x7b0\x7d", "unexpected brace"]
        = "Invalid type expression '\x7b0\x7d': unexpected brace." := by
  have adds : AddsNoSlot "Invalid type expression '\x7b0\x7d': \x7b1\x7d."
      ["\x7b0\x7d", "unexpected brace"] := by decide +kernel
  exact ⟨adds, ((fill_args _ _).1 adds).trans (by decide +kernel)⟩

/-- An argument with the placeholder of a later one is not shown as it is, whether the template is
that of a code or another one. -/
theorem not_forall_fill_eq_substitute :
    (¬ ∀ (template : String) (args : List String),
        fill template args = substitute template args)
      ∧ ¬ ∀ (location : String) (code : Nat) (args : List String),
        (ofCode location code args).message
          = substitute ((template? code).getD "\x7b0\x7d") args := by
  constructor
  · intro all
    exact absurd (all "\x7b0\x7d \x7b1\x7d" ["\x7b1\x7d", "z"]) (by decide +kernel)
  · intro all
    exact absurd (all "" Topic.invalidTypeExpression.code ["\x7b1\x7d", "z"]) (by decide +kernel)

end ModelForms.Diagnostic
