import Mathlib.Data.List.Induction
import ModelForms.Diagnostic
import ModelForms.Proofs.Json.Pointers
import ModelForms.Proofs.Text.Cutting
import ModelForms.Proofs.Text.Replacing

/-!
# Filling in arguments

The arguments of a message are filled in one after the other, each into the whole text that the
previous ones have left.  Filling them in at once reads the template as characters and slots
(`Diagnostic.parts`) and puts each argument into its slots (`Diagnostic.substitute`).

The two agree if no argument brings in a placeholder of a later one
(`Diagnostic.AddsNoSlot.fill_eq`).  A placeholder may come from an argument, and it may arise where
an argument and its surroundings meet.  In either case some argument is not filled in as if all had been at once
(`Diagnostic.addsNoSlot_of_fill_eq`).
-/

namespace ModelForms.Diagnostic

open Text

/-! ## Slots -/

/-- A template is made of characters and of slots for arguments. -/
inductive Part where
  | char (c : Char)
  | slot (index : Nat)
deriving DecidableEq

/-- A part as it is written. -/
def Part.text : Part → List Char
  | .char c => [c]
  | .slot index => placeholder index

/-- A part with an argument in its slot, if there is one. -/
def Part.filled (args : List String) : Part → List Char
  | .char c => [c]
  | .slot index => (args[index]?.map String.toList).getD (placeholder index)

/-- The index in the placeholder that a text starts with. -/
def leading? : List Char → Option Nat
  | '\x7b' :: rest =>
      (natOfDigits? (rest.takeWhile Char.isDigit)).filter fun index =>
        (placeholder index).isPrefixOf ('\x7b' :: rest)
  | _ => none

/-- The parts of a text.  `skip` counts the characters of the current placeholder still to drop. -/
def partsFrom : (skip : Nat) → List Char → List Part
  | _, [] => []
  | skip + 1, _ :: rest => partsFrom skip rest
  | 0, c :: rest =>
      match leading? (c :: rest) with
      | some index => .slot index :: partsFrom ((placeholder index).length - 1) rest
      | none => .char c :: partsFrom 0 rest
termination_by structural _ text => text

/-- The parts of a text. -/
def parts (text : List Char) : List Part := partsFrom 0 text

/-- A template with all of its slots filled at once. -/
def substitute (template : String) (args : List String) : String :=
  String.ofList ((parts template.toList).flatMap (Part.filled args))

variable {text front rest : List Char} {index other : Nat} {c : Char} {template : String}
  {args : List String}

/-! ## Reading slots -/

/-- A brace opens a placeholder and does not come again in it. -/
theorem brace_notMem (index : Nat) : '\x7b' ∉ Nat.toDigits 10 index ++ ['\x7d'] := by
  intro mem
  rcases List.mem_append.1 mem with digit | last
  · have := Nat.isDigit_of_mem_toDigits (by omega) (by omega) digit
    revert this
    decide
  · revert last
    decide

theorem placeholder_ne_nil : placeholder index ≠ [] := List.cons_ne_nil _ _

/-- A text starts with the placeholder of at most one index, the one that is read. -/
theorem leading?_eq_some_iff : leading? text = some index ↔ placeholder index <+: text := by
  constructor
  · intro starts
    unfold leading? at starts
    split at starts
    next => exact List.isPrefixOf_iff_prefix.1 (Option.filter_eq_some_iff.1 starts).2
    next => cases starts
  · rintro ⟨rest, rfl⟩
    have digits : ∀ c ∈ Nat.toDigits 10 index, c.isDigit = true :=
      fun c mem => Nat.isDigit_of_mem_toDigits (by omega) (by omega) mem
    have read : (Nat.toDigits 10 index ++ ['\x7d'] ++ rest).takeWhile Char.isDigit
        = Nat.toDigits 10 index := by
      rw [List.append_assoc, List.takeWhile_append_of_pos digits, List.singleton_append,
        List.takeWhile_cons_of_neg (by decide), List.append_nil]
    show Option.filter _
      (natOfDigits? ((Nat.toDigits 10 index ++ ['\x7d'] ++ rest).takeWhile _)) = some index
    rw [read, natOfDigits?_toDigits, Option.filter_eq_some_iff]
    exact ⟨rfl, List.isPrefixOf_iff_prefix.2 (List.prefix_append (placeholder index) rest)⟩

theorem leading?_eq_none_iff :
    leading? text = none ↔ ∀ index, ¬ placeholder index <+: text := by
  rw [Option.eq_none_iff_forall_ne_some]
  exact forall_congr' fun _ => not_congr leading?_eq_some_iff

theorem partsFrom_drop {skip : Nat} : partsFrom skip text = parts (text.drop skip) := by
  induction text generalizing skip with
  | nil => cases skip <;> rfl
  | cons c rest ih =>
    cases skip with
    | zero => rfl
    | succ skip => exact ih

theorem parts_placeholder_append :
    parts (placeholder index ++ rest) = .slot index :: parts rest := by
  have starts : leading? (placeholder index ++ rest) = some index :=
    leading?_eq_some_iff.2 (List.prefix_append _ _)
  unfold parts placeholder
  rw [List.cons_append, partsFrom]
  rw [placeholder, List.cons_append] at starts
  rw [starts]
  simp only [partsFrom_drop, placeholder, List.length_cons, Nat.add_sub_cancel, List.drop_left]
  rfl

theorem parts_placeholder (index : Nat) : parts (placeholder index) = [.slot index] := by
  have whole : parts (placeholder index ++ []) = [.slot index] := parts_placeholder_append
  rwa [List.append_nil] at whole

theorem parts_cons (plain : leading? (c :: rest) = none) :
    parts (c :: rest) = .char c :: parts rest := by
  rw [parts, partsFrom, plain]
  rfl

/-- A text is empty, starts with a placeholder, or starts with a character that opens none. -/
@[elab_as_elim]
theorem text_induction {motive : List Char → Prop} (nil : motive [])
    (slot : ∀ index rest, motive rest → motive (placeholder index ++ rest))
    (char : ∀ c rest, leading? (c :: rest) = none → motive rest → motive (c :: rest))
    (text : List Char) : motive text := by
  match text with
  | [] => exact nil
  | c :: rest =>
    cases starts : leading? (c :: rest) with
    | none => exact char c rest starts (text_induction nil slot char rest)
    | some index =>
      obtain ⟨after, same⟩ := leading?_eq_some_iff.1 starts
      have shorter : after.length < (c :: rest).length := by
        rw [← same, List.length_append]
        exact Nat.lt_add_of_pos_left (Nat.succ_pos _)
      exact same ▸ slot index after (text_induction nil slot char after)
termination_by text.length
decreasing_by
  · exact Nat.lt_succ_self rest.length
  · exact shorter

/-- The parts of a text make up the text. -/
theorem flatMap_text_parts (text : List Char) : (parts text).flatMap Part.text = text := by
  induction text using text_induction with
  | nil => rfl
  | slot index rest ih => rw [parts_placeholder_append, List.flatMap_cons, ih, Part.text]
  | char c rest plain ih => rw [parts_cons plain, List.flatMap_cons, ih]; rfl

/-- A placeholder occurs in a text as often as the slot is a part of it. -/
theorem occurrences_placeholder (index : Nat) (text : List Char) :
    occurrences (placeholder index) text = (parts text).count (.slot index) := by
  induction text using text_induction with
  | nil => rfl
  | slot other rest ih =>
    rw [parts_placeholder_append]
    by_cases same : other = index
    · subst same
      rw [List.count_cons_self, ← ih, Nat.add_comm]
      exact occurrences_self_append (brace_notMem other)
    · have notHere : ¬ placeholder index <+: placeholder other ++ rest := fun occurs =>
        same (Option.some_inj.1 ((leading?_eq_some_iff.2 (List.prefix_append _ _)).symm.trans
          (leading?_eq_some_iff.2 occurs)))
      rw [List.count_cons_of_ne (by simpa using same), ← ih]
      exact (occurrences_cons_of_absent notHere).trans
        (occurrences_append_of_notMem (brace_notMem other))
  | char c rest plain ih =>
    rw [parts_cons plain, List.count_cons_of_ne (by simp), ← ih]
    exact occurrences_cons_of_absent (leading?_eq_none_iff.1 plain index)

theorem occurrences_placeholder_self : occurrences (placeholder index) (placeholder index) = 1 := by
  rw [occurrences_placeholder, parts_placeholder, List.count_singleton_self]

theorem occurrences_placeholder_of_ne (differ : other ≠ index) :
    occurrences (placeholder index) (placeholder other) = 0 := by
  rw [occurrences_placeholder, parts_placeholder, List.count_cons_of_ne (by simpa using differ)]
  rfl

/-- A placeholder is replaced in each of its slots. -/
theorem replaceAll_placeholder (replacement text : List Char) :
    replaceAll (placeholder index) replacement text
      = (parts text).flatMap fun part =>
          if part = .slot index then replacement else part.text := by
  induction text using text_induction with
  | nil => rfl
  | slot other rest ih =>
    rw [parts_placeholder_append, List.flatMap_cons, ← ih]
    by_cases same : other = index
    · subst same
      rw [if_pos rfl]
      exact replaceAll_self_append placeholder_ne_nil
    · have absent := occurrences_placeholder_of_ne same
      have apart : occurrences (placeholder index) (placeholder other ++ rest)
          = occurrences (placeholder index) (placeholder other)
            + occurrences (placeholder index) rest := by
        rw [absent, occurrences_placeholder, parts_placeholder_append,
          List.count_cons_of_ne (by simpa using same), Nat.zero_add, occurrences_placeholder]
      rw [replaceAll_append apart, replaceAll_of_occurrences_eq_zero absent,
        if_neg (by simpa using same)]
      rfl
  | char c rest plain ih =>
    rw [parts_cons plain, List.flatMap_cons, ← ih, if_neg (by simp),
      replaceAll_cons_of_absent (leading?_eq_none_iff.1 plain index)]
    rfl

theorem replaceAll_placeholder_self {replacement : List Char} :
    replaceAll (placeholder index) replacement (placeholder index) = replacement := by
  rw [replaceAll_placeholder, parts_placeholder, List.flatMap_singleton, if_pos rfl]

/-! ## One argument after the other -/

theorem Part.filled_nil : Part.filled [] = Part.text := by
  funext part
  cases part <;> rfl

/-- The next argument goes into its own slot. -/
theorem Part.filled_concat (part : Part) (arg : String) :
    part.filled (args ++ [arg])
      = if part = .slot args.length then arg.toList else part.filled args := by
  cases part with
  | char c => rfl
  | slot index =>
    rw [filled, filled]
    rcases Nat.lt_trichotomy index args.length with below | rfl | above
    · rw [List.getElem?_append_left below, if_neg (by simpa using Nat.ne_of_lt below)]
    · rw [List.getElem?_concat_length, if_pos rfl]
      rfl
    · rw [if_neg (by simpa using Nat.ne_of_gt above), List.getElem?_eq_none (Nat.le_of_lt above),
        List.getElem?_eq_none (by rw [List.length_append]; exact above)]

theorem Part.filled_slot_length :
    (Part.slot args.length).filled args = placeholder args.length := by
  rw [filled, List.getElem?_eq_none (Nat.le_refl _)]
  rfl

/-- A slot that there is no argument for stays when the others are filled. -/
theorem count_le_occurrences (template : List Part) :
    template.count (.slot args.length)
      ≤ occurrences (placeholder args.length) (template.flatMap (Part.filled args)) := by
  induction template with
  | nil => exact Nat.zero_le _
  | cons part rest ih =>
    have parted := occurrences_add_le (placeholder args.length) (part.filled args)
      (rest.flatMap (Part.filled args))
    rw [List.flatMap_cons]
    by_cases is : part = .slot args.length
    · subst is
      rw [Part.filled_slot_length, occurrences_placeholder_self] at parted
      rw [Part.filled_slot_length, List.count_cons_self]
      omega
    · rw [List.count_cons_of_ne is]
      omega

/-- If no other occurrence of its placeholder is there, the next argument is filled in as if it had
been at once. -/
theorem replaceAll_filled (template : List Part) (arg : String)
    (alone : occurrences (placeholder args.length) (template.flatMap (Part.filled args))
      = template.count (.slot args.length)) :
    replaceAll (placeholder args.length) arg.toList (template.flatMap (Part.filled args))
      = template.flatMap (Part.filled (args ++ [arg])) := by
  induction template with
  | nil => rfl
  | cons part rest ih =>
    have parted := occurrences_add_le (placeholder args.length) (part.filled args)
      (rest.flatMap (Part.filled args))
    have least := @count_le_occurrences args rest
    rw [List.flatMap_cons] at alone ⊢
    rw [List.flatMap_cons, Part.filled_concat]
    by_cases is : part = .slot args.length
    · subst is
      rw [Part.filled_slot_length] at alone parted ⊢
      rw [occurrences_placeholder_self] at parted
      rw [List.count_cons_self] at alone
      rw [replaceAll_self_append placeholder_ne_nil, ih (by omega), if_pos rfl]
    · -- What this part is filled with has no occurrence, and none lies across its end, as the slots
      -- of the rest account for all that there are.
      rw [List.count_cons_of_ne is] at alone
      rw [replaceAll_append (by omega), ih (by omega), if_neg is,
        replaceAll_of_occurrences_eq_zero (by omega)]

theorem fillFrom_concat (start : Nat) (args : List String) (arg : String) (text : List Char) :
    fillFrom start (args ++ [arg]) text
      = replaceAll (placeholder (start + args.length)) arg.toList (fillFrom start args text) := by
  induction args generalizing start text with
  | nil => rfl
  | cons first rest ih =>
    rw [List.cons_append, fillFrom, ih, fillFrom, List.length_cons, Nat.add_right_comm,
      Nat.add_assoc]

theorem toList_fill_concat (template : String) (args : List String) (arg : String) :
    (fill template (args ++ [arg])).toList
      = replaceAll (placeholder args.length) arg.toList (fill template args).toList := by
  rw [fill, String.toList_ofList, fillFrom_concat, Nat.zero_add, fill, String.toList_ofList]

theorem toList_substitute (template : String) (args : List String) :
    (substitute template args).toList = (parts template.toList).flatMap (Part.filled args) :=
  String.toList_ofList

theorem fill_nil (template : String) : fill template [] = template := String.ofList_toList

theorem substitute_nil (template : String) : substitute template [] = template := by
  rw [substitute, Part.filled_nil, flatMap_text_parts, String.ofList_toList]

/-- When the arguments before an index are filled in, the placeholder of the index occurs no more
often than it does in the template. -/
def AddsNoSlotAt (template : String) (args : List String) (index : Nat) : Prop :=
  occurrences (placeholder index) (substitute template (args.take index)).toList
    = occurrences (placeholder index) template.toList

/-- No argument brings in a placeholder of a later one. -/
def AddsNoSlot (template : String) (args : List String) : Prop :=
  ∀ index < args.length, AddsNoSlotAt template args index

theorem addsNoSlot_concat_iff {arg : String} :
    AddsNoSlot template (args ++ [arg]) ↔ AddsNoSlot template args
      ∧ occurrences (placeholder args.length) (substitute template args).toList
        = occurrences (placeholder args.length) template.toList := by
  have before {index : Nat} (below : index < args.length) :
      AddsNoSlotAt template (args ++ [arg]) index ↔ AddsNoSlotAt template args index := by
    rw [AddsNoSlotAt, List.take_append_of_le_length (Nat.le_of_lt below), AddsNoSlotAt]
  have last : AddsNoSlotAt template (args ++ [arg]) args.length
      ↔ occurrences (placeholder args.length) (substitute template args).toList
        = occurrences (placeholder args.length) template.toList := by
    rw [AddsNoSlotAt, List.take_left]
  have length : (args ++ [arg]).length = args.length + 1 := List.length_append
  rw [← last]
  constructor
  · intro adds
    exact ⟨fun index below => (before below).1 (adds index (by omega)), adds _ (by omega)⟩
  · rintro ⟨adds, addsLast⟩ index below
    rcases Nat.lt_or_eq_of_le (Nat.le_of_lt_succ (length ▸ below)) with below | rfl
    · exact (before below).2 (adds index below)
    · exact addsLast

/-- If no argument brings in a placeholder of a later one, filling the arguments in one after the
other is the same as filling them in at once. -/
theorem AddsNoSlot.fill_eq (adds : AddsNoSlot template args) :
    fill template args = substitute template args := by
  induction args using List.reverseRecOn with
  | nil => rw [fill_nil, substitute_nil]
  | append_singleton args arg ih =>
    obtain ⟨adds, addsLast⟩ := addsNoSlot_concat_iff.1 adds
    rw [← String.toList_inj, toList_fill_concat, ih adds, toList_substitute, toList_substitute]
    refine replaceAll_filled _ arg ?_
    rw [← toList_substitute, addsLast, occurrences_placeholder]

/-! ## Arguments that bring in placeholders -/

/-- A slot that is emptied makes a text shorter by its placeholder. -/
theorem length_flatMap_emptied {emptied kept : Part → List Char}
    (empties : ∀ part, emptied part = if part = .slot index then [] else kept part)
    (keeps : kept (.slot index) = placeholder index) (template : List Part) :
    (template.flatMap emptied).length + template.count (.slot index) * (placeholder index).length
      = (template.flatMap kept).length := by
  induction template with
  | nil => simp
  | cons part rest ih =>
    rw [List.flatMap_cons, List.flatMap_cons, List.length_append, List.length_append, ← ih,
      empties part]
    by_cases is : part = .slot index
    · subst is
      rw [if_pos rfl, keeps, List.count_cons_self, Nat.succ_mul, List.length_nil]
      omega
    · rw [if_neg is, List.count_cons_of_ne is]
      omega

/-- If the empty text can be filled in as the next argument, its placeholder occurs no more often
than in the template. -/
theorem occurrences_eq_of_fill_eq (same : fill template args = substitute template args)
    (next : fill template (args ++ [""]) = substitute template (args ++ [""])) :
    occurrences (placeholder args.length) (substitute template args).toList
      = occurrences (placeholder args.length) template.toList := by
  -- Both sides of `next` are shorter than the text so far, one by its placeholders and the other by
  -- the slots of the template.
  have lengths := congrArg (fun text => text.toList.length) next
  simp only [toList_fill_concat, same, toList_substitute template (args ++ [""])] at lengths
  rw [replaceAll_placeholder] at lengths
  have whole := @length_flatMap_emptied args.length _ Part.text (fun _ => rfl) rfl
    (parts (substitute template args).toList)
  have whole' := @length_flatMap_emptied args.length (Part.filled (args ++ [""]))
    (Part.filled args) (fun part => part.filled_concat "") Part.filled_slot_length
    (parts template.toList)
  rw [flatMap_text_parts] at whole
  rw [← toList_substitute template args] at whole'
  rw [occurrences_placeholder, occurrences_placeholder]
  have inhabited : 0 < (placeholder args.length).length := Nat.succ_pos _
  refine Nat.eq_of_mul_eq_mul_right inhabited ?_
  simp only [String.toList_empty] at lengths whole whole'
  omega

/-- If each argument could be any text and would be filled in as if it had been at once, no argument
brings in a placeholder of a later one. -/
theorem addsNoSlot_of_fill_eq
    (same : ∀ index < args.length, ∀ text,
      fill template (args.take index ++ [text]) = substitute template (args.take index ++ [text])) :
    AddsNoSlot template args := by
  induction args using List.reverseRecOn with
  | nil => exact fun _ below => absurd below (Nat.not_lt_zero _)
  | append_singleton args arg ih =>
    have adds : AddsNoSlot template args := by
      refine ih fun index below text => ?_
      have at' := same index (by rw [List.length_append]; exact Nat.lt_succ_of_lt below) text
      rwa [List.take_append_of_le_length (Nat.le_of_lt below)] at at'
    have next := same args.length (by rw [List.length_append]; exact Nat.lt_succ_self _) ""
    rw [List.take_left] at next
    exact addsNoSlot_concat_iff.2 ⟨adds, occurrences_eq_of_fill_eq adds.fill_eq next⟩

end ModelForms.Diagnostic
