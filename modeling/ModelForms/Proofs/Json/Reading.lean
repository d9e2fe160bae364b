import ModelForms.Document.Basic
import ModelForms.Proofs.Json.Pointers

/-!
# What is read

`Reader.Reads` says what holds of everything that a reader gives.  A value that is read has no object
with two members of one name, since the last of them counts and takes the place of the first
(`Json.distinct_of_parse`).  The same holds of a document (`Document.distinct_of_parse`), whose
fields are read one after the other.
-/

namespace ModelForms

namespace Reader

variable {α β : Type} {good : α → Prop}

/-- Everything that a reader gives is good. -/
def Reads (reader : Reader α) (good : α → Prop) : Prop :=
  ∀ text result rest, reader.run text = .ok (result, rest) → good result

theorem reads_pure {a : α} (h : good a) : Reads (pure a) good := by
  intro text result rest run
  cases run
  exact h

theorem reads_throw {error : JsonError} : Reads (throw error : Reader α) good := by
  intro text result rest run
  cases run

theorem Reads.bind {reader : Reader β} {next : β → Reader α} {first : β → Prop}
    (h : Reads reader first) (h' : ∀ b, first b → Reads (next b) good) :
    Reads (reader >>= next) good := by
  intro text result rest run
  rw [StateT.run_bind] at run
  cases gives : reader.run text with
  | error error =>
    rw [gives] at run
    cases run
  | ok pair =>
    rw [gives] at run
    exact h' pair.1 (h text pair.1 pair.2 gives) pair.2 result rest run

/-- What comes first does not matter. -/
theorem Reads.after {reader : Reader β} {next : β → Reader α} (h : ∀ b, Reads (next b) good) :
    Reads (reader >>= next) good :=
  have first : Reads reader fun _ => True := fun _ _ _ _ => trivial
  first.bind fun b _ => h b

theorem reads_throw_bind {error : JsonError} {next : β → Reader α} :
    Reads (throw error >>= next) good :=
  have first : Reads (throw error : Reader β) fun _ => False := reads_throw
  first.bind fun _ h => h.elim

/-! ## Values -/

theorem reads_elements {element : Reader α} (h : Reads element good) :
    ∀ (fuel : Nat) (first : Bool),
      Reads (elements element fuel first) fun items => ∀ item ∈ items, good item
  | 0, _ => reads_throw
  | fuel + 1, first => by
    refine .after fun more => ?_
    cases more with
    | false => exact reads_pure (by simp)
    | true =>
      exact h.bind fun x is => (reads_elements h fuel false).bind fun items are =>
        reads_pure (List.forall_mem_cons.2 ⟨is, are⟩)

theorem reads_members {value : Reader α} (h : Reads value good) :
    ∀ (fuel : Nat) (first : Bool),
      Reads (members value fuel first) fun pairs => ∀ pair ∈ pairs, good pair.2
  | 0, _ => reads_throw
  | fuel + 1, first => by
    refine .after fun more => ?_
    cases more with
    | false => exact reads_pure (by simp)
    | true =>
      exact .after fun name => .after fun _ => h.bind fun x is =>
        (reads_members h fuel false).bind fun pairs are =>
          reads_pure (List.forall_mem_cons.2 ⟨is, are⟩)

theorem reads_list {element : Reader α} (h : Reads element good) :
    Reads (list element) fun items => ∀ item ∈ items, good item :=
  .after fun _ => (reads_elements h _ true).bind fun _ are => .after fun _ => reads_pure are

/-- A key that comes again takes the place of the one before. -/
theorem reads_map {value : Reader α} (h : Reads value good) :
    Reads (map value) fun entries => entries.keys.Nodup ∧ ∀ entry ∈ entries, good entry.2 :=
  .after fun _ => (reads_members h _ true).bind fun pairs are => .after fun _ =>
    reads_pure ⟨Entries.nodup_keys_collect pairs,
      fun entry mem => are entry (Entries.mem_of_mem_collect mem)⟩

theorem reads_valueWith {array object : Reader Json} (h : Reads array Json.Distinct)
    (h' : Reads object Json.Distinct) : Reads (valueWith array object) Json.Distinct := by
  refine .after fun next => ?_
  split
  next => exact reads_throw
  next => exact .after fun _ => .after fun _ => reads_pure .null
  next => exact .after fun _ => .after fun _ => reads_pure (.bool true)
  next => exact .after fun _ => .after fun _ => reads_pure (.bool false)
  next => exact .after fun _ => .after fun text => reads_pure (.string text)
  next => exact h
  next => exact h'
  next => exact .after fun _ => .after fun n => reads_pure (.number n)
  next =>
    split
    · exact .after fun n => reads_pure (.number n)
    · exact reads_throw

theorem reads_value : ∀ levels : Nat, Reads (value levels) Json.Distinct
  | 0 => reads_valueWith reads_throw reads_throw
  | levels + 1 =>
    reads_valueWith
      (.after fun _ => (reads_list (reads_value levels)).bind fun _ are => reads_pure (.array are))
      (.after fun _ => (reads_map (reads_value levels)).bind fun _ are =>
        reads_pure (.object are.1 are.2))

theorem reads_optional {reader : Reader α} (h : Reads reader good) :
    Reads (optional reader) fun found => ∀ a ∈ found, good a := by
  refine .after fun next => ?_
  split
  next => exact .after fun _ => .after fun _ => reads_pure (by simp)
  next => exact h.bind fun a is => reads_pure (by simpa using is)

/-- A value of another kind than the one expected is never read. -/
theorem reads_wrongKind {expected : String} : Reads (wrongKind expected : Reader α) good := by
  refine .after fun next => ?_
  split
  next => exact .after fun _ => .after fun _ => reads_throw
  next => exact .after fun _ => .after fun _ => reads_throw
  next => exact .after fun _ => .after fun _ => reads_throw
  next => exact .after fun _ => .after fun _ => reads_throw
  next => exact reads_throw
  next => exact reads_throw
  next => exact .after fun _ => .after fun _ => reads_throw
  next =>
    split
    · exact .after fun _ => reads_throw
    · exact reads_throw
  next => exact reads_throw

theorem reads_valueMap (levels : Nat) :
    Reads (valueMap levels) fun entries =>
      entries.keys.Nodup ∧ ∀ entry ∈ entries, entry.2.Distinct := by
  refine .after fun next => ?_
  split
  next => exact reads_throw
  next => exact .after fun _ => reads_map (reads_value levels)
  next => exact reads_wrongKind

theorem of_whole {reader : Reader α} (h : Reads reader good) {text : String} {result : α}
    (run : whole reader text = .ok result) : good result := by
  unfold whole at run
  cases gives : reader.run text.toList with
  | error error =>
    rw [gives] at run
    cases run
  | ok pair =>
    rw [gives] at run
    obtain ⟨read, rest⟩ := pair
    change (if _ then _ else _) = _ at run
    split at run
    · cases run
      exact h _ _ _ gives
    · cases run

/-! ## Records -/

section

variable {fields : List String} {strict : Bool} {field : String → α → Reader α}
  (keeps : ∀ name record, good record → Reads (field name record) good)

include keeps

theorem reads_recordMembers : ∀ (fuel : Nat) (seen : List String) (first : Bool) (record : α),
    good record → Reads (recordMembers fields strict field fuel seen first record) good
  | 0, _, _, _, _ => reads_throw
  | fuel + 1, seen, first, record, is => by
    refine .after fun more => ?_
    cases more with
    | false => exact reads_pure is
    | true =>
      refine .after fun name => ?_
      simp only
      split
      · split
        · exact reads_throw_bind
        · exact .after fun _ => (keeps name record is).bind fun record is =>
            reads_recordMembers fuel (name :: seen) false record is
      · split
        · exact reads_throw
        · exact .after fun _ => .after fun _ => reads_recordMembers fuel seen false record is

theorem reads_recordItems : ∀ (fields : List String) (first : Bool) (record : α),
    good record → Reads (recordItems field fields first record) good
  | [], _, _, is => reads_pure is
  | name :: rest, first, record, is => by
    refine .after fun more => ?_
    cases more with
    | false => exact reads_pure is
    | true =>
      exact (keeps name record is).bind fun record is => reads_recordItems rest false record is

/-- What the start of a record has and each field keeps, the record has. -/
theorem reads_record {name : String} {start : α} (is : good start) :
    Reads (record name fields strict field start) good := by
  refine .after fun next => ?_
  split
  next => exact reads_throw
  next =>
    exact .after fun _ => (reads_recordItems keeps fields true start is).bind fun record is =>
      .after fun _ => reads_pure is
  next =>
    exact .after fun _ => .after fun text =>
      (reads_recordMembers keeps (text.length + 1) [] true start is).bind fun record is =>
        .after fun _ => reads_pure is
  next => exact reads_wrongKind

end

end Reader

/-- A value that is read has no object with two members of one name. -/
theorem Json.distinct_of_parse {text : String} {value : Json} (h : Json.parse text = .ok value) :
    value.Distinct :=
  Reader.of_whole (Reader.reads_value Reader.nestingLimit) h

namespace Document

open Reader

/-- No object in a document has two members of one name. -/
structure Distinct (document : Document) : Prop where
  names : document.models.keys.Nodup
  values : ∀ entry ∈ document.models, entry.2.Distinct
  hints : ∀ value ∈ document.hints, value.Distinct

theorem distinct_empty : empty.Distinct where
  names := .nil
  values _ mem := by cases mem
  hints _ mem := by cases mem

/-- Reading a field keeps the members distinct. -/
theorem reads_readField (name : String) {document : Document} (distinct : document.Distinct) :
    Reads (readField name document) Distinct := by
  unfold readField
  split
  · exact .after fun _ => reads_pure ⟨distinct.names, distinct.values, distinct.hints⟩
  split
  · exact (reads_valueMap (levels - 1)).bind fun models is =>
      reads_pure ⟨is.1, is.2, distinct.hints⟩
  split
  · exact .after fun _ => reads_pure ⟨distinct.names, distinct.values, distinct.hints⟩
  split
  · exact (reads_optional (reads_value levels)).bind fun hints is =>
      reads_pure ⟨distinct.names, distinct.values, is⟩
  · exact .after fun _ => reads_pure ⟨distinct.names, distinct.values, distinct.hints⟩

/-- A document that is read has no object with two members of one name. -/
theorem distinct_of_parse {source : String} {document : Document}
    (h : parse source = .ok document) : document.Distinct :=
  of_whole (reads_record (fun name _ => reads_readField name) distinct_empty) h

end Document

end ModelForms
