import Mathlib.Data.List.TakeWhile
import ModelForms.Form.Control
import ModelForms.Proofs.Entries
import ModelForms.Proofs.Text.Cutting

/-!
# Paths from a group

A dotted path can be followed from a group or from the control that the group is.  The two lead to
the same control unless the path starts with a dot.  The control skips the empty piece in front of
that dot, and the group takes it for the name of a member.  So the group follows the rest of the path
from its member of the empty name, and finds nothing where there is none (`Group.get?_of_dot`).
-/

namespace ModelForms

namespace Control

/-- A control that the pieces of a path lead through, to a cell at the end. -/
def along : List (List Char) → Control
  | [] => .cell (.new .null false)
  | piece :: rest => .group [(String.ofList piece, along rest)]

/-- The pieces lead to the cell. -/
theorem follow?_along (pieces : List (List Char)) :
    (along pieces).follow? pieces = some (along []) := by
  induction pieces with
  | nil => rfl
  | cons piece rest ih =>
    have step : (along (piece :: rest)).child? piece = some (along rest) := List.lookup_cons_self
    rw [follow?, step]
    exact ih

end Control

namespace Group

variable {path : String} {members : Entries Control}

/-- The text before the first dot names a member, and the rest is followed from there. -/
theorem get?_of_cut {name rest : List Char} (noDot : '.' ∉ name)
    (cut : path.toList = name ++ '.' :: rest) :
    get? path members = (members.lookup (String.ofList name)).bind
      (Control.follow? (Text.nonemptyPieces (· == '.') rest)) := by
  have kept : ∀ c ∈ name, (c != '.') = true := fun c mem => by
    rw [bne, Text.plain_of_notMem noDot c mem, Bool.not_false]
  have taken : path.toList.takeWhile (· != '.') = name := by
    rw [cut, List.takeWhile_append_of_pos kept, List.takeWhile_cons_of_neg (by decide),
      List.append_nil]
  have left : path.toList.dropWhile (· != '.') = '.' :: rest := by
    rw [cut, List.dropWhile_append_of_pos kept, List.dropWhile_cons_of_neg (by decide)]
  unfold get?
  simp only [taken, left, List.tail_cons]
  refine Option.bind_congr fun control _ => ?_
  rw [Control.get?, String.toList_ofList]

/-- A text without a dot names a member. -/
theorem get?_of_name (noDot : '.' ∉ path.toList) : get? path members = members.lookup path := by
  have kept : ∀ c ∈ path.toList, (c != '.') = true := fun c mem => by
    rw [bne, Text.plain_of_notMem noDot c mem, Bool.not_false]
  have taken : path.toList.takeWhile (· != '.') = path.toList :=
    List.takeWhile_eq_self_iff.2 kept
  have left : path.toList.dropWhile (· != '.') = [] := List.dropWhile_eq_nil_iff.2 kept
  unfold get?
  simp only [taken, left, String.ofList_toList]
  exact Option.bind_fun_some _

/-- Behind a dot at the start, a path is followed from the member of the empty name. -/
theorem get?_of_dot (dot : path.toList.head? = some '.') :
    get? path members = (members.lookup "").bind (Control.get? path) := by
  obtain ⟨rest, cut⟩ := List.head?_eq_some_iff.1 dot
  rw [get?_of_cut (List.not_mem_nil : '.' ∉ []) cut]
  refine Option.bind_congr fun control _ => ?_
  rw [Control.get?, cut, Text.nonemptyPieces_cons rfl]

/-- A path with a name before its first dot leads from the group as from its control. -/
theorem get?_of_head (inhabited : path.toList ≠ []) (noDot : path.toList.head? ≠ some '.') :
    get? path members = (Control.group members).get? path := by
  by_cases mem : '.' ∈ path.toList
  · obtain ⟨name, rest, cut, absent⟩ := List.eq_append_cons_of_mem mem
    have named : name ≠ [] := by
      rintro rfl
      exact noDot (by rw [cut]; rfl)
    rw [get?_of_cut absent cut, Control.get?, cut,
      Text.nonemptyPieces_append_cons (Text.plain_of_notMem absent) rfl named]
    rfl
  · rw [get?_of_name mem, Control.get?,
      Text.nonemptyPieces_of_plain (Text.plain_of_notMem mem) inhabited, Control.follow?]
    show members.lookup path = (members.lookup (String.ofList path.toList)).bind _
    rw [String.ofList_toList]
    exact (Option.bind_fun_some _).symm

/-- What starts with a dot leads nowhere in a group of a single member that has a name, although the
control of the group may have something there. -/
theorem get?_ne_of_dot (named : Text.nonemptyPieces (· == '.') path.toList ≠ [])
    (dot : path.toList.head? = some '.') :
    ∃ members : Entries Control, members.keys.Nodup
      ∧ get? path members ≠ (Control.group members).get? path := by
  cases pieces : Text.nonemptyPieces (· == '.') path.toList with
  | nil => exact absurd pieces named
  | cons piece rest =>
    have inhabited : piece ≠ [] := by
      have mem : piece ∈ Text.nonemptyPieces (· == '.') path.toList := by
        rw [pieces]
        exact List.mem_cons_self
      simpa using (List.mem_filter.1 mem).2
    have other : ("" == String.ofList piece) = false := by
      rw [beq_eq_false_iff_ne, ne_eq, ← String.toList_inj, String.toList_empty,
        String.toList_ofList]
      exact fun same => inhabited same.symm
    refine ⟨[(String.ofList piece, .along rest)], List.pairwise_singleton _ _, ?_⟩
    have missing : get? path [(String.ofList piece, .along rest)] = none := by
      rw [get?_of_dot dot, List.lookup_cons, other]
      rfl
    have found : (Control.along (piece :: rest)).get? path = some (.along []) := by
      rw [Control.get?, pieces]
      exact Control.follow?_along _
    rw [missing]
    exact fun same => nomatch same.trans found

/-- A path with something between its dots leads from every group as from the group's control,
unless it starts with a dot.  Such a path is followed from the member of the empty name, and the two
differ at some group. -/
theorem get?_eq_get?_group (named : Text.nonemptyPieces (· == '.') path.toList ≠ []) :
    (path.toList.head? ≠ some '.' →
      ∀ members : Entries Control, get? path members = (Control.group members).get? path)
    ∧ (path.toList.head? = some '.' →
      (∀ members : Entries Control, get? path members = (members.lookup "").bind (Control.get? path))
      ∧ ∃ members : Entries Control, members.keys.Nodup
        ∧ get? path members ≠ (Control.group members).get? path) := by
  refine ⟨fun noDot members => ?_, fun dot => ⟨fun members => get?_of_dot dot, ?_⟩⟩
  · refine get?_of_head (fun empty => named ?_) noDot
    rw [empty]
    rfl
  · exact get?_ne_of_dot named dot

/-- A path through an array, once as it is and once behind a dot. -/
theorem get?_eq_get?_group_price :
    let price := Control.cell (.new (.number (.int 3)) false)
    let members : Entries Control := [("items", .array [.group [("price", price)]])]
    get? "items..0.price" members = some price
      ∧ get? "items..0.price" members = (Control.group members).get? "items..0.price"
      ∧ get? ".items.0.price" members = none
      ∧ get? ".items.0.price" members
        = (members.lookup "").bind (Control.get? ".items.0.price") := by
  intro price members
  have named : Text.nonemptyPieces (· == '.') "items..0.price".toList ≠ [] := by decide
  have dotted : Text.nonemptyPieces (· == '.') ".items.0.price".toList ≠ [] := by decide
  exact ⟨rfl, (get?_eq_get?_group named).1 (by decide) members, rfl,
    ((get?_eq_get?_group dotted).2 (by decide)).1 members⟩

/-- The two ways do not agree on every path: behind a dot, a group does not find its members. -/
theorem not_forall_get?_eq_get?_group :
    ¬ ∀ (members : Entries Control) (path : String), members.keys.Nodup →
      Text.nonemptyPieces (· == '.') path.toList ≠ [] →
        get? path members = (Control.group members).get? path := by
  intro always
  let cell := Control.cell (.new .null false)
  have same := always [("a", cell)] ".a" (List.pairwise_singleton _ _) (by decide)
  have missing : get? ".a" [("a", cell)] = none := by rfl
  have found : (Control.group [("a", cell)]).get? ".a" = some cell := by rfl
  cases missing.symm.trans (same.trans found)

end Group

end ModelForms
