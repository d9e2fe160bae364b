import ModelForms.Proofs.Expr.Parsing
import ModelForms.Proofs.Expr.Scanning
import ModelForms.Proofs.Expr.SlicedScanning

/-!
# Tokens tile a text

Calling `scan` over and over goes through a text from its start to its end.  Each call finds a tile
of the text (`Cursor.Tile`): blanks, and then the characters of a token, which start with no blank.
Only the token at the end of the text has no characters, and then nothing is left.  The next call
goes on where the tile ends.

So the end of the text is found after at most as many calls as there are characters, and tokens
start at different places in their order, each between two characters of the text
(`Cursor.scans_tile`).
-/

namespace ModelForms

namespace Cursor

variable {text : String} {position stop : Nat} {placed : PlacedToken}

/-! ## Tiles -/

/-- What a call of `scan` finds in a text between two positions: blanks, and after them the
characters of a token. -/
inductive Tile (text : String) : (position : Nat) → PlacedToken → (stop : Nat) → Prop
  | intro {before blanks taken later : List Char} {token : Token}
      (whole : text.toList = before ++ (blanks ++ (taken ++ later)))
      (blank : ∀ c ∈ blanks, CharClass.isBlank c = true)
      (proper : ∀ c ∈ taken.head?, CharClass.isBlank c = false)
      (ends : token = .endOfText → taken = [] ∧ later = [])
      (takes : token ≠ .endOfText → taken ≠ []) :
      Tile text (bytes before) ⟨token, bytes before + bytes blanks⟩
        (bytes before + bytes blanks + bytes taken)

theorem Tile.isValid (tile : Tile text position placed stop) :
    (⟨placed.start⟩ : String.Pos.Raw).IsValid text := by
  cases tile with
  | intro whole =>
    exact SplitsAt.isValid ⟨_, whole.trans (List.append_assoc _ _ _).symm, bytes_append _ _⟩

theorem Tile.le_start (tile : Tile text position placed stop) : position ≤ placed.start := by
  cases tile with
  | intro => exact Nat.le_add_right _ _

/-- A token other than the end of the text takes at least one byte. -/
theorem Tile.start_lt (tile : Tile text position placed stop)
    (goesOn : placed.token ≠ .endOfText) : placed.start < stop := by
  cases tile with
  | intro _ _ _ _ takes => exact Nat.lt_add_of_pos_right (bytes_pos (takes goesOn))

/-- The end of the text is found where the text ends. -/
theorem Tile.start_eq (tile : Tile text position placed stop) (ends : placed.token = .endOfText) :
    placed.start = text.utf8ByteSize := by
  cases tile with
  | intro whole _ _ nothing =>
    obtain ⟨rfl, rfl⟩ := nothing ends
    rw [← String.ofList_toList (s := text), utf8ByteSize_ofList, whole, List.append_nil,
      List.append_nil, bytes_append]

/-- The blanks that come next, and what comes after them. -/
theorem takeWhile_append_rest_skipBlanks (cursor : Cursor) :
    cursor.rest.takeWhile CharClass.isBlank ++ cursor.skipBlanks.rest = cursor.rest := by
  rw [skipBlanks, advance]
  conv => lhs; lhs; rw [← take_length_takeWhile CharClass.isBlank cursor.rest]
  exact List.take_append_drop _ _

theorem offset_skipBlanks (cursor : Cursor) : cursor.skipBlanks.offset
    = cursor.offset + bytes (cursor.rest.takeWhile CharClass.isBlank) := by
  rw [skipBlanks, advance, take_length_takeWhile]

/-- What comes after all blanks starts with none. -/
theorem isBlank_of_mem_skipBlanks {cursor : Cursor} {c : Char}
    (mem : c ∈ cursor.skipBlanks.rest.head?) : CharClass.isBlank c = false := by
  have same : cursor.skipBlanks.rest = cursor.rest.dropWhile CharClass.isBlank :=
    List.append_cancel_left ((takeWhile_append_rest_skipBlanks cursor).trans
      List.takeWhile_append_dropWhile.symm)
  have first := List.head?_dropWhile_not CharClass.isBlank cursor.rest
  rw [← same, mem] at first
  exact first

/-- Each call of `scan` finds a tile. -/
theorem tile_scan {cursor : Cursor} (on : cursor.On text) :
    Tile text cursor.offset cursor.scan.1 cursor.scan.2.offset := by
  obtain ⟨before, whole, position⟩ := on
  have blank : ∀ c ∈ cursor.rest.takeWhile CharClass.isBlank, CharClass.isBlank c = true :=
    List.all_eq_true.1 List.all_takeWhile
  have proper : ∀ c ∈ cursor.skipBlanks.rest.head?, CharClass.isBlank c = false :=
    fun c => isBlank_of_mem_skipBlanks
  rw [← takeWhile_append_rest_skipBlanks cursor] at whole
  unfold Cursor.scan
  simp only
  cases left : cursor.skipBlanks.rest with
  | nil =>
    rw [left] at whole
    simp only [offset_skipBlanks, ← position]
    exact .intro whole blank (by simp) (fun _ => ⟨rfl, rfl⟩) fun goesOn => absurd rfl goesOn
  | cons first more =>
    have token := lexeme_ne_endOfText first more
    rw [left] at proper
    rw [left, ← List.take_append_drop ((lexeme first more).more + 1) (first :: more)] at whole
    simp only [advance, left, offset_skipBlanks, ← position]
    exact .intro whole blank proper (fun ends => absurd ends token) (fun _ => List.cons_ne_nil _ _)

/-! ## Calling again and again -/

/-- The position after some calls of `scan`. -/
def after (text : String) : (calls : Nat) → Cursor
  | 0 => start text
  | calls + 1 => (after text calls).scan.2

/-- The token that `scan` finds after some calls. -/
def found (text : String) (calls : Nat) : PlacedToken := (after text calls).scan.1

theorem on_after (text : String) : ∀ calls, (after text calls).On text
  | 0 => on_start text
  | calls + 1 => (on_after text calls).scan

theorem tile_found (text : String) (calls : Nat) :
    Tile text (after text calls).offset (found text calls) (after text (calls + 1)).offset :=
  tile_scan (on_after text calls)

/-- Tokens start in the order in which they are found, up to the end of the text. -/
theorem start_found_lt (text : String) {earlier : Nat} : ∀ {later : Nat}, earlier < later →
    (∀ calls < later, (found text calls).token ≠ .endOfText) →
    (found text earlier).start < (found text later).start
  | later + 1, before, goesOn => by
    have step : (found text later).start < (found text (later + 1)).start :=
      Nat.lt_of_lt_of_le ((tile_found text later).start_lt (goesOn later (Nat.lt_succ_self later)))
        (tile_found text (later + 1)).le_start
    rcases Nat.lt_succ_iff_lt_or_eq.1 before with before | rfl
    · exact Nat.lt_trans (start_found_lt text before fun calls le =>
        goesOn calls (Nat.lt_succ_of_lt le)) step
    · exact step

/-- The tokens from a position on are what the calls find that come next. -/
theorem exists_scanMany_after (text : String) : ∀ (fuel calls : Nat),
    (after text calls).rest.length < fuel →
    ∃ more ≤ (after text calls).rest.length,
      (found text (calls + more)).token = .endOfText
        ∧ (∀ i < more, (found text (calls + i)).token ≠ .endOfText)
        ∧ scanMany fuel (after text calls)
          = (List.range (more + 1)).map fun i => found text (calls + i)
  | 0, _, enough => absurd enough (Nat.not_lt_zero _)
  | fuel + 1, calls, enough => by
    have unfolded : scanMany (fuel + 1) (after text calls)
        = if (found text calls).token = .endOfText then [found text calls]
          else found text calls :: scanMany fuel (after text (calls + 1)) := rfl
    by_cases ends : (found text calls).token = .endOfText
    · rw [if_pos ends] at unfolded
      exact ⟨0, Nat.zero_le _, ends, by simp, unfolded⟩
    · have shorter : (after text (calls + 1)).rest.length < (after text calls).rest.length :=
        length_scan_lt ends
      obtain ⟨more, le, stops, goesOn, same⟩ :=
        exists_scanMany_after text fuel (calls + 1) (by omega)
      have shift (i : Nat) : calls + 1 + i = calls + (i + 1) := by omega
      simp only [shift] at stops goesOn same
      refine ⟨more + 1, by omega, stops, fun i less => ?_, ?_⟩
      · cases i with
        | zero => exact ends
        | succ i => exact goesOn i (Nat.lt_of_succ_lt_succ less)
      · rw [unfolded, if_neg ends, same, @List.range_succ_eq_map (more + 1), List.map_cons,
          List.map_map]
        rfl

/-- The end of a text comes after all its bytes. -/
theorem start_eq_of_mem_tokens (mem : placed ∈ tokens text) (ends : placed.token = .endOfText) :
    placed.start = text.utf8ByteSize := by
  obtain ⟨_, _, _, _, same⟩ :=
    exists_scanMany_after text (text.toList.length + 1) 0 (Nat.lt_succ_self _)
  have same : tokens text = _ := same
  rw [same] at mem
  obtain ⟨call, _, rfl⟩ := List.mem_map.1 mem
  exact (tile_found text _).start_eq ends

/-- Calling `scan` over and over finds the end of a text after at most as many calls as the text has
characters.  The tokens up to there start one after the other, at positions of the text.  Each call
takes blanks and then a token that has characters and starts with no blank, unless it is the end of
the text, and the next call goes on there.  A scanner that slices the text at the bytes where it
looks at characters finds the same, and no slice starts inside a character. -/
theorem scans_tile (text : String) :
    ∃ calls ≤ text.length, (found text calls).token = .endOfText
      ∧ (∀ earlier < calls, (found text earlier).token ≠ .endOfText)
      ∧ tokens text = (List.range (calls + 1)).map (found text)
      ∧ (∀ later ≤ calls, ∀ earlier < later,
          (found text earlier).start < (found text later).start)
      ∧ ∀ call, Tile text (after text call).offset (found text call) (after text (call + 1)).offset
        ∧ (⟨(found text call).start⟩ : String.Pos.Raw).IsValid text
        ∧ (found text call).start ≤ text.utf8ByteSize
        ∧ Sliced.scan text (after text call).offset
          = some (found text call, (after text (call + 1)).offset) := by
  obtain ⟨calls, le, ends, goesOn, same⟩ :=
    exists_scanMany_after text (text.toList.length + 1) 0 (Nat.lt_succ_self _)
  simp only [Nat.zero_add] at ends goesOn same
  refine ⟨calls, by rwa [← String.length_toList], ends, goesOn, same, ?_, fun call => ?_⟩
  · exact fun later le earlier less => start_found_lt text less fun call before =>
      goesOn call (Nat.lt_of_lt_of_le before le)
  · have tile := tile_found text call
    exact ⟨tile, tile.isValid, tile.isValid.le_utf8ByteSize, Sliced.scan_eq (on_after text call)⟩

end Cursor

end ModelForms
