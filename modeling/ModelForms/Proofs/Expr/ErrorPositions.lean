import ModelForms.Proofs.Expr.Parsing
import ModelForms.Proofs.Expr.Tiling

/-!
# Where parsing fails

A text that is no type expression is refused at the first token that nothing can follow up to a
sentence.  The tokens before it begin a sentence and those up to it begin none
(`TypeExpr.position_of_parse`).  If the text ends too early, that token is its end.

That they begin a sentence is shown along the rules: whatever was taken when a rule fails can be
completed.  That no sentence goes on with the next token uses that a parser decides without looking
further ahead.  What it does is settled by the tokens that it takes and by the one that comes next
(`Settled`), so it fails in the same way on every text that starts like this one.  But it takes
every sentence.  A sentence may have more types inside each other than may be parsed, and for that
reason a parser is compared with itself over more levels.
-/

namespace ModelForms

/-! ## Beginnings of sentences -/

namespace Grammar

variable {α β : Type} {sentence : List Token → α → Prop} {sign : Punctuation}

/-- Some tokens begin a sentence. -/
def Begins (sentence : List Token → α → Prop) (tokens : List Token) : Prop :=
  ∃ later x, sentence (tokens ++ later) x

/-- Some tokens begin a type expression, however many types stand inside each other in it. -/
def IsBeginning (tokens : List Token) : Prop := ∃ levels, Begins (Derives levels) tokens

theorem Begins.of_sentence {tokens : List Token} {x : α} (is : sentence tokens x) :
    Begins sentence tokens :=
  ⟨[], x, by rwa [List.append_nil]⟩

/-- What begins a sentence inside another begins the other one, after what stands before it. -/
theorem Begins.within {outer : List Token → β → Prop} {tokens : List Token}
    (begins : Begins sentence tokens) (before : List Token)
    (completes : ∀ {tokens : List Token} {x : α}, sentence tokens x →
      ∃ later y, outer (before ++ (tokens ++ later)) y) : Begins outer (before ++ tokens) := by
  obtain ⟨later, x, is⟩ := begins
  obtain ⟨more, y, is⟩ := completes is
  exact ⟨later ++ more, y, by simpa using is⟩

/-- What begins a sentence that is one of another kind too begins one of the other kind. -/
theorem Begins.imp {outer : List Token → β → Prop} {tokens : List Token}
    (begins : Begins sentence tokens)
    (is : ∀ {tokens : List Token} {x : α}, sentence tokens x → ∃ y, outer tokens y) :
    Begins outer tokens := by
  obtain ⟨later, x, is'⟩ := begins
  exact ⟨later, is is'⟩

theorem Separated.append {tokens later : List Token} {xs ys : List α}
    (first : Separated sign sentence tokens xs) (second : Separated sign sentence later ys) :
    Separated sign sentence (tokens ++ .punctuation sign :: later) (xs ++ ys) := by
  induction first with
  | one only => exact .more only second
  | more first _ ih => simpa using Separated.more first ih

theorem IsBeginning.isWord {tokens : List Token} (begins : IsBeginning tokens) :
    ∀ token ∈ tokens, IsWord token := by
  obtain ⟨_, later, _, derives⟩ := begins
  exact fun token mem => derives.isWord token (List.mem_append_left later mem)

end Grammar

namespace TokenParser

open Grammar

variable {α β : Type} {parser : TokenParser α} {wider : Nat → TokenParser α}
  {viable : List Token → Prop} {tokens : List PlacedToken}

/-! ## Tokens that cannot be told apart -/

/-- Where the next token starts. -/
def place (tokens : List PlacedToken) : Nat := (tokens.head?.getD ⟨.endOfText, 0⟩).start

/-- A parser fails on some tokens. -/
def Refuses (parser : TokenParser α) (tokens : List PlacedToken) : Prop :=
  ∃ error, parser.run tokens = .error error

/-- Two lists of tokens start with the same tokens and go on with the same one. -/
structure Alike (used rest used' rest' : List PlacedToken) : Prop where
  same : bare used' = bare used
  goesOn : next rest' = next rest

theorem bare_append (used more : List PlacedToken) : bare (used ++ more) = bare used ++ bare more :=
  List.map_append

theorem next_append {more more' rest rest' : List PlacedToken} (same : bare more' = bare more)
    (goesOn : next rest' = next rest) : next (more' ++ rest') = next (more ++ rest) := by
  cases more with
  | nil =>
    cases List.map_eq_nil_iff.1 same
    exact goesOn
  | cons first more =>
    obtain ⟨_, _, rfl, here, _⟩ := List.map_eq_cons_iff.1 same
    exact here

/-- What is taken in two steps can be told apart after neither of them. -/
theorem Alike.split {used more rest used' rest' : List PlacedToken}
    (alike : Alike (used ++ more) rest used' rest') :
    ∃ first second, used' = first ++ second ∧ Alike used (more ++ rest) first (second ++ rest')
      ∧ Alike more rest second rest' := by
  obtain ⟨same, goesOn⟩ := alike
  rw [bare_append] at same
  obtain ⟨first, second, rfl, same, same'⟩ := List.map_eq_append_iff.1 same
  exact ⟨first, second, rfl, ⟨same, next_append same' goesOn⟩, ⟨same', goesOn⟩⟩

/-- What a parser does on some tokens is settled by those that it takes and the one that comes next.
If it succeeds, so do the wider ones on all tokens that are alike.  If it fails for another reason
than the depth, then at the next token.  The wider ones fail as well, and the tokens that were taken
are viable. -/
structure Settled (parser : TokenParser α) (wider : Nat → TokenParser α)
    (viable : List Token → Prop) (tokens : List PlacedToken) : Prop where
  takes {x : α} {rest : List PlacedToken} (h : Takes parser tokens x rest) :
    ∃ used, tokens = used ++ rest ∧ ∀ extra used' rest', Alike used rest used' rest' →
      Takes (wider extra) (used' ++ rest') x rest'
  fails {error : ParseError} (h : parser.run tokens = .error error)
    (shallow : error.fault ≠ .nestedTooDeeply) :
    ∃ used rest, tokens = used ++ rest ∧ error.position = place rest ∧ viable (bare used)
      ∧ ∀ extra used' rest', Alike used rest used' rest' → Refuses (wider extra) (used' ++ rest')

theorem run_bind_eq_error_iff {more : α → TokenParser β} {error : ParseError} :
    (parser >>= more).run tokens = .error error
      ↔ parser.run tokens = .error error
        ∨ ∃ a middle, Takes parser tokens a middle ∧ (more a).run middle = .error error := by
  rw [run_bind]
  unfold Takes
  cases parser.run tokens with
  | error _ => simp
  | ok result =>
    constructor
    · exact fun h => .inr ⟨result.1, result.2, rfl, h⟩
    · rintro (h | ⟨_, _, h, h'⟩)
      · cases h
      · cases h
        exact h'

/-- What `accept` takes is the sign or nothing. -/
theorem used_of_takes_accept {sign : Punctuation} {accepted : Bool} {used rest : List PlacedToken}
    (takes : Takes (accept sign) (used ++ rest) accepted rest) :
    (accepted = true ∧ ∃ start, used = [⟨.punctuation sign, start⟩])
      ∨ (accepted = false ∧ used = []) := by
  rcases takes_accept_iff.1 takes with ⟨accepted, start, first⟩ | ⟨accepted, _, nothing⟩
  · have same : used ++ rest = [⟨.punctuation sign, start⟩] ++ rest := first
    exact .inl ⟨accepted, start, List.append_cancel_right same⟩
  · exact .inr ⟨accepted, List.self_eq_append_left.1 nothing⟩

namespace Settled

/-! ## Steps -/

theorem mono {viable' : List Token → Prop} (h : Settled parser wider viable tokens)
    (imp : ∀ later, viable later → viable' later) : Settled parser wider viable' tokens where
  takes := h.takes
  fails fails shallow := by
    obtain ⟨used, rest, split, position, begins, refuses⟩ := h.fails fails shallow
    exact ⟨used, rest, split, position, imp _ begins, refuses⟩

theorem congr {parser' : TokenParser α} {wider' : Nat → TokenParser α} (same : parser = parser')
    (sameWider : ∀ extra, wider extra = wider' extra)
    (h : Settled parser' wider' viable tokens) : Settled parser wider viable tokens := by
  cases same
  cases funext sameWider
  exact h

theorem pure {x : α} : Settled (Pure.pure x) (fun _ => Pure.pure x) viable tokens where
  takes h := by
    obtain ⟨rfl, rfl⟩ := takes_pure_iff.1 h
    refine ⟨[], rfl, fun _ used' rest' alike => ?_⟩
    cases List.map_eq_nil_iff.1 alike.same
    exact takes_pure_iff.2 ⟨rfl, rfl⟩
  fails h := by cases h

/-- The second of two parsers goes on where the first one stops. -/
theorem bind {more : α → TokenParser β} {more' : Nat → α → TokenParser β}
    (first : Settled parser wider viable tokens)
    (second : ∀ a used rest, tokens = used ++ rest → Takes parser (used ++ rest) a rest →
      Settled (more a) (more' · a) (fun later => viable (bare used ++ later)) rest) :
    Settled (parser >>= more) (fun extra => wider extra >>= more' extra) viable tokens where
  takes h := by
    obtain ⟨a, middle, h, h'⟩ := takes_bind_iff.1 h
    obtain ⟨used, rfl, takes⟩ := first.takes h
    obtain ⟨used₂, rfl, takes₂⟩ := (second a used _ rfl h).takes h'
    refine ⟨used ++ used₂, (List.append_assoc _ _ _).symm, fun extra used' rest' alike => ?_⟩
    obtain ⟨one, two, rfl, alike, alike₂⟩ := alike.split
    rw [List.append_assoc]
    exact takes_bind_iff.2
      ⟨a, two ++ rest', takes extra _ _ alike, takes₂ extra _ _ alike₂⟩
  fails h shallow := by
    rcases run_bind_eq_error_iff.1 h with h | ⟨a, middle, h, h'⟩
    -- The first parser fails, and the wider ones do not get to the second one either.
    · obtain ⟨used, rest, split, position, begins, refuses⟩ := first.fails h shallow
      refine ⟨used, rest, split, position, begins, fun extra used' rest' alike => ?_⟩
      obtain ⟨error, fails⟩ := refuses extra _ _ alike
      exact ⟨error, run_bind_eq_error_iff.2 (.inl fails)⟩
    -- The second one fails, after tokens that the wider ones take for the first one as well.
    · obtain ⟨used, rfl, takes⟩ := first.takes h
      obtain ⟨used₂, rest, rfl, position, begins, refuses⟩ :=
        (second a used _ rfl h).fails h' shallow
      refine ⟨used ++ used₂, rest, (List.append_assoc _ _ _).symm, position,
        by rwa [bare_append], fun extra used' rest' alike => ?_⟩
      obtain ⟨one, two, rfl, alike, alike₂⟩ := alike.split
      obtain ⟨error, fails⟩ := refuses extra _ _ alike₂
      rw [List.append_assoc]
      exact ⟨error, run_bind_eq_error_iff.2
        (.inr ⟨a, two ++ rest', takes extra _ _ alike, fails⟩)⟩

/-- A parser that fails at once does so on all tokens. -/
theorem stop {fault : ParseFault} (fails : parser.run tokens = .error ⟨fault, place tokens⟩)
    (refuses : ∀ extra later, Refuses (wider extra) later) (begins : viable []) :
    Settled parser wider viable tokens where
  takes h := by
    rw [Takes, fails] at h
    cases h
  fails h _ := by
    rw [fails] at h
    cases h
    exact ⟨[], tokens, rfl, rfl, begins, fun extra _ _ _ => refuses extra _⟩

theorem fail {fault : ParseFault} (begins : viable []) :
    Settled (TokenParser.fail fault : TokenParser α) (fun _ => TokenParser.fail fault) viable
      tokens :=
  stop rfl (fun _ _ => ⟨_, rfl⟩) begins

theorem unexpected {expected : Expected} (begins : viable []) :
    Settled (TokenParser.unexpected expected : TokenParser α)
      (fun _ => TokenParser.unexpected expected) viable tokens :=
  stop rfl (fun _ _ => ⟨_, rfl⟩) begins

/-- The next token is looked at without its place. -/
theorem current {more : PlacedToken → TokenParser β} {more' : Nat → PlacedToken → TokenParser β}
    (blind : ∀ extra (placed placed' : PlacedToken), placed.token = placed'.token →
      more' extra placed = more' extra placed')
    (h : Settled (more (tokens.head?.getD ⟨.endOfText, 0⟩))
      (more' · (tokens.head?.getD ⟨.endOfText, 0⟩)) viable tokens) :
    Settled (TokenParser.current >>= more) (fun extra => TokenParser.current >>= more' extra) viable
      tokens where
  takes h' := by
    obtain ⟨used, rfl, takes⟩ := h.takes (takes_current_bind_iff.1 h')
    refine ⟨used, rfl, fun extra used' rest' alike => takes_current_bind_iff.2 ?_⟩
    rw [blind extra _ _ (next_append alike.same alike.goesOn)]
    exact takes extra used' rest' alike
  fails fails shallow := by
    obtain ⟨used, rest, rfl, position, begins, refuses⟩ := h.fails fails shallow
    refine ⟨used, rest, rfl, position, begins, fun extra used' rest' alike => ?_⟩
    obtain ⟨error, fails⟩ := refuses extra used' rest' alike
    rw [← blind extra _ _ (next_append alike.same alike.goesOn)] at fails
    exact ⟨error, fails⟩

/-- A token that is taken without looking at it. -/
theorem advance {token : Token} {start : Nat} {later : List PlacedToken} {more : TokenParser β}
    {more' : Nat → TokenParser β}
    (h : Settled more more' (fun later => viable (token :: later)) later) :
    Settled (do TokenParser.advance; more) (fun extra => do TokenParser.advance; more' extra) viable
      (⟨token, start⟩ :: later) where
  takes advances := by
    obtain ⟨used, rfl, takes⟩ := h.takes (takes_advance_bind_iff.1 advances)
    refine ⟨⟨token, start⟩ :: used, rfl, fun extra used' rest' ⟨same, goesOn⟩ => ?_⟩
    obtain ⟨_, used', rfl, _, same⟩ := List.map_eq_cons_iff.1 same
    exact takes_advance_bind_iff.2 (takes extra used' rest' ⟨same, goesOn⟩)
  fails fails shallow := by
    obtain ⟨used, rest, rfl, position, begins, refuses⟩ := h.fails fails shallow
    refine ⟨⟨token, start⟩ :: used, rest, rfl, position, begins,
      fun extra used' rest' ⟨same, goesOn⟩ => ?_⟩
    obtain ⟨_, used', rfl, _, same⟩ := List.map_eq_cons_iff.1 same
    exact refuses extra used' rest' ⟨same, goesOn⟩

theorem accept {sign : Punctuation} :
    Settled (TokenParser.accept sign) (fun _ => TokenParser.accept sign) viable tokens where
  takes h := by
    rcases takes_accept_iff.1 h with ⟨rfl, start, rfl⟩ | ⟨rfl, isNot, rfl⟩
    · refine ⟨[_], rfl, fun _ used' rest' alike => ?_⟩
      obtain ⟨start, rfl⟩ := exists_single alike.same
      exact takes_accept_iff.2 (.inl ⟨rfl, start, rfl⟩)
    · refine ⟨[], rfl, fun _ used' rest' alike => ?_⟩
      cases List.map_eq_nil_iff.1 alike.same
      exact takes_accept_iff.2 (.inr ⟨rfl, alike.goesOn ▸ isNot, rfl⟩)
  fails {error} h := by
    have h : (if next tokens = .punctuation sign then (do TokenParser.advance; return true)
        else return false : TokenParser Bool).run tokens = .error error := h
    split at h <;> cases h

/-- Two branches for a sign that comes next or does not. -/
theorem ifAccept {sign : Punctuation} {yes no : TokenParser β} {yes' no' : Nat → TokenParser β}
    (goesOn : ∀ start later, tokens = ⟨.punctuation sign, start⟩ :: later →
      Settled yes yes' (fun later => viable (.punctuation sign :: later)) later)
    (ends : Settled no no' viable tokens) :
    Settled (do if ← TokenParser.accept sign then yes else no)
      (fun extra => do if ← TokenParser.accept sign then yes' extra else no' extra) viable
      tokens := by
  refine accept.bind fun accepted used rest split takes => ?_
  rcases used_of_takes_accept takes with ⟨rfl, start, rfl⟩ | ⟨rfl, rfl⟩
  · exact goesOn start rest split
  · cases split
    exact ends

theorem expect {sign : Punctuation} (begins : viable []) :
    Settled (TokenParser.expect sign) (fun _ => TokenParser.expect sign) viable tokens :=
  ifAccept (fun _ _ _ => pure) (unexpected begins)

end Settled

/-! ## Loops -/

theorem Reads.of_append {sentence : List Token → α → Prop} (reads : Reads parser sentence)
    {used rest : List PlacedToken} {x : α} (takes : Takes parser (used ++ rest) x rest) :
    sentence (bare used) x := by
  obtain ⟨used', split, is⟩ := reads _ _ _ takes
  cases List.append_cancel_right split
  exact is

/-- A parser leaves no more tokens than it is given. -/
def Shortens (parser : TokenParser α) : Prop :=
  ∀ tokens x rest, Takes parser tokens x rest → rest.length ≤ tokens.length

theorem Reads.shortens {sentence : List Token → α → Prop} (reads : Reads parser sentence) :
    Shortens parser := by
  intro tokens x rest takes
  obtain ⟨used, rfl, _⟩ := reads _ _ _ takes
  simp

theorem run_bind_congr {more more' : α → TokenParser β}
    (same : ∀ a rest, Takes parser tokens a rest → (more a).run rest = (more' a).run rest) :
    (parser >>= more).run tokens = (parser >>= more').run tokens := by
  rw [run_bind, run_bind]
  cases found : parser.run tokens with
  | error _ => rfl
  | ok result => exact same result.1 result.2 found

theorem run_ifAccept_congr {sign : Punctuation} {yes no yes' no' : TokenParser β}
    (goesOn : ∀ start later, tokens = ⟨.punctuation sign, start⟩ :: later →
      yes.run later = yes'.run later)
    (ends : no.run tokens = no'.run tokens) :
    (do if ← accept sign then yes else no : TokenParser β).run tokens
      = (do if ← accept sign then yes' else no' : TokenParser β).run tokens := by
  refine run_bind_congr fun accepted rest takes => ?_
  rcases takes_accept_iff.1 takes with ⟨rfl, start, first⟩ | ⟨rfl, _, rfl⟩
  · exact goesOn start rest first
  · exact ends

section

variable {sign : Punctuation} {item : TokenParser α} {sentence : List Token → α → Prop}

/-- The items after a first one, with as many rounds as there are tokens. -/
def itemsLeft (sign : Punctuation) (item : TokenParser α) : TokenParser (List α) :=
  fun tokens => (itemsAfter sign item tokens.length).run tokens

/-- A loop has enough rounds if it has one for each token. -/
theorem run_itemsAfter (shortens : Shortens item) : ∀ (fuel fuel' : Nat)
    {tokens : List PlacedToken}, tokens.length ≤ fuel → tokens.length ≤ fuel' →
    (itemsAfter sign item fuel).run tokens = (itemsAfter sign item fuel').run tokens
  | 0, fuel', tokens, enough, _ => by
    cases List.eq_nil_of_length_eq_zero (Nat.le_zero.1 enough)
    cases fuel' <;> rfl
  | fuel + 1, 0, tokens, _, enough => by
    cases List.eq_nil_of_length_eq_zero (Nat.le_zero.1 enough)
    rfl
  | fuel + 1, fuel' + 1, tokens, enough, enough' => by
    rw [itemsAfter, itemsAfter]
    refine run_ifAccept_congr (fun start later first => ?_) rfl
    subst first
    refine run_bind_congr fun x rest takes => ?_
    -- The sign is gone, so one round less is enough for what is left.
    have shorter := shortens _ _ _ takes
    simp only [List.length_cons] at enough enough'
    rw [run_bind, run_bind, run_itemsAfter shortens fuel fuel' (by omega) (by omega)]

theorem itemsLeft_eq (shortens : Shortens item) :
    itemsLeft sign item = do
      if ← accept sign then
        let x ← item
        return x :: (← itemsLeft sign item)
      else return [] := by
  funext tokens
  cases tokens with
  | nil => rfl
  | cons first later =>
    show (itemsAfter sign item (later.length + 1)).run _ = StateT.run _ (first :: later)
    rw [itemsAfter]
    refine run_ifAccept_congr (fun start later' same => ?_) rfl
    cases same
    refine run_bind_congr fun x rest takes => ?_
    rw [run_bind, run_bind]
    have shorter := shortens _ _ _ takes
    rw [run_itemsAfter shortens later.length rest.length shorter (Nat.le_refl _)]
    rfl

theorem items_eq :
    items sign item = (do
      let x ← item
      return x :: (← itemsLeft sign item)) :=
  rfl

/-- The pairs of brackets after a type, with as many rounds as there are tokens. -/
def bracketsLeft (expr : TypeExpr) : TokenParser TypeExpr :=
  fun tokens => (brackets tokens.length expr).run tokens

theorem run_brackets : ∀ (fuel fuel' : Nat) {tokens : List PlacedToken} {expr : TypeExpr},
    tokens.length ≤ fuel → tokens.length ≤ fuel' →
    (brackets fuel expr).run tokens = (brackets fuel' expr).run tokens
  | 0, fuel', tokens, _, enough, _ => by
    cases List.eq_nil_of_length_eq_zero (Nat.le_zero.1 enough)
    cases fuel' <;> rfl
  | fuel + 1, 0, tokens, _, _, enough => by
    cases List.eq_nil_of_length_eq_zero (Nat.le_zero.1 enough)
    rfl
  | fuel + 1, fuel' + 1, tokens, expr, enough, enough' => by
    rw [brackets, brackets]
    refine run_ifAccept_congr (fun start later first => ?_) rfl
    subst first
    refine run_bind_congr fun _ rest takes => ?_
    obtain ⟨_, rfl⟩ := takes_expect_iff.1 takes
    simp only [List.length_cons] at enough enough'
    exact run_brackets fuel fuel' (by omega) (by omega)

theorem bracketsLeft_eq (expr : TypeExpr) :
    bracketsLeft expr = do
      if ← accept .openBracket then
        expect .closeBracket
        bracketsLeft (.array expr)
      else return expr := by
  funext tokens
  cases tokens with
  | nil => rfl
  | cons first later =>
    show (brackets (later.length + 1) expr).run _ = StateT.run _ (first :: later)
    rw [brackets]
    refine run_ifAccept_congr (fun start later' same => ?_) rfl
    cases same
    refine run_bind_congr fun _ rest takes => ?_
    obtain ⟨_, rfl⟩ := takes_expect_iff.1 takes
    exact run_brackets _ _ (Nat.le_succ _) (Nat.le_refl _)

theorem bracketed_eq (type : TokenParser TypeExpr) :
    bracketed type = primary type >>= bracketsLeft :=
  rfl

end

/-! ## The rules -/

/-- A parser of sentences stops at the first token that none of them goes on with. -/
structure Prompt (parser : TokenParser α) (wider : Nat → TokenParser α)
    (sentence : List Token → α → Prop) : Prop where
  reads : Reads parser sentence
  readsWider : ∀ extra, ∃ sentence, Reads (wider extra) sentence
  settled : ∀ tokens, Settled parser wider (Begins sentence) tokens

namespace Prompt

section

variable {sign : Punctuation} {sentence : List Token → α → Prop} {type : TokenParser TypeExpr}
  {widerType : Nat → TokenParser TypeExpr} {isType : List Token → TypeExpr → Prop}

theorem shortensWider (item : Prompt parser wider sentence) (extra : Nat) :
    Shortens (wider extra) := by
  obtain ⟨_, reads⟩ := item.readsWider extra
  exact reads.shortens

/-- A chain is complete after each of its items. -/
theorem itemsLeft (item : Prompt parser wider sentence) :
    ∀ (bound : Nat) {tokens : List PlacedToken} {before : List Token} {xs : List α},
      tokens.length < bound → Separated sign sentence before xs →
      Settled (TokenParser.itemsLeft sign parser)
        (fun extra => TokenParser.itemsLeft sign (wider extra))
        (fun later => Begins (Separated sign sentence) (before ++ later)) tokens
  | 0, _, _, _, bounded, _ => absurd bounded (Nat.not_lt_zero _)
  | bound + 1, tokens, before, xs, bounded, chained => by
    refine .congr (itemsLeft_eq item.reads.shortens)
      (fun extra => itemsLeft_eq (item.shortensWider extra))
      (.ifAccept (fun start rest first => ?_) .pure)
    subst first
    refine .bind ((item.settled rest).mono fun later begins => ?_) fun x used left split takes => ?_
    · have longer : Begins (Separated sign sentence) (before ++ [.punctuation sign] ++ later) :=
        begins.within _ fun is => ⟨[], _, by simpa using chained.append (.one is)⟩
      simpa using longer
    · subst split
      have longer := chained.append (.one (item.reads.of_append takes))
      have shorter : left.length < bound := by
        simp only [List.length_cons, List.length_append] at bounded
        omega
      have goesOn := itemsLeft item bound shorter longer
      exact .bind (goesOn.mono fun later begins => by simpa using begins) fun _ _ _ _ _ => .pure

theorem items (item : Prompt parser wider sentence) :
    Prompt (TokenParser.items sign parser) (fun extra => TokenParser.items sign (wider extra))
      (Separated sign sentence) where
  reads := reads_items item.reads
  readsWider extra := by
    obtain ⟨_, reads⟩ := item.readsWider extra
    exact ⟨_, reads_items reads⟩
  settled tokens := by
    refine .congr items_eq (fun _ => items_eq) ?_
    refine .bind ((item.settled tokens).mono fun _ begins => begins.imp fun is => ⟨_, .one is⟩)
      fun x used rest _ takes => ?_
    exact .bind (item.itemsLeft _ (Nat.lt_succ_self _) (.one (item.reads.of_append takes)))
      fun _ _ _ _ _ => .pure

theorem chain {make : List TypeExpr → TypeExpr} {item : TokenParser TypeExpr}
    {widerItem : Nat → TokenParser TypeExpr} {sentence outer : List Token → TypeExpr → Prop}
    (h : Prompt item widerItem sentence)
    (makes : ∀ tokens members, Separated sign sentence tokens members →
      outer tokens (chainTree make members)) (tokens : List PlacedToken) :
    Settled (TokenParser.chain make sign item)
      (fun extra => TokenParser.chain make sign (widerItem extra)) (Begins outer) tokens :=
  .congr (chain_eq make item) (fun extra => chain_eq make (widerItem extra))
    (.bind ((h.items.settled tokens).mono fun _ begins =>
      begins.imp fun is => ⟨_, makes _ _ is⟩) fun _ _ _ _ _ => .pure)

theorem arguments (types : Prompt type widerType isType) {name : String} (free : IsFree name)
    (tokens : List PlacedToken) :
    Settled (TokenParser.arguments type) (fun extra => TokenParser.arguments (widerType extra))
      (fun later => Begins (Primary isType) (.name name :: later)) tokens := by
  refine .ifAccept (fun start rest _ => ?_) .pure
  refine .bind ((types.items.settled rest).mono fun later begins => ?_)
    fun args used left _ takes => ?_
  · exact begins.within [.name name, .punctuation .less]
      fun lists => ⟨[.punctuation .greater], _, .generic free lists⟩
  · have lists := types.items.reads.of_append takes
    exact .bind (.expect ⟨[.punctuation .greater], _, by simpa using .generic free lists⟩)
      fun _ _ _ _ _ => .pure

theorem named (types : Prompt type widerType isType) (name : String)
    (tokens : List PlacedToken) :
    Settled (TokenParser.named type name) (fun extra => TokenParser.named (widerType extra) name)
      (fun later => Begins (Primary isType) (.name name :: later)) tokens := by
  unfold TokenParser.named
  split
  next => exact .pure
  next notTrue =>
    split
    next => exact .pure
    next notFalse =>
      split
      next => exact .pure
      next other =>
        exact .bind (types.arguments ⟨other, notTrue, notFalse⟩ tokens) fun _ _ _ _ _ => .pure

theorem primary (types : Prompt type widerType isType) :
    Prompt (TokenParser.primary type) (fun extra => TokenParser.primary (widerType extra))
      (Primary isType) where
  reads := reads_primary types.reads
  readsWider extra := by
    obtain ⟨_, reads⟩ := types.readsWider extra
    exact ⟨_, reads_primary reads⟩
  settled tokens := by
    have nothing : Begins (Primary isType) [] := ⟨[.string ""], _, .string ""⟩
    unfold TokenParser.primary
    refine .current (fun _ _ _ same => by simp only [same]) ?_
    generalize found : (tokens.head?.getD ⟨.endOfText, 0⟩).token = token
    have here (inside : token ≠ .endOfText) : ∃ start more, tokens = ⟨token, start⟩ :: more :=
      exists_of_next found inside
    split
    next =>
      obtain ⟨start, rest, rfl⟩ := here nofun
      refine .advance (.bind ((types.settled rest).mono fun later begins => ?_)
        fun expr used left _ takes => ?_)
      · exact begins.within [.punctuation .openParen]
          fun inner => ⟨[.punctuation .closeParen], _, .parentheses inner⟩
      · have inner := types.reads.of_append takes
        exact .bind (.expect ⟨[.punctuation .closeParen], _, by simpa using .parentheses inner⟩)
          fun _ _ _ _ _ => .pure
    next =>
      obtain ⟨start, rest, rfl⟩ := here nofun
      exact .advance .pure
    next =>
      split
      next =>
        obtain ⟨start, rest, rfl⟩ := here nofun
        exact .advance .pure
      next => exact .fail nothing
    next name =>
      obtain ⟨start, rest, rfl⟩ := here nofun
      exact .advance (types.named name rest)
    next => exact .unexpected nothing

/-- An opening bracket that was taken can only be closed. -/
theorem bracketsLeft : ∀ (bound : Nat) {tokens : List PlacedToken} {before : List Token}
    {expr : TypeExpr}, tokens.length < bound → Bracketed isType before expr →
    Settled (TokenParser.bracketsLeft expr) (fun _ => TokenParser.bracketsLeft expr)
      (fun later => Begins (Bracketed isType) (before ++ later)) tokens
  | 0, _, _, _, bounded, _ => absurd bounded (Nat.not_lt_zero _)
  | bound + 1, tokens, before, expr, bounded, is => by
    refine .congr (bracketsLeft_eq expr) (fun _ => bracketsLeft_eq expr)
      (.ifAccept (fun start rest first => ?_) .pure)
    subst first
    refine .bind (.expect ⟨[.punctuation .closeBracket], _, by simpa using is.array⟩)
      fun _ used left split takes => ?_
    obtain ⟨stop, closes⟩ := takes_expect_iff.1 takes
    have closes : used ++ left = [⟨.punctuation .closeBracket, stop⟩] ++ left := closes
    cases List.append_cancel_right closes
    subst split
    have shorter : left.length < bound := by
      simp only [List.length_cons, List.length_append] at bounded
      omega
    have goesOn := bracketsLeft bound shorter is.array
    exact goesOn.mono fun later begins => by simpa using begins

theorem bracketed (types : Prompt type widerType isType) :
    Prompt (TokenParser.bracketed type) (fun extra => TokenParser.bracketed (widerType extra))
      (Bracketed isType) where
  reads := reads_bracketed types.reads
  readsWider extra := by
    obtain ⟨_, reads⟩ := types.readsWider extra
    exact ⟨_, reads_bracketed reads⟩
  settled tokens := by
    refine .congr (bracketed_eq type) (fun extra => bracketed_eq (widerType extra)) ?_
    refine .bind ((types.primary.settled tokens).mono fun _ begins =>
      begins.imp fun is => ⟨_, .primary is⟩) fun expr used rest _ takes => ?_
    exact bracketsLeft _ (Nat.lt_succ_self _) (.primary (types.primary.reads.of_append takes))

theorem intersection (types : Prompt type widerType isType) :
    Prompt (TokenParser.intersection type) (fun extra => TokenParser.intersection (widerType extra))
      (IntersectionChain isType) where
  reads := reads_intersection types.reads
  readsWider extra := by
    obtain ⟨_, reads⟩ := types.readsWider extra
    exact ⟨_, reads_intersection reads⟩
  settled := types.bracketed.chain fun _ _ => .intro

theorem union (types : Prompt type widerType isType) :
    Prompt (TokenParser.union type) (fun extra => TokenParser.union (widerType extra))
      (UnionChain isType) where
  reads := reads_union types.reads
  readsWider extra := by
    obtain ⟨_, reads⟩ := types.readsWider extra
    exact ⟨_, reads_union reads⟩
  settled tokens := by
    refine .bind .accept fun barred used rest _ takes => ?_
    rcases used_of_takes_accept takes with ⟨_, start, rfl⟩ | ⟨_, rfl⟩
    · have chained : Settled _ _
          (Begins fun tokens => UnionChain isType (.punctuation .bar :: tokens)) rest :=
        types.intersection.chain (fun _ _ => .leadingBar) rest
      exact chained.mono fun later begins => begins
    · exact types.intersection.chain (fun _ _ => .intro) rest

end

/-- A parser for types stops at the first impossible token, however many more levels may help. -/
theorem ofLevels : ∀ levels : Nat,
    Prompt (type levels) (fun extra => type (extra + levels)) (Derives levels)
  | 0 =>
    -- At level zero nothing is taken, and no failure is for another reason than the depth.
    { reads := reads_type 0
      readsWider := fun _ => ⟨_, reads_type _⟩
      settled := fun _ => ⟨fun h => absurd h not_takes_fail, fun fails deep => by
        cases fails
        exact absurd rfl deep⟩ }
  | levels + 1 => (ofLevels levels).union

end Prompt

end TokenParser

namespace TypeExpr

open Grammar TokenParser

theorem run_whole_eq_error {tokens : List PlacedToken} {error : ParseError}
    (fails : whole.run tokens = .error error) :
    (TokenParser.type Limits.expressionDepth).run tokens = .error error
      ∨ ∃ expr rest, Takes (TokenParser.type Limits.expressionDepth) tokens expr rest
        ∧ next rest ≠ .endOfText ∧ error.position = place rest := by
  unfold whole at fails
  rcases run_bind_eq_error_iff.1 fails with fails | ⟨expr, rest, takes, fails⟩
  · exact .inl fails
  · refine .inr ⟨expr, rest, takes, ?_⟩
    have fails : (if next rest = .endOfText then pure expr
        else unexpected .endOfText >>= fun _ => pure expr : TokenParser TypeExpr).run rest
          = .error error := fails
    split at fails
    next => cases fails
    next goesOn =>
      cases fails
      exact ⟨goesOn, rfl⟩

/-- A parser with enough levels takes a sentence, wherever its tokens are. -/
theorem takes_of_derives_add {levels extra : Nat} {placed : List PlacedToken} {expr : TypeExpr}
    (derives : Derives levels (bare placed) expr) :
    Takes (TokenParser.type (levels + extra)) placed expr [] := by
  have takes := accepts_type _ placed expr [] (derives.mono (Nat.le_add_right levels extra))
    (by simp [next])
  rwa [List.append_nil] at takes

/-- Where parsing fails, the tokens that were taken begin a sentence, and no sentence starts with
them and goes on with what comes next, be it a token or the end. -/
theorem exists_last_beginning {tokens : List PlacedToken} {error : ParseError}
    (fails : whole.run tokens = .error error) (shallow : error.fault ≠ .nestedTooDeeply) :
    ∃ used rest, tokens = used ++ rest ∧ error.position = place rest ∧ IsBeginning (bare used)
      ∧ ∀ levels rest' expr, next rest' = next rest →
        ¬ Derives levels (bare (used ++ rest')) expr := by
  have types := Prompt.ofLevels Limits.expressionDepth
  rcases run_whole_eq_error fails with fails | ⟨expr, rest, takes, goesOn, position⟩
  -- The parser for types fails: the one that would take the longer sentence fails like it.
  · obtain ⟨used, rest, split, position, begins, refuses⟩ :=
      (types.settled tokens).fails fails shallow
    refine ⟨used, rest, split, position, ⟨_, begins⟩, fun levels rest' expr same derives => ?_⟩
    obtain ⟨error, fails⟩ := refuses levels used rest' ⟨rfl, same⟩
    cases fails.symm.trans (takes_of_derives_add derives)
  -- It succeeds before the end: the other one stops there too, and not at the end of the sentence.
  · obtain ⟨used, rfl, everywhere⟩ := (types.settled tokens).takes takes
    have is := types.reads.of_append takes
    refine ⟨used, rest, rfl, position, ⟨_, .of_sentence is⟩,
      fun levels rest' expr' same derives => ?_⟩
    have stops := everywhere levels used rest' ⟨rfl, same⟩
    cases stops.symm.trans (takes_of_derives_add derives)
    exact goesOn same.symm

/-- A text that is refused for another reason than the depth of its types is refused at the first
token that is impossible: the tokens before it begin a sentence and those up to it begin none.  If
that is the end of the text, all other tokens begin a sentence and are none, and the position is the
number of bytes of the text. -/
theorem position_of_parse {text : String} {error : ParseError} (fails : parse text = .error error)
    (shallow : error.fault ≠ .nestedTooDeeply) :
    ∃ before placed after, Cursor.tokens text = before ++ placed :: after
      ∧ error.position = placed.start
      ∧ IsBeginning (bare before) ∧ ¬ IsBeginning (bare before ++ [placed.token])
      ∧ (placed.token = .endOfText → bare before = sentence text
        ∧ (∀ levels expr, ¬ Derives levels (sentence text) expr)
        ∧ error.position = text.utf8ByteSize) := by
  have fails : whole.run (Cursor.tokens text) = .error error := by
    unfold parse at fails
    cases ran : whole.run (Cursor.tokens text) with
    | error other =>
      rw [ran] at fails
      cases fails
      rfl
    | ok result =>
      rw [ran] at fails
      cases fails
  obtain ⟨before, rest, split, position, begins, impossible⟩ := exists_last_beginning fails shallow
  obtain ⟨inside, stop, same, is, proper⟩ := exists_tokens text
  cases rest with
  | nil =>
    have all : before = inside ++ [⟨.endOfText, stop⟩] :=
      (List.append_nil before).symm.trans (split.symm.trans same)
    exact (begins.isWord .endOfText (by simp [all])).elim
  | cons placed after =>
    refine ⟨before, placed, after, split, position, begins, ?_, fun ends => ?_⟩
    · rintro ⟨levels, later, expr, derives⟩
      exact impossible levels (placed :: later.map (⟨·, 0⟩)) expr rfl
        (by simpa [Function.comp_def] using derives)
    · have last : next (placed :: after) = .endOfText := ends
      have all := eq_of_ends (same.symm.trans split) last proper begins.isWord
      subst all
      refine ⟨is, fun levels expr derives => ?_, ?_⟩
      · exact impossible levels [] expr ends.symm (by rwa [List.append_nil, is])
      · rw [position]
        exact Cursor.start_eq_of_mem_tokens (by simp [split]) ends

/-- Brackets around something are refused at what they are around. -/
theorem position_of_parse_brackets :
    ∃ error, parse "A[B]" = .error error ∧ error.fault ≠ .nestedTooDeeply ∧ error.position = 2
      ∧ ∃ before placed after, Cursor.tokens "A[B]" = before ++ placed :: after
        ∧ error.position = placed.start
        ∧ IsBeginning (bare before) ∧ ¬ IsBeginning (bare before ++ [placed.token])
        ∧ (placed.token = .endOfText → bare before = sentence "A[B]"
          ∧ (∀ levels expr, ¬ Derives levels (sentence "A[B]") expr)
          ∧ error.position = "A[B]".utf8ByteSize) := by
  have found : (match parse "A[B]" with | .error error => some error | .ok _ => none)
      = some ⟨.unexpected (.sign .closeBracket) (.name "B"), 2⟩ := by decide +kernel
  cases parsed : parse "A[B]" with
  | ok expr =>
    rw [parsed] at found
    cases found
  | error error =>
    rw [parsed] at found
    cases found
    exact ⟨_, rfl, nofun, rfl, position_of_parse parsed nofun⟩

end TypeExpr

end ModelForms
