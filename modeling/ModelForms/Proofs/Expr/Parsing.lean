import ModelForms.Expr.Parser
import ModelForms.Proofs.Expr.Grammar

/-!
# What the parser accepts

The parser takes exactly the sentences of the grammar, and the tree it gives is the only one that
the sentence has (`TypeExpr.parse_eq_ok_iff`).

Each rule of the parser is compared with the relation of the same name in the grammar.  What a rule
takes off the tokens is a sentence of its relation (`Reads`).  Conversely a rule takes a sentence
off the tokens if what comes after it cannot go on with it (`Accepts`): the signs that could are
different for each rule, and a rule further out stops at more of them.
-/

namespace ModelForms

namespace TokenParser

open Grammar

variable {α β : Type}

/-- The token that comes next. -/
def next (tokens : List PlacedToken) : Token := (tokens.head?.getD ⟨.endOfText, 0⟩).token

/-- A parser succeeds on some tokens with a result and leaves the rest of them. -/
def Takes (parser : TokenParser α) (tokens : List PlacedToken) (x : α) (rest : List PlacedToken) :
    Prop :=
  parser.run tokens = .ok (x, rest)

section

variable {tokens rest : List PlacedToken} {sign : Punctuation}

/-! ## Steps -/

theorem takes_pure_iff {a x : α} :
    Takes (pure a : TokenParser α) tokens x rest ↔ x = a ∧ rest = tokens := by
  show (Except.ok (a, tokens) : Except ParseError (α × List PlacedToken)) = _ ↔ _
  rw [Except.ok.injEq, Prod.mk.injEq, eq_comm, @eq_comm _ tokens]

theorem run_bind (parser : TokenParser α) (more : α → TokenParser β) (tokens : List PlacedToken) :
    (parser >>= more).run tokens =
      match parser.run tokens with
      | .ok (a, middle) => (more a).run middle
      | .error error => .error error := by
  show (parser.run tokens >>= fun p => (more p.1).run p.2) = _
  cases parser.run tokens <;> rfl

theorem takes_bind_iff {parser : TokenParser α} {more : α → TokenParser β} {x : β} :
    Takes (parser >>= more) tokens x rest
      ↔ ∃ a middle, Takes parser tokens a middle ∧ Takes (more a) middle x rest := by
  unfold Takes
  rw [run_bind]
  cases parser.run tokens with
  | error error =>
    constructor
    · intro h
      cases h
    · rintro ⟨_, _, h, _⟩
      cases h
  | ok result =>
    obtain ⟨a, middle⟩ := result
    constructor
    · exact fun h => ⟨a, middle, rfl, h⟩
    · rintro ⟨_, _, h, h'⟩
      cases h
      exact h'

theorem takes_current_bind_iff {more : PlacedToken → TokenParser β} {x : β} :
    Takes (current >>= more) tokens x rest
      ↔ Takes (more (tokens.head?.getD ⟨.endOfText, 0⟩)) tokens x rest :=
  Iff.rfl

theorem takes_get_bind_iff {more : List PlacedToken → TokenParser β} {x : β} :
    Takes (get >>= more) tokens x rest ↔ Takes (more tokens) tokens x rest :=
  Iff.rfl

theorem takes_advance_bind_iff {more : TokenParser β} {x : β} :
    Takes (do advance; more) tokens x rest ↔ Takes more tokens.tail x rest :=
  Iff.rfl

theorem not_takes_fail {fault : ParseFault} {x : α} :
    ¬ Takes (fail fault : TokenParser α) tokens x rest := by
  intro h
  cases h

theorem not_takes_unexpected {expected : Expected} {x : α} :
    ¬ Takes (unexpected expected : TokenParser α) tokens x rest := by
  intro h
  cases h

/-- A token other than the end comes next only if it is there. -/
theorem exists_of_next {token : Token} (h : next tokens = token) (inside : token ≠ .endOfText) :
    ∃ start rest, tokens = ⟨token, start⟩ :: rest := by
  cases tokens with
  | nil => exact absurd h.symm inside
  | cons first rest => exact ⟨first.start, rest, by rw [← h]; rfl⟩

theorem takes_accept_iff {b : Bool} :
    Takes (accept sign) tokens b rest
      ↔ (b = true ∧ ∃ start, tokens = ⟨.punctuation sign, start⟩ :: rest)
        ∨ (b = false ∧ next tokens ≠ .punctuation sign ∧ rest = tokens) := by
  unfold accept
  rw [takes_current_bind_iff]
  show Takes (if next tokens = .punctuation sign then _ else _) tokens b rest ↔ _
  split
  next is =>
    obtain ⟨start, more, rfl⟩ := exists_of_next is nofun
    rw [takes_advance_bind_iff, takes_pure_iff]
    constructor
    · rintro ⟨rfl, rfl⟩
      exact .inl ⟨rfl, start, rfl⟩
    · rintro (⟨rfl, _, h⟩ | ⟨_, isNot, _⟩)
      · cases h
        exact ⟨rfl, rfl⟩
      · exact absurd is isNot
  next isNot =>
    rw [takes_pure_iff]
    constructor
    · exact fun h => .inr ⟨h.1, isNot, h.2⟩
    · rintro (⟨_, start, rfl⟩ | ⟨rfl, _, rfl⟩)
      · exact absurd rfl isNot
      · exact ⟨rfl, rfl⟩

theorem takes_ifAccept_iff {yes no : TokenParser β} {x : β} :
    Takes (do if ← accept sign then yes else no) tokens x rest
      ↔ (∃ start more, tokens = ⟨.punctuation sign, start⟩ :: more ∧ Takes yes more x rest)
        ∨ (next tokens ≠ .punctuation sign ∧ Takes no tokens x rest) := by
  rw [takes_bind_iff]
  constructor
  · rintro ⟨_, _, accepts, h⟩
    rcases takes_accept_iff.1 accepts with ⟨rfl, start, rfl⟩ | ⟨rfl, isNot, rfl⟩
    · exact .inl ⟨start, _, rfl, h⟩
    · exact .inr ⟨isNot, h⟩
  · rintro (⟨start, more, rfl, h⟩ | ⟨isNot, h⟩)
    · exact ⟨true, more, takes_accept_iff.2 (.inl ⟨rfl, start, rfl⟩), h⟩
    · exact ⟨false, tokens, takes_accept_iff.2 (.inr ⟨rfl, isNot, rfl⟩), h⟩

theorem takes_expect_iff :
    Takes (expect sign) tokens () rest ↔ ∃ start, tokens = ⟨.punctuation sign, start⟩ :: rest := by
  refine takes_ifAccept_iff.trans ⟨?_, ?_⟩
  · rintro (⟨start, _, rfl, h⟩ | ⟨_, h⟩)
    · obtain ⟨_, rfl⟩ := takes_pure_iff.1 h
      exact ⟨start, rfl⟩
    · exact absurd h not_takes_unexpected
  · rintro ⟨start, rfl⟩
    exact .inl ⟨start, rest, rfl, takes_pure_iff.2 ⟨rfl, rfl⟩⟩

end

/-! ## Reading and accepting -/

/-- The tokens without their places. -/
abbrev bare (placed : List PlacedToken) : List Token := placed.map PlacedToken.token

/-- What a parser takes is a sentence. -/
def Reads (parser : TokenParser α) (sentence : List Token → α → Prop) : Prop :=
  ∀ tokens x rest, Takes parser tokens x rest →
    ∃ used, tokens = used ++ rest ∧ sentence (bare used) x

/-- A parser takes each sentence that is not followed by one of some signs. -/
def Accepts (parser : TokenParser α) (sentence : List Token → α → Prop)
    (stops : List Punctuation) : Prop :=
  ∀ used x rest, sentence (bare used) x → (∀ sign ∈ stops, next rest ≠ .punctuation sign) →
    Takes parser (used ++ rest) x rest

section

variable {sign : Punctuation} {item : TokenParser α} {sentence : List Token → α → Prop}
  {stops : List Punctuation} {type : TokenParser TypeExpr}
  {isType : List Token → TypeExpr → Prop}

/-! ## Chains -/

/-- Items after one that was taken already. -/
theorem reads_itemsAfter (reads : Reads item sentence) : ∀ (fuel : Nat) {tokens : List PlacedToken}
    {xs : List α} {rest : List PlacedToken}, Takes (itemsAfter sign item fuel) tokens xs rest →
    ∀ {before : List PlacedToken} {x : α}, sentence (bare before) x →
      ∃ used, tokens = used ++ rest ∧ Separated sign sentence (bare (before ++ used)) (x :: xs)
  | 0, _, _, _, h, _, _, first => by
    obtain ⟨rfl, rfl⟩ := takes_pure_iff.1 h
    exact ⟨[], rfl, by simpa using .one first⟩
  | fuel + 1, _, _, _, h, before, _, first => by
    rw [itemsAfter] at h
    rcases takes_ifAccept_iff.1 h with ⟨start, _, rfl, goesOn⟩ | ⟨_, ends⟩
    · obtain ⟨_, _, takes, goesOn⟩ := takes_bind_iff.1 goesOn
      obtain ⟨_, _, more, goesOn⟩ := takes_bind_iff.1 goesOn
      obtain ⟨rfl, rfl⟩ := takes_pure_iff.1 goesOn
      obtain ⟨here, rfl, second⟩ := reads _ _ _ takes
      obtain ⟨used, rfl, others⟩ := reads_itemsAfter reads fuel more second
      refine ⟨⟨.punctuation sign, start⟩ :: (here ++ used), by simp, ?_⟩
      simpa using Separated.more first others
    · obtain ⟨rfl, rfl⟩ := takes_pure_iff.1 ends
      exact ⟨[], rfl, by simpa using .one first⟩

theorem reads_items (reads : Reads item sentence) :
    Reads (items sign item) (Separated sign sentence) := by
  intro tokens xs rest h
  obtain ⟨_, _, takes, h⟩ := takes_bind_iff.1 h
  obtain ⟨_, _, more, h⟩ := takes_bind_iff.1 (takes_get_bind_iff.1 h)
  obtain ⟨rfl, rfl⟩ := takes_pure_iff.1 h
  obtain ⟨before, rfl, first⟩ := reads _ _ _ takes
  obtain ⟨used, rfl, separated⟩ := reads_itemsAfter reads _ more first
  exact ⟨before ++ used, (List.append_assoc _ _ _).symm, separated⟩

/-- The items after the first one, each after a sign. -/
def Follows (sign : Punctuation) (sentence : List Token → α → Prop) (tokens : List Token)
    (xs : List α) : Prop :=
  (tokens = [] ∧ xs = [])
    ∨ ∃ rest, tokens = .punctuation sign :: rest ∧ Separated sign sentence rest xs

theorem exists_first {used : List PlacedToken} {xs : List α}
    (separated : Separated sign sentence (bare used) xs) :
    ∃ first more x others, used = first ++ more ∧ xs = x :: others ∧ sentence (bare first) x
      ∧ Follows sign sentence (bare more) others := by
  generalize same : bare used = tokens at separated
  cases separated with
  | one only =>
    subst same
    exact ⟨used, [], _, [], by simp, rfl, only, .inl ⟨rfl, rfl⟩⟩
  | more first others =>
    obtain ⟨before, after, rfl, rfl, after_eq⟩ := List.map_eq_append_iff.1 same
    exact ⟨before, after, _, _, rfl, rfl, first, .inr ⟨_, after_eq, others⟩⟩

/-- What comes after an item is the sign of the chain, or what comes after the chain. -/
theorem not_stop_of_follows (proper : sign ∉ stops) {more rest : List PlacedToken}
    {others : List α} (follows : Follows sign sentence (bare more) others)
    (stopped : ∀ other ∈ sign :: stops, next rest ≠ .punctuation other) :
    ∀ other ∈ stops, next (more ++ rest) ≠ .punctuation other := by
  intro other mem
  obtain ⟨none, _⟩ | ⟨_, is, _⟩ := follows
  · cases List.map_eq_nil_iff.1 none
    exact stopped other (List.mem_cons_of_mem sign mem)
  · obtain ⟨first, _, rfl, here, _⟩ := List.map_eq_cons_iff.1 is
    intro same
    have same : first.token = .punctuation other := same
    rw [here] at same
    cases same
    exact proper mem

/-- The loop may go on for as long as there are tokens, which is long enough. -/
theorem takes_itemsAfter (accepts : Accepts item sentence stops) (proper : sign ∉ stops) :
    ∀ (fuel : Nat) {more rest : List PlacedToken} {others : List α},
      Follows sign sentence (bare more) others → more.length ≤ fuel →
      (∀ other ∈ sign :: stops, next rest ≠ .punctuation other) →
      Takes (itemsAfter sign item fuel) (more ++ rest) others rest
  | 0, more, rest, others, follows, enough, stopped => by
    cases List.eq_nil_of_length_eq_zero (Nat.le_zero.1 enough)
    obtain ⟨_, rfl⟩ | ⟨_, h, _⟩ := follows
    · exact takes_pure_iff.2 ⟨rfl, rfl⟩
    · cases h
  | fuel + 1, more, rest, others, follows, enough, stopped => by
    obtain ⟨none, rfl⟩ | ⟨tokens, is, separated⟩ := follows
    · cases List.map_eq_nil_iff.1 none
      exact takes_ifAccept_iff.2
        (.inr ⟨stopped sign List.mem_cons_self, takes_pure_iff.2 ⟨rfl, rfl⟩⟩)
    · obtain ⟨⟨_, start⟩, used, rfl, rfl, rfl⟩ := List.map_eq_cons_iff.1 is
      obtain ⟨first, later, x, xs, rfl, rfl, here, follows⟩ := exists_first separated
      rw [itemsAfter, List.cons_append, List.append_assoc]
      refine takes_ifAccept_iff.2 (.inl ⟨start, _, rfl, takes_bind_iff.2 ⟨x, later ++ rest, ?_,
        takes_bind_iff.2 ⟨xs, rest, ?_, takes_pure_iff.2 ⟨rfl, rfl⟩⟩⟩⟩)
      · exact accepts _ _ _ here (not_stop_of_follows proper follows stopped)
      · refine takes_itemsAfter accepts proper fuel follows ?_ stopped
        simp at enough
        omega

theorem accepts_items (accepts : Accepts item sentence stops) (proper : sign ∉ stops) :
    Accepts (items sign item) (Separated sign sentence) (sign :: stops) := by
  intro used xs rest separated stopped
  obtain ⟨first, more, x, others, rfl, rfl, here, follows⟩ := exists_first separated
  refine takes_bind_iff.2 ⟨x, more ++ rest, ?_, takes_get_bind_iff.2 (takes_bind_iff.2
    ⟨others, rest, ?_, takes_pure_iff.2 ⟨rfl, rfl⟩⟩)⟩
  · rw [List.append_assoc]
    exact accepts _ _ _ here (not_stop_of_follows proper follows stopped)
  · exact takes_itemsAfter accepts proper _ follows (by simp) stopped

theorem chain_eq (make : List TypeExpr → TypeExpr) (item : TokenParser TypeExpr) :
    chain make sign item = do return chainTree make (← items sign item) := by
  refine congrArg (items sign item >>= ·) (funext fun members => ?_)
  rcases members with _ | ⟨first, _ | ⟨second, more⟩⟩
  · rfl
  · rfl
  · rfl

theorem takes_chain_iff {make : List TypeExpr → TypeExpr} {item : TokenParser TypeExpr}
    {tokens rest : List PlacedToken} {expr : TypeExpr} :
    Takes (chain make sign item) tokens expr rest
      ↔ ∃ members, Takes (items sign item) tokens members rest ∧ expr = chainTree make members := by
  rw [chain_eq, takes_bind_iff]
  constructor
  · rintro ⟨members, _, takes, h⟩
    obtain ⟨rfl, rfl⟩ := takes_pure_iff.1 h
    exact ⟨members, takes, rfl⟩
  · rintro ⟨members, takes, rfl⟩
    exact ⟨members, rest, takes, takes_pure_iff.2 ⟨rfl, rfl⟩⟩

/-! ## The rules -/

theorem reads_arguments (reads : Reads type isType) {tokens rest : List PlacedToken}
    {args : List TypeExpr} {name : String} (h : Takes (arguments type) tokens args rest)
    (free : IsFree name) :
    ∃ used, tokens = used ++ rest
      ∧ Primary isType (.name name :: bare used) (.reference name args) := by
  rcases takes_ifAccept_iff.1 h with ⟨start, _, rfl, opens⟩ | ⟨_, ends⟩
  · obtain ⟨_, _, takes, opens⟩ := takes_bind_iff.1 opens
    obtain ⟨_, _, closes, opens⟩ := takes_bind_iff.1 opens
    obtain ⟨rfl, rfl⟩ := takes_pure_iff.1 opens
    obtain ⟨stop, rfl⟩ := takes_expect_iff.1 closes
    obtain ⟨used, rfl, separated⟩ := reads_items reads _ _ _ takes
    refine ⟨⟨.punctuation .less, start⟩ :: (used ++ [⟨.punctuation .greater, stop⟩]), by simp, ?_⟩
    simpa using Primary.generic free separated
  · obtain ⟨rfl, rfl⟩ := takes_pure_iff.1 ends
    exact ⟨[], rfl, .bare free⟩

theorem reads_named (reads : Reads type isType) {tokens rest : List PlacedToken}
    {expr : TypeExpr} {name : String} (h : Takes (named type name) tokens expr rest) :
    ∃ used, tokens = used ++ rest ∧ Primary isType (.name name :: bare used) expr := by
  unfold named at h
  split at h
  next is =>
    obtain ⟨rfl, rfl⟩ := takes_pure_iff.1 h
    exact ⟨[], rfl, is ▸ .trueWord⟩
  next notTrue =>
    split at h
    next is =>
      obtain ⟨rfl, rfl⟩ := takes_pure_iff.1 h
      exact ⟨[], rfl, is ▸ .falseWord⟩
    next notFalse =>
      split at h
      next k is =>
        obtain ⟨rfl, rfl⟩ := takes_pure_iff.1 h
        exact ⟨[], rfl, .keyword is⟩
      next other =>
        obtain ⟨args, _, takes, h⟩ := takes_bind_iff.1 h
        obtain ⟨rfl, rfl⟩ := takes_pure_iff.1 h
        exact reads_arguments reads takes ⟨other, notTrue, notFalse⟩

theorem reads_primary (reads : Reads type isType) : Reads (primary type) (Primary isType) := by
  intro tokens expr rest h
  unfold primary at h
  rw [takes_current_bind_iff] at h
  generalize found : (tokens.head?.getD ⟨.endOfText, 0⟩).token = token at h
  have here (inside : token ≠ .endOfText) : ∃ start more, tokens = ⟨token, start⟩ :: more :=
    exists_of_next found inside
  split at h
  · obtain ⟨start, more, rfl⟩ := here nofun
    rw [takes_advance_bind_iff] at h
    obtain ⟨_, _, takes, h⟩ := takes_bind_iff.1 h
    obtain ⟨_, _, closes, h⟩ := takes_bind_iff.1 h
    obtain ⟨rfl, rfl⟩ := takes_pure_iff.1 h
    obtain ⟨stop, rfl⟩ := takes_expect_iff.1 closes
    obtain ⟨used, same, inner⟩ := reads _ _ _ takes
    refine ⟨⟨.punctuation .openParen, start⟩ :: (used ++ [⟨.punctuation .closeParen, stop⟩]),
      ?_, ?_⟩
    · simpa using same
    · simpa using Primary.parentheses inner
  · obtain ⟨start, more, rfl⟩ := here nofun
    rw [takes_advance_bind_iff, takes_pure_iff] at h
    obtain ⟨rfl, rfl⟩ := h
    exact ⟨[_], rfl, .string _⟩
  · split at h
    next value denotes =>
      obtain ⟨start, more, rfl⟩ := here nofun
      rw [takes_advance_bind_iff, takes_pure_iff] at h
      obtain ⟨rfl, rfl⟩ := h
      exact ⟨[_], rfl, .number denotes⟩
    next => exact absurd h not_takes_fail
  · obtain ⟨start, more, rfl⟩ := here nofun
    rw [takes_advance_bind_iff] at h
    obtain ⟨used, same, is⟩ := reads_named reads h
    exact ⟨_ :: used, congrArg (_ :: ·) same, is⟩
  · exact absurd h not_takes_unexpected

theorem reads_brackets : ∀ (fuel : Nat) {tokens rest : List PlacedToken} {base expr : TypeExpr},
    Takes (brackets fuel base) tokens expr rest → ∀ {before : List PlacedToken},
      Bracketed isType (bare before) base →
      ∃ used, tokens = used ++ rest ∧ Bracketed isType (bare (before ++ used)) expr
  | 0, _, _, _, _, h, _, is => by
    obtain ⟨rfl, rfl⟩ := takes_pure_iff.1 h
    exact ⟨[], rfl, by simpa using is⟩
  | fuel + 1, _, _, base, _, h, before, is => by
    rw [brackets] at h
    rcases takes_ifAccept_iff.1 h with ⟨start, _, rfl, opens⟩ | ⟨_, ends⟩
    · obtain ⟨_, _, closes, goesOn⟩ := takes_bind_iff.1 opens
      obtain ⟨stop, rfl⟩ := takes_expect_iff.1 closes
      have pair : Bracketed isType (bare (before ++
          [⟨.punctuation .openBracket, start⟩, ⟨.punctuation .closeBracket, stop⟩]))
            (.array base) := by
        simpa using Bracketed.array is
      obtain ⟨used, rfl, more⟩ := reads_brackets fuel goesOn pair
      exact ⟨_ :: _ :: used, rfl, by simpa using more⟩
    · obtain ⟨rfl, rfl⟩ := takes_pure_iff.1 ends
      exact ⟨[], rfl, by simpa using is⟩

theorem reads_bracketed (reads : Reads type isType) :
    Reads (bracketed type) (Bracketed isType) := by
  intro tokens expr rest h
  obtain ⟨_, _, takes, goesOn⟩ := takes_bind_iff.1 h
  obtain ⟨before, rfl, is⟩ := reads_primary reads _ _ _ takes
  obtain ⟨used, rfl, more⟩ := reads_brackets _ (takes_get_bind_iff.1 goesOn) (.primary is)
  exact ⟨before ++ used, (List.append_assoc _ _ _).symm, more⟩

theorem reads_intersection (reads : Reads type isType) :
    Reads (intersection type) (IntersectionChain isType) := by
  intro tokens expr rest h
  obtain ⟨members, takes, rfl⟩ := takes_chain_iff.1 h
  obtain ⟨used, rfl, separated⟩ := reads_items (reads_bracketed reads) _ _ _ takes
  exact ⟨used, rfl, .intro separated⟩

theorem reads_union (reads : Reads type isType) : Reads (union type) (UnionChain isType) := by
  intro tokens expr rest h
  obtain ⟨_, _, accepts, h⟩ := takes_bind_iff.1 h
  obtain ⟨members, takes, rfl⟩ := takes_chain_iff.1 h
  obtain ⟨used, rfl, separated⟩ := reads_items (reads_intersection reads) _ _ _ takes
  rcases takes_accept_iff.1 accepts with ⟨_, start, rfl⟩ | ⟨_, _, rfl⟩
  · exact ⟨⟨.punctuation .bar, start⟩ :: used, rfl, .leadingBar separated⟩
  · exact ⟨used, rfl, .intro separated⟩

/-- What is taken for a type is one, of at most as many levels. -/
theorem reads_type : ∀ levels : Nat, Reads (TokenParser.type levels) (Derives levels)
  | 0, _, _, _, h => absurd h not_takes_fail
  | levels + 1, tokens, expr, rest, h => reads_union (reads_type levels) tokens expr rest h

/-! ## Sentences are taken -/

/-- The signs that go on with a type. -/
def typeStops : List Punctuation := [.bar, .ampersand, .openBracket, .less]

theorem takes_expect {start : Nat} {rest : List PlacedToken} :
    Takes (expect sign) (⟨.punctuation sign, start⟩ :: rest) () rest :=
  takes_expect_iff.2 ⟨start, rfl⟩

theorem takes_named (name : String) {tokens rest : List PlacedToken} {args : List TypeExpr}
    (free : IsFree name) (takes : Takes (arguments type) tokens args rest) :
    Takes (named type name) tokens (.reference name args) rest := by
  unfold named
  rw [if_neg free.ne_true, if_neg free.ne_false, free.intrinsic]
  exact takes_bind_iff.2 ⟨args, rest, takes, takes_pure_iff.2 ⟨rfl, rfl⟩⟩

/-- Tokens between two others. -/
theorem exists_between {used : List PlacedToken} {first last : Token} {tokens : List Token}
    (same : bare used = first :: tokens ++ [last]) :
    ∃ start between stop, used = ⟨first, start⟩ :: (between ++ [⟨last, stop⟩])
      ∧ bare between = tokens := by
  obtain ⟨⟨_, start⟩, _, rfl, rfl, more⟩ := List.map_eq_cons_iff.1 same
  obtain ⟨between, _, rfl, inside, closing⟩ := List.map_eq_append_iff.1 more
  obtain ⟨⟨_, stop⟩, _, rfl, rfl, nothing⟩ := List.map_eq_cons_iff.1 closing
  cases List.map_eq_nil_iff.1 nothing
  exact ⟨start, between, stop, rfl, inside⟩

theorem exists_single {used : List PlacedToken} {token : Token} (same : bare used = [token]) :
    ∃ start, used = [⟨token, start⟩] := by
  obtain ⟨⟨_, start⟩, _, rfl, rfl, nothing⟩ := List.map_eq_cons_iff.1 same
  cases List.map_eq_nil_iff.1 nothing
  exact ⟨start, rfl⟩

theorem takes_arguments (accepts : Accepts type isType typeStops) {used rest : List PlacedToken}
    {args : List TypeExpr} {start stop : Nat}
    (separated : Separated .comma isType (bare used) args) :
    Takes (arguments type)
      (⟨.punctuation .less, start⟩ :: (used ++ ⟨.punctuation .greater, stop⟩ :: rest))
      args rest := by
  have lists := accepts_items accepts (show Punctuation.comma ∉ typeStops by decide) used args
    (⟨.punctuation .greater, stop⟩ :: rest) separated (by simp [next, typeStops])
  exact takes_ifAccept_iff.2 (.inl ⟨start, _, rfl, takes_bind_iff.2 ⟨args, _, lists,
    takes_bind_iff.2 ⟨(), rest, takes_expect, takes_pure_iff.2 ⟨rfl, rfl⟩⟩⟩⟩)

theorem accepts_primary (accepts : Accepts type isType typeStops) :
    Accepts (primary type) (Primary isType) [.less] := by
  intro used expr rest is stopped
  generalize same : bare used = tokens at is
  cases is with
  | parentheses inner =>
    obtain ⟨start, between, stop, rfl, rfl⟩ := exists_between same
    have takes := accepts between expr (⟨.punctuation .closeParen, stop⟩ :: rest) inner
      (by simp [next, typeStops])
    rw [List.cons_append, List.append_assoc]
    show Takes (do let inner ← type; expect .closeParen; return inner) _ _ _
    exact takes_bind_iff.2 ⟨expr, _, takes, takes_bind_iff.2 ⟨(), rest, takes_expect,
      takes_pure_iff.2 ⟨rfl, rfl⟩⟩⟩
  | string value =>
    obtain ⟨start, rfl⟩ := exists_single same
    rfl
  | @number text value denotes =>
    obtain ⟨start, rfl⟩ := exists_single same
    unfold primary
    rw [takes_current_bind_iff]
    simp only [List.cons_append, List.head?_cons, Option.getD_some]
    rw [denotes]
    rfl
  | trueWord | falseWord =>
    obtain ⟨start, rfl⟩ := exists_single same
    rfl
  | @keyword name k is =>
    obtain ⟨start, rfl⟩ := exists_single same
    show Takes (named type name) rest (.keyword k) rest
    unfold named
    rw [if_neg (by rintro rfl; cases is), if_neg (by rintro rfl; cases is), is]
    exact takes_pure_iff.2 ⟨rfl, rfl⟩
  | @bare name free =>
    obtain ⟨start, rfl⟩ := exists_single same
    exact takes_named name free
      (takes_ifAccept_iff.2 (.inr ⟨stopped _ List.mem_cons_self, takes_pure_iff.2 ⟨rfl, rfl⟩⟩))
  | @generic name _ args free lists =>
    obtain ⟨⟨_, start⟩, _, rfl, rfl, more⟩ := List.map_eq_cons_iff.1 same
    obtain ⟨opening, between, stop, rfl, rfl⟩ := exists_between more
    rw [List.cons_append, List.cons_append, List.append_assoc]
    exact takes_named name free (takes_arguments accepts lists)

/-- The pairs of brackets are taken one by one, after the type that they follow. -/
theorem takes_bracketed (accepts : Accepts type isType typeStops) {tokens : List Token}
    {expr : TypeExpr} (is : Bracketed isType tokens expr) :
    ∀ {used rest : List PlacedToken}, bare used = tokens → next rest ≠ .punctuation .less →
      ∃ fuel, rest.length ≤ fuel ∧ ∀ last left, Takes (brackets fuel expr) rest last left →
        Takes (bracketed type) (used ++ rest) last left := by
  induction is with
  | primary is =>
    rintro used rest rfl stopped
    have takes := accepts_primary accepts used _ rest is (by simpa using stopped)
    exact ⟨rest.length, Nat.le_refl _, fun last left goesOn =>
      takes_bind_iff.2 ⟨_, rest, takes, takes_get_bind_iff.2 goesOn⟩⟩
  | array _ ih =>
    intro used rest same _
    obtain ⟨before, _, rfl, element, pair⟩ := List.map_eq_append_iff.1 same
    obtain ⟨⟨_, start⟩, _, rfl, rfl, more⟩ := List.map_eq_cons_iff.1 pair
    obtain ⟨stop, rfl⟩ := exists_single more
    obtain ⟨fuel, enough, goesOn⟩ :=
      @ih before (⟨.punctuation .openBracket, start⟩ :: ⟨.punctuation .closeBracket, stop⟩ :: rest)
        element (by simp [next])
    obtain ⟨fuel, rfl⟩ : ∃ n, fuel = n + 1 := ⟨fuel - 1, by simp at enough; omega⟩
    refine ⟨fuel, by simp at enough; omega, fun last left more => ?_⟩
    rw [List.append_assoc]
    refine goesOn last left ?_
    rw [brackets]
    exact takes_ifAccept_iff.2
      (.inl ⟨start, _, rfl, takes_bind_iff.2 ⟨(), rest, takes_expect, more⟩⟩)

theorem accepts_bracketed (accepts : Accepts type isType typeStops) :
    Accepts (bracketed type) (Bracketed isType) [.openBracket, .less] := by
  intro used expr rest is stopped
  obtain ⟨fuel, _, goesOn⟩ := takes_bracketed accepts is rfl (stopped .less (by decide))
  refine goesOn expr rest ?_
  cases fuel with
  | zero => exact takes_pure_iff.2 ⟨rfl, rfl⟩
  | succ fuel =>
    rw [brackets]
    exact takes_ifAccept_iff.2
      (.inr ⟨stopped .openBracket List.mem_cons_self, takes_pure_iff.2 ⟨rfl, rfl⟩⟩)

theorem accepts_intersection (accepts : Accepts type isType typeStops) :
    Accepts (intersection type) (IntersectionChain isType) [.ampersand, .openBracket, .less] := by
  intro used expr rest is stopped
  generalize same : bare used = tokens at is
  cases is with
  | intro separated =>
    subst same
    exact takes_chain_iff.2 ⟨_,
      accepts_items (accepts_bracketed accepts) (by decide) used _ rest separated stopped, rfl⟩

theorem accepts_union (accepts : Accepts type isType typeStops) :
    Accepts (union type) (UnionChain isType) typeStops := by
  intro used expr rest is stopped
  have items := @accepts_items _ .bar _ _ _ (accepts_intersection accepts) (by decide)
  generalize same : bare used = tokens at is
  cases is with
  | intro separated =>
    subst same
    refine takes_bind_iff.2 ⟨false, used ++ rest, takes_accept_iff.2 (.inr ⟨rfl, ?_, rfl⟩),
      takes_chain_iff.2 ⟨_, items used _ rest separated stopped, rfl⟩⟩
    obtain ⟨first, _, starts, proper⟩ :=
      separated.noBarFirst fun _ _ => IntersectionChain.noBarFirst
    obtain ⟨_, _, rfl, rfl, _⟩ := List.map_eq_cons_iff.1 starts
    exact proper
  | leadingBar separated =>
    obtain ⟨⟨_, start⟩, more, rfl, rfl, rfl⟩ := List.map_eq_cons_iff.1 same
    exact takes_bind_iff.2 ⟨true, more ++ rest, takes_accept_iff.2 (.inl ⟨rfl, start, rfl⟩),
      takes_chain_iff.2 ⟨_, items more _ rest separated stopped, rfl⟩⟩

/-- A sentence for a type is taken if nothing goes on with it. -/
theorem accepts_type : ∀ levels : Nat,
    Accepts (TokenParser.type levels) (Derives levels) typeStops
  | 0, _, _, _, h, _ => h.elim
  | levels + 1, used, expr, rest, h, stopped =>
      accepts_union (accepts_type levels) used expr rest h stopped

end

end TokenParser

/-! ## Texts -/

namespace Cursor

/-- The tokens end with the end of the text, and it comes nowhere before. -/
theorem exists_scanMany : ∀ (fuel : Nat) (cursor : Cursor), cursor.rest.length < fuel →
    ∃ inside stop, scanMany fuel cursor = inside ++ [⟨.endOfText, stop⟩]
      ∧ ∀ placed ∈ inside, placed.token ≠ .endOfText
  | 0, _, enough => absurd enough (Nat.not_lt_zero _)
  | fuel + 1, cursor, enough => by
    unfold scanMany
    cases scanned : cursor.scan with
    | mk found later =>
    simp only
    split
    next ends => exact ⟨[], found.start, by rw [← ends]; rfl, nofun⟩
    next goesOn =>
      have shorter : later.rest.length < cursor.rest.length := by
        have := @length_scan_lt cursor
        rw [scanned] at this
        exact this goesOn
      obtain ⟨inside, stop, same, proper⟩ := exists_scanMany fuel later (by omega)
      exact ⟨found :: inside, stop, by rw [same, List.cons_append],
        List.forall_mem_cons.2 ⟨goesOn, proper⟩⟩

end Cursor

namespace TypeExpr

open Grammar TokenParser

/-- The tokens of a text before its end. -/
def sentence (text : String) : List Token := (bare (Cursor.tokens text)).dropLast

theorem exists_tokens (text : String) :
    ∃ inside stop, Cursor.tokens text = inside ++ [⟨.endOfText, stop⟩]
      ∧ bare inside = sentence text ∧ ∀ placed ∈ inside, placed.token ≠ .endOfText := by
  obtain ⟨inside, stop, same, proper⟩ :=
    Cursor.exists_scanMany (text.toList.length + 1) (.start text) (Nat.lt_succ_self _)
  have same : Cursor.tokens text = inside ++ [⟨.endOfText, stop⟩] := same
  refine ⟨inside, stop, same, ?_, proper⟩
  rw [sentence, same]
  simp

theorem takes_whole_iff {tokens rest : List PlacedToken} {expr : TypeExpr} :
    Takes whole tokens expr rest
      ↔ Takes (TokenParser.type Limits.expressionDepth) tokens expr rest
        ∧ next rest = .endOfText := by
  unfold whole
  rw [takes_bind_iff]
  constructor
  · rintro ⟨found, middle, takes, h⟩
    have h : Takes (if next middle = .endOfText then pure found
        else unexpected .endOfText >>= fun _ => pure found) middle expr rest := h
    split at h
    next ends =>
      obtain ⟨rfl, rfl⟩ := takes_pure_iff.1 h
      exact ⟨takes, ends⟩
    next =>
      obtain ⟨_, _, refuses, _⟩ := takes_bind_iff.1 h
      exact absurd refuses not_takes_unexpected
  · rintro ⟨takes, ends⟩
    refine ⟨expr, rest, takes, ?_⟩
    show Takes (if next rest = .endOfText then pure expr
        else unexpected .endOfText >>= fun _ => pure expr) rest expr rest
    rw [if_pos ends]
    exact takes_pure_iff.2 ⟨rfl, rfl⟩

theorem parse_eq_ok_iff_takes {text : String} {expr : TypeExpr} :
    parse text = .ok expr ↔ ∃ rest, Takes whole (Cursor.tokens text) expr rest := by
  unfold parse Takes
  cases whole.run (Cursor.tokens text) with
  | error error =>
    constructor
    · intro h
      cases h
    · rintro ⟨_, h⟩
      cases h
  | ok result =>
    constructor
    · intro h
      cases h
      exact ⟨result.2, rfl⟩
    · rintro ⟨_, h⟩
      cases h
      rfl

/-- A sentence that is followed by the end of the text is taken, over enough levels. -/
theorem takes_of_derives {text : String} {levels : Nat} {expr : TypeExpr}
    (derives : Derives levels (sentence text) expr) :
    ∃ stop, Takes (TokenParser.type levels) (Cursor.tokens text) expr [⟨.endOfText, stop⟩] := by
  obtain ⟨inside, stop, same, is, _⟩ := exists_tokens text
  rw [← is] at derives
  rw [same]
  exact ⟨stop, accepts_type levels inside expr _ derives (by simp [next])⟩

/-- What is taken up to the end of a text is the whole text. -/
theorem eq_of_ends {used rest inside : List PlacedToken} {stop : Nat}
    (split : inside ++ [⟨.endOfText, stop⟩] = used ++ rest) (ends : next rest = .endOfText)
    (proper : ∀ placed ∈ inside, placed.token ≠ .endOfText)
    (words : ∀ token ∈ bare used, IsWord token) : used = inside := by
  rcases List.append_eq_append_iff.1 split with ⟨more, rfl, same⟩ | ⟨more, rfl, rfl⟩
  · cases more with
    | nil => rw [List.append_nil]
    | cons first _ =>
      obtain ⟨rfl, _⟩ := List.cons.inj same
      exact (words .endOfText (by simp)).elim
  · cases more with
    | nil => rw [List.append_nil]
    | cons first _ => exact absurd ends (proper first (by simp))

/-- What a text is parsed to has no chain of one member. -/
theorem proper_of_parse {text : String} {expr : TypeExpr} (h : parse text = .ok expr) :
    Proper expr := by
  obtain ⟨rest, takes⟩ := parse_eq_ok_iff_takes.1 h
  obtain ⟨takes, _⟩ := takes_whole_iff.1 takes
  obtain ⟨_, _, derives⟩ := reads_type _ _ _ _ takes
  exact derives.proper

/-- A text is accepted exactly if all its tokens are readable and they are a sentence of the grammar
in which no more types stand inside each other than may.  The sentence has one tree, however deep
its types may be, and that is what the text is parsed to. -/
theorem parse_eq_ok_iff {text : String} {expr : TypeExpr} :
    parse text = .ok expr
      ↔ (∀ unread fault, .unreadable unread fault ∉ sentence text)
        ∧ Derives Limits.expressionDepth (sentence text) expr
        ∧ ∀ levels other, Derives levels (sentence text) other → other = expr := by
  constructor
  · intro h
    obtain ⟨rest, takes⟩ := parse_eq_ok_iff_takes.1 h
    obtain ⟨takes, ends⟩ := takes_whole_iff.1 takes
    obtain ⟨inside, stop, same, is, proper⟩ := exists_tokens text
    obtain ⟨used, split, derives⟩ := reads_type _ _ _ _ takes
    have derives : Derives Limits.expressionDepth (sentence text) expr := by
      rw [← is, ← eq_of_ends (same ▸ split) ends proper derives.isWord]
      exact derives
    refine ⟨fun _ _ mem => derives.isWord _ mem, derives, fun levels other derives' => ?_⟩
    have enough := Nat.le_max_left Limits.expressionDepth levels
    obtain ⟨_, takes⟩ := takes_of_derives (derives.mono enough)
    obtain ⟨_, takes'⟩ := takes_of_derives (derives'.mono (Nat.le_max_right _ levels))
    cases takes.symm.trans takes'
    rfl
  · rintro ⟨_, derives, _⟩
    obtain ⟨stop, takes⟩ := takes_of_derives derives
    exact parse_eq_ok_iff_takes.2 ⟨_, takes_whole_iff.2 ⟨takes, rfl⟩⟩

end TypeExpr

end ModelForms
