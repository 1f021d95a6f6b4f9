import ScriptFront.Grammar.Phrase

/-!
# Steps between places in the tokens

What the lookups of a cursor find, said as relations between the places before and behind it.  A
lookup finds something exactly if the relation leads to some place.
-/

namespace ScriptFront

/-- Tokens of these kinds belong to the layout. They cannot start a statement. -/
def Kind.isLayout : Kind → Bool
  | .newline | .indent | .dedent | .endOfInput => true
  | _ => false

namespace Cursor

theorem isLayout_eq (token : Token) : isLayout token = token.kind.isLayout := rfl

/-- The next token, and the place behind it. -/
structure Takes (cursor : Cursor) (token : Token) (next : Cursor) : Prop where
  ahead : cursor.ahead = token :: next.ahead
  ending : next.ending = cursor.ending
  afterBody : next.afterBody = decide (token.kind = .dedent)

/-- The next token is of the given kind. -/
def Accepts (cursor : Cursor) (kind : Kind) (next : Cursor) : Prop :=
  ∃ token, cursor.Takes token next ∧ token.kind = kind

/-- An operator ahead that continues the expression before it. -/
def Continues
    (cursor : Cursor) (operator : Operator) (binding : Binding) (next : Cursor) : Prop :=
  cursor.afterBody = false ∧ cursor.Accepts (.operator operator) next ∧
    operator.binding? = some binding

/-- A colon ahead that makes the expression before it a key. -/
def Separates (cursor next : Cursor) : Prop :=
  cursor.afterBody = false ∧ cursor.Accepts (.mark .colon) next ∧ next.peek.spaced

/-- A word with its colon ahead that names the key of a pair. -/
def NamesKey (cursor : Cursor) (name : String) (next : Cursor) : Prop :=
  ∃ word middle, cursor.Takes word middle ∧
    ((∃ text, word.kind = .identifier text) ∨ ∃ keyword, word.kind = .keyword keyword) ∧
    middle.Accepts (.mark .colon) next ∧ next.peek.spaced ∧ name = word.lexeme

/-- The newlines and the indent ahead that start an indented body. -/
def StartsBody (cursor next : Cursor) : Prop :=
  ∃ line, cursor.Accepts .newline line ∧ line.skipNewlines.Accepts .indent next

/-- Nothing ahead belongs to the string before it. -/
def EndsString (cursor : Cursor) : Prop :=
  cursor.peek.kind ≠ .interpolationStart ∧
    ∀ text, cursor.peek.kind = .fragment text → cursor.peek.spaced = true

/-- A statement ends here: at a newline, which is taken, or at what ends a body. -/
def EndsStatement (cursor next : Cursor) : Prop :=
  cursor.Accepts .newline next ∨
    cursor.peek.kind ≠ .newline ∧
      (cursor.isAt .dedent || cursor.atEnd || cursor.afterBody) = true ∧ next = cursor

variable {cursor next last : Cursor} {token : Token} {kind : Kind}

/-! ## Taking a token -/

theorem Takes.size_lt (takes : cursor.Takes token next) : next.size < cursor.size := by
  simp [size, takes.ahead]

theorem Takes.peek (takes : cursor.Takes token next) : cursor.peek = token := by
  simp [Cursor.peek, peekAt, takes.ahead]

theorem Takes.peekAt_succ (takes : cursor.Takes token next) (distance : Nat) :
    cursor.peekAt (distance + 1) = next.peekAt distance := by
  rw [peekAt, takes.ahead, ← takes.ending]
  rfl

theorem Accepts.size_lt (accepts : cursor.Accepts kind next) : next.size < cursor.size := by
  obtain ⟨token, takes, -⟩ := accepts
  exact takes.size_lt

theorem Accepts.ending (accepts : cursor.Accepts kind next) : next.ending = cursor.ending := by
  obtain ⟨token, takes, -⟩ := accepts
  exact takes.ending

theorem Accepts.peek_kind (accepts : cursor.Accepts kind next) : cursor.peek.kind = kind := by
  obtain ⟨token, takes, isKind⟩ := accepts
  rw [takes.peek, isKind]

/-- At most one token is next. -/
theorem Takes.unique
    {first second : Token} {left right : Cursor}
    (isFirst : cursor.Takes first left) (isSecond : cursor.Takes second right) :
    first = second ∧ left = right := by
  obtain ⟨rfl, sameAhead⟩ := List.cons.inj (isFirst.ahead.symm.trans isSecond.ahead)
  have sameEnding := isFirst.ending.trans isSecond.ending.symm
  have sameFlag := isFirst.afterBody.trans isSecond.afterBody.symm
  cases left
  cases right
  simp_all

theorem Accepts.unique
    {left right : Cursor} (isFirst : cursor.Accepts kind left)
    (isSecond : cursor.Accepts kind right) : left = right := by
  obtain ⟨first, takesFirst, -⟩ := isFirst
  obtain ⟨second, takesSecond, -⟩ := isSecond
  exact (takesFirst.unique takesSecond).2

theorem takes_past {rest : List Token} (ahead : cursor.ahead = token :: rest) :
    cursor.Takes token (cursor.past token rest) :=
  ⟨ahead, rfl, rfl⟩

theorem takes_of_take? {taken : Taken cursor} (found : cursor.take? = some taken) :
    cursor.Takes taken.token taken.next := by
  unfold take? at found
  split at found
  · cases found
  · rename_i first rest isAhead
    obtain rfl := Option.some.inj found
    exact takes_past isAhead

theorem ahead_eq_nil_of_take? (absent : cursor.take? = none) : cursor.ahead = [] := by
  unfold take? at absent
  split at absent
  · assumption
  · cases absent

theorem take?_of_takes (takes : cursor.Takes token next) :
    ∃ taken, cursor.take? = some taken ∧ taken.token = token ∧ taken.next = next := by
  cases found : cursor.take? with
  | none =>
      have isAhead := takes.ahead
      rw [ahead_eq_nil_of_take? found] at isAhead
      cases isAhead
  | some taken =>
      obtain ⟨sameToken, sameNext⟩ := (takes_of_take? found).unique takes
      exact ⟨taken, rfl, sameToken, sameNext⟩

/-- The kind of the next token, if there is one. -/
theorem peek_kind_eq (cursor : Cursor) :
    cursor.peek.kind = match cursor.take? with
      | none => .endOfInput
      | some first => first.token.kind := by
  cases isFirst : cursor.take? with
  | none =>
      rw [peek, peekAt, ahead_eq_nil_of_take? isFirst]
      rfl
  | some first => rw [(takes_of_take? isFirst).peek]

/-! ## Accepting a token of a kind -/

theorem accepts_of_accept? {taken : Advance cursor}
    (found : cursor.accept? kind = some taken) : cursor.Accepts kind taken.next := by
  unfold accept? at found
  split at found
  · cases found
  · rename_i first isFirst
    split at found
    · rename_i isKind
      obtain rfl := Option.some.inj found
      exact ⟨first.token, takes_of_take? isFirst, isKind⟩
    · cases found

theorem accept?_of_accepts (accepts : cursor.Accepts kind next) :
    ∃ taken, cursor.accept? kind = some taken ∧ taken.next = next := by
  obtain ⟨token, takes, isKind⟩ := accepts
  obtain ⟨taken, found, rfl, rfl⟩ := take?_of_takes takes
  exact ⟨taken.toAdvance, by simp [accept?, found, isKind], rfl⟩

theorem take?_of_accepts (accepts : cursor.Accepts kind next) :
    ∃ taken, cursor.take? = some taken ∧ taken.token.kind = kind ∧ taken.next = next := by
  obtain ⟨token, takes, isKind⟩ := accepts
  obtain ⟨taken, found, rfl, rfl⟩ := take?_of_takes takes
  exact ⟨taken, found, isKind, rfl⟩

theorem peek_kind_ne_of_accept? (absent : cursor.accept? kind = none)
    (real : kind ≠ .endOfInput) : cursor.peek.kind ≠ kind := by
  intro isKind
  cases isAhead : cursor.ahead with
  | nil =>
      refine real (isKind.symm.trans ?_)
      simp [peek, peekAt, isAhead, Ending.token]
  | cons token rest =>
      have takes := takes_past isAhead
      obtain ⟨taken, found, -⟩ :=
        accept?_of_accepts ⟨token, takes, takes.peek.symm ▸ isKind⟩
      rw [absent] at found
      cases found

theorem accepts_of_peek_kind (isKind : cursor.peek.kind = kind) (real : kind ≠ .endOfInput) :
    ∃ next, cursor.Accepts kind next := by
  cases found : cursor.accept? kind with
  | none => exact absurd isKind (peek_kind_ne_of_accept? found real)
  | some taken => exact ⟨taken.next, accepts_of_accept? found⟩

theorem accept?_eq_none (differs : cursor.peek.kind ≠ kind) : cursor.accept? kind = none := by
  cases found : cursor.accept? kind with
  | none => rfl
  | some taken => exact absurd (accepts_of_accept? found).peek_kind differs

theorem Accepts.skipNewlines_eq (accepts : cursor.Accepts .newline next) :
    cursor.skipNewlines = next.skipNewlines := by
  obtain ⟨newline, found, rfl⟩ := accept?_of_accepts accepts
  exact skipNewlines_of_some found

/-- The places around a run of newlines are related if a place is related to itself, and if one
newline more in front keeps places related. -/
theorem related_skipNewlines
    (Related : Cursor → Cursor → Prop) (here : ∀ cursor, Related cursor cursor)
    (behind : ∀ {cursor line last}, cursor.Accepts .newline line → Related line last →
      Related cursor last)
    (cursor : Cursor) : Related cursor cursor.skipNewlines := by
  induction cursor using skipNewlines.induct with
  | case1 cursor absent =>
      rw [skipNewlines_of_none absent]
      exact here cursor
  | case2 cursor newline present _ inductionHypothesis =>
      rw [skipNewlines_of_some present]
      exact behind (accepts_of_accept? present) inductionHypothesis

theorem peek_skipNewlines_ne (cursor : Cursor) : cursor.skipNewlines.peek.kind ≠ .newline := by
  induction cursor using skipNewlines.induct with
  | case1 cursor absent =>
      rw [skipNewlines_of_none absent]
      exact peek_kind_ne_of_accept? absent (by simp)
  | case2 cursor newline present _ inductionHypothesis =>
      rw [skipNewlines_of_some present]
      exact inductionHypothesis

/-- A token of one kind is of no other kind. -/
theorem Accepts.accept?_other
    (accepts : cursor.Accepts kind next) (other : Kind) (differs : kind ≠ other) :
    cursor.accept? other = none := by
  refine accept?_eq_none ?_
  rw [accepts.peek_kind]
  exact differs

theorem result_expect_eq_ok
    {α : Type} {value other : α} {wanted : List Expectation} :
    (cursor.expect kind wanted value).result = .ok (other, next) ↔
      other = value ∧ cursor.Accepts kind next := by
  unfold expect
  constructor
  · intro read
    split at read
    · cases read
    · rename_i taken found
      obtain ⟨rfl, rfl⟩ := Prod.mk.inj (Except.ok.inj read)
      exact ⟨rfl, accepts_of_accept? found⟩
  · rintro ⟨rfl, accepts⟩
    obtain ⟨taken, found, rfl⟩ := accept?_of_accepts accepts
    simp [found]

theorem result_expect_of_accepts
    {α : Type} {value : α} {wanted : List Expectation} (accepts : cursor.Accepts kind next) :
    (cursor.expect kind wanted value).result = .ok (value, next) :=
  result_expect_eq_ok.2 ⟨rfl, accepts⟩

/-! ## Operators -/

theorem continues_of_binary? {sign : Binary cursor} (found : cursor.binary? = some sign) :
    cursor.Continues sign.operator sign.binding sign.next := by
  unfold binary? at found
  split at found
  · cases found
  · rename_i inExpression
    split at found
    · cases found
    · rename_i taken isNext
      split at found
      · rename_i operator isOperator
        obtain ⟨binding, isBinding, rfl⟩ := Option.map_eq_some_iff.1 found
        exact ⟨by simpa using inExpression, ⟨taken.token, takes_of_take? isNext, isOperator⟩,
          isBinding⟩
      · cases found

theorem binary?_of_continues
    {operator : Operator} {binding : Binding}
    (continues : cursor.Continues operator binding next) :
    ∃ sign, cursor.binary? = some sign ∧ sign.operator = operator ∧ sign.binding = binding ∧
      sign.next = next := by
  obtain ⟨inExpression, ⟨token, takes, isOperator⟩, isBinding⟩ := continues
  obtain ⟨taken, found, rfl, rfl⟩ := take?_of_takes takes
  refine ⟨⟨taken.toAdvance, operator, binding⟩, ?_, rfl, rfl, rfl⟩
  simp [binary?, inExpression, found, isOperator, isBinding]

theorem Continues.binding_eq
    {first second : Operator} {left right : Binding} {middle : Cursor}
    (isFirst : cursor.Continues first left middle)
    (isSecond : cursor.Continues second right next) : first = second ∧ left = right := by
  obtain ⟨sign, found, rfl, rfl, -⟩ := binary?_of_continues isFirst
  obtain ⟨other, found', rfl, rfl, -⟩ := binary?_of_continues isSecond
  obtain rfl := Option.some.inj (found.symm.trans found')
  exact ⟨rfl, rfl⟩

theorem chained?_eq_none_iff {binding : Binding} :
    cursor.chained? binding = none ↔
      (binding.associativity = .none → ∀ operator other next,
        cursor.Continues operator other next → other.level ≠ binding.level) := by
  unfold chained?
  constructor
  · intro absent isNone operator other next continues
    obtain ⟨sign, found, -, rfl, -⟩ := binary?_of_continues continues
    simpa [isNone, found] using absent
  · intro parted
    split
    · rename_i sign isNone found
      exact if_neg (parted isNone _ _ _ (continues_of_binary? found))
    · rfl

theorem accepts_of_unary? {sign : Unary cursor} (found : cursor.unary? = some sign) :
    cursor.Accepts (.operator sign.operator) sign.next ∧ sign.operator.isUnary := by
  unfold unary? at found
  split at found
  · cases found
  · rename_i taken isNext
    split at found
    · rename_i operator isOperator
      split at found
      · rename_i isUnary
        obtain rfl := Option.some.inj found
        exact ⟨⟨taken.token, takes_of_take? isNext, isOperator⟩, isUnary⟩
      · cases found
    · cases found

theorem unary?_of_accepts
    {operator : Operator} (accepts : cursor.Accepts (.operator operator) next)
    (isUnary : operator.isUnary) :
    ∃ sign, cursor.unary? = some sign ∧ sign.operator = operator ∧ sign.next = next := by
  obtain ⟨token, takes, isOperator⟩ := accepts
  obtain ⟨taken, found, rfl, rfl⟩ := take?_of_takes takes
  exact ⟨⟨taken.toAdvance, operator⟩, by simp [unary?, found, isOperator, isUnary], rfl, rfl⟩

theorem unary?_eq_none_iff :
    cursor.unary? = none ↔
      ∀ operator, cursor.peek.kind = .operator operator → operator.isUnary = false := by
  constructor
  · intro unsigned operator isOperator
    obtain ⟨next, accepts⟩ := accepts_of_peek_kind isOperator (by simp)
    cases isUnary : operator.isUnary with
    | false => rfl
    | true =>
        obtain ⟨sign, found, -⟩ := unary?_of_accepts accepts isUnary
        cases unsigned.symm.trans found
  · intro differs
    cases found : cursor.unary? with
    | none => rfl
    | some sign =>
        obtain ⟨accepts, isUnary⟩ := accepts_of_unary? found
        rw [differs _ accepts.peek_kind] at isUnary
        cases isUnary

/-- Whether a sign is next depends on the kind of the next token only. -/
theorem unary?_of_peek_kind
    {other : Cursor} (sameKind : other.peek.kind = cursor.peek.kind)
    (unsigned : cursor.unary? = none) : other.unary? = none := by
  rw [unary?_eq_none_iff] at unsigned ⊢
  rw [sameKind]
  exact unsigned

/-! ## Keys and bodies -/

theorem separates_of_separator? {colon : Advance cursor}
    (found : cursor.separator? = some colon) : cursor.Separates colon.next := by
  unfold separator? at found
  split at found
  · cases found
  · rename_i inExpression
    split at found
    · cases found
    · rename_i taken isColon
      split at found
      · rename_i spaced
        obtain rfl := Option.some.inj found
        exact ⟨by simpa using inExpression, accepts_of_accept? isColon, spaced⟩
      · cases found

theorem separator?_of_separates (separates : cursor.Separates next) :
    ∃ colon, cursor.separator? = some colon ∧ colon.next = next := by
  obtain ⟨inExpression, accepts, spaced⟩ := separates
  obtain ⟨colon, found, rfl⟩ := accept?_of_accepts accepts
  exact ⟨colon, by simp [separator?, inExpression, found, spaced], rfl⟩

theorem separator?_eq_none_iff :
    cursor.separator? = none ↔ ∀ next, ¬cursor.Separates next := by
  constructor
  · intro absent next separates
    obtain ⟨colon, found, -⟩ := separator?_of_separates separates
    cases absent.symm.trans found
  · intro unparted
    cases found : cursor.separator? with
    | none => rfl
    | some colon => exact absurd (separates_of_separator? found) (unparted _)

theorem namesKey_of_symbolKey? {key : SymbolKey cursor}
    (found : cursor.symbolKey? = some key) : cursor.NamesKey key.name key.next := by
  unfold symbolKey? at found
  split at found
  · cases found
  · rename_i word isWord
    split at found
    case h_3 => cases found
    all_goals
      rename_i isName
      split at found
      · cases found
      · rename_i colon isColon
        split at found
        · rename_i spaced
          obtain rfl := Option.some.inj found
          exact ⟨word.token, word.next, takes_of_take? isWord, by simp [isName],
            accepts_of_accept? isColon, spaced, rfl⟩
        · cases found

theorem symbolKey?_of_namesKey {name : String} (names : cursor.NamesKey name next) :
    ∃ key, cursor.symbolKey? = some key ∧ key.name = name ∧ key.next = next := by
  obtain ⟨word, middle, takes, isWord, isColon, spaced, rfl⟩ := names
  obtain ⟨taken, found, rfl, rfl⟩ := take?_of_takes takes
  obtain ⟨colon, foundColon, rfl⟩ := accept?_of_accepts isColon
  refine ⟨⟨⟨colon.next, Nat.lt_trans colon.shorter taken.shorter⟩, taken.token.lexeme⟩, ?_, rfl,
    rfl⟩
  rcases isWord with ⟨text, isText⟩ | ⟨keyword, isKeyword⟩
  · simp [symbolKey?, found, isText, foundColon, spaced]
  · simp [symbolKey?, found, isKeyword, foundColon, spaced]

theorem symbolKey?_eq_none_iff :
    cursor.symbolKey? = none ↔ ∀ name next, ¬cursor.NamesKey name next := by
  constructor
  · intro absent name next names
    obtain ⟨key, found, -⟩ := symbolKey?_of_namesKey names
    cases absent.symm.trans found
  · intro unnamed
    cases found : cursor.symbolKey? with
    | none => rfl
    | some key => exact absurd (namesKey_of_symbolKey? found) (unnamed _ _)

theorem startsBody_of_bodyStart? {start : Advance cursor}
    (found : cursor.bodyStart? = some start) : cursor.StartsBody start.next := by
  unfold bodyStart? at found
  split at found
  · cases found
  · rename_i line isLine
    split at found
    · cases found
    · rename_i indent isIndent
      obtain rfl := Option.some.inj found
      exact ⟨line.next, accepts_of_accept? isLine, accepts_of_accept? isIndent⟩

theorem bodyStart?_eq_none (bare : ∀ next, ¬cursor.StartsBody next) :
    cursor.bodyStart? = none := by
  cases found : cursor.bodyStart? with
  | none => rfl
  | some start => exact absurd (startsBody_of_bodyStart? found) (bare _)

theorem StartsBody.size_lt (starts : cursor.StartsBody next) : next.size < cursor.size := by
  obtain ⟨line, isLine, isIndent⟩ := starts
  calc
    next.size < line.skipNewlines.size := isIndent.size_lt
    _ ≤ line.size := line.size_skipNewlines_le
    _ < cursor.size := isLine.size_lt

theorem startsBody_iff :
    cursor.StartsBody next ↔
      cursor.skipNewlines.size < cursor.size ∧ cursor.skipNewlines.Accepts .indent next := by
  constructor
  · rintro ⟨line, isLine, isIndent⟩
    rw [isLine.skipNewlines_eq]
    exact ⟨Nat.lt_of_le_of_lt line.size_skipNewlines_le isLine.size_lt, isIndent⟩
  · rintro ⟨passed, isIndent⟩
    cases found : cursor.accept? .newline with
    | none =>
        rw [skipNewlines_of_none found] at passed
        omega
    | some newline =>
        rw [skipNewlines_of_some found] at isIndent
        exact ⟨newline.next, accepts_of_accept? found, isIndent⟩

theorem bodyStart?_of_startsBody (starts : cursor.StartsBody next) :
    ∃ start, cursor.bodyStart? = some start ∧ start.next = next := by
  have shorter := starts.size_lt
  obtain ⟨line, isLine, isIndent⟩ := starts
  obtain ⟨newline, foundLine, rfl⟩ := accept?_of_accepts isLine
  obtain ⟨indent, foundIndent, rfl⟩ := accept?_of_accepts isIndent
  exact ⟨⟨indent.next, shorter⟩, by simp [bodyStart?, foundLine, foundIndent], rfl⟩

theorem result_statementEnd_eq_ok {α : Type} {value other : α} :
    (cursor.statementEnd value).result = .ok (other, next) ↔
      other = value ∧ cursor.EndsStatement next := by
  unfold statementEnd
  constructor
  · intro read
    split at read
    · rename_i newline found
      obtain ⟨rfl, rfl⟩ := Prod.mk.inj (Except.ok.inj read)
      exact ⟨rfl, Or.inl (accepts_of_accept? found)⟩
    · rename_i absent
      split at read
      · rename_i ends
        obtain ⟨rfl, rfl⟩ := Prod.mk.inj (Except.ok.inj read)
        exact ⟨rfl, Or.inr ⟨peek_kind_ne_of_accept? absent (by simp), ends, rfl⟩⟩
      · cases read
  · rintro ⟨rfl, accepts | ⟨differs, ends, rfl⟩⟩
    · obtain ⟨newline, found, rfl⟩ := accept?_of_accepts accepts
      simp [found]
    · simp only [accept?_eq_none differs, ends, if_true, result_yield]

end Cursor

end ScriptFront
