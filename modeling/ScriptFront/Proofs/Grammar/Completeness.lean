import ScriptFront.Grammar.Program
import ScriptFront.Proofs.Grammar.Soundness

/-!
# What has a derivation is found

The functions of the grammar succeed wherever the rules lead, with the same value and at the same
place.  Together with the other direction this makes a derivation and a successful reading the same.
-/

namespace ScriptFront

namespace Phrase

open Outcome Cursor

theorem result_constant {cursor next : Cursor} {name : String}
    (here : cursor.Accepts (.constant name) next) :
    cursor.constant.result = .ok (.constant name, next) := by
  obtain ⟨token, takes, isConstant⟩ := here
  obtain ⟨taken, found, rfl, rfl⟩ := take?_of_takes takes
  simp [Cursor.constant, found, isConstant]

theorem result_superclass {cursor next last : Cursor} {name : String}
    (derives : cursor.Accepts (.operator .less) next)
    (names : next.Accepts (.constant name) last) :
    cursor.superclass.result = .ok (some (.constant name), last) := by
  obtain ⟨sign, found, rfl⟩ := accept?_of_accepts derives
  simp [superclass, found, result_constant names, Except.map]

/-- The functions read what the rules derive. -/
theorem run_of_reads {form : Form} {cursor next : Cursor} {value : form.Value}
    (reads : Reads form cursor value next) : run form cursor = .ok (value, next) := by
  -- The premises of a rule settle every test that its function makes.
  induction reads with
  | noStatements ends => simp [run, statements, ends]
  | moreStatements more _ _ isFirst areOthers =>
      simp only [run] at isFirst areOthers ⊢
      rw [statements, if_neg (by simp [more]), result_widen, result_andThen_of_ok isFirst,
        result_map, areOthers]
      rfl
  | statement _ _ ends isFirst isWhole =>
      simp only [run] at isFirst isWhole ⊢
      rw [statement, result_andThen_of_ok isFirst, result_andThen_of_ok isWhole]
      exact result_statementEnd_eq_ok.2 ⟨rfl, ends⟩
  | single => simp [run, bareHash]
  | bareHash _ arePairs =>
      simp only [run] at arePairs ⊢
      rw [bareHash, result_map, arePairs]
      rfl
  | noBody absent =>
      simp only [run]
      rw [body, absent]
      rfl
  | body starts _ filled areNodes =>
      simp only [run] at areNodes ⊢
      obtain ⟨start, found, rfl⟩ := bodyStart?_of_startsBody starts
      rw [body, found]
      simp only [result_widen]
      rw [result_andThen_of_ok areNodes]
      simp [filled]
  | keyed names _ isValue =>
      simp only [run] at isValue ⊢
      obtain ⟨key, found, rfl, rfl⟩ := symbolKey?_of_namesKey names
      rw [entry, found]
      simp only [result_widen, result_map, isValue]
      rfl
  | expression unnamed _ alone isNode =>
      simp only [run] at isNode ⊢
      rw [entry, unnamed]
      simp only
      rw [result_andThen_of_ok isNode, alone]
      rfl
  | pair unnamed _ separates _ isKey isValue =>
      simp only [run] at isKey isValue ⊢
      obtain ⟨colon, found, rfl⟩ := separator?_of_separates separates
      rw [entry, unnamed]
      simp only
      rw [result_andThen_of_ok isKey, found]
      simp only [result_widen, result_map, isValue]
      rfl
  | lastEntry _ ends isFirst =>
      simp only [run] at isFirst ⊢
      rw [entries, result_andThen_of_ok isFirst, accept?_eq_none ends]
      rfl
  | moreEntries _ comma _ isFirst areOthers =>
      simp only [run] at isFirst areOthers ⊢
      obtain ⟨taken, found, rfl⟩ := accept?_of_accepts comma
      rw [entries, result_andThen_of_ok isFirst, found]
      simp only [result_widen, result_map, areOthers]
      rfl
  | pairs _ _ isFirst arePairs =>
      simp only [run] at isFirst arePairs ⊢
      rw [pairs, result_andThen_of_ok isFirst]
      exact arePairs
  | lastPair ends =>
      simp only [run]
      rw [morePairs, accept?_eq_none ends]
      rfl
  | morePairs comma _ areOthers =>
      simp only [run] at areOthers ⊢
      obtain ⟨taken, found, rfl⟩ := accept?_of_accepts comma
      rw [morePairs, found]
      simp only [result_widen, result_map, areOthers]
      rfl
  | emptyEnclosed closes =>
      simp only [run]
      obtain ⟨taken, found, rfl⟩ := accept?_of_accepts closes
      rw [enclosed, found]
      rfl
  | enclosed filled _ closes areEntries =>
      simp only [run] at areEntries ⊢
      rw [enclosed, accept?_eq_none filled]
      simp only
      rw [result_andThen_of_ok areEntries, result_relax, result_expect_of_accepts closes]
  | emptyHash closes =>
      simp only [run]
      obtain ⟨taken, found, rfl⟩ := accept?_of_accepts closes
      rw [hash, found]
      rfl
  | hash filled _ closes arePairs =>
      simp only [run] at arePairs ⊢
      rw [hash, accept?_eq_none filled]
      simp only
      rw [result_andThen_of_ok arePairs, result_relax, result_expect_of_accepts closes]
  | binary _ _ isLeft further =>
      simp only [run] at isLeft further ⊢
      rw [binary, result_andThen_of_ok isLeft]
      exact further
  | stop looser =>
      rename_i inCommand level cursor left
      simp only [run]
      rw [climb]
      cases found : cursor.binary? with
      | none => rfl
      | some sign =>
          have isLooser := looser _ _ _ (continues_of_binary? found)
          simp [isLooser]
  | climb continues tight _ single _ isRight further =>
      simp only [run] at isRight further ⊢
      obtain ⟨sign, found, rfl, rfl, rfl⟩ := binary?_of_continues continues
      rw [climb, found]
      simp only [if_neg (Nat.not_lt_of_le tight), result_widen]
      rw [result_andThen_of_ok isRight, single]
      exact further
  | operand unsigned _ isNode =>
      simp only [run] at isNode ⊢
      rw [unary, unsigned]
      exact isNode
  | unary sign isUnary _ isOperand =>
      simp only [run] at isOperand ⊢
      obtain ⟨sign, found, rfl, rfl⟩ := unary?_of_accepts sign isUnary
      rw [unary, found]
      simp only [result_widen, result_map, isOperand]
      rfl
  | integer here | float here | constant here =>
      simp only [run]
      obtain ⟨taken, found, isKind, rfl⟩ := take?_of_accepts here
      simp [primary, found, isKind]
  | string here _ areParts =>
      simp only [run] at areParts ⊢
      obtain ⟨taken, found, isKind, rfl⟩ := take?_of_accepts here
      simp [primary, found, isKind, areParts, Except.map]
  | name here _ isNode | classWord here _ isNode | moduleWord here _ isNode
  | colon here _ isNode | brace here _ isNode | paren here _ isNode =>
      simp only [run] at isNode ⊢
      obtain ⟨taken, found, isKind, rfl⟩ := take?_of_accepts here
      simp [primary, found, isKind, isNode]
  | array here _ isValue | block here _ isValue =>
      simp only [run] at isValue ⊢
      obtain ⟨taken, found, isKind, rfl⟩ := take?_of_accepts here
      simp [primary, found, isKind, isValue, Except.map]
  | lastPart ends =>
      rename_i text cursor
      simp only [run]
      rw [stringParts]
      cases found : cursor.take? with
      | none => rfl
      | some taken =>
          obtain ⟨noStart, noText⟩ := ends
          rw [(takes_of_take? found).peek] at noStart noText
          simp only
          split
          · rename_i more isText hugs
            rw [noText more isText] at hugs
            cases hugs
          · rename_i isStart
            exact absurd isStart noStart
          · rfl
  | adjacent here isText hugs _ areParts =>
      simp only [run] at areParts ⊢
      obtain ⟨taken, found, rfl, rfl⟩ := take?_of_takes here
      rw [stringParts, found]
      simp only
      split
      · rename_i more isText' _
        obtain rfl := Kind.fragment.inj (isText.symm.trans isText')
        rw [result_widen]
        exact areParts
      · rename_i isStart
        cases isText.symm.trans isStart
      · rename_i noText
        exact absurd hugs (noText _ isText)
  | insertion opens _ closes _ isInner areOthers =>
      simp only [run] at isInner areOthers ⊢
      obtain ⟨taken, found, isKind, rfl⟩ := take?_of_accepts opens
      rw [stringParts, found]
      simp only
      split
      · rename_i isText _
        cases isKind.symm.trans isText
      · rw [result_widen, result_andThen_of_ok isInner, result_relax,
          result_andThen_of_ok (result_expect_of_accepts closes), result_map, areOthers]
        rfl
      · rename_i noStart _
        exact absurd isKind noStart
  | symbolString hugs here _ areParts =>
      simp only [run] at areParts ⊢
      obtain ⟨taken, found, isKind, rfl⟩ := take?_of_accepts here
      simp [symbol, hugs, found, isKind, areParts, Except.map]
  | symbolName hugs here names =>
      simp only [run]
      obtain ⟨taken, found, rfl, rfl⟩ := take?_of_takes here
      rw [symbol, if_neg (by simp [hugs]), found]
      simp only
      split
      · rename_i text isText
        rw [isText] at names
        cases names
      · rw [names]
        rfl
  | group _ closes isInner =>
      simp only [run] at isInner ⊢
      rw [group, result_andThen_of_ok isInner, result_relax, result_expect_of_accepts closes]
  | classDefinition names underived _ isBody =>
      simp only [run] at isBody ⊢
      rw [classDefinition, result_andThen_of_ok (result_constant names), superclass,
        accept?_eq_none underived]
      simp only
      rw [result_andThen_of_ok (result_yield _ _), result_map, isBody]
      rfl
  | derivedClass names derives namesBase _ isBody =>
      simp only [run] at isBody ⊢
      rw [classDefinition, result_andThen_of_ok (result_constant names),
        result_andThen_of_ok (result_superclass derives namesBase), result_map, isBody]
      rfl
  | moduleDefinition names _ isBody =>
      simp only [run] at isBody ⊢
      rw [moduleDefinition, result_andThen_of_ok (result_constant names), result_map, isBody]
      rfl
  | definition _ _ areParameters isBody =>
      simp only [run] at areParameters isBody ⊢
      rw [definition, result_andThen_of_ok areParameters, result_map, isBody]
      rfl
  | noParameters absent =>
      simp only [run]
      rw [parameters, accept?_eq_none absent]
      rfl
  | emptyParameters opens closes =>
      simp only [run]
      obtain ⟨opened, found, rfl⟩ := accept?_of_accepts opens
      obtain ⟨closed, foundClosed, rfl⟩ := accept?_of_accepts closes
      simp [parameters, found, foundClosed]
  | parameters opens filled _ closes areParameters =>
      simp only [run] at areParameters ⊢
      obtain ⟨opened, found, rfl⟩ := accept?_of_accepts opens
      rw [parameters, found]
      simp only [accept?_eq_none filled, result_widen]
      rw [result_andThen_of_ok areParameters, result_relax, result_expect_of_accepts closes]
  | lastParameter _ ends isFirst =>
      simp only [run] at isFirst ⊢
      rw [parameterList, result_andThen_of_ok isFirst, accept?_eq_none ends]
      rfl
  | moreParameters _ comma _ isFirst areOthers =>
      simp only [run] at isFirst areOthers ⊢
      obtain ⟨taken, found, rfl⟩ := accept?_of_accepts comma
      rw [parameterList, result_andThen_of_ok isFirst, found]
      simp only [result_widen, result_map, areOthers]
      rfl
  | splat star names =>
      simp only [run]
      obtain ⟨taken, found, isKind, rfl⟩ := take?_of_accepts star
      obtain ⟨named, foundName, isName, rfl⟩ := take?_of_accepts names
      simp [parameter, found, isKind, splatName, foundName, isName]
  | parameter names _ isParameter =>
      simp only [run] at isParameter ⊢
      obtain ⟨taken, found, isKind, rfl⟩ := take?_of_accepts names
      simp [parameter, found, isKind, isParameter]
  | setter isSetter _ isValue =>
      simp only [run] at isValue ⊢
      simp [parameterValue, isSetter, isValue, Except.map]
  | optional isBare assigns _ isValue =>
      simp only [run] at isValue ⊢
      obtain ⟨taken, found, rfl⟩ := accept?_of_accepts assigns
      simp [parameterValue, isBare, found, isValue, Except.map]
  | keyword isBare colon _ isValue =>
      simp only [run] at isValue ⊢
      have unassigned := colon.accept?_other (.operator .assign) (by simp)
      obtain ⟨taken, found, rfl⟩ := accept?_of_accepts colon
      simp [parameterValue, isBare, unassigned, found, isValue, Except.map]
  | plain isBare unassigned unnamed =>
      simp only [run]
      simp [parameterValue, isBare, accept?_eq_none unassigned, accept?_eq_none unnamed]
  | method arrow _ isBlock =>
      simp only [run] at isBlock ⊢
      obtain ⟨taken, found, rfl⟩ := accept?_of_accepts arrow
      simp [named, found, isBlock, Except.map]
  | call noMethod _ _ areArguments isNode =>
      simp only [run] at areArguments isNode ⊢
      rw [named, accept?_eq_none noMethod]
      simp only
      rw [result_andThen_of_ok areArguments]
      exact isNode
  | withBlock arrow _ isBlock =>
      simp only [run] at isBlock ⊢
      obtain ⟨taken, found, rfl⟩ := accept?_of_accepts arrow
      rw [trailingBlock.eq_def, found]
      simp only [result_widen, result_map, isBlock]
      rfl
  | withoutBlock leaves =>
      simp only [run]
      rw [trailingBlock.eq_def]
      rcases leaves with rfl | noArrow
      · rfl
      · rw [accept?_eq_none noArrow]
        split
        · rename_i isSome
          cases isSome
        · rfl
  | parenthesized opens whole _ areArguments =>
      simp only [run] at areArguments ⊢
      obtain ⟨opened, found, rfl⟩ := accept?_of_accepts opens
      rw [arguments, found]
      simp only [whole, result_widen, Bool.false_eq_true, if_false]
      exact areArguments
  | larger opens part _ areArguments =>
      simp only [run] at areArguments ⊢
      obtain ⟨behind, accepts⟩ := accepts_of_peek_kind opens (by simp)
      obtain ⟨opened, found, rfl⟩ := accept?_of_accepts accepts
      rw [arguments, found]
      simp only [part, if_true, result_relax, result_map, areArguments]
      rfl
  | command unopened starts _ areArguments =>
      simp only [run] at areArguments ⊢
      rw [arguments, accept?_eq_none unopened]
      simp only [starts, if_true, result_relax, result_map, areArguments]
      rfl
  | noArguments unopened absent =>
      simp only [run]
      rw [arguments, accept?_eq_none unopened]
      simp [absent]

end Phrase

namespace Cursor

theorem readProgram_eq (cursor : Cursor) :
    cursor.readProgram.1 =
      match (Phrase.statements false cursor).result with
      | .ok (nodes, _) => .ok nodes
      | .error (refusal, stop) => .error (refusal.fault stop.peek) := by
  unfold readProgram
  cases Phrase.statements false cursor <;> rfl

theorem readProgram_eq_ok_iff {cursor : Cursor} {nodes : List Node} :
    cursor.readProgram.1 = .ok nodes ↔
      ∃ last, Phrase.Reads (.statements false) cursor nodes last := by
  rw [readProgram_eq]
  constructor
  · intro read
    cases found : (Phrase.statements false cursor).result with
    | error _ =>
        rw [found] at read
        cases read
    | ok reached =>
        rcases reached with ⟨list, last⟩
        rw [found] at read
        have sameNodes : list = nodes := Except.ok.inj read
        have reads : Phrase.Reads (.statements false) cursor list last :=
          Phrase.reads_of_run found
        exact ⟨last, sameNodes ▸ reads⟩
  · rintro ⟨last, reads⟩
    have found : (Phrase.statements false cursor).result = .ok (nodes, last) :=
      Phrase.run_of_reads reads
    rw [found]

end Cursor

/-- A list of tokens is a program exactly if the rules derive its statements. -/
theorem parseTokens_eq_ok_iff {tokens : List Token} {nodes : List Node} :
    parseTokens tokens = .ok nodes ↔
      ∃ last, Phrase.Reads (.statements false) (Cursor.ofTokens tokens) nodes last :=
  Cursor.readProgram_eq_ok_iff

end ScriptFront
