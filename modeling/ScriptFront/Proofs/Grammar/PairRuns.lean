import Mathlib.Data.List.SplitBy
import ScriptFront.Proofs.Grammar.Completeness
import ScriptFront.Proofs.Grammar.IndexedPhrases

/-!
# Runs of pairs

A list of expressions is read entry by entry.  In the result each expression stands for itself, and
each run of pairs that cannot be made longer is one hash.  So the hashes that are put in hold all
pairs in their order, and no two of them follow one another.
-/

namespace ScriptFront

/-! ## Runs in a list -/

/-- What a node of a list stands for: an expression, or a run of pairs. -/
inductive Gathered where
  | single (node : Node)
  | run (pairs : List (Pair Node))

namespace Gathered

def node : Gathered → Node
  | single node => node
  | run pairs => .hash pairs

def entries : Gathered → List Entry
  | single node => [.single node]
  | run pairs => pairs.map .pair

def isRun : Gathered → Bool
  | single _ => false
  | run _ => true

/-- The parts of a list: its expressions, and runs of pairs between them. -/
structure PartsOf (list : List Entry) (parts : List Gathered) : Prop where
  whole : parts.flatMap entries = list
  filled : ∀ pairs, run pairs ∈ parts → pairs ≠ []
  apart : parts.IsChain fun first second => ¬(first.isRun ∧ second.isRun)

end Gathered

namespace Entry

def isPair : Entry → Bool
  | single _ => false
  | pair _ => true

/-- A list divided at each place that does not lie between two pairs. -/
def runs (list : List Entry) : List (List Entry) :=
  list.splitBy fun first second => first.isPair && second.isPair

end Entry

namespace Gathered

open Entry

variable {list front : List Entry} {parts : List Gathered} {part : Gathered}
  {pairs : List (Pair Node)}

theorem isPair_of_mem_entries {entry : Entry} (member : entry ∈ part.entries) :
    entry.isPair = part.isRun := by
  cases part with
  | single node =>
      obtain rfl := List.mem_singleton.1 member
      rfl
  | run pairs =>
      rcases List.mem_map.1 member with ⟨both, -, rfl⟩
      rfl

theorem isChain_entries (part : Gathered) :
    part.entries.IsChain fun first second => first.isPair && second.isPair := by
  cases part with
  | single node => exact List.isChain_singleton _
  | run pairs =>
      have anyPairs : pairs.Pairwise fun _ _ => true := List.pairwise_of_forall fun _ _ => rfl
      exact (List.isChain_map _).2 anyPairs.isChain

theorem entries_injective : Function.Injective entries := by
  intro part other same
  cases part with
  | single node =>
      cases other with
      | single => simpa [entries] using same
      | run pairs => cases pairs <;> simp [entries] at same
  | run pairs =>
      cases other with
      | single => cases pairs <;> simp [entries] at same
      | run others =>
          have pair_injective : Function.Injective Entry.pair := fun _ _ => Entry.pair.inj
          exact congrArg run (List.map_injective_iff.2 pair_injective same)

theorem PartsOf.entries_ne_nil (areParts : PartsOf list parts) (member : part ∈ parts) :
    part.entries ≠ [] := by
  cases part with
  | single node => exact List.cons_ne_nil _ _
  | run pairs => exact mt List.map_eq_nil_iff.1 (areParts.filled pairs member)

/-- Where no two runs follow one another, none of them can be made longer. -/
theorem partsOf_iff : PartsOf list parts ↔ parts.map entries = runs list := by
  rw [eq_comm, runs, List.splitBy_eq_iff, ← List.flatMap_def]
  constructor
  · intro areParts
    refine ⟨areParts.whole.symm, ?_, ?_, ?_⟩
    · intro member
      rcases List.mem_map.1 member with ⟨part, isPart, isEmpty⟩
      exact areParts.entries_ne_nil isPart isEmpty
    · intro block member
      rcases List.mem_map.1 member with ⟨part, -, rfl⟩
      exact part.isChain_entries
    · refine (List.isChain_map _).2 (areParts.apart.imp_of_mem_imp ?_)
      intro first second isFirst isSecond notBoth
      have someFirst := areParts.entries_ne_nil isFirst
      have someSecond := areParts.entries_ne_nil isSecond
      refine ⟨someFirst, someSecond, ?_⟩
      rw [isPair_of_mem_entries (List.getLast_mem someFirst),
        isPair_of_mem_entries (List.head_mem someSecond)]
      simpa using notBoth
  · rintro ⟨whole, noEmpty, -, apart⟩
    refine ⟨whole.symm, ?_, ?_⟩
    · rintro pairs member rfl
      exact noEmpty (List.mem_map.2 ⟨run [], member, rfl⟩)
    · refine ((List.isChain_map _).1 apart).imp ?_
      rintro first second ⟨someFirst, someSecond, parted⟩
      rw [isPair_of_mem_entries (List.getLast_mem someFirst),
        isPair_of_mem_entries (List.head_mem someSecond)] at parted
      simpa using parted

theorem PartsOf.unique
    {others : List Gathered} (areParts : PartsOf list parts) (areOthers : PartsOf list others) :
    parts = others :=
  List.map_injective_iff.2 entries_injective
    ((partsOf_iff.1 areParts).trans (partsOf_iff.1 areOthers).symm)

/-- One more part, which is not to follow a run if it is one. -/
theorem PartsOf.concat
    (areParts : PartsOf list parts) (part : Gathered) (some : part.entries ≠ [])
    (parted : ∀ last ∈ parts.getLast?, ¬(last.isRun ∧ part.isRun)) :
    PartsOf (list ++ part.entries) (parts ++ [part]) := by
  refine ⟨?_, ?_, ?_⟩
  · rw [List.flatMap_append, areParts.whole, List.flatMap_singleton]
  · intro pairs member
    rcases List.mem_append.1 member with isFormer | isLast
    · exact areParts.filled pairs isFormer
    · rintro rfl
      obtain rfl := List.mem_singleton.1 isLast
      exact some rfl
  · refine List.isChain_append.2 ⟨areParts.apart, List.isChain_singleton _, ?_⟩
    intro last isLast other isOther
    obtain rfl := Option.some.inj isOther
    exact parted last isLast

/-! ## Gathering one entry after the other -/

/-- The parts of a list with the run at its end. -/
def withRun (parts : List Gathered) (pairs : List (Pair Node)) : List Gathered :=
  if pairs.isEmpty then parts else parts ++ [run pairs]

theorem map_node_withRun (parts : List Gathered) (pairs : List (Pair Node)) :
    (withRun parts pairs).map node = Entry.withRun (parts.map node) pairs := by
  unfold withRun Entry.withRun
  cases pairs with
  | nil => rfl
  | cons => exact List.map_append

/-- The entries in front have been gathered into parts and into a run that may still go on.  No run
stands before that one, for runs are closed by expressions only. -/
structure Holds
    (front : List Entry) (parts : List Gathered) (pairs : List (Pair Node)) : Prop where
  closed : ∃ list, PartsOf list parts ∧ list ++ pairs.map .pair = front
  ends : ∀ last ∈ parts.getLast?, last.isRun = false

theorem holds_nil : Holds [] [] [] where
  closed := ⟨[], ⟨rfl, by simp, List.isChain_nil⟩, rfl⟩
  ends := by simp

theorem Holds.partsOf (holds : Holds front parts pairs) : PartsOf front (withRun parts pairs) := by
  rcases holds.closed with ⟨list, areParts, rfl⟩
  cases pairs with
  | nil =>
      rw [List.map_nil, List.append_nil]
      exact areParts
  | cons first others =>
      refine areParts.concat (.run (first :: others)) (List.cons_ne_nil _ _) ?_
      intro last isLast both
      exact Bool.false_ne_true ((holds.ends last isLast).symm.trans both.1)

theorem Holds.pair (holds : Holds front parts pairs) (both : Pair Node) :
    Holds (front ++ [.pair both]) parts (pairs ++ [both]) := by
  rcases holds.closed with ⟨list, areParts, rfl⟩
  exact ⟨⟨list, areParts, by simp⟩, holds.ends⟩

theorem Holds.single (holds : Holds front parts pairs) (node : Node) :
    Holds (front ++ [.single node]) (withRun parts pairs ++ [.single node]) [] := by
  refine ⟨⟨front ++ [.single node], ?_, List.append_nil _⟩, ?_⟩
  · refine holds.partsOf.concat (.single node) (List.cons_ne_nil _ _) ?_
    rintro last - ⟨-, isRun⟩
    exact Bool.false_ne_true isRun
  · intro last isLast
    rw [List.getLast?_concat] at isLast
    obtain rfl := Option.some.inj isLast
    rfl

/-- From what is held, gathering goes on to the parts of the whole list. -/
theorem Holds.collect (holds : Holds front parts pairs) (list : List Entry) :
    ∃ all, PartsOf (front ++ list) all ∧
      Entry.collect (parts.map node) pairs list = all.map node := by
  -- A pair goes on with the open run; an expression closes it and is a part of its own.
  induction list generalizing front parts pairs with
  | nil =>
      refine ⟨withRun parts pairs, ?_, (map_node_withRun parts pairs).symm⟩
      rw [List.append_nil]
      exact holds.partsOf
  | cons entry others inductionHypothesis =>
      have next : front ++ entry :: others = front ++ [entry] ++ others := by simp
      rw [next]
      cases entry with
      | pair both => exact inductionHypothesis (holds.pair both)
      | single node =>
          rcases inductionHypothesis (holds.single node) with ⟨all, areParts, collected⟩
          refine ⟨all, areParts, ?_⟩
          rw [Entry.collect, ← map_node_withRun, ← collected, List.map_append]
          rfl

theorem gather_eq_iff {nodes : List Node} :
    gather list = nodes ↔
      ∃ parts, PartsOf list parts ∧ parts.map entries = runs list ∧ nodes = parts.map node := by
  rcases holds_nil.collect list with ⟨parts, areParts, gathered⟩
  rw [List.map_nil, collect_eq_gather] at gathered
  constructor
  · rintro rfl
    exact ⟨parts, areParts, partsOf_iff.1 areParts, gathered⟩
  · rintro ⟨others, areOthers, -, rfl⟩
    rw [areParts.unique areOthers] at gathered
    exact gathered

-- A hash among the entries is an expression; it does not go with the pairs around it.
example (one two three : Pair Node) (inner : List (Pair Node)) :
    gather [.pair one, .pair two, .single (.hash inner), .pair three] =
      [.hash [one, two], .hash inner, .hash [three]] := rfl

end Gathered

/-! ## Lists of expressions -/

namespace Phrase

/-- The expressions of a list, which is read entry by entry. -/
def expressionList (inCommand : Bool) (cursor : Cursor) : Outcome cursor.size (List Node) :=
  (entries inCommand cursor).map Entry.gather

variable {cursor next : Cursor} {inCommand : Bool} {nodes : List Node}

theorem enclosed_of_filled {closer : Mark} (filled : cursor.accept? (.mark closer) = none) :
    enclosed closer cursor =
      (expressionList false cursor).andThen fun list next _ =>
        (next.expect (.mark closer) [.mark .comma, .mark closer] list).relax := by
  rw [enclosed, filled, expressionList, Outcome.andThen_map]

theorem arguments_of_command
    (unopened : cursor.accept? (.mark .leftParen) = none) (starts : cursor.atArgument = true) :
    arguments cursor = (expressionList true cursor).relax := by
  rw [arguments, unopened]
  exact if_pos starts

theorem arguments_of_larger
    {opened : Cursor.Advance cursor} (opens : cursor.accept? (.mark .leftParen) = some opened)
    (part : (cursor.peek.spaced && cursor.continuesBehindParens) = true) :
    arguments cursor = (expressionList true cursor).relax := by
  rw [arguments, opens]
  exact if_pos part

theorem expressionList_eq_ok_iff :
    (expressionList inCommand cursor).result = .ok (nodes, next) ↔
      ∃ list, Reads (.entries inCommand) cursor list next ∧ Entry.gather list = nodes := by
  rw [expressionList, Outcome.result_map_eq_ok]
  constructor
  · rintro ⟨list, found, gathered⟩
    have reads : Reads (.entries inCommand) cursor list next := reads_of_run found
    exact ⟨list, reads, gathered⟩
  · rintro ⟨list, reads, gathered⟩
    exact ⟨list, run_of_reads reads, gathered⟩

end Phrase

/-! ## The loop of a parser with an index -/

namespace Entry

/-- What is held behind one more entry: the nodes of the list, and the run of pairs at its end. -/
def hold (nodes : List Node) (run : List (Pair Node)) : Entry → List Node × List (Pair Node)
  | .single node => (withRun nodes run ++ [node], [])
  | .pair both => (nodes, run ++ [both])

theorem collect_cons
    (nodes : List Node) (run : List (Pair Node)) (entry : Entry) (others : List Entry) :
    collect nodes run (entry :: others) =
      collect (hold nodes run entry).1 (hold nodes run entry).2 others := by
  cases entry <;> rfl

end Entry

namespace Machine

open Entry

variable {fuel : Nat} {parser middle next behind : Parser} {entry : Entry} {list : List Entry}
  {nodes before : List Node} {run : List (Pair Node)}

/-- Entries that are read one after the other, as long as a comma follows. -/
inductive ReadsEntries : Nat → Parser → List Entry → Parser → Prop where
  | last {fuel : Nat} {parser middle behind : Parser} {entry : Entry}
      (isEntry : (exec fuel .entry).run parser = (.ok entry, middle))
      (ends : (matchToken (.mark .comma)).run middle = (.ok false, behind)) :
      ReadsEntries (fuel + 1) parser [entry] behind
  | more {fuel : Nat} {parser middle next behind : Parser} {entry : Entry} {others : List Entry}
      (isEntry : (exec fuel .entry).run parser = (.ok entry, middle))
      (goesOn : (matchToken (.mark .comma)).run middle = (.ok true, next))
      (areOthers : ReadsEntries fuel next others behind) :
      ReadsEntries (fuel + 1) parser (entry :: others) behind

theorem run_expressionList_of_last
    (isEntry : (exec fuel .entry).run parser = (.ok entry, middle))
    (ends : (matchToken (.mark .comma)).run middle = (.ok false, behind)) :
    (exec (fuel + 1) (.expressionList before run)).run parser =
      (.ok (collect before run [entry]), behind) := by
  show (expressionList (exec fuel) before run).run parser = _
  rw [expressionList, run_bind_of_ok isEntry, run_bind_of_ok ends]
  cases entry <;> rfl

theorem run_expressionList_of_more
    (isEntry : (exec fuel .entry).run parser = (.ok entry, middle))
    (goesOn : (matchToken (.mark .comma)).run middle = (.ok true, next)) :
    (exec (fuel + 1) (.expressionList before run)).run parser =
      (exec fuel (.expressionList (hold before run entry).1 (hold before run entry).2)).run
        next := by
  show (expressionList (exec fuel) before run).run parser = _
  rw [expressionList, run_bind_of_ok isEntry, run_bind_of_ok goesOn]
  cases entry <;> rfl

theorem ReadsEntries.run_eq (reads : ReadsEntries fuel parser list behind) :
    (exec fuel (.expressionList before run)).run parser =
      (.ok (collect before run list), behind) := by
  induction reads generalizing before run with
  | last isEntry ends => exact run_expressionList_of_last isEntry ends
  | more isEntry goesOn _ areOthers =>
      rw [run_expressionList_of_more isEntry goesOn, areOthers, collect_cons]

theorem exists_readsEntries
    (ran : (exec fuel (.expressionList before run)).run parser = (.ok nodes, behind)) :
    ∃ list, ReadsEntries fuel parser list behind := by
  -- A list that is read to its end has not stopped at an entry or at a comma.
  induction fuel generalizing before run parser with
  | zero => cases ran
  | succ fuel inductionHypothesis =>
      have unfolded : (expressionList (exec fuel) before run).run parser = (.ok nodes, behind) :=
        ran
      rw [expressionList] at unfolded
      rcases isEntry : (exec fuel .entry).run parser with ⟨outcome, middle⟩
      cases outcome with
      | error halt =>
          rw [run_bind_of_error isEntry] at unfolded
          cases unfolded
      | ok entry =>
          rw [run_bind_of_ok isEntry] at unfolded
          rcases isComma : (matchToken (.mark .comma)).run middle with ⟨outcome, next⟩
          cases outcome with
          | error halt =>
              rw [run_bind_of_error isComma] at unfolded
              cases unfolded
          | ok goesOn =>
              cases goesOn with
              | false =>
                  rw [run_expressionList_of_last isEntry isComma] at ran
                  obtain rfl := (Prod.mk.inj ran).2
                  exact ⟨[entry], .last isEntry isComma⟩
              | true =>
                  rw [run_expressionList_of_more isEntry isComma] at ran
                  rcases inductionHypothesis ran with ⟨others, areOthers⟩
                  exact ⟨entry :: others, .more isEntry isComma areOthers⟩

theorem run_expressionList_eq_ok_iff :
    (exec fuel (.expressionList [] [])).run parser = (.ok nodes, behind) ↔
      ∃ list, ReadsEntries fuel parser list behind ∧ gather list = nodes := by
  rw [← collect_eq_gather]
  constructor
  · intro ran
    rcases exists_readsEntries ran with ⟨list, reads⟩
    rw [reads.run_eq] at ran
    exact ⟨list, reads, Except.ok.inj (Prod.mk.inj ran).1⟩
  · rintro ⟨list, reads, rfl⟩
    exact reads.run_eq

end Machine

/-- Where a parser stands, it reads the list of expressions that is ahead. -/
theorem Input.Stands.follows_expressionList
    {input : Input} {depth fuel : Nat} {cursor : Cursor} {parser : Parser}
    (stands : input.Stands depth cursor parser) (enough : 8 * cursor.size + 5 < fuel) :
    input.Follows depth (Phrase.expressionList (Input.isCommand depth) cursor).result
      ((Machine.exec fuel (.expressionList [] [])).run parser) := by
  rw [Phrase.expressionList, ← Entry.collect_eq_gather]
  exact input.agrees_exec fuel (.expressionList [] []) cursor enough depth parser stands

/-- A list of expressions is read entry by entry, at any place and with any parser.  Each expression
among the entries is kept, and each run of pairs that cannot be made longer becomes one hash of
these pairs: no such hash is empty, no two of them follow one another, and written out they are the
entries again. -/
theorem expressionList_gathers_runs :
    (∀ (inCommand : Bool) (cursor next : Cursor) (nodes : List Node),
      (Phrase.expressionList inCommand cursor).result = .ok (nodes, next) ↔
        ∃ list, Phrase.Reads (.entries inCommand) cursor list next ∧
          ∃ parts, Gathered.PartsOf list parts ∧
            parts.map Gathered.entries = Entry.runs list ∧ nodes = parts.map Gathered.node) ∧
    ∀ (fuel : Nat) (parser behind : Parser) (nodes : List Node),
      (Machine.exec fuel (.expressionList [] [])).run parser = (.ok nodes, behind) ↔
        ∃ list, Machine.ReadsEntries fuel parser list behind ∧
          ∃ parts, Gathered.PartsOf list parts ∧
            parts.map Gathered.entries = Entry.runs list ∧ nodes = parts.map Gathered.node := by
  constructor
  · intro inCommand cursor next nodes
    rw [Phrase.expressionList_eq_ok_iff]
    simp only [Gathered.gather_eq_iff]
  · intro fuel parser behind nodes
    rw [Machine.run_expressionList_eq_ok_iff]
    simp only [Gathered.gather_eq_iff]

end ScriptFront
