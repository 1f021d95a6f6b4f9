import ScriptFront.Grammar.Entry

/-!
# Gathering from the front

The entries of a list are gathered one after the other, behind the nodes that have been gathered and
the run of pairs that is not closed yet.  So what an entry at the end of a list becomes does not
depend on how the others are gathered.
-/

namespace ScriptFront

namespace Entry

/-- The nodes of a list with its last run of pairs. -/
def withRun (nodes : List Node) (run : List (Pair Node)) : List Node :=
  if run.isEmpty then nodes else nodes ++ [.hash run]

/-- The nodes of a list of entries, behind some nodes and a run of pairs. -/
def collect (nodes : List Node) (run : List (Pair Node)) : List Entry → List Node
  | [] => withRun nodes run
  | .pair both :: list => collect nodes (run ++ [both]) list
  | .single node :: list => collect (withRun nodes run ++ [node]) [] list

theorem gather_run
    (run : List (Pair Node)) (last : Pair Node) {list : List Entry}
    (ends : ∀ both rest, list ≠ .pair both :: rest) :
    gather ((run ++ [last]).map .pair ++ list) = .hash (run ++ [last]) :: gather list := by
  induction run with
  | nil =>
      cases list with
      | nil => rfl
      | cons first rest =>
          cases first with
          | single => rfl
          | pair both => exact absurd rfl (ends both rest)
  | cons first others inductionHypothesis =>
      have isMore : ∃ second more, (others ++ [last]).map Entry.pair ++ list =
          .pair second :: more := by
        cases others with
        | nil => exact ⟨last, list, rfl⟩
        | cons second more => exact ⟨second, (more ++ [last]).map .pair ++ list, rfl⟩
      rcases isMore with ⟨second, more, isMore⟩
      rw [isMore] at inductionHypothesis
      rw [List.cons_append, List.map_cons, List.cons_append, isMore, gather, inductionHypothesis]

/-- A run of pairs in front of what is no pair is one hash. -/
theorem gather_withRun
    (run : List (Pair Node)) {list : List Entry} (ends : ∀ both rest, list ≠ .pair both :: rest)
    (nodes : List Node) :
    nodes ++ gather (run.map .pair ++ list) = withRun nodes run ++ gather list := by
  rcases List.eq_nil_or_concat run with rfl | ⟨front, last, rfl⟩
  · rfl
  · rw [List.concat_eq_append, gather_run front last ends, withRun]
    simp

/-- A list of pairs is one hash. -/
theorem gather_pairs {list : List (Pair Node)} (some : list ≠ []) :
    gather (list.map .pair) = [.hash list] := by
  have noPair : ∀ both rest, ([] : List Entry) ≠ .pair both :: rest := by simp
  have gathered := gather_withRun list noPair []
  rw [withRun, List.isEmpty_eq_false_iff.2 some, List.append_nil] at gathered
  exact gathered

theorem collect_eq (nodes : List Node) (run : List (Pair Node)) (list : List Entry) :
    collect nodes run list = nodes ++ gather (run.map .pair ++ list) := by
  induction list generalizing nodes run with
  | nil =>
      have isEmpty : ∀ both rest, ([] : List Entry) ≠ .pair both :: rest := by simp
      rw [gather_withRun run isEmpty nodes, collect, gather, List.append_nil]
  | cons first others inductionHypothesis =>
      cases first with
      | pair both =>
          rw [collect, inductionHypothesis, List.map_append, List.append_assoc]
          rfl
      | single node =>
          rw [collect, inductionHypothesis, gather_withRun run (by simp), gather]
          simp

theorem collect_eq_gather : collect [] [] = gather := by
  funext list
  exact collect_eq [] [] list

/-! ## The last entry -/

theorem collect_append_single
    (nodes : List Node) (run : List (Pair Node)) (list : List Entry) (node : Node) :
    collect nodes run (list ++ [.single node]) = collect nodes run list ++ [node] := by
  induction list generalizing nodes run with
  | nil => rfl
  | cons first others inductionHypothesis =>
      cases first with
      | pair both => exact inductionHypothesis nodes (run ++ [both])
      | single other => exact inductionHypothesis (withRun nodes run ++ [other]) []

theorem collect_append_pair
    (nodes : List Node) (run : List (Pair Node)) (list : List Entry) (both : Pair Node) :
    ∃ front pairs, collect nodes run (list ++ [.pair both]) = front ++ [.hash pairs] := by
  induction list generalizing nodes run with
  | nil =>
      have isOpen : (run ++ [both]).isEmpty = false := by simp
      refine ⟨nodes, run ++ [both], ?_⟩
      rw [List.nil_append, collect, collect, withRun, isOpen, if_neg Bool.false_ne_true]
  | cons first others inductionHypothesis =>
      cases first with
      | pair other => exact inductionHypothesis nodes (run ++ [other])
      | single node => exact inductionHypothesis (withRun nodes run ++ [node]) []

/-- An expression of its own is the last node of its list. -/
theorem gather_append_single (list : List Entry) (node : Node) :
    gather (list ++ [.single node]) = gather list ++ [node] := by
  rw [← collect_eq_gather]
  exact collect_append_single [] [] list node

/-- A pair at the end of a list is gathered into the last node. -/
theorem gather_append_pair (list : List Entry) (both : Pair Node) :
    ∃ nodes pairs, gather (list ++ [.pair both]) = nodes ++ [.hash pairs] := by
  rw [← collect_eq_gather]
  exact collect_append_pair [] [] list both

/-- A list whose last node is no hash ends with that node. -/
theorem eq_append_single
    {list : List Entry} {nodes : List Node} {last : Node}
    (isGathered : gather list = nodes ++ [last]) (noHash : ∀ pairs, last ≠ .hash pairs) :
    ∃ front, list = front ++ [.single last] ∧ gather front = nodes := by
  rcases List.eq_nil_or_concat list with rfl | ⟨front, entry, rfl⟩
  · simp [gather] at isGathered
  · rw [List.concat_eq_append] at isGathered ⊢
    cases entry with
    | single node =>
        rw [gather_append_single] at isGathered
        rcases List.append_inj' isGathered rfl with ⟨isFront, isLast⟩
        obtain rfl := List.singleton_inj.1 isLast
        exact ⟨front, rfl, isFront⟩
    | pair both =>
        rcases gather_append_pair front both with ⟨others, pairs, isHash⟩
        rw [isHash] at isGathered
        have isLast := (List.append_inj' isGathered rfl).2
        exact absurd (List.singleton_inj.1 isLast).symm (noHash pairs)

end Entry

end ScriptFront
