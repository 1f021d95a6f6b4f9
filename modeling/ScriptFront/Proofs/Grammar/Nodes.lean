import ScriptFront.Proofs.Grammar.Completeness

/-!
# The nodes of a phrase

Which nodes a phrase is given and which it yields, so that a property of all nodes of a tree can be
followed through the rules.
-/

namespace ScriptFront

namespace Node

/-- `Occurs part whole` means that `part` is `whole` itself or one of the nodes below it. -/
inductive Occurs : Node → Node → Prop where
  | root (node : Node) : Occurs node node
  | inside {part child whole : Node} (isChild : child ∈ whole.children)
      (occurs : Occurs part child) : Occurs part whole

/-- Every node of the tree has a property. -/
def Everywhere (Property : Node → Prop) (whole : Node) : Prop :=
  ∀ part, Occurs part whole → Property part

variable {Property : Node → Prop}

theorem everywhere_iff {whole : Node} :
    Everywhere Property whole ↔
      Property whole ∧ ∀ child ∈ whole.children, Everywhere Property child := by
  constructor
  · intro all
    exact ⟨all whole (.root whole), fun child isChild part occurs =>
      all part (.inside isChild occurs)⟩
  · rintro ⟨atRoot, below⟩ part occurs
    cases occurs with
    | root => exact atRoot
    | inside isChild occurs => exact below _ isChild part occurs

end Node

/-- The nodes of an entry. -/
def Entry.nodes : Entry → List Node
  | .single node => [node]
  | .pair both => both.nodes

/-- The expressions inserted into a string. -/
def StringParts.inners : StringParts → List Node
  | .last _ => []
  | .insertion _ inner others => inner :: others.inners

theorem Parameter.values_cons (first : Parameter Node) (others : List (Parameter Node)) :
    (first :: others).filterMap Parameter.value? =
      first.value?.toList ++ others.filterMap Parameter.value? := by
  cases isValue : first.value? <;> simp [isValue]

/-- What holds of a hash as it holds of all its keys and values is kept when pairs are gathered. -/
theorem Entry.forall_gather {Holds : Node → Prop}
    (hash_iff : ∀ pairs, Holds (.hash pairs) ↔ ∀ child ∈ pairs.flatMap Pair.nodes, Holds child)
    {list : List Entry} (all : ∀ node ∈ list.flatMap Entry.nodes, Holds node) :
    ∀ node ∈ Entry.gather list, Holds node := by
  fun_induction Entry.gather list with
  | case1 => simp
  | case2 node entries inductionHypothesis =>
      simp only [List.flatMap_cons, Entry.nodes, List.singleton_append, List.forall_mem_cons]
        at all ⊢
      exact ⟨all.1, inductionHypothesis all.2⟩
  | case3 first second entries pairs nodes isHash inductionHypothesis =>
      rw [List.flatMap_cons, List.forall_mem_append] at all
      have others := inductionHypothesis all.2
      rw [isHash, List.forall_mem_cons, hash_iff] at others
      rw [List.forall_mem_cons, hash_iff, List.flatMap_cons, List.forall_mem_append]
      exact ⟨⟨all.1, others.1⟩, others.2⟩
  | case4 first second entries notHash inductionHypothesis =>
      rw [List.flatMap_cons, List.forall_mem_append] at all
      rw [List.forall_mem_cons, hash_iff]
      exact ⟨by simpa [nodes] using all.1, inductionHypothesis all.2⟩
  | case5 last entries notPair inductionHypothesis =>
      rw [List.flatMap_cons, List.forall_mem_append] at all
      rw [List.forall_mem_cons, hash_iff]
      exact ⟨by simpa [nodes] using all.1, inductionHypothesis all.2⟩

namespace Phrase

namespace Form

/-- The nodes that a phrase takes over from what was read before it. -/
def given : Form → List Node
  | .bareHash first => first.nodes
  | .morePairs first => first.nodes
  | .climb _ _ left => [left]
  | .trailingBlock _ _ list => list
  | _ => []

/-- The nodes at the top of what a phrase yields. -/
def yielded : (form : Form) → form.Value → List Node
  | .entry _, first => first.nodes
  | .entries _, list => list.flatMap Entry.nodes
  | .pairs, list | .morePairs _, list => list.flatMap Pair.nodes
  | .stringParts _, list => list.nodes
  | .definition, whole => whole.nodes
  | .parameters, list | .parameterList, list => list.filterMap Parameter.value?
  | .parameter, first | .parameterValue _, first => first.value?.toList
  | .statements _, nodes | .body, nodes | .enclosed _, nodes | .arguments, nodes => nodes
  | .statement, node | .bareHash _, node | .hash, node | .binary _ _, node
  | .climb _ _ _, node | .unary _, node | .primary _, node | .symbol, node | .group, node
  | .classDefinition, node | .moduleDefinition, node | .named _ _, node
  | .trailingBlock _ _ _, node => [node]

end Form

end Phrase

end ScriptFront
