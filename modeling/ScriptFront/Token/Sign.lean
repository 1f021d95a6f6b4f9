import ScriptFront.Token.Basic

/-!
The signs of operators and marks. Several signs start alike; the longest one that stands at the
front of the text is read.
-/

namespace ScriptFront

/-- A kind that is always written the same way, and how it is written. -/
structure Sign where
  kind : Kind
  text : List Char
deriving DecidableEq, Repr

namespace Sign

def ofOperator (operator : Operator) : Sign := ⟨.operator operator, operator.sign.toList⟩

def ofMark (mark : Mark) : Sign := ⟨.mark mark, mark.sign.toList⟩

/-- The signs of all operators and marks. -/
def all : List Sign := Operator.all.map ofOperator ++ Mark.all.map ofMark

/-- The longest of several signs. -/
def longest? : List Sign → Option Sign
  | [] => none
  | sign :: others =>
    match longest? others with
    | none => some sign
    | some best => if best.text.length ≤ sign.text.length then some sign else some best

/-- The longest sign at the front of a text. -/
def atFront? (input : List Char) : Option Sign :=
  longest? (all.filter (·.text.isPrefixOf input))

theorem longest?_mem {signs : List Sign} {best : Sign} (found : longest? signs = some best) :
    best ∈ signs := by
  induction signs generalizing best with
  | nil => simp [longest?] at found
  | cons sign others inductionHypothesis =>
    unfold longest? at found
    split at found
    · simp_all
    · split at found <;> simp_all

theorem longest?_eq_none_iff {signs : List Sign} : longest? signs = none ↔ signs = [] := by
  cases signs with
  | nil => simp [longest?]
  | cons sign others =>
    unfold longest?
    split
    · simp
    · split <;> simp

theorem length_le_longest? {signs : List Sign} {best : Sign} (found : longest? signs = some best) :
    ∀ sign ∈ signs, sign.text.length ≤ best.text.length := by
  induction signs generalizing best with
  | nil => simp
  | cons first others inductionHypothesis =>
    unfold longest? at found
    split at found
    · rename_i noOther
      simp_all [longest?_eq_none_iff]
    · rename_i candidate isLongest
      have bound := inductionHypothesis isLongest
      split at found <;> simp_all <;> grind

theorem atFront?_mem {input : List Char} {sign : Sign} (found : atFront? input = some sign) :
    sign ∈ all :=
  (List.mem_filter.1 (longest?_mem found)).1

theorem atFront?_isPrefix {input : List Char} {sign : Sign} (found : atFront? input = some sign) :
    sign.text <+: input :=
  List.isPrefixOf_iff_prefix.1 (List.mem_filter.1 (longest?_mem found)).2

/-- No sign is empty. -/
theorem text_ne_nil {sign : Sign} (member : sign ∈ all) : sign.text ≠ [] := by
  have every : ∀ one ∈ all, one.text ≠ [] := by decide +kernel
  exact every sign member

end Sign

end ScriptFront
