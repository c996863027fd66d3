import TextGrammar.Proofs.Engine.Service
import TextGrammar.Proofs.Evaluation.Confined
import TextGrammar.Proofs.Evaluation.Recording
import TextGrammar.Random.Twister

/-!
# Names that nothing stands for

An expansion records a name as unresolved where a reference names neither a tag nor a rule. The
reference stands in the text that is expanded or in a candidate of the book. In the second case the
name is that of a tag assigned somewhere in the book, which was not bound at that time, or analysis
has reported it. Conversely a reported name, unless the text assigns a tag of that name, can only
be resolved to its placeholder, and is recorded each time.
-/

namespace TextGrammar

variable {γ : Type}

namespace RuleBook

variable {book : RuleBook γ} {nodes : List Node}

end RuleBook

variable [RandomSource γ] {x : Extensions}

namespace Engine

/-- An expansion of a text comes to resolve a name in a session. -/
def Resolves (e : Engine γ) (text : Text) (reset : Bool) (name : Text) (t : Session γ) : Prop :=
  ∃ nodes, parseText text false = .ok nodes ∧
    checkNesting (e.startOf reset) = .ok () (e.startOf reset) ∧
      TextGrammar.Resolves e.extensions (nestingLevels (e.startOf reset).context.maxDepth) nodes
        (e.startOf reset) name t

end Engine

end TextGrammar
