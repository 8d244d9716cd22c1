import Redex.Evaluation.Evaluator
import Redex.Session.Concatenation

/-! A session consumes the steps of an evaluation by applying each to its text. -/
namespace Redex.Session

/-- A session as a consumer of steps. -/
def consumer : Consumer Session
  | .replace range text => replaceRange range text.toList
  | .concatenate left right => concatenate left right

/-- Evaluates a tree of the session's source. -/
def evaluate (tree : Tree) : StateM Session (Except Failure Completion) := tree.evaluate consumer

end Redex.Session
