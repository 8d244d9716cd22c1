import Redex.Proofs.Program.Sums

/-! Evaluating a program rewrites its text. Every expression of it is reduced where
it stands, by induction on the expression, and every statement leaves what
follows it as it was written. -/
namespace Redex.Written

variable {session : Session} {before rest : List Char} {start : Nat}

end Redex.Written
