import Redex.Number.Decimal

/-! JSON values. An object keeps its members as they were written; where a key
is repeated the last one counts, and what treats a repeated key as an error says
so itself. A number written without fraction and exponent is an integer as long
as it fits in 64 bits. -/
namespace Redex

inductive Json where
  | null
  | boolean (value : Bool)
  | integer (value : Int)
  | float (value : Binary64)
  | string (value : String)
  | array (items : List Json)
  | object (members : List (String × Json))

namespace Json

abbrev Members := List (String × Json)

/-- The member that counts under a key. -/
def last? (key : String) : Members → Option Json
  | [] => none
  | (name, value) :: rest => (last? key rest).or (if name = key then some value else none)

/-- Whether a key occurs more than once. -/
def repeats (key : String) (members : Members) : Bool :=
  decide (1 < members.countP (fun member => member.1 = key))

theorem mem_of_last? {key : String} {members : Members} {value : Json}
    (found : last? key members = some value) : (key, value) ∈ members := by
  induction members with
  | nil => simp [last?] at found
  | cons member rest ih =>
    obtain ⟨name, first⟩ := member
    simp only [last?, Option.or_eq_some_iff] at found
    rcases found with found | ⟨_, found⟩
    · exact List.mem_cons_of_mem _ (ih found)
    · split at found
      · rename_i same
        cases found
        subst same
        exact List.mem_cons_self
      · contradiction

theorem sizeOf_last? {key : String} {members : Members} {value : Json}
    (found : last? key members = some value) : sizeOf value < sizeOf members := by
  have bound := List.sizeOf_lt_of_mem (mem_of_last? found)
  simp only [Prod.mk.sizeOf_spec] at bound
  omega

end Json
end Redex
