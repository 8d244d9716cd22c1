import Mathlib.Data.List.Nodup
import Redex.Json.Fields

/-! The members of an object that repeats no key. The order of such members does not matter: what
is found under a key is what was written under it. -/
namespace Redex.Json

variable {members : Members} {key : String} {value : Json}

/-- No key is repeated. -/
def Distinct (members : Members) : Prop := (members.map Prod.fst).Nodup

/-- No member has this key. -/
def Lacks (members : Members) (key : String) : Prop := key ∉ members.map Prod.fst

instance (members : Members) : Decidable (Distinct members) :=
  inferInstanceAs (Decidable (members.map Prod.fst).Nodup)

instance (members : Members) (key : String) : Decidable (Lacks members key) :=
  inferInstanceAs (Decidable (key ∉ members.map Prod.fst))

@[simp] theorem lacks_nil (key : String) : Lacks [] key := List.not_mem_nil

@[simp] theorem lacks_cons {name : String} :
    Lacks ((name, value) :: members) key ↔ key ≠ name ∧ Lacks members key := by
  simp only [Lacks, List.map_cons, List.mem_cons, not_or]

@[simp] theorem lacks_append {others : Members} :
    Lacks (members ++ others) key ↔ Lacks members key ∧ Lacks others key := by
  simp only [Lacks, List.map_append, List.mem_append, not_or]

@[simp] theorem distinct_nil : Distinct [] := List.nodup_nil

@[simp] theorem distinct_cons :
    Distinct ((key, value) :: members) ↔ Lacks members key ∧ Distinct members :=
  List.nodup_cons

theorem last?_of_lacks (lacks : Lacks members key) : last? key members = none := by
  rw [Option.eq_none_iff_forall_ne_some]
  intro value found
  exact lacks (List.mem_map.mpr ⟨_, mem_of_last? found, rfl⟩)

theorem last?_of_mem (distinct : Distinct members) (member : (key, value) ∈ members) :
    last? key members = some value := by
  induction members with
  | nil => contradiction
  | cons first rest ih =>
    obtain ⟨name, other⟩ := first
    obtain ⟨fresh, distinct⟩ := List.nodup_cons.mp distinct
    rcases List.mem_cons.mp member with same | later
    · cases same
      rw [last?, last?_of_lacks fresh, if_pos rfl, Option.none_or]
    · rw [last?, ih distinct later, Option.some_or]

theorem repeats_eq_false (distinct : Distinct members) (key : String) :
    repeats key members = false := by
  have once := List.nodup_iff_count_le_one.mp distinct key
  rw [List.count, List.countP_map] at once
  exact decide_eq_false (Nat.not_lt.mpr once)

end Redex.Json
