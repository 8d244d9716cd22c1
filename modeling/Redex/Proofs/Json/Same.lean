import Mathlib.Data.String.Basic
import Redex.Json.Printer
import Redex.Proofs.Json.Members

/-! JSON values that differ only in the order of members. They are read as the same, and since
members are sorted where a value is printed, they are printed as the same text. -/
namespace Redex.Json

section
variable {α : Type} {key : String} {value : α} {sorted members others : List (String × α)}
  {member : String × α}

/-- The keys ascend, so that none is repeated. -/
def Ascending (members : List (String × α)) : Prop := members.Pairwise (·.1 < ·.1)

theorem mem_insertMember (inserted : member ∈ insertMember key value sorted) :
    member = (key, value) ∨ member ∈ sorted := by
  induction sorted with
  | nil => exact .inl (List.mem_singleton.mp inserted)
  | cons first rest ih =>
    rw [insertMember] at inserted
    split at inserted
    · exact List.mem_cons.mp inserted
    · split at inserted
      · exact (List.mem_cons.mp inserted).imp_right (List.mem_cons_of_mem _)
      · rcases List.mem_cons.mp inserted with rfl | later
        · exact .inr List.mem_cons_self
        · exact (ih later).imp_right (List.mem_cons_of_mem _)

theorem Ascending.insertMember (ascending : Ascending sorted) (key : String) (value : α) :
    Ascending (insertMember key value sorted) := by
  induction sorted with
  | nil => exact List.pairwise_singleton _ _
  | cons first rest ih =>
    obtain ⟨name, other⟩ := first
    obtain ⟨below, later⟩ := List.pairwise_cons.mp ascending
    rw [Json.insertMember]
    split
    next before =>
      apply List.pairwise_cons.mpr ⟨_, ascending⟩
      intro member present
      rcases List.mem_cons.mp present with rfl | present
      · exact before
      · exact before.trans (below member present)
    next notBefore =>
      split
      next same => exact List.pairwise_cons.mpr ⟨same ▸ below, later⟩
      next other =>
        apply List.pairwise_cons.mpr ⟨_, ih later⟩
        intro member inserted
        rcases mem_insertMember inserted with rfl | present
        · exact lt_of_le_of_ne (not_lt.mp notBefore) (Ne.symm other)
        · exact below member present

theorem insertMember_perm (fresh : key ∉ sorted.map Prod.fst) :
    (insertMember key value sorted).Perm ((key, value) :: sorted) := by
  induction sorted with
  | nil => exact .refl _
  | cons first rest ih =>
    rw [List.map_cons, List.mem_cons, not_or] at fresh
    rw [insertMember]
    split
    · exact .refl _
    · rw [if_neg fresh.1]
      exact ((ih fresh.2).cons first).trans (.swap _ _ _)

theorem ascending_sortMembers (members : List (String × α)) : Ascending (sortMembers members) := by
  have insertAll (sorted : List (String × α)) (ascending : Ascending sorted) :
      Ascending (members.foldl (fun sorted m => insertMember m.1 m.2 sorted) sorted) := by
    induction members generalizing sorted with
    | nil => exact ascending
    | cons first rest ih => exact ih _ (ascending.insertMember first.1 first.2)
  exact insertAll [] List.Pairwise.nil

/-- Where no key is repeated, sorting leaves no member out. -/
theorem sortMembers_perm (distinct : (members.map Prod.fst).Nodup) :
    (sortMembers members).Perm members := by
  have insertAll (sorted : List (String × α))
      (fresh : ((members ++ sorted).map Prod.fst).Nodup) :
      (members.foldl (fun sorted m => insertMember m.1 m.2 sorted) sorted).Perm
        (members ++ sorted) := by
    induction members generalizing sorted with
    | nil => exact .refl _
    | cons first rest ih =>
      have moved : (first :: rest ++ sorted).Perm (rest ++ first :: sorted) :=
        List.perm_middle.symm
      have next := (moved.map Prod.fst).nodup_iff.mp fresh
      rw [List.cons_append, List.map_cons, List.nodup_cons, List.map_append, List.mem_append,
        not_or] at fresh
      have inserted : (insertMember first.1 first.2 sorted).Perm (first :: sorted) :=
        insertMember_perm fresh.1.2
      have above := inserted.append_left rest
      have later := ih (List.nodup_cons.mp distinct).2 _
        ((above.map Prod.fst).nodup_iff.mpr next)
      exact later.trans (above.trans moved.symm)
  have whole := insertAll [] (by rwa [List.append_nil])
  rwa [List.append_nil] at whole

/-- What members are sorted to does not depend on their order. -/
theorem sortMembers_eq_of_perm (perm : members.Perm others)
    (distinct : (members.map Prod.fst).Nodup) : sortMembers members = sortMembers others := by
  have distinct' := (perm.map Prod.fst).nodup_iff.mp distinct
  apply List.Perm.eq_of_pairwise _ (ascending_sortMembers members) (ascending_sortMembers others)
  · exact (sortMembers_perm distinct).trans (perm.trans (sortMembers_perm distinct').symm)
  · intro a b _ _ below above
    exact absurd above (lt_asymm below)

end

/-- Neither an array nor an object. -/
def Scalar : Json → Prop
  | .array _ | .object _ => False
  | _ => True

instance : (value : Json) → Decidable value.Scalar
  | .array _ | .object _ => isFalse id
  | .null | .boolean _ | .integer _ | .float _ | .string _ => isTrue trivial

/-- The values are equal up to the order of members at any depth, and no key is repeated. -/
inductive Same : Json → Json → Prop
  | scalar {value : Json} (scalar : value.Scalar) : Same value value
  | array {items items' : List Json} (length : items.length = items'.length)
      (each : ∀ {v w}, (v, w) ∈ items.zip items' → Same v w) : Same (.array items) (.array items')
  | object {members members' : Members} (distinct : Distinct members)
      (distinct' : Distinct members') (shared : ∀ key, Lacks members key ↔ Lacks members' key)
      (each : ∀ {key v w}, (key, v) ∈ members → (key, w) ∈ members' → Same v w) :
      Same (.object members) (.object members')

variable {α : Type} {key : String} {v w : Json} {members members' : Members}

theorem exists_of_not_lacks (present : ¬ Lacks members key) : ∃ value, (key, value) ∈ members := by
  obtain ⟨⟨_, value⟩, member, rfl⟩ := List.mem_map.mp (not_not.mp present)
  exact ⟨value, member⟩

theorem not_lacks_of_mem (member : (key, v) ∈ members) : ¬ Lacks members key :=
  fun lacks => lacks (List.mem_map.mpr ⟨_, member, rfl⟩)

/-- What is found under a key, if related values are all there is under it. -/
theorem last?_rel {R : Json → Json → Prop} (distinct : Distinct members)
    (distinct' : Distinct members') (shared : Lacks members key ↔ Lacks members' key)
    (each : ∀ {v w}, (key, v) ∈ members → (key, w) ∈ members' → R v w) :
    Option.Rel R (last? key members) (last? key members') := by
  by_cases lacks : Lacks members key
  · rw [last?_of_lacks lacks, last?_of_lacks (shared.mp lacks)]
    exact .none
  · obtain ⟨v, member⟩ := exists_of_not_lacks lacks
    obtain ⟨w, member'⟩ := exists_of_not_lacks (mt shared.mpr lacks)
    rw [last?_of_mem distinct member, last?_of_mem distinct' member']
    exact .some (each member member')

theorem map_eq_of_zip {f : Json → α} {items items' : List Json}
    (length : items.length = items'.length)
    (each : ∀ {v w}, (v, w) ∈ items.zip items' → f v = f w) : items.map f = items'.map f := by
  induction items generalizing items' with
  | nil =>
    obtain rfl := List.eq_nil_of_length_eq_zero length.symm
    rfl
  | cons item rest ih =>
    cases items' with
    | nil => contradiction
    | cons item' rest' =>
      rw [List.map_cons, List.map_cons, each List.mem_cons_self,
        ih (Nat.succ.inj length) fun later => each (List.mem_cons_of_mem _ later)]

/-! ## Printing -/

theorem compactItems_eq_map (items : List Json) : compactItems items = items.map compact := by
  induction items with
  | nil => rfl
  | cons item rest ih => rw [compactItems, ih, List.map_cons]

theorem compactMembers_eq_map (members : Members) :
    compactMembers members = members.map fun m => (m.1, compact m.2) := by
  induction members with
  | nil => rfl
  | cons member rest ih =>
    obtain ⟨key, value⟩ := member
    rw [compactMembers, ih, List.map_cons]

theorem Distinct.map_fst (distinct : Distinct members) (f : Json → α) :
    ((members.map fun m => (m.1, f m.2)).map Prod.fst).Nodup := by
  rw [List.map_map]
  exact distinct

/-- Members with the same keys, and results of `f` that are the same under each key. -/
theorem map_perm {f : Json → α} (distinct : Distinct members) (distinct' : Distinct members')
    (shared : ∀ key, Lacks members key ↔ Lacks members' key)
    (each : ∀ {key v w}, (key, v) ∈ members → (key, w) ∈ members' → f v = f w) :
    (members.map fun m => (m.1, f m.2)).Perm (members'.map fun m => (m.1, f m.2)) := by
  rw [List.perm_ext_iff_of_nodup (distinct.map_fst f).of_map (distinct'.map_fst f).of_map]
  rintro ⟨key, result⟩
  simp only [List.mem_map, Prod.mk.injEq, Prod.exists]
  constructor
  · rintro ⟨_, v, member, rfl, rfl⟩
    obtain ⟨w, member'⟩ := exists_of_not_lacks (mt (shared _).mpr (not_lacks_of_mem member))
    exact ⟨_, w, member', rfl, (each member member').symm⟩
  · rintro ⟨_, w, member', rfl, rfl⟩
    obtain ⟨v, member⟩ := exists_of_not_lacks (mt (shared _).mp (not_lacks_of_mem member'))
    exact ⟨_, v, member, rfl, each member member'⟩

theorem Same.compact_eq (same : Same v w) : v.compact = w.compact := by
  induction same with
  | scalar => rfl
  | array length each ih =>
    rw [compact, compact, compactItems_eq_map, compactItems_eq_map, map_eq_of_zip length ih]
  | object distinct distinct' shared each ih =>
    rw [compact, compact, compactMembers_eq_map, compactMembers_eq_map,
      sortMembers_eq_of_perm (map_perm distinct distinct' shared ih) (distinct.map_fst compact)]

theorem Same.toText_eq (same : Same v w) : v.toText = w.toText := by
  rw [toText, toText, same.compact_eq]

/-! ## Reading -/

theorem Same.index?_eq (same : Same v w) : v.index? = w.index? := by
  cases same <;> rfl

theorem Same.text?_eq (same : Same v w) : v.text? = w.text? := by
  cases same <;> rfl

theorem span?_array (items : List Json) :
    span? (.array items) = match items.map index? with
      | [start, stop] => do return ⟨← start, ← stop⟩
      | _ => none := by
  rcases items with _ | ⟨start, _ | ⟨stop, _ | _⟩⟩ <;> rfl

theorem Same.span?_eq (same : Same v w) : v.span? = w.span? := by
  cases same with
  | scalar => rfl
  | array length each =>
    rw [span?_array, span?_array, map_eq_of_zip length fun member => (each member).index?_eq]
  | object => rfl

theorem Same.eq_null_iff (same : Same v w) : v = .null ↔ w = .null := by
  cases same <;> simp

/-- A member that may be absent or null is read as the same if it is read at all. -/
theorem optional?_eq {R : Json → Json → Prop} {read : Json → Option α} {found found' : Option Json}
    (rel : Option.Rel R found found') (nulls : ∀ {v w}, R v w → (v = .null ↔ w = .null))
    (each : ∀ {v w}, R v w → read v = read w) : optional? read found = optional? read found' := by
  have solid {value : Json} (notNull : value ≠ .null) :
      optional? read (some value) = (read value).map some := by
    cases value with
    | null => contradiction
    | _ => rfl
  cases rel with
  | none => rfl
  | @some v w related =>
    by_cases null : v = .null
    · rw [null, (nulls related).mp null]
    · rw [solid null, solid (mt (nulls related).mpr null), each related]

/-- Members with the same keys are as many. -/
theorem length_eq (distinct : Distinct members) (distinct' : Distinct members')
    (shared : ∀ key, Lacks members key ↔ Lacks members' key) :
    members.length = members'.length := by
  have keys : (members.map Prod.fst).Perm (members'.map Prod.fst) :=
    (List.perm_ext_iff_of_nodup distinct distinct').mpr fun key => not_iff_not.mp (shared key)
  simpa using keys.length_eq

end Redex.Json
