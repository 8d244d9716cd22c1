import Redex.Proofs.Json.Same
import Redex.Proofs.Syntax.Decoding

/-! Documents that differ only in what decoding does not read. Two runs on such documents read
equal members at every node, or like children, and come to the same tree or to an error with the same
text. Below a node of a kind without children nothing is read at all. -/
namespace Redex.Estree

open Json (Members Distinct Lacks Same Scalar)

/-- The members that tell the type and the span of a node. -/
def headKeys : List String := ["type", "start", "end", "range"]

/-- The members that hold the children of a node. -/
def childKeys : List String := ["body", "expression", "left", "right"]

/-- The members that a node of this type is read for beside. -/
def ownKeys (type : String) : List String :=
  if type = "Program" then ["body"]
  else if type = "ExpressionStatement" then ["expression"]
  else if type = "BinaryExpression" then ["operator", "left", "right"]
  else if type = "Literal" then ["value", "raw", "regex", "bigint"]
  else []

/-- The members that decoding an object looks at. -/
def readKeys (members : Members) : List String :=
  match Json.last? "type" members with
  | some (.string type) => headKeys ++ ownKeys type
  | _ => headKeys

/-- The values are equal but for the order of members, or they are objects with equal patterns and
flags. -/
inductive AlikeRegExp : Json → Json → Prop
  | same {v w : Json} (same : Same v w) : AlikeRegExp v w
  | parts {members members' : Members} (distinct : Distinct members)
      (distinct' : Distinct members')
      (shared : ∀ {key}, key ∈ ["pattern", "flags"] → (Lacks members key ↔ Lacks members' key))
      (each : ∀ {key v w}, key ∈ ["pattern", "flags"] → (key, v) ∈ members → (key, w) ∈ members' →
        Same v w) : AlikeRegExp (.object members) (.object members')

/-- The documents are equal up to the order of members and up to those that are not read. At each
node the members that are read are there in both or in neither; children are alike, and other
members are equal up to order. -/
inductive Alike : Json → Json → Prop
  | scalar {value : Json} (scalar : value.Scalar) : Alike value value
  | array {items items' : List Json} (length : items.length = items'.length)
      (each : ∀ {v w}, (v, w) ∈ items.zip items' → Alike v w) : Alike (.array items) (.array items')
  | node {members members' : Members} (distinct : Distinct members)
      (distinct' : Distinct members')
      (shared : ∀ {key}, key ∈ readKeys members → (Lacks members key ↔ Lacks members' key))
      (plain : ∀ {key v w}, key ∈ readKeys members → key ∉ childKeys → key ≠ "regex" →
        (key, v) ∈ members → (key, w) ∈ members' → Same v w)
      (regExp : ∀ {v w}, "regex" ∈ readKeys members → ("regex", v) ∈ members →
        ("regex", w) ∈ members' → AlikeRegExp v w)
      (children : ∀ {key v w}, key ∈ readKeys members → key ∈ childKeys →
        (key, v) ∈ members → (key, w) ∈ members' → Alike v w) :
      Alike (.object members) (.object members')

/-- Both come to the same, or both fail with the same text, if the error has one. -/
inductive Agrees {α : Type} : Except Error α → Except Error α → Prop
  | ok (a : α) : Agrees (.ok a) (.ok a)
  | error {e e' : Error} (message : e.message? = e'.message?) : Agrees (.error e) (.error e')

namespace Agrees

variable {α β : Type} {x y : Except Error α}

theorem refl (x : Except Error α) : Agrees x x := by
  cases x with
  | ok a => exact .ok a
  | error e => exact .error rfl

theorem bind {f g : α → Except Error β} (first : Agrees x y) (next : ∀ a, Agrees (f a) (g a)) :
    Agrees (x >>= f) (y >>= g) := by
  cases first with
  | ok a => exact next a
  | error message => exact .error message

theorem map (agrees : Agrees x y) (f : α → β) : Agrees (f <$> x) (f <$> y) := by
  cases agrees with
  | ok a => exact .ok (f a)
  | error message => exact .error message

end Agrees

/-- The trees of a list of nodes. -/
def decodeItems : Json → Except Error (List Tree)
  | .array items => decodeAll items
  | _ => .error .malformed

section
variable {v w : Json} {members members' : Members} {type : String} {span : Span}

theorem mem_readKeys_of_head {key : String} (head : key ∈ headKeys) : key ∈ readKeys members := by
  unfold readKeys
  split
  · exact List.mem_append_left _ head
  · exact head

theorem mem_readKeys_of_own {key : String}
    (typed : Json.last? "type" members = some (.string type)) (own : key ∈ ownKeys type) :
    key ∈ readKeys members := by
  simp only [readKeys, typed]
  exact List.mem_append_right _ own

/-! ## Members that are equal up to order -/

/-- What may stand beside the token of an operator that is written as a key. -/
def besideToken : Json → Bool
  | .null | .object [] => true
  | _ => false

theorem operator?_singleton (token : String) (value : Json) :
    operator? (.object [(token, value)]) =
      if besideToken value then Operator.ofToken? token else none := by
  cases value with
  | object parts => cases parts <;> rfl
  | _ => rfl

theorem operator?_eq_none (distinct : Distinct members) (several : members.length ≠ 1) :
    operator? (.object members) = none := by
  have length := (Json.sortMembers_perm distinct).length_eq
  rw [operator?]
  generalize Json.sortMembers members = sorted at length ⊢
  rcases sorted with _ | ⟨first, _ | ⟨second, rest⟩⟩
  · rfl
  · exact absurd length.symm several
  · obtain ⟨token, value⟩ := first
    cases value with
    | object parts => cases parts <;> rfl
    | _ => rfl

theorem besideToken_eq (same : Same v w) : besideToken v = besideToken w := by
  cases same with
  | scalar => rfl
  | array => rfl
  | @object members members' distinct distinct' shared each =>
    have length := Json.length_eq distinct distinct' shared
    cases members <;> cases members' <;> first | rfl | contradiction

theorem operator?_eq (same : Same v w) : operator? v = operator? w := by
  cases same with
  | scalar => rfl
  | array => rfl
  | @object members members' distinct distinct' shared each =>
    have length := Json.length_eq distinct distinct' shared
    by_cases single : members.length = 1
    · obtain ⟨⟨token, value⟩, rfl⟩ := List.length_eq_one_iff.mp single
      obtain ⟨⟨token', value'⟩, rfl⟩ := List.length_eq_one_iff.mp (length.symm.trans single)
      obtain rfl : token' = token := by
        have there := (shared token').not.mpr (Json.not_lacks_of_mem List.mem_cons_self)
        obtain ⟨_, member⟩ := Json.exists_of_not_lacks there
        exact congrArg Prod.fst (List.mem_singleton.mp member)
      rw [operator?_singleton, operator?_singleton,
        besideToken_eq (each List.mem_cons_self List.mem_cons_self)]
    · rw [operator?_eq_none distinct single, operator?_eq_none distinct' (length ▸ single)]

theorem plainValue_agrees (same : Same v w) : Agrees (plainValue v) (plainValue w) := by
  cases same with
  | scalar => exact .refl _
  | array length each =>
    exact .error (congrArg (some <| "unrecognized literal value " ++ ·)
      (Same.array length each).toText_eq)
  | object distinct distinct' shared each =>
    exact .error (congrArg (some <| "unrecognized literal value " ++ ·)
      (Same.object distinct distinct' shared each).toText_eq)

theorem plainValue_getD_agrees {found found' : Option Json} (rel : Option.Rel Same found found') :
    Agrees (plainValue (found.getD .null)) (plainValue (found'.getD .null)) := by
  cases rel with
  | none => exact .refl _
  | some same => exact plainValue_agrees same

theorem AlikeRegExp.eq_null_iff (alike : AlikeRegExp v w) : v = .null ↔ w = .null := by
  cases alike with
  | same same => exact same.eq_null_iff
  | parts => simp

theorem regExp?_array (items : List Json) :
    regExp? (.array items) = match items.map Json.text? with
      | [pattern, flags] => do return .regExp (← pattern) (← flags)
      | _ => none := by
  rcases items with _ | ⟨pattern, _ | ⟨flags, _ | _⟩⟩ <;> rfl

theorem AlikeRegExp.regExp?_eq (alike : AlikeRegExp v w) : regExp? v = regExp? w := by
  have text {found found' : Option Json} (rel : Option.Rel Same found found') :
      found.bind Json.text? = found'.bind Json.text? := by
    cases rel with
    | none => rfl
    | some same => exact same.text?_eq
  have parts {members members' : Members} (distinct : Distinct members)
      (distinct' : Distinct members')
      (shared : ∀ {key}, key ∈ ["pattern", "flags"] → (Lacks members key ↔ Lacks members' key))
      (each : ∀ {key v w}, key ∈ ["pattern", "flags"] → (key, v) ∈ members → (key, w) ∈ members' →
        Same v w) : regExp? (.object members) = regExp? (.object members') := by
    have found {key : String} (part : key ∈ ["pattern", "flags"]) :
        (Json.last? key members).bind Json.text? = (Json.last? key members').bind Json.text? :=
      text (Json.last?_rel distinct distinct' (shared part) (each part))
    rw [regExp?, regExp?, found (by decide), found (by decide)]
  cases alike with
  | parts distinct distinct' shared each => exact parts distinct distinct' shared each
  | same same =>
    cases same with
    | scalar => rfl
    | object distinct distinct' shared each =>
      exact parts distinct distinct' (fun _ => shared _) fun _ => each
    | array length each =>
      rw [regExp?_array, regExp?_array, Json.map_eq_of_zip length fun item => (each item).text?_eq]

/-! ## Nodes -/

/-- The type and the span of a node, from what tells them. -/
def headOf (type? : Option Json) (start stop : Option Nat) (range : Option Span) :
    Except Error (String × Span) :=
  match type? with
  | some (.string type) =>
    match start, stop, range with
    | some start, some stop, _ => return (type, ⟨start, stop⟩)
    | _, _, some range => return (type, range)
    | _, _, none => throw (.noSpan type)
  | _ => throw .noType

theorem headOf_typed {type? : Option Json} {start stop : Option Nat} {range : Option Span}
    (found : headOf type? start stop range = .ok (type, span)) : type? = some (.string type) := by
  unfold headOf at found
  split at found
  · split at found <;> cases found <;> rfl
  · cases found

theorem headOf_eq {type? type?' : Option Json} (rel : Option.Rel Same type? type?') :
    headOf type? = headOf type?' := by
  cases rel with
  | none => rfl
  | some same =>
    cases same with
    | scalar => rfl
    | array => rfl
    | object => rfl

/-- A node is told its type by what it holds under `type`. -/
theorem head_typed (found : head members = .ok (type, span)) :
    Json.last? "type" members = some (.string type) := by
  have opened {α β : Type} {x : Except Error α} {f : α → Except Error β} {b : β}
      (done : x >>= f = .ok b) : ∃ a, f a = .ok b := by
    cases x with
    | ok a => exact ⟨a, done⟩
    | error e => cases done
  obtain ⟨start, found⟩ := opened found
  obtain ⟨stop, found⟩ := opened found
  obtain ⟨range, found⟩ := opened found
  exact headOf_typed found

/-- The nodes below are decoded to the same or fail alike, be it one node or a list of nodes. -/
structure DecodeAlike (v w : Json) : Prop where
  one : Agrees (decode v) (decode w)
  all : Agrees (decodeItems v) (decodeItems w)

theorem decodeAll_agrees {items items' : List Json} (length : items.length = items'.length)
    (each : ∀ {v w}, (v, w) ∈ items.zip items' → Agrees (decode v) (decode w)) :
    Agrees (decodeAll items) (decodeAll items') := by
  induction items generalizing items' with
  | nil =>
    obtain rfl := List.eq_nil_of_length_eq_zero length.symm
    exact .refl _
  | cons item rest ih =>
    cases items' with
    | nil => contradiction
    | cons item' rest' =>
      rw [decodeAll, decodeAll]
      apply (each List.mem_cons_self).bind
      intro tree
      apply (ih (Nat.succ.inj length) fun later => each (List.mem_cons_of_mem _ later)).bind
      intro trees
      exact .ok _

theorem head_eq (plain : ∀ {key}, key ∈ headKeys →
      Option.Rel Same (Json.last? key members) (Json.last? key members')) :
    head members = head members' := by
  have index {key : String} (own : key ∈ headKeys) :
      Json.optional? Json.index? (Json.last? key members) =
        Json.optional? Json.index? (Json.last? key members') :=
    Json.optional?_eq (plain own) Same.eq_null_iff Same.index?_eq
  have range : Json.optional? Json.span? (Json.last? "range" members) =
      Json.optional? Json.span? (Json.last? "range" members') :=
    Json.optional?_eq (plain (by decide)) Same.eq_null_iff Same.span?_eq
  have typed : headOf (Json.last? "type" members) = headOf (Json.last? "type" members') :=
    headOf_eq (plain (by decide))
  have split (members : Members) : head members = (do
      let start ← orMalformed (Json.optional? Json.index? (Json.last? "start" members))
      let stop ← orMalformed (Json.optional? Json.index? (Json.last? "end" members))
      let range ← orMalformed (Json.optional? Json.span? (Json.last? "range" members))
      headOf (Json.last? "type" members) start stop range) := rfl
  rw [split, split, index (by decide), index (by decide), range, typed]

theorem literal_agrees (plain : ∀ {key}, key ∈ ["value", "raw", "bigint"] →
      Option.Rel Same (Json.last? key members) (Json.last? key members'))
    (regExp : Option.Rel AlikeRegExp (Json.last? "regex" members)
      (Json.last? "regex" members')) :
    Agrees (literal span members) (literal span members') := by
  have text {key : String} (own : key ∈ ["value", "raw", "bigint"]) :
      Json.optional? Json.text? (Json.last? key members) =
        Json.optional? Json.text? (Json.last? key members') :=
    Json.optional?_eq (plain own) Same.eq_null_iff Same.text?_eq
  have value : Agrees (plainValue ((Json.last? "value" members).getD .null))
      (plainValue ((Json.last? "value" members').getD .null)) :=
    plainValue_getD_agrees (plain (by decide))
  rw [literal, literal, text (by decide), text (by decide),
    Json.optional?_eq regExp AlikeRegExp.eq_null_iff AlikeRegExp.regExp?_eq]
  refine (Agrees.refl _).bind fun bigInt => (Agrees.refl _).bind fun raw =>
    (Agrees.refl _).bind fun found => ?_
  cases found with
  | some found => exact .refl _
  | none =>
    cases bigInt with
    | some digits => exact .refl _
    | none => exact value.bind fun _ => .refl _

/-- A child is there in both nodes or in neither. -/
theorem decodeChild_agrees {found found' : Option Json}
    (rel : Option.Rel DecodeAlike found found') : Agrees (decodeChild found) (decodeChild found') := by
  cases rel with
  | none => exact .refl _
  | some alike => exact alike.one.map some

theorem decodeOperator_eq {found found' : Option Json} (rel : Option.Rel Same found found') :
    decodeOperator found = decodeOperator found' := by
  cases rel with
  | none => rfl
  | some same => rw [decodeOperator, decodeOperator, operator?_eq same]

/-- The body of a program is a list of nodes. -/
def decodeBody : Option Json → Except Error (List Tree)
  | some value => decodeItems value
  | none => .error .malformed

theorem decodeAs_program (members : Members) (span : Span) :
    decodeAs "Program" span members =
      .program span <$> decodeBody (Json.last? "body" members) := by
  rw [decodeAs, if_pos rfl]
  cases Json.last? "body" members with
  | none => rfl
  | some value => cases value <;> rfl

/-- The expression of a statement has to be there. -/
def decodeExpression : Option Json → Except Error Tree
  | some value => decode value
  | none => .error .malformed

theorem decodeAs_expressionStatement (members : Members) (span : Span) :
    decodeAs "ExpressionStatement" span members =
      .expressionStatement span <$> decodeExpression (Json.last? "expression" members) := by
  rw [decodeAs, if_neg (by decide), if_pos rfl]
  cases Json.last? "expression" members with
  | none => rfl
  | some value => rfl

theorem decodeBody_agrees {found found' : Option Json} (rel : Option.Rel DecodeAlike found found') :
    Agrees (decodeBody found) (decodeBody found') := by
  cases rel with
  | none => exact .refl _
  | some alike => exact alike.all

theorem decodeExpression_agrees {found found' : Option Json}
    (rel : Option.Rel DecodeAlike found found') :
    Agrees (decodeExpression found) (decodeExpression found') := by
  cases rel with
  | none => exact .refl _
  | some alike => exact alike.one

/-- The members that its type needs decide what a node is decoded to. -/
theorem decodeAs_agrees (type : String) (span : Span)
    (plain : ∀ {key}, key ∈ ownKeys type → key ∉ childKeys → key ≠ "regex" →
      Option.Rel Same (Json.last? key members) (Json.last? key members'))
    (regExp : "regex" ∈ ownKeys type →
      Option.Rel AlikeRegExp (Json.last? "regex" members) (Json.last? "regex" members'))
    (children : ∀ {key}, key ∈ ownKeys type → key ∈ childKeys →
      Option.Rel DecodeAlike (Json.last? key members) (Json.last? key members')) :
    Agrees (decodeAs type span members) (decodeAs type span members') := by
  by_cases free : type ∉ Kind.parentTypes
  · rw [decodeAs_leaf members span free, decodeAs_leaf members' span free]
    exact .refl _
  · simp only [Kind.parentTypes, List.mem_cons, List.not_mem_nil, or_false, not_not] at free
    rcases free with rfl | rfl | rfl | rfl
    · rw [decodeAs_program, decodeAs_program]
      exact (decodeBody_agrees (children (by decide) (by decide))).map _
    · rw [decodeAs_expressionStatement, decodeAs_expressionStatement]
      exact (decodeExpression_agrees (children (by decide) (by decide))).map _
    · have operator : decodeOperator (Json.last? "operator" members) =
          decodeOperator (Json.last? "operator" members') :=
        decodeOperator_eq (plain (by decide) (by decide) (by decide))
      rw [decodeAs, decodeAs, operator]
      simp only [String.reduceEq, if_true, if_false]
      refine (decodeChild_agrees (children (by decide) (by decide))).bind fun left =>
        (Agrees.refl _).bind fun operator =>
        (decodeChild_agrees (children (by decide) (by decide))).bind fun right => .refl _
    · rw [decodeAs, decodeAs]
      simp only [String.reduceEq, if_true, if_false]
      apply literal_agrees
      · intro key own
        have known : ∀ key ∈ ["value", "raw", "bigint"],
            key ∈ ownKeys "Literal" ∧ key ∉ childKeys ∧ key ≠ "regex" := by decide
        obtain ⟨read, childless, other⟩ := known key own
        exact plain read childless other
      · exact regExp (by decide)

theorem decode_array (items : List Json) : decode (.array items) = .error .malformed := by
  rw [decode]
  intro members object
  cases object

/-- Alike documents are decoded alike. -/
theorem Alike.decodeAlike (alike : Alike v w) : DecodeAlike v w := by
  induction alike with
  | scalar => exact ⟨.refl _, .refl _⟩
  | array length each ih =>
    refine ⟨?_, decodeAll_agrees length fun member => (ih member).one⟩
    rw [decode_array, decode_array]
    exact .refl _
  | @node members members' distinct distinct' shared plain regExp children ih =>
    have equal {key : String} (read : key ∈ readKeys members) (childless : key ∉ childKeys)
        (other : key ≠ "regex") :
        Option.Rel Same (Json.last? key members) (Json.last? key members') :=
      Json.last?_rel distinct distinct' (shared read) (plain read childless other)
    refine ⟨?_, .refl _⟩
    rw [decode_object, decode_object]
    have heads : head members = head members' := by
      apply head_eq
      intro key own
      have known : ∀ key ∈ headKeys, key ∉ childKeys ∧ key ≠ "regex" := by decide
      exact equal (mem_readKeys_of_head own) (known key own).1 (known key own).2
    rw [← heads]
    cases found : head members with
    | error e => exact .refl _
    | ok typed =>
      obtain ⟨type, span⟩ := typed
      have read {key : String} (own : key ∈ ownKeys type) : key ∈ readKeys members :=
        mem_readKeys_of_own (head_typed found) own
      apply decodeAs_agrees type span
      · intro key own
        exact equal (read own)
      · intro own
        exact Json.last?_rel distinct distinct' (shared (read own)) (regExp (read own))
      · intro key own child
        exact Json.last?_rel distinct distinct' (shared (read own)) (ih (read own) child)

theorem Alike.decodeRoot_agrees (alike : Alike v w) : Agrees (decodeRoot v) (decodeRoot w) := by
  cases alike with
  | scalar => exact .refl _
  | array => exact .refl _
  | node distinct distinct' shared plain regExp children =>
    rw [decodeRoot_object distinct, decodeRoot_object distinct']
    exact (Alike.node distinct distinct' shared plain regExp children).decodeAlike.one

/-- Documents that are equal up to order are alike. -/
theorem alike_of_same (same : Same v w) : Alike v w := by
  induction same with
  | scalar scalar => exact .scalar scalar
  | array length each ih => exact .array length ih
  | object distinct distinct' shared each ih =>
    refine .node distinct distinct' (fun _ => shared _) (fun _ _ _ => each) ?_ fun _ _ => ih
    intro v w _ member member'
    exact .same (each member member')

theorem ownKeys_of_free (free : type ∉ Kind.parentTypes) : ownKeys type = [] := by
  simp only [Kind.parentTypes, List.mem_cons, List.not_mem_nil, or_false, not_or] at free
  obtain ⟨program, statement, binary, literal⟩ := free
  rw [ownKeys, if_neg program, if_neg statement, if_neg binary, if_neg literal]

/-- Nodes of a kind without children are alike if their types and spans are. -/
theorem Alike.leaf (distinct : Distinct members) (distinct' : Distinct members')
    (typed : Json.last? "type" members = some (.string type)) (free : type ∉ Kind.parentTypes)
    (shared : ∀ key ∈ headKeys, Lacks members key ↔ Lacks members' key)
    (each : ∀ {key v w}, key ∈ headKeys → (key, v) ∈ members → (key, w) ∈ members' → Same v w) :
    Alike (.object members) (.object members') := by
  have read : readKeys members = headKeys := by
    simp only [readKeys, typed, ownKeys_of_free free, List.append_nil]
  refine .node distinct distinct' (read ▸ shared _) ?_ ?_ ?_
  · intro key v w head _ _
    exact each (read ▸ head)
  · intro v w regExp
    rw [read] at regExp
    exact absurd regExp (by decide)
  · intro key v w head child
    have childless : ∀ key ∈ headKeys, key ∉ childKeys := by decide
    exact absurd child (childless key (read ▸ head))

/-- Documents that are equal up to the order of members, and up to members that their nodes are not
read for, are decoded to the same tree or both refused, with the same text if the error has
one. That goes for the values and for texts that hold them. In particular a node of an unknown
kind or of one without children is decoded from its type and its span, whatever else it holds. -/
theorem decoding_reads_own_members (alike : Alike v w) :
    Agrees (decodeRoot v) (decodeRoot w) ∧
    (∀ {text text'}, Json.ofText? text = some v → Json.ofText? text' = some w →
      Agrees (ofText text) (ofText text')) ∧
    ∀ {members type span}, head members = .ok (type, span) → type ∉ Kind.parentTypes →
      decode (.object members) = .ok (.leaf span (.ofName type)) := by
  have root := alike.decodeRoot_agrees
  refine ⟨root, ?_, ?_⟩
  · intro text text' read read'
    rw [ofText_of_ofText? read, ofText_of_ofText? read']
    exact root
  · intro members type span found free
    rw [decode_object, found]
    exact decodeAs_leaf members span free

/-- A statement in two orders. One has a member that is not read, and below the identifier either
has a member that no node could have. -/
theorem decoding_reads_own_members_of_unread :
    let identifier (unread : String × Json) : Json :=
      .object [("type", .string "Identifier"), unread, ("start", .integer 0), ("end", .integer 1)]
    let first : Members := [("type", .string "ExpressionStatement"), ("start", .integer 0),
      ("end", .integer 2), ("expression", identifier ("left", .object [])), ("directive", .null)]
    let second : Members := [("expression", identifier ("body", .string "x")), ("end", .integer 2),
      ("type", .string "ExpressionStatement"), ("start", .integer 0)]
    let tree : Tree := .expressionStatement ⟨0, 2⟩ (.leaf ⟨0, 1⟩ (.ofName "Identifier"))
    Alike (.object first) (.object second) ∧
      decodeRoot (.object first) = .ok tree ∧ decodeRoot (.object second) = .ok tree := by
  intro identifier first second tree
  have below : Alike (identifier ("left", .object [])) (identifier ("body", .string "x")) := by
    apply Alike.leaf (by decide) (by decide) rfl (by decide) (by decide +kernel)
    intro key v w head member member'
    simp only [List.mem_cons, List.not_mem_nil, Prod.mk.injEq, or_false] at member member'
    rcases member with ⟨rfl, rfl⟩ | ⟨rfl, rfl⟩ | ⟨rfl, rfl⟩ | ⟨rfl, rfl⟩
    · obtain rfl : w = .string "Identifier" := by simpa using member'
      exact .scalar trivial
    · exact absurd head (by decide)
    · obtain rfl : w = .integer 0 := by simpa using member'
      exact .scalar trivial
    · obtain rfl : w = .integer 1 := by simpa using member'
      exact .scalar trivial
  have alike : Alike (.object first) (.object second) := by
    refine .node (by decide) (by decide) (@(by decide +kernel)) ?_ ?_ ?_
    · intro key v w _ childless _ member member'
      simp only [first, second, List.mem_cons, List.not_mem_nil, Prod.mk.injEq,
        or_false] at member member'
      rcases member with ⟨rfl, rfl⟩ | ⟨rfl, rfl⟩ | ⟨rfl, rfl⟩ | ⟨rfl, rfl⟩ | ⟨rfl, rfl⟩
      · obtain rfl : w = .string "ExpressionStatement" := by simpa using member'
        exact .scalar trivial
      · obtain rfl : w = .integer 0 := by simpa using member'
        exact .scalar trivial
      · obtain rfl : w = .integer 2 := by simpa using member'
        exact .scalar trivial
      · exact absurd childless (by decide)
      · simp at member'
    · intro v w _ member
      simp [first] at member
    · intro key v w _ child member member'
      simp only [first, second, List.mem_cons, List.not_mem_nil, Prod.mk.injEq,
        or_false] at member member'
      rcases member with ⟨rfl, rfl⟩ | ⟨rfl, rfl⟩ | ⟨rfl, rfl⟩ | ⟨rfl, rfl⟩ | ⟨rfl, rfl⟩
      · exact absurd child (by decide)
      · exact absurd child (by decide)
      · exact absurd child (by decide)
      · obtain rfl : w = identifier ("body", .string "x") := by simpa using member'
        exact below
      · exact absurd child (by decide)
  obtain ⟨agrees, -, leaf⟩ := decoding_reads_own_members alike
  have whole : decodeRoot (.object first) = .ok tree := by
    have child : decode (identifier ("left", .object [])) =
        .ok (.leaf ⟨0, 1⟩ (.ofName "Identifier")) := leaf rfl (by decide)
    have typed : head first = .ok ("ExpressionStatement", ⟨0, 2⟩) := rfl
    have statement : Json.last? "expression" first = some (identifier ("left", .object [])) := rfl
    rw [decodeRoot_object (by decide), decode_object, typed]
    change decodeAs "ExpressionStatement" ⟨0, 2⟩ first = _
    rw [decodeAs_expressionStatement, statement, decodeExpression, child]
    rfl
  refine ⟨alike, whole, ?_⟩
  rw [whole] at agrees
  generalize decodeRoot (.object second) = other at agrees
  cases agrees
  rfl

end
end Redex.Estree
