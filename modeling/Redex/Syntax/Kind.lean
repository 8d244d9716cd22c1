/-! The node types of ESTree. Four of them are read with their children; the
others are known by name and taken without. -/
namespace Redex

namespace Kind

/-- The node types that are read with their children. -/
def parentTypes : List String := ["Program", "ExpressionStatement", "BinaryExpression", "Literal"]

/-- The node types that are taken by name alone. -/
def leafTypes : List String :=
  ["EmptyStatement", "BlockStatement", "IfStatement", "LabeledStatement", "BreakStatement",
    "ContinueStatement", "WithStatement", "SwitchStatement", "ReturnStatement",
    "ThrowStatement", "TryStatement", "WhileStatement", "DoWhileStatement", "ForStatement",
    "ForInStatement", "ForOfStatement", "DebuggerStatement", "FunctionDeclaration",
    "VariableDeclaration", "VariableDeclarator", "ThisExpression", "ArrayExpression",
    "ObjectExpression", "Property", "FunctionExpression", "SequenceExpression",
    "UnaryExpression", "AssignmentExpression", "UpdateExpression", "LogicalExpression",
    "ConditionalExpression", "CallExpression", "NewExpression", "MemberExpression",
    "SwitchCase", "CatchClause", "Identifier", "Super", "SpreadElement",
    "ArrowFunctionExpression", "YieldExpression", "AwaitExpression", "TemplateLiteral",
    "TaggedTemplateExpression", "TemplateElement", "ObjectPattern", "ArrayPattern",
    "RestElement", "AssignmentPattern", "ClassBody", "MethodDefinition", "ClassDeclaration",
    "ClassExpression", "MetaProperty", "ImportDeclaration", "ImportSpecifier",
    "ImportDefaultSpecifier", "ImportNamespaceSpecifier", "ExportNamedDeclaration",
    "ExportSpecifier", "ExportDefaultDeclaration", "ExportAllDeclaration", "ChainExpression",
    "ImportExpression", "ParenthesizedExpression", "PrivateIdentifier", "PropertyDefinition",
    "StaticBlock"]

end Kind

/-- The type of a node that carries nothing but its type. -/
inductive Kind where
  | named (name : String) (known : name ∈ Kind.leafTypes)
  /-- A type that is no node type of ESTree, or is to be treated as none. -/
  | unknown (name : String)
  deriving DecidableEq

namespace Kind

def name : Kind → String
  | .named name _ => name
  | .unknown name => name

/-- The kind of a type other than the four that are read. -/
def ofName (name : String) : Kind :=
  if known : name ∈ leafTypes then .named name known else .unknown name

theorem name_ofName (name : String) : (ofName name).name = name := by
  unfold ofName
  split <;> rfl

theorem not_mem_leafTypes {name : String} (parent : name ∈ parentTypes) : name ∉ leafTypes := by
  revert name
  decide

end Kind
end Redex
