import Mathlib
import EstreePrinter.Node

/-!
# Well-formed trees

Which values are trees of the language: for every kind of node a `Form` says which fields it has,
which of them have to be there, and what each of them holds.

* `Shape` — what a value may look like: a text, a word out of a few, a node of one of some kinds, a
  list of such values.
* `Estree.forms` — the kinds of nodes with their fields, in the order in which the source has them.
  A field that is not listed is not looked at, and may hold anything.
* `Estree.pieces` — nodes that occur inside of one kind of node only and are written together with
  it, and the objects in a tree that are no nodes.
* **`Json.fits`** — whether a value has a shape, by recursion over the value.

Reading a node that fits gives what its form says; the lemmas on that are at the end
(`Json.Conforms`).
-/

namespace EstreePrinter

/-- What a value may look like. -/
inductive Shape where
  /-- Anything. -/
  | any
  /-- Nothing that counts as given. -/
  | unused
  | text
  | whole
  | flag
  /-- One of some texts. -/
  | word (options : List String)
  /-- A node of one of some kinds. -/
  | node (kinds : List String)
  /-- A node of one of some kinds that is written together with the node around it. -/
  | piece (kinds : List String)
  /-- An object that is no node. -/
  | record (name : String)
  /-- A list; null stands for a hole, where `holes` allows for any. -/
  | list (holes : Bool) (item : Shape)
  deriving Repr, DecidableEq

/-- What is asked of a field. -/
structure Need where
  shape : Shape
  /-- The field may be missing or null. -/
  isOptional : Bool
  deriving Repr, DecidableEq

/-- The fields of a kind of object. -/
abbrev Form := List (String × Need)

namespace Estree

/-- A field that has to be there. -/
def required (key : String) (shape : Shape) : String × Need := (key, ⟨shape, false⟩)

/-- A field that may be missing or null. -/
def optional (key : String) (shape : Shape) : String × Need := (key, ⟨shape, true⟩)

/-! ## Kinds -/

/-- The kinds of expressions. -/
def expressions : List String :=
  ["Identifier", "Literal", "ThisExpression", "ArrayExpression", "ObjectExpression",
    "FunctionExpression", "ArrowFunctionExpression", "ClassExpression", "UnaryExpression",
    "UpdateExpression", "BinaryExpression", "LogicalExpression", "AssignmentExpression",
    "ConditionalExpression", "MemberExpression", "CallExpression", "NewExpression",
    "ChainExpression", "ImportExpression", "SequenceExpression", "YieldExpression",
    "AwaitExpression", "TemplateLiteral", "TaggedTemplateExpression", "MetaProperty",
    "ParenthesizedExpression"]

/-- The kinds of patterns. -/
def patterns : List String :=
  ["Identifier", "MemberExpression", "ObjectPattern", "ArrayPattern", "RestElement",
    "AssignmentPattern", "ParenthesizedExpression"]

/-- The kinds of declarations. -/
def declarations : List String :=
  ["FunctionDeclaration", "VariableDeclaration", "ClassDeclaration"]

/-- The kinds of statements. -/
def statements : List String :=
  declarations ++
    ["BlockStatement", "EmptyStatement", "ExpressionStatement", "DebuggerStatement",
      "WithStatement", "ReturnStatement", "ThrowStatement", "LabeledStatement", "BreakStatement",
      "ContinueStatement", "IfStatement", "SwitchStatement", "TryStatement", "WhileStatement",
      "DoWhileStatement", "ForStatement", "ForInStatement", "ForOfStatement"]

/-- The kinds of statements that stand in a program only. -/
def exchanges : List String :=
  ["ImportDeclaration", "ExportNamedDeclaration", "ExportDefaultDeclaration",
    "ExportAllDeclaration"]

/-- The kinds of members of a class. -/
def members : List String := ["MethodDefinition", "PropertyDefinition", "StaticBlock"]

/-! ## Words -/

/-- The operators between two values. -/
def binaryOperators : List String :=
  ["==", "!=", "===", "!==", "<", "<=", ">", ">=", "<<", ">>", ">>>", "+", "-", "*", "/", "%", "|",
    "^", "&", "in", "instanceof", "**"]

/-- The operators that may leave their right side unevaluated. -/
def logicalOperators : List String := ["||", "&&", "??"]

/-- The operators before one value. -/
def unaryOperators : List String := ["-", "+", "!", "~", "typeof", "void", "delete"]

/-- The operators that change a variable by one. -/
def updateOperators : List String := ["++", "--"]

/-- The operators that assign. -/
def assignmentOperators : List String :=
  ["=", "+=", "-=", "*=", "/=", "%=", "<<=", ">>=", ">>>=", "|=", "^=", "&=", "**=", "||=", "&&=",
    "??="]

/-! ## Shapes that occur often -/

def expression : Shape := .node expressions

def pattern : Shape := .node patterns

def statement : Shape := .node statements

def block : Shape := .node ["BlockStatement"]

def name : Shape := .node ["Identifier"]

def string : Shape := .node ["Literal"]

/-- A name in an import or export, which may be any text. -/
def moduleName : Shape := .node ["Identifier", "Literal"]

/-- What stands in an argument list. -/
def argument : Shape := .node ("SpreadElement" :: expressions)

/-- The name of a member, which may be a private one. -/
def memberName : Shape := .node ("PrivateIdentifier" :: expressions)

/-- What is assigned to. -/
def target : Shape := .node (patterns ++ expressions)

def decorators : String × Need := optional "decorators" (.list false (.node ["Decorator"]))

/-! ## The fields of every kind -/

/-- The forms of names, literals and templates. -/
def primaryForms : List (String × Form) :=
  [("Identifier", [required "name" .text]),
    ("PrivateIdentifier", [required "name" .text]),
    ("ThisExpression", []),
    ("Super", []),
    ("Literal", [optional "value" .any, optional "raw" .text, optional "regex" (.record "RegExp"),
      optional "bigint" .text]),
    ("TemplateLiteral", [required "quasis" (.list false (.piece ["TemplateElement"])),
      required "expressions" (.list false expression)]),
    ("TaggedTemplateExpression", [required "tag" expression,
      required "quasi" (.node ["TemplateLiteral"])]),
    ("ParenthesizedExpression", [required "expression" expression]),
    ("MetaProperty", [required "meta" name, required "property" name]),
    ("ImportExpression", [required "source" expression, optional "options" expression,
      optional "attributes" expression])]

/-- The forms of arrays, objects and patterns. -/
def collectionForms : List (String × Form) :=
  [("ArrayExpression", [required "elements" (.list true argument)]),
    ("ArrayPattern", [required "elements" (.list true pattern)]),
    ("ObjectExpression", [required "properties" (.list false (.node ["Property", "SpreadElement"]))]),
    ("ObjectPattern", [required "properties" (.list false (.node ["Property", "RestElement"]))]),
    ("Property", [required "kind" (.word ["init", "get", "set"]), optional "method" .flag,
      optional "computed" .flag, required "key" expression, required "value" target]),
    ("AssignmentPattern", [required "left" pattern, required "right" expression]),
    ("RestElement", [required "argument" pattern]),
    ("SpreadElement", [required "argument" expression])]

/-- The forms of operators, accesses and calls. -/
def operatorForms : List (String × Form) :=
  [("BinaryExpression", [required "left" memberName, required "operator" (.word binaryOperators),
      required "right" expression]),
    ("LogicalExpression", [required "left" expression,
      required "operator" (.word logicalOperators), required "right" expression]),
    ("UnaryExpression", [required "operator" (.word unaryOperators), optional "prefix" .flag,
      required "argument" expression]),
    ("UpdateExpression", [required "operator" (.word updateOperators), optional "prefix" .flag,
      required "argument" expression]),
    ("AssignmentExpression", [required "left" target,
      required "operator" (.word assignmentOperators), required "right" expression]),
    ("ConditionalExpression", [required "test" expression, required "consequent" expression,
      required "alternate" expression]),
    ("SequenceExpression", [required "expressions" (.list false expression)]),
    ("AwaitExpression", [required "argument" expression]),
    ("YieldExpression", [optional "delegate" .flag, optional "argument" expression]),
    ("MemberExpression", [required "object" (.node ("Super" :: expressions)),
      optional "computed" .flag, optional "optional" .flag, required "property" memberName]),
    ("ChainExpression", [required "expression" (.node ["CallExpression", "MemberExpression"])]),
    ("CallExpression", [required "callee" (.node ("Super" :: expressions)),
      optional "optional" .flag, required "arguments" (.list false argument)]),
    ("NewExpression", [required "callee" expression,
      required "arguments" (.list false argument)])]

/-- The form of a loop over the keys or the values of something. -/
def loopForm : Form :=
  [optional "await" .flag,
    required "left" (.node ("VariableDeclaration" :: (patterns ++ expressions))),
    required "right" expression, required "body" statement]

/-- The form of a jump out of a loop or to its next round. -/
def jumpForm : Form := [optional "label" name]

/-- The forms of statements. -/
def statementForms : List (String × Form) :=
  [("Program", [required "body" (.list false (.node (statements ++ exchanges)))]),
    ("BlockStatement", [required "body" (.list false statement)]),
    ("EmptyStatement", []),
    ("DebuggerStatement", []),
    ("ExpressionStatement", [required "expression" expression]),
    ("WithStatement", [required "object" expression, required "body" statement]),
    ("ReturnStatement", [optional "argument" expression]),
    ("ThrowStatement", [required "argument" expression]),
    ("LabeledStatement", [required "label" name, required "body" statement]),
    ("BreakStatement", jumpForm),
    ("ContinueStatement", jumpForm),
    ("IfStatement", [required "test" expression, required "consequent" statement,
      optional "alternate" statement]),
    ("SwitchStatement", [required "discriminant" expression,
      required "cases" (.list false (.piece ["SwitchCase"]))]),
    ("TryStatement", [required "block" block, optional "handler" (.piece ["CatchClause"]),
      optional "finalizer" block]),
    ("WhileStatement", [required "test" expression, required "body" statement]),
    ("DoWhileStatement", [required "body" statement, required "test" expression]),
    ("ForStatement", [optional "init" (.node ("VariableDeclaration" :: expressions)),
      optional "test" expression, optional "update" expression, required "body" statement]),
    ("ForInStatement", loopForm),
    ("ForOfStatement", loopForm),
    ("VariableDeclaration", [required "kind" (.word ["var", "let", "const", "using", "await using"]),
      required "declarations" (.list false (.node ["VariableDeclarator"]))]),
    ("VariableDeclarator", [required "id" pattern, optional "init" expression])]

/-- The form of a function with a body of its own. -/
def functionForm : Form :=
  [optional "async" .flag, optional "generator" .flag, optional "id" name,
    required "params" (.list false pattern), required "body" block]

/-- The form of a class. -/
def classForm : Form :=
  [decorators, optional "id" name, optional "superClass" expression,
    required "body" (.node ["ClassBody"])]

/-- The forms of functions and classes. -/
def functionForms : List (String × Form) :=
  [("FunctionDeclaration", functionForm),
    ("FunctionExpression", functionForm),
    ("ArrowFunctionExpression", [optional "async" .flag, required "params" (.list false pattern),
      required "body" (.node ("BlockStatement" :: expressions))]),
    ("Decorator", [required "expression" expression]),
    ("ClassDeclaration", classForm),
    ("ClassExpression", classForm),
    ("ClassBody", [required "body" (.list false (.node members))]),
    ("MethodDefinition", [decorators, optional "static" .flag,
      required "kind" (.word ["constructor", "method", "get", "set"]), optional "computed" .flag,
      required "key" memberName, required "value" (.node ["FunctionExpression"])]),
    ("PropertyDefinition", [decorators, optional "static" .flag, optional "computed" .flag,
      required "key" memberName, optional "value" expression]),
    ("StaticBlock", [required "body" (.list false statement)])]

/-- The attributes of an import, under either of their two names. -/
def attributes : Form :=
  [optional "attributes" (.list false (.node ["ImportAttribute"])),
    optional "assertions" (.list false (.node ["ImportAttribute"]))]

/-- The forms of imports and exports. -/
def exchangeForms : List (String × Form) :=
  [("ImportDeclaration", required "specifiers" (.list false (.piece ["ImportSpecifier",
      "ImportDefaultSpecifier", "ImportNamespaceSpecifier"])) :: required "source" string ::
      attributes),
    ("ExportNamedDeclaration", optional "declaration" (.node declarations) ::
      required "specifiers" (.list false (.piece ["ExportSpecifier"])) ::
      optional "source" string :: attributes),
    ("ExportDefaultDeclaration", [required "declaration"
      (.node ("FunctionDeclaration" :: "ClassDeclaration" :: expressions))]),
    ("ExportAllDeclaration", optional "exported" moduleName :: required "source" string ::
      attributes),
    ("ImportAttribute", [required "key" moduleName, required "value" string])]

/-- The forms of all kinds of nodes. -/
def forms : List (String × Form) :=
  primaryForms ++ collectionForms ++ operatorForms ++ statementForms ++ functionForms ++
    exchangeForms

/-- The forms of what is written together with the node around it, and of objects that are no
nodes. -/
def pieces : List (String × Form) :=
  [("TemplateElement", [required "value" (.record "TemplateText")]),
    ("SwitchCase", [optional "test" expression, required "consequent" (.list false statement)]),
    ("CatchClause", [optional "param" pattern, required "body" block]),
    ("ImportSpecifier", [required "imported" moduleName, required "local" name]),
    ("ImportDefaultSpecifier", [required "local" name]),
    ("ImportNamespaceSpecifier", [required "local" name]),
    ("ExportSpecifier", [required "local" moduleName, required "exported" moduleName]),
    ("TemplateText", [required "raw" .text]),
    ("RegExp", [required "pattern" .text, required "flags" .text]),
    ("Comment", [required "value" .text, optional "loc" (.record "SourceLocation")]),
    ("SourceLocation", [required "start" (.record "Position"), required "end" (.record "Position")]),
    ("Position", [required "line" .whole, required "column" .whole])]

/-- A list of comments. -/
def comments : Shape := .list false (.record "Comment")

/-- The fields of all nodes: where it stands and the comments around it.  The fields for types,
which belong to another dialect, are not used. -/
def common : Form :=
  [optional "loc" (.record "SourceLocation"), optional "leadingComments" comments,
    optional "trailingComments" comments, optional "typeAnnotation" .unused,
    optional "typeParameters" .unused, optional "typeArguments" .unused,
    optional "returnType" .unused, optional "superTypeParameters" .unused,
    optional "superTypeArguments" .unused, optional "implements" .unused]

end Estree

/-! ## Values of a shape -/

namespace Json

/-- The name of the kind of a node. -/
def kindName? (node : Json) : Option String :=
  match node.field? "type" with
  | some ⟨.str kind, _⟩ => some kind
  | _ => none

/-- The number of elements under a key. -/
def countOf (node : Json) (key : String) : Option Nat :=
  (node.field? key).bind fun part => part.1.length?

/-- Whether a node, if it is a template, has one text more than it has holes. -/
def isEven (node : Json) : Bool :=
  node.kindName? != some "TemplateLiteral" ||
    node.countOf "quasis" == (node.countOf "expressions").map (· + 1)

end Json

namespace Shape

/-- Whether a shape that asks for no list and no object allows for a value. -/
def admits : Shape → Json → Bool
  | .any, _ => true
  | .unused, v => !v.isGiven
  | .text, .str _ => true
  | .whole, .int _ => true
  | .flag, .bool _ => true
  | .word options, v => v.isOneOf options
  | _, _ => false

/-- The form of a node in a table, if the node is of one of some kinds. -/
def formIn (table : List (String × Form)) (kinds : List String) (node : Json) : Option Form :=
  match node.kindName? with
  | some kind =>
    if kinds.contains kind then (table.lookup kind).map (Estree.common ++ ·) else none
  | none => none

/-- The form that a shape asks of an object, if it asks for one. -/
def form? (shape : Shape) (node : Json) : Option Form :=
  match shape with
  | .node kinds => formIn Estree.forms kinds node
  | .piece kinds => formIn Estree.pieces kinds node
  | .record name => Estree.pieces.lookup name
  | _ => none

/-- What a shape asks of the elements of a list, if it asks for one. -/
def item? : Shape → Option Need
  | .list holes item => some ⟨item, holes⟩
  | _ => none

end Shape

/-- Whether an object has all fields that it has to have. -/
def Form.isComplete (form : Form) (fields : List (String × Json)) : Bool :=
  form.all fun entry => entry.2.isOptional || fields.any fun field => field.1 == entry.1

namespace Json

mutual

/-- **Whether a value has a shape.** -/
def fits (shape : Shape) : Json → Bool
  | .arr items =>
    match shape.item? with
    | some need => allMeet need items
    | none => shape.admits (.arr items)
  | .obj fields =>
    match shape.form? (.obj fields) with
    | some form => form.isComplete fields && fieldsMeet form fields && isEven (.obj fields)
    | none => shape.admits (.obj fields)
  | v => shape.admits v

/-- Whether all elements of a list are what is asked for. -/
def allMeet (need : Need) : List Json → Bool
  | [] => true
  | v :: rest => (need.isOptional && v.isNull || fits need.shape v) && allMeet need rest

/-- Whether all fields of an object are what its form asks for. -/
def fieldsMeet (form : Form) : List (String × Json) → Bool
  | [] => true
  | (key, v) :: rest =>
    (match form.lookup key with
      | some need => need.isOptional && v.isNull || fits need.shape v
      | none => true) && fieldsMeet form rest

end

/-- A tree of the language: a node of any kind, or the statements of a program. -/
def isEstree (tree : Json) : Bool :=
  tree.fits (.node (Estree.forms.map Prod.fst)) ||
    tree.fits (.list false (.node (Estree.statements ++ Estree.exchanges)))

end Json

end EstreePrinter
