import EstreePrinter.Rules.Access
import EstreePrinter.Rules.Operator
import EstreePrinter.Rules.Class
import EstreePrinter.Rules.Collection
import EstreePrinter.Rules.Control
import EstreePrinter.Rules.Declaration
import EstreePrinter.Rules.Exchange
import EstreePrinter.Rules.Type

/-!
# Which rule renders which kind

Types have a table of their own, since some kinds of nodes are rendered differently as types.
-/

namespace EstreePrinter

namespace Rules

/-- The rules for names, literals and templates. -/
def primaryRules : List (String × Rule) :=
  [("Identifier", identifier), ("PrivateIdentifier", privateIdentifier),
    ("ThisExpression", word "this"), ("Super", word "super"), ("Literal", literal),
    ("TemplateLiteral", template), ("TaggedTemplateExpression", taggedTemplate),
    ("ParenthesizedExpression", transparent), ("MetaProperty", metaProperty),
    ("ImportExpression", importCall)]

/-- The rules for arrays, objects and patterns. -/
def collectionRules : List (String × Rule) :=
  [("ArrayExpression", array), ("ArrayPattern", array), ("ObjectExpression", object),
    ("ObjectPattern", objectPattern), ("Property", property), ("AssignmentPattern", defaulted),
    ("RestElement", spread), ("SpreadElement", spread)]

/-- The rules for operators, accesses and calls. -/
def operatorRules : List (String × Rule) :=
  [("BinaryExpression", binary), ("LogicalExpression", binary), ("UnaryExpression", unary),
    ("UpdateExpression", update), ("AssignmentExpression", assignment),
    ("ConditionalExpression", conditional), ("SequenceExpression", commaExpression),
    ("AwaitExpression", await), ("YieldExpression", yield), ("MemberExpression", member),
    ("ChainExpression", transparent), ("CallExpression", call false), ("NewExpression", call true)]

/-- The rules for statements. -/
def statementRules : List (String × Rule) :=
  [("Program", program), ("BlockStatement", block), ("ClassBody", block), ("TSModuleBlock", block),
    ("StaticBlock", staticBlock), ("EmptyStatement", empty),
    ("ExpressionStatement", expressionStatement), ("DebuggerStatement", debuggerStatement),
    ("BreakStatement", jump "break"), ("ContinueStatement", jump "continue"),
    ("LabeledStatement", labeled), ("ReturnStatement", leave "return"),
    ("ThrowStatement", leave "throw"), ("VariableDeclaration", variableDeclaration),
    ("VariableDeclarator", declarator), ("IfStatement", ifRule), ("ForStatement", forRule),
    ("ForInStatement", forEach " in "), ("ForOfStatement", forEach " of "),
    ("WhileStatement", headed "while" "test"), ("DoWhileStatement", doWhile),
    ("WithStatement", headed "with" "object"), ("TryStatement", tryRule),
    ("SwitchStatement", switchRule)]

/-- The rules for functions and classes. -/
def functionRules : List (String × Rule) :=
  [("FunctionDeclaration", function), ("FunctionExpression", function),
    ("TSDeclareFunction", function), ("ArrowFunctionExpression", arrow), ("Decorator", decorator),
    ("ClassDeclaration", classRule), ("ClassExpression", classRule),
    ("MethodDefinition", classMethod), ("TSAbstractMethodDefinition", classMethod),
    ("PropertyDefinition", classProperty false), ("TSAbstractPropertyDefinition", classProperty false),
    ("AccessorProperty", classProperty true), ("TSParameterProperty", parameterProperty)]

/-- The rules for imports and exports. -/
def exchangeRules : List (String × Rule) :=
  [("ImportAttribute", importAttribute), ("ImportDeclaration", importRule),
    ("ExportNamedDeclaration", exportNamed), ("ExportDefaultDeclaration", exportDefault),
    ("ExportAllDeclaration", exportAll)]

/-- The rules for expressions and declarations with types in them. -/
def typedRules : List (String × Rule) :=
  [("TSAsExpression", typedExpression Precedence.asType " as "),
    ("TSSatisfiesExpression", typedExpression Precedence.satisfies " satisfies "),
    ("TSNonNullExpression", nonNull), ("TSTypeAssertion", typeAssertion),
    ("TSInstantiationExpression", instantiation), ("TSQualifiedName", qualifiedName),
    ("TSTypeAliasDeclaration", typeAlias), ("TSInterfaceDeclaration", interface),
    ("TSInterfaceBody", memberBlock "body"), ("TSEnumDeclaration", enumeration),
    ("TSEnumMember", enumMember), ("TSModuleDeclaration", namespaceRule),
    ("TSIndexSignature", classIndexSignature)]

/-- The rules for nodes that are not types. -/
def valueRules : List (String × Rule) :=
  primaryRules ++ collectionRules ++ operatorRules ++ statementRules ++ functionRules ++
    exchangeRules ++ typedRules

/-- The rules for types. -/
def typeRules : List (String × Rule) :=
  keywordTypes.map (fun entry => (entry.1, keywordType entry.2)) ++
    [("TSEnumMember", enumMember), ("TSTypeAnnotation", ascribedType),
      ("TSTypeReference", typeReference), ("TSExpressionWithTypeArguments", instantiation),
      ("TSClassImplements", instantiation), ("TSInterfaceHeritage", instantiation),
      ("TSTypeParameterInstantiation", angleBrackets),
      ("TSTypeParameterDeclaration", angleBrackets), ("TSTypeParameter", typeParameter),
      ("TSArrayType", arrayType), ("TSTupleType", tupleType),
      ("TSNamedTupleMember", namedTupleMember), ("TSOptionalType", optionalType),
      ("TSRestType", restType), ("TSUnionType", unionType),
      ("TSIntersectionType", intersectionType), ("TSConditionalType", conditionalType),
      ("TSInferType", inferType), ("TSFunctionType", functionType),
      ("TSConstructorType", constructorType), ("TSTypeLiteral", memberBlock "members"),
      ("TSPropertySignature", propertySignature), ("TSMethodSignature", methodSignature),
      ("TSCallSignatureDeclaration", callSignature),
      ("TSConstructSignatureDeclaration", constructSignature),
      ("TSIndexSignature", indexSignature), ("TSMappedType", mappedType),
      ("TSTypeOperator", typeOperator), ("TSIndexedAccessType", indexedAccess),
      ("TSTypeQuery", typeQuery), ("TSLiteralType", literalType),
      ("TSTemplateLiteralType", templateType), ("TSParenthesizedType", parenthesizedType),
      ("TSImportType", importType), ("TSTypePredicate", typePredicate)]

/-- The rule for a kind, if there is one.  A node without a kind has none. -/
def find (table : List (String × Rule)) (kind : Json) : Except Fault (Option Rule) := do
  if !kind.isGiven then pure none
  else
    match ← kind.key with
    | .str name => pure (table.lookup name)
    | _ => pure none

/-- Whether a kind is one of a type. -/
def isTypeKind (kind : Json) : Except Fault Bool := kind.isIn (typeRules.map Prod.fst)

end Rules

end EstreePrinter
