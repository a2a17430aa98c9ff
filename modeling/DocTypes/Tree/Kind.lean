/-!
# Node kinds

A syntax tree is made of nodes of the kinds below: compilation units, statements,
bindings, expressions, the documentation comments attached to declarations, and
the type expressions inside those comments. `NodeKind.name` is the name a kind
has in the interchange format; `NodeKind.ofName?` reads it.

## Main statement

* `NodeKind.ofName?_name`: a kind is read back from its own name.
-/

namespace DocTypes

/-- What a node of a syntax tree is. -/
inductive NodeKind where
  -- Compilation units
  | script
  | moduleUnit
  | externs
  -- Statements
  | annotated
  | varStatement
  | varDeclaration
  | functionDeclaration
  | classDeclaration
  | classBody
  | method
  | block
  | expressionStatement
  | ifStatement
  | forStatement
  | forInStatement
  | forOfStatement
  | whileStatement
  | doWhileStatement
  | returnStatement
  | throwStatement
  | tryStatement
  | catchClause
  | emptyStatement
  -- Bindings and parameters
  | bindingName
  | bindingWithDefault
  | restParameter
  | parameterList
  -- Expressions
  | identifier
  | thisExpression
  | memberExpression
  | computedMemberExpression
  | propertyName
  | computedPropertyName
  | assignment
  | binary
  | unary
  | conditional
  | call
  | newExpression
  | functionExpression
  | arrowFunction
  | classExpression
  | objectLiteral
  | property
  | arrayLiteral
  | numericLiteral
  | stringLiteral
  | booleanLiteral
  | nullLiteral
  -- Documentation comments
  | jsDocDocument
  | jsDocTag
  | jsDocName
  | jsDocText
  -- Type expressions
  | anyType
  | unknownType
  | voidType
  | typeName
  | typeApplication
  | nullableType
  | nonNullableType
  | optionalType
  | restType
  | unionType
  | tupleType
  | recordType
  | recordMember
  | functionType
  | functionTypeParameters
  | thisType
  | newType
  deriving DecidableEq, Repr

namespace NodeKind

/-- Every kind, in the order of declaration. -/
def all : List NodeKind :=
  [.script, .moduleUnit, .externs, .annotated, .varStatement, .varDeclaration,
    .functionDeclaration, .classDeclaration, .classBody, .method, .block, .expressionStatement,
    .ifStatement, .forStatement, .forInStatement, .forOfStatement, .whileStatement,
    .doWhileStatement, .returnStatement, .throwStatement, .tryStatement, .catchClause,
    .emptyStatement, .bindingName, .bindingWithDefault, .restParameter, .parameterList,
    .identifier, .thisExpression, .memberExpression, .computedMemberExpression, .propertyName,
    .computedPropertyName, .assignment, .binary, .unary, .conditional, .call, .newExpression,
    .functionExpression, .arrowFunction, .classExpression, .objectLiteral, .property,
    .arrayLiteral, .numericLiteral, .stringLiteral, .booleanLiteral, .nullLiteral,
    .jsDocDocument, .jsDocTag, .jsDocName, .jsDocText, .anyType, .unknownType, .voidType,
    .typeName, .typeApplication, .nullableType, .nonNullableType, .optionalType, .restType,
    .unionType, .tupleType, .recordType, .recordMember, .functionType, .functionTypeParameters,
    .thisType, .newType]

/-- The name of a kind in the interchange format. -/
def name : NodeKind → String
  | .script => "Script"
  | .moduleUnit => "Module"
  | .externs => "Externs"
  | .annotated => "Annotated"
  | .varStatement => "VarStatement"
  | .varDeclaration => "VarDeclaration"
  | .functionDeclaration => "FunctionDeclaration"
  | .classDeclaration => "ClassDeclaration"
  | .classBody => "ClassBody"
  | .method => "Method"
  | .block => "Block"
  | .expressionStatement => "ExpressionStatement"
  | .ifStatement => "If"
  | .forStatement => "For"
  | .forInStatement => "ForIn"
  | .forOfStatement => "ForOf"
  | .whileStatement => "While"
  | .doWhileStatement => "DoWhile"
  | .returnStatement => "Return"
  | .throwStatement => "Throw"
  | .tryStatement => "Try"
  | .catchClause => "CatchClause"
  | .emptyStatement => "Empty"
  | .bindingName => "BindingName"
  | .bindingWithDefault => "BindingWithDefault"
  | .restParameter => "RestParameter"
  | .parameterList => "ParameterList"
  | .identifier => "Identifier"
  | .thisExpression => "This"
  | .memberExpression => "MemberExpression"
  | .computedMemberExpression => "ComputedMemberExpression"
  | .propertyName => "PropertyName"
  | .computedPropertyName => "ComputedPropertyName"
  | .assignment => "Assignment"
  | .binary => "Binary"
  | .unary => "Unary"
  | .conditional => "Conditional"
  | .call => "Call"
  | .newExpression => "New"
  | .functionExpression => "FunctionExpression"
  | .arrowFunction => "ArrowFunction"
  | .classExpression => "ClassExpression"
  | .objectLiteral => "ObjectLiteral"
  | .property => "Property"
  | .arrayLiteral => "ArrayLiteral"
  | .numericLiteral => "NumericLiteral"
  | .stringLiteral => "StringLiteral"
  | .booleanLiteral => "BooleanLiteral"
  | .nullLiteral => "NullLiteral"
  | .jsDocDocument => "JsDocDocument"
  | .jsDocTag => "JsDocTag"
  | .jsDocName => "JsDocName"
  | .jsDocText => "JsDocText"
  | .anyType => "AnyType"
  | .unknownType => "UnknownType"
  | .voidType => "VoidType"
  | .typeName => "TypeName"
  | .typeApplication => "TypeApplication"
  | .nullableType => "NullableType"
  | .nonNullableType => "NonNullableType"
  | .optionalType => "OptionalType"
  | .restType => "RestType"
  | .unionType => "UnionType"
  | .tupleType => "TupleType"
  | .recordType => "RecordType"
  | .recordMember => "RecordMember"
  | .functionType => "FunctionType"
  | .functionTypeParameters => "FunctionTypeParameters"
  | .thisType => "ThisType"
  | .newType => "NewType"

/-- The kind of a name. -/
def ofName? (s : String) : Option NodeKind := all.find? (·.name == s)

theorem mem_all (k : NodeKind) : k ∈ all := by
  cases k <;> decide

theorem ofName?_name (k : NodeKind) : ofName? k.name = some k := by
  cases k <;> decide +kernel

/-! ## Families of kinds -/

/-- The kinds a tree's root usually has. -/
def isCompilationUnit : NodeKind → Bool
  | .script | .moduleUnit | .externs => true
  | _ => false

/-- The kinds with a parameter list and a body of their own. -/
def isFunctionLike : NodeKind → Bool
  | .functionDeclaration | .functionExpression | .arrowFunction | .method => true
  | _ => false

/-- Class declarations and class expressions. -/
def isClassLike : NodeKind → Bool
  | .classDeclaration | .classExpression => true
  | _ => false

/-- The kinds of the type language inside documentation comments. -/
def isTypeExpression : NodeKind → Bool
  | .anyType | .unknownType | .voidType | .typeName | .typeApplication | .nullableType
  | .nonNullableType | .optionalType | .restType | .unionType | .tupleType | .recordType
  | .recordMember | .functionType | .functionTypeParameters | .thisType | .newType => true
  | _ => false

/-- The kinds whose atom is a name, an operator or a literal's text. -/
def hasAtom : NodeKind → Bool
  | .bindingName | .identifier | .propertyName | .assignment | .binary | .unary
  | .numericLiteral | .stringLiteral | .jsDocTag | .jsDocName | .jsDocText => true
  | _ => false

end NodeKind

end DocTypes
