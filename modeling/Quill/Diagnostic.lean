/-!
# Diagnostics

A diagnostic says what went wrong, on which line, and, where there is one, in
front of which piece of text. What can go wrong with a text before it runs and
what can go wrong while it runs are two types, so no run can end in a fault of
the other phase. Each fault has a stable code for programs and a message for
people.
-/

namespace Quill

/-- What can be wrong with a text that is not a program. -/
inductive SyntaxFault where
  | unknownCharacter
  | expectAssign
  | expectId
  | expectNewline
  | expectType
  | expectOpeningParen
  | expectClosingParen
  | expectOpeningBrace
  | expectClosingBrace
  | invalidExpression
  | invalidStatement
  | unexpectedCharacter
  | unexpectedEnd
  | unknownError
  deriving DecidableEq, Repr

namespace SyntaxFault

def message : SyntaxFault → String
  | .unknownCharacter => "UNKNOWN CHARACTER"
  | .expectAssign => "EXPECTED ASSIGNMENT"
  | .expectId => "EXPECTED IDENTIFIER"
  | .expectNewline => "EXPECTED NEWLINE"
  | .expectType => "EXPECTED TYPE"
  | .expectOpeningParen => "EXPECTED OPENING PARENTHESIS"
  | .expectClosingParen => "EXPECTED CLOSING PARENTHESIS"
  | .expectOpeningBrace => "EXPECTED OPENING BRACE"
  | .expectClosingBrace => "EXPECTED CLOSING BRACE"
  | .invalidExpression => "INVALID EXPRESSION"
  | .invalidStatement => "INVALID STATEMENT"
  | .unexpectedCharacter => "UNEXPECTED CHARACTER"
  | .unexpectedEnd => "UNEXPECTED END OF FILE"
  | .unknownError => "UNKNOWN ERROR"

def code : SyntaxFault → String
  | .unknownCharacter => "UNKNOWN_CHARACTER"
  | .expectAssign => "EXPECT_ASSIGN"
  | .expectId => "EXPECT_ID"
  | .expectNewline => "EXPECT_NEWLINE"
  | .expectType => "EXPECT_TYPE"
  | .expectOpeningParen => "EXPECT_OPENING_PAREN"
  | .expectClosingParen => "EXPECT_CLOSING_PAREN"
  | .expectOpeningBrace => "EXPECT_OPENING_BRACE"
  | .expectClosingBrace => "EXPECT_CLOSING_BRACE"
  | .invalidExpression => "INVALID_EXPRESSION"
  | .invalidStatement => "INVALID_STATEMENT"
  | .unexpectedCharacter => "UNEXPECTED_CHARACTER"
  | .unexpectedEnd => "UNEXPECTED_EOF"
  | .unknownError => "UNKNOWN_ERROR"

def all : List SyntaxFault :=
  [.unknownCharacter, .expectAssign, .expectId, .expectNewline, .expectType,
    .expectOpeningParen, .expectClosingParen, .expectOpeningBrace,
    .expectClosingBrace, .invalidExpression, .invalidStatement,
    .unexpectedCharacter, .unexpectedEnd, .unknownError]

/-- The fault with this code. -/
def ofCode? (code : String) : Option SyntaxFault :=
  all.find? fun fault => fault.code == code

end SyntaxFault

/-- What can go wrong while a program runs. -/
inductive RuntimeFault where
  | declaredFunction
  | declaredVariable
  | divisionByZero
  | expectedBoolean
  | expectedInteger
  | expectedReturn
  | expectedString
  | integerOverflow
  | invalidExpression
  | invalidNumberOfArgs
  | invalidStatement
  | invalidVariableType
  | recursionLimit
  | undeclaredFunction
  | undeclaredVariable
  | unknownError
  deriving DecidableEq, Repr

namespace RuntimeFault

def message : RuntimeFault → String
  | .declaredFunction => "FUNCTION ALREADY DECLARED"
  | .declaredVariable => "VARIABLE ALREADY DECLARED"
  | .divisionByZero => "DIVISION BY ZERO"
  | .expectedBoolean => "EXPECTED A BOOLEAN VALUE"
  | .expectedInteger => "EXPECTED A INTEGER VALUE"
  | .expectedReturn => "EXPECTED A RETURN VALUE"
  | .expectedString => "EXPECTED A STRING VALUE"
  | .integerOverflow => "INTEGER OVERFLOW"
  | .invalidExpression => "INVALID EXPRESSION"
  | .invalidNumberOfArgs => "INVALID NUMBER OF ARGS"
  | .invalidStatement => "INVALID STATEMENT"
  | .invalidVariableType => "INVALID VARIABLE TYPE"
  | .recursionLimit => "MAXIMUM CALL DEPTH EXCEEDED"
  | .undeclaredFunction => "UNDECLARED FUNCTION"
  | .undeclaredVariable => "UNDECLARED VARIABLE"
  | .unknownError => "UNKNOWN ERROR"

def code : RuntimeFault → String
  | .declaredFunction => "DECLARED_FUNCTION"
  | .declaredVariable => "DECLARED_VARIABLE"
  | .divisionByZero => "DIVISION_BY_ZERO"
  | .expectedBoolean => "EXPECTED_BOOLEAN"
  | .expectedInteger => "EXPECTED_INTEGER"
  | .expectedReturn => "EXPECTED_RETURN"
  | .expectedString => "EXPECTED_STRING"
  | .integerOverflow => "INTEGER_OVERFLOW"
  | .invalidExpression => "INVALID_EXPRESSION"
  | .invalidNumberOfArgs => "INVALID_NUMBER_OF_ARGS"
  | .invalidStatement => "INVALID_STATEMENT"
  | .invalidVariableType => "INVALID_VARIABLE_TYPE"
  | .recursionLimit => "RECURSION_LIMIT"
  | .undeclaredFunction => "UNDECLARED_FUNCTION"
  | .undeclaredVariable => "UNDECLARED_VARIABLE"
  | .unknownError => "UNKNOWN_ERROR"

def all : List RuntimeFault :=
  [.declaredFunction, .declaredVariable, .divisionByZero, .expectedBoolean,
    .expectedInteger, .expectedReturn, .expectedString, .integerOverflow,
    .invalidExpression, .invalidNumberOfArgs, .invalidStatement,
    .invalidVariableType, .recursionLimit, .undeclaredFunction,
    .undeclaredVariable, .unknownError]

/-- The fault with this code. -/
def ofCode? (code : String) : Option RuntimeFault :=
  all.find? fun fault => fault.code == code

end RuntimeFault

/-- A message with its place: ` 'found'` is left out when there is no offending
text. -/
def locatedText (message : String) (line : Nat) (found : Option String) :
    String :=
  let quoted := match found with
    | some text => " '" ++ text ++ "'"
    | none => ""
  message ++ quoted ++ " AT LINE " ++ line.repr

/-- Why a text is not a program. -/
structure SyntaxError where
  fault : SyntaxFault
  line : Nat
  found : Option String
  deriving DecidableEq, Repr

def SyntaxError.text (e : SyntaxError) : String :=
  locatedText e.fault.message e.line e.found

/-- Why a run stopped. -/
structure RuntimeError where
  fault : RuntimeFault
  line : Nat
  found : Option String
  deriving DecidableEq, Repr

def RuntimeError.text (e : RuntimeError) : String :=
  locatedText e.fault.message e.line e.found

/-- Either way of failing, with the phase in front of its text. -/
inductive Diagnostic where
  | parsing (e : SyntaxError)
  | running (e : RuntimeError)
  deriving DecidableEq, Repr

def Diagnostic.text : Diagnostic → String
  | .parsing e => "SYNTAX ERROR: " ++ e.text
  | .running e => "RUNTIME ERROR: " ++ e.text

end Quill
