import Quill.Tree.Basic

/-!
# Trees as text

Expressions are shown with every operation in parentheses, so their text shows
their structure whatever the precedence of the operators. A statement is shown
on one line, its blocks as the number of their statements.
-/

namespace Quill

mutual

/-- An expression as text. -/
def Expr.text : Expr → String
  | .literal v => v.display
  | .var x => x.text
  | .binary op l r => "(" ++ l.text ++ " " ++ op.text ++ " " ++ r.text ++ ")"
  | .call f args => f.text ++ "(" ++ Expr.listText args ++ ")"

/-- Expressions as text, with a comma and a space between them. -/
def Expr.listText : List Expr → String
  | [] => ""
  | [e] => e.text
  | e :: es => e.text ++ ", " ++ Expr.listText es

end

/-- A parameter as a listing shows it. -/
def Param.text (p : Param) : String :=
  p.type.type.kind.word ++ " " ++ p.name.text

/-- A block as the number of its statements. -/
def blockSummary (body : List Stmt) : String :=
  let count :=
    if body.length = 1 then "1 statement"
    else body.length.repr ++ " statements"
  "\x7b " ++ count ++ " \x7d"

/-- The rest of a conditional on its line. -/
def ElseChain.summary : ElseChain → String
  | .none => ""
  | .elseIf c body next =>
    " else if " ++ c.text ++ " " ++ blockSummary body ++ next.summary
  | .otherwise body => " else " ++ blockSummary body

/-- A statement on one line. -/
def Stmt.summary : Stmt → String
  | .declare ty x init =>
    "VariableDeclaration " ++ ty.type.kind.word ++ " " ++ x.text ++
      " = " ++ init.text
  | .function f params body =>
    "FunctionDeclaration " ++ f.text ++ "(" ++ ", ".intercalate
      (params.map Param.text) ++ ") " ++ blockSummary body
  | .assign x value => "Assignment " ++ x.text ++ " = " ++ value.text
  | .ret _ (some value) => "ReturnStatement " ++ value.text
  | .ret _ none => "ReturnStatement"
  | .cond c body next =>
    "Conditional " ++ c.text ++ " " ++ blockSummary body ++ next.summary
  | .loop c body => "WhileStatement " ++ c.text ++ " " ++ blockSummary body
  | .call f args => "FunctionCall " ++ (Expr.call f args).text

end Quill
