import Quill.Tree.ExprReader

/-!
# Reading statements

A program is read one token at a time, by a single total step. The state holds
the statements already read of the innermost open body, the statement being
read, and for each open block the statement it belongs to and the statements
before that one. A prefix of the input is thus a state, and a fault is found at
the first token that no program continues with.

Three rules about line ends live here and nowhere else. A statement ends at a
line end, before the closing brace of its block, or at the end of the input.
Further line ends between statements are skipped. And after the block of an
`if`, line ends are taken without ending the statement yet, since an `else` may
follow them; if none does, they count as its end.
-/

namespace Quill

/-- A condition with its block. -/
abbrev Arm := Expr × List Stmt

/-- The conditional whose latest arm is `arm`, after `earlier` ones with the
latest first, and which goes on with `next`. -/
def closeArms (next : ElseChain) (arm : Arm) : List Arm → Stmt
  | [] => .cond arm.1 arm.2 next
  | before :: earlier => closeArms (.elseIf arm.1 arm.2 next) before earlier

/-- The place in a statement that the expression being read will fill. -/
inductive Slot where
  | init (type : TypeName) (x : Ident)
  | value (x : Ident)
  | result (line : Nat)
  /-- The condition of an `if`, after `earlier` arms, the latest first. -/
  | branch (earlier : List Arm)
  | loop
  /-- An argument of a call, after `args`, the latest first. -/
  | argument (f : Ident) (args : List Expr)

/-- The statement that an open block belongs to. -/
inductive Owner where
  | function (f : Ident) (params : List Param)
  | branch (cond : Expr) (earlier : List Arm)
  | otherwise (arm : Arm) (earlier : List Arm)
  | loop (cond : Expr)

/-- Where in a statement the reader stands. -/
inductive Mode where
  /-- Between statements. -/
  | ready
  /-- After a statement: a line end or the end of the body must follow. -/
  | ended
  /-- After the block of an `if`, and after a line end if `newline`. -/
  | branched (arm : Arm) (earlier : List Arm) (newline : Bool)
  /-- After `else`. -/
  | elseRead (arm : Arm) (earlier : List Arm)
  /-- After a type word: a name must follow. -/
  | typed (type : TypeName)
  /-- After a type word and a name: `=` must follow. -/
  | typedName (type : TypeName) (x : Ident)
  /-- After the name that begins a statement: `(` or `=` must follow. -/
  | named (x : Ident)
  /-- After the name and the `(` that begin a statement. -/
  | calling (f : Ident)
  /-- After `return`. -/
  | returning (line : Nat)
  /-- After `fun`: a name must follow. -/
  | function
  /-- After `fun` and a name: `(` must follow. -/
  | functionName (f : Ident)
  /-- After the `(` of a parameter list: a type word or `)` must follow. -/
  | params (f : Ident)
  /-- After the `,` of a parameter list: a type word must follow. The parameters
  read so far stand with the latest first, here and below. -/
  | paramType (f : Ident) (params : List Param)
  /-- After the type word of a parameter: a name must follow. -/
  | paramName (f : Ident) (params : List Param) (type : TypeName)
  /-- After a parameter: `,` or `)` must follow. -/
  | paramEnd (f : Ident) (params : List Param)
  /-- Before a block: `{` must follow. -/
  | block (owner : Owner)
  /-- Inside an expression. -/
  | expr (slot : Slot) (r : ExprReader)

/-- A program that is partly read. -/
structure Reader where
  mode : Mode
  /-- The statements read of the innermost open body, the latest first. -/
  done : List Stmt
  /-- For each open block, innermost first, the statement it belongs to and the
  statements before that one, the latest first. -/
  outer : List (Owner × List Stmt)

namespace Reader

/-- The reader of a program of which nothing is read. -/
def start : Reader :=
  ⟨.ready, [], []⟩

/-- The reader after the statement `s`. -/
def add (r : Reader) (s : Stmt) : Reader :=
  { r with mode := .ended, done := s :: r.done }

/-- Ends the innermost block at its closing brace. -/
def closeBlock (r : Reader) (t : Token) : Except SyntaxError Reader :=
  let body := r.done.reverse
  match r.outer with
  | [] => .error (t.blame .unexpectedCharacter)
  | (.function f params, before) :: outer =>
    .ok ⟨.ended, .function f params body :: before, outer⟩
  | (.branch c earlier, before) :: outer =>
    .ok ⟨.branched (c, body) earlier false, before, outer⟩
  | (.otherwise arm earlier, before) :: outer =>
    .ok ⟨.ended, closeArms (.otherwise body) arm earlier :: before, outer⟩
  | (.loop c, before) :: outer => .ok ⟨.ended, .loop c body :: before, outer⟩

/-- Reads a token where the block of `owner` must begin. -/
def openBlock (r : Reader) (owner : Owner) (t : Token) :
    Except SyntaxError Reader :=
  match t.kind with
  | .symbol .lbrace => .ok ⟨.ready, [], (owner, r.done) :: r.outer⟩
  | _ => .error (t.blame .expectOpeningBrace)

/-- Reads a token after a statement. -/
def separate (r : Reader) (t : Token) : Except SyntaxError Reader :=
  match t.kind with
  | .newline => .ok { r with mode := .ready }
  | .symbol .rbrace => r.closeBlock t
  | _ => .error (t.blame .expectNewline)

/-- Reads a token between statements. -/
def begin (r : Reader) (t : Token) : Except SyntaxError Reader :=
  match TypeName.ofToken? t with
  | some ty => .ok { r with mode := .typed ty }
  | none =>
    match t.kind with
    | .newline => .ok { r with mode := .ready }
    | .symbol .rbrace => r.closeBlock t
    | .keyword .fun => .ok { r with mode := .function }
    | .name => .ok { r with mode := .named ⟨t.text, t.line⟩ }
    | .keyword .return => .ok { r with mode := .returning t.line }
    | .keyword .if => .ok { r with mode := .expr (.branch []) .start }
    | .keyword .while => .ok { r with mode := .expr .loop .start }
    | _ =>
      .error (t.blame (if r.outer.isEmpty then .unexpectedCharacter
        else .expectClosingBrace))

/-- Puts a complete expression into its place and reads the token after it. -/
def fill (r : Reader) (slot : Slot) (e : Expr) (t : Token) :
    Except SyntaxError Reader :=
  match slot with
  | .init ty x => (r.add (.declare ty x e)).separate t
  | .value x => (r.add (.assign x e)).separate t
  | .result line => (r.add (.ret line (some e))).separate t
  | .branch earlier => r.openBlock (.branch e earlier) t
  | .loop => r.openBlock (.loop e) t
  | .argument f args =>
    match t.kind with
    | .symbol .comma =>
      .ok { r with mode := .expr (.argument f (e :: args)) .start }
    | .symbol .rparen => .ok (r.add (.call f (e :: args).reverse))
    | _ => .error (t.blame .expectClosingParen)

/-- Reads a token in or right after the expression for `slot`. -/
def advance (r : Reader) (slot : Slot) (er : ExprReader) (t : Token) :
    Except SyntaxError Reader :=
  match er.step t with
  | .error e => .error e
  | .ok (.reading er) => .ok { r with mode := .expr slot er }
  | .ok (.finished e) => r.fill slot e t

/-- Reads a token where a name must stand. -/
def takeName (r : Reader) (t : Token) (mode : Ident → Mode) :
    Except SyntaxError Reader :=
  match t.kind with
  | .name => .ok { r with mode := mode ⟨t.text, t.line⟩ }
  | _ => .error (t.blame .expectId)

/-- Reads a token where the type of a parameter must stand. -/
def takeParamType (r : Reader) (f : Ident) (params : List Param) (t : Token) :
    Except SyntaxError Reader :=
  match TypeName.ofToken? t with
  | some ty => .ok { r with mode := .paramName f params ty }
  | none => .error (t.blame .expectType)

/-- Reads a token where `s` must stand. -/
def takeSymbol (r : Reader) (t : Token) (s : Symbol) (fault : SyntaxFault)
    (mode : Mode) : Except SyntaxError Reader :=
  if t.kind = .symbol s then .ok { r with mode := mode }
    else .error (t.blame fault)

/-- Reads one token. -/
def step (r : Reader) (t : Token) : Except SyntaxError Reader :=
  match r.mode with
  | .ready => r.begin t
  | .ended => r.separate t
  | .branched arm earlier newline =>
    match t.kind with
    | .newline => .ok { r with mode := .branched arm earlier true }
    | .keyword .else => .ok { r with mode := .elseRead arm earlier }
    | _ =>
      let r := r.add (closeArms .none arm earlier)
      if newline then r.begin t else r.separate t
  | .elseRead arm earlier =>
    match t.kind with
    | .keyword .if =>
      .ok { r with mode := .expr (.branch (arm :: earlier)) .start }
    | _ => r.openBlock (.otherwise arm earlier) t
  | .typed ty => r.takeName t (.typedName ty)
  | .typedName ty x =>
    r.takeSymbol t .assign .expectAssign (.expr (.init ty x) .start)
  | .named x =>
    match t.kind with
    | .symbol .lparen => .ok { r with mode := .calling x }
    | _ => r.takeSymbol t .assign .expectAssign (.expr (.value x) .start)
  | .calling f =>
    match t.kind with
    | .symbol .rparen => .ok (r.add (.call f []))
    | _ => r.advance (.argument f []) .start t
  | .returning line =>
    match t.kind with
    | .newline | .symbol .rbrace => (r.add (.ret line none)).separate t
    | _ => r.advance (.result line) .start t
  | .function => r.takeName t .functionName
  | .functionName f => r.takeSymbol t .lparen .expectOpeningParen (.params f)
  | .params f =>
    match t.kind with
    | .symbol .rparen => .ok { r with mode := .block (.function f []) }
    | _ => r.takeParamType f [] t
  | .paramType f params => r.takeParamType f params t
  | .paramName f params ty =>
    r.takeName t fun x => .paramEnd f (⟨ty, x⟩ :: params)
  | .paramEnd f params =>
    match t.kind with
    | .symbol .comma => .ok { r with mode := .paramType f params }
    | _ =>
      r.takeSymbol t .rparen .expectClosingParen
        (.block (.function f params.reverse))
  | .block owner => r.openBlock owner t
  | .expr slot er => r.advance slot er t

/-- The statements read, if the reader stands between statements outside every
block. -/
def statements? (r : Reader) : Option (List Stmt) :=
  match r.outer, r.mode with
  | [], .ready => some r.done.reverse
  | [], .branched arm earlier _ =>
    some (closeArms .none arm earlier :: r.done).reverse
  | _, _ => none

/-- The statements read, if the program may end here: the end of the input ends
its last line. -/
def finish? (r : Reader) : Option (List Stmt) :=
  match r.step ⟨.newline, "\n", 0⟩ with
  | .ok r => r.statements?
  | .error _ => none

end Reader

/-- A program is a list of statements. -/
abbrev Program := List Stmt

namespace Program

/-- The program that a list of tokens spells. A list that ends too early is
blamed on the line of its last token. -/
def ofTokens (ts : List Token) : Except SyntaxError Program :=
  match ts.foldlM Reader.step Reader.start with
  | .error e => .error e
  | .ok r =>
    match r.finish? with
    | some p => .ok p
    | none => .error ⟨.unexpectedEnd, (ts.getLast?.map Token.line).getD 1, none⟩

end Program

end Quill
