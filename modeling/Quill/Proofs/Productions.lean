import Quill.Proofs.Grammar

/-!
# The grammar as procedures

A grammar can also be run: each production is a procedure that takes tokens from
the front of what is left, calls others where their tokens must stand, and
repeats itself where something may be repeated. Nothing in such a definition
says that it comes to an end. Seven levels of expressions call each other before
any of them takes a token, and the loops around statements call a statement
whose end may take none.

So the productions are given a budget of nested calls, and this file shows that
it never runs out: a call is only ever made with fewer tokens left, or with as
many for a production of a lower rank. The tokens count eleven times, the rank
once, and a budget above that is enough for every production on every list of
tokens. What a production leaves is an end of what it was given, and a shorter
one, unless it is a loop that may go round no times.
-/

namespace Quill

open Grammar

/-- Why a production fails. -/
inductive Production.Failure where
  | refused (e : SyntaxError)
  /-- The tokens have run out. -/
  | atEnd

/-- What a production answers: it has spent its budget, it fails, or it is done
and leaves the rest of the tokens. -/
inductive Production.Answer (α : Type) where
  | spent
  | failed (f : Production.Failure)
  | done (a : α) (rest : List Token)

/-- The productions, by the trees they build. -/
inductive Production : Type → Type where
  /-- Operands joined by operators of level `k` and above. -/
  | level (k : Nat) : Production Expr
  /-- Any number of operators of level `k` with their right operands, after
  `left`. -/
  | operations (k : Nat) (left : Expr) : Production Expr
  | primary : Production Expr
  | call : Production (Ident × List Expr)
  /-- One or more arguments. -/
  | arguments : Production (List Expr)
  /-- One or more parameters. -/
  | params : Production (List Param)
  | statement : Production Stmt
  /-- Everything after `if`. -/
  | conditional : Production (Arm × ElseChain)
  | block : Production (List Stmt)
  /-- The statements of a block and its closing brace. -/
  | statements : Production (List Stmt)
  /-- All statements up to the end. -/
  | program : Production (List Stmt)

namespace Production

variable {α β : Type}

/-- Goes on with `next` where the first part is done. -/
def Answer.andThen (o : Answer α) (next : α → List Token → Answer β) :
    Answer β :=
  match o with
  | .spent => .spent
  | .failed f => .failed f
  | .done a rest => next a rest

/-! ## Single tokens -/

/-- Takes a token that is wanted. -/
def take (want : Token → Option α) (fault : SyntaxFault) : List Token → Answer α
  | [] => .failed .atEnd
  | t :: rest =>
    match want t with
    | some a => .done a rest
    | none => .failed (.refused (t.blame fault))

def symbol? (s : Symbol) (t : Token) : Option Unit :=
  if t.kind = .symbol s then some () else none

def name? (t : Token) : Option Ident :=
  if t.kind = .name then some ⟨t.text, t.line⟩ else none

/-- Whether a token of this kind comes next. -/
def nextIs (k : Token.Kind) : List Token → Bool
  | [] => false
  | t :: _ => t.kind = k

def skipNewlines : List Token → List Token
  | [] => []
  | t :: ts => if t.kind = .newline then skipNewlines ts else t :: ts

/-- What follows the `else` that comes next, on this line or a later one, if one
does. -/
def behindElse? (ts : List Token) : Option (List Token) :=
  match skipNewlines ts with
  | t :: rest => if t.kind = .keyword .else then some rest else none
  | [] => none

/-- Whether a statement may end here. -/
def atTerminator : List Token → Bool
  | [] => true
  | t :: _ => t.kind = .newline || t.kind = .symbol .rbrace

/-- Ends a statement: takes a line end, and leaves a closing brace. -/
def terminator : List Token → Answer Unit
  | [] => .done () []
  | t :: rest =>
    match t.kind with
    | .newline => .done () rest
    | .symbol .rbrace => .done () (t :: rest)
    | _ => .failed (.refused (t.blame .expectNewline))

/-! ## What each production does

The productions call each other through `call`. -/

section

variable (call : ⦃β : Type⦄ → Production β → List Token → Answer β)

def runLevel (k : Nat) (ts : List Token) : Answer Expr :=
  if k < 6 then
    (call (.level (k + 1)) ts).andThen fun e rest => call (.operations k e) rest
  else call .primary ts

def runOperations (k : Nat) (left : Expr) : List Token → Answer Expr
  | [] => .done left []
  | t :: ts =>
    if t.kind.level? = some k then
      (call (.level (k + 1)) ts).andThen fun right rest =>
        call (.operations k (.binary t left right)) rest
    else .done left (t :: ts)

/-- A call in whose place `make` makes something of it. -/
def runCalled (make : Ident → List Expr → α) (ts : List Token) : Answer α :=
  (call .call ts).andThen fun c rest => .done (make c.1 c.2) rest

def runPrimary : List Token → Answer Expr
  | [] => .failed .atEnd
  | t :: ts =>
    match Literal.ofToken? t with
    | some v => .done (.literal v) ts
    | none =>
      match t.kind with
      | .name =>
        if nextIs (.symbol .lparen) ts then runCalled call .call (t :: ts)
        else .done (.var ⟨t.text, t.line⟩) ts
      | .symbol .lparen =>
        (call (.level 0) ts).andThen fun e rest =>
          (take (symbol? .rparen) .expectClosingParen rest).andThen
            fun _ rest => .done e rest
      | _ => .failed (.refused (t.blame .invalidExpression))

/-- A list in parentheses that may be empty, behind the opening one. -/
def runListed (items : Production (List α)) (ts : List Token) :
    Answer (List α) :=
  (if nextIs (.symbol .rparen) ts then .done [] ts else call items ts).andThen
    fun as rest =>
    (take (symbol? .rparen) .expectClosingParen rest).andThen fun _ rest =>
      .done as rest

def runCall (ts : List Token) : Answer (Ident × List Expr) :=
  (take name? .expectId ts).andThen fun f rest =>
    (take (symbol? .lparen) .expectOpeningParen rest).andThen fun _ rest =>
      (runListed call .arguments rest).andThen fun args rest =>
        .done (f, args) rest

/-- More of a list behind its item `a`, if a comma follows. -/
def runMore (items : Production (List α)) (a : α) (ts : List Token) :
    Answer (List α) :=
  if nextIs (.symbol .comma) ts then
    (call items ts.tail).andThen fun as rest => .done (a :: as) rest
  else .done [a] ts

def runArguments (ts : List Token) : Answer (List Expr) :=
  (call (.level 0) ts).andThen fun e rest => runMore call .arguments e rest

def runParams (ts : List Token) : Answer (List Param) :=
  (take TypeName.ofToken? .expectType ts).andThen fun ty rest =>
    (take name? .expectId rest).andThen fun x rest =>
      runMore call .params ⟨ty, x⟩ rest

/-- `=` and an expression, of which `make` makes a statement. -/
def runAssigned (make : Expr → Stmt) (ts : List Token) : Answer Stmt :=
  (take (symbol? .assign) .expectAssign ts).andThen fun _ rest =>
    (call (.level 0) rest).andThen fun e rest => .done (make e) rest

/-- A function behind `fun`. -/
def runFunction (ts : List Token) : Answer Stmt :=
  (take name? .expectId ts).andThen fun f rest =>
    (take (symbol? .lparen) .expectOpeningParen rest).andThen fun _ rest =>
      (runListed call .params rest).andThen fun params rest =>
        (call .block rest).andThen fun body rest =>
          .done (.function f params body) rest

/-- A `return` behind its word. -/
def runReturned (line : Nat) (ts : List Token) : Answer Stmt :=
  if atTerminator ts then .done (.ret line none) ts
  else (call (.level 0) ts).andThen fun e rest =>
    .done (.ret line (some e)) rest

/-- A statement without its end. -/
def runUnended : List Token → Answer Stmt
  | [] => .failed .atEnd
  | t :: ts =>
    match TypeName.ofToken? t with
    | some ty =>
      (take name? .expectId ts).andThen fun x rest =>
        runAssigned call (.declare ty x) rest
    | none =>
      match t.kind with
      | .keyword .fun => runFunction call ts
      | .name =>
        if nextIs (.symbol .lparen) ts then runCalled call .call (t :: ts)
        else runAssigned call (.assign ⟨t.text, t.line⟩) ts
      | .keyword .return => runReturned call t.line ts
      | .keyword .if =>
        (call .conditional ts).andThen fun c rest =>
          .done (.cond c.1.1 c.1.2 c.2) rest
      | .keyword .while =>
        (call (.level 0) ts).andThen fun c rest =>
          (call .block rest).andThen fun body rest => .done (.loop c body) rest
      | _ => .failed (.refused (t.blame .unexpectedCharacter))

def runStatement (ts : List Token) : Answer Stmt :=
  (runUnended call ts).andThen fun s rest =>
    (terminator rest).andThen fun _ rest => .done s rest

/-- What follows the block of an `if`. -/
def runElse (ts : List Token) : Answer ElseChain :=
  match behindElse? ts with
  | none => .done .none ts
  | some rest =>
    if nextIs (.keyword .if) rest then
      (call .conditional rest.tail).andThen fun c rest =>
        .done (.elseIf c.1.1 c.1.2 c.2) rest
    else (call .block rest).andThen fun body rest =>
      .done (.otherwise body) rest

def runConditional (ts : List Token) : Answer (Arm × ElseChain) :=
  (call (.level 0) ts).andThen fun c rest =>
    (call .block rest).andThen fun body rest =>
      (runElse call rest).andThen fun next rest => .done ((c, body), next) rest

def runBlock (ts : List Token) : Answer (List Stmt) :=
  (take (symbol? .lbrace) .expectOpeningBrace ts).andThen
    fun _ rest => call .statements rest

/-- A statement and all that `others` finds behind it. -/
def runThen (others : Production (List Stmt)) (ts : List Token) :
    Answer (List Stmt) :=
  (call .statement ts).andThen fun s rest =>
    (call others rest).andThen fun ss rest => .done (s :: ss) rest

def runStatements (ts : List Token) : Answer (List Stmt) :=
  match skipNewlines ts with
  | [] => .failed .atEnd
  | t :: rest =>
    if t.kind = .symbol .rbrace then .done [] rest
    else if startsStatement t.kind then runThen call .statements (t :: rest)
    else .failed (.refused (t.blame .expectClosingBrace))

def runProgram (ts : List Token) : Answer (List Stmt) :=
  match skipNewlines ts with
  | [] => .done [] []
  | t :: rest => runThen call .program (t :: rest)

def body : Production α → List Token → Answer α
  | .level k => runLevel call k
  | .operations k left => runOperations call k left
  | .primary => runPrimary call
  | .call => runCall call
  | .arguments => runArguments call
  | .params => runParams call
  | .statement => runStatement call
  | .conditional => runConditional call
  | .block => runBlock call
  | .statements => runStatements call
  | .program => runProgram call

end

/-- Runs a production with a budget of nested calls. -/
def run : Nat → ⦃α : Type⦄ → Production α → List Token → Answer α
  | 0, _, _, _ => .spent
  | n + 1, _, p, ts => p.body (run n) ts

/-! ## What a call weighs -/

/-- The order in which productions call each other before any takes a token. -/
def rank : Production α → Nat
  | .level k => 3 + (6 - k)
  | .operations _ _ | .params | .block => 0
  | .call => 1
  | .primary | .statement => 2
  | .statements | .program => 3
  | .arguments | .conditional => 10

/-- The remaining tokens weigh more than any rank. -/
def weight (p : Production α) (ts : List Token) : Nat :=
  11 * ts.length + p.rank

/-- How many tokens the production takes at least. -/
def least : Production α → Nat
  | .operations _ _ | .program => 0
  | _ => 1

theorem rank_le (p : Production α) : p.rank ≤ 10 := by
  cases p <;> simp only [rank] <;> omega

/-! ## Answers that do not depend on the budget -/

/-- Two answers to `ts` are one, and it is no spent budget. Where it is that the
production is done, it has taken `k` tokens at least, and what it leaves is an
end of `ts`. -/
inductive Settled (k : Nat) (ts : List Token) : Answer α → Answer α → Prop where
  | failed (f : Failure) : Settled k ts (.failed f) (.failed f)
  | done {a : α} {rest : List Token} (hsuffix : rest <:+ ts)
      (hlength : rest.length + k ≤ ts.length) :
      Settled k ts (.done a rest) (.done a rest)

namespace Settled

variable {k j : Nat} {ts us : List Token} {o o' : Answer α}

theorem andThen {f f' : α → List Token → Answer β} (h : Settled k ts o o')
    (hnext : ∀ a rest, rest <:+ ts → rest.length + k ≤ ts.length →
      Settled j rest (f a rest) (f' a rest)) :
    Settled (k + j) ts (o.andThen f) (o'.andThen f') := by
  cases h with
  | failed f => exact .failed f
  | @done a rest hsuffix hlength =>
      have hafter := hnext a rest hsuffix hlength
      simp only [Answer.andThen]
      generalize f a rest = b, f' a rest = b' at hafter
      cases hafter with
      | failed f => exact .failed f
      | done hsuffix' hlength' =>
          exact .done (hsuffix'.trans hsuffix) (by omega)

/-- What is settled for an end of the tokens is settled for all of them. -/
theorem of_suffix (h : Settled k us o o') (hsuffix : us <:+ ts)
    (hlength : us.length + j ≤ ts.length + k) : Settled j ts o o' := by
  cases h with
  | failed f => exact .failed f
  | done hsuffix' hlength' => exact .done (hsuffix'.trans hsuffix) (by omega)

theorem cons (h : Settled k ts o o') (t : Token) (hjk : j ≤ k + 1) :
    Settled j (t :: ts) o o' :=
  h.of_suffix (List.suffix_cons t ts) (by simp only [List.length_cons]; omega)

theorem weaken (h : Settled k ts o o') (hjk : j ≤ k) : Settled j ts o o' :=
  h.of_suffix (List.suffix_refl ts) (by omega)

theorem eq (h : Settled k ts o o') : o = o' := by
  cases h <;> rfl

theorem self (a : α) (ts : List Token) :
    Settled 0 ts (.done a ts) (.done a ts) :=
  .done (List.suffix_refl ts) (Nat.le_refl _)

/-- A production that is done stays so when its tree is put into another. -/
theorem map (h : Settled k ts o o') (f : α → β) :
    Settled k ts (o.andThen fun a rest => .done (f a) rest)
      (o'.andThen fun a rest => .done (f a) rest) :=
  h.andThen fun a rest _ _ => self (f a) rest

end Settled

theorem settled_take (want : Token → Option α) (fault : SyntaxFault)
    (ts : List Token) :
    Settled 1 ts (take want fault ts) (take want fault ts) := by
  cases ts with
  | nil => exact .failed _
  | cons t rest =>
      simp only [take]
      cases want t with
      | none => exact .failed _
      | some a => exact .done (List.suffix_cons t rest) (Nat.le_refl _)

theorem settled_terminator (ts : List Token) :
    Settled 0 ts (terminator ts) (terminator ts) := by
  cases ts with
  | nil => exact .self () []
  | cons t rest =>
      simp only [terminator]
      split
      · exact .done (List.suffix_cons t rest) (Nat.le_succ _)
      · exact .self () _
      · exact .failed _

theorem skipNewlines_suffix (ts : List Token) : skipNewlines ts <:+ ts := by
  induction ts with
  | nil => exact List.suffix_refl []
  | cons t ts ih =>
      simp only [skipNewlines]
      split
      · exact ih.trans (List.suffix_cons t ts)
      · exact List.suffix_refl _

theorem behindElse?_suffix {ts rest : List Token}
    (h : behindElse? ts = some rest) :
    rest <:+ ts ∧ rest.length + 1 ≤ ts.length := by
  have hskip := skipNewlines_suffix ts
  unfold behindElse? at h
  split at h
  · next t us hus =>
      rw [hus] at hskip
      split at h
      · cases h
        exact ⟨(List.suffix_cons t rest).trans hskip, hskip.length_le⟩
      · cases h
  · cases h

theorem length_tail_of_nextIs {k : Token.Kind} {ts : List Token}
    (h : nextIs k ts = true) : ts.tail.length + 1 ≤ ts.length := by
  cases ts with
  | nil => cases h
  | cons t ts => exact Nat.le_refl _

/-! ## One call

Every production calls only what weighs less, so it is settled once these calls
are. -/

/-- The two callers settle everything that weighs less than `w`. -/
def SettledBelow (w : Nat)
    (call call' : ⦃β : Type⦄ → Production β → List Token → Answer β) : Prop :=
  ∀ ⦃β : Type⦄ (q : Production β) (us : List Token), q.weight us < w →
    Settled q.least us (call q us) (call' q us)

section

variable {call call' : ⦃β : Type⦄ → Production β → List Token → Answer β}
  {ts us : List Token}

/-- A call on fewer tokens is settled, whatever its rank. -/
theorem SettledBelow.shorter {p : Production α}
    (h : SettledBelow (p.weight ts) call call') (q : Production β)
    (us : List Token) (hlength : us.length + 1 ≤ ts.length) :
    Settled q.least us (call q us) (call' q us) := by
  refine h q us ?_
  have hrank := q.rank_le
  unfold weight
  omega

/-- A call on no more tokens is settled where its rank is lower. -/
theorem SettledBelow.lower {p : Production α}
    (h : SettledBelow (p.weight ts) call call') (q : Production β)
    (us : List Token) (hlength : us.length ≤ ts.length)
    (hrank : q.rank < p.rank) :
    Settled q.least us (call q us) (call' q us) := by
  refine h q us ?_
  unfold weight
  omega

theorem settled_runLevel {k : Nat}
    (h : SettledBelow (weight (.level k) ts) call call') :
    Settled 1 ts (runLevel call k ts) (runLevel call' k ts) := by
  unfold runLevel
  split
  · have htighter :=
      h.lower (.level (k + 1)) ts (Nat.le_refl _) (by simp only [rank]; omega)
    exact htighter.andThen (k := 1) (j := 0) fun e rest _ hlength =>
      h.shorter (.operations k e) rest hlength
  · exact h.lower .primary ts (Nat.le_refl _) (by simp only [rank]; omega)

theorem settled_runOperations {k : Nat} {left : Expr}
    (h : SettledBelow (weight (.operations k left) ts) call call') :
    Settled 0 ts (runOperations call k left ts)
      (runOperations call' k left ts) := by
  cases ts with
  | nil => exact .self left []
  | cons t ts =>
      simp only [runOperations]
      split
      · have hoperand := h.shorter (.level (k + 1)) ts (Nat.le_refl _)
        have hmore := hoperand.andThen (k := 1) (j := 0) fun e rest _ hlength =>
          h.shorter (.operations k (.binary t left e)) rest
            (Nat.le_succ_of_le hlength)
        exact hmore.cons t (Nat.zero_le _)
      · exact .self left _

theorem settled_runPrimary (h : SettledBelow (weight .primary ts) call call') :
    Settled 1 ts (runPrimary call ts) (runPrimary call' ts) := by
  cases ts with
  | nil => exact .failed _
  | cons t ts =>
      simp only [runPrimary]
      split
      · exact .done (List.suffix_cons t ts) (Nat.le_refl _)
      split
      · split
        · exact (h.lower .call (t :: ts) (Nat.le_refl _) (by decide)).map _
        · exact .done (List.suffix_cons t ts) (Nat.le_refl _)
      · have hinner := h.shorter (.level 0) ts (Nat.le_refl _)
        have hclosed := hinner.andThen fun e rest _ _ =>
          (settled_take (symbol? .rparen) .expectClosingParen rest).map fun _ =>
            e
        exact hclosed.cons t (by decide)
      · exact .failed _

theorem settled_runListed {items : Production (List α)}
    (h : Settled 1 ts (call items ts) (call' items ts)) :
    Settled 1 ts (runListed call items ts) (runListed call' items ts) := by
  have hitems : Settled 0 ts
      (if nextIs (.symbol .rparen) ts then .done [] ts else call items ts)
      (if nextIs (.symbol .rparen) ts then .done [] ts
        else call' items ts) := by
    split
    · exact .self [] ts
    · exact h.weaken (Nat.zero_le _)
  exact hitems.andThen (j := 1) fun as rest _ _ =>
    (settled_take _ _ rest).map fun _ => as

theorem settled_runCall (h : SettledBelow (weight .call ts) call call') :
    Settled 1 ts (runCall call ts) (runCall call' ts) := by
  refine Settled.weaken (k := 1 + (1 + 1)) ?_ (by decide)
  refine (settled_take _ _ ts).andThen fun f rest _ hlength => ?_
  refine (settled_take _ _ rest).andThen fun _ rest' _ hlength' => ?_
  exact (settled_runListed (h.shorter .arguments rest' (by omega))).map _

theorem settled_runMore {items : Production (List α)} {a : α}
    (h : nextIs (.symbol .comma) ts = true →
      Settled 1 ts.tail (call items ts.tail) (call' items ts.tail)) :
    Settled 0 ts (runMore call items a ts) (runMore call' items a ts) := by
  unfold runMore
  split
  · next hcomma =>
      have hlength := length_tail_of_nextIs hcomma
      exact ((h hcomma).map _).of_suffix (List.tail_suffix ts) (by omega)
  · exact .self [a] ts

theorem settled_runArguments
    (h : SettledBelow (weight .arguments ts) call call') :
    Settled 1 ts (runArguments call ts) (runArguments call' ts) := by
  have hfirst := h.lower (.level 0) ts (Nat.le_refl _) (by decide)
  refine hfirst.andThen (k := 1) (j := 0) fun e rest _ hlength =>
    settled_runMore fun hcomma => ?_
  have htail := length_tail_of_nextIs hcomma
  exact h.shorter .arguments rest.tail (by omega)

theorem settled_runParams (h : SettledBelow (weight .params ts) call call') :
    Settled 1 ts (runParams call ts) (runParams call' ts) := by
  refine Settled.weaken (k := 1 + (1 + 0)) ?_ (by decide)
  refine (settled_take _ _ ts).andThen fun ty rest _ hlength => ?_
  refine (settled_take _ _ rest).andThen fun x rest' _ hlength' =>
    settled_runMore fun hcomma => ?_
  have htail := length_tail_of_nextIs hcomma
  exact h.shorter .params rest'.tail (by omega)

theorem settled_runAssigned {make : Expr → Stmt} {p : Production α}
    (h : SettledBelow (p.weight ts) call call')
    (hlength : us.length ≤ ts.length) :
    Settled 1 us (runAssigned call make us) (runAssigned call' make us) := by
  refine Settled.weaken (k := 1 + 1) ?_ (by decide)
  refine (settled_take _ _ us).andThen fun _ rest _ hlength' => ?_
  exact (h.shorter (.level 0) rest (by omega)).map make

theorem settled_runFunction {p : Production α}
    (h : SettledBelow (p.weight ts) call call')
    (hlength : us.length ≤ ts.length) :
    Settled 1 us (runFunction call us) (runFunction call' us) := by
  refine Settled.weaken (k := 1 + (1 + (1 + 1))) ?_ (by decide)
  refine (settled_take _ _ us).andThen fun f rest _ hlength₁ => ?_
  refine (settled_take _ _ rest).andThen fun _ rest₂ _ hlength₂ => ?_
  refine (settled_runListed (h.shorter .params rest₂ (by omega))).andThen
    fun params rest₃ _ hlength₃ => ?_
  exact (h.shorter .block rest₃ (by omega)).map _

theorem settled_runUnended
    (h : SettledBelow (weight .statement ts) call call') :
    Settled 1 ts (runUnended call ts) (runUnended call' ts) := by
  cases ts with
  | nil => exact .failed _
  | cons t ts =>
      have hexpr := h.shorter (.level 0) ts (Nat.le_refl _)
      simp only [runUnended]
      split
      · refine Settled.cons (k := 1 + 1) ?_ t (by decide)
        refine (settled_take _ _ ts).andThen fun x rest _ hlength => ?_
        exact settled_runAssigned h (by simp only [List.length_cons]; omega)
      split
      · exact (settled_runFunction h (Nat.le_succ _)).cons t (by decide)
      · split
        · exact (h.lower .call (t :: ts) (Nat.le_refl _) (by decide)).map _
        · exact (settled_runAssigned h (Nat.le_succ _)).cons t (by decide)
      · unfold runReturned
        split
        · exact (Settled.self _ ts).cons t (by decide)
        · exact (hexpr.map _).cons t (by decide)
      · exact ((h.shorter .conditional ts (Nat.le_refl _)).map _).cons
          t (by decide)
      · refine Settled.cons (k := 1 + 1) ?_ t (by decide)
        exact hexpr.andThen fun c rest _ hlength =>
          (h.shorter .block rest (Nat.le_succ_of_le hlength)).map _
      · exact .failed _

theorem settled_runStatement
    (h : SettledBelow (weight .statement ts) call call') :
    Settled 1 ts (runStatement call ts) (runStatement call' ts) :=
  (settled_runUnended h).andThen fun s rest _ _ =>
    (settled_terminator rest).map fun _ => s

theorem settled_runElse {p : Production α}
    (h : SettledBelow (p.weight ts) call call')
    (hlength : us.length ≤ ts.length) :
    Settled 0 us (runElse call us) (runElse call' us) := by
  unfold runElse
  split
  · exact .self ElseChain.none us
  · next rest helse =>
      obtain ⟨hsuffix, hshorter⟩ := behindElse?_suffix helse
      split
      · next hif =>
          have htail := length_tail_of_nextIs hif
          have hcond := h.shorter .conditional rest.tail (by omega)
          exact (hcond.map _).of_suffix
            ((List.tail_suffix rest).trans hsuffix) (by omega)
      · exact ((h.shorter .block rest (by omega)).map _).of_suffix
          hsuffix (by omega)

theorem settled_runConditional
    (h : SettledBelow (weight .conditional ts) call call') :
    Settled 1 ts (runConditional call ts) (runConditional call' ts) := by
  refine Settled.weaken (k := 1 + (1 + 0)) ?_ (by decide)
  refine (h.lower (.level 0) ts (Nat.le_refl _) (by decide)).andThen
    fun c rest _ hlength => ?_
  refine (h.shorter .block rest hlength).andThen fun body rest' _ hlength' => ?_
  exact (settled_runElse h (by omega)).map _

theorem settled_runBlock (h : SettledBelow (weight .block ts) call call') :
    Settled 1 ts (runBlock call ts) (runBlock call' ts) := by
  refine Settled.weaken (k := 1 + 1) ?_ (by decide)
  exact (settled_take _ _ ts).andThen fun _ rest _ hlength =>
    h.shorter .statements rest hlength

theorem settled_runThen {p : Production α} {others : Production (List Stmt)}
    (h : SettledBelow (p.weight ts) call call')
    (hlength : us.length ≤ ts.length) (hrank : rank .statement < p.rank) :
    Settled 1 us (runThen call others us) (runThen call' others us) := by
  refine Settled.weaken (k := 1 + others.least) ?_ (Nat.le_add_right 1 _)
  -- the end of the statement may take nothing, but the statement before it does
  refine (h.lower .statement us hlength hrank).andThen (k := 1)
    fun s rest _ hlength' => ?_
  exact (h.shorter others rest (by omega)).map _

theorem settled_runStatements
    (h : SettledBelow (weight .statements ts) call call') :
    Settled 1 ts (runStatements call ts) (runStatements call' ts) := by
  have hskip := skipNewlines_suffix ts
  unfold runStatements
  split
  · exact .failed _
  · next t rest hts =>
      rw [hts] at hskip
      have hlength := hskip.length_le
      split
      · exact .done ((List.suffix_cons t rest).trans hskip) hlength
      split
      · exact (settled_runThen h hlength (by decide)).of_suffix hskip (by omega)
      · exact .failed _

theorem settled_runProgram (h : SettledBelow (weight .program ts) call call') :
    Settled 0 ts (runProgram call ts) (runProgram call' ts) := by
  have hskip := skipNewlines_suffix ts
  unfold runProgram
  split
  · exact .done (List.nil_suffix) (Nat.zero_le _)
  · next t rest hts =>
      rw [hts] at hskip
      have hlength := hskip.length_le
      exact (settled_runThen h hlength (by decide)).of_suffix hskip (by omega)

/-- A production is settled once everything lighter is. -/
theorem settled_body (p : Production α)
    (h : SettledBelow (p.weight ts) call call') :
    Settled p.least ts (p.body call ts) (p.body call' ts) := by
  cases p with
  | level k => exact settled_runLevel h
  | operations k left => exact settled_runOperations h
  | primary => exact settled_runPrimary h
  | call => exact settled_runCall h
  | arguments => exact settled_runArguments h
  | params => exact settled_runParams h
  | statement => exact settled_runStatement h
  | conditional => exact settled_runConditional h
  | block => exact settled_runBlock h
  | statements => exact settled_runStatements h
  | program => exact settled_runProgram h

end

/-- Every budget above its weight settles a production. -/
theorem settled_run {n m : Nat} (p : Production α) (ts : List Token)
    (hn : p.weight ts < n) (hm : p.weight ts < m) :
    Settled p.least ts (run n p ts) (run m p ts) := by
  -- both budgets go down together, and a lighter call still fits into what is
  -- left of each
  induction n generalizing m α ts with
  | zero => exact absurd hn (Nat.not_lt_zero _)
  | succ n ih =>
      cases m with
      | zero => exact absurd hm (Nat.not_lt_zero _)
      | succ m =>
          exact settled_body p
            fun β q us hlighter => ih q us (by omega) (by omega)

/-! ## Answers without a budget -/

/-- What a production answers when its budget is enough. -/
def answer ⦃α : Type⦄ (p : Production α) (ts : List Token) : Answer α :=
  run (p.weight ts + 1) p ts

theorem settled_answer (p : Production α) (ts : List Token) :
    Settled p.least ts (p.answer ts) (p.answer ts) :=
  settled_run p ts (Nat.lt_succ_self _) (Nat.lt_succ_self _)

theorem run_eq_answer {n : Nat} {p : Production α} {ts : List Token}
    (h : p.weight ts < n) : run n p ts = p.answer ts :=
  (settled_run p ts h (Nat.lt_succ_self _)).eq

/-- The productions call each other as if there were no budgets. -/
theorem answer_eq_body (p : Production α) (ts : List Token) :
    p.answer ts = p.body answer ts := by
  have hbelow : SettledBelow (p.weight ts) (run (p.weight ts)) answer :=
    fun β q us hlighter => settled_run q us hlighter (Nat.lt_succ_self _)
  exact (settled_body p hbelow).eq

/-! ## Positions -/

/-- The tokens `rest` are what `ts` holds from a position on, which is `i + k`
or a later one and not past the end. -/
def Onward (ts : List Token) (i k : Nat) (rest : List Token) : Prop :=
  ∃ j, rest = ts.drop j ∧ i + k ≤ j ∧ j ≤ ts.length

theorem onward_of_suffix {ts rest : List Token} {i k : Nat} (hi : i ≤ ts.length)
    (hsuffix : rest <:+ ts.drop i)
    (hlength : rest.length + k ≤ (ts.drop i).length) : Onward ts i k rest := by
  have hrest : rest = ts.drop (ts.length - rest.length) :=
    List.suffix_iff_eq_drop.1 (hsuffix.trans (List.drop_suffix i ts))
  rw [List.length_drop] at hlength
  exact ⟨ts.length - rest.length, hrest, by omega, Nat.sub_le _ _⟩

/-- A production that stood at position `i` fails, or is done `k` or more tokens
further on. -/
def Answer.MovesOn (ts : List Token) (i k : Nat) : Answer α → Prop
  | .spent => False
  | .failed _ => True
  | .done _ rest => Onward ts i k rest

theorem Settled.movesOn {ts : List Token} {i k : Nat} {o o' : Answer α}
    (h : Settled k (ts.drop i) o o') (hi : i ≤ ts.length) :
    o.MovesOn ts i k := by
  cases h with
  | failed f => trivial
  | done hsuffix hlength => exact onward_of_suffix hi hsuffix hlength

end Production

end Quill
