import Quill.Tree.Reader

/-!
# The grammar of programs

The language as a context-free grammar over tokens, written down with no reader
in mind. A nonterminal relates the tokens it derives to the tree they stand for:

    Program    = Body
    Body       = NL* [Statement (NL+ Statement)* NL*]
    Block      = '{' Body '}'
    Statement  = type Name '=' Expr
               | 'fun' Name '(' [type Name (',' type Name)*] ')' Block
               | Name '=' Expr
               | Call
               | 'return' [Expr]
               | 'if' IfTail
               | 'while' Expr Block
    IfTail     = Expr Block ElseTail
    ElseTail   = [NL* 'else' ('if' IfTail | Block)]
    Call       = Name '(' [Expr (',' Expr)*] ')'
    Expr       = Level 0
    Level n    = Level (n + 1) | Level n operator Level (n + 1)      for n < 6
    Level 6    = constant | Name | Call | '(' Expr ')'

Names, type words, operators and constants go into the tree as the tokens they
are, text and line included; of `return` only the line is kept. Everything else
leaves no trace in the tree, parentheses and line ends among it.
-/

namespace Quill

namespace Grammar

/-- The binary operators of each level, the loosest first. -/
def operators : Nat → List Symbol
  | 0 => [.orOr]
  | 1 => [.andAnd]
  | 2 => [.eqEq, .ne]
  | 3 => [.le, .ge, .gt, .lt]
  | 4 => [.plus, .minus]
  | 5 => [.star, .slash, .percent]
  | _ => []

mutual

/-- Operands joined by operators of level `n` and above. Those of level `n`
group to the left, so only the left operand may hold another one. -/
inductive Level : Nat → List Token → Expr → Prop
  | primary {ts : List Token} {e : Expr} : Primary ts e → Level 6 ts e
  | tighter {n : Nat} {ts : List Token} {e : Expr} :
      n < 6 → Level (n + 1) ts e → Level n ts e
  | binary {n : Nat} {ls rs : List Token} {l r : Expr} {op : Token}
      {s : Symbol} :
      Level n ls l → s ∈ operators n → op.kind = .symbol s →
        Level (n + 1) rs r →
      Level n (ls ++ op :: rs) (.binary op l r)

/-- An operand. -/
inductive Primary : List Token → Expr → Prop
  | literal (v : Literal) : Primary [v.token] (.literal v)
  | var (x : Ident) : Primary [x.token] (.var x)
  | call {ts : List Token} {f : Ident} {args : List Expr} :
      Call ts f args → Primary ts (.call f args)
  | group {lp rp : Token} {ts : List Token} {e : Expr} :
      lp.kind = .symbol .lparen → Level 0 ts e → rp.kind = .symbol .rparen →
      Primary (lp :: (ts ++ [rp])) e

/-- A name with its arguments. -/
inductive Call : List Token → Ident → List Expr → Prop
  | bare {f : Ident} {lp rp : Token} :
      lp.kind = .symbol .lparen → rp.kind = .symbol .rparen →
        Call [f.token, lp, rp] f []
  | applied {f : Ident} {lp rp : Token} {ts : List Token} {args : List Expr} :
      lp.kind = .symbol .lparen → Args ts args → rp.kind = .symbol .rparen →
      Call (f.token :: lp :: (ts ++ [rp])) f args

/-- One or more expressions with commas between them. -/
inductive Args : List Token → List Expr → Prop
  | one {ts : List Token} {e : Expr} : Level 0 ts e → Args ts [e]
  | more {c : Token} {ts us : List Token} {e : Expr} {es : List Expr} :
      Level 0 ts e → c.kind = .symbol .comma → Args us es →
        Args (ts ++ c :: us) (e :: es)

end

/-- One or more parameters with commas between them. -/
inductive Params : List Token → List Param → Prop
  | one (p : Param) : Params [p.type.token, p.name.token] [p]
  | more (p : Param) {c : Token} {ts : List Token} {ps : List Param} :
      c.kind = .symbol .comma → Params ts ps →
      Params (p.type.token :: p.name.token :: c :: ts) (p :: ps)

/-- The head of a function: everything before its body. -/
inductive FunctionHead : List Token → Ident → List Param → Prop
  | bare {fn lp rp : Token} {f : Ident} :
      fn.kind = .keyword .fun → lp.kind = .symbol .lparen →
        rp.kind = .symbol .rparen →
      FunctionHead [fn, f.token, lp, rp] f []
  | withParams {fn lp rp : Token} {f : Ident} {ts : List Token}
      {ps : List Param} :
      fn.kind = .keyword .fun → lp.kind = .symbol .lparen → Params ts ps →
      rp.kind = .symbol .rparen →
        FunctionHead (fn :: f.token :: lp :: (ts ++ [rp])) f ps

/-- Any number of line ends, none among it. -/
def Newlines (ts : List Token) : Prop :=
  ∀ t ∈ ts, t.kind = .newline

theorem newlines_nil : Newlines [] :=
  fun _ h => absurd h List.not_mem_nil

theorem newlines_singleton {t : Token} (h : t.kind = .newline) :
    Newlines [t] := by
  intro u hu
  rw [List.mem_singleton.1 hu]
  exact h

theorem Newlines.tail {t : Token} {ts : List Token} (h : Newlines (t :: ts)) :
    Newlines ts :=
  fun u hu => h u (List.mem_cons_of_mem t hu)

mutual

/-- Statements on lines of their own, with empty lines anywhere. -/
inductive Body : List Token → List Stmt → Prop
  | empty {nl : List Token} : Newlines nl → Body nl []
  | statements {before ts after : List Token} {ss : List Stmt} :
      Newlines before → Statements ts ss → Newlines after →
        Body (before ++ ts ++ after) ss

/-- One or more statements with line ends between them. -/
inductive Statements : List Token → List Stmt → Prop
  | one {ts : List Token} {s : Stmt} : Statement ts s → Statements ts [s]
  | more {ts nl us : List Token} {s : Stmt} {ss : List Stmt} :
      Statement ts s → Newlines nl → nl ≠ [] → Statements us ss →
      Statements (ts ++ nl ++ us) (s :: ss)

inductive Block : List Token → List Stmt → Prop
  | braces {lb rb : Token} {ts : List Token} {ss : List Stmt} :
      lb.kind = .symbol .lbrace → Body ts ss → rb.kind = .symbol .rbrace →
      Block (lb :: (ts ++ [rb])) ss

inductive Statement : List Token → Stmt → Prop
  | declare {eq : Token} {ty : TypeName} {x : Ident}
      {ts : List Token} {e : Expr} : eq.kind = .symbol .assign → Level 0 ts e →
      Statement (ty.token :: x.token :: eq :: ts) (.declare ty x e)
  | function {ts us : List Token} {f : Ident} {ps : List Param}
      {body : List Stmt} :
      FunctionHead ts f ps → Block us body →
        Statement (ts ++ us) (.function f ps body)
  | assign {eq : Token} {x : Ident} {ts : List Token} {e : Expr} :
      eq.kind = .symbol .assign → Level 0 ts e →
        Statement (x.token :: eq :: ts) (.assign x e)
  | call {ts : List Token} {f : Ident} {args : List Expr} :
      Call ts f args → Statement ts (.call f args)
  | leave {kw : Token} :
      kw.kind = .keyword .return → Statement [kw] (.ret kw.line none)
  | yield {kw : Token} {ts : List Token} {e : Expr} :
      kw.kind = .keyword .return → Level 0 ts e →
        Statement (kw :: ts) (.ret kw.line (some e))
  | cond {kw : Token} {ts : List Token} {c : Expr} {body : List Stmt}
      {next : ElseChain} :
      kw.kind = .keyword .if → IfTail ts c body next →
        Statement (kw :: ts) (.cond c body next)
  | loop {kw : Token} {ts us : List Token} {c : Expr} {body : List Stmt} :
      kw.kind = .keyword .while → Level 0 ts c → Block us body →
      Statement (kw :: (ts ++ us)) (.loop c body)

/-- What follows an `if`. -/
inductive IfTail : List Token → Expr → List Stmt → ElseChain → Prop
  | tail {ts us vs : List Token} {c : Expr} {body : List Stmt}
      {next : ElseChain} :
      Level 0 ts c → Block us body → ElseTail vs next →
        IfTail (ts ++ us ++ vs) c body next

/-- What follows the block of an `if`. The `else` may stand on a later line. -/
inductive ElseTail : List Token → ElseChain → Prop
  | none : ElseTail [] .none
  | elseIf {el kw : Token} {nl ts : List Token} {c : Expr} {body : List Stmt}
      {next : ElseChain} :
      Newlines nl → el.kind = .keyword .else → kw.kind = .keyword .if →
      IfTail ts c body next →
        ElseTail (nl ++ el :: kw :: ts) (.elseIf c body next)
  | otherwise {el : Token} {nl ts : List Token} {body : List Stmt} :
      Newlines nl → el.kind = .keyword .else → Block ts body →
      ElseTail (nl ++ el :: ts) (.otherwise body)

end

/-- The tokens `ts` spell the program `p`. -/
def Derives (ts : List Token) (p : Program) : Prop :=
  Body ts p

/-! ## Levels

The readers look an operator's level up; the grammar lists the operators of each
level. The two tables are one. -/

theorem level?_eq_some_iff {k : Token.Kind} {n : Nat} :
    k.level? = some n ↔ ∃ s ∈ operators n, k = .symbol s := by
  constructor
  · intro h
    unfold Token.Kind.level? at h
    split at h <;> cases h <;> exact ⟨_, by decide, rfl⟩
  · rintro ⟨s, hs, rfl⟩
    match n with
    | 0 | 1 | 2 | 3 | 4 | 5 =>
        simp only [operators, List.mem_cons, List.not_mem_nil, or_false] at hs
        rcases hs with rfl | rfl | rfl | rfl <;> rfl
    | n + 6 => cases hs

theorem level?_le {k : Token.Kind} {n : Nat} (h : k.level? = some n) :
    n ≤ 5 := by
  unfold Token.Kind.level? at h
  split at h <;> cases h <;> decide

/-- What binds tightly may stand where something looser may. -/
theorem Level.lower {n m : Nat} {ts : List Token} {e : Expr} (h : Level m ts e)
    (hnm : n ≤ m) (hm : m ≤ 6) : Level n ts e := by
  obtain ⟨k, rfl⟩ := Nat.exists_eq_add_of_le hnm
  induction k with
  | zero => exact h
  | succ k ih => exact ih (.tighter (by omega) h) (by omega) (by omega)

/-! ## First tokens

One token ahead decides every choice of the grammar, because what an expression
or a statement begins with is neither an operator nor anything that ends one. -/

/-- The kinds that an expression can begin with. -/
def startsOperand : Token.Kind → Bool
  | .string | .integer | .name | .symbol .lparen => true
  | .keyword .trueWord | .keyword .falseWord | .keyword .nullWord => true
  | _ => false

/-- The kinds that a statement can begin with. -/
def startsStatement : Token.Kind → Bool
  | .keyword .int | .keyword .str | .keyword .bool | .keyword .fun | .name =>
    true
  | .keyword .return | .keyword .if | .keyword .while => true
  | _ => false

/-- A token that can begin something is none of a kind that cannot. -/
theorem kind_ne_of_starts {starts : Token.Kind → Bool} {k k' : Token.Kind}
    (h : starts k = true) (h' : starts k' = false) : k ≠ k' := by
  rintro rfl
  rw [h] at h'
  cases h'

theorem startsOperand_literal (v : Literal) :
    startsOperand v.token.kind = true := by
  obtain ⟨tag, text, line⟩ := v
  match tag with
  | .int | .str | .null | .bool true | .bool false => rfl

theorem startsStatement_typeName (ty : TypeName) :
    startsStatement ty.token.kind = true := by
  obtain ⟨type, text, line⟩ := ty
  cases type <;> rfl

theorem Call.head {ts : List Token} {f : Ident} {args : List Expr}
    (h : Call ts f args) : ∃ us, ts = f.token :: us := by
  cases h with
  | bare => exact ⟨_, rfl⟩
  | applied => exact ⟨_, rfl⟩

theorem Primary.head {ts : List Token} {e : Expr} (h : Primary ts e) :
    ∃ t us, ts = t :: us ∧ startsOperand t.kind = true := by
  cases h with
  | literal v => exact ⟨_, _, rfl, startsOperand_literal v⟩
  | var x => exact ⟨_, _, rfl, rfl⟩
  | call hc =>
      obtain ⟨us, rfl⟩ := hc.head
      exact ⟨_, _, rfl, rfl⟩
  | group hlp _ _ => exact ⟨_, _, rfl, by rw [hlp]; rfl⟩

theorem Level.head {n : Nat} {ts : List Token} {e : Expr} (h : Level n ts e) :
    ∃ t us, ts = t :: us ∧ startsOperand t.kind = true := by
  match h with
  | .primary hp => exact hp.head
  | .tighter _ h => exact Level.head h
  | .binary hl _ _ _ =>
      obtain ⟨t, us, rfl, ht⟩ := Level.head hl
      exact ⟨t, _, rfl, ht⟩

theorem Args.head {ts : List Token} {es : List Expr} (h : Args ts es) :
    ∃ t us, ts = t :: us ∧ startsOperand t.kind = true := by
  cases h with
  | one he => exact he.head
  | more he _ _ =>
      obtain ⟨t, us, rfl, ht⟩ := he.head
      exact ⟨t, _, rfl, ht⟩

theorem Statement.head {ts : List Token} {s : Stmt} (h : Statement ts s) :
    ∃ t us, ts = t :: us ∧ startsStatement t.kind = true := by
  cases h with
  | declare => exact ⟨_, _, rfl, startsStatement_typeName _⟩
  | function hf _ =>
      cases hf with
      | bare hfn _ _ => exact ⟨_, _, rfl, by rw [hfn]; rfl⟩
      | withParams hfn _ _ _ => exact ⟨_, _, rfl, by rw [hfn]; rfl⟩
  | assign => exact ⟨_, _, rfl, rfl⟩
  | call hc =>
      obtain ⟨us, rfl⟩ := hc.head
      exact ⟨_, _, rfl, rfl⟩
  | leave hkw => exact ⟨_, _, rfl, by rw [hkw]; rfl⟩
  | yield hkw _ => exact ⟨_, _, rfl, by rw [hkw]; rfl⟩
  | cond hkw _ => exact ⟨_, _, rfl, by rw [hkw]; rfl⟩
  | loop hkw _ _ => exact ⟨_, _, rfl, by rw [hkw]; rfl⟩

end Grammar

/-! ## What a tree keeps

The tokens in a tree, in the order of the text. A derivation puts them there
unchanged, so they are tokens of the text in the text's own order. -/

mutual

def Expr.tokens : Expr → List Token
  | .literal v => [v.token]
  | .var x => [x.token]
  | .binary op l r => l.tokens ++ op :: r.tokens
  | .call f args => f.token :: Expr.listTokens args

def Expr.listTokens : List Expr → List Token
  | [] => []
  | e :: es => e.tokens ++ Expr.listTokens es

end

def Param.tokens (p : Param) : List Token :=
  [p.type.token, p.name.token]

mutual

def Stmt.tokens : Stmt → List Token
  | .declare ty x init => ty.token :: x.token :: init.tokens
  | .function f params body =>
    f.token :: (params.flatMap Param.tokens ++ Stmt.listTokens body)
  | .assign x value => x.token :: value.tokens
  | .ret _ none => []
  | .ret _ (some value) => value.tokens
  | .cond c body next => c.tokens ++ Stmt.listTokens body ++ next.tokens
  | .loop c body => c.tokens ++ Stmt.listTokens body
  | .call f args => f.token :: Expr.listTokens args

def Stmt.listTokens : List Stmt → List Token
  | [] => []
  | s :: ss => s.tokens ++ Stmt.listTokens ss

def ElseChain.tokens : ElseChain → List Token
  | .none => []
  | .elseIf c body next => c.tokens ++ Stmt.listTokens body ++ next.tokens
  | .otherwise body => Stmt.listTokens body

end

namespace Grammar

mutual

theorem Level.tokens_sublist {n : Nat} {ts : List Token} {e : Expr}
    (h : Level n ts e) : e.tokens.Sublist ts := by
  match h with
  | .primary hp => exact Primary.tokens_sublist hp
  | .tighter _ h => exact Level.tokens_sublist h
  | @Level.binary n ls rs l r op s hl _ _ hr =>
      rw [Expr.tokens]
      exact (Level.tokens_sublist hl).append
        ((Level.tokens_sublist hr).cons_cons op)

theorem Primary.tokens_sublist {ts : List Token} {e : Expr} (h : Primary ts e) :
    e.tokens.Sublist ts := by
  match h with
  | .literal v => exact .refl _
  | .var x => exact .refl _
  | .call hc => rw [Expr.tokens]; exact Call.tokens_sublist hc
  | .group _ he _ =>
      exact ((Level.tokens_sublist he).trans
        (List.sublist_append_left _ _)).cons _

theorem Call.tokens_sublist {ts : List Token} {f : Ident} {args : List Expr}
    (h : Call ts f args) : (f.token :: Expr.listTokens args).Sublist ts := by
  match h with
  | .bare _ _ => exact (List.nil_sublist _).cons_cons _
  | .applied _ hargs _ =>
      have hsub := Args.tokens_sublist hargs
      exact ((hsub.trans (List.sublist_append_left _ _)).cons _).cons_cons _

theorem Args.tokens_sublist {ts : List Token} {es : List Expr}
    (h : Args ts es) : (Expr.listTokens es).Sublist ts := by
  match h with
  | .one he =>
      rw [Expr.listTokens, Expr.listTokens, List.append_nil]
      exact Level.tokens_sublist he
  | .more he _ hrest =>
      rw [Expr.listTokens]
      exact (Level.tokens_sublist he).append
        ((Args.tokens_sublist hrest).cons _)

end

theorem Params.tokens_sublist {ts : List Token} {ps : List Param}
    (h : Params ts ps) : (ps.flatMap Param.tokens).Sublist ts := by
  induction h with
  | one p => exact .refl _
  | more p _ _ ih => exact ((ih.cons _).cons_cons _).cons_cons _

theorem FunctionHead.tokens_sublist {ts : List Token} {f : Ident}
    {ps : List Param} (h : FunctionHead ts f ps) :
    (f.token :: ps.flatMap Param.tokens).Sublist ts := by
  cases h with
  | bare => exact ((List.nil_sublist _).cons_cons _).cons _
  | withParams _ _ hps _ =>
      have hsub := hps.tokens_sublist
      exact (((hsub.trans (List.sublist_append_left _ _)).cons _).cons_cons
        _).cons _

mutual

theorem Body.tokens_sublist {ts : List Token} {ss : List Stmt}
    (h : Body ts ss) : (Stmt.listTokens ss).Sublist ts := by
  match h with
  | .empty _ =>
      rw [Stmt.listTokens]
      exact List.nil_sublist _
  | .statements _ hss _ =>
      have hsub := Statements.tokens_sublist hss
      exact (hsub.trans (List.sublist_append_right _ _)).trans
        (List.sublist_append_left _ _)

theorem Statements.tokens_sublist {ts : List Token} {ss : List Stmt}
    (h : Statements ts ss) : (Stmt.listTokens ss).Sublist ts := by
  match h with
  | .one hs =>
      rw [Stmt.listTokens, Stmt.listTokens, List.append_nil]
      exact Statement.tokens_sublist hs
  | .more hs _ _ hss =>
      rw [Stmt.listTokens]
      have hhead := Statement.tokens_sublist hs
      exact (hhead.trans (List.sublist_append_left _ _)).append
        (Statements.tokens_sublist hss)

theorem Block.tokens_sublist {ts : List Token} {ss : List Stmt}
    (h : Block ts ss) : (Stmt.listTokens ss).Sublist ts := by
  match h with
  | .braces _ hbody _ =>
      exact ((Body.tokens_sublist hbody).trans
        (List.sublist_append_left _ _)).cons _

theorem Statement.tokens_sublist {ts : List Token} {s : Stmt}
    (h : Statement ts s) : s.tokens.Sublist ts := by
  match h with
  | .declare _ he =>
      rw [Stmt.tokens]
      exact (((Level.tokens_sublist he).cons _).cons_cons _).cons_cons _
  | .function hf hbody =>
      rw [Stmt.tokens, ← List.cons_append]
      exact hf.tokens_sublist.append (Block.tokens_sublist hbody)
  | .assign _ he =>
      rw [Stmt.tokens]
      exact ((Level.tokens_sublist he).cons _).cons_cons _
  | .call hc =>
      rw [Stmt.tokens]
      exact hc.tokens_sublist
  | .leave _ =>
      rw [Stmt.tokens]
      exact List.nil_sublist _
  | .yield _ he =>
      rw [Stmt.tokens]
      exact (Level.tokens_sublist he).cons _
  | .cond _ htail =>
      rw [Stmt.tokens]
      exact (IfTail.tokens_sublist htail).cons _
  | .loop _ hc hbody =>
      rw [Stmt.tokens]
      exact ((Level.tokens_sublist hc).append (Block.tokens_sublist hbody)).cons
        _

theorem IfTail.tokens_sublist {ts : List Token} {c : Expr} {body : List Stmt}
    {next : ElseChain} (h : IfTail ts c body next) :
    (c.tokens ++ Stmt.listTokens body ++ next.tokens).Sublist ts := by
  match h with
  | .tail hc hbody hnext =>
      have hhead :=
        (Level.tokens_sublist hc).append (Block.tokens_sublist hbody)
      exact hhead.append (ElseTail.tokens_sublist hnext)

theorem ElseTail.tokens_sublist {ts : List Token} {next : ElseChain}
    (h : ElseTail ts next) : next.tokens.Sublist ts := by
  match h with
  | .none => exact .refl _
  | .elseIf _ _ _ htail =>
      rw [ElseChain.tokens]
      have hsub := IfTail.tokens_sublist htail
      exact ((hsub.cons _).cons _).trans (List.sublist_append_right _ _)
  | .otherwise _ _ hbody =>
      rw [ElseChain.tokens]
      exact ((Block.tokens_sublist hbody).cons _).trans
        (List.sublist_append_right _ _)

end

end Grammar

end Quill
