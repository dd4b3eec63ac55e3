import Quill.Proofs.Derivable
import Quill.Proofs.ViablePrefix

/-!
# Programs as tokens

A tree is written out as tokens with as few parentheses as its operators allow:
an operand stands in parentheses only where its own operator binds too loosely
for its place. That is a place for operators at least as tight as the parent's
on the left, and strictly tighter ones on the right, because equal operators
group to the left. Statements stand on lines of their own, and blocks open and
close on lines of their own.

What is written out is derived by the grammar, production by production, and so
it is read back as the tree it was written from. The tree decides every token
that it keeps, text and line included; the tokens that leave no trace in a tree
are written in their own spelling on line 1. No text of an expression is shorter
than the one written here.
-/

namespace Quill

open Grammar

/-! ## Writing -/

def Keyword.token (k : Keyword) : Token :=
  ⟨.keyword k, k.spelling, 1⟩

/-- The end of a line. -/
def lineEnd : Token :=
  ⟨.newline, "\n", 1⟩

/-- The level of a binary operator; other tokens count as operands. -/
def Token.level (op : Token) : Nat :=
  op.kind.level?.getD 6

/-- How tightly an expression holds together. -/
def Expr.level : Expr → Nat
  | .binary op _ _ => op.level
  | .literal _ | .var _ | .call _ _ => 6

def inParens (ts : List Token) : List Token :=
  Symbol.lparen.token :: (ts ++ [Symbol.rparen.token])

/-- The tokens `ts` of an expression of level `level`, in parentheses if the
place is for level `n` and above and the expression is looser. -/
def parenthesized (n level : Nat) (ts : List Token) : List Token :=
  if level < n then inParens ts else ts

/-- Where every expression fits, none stands in parentheses. -/
theorem parenthesized_zero (level : Nat) (ts : List Token) :
    parenthesized 0 level ts = ts :=
  if_neg (Nat.not_lt_zero level)

mutual

def Expr.print : Expr → List Token
  | .literal v => [v.token]
  | .var x => [x.token]
  | .binary op l r =>
    parenthesized op.level l.level l.print ++ op :: parenthesized (op.level + 1)
      r.level r.print
  | .call f args => f.token :: inParens (Expr.printArgs args)

/-- Expressions with a comma between them. -/
def Expr.printArgs : List Expr → List Token
  | [] => []
  | [e] => e.print
  | e :: es => e.print ++ Symbol.comma.token :: Expr.printArgs es

end

theorem Expr.printArgs_cons (e : Expr) {es : List Expr} (h : es ≠ []) :
    Expr.printArgs (e :: es) =
      e.print ++ Symbol.comma.token :: Expr.printArgs es := by
  rw [Expr.printArgs]
  exact h

/-- Parameters with a comma between them. -/
def Param.printList : List Param → List Token
  | [] => []
  | [p] => p.tokens
  | p :: ps => p.tokens ++ Symbol.comma.token :: Param.printList ps

/-- A block around the tokens of its statements. -/
def inBraces (ts : List Token) : List Token :=
  Symbol.lbrace.token :: lineEnd :: (ts ++ [lineEnd, Symbol.rbrace.token])

mutual

def Stmt.print : Stmt → List Token
  | .declare ty x init =>
    ty.token :: x.token :: Symbol.assign.token :: init.print
  | .function f params body =>
    Keyword.fun.token :: f.token :: (inParens (Param.printList params) ++
      inBraces (Stmt.printList body))
  | .assign x value => x.token :: Symbol.assign.token :: value.print
  | .ret line none => [{ Keyword.return.token with line }]
  | .ret line (some value) => { Keyword.return.token with line } :: value.print
  | .cond c body next =>
    Keyword.if.token ::
      (c.print ++ inBraces (Stmt.printList body) ++ next.print)
  | .loop c body =>
    Keyword.while.token :: (c.print ++ inBraces (Stmt.printList body))
  | .call f args => f.token :: inParens (Expr.printArgs args)

/-- Statements with a line end between them. -/
def Stmt.printList : List Stmt → List Token
  | [] => []
  | [s] => s.print
  | s :: ss => s.print ++ lineEnd :: Stmt.printList ss

def ElseChain.print : ElseChain → List Token
  | .none => []
  | .elseIf c body next =>
    Keyword.else.token :: Keyword.if.token ::
      (c.print ++ inBraces (Stmt.printList body) ++ next.print)
  | .otherwise body => Keyword.else.token :: inBraces (Stmt.printList body)

end

theorem Stmt.printList_cons (s : Stmt) {ss : List Stmt} (h : ss ≠ []) :
    Stmt.printList (s :: ss) = s.print ++ lineEnd :: Stmt.printList ss := by
  rw [Stmt.printList]
  exact h

def Program.print (p : Program) : List Token :=
  Stmt.printList p

/-! ## The operators of a tree -/

mutual

def Expr.operators : Expr → List Token
  | .literal _ | .var _ => []
  | .binary op l r => op :: (l.operators ++ r.operators)
  | .call _ args => Expr.listOperators args

def Expr.listOperators : List Expr → List Token
  | [] => []
  | e :: es => e.operators ++ Expr.listOperators es

end

mutual

def Stmt.operators : Stmt → List Token
  | .declare _ _ e | .assign _ e | .ret _ (some e) => e.operators
  | .ret _ none => []
  | .function _ _ body => Stmt.listOperators body
  | .cond c body next =>
    c.operators ++ Stmt.listOperators body ++ next.operators
  | .loop c body => c.operators ++ Stmt.listOperators body
  | .call _ args => Expr.listOperators args

def Stmt.listOperators : List Stmt → List Token
  | [] => []
  | s :: ss => s.operators ++ Stmt.listOperators ss

def ElseChain.operators : ElseChain → List Token
  | .none => []
  | .elseIf c body next =>
    c.operators ++ Stmt.listOperators body ++ next.operators
  | .otherwise body => Stmt.listOperators body

end

/-- All of these tokens are binary operators. -/
def AllBinary (ops : List Token) : Prop :=
  ∀ op ∈ ops, op.kind.level? ≠ none

theorem AllBinary.left {ops ops' : List Token} (h : AllBinary (ops ++ ops')) :
    AllBinary ops :=
  fun op hop => h op (List.mem_append_left ops' hop)

theorem AllBinary.right {ops ops' : List Token} (h : AllBinary (ops ++ ops')) :
    AllBinary ops' :=
  fun op hop => h op (List.mem_append_right ops hop)

theorem AllBinary.tail {op : Token} {ops : List Token}
    (h : AllBinary (op :: ops)) : AllBinary ops :=
  fun op' hop => h op' (List.mem_cons_of_mem op hop)

/-! ## Expressions are derived -/

theorem Token.level?_eq {op : Token} (h : op.kind.level? ≠ none) :
    op.kind.level? = some op.level := by
  obtain ⟨n, hn⟩ := Option.ne_none_iff_exists'.1 h
  rw [level, hn]
  rfl

theorem Token.level_le {op : Token} (h : op.kind.level? ≠ none) :
    op.level ≤ 5 :=
  level?_le (level?_eq h)

theorem Grammar.Primary.inParens {ts : List Token} {e : Expr}
    (h : Level 0 ts e) : Primary (inParens ts) e :=
  .group rfl h rfl

/-- In parentheses or not, an expression fits its place. -/
theorem Grammar.Level.parenthesized {n k : Nat} {ts : List Token} {e : Expr}
    (h : Level k ts e) (hk : k ≤ 6) (hn : n ≤ 6) :
    Level n (parenthesized n k ts) e := by
  unfold Quill.parenthesized
  split
  · have hp : Primary (Quill.inParens ts) e :=
      .inParens (h.lower (Nat.zero_le k) hk)
    exact (Level.primary hp).lower hn (Nat.le_refl 6)
  · next hlt => exact h.lower (by omega) hk

mutual

theorem Expr.level_print (e : Expr) (h : AllBinary e.operators) :
    e.level ≤ 6 ∧ Level e.level e.print e := by
  match e with
  | .literal v => exact ⟨Nat.le_refl 6, .primary (.literal v)⟩
  | .var x => exact ⟨Nat.le_refl 6, .primary (.var x)⟩
  | .binary op l r =>
      rw [Expr.operators] at h
      have hop : op.kind.level? ≠ none := h op List.mem_cons_self
      have hle := Token.level_le hop
      obtain ⟨s, hs, hkind⟩ := level?_eq_some_iff.1 (Token.level?_eq hop)
      obtain ⟨hl, hleft⟩ := Expr.level_print l h.tail.left
      obtain ⟨hr, hright⟩ := Expr.level_print r h.tail.right
      refine ⟨by rw [Expr.level]; omega, ?_⟩
      rw [Expr.level, Expr.print]
      exact .binary (hleft.parenthesized hl (by omega)) hs hkind
        (hright.parenthesized hr (by omega))
  | .call f args =>
      rw [Expr.operators] at h
      rw [Expr.level, Expr.print]
      exact ⟨Nat.le_refl 6, .primary (.call (Expr.call_print f args h))⟩

theorem Expr.call_print (f : Ident) (args : List Expr)
    (h : AllBinary (Expr.listOperators args)) :
    Call (f.token :: inParens (Expr.printArgs args)) f args := by
  by_cases hne : args = []
  · subst hne
    exact .bare rfl rfl
  · exact .applied rfl (Expr.args_print args hne h) rfl

theorem Expr.args_print (es : List Expr) (hne : es ≠ [])
    (h : AllBinary (Expr.listOperators es)) : Args (Expr.printArgs es) es := by
  match es with
  | [] => exact absurd rfl hne
  | e :: es =>
      rw [Expr.listOperators] at h
      obtain ⟨hle, hlevel⟩ := Expr.level_print e h.left
      have hfirst : Level 0 e.print e := hlevel.lower (Nat.zero_le _) hle
      by_cases hes : es = []
      · subst hes
        exact .one hfirst
      · rw [Expr.printArgs_cons e hes]
        exact .more hfirst rfl (Expr.args_print es hes h.right)

end

theorem Expr.print_derived (e : Expr) (h : AllBinary e.operators) :
    Level 0 e.print e := by
  obtain ⟨hle, hlevel⟩ := e.level_print h
  exact hlevel.lower (Nat.zero_le _) hle

/-! ## Statements are derived -/

theorem Param.params_print (p : Param) (ps : List Param) :
    Params (Param.printList (p :: ps)) (p :: ps) := by
  induction ps generalizing p with
  | nil => exact .one p
  | cons q qs ih => exact .more p rfl (ih q)

theorem Param.functionHead_print (f : Ident) (params : List Param) :
    FunctionHead
      (Keyword.fun.token :: f.token :: inParens (Param.printList params))
      f params := by
  cases params with
  | nil => exact .bare rfl rfl rfl
  | cons p ps => exact .withParams rfl rfl (Param.params_print p ps) rfl

/-- The body of a block has a line end in front of it and behind it. -/
theorem Grammar.Block.inBraces {ts : List Token} {body : List Stmt}
    (h : Body (lineEnd :: (ts ++ [lineEnd])) body) :
    Block (inBraces ts) body := by
  have hblock : Block
      (Symbol.lbrace.token ::
        (lineEnd :: (ts ++ [lineEnd]) ++ [Symbol.rbrace.token])) body :=
    .braces rfl h rfl
  simpa [Quill.inBraces] using hblock

mutual

theorem Stmt.statement_print (s : Stmt) (h : AllBinary s.operators) :
    Statement s.print s := by
  match s with
  | .declare ty x init =>
      rw [Stmt.operators] at h
      rw [Stmt.print]
      exact .declare rfl (init.print_derived h)
  | .function f params body =>
      rw [Stmt.operators] at h
      rw [Stmt.print]
      exact .function (Param.functionHead_print f params)
        (Stmt.block_print body h)
  | .assign x value =>
      rw [Stmt.operators] at h
      rw [Stmt.print]
      exact .assign rfl (value.print_derived h)
  | .ret line none => exact .leave rfl
  | .ret line (some value) =>
      rw [Stmt.operators] at h
      rw [Stmt.print]
      exact .yield rfl (value.print_derived h)
  | .cond c body next =>
      rw [Stmt.operators] at h
      rw [Stmt.print]
      exact .cond rfl
        (.tail (c.print_derived h.left.left)
          (Stmt.block_print body h.left.right)
          (ElseChain.elseTail_print next h.right))
  | .loop c body =>
      rw [Stmt.operators] at h
      rw [Stmt.print]
      exact .loop rfl (c.print_derived h.left) (Stmt.block_print body h.right)
  | .call f args =>
      rw [Stmt.operators] at h
      rw [Stmt.print]
      exact .call (Expr.call_print f args h)

theorem Stmt.statements_print (ss : List Stmt) (hne : ss ≠ [])
    (h : AllBinary (Stmt.listOperators ss)) :
    Statements (Stmt.printList ss) ss := by
  match ss with
  | [] => exact absurd rfl hne
  | s :: ss =>
      rw [Stmt.listOperators] at h
      have hfirst := Stmt.statement_print s h.left
      by_cases hss : ss = []
      · subst hss
        exact .one hfirst
      · have hrest := Stmt.statements_print ss hss h.right
        have hall :=
          Statements.more hfirst
            (newlines_singleton (t := lineEnd) rfl) nofun hrest
        rwa [List.append_assoc, List.singleton_append,
          ← Stmt.printList_cons s hss] at hall

theorem Stmt.block_print (body : List Stmt)
    (h : AllBinary (Stmt.listOperators body)) :
    Block (inBraces (Stmt.printList body)) body := by
  by_cases hne : body = []
  · subst hne
    refine .inBraces (.empty fun t ht => ?_)
    have hline : t = lineEnd := by simpa [Stmt.printList] using ht
    rw [hline]
    rfl
  · have hline := newlines_singleton (t := lineEnd) rfl
    exact .inBraces (.statements hline (Stmt.statements_print body hne h) hline)

theorem ElseChain.elseTail_print (next : ElseChain)
    (h : AllBinary next.operators) : ElseTail next.print next := by
  match next with
  | .none => exact .none
  | .elseIf c body next =>
      rw [ElseChain.operators] at h
      rw [ElseChain.print]
      exact .elseIf newlines_nil rfl rfl
        (.tail (c.print_derived h.left.left)
          (Stmt.block_print body h.left.right)
          (ElseChain.elseTail_print next h.right))
  | .otherwise body =>
      rw [ElseChain.operators] at h
      rw [ElseChain.print]
      exact .otherwise newlines_nil rfl (Stmt.block_print body h)

end

theorem Program.derives_print (p : Program)
    (h : AllBinary (Stmt.listOperators p)) : Derives p.print p := by
  by_cases hne : p = []
  · subst hne
    exact Body.empty newlines_nil
  · have hbody :=
      Body.statements newlines_nil (Stmt.statements_print p hne h) newlines_nil
    rwa [List.nil_append, List.append_nil] at hbody

/-! ## No shorter text

A derivation can have parentheses that are not needed, but none can do without
those that are written: an operand that is too loose for its place is derived
there as a group. -/

theorem length_inParens (ts : List Token) :
    (inParens ts).length = ts.length + 2 := by
  simp [inParens]

theorem length_parenthesized_mono {n m k : Nat} (h : n ≤ m) (ts : List Token) :
    (parenthesized n k ts).length ≤ (parenthesized m k ts).length := by
  unfold parenthesized
  by_cases hn : k < n
  · have hm : k < m := by omega
    exact Nat.le_of_eq (by rw [if_pos hn, if_pos hm])
  · rw [if_neg hn]
    by_cases hm : k < m
    · rw [if_pos hm, length_inParens]
      omega
    · exact Nat.le_of_eq (by rw [if_neg hm])

theorem length_parenthesized_le (n k : Nat) (ts : List Token) :
    (parenthesized n k ts).length ≤ ts.length + 2 := by
  unfold parenthesized
  split
  · exact Nat.le_of_eq (length_inParens ts)
  · omega

mutual

theorem Grammar.Level.length_print_le {n : Nat} {ts : List Token} {e : Expr}
    (h : Level n ts e) :
    (parenthesized n e.level e.print).length ≤ ts.length := by
  match h with
  | .primary hp => exact Grammar.Primary.length_print_le hp
  | .tighter _ h =>
      exact Nat.le_trans (length_parenthesized_mono (Nat.le_succ n) _)
        (Grammar.Level.length_print_le h)
  | @Level.binary n ls rs l r op s hl hs hop hr =>
      have hlevel : op.level = n := by
        rw [Token.level, level?_eq_some_iff.2 ⟨s, hs, hop⟩]
        rfl
      have hleft := Grammar.Level.length_print_le hl
      have hright := Grammar.Level.length_print_le hr
      rw [Expr.level, Expr.print, hlevel, parenthesized,
        if_neg (Nat.lt_irrefl n)]
      simp only [List.length_append, List.length_cons]
      omega

theorem Grammar.Primary.length_print_le {ts : List Token} {e : Expr}
    (h : Primary ts e) :
    (parenthesized 6 e.level e.print).length ≤ ts.length := by
  match h with
  | .literal v => exact Nat.le_refl 1
  | .var x => exact Nat.le_refl 1
  | .call hc =>
      have hcall := Grammar.Call.length_print_le hc
      rwa [Expr.level, parenthesized, if_neg (Nat.lt_irrefl 6), Expr.print]
  | @Primary.group lp rp ts e _ he _ =>
      have hinner := Grammar.Level.length_print_le he
      rw [parenthesized_zero] at hinner
      have hle := length_parenthesized_le 6 e.level e.print
      simp only [List.length_cons, List.length_append, List.length_nil]
      omega

theorem Grammar.Call.length_print_le {ts : List Token} {f : Ident}
    {args : List Expr} (h : Call ts f args) :
    (f.token :: inParens (Expr.printArgs args)).length ≤ ts.length := by
  match h with
  | .bare _ _ => exact Nat.le_refl 3
  | .applied _ hargs _ =>
      have hall := Grammar.Args.length_print_le hargs
      simp only [List.length_cons, length_inParens, List.length_append,
        List.length_nil]
      omega

theorem Grammar.Args.length_print_le {ts : List Token} {es : List Expr}
    (h : Args ts es) : (Expr.printArgs es).length ≤ ts.length := by
  match h with
  | .one he =>
      have hfirst := Grammar.Level.length_print_le he
      rwa [parenthesized_zero] at hfirst
  | @Args.more c ts us e es he _ hrest =>
      have hfirst := Grammar.Level.length_print_le he
      rw [parenthesized_zero] at hfirst
      have htail := Grammar.Args.length_print_le hrest
      have hne : es ≠ [] := by
        rintro rfl
        cases hrest
      rw [Expr.printArgs_cons e hne]
      simp only [List.length_append, List.length_cons]
      omega

end

/-- Every program whose operators are binary operators is read back from the
tokens it is written as, every text and line included; and no text of an
expression is shorter than the one that it is written as. -/
theorem ofTokens_print {p : Program} (h : AllBinary (Stmt.listOperators p)) :
    Program.ofTokens p.print = .ok p ∧
      ∀ e ts, Level 0 ts e → e.print.length ≤ ts.length := by
  refine ⟨Derives.ofTokens_eq_ok (p.derives_print h), fun e ts he => ?_⟩
  have hle := he.length_print_le
  rwa [parenthesized_zero] at hle

/-- `a - b * c - (d - e)` as a condition with an `else if` behind it: of its
four operators only the last needs parentheses. -/
theorem ofTokens_print_else_if :
    ∃ p : Program,
      p = [.cond
        (.binary ⟨.symbol .minus, "-", 7⟩
          (.binary ⟨.symbol .minus, "-", 5⟩ (.var ⟨"a", 3⟩)
            (.binary ⟨.symbol .star, "*", 4⟩ (.var ⟨"b", 0⟩) (.var ⟨"c", 9⟩)))
          (.binary ⟨.symbol .minus, "-", 2⟩ (.var ⟨"d", 8⟩) (.var ⟨"e", 6⟩)))
        [] (.elseIf (.literal ⟨.bool true, "no", 1⟩) [.ret 5 none, .ret 4 none]
          .none)] ∧
      (p.print.filter (·.kind = .symbol .lparen)).length = 1 ∧
      Program.ofTokens p.print = .ok p := by
  refine ⟨_, rfl, by decide, (ofTokens_print ?_).1⟩
  unfold AllBinary
  decide

end Quill
