import Quill.Proofs.Reading

/-!
# What the grammar derives is read

Every derivation is followed by the readers token by token, and the tree it
derives is the tree they build. The proofs are inductions over derivations, one
case per production, and each says where its tokens take a reader that stands in
front of them, whatever it has read before.

For an expression of level `n` the state in front may hold waiting operators,
all looser than `n`. Behind it the same operators wait, with operators of level
`n` and above on top that a fold to level `n` turns into the derived tree. This
is what carries left associativity through the induction: the left operand of a
binary production is folded when its operator comes, and the right one, a level
tighter, is folded with it.
-/

namespace Quill

open Grammar

/-! ## Expressions -/

namespace ExprReader

theorem step_literal (v : Literal) (ps : List Pending)
    (nested : List (Opening × List Pending)) :
    step ⟨ps, nested, .operand⟩ v.token =
      .ok (.reading ⟨ps, nested, .value (.literal v)⟩) := by
  simp only [step, takeOperand, Literal.ofToken?_eq_some_iff.2 rfl]
  rfl

theorem step_name (x : Ident) (ps : List Pending)
    (nested : List (Opening × List Pending)) :
    step ⟨ps, nested, .operand⟩ x.token =
      .ok (.reading ⟨ps, nested, .name x⟩) :=
  rfl

theorem step_group {lp : Token} (hlp : lp.kind = .symbol .lparen)
    (ps : List Pending) (nested : List (Opening × List Pending)) :
    step ⟨ps, nested, .operand⟩ lp =
      .ok (.reading ⟨[], (.group, ps) :: nested, .operand⟩) := by
  simp only [step, takeOperand, Literal.ofToken?, Literal.Tag.ofTokenKind?, hlp]
  rfl

/-- The first argument is read as if its list had been opened for it. -/
theorem step_arguments {f : Ident} {t : Token}
    (ht : startsOperand t.kind = true) (ps : List Pending)
    (nested : List (Opening × List Pending)) :
    step ⟨ps, nested, .arguments f⟩ t =
      step ⟨[], (.call f [], ps) :: nested, .operand⟩ t := by
  have hrp : t.kind ≠ .symbol .rparen := kind_ne_of_starts ht rfl
  simp only [step]

end ExprReader

/-- Behind an expression of level `n` that is `e`: the operators `ps` wait as
before, and folding to level `n` gives `e`. -/
structure ExprReader.Behind (n : Nat) (ps : List Pending)
    (nested : List (Opening × List Pending)) (e : Expr) (r : ExprReader) :
    Prop where
  nested : r.nested = nested
  operand : ∃ v, r.focus.operand? = some v ∧
    Pending.fold n r.pending v = (ps, e)

theorem ExprReader.Behind.complete {e : Expr} {r : ExprReader}
    (h : r.Behind 0 [] [] e) : r.Complete e := by
  obtain ⟨hnested, v, hv, hfold⟩ := h
  exact ⟨hnested, v, hv, by rw [hfold]⟩

/-- After a whole nested expression, what its layer does is decided by its tree
alone. -/
theorem ExprReader.Behind.takeAfter {e : Expr}
    {nested : List (Opening × List Pending)} {r : ExprReader}
    (h : r.Behind 0 [] nested e) {t : Token} (hlevel : t.kind.level? = none)
    (ht : t.kind ≠ .symbol .lparen) :
    r.step t = ExprReader.takeAfter ⟨[], nested, .value e⟩ e t := by
  obtain ⟨hnested, v, hv, hfold⟩ := h
  rw [step_of_operand? hv ht, ExprReader.takeAfter, ExprReader.takeAfter,
    hlevel, hfold, hnested]
  rfl

mutual

theorem Grammar.Level.reads {n : Nat} {ts : List Token} {e : Expr}
    (h : Level n ts e) {ps : List Pending} (hps : Pending.Below n ps)
    (nested : List (Opening × List Pending)) :
    ∃ r, ExprReader.Reads ⟨ps, nested, .operand⟩ ts r ∧
      r.Behind n ps nested e := by
  match h with
  | .primary hp =>
      obtain ⟨focus, hreads, hfocus⟩ := Grammar.Primary.reads hp ps nested
      exact ⟨_, hreads, rfl, e, hfocus, Pending.fold_of_below hps e⟩
  | .tighter _ h =>
      obtain ⟨r, hreads, hnested, v, hv, hfold⟩ :=
        Grammar.Level.reads h (hps.mono (Nat.le_succ _)) nested
      refine ⟨r, hreads, hnested, v, hv, ?_⟩
      rw [← Pending.fold_fold (Nat.le_succ n), hfold]
      exact Pending.fold_of_below hps e
  | @Level.binary n ls rs l r op s hl hs hop hr =>
      have hlevel : op.kind.level? = some n := level?_eq_some_iff.2 ⟨_, hs, hop⟩
      obtain ⟨rl, hreadsl, hnestedl, v, hv, hfoldl⟩ :=
        Grammar.Level.reads hl hps nested
      -- The operator folds the left operand and waits on top of `ps`.
      have hstep : rl.step op =
          .ok (.reading ⟨⟨l, op, n⟩ :: ps, nested, .operand⟩) := by
        rw [ExprReader.step_of_operand? hv
          (by intro h; rw [h] at hlevel; cases hlevel)]
        simp only [ExprReader.takeAfter, hlevel, hfoldl, hnestedl]
      have hbelow : Pending.Below (n + 1) (⟨l, op, n⟩ :: ps) :=
        .cons (Nat.lt_succ_self n) (hps.mono (Nat.le_succ n))
      obtain ⟨rr, hreadsr, hnestedr, w, hw, hfoldr⟩ :=
        Grammar.Level.reads hr hbelow nested
      refine ⟨rr, hreadsl.append (.cons hstep hreadsr), hnestedr, w, hw, ?_⟩
      rw [← Pending.fold_fold (Nat.le_succ n), hfoldr, Pending.fold,
        if_pos (Nat.le_refl n)]
      exact Pending.fold_of_below hps _

theorem Grammar.Primary.reads {ts : List Token} {e : Expr} (h : Primary ts e)
    (ps : List Pending) (nested : List (Opening × List Pending)) :
    ∃ focus, ExprReader.Reads ⟨ps, nested, .operand⟩ ts ⟨ps, nested, focus⟩ ∧
      focus.operand? = some e := by
  match h with
  | .literal v =>
      exact ⟨.value (.literal v), .single (ExprReader.step_literal v ps nested),
        rfl⟩
  | .var x => exact ⟨.name x, .single (ExprReader.step_name x ps nested), rfl⟩
  | .call hc => exact ⟨.value _, Grammar.Call.reads hc ps nested, rfl⟩
  | .group hlp he hrp =>
      obtain ⟨r, hreads, hr⟩ :=
        Grammar.Level.reads he (fun _ h => absurd h List.not_mem_nil)
          ((.group, ps) :: nested)
      refine ⟨.value e, .cons (ExprReader.step_group hlp ps nested)
        (hreads.append (.single ?_)), rfl⟩
      rw [hr.takeAfter (by rw [hrp]; rfl) (by rw [hrp]; decide)]
      simp only [ExprReader.takeAfter, hrp]
      rfl

theorem Grammar.Call.reads {ts : List Token} {f : Ident} {args : List Expr}
    (h : Call ts f args) (ps : List Pending)
    (nested : List (Opening × List Pending)) :
    ExprReader.Reads ⟨ps, nested, .operand⟩ ts ⟨ps, nested,
      .value (.call f args)⟩ := by
  match h with
  | .bare hlp hrp =>
      refine .cons (ExprReader.step_name f ps nested)
        (.cons (m := ⟨ps, nested, .arguments f⟩) ?_ (.single ?_))
      · simp only [ExprReader.step, hlp]
      · simp only [ExprReader.step, hrp]
  | .applied hlp hargs hrp =>
      refine .cons (ExprReader.step_name f ps nested)
        (.cons (m := ⟨ps, nested, .arguments f⟩) ?_ ?_)
      · simp only [ExprReader.step, hlp]
      · have hreads := Grammar.Args.reads hargs hrp f [] ps nested
        obtain ⟨t, us, rfl, ht⟩ := hargs.head
        cases hreads with
        | cons hstep hrest =>
            exact .cons (by rw [ExprReader.step_arguments ht, hstep]) hrest

theorem Grammar.Args.reads {ts : List Token} {es : List Expr} (h : Args ts es)
    {rp : Token} (hrp : rp.kind = .symbol .rparen) (f : Ident)
    (args : List Expr) (ps : List Pending)
    (nested : List (Opening × List Pending)) :
    ExprReader.Reads ⟨[], (.call f args, ps) :: nested, .operand⟩ (ts ++ [rp])
      ⟨ps, nested, .value (.call f (args.reverse ++ es))⟩ := by
  match h with
  | .one (e := e) he =>
      obtain ⟨r, hreads, hr⟩ := Grammar.Level.reads he
        (fun _ h => absurd h List.not_mem_nil) ((.call f args, ps) :: nested)
      refine hreads.append (.single ?_)
      rw [hr.takeAfter (by rw [hrp]; rfl) (by rw [hrp]; decide)]
      simp only [ExprReader.takeAfter, hrp, Token.Kind.level?, Pending.fold,
        List.reverse_cons]
  | .more (e := e) (c := c) he hc hrest =>
      obtain ⟨r, hreads, hr⟩ := Grammar.Level.reads he
        (fun _ h => absurd h List.not_mem_nil) ((.call f args, ps) :: nested)
      have hstep : r.step c = .ok (.reading
          ⟨[], (.call f (e :: args), ps) :: nested, .operand⟩) := by
        rw [hr.takeAfter (by rw [hc]; rfl) (by rw [hc]; decide)]
        simp only [ExprReader.takeAfter, hc, Token.Kind.level?, Pending.fold]
      have htail := Grammar.Args.reads hrest hrp f (e :: args) ps nested
      rw [List.reverse_cons, List.append_assoc, List.singleton_append] at htail
      rw [List.append_assoc, List.cons_append]
      exact hreads.append (.cons hstep htail)

end

/-- Read from its start, a whole expression is complete. -/
theorem Grammar.Level.reads_start {ts : List Token} {e : Expr}
    (h : Level 0 ts e) :
    ∃ er, ExprReader.start.Reads ts er ∧ er.Complete e := by
  obtain ⟨er, hreads, her⟩ := h.reads (fun _ h => absurd h List.not_mem_nil) []
  exact ⟨er, hreads, her.complete⟩

/-! ## Calls and function heads -/

namespace Reader

theorem step_calling {f : Ident} {t : Token} (ht : startsOperand t.kind = true)
    (done : List Stmt) (outer : List (Owner × List Stmt)) :
    step ⟨.calling f, done, outer⟩ t =
      step ⟨.expr (.argument f []) .start, done, outer⟩ t := by
  have hrp : t.kind ≠ .symbol .rparen := kind_ne_of_starts ht rfl
  simp only [step]
  rfl

theorem step_returning {line : Nat} {t : Token}
    (ht : startsOperand t.kind = true) (done : List Stmt)
    (outer : List (Owner × List Stmt)) :
    step ⟨.returning line, done, outer⟩ t =
      step ⟨.expr (.result line) .start, done, outer⟩ t := by
  have hnl : t.kind ≠ .newline := kind_ne_of_starts ht rfl
  have hrb : t.kind ≠ .symbol .rbrace := kind_ne_of_starts ht rfl
  simp only [step]
  rfl

theorem step_argument_last {er : ExprReader} {e : Expr} (her : er.Complete e)
    {rp : Token} (hrp : rp.kind = .symbol .rparen) (f : Ident)
    (args : List Expr) (done : List Stmt) (outer : List (Owner × List Stmt)) :
    step ⟨.expr (.argument f args) er, done, outer⟩ rp =
      .ok ⟨.ended, .call f (args.reverse ++ [e]) :: done, outer⟩ := by
  rw [step_of_complete her (by rw [hrp]; rfl) (by rw [hrp]; decide)]
  simp only [fill, hrp, add, List.reverse_cons]

theorem step_argument_more {er : ExprReader} {e : Expr}
    (her : er.Complete e) {c : Token} (hc : c.kind = .symbol .comma) (f : Ident)
    (args : List Expr) (done : List Stmt) (outer : List (Owner × List Stmt)) :
    step ⟨.expr (.argument f args) er, done, outer⟩ c =
      .ok ⟨.expr (.argument f (e :: args)) .start, done, outer⟩ := by
  rw [step_of_complete her (by rw [hc]; rfl) (by rw [hc]; decide)]
  simp only [fill, hc]

/-- The arguments of a call that is a statement, after `args`. -/
theorem reads_args {ts : List Token} {es : List Expr} (h : Args ts es)
    {rp : Token} (hrp : rp.kind = .symbol .rparen) (f : Ident)
    (args : List Expr) (done : List Stmt) (outer : List (Owner × List Stmt)) :
    Reads ⟨.expr (.argument f args) .start, done, outer⟩ (ts ++ [rp])
      ⟨.ended, .call f (args.reverse ++ es) :: done, outer⟩ := by
  match h with
  | .one he =>
      obtain ⟨er, hreads, her⟩ := he.reads_start
      have hlast := step_argument_last her hrp f args done outer
      exact (reads_expr hreads _ done outer).append (.single hlast)
  | .more (e := e) he hc hrest =>
      obtain ⟨er, hreads, her⟩ := he.reads_start
      have hmore := step_argument_more her hc f args done outer
      have htail := reads_args hrest hrp f (e :: args) done outer
      rw [List.reverse_cons, List.append_assoc, List.singleton_append] at htail
      rw [List.append_assoc, List.cons_append]
      exact (reads_expr hreads _ done outer).append (.cons hmore htail)

theorem reads_call {ts : List Token} {f : Ident} {args : List Expr}
    (h : Call ts f args) (done : List Stmt) (outer : List (Owner × List Stmt)) :
    Reads ⟨.ready, done, outer⟩ ts ⟨.ended, .call f args :: done, outer⟩ := by
  cases h with
  | bare hlp hrp =>
      refine .cons (m := ⟨.named f, done, outer⟩) rfl
        (.cons (m := ⟨.calling f, done, outer⟩) ?_ (.single ?_))
      · simp only [step, hlp]
      · simp only [step, hrp, add]
  | applied hlp hargs hrp =>
      refine .cons (m := ⟨.named f, done, outer⟩) rfl
        (.cons (m := ⟨.calling f, done, outer⟩) ?_ ?_)
      · simp only [step, hlp]
      · have hreads := reads_args hargs hrp f [] done outer
        obtain ⟨t, us, rfl, ht⟩ := hargs.head
        exact hreads.of_step_eq (step_calling ht done outer)

theorem takeParamType_token (r : Reader) (f : Ident) (params : List Param)
    (ty : TypeName) :
    r.takeParamType f params ty.token =
      .ok { r with mode := .paramName f params ty } := by
  rw [takeParamType, TypeName.ofToken?_eq_some_iff.2 rfl]

/-- Parameters after `params`. -/
theorem reads_params {ts : List Token} {ps : List Param}
    (h : Params ts ps) (f : Ident) (params : List Param) (done : List Stmt)
    (outer : List (Owner × List Stmt)) :
    Reads ⟨.paramType f params, done, outer⟩ ts
      ⟨.paramEnd f (ps.reverse ++ params), done, outer⟩ := by
  induction h generalizing params with
  | one p =>
      exact .cons (m := ⟨.paramName f params p.type, done, outer⟩)
        (takeParamType_token _ f params p.type) (.single rfl)
  | more p hc _ ih =>
      refine .cons (m := ⟨.paramName f params p.type, done, outer⟩)
        (takeParamType_token _ f params p.type)
        (.cons (m := ⟨.paramEnd f (p :: params), done, outer⟩) rfl
          (.cons (m := ⟨.paramType f (p :: params), done, outer⟩) ?_ ?_))
      · simp only [step, hc]
      · have htail := ih (p :: params)
        rw [List.reverse_cons, List.append_assoc, List.singleton_append]
        exact htail

theorem step_params_type (f : Ident) (ty : TypeName) (done : List Stmt)
    (outer : List (Owner × List Stmt)) :
    step ⟨.params f, done, outer⟩ ty.token =
      step ⟨.paramType f [], done, outer⟩ ty.token := by
  obtain ⟨type, text, line⟩ := ty
  cases type <;> rfl

theorem begin_fun {r : Reader} {t : Token} (h : t.kind = .keyword .fun) :
    r.begin t = .ok { r with mode := .function } := by
  simp [begin, TypeName.ofToken?, DeclType.ofTokenKind?, h]

theorem reads_functionHead {ts : List Token} {f : Ident} {ps : List Param}
    (h : FunctionHead ts f ps) (done : List Stmt)
    (outer : List (Owner × List Stmt)) :
    Reads ⟨.ready, done, outer⟩ ts ⟨.block (.function f ps), done, outer⟩ := by
  cases h with
  | bare hfn hlp hrp =>
      refine .cons (m := ⟨.function, done, outer⟩) (begin_fun hfn)
        (.cons (m := ⟨.functionName f, done, outer⟩) rfl
          (.cons (m := ⟨.params f, done, outer⟩) ?_ (.single ?_)))
      · simp only [step, takeSymbol, hlp, if_pos]
      · simp only [step, hrp]
  | @withParams fn lp rp f ts ps hfn hlp hps hrp =>
      refine .cons (m := ⟨.function, done, outer⟩) (begin_fun hfn)
        (.cons (m := ⟨.functionName f, done, outer⟩) rfl
          (.cons (m := ⟨.params f, done, outer⟩) ?_ ?_))
      · simp only [step, takeSymbol, hlp, if_pos]
      · have hreads := reads_params hps f [] done outer
        rw [List.append_nil] at hreads
        have hend : Reads ⟨.paramEnd f ps.reverse, done, outer⟩ [rp]
            ⟨.block (.function f ps), done, outer⟩ := by
          refine .single ?_
          simp only [step, takeSymbol, hrp, if_pos, List.reverse_reverse]
        refine Reads.append ?_ hend
        cases hps with
        | one p =>
            exact hreads.of_step_eq (step_params_type f p.type done outer)
        | more p _ _ =>
            exact hreads.of_step_eq (step_params_type f p.type done outer)

/-! ## Statements and bodies -/

theorem begin_typeName (r : Reader) (ty : TypeName) :
    r.begin ty.token = .ok { r with mode := .typed ty } := by
  rw [begin, TypeName.ofToken?_eq_some_iff.2 rfl]

theorem begin_return {r : Reader} {t : Token} (h : t.kind = .keyword .return) :
    r.begin t = .ok { r with mode := .returning t.line } := by
  simp [begin, TypeName.ofToken?, DeclType.ofTokenKind?, h]

theorem begin_if {r : Reader} {t : Token} (h : t.kind = .keyword .if) :
    r.begin t = .ok { r with mode := .expr (.branch []) .start } := by
  simp [begin, TypeName.ofToken?, DeclType.ofTokenKind?, h]

theorem begin_while {r : Reader} {t : Token} (h : t.kind = .keyword .while) :
    r.begin t = .ok { r with mode := .expr .loop .start } := by
  simp [begin, TypeName.ofToken?, DeclType.ofTokenKind?, h]

/-- An expression that ends its statement. -/
theorem reads_slot {ts : List Token} {e : Expr} (h : Level 0 ts e)
    (slot : Slot) {s : Stmt} (hs : slot.statement? e = some s)
    (done : List Stmt) (outer : List (Owner × List Stmt)) :
    ∃ r, Reads ⟨.expr slot .start, done, outer⟩ ts r ∧
      Closable r (s :: done) outer := by
  obtain ⟨er, hreads, her⟩ := h.reads_start
  exact ⟨_, reads_expr hreads slot done outer, closable_expr her hs⟩

/-- An expression that a block follows. -/
theorem reads_slot_opens {ts : List Token} {e : Expr} (h : Level 0 ts e)
    (slot : Slot) {owner : Owner} (ho : slot.owner? e = some owner)
    (done : List Stmt) (outer : List (Owner × List Stmt)) :
    ∃ r, Reads ⟨.expr slot .start, done, outer⟩ ts r ∧
      Opens r owner done outer := by
  obtain ⟨er, hreads, her⟩ := h.reads_start
  exact ⟨_, reads_expr hreads slot done outer, opens_expr her ho⟩

theorem Closable.reads_newlines {nl : List Token} (hnl : Newlines nl)
    (hne : nl ≠ []) {r : Reader} {done : List Stmt}
    {outer : List (Owner × List Stmt)} (h : Closable r done outer) :
    ∃ r', Reads r nl r' ∧ Between r' done outer := by
  match nl with
  | [] => exact absurd rfl hne
  | t :: nl =>
      obtain ⟨m, hstep, hm⟩ := h.newline t (hnl t (by simp))
      exact ⟨m, .cons hstep (hm.reads_newlines hnl.tail), hm⟩

/-- The line ends between the block of an `if` and its `else`. -/
theorem reads_branched_newlines {nl : List Token}
    (hnl : Newlines nl) (arm : Arm) (earlier : List Arm) (newline : Bool)
    (done : List Stmt) (outer : List (Owner × List Stmt)) :
    ∃ newline', Reads ⟨.branched arm earlier newline, done, outer⟩ nl
      ⟨.branched arm earlier newline', done, outer⟩ := by
  induction nl generalizing newline with
  | nil => exact ⟨newline, .nil _⟩
  | cons t nl ih =>
      obtain ⟨newline', hreads⟩ := ih hnl.tail true
      refine ⟨newline', .cons ?_ hreads⟩
      simp only [step, hnl t (by simp)]

/-- A statement is read between statements as it is read at the start of a
line. -/
theorem Between.reads {r : Reader} {done : List Stmt}
    {outer : List (Owner × List Stmt)} (h : Between r done outer) {t : Token}
    {ts : List Token} {r' : Reader} (ht : startsStatement t.kind = true)
    (hreads : Reads ⟨.ready, done, outer⟩ (t :: ts) r') :
    Reads r (t :: ts) r' := by
  refine hreads.of_step_eq (h.step_eq_begin ?_ ?_)
  · exact kind_ne_of_starts ht rfl
  · exact kind_ne_of_starts ht rfl

end Reader

mutual

theorem Grammar.Body.reads {ts : List Token} {ss : List Stmt} (h : Body ts ss)
    {r : Reader} {done : List Stmt} {outer : List (Owner × List Stmt)}
    (hr : r.Between done outer) :
    ∃ r', r.Reads ts r' ∧ r'.Closable (ss.reverse ++ done) outer := by
  match h with
  | .empty hnl => exact ⟨r, hr.reads_newlines hnl, hr.closable⟩
  | @Body.statements before ts after ss hbefore hss hafter =>
      have hreads₁ := hr.reads_newlines hbefore
      obtain ⟨r₂, hreads₂, hr₂⟩ := Grammar.Statements.reads hss hr
      by_cases hne : after = []
      · subst hne
        rw [List.append_nil]
        exact ⟨r₂, hreads₁.append hreads₂, hr₂⟩
      · obtain ⟨r₃, hreads₃, hr₃⟩ := hr₂.reads_newlines hafter hne
        exact ⟨r₃, (hreads₁.append hreads₂).append hreads₃, hr₃.closable⟩

theorem Grammar.Statements.reads {ts : List Token} {ss : List Stmt}
    (h : Statements ts ss) {r : Reader} {done : List Stmt}
    {outer : List (Owner × List Stmt)} (hr : r.Between done outer) :
    ∃ r', r.Reads ts r' ∧ r'.Closable (ss.reverse ++ done) outer := by
  match h with
  | .one hs =>
      obtain ⟨r', hreads, hr'⟩ := Grammar.Statement.reads hs done outer
      obtain ⟨t, us, rfl, ht⟩ := hs.head
      exact ⟨r', hr.reads ht hreads, hr'⟩
  | @Statements.more ts nl us s ss hs hnl hne hss =>
      obtain ⟨r₁, hreads₁, hr₁⟩ := Grammar.Statement.reads hs done outer
      obtain ⟨t, us, rfl, ht⟩ := hs.head
      obtain ⟨r₂, hreads₂, hr₂⟩ := hr₁.reads_newlines hnl hne
      obtain ⟨r₃, hreads₃, hr₃⟩ := Grammar.Statements.reads hss hr₂
      refine ⟨r₃, ((hr.reads ht hreads₁).append hreads₂).append hreads₃, ?_⟩
      rw [List.reverse_cons, List.append_assoc, List.singleton_append]
      exact hr₃

theorem Grammar.Block.reads {ts : List Token} {body : List Stmt}
    (h : Block ts body) {r r' : Reader} {owner : Owner} {done : List Stmt}
    {outer : List (Owner × List Stmt)} (hr : r.Opens owner done outer)
    (hclose : ∀ t,
      Reader.closeBlock ⟨.ready, body.reverse, (owner, done) :: outer⟩ t =
        .ok r') :
    r.Reads ts r' := by
  match h with
  | .braces hlb hbody hrb =>
      obtain ⟨m, hreads, hm⟩ := Grammar.Body.reads hbody Reader.Between.ready
      rw [List.append_nil] at hm
      exact .cons (hr _ hlb)
        (hreads.append (.single (by rw [hm.rbrace _ hrb, hclose])))

theorem Grammar.Statement.reads {ts : List Token} {s : Stmt}
    (h : Statement ts s) (done : List Stmt) (outer : List (Owner × List Stmt)) :
    ∃ r, Reader.Reads ⟨.ready, done, outer⟩ ts r ∧
      r.Closable (s :: done) outer := by
  match h with
  | @Statement.declare eq ty x ts e heq he =>
      obtain ⟨r, hreads, hr⟩ := Reader.reads_slot he (.init ty x) rfl done outer
      refine ⟨r,
        .cons (Reader.begin_typeName _ ty)
        (.cons (m := ⟨.typedName ty x, done, outer⟩) rfl (.cons ?_ hreads)), hr⟩
      simp only [Reader.step, Reader.takeSymbol, heq, if_pos]
  | @Statement.function ts us f ps body hf hbody =>
      refine ⟨⟨.ended, .function f ps body :: done, outer⟩,
        (Reader.reads_functionHead hf done outer).append
          (Grammar.Block.reads hbody Reader.opens_block ?_),
          Reader.closable_ended⟩
      intro t
      simp only [Reader.closeBlock, List.reverse_reverse]
  | @Statement.assign eq x ts e heq he =>
      obtain ⟨r, hreads, hr⟩ := Reader.reads_slot he (.value x) rfl done outer
      refine ⟨r, .cons (m := ⟨.named x, done, outer⟩) rfl (.cons ?_ hreads), hr⟩
      simp only [Reader.step, Reader.takeSymbol, heq, if_pos]
  | .call hc =>
      exact ⟨_, Reader.reads_call hc done outer, Reader.closable_ended⟩
  | .leave hkw =>
      exact ⟨_, .single (Reader.begin_return hkw), Reader.closable_returning⟩
  | @Statement.yield kw ts e hkw he =>
      obtain ⟨r, hreads, hr⟩ :=
        Reader.reads_slot he (.result kw.line) rfl done outer
      obtain ⟨t, us, rfl, ht⟩ := he.head
      exact ⟨r, .cons (Reader.begin_return hkw)
        (hreads.of_step_eq (Reader.step_returning ht done outer)), hr⟩
  | .cond hkw htail =>
      obtain ⟨r, hreads, hr⟩ := Grammar.IfTail.reads htail [] done outer
      exact ⟨r, .cons (Reader.begin_if hkw) hreads, hr⟩
  | @Statement.loop kw ts us c body hkw hc hbody =>
      obtain ⟨r, hreads, hr⟩ := Reader.reads_slot_opens hc .loop rfl done outer
      refine ⟨⟨.ended, .loop c body :: done, outer⟩,
        .cons (Reader.begin_while hkw)
        (hreads.append (Grammar.Block.reads hbody hr ?_)),
        Reader.closable_ended⟩
      intro t
      simp only [Reader.closeBlock, List.reverse_reverse]

theorem Grammar.IfTail.reads {ts : List Token} {c : Expr} {body : List Stmt}
    {next : ElseChain} (h : IfTail ts c body next) (earlier : List Arm)
    (done : List Stmt) (outer : List (Owner × List Stmt)) :
    ∃ r, Reader.Reads ⟨.expr (.branch earlier) .start, done, outer⟩ ts r ∧
      r.Closable (closeArms next (c, body) earlier :: done) outer := by
  match h with
  | .tail hc hbody hnext =>
      obtain ⟨r₁, hreads₁, hr₁⟩ :=
        Reader.reads_slot_opens hc (.branch earlier) rfl done outer
      obtain ⟨r₂, hreads₂, hr₂⟩ :=
        Grammar.ElseTail.reads hnext (c, body) earlier done outer
      refine ⟨r₂,
        (hreads₁.append (Grammar.Block.reads hbody hr₁ ?_)).append hreads₂, hr₂⟩
      intro t
      simp only [Reader.closeBlock, List.reverse_reverse]

theorem Grammar.ElseTail.reads {ts : List Token} {next : ElseChain}
    (h : ElseTail ts next) (arm : Arm) (earlier : List Arm) (done : List Stmt)
    (outer : List (Owner × List Stmt)) :
    ∃ r, Reader.Reads ⟨.branched arm earlier false, done, outer⟩ ts r ∧
      r.Closable (closeArms next arm earlier :: done) outer := by
  match h with
  | .none => exact ⟨_, .nil _, Reader.closable_branched⟩
  | @ElseTail.elseIf el kw nl ts c body next hnl hel hkw htail =>
      obtain ⟨newline, hreads₁⟩ :=
        Reader.reads_branched_newlines hnl arm earlier false done outer
      obtain ⟨r, hreads₂, hr⟩ :=
        Grammar.IfTail.reads htail (arm :: earlier) done outer
      refine ⟨r,
        hreads₁.append (.cons (m := ⟨.elseRead arm earlier, done, outer⟩) ?_
          (.cons ?_ hreads₂)), hr⟩
      · simp only [Reader.step, hel]
      · simp only [Reader.step, hkw]
  | @ElseTail.otherwise el nl ts body hnl hel hbody =>
      obtain ⟨newline, hreads⟩ :=
        Reader.reads_branched_newlines hnl arm earlier false done outer
      refine ⟨⟨.ended, closeArms (.otherwise body) arm earlier :: done, outer⟩,
        hreads.append (.cons (m := ⟨.elseRead arm earlier, done, outer⟩) ?_
          (Grammar.Block.reads hbody Reader.opens_elseRead ?_)),
          Reader.closable_ended⟩
      · simp only [Reader.step, hel]
      · intro t
        simp only [Reader.closeBlock, List.reverse_reverse]

end

/-- The reader accepts what the grammar derives, and builds the derived
program. -/
theorem Grammar.Derives.ofTokens_eq_ok {ts : List Token} {p : Program}
    (h : Derives ts p) : Program.ofTokens ts = .ok p := by
  obtain ⟨r, hreads, hr⟩ := Body.reads h Reader.Between.ready
  rw [List.append_nil] at hr
  rw [Program.ofTokens, show ts.foldlM Reader.step Reader.start =
    .ok r from hreads]
  simp only [hr.finish?, List.reverse_reverse]

end Quill
