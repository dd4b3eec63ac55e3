import Quill.Proofs.Following

/-!
# Descending and reading come to the same

Every production is followed by a reader that stands where the production
begins, whatever it has read before. The proof has one step lemma per
production: its answer fits all readers in front of it if the answers of its
calls do. The budget of nested calls then carries the induction, and together
with the bound on it this settles all productions on all lists of tokens: none
of them goes on for ever, and the program they find, or the fault, is the one
that reading the tokens one by one finds.
-/

namespace Quill

open Grammar

namespace Production

variable {α β : Type}

/-! ## One call -/

/-- The answer of a production of level `k` or its loop fits a reader in front
of it. -/
def EndsLevel (k : Nat) (c : Place) (ps : List Pending) (r : Reader)
    (ts : List Token) (o : Answer Expr) : Prop :=
  o.Fits (r.readAll ts) fun e rest =>
    r.readAll ts = (c.reader ps (.value e)).readAll rest ∧ Unextended k rest

/-- The answer of a production fits every reader in front of it. -/
def Matches : Production α → List Token → Answer α → Prop
  | .level k, ts, o => ∀ (c : Place) (ps : List Pending), Pending.Below k ps →
      EndsLevel k c ps (c.reader ps .operand) ts o
  | .operations k left, ts, o =>
    ∀ (c : Place) (ps : List Pending), Pending.Below k ps →
      Unextended (k + 1) ts → EndsLevel k c ps (c.reader ps (.value left)) ts o
  | .primary, ts, o => ∀ (c : Place) (ps : List Pending),
      o.Leads (c.reader ps .operand) ts fun e => c.reader ps (.value e)
  | .call, ts, o =>
    ∀ (s : CallSite) (t lp : Token) (rest : List Token), ts = t :: lp :: rest →
      t.kind = .name → lp.kind = .symbol .lparen →
      o.Leads (s.opened ⟨t.text, t.line⟩) rest fun c => s.closed c.1 c.2
  | .arguments, ts, o => ∀ (s : CallSite) (f : Ident) (args : List Expr),
      o.Fits (((s.argument f args).reader [] .operand).readAll ts)
        fun es rest =>
          Closes (((s.argument f args).reader [] .operand).readAll ts) rest
            (s.closed f (args.reverse ++ es))
  | .params, ts, o => ∀ (f : Ident) (params : List Param) (done : List Stmt)
      (outer : List (Owner × List Stmt)),
      o.Fits (Reader.readAll ⟨.paramType f params, done, outer⟩ ts)
        fun ps rest =>
          Closes (Reader.readAll ⟨.paramType f params, done, outer⟩ ts) rest
            ⟨.block (.function f (params.reverse ++ ps)), done, outer⟩
  | .statement, ts, o => ∀ (t : Token) (rest : List Token) (done : List Stmt)
      (outer : List (Owner × List Stmt)), ts = t :: rest → t.kind ≠ .newline →
      startsStatement t.kind = true ∨ outer = [] →
      o.Leads ⟨.ready, done, outer⟩ ts fun s => ⟨.ready, s :: done, outer⟩
  | .conditional, ts, o => ∀ (earlier : List Arm) (done : List Stmt)
      (outer : List (Owner × List Stmt)),
      o.Leads ⟨.expr (.branch earlier) .start, done, outer⟩ ts fun c =>
        ⟨.ended, closeArms c.2 c.1 earlier :: done, outer⟩
  | .block, ts, o =>
    ∀ (owner : Owner) (done : List Stmt) (outer : List (Owner × List Stmt)),
      o.Leads ⟨.block owner, done, outer⟩ ts fun body =>
        owner.closed body done outer
  | .statements, ts, o =>
    ∀ (body : List Stmt) (owner : Owner) (done : List Stmt)
      (outer : List (Owner × List Stmt)),
      o.Leads ⟨.ready, body, (owner, done) :: outer⟩ ts fun ss =>
        owner.closed (body.reverse ++ ss) done outer
  | .program, ts, o => ∀ done : List Stmt,
      o.Fits (Reader.readAll ⟨.ready, done, []⟩ ts) fun ss rest =>
        rest = [] ∧ Reader.readAll ⟨.ready, done, []⟩ ts =
          .ok (done.reverse ++ ss)

section

variable {call : ⦃β : Type⦄ → Production β → List Token → Answer β}
  {ts : List Token} (hcall : ∀ ⦃β : Type⦄ (q : Production β) (us : List Token),
    q.Matches us (call q us))

include hcall

theorem matches_runLevel (k : Nat) :
    Matches (.level k) ts (runLevel call k ts) := by
  intro c ps hps
  unfold runLevel
  split
  · have htighter := hcall (.level (k + 1)) ts c ps (hps.mono (Nat.le_succ k))
    refine htighter.andThen fun e rest hend => ?_
    obtain ⟨hread, hrest⟩ := hend
    rw [hread]
    exact hcall (.operations k e) rest c ps hps hrest
  · have hprimary := hcall .primary ts c ps
    refine hprimary.imp fun e rest hread => ⟨hread, fun l hl => ?_⟩
    have hle := level?_le hl
    omega

theorem matches_runOperations (k : Nat) (left : Expr) :
    Matches (.operations k left) ts (runOperations call k left ts) := by
  intro c ps hps hts
  cases ts with
  | nil => exact ⟨rfl, unextended_nil k⟩
  | cons t ts =>
      simp only [runOperations]
      split
      · next ht =>
          -- the operator waits for its right operand, which is a level tighter
          have hright := hcall (.level (k + 1)) ts c (⟨left, t, k⟩ :: ps)
            (.cons (Nat.lt_succ_self k) (hps.mono (Nat.le_succ k)))
          unfold EndsLevel
          rw [Reader.readAll_of_step_ok (Place.step_operator ht hps)]
          refine hright.andThen fun right rest hend => ?_
          obtain ⟨hread, hrest⟩ := hend
          rw [hread, Reader.readAll_congr (Place.step_binary hrest)]
          exact hcall (.operations k (.binary t left right)) rest c ps hps
            fun l hl => hrest l hl
      · next ht =>
          refine ⟨rfl, fun l hl => ?_⟩
          have hlt := hts l hl
          have hne : l ≠ k := fun hlk => ht (hlk ▸ hl)
          omega

/-- A call behind the two tokens that show it is one. -/
theorem leads_runCalled {make : Ident → List Expr → α}
    {after : α → Reader} {t : Token} {r : Reader} (s : CallSite)
    (ht : t.kind = .name) (hnext : nextIs (.symbol .lparen) ts = true)
    (hstep : ∀ lp : Token, lp.kind = .symbol .lparen →
      r.step lp = .ok (s.opened ⟨t.text, t.line⟩))
    (hafter : ∀ f args, s.closed f args = after (make f args)) :
    (runCalled call make (t :: ts)).Leads r ts after := by
  obtain ⟨lp, rest, rfl, hlp⟩ := exists_cons_of_nextIs hnext
  have hc := hcall .call (t :: lp :: rest) s t lp rest rfl ht hlp
  exact (hc.cons (hstep lp hlp)).map fun c => hafter c.1 c.2

theorem matches_runPrimary : Matches .primary ts (runPrimary call ts) := by
  intro c ps
  cases ts with
  | nil => exact Reader.readAll_nil_of_step_error rfl
  | cons t ts =>
      simp only [runPrimary]
      split
      · next v hv =>
          refine Reader.readAll_of_step_ok (Place.step_operand ?_)
          simp only [ExprReader.takeOperand, hv]
      · next hv =>
          split
          · next ht =>
              have hname : (c.reader ps .operand).step t =
                  .ok (c.reader ps (.name ⟨t.text, t.line⟩)) :=
                Place.step_operand
                  (by simp only [ExprReader.takeOperand, hv, ht])
              refine Answer.Leads.cons ?_ hname
              split
              · next hnext =>
                  refine leads_runCalled hcall (.operand c ps) ht hnext
                    (fun lp hlp => ?_)
                    fun f args => rfl
                  simp only [Place.reader, Reader.step, Reader.advance,
                    ExprReader.step, hlp]
                  rfl
              · next hnext =>
                  refine Reader.readAll_congr
                    (Place.step_name fun hlp => hnext ?_)
                  exact (nextIs_iff (by decide)).2 hlp
          · next ht =>
              have hgroup : (c.reader ps .operand).step t =
                  .ok ({ c with nested := (.group, ps) :: c.nested }.reader []
                    .operand) :=
                Place.step_operand
                  (by simp only [ExprReader.takeOperand, hv, ht])
              refine Answer.Leads.cons ?_ hgroup
              have hinner :=
                hcall (.level 0) ts
                  { c with nested := (.group, ps) :: c.nested } [] (below_nil 0)
              refine hinner.andThen fun e rest hend => ?_
              obtain ⟨hread, hrest⟩ := hend
              rw [hread]
              exact (leads_take (Place.takes_group hrest.level?_eq_none)
                rfl).map fun _ => rfl
          · refine Reader.readAll_of_step_error (Place.step_operand_error ?_)
            simp only [ExprReader.takeOperand, hv]

theorem matches_runCall : Matches .call ts (runCall call ts) := by
  rintro s t lp rest rfl ht hlp
  have hlist : (runListed call .arguments rest).Leads
      (s.opened ⟨t.text, t.line⟩) rest
      fun args => s.closed ⟨t.text, t.line⟩ args := by
    refine leads_runListed (fun h => s.step_opened_rparen h) fun h => ?_
    rw [Reader.readAll_congr (s.step_opened h)]
    exact hcall .arguments rest s ⟨t.text, t.line⟩ []
  simp only [runCall, take, name?, symbol?, ht, hlp, if_pos, Answer.andThen]
  exact hlist.map fun args => rfl

theorem matches_runArguments :
    Matches .arguments ts (runArguments call ts) := by
  intro s f args
  have hfirst := hcall (.level 0) ts (s.argument f args) [] (below_nil 0)
  refine hfirst.andThen fun e rest hend => ?_
  obtain ⟨hread, hrest⟩ := hend
  rw [hread]
  refine fits_runMore ?_ fun hne =>
    ⟨_, rfl, s.takes_argument hrest.level?_eq_none hne⟩
  rintro t us rfl hcomma
  have hmore := hcall .arguments us s f (e :: args)
  rw [List.reverse_cons] at hmore
  rw [Reader.readAll_of_step_ok (s.step_comma hcomma)]
  simpa only [List.append_assoc, List.singleton_append] using hmore

theorem matches_runParams : Matches .params ts (runParams call ts) := by
  intro f before done outer
  have htype : Takes ⟨.paramType f before, done, outer⟩
      TypeName.ofToken? .expectType
      (fun ty => ⟨.paramName f before ty, done, outer⟩) (ahead ts) := by
    refine ⟨fun ty hty => ?_, fun hty => ?_⟩ <;>
      simp only [Reader.step, Reader.takeParamType, hty]
  refine Answer.Fits.andThen (leads_take htype rfl) fun ty rest hread => ?_
  rw [hread]
  have hname : Takes ⟨.paramName f before ty, done, outer⟩ name? .expectId
      (fun x => ⟨.paramEnd f (⟨ty, x⟩ :: before), done, outer⟩) (ahead rest) :=
    takes_name rfl
  refine Answer.Fits.andThen (leads_take hname rfl) fun x rest' hread' => ?_
  rw [hread']
  refine fits_runMore ?_ fun hne => ⟨_, rfl, takes_paramEnd hne⟩
  rintro t us rfl hcomma
  have hstep : Reader.step ⟨.paramEnd f (⟨ty, x⟩ :: before), done, outer⟩ t =
      .ok ⟨.paramType f (⟨ty, x⟩ :: before), done, outer⟩ := by
    simp only [Reader.step, hcomma]
  have hmore := hcall .params us f (⟨ty, x⟩ :: before) done outer
  rw [List.reverse_cons] at hmore
  rw [Reader.readAll_of_step_ok hstep]
  simpa only [List.append_assoc, List.singleton_append] using hmore

theorem leads_statementSlot {slot : Slot} {make : Expr → Stmt}
    (hslot : ∀ e, slot.statement? e = some (make e)) (done : List Stmt)
    (outer : List (Owner × List Stmt)) :
    (call (.level 0) ts).Leads ⟨.expr slot .start, done, outer⟩ ts fun e =>
      ⟨.ended, make e :: done, outer⟩ := by
  have hexpr := hcall (.level 0) ts ⟨slot, [], done, outer⟩ [] (below_nil 0)
  refine hexpr.imp fun e rest hend => ?_
  obtain ⟨hread, hrest⟩ := hend
  refine hread.trans (Reader.readAll_congr ?_)
  exact Place.step_statement (hslot e) hrest.level?_eq_none done outer

theorem leads_ownerSlot {slot : Slot} {make : Expr → Owner}
    (hslot : ∀ e, slot.owner? e = some (make e)) (done : List Stmt)
    (outer : List (Owner × List Stmt)) :
    (call (.level 0) ts).Leads ⟨.expr slot .start, done, outer⟩ ts fun e =>
      ⟨.block (make e), done, outer⟩ := by
  have hexpr := hcall (.level 0) ts ⟨slot, [], done, outer⟩ [] (below_nil 0)
  refine hexpr.imp fun e rest hend => ?_
  obtain ⟨hread, hrest⟩ := hend
  refine hread.trans (Reader.readAll_congr ?_)
  exact Place.step_owner (hslot e) hrest.level?_eq_none done outer

theorem leads_runAssigned {mode : Mode} (slot : Slot) {make : Expr → Stmt}
    (hslot : ∀ e, slot.statement? e = some (make e)) {done : List Stmt}
    {outer : List (Owner × List Stmt)}
    (hstep : Reader.step ⟨mode, done, outer⟩ (ahead ts) =
      Reader.takeSymbol ⟨mode, done, outer⟩
      (ahead ts) .assign .expectAssign (.expr slot .start)) :
    (runAssigned call make ts).Leads ⟨mode, done, outer⟩ ts fun s =>
      ⟨.ended, s :: done, outer⟩ := by
  refine (leads_take (takes_takeSymbol hstep) rfl).andThen fun _ rest => ?_
  exact (leads_statementSlot hcall hslot done outer).map fun e => rfl

theorem leads_runFunction (done : List Stmt)
    (outer : List (Owner × List Stmt)) :
    (runFunction call ts).Leads ⟨.function, done, outer⟩ ts fun s =>
      ⟨.ended, s :: done, outer⟩ := by
  have hname : Takes ⟨.function, done, outer⟩ name? .expectId
      (fun f => ⟨.functionName f, done, outer⟩) (ahead ts) :=
    takes_name rfl
  refine (leads_take hname rfl).andThen fun f rest => ?_
  have hparen : Takes ⟨.functionName f, done, outer⟩ (symbol? .lparen)
      .expectOpeningParen (fun _ => ⟨.params f, done, outer⟩) (ahead rest) :=
    takes_takeSymbol rfl
  refine (leads_take hparen rfl).andThen fun _ rest => ?_
  have hlist : (runListed call .params rest).Leads ⟨.params f, done, outer⟩ rest
      fun ps => ⟨.block (.function f ps), done, outer⟩ := by
    refine leads_runListed (fun h => by simp only [Reader.step, h]) fun h => ?_
    have hfirst : Reader.step ⟨.params f, done, outer⟩ (ahead rest) =
        Reader.step ⟨.paramType f [], done, outer⟩ (ahead rest) := by
      simp only [Reader.step]
      rfl
    rw [Reader.readAll_congr hfirst]
    exact hcall .params rest f [] done outer
  refine hlist.andThen fun ps rest => ?_
  exact (hcall .block rest (.function f ps) done outer).map fun body => rfl

theorem leads_runReturned {line : Nat} (done : List Stmt)
    (outer : List (Owner × List Stmt)) :
    (runReturned call line ts).Leads ⟨.returning line, done, outer⟩ ts fun s =>
      ⟨.ended, s :: done, outer⟩ := by
  unfold runReturned
  split
  · next h =>
      refine Reader.readAll_congr ?_
      rcases atTerminator_iff.1 h with hnl | hrb
      · simp only [Reader.step, hnl]
        rfl
      · simp only [Reader.step, hrb]
        rfl
  · next h =>
      have hnl : (ahead ts).kind ≠ .newline :=
        fun hkind => h (atTerminator_iff.2 (.inl hkind))
      have hrb : (ahead ts).kind ≠ .symbol .rbrace :=
        fun hkind => h (atTerminator_iff.2 (.inr hkind))
      have hexpr : (call (.level 0) ts).Leads
          ⟨.expr (.result line) .start, done, outer⟩ ts
          fun e => ⟨.ended, .ret line (some e) :: done, outer⟩ :=
        leads_statementSlot hcall (fun _ => rfl) done outer
      refine (hexpr.of_step_eq ?_).map fun e => rfl
      simp only [Reader.step]
      rfl

theorem leads_runUnended {t : Token} {done : List Stmt}
    {outer : List (Owner × List Stmt)} (hnl : t.kind ≠ .newline)
    (hstarts : startsStatement t.kind = true ∨ outer = []) :
    (runUnended call (t :: ts)).Leads ⟨.ready, done, outer⟩ (t :: ts) fun s =>
      ⟨.ended, s :: done, outer⟩ := by
  simp only [runUnended]
  split
  · next ty hty =>
      have hstep : Reader.step ⟨.ready, done, outer⟩ t =
          .ok ⟨.typed ty, done, outer⟩ := by
        simp only [Reader.step, Reader.begin, hty]
      have hname : Takes ⟨.typed ty, done, outer⟩ name? .expectId
          (fun x => ⟨.typedName ty x, done, outer⟩) (ahead ts) :=
        takes_name rfl
      refine Answer.Leads.cons ((leads_take hname rfl).andThen fun x rest => ?_)
        hstep
      exact leads_runAssigned hcall (.init ty x) (fun _ => rfl) rfl
  · next hty =>
      split
      · next ht =>
          exact (leads_runFunction hcall done outer).cons (Reader.begin_fun ht)
      · next ht =>
          have hstep : Reader.step ⟨.ready, done, outer⟩ t =
              .ok ⟨.named ⟨t.text, t.line⟩, done, outer⟩ := by
            simp only [Reader.step, Reader.begin, hty, ht]
          refine Answer.Leads.cons ?_ hstep
          split
          · next hnext =>
              -- the reader has taken the name, and only `(` shows that it is a
              -- call
              refine leads_runCalled hcall (.statement done outer) ht hnext
                (fun lp hlp => ?_)
                fun f args => rfl
              simp only [Reader.step, hlp]
              rfl
          · next hnext =>
              have hlp : (ahead ts).kind ≠ .symbol .lparen :=
                fun hkind => hnext ((nextIs_iff (by decide)).2 hkind)
              refine leads_runAssigned hcall (.value ⟨t.text, t.line⟩)
                (fun _ => rfl) ?_
              simp only [Reader.step]
      · next ht =>
          exact (leads_runReturned hcall done outer).cons
            (Reader.begin_return ht)
      · next ht =>
          have hcond := hcall .conditional ts [] done outer
          exact Answer.Leads.cons (hcond.map fun c => rfl) (Reader.begin_if ht)
      · next ht =>
          refine Answer.Leads.cons ?_ (Reader.begin_while ht)
          refine (leads_ownerSlot hcall (fun _ => rfl) done outer).andThen
            fun c rest => ?_
          exact (hcall .block rest (.loop c) done outer).map fun body => rfl
      · next hfun hname hreturn hif hwhile =>
          have hnot : startsStatement t.kind = false := by
            refine Bool.eq_false_iff.2 fun hs => ?_
            unfold startsStatement at hs
            split at hs <;> simp_all [TypeName.ofToken?, DeclType.ofTokenKind?]
          -- inside a block the loop around has refused such a token already
          obtain rfl : outer = [] := hstarts.resolve_left (by simp [hnot])
          refine Reader.readAll_of_step_error ?_
          by_cases hrb : t.kind = .symbol .rbrace
          · exact Reader.begin_rbrace hrb
          · exact Reader.begin_of_not_starts hnl hrb hnot

theorem matches_runStatement :
    Matches .statement ts (runStatement call ts) := by
  rintro t rest done outer rfl hnl hstarts
  refine (leads_runUnended hcall hnl hstarts).andThen fun s rest => ?_
  exact (leads_terminator (s :: done) outer rest).map fun _ => rfl

theorem leads_runElse (arm : Arm) (earlier : List Arm) (done : List Stmt)
    (outer : List (Owner × List Stmt)) :
    (runElse call ts).Leads ⟨.branched arm earlier false, done, outer⟩ ts
      fun next => ⟨.ended, closeArms next arm earlier :: done, outer⟩ := by
  unfold runElse
  split
  · next helse => exact Reader.readAll_branched helse false
  · next rest helse =>
      unfold Answer.Leads
      rw [Reader.readAll_branched_else helse false]
      split
      · next hif =>
          obtain ⟨t, us, rfl, ht⟩ := exists_cons_of_nextIs hif
          have hstep : Reader.step ⟨.elseRead arm earlier, done, outer⟩ t =
              .ok ⟨.expr (.branch (arm :: earlier)) .start, done, outer⟩ := by
            simp only [Reader.step, ht]
          have hcond := hcall .conditional us (arm :: earlier) done outer
          exact Answer.Leads.cons (hcond.map fun c => rfl) hstep
      · next hif =>
          have hne : (ahead rest).kind ≠ .keyword .if :=
            fun hkind => hif ((nextIs_iff (by decide)).2 hkind)
          have hblock := hcall .block rest (.otherwise arm earlier) done outer
          refine Answer.Leads.map (hblock.of_step_eq ?_) fun body => rfl
          simp only [Reader.step]
          rfl

theorem matches_runConditional :
    Matches .conditional ts (runConditional call ts) := by
  intro earlier done outer
  refine (leads_ownerSlot hcall (fun _ => rfl) done outer).andThen
    fun c rest => ?_
  refine (hcall .block rest (.branch c earlier) done outer).andThen
    fun body rest => ?_
  exact (leads_runElse hcall (c, body) earlier done outer).map fun next => rfl

theorem matches_runBlock : Matches .block ts (runBlock call ts) := by
  intro owner done outer
  have hbrace : Takes ⟨.block owner, done, outer⟩ (symbol? .lbrace)
      .expectOpeningBrace
      (fun _ => ⟨.ready, [], (owner, done) :: outer⟩) (ahead ts) := by
    refine takes_symbol (fun h => ?_) fun h => ?_ <;>
      simp only [Reader.step, Reader.openBlock, h]
  refine (leads_take hbrace rfl).andThen fun _ rest => ?_
  exact hcall .statements rest [] owner done outer

theorem matches_runStatements :
    Matches .statements ts (runStatements call ts) := by
  intro body owner done outer
  unfold Answer.Leads
  rw [Reader.readAll_skipNewlines]
  unfold runStatements
  split
  · next hskip =>
      rw [hskip]
      rfl
  · next t rest hskip =>
      rw [hskip]
      split
      · next hrb =>
          refine Reader.readAll_of_step_ok ?_
          simp only [List.append_nil]
          exact (Reader.begin_rbrace hrb).trans
            (Reader.closeBlock_eq_closed _ body owner)
      · next hrb =>
          have hnl := skipNewlines_ne_newline hskip
          split
          · next hstarts =>
              refine Answer.Leads.andThen
                (hcall .statement (t :: rest) t rest body _ rfl hnl
                  (.inl hstarts)) fun s rest => ?_
              refine (hcall .statements rest (s :: body) owner done outer).map
                fun ss => ?_
              rw [List.reverse_cons, List.append_assoc, List.singleton_append]
          · next hstarts =>
              refine Reader.readAll_of_step_error ?_
              exact Reader.begin_of_not_starts hnl hrb
                (Bool.eq_false_iff.2 hstarts)

theorem matches_runProgram : Matches .program ts (runProgram call ts) := by
  intro done
  rw [Reader.readAll_skipNewlines]
  unfold runProgram
  split
  · next hskip =>
      rw [hskip]
      exact ⟨rfl, congrArg Except.ok (List.append_nil _).symm⟩
  · next t rest hskip =>
      rw [hskip]
      have hnl := skipNewlines_ne_newline hskip
      refine Answer.Fits.andThen
        (hcall .statement (t :: rest) t rest done [] rfl hnl (.inr rfl))
        fun s rest hread => ?_
      rw [hread]
      refine Answer.Fits.andThen (hcall .program rest (s :: done))
        fun ss rest' hprogram => ?_
      rw [List.reverse_cons, List.append_assoc, List.singleton_append]
        at hprogram
      exact hprogram

/-- The answer of a production fits every reader once those of its calls do. -/
theorem matches_body (p : Production α) : p.Matches ts (p.body call ts) := by
  cases p with
  | level k => exact matches_runLevel hcall k
  | operations k left => exact matches_runOperations hcall k left
  | primary => exact matches_runPrimary hcall
  | call => exact matches_runCall hcall
  | arguments => exact matches_runArguments hcall
  | params => exact matches_runParams hcall
  | statement => exact matches_runStatement hcall
  | conditional => exact matches_runConditional hcall
  | block => exact matches_runBlock hcall
  | statements => exact matches_runStatements hcall
  | program => exact matches_runProgram hcall

end

theorem matches_spent (p : Production α) (ts : List Token) :
    p.Matches ts .spent := by
  cases p <;>
    simp only [Matches, EndsLevel, Answer.Leads, Answer.Fits, implies_true]

/-- Whatever its budget, the answer of a production fits every reader in front
of it. -/
theorem matches_run (n : Nat) (p : Production α) (ts : List Token) :
    p.Matches ts (run n p ts) := by
  induction n generalizing α ts with
  | zero => exact matches_spent p ts
  | succ n ih => exact matches_body (fun β q us => ih q us) p

/-! ## Whole programs -/

/-- What the production of whole programs says of the tokens `ts`, if it ends
and takes them all. -/
def Answer.result? (ts : List Token) :
    Answer Program → Option (Except SyntaxError Program)
  | .failed f => some (.error (f.error ts))
  | .done p [] => some (.ok p)
  | .done _ (_ :: _) | .spent => none

theorem result?_answer_program (ts : List Token) :
    (answer .program ts).result? ts = some (Program.ofTokens ts) := by
  have hfits : (answer .program ts).Fits (Reader.start.readAll ts)
      fun ss rest => rest = [] ∧ Reader.start.readAll ts = .ok ss :=
    matches_run _ .program ts []
  have hends := settled_answer .program ts
  rw [ofTokens_eq_readAll]
  generalize answer .program ts = o at hfits hends
  cases hends with
  | failed f =>
      rw [show Reader.start.readAll ts = .error f from hfits]
      rfl
  | done hsuffix hlength =>
      obtain ⟨rfl, hread⟩ := hfits
      rw [hread]
      rfl

/-- At every position of every list of tokens, every production ends. Its answer
obeys the grammar's recursive equations with no budget in them, and every budget
above its weight gives it. It is a failure, or a tree and a position that is not
past the end and further on; only the two loops that may go round no times can
stay where they are. Ending a statement, skipping line ends and looking for an
`else` never lead back or past the end. Each answer is what a reader in front of
the production comes to, and that of the production of whole programs is the
program the tokens spell, or the error of a list of tokens that is no
program. -/
theorem descent_total (ts : List Token) (i : Nat) (hi : i ≤ ts.length) :
    (∀ {α : Type} (p : Production α),
      p.answer (ts.drop i) = p.body answer (ts.drop i) ∧
      (∀ n, p.weight (ts.drop i) < n →
        run n p (ts.drop i) = p.answer (ts.drop i)) ∧
      (p.answer (ts.drop i)).MovesOn ts i p.least ∧
      p.Matches (ts.drop i) (p.answer (ts.drop i))) ∧
    (terminator (ts.drop i)).MovesOn ts i 0 ∧
    Onward ts i 0 (skipNewlines (ts.drop i)) ∧
    (∀ rest, behindElse? (ts.drop i) = some rest → Onward ts i 1 rest) ∧
    (answer .program ts).result? ts = some (Program.ofTokens ts) := by
  refine ⟨fun p => ⟨answer_eq_body p _, fun n hn => run_eq_answer hn,
    (settled_answer p _).movesOn hi, matches_run _ p _⟩,
    (settled_terminator _).movesOn hi, ?_,
    fun rest helse => ?_, result?_answer_program ts⟩
  · have hskip := skipNewlines_suffix (ts.drop i)
    exact onward_of_suffix hi hskip hskip.length_le
  · obtain ⟨hsuffix, hlength⟩ := behindElse?_suffix helse
    exact onward_of_suffix hi hsuffix hlength

/-- In `x = (1` the expression fails, and so does the program, at the end of the
tokens. -/
theorem descent_total_open_group :
    let ts : List Token := [⟨.name, "x", 1⟩, ⟨.symbol .assign, "=", 1⟩,
      ⟨.symbol .lparen, "(", 1⟩, ⟨.integer, "1", 1⟩]
    2 ≤ ts.length ∧ (answer (.level 0) (ts.drop 2)).MovesOn ts 2 1 ∧
      answer (.level 0) (ts.drop 2) = .failed .atEnd ∧
      (answer .program ts).result? ts =
        some (.error ⟨.unexpectedEnd, 1, none⟩) := by
  intro ts
  have hi : 2 ≤ ts.length := by decide
  obtain ⟨hall, -, -, -, hprogram⟩ := descent_total ts 2 hi
  obtain ⟨-, -, hmoves, -⟩ := hall (.level 0)
  exact ⟨hi, hmoves, rfl, hprogram.trans rfl⟩

end Production

end Quill
