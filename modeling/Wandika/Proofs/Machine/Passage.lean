import Wandika.Proofs.Machine.Likeness
import Wandika.Proofs.Scope.Relabelled

/-!
# The same code in two runs

A text that stands below another has other tokens and node numbers than alone, and its nodes are
looked up in another table. Two states are set side by side here, each piece of code of the first
with the same code of the second.

* `Passage`: how code reads in the second run, and the tables of both runs;
* `Likeness.through`: functions whose code is taken over by one of several passages;
* `Stmt.returns`: whether a statement may end the function around it;
* `Setting`: where code runs, `Control.Like` and `Pending.Like` what it does and what waits there;
* `Comparison`, `Waits`, `State.Like`: the two runs, the second of which may have more to do at the
  end.
-/

namespace Wandika

theorem FunDecl.ids_eq (f : FunDecl) : f.ids = Stmt.idsAll f.body := by
  cases f
  rfl

/-! ### Passages -/

/-- How code reads in another run: how its trees are changed, and the tables that its nodes are
looked up in here and there. -/
structure Passage extends Relabel where
  here : Locals
  there : Locals
  plain : toRelabel.Plain

namespace Passage

/-- The nodes of the numbers have the same entries in both tables. -/
def Covers (p : Passage) (ids : List Int) : Prop :=
  ∀ i ∈ ids, p.there.distance? (i + p.offset) = p.here.distance? i

variable {p : Passage} {i : Int} {ids more : List Int}

theorem covers_cons : p.Covers (i :: ids) ↔ p.Covers [i] ∧ p.Covers ids := by
  simp [Covers]

theorem covers_append : p.Covers (ids ++ more) ↔ p.Covers ids ∧ p.Covers more := by
  simp [Covers, or_imp, forall_and]

theorem covers_idsAll {ss : List Stmt} : p.Covers (Stmt.idsAll ss) ↔ ∀ s ∈ ss, p.Covers s.ids := by
  induction ss with
  | nil => simp [Stmt.idsAll, Covers]
  | cons s ss ih => rw [Stmt.idsAll, covers_append, ih, List.forall_mem_cons]

/-- The function of the second run is the one of the first, taken over. -/
structure Takes (p : Passage) (f g : Closure) : Prop where
  locals : f.locals = p.here
  covers : p.Covers f.decl.ids
  eq : g = ⟨f.id, f.decl.relabel p.toRelabel, f.frame, p.there⟩

theorem Takes.alike {f g : Closure} (h : p.Takes f g) : f.Alike g := by
  obtain ⟨-, -, rfl⟩ := h
  refine ⟨rfl, rfl, ?_, ?_⟩
  · rw [FunDecl.name_relabel]
    exact p.plain _
  · simp only [FunDecl.params_relabel, List.map_map]
    exact List.map_congr_left fun t _ => p.plain t

end Passage

/-- Functions that one of the passages takes over. -/
def Likeness.through (ps : Set Passage) : Likeness where
  rel f g := ∃ p ∈ ps, p.Takes f g
  alike := fun ⟨_, _, h⟩ => h.alike

/-- The same error, at a token that one of the passages takes over. -/
def RuntimeError.Like (ps : Set Passage) (e e' : RuntimeError) : Prop :=
  ∃ p ∈ ps, e' = ⟨e.token.map p.token, e.cause⟩

/-! ### Returns -/

mutual

/-- Whether a statement may end the function around it. -/
def Stmt.returns : Stmt → Bool
  | .block body => Stmt.anyReturns body
  | .branch _ yes none => yes.returns
  | .branch _ yes (some no) => yes.returns || no.returns
  | .ret _ _ => true
  | .loop _ body => body.returns
  | .classDecl _ _ | .expr _ | .function _ | .print _ | .varDecl _ _ => false

/-- Whether one of several statements may end the function around them. -/
def Stmt.anyReturns : List Stmt → Bool
  | [] => false
  | s :: ss => s.returns || Stmt.anyReturns ss

end

theorem Stmt.anyReturns_eq (ss : List Stmt) : Stmt.anyReturns ss = ss.any Stmt.returns := by
  induction ss with
  | nil => rfl
  | cons s ss ih => rw [Stmt.anyReturns, ih, List.any_cons]

open Resolve in
mutual

/-- The analysis rejects returns outside of functions. -/
theorem Stmt.returns_of_ok : ∀ (s : Stmt) {r r' : Resolver}, Resolve.stmt s r = .ok () r' →
    r.region = .none → s.returns = false
  | .block body, r, r', h, hr => by
      obtain ⟨r₁, h₁, -⟩ := ok_inScope h
      exact Stmt.anyReturns_of_ok body h₁ hr
  | .branch cond yes none, r, r', h, hr => by
      obtain ⟨r₁, h₁, h₂⟩ := ok_bind.1 h
      exact Stmt.returns_of_ok yes h₂ ((Expr.looked [] cond h₁).region.trans hr)
  | .branch cond yes (some no), r, r', h, hr => by
      obtain ⟨r₁, h₁, h⟩ := ok_bind.1 h
      obtain ⟨r₂, h₂, h₃⟩ := ok_bind.1 h
      have hr₁ := (Expr.looked [] cond h₁).region.trans hr
      have hr₂ := (Stmt.analysed [] yes h₂).region.trans hr₁
      rw [Stmt.returns, Stmt.returns_of_ok yes h₂ hr₁, Stmt.returns_of_ok no h₃ hr₂]
      rfl
  | .ret keyword none, r, r', h, hr => by
      simp [Resolve.stmt, checkReturn, hr] at h
  | .ret keyword (some value), r, r', h, hr => by
      obtain ⟨r₁, h₁, -⟩ := ok_bind.1 h
      simp [checkReturn, hr] at h₁
  | .loop cond body, r, r', h, hr => by
      obtain ⟨r₁, h₁, h₂⟩ := ok_bind.1 h
      exact Stmt.returns_of_ok body h₂ ((Expr.looked [] cond h₁).region.trans hr)
  | .classDecl _ _, _, _, _, _ | .expr _, _, _, _, _ | .function _, _, _, _, _
  | .print _, _, _, _, _ | .varDecl _ _, _, _, _, _ => by simp [Stmt.returns]

theorem Stmt.anyReturns_of_ok : ∀ (ss : List Stmt) {r r' : Resolver},
    Resolve.stmts ss r = .ok () r' → r.region = .none → Stmt.anyReturns ss = false
  | [], _, _, _, _ => rfl
  | s :: ss, r, r', h, hr => by
      obtain ⟨r₁, h₁, h₂⟩ := ok_bind.1 h
      have hr₁ := (Stmt.analysed [] s h₁).region.trans hr
      rw [Stmt.anyReturns, Stmt.returns_of_ok s h₁ hr, Stmt.anyReturns_of_ok ss h₂ hr₁]
      rfl

end

/-! ### Code in its setting -/

/-- Where code runs: the passage that takes it over, whether it is the code of a call, the frame and
the number of calls. -/
structure Setting where
  passage : Passage
  inCall : Bool
  frame : FrameId
  depth : Nat

/-- The passage covers the statement, which returns in a call only. -/
structure Setting.Admits (c : Setting) (s : Stmt) : Prop where
  covers : c.passage.Covers s.ids
  returns : s.returns = true → c.inCall = true

namespace Setting.Admits

variable {c : Setting} {cond : Expr} {yes no body : Stmt}

theorem block {body : List Stmt} (h : c.Admits (.block body)) : ∀ s ∈ body, c.Admits s := by
  obtain ⟨hids, hreturns⟩ := h
  rw [Stmt.ids, Passage.covers_idsAll] at hids
  rw [Stmt.returns, Stmt.anyReturns_eq] at hreturns
  exact fun s hs => ⟨hids s hs, fun hr => hreturns (List.any_eq_true.2 ⟨s, hs, hr⟩)⟩

theorem branch (h : c.Admits (.branch cond yes none)) :
    c.passage.Covers cond.ids ∧ c.Admits yes := by
  obtain ⟨hids, hreturns⟩ := h
  rw [Stmt.ids, Passage.covers_append] at hids
  exact ⟨hids.1, hids.2, hreturns⟩

theorem branches (h : c.Admits (.branch cond yes (some no))) :
    c.passage.Covers cond.ids ∧ c.Admits yes ∧ c.Admits no := by
  obtain ⟨hids, hreturns⟩ := h
  rw [Stmt.ids, Passage.covers_append, Passage.covers_append] at hids
  rw [Stmt.returns, Bool.or_eq_true] at hreturns
  exact ⟨hids.1, ⟨hids.2.1, fun hr => hreturns (Or.inl hr)⟩,
    ⟨hids.2.2, fun hr => hreturns (Or.inr hr)⟩⟩

theorem loop (h : c.Admits (.loop cond body)) : c.passage.Covers cond.ids ∧ c.Admits body := by
  obtain ⟨hids, hreturns⟩ := h
  rw [Stmt.ids, Passage.covers_append] at hids
  exact ⟨hids.1, hids.2, hreturns⟩

end Setting.Admits

/-- The registers in the first run. -/
def Setting.here (c : Setting) : Registers := ⟨c.frame, c.passage.here, c.depth⟩

/-- The registers in the second run. -/
def Setting.there (c : Setting) : Registers := ⟨c.frame, c.passage.there, c.depth⟩

variable (ps : Set Passage) (c : Setting)

/-- The work at hand in both runs. -/
inductive Control.Like : Control → Control → Prop
  | eval {e : Expr} (h : c.passage.Covers e.ids) :
      Like (.eval e) (.eval (e.relabel c.passage.toRelabel))
  | exec {s : Stmt} (h : c.Admits s) : Like (.exec s) (.exec (s.relabel c.passage.toRelabel))
  | value {v w : Value} (h : v.Like (.through ps) w) : Like (.value v) (.value w)
  | next : Like (.done .next) (.done .next)
  | returned {v w : Value} (h : v.Like (.through ps) w) (hc : c.inCall = true) :
      Like (.done (.returned v)) (.done (.returned w))
  | raise {e e' : RuntimeError} (h : e.Like ps e') : Like (.raise e) (.raise e')

/-- Work that waits in both runs, in the same setting as the work at hand. -/
inductive Pending.Like : Pending → Pending → Prop
  | assign {id : Int} (name : Token) (h : c.passage.Covers [id]) :
      Like (.assign id name) (.assign (id + c.passage.offset) (c.passage.token name))
  | rightOperand (op : Token) {rhs : Expr} (h : c.passage.Covers rhs.ids) :
      Like (.rightOperand op rhs)
        (.rightOperand (c.passage.token op) (rhs.relabel c.passage.toRelabel))
  | binary (op : Token) {v w : Value} (h : v.Like (.through ps) w) :
      Like (.binary op v) (.binary (c.passage.token op) w)
  | callee (paren : Option Token) {args : List Expr} (h : c.passage.Covers (Expr.idsAll args)) :
      Like (.callee paren args)
        (.callee (paren.map c.passage.token) (Expr.relabelAll c.passage.toRelabel args))
  | argument (paren : Option Token) {v w : Value} {vs ws : List Value} {args : List Expr}
      (hv : v.Like (.through ps) w) (hvs : List.Forall₂ (Value.Like (.through ps)) vs ws)
      (h : c.passage.Covers (Expr.idsAll args)) :
      Like (.argument paren v vs args)
        (.argument (paren.map c.passage.token) w ws
          (Expr.relabelAll c.passage.toRelabel args))
  | property (name : Token) : Like (.property name) (.property (c.passage.token name))
  | logical (op : Token) {rhs : Expr} (h : c.passage.Covers rhs.ids) :
      Like (.logical op rhs) (.logical (c.passage.token op) (rhs.relabel c.passage.toRelabel))
  | fieldOwner (name : Token) {value : Expr} (h : c.passage.Covers value.ids) :
      Like (.fieldOwner name value)
        (.fieldOwner (c.passage.token name) (value.relabel c.passage.toRelabel))
  | fieldValue (name : Token) (owner : Object) :
      Like (.fieldValue name owner) (.fieldValue (c.passage.token name) owner)
  | choose {yes : Expr} {no : Option Expr} (hy : c.passage.Covers yes.ids)
      (hn : ∀ e ∈ no, c.passage.Covers e.ids) :
      Like (.choose yes no)
        (.choose (yes.relabel c.passage.toRelabel) (no.map (Expr.relabel c.passage.toRelabel)))
  | unary (op : Token) : Like (.unary op) (.unary (c.passage.token op))
  | discard (quiet : Bool) : Like (.discard quiet) (.discard quiet)
  | branch {yes : Stmt} {no : Option Stmt} (hy : c.Admits yes) (hn : ∀ s ∈ no, c.Admits s) :
      Like (.branch yes no)
        (.branch (yes.relabel c.passage.toRelabel) (no.map (Stmt.relabel c.passage.toRelabel)))
  | print : Like .print .print
  | ret (h : c.inCall = true) : Like .ret .ret
  | varDecl (name : Token) : Like (.varDecl name) (.varDecl (c.passage.token name))
  | loopCondition {cond : Expr} {body : Stmt} (hc : c.passage.Covers cond.ids)
      (hb : c.Admits body) :
      Like (.loopCondition cond body)
        (.loopCondition (cond.relabel c.passage.toRelabel) (body.relabel c.passage.toRelabel))
  | loopBody {cond : Expr} {body : Stmt} (hc : c.passage.Covers cond.ids) (hb : c.Admits body) :
      Like (.loopBody cond body)
        (.loopBody (cond.relabel c.passage.toRelabel) (body.relabel c.passage.toRelabel))
  | sequence {rest : List Stmt} (h : ∀ s ∈ rest, c.Admits s) :
      Like (.sequence rest) (.sequence (rest.map (Stmt.relabel c.passage.toRelabel)))

/-! ### States -/

/-- Two runs next to each other: the passages that take code over, the one of the program itself,
the statements that the second run goes on with after that program, if it goes on, and what it had
written before. -/
structure Comparison where
  passages : Set Passage
  top : Passage
  next : Option (List Stmt)
  written : List Output
  top_mem : top ∈ passages

/-- The setting of the program itself. -/
def Comparison.bottom (J : Comparison) : Setting := ⟨J.top, false, globalFrame, 0⟩

/-- What waits in both runs. Marks on the stack lead to the setting that they restore; below
everything wait the statements of the program. -/
inductive Waits (J : Comparison) : Setting → List Pending → List Pending → Prop
  | last {rest : List Stmt} (h : ∀ s ∈ rest, J.bottom.Admits s) :
      Waits J J.bottom [.sequence rest]
        [.sequence (rest.map (Stmt.relabel J.top.toRelabel) ++ J.next.getD [])]
  | cons {c : Setting} {k k' : Pending} {ks ks' : List Pending} (h : k.Like J.passages c k')
      (hs : Waits J c ks ks') : Waits J c (k :: ks) (k' :: ks')
  | leaveBlock {c : Setting} (outer : FrameId) {ks ks' : List Pending}
      (hs : Waits J { c with frame := outer } ks ks') :
      Waits J c (.leaveBlock outer :: ks) (.leaveBlock outer :: ks')
  | leaveCall {c caller : Setting} {ks ks' : List Pending} (h : c.inCall = true)
      (hp : caller.passage ∈ J.passages) (hs : Waits J caller ks ks') :
      Waits J c (.leaveCall caller.here :: ks) (.leaveCall caller.there :: ks')

/-- Two states are alike, apart from the work at hand. -/
structure Beside (J : Comparison) (c : Setting) (s t : State) : Prop where
  mem : c.passage ∈ J.passages
  here : s.registers = c.here
  there : t.registers = c.there
  waits : Waits J c s.stack t.stack
  store : s.store.Like (.through J.passages) t.store
  output : t.output = s.output ++ J.written

/-- How both runs end: with an error, or at the end of the program if the second run does not go
on. -/
inductive Ends (J : Comparison) : Control → Control → Prop
  | raise {e e' : RuntimeError} (h : e.Like J.passages e') : Ends J (.raise e) (.raise e')
  | next (h : J.next = none) : Ends J (.done .next) (.done .next)

/-- Two states are alike: both go on, or both have ended. -/
inductive State.Like (J : Comparison) (s t : State) : Prop
  | live (c : Setting) (beside : Beside J c s t) (control : s.control.Like J.passages c t.control)
  | ended (here : s.stack = []) (there : t.stack = []) (control : Ends J s.control t.control)
      (store : s.store.Like (.through J.passages) t.store)
      (output : t.output = s.output ++ J.written)

end Wandika
