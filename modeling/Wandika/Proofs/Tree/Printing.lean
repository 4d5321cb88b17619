import Wandika.Proofs.Tree.ReadBack

/-!
# Printed programs

* `Expr.proper_form`, `Stmt.proper_form`, `FunDecl.proper_form`: the forms of parsed trees are
  proper;
* `print_identifies`: two parsed programs that are printed alike are the same up to node numbers
  and places, and every statement is printed on a line of its own.
-/

namespace Wandika

/-! ### Forms of parsed trees are proper -/

theorem Datum.legible_of_fromText {d : Datum} (h : d.fromText = true)
    (hx : ∀ x ∈ (Expr.literal d).numbers, Decimal.Literal x) : d.Legible := by
  cases d with
  | nil | text | bool => trivial
  | number x => exact hx x (by simp [Expr.numbers])
  | absent | cls | object => cases h

theorem Form.properAll_body {fs : List Form} (h : Form.ProperAll fs) :
    Form.ProperAll (Form.body fs) := by
  cases fs with
  | nil => exact ⟨(by decide : isWord "" = true), trivial⟩
  | cons f fs => exact h

theorem Form.body_ne_nil (fs : List Form) : Form.body fs ≠ [] := by
  cases fs <;> exact List.cons_ne_nil _ _

theorem Form.properAll_names {params : List Token} (hk : ∀ t ∈ params, t.kind = .identifier)
    (ht : ∀ t ∈ params, t.Scanned) : Form.ProperAll (Form.names params) := by
  refine Form.properAll_body ?_
  induction params with
  | nil => trivial
  | cons t params ih =>
    rw [List.forall_mem_cons] at hk ht
    exact ⟨ht.1.isWord_lexeme hk.1, ih hk.2 ht.2⟩

theorem Token.Scanned.isWord_operator {op : Token} (h : op.Scanned)
    (hk : op.kind ∈ Kind.operators) : isWord op.lexeme = true := by
  have hwords : ∀ k ∈ Kind.operators, isWord k.spelling = true := by decide
  rw [(h.operator hk).2]
  exact hwords _ hk

/-- A list with a head is proper if its parts are. -/
theorem Form.proper_list {head : String} {parts : List Form} (hhead : isWord head = true)
    (h : Form.ProperAll parts) : (Form.list (.word head :: parts)).Proper :=
  ⟨List.cons_ne_nil _ _, hhead, h⟩

mutual

theorem Expr.proper_form : ∀ e : Expr, e.Shaped → (∀ t ∈ e.tokens, t.Scanned) →
    (∀ x ∈ e.numbers, Decimal.Literal x) → e.form.Proper
  | .assign _ name value, hs, ht, hx => by
      obtain ⟨hn, hv⟩ := List.forall_mem_cons.1 ht
      exact Form.proper_list (by decide)
        ⟨hn.isWord_lexeme hs.1, Expr.proper_form value hs.2 hv hx, trivial⟩
  | .binary op lhs rhs, ⟨⟨_, _, hjoin⟩, hsl, hsr⟩, ht, hx
  | .logical op lhs rhs, ⟨⟨_, _, hjoin⟩, hsl, hsr⟩, ht, hx => by
      obtain ⟨ho, hl, hr⟩ := (List.forall_mem_cons.1 ht).imp_right List.forall_mem_append.1
      obtain ⟨hxl, hxr⟩ := List.forall_mem_append.1 hx
      exact Form.proper_list (ho.isWord_operator (Level.mem_operators hjoin.op_mem))
        ⟨Expr.proper_form lhs hsl hl hxl, Expr.proper_form rhs hsr hr hxr, trivial⟩
  | .call callee paren args, hs, ht, hx => by
      obtain ⟨-, hc, ha⟩ := (List.forall_mem_append.1 ht).imp_right List.forall_mem_append.1
      obtain ⟨hxc, hxa⟩ := List.forall_mem_append.1 hx
      exact Form.proper_list (by decide)
        ⟨Expr.proper_form callee hs.2.1 hc hxc, Expr.properAll_formAll args hs.2.2.1 ha hxa⟩
  | .get object name, hs, ht, hx => by
      obtain ⟨hn, ho⟩ := List.forall_mem_cons.1 ht
      exact Form.proper_list (by decide)
        ⟨Expr.proper_form object hs.2.1 ho hx, hn.isWord_lexeme hs.2.2, trivial⟩
  | .group inner, hs, ht, hx =>
      Form.proper_list (by decide) ⟨Expr.proper_form inner hs ht hx, trivial⟩
  | .literal value, hs, _, hx => Datum.legible_of_fromText hs hx
  | .set object name value, hs, ht, hx => by
      obtain ⟨hn, ho, hv⟩ := (List.forall_mem_cons.1 ht).imp_right List.forall_mem_append.1
      obtain ⟨hxo, hxv⟩ := List.forall_mem_append.1 hx
      exact Form.proper_list (by decide)
        ⟨Form.proper_list (by decide)
            ⟨Expr.proper_form object hs.2.1 ho hxo, hn.isWord_lexeme hs.2.2.1, trivial⟩,
          Expr.proper_form value hs.2.2.2 hv hxv, trivial⟩
  | .ternary cond question yes none, hs, ht, hx => by
      obtain ⟨-, hc, hy⟩ := (List.forall_mem_append.1 ht).imp_right List.forall_mem_append.1
      obtain ⟨hxc, hxy⟩ := List.forall_mem_append.1 hx
      exact Form.proper_list (by decide)
        ⟨Expr.proper_form cond hs.2.1 hc hxc, Expr.proper_form yes hs.2.2 hy hxy, trivial⟩
  | .ternary cond question yes (some no), hs, ht, hx => by
      obtain ⟨-, hc, hrest⟩ := (List.forall_mem_append.1 ht).imp_right List.forall_mem_append.1
      obtain ⟨hy, hn⟩ := List.forall_mem_append.1 hrest
      obtain ⟨hxc, hxy, hxn⟩ := (List.forall_mem_append.1 hx).imp_right List.forall_mem_append.1
      exact Form.proper_list (by decide)
        ⟨Expr.proper_form cond hs.2.1 hc hxc, Expr.proper_form yes hs.2.2.1 hy hxy,
          Expr.proper_form no hs.2.2.2.2 hn hxn, trivial⟩
  | .unary op operand, hs, ht, hx => by
      obtain ⟨ho, he⟩ := List.forall_mem_cons.1 ht
      have hop : ∀ k ∈ [Kind.bang, .minus], k ∈ Kind.operators := by decide
      exact Form.proper_list (ho.isWord_operator (hop _ hs.1))
        ⟨Expr.proper_form operand hs.2.2 he hx, trivial⟩
  | .variable _ name, hs, ht, _ => (ht name (by simp [Expr.tokens])).isWord_lexeme hs

theorem Expr.properAll_formAll : ∀ es : List Expr, Expr.ShapedAll es →
    (∀ t ∈ Expr.tokensAll es, t.Scanned) → (∀ x ∈ Expr.numbersAll es, Decimal.Literal x) →
    Form.ProperAll (Expr.formAll es)
  | [], _, _, _ => trivial
  | e :: es, hs, ht, hx => by
      obtain ⟨he, hes⟩ := List.forall_mem_append.1 ht
      obtain ⟨hxe, hxes⟩ := List.forall_mem_append.1 hx
      exact ⟨Expr.proper_form e hs.1 he hxe, Expr.properAll_formAll es hs.2 hes hxes⟩

end

mutual

theorem Stmt.proper_form : ∀ s : Stmt, s.Shaped → (∀ t ∈ s.tokens, t.Scanned) →
    (∀ x ∈ s.numbers, Decimal.Literal x) → s.form.Proper
  | .block body, hs, ht, hx =>
      Form.proper_list (by decide) (Form.properAll_body (Stmt.properAll_formAll body hs ht hx))
  | .classDecl name methods, hs, ht, hx => by
      obtain ⟨hn, hf⟩ := List.forall_mem_cons.1 ht
      exact Form.proper_list (by decide)
        ⟨hn.isWord_lexeme hs.1, FunDecl.properAll_formAll methods hs.2 hf hx⟩
  | .expr value, hs, ht, hx | .print value, hs, ht, hx =>
      Form.proper_list (by decide) ⟨Expr.proper_form value hs ht hx, trivial⟩
  | .function decl, hs, ht, hx => FunDecl.proper_form decl hs ht hx
  | .branch cond yes none, hs, ht, hx => by
      obtain ⟨hc, hy⟩ := List.forall_mem_append.1 ht
      obtain ⟨hxc, hxy⟩ := List.forall_mem_append.1 hx
      exact Form.proper_list (by decide)
        ⟨Expr.proper_form cond hs.1 hc hxc, Stmt.proper_form yes hs.2.1 hy hxy, trivial⟩
  | .branch cond yes (some no), hs, ht, hx => by
      obtain ⟨hc, hy, hn⟩ := (List.forall_mem_append.1 ht).imp_right List.forall_mem_append.1
      obtain ⟨hxc, hxy, hxn⟩ := (List.forall_mem_append.1 hx).imp_right List.forall_mem_append.1
      exact Form.proper_list (by decide)
        ⟨Expr.proper_form cond hs.1 hc hxc, Stmt.proper_form yes hs.2.1 hy hxy,
          Stmt.proper_form no hs.2.2.2.2.1 hn hxn, trivial⟩
  | .ret keyword none, _, _, _ => Form.proper_list (by decide) trivial
  | .ret keyword (some value), hs, ht, hx =>
      Form.proper_list (by decide)
        ⟨Expr.proper_form value hs (List.forall_mem_append.1 ht).2 hx, trivial⟩
  | .varDecl name none, hs, ht, _ =>
      Form.proper_list (by decide)
        ⟨(ht name (by simp [Stmt.tokens])).isWord_lexeme hs, trivial⟩
  | .varDecl name (some init), hs, ht, hx => by
      obtain ⟨hn, hi⟩ := List.forall_mem_cons.1 ht
      exact Form.proper_list (by decide)
        ⟨hn.isWord_lexeme hs.1, Expr.proper_form init hs.2 hi hx, trivial⟩
  | .loop cond body, hs, ht, hx => by
      obtain ⟨hc, hb⟩ := List.forall_mem_append.1 ht
      obtain ⟨hxc, hxb⟩ := List.forall_mem_append.1 hx
      exact Form.proper_list (by decide)
        ⟨Expr.proper_form cond hs.1 hc hxc, Stmt.proper_form body hs.2.1 hb hxb, trivial⟩

theorem FunDecl.proper_form : ∀ f : FunDecl, f.Shaped → (∀ t ∈ f.tokens, t.Scanned) →
    (∀ x ∈ f.numbers, Decimal.Literal x) → f.form.Proper
  | .mk name params body, hs, ht, hx => by
      obtain ⟨hn, hp, hb⟩ := (List.forall_mem_cons.1 ht).imp_right List.forall_mem_append.1
      exact Form.proper_list (by decide)
        ⟨hn.isWord_lexeme hs.1, ⟨Form.body_ne_nil _, Form.properAll_names hs.2.1 hp⟩,
          Form.properAll_body (Stmt.properAll_formAll body hs.2.2.2 hb hx)⟩

theorem Stmt.properAll_formAll : ∀ ss : List Stmt, Stmt.ShapedAll ss →
    (∀ t ∈ Stmt.tokensAll ss, t.Scanned) → (∀ x ∈ Stmt.numbersAll ss, Decimal.Literal x) →
    Form.ProperAll (Stmt.formAll ss)
  | [], _, _, _ => trivial
  | s :: ss, hs, ht, hx => by
      obtain ⟨h, hss⟩ := List.forall_mem_append.1 ht
      obtain ⟨hxs, hxss⟩ := List.forall_mem_append.1 hx
      exact ⟨Stmt.proper_form s hs.1 h hxs, Stmt.properAll_formAll ss hs.2 hss hxss⟩

theorem FunDecl.properAll_formAll : ∀ fs : List FunDecl, FunDecl.ShapedAll fs →
    (∀ t ∈ FunDecl.tokensAll fs, t.Scanned) → (∀ x ∈ FunDecl.numbersAll fs, Decimal.Literal x) →
    Form.ProperAll (FunDecl.formAll fs)
  | [], _, _, _ => trivial
  | f :: fs, hs, ht, hx => by
      obtain ⟨h, hfs⟩ := List.forall_mem_append.1 ht
      obtain ⟨hxf, hxfs⟩ := List.forall_mem_append.1 hx
      exact ⟨FunDecl.proper_form f hs.1 h hxf, FunDecl.properAll_formAll fs hs.2 hfs hxfs⟩

end

/-! ### Lines -/

/-- Every form on a line of its own. -/
def Form.lines (fs : List Form) : List Char :=
  (Form.textAll fs).flatMap (· ++ ['\n'])

theorem Stmt.toList_renderStmts (ss : List Stmt) :
    (renderStmts ss).toList = Form.lines (Stmt.formAll ss) := by
  rw [renderStmts, String.toList_join, Form.lines, Stmt.textAll_formAll, List.flatMap_map,
    List.flatMap_map]
  simp

/-- Forms can be read off their lines. -/
theorem Form.lines_inj : ∀ {fs gs : List Form}, Form.ProperAll fs → Form.ProperAll gs →
    Form.lines fs = Form.lines gs → fs = gs
  | [], [], _, _, _ => rfl
  | [], g :: gs, _, _, h => by simp [Form.lines] at h
  | f :: fs, [], _, _, h => by simp [Form.lines] at h
  | f :: fs, g :: gs, hf, hg, h => by
      have hstop : ∀ r, Stopped ('\n' :: r) := fun r => by simp [Stopped]
      have h : f.text ++ '\n' :: Form.lines fs = g.text ++ '\n' :: Form.lines gs := by
        simpa [Form.lines] using h
      obtain ⟨rfl, hrest⟩ := Form.text_append_inj hf.1 hg.1 (hstop _) (hstop _) h
      rw [Form.lines_inj hf.2 hg.2 (List.cons.inj hrest).2]

/-- Between the line ends stand the forms, one by one. -/
theorem Form.splitOn_lines {fs : List Form} (hfs : Form.ProperAll fs) :
    (Form.lines fs).splitOn '\n' = Form.textAll fs ++ [[]] := by
  induction fs with
  | nil => rfl
  | cons f fs ih =>
    have hcons : Form.lines (f :: fs) = f.text ++ '\n' :: Form.lines fs := by simp [Form.lines]
    rw [hcons, List.splitOn_append_cons_self_of_not_mem (Form.newline_notMem_text hfs.1), ih hfs.2]
    rfl

theorem Stmt.renderAll_eq (ss : List Stmt) : Stmt.renderAll ss = ss.map Stmt.render := by
  induction ss with
  | nil => rfl
  | cons s ss ih => rw [Stmt.renderAll, ih, List.map_cons]

/-! ### Parsed programs -/

namespace Program.FromText

variable {source : List Char} {c c' : Cursor} {p : Program}

theorem scanned_of_mem (h : p.FromText source c c') :
    ∀ t ∈ Stmt.tokensAll p.stmts, t.Scanned :=
  fun _ ht => scanned_of_mem_scan (h.mem_scan ht)

theorem properAll_form (h : p.FromText source c c') : Form.ProperAll (Stmt.formAll p.stmts) :=
  Stmt.properAll_formAll p.stmts h.ensures.2.1 h.scanned_of_mem fun _ hx => h.literal_of_mem hx

/-- The forms of a parsed program show the program. -/
theorem stmts?_form (h : p.FromText source c c') :
    Form.stmts? (Stmt.formAll p.stmts) = some (Stmt.unplacedAll p.stmts) :=
  Stmt.stmts?_formAll p.stmts h.ensures.2.1 (Parser.marked_program h.program_eq) h.scanned_of_mem

end Program.FromText

/-- A printed program can be read in one way only: two parsed programs that are printed alike are
the same up to node numbers and places. Between the line ends of a printed program stand its
statements, one by one. -/
theorem print_identifies {source source' : List Char} {c₁ c₁' c₂ c₂' : Cursor} {p q : Program}
    (hp : p.FromText source c₁ c₁') (hq : q.FromText source' c₂ c₂') :
    (p.render = q.render → Stmt.unplacedAll p.stmts = Stmt.unplacedAll q.stmts) ∧
      p.render.toList.splitOn '\n' = p.stmts.map (·.render.toList) ++ [[]] := by
  refine ⟨fun h => ?_, ?_⟩
  · have hlines := congrArg String.toList h
    rw [Program.render, Program.render, Stmt.toList_renderStmts, Stmt.toList_renderStmts] at hlines
    have hforms := Form.lines_inj hp.properAll_form hq.properAll_form hlines
    refine Option.some.inj ?_
    rw [← hp.stmts?_form, ← hq.stmts?_form, hforms]
  · rw [Program.render, Stmt.toList_renderStmts, Form.splitOn_lines hp.properAll_form,
      Stmt.textAll_formAll, Stmt.renderAll_eq, List.map_map]
    rfl

theorem print_identifies_spacing :
    ∃ (p q : Program) (c c' : Cursor),
      p.FromText "f(1.50, \"a\nb\");".toList
        { rest := (scan "f(1.50, \"a\nb\");".toList).tokens } c ∧
      q.FromText "// f\n f ( 1.5 , \"a\nb\" ) ;".toList
        { rest := (scan "// f\n f ( 1.5 , \"a\nb\" ) ;".toList).tokens } c' ∧
      p.render = q.render ∧ Stmt.unplacedAll p.stmts = Stmt.unplacedAll q.stmts ∧
      p.render.toList.splitOn '\n' = p.stmts.map (·.render.toList) ++ [[]] := by
  obtain ⟨p, c, hp⟩ : ∃ p c, Program.parse
      { rest := (scan "f(1.50, \"a\nb\");".toList).tokens } = (.ok p, c) := ⟨_, _, rfl⟩
  obtain ⟨q, c', hq⟩ : ∃ q c', Program.parse
      { rest := (scan "// f\n f ( 1.5 , \"a\nb\" ) ;".toList).tokens } = (.ok q, c') :=
    ⟨_, _, rfl⟩
  have hrender : p.render = q.render := by
    have hsame :
        (Program.parse { rest := (scan "f(1.50, \"a\nb\");".toList).tokens }).1.toOption.map
          Program.render =
        (Program.parse
          { rest := (scan "// f\n f ( 1.5 , \"a\nb\" ) ;".toList).tokens }).1.toOption.map
          Program.render := by decide +kernel
    rw [hp, hq] at hsame
    exact Option.some.inj hsame
  have hp' : p.FromText _ _ c := ⟨List.suffix_rfl, hp⟩
  have hq' : q.FromText _ _ c' := ⟨List.suffix_rfl, hq⟩
  obtain ⟨hsame, hlines⟩ := print_identifies hp' hq'
  exact ⟨p, q, c, c', hp', hq', hrender, hsame hrender, hlines⟩

end Wandika
