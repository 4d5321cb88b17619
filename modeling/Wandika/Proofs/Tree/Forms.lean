import Wandika.Proofs.Text.Quoting
import Wandika.Tree.Printer

/-!
# Printed trees as nested lists

A printed tree is a list in parentheses of words, data and further lists.

* `Form`: words, data and lists; `Form.text`: how they are written;
* `Expr.form`, `Stmt.form`, `FunDecl.form`: the forms of trees;
* `Expr.text_form`, `Stmt.text_form`, `FunDecl.text_form`: a tree is printed as its form.
-/

namespace Wandika

/-- What a printed tree consists of. -/
inductive Form
  | word (text : String)
  | datum (d : Datum)
  | list (parts : List Form)

mutual

/-- How a form is written. -/
def Form.text : Form → List Char
  | .word text => text.toList
  | .datum d => d.renderQuoted.toList
  | .list parts => '(' :: ([' '].intercalate (Form.textAll parts) ++ [')'])

/-- How several forms are written. -/
def Form.textAll : List Form → List (List Char)
  | [] => []
  | f :: fs => f.text :: Form.textAll fs

end

/-- Parts that are written as one. Where there are none, the place is still kept by an empty
word. -/
def Form.body : List Form → List Form
  | [] => [.word ""]
  | f :: fs => f :: fs

/-- The names of tokens. -/
def Form.names (ts : List Token) : List Form :=
  Form.body (ts.map fun t => .word t.lexeme)

mutual

/-- The form of an expression. -/
def Expr.form : Expr → Form
  | .assign _ name value => .list [.word "=", .word name.lexeme, value.form]
  | .binary op lhs rhs => .list [.word op.lexeme, lhs.form, rhs.form]
  | .call callee _ args => .list (.word "call" :: callee.form :: Expr.formAll args)
  | .get object name => .list [.word ".", object.form, .word name.lexeme]
  | .group inner => .list [.word "group", inner.form]
  | .literal value => .datum value
  | .logical op lhs rhs => .list [.word op.lexeme, lhs.form, rhs.form]
  | .set object name value =>
      .list [.word "=", .list [.word ".", object.form, .word name.lexeme], value.form]
  | .ternary cond _ yes none => .list [.word "?:", cond.form, yes.form]
  | .ternary cond _ yes (some no) => .list [.word "?:", cond.form, yes.form, no.form]
  | .unary op operand => .list [.word op.lexeme, operand.form]
  | .variable _ name => .word name.lexeme

/-- The forms of several expressions. -/
def Expr.formAll : List Expr → List Form
  | [] => []
  | e :: es => e.form :: Expr.formAll es

end

mutual

/-- The form of a statement. -/
def Stmt.form : Stmt → Form
  | .block body => .list (.word "block" :: Form.body (Stmt.formAll body))
  | .classDecl name methods => .list (.word "class" :: .word name.lexeme :: FunDecl.formAll methods)
  | .expr value => .list [.word ";", value.form]
  | .function decl => decl.form
  | .branch cond yes none => .list [.word "if", cond.form, yes.form]
  | .branch cond yes (some no) => .list [.word "if", cond.form, yes.form, no.form]
  | .print value => .list [.word "wandika", value.form]
  | .ret _ none => .list [.word "return"]
  | .ret _ (some value) => .list [.word "return", value.form]
  | .varDecl name none => .list [.word "var", .word name.lexeme]
  | .varDecl name (some init) => .list [.word "var", .word name.lexeme, init.form]
  | .loop cond body => .list [.word "albeit", cond.form, body.form]

/-- The form of a function. -/
def FunDecl.form : FunDecl → Form
  | .mk name params body =>
      .list (.word "func" :: .word name.lexeme :: .list (Form.names params) ::
        Form.body (Stmt.formAll body))

/-- The forms of several statements. -/
def Stmt.formAll : List Stmt → List Form
  | [] => []
  | s :: ss => s.form :: Stmt.formAll ss

/-- The forms of several functions. -/
def FunDecl.formAll : List FunDecl → List Form
  | [] => []
  | f :: fs => f.form :: FunDecl.formAll fs

end

/-! ### A tree is printed as its form -/

attribute [simp] Form.text Form.textAll

@[simp] theorem toList_parenthesize (head : String) (parts : List String) :
    (parenthesize head parts).toList =
      '(' :: ([' '].intercalate (head.toList :: parts.map String.toList) ++ [')']) := by
  simp [parenthesize, String.toList_intercalate]

/-- Parts at the end that are joined before come to the same as the parts one by one. -/
theorem intercalate_append (sep : List Char) (front : List (List Char)) {back : List (List Char)}
    (h : back ≠ []) :
    sep.intercalate (front ++ back) = sep.intercalate (front ++ [sep.intercalate back]) := by
  induction front with
  | nil => simp
  | cons text front ih =>
    rw [List.cons_append, List.cons_append, List.intercalate_cons_of_ne_nil (by simp [h]), ih,
      List.intercalate_cons_of_ne_nil (by simp)]

theorem Form.toList_joined (texts : List String) :
    (String.intercalate " " texts).toList = [' '].intercalate (texts.map String.toList) :=
  String.toList_intercalate

theorem Form.intercalate_body (front : List (List Char)) (fs : List Form) :
    [' '].intercalate (front ++ Form.textAll (Form.body fs)) =
      [' '].intercalate (front ++ [[' '].intercalate (Form.textAll fs)]) := by
  cases fs with
  | nil => simp [Form.body]
  | cons f fs => exact intercalate_append _ _ (by simp [Form.body])

theorem Form.text_names (ts : List Token) :
    (Form.list (Form.names ts)).text =
      ("(" ++ String.intercalate " " (ts.map (·.lexeme)) ++ ")").toList := by
  have htexts : Form.textAll (ts.map fun t => .word t.lexeme) =
      (ts.map (·.lexeme)).map String.toList := by
    induction ts with
    | nil => rfl
    | cons t ts ih => simp [ih]
  have hbody := Form.intercalate_body [] (ts.map fun t => .word t.lexeme)
  rw [htexts] at hbody
  simpa [Form.names] using hbody

mutual

theorem Expr.text_form : ∀ e : Expr, e.form.text = e.render.toList
  | .assign _ name value => by simp [Expr.form, Expr.render, Expr.text_form value]
  | .binary _ lhs rhs | .logical _ lhs rhs => by
      simp [Expr.form, Expr.render, Expr.text_form lhs, Expr.text_form rhs]
  | .call callee _ args => by
      simp [Expr.form, Expr.render, Expr.text_form callee, Expr.textAll_formAll args]
  | .get object name => by simp [Expr.form, Expr.render, Expr.text_form object]
  | .group inner => by simp [Expr.form, Expr.render, Expr.text_form inner]
  | .literal value => rfl
  | .set object name value => by
      simp [Expr.form, Expr.render, Expr.text_form object, Expr.text_form value]
  | .ternary cond _ yes none => by
      simp [Expr.form, Expr.render, Expr.text_form cond, Expr.text_form yes]
  | .ternary cond _ yes (some no) => by
      simp [Expr.form, Expr.render, Expr.text_form cond, Expr.text_form yes, Expr.text_form no]
  | .unary _ operand => by simp [Expr.form, Expr.render, Expr.text_form operand]
  | .variable _ name => rfl

theorem Expr.textAll_formAll : ∀ es : List Expr,
    Form.textAll (Expr.formAll es) = (Expr.renderAll es).map String.toList
  | [] => rfl
  | e :: es => by simp [Expr.formAll, Expr.renderAll, Expr.text_form e, Expr.textAll_formAll es]

end

mutual

theorem Stmt.text_form : ∀ s : Stmt, s.form.text = s.render.toList
  | .block body => by
      -- the statements are joined to one part before the list is made
      have hbody := Form.intercalate_body ["block".toList] (Stmt.formAll body)
      rw [Stmt.textAll_formAll body, ← Form.toList_joined] at hbody
      rw [Stmt.render, toList_parenthesize]
      exact congrArg (fun text => '(' :: (text ++ [')'])) hbody
  | .classDecl name methods => by
      simp [Stmt.form, Stmt.render, FunDecl.textAll_formAll methods]
  | .expr value | .print value | .ret _ (some value) | .varDecl _ (some value) => by
      simp [Stmt.form, Stmt.render, Expr.text_form value]
  | .function decl => FunDecl.text_form decl
  | .branch cond yes none => by
      simp [Stmt.form, Stmt.render, Expr.text_form cond, Stmt.text_form yes]
  | .branch cond yes (some no) => by
      simp [Stmt.form, Stmt.render, Expr.text_form cond, Stmt.text_form yes, Stmt.text_form no]
  | .ret _ none | .varDecl _ none => by simp [Stmt.form, Stmt.render]
  | .loop cond body => by
      simp [Stmt.form, Stmt.render, Expr.text_form cond, Stmt.text_form body]

theorem FunDecl.text_form : ∀ f : FunDecl, f.form.text = f.render.toList
  | .mk name params body => by
      have hbody := Form.intercalate_body
        ["func".toList, name.lexeme.toList, (Form.list (Form.names params)).text]
        (Stmt.formAll body)
      rw [Stmt.textAll_formAll body, ← Form.toList_joined, Form.text_names] at hbody
      rw [FunDecl.form, Form.text, Form.textAll, Form.textAll, Form.textAll, Form.text_names,
        FunDecl.render, toList_parenthesize]
      exact congrArg (fun text => '(' :: (text ++ [')'])) hbody

theorem Stmt.textAll_formAll : ∀ ss : List Stmt,
    Form.textAll (Stmt.formAll ss) = (Stmt.renderAll ss).map String.toList
  | [] => rfl
  | s :: ss => by simp [Stmt.formAll, Stmt.renderAll, Stmt.text_form s, Stmt.textAll_formAll ss]

theorem FunDecl.textAll_formAll : ∀ fs : List FunDecl,
    Form.textAll (FunDecl.formAll fs) = (FunDecl.renderAll fs).map String.toList
  | [] => rfl
  | f :: fs => by
      simp [FunDecl.formAll, FunDecl.renderAll, FunDecl.text_form f, FunDecl.textAll_formAll fs]

end

end Wandika
