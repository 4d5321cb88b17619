import Wandika.Proofs.Parser.Expressions
import Wandika.Proofs.Tree.Grammar

/-!
# Derivable expressions are not rejected

The grammar lets a condition go without its second branch, so a `:` after an expression may belong
to the expression or to a condition around it. The parser gives it to the expression. Therefore a
rule that meets a derivable word, followed by branches of conditions around it, may read some of
those branches too: what it leaves is still a list of branches.

* `Grammar.branches`: words that follow, each after the mark that announces it;
* `Cursor.kinds`: the kinds of the tokens that are left;
* `DerivedExpr`: what the rules for expressions do with derivable words at one bound;
* `derivedExpr`: what they do at every bound.
-/

namespace Wandika

namespace Grammar

open Form

/-- Words that follow, each after a mark of the kind, and then the word `v`. -/
def branches (k : Kind) (ws : List (List Kind)) (v : List Kind) : List Kind :=
  (ws.map (k :: ·)).flatten ++ v

@[simp] theorem branches_cons (k : Kind) (w : List Kind) (ws : List (List Kind)) (v : List Kind) :
    branches k (w :: ws) v = k :: (w ++ branches k ws v) := by
  simp [branches]

theorem branches_append (k : Kind) (ws : List (List Kind)) (u v : List Kind) :
    branches k ws u ++ v = branches k ws (u ++ v) := by
  simp [branches]

theorem suffix_tail {xs ys : List (List Kind)} (h : xs <:+ ys) : xs.tail <:+ ys.tail := by
  obtain ⟨zs, rfl⟩ := h
  cases zs with
  | nil => exact List.suffix_refl _
  | cons z zs => exact (List.tail_suffix xs).trans (List.suffix_append zs xs)

/-- An optional last branch and the branches after it are the branches that may follow what stands
before them. -/
theorem branches_of_opt {k : Kind} {a : Form} {o : List Kind} {ws : List (List Kind)}
    (ho : o = [] ∨ ∃ u w, o = u ++ w ∧ u = [k] ∧ Derives a w) (hws : ∀ x ∈ ws, Derives a x)
    (v : List Kind) :
    ∃ all : List (List Kind), (∀ x ∈ all, Derives a x) ∧ all.tail <:+ ws ∧
      o ++ branches k ws v = branches k all v := by
  rcases ho with rfl | ⟨_, w, rfl, rfl, hw⟩
  · exact ⟨ws, hws, List.tail_suffix ws, rfl⟩
  · exact ⟨w :: ws, by simpa using ⟨hw, hws⟩, List.suffix_refl _, by simp⟩

/-- Up to 255 words of one form, with commas between them. -/
theorem listed_of_derives {a : Form} {w : List Kind}
    (h : Derives (a ++ upTo 254 (tok .comma ++ a)) w) :
    ∃ (u : List Kind) (us : List (List Kind)), us.length < maxArguments ∧ Derives a u ∧
      (∀ x ∈ us, Derives a x) ∧ w = u ++ branches .comma us [] := by
  simp only [derives_seq, derives_tok, derives_upTo] at h
  obtain ⟨u, _, rfl, hu, xs, hl, hxs, rfl⟩ := h
  suffices ∃ us : List (List Kind), us.length = xs.length ∧ (∀ x ∈ us, Derives a x) ∧
      xs.flatten = branches .comma us [] by
    obtain ⟨us, hlen, hus, e⟩ := this
    exact ⟨u, us, by simp only [maxArguments]; omega, hu, hus, by rw [e]⟩
  clear hl
  induction xs with
  | nil => exact ⟨[], rfl, by simp, rfl⟩
  | cons x xs ih =>
    simp only [List.forall_mem_cons] at hxs
    obtain ⟨⟨_, v, rfl, rfl, hv⟩, hxs⟩ := hxs
    obtain ⟨us, hlen, hus, e⟩ := ih hxs
    exact ⟨v :: us, by simp [hlen], by simpa using ⟨hv, hus⟩, by simp [e]⟩

theorem head?_branches {k : Kind} {ws : List (List Kind)} {v : List Kind} :
    (branches k ws v).head? = some k ∨ (branches k ws v).head? = v.head? := by
  cases ws with
  | nil => exact Or.inr rfl
  | cons w ws => exact Or.inl (by simp)

/-- The word begins with a mark that ends an expression. -/
def Stops (v : List Kind) : Prop :=
  v.head? = some .semicolon ∨ v.head? = some .rightParen ∨ v.head? = some .comma

theorem Stops.avoids {ks v : List Kind} (h : Stops v)
    (hk : ∀ k ∈ [Kind.semicolon, .rightParen, .comma], k ∉ ks) : Avoids ks v := by
  rcases h with h | h | h <;> exact Avoids.of_head? h (hk _ (by simp))

theorem Stops.avoids_branches {ks v : List Kind} {ws : List (List Kind)} (h : Stops v)
    (hk : ∀ k ∈ [Kind.semicolon, .rightParen, .comma, .colon], k ∉ ks) :
    Avoids ks (branches .colon ws v) := by
  rcases @head?_branches .colon ws v with e | e
  · exact Avoids.of_head? e (hk _ (by simp))
  · intro k hk'
    rw [e]
    refine h.avoids (fun k hs => hk k ?_) k hk'
    simp only [List.mem_cons, List.not_mem_nil, or_false] at hs ⊢
    tauto

end Grammar

open Grammar Grammar.Form

/-! ### Known kinds -/

/-- The kinds of the tokens that are left. -/
def Cursor.kinds (c : Cursor) : List Kind := c.rest.map Token.kind

/-- Every failure but the rejection of a token. -/
def Failure.Other : Failure → Prop
  | .rejected _ => False
  | _ => True

namespace Cursor

variable {c : Cursor} {k : Kind} {v : List Kind}

theorem Takes.kinds {c' : Cursor} {t : Token} (h : c.Takes t c') :
    c.kinds = t.kind :: c'.kinds := by
  rw [Cursor.kinds, h.rest]
  rfl

theorem sees_of_kinds (h : c.kinds = k :: v) (hk : k ≠ .eof) : c.sees k = true := by
  unfold Cursor.kinds at h
  cases hr : c.rest with
  | nil => simp [hr] at h
  | cons t ts =>
    simp only [hr, List.map_cons, List.cons.injEq] at h
    simp [sees, atEnd, peek, hr, h.1, hk]

theorem atEnd_of_kinds (h : c.kinds = .eof :: v) : c.atEnd = true := by
  unfold Cursor.kinds at h
  cases hr : c.rest with
  | nil => simp [hr] at h
  | cons t ts =>
    simp only [hr, List.map_cons, List.cons.injEq] at h
    simp [atEnd, peek, hr, h.1]

theorem atEnd_of_begins {ks : List Kind} (h : Begins ks c.kinds) (hk : .eof ∉ ks) :
    c.atEnd = false := by
  obtain ⟨k, hm, v, hc⟩ := h
  have hs := sees_of_kinds hc fun e => hk (e ▸ hm)
  simp only [sees, Bool.and_eq_true, Bool.not_eq_true'] at hs
  exact hs.1

theorem sees_of_avoids {ks : List Kind} (h : Avoids ks c.kinds) (hk : k ∈ ks) :
    c.sees k = false := by
  by_contra hs
  obtain ⟨ht, rfl⟩ := sees_eq_true (by simpa using hs)
  exact h _ hk (by rw [ht.kinds]; rfl)

end Cursor

namespace Parser

section KnownKinds

variable {α : Type} {c : Cursor} {post : α → Cursor → Prop} {may : Failure → Prop}
  {k : Kind} {v : List Kind}

theorem Ensures.expect_known {cause : ParseCause} {next : Token → Parser α}
    (hk : c.kinds = k :: v) (he : k ≠ .eof)
    (h : ∀ t c', t.kind = k → c'.kinds = v → Ensures (next t) c' post may) :
    Ensures (Parser.expect k cause >>= next) c post may := by
  refine Ensures.expect (fun t c' ht hkt => h t c' hkt ?_) fun hs => ?_
  · have := ht.kinds
    rw [hk] at this
    exact (List.cons.inj this).2.symm
  · rw [Cursor.sees_of_kinds hk he] at hs
    cases hs

theorem Ensures.acceptAny_known {ks : List Kind} {next : Option Token → Parser α}
    (hk : c.kinds = k :: v) (he : k ≠ .eof) (hm : k ∈ ks)
    (h : ∀ t c', t.kind = k → c'.kinds = v → Ensures (next (some t)) c' post may) :
    Ensures (Parser.acceptAny ks >>= next) c post may := by
  refine Ensures.acceptAny (fun t c' ht _ => ?_) fun hs => ?_
  · have := ht.kinds
    rw [hk] at this
    exact h t c' (List.cons.inj this).1.symm (List.cons.inj this).2.symm
  · have := hs k hm
    rw [Cursor.sees_of_kinds hk he] at this
    cases this

theorem Ensures.acceptAny_avoids {ks : List Kind} {next : Option Token → Parser α}
    (ha : Avoids ks c.kinds) (h : Ensures (next none) c post may) :
    Ensures (Parser.acceptAny ks >>= next) c post may := by
  refine Ensures.acceptAny (fun t c' ht hk => ?_) fun _ => h
  exact absurd (by rw [ht.kinds]; rfl) (ha t.kind hk)

theorem Ensures.accept_known {next : Option Token → Parser α} (hk : c.kinds = k :: v)
    (he : k ≠ .eof)
    (h : ∀ t c', t.kind = k → c'.kinds = v → Ensures (next (some t)) c' post may) :
    Ensures (Parser.accept k >>= next) c post may :=
  Ensures.acceptAny_known hk he (by simp) h

theorem Ensures.accept_avoids {next : Option Token → Parser α} (ha : Avoids [k] c.kinds)
    (h : Ensures (next none) c post may) : Ensures (Parser.accept k >>= next) c post may :=
  Ensures.acceptAny_avoids ha h

end KnownKinds

/-! ### Words of a level -/

/-- The kinds that would continue a word of the level. -/
def continuing (l : Level) : List Kind :=
  (Level.all.filter (l.rank ≤ ·.rank)).flatMap Level.operators ++ [.leftParen, .dot]

/-- The kinds that would continue an operand of the level. -/
def continuingOperand (l : Level) : List Kind :=
  match l.tighter? with
  | some l' => continuing l'
  | none => [.leftParen, .dot]

theorem continuingOperand_subset (l : Level) : continuingOperand l ⊆ continuing l := by
  cases l <;> decide

theorem operators_subset (l : Level) : l.operators ⊆ continuing l := by
  cases l <;> decide

theorem not_mem_continuingOperand {l : Level} {k : Kind} (h : k ∈ l.operators) :
    k ∉ continuingOperand l := by
  have : ∀ k ∈ l.operators, k ∉ continuingOperand l := by cases l <;> decide
  exact this k h

theorem not_mem_continuing (l : Level) {k : Kind}
    (h : k ∈ [Kind.semicolon, .rightParen, .comma, .colon, .question, .equal]) :
    k ∉ continuing l := by
  have : ∀ k ∈ [Kind.semicolon, .rightParen, .comma, .colon, .question, .equal],
      k ∉ continuing l := by cases l <;> decide
  exact this k h

/-- What follows an operand in a chain does not continue it. -/
theorem avoids_links {l : Level} {a : Form} {us : List (List Kind)} {v : List Kind}
    (hus : ∀ x ∈ us, Link l.operators a x) (hv : Avoids (continuing l) v) :
    Avoids (continuingOperand l) (us.flatten ++ v) := by
  cases us with
  | nil => exact hv.mono (continuingOperand_subset l)
  | cons x us =>
    obtain ⟨k, hk, w, rfl, -⟩ := hus x (by simp)
    exact Avoids.of_head? rfl (not_mem_continuingOperand hk)

/-- An expression that can be assigned to. -/
def IsTarget (e : Expr) : Prop :=
  (∃ id name, e = .variable id name) ∨ ∃ object name, e = .get object name

/-- A call that ends in a name: it has no suffix and is one, or its last suffix is one. -/
def EndsInName (p : List Kind) (us : List (List Kind)) : Prop :=
  if us = [] then p = [.identifier] else us.getLast? = some [.dot, .identifier]

theorem EndsInName.of_cons {p x : List Kind} {us : List (List Kind)}
    (h : EndsInName p (x :: us)) :
    EndsInName (if x = [.dot, .identifier] then [.identifier] else []) us := by
  unfold EndsInName at *
  cases us with
  | nil => simp_all
  | cons y us => simpa [List.getLast?_cons_cons] using h

/-- The next tokens form a call that ends in a name, and a mark of assignment follows it. -/
def AtTarget (c : Cursor) (v : List Kind) : Prop :=
  v.head? = some .equal ∧ ∃ p us, Derives (rule .primary) p ∧ (∀ x ∈ us, Suffix x) ∧
    EndsInName p us ∧ c.kinds = p ++ (us.flatten ++ v)

/-- What the rules for expressions do with derivable words at the bound `n`. -/
structure DerivedExpr (n : Nat) : Prop where
  expression : ∀ (c : Cursor) (w : List Kind) (ws : List (List Kind)) (v : List Kind),
    Derives (rule .expr) w → (∀ x ∈ ws, Derives (rule .expr) x) → Stops v →
    c.kinds = w ++ branches .colon ws v →
    Ensures (expression n) c (fun _ c' => ∃ ws', ws' <:+ ws ∧ c'.kinds = branches .colon ws' v)
      Failure.Other
  ternary : ∀ (c : Cursor) (w : List Kind) (ws : List (List Kind)) (v : List Kind),
    Derives (rule .ternary) w → (∀ x ∈ ws, Derives (rule .expr) x) → Stops v →
    c.kinds = w ++ branches .colon ws v →
    Ensures (ternary n) c (fun _ c' => ∃ ws', ws' <:+ ws ∧ c'.kinds = branches .colon ws' v)
      Failure.Other
  level : ∀ (l : Level) (c : Cursor) (w v : List Kind), Derives (rule (.ofRank l.rank)) w →
    Avoids (continuing l) v → c.kinds = w ++ v →
    Ensures (level n l) c (fun _ c' => c'.kinds = v) Failure.Other
  operand : ∀ (l : Level) (c : Cursor) (w v : List Kind),
    Derives (rule (.ofRank (l.rank + 1))) w → Avoids (continuingOperand l) v →
    c.kinds = w ++ v → Ensures (operand n l) c (fun _ c' => c'.kinds = v) Failure.Other
  chain : ∀ (l : Level) (lhs : Expr) (c : Cursor) (us : List (List Kind)) (v : List Kind),
    (∀ x ∈ us, Link l.operators (rule (.ofRank (l.rank + 1))) x) → Avoids (continuing l) v →
    c.kinds = us.flatten ++ v →
    Ensures (chain n l lhs) c (fun e c' => c'.kinds = v ∧ (us = [] → e = lhs)) Failure.Other
  unary : ∀ (c : Cursor) (w v : List Kind), Derives (rule .unary) w →
    Avoids [.leftParen, .dot] v → c.kinds = w ++ v →
    Ensures (unary n) c (fun _ c' => c'.kinds = v) Failure.Other
  suffixes : ∀ (e : Expr) (c : Cursor) (p : List Kind) (us : List (List Kind)) (v : List Kind),
    (p = [.identifier] → IsTarget e) → (∀ x ∈ us, Suffix x) → Avoids [.leftParen, .dot] v →
    c.kinds = us.flatten ++ v →
    Ensures (suffixes n e) c (fun e' c' => c'.kinds = v ∧ (EndsInName p us → IsTarget e'))
      Failure.Other
  arguments : ∀ (count : Nat) (c : Cursor) (w : List Kind) (us : List (List Kind))
    (v : List Kind), count + us.length < maxArguments → Derives (rule .expr) w →
    (∀ x ∈ us, Derives (rule .expr) x) → v.head? = some .rightParen →
    c.kinds = w ++ branches .comma us v →
    Ensures (arguments n count) c (fun _ c' => c'.kinds = v) Failure.Other
  primary : ∀ (c : Cursor) (w v : List Kind), Derives (rule .primary) w → c.kinds = w ++ v →
    Ensures (primary n) c (fun e c' => c'.kinds = v ∧ (w = [.identifier] → IsTarget e))
      Failure.Other
  targetTernary : ∀ (c : Cursor) (v : List Kind), AtTarget c v →
    Ensures (Parser.ternary n) c (fun e c' => c'.kinds = v ∧ IsTarget e) Failure.Other
  targetLevel : ∀ (l : Level) (c : Cursor) (v : List Kind), AtTarget c v →
    Ensures (Parser.level n l) c (fun e c' => c'.kinds = v ∧ IsTarget e) Failure.Other
  targetOperand : ∀ (l : Level) (c : Cursor) (v : List Kind), AtTarget c v →
    Ensures (Parser.operand n l) c (fun e c' => c'.kinds = v ∧ IsTarget e) Failure.Other
  targetUnary : ∀ (c : Cursor) (v : List Kind), AtTarget c v →
    Ensures (Parser.unary n) c (fun e c' => c'.kinds = v ∧ IsTarget e) Failure.Other

namespace DerivedExpr

variable {n : Nat} {c : Cursor} {w v : List Kind} {ws us : List (List Kind)}

/-- Where no branches of conditions follow, the derivable word is read and nothing else. -/
theorem whole (ih : DerivedExpr n) (hw : Derives (rule .expr) w) (hv : Stops v)
    (hc : c.kinds = w ++ v) :
    Ensures (Parser.expression n) c (fun _ c' => c'.kinds = v) Failure.Other := by
  refine (ih.expression c w [] v hw (by simp) hv hc).mono ?_ fun _ h => h
  rintro _ c' ⟨ws', hs, hk⟩
  rwa [List.suffix_nil.1 hs] at hk

theorem assignment?_of_isTarget {target : Expr} (h : IsTarget target) (value : Expr) :
    ∃ e, assignment? target value = some e := by
  rcases h with ⟨id, name, rfl⟩ | ⟨object, name, rfl⟩
  · exact ⟨_, rfl⟩
  · exact ⟨_, rfl⟩

theorem expression_succ (ih : DerivedExpr n) (hw : Derives (rule .expr) w)
    (hws : ∀ x ∈ ws, Derives (rule .expr) x) (hv : Stops v)
    (hc : c.kinds = w ++ branches .colon ws v) :
    Ensures (Parser.expression (n + 1)) c
      (fun _ c' => ∃ ws', ws' <:+ ws ∧ c'.kinds = branches .colon ws' v) Failure.Other := by
  rw [Parser.expression]
  rw [derives_rule, show Rule.expr.body = rule .assignment from rfl, derives_rule] at hw
  simp only [Rule.body, derives_alt, derives_seq, derives_tok, derives_opt] at hw
  rcases hw with ⟨_, w₁, rfl, ⟨_, _, rfl, ⟨o, _, rfl, ho, rfl⟩, rfl⟩, hw₁⟩ | hw
  · -- an assignment: its target is a call that ends in a name
    have htarget : AtTarget c (.equal :: (w₁ ++ branches .colon ws v)) := by
      refine ⟨rfl, ?_⟩
      rcases ho with rfl | ⟨u, _, rfl, hu, rfl⟩
      · exact ⟨[.identifier], [], .rule (.left (.right (.tok _))), by simp, by simp [EndsInName],
          by simp [hc]⟩
      · obtain ⟨p, us, hp, hus, rfl⟩ := derives_call.1 hu
        refine ⟨p, us ++ [[.dot, .identifier]], hp, ?_, by simp [EndsInName], by simp [hc]⟩
        intro x hx
        rcases List.mem_append.1 hx with hx | hx
        · exact hus x hx
        · exact Or.inr (List.mem_singleton.1 hx)
    refine (ih.targetTernary c _ htarget).bind (fun _ h => h) ?_
    rintro target c₁ ⟨hk₁, ht⟩
    refine Ensures.accept_known hk₁ (by decide) fun equals c₂ _ hk₂ => ?_
    refine (ih.expression c₂ w₁ ws v (.rule hw₁) hws hv hk₂).bind (fun _ h => h)
      fun value c₃ hk₃ => ?_
    obtain ⟨e, he⟩ := assignment?_of_isTarget ht value
    rw [he]
    exact Ensures.pure hk₃
  · refine (ih.ternary c w ws v hw hws hv hc).bind (fun _ h => h) ?_
    rintro e c₁ ⟨ws', hs, hk₁⟩
    refine Ensures.accept_avoids ?_ (Ensures.pure ⟨ws', hs, hk₁⟩)
    rw [hk₁]
    exact hv.avoids_branches (by decide)

/-- After the first branch of a condition: a `:` that follows belongs to it. -/
theorem ternary_rest (ih : DerivedExpr n) {cond yes : Expr} {question : Token}
    (hws : ∀ x ∈ ws, Derives (rule .expr) x) (hv : Stops v) (hc : c.kinds = branches .colon ws v) :
    Ensures (do
      match ← accept .colon with
      | none => return Expr.ternary cond question yes none
      | some _ =>
          let no ← Parser.expression n
          return Expr.ternary cond question yes (some no)) c
      (fun _ c' => ∃ ws', ws' <:+ ws.tail ∧ c'.kinds = branches .colon ws' v) Failure.Other := by
  cases ws with
  | nil =>
    refine Ensures.accept_avoids ?_ (Ensures.pure ⟨[], List.suffix_refl _, hc⟩)
    rw [hc]
    exact hv.avoids (by decide)
  | cons w ws =>
    rw [branches_cons] at hc
    refine Ensures.accept_known hc (by decide) fun _ c₁ _ hk₁ => ?_
    simp only [List.forall_mem_cons] at hws
    refine (ih.expression c₁ w ws v hws.1 hws.2 hv hk₁).bind (fun _ h => h) fun no c₂ hk₂ => ?_
    exact Ensures.pure hk₂

theorem ternary_succ (ih : DerivedExpr n) (hw : Derives (rule .ternary) w)
    (hws : ∀ x ∈ ws, Derives (rule .expr) x) (hv : Stops v)
    (hc : c.kinds = w ++ branches .colon ws v) :
    Ensures (Parser.ternary (n + 1)) c
      (fun _ c' => ∃ ws', ws' <:+ ws ∧ c'.kinds = branches .colon ws' v) Failure.Other := by
  rw [Parser.ternary]
  rw [derives_rule] at hw
  simp only [Rule.body, derives_seq, derives_tok, derives_opt] at hw
  obtain ⟨u, o, rfl, hu, ho⟩ := hw
  rcases ho with rfl | ⟨_, o, rfl, ⟨_, y, rfl, rfl, hy⟩, ho⟩
  · refine (ih.level .or c u (branches .colon ws v) hu ?_ (by simpa using hc)).bind (fun _ h => h)
      fun cond c₁ hk₁ => ?_
    · exact hv.avoids_branches fun k hk => not_mem_continuing _ (by revert k; decide)
    refine Ensures.accept_avoids ?_ (Ensures.pure ⟨ws, List.suffix_refl _, hk₁⟩)
    rw [hk₁]
    exact hv.avoids_branches (by decide)
  · -- the branches that may follow the first one: its own second branch, and those of `ws`
    obtain ⟨L, hL, hLw, hkL⟩ := branches_of_opt ho hws v
    have hc : c.kinds = u ++ .question :: (y ++ branches .colon L v) := by
      simp [hc, ← hkL]
    refine (ih.level .or c u _ hu ?_ hc).bind (fun _ h => h) fun cond c₁ hk₁ => ?_
    · exact Avoids.of_head? rfl (not_mem_continuing _ (by decide))
    refine Ensures.accept_known hk₁ (by decide) fun question c₂ _ hk₂ => ?_
    refine (ih.expression c₂ y L v hy hL hv hk₂).bind (fun _ h => h) ?_
    rintro yes c₃ ⟨L', hs, hk₃⟩
    refine (ternary_rest ih (fun x hx => hL x (hs.subset hx)) hv hk₃).mono ?_ fun _ h => h
    rintro _ c₄ ⟨L'', hs', hk₄⟩
    exact ⟨L'', hs'.trans ((suffix_tail hs).trans hLw), hk₄⟩

theorem level_succ (ih : DerivedExpr n) {l : Level} (hw : Derives (rule (.ofRank l.rank)) w)
    (hv : Avoids (continuing l) v) (hc : c.kinds = w ++ v) :
    Ensures (Parser.level (n + 1) l) c (fun _ c' => c'.kinds = v) Failure.Other := by
  rw [Parser.level]
  obtain ⟨u, us, hu, hus, rfl⟩ := derives_level.1 hw
  rw [List.append_assoc] at hc
  refine (ih.operand l c u _ hu (avoids_links hus hv) hc).bind (fun _ h => h) fun lhs c₁ hk₁ => ?_
  exact (ih.chain l lhs c₁ us v hus hv hk₁).mono (fun _ _ h => h.1) fun _ h => h

theorem operand_succ (ih : DerivedExpr n) {l : Level}
    (hw : Derives (rule (.ofRank (l.rank + 1))) w) (hv : Avoids (continuingOperand l) v)
    (hc : c.kinds = w ++ v) :
    Ensures (Parser.operand (n + 1) l) c (fun _ c' => c'.kinds = v) Failure.Other := by
  rw [Parser.operand]
  cases l with
  | or => exact ih.level .and c w v hw hv hc
  | and => exact ih.level .equality c w v hw hv hc
  | equality => exact ih.level .comparison c w v hw hv hc
  | comparison => exact ih.level .term c w v hw hv hc
  | term => exact ih.level .factor c w v hw hv hc
  | factor => exact ih.unary c w v hw hv hc

theorem chain_succ (ih : DerivedExpr n) {l : Level} {lhs : Expr}
    (hus : ∀ x ∈ us, Link l.operators (rule (.ofRank (l.rank + 1))) x)
    (hv : Avoids (continuing l) v) (hc : c.kinds = us.flatten ++ v) :
    Ensures (Parser.chain (n + 1) l lhs) c (fun e c' => c'.kinds = v ∧ (us = [] → e = lhs))
      Failure.Other := by
  rw [Parser.chain]
  cases us with
  | nil =>
    refine Ensures.acceptAny_avoids ?_ (Ensures.pure ⟨hc, fun _ => rfl⟩)
    rw [hc]
    exact hv.mono (operators_subset l)
  | cons x us =>
    simp only [List.forall_mem_cons] at hus
    obtain ⟨⟨k, hk, u, rfl, hu⟩, hus⟩ := hus
    have hke : k ≠ .eof := by
      rintro rfl
      revert hk
      cases l <;> decide
    have hc : c.kinds = k :: (u ++ (us.flatten ++ v)) := by simp [hc]
    refine Ensures.acceptAny_known hc hke hk fun op c₁ _ hk₁ => ?_
    refine (ih.operand l c₁ u _ hu (avoids_links hus hv) hk₁).bind (fun _ h => h)
      fun rhs c₂ hk₂ => ?_
    refine (ih.chain l _ c₂ us v hus hv hk₂).mono (fun _ _ h => ⟨h.1, ?_⟩) fun _ h => h
    simp

theorem unary_succ (ih : DerivedExpr n) (hw : Derives (rule .unary) w)
    (hv : Avoids [.leftParen, .dot] v) (hc : c.kinds = w ++ v) :
    Ensures (Parser.unary (n + 1)) c (fun _ c' => c'.kinds = v) Failure.Other := by
  rw [Parser.unary]
  rw [derives_rule] at hw
  simp only [Rule.body, derives_alt, derives_seq, derives_tok] at hw
  rcases hw with ⟨o, u, rfl, ho, hu⟩ | hw
  · obtain ⟨k, rfl, hk⟩ : ∃ k, o = [k] ∧ k ∈ [Kind.bang, .minus] := by
      rcases ho with rfl | rfl
      · exact ⟨.bang, rfl, by simp⟩
      · exact ⟨.minus, rfl, by simp⟩
    refine Ensures.acceptAny_known hc (by rintro rfl; simp at hk) hk fun op c₁ _ hk₁ => ?_
    refine (ih.unary c₁ u v hu hv hk₁).bind (fun _ h => h) fun e c₂ hk₂ => ?_
    exact Ensures.pure hk₂
  · obtain ⟨p, us, hp, hus, rfl⟩ := derives_call.1 hw
    rw [List.append_assoc] at hc
    refine Ensures.acceptAny_avoids ?_ ?_
    · rw [hc]
      exact ((begins_primary hp).append _).avoids (by decide)
    refine (ih.primary c p _ hp hc).bind (fun _ h => h) ?_
    rintro e c₁ ⟨hk₁, he⟩
    exact (ih.suffixes e c₁ p us v he hus hv hk₁).mono (fun _ _ h => h.1) fun _ h => h

theorem begins_args {w : List Kind} (h : Derives (rule .args) w) : Begins exprStarts w := by
  rw [derives_rule] at h
  simp only [Rule.body, derives_seq] at h
  obtain ⟨u, _, rfl, hu, -⟩ := h
  exact (begins_expr hu).append _

/-- An argument list with its parentheses. -/
theorem argumentList_ensures {α : Type} {next : List Expr → Parser α}
    {post : α → Cursor → Prop} (ih : DerivedExpr n) (hw : w = [] ∨ Derives (rule .args) w)
    (hc : c.kinds = w ++ .rightParen :: v)
    (h : ∀ args c', c'.kinds = .rightParen :: v → Ensures (next args) c' post Failure.Other) :
    Ensures (do
      let args ← if ← Parser.sees .rightParen then pure [] else Parser.arguments n 0
      next args) c post Failure.Other := by
  refine Ensures.sees ?_
  rcases hw with rfl | hw
  · rw [Cursor.sees_of_kinds hc (by decide)]
    exact Ensures.pure_bind (h [] c hc)
  · rw [@Cursor.sees_of_avoids c .rightParen [.rightParen] ?_ (by simp)]
    · rw [derives_rule] at hw
      obtain ⟨u, us, hl, hu, hus, rfl⟩ := listed_of_derives hw
      rw [List.append_assoc, branches_append, List.nil_append] at hc
      exact (ih.arguments 0 c u us _ (by simpa using hl) hu hus rfl hc).bind (fun _ h => h) h
    · rw [hc]
      exact ((begins_args hw).append _).avoids (by decide)

theorem suffixes_succ (ih : DerivedExpr n) {e : Expr} {p : List Kind}
    (he : p = [.identifier] → IsTarget e) (hus : ∀ x ∈ us, Suffix x)
    (hv : Avoids [.leftParen, .dot] v) (hc : c.kinds = us.flatten ++ v) :
    Ensures (Parser.suffixes (n + 1) e) c
      (fun e' c' => c'.kinds = v ∧ (EndsInName p us → IsTarget e')) Failure.Other := by
  rw [Parser.suffixes]
  cases us with
  | nil =>
    simp only [List.flatten_nil, List.nil_append] at hc
    refine Ensures.accept_avoids (by rw [hc]; exact hv.mono (by simp)) ?_
    refine Ensures.accept_avoids (by rw [hc]; exact hv.mono (by simp)) ?_
    exact Ensures.pure ⟨hc, fun h => he (by simpa [EndsInName] using h)⟩
  | cons x us =>
    simp only [List.forall_mem_cons] at hus
    obtain ⟨hx, hus⟩ := hus
    -- the suffix `x` decides whether what is read so far ends in a name
    have rest : ∀ (e : Expr) (c₁ : Cursor), (x = [.dot, .identifier] → IsTarget e) →
        c₁.kinds = us.flatten ++ v → Ensures (Parser.suffixes n e) c₁
          (fun e' c' => c'.kinds = v ∧ (EndsInName p (x :: us) → IsTarget e')) Failure.Other := by
      intro e c₁ hx hk
      refine (ih.suffixes e c₁ _ us v ?_ hus hv hk).mono
        (fun _ _ h => ⟨h.1, fun hn => h.2 hn.of_cons⟩) fun _ h => h
      intro hp
      exact hx (by by_contra hne; simp [hne] at hp)
    rcases hx with ⟨a, rfl, ha⟩ | rfl
    · have hc : c.kinds = .leftParen :: (a ++ .rightParen :: (us.flatten ++ v)) := by simp [hc]
      refine Ensures.accept_known hc (by decide) fun _ c₁ _ hk₁ => ?_
      refine argumentList_ensures ih ha hk₁ fun args c₂ hk₂ => ?_
      refine Ensures.expect_known hk₂ (by decide) fun paren c₃ _ hk₃ => ?_
      exact rest _ c₃ (by simp) hk₃
    · have hc : c.kinds = .dot :: .identifier :: (us.flatten ++ v) := by simp [hc]
      refine Ensures.accept_avoids (by rw [hc]; exact Avoids.of_head? rfl (by decide)) ?_
      refine Ensures.accept_known hc (by decide) fun _ c₁ _ hk₁ => ?_
      refine Ensures.expect_known hk₁ (by decide) fun name c₂ _ hk₂ => ?_
      exact rest _ c₂ (fun _ => Or.inr ⟨e, name, rfl⟩) hk₂

theorem arguments_succ (ih : DerivedExpr n) {count : Nat}
    (hl : count + us.length < maxArguments) (hw : Derives (rule .expr) w)
    (hus : ∀ x ∈ us, Derives (rule .expr) x) (hv : v.head? = some .rightParen)
    (hc : c.kinds = w ++ branches .comma us v) :
    Ensures (Parser.arguments (n + 1) count) c (fun _ c' => c'.kinds = v) Failure.Other := by
  rw [Parser.arguments, if_neg (by omega)]
  have hstops : Stops (branches .comma us v) := by
    rcases @head?_branches .comma us v with e | e
    · exact Or.inr (Or.inr e)
    · exact Or.inr (Or.inl (e.trans hv))
  refine (ih.whole hw hstops hc).bind (fun _ h => h) fun arg c₁ hk₁ => ?_
  cases us with
  | nil =>
    refine Ensures.accept_avoids ?_ (Ensures.pure hk₁)
    rw [hk₁]
    exact Avoids.of_head? hv (by decide)
  | cons u us =>
    simp only [List.forall_mem_cons] at hus
    rw [branches_cons] at hk₁
    refine Ensures.accept_known hk₁ (by decide) fun _ c₂ _ hk₂ => ?_
    refine (ih.arguments (count + 1) c₂ u us v ?_ hus.1 hus.2 hv hk₂).bind (fun _ h => h)
      fun rest c₃ hk₃ => Ensures.pure hk₃
    simp only [List.length_cons] at hl
    omega

/-- A literal, when the next token is one. -/
theorem literal?_derived {k : Kind} (hc : c.kinds = k :: v)
    (hk : k ∈ [Kind.falseWord, .trueWord, .nilWord, .number, .string]) :
    Ensures literal? c (fun e c' => c'.kinds = v ∧ e ≠ none) Failure.Other := by
  unfold literal?
  refine Ensures.acceptAny_known hc ?_ hk fun t c₁ _ hk₁ => ?_
  · rintro rfl
    simp at hk
  · dsimp only
    split
    · exact Ensures.pure ⟨hk₁, by simp⟩
    · exact Ensures.pure ⟨hk₁, by simp⟩
    · exact Ensures.pure ⟨hk₁, by simp⟩
    · exact Ensures.pure ⟨hk₁, by simp⟩
    · exact Ensures.pure ⟨hk₁, by simp⟩
    · -- a token without the value that its kind calls for is malformed, not rejected
      exact Ensures.throw trivial

/-- No literal, when the next token begins no literal. -/
theorem literal?_avoids (h : Begins [.identifier, .leftParen] c.kinds) :
    Ensures literal? c (fun e c' => e = none ∧ c'.kinds = c.kinds) Failure.Other :=
  Ensures.acceptAny_avoids (h.avoids (by decide)) (Ensures.pure ⟨rfl, rfl⟩)

theorem primary_succ (ih : DerivedExpr n) (hw : Derives (rule .primary) w)
    (hc : c.kinds = w ++ v) :
    Ensures (Parser.primary (n + 1)) c
      (fun e c' => c'.kinds = v ∧ (w = [.identifier] → IsTarget e)) Failure.Other := by
  have hcase : (∃ k ∈ [Kind.falseWord, .trueWord, .nilWord, .number, .string], w = [k]) ∨
      w = [.identifier] ∨ ∃ u, Derives (rule .expr) u ∧ w = .leftParen :: (u ++ [.rightParen]) := by
    rw [derives_rule] at hw
    simp only [Rule.body, derives_alt, derives_seq, derives_tok] at hw
    rcases hw with (((((rfl | rfl) | rfl) | rfl) | rfl) | rfl) |
      ⟨_, _, rfl, ⟨_, u, rfl, rfl, hu⟩, rfl⟩
    case inr => exact Or.inr (Or.inr ⟨u, hu, rfl⟩)
    case inl.inr => exact Or.inr (Or.inl rfl)
    all_goals exact Or.inl ⟨_, by simp, rfl⟩
  rw [Parser.primary]
  rcases hcase with ⟨k, hk, rfl⟩ | rfl | ⟨u, hu, rfl⟩
  · refine (literal?_derived hc hk).bind (fun _ h => h) ?_
    rintro e c₁ ⟨hk₁, he⟩
    obtain ⟨e, rfl⟩ := Option.ne_none_iff_exists'.1 he
    refine Ensures.pure ⟨hk₁, fun h => ?_⟩
    obtain rfl : k = .identifier := by simpa using h
    simp at hk
  · refine (literal?_avoids (by rw [hc]; exact ⟨_, by simp, _, rfl⟩)).bind (fun _ h => h) ?_
    rintro _ c₁ ⟨rfl, hk₁⟩
    rw [hc] at hk₁
    refine Ensures.accept_known hk₁ (by decide) fun name c₂ _ hk₂ => ?_
    exact Ensures.freshId (Ensures.pure ⟨hk₂, fun _ => Or.inl ⟨_, _, rfl⟩⟩)
  · refine (literal?_avoids (by rw [hc]; exact ⟨_, by simp, _, rfl⟩)).bind (fun _ h => h) ?_
    rintro _ c₁ ⟨rfl, hk₁⟩
    have hk₁ : c₁.kinds = .leftParen :: (u ++ .rightParen :: v) := by simp [hk₁, hc]
    refine Ensures.accept_avoids (by rw [hk₁]; exact Avoids.of_head? rfl (by decide)) ?_
    refine Ensures.accept_known hk₁ (by decide) fun _ c₂ _ hk₂ => ?_
    refine (ih.whole hu (Or.inr (Or.inl rfl)) hk₂).bind (fun _ h => h) fun inner c₃ hk₃ => ?_
    refine Ensures.expect_known hk₃ (by decide) fun _ c₄ _ hk₄ => ?_
    exact Ensures.pure ⟨hk₄, by simp⟩

/-! ### Targets of assignments -/

theorem targetUnary_succ (ih : DerivedExpr n) (h : AtTarget c v) :
    Ensures (Parser.unary (n + 1)) c (fun e c' => c'.kinds = v ∧ IsTarget e) Failure.Other := by
  rw [Parser.unary]
  obtain ⟨hv, p, us, hp, hus, hn, hc⟩ := h
  refine Ensures.acceptAny_avoids ?_ ?_
  · rw [hc]
    exact ((begins_primary hp).append _).avoids (by decide)
  refine (ih.primary c p _ hp hc).bind (fun _ h => h) ?_
  rintro e c₁ ⟨hk₁, he⟩
  refine (ih.suffixes e c₁ p us v he hus (Avoids.of_head? hv (by decide)) hk₁).mono
    (fun _ _ h => ⟨h.1, h.2 hn⟩) fun _ h => h

theorem targetOperand_succ (ih : DerivedExpr n) {l : Level} (h : AtTarget c v) :
    Ensures (Parser.operand (n + 1) l) c (fun e c' => c'.kinds = v ∧ IsTarget e)
      Failure.Other := by
  rw [Parser.operand]
  cases l with
  | factor => exact ih.targetUnary c v h
  | _ => exact ih.targetLevel _ c v h

theorem targetLevel_succ (ih : DerivedExpr n) {l : Level} (h : AtTarget c v) :
    Ensures (Parser.level (n + 1) l) c (fun e c' => c'.kinds = v ∧ IsTarget e)
      Failure.Other := by
  rw [Parser.level]
  refine (ih.targetOperand l c v h).bind (fun _ h => h) ?_
  rintro lhs c₁ ⟨hk₁, he⟩
  have hv : Avoids (continuing l) v := Avoids.of_head? h.1 (not_mem_continuing l (by decide))
  refine (ih.chain l lhs c₁ [] v (by simp) hv hk₁).mono ?_ fun _ h => h
  rintro e c₂ ⟨hk₂, heq⟩
  exact ⟨hk₂, heq rfl ▸ he⟩

theorem targetTernary_succ (ih : DerivedExpr n) (h : AtTarget c v) :
    Ensures (Parser.ternary (n + 1)) c (fun e c' => c'.kinds = v ∧ IsTarget e)
      Failure.Other := by
  rw [Parser.ternary]
  refine (ih.targetLevel .or c v h).bind (fun _ h => h) ?_
  rintro e c₁ ⟨hk₁, he⟩
  refine Ensures.accept_avoids ?_ (Ensures.pure ⟨hk₁, he⟩)
  rw [hk₁]
  exact Avoids.of_head? h.1 (by decide)

end DerivedExpr

/-- A derivable expression is not rejected, whatever the bound on the depth of rules. -/
theorem derivedExpr (n : Nat) : DerivedExpr n := by
  induction n with
  | zero =>
    constructor <;> intros <;> exact Ensures.exhausted trivial
  | succ n ih =>
    exact {
      expression := fun _ _ _ _ => ih.expression_succ
      ternary := fun _ _ _ _ => ih.ternary_succ
      level := fun _ _ _ _ => ih.level_succ
      operand := fun _ _ _ _ => ih.operand_succ
      chain := fun _ _ _ _ _ => ih.chain_succ
      unary := fun _ _ _ => ih.unary_succ
      suffixes := fun _ _ _ _ _ => ih.suffixes_succ
      arguments := fun _ _ _ _ _ => ih.arguments_succ
      primary := fun _ _ _ => ih.primary_succ
      targetTernary := fun _ _ => ih.targetTernary_succ
      targetLevel := fun _ _ _ => ih.targetLevel_succ
      targetOperand := fun _ _ _ => ih.targetOperand_succ
      targetUnary := fun _ _ => ih.targetUnary_succ }

end Parser

end Wandika
