import Wandika.Proofs.Parser.Outcome
import Wandika.Proofs.Tree.Relabel

/-!
# Parsing changed and longer texts

The parser looks at kinds and literals only, and at one token beyond what it reads. So it gives the
changed tree for changed tokens, it does not matter what follows a statement unless it is an
`else`, and a larger bound on the depth of rules changes nothing.

* `Cursor.Mirrors`: two cursors at the same place of a text and of its change, with different
  tokens after it;
* `Parser.Follows`: an action succeeds on the changed tokens whenever it does on the others, if it
  has not come too close to the end of them;
* `ExprFollows`, `StmtFollows`: this for all rules, at one bound and all larger ones;
* `program_relabel`: a changed text gives the changed tree;
* `program_append`: a text followed by another one is parsed into the statements of both.
-/

namespace Wandika

/-- The second cursor stands at the same place of the changed tokens. After them come the tokens
`tail'`, where `tail` comes for the first. -/
structure Cursor.Mirrors (ρ : Relabel) (tail tail' : List Token) (c c' : Cursor) : Prop where
  rest : ∃ ts, c.rest = ts ++ tail ∧ c'.rest = ts.map ρ.token ++ tail'
  nextId : c'.nextId = c.nextId + ρ.offset

section Cursors

variable {ρ : Relabel} {tail tail' : List Token} {c c' : Cursor}

/-- Before the tail, both cursors see the same. -/
theorem Cursor.Mirrors.next (h : c.Mirrors ρ tail tail' c') (hlt : tail.length < c.rest.length) :
    c'.peek = ρ.token c.peek ∧ c'.atEnd = c.atEnd ∧ (∀ k, c'.sees k = c.sees k) ∧
      (c.atEnd = false → c.advance.Mirrors ρ tail tail' c'.advance) := by
  obtain ⟨⟨ts, hc, hc'⟩, hid⟩ := h
  cases ts with
  | nil =>
    rw [hc] at hlt
    exact absurd hlt (lt_irrefl _)
  | cons t ts =>
    have hpeek : c.peek = t := by simp [Cursor.peek, hc]
    have hpeek' : c'.peek = ρ.token t := by simp [Cursor.peek, hc']
    have hend : c'.atEnd = c.atEnd := by simp [Cursor.atEnd, hpeek, hpeek']
    refine ⟨by rw [hpeek, hpeek'], hend, fun k => ?_, fun ha => ⟨⟨ts, ?_, ?_⟩, ?_⟩⟩
    · simp [Cursor.sees, hend, hpeek, hpeek']
    · simp [Cursor.advance, ha, hc]
    · simp [Cursor.advance, hend, ha, hc']
    · simp [Cursor.advance, hend, ha, hid]

/-- The place in the changed tokens is fixed. -/
theorem Cursor.Mirrors.unique {c₁' c₂' : Cursor} (h₁ : c.Mirrors ρ tail tail' c₁')
    (h₂ : c.Mirrors ρ tail tail' c₂') : c₁' = c₂' := by
  obtain ⟨⟨ts, hts, hrest₁⟩, hid₁⟩ := h₁
  obtain ⟨⟨us, hus, hrest₂⟩, hid₂⟩ := h₂
  cases List.append_cancel_right (hts.symm.trans hus)
  cases c₁'
  cases c₂'
  congr
  · exact hrest₁.trans hrest₂.symm
  · exact hid₁.trans hid₂.symm

theorem Cursor.length_advance_le (c : Cursor) : c.advance.rest.length ≤ c.rest.length := by
  unfold Cursor.advance
  split_ifs
  · exact le_refl _
  · simp

end Cursors

namespace Parser

variable {α β γ δ : Type} {ρ : Relabel} {tail tail' : List Token}

theorem ok_bind {act : Parser α} {next : α → Parser β} {c c₂ : Cursor} {b : β} :
    (act >>= next) c = .ok b c₂ ↔ ∃ a c₁, act c = .ok a c₁ ∧ next a c₁ = .ok b c₂ := by
  show EStateM.bind act next c = _ ↔ _
  unfold EStateM.bind
  cases act c with
  | ok a c₁ => simp
  | error e c₁ => simp

variable (ρ tail tail') in
/-- When `act` succeeds it has taken at least `take` tokens, and if at least `need` tokens are left
before the tail, `act'` succeeds on the changed tokens with the changed result. -/
structure Follows (need take : Nat) (act : Parser α) (act' : Parser β) (f : α → β) : Prop where
  shorter : ∀ {c c₁ : Cursor} {a : α}, act c = .ok a c₁ →
    c₁.rest.length + take ≤ c.rest.length
  mirrored : ∀ {c c' c₁ : Cursor} {a : α}, c.Mirrors ρ tail tail' c' → act c = .ok a c₁ →
    tail.length + need ≤ c₁.rest.length →
    ∃ c₁', act' c' = .ok (f a) c₁' ∧ c₁.Mirrors ρ tail tail' c₁'

section Rules

variable {need take : Nat} {act : Parser α} {act' : Parser β} {f : α → β}

/-- One action after another. The first may look as far ahead as the second is sure to read. -/
theorem Follows.bind {need' total : Nat} {next : α → Parser γ} {next' : β → Parser δ} {g : γ → δ}
    (take' : Nat) (h : Follows ρ tail tail' need take act act' f)
    (hfit : (need.ble (need' + take') && total.ble (take + take')) = true)
    (hn : ∀ a, Follows ρ tail tail' need' take' (next a) (next' (f a)) g) :
    Follows ρ tail tail' need' total (act >>= next) (act' >>= next') g := by
  obtain ⟨hneed, htake⟩ : need ≤ need' + take' ∧ total ≤ take + take' := by
    simpa only [Bool.and_eq_true, Nat.ble_eq] using hfit
  constructor
  · intro c c₂ b hb
    obtain ⟨a, c₁, ha, hb⟩ := ok_bind.1 hb
    have := h.shorter ha
    have := (hn a).shorter hb
    omega
  · intro c c' c₂ b hc hb hle
    obtain ⟨a, c₁, ha, hb⟩ := ok_bind.1 hb
    have := (hn a).shorter hb
    obtain ⟨c₁', ha', hc₁⟩ := h.mirrored hc ha (by omega)
    obtain ⟨c₂', hb', hc₂⟩ := (hn a).mirrored hc₁ hb hle
    exact ⟨c₂', ok_bind.2 ⟨f a, c₁', ha', hb'⟩, hc₂⟩

theorem Follows.pure {a : α} {b : β} (h : f a = b) (need : Nat) :
    Follows ρ tail tail' need 0 (pure a) (pure b) f where
  shorter ha := by
    cases ha
    exact le_refl _
  mirrored hc ha _ := by
    cases ha
    exact ⟨_, by rw [h]; rfl, hc⟩

/-- An action that never succeeds. -/
theorem Follows.never (h : ∀ c a c₁, act c ≠ .ok a c₁) :
    Follows ρ tail tail' need take act act' f where
  shorter ha := absurd ha (h _ _ _)
  mirrored _ ha := absurd ha (h _ _ _)

end Rules

/-! ### Single tokens -/

variable (ρ tail tail')

theorem follows_sees (k : Kind) : Follows ρ tail tail' 1 0 (sees k) (sees k) id where
  shorter ha := by
    cases ha
    exact le_refl _
  mirrored hc ha hle := by
    cases ha
    refine ⟨_, ?_, hc⟩
    rw [sees, (hc.next (by omega)).2.2.1 k]
    rfl

theorem follows_atEnd : Follows ρ tail tail' 1 0 atEnd atEnd id where
  shorter ha := by
    cases ha
    exact le_refl _
  mirrored hc ha hle := by
    cases ha
    refine ⟨_, ?_, hc⟩
    rw [atEnd, (hc.next (by omega)).2.1]
    rfl

theorem follows_freshId : Follows ρ tail tail' 0 0 freshId freshId (· + ρ.offset) where
  shorter ha := by
    cases ha
    exact le_refl _
  mirrored {c c' c₁ a} hc ha _ := by
    cases ha
    refine ⟨{ c' with nextId := c'.nextId + 1 }, ?_, hc.rest, ?_⟩
    · rw [freshId, hc.nextId]
    · show c'.nextId + 1 = c.nextId + 1 + ρ.offset
      rw [hc.nextId]
      omega

variable {ρ tail tail'} in
/-- Before the tail, the same tokens are taken. -/
theorem acceptAny_mirrored {kinds : List Kind} {c c' c₁ : Cursor} {a : Option Token}
    (hc : c.Mirrors ρ tail tail' c') (ha : acceptAny kinds c = .ok a c₁)
    (hlt : tail.length < c.rest.length) :
    ∃ c₁', acceptAny kinds c' = .ok (a.map ρ.token) c₁' ∧ c₁.Mirrors ρ tail tail' c₁' := by
  obtain ⟨hpeek, -, hsees, hadv⟩ := hc.next hlt
  have hany : kinds.any c'.sees = kinds.any c.sees := by
    rw [funext hsees]
  unfold acceptAny at ha ⊢
  split_ifs at ha with h
  · cases ha
    obtain ⟨k, -, hk⟩ := List.any_eq_true.1 h
    have hend : c.atEnd = false := by
      simp only [Cursor.sees, Bool.and_eq_true, Bool.not_eq_true'] at hk
      exact hk.1
    exact ⟨_, by rw [hany, if_pos h, hpeek]; rfl, hadv hend⟩
  · cases ha
    exact ⟨_, by rw [hany, if_neg h]; rfl, hc⟩

theorem acceptAny_shorter {kinds : List Kind} {c c₁ : Cursor} {a : Option Token}
    (ha : acceptAny kinds c = .ok a c₁) : c₁.rest.length ≤ c.rest.length := by
  unfold acceptAny at ha
  split_ifs at ha <;> cases ha
  · exact c.length_advance_le
  · exact le_refl _

theorem follows_acceptAny (kinds : List Kind) :
    Follows ρ tail tail' 1 0 (acceptAny kinds) (acceptAny kinds) (Option.map ρ.token) where
  shorter := acceptAny_shorter
  mirrored hc ha hle := by
    have := acceptAny_shorter ha
    exact acceptAny_mirrored hc ha (by omega)

theorem follows_accept (k : Kind) :
    Follows ρ tail tail' 1 0 (accept k) (accept k) (Option.map ρ.token) :=
  follows_acceptAny ρ tail tail' [k]

/-- A kind that does not begin the other tail may be asked for at the end of the text. -/
theorem follows_accept_end {k : Kind} (h : ∀ t ∈ tail'.head?, t.kind ≠ k) :
    Follows ρ tail tail' 0 0 (accept k) (accept k) (Option.map ρ.token) where
  shorter := acceptAny_shorter
  mirrored {c c' c₁ a} hc ha hle := by
    by_cases hlt : tail.length < c.rest.length
    · exact acceptAny_mirrored hc ha hlt
    · -- the cursors stand at the tails, and the first has taken nothing
      have hshort := acceptAny_shorter ha
      have hsees : c'.sees k = false := by
        obtain ⟨⟨ts, hr, hr'⟩, -⟩ := hc
        have hts : ts = [] := by
          rw [hr, List.length_append] at hlt
          exact List.length_eq_zero_iff.1 (by omega)
        rw [hts, List.map_nil, List.nil_append] at hr'
        cases htail : tail' with
        | nil => simp [Cursor.sees, Cursor.atEnd, Cursor.peek, hr', htail, Token.endMark]
        | cons t ts' =>
          have := h t (by simp [htail])
          simp [Cursor.sees, Cursor.peek, hr', htail, this]
      unfold accept acceptAny at ha ⊢
      split_ifs at ha with hs
      · cases ha
        obtain ⟨k', -, hk'⟩ := List.any_eq_true.1 hs
        have := (Cursor.sees_eq_true hk').1.rest
        rw [this, List.length_cons] at hlt
        omega
      · cases ha
        exact ⟨c', by simp [hsees], hc⟩

theorem follows_expect (k : Kind) (cause cause' : ParseCause) :
    Follows ρ tail tail' 0 1 (expect k cause) (expect k cause') ρ.token where
  shorter {c c₁ a} ha := by
    unfold expect at ha
    split_ifs at ha with h
    cases ha
    rw [(Cursor.sees_eq_true h).1.rest, List.length_cons]
  mirrored {c c' c₁ a} hc ha hle := by
    unfold expect at ha ⊢
    split_ifs at ha with h
    cases ha
    have hrest := (Cursor.sees_eq_true h).1.rest
    have hlt : tail.length < c.rest.length := by
      rw [hrest, List.length_cons]
      omega
    obtain ⟨hpeek, -, hsees, hadv⟩ := hc.next hlt
    have hend : c.atEnd = false := by
      simp only [Cursor.sees, Bool.and_eq_true, Bool.not_eq_true'] at h
      exact h.1
    exact ⟨_, by rw [hsees, if_pos h, hpeek], hadv hend⟩

theorem follows_literal? :
    Follows ρ tail tail' 1 0 literal? literal? (Option.map (Expr.relabel ρ)) := by
  refine (follows_acceptAny ρ tail tail' _).bind 0 rfl fun t => ?_
  cases t with
  | none => exact .pure (by rfl) 1
  | some t =>
    dsimp only [Option.map_some]
    rw [ρ.kind_token, ρ.literal_token]
    split
    case h_6 => exact .never fun c a c₁ h => by cases h
    all_goals exact .pure (by rfl) 1

/-! ### Expressions -/

/-- The rules for expressions give the changed trees, from the bound `n` on. Each of them looks at
the token after the expression. -/
structure ExprFollows (n : Nat) : Prop where
  expression : ∀ m, n ≤ m →
    Follows ρ tail tail' 1 0 (expression n) (expression m) (Expr.relabel ρ)
  ternary : ∀ m, n ≤ m → Follows ρ tail tail' 1 0 (ternary n) (ternary m) (Expr.relabel ρ)
  level : ∀ m, n ≤ m → ∀ l, Follows ρ tail tail' 1 0 (level n l) (level m l) (Expr.relabel ρ)
  operand : ∀ m, n ≤ m → ∀ l,
    Follows ρ tail tail' 1 0 (operand n l) (operand m l) (Expr.relabel ρ)
  chain : ∀ m, n ≤ m → ∀ l lhs,
    Follows ρ tail tail' 1 0 (chain n l lhs) (chain m l (lhs.relabel ρ)) (Expr.relabel ρ)
  unary : ∀ m, n ≤ m → Follows ρ tail tail' 1 0 (unary n) (unary m) (Expr.relabel ρ)
  suffixes : ∀ m, n ≤ m → ∀ e,
    Follows ρ tail tail' 1 0 (suffixes n e) (suffixes m (e.relabel ρ)) (Expr.relabel ρ)
  arguments : ∀ m, n ≤ m → ∀ count,
    Follows ρ tail tail' 1 0 (arguments n count) (arguments m count) (Expr.relabelAll ρ)
  primary : ∀ m, n ≤ m → Follows ρ tail tail' 1 0 (primary n) (primary m) (Expr.relabel ρ)

variable {ρ tail tail'}

theorem assignment?_relabel (target value : Expr) :
    assignment? (target.relabel ρ) (value.relabel ρ) =
      (assignment? target value).map (Expr.relabel ρ) := by
  cases target with
  | ternary _ _ _ no => cases no <;> rfl
  | _ => rfl

theorem Level.relabel_node (l : Level) (op : Token) (lhs rhs : Expr) :
    (l.node op lhs rhs).relabel ρ = l.node (ρ.token op) (lhs.relabel ρ) (rhs.relabel ρ) := by
  cases l <;> rfl

namespace ExprFollows

variable {n m : Nat}

theorem expression_succ (ih : ExprFollows ρ tail tail' n) (hm : n ≤ m) :
    Follows ρ tail tail' 1 0 (Parser.expression (n + 1)) (Parser.expression (m + 1))
      (Expr.relabel ρ) := by
  rw [Parser.expression, Parser.expression]
  refine (ih.ternary m hm).bind 0 rfl fun target => ?_
  refine (follows_accept ρ tail tail' _).bind 0 rfl fun t => ?_
  cases t with
  | none => exact .pure (by rfl) 1
  | some equals =>
    refine (ih.expression m hm).bind 0 rfl fun value => ?_
    rw [assignment?_relabel]
    cases assignment? target value with
    | none => exact .never fun c a c₁ h => by cases h
    | some e => exact .pure (by rfl) 1

theorem ternary_succ (ih : ExprFollows ρ tail tail' n) (hm : n ≤ m) :
    Follows ρ tail tail' 1 0 (Parser.ternary (n + 1)) (Parser.ternary (m + 1))
      (Expr.relabel ρ) := by
  rw [Parser.ternary, Parser.ternary]
  refine (ih.level m hm .or).bind 0 rfl fun cond => ?_
  refine (follows_accept ρ tail tail' _).bind 0 rfl fun t => ?_
  cases t with
  | none => exact .pure (by rfl) 1
  | some question =>
    refine (ih.expression m hm).bind 0 rfl fun yes => ?_
    refine (follows_accept ρ tail tail' _).bind 0 rfl fun t => ?_
    cases t with
    | none => exact .pure (by rfl) 1
    | some _ =>
      refine (ih.expression m hm).bind 0 rfl fun no => ?_
      exact .pure (by rfl) 1

theorem operand_succ (ih : ExprFollows ρ tail tail' n) (hm : n ≤ m) (l : Level) :
    Follows ρ tail tail' 1 0 (Parser.operand (n + 1) l) (Parser.operand (m + 1) l)
      (Expr.relabel ρ) := by
  rw [Parser.operand, Parser.operand]
  cases l.tighter? with
  | none => exact ih.unary m hm
  | some l' => exact ih.level m hm l'

theorem chain_succ (ih : ExprFollows ρ tail tail' n) (hm : n ≤ m) (l : Level) (lhs : Expr) :
    Follows ρ tail tail' 1 0 (Parser.chain (n + 1) l lhs)
      (Parser.chain (m + 1) l (lhs.relabel ρ)) (Expr.relabel ρ) := by
  rw [Parser.chain, Parser.chain]
  refine (follows_acceptAny ρ tail tail' _).bind 0 rfl fun t => ?_
  cases t with
  | none => exact .pure (by rfl) 1
  | some op =>
    refine (ih.operand m hm l).bind 0 rfl fun rhs => ?_
    have := ih.chain m hm l (l.node op lhs rhs)
    rwa [Level.relabel_node] at this

theorem unary_succ (ih : ExprFollows ρ tail tail' n) (hm : n ≤ m) :
    Follows ρ tail tail' 1 0 (Parser.unary (n + 1)) (Parser.unary (m + 1)) (Expr.relabel ρ) := by
  rw [Parser.unary, Parser.unary]
  refine (follows_acceptAny ρ tail tail' _).bind 0 rfl fun t => ?_
  cases t with
  | none =>
    refine (ih.primary m hm).bind 0 rfl fun e => ?_
    exact ih.suffixes m hm e
  | some op =>
    refine (ih.unary m hm).bind 0 rfl fun e => ?_
    exact .pure (by rfl) 1

theorem suffixes_succ (ih : ExprFollows ρ tail tail' n) (hm : n ≤ m) (e : Expr) :
    Follows ρ tail tail' 1 0 (Parser.suffixes (n + 1) e) (Parser.suffixes (m + 1) (e.relabel ρ))
      (Expr.relabel ρ) := by
  rw [Parser.suffixes, Parser.suffixes]
  refine (follows_accept ρ tail tail' _).bind 0 rfl fun t => ?_
  cases t with
  | none =>
    refine (follows_accept ρ tail tail' _).bind 0 rfl fun t => ?_
    cases t with
    | none => exact .pure (by rfl) 1
    | some _ =>
      refine (follows_expect ρ tail tail' _ _ _).bind 0 rfl fun name => ?_
      exact ih.suffixes m hm (.get e name)
  | some _ =>
    have close : ∀ args, Follows ρ tail tail' 1 0
        (expect .rightParen .endOfArguments >>= fun paren =>
          Parser.suffixes n (.call e paren args))
        (expect .rightParen .endOfArguments >>= fun paren =>
          Parser.suffixes m (.call (e.relabel ρ) paren (Expr.relabelAll ρ args)))
        (Expr.relabel ρ) := by
      intro args
      refine (follows_expect ρ tail tail' _ _ _).bind 0 rfl fun paren => ?_
      exact ih.suffixes m hm (.call e paren args)
    refine (follows_sees ρ tail tail' _).bind 0 rfl fun b => ?_
    cases b with
    | true => exact close []
    | false =>
      refine (ih.arguments m hm 0).bind 0 rfl fun args => ?_
      exact close args

theorem arguments_succ (ih : ExprFollows ρ tail tail' n) (hm : n ≤ m) (count : Nat) :
    Follows ρ tail tail' 1 0 (Parser.arguments (n + 1) count) (Parser.arguments (m + 1) count)
      (Expr.relabelAll ρ) := by
  rw [Parser.arguments, Parser.arguments]
  split_ifs
  · exact .never fun c a c₁ h => by cases h
  refine (ih.expression m hm).bind 0 rfl fun arg => ?_
  refine (follows_accept ρ tail tail' _).bind 0 rfl fun t => ?_
  cases t with
  | none => exact .pure (by rfl) 1
  | some _ =>
    refine (ih.arguments m hm (count + 1)).bind 0 rfl fun rest => ?_
    exact .pure (by rfl) 1

theorem primary_succ (ih : ExprFollows ρ tail tail' n) (hm : n ≤ m) :
    Follows ρ tail tail' 1 0 (Parser.primary (n + 1)) (Parser.primary (m + 1))
      (Expr.relabel ρ) := by
  rw [Parser.primary, Parser.primary]
  refine (follows_literal? ρ tail tail').bind 0 rfl fun d => ?_
  cases d with
  | some e => exact .pure (by rfl) 1
  | none =>
    refine (follows_accept ρ tail tail' _).bind 0 rfl fun t => ?_
    cases t with
    | some name =>
      refine (follows_freshId ρ tail tail').bind 0 rfl fun id => ?_
      exact .pure (by simp [Expr.relabel]) 1
    | none =>
      refine (follows_accept ρ tail tail' _).bind 0 rfl fun t => ?_
      cases t with
      | none => exact .never fun c a c₁ h => by cases h
      | some _ =>
        refine (ih.expression m hm).bind 0 rfl fun inner => ?_
        refine (follows_expect ρ tail tail' _ _ _).bind 0 rfl fun _ => ?_
        exact .pure (by rfl) 1

end ExprFollows

/-- The rules for expressions at every bound. -/
theorem exprFollows (n : Nat) : ExprFollows ρ tail tail' n := by
  induction n with
  | zero =>
    constructor
    all_goals intros
    all_goals exact .never fun c a c₁ h => by cases h
  | succ n ih =>
    have pred : ∀ {m}, n + 1 ≤ m → ∃ k, m = k + 1 ∧ n ≤ k := by
      intro m hm
      exact ⟨m - 1, by omega, by omega⟩
    constructor
    · intro m hm
      obtain ⟨k, rfl, hk⟩ := pred hm
      exact ih.expression_succ hk
    · intro m hm
      obtain ⟨k, rfl, hk⟩ := pred hm
      exact ih.ternary_succ hk
    · intro m hm l
      obtain ⟨k, rfl, hk⟩ := pred hm
      rw [Parser.level, Parser.level]
      refine (ih.operand k hk l).bind 0 rfl fun lhs => ?_
      exact ih.chain k hk l lhs
    · intro m hm l
      obtain ⟨k, rfl, hk⟩ := pred hm
      exact ih.operand_succ hk l
    · intro m hm l lhs
      obtain ⟨k, rfl, hk⟩ := pred hm
      exact ih.chain_succ hk l lhs
    · intro m hm
      obtain ⟨k, rfl, hk⟩ := pred hm
      exact ih.unary_succ hk
    · intro m hm e
      obtain ⟨k, rfl, hk⟩ := pred hm
      exact ih.suffixes_succ hk e
    · intro m hm count
      obtain ⟨k, rfl, hk⟩ := pred hm
      exact ih.arguments_succ hk count
    · intro m hm
      obtain ⟨k, rfl, hk⟩ := pred hm
      exact ih.primary_succ hk

/-! ### Statements -/

theorem follows_parameters (n : Nat) : ∀ m, n ≤ m → ∀ count,
    Follows ρ tail tail' 1 0 (parameters n count) (parameters m count) (List.map ρ.token) := by
  induction n with
  | zero => exact fun m _ count => .never fun c a c₁ h => by cases h
  | succ n ih =>
    intro m hm count
    obtain ⟨k, rfl, hk⟩ : ∃ k, m = k + 1 ∧ n ≤ k := ⟨m - 1, by omega, by omega⟩
    rw [parameters, parameters]
    split_ifs
    · exact .never fun c a c₁ h => by cases h
    refine (follows_expect ρ tail tail' _ _ _).bind 0 rfl fun param => ?_
    refine (follows_accept ρ tail tail' _).bind 0 rfl fun t => ?_
    cases t with
    | none => exact .pure (by rfl) 1
    | some _ =>
      refine (ih k hk (count + 1)).bind 0 rfl fun rest => ?_
      exact .pure (by rfl) 1

section Simple

variable {n m : Nat}

/-- A statement that ends in a semicolon. -/
theorem follows_semicolon (cause : ParseCause) (s : Stmt) :
    Follows ρ tail tail' 0 1 (do let _ ← expect .semicolon cause; return s)
      (do let _ ← expect .semicolon cause; return s.relabel ρ) (Stmt.relabel ρ) :=
  (follows_expect ρ tail tail' _ _ _).bind 0 rfl (fun _ => .pure rfl 0)

theorem follows_varDecl (hm : n ≤ m) :
    Follows ρ tail tail' 0 1 (varDecl n) (varDecl m) (Stmt.relabel ρ) := by
  unfold varDecl
  refine (follows_expect ρ tail tail' _ _ _).bind 1 rfl fun name => ?_
  refine (follows_accept ρ tail tail' _).bind 1 rfl fun t => ?_
  cases t with
  | none => exact follows_semicolon .endOfDeclaration (.varDecl name none)
  | some _ =>
    refine ((exprFollows n).expression m hm).bind 1 rfl fun init => ?_
    exact follows_semicolon .endOfDeclaration (.varDecl name (some init))

theorem follows_printStmt (hm : n ≤ m) :
    Follows ρ tail tail' 0 1 (printStmt n) (printStmt m) (Stmt.relabel ρ) := by
  unfold printStmt
  refine ((exprFollows n).expression m hm).bind 1 rfl fun value => ?_
  exact follows_semicolon .endOfPrint (.print value)

theorem follows_returnStmt (hm : n ≤ m) (keyword : Token) :
    Follows ρ tail tail' 0 1 (returnStmt n keyword) (returnStmt m (ρ.token keyword))
      (Stmt.relabel ρ) := by
  unfold returnStmt
  refine (follows_sees ρ tail tail' _).bind 1 rfl fun b => ?_
  cases b with
  | true => exact follows_semicolon .endOfReturn (.ret keyword none)
  | false =>
    refine ((exprFollows n).expression m hm).bind 1 rfl fun value => ?_
    exact follows_semicolon .endOfReturn (.ret keyword (some value))

theorem follows_exprStmt (hm : n ≤ m) :
    Follows ρ tail tail' 0 1 (exprStmt n) (exprStmt m) (Stmt.relabel ρ) := by
  unfold exprStmt
  refine ((exprFollows n).expression m hm).bind 1 rfl fun value => ?_
  exact follows_semicolon .endOfExpression (.expr value)

end Simple

variable (ρ tail tail') in
/-- The rules for statements give the changed trees, from the bound `n` on. A statement is complete
without the token after it, unless that is an `else`. -/
structure StmtFollows (n : Nat) : Prop where
  declaration : ∀ m, n ≤ m →
    Follows ρ tail tail' 0 1 (declaration n) (declaration m) (Stmt.relabel ρ)
  statement : ∀ m, n ≤ m →
    Follows ρ tail tail' 0 1 (statement n) (statement m) (Stmt.relabel ρ)
  block : ∀ m, n ≤ m → Follows ρ tail tail' 0 1 (block n) (block m) (Stmt.relabelAll ρ)
  ifStmt : ∀ m, n ≤ m → Follows ρ tail tail' 0 1 (ifStmt n) (ifStmt m) (Stmt.relabel ρ)
  whileStmt : ∀ m, n ≤ m → ∀ keyword, Follows ρ tail tail' 0 1 (whileStmt n keyword)
    (whileStmt m (ρ.token keyword)) (Stmt.relabel ρ)
  function : ∀ m, n ≤ m → ∀ kind,
    Follows ρ tail tail' 0 1 (function n kind) (function m kind) (FunDecl.relabel ρ)
  classDecl : ∀ m, n ≤ m → Follows ρ tail tail' 0 1 (classDecl n) (classDecl m) (Stmt.relabel ρ)
  methods : ∀ m, n ≤ m →
    Follows ρ tail tail' 0 1 (methods n) (methods m) (FunDecl.relabelAll ρ)

namespace StmtFollows

variable {n m : Nat}

theorem declaration_succ (ih : StmtFollows ρ tail tail' n) (hm : n ≤ m) :
    Follows ρ tail tail' 0 1 (Parser.declaration (n + 1)) (Parser.declaration (m + 1))
      (Stmt.relabel ρ) := by
  rw [Parser.declaration, Parser.declaration]
  refine (follows_accept ρ tail tail' _).bind 1 rfl fun t => ?_
  cases t with
  | none => exact ih.statement m hm
  | some _ => exact follows_varDecl hm

theorem statement_succ (ih : StmtFollows ρ tail tail' n) (hm : n ≤ m) :
    Follows ρ tail tail' 0 1 (Parser.statement (n + 1)) (Parser.statement (m + 1))
      (Stmt.relabel ρ) := by
  rw [Parser.statement, Parser.statement]
  refine (follows_acceptAny ρ tail tail' _).bind 1 rfl fun t => ?_
  cases t with
  | none => exact follows_exprStmt hm
  | some t =>
    dsimp only [Option.map_some]
    rw [ρ.kind_token]
    split
    · exact follows_printStmt hm
    · exact ih.ifStmt m hm
    · exact ih.whileStmt m hm t
    · exact (ih.function m hm _).bind 0 rfl (fun _ => .pure (by rfl) 0)
    · exact ih.classDecl m hm
    · exact follows_returnStmt hm t
    · exact (ih.block m hm).bind 0 rfl (fun _ => .pure (by rfl) 0)

theorem block_succ (ih : StmtFollows ρ tail tail' n) (hm : n ≤ m) :
    Follows ρ tail tail' 0 1 (Parser.block (n + 1)) (Parser.block (m + 1))
      (Stmt.relabelAll ρ) := by
  rw [Parser.block, Parser.block]
  refine (follows_sees ρ tail tail' _).bind 1 rfl fun closed => ?_
  refine (follows_atEnd ρ tail tail').bind 1 rfl fun ended => ?_
  dsimp only [id]
  split
  · exact (follows_expect ρ tail tail' _ _ _).bind 0 rfl (fun _ => .pure (by rfl) 0)
  · refine (ih.declaration m hm).bind 1 rfl fun first => ?_
    exact (ih.block m hm).bind 0 rfl (fun rest => .pure (by rfl) 0)

theorem ifStmt_succ (ih : StmtFollows ρ tail tail' n)
    (helse : ∀ t ∈ tail'.head?, t.kind ≠ .elseWord) (hm : n ≤ m) :
    Follows ρ tail tail' 0 1 (Parser.ifStmt (n + 1)) (Parser.ifStmt (m + 1))
      (Stmt.relabel ρ) := by
  rw [Parser.ifStmt, Parser.ifStmt]
  refine (follows_expect ρ tail tail' _ _ _).bind 1 rfl fun _ => ?_
  refine ((exprFollows n).expression m hm).bind 1 rfl fun cond => ?_
  refine (follows_expect ρ tail tail' _ _ _).bind 1 rfl fun _ => ?_
  refine (ih.statement m hm).bind 0 rfl fun yes => ?_
  refine (follows_accept_end ρ tail tail' helse).bind 0 rfl fun t => ?_
  cases t with
  | none => exact .pure (by rfl) 0
  | some _ =>
    refine (ih.statement m hm).bind 0 rfl fun no => ?_
    exact .pure (by rfl) 0

theorem whileStmt_succ (ih : StmtFollows ρ tail tail' n) (hm : n ≤ m) (keyword : Token) :
    Follows ρ tail tail' 0 1 (Parser.whileStmt (n + 1) keyword)
      (Parser.whileStmt (m + 1) (ρ.token keyword)) (Stmt.relabel ρ) := by
  rw [Parser.whileStmt, Parser.whileStmt]
  refine (follows_expect ρ tail tail' _ _ _).bind 1 rfl fun _ => ?_
  refine ((exprFollows n).expression m hm).bind 1 rfl fun cond => ?_
  refine (follows_expect ρ tail tail' _ _ _).bind 1 rfl fun _ => ?_
  refine (ih.statement m hm).bind 0 rfl fun body => ?_
  exact .pure (by rfl) 0

/-- The rest of a function after its parameters. -/
theorem function_body (ih : StmtFollows ρ tail tail' n) (hm : n ≤ m) (kind : FunKind)
    (name : Token) (params : List Token) :
    Follows ρ tail tail' 0 1
      (do let _ ← expect .rightParen .endOfParameters
          let _ ← expect .leftBrace (.startOfBody kind)
          let body ← Parser.block n
          return .mk name params body)
      (do let _ ← expect .rightParen .endOfParameters
          let _ ← expect .leftBrace (.startOfBody kind)
          let body ← Parser.block m
          return .mk (ρ.token name) (params.map ρ.token) body)
      (FunDecl.relabel ρ) := by
  refine (follows_expect ρ tail tail' _ _ _).bind 1 rfl fun _ => ?_
  refine (follows_expect ρ tail tail' _ _ _).bind 1 rfl fun _ => ?_
  exact (ih.block m hm).bind 0 rfl (fun body => .pure (by rfl) 0)

theorem function_succ (ih : StmtFollows ρ tail tail' n) (hm : n ≤ m) (kind : FunKind) :
    Follows ρ tail tail' 0 1 (Parser.function (n + 1) kind) (Parser.function (m + 1) kind)
      (FunDecl.relabel ρ) := by
  rw [Parser.function, Parser.function]
  refine (follows_expect ρ tail tail' _ _ _).bind 1 rfl fun name => ?_
  refine (follows_expect ρ tail tail' _ _ _).bind 1 rfl fun _ => ?_
  refine (follows_sees ρ tail tail' _).bind 1 rfl fun b => ?_
  cases b with
  | true => exact ih.function_body hm kind name []
  | false =>
    refine (follows_parameters n m hm 0).bind 1 rfl fun params => ?_
    exact ih.function_body hm kind name params

theorem classDecl_succ (ih : StmtFollows ρ tail tail' n) (hm : n ≤ m) :
    Follows ρ tail tail' 0 1 (Parser.classDecl (n + 1)) (Parser.classDecl (m + 1))
      (Stmt.relabel ρ) := by
  rw [Parser.classDecl, Parser.classDecl]
  refine (follows_expect ρ tail tail' _ _ _).bind 1 rfl fun name => ?_
  refine (follows_expect ρ tail tail' _ _ _).bind 1 rfl fun _ => ?_
  exact (ih.methods m hm).bind 0 rfl (fun _ => .pure (by rfl) 0)

theorem methods_succ (ih : StmtFollows ρ tail tail' n) (hm : n ≤ m) :
    Follows ρ tail tail' 0 1 (Parser.methods (n + 1)) (Parser.methods (m + 1))
      (FunDecl.relabelAll ρ) := by
  rw [Parser.methods, Parser.methods]
  refine (follows_sees ρ tail tail' _).bind 1 rfl fun closed => ?_
  refine (follows_atEnd ρ tail tail').bind 1 rfl fun ended => ?_
  dsimp only [id]
  split
  · exact (follows_expect ρ tail tail' _ _ _).bind 0 rfl (fun _ => .pure (by rfl) 0)
  · refine (ih.function m hm _).bind 1 rfl fun first => ?_
    exact (ih.methods m hm).bind 0 rfl (fun rest => .pure (by rfl) 0)

end StmtFollows

/-- The rules for statements at every bound. -/
theorem stmtFollows (helse : ∀ t ∈ tail'.head?, t.kind ≠ .elseWord) (n : Nat) :
    StmtFollows ρ tail tail' n := by
  induction n with
  | zero =>
    constructor
    all_goals intros
    all_goals exact .never fun c a c₁ h => by cases h
  | succ n ih =>
    have pred : ∀ {m}, n + 1 ≤ m → ∃ k, m = k + 1 ∧ n ≤ k := by
      intro m hm
      exact ⟨m - 1, by omega, by omega⟩
    constructor
    · intro m hm
      obtain ⟨k, rfl, hk⟩ := pred hm
      exact ih.declaration_succ hk
    · intro m hm
      obtain ⟨k, rfl, hk⟩ := pred hm
      exact ih.statement_succ hk
    · intro m hm
      obtain ⟨k, rfl, hk⟩ := pred hm
      exact ih.block_succ hk
    · intro m hm
      obtain ⟨k, rfl, hk⟩ := pred hm
      exact ih.ifStmt_succ helse hk
    · intro m hm keyword
      obtain ⟨k, rfl, hk⟩ := pred hm
      exact ih.whileStmt_succ hk keyword
    · intro m hm kind
      obtain ⟨k, rfl, hk⟩ := pred hm
      exact ih.function_succ hk kind
    · intro m hm
      obtain ⟨k, rfl, hk⟩ := pred hm
      exact ih.classDecl_succ hk
    · intro m hm
      obtain ⟨k, rfl, hk⟩ := pred hm
      exact ih.methods_succ hk

/-! ### Programs -/

section Programs

/-- All statements of a text, with the end mark among its tokens. -/
theorem follows_statements (helse : ∀ t ∈ tail'.head?, t.kind ≠ .elseWord) (n : Nat) :
    ∀ m, n ≤ m → Follows ρ tail tail' 1 0 (statements n) (statements m) (Stmt.relabelAll ρ) := by
  induction n with
  | zero => exact fun m _ => .never fun c a c₁ h => by cases h
  | succ n ih =>
    intro m hm
    obtain ⟨k, rfl, hk⟩ : ∃ k, m = k + 1 ∧ n ≤ k := ⟨m - 1, by omega, by omega⟩
    rw [statements, statements]
    refine (follows_atEnd ρ tail tail').bind 0 rfl fun ended => ?_
    cases ended with
    | true => exact .pure (by rfl) 1
    | false =>
      refine ((stmtFollows helse n).declaration k hk).bind 0 rfl fun first => ?_
      exact (ih k hk).bind 0 rfl (fun rest => .pure (by rfl) 1)

theorem statements_shorter {n : Nat} {c c₁ : Cursor} {ss : List Stmt}
    (h : statements n c = .ok ss c₁) : c₁.rest.length ≤ c.rest.length := by
  have : Follows .refl [] [] 1 0 (statements n) (statements n) (Stmt.relabelAll .refl) :=
    follows_statements (by simp) n n le_rfl
  exact this.shorter h

/-- After the statements of a text, those of the other tail are parsed. -/
theorem statements_then (helse : ∀ t ∈ tail'.head?, t.kind ≠ .elseWord) :
    ∀ {n : Nat} {c c' c₁ : Cursor} {ss : List Stmt}, c.Mirrors ρ tail tail' c' →
      statements n c = .ok ss c₁ → tail.length ≤ c₁.rest.length →
      c₁.rest.length + ss.length ≤ c.rest.length ∧
      ∃ c₁', c₁.Mirrors ρ tail tail' c₁' ∧ ∀ m, n ≤ m + ss.length → ∀ {more c₂},
        statements m c₁' = .ok more c₂ →
        statements (m + ss.length) c' = .ok (Stmt.relabelAll ρ ss ++ more) c₂
  | 0, _, _, _, _, _, h, _ => by cases h
  | n + 1, c, c', c₁, ss, hc, h, hle => by
    rw [statements] at h
    obtain ⟨ended, c₀, h₀, h⟩ := ok_bind.1 h
    cases h₀
    cases hend : c.atEnd with
    | true =>
      rw [hend] at h
      cases h
      exact ⟨le_refl _, c', hc, fun m _ more c₂ h => h⟩
    | false =>
      rw [hend] at h
      obtain ⟨first, c₂, hf, h⟩ := ok_bind.1 h
      obtain ⟨rest, c₃, hr, h⟩ := ok_bind.1 h
      cases h
      have follows : StmtFollows ρ tail tail' n := stmtFollows helse n
      have hshort := (follows.declaration n le_rfl).shorter hf
      have hle₂ : c₁.rest.length ≤ c₂.rest.length := statements_shorter hr
      have hend' : c'.atEnd = false := by rw [(hc.next (by omega)).2.1, hend]
      obtain ⟨c₂', -, hc₂⟩ := (follows.declaration n le_rfl).mirrored hc hf (by omega)
      obtain ⟨hlen, c₁', hc₁, ih⟩ := statements_then helse hc₂ hr hle
      refine ⟨by rw [List.length_cons]; omega, c₁', hc₁, fun m hm more c₄ hmore => ?_⟩
      rw [List.length_cons] at hm
      obtain ⟨c₅', hf', hc₅⟩ :=
        (follows.declaration (m + rest.length) (by omega)).mirrored hc hf (by omega)
      cases hc₅.unique hc₂
      rw [List.length_cons, ← Nat.add_assoc, statements]
      refine ok_bind.2 ⟨false, c', by rw [← hend']; rfl, ok_bind.2 ⟨_, _, hf', ?_⟩⟩
      exact ok_bind.2 ⟨_, _, ih m (by omega) hmore, rfl⟩

theorem program_eq_ok {c c₁ : Cursor} {p : Program} :
    program c = .ok p c₁ ↔
      statements (depthFor c) c = .ok p.stmts c₁ ∧ p.nodes = c₁.nextId := by
  unfold program
  constructor
  · intro h
    obtain ⟨_, _, h₀, h⟩ := ok_bind.1 h
    cases h₀
    obtain ⟨ss, c₂, hs, h⟩ := ok_bind.1 h
    obtain ⟨_, _, h₂, h⟩ := ok_bind.1 h
    cases h₂
    cases h
    exact ⟨hs, rfl⟩
  · rintro ⟨hs, hn⟩
    refine ok_bind.2 ⟨c, c, rfl, ok_bind.2 ⟨_, _, hs, ok_bind.2 ⟨c₁, c₁, rfl, ?_⟩⟩⟩
    rw [← hn]
    rfl

/-- A changed text gives the changed tree. -/
theorem program_relabel {c c₁ : Cursor} {p : Program} (h : program c = .ok p c₁)
    (hend : c₁.rest ≠ []) :
    ∃ c₁', program ⟨c.rest.map ρ.token, c.nextId + ρ.offset⟩ =
        .ok ⟨Stmt.relabelAll ρ p.stmts, p.nodes + ρ.offset⟩ c₁' ∧
      c₁'.rest = c₁.rest.map ρ.token := by
  obtain ⟨hs, hn⟩ := program_eq_ok.1 h
  have hc : c.Mirrors ρ [] [] ⟨c.rest.map ρ.token, c.nextId + ρ.offset⟩ :=
    ⟨⟨c.rest, by simp, by simp⟩, rfl⟩
  have hpos : 1 ≤ c₁.rest.length := List.length_pos_iff.2 hend
  obtain ⟨c₁', hs', ⟨ts, hts, hts'⟩, hid⟩ :=
    (follows_statements (by simp) _ _ le_rfl).mirrored hc hs (by simpa using hpos)
  refine ⟨c₁', program_eq_ok.2 ⟨?_, by rw [hid, hn]⟩, ?_⟩
  · rw [← hs']
    simp [depthFor]
  · rw [hts', hts]
    simp

/-- A text followed by another one, in place of its end mark, is parsed into the statements of
both. -/
theorem program_append {c c₁ d d₁ : Cursor} {p q : Program} {ts : List Token} {e : Token}
    (hp : program c = .ok p c₁) (hc : c.rest = ts ++ [e]) (hc₁ : c₁.rest = [e])
    (hq : program d = .ok q d₁) (hd₁ : d₁.rest ≠ []) (hid : p.nodes = d.nextId + ρ.offset)
    (helse : ∀ t ∈ d.rest.head?, t.kind ≠ .elseWord) :
    ∃ c₂, program ⟨ts ++ d.rest.map ρ.token, c.nextId⟩ =
      .ok ⟨p.stmts ++ Stmt.relabelAll ρ q.stmts, q.nodes + ρ.offset⟩ c₂ := by
  obtain ⟨hs, hn⟩ := program_eq_ok.1 hp
  obtain ⟨hs', hn'⟩ := program_eq_ok.1 hq
  have hmirror : c.Mirrors .refl [e] (d.rest.map ρ.token) ⟨ts ++ d.rest.map ρ.token, c.nextId⟩ :=
    ⟨⟨ts, hc, by simp⟩, rfl⟩
  obtain ⟨hlen, c₁', ⟨⟨us, hus, hus'⟩, hid'⟩, happend⟩ :=
    statements_then (by simpa using helse) hmirror hs (by simp [hc₁])
  have hus : us = [] := by simpa [hc₁] using hus
  rw [hus, List.map_nil, List.nil_append] at hus'
  -- the parser stands at the first token of the other text
  have hd : d.Mirrors ρ [] [] c₁' :=
    ⟨⟨d.rest, by simp, by simpa using hus'⟩, by rw [hid', ← hn, hid]; rfl⟩
  have hpos : 1 ≤ d₁.rest.length := List.length_pos_iff.2 hd₁
  let bound := depthFor ⟨ts ++ d.rest.map ρ.token, c.nextId⟩
  have hbound : depthFor c ≤ bound ∧ depthFor d ≤ bound - p.stmts.length ∧
      p.stmts.length ≤ bound := by
    have hshort := statements_shorter hs'
    simp only [hc, hc₁, List.length_append, List.length_cons, List.length_nil] at hlen
    simp only [bound, depthFor, hc, List.length_append, List.length_map, List.length_cons,
      List.length_nil]
    omega
  obtain ⟨d₁', hmore, hd₁'⟩ := (follows_statements (by simp) _ _ hbound.2.1).mirrored hd hs'
    (by simpa using hpos)
  refine ⟨d₁', program_eq_ok.2 ⟨?_, by rw [hd₁'.nextId, hn']⟩⟩
  have := happend _ (by omega) hmore
  rwa [Nat.sub_add_cancel hbound.2.2, Stmt.relabelAll_refl] at this

end Programs

end Parser

end Wandika
